import NyaSniProxy.Router.Order
import NyaSniProxy.Library.Code

/-!
# What the fingerprint tells apart

The stream behind a fingerprint is a list of proxies and a list of rules, each entry in a
self-delimiting code, and nothing says where the one list ends and the other begins. So the stream
and the number of proxies determine how hosts are routed, and the stream alone does not: the head of
a rule can be read as a proxy whose URL starts with the eight bytes of a length.

`lastNames` are the proxies that count for a key. They are all that routing depends on.
-/

namespace NyaSniProxy

open Text Code

/-- The texts are UTF-8, and the lists of names fit in memory. -/
structure Representable (yaml : FileConfig) : Prop where
  proxies : ∀ p ∈ yaml.proxies.entries, IsUtf8 p.1 ∧ IsUtf8 p.2
  rules : ∀ r ∈ yaml.rules.entries, IsUtf8 r.1 ∧ ∀ name ∈ r.2.names, IsUtf8 name
  sizes : ∀ r ∈ yaml.rules.entries, r.2.names.length < 256 ^ 8

/-- Two runtimes that route every host alike and have the same hostnames ignoring case. -/
structure RoutesAlike (r r' : Runtime) : Prop where
  lookup : ∀ host, r.router.lookup host = r'.router.lookup host
  hostnames : r.hostnames.map toAsciiLowercase = r'.hostnames.map toAsciiLowercase

theorem RoutesAlike.symm {r r' : Runtime} (h : RoutesAlike r r') : RoutesAlike r' r :=
  ⟨fun host => (h.lookup host).symm, h.hostnames.symm⟩

/-- The proxies of the last rule with this key, ignoring case, in iteration order. -/
def lastNames (rules : List Rule) (key : Bytes) : Option (List Bytes) :=
  (rules.filter fun r => toAsciiLowercase r.1 == key).getLast?.map fun r => r.2.names

/-- For every key the last rule has the same proxies. -/
def SameLastRules (yaml yaml' : FileConfig) : Prop :=
  ∀ key, lastNames yaml.rules.entries key = lastNames yaml'.rules.entries key

variable {parseUrl : Bytes → Option Url} {hash : Bytes → UInt64} {yaml yaml' : FileConfig}
  {runtime runtime' : Runtime}

/-! ## The stream -/

/-- What is fed to the hasher for a proxy. -/
def hashProxy (p : Bytes × Bytes) : Bytes := hashStr p.1 ++ hashStr p.2

/-- What is fed to the hasher for a rule. -/
def hashRule (r : Bytes × List Bytes) : Bytes := hashStr r.1 ++ hashVec r.2

/-- The proxies in the order of the stream. -/
def proxyList (yaml : FileConfig) : List (Bytes × Bytes) :=
  (sortByKey (·.1) yaml.proxies.entries).map fun p => (p.1, p.2)

/-- The rules in the order of the stream. -/
def ruleList (yaml : FileConfig) : List (Bytes × List Bytes) :=
  (sortByKey (fun r => toAsciiLowercase r.1) yaml.rules.entries).map
    fun r => (toAsciiLowercase r.1, r.2.names)

theorem fingerprintStream_eq (yaml : FileConfig) :
    fingerprintStream yaml =
      (proxyList yaml).flatMap hashProxy ++ (ruleList yaml).flatMap hashRule := by
  simp only [fingerprintStream, proxyList, ruleList, List.flatMap_map, hashProxy, hashRule]

theorem mem_proxyList {name url : Bytes} :
    (name, url) ∈ proxyList yaml ↔ yaml.proxies.lookup name = some url := by
  rw [← Option.mem_def, AList.mem_lookup_iff]
  simp only [proxyList, List.mem_map, (sortByKey_perm _ _).mem_iff, Prod.mk.injEq]
  constructor
  · rintro ⟨p, hp, rfl, rfl⟩
    exact hp
  · intro h
    exact ⟨_, h, rfl, rfl⟩

theorem length_proxyList (yaml : FileConfig) :
    (proxyList yaml).length = yaml.proxies.entries.length := by
  rw [proxyList, List.length_map, (sortByKey_perm _ _).length_eq]

theorem mem_ruleList {key : Bytes} {names : List Bytes} :
    (key, names) ∈ ruleList yaml ↔
      ∃ r ∈ yaml.rules.entries, toAsciiLowercase r.1 = key ∧ r.2.names = names := by
  simp only [ruleList, List.mem_map, (sortByKey_perm _ _).mem_iff, Prod.mk.injEq]

/-! ## Reading the stream -/

theorem hashLen_inj {n m : Nat} (hn : n < 256 ^ 8) (hm : m < 256 ^ 8)
    (h : hashLen n = hashLen m) : n = m := by
  refine eq_of_digits hn hm fun i hi => ?_
  have hbyte := List.map_inj_left.mp h i (List.mem_range.mpr hi)
  have hvalue := congrArg UInt8.toNat hbyte
  simpa [Nat.mod_mod] using hvalue

theorem selfDelimiting_hashStr : SelfDelimiting (fun s => 0xff ∉ s) hashStr :=
  selfDelimiting_terminated 0xff

theorem selfDelimiting_hashVec :
    SelfDelimiting (fun names => names.length < 256 ^ 8 ∧ ∀ name ∈ names, 0xff ∉ name) hashVec :=
  SelfDelimiting.counted
    (selfDelimiting_of_length (n := 8) (fun _ => by simp [hashLen]) fun _ _ => hashLen_inj)
    selfDelimiting_hashStr

/-- A proxy as it can stand in a stream. -/
def ProxyText (p : Bytes × Bytes) : Prop := 0xff ∉ p.1 ∧ 0xff ∉ p.2

/-- A rule as it can stand in a stream. -/
def RuleText (r : Bytes × List Bytes) : Prop :=
  0xff ∉ r.1 ∧ r.2.length < 256 ^ 8 ∧ ∀ name ∈ r.2, 0xff ∉ name

theorem selfDelimiting_hashProxy : SelfDelimiting ProxyText hashProxy :=
  selfDelimiting_hashStr.pair selfDelimiting_hashStr

theorem selfDelimiting_hashRule : SelfDelimiting RuleText hashRule :=
  selfDelimiting_hashStr.pair selfDelimiting_hashVec

theorem Representable.proxyText (h : Representable yaml) : ∀ p ∈ proxyList yaml, ProxyText p := by
  rintro ⟨name, url⟩ hp
  obtain ⟨hname, hurl⟩ := h.proxies ⟨name, url⟩ (AList.mem_lookup_iff.mp (mem_proxyList.mp hp))
  exact ⟨hname.not_mem_ff, hurl.not_mem_ff⟩

theorem Representable.ruleText (h : Representable yaml) : ∀ r ∈ ruleList yaml, RuleText r := by
  rintro ⟨key, names⟩ hr
  obtain ⟨rule, hrule, rfl, rfl⟩ := mem_ruleList.mp hr
  obtain ⟨hkey, hnames⟩ := h.rules rule hrule
  refine ⟨?_, h.sizes rule hrule, fun name hname => (hnames name hname).not_mem_ff⟩
  intro hmem
  obtain ⟨b, hb, hlower⟩ := List.mem_map.mp hmem
  exact hkey.not_mem_ff (lower_eq_ff.mp hlower ▸ hb)

/-! ## Routing depends on the last rules -/

/-- Sorting keeps the order of the entries with one key. -/
theorem filter_sortByKey {α : Type} (key : α → Bytes) (xs : List α) (k : Bytes) :
    (sortByKey key xs).filter (key · == k) = xs.filter (key · == k) := by
  have : Std.Total fun a b : α => key a ≤ key b := ⟨fun a b => List.le_total (key a) (key b)⟩
  have : IsTrans α fun a b => key a ≤ key b := ⟨fun _ _ _ => List.le_trans⟩
  have hpair : (xs.filter (key · == k)).Pairwise fun a b => key a ≤ key b := by
    refine List.pairwise_of_forall_mem_list fun a ha b hb => ?_
    rw [eq_of_beq (List.mem_filter.mp ha).2, eq_of_beq (List.mem_filter.mp hb).2]
    exact List.le_refl k
  have hsub : (xs.filter (key · == k)).Sublist (sortByKey key xs) :=
    List.sublist_insertionSort hpair List.filter_sublist
  have hfilter := hsub.filter (key · == k)
  rw [List.filter_filter] at hfilter
  simp only [Bool.and_self] at hfilter
  exact (hfilter.eq_of_length (((sortByKey_perm key xs).filter _).length_eq.symm)).symm

theorem lastNames_eq (yaml : FileConfig) (key : Bytes) :
    lastNames yaml.rules.entries key =
      ((ruleList yaml).filter (·.1 == key)).getLast?.map Prod.snd := by
  rw [ruleList, List.filter_map, List.getLast?_map, Option.map_map]
  have hfilter := filter_sortByKey (fun r : Rule => toAsciiLowercase r.1) yaml.rules.entries key
  simp only [Function.comp_def, lastNames]
  rw [hfilter]

theorem sameLastRules_of_ruleList (h : ruleList yaml = ruleList yaml') :
    SameLastRules yaml yaml' := by
  intro key
  rw [lastNames_eq, lastNames_eq, h]

/-- The key of the default rule in lower case. -/
def defaultKey : Bytes := toAsciiLowercase (ascii "default")

theorem isDefaultKey_eq (key : Bytes) :
    isDefaultKey key = (toAsciiLowercase key == defaultKey) := rfl

/-- The proxies for a host by `lastNames`. -/
theorem refFor_names (rules : List Rule) (host : Bytes) :
    (refFor rules host).map ProxyRef.names =
      (lastNames rules (normalHost host)).or (lastNames rules defaultKey) := by
  have hdefault : (defaultRules rules).getLast?.map (fun r => r.2.names) =
      lastNames rules defaultKey := rfl
  rw [refFor, Option.map_map, Option.map_or]
  change Option.or ((rulesFor rules (normalHost host)).getLast?.map fun r => r.2.names)
    ((defaultRules rules).getLast?.map fun r => r.2.names) = _
  rw [hdefault]
  by_cases hhost : normalHost host = defaultKey
  · have hnone : rulesFor rules (normalHost host) = [] := by
      refine List.eq_nil_iff_forall_not_mem.mpr fun r hr => ?_
      obtain ⟨-, hk, hn⟩ := mem_rulesFor.mp hr
      rw [isDefaultKey_eq, hn, hhost] at hk
      simp at hk
    rw [hnone, hhost]
    cases lastNames rules defaultKey <;> rfl
  · have hfilter : rulesFor rules (normalHost host) =
        rules.filter fun r => toAsciiLowercase r.1 == normalHost host := by
      refine List.filter_congr fun r _ => ?_
      rw [isDefaultKey_eq]
      by_cases hn : toAsciiLowercase r.1 = normalHost host
      · simp [hn, hhost]
      · simp [hn]
    rw [hfilter]
    rfl

/-- The names of the hops of a host. -/
theorem lookup_names (h : Runtime.fromYaml parseUrl hash yaml = .ok runtime) (host : Bytes) :
    some ((runtime.router.lookup host).map Hop.name) =
      (lastNames yaml.rules.entries (normalHost host)).or
        (lastNames yaml.rules.entries defaultKey) := by
  obtain ⟨ref, href, hlookup⟩ := lookup_eq h host
  have hok : ∀ name ∈ ref.names, (proxyOf parseUrl yaml name).isSome := by
    rcases refFor_rule href with ⟨rule, hr, rfl⟩ | ⟨-, rule, hr, rfl⟩
    · exact ((fromYaml_eq_ok.mp h).1.rules rule (List.mem_of_mem_filter hr)).2
    · exact ((fromYaml_eq_ok.mp h).1.rules rule (List.mem_of_mem_filter hr)).2
  rw [hlookup, hopsOf_names hok, ← refFor_names, href]
  rfl

theorem lookup_proxy (h : Runtime.fromYaml parseUrl hash yaml = .ok runtime) {host : Bytes}
    {hop : Hop} (hhop : hop ∈ runtime.router.lookup host) :
    proxyOf parseUrl yaml hop.name = some hop.proxy := by
  obtain ⟨ref, -, hlookup⟩ := lookup_eq h host
  exact mem_hopsOf (hlookup ▸ hhop)

theorem lastNames_isSome {rules : List Rule} {key : Bytes} :
    (lastNames rules key).isSome ↔ ∃ r ∈ rules, toAsciiLowercase r.1 = key := by
  simp [lastNames]

/-- The hostnames are the keys with a last rule, without the default. -/
theorem mem_hostnames_lower (h : Runtime.fromYaml parseUrl hash yaml = .ok runtime) (name : Bytes) :
    name ∈ runtime.hostnames.map toAsciiLowercase ↔
      (lastNames yaml.rules.entries name).isSome ∧ name ≠ defaultKey := by
  rw [(hostnames_sorted h).2, lastNames_isSome]
  simp only [hostKeys, List.mem_map, List.mem_filter, Bool.not_eq_true', isDefaultKey_eq]
  constructor
  · rintro ⟨key, ⟨rule, ⟨hr, hk⟩, rfl⟩, rfl⟩
    exact ⟨⟨rule, hr, rfl⟩, by simpa using hk⟩
  · rintro ⟨⟨rule, hr, rfl⟩, hne⟩
    exact ⟨rule.1, ⟨rule, ⟨hr, by simpa using hne⟩, rfl⟩, rfl⟩

/-- Strictly sorted lists with the same members are the same list. -/
theorem eq_of_sorted {α : Type} (key : α → Bytes) {xs ys : List α}
    (hx : xs.Pairwise fun a b => key a < key b) (hy : ys.Pairwise fun a b => key a < key b)
    (h : ∀ a, a ∈ xs ↔ a ∈ ys) : xs = ys := by
  have hnodup {zs : List α} (hz : zs.Pairwise fun a b => key a < key b) : zs.Nodup := by
    refine hz.imp fun {a b} hlt => ?_
    rintro rfl
    exact List.lt_irrefl _ hlt
  have hperm := (List.perm_ext_iff_of_nodup (hnodup hx) (hnodup hy)).mpr h
  exact hperm.eq_of_pairwise (fun a b _ _ hab hba => absurd hba (List.lt_asymm hab)) hx hy

/-- The last rules and the proxies they name determine the routes. -/
theorem routesAlike_of_sameLastRules
    (h : Runtime.fromYaml parseUrl hash yaml = .ok runtime)
    (h' : Runtime.fromYaml parseUrl hash yaml' = .ok runtime')
    (hrules : SameLastRules yaml yaml')
    (hproxies : ∀ name url, yaml.proxies.lookup name = some url →
      yaml'.proxies.lookup name = some url) : RoutesAlike runtime runtime' := by
  constructor
  · intro host
    have hnames : (runtime.router.lookup host).map Hop.name =
        (runtime'.router.lookup host).map Hop.name := by
      apply Option.some.inj
      rw [lookup_names h, lookup_names h', hrules, hrules]
    refine List.ext_getElem? fun i => ?_
    have hname := congrArg (·[i]?) hnames
    simp only [List.getElem?_map] at hname
    cases hhop : (runtime.router.lookup host)[i]? with
    | none =>
      rw [hhop, Option.map_none, eq_comm, Option.map_eq_none_iff] at hname
      exact hname.symm
    | some hop =>
      rw [hhop, Option.map_some, eq_comm, Option.map_eq_some_iff] at hname
      obtain ⟨hop', hhop', heq⟩ := hname
      rw [hhop']
      have hproxy := lookup_proxy h (List.mem_of_getElem? hhop)
      have hproxy' := lookup_proxy h' (List.mem_of_getElem? hhop')
      obtain ⟨url, hurl, hparse⟩ := Option.bind_eq_some_iff.mp hproxy
      have hsame : proxyOf parseUrl yaml' hop'.name = some hop.proxy :=
        Option.bind_eq_some_iff.mpr ⟨url, heq ▸ hproxies _ url hurl, hparse⟩
      rw [hproxy', Option.some.injEq] at hsame
      cases hop
      cases hop'
      congr
      · exact heq.symm
      · exact hsame.symm
  · refine eq_of_sorted id (hostnames_sorted h).1 (hostnames_sorted h').1 fun name => ?_
    rw [mem_hostnames_lower h, mem_hostnames_lower h', hrules]

/-- A key of a rule that is no default is looked up as it stands. -/
theorem normalHost_key (h : Runtime.fromYaml parseUrl hash yaml = .ok runtime) {key : Bytes}
    (hkey : key ∈ runtime.hostnames.map toAsciiLowercase) : normalHost key = key := by
  obtain ⟨name, hname, rfl⟩ := List.mem_map.mp hkey
  have htrim := trimEndMatches_of_hostname (isValidHostname_of_mem h hname)
    (toAsciiLowercase_idem name)
  rw [normalHost, htrim, toAsciiLowercase_idem]

/-- No rule has the empty key. -/
theorem lastNames_nil (h : Runtime.fromYaml parseUrl hash yaml = .ok runtime) :
    lastNames yaml.rules.entries [] = none := by
  rw [← Option.not_isSome_iff_eq_none, lastNames_isSome]
  rintro ⟨rule, hr, hkey⟩
  have hempty : rule.1 = [] := List.map_eq_nil_iff.mp hkey
  have hok := ((fromYaml_eq_ok.mp h).1.rules rule hr).1
  rw [hempty] at hok
  revert hok
  decide

/-- Routers that route alike have the same last rules. -/
theorem sameLastRules_of_routesAlike
    (h : Runtime.fromYaml parseUrl hash yaml = .ok runtime)
    (h' : Runtime.fromYaml parseUrl hash yaml' = .ok runtime')
    (halike : RoutesAlike runtime runtime') : SameLastRules yaml yaml' := by
  have hnames (host : Bytes) := (lookup_names h host).symm.trans
    ((congrArg (fun hops => some (hops.map Hop.name)) (halike.lookup host)).trans
      (lookup_names h' host))
  intro key
  by_cases hdefault : key = defaultKey
  · have hboth := hnames []
    rw [show normalHost [] = [] from rfl, lastNames_nil h, lastNames_nil h'] at hboth
    rw [hdefault]
    exact hboth
  · by_cases hkey : key ∈ runtime.hostnames.map toAsciiLowercase
    · have hkey' : key ∈ runtime'.hostnames.map toAsciiLowercase := halike.hostnames ▸ hkey
      have hsome := ((mem_hostnames_lower h key).mp hkey).1
      have hsome' := ((mem_hostnames_lower h' key).mp hkey').1
      have hboth := hnames key
      rw [normalHost_key h hkey] at hboth
      rwa [Option.or_of_isSome hsome, Option.or_of_isSome hsome'] at hboth
    · have hkey' : key ∉ runtime'.hostnames.map toAsciiLowercase := halike.hostnames ▸ hkey
      rw [mem_hostnames_lower h, not_and_not_right] at hkey
      rw [mem_hostnames_lower h', not_and_not_right] at hkey'
      have hnone : lastNames yaml.rules.entries key = none := by
        cases hl : lastNames yaml.rules.entries key with
        | none => rfl
        | some names => exact absurd (hkey (by rw [hl]; rfl)) hdefault
      have hnone' : lastNames yaml'.rules.entries key = none := by
        cases hl : lastNames yaml'.rules.entries key with
        | none => rfl
        | some names => exact absurd (hkey' (by rw [hl]; rfl)) hdefault
      rw [hnone, hnone']

/-! ## Equal streams -/

/-- With equal streams, the proxies of the one configuration are among those of the other. -/
theorem proxies_of_stream_eq (hy : Representable yaml) (hy' : Representable yaml')
    (hstream : fingerprintStream yaml = fingerprintStream yaml')
    (hle : yaml.proxies.entries.length ≤ yaml'.proxies.entries.length) (name url : Bytes)
    (h : yaml.proxies.lookup name = some url) : yaml'.proxies.lookup name = some url := by
  rw [fingerprintStream_eq, fingerprintStream_eq] at hstream
  rw [← length_proxyList, ← length_proxyList] at hle
  obtain ⟨more, hmore, -⟩ :=
    selfDelimiting_hashProxy.exists_append hy.proxyText hy'.proxyText hle hstream
  rw [← mem_proxyList] at h ⊢
  rw [hmore]
  exact List.mem_append_left more h

/-- With as many proxies, equal streams have the same rules. -/
theorem ruleList_of_stream_eq (hy : Representable yaml) (hy' : Representable yaml')
    (hstream : fingerprintStream yaml = fingerprintStream yaml')
    (hlen : yaml.proxies.entries.length = yaml'.proxies.entries.length) :
    ruleList yaml = ruleList yaml' := by
  rw [fingerprintStream_eq, fingerprintStream_eq] at hstream
  rw [← length_proxyList, ← length_proxyList] at hlen
  obtain ⟨-, hrules⟩ := selfDelimiting_hashProxy.flatMap hy.proxyText hy'.proxyText hlen hstream
  refine selfDelimiting_hashRule.flatMap_inj (fun r => ?_) hy.ruleText hy'.ruleText hrules
  simp [hashRule, hashStr]

/-- Without case variants the list of rules is sorted strictly. -/
theorem DistinctKeys.ruleList_sorted (hd : DistinctKeys yaml) :
    (ruleList yaml).Pairwise fun a b => a.1 < b.1 := by
  have hnodup : (yaml.rules.entries.map fun r => toAsciiLowercase r.1).Nodup :=
    List.Nodup.map_on (fun _ hr _ hr' => hd.rule_ext hr hr') yaml.rules.nodupKeys.nodup
  exact List.pairwise_map.mpr (sortByKey_pairwise_lt _ hnodup)

/-- Without case variants every rule is the last one of its key. -/
theorem DistinctKeys.mem_ruleList (hd : DistinctKeys yaml) {key : Bytes} {names : List Bytes} :
    (key, names) ∈ ruleList yaml ↔ lastNames yaml.rules.entries key = some names := by
  rw [NyaSniProxy.mem_ruleList, lastNames, Option.map_eq_some_iff]
  constructor
  · rintro ⟨r, hr, rfl, rfl⟩
    cases hlast : (yaml.rules.entries.filter fun r' =>
        toAsciiLowercase r'.1 == toAsciiLowercase r.1).getLast? with
    | none =>
      have hfilter := List.filter_eq_nil_iff.mp (List.getLast?_eq_none_iff.mp hlast)
      exact absurd (beq_self_eq_true _) (hfilter r hr)
    | some r' =>
      obtain ⟨hr', hkey⟩ := List.mem_filter.mp (List.mem_of_mem_getLast? hlast)
      exact ⟨r', rfl, by rw [hd.rule_ext hr' hr (eq_of_beq hkey)]⟩
  · rintro ⟨r, hlast, rfl⟩
    obtain ⟨hr, hkey⟩ := List.mem_filter.mp (List.mem_of_mem_getLast? hlast)
    exact ⟨r, hr, eq_of_beq hkey, rfl⟩

theorem ruleList_of_sameLastRules (hd : DistinctKeys yaml) (hd' : DistinctKeys yaml')
    (h : SameLastRules yaml yaml') : ruleList yaml = ruleList yaml' := by
  refine eq_of_sorted Prod.fst hd.ruleList_sorted hd'.ruleList_sorted fun ⟨key, names⟩ => ?_
  rw [hd.mem_ruleList, hd'.mem_ruleList, h]

/-- With the same rules, equal streams have as many proxies. -/
theorem length_of_stream_eq (hy : Representable yaml) (hy' : Representable yaml')
    (hstream : fingerprintStream yaml = fingerprintStream yaml')
    (hrules : ruleList yaml = ruleList yaml') :
    yaml.proxies.entries.length = yaml'.proxies.entries.length := by
  rw [fingerprintStream_eq, fingerprintStream_eq, hrules] at hstream
  have hproxies := selfDelimiting_hashProxy.flatMap_inj (fun p => by simp [hashProxy, hashStr])
    hy.proxyText hy'.proxyText (List.append_cancel_right hstream)
  rw [← length_proxyList, ← length_proxyList, hproxies]

/-- Equal streams stand for the same routes exactly if there are as many proxies, or if, with rule
keys that are equal up to case, the last rules happen to be the same. -/
theorem fingerprintStream_routes
    (h : Runtime.fromYaml parseUrl hash yaml = .ok runtime)
    (h' : Runtime.fromYaml parseUrl hash yaml' = .ok runtime')
    (hy : Representable yaml) (hy' : Representable yaml')
    (hstream : fingerprintStream yaml = fingerprintStream yaml') :
    RoutesAlike runtime runtime' ↔
      yaml.proxies.entries.length = yaml'.proxies.entries.length ∨
        ¬ (DistinctKeys yaml ∧ DistinctKeys yaml') ∧ SameLastRules yaml yaml' := by
  have hroutes (hrules : SameLastRules yaml yaml') : RoutesAlike runtime runtime' := by
    rcases Nat.le_total yaml.proxies.entries.length yaml'.proxies.entries.length with hle | hle
    · exact routesAlike_of_sameLastRules h h' hrules (proxies_of_stream_eq hy hy' hstream hle)
    · exact (routesAlike_of_sameLastRules h' h (fun key => (hrules key).symm)
        (proxies_of_stream_eq hy' hy hstream.symm hle)).symm
  constructor
  · intro halike
    have hrules := sameLastRules_of_routesAlike h h' halike
    by_cases hd : DistinctKeys yaml ∧ DistinctKeys yaml'
    · exact .inl (length_of_stream_eq hy hy' hstream (ruleList_of_sameLastRules hd.1 hd.2 hrules))
    · exact .inr ⟨hd, hrules⟩
  · rintro (hlen | ⟨-, hrules⟩)
    · exact hroutes (sameLastRules_of_ruleList (ruleList_of_stream_eq hy hy' hstream hlen))
    · exact hroutes hrules

/-- `sampleYaml` with its keys in lower case. -/
def respelled : FileConfig :=
  { sampleYaml with
    rules := ⟨sampleYaml.rules.entries.map fun r => ⟨toAsciiLowercase r.1, r.2⟩, by decide⟩ }

theorem fingerprintStream_routes_respelled : ∃ runtime runtime',
    Runtime.fromYaml sampleUrl (fun _ => 0) sampleYaml = .ok runtime ∧
      Runtime.fromYaml sampleUrl (fun _ => 0) respelled = .ok runtime' ∧
      RoutesAlike runtime runtime' := by
  obtain ⟨runtime, h⟩ : ∃ r, Runtime.fromYaml sampleUrl (fun _ => 0) sampleYaml = .ok r := ⟨_, rfl⟩
  obtain ⟨runtime', h'⟩ : ∃ r, Runtime.fromYaml sampleUrl (fun _ => 0) respelled = .ok r :=
    ⟨_, rfl⟩
  refine ⟨runtime, runtime', h, h', (fingerprintStream_routes h h' ?_ ?_ ?_).mpr (.inl rfl)⟩
  · exact ⟨by decide, by decide, by decide⟩
  · exact ⟨by decide, by decide, by decide⟩
  · decide

/-! ## An ambiguous stream -/

/-- A URL parser that skips control characters and spaces in front. -/
def lenientUrl (raw : Bytes) : Option Url := sampleUrl (raw.dropWhile (· ≤ 32))

/-- The name of this proxy is a URL behind a space. -/
def urlName : Bytes := ascii " http://127.0.0.1:8080"

/-- The host goes through the proxy with that name. -/
def hostRule : FileConfig :=
  { sampleYaml with
    proxies := ⟨[⟨urlName, ascii "http://127.0.0.1:8080"⟩,
      ⟨ascii "JP", ascii "http://127.0.0.1:8081"⟩], by decide⟩
    rules := ⟨[⟨ascii "a.com", .single urlName (by decide)⟩,
      ⟨ascii "default", .single (ascii "JP") (by decide)⟩], by decide⟩ }

/-- The host is the name of a proxy, and there is no rule for it. -/
def hostProxy : FileConfig :=
  { sampleYaml with
    proxies := ⟨[⟨urlName, ascii "http://127.0.0.1:8080"⟩,
      ⟨ascii "JP", ascii "http://127.0.0.1:8081"⟩,
      ⟨ascii "a.com", [1, 0, 0, 0, 0, 0, 0, 0] ++ urlName⟩], by decide⟩
    rules := ⟨[⟨ascii "default", .single (ascii "JP") (by decide)⟩], by decide⟩ }

/-- A rule can be read as a proxy: the two configurations have one fingerprint, whatever the hash,
and they route the host differently. -/
theorem fingerprintStream_ambiguous :
    (∀ c raw, c ≤ 32 → lenientUrl (c :: raw) = lenientUrl raw) ∧
      parseYaml (fun _ => some hostRule) [] = .ok hostRule ∧
      parseYaml (fun _ => some hostProxy) [] = .ok hostProxy ∧
      Representable hostRule ∧ Representable hostProxy ∧
      fingerprintStream hostRule = fingerprintStream hostProxy ∧
      ∀ hash, ∃ runtime runtime', Runtime.fromYaml lenientUrl hash hostRule = .ok runtime ∧
        Runtime.fromYaml lenientUrl hash hostProxy = .ok runtime' ∧
        runtime.fingerprint = runtime'.fingerprint ∧
        (runtime.router.lookup (ascii "a.com")).map Hop.name = [urlName] ∧
        (runtime'.router.lookup (ascii "a.com")).map Hop.name = [ascii "JP"] ∧
        runtime.hostnames = [ascii "a.com"] ∧ runtime'.hostnames = [] := by
  have hstream : fingerprintStream hostRule = fingerprintStream hostProxy := by decide
  refine ⟨fun c raw hc => ?_, rfl, rfl, ⟨by decide, by decide, by decide⟩,
    ⟨by decide, by decide, by decide⟩, hstream, fun hash => ?_⟩
  · simp [lenientUrl, hc]
  · refine ⟨_, _, rfl, rfl, congrArg hash hstream, ?_, ?_, ?_, ?_⟩
    all_goals rfl

end NyaSniProxy
