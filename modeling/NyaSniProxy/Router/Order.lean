import NyaSniProxy.Router.Lookup

/-!
# The order of the hash maps

The entries of a hash map come in an arbitrary order. `Runtime.fromYaml` sorts what it reports, and
still the order can show: of two keys that are equal up to case the last one routes and the first
one is reported. The rules are `Unambiguous` if that cannot happen, and for a configuration that
is accepted at all this is exactly when the order does not matter.
-/

namespace NyaSniProxy

open Text

variable {parseUrl : Bytes → Option Url} {hash : Bytes → UInt64}
  {yaml yaml' : FileConfig} {runtime : Runtime}

/-- The same configuration with its hash maps iterated in another order. -/
structure Reordered (yaml yaml' : FileConfig) : Prop where
  listen : yaml'.listen = yaml.listen
  hosts : yaml'.hosts = yaml.hosts
  refresh : yaml'.refresh = yaml.refresh
  http : yaml'.http = yaml.http
  proxies : yaml'.proxies.entries.Perm yaml.proxies.entries
  rules : yaml'.rules.entries.Perm yaml.rules.entries

/-- Two runtimes that differ in nothing a caller can see. -/
structure SameRuntime (r r' : Runtime) : Prop where
  lookup : ∀ host, r.router.lookup host = r'.router.lookup host
  hostnames : r.hostnames = r'.hostnames
  fingerprint : r.fingerprint = r'.fingerprint

/-- Both builds fail, or both succeed with the same runtime. -/
def Agree : Except Error Runtime → Except Error Runtime → Prop
  | .error _, .error _ => True
  | .ok r, .ok r' => SameRuntime r r'
  | _, _ => False

/-- Any two orders of the hash maps give the same outcome. -/
def OrderIndependent (parseUrl : Bytes → Option Url) (hash : Bytes → UInt64)
    (yaml : FileConfig) : Prop :=
  ∀ y y', Reordered yaml y → Reordered yaml y' →
    Agree (Runtime.fromYaml parseUrl hash y) (Runtime.fromYaml parseUrl hash y')

/-- No two hostnames are equal ignoring ASCII case, and all spellings of the default key have
the same proxies. -/
structure Unambiguous (yaml : FileConfig) : Prop where
  hosts : ∀ r ∈ yaml.rules.entries, ∀ r' ∈ yaml.rules.entries,
    isDefaultKey r.1 = false → isDefaultKey r'.1 = false →
      eqIgnoreAsciiCase r.1 r'.1 = true → r.1 = r'.1
  default : ∀ r ∈ yaml.rules.entries, ∀ r' ∈ yaml.rules.entries,
    isDefaultKey r.1 = true → isDefaultKey r'.1 = true → r.2 = r'.2

theorem Reordered.symm_trans {y y' : FileConfig} (h : Reordered yaml y) (h' : Reordered yaml y') :
    Reordered y y' :=
  ⟨h'.listen.trans h.listen.symm, h'.hosts.trans h.hosts.symm, h'.refresh.trans h.refresh.symm,
    h'.http.trans h.http.symm, h'.proxies.trans h.proxies.symm, h'.rules.trans h.rules.symm⟩

/-! ## What does not depend on the order -/

theorem Reordered.proxyOf (h : Reordered yaml yaml') :
    proxyOf parseUrl yaml' = proxyOf parseUrl yaml := by
  funext name
  unfold NyaSniProxy.proxyOf
  rw [AList.perm_lookup h.proxies]

theorem Reordered.usable (h : Reordered yaml yaml') :
    Usable parseUrl yaml' ↔ Usable parseUrl yaml := by
  constructor
  · intro hu
    exact ⟨fun p hp => hu.proxies p (h.proxies.mem_iff.mpr hp),
      fun r hr => h.proxyOf ▸ hu.rules r (h.rules.mem_iff.mpr hr),
      hu.default.imp fun r hr => ⟨h.rules.mem_iff.mp hr.1, hr.2⟩⟩
  · intro hu
    exact ⟨fun p hp => hu.proxies p (h.proxies.mem_iff.mp hp),
      fun r hr => h.proxyOf ▸ hu.rules r (h.rules.mem_iff.mp hr),
      hu.default.imp fun r hr => ⟨h.rules.mem_iff.mpr hr.1, hr.2⟩⟩

theorem Reordered.unambiguous (h : Reordered yaml yaml') (hu : Unambiguous yaml) :
    Unambiguous yaml' :=
  ⟨fun r hr r' hr' => hu.hosts r (h.rules.mem_iff.mp hr) r' (h.rules.mem_iff.mp hr'),
    fun r hr r' hr' => hu.default r (h.rules.mem_iff.mp hr) r' (h.rules.mem_iff.mp hr')⟩

theorem Unambiguous.rule_ext (hu : Unambiguous yaml) {name : Bytes} {r r' : Rule}
    (hr : r ∈ rulesFor yaml.rules.entries name) (hr' : r' ∈ rulesFor yaml.rules.entries name) :
    r = r' := by
  obtain ⟨hm, hk, hn⟩ := mem_rulesFor.mp hr
  obtain ⟨hm', hk', hn'⟩ := mem_rulesFor.mp hr'
  refine NyaSniProxy.rule_ext hm hm' (hu.hosts r hm r' hm' hk hk' ?_)
  exact eqIgnoreAsciiCase_iff.mpr (hn.trans hn'.symm)

/-- The last item of a list, seen through a function that is constant on the list. -/
theorem getLast?_map_of_perm {α β : Type} {f : α → β} {xs ys : List α} (hp : xs.Perm ys)
    (hf : ∀ a ∈ ys, ∀ b ∈ ys, f a = f b) : xs.getLast?.map f = ys.getLast?.map f := by
  cases hx : xs.getLast? with
  | none =>
    obtain rfl := List.getLast?_eq_none_iff.mp hx
    rw [hp.symm.eq_nil]
    rfl
  | some a =>
    have ha := hp.mem_iff.mp (List.mem_of_mem_getLast? hx)
    cases hy : ys.getLast? with
    | none => simp [List.getLast?_eq_none_iff.mp hy] at ha
    | some b => exact congrArg some (hf a ha b (List.mem_of_mem_getLast? hy))

/-- Rules with the same members route every host alike. -/
theorem Unambiguous.refFor_eq (hu : Unambiguous yaml) {rules : List Rule}
    (hp : rules.Perm yaml.rules.entries) (host : Bytes) :
    refFor rules host = refFor yaml.rules.entries host := by
  unfold refFor
  rw [Option.map_or, Option.map_or]
  congr 1
  · refine getLast?_map_of_perm (hp.filter _) fun r hr r' hr' => ?_
    exact congrArg Sigma.snd (hu.rule_ext hr hr')
  · refine getLast?_map_of_perm (hp.filter _) fun r hr r' hr' => ?_
    obtain ⟨hm, hk⟩ := mem_defaultRules.mp hr
    obtain ⟨hm', hk'⟩ := mem_defaultRules.mp hr'
    exact hu.default r hm r' hm' hk hk'

/-- Sorting forgets the order as far as a function can see that agrees on equal keys. -/
theorem sortByKey_map_of_perm {α β : Type} (key : α → Bytes) (f : α → β) {xs ys : List α}
    (hp : xs.Perm ys) (hf : ∀ a ∈ ys, ∀ b ∈ ys, key a = key b → f a = f b) :
    (sortByKey key xs).map f = (sortByKey key ys).map f := by
  have hmem {a : α} : a ∈ sortByKey key ys ↔ a ∈ ys := (sortByKey_perm key ys).mem_iff
  have hperm : (sortByKey key xs).Perm (sortByKey key ys) :=
    (sortByKey_perm key xs).trans (hp.trans (sortByKey_perm key ys).symm)
  have hsorted (zs : List α) :
      ((sortByKey key zs).map fun a => (key a, f a)).Pairwise fun p q => p.1 ≤ q.1 :=
    List.pairwise_map.mpr (sortByKey_pairwise key zs)
  have heq : (sortByKey key xs).map (fun a => (key a, f a)) =
      (sortByKey key ys).map fun a => (key a, f a) := by
    refine (hperm.map _).eq_of_pairwise (fun p q hp hq hpq hqp => ?_) (hsorted xs) (hsorted ys)
    obtain ⟨a, ha, rfl⟩ := List.mem_map.mp hp
    obtain ⟨b, hb, rfl⟩ := List.mem_map.mp hq
    have hkey : key a = key b := List.le_antisymm hpq hqp
    exact Prod.ext hkey (hf a (hmem.mp (hperm.mem_iff.mp ha)) b (hmem.mp hb) hkey)
  simpa [List.map_map, Function.comp_def] using congrArg (List.map Prod.snd) heq

theorem hostKeys_perm {rules rules' : List Rule} (hp : rules.Perm rules') :
    (hostKeys rules).Perm (hostKeys rules') :=
  (hp.filter _).map _

/-- Two host rules of one name are one rule, so every name has one spelling. -/
theorem Unambiguous.nodup_lower (hu : Unambiguous yaml) :
    ((hostKeys yaml.rules.entries).map toAsciiLowercase).Nodup := by
  unfold hostKeys
  rw [List.map_map]
  refine List.Nodup.map_on (fun r hr r' hr' hn => ?_) (yaml.rules.nodupKeys.nodup.filter _)
  rw [List.mem_filter, Bool.not_eq_true'] at hr hr'
  exact hu.rule_ext (mem_rulesFor.mpr ⟨hr.1, hr.2, hn⟩) (mem_rulesFor.mpr ⟨hr'.1, hr'.2, rfl⟩)

theorem Unambiguous.hostnames_eq (hu : Unambiguous yaml) (h : Reordered yaml yaml')
    {proxy proxy' : Bytes → Option ProxyConfig} :
    sortByKey toAsciiLowercase (build proxy' yaml'.rules.entries).hostnames =
      sortByKey toAsciiLowercase (build proxy yaml.rules.entries).hostnames := by
  rw [(build_hostnames yaml'.rules.entries).all (h.unambiguous hu).nodup_lower,
    (build_hostnames yaml.rules.entries).all hu.nodup_lower]
  have hsort := sortByKey_map_of_perm toAsciiLowercase id (hostKeys_perm h.rules)
    (List.inj_on_of_nodup_map hu.nodup_lower)
  simpa using hsort

theorem isDefaultKey_congr {key key' : Bytes} (h : toAsciiLowercase key = toAsciiLowercase key') :
    isDefaultKey key = isDefaultKey key' := by
  unfold isDefaultKey eqIgnoreAsciiCase
  rw [h]

theorem Unambiguous.ref_eq (hu : Unambiguous yaml) {r r' : Rule} (hr : r ∈ yaml.rules.entries)
    (hr' : r' ∈ yaml.rules.entries) (h : toAsciiLowercase r.1 = toAsciiLowercase r'.1) :
    r.2 = r'.2 := by
  have hk := isDefaultKey_congr h
  cases hd : isDefaultKey r.1 with
  | true => exact hu.default r hr r' hr' hd (hk ▸ hd)
  | false =>
    have hmem := mem_rulesFor.mpr ⟨hr, hd, h⟩
    rw [hu.rule_ext hmem (mem_rulesFor.mpr ⟨hr', hk ▸ hd, rfl⟩)]

theorem Unambiguous.fingerprint_eq (hu : Unambiguous yaml) (h : Reordered yaml yaml') :
    routingFingerprint hash yaml' = routingFingerprint hash yaml := by
  unfold routingFingerprint fingerprintStream
  congr 1
  simp only [List.flatMap_def]
  congr 2
  · refine sortByKey_map_of_perm _ _ h.proxies fun p hp p' hp' hkey => ?_
    rw [yaml.proxies.nodupKeys.eq_of_fst_eq hp hp' hkey]
  · refine sortByKey_map_of_perm _ _ h.rules fun r hr r' hr' hkey => ?_
    rw [hkey, hu.ref_eq hr hr' hkey]

/-- An order of an unambiguous configuration changes nothing. -/
theorem Unambiguous.agree (hu : Unambiguous yaml) (h : Reordered yaml yaml')
    (hok : Usable parseUrl yaml) :
    Agree (Runtime.fromYaml parseUrl hash yaml') (Runtime.fromYaml parseUrl hash yaml) := by
  have hrun : Runtime.fromYaml parseUrl hash yaml = .ok _ := fromYaml_eq_ok.mpr ⟨hok, rfl⟩
  have hrun' : Runtime.fromYaml parseUrl hash yaml' = .ok _ :=
    fromYaml_eq_ok.mpr ⟨h.usable.mpr hok, rfl⟩
  have hlookup := lookup_eq hrun
  have hlookup' := lookup_eq hrun'
  rw [hrun, hrun']
  refine ⟨fun host => ?_, hu.hostnames_eq h, hu.fingerprint_eq h⟩
  obtain ⟨ref, href, hl⟩ := hlookup host
  obtain ⟨ref', href', hl'⟩ := hlookup' host
  rw [hu.refFor_eq h.rules, href, Option.some.injEq] at href'
  rw [hl, hl', h.proxyOf, href']

/-! ## What does -/

/-- Any order of the rules is an order of the configuration. -/
theorem exists_reordered {rules : List Rule} (hp : rules.Perm yaml.rules.entries) :
    ∃ y, Reordered yaml y ∧ y.rules.entries = rules := by
  have hn : rules.NodupKeys := (List.perm_nodupKeys hp).mpr yaml.rules.nodupKeys
  exact ⟨{ yaml with rules := ⟨rules, hn⟩ }, ⟨rfl, rfl, rfl, rfl, .refl _, hp⟩, rfl⟩

theorem perm_cons_erase_rule {r : Rule} (hr : r ∈ yaml.rules.entries) :
    (r :: yaml.rules.entries.erase r).Perm yaml.rules.entries :=
  (List.perm_cons_erase hr).symm

/-- The first host rule in the order is reported under its own spelling. -/
theorem exists_reported (hash : Bytes → UInt64) (hok : Usable parseUrl yaml) {r : Rule}
    (hr : r ∈ yaml.rules.entries) (hk : isDefaultKey r.1 = false) : ∃ y runtime, Reordered yaml y ∧
      Runtime.fromYaml parseUrl hash y = .ok runtime ∧ r.1 ∈ runtime.hostnames ∧
        (runtime.hostnames.map toAsciiLowercase).Nodup := by
  obtain ⟨y, hy, hrules⟩ := exists_reordered (perm_cons_erase_rule hr)
  have hrun : Runtime.fromYaml parseUrl hash y = .ok _ :=
    fromYaml_eq_ok.mpr ⟨hy.usable.mpr hok, rfl⟩
  refine ⟨y, _, hy, hrun, ?_, ?_⟩
  · rw [(sortByKey_perm toAsciiLowercase _).mem_iff]
    refine (build_hostnames y.rules.entries).first r.1 ?_
    simp [hrules, hostKeys, hk]
  · exact ((sortByKey_perm toAsciiLowercase _).map _).nodup_iff.mpr
      (build_hostnames y.rules.entries).nodup

/-- The last spelling of the default key in the order is the one that counts. -/
theorem exists_default (hash : Bytes → UInt64) (hok : Usable parseUrl yaml) {r : Rule}
    (hr : r ∈ yaml.rules.entries) (hk : isDefaultKey r.1 = true) : ∃ y runtime, Reordered yaml y ∧
      Runtime.fromYaml parseUrl hash y = .ok runtime ∧
        (runtime.router.lookup []).map Hop.name = r.2.names := by
  have hp : (yaml.rules.entries.erase r ++ [r]).Perm yaml.rules.entries :=
    (List.perm_append_singleton _ _).trans (perm_cons_erase_rule hr)
  obtain ⟨y, hy, hrules⟩ := exists_reordered hp
  have hoky : Usable parseUrl y := hy.usable.mpr hok
  have hrun : Runtime.fromYaml parseUrl hash y = .ok _ := fromYaml_eq_ok.mpr ⟨hoky, rfl⟩
  refine ⟨y, _, hy, hrun, ?_⟩
  obtain ⟨ref, href, hl⟩ := lookup_eq hrun []
  have hnone : rulesFor y.rules.entries (normalHost []) = [] := by
    refine List.eq_nil_iff_forall_not_mem.mpr fun rule hmem => ?_
    obtain ⟨hm, hd, hn⟩ := mem_rulesFor.mp hmem
    have hvalid := (hoky.rules rule hm).1.resolve_left (by simp [hd])
    have hempty : rule.1 = [] := by simpa [normalHost, trimEndMatches, toAsciiLowercase] using hn
    simp [hempty, isValidHostname] at hvalid
  have hlast : (defaultRules y.rules.entries).getLast? = some r := by
    simp [hrules, defaultRules, hk]
  rw [hl]
  obtain rfl : r.2 = ref := by simpa [refFor, hnone, hlast] using href
  have hmem : r ∈ y.rules.entries := by simp [hrules]
  exact hopsOf_names (hoky.rules r hmem).2

theorem ProxyRef.ext_names {a b : ProxyRef} (h : a.names = b.names) : a = b := by
  cases a
  cases b
  congr

/-- If the order does not matter, the rules are unambiguous. -/
theorem unambiguous_of_orderIndependent (hok : Usable parseUrl yaml)
    (h : OrderIndependent parseUrl hash yaml) : Unambiguous yaml := by
  constructor
  · intro r hr r' hr' hk hk' hlower
    obtain ⟨y, runtime, hy, hrun, hmem, hnodup⟩ := exists_reported hash hok hr hk
    obtain ⟨y', runtime', hy', hrun', hmem', -⟩ := exists_reported hash hok hr' hk'
    have hsame := h y y' hy hy'
    rw [hrun, hrun'] at hsame
    exact List.inj_on_of_nodup_map hnodup hmem (hsame.hostnames ▸ hmem')
      (eqIgnoreAsciiCase_iff.mp hlower)
  · intro r hr r' hr' hk hk'
    obtain ⟨y, runtime, hy, hrun, hnames⟩ := exists_default hash hok hr hk
    obtain ⟨y', runtime', hy', hrun', hnames'⟩ := exists_default hash hok hr' hk'
    have hsame := h y y' hy hy'
    rw [hrun, hrun'] at hsame
    refine ProxyRef.ext_names ?_
    rw [← hnames, ← hnames', SameRuntime.lookup hsame]

theorem fromYaml_of_not_usable (hok : ¬ Usable parseUrl yaml) :
    ∃ e, Runtime.fromYaml parseUrl hash yaml = .error e := by
  cases hrun : Runtime.fromYaml parseUrl hash yaml with
  | error e => exact ⟨e, rfl⟩
  | ok runtime => exact absurd (fromYaml_eq_ok.mp hrun).1 hok

/-- The order does not matter exactly if the configuration is accepted in no order, because of a
proxy URL, a key or a proxy name, or its rules are unambiguous. -/
theorem orderIndependent_iff : OrderIndependent parseUrl hash yaml ↔
    ¬ Usable parseUrl yaml ∨ Unambiguous yaml := by
  constructor
  · intro h
    by_cases hok : Usable parseUrl yaml
    · exact .inr (unambiguous_of_orderIndependent hok h)
    · exact .inl hok
  · rintro (hok | hu) y y' hy hy'
    · obtain ⟨e, he⟩ := fromYaml_of_not_usable (mt hy.usable.mp hok)
      obtain ⟨e', he'⟩ := fromYaml_of_not_usable (mt hy'.usable.mp hok)
      rw [he, he']
      trivial
    · by_cases hok : Usable parseUrl yaml
      · exact (hy'.unambiguous hu).agree (hy'.symm_trans hy) (hy'.usable.mpr hok)
      · obtain ⟨e, he⟩ := fromYaml_of_not_usable (mt hy.usable.mp hok)
        obtain ⟨e', he'⟩ := fromYaml_of_not_usable (mt hy'.usable.mp hok)
        rw [he, he']
        trivial

/-- A reference to one proxy. -/
def ProxyRef.single (name : Bytes) (h : name ≠ []) : ProxyRef :=
  ⟨[name], List.cons_ne_nil name [], List.forall_mem_singleton.mpr h⟩

/-- `sampleYaml` with rules for `a.com` and `A.com`. -/
def caseVariants : FileConfig :=
  { sampleYaml with
    rules := ⟨[⟨ascii "a.com", .single (ascii "us") (by decide)⟩,
      ⟨ascii "A.com", .single (ascii "jp") (by decide)⟩,
      ⟨ascii "default", .single (ascii "jp") (by decide)⟩], by decide⟩ }

def caseVariantsText : Bytes := ascii (
  "proxies:\n  jp: http://127.0.0.1:8080\n  us: http://127.0.0.1:8081\n" ++
  "rules:\n  a.com: us\n  A.com: jp\n  default: jp\n")

/-- The host goes through `jp` in this order, and through `us` in the other one. -/
theorem caseVariants_orderDependent :
    parseYaml (fun text => if text = caseVariantsText then some caseVariants else none)
        caseVariantsText = .ok caseVariants ∧
      ¬ OrderIndependent sampleUrl (fun _ => 0) caseVariants := by
  refine ⟨rfl, fun h => ?_⟩
  let swapped : FileConfig :=
    { caseVariants with rules := ⟨caseVariants.rules.entries.reverse, by decide⟩ }
  have hswapped : Reordered caseVariants swapped :=
    ⟨rfl, rfl, rfl, rfl, .refl _, List.reverse_perm _⟩
  have hsame : SameRuntime _ _ :=
    h caseVariants swapped ⟨rfl, rfl, rfl, rfl, .refl _, .refl _⟩ hswapped
  have hlookup := hsame.lookup (ascii "a.com")
  exact absurd (congrArg (List.map Hop.name) hlookup) (by decide)

end NyaSniProxy
