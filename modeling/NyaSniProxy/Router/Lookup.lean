import NyaSniProxy.Router.Build

/-!
# Routing is what the configuration says

For an accepted configuration, `refFor` names the rule a host is routed by: the last one of the
host's normal form, or else the last default rule. If no two keys are equal up to case there is at
most one candidate, so the order of the rules does not matter. `RouteOf` says what a list of hops
has to do with the proxies a rule names, and `Tried` what a run of the fallback loop did.
-/

namespace NyaSniProxy

open Text

variable {parseUrl : Bytes → Option Url} {hash : Bytes → UInt64}
  {yaml : FileConfig} {runtime : Runtime}

/-- The name a host is looked up by. -/
def normalHost (host : Bytes) : Bytes := toAsciiLowercase (trimEndMatches dot host)

/-- The proxies the rules give for a host. -/
def refFor (rules : List Rule) (host : Bytes) : Option ProxyRef :=
  ((rulesFor rules (normalHost host)).getLast?.or (defaultRules rules).getLast?).map Sigma.snd

theorem mem_rulesFor {rules : List Rule} {name : Bytes} {rule : Rule} :
    rule ∈ rulesFor rules name ↔
      rule ∈ rules ∧ isDefaultKey rule.1 = false ∧ toAsciiLowercase rule.1 = name := by
  simp [rulesFor]

theorem mem_defaultRules {rules : List Rule} {rule : Rule} :
    rule ∈ defaultRules rules ↔ rule ∈ rules ∧ isDefaultKey rule.1 = true := by
  simp [defaultRules]

/-- A lookup finds the hops of the rule for the host. -/
theorem lookup_eq (h : Runtime.fromYaml parseUrl hash yaml = .ok runtime) (host : Bytes) :
    ∃ ref, refFor yaml.rules.entries host = some ref ∧
      runtime.router.lookup host = hopsOf (proxyOf parseUrl yaml) ref := by
  obtain ⟨hu, rfl⟩ := fromYaml_eq_ok.mp h
  obtain ⟨d, hd⟩ : ∃ d, (defaultRules yaml.rules.entries).getLast? = some d := by
    obtain ⟨rule, hr, hk⟩ := hu.default
    rw [← Option.isSome_iff_exists, List.getLast?_isSome]
    exact List.ne_nil_of_mem (mem_defaultRules.mpr ⟨hr, hk⟩)
  unfold refFor Router.lookup normalHost
  simp only [build_rules, build_default]
  cases (rulesFor yaml.rules.entries (toAsciiLowercase (trimEndMatches dot host))).getLast? with
  | none => exact ⟨d.2, by simp [hd], by simp [hd]⟩
  | some r => exact ⟨r.2, by simp, by simp⟩

/-- The rule behind `refFor`. -/
theorem refFor_rule {rules : List Rule} {host : Bytes} {ref : ProxyRef}
    (h : refFor rules host = some ref) :
    (∃ rule ∈ rulesFor rules (normalHost host), rule.2 = ref) ∨
      rulesFor rules (normalHost host) = [] ∧ ∃ rule ∈ defaultRules rules, rule.2 = ref := by
  obtain ⟨rule, hr, rfl⟩ := Option.map_eq_some_iff.mp h
  cases hl : (rulesFor rules (normalHost host)).getLast? with
  | none =>
    rw [hl, Option.none_or] at hr
    exact .inr ⟨List.getLast?_eq_none_iff.mp hl, rule, List.mem_of_mem_getLast? hr, rfl⟩
  | some r =>
    rw [hl, Option.some_or, Option.some.injEq] at hr
    exact .inl ⟨rule, hr ▸ List.mem_of_mem_getLast? hl, rfl⟩

/-! ## Unambiguous rules -/

/-- No two rule keys are equal ignoring ASCII case. -/
def DistinctKeys (yaml : FileConfig) : Prop :=
  ∀ r ∈ yaml.rules.entries, ∀ r' ∈ yaml.rules.entries,
    eqIgnoreAsciiCase r.1 r'.1 = true → r.1 = r'.1

instance : Decidable (DistinctKeys yaml) := inferInstanceAs (Decidable (∀ _ ∈ _, ∀ _ ∈ _, _))

/-- Two entries of a hash map with one key are one entry. -/
theorem rule_ext {r r' : Rule} (hr : r ∈ yaml.rules.entries) (hr' : r' ∈ yaml.rules.entries)
    (h : r.1 = r'.1) : r = r' :=
  yaml.rules.nodupKeys.eq_of_fst_eq hr hr' h

theorem DistinctKeys.rule_ext (hd : DistinctKeys yaml) {r r' : Rule}
    (hr : r ∈ yaml.rules.entries) (hr' : r' ∈ yaml.rules.entries)
    (h : toAsciiLowercase r.1 = toAsciiLowercase r'.1) : r = r' :=
  NyaSniProxy.rule_ext hr hr' (hd r hr r' hr' (eqIgnoreAsciiCase_iff.mpr h))

/-- The hops are the configured proxies of these names, in their order. -/
structure RouteOf (parseUrl : Bytes → Option Url) (yaml : FileConfig) (ref : ProxyRef)
    (hops : List Hop) : Prop where
  names : hops.map Hop.name = ref.names
  nonempty : hops ≠ []
  proxies : ∀ hop ∈ hops, ∃ url, yaml.proxies.lookup hop.name = some url ∧
    ProxyConfig.parse parseUrl url = .ok hop.proxy

theorem routeOf_hopsOf {ref : ProxyRef}
    (h : ∀ name ∈ ref.names, (proxyOf parseUrl yaml name).isSome) :
    RouteOf parseUrl yaml ref (hopsOf (proxyOf parseUrl yaml) ref) := by
  refine ⟨hopsOf_names h, hopsOf_ne_nil h, fun hop hhop => ?_⟩
  obtain ⟨url, hl, hp⟩ := Option.bind_eq_some_iff.mp (mem_hopsOf hhop)
  refine ⟨url, hl, ?_⟩
  cases hc : ProxyConfig.parse parseUrl url with
  | error e => simp [hc, Except.toOption] at hp
  | ok c => simpa [hc, Except.toOption] using hp

/-- Every rule of an accepted configuration has a route. -/
theorem routeOf_rule (h : Runtime.fromYaml parseUrl hash yaml = .ok runtime) {rule : Rule}
    (hr : rule ∈ yaml.rules.entries) :
    RouteOf parseUrl yaml rule.2 (hopsOf (proxyOf parseUrl yaml) rule.2) :=
  routeOf_hopsOf ((fromYaml_eq_ok.mp h).1.rules rule hr).2

/-- A host with a rule of its own is routed by it, any other host by the default rule. -/
theorem lookup_routeOf (h : Runtime.fromYaml parseUrl hash yaml = .ok runtime)
    (hd : DistinctKeys yaml) (host : Bytes) :
    (∀ rule ∈ rulesFor yaml.rules.entries (normalHost host),
      RouteOf parseUrl yaml rule.2 (runtime.router.lookup host)) ∧
    (rulesFor yaml.rules.entries (normalHost host) = [] →
      ∀ rule ∈ defaultRules yaml.rules.entries,
        RouteOf parseUrl yaml rule.2 (runtime.router.lookup host)) := by
  obtain ⟨ref, href, hlookup⟩ := lookup_eq h host
  rw [hlookup]
  rcases refFor_rule href with ⟨r, hr, rfl⟩ | ⟨hnone, r, hr, rfl⟩
  · refine ⟨fun rule hrule => ?_, fun he => by simp [he] at hr⟩
    obtain ⟨hr, -, hrn⟩ := mem_rulesFor.mp hr
    obtain ⟨hmem, -, hn⟩ := mem_rulesFor.mp hrule
    obtain rfl := hd.rule_ext hmem hr (hn.trans hrn.symm)
    exact routeOf_rule h hmem
  · refine ⟨by simp [hnone], fun _ rule hrule => ?_⟩
    obtain ⟨hr, hrk⟩ := mem_defaultRules.mp hr
    obtain ⟨hmem, hk⟩ := mem_defaultRules.mp hrule
    have hlower := (eqIgnoreAsciiCase_iff.mp hk).trans (eqIgnoreAsciiCase_iff.mp hrk).symm
    obtain rfl := hd.rule_ext hmem hr hlower
    exact routeOf_rule h hmem

/-! ## Hostnames -/

theorem sortByKey_perm {α : Type} (key : α → Bytes) (xs : List α) : (sortByKey key xs).Perm xs :=
  List.perm_insertionSort _ xs

theorem sortByKey_pairwise {α : Type} (key : α → Bytes) (xs : List α) :
    (sortByKey key xs).Pairwise fun a b => key a ≤ key b :=
  have : Std.Total fun a b : α => key a ≤ key b := ⟨fun a b => List.le_total (key a) (key b)⟩
  have : IsTrans α fun a b => key a ≤ key b := ⟨fun _ _ _ => List.le_trans⟩
  List.pairwise_insertionSort _ xs

/-- Without equal keys the order is strict. -/
theorem sortByKey_pairwise_lt {α : Type} (key : α → Bytes) {xs : List α}
    (h : (xs.map key).Nodup) : (sortByKey key xs).Pairwise fun a b => key a < key b := by
  have hne : ((sortByKey key xs).map key).Nodup :=
    ((sortByKey_perm key xs).map key).nodup_iff.mpr h
  refine ((sortByKey_pairwise key xs).and (List.pairwise_map.mp hne)).imp fun hab => ?_
  exact Std.lt_of_le_of_ne hab.1 hab.2

/-- The hostnames are the names with a rule of their own, strictly sorted. -/
theorem hostnames_sorted (h : Runtime.fromYaml parseUrl hash yaml = .ok runtime) :
    (runtime.hostnames.map toAsciiLowercase).Pairwise (· < ·) ∧
      ∀ name, name ∈ runtime.hostnames.map toAsciiLowercase ↔
        name ∈ (hostKeys yaml.rules.entries).map toAsciiLowercase := by
  obtain ⟨-, rfl⟩ := fromYaml_eq_ok.mp h
  set b := build (proxyOf parseUrl yaml) yaml.rules.entries
  have hb : Spelled (hostKeys yaml.rules.entries) b.hostnames b.seen := build_hostnames _
  have hperm := sortByKey_perm toAsciiLowercase b.hostnames
  constructor
  · exact List.pairwise_map.mpr (sortByKey_pairwise_lt toAsciiLowercase hb.nodup)
  · intro name
    rw [(hperm.map toAsciiLowercase).mem_iff]
    constructor
    · intro hn
      obtain ⟨k, hk, rfl⟩ := List.mem_map.mp hn
      exact List.mem_map_of_mem (hb.subset k hk)
    · intro hn
      obtain ⟨k, hk, rfl⟩ := List.mem_map.mp hn
      exact (hb.seen _).mp (hb.complete k hk)

/-- The hostnames are valid, as the keys of rules are. -/
theorem isValidHostname_of_mem (h : Runtime.fromYaml parseUrl hash yaml = .ok runtime)
    {name : Bytes} (hname : name ∈ runtime.hostnames) : isValidHostname name = true := by
  obtain ⟨hu, rfl⟩ := fromYaml_eq_ok.mp h
  have hmem := (sortByKey_perm toAsciiLowercase _).mem_iff.mp hname
  obtain ⟨rule, hrule, rfl⟩ := List.mem_map.mp ((build_hostnames _).subset _ hmem)
  obtain ⟨hr, hkey⟩ := List.mem_filter.mp hrule
  exact (hu.rules rule hr).1.resolve_left (by simpa using hkey)

/-- Without case variants the hostnames are the keys themselves. -/
theorem mem_hostnames (h : Runtime.fromYaml parseUrl hash yaml = .ok runtime)
    (hd : DistinctKeys yaml) (name : Bytes) :
    name ∈ runtime.hostnames ↔ name ∈ hostKeys yaml.rules.entries := by
  obtain ⟨-, rfl⟩ := fromYaml_eq_ok.mp h
  set b := build (proxyOf parseUrl yaml) yaml.rules.entries
  have hb : Spelled (hostKeys yaml.rules.entries) b.hostnames b.seen := build_hostnames _
  have hnodup : ((hostKeys yaml.rules.entries).map toAsciiLowercase).Nodup := by
    unfold hostKeys
    rw [List.map_map]
    refine List.Nodup.map_on (fun r hr r' hr' => ?_) (yaml.rules.nodupKeys.nodup.filter _)
    exact hd.rule_ext (List.mem_of_mem_filter hr) (List.mem_of_mem_filter hr')
  rw [(sortByKey_perm toAsciiLowercase _).mem_iff, hb.all hnodup]

/-! ## Fallback -/

/-- A connect attempt: its outcome is given by its number, and the attempt is recorded. -/
def attemptNth {α : Type} (outcomes : Nat → Except Error α) (hop : Hop) (target : Target) :
    StateM (List (Hop × Target)) (Except Error α) := fun tried =>
  (outcomes tried.length, tried ++ [(hop, target)])

/-- The first hop whose attempt succeeded is returned and later ones are not tried, or every
attempt failed and the last error is returned. -/
def Tried {α : Type} (outcomes : Nat → Except Error α) (hops : List Hop) (target : Target)
    (result : Except Error α × List (Hop × Target)) : Prop :=
  (∃ i < hops.length, ∃ stream, outcomes i = .ok stream ∧ (∀ j < i, ∃ e, outcomes j = .error e) ∧
    result = (.ok stream, (hops.take (i + 1)).map (·, target))) ∨
  (∀ j < hops.length, ∃ e, outcomes j = .error e) ∧
    ∃ e, outcomes (hops.length - 1) = .error e ∧
      result = (.error e, hops.map (·, target))

section Fallback

variable {α : Type} {outcomes : Nat → Except Error α} {hop : Hop} {target : Target}
  {hops rest : List Hop} {last : Option Error} {tried : List (Hop × Target)}

theorem go_ok {stream : α} (h : outcomes tried.length = .ok stream) :
    connectWithFallback.go (attemptNth outcomes) target (hop :: rest) last tried =
      (.ok stream, tried ++ [(hop, target)]) := by
  rw [connectWithFallback.go]
  simp only [bind, StateT.bind, attemptNth, h]
  rfl

theorem go_error {e : Error} (h : outcomes tried.length = .error e) :
    connectWithFallback.go (attemptNth outcomes) target (hop :: rest) last tried =
      connectWithFallback.go (attemptNth outcomes) target rest (some e)
        (tried ++ [(hop, target)]) := by
  rw [connectWithFallback.go]
  simp only [bind, StateT.bind, attemptNth, h]

/-- The loop from the attempt after `hops`, all of which failed. -/
theorem connectWithFallback_go (hne : hops ++ rest ≠ [])
    (hfail : ∀ j < hops.length, ∃ e, outcomes j = .error e)
    (hlast : ∀ i, hops.length = i + 1 → ∃ e, last = some e ∧ outcomes i = .error e) :
    Tried outcomes (hops ++ rest) target
      (connectWithFallback.go (attemptNth outcomes) target rest last
        (hops.map (·, target))) := by
  induction rest generalizing hops last with
  | nil =>
    obtain ⟨i, hi⟩ : ∃ i, hops.length = i + 1 :=
      Nat.exists_eq_add_one_of_ne_zero (by simpa using hne)
    obtain ⟨e, rfl, he⟩ := hlast i hi
    refine .inr ⟨by simpa using hfail, e, by simpa [hi] using he, ?_⟩
    rw [List.append_nil]
    rfl
  | cons hop rest ih =>
    have htried : (hops.map (·, target)).length = hops.length := List.length_map _
    cases ho : outcomes hops.length with
    | ok stream =>
      refine .inl ⟨hops.length, by simp, stream, ho, hfail, ?_⟩
      rw [go_ok (htried ▸ ho)]
      simp [List.take_append]
    | error e =>
      rw [go_error (htried ▸ ho)]
      rw [List.append_cons] at hne ⊢
      have hmap : hops.map (·, target) ++ [(hop, target)] = (hops ++ [hop]).map (·, target) := by
        simp
      rw [hmap]
      refine ih hne (fun j hj => ?_) fun i hi => ?_
      · rcases Nat.lt_succ_iff_lt_or_eq.mp (by simpa using hj) with hj | rfl
        · exact hfail j hj
        · exact ⟨e, ho⟩
      · obtain rfl : hops.length = i := by simpa using hi
        exact ⟨e, rfl, ho⟩

theorem connectWithFallback_tried (outcomes : Nat → Except Error α) (target : Target)
    (hne : hops ≠ []) :
    Tried outcomes hops target (connectWithFallback (attemptNth outcomes) hops target []) :=
  @connectWithFallback_go α outcomes target [] hops none hne (by simp) (by simp)

end Fallback

/-! ## The whole of routing -/

/-- The runtime of an accepted configuration without case variants: each host's route, the
hostnames, and what the fallback loop does with a route. -/
theorem routing_of_config (h : Runtime.fromYaml parseUrl hash yaml = .ok runtime)
    (hd : DistinctKeys yaml) :
    (∀ host,
      (∀ rule ∈ yaml.rules.entries, isDefaultKey rule.1 = false →
        toAsciiLowercase rule.1 = toAsciiLowercase (trimEndMatches dot host) →
        RouteOf parseUrl yaml rule.2 (runtime.router.lookup host)) ∧
      ((∀ rule ∈ yaml.rules.entries, isDefaultKey rule.1 = false →
        toAsciiLowercase rule.1 ≠ toAsciiLowercase (trimEndMatches dot host)) →
        ∃ rule ∈ yaml.rules.entries, isDefaultKey rule.1 = true ∧
          RouteOf parseUrl yaml rule.2 (runtime.router.lookup host))) ∧
    ((runtime.hostnames.map toAsciiLowercase).Pairwise (· < ·) ∧
      ∀ name, name ∈ runtime.hostnames ↔
        ∃ rule ∈ yaml.rules.entries, isDefaultKey rule.1 = false ∧ rule.1 = name) ∧
    ∀ (α : Type) (outcomes : Nat → Except Error α) (host : Bytes) (target : Target),
      Tried outcomes (runtime.router.lookup host) target
        (connectWithFallback (attemptNth outcomes) (runtime.router.lookup host) target []) := by
  have hlookup := lookup_routeOf h hd
  refine ⟨fun host => ⟨fun rule hr hk hn => ?_, fun hnone => ?_⟩,
    ⟨(hostnames_sorted h).1, fun name => ?_⟩, fun α outcomes host target => ?_⟩
  · exact (hlookup host).1 rule (mem_rulesFor.mpr ⟨hr, hk, hn⟩)
  · obtain ⟨rule, hr, hk⟩ := (fromYaml_eq_ok.mp h).1.default
    have hempty : rulesFor yaml.rules.entries (normalHost host) = [] :=
      List.eq_nil_iff_forall_not_mem.mpr fun r hmem =>
        have ⟨hr, hk, hn⟩ := mem_rulesFor.mp hmem
        hnone r hr hk hn
    exact ⟨rule, hr, hk, (hlookup host).2 hempty rule (mem_defaultRules.mpr ⟨hr, hk⟩)⟩
  · rw [mem_hostnames h hd, hostKeys, List.mem_map]
    simp [and_assoc]
  · apply connectWithFallback_tried
    obtain ⟨ref, href, hl⟩ := lookup_eq h host
    rw [hl]
    rcases refFor_rule href with ⟨r, hr, rfl⟩ | ⟨-, r, hr, rfl⟩
    · exact (routeOf_rule h (mem_rulesFor.mp hr).1).nonempty
    · exact (routeOf_rule h (mem_defaultRules.mp hr).1).nonempty

/-- What the URL parser says about the proxies of `sampleYaml`. -/
def sampleUrl (raw : Bytes) : Option Url :=
  if raw = ascii "http://127.0.0.1:8080" then
    some ⟨ascii "http", ascii "127.0.0.1", some 8080, [], none⟩
  else if raw = ascii "http://127.0.0.1:8081" then
    some ⟨ascii "http", ascii "127.0.0.1", some 8081, [], none⟩
  else none

def sampleYaml : FileConfig where
  listen := none
  hosts := none
  refresh := none
  http := none
  proxies := ⟨[⟨ascii "jp", ascii "http://127.0.0.1:8080"⟩,
    ⟨ascii "us", ascii "http://127.0.0.1:8081"⟩], by decide⟩
  rules := ⟨[⟨ascii "Example.com", ⟨[ascii "us"], by decide, by decide⟩⟩,
    ⟨ascii "www.example.com", ⟨[ascii "us", ascii "jp"], by decide, by decide⟩⟩,
    ⟨ascii "default", ⟨[ascii "jp", ascii "us"], by decide, by decide⟩⟩], by decide⟩

theorem routing_of_sample : ∃ runtime,
    Runtime.fromYaml sampleUrl (fun _ => 0) sampleYaml = .ok runtime ∧
      RouteOf sampleUrl sampleYaml ⟨[ascii "us"], by decide, by decide⟩
        (runtime.router.lookup (ascii "EXAMPLE.COM.")) := by
  obtain ⟨runtime, h⟩ : ∃ r, Runtime.fromYaml sampleUrl (fun _ => 0) sampleYaml = .ok r := ⟨_, rfl⟩
  refine ⟨runtime, h, ?_⟩
  exact ((routing_of_config h (by decide)).1 (ascii "EXAMPLE.COM.")).1
    ⟨ascii "Example.com", _⟩ (by decide) (by decide) (by decide)

end NyaSniProxy
