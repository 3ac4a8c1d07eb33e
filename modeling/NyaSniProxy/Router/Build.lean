import NyaSniProxy.Router
import Mathlib.Data.List.Induction

/-!
# What building a runtime computes

`Runtime.fromYaml` succeeds exactly if every proxy URL parses, every rule is sound and there is a
default rule. Then its loop is a fold of the total function `insertRule`, and each accumulator of
that fold is described on its own: for a host, the last rule of its lower-case name; for the
default, the last default rule; for the hostnames, the first spelling of each name.
-/

namespace NyaSniProxy

open Text

/-- The hops of a rule, given the proxies by name. -/
def hopsOf (proxy : Bytes → Option ProxyConfig) (names : ProxyRef) : List Hop :=
  names.names.filterMap fun name => (proxy name).map fun p => { name, proxy := p }

/-- The key is the default key or a hostname, and every name is a configured proxy. -/
def RuleOk (proxy : Bytes → Option ProxyConfig) (rule : Rule) : Prop :=
  (isDefaultKey rule.1 = true ∨ isValidHostname rule.1 = true) ∧
    ∀ name ∈ rule.2.names, (proxy name).isSome

/-! ## Proxies -/

section Proxies

variable {parseUrl : Bytes → Option Url} {parsed : HashMap Bytes ProxyConfig}

/-- The configuration a name stands for. -/
def proxyOf (parseUrl : Bytes → Option Url) (yaml : FileConfig) (name : Bytes) :
    Option ProxyConfig :=
  (yaml.proxies.lookup name).bind fun url => (ProxyConfig.parse parseUrl url).toOption

/-- The body of the loop over the proxies, on any part of the entries. -/
theorem foldlM_parse {entries : List (Sigma fun _ : Bytes => Bytes)}
    {acc : HashMap Bytes ProxyConfig} (hn : entries.NodupKeys)
    (h : entries.foldlM (fun (parsed : HashMap Bytes ProxyConfig) p => do
      return parsed.insert p.1 (← ProxyConfig.parse parseUrl p.2)) acc = .ok parsed) :
    (∀ p ∈ entries, ∃ c, ProxyConfig.parse parseUrl p.2 = .ok c ∧ parsed.lookup p.1 = some c) ∧
      ∀ name ∉ entries.keys, parsed.lookup name = acc.lookup name := by
  induction entries generalizing acc with
  | nil =>
    obtain rfl := Except.ok.inj h
    simp
  | cons p entries ih =>
    rw [List.foldlM_cons] at h
    cases hc : ProxyConfig.parse parseUrl p.2 with
    | error e => rw [hc] at h; cases h
    | ok c =>
      rw [hc] at h
      obtain ⟨hp, hn⟩ := List.nodupKeys_cons.mp hn
      obtain ⟨hin, hout⟩ := ih hn h
      refine ⟨List.forall_mem_cons.mpr ⟨⟨c, hc, ?_⟩, hin⟩, fun name hname => ?_⟩
      · rw [hout p.1 hp, AList.lookup_insert]
      · simp only [List.keys_cons, List.mem_cons, not_or] at hname
        rw [hout name hname.2, AList.lookup_insert_ne hname.1]

theorem parseProxies_lookup {yaml : FileConfig}
    (h : parseProxies parseUrl yaml.proxies = .ok parsed) :
    parsed.lookup = proxyOf parseUrl yaml := by
  obtain ⟨hin, hout⟩ := foldlM_parse yaml.proxies.nodupKeys h
  funext name
  unfold proxyOf
  cases hl : yaml.proxies.lookup name with
  | none =>
    rw [hout name (AList.lookup_eq_none.mp hl)]
    rfl
  | some url =>
    obtain ⟨c, hc, hl⟩ := hin ⟨name, url⟩ (AList.mem_lookup_iff.mp hl)
    rw [hl]
    simp [hc, Except.toOption]

theorem parseProxies_isOk {proxies : HashMap Bytes Bytes} :
    (∃ parsed, parseProxies parseUrl proxies = .ok parsed) ↔
      ∀ p ∈ proxies.entries, ∃ c, ProxyConfig.parse parseUrl p.2 = .ok c := by
  constructor
  · rintro ⟨parsed, h⟩ p hp
    obtain ⟨c, hc, -⟩ := (foldlM_parse proxies.nodupKeys h).1 p hp
    exact ⟨c, hc⟩
  · unfold parseProxies
    generalize (∅ : HashMap Bytes ProxyConfig) = acc
    generalize proxies.entries = entries
    intro h
    induction entries generalizing acc with
    | nil => exact ⟨acc, rfl⟩
    | cons p entries ih =>
      obtain ⟨c, hc⟩ := h p (List.mem_cons_self ..)
      rw [List.foldlM_cons, hc]
      exact ih _ fun q hq => h q (List.mem_cons_of_mem _ hq)

end Proxies

/-! ## Rules -/

variable {proxies : HashMap Bytes ProxyConfig} {proxy : Bytes → Option ProxyConfig}

theorem resolveName_eq_ok {name : Bytes} {hop : Hop} :
    resolveName proxies name = .ok hop ↔
      (proxies.lookup name).map (fun p => { name, proxy := p }) = some hop := by
  unfold resolveName
  cases proxies.lookup name with
  | none => exact ⟨nofun, nofun⟩
  | some p =>
    exact ⟨fun h => congrArg some (Except.ok.inj h),
      fun h => congrArg Except.ok (Option.some.inj h)⟩

theorem mapM_resolveName {names : List Bytes} {hops : List Hop} :
    names.mapM (resolveName proxies) = .ok hops ↔
      (∀ name ∈ names, (proxies.lookup name).isSome) ∧
        hops = names.filterMap fun name =>
          (proxies.lookup name).map fun p => { name, proxy := p } := by
  induction names generalizing hops with
  | nil =>
    rw [List.mapM_nil, List.filterMap_nil]
    exact ⟨fun h => ⟨by simp, (Except.ok.inj h).symm⟩, fun h => congrArg Except.ok h.2.symm⟩
  | cons name rest ih =>
    rw [List.mapM_cons]
    cases hn : resolveName proxies name with
    | error e =>
      have hl : proxies.lookup name = none := by
        rw [Option.eq_none_iff_forall_ne_some]
        intro p hp
        rw [resolveName_eq_ok.mpr (by rw [hp]; rfl)] at hn
        cases hn
      simp [bind, Except.bind, hl]
    | ok hop =>
      obtain ⟨p, hl, rfl⟩ := Option.map_eq_some_iff.mp (resolveName_eq_ok.mp hn)
      cases hr : rest.mapM (resolveName proxies) with
      | error e =>
        have hbad : ¬ ∀ name ∈ rest, (proxies.lookup name).isSome := fun hall => by
          rw [ih.mpr ⟨hall, rfl⟩] at hr
          cases hr
        simp [bind, Except.bind, hl, hbad]
      | ok tail =>
        obtain ⟨hall, rfl⟩ := ih.mp hr
        have hall' : ∀ n ∈ name :: rest, (proxies.lookup n).isSome :=
          List.forall_mem_cons.mpr ⟨by simp [hl], hall⟩
        rw [List.filterMap_cons_some (by rw [hl]; rfl)]
        exact ⟨fun h => ⟨hall', (Except.ok.inj h).symm⟩, fun h => h.2 ▸ rfl⟩

theorem resolve_eq_ok {names : ProxyRef} {hops : List Hop} :
    resolve proxies names = .ok hops ↔
      (∀ name ∈ names.names, (proxies.lookup name).isSome) ∧
        hops = hopsOf proxies.lookup names :=
  mapM_resolveName

theorem hopsOf_names {names : ProxyRef} (h : ∀ name ∈ names.names, (proxy name).isSome) :
    (hopsOf proxy names).map Hop.name = names.names := by
  unfold hopsOf
  generalize names.names = ns at h
  induction ns with
  | nil => rfl
  | cons name rest ih =>
    obtain ⟨hn, hrest⟩ := List.forall_mem_cons.mp h
    obtain ⟨p, hp⟩ := Option.isSome_iff_exists.mp hn
    rw [List.filterMap_cons_some (by rw [hp]; rfl), List.map_cons, ih hrest]

theorem mem_hopsOf {names : ProxyRef} {hop : Hop} (h : hop ∈ hopsOf proxy names) :
    proxy hop.name = some hop.proxy := by
  obtain ⟨name, -, hn⟩ := List.mem_filterMap.mp h
  obtain ⟨p, hp, rfl⟩ := Option.map_eq_some_iff.mp hn
  exact hp

theorem hopsOf_ne_nil {names : ProxyRef} (h : ∀ name ∈ names.names, (proxy name).isSome) :
    hopsOf proxy names ≠ [] := by
  intro he
  have hnames := hopsOf_names h
  rw [he] at hnames
  exact names.nonempty hnames.symm

@[simp] theorem Build.see_rules (b : Build) (key : Bytes) : (b.see key).rules = b.rules := by
  unfold Build.see; split <;> rfl

@[simp] theorem Build.see_default (b : Build) (key : Bytes) : (b.see key).default = b.default := by
  unfold Build.see; split <;> rfl

/-- One turn of the loop when the rule is sound. -/
def insertRule (proxy : Bytes → Option ProxyConfig) (b : Build) (rule : Rule) : Build :=
  if isDefaultKey rule.1 then { b with default := some (hopsOf proxy rule.2) }
  else { b.see rule.1 with
    rules := b.rules.insert (toAsciiLowercase rule.1) (hopsOf proxy rule.2) }

theorem addRule_eq_ok {b b' : Build} {rule : Rule} :
    addRule proxies b rule = .ok b' ↔
      RuleOk proxies.lookup rule ∧ b' = insertRule proxies.lookup b rule := by
  have hresolve : (∃ hops, resolve proxies rule.2 = .ok hops) ↔
      ∀ name ∈ rule.2.names, (proxies.lookup name).isSome :=
    ⟨fun ⟨_, h⟩ => (resolve_eq_ok.mp h).1, fun h => ⟨_, resolve_eq_ok.mpr ⟨h, rfl⟩⟩⟩
  unfold addRule RuleOk insertRule
  rw [← hresolve]
  cases hr : resolve proxies rule.2 with
  | error e =>
    cases hd : isDefaultKey rule.1 <;> cases hv : isValidHostname rule.1 <;>
      simp [bind, Except.bind, throw, throwThe, MonadExceptOf.throw]
  | ok hops =>
    obtain ⟨-, rfl⟩ := resolve_eq_ok.mp hr
    cases hd : isDefaultKey rule.1 <;> cases hv : isValidHostname rule.1 <;>
      simp [bind, Except.bind, pure, Except.pure, throw, throwThe, MonadExceptOf.throw,
        eq_comm (a := b')]

theorem foldlM_addRule {rules : List Rule} {b b' : Build} :
    rules.foldlM (addRule proxies) b = .ok b' ↔
      (∀ rule ∈ rules, RuleOk proxies.lookup rule) ∧
        b' = rules.foldl (insertRule proxies.lookup) b := by
  induction rules generalizing b with
  | nil => simp [pure, Except.pure, eq_comm]
  | cons rule rules ih =>
    rw [List.foldlM_cons]
    cases hr : addRule proxies b rule with
    | error e =>
      have hbad : ¬ RuleOk proxies.lookup rule := fun hok => by
        rw [addRule_eq_ok.mpr ⟨hok, rfl⟩] at hr
        cases hr
      simp [bind, Except.bind, hbad]
    | ok b₁ =>
      obtain ⟨hok, rfl⟩ := addRule_eq_ok.mp hr
      simp only [bind, Except.bind, ih, List.forall_mem_cons, hok, true_and, List.foldl_cons]

/-! ## The accumulators -/

/-- The loop over sound rules. -/
def build (proxy : Bytes → Option ProxyConfig) (rules : List Rule) : Build :=
  rules.foldl (insertRule proxy) .empty

/-- The rules for a host name, in iteration order. -/
def rulesFor (rules : List Rule) (name : Bytes) : List Rule :=
  rules.filter fun r => !isDefaultKey r.1 && toAsciiLowercase r.1 == name

def defaultRules (rules : List Rule) : List Rule := rules.filter fun r => isDefaultKey r.1

theorem build_concat (rules : List Rule) (rule : Rule) :
    build proxy (rules ++ [rule]) = insertRule proxy (build proxy rules) rule := by
  simp [build]

/-- The last rule for a name wins. -/
theorem build_rules (rules : List Rule) (name : Bytes) :
    (build proxy rules).rules.lookup name =
      (rulesFor rules name).getLast?.map fun r => hopsOf proxy r.2 := by
  induction rules using List.reverseRecOn with
  | nil => rfl
  | append_singleton rules rule ih =>
    rw [build_concat, rulesFor, List.filter_append, ← rulesFor]
    cases hd : isDefaultKey rule.1 with
    | true => simp [insertRule, hd, ih]
    | false =>
      by_cases hk : toAsciiLowercase rule.1 = name
      · subst hk
        simp [insertRule, hd, rulesFor]
      · simp [insertRule, hd, hk, ih, AList.lookup_insert_ne (Ne.symm hk)]

theorem build_default (rules : List Rule) :
    (build proxy rules).default =
      (defaultRules rules).getLast?.map fun r => hopsOf proxy r.2 := by
  induction rules using List.reverseRecOn with
  | nil => rfl
  | append_singleton rules rule ih =>
    rw [build_concat, defaultRules, List.filter_append, ← defaultRules]
    cases hd : isDefaultKey rule.1 <;> simp [insertRule, hd, ih]

/-- Keys of the rules that are not the default. -/
def hostKeys (rules : List Rule) : List Bytes :=
  (rules.filter fun r => !isDefaultKey r.1).map Sigma.fst

theorem hostKeys_concat (rules : List Rule) (rule : Rule) :
    hostKeys (rules ++ [rule]) =
      hostKeys rules ++ if isDefaultKey rule.1 then [] else [rule.1] := by
  cases hd : isDefaultKey rule.1 <;> simp [hostKeys, hd]

/-- `hostnames` holds one spelling of each name, and `seen` holds the names. -/
structure Spelled (keys hostnames seenNames : List Bytes) : Prop where
  seen : ∀ name, name ∈ seenNames ↔ name ∈ hostnames.map toAsciiLowercase
  subset : ∀ h ∈ hostnames, h ∈ keys
  complete : ∀ key ∈ keys, toAsciiLowercase key ∈ seenNames
  nodup : (hostnames.map toAsciiLowercase).Nodup
  first : ∀ key, keys.head? = some key → key ∈ hostnames
  all : (keys.map toAsciiLowercase).Nodup → hostnames = keys

theorem Spelled.see {b : Build} {keys : List Bytes} (h : Spelled keys b.hostnames b.seen)
    (key : Bytes) : Spelled (keys ++ [key]) (b.see key).hostnames (b.see key).seen := by
  unfold Build.see
  split
  · next hseen =>
    obtain ⟨k, hk, hlower⟩ := List.mem_map.mp ((h.seen _).mp hseen)
    have hkeys := h.subset k hk
    refine ⟨h.seen, fun n hn => by simp [h.subset n hn], ?_, h.nodup, fun k' hk' => ?_, ?_⟩
    · simpa [or_imp, forall_and, hseen] using h.complete
    · rw [List.head?_append_of_ne_nil _ (List.ne_nil_of_mem hkeys)] at hk'
      exact h.first k' hk'
    · intro hn
      rw [List.map_append, List.nodup_append] at hn
      exact absurd hlower (hn.2.2 _ (List.mem_map_of_mem hkeys) _ (by simp))
  · next hnew =>
    have hn : toAsciiLowercase key ∉ b.hostnames.map toAsciiLowercase := (h.seen _).not.mp hnew
    refine ⟨fun name => ?_, ?_, ?_, ?_, fun k' hk' => ?_, fun hn => ?_⟩
    · simp only [List.mem_cons, h.seen, List.map_append, List.mem_append, List.map_cons,
        List.map_nil, List.not_mem_nil, or_false]
      exact or_comm
    · simpa [or_imp, forall_and] using fun n hn => Or.inl (h.subset n hn)
    · simpa [or_imp, forall_and] using fun k hk => Or.inr (h.complete k hk)
    · rw [List.map_append, List.nodup_append]
      refine ⟨h.nodup, by simp, fun a ha c hc => ?_⟩
      obtain rfl := by simpa using hc
      exact fun e => hn (e ▸ ha)
    · cases keys with
      | nil => exact List.mem_append_right _ (by simpa using hk'.symm)
      | cons k keys => exact List.mem_append_left _ (h.first k' hk')
    · rw [List.map_append, List.nodup_append] at hn
      rw [h.all hn.1]

theorem build_hostnames (rules : List Rule) :
    Spelled (hostKeys rules) (build proxy rules).hostnames (build proxy rules).seen := by
  induction rules using List.reverseRecOn with
  | nil => constructor <;> simp [hostKeys, build, Build.empty]
  | append_singleton rules rule ih =>
    rw [build_concat, hostKeys_concat]
    cases hd : isDefaultKey rule.1 with
    | true => simpa [insertRule, hd] using ih
    | false => simpa [insertRule, hd] using ih.see rule.1

/-! ## The whole function -/

variable {parseUrl : Bytes → Option Url} {hash : Bytes → UInt64} {yaml : FileConfig}

/-- The conditions under which a configuration is accepted. -/
structure Usable (parseUrl : Bytes → Option Url) (yaml : FileConfig) : Prop where
  proxies : ∀ p ∈ yaml.proxies.entries, ∃ c, ProxyConfig.parse parseUrl p.2 = .ok c
  rules : ∀ rule ∈ yaml.rules.entries, RuleOk (proxyOf parseUrl yaml) rule
  default : ∃ rule ∈ yaml.rules.entries, isDefaultKey rule.1 = true

theorem build_default_isSome {rules : List Rule} :
    (build proxy rules).default.isSome ↔ ∃ rule ∈ rules, isDefaultKey rule.1 = true := by
  rw [build_default, Option.isSome_map, List.getLast?_isSome, Ne, defaultRules,
    List.filter_eq_nil_iff]
  simp

/-- The default is never empty: the names of a rule are not, and each has a hop. -/
theorem build_default_ne_nil {rules : List Rule} {hops : List Hop}
    (hok : ∀ rule ∈ rules, RuleOk proxy rule) (h : (build proxy rules).default = some hops) :
    hops ≠ [] := by
  rw [build_default] at h
  obtain ⟨rule, hlast, rfl⟩ := Option.map_eq_some_iff.mp h
  have hmem := List.mem_of_mem_filter (List.mem_of_mem_getLast? hlast)
  exact hopsOf_ne_nil (hok rule hmem).2

theorem fromYaml_eq_ok {runtime : Runtime} :
    Runtime.fromYaml parseUrl hash yaml = .ok runtime ↔
      Usable parseUrl yaml ∧
        let b := build (proxyOf parseUrl yaml) yaml.rules.entries
        runtime = {
          router := { rules := b.rules, default := b.default.getD [] }
          hostnames := sortByKey toAsciiLowercase b.hostnames
          fingerprint := routingFingerprint hash yaml } := by
  unfold Runtime.fromYaml
  cases hp : parseProxies parseUrl yaml.proxies with
  | error e =>
    have hbad : ¬ Usable parseUrl yaml := fun hu => by
      obtain ⟨parsed, h⟩ := parseProxies_isOk.mpr hu.proxies
      rw [hp] at h
      cases h
    simp [bind, Except.bind, hbad]
  | ok parsed =>
    have hproxies := parseProxies_isOk.mp ⟨parsed, hp⟩
    have hlookup := parseProxies_lookup hp
    cases hb : yaml.rules.entries.foldlM (addRule parsed) .empty with
    | error e =>
      have hbad : ¬ Usable parseUrl yaml := fun hu => by
        rw [foldlM_addRule.mpr ⟨hlookup ▸ hu.rules, rfl⟩] at hb
        cases hb
      simp [bind, Except.bind, hb, hbad]
    | ok b =>
      obtain ⟨hrules, rfl⟩ := foldlM_addRule.mp hb
      rw [hlookup] at hrules hb
      change _ = Except.ok (build _ _) at hb
      cases hd : (build (proxyOf parseUrl yaml) yaml.rules.entries).default with
      | none =>
        have hbad : ¬ Usable parseUrl yaml := fun hu => by
          have hsome : (build (proxyOf parseUrl yaml) yaml.rules.entries).default.isSome :=
            build_default_isSome.mpr hu.default
          simp [hd] at hsome
        simp [bind, Except.bind, hb, hd, hbad, throw, throwThe, MonadExceptOf.throw]
      | some hops =>
        have hdefault := build_default_isSome.mp (by rw [hd]; rfl)
        have hne := build_default_ne_nil hrules hd
        have hu : Usable parseUrl yaml := ⟨hproxies, hrules, hdefault⟩
        simp [bind, Except.bind, pure, Except.pure, hb, hd, hne, hu, eq_comm (a := runtime)]

end NyaSniProxy
