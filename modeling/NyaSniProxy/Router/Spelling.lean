import NyaSniProxy.Router.Lookup

/-!
# Letter case of rule keys

Two configurations that differ in the letter case of their rule keys only, and in the order of their
maps, route every host the same way.
-/

namespace NyaSniProxy

open Text

variable {parseUrl : Bytes → Option Url} {hash : Bytes → UInt64} {yaml yaml' : FileConfig}
  {runtime runtime' : Runtime}

/-- There is a rule with this key, ignoring ASCII case, and these proxies. -/
def HasRule (yaml : FileConfig) (key : Bytes) (ref : ProxyRef) : Prop :=
  ∃ rule ∈ yaml.rules.entries, toAsciiLowercase rule.1 = key ∧ rule.2 = ref

/-- The proxies are the same, and the rules up to the letter case of their keys. -/
structure SameUpToCase (yaml yaml' : FileConfig) : Prop where
  proxies : ∀ name, yaml.proxies.lookup name = yaml'.proxies.lookup name
  rules : ∀ key ref, HasRule yaml key ref ↔ HasRule yaml' key ref

/-- Without case variants a key has one rule. -/
theorem HasRule.unique (hd : DistinctKeys yaml) {key : Bytes} {ref ref' : ProxyRef}
    (h : HasRule yaml key ref) (h' : HasRule yaml key ref') : ref = ref' := by
  obtain ⟨rule, hr, hk, rfl⟩ := h
  obtain ⟨rule', hr', hk', rfl⟩ := h'
  rw [hd.rule_ext hr hr' (hk.trans hk'.symm)]

/-- A host is routed by a rule with its name, or else by a default rule. -/
theorem refFor_hasRule {host : Bytes} {ref : ProxyRef}
    (h : refFor yaml.rules.entries host = some ref) :
    HasRule yaml (normalHost host) ref ∨
      (∀ other, ¬ HasRule yaml (normalHost host) other) ∧
        HasRule yaml (toAsciiLowercase (ascii "default")) ref := by
  rcases refFor_rule h with ⟨rule, hr, href⟩ | ⟨hnone, rule, hr, href⟩
  · obtain ⟨hmem, -, hname⟩ := mem_rulesFor.mp hr
    exact .inl ⟨rule, hmem, hname, href⟩
  · obtain ⟨hmem, hdefault⟩ := mem_defaultRules.mp hr
    have hkey := eqIgnoreAsciiCase_iff.mp hdefault
    -- a host with the name of the default key has the default rule
    by_cases hhost : toAsciiLowercase (ascii "default") = normalHost host
    · exact .inl ⟨rule, hmem, hkey.trans hhost, href⟩
    · refine .inr ⟨?_, rule, hmem, hkey, href⟩
      rintro other ⟨rule', hr', hname, -⟩
      have hfor : rule' ∈ rulesFor yaml.rules.entries (normalHost host) := by
        refine mem_rulesFor.mpr ⟨hr', ?_, hname⟩
        refine eqIgnoreAsciiCase_eq_false_iff.mpr fun heq => hhost ?_
        rw [← heq, hname]
      rw [hnone] at hfor
      cases hfor

/-- The spelling of the keys and the order of the entries do not matter for routing. -/
theorem SameUpToCase.lookup_eq (h : SameUpToCase yaml yaml') (hd : DistinctKeys yaml')
    (hr : Runtime.fromYaml parseUrl hash yaml = .ok runtime)
    (hr' : Runtime.fromYaml parseUrl hash yaml' = .ok runtime') (host : Bytes) :
    runtime.router.lookup host = runtime'.router.lookup host := by
  obtain ⟨ref, href, hlookup⟩ := NyaSniProxy.lookup_eq hr host
  obtain ⟨ref', href', hlookup'⟩ := NyaSniProxy.lookup_eq hr' host
  have hsame : ref = ref' := by
    rcases refFor_hasRule href with hrule | ⟨hnone, hrule⟩ <;>
      rcases refFor_hasRule href' with hrule' | ⟨hnone', hrule'⟩
    · exact ((h.rules _ _).mp hrule).unique hd hrule'
    · exact absurd ((h.rules _ _).mp hrule) (hnone' ref)
    · exact absurd ((h.rules _ _).mpr hrule') (hnone ref')
    · exact ((h.rules _ _).mp hrule).unique hd hrule'
  have hproxy : proxyOf parseUrl yaml = proxyOf parseUrl yaml' := by
    funext name
    rw [proxyOf, proxyOf, h.proxies]
  rw [hlookup, hlookup', hsame, hproxy]

end NyaSniProxy
