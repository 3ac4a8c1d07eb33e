import NyaSniProxy.Reload.Current
import NyaSniProxy.Router.Fingerprint

/-!
# Configurations with plain URLs

In the stream of the fingerprint a rule can be read as a proxy only if the URL of the proxy begins
like the length of a list: the eighth byte of a short length is zero. In `http://proxy` it is the
first one of the host, in `https://proxy` a slash. So for plain configurations the stream can be
read back, and two of them with one fingerprint route alike unless the hash function itself
collides.
-/

namespace NyaSniProxy

open Text

/-- The eighth byte of every URL is there and not zero, and no rule has `2 ^ 56` names. -/
structure PlainUrls (yaml : FileConfig) : Prop extends Representable yaml where
  urls : ∀ p ∈ yaml.proxies.entries, ∃ b, p.2[7]? = some b ∧ b ≠ 0
  lists : ∀ r ∈ yaml.rules.entries, r.2.names.length < 256 ^ 7

variable {parseUrl : Bytes → Option Url} {hash : Bytes → UInt64} {yaml yaml' : FileConfig}
  {runtime runtime' : Runtime}

theorem PlainUrls.url (h : PlainUrls yaml) {name url : Bytes} (hp : (name, url) ∈ proxyList yaml) :
    ∃ b, url[7]? = some b ∧ b ≠ 0 :=
  h.urls ⟨name, url⟩ (AList.mem_lookup_iff.mp (mem_proxyList.mp hp))

theorem PlainUrls.list (h : PlainUrls yaml) {key : Bytes} {names : List Bytes}
    (hr : (key, names) ∈ ruleList yaml) : names.length < 256 ^ 7 := by
  obtain ⟨rule, hrule, -, rfl⟩ := mem_ruleList.mp hr
  exact h.lists rule hrule

/-- The eighth byte of a short length is zero. -/
theorem hashLen_eighth {n : Nat} (h : n < 256 ^ 7) : (hashLen n)[7]? = some 0 := by
  have hzero : n / 72057594037927936 = 0 := Nat.div_eq_of_lt h
  simp [hashLen, hzero]

/-- A plain URL does not begin like the list of a rule. -/
theorem hashVec_ne_url {names : List Bytes} {url r s : Bytes} {b : UInt8}
    (hnames : names.length < 256 ^ 7) (hb : url[7]? = some b) (hne : b ≠ 0) :
    hashVec names ++ r ≠ hashStr url ++ s := by
  intro h
  have hlist : (hashVec names ++ r)[7]? = some 0 := by
    rw [hashVec, List.append_assoc, List.getElem?_append_left (by simp [hashLen])]
    exact hashLen_eighth hnames
  obtain ⟨hlt, -⟩ := List.getElem?_eq_some_iff.mp hb
  have hurl : (hashStr url ++ s)[7]? = some b := by
    rw [hashStr, List.append_assoc, List.getElem?_append_left hlt]
    exact hb
  rw [h, hurl] at hlist
  exact hne (Option.some.inj hlist)

/-- No proxy of a plain configuration is read as a rule of another one. -/
theorem PlainUrls.length_le (hy : PlainUrls yaml) (hy' : PlainUrls yaml')
    (h : fingerprintStream yaml = fingerprintStream yaml') :
    (proxyList yaml').length ≤ (proxyList yaml).length := by
  by_contra hlt
  rw [fingerprintStream_eq, fingerprintStream_eq] at h
  obtain ⟨more, hmore, hrest⟩ :=
    selfDelimiting_hashProxy.exists_append hy.proxyText hy'.proxyText (by omega) h
  cases more with
  | nil =>
    rw [List.append_nil] at hmore
    rw [hmore] at hlt
    exact hlt le_rfl
  | cons p more =>
    have hp : p ∈ proxyList yaml' := hmore ▸ List.mem_append_right _ List.mem_cons_self
    cases hrules : ruleList yaml with
    | nil =>
      rw [hrules] at hrest
      simp [hashProxy, hashStr] at hrest
    | cons r rules =>
      have hr : r ∈ ruleList yaml := hrules ▸ List.mem_cons_self
      rw [hrules] at hrest
      simp only [List.flatMap_cons, hashRule, hashProxy, List.append_assoc] at hrest
      -- behind the same key, the one reads a list and the other a URL
      obtain ⟨-, hbehind⟩ :=
        selfDelimiting_hashStr (hy.ruleText r hr).1 (hy'.proxyText p hp).1 hrest
      obtain ⟨b, hb, hne⟩ := hy'.url hp
      exact hashVec_ne_url (hy.list hr) hb hne hbehind

theorem PlainUrls.length_eq (hy : PlainUrls yaml) (hy' : PlainUrls yaml')
    (h : fingerprintStream yaml = fingerprintStream yaml') :
    yaml.proxies.entries.length = yaml'.proxies.entries.length := by
  rw [← length_proxyList, ← length_proxyList]
  exact le_antisymm (hy'.length_le hy h.symm) (hy.length_le hy' h)

/-- The stream of a plain configuration can be read back. -/
theorem PlainUrls.read_back (hy : PlainUrls yaml) (hy' : PlainUrls yaml')
    (h : fingerprintStream yaml = fingerprintStream yaml') :
    ruleList yaml = ruleList yaml' ∧
      ∀ name url, yaml.proxies.lookup name = some url ↔ yaml'.proxies.lookup name = some url := by
  have hlength := hy.length_eq hy' h
  refine ⟨ruleList_of_stream_eq hy.toRepresentable hy'.toRepresentable h hlength,
    fun name url => ⟨?_, ?_⟩⟩
  · exact proxies_of_stream_eq hy.toRepresentable hy'.toRepresentable h hlength.le name url
  · exact proxies_of_stream_eq hy'.toRepresentable hy.toRepresentable h.symm hlength.ge name url

/-- Two plain configurations with one fingerprint route alike, or the hash function has the same
value on two streams. -/
theorem routingFingerprint_plain (h : Runtime.fromYaml parseUrl hash yaml = .ok runtime)
    (h' : Runtime.fromYaml parseUrl hash yaml' = .ok runtime') (hy : PlainUrls yaml)
    (hy' : PlainUrls yaml') (hequal : runtime.fingerprint = runtime'.fingerprint) :
    RoutesAlike runtime runtime' ∨ fingerprintStream yaml ≠ fingerprintStream yaml' ∧
      hash (fingerprintStream yaml) = hash (fingerprintStream yaml') := by
  by_cases hstream : fingerprintStream yaml = fingerprintStream yaml'
  · obtain ⟨hrules, hproxies⟩ := hy.read_back hy' hstream
    exact .inl (routesAlike_of_sameLastRules h h' (sameLastRules_of_ruleList hrules)
      fun name url => (hproxies name url).mp)
  · refine .inr ⟨hstream, ?_⟩
    obtain ⟨-, rfl⟩ := fromYaml_eq_ok.mp h
    obtain ⟨-, rfl⟩ := fromYaml_eq_ok.mp h'
    exact hequal

theorem plain_sampleYaml : PlainUrls sampleYaml where
  proxies := by decide
  rules := by decide
  sizes := by decide
  urls := by decide
  lists := by decide

theorem plain_respelled : PlainUrls respelled where
  proxies := by decide
  rules := by decide
  sizes := by decide
  urls := by decide
  lists := by decide

/-- The keys of the rules are spelled in another case. -/
theorem routingFingerprint_plain_respelled : ∃ runtime runtime',
    Runtime.fromYaml sampleUrl sampleHash sampleYaml = .ok runtime ∧
      Runtime.fromYaml sampleUrl sampleHash respelled = .ok runtime' ∧
      RoutesAlike runtime runtime' := by
  have hstream : fingerprintStream sampleYaml = fingerprintStream respelled := by decide
  obtain ⟨runtime, h⟩ : ∃ r, Runtime.fromYaml sampleUrl sampleHash sampleYaml = .ok r := ⟨_, rfl⟩
  obtain ⟨runtime', h'⟩ : ∃ r, Runtime.fromYaml sampleUrl sampleHash respelled = .ok r := ⟨_, rfl⟩
  have hequal : runtime.fingerprint = runtime'.fingerprint := by
    obtain ⟨-, rfl⟩ := fromYaml_eq_ok.mp h
    obtain ⟨-, rfl⟩ := fromYaml_eq_ok.mp h'
    exact congrArg sampleHash hstream
  obtain halike | ⟨hne, -⟩ := routingFingerprint_plain h h' plain_sampleYaml plain_respelled hequal
  · exact ⟨runtime, runtime', h, h', halike⟩
  · exact absurd hstream hne

theorem hasRule_iff {key : Bytes} {ref : ProxyRef} :
    HasRule yaml key ref ↔ (key, ref.names) ∈ ruleList yaml := by
  rw [mem_ruleList]
  refine exists_congr fun rule => and_congr_right fun _ => and_congr_right fun _ => ?_
  rw [ProxyRef.mk.injEq]

/-- So a set of plain configurations is distinguished by a hash function that does not collide on
it. -/
theorem distinguished_of_plain {configs : FileConfig → Prop}
    (hplain : ∀ yaml, configs yaml → PlainUrls yaml)
    (hkeys : ∀ yaml, configs yaml → DistinctKeys yaml)
    (hhash : ∀ yaml yaml', configs yaml → configs yaml' →
      hash (fingerprintStream yaml) = hash (fingerprintStream yaml') →
        fingerprintStream yaml = fingerprintStream yaml') : Distinguished hash configs where
  keys := hkeys
  fingerprint yaml yaml' hy hy' hequal := by
    obtain ⟨hrules, hproxies⟩ := (hplain yaml hy).read_back (hplain yaml' hy')
      (hhash yaml yaml' hy hy' hequal)
    exact ⟨fun name => Option.ext (hproxies name), fun key ref => by
      rw [hasRule_iff, hasRule_iff, hrules]⟩

end NyaSniProxy
