import NyaSniProxy.Hosts.Managed
import NyaSniProxy.Reload.Once
import NyaSniProxy.Router.Order
import NyaSniProxy.Router.Spelling

/-!
# Reloads are safe

A run of the program is a sequence of reloads, each with any outcome, and of edits of the hosts file
between them. `Sound` says what holds all along: the published router routes every host as the last
accepted configuration says, and the hosts file has one block or none. It is kept because a runtime
that is not published has the fingerprint of the published one.
-/

namespace NyaSniProxy

open Text Interaction

/-- The variables of the reload loop and what it acts on. -/
structure Watch where
  last : FileConfig
  site : Site

/-- The user edits the hosts file outside the block, or any other file. -/
def Edited (settings : StaticSettings) (files files' : Files) : Prop :=
  ∀ path, settings.hostsPath = some path → ∃ text text',
    files.content path = some text ∧ files'.content path = some text' ∧ Edit text text'

section Runs

variable (parseUrl : Bytes → Option Url) (hash : Bytes → UInt64) (settings : StaticSettings)
  (configs : FileConfig → Prop)

/-- The start: an accepted configuration is in force. The hosts file has no mark, or `main` has
synced it already. -/
inductive Start : Watch → Prop where
  | fresh {yaml runtime files} : configs yaml →
      Runtime.fromYaml parseUrl hash yaml = .ok runtime →
      (∀ path, settings.hostsPath = some path →
        ∃ text, files.content path = some text ∧ MarkFree text) →
      Start ⟨yaml, ⟨files, runtime⟩⟩
  | synced {w site fetched} : Start w →
      Ends (ReloadAnswer fetched) (applyHosts settings w.site.published) w.site (.ok ()) site →
      Start ⟨w.last, site⟩

/-- A step: a reload whose configuration, if it accepts one, is among `configs`, or an edit. -/
inductive WatchStep : Watch → Watch → Prop where
  | reload {deserialize fetched w last site} :
      (∀ yaml runtime, accepted deserialize parseUrl hash fetched = some (yaml, runtime) →
        configs yaml) →
      Ends (ReloadAnswer fetched) (reloadOnce deserialize parseUrl hash settings w.last) w.site
        (.ok last) site →
      WatchStep w ⟨last, site⟩
  | edit {w files} : Edited settings w.site.files files →
      WatchStep w { w with site := { w.site with files } }

/-- Some run leads to this state. -/
def Reachable (w : Watch) : Prop :=
  ∃ w₀, Start parseUrl hash settings configs w₀ ∧
    Relation.ReflTransGen (WatchStep parseUrl hash settings configs) w₀ w

/-- What holds all along. -/
structure Sound (w : Watch) : Prop where
  config : configs w.last
  published : ∃ runtime, Runtime.fromYaml parseUrl hash w.last = .ok runtime ∧
    w.site.published.fingerprint = runtime.fingerprint ∧
    ∀ host, w.site.published.router.lookup host = runtime.router.lookup host
  hosts : ∀ path, settings.hostsPath = some path →
    ∃ text, w.site.files.content path = some text ∧ Tidy text

end Runs

variable {deserialize : Bytes → Option FileConfig} {parseUrl : Bytes → Option Url}
  {hash : Bytes → UInt64} {settings : StaticSettings} {configs : FileConfig → Prop}
  {fetched : Except FetchError Bytes} {yaml : FileConfig} {runtime : Runtime} {w : Watch}

/-! ## The hosts file -/

/-- After a sync the hosts file is what stood outside the block, and the new block. -/
theorem Synced.block {files files' : Files} {hostnames : List Bytes} {path : FsPath}
    (h : Synced settings hostnames files files') (hpath : settings.hostsPath = some path)
    (hfile : ∃ text, files.content path = some text ∧ Tidy text) :
    ∃ text pre post newline, files.content path = some text ∧ Outside text pre post ∧
      MarkFree pre ∧ MarkFree post ∧ IsNewline newline ∧
      files'.content path =
        some (pre ++ renderBlock settings.listen hostnames newline ++ post) := by
  obtain ⟨text, htext, htidy⟩ := hfile
  unfold Synced at h
  rw [hpath] at h
  obtain ⟨original, horiginal, hinstalled⟩ := h
  obtain rfl : text = original := Option.some.inj (htext.symm.trans horiginal)
  have hn := isNewline_newlineOf text
  obtain ⟨pre, post, houtside, hpre, hpost, hreplace⟩ :=
    @replace_tidy settings.listen hostnames _ text htidy hn
  refine ⟨text, pre, post, newlineOf text, htext, houtside, hpre, hpost, hn, ?_⟩
  rw [← hreplace]
  exact hinstalled.content

theorem tidy_renderBlock {hostnames : List Bytes} {pre post newline : Bytes} (ip : Net.IpAddr)
    (hvalid : ∀ name ∈ hostnames, isValidHostname name = true) (hn : IsNewline newline)
    (hpre : MarkFree pre) (hpost : MarkFree post) :
    Tidy (pre ++ renderBlock ip hostnames newline ++ post) := by
  obtain ⟨inner, post', hblock⟩ := block_renderBlock (hashSign_not_mem_display ip)
    (fun name hname => hashSign_not_mem_hostname (hvalid name hname)) hn hpre hpost
  exact .inr ⟨pre, inner, post', hblock⟩

/-! ## The invariant -/

theorem Sound.hasHosts (h : Sound parseUrl hash settings configs w) :
    HasHosts settings w.site.files := by
  intro path hpath
  obtain ⟨text, htext, -⟩ := h.hosts path hpath
  simp [htext]

/-- A sync with valid hostnames keeps the hosts file tidy. -/
theorem Sound.synced (h : Sound parseUrl hash settings configs w) {hostnames : List Bytes}
    {files : Files} (hvalid : ∀ name ∈ hostnames, isValidHostname name = true)
    (hs : Synced settings hostnames w.site.files files) :
    ∀ path, settings.hostsPath = some path →
      ∃ text, files.content path = some text ∧ Tidy text := by
  intro path hpath
  obtain ⟨text, pre, post, newline, -, -, hpre, hpost, hn, hfile⟩ :=
    hs.block hpath (h.hosts path hpath)
  exact ⟨_, hfile, tidy_renderBlock settings.listen hvalid hn hpre hpost⟩

theorem sound_of_start (h : Start parseUrl hash settings configs w) :
    Sound parseUrl hash settings configs w ∧
      Runtime.fromYaml parseUrl hash w.last = .ok w.site.published := by
  induction h with
  | fresh hconfig hruntime hhosts =>
    refine ⟨⟨hconfig, ⟨_, hruntime, rfl, fun _ => rfl⟩, fun path hpath => ?_⟩, hruntime⟩
    obtain ⟨text, htext, hfree⟩ := hhosts path hpath
    exact ⟨text, htext, .inl hfree⟩
  | @synced w site fetched _ hrun ih =>
    obtain ⟨hsound, hruntime⟩ := ih
    have hwp : wp (ReloadAnswer fetched) (Answerable (ReloadAnswer fetched))
        (applyHosts settings w.site.published)
        (fun _ s => ∃ files, Synced settings w.site.published.hostnames w.site.files files ∧
          s = { w.site with files }) w.site :=
      wp_applyHosts hsound.hasHosts fun files hs => ⟨files, hs, rfl⟩
    obtain ⟨files, hs, rfl⟩ := hwp.ends hrun
    refine ⟨⟨hsound.config, hsound.published, ?_⟩, hruntime⟩
    exact hsound.synced (fun name => isValidHostname_of_mem hruntime) hs

/-- What one reload does in a sound state. -/
theorem Sound.reload (h : Sound parseUrl hash settings configs w)
    (deserialize : Bytes → Option FileConfig) (fetched : Except FetchError Bytes) :
    wp (ReloadAnswer fetched) (Answerable (ReloadAnswer fetched))
      (reloadOnce deserialize parseUrl hash settings w.last)
      (fun r s => (accepted deserialize parseUrl hash fetched = none ∧ r = .ok w.last ∧
          s = w.site) ∨
        ∃ yaml runtime files, accepted deserialize parseUrl hash fetched = some (yaml, runtime) ∧
          Synced settings runtime.hostnames w.site.files files ∧ r = .ok yaml ∧
          s = w.site.publish runtime files)
      w.site :=
  wp_reloadOnce h.hasHosts (fun hnone => .inl ⟨hnone, rfl, rfl⟩)
    fun yaml runtime files haccepted hs => .inr ⟨yaml, runtime, files, haccepted, hs, rfl, rfl⟩

/-- The hypotheses about the accepted configurations: no two keys are equal up to case, and the
fingerprint sees every difference but that of letter case. -/
structure Distinguished (hash : Bytes → UInt64) (configs : FileConfig → Prop) : Prop where
  keys : ∀ yaml, configs yaml → DistinctKeys yaml
  fingerprint : ∀ yaml yaml', configs yaml → configs yaml' →
    routingFingerprint hash yaml = routingFingerprint hash yaml' → SameUpToCase yaml yaml'

theorem Distinguished.pair {yaml yaml' : FileConfig} (hkeys : DistinctKeys yaml)
    (hkeys' : DistinctKeys yaml')
    (hne : routingFingerprint hash yaml ≠ routingFingerprint hash yaml') :
    Distinguished hash fun c => c = yaml ∨ c = yaml' := by
  constructor
  · rintro c (rfl | rfl)
    · exact hkeys
    · exact hkeys'
  · rintro c c' (rfl | rfl) (rfl | rfl) hsame
    · exact ⟨fun _ => rfl, fun _ _ => Iff.rfl⟩
    · exact absurd hsame hne
    · exact absurd hsame.symm hne
    · exact ⟨fun _ => rfl, fun _ _ => Iff.rfl⟩

/-- The published router is that of the accepted configuration, whether or not its runtime was
published. -/
theorem Sound.publish (h : Sound parseUrl hash settings configs w)
    (hd : Distinguished hash configs) (hconfig : configs yaml)
    (hruntime : Runtime.fromYaml parseUrl hash yaml = .ok runtime) (files : Files) :
    (w.site.publish runtime files).published.fingerprint = runtime.fingerprint ∧
      ∀ host, (w.site.publish runtime files).published.router.lookup host =
        runtime.router.lookup host := by
  obtain ⟨last, hlast, hfingerprint, hlookup⟩ := h.published
  unfold Site.publish
  dsimp only
  split
  · exact ⟨rfl, fun _ => rfl⟩
  · next hsame =>
    have hequal : last.fingerprint = runtime.fingerprint := by
      rw [← hfingerprint]
      exact not_not.mp hsame
    refine ⟨not_not.mp hsame, fun host => (hlookup host).trans ?_⟩
    obtain ⟨-, rfl⟩ := fromYaml_eq_ok.mp hlast
    obtain ⟨-, rfl⟩ := fromYaml_eq_ok.mp hruntime
    exact (hd.fingerprint _ _ h.config hconfig hequal).lookup_eq (hd.keys _ hconfig) hlast hruntime
      host

theorem Sound.step (h : Sound parseUrl hash settings configs w) (hd : Distinguished hash configs)
    {w' : Watch} (hs : WatchStep parseUrl hash settings configs w w') :
    Sound parseUrl hash settings configs w' := by
  cases hs with
  | @reload deserialize fetched _ last site hconfigs hrun =>
    rcases (h.reload deserialize fetched).ends hrun with ⟨-, hlast, rfl⟩ |
      ⟨yaml, runtime, files, haccepted, hsynced, hlast, rfl⟩
    · obtain rfl : last = w.last := Except.ok.inj hlast
      exact h
    · obtain rfl : last = yaml := Except.ok.inj hlast
      have hconfig := hconfigs _ _ haccepted
      have hruntime := fromYaml_of_accepted haccepted
      obtain ⟨hfingerprint, hlookup⟩ := h.publish hd hconfig hruntime files
      refine ⟨hconfig, ⟨runtime, hruntime, hfingerprint, hlookup⟩, ?_⟩
      exact h.synced (fun name => isValidHostname_of_mem hruntime) hsynced
  | edit hedit =>
    refine ⟨h.config, h.published, fun path hpath => ?_⟩
    obtain ⟨text, text', -, htext', he⟩ := hedit path hpath
    exact ⟨text', htext', he.tidy⟩

theorem sound_of_reachable (hd : Distinguished hash configs)
    (h : Reachable parseUrl hash settings configs w) : Sound parseUrl hash settings configs w := by
  obtain ⟨w₀, hstart, hrun⟩ := h
  induction hrun with
  | refl => exact (sound_of_start hstart).1
  | tail _ hs ih => exact ih.step hd hs

/-- After any run, every reload ends. One that accepts nothing changes nothing. One that accepts a
configuration leaves a router that routes every host as that configuration says, and a hosts file
with one block of exactly its hostnames between what stood outside the block before. -/
theorem reload_safe (hd : Distinguished hash configs)
    (h : Reachable parseUrl hash settings configs w)
    (deserialize : Bytes → Option FileConfig) (fetched : Except FetchError Bytes)
    (hconfigs : ∀ yaml runtime,
      accepted deserialize parseUrl hash fetched = some (yaml, runtime) → configs yaml) :
    (∃ last site, Ends (ReloadAnswer fetched) (reloadOnce deserialize parseUrl hash settings w.last)
      w.site (.ok last) site) ∧
    ∀ last site, Ends (ReloadAnswer fetched) (reloadOnce deserialize parseUrl hash settings w.last)
      w.site (.ok last) site →
      (accepted deserialize parseUrl hash fetched = none → last = w.last ∧ site = w.site) ∧
      ∀ yaml runtime, accepted deserialize parseUrl hash fetched = some (yaml, runtime) →
        last = yaml ∧
        (∀ host, site.published.router.lookup host = runtime.router.lookup host) ∧
        (settings.hostsPath = none → site.files = w.site.files) ∧
        ∀ path, settings.hostsPath = some path → ∃ text pre post newline,
          w.site.files.content path = some text ∧ Outside text pre post ∧ MarkFree pre ∧
          MarkFree post ∧ IsNewline newline ∧
          site.files.content path =
            some (pre ++ renderBlock settings.listen runtime.hostnames newline ++ post) ∧
          ∀ name, name ∈ runtime.hostnames ↔
            ∃ rule ∈ yaml.rules.entries, isDefaultKey rule.1 = false ∧ rule.1 = name := by
  have hsound := sound_of_reachable hd h
  have hreload := hsound.reload deserialize fetched
  constructor
  · obtain ⟨r, site, hrun⟩ := hreload.exists_ends
    cases r with
    | ok last => exact ⟨last, site, hrun⟩
    | error e => cases e
  · intro last site hrun
    rcases hreload.ends hrun with ⟨hnone, hlast, rfl⟩ |
      ⟨yaml, runtime, files, haccepted, hsynced, hlast, rfl⟩
    · refine ⟨fun _ => ⟨Except.ok.inj hlast, rfl⟩, fun yaml runtime hsome => ?_⟩
      rw [hnone] at hsome
      cases hsome
    · refine ⟨fun hnone => absurd (haccepted.symm.trans hnone) nofun, ?_⟩
      intro yaml' runtime' hsome
      obtain ⟨rfl, rfl⟩ : yaml = yaml' ∧ runtime = runtime' := by
        simpa [haccepted] using hsome
      have hconfig := hconfigs _ _ haccepted
      have hruntime := fromYaml_of_accepted haccepted
      refine ⟨Except.ok.inj hlast, (hsound.publish hd hconfig hruntime files).2, ?_, ?_⟩
      · intro hpath
        unfold Synced at hsynced
        rw [hpath] at hsynced
        exact hsynced
      · intro path hpath
        obtain ⟨text, pre, post, newline, htext, houtside, hpre, hpost, hn, hfile⟩ :=
          hsynced.block hpath (hsound.hosts path hpath)
        refine ⟨text, pre, post, newline, htext, houtside, hpre, hpost, hn, hfile, fun name => ?_⟩
        rw [mem_hostnames hruntime (hd.keys _ hconfig), hostKeys, List.mem_map]
        simp [and_assoc]

def hostsFile : FsPath := ⟨true, [ascii "etc", ascii "hosts"]⟩

/-- There is a hosts file with this text, and no other file. -/
def onlyHostsFile (text : Bytes) : Files where
  content path := if path = hostsFile then some text else none
  named path h := by
    by_cases hpath : path = hostsFile
    · rw [hpath]
      decide
    · simp [hpath] at h

def sampleSettings : StaticSettings where
  listen := .v4 127 0 0 2
  http := true
  hostsPath := some hostsFile
  refresh := 30

def sampleHash (bytes : Bytes) : UInt64 := bytes.foldl (fun h b => 31 * h + b.toUInt64) 7

theorem jp_ne_nil : ascii "jp" ≠ [] := by decide
theorem us_ne_nil : ascii "us" ≠ [] := by decide

/-- `sampleYaml` with other rules. -/
def secondYaml : FileConfig :=
  { sampleYaml with
    rules := ⟨[⟨ascii "a.com", .single (ascii "jp") jp_ne_nil⟩,
      ⟨ascii "default", .single (ascii "us") us_ne_nil⟩], by decide⟩ }

theorem distinguished_sample :
    Distinguished sampleHash fun yaml => yaml = sampleYaml ∨ yaml = secondYaml :=
  .pair (by decide) (by decide) (by decide +kernel)

/-- A reload is rejected, a line is added to the hosts file, and another reload brings the second
configuration. -/
theorem reload_safe_sample : ∃ first second site pre post newline,
    Runtime.fromYaml sampleUrl sampleHash sampleYaml = .ok first ∧
    Runtime.fromYaml sampleUrl sampleHash secondYaml = .ok second ∧
    Relation.ReflTransGen (WatchStep sampleUrl sampleHash sampleSettings
        fun yaml => yaml = sampleYaml ∨ yaml = secondYaml)
      ⟨sampleYaml, onlyHostsFile (ascii "127.0.0.1 localhost\n"), first⟩ ⟨secondYaml, site⟩ ∧
    (∀ host, site.published.router.lookup host = second.router.lookup host) ∧
    Outside (ascii "127.0.0.1 localhost\n10.0.0.1 nas\n") pre post ∧
    site.files.content hostsFile =
      some (pre ++ renderBlock (.v4 127 0 0 2) second.hostnames newline ++ post) ∧
    ascii "a.com" ∈ second.hostnames := by
  obtain ⟨first, hfirst⟩ : ∃ r, Runtime.fromYaml sampleUrl sampleHash sampleYaml = .ok r :=
    ⟨_, rfl⟩
  obtain ⟨second, hsecond⟩ : ∃ r, Runtime.fromYaml sampleUrl sampleHash secondYaml = .ok r :=
    ⟨_, rfl⟩
  have haccepted : accepted (fun _ => some secondYaml) sampleUrl sampleHash (.ok []) =
      some (secondYaml, second) := by
    have hparse : parseYaml (fun _ => some secondYaml) [] = .ok secondYaml := rfl
    simp [accepted, Except.toOption, hparse, hsecond]
  have hstart : Start sampleUrl sampleHash sampleSettings
      (fun yaml => yaml = sampleYaml ∨ yaml = secondYaml)
      ⟨sampleYaml, onlyHostsFile (ascii "127.0.0.1 localhost\n"), first⟩ := by
    refine .fresh (.inl rfl) hfirst fun path hpath => ?_
    obtain rfl : hostsFile = path := Option.some.inj hpath
    exact ⟨_, rfl, by decide +kernel⟩
  -- the fetch of the first reload fails
  have hnone (yaml : FileConfig) (runtime : Runtime)
      (h : accepted (fun _ => none) sampleUrl sampleHash (.error .threadDropped) =
        some (yaml, runtime)) : yaml = sampleYaml ∨ yaml = secondYaml := by
    cases h
  obtain ⟨⟨last, site, hfailed⟩, hafter⟩ := reload_safe distinguished_sample
    ⟨_, hstart, .refl⟩ (fun _ => none) (.error .threadDropped) hnone
  obtain ⟨rfl, rfl⟩ := (hafter last site hfailed).1 rfl
  have hrejected := WatchStep.reload hnone hfailed
  have hedited : Edited sampleSettings (onlyHostsFile (ascii "127.0.0.1 localhost\n"))
      (onlyHostsFile (ascii "127.0.0.1 localhost\n10.0.0.1 nas\n")) := by
    intro path hpath
    obtain rfl : hostsFile = path := Option.some.inj hpath
    exact ⟨_, _, rfl, rfl, .free (by decide +kernel) (by decide +kernel)⟩
  have hrun := (Relation.ReflTransGen.single hrejected).tail (.edit hedited)
  have hconfigs (yaml : FileConfig) (runtime : Runtime)
      (h : accepted (fun _ => some secondYaml) sampleUrl sampleHash (.ok []) =
        some (yaml, runtime)) : yaml = sampleYaml ∨ yaml = secondYaml := by
    rw [haccepted] at h
    exact .inr (Prod.mk.inj (Option.some.inj h)).1.symm
  obtain ⟨⟨last, site, hreload⟩, hafter⟩ := reload_safe distinguished_sample ⟨_, hstart, hrun⟩
    (fun _ => some secondYaml) (.ok []) hconfigs
  obtain ⟨rfl, hlookup, -, hhosts⟩ := (hafter last site hreload).2 _ _ haccepted
  obtain ⟨text, pre, post, newline, htext, houtside, -, -, -, hfile, hnames⟩ := hhosts hostsFile rfl
  obtain rfl : ascii "127.0.0.1 localhost\n10.0.0.1 nas\n" = text := Option.some.inj htext
  refine ⟨first, second, site, pre, post, newline, hfirst, hsecond,
    hrun.tail (.reload hconfigs hreload), hlookup, houtside, hfile, (hnames _).mpr ?_⟩
  exact ⟨⟨ascii "a.com", .single (ascii "jp") jp_ne_nil⟩, by decide, by decide, rfl⟩

end NyaSniProxy
