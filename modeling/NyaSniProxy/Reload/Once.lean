import NyaSniProxy.Hosts.Files
import NyaSniProxy.Reload

/-!
# One reload

A reload acts on the files and on the published runtime. For each outcome of the fetch there is one
thing it does: it changes nothing, or it accepts a configuration, syncs the hosts file, and
publishes the runtime if the fingerprint is new.
-/

namespace NyaSniProxy

open Text Interaction

/-- What a reload acts on. -/
structure Site where
  files : Files
  published : Runtime

/-- The environment of a reload whose fetch has a given outcome. The watch channel has a receiver,
and reads and writes of files succeed. -/
inductive ReloadAnswer (fetched : Except FetchError Bytes) : Env ReloadCall ReloadReply Site where
  | fetch {s} : ReloadAnswer fetched .fetch s fetched s
  | log {message s} : ReloadAnswer fetched (.log message) s () s
  | borrow {s} : ReloadAnswer fetched .borrow s s.published s
  | send {runtime s} :
      ReloadAnswer fetched (.send runtime) s (.ok ()) { s with published := runtime }
  | fs {call s r files} : FsAnswer False call s.files r files →
      ReloadAnswer fetched (.fs call) s r { s with files }

variable {deserialize : Bytes → Option FileConfig} {parseUrl : Bytes → Option Url}
  {hash : Bytes → UInt64} {settings : StaticSettings} {fetched : Except FetchError Bytes}
  {yaml : FileConfig} {runtime : Runtime} {s : Site}

/-- The configuration a reload accepts, if it accepts one, and its runtime. -/
def accepted (deserialize : Bytes → Option FileConfig) (parseUrl : Bytes → Option Url)
    (hash : Bytes → UInt64) (fetched : Except FetchError Bytes) :
    Option (FileConfig × Runtime) := do
  let text ← fetched.toOption
  let yaml ← (parseYaml deserialize text).toOption
  let runtime ← (Runtime.fromYaml parseUrl hash yaml).toOption
  return (yaml, runtime)

/-- The runtime comes with the configuration. -/
theorem fromYaml_of_accepted
    (h : accepted deserialize parseUrl hash fetched = some (yaml, runtime)) :
    Runtime.fromYaml parseUrl hash yaml = .ok runtime := by
  obtain ⟨text, -, h⟩ := Option.bind_eq_some_iff.mp h
  obtain ⟨cfg, -, h⟩ := Option.bind_eq_some_iff.mp h
  obtain ⟨built, hbuilt, h⟩ := Option.bind_eq_some_iff.mp h
  obtain ⟨rfl, rfl⟩ : cfg = yaml ∧ built = runtime := by simpa using h
  cases hr : Runtime.fromYaml parseUrl hash cfg with
  | error e => simp [hr, Except.toOption] at hbuilt
  | ok r => simpa [hr, Except.toOption] using hbuilt

/-- The hosts file was synced with the hostnames, if there is one to sync. -/
def Synced (settings : StaticSettings) (hostnames : List Bytes) (files files' : Files) : Prop :=
  match settings.hostsPath with
  | none => files' = files
  | some path => ∃ original, files.content path = some original ∧
      Installed path (replaceManagedBlock original
        (renderBlock settings.listen hostnames (newlineOf original))) files files'

/-- The hosts file that is to be synced exists. -/
def HasHosts (settings : StaticSettings) (files : Files) : Prop :=
  ∀ path, settings.hostsPath = some path → files.content path ≠ none

/-- The runtime is published if its fingerprint is new. -/
def Site.publish (s : Site) (runtime : Runtime) (files : Files) : Site where
  files
  published := if s.published.fingerprint ≠ runtime.fingerprint then runtime else s.published

section Rules

variable {α : Type}

theorem wp_log {message : String} {Q : Except Empty Unit → Site → Prop} (h : Q (.ok ()) s) :
    wp (ReloadAnswer fetched) (Answerable (ReloadAnswer fetched)) (Reload.log message) Q s := by
  refine wp_call.mpr ⟨⟨_, _, .log⟩, fun r s' hr => ?_⟩
  cases hr with
  | log => exact ⟨trivial, h⟩

theorem wp_warnIgnoredRuntimeChanges {prev next : FileConfig} {Q : Except Empty Unit → Site → Prop}
    (h : Q (.ok ()) s) :
    wp (ReloadAnswer fetched) (Answerable (ReloadAnswer fetched))
      (warnIgnoredRuntimeChanges prev next) Q s := by
  unfold warnIgnoredRuntimeChanges
  induction ignoredRuntimeChanges prev next with
  | nil => exact ⟨trivial, h⟩
  | cons setting settings ih => exact wp.bind (wp_log ih)

/-- A program of the file system acts on the files. -/
theorem wp_ofFs {p : Fs α} {Q : Except Error α → Site → Prop}
    (h : wp (FsAnswer False) (Answerable (FsAnswer False)) p
      (fun r files => Q r { s with files }) s.files) :
    wp (ReloadAnswer fetched) (Answerable (ReloadAnswer fetched)) (Reload.ofFs p) Q s := by
  refine wp.lift (fun files => { s with files }) (fun call files r t hr => ?_)
    (fun c files hc => ?_) h
  · cases hr with
    | fs hr => exact ⟨_, rfl, hr⟩
  · cases c with
    | none => trivial
    | some call =>
      obtain ⟨r, files', hr⟩ := hc
      exact ⟨r, _, .fs hr⟩

theorem wp_applyHosts {Q : Except Empty Unit → Site → Prop} (hfile : HasHosts settings s.files)
    (hok : ∀ files, Synced settings runtime.hostnames s.files files → Q (.ok ()) { s with files }) :
    wp (ReloadAnswer fetched) (Answerable (ReloadAnswer fetched)) (applyHosts settings runtime) Q
      s := by
  unfold applyHosts
  unfold HasHosts at hfile
  unfold Synced at hok
  cases hpath : settings.hostsPath with
  | none =>
    rw [hpath] at hok
    exact ⟨trivial, hok s.files rfl⟩
  | some path =>
    rw [hpath] at hok
    obtain ⟨original, horiginal⟩ := Option.ne_none_iff_exists'.mp (hfile path hpath)
    refine wp.bind (wp.attempt (wp_ofFs (wp_syncHosts horiginal fun changed files hi => ?_)))
    cases changed with
    | true => exact wp_log (hok files ⟨original, horiginal, hi⟩)
    | false => exact wp_log (hok files ⟨original, horiginal, hi⟩)

/-- What a reload does. -/
theorem wp_reloadOnce {last : FileConfig} {Q : Except Empty FileConfig → Site → Prop}
    (hfile : HasHosts settings s.files)
    (hkeep : accepted deserialize parseUrl hash fetched = none → Q (.ok last) s)
    (haccept : ∀ yaml runtime files,
      accepted deserialize parseUrl hash fetched = some (yaml, runtime) →
      Synced settings runtime.hostnames s.files files → Q (.ok yaml) (s.publish runtime files)) :
    wp (ReloadAnswer fetched) (Answerable (ReloadAnswer fetched))
      (reloadOnce deserialize parseUrl hash settings last) Q s := by
  have hskip (message : String) (h : accepted deserialize parseUrl hash fetched = none) :
      wp (ReloadAnswer fetched) (Answerable (ReloadAnswer fetched))
        (do Reload.log message; return last) Q s :=
    wp.bind (wp_log ⟨trivial, hkeep h⟩)
  refine wp_call_bind.mpr ⟨⟨_, _, .fetch⟩, fun r s' hr => ?_⟩
  cases hr with
  | fetch =>
    cases fetched with
    | error e => cases e <;> exact hskip _ rfl
    | ok text =>
      dsimp only
      cases hyaml : parseYaml deserialize text with
      | error e => exact hskip _ (by simp [accepted, Except.toOption, hyaml])
      | ok yaml =>
        refine wp.bind (wp_warnIgnoredRuntimeChanges ?_)
        cases hruntime : Runtime.fromYaml parseUrl hash yaml with
        | error e => exact hskip _ (by simp [accepted, Except.toOption, hyaml, hruntime])
        | ok runtime =>
          have haccepted :
              accepted deserialize parseUrl hash (.ok text) = some (yaml, runtime) := by
            simp [accepted, Except.toOption, hyaml, hruntime]
          refine wp_call_bind.mpr ⟨⟨_, _, .borrow⟩, fun r s' hr => ?_⟩
          cases hr with
          | borrow =>
            refine wp.bind (wp_applyHosts hfile fun files hsynced => ?_)
            have hpost := haccept yaml runtime files haccepted hsynced
            unfold Site.publish at hpost
            dsimp only
            split
            · next hchanged =>
              rw [if_pos hchanged] at hpost
              refine wp_call_bind.mpr ⟨⟨_, _, .send⟩, fun r s' hr => ?_⟩
              cases hr with
              | send => exact wp.bind (wp_log ⟨trivial, hpost⟩)
            · next hsame =>
              rw [if_neg hsame] at hpost
              exact wp.bind (wp_log ⟨trivial, hpost⟩)

end Rules

end NyaSniProxy
