import NyaSniProxy.Library.Interference
import NyaSniProxy.Reload.Once
import NyaSniProxy.Reload.Safety
import NyaSniProxy.Reload.WatchFile
import NyaSniProxy.Router.Order

/-!
# The watched file is in force

The configuration file is rewritten at any time, and the watcher delivers an event for every write
that is made after it was registered, at any later time. Then every write is either pending, as an
event on its way or in the queue, or it is in force, or a reload that is under way will fetch it.

There are two gaps. A write between the first fetch and the registration of the watcher has no
event, and nothing fetches the file again before the next one; `Kept` excludes it. And a reload does
not publish a runtime with the fingerprint of the published one, so `TellsApart` asks that such
runtimes route alike.
-/

namespace NyaSniProxy

open Text Interaction

/-- What the reload loop and the writers of its file share. -/
structure WatchedFile where
  content : Bytes
  /-- What the first fetch read; nothing reads it but the statements. -/
  read : Option Bytes
  published : Option Runtime
  registered : Bool
  undelivered : List Event
  queue : List (Except Fault Event)

/-- Nothing has happened yet. -/
def WatchedFile.fresh (content : Bytes) : WatchedFile := ⟨content, none, none, false, [], []⟩

/-- The path that `prepare_source` gives for a file. -/
def preparedPath (path : FsPath) (canonical : Except Fault FsPath) : FsPath :=
  match canonical with
  | .ok canonical => canonical
  | .error _ => path

/-- An event for a write of the file: of a kind that stands for a change, and naming the file. -/
structure IsWriteOf (path : FsPath) (event : Event) : Prop where
  kind : event.kind ≠ .access ∧ event.kind ≠ .other
  named : ∃ p ∈ event.paths, p.fileName = path.fileName

theorem IsWriteOf.applies {path : FsPath} {event : Event} (h : IsWriteOf path event) :
    eventApplies event path.fileName = true := by
  obtain ⟨⟨haccess, hother⟩, p, hp, hname⟩ := h
  unfold eventApplies
  cases hfile : path.fileName with
  | none => cases hkind : event.kind <;> simp_all
  | some name =>
    have hany : (event.paths.any fun path => path.fileName = some name) = true :=
      List.any_eq_true.mpr ⟨p, hp, by simpa [hfile] using hname⟩
    cases hkind : event.kind <;> simp_all

section Run

variable (deserialize : Bytes → Option FileConfig) (parseUrl : Bytes → Option Url)
  (hash : Bytes → UInt64) (defaultHostsPath : FsPath) (cli : CliOverrides) (path : FsPath)
  (canonical : Except Fault FsPath) (configs : FileConfig → Prop)

/-- A text that is a configuration, one of `configs`. -/
def IsConfig (text : Bytes) : Prop :=
  ∃ yaml runtime,
    accepted deserialize parseUrl hash (.ok text) = some (yaml, runtime) ∧ configs yaml

/-- The answers to the reload loop. Every fetch reads the file and the watcher works. The hosts file
may do anything, and so may the ports. -/
inductive WatchAnswer : Env WatchCall WatchReply WatchedFile where
  | fetch {w} : WatchAnswer (.reload .fetch) w (.ok w.content)
      { w with read := some (w.read.getD w.content) }
  | log {w message} : WatchAnswer (.reload (.log message)) w () w
  | borrow {w runtime} : w.published = some runtime →
      WatchAnswer (.reload .borrow) w runtime w
  | send {w runtime} : WatchAnswer (.reload (.send runtime)) w (.ok ())
      { w with published := some runtime }
  | fs {w call r} : WatchAnswer (.reload (.fs call)) w r w
  | canonicalize {w p} : WatchAnswer (.canonicalize p) w canonical w
  | bind {w listen port r} : WatchAnswer (.bind listen port) w r w
  | channel {w runtime} : WatchAnswer (.channel runtime) w () { w with published := some runtime }
  | newWatcher {w} : WatchAnswer .newWatcher w (.ok ()) w
  | watch {w dir} : WatchAnswer (.watch dir) w (.ok ()) { w with registered := true }
  | recv {w event rest} : w.queue = event :: rest →
      WatchAnswer .recv w (some event) { w with queue := rest }
  | tryRecv {w event rest} : w.queue = event :: rest →
      WatchAnswer .tryRecv w (some event) { w with queue := rest }
  | tryRecvEmpty {w} : w.queue = [] → WatchAnswer .tryRecv w none w
  | sleep {w millis} : WatchAnswer (.sleep millis) w () w
  | tick {w} : WatchAnswer .tick w () w

/-- The file is written, an event is delivered, or the watcher reports anything else. -/
inductive WatchMove : WatchedFile → WatchedFile → Prop where
  | write {w text event} : IsConfig deserialize parseUrl hash configs text →
      IsWriteOf (preparedPath path canonical) event →
      WatchMove w { w with
        content := text
        undelivered := if w.registered then event :: w.undelivered else w.undelivered }
  | deliver {w before event after} : w.undelivered = before ++ event :: after →
      WatchMove w { w with
        undelivered := before ++ after
        queue := w.queue ++ [.ok event] }
  | report {w event} : w.registered = true → WatchMove w { w with queue := w.queue ++ [event] }

/-- The configuration in force is that of the file: the published runtime routes every host as the
runtime of the file does. -/
def InForce (w : WatchedFile) : Prop :=
  ∃ yaml runtime published,
    accepted deserialize parseUrl hash (.ok w.content) = some (yaml, runtime) ∧
    w.published = some published ∧
    ∀ host, published.router.lookup host = runtime.router.lookup host

/-- The fingerprint tells the configurations apart that do not route every host alike. -/
def TellsApart : Prop :=
  ∀ yaml yaml' runtime runtime', configs yaml → configs yaml' →
    Runtime.fromYaml parseUrl hash yaml = .ok runtime →
    Runtime.fromYaml parseUrl hash yaml' = .ok runtime' →
    runtime.fingerprint = runtime'.fingerprint →
    ∀ host, runtime.router.lookup host = runtime'.router.lookup host

/-- If the step registers the watcher, the file has the content that the first fetch has read. -/
def Kept (w w' : WatchedFile) : Prop :=
  w'.registered = w.registered ∨ w.read = some w.content

/-- A step of the reload loop or a move around it, which changes the file as `K` allows. -/
abbrev WatchRun (K : WatchedFile → WatchedFile → Prop) :
    WatchProg (Next ReloadPlace Unit) × WatchedFile →
      WatchProg (Next ReloadPlace Unit) × WatchedFile → Prop :=
  Relation.ReflTransGen fun c c' =>
    Interleaved (WatchAnswer canonical)
      (WatchMove deserialize parseUrl hash path canonical configs)
      (reloadTurn deserialize parseUrl hash defaultHostsPath cli (.file path)) c c' ∧ K c.2 c'.2

end Run

variable {deserialize : Bytes → Option FileConfig} {parseUrl : Bytes → Option Url}
  {hash : Bytes → UInt64} {defaultHostsPath : FsPath} {cli : CliOverrides} {path : FsPath}
  {canonical : Except Fault FsPath} {configs : FileConfig → Prop}
  {w w' : WatchedFile} {text : Bytes} {yaml : FileConfig} {runtime : Runtime}

/-! ## What no move ends -/

section Moves

variable (deserialize parseUrl hash path canonical configs)

/-- The watcher is not registered yet. -/
structure Starting (read : Option Bytes) (published : Option Runtime) (w : WatchedFile) : Prop where
  config : IsConfig deserialize parseUrl hash configs w.content
  read : w.read = read
  published : w.published = published
  registered : w.registered = false
  undelivered : w.undelivered = []
  queue : w.queue = []

/-- The watcher is registered. -/
structure Watched (w : WatchedFile) : Prop where
  config : IsConfig deserialize parseUrl hash configs w.content
  published : ∃ last published, w.published = some published ∧
    Runtime.fromYaml parseUrl hash last = .ok published ∧ configs last
  registered : w.registered = true
  events : ∀ event ∈ w.undelivered, IsWriteOf (preparedPath path canonical) event

/-- The published runtime was built from one of `configs`, and it has the fingerprint of the file's
one. -/
def SameFingerprint (w : WatchedFile) : Prop :=
  ∃ yaml runtime last published,
    accepted deserialize parseUrl hash (.ok w.content) = some (yaml, runtime) ∧ configs yaml ∧
    w.published = some published ∧ Runtime.fromYaml parseUrl hash last = .ok published ∧
    configs last ∧ published.fingerprint = runtime.fingerprint

/-- An event that applies is on its way or in the queue. -/
def Pending (w : WatchedFile) : Prop :=
  w.undelivered ≠ [] ∨
    ∃ event, .ok event ∈ w.queue ∧ eventApplies event (preparedPath path canonical).fileName = true

/-- The watcher is registered, and the file is as `A` says unless a write of it is pending. -/
structure UpTo (A : WatchedFile → Prop) (w : WatchedFile) : Prop where
  watched : Watched deserialize parseUrl hash path canonical configs w
  current : Pending path canonical w ∨ A w

end Moves

theorem stable_starting {read : Option Bytes} {published : Option Runtime} :
    Stable (WatchMove deserialize parseUrl hash path canonical configs)
      (Starting deserialize parseUrl hash configs read published) := by
  intro w w' hmove h
  cases hmove with
  | write hconfig hevent =>
    exact ⟨hconfig, h.read, h.published, h.registered, by simp [h.registered, h.undelivered],
      h.queue⟩
  | deliver hevents =>
    have := h.undelivered
    simp [hevents] at this
  | report hregistered =>
    rw [h.registered] at hregistered
    cases hregistered

theorem stable_watched : Stable (WatchMove deserialize parseUrl hash path canonical configs)
    (Watched deserialize parseUrl hash path canonical configs) := by
  intro w w' hmove h
  cases hmove with
  | write hconfig hevent =>
    refine ⟨hconfig, h.published, h.registered, ?_⟩
    simpa [h.registered] using ⟨hevent, h.events⟩
  | deliver hevents =>
    refine ⟨h.config, h.published, h.registered, fun event hmem => h.events event ?_⟩
    rw [hevents]
    rcases List.mem_append.mp hmem with hmem | hmem
    · exact List.mem_append_left _ hmem
    · exact List.mem_append_right _ (List.mem_cons_of_mem _ hmem)
  | report => exact ⟨h.config, h.published, h.registered, h.events⟩

/-- A write is pending, and a pending write stays pending. -/
theorem stable_upTo {A : WatchedFile → Prop}
    (hA : ∀ w w', w'.content = w.content → w'.published = w.published → A w → A w') :
    Stable (WatchMove deserialize parseUrl hash path canonical configs)
      (UpTo deserialize parseUrl hash path canonical configs A) := by
  intro w w' hmove h
  refine ⟨stable_watched hmove h.watched, ?_⟩
  cases hmove with
  | write hconfig hevent => exact .inl (.inl (by simp [h.watched.registered]))
  | @deliver before event after hevents =>
    have happlies := (h.watched.events event (by simp [hevents])).applies
    exact .inl (.inr ⟨event, by simp, happlies⟩)
  | report =>
    rcases h.current with (hsome | ⟨event, hmem, happlies⟩) | hA'
    · exact .inl (.inl hsome)
    · exact .inl (.inr ⟨event, List.mem_append_left _ hmem, happlies⟩)
    · exact .inr (hA w _ rfl rfl hA')

/-! ## Calls that leave the file alone -/

section Quiet

def ReloadCall.Quiet : ReloadCall → Prop
  | .log _ | .fs _ => True
  | .fetch | .borrow | .send _ => False

/-- The calls of the start that leave the file and its watcher alone. -/
def WatchCall.Quiet : WatchCall → Prop
  | .reload call => call.Quiet
  | .canonicalize _ | .bind .. => True
  | .channel _ | .newWatcher | .watch _ | .recv | .tryRecv | .sleep _ | .tick => False

theorem WatchAnswer.quiet {call : WatchCall} {r : WatchReply call} (hcall : call.Quiet)
    (h : WatchAnswer canonical call w r w') : w' = w := by
  cases h with
  | log | fs | canonicalize | bind => rfl
  | fetch | borrow | send | channel | newWatcher | watch | recv | tryRecv | tryRecvEmpty | sleep
  | tick => exact hcall.elim

theorem quiet_ofReload {α : Type} {p : Reload α} (h : p.Only ReloadCall.Quiet) :
    (WatchProg.ofReload p).Only WatchCall.Quiet := by
  have hlift : (p.lift .reload fun _ r => r : Prog WatchCall WatchReply Empty α).Only
      WatchCall.Quiet := Prog.Only.lift (fun _ hcall => hcall) h
  exact hlift.mapError

theorem quiet_log (message : String) : (Reload.log message).Only ReloadCall.Quiet :=
  ⟨trivial, fun _ => trivial⟩

theorem quiet_logged (message : String) (last : FileConfig) :
    (do Reload.log message; return last : Reload FileConfig).Only ReloadCall.Quiet :=
  (quiet_log message).bind fun _ => trivial

theorem quiet_warnIgnoredRuntimeChanges (prev next : FileConfig) :
    (warnIgnoredRuntimeChanges prev next).Only ReloadCall.Quiet := by
  unfold warnIgnoredRuntimeChanges
  induction ignoredRuntimeChanges prev next with
  | nil => trivial
  | cons setting settings ih => exact (quiet_log _).bind fun _ => ih

theorem quiet_applyHosts (settings : StaticSettings) (runtime : Runtime) :
    (applyHosts settings runtime).Only ReloadCall.Quiet := by
  unfold applyHosts
  split
  · trivial
  · refine Prog.Only.bind (Prog.Only.attempt ?_) fun result => ?_
    · exact Prog.Only.lift (fun _ _ => trivial) (Prog.only_true _)
    · split
      · exact quiet_log _
      · exact quiet_log _
      · exact quiet_log _

theorem quiet_bindListener (listen : Net.IpAddr) (port : UInt16) :
    (bindListener listen port).Only WatchCall.Quiet := by
  refine ⟨trivial, fun r => ?_⟩
  cases r <;> trivial

theorem quiet_bindListeners (settings : StaticSettings) :
    (bindListeners settings).Only WatchCall.Quiet := by
  refine (quiet_bindListener _ _).bind fun _ => ?_
  split
  · exact quiet_bindListener _ _
  · trivial

end Quiet

/-! ## The turns of the loop -/

section Turns

variable (deserialize parseUrl hash path canonical configs)

/-- The environment of the reload loop, with the moves around it. -/
abbrev WatchEnv : Env WatchCall WatchReply WatchedFile :=
  ((WatchAnswer canonical).restrict Kept).rely
    (WatchMove deserialize parseUrl hash path canonical configs)

/-- While the loop waits for an event, the fingerprint of the file is published unless a write is
pending. -/
def AtReceive (call : Option WatchCall) (w : WatchedFile) : Prop :=
  call = some .recv → UpTo deserialize parseUrl hash path canonical configs
    (SameFingerprint deserialize parseUrl hash configs) w

/-- The invariant of the loop. -/
def LoopInvariant (place : ReloadPlace) (w : WatchedFile) : Prop :=
  match place with
  | .start => Starting deserialize parseUrl hash configs none none w
  | .receive self => self.source = .file (preparedPath path canonical) ∧
      UpTo deserialize parseUrl hash path canonical configs
        (SameFingerprint deserialize parseUrl hash configs) w
  | .drain self => self.source = .file (preparedPath path canonical) ∧
      Watched deserialize parseUrl hash path canonical configs w
  | .poll _ => False

end Turns

theorem stable_sameFingerprint : Stable (WatchMove deserialize parseUrl hash path canonical configs)
    (UpTo deserialize parseUrl hash path canonical configs
      (SameFingerprint deserialize parseUrl hash configs)) := by
  refine stable_upTo fun w w' hcontent hpublished h => ?_
  unfold SameFingerprint
  rw [hcontent, hpublished]
  exact h

theorem stable_atReceive (call : Option WatchCall) :
    Stable (WatchMove deserialize parseUrl hash path canonical configs)
      (AtReceive deserialize parseUrl hash path canonical configs call) :=
  fun hmove h hcall => stable_sameFingerprint hmove (h hcall)

theorem stable_loopInvariant (place : ReloadPlace) :
    Stable (WatchMove deserialize parseUrl hash path canonical configs)
      (LoopInvariant deserialize parseUrl hash path canonical configs place) := by
  intro w w' hmove h
  cases place with
  | start => exact stable_starting hmove h
  | receive self => exact ⟨h.1, stable_sameFingerprint hmove h.2⟩
  | drain self => exact ⟨h.1, stable_watched hmove h.2⟩
  | poll self => exact h

/-- A quiet program keeps what no move ends. -/
theorem wp_quiet {α : Type} {p : WatchProg α} {A : WatchedFile → Prop}
    (hp : p.Only WatchCall.Quiet)
    (hA : Stable (WatchMove deserialize parseUrl hash path canonical configs) A) (h : A w) :
    wp (WatchEnv deserialize parseUrl hash path canonical configs)
      (AtReceive deserialize parseUrl hash path canonical configs) p (fun _ w => A w) w := by
  refine wp_of_kept hp (fun call w hcall _ hrecv => ?_) (fun call w r w' hcall h hr => ?_) h
  · exact (hcall _ hrecv).elim
  · obtain ⟨w₁, hmoves, hanswer, -⟩ := hr
    obtain rfl := hanswer.quiet hcall
    exact hA.moves hmoves h

theorem ofReload_call (call : ReloadCall) :
    WatchProg.ofReload (.call call .ret) = .call (.reload call) .ret := rfl

theorem ofReload_bind {α β : Type} (p : Reload α) (f : α → Reload β) :
    WatchProg.ofReload (p >>= f) = WatchProg.ofReload p >>= fun a => WatchProg.ofReload (f a) := by
  induction p with
  | ret a => rfl
  | fail e => rfl
  | call i k ih => exact congrArg (Prog.call (WatchCall.reload i)) (funext ih)

/-- What the steps of a reload make of an accepted text. -/
theorem accepted_eq_some_iff :
    accepted deserialize parseUrl hash (.ok text) = some (yaml, runtime) ↔
      parseYaml deserialize text = .ok yaml ∧
        Runtime.fromYaml parseUrl hash yaml = .ok runtime := by
  constructor
  · intro h
    refine ⟨?_, fromYaml_of_accepted h⟩
    obtain ⟨cfg, hcfg, h⟩ := Option.bind_eq_some_iff.mp h
    obtain ⟨built, -, h⟩ := Option.bind_eq_some_iff.mp h
    obtain ⟨rfl, -⟩ : cfg = yaml ∧ built = runtime := by simpa using h
    cases hp : parseYaml deserialize text with
    | error e => simp [hp, Except.toOption] at hcfg
    | ok y => simpa [hp, Except.toOption] using hcfg
  · rintro ⟨hyaml, hruntime⟩
    simp [accepted, Except.toOption, hyaml, hruntime]

/-- The file is as a reload has read it. -/
def Fetched (text : Bytes) (w : WatchedFile) : Prop := w.content = text

theorem stable_fetched : Stable (WatchMove deserialize parseUrl hash path canonical configs)
    (UpTo deserialize parseUrl hash path canonical configs (Fetched text)) :=
  stable_upTo fun _ _ hcontent _ h => hcontent.trans h

theorem stable_published {published : Runtime} :
    Stable (WatchMove deserialize parseUrl hash path canonical configs)
      fun w => w.published = some published := by
  intro w w' hmove h
  cases hmove <;> exact h

/-- A runtime with the fingerprint of the text that was read is published. -/
theorem UpTo.sameFingerprint {published : Runtime} {last : FileConfig}
    (h : UpTo deserialize parseUrl hash path canonical configs (Fetched text) w)
    (haccepted : accepted deserialize parseUrl hash (.ok text) = some (yaml, runtime))
    (hconfig : configs yaml) (hlast : Runtime.fromYaml parseUrl hash last = .ok published)
    (hlastConfig : configs last) (hfingerprint : published.fingerprint = runtime.fingerprint) :
    UpTo deserialize parseUrl hash path canonical configs
      (SameFingerprint deserialize parseUrl hash configs)
      { w with published := some published } := by
  refine ⟨⟨h.watched.config, ⟨last, published, rfl, hlast, hlastConfig⟩, h.watched.registered,
    h.watched.events⟩, h.current.imp id fun hcontent => ?_⟩
  refine ⟨yaml, runtime, last, published, ?_, hconfig, rfl, hlast, hlastConfig, hfingerprint⟩
  rw [show w.content = text from hcontent]
  exact haccepted

/-- A runtime that stays published because the text that was read has its fingerprint. -/
theorem UpTo.sameFingerprint_kept {published : Runtime}
    (h : UpTo deserialize parseUrl hash path canonical configs (Fetched text) w)
    (hpublished : w.published = some published)
    (haccepted : accepted deserialize parseUrl hash (.ok text) = some (yaml, runtime))
    (hconfig : configs yaml) (hfingerprint : published.fingerprint = runtime.fingerprint) :
    UpTo deserialize parseUrl hash path canonical configs
      (SameFingerprint deserialize parseUrl hash configs) w := by
  obtain ⟨last, older, holder, hlast, hlastConfig⟩ := h.watched.published
  obtain rfl : older = published := Option.some.inj (holder.symm.trans hpublished)
  have hnow := h.sameFingerprint haccepted hconfig hlast hlastConfig hfingerprint
  rwa [← hpublished] at hnow

/-- The last step of a reload writes a log message. -/
theorem wp_logged {message : String} {last : FileConfig}
    (h : UpTo deserialize parseUrl hash path canonical configs
      (SameFingerprint deserialize parseUrl hash configs) w) :
    wp (WatchEnv deserialize parseUrl hash path canonical configs)
      (AtReceive deserialize parseUrl hash path canonical configs)
      (WatchProg.ofReload (do Reload.log message; return last))
      (fun r w => ∀ yaml, r = .ok yaml → UpTo deserialize parseUrl hash path canonical configs
        (SameFingerprint deserialize parseUrl hash configs) w) w :=
  (wp_quiet (quiet_ofReload (quiet_logged message last)) stable_sameFingerprint h).mono
    fun _ _ h _ _ => h

/-- After a reload the fingerprint of the file is published, unless the file was written since the
reload has read it. -/
theorem wp_reload {settings : StaticSettings} {last : FileConfig}
    (h : Watched deserialize parseUrl hash path canonical configs w) :
    wp (WatchEnv deserialize parseUrl hash path canonical configs)
      (AtReceive deserialize parseUrl hash path canonical configs)
      (WatchProg.ofReload (reloadOnce deserialize parseUrl hash settings last))
      (fun r w => ∀ yaml, r = .ok yaml → UpTo deserialize parseUrl hash path canonical configs
        (SameFingerprint deserialize parseUrl hash configs) w) w := by
  unfold reloadOnce
  rw [ofReload_bind, ofReload_call]
  refine wp_call_bind.mpr ⟨nofun, fun r w' hr => ?_⟩
  obtain ⟨w₁, hmoves, hanswer, -⟩ := hr
  have hw₁ := stable_watched.moves hmoves h
  cases hanswer with
  | fetch =>
    obtain ⟨yaml, runtime, haccepted, hconfig⟩ := hw₁.config
    obtain ⟨hyaml, hruntime⟩ := accepted_eq_some_iff.mp haccepted
    -- from here on a write of the file is pending, or its content is the one that was read
    have hfetched : UpTo deserialize parseUrl hash path canonical configs (Fetched w₁.content)
        { w₁ with read := some (w₁.read.getD w₁.content) } :=
      ⟨⟨hw₁.config, hw₁.published, hw₁.registered, hw₁.events⟩, .inr rfl⟩
    dsimp only
    rw [hyaml]
    dsimp only
    rw [ofReload_bind]
    refine wp.bind ((wp_quiet (quiet_ofReload (quiet_warnIgnoredRuntimeChanges _ _))
      stable_fetched hfetched).mono fun r w₂ h₂ => ?_)
    cases r with
    | error e => exact nofun
    | ok _ =>
      dsimp only
      rw [hruntime]
      dsimp only
      rw [ofReload_bind, ofReload_call]
      refine wp_call_bind.mpr ⟨nofun, fun published w' hr => ?_⟩
      obtain ⟨w₃, hmoves₃, hanswer, -⟩ := hr
      have h₃ := stable_fetched.moves hmoves₃ h₂
      cases hanswer with
      | borrow hpublished =>
        rw [ofReload_bind]
        refine wp.bind ((wp_quiet (quiet_ofReload (quiet_applyHosts _ _))
          (stable_fetched.and stable_published) ⟨h₃, hpublished⟩).mono fun r w₄ h₄ => ?_)
        cases r with
        | error e => exact nofun
        | ok _ =>
          dsimp only
          split
          · rw [ofReload_bind, ofReload_call]
            refine wp_call_bind.mpr ⟨nofun, fun sent w' hr => ?_⟩
            obtain ⟨w₅, hmoves₅, hanswer, -⟩ := hr
            have h₅ := stable_fetched.moves hmoves₅ h₄.1
            cases hanswer with
            | send =>
              exact wp_logged (h₅.sameFingerprint haccepted hconfig hruntime hconfig rfl)
          · next hsame =>
            exact wp_logged (h₄.1.sameFingerprint_kept h₄.2 haccepted hconfig (not_not.mp hsame))

/-- The fingerprint of a file that is unchanged when its watcher is registered is published. -/
theorem wp_watchFile {self : ReloadLoop}
    (hsource : self.source = .file (preparedPath path canonical))
    (haccepted : accepted deserialize parseUrl hash (.ok text) = some (yaml, runtime))
    (hconfig : configs yaml)
    (h : Starting deserialize parseUrl hash configs (some text) (some runtime) w) :
    wp (WatchEnv deserialize parseUrl hash path canonical configs)
      (AtReceive deserialize parseUrl hash path canonical configs)
      (watchFile (preparedPath path canonical) self)
      (Loop.post (LoopInvariant deserialize parseUrl hash path canonical configs) fun _ _ => True)
      w := by
  refine wp_call_bind.mpr ⟨nofun, fun r w' hr => ?_⟩
  obtain ⟨w₁, hmoves, hanswer, -⟩ := hr
  have h₁ := stable_starting.moves hmoves h
  cases hanswer with
  | newWatcher =>
    refine wp_call_bind.mpr ⟨nofun, fun r w' hr => ?_⟩
    obtain ⟨w₂, hmoves, hanswer, hkept⟩ := hr
    have h₂ := stable_starting.moves hmoves h₁
    cases hanswer with
    | watch =>
      have hcontent : w₂.content = text := by
        rcases hkept with hregistered | hread
        · cases hregistered.trans h₂.registered
        · exact Option.some.inj (hread.symm.trans h₂.read)
      have hruntime := fromYaml_of_accepted haccepted
      have hnow : UpTo deserialize parseUrl hash path canonical configs
          (SameFingerprint deserialize parseUrl hash configs) { w₂ with registered := true } := by
        refine ⟨⟨h₂.config, ⟨yaml, runtime, h₂.published, hruntime, hconfig⟩, rfl, ?_⟩,
          .inr ⟨yaml, runtime, yaml, runtime, ?_, hconfig, h₂.published, hruntime, hconfig, rfl⟩⟩
        · simp [h₂.undelivered]
        · rw [hcontent]
          exact haccepted
      refine wp.bind ((wp_quiet (quiet_ofReload (quiet_log _)) stable_sameFingerprint hnow).mono
        fun r w₃ h₃ => ?_)
      cases r with
      | error e => trivial
      | ok _ => exact ⟨nofun, hsource, h₃⟩

theorem wp_prepareSource {Q : Except Error ConfigSource → WatchedFile → Prop}
    (h : ∀ w', Relation.ReflTransGen
      (WatchMove deserialize parseUrl hash path canonical configs) w w' →
      Q (.ok (.file (preparedPath path canonical))) w') :
    wp (WatchEnv deserialize parseUrl hash path canonical configs)
      (AtReceive deserialize parseUrl hash path canonical configs)
      (prepareSource (.file path)) Q w := by
  refine wp_call_bind.mpr ⟨nofun, fun r w' hr => ?_⟩
  obtain ⟨w₁, hmoves, hanswer, -⟩ := hr
  have h₁ := h w₁ hmoves
  cases hanswer with
  | canonicalize => cases canonical <;> exact ⟨nofun, h₁⟩

/-- Up to the registration of the watcher nothing but the content changes, and what was read first
is published. -/
theorem wp_startReloadLoop (h : Starting deserialize parseUrl hash configs none none w) :
    wp (WatchEnv deserialize parseUrl hash path canonical configs)
      (AtReceive deserialize parseUrl hash path canonical configs)
      (startReloadLoop deserialize parseUrl hash defaultHostsPath cli (.file path))
      (Loop.post (LoopInvariant deserialize parseUrl hash path canonical configs) fun _ _ => True)
      w := by
  refine wp_call_bind.mpr ⟨nofun, fun r w' hr => ?_⟩
  obtain ⟨w₁, hmoves, hanswer, -⟩ := hr
  have h₁ := stable_starting.moves hmoves h
  cases hanswer with
  | fetch =>
    obtain ⟨yaml, runtime, haccepted, hconfig⟩ := h₁.config
    obtain ⟨hyaml, hruntime⟩ := accepted_eq_some_iff.mp haccepted
    have hread : Starting deserialize parseUrl hash configs (some w₁.content) none
        { w₁ with read := some (w₁.read.getD w₁.content) } :=
      ⟨h₁.config, by simp [h₁.read], h₁.published, h₁.registered, h₁.undelivered, h₁.queue⟩
    simp only [hyaml, Prog.ofExcept, Prog.ret_bind]
    cases hsettings : mergeSettings defaultHostsPath yaml cli with
    | error e => exact ⟨nofun, trivial⟩
    | ok settings =>
      simp only [hruntime, Prog.ret_bind]
      refine wp.bind (wp_prepareSource fun w₂ hmoves₂ => ?_)
      have h₂ := stable_starting.moves hmoves₂ hread
      refine wp.bind ((wp_quiet (quiet_bindListeners settings) stable_starting h₂).mono
        fun r w₃ h₃ => ?_)
      cases r with
      | error e => trivial
      | ok _ =>
        refine wp.bind ((wp_quiet (quiet_ofReload (quiet_applyHosts settings runtime))
          stable_starting h₃).mono fun r w₄ h₄ => ?_)
        cases r with
        | error e => trivial
        | ok _ =>
          refine wp.bind ((wp_quiet (quiet_ofReload (quiet_log _)) stable_starting h₄).mono
            fun r w₅ h₅ => ?_)
          cases r with
          | error e => trivial
          | ok _ =>
            refine wp_call_bind.mpr ⟨nofun, fun r w' hr => ?_⟩
            obtain ⟨w₆, hmoves₆, hanswer, -⟩ := hr
            have h₆ := stable_starting.moves hmoves₆ h₅
            cases hanswer with
            | channel =>
              exact wp_watchFile rfl haccepted hconfig
                ⟨h₆.config, h₆.read, rfl, h₆.registered, h₆.undelivered, h₆.queue⟩

theorem Watched.taken (h : Watched deserialize parseUrl hash path canonical configs w)
    (rest : List (Except Fault Event)) :
    Watched deserialize parseUrl hash path canonical configs { w with queue := rest } :=
  ⟨h.config, h.published, h.registered, h.events⟩

/-- A report that does not apply is taken from the queue. -/
theorem UpTo.taken {report : Except Fault Event} {rest : List (Except Fault Event)}
    (h : UpTo deserialize parseUrl hash path canonical configs
      (SameFingerprint deserialize parseUrl hash configs) w) (hqueue : w.queue = report :: rest)
    (hreport : ∀ event, report = .ok event →
      eventApplies event (preparedPath path canonical).fileName = false) :
    UpTo deserialize parseUrl hash path canonical configs
      (SameFingerprint deserialize parseUrl hash configs) { w with queue := rest } := by
  refine ⟨h.watched.taken rest, h.current.imp (fun hpending => ?_) id⟩
  obtain hsome | ⟨event, hmem, happlies⟩ := hpending
  · exact .inl hsome
  · rw [hqueue] at hmem
    obtain hfirst | hmem := List.mem_cons.mp hmem
    · rw [hreport event hfirst.symm] at happlies
      cases happlies
    · exact .inr ⟨event, hmem, happlies⟩

/-- One turn of the loop keeps its invariant. -/
theorem wp_reloadTurn (place : ReloadPlace) (w : WatchedFile)
    (h : LoopInvariant deserialize parseUrl hash path canonical configs place w) :
    wp (WatchEnv deserialize parseUrl hash path canonical configs)
      (AtReceive deserialize parseUrl hash path canonical configs)
      (reloadTurn deserialize parseUrl hash defaultHostsPath cli (.file path) place)
      (Loop.post (LoopInvariant deserialize parseUrl hash path canonical configs) fun _ _ => True)
      w := by
  cases place with
  | start => exact wp_startReloadLoop h
  | receive self =>
    obtain ⟨hsource, hw⟩ := h
    refine wp_call_bind.mpr ⟨fun _ => hw, fun r w' hr => ?_⟩
    obtain ⟨w₁, hmoves, hanswer, -⟩ := hr
    have h₁ := stable_sameFingerprint.moves hmoves hw
    have hname : self.filename = (preparedPath path canonical).fileName := by
      simp [ReloadLoop.filename, hsource]
    cases hanswer with
    | @recv _ report rest hqueue =>
      cases report with
      | error f =>
        refine wp.bind ((wp_quiet (quiet_ofReload (quiet_log _)) stable_sameFingerprint
          (h₁.taken hqueue nofun)).mono fun r w₂ h₂ => ?_)
        cases r with
        | error e => trivial
        | ok _ => exact ⟨nofun, hsource, h₂⟩
      | ok event =>
        cases happlies : eventApplies event self.filename with
        | true =>
          simp only [happlies, if_true]
          refine wp_call_bind.mpr ⟨nofun, fun r w' hr => ?_⟩
          obtain ⟨w₂, hmoves₂, hanswer, -⟩ := hr
          have h₂ := stable_watched.moves hmoves₂ (h₁.watched.taken rest)
          cases hanswer with
          | sleep => exact ⟨nofun, hsource, h₂⟩
        | false =>
          simp only [happlies, Bool.false_eq_true, if_false]
          refine ⟨nofun, hsource, h₁.taken hqueue fun event' hevent => ?_⟩
          obtain rfl : event = event' := Except.ok.inj hevent
          rw [← hname]
          exact happlies
  | drain self =>
    obtain ⟨hsource, hw⟩ := h
    refine wp_call_bind.mpr ⟨nofun, fun r w' hr => ?_⟩
    obtain ⟨w₁, hmoves, hanswer, -⟩ := hr
    have h₁ := stable_watched.moves hmoves hw
    cases hanswer with
    | @tryRecv _ report rest hqueue =>
      cases report <;> exact ⟨nofun, hsource, h₁.taken rest⟩
    | tryRecvEmpty =>
      refine wp.bind ((wp_reload h₁).mono fun r w₂ h₂ => ?_)
      cases r with
      | error e => trivial
      | ok last => exact ⟨nofun, hsource, h₂ last rfl⟩
  | poll self => exact h.elim

/-- A published runtime with the fingerprint of the file's one routes every host as that does. -/
theorem SameFingerprint.inForce (htells : TellsApart parseUrl hash configs)
    (h : SameFingerprint deserialize parseUrl hash configs w) :
    InForce deserialize parseUrl hash w := by
  obtain ⟨yaml, runtime, last, published, haccepted, hyaml, hpublished, hlast, hconfig, hsame⟩ := h
  exact ⟨yaml, runtime, published, haccepted, hpublished,
    htells last yaml published runtime hconfig hyaml hlast (fromYaml_of_accepted haccepted) hsame⟩

/-- A fingerprint that sees every difference but that of letter case tells configurations apart, if
no two keys of theirs are equal up to case. -/
theorem Distinguished.tellsApart (h : Distinguished hash configs) :
    TellsApart parseUrl hash configs := by
  intro yaml yaml' runtime runtime' hconfig hconfig' hruntime hruntime' hsame host
  refine SameUpToCase.lookup_eq (h.fingerprint _ _ hconfig hconfig' ?_) (h.keys _ hconfig') hruntime
    hruntime' host
  obtain ⟨-, rfl⟩ := fromYaml_eq_ok.mp hruntime
  obtain ⟨-, rfl⟩ := fromYaml_eq_ok.mp hruntime'
  exact hsame

/-- In every run whose steps meet `Kept` and whose configurations the fingerprint tells apart: while
the loop waits for an event, with none in the queue and none on its way, the configuration in force
is that of the file. -/
theorem watchFile_current {content : Bytes} {p : WatchProg (Next ReloadPlace Unit)}
    (htells : TellsApart parseUrl hash configs)
    (hconfig : IsConfig deserialize parseUrl hash configs content)
    (hrun : WatchRun deserialize parseUrl hash defaultHostsPath cli path canonical configs Kept
      (reloadTurn deserialize parseUrl hash defaultHostsPath cli (.file path) .start,
        .fresh content) (p, w))
    (hwaits : p.pending = some .recv) (hundelivered : w.undelivered = []) (hqueue : w.queue = []) :
    InForce deserialize parseUrl hash w := by
  have hstart : Starting deserialize parseUrl hash configs none none (.fresh content) :=
    ⟨hconfig, rfl, rfl, rfl, rfl, rfl⟩
  have hwp := Interleaved.reaches stable_atReceive stable_loopInvariant
    (fun _ {_ _} _ h => h) wp_reloadTurn (wp_reloadTurn .start _ hstart) hrun
  obtain hpending | hsame := (hwp.invariant hwaits).current
  · obtain hsome | ⟨event, hmem, -⟩ := hpending
    · exact absurd hundelivered hsome
    · simp [hqueue] at hmem
  · exact hsame.inForce htells

/-! ## Two runs -/

section Examples

theorem WatchMove.registered
    (h : WatchMove deserialize parseUrl hash path canonical configs w w') :
    w'.registered = w.registered := by
  cases h <;> rfl

section Steps

variable {K : WatchedFile → WatchedFile → Prop} {content : Bytes} {settings : StaticSettings}
  {w₁ : WatchedFile}

/-- Without a hosts file nothing is synced. -/
theorem ends_watchHosts (hhosts : settings.hostsPath = none) (runtime : Runtime) :
    Ends ((WatchAnswer canonical).restrict K)
      (WatchProg.ofReload (applyHosts settings runtime)) w (.ok ()) w := by
  unfold applyHosts
  rw [hhosts]
  exact .refl

theorem ends_watchCall (hK : ∀ w w', w'.registered = w.registered → K w w') (call : WatchCall)
    {r : WatchReply call} (h : WatchAnswer canonical call w r w')
    (hregistered : w'.registered = w.registered) :
    Ends ((WatchAnswer canonical).restrict K) (.call call .ret : WatchProg _) w (.ok r) w' :=
  .call ⟨h, hK _ _ hregistered⟩ .refl

theorem ends_watchLog (hK : ∀ w w', w'.registered = w.registered → K w w') (message : String) :
    Ends ((WatchAnswer canonical).restrict K) (WatchProg.ofReload (Reload.log message)) w (.ok ())
      w :=
  ends_watchCall hK (.reload (.log message)) .log rfl

/-- The run that reaches the loop without a hosts file, and without a listener for HTTP. All moves
happen right after the first fetch. -/
theorem reaches_receive (hK : ∀ w w', w'.registered = w.registered → K w w')
    (haccepted : accepted deserialize parseUrl hash (.ok content) = some (yaml, runtime))
    (hsettings : mergeSettings defaultHostsPath yaml cli = .ok settings)
    (hhosts : settings.hostsPath = none) (hhttp : settings.http = false)
    (hmoves : Relation.ReflTransGen
      (WatchMove deserialize parseUrl hash path canonical configs)
      { WatchedFile.fresh content with read := some content } w₁)
    (hwatch : K { w₁ with published := some runtime }
      { w₁ with published := some runtime, registered := true }) :
    WatchRun deserialize parseUrl hash defaultHostsPath cli path canonical configs K
      (reloadTurn deserialize parseUrl hash defaultHostsPath cli (.file path) .start,
        .fresh content)
      (reloadTurn deserialize parseUrl hash defaultHostsPath cli (.file path)
          (.receive ⟨.file (preparedPath path canonical), settings, yaml⟩),
        { w₁ with published := some runtime, registered := true }) := by
  obtain ⟨hyaml, hruntime⟩ := accepted_eq_some_iff.mp haccepted
  have hbind (w : WatchedFile) : Ends ((WatchAnswer canonical).restrict K)
      (bindListeners settings) w (.ok ()) w := by
    unfold bindListeners bindListener
    rw [hhttp]
    exact .bind (.bind (ends_watchCall hK (.bind settings.listen 443) (r := .ok ()) .bind rfl)
      .refl) .refl
  have hprepare (w : WatchedFile) : Ends ((WatchAnswer canonical).restrict K)
      (prepareSource (.file path)) w (.ok (.file (preparedPath path canonical))) w := by
    refine .bind (ends_watchCall hK (.canonicalize path) .canonicalize rfl) ?_
    cases canonical <;> exact .refl
  let self : ReloadLoop := ⟨.file (preparedPath path canonical), settings, yaml⟩
  have hwatched : Ends ((WatchAnswer canonical).restrict K) (runReloadLoop self)
      { w₁ with published := some runtime } (.ok (.again (.receive self)))
      { w₁ with published := some runtime, registered := true } := by
    refine .bind (ends_watchCall hK .newWatcher .newWatcher rfl) ?_
    exact .bind (.call ⟨.watch, hwatch⟩ .refl) (.bind (ends_watchLog hK _) .refl)
  have hrest : Ends ((WatchAnswer canonical).restrict K) (do
      let source ← prepareSource (.file path)
      bindListeners settings
      WatchProg.ofReload (applyHosts settings runtime)
      WatchProg.log "nyasniproxy started"
      Prog.call (.channel runtime) .ret
      runReloadLoop { source, settings, lastYaml := yaml }) w₁ (.ok (.again (.receive self)))
      { w₁ with published := some runtime, registered := true } :=
    .bind (hprepare _) (.bind (hbind _) (.bind (ends_watchHosts hhosts runtime)
      (.bind (ends_watchLog hK _) (.call ⟨.channel, hK _ _ rfl⟩ hwatched))))
  refine .head ⟨.step (.run (.call WatchAnswer.fetch)), hK _ _ rfl⟩ ?_
  refine (Interleaved.of_moves (fun w w' h => hK w w' h.registered) _ hmoves).trans ?_
  refine .tail ?_ ⟨.step .again, hK _ _ rfl⟩
  simp only [Prog.bind, WatchedFile.fresh, hyaml, hruntime, hsettings, Prog.ofExcept, Prog.ret_bind]
  exact Interleaved.of_reaches hrest

/-- The loop waits, the file is written, the event is delivered, and the reload publishes what was
written. -/
theorem reaches_reload {self : ReloadLoop} {event : Event} {published : Runtime}
    (hK : ∀ w w', w'.registered = w.registered → K w w')
    (haccepted : accepted deserialize parseUrl hash (.ok text) = some (yaml, runtime))
    (hconfig : configs yaml) (hsource : self.source = .file (preparedPath path canonical))
    (hhosts : self.settings.hostsPath = none)
    (hevent : IsWriteOf (preparedPath path canonical) event)
    (hchanged : published.fingerprint ≠ runtime.fingerprint) :
    WatchRun deserialize parseUrl hash defaultHostsPath cli path canonical configs K
      (reloadTurn deserialize parseUrl hash defaultHostsPath cli (.file path) (.receive self),
        ⟨content, some content, some published, true, [], []⟩)
      (reloadTurn deserialize parseUrl hash defaultHostsPath cli (.file path)
        (.receive { self with lastYaml := yaml }),
        ⟨text, some content, some runtime, true, [], []⟩) := by
  obtain ⟨hyaml, hruntime⟩ := accepted_eq_some_iff.mp haccepted
  have happlies : eventApplies event self.filename = true := by
    simpa [ReloadLoop.filename, hsource] using hevent.applies
  have hwarn (w : WatchedFile) : Ends ((WatchAnswer canonical).restrict K)
      (WatchProg.ofReload (warnIgnoredRuntimeChanges self.lastYaml yaml)) w (.ok ()) w := by
    unfold warnIgnoredRuntimeChanges
    induction ignoredRuntimeChanges self.lastYaml yaml with
    | nil => exact .refl
    | cons setting settings ih => exact .call ⟨.log, hK _ _ rfl⟩ ih
  have hreload : Ends ((WatchAnswer canonical).restrict K)
      (WatchProg.ofReload (reloadOnce deserialize parseUrl hash self.settings self.lastYaml))
      ⟨text, some content, some published, true, [], []⟩ (.ok yaml)
      ⟨text, some content, some runtime, true, [], []⟩ := by
    unfold reloadOnce
    rw [ofReload_bind, ofReload_call]
    refine .bind (ends_watchCall hK (.reload .fetch) .fetch rfl) ?_
    dsimp only
    rw [hyaml]
    dsimp only
    rw [ofReload_bind]
    refine .bind (hwarn _) ?_
    rw [hruntime]
    dsimp only
    rw [ofReload_bind, ofReload_call]
    refine .bind (ends_watchCall hK (.reload .borrow) (.borrow rfl) rfl) ?_
    rw [ofReload_bind]
    refine .bind (ends_watchHosts hhosts runtime) ?_
    rw [if_pos hchanged, ofReload_bind, ofReload_call]
    refine .bind (ends_watchCall hK (.reload (.send runtime)) .send rfl) ?_
    rw [ofReload_bind]
    exact .bind (ends_watchLog hK _) .refl
  have hmoves : Relation.ReflTransGen
      (WatchMove deserialize parseUrl hash path canonical configs)
      ⟨content, some content, some published, true, [], []⟩
      ⟨text, some content, some published, true, [], [.ok event]⟩ :=
    .tail (.single (.write ⟨yaml, runtime, haccepted, hconfig⟩ hevent))
      (@WatchMove.deliver _ _ _ _ _ _ _ [] event [] rfl)
  have hreceive : Ends ((WatchAnswer canonical).restrict K)
      (reloadTurn deserialize parseUrl hash defaultHostsPath cli (.file path) (.receive self))
      ⟨text, some content, some published, true, [], [.ok event]⟩ (.ok (.again (.drain self)))
      ⟨text, some content, some published, true, [], []⟩ := by
    refine .bind (ends_watchCall hK .recv (.recv rfl) rfl) ?_
    dsimp only
    rw [if_pos happlies]
    exact .bind (ends_watchCall hK (.sleep 200) .sleep rfl) .refl
  have hdrain : Ends ((WatchAnswer canonical).restrict K)
      (reloadTurn deserialize parseUrl hash defaultHostsPath cli (.file path) (.drain self))
      ⟨text, some content, some published, true, [], []⟩
      (.ok (.again (.receive { self with lastYaml := yaml })))
      ⟨text, some content, some runtime, true, [], []⟩ :=
    .bind (ends_watchCall hK .tryRecv (.tryRecvEmpty rfl) rfl) (.bind hreload .refl)
  refine (Interleaved.of_moves (fun w w' h => hK w w' h.registered) _ hmoves).trans ?_
  refine .trans (.tail (Interleaved.of_reaches hreceive) ⟨.step .again, hK _ _ rfl⟩) ?_
  exact .tail (Interleaved.of_reaches hdrain) ⟨.step .again, hK _ _ rfl⟩

end Steps

/-- Two proxies, and a default rule that names one of them. -/
def defaultYaml (name : Bytes) (h : name ≠ []) : FileConfig :=
  { sampleYaml with rules := ⟨[⟨ascii "default", .single name h⟩], List.nodupKeys_singleton _⟩ }

def defaultText (name : String) : Bytes := ascii (
  "proxies:\n  jp: http://127.0.0.1:8080\n  us: http://127.0.0.1:8081\n" ++
  "rules:\n  default: " ++ name ++ "\n")

def defaultDeserialize (text : Bytes) : Option FileConfig :=
  if text = defaultText "jp" then some (defaultYaml (ascii "jp") jp_ne_nil)
  else if text = defaultText "us" then some (defaultYaml (ascii "us") us_ne_nil)
  else none

def sampleCli : CliOverrides := ⟨none, none, true, true, none⟩

def configFile : FsPath := ⟨true, [ascii "etc", ascii "nyasniproxy", ascii "config.yaml"]⟩

theorem accepted_jp : ∃ runtime,
    accepted defaultDeserialize sampleUrl sampleHash (.ok (defaultText "jp")) =
      some (defaultYaml (ascii "jp") jp_ne_nil, runtime) :=
  ⟨_, accepted_eq_some_iff.mpr ⟨rfl, rfl⟩⟩

theorem accepted_us : ∃ runtime,
    accepted defaultDeserialize sampleUrl sampleHash (.ok (defaultText "us")) =
      some (defaultYaml (ascii "us") us_ne_nil, runtime) :=
  ⟨_, accepted_eq_some_iff.mpr ⟨rfl, rfl⟩⟩

theorem fingerprint_jp_ne_us : routingFingerprint sampleHash (defaultYaml (ascii "jp") jp_ne_nil) ≠
    routingFingerprint sampleHash (defaultYaml (ascii "us") us_ne_nil) := by decide +kernel

theorem tellsApart_defaultYaml : TellsApart sampleUrl sampleHash
    fun yaml => yaml = defaultYaml (ascii "jp") jp_ne_nil ∨
      yaml = defaultYaml (ascii "us") us_ne_nil :=
  (Distinguished.pair (by decide) (by decide) fingerprint_jp_ne_us).tellsApart

/-- The file is written while the loop waits, and what was written is in force when it waits
again. -/
theorem watchFile_current_example : ∃ w,
    InForce defaultDeserialize sampleUrl sampleHash w ∧ w.content = defaultText "us" ∧
      w.read = some (defaultText "jp") := by
  obtain ⟨runtime, haccepted⟩ := accepted_jp
  obtain ⟨runtime', haccepted'⟩ := accepted_us
  have hruntime := fromYaml_of_accepted haccepted
  have hruntime' := fromYaml_of_accepted haccepted'
  have hchanged : runtime.fingerprint ≠ runtime'.fingerprint := by
    obtain ⟨-, rfl⟩ := fromYaml_eq_ok.mp hruntime
    obtain ⟨-, rfl⟩ := fromYaml_eq_ok.mp hruntime'
    exact fingerprint_jp_ne_us
  have hevent : IsWriteOf configFile ⟨.modify, [configFile]⟩ :=
    ⟨⟨by decide, by decide⟩, configFile, by simp, rfl⟩
  have hstart := @reaches_receive defaultDeserialize sampleUrl sampleHash hostsFile
    sampleCli configFile (.ok configFile)
    (fun yaml => yaml = defaultYaml (ascii "jp") jp_ne_nil ∨
      yaml = defaultYaml (ascii "us") us_ne_nil) _ _ Kept _ _ _
    (fun _ _ => .inl) haccepted rfl rfl rfl .refl (.inr rfl)
  have hrun := hstart.trans (reaches_reload (fun _ _ => .inl) haccepted' (.inr rfl) rfl rfl hevent
    hchanged)
  exact ⟨_, watchFile_current tellsApart_defaultYaml ⟨_, _, haccepted, .inl rfl⟩ hrun rfl rfl rfl,
    rfl, rfl⟩

/-- The file is written after the first fetch and before the watcher is registered. Then the loop
waits with an empty queue, no event is on its way, and every host goes through `jp`. -/
theorem watchFile_lostWrite : ∃ p w,
    WatchRun defaultDeserialize sampleUrl sampleHash hostsFile sampleCli configFile
      (.ok configFile) (fun _ => True) (fun _ _ => True)
      (reloadTurn defaultDeserialize sampleUrl sampleHash hostsFile sampleCli (.file configFile)
        .start, .fresh (defaultText "jp")) (p, w) ∧
    p.pending = some .recv ∧ w.undelivered = [] ∧ w.queue = [] ∧
    w.content = defaultText "us" ∧
    ¬ InForce defaultDeserialize sampleUrl sampleHash w := by
  obtain ⟨runtime, haccepted⟩ := accepted_jp
  obtain ⟨runtime', haccepted'⟩ := accepted_us
  have hevent : IsWriteOf configFile ⟨.modify, [configFile]⟩ :=
    ⟨⟨by decide, by decide⟩, configFile, by simp, rfl⟩
  have hwrite : WatchMove defaultDeserialize sampleUrl sampleHash configFile (.ok configFile)
      (fun _ => True) { WatchedFile.fresh (defaultText "jp") with read := some (defaultText "jp") }
      { WatchedFile.fresh (defaultText "us") with read := some (defaultText "jp") } :=
    .write ⟨_, _, haccepted', trivial⟩ hevent
  have hrun := @reaches_receive defaultDeserialize sampleUrl sampleHash hostsFile
    sampleCli configFile (.ok configFile) (fun _ => True) _ _ (fun _ _ => True) _ _ _
    (fun _ _ _ => trivial) haccepted rfl rfl rfl (.single hwrite) trivial
  refine ⟨_, _, hrun, rfl, rfl, rfl, rfl, ?_⟩
  rintro ⟨yaml, runtime'', published, hnow, hpublished, hsame⟩
  obtain ⟨rfl, rfl⟩ : defaultYaml (ascii "us") us_ne_nil = yaml ∧ runtime' = runtime'' := by
    simpa using haccepted'.symm.trans hnow
  obtain rfl : runtime = published := Option.some.inj hpublished
  obtain ⟨-, rfl⟩ := fromYaml_eq_ok.mp (fromYaml_of_accepted haccepted)
  obtain ⟨-, rfl⟩ := fromYaml_eq_ok.mp (fromYaml_of_accepted haccepted')
  have hnames := congrArg (List.map Hop.name) (hsame (ascii "example.com"))
  revert hnames
  decide +kernel

end Examples

end NyaSniProxy
