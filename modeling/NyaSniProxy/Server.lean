import NyaSniProxy.Connection.Session
import NyaSniProxy.Library.Tasks
import NyaSniProxy.Reload.Current

/-!
# The server

Once `main` has published its first runtime it is a system of tasks: an accept loop for each
listener, the reload loop, and a task for every connection. The accept loops share the permits of
the connections. A connection that gets no permit is dropped, and one that gets one keeps it until
its task ends. The watch channel carries the runtime in force from the reload loop to the
connections.

A connection carries the number of runtimes that were published before it was accepted. Nothing
reads it but the statements about it.
-/

namespace NyaSniProxy

open Text Interaction

def maxConnections : Nat := 1024

/-! ## The accept loop -/

/-- The outcome of the `select!` of an accept loop: what `accept` gave, or a tick of the heartbeat.
A stream is told by what its client will send. -/
inductive AcceptEvent where
  | accepted (result : Except Fault Bytes)
  | tick

inductive AcceptCall where
  | select
  /-- `beat` of the heartbeat. -/
  | beat
  /-- `try_acquire_owned` of the semaphore. -/
  | tryAcquire
  | log (message : String)
  /-- `tokio::spawn` of the handler, with the permit and a receiver of its own. -/
  | spawn (protocol : InboundProtocol) (stream : Bytes)

abbrev AcceptReply : AcceptCall → Type
  | .select => AcceptEvent
  | .tryAcquire => Bool
  | .beat | .log _ | .spawn .. => Unit

abbrev AcceptProg (α : Type) := Prog AcceptCall AcceptReply Error α

/-- One turn of `accept_loop`. -/
def acceptTurn (protocol : InboundProtocol) : AcceptProg (Next Unit Empty) := do
  match ← Prog.call .select .ret with
  | .accepted result =>
    Prog.call .beat .ret
    let stream ← Prog.ofExcept (result.mapError .fault)
    if ← Prog.call .tryAcquire .ret then
      Prog.call (.spawn protocol stream) .ret
      return .again ()
    else
      Prog.call (.log "connection limit reached") .ret
      return .again ()
  | .tick =>
    Prog.call .beat .ret
    return .again ()

/-! ## The start -/

section Main

variable (deserialize : Bytes → Option FileConfig) (parseUrl : Bytes → Option Url)
  (hash : Bytes → UInt64) (defaultHostsPath : FsPath) (cli : CliOverrides) (source : ConfigSource)

/-- `main` up to the spawn of its tasks: the runtime that is in force, and the reload loop. -/
def startMain : WatchProg (Runtime × ReloadLoop) := do
  match ← Prog.call (.reload .fetch) .ret with
  | .error e => Prog.fail e.error
  | .ok text =>
    let yaml ← Prog.ofExcept (parseYaml deserialize text)
    let settings ← Prog.ofExcept (mergeSettings defaultHostsPath yaml cli)
    let runtime ← Prog.ofExcept (Runtime.fromYaml parseUrl hash yaml)
    let source ← prepareSource source
    bindListeners settings
    WatchProg.ofReload (applyHosts settings runtime)
    WatchProg.log "nyasniproxy started"
    Prog.call (.channel runtime) .ret
    return (runtime, { source, settings, lastYaml := yaml })

/-- The reload loop is spawned by `main`. -/
theorem startReloadLoop_eq :
    startReloadLoop deserialize parseUrl hash defaultHostsPath cli source =
      startMain deserialize parseUrl hash defaultHostsPath cli source >>= fun p =>
        runReloadLoop p.2 := by
  unfold startReloadLoop startMain
  rw [bind_assoc]
  refine congrArg (Prog.call _ .ret >>= ·) (funext fun r => ?_)
  cases r with
  | error e => rfl
  | ok text => simp only [bind_assoc, pure_bind]

/-- Some run of `main`, in any environment, has published the runtime and spawned the loop. -/
def Started (runtime : Runtime) (self : ReloadLoop) : Prop :=
  ∃ (σ : Type) (E : Env WatchCall WatchReply σ) (w w' : σ),
    Ends E (startMain deserialize parseUrl hash defaultHostsPath cli source) w
      (.ok (runtime, self)) w'

end Main

/-! ## The tasks -/

/-- What the tasks share: the semaphore, and the watch channel with all runtimes it has carried, the
latest one first. -/
structure Server where
  permits : Nat
  current : Runtime
  earlier : List Runtime
  receivers : Nat

inductive Task where
  /-- An accept loop with the permits it owns. -/
  | accept (protocol : InboundProtocol) (prog : AcceptProg (Next Unit Empty)) (permits : Nat)
  | connection (protocol : InboundProtocol) (client : Bytes) (since : Nat)
    (prog : Io (Next Relay Unit)) (session : Session)
  /-- A handler has ended, and its permit is about to be dropped. -/
  | closing
  | reload (prog : WatchProg (Next ReloadPlace Unit))

/-- The answers to the reload loop. Fetches, files, listeners and watchers may do anything. -/
inductive ReloadAnswers : Env WatchCall WatchReply Server where
  | fetch {s} (result) : ReloadAnswers (.reload .fetch) s result s
  | log {s message} : ReloadAnswers (.reload (.log message)) s () s
  | borrow {s} : ReloadAnswers (.reload .borrow) s s.current s
  | sent {s runtime} : 0 < s.receivers → ReloadAnswers (.reload (.send runtime)) s (.ok ())
      { s with current := runtime, earlier := s.current :: s.earlier }
  | dropped {s runtime} : s.receivers = 0 →
      ReloadAnswers (.reload (.send runtime)) s (.error ()) s
  | fs {s call} (r) : ReloadAnswers (.reload (.fs call)) s r s
  | canonicalize {s path} (r) : ReloadAnswers (.canonicalize path) s r s
  | bind {s listen port} (r) : ReloadAnswers (.bind listen port) s r s
  | newWatcher {s} (r) : ReloadAnswers .newWatcher s r s
  | watch {s dir} (r) : ReloadAnswers (.watch dir) s r s
  | recv {s} (r) : ReloadAnswers .recv s r s
  | tryRecv {s} (r) : ReloadAnswers .tryRecv s r s
  | sleep {s millis} : ReloadAnswers (.sleep millis) s () s
  | tick {s} : ReloadAnswers .tick s () s

section Tasks

variable (deserialize : Bytes → Option FileConfig) (parseUrl : Bytes → Option Url)
  (hash : Bytes → UInt64) (defaultHostsPath : FsPath) (cli : CliOverrides) (source : ConfigSource)

/-- One step of one task. -/
inductive Act : Server → Task → Server → List Task → Prop where
  | select {s protocol k n} (event) :
      Act s (.accept protocol (.call .select k) n) s [.accept protocol (k event) n]
  | beat {s protocol k n} :
      Act s (.accept protocol (.call .beat k) n) s [.accept protocol (k ()) n]
  | acquired {s protocol k n free} : s.permits = free + 1 →
      Act s (.accept protocol (.call .tryAcquire k) n) { s with permits := free }
        [.accept protocol (k true) (n + 1)]
  | noPermits {s protocol k n} : s.permits = 0 →
      Act s (.accept protocol (.call .tryAcquire k) n) s [.accept protocol (k false) n]
  | log {s protocol message k n} :
      Act s (.accept protocol (.call (.log message) k) n) s [.accept protocol (k ()) n]
  | spawn {s protocol inbound client k n} :
      Act s (.accept protocol (.call (.spawn inbound client) k) (n + 1))
        { s with receivers := s.receivers + 1 }
        [.accept protocol (k ()) n,
          .connection inbound client s.earlier.length (handleConnection inbound) (.fresh client)]
  /-- What the loop still owns at the end of a turn is dropped. -/
  | acceptAgain {s protocol n} :
      Act s (.accept protocol (.ret (.again ())) n) { s with permits := s.permits + n }
        [.accept protocol (acceptTurn protocol) 0]
  | connection {s protocol client since call k session r session'} :
      SessionAnswer (· = s.current) call session r session' →
      Act s (.connection protocol client since (.call call k) session) s
        [.connection protocol client since (k r) session']
  | relay {s protocol client since v session} :
      Act s (.connection protocol client since (.ret (.again v)) session) s
        [.connection protocol client since (relayConnection v) session]
  /-- The handler has returned or failed, or it panics at any point. -/
  | ended {s protocol client since prog session} :
      Act s (.connection protocol client since prog session)
        { s with receivers := s.receivers - 1 } [.closing]
  | closed {s} : Act s .closing { s with permits := s.permits + 1 } []
  | reload {s s' call k r} : ReloadAnswers call s r s' →
      Act s (.reload (.call call k)) s' [.reload (k r)]
  | reloadAgain {s place} : Act s (.reload (.ret (.again place))) s
      [.reload (reloadTurn deserialize parseUrl hash defaultHostsPath cli source place)]

/-- The accept loops of `main`, with a receiver each. -/
def acceptLoops (settings : StaticSettings) : List Task :=
  (if settings.http then [.accept .http (acceptTurn .http) 0] else []) ++
    [.accept .https (acceptTurn .https) 0]

/-- The tasks that `main` has spawned, and those it is. -/
def Server.start (runtime : Runtime) (self : ReloadLoop) : Tasks Server Task where
  shared := {
    permits := maxConnections
    current := runtime
    earlier := []
    receivers := (acceptLoops self.settings).length }
  running := acceptLoops self.settings ++ [.reload (runReloadLoop self)]

/-- An accept loop has failed: `main` returns, and the process ends. -/
def Server.Exited (p : Tasks Server Task) : Prop :=
  ∃ protocol e n, .accept protocol (.fail e) n ∈ p.running

/-- A step of the process. -/
inductive Server.Step : Tasks Server Task → Tasks Server Task → Prop where
  | run {p p'} : ¬ Exited p →
      Tasks.Step (Act deserialize parseUrl hash defaultHostsPath cli source) p p' → Step p p'

/-- Some run of the program leads to this state. -/
def Server.Reachable (p : Tasks Server Task) : Prop :=
  ∃ runtime self, Started deserialize parseUrl hash defaultHostsPath cli source runtime self ∧
    Relation.ReflTransGen (Step deserialize parseUrl hash defaultHostsPath cli source)
      (Server.start runtime self) p

variable {deserialize parseUrl hash defaultHostsPath cli source}

/-- A run of the program is one of its tasks. -/
theorem Server.Reachable.tasks {p : Tasks Server Task}
    (h : Reachable deserialize parseUrl hash defaultHostsPath cli source p) :
    ∃ runtime self, Started deserialize parseUrl hash defaultHostsPath cli source runtime self ∧
      Tasks.Reaches (Act deserialize parseUrl hash defaultHostsPath cli source)
        (Server.start runtime self) p := by
  obtain ⟨runtime, self, hstarted, hrun⟩ := h
  refine ⟨runtime, self, hstarted, Relation.ReflTransGen.mono (fun p p' hs => ?_) _ _ hrun⟩
  cases hs with
  | run _ hs => exact hs

/-- A step of the accept loop, if it is the only one and there is no connection yet. -/
theorem Server.Step.loop {s s' : Server} {protocol : InboundProtocol} {c : AcceptCall}
    {k : AcceptReply c → AcceptProg (Next Unit Empty)} {n : Nat} {ts : List Task}
    {prog : WatchProg (Next ReloadPlace Unit)}
    (h : Act deserialize parseUrl hash defaultHostsPath cli source s
      (.accept protocol (.call c k) n) s' ts) :
    Step deserialize parseUrl hash defaultHostsPath cli source
      ⟨s, [.accept protocol (.call c k) n, .reload prog]⟩ ⟨s', ts ++ [.reload prog]⟩ := by
  refine .run ?_ (@Tasks.Step.act _ _ _ _ _ _ _ [] [Task.reload prog] h)
  rintro ⟨protocol, e, n, hmem⟩
  simp at hmem

/-- The loop for `https` accepts a connection. -/
theorem reaches_connection {runtime : Runtime} {self : ReloadLoop}
    (hhttp : self.settings.http = false) (client : Bytes) :
    Relation.ReflTransGen (Server.Step deserialize parseUrl hash defaultHostsPath cli source)
      (Server.start runtime self)
      ⟨⟨maxConnections - 1, runtime, [], 2⟩,
        [.accept .https (.ret (.again ())) 0,
          .connection .https client 0 (handleConnection .https) (.fresh client),
          .reload (runReloadLoop self)]⟩ := by
  have hstart : Server.start runtime self = ⟨⟨maxConnections, runtime, [], 1⟩,
      [.accept .https (acceptTurn .https) 0, .reload (runReloadLoop self)]⟩ := by
    simp [Server.start, acceptLoops, hhttp]
  rw [hstart]
  refine .head (.loop (.select (.accepted (.ok client)))) ?_
  refine .head (.loop .beat) (.head (.loop (.acquired rfl)) (.head (.loop .spawn) .refl))

end Tasks

/-! ## A start -/

/-- The start with the sample configuration, without a listener for `http` and a hosts file. -/
theorem started_jp : ∃ runtime self,
    Runtime.fromYaml sampleUrl sampleHash (defaultYaml (ascii "jp") jp_ne_nil) = .ok runtime ∧
    Started defaultDeserialize sampleUrl sampleHash hostsFile sampleCli (.file configFile) runtime
      self ∧ self.settings.http = false := by
  obtain ⟨runtime, haccepted⟩ := accepted_jp
  obtain ⟨hyaml, hruntime⟩ := accepted_eq_some_iff.mp haccepted
  obtain ⟨settings, hsettings, hhttp, hhosts⟩ : ∃ settings,
      mergeSettings hostsFile (defaultYaml (ascii "jp") jp_ne_nil) sampleCli = .ok settings ∧
        settings.http = false ∧ settings.hostsPath = none := ⟨_, rfl, rfl, rfl⟩
  have hcall (call : WatchCall) (r : WatchReply call) :
      Ends (fun _ _ _ _ => True) (.call call .ret : WatchProg _) () (.ok r) () :=
    .call trivial .refl
  have hprepare : Ends (fun _ _ _ _ => True) (prepareSource (.file configFile)) ()
      (.ok (.file configFile)) () := .bind (hcall (.canonicalize _) (.ok configFile)) .refl
  have hbind : Ends (fun _ _ _ _ => True) (bindListeners settings) () (.ok ()) () := by
    unfold bindListeners bindListener
    rw [hhttp]
    exact .bind (.bind (hcall (.bind settings.listen 443) (.ok ())) .refl) .refl
  have happly : Ends (fun _ _ _ _ => True) (WatchProg.ofReload (applyHosts settings runtime)) ()
      (.ok ()) () := by
    unfold applyHosts
    rw [hhosts]
    exact .refl
  refine ⟨runtime, ⟨.file configFile, settings, defaultYaml (ascii "jp") jp_ne_nil⟩,
    hruntime, ⟨Unit, fun _ _ _ _ => True, (), (), ?_⟩, hhttp⟩
  refine .bind (hcall (.reload .fetch) (.ok (defaultText "jp"))) ?_
  simp only [hyaml, hruntime, hsettings, Prog.ofExcept, Prog.ret_bind]
  exact .bind hprepare (.bind hbind (.bind happly (.bind (hcall (.reload (.log _)) ())
    (.bind (hcall (.channel runtime) ()) .refl))))

/-- The server with one connection. -/
theorem reachable_connection (client : Bytes) : ∃ runtime self,
    Runtime.fromYaml sampleUrl sampleHash (defaultYaml (ascii "jp") jp_ne_nil) = .ok runtime ∧
    Server.Reachable defaultDeserialize sampleUrl sampleHash hostsFile sampleCli (.file configFile)
      ⟨⟨maxConnections - 1, runtime, [], 2⟩,
        [.accept .https (.ret (.again ())) 0,
          .connection .https client 0 (handleConnection .https) (.fresh client),
          .reload (runReloadLoop self)]⟩ := by
  obtain ⟨runtime, self, hruntime, hstarted, hhttp⟩ := started_jp
  exact ⟨runtime, self, hruntime, runtime, self, hstarted, reaches_connection hhttp client⟩

end NyaSniProxy
