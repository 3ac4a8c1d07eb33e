import NyaSniProxy.Reload

/-!
# The start of the program and the watch of its configuration

`main` fetches the configuration, builds its runtime and publishes it. Then `runReloadLoop` goes on
for ever: it watches a local file, and it polls a URL, or a file it cannot watch.

The reload loop is one loop with a state for each place where it waits.
-/

namespace NyaSniProxy

open Text Interaction

inductive ConfigSource where
  | file (path : FsPath)
  | url (url : Bytes)
  deriving DecidableEq

/-- `EventKind` of `notify`, without what it says about the kinds. -/
inductive EventKind where
  | any
  | access
  | create
  | modify
  | remove
  | other
  deriving DecidableEq

structure Event where
  kind : EventKind
  paths : List FsPath

def eventApplies (event : Event) (filename : Option Bytes) : Bool :=
  match event.kind with
  | .create | .modify | .remove | .any =>
    match filename with
    | none => true
    | some name => event.paths.any fun path => path.fileName = some name
  | .access | .other => false

/-- The directory that is watched for a file. -/
def watchDir (path : FsPath) : FsPath :=
  (path.parent.filter fun dir => dir.display ≠ []).getD .current

/-- `Display` of the error. -/
def FetchError.error : FetchError → Error
  | .timedOut => .msg "config fetch timed out after 15s"
  | .inFlight current =>
    .bail "previous config fetch still in flight (" (decimal current ++ ascii ")")
  | .threadSpawn f => .within "spawn config fetch thread" (.fault f)
  | .threadDropped => .msg "config fetch thread panicked or dropped"
  | .failed e => e

inductive WatchCall where
  | reload (call : ReloadCall)
  /-- `canonicalize` of a path. -/
  | canonicalize (path : FsPath)
  | bind (listen : Net.IpAddr) (port : UInt16)
  /-- `watch::channel`: the runtime is published. -/
  | channel (runtime : Runtime)
  /-- `notify::recommended_watcher`. -/
  | newWatcher
  | watch (dir : FsPath)
  /-- `recv` on the queue of the events; without a value when the queue is closed. -/
  | recv
  /-- `try_recv` on it; without a value when the queue is empty. -/
  | tryRecv
  | sleep (millis : Nat)
  /-- `tick` of the interval of a poll. -/
  | tick

abbrev WatchReply : WatchCall → Type
  | .reload call => ReloadReply call
  | .canonicalize _ => Except Fault FsPath
  | .bind .. | .newWatcher | .watch _ => Except Fault Unit
  | .recv | .tryRecv => Option (Except Fault Event)
  | .channel _ | .sleep _ | .tick => Unit

abbrev WatchProg (α : Type) := Prog WatchCall WatchReply Error α

namespace WatchProg

def ofReload {α : Type} (p : Reload α) : WatchProg α :=
  (p.lift .reload fun _ r => r).mapError Empty.elim

def log (message : String) : WatchProg Unit := ofReload (Reload.log message)

end WatchProg

/-- The variables of the reload loop. -/
structure ReloadLoop where
  source : ConfigSource
  settings : StaticSettings
  lastYaml : FileConfig

/-- Where the reload loop is: at the start of `main`, at the head of the loop of `watch_file`, in
the loop that drains the queue of the events, or at the head of the loop of `poll_source`. -/
inductive ReloadPlace where
  | start
  | receive (self : ReloadLoop)
  | drain (self : ReloadLoop)
  | poll (self : ReloadLoop)

/-- A path that cannot be canonicalized stays as it is. -/
def prepareSource : ConfigSource → WatchProg ConfigSource
  | .file path => do
    match ← Prog.call (.canonicalize path) .ret with
    | .ok canonical => return .file canonical
    | .error _ => return .file path
  | .url url => return .url url

def bindListener (listen : Net.IpAddr) (port : UInt16) : WatchProg Unit := do
  match ← Prog.call (.bind listen port) .ret with
  | .ok () => return ()
  | .error f => Prog.fail (.context "bind" listen.display (.fault f))

def bindListeners (settings : StaticSettings) : WatchProg Unit := do
  bindListener settings.listen 443
  if settings.http then bindListener settings.listen 80

/-- `poll_source` up to its loop. -/
def pollSource (self : ReloadLoop) : WatchProg (Next ReloadPlace Unit) := do
  Prog.call .tick .ret
  return .again (.poll self)

/-- `watch_file` up to its loop. -/
def watchFile (path : FsPath) (self : ReloadLoop) : WatchProg (Next ReloadPlace Unit) := do
  match ← Prog.call .newWatcher .ret with
  | .error _ =>
    WatchProg.log "file watch unavailable, polling config instead"
    pollSource self
  | .ok () =>
    match ← Prog.call (.watch (watchDir path)) .ret with
    | .error _ =>
      WatchProg.log "watch config directory failed, polling instead"
      pollSource self
    | .ok () =>
      WatchProg.log "watching config file"
      return .again (.receive self)

def runReloadLoop (self : ReloadLoop) : WatchProg (Next ReloadPlace Unit) :=
  match self.source with
  | .file path => watchFile path self
  | .url _ => pollSource self

/-- What the file that is watched is called. -/
def ReloadLoop.filename (self : ReloadLoop) : Option Bytes :=
  match self.source with
  | .file path => path.fileName
  | .url _ => none

section Main

variable (deserialize : Bytes → Option FileConfig) (parseUrl : Bytes → Option Url)
  (hash : Bytes → UInt64) (defaultHostsPath : FsPath) (cli : CliOverrides) (source : ConfigSource)

/-- `main` up to the loop of `runReloadLoop`. -/
def startReloadLoop : WatchProg (Next ReloadPlace Unit) := do
  match ← Prog.call (.reload .fetch) .ret with
  | .error e => Prog.fail e.error
  | .ok text =>
    let yaml ← Prog.ofExcept (parseYaml deserialize text)
    let settings ← Prog.ofExcept (mergeSettings defaultHostsPath yaml cli)
    let runtime ← Prog.ofExcept (Runtime.fromYaml parseUrl hash yaml)
    let source ← prepareSource source
    bindListeners settings
    WatchProg.ofReload (applyHosts settings runtime)
    WatchProg.log "nyasniproxy started"
    Prog.call (.channel runtime) .ret
    runReloadLoop { source, settings, lastYaml := yaml }

/-- One turn of the reload loop. -/
def reloadTurn : ReloadPlace → WatchProg (Next ReloadPlace Unit)
  | .start => startReloadLoop deserialize parseUrl hash defaultHostsPath cli source
  | .receive self => do
    match ← Prog.call .recv .ret with
    | none => return .exit ()
    | some (.ok event) =>
      if eventApplies event self.filename then
        Prog.call (.sleep 200) .ret
        return .again (.drain self)
      else
        return .again (.receive self)
    | some (.error _) =>
      WatchProg.log "config watch event failed"
      return .again (.receive self)
  | .drain self => do
    match ← Prog.call .tryRecv .ret with
    | some (.ok _) | some (.error _) => return .again (.drain self)
    | none =>
      let lastYaml ← WatchProg.ofReload
        (reloadOnce deserialize parseUrl hash self.settings self.lastYaml)
      return .again (.receive { self with lastYaml })
  | .poll self => do
    Prog.call .tick .ret
    let lastYaml ← WatchProg.ofReload
      (reloadOnce deserialize parseUrl hash self.settings self.lastYaml)
    return .again (.poll { self with lastYaml })

end Main

end NyaSniProxy
