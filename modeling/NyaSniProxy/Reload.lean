import NyaSniProxy.Hosts
import NyaSniProxy.Router

/-!
# Reloading the configuration

`reloadOnce` is one poll of the configuration: fetch it, parse it, build its runtime, write the
hosts file, and publish the runtime if the routing changed. Each of the steps may end the poll, and
then the configuration in force stays. What it asks of its environment are the calls below; a call
of the hosts file is one of `syncHosts`.
-/

namespace NyaSniProxy

open Text Interaction

/-- Why `fetch_with_hard_timeout` returned no text. -/
inductive FetchError where
  | timedOut
  | inFlight (current : Nat)
  | threadSpawn (f : Fault)
  | threadDropped
  | failed (e : Error)

inductive ReloadCall where
  /-- `fetch_with_hard_timeout`. -/
  | fetch
  /-- An event of the log. -/
  | log (message : String)
  /-- `borrow` of the sender of the watch channel. -/
  | borrow
  /-- `send` on the watch channel; an error says that there is no receiver. -/
  | send (runtime : Runtime)
  | fs (call : FsCall)

abbrev ReloadReply : ReloadCall → Type
  | .fetch => Except FetchError Bytes
  | .log _ => Unit
  | .borrow => Runtime
  | .send _ => Except Unit Unit
  | .fs call => FsReply call

/-- A reload logs its errors and does not fail. -/
abbrev Reload (α : Type) := Prog ReloadCall ReloadReply Empty α

namespace Reload

def log (message : String) : Reload Unit := .call (.log message) .ret

def ofFs {α : Type} (p : Fs α) : Prog ReloadCall ReloadReply Error α := p.lift .fs fun _ r => r

end Reload

/-- `warn_ignored_runtime_changes`: a warning for each setting that only a restart applies. -/
def warnIgnoredRuntimeChanges (prev next : FileConfig) : Reload Unit :=
  (ignoredRuntimeChanges prev next).forM fun setting =>
    Reload.log ("ignoring " ++ setting ++ " change in reloaded config; restart to apply")

def applyHosts (settings : StaticSettings) (runtime : Runtime) : Reload Unit :=
  match settings.hostsPath with
  | none => .ret ()
  | some path => do
    match ← (Reload.ofFs (syncHosts path settings.listen runtime.hostnames)).attempt with
    | .ok true => Reload.log "hosts file updated"
    | .ok false => Reload.log "hosts file already up to date"
    | .error _ => Reload.log "update hosts file failed"

/-- The result is the new `last_yaml`. -/
def reloadOnce (deserialize : Bytes → Option FileConfig) (parseUrl : Bytes → Option Url)
    (hash : Bytes → UInt64) (settings : StaticSettings) (lastYaml : FileConfig) :
    Reload FileConfig := do
  match ← Prog.call .fetch .ret with
  | .error (.inFlight _) => do
    Reload.log "config poll skipped"
    return lastYaml
  | .error _ => do
    Reload.log "config poll failed"
    return lastYaml
  | .ok text =>
    match parseYaml deserialize text with
    | .error _ => do
      Reload.log "config poll failed"
      return lastYaml
    | .ok yaml => do
      warnIgnoredRuntimeChanges lastYaml yaml
      match Runtime.fromYaml parseUrl hash yaml with
      | .error _ => do
        Reload.log "config poll failed"
        return lastYaml
      | .ok runtime => do
        let published ← Prog.call .borrow .ret
        let routingChanged := published.fingerprint ≠ runtime.fingerprint
        applyHosts settings runtime
        if routingChanged then
          match ← Prog.call (.send runtime) .ret with
          | .error () => do
            Reload.log "config poll failed"
            Reload.log "runtime config receiver dropped"
            return lastYaml
          | .ok () => do
            Reload.log "config poll completed"
            return yaml
        else do
          Reload.log "config poll completed"
          return yaml

end NyaSniProxy
