import NyaSniProxy.Proxy.Connect
import NyaSniProxy.Tls

/-!
# Connections

`handleConnection` reads the target from the client, connects to it through the hops of its route,
hands over what the client already sent, and then relays. The relay is a loop without a bound:
`copyBidirectional` is one turn of it, and a connection is the program `handleConnection` followed
by turns of `relayConnection`.
-/

namespace NyaSniProxy

open Text Interaction

inductive InboundProtocol where
  | http
  | https
  deriving DecidableEq

/-- The variables of the relay loop. `a` is the client and `b` the upstream. -/
structure Relay where
  aToB : UInt64
  bToA : UInt64
  aDone : Bool
  bDone : Bool

def Relay.init : Relay := { aToB := 0, bToA := 0, aDone := false, bDone := false }

def relayBuffer : Nat := 16 * 1024

/-- The guards of the two reads. -/
def Relay.guard (v : Relay) : Side → Bool
  | .inbound => !v.aDone
  | .upstream => !v.bDone

/-- An arm of the relay's `select!`, which gets the result of a read: write the chunk, or shut the
write side down at the end of the stream. The result is the chunk's length, zero at the end. -/
def copyChunk (result : Except Fault Bytes) (sink : Side)
    (readText shutdownText writeText : String) : Io Nat := do
  let chunk ← (Io.fallible result).mapError (.within readText)
  if chunk = [] then
    (Io.shutdown sink).mapError (.within shutdownText)
    return 0
  (Io.writeAll sink chunk).mapError (.within writeText)
  Io.resetIdle
  return chunk.length

/-- One turn of the loop of `copy_bidirectional_with_idle_timeout`. -/
def copyBidirectional (v : Relay) : Io (Next Relay (UInt64 × UInt64)) :=
  if v.aDone && v.bDone then .ret (.exit (v.aToB, v.bToA))
  else do
    match ← Io.select v.guard relayBuffer with
    | .idle => .fail (.msg "relay idle timeout")
    | .read .inbound result =>
      let n ← copyChunk result .upstream "read inbound traffic"
        "shutdown upstream write side" "write upstream traffic"
      if n = 0 then return .again { v with aDone := true }
      return .again { v with aToB := v.aToB + n.toUInt64 }
    | .read .upstream result =>
      let n ← copyChunk result .inbound "read upstream traffic"
        "shutdown inbound write side" "write inbound traffic"
      if n = 0 then return .again { v with bDone := true }
      return .again { v with bToA := v.bToA + n.toUInt64 }

def readTarget : InboundProtocol → Io (Target × Bytes)
  | .http => Io.timeout "timed out reading HTTP header" readHttpTarget
  | .https => Io.timeout "timed out reading TLS ClientHello" readHttpsTarget

/-- Everything in front of the relay loop. -/
def handleConnection (protocol : InboundProtocol) : Io (Next Relay Unit) := do
  let (target, initial) ← readTarget protocol
  let runtime ← Io.borrow
  let hops := runtime.router.lookup target.host
  let upstream ← connectWithFallback
    (fun hop target => (hop.proxy.connect target).attempt) hops target
  .ofExcept upstream
  Io.timeout "timed out writing initial traffic upstream" (.writeAll .upstream initial)
  return .again .init

/-- One turn of the relay loop, and the end of the connection behind it. -/
def relayConnection (v : Relay) : Io (Next Relay Unit) := do
  match ← (copyBidirectional v).mapError (.within "relay traffic") with
  | .again v => return .again v
  | .exit (fromClient, fromServer) =>
    .call (.relayComplete fromClient fromServer) fun _ => .ret (.exit ())

end NyaSniProxy
