import NyaSniProxy.Library.Interaction
import NyaSniProxy.Router

/-!
# What a connection asks of its environment

A connection is a program over the calls below: operations on its two streams, timers, TLS, and the
routing table in force. An operation may fail with an error of the system; one that a timer guards
may also be cut off by it, at any of its awaits, which is the answer `elapsed`.

`writeAll` and `readExact` are the loops of `AsyncWriteExt::write_all` and
`AsyncReadExt::read_exact` over single writes and reads, and `readUntil` is the shape of the three
loops of this program that collect a message.
-/

namespace NyaSniProxy

open Text Interaction

/-- The two streams of a connection. -/
inductive Side where
  | inbound
  | upstream
  deriving DecidableEq

/-- The outcome of the `select!` of the relay: the timer, or the result of one of its two reads. -/
inductive Branch where
  | idle
  | read (side : Side) (result : Except Fault Bytes)

inductive Call where
  /-- `TcpStream::connect` to the proxy. -/
  | connect (proxy : ProxyConfig)
  /-- Does `ServerName::try_from` take the host? -/
  | serverName (host : Bytes)
  /-- `TlsConnector::connect` on the stream to the proxy. -/
  | tlsConnect
  /-- `PrefixedStream::new` on the stream to the proxy. -/
  | tunnel (pre : Bytes)
  /-- One `read` into a buffer of `cap` bytes. -/
  | read (side : Side) (cap : Nat)
  /-- One `write`, which takes some of the bytes. -/
  | write (side : Side) (bytes : Bytes)
  | shutdown (side : Side)
  /-- Wait for the timer, or for a read of `cap` bytes from one of the sides with a guard that
  holds. -/
  | select (guard : Side → Bool) (cap : Nat)
  | resetIdle
  /-- `borrow` of the watch channel. -/
  | borrow
  /-- The `relay complete` event with its two counters. -/
  | relayComplete (fromClient fromServer : UInt64)

abbrev Reply : Call → Type
  | .connect _ | .tlsConnect | .shutdown _ => Except Fault Unit
  | .serverName _ => Bool
  | .read .. => Except Fault Bytes
  | .write .. => Except Fault Nat
  | .select .. => Branch
  | .borrow => Runtime
  | .tunnel _ | .resetIdle | .relayComplete .. => Unit

abbrev Io (α : Type) := Prog Call Reply Error α

namespace Io

variable {α : Type}

/-- A call that answers with a result or a fault. -/
def fallible (r : Except Fault α) : Io α := .ofExcept (r.mapError .fault)

def read (side : Side) (cap : Nat) : Io Bytes := .call (.read side cap) fallible

def shutdown (side : Side) : Io Unit := .call (.shutdown side) fallible

def select (guard : Side → Bool) (cap : Nat) : Io Branch := .call (.select guard cap) .ret

def resetIdle : Io Unit := .call .resetIdle .ret

def borrow : Io Runtime := .call .borrow .ret

/-- A write that takes no byte ends in the error `WriteZero`. -/
def writeAll (side : Side) (bytes : Bytes) : Io Unit :=
  if _h : bytes = [] then .ret ()
  else .call (.write side bytes) fun
    | .error f => .fail (.fault f)
    | .ok 0 => .fail (.fault .io)
    | .ok (n + 1) => writeAll side (bytes.drop (n + 1))
termination_by bytes.length
decreasing_by
  have := List.length_pos_of_ne_nil _h
  simp only [List.length_drop]
  omega

/-- Read `n` bytes, of which `acc` are there. The end of the stream before that is the error
`UnexpectedEof`. -/
def readExact (side : Side) (n : Nat) (acc : Bytes) : Io Bytes :=
  if _h : acc.length < n then
    .call (.read side (n - acc.length)) fun
      | .error f => .fail (.fault f)
      | .ok [] => .fail (.fault .io)
      | .ok (b :: bs) => readExact side n (acc ++ b :: bs)
  else .ret acc
termination_by n - acc.length
decreasing_by
  simp only [List.length_append, List.length_cons]
  omega

/-- Read chunks of at most `cap` bytes and append them to `buf`, until `check` has a verdict on the
buffer or the buffer is longer than `limit`. -/
def readUntil (side : Side) (cap limit : Nat) (closed tooLong : Error)
    (check : Bytes → Option (Except Error α)) (buf : Bytes) : Io α :=
  .call (.read side cap) fun
    | .error f => .fail (.fault f)
    | .ok [] => .fail closed
    | .ok (b :: bs) =>
      match check (buf ++ b :: bs) with
      | some verdict => .ofExcept verdict
      | none =>
        if _h : limit < (buf ++ b :: bs).length then .fail tooLong
        else readUntil side cap limit closed tooLong check (buf ++ b :: bs)
termination_by limit + 1 - buf.length
decreasing_by
  simp only [List.length_append, List.length_cons] at _h ⊢
  omega

/-- `timeout(..).await.context(text)`: the timer's own error carries the text. -/
def timeout (text : String) (p : Io α) : Io α :=
  p.mapError fun
    | .fault .elapsed => .within text (.fault .elapsed)
    | e => e

/-- `timeout(..).await.context(text)?.context(ioText)?`: each of the two errors has its text. -/
def timeoutContext (text : String) (ioText : String) (value : Bytes) (p : Io α) : Io α :=
  p.mapError fun
    | .fault .elapsed => .within text (.fault .elapsed)
    | e => .context ioText value e

/-! ## The calls of the loops -/

section Only

variable {P : Call → Prop} {side : Side}

theorem only_fallible (r : Except Fault α) : (fallible r).Only P := by
  cases r <;> trivial

theorem only_ofExcept (r : Except Error α) : (Prog.ofExcept r : Io α).Only P := by
  cases r <;> trivial

theorem only_writeAll {bytes : Bytes} (h : ∀ part, P (.write side part)) :
    (writeAll side bytes).Only P := by
  induction bytes using writeAll.induct with
  | case1 =>
    rw [writeAll, dif_pos rfl]
    trivial
  | case2 bytes hne ih =>
    rw [writeAll, dif_neg hne]
    refine ⟨h bytes, fun r => ?_⟩
    rcases r with f | _ | n
    · trivial
    · trivial
    · exact ih n

theorem only_readExact {n : Nat} {acc : Bytes} (h : ∀ cap, P (.read side cap)) :
    (readExact side n acc).Only P := by
  induction acc using readExact.induct n with
  | case1 acc hlt ih =>
    rw [readExact, dif_pos hlt]
    refine ⟨h _, fun r => ?_⟩
    rcases r with f | _ | ⟨b, bs⟩
    · trivial
    · trivial
    · exact ih b bs
  | case2 acc hge =>
    rw [readExact, dif_neg hge]
    trivial

theorem only_readUntil {cap limit : Nat} {closed tooLong : Error}
    {check : Bytes → Option (Except Error α)} {buf : Bytes} (h : P (.read side cap)) :
    (readUntil side cap limit closed tooLong check buf).Only P := by
  induction hm : limit + 1 - buf.length using Nat.strong_induction_on generalizing buf with
  | _ m ih =>
    subst hm
    rw [readUntil]
    refine ⟨h, fun r => ?_⟩
    rcases r with f | _ | ⟨b, bs⟩
    · trivial
    · trivial
    · dsimp only
      split
      · exact only_ofExcept _
      · split
        · trivial
        · next hlen =>
          refine ih _ ?_ rfl
          simp only [List.length_append, List.length_cons] at hlen ⊢
          omega

end Only

end Io

end NyaSniProxy
