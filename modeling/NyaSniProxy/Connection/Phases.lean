import NyaSniProxy.Connection.Flow
import NyaSniProxy.Library.Pipe

/-!
# The relay between bounded pipes

Here the network around the relay loop has four half-connections of finite capacity, and peers that
fill and drain them as they like. A write waits while its pipe is full.

`Phase` names the points at which the loop can stand, and `PhaseStep` is what the loop does from
each of them: it chooses a chunk or the end of a stream, hands the chunk over piece by piece, and
starts again. The steps of the program are the steps of this machine.
-/

namespace NyaSniProxy

open Text Interaction

/-- The half-connections: `source` is what a side sends to the relay, `sink` what the relay sends
to it. -/
structure Net where
  source : Side → Pipe UInt8
  sink : Side → Pipe UInt8

namespace Net

variable (s : Net) (side : Side)

def take (n : Nat) : Net :=
  { s with source := Function.update s.source side ((s.source side).pop n) }

def put (bytes : Bytes) (h : bytes.length ≤ (s.sink side).free) : Net :=
  { s with sink := Function.update s.sink side ((s.sink side).push bytes h) }

def shutdown : Net :=
  { s with sink := Function.update s.sink side (s.sink side).close }

end Net

/-- How the pipes answer the relay. A read needs bytes or the end of the stream, a write needs free
space. -/
inductive PipeAnswer (faulty : Prop) : Env Call Reply Net where
  | idle {guard cap s} : PipeAnswer faulty (.select guard cap) s .idle s
  | chunk {guard cap side s} (n) : guard side = true → 0 < n → n ≤ cap →
      n ≤ (s.source side).buf.length →
      PipeAnswer faulty (.select guard cap) s (.read side (.ok ((s.source side).buf.take n)))
        (s.take side n)
  | ended {guard cap side s} : guard side = true → (s.source side).buf = [] →
      (s.source side).closed = true →
      PipeAnswer faulty (.select guard cap) s (.read side (.ok [])) s
  | readFault {guard cap side s f} : guard side = true → faulty →
      PipeAnswer faulty (.select guard cap) s (.read side (.error f)) s
  | write {side bytes s} (n) (h : (bytes.take n).length ≤ (s.sink side).free) : 0 < n →
      n ≤ bytes.length →
      PipeAnswer faulty (.write side bytes) s (.ok n) (s.put side (bytes.take n) h)
  | writeFault {side bytes s f} : faulty → PipeAnswer faulty (.write side bytes) s (.error f) s
  | shutdown {side s} : PipeAnswer faulty (.shutdown side) s (.ok ()) (s.shutdown side)
  | shutdownFault {side s f} : faulty → PipeAnswer faulty (.shutdown side) s (.error f) s
  | resetIdle {s} : PipeAnswer faulty .resetIdle s () s

/-! ## Phases -/

namespace Relay

/-- The variables after the end of a stream. -/
def ended (v : Relay) : Side → Relay
  | .inbound => { v with aDone := true }
  | .upstream => { v with bDone := true }

/-- The variables after a chunk of `n` bytes. -/
def moved (v : Relay) (n : Nat) : Side → Relay
  | .inbound => { v with aToB := v.aToB + n.toUInt64 }
  | .upstream => { v with bToA := v.bToA + n.toUInt64 }

/-- The variables after a turn that moved `n` bytes. -/
def after (v : Relay) (side : Side) (n : Nat) : Relay :=
  if n = 0 then v.ended side else v.moved n side

end Relay

def readText : Side → String
  | .inbound => "read inbound traffic"
  | .upstream => "read upstream traffic"

def shutdownText : Side → String
  | .inbound => "shutdown upstream write side"
  | .upstream => "shutdown inbound write side"

def writeText : Side → String
  | .inbound => "write upstream traffic"
  | .upstream => "write inbound traffic"

/-- Where the loop stands: at the `select!`, before the shutdown of a write side, in a `write_all`
with `rest` left of a chunk of `n` bytes, behind a turn, or at an error. -/
inductive Phase where
  | choosing (v : Relay)
  | closing (v : Relay) (side : Side)
  | writing (v : Relay) (side : Side) (n : Nat) (rest : Bytes)
  | again (v : Relay)
  | failed (e : Error)

abbrev Turn := Io (Next Relay (UInt64 × UInt64))

/-- What is left of the turn. -/
def Phase.prog : Phase → Turn
  | choosing v => copyBidirectional v
  | closing v side => do
    (Io.shutdown side.other).mapError (.within (shutdownText side))
    return .again (v.ended side)
  | writing v side n rest => do
    (Io.writeAll side.other rest).mapError (.within (writeText side))
    Io.resetIdle
    return .again (v.after side n)
  | again v => .ret (.again v)
  | failed e => .fail e

/-- The steps between phases. -/
inductive PhaseStep (faulty : Prop) : Phase × Net → Phase × Net → Prop where
  | idle {v s} : (v.aDone && v.bDone) = false →
      PhaseStep faulty (.choosing v, s) (.failed (.msg "relay idle timeout"), s)
  | chunk {v side s} (n) : v.guard side = true → 0 < n → n ≤ relayBuffer →
      n ≤ (s.source side).buf.length →
      PhaseStep faulty (.choosing v, s)
        (.writing v side n ((s.source side).buf.take n), s.take side n)
  | ended {v side s} : v.guard side = true → (s.source side).buf = [] →
      (s.source side).closed = true → PhaseStep faulty (.choosing v, s) (.closing v side, s)
  | readFault {v side s f} : v.guard side = true → faulty →
      PhaseStep faulty (.choosing v, s) (.failed (.within (readText side) (.fault f)), s)
  | write {v side n rest s} (k) (h : (rest.take k).length ≤ (s.sink side.other).free) : 0 < k →
      k ≤ rest.length →
      PhaseStep faulty (.writing v side n rest, s)
        (.writing v side n (rest.drop k), s.put side.other (rest.take k) h)
  | writeFault {v side n rest s f} : rest ≠ [] → faulty →
      PhaseStep faulty (.writing v side n rest, s)
        (.failed (.within (writeText side) (.fault f)), s)
  | reset {v side n s} :
      PhaseStep faulty (.writing v side n [], s) (.again (v.after side n), s)
  | shutdown {v side s} :
      PhaseStep faulty (.closing v side, s) (.again (v.ended side), s.shutdown side.other)
  | shutdownFault {v side s f} : faulty →
      PhaseStep faulty (.closing v side, s)
        (.failed (.within (shutdownText side) (.fault f)), s)
  | again {v s} : PhaseStep faulty (.again v, s) (.choosing v, s)

/-! ## The machine is the program -/

/-- An arm of the `select!`. -/
def arm (v : Relay) (side : Side) (result : Except Fault Bytes) : Turn := do
  let n ← copyChunk result side.other (readText side) (shutdownText side) (writeText side)
  return .again (v.after side n)

theorem copyBidirectional_eq (v : Relay) : copyBidirectional v =
    if v.aDone && v.bDone then .ret (.exit (v.aToB, v.bToA))
    else .call (.select v.guard relayBuffer) fun
      | .idle => .fail (.msg "relay idle timeout")
      | .read side result => arm v side result := by
  unfold copyBidirectional
  split
  · rfl
  · refine congrArg (Prog.call _) (funext fun branch => ?_)
    cases branch with
    | idle => rfl
    | read side result =>
      have hafter (n : Nat) : (if n = 0 then pure (.again (v.ended side))
          else pure (.again (v.moved n side)) : Turn) = pure (.again (v.after side n)) := by
        unfold Relay.after
        split <;> rfl
      unfold arm
      simp only [← hafter]
      cases side <;> rfl

section Programs

variable (v : Relay) (side : Side) (n : Nat) {rest chunk : Bytes}

theorem arm_chunk (h : chunk ≠ []) :
    arm v side (.ok chunk) = (Phase.writing v side chunk.length chunk).prog := by
  simp [arm, copyChunk, Io.fallible, Prog.ofExcept, Except.mapError, Prog.mapError, h, Phase.prog]

theorem arm_nil : arm v side (.ok []) = (Phase.closing v side).prog := by
  simp [arm, copyChunk, Io.fallible, Prog.ofExcept, Except.mapError, Prog.mapError, Phase.prog,
    Relay.after]

theorem prog_closing : (Phase.closing v side).prog = .call (.shutdown side.other) fun
    | .ok () => (Phase.again (v.ended side)).prog
    | .error f => (Phase.failed (.within (shutdownText side) (.fault f))).prog := by
  refine congrArg (Prog.call _) (funext fun r => ?_)
  cases r <;> rfl

theorem prog_writing_nil : (Phase.writing v side n []).prog =
    .call .resetIdle fun _ => (Phase.again (v.after side n)).prog := by
  rw [Phase.prog, Io.writeAll, dif_pos rfl]
  rfl

theorem prog_writing (h : rest ≠ []) : (Phase.writing v side n rest).prog =
    .call (.write side.other rest) fun
      | .error f => (Phase.failed (.within (writeText side) (.fault f))).prog
      | .ok 0 => (Phase.failed (.within (writeText side) (.fault .io))).prog
      | .ok (k + 1) => (Phase.writing v side n (rest.drop (k + 1))).prog := by
  rw [Phase.prog, Io.writeAll, dif_neg h]
  refine congrArg (Prog.call _) (funext fun r => ?_)
  cases r with
  | error f => rfl
  | ok k => cases k <;> rfl

theorem pending_choosing : (Phase.choosing v).prog.pending =
    if v.aDone && v.bDone then none else some (.select v.guard relayBuffer) := by
  rw [Phase.prog, copyBidirectional_eq]
  split <;> rfl

theorem pending_closing :
    (Phase.closing v side).prog.pending = some (.shutdown side.other) := by
  rw [prog_closing]
  rfl

theorem pending_writing_nil : (Phase.writing v side n []).prog.pending = some .resetIdle := by
  rw [prog_writing_nil]
  rfl

variable {v side n}

theorem pending_writing (h : rest ≠ []) :
    (Phase.writing v side n rest).prog.pending = some (.write side.other rest) := by
  rw [prog_writing v side n h]
  rfl

end Programs

/-- The steps between phases in any environment. -/
inductive PhaseTrans {σ : Type} (E : Env Call Reply σ) : Phase × σ → Phase × σ → Prop where
  | idle {v w w'} : (v.aDone && v.bDone) = false → E (.select v.guard relayBuffer) w .idle w' →
      PhaseTrans E (.choosing v, w) (.failed (.msg "relay idle timeout"), w')
  | chunk {v side chunk w w'} : (v.aDone && v.bDone) = false → chunk ≠ [] →
      E (.select v.guard relayBuffer) w (.read side (.ok chunk)) w' →
      PhaseTrans E (.choosing v, w) (.writing v side chunk.length chunk, w')
  | ended {v side w w'} : (v.aDone && v.bDone) = false →
      E (.select v.guard relayBuffer) w (.read side (.ok [])) w' →
      PhaseTrans E (.choosing v, w) (.closing v side, w')
  | readFault {v side f w w'} : (v.aDone && v.bDone) = false →
      E (.select v.guard relayBuffer) w (.read side (.error f)) w' →
      PhaseTrans E (.choosing v, w) (.failed (.within (readText side) (.fault f)), w')
  | write {v side n rest w w'} (k) : rest ≠ [] → E (.write side.other rest) w (.ok (k + 1)) w' →
      PhaseTrans E (.writing v side n rest, w) (.writing v side n (rest.drop (k + 1)), w')
  | writeZero {v side n rest w w'} : rest ≠ [] → E (.write side.other rest) w (.ok 0) w' →
      PhaseTrans E (.writing v side n rest, w)
        (.failed (.within (writeText side) (.fault .io)), w')
  | writeFault {v side n rest f w w'} : rest ≠ [] → E (.write side.other rest) w (.error f) w' →
      PhaseTrans E (.writing v side n rest, w)
        (.failed (.within (writeText side) (.fault f)), w')
  | reset {v side n w w'} : E .resetIdle w () w' →
      PhaseTrans E (.writing v side n [], w) (.again (v.after side n), w')
  | shutdown {v side w w'} : E (.shutdown side.other) w (.ok ()) w' →
      PhaseTrans E (.closing v side, w) (.again (v.ended side), w')
  | shutdownFault {v side f w w'} : E (.shutdown side.other) w (.error f) w' →
      PhaseTrans E (.closing v side, w) (.failed (.within (shutdownText side) (.fault f)), w')
  | again {v w} : PhaseTrans E (.again v, w) (.choosing v, w)

section AnyEnvironment

variable {σ : Type} {E : Env Call Reply σ} {ph ph' : Phase} {w w' : σ} {c : Turn × σ}

/-- A step of the program leads from phase to phase. -/
theorem phaseTrans_of_step (h : Loop.Step E copyBidirectional (ph.prog, w) c) :
    ∃ ph' w', c = (ph'.prog, w') ∧ PhaseTrans E (ph, w) (ph', w') := by
  cases ph with
  | choosing v =>
    rw [Phase.prog, copyBidirectional_eq] at h
    split at h
    · exact absurd h Loop.not_step_exit
    · next hdone =>
      obtain ⟨branch, w', hr, rfl⟩ := Loop.step_call.mp h
      have hopen : (v.aDone && v.bDone) = false := by simpa using hdone
      cases branch with
      | idle => exact ⟨_, _, rfl, .idle hopen hr⟩
      | read side result =>
        cases result with
        | error f => exact ⟨_, _, rfl, .readFault hopen hr⟩
        | ok chunk =>
          by_cases hne : chunk = []
          · subst hne
            exact ⟨_, _, by dsimp only; rw [arm_nil], .ended hopen hr⟩
          · exact ⟨_, _, by dsimp only; rw [arm_chunk v side hne], .chunk hopen hne hr⟩
  | closing v side =>
    rw [prog_closing] at h
    obtain ⟨r, w', hr, rfl⟩ := Loop.step_call.mp h
    cases r with
    | ok _ => exact ⟨_, _, rfl, .shutdown hr⟩
    | error f => exact ⟨_, _, rfl, .shutdownFault hr⟩
  | writing v side n rest =>
    by_cases hne : rest = []
    · subst hne
      rw [prog_writing_nil] at h
      obtain ⟨r, w', hr, rfl⟩ := Loop.step_call.mp h
      exact ⟨_, _, rfl, .reset hr⟩
    · rw [prog_writing v side n hne] at h
      obtain ⟨r, w', hr, rfl⟩ := Loop.step_call.mp h
      cases r with
      | error f => exact ⟨_, _, rfl, .writeFault hne hr⟩
      | ok k =>
        cases k with
        | zero => exact ⟨_, _, rfl, .writeZero hne hr⟩
        | succ k => exact ⟨_, _, rfl, .write k hne hr⟩
  | again v =>
    obtain rfl := Loop.step_again.mp h
    exact ⟨.choosing v, w, rfl, .again⟩
  | failed e => exact absurd h Loop.not_step_fail

theorem step_of_phaseTrans (h : PhaseTrans E (ph, w) (ph', w')) :
    Loop.Step E copyBidirectional (ph.prog, w) (ph'.prog, w') := by
  have hchoosing {v : Relay} {branch : Branch} (hopen : (v.aDone && v.bDone) = false)
      (hr : E (.select v.guard relayBuffer) w branch w') :
      Loop.Step E copyBidirectional ((Phase.choosing v).prog, w)
        (match branch with
          | .idle => (Phase.failed (.msg "relay idle timeout")).prog
          | .read side result => arm v side result, w') := by
    rw [Phase.prog, copyBidirectional_eq, hopen]
    exact Loop.step_call.mpr ⟨branch, w', hr, by cases branch <;> rfl⟩
  cases h with
  | idle hopen hr => exact hchoosing hopen hr
  | chunk hopen hne hr =>
    rw [← arm_chunk _ _ hne]
    exact hchoosing hopen hr
  | ended hopen hr =>
    rw [← arm_nil]
    exact hchoosing hopen hr
  | readFault hopen hr => exact hchoosing hopen hr
  | write k hne hr =>
    rw [prog_writing _ _ _ hne]
    exact Loop.step_call.mpr ⟨_, _, hr, rfl⟩
  | writeZero hne hr | writeFault hne hr =>
    rw [prog_writing _ _ _ hne]
    exact Loop.step_call.mpr ⟨_, _, hr, rfl⟩
  | reset hr =>
    rw [prog_writing_nil]
    exact Loop.step_call.mpr ⟨_, _, hr, rfl⟩
  | shutdown hr | shutdownFault hr =>
    rw [prog_closing]
    exact Loop.step_call.mpr ⟨_, _, hr, rfl⟩
  | again => exact .again

end AnyEnvironment

section Bisimulation

variable {faulty : Prop} {ph ph' : Phase} {s s' : Net} {c : Turn × Net}

/-- A chunk that a read takes has the length that was asked for. -/
theorem take_chunk {side : Side} {n : Nat} (hpos : 0 < n) (hlen : n ≤ (s.source side).buf.length) :
    (s.source side).buf.take n ≠ [] ∧ ((s.source side).buf.take n).length = n := by
  refine ⟨?_, List.length_take_of_le hlen⟩
  rw [ne_eq, List.take_eq_nil_iff]
  grind

/-- A step of the program leads to a phase, and is a step of the machine. -/
theorem phaseStep_of_step (h : Loop.Step (PipeAnswer faulty) copyBidirectional (ph.prog, s) c) :
    ∃ ph' s', c = (ph'.prog, s') ∧ PhaseStep faulty (ph, s) (ph', s') := by
  obtain ⟨ph', s', rfl, htrans⟩ := phaseTrans_of_step h
  refine ⟨ph', s', rfl, ?_⟩
  clear h
  cases htrans with
  | idle hopen hr =>
    cases hr with
    | idle => exact .idle hopen
  | chunk hopen hne hr =>
    generalize hanswer : Except.ok _ = result at hr
    cases hr with
    | chunk n hguard hpos hcap hlen =>
      obtain rfl := Except.ok.inj hanswer
      rw [(take_chunk hpos hlen).2]
      exact .chunk n hguard hpos hcap hlen
    | ended => exact absurd (Except.ok.inj hanswer) hne
    | readFault => cases hanswer
  | ended hopen hr =>
    generalize hanswer : Except.ok _ = result at hr
    cases hr with
    | chunk n hguard hpos hcap hlen =>
      exact absurd (Except.ok.inj hanswer).symm (take_chunk hpos hlen).1
    | ended hguard hempty hclosed => exact .ended hguard hempty hclosed
    | readFault => cases hanswer
  | readFault hopen hr =>
    cases hr with
    | readFault hguard hf => exact .readFault hguard hf
  | write k hne hr =>
    cases hr with
    | write _ hfree hpos hle => exact .write (k + 1) hfree hpos hle
  | writeZero hne hr =>
    cases hr with
    | write _ hfree hpos hle => exact absurd hpos (lt_irrefl 0)
  | writeFault hne hr =>
    cases hr with
    | writeFault hf => exact .writeFault hne hf
  | reset hr =>
    cases hr with
    | resetIdle => exact .reset
  | shutdown hr =>
    cases hr with
    | shutdown => exact .shutdown
  | shutdownFault hr =>
    cases hr with
    | shutdownFault hf => exact .shutdownFault hf
  | again => exact .again

theorem step_of_phaseStep (h : PhaseStep faulty (ph, s) (ph', s')) :
    Loop.Step (PipeAnswer faulty) copyBidirectional (ph.prog, s) (ph'.prog, s') := by
  have hguard {v : Relay} {side : Side} (h : v.guard side = true) :
      (v.aDone && v.bDone) = false := by
    cases side <;> simp_all [Relay.guard]
  apply step_of_phaseTrans
  cases h with
  | idle hopen => exact .idle hopen .idle
  | @chunk v side _ n hg hpos hcap hlen =>
    obtain ⟨hne, hlength⟩ := take_chunk hpos hlen
    have hr : PipeAnswer faulty (.select v.guard relayBuffer) s _ _ := .chunk n hg hpos hcap hlen
    have htrans := PhaseTrans.chunk (hguard hg) hne hr
    rwa [hlength] at htrans
  | ended hg hempty hclosed => exact .ended (hguard hg) (.ended hg hempty hclosed)
  | readFault hg hf => exact .readFault (hguard hg) (.readFault hg hf)
  | @write v side n rest _ k hfree hpos hle =>
    obtain ⟨k, rfl⟩ := Nat.exists_eq_add_one.mpr hpos
    exact .write k (List.ne_nil_of_length_pos (hpos.trans_le hle)) (.write (k + 1) hfree hpos hle)
  | writeFault hne hf => exact .writeFault hne (.writeFault hf)
  | reset => exact .reset .resetIdle
  | shutdown => exact .shutdown .shutdown
  | shutdownFault hf => exact .shutdownFault (.shutdownFault hf)
  | again => exact .again

/-- Some run of the machine. -/
abbrev PhaseReaches (faulty : Prop) : Phase × Net → Phase × Net → Prop :=
  Relation.ReflTransGen (PhaseStep faulty)

/-- Runs of the machine are runs of the program. -/
theorem reaches_of_phaseReaches (h : PhaseReaches faulty (ph, s) (ph', s')) :
    Loop.Reaches (PipeAnswer faulty) copyBidirectional (ph.prog, s) (ph'.prog, s') :=
  h.lift (fun p : Phase × Net => (p.1.prog, p.2)) fun _ _ => step_of_phaseStep

/-- Runs of the program are runs of the machine. -/
theorem phaseReaches_of_reaches
    (h : Loop.Reaches (PipeAnswer faulty) copyBidirectional (ph.prog, s) c) :
    ∃ ph' s', c = (ph'.prog, s') ∧ PhaseReaches faulty (ph, s) (ph', s') := by
  induction h with
  | refl => exact ⟨ph, s, rfl, .refl⟩
  | tail _ hstep ih =>
    obtain ⟨ph₁, s₁, rfl, hreach⟩ := ih
    obtain ⟨ph', s', rfl, hphase⟩ := phaseStep_of_step hstep
    exact ⟨ph', s', rfl, hreach.tail hphase⟩

end Bisimulation

end NyaSniProxy
