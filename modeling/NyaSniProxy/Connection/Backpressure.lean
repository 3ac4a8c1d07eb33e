import NyaSniProxy.Connection.Phases

/-!
# Back-pressure

The relay waits in `write_all` for one side, and serves the other side only when that is over. So
its two directions are independent as long as no chunk is taken that its destination has no room
for, and a state in which the rest of a chunk does not fit holds up the other direction. Both are
proved about the machine of phases: a relay that is not stalled gets from any phase back to its
`select!`, where it may choose the direction that has something to move.
-/

namespace NyaSniProxy

open Text Interaction Relation

/-- What a peer may do: send, close its write side, and receive. -/
inductive PeerStep : Net → Net → Prop where
  | send {s side} (bytes : Bytes) (h : bytes.length ≤ (s.source side).free) :
      (s.source side).closed = false →
      PeerStep s { s with source := Function.update s.source side ((s.source side).push bytes h) }
  | finish {s} (side) :
      PeerStep s { s with source := Function.update s.source side (s.source side).close }
  | receive {s} (side) (n) :
      PeerStep s { s with sink := Function.update s.sink side ((s.sink side).pop n) }

/-- The relay and the pipes. -/
abbrev RelayNet := Turn × Net

/-- A step of the relay or of a peer. -/
inductive NetStep (faulty : Prop) : RelayNet → RelayNet → Prop where
  | relay {c c'} : Loop.Step (PipeAnswer faulty) copyBidirectional c c' → NetStep faulty c c'
  | peer {p s s'} : PeerStep s s' → NetStep faulty (p, s) (p, s')

namespace RelayNet

/-- The relay starts between these pipes. -/
def start (net : Net) : RelayNet := (copyBidirectional .init, net)

variable (faulty : Prop) (c c' : RelayNet)

/-- The relay has neither returned nor failed. -/
def Running : Prop := (∀ r, c.1 ≠ .ret (.exit r)) ∧ ∀ e, c.1 ≠ .fail e

/-- If there are bytes at the source of a direction and free space at its destination, the relay can
move bytes to that destination without a step of the peers. -/
def Moves (side : Side) : Prop :=
  (c.2.source side).buf ≠ [] → 0 < (c.2.sink side.other).free →
    ∃ c', Loop.Reaches (PipeAnswer faulty) copyBidirectional c c' ∧
      (c.2.sink side.other).buf.length < (c'.2.sink side.other).buf.length

/-- Neither direction waits for the other one. -/
def Independent : Prop := c.Running → ∀ side, c.Moves faulty side

/-- The relay waits with the rest of a chunk that does not fit, while the other direction has bytes
and free space. -/
def Stalled : Prop :=
  ∃ side rest, c.1.pending = some (.write side.other rest) ∧
    (c.2.sink side.other).free < rest.length ∧
    (c.2.source side.other).buf ≠ [] ∧ 0 < (c.2.sink side).free

/-- What the step takes from a source fits into the free space of its destination. -/
def Fits : Prop :=
  ∀ side, (c.2.source side).buf.length ≤
    (c'.2.source side).buf.length + (c.2.sink side.other).free

end RelayNet

/-! ## What every run keeps -/

/-- Directions that are done have nothing left at their source, and never will. -/
def Drained (v : Relay) (s : Net) : Prop :=
  ∀ side, v.guard side = false → (s.source side).buf = [] ∧ (s.source side).closed = true

/-- The invariant of a phase. -/
def Phase.Inv : Phase → Net → Prop
  | choosing v, s | again v, s => Drained v s
  | closing v side, s => Drained v s ∧ (s.source side).buf = [] ∧ (s.source side).closed = true
  | writing v _ n _, s => Drained v s ∧ 0 < n
  | failed _, _ => True

section Invariant

variable {faulty : Prop} {ph ph' : Phase} {s s' : Net} {v : Relay} {side : Side}

theorem Drained.of_le (h : Drained v s)
    (hs : ∀ side, (s.source side).buf = [] → (s.source side).closed = true →
      (s'.source side).buf = [] ∧ (s'.source side).closed = true) : Drained v s' := by
  intro side hside
  obtain ⟨hempty, hclosed⟩ := h side hside
  exact hs side hempty hclosed

theorem drained_take (h : Drained v s) (n : Nat) : Drained v (s.take side n) := by
  refine h.of_le fun e hempty hclosed => ?_
  by_cases he : e = side
  · subst he
    simp [Net.take, hempty, hclosed]
  · simp [Net.take, he, hempty, hclosed]

theorem drained_ended (h : Drained v s) (hempty : (s.source side).buf = [])
    (hclosed : (s.source side).closed = true) : Drained (v.ended side) s := by
  intro e he
  by_cases hside : e = side
  · exact hside ▸ ⟨hempty, hclosed⟩
  · apply h e
    cases e <;> cases side <;> simp_all [Relay.guard, Relay.ended]

theorem drained_moved (h : Drained v s) {n : Nat} (hn : 0 < n) : Drained (v.after side n) s := by
  intro e he
  apply h e
  rw [Relay.after, if_neg hn.ne'] at he
  cases e <;> cases side <;> exact he

theorem inv_phaseStep (h : ph.Inv s) (hs : PhaseStep faulty (ph, s) (ph', s')) : ph'.Inv s' := by
  cases hs with
  | idle | readFault | writeFault | shutdownFault => trivial
  | chunk n hguard hpos hcap hlen => exact ⟨drained_take h n, hpos⟩
  | ended hguard hempty hclosed => exact ⟨h, hempty, hclosed⟩
  | write k hfree hpos hle => exact h
  | reset => exact drained_moved h.1 h.2
  | shutdown => exact drained_ended h.1 h.2.1 h.2.2
  | again => exact h

/-- A stream that has ended has ended for good. -/
theorem ended_peerStep (hs : PeerStep s s') (side : Side) (hempty : (s.source side).buf = [])
    (hclosed : (s.source side).closed = true) :
    (s'.source side).buf = [] ∧ (s'.source side).closed = true := by
  cases hs with
  | @send e bytes hfree hopen =>
    have hne : side ≠ e := by
      rintro rfl
      rw [hclosed] at hopen
      cases hopen
    simp [hne, hempty, hclosed]
  | finish e =>
    by_cases he : side = e
    · subst he
      simp [hempty]
    · simp [he, hempty, hclosed]
  | receive e n => exact ⟨hempty, hclosed⟩

theorem inv_peerStep (h : ph.Inv s) (hs : PeerStep s s') : ph.Inv s' := by
  cases ph with
  | choosing v | again v => exact h.of_le (ended_peerStep hs)
  | closing v side =>
    exact ⟨h.1.of_le (ended_peerStep hs), ended_peerStep hs side h.2.1 h.2.2⟩
  | writing v side n rest => exact ⟨h.1.of_le (ended_peerStep hs), h.2⟩
  | failed e => trivial

/-- Every state of a run is at a phase, in its invariant. -/
theorem exists_phase {net : Net} {c : RelayNet}
    (h : ReflTransGen (NetStep faulty) (.start net) c) :
    ∃ (ph : Phase) (s : Net), c = (ph.prog, s) ∧ ph.Inv s := by
  induction h with
  | refl => exact ⟨.choosing .init, net, rfl, fun side => by cases side <;> exact nofun⟩
  | tail _ hstep ih =>
    obtain ⟨ph, s, rfl, hinv⟩ := ih
    cases hstep with
    | relay hr =>
      obtain ⟨ph', s', rfl, hs⟩ := phaseStep_of_step hr
      exact ⟨ph', s', rfl, inv_phaseStep hinv hs⟩
    | peer hs => exact ⟨ph, _, rfl, inv_peerStep hinv hs⟩

end Invariant

/-! ## A relay that is not stalled moves -/

section Progress

variable {faulty : Prop} {ph : Phase} {s : Net} {v : Relay} {side : Side} {n : Nat} {rest : Bytes}

/-- The machine gets to a point where more was handed over to the side's peer. -/
def Grows (faulty : Prop) (ph : Phase) (s : Net) (side : Side) : Prop :=
  ∃ ph' s', PhaseReaches faulty (ph, s) (ph', s') ∧
    (s.sink side).buf.length < (s'.sink side).buf.length

theorem Grows.head {ph' : Phase} {s' : Net} (hs : PhaseStep faulty (ph, s) (ph', s'))
    (hlen : (s.sink side).buf.length ≤ (s'.sink side).buf.length)
    (h : Grows faulty ph' s' side) : Grows faulty ph s side := by
  obtain ⟨ph'', s'', hreach, hgrow⟩ := h
  exact ⟨ph'', s'', hreach.head hs, hlen.trans_lt hgrow⟩

/-- A chunk in hand is moved if there is any free space. -/
theorem grows_writing (hrest : rest ≠ []) (hfree : 0 < (s.sink side.other).free) :
    Grows faulty (.writing v side n rest) s side.other := by
  have hpos := List.length_pos_of_ne_nil hrest
  have hlen : (rest.take 1).length = 1 := List.length_take_of_le hpos
  refine ⟨_, _, .single (.write 1 (hlen.trans_le hfree) one_pos hpos), ?_⟩
  simp [Net.put, hlen]

/-- At the `select!` any direction that is not done may be served. -/
theorem grows_choosing (hinv : Drained v s) (hsource : (s.source side).buf ≠ [])
    (hfree : 0 < (s.sink side.other).free) : Grows faulty (.choosing v) s side.other := by
  have hguard : v.guard side = true := by
    by_contra hdone
    exact hsource (hinv side (by simpa using hdone)).1
  have hpos := List.length_pos_of_ne_nil hsource
  have hchunk : (s.source side).buf.take 1 ≠ [] := by
    rw [ne_eq, List.take_eq_nil_iff]
    grind
  exact .head (.chunk 1 hguard one_pos (by decide) hpos) (le_refl _) (grows_writing hchunk hfree)

theorem grows_again (hinv : Drained v s) (hsource : (s.source side).buf ≠ [])
    (hfree : 0 < (s.sink side.other).free) : Grows faulty (.again v) s side.other :=
  .head .again (le_refl _) (grows_choosing hinv hsource hfree)

theorem sink_put_of_ne {bytes : Bytes} {e : Side} (h : bytes.length ≤ (s.sink e).free)
    (hne : side ≠ e) : (s.put e bytes h).sink side = s.sink side := by
  simp [Net.put, hne]

/-- If the rest of the chunk fits, the other direction is served after it. -/
theorem grows_other (hinv : Drained v s) (hn : 0 < n)
    (hfits : rest.length ≤ (s.sink side.other).free) (hsource : (s.source side.other).buf ≠ [])
    (hfree : 0 < (s.sink side).free) : Grows faulty (.writing v side n rest) s side := by
  have hne : side ≠ side.other := by cases side <;> nofun
  have hother : side.other.other = side := by cases side <;> rfl
  have hdone {s' : Net} (hinv : Drained v s') (hsource : (s'.source side.other).buf ≠ [])
      (hfree : 0 < (s'.sink side).free) : Grows faulty (.writing v side n []) s' side := by
    have hgrow : Grows faulty (.again (v.after side n)) s' side.other.other :=
      grows_again (drained_moved hinv hn) hsource (hother.symm ▸ hfree)
    rw [hother] at hgrow
    exact .head .reset (le_refl _) hgrow
  by_cases hrest : rest = []
  · subst hrest
    exact hdone hinv hsource hfree
  · have htake : (rest.take rest.length).length ≤ (s.sink side.other).free := by simpa using hfits
    have hstep : PhaseStep faulty (.writing v side n rest, s)
        (.writing v side n (rest.drop rest.length), s.put side.other _ htake) :=
      .write rest.length htake (List.length_pos_of_ne_nil hrest) (le_refl _)
    rw [List.drop_length] at hstep
    have hsink := sink_put_of_ne htake hne
    exact .head hstep (by rw [hsink]) (hdone hinv hsource (hsink ▸ hfree))

/-- The rest of a chunk does not fit. -/
def Phase.Stuck (side : Side) : Phase → Net → Prop
  | writing _ e _ rest, s => e = side ∧ (s.sink side.other).free < rest.length
  | _, _ => False

/-- A direction that is not held up by the other one moves. -/
theorem grows_of_not_stuck (hinv : ph.Inv s) (hrunning : ∀ e, ph ≠ .failed e)
    (hstuck : ¬ ph.Stuck side.other s) (hsource : (s.source side).buf ≠ [])
    (hfree : 0 < (s.sink side.other).free) : Grows faulty ph s side.other := by
  cases ph with
  | choosing v => exact grows_choosing hinv hsource hfree
  | again v => exact grows_again hinv hsource hfree
  | failed e => exact absurd rfl (hrunning e)
  | closing v e =>
    have hdrained := drained_ended hinv.1 hinv.2.1 hinv.2.2
    have hsink : ((s.shutdown e.other).sink side.other).free = (s.sink side.other).free ∧
        ((s.shutdown e.other).sink side.other).buf = (s.sink side.other).buf := by
      by_cases he : side.other = e.other
      · simp [Net.shutdown, he]
      · simp [Net.shutdown, he]
    exact .head .shutdown (by rw [hsink.2])
      (grows_again hdrained hsource (hsink.1.symm ▸ hfree))
  | writing v e n rest =>
    by_cases he : e = side
    · subst he
      by_cases hrest : rest = []
      · subst hrest
        exact .head .reset (le_refl _) (grows_again (drained_moved hinv.1 hinv.2) hsource hfree)
      · exact grows_writing hrest hfree
    · have hother : e = side.other := by cases e <;> cases side <;> simp_all
      subst hother
      have hback : side.other.other = side := by cases side <;> rfl
      have hfits : rest.length ≤ (s.sink side.other.other).free := by
        by_contra hlt
        exact hstuck ⟨rfl, not_le.mp hlt⟩
      exact grows_other hinv.1 hinv.2 hfits (hback.symm ▸ hsource) hfree

/-- Where the rest of a chunk does not fit, the relay stays until a peer receives. -/
theorem stuck_phaseStep {ph' : Phase} {s' : Net} (h : ph.Stuck side s)
    (hs : PhaseStep faulty (ph, s) (ph', s')) :
    s'.sink side = s.sink side ∧ (ph'.Stuck side s' ∨ ∃ e, ph' = .failed e) := by
  cases ph with
  | choosing v | closing v e | again v | failed e => exact absurd h not_false
  | writing v e n rest =>
    obtain ⟨rfl, hlt⟩ := h
    cases hs with
    | write k hfree hpos hle =>
      have hne : e ≠ e.other := by cases e <;> nofun
      refine ⟨sink_put_of_ne hfree hne, .inl ⟨rfl, ?_⟩⟩
      have htake : (rest.take k).length = k := List.length_take_of_le hle
      simp only [Net.put, Function.update_self, Pipe.free_push, htake, List.length_drop]
      omega
    | writeFault => exact ⟨rfl, .inr ⟨_, rfl⟩⟩
    | reset => exact absurd hlt (by simp)

theorem stuck_reaches {c : Phase × Net} (h : ph.Stuck side s)
    (hreach : PhaseReaches faulty (ph, s) c) :
    c.2.sink side = s.sink side ∧ (c.1.Stuck side c.2 ∨ ∃ e, c.1 = .failed e) := by
  induction hreach with
  | refl => exact ⟨rfl, .inl h⟩
  | @tail b c _ hstep ih =>
    obtain ⟨hsink, hstuck | ⟨e, hfailed⟩⟩ := ih
    · obtain ⟨hsame, hnext⟩ := stuck_phaseStep hstuck hstep
      exact ⟨hsame.trans hsink, hnext⟩
    · obtain ⟨ph', s'⟩ := b
      subst hfailed
      cases hstep

theorem not_grows_of_stuck (h : ph.Stuck side s) : ¬ Grows faulty ph s side := by
  rintro ⟨ph', s', hreach, hgrow⟩
  have hkeep := (stuck_reaches h hreach).1
  rw [hkeep] at hgrow
  exact lt_irrefl _ hgrow

end Progress

/-! ## The system -/

section RelayNet

variable {faulty : Prop} {ph : Phase} {s : Net} {side : Side} {net : Net} {c : RelayNet}

theorem moves_iff :
    RelayNet.Moves faulty (ph.prog, s) side ↔
      ((s.source side).buf ≠ [] → 0 < (s.sink side.other).free → Grows faulty ph s side.other) := by
  refine imp_congr_right fun _ => imp_congr_right fun _ => ?_
  constructor
  · rintro ⟨c', hreach, hgrow⟩
    obtain ⟨ph', s', rfl, hphase⟩ := phaseReaches_of_reaches hreach
    exact ⟨ph', s', hphase, hgrow⟩
  · rintro ⟨ph', s', hphase, hgrow⟩
    exact ⟨(ph'.prog, s'), reaches_of_phaseReaches hphase, hgrow⟩

/-- Only in a `write_all` does the program wait for a write. -/
theorem writing_of_pending {bytes : Bytes} (h : ph.prog.pending = some (.write side bytes)) :
    ∃ v e n, ph = .writing v e n bytes ∧ side = e.other := by
  cases ph with
  | choosing v =>
    rw [Phase.prog, copyBidirectional_eq] at h
    split at h <;> cases h
  | closing v e =>
    rw [prog_closing] at h
    cases h
  | writing v e n rest =>
    by_cases hrest : rest = []
    · subst hrest
      rw [prog_writing_nil] at h
      cases h
    · rw [pending_writing hrest] at h
      cases h
      exact ⟨v, e, n, rfl, rfl⟩
  | again v => cases h
  | failed e => cases h

theorem stalled_iff : RelayNet.Stalled (ph.prog, s) ↔
    ∃ side, ph.Stuck side s ∧ (s.source side.other).buf ≠ [] ∧ 0 < (s.sink side).free := by
  constructor
  · rintro ⟨side, rest, hpending, hlt, hsource, hfree⟩
    obtain ⟨v, e, n, rfl, hother⟩ := writing_of_pending hpending
    have he : e = side := by cases e <;> cases side <;> simp_all
    exact ⟨side, ⟨he, hlt⟩, hsource, hfree⟩
  · rintro ⟨side, hstuck, hsource, hfree⟩
    cases ph with
    | choosing v | closing v e | again v | failed e => exact absurd hstuck not_false
    | writing v e n rest =>
      obtain ⟨rfl, hlt⟩ := hstuck
      have hrest : rest ≠ [] := List.ne_nil_of_length_pos ((Nat.zero_le _).trans_lt hlt)
      exact ⟨e, rest, pending_writing hrest, hlt, hsource, hfree⟩

/-- A stalled relay is running. -/
theorem running_of_stalled (h : c.Stalled) : c.Running := by
  obtain ⟨side, rest, hpending, -⟩ := h
  obtain ⟨hret, hfail⟩ := Prog.not_ended_of_pending hpending
  exact ⟨fun r => hret _, hfail⟩

/-- In a state of a run, the directions are independent exactly if the relay is not stalled. -/
theorem independent_iff (h : ReflTransGen (NetStep faulty) (.start net) c) :
    c.Independent faulty ↔ ¬ c.Stalled := by
  obtain ⟨ph, s, rfl, hinv⟩ := exists_phase h
  have hother (side : Side) : side.other.other = side := by cases side <;> rfl
  constructor
  · intro hind hstalled
    obtain ⟨side, hstuck, hsource, hfree⟩ := stalled_iff.mp hstalled
    have hgrow := moves_iff.mp (hind (running_of_stalled hstalled) side.other) hsource
      ((hother side).symm ▸ hfree)
    rw [hother] at hgrow
    exact not_grows_of_stuck hstuck hgrow
  · intro hfine hrunning side
    refine moves_iff.mpr fun hsource hfree => ?_
    apply grows_of_not_stuck hinv
    · rintro e rfl
      exact hrunning.2 e rfl
    · intro hstuck
      exact hfine (stalled_iff.mpr ⟨side.other, hstuck, (hother side).symm ▸ hsource, hfree⟩)
    · exact hsource
    · exact hfree

/-! ## Runs in which every chunk fits -/

/-- The rest of a chunk fits. -/
def Phase.Fitting : Phase → Net → Prop
  | writing _ side _ rest, s => rest.length ≤ (s.sink side.other).free
  | _, _ => True

theorem fitting_phaseStep {ph' : Phase} {s' : Net} (h : ph.Fitting s)
    (hs : PhaseStep faulty (ph, s) (ph', s'))
    (hfits : RelayNet.Fits (ph.prog, s) (ph'.prog, s')) : ph'.Fitting s' := by
  cases hs with
  | @chunk v side _ n hguard hpos hcap hlen =>
    have htaken := hfits side
    simp only [Net.take, Function.update_self, Pipe.buf_pop, List.length_drop] at htaken
    change ((s.source side).buf.take n).length ≤ _
    rw [List.length_take_of_le hlen]
    change n ≤ (s.sink side.other).free
    omega
  | @write v side n rest _ k hfree hpos hle =>
    have htake : (rest.take k).length = k := List.length_take_of_le hle
    have hnow : rest.length ≤ (s.sink side.other).free := h
    change (rest.drop k).length ≤ _
    simp only [Net.put, Function.update_self, Pipe.free_push, htake, List.length_drop]
    omega
  | idle | ended | readFault | writeFault | reset | shutdown | shutdownFault | again => trivial

theorem fitting_peerStep {s' : Net} (h : ph.Fitting s) (hs : PeerStep s s') : ph.Fitting s' := by
  cases ph with
  | choosing v | closing v e | again v | failed e => trivial
  | writing v side n rest =>
    have hnow : rest.length ≤ (s.sink side.other).free := h
    change rest.length ≤ (s'.sink side.other).free
    cases hs with
    | send | finish => exact hnow
    | receive e k =>
      by_cases he : side.other = e
      · subst he
        simpa using hnow.trans (Pipe.free_le_pop _ k)
      · simpa [he] using hnow

theorem not_stuck_of_fitting (h : ph.Fitting s) : ¬ ph.Stuck side s := by
  cases ph with
  | choosing v | closing v e | again v | failed e => exact not_false
  | writing v e n rest =>
    rintro ⟨rfl, hlt⟩
    exact absurd h (not_le.mpr hlt)

/-- In runs whose chunks all fit, no rest of a chunk is ever too long. -/
theorem exists_fitting
    (h : ReflTransGen (fun c c' => NetStep faulty c c' ∧ c.Fits c') (.start net) c) :
    ∃ (ph : Phase) (s : Net), c = (ph.prog, s) ∧ ph.Fitting s := by
  induction h with
  | refl => exact ⟨.choosing .init, net, rfl, trivial⟩
  | tail _ hstep ih =>
    obtain ⟨ph, s, rfl, hfitting⟩ := ih
    obtain ⟨hstep, hfits⟩ := hstep
    cases hstep with
    | relay hr =>
      obtain ⟨ph', s', rfl, hs⟩ := phaseStep_of_step hr
      exact ⟨ph', s', rfl, fitting_phaseStep hfitting hs hfits⟩
    | peer hs => exact ⟨ph, _, rfl, fitting_peerStep hfitting hs⟩

/-- In every run in which each chunk fits into the free space of its destination when it is read,
the directions are independent in each state that is reached. In any run, they are independent in
exactly the states in which the relay is not stalled. -/
theorem relay_independent (faulty : Prop) (net : Net) :
    (∀ c, ReflTransGen (fun c c' => NetStep faulty c c' ∧ c.Fits c') (.start net) c →
      c.Independent faulty) ∧
    ∀ c, ReflTransGen (NetStep faulty) (.start net) c →
      (c.Independent faulty ↔ ¬ c.Stalled) := by
  refine ⟨fun c h => ?_, fun c => independent_iff⟩
  have hrun : ReflTransGen (NetStep faulty) (.start net) c :=
    ReflTransGen.mono (fun _ _ hs => hs.1) _ _ h
  refine (independent_iff hrun).mpr fun hstalled => ?_
  obtain ⟨ph, s, rfl, hfitting⟩ := exists_fitting h
  obtain ⟨side, hstuck, -⟩ := stalled_iff.mp hstalled
  exact not_stuck_of_fitting hfitting hstuck

end RelayNet

def oneByte : Pipe UInt8 where
  cap := 1
  buf := []
  closed := false
  fits := by simp

/-- The client sends two bytes, the upstream has one byte on its way, and each side has room for one
byte. -/
def crossing : Net where
  source
    | .inbound => { cap := 2, buf := [1, 2], closed := false, fits := by simp }
    | .upstream => { cap := 1, buf := [3], closed := false, fits := by simp }
  sink _ := oneByte

/-- The relay has taken the byte of the upstream to the client. -/
def crossingServed : Net := (crossing.take .upstream 1).put .inbound [3] (by decide)

/-- A chunk that fits is taken from one side to the other. -/
theorem relay_independent_crossing : ∃ c : RelayNet,
    ReflTransGen (fun c c' => NetStep False c c' ∧ c.Fits c') (.start crossing) c ∧
    (c.2.sink .inbound).buf = [3] ∧ c.Independent False := by
  have hchunk : PhaseStep False (.choosing .init, crossing)
      (.writing .init .upstream 1 [3], crossing.take .upstream 1) :=
    .chunk 1 rfl (by decide) (by decide) (by decide)
  have hwrite : PhaseStep False (.writing .init .upstream 1 [3], crossing.take .upstream 1)
      (.writing .init .upstream 1 [], crossingServed) :=
    .write 1 (by decide) (by decide) (by decide)
  have hrun : ReflTransGen (fun c c' => NetStep False c c' ∧ c.Fits c') (.start crossing)
      ((Phase.writing .init .upstream 1 []).prog, crossingServed) := by
    refine .tail (.single ⟨.relay (step_of_phaseStep hchunk), fun side => ?_⟩)
      ⟨.relay (step_of_phaseStep hwrite), fun side => ?_⟩
    · cases side <;> decide
    · cases side <;> decide
  exact ⟨_, hrun, rfl, (relay_independent False crossing).1 _ hrun⟩

/-- The relay has read both bytes of the client, and handed one of them over. -/
def crossingBlocked : Net := (crossing.take .inbound 2).put .upstream [1] (by decide)

/-- The relay waits for the upstream to read, and the upstream's own byte stays where it is,
although the client has room for it. -/
theorem relay_deadlock :
    ∃ c : RelayNet, ReflTransGen (NetStep False) (.start crossing) c ∧ c.Running ∧
      (c.2.source .upstream).buf ≠ [] ∧ (c.2.source .upstream).free = 0 ∧
      0 < (c.2.sink .inbound).free ∧
      (∀ c', ¬ Loop.Step (PipeAnswer False) copyBidirectional c c') ∧ ¬ c.Independent False := by
  have hchunk : PhaseStep False (.choosing .init, crossing)
      (.writing .init .inbound 2 [1, 2], crossing.take .inbound 2) :=
    .chunk 2 rfl (by decide) (by decide) (by decide)
  have hwrite : PhaseStep False (.writing .init .inbound 2 [1, 2], crossing.take .inbound 2)
      (.writing .init .inbound 2 [2], crossingBlocked) :=
    .write 1 (by decide) (by decide) (by decide)
  have hrun : ReflTransGen (NetStep False) (.start crossing)
      ((Phase.writing .init .inbound 2 [2]).prog, crossingBlocked) :=
    .tail (.single (.relay (step_of_phaseStep hchunk))) (.relay (step_of_phaseStep hwrite))
  have hstalled : RelayNet.Stalled ((Phase.writing .init .inbound 2 [2]).prog, crossingBlocked) :=
    stalled_iff.mpr ⟨.inbound, ⟨rfl, by decide⟩, by decide, by decide⟩
  refine ⟨_, hrun, running_of_stalled hstalled, by decide, by decide, by decide,
    fun c' hstep => ?_, fun hind => (independent_iff hrun).mp hind hstalled⟩
  obtain ⟨ph', s', -, hs⟩ := phaseStep_of_step hstep
  cases hs with
  | write k h hpos hle =>
    have hfull : (crossingBlocked.sink Side.inbound.other).free = 0 := by decide
    rw [hfull, List.length_take_of_le hle] at h
    omega
  | writeFault hne hf => exact hf

end NyaSniProxy
