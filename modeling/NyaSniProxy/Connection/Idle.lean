import NyaSniProxy.Connection.Backpressure

/-!
# The idle timer of the relay

Here the streams of the relay are any environment at all, and there is a clock. Time passes while
the relay waits, and only then: between two awaits its task does not stop.

The timer is a branch of the `select!`, and is set again after every chunk. So at the `select!` it
is due when `timeout` has passed since the last byte. A `write_all` and a `shutdown` are awaited
inside an arm of the `select!`, where nothing looks at the timer, and there the relay outstays it.
-/

namespace NyaSniProxy

open Text Interaction

/-- `RELAY_IDLE_TIMEOUT`, in milliseconds. -/
def relayIdleTimeout : Nat := 5 * 60 * 1000

/-- The time, the deadline of the timer, and when a byte was last read or accepted. -/
structure Clock where
  now : Nat
  deadline : Nat
  last : Nat

namespace Clock

/-- The relay starts, and sets its timer. -/
def start (now timeout : Nat) : Clock := ⟨now, now + timeout, now⟩

def touch (c : Clock) : Clock := { c with last := c.now }
def reset (c : Clock) (timeout : Nat) : Clock := { c with deadline := c.now + timeout }
def tick (c : Clock) (d : Nat) : Clock := { c with now := c.now + d }

/-- More than the timeout has passed since the last byte. -/
def Overdue (c : Clock) (timeout : Nat) : Prop := c.last + timeout < c.now

/-- The clock behind an answer. -/
def answered (c : Clock) (timeout : Nat) : (call : Call) → Reply call → Clock
  | .select _ _, .read _ (.ok (_ :: _)) => c.touch
  | .write _ _, .ok (_ + 1) => c.touch
  | .resetIdle, _ => c.reset timeout
  | _, _ => c

/-- The timer answers from its deadline on. -/
def Admits (c : Clock) : (call : Call) → Reply call → Prop
  | .select _ _, .idle => c.deadline ≤ c.now
  | _, _ => True

end Clock

/-- The environment with a clock. -/
def clocked {σ : Type} (E : Env Call Reply σ) (timeout : Nat) : Env Call Reply (σ × Clock) :=
  fun call w r w' => E call w.1 r w'.1 ∧ w'.2 = w.2.answered timeout call r ∧ w.2.Admits call r

namespace Turn

/-- The relay has neither returned nor failed. -/
def Running (p : Turn) : Prop := (∀ r, p ≠ .ret (.exit r)) ∧ ∀ e, p ≠ .fail e

/-- The relay waits. -/
def Awaits (p : Turn) : Prop :=
  match p.pending with
  | some (.select ..) | some (.write ..) | some (.shutdown _) => True
  | _ => False

end Turn

section Relay

variable {σ : Type} (E : Env Call Reply σ) (peers : σ → σ → Prop) (timeout : Nat)

/-- A step of the relay or of its peers, or time that passes. -/
inductive ClockedStep : Turn × (σ × Clock) → Turn × (σ × Clock) → Prop where
  | relay {c c'} : Loop.Step (clocked E timeout) copyBidirectional c c' → ClockedStep c c'
  | peer {p s s' clock} : peers s s' → ClockedStep (p, (s, clock)) (p, (s', clock))
  | tick {p s clock} (d) : p.Awaits → ClockedStep (p, (s, clock)) (p, (s, clock.tick d))

variable {E peers}

/-- The branch of the timer is enabled. -/
def IdleEnabled (c : Turn × (σ × Clock)) : Prop :=
  ∃ guard cap, c.1.pending = some (.select guard cap) ∧ c.2.2.deadline ≤ c.2.2.now

/-- The relay is overdue, and its timer does not end it. -/
def Outstays (c : Turn × (σ × Clock)) : Prop :=
  c.1.Running ∧ c.2.2.Overdue timeout ∧ ¬ IdleEnabled c

/-- The step answers the `select!` with the end of a stream. -/
def StreamEnds (c c' : Turn × (σ × Clock)) : Prop :=
  ∃ guard cap k side, c.1 = .call (.select guard cap) k ∧ c'.1 = k (.read side (.ok []))

/-- A stream does not end when the relay is overdue, and a write or a shutdown that waits for some
time does not become overdue in it. -/
def InTime (c c' : Turn × (σ × Clock)) : Prop :=
  match c.1.pending with
  | some (.select ..) => StreamEnds c c' → ¬ c.2.2.Overdue timeout
  | some (.write ..) | some (.shutdown _) =>
    ∀ d, c'.2.2 = c.2.2.tick d → ¬ (c.2.2.tick d).Overdue timeout
  | _ => True

end Relay

/-! ## The invariant -/

/-- What holds in a phase as long as all steps are in time. -/
def Phase.Timely (timeout : Nat) : Phase → Clock → Prop
  | choosing _, c => c.deadline ≤ c.last + timeout
  | writing _ _ _ [], c => c.now ≤ c.last
  | writing _ _ _ (_ :: _), c => ¬ c.Overdue timeout
  | closing .., c | again _, c => c.deadline ≤ c.last + timeout ∧ ¬ c.Overdue timeout
  | failed _, _ => True

section Phases

variable {σ : Type} {E : Env Call Reply σ} {peers : σ → σ → Prop} {timeout : Nat}
  {ph ph' : Phase} {s s' : σ} {clock clock' : Clock} {v : Relay} {side : Side} {n : Nat}
  {rest : Bytes}

theorem Turn.running_of_pending {p : Turn} {call : Call} (h : p.pending = some call) :
    p.Running := by
  obtain ⟨hret, hfail⟩ := Prog.not_ended_of_pending h
  exact ⟨fun r => hret _, hfail⟩

/-- A stream ends at the `select!`, and the relay shuts down the other one. -/
theorem streamEnds_iff {w : σ × Clock} {c : Turn × (σ × Clock)} : StreamEnds (ph.prog, w) c ↔
    ∃ v side, ph = .choosing v ∧ (v.aDone && v.bDone) = false ∧
      c.1 = (Phase.closing v side).prog := by
  constructor
  · rintro ⟨guard, cap, k, side, hcall, hc⟩
    have hcall : ph.prog = .call (.select guard cap) k := hcall
    have hpending : ph.prog.pending = some (.select guard cap) := by
      rw [hcall]
      rfl
    cases ph with
    | choosing v =>
      rw [Phase.prog, copyBidirectional_eq] at hcall
      split at hcall
      · cases hcall
      · next hopen =>
        cases hcall
        refine ⟨v, side, rfl, by simpa using hopen, ?_⟩
        rw [hc, ← arm_nil]
    | closing v side =>
      rw [pending_closing] at hpending
      cases hpending
    | writing v side n rest =>
      by_cases hrest : rest = []
      · rw [hrest, pending_writing_nil] at hpending
        cases hpending
      · rw [pending_writing hrest] at hpending
        cases hpending
    | again v | failed e => cases hpending
  · rintro ⟨v, side, rfl, hopen, hc⟩
    obtain ⟨k, hprog, hread⟩ : ∃ k,
        (Phase.choosing v).prog = .call (.select v.guard relayBuffer) k ∧
        ∀ result, k (.read side result) = arm v side result := by
      rw [Phase.prog, copyBidirectional_eq, hopen]
      exact ⟨_, rfl, fun _ => rfl⟩
    exact ⟨v.guard, relayBuffer, k, side, hprog, by rw [hc, hread, arm_nil]⟩

theorem timely_relay (h : ph.Timely timeout clock)
    (hs : PhaseTrans (clocked E timeout) (ph, (s, clock)) (ph', (s', clock')))
    (hclosing : ∀ v side, ph' = .closing v side → ¬ clock.Overdue timeout) :
    ph'.Timely timeout clock' := by
  cases hs with
  | idle | readFault | writeZero | writeFault | shutdownFault => trivial
  | @chunk v side chunk _ _ hopen hne hr =>
    obtain ⟨-, hclock, -⟩ := hr
    obtain ⟨b, bs, rfl⟩ := List.exists_cons_of_ne_nil hne
    obtain rfl : clock' = clock.touch := hclock
    simp [Phase.Timely, Clock.Overdue, Clock.touch]
  | ended hopen hr =>
    obtain ⟨-, hclock, -⟩ := hr
    obtain rfl : clock' = clock := hclock
    exact ⟨h, hclosing _ _ rfl⟩
  | @write v side n rest _ _ k hne hr =>
    obtain ⟨-, hclock, -⟩ := hr
    obtain rfl : clock' = clock.touch := hclock
    cases hrest : rest.drop (k + 1) with
    | nil => exact le_refl clock.now
    | cons b bs => simp [Phase.Timely, Clock.Overdue, Clock.touch]
  | reset hr =>
    obtain ⟨-, hclock, -⟩ := hr
    obtain rfl : clock' = clock.reset timeout := hclock
    have hnow : clock.now ≤ clock.last := h
    simp only [Phase.Timely, Clock.reset, Clock.Overdue]
    omega
  | shutdown hr =>
    obtain ⟨-, hclock, -⟩ := hr
    obtain rfl : clock' = clock := hclock
    exact h
  | again => exact h.1

/-- Where the relay waits, the invariant keeps it from being overdue, but for the `select!`. -/
theorem Phase.Timely.not_overdue {call : Call} (h : ph.Timely timeout clock)
    (hpending : ph.prog.pending = some call) (hselect : ∀ guard cap, call ≠ .select guard cap) :
    ¬ clock.Overdue timeout := by
  cases ph with
  | choosing v =>
    rw [pending_choosing] at hpending
    split at hpending
    · cases hpending
    · exact absurd (Option.some.inj hpending).symm (hselect _ _)
  | closing v side => exact h.2
  | writing v side n rest =>
    cases rest with
    | nil =>
      have hnow : clock.now ≤ clock.last := h
      unfold Clock.Overdue
      omega
    | cons b bs => exact h
  | again v => exact h.2
  | failed e => cases hpending

theorem not_outstays_of_timely (h : ph.Timely timeout clock) :
    ¬ Outstays timeout (ph.prog, (s, clock)) := by
  rintro ⟨hrunning, hoverdue, hidle⟩
  cases ph with
  | choosing v =>
    refine hidle ⟨v.guard, relayBuffer, ?_, ?_⟩
    · dsimp only
      rw [pending_choosing]
      refine if_neg fun hdone => hrunning.1 (v.aToB, v.bToA) ?_
      rw [Phase.prog, copyBidirectional_eq, if_pos hdone]
    · have hdeadline : clock.deadline ≤ clock.last + timeout := h
      unfold Clock.Overdue at hoverdue
      dsimp only at hoverdue ⊢
      omega
  | closing v side => exact h.2 hoverdue
  | writing v side n rest =>
    cases rest with
    | nil =>
      have hnow : clock.now ≤ clock.last := h
      unfold Clock.Overdue at hoverdue
      dsimp only at hoverdue
      omega
    | cons b bs => exact h hoverdue
  | again v => exact h.2 hoverdue
  | failed e => exact hrunning.2 e rfl

/-- A step in time keeps the invariant. -/
theorem timely_step {c : Turn × (σ × Clock)} (h : ph.Timely timeout clock)
    (hs : ClockedStep E peers timeout (ph.prog, (s, clock)) c)
    (hin : InTime timeout (ph.prog, (s, clock)) c) :
    ∃ (ph' : Phase) (s' : σ) (clock' : Clock),
      c = (ph'.prog, (s', clock')) ∧ ph'.Timely timeout clock' := by
  cases hs with
  | relay hstep =>
    obtain ⟨ph', ⟨s', clock'⟩, rfl, htrans⟩ := phaseTrans_of_step hstep
    refine ⟨ph', s', clock', rfl, timely_relay h htrans fun v side hclosing => ?_⟩
    subst hclosing
    unfold InTime at hin
    cases htrans with
    | @ended v _ _ _ hopen hr =>
      dsimp only at hin
      rw [pending_choosing, hopen] at hin
      exact hin (streamEnds_iff.mpr ⟨v, _, rfl, hopen, rfl⟩)
  | @peer _ _ s' _ hpeer => exact ⟨ph, s', clock, rfl, h⟩
  | tick d hawaits =>
    refine ⟨ph, s, clock.tick d, rfl, ?_⟩
    unfold InTime at hin
    unfold Turn.Awaits at hawaits
    dsimp only at hin
    cases ph with
    | choosing v => exact h
    | closing v side =>
      rw [pending_closing] at hin
      exact ⟨h.1, hin d rfl⟩
    | writing v side n rest =>
      cases rest with
      | nil =>
        rw [pending_writing_nil] at hawaits
        exact hawaits.elim
      | cons b bs =>
        rw [pending_writing (List.cons_ne_nil b bs)] at hin
        exact hin d rfl
    | again v => exact hawaits.elim
    | failed e => trivial

theorem answered_not_overdue {call : Call} (r : Reply call) (h : ¬ clock.Overdue timeout) :
    ¬ (clock.answered timeout call r).Overdue timeout := by
  unfold Clock.answered
  split
  · simp [Clock.Overdue, Clock.touch]
  · simp [Clock.Overdue, Clock.touch]
  · exact h
  · exact h

/-- No step of the relay itself makes it overdue. -/
theorem step_not_overdue {p : Turn} {c : Turn × (σ × Clock)}
    (hs : Loop.Step (clocked E timeout) copyBidirectional (p, (s, clock)) c)
    (h : ¬ clock.Overdue timeout) : ¬ c.2.2.Overdue timeout := by
  cases p with
  | ret next =>
    cases next with
    | again v =>
      obtain rfl := Loop.step_again.mp hs
      exact h
    | exit r => exact absurd hs Loop.not_step_exit
  | fail e => exact absurd hs Loop.not_step_fail
  | call call k =>
    obtain ⟨r, w', ⟨-, hclock, -⟩, rfl⟩ := Loop.step_call.mp hs
    dsimp only
    rw [hclock]
    exact answered_not_overdue r h

/-- A step that is not in time leads to a relay that outstays its timer. -/
theorem outstays_of_not_inTime {c : Turn × (σ × Clock)} (h : ph.Timely timeout clock)
    (hs : ClockedStep E peers timeout (ph.prog, (s, clock)) c)
    (hin : ¬ InTime timeout (ph.prog, (s, clock)) c) : Outstays timeout c := by
  -- in a write or a shutdown only time can make the relay overdue
  have hwaits {call : Call} (hpending : ph.prog.pending = some call)
      (hselect : ∀ guard cap, call ≠ .select guard cap) (hoverdue : c.2.2.Overdue timeout) :
      Outstays timeout c := by
    have hbefore := h.not_overdue hpending hselect
    cases hs with
    | relay hstep => exact absurd hoverdue (step_not_overdue hstep hbefore)
    | peer => exact absurd hoverdue hbefore
    | tick d =>
      refine ⟨Turn.running_of_pending hpending, hoverdue, ?_⟩
      rintro ⟨guard, cap, hidle, -⟩
      exact hselect guard cap (Option.some.inj (hpending.symm.trans hidle))
  unfold InTime at hin
  dsimp only at hin
  split at hin
  · obtain ⟨hends, hoverdue⟩ := Classical.not_imp.mp hin
    obtain ⟨v, side, rfl, -, hclosing⟩ := streamEnds_iff.mp hends
    have hshutdown : c.1.pending = some (.shutdown side.other) := by
      rw [hclosing, pending_closing]
    refine ⟨Turn.running_of_pending hshutdown, ?_, ?_⟩
    · cases hs with
      | relay hstep =>
        obtain ⟨ph', ⟨s', clock'⟩, rfl, htrans⟩ := phaseTrans_of_step hstep
        cases htrans with
        | ended hopen hr =>
          obtain ⟨-, hclock, -⟩ := hr
          obtain rfl : clock' = clock := hclock
          exact not_not.mp hoverdue
        | chunk hopen hne hr =>
          rw [pending_writing hne] at hshutdown
          cases hshutdown
        | idle | readFault => cases hshutdown
      | peer => exact not_not.mp hoverdue
      | tick d =>
        have hlater : clock.last + timeout < clock.now := not_not.mp hoverdue
        exact hlater.trans_le (Nat.le_add_right _ _)
    · rintro ⟨guard, cap, hidle, -⟩
      rw [hshutdown] at hidle
      cases hidle
  · next side bytes hpending =>
    push Not at hin
    obtain ⟨d, hclock, hoverdue⟩ := hin
    exact hwaits hpending nofun (by rwa [hclock])
  · next side hpending =>
    push Not at hin
    obtain ⟨d, hclock, hoverdue⟩ := hin
    exact hwaits hpending nofun (by rwa [hclock])
  · exact absurd trivial hin

/-- A relay whose steps have all been in time. -/
abbrev RunInTime (E : Env Call Reply σ) (peers : σ → σ → Prop) (timeout : Nat) :
    Turn × (σ × Clock) → Turn × (σ × Clock) → Prop :=
  Relation.ReflTransGen fun c c' => ClockedStep E peers timeout c c' ∧ InTime timeout c c'

theorem exists_timely {now : Nat} {c : Turn × (σ × Clock)}
    (h : RunInTime E peers timeout (copyBidirectional .init, (s, .start now timeout)) c) :
    ∃ (ph : Phase) (s' : σ) (clock : Clock), c = (ph.prog, (s', clock)) ∧
      ph.Timely timeout clock := by
  induction h with
  | refl => exact ⟨.choosing .init, s, .start now timeout, rfl, le_refl (now + timeout)⟩
  | tail _ hstep ih =>
    obtain ⟨ph, s', clock, rfl, htimely⟩ := ih
    exact timely_step htimely hstep.1 hstep.2

/-- On any streams and for any timeout: as long as every step is in time, the relay does not outstay
its timer, and the first step that is not in time makes it outstay it. -/
theorem relay_inTime_iff {now : Nat} {c : Turn × (σ × Clock)}
    (h : RunInTime E peers timeout (copyBidirectional .init, (s, .start now timeout)) c) :
    ¬ Outstays timeout c ∧ ∀ c', ClockedStep E peers timeout c c' →
      (¬ Outstays timeout c' ↔ InTime timeout c c') := by
  obtain ⟨ph, s', clock, rfl, htimely⟩ := exists_timely h
  refine ⟨not_outstays_of_timely htimely, fun c' hs => ⟨fun hstays => ?_, fun hin => ?_⟩⟩
  · by_contra hin
    exact hstays (outstays_of_not_inTime htimely hs hin)
  · obtain ⟨ph', s₂, clock', rfl, htimely'⟩ := timely_step htimely hs hin
    exact not_outstays_of_timely htimely'

end Phases

/-! ## A peer that stops reading -/

/-- The relay has read two bytes of the client, and the upstream takes one of them. -/
theorem relay_blocks (timeout : Nat) : RunInTime (PipeAnswer False) PeerStep timeout
    (copyBidirectional .init, (crossing, .start 0 timeout))
    ((Phase.writing .init .inbound 2 [2]).prog, (crossingBlocked, .start 0 timeout)) := by
  have hread : PhaseTrans (clocked (PipeAnswer False) timeout)
      (.choosing .init, (crossing, .start 0 timeout))
      (.writing .init .inbound 2 [1, 2], (crossing.take .inbound 2, .start 0 timeout)) := by
    have hr : PipeAnswer False (.select Relay.init.guard relayBuffer) crossing
        (.read .inbound (.ok [1, 2])) (crossing.take .inbound 2) :=
      .chunk 2 rfl (by decide) (by decide) (by decide)
    exact @PhaseTrans.chunk _ _ .init .inbound [1, 2] _ _ rfl (by decide) ⟨hr, rfl, trivial⟩
  have hwrite : PhaseTrans (clocked (PipeAnswer False) timeout)
      (.writing .init .inbound 2 [1, 2], (crossing.take .inbound 2, .start 0 timeout))
      (.writing .init .inbound 2 [2], (crossingBlocked, .start 0 timeout)) := by
    have hr : PipeAnswer False (.write .upstream [1, 2]) (crossing.take .inbound 2) (.ok 1)
        crossingBlocked := .write 1 (by decide) (by decide) (by decide)
    exact .write 0 (by decide) ⟨hr, rfl, trivial⟩
  have hin {c c' : Turn × (Net × Clock)} (hnow : c'.2.2 = .start 0 timeout) (h : c.2.2 = c'.2.2) :
      InTime timeout c c' := by
    have htime : ¬ (Clock.start 0 timeout).Overdue timeout := by simp [Clock.Overdue, Clock.start]
    have htick (d : Nat) (hd : c'.2.2 = c.2.2.tick d) : ¬ (c.2.2.tick d).Overdue timeout := by
      rw [← hd, hnow]
      exact htime
    unfold InTime
    split
    · rw [h, hnow]
      exact fun _ => htime
    · exact htick
    · exact htick
    · trivial
  exact .tail (.single ⟨.relay (step_of_phaseTrans hread), hin rfl rfl⟩)
    ⟨.relay (step_of_phaseTrans hwrite), hin rfl rfl⟩

theorem inTime_tick (timeout d : Nat) :
    InTime timeout ((Phase.writing .init .inbound 2 [2]).prog, (crossingBlocked, .start 0 timeout))
        ((Phase.writing .init .inbound 2 [2]).prog,
          (crossingBlocked, (Clock.start 0 timeout).tick d)) ↔
      ¬ ((Clock.start 0 timeout).tick d).Overdue timeout := by
  unfold InTime
  dsimp only
  rw [pending_writing (List.cons_ne_nil 2 [])]
  refine ⟨fun h => h d rfl, fun h d' hd => ?_⟩
  rwa [← hd]

theorem step_tick (timeout d : Nat) : ClockedStep (PipeAnswer False) PeerStep timeout
    ((Phase.writing .init .inbound 2 [2]).prog, (crossingBlocked, .start 0 timeout))
    ((Phase.writing .init .inbound 2 [2]).prog,
      (crossingBlocked, (Clock.start 0 timeout).tick d)) := by
  refine .tick d ?_
  unfold Turn.Awaits
  rw [pending_writing (List.cons_ne_nil 2 [])]
  trivial

/-- From there, time that passes is in time up to the timeout. -/
theorem relay_inTime_example :
    ¬ Outstays 30 ((Phase.writing .init .inbound 2 [2]).prog,
      (crossingBlocked, (Clock.start 0 30).tick 30)) ∧
    Outstays 30 ((Phase.writing .init .inbound 2 [2]).prog,
      (crossingBlocked, (Clock.start 0 30).tick 31)) := by
  obtain ⟨-, hnext⟩ := relay_inTime_iff (relay_blocks 30)
  constructor
  · refine (hnext _ (step_tick 30 30)).mpr ((inTime_tick 30 30).mpr ?_)
    simp [Clock.Overdue, Clock.start, Clock.tick]
  · by_contra hstays
    have hin := (inTime_tick 30 31).mp ((hnext _ (step_tick 30 31)).mp hstays)
    simp [Clock.Overdue, Clock.start, Clock.tick] at hin

/-- The upstream stops reading, and the relay is still in its write when the timeout is over. -/
theorem relay_outstays : ∃ c : Turn × (Net × Clock),
    Relation.ReflTransGen (ClockedStep (PipeAnswer False) PeerStep relayIdleTimeout)
      (copyBidirectional .init, (crossing, .start 0 relayIdleTimeout)) c ∧
    Outstays relayIdleTimeout c := by
  have hrun := Relation.ReflTransGen.mono (fun _ _ h => h.1) _ _ (relay_blocks relayIdleTimeout)
  have htick := step_tick relayIdleTimeout (relayIdleTimeout + 1)
  have htimely : (Phase.writing .init .inbound 2 [2]).Timely relayIdleTimeout
      (.start 0 relayIdleTimeout) := by simp [Phase.Timely, Clock.Overdue, Clock.start]
  refine ⟨_, hrun.tail htick, outstays_of_not_inTime htimely htick fun hin => ?_⟩
  have hoverdue := (inTime_tick _ _).mp hin
  simp [Clock.Overdue, Clock.start, Clock.tick] at hoverdue

end NyaSniProxy
