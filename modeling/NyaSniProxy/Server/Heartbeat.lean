import NyaSniProxy.Library.Interval
import NyaSniProxy.Server
import NyaSniProxy.Watchdog

/-!
# An accept loop keeps the process alive

The accept loop beats the heartbeat when it accepts a connection and at every tick of its interval,
and the watchdog ends the process if the heartbeat stalls. Here both run in time. The loop is late
by at most some `lag` whenever it could go on: it wakes up that much after a tick is due, and a call
that does not wait takes no longer. Then no poll of the watchdog, at any instant, finds a stall,
whether connections arrive or not.
-/

namespace NyaSniProxy

open Text Interaction

/-- `ACCEPT_HEARTBEAT_INTERVAL`. -/
def acceptHeartbeatInterval : Nat := 1000 * nsPerMs
/-- `WATCHDOG_STALL_TIMEOUT`. -/
def watchdogStallTimeout : Nat := 30000 * nsPerMs

/-- An accept loop in time, with the instant its interval is due at. -/
structure Timed where
  now : Nat
  due : Nat
  supervised : Supervised

/-- Time goes on to `now`. The events of the process that were no beats of this loop happen in
between: polls of the watchdog, and beats of the other loop. -/
structure Timed.Passes (origin limit : Nat) (s : Timed) (now : Nat) (supervised : Supervised) :
    Prop where
  le : s.now ≤ now
  inRange : InRange origin now
  events : ∃ events, s.supervised.run limit events = some supervised ∧
    ∀ event ∈ events, s.now ≤ event.now ∧ event.now ≤ now

/-- The answers to the accept loop. The interval skips what it has missed. -/
inductive TimedAnswer (origin limit tolerance lag : Nat) : Env AcceptCall AcceptReply Timed where
  | accepted {s now supervised} (result) : s.Passes origin limit now supervised →
      now ≤ max s.now s.due + lag →
      TimedAnswer origin limit tolerance lag .select s (.accepted result)
        { s with now, supervised }
  | tick {s now supervised} : s.Passes origin limit now supervised →
      s.due ≤ now → now ≤ max s.now s.due + lag →
      TimedAnswer origin limit tolerance lag .select s .tick
        ⟨now, Interval.next .skip tolerance acceptHeartbeatInterval s.due now, supervised⟩
  | beat {s now supervised} : s.Passes origin limit now supervised → now ≤ s.now + lag →
      TimedAnswer origin limit tolerance lag .beat s ()
        { s with now, supervised := { supervised with heartbeat := supervised.heartbeat.beat now } }
  | tryAcquire {s now supervised} (r) : s.Passes origin limit now supervised → now ≤ s.now + lag →
      TimedAnswer origin limit tolerance lag .tryAcquire s r { s with now, supervised }
  | log {s now supervised message} : s.Passes origin limit now supervised → now ≤ s.now + lag →
      TimedAnswer origin limit tolerance lag (.log message) s () { s with now, supervised }
  | spawn {s now supervised protocol stream} : s.Passes origin limit now supervised →
      now ≤ s.now + lag →
      TimedAnswer origin limit tolerance lag (.spawn protocol stream) s ()
        { s with now, supervised }

/-- The start of a loop: the heartbeat was beaten just now, and the first tick is due at once. -/
def Timed.start (origin now : Nat) : Timed := ⟨now, now, Supervised.start origin now⟩

/-- The watchdog polls, the latest beat is at most `slack` ago, and the interval is due after a
period at the latest. -/
structure Timed.Alive (origin slack : Nat) (s : Timed) : Prop where
  polling : s.supervised.watchdog = .polling
  recent : ∃ beat, s.supervised.Sound origin beat ∧ beat ≤ s.now ∧ s.now ≤ beat + slack
  due : s.due ≤ s.now + acceptHeartbeatInterval

section Alive

variable {origin limit tolerance lag slack delay now beat : Nat} {s : Timed}
  {supervised : Supervised} {events : List WatchEvent}

/-- Later beats are later. -/
theorem lastBeat_bounds (hbeat : beat ≤ now)
    (h : ∀ event ∈ events, beat ≤ event.now ∧ event.now ≤ now) :
    beat ≤ lastBeat beat events ∧ lastBeat beat events ≤ now := by
  induction events using List.reverseRecOn with
  | nil => exact ⟨le_rfl, hbeat⟩
  | append_singleton events event ih =>
    rw [lastBeat_append]
    cases event with
    | beat time => exact h (.beat time) (by simp)
    | poll time => exact ih fun event hevent => h event (by simp [hevent])

/-- While little time passes, nothing happens to a process that is alive. -/
theorem Timed.Alive.passes (h : s.Alive origin slack) (hp : s.Passes origin limit now supervised)
    (hnow : now ≤ s.now + delay) (hlimit : slack + delay + nsPerMs ≤ limit) :
    Alive origin (slack + delay) { s with now, supervised } := by
  obtain ⟨hpolling, ⟨beat, hsound, hbeat, hslack⟩, hdue⟩ := h
  obtain ⟨hle, ⟨horigin, hrange⟩, events, hrun, hevents⟩ := hp
  have hbeatOrigin := hsound.beaten.le
  have hbetween : ∀ event ∈ events, beat ≤ event.now ∧ event.now ≤ now :=
    fun event hevent => ⟨hbeat.trans (hevents event hevent).1, (hevents event hevent).2⟩
  have hinRange : ∀ event ∈ events, InRange origin event.now := by
    intro event hevent
    have := hbetween event hevent
    exact ⟨by omega, by omega⟩
  refine ⟨hsound.quiet hpolling hinRange hrun fun before time after hsplit => ?_,
    ⟨lastBeat beat events, hsound.run hinRange hrun, ?_, ?_⟩, ?_⟩
  · -- a poll comes early enough after the latest beat before it
    have htime : time ≤ now := (hbetween (.poll time) (by simp [hsplit])).2
    have hlast : beat ≤ lastBeat beat before := (lastBeat_bounds (hbeat.trans hle)
      fun event hevent => hbetween event (by simp [hsplit, hevent])).1
    omega
  · exact (lastBeat_bounds (hbeat.trans hle) hbetween).2
  · have := (lastBeat_bounds (hbeat.trans hle) hbetween).1
    simp only
    omega
  · simp only
    omega

/-- A beat of the loop. -/
theorem Timed.Alive.beaten (h : s.Alive origin slack) (hrange : InRange origin s.now) :
    Alive origin 0
      { s with supervised := { s.supervised with heartbeat := s.supervised.heartbeat.beat s.now } }
    where
  polling := h.polling
  recent := by
    obtain ⟨beat, hsound, -, -⟩ := h.recent
    exact ⟨s.now, ⟨Heartbeat.beaten_beat hsound.beaten.origin_eq hrange, hsound.polling,
      hsound.returned⟩, le_rfl, le_rfl⟩
  due := h.due

/-- How long ago the latest beat may be while the loop waits for a call. -/
def slackAt (lag : Nat) : Option AcceptCall → Nat
  | some .select => 2 * lag
  | some .beat => acceptHeartbeatInterval + 3 * lag
  | some .tryAcquire => 0
  | some (.log _) | some (.spawn ..) => lag
  | none => acceptHeartbeatInterval + 4 * lag

theorem Timed.Alive.mono {slack' : Nat} (h : s.Alive origin slack) (hle : slack ≤ slack') :
    s.Alive origin slack' := by
  obtain ⟨beat, hsound, hbeat, hslack⟩ := h.recent
  exact ⟨h.polling, ⟨beat, hsound, hbeat, by omega⟩, h.due⟩

variable (origin limit tolerance lag) in
/-- The weakest precondition of a part of a turn. The loop goes on soon after its latest beat. -/
abbrev wpAlive (p : AcceptProg (Next Unit Empty)) (s : Timed) : Prop :=
  wp (TimedAnswer origin limit tolerance lag) (fun c s => s.Alive origin (slackAt lag c)) p
    (Loop.post (fun _ s => s.Alive origin (2 * lag)) fun _ _ => True) s

theorem wpAlive_again (h : s.Alive origin (2 * lag)) :
    wpAlive origin limit tolerance lag (.ret (.again ())) s :=
  ⟨h.mono (by simp only [slackAt]; omega), h⟩

/-- The loop beats the heartbeat right after `select`. -/
theorem wpAlive_beat {f : Unit → AcceptProg (Next Unit Empty)}
    (hlimit : acceptHeartbeatInterval + 4 * lag + nsPerMs ≤ limit)
    (h : s.Alive origin (acceptHeartbeatInterval + 3 * lag))
    (hf : ∀ s', s'.Alive origin 0 → wpAlive origin limit tolerance lag (f ()) s') :
    wpAlive origin limit tolerance lag (.call .beat .ret >>= f) s := by
  refine wp_call_bind.mpr ⟨h, fun _ s' hr => ?_⟩
  cases hr with
  | beat hp hnow => exact hf _ ((h.passes hp hnow (by omega)).beaten hp.inRange)

theorem wp_acceptTurn_alive (protocol : InboundProtocol)
    (hlimit : acceptHeartbeatInterval + 4 * lag + nsPerMs ≤ limit)
    (h : s.Alive origin (2 * lag)) :
    wpAlive origin limit tolerance lag (acceptTurn protocol) s := by
  have hwakes {now : Nat} (hnow : now ≤ max s.now s.due + lag) :
      now ≤ s.now + (acceptHeartbeatInterval + lag) := by
    have := h.due
    omega
  refine wp_call_bind.mpr ⟨h, fun event s₁ hr => ?_⟩
  cases hr with
  | tick hp hdue hnow =>
    have h₁ := h.passes hp (hwakes hnow) (by omega)
    have hnext := @Interval.next_le .skip tolerance acceptHeartbeatInterval _ _ hdue
    refine wpAlive_beat hlimit ⟨h₁.polling, ?_, hnext⟩ fun s₂ h₂ =>
      wpAlive_again (h₂.mono (Nat.zero_le _))
    obtain ⟨beat, hsound, hbeat, hslack⟩ := h₁.recent
    exact ⟨beat, hsound, hbeat, by simp only at hslack ⊢; omega⟩
  | accepted result hp hnow =>
    have h₁ := h.passes hp (hwakes hnow) (by omega)
    refine wpAlive_beat hlimit (h₁.mono (by omega)) fun s₂ h₂ => ?_
    cases result with
    | error f => exact ⟨h₂.mono (Nat.zero_le _), trivial⟩
    | ok stream =>
      refine wp_call_bind.mpr ⟨h₂, fun acquired s₃ hr => ?_⟩
      cases hr with
      | tryAcquire r hp hnow =>
        have h₃ : Timed.Alive origin lag _ := (h₂.passes hp hnow (by omega)).mono (by omega)
        cases acquired with
        | true =>
          refine wp_call_bind.mpr ⟨h₃, fun _ s₄ hr => ?_⟩
          cases hr with
          | spawn hp hnow => exact wpAlive_again ((h₃.passes hp hnow (by omega)).mono (by omega))
        | false =>
          refine wp_call_bind.mpr ⟨h₃, fun _ s₄ hr => ?_⟩
          cases hr with
          | log hp hnow => exact wpAlive_again ((h₃.passes hp hnow (by omega)).mono (by omega))

/-- As long as an accept loop is not late by more than about seven seconds, the watchdog does not
end the process, in every run of the loop and with polls at any instants. -/
theorem accept_keeps_alive (protocol : InboundProtocol) (origin start tolerance lag : Nat)
    (hstart : InRange origin start)
    (hlag : acceptHeartbeatInterval + 4 * lag + nsPerMs ≤ watchdogStallTimeout)
    (c : AcceptProg (Next Unit Empty) × Timed)
    (h : Loop.Reaches (TimedAnswer origin watchdogStallTimeout tolerance lag)
      (fun _ : Unit => acceptTurn protocol) (acceptTurn protocol, .start origin start) c) :
    c.2.supervised.watchdog = .polling ∧ c.2.supervised.stalls = 0 := by
  have hnew : (Timed.start origin start).Alive origin (2 * lag) :=
    ⟨rfl, ⟨start, Supervised.sound_start hstart, le_rfl, Nat.le_add_right _ _⟩,
      Nat.le_add_right _ _⟩
  have hwp := Loop.reaches (fun _ _ hnow => wp_acceptTurn_alive protocol hlag hnow)
    (wp_acceptTurn_alive protocol hlag hnew) h
  obtain ⟨beat, hsound, -, -⟩ := hwp.invariant.recent
  exact ⟨hwp.invariant.polling, hsound.polling hwp.invariant.polling⟩

/-- The first tick completes six seconds late. The watchdog polls before it and behind it. -/
theorem accept_keeps_alive_late : ∃ c : AcceptProg (Next Unit Empty) × Timed,
    c.2.now = 8000 * nsPerMs ∧ c.2.supervised.watchdog = .polling := by
  let started : Supervised := .start 0 0
  have hpoll (now : Nat) (h : now + nsPerMs ≤ watchdogStallTimeout) :
      started.run watchdogStallTimeout [.poll now] = some started := by
    have hsound : started.Sound 0 0 := Supervised.sound_start ⟨le_rfl, by simp [nsPerMs]⟩
    have hquiet : started.poll watchdogStallTimeout now = started := hsound.poll.2 (by omega)
    have hstep : started.step watchdogStallTimeout (.poll now) = some started :=
      congrArg some hquiet
    simp only [Supervised.run, List.foldlM_cons, List.foldlM_nil, hstep]
    rfl
  have hrange (now : Nat) (h : now ≤ 8000 * nsPerMs) : InRange 0 now :=
    ⟨Nat.zero_le _, by simp only [nsPerMs] at h ⊢; omega⟩
  have hfirst : (Timed.start 0 0).Passes 0 watchdogStallTimeout (6000 * nsPerMs) started :=
    ⟨Nat.zero_le _, hrange _ (by decide), [.poll (1000 * nsPerMs)], hpoll _ (by decide), by
      simp [WatchEvent.now, Timed.start, nsPerMs]⟩
  have htick := @TimedAnswer.tick 0 watchdogStallTimeout 0 (7000 * nsPerMs) _ _ _ hfirst
    (Nat.zero_le _) (by decide)
  have hsecond : Timed.Passes 0 watchdogStallTimeout ⟨6000 * nsPerMs,
      Interval.next .skip 0 acceptHeartbeatInterval 0 (6000 * nsPerMs), started⟩
      (8000 * nsPerMs) started :=
    ⟨by decide, hrange _ le_rfl, [.poll (7000 * nsPerMs)], hpoll _ (by decide), by
      simp [WatchEvent.now, nsPerMs]⟩
  have hbeat := @TimedAnswer.beat 0 watchdogStallTimeout 0 (7000 * nsPerMs) _ _ _ hsecond
    (by decide)
  have halive := accept_keeps_alive .https 0 0 0 (7000 * nsPerMs) (hrange _ (Nat.zero_le _))
    (by decide) _ (.tail (.tail .refl (.run (.call htick))) (.run (.call hbeat)))
  exact ⟨_, rfl, halive.1⟩

end Alive

end NyaSniProxy
