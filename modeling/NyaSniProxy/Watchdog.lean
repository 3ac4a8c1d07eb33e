import Mathlib.Algebra.GroupWithZero.Nat
import Mathlib.Data.List.Basic

/-!
# The watchdog

The accept loops beat a heartbeat, and the watchdog thread polls it: at the first poll that finds
the heartbeat stalled it runs `onStall` and returns. An instant is a number of nanoseconds. The
heartbeat stores whole milliseconds since its origin, while a poll compares at full resolution.

A run is a list of beats and polls, each one atomic step at its instant. `watchdog_verdict` says for
every run which polls find a stall: those more than the limit after the latest beat do, those at
most the limit less one millisecond after it do not.
-/

namespace NyaSniProxy

/-- Nanoseconds of a millisecond. -/
abbrev nsPerMs : Nat := 1000000

structure Heartbeat where
  origin : Nat
  lastMs : UInt64
  deriving DecidableEq

namespace Heartbeat

/-- `origin.elapsed()`. -/
def elapsed (heartbeat : Heartbeat) (now : Nat) : Nat := now - heartbeat.origin

def beat (heartbeat : Heartbeat) (now : Nat) : Heartbeat :=
  { heartbeat with lastMs := (min (heartbeat.elapsed now / nsPerMs) (2 ^ 64 - 1)).toUInt64 }

/-- A heartbeat is made at `origin` and beaten for the first time at `seed`. -/
def new (origin seed : Nat) : Heartbeat := beat { origin, lastMs := 0 } seed

def stalledFor (heartbeat : Heartbeat) (limit now : Nat) : Bool :=
  limit < heartbeat.elapsed now - heartbeat.lastMs.toNat * nsPerMs

end Heartbeat

/-- The watchdog thread is in its loop, or it has returned. -/
inductive Watchdog where
  | polling
  | returned
  deriving DecidableEq

/-- The heartbeat, the watchdog's thread, and how often `onStall` has run. -/
structure Supervised where
  heartbeat : Heartbeat
  watchdog : Watchdog
  stalls : Nat
  deriving DecidableEq

inductive WatchEvent where
  | beat (now : Nat)
  | poll (now : Nat)
  deriving DecidableEq

def WatchEvent.now : WatchEvent → Nat
  | .beat now => now
  | .poll now => now

namespace Supervised

def start (origin seed : Nat) : Supervised :=
  { heartbeat := .new origin seed, watchdog := .polling, stalls := 0 }

/-- One turn of the loop of `spawn_watchdog` after its sleep. -/
def poll (limit : Nat) (supervised : Supervised) (now : Nat) : Supervised :=
  if supervised.heartbeat.stalledFor limit now then
    { supervised with watchdog := .returned, stalls := supervised.stalls + 1 }
  else supervised

/-- A step of the process. A thread that has returned polls no more. -/
def step (limit : Nat) (supervised : Supervised) : WatchEvent → Option Supervised
  | .beat now => some { supervised with heartbeat := supervised.heartbeat.beat now }
  | .poll now =>
    match supervised.watchdog with
    | .polling => some (supervised.poll limit now)
    | .returned => none

def run (limit : Nat) (supervised : Supervised) (events : List WatchEvent) : Option Supervised :=
  events.foldlM (step limit) supervised

end Supervised

/-- The instant of the latest beat. -/
def lastBeat (seed : Nat) (events : List WatchEvent) : Nat :=
  events.foldl (fun beat event =>
    match event with
    | .beat now => now
    | .poll _ => beat) seed

/-- An instant less than `2 ^ 64` milliseconds after the origin. -/
def InRange (origin now : Nat) : Prop := origin ≤ now ∧ now - origin < 2 ^ 64 * nsPerMs

/-! ## One poll -/

section Poll

variable {heartbeat : Heartbeat} {origin seed beat limit now : Nat}

/-- The heartbeat was last beaten at `beat`. -/
structure Heartbeat.Beaten (heartbeat : Heartbeat) (origin beat : Nat) : Prop where
  origin_eq : heartbeat.origin = origin
  lastMs_eq : heartbeat.lastMs.toNat = (beat - origin) / nsPerMs
  le : origin ≤ beat

theorem Heartbeat.beaten_beat (horigin : heartbeat.origin = origin) (hbeat : InRange origin beat) :
    (heartbeat.beat beat).Beaten origin beat where
  origin_eq := horigin
  lastMs_eq := by
    obtain ⟨-, hlt⟩ := hbeat
    simp only [nsPerMs] at hlt ⊢
    have hms : (beat - origin) / 1000000 < 2 ^ 64 := by omega
    have hmin : min ((beat - origin) / 1000000) (2 ^ 64 - 1) = (beat - origin) / 1000000 := by omega
    simp only [Heartbeat.beat, Heartbeat.elapsed, nsPerMs, horigin, hmin]
    exact UInt64.toNat_ofNat_of_lt' hms
  le := hbeat.1

/-- The stored time is at most the beat's, so no stall longer than the limit is missed. -/
theorem Heartbeat.Beaten.stalled (h : heartbeat.Beaten origin beat) (hnow : beat + limit < now) :
    heartbeat.stalledFor limit now = true := by
  obtain ⟨horigin, hlast, hle⟩ := h
  simp only [Heartbeat.stalledFor, Heartbeat.elapsed, horigin, hlast, nsPerMs,
    decide_eq_true_eq]
  omega

/-- The stored time is less than a millisecond before the beat's. -/
theorem Heartbeat.Beaten.not_stalled (h : heartbeat.Beaten origin beat)
    (hnow : now + nsPerMs ≤ beat + limit) : heartbeat.stalledFor limit now = false := by
  obtain ⟨horigin, hlast, hle⟩ := h
  simp only [nsPerMs] at hnow
  simp only [Heartbeat.stalledFor, Heartbeat.elapsed, horigin, hlast, nsPerMs,
    decide_eq_false_iff_not]
  omega

end Poll

/-! ## Runs -/

section Runs

variable {limit origin seed beat now : Nat} {supervised supervised' : Supervised}
  {event : WatchEvent} {events before after : List WatchEvent}

@[simp] theorem lastBeat_append :
    lastBeat seed (before ++ after) = lastBeat (lastBeat seed before) after := by
  simp [lastBeat]

/-- The state after a run whose latest beat was at `beat`: `onStall` has run once if the watchdog
has returned, and not at all if it has not. -/
structure Supervised.Sound (supervised : Supervised) (origin beat : Nat) : Prop where
  beaten : supervised.heartbeat.Beaten origin beat
  polling : supervised.watchdog = .polling → supervised.stalls = 0
  returned : supervised.watchdog = .returned → supervised.stalls = 1

theorem Supervised.sound_start (h : InRange origin seed) :
    (Supervised.start origin seed).Sound origin seed where
  beaten := Heartbeat.beaten_beat rfl h
  polling := fun _ => rfl
  returned := nofun

theorem Supervised.Sound.step (h : supervised.Sound origin beat) (hnow : InRange origin event.now)
    (hstep : supervised.step limit event = some supervised') :
    supervised'.Sound origin (lastBeat beat [event]) := by
  cases event with
  | beat now =>
    obtain rfl := Option.some.inj hstep
    exact ⟨Heartbeat.beaten_beat h.beaten.origin_eq hnow, h.polling, h.returned⟩
  | poll now =>
    simp only [Supervised.step] at hstep
    split at hstep
    · next hpolling =>
      obtain rfl := Option.some.inj hstep
      unfold Supervised.poll
      split
      · refine ⟨h.beaten, nofun, fun _ => ?_⟩
        simp [h.polling hpolling]
      · exact h
    · cases hstep

theorem Supervised.run_append :
    supervised.run limit (before ++ after) =
      (supervised.run limit before).bind fun middle => middle.run limit after :=
  List.foldlM_append ..

/-- Over a run, by induction on its events. -/
theorem Supervised.Sound.run (h : supervised.Sound origin beat)
    (hnow : ∀ event ∈ events, InRange origin event.now)
    (hrun : supervised.run limit events = some supervised') :
    supervised'.Sound origin (lastBeat beat events) := by
  induction events generalizing supervised beat with
  | nil =>
    obtain rfl := Option.some.inj hrun
    exact h
  | cons event events ih =>
    obtain ⟨middle, hstep, hrest⟩ := Option.bind_eq_some_iff.mp hrun
    obtain ⟨hevent, hevents⟩ := List.forall_mem_cons.mp hnow
    exact ih (h.step hevent hstep) hevents hrest

/-- What a poll does in a state that a run has reached. -/
theorem Supervised.Sound.poll (h : supervised.Sound origin beat) :
    (beat + limit < now →
      supervised.poll limit now =
        { supervised with watchdog := .returned, stalls := supervised.stalls + 1 }) ∧
    (now + nsPerMs ≤ beat + limit → supervised.poll limit now = supervised) := by
  constructor
  · intro hlate
    exact if_pos (h.beaten.stalled hlate)
  · intro hearly
    exact if_neg (by simp [h.beaten.not_stalled hearly])

theorem Supervised.run_poll
    (hrun : supervised.run limit (before ++ .poll now :: after) = some supervised') :
    ∃ middle, supervised.run limit before = some middle ∧ middle.watchdog = .polling ∧
      (middle.poll limit now).run limit after = some supervised' := by
  rw [Supervised.run_append] at hrun
  obtain ⟨middle, hbefore, hafter⟩ := Option.bind_eq_some_iff.mp hrun
  obtain ⟨polled, hstep, hrest⟩ := Option.bind_eq_some_iff.mp hafter
  cases hwatchdog : middle.watchdog with
  | polling =>
    simp only [Supervised.step, hwatchdog] at hstep
    obtain rfl := Option.some.inj hstep
    exact ⟨middle, hbefore, hwatchdog, hrest⟩
  | returned =>
    simp only [Supervised.step, hwatchdog] at hstep
    cases hstep

/-- A watchdog that has returned stays so. -/
theorem Supervised.returned_run (h : supervised.watchdog = .returned)
    (hrun : supervised.run limit events = some supervised') :
    supervised'.watchdog = .returned ∧ ∀ now, .poll now ∉ events := by
  induction events generalizing supervised with
  | nil =>
    obtain rfl := Option.some.inj hrun
    exact ⟨h, by simp⟩
  | cons event events ih =>
    obtain ⟨middle, hstep, hrest⟩ := Option.bind_eq_some_iff.mp hrun
    cases event with
    | beat now =>
      have hmiddle : middle.watchdog = .returned := by
        rw [← Option.some.inj hstep]
        exact h
      obtain ⟨hwatchdog, hpolls⟩ := ih hmiddle hrest
      exact ⟨hwatchdog, fun now => by simp [hpolls now]⟩
    | poll now =>
      simp only [Supervised.step, h] at hstep
      cases hstep

/-- If every poll of a run comes early enough after its latest beat, `onStall` never runs. -/
theorem Supervised.Sound.quiet (h : supervised.Sound origin beat)
    (hpolling : supervised.watchdog = .polling)
    (hnow : ∀ event ∈ events, InRange origin event.now)
    (hrun : supervised.run limit events = some supervised')
    (hearly : ∀ before now after, events = before ++ .poll now :: after →
      now + nsPerMs ≤ lastBeat beat before + limit) : supervised'.watchdog = .polling := by
  induction events generalizing supervised beat with
  | nil =>
    obtain rfl := Option.some.inj hrun
    exact hpolling
  | cons event events ih =>
    obtain ⟨middle, hstep, hrest⟩ := Option.bind_eq_some_iff.mp hrun
    obtain ⟨hevent, hevents⟩ := List.forall_mem_cons.mp hnow
    refine ih (h.step hevent hstep) ?_ hevents hrest fun before now after hsplit => ?_
    · cases event with
      | beat now =>
        obtain rfl := Option.some.inj hstep
        exact hpolling
      | poll now =>
        simp only [Supervised.step, hpolling] at hstep
        obtain rfl := Option.some.inj hstep
        rw [h.poll.2 (hearly [] now events rfl)]
        exact hpolling
    · exact hearly (event :: before) now after (by rw [hsplit]; rfl)

end Runs

/-! ## The verdict -/

/-- What is asked of a run that ends in `supervised`. -/
structure Verdict (limit seed : Nat) (events : List WatchEvent) (supervised : Supervised) :
    Prop where
  atMostOnce : supervised.stalls ≤ 1
  /-- A poll more than the limit after the latest beat runs `onStall`. -/
  late : ∀ now, supervised.watchdog = .polling → lastBeat seed events + limit < now →
    supervised.step limit (.poll now) = some { supervised with watchdog := .returned, stalls := 1 }
  /-- A poll at least a millisecond before the limit changes nothing. -/
  early : ∀ now, supervised.watchdog = .polling → now + nsPerMs ≤ lastBeat seed events + limit →
    supervised.step limit (.poll now) = some supervised
  /-- Beats close enough to all polls keep the process alive. -/
  alive : (∀ before now after, events = before ++ .poll now :: after →
    now + nsPerMs ≤ lastBeat seed before + limit) → supervised.stalls = 0
  /-- The first poll that came too late was the last one. -/
  killed : ∀ before now after, events = before ++ .poll now :: after →
    lastBeat seed before + limit < now → supervised.stalls = 1 ∧ ∀ later, .poll later ∉ after

section Verdict

variable {limit origin seed : Nat} {events : List WatchEvent} {supervised : Supervised}

theorem watchdog_verdict (hnow : ∀ event ∈ .beat seed :: events, InRange origin event.now)
    (hrun : (Supervised.start origin seed).run limit events = some supervised) :
    Verdict limit seed events supervised := by
  obtain ⟨hseed, hevents⟩ := List.forall_mem_cons.mp hnow
  have hstart := Supervised.sound_start hseed
  have hsound := hstart.run hevents hrun
  constructor
  case atMostOnce =>
    cases hwatchdog : supervised.watchdog with
    | polling =>
      have := hsound.polling hwatchdog
      omega
    | returned =>
      have := hsound.returned hwatchdog
      omega
  case late =>
    intro now hpolling hlate
    simp only [Supervised.step, hpolling, Option.some.injEq]
    rw [hsound.poll.1 hlate, hsound.polling hpolling]
  case early =>
    intro now hpolling hearly
    simp only [Supervised.step, hpolling, Option.some.injEq]
    exact hsound.poll.2 hearly
  case alive =>
    intro hearly
    exact hsound.polling (hstart.quiet rfl hevents hrun hearly)
  case killed =>
    rintro before now after rfl hlate
    obtain ⟨middle, hbefore, hpolling, hafter⟩ := Supervised.run_poll hrun
    have hmiddle := hstart.run (fun event h => hevents event (List.mem_append_left _ h)) hbefore
    rw [hmiddle.poll.1 hlate] at hafter
    obtain ⟨hreturned, hpolls⟩ := Supervised.returned_run rfl hafter
    exact ⟨hsound.returned hreturned, hpolls⟩

/-- A beat, a poll 29 s behind it and one 31 s behind it, with the limit of 30 s. -/
theorem watchdog_verdict_deployed :
    Verdict (30000 * nsPerMs) 5000700
      [.beat 20005999999, .poll 49005000000, .poll 51006000000, .beat 60000000000]
      ⟨⟨5000000, 59995⟩, .returned, 1⟩ :=
  @watchdog_verdict _ 5000000 _ _ _ (by simp [WatchEvent.now, InRange, nsPerMs]) (by decide +kernel)

end Verdict

end NyaSniProxy
