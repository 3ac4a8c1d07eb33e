import Mathlib.Data.List.Chain
import NyaSniProxy.Library.Interval
import NyaSniProxy.Reload.Startup
import NyaSniProxy.Watchdog

/-!
# How often the configuration is fetched

A poll waits for an interval that counts from its last tick if it has missed one, and a watch waits
a while for more events before it reloads. So the fetches of a poll are a refresh apart, less the
tolerance of the timer, and there are no more of them than whole refreshes have passed. The fetches
of a watch are 200 milliseconds apart, however fast the file is written.
-/

namespace NyaSniProxy

open Text Interaction

/-- The reload loop in time: when the interval is due, and when the fetches were started, the latest
one first. -/
structure Paced where
  now : Nat
  due : Nat
  fetches : List Nat

/-- `settings.refresh`. -/
def StaticSettings.period (self : StaticSettings) : Nat := self.refresh.toNat * 1000 * nsPerMs

/-- The calls that take any time and wait for no timer. -/
def WatchCall.Untimed : WatchCall → Prop
  | .tick | .sleep _ | .reload .fetch => False
  | _ => True

/-- The answers to the reload loop. The interval delays what it has missed. -/
inductive PacedAnswer (tolerance period : Nat) : Env WatchCall WatchReply Paced where
  | tick {s now} : s.now ≤ now → s.due ≤ now →
      PacedAnswer tolerance period .tick s ()
        { s with now, due := Interval.next .delay tolerance period s.due now }
  | sleep {s millis now} : s.now + millis * nsPerMs ≤ now →
      PacedAnswer tolerance period (.sleep millis) s () { s with now }
  | fetch {s now} (r) : s.now ≤ now →
      PacedAnswer tolerance period (.reload .fetch) s r
        { s with now, fetches := s.now :: s.fetches }
  | untimed {s c now} (r) : c.Untimed → s.now ≤ now →
      PacedAnswer tolerance period c s r { s with now }

/-- Between any two fetches that follow each other lies this time, less the tolerance. -/
def Spaced (tolerance gap : Nat) (fetches : List Nat) : Prop :=
  fetches.IsChain fun later earlier => earlier + gap ≤ later + tolerance

section Paced

variable {deserialize : Bytes → Option FileConfig} {parseUrl : Bytes → Option Url}
  {hash : Bytes → UInt64} {defaultHostsPath : FsPath} {cli : CliOverrides} {source : ConfigSource}
  {settings : StaticSettings} {self : ReloadLoop} {s : Paced}
  {tolerance period gap start now : Nat}

theorem Spaced.cons {fetches : List Nat} (h : Spaced tolerance gap fetches)
    (hlast : ∀ t ∈ fetches.head?, t + gap ≤ now + tolerance) :
    Spaced tolerance gap (now :: fetches) :=
  List.isChain_cons.mpr ⟨hlast, h⟩

/-! ## A reload -/

/-- What the rest of a reload keeps: it does not fetch again, and it waits for no timer. -/
theorem wp_fetched {I : Option WatchCall → Paced → Prop} {A : Paced → Prop} {last : FileConfig}
    {Q : Except Error FileConfig → Paced → Prop} (hnow : I (some (.reload .fetch)) s)
    (hI : ∀ c s, (∀ i, c = some i → i.Untimed) → A s → I c s)
    (hA : ∀ s now, s.now ≤ now → A s → A { s with now })
    (hfetch : ∀ now, s.now ≤ now → A { s with now, fetches := s.now :: s.fetches })
    (hQ : ∀ yaml s, A s → Q (.ok yaml) s) :
    wp (PacedAnswer tolerance period) I
      (WatchProg.ofReload (reloadOnce deserialize parseUrl hash settings last)) Q s := by
  obtain ⟨k, hk, honly⟩ := @reloadOnce_eq_call deserialize parseUrl hash settings last
  rw [hk]
  refine ⟨hnow, fun fetched s₁ hr => ?_⟩
  have huntimed : (WatchProg.ofReload (k fetched)).Only WatchCall.Untimed :=
    Prog.Only.mapError (Prog.Only.lift (fun c hc => by cases c <;> first | exact hc | trivial)
      (honly fetched))
  have hA₁ : A s₁ := by
    cases hr with
    | fetch _ hle => exact hfetch _ hle
    | untimed _ hc => exact hc.elim
  have hrest : wp (PacedAnswer tolerance period) I (WatchProg.ofReload (k fetched))
      (fun _ s => A s) s₁ := by
    refine wp_of_kept huntimed hI (fun c s r s' hc h hr => ?_) hA₁
    cases hr with
    | tick | sleep | fetch => exact hc.elim
    | untimed _ _ hle => exact hA _ _ hle h
  refine (hrest.outcome (Prog.outcome_lift _ _ _)).mono ?_
  rintro _ s₂ ⟨hA₂, yaml, rfl⟩
  exact hQ yaml s₂ hA₂

/-- A fetch that fails at once ends a reload. -/
theorem ends_failedReload (last : FileConfig) :
    Ends (PacedAnswer tolerance period)
      (WatchProg.ofReload (reloadOnce deserialize parseUrl hash settings last)) s (.ok last)
      { s with fetches := s.now :: s.fetches } :=
  .call (.fetch (.error .threadDropped) le_rfl) (.call (.untimed () trivial le_rfl) .refl)

/-! ## Polls -/

/-- At every point of a poll. -/
structure Polled (tolerance period start : Nat) (s : Paced) : Prop where
  spaced : Spaced tolerance period s.fetches
  counted : start + s.fetches.length * period ≤ s.now

/-- The interval is due when the next fetch may come. -/
structure PollHead (tolerance period start : Nat) (s : Paced) : Prop
    extends Polled tolerance period start s where
  due : start + (s.fetches.length + 1) * period ≤ s.due
  last : ∀ t ∈ s.fetches.head?, t + period ≤ s.due + tolerance

theorem Polled.later (h : Polled tolerance period start s) (hnow : s.now ≤ now) :
    Polled tolerance period start { s with now } :=
  ⟨h.spaced, h.counted.trans hnow⟩

theorem PollHead.later (h : PollHead tolerance period start s) (hnow : s.now ≤ now) :
    PollHead tolerance period start { s with now } :=
  ⟨h.toPolled.later hnow, h.due, h.last⟩

/-- A tick, and the fetch behind it. -/
theorem PollHead.fetch {later : Nat} (h : PollHead tolerance period start s) (hdue : s.due ≤ now)
    (hlater : now ≤ later) : PollHead tolerance period start
      ⟨later, Interval.next .delay tolerance period s.due now, now :: s.fetches⟩ := by
  have hnext := @Interval.le_next .delay tolerance period _ _ hdue
  have hcount : start + (s.fetches.length + 1) * period ≤ now := h.due.trans hdue
  refine ⟨⟨h.spaced.cons fun t ht => ?_, ?_⟩, ?_, ?_⟩
  · have := h.last t ht
    omega
  · rw [List.length_cons]
    exact hcount.trans hlater
  · refine le_trans ?_ hnext
    rw [List.length_cons, Nat.add_one_mul, ← Nat.add_assoc]
    exact Nat.add_le_add_right h.due period
  · rintro t ⟨⟩
    exact Interval.le_next_delay

variable (tolerance period start) in
/-- The loop invariant of a poll. -/
def PollPlace (place : ReloadPlace) (s : Paced) : Prop :=
  match place with
  | .poll _ => PollHead tolerance period start s
  | .start | .receive _ | .drain _ => False

theorem wp_pollTurn {place : ReloadPlace} (h : PollPlace tolerance period start place s) :
    wp (PacedAnswer tolerance period) (fun _ => Polled tolerance period start)
      (reloadTurn deserialize parseUrl hash defaultHostsPath cli source place)
      (Loop.post (PollPlace tolerance period start) fun _ _ => True) s := by
  cases place with
  | start | receive | drain => exact h.elim
  | poll self =>
    have h : PollHead tolerance period start s := h
    refine wp_call_bind.mpr ⟨h.toPolled, fun _ s₁ hr => ?_⟩
    cases hr with
    | untimed _ hc => exact hc.elim
    | tick hnow hdue =>
      refine wp.bind (wp_fetched (A := PollHead tolerance period start)
        ⟨h.spaced, h.counted.trans hnow⟩
        (fun _ _ _ h => h.toPolled) (fun _ _ hnow h => h.later hnow)
        (fun later hlater => h.fetch hdue hlater) fun yaml s₂ h₂ => ⟨h₂.toPolled, h₂⟩)

/-- However long the fetches take and however late the timer is: the fetches of a poll are a refresh
apart, less the tolerance of the timer, and `n` of them take `n` refreshes. -/
theorem polls_paced (self : ReloadLoop) (start tolerance : Nat)
    (c : WatchProg (Next ReloadPlace Unit) × Paced)
    (h : Loop.Reaches (PacedAnswer tolerance self.settings.period)
      (reloadTurn deserialize parseUrl hash defaultHostsPath cli source)
      (pollSource self, ⟨start, start, []⟩) c) :
    Spaced tolerance self.settings.period c.2.fetches ∧
      start + c.2.fetches.length * self.settings.period ≤ c.2.now := by
  have hnew {now : Nat} (hnow : start ≤ now) :
      Polled tolerance self.settings.period start ⟨now, start, []⟩ :=
    ⟨List.isChain_nil, by simpa using hnow⟩
  have hstart : wp (PacedAnswer tolerance self.settings.period)
      (fun _ => Polled tolerance self.settings.period start) (pollSource self)
      (Loop.post (PollPlace tolerance self.settings.period start) fun _ _ => True)
      ⟨start, start, []⟩ := by
    refine wp_call_bind.mpr ⟨hnew le_rfl, fun _ s₁ hr => ?_⟩
    cases hr with
    | untimed _ hc => exact hc.elim
    | @tick _ now hnow hdue =>
      have hnext := @Interval.le_next .delay tolerance self.settings.period _ _ hdue
      have hpolled : Polled tolerance self.settings.period start ⟨now,
          Interval.next .delay tolerance self.settings.period start now, []⟩ :=
        ⟨List.isChain_nil, by simpa using hnow⟩
      exact ⟨hpolled, hpolled, by simpa using hnext, nofun⟩
  have hwp := Loop.reaches (fun _ _ => wp_pollTurn) hstart h
  exact ⟨hwp.invariant.spaced, hwp.invariant.counted⟩

/-- The first fetch is a second late. The next one keeps its distance to it. -/
theorem polls_paced_late : ∃ c : WatchProg (Next ReloadPlace Unit) × Paced,
    c.2.fetches = [61000 * nsPerMs, 31000 * nsPerMs] ∧
      Spaced 0 (30000 * nsPerMs) c.2.fetches ∧ 2 * (30000 * nsPerMs) ≤ c.2.now := by
  let self : ReloadLoop := ⟨.file configFile, sampleSettings, sampleYaml⟩
  let E := PacedAnswer 0 self.settings.period
  have htick {s : Paced} {now : Nat} (hnow : s.now ≤ now) (hdue : s.due ≤ now) :
      Ends E (.call .tick .ret : WatchProg Unit) s (.ok ())
        { s with now, due := Interval.next .delay 0 self.settings.period s.due now } :=
    .call (.tick hnow hdue) .refl
  have hturn {s : Paced} {now : Nat} (hnow : s.now ≤ now) (hdue : s.due ≤ now) :
      Ends E (reloadTurn (fun _ => none) sampleUrl sampleHash hostsFile sampleCli
        (.file configFile) (.poll self)) s (.ok (.again (.poll self)))
        ⟨now, Interval.next .delay 0 self.settings.period s.due now, now :: s.fetches⟩ :=
    .bind (htick hnow hdue) (.bind (ends_failedReload _) .refl)
  have hfirst : Ends E (pollSource self) ⟨0, 0, []⟩ (.ok (.again (.poll self)))
      ⟨0, Interval.next .delay 0 self.settings.period 0 0, []⟩ := .bind (htick le_rfl le_rfl) .refl
  have hdue : Interval.next .delay 0 self.settings.period 0 0 = 30000 * nsPerMs := by decide
  have hdue' : Interval.next .delay 0 self.settings.period (30000 * nsPerMs) (31000 * nsPerMs) =
      61000 * nsPerMs := by decide
  rw [hdue] at hfirst
  have hsecond := @hturn ⟨0, 30000 * nsPerMs, []⟩ (31000 * nsPerMs) (by decide) (by decide)
  rw [hdue'] at hsecond
  have hthird := @hturn ⟨31000 * nsPerMs, 61000 * nsPerMs, [31000 * nsPerMs]⟩ (61000 * nsPerMs)
    (by decide) (by decide)
  have hrun := (Loop.reaches_again hfirst).trans
    ((Loop.reaches_again hsecond).trans (Loop.reaches_of_reaches hthird))
  have hpaced := polls_paced self 0 0 _ hrun
  have hperiod : self.settings.period = 30000 * nsPerMs := by decide
  rw [hperiod, Nat.zero_add] at hpaced
  exact ⟨_, rfl, hpaced⟩

/-! ## Watches -/

/-- How long a watch waits for more events. -/
def settleTime : Nat := 200 * nsPerMs

/-- At every point of a watch. -/
structure PacedWatch (s : Paced) : Prop where
  spaced : Spaced 0 settleTime s.fetches
  last : ∀ t ∈ s.fetches.head?, t ≤ s.now

/-- The watch has waited since the last fetch. -/
structure Rested (s : Paced) : Prop extends PacedWatch s where
  rested : ∀ t ∈ s.fetches.head?, t + settleTime ≤ s.now

theorem PacedWatch.later (h : PacedWatch s) (hnow : s.now ≤ now) : PacedWatch { s with now } :=
  ⟨h.spaced, fun t ht => (h.last t ht).trans hnow⟩

theorem PacedWatch.settle (h : PacedWatch s) (hnow : s.now + settleTime ≤ now) :
    Rested { s with now } where
  toPacedWatch := h.later (by omega)
  rested := fun t ht => (Nat.add_le_add_right (h.last t ht) settleTime).trans hnow

theorem Rested.later (h : Rested s) (hnow : s.now ≤ now) : Rested { s with now } :=
  ⟨h.toPacedWatch.later hnow, fun t ht => (h.rested t ht).trans hnow⟩

theorem Rested.fetch (h : Rested s) (hnow : s.now ≤ now) :
    PacedWatch { s with now, fetches := s.now :: s.fetches } where
  spaced := h.spaced.cons h.rested
  last := by
    rintro t ⟨⟩
    exact hnow

/-- The loop invariant of a watch. -/
def WatchPlace (place : ReloadPlace) (s : Paced) : Prop :=
  match place with
  | .receive _ => PacedWatch s
  | .drain _ => Rested s
  | .start | .poll _ => False

theorem wp_watchTurn {place : ReloadPlace} (h : WatchPlace place s) :
    wp (PacedAnswer tolerance period) (fun _ => PacedWatch)
      (reloadTurn deserialize parseUrl hash defaultHostsPath cli source place)
      (Loop.post WatchPlace fun _ _ => True) s := by
  have hagain {self : ReloadLoop} {s : Paced} (h : PacedWatch s) :
      wp (PacedAnswer tolerance period) (fun _ => PacedWatch)
        (.ret (.again (.receive self)) : WatchProg (Next ReloadPlace Unit))
        (Loop.post WatchPlace fun _ _ => True) s := ⟨h, h⟩
  cases place with
  | start | poll => exact h.elim
  | receive self =>
    have h : PacedWatch s := h
    refine wp_call_bind.mpr ⟨h, fun report s₁ hr => ?_⟩
    cases hr with
    | untimed _ _ hnow =>
      have h₁ := h.later hnow
      obtain _ | f | event := report
      · exact ⟨h₁, trivial⟩
      · refine wp_call_bind.mpr ⟨h₁, fun _ s₂ hr => ?_⟩
        cases hr with
        | untimed _ _ hnow => exact hagain (h₁.later hnow)
      · dsimp only
        split
        · refine wp_call_bind.mpr ⟨h₁, fun _ s₂ hr => ?_⟩
          cases hr with
          | untimed _ hc => exact hc.elim
          | sleep hnow =>
            have h₂ := h₁.settle hnow
            exact ⟨h₂.toPacedWatch, h₂⟩
        · exact hagain h₁
  | drain self =>
    have h : Rested s := h
    refine wp_call_bind.mpr ⟨h.toPacedWatch, fun report s₁ hr => ?_⟩
    cases hr with
    | untimed _ _ hnow =>
      have h₁ := h.later hnow
      obtain _ | f | event := report
      · exact wp.bind (wp_fetched (A := PacedWatch) h₁.toPacedWatch (fun _ _ _ h => h)
          (fun _ _ hnow h => h.later hnow) (fun _ hnow => h₁.fetch hnow)
          fun yaml s₂ h₂ => ⟨h₂, h₂⟩)
      · exact ⟨h₁.toPacedWatch, h₁⟩
      · exact ⟨h₁.toPacedWatch, h₁⟩

/-- However often the file is written and however many events there are: a watch does not fetch
twice within 200 milliseconds. -/
theorem watches_paced (self : ReloadLoop) (start due tolerance period : Nat)
    (c : WatchProg (Next ReloadPlace Unit) × Paced)
    (h : Loop.Reaches (PacedAnswer tolerance period)
      (reloadTurn deserialize parseUrl hash defaultHostsPath cli source)
      (.ret (.again (.receive self)), ⟨start, due, []⟩) c) :
    Spaced 0 settleTime c.2.fetches := by
  have hnew : PacedWatch ⟨start, due, []⟩ := ⟨List.isChain_nil, nofun⟩
  have hstart : wp (PacedAnswer tolerance period) (fun _ => PacedWatch)
      (.ret (.again (.receive self)) : WatchProg (Next ReloadPlace Unit))
      (Loop.post WatchPlace fun _ _ => True) ⟨start, due, []⟩ := ⟨hnew, hnew⟩
  exact (Loop.reaches (fun _ _ => wp_watchTurn) hstart h).invariant.spaced

/-- The file is written twice, and the second time while the watch waits. -/
theorem watches_paced_burst : ∃ c : WatchProg (Next ReloadPlace Unit) × Paced,
    c.2.fetches = [400 * nsPerMs, 200 * nsPerMs] ∧ Spaced 0 settleTime c.2.fetches := by
  let self : ReloadLoop := ⟨.file configFile, sampleSettings, sampleYaml⟩
  let E := PacedAnswer 0 self.settings.period
  let event : Event := ⟨.modify, [configFile]⟩
  let turn := reloadTurn (fun _ => none) sampleUrl sampleHash hostsFile sampleCli (.file configFile)
  have hcall {c : WatchCall} (r : WatchReply c) (hc : c.Untimed) (s : Paced) :
      Ends E (.call c .ret : WatchProg _) s (.ok r) s := .call (.untimed r hc le_rfl) .refl
  have hreceive (s : Paced) : Ends E (turn (.receive self)) s (.ok (.again (.drain self)))
      { s with now := s.now + settleTime } :=
    .bind (hcall (c := .recv) (some (.ok event)) trivial s) (.call (.sleep le_rfl) .refl)
  have hdrain (s : Paced) : Ends E (turn (.drain self)) s (.ok (.again (.drain self))) s :=
    .bind (hcall (c := .tryRecv) (some (.ok event)) trivial s) .refl
  have hreload (s : Paced) : Ends E (turn (.drain self)) s (.ok (.again (.receive self)))
      { s with fetches := s.now :: s.fetches } :=
    .bind (hcall (c := .tryRecv) none trivial s) (.bind (ends_failedReload _) .refl)
  have hround (s : Paced) : Loop.Reaches E turn (turn (.receive self), s) (turn (.receive self),
      { s with now := s.now + settleTime, fetches := (s.now + settleTime) :: s.fetches }) :=
    (Loop.reaches_again (hreceive s)).trans
      ((Loop.reaches_again (hdrain _)).trans (Loop.reaches_again (hreload _)))
  have hspaced := watches_paced self 0 0 0 self.settings.period _
    (.head .again ((hround ⟨0, 0, []⟩).trans (hround _)))
  exact ⟨_, rfl, hspaced⟩

end Paced

end NyaSniProxy
