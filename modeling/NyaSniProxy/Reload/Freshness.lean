import NyaSniProxy.Library.Counting
import NyaSniProxy.Reload.Polling
import NyaSniProxy.Server

/-!
# How old the configuration in force may be

A configuration is polled from a URL, which serves some content at every instant, or fails. A fetch
gets what is served at an instant between its start and its end, and it is given up after fifteen
seconds. The other calls are prompt. Then the configuration in force is that of some instant, and
that is never longer ago than a refresh, two reloads and the lag of a tick: if what was served then
can be accepted, the runtime in force has its fingerprint.
-/

namespace NyaSniProxy

open Text Interaction

/-- How long a fetch is waited for. -/
def configFetchHardTimeout : Nat := 15 * 1000 * nsPerMs

/-- A program that polls, in time: when its interval is due once it has one, and the runtime that is
in force once there is one. -/
structure Polling where
  now : Nat
  due : Option Nat
  current : Option Runtime

/-- The answers to a program that polls what is `served`. -/
inductive PollAnswer (served : Nat → Except FetchError Bytes) (tolerance period lag : Nat) :
    Env WatchCall WatchReply Polling where
  | fetch {s t now} : s.now ≤ t → t ≤ now → now ≤ s.now + configFetchHardTimeout + lag →
      PollAnswer served tolerance period lag (.reload .fetch) s (served t) { s with now }
  /-- The first tick of the interval, which is made just now. -/
  | created {s now} : s.due = none → s.now ≤ now → now ≤ s.now + lag →
      PollAnswer served tolerance period lag .tick s ()
        { s with now, due := some (Interval.next .delay tolerance period s.now now) }
  | tick {s due now} : s.due = some due → s.now ≤ now → due ≤ now → now ≤ max s.now due + lag →
      PollAnswer served tolerance period lag .tick s ()
        { s with now, due := some (Interval.next .delay tolerance period due now) }
  | channel {s now runtime} : s.now ≤ now → now ≤ s.now + lag →
      PollAnswer served tolerance period lag (.channel runtime) s ()
        { s with now, current := some runtime }
  | borrow {s now runtime} : s.current = some runtime → s.now ≤ now → now ≤ s.now + lag →
      PollAnswer served tolerance period lag (.reload .borrow) s runtime { s with now }
  | send {s now runtime} : s.now ≤ now → now ≤ s.now + lag →
      PollAnswer served tolerance period lag (.reload (.send runtime)) s (.ok ())
        { s with now, current := some runtime }
  | quiet {s c now} (r) : c.Quiet → s.now ≤ now → now ≤ s.now + lag →
      PollAnswer served tolerance period lag c s r { s with now }

/-- The calls that are answered soon. -/
def WatchCall.Prompt : WatchCall → Prop
  | .reload .fetch | .tick => False
  | _ => True

/-- A reload with all its calls, when none of them is late by more than `lag`. -/
def reloadTime (lag : Nat) : Nat := configFetchHardTimeout + 17 * lag

/-- How old the runtime in force may be. -/
def staleness (period lag : Nat) : Nat := period + 2 * reloadTime lag + lag

section Freshness

variable {deserialize : Bytes → Option FileConfig} {parseUrl : Bytes → Option Url}
  {hash : Bytes → UInt64} {defaultHostsPath : FsPath} {cli : CliOverrides} {source : ConfigSource}
  {settings : StaticSettings} {served : Nat → Except FetchError Bytes}
  {tolerance period lag since t : Nat} {s s' : Polling} {due : Option Nat}
  {old runtime : Runtime} {α : Type}

variable (deserialize parseUrl hash served) in
/-- The runtime routes as what was served then, if that is a configuration. -/
def UpToDate (t : Nat) (runtime : Runtime) : Prop :=
  ∀ yaml fetched, accepted deserialize parseUrl hash (served t) = some (yaml, fetched) →
    runtime.fingerprint = fetched.fingerprint

variable (deserialize parseUrl hash served period lag) in
/-- The runtime in force is that of an instant which is not long ago. -/
def Polling.Recent (s : Polling) : Prop :=
  ∃ runtime t, s.current = some runtime ∧ t ≤ s.now ∧ s.now ≤ t + staleness period lag ∧
    UpToDate deserialize parseUrl hash served t runtime

/-! ## How many calls there are -/

theorem within_writeAtomic {path : FsPath} {content : Bytes} :
    (writeAtomic path content).Within 6 := by
  have hcleanup {tmp : FsPath} {f : Unit → Fs Unit} {n : Nat} (hf : ∀ u, (f u).Within 0) :
      (cleanup tmp >>= f).Within (n + 1) :=
    Prog.Within.mono (n := 1) (Prog.Within.bind (m := 0) (fun _ => trivial) hf) (by omega)
  have hinstall {tmp : FsPath} {k : Except Fault Unit → Fs Unit} {n : Nat}
      (hok : k (.ok ()) = .ret ()) (herror : ∀ f, (k (.error f)).Within 2) :
      (Prog.call (.rename tmp path) k : Fs Unit).Within (n + 3) := by
    intro renamed
    cases renamed with
    | ok u =>
      have hret : k (.ok u) = .ret () := hok
      rw [hret]
      trivial
    | error f => exact (herror f).mono (by omega)
  unfold writeAtomic
  split
  · trivial
  · intro written
    cases written with
    | error f => exact hcleanup fun _ => trivial
    | ok u =>
      intro metadata
      cases metadata with
      | error f => exact hinstall rfl fun _ _ => hcleanup fun _ => Prog.within_ofExcept _ _
      | ok permissions =>
        intro copied
        cases copied with
        | error f => exact hcleanup fun _ => trivial
        | ok u => exact hinstall rfl fun _ _ => hcleanup fun _ => Prog.within_ofExcept _ _

theorem within_syncHosts {path : FsPath} {ip : Net.IpAddr} {names : List Bytes} :
    (syncHosts path ip names).Within 7 := by
  intro original
  cases original with
  | error f => trivial
  | ok original =>
    dsimp only
    split
    · trivial
    · exact Prog.Within.bind (m := 0) within_writeAtomic fun _ => trivial

theorem within_log (message : String) {n : Nat} : (Reload.log message).Within (n + 1) :=
  fun _ => trivial

theorem within_logged (message : String) (a : α) {n : Nat} :
    (do Reload.log message; return a : Reload α).Within (n + 1) := fun _ => trivial

theorem within_applyHosts : (applyHosts settings runtime).Within 8 := by
  unfold applyHosts
  split
  · trivial
  · refine Prog.Within.bind (n := 7) (m := 1) (Prog.Within.attempt (.lift within_syncHosts))
      fun result => ?_
    split
    · exact within_log _
    · exact within_log _
    · exact within_log _

theorem within_warnIgnoredRuntimeChanges (prev next : FileConfig) :
    (warnIgnoredRuntimeChanges prev next).Within 4 := by
  have hlogs (names : List String) : (names.forM fun setting =>
      Reload.log ("ignoring " ++ setting ++
        " change in reloaded config; restart to apply")).Within names.length := by
    induction names with
    | nil => trivial
    | cons name names ih =>
      rw [List.length_cons, Nat.add_comm]
      exact Prog.Within.bind (n := 1) (fun _ => trivial) fun _ => ih
  refine (hlogs _).mono ?_
  have hone (c : Prop) [Decidable c] (name : String) :
      (if c then [name] else []).length ≤ 1 := by
    split <;> simp
  unfold ignoredRuntimeChanges
  simp only [List.length_append]
  have h₁ := hone (prev.listen ≠ next.listen) "listen"
  have h₂ := hone (prev.http ≠ next.http) "http"
  have h₃ := hone (prev.hosts ≠ next.hosts) "hosts"
  have h₄ := hone (prev.refresh ≠ next.refresh) "refresh"
  omega

theorem within_reloadOnce (last : FileConfig) :
    (reloadOnce deserialize parseUrl hash settings last).Within 17 := by
  intro fetched
  cases fetched with
  | error e => cases e <;> exact within_logged _ _
  | ok text =>
    dsimp only [Prog.bind]
    split
    · exact within_logged _ _
    · refine Prog.Within.bind (n := 4) (m := 12) (within_warnIgnoredRuntimeChanges _ _) fun _ => ?_
      split
      · exact within_logged _ _
      · refine Prog.Within.bind (n := 1) (m := 11) (fun _ => trivial) fun published => ?_
        refine Prog.Within.bind (n := 8) (m := 3) within_applyHosts fun _ => ?_
        split
        · refine Prog.Within.bind (n := 1) (m := 2) (fun _ => trivial) fun sent => ?_
          cases sent with
          | ok u => exact within_logged _ _
          | error u => exact fun _ => within_logged _ _
        · exact within_logged _ _

/-! ## What the calls keep -/

theorem PollAnswer.prompt {c : WatchCall} {r : WatchReply c} (hc : c.Prompt)
    (h : PollAnswer served tolerance period lag c s r s') :
    s.now ≤ s'.now ∧ s'.now ≤ s.now + lag := by
  cases h with
  | fetch | created | tick => exact hc.elim
  | channel hnow hlag | borrow _ hnow hlag | send hnow hlag | quiet _ _ hnow hlag =>
    exact ⟨hnow, hlag⟩

/-- The interval and the runtime in force, and a time that has passed. -/
structure Polling.Holds (due : Option Nat) (runtime : Option Runtime) (since : Nat) (s : Polling) :
    Prop where
  due : s.due = due
  current : s.current = runtime
  since : since ≤ s.now

theorem Polling.Holds.quiet {runtime : Option Runtime} {c : WatchCall} {r : WatchReply c}
    (h : s.Holds due runtime since) (hc : c.Quiet)
    (hr : PollAnswer served tolerance period lag c s r s') : s'.Holds due runtime since := by
  cases hr with
  | quiet _ _ hnow => exact ⟨h.due, h.current, h.since.trans hnow⟩
  | fetch | created | tick | channel | borrow | send => exact hc.elim

theorem wp_holds {runtime : Option Runtime} {p : WatchProg α} (hp : p.Only WatchCall.Quiet)
    (h : s.Holds due runtime since) :
    wp (PollAnswer served tolerance period lag) (fun _ s' => s'.Holds due runtime since) p
      (fun _ s' => s'.Holds due runtime since) s :=
  wp_of_kept hp (fun _ _ _ h => h) (fun _ _ _ _ hc h hr => h.quiet hc hr) h

theorem Polling.Holds.later {runtime : Option Runtime} {now : Nat} (h : s.Holds due runtime since)
    (hnow : s.now ≤ now) : Polling.Holds due runtime since { s with now } :=
  ⟨h.due, h.current, h.since.trans hnow⟩

/-! ## A reload -/

/-- The time of a reload. -/
theorem wp_reloadTime (last : FileConfig) :
    wp (PollAnswer served tolerance period lag) (fun _ s' => s'.now ≤ s.now + reloadTime lag)
      (WatchProg.ofReload (reloadOnce deserialize parseUrl hash settings last))
      (fun _ s' => s'.now ≤ s.now + reloadTime lag) s := by
  have hwithin := @within_reloadOnce deserialize parseUrl hash settings last
  obtain ⟨k, hk, honly⟩ := @reloadOnce_eq_call deserialize parseUrl hash settings last
  rw [hk] at hwithin ⊢
  refine ⟨Nat.le_add_right _ _, fun fetched s₁ hr => ?_⟩
  have hfetch : s₁.now ≤ s.now + configFetchHardTimeout + lag := by
    cases hr with
    | fetch _ _ hlag => exact hlag
    | quiet _ hc => exact hc.elim
  have hprompt : (WatchProg.ofReload (k fetched)).Only WatchCall.Prompt := by
    refine Prog.Only.mapError (Prog.Only.lift (fun c hc => ?_) (honly fetched))
    cases c with
    | fetch => exact hc.elim
    | log | borrow | send | fs => trivial
  have hrest : (WatchProg.ofReload (k fetched)).Within 16 := (hwithin fetched).lift.mapError
  have hlater {s' : Polling} (h : s'.now ≤ s₁.now + 16 * lag) :
      s'.now ≤ s.now + reloadTime lag := by
    unfold reloadTime
    omega
  have hrun : wp (PollAnswer served tolerance period lag) (fun _ s' => s'.now ≤ s₁.now + 16 * lag)
      (WatchProg.ofReload (k fetched)) (fun _ s' => s'.now ≤ s₁.now + 16 * lag) s₁ :=
    wp_of_within Polling.now hprompt hrest fun _ _ _ _ hc hr => (PollAnswer.prompt hc hr).2
  exact (hrun.mono_invariant fun _ _ => hlater).mono fun _ _ => hlater

variable (deserialize parseUrl hash served) in
/-- At every point of a reload: the runtime in force stays, or it is that of an instant since. -/
def Polling.Reloading (due : Option Nat) (old : Runtime) (since : Nat) (s : Polling) : Prop :=
  ∃ runtime t, s.Holds due (some runtime) t ∧ since ≤ t ∧
    (runtime = old ∨ UpToDate deserialize parseUrl hash served t runtime)

variable (deserialize parseUrl hash served) in
/-- Behind a reload: the runtime in force is that of an instant since. -/
def Polling.Reloaded (due : Option Nat) (since : Nat) (s : Polling) : Prop :=
  ∃ runtime t, s.Holds due (some runtime) t ∧ since ≤ t ∧
    UpToDate deserialize parseUrl hash served t runtime

theorem wp_reloadCurrent (last : FileConfig) (h : s.Holds due (some old) since) :
    wp (fun call => PollAnswer served tolerance period lag (.reload call))
      (fun _ => Polling.Reloading deserialize parseUrl hash served due old since)
      (reloadOnce deserialize parseUrl hash settings last)
      (fun _ => Polling.Reloaded deserialize parseUrl hash served due since) s := by
  have hquiet {α : Type} {p : Reload α} {runtime : Runtime} {t : Nat} {s : Polling}
      (hp : p.Only ReloadCall.Quiet) (h : s.Holds due (some runtime) t) :
      wp (fun call => PollAnswer served tolerance period lag (.reload call))
        (fun _ s' => s'.Holds due (some runtime) t) p
        (fun _ s' => s'.Holds due (some runtime) t) s :=
    wp_of_kept hp (fun _ _ _ h => h) (fun c _ _ _ hc h hr => h.quiet (c := .reload c) hc hr) h
  refine wp_call_bind.mpr ⟨⟨old, since, h, le_rfl, .inl rfl⟩, fun fetched s₁ hr => ?_⟩
  cases hr with
  | quiet _ hc => exact hc.elim
  | @fetch _ t now hstart hend =>
    have h₁ : Polling.Holds due (some old) t { s with now } := ⟨h.due, h.current, hend⟩
    have hsince : since ≤ t := h.since.trans hstart
    -- behind the fetch
    have hstay {α : Type} {p : Reload α} {s : Polling} (hp : p.Only ReloadCall.Quiet)
        (h : s.Holds due (some old) t) :
        wp (fun call => PollAnswer served tolerance period lag (.reload call))
          (fun _ => Polling.Reloading deserialize parseUrl hash served due old since) p
          (fun _ s' => s'.Holds due (some old) t) s :=
      (hquiet hp h).mono_invariant fun _ _ h => ⟨old, t, h, hsince, .inl rfl⟩
    have hdone {message : String} {a : FileConfig} {runtime : Runtime} {s : Polling}
        (h : s.Holds due (some runtime) t)
        (hdate : UpToDate deserialize parseUrl hash served t runtime) :
        wp (fun call => PollAnswer served tolerance period lag (.reload call))
          (fun _ => Polling.Reloading deserialize parseUrl hash served due old since)
          (do Reload.log message; return a)
          (fun _ => Polling.Reloaded deserialize parseUrl hash served due since) s :=
      ((hquiet (quiet_logged message a) h).mono_invariant
        fun _ _ h => ⟨runtime, t, h, hsince, .inr hdate⟩).mono
        fun _ _ h => ⟨runtime, t, h, hsince, hdate⟩
    cases hserved : served t with
    | error e =>
      have hdate : UpToDate deserialize parseUrl hash served t old := by
        intro yaml fetched haccepted
        rw [hserved] at haccepted
        cases haccepted
      cases e <;> exact hdone h₁ hdate
    | ok text =>
      dsimp only
      cases hyaml : parseYaml deserialize text with
      | error e =>
        refine hdone h₁ fun yaml fetched haccepted => ?_
        rw [hserved] at haccepted
        cases hyaml.symm.trans (accepted_eq_some_iff.mp haccepted).1
      | ok yaml =>
        refine wp.bind ((hstay (quiet_warnIgnoredRuntimeChanges _ _) h₁).mono ?_)
        rintro (e | u) s₂ h₂
        · exact e.elim
        cases hruntime : Runtime.fromYaml parseUrl hash yaml with
        | error e =>
          refine hdone h₂ fun yaml' fetched haccepted => ?_
          rw [hserved] at haccepted
          obtain ⟨hyaml', hruntime'⟩ := accepted_eq_some_iff.mp haccepted
          obtain rfl := Except.ok.inj (hyaml.symm.trans hyaml')
          cases hruntime.symm.trans hruntime'
        | ok runtime =>
          have hdate {r : Runtime} (heq : r.fingerprint = runtime.fingerprint) :
              UpToDate deserialize parseUrl hash served t r := by
            intro yaml' fetched haccepted
            rw [hserved] at haccepted
            obtain ⟨hyaml', hruntime'⟩ := accepted_eq_some_iff.mp haccepted
            obtain rfl := Except.ok.inj (hyaml.symm.trans hyaml')
            obtain rfl := Except.ok.inj (hruntime.symm.trans hruntime')
            exact heq
          refine wp_call_bind.mpr ⟨⟨old, t, h₂, hsince, .inl rfl⟩, fun published s₃ hr => ?_⟩
          cases hr with
          | quiet _ hc => exact hc.elim
          | borrow hcurrent hnow =>
            obtain rfl := Option.some.inj (h₂.current.symm.trans hcurrent)
            have h₃ := h₂.later hnow
            refine wp.bind ((hstay (quiet_applyHosts _ _) h₃).mono ?_)
            rintro (e | u) s₄ h₄
            · exact e.elim
            dsimp only
            split
            · refine wp_call_bind.mpr ⟨⟨old, t, h₄, hsince, .inl rfl⟩, fun sent s₅ hr => ?_⟩
              cases hr with
              | quiet _ hc => exact hc.elim
              | send hnow => exact hdone ⟨h₄.due, rfl, h₄.since.trans hnow⟩ (hdate rfl)
            · next hsame => exact hdone h₄ (hdate (not_not.mp hsame))

/-- A reload, from its first call on. -/
theorem wp_reloadFresh (last : FileConfig) (h : s.Holds due (some old) since) :
    wp (PollAnswer served tolerance period lag)
      (fun _ s' => s'.now ≤ s.now + reloadTime lag ∧
        s'.Reloading deserialize parseUrl hash served due old since)
      (WatchProg.ofReload (reloadOnce deserialize parseUrl hash settings last))
      (fun r s' => (s'.now ≤ s.now + reloadTime lag ∧
        s'.Reloaded deserialize parseUrl hash served due since) ∧ ∃ yaml, r = .ok yaml) s := by
  have hcurrent : wp (PollAnswer served tolerance period lag)
      (fun _ => Polling.Reloading deserialize parseUrl hash served due old since)
      (WatchProg.ofReload (reloadOnce deserialize parseUrl hash settings last))
      (fun _ => Polling.Reloaded deserialize parseUrl hash served due since) s :=
    wp_watch (wp_reloadCurrent last h)
  exact ((wp_reloadTime last).and hcurrent).outcome (Prog.outcome_lift _ _ _)

/-! ## Polls -/

variable (deserialize parseUrl hash served period lag) in
/-- Between two polls: the runtime in force is that of an instant, a reload ago at most, and the
next poll is due a refresh after it is over. -/
structure Polling.Settled (runtime : Runtime) (t : Nat) (s : Polling) : Prop where
  current : s.current = some runtime
  since : t ≤ s.now
  soon : s.now ≤ t + reloadTime lag
  due : ∃ due, s.due = some due ∧ due ≤ t + reloadTime lag + period
  date : UpToDate deserialize parseUrl hash served t runtime

variable (deserialize parseUrl hash served period lag) in
/-- The loop invariant. -/
def FreshPlace (place : ReloadPlace) (s : Polling) : Prop :=
  match place with
  | .poll _ => ∃ runtime t, s.Settled deserialize parseUrl hash served period lag runtime t
  | .start | .receive _ | .drain _ => False

theorem Polling.Settled.recent
    (h : s.Settled deserialize parseUrl hash served period lag runtime t) :
    s.Recent deserialize parseUrl hash served period lag := by
  refine ⟨runtime, t, h.current, h.since, h.soon.trans ?_, h.date⟩
  unfold staleness
  omega

theorem wp_freshTurn {place : ReloadPlace}
    (h : FreshPlace deserialize parseUrl hash served period lag place s) :
    wp (PollAnswer served tolerance period lag)
      (fun _ => Polling.Recent deserialize parseUrl hash served period lag)
      (reloadTurn deserialize parseUrl hash defaultHostsPath cli source place)
      (Loop.post (FreshPlace deserialize parseUrl hash served period lag) fun _ _ => False) s := by
  cases place with
  | start | receive | drain => exact h.elim
  | poll self =>
    obtain ⟨runtime, t, h⟩ := h
    obtain ⟨due, hdue, hsoon⟩ := h.due
    refine wp_call_bind.mpr ⟨h.recent, fun _ s₁ hr => ?_⟩
    cases hr with
    | quiet _ hc => exact hc.elim
    | created hnone => cases hnone.symm.trans hdue
    | @tick _ _ now hdue' hnow hlate hlag =>
      obtain rfl := Option.some.inj (hdue.symm.trans hdue')
      have hnext := @Interval.next_le .delay tolerance period _ _ hlate
      have hpast := h.since
      have hhead := h.soon
      have hlatest : now ≤ t + reloadTime lag + period + lag := by omega
      have hheld : Polling.Holds (some (Interval.next .delay tolerance period due now))
          (some runtime) now
          { s with now, due := some (Interval.next .delay tolerance period due now) } :=
        ⟨rfl, h.current, le_rfl⟩
      refine wp.bind (((wp_reloadFresh self.lastYaml hheld).mono_invariant ?_).mono ?_)
      · rintro _ s' ⟨htime, r, t', hholds, ht', rfl | hdate⟩
        · -- the runtime is still the one before this poll
          refine ⟨r, t, hholds.current, ?_, ?_, h.date⟩
          · have := hholds.since
            omega
          · unfold staleness
            simp only at htime
            omega
        · refine ⟨r, t', hholds.current, hholds.since, ?_, hdate⟩
          unfold staleness
          simp only at htime
          omega
      · rintro _ s' ⟨⟨htime, r, t', hholds, ht', hdate⟩, yaml, rfl⟩
        simp only at htime
        have hsettled : s'.Settled deserialize parseUrl hash served period lag r t' :=
          ⟨hholds.current, hholds.since, by omega, ⟨_, hholds.due, by omega⟩, hdate⟩
        exact ⟨hsettled.recent, r, t', hsettled⟩

/-! ## The start -/

theorem within_bindListeners : (bindListeners settings).Within 2 := by
  have hbind (port : UInt16) : (bindListener settings.listen port).Within 1 := by
    intro bound
    cases bound <;> trivial
  refine Prog.Within.bind (n := 1) (m := 1) (hbind 443) fun _ => ?_
  split
  · exact hbind 80
  · trivial

theorem WatchCall.Quiet.prompt {c : WatchCall} (h : c.Quiet) : c.Prompt := by
  cases c with
  | reload call =>
    cases call with
    | fetch => exact h.elim
    | log | borrow | send | fs => trivial
  | tick => exact h.elim
  | canonicalize | bind | channel | newWatcher | watch | recv | tryRecv | sleep => trivial

variable (deserialize parseUrl hash served lag) in
/-- Behind the start: the runtime in force is that of an instant since then, a fetch ago at most. -/
def StartedFresh (url : Bytes) : Except Error (Runtime × ReloadLoop) → Polling → Prop
  | .ok (published, self), s => self.source = .url url ∧ ∃ t, s.Holds none (some published) t ∧
      s.now ≤ t + configFetchHardTimeout + 13 * lag ∧
      UpToDate deserialize parseUrl hash served t published
  | .error _, _ => True

/-- `main` behind its checks. -/
abbrev startRest (settings : StaticSettings) (runtime : Runtime) (self : ReloadLoop) :
    WatchProg (Runtime × ReloadLoop) := do
  bindListeners settings
  WatchProg.ofReload (applyHosts settings runtime)
  WatchProg.log "nyasniproxy started"
  Prog.call (.channel runtime) .ret
  return (runtime, self)

theorem prompt_startRest {self : ReloadLoop} :
    (startRest settings runtime self).Only WatchCall.Prompt := by
  have hquiet {α : Type} {p : WatchProg α} (hp : p.Only WatchCall.Quiet) :
      p.Only WatchCall.Prompt := hp.mono fun _ => WatchCall.Quiet.prompt
  refine (hquiet (quiet_bindListeners settings)).bind fun _ => ?_
  refine (hquiet (quiet_ofReload (quiet_applyHosts settings runtime))).bind fun _ => ?_
  exact ⟨trivial, fun _ => ⟨trivial, fun _ => trivial⟩⟩

theorem within_startRest {self : ReloadLoop} : (startRest settings runtime self).Within 12 := by
  refine Prog.Within.bind (n := 2) (m := 10) within_bindListeners fun _ => ?_
  refine Prog.Within.bind (n := 8) (m := 2) within_applyHosts.lift.mapError fun _ => ?_
  exact fun _ _ => trivial

theorem wp_startTime {self : ReloadLoop} :
    wp (PollAnswer served tolerance period lag) (fun _ s' => s'.now ≤ s.now + 12 * lag)
      (startRest settings runtime self) (fun _ s' => s'.now ≤ s.now + 12 * lag) s :=
  wp_of_within Polling.now prompt_startRest within_startRest
    fun _ _ _ _ hc hr => (PollAnswer.prompt hc hr).2

/-- The runtime is published at the end. -/
theorem wp_startRest {self : ReloadLoop} (h : s.Holds none none t) :
    wp (PollAnswer served tolerance period lag) (fun _ _ => True) (startRest settings runtime self)
      (fun r s' => ∀ p, r = .ok p → p = (runtime, self) ∧ s'.Holds none (some runtime) t) s := by
  have hquiet {p : WatchProg Unit} {f : Unit → WatchProg (Runtime × ReloadLoop)} {s : Polling}
      {Q : Except Error (Runtime × ReloadLoop) → Polling → Prop} (hp : p.Only WatchCall.Quiet)
      (h : s.Holds none none t) (hQ : ∀ e s, Q (.error e) s)
      (hf : ∀ s, s.Holds none none t →
        wp (PollAnswer served tolerance period lag) (fun _ _ => True) (f ()) Q s) :
      wp (PollAnswer served tolerance period lag) (fun _ _ => True) (p >>= f) Q s := by
    refine wp.bind (((wp_holds hp h).mono_invariant fun _ _ _ => trivial).mono ?_)
    rintro (e | u) s' h'
    · exact hQ e s'
    · exact hf s' h'
  refine hquiet (quiet_bindListeners settings) h (fun _ _ _ => nofun) fun s₁ h₁ => ?_
  refine hquiet (quiet_ofReload (quiet_applyHosts settings runtime)) h₁ (fun _ _ _ => nofun)
    fun s₂ h₂ => ?_
  refine hquiet (p := WatchProg.log _) ⟨trivial, fun _ => trivial⟩ h₂ (fun _ _ _ => nofun)
    fun s₃ h₃ => wp_call_bind.mpr ⟨trivial, fun _ s₄ hr => ⟨trivial, ?_⟩⟩
  rintro p ⟨⟩
  cases hr with
  | quiet _ hc => exact hc.elim
  | channel hnow => exact ⟨rfl, h₃.due, rfl, h₃.since.trans hnow⟩

theorem wp_startMain {url : Bytes} {start : Nat} :
    wp (PollAnswer served tolerance period lag) (fun _ _ => True)
      (startMain deserialize parseUrl hash defaultHostsPath cli (.url url))
      (StartedFresh deserialize parseUrl hash served lag url) ⟨start, none, none⟩ := by
  refine wp_call_bind.mpr ⟨trivial, fun fetched s₁ hr => ?_⟩
  cases hr with
  | quiet _ hc => exact hc.elim
  | @fetch _ t now hstart hend hlag =>
    have hfail (e : Error) {s : Polling} : wp (PollAnswer served tolerance period lag)
        (fun _ _ => True) (.fail e) (StartedFresh deserialize parseUrl hash served lag url) s :=
      ⟨trivial, trivial⟩
    cases hserved : served t with
    | error e => exact hfail _
    | ok text =>
      refine wp_ofExcept_bind (fun yaml hyaml => ?_) fun e => hfail e
      refine wp_ofExcept_bind (fun settings hsettings => ?_) fun e => hfail e
      refine wp_ofExcept_bind (fun runtime hruntime => ?_) fun e => hfail e
      have haccepted := accepted_eq_some_iff.mpr ⟨hyaml, hruntime⟩
      have hheld : Polling.Holds none none t (⟨now, none, none⟩ : Polling) := ⟨rfl, rfl, hend⟩
      refine ((wp_startTime.and (wp_startRest hheld)).mono_invariant fun _ _ _ => trivial).mono ?_
      rintro (e | ⟨published, self⟩) s₂ ⟨htime, hdone⟩
      · trivial
      · obtain ⟨heq, hholds⟩ := hdone _ rfl
        obtain ⟨rfl, rfl⟩ := Prod.mk.inj heq
        refine ⟨rfl, t, hholds, ?_, fun yaml' fetched h => ?_⟩
        · simp only at htime hstart hlag
          omega
        · rw [hserved] at h
          obtain ⟨-, rfl⟩ := Prod.mk.inj (Option.some.inj (haccepted.symm.trans h))
          rfl

/-! ## The program -/

theorem wp_pollFresh {self : ReloadLoop} (h : s.Holds none (some runtime) t)
    (hsoon : s.now ≤ t + configFetchHardTimeout + 13 * lag)
    (hdate : UpToDate deserialize parseUrl hash served t runtime) :
    wp (PollAnswer served tolerance period lag)
      (fun _ => Polling.Recent deserialize parseUrl hash served period lag) (pollSource self)
      (Loop.post (FreshPlace deserialize parseUrl hash served period lag) fun _ _ => False) s := by
  have hrecent : s.Recent deserialize parseUrl hash served period lag := by
    refine ⟨runtime, t, h.current, h.since, ?_, hdate⟩
    unfold staleness reloadTime
    omega
  refine wp_call_bind.mpr ⟨hrecent, fun _ s₁ hr => ?_⟩
  cases hr with
  | quiet _ hc => exact hc.elim
  | tick hdue => cases h.due.symm.trans hdue
  | @created _ now _ hnow hlag =>
    have hnext := @Interval.next_le .delay tolerance period _ _ hnow
    have htime : now ≤ t + reloadTime lag := by
      unfold reloadTime
      omega
    have hsettled : Polling.Settled deserialize parseUrl hash served period lag runtime t
        { s with now, due := some (Interval.next .delay tolerance period s.now now) } :=
      ⟨h.current, h.since.trans hnow, htime, ⟨_, rfl, by omega⟩, hdate⟩
    exact ⟨hsettled.recent, runtime, t, hsettled⟩

/-- From the start of `main` on, with a configuration that is polled from a URL: at every point of
every run of the reload loop, the runtime in force is that of an instant which is not longer ago
than a refresh, two reloads and the lag of a tick. -/
theorem polls_fresh (served : Nat → Except FetchError Bytes) (tolerance lag start : Nat)
    (url : Bytes) (published : Runtime) (self : ReloadLoop) (s : Polling)
    (hmain : Ends (PollAnswer served tolerance self.settings.period lag)
      (startMain deserialize parseUrl hash defaultHostsPath cli (.url url)) ⟨start, none, none⟩
      (.ok (published, self)) s)
    (c : WatchProg (Next ReloadPlace Unit) × Polling)
    (h : Loop.Reaches (PollAnswer served tolerance self.settings.period lag)
      (reloadTurn deserialize parseUrl hash defaultHostsPath cli (.url url))
      (runReloadLoop self, s) c) :
    c.2.Recent deserialize parseUrl hash served self.settings.period lag := by
  obtain ⟨hsource, t, hholds, hsoon, hdate⟩ := wp_startMain.ends hmain
  have hpoll : runReloadLoop self = pollSource self := by
    unfold runReloadLoop
    rw [hsource]
  rw [hpoll] at h
  exact (Loop.reaches (fun _ _ => wp_freshTurn) (wp_pollFresh hholds hsoon hdate) h).invariant

/-- The content changes behind the first fetch. The second fetch is a refresh later, and then the
new content is in force. -/
theorem polls_fresh_second : ∃ (s : Polling) (runtime : Runtime), s.now = 30000 * nsPerMs ∧
    s.current = some runtime ∧
    accepted defaultDeserialize sampleUrl sampleHash (.ok (defaultText "us")) =
      some (defaultYaml (ascii "us") us_ne_nil, runtime) ∧
    s.Recent defaultDeserialize sampleUrl sampleHash
      (fun t => .ok (if t = 0 then defaultText "jp" else defaultText "us")) (30000 * nsPerMs)
      0 := by
  let served (t : Nat) : Except FetchError Bytes :=
    .ok (if t = 0 then defaultText "jp" else defaultText "us")
  obtain ⟨period, hthirty⟩ : ∃ period, period = 30000 * nsPerMs := ⟨_, rfl⟩
  let url := ascii "http://127.0.0.1/config.yaml"
  obtain ⟨runtime, haccepted⟩ := accepted_jp
  obtain ⟨runtime', haccepted'⟩ := accepted_us
  obtain ⟨hyaml, hruntime⟩ := accepted_eq_some_iff.mp haccepted
  obtain ⟨hyaml', hruntime'⟩ := accepted_eq_some_iff.mp haccepted'
  obtain ⟨settings, hsettings, hhttp, hhosts, hperiod⟩ : ∃ settings,
      mergeSettings hostsFile (defaultYaml (ascii "jp") jp_ne_nil) sampleCli = .ok settings ∧
        settings.http = false ∧ settings.hostsPath = none ∧ settings.period = 30000 * nsPerMs :=
    ⟨_, rfl, rfl, rfl, by decide⟩
  let self : ReloadLoop := ⟨.url url, settings, defaultYaml (ascii "jp") jp_ne_nil⟩
  let E := PollAnswer served 0 period 0
  have hquiet {c : WatchCall} (r : WatchReply c) (hc : c.Quiet) (s : Polling) :
      Ends E (.call c .ret : WatchProg _) s (.ok r) s := .call (.quiet r hc le_rfl le_rfl) .refl
  have happly (runtime : Runtime) (s : Polling) :
      Ends (fun call => E (.reload call)) (applyHosts settings runtime) s (.ok ()) s := by
    unfold applyHosts
    rw [hhosts]
    exact .refl
  have hmain : Ends E (startMain defaultDeserialize sampleUrl sampleHash hostsFile sampleCli
      (.url url)) ⟨0, none, none⟩ (.ok (runtime, self)) ⟨0, none, some runtime⟩ := by
    have hfetch : Ends E (.call (.reload .fetch) .ret : WatchProg _) ⟨0, none, none⟩
        (.ok (.ok (defaultText "jp"))) ⟨0, none, none⟩ :=
      .call (.fetch le_rfl le_rfl (Nat.zero_le _)) .refl
    have hbind : Ends E (bindListeners settings) ⟨0, none, none⟩ (.ok ()) ⟨0, none, none⟩ := by
      unfold bindListeners bindListener
      rw [hhttp]
      exact .bind (.bind (@hquiet (.bind settings.listen 443) (.ok ()) trivial _) .refl) .refl
    refine .bind hfetch ?_
    simp only [hyaml, hruntime, hsettings, Prog.ofExcept, Prog.ret_bind]
    refine .bind (.ret _ _) (.bind hbind (.bind (ends_watch (happly runtime _)) ?_))
    refine .bind (@hquiet (.reload (.log _)) () trivial _) ?_
    exact .bind (.call (.channel le_rfl le_rfl) .refl) .refl
  have hfirst : Ends E (pollSource self) ⟨0, none, some runtime⟩ (.ok (.again (.poll self)))
      ⟨0, some (Interval.next .delay 0 period 0 0), some runtime⟩ :=
    .bind (.call (.created rfl le_rfl le_rfl) .refl) .refl
  have hreload {due : Option Nat} : Ends (fun call => E (.reload call))
      (reloadOnce defaultDeserialize sampleUrl sampleHash settings self.lastYaml)
      ⟨period, due, some runtime⟩ (.ok (defaultYaml (ascii "us") us_ne_nil))
      ⟨period, due, some runtime'⟩ := by
    have hfetch : Ends (fun call => E (.reload call)) (.call .fetch .ret : Reload _)
        ⟨period, due, some runtime⟩ (.ok (.ok (defaultText "us"))) ⟨period, due, some runtime⟩ := by
      have hserved : served period = .ok (defaultText "us") :=
        congrArg Except.ok (if_neg (by rw [hthirty]; decide))
      rw [← hserved]
      exact .call (.fetch le_rfl le_rfl (Nat.le_add_right _ _)) .refl
    have hchanged : runtime.fingerprint ≠ runtime'.fingerprint := by
      obtain ⟨-, rfl⟩ := fromYaml_eq_ok.mp hruntime
      obtain ⟨-, rfl⟩ := fromYaml_eq_ok.mp hruntime'
      decide +kernel
    have hnone : ignoredRuntimeChanges (defaultYaml (ascii "jp") jp_ne_nil)
        (defaultYaml (ascii "us") us_ne_nil) = [] := rfl
    refine .bind hfetch ?_
    simp only [hyaml', hruntime', warnIgnoredRuntimeChanges, self, hnone]
    refine .bind (.ret _ _) (.bind (.call (.borrow rfl le_rfl le_rfl) .refl) ?_)
    refine .bind (happly runtime' _) ?_
    rw [if_pos hchanged]
    refine .bind (.call (.send le_rfl le_rfl) .refl) ?_
    exact .bind (.call (.quiet () trivial le_rfl le_rfl) .refl) .refl
  have hnext : Interval.next .delay 0 period 0 0 = period := by simp [Interval.next]
  rw [hnext] at hfirst
  have htick : E .tick ⟨0, some period, some runtime⟩ ()
      ⟨period, some (Interval.next .delay 0 period period period), some runtime⟩ :=
    .tick rfl (Nat.zero_le _) le_rfl (by simp)
  have hturn : Ends E (reloadTurn defaultDeserialize sampleUrl sampleHash hostsFile sampleCli
      (.url url) (.poll self)) ⟨0, some period, some runtime⟩
      (.ok (.again (.poll { self with lastYaml := defaultYaml (ascii "us") us_ne_nil })))
      ⟨period, some (Interval.next .delay 0 period period period), some runtime'⟩ :=
    .bind (.call htick .refl) (.bind (ends_watch hreload) .refl)
  have hrun := (Loop.reaches_again hfirst).trans (Loop.reaches_of_reaches hturn)
  have hfresh := @polls_fresh defaultDeserialize sampleUrl sampleHash hostsFile sampleCli served 0 0
    0 url runtime self ⟨0, none, some runtime⟩
  have hself : self.settings.period = period := hperiod.trans hthirty.symm
  rw [hself] at hfresh
  have hrecent := hfresh hmain _ hrun
  rw [hthirty] at hrecent
  exact ⟨_, runtime', rfl, rfl, haccepted', hrecent⟩

end Freshness

end NyaSniProxy
