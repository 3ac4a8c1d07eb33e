import NyaSniProxy.Library.Pool
import NyaSniProxy.Reload

/-!
# Fetches in flight

The calls of `fetchWithHardTimeout` share one `InFlightFetches` and run side by side. A call has a
caller, a thread that the caller spawns, and a channel of its own between the two. `FetchStep` is
one atomic step of one call: the guard moves from the caller into the closure of the thread, and the
thread drops it when it ends, whether the caller still waits or not.

A call carries the history of what happened to its guard and to its fetch. Nothing reads it but
the statements about it.
-/

namespace NyaSniProxy

open Text

/-- The slots of the fetches, with a counter of the width of `usize`. -/
structure InFlightFetches (width : Nat) where
  current : BitVec width
  max : BitVec width

namespace InFlightFetches

variable {width : Nat}

def new (max : BitVec width) : InFlightFetches width := ⟨0, max⟩

/-- `fetch_add` as the exchange of `cur` for `cur + 1` does it. -/
def add (self : InFlightFetches width) : InFlightFetches width :=
  { self with current := self.current + 1 }

/-- The drop of a guard: `fetch_sub`, which wraps. -/
def sub (self : InFlightFetches width) : InFlightFetches width :=
  { self with current := self.current - 1 }

end InFlightFetches

/-- Where a caller stands: in the loop of `try_acquire`, before `count`, before the spawn, in the
drop of a closure that could not be spawned, at the channel, or behind its return. -/
inductive Caller (width : Nat) where
  | load
  | compareExchange (cur : BitVec width)
  | count
  | spawn
  | unspawned (f : Fault)
  | waiting
  | returned (result : Except FetchError Bytes)

/-- Where a thread stands. A panic unwinds it: the guard is dropped first, then the sender. -/
inductive FetchThread where
  | unborn
  | fetching
  | sending (result : Except Error Bytes)
  | sent
  | unwinding
  | closing
  | ended

inductive Oneshot where
  | empty
  | value (result : Except Error Bytes)
  | closed

inductive FetchEvent where
  | acquire
  | start
  | produce (result : Except Error Bytes)
  | release
  deriving DecidableEq

/-- A call of `fetch_with_hard_timeout`. The latest event comes first. -/
structure FetchCall (width : Nat) where
  caller : Caller width
  thread : FetchThread
  channel : Oneshot
  history : List FetchEvent

namespace FetchCall

variable {width : Nat}

def new : FetchCall width := ⟨.load, .unborn, .empty, []⟩

/-- The guards of the call that are not dropped yet. -/
def guards (c : FetchCall width) : Nat :=
  c.history.count .acquire - c.history.count .release

end FetchCall

/-- What the call returns for what the channel gave. -/
def fetchResult : Except Error Bytes → Except FetchError Bytes
  | .ok text => .ok text
  | .error e => .error (.failed e)

theorem fetchResult_ne_inFlight {result : Except Error Bytes} {n : Nat} :
    fetchResult result ≠ .error (.inFlight n) := by
  cases result <;> simp [fetchResult]

theorem fetchResult_eq_ok {result : Except Error Bytes} {text : Bytes}
    (h : fetchResult result = .ok text) : result = .ok text := by
  cases result with
  | ok text' => simpa [fetchResult] using h
  | error e => simp [fetchResult] at h

/-- The atomic steps of a call. -/
inductive FetchStep {width : Nat} :
    InFlightFetches width → FetchCall width → InFlightFetches width → FetchCall width → Prop where
  | loadFull {s t ch es} : s.max ≤ s.current →
      FetchStep s ⟨.load, t, ch, es⟩ s ⟨.count, t, ch, es⟩
  | loadFree {s t ch es} : ¬ s.max ≤ s.current →
      FetchStep s ⟨.load, t, ch, es⟩ s ⟨.compareExchange s.current, t, ch, es⟩
  | exchanged {s t ch es} :
      FetchStep s ⟨.compareExchange s.current, t, ch, es⟩ s.add ⟨.spawn, t, ch, .acquire :: es⟩
  | notExchanged {s cur t ch es} : cur ≠ s.current →
      FetchStep s ⟨.compareExchange cur, t, ch, es⟩ s ⟨.load, t, ch, es⟩
  | counted {s t ch es} : FetchStep s ⟨.count, t, ch, es⟩ s
      ⟨.returned (.error (.inFlight s.current.toNat)), t, ch, es⟩
  | spawned {s t ch es} :
      FetchStep s ⟨.spawn, t, ch, es⟩ s ⟨.waiting, .fetching, ch, .start :: es⟩
  | spawnFailed {s t ch es f} : FetchStep s ⟨.spawn, t, ch, es⟩ s ⟨.unspawned f, t, ch, es⟩
  | unspawned {s t ch es f} : FetchStep s ⟨.unspawned f, t, ch, es⟩ s.sub
      ⟨.returned (.error (.threadSpawn f)), t, ch, .release :: es⟩
  | fetched {s c ch es} (result) : FetchStep s ⟨c, .fetching, ch, es⟩ s
      ⟨c, .sending result, ch, .produce result :: es⟩
  | panicked {s c ch es} : FetchStep s ⟨c, .fetching, ch, es⟩ s ⟨c, .unwinding, ch, es⟩
  | sent {s result ch es} : FetchStep s ⟨.waiting, .sending result, ch, es⟩ s
      ⟨.waiting, .sent, .value result, es⟩
  | abandoned {s answer result ch es} : FetchStep s ⟨.returned answer, .sending result, ch, es⟩ s
      ⟨.returned answer, .sent, ch, es⟩
  | dropped {s c ch es} : FetchStep s ⟨c, .sent, ch, es⟩ s.sub ⟨c, .ended, ch, .release :: es⟩
  | unwound {s c ch es} : FetchStep s ⟨c, .unwinding, ch, es⟩ s.sub
      ⟨c, .closing, ch, .release :: es⟩
  | closed {s c ch es} : FetchStep s ⟨c, .closing, ch, es⟩ s ⟨c, .ended, .closed, es⟩
  | received {s t result es} : FetchStep s ⟨.waiting, t, .value result, es⟩ s
      ⟨.returned (fetchResult result), t, .value result, es⟩
  | hungUp {s t es} : FetchStep s ⟨.waiting, t, .closed, es⟩ s
      ⟨.returned (.error .threadDropped), t, .closed, es⟩
  | timedOut {s t ch es} : FetchStep s ⟨.waiting, t, ch, es⟩ s
      ⟨.returned (.error .timedOut), t, ch, es⟩

/-- The calls that share slots with this maximum. -/
abbrev FetchPool.Reachable {width : Nat} (max : BitVec width) :
    Pool (InFlightFetches width) (FetchCall width) → Prop :=
  Pool.Reachable FetchCall.new FetchStep (.new max)

/-! ## The history of a call -/

namespace FetchCall

variable {width : Nat}

/-- The thread, the channel and the history from the spawn on. -/
def Threaded : FetchThread → Oneshot → List FetchEvent → Prop
  | .unborn, _, _ => False
  | .fetching, ch, es => ch = .empty ∧ es = [.start, .acquire]
  | .sending result, ch, es => ch = .empty ∧ es = [.produce result, .start, .acquire]
  | .sent, ch, es => ∃ result, (ch = .empty ∨ ch = .value result) ∧
      es = [.produce result, .start, .acquire]
  | .unwinding, ch, es => ch = .empty ∧ es = [.start, .acquire]
  | .closing, ch, es => ch = .empty ∧ es = [.release, .start, .acquire]
  | .ended, ch, es => (ch = .closed ∧ es = [.release, .start, .acquire]) ∨
      ∃ result, (ch = .empty ∨ ch = .value result) ∧
        es = [.release, .produce result, .start, .acquire]

/-- The history of a call is told by where its caller and its thread stand. -/
def Traced (max : BitVec width) : FetchCall width → Prop
  | ⟨.load, t, ch, es⟩ | ⟨.count, t, ch, es⟩ => t = .unborn ∧ ch = .empty ∧ es = []
  | ⟨.compareExchange cur, t, ch, es⟩ => t = .unborn ∧ ch = .empty ∧ es = [] ∧ ¬ max ≤ cur
  | ⟨.spawn, t, ch, es⟩ | ⟨.unspawned _, t, ch, es⟩ =>
    t = .unborn ∧ ch = .empty ∧ es = [.acquire]
  | ⟨.waiting, t, ch, es⟩ => Threaded t ch es
  | ⟨.returned result, t, ch, es⟩ =>
    (t = .unborn ∧ es = [] ∧ ∃ n, result = .error (.inFlight n)) ∨
    (t = .unborn ∧ es = [.release, .acquire] ∧ ∃ f, result = .error (.threadSpawn f)) ∨
    (Threaded t ch es ∧ (∀ n, result ≠ .error (.inFlight n)) ∧
      ∀ text, result = .ok text → .produce (.ok text) ∈ es)

end FetchCall

/-- What the slots promise: they are never more than the maximum. -/
def InFlightFetches.Bounded {width : Nat} (max : BitVec width) (s : InFlightFetches width) : Prop :=
  s.max = max ∧ s.current ≤ max

section Steps

variable {width : Nat} {max : BitVec width} {s s' : InFlightFetches width}
  {c c' : FetchCall width}

theorem toNat_one {b : BitVec width} (h : 1 ≤ b.toNat) : (1 : BitVec width).toNat = 1 := by
  have hlt := b.isLt
  have hmod : (1 : BitVec width).toNat = 1 % 2 ^ width := BitVec.toNat_ofNat 1 width
  rw [hmod, Nat.mod_eq_of_lt (by omega)]

theorem toNat_add (h : ¬ s.max ≤ s.current) : s.add.current.toNat = s.current.toNat + 1 := by
  have hlt := s.max.isLt
  have hfree : s.current.toNat < s.max.toNat := BitVec.not_le.mp h
  have hone := toNat_one (show 1 ≤ s.max.toNat by omega)
  rw [InFlightFetches.add, BitVec.toNat_add_of_lt (by omega), hone]

theorem toNat_sub (h : 1 ≤ s.current.toNat) : s.sub.current.toNat + 1 = s.current.toNat := by
  have hone := toNat_one h
  rw [InFlightFetches.sub, BitVec.toNat_sub_of_le (BitVec.le_def.mpr (by omega)), hone]
  omega

section Threads

variable {caller : Caller width} {t t' : FetchThread} {ch ch' : Oneshot} {es es' : List FetchEvent}

theorem FetchCall.Traced.threaded (h : FetchCall.Traced max ⟨caller, t, ch, es⟩)
    (ht : t ≠ .unborn) : FetchCall.Threaded t ch es := by
  cases caller with
  | load | compareExchange cur | count | spawn | unspawned f => exact absurd h.1 ht
  | waiting => exact h
  | returned result =>
    obtain ⟨hborn, -⟩ | ⟨hborn, -⟩ | ⟨hthreaded, -⟩ := h
    · exact absurd hborn ht
    · exact absurd hborn ht
    · exact hthreaded

/-- The thread goes on, whatever the caller does. -/
theorem FetchCall.Traced.advance (h : FetchCall.Traced max ⟨caller, t, ch, es⟩)
    (ht : t ≠ .unborn) (h' : FetchCall.Threaded t' ch' es') (hes : es ⊆ es') :
    FetchCall.Traced max ⟨caller, t', ch', es'⟩ := by
  cases caller with
  | load | compareExchange cur | count | spawn | unspawned f => exact absurd h.1 ht
  | waiting => exact h'
  | returned result =>
    obtain ⟨hborn, -⟩ | ⟨hborn, -⟩ | ⟨-, hother, hown⟩ := h
    · exact absurd hborn ht
    · exact absurd hborn ht
    · exact .inr (.inr ⟨h', hother, fun text htext => hes (hown text htext)⟩)

theorem threaded_value {result : Except Error Bytes} (h : FetchCall.Threaded t (.value result) es) :
    .produce result ∈ es := by
  cases t with
  | unborn => exact h.elim
  | fetching | sending result' | unwinding | closing => exact absurd h.1 nofun
  | sent =>
    obtain ⟨result', hch | hch, rfl⟩ := h
    · cases hch
    · cases hch
      simp
  | ended =>
    obtain ⟨hch, -⟩ | ⟨result', hch | hch, rfl⟩ := h
    · cases hch
    · cases hch
    · cases hch
      simp

end Threads

/-- A guard is dropped. -/
theorem InFlightFetches.Bounded.sub (hs : s.Bounded max) (h : 1 ≤ s.current.toNat) :
    s.sub.Bounded max := by
  have hsub := toNat_sub h
  refine ⟨hs.1, BitVec.le_def.mpr ?_⟩
  have hle := BitVec.le_def.mp hs.2
  omega

/-- A step keeps what the state says about the history, and the counter and the guards of the call
change alike. -/
theorem traced_step (h : FetchStep s c s' c') (hs : s.Bounded max) (hc : c.Traced max)
    (hheld : c.guards ≤ s.current.toNat) : s'.Bounded max ∧ c'.Traced max ∧
      s'.current.toNat + c.guards = s.current.toNat + c'.guards := by
  cases h with
  | loadFull hfull => exact ⟨hs, hc, rfl⟩
  | loadFree hfree => exact ⟨hs, ⟨hc.1, hc.2.1, hc.2.2, hs.1 ▸ hfree⟩, rfl⟩
  | exchanged =>
    obtain ⟨rfl, rfl, rfl, hfree⟩ := hc
    have hadd := toNat_add (hs.1 ▸ hfree)
    have hlt := BitVec.not_le.mp hfree
    refine ⟨⟨hs.1, ?_⟩, ⟨rfl, rfl, rfl⟩, hadd⟩
    rw [BitVec.le_def, hadd]
    exact BitVec.lt_def.mp hlt
  | notExchanged hne => exact ⟨hs, ⟨hc.1, hc.2.1, hc.2.2.1⟩, rfl⟩
  | counted => exact ⟨hs, .inl ⟨hc.1, hc.2.2, _, rfl⟩, rfl⟩
  | spawned =>
    obtain ⟨rfl, rfl, rfl⟩ := hc
    exact ⟨hs, ⟨rfl, rfl⟩, rfl⟩
  | spawnFailed => exact ⟨hs, hc, rfl⟩
  | unspawned =>
    obtain ⟨rfl, rfl, rfl⟩ := hc
    exact ⟨hs.sub hheld, .inr (.inl ⟨rfl, rfl, _, rfl⟩), toNat_sub hheld⟩
  | fetched result =>
    obtain ⟨rfl, rfl⟩ := hc.threaded nofun
    exact ⟨hs, hc.advance nofun ⟨rfl, rfl⟩ (by simp), rfl⟩
  | panicked =>
    obtain ⟨rfl, rfl⟩ := hc.threaded nofun
    exact ⟨hs, hc.advance nofun ⟨rfl, rfl⟩ (by simp), rfl⟩
  | sent =>
    obtain ⟨rfl, rfl⟩ := hc.threaded nofun
    exact ⟨hs, hc.advance nofun ⟨_, .inr rfl, rfl⟩ (by simp), rfl⟩
  | abandoned =>
    obtain ⟨rfl, rfl⟩ := hc.threaded nofun
    exact ⟨hs, hc.advance nofun ⟨_, .inl rfl, rfl⟩ (by simp), rfl⟩
  | dropped =>
    obtain ⟨result, hch, rfl⟩ := hc.threaded nofun
    exact ⟨hs.sub hheld, hc.advance nofun (.inr ⟨result, hch, rfl⟩) (by simp), toNat_sub hheld⟩
  | unwound =>
    obtain ⟨rfl, rfl⟩ := hc.threaded nofun
    exact ⟨hs.sub hheld, hc.advance nofun ⟨rfl, rfl⟩ (by simp), toNat_sub hheld⟩
  | closed =>
    obtain ⟨rfl, rfl⟩ := hc.threaded nofun
    exact ⟨hs, hc.advance nofun (.inl ⟨rfl, rfl⟩) (by simp), rfl⟩
  | received =>
    refine ⟨hs, .inr (.inr ⟨hc, fun n => fetchResult_ne_inFlight, fun text htext => ?_⟩), rfl⟩
    obtain rfl := fetchResult_eq_ok htext
    exact threaded_value hc
  | hungUp => exact ⟨hs, .inr (.inr ⟨hc, nofun, nofun⟩), rfl⟩
  | timedOut => exact ⟨hs, .inr (.inr ⟨hc, nofun, nofun⟩), rfl⟩

end Steps

/-! ## The accounts -/

/-- The thread has the guard. -/
def FetchThread.HasGuard : FetchThread → Prop
  | fetching | sending _ | sent | unwinding => True
  | unborn | closing | ended => False

/-- The accounts of a call: its guard is released once, and not before its thread ends, a call that
answers `InFlight` has started no fetch, and a text it returns is the one its thread produced. -/
structure FetchCall.Accounted {width : Nat} (c : FetchCall width) : Prop where
  once : c.history.count .release ≤ c.history.count .acquire ∧ c.history.count .acquire ≤ 1
  finished : (∃ result, c.caller = .returned result) → c.thread = .unborn ∨ c.thread = .ended →
    c.history.count .release = c.history.count .acquire
  taken : c.thread.HasGuard → c.history.count .acquire = 1 ∧ c.history.count .release = 0
  inFlight : ∀ n, c.caller = .returned (.error (.inFlight n)) → .start ∉ c.history
  own : ∀ text, c.caller = .returned (.ok text) → .produce (.ok text) ∈ c.history

section Accounts

variable {width : Nat} {max : BitVec width}

theorem threaded_accounts {t : FetchThread} {ch : Oneshot} {es : List FetchEvent}
    (h : FetchCall.Threaded t ch es) :
    es.count .acquire = 1 ∧ es.count .release ≤ 1 ∧ (t = .ended → es.count .release = 1) ∧
      (t.HasGuard → es.count .release = 0) := by
  cases t with
  | unborn => exact h.elim
  | fetching | sending result | unwinding | closing =>
    obtain ⟨-, rfl⟩ := h
    simp [FetchThread.HasGuard]
  | sent =>
    obtain ⟨result, -, rfl⟩ := h
    simp
  | ended =>
    obtain ⟨-, rfl⟩ | ⟨result, -, rfl⟩ := h
    all_goals simp [FetchThread.HasGuard]

theorem FetchCall.Traced.accounted {c : FetchCall width} (h : c.Traced max) : c.Accounted := by
  obtain ⟨caller, t, ch, es⟩ := c
  cases caller with
  | load | count | spawn | unspawned f =>
    obtain ⟨rfl, rfl, rfl⟩ := h
    constructor <;> simp [FetchThread.HasGuard]
  | compareExchange cur =>
    obtain ⟨rfl, rfl, rfl, -⟩ := h
    constructor <;> simp [FetchThread.HasGuard]
  | waiting =>
    obtain ⟨hacquire, hrelease, hended, hguard⟩ := threaded_accounts h
    refine ⟨⟨hrelease.trans hacquire.ge, hacquire.le⟩, fun hover => ?_,
      fun ht => ⟨hacquire, hguard ht⟩, nofun, nofun⟩
    obtain ⟨result, hcaller⟩ := hover
    cases hcaller
  | returned result =>
    obtain ⟨rfl, rfl, n, rfl⟩ | ⟨rfl, rfl, f, rfl⟩ | ⟨hthreaded, hother, hown⟩ := h
    · constructor <;> simp [FetchThread.HasGuard]
    · constructor <;> simp [FetchThread.HasGuard]
    · obtain ⟨hacquire, hrelease, hended, hguard⟩ := threaded_accounts hthreaded
      refine ⟨⟨hrelease.trans hacquire.ge, hacquire.le⟩, fun _ hthread => ?_,
        fun ht => ⟨hacquire, hguard ht⟩, fun n hn => ?_, fun text htext => ?_⟩
      · obtain rfl | hthread := hthread
        · exact hthreaded.elim
        · exact (hended hthread).trans hacquire.symm
      · cases hn
        exact absurd rfl (hother n)
      · cases htext
        exact hown text rfl

/-- For every run of any number of calls, the counter is the number of guards that are not dropped,
and it stays between zero and the maximum. -/
theorem fetches_accounted {p : Pool (InFlightFetches width) (FetchCall width)}
    (h : FetchPool.Reachable max p) :
    p.shared.current.toNat = (p.parts.map FetchCall.guards).sum ∧ p.shared.current ≤ max ∧
      (∀ c ∈ p.parts, 0 < c.guards → 0 < p.shared.current.toNat) ∧
      ∀ c ∈ p.parts, c.Accounted := by
  have hnew : (InFlightFetches.new max).Bounded max :=
    ⟨rfl, BitVec.le_def.mpr (by simp [InFlightFetches.new])⟩
  have hempty : (InFlightFetches.new max).current.toNat = 0 := by simp [InFlightFetches.new]
  obtain ⟨hshared, hparts, hsum⟩ := @Pool.conserved _ _ _ _ (FetchCall.Traced max)
    (InFlightFetches.Bounded max) (fun s => s.current.toNat) FetchCall.guards _ hempty rfl hnew
    (show FetchCall.new.Traced max from ⟨rfl, rfl, rfl⟩) (fun _ _ _ _ => traced_step) p h
  refine ⟨hsum, hshared.2, fun c hc hpos => ?_, fun c hc => (hparts c hc).accounted⟩
  rw [hsum, List.sum_pos_iff_exists_pos_nat]
  exact ⟨c.guards, List.mem_map_of_mem hc, hpos⟩

/-- A call that timed out while its thread still fetches. -/
def timedOutCall : FetchCall 64 :=
  ⟨.returned (.error .timedOut), .fetching, .empty, [.start, .acquire]⟩

theorem timedOutCall_reachable : FetchPool.Reachable (2 : BitVec 64) ⟨⟨1, 2⟩, [timedOutCall]⟩ := by
  have hnew : FetchPool.Reachable (2 : BitVec 64) ⟨.new 2, [.new]⟩ := Pool.reachable_join
  have hloaded := hnew.step (.loadFree (by decide))
  have hspawned := (hloaded.step .exchanged).step .spawned
  exact hspawned.step .timedOut

/-- Its slot is still taken. -/
theorem fetches_accounted_timedOut :
    (1 : BitVec 64).toNat = timedOutCall.guards ∧ timedOutCall.Accounted := by
  obtain ⟨hsum, -, -, haccounted⟩ := fetches_accounted timedOutCall_reachable
  exact ⟨by simpa using hsum, haccounted timedOutCall (by simp)⟩

end Accounts

end NyaSniProxy
