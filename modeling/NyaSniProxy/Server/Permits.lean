import Mathlib.Algebra.Order.BigOperators.Group.List
import NyaSniProxy.Server

/-!
# Permits and receivers

In every state of the server the permits that are free, those that an accept loop hands over and
those of the handlers are together the limit, over both accept loops and all orders of steps. A
loop holds a permit only while it hands it over, so it refuses a connection exactly if all permits
are with handlers or with the other loop.

Every accept loop and every connection holds a receiver of the watch channel. As `main` runs while
its accept loops do, the reload loop never finds that all receivers are gone.
-/

namespace NyaSniProxy

open Text Interaction

namespace Task

/-- The permits a task owns. -/
def permits : Task → Nat
  | .accept _ _ n => n
  | .connection .. | .closing => 1
  | .reload _ => 0

/-- The receivers a task owns. -/
def receivers : Task → Nat
  | .accept .. | .connection .. => 1
  | .closing | .reload _ => 0

/-- A handler that has not dropped its permit. -/
def handled : Task → Bool
  | .connection .. | .closing => true
  | .accept .. | .reload _ => false

/-- An accept loop that is about to spawn a handler. -/
def handingOver : Task → Bool
  | .accept _ (.call (.spawn ..) _) _ => true
  | _ => false

/-- An accept loop that asks for a permit. -/
def asking : Task → Bool
  | .accept _ (.call .tryAcquire _) _ => true
  | _ => false

def isAccept : Task → Bool
  | .accept .. => true
  | _ => false

end Task

section Accept

/-- The permits of an accept loop as its calls change them. -/
inductive Owns : Env AcceptCall AcceptReply Nat where
  | select {n} (event) : Owns .select n event n
  | beat {n} : Owns .beat n () n
  | acquired {n} : Owns .tryAcquire n true (n + 1)
  | noPermits {n} : Owns .tryAcquire n false n
  | log {message n} : Owns (.log message) n () n
  | spawn {protocol client n} : Owns (.spawn protocol client) (n + 1) () n

/-- An accept loop owns one permit while it hands it over, and none otherwise. -/
def OneAtSpawn : Option AcceptCall → Nat → Prop
  | some (.spawn ..), n => n = 1
  | _, n => n = 0

/-- The permits that are left at the end of a turn. -/
abbrev NoneLeft : Except Error (Next Unit Empty) → Nat → Prop :=
  Loop.post (fun _ n => n = 0) fun _ n => n = 0

theorem wp_acceptTurn (protocol : InboundProtocol) :
    wp Owns OneAtSpawn (acceptTurn protocol) NoneLeft 0 := by
  refine wp_call_bind.mpr ⟨rfl, fun event n hr => ?_⟩
  cases hr with
  | select =>
    cases event with
    | tick =>
      refine wp_call_bind.mpr ⟨rfl, fun _ n hr => ?_⟩
      cases hr with
      | beat => exact ⟨rfl, rfl⟩
    | accepted result =>
      refine wp_call_bind.mpr ⟨rfl, fun _ n hr => ?_⟩
      cases hr with
      | beat =>
        cases result with
        | error f => exact ⟨rfl, rfl⟩
        | ok stream =>
          refine wp_call_bind.mpr ⟨rfl, fun _ n hr => ?_⟩
          cases hr with
          | acquired =>
            refine wp_call_bind.mpr ⟨rfl, fun _ n hr => ?_⟩
            cases hr with
            | spawn => exact ⟨rfl, rfl⟩
          | noPermits =>
            refine wp_call_bind.mpr ⟨rfl, fun _ n hr => ?_⟩
            cases hr with
            | log => exact ⟨rfl, rfl⟩

end Accept

/-! ## The budget of permits -/

/-- An accept loop keeps count of its permits, now and in all that it has yet to do. -/
def Task.Owning : Task → Prop
  | .accept _ prog n => wp Owns OneAtSpawn prog NoneLeft n
  | _ => True

section Budget

variable {deserialize : Bytes → Option FileConfig} {parseUrl : Bytes → Option Url}
  {hash : Bytes → UInt64} {defaultHostsPath : FsPath} {cli : CliOverrides} {source : ConfigSource}
  {s s' : Server} {t : Task} {ts : List Task} {p : Tasks Server Task}

theorem Act.owning (h : Act deserialize parseUrl hash defaultHostsPath cli source s t s' ts)
    (ht : t.Owning) : ∀ u ∈ ts, u.Owning := by
  intro u hu
  cases h with
  | select event =>
    obtain rfl := List.mem_singleton.mp hu
    exact ht.2 _ _ (.select event)
  | beat =>
    obtain rfl := List.mem_singleton.mp hu
    exact ht.2 _ _ .beat
  | acquired =>
    obtain rfl := List.mem_singleton.mp hu
    exact ht.2 _ _ .acquired
  | noPermits =>
    obtain rfl := List.mem_singleton.mp hu
    exact ht.2 _ _ .noPermits
  | log =>
    obtain rfl := List.mem_singleton.mp hu
    exact ht.2 _ _ .log
  | spawn =>
    obtain rfl | rfl : u = _ ∨ u = _ := by simpa using hu
    · exact ht.2 _ _ .spawn
    · trivial
  | acceptAgain =>
    obtain rfl := List.mem_singleton.mp hu
    exact wp_acceptTurn _
  | closed => cases hu
  | connection | relay | ended | reload | reloadAgain =>
    obtain rfl := List.mem_singleton.mp hu
    trivial

/-- A permit is free, or it belongs to a task. -/
theorem Act.permits_conserved
    (h : Act deserialize parseUrl hash defaultHostsPath cli source s t s' ts) :
    s'.permits + (ts.map Task.permits).sum = s.permits + t.permits := by
  cases h with
  | acquired hfree =>
    simp only [List.map_singleton, List.sum_singleton, Task.permits]
    omega
  | reload hr => cases hr <;> rfl
  | _ => simp [Task.permits]

/-- The accept loops go on for ever. -/
theorem Act.loops_conserved
    (h : Act deserialize parseUrl hash defaultHostsPath cli source s t s' ts) :
    0 + (ts.map fun u => u.isAccept.toNat).sum = 0 + t.isAccept.toNat := by
  cases h <;> simp [Task.isAccept]

/-- The receivers of the watch channel are those of the tasks. -/
theorem Act.receivers_counted
    (h : Act deserialize parseUrl hash defaultHostsPath cli source s t s' ts)
    (hle : t.receivers ≤ s.receivers) :
    s'.receivers + t.receivers = s.receivers + (ts.map Task.receivers).sum := by
  cases h with
  | reload hr => cases hr <;> rfl
  | ended =>
    simp only [List.map_singleton, List.sum_singleton, Task.receivers] at hle ⊢
    omega
  | spawn =>
    simp only [List.map_cons, List.map_nil, List.sum_cons, List.sum_nil, Task.receivers]
    omega
  | _ => simp [Task.receivers]

/-! ## Every reachable state -/

/-- A state of the server in which nothing is lost of what its tasks share. -/
structure Accounted (p : Tasks Server Task) : Prop where
  owning : ∀ t ∈ p.running, t.Owning
  permits : p.shared.permits + (p.running.map Task.permits).sum = maxConnections
  receivers : p.shared.receivers = (p.running.map Task.receivers).sum
  /-- There is an accept loop for `https`, and there may be one for `http`. -/
  loops : 1 ≤ (p.running.map fun t => t.isAccept.toNat).sum ∧
    (p.running.map fun t => t.isAccept.toNat).sum ≤ 2

/-- Each accept loop starts with a turn, and without a permit. -/
theorem eq_of_mem_acceptLoops {settings : StaticSettings} (h : t ∈ acceptLoops settings) :
    ∃ protocol, t = .accept protocol (acceptTurn protocol) 0 := by
  unfold acceptLoops at h
  split at h
  · obtain rfl | rfl : t = _ ∨ t = _ := by simpa using h
    · exact ⟨_, rfl⟩
    · exact ⟨_, rfl⟩
  · obtain rfl : t = _ := by simpa using h
    exact ⟨_, rfl⟩

theorem accounted_start (runtime : Runtime) (self : ReloadLoop) :
    Accounted (Server.start runtime self) := by
  have howning : ∀ t ∈ acceptLoops self.settings ++ [.reload (runReloadLoop self)], t.Owning := by
    intro t ht
    obtain ht | ht := List.mem_append.mp ht
    · obtain ⟨protocol, rfl⟩ := eq_of_mem_acceptLoops ht
      exact wp_acceptTurn protocol
    · obtain rfl := List.mem_singleton.mp ht
      trivial
  refine ⟨howning, ?_, ?_, ?_⟩ <;> cases hhttp : self.settings.http <;>
    simp [Server.start, acceptLoops, hhttp, Task.permits, Task.receivers, Task.isAccept]

theorem accounted_of_reaches {runtime : Runtime} {self : ReloadLoop}
    (hrun : Tasks.Reaches (Act deserialize parseUrl hash defaultHostsPath cli source)
      (Server.start runtime self) p) : Accounted p := by
  have hstart := accounted_start runtime self
  refine ⟨?_, ?_, ?_, ?_⟩
  · exact (Tasks.keeps (R := fun _ => True) (J := fun _ => True) (I := fun _ t => t.Owning)
      (fun _ _ => trivial)
      (fun _ _ _ _ hact _ _ ht => ⟨trivial, hact.owning ht, fun _ hu => hu⟩) trivial
      hstart.owning hrun).2
  · have hpermits := @Tasks.conserved _ _ _ Server.permits _
      (fun _ _ _ _ => Act.permits_conserved) _ _ hrun
    exact hpermits.trans hstart.permits
  · exact Tasks.counted (fun _ _ _ _ => Act.receivers_counted) hstart.receivers hrun
  · have hloops := @Tasks.conserved _ _ _ (fun _ => 0) _
      (fun _ _ _ _ => Act.loops_conserved) _ _ hrun
    have := hstart.loops
    omega

/-- There is a receiver in every state of the server. -/
theorem Accounted.receivers_pos (h : Accounted p) : 0 < p.shared.receivers := by
  have hle : (p.running.map fun t => t.isAccept.toNat).sum ≤
      (p.running.map Task.receivers).sum := by
    refine List.sum_le_sum fun t _ => ?_
    cases t <;> simp [Task.isAccept, Task.receivers]
  have := h.loops
  have := h.receivers
  omega

/-- A loop owns one permit while it hands it over, and a handler owns one. -/
theorem Task.Owning.permits (h : t.Owning) :
    t.permits = t.handled.toNat + t.handingOver.toNat := by
  cases t with
  | accept protocol prog n =>
    have hnow : OneAtSpawn prog.pending n := wp.invariant h
    cases prog with
    | ret a => exact hnow
    | fail e => exact hnow
    | call c k => cases c <;> exact hnow
  | connection | closing | reload => rfl

theorem sum_permits (h : ∀ t ∈ ts, t.Owning) :
    (ts.map Task.permits).sum = ts.countP Task.handled + ts.countP Task.handingOver := by
  induction ts with
  | nil => rfl
  | cons t ts ih =>
    obtain ⟨ht, hts⟩ := List.forall_mem_cons.mp h
    rw [List.map_cons, List.sum_cons, ih hts, ht.permits, List.countP_cons, List.countP_cons]
    cases t.handled <;> cases t.handingOver <;> simp <;> omega

/-- An accept loop that asks for a permit does not hand one over. -/
theorem countP_asking_add (ts : List Task) :
    ts.countP Task.asking + ts.countP Task.handingOver ≤
      (ts.map fun t => t.isAccept.toNat).sum := by
  induction ts with
  | nil => exact le_rfl
  | cons t ts ih =>
    have ht : t.asking.toNat + t.handingOver.toNat ≤ t.isAccept.toNat := by
      cases t with
      | accept protocol prog n =>
        cases prog with
        | ret | fail => simp [Task.asking, Task.handingOver]
        | call c k => cases c <;> simp [Task.asking, Task.handingOver, Task.isAccept]
      | connection | closing | reload => simp [Task.asking, Task.handingOver]
    rw [List.map_cons, List.sum_cons, List.countP_cons, List.countP_cons]
    generalize t.isAccept.toNat = loops at ht ⊢
    revert ht
    cases t.asking <;> cases t.handingOver <;> simp <;> omega

/-- In every state of the server, the free permits, the handlers and the permits that are handed
over are together the limit. A loop that asks for a permit and finds none is refused by handlers:
all permits are with them, or all but the one that the other loop hands over. -/
theorem server_permits (p : Tasks Server Task)
    (h : Server.Reachable deserialize parseUrl hash defaultHostsPath cli source p) :
    p.shared.permits + p.running.countP Task.handled + p.running.countP Task.handingOver =
        maxConnections ∧
      (p.shared.permits = 0 → ∀ t ∈ p.running, t.asking →
        maxConnections - 1 ≤ p.running.countP Task.handled) := by
  obtain ⟨runtime, self, -, hrun⟩ := h.tasks
  have haccounted := accounted_of_reaches hrun
  have hpermits := haccounted.permits
  rw [sum_permits haccounted.owning] at hpermits
  refine ⟨by omega, fun hnone t ht hasking => ?_⟩
  have hloops := countP_asking_add p.running
  have hpos : 0 < p.running.countP Task.asking := List.countP_pos_iff.mpr ⟨t, ht, hasking⟩
  have := haccounted.loops
  omega

end Budget

/-- A connection has been accepted. -/
theorem server_permits_connection : ∃ p : Tasks Server Task,
    p.running.countP Task.handled = 1 ∧
      p.shared.permits + p.running.countP Task.handled + p.running.countP Task.handingOver =
        maxConnections := by
  obtain ⟨runtime, self, -, hreachable⟩ := reachable_connection []
  exact ⟨_, rfl, (server_permits _ hreachable).1⟩

end NyaSniProxy
