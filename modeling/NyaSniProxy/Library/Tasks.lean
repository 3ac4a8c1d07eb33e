import Mathlib.Algebra.BigOperators.Group.List.Basic
import Mathlib.Algebra.GroupWithZero.Nat
import Mathlib.Logic.Relation
import Mathlib.Tactic.Common

/-!
# Tasks

`Tasks` is any number of tasks around something they share. A task that acts changes what is shared
and is replaced by the tasks it goes on as: itself, with those it has spawned, or none at its end.
The steps of different tasks interleave as they like.

`Tasks.keeps` is the rule for invariants: each task relies on what is shared, and no step of another
task may end that. `Tasks.conserved` is the rule for a budget that what is shared and the tasks hold
together, and `Tasks.counted` the rule for a counter of what the tasks hold.
-/

structure Tasks (σ τ : Type) where
  shared : σ
  running : List τ

namespace Tasks

variable {σ τ : Type} {act : σ → τ → σ → List τ → Prop}

/-- One of the tasks acts. -/
inductive Step (act : σ → τ → σ → List τ → Prop) : Tasks σ τ → Tasks σ τ → Prop where
  | act {s s' t ts before after} : act s t s' ts →
      Step act ⟨s, before ++ t :: after⟩ ⟨s', before ++ ts ++ after⟩

abbrev Reaches (act : σ → τ → σ → List τ → Prop) : Tasks σ τ → Tasks σ τ → Prop :=
  Relation.ReflTransGen (Step act)

/-- A step of the task at the end of the list. -/
theorem Step.last {s s' : σ} {t : τ} {ts before : List τ} (h : act s t s' ts) :
    Step act ⟨s, before ++ [t]⟩ ⟨s', before ++ ts⟩ := by
  have hstep := @Step.act _ _ act _ _ _ _ before [] h
  rwa [List.append_nil] at hstep

/-- What holds of what is shared and of every task, if a step keeps it for both, for the tasks it
leaves and for all other tasks. A step may rely on what is known of all states of the run. -/
theorem keeps {R J : σ → Prop} {I : σ → τ → Prop} {p p' : Tasks σ τ}
    (hR : ∀ q, Reaches act p q → R q.shared)
    (hact : ∀ s t s' ts, act s t s' ts → R s → J s → I s t →
      J s' ∧ (∀ u ∈ ts, I s' u) ∧ ∀ u, I s u → I s' u)
    (hJ : J p.shared) (hI : ∀ t ∈ p.running, I p.shared t) (h : Reaches act p p') :
    J p'.shared ∧ ∀ t ∈ p'.running, I p'.shared t := by
  induction h with
  | refl => exact ⟨hJ, hI⟩
  | tail hrun hstep ih =>
    obtain ⟨hshared, hrunning⟩ := ih
    cases hstep with
    | @act s s' t ts before after ht =>
      obtain ⟨hshared', hleft, hothers⟩ :=
        hact s t s' ts ht (hR _ hrun) hshared (hrunning t (by simp))
      refine ⟨hshared', fun u hu => ?_⟩
      obtain hu | hu | hu : u ∈ before ∨ u ∈ ts ∨ u ∈ after := by simpa [or_assoc] using hu
      · exact hothers u (hrunning u (by simp [hu]))
      · exact hleft u hu
      · exact hothers u (hrunning u (by simp [hu]))

/-- What is shared and the tasks hold as much as they held, if in each step they do. -/
theorem conserved {held : σ → Nat} {weight : τ → Nat}
    (hact : ∀ s t s' ts, act s t s' ts →
      held s' + (ts.map weight).sum = held s + weight t)
    {p p' : Tasks σ τ} (h : Reaches act p p') :
    held p'.shared + (p'.running.map weight).sum = held p.shared + (p.running.map weight).sum := by
  induction h with
  | refl => rfl
  | tail _ hstep ih =>
    cases hstep with
    | @act s s' t ts before after ht =>
      have hheld := hact s t s' ts ht
      simp only [List.map_append, List.map_cons, List.sum_append, List.sum_cons] at ih ⊢
      omega

/-- A counter of what the tasks hold. -/
theorem counted {count : σ → Nat} {weight : τ → Nat}
    (hact : ∀ s t s' ts, act s t s' ts → weight t ≤ count s →
      count s' + weight t = count s + (ts.map weight).sum)
    {p p' : Tasks σ τ} (hp : count p.shared = (p.running.map weight).sum)
    (h : Reaches act p p') : count p'.shared = (p'.running.map weight).sum := by
  induction h with
  | refl => exact hp
  | tail _ hstep ih =>
    cases hstep with
    | @act s s' t ts before after ht =>
      simp only [List.map_append, List.map_cons, List.sum_append, List.sum_cons] at ih ⊢
      have hcount := hact s t s' ts ht (by omega)
      omega

end Tasks
