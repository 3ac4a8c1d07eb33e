import Mathlib.Algebra.BigOperators.Group.List.Basic
import Mathlib.Algebra.GroupWithZero.Nat
import Mathlib.Logic.Relation
import Mathlib.Tactic.Common

/-!
# Pools

A `Pool` is any number of parts around something they share. Parts join at any time, and the steps
of different parts interleave as they like; each step acts on one part and on what is shared.

`Pool.conserved` is the rule for a shared counter: if every step changes the counter by as much as
it changes the weight of its part, the counter is the weight of the whole pool.
-/

structure Pool (σ ι : Type) where
  shared : σ
  parts : List ι

namespace Pool

variable {σ ι : Type}

/-- A part joins, or one of the parts acts. -/
inductive Step (start : ι) (act : σ → ι → σ → ι → Prop) : Pool σ ι → Pool σ ι → Prop where
  | join {s parts} : Step start act ⟨s, parts⟩ ⟨s, parts ++ [start]⟩
  | act {s s' l l' before after} : act s l s' l' →
      Step start act ⟨s, before ++ l :: after⟩ ⟨s', before ++ l' :: after⟩

/-- Some run of parts that joined the empty pool. -/
def Reachable (start : ι) (act : σ → ι → σ → ι → Prop) (s : σ) (p : Pool σ ι) : Prop :=
  Relation.ReflTransGen (Step start act) ⟨s, []⟩ p

variable {start : ι} {act : σ → ι → σ → ι → Prop}

theorem reachable_join {s : σ} : Reachable start act s ⟨s, [start]⟩ := .single .join

/-- A step of the only part. -/
theorem Reachable.step {s₀ s s' : σ} {l l' : ι} (hr : Reachable start act s₀ ⟨s, [l]⟩)
    (h : act s l s' l') : Reachable start act s₀ ⟨s', [l']⟩ :=
  .tail hr (@Step.act _ _ _ _ _ _ _ _ [] [] h)

/-- `count` of what is shared is the `weight` of all parts, if each step conserves the difference.
A step may rely on the invariants `I` of its part and `J` of what is shared. -/
theorem conserved {I : ι → Prop} {J : σ → Prop} {count : σ → Nat} {weight : ι → Nat} {s : σ}
    (hcount : count s = 0) (hweight : weight start = 0) (hJ : J s) (hI : I start)
    (hact : ∀ s l s' l', act s l s' l' → J s → I l → weight l ≤ count s →
      J s' ∧ I l' ∧ count s' + weight l = count s + weight l') {p : Pool σ ι}
    (h : Reachable start act s p) :
    J p.shared ∧ (∀ l ∈ p.parts, I l) ∧ count p.shared = (p.parts.map weight).sum := by
  induction h with
  | refl => exact ⟨hJ, by simp, by simpa using hcount⟩
  | tail _ hstep ih =>
    obtain ⟨hshared, hparts, hsum⟩ := ih
    cases hstep with
    | join =>
      refine ⟨hshared, fun l hl => ?_, by simpa [hweight] using hsum⟩
      obtain hl | rfl : l ∈ _ ∨ l = start := by simpa using hl
      · exact hparts l hl
      · exact hI
    | @act s s' l l' before after hl =>
      simp only [List.map_append, List.map_cons, List.sum_append, List.sum_cons] at hsum ⊢
      obtain ⟨hJ', hI', hconserved⟩ := hact s l s' l' hl hshared (hparts l (by simp)) (by omega)
      refine ⟨hJ', fun k hk => ?_, by omega⟩
      obtain hk | rfl | hk : k ∈ before ∨ k = l' ∨ k ∈ after := by simpa using hk
      · exact hparts k (by simp [hk])
      · exact hI'
      · exact hparts k (by simp [hk])

end Pool
