import NyaSniProxy.Library.Interaction

/-!
# Programs with a bounded number of calls

`Within` composes as programs do. If a call adds at most some `cost` to a measure of the world, then
a program of at most `n` calls adds at most `n` times as much, up to every point of every run.
-/

namespace Interaction

variable {ι : Type} {ρ : ι → Type} {ε ε' α β σ : Type} {n m : ℕ} {p : Prog ι ρ ε α}

namespace Prog

theorem Within.bind {f : α → Prog ι ρ ε β} (h : p.Within n) (hf : ∀ a, (f a).Within m) :
    (p >>= f).Within (n + m) := by
  induction p generalizing n with
  | ret a => exact (hf a).mono (Nat.le_add_left m n)
  | fail e => trivial
  | call i k ih =>
    cases n with
    | zero => exact h.elim
    | succ n =>
      rw [Nat.succ_add]
      exact fun r => ih r (h r)

theorem Within.attempt (h : p.Within n) :
    (p.attempt : Prog ι ρ ε' (Except ε α)).Within n := by
  induction p generalizing n with
  | ret a => trivial
  | fail e => trivial
  | call i k ih =>
    cases n with
    | zero => exact h.elim
    | succ n => exact fun r => ih r (h r)

theorem Within.mapError {f : ε → ε'} (h : p.Within n) : (p.mapError f).Within n := by
  induction p generalizing n with
  | ret a => trivial
  | fail e => trivial
  | call i k ih =>
    cases n with
    | zero => exact h.elim
    | succ n => exact fun r => ih r (h r)

theorem Within.lift {ι' : Type} {ρ' : ι' → Type} {f : ι → ι'} {g : ∀ i, ρ' (f i) → ρ i}
    (h : p.Within n) : (p.lift f g).Within n := by
  induction p generalizing n with
  | ret a => trivial
  | fail e => trivial
  | call i k ih =>
    cases n with
    | zero => exact h.elim
    | succ n => exact fun r => ih (g i r) (h (g i r))

end Prog

/-- The calls of a program add to a measure no more than their number allows. -/
theorem wp_of_within {E : Env ι ρ σ} {P : ι → Prop} (measure : σ → ℕ) {cost : ℕ}
    (hp : p.Only P) (hn : p.Within n)
    (hE : ∀ i w r w', P i → E i w r w' → measure w' ≤ measure w + cost) {w : σ} :
    wp E (fun _ w' => measure w' ≤ measure w + n * cost) p
      (fun _ w' => measure w' ≤ measure w + n * cost) w := by
  induction p generalizing n w with
  | ret a => exact ⟨Nat.le_add_right _ _, Nat.le_add_right _ _⟩
  | fail e => exact ⟨Nat.le_add_right _ _, Nat.le_add_right _ _⟩
  | call i k ih =>
    cases n with
    | zero => exact hn.elim
    | succ n =>
      refine ⟨Nat.le_add_right _ _, fun r w₁ hr => ?_⟩
      have hcall := hE i w r w₁ hp.1 hr
      have hlater {w' : σ} (h : measure w' ≤ measure w₁ + n * cost) :
          measure w' ≤ measure w + (n + 1) * cost := by
        rw [Nat.succ_mul]
        omega
      exact ((ih r (hp.2 r) (hn r)).mono_invariant fun _ _ => hlater).mono fun _ _ => hlater

end Interaction
