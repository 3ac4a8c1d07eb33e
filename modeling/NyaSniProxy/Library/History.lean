import NyaSniProxy.Library.Interaction

/-!
# Runs with their history

`Recorded` is the environment that gives any answer and keeps all calls with their answers, the
latest one first. Every run of a program, in whatever environment, has such a history. `Lawful` says
of a history that each call was allowed by what had happened before it.
-/

namespace Interaction

variable {ι : Type} {ρ : ι → Type} {ε α σ : Type}

/-- The calls that were made, with their answers. -/
abbrev History (ρ : ι → Type) := List (Sigma ρ)

variable (ρ) in
def Recorded : Env ι ρ (History ρ) := fun i past r past' => past' = ⟨i, r⟩ :: past

/-- An environment with the history of its calls. -/
def WithHistory (E : Env ι ρ σ) : Env ι ρ (σ × History ρ) := fun i w r w' =>
  E i w.1 r w'.1 ∧ w'.2 = ⟨i, r⟩ :: w.2

theorem recorded_withHistory (E : Env ι ρ σ) : Simulates Prod.snd (WithHistory E) (Recorded ρ) :=
  fun _ _ _ _ h => h.2

/-- Each call was allowed by the calls before it. -/
def Lawful (allowed : History ρ → ι → Prop) : History ρ → Prop
  | [] => True
  | e :: past => allowed past e.1 ∧ Lawful allowed past

variable {allowed : History ρ → ι → Prop} {past past' later : History ρ} {e : Sigma ρ}

theorem Lawful.earlier (h : Lawful allowed (later ++ past)) : Lawful allowed past := by
  induction later with
  | nil => exact h
  | cons e later ih => exact ih h.2

/-- What a lawful history says about one of its calls. -/
theorem Lawful.call_allowed (h : Lawful allowed (later ++ e :: past)) : allowed past e.1 :=
  h.earlier.1

/-- The history is lawful, and the call that is pending may be made. -/
def Keeping (allowed : History ρ → ι → Prop) (c : Option ι) (past : History ρ) : Prop :=
  Lawful allowed past ∧ ∀ i, c = some i → allowed past i

theorem Keeping.answered {i : ι} {r : ρ i} (h : Keeping allowed (some i) past) :
    Lawful allowed (⟨i, r⟩ :: past) :=
  ⟨h.2 i rfl, h.1⟩

/-- A program whose calls are allowed from now on. What all its calls keep, it keeps. -/
theorem wp_lawful {p : Prog ι ρ ε α} {P : ι → Prop} {A : History ρ → Prop} (hp : p.Only P)
    (hallowed : ∀ i past', P i → past <:+ past' → allowed past' i)
    (hA : ∀ i past' r, P i → A past' → A (⟨i, r⟩ :: past')) (h : Lawful allowed past)
    (hnow : A past) : wp (Recorded ρ) (Keeping allowed) p
      (fun _ past' => Lawful allowed past' ∧ past <:+ past' ∧ A past') past := by
  refine wp_of_kept hp (fun c past' hc h => ⟨h.1, fun i hi => hallowed i past' (hc i hi) h.2.1⟩)
    (fun i past₁ r past₂ hi h hr => ?_) ⟨h, List.suffix_rfl, hnow⟩
  obtain rfl : past₂ = ⟨i, r⟩ :: past₁ := hr
  obtain ⟨hlawful, hsuffix, hkept⟩ := h
  exact ⟨⟨hallowed i past₁ hi hsuffix, hlawful⟩, hsuffix.trans (List.suffix_cons _ _),
    hA i past₁ r hi hkept⟩

end Interaction
