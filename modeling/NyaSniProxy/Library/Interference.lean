import NyaSniProxy.Library.Interaction

/-!
# Interference

Between two steps of a program the rest of the world may move. `Interleaved` is a loop among such
moves, in any order, and `Env.rely` is the environment that moves on before it answers.

An assertion is stable if no move ends it. If the invariants of a loop are stable, what `wp` says in
the environment `rely` holds in every interleaving.
-/

namespace Interaction

variable {ι : Type} {ρ : ι → Type} {ε α σ s : Type} {E : Env ι ρ σ} {R : σ → σ → Prop}

/-- No move ends the assertion. -/
def Stable (R : σ → σ → Prop) (A : σ → Prop) : Prop := ∀ {w w'}, R w w' → A w → A w'

theorem Stable.moves {A : σ → Prop} (h : Stable R A) {w w' : σ}
    (hmoves : Relation.ReflTransGen R w w') (hA : A w) : A w' := by
  induction hmoves with
  | refl => exact hA
  | tail _ hmove ih => exact h hmove ih

theorem Stable.and {A B : σ → Prop} (hA : Stable R A) (hB : Stable R B) :
    Stable R fun w => A w ∧ B w :=
  fun hmove h => ⟨hA hmove h.1, hB hmove h.2⟩

/-- The world moves on before it answers. -/
def Env.rely (E : Env ι ρ σ) (R : σ → σ → Prop) : Env ι ρ σ := fun i w r w' =>
  ∃ w₁, Relation.ReflTransGen R w w₁ ∧ E i w₁ r w'

/-- The answers that change the world as `K` allows. -/
def Env.restrict (E : Env ι ρ σ) (K : σ → σ → Prop) : Env ι ρ σ := fun i w r w' =>
  E i w r w' ∧ K w w'

section Stable

variable {I : Option ι → σ → Prop} {p : Prog ι ρ ε α} {Q : Except ε α → σ → Prop} {w w' : σ}

/-- A move keeps the weakest precondition. -/
theorem wp.stable (hI : ∀ c, Stable R (I c)) (hQ : ∀ r, Stable R (Q r))
    (h : wp (E.rely R) I p Q w) (hmove : R w w') : wp (E.rely R) I p Q w' := by
  cases p with
  | ret a => exact ⟨hI _ hmove h.1, hQ _ hmove h.2⟩
  | fail e => exact ⟨hI _ hmove h.1, hQ _ hmove h.2⟩
  | call i k =>
    refine ⟨hI _ hmove h.1, fun r w₂ hr => ?_⟩
    obtain ⟨w₁, hmoves, hanswer⟩ := hr
    exact h.2 r w₂ ⟨w₁, .head hmove hmoves, hanswer⟩

end Stable

/-! ## Interleavings -/

/-- A step of the loop or a move. -/
inductive Interleaved (E : Env ι ρ σ) (R : σ → σ → Prop) (body : s → Prog ι ρ ε (Next s α)) :
    Prog ι ρ ε (Next s α) × σ → Prog ι ρ ε (Next s α) × σ → Prop where
  | step {c c'} : Loop.Step E body c c' → Interleaved E R body c c'
  | move {p w w'} : R w w' → Interleaved E R body (p, w) (p, w')

/-- If every turn that starts in the loop invariant satisfies `post`, so does every interleaving
whose steps all change the world as `K` allows. -/
theorem Interleaved.reaches {K : σ → σ → Prop} {I : Option ι → σ → Prop}
    {body : s → Prog ι ρ ε (Next s α)} {J : s → σ → Prop} {Q : Except ε α → σ → Prop}
    (hI : ∀ c, Stable R (I c)) (hJ : ∀ v, Stable R (J v)) (hQ : ∀ r, Stable R (Q r))
    (hbody : ∀ v w, J v w → wp ((E.restrict K).rely R) I (body v) (Loop.post J Q) w)
    {c c' : Prog ι ρ ε (Next s α) × σ}
    (h : wp ((E.restrict K).rely R) I c.1 (Loop.post J Q) c.2)
    (hrun : Relation.ReflTransGen (fun c c' => Interleaved E R body c c' ∧ K c.2 c'.2) c c') :
    wp ((E.restrict K).rely R) I c'.1 (Loop.post J Q) c'.2 := by
  have hpost : ∀ r, Stable R (Loop.post J Q r) := by
    intro r
    cases r with
    | ok next =>
      cases next with
      | again v => exact hJ v
      | exit a => exact hQ (.ok a)
    | error e => exact hQ (.error e)
  induction hrun with
  | refl => exact h
  | tail _ hs ih =>
    obtain ⟨hs, hK⟩ := hs
    cases hs with
    | step hstep =>
      cases hstep with
      | run hcall =>
        cases hcall with
        | call hr => exact ih.2 _ _ ⟨_, .refl, hr, hK⟩
      | again => exact hbody _ _ ih.2
    | move hmove => exact ih.stable hI hpost hmove

section Runs

variable {K : σ → σ → Prop} {body : s → Prog ι ρ ε (Next s α)}

/-- A run without moves. -/
theorem Interleaved.of_reaches {c c' : Prog ι ρ ε (Next s α) × σ}
    (h : Reaches (E.restrict K) c c') :
    Relation.ReflTransGen (fun c c' => Interleaved E R body c c' ∧ K c.2 c'.2) c c' := by
  induction h with
  | refl => exact .refl
  | tail _ hs ih =>
    cases hs with
    | call hr => exact .tail ih ⟨.step (.run (.call hr.1)), hr.2⟩

/-- Moves while the loop waits. -/
theorem Interleaved.of_moves (hK : ∀ w w', R w w' → K w w') (p : Prog ι ρ ε (Next s α)) {w w' : σ}
    (h : Relation.ReflTransGen R w w') :
    Relation.ReflTransGen (fun c c' => Interleaved E R body c c' ∧ K c.2 c'.2) (p, w) (p, w') := by
  induction h with
  | refl => exact .refl
  | tail _ hmove ih => exact .tail ih ⟨.move hmove, hK _ _ hmove⟩

end Runs

end Interaction
