import Mathlib.Order.WellFounded
import NyaSniProxy.Library.Interaction

/-!
# Loops that come to an end

A program is a tree of calls, so it has no endless run, whatever the answers are. A loop has none if
every turn that asks for another one has made a measure smaller. If in addition all calls have
answers, then every run can be continued to the end of the loop, and the postcondition holds there:
this is total correctness.
-/

namespace Interaction

variable {ι : Type} {ρ : ι → Type} {ε α σ s : Type} {E : Env ι ρ σ} {I : Option ι → σ → Prop}
  {body : s → Prog ι ρ ε (Next s α)} {c : Prog ι ρ ε (Next s α) × σ}

namespace Loop

/-- No run from here goes on for ever. -/
def Terminates (E : Env ι ρ σ) (body : s → Prog ι ρ ε (Next s α))
    (c : Prog ι ρ ε (Next s α) × σ) : Prop :=
  Acc (fun c' c => Step E body c c') c

theorem Terminates.finite (h : Terminates E body c) :
    ¬ ∃ run : ℕ → Prog ι ρ ε (Next s α) × σ, run 0 = c ∧
      ∀ n, Step E body (run n) (run (n + 1)) := fun hrun =>
  not_acc_iff_exists_descending_chain.mpr hrun h

/-- Postcondition of one turn: the loop invariant and a measure below `n` if it goes on. -/
def postBelow (J : s → σ → Prop) (m : s → σ → ℕ) (Q : Except ε α → σ → Prop) (n : ℕ) :
    Except ε (Next s α) → σ → Prop
  | .ok (.again v), w => J v w ∧ m v w < n
  | .ok (.exit a), w => Q (.ok a) w
  | .error e, w => Q (.error e) w

variable {J : s → σ → Prop} {m : s → σ → ℕ} {Q : Except ε α → σ → Prop} {n : ℕ}

theorem post_of_postBelow {r : Except ε (Next s α)} {w : σ} (h : postBelow J m Q n r w) :
    post J Q r w := by
  obtain e | v | a := r
  · exact h
  · exact h.1
  · exact h

/-- One turn is finite, and so is what comes behind it. -/
theorem Terminates.of_turn {p : Prog ι ρ ε (Next s α)} {w : σ}
    {R : Except ε (Next s α) → σ → Prop} (h : wp E I p R w)
    (hnext : ∀ v w, R (.ok (.again v)) w → Terminates E body (body v, w)) :
    Terminates E body (p, w) := by
  induction p generalizing w with
  | ret next =>
    refine .intro _ fun c hstep => ?_
    cases next with
    | again v =>
      obtain rfl := step_again.mp hstep
      exact hnext v w h.2
    | exit a => exact absurd hstep not_step_exit
  | fail e => exact .intro _ fun c hstep => absurd hstep not_step_fail
  | call i k hk =>
    refine .intro _ fun c hstep => ?_
    obtain ⟨r, w', hr, rfl⟩ := step_call.mp hstep
    exact hk r (h.2 r w' hr)

/-- If every turn makes the measure smaller, there is no endless run. -/
theorem terminates (hbody : ∀ v w, J v w → wp E I (body v) (postBelow J m Q (m v w)) w)
    {v : s} {w : σ} (h : J v w) : Terminates E body (body v, w) := by
  induction hn : m v w using Nat.strong_induction_on generalizing v w with
  | _ n ih =>
    subst hn
    exact .of_turn (hbody v w h) fun v' w' hnext => ih _ hnext.2 hnext.1 rfl

/-- The program of a loop that has ended. -/
def ended : Except ε α → Prog ι ρ ε (Next s α)
  | .ok a => .ret (.exit a)
  | .error e => .fail e

/-- A loop whose calls have answers goes on, or it has ended in its postcondition. -/
theorem step_or_ended (h : wp E (Answerable E) c.1 (post J Q) c.2) :
    (∃ c', Step E body c c') ∨ ∃ r, c.1 = ended r ∧ Q r c.2 := by
  obtain ⟨p, w⟩ := c
  cases p with
  | ret next =>
    cases next with
    | again v => exact .inl ⟨_, .again⟩
    | exit a => exact .inr ⟨.ok a, rfl, h.2⟩
  | fail e => exact .inr ⟨.error e, rfl, h.2⟩
  | call i k =>
    obtain ⟨r, w', hr⟩ := h.1
    exact .inl ⟨_, .run (.call hr)⟩

/-- Total correctness: there is no endless run, and every run that does not go on has ended in the
postcondition. -/
theorem total (hbody : ∀ v w, J v w → wp E (Answerable E) (body v) (postBelow J m Q (m v w)) w)
    {p : Prog ι ρ ε (Next s α)} {w : σ} (h : wp E (Answerable E) p (post J Q) w) :
    Terminates E body (p, w) ∧ ∀ c, Reaches E body (p, w) c →
      (∃ c', Step E body c c') ∨ ∃ r, c.1 = ended r ∧ Q r c.2 := by
  have hturn (v : s) (w : σ) (hv : J v w) : wp E (Answerable E) (body v) (post J Q) w :=
    (hbody v w hv).mono fun _ _ => post_of_postBelow
  exact ⟨.of_turn h fun v w hv => terminates hbody hv,
    fun c hrun => step_or_ended (reaches hturn h hrun)⟩

end Loop

end Interaction
