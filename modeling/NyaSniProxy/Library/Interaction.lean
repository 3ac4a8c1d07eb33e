import Mathlib.Logic.Relation
import Mathlib.Tactic.Common

/-!
# Programs that call their environment

A `Prog` is a tree: it has ended with a value or an error, or it waits at a call and goes on
according to the answer. An environment is a relation: which answers a call may get in a state of
the world, and what the world is afterwards. So one program runs in many environments, and an
environment is free to answer in several ways.

`wp` is the weakest precondition of a program. Its invariant holds at every point of the run, and it
sees the call the program is waiting at; its postcondition sees the value or the error. Every
rule below is sound for all runs of the environment. `Only` says which calls a program may make and
`Within` how many, and `Loop` repeats a body without a bound. `Simulates` relates an environment to
one with a finer world.
-/

namespace Interaction

/-- A program over calls `ι`, answered in `ρ`, that ends with an `α` or an `ε`. -/
inductive Prog (ι : Type) (ρ : ι → Type) (ε α : Type) : Type where
  | ret (a : α)
  | fail (e : ε)
  | call (i : ι) (k : ρ i → Prog ι ρ ε α)

variable {ι : Type} {ρ : ι → Type} {ε ε' α β σ : Type}

namespace Prog

protected def bind : Prog ι ρ ε α → (α → Prog ι ρ ε β) → Prog ι ρ ε β
  | ret a, f => f a
  | fail e, _ => fail e
  | call i k, f => call i fun r => (k r).bind f

instance : Monad (Prog ι ρ ε) where
  pure := ret
  bind := Prog.bind

/-- End with the error that `f` makes of an error of the program. -/
def mapError (f : ε → ε') : Prog ι ρ ε α → Prog ι ρ ε' α
  | ret a => ret a
  | fail e => fail (f e)
  | call i k => call i fun r => (k r).mapError f

/-- Run the program and keep its error as a value. -/
def attempt : Prog ι ρ ε α → Prog ι ρ ε' (Except ε α)
  | ret a => ret (.ok a)
  | fail e => ret (.error e)
  | call i k => call i fun r => (k r).attempt

/-- The program that has ended with this result. -/
def ofExcept : Except ε α → Prog ι ρ ε α
  | .ok a => ret a
  | .error e => fail e

/-- The program as one over the calls `ι'`, with its answers read off theirs. -/
def lift {ι' : Type} {ρ' : ι' → Type} (f : ι → ι') (g : ∀ i, ρ' (f i) → ρ i) :
    Prog ι ρ ε α → Prog ι' ρ' ε α
  | ret a => ret a
  | fail e => fail e
  | call i k => call (f i) fun r => (k (g i r)).lift f g

/-- The call the program is waiting at. -/
def pending : Prog ι ρ ε α → Option ι
  | call i _ => some i
  | _ => none

/-- A program that waits at a call has not ended. -/
theorem not_ended_of_pending {p : Prog ι ρ ε α} {i : ι} (h : p.pending = some i) :
    (∀ a, p ≠ ret a) ∧ ∀ e, p ≠ fail e := by
  constructor
  · rintro a rfl
    cases h
  · rintro e rfl
    cases h

@[simp] theorem pure_eq (a : α) : (pure a : Prog ι ρ ε α) = ret a := rfl
@[simp] theorem ret_bind (a : α) (f : α → Prog ι ρ ε β) : ret a >>= f = f a := rfl
@[simp] theorem fail_bind (e : ε) (f : α → Prog ι ρ ε β) : fail e >>= f = fail e := rfl
@[simp] theorem call_bind (i : ι) (k : ρ i → Prog ι ρ ε α) (f : α → Prog ι ρ ε β) :
    call i k >>= f = call i fun r => k r >>= f := rfl

theorem bind_ret (p : Prog ι ρ ε α) : p.bind ret = p := by
  induction p with
  | ret a => rfl
  | fail e => rfl
  | call i k ih => exact congrArg (call i) (funext ih)

theorem bind_assoc (p : Prog ι ρ ε α) {γ : Type} (f : α → Prog ι ρ ε β) (g : β → Prog ι ρ ε γ) :
    (p.bind f).bind g = p.bind fun a => (f a).bind g := by
  induction p with
  | ret a => rfl
  | fail e => rfl
  | call i k ih => exact congrArg (call i) (funext ih)

instance : LawfulMonad (Prog ι ρ ε) :=
  .mk' (Prog ι ρ ε) bind_ret (fun _ _ => rfl) fun p f g => bind_assoc p f g

end Prog

open Prog

/-! ## Runs -/

/-- Which answers a call may get, and the world after each. -/
abbrev Env (ι : Type) (ρ : ι → Type) (σ : Type) := (i : ι) → σ → ρ i → σ → Prop

inductive Step (E : Env ι ρ σ) : Prog ι ρ ε α × σ → Prog ι ρ ε α × σ → Prop where
  | call {i k w r w'} : E i w r w' → Step E (call i k, w) (k r, w')

/-- Some run of the environment leads from the first configuration to the second. -/
abbrev Reaches (E : Env ι ρ σ) : Prog ι ρ ε α × σ → Prog ι ρ ε α × σ → Prop :=
  Relation.ReflTransGen (Step E)

/-- Some complete run ends with the result `r` in the world `w'`. -/
def Ends (E : Env ι ρ σ) (p : Prog ι ρ ε α) (w : σ) (r : Except ε α) (w' : σ) : Prop :=
  Reaches E (p, w) (ofExcept r, w')

variable {E : Env ι ρ σ}

/-! ## Building runs -/

section Build

variable {p : Prog ι ρ ε α} {w w₁ w' : σ}

/-- A transformation that goes on at calls does not change which runs there are. -/
theorem Reaches.map {F : Prog ι ρ ε α → Prog ι ρ ε' β}
    (hF : ∀ i k, F (.call i k) = .call i fun r => F (k r)) {c c' : Prog ι ρ ε α × σ}
    (h : Reaches E c c') : Reaches E (F c.1, c.2) (F c'.1, c'.2) := by
  induction h with
  | refl => exact .refl
  | tail _ hs ih =>
    cases hs with
    | call hr =>
      rw [hF] at ih
      exact .tail ih (.call hr)

/-- More answers allow more runs. -/
theorem Ends.mono {E' : Env ι ρ σ} (hE : ∀ {i w r w'}, E i w r w' → E' i w r w') {r : Except ε α}
    (h : Ends E p w r w') : Ends E' p w r w' := by
  refine Relation.ReflTransGen.mono (fun c c' hs => ?_) _ _ h
  cases hs with
  | call hr => exact .call (hE hr)

theorem Ends.ret (a : α) (w : σ) : Ends E (.ret a : Prog ι ρ ε α) w (.ok a) w := .refl

theorem Ends.call {i : ι} {k : ρ i → Prog ι ρ ε α} {r : ρ i} {res : Except ε α}
    (hr : E i w r w₁) (h : Ends E (k r) w₁ res w') : Ends E (.call i k) w res w' :=
  .head (.call hr) h

theorem Ends.bind {a : α} {f : α → Prog ι ρ ε β} {r : Except ε β} (h : Ends E p w (.ok a) w₁)
    (h' : Ends E (f a) w₁ r w') : Ends E (p >>= f) w r w' := by
  have hrun := Reaches.map (F := (· >>= f)) (fun _ _ => rfl) h
  exact hrun.trans h'

/-- A run that goes on behind the first part. -/
theorem Ends.bind_reaches {a : α} {f : α → Prog ι ρ ε β} {c : Prog ι ρ ε β × σ}
    (h : Ends E p w (.ok a) w₁) (h' : Reaches E (f a, w₁) c) : Reaches E (p >>= f, w) c := by
  have hrun := Reaches.map (F := (· >>= f)) (fun _ _ => rfl) h
  exact hrun.trans h'

theorem Ends.bind_error {e : ε} {f : α → Prog ι ρ ε β} (h : Ends E p w (.error e) w') :
    Ends E (p >>= f) w (.error e) w' :=
  Reaches.map (F := (· >>= f)) (fun _ _ => rfl) h

theorem Ends.mapError {f : ε → ε'} {r : Except ε α} (h : Ends E p w r w') :
    Ends E (p.mapError f) w (r.mapError f) w' := by
  have hrun := Reaches.map (F := Prog.mapError f) (fun _ _ => rfl) h
  cases r <;> exact hrun

theorem Ends.attempt {r : Except ε α} (h : Ends E p w r w') :
    Ends E (p.attempt : Prog ι ρ ε' (Except ε α)) w (.ok r) w' := by
  have hrun := Reaches.map (F := fun q => (q.attempt : Prog ι ρ ε' (Except ε α)))
    (fun _ _ => rfl) h
  cases r <;> exact hrun

/-- A run in an environment that is a part of a larger one, `put` into it. -/
theorem Ends.lift {ι' τ : Type} {ρ' : ι' → Type} {E' : Env ι' ρ' τ} {f : ι → ι'}
    {g : ∀ i, ρ' (f i) → ρ i} (put : σ → τ)
    (hE : ∀ i w a w', E i w a w' → ∃ r, g i r = a ∧ E' (f i) (put w) r (put w'))
    {r : Except ε α} (h : Ends E p w r w') : Ends E' (p.lift f g) (put w) r (put w') := by
  have hrun {c c' : Prog ι ρ ε α × σ} (h : Reaches E c c') :
      Reaches E' (c.1.lift f g, put c.2) (c'.1.lift f g, put c'.2) := by
    induction h with
    | refl => exact .refl
    | tail _ hs ih =>
      cases hs with
      | call hr =>
        obtain ⟨r, rfl, hr'⟩ := hE _ _ _ _ hr
        exact .tail ih (.call hr')
  cases r <;> exact hrun h

end Build

/-! ## Taking runs apart -/

section Cases

variable {p : Prog ι ρ ε α} {w w' : σ} {r : Except ε α}

theorem ends_ofExcept {x : Except ε α} :
    Ends E (ofExcept x : Prog ι ρ ε α) w r w' ↔ r = x ∧ w' = w := by
  constructor
  · intro h
    obtain heq | ⟨c, hs, -⟩ := Relation.ReflTransGen.cases_head h
    · cases r <;> cases x <;> cases heq <;> exact ⟨rfl, rfl⟩
    · cases x <;> cases hs
  · rintro ⟨rfl, rfl⟩
    exact .refl

theorem ends_ret {a : α} : Ends E (.ret a : Prog ι ρ ε α) w r w' ↔ r = .ok a ∧ w' = w := by
  change Ends E (ofExcept (.ok a)) w r w' ↔ _
  exact ends_ofExcept

theorem ends_fail {e : ε} : Ends E (.fail e : Prog ι ρ ε α) w r w' ↔ r = .error e ∧ w' = w := by
  change Ends E (ofExcept (.error e)) w r w' ↔ _
  exact ends_ofExcept

theorem ends_call {i : ι} {k : ρ i → Prog ι ρ ε α} :
    Ends E (.call i k) w r w' ↔ ∃ a w₁, E i w a w₁ ∧ Ends E (k a) w₁ r w' := by
  constructor
  · intro h
    obtain heq | ⟨c, hs, hrest⟩ := Relation.ReflTransGen.cases_head h
    · cases r <;> cases heq
    · cases hs with
      | call hr => exact ⟨_, _, hr, hrest⟩
  · rintro ⟨a, w₁, hr, hrest⟩
    exact .call hr hrest

theorem ends_bind {f : α → Prog ι ρ ε β} {r : Except ε β} (h : Ends E (p >>= f) w r w') :
    (∃ a w₁, Ends E p w (.ok a) w₁ ∧ Ends E (f a) w₁ r w') ∨
      ∃ e, r = .error e ∧ Ends E p w (.error e) w' := by
  induction p generalizing w with
  | ret a => exact .inl ⟨a, w, .refl, h⟩
  | fail e =>
    obtain ⟨rfl, rfl⟩ := ends_fail.mp h
    exact .inr ⟨e, rfl, .refl⟩
  | call i k ih =>
    obtain ⟨a, w₁, hr, hrest⟩ := ends_call.mp h
    obtain ⟨b, w₂, hfirst, hlast⟩ | ⟨e, rfl, hfirst⟩ := ih a hrest
    · exact .inl ⟨b, w₂, .call hr hfirst, hlast⟩
    · exact .inr ⟨e, rfl, .call hr hfirst⟩

end Cases

/-- An environment that answers every call lets every program end. -/
theorem exists_ends (hE : ∀ i w, ∃ r w', E i w r w') (p : Prog ι ρ ε α) (w : σ) :
    ∃ r w', Ends E p w r w' := by
  induction p generalizing w with
  | ret a => exact ⟨.ok a, w, .refl⟩
  | fail e => exact ⟨.error e, w, .refl⟩
  | call i k ih =>
    obtain ⟨r, w₁, hr⟩ := hE i w
    obtain ⟨res, w₂, h⟩ := ih r w₁
    exact ⟨res, w₂, .head (.call hr) h⟩

/-! ## Weakest preconditions -/

/-- Every run of the program from `w` keeps the invariant at each of its points, and ends in the
postcondition if it ends. -/
def wp (E : Env ι ρ σ) (I : Option ι → σ → Prop) :
    Prog ι ρ ε α → (Except ε α → σ → Prop) → σ → Prop
  | .ret a, Q, w => I none w ∧ Q (.ok a) w
  | .fail e, Q, w => I none w ∧ Q (.error e) w
  | .call i k, Q, w => I (some i) w ∧ ∀ r w', E i w r w' → wp E I (k r) Q w'

variable {I : Option ι → σ → Prop} {p : Prog ι ρ ε α} {Q : Except ε α → σ → Prop} {w : σ}

@[simp] theorem wp_ret {a : α} : wp E I (.ret a) Q w ↔ I none w ∧ Q (.ok a) w := Iff.rfl
@[simp] theorem wp_fail {e : ε} :
    wp E I (.fail e : Prog ι ρ ε α) Q w ↔ I none w ∧ Q (.error e) w := Iff.rfl
theorem wp_call {i : ι} {k : ρ i → Prog ι ρ ε α} : wp E I (.call i k) Q w ↔
    I (some i) w ∧ ∀ r w', E i w r w' → wp E I (k r) Q w' := Iff.rfl

theorem wp_call_bind {i : ι} {f : ρ i → Prog ι ρ ε α} : wp E I (.call i .ret >>= f) Q w ↔
    I (some i) w ∧ ∀ r w', E i w r w' → wp E I (f r) Q w' := Iff.rfl

/-- The invariant holds where the program is now. -/
theorem wp.invariant (h : wp E I p Q w) : I p.pending w := by
  cases p <;> exact h.1

theorem wp.mono {R : Except ε α → σ → Prop} (h : wp E I p Q w) (hQ : ∀ r w, Q r w → R r w) :
    wp E I p R w := by
  induction p generalizing w with
  | ret a => exact ⟨h.1, hQ _ _ h.2⟩
  | fail e => exact ⟨h.1, hQ _ _ h.2⟩
  | call i k ih => exact ⟨h.1, fun r w' hr => ih r (h.2 r w' hr)⟩

theorem wp.mono_invariant {J : Option ι → σ → Prop} (h : wp E I p Q w)
    (hI : ∀ c w, I c w → J c w) : wp E J p Q w := by
  induction p generalizing w with
  | ret a => exact ⟨hI _ _ h.1, h.2⟩
  | fail e => exact ⟨hI _ _ h.1, h.2⟩
  | call i k ih => exact ⟨hI _ _ h.1, fun r w' hr => ih r (h.2 r w' hr)⟩

theorem wp.and {J : Option ι → σ → Prop} {R : Except ε α → σ → Prop} (h : wp E I p Q w)
    (h' : wp E J p R w) : wp E (fun c w => I c w ∧ J c w) p (fun r w => Q r w ∧ R r w) w := by
  induction p generalizing w with
  | ret a => exact ⟨⟨h.1, h'.1⟩, h.2, h'.2⟩
  | fail e => exact ⟨⟨h.1, h'.1⟩, h.2, h'.2⟩
  | call i k ih => exact ⟨⟨h.1, h'.1⟩, fun r w' hr => ih r (h.2 r w' hr) (h'.2 r w' hr)⟩

theorem wp.bind {f : α → Prog ι ρ ε β} {R : Except ε β → σ → Prop}
    (h : wp E I p (fun r w => match r with
      | .ok a => wp E I (f a) R w
      | .error e => R (.error e) w) w) : wp E I (p >>= f) R w := by
  induction p generalizing w with
  | ret a => exact h.2
  | fail e => exact h
  | call i k ih => exact ⟨h.1, fun r w' hr => ih r (h.2 r w' hr)⟩

/-- A step that asks for nothing. -/
theorem wp_ofExcept_bind {x : Except ε α} {f : α → Prog ι ρ ε β} {R : Except ε β → σ → Prop}
    (hok : ∀ a, x = .ok a → wp E I (f a) R w) (herror : ∀ e, wp E I (.fail e) R w) :
    wp E I (Prog.ofExcept x >>= f) R w := by
  cases x with
  | ok a => exact hok a rfl
  | error e => exact herror e

theorem wp.mapError {f : ε → ε'} {R : Except ε' α → σ → Prop}
    (h : wp E I p (fun r w => R (r.mapError f) w) w) : wp E I (p.mapError f) R w := by
  induction p generalizing w with
  | ret a => exact h
  | fail e => exact h
  | call i k ih => exact ⟨h.1, fun r w' hr => ih r (h.2 r w' hr)⟩

theorem wp.attempt {R : Except ε' (Except ε α) → σ → Prop}
    (h : wp E I p (fun r w => R (.ok r) w) w) :
    wp E I (p.attempt : Prog ι ρ ε' (Except ε α)) R w := by
  induction p generalizing w with
  | ret a => exact h
  | fail e => exact h
  | call i k ih => exact ⟨h.1, fun r w' hr => ih r (h.2 r w' hr)⟩

/-- A program whose environment is a part of a larger one, `put` into it. -/
theorem wp.lift {ι' τ : Type} {ρ' : ι' → Type} {E' : Env ι' ρ' τ} {f : ι → ι'}
    {g : ∀ i, ρ' (f i) → ρ i} (put : σ → τ)
    (hE : ∀ i w r t, E' (f i) (put w) r t → ∃ w', t = put w' ∧ E i w (g i r) w')
    {J : Option ι' → τ → Prop} (hJ : ∀ c w, I c w → J (c.map f) (put w))
    {R : Except ε α → τ → Prop} (h : wp E I p (fun r w => R r (put w)) w) :
    wp E' J (p.lift f g) R (put w) := by
  induction p generalizing w with
  | ret a => exact ⟨hJ _ _ h.1, h.2⟩
  | fail e => exact ⟨hJ _ _ h.1, h.2⟩
  | call i k ih =>
    refine ⟨hJ _ _ h.1, fun r t hr => ?_⟩
    obtain ⟨w', rfl, hanswer⟩ := hE i w r t hr
    exact ih _ (h.2 _ _ hanswer)

/-- The environment has an answer to the call. -/
def Answerable (E : Env ι ρ σ) : Option ι → σ → Prop
  | none, _ => True
  | some i, w => ∃ r w', E i w r w'

/-- A program whose calls can all be answered has a run that ends. -/
theorem wp.exists_ends (h : wp E (Answerable E) p Q w) : ∃ r w', Ends E p w r w' := by
  induction p generalizing w with
  | ret a => exact ⟨.ok a, w, .refl⟩
  | fail e => exact ⟨.error e, w, .refl⟩
  | call i k ih =>
    obtain ⟨r, w₁, hr⟩ := h.1
    obtain ⟨res, w₂, hrun⟩ := ih r (h.2 r w₁ hr)
    exact ⟨res, w₂, .call hr hrun⟩

/-- A step keeps the weakest precondition. -/
theorem wp.step {c c' : Prog ι ρ ε α × σ} (h : wp E I c.1 Q c.2) (hs : Step E c c') :
    wp E I c'.1 Q c'.2 := by
  cases hs with
  | call hr => exact h.2 _ _ hr

theorem wp.reaches {c c' : Prog ι ρ ε α × σ} (h : wp E I c.1 Q c.2) (hs : Reaches E c c') :
    wp E I c'.1 Q c'.2 := by
  induction hs with
  | refl => exact h
  | tail _ hs ih => exact ih.step hs

/-- What the weakest precondition says about complete runs. -/
theorem wp.ends {r : Except ε α} {w' : σ} (h : wp E I p Q w) (hr : Ends E p w r w') : Q r w' := by
  have := h.reaches hr
  cases r <;> exact this.2

/-- What holds of all complete runs is a postcondition. -/
theorem wp.of_ends (h : ∀ r w', Ends E p w r w' → Q r w') : wp E (fun _ _ => True) p Q w := by
  induction p generalizing w with
  | ret a => exact ⟨trivial, h _ _ .refl⟩
  | fail e => exact ⟨trivial, h _ _ .refl⟩
  | call i k ih => exact ⟨trivial, fun r w' hr => ih r fun res w'' hrun => h _ _ (.call hr hrun)⟩

/-! ## Programs with few calls -/

namespace Prog

/-- Every call the program may make is in `P`. -/
def Only (P : ι → Prop) : Prog ι ρ ε α → Prop
  | ret _ => True
  | fail _ => True
  | call i k => P i ∧ ∀ r, (k r).Only P

variable {P : ι → Prop} {p : Prog ι ρ ε α}

theorem Only.mono {P' : ι → Prop} (h : p.Only P) (hP : ∀ i, P i → P' i) : p.Only P' := by
  induction p with
  | ret a => trivial
  | fail e => trivial
  | call i k ih => exact ⟨hP i h.1, fun r => ih r (h.2 r)⟩

theorem Only.bind {f : α → Prog ι ρ ε β} (h : p.Only P) (hf : ∀ a, (f a).Only P) :
    (p >>= f).Only P := by
  induction p with
  | ret a => exact hf a
  | fail e => trivial
  | call i k ih => exact ⟨h.1, fun r => ih r (h.2 r)⟩

theorem Only.attempt (h : p.Only P) : (p.attempt : Prog ι ρ ε' (Except ε α)).Only P := by
  induction p with
  | ret a => trivial
  | fail e => trivial
  | call i k ih => exact ⟨h.1, fun r => ih r (h.2 r)⟩

theorem Only.mapError {f : ε → ε'} (h : p.Only P) : (p.mapError f).Only P := by
  induction p with
  | ret a => trivial
  | fail e => trivial
  | call i k ih => exact ⟨h.1, fun r => ih r (h.2 r)⟩

theorem Only.lift {ι' : Type} {ρ' : ι' → Type} {f : ι → ι'} {g : ∀ i, ρ' (f i) → ρ i}
    {P' : ι' → Prop} (hf : ∀ i, P i → P' (f i)) (h : p.Only P) : (p.lift f g).Only P' := by
  induction p with
  | ret a => trivial
  | fail e => trivial
  | call i k ih => exact ⟨hf i h.1, fun r => ih (g i r) (h.2 (g i r))⟩

theorem only_true (p : Prog ι ρ ε α) : p.Only fun _ => True := by
  induction p with
  | ret a => trivial
  | fail e => trivial
  | call i k ih => exact ⟨trivial, ih⟩

end Prog

/-- The invariant may rely on which calls a program makes. -/
theorem wp.of_only {P : ι → Prop} {J : Option ι → σ → Prop} (h : wp E I p Q w) (hp : p.Only P)
    (hJ : ∀ c w, I c w → (∀ i, c = some i → P i) → J c w) : wp E J p Q w := by
  induction p generalizing w with
  | ret a => exact ⟨hJ _ _ h.1 nofun, h.2⟩
  | fail e => exact ⟨hJ _ _ h.1 nofun, h.2⟩
  | call i k ih =>
    refine ⟨hJ _ _ h.1 fun j hj => ?_, fun r w' hr => ih r (h.2 r w' hr) (hp.2 r)⟩
    obtain rfl := Option.some.inj hj
    exact hp.1

/-- An environment that answers the calls of a program as another one does. -/
theorem wp.of_part {P : ι → Prop} {E' : Env ι ρ σ} (h : wp E I p Q w) (hp : p.Only P)
    (hE : ∀ i w r w', P i → E' i w r w' → E i w r w') : wp E' I p Q w := by
  induction p generalizing w with
  | ret a => exact h
  | fail e => exact h
  | call i k ih => exact ⟨h.1, fun r w' hr => ih r (h.2 _ _ (hE _ _ _ _ hp.1 hr)) (hp.2 r)⟩

/-- What the answers to all calls of a program keep, the program keeps. -/
theorem wp_of_kept {P : ι → Prop} {A : σ → Prop} {I : Option ι → σ → Prop} {p : Prog ι ρ ε α}
    (hp : p.Only P) (hI : ∀ c w, (∀ i, c = some i → P i) → A w → I c w)
    (hE : ∀ i w r w', P i → A w → E i w r w' → A w') {w : σ} (h : A w) :
    wp E I p (fun _ w => A w) w := by
  induction p generalizing w with
  | ret a => exact ⟨hI _ _ nofun h, h⟩
  | fail e => exact ⟨hI _ _ nofun h, h⟩
  | call i k ih =>
    refine ⟨hI _ _ (fun j hj => ?_) h, fun r w' hr => ih r (hp.2 r) (hE i w r w' hp.1 h hr)⟩
    obtain rfl := Option.some.inj hj
    exact hp.1

/-! ## Results -/

namespace Prog

/-- However its calls are answered, the program ends in `R` if it ends. -/
def Outcome (R : Except ε α → Prop) : Prog ι ρ ε α → Prop
  | ret a => R (.ok a)
  | fail e => R (.error e)
  | call _ k => ∀ r, (k r).Outcome R

theorem Outcome.bind {p : Prog ι ρ ε α} {f : α → Prog ι ρ ε β} {R : Except ε α → Prop}
    {S : Except ε β → Prop} (h : p.Outcome R) (hok : ∀ a, R (.ok a) → (f a).Outcome S)
    (herror : ∀ e, R (.error e) → S (.error e)) : (p >>= f).Outcome S := by
  induction p with
  | ret a => exact hok a h
  | fail e => exact herror e h
  | call i k ih => exact fun r => ih r (h r)

/-- A program without errors, as one that could have some. -/
theorem outcome_lift {ι' : Type} {ρ' : ι' → Type} (f : ι → ι') (g : ∀ i, ρ' (f i) → ρ i)
    (p : Prog ι ρ Empty α) :
    ((p.lift f g).mapError Empty.elim : Prog ι' ρ' ε α).Outcome fun r => ∃ a, r = .ok a := by
  induction p with
  | ret a => exact ⟨a, rfl⟩
  | fail e => exact e.elim
  | call i k ih => exact fun r => ih (g i r)

end Prog

theorem wp.outcome {R : Except ε α → Prop} (h : wp E I p Q w) (hp : p.Outcome R) :
    wp E I p (fun r w => Q r w ∧ R r) w := by
  induction p generalizing w with
  | ret a => exact ⟨h.1, h.2, hp⟩
  | fail e => exact ⟨h.1, h.2, hp⟩
  | call i k ih => exact ⟨h.1, fun r w' hr => ih r (h.2 r w' hr) (hp r)⟩

/-! ## Counting calls -/

/-- The first `n` steps of some run lead from the one configuration to the other. -/
inductive Steps (E : Env ι ρ σ) : Nat → Prog ι ρ ε α × σ → Prog ι ρ ε α × σ → Prop where
  | refl {c} : Steps E 0 c c
  | head {n c c₁ c'} : Step E c c₁ → Steps E n c₁ c' → Steps E (n + 1) c c'

theorem Steps.reaches {n : Nat} {c c' : Prog ι ρ ε α × σ} (h : Steps E n c c') :
    Reaches E c c' := by
  induction h with
  | refl => exact .refl
  | head hs _ ih => exact .head hs ih

/-- The program makes at most `n` calls, whatever the answers are. -/
def Prog.Within : Prog ι ρ ε α → Nat → Prop
  | ret _, _ => True
  | fail _, _ => True
  | call _ _, 0 => False
  | call _ k, n + 1 => ∀ r, (k r).Within n

theorem Prog.Within.mono {p : Prog ι ρ ε α} {n m : Nat} (h : p.Within n) (hle : n ≤ m) :
    p.Within m := by
  induction p generalizing n m with
  | ret a => trivial
  | fail e => trivial
  | call i k ih =>
    cases n with
    | zero => exact h.elim
    | succ n =>
      obtain ⟨m, rfl⟩ : ∃ m', m = m' + 1 := ⟨m - 1, by omega⟩
      exact fun r => ih r (h r) (by omega)

theorem Prog.within_ofExcept (r : Except ε α) (n : Nat) :
    (ofExcept r : Prog ι ρ ε α).Within n := by
  cases r <;> trivial

/-- No run makes more calls. -/
theorem Steps.le_of_within {n m : Nat} {c c' : Prog ι ρ ε α × σ} (h : Steps E n c c')
    (hp : c.1.Within m) : n ≤ m := by
  induction h generalizing m with
  | refl => exact Nat.zero_le m
  | head hs _ ih =>
    cases hs with
    | call hr =>
      cases m with
      | zero => exact hp.elim
      | succ m => exact Nat.succ_le_succ (ih (hp _))

/-! ## Loops -/

/-- Result of one turn of a loop. -/
inductive Next (s α : Type) where
  | again (v : s)
  | exit (a : α)

namespace Loop

variable {s : Type}

/-- Steps of a program that starts the body again when it asks for it. -/
inductive Step (E : Env ι ρ σ) (body : s → Prog ι ρ ε (Next s α)) :
    Prog ι ρ ε (Next s α) × σ → Prog ι ρ ε (Next s α) × σ → Prop where
  | run {c c'} : Interaction.Step E c c' → Step E body c c'
  | again {v w} : Step E body (.ret (.again v), w) (body v, w)

abbrev Reaches (E : Env ι ρ σ) (body : s → Prog ι ρ ε (Next s α)) :
    Prog ι ρ ε (Next s α) × σ → Prog ι ρ ε (Next s α) × σ → Prop :=
  Relation.ReflTransGen (Step E body)

section Steps

variable {body : s → Prog ι ρ ε (Next s α)} {c : Prog ι ρ ε (Next s α) × σ} {w : σ}

theorem step_call {i : ι} {k : ρ i → Prog ι ρ ε (Next s α)} :
    Step E body (.call i k, w) c ↔ ∃ r w', E i w r w' ∧ c = (k r, w') := by
  constructor
  · rintro (⟨⟨hr⟩⟩ | _)
    exact ⟨_, _, hr, rfl⟩
  · rintro ⟨r, w', hr, rfl⟩
    exact .run (.call hr)

theorem step_again {v : s} : Step E body (.ret (.again v), w) c ↔ c = (body v, w) := by
  constructor
  · rintro (⟨⟨⟩⟩ | _)
    rfl
  · rintro rfl
    exact .again

theorem not_step_exit {a : α} : ¬ Step E body (.ret (.exit a), w) c := by
  rintro ⟨⟨⟩⟩

theorem not_step_fail {e : ε} : ¬ Step E body (.fail e, w) c := by
  rintro ⟨⟨⟩⟩

end Steps

theorem reaches_of_reaches {body : s → Prog ι ρ ε (Next s α)} {c c' : Prog ι ρ ε (Next s α) × σ}
    (h : Interaction.Reaches E c c') : Reaches E body c c' := by
  induction h with
  | refl => exact .refl
  | tail _ hs ih => exact .tail ih (.run hs)

/-- A complete turn leads to the start of the next one. -/
theorem reaches_again {body : s → Prog ι ρ ε (Next s α)} {p : Prog ι ρ ε (Next s α)} {v : s}
    {w w' : σ} (h : Ends E p w (.ok (.again v)) w') : Reaches E body (p, w) (body v, w') :=
  .tail (reaches_of_reaches h) .again

/-- Postcondition of one turn: the loop invariant if it goes on. -/
def post (J : s → σ → Prop) (Q : Except ε α → σ → Prop) : Except ε (Next s α) → σ → Prop
  | .ok (.again v), w => J v w
  | .ok (.exit a), w => Q (.ok a) w
  | .error e, w => Q (.error e) w

/-- If every turn that starts in the loop invariant satisfies `post`, so does a run of any
number of turns. -/
theorem reaches {body : s → Prog ι ρ ε (Next s α)} {J : s → σ → Prop}
    {Q : Except ε α → σ → Prop} (hbody : ∀ v w, J v w → wp E I (body v) (post J Q) w)
    {c c' : Prog ι ρ ε (Next s α) × σ} (h : wp E I c.1 (post J Q) c.2)
    (hs : Reaches E body c c') : wp E I c'.1 (post J Q) c'.2 := by
  induction hs with
  | refl => exact h
  | tail _ hs ih =>
    cases hs with
    | run hs => exact ih.step hs
    | again => exact hbody _ _ ih.2

end Loop

/-! ## Environments with a finer world -/

section Simulation

variable {τ s : Type} {F : Env ι ρ τ} {view : σ → τ} {body : s → Prog ι ρ ε (Next s α)}

/-- Each answer of the one environment is, seen through `view`, an answer of the other. -/
def Simulates (view : σ → τ) (E : Env ι ρ σ) (F : Env ι ρ τ) : Prop :=
  ∀ ⦃i w r w'⦄, E i w r w' → F i (view w) r (view w')

/-- What holds of all runs in the other environment holds of those in this one. -/
theorem wp.of_simulates {I : Option ι → τ → Prop} {p : Prog ι ρ ε α}
    {Q : Except ε α → τ → Prop} {w : σ} (h : wp F I p Q (view w)) (hE : Simulates view E F) :
    wp E (fun c w => I c (view w)) p (fun r w => Q r (view w)) w := by
  induction p generalizing w with
  | ret a => exact h
  | fail e => exact h
  | call i k ih => exact ⟨h.1, fun r w' hr => ih r (h.2 _ _ (hE hr))⟩

/-- Runs of the one environment are runs of the other. -/
theorem Simulates.reaches {c c' : Prog ι ρ ε (Next s α) × σ} (hE : Simulates view E F)
    (h : Loop.Reaches E body c c') :
    Loop.Reaches F body (c.1, view c.2) (c'.1, view c'.2) := by
  refine h.lift (fun c : Prog ι ρ ε (Next s α) × σ => (c.1, view c.2)) fun c c' hs => ?_
  cases hs with
  | run hs =>
    cases hs with
    | call hr => exact .run (.call (hE hr))
  | again => exact .again

/-- What the answers keep while the invariant of the other environment holds, every run of the loop
keeps. -/
theorem Simulates.keeps {I : Option ι → τ → Prop} {J : s → τ → Prop} {Q : Except ε α → τ → Prop}
    {A : σ → Prop} (hE : Simulates view E F)
    (hbody : ∀ v w, J v w → wp F I (body v) (Loop.post J Q) w)
    (hA : ∀ i w r w', I (some i) (view w) → A w → E i w r w' → A w')
    {c c' : Prog ι ρ ε (Next s α) × σ} (h : wp F I c.1 (Loop.post J Q) (view c.2)) (hnow : A c.2)
    (hs : Loop.Reaches E body c c') :
    wp F I c'.1 (Loop.post J Q) (view c'.2) ∧ A c'.2 := by
  induction hs with
  | refl => exact ⟨h, hnow⟩
  | tail _ hs ih =>
    cases hs with
    | run hs =>
      cases hs with
      | call hr => exact ⟨ih.1.2 _ _ (hE hr), hA _ _ _ _ ih.1.1 ih.2 hr⟩
    | again => exact ⟨hbody _ _ ih.1.2, ih.2⟩

end Simulation

end Interaction
