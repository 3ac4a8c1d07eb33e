import NyaSniProxy.Library.Interaction

/-!
# Deadlines

A program arms a timer in front of a part of it and disarms it behind. Under a timer a call is
answered soon after the deadline, since the timer cuts it off. Without one it may take for ever,
unless it is prompt. `Takes` bounds the time of a program at all points of all its runs, and it
composes. `erase` takes the timers out.
-/

namespace Deadline

open Interaction

inductive Call (ι : Type) where
  | io (i : ι)
  | arm (limit : Nat)
  | disarm

abbrev Reply {ι : Type} (ρ : ι → Type) : Call ι → Type
  | .io i => ρ i
  | .arm _ | .disarm => Unit

abbrev Timed (ι : Type) (ρ : ι → Type) (ε α : Type) := Prog (Call ι) (Reply ρ) ε α

variable {ι : Type} {ρ : ι → Type} {ε ε' α β : Type}

def ofProg (p : Prog ι ρ ε α) : Timed ι ρ ε α := p.lift .io fun _ r => r

/-- The program under a timer, which is disarmed however it ends. -/
def under (limit : Nat) (p : Prog ι ρ ε α) : Timed ι ρ ε α := do
  .call (.arm limit) .ret
  let result ← (ofProg p).attempt
  .call .disarm .ret
  .ofExcept result

/-! ## Without timers -/

def erase : Timed ι ρ ε α → Prog ι ρ ε α
  | .ret a => .ret a
  | .fail e => .fail e
  | .call (.io i) k => .call i fun r => erase (k r)
  | .call (.arm _) k => erase (k ())
  | .call .disarm k => erase (k ())

theorem erase_bind (p : Timed ι ρ ε α) (f : α → Timed ι ρ ε β) :
    erase (p >>= f) = erase p >>= fun a => erase (f a) := by
  induction p with
  | ret a => rfl
  | fail e => rfl
  | call i k ih =>
    cases i with
    | io i => exact congrArg (Prog.call i) (funext ih)
    | arm limit => exact ih ()
    | disarm => exact ih ()

theorem erase_attempt (p : Timed ι ρ ε α) :
    erase (p.attempt : Timed ι ρ ε' (Except ε α)) = (erase p).attempt := by
  induction p with
  | ret a => rfl
  | fail e => rfl
  | call i k ih =>
    cases i with
    | io i => exact congrArg (Prog.call i) (funext ih)
    | arm limit => exact ih ()
    | disarm => exact ih ()

theorem erase_ofExcept (r : Except ε α) : erase (.ofExcept r : Timed ι ρ ε α) = .ofExcept r := by
  cases r <;> rfl

theorem erase_ofProg (p : Prog ι ρ ε α) : erase (ofProg p) = p := by
  induction p with
  | ret a => rfl
  | fail e => rfl
  | call i k ih => exact congrArg (Prog.call i) (funext ih)

theorem attempt_bind_ofExcept (p : Prog ι ρ ε α) :
    ((p.attempt : Prog ι ρ ε (Except ε α)) >>= Prog.ofExcept) = p := by
  induction p with
  | ret a => rfl
  | fail e => rfl
  | call i k ih => exact congrArg (Prog.call i) (funext ih)

theorem erase_under (limit : Nat) (p : Prog ι ρ ε α) : erase (under limit p) = p := by
  have hrest (result : Except ε α) :
      erase (.call .disarm fun _ => .ofExcept result : Timed ι ρ ε α) = .ofExcept result :=
    erase_ofExcept result
  calc erase (under limit p)
      = erase ((ofProg p).attempt >>= fun result => .call .disarm fun _ => .ofExcept result) := rfl
    _ = (erase (ofProg p)).attempt >>= Prog.ofExcept := by
        rw [erase_bind, erase_attempt, funext hrest]
    _ = p := by rw [erase_ofProg, attempt_bind_ofExcept]

/-! ## Time -/

structure Clock where
  now : Nat
  deadline : Option Nat

/-- The answers of an environment that is late by `lag` at most. -/
inductive Answer (allowed : (i : ι) → ρ i → Prop) (prompt : ι → Prop) (lag : Nat) :
    Env (Call ι) (Reply ρ) Clock where
  | io {i s now} (r : ρ i) : allowed i r → s.now ≤ now → (prompt i → now ≤ s.now + lag) →
      (∀ d, s.deadline = some d → now ≤ max s.now (d + lag)) →
      Answer allowed prompt lag (.io i) s r { s with now }
  | arm {limit s} : Answer allowed prompt lag (.arm limit) s ()
      { s with deadline := some (s.now + limit) }
  | disarm {s} : Answer allowed prompt lag .disarm s () { s with deadline := none }

variable {allowed : (i : ι) → ρ i → Prop} {prompt : ι → Prop} {lag b b' : Nat}
  {p : Timed ι ρ ε α}

variable (allowed prompt lag) in
/-- No run of the program takes longer, up to any of its points. -/
def Takes (p : Timed ι ρ ε α) (b : Nat) : Prop :=
  ∀ s : Clock, s.deadline = none →
    wp (Answer allowed prompt lag) (fun _ s' => s'.now ≤ s.now + b) p
      (fun _ s' => s'.now ≤ s.now + b ∧ s'.deadline = none) s

theorem Takes.mono (h : Takes allowed prompt lag p b) (hb : b ≤ b') :
    Takes allowed prompt lag p b' := fun s hs =>
  ((h s hs).mono_invariant fun _ _ hnow => by omega).mono fun _ _ hend => ⟨by omega, hend.2⟩

theorem takes_ret (a : α) : Takes allowed prompt lag (.ret a : Timed ι ρ ε α) b := fun _ hs =>
  ⟨Nat.le_add_right _ _, Nat.le_add_right _ _, hs⟩

theorem takes_ofExcept (r : Except ε α) :
    Takes allowed prompt lag (.ofExcept r : Timed ι ρ ε α) b := fun s hs => by
  cases r <;> exact ⟨Nat.le_add_right _ _, Nat.le_add_right _ _, hs⟩

theorem Takes.bind {f : α → Timed ι ρ ε β} (h : Takes allowed prompt lag p b)
    (hf : ∀ a, Takes allowed prompt lag (f a) b') :
    Takes allowed prompt lag (p >>= f) (b + b') := by
  intro s hs
  refine wp.bind (((h s hs).mono_invariant fun _ _ hnow => by omega).mono ?_)
  rintro (e | a) s' ⟨hnow, hs'⟩
  · exact ⟨by omega, hs'⟩
  · refine ((hf a s' hs').mono_invariant fun _ _ hlater => ?_).mono fun _ _ hend => ⟨?_, hend.2⟩
    · omega
    · have := hend.1
      omega

theorem Takes.attempt (h : Takes allowed prompt lag p b) :
    Takes allowed prompt lag (p.attempt : Timed ι ρ ε' (Except ε α)) b := fun s hs =>
  wp.attempt (h s hs)

/-- A prompt call. -/
theorem takes_io {i : ι} {k : ρ i → Timed ι ρ ε α} (hi : prompt i)
    (hk : ∀ r, allowed i r → Takes allowed prompt lag (k r) b) :
    Takes allowed prompt lag (.call (.io i) k) (lag + b) := by
  refine fun s hs => wp_call.mpr ⟨Nat.le_add_right _ _, fun r s' hr => ?_⟩
  cases hr with
  | @io _ _ now _ hallowed _ hprompt _ =>
    have hnow : now ≤ s.now + lag := hprompt hi
    refine ((hk r hallowed { s with now } hs).mono_invariant fun _ s'' hlater => ?_).mono
      fun _ s'' hend => ⟨?_, hend.2⟩
    · simp only at hlater
      omega
    · have := hend.1
      simp only at this
      omega

/-- Whatever is done under a timer. -/
theorem takes_under (limit : Nat) (p : Prog ι ρ ε α) :
    Takes allowed prompt lag (under limit p) (limit + lag) := by
  refine fun s hs => wp_call_bind.mpr ⟨Nat.le_add_right _ _, fun _ s₁ hr => ?_⟩
  cases hr with
  | arm =>
    have honly : (ofProg p).Only fun c : Call ι => ∃ i, c = .io i :=
      Prog.Only.lift (fun i _ => ⟨i, rfl⟩) (Prog.only_true p)
    have hpart : wp (Answer allowed prompt lag) (fun _ s' => s'.now ≤ s.now + (limit + lag))
        (ofProg p) (fun _ s' => s'.deadline = some (s.now + limit) ∧
          s'.now ≤ s.now + (limit + lag)) { s with deadline := some (s.now + limit) } := by
      refine wp_of_kept honly (fun _ _ _ hnow => hnow.2) (fun c s₁ r s₂ hc hnow hr => ?_)
        ⟨rfl, Nat.le_add_right _ _⟩
      cases hr with
      | io _ _ _ _ hcut =>
        have := hcut _ hnow.1
        exact ⟨hnow.1, by simp only; omega⟩
      | arm | disarm =>
        obtain ⟨i, hi⟩ := hc
        cases hi
    refine wp.bind (wp.attempt (hpart.mono fun result s₂ h₂ => ?_))
    refine wp_call_bind.mpr ⟨h₂.2, fun _ s₃ hr => ?_⟩
    cases hr with
    | disarm => cases result <;> exact ⟨h₂.2, h₂.2, rfl⟩

end Deadline
