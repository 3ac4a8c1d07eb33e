import NyaSniProxy.Library.Interaction

/-!
# Records of runs

A `view` says what is seen of a call and of its answer, if anything is. The record of a complete run
is what is seen of its calls, one after the other. `Lockstep` compares two programs run by run: the
second one has every record of the first one, and where their records are the same, so are their
results. So a value that is not seen and in which the programs differ is shown by no result.
`Lockstep` is a congruence for the ways programs are built.
-/

namespace Interaction

variable {ι : Type} {ρ : ι → Type} {ε ε' α β ω : Type} {A A' : (i : ι) → ρ i → Prop}
  {view : (i : ι) → ρ i → Option ω} {t t' : List ω}

/-- A complete run with allowed answers has this record and ends like this. -/
inductive HasRecord (A : (i : ι) → ρ i → Prop) (view : (i : ι) → ρ i → Option ω) :
    Prog ι ρ ε α → List ω → Except ε α → Prop where
  | ret {a} : HasRecord A view (.ret a) [] (.ok a)
  | fail {e} : HasRecord A view (.fail e) [] (.error e)
  | call {i k a t r} : A i a → HasRecord A view (k a) t r →
      HasRecord A view (.call i k) ((view i a).toList ++ t) r

theorem hasRecord_ret {a : α} {r : Except ε α} :
    HasRecord A view (.ret a : Prog ι ρ ε α) t r ↔ t = [] ∧ r = .ok a := by
  constructor
  · intro h
    cases h
    exact ⟨rfl, rfl⟩
  · rintro ⟨rfl, rfl⟩
    exact .ret

theorem hasRecord_fail {e : ε} {r : Except ε α} :
    HasRecord A view (.fail e : Prog ι ρ ε α) t r ↔ t = [] ∧ r = .error e := by
  constructor
  · intro h
    cases h
    exact ⟨rfl, rfl⟩
  · rintro ⟨rfl, rfl⟩
    exact .fail

theorem hasRecord_call {i : ι} {k : ρ i → Prog ι ρ ε α} {r : Except ε α} :
    HasRecord A view (.call i k) t r ↔
      ∃ a t', A i a ∧ t = (view i a).toList ++ t' ∧ HasRecord A view (k a) t' r := by
  constructor
  · intro h
    cases h with
    | call ha h => exact ⟨_, _, ha, rfl, h⟩
  · rintro ⟨a, t', ha, rfl, h⟩
    exact .call ha h

theorem HasRecord.bind {p : Prog ι ρ ε α} {f : α → Prog ι ρ ε β} {a : α} {r : Except ε β}
    (h : HasRecord A view p t (.ok a)) (hf : HasRecord A view (f a) t' r) :
    HasRecord A view (p >>= f) (t ++ t') r := by
  induction p generalizing t with
  | ret b =>
    obtain ⟨rfl, hb⟩ := hasRecord_ret.mp h
    obtain rfl := Except.ok.inj hb
    exact hf
  | fail e => exact absurd (hasRecord_fail.mp h).2 nofun
  | call i k ih =>
    obtain ⟨b, t₁, hb, rfl, hk⟩ := hasRecord_call.mp h
    rw [List.append_assoc]
    exact .call hb (ih b hk)

theorem HasRecord.bind_error {p : Prog ι ρ ε α} {f : α → Prog ι ρ ε β} {e : ε}
    (h : HasRecord A view p t (.error e)) : HasRecord A view (p >>= f) t (.error e) := by
  induction p generalizing t with
  | ret b => exact absurd (hasRecord_ret.mp h).2 nofun
  | fail e' =>
    obtain ⟨rfl, he⟩ := hasRecord_fail.mp h
    obtain rfl := Except.error.inj he
    exact .fail
  | call i k ih =>
    obtain ⟨b, t₁, hb, rfl, hk⟩ := hasRecord_call.mp h
    exact .call hb (ih b hk)

theorem hasRecord_bind {p : Prog ι ρ ε α} {f : α → Prog ι ρ ε β} {r : Except ε β} :
    HasRecord A view (p >>= f) t r ↔
      (∃ a t₁ t₂, t = t₁ ++ t₂ ∧ HasRecord A view p t₁ (.ok a) ∧ HasRecord A view (f a) t₂ r) ∨
      ∃ e, r = .error e ∧ HasRecord A view p t (.error e) := by
  constructor
  · induction p generalizing t with
    | ret a => exact fun h => .inl ⟨a, [], t, rfl, .ret, h⟩
    | fail e =>
      intro h
      obtain ⟨rfl, rfl⟩ := hasRecord_fail.mp h
      exact .inr ⟨e, rfl, .fail⟩
    | call i k ih =>
      intro h
      obtain ⟨b, t', hb, rfl, hk⟩ := hasRecord_call.mp h
      obtain ⟨a, t₁, t₂, rfl, hp, hf⟩ | ⟨e, rfl, hp⟩ := ih b hk
      · exact .inl ⟨a, _, t₂, (List.append_assoc ..).symm, .call hb hp, hf⟩
      · exact .inr ⟨e, rfl, .call hb hp⟩
  · rintro (⟨a, t₁, t₂, rfl, hp, hf⟩ | ⟨e, rfl, hp⟩)
    · exact hp.bind hf
    · exact hp.bind_error

theorem hasRecord_mapError {p : Prog ι ρ ε α} {f : ε → ε'} {r : Except ε' α} :
    HasRecord A view (p.mapError f) t r ↔ ∃ x, r = x.mapError f ∧ HasRecord A view p t x := by
  induction p generalizing t with
  | ret a =>
    refine hasRecord_ret.trans ⟨?_, ?_⟩
    · rintro ⟨rfl, rfl⟩
      exact ⟨.ok a, rfl, .ret⟩
    · rintro ⟨x, rfl, hx⟩
      obtain ⟨rfl, rfl⟩ := hasRecord_ret.mp hx
      exact ⟨rfl, rfl⟩
  | fail e =>
    refine hasRecord_fail.trans ⟨?_, ?_⟩
    · rintro ⟨rfl, rfl⟩
      exact ⟨.error e, rfl, .fail⟩
    · rintro ⟨x, rfl, hx⟩
      obtain ⟨rfl, rfl⟩ := hasRecord_fail.mp hx
      exact ⟨rfl, rfl⟩
  | call i k ih =>
    refine hasRecord_call.trans ⟨?_, ?_⟩
    · rintro ⟨a, t', ha, rfl, h⟩
      obtain ⟨x, hx, hp⟩ := (ih a).mp h
      exact ⟨x, hx, .call ha hp⟩
    · rintro ⟨x, rfl, h⟩
      obtain ⟨a, t', ha, rfl, hk⟩ := hasRecord_call.mp h
      exact ⟨a, t', ha, rfl, (ih a).mpr ⟨x, rfl, hk⟩⟩

theorem hasRecord_attempt {p : Prog ι ρ ε α} {r : Except ε' (Except ε α)} :
    HasRecord A view (p.attempt : Prog ι ρ ε' (Except ε α)) t r ↔
      ∃ x, r = .ok x ∧ HasRecord A view p t x := by
  induction p generalizing t with
  | ret a =>
    refine hasRecord_ret.trans ⟨?_, ?_⟩
    · rintro ⟨rfl, rfl⟩
      exact ⟨.ok a, rfl, .ret⟩
    · rintro ⟨x, rfl, hx⟩
      obtain ⟨rfl, rfl⟩ := hasRecord_ret.mp hx
      exact ⟨rfl, rfl⟩
  | fail e =>
    refine hasRecord_ret.trans ⟨?_, ?_⟩
    · rintro ⟨rfl, rfl⟩
      exact ⟨.error e, rfl, .fail⟩
    · rintro ⟨x, rfl, hx⟩
      obtain ⟨rfl, rfl⟩ := hasRecord_fail.mp hx
      exact ⟨rfl, rfl⟩
  | call i k ih =>
    refine hasRecord_call.trans ⟨?_, ?_⟩
    · rintro ⟨a, t', ha, rfl, h⟩
      obtain ⟨x, hx, hp⟩ := (ih a).mp h
      exact ⟨x, hx, .call ha hp⟩
    · rintro ⟨x, rfl, h⟩
      obtain ⟨a, t', ha, rfl, hk⟩ := hasRecord_call.mp h
      exact ⟨a, t', ha, rfl, (ih a).mpr ⟨x, rfl, hk⟩⟩

/-- A run in any world has a record. -/
theorem Ends.hasRecord {σ : Type} {E : Env ι ρ σ} {p : Prog ι ρ ε α} {s s' : σ} {r : Except ε α}
    (view : (i : ι) → ρ i → Option ω) (hE : ∀ i s a s', E i s a s' → A i a)
    (h : Ends E p s r s') : ∃ t, HasRecord A view p t r := by
  induction p generalizing s with
  | ret a =>
    obtain ⟨rfl, -⟩ := ends_ret.mp h
    exact ⟨[], .ret⟩
  | fail e =>
    obtain ⟨rfl, -⟩ := ends_fail.mp h
    exact ⟨[], .fail⟩
  | call i k ih =>
    obtain ⟨a, s₁, ha, hk⟩ := ends_call.mp h
    obtain ⟨t, ht⟩ := ih a hk
    exact ⟨_, .call (hE i s a s₁ ha) ht⟩

/-! ## Two programs side by side -/

/-- The second program follows the first one: it has every record of it with the same result. And
no record of one goes on where a record of the other ends, nor does one record end in two ways. -/
structure Lockstep (A A' : (i : ι) → ρ i → Prop) (view : (i : ι) → ρ i → Option ω)
    (p q : Prog ι ρ ε α) : Prop where
  follows : ∀ t r, HasRecord A view p t r → HasRecord A' view q t r
  known : ∀ t t' u u' r r', HasRecord A view p t r → HasRecord A' view q t' r' →
    t ++ u = t' ++ u' → t = t' ∧ r = r'

namespace Lockstep

variable {p q : Prog ι ρ ε α}

/-- The same record ends in the same result. -/
theorem result (h : Lockstep A A' view p q) {r r' : Except ε α} (hp : HasRecord A view p t r)
    (hq : HasRecord A' view q t r') : r = r' := (h.known t t [] [] r r' hp hq rfl).2

theorem ret (a : α) : Lockstep A A' view (.ret a : Prog ι ρ ε α) (.ret a) := by
  refine ⟨fun t r h => ?_, fun t t' u u' r r' hp hq _ => ?_⟩
  · obtain ⟨rfl, rfl⟩ := hasRecord_ret.mp h
    exact .ret
  · obtain ⟨rfl, rfl⟩ := hasRecord_ret.mp hp
    obtain ⟨rfl, rfl⟩ := hasRecord_ret.mp hq
    exact ⟨rfl, rfl⟩

theorem fail (e : ε) : Lockstep A A' view (.fail e : Prog ι ρ ε α) (.fail e) := by
  refine ⟨fun t r h => ?_, fun t t' u u' r r' hp hq _ => ?_⟩
  · obtain ⟨rfl, rfl⟩ := hasRecord_fail.mp h
    exact .fail
  · obtain ⟨rfl, rfl⟩ := hasRecord_fail.mp hp
    obtain ⟨rfl, rfl⟩ := hasRecord_fail.mp hq
    exact ⟨rfl, rfl⟩

/-- Two calls of which the same is seen, with answers that `R` relates. -/
theorem calls {i i' : ι} {k : ρ i → Prog ι ρ ε α} {k' : ρ i' → Prog ι ρ ε α}
    (R : ρ i → ρ i' → Prop) (hfollows : ∀ a, A i a → ∃ a', A' i' a' ∧ R a a')
    (hknown : ∀ a a' u u', A i a → A' i' a' →
      (view i a).toList ++ u = (view i' a').toList ++ u' → R a a')
    (hview : ∀ a a', R a a' → view i a = view i' a')
    (hk : ∀ a a', R a a' → Lockstep A A' view (k a) (k' a')) :
    Lockstep A A' view (.call i k) (.call i' k') := by
  refine ⟨fun t r h => ?_, fun t t' u u' r r' hp hq heq => ?_⟩
  · obtain ⟨a, t₁, ha, rfl, hrest⟩ := hasRecord_call.mp h
    obtain ⟨a', ha', hR⟩ := hfollows a ha
    rw [hview a a' hR]
    exact .call ha' ((hk a a' hR).follows t₁ r hrest)
  · obtain ⟨a, t₁, ha, rfl, hrest⟩ := hasRecord_call.mp hp
    obtain ⟨a', t₁', ha', rfl, hrest'⟩ := hasRecord_call.mp hq
    rw [List.append_assoc, List.append_assoc] at heq
    have hR := hknown a a' _ _ ha ha' heq
    rw [hview a a' hR] at heq ⊢
    obtain ⟨rfl, rfl⟩ := (hk a a' hR).known _ _ u u' r r' hrest hrest' (List.append_cancel_left heq)
    exact ⟨rfl, rfl⟩

theorem bind {f g : α → Prog ι ρ ε β} (h : Lockstep A A' view p q)
    (hf : ∀ a, Lockstep A A' view (f a) (g a)) : Lockstep A A' view (p >>= f) (q >>= g) := by
  refine ⟨fun t r hrun => ?_, fun t t' u u' r r' hp hq heq => ?_⟩
  · obtain ⟨a, t₁, t₂, rfl, hp, hrest⟩ | ⟨e, rfl, hp⟩ := hasRecord_bind.mp hrun
    · exact (h.follows t₁ _ hp).bind ((hf a).follows t₂ r hrest)
    · exact (h.follows t _ hp).bind_error
  · obtain ⟨a, t₁, t₂, rfl, hfirst, hrest⟩ | ⟨e, rfl, hfirst⟩ := hasRecord_bind.mp hp
    · obtain ⟨a', t₁', t₂', rfl, hfirst', hrest'⟩ | ⟨e', rfl, hfirst'⟩ := hasRecord_bind.mp hq
      · rw [List.append_assoc, List.append_assoc] at heq
        obtain ⟨rfl, hsame⟩ := h.known _ _ _ _ _ _ hfirst hfirst' heq
        obtain rfl := Except.ok.inj hsame
        obtain ⟨rfl, rfl⟩ := (hf a).known _ _ u u' r r' hrest hrest' (List.append_cancel_left heq)
        exact ⟨rfl, rfl⟩
      · rw [List.append_assoc] at heq
        exact absurd (h.known _ _ _ _ _ _ hfirst hfirst' heq).2 nofun
    · obtain ⟨a', t₁', t₂', rfl, hfirst', hrest'⟩ | ⟨e', rfl, hfirst'⟩ := hasRecord_bind.mp hq
      · rw [List.append_assoc] at heq
        exact absurd (h.known _ _ _ _ _ _ hfirst hfirst' heq).2 nofun
      · obtain ⟨rfl, hsame⟩ := h.known _ _ _ _ _ _ hfirst hfirst' heq
        obtain rfl := Except.error.inj hsame
        exact ⟨rfl, rfl⟩

theorem mapError (f : ε → ε') (h : Lockstep A A' view p q) :
    Lockstep A A' view (p.mapError f) (q.mapError f) := by
  refine ⟨fun t r hrun => ?_, fun t t' u u' r r' hp hq heq => ?_⟩
  · obtain ⟨x, rfl, hp⟩ := hasRecord_mapError.mp hrun
    exact hasRecord_mapError.mpr ⟨x, rfl, h.follows t x hp⟩
  · obtain ⟨x, rfl, hx⟩ := hasRecord_mapError.mp hp
    obtain ⟨x', rfl, hx'⟩ := hasRecord_mapError.mp hq
    obtain ⟨rfl, rfl⟩ := h.known _ _ u u' x x' hx hx' heq
    exact ⟨rfl, rfl⟩

theorem attempt (h : Lockstep A A' view p q) :
    Lockstep A A' view (p.attempt : Prog ι ρ ε' (Except ε α)) q.attempt := by
  refine ⟨fun t r hrun => ?_, fun t t' u u' r r' hp hq heq => ?_⟩
  · obtain ⟨x, rfl, hp⟩ := hasRecord_attempt.mp hrun
    exact hasRecord_attempt.mpr ⟨x, rfl, h.follows t x hp⟩
  · obtain ⟨x, rfl, hx⟩ := hasRecord_attempt.mp hp
    obtain ⟨x', rfl, hx'⟩ := hasRecord_attempt.mp hq
    obtain ⟨rfl, rfl⟩ := h.known _ _ u u' x x' hx hx' heq
    exact ⟨rfl, rfl⟩

/-- One program, if its calls are answered alike and their answers are seen. -/
theorem of_only {P : ι → Prop} (hp : p.Only P) (hA : ∀ i, P i → ∀ a, A i a → A' i a)
    (hview : ∀ i, P i → ∃ seen : ρ i → ω, Function.Injective seen ∧
      ∀ a, view i a = some (seen a)) : Lockstep A A' view p p := by
  induction p with
  | ret a => exact .ret a
  | fail e => exact .fail e
  | call i k ih =>
    obtain ⟨seen, hinj, hseen⟩ := hview i hp.1
    refine calls Eq (fun a ha => ⟨a, hA i hp.1 a ha, rfl⟩) (fun a a' u u' _ _ heq => ?_)
      (fun _ _ => congrArg _) fun a a' hsame => hsame ▸ ih a (hp.2 a)
    rw [hseen, hseen] at heq
    exact hinj (List.cons.inj heq).1

end Lockstep

end Interaction
