import Mathlib.Algebra.GroupWithZero.Nat
import Mathlib.Data.List.Basic
import Mathlib.Tactic.Common

/-!
# Self-delimiting codes

A code is self-delimiting on a set of values if a code word can be told from what stands behind it.
Then a concatenation of code words is read back from left to right, and what remains open is only
how many there are. A list is self-delimiting again if its length is written in front of it.
-/

namespace Code

variable {α β γ : Type*}

/-- In front of any text, code words of values in `P` can be told apart. -/
def SelfDelimiting (P : α → Prop) (f : α → List β) : Prop :=
  ∀ ⦃a b r s⦄, P a → P b → f a ++ r = f b ++ s → a = b ∧ r = s

variable {P : α → Prop} {Q : γ → Prop} {f : α → List β} {g : γ → List β} {xs ys : List α}
  {r s : List β}

/-- A terminator that does not occur in the texts. -/
theorem selfDelimiting_terminated (c : β) :
    SelfDelimiting (fun xs : List β => c ∉ xs) (· ++ [c]) := by
  intro a b r s ha hb h
  induction a generalizing b with
  | nil =>
    cases b with
    | nil => exact ⟨rfl, (List.cons.inj h).2⟩
    | cons y b =>
      obtain ⟨rfl, -⟩ := List.cons.inj h
      exact absurd List.mem_cons_self hb
  | cons x a ih =>
    cases b with
    | nil =>
      obtain ⟨rfl, -⟩ := List.cons.inj h
      exact absurd List.mem_cons_self ha
    | cons y b =>
      obtain ⟨rfl, htail⟩ := List.cons.inj h
      obtain ⟨rfl, hrest⟩ := ih (List.not_mem_of_not_mem_cons ha)
        (List.not_mem_of_not_mem_cons hb) htail
      exact ⟨rfl, hrest⟩

/-- Code words of one length. -/
theorem selfDelimiting_of_length {n : Nat} (hlen : ∀ a, (f a).length = n)
    (hinj : ∀ ⦃a b⦄, P a → P b → f a = f b → a = b) : SelfDelimiting P f := by
  intro a b r s ha hb h
  obtain ⟨hword, hrest⟩ := List.append_inj h (by rw [hlen, hlen])
  exact ⟨hinj ha hb hword, hrest⟩

theorem SelfDelimiting.pair (hf : SelfDelimiting P f) (hg : SelfDelimiting Q g) :
    SelfDelimiting (fun p : α × γ => P p.1 ∧ Q p.2) fun p => f p.1 ++ g p.2 := by
  rintro ⟨a, c⟩ ⟨b, d⟩ r s ⟨ha, hc⟩ ⟨hb, hd⟩ h
  simp only [List.append_assoc] at h
  obtain ⟨rfl, htail⟩ := hf ha hb h
  obtain ⟨rfl, hrest⟩ := hg hc hd htail
  exact ⟨rfl, hrest⟩

/-- The shorter of two lists is read back from the longer one. -/
theorem SelfDelimiting.exists_append (hf : SelfDelimiting P f) (hxs : ∀ x ∈ xs, P x)
    (hys : ∀ y ∈ ys, P y) (hlen : xs.length ≤ ys.length)
    (h : xs.flatMap f ++ r = ys.flatMap f ++ s) :
    ∃ zs, ys = xs ++ zs ∧ r = zs.flatMap f ++ s := by
  induction xs generalizing ys with
  | nil => exact ⟨ys, rfl, h⟩
  | cons x xs ih =>
    cases ys with
    | nil => exact absurd hlen (by simp)
    | cons y ys =>
      obtain ⟨hx, hxs'⟩ := List.forall_mem_cons.mp hxs
      obtain ⟨hy, hys'⟩ := List.forall_mem_cons.mp hys
      simp only [List.flatMap_cons, List.append_assoc] at h
      obtain ⟨rfl, htail⟩ := hf hx hy h
      obtain ⟨zs, rfl, hrest⟩ := ih hxs' hys' (by simpa using hlen) htail
      exact ⟨zs, rfl, hrest⟩

/-- Lists of one length are read back. -/
theorem SelfDelimiting.flatMap (hf : SelfDelimiting P f) (hxs : ∀ x ∈ xs, P x)
    (hys : ∀ y ∈ ys, P y) (hlen : xs.length = ys.length)
    (h : xs.flatMap f ++ r = ys.flatMap f ++ s) : xs = ys ∧ r = s := by
  obtain ⟨zs, rfl, hrest⟩ := hf.exists_append hxs hys (Nat.le_of_eq hlen) h
  obtain rfl : zs = [] := by simpa using hlen
  exact ⟨(List.append_nil xs).symm, hrest⟩

/-- The length in front of a list delimits it. -/
theorem SelfDelimiting.counted {N : Nat → Prop} {len : Nat → List β}
    (hlen : SelfDelimiting N len) (hf : SelfDelimiting P f) :
    SelfDelimiting (fun xs : List α => N xs.length ∧ ∀ x ∈ xs, P x)
      fun xs => len xs.length ++ xs.flatMap f := by
  rintro xs ys r s ⟨hnx, hxs⟩ ⟨hny, hys⟩ h
  simp only [List.append_assoc] at h
  obtain ⟨heq, htail⟩ := hlen hnx hny h
  exact hf.flatMap hxs hys heq htail

/-- A whole text is read back, if no code word is empty. -/
theorem SelfDelimiting.flatMap_inj (hf : SelfDelimiting P f) (hne : ∀ a, f a ≠ [])
    (hxs : ∀ x ∈ xs, P x) (hys : ∀ y ∈ ys, P y) (h : xs.flatMap f = ys.flatMap f) : xs = ys := by
  have hempty {zs : List α} (h : zs.flatMap f = []) : zs = [] :=
    List.eq_nil_iff_forall_not_mem.mpr fun z hz => hne z (List.flatMap_eq_nil_iff.mp h z hz)
  rw [← List.append_nil (xs.flatMap f), ← List.append_nil (ys.flatMap f)] at h
  rcases Nat.le_total xs.length ys.length with hle | hle
  · obtain ⟨zs, rfl, hrest⟩ := hf.exists_append hxs hys hle h
    rw [List.append_nil] at hrest
    rw [hempty hrest.symm, List.append_nil]
  · obtain ⟨zs, rfl, hrest⟩ := hf.exists_append hys hxs hle h.symm
    rw [List.append_nil] at hrest
    rw [hempty hrest.symm, List.append_nil]

/-- A number below `b ^ k` is given by its first `k` digits. -/
theorem eq_of_digits {b k n m : Nat} (hn : n < b ^ k) (hm : m < b ^ k)
    (h : ∀ i < k, n / b ^ i % b = m / b ^ i % b) : n = m := by
  have hmod : ∀ j ≤ k, n % b ^ j = m % b ^ j := by
    intro j hj
    induction j with
    | zero => simp [Nat.mod_one]
    | succ j ih => rw [Nat.mod_pow_succ, Nat.mod_pow_succ, ih (by omega), h j (by omega)]
  rw [← Nat.mod_eq_of_lt hn, ← Nat.mod_eq_of_lt hm, hmod k (Nat.le_refl k)]

end Code
