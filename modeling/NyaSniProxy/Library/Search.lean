import Mathlib.Data.List.Basic
import Mathlib.Data.List.Infix
import Mathlib.Tactic.Common

/-!
# Searching for a pattern in a list

`Search.find pat text` is the offset of the first occurrence of `pat` in `text`. The
laws below characterise it by prefixes of the dropped text, say how it behaves when
the text grows, and locate it in a text that is given as a concatenation.

A pattern whose head does not come back in its tail cannot overlap itself. For such a
pattern an occurrence in `xs ++ ys` lies in `xs`, lies in `ys`, or crosses the seam, and
it cannot cross the seam if `ys` starts with the same head.

`Search.splitOn` cuts a text at every occurrence of a non-empty separator, from left
to right.
-/

namespace Search

variable {α : Type*} [DecidableEq α]

/-- Offset of the first occurrence of `pat` in the text. -/
def find (pat : List α) : List α → Option Nat
  | [] => if pat <+: [] then some 0 else none
  | c :: cs => if pat <+: c :: cs then some 0 else (find pat cs).map (· + 1)

variable {pat text xs ys : List α} {i : Nat}

theorem find_eq_zero (h : pat <+: text) : find pat text = some 0 := by
  cases text <;> simp [find, h]

theorem find_cons_of_not {c : α} (h : ¬ pat <+: c :: xs) :
    find pat (c :: xs) = (find pat xs).map (· + 1) := by
  simp [find, h]

/-- An offset returned by `find` is an occurrence, and the first one. -/
theorem find_eq_some_iff :
    find pat text = some i ↔
      i ≤ text.length ∧ pat <+: text.drop i ∧ ∀ j < i, ¬ pat <+: text.drop j := by
  induction text generalizing i with
  | nil =>
    by_cases h : pat <+: []
    · cases i <;> simp [find, h]
    · have hne : pat ≠ [] := fun e => h (by simp [e])
      simp [find, hne]
  | cons c cs ih =>
    by_cases h : pat <+: c :: cs
    · rw [find_eq_zero h]
      constructor
      · rintro ⟨⟩
        exact ⟨Nat.zero_le _, by simpa using h, by simp⟩
      · rintro ⟨-, -, hmin⟩
        by_contra hne
        have : 0 < i := Nat.pos_of_ne_zero fun e => hne (by simp [e])
        exact hmin 0 this (by simpa using h)
    · rw [find_cons_of_not h]
      cases i with
      | zero => simp [h]
      | succ i =>
        simp only [Option.map_eq_some_iff, Nat.add_right_cancel_iff, exists_eq_right, ih,
          List.length_cons, Nat.add_le_add_iff_right, List.drop_succ_cons]
        refine and_congr_right fun _ => and_congr_right fun _ => ⟨fun hmin j hj => ?_, ?_⟩
        · cases j with
          | zero => simpa using h
          | succ j => simpa using hmin j (by omega)
        · intro hmin j hj
          simpa using hmin (j + 1) (by omega)

theorem find_eq_none_iff : find pat text = none ↔ ∀ i ≤ text.length, ¬ pat <+: text.drop i := by
  rw [Option.eq_none_iff_forall_ne_some]
  constructor
  · intro h i hi hp
    induction i using Nat.strong_induction_on with
    | _ i ih =>
      refine h i (find_eq_some_iff.mpr ⟨hi, hp, fun j hj hj' => ?_⟩)
      exact ih j hj (hj.le.trans hi) hj'
  · intro h i hi
    obtain ⟨hle, hp, -⟩ := find_eq_some_iff.mp hi
    exact h i hle hp

theorem find_eq_none_iff_infix : find pat text = none ↔ ¬ pat <:+: text := by
  rw [find_eq_none_iff]
  constructor
  · rintro h ⟨u, v, rfl⟩
    exact h u.length (by simp) (by simp)
  · intro h i hi hp
    exact h (hp.isInfix.trans (List.drop_suffix i text).isInfix)

theorem find_le (h : find pat text = some i) : i + pat.length ≤ text.length := by
  obtain ⟨hi, hp, -⟩ := find_eq_some_iff.mp h
  have := hp.length_le
  simp only [List.length_drop] at this
  omega

theorem find_isSome_of_infix (h : pat <:+: text) : ∃ i, find pat text = some i := by
  rw [← Option.ne_none_iff_exists']
  exact fun hn => find_eq_none_iff_infix.mp hn h

/-- A first occurrence stays the first one when the text grows. -/
theorem find_append (h : find pat xs = some i) (ys : List α) : find pat (xs ++ ys) = some i := by
  have hlen := find_le h
  obtain ⟨hi, hp, hmin⟩ := find_eq_some_iff.mp h
  refine find_eq_some_iff.mpr ⟨by simp; omega, ?_, fun j hj hj' => hmin j hj ?_⟩
  · rw [List.drop_append_of_le_length hi]
    exact hp.trans (List.prefix_append _ _)
  · rw [List.drop_append_of_le_length (by omega)] at hj'
    exact List.prefix_of_prefix_length_le hj' (List.prefix_append _ _) (by simp; omega)

/-- The first occurrence in a text is the first one in every part from the start that holds it. -/
theorem find_of_append (h : find pat (xs ++ ys) = some i) (hi : i + pat.length ≤ xs.length) :
    find pat xs = some i := by
  obtain ⟨-, hp, hmin⟩ := find_eq_some_iff.mp h
  refine find_eq_some_iff.mpr ⟨by omega, ?_, fun j hj hj' => hmin j hj ?_⟩
  · rw [List.drop_append_of_le_length (by omega)] at hp
    apply List.prefix_of_prefix_length_le hp (List.prefix_append _ _)
    rw [List.length_drop]
    omega
  · rw [List.drop_append_of_le_length (by omega)]
    exact hj'.trans (List.prefix_append _ _)

omit [DecidableEq α] in
/-- An occurrence does not reach into a text that shares no element with it. -/
theorem infix_of_infix_append_right (hpat : pat ≠ []) (hd : ∀ b ∈ ys, b ∉ pat)
    (h : pat <:+: xs ++ ys) : pat <:+: xs := by
  obtain ⟨u, v, huv⟩ := h
  rcases List.append_eq_append_iff.mp huv with ⟨w, rfl, -⟩ | ⟨w, hw, rfl⟩
  · exact ⟨u, w, rfl⟩
  · rcases List.eq_nil_or_concat w with rfl | ⟨w, b, rfl⟩
    · exact ⟨u, [], by simpa using hw⟩
    · obtain ⟨pat, c, rfl⟩ := (List.eq_nil_or_concat pat).resolve_left hpat
      have hlast : c = b := by
        have := congrArg List.getLast? hw
        simpa using this
      exact absurd (by simp [hlast]) (hd b (by simp))

/-! ## Patterns that cannot overlap themselves -/

section Rigid

variable {c : α} {tl : List α}

omit [DecidableEq α] in
/-- An occurrence of `c :: tl` before another `c` ends before that `c`, as `c` does not come back
in `tl`. -/
theorem prefix_of_prefix_append_cons (hc : c ∉ tl) (hx : xs ≠ []) (h : c :: tl <+: xs ++ c :: ys) :
    c :: tl <+: xs := by
  obtain ⟨v, hv⟩ := h
  rcases List.append_eq_append_iff.mp hv with ⟨u, rfl, -⟩ | ⟨u, hu, hv'⟩
  · exact List.prefix_append _ _
  · cases u with
    | nil => exact hu ▸ (List.append_nil xs).symm ▸ List.prefix_refl _
    | cons d u =>
      obtain rfl : c = d := by simpa using (List.cons.inj hv').1
      cases xs with
      | nil => exact absurd rfl hx
      | cons b xs =>
        have htl : tl = xs ++ c :: u := (List.cons.inj hu).2
        exact absurd (by simp [htl]) hc

omit [DecidableEq α] in
/-- An occurrence of `c :: tl` does not start in a text without `c`. -/
theorem infix_of_infix_append (hc : c ∉ xs) (h : c :: tl <:+: xs ++ ys) : c :: tl <:+: ys := by
  induction xs with
  | nil => exact h
  | cons b xs ih =>
    simp only [List.mem_cons, not_or] at hc
    rw [List.cons_append, List.infix_cons_iff] at h
    rcases h with h | h
    · exact absurd (List.cons_prefix_cons.mp h).1 hc.1
    · exact ih hc.2 h

omit [DecidableEq α] in
/-- An occurrence of `c :: tl` in a text stands behind a start without `c`. -/
theorem prefix_drop_of_append {i : Nat} (hc : c ∉ xs) (h : c :: tl <+: (xs ++ ys).drop i) :
    ∃ j, i = xs.length + j ∧ c :: tl <+: ys.drop j := by
  induction xs generalizing i with
  | nil => exact ⟨i, by simp, h⟩
  | cons b xs ih =>
    cases i with
    | zero => exact absurd (List.cons_prefix_cons.mp h).1 (List.ne_of_not_mem_cons hc)
    | succ i =>
      obtain ⟨j, rfl, hj⟩ := ih (List.not_mem_of_not_mem_cons hc) h
      exact ⟨j, by simp only [List.length_cons]; omega, hj⟩

/-- Searching `xs ++ c :: ys` for a pattern `c :: tl` that `xs` does not contain is searching
`c :: ys`. -/
theorem find_append_cons (hc : c ∉ tl) (hx : ¬ c :: tl <:+: xs) :
    find (c :: tl) (xs ++ c :: ys) = (find (c :: tl) (c :: ys)).map (xs.length + ·) := by
  induction xs with
  | nil => simp
  | cons b xs ih =>
    have hxs : ¬ c :: tl <:+: xs := fun h => hx (h.trans (List.suffix_cons b xs).isInfix)
    have hnp : ¬ c :: tl <+: b :: (xs ++ c :: ys) := fun h =>
      hx (prefix_of_prefix_append_cons hc (List.cons_ne_nil b xs) h).isInfix
    rw [List.cons_append, find_cons_of_not hnp, ih hxs, Option.map_map]
    congr 1
    funext n
    simp only [Function.comp, List.length_cons]
    omega

end Rigid

/-! ## Splitting -/

/-- Cut the text at every occurrence of the separator, from left to right. The empty separator
does not cut. -/
def splitOn (sep text : List α) : List (List α) :=
  match _h : find sep text with
  | none => [text]
  | some i =>
    if _hs : sep = [] then [text]
    else text.take i :: splitOn sep (text.drop (i + sep.length))
termination_by text.length
decreasing_by
  have := find_le _h
  have : 0 < sep.length := List.length_pos_of_ne_nil _hs
  simp only [List.length_drop]
  omega

theorem splitOn_of_find_none (h : find pat text = none) : splitOn pat text = [text] := by
  rw [splitOn]
  split
  · rfl
  · simp_all

theorem splitOn_of_find_some (hp : pat ≠ []) (h : find pat text = some i) :
    splitOn pat text = text.take i :: splitOn pat (text.drop (i + pat.length)) := by
  rw [splitOn]
  split
  · simp_all
  · next j hj =>
    obtain rfl : i = j := by simpa [h] using hj
    simp [hp]

/-! ## Joined texts -/

section Joined

variable {c : α} {tl first rest : List α} {pieces : List (List α)}

/-- A text without the head of the pattern is skipped. -/
theorem find_skip (hc : c ∉ xs) :
    find (c :: tl) (xs ++ ys) = (find (c :: tl) ys).map (· + xs.length) := by
  induction xs with
  | nil => simp
  | cons x xs ih =>
    have hnot : ¬ c :: tl <+: x :: (xs ++ ys) := fun h =>
      List.ne_of_not_mem_cons hc (List.cons_prefix_cons.mp h).1
    rw [List.cons_append, find_cons_of_not hnot, ih (List.not_mem_of_not_mem_cons hc),
      Option.map_map]
    simp only [Function.comp_def, List.length_cons, Nat.add_assoc]

/-- A text is cut into the pieces it is joined from. -/
theorem splitOn_join (hfirst : c ∉ first) (hpieces : ∀ p ∈ pieces, c ∉ p) :
    splitOn (c :: tl) (first ++ pieces.flatMap (c :: tl ++ ·)) = first :: pieces := by
  induction pieces generalizing first with
  | nil =>
    have hnone : find (c :: tl) first = none :=
      find_eq_none_iff_infix.mpr fun h => hfirst (h.subset List.mem_cons_self)
    rw [List.flatMap_nil, List.append_nil, splitOn_of_find_none hnone]
  | cons p pieces ih =>
    obtain ⟨hp, hrest⟩ := List.forall_mem_cons.mp hpieces
    have hfind : find (c :: tl) (first ++ (c :: tl ++ p ++ pieces.flatMap (c :: tl ++ ·))) =
        some first.length := by
      rw [find_skip hfirst, find_eq_zero (by simp)]
      simp
    rw [List.flatMap_cons, splitOn_of_find_some (by simp) hfind, List.take_left,
      ← List.drop_drop, List.drop_left, List.append_assoc, List.drop_left, ih hp hrest]

/-- The first doubled separator stands behind the pieces, if none of them is empty. -/
theorem find_double (htl : c ∉ tl) (hfirst : c ∉ first)
    (hpieces : ∀ p ∈ pieces, p ≠ [] ∧ c ∉ p) :
    find (c :: tl ++ c :: tl)
        (first ++ pieces.flatMap (c :: tl ++ ·) ++ (c :: tl ++ c :: tl ++ rest)) =
      some (first ++ pieces.flatMap (c :: tl ++ ·)).length := by
  induction pieces generalizing first with
  | nil =>
    rw [List.flatMap_nil, List.append_nil, List.cons_append, find_skip hfirst,
      find_eq_zero (by simp)]
    simp
  | cons p pieces ih =>
    obtain ⟨⟨hne, hp⟩, hrest⟩ := List.forall_mem_cons.mp hpieces
    obtain ⟨b, p, rfl⟩ := List.exists_cons_of_ne_nil hne
    have hb : c ≠ b := List.ne_of_not_mem_cons hp
    set joined := pieces.flatMap (c :: tl ++ ·)
    set text := b :: p ++ joined ++ (c :: tl ++ c :: tl ++ rest)
    have hone : find (c :: tl ++ c :: tl) text = some (b :: p ++ joined).length := ih hp hrest
    -- the separator in front of the piece is not doubled
    have hnot : ¬ c :: tl ++ c :: tl <+: c :: (tl ++ text) := by
      rw [← List.cons_append, List.prefix_append_right_inj]
      exact fun h => hb (List.cons_prefix_cons.mp h).1
    have hseparator : find (c :: tl ++ c :: tl) (c :: (tl ++ text)) =
        some ((b :: p ++ joined).length + tl.length + 1) := by
      rw [find_cons_of_not hnot, List.cons_append, find_skip htl, ← List.cons_append, hone]
      rfl
    have htext : first ++ ((b :: p) :: pieces).flatMap (c :: tl ++ ·) ++
        (c :: tl ++ c :: tl ++ rest) = first ++ (c :: (tl ++ text)) := by
      simp [text, joined]
    rw [htext, List.cons_append, find_skip hfirst, ← List.cons_append, hseparator]
    simp [joined]
    omega

end Joined

end Search
