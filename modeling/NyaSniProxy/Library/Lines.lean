import NyaSniProxy.Library.Text

/-!
# Lines

`Lines.cut` cuts a text at every line break: a CR LF, or a CR or an LF on its own. A text that ends
with a line break has the empty line as its last one. A CR LF that is known to stand in a text is a
cut, whatever is around it, and a text without CR and LF is one line.
-/

namespace Lines

open Text

/-- One more byte in front of the first line. -/
def consHead (c : UInt8) : List Bytes → List Bytes
  | [] => [[c]]
  | line :: lines => (c :: line) :: lines

/-- The lines of a text. -/
def cut : Bytes → List Bytes
  | [] => [[]]
  | 13 :: 10 :: s => [] :: cut s
  | c :: s => if c = cr ∨ c = lf then [] :: cut s else consHead c (cut s)

@[simp] theorem cut_nil : cut [] = [[]] := rfl

theorem cut_ne_nil (s : Bytes) : cut s ≠ [] := by
  fun_induction cut s with
  | case1 | case2 | case3 => simp
  | case4 c s hc hbreak ih => cases h : cut s <;> simp [consHead]

theorem consHead_append {c : UInt8} {lines more : List Bytes} (h : lines ≠ []) :
    consHead c (lines ++ more) = consHead c lines ++ more := by
  cases lines with
  | nil => exact absurd rfl h
  | cons line lines => rfl

theorem length_consHead {c : UInt8} {lines : List Bytes} (h : lines ≠ []) :
    (consHead c lines).length = lines.length := by
  cases lines with
  | nil => exact absurd rfl h
  | cons line lines => rfl

/-- The byte before a CR LF does not join it. -/
theorem cut_cons_append {c : UInt8} {s t : Bytes} (h : ∀ s', c = 13 → s = 10 :: s' → False) :
    cut (c :: (s ++ 13 :: 10 :: t)) =
      if c = cr ∨ c = lf then [] :: cut (s ++ 13 :: 10 :: t)
      else consHead c (cut (s ++ 13 :: 10 :: t)) := by
  rw [cut]
  intro s' hc hs'
  cases s with
  | nil => simp at hs'
  | cons d s => exact h s hc (by rw [(List.cons.inj hs').1])

/-- A text is cut at a CR LF. -/
theorem cut_append (s t : Bytes) : cut (s ++ 13 :: 10 :: t) = cut s ++ cut t := by
  fun_induction cut s with
  | case1 => rfl
  | case2 s ih => simp [cut, ih]
  | case3 c s hc hbreak ih => rw [List.cons_append, cut_cons_append hc, if_pos hbreak, ih]; rfl
  | case4 c s hc hbreak ih =>
    rw [List.cons_append, cut_cons_append hc, if_neg hbreak, ih, consHead_append (cut_ne_nil s)]

/-- A text without line breaks is one line. -/
theorem cut_of_not_mem {s : Bytes} (hcr : cr ∉ s) (hlf : lf ∉ s) : cut s = [s] := by
  fun_induction cut s with
  | case1 => rfl
  | case2 s ih => simp at hcr
  | case3 c s hc hbreak ih => grind
  | case4 c s hc hbreak ih => simp_all [consHead]

theorem cut_cons_of_ne {c : UInt8} (hcr : c ≠ cr) (hlf : c ≠ lf) (s : Bytes) :
    cut (c :: s) = consHead c (cut s) := by
  rw [cut, if_neg (by simp [hcr, hlf])]
  exact fun _ hc _ => hcr hc

/-- A line without line breaks ends at the first one. -/
theorem cut_line {s newline : Bytes} (hcr : cr ∉ s) (hlf : lf ∉ s)
    (h : newline = [lf] ∨ newline = crlf) (t : Bytes) : cut (s ++ (newline ++ t)) = s :: cut t := by
  induction s with
  | nil => obtain rfl | rfl := h <;> rfl
  | cons c s ih =>
    have hne : c ≠ cr ∧ c ≠ lf :=
      ⟨(List.ne_of_not_mem_cons hcr).symm, (List.ne_of_not_mem_cons hlf).symm⟩
    rw [List.cons_append, cut_cons_of_ne hne.1 hne.2,
      ih (List.not_mem_of_not_mem_cons hcr) (List.not_mem_of_not_mem_cons hlf)]
    rfl

/-- A text with a line break has two lines at least. -/
theorem two_le_length_cut {s : Bytes} (h : cr ∈ s ∨ lf ∈ s) : 2 ≤ (cut s).length := by
  have hpos (s : Bytes) : 1 ≤ (cut s).length := List.length_pos_of_ne_nil (cut_ne_nil s)
  fun_induction cut s with
  | case1 => simp at h
  | case2 s ih => simpa using hpos s
  | case3 c s hc hbreak ih => simpa using hpos s
  | case4 c s hc hbreak ih =>
    rw [length_consHead (cut_ne_nil s)]
    exact ih (by grind)

end Lines
