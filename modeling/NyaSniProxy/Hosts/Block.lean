import NyaSniProxy.Hosts

/-!
# The text around the managed block

`replaceManagedBlock` looks for the two marks independently, each from the start of the file. The
text around the block survives unless an end mark stands in front of the block: then the end mark
that was found does not belong to the block, and the rest of the file is cut off.

A text that is `pre ++ block ++ post`, with no marks outside the block, is free of such accidents.
-/

namespace NyaSniProxy

open Text Search

variable {original block : Bytes} {ip : Net.IpAddr} {names : List Bytes} {newline : Bytes}

/-- A text without the line ending it may start with. -/
def dropEol : Bytes → Bytes
  | 13 :: 10 :: rest => rest
  | 10 :: rest => rest
  | rest => rest

theorem drop_skipEol (text : Bytes) (offset : Nat) :
    text.drop (skipEol text offset) = dropEol (text.drop offset) := by
  simp only [skipEol]
  generalize hrest : text.drop offset = rest
  have hdrop (n : Nat) : text.drop (offset + n) = rest.drop n := by
    rw [← hrest, List.drop_drop]
  split_ifs with hcrlf hlf
  · obtain ⟨tail, rfl⟩ := hcrlf
    exact hdrop 2
  · obtain ⟨tail, rfl⟩ := hlf
    exact hdrop 1
  · rw [hrest]
    unfold dropEol
    split
    · next tail => exact absurd ⟨tail, rfl⟩ hcrlf
    · next tail => exact absurd ⟨tail, rfl⟩ hlf
    · rfl

/-- A line ending. -/
def IsNewline (newline : Bytes) : Prop := newline = [lf] ∨ newline = crlf

instance (newline : Bytes) : Decidable (IsNewline newline) := inferInstanceAs (Decidable (_ ∨ _))

theorem isNewline_newlineOf (original : Bytes) : IsNewline (newlineOf original) := by
  unfold newlineOf
  split
  · exact .inr rfl
  · exact .inl rfl

theorem missingLf_append {text newline : Bytes} (h : IsNewline newline) :
    missingLf (text ++ newline) = [] := by
  unfold missingLf
  obtain rfl | rfl := h <;> simp

theorem missingLf_renderBlock (h : IsNewline newline) :
    missingLf (renderBlock ip names newline) = [] := missingLf_append h

/-! ## The frame of a replacement -/

/-- Everything but the block survives: what stands in front of the first begin mark, and what stands
behind the first end mark after it and that mark's line ending. A file without a begin mark
survives whole, and the block is put behind it. -/
structure Framed (original block result : Bytes) : Prop where
  absent : find beginMark original = none →
    ∃ breaks, (∀ c ∈ breaks, c = cr ∨ c = lf) ∧ result = original ++ breaks ++ block
  present : ∀ start stop, find beginMark original = some start →
    find endMark (original.drop start) = some stop →
      result = original.take start ++ block ++
        dropEol (original.drop (start + stop + endMark.length))

/-- What is put between the text and the block. -/
theorem break_of_mem_breaks (original : Bytes) :
    ∀ c ∈ missingLf original ++ newlineOf original, c = cr ∨ c = lf := by
  intro c hc
  rcases List.mem_append.mp hc with hc | hc
  · unfold missingLf at hc
    split at hc <;> simp_all
  · obtain hn | hn := isNewline_newlineOf original <;> simp_all

/-- A block is put behind the text and some line breaks, which do not depend on the block. -/
theorem appendBlock_eq (original : Bytes) :
    ∃ breaks, (∀ c ∈ breaks, c = cr ∨ c = lf) ∧ ∀ block, missingLf block = [] →
      appendBlock original block = original ++ breaks ++ block := by
  unfold appendBlock
  split
  · next hnil => exact ⟨[], by simp, fun block h => by simp [hnil, h]⟩
  · exact ⟨_, break_of_mem_breaks original, fun block h => by simp [h]⟩

/-- What stands around the block of a sync: in front of it the text up to the first begin mark, and
behind it what follows the line of the first end mark if that comes later. A block that is put
behind the text has nothing behind it. -/
inductive Placed (original : Bytes) : Bytes → Bytes → Prop where
  | appended : find beginMark original = none → Placed original
      (if original = [] then [] else original ++ missingLf original ++ newlineOf original) []
  | between {start stop} : find beginMark original = some start →
      find endMark original = some stop → start < stop →
      Placed original (original.take start) (dropEol (original.drop (stop + endMark.length)))
  | cut {start} : find beginMark original = some start →
      (∀ stop, find endMark original = some stop → stop ≤ start) →
      Placed original (original.take start) []

/-- Where a block goes depends on the original only. -/
theorem replaceManagedBlock_placed (original : Bytes) :
    ∃ pre post, Placed original pre post ∧ ∀ block, missingLf block = [] →
      replaceManagedBlock original block = pre ++ block ++ post := by
  unfold replaceManagedBlock
  cases hb : find beginMark original with
  | none => exact ⟨_, _, .appended hb, fun block hlf => by simp [appendBlock, hlf]⟩
  | some start =>
    cases he : find endMark original with
    | none =>
      refine ⟨_, _, .cut hb fun stop hstop => ?_, fun block hlf => by simp [splice, hlf]⟩
      rw [he] at hstop
      cases hstop
    | some stop =>
      by_cases hgt : stop > start
      · exact ⟨_, _, .between hb he hgt, fun block hlf => by
          simp [hgt, splice, hlf, drop_skipEol]⟩
      · refine ⟨_, _, .cut hb fun stop' hstop => ?_, fun block hlf => by simp [hgt, splice, hlf]⟩
        obtain rfl := Option.some.inj (he.symm.trans hstop)
        exact Nat.le_of_not_lt hgt

theorem beginMark_ne_endMark {text : Bytes} (hb : beginMark <+: text) : ¬ endMark <+: text := by
  intro he
  have h := List.prefix_of_prefix_length_le he hb (by decide)
  revert h
  decide

/-- An end mark behind the first begin mark is the first in the file, or another one stands in front
of the begin mark. -/
theorem find_endMark {start stop : Nat} (hb : find beginMark original = some start)
    (he : find endMark (original.drop start) = some stop) :
    (find endMark original = some (start + stop) ∧ 0 < stop ∧
      ∀ i < start, ¬ endMark <+: original.drop i) ∨
    ∃ i < start, find endMark original = some i ∧ endMark <+: original.drop i := by
  obtain ⟨hstart, hbegin, -⟩ := find_eq_some_iff.mp hb
  obtain ⟨hstop, hend, hmin⟩ := find_eq_some_iff.mp he
  rw [List.drop_drop] at hend
  have hpos : 0 < stop := by
    rcases Nat.eq_zero_or_pos stop with rfl | hpos
    · exact absurd hend (beginMark_ne_endMark hbegin)
    · exact hpos
  by_cases hbefore : ∀ i < start, ¬ endMark <+: original.drop i
  · refine .inl ⟨find_eq_some_iff.mpr ⟨?_, hend, fun j hj => ?_⟩, hpos, hbefore⟩
    · rw [List.length_drop] at hstop
      omega
    · rcases Nat.lt_or_ge j start with hlt | hge
      · exact hbefore j hlt
      · have := hmin (j - start) (by omega)
        rwa [List.drop_drop, Nat.add_sub_cancel' hge] at this
  · push Not at hbefore
    obtain ⟨i, hi, hocc⟩ := hbefore
    cases hfirst : find endMark original with
    | none => exact absurd hocc (find_eq_none_iff.mp hfirst i (by omega))
    | some j =>
      obtain ⟨-, hj, hjmin⟩ := find_eq_some_iff.mp hfirst
      have hle : j ≤ i := Nat.le_of_not_lt fun hlt => hjmin i hlt hocc
      exact .inr ⟨j, by omega, rfl, hj⟩

/-- The text around the block survives exactly if no end mark stands in front of the block, or
nothing stands behind it. -/
theorem replaceManagedBlock_framed (hn : IsNewline newline) :
    Framed original (renderBlock ip names newline)
        (replaceManagedBlock original (renderBlock ip names newline)) ↔
      ∀ start stop, find beginMark original = some start →
        find endMark (original.drop start) = some stop →
          (∀ i < start, ¬ endMark <+: original.drop i) ∨
            dropEol (original.drop (start + stop + endMark.length)) = [] := by
  have hlf : missingLf (renderBlock ip names newline) = [] := missingLf_renderBlock hn
  generalize renderBlock ip names newline = block at hlf ⊢
  constructor
  · intro h start stop hb he
    have hresult := h.present start stop hb he
    rcases find_endMark hb he with ⟨-, -, hbefore⟩ | ⟨i, hi, hfirst, -⟩
    · exact .inl hbefore
    · right
      have hnot : ¬ i > start := by omega
      simpa [replaceManagedBlock, hb, hfirst, hnot, splice, hlf] using hresult
  · intro h
    constructor
    · intro hb
      obtain ⟨breaks, hbreaks, heq⟩ := appendBlock_eq original
      refine ⟨breaks, hbreaks, ?_⟩
      rw [← heq _ hlf, replaceManagedBlock, hb]
    · intro start stop hb he
      rcases find_endMark hb he with ⟨hfirst, hpos, -⟩ | ⟨i, hi, hfirst, hocc⟩
      · have hgt : start + stop > start := by omega
        simp [replaceManagedBlock, hb, hfirst, hgt, splice, hlf, drop_skipEol]
      · have hnot : ¬ i > start := by omega
        have hrest := (h start stop hb he).resolve_left fun hbefore => hbefore i hi hocc
        simp [replaceManagedBlock, hb, hfirst, hnot, splice, hlf, hrest]

theorem replaceManagedBlock_framed_localhost :
    let original := ascii
      "127.0.0.1 localhost\n# BEGIN nyasniproxy\n# END nyasniproxy\n10.0.0.1 nas\n"
    let block := renderBlock (.v4 127 0 0 2) [ascii "example.com"] [lf]
    Framed original block (replaceManagedBlock original block) := by
  intro original block
  refine (replaceManagedBlock_framed (.inl rfl)).mpr fun start stop hb _ => .inl ?_
  have h20 : find beginMark original = some 20 := by decide
  obtain rfl : 20 = start := Option.some.inj (h20.symm.trans hb)
  decide

/-- An end mark in front of the block costs the file everything behind the block. -/
theorem replaceManagedBlock_stray_mark :
    let original := ascii
      "# END nyasniproxy\n# BEGIN nyasniproxy\n# END nyasniproxy\n10.0.0.1 nas\n"
    let block := renderBlock (.v4 127 0 0 2) [ascii "example.com"] [lf]
    replaceManagedBlock original block = ascii "# END nyasniproxy\n" ++ block ∧
      ¬ Framed original block (replaceManagedBlock original block) := by
  intro original block
  have hresult : replaceManagedBlock original block = ascii "# END nyasniproxy\n" ++ block := by
    decide +kernel
  refine ⟨hresult, fun h => ?_⟩
  have hframe := h.present 18 20 (by decide) (by decide)
  rw [hresult] at hframe
  revert hframe
  decide +kernel

end NyaSniProxy
