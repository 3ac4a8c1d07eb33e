import NyaSniProxy.Hosts.Endings

/-!
# What a hosts file says

A reader of the hosts file takes it line by line. Text behind a comment sign says nothing, and the
fields that remain of a line are an active entry. `EntryAt` says where in the text an entry stands.

A sync finds its marks anywhere in a line, so the block may start and end in the middle of one: what
stands in front of the begin mark on its line is still followed by a comment sign, but what stands
behind the end mark on its line comes to stand on a line of its own.
-/

namespace NyaSniProxy

open Text Search Interaction

/-- The active entries of a text. -/
def activeEntries (text : Bytes) : List (List Bytes) :=
  ((text.splitOn lf).map hostsFields).filter (· ≠ [])

/-- A line starts behind the first `i` bytes of the text. -/
def LineAt (text : Bytes) (i : Nat) : Prop := i = 0 ∨ (text.take i).getLast? = some lf

/-- The line that starts behind the first `i` bytes is this active entry. -/
structure EntryAt (text : Bytes) (i : Nat) (entry : List Bytes) : Prop where
  line : LineAt text i
  fields : hostsFields ((text.drop i).takeWhile (· ≠ lf)) = entry
  active : entry ≠ []

section Lines

variable {s t c : Bytes} {i j : Nat} {entry : List Bytes}

/-- A separator ends what is taken, whether it is the first one or not. -/
theorem takeWhile_ne_sep {sep : UInt8} (s t : Bytes) :
    (s ++ sep :: t).takeWhile (· ≠ sep) = s.takeWhile (· ≠ sep) := by
  by_cases hsep : sep ∈ s
  · obtain ⟨front, rest, rfl, hfront⟩ := List.eq_append_cons_of_mem hsep
    rw [List.append_assoc, List.cons_append, takeWhile_ne_append hfront,
      takeWhile_ne_append hfront]
  · rw [takeWhile_ne_append hsep, takeWhile_ne hsep]

theorem hostsFields_comment : hostsFields (s ++ hashSign :: c) = hostsFields s := by
  rw [hostsFields, hostsFields, takeWhile_ne_sep]

/-- No entry starts at the end of the text. -/
theorem EntryAt.lt_length (h : EntryAt s i entry) : i < s.length := by
  by_contra hle
  have hfields := h.fields
  rw [List.drop_of_length_le (by omega)] at hfields
  exact h.active hfields.symm

theorem lineAt_append (hi : i ≤ s.length) : LineAt (s ++ t) i ↔ LineAt s i := by
  rw [LineAt, LineAt, List.take_append_of_le_length hi]

/-- No line starts in the middle of a line. -/
theorem EntryAt.le_length (h : EntryAt (s ++ t) i entry) (ht : lf ∉ t) : i ≤ s.length := by
  by_contra hle
  have hlt := h.lt_length
  rw [List.length_append] at hlt
  obtain ⟨n, rfl⟩ : ∃ n, i = s.length + n := ⟨i - s.length, by omega⟩
  obtain h0 | hlast := h.line
  · omega
  have hne : t.take n ≠ [] := by
    rw [← List.length_pos_iff, List.length_take]
    omega
  rw [List.take_length_add_append, List.getLast?_append_of_ne_nil _ hne] at hlast
  exact ht (List.mem_of_mem_take (List.mem_of_getLast? hlast))

/-- What stands behind a comment sign says nothing about the line in front of it. -/
theorem entryAt_hash (hi : i ≤ s.length) :
    EntryAt (s ++ hashSign :: t) i entry ↔ EntryAt s i entry := by
  have hline : hostsFields (((s ++ hashSign :: t).drop i).takeWhile (· ≠ lf)) =
      hostsFields ((s.drop i).takeWhile (· ≠ lf)) := by
    rw [List.drop_append_of_le_length hi]
    by_cases hlf : lf ∈ s.drop i
    · obtain ⟨front, rest, heq, hfront⟩ := List.eq_append_cons_of_mem hlf
      rw [heq, List.append_assoc, List.cons_append, takeWhile_ne_append hfront,
        takeWhile_ne_append hfront]
    · rw [List.takeWhile_append_of_pos (by simpa using fun b hb (h : b = lf) => hlf (h ▸ hb)),
        takeWhile_ne hlf]
      exact hostsFields_comment
  constructor
  · rintro ⟨hat, hfields, hactive⟩
    exact ⟨(lineAt_append hi).mp hat, hline ▸ hfields, hactive⟩
  · rintro ⟨hat, hfields, hactive⟩
    exact ⟨(lineAt_append hi).mpr hat, hline.trans hfields, hactive⟩

theorem entryAt_comment (hc : lf ∉ c) :
    EntryAt (s ++ hashSign :: c) i entry ↔ i ≤ s.length ∧ EntryAt s i entry := by
  have hhash : ¬ lf = hashSign := by decide
  constructor
  · intro h
    have hi := h.le_length (by simp [hc, hhash])
    exact ⟨hi, (entryAt_hash hi).mp h⟩
  · rintro ⟨hi, h⟩
    exact (entryAt_hash hi).mpr h

/-- A text behind another one keeps its entries, the first one if a line starts there. -/
theorem entryAt_behind : EntryAt (s ++ t) (s.length + j) entry ↔
    (j = 0 → LineAt s s.length) ∧ EntryAt t j entry := by
  have hdrop : (s ++ t).drop (s.length + j) = t.drop j := List.drop_length_add_append ..
  have hline (hj : j < t.length) : LineAt (s ++ t) (s.length + j) ↔
      (j = 0 → LineAt s s.length) ∧ LineAt t j := by
    cases j with
    | zero => simp [LineAt]
    | succ n =>
      have hne : t.take (n + 1) ≠ [] := by
        rw [← List.length_pos_iff, List.length_take]
        omega
      rw [LineAt, List.take_length_add_append, List.getLast?_append_of_ne_nil _ hne]
      simp [LineAt]
  constructor
  · intro h
    have hj := h.lt_length
    rw [List.length_append] at hj
    obtain ⟨hfirst, hat⟩ := (hline (by omega)).mp h.line
    exact ⟨hfirst, hat, hdrop ▸ h.fields, h.active⟩
  · rintro ⟨hfirst, h⟩
    exact ⟨(hline h.lt_length).mpr ⟨hfirst, h.line⟩, hdrop ▸ h.fields, h.active⟩

/-- The entries on both sides of a line break. -/
theorem entryAt_break : EntryAt (s ++ lf :: t) i entry ↔
    i ≤ s.length ∧ EntryAt s i entry ∨ ∃ j, i = s.length + 1 + j ∧ EntryAt t j entry := by
  obtain hi | hi := Nat.lt_or_ge s.length i
  · obtain ⟨j, rfl⟩ := Nat.exists_eq_add_of_le hi
    have hsplit : s ++ lf :: t = (s ++ [lf]) ++ t := by simp
    have hlength : s.length.succ = (s ++ [lf]).length := by simp
    have hlast : LineAt (s ++ [lf]) (s ++ [lf]).length := by
      rw [LineAt, List.take_length]
      simp
    rw [hsplit, hlength, entryAt_behind]
    constructor
    · rintro ⟨-, h⟩
      exact .inr ⟨j, by simp, h⟩
    · rintro (⟨hi', -⟩ | ⟨j', hj', h⟩)
      · rw [List.length_append] at hi'
        simp at hi'
        omega
      · obtain rfl : j = j' := by simpa using hj'
        exact ⟨fun _ => hlast, h⟩
  · have hline : ((s ++ lf :: t).drop i).takeWhile (· ≠ lf) = (s.drop i).takeWhile (· ≠ lf) := by
      rw [List.drop_append_of_le_length hi, takeWhile_ne_sep]
    constructor
    · rintro ⟨hat, hfields, hactive⟩
      exact .inl ⟨hi, (lineAt_append hi).mp hat, hline ▸ hfields, hactive⟩
    · rintro (⟨-, hat, hfields, hactive⟩ | ⟨j, rfl, -⟩)
      · exact ⟨(lineAt_append hi).mpr hat, (congrArg hostsFields hline).trans hfields, hactive⟩
      · omega

/-- The only entry of a line. -/
theorem entryAt_line (hs : lf ∉ s) :
    EntryAt s i entry ↔ i = 0 ∧ hostsFields s = entry ∧ entry ≠ [] := by
  constructor
  · intro h
    obtain rfl : i = 0 := Nat.le_zero.mp (EntryAt.le_length (s := []) h hs)
    have hfields := h.fields
    rw [List.drop_zero, takeWhile_ne hs] at hfields
    exact ⟨rfl, hfields, h.active⟩
  · rintro ⟨rfl, hfields, hactive⟩
    exact ⟨.inl rfl, by rwa [List.drop_zero, takeWhile_ne hs], hactive⟩

/-- The entries of a text are those that stand somewhere in it. -/
theorem mem_activeEntries_iff : entry ∈ activeEntries s ↔ ∃ i, EntryAt s i entry := by
  induction hn : s.length using Nat.strong_induction_on generalizing s with
  | h n ih =>
    by_cases hlf : lf ∈ s
    · obtain ⟨line, rest, rfl, hline⟩ := List.eq_append_cons_of_mem hlf
      have hrest := ih rest.length (by simp [← hn]; omega) rfl
      have hfirst : entry ∈ activeEntries line ↔ ∃ i ≤ line.length, EntryAt line i entry := by
        simp only [activeEntries, List.splitOn_eq_singleton hline, entryAt_line hline]
        simp
        grind
      have happ : activeEntries (line ++ lf :: rest) =
          activeEntries line ++ activeEntries rest := by
        simp [activeEntries, List.splitOn_append_cons_self]
      rw [happ, List.mem_append, hfirst, hrest]
      simp only [entryAt_break]
      grind
    · simp only [activeEntries, List.splitOn_eq_singleton hlf, entryAt_line hlf]
      simp
      grind

end Lines

/-! ## The block between two texts -/

section Block

variable {ip : Net.IpAddr} {names : List Bytes} {newline pre post original : Bytes}
  {start stop i : Nat} {entry : List Bytes}

/-- The line of a mark, and whatever stands behind it on the line. -/
theorem entryAt_mark {mark c : Bytes} (hmark : mark = beginMark ∨ mark = endMark) (hc : lf ∉ c) :
    EntryAt (pre ++ (mark ++ c)) i entry ↔ i ≤ pre.length ∧ EntryAt pre i entry := by
  obtain ⟨tl, heq, htl⟩ : ∃ tl, mark = hashSign :: tl ∧ lf ∉ tl := by
    obtain rfl | rfl := hmark
    · exact ⟨ascii " BEGIN nyasniproxy", by decide, by decide⟩
    · exact ⟨ascii " END nyasniproxy", by decide, by decide⟩
  rw [heq, List.cons_append, entryAt_comment (by simp [htl, hc])]

/-- A block is two comments and the entry between them, if there are names. The line it starts in
says what it said in front of the block, and a line starts behind it. -/
theorem entryAt_around (hnames : ∀ name ∈ names, isValidHostname name = true)
    (hn : IsNewline newline) :
    EntryAt (pre ++ renderBlock ip names newline ++ post) i entry ↔
      (i ≤ pre.length ∧ EntryAt pre i entry) ∨
      (i = (pre ++ beginMark ++ newline).length ∧ names ≠ [] ∧ entry = ip.display :: names) ∨
      ∃ j, i = (pre ++ renderBlock ip names newline).length + j ∧ EntryAt post j entry := by
  obtain ⟨eol, heol, rfl⟩ : ∃ eol, (eol = [] ∨ eol = [cr]) ∧ newline = eol ++ [lf] := by
    obtain rfl | rfl := hn
    · exact ⟨[], .inl rfl, rfl⟩
    · exact ⟨[cr], .inr rfl, rfl⟩
  have hbreak : lf ∉ eol := by
    obtain rfl | rfl := heol <;> decide
  have hbegin (k : Nat) : EntryAt (pre ++ (beginMark ++ eol)) k entry ↔
      k ≤ pre.length ∧ EntryAt pre k entry := entryAt_mark (.inl rfl) hbreak
  have hend (k : Nat) : EntryAt ((endMark ++ eol) ++ lf :: post) k entry ↔
      ∃ j, k = (endMark ++ eol).length + 1 + j ∧ EntryAt post j entry := by
    have hnone : ¬ EntryAt (endMark ++ eol) k entry := fun h => by
      rw [← List.nil_append (endMark ++ eol), entryAt_mark (.inr rfl) hbreak] at h
      exact absurd h.2.lt_length (by simp)
    rw [entryAt_break]
    simp [hnone]
  have hsplit : pre ++ renderBlock ip names (eol ++ [lf]) ++ post =
      (pre ++ (beginMark ++ eol)) ++ lf ::
        ((if names = [] then [] else entryLine ip names ++ (eol ++ [lf])) ++
          ((endMark ++ eol) ++ lf :: post)) := by
    simp [renderBlock_parts]
  rw [hsplit, entryAt_break, hbegin]
  refine or_congr ⟨And.right, fun h => ⟨?_, h⟩⟩ ?_
  · rw [List.length_append]
    omega
  by_cases hnil : names = []
  · have hlength : (pre ++ renderBlock ip names (eol ++ [lf])).length =
        (pre ++ (beginMark ++ eol)).length + 1 + ((endMark ++ eol).length + 1) := by
      simp [renderBlock_parts, hnil]
      omega
    rw [if_pos hnil, hlength]
    simp only [List.nil_append, hend]
    constructor
    · rintro ⟨_, rfl, j, rfl, h⟩
      exact .inr ⟨j, by omega, h⟩
    · rintro (⟨-, hne, -⟩ | ⟨j, rfl, h⟩)
      · exact absurd hnil hne
      · exact ⟨_, by rw [Nat.add_assoc], j, rfl, h⟩
  · have hlf : lf ∉ entryLine ip names ++ eol := by
      simp [(break_not_mem_entryLine hnames).2, hbreak]
    have hfields : hostsFields (entryLine ip names ++ eol) = ip.display :: names := by
      obtain ⟨hfields, hfields'⟩ := @hostsFields_entry ip names hnames
      obtain rfl | rfl := heol
      · rwa [List.append_nil]
      · exact hfields'
    have hcut : (entryLine ip names ++ (eol ++ [lf])) ++ ((endMark ++ eol) ++ lf :: post) =
        (entryLine ip names ++ eol) ++ lf :: ((endMark ++ eol) ++ lf :: post) := by simp
    have hlength : (pre ++ renderBlock ip names (eol ++ [lf])).length =
        (pre ++ (beginMark ++ eol)).length + 1 +
          ((entryLine ip names ++ eol).length + 1 + ((endMark ++ eol).length + 1)) := by
      simp [renderBlock_parts, hnil]
      omega
    have hstart : (pre ++ beginMark ++ (eol ++ [lf])).length =
        (pre ++ (beginMark ++ eol)).length + 1 := by
      simp
      omega
    rw [if_neg hnil, hcut, hlength, hstart]
    simp only [entryAt_break, entryAt_line hlf, hfields, hend]
    constructor
    · rintro ⟨_, rfl, ⟨-, rfl, rfl, -⟩ | ⟨_, rfl, j, rfl, h⟩⟩
      · exact .inl ⟨rfl, hnil, rfl⟩
      · exact .inr ⟨j, by omega, h⟩
    · rintro (⟨rfl, -, rfl⟩ | ⟨j, rfl, h⟩)
      · exact ⟨0, rfl, .inl ⟨Nat.zero_le _, rfl, rfl, List.cons_ne_nil _ _⟩⟩
      · exact ⟨_, by rw [Nat.add_assoc], .inr ⟨_, by rw [Nat.add_assoc], j, rfl, h⟩⟩

/-! ## The text around the block -/

/-- What stands behind the end mark on its line. -/
def restOfLine (original : Bytes) (stop : Nat) : Bytes :=
  (original.drop (stop + endMark.length)).takeWhile (· ≠ lf)

/-- What stands behind the end mark on its line reads as no entry. -/
def TailSaysNothing (original : Bytes) : Prop :=
  ∀ start stop, find beginMark original = some start → find endMark original = some stop →
    start < stop → hostsFields (restOfLine original stop) = []

/-- A line break says nothing. -/
theorem not_entryAt_newline (hn : IsNewline newline) : ¬ EntryAt newline i entry := by
  have hnil (k : Nat) : ¬ EntryAt [] k entry := fun h => absurd h.lt_length (Nat.not_lt_zero k)
  have hcr (k : Nat) : ¬ EntryAt [cr] k entry := by
    rw [entryAt_line (by decide)]
    rintro ⟨-, hfields, hactive⟩
    exact hactive hfields.symm
  have hbreak (eol : Bytes) (heol : ∀ k, ¬ EntryAt eol k entry) :
      ¬ EntryAt (eol ++ lf :: []) i entry := by
    rw [entryAt_break]
    simp [heol, hnil]
  obtain rfl | rfl := hn
  · exact hbreak [] hnil
  · exact hbreak [cr] hcr

/-- In front of the block nothing new is said. -/
theorem Placed.entryAt_front (h : Placed original pre post) (hi : i ≤ pre.length)
    (hentry : EntryAt pre i entry) : EntryAt original i entry := by
  have htake {start : Nat} (hb : find beginMark original = some start)
      (hi : i ≤ (original.take start).length) (hentry : EntryAt (original.take start) i entry) :
      EntryAt original i entry := by
    obtain ⟨-, ⟨rest, hocc⟩, -⟩ := find_eq_some_iff.mp hb
    obtain ⟨tl, heq, -⟩ := beginMark_eq
    rw [← List.take_append_drop start original, ← hocc, heq, List.cons_append]
    exact (entryAt_hash hi).mpr hentry
  cases h with
  | appended hb =>
    have hblank (k : Nat) : ¬ EntryAt (newlineOf original) k entry :=
      not_entryAt_newline (isNewline_newlineOf original)
    split at hentry
    · next hnil => rwa [hnil]
    · unfold missingLf at hentry
      split at hentry
      · next hlast =>
        obtain ⟨front, hfront⟩ := List.getLast?_eq_some_iff.mp hlast
        rw [List.append_nil, hfront, List.append_assoc, List.singleton_append, entryAt_break,
          ← hfront] at hentry
        obtain h | ⟨j, -, h⟩ := hentry
        · rw [hfront]
          exact entryAt_break.mpr (.inl h)
        · exact absurd h (hblank j)
      · rw [List.append_assoc, List.singleton_append, entryAt_break] at hentry
        obtain h | ⟨j, -, h⟩ := hentry
        · exact h.2
        · exact absurd h (hblank j)
  | between hb _ _ => exact htake hb hi hentry
  | cut hb _ => exact htake hb hi hentry

/-- A line ending that is dropped leaves a line of its own. -/
theorem dropEol_cases (text : Bytes) : dropEol text = text ∨
    hostsFields (text.takeWhile (· ≠ lf)) = [] ∧
      ∃ eol, text = eol ++ dropEol text ∧ eol.getLast? = some lf := by
  unfold dropEol
  split
  · next rest => exact .inr ⟨rfl, crlf, rfl, rfl⟩
  · next rest => exact .inr ⟨rfl, [lf], rfl, rfl⟩
  · exact .inl rfl

/-- Behind the block nothing new is said but on the rest of the end mark's line. -/
theorem Placed.entryAt_behind_iff (h : Placed original pre post) :
    ∃ front, original = front ++ post ∧ ((∀ j entry, EntryAt post j entry →
      EntryAt original (front.length + j) entry) ↔ TailSaysNothing original) := by
  have hnil (k : Nat) (entry : List Bytes) : ¬ EntryAt [] k entry :=
    fun h => absurd h.lt_length (Nat.not_lt_zero k)
  cases h with
  | appended hb => exact ⟨original, by simp, by simp [TailSaysNothing, hb, hnil]⟩
  | @between start stop hb he hlt =>
    have hmark := getLast_take_endMark he
    have hfront := List.take_append_drop (stop + endMark.length) original
    have htail : TailSaysNothing original ↔
        hostsFields ((original.drop (stop + endMark.length)).takeWhile (· ≠ lf)) = [] := by
      simp [TailSaysNothing, restOfLine, hb, he, hlt]
    rw [htail]
    generalize original.take (stop + endMark.length) = front at hmark hfront
    generalize original.drop (stop + endMark.length) = text at hfront
    obtain rfl := hfront
    obtain hsame | ⟨hempty, eol, hsplit, hlast⟩ := dropEol_cases text
    · rw [hsame]
      refine ⟨front, rfl, fun h => ?_, fun hempty j entry hentry => entryAt_behind.mpr ⟨?_, hentry⟩⟩
      · -- an entry would start in the middle of the end mark's line
        by_contra hactive
        obtain hnil | hlast := (entryAt_behind.mp (h 0 _ ⟨.inl rfl, rfl, hactive⟩)).1 rfl
        · rw [List.length_eq_zero_iff.mp hnil] at hmark
          exact absurd hmark (by decide)
        · rw [List.take_length, hmark] at hlast
          exact absurd hlast (by decide)
      · rintro rfl
        exact absurd (hentry.fields.symm.trans hempty) hentry.active
    · have hall : front ++ text = (front ++ eol) ++ dropEol text := by
        rw [List.append_assoc, ← hsplit]
      refine ⟨front ++ eol, hall, iff_of_true (fun j entry hentry => ?_) hempty⟩
      rw [hall, entryAt_behind]
      refine ⟨fun _ => .inr ?_, hentry⟩
      rw [List.take_length, List.getLast?_append, hlast, Option.some_or]
  | cut hb hstop =>
    refine ⟨original, by simp, ?_⟩
    simp only [hnil, false_implies, implies_true, true_iff]
    intro start' stop hb' he' hlt
    obtain rfl := Option.some.inj (hb.symm.trans hb')
    exact absurd (hstop stop he') (Nat.not_le_of_lt hlt)

end Block

/-! ## What a sync activates -/

/-- Where an active entry of a text comes from, with the block from `start` to `stop`: in front of
the block it stands in the original at the same distance from the start, and behind the block at the
same distance from the end. In the block it is the managed entry. -/
def InPlace (ip : Net.IpAddr) (names : List Bytes) (original text : Bytes) (start stop i : Nat)
    (entry : List Bytes) : Prop :=
  i ≤ start ∧ EntryAt original i entry ∨
    start < i ∧ i < stop ∧ entry = ip.display :: names ∨
    stop ≤ i ∧ ∃ k, original.length - k = text.length - i ∧ EntryAt original k entry

/-- Every active entry of the text is one of the original or the managed entry, and the managed
entry is there if there are names. Outside of the block, which starts at the begin mark, nothing is
active that was not active in the same place. -/
structure ActivatesManaged (ip : Net.IpAddr) (names : List Bytes) (original text : Bytes) :
    Prop where
  only : ∀ entry ∈ activeEntries text, entry ∈ activeEntries original ∨ entry = ip.display :: names
  present : names ≠ [] → ip.display :: names ∈ activeEntries text
  inPlace : ∃ start, find beginMark text = some start ∧ ∀ i entry, EntryAt text i entry →
    InPlace ip names original text start
      (start + (renderBlock ip names (newlineOf original)).length) i entry

section Activates

variable {path : FsPath} {ip : Net.IpAddr} {names : List Bytes} {original text pre post : Bytes}
  {files files' : Files} {changed : Bool}

/-- An entry of the original that is in place is one of the original. -/
theorem InPlace.mem {start stop i : Nat} {entry : List Bytes}
    (h : InPlace ip names original text start stop i entry) :
    entry ∈ activeEntries original ∨ entry = ip.display :: names := by
  obtain ⟨-, h⟩ | ⟨-, -, h⟩ | ⟨-, k, -, h⟩ := h
  · exact .inl (mem_activeEntries_iff.mpr ⟨i, h⟩)
  · exact .inr h
  · exact .inl (mem_activeEntries_iff.mpr ⟨k, h⟩)

theorem activatesManaged_iff (hnames : ∀ name ∈ names, isValidHostname name = true) :
    ActivatesManaged ip names original (syncedText ip names original) ↔
      TailSaysNothing original := by
  obtain ⟨pre, post, hplaced, heq⟩ := syncedText_placed ip names original
  have hn := isNewline_newlineOf original
  have htext := heq _ hn
  change syncedText ip names original = _ at htext
  obtain ⟨front, horiginal, htail⟩ := hplaced.entryAt_behind_iff
  have hlen := congrArg List.length horiginal
  rw [List.length_append] at hlen
  have hpart : beginMark.length + (newlineOf original).length <
      (renderBlock ip names (newlineOf original)).length := by
    have hend : 0 < endMark.length := by decide
    simp only [renderBlock_parts, List.length_append]
    omega
  have hstart : find beginMark (syncedText ip names original) = some pre.length := by
    rw [htext, renderBlock_parts]
    simp only [List.append_assoc]
    exact find_beginMark_at hplaced.around.noBegin _
  have hentries (i : Nat) (entry : List Bytes) :=
    @entryAt_around ip names (newlineOf original) pre post i entry hnames hn
  rw [← htext] at hentries
  have htextlen := congrArg List.length htext
  simp only [List.length_append] at htextlen hentries
  constructor
  · intro h
    obtain ⟨start, hfound, hplace⟩ := h.inPlace
    obtain rfl := Option.some.inj (hstart.symm.trans hfound)
    refine htail.mp fun j entry hentry => ?_
    obtain ⟨hi, -⟩ | ⟨-, hi, -⟩ | ⟨-, k, hk, hold⟩ :=
      hplace _ entry ((hentries _ entry).mpr (.inr (.inr ⟨j, rfl, hentry⟩)))
    · omega
    · omega
    · have hlast := hold.lt_length
      have hj := hentry.lt_length
      obtain rfl : k = front.length + j := by omega
      exact hold
  · intro h
    have hplace (i : Nat) (entry : List Bytes)
        (hat : EntryAt (syncedText ip names original) i entry) :
        InPlace ip names original (syncedText ip names original) pre.length
          (pre.length + (renderBlock ip names (newlineOf original)).length) i entry := by
      obtain ⟨hi, hentry⟩ | ⟨rfl, -, rfl⟩ | ⟨j, rfl, hentry⟩ := (hentries i entry).mp hat
      · exact .inl ⟨hi, hplaced.entryAt_front hi hentry⟩
      · have hbegin : 0 < beginMark.length := by decide
        exact .inr (.inl ⟨by omega, by omega, rfl⟩)
      · exact .inr (.inr ⟨by omega, front.length + j, by omega, htail.mpr h j entry hentry⟩)
    refine ⟨fun entry hentry => ?_, fun hne => ?_, pre.length, hstart, hplace⟩
    · obtain ⟨i, hentry⟩ := mem_activeEntries_iff.mp hentry
      exact (hplace i entry hentry).mem
    · exact mem_activeEntries_iff.mpr ⟨_, (hentries _ _).mpr (.inr (.inl ⟨rfl, hne, rfl⟩))⟩

/-- A sync activates nothing but the managed entry, unless the text behind the end mark on its line,
which was a comment, reads as an entry. -/
theorem syncHosts_activates (hfile : files.content path = some original)
    (hnames : ∀ name ∈ names, isValidHostname name = true)
    (hends : SyncEnds False False path ip names files (.ok changed) files')
    (htext : files'.content path = some text) :
    ActivatesManaged ip names original text ↔ TailSaysNothing original := by
  have hsynced := (syncHosts_ok hfile hends).1
  obtain rfl : text = syncedText ip names original := Option.some.inj (htext.symm.trans hsynced)
  exact activatesManaged_iff hnames

/-- A line that the user has commented out by writing it behind the end mark. -/
theorem syncHosts_activates_comment : ∃ changed files' text,
    SyncEnds False False etcHosts (.v4 127 0 0 2) [ascii "example.com"]
      (oneFile etcHosts (ascii "# BEGIN nyasniproxy\n# END nyasniproxy 10.0.0.1 nas\n")
        fileName_etcHosts) (.ok changed) files' ∧
    files'.content etcHosts = some text ∧
    [ascii "10.0.0.1", ascii "nas"] ∈ activeEntries text ∧
    ¬ ActivatesManaged (.v4 127 0 0 2) [ascii "example.com"]
      (ascii "# BEGIN nyasniproxy\n# END nyasniproxy 10.0.0.1 nas\n") text := by
  obtain ⟨changed, files', hends, hsynced⟩ :=
    exists_sync_etcHosts (ascii "# BEGIN nyasniproxy\n# END nyasniproxy 10.0.0.1 nas\n")
  have hnew : [ascii "10.0.0.1", ascii "nas"] ∈ activeEntries (syncedText (.v4 127 0 0 2)
      [ascii "example.com"] (ascii "# BEGIN nyasniproxy\n# END nyasniproxy 10.0.0.1 nas\n")) := by
    decide +kernel
  refine ⟨changed, files', _, syncEnds_of_ends hends, hsynced, hnew, fun h => ?_⟩
  have hold := h.only _ hnew
  revert hold
  decide +kernel

/-- Both marks stand in the middle of lines, with an entry in front of the first one and a comment
behind the second one. -/
theorem syncHosts_activates_localhost : ∃ changed files' text,
    SyncEnds False False etcHosts (.v4 127 0 0 2) [ascii "example.com"]
      (oneFile etcHosts
        (ascii "::1 localhost # BEGIN nyasniproxy\nold # END nyasniproxy # nas\n10.0.0.1 nas\n")
        fileName_etcHosts) (.ok changed) files' ∧
    files'.content etcHosts = some text ∧
    ActivatesManaged (.v4 127 0 0 2) [ascii "example.com"]
      (ascii "::1 localhost # BEGIN nyasniproxy\nold # END nyasniproxy # nas\n10.0.0.1 nas\n")
      text := by
  obtain ⟨changed, files', hends, hsynced⟩ := exists_sync_etcHosts
    (ascii "::1 localhost # BEGIN nyasniproxy\nold # END nyasniproxy # nas\n10.0.0.1 nas\n")
  refine ⟨changed, files', _, syncEnds_of_ends hends, hsynced,
    (syncHosts_activates (content_oneFile ..) (by decide) (syncEnds_of_ends hends) hsynced).mpr ?_⟩
  intro start stop hb he hlt
  obtain rfl : stop = 38 := Option.some.inj (he.symm.trans (by decide +kernel))
  decide +kernel

end Activates

end NyaSniProxy
