import NyaSniProxy.Hosts.Entry
import NyaSniProxy.Hosts.Failures
import NyaSniProxy.Hosts.Resync

/-!
# The line endings of the hosts file

A sync takes the line ending of its block from the file: CR LF if the file contains one. The text
around the block keeps its bytes, so line breaks arise at the seams only. There is one that does not
ask for the line ending of the file: the LF that ends an unterminated last line. It stands alone in
a file of CR LF lines, and behind a CR it makes a CR LF in a file that had none, so that the next
sync takes another line ending.
-/

namespace NyaSniProxy

open Text Search Interaction

/-- Every LF of the text stands behind a CR. -/
def CrlfOnly (text : Bytes) : Prop :=
  ∀ i, text[i]? = some lf → 0 < i ∧ text[i - 1]? = some cr

instance (text : Bytes) : Decidable (CrlfOnly text) :=
  decidable_of_iff (∀ i < text.length, text[i]? = some lf → 0 < i ∧ text[i - 1]? = some cr)
    ⟨fun h i hi => h i (List.getElem?_eq_some_iff.mp hi).1 hi, fun h i _ => h i⟩

section CrlfOnly

variable {s t text : Bytes}

theorem crlfOnly_of_not_mem (h : lf ∉ text) : CrlfOnly text :=
  fun _ hi => absurd (List.mem_of_getElem? hi) h

theorem CrlfOnly.left (h : CrlfOnly (s ++ t)) : CrlfOnly s := by
  intro i hi
  have := h i
  grind

theorem CrlfOnly.right (h : CrlfOnly (s ++ t)) (hhead : t.head? ≠ some lf) : CrlfOnly t := by
  intro i hi
  have := h (s.length + i)
  grind [List.head?_eq_getElem?]

theorem CrlfOnly.head (h : CrlfOnly text) : text.head? ≠ some lf := by
  have := h 0
  grind [List.head?_eq_getElem?]

/-- No text of this kind starts with an LF, so no CR LF is split between the two. -/
theorem CrlfOnly.append (hs : CrlfOnly s) (ht : CrlfOnly t) : CrlfOnly (s ++ t) := by
  intro i hi
  have := hs i
  have := ht (i - s.length)
  grind

/-- An LF asks for a CR in front of it. -/
theorem crlfOnly_append_lf :
    CrlfOnly (s ++ lf :: t) ↔ CrlfOnly s ∧ s.getLast? = some cr ∧ CrlfOnly t := by
  constructor
  · intro h
    refine ⟨h.left, ?_, ?_⟩
    · have := h s.length
      grind
    · intro i hi
      have := h (s.length + 1 + i)
      grind
  · rintro ⟨hs, hlast, ht⟩ i hi
    have := hs i
    have := ht (i - s.length - 1)
    grind

theorem crlfOnly_append_crlf : CrlfOnly (s ++ crlf) ↔ CrlfOnly s := by
  have hsplit : s ++ crlf = (s ++ [cr]) ++ lf :: [] := by simp
  rw [hsplit, crlfOnly_append_lf]
  constructor
  · intro h
    exact h.1.left
  · intro h
    exact ⟨h.append (crlfOnly_of_not_mem (by decide)), by simp, crlfOnly_of_not_mem (by simp)⟩

/-- What stands behind a line ending that is dropped. -/
theorem CrlfOnly.dropEol (h : CrlfOnly (s ++ t)) (hlast : s.getLast? ≠ some cr) :
    CrlfOnly (dropEol t) := by
  have ht : CrlfOnly t := by
    refine h.right fun hhead => ?_
    obtain ⟨t, rfl⟩ := List.head?_eq_some_iff.mp hhead
    exact hlast (crlfOnly_append_lf.mp h).2.1
  unfold NyaSniProxy.dropEol
  split
  · next rest =>
    exact (@crlfOnly_append_lf [cr] rest |>.mp ht).2.2
  · next rest => exact absurd rfl ht.head
  · exact ht

/-- Where a CR LF stands. -/
theorem crlf_infix_iff : crlf <:+: text ↔ ∃ i, text[i]? = some cr ∧ text[i + 1]? = some lf := by
  constructor
  · rintro ⟨u, v, rfl⟩
    exact ⟨u.length, by simp, by simp⟩
  · rintro ⟨i, hcr, hlf⟩
    obtain ⟨hi, hcr⟩ := List.getElem?_eq_some_iff.mp hcr
    obtain ⟨hi', hlf⟩ := List.getElem?_eq_some_iff.mp hlf
    have hdrop : text.drop i = crlf ++ text.drop (i + 2) := by
      rw [List.drop_eq_getElem_cons hi, List.drop_eq_getElem_cons hi', hcr, hlf]
      rfl
    refine ⟨text.take i, text.drop (i + 2), ?_⟩
    rw [List.append_assoc, ← hdrop, List.take_append_drop]

theorem crlf_infix_append : crlf <:+: s ++ t ↔
    crlf <:+: s ∨ crlf <:+: t ∨ s.getLast? = some cr ∧ t.head? = some lf := by
  simp only [crlf_infix_iff]
  constructor
  · rintro ⟨i, hcr, hlf⟩
    rcases Nat.lt_trichotomy (i + 1) s.length with hlt | heq | hgt
    · exact .inl ⟨i, by grind, by grind⟩
    · exact .inr (.inr ⟨by grind, by grind [List.head?_eq_getElem?]⟩)
    · exact .inr (.inl ⟨i - s.length, by grind, by grind⟩)
  · rintro (⟨i, hcr, hlf⟩ | ⟨i, hcr, hlf⟩ | ⟨hcr, hlf⟩)
    · exact ⟨i, by grind, by grind⟩
    · exact ⟨s.length + i, by grind, by grind⟩
    · exact ⟨s.length - 1, by grind, by grind [List.head?_eq_getElem?]⟩

end CrlfOnly

/-! ## The block -/

section Block

variable {ip : Net.IpAddr} {names : List Bytes} {newline : Bytes}

theorem renderBlock_parts (ip : Net.IpAddr) (names : List Bytes) (newline : Bytes) :
    renderBlock ip names newline = beginMark ++ newline ++
      (if names = [] then [] else entryLine ip names ++ newline) ++ endMark ++ newline := by
  simp [renderBlock, entryLine]

theorem crlfOnly_renderBlock (hnames : ∀ name ∈ names, isValidHostname name = true) :
    CrlfOnly (renderBlock ip names crlf) := by
  have hbegin : CrlfOnly beginMark := crlfOnly_of_not_mem (by decide)
  have hend : CrlfOnly endMark := crlfOnly_of_not_mem (by decide)
  have hentry : CrlfOnly (if names = [] then [] else entryLine ip names ++ crlf) := by
    split
    · exact crlfOnly_of_not_mem (by simp)
    · exact crlfOnly_append_crlf.mpr (crlfOnly_of_not_mem (break_not_mem_entryLine hnames).2)
  rw [renderBlock_parts, crlfOnly_append_crlf]
  exact ((crlfOnly_append_crlf.mpr hbegin).append hentry).append hend

/-- A block in LF lines has no CR. -/
theorem cr_not_mem_renderBlock (hnames : ∀ name ∈ names, isValidHostname name = true) :
    cr ∉ renderBlock ip names [lf] := by
  have hbegin : cr ∉ beginMark := by decide
  have hend : cr ∉ endMark := by decide
  have hentry : cr ∉ entryLine ip names := (break_not_mem_entryLine hnames).1
  have hbreak : ¬ cr = lf := by decide
  rw [renderBlock_parts]
  split <;> simp [hbegin, hend, hentry, hbreak]

theorem crlf_infix_renderBlock (ip : Net.IpAddr) (names : List Bytes) :
    crlf <:+: renderBlock ip names crlf := by
  rw [renderBlock_parts]
  exact (List.suffix_append _ _).isInfix

theorem head_renderBlock (ip : Net.IpAddr) (names : List Bytes) (newline : Bytes) :
    (renderBlock ip names newline).head? = some hashSign := by
  simp only [renderBlock_parts, List.append_assoc]
  rfl

theorem getLast_renderBlock (hn : IsNewline newline) :
    (renderBlock ip names newline).getLast? = some lf := by
  rw [renderBlock_parts, List.getLast?_append]
  obtain rfl | rfl := hn <;> rfl

/-- The two line endings give two blocks. -/
theorem renderBlock_newline {newline' : Bytes} (hn : IsNewline newline) (hn' : IsNewline newline')
    (h : renderBlock ip names newline = renderBlock ip names newline') : newline = newline' := by
  simp only [renderBlock_parts, List.append_assoc, List.append_cancel_left_eq] at h
  obtain rfl | rfl := hn <;> obtain rfl | rfl := hn'
  · rfl
  · cases h
  · cases h
  · rfl

end Block

/-! ## The text around the block -/

section Placed

variable {original pre post : Bytes} {ip : Net.IpAddr} {names : List Bytes}

theorem beginMark_infix_of_find {start : Nat} (h : find beginMark original = some start) :
    beginMark <:+: original := by
  by_contra hnone
  have hfind := find_eq_none_iff_infix.mpr hnone
  rw [h] at hfind
  cases hfind

/-- The text in front of what is dropped ends with the end mark. -/
theorem getLast_take_endMark {stop : Nat} (h : find endMark original = some stop) :
    (original.take (stop + endMark.length)).getLast? = endMark.getLast? := by
  obtain ⟨-, hocc, -⟩ := find_eq_some_iff.mp h
  have hne : endMark ≠ [] := by decide
  rw [List.take_add, ← List.prefix_iff_eq_take.mp hocc, List.getLast?_append_of_ne_nil _ hne]

/-- In a file of CR LF lines only an unterminated last line that the block is put behind gets an LF
of its own. -/
theorem Placed.crlfOnly (h : Placed original pre post) (hcrlf : crlf <:+: original)
    (hpure : CrlfOnly original) : CrlfOnly post ∧ (CrlfOnly pre ↔
      beginMark <:+: original ∨ original.getLast? = some lf ∨ original.getLast? = some cr) := by
  have htake (n : Nat) : CrlfOnly (original.take n) := by
    rw [← List.take_append_drop n original] at hpure
    exact hpure.left
  cases h with
  | appended hb =>
    have hnone := find_eq_none_iff_infix.mp hb
    have hne : original ≠ [] := by
      rintro rfl
      exact absurd hcrlf (by decide)
    have hnewline : newlineOf original = crlf := if_pos hcrlf
    refine ⟨crlfOnly_of_not_mem (by simp), ?_⟩
    rw [if_neg hne, hnewline, crlfOnly_append_crlf, missingLf]
    split
    · next hlast => simp [hlast, hpure]
    · next hlast => simp [crlfOnly_append_lf, hlast, hnone, hpure, crlfOnly_of_not_mem]
  | @between start stop hb he hlt =>
    have hmark := beginMark_infix_of_find hb
    have hpost : CrlfOnly (dropEol (original.drop (stop + endMark.length))) := by
      rw [← List.take_append_drop (stop + endMark.length) original] at hpure
      refine hpure.dropEol ?_
      rw [getLast_take_endMark he]
      decide
    exact ⟨hpost, by simp [htake, hmark]⟩
  | cut hb _ =>
    have hmark := beginMark_infix_of_find hb
    exact ⟨crlfOnly_of_not_mem (by simp), by simp [htake, hmark]⟩

/-- A file without CR gets none. -/
theorem Placed.cr_not_mem (h : Placed original pre post) (hcr : cr ∉ original) :
    cr ∉ pre ∧ cr ∉ post := by
  have htake (n : Nat) : cr ∉ original.take n := fun h => hcr (List.mem_of_mem_take h)
  cases h with
  | appended hb =>
    have hnewline : newlineOf original = [lf] :=
      if_neg fun hocc => hcr (hocc.subset (by decide))
    have hmissing : cr ∉ missingLf original := by
      unfold missingLf
      split <;> decide
    have hbreak : ¬ cr = lf := by decide
    refine ⟨?_, List.not_mem_nil⟩
    split
    · exact List.not_mem_nil
    · simp [hnewline, hcr, hmissing, hbreak]
  | between hb he hlt =>
    exact ⟨htake _, fun hmem => hcr (List.mem_of_mem_drop ((dropEol_suffix _).subset hmem))⟩
  | cut hb _ => exact ⟨htake _, List.not_mem_nil⟩

/-- In a file without CR LF one arises where an unterminated last line ends with a CR. -/
theorem Placed.crlf_infix (h : Placed original pre post) (hnone : ¬ crlf <:+: original) :
    ¬ crlf <:+: post ∧
      (crlf <:+: pre ↔ ¬ beginMark <:+: original ∧ original.getLast? = some cr) := by
  have htake (n : Nat) : ¬ crlf <:+: original.take n :=
    fun hocc => hnone (hocc.trans (List.take_prefix n original).isInfix)
  have hnil : ¬ crlf <:+: [] := by decide
  cases h with
  | appended hb =>
    have hmark := find_eq_none_iff_infix.mp hb
    have hnewline : newlineOf original = [lf] := if_neg hnone
    refine ⟨hnil, ?_⟩
    split
    · next heq => simp [heq, hnil]
    · have hlf : ¬ crlf <:+: [lf] := by decide
      have hlf' : ¬ crlf <:+: [lf, lf] := by decide
      rw [hnewline, missingLf]
      split
      · next hlast =>
        have hbreak : ¬ Text.lf = cr := by decide
        simp [crlf_infix_append, hnone, hlf, hlast, hbreak]
      · simp [crlf_infix_append, hnone, hlf', hmark]
  | @between start stop hb he hlt =>
    have hmark := beginMark_infix_of_find hb
    have hpost : ¬ crlf <:+: dropEol (original.drop (stop + endMark.length)) := fun hocc =>
      hnone (hocc.trans ((dropEol_suffix _).trans (List.drop_suffix _ _)).isInfix)
    exact ⟨hpost, by simp [htake, hmark]⟩
  | cut hb _ =>
    have hmark := beginMark_infix_of_find hb
    exact ⟨hnil, by simp [htake, hmark]⟩

end Placed

/-! ## The style of the file -/

/-- A file of CR LF lines stays one, and a file without CR too. -/
structure KeepsEndings (original text : Bytes) : Prop where
  crlf : crlf <:+: original → CrlfOnly original → CrlfOnly text
  lf : cr ∉ original → cr ∉ text

section Style

variable {path : FsPath} {ip : Net.IpAddr} {names : List Bytes} {original text : Bytes}
  {files files' : Files} {changed : Bool}

theorem syncedText_placed (ip : Net.IpAddr) (names : List Bytes) (original : Bytes) :
    ∃ pre post, Placed original pre post ∧ ∀ newline, IsNewline newline →
      replaceManagedBlock original (renderBlock ip names newline) =
        pre ++ renderBlock ip names newline ++ post := by
  obtain ⟨pre, post, hplaced, heq⟩ := replaceManagedBlock_placed original
  exact ⟨pre, post, hplaced, fun newline hn => heq _ (missingLf_renderBlock hn)⟩

theorem keepsEndings_iff (hnames : ∀ name ∈ names, isValidHostname name = true) :
    KeepsEndings original (syncedText ip names original) ↔
      (crlf <:+: original → CrlfOnly original →
        beginMark <:+: original ∨ original.getLast? = some lf ∨ original.getLast? = some cr) := by
  obtain ⟨pre, post, hplaced, heq⟩ := syncedText_placed ip names original
  have htext := heq _ (isNewline_newlineOf original)
  change syncedText ip names original = _ at htext
  rw [htext]
  constructor
  · intro h hcrlf hpure
    have hpre := (h.crlf hcrlf hpure).left.left
    exact (hplaced.crlfOnly hcrlf hpure).2.mp hpre
  · intro h
    constructor
    · intro hcrlf hpure
      obtain ⟨hpost, hpre⟩ := hplaced.crlfOnly hcrlf hpure
      have hnewline : newlineOf original = Text.crlf := if_pos hcrlf
      rw [hnewline]
      exact ((hpre.mpr (h hcrlf hpure)).append (crlfOnly_renderBlock hnames)).append hpost
    · intro hcr
      obtain ⟨hpre, hpost⟩ := hplaced.cr_not_mem hcr
      have hnewline : newlineOf original = [Text.lf] :=
        if_neg fun hocc => hcr (hocc.subset (by decide))
      rw [hnewline]
      simp [hpre, hpost, cr_not_mem_renderBlock hnames]

/-- A sync keeps the style of the line endings unless it puts the first block into a file of CR LF
lines whose last line is not terminated. -/
theorem syncHosts_endings (hfile : files.content path = some original)
    (hnames : ∀ name ∈ names, isValidHostname name = true)
    (hends : SyncEnds False False path ip names files (.ok changed) files')
    (htext : files'.content path = some text) :
    KeepsEndings original text ↔
      (crlf <:+: original → CrlfOnly original →
        beginMark <:+: original ∨ original.getLast? = some lf ∨ original.getLast? = some cr) := by
  have hsynced := (syncHosts_ok hfile hends).1
  obtain rfl : text = syncedText ip names original := Option.some.inj (htext.symm.trans hsynced)
  exact keepsEndings_iff hnames

/-- The first block of a file with an unterminated last line, between CR LF and CR LF. -/
theorem syncHosts_loneLf : ∃ changed files' text,
    SyncEnds False False etcHosts (.v4 127 0 0 2) [ascii "example.com"]
      (oneFile etcHosts (ascii "10.0.0.1 nas\r\n10.0.0.2 tv") fileName_etcHosts) (.ok changed)
      files' ∧
    files'.content etcHosts = some text ∧
    ¬ KeepsEndings (ascii "10.0.0.1 nas\r\n10.0.0.2 tv") text := by
  have hnames : ∀ name ∈ [ascii "example.com"], isValidHostname name = true := by decide
  obtain ⟨changed, files', hends, hsynced⟩ :=
    exists_sync_etcHosts (ascii "10.0.0.1 nas\r\n10.0.0.2 tv")
  refine ⟨changed, files', _, syncEnds_of_ends hends, hsynced, ?_⟩
  rw [keepsEndings_iff hnames]
  decide +kernel

/-- A file of CR LF lines with a terminated last line. -/
theorem syncHosts_endings_terminated : ∃ changed files' text,
    SyncEnds False False etcHosts (.v4 127 0 0 2) [ascii "example.com"]
      (oneFile etcHosts (ascii "10.0.0.1 nas\r\n") fileName_etcHosts) (.ok changed) files' ∧
    files'.content etcHosts = some text ∧
    (KeepsEndings (ascii "10.0.0.1 nas\r\n") text ↔
      (crlf <:+: ascii "10.0.0.1 nas\r\n" → CrlfOnly (ascii "10.0.0.1 nas\r\n") →
        beginMark <:+: ascii "10.0.0.1 nas\r\n" ∨
          (ascii "10.0.0.1 nas\r\n").getLast? = some lf ∨
          (ascii "10.0.0.1 nas\r\n").getLast? = some cr)) := by
  have hnames : ∀ name ∈ [ascii "example.com"], isValidHostname name = true := by decide
  obtain ⟨changed, files', hends, hsynced⟩ := exists_sync_etcHosts (ascii "10.0.0.1 nas\r\n")
  exact ⟨changed, files', _, syncEnds_of_ends hends, hsynced,
    syncHosts_endings (content_oneFile ..) hnames (syncEnds_of_ends hends) hsynced⟩

end Style

/-! ## The next sync -/

section Again

variable {path : FsPath} {ip : Net.IpAddr} {names : List Bytes} {original text : Bytes}
  {files files' : Files} {changed : Bool}

/-- A sync that no call fails ends with `false`, and with the files as they were. -/
def NoOp (path : FsPath) (ip : Net.IpAddr) (names : List Bytes) (files : Files) : Prop :=
  (∃ result files', Ends (FsAnswer False) (syncHosts path ip names) files result files') ∧
    ∀ result files', Ends (FsAnswer False) (syncHosts path ip names) files result files' →
      result = .ok false ∧ files' = files

theorem noOp_iff (hfile : files.content path = some text) :
    NoOp path ip names files ↔ syncedText ip names text = text := by
  obtain ⟨changed, files', hends⟩ := @exists_ends_syncHosts path ip names text files hfile
  constructor
  · rintro ⟨-, hall⟩
    obtain ⟨hresult, -⟩ := hall _ _ hends
    have hchanged := (syncHosts_ok hfile (syncEnds_of_ends hends)).2
    obtain rfl := Except.ok.inj hresult
    simpa using hchanged
  · intro hsame
    refine ⟨⟨_, _, hends⟩, fun result files' hends => ?_⟩
    obtain ⟨reply, files₁, hread, hrest⟩ := ends_call.mp hends
    cases hread with
    | @readToString _ _ text' htext =>
      obtain rfl : text = text' := Option.some.inj (hfile.symm.trans htext)
      dsimp only at hrest
      split at hrest
      · exact ends_ret.mp hrest
      · next hne => exact absurd hsame hne
    | readFault hf => exact hf.elim

/-- A block in the line ending of the file leaves the line ending of the file, unless the LF behind
an unterminated last line makes the first CR LF. -/
theorem newlineOf_syncedText (hnames : ∀ name ∈ names, isValidHostname name = true) :
    newlineOf (syncedText ip names original) = newlineOf original ↔
      beginMark <:+: original ∨ crlf <:+: original ∨ original.getLast? ≠ some cr := by
  obtain ⟨pre, post, hplaced, heq⟩ := syncedText_placed ip names original
  have htext := heq _ (isNewline_newlineOf original)
  change syncedText ip names original = _ at htext
  rw [htext]
  by_cases hcrlf : crlf <:+: original
  · have hnewline : newlineOf original = crlf := if_pos hcrlf
    have hocc : crlf <:+: pre ++ renderBlock ip names crlf ++ post :=
      ((crlf_infix_renderBlock ip names).trans (List.suffix_append _ _).isInfix).trans
        (List.prefix_append _ _).isInfix
    simp only [hnewline, hcrlf, true_or, or_true, iff_true]
    exact if_pos hocc
  · obtain ⟨hpost, hpre⟩ := hplaced.crlf_infix hcrlf
    have hnewline : newlineOf original = [lf] := if_neg hcrlf
    have hblock : ¬ crlf <:+: renderBlock ip names [lf] := fun hocc =>
      cr_not_mem_renderBlock hnames (hocc.subset (by decide))
    have hseam : ¬ lf = cr := by decide
    have hocc : crlf <:+: pre ++ renderBlock ip names [lf] ++ post ↔ crlf <:+: pre := by
      have hlast : (renderBlock ip names [lf]).getLast? = some lf := getLast_renderBlock (.inl rfl)
      have hhash : ¬ hashSign = lf := by decide
      simp [crlf_infix_append, hblock, hpost, hlast, hseam, head_renderBlock, hhash]
    rw [hnewline, newlineOf]
    simp only [hocc, hpre, hcrlf, false_or]
    split
    · next hnew => simp [hnew]
    · next hnew =>
      simp only [true_iff]
      tauto

/-- A second sync changes nothing unless the first one has put its block behind a last line that
ends with the first CR of a CR LF. -/
theorem syncHosts_again (hfile : files.content path = some original)
    (hnames : ∀ name ∈ names, isValidHostname name = true)
    (hends : Ends (FsAnswer False) (syncHosts path ip names) files (.ok changed) files') :
    NoOp path ip names files' ↔
      (beginMark <:+: original ∨ crlf <:+: original ∨ original.getLast? ≠ some cr) := by
  have hsynced := (syncHosts_ok hfile (syncEnds_of_ends hends)).1
  obtain ⟨pre, post, hplaced, heq⟩ := syncedText_placed ip names original
  have hn := isNewline_newlineOf original
  have hn' := isNewline_newlineOf (syncedText ip names original)
  have hagain : syncedText ip names (syncedText ip names original) =
      pre ++ renderBlock ip names (newlineOf (syncedText ip names original)) ++ post := by
    rw [← heq _ hn']
    exact replace_replace ⟨ip, names, _, hnames, hn, rfl⟩ ⟨ip, names, _, hnames, hn', rfl⟩
  have hfirst : syncedText ip names original =
      pre ++ renderBlock ip names (newlineOf original) ++ post := heq _ hn
  rw [noOp_iff hsynced, ← @newlineOf_syncedText ip names original hnames]
  constructor
  · intro hsame
    rw [hagain] at hsame
    have hblock := List.append_cancel_right (hsame.trans hfirst)
    exact renderBlock_newline hn' hn (List.append_cancel_left hblock)
  · intro hnewline
    rw [hagain, hnewline, hfirst]

/-- The first sync of a file that ends with a CR is in LF, and the second one in CR LF. -/
theorem syncHosts_again_changes : ∃ changed files',
    Ends (FsAnswer False) (syncHosts etcHosts (.v4 127 0 0 2) [ascii "example.com"])
      (oneFile etcHosts (ascii "10.0.0.1 nas\r") fileName_etcHosts) (.ok changed) files' ∧
    ¬ NoOp etcHosts (.v4 127 0 0 2) [ascii "example.com"] files' := by
  obtain ⟨changed, files', hends, hsynced⟩ := exists_sync_etcHosts (ascii "10.0.0.1 nas\r")
  refine ⟨changed, files', hends, ?_⟩
  rw [noOp_iff hsynced]
  decide +kernel

/-- Two syncs of a file of LF lines. -/
theorem syncHosts_again_localhost : ∃ changed files',
    Ends (FsAnswer False) (syncHosts etcHosts (.v4 127 0 0 2) [ascii "example.com"])
      (oneFile etcHosts (ascii "127.0.0.1 localhost\n") fileName_etcHosts) (.ok changed) files' ∧
    (NoOp etcHosts (.v4 127 0 0 2) [ascii "example.com"] files' ↔
      (beginMark <:+: ascii "127.0.0.1 localhost\n" ∨ crlf <:+: ascii "127.0.0.1 localhost\n" ∨
        (ascii "127.0.0.1 localhost\n").getLast? ≠ some cr)) := by
  obtain ⟨changed, files', hends, -⟩ := exists_sync_etcHosts (ascii "127.0.0.1 localhost\n")
  exact ⟨changed, files', hends, syncHosts_again (content_oneFile ..) (by decide) hends⟩

end Again

end NyaSniProxy
