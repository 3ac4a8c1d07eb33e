import NyaSniProxy.Library.Search
import Mathlib.Data.Bool.AllAny
import Mathlib.Data.List.DropRight
import Mathlib.Data.Nat.Digits.Defs

/-!
# UTF-8 text as bytes

A Rust `str` is the sequence of its UTF-8 bytes, and so it is here: `Bytes`. Patterns that are
ASCII characters match bytewise, because a byte below 0x80 is never part of a longer character.

The functions carry the names of the `str`, `u8` and `u16` methods they describe. Each has the one
law its callers need: what a successful split says about the text, and that splits, trims and case
folds neither invent nor lose bytes.
-/

namespace Text

/-- Bytes of a text, or of a network buffer. -/
abbrev Bytes := List UInt8

/-- The bytes of an ASCII literal. -/
def ascii (s : String) : Bytes := s.toList.map fun c => c.toNat.toUInt8

/-- `str::from_utf8`: the same bytes, if they are valid UTF-8. -/
def fromUtf8 (bs : Bytes) : Option Bytes :=
  if (ByteArray.mk bs.toArray).validateUTF8 then some bs else none

/-- The bytes are valid UTF-8. -/
def IsUtf8 (bs : Bytes) : Prop := fromUtf8 bs = some bs

instance (bs : Bytes) : Decidable (IsUtf8 bs) := inferInstanceAs (Decidable (_ = _))

theorem fromUtf8_eq_some {bs cs : Bytes} (h : fromUtf8 bs = some cs) : cs = bs := by
  unfold fromUtf8 at h
  split at h <;> simp_all

theorem fromUtf8_eq_none {bs : Bytes} : fromUtf8 bs = none ↔ ¬ IsUtf8 bs := by
  unfold IsUtf8 fromUtf8
  split <;> simp

/-- A property of every byte, by going through their numbers. -/
theorem forall_byte {P : UInt8 → Prop} (h : ∀ n < 256, P n.toUInt8) (b : UInt8) : P b := by
  simpa using h b.toNat b.toNat_lt

/-- The encoding of characters is valid UTF-8. -/
theorem isUtf8_encode (chars : List Char) : IsUtf8 (chars.flatMap String.utf8EncodeChar) := by
  have hvalid :
      (ByteArray.mk (chars.flatMap String.utf8EncodeChar).toArray).validateUTF8 = true := by
    refine ByteArray.validateUTF8_eq_true_iff.mpr ⟨chars, ByteArray.ext ?_⟩
    simp [List.utf8Encode]
  exact if_pos hvalid

/-- ASCII text is valid UTF-8. -/
theorem isUtf8_of_ascii {bs : Bytes} (h : ∀ b ∈ bs, b < 128) : IsUtf8 bs := by
  have hchar : ∀ b : UInt8, b < 128 → String.utf8EncodeChar (Char.ofNat b.toNat) = [b] :=
    forall_byte (by decide +kernel)
  have hencode : (bs.map fun b => Char.ofNat b.toNat).flatMap String.utf8EncodeChar = bs := by
    induction bs with
    | nil => rfl
    | cons b bs ih =>
      obtain ⟨hb, hbs⟩ := List.forall_mem_cons.mp h
      rw [List.map_cons, List.flatMap_cons, hchar b hb, ih hbs]
      rfl
  rw [← hencode]
  exact isUtf8_encode _

/-- The byte 0xFF is no part of a text. -/
theorem IsUtf8.not_mem_ff {bs : Bytes} (h : IsUtf8 bs) : 0xff ∉ bs := by
  have hchar (c : Char) : 0xff ∉ String.utf8EncodeChar c := by
    unfold String.utf8EncodeChar
    generalize c.val.toNat = v
    dsimp only
    split_ifs <;> simp [← UInt8.toNat_inj] <;> omega
  unfold IsUtf8 fromUtf8 at h
  split at h
  · next hvalid =>
    obtain ⟨chars, hchars⟩ := ByteArray.validateUTF8_eq_true_iff.mp hvalid
    have hbs : bs = chars.flatMap String.utf8EncodeChar := by
      have := congrArg (fun b => b.data.toList) hchars
      simpa [List.utf8Encode] using this
    rw [hbs, List.mem_flatMap]
    rintro ⟨c, -, hc⟩
    exact hchar c hc
  · cases h

abbrev cr : UInt8 := 13
abbrev lf : UInt8 := 10
abbrev crlf : Bytes := [13, 10]
abbrev space : UInt8 := 32
abbrev dot : UInt8 := 46
abbrev colon : UInt8 := 58
abbrev openBracket : UInt8 := 91
abbrev closeBracket : UInt8 := 93

/-! ## Splitting at a byte -/

/-- `str::split_once` at an ASCII character. -/
def splitOnce (sep : UInt8) : Bytes → Option (Bytes × Bytes)
  | [] => none
  | c :: cs => if c = sep then some ([], cs) else (splitOnce sep cs).map fun p => (c :: p.1, p.2)

/-- `str::rsplit_once` at an ASCII character. -/
def rsplitOnce (sep : UInt8) (s : Bytes) : Option (Bytes × Bytes) :=
  (splitOnce sep s.reverse).map fun p => (p.2.reverse, p.1.reverse)

theorem splitOnce_eq_some_iff {sep : UInt8} {s a b : Bytes} :
    splitOnce sep s = some (a, b) ↔ s = a ++ sep :: b ∧ sep ∉ a := by
  induction s generalizing a with
  | nil => simp [splitOnce]
  | cons c cs ih =>
    by_cases hc : c = sep
    · subst hc
      cases a <;> simp [splitOnce]
      intro h
      simp [h]
    · simp only [splitOnce, hc, if_false, Option.map_eq_some_iff, Prod.mk.injEq, Prod.exists]
      constructor
      · rintro ⟨a', b', h, rfl, rfl⟩
        obtain ⟨rfl, hn⟩ := ih.mp h
        exact ⟨rfl, by simp [hn, Ne.symm hc]⟩
      · rintro ⟨h, hn⟩
        cases a with
        | nil => simp at h; exact absurd h.1 hc
        | cons d a =>
          simp at h hn
          obtain ⟨rfl, rfl⟩ := h
          exact ⟨a, b, ih.mpr ⟨rfl, hn.2⟩, rfl, rfl⟩

theorem splitOnce_eq_none_iff {sep : UInt8} {s : Bytes} : splitOnce sep s = none ↔ sep ∉ s := by
  induction s with
  | nil => simp [splitOnce]
  | cons c cs ih =>
    by_cases hc : c = sep
    · simp [splitOnce, hc]
    · simp [splitOnce, hc, ih, Ne.symm hc]

theorem takeWhile_ne {sep : UInt8} {s : Bytes} (h : sep ∉ s) : s.takeWhile (· ≠ sep) = s := by
  refine List.takeWhile_eq_self_iff.mpr fun b hb => ?_
  simpa using fun heq : b = sep => h (heq ▸ hb)

theorem takeWhile_ne_append {sep : UInt8} {s : Bytes} (h : sep ∉ s) (t : Bytes) :
    (s ++ sep :: t).takeWhile (· ≠ sep) = s := by
  rw [List.takeWhile_append_of_pos fun b hb => ?_]
  · simp
  · simpa using fun heq : b = sep => h (heq ▸ hb)

theorem rsplitOnce_eq_some_iff {sep : UInt8} {s a b : Bytes} :
    rsplitOnce sep s = some (a, b) ↔ s = a ++ sep :: b ∧ sep ∉ b := by
  simp only [rsplitOnce, Option.map_eq_some_iff, Prod.mk.injEq, Prod.exists]
  constructor
  · rintro ⟨x, y, h, rfl, rfl⟩
    obtain ⟨h, hn⟩ := splitOnce_eq_some_iff.mp h
    refine ⟨?_, by simpa using hn⟩
    simpa using congrArg List.reverse h
  · rintro ⟨rfl, hn⟩
    exact ⟨b.reverse, a.reverse, splitOnce_eq_some_iff.mpr ⟨by simp, by simpa using hn⟩, by simp⟩

theorem rsplitOnce_eq_none_iff {sep : UInt8} {s : Bytes} : rsplitOnce sep s = none ↔ sep ∉ s := by
  simp [rsplitOnce, splitOnce_eq_none_iff]

/-- A byte of joined texts is a separator, or it is in one of the texts. -/
theorem mem_intercalate {sep b : UInt8} {labels : List Bytes}
    (h : b ∈ [sep].intercalate labels) : b = sep ∨ ∃ label ∈ labels, b ∈ label := by
  induction labels with
  | nil => simp [List.intercalate] at h
  | cons label labels ih =>
    cases labels with
    | nil => exact .inr ⟨label, by simp, by simpa [List.intercalate] using h⟩
    | cons next labels =>
      have hsplit : [sep].intercalate (label :: next :: labels) =
          label ++ sep :: [sep].intercalate (next :: labels) := by
        simp [List.intercalate, List.intersperse]
      grind

/-- `str::strip_prefix` of an ASCII character. -/
def stripPrefix (c : UInt8) : Bytes → Option Bytes
  | [] => none
  | d :: s => if d = c then some s else none

theorem stripPrefix_eq_some_iff {c : UInt8} {s t : Bytes} :
    stripPrefix c s = some t ↔ s = c :: t := by
  cases s with
  | nil => simp [stripPrefix]
  | cons d s =>
    by_cases h : d = c <;> simp [stripPrefix, h]

/-! ## White space -/

/-- The UTF-8 encodings of the characters with the `White_Space` property. -/
def whiteSpace : List Bytes :=
  [[9], [10], [11], [12], [13], [32], [0xC2, 0x85], [0xC2, 0xA0], [0xE1, 0x9A, 0x80],
    [0xE2, 0x80, 0x80], [0xE2, 0x80, 0x81], [0xE2, 0x80, 0x82], [0xE2, 0x80, 0x83],
    [0xE2, 0x80, 0x84], [0xE2, 0x80, 0x85], [0xE2, 0x80, 0x86], [0xE2, 0x80, 0x87],
    [0xE2, 0x80, 0x88], [0xE2, 0x80, 0x89], [0xE2, 0x80, 0x8A], [0xE2, 0x80, 0xA8],
    [0xE2, 0x80, 0xA9], [0xE2, 0x80, 0xAF], [0xE2, 0x81, 0x9F], [0xE3, 0x80, 0x80]]

/-- Length of the character of `spaces` that the text starts with, zero if there is none. -/
def spaceWidth (spaces : List Bytes) (s : Bytes) : Nat :=
  ((spaces.find? fun w => w.isPrefixOf s).map List.length).getD 0

/-- Drop `skip` bytes, then the characters of `spaces` at the front of what is left. -/
def dropSpaces (spaces : List Bytes) : Nat → Bytes → Bytes
  | _, [] => []
  | skip + 1, _ :: s => dropSpaces spaces skip s
  | 0, c :: s =>
    match spaceWidth spaces (c :: s) with
    | 0 => c :: s
    | width + 1 => dropSpaces spaces width s

/-- `str::trim`. The encodings are read backwards for the end of the text. -/
def trim (s : Bytes) : Bytes :=
  (dropSpaces (whiteSpace.map List.reverse) 0 (dropSpaces whiteSpace 0 s).reverse).reverse

/-- A visible character of ASCII. -/
def isAsciiGraphic (b : UInt8) : Bool := 33 ≤ b && b ≤ 126

/-- No space starts with a visible character. -/
theorem spaceWidth_of_graphic {spaces : List Bytes} {c : UInt8}
    (hspaces : ∀ w ∈ spaces, w.head?.any isAsciiGraphic = false ∧ w ≠ [])
    (hc : isAsciiGraphic c = true) (s : Bytes) : spaceWidth spaces (c :: s) = 0 := by
  have hfind : spaces.find? (fun w => w.isPrefixOf (c :: s)) = none := by
    refine List.find?_eq_none.mpr fun w hw hprefix => ?_
    obtain ⟨hhead, hne⟩ := hspaces w hw
    obtain ⟨d, w, rfl⟩ := List.exists_cons_of_ne_nil hne
    obtain ⟨rfl, -⟩ := List.cons_prefix_cons.mp (List.isPrefixOf_iff_prefix.mp hprefix)
    simp [hc] at hhead
  rw [spaceWidth, hfind]
  rfl

theorem whiteSpace_heads : ∀ w ∈ whiteSpace, w.head?.any isAsciiGraphic = false ∧ w ≠ [] := by
  decide

theorem dropSpaces_of_graphic {spaces : List Bytes} {s : Bytes}
    (hspaces : ∀ w ∈ spaces, w.head?.any isAsciiGraphic = false ∧ w ≠ [])
    (hs : ∀ b ∈ s, isAsciiGraphic b = true) : dropSpaces spaces 0 s = s := by
  cases s with
  | nil => rfl
  | cons c s =>
    have hwidth := spaceWidth_of_graphic hspaces (hs c List.mem_cons_self) s
    rw [dropSpaces, hwidth]

/-- There is nothing to trim from visible characters. -/
theorem trim_of_graphic {s : Bytes} (h : ∀ b ∈ s, isAsciiGraphic b = true) : trim s = s := by
  have hstart : dropSpaces whiteSpace 0 s = s := dropSpaces_of_graphic whiteSpace_heads h
  have hend : dropSpaces (whiteSpace.map List.reverse) 0 s.reverse = s.reverse :=
    dropSpaces_of_graphic (by decide) (by simpa using h)
  rw [trim, hstart, hend, List.reverse_reverse]

/-- A piece under way, which `split_whitespace` yields unless it is empty. -/
def piece (acc : Bytes) : List Bytes := if acc = [] then [] else [acc]

/-- The pieces of the text between white space, after `skip` bytes of a space and the
piece `acc` read so far. -/
def splitSpaces : Nat → Bytes → Bytes → List Bytes
  | _, acc, [] => piece acc
  | skip + 1, acc, _ :: s => splitSpaces skip acc s
  | 0, acc, c :: s =>
    match spaceWidth whiteSpace (c :: s) with
    | 0 => splitSpaces 0 (acc ++ [c]) s
    | width + 1 => piece acc ++ splitSpaces width [] s

/-- `str::split_whitespace`. -/
def splitWhitespace (s : Bytes) : List Bytes := splitSpaces 0 [] s

theorem splitSpaces_graphic {s : Bytes} (hs : ∀ b ∈ s, isAsciiGraphic b = true)
    (acc rest : Bytes) : splitSpaces 0 acc (s ++ rest) = splitSpaces 0 (acc ++ s) rest := by
  induction s generalizing acc with
  | nil => simp
  | cons c s ih =>
    obtain ⟨hc, hs⟩ := List.forall_mem_cons.mp hs
    have hwidth := spaceWidth_of_graphic whiteSpace_heads hc (s ++ rest)
    rw [List.cons_append, splitSpaces, hwidth, ih hs]
    simp

theorem splitSpaces_space (acc s : Bytes) :
    splitSpaces 0 acc (space :: s) = piece acc ++ splitSpaces 0 [] s := by
  have hwidth : spaceWidth whiteSpace (space :: s) = 1 := rfl
  rw [splitSpaces, hwidth]

/-- Words with a space in front of each but the first, and nothing to see behind them. -/
theorem splitSpaces_words {first tail : Bytes} {words : List Bytes}
    (hfirst : first ≠ [] ∧ ∀ b ∈ first, isAsciiGraphic b = true)
    (hwords : ∀ w ∈ words, w ≠ [] ∧ ∀ b ∈ w, isAsciiGraphic b = true)
    (htail : ∀ acc, splitSpaces 0 acc tail = piece acc) :
    splitWhitespace (first ++ words.flatMap (space :: ·) ++ tail) = first :: words := by
  unfold splitWhitespace
  induction words generalizing first with
  | nil =>
    rw [List.flatMap_nil, List.append_nil, splitSpaces_graphic hfirst.2, htail, List.nil_append,
      piece, if_neg hfirst.1]
  | cons w words ih =>
    obtain ⟨hw, hrest⟩ := List.forall_mem_cons.mp hwords
    rw [List.flatMap_cons, List.append_assoc, splitSpaces_graphic hfirst.2, List.nil_append,
      List.cons_append, List.cons_append, splitSpaces_space, ih hw hrest, piece, if_neg hfirst.1]
    rfl

theorem splitWhitespace_words {first : Bytes} {words : List Bytes}
    (hfirst : first ≠ [] ∧ ∀ b ∈ first, isAsciiGraphic b = true)
    (hwords : ∀ w ∈ words, w ≠ [] ∧ ∀ b ∈ w, isAsciiGraphic b = true) :
    splitWhitespace (first ++ words.flatMap (space :: ·)) = first :: words := by
  have hsplit := @splitSpaces_words first [] words hfirst hwords fun _ => rfl
  rwa [List.append_nil] at hsplit

/-- A line ending of CR LF leaves its CR on the line. -/
theorem splitWhitespace_words_cr {first : Bytes} {words : List Bytes}
    (hfirst : first ≠ [] ∧ ∀ b ∈ first, isAsciiGraphic b = true)
    (hwords : ∀ w ∈ words, w ≠ [] ∧ ∀ b ∈ w, isAsciiGraphic b = true) :
    splitWhitespace (first ++ words.flatMap (space :: ·) ++ [cr]) = first :: words :=
  splitSpaces_words hfirst hwords fun acc => List.append_nil (piece acc)

/-- First item of `str::lines`: up to the first LF, without a CR before it. -/
def firstLine (s : Bytes) : Option Bytes :=
  if s = [] then none
  else match splitOnce lf s with
    | none => some s
    | some (line, _) => some (if line.getLast? = some cr then line.dropLast else line)

/-- `str::trim_end_matches` of an ASCII character. -/
def trimEndMatches (c : UInt8) (s : Bytes) : Bytes := s.rdropWhile (· == c)

theorem trimEndMatches_of_not_suffix {c : UInt8} {s : Bytes} (h : ¬ [c] <:+ s) :
    trimEndMatches c s = s := by
  unfold trimEndMatches
  rw [List.rdropWhile_eq_self_iff]
  intro hl hc
  refine h ⟨s.dropLast, ?_⟩
  obtain rfl := eq_of_beq hc
  exact List.dropLast_append_getLast hl

theorem trimEndMatches_append_replicate (c : UInt8) (s : Bytes) (n : Nat) :
    trimEndMatches c (s ++ List.replicate n c) = trimEndMatches c s := by
  induction n with
  | zero => simp
  | succ n ih =>
    rw [List.replicate_succ', ← List.append_assoc, trimEndMatches,
      List.rdropWhile_concat_pos (· == c) _ c (by simp)]
    exact ih

/-! ## Case -/

/-- `u8::to_ascii_lowercase`. -/
def lower (b : UInt8) : UInt8 := if 65 ≤ b ∧ b ≤ 90 then b + 32 else b

/-- `str::to_ascii_lowercase`. -/
def toAsciiLowercase (s : Bytes) : Bytes := s.map lower

/-- `str::eq_ignore_ascii_case`. -/
def eqIgnoreAsciiCase (s t : Bytes) : Bool := toAsciiLowercase s == toAsciiLowercase t

theorem eqIgnoreAsciiCase_iff {s t : Bytes} :
    eqIgnoreAsciiCase s t = true ↔ toAsciiLowercase s = toAsciiLowercase t := by
  simp [eqIgnoreAsciiCase]

theorem eqIgnoreAsciiCase_eq_false_iff {s t : Bytes} :
    eqIgnoreAsciiCase s t = false ↔ toAsciiLowercase s ≠ toAsciiLowercase t := by
  simp [eqIgnoreAsciiCase]

theorem lower_lower (b : UInt8) : lower (lower b) = lower b := by
  unfold lower
  split_ifs with h h'
  · exfalso
    have h1 := UInt8.le_iff_toNat_le.mp h.1
    have h2 := UInt8.le_iff_toNat_le.mp h.2
    have h3 := UInt8.le_iff_toNat_le.mp h'.2
    simp only [UInt8.toNat_add, UInt8.reduceToNat] at h1 h2 h3
    omega
  · rfl
  · rfl

theorem lower_eq_dot : ∀ b, lower b = dot → b = dot := forall_byte (by decide +kernel)

theorem lower_eq_ff {b : UInt8} : lower b = 0xff ↔ b = 0xff := by
  have h : ∀ b : UInt8, lower b = 0xff ↔ b = 0xff := forall_byte (by decide +kernel)
  exact h b

@[simp] theorem toAsciiLowercase_idem (s : Bytes) :
    toAsciiLowercase (toAsciiLowercase s) = toAsciiLowercase s := by
  simp [toAsciiLowercase, Function.comp_def, lower_lower]

@[simp] theorem length_toAsciiLowercase (s : Bytes) :
    (toAsciiLowercase s).length = s.length := by
  simp [toAsciiLowercase]

/-! ## Classes -/

def isAsciiDigit (b : UInt8) : Bool := 48 ≤ b && b ≤ 57
def isAsciiAlphabetic (b : UInt8) : Bool := (65 ≤ b && b ≤ 90) || (97 ≤ b && b ≤ 122)
def isAsciiAlphanumeric (b : UInt8) : Bool := isAsciiAlphabetic b || isAsciiDigit b

theorem isAsciiDigit_of_alphabetic :
    ∀ b, isAsciiAlphabetic b = true → isAsciiDigit b = false :=
  forall_byte (by decide +kernel)

/-- Controls of ASCII: `%x00-1F` and `%x7F`. -/
def isControl (b : UInt8) : Bool := b < 32 || b == 127

/-! ## Numbers -/

/-- Decimal digits of a number, as `Display` writes them. -/
def decimal (n : Nat) : Bytes := (Nat.toDigits 10 n).map fun c => c.toNat.toUInt8

/-- `{:02x}` of a byte. -/
def hexByte (b : UInt8) : Bytes :=
  [b.toNat / 16, b.toNat % 16].map fun n => (Nat.digitChar n).toNat.toUInt8

/-- Value of a string of decimal digits. -/
def digitsValue (s : Bytes) : Nat := s.foldl (fun n b => 10 * n + (b.toNat - 48)) 0

/-- `u16::from_str`: an optional plus sign, then at least one digit, without overflow. -/
def parseU16 (s : Bytes) : Option UInt16 :=
  let digits := (stripPrefix 43 s).getD s
  if digits = [] ∨ ¬ digits.all isAsciiDigit ∨ 65535 < digitsValue digits then none
  else some (digitsValue digits).toUInt16

theorem decimal_digits (n : Nat) : ∀ b ∈ decimal n, isAsciiDigit b = true := by
  intro b hb
  obtain ⟨c, hc, rfl⟩ := List.mem_map.mp hb
  have hdigit := Nat.isDigit_of_mem_toDigits (by decide) (le_refl 10) hc
  simp only [Char.isDigit, Bool.and_eq_true, decide_eq_true_eq, ge_iff_le,
    UInt32.le_iff_toNat_le] at hdigit
  change 48 ≤ c.toNat ∧ c.toNat ≤ 57 at hdigit
  simp only [isAsciiDigit, Bool.and_eq_true, decide_eq_true_eq, UInt8.le_iff_toNat_le,
    Nat.toUInt8, UInt8.toNat_ofNat']
  change 48 ≤ c.toNat % 256 ∧ c.toNat % 256 ≤ 57
  omega

theorem decimal_ne_nil (n : Nat) : decimal n ≠ [] := by simp [decimal]

/-- The digits of a number read back as the number. -/
theorem digitsValue_decimal (n : Nat) : digitsValue (decimal n) = n := by
  have hdigit : ∀ d < 10, ((Nat.digitChar d).toNat.toUInt8).toNat - 48 = d := by decide
  induction n using Nat.strongRecOn with
  | ind n ih =>
    by_cases hn : n < 10
    · have hone : decimal n = [(Nat.digitChar n).toNat.toUInt8] := by
        simp [decimal, Nat.toDigits_of_lt_base hn]
      simp only [digitsValue, hone, List.foldl_cons, List.foldl_nil, hdigit n hn]
      omega
    · have hlast : decimal n = decimal (n / 10) ++ [(Nat.digitChar (n % 10)).toNat.toUInt8] := by
        simp [decimal, Nat.toDigits_of_base_le (by omega : 1 < 10) (by omega : 10 ≤ n)]
      have hinit := ih (n / 10) (by omega)
      simp only [digitsValue] at hinit ⊢
      rw [hlast, List.foldl_append, hinit, List.foldl_cons, List.foldl_nil,
        hdigit (n % 10) (by omega)]
      omega

/-- A text that reads as a number is its digits, or a plus sign and its digits. -/
theorem parseU16_digits {s : Bytes} {n : UInt16} (h : parseU16 s = some n) :
    ∃ digits, (s = digits ∨ s = 43 :: digits) ∧ ∀ b ∈ digits, isAsciiDigit b = true := by
  simp only [parseU16, List.all_eq_true, not_forall, Bool.not_eq_true, exists_prop] at h
  split at h
  · simp at h
  · next hd =>
    push Not at hd
    refine ⟨(stripPrefix 43 s).getD s, ?_, fun b hb => by simpa using hd.2.1 b hb⟩
    cases hs : stripPrefix 43 s with
    | none => simp
    | some t => simp [stripPrefix_eq_some_iff.mp hs]

/-- `u16::to_be_bytes`. -/
def toBeBytes (n : UInt16) : Bytes := [(n >>> 8).toUInt8, n.toUInt8]

/-- `u16::from_be_bytes`, as the `usize` it is cast to. -/
def fromBeBytes (hi lo : UInt8) : Nat := hi.toNat * 256 + lo.toNat

end Text
