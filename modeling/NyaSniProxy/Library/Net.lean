import NyaSniProxy.Library.Text
import Mathlib.Tactic.Common

/-!
# Internet addresses and their text forms

`IpAddr` with the `Display` and `FromStr` of Rust's standard library, and the two ways a host
text given to a socket is resolved: an address literal stands for itself, any other text is a
name for the DNS.
-/

namespace Net

open Text

inductive IpAddr where
  | v4 (a b c d : UInt8)
  | v6 (segments : Vector UInt16 8)
  deriving DecidableEq

/-- `127.0.0.0/8` and `::1`. -/
def IpAddr.isLoopback : IpAddr → Bool
  | .v4 a _ _ _ => a == 127
  | .v6 segments => segments.toList == [0, 0, 0, 0, 0, 0, 0, 1]

/-! ## Display -/

def displayV4 (a b c d : UInt8) : Bytes :=
  decimal a.toNat ++ 46 :: decimal b.toNat ++ 46 :: decimal c.toNat ++ 46 :: decimal d.toNat

/-- `{:x}` of a segment. -/
def hex (n : UInt16) : Bytes := (Nat.toDigits 16 n.toNat).map fun c => c.toNat.toUInt8

/-- Segments in hexadecimal with colons between them. -/
def displaySegments (segments : List UInt16) : Bytes := [58].intercalate (segments.map hex)

/-- A run of zero segments. -/
structure Span where
  start : Nat
  len : Nat

/-- The longest run of zero segments, the first one of that length. -/
def zeroes (segments : List UInt16) : Span :=
  let step := fun (acc : Span × Span) (p : UInt16 × Nat) =>
    if p.1 = 0 then
      let current : Span :=
        { start := if acc.2.len = 0 then p.2 else acc.2.start, len := acc.2.len + 1 }
      (if current.len > acc.1.len then current else acc.1, current)
    else (acc.1, ⟨0, 0⟩)
  (segments.zipIdx.foldl step (⟨0, 0⟩, ⟨0, 0⟩)).1

def displayV6 (segments : List UInt16) : Bytes :=
  match segments with
  | [0, 0, 0, 0, 0, 0xffff, ab, cd] =>
    ascii "::ffff:" ++ displayV4 (ab >>> 8).toUInt8 ab.toUInt8 (cd >>> 8).toUInt8 cd.toUInt8
  | _ =>
    let run := zeroes segments
    if run.len > 1 then
      displaySegments (segments.take run.start) ++ ascii "::" ++
        displaySegments (segments.drop (run.start + run.len))
    else displaySegments segments

/-- `IpAddr::to_string`. -/
def IpAddr.display : IpAddr → Bytes
  | .v4 a b c d => displayV4 a b c d
  | .v6 segments => displayV6 segments.toList

example : (IpAddr.v4 127 0 0 2).display = ascii "127.0.0.2" := by decide
example : (IpAddr.v6 #v[0x2001, 0xdb8, 0, 0, 1, 0, 0, 1]).display = ascii "2001:db8::1:0:0:1" := by
  decide

/-! ## Parsing -/

/-- Value of a digit in the radix. -/
def digitValue (radix : Nat) (b : UInt8) : Option Nat :=
  let n :=
    if isAsciiDigit b then b.toNat - 48
    else if 97 ≤ lower b && lower b ≤ 102 then (lower b).toNat - 87
    else radix
  if n < radix then some n else none

/-- `Parser::read_number`: at most `maxDigits` digits with a value below `bound`. -/
def readNumber (radix maxDigits bound : Nat) (allowZeroPrefix : Bool) (s : Bytes) :
    Option (Nat × Bytes) :=
  let digits := s.takeWhile fun b => (digitValue radix b).isSome
  let value := digits.foldl (fun n b => n * radix + (digitValue radix b).getD 0) 0
  if digits = [] ∨ maxDigits < digits.length ∨ bound ≤ value then none
  else if !allowZeroPrefix && digits.head? == some 48 && digits.length > 1 then none
  else some (value, s.drop digits.length)

/-- `Parser::read_separator`: the separator stands before every item but the first. -/
def readSeparator {α : Type} (sep : UInt8) (index : Nat) (inner : Bytes → Option (α × Bytes))
    (s : Bytes) : Option (α × Bytes) :=
  if index = 0 then inner s else (stripPrefix sep s).bind inner

/-- `Parser::read_ipv4_addr`. -/
def readV4 (s : Bytes) : Option ((UInt8 × UInt8 × UInt8 × UInt8) × Bytes) := do
  let octet := readNumber 10 3 256 false
  let (a, s) ← readSeparator 46 0 octet s
  let (b, s) ← readSeparator 46 1 octet s
  let (c, s) ← readSeparator 46 2 octet s
  let (d, s) ← readSeparator 46 3 octet s
  return ((a.toUInt8, b.toUInt8, c.toUInt8, d.toUInt8), s)

/-- `read_groups`: from group `i` on, `remaining` more groups; the second component says that the
last two came from an embedded IPv4 address. -/
def readGroups : (remaining i : Nat) → Bytes → (List UInt16 × Bool) × Bytes
  | 0, _, s => (([], false), s)
  | remaining + 1, i, s =>
    let embedded := if remaining = 0 then none else readSeparator 58 i readV4 s
    match embedded with
    | some ((a, b, c, d), s) =>
      (([(fromBeBytes a b).toUInt16, (fromBeBytes c d).toUInt16], true), s)
    | none =>
      match readSeparator 58 i (readNumber 16 4 65536 true) s with
      | none => (([], false), s)
      | some (group, s) =>
        let ((groups, v4), s) := readGroups remaining (i + 1) s
        ((group.toUInt16 :: groups, v4), s)

/-- Eight segments from their list, zeros where it is shorter. -/
def toSegments (groups : List UInt16) : Vector UInt16 8 := Vector.ofFn fun i => groups.getD i 0

/-- `Parser::read_ipv6_addr`. -/
def readV6 (s : Bytes) : Option (Vector UInt16 8 × Bytes) :=
  let ((head, headV4), s) := readGroups 8 0 s
  if head.length = 8 then some (toSegments head, s)
  else if headV4 then none
  else do
    let s ← stripPrefix 58 s
    let s ← stripPrefix 58 s
    let ((tail, _), s) := readGroups (8 - (head.length + 1)) 0 s
    let gap := List.replicate (8 - head.length - tail.length) 0
    return (toSegments (head ++ gap ++ tail), s)

/-- `IpAddr::from_str`: the whole text is one address. -/
def IpAddr.parse (s : Bytes) : Option IpAddr :=
  match readV4 s with
  | some ((a, b, c, d), []) => some (.v4 a b c d)
  | _ =>
    match readV6 s with
    | some (segments, []) => some (.v6 segments)
    | _ => none

example : IpAddr.parse (ascii "2001:db8::1:0:0:1") =
    some (.v6 #v[0x2001, 0xdb8, 0, 0, 1, 0, 0, 1]) := by decide
example : IpAddr.parse (ascii "::ffff:1.2.3.4") =
    some (.v6 #v[0, 0, 0, 0, 0, 0xffff, 0x102, 0x304]) := by decide

/-- What a socket connects to for a `(host, port)` pair. -/
inductive Dial where
  | ip (addr : IpAddr) (port : UInt16)
  | dns (name : Bytes) (port : UInt16)
  deriving DecidableEq

/-- An address literal is taken as it is, any other host is looked up. -/
def dial (host : Bytes) (port : UInt16) : Dial :=
  match IpAddr.parse host with
  | some addr => .ip addr port
  | none => .dns host port

/-! ## Which texts are literals -/

theorem readNumber_eq_none {radix maxDigits bound : Nat} {zero : Bool} {s : Bytes}
    (h : ∀ b, s.head? = some b → digitValue radix b = none) :
    readNumber radix maxDigits bound zero s = none := by
  have hd : s.takeWhile (fun b => (digitValue radix b).isSome) = [] := by
    cases s with
    | nil => rfl
    | cons b s => simp [h b rfl]
  simp [readNumber, hd]

/-- A text that starts with a bracket is no address literal. -/
theorem parse_bracket (s : Bytes) : IpAddr.parse (91 :: s) = none := by
  have hnum (radix maxDigits bound : Nat) (zero : Bool) (hr : digitValue radix 91 = none) :
      readNumber radix maxDigits bound zero (91 :: s) = none :=
    readNumber_eq_none (by simpa using hr)
  have h4 : readV4 (91 :: s) = none := by
    simp [readV4, readSeparator, hnum 10 3 256 false (by decide)]
  have hg : readGroups 8 0 (91 :: s) = (([], false), 91 :: s) := by
    simp [readGroups, readSeparator, h4, hnum 16 4 65536 true (by decide)]
  have h6 : readV6 (91 :: s) = none := by
    simp [readV6, hg, stripPrefix]
  simp [IpAddr.parse, h4, h6]

theorem readSeparator_colon_eq_none {α : Type} {inner : Bytes → Option (α × Bytes)} {i : Nat}
    {s : Bytes} (hi : i ≠ 0) (hs : 58 ∉ s) : readSeparator 58 i inner s = none := by
  have : stripPrefix 58 s = none := by
    cases s with
    | nil => rfl
    | cons b s => simp_all [stripPrefix, Ne.symm]
  simp [readSeparator, hi, this]

/-- What `read_number` consumed: a non-empty run of digits. -/
theorem readNumber_split {radix maxDigits bound n : Nat} {zero : Bool} {s t : Bytes}
    (h : readNumber radix maxDigits bound zero s = some (n, t)) :
    ∃ ds, s = ds ++ t ∧ ds ≠ [] ∧ ∀ b ∈ ds, (digitValue radix b).isSome := by
  simp only [readNumber] at h
  split at h
  · simp at h
  · next hd =>
    split at h
    · simp at h
    · obtain ⟨-, rfl⟩ := by simpa using h
      exact ⟨s.takeWhile fun b => (digitValue radix b).isSome,
        List.prefix_append_drop (List.takeWhile_prefix _), fun e => hd (.inl e),
        fun b hb => List.mem_takeWhile_imp (p := fun b => (digitValue radix b).isSome) hb⟩

theorem readV6_eq_none {s : Bytes} (hs : 58 ∉ s) : readV6 s = none := by
  have hstrip {t : Bytes} (ht : 58 ∉ t) : stripPrefix 58 t = none := by
    cases t with
    | nil => rfl
    | cons b t => simp_all [stripPrefix, Ne.symm]
  cases h4 : readV4 s with
  | some r =>
    obtain ⟨⟨a, b, c, d⟩, t⟩ := r
    simp [readV6, readGroups, readSeparator, h4]
  | none =>
    cases hn : readNumber 16 4 65536 true s with
    | none => simp [readV6, readGroups, readSeparator, h4, hn, hstrip hs]
    | some r =>
      obtain ⟨n, t⟩ := r
      obtain ⟨ds, rfl, -⟩ := readNumber_split hn
      have ht : 58 ∉ t := fun h => hs (by simp [h])
      have hnext : readGroups 7 1 t = (([], false), t) := by
        simp [readGroups, readSeparator_colon_eq_none one_ne_zero ht]
      have hgroups : readGroups 8 0 (ds ++ t) = (([n.toUInt16], false), t) := by
        rw [readGroups]
        simp [readSeparator, h4, hn, hnext]
      simp [readV6, hgroups, hstrip ht]

/-- A dotted quad ends with a run of digits, which a dot precedes. -/
theorem readV4_split {s : Bytes} {q : UInt8 × UInt8 × UInt8 × UInt8}
    (h : readV4 s = some (q, [])) :
    ∃ front ds, s = front ++ 46 :: ds ∧ ds ≠ [] ∧ ∀ b ∈ ds, (digitValue 10 b).isSome := by
  simp only [readV4, readSeparator, one_ne_zero, OfNat.ofNat_ne_zero, if_true, if_false,
    Option.bind_eq_bind, Option.bind_eq_some_iff, stripPrefix_eq_some_iff, Option.pure_def,
    Option.some.injEq, Prod.mk.injEq, Prod.exists] at h
  obtain ⟨a, s₁, ha, b, s₂, ⟨t₁, rfl, hb⟩, c, s₃, ⟨t₂, rfl, hc⟩, d, s₄, ⟨t₃, rfl, hd⟩, -, rfl⟩ := h
  obtain ⟨da, rfl, -⟩ := readNumber_split ha
  obtain ⟨db, rfl, -⟩ := readNumber_split hb
  obtain ⟨dc, rfl, -⟩ := readNumber_split hc
  obtain ⟨dd, rfl, hne, hdd⟩ := readNumber_split hd
  exact ⟨da ++ 46 :: (db ++ 46 :: dc), dd, by simp, hne, hdd⟩

theorem digitValue_ten : ∀ b, (digitValue 10 b).isSome = isAsciiDigit b :=
  forall_byte (by decide +kernel)

/-- A text without colons whose last label starts with a letter is no address literal. -/
theorem parse_name {front tail : Bytes} {b : UInt8} (hcolon : 58 ∉ front ++ b :: tail)
    (hdot : 46 ∉ tail) (hfront : front = [] ∨ ∃ f, front = f ++ [46])
    (hb : isAsciiAlphabetic b = true) : IpAddr.parse (front ++ b :: tail) = none := by
  have hb46 : b ≠ 46 := by rintro rfl; simp [isAsciiAlphabetic] at hb
  unfold IpAddr.parse
  rw [readV6_eq_none hcolon]
  split
  · next a b' c d h =>
    obtain ⟨front', ds, hs, hne, hds⟩ := readV4_split h
    have hdot' : 46 ∉ ds := fun h46 => by
      have := digitValue_ten 46 ▸ hds 46 h46
      simp [isAsciiDigit] at this
    rcases hfront with rfl | ⟨f, rfl⟩
    · have : (46 : UInt8) ∈ b :: tail := by
        rw [← List.nil_append (b :: tail), hs]
        simp
      rcases List.mem_cons.mp this with h46 | h46
      · exact absurd h46.symm hb46
      · exact absurd h46 hdot
    · -- both are splits at the last dot, so the digits are the last label
      have h1 := rsplitOnce_eq_some_iff.mpr ⟨hs, hdot'⟩
      have h2 : rsplitOnce 46 (f ++ [46] ++ b :: tail) = some (f, b :: tail) :=
        rsplitOnce_eq_some_iff.mpr ⟨by simp, by simp [hdot, hb46.symm]⟩
      obtain ⟨-, rfl⟩ := by simpa using h1.symm.trans h2
      have := digitValue_ten b ▸ hds b (by simp)
      simp [isAsciiDigit_of_alphabetic b hb] at this
  · rfl

/-! ## Literals read back -/

theorem decimal_octet : ∀ n < 256, decimal n ≠ [] ∧ (decimal n).length ≤ 3 ∧
    (decimal n).all isAsciiDigit ∧ ((decimal n).head? = some 48 → (decimal n).length = 1) ∧
    (decimal n).foldl (fun n b => n * 10 + (digitValue 10 b).getD 0) 0 = n := by
  decide +kernel

theorem readNumber_decimal {n : Nat} (hn : n < 256) {t : Bytes}
    (ht : ∀ b, t.head? = some b → isAsciiDigit b = false) :
    readNumber 10 3 256 false (decimal n ++ t) = some (n, t) := by
  obtain ⟨hne, hlen, hall, hzero, hvalue⟩ := decimal_octet n hn
  have hdigits : (decimal n ++ t).takeWhile (fun b => (digitValue 10 b).isSome) = decimal n := by
    rw [List.takeWhile_append_of_pos (by simpa [digitValue_ten] using hall)]
    cases t with
    | nil => simp
    | cons b t => simp [digitValue_ten, ht b rfl]
  simp only [readNumber, hdigits, hvalue, List.drop_left]
  rw [if_neg (by simp [hne]; omega), if_neg]
  rintro h
  simp at h
  have := hzero h.1
  omega

theorem parse_displayV4 (a b c d : UInt8) :
    IpAddr.parse (displayV4 a b c d) = some (.v4 a b c d) := by
  have hdot (n : UInt8) (t : Bytes) :
      readNumber 10 3 256 false (decimal n.toNat ++ 46 :: t) = some (n.toNat, 46 :: t) :=
    readNumber_decimal n.toNat_lt (by simp [isAsciiDigit])
  have hend : readNumber 10 3 256 false (decimal d.toNat) = some (d.toNat, []) := by
    simpa using readNumber_decimal d.toNat_lt (t := []) (by simp)
  have h4 : readV4 (displayV4 a b c d) = some ((a, b, c, d), []) := by
    simp [readV4, readSeparator, displayV4, hdot, hend, stripPrefix]
  simp [IpAddr.parse, h4]

/-! ## The bytes of an address -/

theorem digitChar_byte : ∀ n < 16,
    isAsciiAlphanumeric (Nat.digitChar n).toNat.toUInt8 = true := by
  decide

theorem toDigits_byte (n : Nat) :
    ∀ c ∈ Nat.toDigits 16 n, isAsciiAlphanumeric c.toNat.toUInt8 = true := by
  induction n using Nat.strong_induction_on with
  | _ n ih =>
    intro c hc
    rw [Nat.toDigits_eq_if (by decide)] at hc
    split at hc
    · next hn =>
      obtain rfl := List.mem_singleton.mp hc
      exact digitChar_byte n hn
    · rcases List.mem_append.mp hc with hc | hc
      · exact ih (n / 16) (by omega) c hc
      · obtain rfl := List.mem_singleton.mp hc
        exact digitChar_byte _ (Nat.mod_lt _ (by decide))

/-- The bytes an address is written with. -/
def IsAddrByte (b : UInt8) : Prop := isAsciiAlphanumeric b = true ∨ b = 46 ∨ b = 58

theorem displayV4_byte (a b c d : UInt8) : ∀ x ∈ displayV4 a b c d, IsAddrByte x := by
  have hdigit (n : Nat) : ∀ x ∈ decimal n, IsAddrByte x := fun x hx => by
    have := decimal_digits n x hx
    exact .inl (by simp [isAsciiAlphanumeric, this])
  have hdot : IsAddrByte 46 := .inr (.inl rfl)
  simp only [displayV4, List.forall_mem_append, List.forall_mem_cons]
  grind

theorem displaySegments_byte (segments : List UInt16) :
    ∀ x ∈ displaySegments segments, IsAddrByte x := by
  intro x hx
  rcases mem_intercalate hx with rfl | ⟨text, htext, hx⟩
  · exact .inr (.inr rfl)
  · obtain ⟨n, -, rfl⟩ := List.mem_map.mp htext
    obtain ⟨c, hc, rfl⟩ := List.mem_map.mp hx
    exact .inl (toDigits_byte _ c hc)

theorem displayV6_byte (segments : List UInt16) : ∀ x ∈ displayV6 segments, IsAddrByte x := by
  have hcolons : ∀ x ∈ ascii "::", IsAddrByte x := by
    intro x hx
    obtain rfl : x = 58 := by simpa [ascii] using hx
    exact .inr (.inr rfl)
  have hmapped : ∀ x ∈ ascii "::ffff:", IsAddrByte x := by
    intro x hx
    obtain rfl | rfl | rfl : x = 58 ∨ x = 102 ∨ x = 58 := by simpa [ascii] using hx
    · exact .inr (.inr rfl)
    · exact .inl rfl
    · exact .inr (.inr rfl)
  unfold displayV6
  split
  · exact List.forall_mem_append.mpr ⟨hmapped, displayV4_byte _ _ _ _⟩
  · dsimp only
    split
    · exact List.forall_mem_append.mpr ⟨List.forall_mem_append.mpr
        ⟨displaySegments_byte _, hcolons⟩, displaySegments_byte _⟩
    · exact displaySegments_byte _

theorem IpAddr.display_byte (ip : IpAddr) : ∀ x ∈ ip.display, IsAddrByte x := by
  cases ip with
  | v4 a b c d => exact displayV4_byte a b c d
  | v6 segments => exact displayV6_byte segments.toList

theorem displaySegments_ne_nil {a b : UInt16} {segments : List UInt16} :
    displaySegments (a :: b :: segments) ≠ [] := by
  simp [displaySegments, List.intercalate]

theorem IpAddr.display_ne_nil (ip : IpAddr) : ip.display ≠ [] := by
  cases ip with
  | v4 a b c d => simp [display, displayV4]
  | v6 segments =>
    have hlen : segments.toList.length = 8 := segments.length_toList
    rw [display]
    generalize segments.toList = l at hlen
    unfold displayV6
    split
    · simp [ascii]
    · dsimp only
      split
      · simp [ascii]
      · obtain ⟨a, b, l, rfl⟩ : ∃ a b l', l = a :: b :: l' := by
          rcases l with _ | ⟨a, _ | ⟨b, l⟩⟩
          · simp at hlen
          · simp at hlen
          · exact ⟨a, b, l, rfl⟩
        exact displaySegments_ne_nil

end Net
