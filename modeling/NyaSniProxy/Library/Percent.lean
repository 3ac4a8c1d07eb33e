import NyaSniProxy.Library.Text

/-!
# Percent-encoding

The encoding that keeps the unreserved characters of a URL and writes every other byte as `%` and
two hexadecimal digits. It changes a text exactly if it makes it longer.
-/

namespace Percent

open Text

/-- Letters, digits, `-`, `.`, `_` and `~`. -/
def isUnreserved (b : UInt8) : Bool :=
  isAsciiAlphanumeric b || b == 45 || b == 46 || b == 95 || b == 126

def hexUpper (n : Nat) : UInt8 := if n < 10 then (48 + n).toUInt8 else (55 + n).toUInt8

def encodeByte (b : UInt8) : Bytes :=
  if isUnreserved b then [b] else [37, hexUpper (b.toNat / 16), hexUpper (b.toNat % 16)]

def encode (s : Bytes) : Bytes := s.flatMap encodeByte

theorem encode_of_unreserved {s : Bytes} (h : ∀ b ∈ s, isUnreserved b = true) : encode s = s := by
  induction s with
  | nil => rfl
  | cons b s ih =>
    obtain ⟨hb, hs⟩ := List.forall_mem_cons.mp h
    rw [encode, List.flatMap_cons, ← encode, ih hs]
    simp [encodeByte, hb]

theorem length_le_encode (s : Bytes) : s.length ≤ (encode s).length := by
  induction s with
  | nil => simp
  | cons b s ih =>
    rw [encode, List.flatMap_cons, ← encode, List.length_append, List.length_cons]
    have : 1 ≤ (encodeByte b).length := by
      unfold encodeByte
      split <;> simp
    omega

/-- A reserved byte makes the encoding longer. -/
theorem unreserved_of_length_encode {s : Bytes} (h : (encode s).length = s.length) :
    ∀ b ∈ s, isUnreserved b = true := by
  induction s with
  | nil => simp
  | cons b s ih =>
    rw [encode, List.flatMap_cons, ← encode, List.length_append, List.length_cons] at h
    have hs := length_le_encode s
    cases hb : isUnreserved b with
    | true =>
      have hlen : (encodeByte b).length = 1 := by simp [encodeByte, hb]
      exact List.forall_mem_cons.mpr ⟨hb, ih (by omega)⟩
    | false =>
      have hlen : (encodeByte b).length = 3 := by simp [encodeByte, hb]
      omega

theorem encode_ne_nil {s : Bytes} (h : s ≠ []) : encode s ≠ [] := by
  intro he
  have := length_le_encode s
  rw [he] at this
  exact h (List.length_eq_zero_iff.mp (by simpa using this))

example : encode (ascii "p@ss:word") = ascii "p%40ss%3Aword" := by decide

end Percent
