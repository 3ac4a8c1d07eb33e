import NyaSniProxy.Library.Text

/-!
# Base64 with the standard alphabet and padding

`Base64.encode` reads three bytes at a time as four indices of six bits. A last group of one or
two bytes is padded. The two facts used elsewhere are that the encoding is injective and that
it consists of visible ASCII characters.
-/

namespace Base64

open Text

/-- Character of a six-bit index. -/
def symbol (n : Nat) : UInt8 :=
  if n < 26 then (65 + n).toUInt8
  else if n < 52 then (97 + (n - 26)).toUInt8
  else if n < 62 then (48 + (n - 52)).toUInt8
  else if n = 62 then 43
  else 47

def padding : UInt8 := 61

/-- The index made of the last `2 * k` bits of a byte and the first bits of the next one. -/
def sextet (a b : UInt8) : Nat → Nat
  | 0 => b.toNat / 4
  | 1 => a.toNat % 4 * 16 + b.toNat / 16
  | 2 => a.toNat % 16 * 4 + b.toNat / 64
  | _ => b.toNat % 64

def encode : Bytes → Bytes
  | [] => []
  | [a] => [symbol (sextet 0 a 0), symbol (sextet a 0 1), padding, padding]
  | [a, b] =>
    [symbol (sextet 0 a 0), symbol (sextet a b 1), symbol (sextet b 0 2), padding]
  | a :: b :: c :: rest =>
    symbol (sextet 0 a 0) :: symbol (sextet a b 1) :: symbol (sextet b c 2) ::
      symbol (sextet c c 3) :: encode rest

theorem sextet_lt (a b : UInt8) (k : Nat) : sextet a b k < 64 := by
  have ha := a.toNat_lt
  have hb := b.toNat_lt
  unfold sextet
  split <;> omega

theorem symbol_injective :
    ∀ m < 64, ∀ n < 64, symbol m = symbol n → m = n := by decide +kernel

theorem symbol_visible : ∀ n < 64, 33 ≤ symbol n ∧ symbol n ≤ 126 ∧ symbol n ≠ padding := by
  decide

theorem sextet_inj {a b a' b' : UInt8} {k : Nat}
    (h : symbol (sextet a b k) = symbol (sextet a' b' k)) : sextet a b k = sextet a' b' k :=
  symbol_injective _ (sextet_lt a b k) _ (sextet_lt a' b' k) h

theorem symbol_ne_padding (a b : UInt8) (k : Nat) : symbol (sextet a b k) ≠ padding :=
  (symbol_visible _ (sextet_lt a b k)).2.2

/-- Neighbouring indices determine the byte they share. -/
theorem first_eq {a b x y : UInt8} (h0 : a.toNat / 4 = x.toNat / 4)
    (h1 : a.toNat % 4 * 16 + b.toNat / 16 = x.toNat % 4 * 16 + y.toNat / 16) :
    a = x ∧ b.toNat / 16 = y.toNat / 16 := by
  have hb := b.toNat_lt
  have hy := y.toNat_lt
  exact ⟨UInt8.toNat_inj.mp (by omega), by omega⟩

theorem second_eq {b c y z : UInt8} (h1 : b.toNat / 16 = y.toNat / 16)
    (h2 : b.toNat % 16 * 4 + c.toNat / 64 = y.toNat % 16 * 4 + z.toNat / 64) :
    b = y ∧ c.toNat / 64 = z.toNat / 64 := by
  have hc := c.toNat_lt
  have hz := z.toNat_lt
  exact ⟨UInt8.toNat_inj.mp (by omega), by omega⟩

theorem encode_injective : Function.Injective encode := by
  intro s t h
  induction s using encode.induct generalizing t with
  | case1 =>
    rcases t with _ | ⟨a, _ | ⟨b, _ | ⟨c, t⟩⟩⟩ <;> simp [encode] at h ⊢
  | case2 a =>
    rcases t with _ | ⟨x, _ | ⟨y, _ | ⟨z, t⟩⟩⟩
    · simp [encode] at h
    · simp only [encode, List.cons.injEq, and_true] at h
      have h0 := sextet_inj h.1
      have h1 := sextet_inj h.2
      rw [(first_eq (b := 0) (y := 0) h0 h1).1]
    · simp only [encode, List.cons.injEq] at h
      exact absurd h.2.2.1.symm (symbol_ne_padding _ _ _)
    · simp only [encode, List.cons.injEq] at h
      exact absurd h.2.2.1.symm (symbol_ne_padding _ _ _)
  | case3 a b =>
    rcases t with _ | ⟨x, _ | ⟨y, _ | ⟨z, t⟩⟩⟩
    · simp [encode] at h
    · simp only [encode, List.cons.injEq] at h
      exact absurd h.2.2.1 (symbol_ne_padding _ _ _)
    · simp only [encode, List.cons.injEq, and_true] at h
      have h0 := sextet_inj h.1
      have h1 := sextet_inj h.2.1
      have h2 := sextet_inj h.2.2
      obtain ⟨ha, h1⟩ := first_eq h0 h1
      obtain ⟨hb, -⟩ := second_eq (c := 0) (z := 0) h1 h2
      rw [ha, hb]
    · simp only [encode, List.cons.injEq] at h
      exact absurd h.2.2.2.1.symm (symbol_ne_padding _ _ _)
  | case4 a b c s ih =>
    rcases t with _ | ⟨x, _ | ⟨y, _ | ⟨z, t⟩⟩⟩
    · simp [encode] at h
    · simp only [encode, List.cons.injEq] at h
      exact absurd h.2.2.1 (symbol_ne_padding _ _ _)
    · simp only [encode, List.cons.injEq] at h
      exact absurd h.2.2.2.1 (symbol_ne_padding _ _ _)
    · simp only [encode, List.cons.injEq] at h
      have h0 := sextet_inj h.1
      have h1 := sextet_inj h.2.1
      have h2 := sextet_inj h.2.2.1
      have h3 := sextet_inj h.2.2.2.1
      obtain ⟨ha, h1⟩ := first_eq h0 h1
      obtain ⟨hb, h2⟩ := second_eq h1 h2
      have hc : c = z := UInt8.toNat_inj.mp (by simp only [sextet] at h3; omega)
      rw [ha, hb, hc, ih h.2.2.2.2]

/-- Every byte of an encoding is a visible ASCII character. -/
theorem encode_visible (s : Bytes) : ∀ b ∈ encode s, 33 ≤ b ∧ b ≤ 126 := by
  have hs (a b : UInt8) (k : Nat) :
      33 ≤ symbol (sextet a b k) ∧ symbol (sextet a b k) ≤ 126 :=
    ⟨(symbol_visible _ (sextet_lt a b k)).1, (symbol_visible _ (sextet_lt a b k)).2.1⟩
  have hp : 33 ≤ padding ∧ padding ≤ 126 := by decide
  induction s using encode.induct with
  | case1 => simp [encode]
  | case2 a => simp [encode, hs, hp]
  | case3 a b => simp [encode, hs, hp]
  | case4 a b c s ih => simpa [encode, hs] using ih

example : encode (ascii "user:pass") = ascii "dXNlcjpwYXNz" := by decide

end Base64
