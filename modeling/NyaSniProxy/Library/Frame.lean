import NyaSniProxy.Library.Text

/-!
# Vectors with their length in front

A vector whose length fits into one byte, or into two bytes in network order, and its encoding. A
value of `Vec8` or `Vec16` fits by construction, so encodings need no side conditions. Each kind
has a law for reading an encoding back from the front of a text, and one that says that every text
with enough bytes behind a length starts with an encoding.
-/

namespace Frame

open Text

abbrev Vec8 := {v : Bytes // v.length < 256}
abbrev Vec16 := {v : Bytes // v.length < 65536}

def Vec8.encode (v : Vec8) : Bytes := v.1.length.toUInt8 :: v.1
def Vec16.encode (v : Vec16) : Bytes := toBeBytes v.1.length.toUInt16 ++ v.1

@[simp] theorem Vec8.length_encode (v : Vec8) : v.encode.length = v.1.length + 1 := rfl

@[simp] theorem Vec16.length_encode (v : Vec16) : v.encode.length = v.1.length + 2 := by
  simp [Vec16.encode, toBeBytes]

theorem Vec8.length_toNat (v : Vec8) : v.1.length.toUInt8.toNat = v.1.length := by
  have := v.2
  simp
  omega

theorem high_toNat (n : UInt16) : (n >>> 8).toUInt8.toNat = n.toNat / 256 := by
  have hn := n.toNat_lt
  have h8 : UInt16.toNat 8 = 8 := rfl
  rw [UInt16.toNat_toUInt8, UInt16.toNat_shiftRight, h8, Nat.shiftRight_eq_div_pow]
  norm_num
  omega

theorem low_toNat (n : UInt16) : n.toUInt8.toNat = n.toNat % 256 := UInt16.toNat_toUInt8 n

/-- A number of two bytes is read back from its bytes. -/
theorem fromBeBytes_toUInt8 (n : UInt16) : fromBeBytes (n >>> 8).toUInt8 n.toUInt8 = n.toNat := by
  rw [fromBeBytes, high_toNat, low_toNat]
  omega

theorem fromBeBytes_lt (hi lo : UInt8) : fromBeBytes hi lo < 65536 := by
  have hhi := hi.toNat_lt
  have hlo := lo.toNat_lt
  unfold fromBeBytes
  omega

theorem toUInt16_toNat {n : Nat} (h : n < 65536) : n.toUInt16.toNat = n := by
  simpa [Nat.toUInt16] using h

/-- An encoding is the two bytes of the length and the vector. -/
theorem Vec16.encode_eq (v : Vec16) :
    ∃ hi lo, v.encode = hi :: lo :: v.1 ∧ fromBeBytes hi lo = v.1.length :=
  ⟨_, _, rfl, (fromBeBytes_toUInt8 _).trans (toUInt16_toNat v.2)⟩

theorem toBeBytes_fromBeBytes (hi lo : UInt8) :
    toBeBytes (fromBeBytes hi lo).toUInt16 = [hi, lo] := by
  have hlo := lo.toNat_lt
  have hn := toUInt16_toNat (fromBeBytes_lt hi lo)
  have hhigh : ((fromBeBytes hi lo).toUInt16 >>> 8).toUInt8 = hi := by
    rw [← UInt8.toNat_inj, high_toNat, hn, fromBeBytes]
    omega
  have hlow : (fromBeBytes hi lo).toUInt16.toUInt8 = lo := by
    rw [← UInt8.toNat_inj, low_toNat, hn, fromBeBytes]
    omega
  rw [toBeBytes, hhigh, hlow]

/-- A length of one byte with that many bytes behind it starts a vector. -/
theorem exists_vec8 {len : UInt8} {rest : Bytes} (h : len.toNat ≤ rest.length) :
    ∃ v : Vec8, v.1 = rest.take len.toNat ∧ len :: rest = v.encode ++ rest.drop len.toNat := by
  have hlen : (rest.take len.toNat).length = len.toNat := List.length_take_of_le h
  refine ⟨⟨rest.take len.toNat, hlen.trans_lt len.toNat_lt⟩, rfl, ?_⟩
  simp [Vec8.encode, hlen]

theorem exists_vec16 {hi lo : UInt8} {rest : Bytes} (h : fromBeBytes hi lo ≤ rest.length) :
    ∃ v : Vec16, v.1 = rest.take (fromBeBytes hi lo) ∧
      hi :: lo :: rest = v.encode ++ rest.drop (fromBeBytes hi lo) := by
  have hlen : (rest.take (fromBeBytes hi lo)).length = fromBeBytes hi lo :=
    List.length_take_of_le h
  refine ⟨⟨rest.take (fromBeBytes hi lo), hlen.trans_lt (fromBeBytes_lt hi lo)⟩, rfl, ?_⟩
  simp [Vec16.encode, hlen, toBeBytes_fromBeBytes]

end Frame
