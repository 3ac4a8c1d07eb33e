import NyaSniProxy.Tls.Reading
import NyaSniProxy.Library.Slices

/-!
# The ClientHello parser with its indices

Here the parser of `Tls` is written with the indices, ranges and sums of the source, each of which
may panic, and its loops turn by turn. Every bound comes from a check on a slice that has been cut
again since. The parser does not panic on any buffer, and its verdict is that of `parseTlsSni`.
-/

namespace NyaSniProxy.Indexed

open Text Frame Slices ClientHelloStatus

/-! ## Lengths -/

/-- A length of two bytes and the header in front of it. -/
theorem add_fromBeBytes (n : Nat) (hn : n ≤ 5) (hi lo : UInt8) :
    add n (fromBeBytes hi lo) = .ok (fromBeBytes hi lo + n) := by
  have hlt := fromBeBytes_lt hi lo
  rw [add_of_lt (by omega), Nat.add_comm]

theorem helloLength_lt (a b c : UInt8) : helloLength a b c < 16777216 := by
  have ha := a.toNat_lt
  have hb := b.toNat_lt
  have hc := c.toNat_lt
  unfold helloLength
  omega

/-- The three bytes of the length of a message. -/
theorem helloLength_eq (a b c : UInt8) :
    helloLength a b c = a.toNat <<< 16 ||| b.toNat <<< 8 ||| c.toNat := by
  have hb := b.toNat_lt
  have hc := c.toNat_lt
  have hlow : b.toNat <<< 8 < 2 ^ 16 := by
    rw [Nat.shiftLeft_eq]
    omega
  have hhigh : a.toNat <<< 16 + b.toNat <<< 8 = (a.toNat <<< 8 + b.toNat) <<< 8 := by
    simp only [Nat.shiftLeft_eq]
    omega
  rw [← Nat.shiftLeft_add_eq_or_of_lt hlow, hhigh, ← Nat.shiftLeft_add_eq_or_of_lt hc, helloLength]
  simp only [Nat.shiftLeft_eq]
  omega

/-! ## Vectors -/

/-- A check for the length and one for the vector behind it read a vector. -/
theorem vec16_eq {missing truncated : String} {body : Bytes}
    {k : UInt8 → UInt8 → Checked ClientHelloStatus} {k' : Bytes → Bytes → ClientHelloStatus}
    (hk : ∀ {hi lo rest}, body = hi :: lo :: rest → fromBeBytes hi lo ≤ rest.length →
      k hi lo = .ok (k' (rest.take (fromBeBytes hi lo)) (rest.drop (fromBeBytes hi lo)))) :
    (do
      if body.length < 2 then return invalid missing
      let hi ← index body 0
      let lo ← index body 1
      if body.length < (← add 2 (fromBeBytes hi lo)) then return invalid truncated
      k hi lo) = .ok (vec16 missing truncated body k') := by
  match body with
  | [] | [_] => rfl
  | hi :: lo :: rest =>
    have htwo : ¬ rest.length + 1 + 1 < 2 := by omega
    by_cases hlen : rest.length < fromBeBytes hi lo
    · simp [vec16, add_fromBeBytes, htwo, hlen]
    · simp [vec16, add_fromBeBytes, htwo, hlen, hk rfl (not_lt.mp hlen)]

theorem vec8_eq {missing truncated : String} {body : Bytes} {k : Bytes → Checked ClientHelloStatus}
    {k' : Bytes → Bytes → ClientHelloStatus} (hk : ∀ a b, k b = .ok (k' a b)) :
    (do
      let len :: rest := body | return invalid missing
      if rest.length < len.toNat then return invalid truncated
      let body ← rangeFrom rest len.toNat
      k body) = .ok (vec8 missing truncated body k') := by
  match body with
  | [] => rfl
  | len :: rest =>
    by_cases hlen : rest.length < len.toNat
    · simp [vec8, hlen]
    · simp [vec8, hlen, rangeFrom_of_le (not_lt.mp hlen), hk (rest.take len.toNat)]

/-! ## Names -/

/-- A turn of the loop over the names of a server name list. -/
def namesTurn (names : Bytes) : Checked (Turn Bytes ClientHelloStatus) := do
  if names.isEmpty then return .leave (invalid "DNS SNI name not found")
  if names.length < 3 then return .leave (invalid "truncated SNI name")
  let nameType ← index names 0
  let nameLen := fromBeBytes (← index names 1) (← index names 2)
  if names.length < (← add 3 nameLen) then return .leave (invalid "truncated SNI host")
  if nameType = 0 then return .leave (hostStatus (← range names 3 (← add 3 nameLen)))
  return .again (← rangeFrom names (← add 3 nameLen))

theorem namesTurn_advances (names : Bytes) :
    Advances namesTurn List.length parseNames names := by
  unfold Advances
  fun_cases parseNames names with
  | case1 => exact ⟨_, rfl, rfl, nofun⟩
  | case2 nameType hi lo rest nameLen hlen =>
    have hshort : rest.length < fromBeBytes hi lo := hlen
    refine ⟨.leave (invalid "truncated SNI host"), ?_, rfl, nofun⟩
    simp [namesTurn, add_fromBeBytes, hshort]
  | case3 hi lo rest nameLen hlen =>
    have hfits : fromBeBytes hi lo ≤ rest.length := not_lt.mp hlen
    have hthree : ¬ rest.length + 1 + 1 + 1 < 3 := by omega
    refine ⟨.leave (hostStatus (rest.take (fromBeBytes hi lo))), ?_, rfl, nofun⟩
    simp [namesTurn, add_fromBeBytes, hthree, not_lt.mpr hfits, range_zero hfits]
  | case4 nameType hi lo rest nameLen hlen htype =>
    have hfits : fromBeBytes hi lo ≤ rest.length := not_lt.mp hlen
    have hthree : ¬ rest.length + 1 + 1 + 1 < 3 := by omega
    refine ⟨.again (rest.drop (fromBeBytes hi lo)), ?_, rfl, ?_⟩
    · simp [namesTurn, add_fromBeBytes, hthree, not_lt.mpr hfits, htype, rangeFrom_of_le hfits]
    · rintro _ ⟨⟩
      simp only [List.length_drop, List.length_cons]
      omega
  | case5 names hnil hcons =>
    refine ⟨.leave (invalid "truncated SNI name"), ?_, rfl, nofun⟩
    match names, hnil, hcons with
    | [_], _, _ | [_, _], _, _ => rfl
    | nameType :: hi :: lo :: rest, _, hcons => exact (hcons nameType hi lo rest rfl).elim

/-- The loop over the names. -/
def namesLoop : Loop Bytes ClientHelloStatus where
  turn := namesTurn
  size := List.length
  shorter := (namesTurn_advances _).shorter

theorem namesLoop_rounds (names : Bytes) :
    ∃ n ≤ names.length, namesLoop.Rounds n names (parseNames names) :=
  namesLoop.rounds_of_advances namesTurn_advances names

def parseSniExtension (data : Bytes) : Checked ClientHelloStatus := do
  if data.length < 2 then return invalid "truncated SNI extension"
  let listLen := fromBeBytes (← index data 0) (← index data 1)
  if data.length < (← add 2 listLen) then return invalid "truncated SNI list"
  let names ← range data 2 (← add 2 listLen)
  namesLoop.run names

theorem parseSniExtension_eq (data : Bytes) :
    parseSniExtension data = .ok (NyaSniProxy.parseSniExtension data) := by
  unfold parseSniExtension NyaSniProxy.parseSniExtension
  refine vec16_eq fun {hi lo rest} hdata hfits => ?_
  obtain ⟨n, _, hrounds⟩ := namesLoop_rounds (rest.take (fromBeBytes hi lo))
  simp [hdata, add_fromBeBytes, range_zero hfits, hrounds.run]

/-! ## Extensions -/

/-- A turn of the loop over the extensions. -/
def extensionsTurn (extensions : Bytes) : Checked (Turn Bytes ClientHelloStatus) := do
  if extensions.isEmpty then return .leave (invalid "TLS SNI extension not found")
  if extensions.length < 4 then return .leave (invalid "truncated extension header")
  let extType := fromBeBytes (← index extensions 0) (← index extensions 1)
  let extLen := fromBeBytes (← index extensions 2) (← index extensions 3)
  if extensions.length < (← add 4 extLen) then return .leave (invalid "truncated extension")
  let extData ← range extensions 4 (← add 4 extLen)
  if extType = 0 then return .leave (← parseSniExtension extData)
  return .again (← rangeFrom extensions (← add 4 extLen))

theorem extensionsTurn_advances (extensions : Bytes) :
    Advances extensionsTurn List.length parseExtensions extensions := by
  unfold Advances
  fun_cases parseExtensions extensions with
  | case1 => exact ⟨_, rfl, rfl, nofun⟩
  | case2 t1 t2 l1 l2 rest extLen hlen =>
    have hshort : rest.length < fromBeBytes l1 l2 := hlen
    refine ⟨.leave (invalid "truncated extension"), ?_, rfl, nofun⟩
    simp [extensionsTurn, add_fromBeBytes, hshort]
  | case3 t1 t2 l1 l2 rest extType extLen hlen htype =>
    have hfits : fromBeBytes l1 l2 ≤ rest.length := not_lt.mp hlen
    have hfour : ¬ rest.length + 1 + 1 + 1 + 1 < 4 := by omega
    have hzero : fromBeBytes t1 t2 = 0 := htype
    refine ⟨.leave (NyaSniProxy.parseSniExtension (rest.take (fromBeBytes l1 l2))), ?_, rfl, nofun⟩
    simp [extensionsTurn, add_fromBeBytes, hfour, not_lt.mpr hfits, range_zero hfits, hzero,
      parseSniExtension_eq]
  | case4 t1 t2 l1 l2 rest extType extLen hlen htype =>
    have hfits : fromBeBytes l1 l2 ≤ rest.length := not_lt.mp hlen
    have hfour : ¬ rest.length + 1 + 1 + 1 + 1 < 4 := by omega
    have hother : ¬ fromBeBytes t1 t2 = 0 := htype
    refine ⟨.again (rest.drop (fromBeBytes l1 l2)), ?_, rfl, ?_⟩
    · simp [extensionsTurn, add_fromBeBytes, hfour, not_lt.mpr hfits, range_zero hfits, hother,
        rangeFrom_of_le hfits]
    · rintro _ ⟨⟩
      simp only [List.length_drop, List.length_cons]
      omega
  | case5 extensions hnil hcons =>
    refine ⟨.leave (invalid "truncated extension header"), ?_, rfl, nofun⟩
    match extensions, hnil, hcons with
    | [_], _, _ | [_, _], _, _ | [_, _, _], _, _ => rfl
    | t1 :: t2 :: l1 :: l2 :: rest, _, hcons => exact (hcons t1 t2 l1 l2 rest rfl).elim

/-- The loop over the extensions. -/
def extensionsLoop : Loop Bytes ClientHelloStatus where
  turn := extensionsTurn
  size := List.length
  shorter := (extensionsTurn_advances _).shorter

theorem extensionsLoop_rounds (extensions : Bytes) :
    ∃ n ≤ extensions.length, extensionsLoop.Rounds n extensions (parseExtensions extensions) :=
  extensionsLoop.rounds_of_advances extensionsTurn_advances extensions

def parseClientHelloBody (body : Bytes) : Checked ClientHelloStatus := do
  if body.length < 34 then return invalid "truncated ClientHello"
  let body ← rangeFrom body 34
  -- `split_first` cannot panic
  let sessionIdLen :: rest := body | return invalid "missing session id length"
  if rest.length < sessionIdLen.toNat then return invalid "truncated session id"
  let body ← rangeFrom rest sessionIdLen.toNat
  if body.length < 2 then return invalid "missing cipher suites length"
  let cipherLen := fromBeBytes (← index body 0) (← index body 1)
  if body.length < (← add 2 cipherLen) then return invalid "truncated cipher suites"
  let body ← rangeFrom body (← add 2 cipherLen)
  let compressionLen :: rest := body | return invalid "missing compression methods length"
  if rest.length < compressionLen.toNat then return invalid "truncated compression methods"
  let body ← rangeFrom rest compressionLen.toNat
  if body.length < 2 then return invalid "missing extensions length"
  let extensionsLen := fromBeBytes (← index body 0) (← index body 1)
  if body.length < (← add 2 extensionsLen) then return invalid "truncated extensions"
  let extensions ← range body 2 (← add 2 extensionsLen)
  extensionsLoop.run extensions

theorem parseClientHelloBody_eq (body : Bytes) :
    parseClientHelloBody body = .ok (NyaSniProxy.parseClientHelloBody body) := by
  unfold parseClientHelloBody NyaSniProxy.parseClientHelloBody
  by_cases hhead : body.length < 34
  · rw [if_pos hhead, if_pos hhead]
    rfl
  · rw [if_neg hhead, if_neg hhead, rangeFrom_of_le (not_lt.mp hhead), ok_bind]
    refine vec8_eq fun _ body => ?_
    refine vec16_eq fun {hi lo rest} hbody hfits => ?_
    simp only [hbody, add_fromBeBytes 2 (by decide) hi lo, rangeFrom_succ, rangeFrom_of_le hfits,
      ok_bind]
    refine vec8_eq fun _ body => ?_
    refine vec16_eq fun {hi lo rest} hbody hfits => ?_
    simp only [hbody, add_fromBeBytes 2 (by decide) hi lo, range_succ, range_zero hfits, ok_bind]
    obtain ⟨n, _, hrounds⟩ := extensionsLoop_rounds (rest.take (fromBeBytes hi lo))
    exact hrounds.run

/-! ## The record -/

/-- The second half of `parse_tls_sni`, on the record. -/
def parseRecord (record : Bytes) : Checked ClientHelloStatus := do
  -- `||` looks at the first byte only if there are four
  if record.length < 4 then return invalid "not a TLS ClientHello"
  if (← index record 0) ≠ 1 then return invalid "not a TLS ClientHello"
  let helloLen := (← index record 1).toNat <<< 16 ||| (← index record 2).toNat <<< 8 |||
    (← index record 3).toNat
  if record.length < (← add 4 helloLen) then return needMore
  parseClientHelloBody (← range record 4 (← add 4 helloLen))

def parseTlsSni (buf : Bytes) : Checked ClientHelloStatus := do
  if buf.length < 5 then return needMore
  if (← index buf 0) ≠ 22 then return invalid "not a TLS handshake record"
  let recordLen := fromBeBytes (← index buf 3) (← index buf 4)
  let recordEnd ← add 5 recordLen
  if buf.length < recordEnd then return needMore
  parseRecord (← range buf 5 recordEnd)

theorem parseRecord_eq (record : Bytes) :
    parseRecord record = .ok (NyaSniProxy.parseRecord record) := by
  match record with
  | [] | [_] | [_, _] | [_, _, _] => rfl
  | msgType :: a :: b :: c :: rest =>
    have hfour : ¬ rest.length + 1 + 1 + 1 + 1 < 4 := by omega
    -- a name for the length, so that nothing below unfolds it
    obtain ⟨n, hn⟩ : ∃ n, helloLength a b c = n := ⟨_, rfl⟩
    have hshifts : a.toNat <<< 16 ||| b.toNat <<< 8 ||| c.toNat = n := by rw [← helloLength_eq, hn]
    have hadd : add 4 n = .ok (n + 4) := by
      have hlt := helloLength_lt a b c
      rw [add_of_lt (by omega), Nat.add_comm]
    by_cases htype : msgType = 1
    · by_cases hlen : rest.length < n
      · simp [parseRecord, NyaSniProxy.parseRecord, htype, hfour, hn, hshifts, hadd, hlen]
      · simp [parseRecord, NyaSniProxy.parseRecord, htype, hfour, hn, hshifts, hadd, hlen,
          range_zero (not_lt.mp hlen), parseClientHelloBody_eq]
    · simp [parseRecord, NyaSniProxy.parseRecord, htype, hfour]

/-- The parser does not panic, and this is its verdict. -/
theorem parseTlsSni_eq (buf : Bytes) : parseTlsSni buf = .ok (NyaSniProxy.parseTlsSni buf) := by
  match buf with
  | [] | [_] | [_, _] | [_, _, _] | [_, _, _, _] => rfl
  | contentType :: v1 :: v2 :: hi :: lo :: rest =>
    have hfive : ¬ rest.length + 1 + 1 + 1 + 1 + 1 < 5 := by omega
    by_cases htype : contentType = 22
    · by_cases hlen : rest.length < fromBeBytes hi lo
      · simp [parseTlsSni, NyaSniProxy.parseTlsSni, htype, add_fromBeBytes, hfive, hlen]
      · simp [parseTlsSni, NyaSniProxy.parseTlsSni, htype, add_fromBeBytes, hfive, hlen,
          range_zero (not_lt.mp hlen), parseRecord_eq]
    · simp [parseTlsSni, NyaSniProxy.parseTlsSni, htype, hfive]

/-- No index, range or sum of the parser fails on any buffer. Every turn of its two loops that goes
round again leaves less to scan, so both end on every slice. -/
theorem parseTlsSni_noPanic :
    (∀ buf, parseTlsSni buf = .ok (NyaSniProxy.parseTlsSni buf)) ∧
    (∀ extensions rest, extensionsTurn extensions = .ok (.again rest) →
      rest.length < extensions.length) ∧
    (∀ names rest, namesTurn names = .ok (.again rest) → rest.length < names.length) ∧
    (∀ extensions, ∃ n ≤ extensions.length, ∃ status,
      extensionsLoop.Rounds n extensions status ∧ extensionsLoop.run extensions = .ok status) ∧
    ∀ names, ∃ n ≤ names.length, ∃ status,
      namesLoop.Rounds n names status ∧ namesLoop.run names = .ok status := by
  refine ⟨parseTlsSni_eq, fun _ _ => extensionsLoop.shorter, fun _ _ => namesLoop.shorter,
    fun extensions => ?_, fun names => ?_⟩
  · obtain ⟨n, hn, hrounds⟩ := extensionsLoop_rounds extensions
    exact ⟨n, hn, _, hrounds, hrounds.run⟩
  · obtain ⟨n, hn, hrounds⟩ := namesLoop_rounds names
    exact ⟨n, hn, _, hrounds, hrounds.run⟩

theorem parseTlsSni_noPanic_example :
    parseTlsSni (record (3, 1) ⟨exampleHello.message, by decide⟩) =
        .ok (found (ascii "example.com")) ∧
      ([1] : Bytes).length < ([0, 21, 0, 1, 0, 1] : Bytes).length := by
  refine ⟨(parseTlsSni_noPanic.1 _).trans (congrArg Except.ok ?_),
    parseTlsSni_noPanic.2.1 _ _ ?_⟩
  · exact parseTlsSni_hello (3, 1) (by decide) rfl (by decide) (by decide)
  · simp [extensionsTurn, add_of_lt, range, rangeFrom, fromBeBytes]

end NyaSniProxy.Indexed
