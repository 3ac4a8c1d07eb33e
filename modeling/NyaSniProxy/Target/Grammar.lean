import NyaSniProxy.Target

/-!
# The grammar of Host values

`parseHostPort` has one equation for each form of a value: bare, with one colon, with a colon at its
end, and in brackets. `FollowsGrammar` is what the grammar of the Host field asks of the result of a
value, and `Irregular` are the values for which the parser does something else. The authorities
`formatTarget` writes are read back as their targets.
-/

namespace NyaSniProxy

open Text

/-- The digits of a port. -/
structure IsPort (digits : Bytes) : Prop where
  ne_nil : digits ≠ []
  digit : ∀ b ∈ digits, isAsciiDigit b = true
  le : digitsValue digits ≤ 65535

/-! ## Ports -/

section Ports

variable {digits port : Bytes} {n : UInt16}

theorem stripPrefix_plus_of_digits (h : ∀ b ∈ digits, isAsciiDigit b = true) :
    stripPrefix 43 digits = none := by
  cases digits with
  | nil => rfl
  | cons b digits =>
    have hb : isAsciiDigit b = true := h b (by simp)
    refine if_neg ?_
    rintro rfl
    cases hb

theorem parsePort_eq_ok (h : IsPort digits) :
    parsePort digits = .ok (digitsValue digits).toUInt16 := by
  have hvalid : ¬ (digits = [] ∨ ¬ digits.all isAsciiDigit ∨ 65535 < digitsValue digits) := by
    simpa using ⟨h.ne_nil, h.digit, h.le⟩
  simp only [parsePort, parseU16, stripPrefix_plus_of_digits h.digit, Option.getD_none]
  rw [if_neg hvalid]

theorem parsePort_plus (h : IsPort digits) :
    parsePort (43 :: digits) = .ok (digitsValue digits).toUInt16 := by
  have hdigits := parsePort_eq_ok h
  simp only [parsePort, parseU16, stripPrefix_plus_of_digits h.digit, Option.getD_none] at hdigits
  simpa only [parsePort, parseU16, stripPrefix, if_true, Option.getD_some] using hdigits

theorem parsePort_overflow (h : ∀ b ∈ digits, isAsciiDigit b = true)
    (hlarge : 65535 < digitsValue digits) :
    parsePort digits = .error (.within "invalid port" .parse) := by
  simp only [parsePort, parseU16, stripPrefix_plus_of_digits h, Option.getD_none]
  rw [if_pos (.inr (.inr hlarge))]

/-- An accepted port is its digits, or a plus sign and its digits. -/
theorem isPort_of_parsePort (h : parsePort port = .ok n) :
    ∃ digits, (port = digits ∨ port = 43 :: digits) ∧ IsPort digits := by
  refine ⟨(stripPrefix 43 port).getD port, ?_, ?_⟩
  · cases hplus : stripPrefix 43 port with
    | none => exact .inl rfl
    | some digits => exact .inr (stripPrefix_eq_some_iff.mp hplus)
  · simp only [parsePort, parseU16] at h
    split at h
    · next m hm =>
      split at hm
      · cases hm
      · next hvalid =>
        obtain ⟨hne, hdigit, hle⟩ := by simpa using hvalid
        exact ⟨hne, hdigit, hle⟩
    · cases h

end Ports

/-! ## One equation for each form -/

section Forms

variable {value host port rest : Bytes} {defaultPort : UInt16}

theorem stripPrefix_eq_none (h : value.head? ≠ some openBracket) :
    stripPrefix openBracket value = none := by
  cases value with
  | nil => rfl
  | cons b value => exact if_neg (by simpa using h)

theorem parseHostPort_bare (hne : value ≠ []) (hbracket : value.head? ≠ some openBracket)
    (hcolon : colon ∉ value) : parseHostPort value defaultPort = .ok ⟨value, defaultPort⟩ := by
  simp only [parseHostPort, if_neg hne, stripPrefix_eq_none hbracket,
    rsplitOnce_eq_none_iff.mpr hcolon]
  rfl

/-- A colon at the end stays with the host. -/
theorem parseHostPort_noPort (hbracket : (host ++ [colon]).head? ≠ some openBracket) :
    parseHostPort (host ++ [colon]) defaultPort = .ok ⟨host ++ [colon], defaultPort⟩ := by
  have hsplit : rsplitOnce colon (host ++ [colon]) = some (host, []) :=
    rsplitOnce_eq_some_iff.mpr ⟨rfl, by simp⟩
  have hne : host ++ [colon] ≠ [] := by simp
  simp only [parseHostPort, if_neg hne, stripPrefix_eq_none hbracket, hsplit]
  rw [if_neg (by simp)]
  rfl

theorem parseHostPort_single (hbracket : (host ++ colon :: port).head? ≠ some openBracket)
    (hhost : colon ∉ host) (hport : colon ∉ port) (hne : port ≠ []) :
    parseHostPort (host ++ colon :: port) defaultPort = (parsePort port).map (⟨host, ·⟩) := by
  have hsplit : rsplitOnce colon (host ++ colon :: port) = some (host, port) :=
    rsplitOnce_eq_some_iff.mpr ⟨rfl, hport⟩
  have hvalue : host ++ colon :: port ≠ [] := by simp
  simp only [parseHostPort, if_neg hvalue, stripPrefix_eq_none hbracket, hsplit]
  rw [if_pos ⟨hhost, hne⟩]
  rfl

theorem splitOnce_closeBracket (h : closeBracket ∉ host) :
    splitOnce closeBracket (host ++ closeBracket :: rest) = some (host, rest) :=
  splitOnce_eq_some_iff.mpr ⟨rfl, h⟩

theorem parseHostPort_bracketed (h : closeBracket ∉ host) :
    parseHostPort (openBracket :: host ++ [closeBracket]) defaultPort =
      .ok ⟨host, defaultPort⟩ := by
  have hsplit := @splitOnce_closeBracket host [] h
  simp only [parseHostPort, List.cons_append, stripPrefix, if_true, hsplit]
  rfl

theorem parseHostPort_bracketedPort (h : closeBracket ∉ host) :
    parseHostPort (openBracket :: host ++ closeBracket :: colon :: port) defaultPort =
      (parsePort port).map (⟨host, ·⟩) := by
  have hsplit := @splitOnce_closeBracket host (colon :: port) h
  simp only [parseHostPort, List.cons_append, stripPrefix, if_true, hsplit]
  rfl

end Forms

/-! ## The grammar -/

/-- What the grammar of the Host field asks of the result of a value. -/
structure FollowsGrammar (value : Bytes) (defaultPort : UInt16) (result : Except Error Target) :
    Prop where
  bare : value ≠ [] → value.head? ≠ some openBracket → colon ∉ value →
    result = .ok ⟨value, defaultPort⟩
  port : ∀ host digits, value = host ++ colon :: digits → host ≠ [] →
    host.head? ≠ some openBracket → colon ∉ host → (∀ b ∈ digits, isAsciiDigit b = true) →
    (digits = [] → result = .ok ⟨host, defaultPort⟩) ∧
    (digits ≠ [] → digitsValue digits ≤ 65535 →
      result = .ok ⟨host, (digitsValue digits).toUInt16⟩) ∧
    (65535 < digitsValue digits → ∃ e, result = .error e)
  digits : ∀ host port, value = host ++ colon :: port → value.head? ≠ some openBracket →
    colon ∉ host → colon ∉ port → (¬ ∀ b ∈ port, isAsciiDigit b = true) → ∃ e, result = .error e
  bracketedDigits : ∀ host port, value = openBracket :: host ++ closeBracket :: colon :: port →
    closeBracket ∉ host → (¬ ∀ b ∈ port, isAsciiDigit b = true) → ∃ e, result = .error e
  host : ∀ target, result = .ok target → target.host ≠ []

/-- A name with a colon and no port behind it, a port with a plus sign, or no host. -/
inductive Irregular : Bytes → Prop where
  | noPort {host} : host ≠ [] → host.head? ≠ some openBracket → colon ∉ host →
      Irregular (host ++ [colon])
  | plus {host digits} : host.head? ≠ some openBracket → colon ∉ host → IsPort digits →
      Irregular (host ++ colon :: 43 :: digits)
  | bracketedPlus {host digits} : closeBracket ∉ host → IsPort digits →
      Irregular (openBracket :: host ++ closeBracket :: colon :: 43 :: digits)
  | noHost {digits} : IsPort digits → Irregular (colon :: digits)
  | noBracketedHost : Irregular [openBracket, closeBracket]
  | noBracketedHostPort {digits} : IsPort digits →
      Irregular (openBracket :: closeBracket :: colon :: digits)

section Grammar

variable {value host digits port : Bytes} {defaultPort n : UInt16}

theorem head_append_colon (h : host.head? ≠ some openBracket) :
    (host ++ colon :: port).head? ≠ some openBracket := by
  cases host with
  | nil => simp [colon, openBracket]
  | cons b host => simpa using h

theorem head_of_append (h : (host ++ port).head? ≠ some openBracket) :
    host.head? ≠ some openBracket := by
  cases host with
  | nil => simp
  | cons b host => simpa using h

theorem not_digits_plus : ¬ ∀ b ∈ 43 :: digits, isAsciiDigit b = true := by
  intro h
  cases h 43 List.mem_cons_self

theorem colon_not_mem_digits (h : ∀ b ∈ digits, isAsciiDigit b = true) : colon ∉ digits := by
  intro hmem
  cases h colon hmem

theorem colon_not_mem_plus (h : ∀ b ∈ digits, isAsciiDigit b = true) : colon ∉ 43 :: digits :=
  List.not_mem_cons_of_ne_of_not_mem (by decide) (colon_not_mem_digits h)

theorem parseHostPort_digits (hbracket : host.head? ≠ some openBracket) (hhost : colon ∉ host)
    (hport : IsPort digits) : parseHostPort (host ++ colon :: digits) defaultPort =
      .ok ⟨host, (digitsValue digits).toUInt16⟩ := by
  rw [parseHostPort_single (head_append_colon hbracket) hhost (colon_not_mem_digits hport.digit)
    hport.ne_nil, parsePort_eq_ok hport]
  rfl

theorem parseHostPort_plus (hbracket : host.head? ≠ some openBracket) (hhost : colon ∉ host)
    (hport : IsPort digits) : parseHostPort (host ++ colon :: 43 :: digits) defaultPort =
      .ok ⟨host, (digitsValue digits).toUInt16⟩ := by
  rw [parseHostPort_single (head_append_colon hbracket) hhost
    (colon_not_mem_plus hport.digit) (by simp), parsePort_plus hport]
  rfl

theorem parseHostPort_bracketedDigits (hhost : closeBracket ∉ host)
    (hport : parsePort port = .ok n) :
    parseHostPort (openBracket :: host ++ closeBracket :: colon :: port) defaultPort =
      .ok ⟨host, n⟩ := by
  rw [parseHostPort_bracketedPort hhost, hport]
  rfl

/-- A port that is not all digits is accepted behind a plus sign only. -/
theorem parsePort_error (hdigits : ¬ ∀ b ∈ port, isAsciiDigit b = true)
    (hplus : ∀ digits, IsPort digits → port ≠ 43 :: digits) : ∃ e, parsePort port = .error e := by
  cases hn : parsePort port with
  | error e => exact ⟨e, rfl⟩
  | ok n =>
    obtain ⟨digits, rfl | rfl, hport⟩ := isPort_of_parsePort hn
    · exact absurd hport.digit hdigits
    · exact absurd rfl (hplus digits hport)

/-- An accepted value without a host. -/
theorem irregular_of_host_nil {target : Target}
    (h : parseHostPort value defaultPort = .ok target) (hnil : target.host = []) :
    Irregular value := by
  rcases parseHostPort_cases h with ⟨rest, hv, hrest⟩ | ⟨port, hv, hn⟩ | ⟨hv, hne, -⟩
  · rw [hnil] at hv
    obtain ⟨rfl, -⟩ | ⟨port, rfl, hn⟩ := hrest
    · exact hv ▸ .noBracketedHost
    · obtain ⟨digits, rfl | rfl, hport⟩ := isPort_of_parsePort hn
      · exact hv ▸ .noBracketedHostPort hport
      · exact hv ▸ .bracketedPlus (by simp) hport
  · rw [hnil] at hv
    obtain ⟨digits, rfl | rfl, hport⟩ := isPort_of_parsePort hn
    · exact hv ▸ .noHost hport
    · exact hv ▸ .plus (by simp) (by simp) hport
  · exact absurd (hv.trans hnil) hne

theorem followsGrammar_of_regular (h : ¬ Irregular value) :
    FollowsGrammar value defaultPort (parseHostPort value defaultPort) where
  bare hne hbracket hcolon := parseHostPort_bare hne hbracket hcolon
  port := by
    rintro host digits rfl hne hbracket hcolon hdigits
    refine ⟨?_, ?_, ?_⟩
    · rintro rfl
      exact absurd (.noPort hne hbracket hcolon) h
    · intro hsome hle
      exact parseHostPort_digits hbracket hcolon ⟨hsome, hdigits, hle⟩
    · intro hlarge
      have hsome : digits ≠ [] := by
        rintro rfl
        cases hlarge
      rw [parseHostPort_single (head_append_colon hbracket) hcolon
        (colon_not_mem_digits hdigits) hsome, parsePort_overflow hdigits hlarge]
      exact ⟨_, rfl⟩
  digits := by
    rintro host port rfl hbracket hhost hport hdigits
    have hsome : port ≠ [] := by
      rintro rfl
      exact hdigits (by simp)
    obtain ⟨e, he⟩ := parsePort_error hdigits fun digits hd hplus =>
      h (hplus ▸ .plus (head_of_append hbracket) hhost hd)
    rw [parseHostPort_single hbracket hhost hport hsome, he]
    exact ⟨e, rfl⟩
  bracketedDigits := by
    rintro host port rfl hhost hdigits
    obtain ⟨e, he⟩ := parsePort_error hdigits fun digits hd hplus =>
      h (hplus ▸ .bracketedPlus hhost hd)
    rw [parseHostPort_bracketedPort hhost, he]
    exact ⟨e, rfl⟩
  host target htarget hnil := h (irregular_of_host_nil htarget hnil)

theorem not_followsGrammar_of_irregular (h : Irregular value) :
    ¬ FollowsGrammar value defaultPort (parseHostPort value defaultPort) := by
  intro hf
  cases h with
  | @noPort host hne hbracket hcolon =>
    have hgrammar := (hf.port host [] rfl hne hbracket hcolon (by simp)).1 rfl
    rw [parseHostPort_noPort (head_append_colon hbracket)] at hgrammar
    simp at hgrammar
  | plus hbracket hcolon hport =>
    obtain ⟨e, he⟩ := hf.digits _ _ rfl (head_append_colon hbracket) hcolon
      (colon_not_mem_plus hport.digit) not_digits_plus
    cases he.symm.trans (parseHostPort_plus hbracket hcolon hport)
  | bracketedPlus hhost hport =>
    obtain ⟨e, he⟩ := hf.bracketedDigits _ _ rfl hhost not_digits_plus
    cases he.symm.trans (parseHostPort_bracketedDigits hhost (parsePort_plus hport))
  | noHost hport =>
    exact hf.host _ (@parseHostPort_digits [] _ _ (by simp) (by simp) hport) rfl
  | noBracketedHost => exact hf.host _ (@parseHostPort_bracketed [] _ (by simp)) rfl
  | noBracketedHostPort hport =>
    exact hf.host _
      (@parseHostPort_bracketedDigits [] _ _ _ (by simp) (parsePort_eq_ok hport)) rfl

/-- The parser follows the grammar on exactly the values that are not irregular. -/
theorem parseHostPort_grammar_iff (value : Bytes) (defaultPort : UInt16) :
    FollowsGrammar value defaultPort (parseHostPort value defaultPort) ↔ ¬ Irregular value :=
  ⟨fun hf hirregular => not_followsGrammar_of_irregular hirregular hf, followsGrammar_of_regular⟩

/-- The colon stays with the name in `example.com:`. -/
theorem parseHostPort_ungrammatical :
    ¬ FollowsGrammar (ascii "example.com:") 80 (parseHostPort (ascii "example.com:") 80) := by
  intro hf
  have hresult := (hf.port (ascii "example.com") [] rfl (by decide) (by decide) (by decide)
    (by simp)).1 rfl
  exact absurd hresult (by decide)

end Grammar

/-! ## The authority of a CONNECT request -/

section Authority

variable {target other : Target} {defaultPort : UInt16}

/-- A host without brackets: a name, an address literal, or any other text. -/
def Target.Bracketless (target : Target) : Prop :=
  openBracket ∉ target.host ∧ closeBracket ∉ target.host

theorem isPort_decimal (port : UInt16) : IsPort (decimal port.toNat) where
  ne_nil := decimal_ne_nil _
  digit := decimal_digits _
  le := by
    have := port.toNat_lt
    rw [digitsValue_decimal]
    omega

theorem parsePort_decimal (port : UInt16) : parsePort (decimal port.toNat) = .ok port := by
  rw [parsePort_eq_ok (isPort_decimal port), digitsValue_decimal]
  exact congrArg Except.ok (UInt16.ofNat_toNat)

theorem Target.Bracketless.head (h : target.Bracketless) :
    target.host.head? ≠ some openBracket :=
  fun hhead => h.1 (List.mem_of_mem_head? hhead)

theorem parseHostPort_formatTarget (h : target.Bracketless) :
    parseHostPort (formatTarget target) defaultPort = .ok target := by
  by_cases hcolon : colon ∈ target.host
  · have hformat : formatTarget target =
        openBracket :: target.host ++ closeBracket :: colon :: decimal target.port.toNat :=
      if_pos ⟨hcolon, h.head⟩
    rw [hformat]
    exact parseHostPort_bracketedDigits h.2 (parsePort_decimal target.port)
  · have hformat : formatTarget target = target.host ++ colon :: decimal target.port.toNat :=
      if_neg fun hbrackets => hcolon hbrackets.1
    have hport := isPort_decimal target.port
    rw [hformat, parseHostPort_single (head_append_colon h.head) hcolon
      (colon_not_mem_digits hport.digit) hport.ne_nil, parsePort_decimal]
    rfl

/-- An authority is read back as the target it was written for, whatever the default port, so that
no two targets have the same one. -/
theorem formatTarget_roundTrip (h : target.Bracketless) :
    (∀ defaultPort, parseHostPort (formatTarget target) defaultPort = .ok target) ∧
      ∀ other : Target, other.Bracketless → formatTarget other = formatTarget target →
        other = target := by
  refine ⟨fun _ => parseHostPort_formatTarget h, fun other hother hformat => ?_⟩
  have hread := @parseHostPort_formatTarget other 0 hother
  rw [hformat, parseHostPort_formatTarget h] at hread
  exact (Except.ok.inj hread).symm

theorem formatTarget_roundTrip_scoped :
    (∀ defaultPort, parseHostPort (formatTarget ⟨ascii "fe80::1%eth0", 443⟩) defaultPort =
      .ok ⟨ascii "fe80::1%eth0", 443⟩) ∧
      ∀ other : Target, other.Bracketless →
        formatTarget other = formatTarget ⟨ascii "fe80::1%eth0", 443⟩ →
          other = ⟨ascii "fe80::1%eth0", 443⟩ :=
  formatTarget_roundTrip ⟨by decide, by decide⟩

end Authority

end NyaSniProxy
