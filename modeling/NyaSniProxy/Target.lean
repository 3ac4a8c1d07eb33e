import NyaSniProxy.Error

/-!
# Targets

A target is the host and port a client asked for. `parseHostPort` reads one from the value of a
Host field, `formatTarget` writes one as the authority of a CONNECT request, and `isValidHostname`
is the check a routing rule's host must pass.
-/

namespace NyaSniProxy

open Text

structure Target where
  host : Bytes
  port : UInt16
  deriving DecidableEq

/-- `port.parse().context("invalid port")`. -/
def parsePort (port : Bytes) : Except Error UInt16 :=
  match parseU16 port with
  | some n => .ok n
  | none => .error (.within "invalid port" .parse)

def parseHostPort (value : Bytes) (defaultPort : UInt16) : Except Error Target := do
  if value = [] then
    throw (.msg "empty host")
  match stripPrefix openBracket value with
  | some host =>
    match splitOnce closeBracket host with
    | none => throw (.msg "invalid bracketed IPv6 host")
    | some (host, rest) =>
      match stripPrefix colon rest with
      | some port => return { host, port := ← parsePort port }
      | none =>
        if rest = [] then return { host, port := defaultPort }
        else throw (.msg "invalid bracketed host suffix")
  | none =>
    match rsplitOnce colon value with
    | some (host, port) =>
      if colon ∉ host ∧ port ≠ [] then return { host, port := ← parsePort port }
      else return { host := value, port := defaultPort }
    | none => return { host := value, port := defaultPort }

def formatTarget (target : Target) : Bytes :=
  if colon ∈ target.host ∧ target.host.head? ≠ some openBracket then
    openBracket :: target.host ++ closeBracket :: colon :: decimal target.port.toNat
  else target.host ++ colon :: decimal target.port.toNat

def isValidDnsLabel (label : Bytes) : Bool :=
  0 < label.length && label.length ≤ 63 &&
    label.head?.any isAsciiAlphanumeric && label.getLast?.any isAsciiAlphanumeric &&
    label.all fun byte => isAsciiAlphanumeric byte || byte == 45

def isValidHostname (host : Bytes) : Bool :=
  host != [] && host.length ≤ 253 && host.head? != some dot && host.getLast? != some dot &&
    (host.splitOn dot).all isValidDnsLabel

example : parseHostPort (ascii "[::1]:443") 80 = .ok ⟨ascii "::1", 443⟩ := by decide
example : formatTarget ⟨ascii "::1", 443⟩ = ascii "[::1]:443" := by decide
example : isValidHostname (ascii "foo.com\n1.2.3.4 google.com") = false := by decide

/-! ## The bytes of a valid hostname -/

theorem isValidDnsLabel_byte {label : Bytes} (h : isValidDnsLabel label = true) :
    ∀ b ∈ label, isAsciiAlphanumeric b = true ∨ b = 45 := by
  simp only [isValidDnsLabel, Bool.and_eq_true, List.all_eq_true, Bool.or_eq_true,
    beq_iff_eq] at h
  exact h.2

/-- A valid hostname consists of letters, digits, hyphens and dots. -/
theorem isValidHostname_byte {host : Bytes} (h : isValidHostname host = true) :
    ∀ b ∈ host, isAsciiAlphanumeric b = true ∨ b = 45 ∨ b = dot := by
  intro b hb
  simp only [isValidHostname, Bool.and_eq_true, List.all_eq_true] at h
  rw [← @List.intercalate_splitOn _ host _ _ dot] at hb
  rcases mem_intercalate hb with hdot | ⟨label, hlabel, hb⟩
  · exact .inr (.inr hdot)
  · exact (isValidDnsLabel_byte (h.2 label hlabel) b hb).imp_right .inl

/-- A hostname does not end in a dot, in no letter case. -/
theorem trimEndMatches_of_hostname {host v : Bytes} (h : isValidHostname host = true)
    (hv : toAsciiLowercase v = toAsciiLowercase host) : trimEndMatches dot v = v := by
  have hlast : host.getLast? ≠ some dot := by
    simp only [isValidHostname, Bool.and_eq_true, bne_iff_ne] at h
    exact h.1.2
  apply trimEndMatches_of_not_suffix
  rintro ⟨front, rfl⟩
  have hlower := congrArg List.getLast? hv
  simp only [toAsciiLowercase, List.getLast?_map, List.getLast?_append, List.getLast?_singleton,
    Option.some_or] at hlower
  obtain ⟨b, hb, hdot⟩ := Option.map_eq_some_iff.mp hlower.symm
  exact hlast (hb.trans (congrArg some (lower_eq_dot b hdot)))

theorem isValidHostname_ne_nil {host : Bytes} (h : isValidHostname host = true) : host ≠ [] := by
  rintro rfl
  cases h

/-! ## The bytes of a host survive parsing and formatting -/

/-- No space and no control character. -/
def Clean (s : Bytes) : Prop := ∀ b ∈ s, b ≠ space ∧ isControl b = false

instance (s : Bytes) : Decidable (Clean s) :=
  List.decidableBAll (fun b => b ≠ space ∧ isControl b = false) s

@[simp] theorem clean_nil : Clean [] := by simp [Clean]

@[simp] theorem clean_cons {b : UInt8} {s : Bytes} :
    Clean (b :: s) ↔ (b ≠ space ∧ isControl b = false) ∧ Clean s := by
  simp [Clean]

@[simp] theorem clean_append {s t : Bytes} : Clean (s ++ t) ↔ Clean s ∧ Clean t := by
  simp only [Clean, List.forall_mem_append]

theorem clean_of_digits {s : Bytes} (h : ∀ b ∈ s, isAsciiDigit b = true) : Clean s := by
  have hdigit : ∀ b, isAsciiDigit b = true → b ≠ space ∧ isControl b = false :=
    forall_byte (by decide +kernel)
  exact fun b hb => hdigit b (h b hb)

theorem clean_decimal (n : Nat) : Clean (decimal n) := clean_of_digits (decimal_digits n)

theorem clean_of_parsePort {s : Bytes} {n : UInt16} (h : parsePort s = .ok n) : Clean s := by
  obtain ⟨m, hm⟩ : ∃ m, parseU16 s = some m := by
    unfold parsePort at h
    split at h
    · exact ⟨_, ‹_›⟩
    · cases h
  obtain ⟨digits, rfl | rfl, hd⟩ := parseU16_digits hm
  · exact clean_of_digits hd
  · exact clean_cons.mpr ⟨by decide, clean_of_digits hd⟩

theorem clean_punctuation : Clean [openBracket, closeBracket, colon] := by decide

theorem clean_formatTarget (target : Target) :
    Clean (formatTarget target) ↔ Clean target.host := by
  have hp := clean_punctuation
  simp only [Clean, List.forall_mem_cons] at hp
  unfold formatTarget
  split <;> simp [clean_decimal, hp]

/-- The forms of a value that is accepted: bracketed, with one colon, or a bare host. -/
theorem parseHostPort_cases {value : Bytes} {defaultPort : UInt16} {target : Target}
    (h : parseHostPort value defaultPort = .ok target) :
    (∃ rest, value = openBracket :: target.host ++ closeBracket :: rest ∧
      (rest = [] ∧ target.port = defaultPort ∨
        ∃ port, rest = colon :: port ∧ parsePort port = .ok target.port)) ∨
    (∃ port, value = target.host ++ colon :: port ∧ parsePort port = .ok target.port) ∨
    (value = target.host ∧ value ≠ [] ∧ target.port = defaultPort) := by
  unfold parseHostPort at h
  by_cases hv : value = []
  · simp [hv, throw, throwThe, MonadExceptOf.throw, bind, Except.bind] at h
  simp only [hv, if_false] at h
  split at h
  · next host hhost =>
    obtain rfl := stripPrefix_eq_some_iff.mp hhost
    split at h
    · cases h
    · next name rest hsplit =>
      obtain ⟨rfl, -⟩ := splitOnce_eq_some_iff.mp hsplit
      left
      split at h
      · next port hport =>
        cases hn : parsePort port with
        | error e => rw [hn] at h; cases h
        | ok n =>
          rw [hn] at h
          obtain rfl := Except.ok.inj h
          exact ⟨rest, rfl, .inr ⟨port, stripPrefix_eq_some_iff.mp hport, hn⟩⟩
      · split at h
        · next hrest =>
          obtain rfl := Except.ok.inj h
          exact ⟨rest, rfl, .inl ⟨hrest, rfl⟩⟩
        · cases h
  · right
    split at h
    · next host port hsplit =>
      split at h
      · cases hn : parsePort port with
        | error e => rw [hn] at h; cases h
        | ok n =>
          rw [hn] at h
          obtain rfl := Except.ok.inj h
          exact .inl ⟨port, (rsplitOnce_eq_some_iff.mp hsplit).1, hn⟩
      · obtain rfl := Except.ok.inj h
        exact .inr ⟨rfl, hv, rfl⟩
    · obtain rfl := Except.ok.inj h
      exact .inr ⟨rfl, hv, rfl⟩

/-- Parsing drops brackets, colons and port texts only. -/
theorem clean_parseHostPort {value : Bytes} {defaultPort : UInt16} {target : Target}
    (h : parseHostPort value defaultPort = .ok target) : Clean value ↔ Clean target.host := by
  have hp := clean_punctuation
  simp only [Clean, List.forall_mem_cons] at hp
  rcases parseHostPort_cases h with ⟨rest, hv, ⟨hr, -⟩ | ⟨port, hr, hn⟩⟩ | ⟨port, hv, hn⟩ | ⟨hv, -⟩
  · simp [hv, hr, hp]
  · simp [hv, hr, hp, clean_of_parsePort hn]
  · simp [hv, hp, clean_of_parsePort hn]
  · rw [hv]

end NyaSniProxy
