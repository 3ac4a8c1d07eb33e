import NyaSniProxy.Http.Head

/-!
# Heads by their fields

`renderHead` writes a request head from its request line and its fields. The head ends at the first
empty line whatever the body is, and its lines are the ones it was written from. So the host is read
from the first Host field, and from nothing else, as long as the head is a text.
-/

namespace NyaSniProxy

open Text

/-- The characters of a token. -/
def isTokenByte (b : UInt8) : Bool :=
  isAsciiAlphanumeric b || (ascii "!#$%&'*+-.^_`|~").contains b

/-- A field: its name is a token, and its value any bytes but CR, LF and NUL. -/
structure HeaderField where
  name : Bytes
  value : Bytes
  name_ne : name ≠ []
  isToken : ∀ b ∈ name, isTokenByte b = true
  isValue : ∀ b ∈ value, b ≠ cr ∧ b ≠ lf ∧ b ≠ 0

namespace HeaderField

def line (self : HeaderField) : Bytes := self.name ++ colon :: self.value

/-- The field is named Host, in any letter case. -/
def IsHost (self : HeaderField) : Prop := eqIgnoreAsciiCase self.name (ascii "host") = true

end HeaderField

/-- The request line and the fields. -/
def headText (requestLine : Bytes) (fields : List HeaderField) : Bytes :=
  requestLine ++ (fields.map HeaderField.line).flatMap (crlf ++ ·)

/-- A head: every line ends with CR LF, and so does the empty line behind them. -/
def renderHead (requestLine : Bytes) (fields : List HeaderField) : Bytes :=
  requestLine ++ crlf ++ fields.flatMap (fun f => f.line ++ crlf) ++ crlf

section Fields

variable {requestLine body : Bytes} {fields before after : List HeaderField} {field : HeaderField}

theorem renderHead_eq :
    renderHead requestLine fields = headText requestLine fields ++ (crlf ++ crlf) := by
  have hshift : crlf ++ fields.flatMap (fun f => f.line ++ crlf) =
      (fields.map HeaderField.line).flatMap (crlf ++ ·) ++ crlf := by
    induction fields with
    | nil => rfl
    | cons f fields ih =>
      rw [List.flatMap_cons, List.append_assoc, ih]
      simp
  rw [renderHead, headText, List.append_assoc requestLine, hshift]
  simp

theorem isToken_byte :
    ∀ b, isTokenByte b = true → b ≠ cr ∧ b ≠ colon ∧ isAsciiGraphic b = true :=
  forall_byte (by decide +kernel)

theorem HeaderField.line_pieces (f : HeaderField) : f.line ≠ [] ∧ cr ∉ f.line := by
  refine ⟨by simp [HeaderField.line], fun h => ?_⟩
  obtain h | h | h : cr ∈ f.name ∨ cr = colon ∨ cr ∈ f.value := by simpa [HeaderField.line] using h
  · exact (isToken_byte cr (f.isToken cr h)).1 rfl
  · cases h
  · exact (f.isValue cr h).1 rfl

theorem HeaderField.isHostField_iff (f : HeaderField) {value : Bytes} :
    IsHostField f.line value ↔ f.IsHost ∧ trim f.value = value := by
  have hcolon : colon ∉ f.name := fun h => (isToken_byte colon (f.isToken colon h)).2.1 rfl
  have htrim : trim f.name = f.name :=
    trim_of_graphic fun b hb => (isToken_byte b (f.isToken b hb)).2.2
  rw [HeaderField.line, NyaSniProxy.isHostField_iff hcolon, htrim]
  rfl

/-- The head ends where it was written to end. -/
theorem headerEnd_renderHead (hline : cr ∉ requestLine) :
    headerEnd (renderHead requestLine fields ++ body) =
      some (headText requestLine fields).length := by
  have hpieces : ∀ p ∈ fields.map HeaderField.line, p ≠ [] ∧ cr ∉ p := by
    simpa using fun f _ => f.line_pieces
  rw [renderHead_eq, List.append_assoc]
  exact Search.find_double (by decide) hline hpieces

/-- The lines of the head are the ones it was written from. -/
theorem splitOn_headText (hline : cr ∉ requestLine) :
    Search.splitOn crlf (headText requestLine fields) =
      requestLine :: fields.map HeaderField.line :=
  Search.splitOn_join hline (by simpa using fun f _ => f.line_pieces.2)

theorem take_renderHead : (renderHead requestLine fields ++ body).take
    (headText requestLine fields).length = headText requestLine fields := by
  rw [renderHead_eq, List.append_assoc, List.take_left]

theorem namesHost_renderHead (hline : cr ∉ requestLine) {value : Bytes} :
    NamesHost (renderHead requestLine fields ++ body) value ↔
      FirstHostField (fields.map HeaderField.line) value := by
  unfold NamesHost
  rw [headerEnd_renderHead hline]
  constructor
  · rintro ⟨stop, hstop, h⟩
    obtain rfl := Option.some.inj hstop
    rwa [take_renderHead, splitOn_headText hline] at h
  · intro h
    refine ⟨_, rfl, ?_⟩
    rwa [take_renderHead, splitOn_headText hline]

theorem headIsUtf8_renderHead (hline : cr ∉ requestLine)
    (hutf8 : IsUtf8 (headText requestLine fields)) :
    HeadIsUtf8 (renderHead requestLine fields ++ body) := by
  refine ⟨_, headerEnd_renderHead hline, ?_⟩
  rwa [take_renderHead]

theorem firstHostField_of_field (hfield : field.IsHost) (hbefore : ∀ f ∈ before, ¬ f.IsHost) :
    FirstHostField ((before ++ field :: after).map HeaderField.line) (trim field.value) := by
  refine ⟨before.map HeaderField.line, field.line, after.map HeaderField.line, by simp,
    field.isHostField_iff.mpr ⟨hfield, rfl⟩, fun l hl value hvalue => ?_⟩
  obtain ⟨f, hf, rfl⟩ := List.mem_map.mp hl
  exact hbefore f hf (f.isHostField_iff.mp hvalue).1

theorem not_firstHostField (h : ∀ f ∈ fields, ¬ f.IsHost) (value : Bytes) :
    ¬ FirstHostField (fields.map HeaderField.line) value := by
  rintro ⟨before, line, after, hlines, hvalue, -⟩
  have hmem : line ∈ fields.map HeaderField.line := by simp [hlines]
  obtain ⟨f, hf, rfl⟩ := List.mem_map.mp hmem
  exact h f hf (f.isHostField_iff.mp hvalue).1

theorem parseHttpHost_field (hline : cr ∉ requestLine)
    (hutf8 : IsUtf8 (headText requestLine (before ++ field :: after))) (hfield : field.IsHost)
    (hbefore : ∀ f ∈ before, ¬ f.IsHost) :
    parseHttpHost (renderHead requestLine (before ++ field :: after) ++ body) =
      parseHostPort (trim field.value) 80 :=
  parseHttpHost_of_namesHost (headIsUtf8_renderHead hline hutf8)
    ((namesHost_renderHead hline).mpr (firstHostField_of_field hfield hbefore))

/-- A head that is not a text is refused. -/
theorem parseHttpHost_not_utf8 (hline : cr ∉ requestLine)
    (hutf8 : ¬ IsUtf8 (headText requestLine fields)) :
    parseHttpHost (renderHead requestLine fields ++ body) =
      .error (.within "HTTP header is not valid UTF-8" .parse) := by
  simp only [parseHttpHost, headerEnd_renderHead hline, take_renderHead,
    fromUtf8_eq_none.mpr hutf8]
  rfl

/-- Without a Host field there is no target. -/
theorem parseHttpHost_no_host (hline : cr ∉ requestLine) (h : ∀ f ∈ fields, ¬ f.IsHost) :
    ∃ e, parseHttpHost (renderHead requestLine fields ++ body) = .error e := by
  cases htarget : parseHttpHost (renderHead requestLine fields ++ body) with
  | error e => exact ⟨e, rfl⟩
  | ok target =>
    obtain ⟨value, hnames, -⟩ := namesHost_of_parseHttpHost htarget
    exact absurd ((namesHost_renderHead hline).mp hnames) (not_firstHostField h value)

/-- The first Host field of a head that is a text decides, whatever else the head and the body
contain. -/
theorem parseHttpHost_renderHead (requestLine : Bytes) (hline : cr ∉ requestLine)
    (fields : List HeaderField) (body : Bytes) :
    (IsUtf8 (headText requestLine fields) → ∀ before field after,
      fields = before ++ field :: after → field.IsHost → (∀ f ∈ before, ¬ f.IsHost) →
      parseHttpHost (renderHead requestLine fields ++ body) =
        parseHostPort (trim field.value) 80) ∧
    ((∀ f ∈ fields, ¬ f.IsHost) →
      ∃ e, parseHttpHost (renderHead requestLine fields ++ body) = .error e) ∧
    (¬ IsUtf8 (headText requestLine fields) →
      parseHttpHost (renderHead requestLine fields ++ body) =
        .error (.within "HTTP header is not valid UTF-8" .parse)) := by
  refine ⟨?_, parseHttpHost_no_host hline, parseHttpHost_not_utf8 hline⟩
  rintro hutf8 before field after rfl hfield hbefore
  exact parseHttpHost_field hline hutf8 hfield hbefore

end Fields

def exampleHost : HeaderField :=
  ⟨ascii "Host", ascii " example.com", by decide, List.all_eq_true.mp rfl,
    List.all_iff_forall_prop.mp rfl⟩

/-- A field with the letter é in Latin-1. -/
def latinField : HeaderField :=
  ⟨ascii "X-Name", ascii "Ren" ++ [0xE9], by decide, List.all_eq_true.mp rfl,
    List.all_iff_forall_prop.mp rfl⟩

theorem parseHttpHost_renderHead_example :
    parseHttpHost (renderHead (ascii "GET / HTTP/1.1") [exampleHost] ++ ascii "body") =
      parseHostPort (trim exampleHost.value) 80 :=
  (parseHttpHost_renderHead (ascii "GET / HTTP/1.1") (by decide) [exampleHost]
    (ascii "body")).1 (by decide) [] exampleHost [] rfl rfl (by simp)

/-- The Host field is ASCII and the request is refused. -/
theorem parseHttpHost_latin :
    (∀ b ∈ exampleHost.value, b < 128) ∧ exampleHost.IsHost ∧
      parseHttpHost (renderHead (ascii "GET / HTTP/1.1") [exampleHost, latinField]) ≠
        parseHostPort (trim exampleHost.value) 80 := by
  have hrefused := @parseHttpHost_not_utf8 (ascii "GET / HTTP/1.1") [] [exampleHost, latinField]
    (by decide) (by decide)
  rw [List.append_nil] at hrefused
  refine ⟨List.all_iff_forall_prop.mp rfl, rfl, ?_⟩
  rw [hrefused]
  decide

end NyaSniProxy
