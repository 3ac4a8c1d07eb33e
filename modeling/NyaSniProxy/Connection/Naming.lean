import NyaSniProxy.Http.Fields
import NyaSniProxy.Router.Lookup
import NyaSniProxy.Target.Grammar
import NyaSniProxy.Tls.Reading

/-!
# One name, two protocols

A client may write a configured name in another letter case and with dots behind it, and in a Host
field also with a port. However it does, an HTTP head and a ClientHello give targets with the same
host, and both are routed by the rule of that name.
-/

namespace NyaSniProxy

open Text ClientHelloStatus

/-- Another letter case, and any number of dots at the end. -/
def Spells (w name : Bytes) : Prop :=
  ∃ v n, eqIgnoreAsciiCase v name = true ∧ w = v ++ List.replicate n dot

/-- What may follow the name in a Host field, and the port it gives. -/
inductive PortText : Bytes → UInt16 → Prop where
  | absent : PortText [] 80
  | given {digits} : IsPort digits → PortText (colon :: digits) (digitsValue digits).toUInt16

/-- The bytes of hostnames. -/
def isHostByte (b : UInt8) : Bool := isAsciiAlphanumeric b || b == 45 || b == dot

section Spelling

variable {name v w d : Bytes} {port : UInt16}

theorem isHostByte_lower : ∀ b, isHostByte (lower b) = isHostByte b :=
  forall_byte (by decide +kernel)

theorem isHostByte_facts :
    ∀ b, isHostByte b = true → b ≠ colon ∧ b ≠ openBracket ∧ b < 128 :=
  forall_byte (by decide +kernel)

theorem isHostByte_of_hostname (h : isValidHostname name = true) :
    ∀ b ∈ name, isHostByte b = true := by
  intro b hb
  obtain hb | rfl | rfl := isValidHostname_byte h b hb
  · simp [isHostByte, hb]
  · rfl
  · rfl

/-- Letter case does not make other bytes of them. -/
theorem isHostByte_of_eqIgnoreAsciiCase (h : eqIgnoreAsciiCase v name = true)
    (hname : ∀ b ∈ name, isHostByte b = true) : ∀ b ∈ v, isHostByte b = true := by
  intro b hb
  have hlower : lower b ∈ toAsciiLowercase name := by
    rw [← eqIgnoreAsciiCase_iff.mp h]
    exact List.mem_map_of_mem hb
  obtain ⟨c, hc, heq⟩ := List.mem_map.mp hlower
  rw [← isHostByte_lower b, ← heq, isHostByte_lower c]
  exact hname c hc

theorem Spells.isHostByte (h : Spells w name) (hname : isValidHostname name = true) :
    ∀ b ∈ w, isHostByte b = true := by
  obtain ⟨v, n, hv, rfl⟩ := h
  have hdot : ∀ b ∈ List.replicate n dot, NyaSniProxy.isHostByte b = true := by
    intro b hb
    rw [List.eq_of_mem_replicate hb]
    rfl
  exact List.forall_mem_append.mpr
    ⟨isHostByte_of_eqIgnoreAsciiCase hv (isHostByte_of_hostname hname), hdot⟩

theorem Spells.ne_nil (h : Spells w name) (hname : isValidHostname name = true) : w ≠ [] := by
  obtain ⟨v, n, hv, rfl⟩ := h
  have hlen := congrArg List.length (eqIgnoreAsciiCase_iff.mp hv)
  have hpos := List.length_pos_of_ne_nil (isValidHostname_ne_nil hname)
  simp only [length_toAsciiLowercase] at hlen
  exact List.append_ne_nil_of_left_ne_nil (List.ne_nil_of_length_pos (hlen ▸ hpos)) _

/-- A hostname does not end in a dot, in no letter case. -/
theorem Spells.lookup_key (h : Spells w name) (hname : isValidHostname name = true) :
    toAsciiLowercase (trimEndMatches dot w) = toAsciiLowercase name := by
  obtain ⟨v, n, hv, rfl⟩ := h
  have hlower := eqIgnoreAsciiCase_iff.mp hv
  rw [trimEndMatches_append_replicate, trimEndMatches_of_hostname hname hlower, hlower]

theorem Spells.parseHostPort (h : Spells w name) (hname : isValidHostname name = true)
    (hd : PortText d port) : parseHostPort (w ++ d) 80 = .ok ⟨w, port⟩ := by
  have hbytes := h.isHostByte hname
  have hcolon : colon ∉ w := fun hmem => (isHostByte_facts colon (hbytes colon hmem)).1 rfl
  have hbracket : w.head? ≠ some openBracket := fun hhead =>
    (isHostByte_facts _ (hbytes _ (List.mem_of_head? hhead))).2.1 rfl
  cases hd with
  | absent =>
    rw [List.append_nil]
    exact parseHostPort_bare (h.ne_nil hname) hbracket hcolon
  | given hport => exact parseHostPort_digits hbracket hcolon hport

end Spelling

variable {parseUrl : Bytes → Option Url} {hash : Bytes → UInt64} {yaml : FileConfig}
  {runtime : Runtime}

/-- However a client spells the name of a rule, both protocols give a target with that spelling as
its host, and the target is routed by the rule. -/
theorem protocols_agree (h : Runtime.fromYaml parseUrl hash yaml = .ok runtime)
    (hd : DistinctKeys yaml) (rule : Rule) (hr : rule ∈ yaml.rules.entries)
    (hk : isDefaultKey rule.1 = false) {w d : Bytes} {port : UInt16} (hw : Spells w rule.1)
    (hport : PortText d port) :
    (∀ head, HeadIsUtf8 head → NamesHost head (w ++ d) →
      parseHttpHost head = .ok ⟨w, port⟩) ∧
    (∀ (version : UInt8 × UInt8) (hello : ClientHello) (hfits : hello.message.length < 65536)
        (rest : Bytes), hello.hostName = some w →
      let buf := record version ⟨hello.message, hfits⟩ ++ rest
      parseTlsSni buf = found w ∧
        (buf.length ≤ maxClientHello → checkClientHello buf = some (.ok (⟨w, 443⟩, buf)))) ∧
    RouteOf parseUrl yaml rule.2 (runtime.router.lookup w) := by
  have hvalid : isValidHostname rule.1 = true :=
    ((fromYaml_eq_ok.mp h).1.rules rule hr).1.resolve_left (by simpa using hk)
  refine ⟨fun head hutf8 hnames => ?_, fun version hello hfits rest hname => ?_, ?_⟩
  · rw [parseHttpHost_of_namesHost hutf8 hnames, hw.parseHostPort hvalid hport]
  · have hutf8 : IsUtf8 w := isUtf8_of_ascii fun b hb =>
      (isHostByte_facts b (hw.isHostByte hvalid b hb)).2.2
    have hfound : parseTlsSni (record version ⟨hello.message, hfits⟩ ++ rest) = found w := by
      rw [parseTlsSni_message, verdict_of_hostName hname,
        hostStatus_of_utf8 (hw.ne_nil hvalid) hutf8]
    refine ⟨hfound, fun hlen => ?_⟩
    rw [checkClientHello, if_neg (by omega), hfound]
  · exact (lookup_routeOf h hd w).1 rule (mem_rulesFor.mpr ⟨hr, hk, (hw.lookup_key hvalid).symm⟩)

theorem spells_example : Spells (ascii "EXAMPLE.com.") (ascii "Example.com") :=
  ⟨ascii "EXAMPLE.com", 1, by decide, by decide⟩

def spelledHost : HeaderField :=
  ⟨ascii "hOST", ascii "  EXAMPLE.com.:8080 ", by decide, List.all_eq_true.mp rfl,
    List.all_iff_forall_prop.mp rfl⟩

/-- A request for `EXAMPLE.com.:8080` and a ClientHello for `EXAMPLE.com.`. -/
theorem protocols_agree_example : ∃ runtime,
    Runtime.fromYaml sampleUrl (fun _ => 0) sampleYaml = .ok runtime ∧
    parseHttpHost (renderHead (ascii "GET / HTTP/1.1") [spelledHost] ++ []) =
      .ok ⟨ascii "EXAMPLE.com.", 8080⟩ ∧
    parseTlsSni (record (3, 1)
        ⟨(syntheticClientHello (ascii "EXAMPLE.com.") (by decide)).message, by decide⟩ ++ []) =
      found (ascii "EXAMPLE.com.") := by
  obtain ⟨runtime, h⟩ : ∃ r, Runtime.fromYaml sampleUrl (fun _ => 0) sampleYaml = .ok r := ⟨_, rfl⟩
  have hport : IsPort (ascii "8080") := ⟨by decide, List.all_eq_true.mp rfl, by decide⟩
  obtain ⟨hhttp, htls, -⟩ := protocols_agree h (by decide)
    ⟨ascii "Example.com", ⟨[ascii "us"], by decide, by decide⟩⟩ (by decide) (by decide)
    spells_example (.given hport)
  have hfield : FirstHostField ([spelledHost].map HeaderField.line) (trim spelledHost.value) :=
    @firstHostField_of_field [] [] spelledHost rfl (by simp)
  refine ⟨runtime, h, hhttp _ (headIsUtf8_renderHead (by decide) (by decide)) ?_,
    (htls (3, 1) _ (by decide) [] rfl).1⟩
  exact (namesHost_renderHead (by decide)).mpr hfield

end NyaSniProxy
