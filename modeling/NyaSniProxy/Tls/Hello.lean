import NyaSniProxy.Tls
import NyaSniProxy.Library.Frame

/-!
# ClientHello messages

`ClientHello` is a ClientHello by its parts, and `message` is its encoding as a handshake message.
Every length fits its field by construction. `verdict` is what the server name extension of the
message says; the parser finds it, for every message in a single record and whatever follows.

A message may also be cut into several records. The parser only looks at the first one, so it never
finds the name of a message that is cut.
-/

namespace NyaSniProxy

open Text Frame ClientHelloStatus

structure ServerName where
  nameType : UInt8
  name : Vec16

def ServerName.encode (self : ServerName) : Bytes := self.nameType :: self.name.encode

/-- An extension: a list of server names, or anything else. -/
inductive Extension where
  | serverName (names : List ServerName) (fits : (names.flatMap ServerName.encode).length < 65534)
  | other (extType : UInt16) (data : Vec16) (isOther : extType ≠ 0)

namespace Extension

def extType : Extension → UInt16
  | serverName .. => 0
  | other extType .. => extType

def data : Extension → Vec16
  | serverName names fits =>
    ⟨Vec16.encode ⟨names.flatMap ServerName.encode, by omega⟩,
      (Vec16.length_encode _).trans_lt (Nat.add_lt_of_lt_sub fits)⟩
  | other _ data _ => data

def encode (self : Extension) : Bytes := toBeBytes self.extType ++ self.data.encode

end Extension

/-- `head` is the version and the random bytes. -/
structure ClientHello where
  head : Bytes
  sessionId : Vec8
  cipherSuites : Vec16
  compressionMethods : Vec8
  extensions : List Extension
  head_length : head.length = 34
  fits : (extensions.flatMap Extension.encode).length < 65536

namespace ClientHello

def body (self : ClientHello) : Bytes :=
  self.head ++ (self.sessionId.encode ++ (self.cipherSuites.encode ++
    (self.compressionMethods.encode ++
      Vec16.encode ⟨self.extensions.flatMap Extension.encode, self.fits⟩)))

/-- The handshake message. -/
def message (self : ClientHello) : Bytes :=
  let n := self.body.length
  1 :: (n / 65536).toUInt8 :: (n / 256).toUInt8 :: n.toUInt8 :: self.body

/-- The names of the first server name extension. -/
def serverNames (self : ClientHello) : Option (List ServerName) :=
  self.extensions.findSome? fun
    | .serverName names _ => some names
    | .other .. => none

/-- The first host name of the first server name extension. -/
def hostName (self : ClientHello) : Option Bytes :=
  self.serverNames.bind fun names => (names.find? (·.nameType = 0)).map (·.name.1)

def verdictNames (names : List ServerName) : ClientHelloStatus :=
  match names.find? (·.nameType = 0) with
  | some n => hostStatus n.name.1
  | none => invalid "DNS SNI name not found"

/-- What the parser says about the message. -/
def verdict (self : ClientHello) : ClientHelloStatus :=
  match self.serverNames with
  | some names => verdictNames names
  | none => invalid "TLS SNI extension not found"

end ClientHello

/-- A ClientHello with one extension, for one host. -/
def syntheticClientHello (host : Bytes) (h : host.length < 1000) : ClientHello where
  head := [3, 3] ++ List.replicate 32 0
  sessionId := ⟨[], by decide⟩
  cipherSuites := ⟨[0x13, 0x01], by decide⟩
  compressionMethods := ⟨[0], by decide⟩
  extensions := [.serverName [⟨0, host, h.trans (by decide)⟩] (by
    simp [ServerName.encode]
    omega)]
  head_length := by simp
  fits := by
    simp [Extension.encode, Extension.data, ServerName.encode, toBeBytes]
    omega

theorem hostName_syntheticClientHello (host : Bytes) (h : host.length < 1000) :
    (syntheticClientHello host h).hostName = some host := rfl

theorem length_syntheticClientHello (host : Bytes) (h : host.length < 1000) :
    (syntheticClientHello host h).message.length = host.length + 56 := by
  simp [ClientHello.message, ClientHello.body, syntheticClientHello, Extension.encode,
    Extension.data, ServerName.encode, toBeBytes]
  omega

/-- A handshake record. -/
def record (version : UInt8 × UInt8) (fragment : Vec16) : Bytes :=
  22 :: version.1 :: version.2 :: fragment.encode

/-! ## Reading encodings -/

theorem vec8_encode (v : Vec8) (rest : Bytes) (missing truncated : String)
    (k : Bytes → Bytes → ClientHelloStatus) :
    vec8 missing truncated (v.encode ++ rest) k = k v.1 rest := by
  simp [vec8, Vec8.encode, v.length_toNat]

theorem vec16_encode (v : Vec16) (rest : Bytes) (missing truncated : String)
    (k : Bytes → Bytes → ClientHelloStatus) :
    vec16 missing truncated (v.encode ++ rest) k = k v.1 rest := by
  obtain ⟨hi, lo, hv, hlen⟩ := v.encode_eq
  simp [vec16, hv, hlen]

theorem parseNames_encode (n : ServerName) (rest : Bytes) :
    parseNames (n.encode ++ rest) =
      if n.nameType = 0 then hostStatus n.name.1 else parseNames rest := by
  obtain ⟨hi, lo, hv, hlen⟩ := n.name.encode_eq
  rw [ServerName.encode, hv, List.cons_append, List.cons_append, List.cons_append, parseNames]
  simp [hlen]

theorem parseNames_verdict (names : List ServerName) :
    parseNames (names.flatMap ServerName.encode) = ClientHello.verdictNames names := by
  induction names with
  | nil => rw [List.flatMap_nil, parseNames]; rfl
  | cons n names ih =>
    rw [List.flatMap_cons, parseNames_encode, ih]
    by_cases hn : n.nameType = 0 <;> simp [ClientHello.verdictNames, hn]

theorem parseExtensions_encode (e : Extension) (rest : Bytes) :
    parseExtensions (e.encode ++ rest) =
      if e.extType = 0 then parseSniExtension e.data.1 else parseExtensions rest := by
  have htype : e.extType.toNat = 0 ↔ e.extType = 0 := by
    rw [← UInt16.toNat_inj]
    rfl
  obtain ⟨hi, lo, hv, hlen⟩ := e.data.encode_eq
  rw [Extension.encode, hv, toBeBytes]
  simp only [List.cons_append, List.nil_append]
  rw [parseExtensions]
  simp [fromBeBytes_toUInt8, hlen, htype]

theorem parseExtensions_verdict (hello : ClientHello) :
    parseExtensions (hello.extensions.flatMap Extension.encode) = hello.verdict := by
  unfold ClientHello.verdict ClientHello.serverNames
  generalize hello.extensions = extensions
  induction extensions with
  | nil => rw [List.flatMap_nil, parseExtensions]; rfl
  | cons e extensions ih =>
    rw [List.flatMap_cons, parseExtensions_encode, ih]
    cases e with
    | serverName names fits =>
      have hdata := vec16_encode ⟨names.flatMap ServerName.encode, by omega⟩ []
        "truncated SNI extension" "truncated SNI list" fun names _ => parseNames names
      rw [List.append_nil] at hdata
      simp [Extension.extType, Extension.data, parseSniExtension, hdata, parseNames_verdict]
    | other extType data isOther => simp [Extension.extType, isOther]

theorem parseClientHelloBody_verdict (hello : ClientHello) :
    parseClientHelloBody hello.body = hello.verdict := by
  have hlen : ¬ hello.body.length < 34 := by
    simp [ClientHello.body, hello.head_length]
  have hdrop : hello.body.drop 34 = _ := List.drop_left' hello.head_length
  rw [parseClientHelloBody, if_neg hlen, hdrop, vec8_encode, vec16_encode, vec8_encode,
    ← List.append_nil (Vec16.encode _), vec16_encode, parseExtensions_verdict]

theorem length_body_lt (hello : ClientHello) : hello.body.length < 16777216 := by
  have h8 := hello.sessionId.2
  have h16 := hello.cipherSuites.2
  have h8' := hello.compressionMethods.2
  have h16' := hello.fits
  simp only [ClientHello.body, List.length_append, hello.head_length, Vec8.length_encode,
    Vec16.length_encode]
  omega

/-- A length of three bytes is read back from its bytes. -/
theorem helloLength_toUInt8 {n : Nat} (h : n < 16777216) :
    helloLength (n / 65536).toUInt8 (n / 256).toUInt8 n.toUInt8 = n := by
  simp [helloLength]
  omega

theorem parseRecord_message (hello : ClientHello) (rest : Bytes) :
    parseRecord (hello.message ++ rest) = hello.verdict := by
  have hlen := helloLength_toUInt8 (length_body_lt hello)
  simp only [ClientHello.message, List.cons_append, parseRecord, hlen]
  simp [parseClientHelloBody_verdict]

theorem parseTlsSni_record (version : UInt8 × UInt8) (fragment : Vec16) (rest : Bytes) :
    parseTlsSni (record version fragment ++ rest) = parseRecord fragment.1 := by
  obtain ⟨hi, lo, hv, hlen⟩ := fragment.encode_eq
  simp [record, hv, parseTlsSni, hlen]

theorem verdict_of_hostName {hello : ClientHello} {host : Bytes}
    (h : hello.hostName = some host) : hello.verdict = hostStatus host := by
  obtain ⟨names, hnames, hfind⟩ := Option.bind_eq_some_iff.mp h
  obtain ⟨n, hn, rfl⟩ := Option.map_eq_some_iff.mp hfind
  simp [ClientHello.verdict, hnames, ClientHello.verdictNames, hn]

theorem hostStatus_of_utf8 {host : Bytes} (hne : host ≠ []) (hu : IsUtf8 host) :
    hostStatus host = found host := by
  unfold hostStatus
  rw [hu]
  simp [hne]

/-! ## Several records -/

/-- A record that ends before the message does gives no name. -/
theorem parseRecord_of_proper {hello : ClientHello} {part rest : Bytes} {host : Bytes}
    (h : hello.message = part ++ rest) (hrest : rest ≠ []) : parseRecord part ≠ found host := by
  have hpos := List.length_pos_of_ne_nil hrest
  have hlen := helloLength_toUInt8 (length_body_lt hello)
  have htotal : hello.body.length + 4 = part.length + rest.length := by
    simpa [ClientHello.message] using congrArg List.length h
  match part, h, htotal with
  | msgType :: a :: b :: c :: part, h, htotal =>
    simp only [ClientHello.message, List.cons_append, List.cons.injEq] at h
    obtain ⟨rfl, rfl, rfl, rfl, -⟩ := h
    have hshort : part.length < hello.body.length := by
      simp only [List.length_cons] at htotal
      omega
    simp [parseRecord, hlen, hshort]
  | [], _, _ | [_], _, _ | [_, _], _, _ | [_, _, _], _, _ => simp [parseRecord]

/-- The parser finds the host name of a message exactly if the message is in one record. -/
theorem parseTlsSni_fragments {hello : ClientHello} {host : Bytes}
    {fragments : List ((UInt8 × UInt8) × Vec16)} (hhost : hello.hostName = some host)
    (hne : host ≠ []) (hutf8 : IsUtf8 host) (hfragments : ∀ f ∈ fragments, f.2.1 ≠ [])
    (hjoin : fragments.flatMap (fun f => f.2.1) = hello.message) :
    parseTlsSni (fragments.flatMap fun f => record f.1 f.2) = found host ↔
      fragments.length = 1 := by
  cases fragments with
  | nil => simp [ClientHello.message] at hjoin
  | cons f fragments =>
    rw [List.flatMap_cons] at hjoin ⊢
    rw [parseTlsSni_record]
    cases fragments with
    | nil =>
      rw [List.flatMap_nil, List.append_nil] at hjoin
      have hfound := parseRecord_message hello []
      rw [List.append_nil, verdict_of_hostName hhost, hostStatus_of_utf8 hne hutf8] at hfound
      simp [hjoin, hfound]
    | cons g fragments =>
      have hg : g.2.1 ≠ [] := hfragments g (by simp)
      have hrest : (g :: fragments).flatMap (fun f => f.2.1) ≠ [] := by simp [hg]
      simp [parseRecord_of_proper hjoin.symm hrest]

/-- The message for `example.com`. -/
def exampleHello : ClientHello := syntheticClientHello (ascii "example.com") (by decide)

theorem parseTlsSni_one_record :
    parseTlsSni (record (3, 1) ⟨exampleHello.message, by decide⟩) =
      found (ascii "example.com") := by
  let fragments : List ((UInt8 × UInt8) × Vec16) := [((3, 1), ⟨exampleHello.message, by decide⟩)]
  have h : parseTlsSni (fragments.flatMap fun f => record f.1 f.2) = found (ascii "example.com") :=
    (parseTlsSni_fragments (hostName_syntheticClientHello (ascii "example.com") (by decide))
      (by decide) (by decide) (by decide) (List.append_nil _)).mpr rfl
  simpa [fragments] using h

/-- In two records the message is no longer read. -/
theorem parseTlsSni_two_records :
    let first : Vec16 := ⟨exampleHello.message.take 40, by decide⟩
    let second : Vec16 := ⟨exampleHello.message.drop 40, by decide⟩
    exampleHello.hostName = some (ascii "example.com") ∧ IsUtf8 (ascii "example.com") ∧
      first.1 ≠ [] ∧ second.1 ≠ [] ∧ first.1 ++ second.1 = exampleHello.message ∧
      (record (3, 1) first ++ record (3, 1) second).length ≤ maxClientHello ∧
      parseTlsSni (record (3, 1) first ++ record (3, 1) second) = needMore := by
  refine ⟨rfl, by decide, by decide, by decide, by decide, by decide, by decide⟩

end NyaSniProxy
