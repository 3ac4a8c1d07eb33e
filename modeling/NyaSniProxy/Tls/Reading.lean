import NyaSniProxy.Tls.Hello

/-!
# What a buffer says

`Carries` is the nested reading of a buffer: a record, a handshake message in it, and so on down to
the first host name of the first server name extension. Every length lies within its container, and
what a container holds behind the part that is read is not looked at. The parser finds a name
exactly in the buffers that carry it, as long as it is a text and not empty.
-/

namespace NyaSniProxy

open Text Frame ClientHelloStatus

/-- The first host name of a server name list. -/
def FirstName (names host : Bytes) : Prop :=
  ∃ (before : List ServerName) (name : Vec16) (rest : Bytes),
    names = before.flatMap ServerName.encode ++ (ServerName.encode ⟨0, name⟩ ++ rest) ∧
      (∀ n ∈ before, n.nameType ≠ 0) ∧ name.1 = host

/-- The first host name of the first server name extension. -/
def FirstSni (extensions host : Bytes) : Prop :=
  ∃ (before : List Extension) (data names : Vec16) (slack rest : Bytes),
    extensions = before.flatMap Extension.encode ++ (toBeBytes 0 ++ data.encode ++ rest) ∧
      (∀ e ∈ before, e.extType ≠ 0) ∧ data.1 = names.encode ++ slack ∧ FirstName names.1 host

/-- The host name of a ClientHello body. -/
def CarriesBody (body host : Bytes) : Prop :=
  ∃ (head : Bytes) (sessionId : Vec8) (cipherSuites : Vec16) (compressionMethods : Vec8)
    (extensions : Vec16) (slack : Bytes), head.length = 34 ∧
      body = head ++ (sessionId.encode ++ (cipherSuites.encode ++ (compressionMethods.encode ++
        (extensions.encode ++ slack)))) ∧ FirstSni extensions.1 host

/-- The host name of the ClientHello in the record at the front of a buffer. -/
def Carries (buf host : Bytes) : Prop :=
  ∃ (version : UInt8 × UInt8) (fragment : Vec16) (a b c : UInt8) (body slack rest : Bytes),
    buf = record version fragment ++ rest ∧ fragment.1 = 1 :: a :: b :: c :: body ++ slack ∧
      helloLength a b c = body.length ∧ CarriesBody body host

/-! ## Carried names are found -/

theorem parseNames_of_firstName {names host : Bytes} (h : FirstName names host) :
    parseNames names = hostStatus host := by
  obtain ⟨before, name, rest, rfl, hbefore, rfl⟩ := h
  induction before with
  | nil => rw [List.flatMap_nil, List.nil_append, parseNames_encode, if_pos rfl]
  | cons n before ih =>
    obtain ⟨hn, hrest⟩ := List.forall_mem_cons.mp hbefore
    rw [List.flatMap_cons, List.append_assoc, parseNames_encode, if_neg hn, ih hrest]

theorem parseExtensions_of_firstSni {extensions host : Bytes} (h : FirstSni extensions host) :
    parseExtensions extensions = hostStatus host := by
  obtain ⟨before, data, names, slack, rest, rfl, hbefore, hdata, hname⟩ := h
  induction before with
  | nil =>
    obtain ⟨hi, lo, hv, hlen⟩ := data.encode_eq
    have hsni : parseSniExtension data.1 = hostStatus host := by
      rw [parseSniExtension, hdata, vec16_encode, parseNames_of_firstName hname]
    have htype : fromBeBytes ((0 : UInt16) >>> 8).toUInt8 (0 : UInt16).toUInt8 = 0 :=
      fromBeBytes_toUInt8 0
    rw [List.flatMap_nil, List.nil_append, hv, toBeBytes]
    simp only [List.cons_append, List.nil_append]
    rw [parseExtensions]
    simp only [htype, hlen]
    simp [hsni]
  | cons e before ih =>
    obtain ⟨he, hrest⟩ := List.forall_mem_cons.mp hbefore
    rw [List.flatMap_cons, List.append_assoc, parseExtensions_encode, if_neg he, ih hrest]

theorem parseTlsSni_of_carries {buf host : Bytes} (h : Carries buf host) :
    parseTlsSni buf = hostStatus host := by
  obtain ⟨version, fragment, a, b, c, body, slack, rest, rfl, hfragment, hlen, head, sessionId,
    cipherSuites, compressionMethods, extensions, slack', hhead, hbody, hsni⟩ := h
  have h34 : ¬ body.length < 34 := by simp [hbody, hhead]
  have hdrop : body.drop 34 = _ := hbody ▸ List.drop_left' hhead
  rw [parseTlsSni_record, hfragment]
  simp only [List.cons_append, parseRecord, hlen]
  rw [if_neg (by simp), if_neg (by simp), List.take_left, parseClientHelloBody, if_neg h34, hdrop,
    vec8_encode, vec16_encode, vec8_encode, vec16_encode, parseExtensions_of_firstSni hsni]

/-! ## Found names are carried -/

section Inversion

variable {missing truncated : String} {body host : Bytes}
  {k : Bytes → Bytes → ClientHelloStatus}

theorem vec8_eq_found (h : vec8 missing truncated body k = found host) :
    ∃ (v : Vec8) (rest : Bytes), body = v.encode ++ rest ∧ k v.1 rest = found host := by
  unfold vec8 at h
  split at h
  · next len rest =>
    split at h
    · cases h
    · next hlen =>
      obtain ⟨v, hv, hsplit⟩ := exists_vec8 (not_lt.mp hlen)
      exact ⟨v, _, hsplit, hv ▸ h⟩
  · cases h

theorem vec16_eq_found (h : vec16 missing truncated body k = found host) :
    ∃ (v : Vec16) (rest : Bytes), body = v.encode ++ rest ∧ k v.1 rest = found host := by
  unfold vec16 at h
  split at h
  · next hi lo rest =>
    dsimp only at h
    split at h
    · cases h
    · next hlen =>
      obtain ⟨v, hv, hsplit⟩ := exists_vec16 (not_lt.mp hlen)
      exact ⟨v, _, hsplit, hv ▸ h⟩
  · cases h

theorem hostStatus_eq_found {name : Bytes} (h : hostStatus name = found host) :
    name = host ∧ host ≠ [] ∧ IsUtf8 host := by
  unfold hostStatus at h
  split at h
  · next name' hu =>
    obtain rfl := fromUtf8_eq_some hu
    split at h
    · cases h
    · next hne =>
      obtain rfl := ClientHelloStatus.found.inj h
      exact ⟨rfl, hne, hu⟩
  · cases h

theorem firstName_of_parseNames {names : Bytes} (h : parseNames names = found host) :
    FirstName names host := by
  fun_induction parseNames names with
  | case1 => cases h
  | case2 nameType hi lo rest nameLen hlen => cases h
  | case3 hi lo rest nameLen hlen =>
    obtain ⟨v, hv, hsplit⟩ := exists_vec16 (not_lt.mp hlen)
    refine ⟨[], v, rest.drop nameLen, ?_, by simp, hv.trans (hostStatus_eq_found h).1⟩
    simp [ServerName.encode, hsplit, nameLen]
  | case4 nameType hi lo rest nameLen hlen htype ih =>
    obtain ⟨v, hv, hsplit⟩ := exists_vec16 (not_lt.mp hlen)
    obtain ⟨before, name, rest', hrest, hbefore, hname⟩ := ih h
    refine ⟨⟨nameType, v⟩ :: before, name, rest', ?_,
      List.forall_mem_cons.mpr ⟨htype, hbefore⟩, hname⟩
    rw [hsplit, hrest]
    simp [ServerName.encode]
  | case5 names hnil hcons => cases h

theorem firstSni_of_parseSniExtension {data : Vec16} {rest : Bytes}
    (h : parseSniExtension data.1 = found host) :
    FirstSni (toBeBytes 0 ++ data.encode ++ rest) host := by
  obtain ⟨names, slack, hdata, hnames⟩ := vec16_eq_found h
  exact ⟨[], data, names, slack, rest, rfl, by simp, hdata, firstName_of_parseNames hnames⟩

theorem FirstSni.cons (e : Extension) (he : e.extType ≠ 0) {extensions : Bytes}
    (h : FirstSni extensions host) : FirstSni (e.encode ++ extensions) host := by
  obtain ⟨before, data, names, slack, rest, rfl, hbefore, hdata⟩ := h
  refine ⟨e :: before, data, names, slack, rest, ?_, List.forall_mem_cons.mpr ⟨he, hbefore⟩, hdata⟩
  simp

theorem firstSni_of_parseExtensions {extensions : Bytes}
    (h : parseExtensions extensions = found host) : FirstSni extensions host := by
  fun_induction parseExtensions extensions with
  | case1 => cases h
  | case2 t1 t2 l1 l2 rest extLen hlen => cases h
  | case3 t1 t2 l1 l2 rest extType extLen hlen htype =>
    obtain ⟨data, hdata, hsplit⟩ := exists_vec16 (not_lt.mp hlen)
    have hbytes := toBeBytes_fromBeBytes t1 t2
    rw [show fromBeBytes t1 t2 = 0 from htype] at hbytes
    rw [← hdata] at h
    have hsni : FirstSni (toBeBytes 0 ++ data.encode ++ rest.drop extLen) host :=
      firstSni_of_parseSniExtension h
    rw [hsplit]
    rwa [show toBeBytes 0 = [t1, t2] from hbytes] at hsni
  | case4 t1 t2 l1 l2 rest extType extLen hlen htype ih =>
    obtain ⟨data, hdata, hsplit⟩ := exists_vec16 (not_lt.mp hlen)
    have hother : (fromBeBytes t1 t2).toUInt16 ≠ 0 := fun hzero =>
      htype (by simpa [toUInt16_toNat (fromBeBytes_lt t1 t2)] using congrArg UInt16.toNat hzero)
    have hcons := (ih h).cons (.other _ data hother) hother
    rwa [Extension.encode, Extension.extType, toBeBytes_fromBeBytes, Extension.data,
      List.append_assoc, ← hsplit] at hcons
  | case5 extensions hnil hcons => cases h

theorem carriesBody_of_parseClientHelloBody {body : Bytes}
    (h : parseClientHelloBody body = found host) : CarriesBody body host := by
  unfold parseClientHelloBody at h
  split at h
  · cases h
  · next hlen =>
    obtain ⟨sessionId, rest, hbody, h⟩ := vec8_eq_found h
    obtain ⟨cipherSuites, rest', rfl, hsuites⟩ := vec16_eq_found h
    obtain ⟨compressionMethods, rest, rfl, hmethods⟩ := vec8_eq_found hsuites
    obtain ⟨extensions, slack, rfl, hextensions⟩ := vec16_eq_found hmethods
    refine ⟨body.take 34, sessionId, cipherSuites, compressionMethods, extensions, slack,
      List.length_take_of_le (not_lt.mp hlen), ?_, firstSni_of_parseExtensions hextensions⟩
    rw [← hbody, List.take_append_drop]

theorem carries_of_parseTlsSni {buf : Bytes} (h : parseTlsSni buf = found host) :
    Carries buf host := by
  unfold parseTlsSni at h
  split at h
  · next contentType v1 v2 hi lo rest =>
    split_ifs at h with htype hlen
    obtain ⟨fragment, hfragment, hsplit⟩ := exists_vec16 (not_lt.mp hlen)
    rw [← hfragment] at h
    unfold parseRecord at h
    split at h
    · next msgType a b c rest' hrest =>
      split_ifs at h with hmsg hshort
      refine ⟨(v1, v2), fragment, a, b, c, rest'.take (helloLength a b c),
        rest'.drop (helloLength a b c), rest.drop (fromBeBytes hi lo), ?_, ?_, ?_,
        carriesBody_of_parseClientHelloBody h⟩
      · rw [record, not_not.mp htype, hsplit]
        rfl
      · rw [hrest, not_not.mp hmsg]
        simp
      · exact (List.length_take_of_le (not_lt.mp hshort)).symm
    · cases h
  · cases h

end Inversion

/-- The names the parser finds are the texts, not empty, that a buffer carries. -/
theorem parseTlsSni_eq_found_iff {buf host : Bytes} :
    parseTlsSni buf = found host ↔ Carries buf host ∧ host ≠ [] ∧ IsUtf8 host := by
  constructor
  · intro h
    have hcarries := carries_of_parseTlsSni h
    exact ⟨hcarries, (hostStatus_eq_found ((parseTlsSni_of_carries hcarries).symm.trans h)).2⟩
  · rintro ⟨hcarries, hne, hutf8⟩
    rw [parseTlsSni_of_carries hcarries, hostStatus_of_utf8 hne hutf8]

/-! ## Encode and parse -/

theorem parseTlsSni_message (version : UInt8 × UInt8) (hello : ClientHello)
    (hfits : hello.message.length < 65536) (rest : Bytes) :
    parseTlsSni (record version ⟨hello.message, hfits⟩ ++ rest) = hello.verdict := by
  have hmessage := parseRecord_message hello []
  rw [List.append_nil] at hmessage
  rw [parseTlsSni_record, hmessage]

theorem parseTlsSni_hello {hello : ClientHello} {host : Bytes} (version : UInt8 × UInt8)
    (hfits : hello.message.length < 65536) (hhost : hello.hostName = some host) (hne : host ≠ [])
    (hutf8 : IsUtf8 host) : parseTlsSni (record version ⟨hello.message, hfits⟩) = found host := by
  have h := parseTlsSni_message version hello hfits []
  rw [List.append_nil] at h
  rw [h, verdict_of_hostName hhost, hostStatus_of_utf8 hne hutf8]

theorem hostStatus_of_not_text {host : Bytes} (h : host = [] ∨ ¬ IsUtf8 host) :
    hostStatus host = invalid "invalid SNI hostname" := by
  unfold hostStatus
  split
  · next name hname =>
    obtain rfl := fromUtf8_eq_some hname
    obtain hnil | hutf8 := h
    · rw [if_pos hnil]
    · exact absurd hname hutf8
  · rfl

theorem verdictNames_of_no_host {names : List ServerName} (h : ∀ n ∈ names, n.nameType ≠ 0) :
    ClientHello.verdictNames names = invalid "DNS SNI name not found" := by
  have hfind : names.find? (·.nameType = 0) = none := List.find?_eq_none.mpr (by simpa using h)
  rw [ClientHello.verdictNames, hfind]

/-- The parser finds the host name of an encoded message whatever follows the record, it refuses a
message without a name that is a text, and whatever it finds in any buffer is carried there. -/
theorem parseTlsSni_decodes (version : UInt8 × UInt8) (hello : ClientHello)
    (hfits : hello.message.length < 65536) (rest buf host : Bytes) :
    (hello.hostName = some host → host ≠ [] → IsUtf8 host →
      parseTlsSni (record version ⟨hello.message, hfits⟩ ++ rest) = found host) ∧
    ((hello.serverNames = none ∨
        (∃ names, hello.serverNames = some names ∧ ∀ n ∈ names, n.nameType ≠ 0) ∨
        (hello.hostName = some host ∧ (host = [] ∨ ¬ IsUtf8 host))) →
      ∃ reason, parseTlsSni (record version ⟨hello.message, hfits⟩ ++ rest) = invalid reason) ∧
    (parseTlsSni buf = found host → Carries buf host) := by
  rw [parseTlsSni_message]
  refine ⟨?_, ?_, carries_of_parseTlsSni⟩
  · intro hname hne hutf8
    rw [verdict_of_hostName hname, hostStatus_of_utf8 hne hutf8]
  · rintro (hnone | ⟨names, hnames, hother⟩ | ⟨hname, htext⟩)
    · exact ⟨_, by rw [ClientHello.verdict, hnone]⟩
    · exact ⟨_, by rw [ClientHello.verdict, hnames]; exact verdictNames_of_no_host hother⟩
    · exact ⟨_, by rw [verdict_of_hostName hname]; exact hostStatus_of_not_text htext⟩

theorem parseTlsSni_decodes_example :
    parseTlsSni (record (3, 1) ⟨exampleHello.message, by decide⟩ ++ ascii "early") =
      found (ascii "example.com") :=
  (parseTlsSni_decodes (3, 1) exampleHello (by decide) (ascii "early") [] (ascii "example.com")).1
    (hostName_syntheticClientHello (ascii "example.com") (by decide)) (by decide) (by decide)

end NyaSniProxy
