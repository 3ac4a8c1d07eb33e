import NyaSniProxy.Connection.Target
import NyaSniProxy.Proxy.Tunnel
import NyaSniProxy.Library.Lines

/-!
# CONNECT requests of clients

A client chooses the authority of the CONNECT request, as the target is what it names.
`WellFormedRequest` is what a proxy should receive: four or five lines, however it breaks lines, and
nothing behind the empty one. The request is well-formed exactly if the host named by the client has
no space and no control character, and neither parser checks that.
-/

namespace NyaSniProxy

open Text Interaction Wire

/-- One CONNECT request: its lines, cut at every line break, with the empty line at the end only. -/
def WellFormedRequest (request : Bytes) : Prop :=
  ∃ (authority : Bytes) (auth : Option Bytes), Clean authority ∧
    Lines.cut request =
      [ascii "CONNECT " ++ authority ++ ascii " HTTP/1.1", ascii "Host: " ++ authority,
        ascii "Proxy-Connection: Keep-Alive"] ++
      (auth.map (ascii "Proxy-Authorization: Basic " ++ ·)).toList ++ [[], []]

namespace ProxyConfig

variable (self : ProxyConfig) (target : Target)

def requestLine : Bytes := ascii "CONNECT " ++ formatTarget target ++ ascii " HTTP/1.1"
def hostLine : Bytes := ascii "Host: " ++ formatTarget target

/-- The Base64 text has no line break. -/
theorem cut_authLine {auth : Bytes} (h : self.basicAuthHeader = some auth) :
    Lines.cut (ascii "Proxy-Authorization: Basic " ++ auth) =
      [ascii "Proxy-Authorization: Basic " ++ auth] := by
  obtain ⟨username, -, rfl⟩ := Option.map_eq_some_iff.mp h
  have hbreak (b : UInt8) (hb : b < 33) :
      b ∉ Base64.encode (username ++ colon :: self.password.getD []) := fun hmem =>
    absurd (Base64.encode_visible _ b hmem).1 (UInt8.not_le.mpr hb)
  apply Lines.cut_of_not_mem
  · exact List.not_mem_append (by decide) (hbreak cr (by decide))
  · exact List.not_mem_append (by decide) (hbreak lf (by decide))

/-- The lines of a request, before the two that hold the authority are cut. -/
theorem cut_connectRequest :
    Lines.cut (self.connectRequest target) =
      Lines.cut (requestLine target) ++ (Lines.cut (hostLine target) ++
        (ascii "Proxy-Connection: Keep-Alive" ::
          ((self.basicAuthHeader.map (ascii "Proxy-Authorization: Basic " ++ ·)).toList ++
            [[], []]))) := by
  have hkeep : Lines.cut (ascii "Proxy-Connection: Keep-Alive") =
      [ascii "Proxy-Connection: Keep-Alive"] :=
    Lines.cut_of_not_mem (by decide) (by decide)
  have hsplit (tail : Bytes) : ascii "CONNECT " ++ formatTarget target ++ ascii " HTTP/1.1" ++
      crlf ++ ascii "Host: " ++ formatTarget target ++ crlf ++
      ascii "Proxy-Connection: Keep-Alive" ++ crlf ++ tail ++ crlf =
      requestLine target ++ 13 :: 10 :: (hostLine target ++ 13 :: 10 ::
        (ascii "Proxy-Connection: Keep-Alive" ++ 13 :: 10 :: (tail ++ 13 :: 10 :: []))) := by
    simp [requestLine, hostLine]
  unfold connectRequest
  cases hauth : self.basicAuthHeader with
  | none =>
    dsimp only
    rw [hsplit, Lines.cut_append, Lines.cut_append, Lines.cut_append, hkeep, Lines.cut_append]
    rfl
  | some auth =>
    have hline : ascii "Proxy-Authorization: Basic " ++ auth ++ crlf ++ 13 :: 10 :: [] =
        (ascii "Proxy-Authorization: Basic " ++ auth) ++ 13 :: 10 :: ([] ++ 13 :: 10 :: []) := by
      simp
    dsimp only
    rw [hsplit, Lines.cut_append, Lines.cut_append, Lines.cut_append, hkeep, hline,
      Lines.cut_append, self.cut_authLine hauth, Lines.cut_append]
    rfl

end ProxyConfig

theorem mem_requestLine {target : Target} {b : UInt8} (h : b ∈ formatTarget target) :
    b ∈ ProxyConfig.requestLine target ∧ b ∈ ProxyConfig.hostLine target := by
  simp [ProxyConfig.requestLine, ProxyConfig.hostLine, h]

/-- A line break of the authority is in two lines, so the request gets two lines too many. -/
theorem not_mem_break_of_wellFormed {proxy : ProxyConfig} {target : Target}
    (h : WellFormedRequest (proxy.connectRequest target)) :
    cr ∉ formatTarget target ∧ lf ∉ formatTarget target := by
  obtain ⟨authority, auth, -, hlines⟩ := h
  rw [proxy.cut_connectRequest] at hlines
  by_contra hbreak
  have hline : cr ∈ formatTarget target ∨ lf ∈ formatTarget target := by grind
  have hfirst := Lines.two_le_length_cut (hline.imp (fun h => (mem_requestLine h).1)
    fun h => (mem_requestLine h).1)
  have hsecond := Lines.two_le_length_cut (hline.imp (fun h => (mem_requestLine h).2)
    fun h => (mem_requestLine h).2)
  have hlength := congrArg List.length hlines
  have hauth : (auth.map (ascii "Proxy-Authorization: Basic " ++ ·)).toList.length ≤ 1 := by
    cases auth <;> simp
  simp only [List.length_append, List.length_cons, List.length_nil] at hlength
  omega

theorem cut_authority {target : Target} (hcr : cr ∉ formatTarget target)
    (hlf : lf ∉ formatTarget target) :
    Lines.cut (ProxyConfig.requestLine target) = [ProxyConfig.requestLine target] ∧
      Lines.cut (ProxyConfig.hostLine target) = [ProxyConfig.hostLine target] := by
  constructor
  · apply Lines.cut_of_not_mem
    · exact List.not_mem_append (List.not_mem_append (by decide) hcr) (by decide)
    · exact List.not_mem_append (List.not_mem_append (by decide) hlf) (by decide)
  · apply Lines.cut_of_not_mem
    · exact List.not_mem_append (by decide) hcr
    · exact List.not_mem_append (by decide) hlf

theorem wellFormedRequest_iff {proxy : ProxyConfig} {target : Target} :
    WellFormedRequest (proxy.connectRequest target) ↔ Clean target.host := by
  rw [← clean_formatTarget]
  constructor
  · intro h
    obtain ⟨hcr, hlf⟩ := not_mem_break_of_wellFormed h
    obtain ⟨hrequest, hhost⟩ := cut_authority hcr hlf
    obtain ⟨authority, auth, hclean, hlines⟩ := h
    rw [proxy.cut_connectRequest, hrequest, hhost] at hlines
    have hline : ProxyConfig.requestLine target =
        ascii "CONNECT " ++ authority ++ ascii " HTTP/1.1" := (List.cons.inj hlines).1
    rw [ProxyConfig.requestLine, List.append_left_inj, List.append_right_inj] at hline
    rwa [hline]
  · intro h
    have hbreak (b : UInt8) (hb : isControl b = true) : b ∉ formatTarget target := fun hmem => by
      have := (h b hmem).2
      rw [hb] at this
      cases this
    obtain ⟨hrequest, hhost⟩ := cut_authority (hbreak cr (by decide)) (hbreak lf (by decide))
    refine ⟨formatTarget target, proxy.basicAuthHeader, h, ?_⟩
    rw [proxy.cut_connectRequest, hrequest, hhost]
    simp [ProxyConfig.requestLine, ProxyConfig.hostLine]

/-! ## Runs -/

/-- A run of `http_connect` writes the request, or a first part of it. -/
theorem httpConnect_written {faulty : Prop} {proxy : ProxyConfig} {target : Target} {w w' : Wire}
    {p : Io Bytes} (h : Reaches (Answer faulty) (proxy.httpConnect target, w) (p, w')) :
    ∃ part, part <+: proxy.connectRequest target ∧
      w'.written .upstream = w.written .upstream ++ part ∧
      (∀ leftover, p = .ret leftover → part = proxy.connectRequest target) := by
  let Written (handed : Bytes) (w' : Wire) : Prop :=
    w'.written .upstream = w.written .upstream ++ handed
  have hwp : wp (Answer faulty)
      (fun _ w' => ∃ part, part <+: proxy.connectRequest target ∧ Written part w')
      (proxy.httpConnect target)
      (fun r w' => ∀ leftover, r = .ok leftover → Written (proxy.connectRequest target) w') w :=
    wp_httpConnect (fun c received handed w' hx hp _ => ⟨handed, hp, hx.written⟩)
      (fun received stop w' hx _ leftover _ => hx.written)
      fun e received handed w' hx hp leftover => nofun
  have hnow := hwp.reaches h
  obtain ⟨part, hp, hpart⟩ := hnow.invariant
  refine ⟨part, hp, hpart, ?_⟩
  rintro leftover rfl
  have hwhole := hnow.2 leftover rfl
  exact List.append_cancel_left (hpart.symm.trans hwhole)

/-- The request for the target that was read from a client is one well-formed request exactly if the
host the client names has no space and no control character. -/
theorem connectRequest_wellFormed_iff {faulty : Prop} {protocol : InboundProtocol}
    {target : Target} {initial : Bytes} {w w' : Wire} (proxy : ProxyConfig)
    (h : Ends (Answer faulty) (readTarget protocol) w (.ok (target, initial)) w') :
    (∀ u u' p, Reaches (Answer faulty) (proxy.httpConnect target, u) (p, u') →
      ∃ part, part <+: proxy.connectRequest target ∧
        u'.written .upstream = u.written .upstream ++ part ∧
        (∀ leftover, p = .ret leftover → part = proxy.connectRequest target)) ∧
    (WellFormedRequest (proxy.connectRequest target) ↔
      ∃ name, Names (w.remaining .inbound) name protocol ∧ Clean name) := by
  refine ⟨fun u u' p => httpConnect_written, wellFormedRequest_iff.trans ?_⟩
  obtain ⟨hstream, hparsed⟩ := readTarget_ends h
  obtain ⟨name, hname, hclean⟩ := names_of_parsed hparsed (w'.remaining .inbound)
  rw [hstream]
  constructor
  · intro hhost
    exact ⟨name, hname, hclean.mpr hhost⟩
  · rintro ⟨name', hname', hclean'⟩
    exact hclean.mp (hname'.unique hname ▸ hclean')

theorem connectRequest_example :
    WellFormedRequest (plainHttpProxy.connectRequest ⟨ascii "example.com", 443⟩) := by
  have hu : IsUtf8 (ascii "example.com") := by decide
  have h := readTarget_helloRecord (ascii "example.com") (by decide) False (by decide) hu
  have hnames := parseTlsSni_eq_found_iff.mp
    (parseTlsSni_helloRecord (ascii "example.com") (by decide) (by decide) hu)
  exact (connectRequest_wellFormed_iff plainHttpProxy h).2.mpr
    ⟨ascii "example.com", hnames, by decide⟩

/-- A host name with a line break adds a line to the request, whatever the proxy. -/
theorem connectRequest_injected :
    ∃ (client initial : Bytes) (target : Target) (w' : Wire),
      Ends (Answer False) (readTarget .https) (.fresh client) (.ok (target, initial)) w' ∧
        ∀ proxy : ProxyConfig, ¬ WellFormedRequest (proxy.connectRequest target) := by
  let host := ascii "example.com:443 HTTP/1.1\r\nX-Injected: yes\r\nX-Rest: "
  refine ⟨_, _, _, _, readTarget_helloRecord host (by decide) False (by decide) (by decide),
    fun proxy hw => ?_⟩
  exact absurd (wellFormedRequest_iff.mp hw) (by decide)

end NyaSniProxy
