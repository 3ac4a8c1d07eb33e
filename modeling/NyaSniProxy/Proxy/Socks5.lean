import NyaSniProxy.Wire
import NyaSniProxy.Library.Frame

/-!
# The SOCKS5 handshake

`Accepted` reads the bytes of a server: a method reply, the reply to the credentials if they were
asked for, and a reply to the request with a bound address of any of the three kinds. The handshake
succeeds exactly on such servers, it consumes exactly these bytes, and it writes the messages of
`handshake`, which the decoders below read back.
-/

namespace NyaSniProxy

open Text Interaction Wire

/-! ## Reading the server -/

/-- The bytes behind the first `n`, if there are `n`. -/
def skip (n : Nat) (bytes : Bytes) : Option Bytes :=
  if n ≤ bytes.length then some (bytes.drop n) else none

/-- Was method 2 selected, and what follows the reply. Method 2 needs credentials, which the server
accepts next. -/
def methodReply (credentials : Bool) : Bytes → Option (Bool × Bytes)
  | ver :: method :: rest =>
    if ver = 5 ∧ method = 0 then some (false, rest)
    else if ver = 5 ∧ method = 2 ∧ credentials ∧ [1, 0] <+: rest then some (true, rest.drop 2)
    else none
  | _ => none

/-- What follows a bound address of this type and a port. -/
def boundAddress (atyp : UInt8) (bytes : Bytes) : Option Bytes :=
  if atyp = 1 then skip (4 + 2) bytes
  else if atyp = 3 then
    match bytes with
    | len :: rest => skip (len.toNat + 2) rest
    | [] => none
  else if atyp = 4 then skip (16 + 2) bytes
  else none

/-- What follows a reply with version 5, code 0 and a complete bound address and port. -/
def connectReply : Bytes → Option Bytes
  | ver :: code :: _ :: atyp :: rest =>
    if ver = 5 ∧ code = 0 then boundAddress atyp rest else none
  | _ => none

/-- Both replies. -/
def socks5Reply (credentials : Bool) (bytes : Bytes) : Option (Bool × Bytes) :=
  (methodReply credentials bytes).bind fun p => (connectReply p.2).map fun rest => (p.1, rest)

/-! ## Reading the client -/

/-- RFC 1928: version 5 and the methods on offer, method 2 only with credentials. -/
def offer (credentials : Bool) : Bytes := if credentials then [5, 2, 0, 2] else [5, 1, 0]

/-- RFC 1929: version, username and password. -/
def decodeAuth : Bytes → Option (Bytes × Bytes)
  | 1 :: ulen :: rest =>
    match rest.drop ulen.toNat with
    | plen :: password =>
      if password.length = plen.toNat then some (rest.take ulen.toNat, password) else none
    | [] => none
  | _ => none

/-- RFC 1928: a CONNECT request for a domain name. -/
def decodeRequest : Bytes → Option Target
  | 5 :: 1 :: 0 :: 3 :: len :: rest =>
    match rest.drop len.toNat with
    | [hi, lo] => some ⟨rest.take len.toNat, (fromBeBytes hi lo).toUInt16⟩
    | _ => none
  | _ => none

namespace ProxyConfig

variable (self : ProxyConfig) (target : Target)

/-- The frame that answers the selected method. -/
def authFrame (selected : Bool) : Except Error Bytes :=
  if selected then socks5Auth (self.username.getD []) (self.password.getD []) else .ok []

/-- Everything the client writes. -/
def handshake (selected : Bool) : Except Error Bytes := do
  let frame ← self.authFrame selected
  let request ← socks5Request target
  return self.socks5Greeting ++ frame ++ request

/-- The server accepts, and the texts fit their length fields. -/
def Accepted (incoming : Bytes) : Prop :=
  ∃ selected rest, socks5Reply self.username.isSome incoming = some (selected, rest) ∧
    target.host.length ≤ 255 ∧
    (selected = true → (self.username.getD []).length ≤ 255 ∧ (self.password.getD []).length ≤ 255)

end ProxyConfig

/-! ## The messages -/

theorem decodeAuth_socks5Auth {username password frame : Bytes}
    (h : ProxyConfig.socks5Auth username password = .ok frame) :
    decodeAuth frame = some (username, password) := by
  unfold ProxyConfig.socks5Auth at h
  split at h
  · cases h
  · next hfits =>
    push Not at hfits
    obtain rfl := Except.ok.inj h
    have hu : username.length.toUInt8.toNat = username.length := by
      simp
      omega
    have hp : password.length.toUInt8.toNat = password.length := by
      simp
      omega
    simp only [decodeAuth, List.cons_append, hu, List.drop_left, List.take_left, hp, if_true]

theorem decodeRequest_socks5Request {target : Target} {request : Bytes}
    (h : ProxyConfig.socks5Request target = .ok request) : decodeRequest request = some target := by
  unfold ProxyConfig.socks5Request at h
  split at h
  · cases h
  · next hfits =>
    obtain rfl := Except.ok.inj h
    have hlen : target.host.length.toUInt8.toNat = target.host.length := by
      simp
      omega
    have hport : (fromBeBytes (target.port >>> 8).toUInt8 target.port.toUInt8).toUInt16 =
        target.port := by
      rw [Frame.fromBeBytes_toUInt8]
      simp
    simp only [decodeRequest, toBeBytes, List.cons_append, List.nil_append, hlen, List.drop_left,
      List.take_left, hport]

/-! ## The replies -/

section Replies

variable {faulty : Prop} {I : Option Call → Wire → Prop} {w : Wire}

theorem eq_of_length_four {bytes : Bytes} (h : bytes.length = 4) :
    ∃ a b c d, bytes = [a, b, c, d] := by
  match bytes, h with
  | [a, b, c, d], _ => exact ⟨a, b, c, d, rfl⟩

theorem connectReply_short {bytes : Bytes} (h : bytes.length < 4) : connectReply bytes = none := by
  match bytes, h with
  | [], _ | [_], _ | [_, _], _ | [_, _, _], _ => rfl

/-- A fixed number of bytes behind the head. -/
theorem wp_skip {n : Nat} {Q : Except Error Unit → Wire → Prop}
    (hI : ∀ c bytes w', Consumes .upstream bytes w w' → I c w')
    (hok : ∀ bytes w', Consumes .upstream bytes w w' →
      skip n (w.remaining .upstream) = some (w'.remaining .upstream) → Q (.ok ()) w')
    (herr : ∀ e bytes w', Consumes .upstream bytes w w' →
      (faulty ∨ skip n (w.remaining .upstream) = none) → Q (.error e) w') :
    wp (Answer faulty) I (do let _ ← Io.readExact .upstream n []) Q w := by
  refine wp.bind (wp_readExactly hI (fun bytes w' hc hlen => ?_) fun f bytes w' hc hshort => ?_)
  · refine ⟨hI _ bytes w' hc, hok bytes w' hc ?_⟩
    rw [skip, hc.taken, if_pos (by simp [hlen]), List.drop_left' hlen]
  · refine herr _ bytes w' hc (hshort.imp_right fun h => ?_)
    rw [skip, if_neg (by omega)]

theorem wp_readSocks5Reply {Q : Except Error Unit → Wire → Prop}
    (hI : ∀ c bytes w', Consumes .upstream bytes w w' → I c w')
    (hok : ∀ bytes w', Consumes .upstream bytes w w' →
      connectReply (w.remaining .upstream) = some (w'.remaining .upstream) → Q (.ok ()) w')
    (herr : ∀ e bytes w', Consumes .upstream bytes w w' →
      (faulty ∨ connectReply (w.remaining .upstream) = none) → Q (.error e) w') :
    wp (Answer faulty) I ProxyConfig.readSocks5Reply Q w := by
  refine wp.bind (wp_readExactly hI (fun bytes w₁ hc hlen => ?_) fun f bytes w' hc hshort => ?_)
  · obtain ⟨ver, code, rsv, atyp, rfl⟩ := eq_of_length_four hlen
    have hreply : connectReply (w.remaining .upstream) =
        if ver = 5 ∧ code = 0 then boundAddress atyp (w₁.remaining .upstream) else none := by
      rw [hc.taken]
      rfl
    have hend {n : Nat} {bytes : Bytes} {w₂ : Wire} (hc : Consumes .upstream bytes w w₂)
        (h : connectReply (w.remaining .upstream) = skip n (w₂.remaining .upstream)) :
        wp (Answer faulty) I (do let _ ← Io.readExact .upstream n []) Q w₂ :=
      wp_skip (fun c bytes w' h => hI c _ w' (hc.trans h))
        (fun bytes w' hc' hs => hok _ w' (hc.trans hc') (h.trans hs))
        fun e bytes w' hc' hs => herr e _ w' (hc.trans hc') (hs.imp_right h.trans)
    have hfail {e : Error} (h : connectReply (w.remaining .upstream) = none) :
        I none w₁ ∧ Q (.error e) w₁ := ⟨hI _ _ w₁ hc, herr e _ w₁ hc (.inr h)⟩
    refine wp.bind ?_
    unfold ProxyConfig.socks5AddrLen
    by_cases hver : ver = 5
    · by_cases hcode : code = 0
      · rw [if_pos ⟨hver, hcode⟩] at hreply
        by_cases h1 : atyp = 1
        · have hskip : connectReply (w.remaining .upstream) =
              skip 6 (w₁.remaining .upstream) := by simpa [boundAddress, h1] using hreply
          simpa [hver, hcode, h1] using ⟨hI _ _ w₁ hc, hend hc hskip⟩
        by_cases h3 : atyp = 3
        · simp only [boundAddress, h3] at hreply
          simp [hver, hcode, h3]
          refine wp.bind (wp_readExactly (fun c bytes w' h => hI c _ w' (hc.trans h))
            (fun len w₂ hc₂ hlen₂ => ?_) fun f bytes w' hc' hshort => ?_)
          · obtain ⟨len, rfl⟩ := List.length_eq_one_iff.mp hlen₂
            refine ⟨hI _ _ w₂ (hc.trans hc₂), hend (hc.trans hc₂) ?_⟩
            rw [hreply, hc₂.taken]
            simp
          · refine herr _ _ w' (hc.trans hc') (hshort.imp_right fun h => ?_)
            have hnil : w₁.remaining .upstream = [] := List.length_eq_zero_iff.mp (by omega)
            simp [hreply, hnil]
        by_cases h4 : atyp = 4
        · have hskip : connectReply (w.remaining .upstream) =
              skip 18 (w₁.remaining .upstream) := by simpa [boundAddress, h4] using hreply
          simpa [hver, hcode, h4] using ⟨hI _ _ w₁ hc, hend hc hskip⟩
        · have hnone : connectReply (w.remaining .upstream) = none := by
            simpa [boundAddress, h1, h3, h4] using hreply
          simpa [hver, hcode, h1, h3, h4] using hfail hnone
      · simpa [hver, hcode] using hfail (by simpa [hcode] using hreply)
    · simpa [hver] using hfail (by simpa [hver] using hreply)
  · refine herr _ bytes w' hc (hshort.imp_right connectReply_short)

/-- The server selected a method, and the client has a frame for it. -/
structure Selects (proxy : ProxyConfig) (stream : Bytes) (selected : Bool) (rest frame : Bytes) :
    Prop where
  reply : methodReply proxy.username.isSome stream = some (selected, rest)
  frame : proxy.authFrame selected = .ok frame

/-- A server that selects method 2 must accept the credentials. -/
theorem Selects.accepted {proxy : ProxyConfig} {stream rest frame : Bytes} {selected : Bool}
    (hs : Selects proxy (5 :: 2 :: stream) selected rest frame) :
    [1, 0] <+: stream ∧ selected = true := by
  have hreply := hs.reply
  simp only [methodReply] at hreply
  split at hreply
  · next h => exact absurd h.2 (by decide)
  · split at hreply
    · next h =>
      obtain ⟨rfl, -⟩ := Prod.mk.inj (Option.some.inj hreply)
      exact ⟨h.2.2.2, rfl⟩
    · cases hreply

/-- What is exchanged once the server has selected method 2. -/
theorem wp_authenticate {proxy : ProxyConfig} {username : Bytes}
    (hu : proxy.username = some username) {Q : Except Error Unit → Wire → Prop}
    (hI : ∀ c received handed w', Exchanged received handed w w' → I c w')
    (hok : ∀ received frame w', Exchanged received frame w w' →
      Selects proxy (5 :: 2 :: w.remaining .upstream) true (w'.remaining .upstream) frame →
      Q (.ok ()) w')
    (herr : ∀ e received handed w', Exchanged received handed w w' →
      (faulty ∨ ∀ selected rest frame,
        ¬ Selects proxy (5 :: 2 :: w.remaining .upstream) selected rest frame) →
      Q (.error e) w') :
    wp (Answer faulty) I (proxy.socks5Method [5, 2]) Q w := by
  have hauth : proxy.authFrame true =
      ProxyConfig.socks5Auth username (proxy.password.getD []) := by
    simp [ProxyConfig.authFrame, hu]
  have hwrite (part : Bytes) : Exchanged [] part w (w.write .upstream part) :=
    (Exchanged.refl w).write
  have hnow := hI none [] [] w (.refl w)
  unfold ProxyConfig.socks5Method
  simp only [hu, if_true]
  cases hframe : ProxyConfig.socks5Auth username (proxy.password.getD []) with
  | error e =>
    refine ⟨hnow, herr e [] [] w (.refl w) (.inr fun selected rest frame hs => ?_)⟩
    obtain ⟨-, rfl⟩ := hs.accepted
    exact absurd (hauth.symm.trans hs.frame) (by simp [hframe])
  | ok frame =>
    refine wp.bind ⟨hnow, ?_⟩
    refine wp.bind (wp_writeAll (fun c part _ => hI c [] part _ (hwrite part))
      ?_ fun hf f part _ => herr _ [] part _ (hwrite part) (.inl hf))
    refine wp.bind (wp_readExactly
      (fun c bytes w' hc => hI c _ frame w' ((hwrite frame).read hc))
      (fun status w' hc hlen => ?_) fun f bytes w' hc hshort => ?_)
    · have hx := (hwrite frame).read hc
      have htaken : w.remaining .upstream = status ++ w'.remaining .upstream := by
        simpa using hc.taken
      dsimp only
      by_cases hstatus : status = [1, 0]
      · rw [if_neg (not_not.mpr hstatus)]
        refine ⟨hI none _ _ w' hx, hok _ frame w' hx ⟨?_, hauth.trans hframe⟩⟩
        simp [methodReply, hu, htaken, hstatus]
      · rw [if_pos hstatus]
        refine ⟨hI none _ _ w' hx, herr _ _ _ w' hx (.inr fun sel rest fr hs => hstatus ?_)⟩
        have hp := hs.accepted.1
        rw [htaken] at hp
        have hstart : [1, 0] <+: status :=
          List.prefix_of_prefix_length_le hp (List.prefix_append _ _) (by simp [hlen])
        exact (hstart.eq_of_length hlen.symm).symm
    · refine herr _ _ _ w' ((hwrite frame).read hc) (hshort.imp_right fun h sel rest fr hs => ?_)
      have hlen := hs.accepted.1.length_le
      rw [remaining_write] at h
      simp only [List.length_cons, List.length_nil] at hlen
      omega

/-- A frame is written only once method 2 was selected. -/
def FrameAllowed (ver method : UInt8) (frame : Bytes) : Prop := frame = [] ∨ ver = 5 ∧ method = 2

theorem wp_socks5Method {proxy : ProxyConfig} {ver method : UInt8}
    {Q : Except Error Unit → Wire → Prop}
    (hI : ∀ c received handed w', Exchanged received handed w w' →
      FrameAllowed ver method handed → I c w')
    (hok : ∀ selected received frame w', Exchanged received frame w w' →
      FrameAllowed ver method frame →
      Selects proxy (ver :: method :: w.remaining .upstream) selected (w'.remaining .upstream)
        frame → Q (.ok ()) w')
    (herr : ∀ e received handed w', Exchanged received handed w w' →
      FrameAllowed ver method handed →
      (faulty ∨ ∀ selected rest frame,
        ¬ Selects proxy (ver :: method :: w.remaining .upstream) selected rest frame) →
      Q (.error e) w') :
    wp (Answer faulty) I (proxy.socks5Method [ver, method]) Q w := by
  have hrefl : FrameAllowed ver method [] := .inl rfl
  have hnow (c : Option Call) : I c w := hI c [] [] w (.refl w) hrefl
  have hfail {e : Error} (h : methodReply proxy.username.isSome
      (ver :: method :: w.remaining .upstream) = none) : I none w ∧ Q (.error e) w := by
    refine ⟨hnow none, herr e [] [] w (.refl w) hrefl (.inr fun selected rest frame hs => ?_)⟩
    exact absurd hs.reply (by simp [h])
  have hplain (hver : ver = 5) (hmethod : method = 0) : I none w ∧ Q (.ok ()) w := by
    refine ⟨hnow none, hok false [] [] w (.refl w) hrefl ⟨?_, rfl⟩⟩
    simp [methodReply, hver, hmethod]
  cases hu : proxy.username with
  | none =>
    unfold ProxyConfig.socks5Method
    rw [hu]
    by_cases h50 : ver = 5 ∧ method = 0
    · simpa [h50] using hplain h50.1 h50.2
    · have hnone : methodReply proxy.username.isSome (ver :: method :: w.remaining .upstream) =
          none := by simp [methodReply, h50, hu]
      simpa [h50] using hfail hnone
  | some username =>
    by_cases h52 : ver = 5 ∧ method = 2
    · obtain ⟨rfl, rfl⟩ := h52
      have hallowed (frame : Bytes) : FrameAllowed 5 2 frame := .inr ⟨rfl, rfl⟩
      exact wp_authenticate hu
        (fun c received handed w' hx => hI c received handed w' hx (hallowed handed))
        (fun received frame w' hx hs => hok true received frame w' hx (hallowed frame) hs)
        fun e received handed w' hx => herr e received handed w' hx (hallowed handed)
    · unfold ProxyConfig.socks5Method
      rw [hu]
      by_cases h50 : ver = 5 ∧ method = 0
      · simpa [h50] using hplain h50.1 h50.2
      · have hnone : methodReply proxy.username.isSome (ver :: method :: w.remaining .upstream) =
            none := by
          rw [methodReply, if_neg h50, if_neg fun h => h52 ⟨h.1, h.2.1⟩]
        by_cases hff : ver = 5 ∧ method = 0xff
        · simpa [hff] using hfail hnone
        · simpa [h52, h50, hff] using hfail hnone

/-! ## The whole handshake -/

namespace ProxyConfig

variable (self : ProxyConfig) (target : Target)

/-- The server's replies and the client's messages of a handshake that succeeds. -/
def Agreed (stream : Bytes) (selected : Bool) (rest messages : Bytes) : Prop :=
  socks5Reply self.username.isSome stream = some (selected, rest) ∧
    self.handshake target selected = .ok messages

/-- Messages that show no credentials: the offer, and nothing or a request behind it. -/
def Open (messages : Bytes) : Prop :=
  ∃ request, (request = [] ∨ decodeRequest request = some target) ∧
    messages = offer self.username.isSome ++ request

/-- Anything else is written only once the server selected method 2. -/
def Guarded (received handed : Bytes) : Prop :=
  [5, 2] <+: received ∨ ∃ messages, self.Open target messages ∧ handed <+: messages

theorem socks5Greeting_eq : self.socks5Greeting = offer self.username.isSome := by
  unfold socks5Greeting offer
  cases self.username <;> rfl

end ProxyConfig

theorem guarded_of_frameAllowed {proxy : ProxyConfig} {target : Target} {ver method : UInt8}
    {received frame part : Bytes} (hframe : FrameAllowed ver method frame)
    (hpart : part <+: (ProxyConfig.socks5Request target).toOption.getD []) :
    proxy.Guarded target ([ver, method] ++ received) (proxy.socks5Greeting ++ frame ++ part) := by
  obtain rfl | ⟨rfl, rfl⟩ := hframe
  · right
    rw [List.append_nil]
    refine ⟨_, ⟨(ProxyConfig.socks5Request target).toOption.getD [], ?_, rfl⟩, ?_⟩
    · cases hrequest : ProxyConfig.socks5Request target with
      | error e => exact .inl rfl
      | ok request => exact .inr (decodeRequest_socks5Request hrequest)
    · rw [proxy.socks5Greeting_eq]
      exact (List.prefix_append_right_inj _).mpr hpart
  · exact .inl (List.prefix_append _ _)

theorem agreed_iff {proxy : ProxyConfig} {target : Target} {stream rest messages : Bytes}
    {selected : Bool} : proxy.Agreed target stream selected rest messages ↔
      ∃ mid frame request, Selects proxy stream selected mid frame ∧
        ProxyConfig.socks5Request target = .ok request ∧ connectReply mid = some rest ∧
          messages = proxy.socks5Greeting ++ frame ++ request := by
  unfold ProxyConfig.Agreed socks5Reply ProxyConfig.handshake
  constructor
  · rintro ⟨hreply, hmessages⟩
    obtain ⟨⟨sel, mid⟩, hmethod, hmap⟩ := Option.bind_eq_some_iff.mp hreply
    obtain ⟨rest', hconnect, heq⟩ := Option.map_eq_some_iff.mp hmap
    obtain ⟨rfl, rfl⟩ := Prod.mk.inj heq
    cases hframe : proxy.authFrame sel with
    | error e => rw [hframe] at hmessages; cases hmessages
    | ok frame =>
      cases hrequest : ProxyConfig.socks5Request target with
      | error e => rw [hframe, hrequest] at hmessages; cases hmessages
      | ok request =>
        rw [hframe, hrequest] at hmessages
        exact ⟨mid, frame, request, ⟨hmethod, hframe⟩, rfl, hconnect,
          (Except.ok.inj hmessages).symm⟩
  · rintro ⟨mid, frame, request, hsel, hrequest, hconnect, rfl⟩
    exact ⟨by simp [hsel.reply, hconnect], by rw [hsel.frame, hrequest]; rfl⟩

/-- The request and its reply. -/
theorem wp_socks5Request {target : Target} {Q : Except Error Unit → Wire → Prop}
    (hI : ∀ c received part w', Exchanged received part w w' →
      part <+: (ProxyConfig.socks5Request target).toOption.getD [] → I c w')
    (hok : ∀ received request w', Exchanged received request w w' →
      ProxyConfig.socks5Request target = .ok request →
      connectReply (w.remaining .upstream) = some (w'.remaining .upstream) → Q (.ok ()) w')
    (herr : ∀ e received part w', Exchanged received part w w' →
      (faulty ∨ ∀ request rest, ProxyConfig.socks5Request target = .ok request →
        connectReply (w.remaining .upstream) ≠ some rest) → Q (.error e) w') :
    wp (Answer faulty) I (do
      Io.writeAll .upstream (← .ofExcept (ProxyConfig.socks5Request target))
      ProxyConfig.readSocks5Reply) Q w := by
  have hnow : I none w := hI none [] [] w (.refl w) (List.nil_prefix ..)
  cases hrequest : ProxyConfig.socks5Request target with
  | error e => exact ⟨hnow, herr e [] [] w (.refl w) (.inr fun request rest h => by simp_all)⟩
  | ok request =>
    rw [hrequest] at hI
    have hwrite (part : Bytes) : Exchanged [] part w (w.write .upstream part) :=
      (Exchanged.refl w).write
    refine wp.bind ⟨hnow, wp.bind (wp_writeAll (fun c part hp => hI c [] part _ (hwrite part) hp)
      ?_ fun hf f part _ => herr _ [] part _ (hwrite part) (.inl hf))⟩
    have hx {bytes : Bytes} {w' : Wire}
        (hc : Consumes .upstream bytes (w.write .upstream request) w') :
        Exchanged ([] ++ bytes) request w w' := (hwrite request).read hc
    refine wp_readSocks5Reply (fun c bytes w' hc => hI c _ _ w' (hx hc) (List.prefix_refl _))
      (fun bytes w' hc hreply => hok _ _ w' (hx hc) hrequest ?_)
      fun e bytes w' hc hno => herr e _ _ w' (hx hc) (hno.imp_right fun h request rest _ => ?_)
    · rwa [remaining_write] at hreply
    · rw [remaining_write] at h
      rw [h]
      nofun

theorem wp_socks5Connect {proxy : ProxyConfig} {target : Target} :
    wp (Answer faulty)
      (fun _ w' => ∃ received handed, Exchanged received handed w w' ∧
        proxy.Guarded target received handed)
      (proxy.socks5Connect target)
      (fun r w' => ∃ received handed, Exchanged received handed w w' ∧ match r with
        | .ok () => ∃ selected, proxy.Agreed target (w.remaining .upstream) selected
            (w'.remaining .upstream) handed
        | .error _ => faulty ∨ ∀ selected rest messages,
            ¬ proxy.Agreed target (w.remaining .upstream) selected rest messages) w := by
  have hgreeting {received part : Bytes} (h : part <+: proxy.socks5Greeting) :
      proxy.Guarded target received part :=
    .inr ⟨_, ⟨[], .inl rfl, rfl⟩, by simpa [proxy.socks5Greeting_eq] using h⟩
  refine wp.bind (wp_writeAll (fun c part hp => ⟨[], part, (Exchanged.refl w).write, hgreeting hp⟩)
    ?_ fun hf f part _ => ⟨[], part, (Exchanged.refl w).write, .inl hf⟩)
  have hw : Exchanged [] proxy.socks5Greeting w (w.write .upstream proxy.socks5Greeting) :=
    (Exchanged.refl w).write
  refine wp.bind (wp_readExactly
    (fun c bytes w' hc => ⟨_, _, hw.read hc, hgreeting (List.prefix_refl _)⟩)
    (fun bytes w₁ hc hlen => ?_) fun f bytes w' hc hshort => ⟨_, _, hw.read hc,
      hshort.imp_right fun h selected rest messages ha => ?_⟩)
  · obtain ⟨ver, method, rfl⟩ := List.length_eq_two.mp hlen
    have hw₁ : Exchanged [ver, method] proxy.socks5Greeting w w₁ := hw.read hc
    have hstream : w.remaining .upstream = ver :: method :: w₁.remaining .upstream := hw₁.taken
    refine wp.bind (wp_socks5Method (fun c received handed w' h hallowed => ?_)
      (fun selected received frame w₂ h hallowed hsel => ?_)
      fun e received handed w' h hallowed hno => ?_)
    · have hg : proxy.Guarded target ([ver, method] ++ received)
          (proxy.socks5Greeting ++ handed ++ []) :=
        guarded_of_frameAllowed hallowed (List.nil_prefix ..)
      rw [List.append_nil] at hg
      exact ⟨_, _, hw₁.trans h, hg⟩
    · have hw₂ := hw₁.trans h
      refine wp_socks5Request (fun c more part w' hx hp => ⟨_, _, hw₂.trans hx, ?_⟩)
        (fun more request w' hx hrequest hreply => ⟨_, _, hw₂.trans hx, selected, ?_⟩)
        fun e more part w' hx hno => ⟨_, _, hw₂.trans hx, ?_⟩
      · rw [List.append_assoc [ver, method]]
        exact guarded_of_frameAllowed hallowed hp
      · exact agreed_iff.mpr ⟨_, frame, request, hstream ▸ hsel, hrequest, hreply, rfl⟩
      · refine hno.imp_right fun hno selected' rest messages ha => ?_
        obtain ⟨mid, _, request, hsel', hrequest, hreply, -⟩ := agreed_iff.mp ha
        have hmid : w₂.remaining .upstream = mid := by
          have hsame := (hstream ▸ hsel.reply).symm.trans hsel'.reply
          exact congrArg Prod.snd (Option.some.inj hsame)
        exact hno request rest hrequest (hmid ▸ hreply)
    · refine ⟨_, _, hw₁.trans h, hno.imp_right fun hno selected rest messages ha => ?_⟩
      obtain ⟨mid, frame, request, hsel, -⟩ := agreed_iff.mp ha
      exact hno selected mid frame (hstream ▸ hsel)
  · obtain ⟨mid, frame, request, hsel, -⟩ := agreed_iff.mp ha
    have hreply := hsel.reply
    rw [remaining_write] at h
    match hs : w.remaining .upstream, h with
    | [], _ | [_], _ => simp [hs, methodReply] at hreply

end Replies

/-! ## The servers that accept -/

theorem socks5Auth_isOk {username password : Bytes} :
    (∃ frame, ProxyConfig.socks5Auth username password = .ok frame) ↔
      username.length ≤ 255 ∧ password.length ≤ 255 := by
  unfold ProxyConfig.socks5Auth
  split
  · simp
    omega
  · simp
    omega

theorem socks5Request_isOk {target : Target} :
    (∃ request, ProxyConfig.socks5Request target = .ok request) ↔ target.host.length ≤ 255 := by
  unfold ProxyConfig.socks5Request
  split
  · simp
    omega
  · simp
    omega

theorem handshake_isOk {proxy : ProxyConfig} {target : Target} {selected : Bool} :
    (∃ messages, proxy.handshake target selected = .ok messages) ↔
      target.host.length ≤ 255 ∧ (selected = true →
        (proxy.username.getD []).length ≤ 255 ∧ (proxy.password.getD []).length ≤ 255) := by
  have hframe : (∃ frame, proxy.authFrame selected = .ok frame) ↔ (selected = true →
      (proxy.username.getD []).length ≤ 255 ∧ (proxy.password.getD []).length ≤ 255) := by
    rw [← socks5Auth_isOk]
    cases selected <;> simp [ProxyConfig.authFrame]
  rw [← socks5Request_isOk, ← hframe]
  unfold ProxyConfig.handshake
  cases proxy.authFrame selected <;> cases ProxyConfig.socks5Request target <;>
    simp [bind, Except.bind, pure, Except.pure]

theorem accepted_iff {proxy : ProxyConfig} {target : Target} {stream : Bytes} :
    proxy.Accepted target stream ↔
      ∃ selected rest messages, proxy.Agreed target stream selected rest messages := by
  constructor
  · rintro ⟨selected, rest, hreply, hlen⟩
    obtain ⟨messages, h⟩ := handshake_isOk.mpr hlen
    exact ⟨selected, rest, messages, hreply, h⟩
  · rintro ⟨selected, rest, messages, hreply, h⟩
    exact ⟨selected, rest, hreply, handshake_isOk.mp ⟨messages, h⟩⟩

/-- If nothing fails the handshake succeeds exactly on the servers that accept. It has then written
the greeting, the frame if method 2 was selected, and the request, and has read the replies and
nothing more. On every run, credentials are written only once method 2 was selected. -/
theorem socks5Connect_exchange (proxy : ProxyConfig) (target : Target) (w : Wire) :
    (∃ r w', Ends (Answer False) (proxy.socks5Connect target) w r w') ∧
    (∀ r w', Ends (Answer False) (proxy.socks5Connect target) w r w' →
      (r = .ok () ↔ proxy.Accepted target (w.remaining .upstream)) ∧
      (r = .ok () → ∃ selected frame request,
        socks5Reply proxy.username.isSome (w.remaining .upstream) =
          some (selected, w'.remaining .upstream) ∧
        w'.written .upstream =
          w.written .upstream ++
            ((if proxy.username.isSome then [5, 2, 0, 2] else [5, 1, 0]) ++ frame ++ request) ∧
        (selected = false → frame = []) ∧
        (selected = true → ∃ username, proxy.username = some username ∧
          decodeAuth frame = some (username, proxy.password.getD [])) ∧
        decodeRequest request = some target)) ∧
    ∀ p w', Reaches (Answer True) (proxy.socks5Connect target, w) (p, w') →
      ∃ received handed, w.remaining .upstream = received ++ w'.remaining .upstream ∧
        w'.written .upstream = w.written .upstream ++ handed ∧
        proxy.Guarded target received handed := by
  refine ⟨exists_ends exists_answer _ _, fun r w' hends => ?_, fun p w' hreach => ?_⟩
  · obtain ⟨received, handed, hx, hr⟩ := wp_socks5Connect.ends hends
    cases r with
    | error e =>
      have hno : ¬ proxy.Accepted target (w.remaining .upstream) := fun ha => by
        obtain ⟨selected, rest, messages, ha⟩ := accepted_iff.mp ha
        exact hr.resolve_left not_false selected rest messages ha
      simp [hno]
    | ok u =>
      obtain ⟨selected, hagreed⟩ := hr
      refine ⟨⟨fun _ => accepted_iff.mpr ⟨_, _, _, hagreed⟩, fun _ => rfl⟩, fun _ => ?_⟩
      obtain ⟨mid, frame, request, hsel, hrequest, -, rfl⟩ := agreed_iff.mp hagreed
      have hwritten := hx.written
      rw [proxy.socks5Greeting_eq, offer] at hwritten
      refine ⟨selected, frame, request, hagreed.1, hwritten, ?_, ?_,
        decodeRequest_socks5Request hrequest⟩
      · rintro rfl
        exact (Except.ok.inj hsel.frame).symm
      · rintro rfl
        cases hu : proxy.username with
        | none =>
          have hreply := hsel.reply
          rw [hu] at hreply
          unfold methodReply at hreply
          split at hreply
          · split_ifs at hreply <;> simp_all
          · cases hreply
        | some username =>
          have hframe := hsel.frame
          rw [ProxyConfig.authFrame, if_pos rfl, hu] at hframe
          exact ⟨username, rfl, decodeAuth_socks5Auth hframe⟩
  · obtain ⟨received, handed, hx, hg⟩ := (wp_socks5Connect.reaches hreach).invariant
    exact ⟨received, handed, hx.taken, hx.written, hg⟩

end NyaSniProxy
