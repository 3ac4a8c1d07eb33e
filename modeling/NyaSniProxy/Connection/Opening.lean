import NyaSniProxy.Connection.Flow
import NyaSniProxy.Connection.Target
import NyaSniProxy.Proxy.Tunnel

/-!
# From the first byte to the tunnel

`Waiting` holds until a tunnel is open, over all hops that are tried: the client got nothing, and
the bytes read from it are known. A hop that succeeds leaves a tunnel at the byte behind the proxy's
reply, to which nothing was handed yet.
-/

namespace NyaSniProxy

open Text Interaction Wire Prog

/-- No tunnel is open, and `initial` was read from the client. -/
structure Waiting (initial : Bytes) (w : Wire) : Prop where
  tunnel : w.tunnel = none
  client : w.incoming .inbound = initial ++ w.remaining .inbound
  written : w.written .inbound = []
  shut : ∀ side, w.shut side = false

/-- The hop's proxy is connected, and nothing of its stream is read. -/
structure Dialled (proxy : ProxyConfig) (initial : Bytes) (w : Wire) : Prop
    extends Waiting initial w where
  proxy : w.proxy = some proxy
  front : w.front.front = []
  unread : w.unread .upstream = w.incoming .upstream

/-- The hops are tried. While the reply of an HTTP proxy is awaited, it has the whole request. -/
structure Trying (target : Target) (initial : Bytes) (c : Option Call) (w : Wire) : Prop
    extends Waiting initial w where
  asked : ∀ cap, c = some (.read .upstream cap) → ∃ proxy, w.proxy = some proxy ∧
    (proxy.kind ≠ .socks5 → w.written .upstream = proxy.connectRequest target)

/-- The tunnel is open, and what was read from the client is still to be handed over. -/
structure Opened (initial : Bytes) (t : Tunnel) (w : Wire) : Prop where
  flow : w.Flow t (Function.update (fun _ => []) .inbound initial)
  fresh : ∀ side, w.relayed t side = []
  shut : ∀ side, w.shut side = false
  read : t.read = initial.length

variable {faulty : Prop} {w w' : Wire} {initial received handed bytes : Bytes}
  {proxy : ProxyConfig} {target : Target}

theorem Waiting.transparent (h : Waiting initial w) : w.Transparent := by
  unfold Wire.Transparent
  rw [h.tunnel]
  exact ⟨h.written, h.shut⟩

theorem Waiting.exchanged (h : Waiting initial w) (hx : Exchanged received handed w w') :
    Waiting initial w' := by
  have hother := Consumes.other hx .inbound nofun
  obtain ⟨u, f, rfl⟩ := Consumes.frame hx
  refine ⟨h.tunnel, ?_, h.written, h.shut⟩
  rw [hother, remaining_write]
  exact h.client

theorem Waiting.dialled (h : Waiting initial w) (proxy : ProxyConfig) (bytes : Bytes) :
    Dialled proxy initial (w.dialled proxy bytes) where
  tunnel := rfl
  client := h.client
  written := h.written
  shut side := by cases side <;> simp [Wire.dialled, h.shut]
  proxy := rfl
  front := rfl
  unread := by simp [Wire.dialled]

/-- Nothing stays in front of the stream, and its bytes are those behind the ones received. -/
theorem Dialled.incoming (h : Dialled proxy initial w) (hx : Exchanged received handed w w') :
    w'.front.front = [] ∧ w'.incoming .upstream = received ++ w'.unread .upstream := by
  have hempty : (w.write .upstream handed).front.front = [] := h.front
  have hfront := Consumes.suffix hx
  rw [hempty, List.suffix_nil] at hfront
  have htaken := hx.taken
  simp only [Wire.remaining, h.front, hfront, List.nil_append, h.unread] at htaken
  obtain ⟨u, f, rfl⟩ := Consumes.frame hx
  exact ⟨hfront, htaken⟩

theorem Dialled.proxy_eq (h : Dialled proxy initial w) (hx : Exchanged received handed w w') :
    w'.proxy = some proxy := by
  obtain ⟨u, f, rfl⟩ := Consumes.frame hx
  exact h.proxy

/-- A tunnel is opened at the byte behind the reply. -/
theorem Dialled.opened (h : Dialled proxy initial w) (hx : Exchanged received handed w w')
    {pre : Bytes} (hreply : tunnelBytes proxy (w'.incoming .upstream) =
      some (pre ++ w'.unread .upstream)) : ∃ t, Opened initial t (w'.opened pre) := by
  have hw := h.toWaiting.exchanged hx
  have hproxy := h.proxy_eq hx
  have hread : (w'.incoming .inbound).length - (w'.unread .inbound).length = initial.length := by
    have hlen := congrArg List.length hw.client
    simp only [Wire.remaining, List.length_append] at hlen
    omega
  let t : Tunnel := ⟨proxy, (w'.written .upstream).length, initial.length⟩
  have hopened : (w'.opened pre).tunnel = some t := by simp [Wire.opened, hproxy, hread, t]
  have hfresh : ∀ side, (w'.opened pre).relayed t side = [] := by
    intro side
    cases side with
    | inbound => simp [Wire.relayed, Wire.opened, t]
    | upstream => exact hw.written
  refine ⟨t, ⟨hopened, le_refl _, fun side => ?_, fun side hs => ?_⟩, hfresh, hw.shut, rfl⟩
  · rw [hfresh]
    cases side with
    | inbound => simpa [Wire.stream, Wire.opened, Wire.remaining] using hw.client
    | upstream => simpa [Wire.stream, Wire.opened, Wire.remaining, t] using hreply
  · have hshut : (w'.opened pre).shut side.other = false := hw.shut side.other
    rw [hshut] at hs
    cases hs

/-! ## Calls -/

/-- All calls but the `select!` of the relay. -/
def Call.Early (i : Call) : Prop := ∀ guard cap, i ≠ .select guard cap

/-- Reads and writes of the upstream. -/
def Call.Exchange : Call → Prop
  | .read side _ | .write side _ => side = .upstream
  | .connect _ | .serverName _ | .tlsConnect | .tunnel _ | .shutdown _ | .select .. | .resetIdle
  | .borrow | .relayComplete .. => False

/-- The calls of a handshake with a proxy that is connected. -/
def Call.Handshake : Call → Prop
  | .serverName _ | .tlsConnect => True
  | .read side _ | .write side _ => side = .upstream
  | .connect _ | .tunnel _ | .shutdown _ | .select .. | .resetIdle | .borrow
  | .relayComplete .. => False

theorem Call.Exchange.handshake {i : Call} (h : i.Exchange) : i.Handshake := by
  cases i <;> first | exact h | exact h.elim

theorem Call.Handshake.early {i : Call} (h : i.Handshake) : i.Early := by
  rintro guard cap rfl
  exact h

section Calls

theorem only_writeUpstream (bytes : Bytes) : (Io.writeAll .upstream bytes).Only Call.Exchange :=
  Io.only_writeAll fun _ => rfl

theorem only_readUpstream (n : Nat) : (Io.readExact .upstream n []).Only Call.Exchange :=
  Io.only_readExact fun _ => rfl

theorem only_readTarget (protocol : InboundProtocol) : (readTarget protocol).Only
    fun i => ∃ cap, i = .read .inbound cap := by
  cases protocol with
  | http =>
    refine Only.mapError (.bind (Io.only_readUntil ⟨_, rfl⟩) fun header => ?_)
    exact .bind (Io.only_ofExcept _) fun _ => trivial
  | https => exact Only.mapError (Io.only_readUntil ⟨_, rfl⟩)

theorem only_tlsConnect {P : Call → Prop} (proxy : ProxyConfig)
    (hname : ∀ host, P (.serverName host)) (htls : P .tlsConnect) : proxy.tlsConnect.Only P := by
  unfold ProxyConfig.tlsConnect
  split
  · refine ⟨hname _, fun valid => ?_⟩
    cases valid with
    | false => trivial
    | true => exact Only.mapError ⟨htls, Io.only_fallible⟩
  · trivial

theorem only_httpConnect (proxy : ProxyConfig) (target : Target) :
    (proxy.httpConnect target).Only Call.Exchange := by
  refine .bind (only_writeUpstream _) fun _ => .bind (Io.only_readUntil rfl) fun response => ?_
  exact .bind (Io.only_ofExcept _) fun _ => trivial

theorem only_socks5Method (proxy : ProxyConfig) (selected : Bytes) :
    (proxy.socks5Method selected).Only Call.Exchange := by
  unfold ProxyConfig.socks5Method
  split
  · split
    · refine .bind (Io.only_ofExcept _) fun frame => .bind (only_writeUpstream frame) fun _ => ?_
      refine .bind (only_readUpstream 2) fun status => ?_
      split <;> trivial
    · split
      · trivial
      · split <;> trivial
  · split <;> trivial

theorem only_socks5AddrLen {P : Call → Prop} (head : Bytes)
    (hread : ∀ cap, P (.read .upstream cap)) : (ProxyConfig.socks5AddrLen head).Only P := by
  unfold ProxyConfig.socks5AddrLen
  split_ifs
  · trivial
  · trivial
  · trivial
  · exact .bind (Io.only_readExact hread) fun _ => trivial
  · trivial
  · trivial

theorem only_socks5Connect (proxy : ProxyConfig) (target : Target) :
    (proxy.socks5Connect target).Only Call.Exchange := by
  refine .bind (only_writeUpstream _) fun _ => .bind (only_readUpstream 2) fun selected => ?_
  refine .bind (only_socks5Method proxy selected) fun _ => ?_
  refine .bind (Io.only_ofExcept _) fun frame => ?_
  refine .bind (only_writeUpstream frame) fun _ => .bind (only_readUpstream 4) fun head => ?_
  refine .bind (only_socks5AddrLen head fun _ => rfl) fun n => ?_
  exact .bind (only_readUpstream _) fun _ => trivial

theorem only_connect (proxy : ProxyConfig) (target : Target) :
    (proxy.connect target).Only Call.Early := by
  have hdial (name : String) : (proxy.tcpConnect name).Only Call.Early :=
    Only.mapError ⟨nofun, Io.only_fallible⟩
  have hopen (pre : Bytes) : (ProxyConfig.openTunnel pre).Only Call.Early :=
    ⟨nofun, fun _ => trivial⟩
  have hearly {α : Type} {p : Io α} (h : p.Only Call.Handshake) : p.Only Call.Early :=
    h.mono fun _ => Call.Handshake.early
  have hexchange {α : Type} {p : Io α} (h : p.Only Call.Exchange) : p.Only Call.Early :=
    hearly (h.mono fun _ => Call.Exchange.handshake)
  have hhttp := hexchange (only_httpConnect proxy target)
  unfold ProxyConfig.connect
  cases proxy.kind with
  | http => exact .bind (hdial _) fun _ => .bind (.mapError hhttp) hopen
  | https =>
    have htls : proxy.tlsConnect.Only Call.Early := only_tlsConnect proxy (fun _ => nofun) nofun
    refine .bind (hdial _) fun _ => .bind htls fun _ => ?_
    exact .bind (.mapError hhttp) hopen
  | socks5 =>
    exact .bind (hdial _) fun _ => .bind (.mapError (hexchange (only_socks5Connect proxy target)))
      fun _ => hopen []

theorem only_connectWithFallback (hops : List Hop) (target : Target) :
    (connectWithFallback (m := Io) (fun hop target => (hop.proxy.connect target).attempt)
      hops target).Only Call.Early := by
  unfold connectWithFallback
  generalize (none : Option Error) = lastErr
  induction hops generalizing lastErr with
  | nil => trivial
  | cons hop hops ih =>
    refine .bind (.attempt (only_connect hop.proxy target)) fun result => ?_
    cases result with
    | ok u => trivial
    | error e => exact ih (some e)

end Calls

/-! ## One hop -/

section Hop

variable {I : Option Call → Wire → Prop} {Q : Except Error Unit → Wire → Prop}

theorem wp_openTunnel {pre : Bytes} (hw : I (some (.tunnel pre)) w) (hopen : I none (w.opened pre))
    (hok : Q (.ok ()) (w.opened pre)) :
    wp (Answer faulty) I (ProxyConfig.openTunnel pre) Q w := by
  refine wp_call.mpr ⟨hw, fun r w' hr => ?_⟩
  cases hr with
  | tunnel => exact ⟨hopen, hok⟩

theorem wp_tcpConnect {name : String} (hI : ∀ c w', Trying target initial c w' → I c w')
    (h : Waiting initial w) (hok : ∀ w', Dialled proxy initial w' → w'.written .upstream = [] →
      Q (.ok ()) w')
    (herr : ∀ e w', Waiting initial w' → Q (.error e) w') :
    wp (Answer faulty) I (proxy.tcpConnect name) Q w := by
  refine wp.mapError (wp_call.mpr ⟨hI _ w ⟨h, nofun⟩, fun r w' hr => ?_⟩)
  cases hr with
  | connect bytes =>
    have hd := h.dialled proxy bytes
    exact ⟨hI none _ ⟨hd.toWaiting, nofun⟩, hok _ hd (by simp [Wire.dialled])⟩
  | connectFault => exact ⟨hI none w ⟨h, nofun⟩, herr _ _ h⟩

theorem wp_tlsConnect (hI : ∀ c w', Trying target initial c w' → I c w') (h : Waiting initial w)
    (hQ : ∀ r, Q r w) : wp (Answer faulty) I proxy.tlsConnect Q w := by
  have hnow (c : Option Call) (hc : ∀ cap, c ≠ some (.read .upstream cap)) : I c w :=
    hI c w ⟨h, fun cap hread => absurd hread (hc cap)⟩
  unfold ProxyConfig.tlsConnect
  split
  · refine wp_call.mpr ⟨hnow _ nofun, fun valid w' hr => ?_⟩
    cases hr with
    | serverName valid =>
      cases valid with
      | false => exact ⟨hnow none nofun, hQ _⟩
      | true =>
        refine wp.mapError (wp_call.mpr ⟨hnow _ nofun, fun r w' hr => ?_⟩)
        cases hr with
        | tlsConnect => exact ⟨hnow none nofun, hQ _⟩
        | tlsFault => exact ⟨hnow none nofun, hQ _⟩
  · exact ⟨hnow none nofun, hQ _⟩

/-- A CONNECT exchange and the tunnel behind it. -/
theorem wp_httpTunnel {text : String} (hI : ∀ c w', Trying target initial c w' → I c w')
    (hopen : ∀ t w', Opened initial t w' → I none w') (h : Dialled proxy initial w)
    (hempty : w.written .upstream = []) (hkind : proxy.kind = .http ∨ proxy.kind = .https)
    (hok : ∀ t w', Opened initial t w' → Q (.ok ()) w')
    (herr : ∀ e w', Waiting initial w' → Q (.error e) w') :
    wp (Answer faulty) I (do
      let pre ← Io.timeout text (proxy.httpConnect target)
      ProxyConfig.openTunnel pre) Q w := by
  refine wp.bind (wp.mapError (wp_httpConnect (fun c received handed w' hx _ hread => ?_)
    (fun received stop w' hx hstop => ?_)
    fun e received handed w' hx _ => herr _ w' (h.exchanged hx)))
  · refine hI c w' ⟨h.exchanged hx, fun cap hcall => ⟨proxy, h.proxy_eq hx, fun _ => ?_⟩⟩
    rw [hx.written, hempty, hread cap hcall, List.nil_append]
  · obtain ⟨hfront, hincoming⟩ := h.incoming hx
    have hreply : tunnelBytes proxy (w'.incoming .upstream) =
        some (received.drop (stop + 4) ++ w'.unread .upstream) := by
      have hlen : stop + 4 ≤ received.length := Search.find_le hstop
      have hend : headerEnd (received ++ w'.unread .upstream) = some stop :=
        Search.find_append hstop _
      have htunnel : tunnelBytes proxy (w'.incoming .upstream) =
          (headerEnd (w'.incoming .upstream)).map fun stop =>
            (w'.incoming .upstream).drop (stop + 4) := by
        unfold tunnelBytes
        rcases hkind with hkind | hkind <;> rw [hkind]
      rw [htunnel, hincoming, hend, Option.map_some, List.drop_append_of_le_length hlen]
    obtain ⟨t, hopened⟩ := h.opened hx hreply
    exact wp_openTunnel (hI _ w' ⟨h.exchanged hx, by simp⟩) (hopen t _ hopened) (hok t _ hopened)

/-- A SOCKS5 handshake and the tunnel behind it. -/
theorem wp_socks5Tunnel {text : String} (hI : ∀ c w', Trying target initial c w' → I c w')
    (hopen : ∀ t w', Opened initial t w' → I none w') (h : Dialled proxy initial w)
    (hkind : proxy.kind = .socks5) (hok : ∀ t w', Opened initial t w' → Q (.ok ()) w')
    (herr : ∀ e w', Waiting initial w' → Q (.error e) w') :
    wp (Answer faulty) I (do
      Io.timeout text (proxy.socks5Connect target)
      ProxyConfig.openTunnel []) Q w := by
  refine wp.bind (wp.mapError ((wp_socks5Connect.mono_invariant ?_).mono ?_))
  · rintro c w' ⟨received, handed, hx, -⟩
    exact hI c w' ⟨h.exchanged hx, fun cap _ => ⟨proxy, h.proxy_eq hx, fun hk => absurd hkind hk⟩⟩
  · rintro r w' ⟨received, handed, hx, hr⟩
    cases r with
    | error e => exact herr _ w' (h.exchanged hx)
    | ok u =>
      obtain ⟨selected, hagreed⟩ := hr
      obtain ⟨hfront, hincoming⟩ := h.incoming hx
      have hreply : tunnelBytes proxy (w'.incoming .upstream) =
          some ([] ++ w'.unread .upstream) := by
        have hall : w.remaining .upstream = w'.incoming .upstream := by
          rw [hx.taken, hincoming, Wire.remaining, hfront, List.nil_append]
        have hrest : w'.remaining .upstream = w'.unread .upstream := by
          rw [Wire.remaining, hfront, List.nil_append]
        simp only [tunnelBytes, hkind, ← hall, hagreed.1, hrest, Option.map_some, List.nil_append]
      obtain ⟨t, hopened⟩ := h.opened hx hreply
      exact wp_openTunnel (hI _ w' ⟨h.exchanged hx, by simp⟩) (hopen t _ hopened) (hok t _ hopened)

theorem wp_connect (hI : ∀ c w', Trying target initial c w' → I c w')
    (hopen : ∀ t w', Opened initial t w' → I none w') (h : Waiting initial w)
    (hok : ∀ t w', Opened initial t w' → Q (.ok ()) w')
    (herr : ∀ e w', Waiting initial w' → Q (.error e) w') :
    wp (Answer faulty) I (proxy.connect target) Q w := by
  unfold ProxyConfig.connect
  cases hkind : proxy.kind with
  | http =>
    refine wp.bind (wp_tcpConnect hI h (fun w' hd hempty => ?_) herr)
    exact wp_httpTunnel hI hopen hd hempty (.inl hkind) hok herr
  | https =>
    refine wp.bind (wp_tcpConnect hI h (fun w' hd hempty => ?_) herr)
    refine wp.bind (wp_tlsConnect hI hd.toWaiting fun r => ?_)
    cases r with
    | ok u => exact wp_httpTunnel hI hopen hd hempty (.inr hkind) hok herr
    | error e => exact herr e w' hd.toWaiting
  | socks5 =>
    refine wp.bind (wp_tcpConnect hI h (fun w' hd _ => ?_) herr)
    exact wp_socks5Tunnel hI hopen hd hkind hok herr

end Hop

/-! ## All hops -/

/-- The first hop that succeeds has opened the tunnel. -/
theorem wp_connectWithFallback {I : Option Call → Wire → Prop} {hops : List Hop}
    {Q : Except Error (Except Error Unit) → Wire → Prop}
    (hI : ∀ c w', Trying target initial c w' → I c w')
    (hopen : ∀ t w', Opened initial t w' → I none w') (h : Waiting initial w)
    (hok : ∀ t w', Opened initial t w' → Q (.ok (.ok ())) w')
    (herr : ∀ e w', Waiting initial w' → Q (.ok (.error e)) w') :
    wp (Answer faulty) I
      (connectWithFallback (m := Io) (fun hop target => (hop.proxy.connect target).attempt)
        hops target) Q w := by
  unfold connectWithFallback
  generalize (none : Option Error) = lastErr
  induction hops generalizing w lastErr with
  | nil => exact ⟨hI none w ⟨h, nofun⟩, herr _ w h⟩
  | cons hop hops ih =>
    refine wp.bind (wp.attempt (wp_connect hI hopen h (fun t w' ho => ?_) fun e w' hw => ?_))
    · exact ⟨hopen t w' ho, hok t w' ho⟩
    · exact ih hw (some e)

end NyaSniProxy
