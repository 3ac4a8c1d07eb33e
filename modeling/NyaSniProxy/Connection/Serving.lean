import NyaSniProxy.Connection.Session
import NyaSniProxy.Segmentation.Hello

/-!
# Which connections are served

`Upstreams` says what each proxy does when it is dialled: it refuses the connection, or it sends
some bytes. The network cuts all streams as it likes, and no timer fires. Then every run of a
connection whose client names its target ends. If some proxy on the route opens a tunnel, the
connection is relayed through a proxy that all those before it have left to it; otherwise the client
gets nothing.
-/

namespace NyaSniProxy

open Text Interaction Wire ClientHelloStatus

structure Upstreams where
  /-- What a proxy sends once it is dialled; nothing, if it cannot be dialled. -/
  sends : ProxyConfig → Option Bytes
  /-- Does `ServerName::try_from` take the host? -/
  serverName : Bytes → Bool
  /-- Does the TLS handshake with the proxy succeed? -/
  secure : ProxyConfig → Bool

/-- The calls that are answered alike by all proxies. -/
def Call.Alike : Call → Prop
  | .connect _ | .serverName _ | .tlsConnect | .borrow => False
  | _ => True

/-- The answers to a connection while `runtime` is in force. -/
inductive UpstreamAnswer (net : Upstreams) (runtime : Runtime) : Env Call Reply Wire where
  | connect {proxy w bytes} : net.sends proxy = some bytes →
      UpstreamAnswer net runtime (.connect proxy) w (.ok ()) (w.dialled proxy bytes)
  | refused {proxy w} (f) : net.sends proxy = none →
      UpstreamAnswer net runtime (.connect proxy) w (.error f) w
  | serverName {host w} : UpstreamAnswer net runtime (.serverName host) w (net.serverName host) w
  | tlsConnect {w} : (∀ proxy, w.proxy = some proxy → net.secure proxy = true) →
      UpstreamAnswer net runtime .tlsConnect w (.ok ()) w
  | tlsFault {proxy w} (f) : w.proxy = some proxy → net.secure proxy = false →
      UpstreamAnswer net runtime .tlsConnect w (.error f) w
  | borrow {w} : UpstreamAnswer net runtime .borrow w runtime w
  | alike {call w r w'} : call.Alike → Answer False call w r w' →
      UpstreamAnswer net runtime call w r w'

/-! ## Proxies -/

/-- A reply to a CONNECT request that opens a tunnel. -/
def OpensConnect (bytes : Bytes) : Prop :=
  ∃ stop, headerEnd bytes = some stop ∧ stop + 4 ≤ maxHttpHeader ∧
    checkStatus (bytes.take stop) = .ok ()

/-- A reply that does not, however it is cut: a head may be a chunk longer than the limit. -/
def RejectsConnect (bytes : Bytes) : Prop :=
  ∀ stop, headerEnd bytes = some stop → stop + 4 ≤ maxHttpHeader + 512 →
    checkStatus (bytes.take stop) ≠ .ok ()

namespace Upstreams

variable (net : Upstreams) (target : Target) (proxy : ProxyConfig)

/-- TLS to the proxy can be set up. -/
def Secures : Prop :=
  proxy.tlsConnector = true ∧ net.serverName proxy.host = true ∧ net.secure proxy = true

/-- The proxy opens a tunnel to the target. -/
def Opens : Prop :=
  ∃ bytes, net.sends proxy = some bytes ∧
    match proxy.kind with
    | .http => OpensConnect bytes
    | .https => net.Secures proxy ∧ OpensConnect bytes
    | .socks5 => proxy.Accepted target bytes

/-- The proxy does not open a tunnel to the target. -/
def Rejects : Prop :=
  ∀ bytes, net.sends proxy = some bytes →
    match proxy.kind with
    | .http => RejectsConnect bytes
    | .https => net.Secures proxy → RejectsConnect bytes
    | .socks5 => ¬ proxy.Accepted target bytes

end Upstreams

/-- The client names the target, within the limits of the readers. -/
def Recognised (client : Bytes) (target : Target) : InboundProtocol → Prop
  | .http => parseHttpHost client = .ok target ∧
      ∃ stop, headerEnd client = some stop ∧ stop + 4 ≤ maxHttpHeader
  | .https => (parseTlsSni client = found target.host ∧ target.port = 443) ∧
      (client.length ≤ maxClientHello ∨
        parseTlsSni (client.take (maxClientHello - 1023)) ≠ needMore)

section Serving

variable {net : Upstreams} {runtime : Runtime} {α : Type} {w w' : Wire} {p : Io α}
  {proxy : ProxyConfig} {target : Target} {protocol : InboundProtocol} {client initial : Bytes}

theorem exists_upstreamAnswer (net : Upstreams) (runtime : Runtime) (call : Call) (w : Wire) :
    ∃ r w', UpstreamAnswer net runtime call w r w' := by
  have halike (hcall : call.Alike) : ∃ r w', UpstreamAnswer net runtime call w r w' := by
    obtain ⟨r, w', h⟩ : ∃ r w', Answer False call w r w' := exists_answer call w
    exact ⟨r, w', .alike hcall h⟩
  cases call with
  | connect proxy =>
    cases hsends : net.sends proxy with
    | none => exact ⟨_, _, .refused .io hsends⟩
    | some bytes => exact ⟨_, _, .connect hsends⟩
  | serverName host => exact ⟨_, _, .serverName⟩
  | tlsConnect =>
    by_cases hsecure : ∀ proxy, w.proxy = some proxy → net.secure proxy = true
    · exact ⟨_, _, .tlsConnect hsecure⟩
    · push Not at hsecure
      obtain ⟨proxy, hproxy, hfault⟩ := hsecure
      exact ⟨_, _, .tlsFault .io hproxy (by simpa using hfault)⟩
  | borrow => exact ⟨_, _, .borrow⟩
  | tunnel | read | write | shutdown | select | resetIdle | relayComplete => exact halike trivial

/-- Everything may happen that a network with faults allows. -/
theorem upstream_simulates :
    Simulates id (UpstreamAnswer net runtime) (Answer True) := by
  intro call w r w' h
  cases h with
  | connect => exact .connect _
  | refused => exact .connectFault trivial
  | serverName => exact .serverName _
  | tlsConnect => exact .tlsConnect
  | tlsFault => exact .tlsFault trivial
  | borrow => exact .borrow runtime
  | alike _ h =>
    cases h with
    | connect => exact .connect _
    | serverName => exact .serverName _
    | tlsConnect => exact .tlsConnect
    | tunnel => exact .tunnel
    | read h => exact .read h
    | write hle hpos => exact .write hle hpos
    | shutdown => exact .shutdown
    | idle => exact .idle
    | branch hguard h => exact .branch hguard h
    | resetIdle => exact .resetIdle
    | borrow => exact .borrow _
    | relayComplete => exact .relayComplete
    | connectFault hf | tlsFault hf | readFault hf | writeFault hf | shutdownFault hf =>
      exact hf.elim
    | branchFault _ hf => exact hf.elim

/-- A program of calls that are answered alike. -/
theorem wp_alike {I : Option Call → Wire → Prop} {Q : Except Error α → Wire → Prop}
    (hp : p.Only Call.Alike) (h : wp (Answer False) I p Q w) :
    wp (UpstreamAnswer net runtime) I p Q w := by
  refine h.of_part hp fun call w r w' hcall hr => ?_
  cases hr with
  | alike _ hr => exact hr
  | connect | refused | serverName | tlsConnect | tlsFault | borrow => exact hcall.elim

theorem Call.Exchange.alike {i : Call} (h : i.Exchange) : i.Alike := by
  cases i <;> trivial

/-! ## One proxy -/

/-- The reply of an HTTP proxy decides. -/
theorem wp_connectVerdict {bytes : Bytes} (hbytes : w.remaining .upstream = bytes) :
    wp (Answer False) (fun _ _ => True) (proxy.httpConnect target)
      (fun r w' => w'.proxy = w.proxy ∧ match r with
        | .ok _ => ¬ RejectsConnect bytes
        | .error _ => ¬ OpensConnect bytes) w := by
  refine wp.bind (wp_writeAll (fun _ _ _ => trivial) ?_ fun hf => hf.elim)
  refine wp.bind (wp.of_ends fun r w' hr => ?_)
  rw [readConnectResponse_eq] at hr
  have hstream {buf : Bytes}
      (hc : Consumes .upstream buf (w.write .upstream (proxy.connectRequest target)) w') :
      bytes = buf ++ w'.remaining .upstream ∧ w'.proxy = w.proxy := by
    have htaken := hc.taken
    rw [remaining_write, hbytes] at htaken
    obtain ⟨u, f, rfl⟩ := hc.frame
    exact ⟨htaken, rfl⟩
  have hhead {buf : Bytes} (h : responseCollector.check buf = none) : headerEnd buf = none := by
    rwa [responseCollector_check, Option.map_eq_none_iff] at h
  cases Collector.stops_of_ends hr with
  | @verdict buf more _ _ hopen hle hverdict hc =>
    obtain ⟨rfl, hproxy⟩ := hstream hc
    rw [responseCollector_check, Option.map_eq_some_iff] at hverdict
    obtain ⟨stop, hstop, rfl⟩ := hverdict
    have hend : headerEnd ((buf ++ more) ++ w'.remaining .upstream) = some stop :=
      Search.find_append hstop _
    have hlen : stop + 4 ≤ (buf ++ more).length := Search.find_le hstop
    have htake : ((buf ++ more) ++ w'.remaining .upstream).take stop = (buf ++ more).take stop :=
      List.take_append_of_le_length (by omega)
    have hlimit : stop + 4 ≤ maxHttpHeader + 512 := by
      have hopen : buf.length ≤ maxHttpHeader := hopen.1
      have hle : more.length ≤ 512 := hle
      rw [List.length_append] at hlen
      omega
    refine wp.bind (wp_ofExcept trivial ?_)
    cases hstatus : checkStatus ((buf ++ more).take stop) with
    | ok u =>
      refine ⟨trivial, hproxy, fun hrejects => hrejects stop hend hlimit ?_⟩
      rw [htake, hstatus]
    | error e =>
      refine ⟨hproxy, ?_⟩
      rintro ⟨stop', hstop', -, hok⟩
      obtain rfl := Option.some.inj (hend.symm.trans hstop')
      rw [htake, hstatus] at hok
      cases hok
  | @closed buf _ hopen hend hc =>
    obtain ⟨rfl, hproxy⟩ := hstream hc
    refine ⟨hproxy, ?_⟩
    rintro ⟨stop, hstop, -⟩
    have hrest : w'.remaining .upstream = [] := hend
    rw [hrest, List.append_nil] at hstop
    rcases hopen.2 with rfl | hnone
    · cases hstop
    · rw [hhead hnone] at hstop
      cases hstop
  | tooLong hlong _ hnone hc =>
    obtain ⟨rfl, hproxy⟩ := hstream hc
    refine ⟨hproxy, ?_⟩
    rintro ⟨stop, hstop, hlimit, -⟩
    have hlong : maxHttpHeader < _ := hlong
    have hin := Search.find_of_append hstop (show stop + 4 ≤ _ by omega)
    cases (hhead hnone).symm.trans hin

/-- The TLS handshake with a proxy. -/
theorem wp_secured (hproxy : w.proxy = some proxy) :
    wp (UpstreamAnswer net runtime) (fun _ _ => True) proxy.tlsConnect
      (fun r w' => w' = w ∧ (r = .ok () ↔ net.Secures proxy)) w := by
  unfold ProxyConfig.tlsConnect Upstreams.Secures
  split
  · next hconnector =>
    refine wp_call.mpr ⟨trivial, fun valid w₁ hr => ?_⟩
    cases hr with
    | alike hcall => exact hcall.elim
    | serverName =>
      cases hname : net.serverName proxy.host with
      | false => exact ⟨trivial, rfl, by simp⟩
      | true =>
        refine wp.mapError (wp_call.mpr ⟨trivial, fun r w₂ hr => ?_⟩)
        cases hr with
        | alike hcall => exact hcall.elim
        | tlsConnect hsecure =>
          exact ⟨trivial, rfl, by simp [hconnector, hsecure proxy hproxy, Except.mapError]⟩
        | tlsFault f hfault hsecure =>
          obtain rfl := Option.some.inj (hproxy.symm.trans hfault)
          exact ⟨trivial, rfl, by simp [hsecure, Except.mapError]⟩
  · next hconnector => exact ⟨trivial, rfl, by simp [hconnector]⟩

/-- What an attempt says about its proxy, and whom its tunnel leads to. -/
def Upstreams.Verdict (net : Upstreams) (target : Target) (proxy : ProxyConfig) :
    Except Error Unit → Wire → Prop
  | .ok (), w => ¬ net.Rejects target proxy ∧ ∀ t, w.tunnel = some t → t.proxy = proxy
  | .error _, _ => ¬ net.Opens target proxy

theorem wp_opened {pre : Bytes} (hproxy : w.proxy = some proxy)
    (hrejects : ¬ net.Rejects target proxy) :
    wp (UpstreamAnswer net runtime) (fun _ _ => True) (ProxyConfig.openTunnel pre)
      (net.Verdict target proxy) w := by
  refine wp_call.mpr ⟨trivial, fun r w' hr => ?_⟩
  cases hr with
  | alike _ hr =>
    cases hr with
    | tunnel =>
      refine ⟨trivial, hrejects, fun t ht => ?_⟩
      obtain ⟨p, hp, rfl⟩ := Option.map_eq_some_iff.mp ht
      exact Option.some.inj (hp.symm.trans hproxy)

theorem wp_httpVerdict {text : String} {bytes : Bytes} (hproxy : w.proxy = some proxy)
    (hbytes : w.remaining .upstream = bytes)
    (hopens : net.Opens target proxy → OpensConnect bytes)
    (hrejects : net.Rejects target proxy → RejectsConnect bytes) :
    wp (UpstreamAnswer net runtime) (fun _ _ => True) (do
      let pre ← Io.timeout text (proxy.httpConnect target)
      ProxyConfig.openTunnel pre) (net.Verdict target proxy) w := by
  have honly := (only_httpConnect proxy target).mono fun _ => Call.Exchange.alike
  refine wp.bind (wp.mapError ((wp_alike honly (wp_connectVerdict hbytes)).mono ?_))
  rintro (e | pre) w' ⟨hsame, hverdict⟩
  · exact fun ho => hverdict (hopens ho)
  · exact wp_opened (hsame.trans hproxy) fun hr => hverdict (hrejects hr)

theorem wp_negotiate {bytes : Bytes} (hsends : net.sends proxy = some bytes)
    (hproxy : w.proxy = some proxy) (hbytes : w.remaining .upstream = bytes) :
    wp (UpstreamAnswer net runtime) (fun _ _ => True) (proxy.negotiate target)
      (net.Verdict target proxy) w := by
  have hopens (h : net.Opens target proxy) : match proxy.kind with
      | .http => OpensConnect bytes
      | .https => net.Secures proxy ∧ OpensConnect bytes
      | .socks5 => proxy.Accepted target bytes := by
    obtain ⟨bytes', hsends', h⟩ := h
    obtain rfl := Option.some.inj (hsends.symm.trans hsends')
    exact h
  have hrejects (h : net.Rejects target proxy) := h bytes hsends
  unfold ProxyConfig.negotiate
  cases hkind : proxy.kind with
  | http =>
    simp only [hkind] at hopens hrejects
    exact wp_httpVerdict hproxy hbytes hopens hrejects
  | https =>
    simp only [hkind] at hopens hrejects
    refine wp.bind ((wp_secured hproxy).mono ?_)
    rintro (e | u) w' ⟨rfl, hsecures⟩
    · exact fun ho => absurd (hsecures.mpr (hopens ho).1) nofun
    · exact wp_httpVerdict hproxy hbytes (fun ho => (hopens ho).2)
        fun hr => hrejects hr (hsecures.mp rfl)
  | socks5 =>
    simp only [hkind] at hopens hrejects
    have honly := (only_socks5Connect proxy target).mono fun _ => Call.Exchange.alike
    have htrue : wp (Answer False) (fun _ _ => True) (proxy.socks5Connect target) _ w :=
      wp_socks5Connect.mono_invariant fun _ _ _ => trivial
    refine wp.bind (wp.mapError ((wp_alike honly htrue).mono ?_))
    rintro (e | u) w' ⟨received, handed, hx, hr⟩
    · intro ho
      obtain ⟨selected, rest, messages, hagreed⟩ := accepted_iff.mp (hopens ho)
      rw [← hbytes] at hagreed
      exact hr.resolve_left not_false selected rest messages hagreed
    · obtain ⟨selected, hagreed⟩ := hr
      obtain ⟨u, f, rfl⟩ := Consumes.frame hx
      rw [hbytes] at hagreed
      exact wp_opened hproxy fun hr => hrejects hr (accepted_iff.mpr ⟨_, _, _, hagreed⟩)

/-- One attempt. -/
theorem wp_served (h : Waiting initial w) :
    wp (UpstreamAnswer net runtime) (fun _ _ => True) (proxy.connect target)
      (fun r w' => Attempted initial r w' ∧ net.Verdict target proxy r w') w := by
  have hwire : wp (Answer True) (fun _ _ => True) (proxy.connect target) (Attempted initial)
      (id w) := wp_attempted h
  have hverdict : wp (UpstreamAnswer net runtime) (fun _ _ => True) (proxy.connect target)
      (net.Verdict target proxy) w := by
    rw [ProxyConfig.connect_eq]
    refine wp.bind (wp.mapError (wp_call.mpr ⟨trivial, fun r w' hr => ?_⟩))
    cases hr with
    | alike hcall => exact hcall.elim
    | refused f hsends =>
      refine ⟨trivial, ?_⟩
      rintro ⟨bytes, hsends', -⟩
      cases hsends.symm.trans hsends'
    | @connect _ _ bytes hsends =>
      refine ⟨trivial, wp_negotiate hsends rfl ?_⟩
      simp [Wire.remaining, Wire.dialled]
  exact ((hwire.of_simulates upstream_simulates).and hverdict).mono_invariant
    fun _ _ _ => trivial

/-! ## The route -/

/-- The proxy is on the route, and it did not reject. All those before it did not open. -/
def Upstreams.Chooses (net : Upstreams) (target : Target) (route : List Hop) (proxy : ProxyConfig) :
    Prop :=
  ∃ tried hop rest, route = tried ++ hop :: rest ∧ hop.proxy = proxy ∧
    (∀ other ∈ tried, ¬ net.Opens target other.proxy) ∧ ¬ net.Rejects target proxy

theorem Upstreams.Chooses.cons {hop : Hop} {hops : List Hop}
    (hhop : ¬ net.Opens target hop.proxy) (h : net.Chooses target hops proxy) :
    net.Chooses target (hop :: hops) proxy := by
  obtain ⟨tried, chosen, rest, rfl, rfl, htried, hchosen⟩ := h
  exact ⟨hop :: tried, chosen, rest, rfl, rfl, List.forall_mem_cons.mpr ⟨hhop, htried⟩, hchosen⟩

/-- The hops are tried in order. -/
theorem wp_tried {hops : List Hop} {last : Option Error} (h : Waiting initial w) :
    wp (UpstreamAnswer net runtime) (fun _ _ => True)
      (connectWithFallback.go (m := Io)
        (fun hop target => (hop.proxy.connect target).attempt) target hops last)
      (fun r w' => match r with
        | .ok (.ok ()) => ∃ t, Opened initial t w' ∧ net.Chooses target hops t.proxy
        | .ok (.error _) =>
          Waiting initial w' ∧ ∀ hop ∈ hops, ¬ net.Opens target hop.proxy
        | .error _ => False) w := by
  induction hops generalizing w last with
  | nil => exact ⟨trivial, h, List.forall_mem_nil _⟩
  | cons hop hops ih =>
    refine wp.bind (wp.attempt ((wp_served h).mono ?_))
    rintro (e | u) w' ⟨hend, hverdict⟩
    · refine (@ih w' (some e) hend).mono ?_
      rintro (e | e | u) w'' hlater
      · exact hlater
      · exact ⟨hlater.1, List.forall_mem_cons.mpr ⟨hverdict, hlater.2⟩⟩
      · obtain ⟨t, ho, hchosen⟩ := hlater
        exact ⟨t, ho, hchosen.cons hverdict⟩
    · obtain ⟨t, ho⟩ := hend
      obtain ⟨hrejects, hproxy⟩ := hverdict
      refine ⟨trivial, t, ho, ?_⟩
      rw [hproxy t ho.flow.tunnel]
      exact ⟨[], hop, hops, rfl, rfl, List.forall_mem_nil _, hrejects⟩

/-! ## The client -/

/-- The target is read, however the client's stream is cut. -/
theorem wp_recognised (h : Recognised client target protocol) :
    wp (Answer False) (fun _ _ => True) (readTarget protocol)
      (fun r _ => ∃ initial, r = .ok (target, initial)) (.fresh client) := by
  cases protocol with
  | http =>
    obtain ⟨htarget, stop, hstop, hlimit⟩ := h
    have hreading := always_iff.mp
      (always_readUntilHeaderEnd (w := .fresh client) hstop hlimit)
    refine wp.mapError (wp.bind (wp.of_ends fun r w' hr => ?_))
    obtain ⟨buf, rfl, -, -, hparse⟩ := hreading r w' hr
    have hbuf : parseHttpHost buf = .ok target := hparse.trans htarget
    refine wp.bind (wp_ofExcept trivial ?_)
    rw [hbuf]
    exact ⟨trivial, buf, rfl⟩
  | https =>
    obtain ⟨⟨hfound, hport⟩, hlimit⟩ := h
    refine wp.mapError (wp.of_ends fun r w' hr => ?_)
    obtain ⟨taken, htaken, hsettled | ⟨-, hend, hmore⟩⟩ := settled_of_ends hr
    · have hclient : client = taken ++ w'.remaining .inbound := htaken
      have hstream := hsettled (w'.remaining .inbound)
      rw [← hclient] at hstream
      cases hstream with
      | @accepted host buf hhost =>
        obtain rfl := ClientHelloStatus.found.inj (hfound.symm.trans hhost)
        refine ⟨buf, ?_⟩
        rw [← hport]
        rfl
      | rejected hreason => cases hfound.symm.trans hreason
      | tooLong =>
        obtain ⟨hlong, hneed⟩ := (sizeError_iff (.fresh client)).mp ⟨w', hr⟩
        rcases hlimit with hlimit | hlimit
        · exact absurd hlong (not_lt.mpr hlimit)
        · exact absurd hneed hlimit
    · have hclient : client = taken := by rw [← List.append_nil taken, ← hend, ← htaken]; rfl
      cases hfound.symm.trans (hclient ▸ hmore)

theorem Answer.incoming {faulty : Prop} {call : Call} {r : Reply call}
    (h : Answer faulty call w r w') : w'.incoming .inbound = w.incoming .inbound := by
  have hread {side : Side} {cap : Nat} {bytes : Bytes} {w' : Wire} (h : w.Read cap side bytes w') :
      w'.incoming .inbound = w.incoming .inbound := by
    cases h <;> rfl
  cases h with
  | read h => exact hread h
  | branch _ h => exact hread h
  | connect => simp [Wire.dialled]
  | connectFault | serverName | tlsConnect | tlsFault | tunnel | readFault | write | writeFault
  | shutdown | shutdownFault | idle | branchFault | resetIdle | borrow | relayComplete => rfl

/-! ## The connection -/

/-- How a connection ends its first part, if the hops of its target are these. -/
def Upstreams.Serves (net : Upstreams) (target : Target) (route : List Hop) (client : Bytes) :
    Except Error (Next Relay Unit) → Wire → Prop
  | .ok next, w => next = .again .init ∧ ∃ t, net.Chooses target route t.proxy ∧ w.Idle t ∧
      w.relayed t .inbound ++ w.remaining .inbound = client
  | .error _, w => (∀ hop ∈ route, ¬ net.Opens target hop.proxy) ∧ w.tunnel = none ∧
      w.written .inbound = []

theorem wp_serving (h : Recognised client target protocol) :
    wp (UpstreamAnswer net runtime) (fun _ _ => True) (handleConnection protocol)
      (fun r w => w.incoming .inbound = client →
        net.Serves target (runtime.router.lookup target.host) client r w) (.fresh client) := by
  have hwaiting : wp (Answer False) (fun _ _ => True) (readTarget protocol)
      (fun r w' => ∀ target initial, r = .ok (target, initial) → Waiting initial w')
      (.fresh client) := by
    refine wp_readTarget (fun _ _ _ _ => trivial) (fun found initial w' hc _ => ?_)
      fun e _ w' _ found initial => nofun
    rintro found initial ⟨⟩
    exact (waiting_fresh client).read hc
  have honly : (readTarget protocol).Only Call.Alike := by
    refine (only_readTarget protocol).mono ?_
    rintro i ⟨cap, rfl⟩
    trivial
  have hreading := (wp_recognised h).and hwaiting
  refine wp.bind ((wp_alike honly (hreading.mono_invariant fun _ _ _ => trivial)).mono ?_)
  rintro _ w₁ ⟨⟨initial, rfl⟩, hw₁⟩
  refine wp.bind (wp_call.mpr ⟨trivial, fun routed w₂ hr => ?_⟩)
  cases hr with
  | alike hcall => exact hcall.elim
  | borrow =>
    refine ⟨trivial, wp.bind ((wp_tried (hw₁ target initial rfl)).mono ?_)⟩
    rintro (e | e | u) w₂ hend
    · exact hend.elim
    · exact wp.bind ⟨trivial, fun _ => ⟨hend.2, hend.1.tunnel, hend.1.written⟩⟩
    · obtain ⟨t, ho, hchosen⟩ := hend
      have hhanded : (w₂.write .upstream initial).Idle t := by
        have hpending : Function.update (fun _ => []) Side.inbound initial Side.inbound =
            initial ++ [] := by simp
        have hflow := ho.flow.write hpending
        rwa [update_nil .inbound _ fun s hs => by simp [hs]] at hflow
      have hwriting : wp (Answer False) (fun _ _ => True) (Io.writeAll .upstream initial)
          (fun r w' => r = .ok () ∧ w'.Idle t) w₂ :=
        wp_writeAll (fun _ _ _ => trivial) ⟨rfl, hhanded⟩ fun hf => hf.elim
      refine wp.bind ⟨trivial, wp.bind (wp.mapError ?_)⟩
      refine (wp_alike (Io.only_writeAll fun _ => trivial) hwriting).mono ?_
      rintro _ w₃ ⟨rfl, hidle⟩
      refine ⟨trivial, fun hclient => ⟨rfl, t, hchosen, hidle, ?_⟩⟩
      have hsplit := hidle.split .inbound
      have hstream : w₃.stream t .inbound = some client := congrArg some hclient
      exact (Option.some.inj (hstream.symm.trans hsplit)).symm

/-- A connection whose client names its target always comes to an end of its first part. It is
relayed through a proxy that opens a tunnel if there is one on the route, and the client gets
nothing if there is none. -/
theorem handleConnection_serves (net : Upstreams) (runtime : Runtime)
    (protocol : InboundProtocol) (client : Bytes) (target : Target)
    (h : Recognised client target protocol) :
    (∃ r w, Ends (UpstreamAnswer net runtime) (handleConnection protocol) (.fresh client) r w) ∧
      ∀ r w, Ends (UpstreamAnswer net runtime) (handleConnection protocol) (.fresh client) r w →
        net.Serves target (runtime.router.lookup target.host) client r w := by
  refine ⟨exists_ends (exists_upstreamAnswer net runtime) _ _, fun r w hr => ?_⟩
  have hkept : wp (Answer True) (fun _ _ => True) (handleConnection protocol)
      (fun _ w => w.incoming .inbound = client) (id (.fresh client)) :=
    wp_of_kept (Prog.only_true _) (fun _ _ _ _ => trivial)
      (fun _ _ _ _ _ hkept hr => hr.incoming.trans hkept) rfl
  exact (wp_serving h).ends hr ((hkept.of_simulates upstream_simulates).ends hr)

/-- The first proxy refuses the connection. All runs are relayed through the second one. -/
theorem handleConnection_serves_second :
    let second : ProxyConfig := { plainHttpProxy with port := 8081 }
    let net : Upstreams := {
      sends := fun proxy => if proxy = second then some (ascii "HTTP/1.1 200 OK\r\n\r\n") else none
      serverName := fun _ => true
      secure := fun _ => true }
    let hello := helloRecord (ascii "example.com") (by decide)
    (∃ r w, Ends (UpstreamAnswer net twoHops) (handleConnection .https) (.fresh hello) r w) ∧
      ∀ r w, Ends (UpstreamAnswer net twoHops) (handleConnection .https) (.fresh hello) r w →
        r = .ok (.again .init) ∧ ∃ t, w.tunnel = some t ∧ t.proxy = second := by
  intro second net hello
  have hfound : parseTlsSni hello = found (ascii "example.com") :=
    parseTlsSni_helloRecord _ _ (by decide) (by decide)
  have hshort : hello.length ≤ maxClientHello := by
    rw [length_helloRecord]
    decide
  have hreply : OpensConnect (ascii "HTTP/1.1 200 OK\r\n\r\n") :=
    ⟨15, by decide, by decide, by decide⟩
  have hopens : net.Opens ⟨ascii "example.com", 443⟩ second := ⟨_, by simp [net], hreply⟩
  obtain ⟨hrun, hserves⟩ := handleConnection_serves net twoHops .https hello
    ⟨ascii "example.com", 443⟩ ⟨⟨hfound, rfl⟩, .inl hshort⟩
  refine ⟨hrun, fun r w hr => ?_⟩
  have hroute : twoHops.router.lookup (ascii "example.com") =
      [⟨ascii "jp", plainHttpProxy⟩, ⟨ascii "us", second⟩] := rfl
  have hserved := hserves r w hr
  rw [hroute] at hserved
  cases r with
  | error e =>
    refine absurd hopens (hserved.1 ⟨ascii "us", second⟩ ?_)
    exact List.mem_cons_of_mem _ List.mem_cons_self
  | ok next =>
    obtain ⟨rfl, t, ⟨tried, hop, rest, hsplit, hproxy, -, hrejects⟩, hidle, -⟩ := hserved
    refine ⟨rfl, t, hidle.tunnel, ?_⟩
    have hmem : hop ∈ [⟨ascii "jp", plainHttpProxy⟩, (⟨ascii "us", second⟩ : Hop)] := by
      rw [hsplit]
      exact List.mem_append_right _ List.mem_cons_self
    have hrefused : net.Rejects ⟨ascii "example.com", 443⟩ plainHttpProxy :=
      fun bytes hsends => absurd hsends (by simp [net, second, plainHttpProxy])
    simp only [List.mem_cons, List.not_mem_nil, or_false] at hmem
    obtain rfl | rfl := hmem
    · exact absurd (hproxy ▸ hrefused) hrejects
    · exact hproxy.symm

end Serving

end NyaSniProxy
