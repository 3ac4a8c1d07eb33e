import NyaSniProxy.Connection.Run
import NyaSniProxy.Connection.Transparency

/-!
# The route of a connection

A `Session` is the wire of a connection with what the connection did to be routed: the runtime it
borrowed, and the proxies it dialled. In every run the dialled proxies are the first ones on the
route of the target, in its order. One is dialled only while no tunnel is open, a tunnel leads to
the one dialled last, and a connection that gives up without a tunnel has dialled them all.
-/

namespace NyaSniProxy

open Text Interaction Wire Prog

structure Session where
  wire : Wire
  routed : Option Runtime
  dialled : List ProxyConfig

namespace Session

def fresh (client : Bytes) : Session := ⟨.fresh client, none, []⟩

/-- The session behind a call that leaves this wire. -/
def after (s : Session) (wire : Wire) : (call : Call) → Reply call → Session
  | .borrow, runtime => { s with wire, routed := some runtime }
  | .connect proxy, _ => { s with wire, dialled := s.dialled ++ [proxy] }
  | _, _ => { s with wire }

end Session

/-- The runtime that is borrowed is one that is in force. -/
def Served (inForce : Runtime → Prop) : (call : Call) → Reply call → Prop
  | .borrow, runtime => inForce runtime
  | _, _ => True

/-- The answers to a connection, of a network in which everything may fail. -/
def SessionAnswer (inForce : Runtime → Prop) : Env Call Reply Session := fun call s r s' =>
  ∃ wire, Answer True call s.wire r wire ∧ s' = s.after wire call r ∧ Served inForce call r

/-- The calls that leave the route, the dialled proxies and the tunnel as they are. -/
def Call.Steady : Call → Prop
  | .borrow | .connect _ | .tunnel _ => False
  | _ => True

/-- The two sessions differ in nothing but what was read and written. -/
def Session.Same (s s' : Session) : Prop :=
  s'.routed = s.routed ∧ s'.dialled = s.dialled ∧ s'.wire.tunnel = s.wire.tunnel ∧
    s'.wire.proxy = s.wire.proxy

section Steady

variable {inForce : Runtime → Prop} {s s' : Session}

theorem session_simulates : Simulates Session.wire (SessionAnswer inForce) (Answer True) := by
  rintro call s r s' ⟨wire, hanswer, rfl, -⟩
  cases call <;> exact hanswer

theorem Read.same {w w' : Wire} {side : Side} {cap : Nat} {bytes : Bytes}
    (h : w.Read cap side bytes w') : w'.tunnel = w.tunnel ∧ w'.proxy = w.proxy := by
  cases h <;> exact ⟨rfl, rfl⟩

theorem SessionAnswer.same {call : Call} {r : Reply call} (hcall : call.Steady)
    (h : SessionAnswer inForce call s r s') : s.Same s' := by
  obtain ⟨wire, hanswer, rfl, -⟩ := h
  cases hanswer with
  | connect | connectFault | tunnel | borrow => exact hcall.elim
  | read hread => exact ⟨rfl, rfl, Read.same hread⟩
  | branch _ hread => exact ⟨rfl, rfl, Read.same hread⟩
  | serverName | tlsConnect | tlsFault | readFault | write | writeFault | shutdown
  | shutdownFault | idle | branchFault | resetIdle | relayComplete => exact ⟨rfl, rfl, rfl, rfl⟩

theorem SessionAnswer.of_answer {call : Call} {r : Reply call} {w : Wire} (hcall : call.Steady)
    (h : Answer True call s.wire r w) : SessionAnswer inForce call s r { s with wire := w } := by
  refine ⟨w, h, ?_, ?_⟩ <;> cases call <;> first | rfl | exact hcall.elim | trivial

theorem Call.Handshake.steady {i : Call} (h : i.Handshake) : i.Steady := by
  cases i <;> trivial

/-- A program of steady calls. -/
theorem wp_steady {α : Type} {p : Io α} {I : Option Call → Session → Prop}
    (hp : p.Only Call.Steady)
    (hI : ∀ c s', (∀ i, c = some i → i.Steady) → s.Same s' → I c s') :
    wp (SessionAnswer inForce) I p (fun _ s' => s.Same s') s := by
  refine wp_of_kept hp hI (fun call s₁ r s₂ hcall h hr => ?_) ⟨rfl, rfl, rfl, rfl⟩
  obtain ⟨hrouted, hdialled, htunnel, hproxy⟩ := hr.same hcall
  exact ⟨hrouted.trans h.1, hdialled.trans h.2.1, htunnel.trans h.2.2.1, hproxy.trans h.2.2.2⟩

theorem steady_readTarget (protocol : InboundProtocol) :
    (readTarget protocol).Only Call.Steady := by
  refine (only_readTarget protocol).mono ?_
  rintro i ⟨cap, rfl⟩
  trivial

theorem steady_copyChunk (result : Except Fault Bytes) (sink : Side)
    (readText shutdownText writeText : String) :
    (copyChunk result sink readText shutdownText writeText).Only Call.Steady := by
  refine .bind (.mapError (Io.only_fallible _)) fun chunk => ?_
  split
  · exact .bind (.mapError ⟨trivial, Io.only_fallible⟩) fun _ => trivial
  · refine .bind (.mapError (Io.only_writeAll fun _ => trivial)) fun _ => ?_
    exact .bind ⟨trivial, fun _ => trivial⟩ fun _ => trivial

theorem steady_relayConnection (v : Relay) : (relayConnection v).Only Call.Steady := by
  refine .bind (.mapError ?_) fun next => ?_
  · unfold copyBidirectional
    split
    · trivial
    · refine .bind ⟨trivial, fun _ => trivial⟩ fun branch => ?_
      split
      · trivial
      · exact .bind (steady_copyChunk _ _ _ _ _) fun n => by split <;> trivial
      · exact .bind (steady_copyChunk _ _ _ _ _) fun n => by split <;> trivial
  · cases next with
    | again v => trivial
    | exit counters => exact ⟨trivial, fun _ => trivial⟩

end Steady

/-! ## One hop -/

namespace ProxyConfig

/-- What the proxy is called in messages. -/
def label (self : ProxyConfig) : String :=
  match self.kind with
  | .http => "HTTP proxy"
  | .https => "HTTPS proxy"
  | .socks5 => "SOCKS5 proxy"

/-- What follows once the proxy is connected. -/
def negotiate (self : ProxyConfig) (target : Target) : Io Unit :=
  match self.kind with
  | .http => do
    let pre ← Io.timeout "timed out during HTTP proxy CONNECT" (self.httpConnect target)
    openTunnel pre
  | .https => do
    self.tlsConnect
    let pre ← Io.timeout "timed out during HTTPS proxy CONNECT" (self.httpConnect target)
    openTunnel pre
  | .socks5 => do
    Io.timeout "timed out during SOCKS5 handshake" (self.socks5Connect target)
    openTunnel []

theorem connect_eq (self : ProxyConfig) (target : Target) :
    self.connect target = self.tcpConnect self.label >>= fun _ => self.negotiate target := by
  unfold connect label negotiate
  cases self.kind <;> rfl

/-- A handshake, and the tunnel behind it. -/
theorem only_negotiate (self : ProxyConfig) (target : Target) :
    (self.negotiate target).Only fun i => i.Handshake ∨ ∃ pre, i = .tunnel pre := by
  have hhandshake {α : Type} {p : Io α} (h : p.Only Call.Handshake) :
      p.Only fun i => i.Handshake ∨ ∃ pre, i = .tunnel pre := h.mono fun _ => .inl
  have hopen (pre : Bytes) : (openTunnel pre).Only fun i => i.Handshake ∨ ∃ pre, i = .tunnel pre :=
    ⟨.inr ⟨pre, rfl⟩, fun _ => trivial⟩
  have hexchange {α : Type} {p : Io α} (h : p.Only Call.Exchange) :
      p.Only fun i => i.Handshake ∨ ∃ pre, i = .tunnel pre :=
    hhandshake (h.mono fun _ => Call.Exchange.handshake)
  have hhttp := hexchange (only_httpConnect self target)
  unfold negotiate
  cases self.kind with
  | http => exact .bind (.mapError hhttp) hopen
  | https =>
    have htls : self.tlsConnect.Only Call.Handshake :=
      only_tlsConnect self (fun _ => trivial) trivial
    exact .bind (hhandshake htls) fun _ => .bind (.mapError hhttp) hopen
  | socks5 =>
    exact .bind (.mapError (hexchange (only_socks5Connect self target))) fun _ => hopen []

end ProxyConfig

section Hop

variable {inForce : Runtime → Prop} {s s' : Session} {proxy : ProxyConfig} {target : Target}
  {routed : Option Runtime} {dialled : List ProxyConfig}

/-- The proxy was dialled last, and a tunnel can lead to no other one. -/
structure DialledLast (routed : Option Runtime) (dialled : List ProxyConfig) (proxy : ProxyConfig)
    (s : Session) : Prop where
  routed : s.routed = routed
  dialled : s.dialled = dialled ++ [proxy]
  tunnel : ∀ t, s.wire.tunnel = some t → t.proxy = proxy

theorem DialledLast.answer {call : Call} {r : Reply call}
    (h : DialledLast routed dialled proxy s ∧ s.wire.proxy = some proxy)
    (hcall : call.Handshake ∨ ∃ pre, call = .tunnel pre)
    (hr : SessionAnswer inForce call s r s') :
    DialledLast routed dialled proxy s' ∧ s'.wire.proxy = some proxy := by
  obtain ⟨hlast, hproxy⟩ := h
  obtain hcall | ⟨pre, rfl⟩ := hcall
  · obtain ⟨hrouted, hdialled, htunnel, hsame⟩ := hr.same hcall.steady
    exact ⟨⟨hrouted.trans hlast.routed, hdialled.trans hlast.dialled, htunnel ▸ hlast.tunnel⟩,
      hsame.trans hproxy⟩
  · obtain ⟨wire, hanswer, rfl, -⟩ := hr
    cases hanswer with
    | tunnel =>
      refine ⟨⟨hlast.routed, hlast.dialled, fun t ht => ?_⟩, hproxy⟩
      obtain ⟨p, hp, rfl⟩ := Option.map_eq_some_iff.mp ht
      exact Option.some.inj (hp.symm.trans hproxy)

/-- The attempt is about to dial its proxy, or it has dialled it and dials no more. -/
def Attempting (s : Session) (proxy : ProxyConfig) (c : Option Call) (s' : Session) : Prop :=
  (c = some (.connect proxy) ∧ s' = s) ∨
    DialledLast s.routed s.dialled proxy s' ∧ ∀ p, c ≠ some (.connect p)

theorem wp_attempt (inForce : Runtime → Prop) (htunnel : s.wire.tunnel = none) :
    wp (SessionAnswer inForce) (Attempting s proxy) (proxy.connect target)
      (fun _ s' => DialledLast s.routed s.dialled proxy s') s := by
  rw [ProxyConfig.connect_eq]
  refine wp.bind (wp.mapError (wp_call.mpr ⟨.inl ⟨rfl, rfl⟩, ?_⟩))
  rintro r s' ⟨wire, hanswer, rfl, -⟩
  cases hanswer with
  | connect bytes =>
    have hlast : DialledLast s.routed s.dialled proxy
        (s.after (s.wire.dialled proxy bytes) (.connect proxy) (.ok ())) := ⟨rfl, rfl, nofun⟩
    refine ⟨.inr ⟨hlast, nofun⟩, ?_⟩
    refine wp.mono (wp_of_kept (proxy.only_negotiate target) (fun c s' hc h => ?_)
      (fun call s₁ r s₂ hcall h hr => DialledLast.answer h hcall hr) ⟨hlast, rfl⟩) fun _ _ h => h.1
    refine .inr ⟨h.1, ?_⟩
    rintro p rfl
    obtain hcall | ⟨pre, hcall⟩ := hc _ rfl
    · exact hcall
    · cases hcall
  | @connectFault _ _ f =>
    have hlast : DialledLast s.routed s.dialled proxy
        (s.after s.wire (.connect proxy) (.error f)) :=
      ⟨rfl, rfl, fun t ht => absurd (htunnel.symm.trans ht) nofun⟩
    exact ⟨.inr ⟨hlast, nofun⟩, hlast⟩

end Hop

/-! ## The whole connection -/

/-- The proxies on the route of the target that the client's first bytes name. -/
def Route (protocol : InboundProtocol) (client : Bytes) (runtime : Runtime)
    (route : List ProxyConfig) : Prop :=
  ∃ target initial, initial <+: client ∧ Parsed initial target protocol ∧
    route = (runtime.router.lookup target.host).map Hop.proxy

/-- What holds at every point of a connection. -/
structure RouteTaken (inForce : Runtime → Prop) (protocol : InboundProtocol) (client : Bytes)
    (c : Option Call) (s : Session) : Prop where
  unrouted : s.routed = none → s.dialled = []
  routed : ∀ runtime, s.routed = some runtime → inForce runtime ∧
    ∃ route, Route protocol client runtime route ∧ s.dialled <+: route
  /-- A proxy is dialled while no tunnel is open. -/
  dial : ∀ proxy, c = some (.connect proxy) → s.wire.tunnel = none
  /-- A tunnel leads to the proxy that was dialled last. -/
  tunnel : ∀ t, s.wire.tunnel = some t → s.dialled.getLast? = some t.proxy

/-- The connection has a tunnel. -/
def Session.Tunnelled (s : Session) : Prop := ∃ t, s.wire.tunnel = some t

/-- A connection that ends has a tunnel, or it has dialled its whole route. -/
def GaveUp (protocol : InboundProtocol) (client : Bytes) : Except Error Unit → Session → Prop
  | .ok (), s => s.Tunnelled
  | .error _, s => s.wire.tunnel = none → ∀ runtime, s.routed = some runtime →
    Route protocol client runtime s.dialled

section Connection

variable {inForce : Runtime → Prop} {protocol : InboundProtocol} {client initial : Bytes}
  {runtime : Runtime} {target : Target} {s s' : Session} {c : Option Call}

theorem Session.Same.tunnelled (h : s.Same s') (ht : s.Tunnelled) : s'.Tunnelled := by
  obtain ⟨t, ht⟩ := ht
  exact ⟨t, h.2.2.1.trans ht⟩

theorem RouteTaken.same (h : RouteTaken inForce protocol client none s) (hs : s.Same s')
    (hc : ∀ i, c = some i → i.Steady) : RouteTaken inForce protocol client c s' := by
  obtain ⟨hrouted, hdialled, htunnel, -⟩ := hs
  refine ⟨?_, ?_, ?_, ?_⟩
  · rw [hrouted, hdialled]
    exact h.unrouted
  · rw [hrouted, hdialled]
    exact h.routed
  · rintro proxy rfl
    exact (hc _ rfl).elim
  · rw [htunnel, hdialled]
    exact h.tunnel

/-- The state between two attempts. -/
structure Between (inForce : Runtime → Prop) (protocol : InboundProtocol) (client initial : Bytes)
    (runtime : Runtime) (tried rest : List Hop) (s : Session) : Prop where
  waiting : Waiting initial s.wire
  routed : s.routed = some runtime
  inForce : inForce runtime
  dialled : s.dialled = tried.map Hop.proxy
  route : Route protocol client runtime ((tried ++ rest).map Hop.proxy)

theorem Between.routeTaken {tried rest : List Hop}
    (h : Between inForce protocol client initial runtime tried rest s) :
    RouteTaken inForce protocol client c s where
  unrouted := by simp [h.routed]
  routed := by
    intro r hr
    obtain rfl : runtime = r := Option.some.inj (h.routed.symm.trans hr)
    refine ⟨h.inForce, _, h.route, ?_⟩
    rw [h.dialled, List.map_append]
    exact List.prefix_append _ _
  dial := fun _ _ => h.waiting.tunnel
  tunnel := fun t ht => absurd (h.waiting.tunnel.symm.trans ht) nofun

theorem Between.attempting {tried rest : List Hop} {hop : Hop}
    (h : Between inForce protocol client initial runtime tried (hop :: rest) s)
    (ha : Attempting s hop.proxy c s') : RouteTaken inForce protocol client c s' := by
  obtain ⟨-, rfl⟩ | ⟨hlast, hc⟩ := ha
  · exact h.routeTaken
  · refine ⟨by simp [hlast.routed, h.routed], fun r hr => ?_,
      fun proxy hp => absurd hp (hc proxy), fun t ht => ?_⟩
    · obtain rfl : runtime = r :=
        Option.some.inj (h.routed.symm.trans (hlast.routed.symm.trans hr))
      refine ⟨h.inForce, _, h.route, ?_⟩
      rw [hlast.dialled, h.dialled, List.map_append, List.prefix_append_right_inj]
      exact ⟨rest.map Hop.proxy, rfl⟩
    · rw [hlast.dialled, List.getLast?_concat, hlast.tunnel t ht]

/-- Behind one attempt: the tunnel is open, or nothing was handed over. -/
def Attempted (initial : Bytes) : Except Error Unit → Wire → Prop
  | .ok (), w => ∃ t, Opened initial t w
  | .error _, w => Waiting initial w

theorem wp_attempted {proxy : ProxyConfig} {w : Wire} (h : Waiting initial w) :
    wp (Answer True) (fun _ _ => True) (proxy.connect target) (Attempted initial) w :=
  wp_connect (fun _ _ _ => trivial) (fun _ _ _ => trivial) h (fun t _ ho => ⟨t, ho⟩)
    fun _ _ hw => hw

variable (inForce protocol client initial runtime) in
/-- Behind the attempts: the proxy dialled last has opened a tunnel, or all have failed. -/
def TriedAll : Except Error (Except Error Unit) → Session → Prop
  | .ok (.ok ()), s => s.Tunnelled ∧ RouteTaken inForce protocol client none s
  | .ok (.error _), s => ∃ hops, Between inForce protocol client initial runtime hops [] s
  | .error _, _ => False

/-- The hops are tried in order, until one has opened the tunnel. -/
theorem wp_trying {tried rest : List Hop} {last : Option Error}
    (h : Between inForce protocol client initial runtime tried rest s) :
    wp (SessionAnswer inForce) (RouteTaken inForce protocol client)
      (connectWithFallback.go (m := Io)
        (fun hop target => (hop.proxy.connect target).attempt) target rest last)
      (TriedAll inForce protocol client initial runtime) s := by
  induction rest generalizing tried last s with
  | nil => exact ⟨h.routeTaken, tried, h⟩
  | cons hop rest ih =>
    have hwire : wp (Answer True) (fun _ _ => True) (hop.proxy.connect target) (Attempted initial)
        s.wire := wp_attempted h.waiting
    have hboth := (hwire.of_simulates session_simulates).and
      (wp_attempt inForce h.waiting.tunnel)
    refine wp.bind (wp.attempt ((hboth.mono_invariant fun c s' hc => h.attempting hc.2).mono ?_))
    rintro (e | u) s' ⟨hend, hlast⟩
    · have hnext : Between inForce protocol client initial runtime (tried ++ [hop]) rest s' := by
        refine ⟨hend, hlast.routed.trans h.routed, h.inForce, ?_, ?_⟩
        · rw [hlast.dialled, h.dialled]
          simp
        · rw [← List.append_cons]
          exact h.route
      exact ih hnext
    · obtain ⟨t, ho⟩ := hend
      have hnow : RouteTaken inForce protocol client none s' :=
        h.attempting (.inr ⟨hlast, nofun⟩)
      exact ⟨hnow, ⟨t, ho.flow.tunnel⟩, hnow⟩

/-- The relay leaves the route as it is. -/
theorem wp_relayed {v : Relay}
    (h : RouteTaken inForce protocol client none s ∧ s.Tunnelled) :
    wp (SessionAnswer inForce) (RouteTaken inForce protocol client) (relayConnection v)
      (Loop.post (fun _ s => RouteTaken inForce protocol client none s ∧ s.Tunnelled)
        (GaveUp protocol client)) s := by
  refine (wp_steady (steady_relayConnection v) fun c s' hc hs => h.1.same hs hc).mono ?_
  rintro (e | ⟨v' | u⟩) s' hs
  · intro hnone
    obtain ⟨t, ht⟩ := hs.tunnelled h.2
    exact absurd (hnone.symm.trans ht) nofun
  · exact ⟨h.1.same hs nofun, hs.tunnelled h.2⟩
  · exact hs.tunnelled h.2

theorem wp_routing :
    wp (SessionAnswer inForce) (RouteTaken inForce protocol client) (handleConnection protocol)
      (Loop.post (fun _ s => RouteTaken inForce protocol client none s ∧ s.Tunnelled)
        (GaveUp protocol client)) (.fresh client) := by
  have hfresh : RouteTaken inForce protocol client none (.fresh client) :=
    ⟨fun _ => rfl, nofun, nofun, nofun⟩
  -- the target is read, and nothing else is done
  have htarget : wp (Answer True) (fun _ _ => True) (readTarget protocol)
      (fun r w => ∀ target initial, r = .ok (target, initial) →
        Waiting initial w ∧ initial <+: client ∧ Parsed initial target protocol)
      (Session.fresh client).wire := by
    refine wp_readTarget (fun _ _ _ _ => trivial) (fun target bytes w hc hparsed => ?_)
      fun e bytes w _ target initial => nofun
    rintro target initial ⟨⟩
    have htaken : client = bytes ++ w.remaining .inbound := hc.taken
    exact ⟨(waiting_fresh client).read hc, ⟨_, htaken.symm⟩, hparsed⟩
  have hsteady : wp (SessionAnswer inForce) (RouteTaken inForce protocol client)
      (readTarget protocol) (fun _ s => (Session.fresh client).Same s) (.fresh client) :=
    wp_steady (steady_readTarget protocol) fun c s hc hs => hfresh.same hs hc
  have hboth := (htarget.of_simulates session_simulates).and hsteady
  refine wp.bind ((hboth.mono_invariant fun c s hc => hc.2).mono ?_)
  rintro (e | ⟨target, initial⟩) s₁ ⟨hread, hsame⟩
  · intro _ runtime hrouted
    exact absurd (hsame.1.symm.trans hrouted) nofun
  obtain ⟨hwaiting, hprefix, hparsed⟩ := hread target initial rfl
  have hnow (c : Option Call) (hc : ∀ proxy, c ≠ some (.connect proxy)) :
      RouteTaken inForce protocol client c s₁ :=
    ⟨fun _ => hsame.2.1, fun r hr => absurd (hsame.1.symm.trans hr) nofun,
      fun proxy hp => absurd hp (hc proxy),
      fun t ht => absurd (hsame.2.2.1.symm.trans ht) nofun⟩
  refine wp.bind (wp_call.mpr ⟨hnow _ nofun, ?_⟩)
  rintro runtime s₂ ⟨wire, hanswer, rfl, hserved⟩
  cases hanswer with
  | borrow =>
    have hbetween : Between inForce protocol client initial runtime []
        (runtime.router.lookup target.host) (s₁.after s₁.wire .borrow runtime) :=
      ⟨hwaiting, rfl, hserved, hsame.2.1, target, initial, hprefix, hparsed, rfl⟩
    refine ⟨hbetween.routeTaken, wp.bind ((wp_trying hbetween).mono ?_)⟩
    rintro (e | e | u) s₃ h
    · exact h.elim
    · obtain ⟨hops, hend⟩ := h
      refine wp.bind ⟨hend.routeTaken, fun _ r hr => ?_⟩
      obtain rfl : runtime = r := Option.some.inj (hend.routed.symm.trans hr)
      rw [hend.dialled, ← List.append_nil hops]
      exact hend.route
    · obtain ⟨htunnel, hrouted⟩ := h
      refine wp.bind ⟨hrouted, wp.bind (wp.mapError ?_)⟩
      refine (wp_steady (Io.only_writeAll fun _ => trivial)
        fun c s' hc hs => hrouted.same hs hc).mono ?_
      rintro (e | u) s' hs
      · intro hnone
        obtain ⟨t, ht⟩ := hs.tunnelled htunnel
        exact absurd (hnone.symm.trans ht) nofun
      · exact ⟨hrouted.same hs nofun, hrouted.same hs nofun, hs.tunnelled htunnel⟩

/-- What every run of a connection has kept. -/
theorem routed_of_reaches {c : Io (Next Relay Unit) × Session}
    (h : Loop.Reaches (SessionAnswer inForce) relayConnection
      (handleConnection protocol, .fresh client) c) :
    wp (SessionAnswer inForce) (RouteTaken inForce protocol client) c.1
      (Loop.post (fun _ s => RouteTaken inForce protocol client none s ∧ s.Tunnelled)
        (GaveUp protocol client)) c.2 :=
  Loop.reaches (fun _ _ => wp_relayed) wp_routing h

/-- Whatever the client and the proxies send and whatever fails, a connection dials the proxies on
the route of its target in order, one at a time, it relays through the one dialled last, and it
gives up only when it has dialled them all. -/
theorem handleConnection_route (inForce : Runtime → Prop) (protocol : InboundProtocol)
    (client : Bytes) (c : Io (Next Relay Unit) × Session)
    (h : Loop.Reaches (SessionAnswer inForce) relayConnection
      (handleConnection protocol, .fresh client) c) :
    RouteTaken inForce protocol client c.1.pending c.2 ∧
      (∀ v, c.1 = .ret (.again v) → c.2.Tunnelled) ∧
      (c.1 = .ret (.exit ()) → c.2.Tunnelled) ∧
      ∀ e, c.1 = .fail e → c.2.wire.tunnel = none → ∀ runtime, c.2.routed = some runtime →
        Route protocol client runtime c.2.dialled := by
  have hwp := routed_of_reaches h
  refine ⟨hwp.invariant, fun v hv => ?_, fun hexit => ?_, fun e he => ?_⟩
  · rw [hv] at hwp
    exact hwp.2.2
  · rw [hexit] at hwp
    exact hwp.2
  · rw [he] at hwp
    exact hwp.2

end Connection

/-! ## A run -/

section Run

variable (inForce : Runtime → Prop) {α : Type} {p : Io α} {s : Session} {w' : Wire}
  {r : Except Error α}

/-- A run of steady calls does nothing but read and write. -/
theorem Ends.session (hp : p.Only Call.Steady) (h : Ends (Answer True) p s.wire r w') :
    Ends (SessionAnswer inForce) p s r { s with wire := w' } := by
  induction p generalizing s with
  | ret a =>
    obtain ⟨rfl, rfl⟩ := ends_ret.mp h
    exact .ret a s
  | fail e =>
    obtain ⟨rfl, rfl⟩ := ends_fail.mp h
    exact .refl
  | call i k ih =>
    obtain ⟨a, w₁, hanswer, hrest⟩ := ends_call.mp h
    exact .call (.of_answer hp.1 hanswer) (ih a (hp.2 a) hrest)

/-- A run that borrows no runtime keeps the route. -/
theorem Ends.exists_session (hp : p.Only (· ≠ .borrow)) (h : Ends (Answer True) p s.wire r w') :
    ∃ s' : Session, s'.wire = w' ∧ s'.routed = s.routed ∧
      Ends (SessionAnswer inForce) p s r s' := by
  induction p generalizing s with
  | ret a =>
    obtain ⟨rfl, rfl⟩ := ends_ret.mp h
    exact ⟨s, rfl, rfl, .ret a s⟩
  | fail e =>
    obtain ⟨rfl, rfl⟩ := ends_fail.mp h
    exact ⟨s, rfl, rfl, .refl⟩
  | call i k ih =>
    obtain ⟨a, w₁, hanswer, hrest⟩ := ends_call.mp h
    have hcall : SessionAnswer inForce i s a (s.after w₁ i a) ∧ (s.after w₁ i a).wire = w₁ ∧
        (s.after w₁ i a).routed = s.routed := by
      have hi := hp.1
      refine ⟨⟨w₁, hanswer, rfl, ?_⟩, ?_, ?_⟩ <;> cases i <;> first | rfl | trivial
    obtain ⟨hfirst, hwire, hrouted⟩ := hcall
    rw [← hwire] at hrest
    obtain ⟨s', hw', hrouted', hends⟩ := ih a (hp.2 a) hrest
    exact ⟨s', hw', hrouted'.trans hrouted, .call hfirst hends⟩

theorem only_forward (hops : List Hop) (target : Target) (initial : Bytes) :
    (forward hops target initial).Only (· ≠ .borrow) := by
  have hconnect (proxy : ProxyConfig) : (proxy.connect target).Only (· ≠ .borrow) := by
    rw [ProxyConfig.connect_eq]
    refine .bind (.mapError ⟨nofun, Io.only_fallible⟩) fun _ =>
      (ProxyConfig.only_negotiate proxy target).mono ?_
    rintro i (hi | ⟨pre, rfl⟩)
    · rintro rfl
      exact hi
    · exact nofun
  have htry : (connectWithFallback (m := Io)
      (fun hop target => (hop.proxy.connect target).attempt) hops target).Only (· ≠ .borrow) := by
    unfold connectWithFallback
    generalize (none : Option Error) = lastErr
    induction hops generalizing lastErr with
    | nil => trivial
    | cons hop hops ih =>
      refine .bind (.attempt (hconnect hop.proxy)) fun result => ?_
      cases result with
      | ok u => trivial
      | error e => exact ih (some e)
  refine .bind htry fun upstream => .bind ?_ fun _ => ?_
  · cases upstream <;> trivial
  · exact .bind (.mapError (Io.only_writeAll fun _ => nofun)) fun _ => trivial

/-- The turns of the relay read and write. -/
theorem relay_session {c c' : Io (Next Relay Unit) × Wire}
    (h : Loop.Reaches (Answer True) relayConnection c c') (hc : c.1.Only Call.Steady)
    (hs : s.wire = c.2) :
    Loop.Reaches (SessionAnswer inForce) relayConnection (c.1, s)
      (c'.1, { s with wire := c'.2 }) ∧ c'.1.Only Call.Steady := by
  induction h with
  | refl =>
    rw [← hs]
    exact ⟨.refl, hc⟩
  | @tail c₁ c₂ _ hstep ih =>
    obtain ⟨hrun, honly⟩ := ih
    cases hstep with
    | run hstep =>
      cases hstep with
      | @call i k w r w' hr =>
        exact ⟨hrun.tail (.run (.call (.of_answer honly.1 hr))), honly.2 r⟩
    | again => exact ⟨hrun.tail .again, steady_relayConnection _⟩

/-- A connection that opens a tunnel and ends well, for every host and every reply. -/
theorem exists_complete_session {host reply : Bytes} {stop : Nat} {hop : Hop} {runtime : Runtime}
    (h : host.length < 900) (hne : host ≠ []) (hu : IsUtf8 host)
    (hkind : hop.proxy.kind = .http) (hroute : runtime.router.lookup host = [hop])
    (hlen : reply.length ≤ 512) (hstop : headerEnd reply = some stop)
    (hstatus : checkStatus (reply.take stop) = .ok ()) :
    ∃ session : Session, session.routed = some runtime ∧
      session.wire.written .inbound = reply.drop (stop + 4) ∧
      Loop.Reaches (SessionAnswer (· = runtime)) relayConnection
        (handleConnection .https, .fresh (helloRecord host h)) (.ret (.exit ()), session) := by
  let client := helloRecord host h
  let w := (Wire.fresh client).drained .inbound
  have hread := Ends.session (s := .fresh client) (· = runtime) (steady_readTarget .https)
    (readTarget_helloRecord host h True hne hu)
  have hforward : Ends (Answer True) (forward [hop] ⟨host, 443⟩ client) w _ _ :=
    ends_forward hkind hlen hstop hstatus
  obtain ⟨s, hwire, hrouted, hopened⟩ := Ends.exists_session (s := ⟨w, some runtime, []⟩)
    (· = runtime) (only_forward [hop] ⟨host, 443⟩ client) hforward
  rw [← hroute] at hopened
  have hrest : (reply.drop (stop + 4)).length ≤ relayBuffer := by
    rw [List.length_drop, relayBuffer]
    omega
  obtain ⟨w', hwritten, hrelay⟩ := reaches_complete True (w := s.wire)
    (by rw [hwire]; funext side; cases side <;> rfl) (by rw [hwire]; rfl) hrest
  have hopen : Ends (SessionAnswer (· = runtime)) (handleConnection .https) (.fresh client)
      (.ok (.again .init)) s := by
    rw [handleConnection_eq]
    exact hread.bind (Ends.call ⟨_, .borrow runtime, rfl, rfl⟩ hopened)
  have hrun := (relay_session (· = runtime) hrelay (steady_relayConnection .init) rfl).1
  refine ⟨{ s with wire := w' }, hrouted, ?_, (Loop.reaches_again hopen).trans hrun⟩
  rw [hwritten, hwire]
  rfl

/-- A runtime with one route of two proxies. -/
def twoHops : Runtime where
  router := {
    rules := ∅
    default := [⟨ascii "jp", plainHttpProxy⟩, ⟨ascii "us", { plainHttpProxy with port := 8081 }⟩] }
  hostnames := []
  fingerprint := 0

/-- The first proxy has refused the connection, and the second one is dialled. -/
theorem handleConnection_route_second : ∃ c : Io (Next Relay Unit) × Session,
    c.1.pending = some (.connect { plainHttpProxy with port := 8081 }) ∧
      c.2.dialled = [plainHttpProxy] ∧ c.2.wire.tunnel = none ∧
      ∃ route, Route .https (helloRecord (ascii "example.com") (by decide)) twoHops route ∧
        c.2.dialled <+: route := by
  have hread := Ends.session (s := .fresh _) (· = twoHops) (steady_readTarget .https)
    (readTarget_helloRecord (ascii "example.com") (by decide) True (by decide) (by decide))
  obtain ⟨c, hrun, hpending, hdialled, hrouted⟩ :
      ∃ c, Reaches (SessionAnswer (· = twoHops)) (handleConnection .https, .fresh _) c ∧
        c.1.pending = some (.connect { plainHttpProxy with port := 8081 }) ∧
        c.2.dialled = [plainHttpProxy] ∧ c.2.routed = some twoHops :=
    ⟨_, hread.bind_reaches (.head (.call ⟨_, .borrow twoHops, rfl, rfl⟩)
      (.single (.call (r := .error .io) ⟨_, .connectFault trivial, rfl, trivial⟩))), rfl, rfl, rfl⟩
  have hroute := (handleConnection_route _ .https _ c (Loop.reaches_of_reaches hrun)).1
  exact ⟨c, hpending, hdialled, hroute.dial _ hpending, (hroute.routed _ hrouted).2⟩

end Run

end NyaSniProxy
