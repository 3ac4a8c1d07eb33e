import NyaSniProxy.Connection.Flow
import NyaSniProxy.Connection.Target

/-!
# Complete connections

Connections do end well. For every host name and every reply of an HTTP proxy with status 200 there
is a run that opens the tunnel, relays what came behind the reply, passes both ends on and reports.
Each stage of the run is one lemma about the program of that stage.
-/

namespace NyaSniProxy

open Text Interaction Wire

variable {faulty : Prop} {w w₁ : Wire} {proxy : ProxyConfig} {target : Target}

/-! ## Opening -/

/-- The wire behind a CONNECT exchange whose reply was read at once. -/
def Wire.answered (w : Wire) (proxy : ProxyConfig) (target : Target) (reply : Bytes) : Wire :=
  ((w.dialled proxy reply).write .upstream (proxy.connectRequest target)).drained .upstream

theorem ends_httpConnect {reply : Bytes} {stop : Nat} (hlen : reply.length ≤ 512)
    (hstop : headerEnd reply = some stop) (hstatus : checkStatus (reply.take stop) = .ok ()) :
    Ends (Answer faulty) (proxy.httpConnect target) (w.dialled proxy reply)
      (.ok (reply.drop (stop + 4))) (w.answered proxy target reply) := by
  have hne : reply ≠ [] := by
    rintro rfl
    cases hstop
  have hsplit : (splitResponse ([] ++ reply)).map Except.ok =
      some (.ok (reply.take stop, reply.drop (stop + 4)) : Except Error _) := by
    simp [splitResponse, hstop]
  have hread : ((w.dialled proxy reply).write .upstream (proxy.connectRequest target)).Read 512
      .upstream reply (w.answered proxy target reply) :=
    read_drained (fun _ => rfl) (by simp [Wire.write, Wire.dialled]) hlen
  have hresponse : Ends (Answer faulty) readConnectResponse _ _ _ :=
    ends_readUntil hread hne hsplit
  refine ends_writeAll.bind (hresponse.bind (Ends.bind (a := ()) ?_ .refl))
  rw [hstatus]
  exact .refl

theorem ends_connect {reply : Bytes} {stop : Nat} (hkind : proxy.kind = .http)
    (hlen : reply.length ≤ 512) (hstop : headerEnd reply = some stop)
    (hstatus : checkStatus (reply.take stop) = .ok ()) :
    Ends (Answer faulty) (proxy.connect target) w (.ok ())
      ((w.answered proxy target reply).opened (reply.drop (stop + 4))) := by
  have htcp : Ends (Answer faulty) (proxy.tcpConnect "HTTP proxy") w (.ok ())
      (w.dialled proxy reply) :=
    Ends.mapError (r := .ok ()) (Ends.call (.connect reply) (.ret () _))
  have hhttp : Ends (Answer faulty) (Io.timeout "timed out during HTTP proxy CONNECT"
      (proxy.httpConnect target)) _ (.ok (reply.drop (stop + 4))) _ :=
    (ends_httpConnect (w := w) hlen hstop hstatus).mapError
  unfold ProxyConfig.connect
  rw [hkind]
  exact htcp.bind (hhttp.bind (Ends.call .tunnel (.ret () _)))

/-- What `handleConnection` does once it has looked up its hops. -/
def forward (hops : List Hop) (target : Target) (initial : Bytes) : Io (Next Relay Unit) := do
  let upstream ← connectWithFallback
    (fun hop target => (hop.proxy.connect target).attempt) hops target
  .ofExcept upstream
  Io.timeout "timed out writing initial traffic upstream" (.writeAll .upstream initial)
  return .again .init

theorem handleConnection_eq (protocol : InboundProtocol) :
    handleConnection protocol = readTarget protocol >>= fun (target, initial) =>
      Io.borrow >>= fun runtime => forward (runtime.router.lookup target.host) target initial :=
  rfl

theorem ends_forward {initial reply : Bytes} {stop : Nat} {hop : Hop}
    (hkind : hop.proxy.kind = .http) (hlen : reply.length ≤ 512)
    (hstop : headerEnd reply = some stop) (hstatus : checkStatus (reply.take stop) = .ok ()) :
    Ends (Answer faulty) (forward [hop] target initial) w (.ok (.again .init))
      (((w.answered hop.proxy target reply).opened (reply.drop (stop + 4))).write .upstream
        initial) := by
  have hconnect : Ends (Answer faulty) (connectWithFallback (m := Io)
      (fun hop target => (hop.proxy.connect target).attempt) [hop] target) w (.ok (.ok ()))
      ((w.answered hop.proxy target reply).opened (reply.drop (stop + 4))) :=
    Ends.bind (ends_connect hkind hlen hstop hstatus).attempt (.ret _ _)
  exact hconnect.bind (Ends.bind (.ret () _) (Ends.bind (a := ()) ends_writeAll.mapError
    (.ret _ _)))

/-- A client that names a host in a ClientHello gets a tunnel through the only hop there is. -/
theorem ends_handleConnection (faulty : Prop) {host reply : Bytes} {stop : Nat} {hop : Hop}
    {runtime : Runtime} (h : host.length < 900) (hne : host ≠ []) (hu : IsUtf8 host)
    (hkind : hop.proxy.kind = .http)
    (hroute : runtime.router.lookup host = [hop])
    (hlen : reply.length ≤ 512) (hstop : headerEnd reply = some stop)
    (hstatus : checkStatus (reply.take stop) = .ok ()) :
    Ends (Answer faulty) (handleConnection .https) (.fresh (helloRecord host h))
      (.ok (.again .init))
      (((((Wire.fresh (helloRecord host h)).drained .inbound).answered hop.proxy ⟨host, 443⟩
        reply).opened (reply.drop (stop + 4))).write .upstream (helloRecord host h)) := by
  have htarget := readTarget_helloRecord host h faulty hne hu
  have hforward : Ends (Answer faulty) (forward [hop] ⟨host, 443⟩ (helloRecord host h))
      ((Wire.fresh (helloRecord host h)).drained .inbound) _ _ :=
    ends_forward hkind hlen hstop hstatus
  rw [← hroute] at hforward
  rw [handleConnection_eq]
  exact htarget.bind (Ends.call (.borrow runtime) hforward)

/-! ## Relaying -/

theorem not_done_of_guard {v : Relay} {side : Side} (h : v.guard side = true) :
    ¬ (v.aDone && v.bDone) = true := by
  cases side <;> simp_all [Relay.guard]

/-- A chunk may be written at once. -/
theorem ends_copyChunk {side : Side} {bytes : Bytes} {readText shutdownText writeText : String}
    (hne : bytes ≠ []) :
    Ends (Answer faulty) (copyChunk (.ok bytes) side readText shutdownText writeText) w
      (.ok bytes.length) (w.write side bytes) := by
  refine Ends.bind (.ret bytes w) ?_
  simp only [hne, if_false]
  exact Ends.bind (a := ()) ends_writeAll.mapError
    (Ends.bind (a := ()) (Ends.call .resetIdle (.ret () _)) (.ret _ _))

theorem ends_copyChunk_end {side : Side} {readText shutdownText writeText : String} :
    Ends (Answer faulty) (copyChunk (.ok []) side readText shutdownText writeText) w (.ok 0)
      (w.shutdown side) := by
  refine Ends.bind (.ret [] w) ?_
  have hshut : Ends (Answer faulty) (Io.shutdown side) w (.ok ()) (w.shutdown side) :=
    Ends.call .shutdown (.ret () _)
  exact Ends.bind (a := ()) hshut.mapError (.ret _ _)

/-- The variables after an arm that moved `n` bytes, or passed the end on (zero). -/
def Relay.served (v : Relay) (n : Nat) : Side → Relay
  | .inbound => if n = 0 then { v with aDone := true } else { v with aToB := v.aToB + n.toUInt64 }
  | .upstream => if n = 0 then { v with bDone := true } else { v with bToA := v.bToA + n.toUInt64 }

theorem Relay.guard_served (v : Relay) (n : Nat) (side : Side) :
    (v.served n side).guard = if n = 0 then Function.update v.guard side false else v.guard := by
  funext s
  cases side <;> cases s <;> by_cases hn : n = 0 <;> simp [Relay.served, Relay.guard, hn]

variable (faulty)

/-- A turn that serves a read. -/
theorem reaches_turn {v : Relay} {side : Side} {bytes : Bytes} {w' : Wire} {n : Nat}
    (hguard : v.guard side = true) (hread : w.Read relayBuffer side bytes w₁)
    (hcopy : ∀ readText shutdownText writeText, Ends (Answer faulty)
      (copyChunk (.ok bytes) side.other readText shutdownText writeText) w₁ (.ok n) w') :
    Loop.Reaches (Answer faulty) relayConnection
      (relayConnection v, w) (relayConnection (v.served n side), w') := by
  have hselect : Ends (Answer faulty) (Io.select v.guard relayBuffer) w
      (.ok (.read side (.ok bytes))) w₁ :=
    Ends.call (.branch hguard hread) (.ret _ _)
  have hturn : Ends (Answer faulty) (copyBidirectional v) w
      (.ok (.again (v.served n side))) w' := by
    unfold copyBidirectional
    rw [if_neg (not_done_of_guard hguard)]
    refine hselect.bind ?_
    cases side with
    | inbound =>
      refine (hcopy _ _ _).bind ?_
      unfold Relay.served
      split <;> exact .ret _ _
    | upstream =>
      refine (hcopy _ _ _).bind ?_
      unfold Relay.served
      split <;> exact .ret _ _
  exact Loop.reaches_again (Ends.bind (a := .again (v.served n side)) hturn.mapError (.ret _ _))

theorem reaches_chunk (side : Side) {v : Relay} {bytes : Bytes} (hguard : v.guard side = true)
    (hread : w.Read relayBuffer side bytes w₁) (hne : bytes ≠ []) :
    ∃ v' : Relay, v'.guard = v.guard ∧ Loop.Reaches (Answer faulty) relayConnection
      (relayConnection v, w) (relayConnection v', w₁.write side.other bytes) := by
  have hlen : bytes.length ≠ 0 := fun h => hne (List.length_eq_zero_iff.mp h)
  exact ⟨v.served bytes.length side, by rw [v.guard_served, if_neg hlen],
    reaches_turn faulty hguard hread fun _ _ _ => ends_copyChunk hne⟩

theorem reaches_end (side : Side) {v : Relay} (hguard : v.guard side = true)
    (hread : w.Read relayBuffer side [] w₁) :
    ∃ v' : Relay, v'.guard = Function.update v.guard side false ∧
      Loop.Reaches (Answer faulty) relayConnection
        (relayConnection v, w) (relayConnection v', w₁.shutdown side.other) :=
  ⟨v.served 0 side, by rw [v.guard_served, if_pos rfl],
    reaches_turn faulty hguard hread fun _ _ _ => ends_copyChunk_end⟩

/-- With both ends passed on, the connection reports and is over. -/
theorem reaches_exit {v : Relay} (h : ∀ side, v.guard side = false) :
    Loop.Reaches (Answer faulty) relayConnection (relayConnection v, w)
      (.ret (.exit ()), { w with report := some (v.aToB, v.bToA) }) := by
  have hdone : v.aDone = true ∧ v.bDone = true :=
    ⟨by simpa [Relay.guard] using h .inbound, by simpa [Relay.guard] using h .upstream⟩
  have hturn : Ends (Answer faulty) (copyBidirectional v) w (.ok (.exit (v.aToB, v.bToA))) w := by
    unfold copyBidirectional
    rw [hdone.1, hdone.2]
    exact .ret _ _
  have hreport : Ends (Answer faulty) (relayConnection v) w (.ok (.exit ())) _ :=
    Ends.bind (a := Next.exit (v.aToB, v.bToA)) hturn.mapError
      (Ends.call .relayComplete (.ret _ _))
  exact Loop.reaches_of_reaches hreport

theorem PrefixedStream.pollRead_new {rest : Bytes} {cap : Nat} (hne : rest ≠ [])
    (hlen : rest.length ≤ cap) : (new rest).pollRead cap = some (rest, new []) := by
  have hpos := List.length_pos_of_ne_nil hne
  have hcap : 0 < cap := hpos.trans_le hlen
  simp [PrefixedStream.pollRead, PrefixedStream.new, hpos, hcap, min_eq_left hlen]

/-- What is in front of the upstream is one chunk, if there is something. -/
theorem reaches_front {rest : Bytes} (hfront : w.front = .new rest)
    (hlen : rest.length ≤ relayBuffer) :
    ∃ v w', v.guard = Relay.init.guard ∧ w'.unread = w.unread ∧ w'.front = .new [] ∧
      w'.written .inbound = w.written .inbound ++ rest ∧
      Loop.Reaches (Answer faulty) relayConnection
        (relayConnection .init, w) (relayConnection v, w') := by
  by_cases hrest : rest = []
  · subst hrest
    exact ⟨_, w, rfl, rfl, hfront, (List.append_nil _).symm, .refl⟩
  · have hpoll : w.front.pollRead relayBuffer = some (rest, .new []) := by
      rw [hfront]
      exact PrefixedStream.pollRead_new hrest hlen
    obtain ⟨v, hguard, hrun⟩ := reaches_chunk faulty .upstream (v := .init) rfl
      (.front hpoll) hrest
    exact ⟨v, { w with front := .new [] }.write .inbound rest, hguard, rfl, rfl, rfl, hrun⟩

/-- Nothing comes behind what is in front of the upstream, and the client sends nothing more. -/
theorem reaches_complete {rest : Bytes} (hunread : w.unread = fun _ => [])
    (hfront : w.front = .new rest) (hlen : rest.length ≤ relayBuffer) :
    ∃ w', w'.written .inbound = w.written .inbound ++ rest ∧
      Loop.Reaches (Answer faulty) relayConnection (relayConnection .init, w)
        (.ret (.exit ()), w') := by
  obtain ⟨v₁, w₁, hguard₁, hunread₁, hfront₁, hwritten₁, hrun₁⟩ :=
    reaches_front faulty hfront hlen
  rw [hunread] at hunread₁
  obtain ⟨v₂, hguard₂, hrun₂⟩ := reaches_end faulty .upstream (v := v₁)
    (by rw [hguard₁]; rfl)
    (read_drained (fun _ => by rw [hfront₁]; rfl) (by rw [hunread₁]) (Nat.zero_le _))
  obtain ⟨v₃, hguard₃, hrun₃⟩ := reaches_end faulty .inbound (v := v₂)
    (w := (w₁.drained .upstream).shutdown .inbound) (by rw [hguard₂, hguard₁]; rfl)
    (read_drained nofun
      (show Function.update w₁.unread .upstream [] .inbound = [] by rw [hunread₁]; rfl)
      (Nat.zero_le _))
  have hdone (side : Side) : v₃.guard side = false := by
    rw [hguard₃, hguard₂]
    cases side <;> simp
  have hrun := hrun₁.trans (hrun₂.trans (hrun₃.trans (reaches_exit faulty hdone)))
  refine ⟨_, ?_, hrun⟩
  exact hwritten₁

/-- A connection that ends well, for every host and every reply. -/
theorem exists_complete_run (host reply : Bytes) (stop : Nat) (hop : Hop)
    (runtime : Runtime) (h : host.length < 900) (hne : host ≠ []) (hu : IsUtf8 host)
    (hkind : hop.proxy.kind = .http)
    (hroute : runtime.router.lookup host = [hop])
    (hlen : reply.length ≤ 512) (hstop : headerEnd reply = some stop)
    (hstatus : checkStatus (reply.take stop) = .ok ()) :
    ∃ w, w.written .inbound = reply.drop (stop + 4) ∧
      Loop.Reaches (Answer faulty) relayConnection
        (handleConnection .https, .fresh (helloRecord host h)) (.ret (.exit ()), w) := by
  have hopen := ends_handleConnection faulty h hne hu hkind hroute hlen hstop hstatus
  have hrest : (reply.drop (stop + 4)).length ≤ relayBuffer := by
    rw [List.length_drop, relayBuffer]
    omega
  have hunread : (((((Wire.fresh (helloRecord host h)).drained .inbound).answered hop.proxy
      ⟨host, 443⟩ reply).opened (reply.drop (stop + 4))).write .upstream
      (helloRecord host h)).unread = fun _ => [] := by
    funext side
    cases side <;> rfl
  obtain ⟨w, hwritten, hrun⟩ := reaches_complete faulty hunread rfl hrest
  exact ⟨w, hwritten, (Loop.reaches_again hopen).trans hrun⟩

end NyaSniProxy
