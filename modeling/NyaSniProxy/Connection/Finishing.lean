import NyaSniProxy.Connection.Serving
import NyaSniProxy.Library.Termination

/-!
# Connections come to an end

Let the peers send finitely many bytes and take what they get, and let no read, write or shutdown
fail and no timer fire. Then no run of a connection goes on for ever, and every run goes on until
the connection has ended: the client and the proxy have all that the other one has sent, and both
streams are closed, or no proxy on the route has opened a tunnel.

Every turn of the relay leaves less to do. It moves a byte at least, or it closes one direction.
-/

namespace NyaSniProxy

open Text Interaction Wire ClientHelloStatus

/-- The timer of the relay does not fire. -/
def Patient : (call : Call) → Reply call → Prop
  | .select .., .idle => False
  | _, _ => True

/-- The answers to a connection while `runtime` is in force, but for timers. -/
def PatientAnswer (net : Upstreams) (runtime : Runtime) : Env Call Reply Wire := fun call w r w' =>
  UpstreamAnswer net runtime call w r w' ∧ Patient call r

/-- The answers to a relay without faults, but for timers. -/
def PatientRelay : Env Call Reply Wire := fun call w r w' =>
  Answer False call w r w' ∧ Patient call r

/-- The relay waits for some side. -/
def Call.Waits : Option Call → Prop
  | some (.select guard _) => ∃ side, guard side = true
  | _ => True

section Finishing

variable {net : Upstreams} {runtime : Runtime} {α : Type} {w w' w₁ : Wire} {p : Io α} {t : Tunnel}
  {v : Relay} {target : Target} {route : List Hop} {protocol : InboundProtocol} {client : Bytes}

theorem answerable_of_waits {c : Option Call} (h : Call.Waits c) (w : Wire) :
    Answerable (PatientAnswer net runtime) c w := by
  cases c with
  | none => trivial
  | some call =>
    cases call with
    | select guard cap =>
      obtain ⟨side, hside⟩ := h
      obtain ⟨bytes, w', hread⟩ := w.exists_read side cap
      exact ⟨.read side (.ok bytes), w', .alike trivial (.branch hside hread), trivial⟩
    | connect | serverName | tlsConnect | tunnel | read | write | shutdown | resetIdle | borrow
    | relayComplete =>
      obtain ⟨r, w', h⟩ := exists_upstreamAnswer net runtime _ w
      exact ⟨r, w', h, trivial⟩

theorem Call.Early.waits {c : Option Call} (h : ∀ i, c = some i → i.Early) : Call.Waits c := by
  obtain _ | call := c
  · trivial
  · cases call with
    | select guard cap => exact absurd rfl (h _ rfl guard cap)
    | connect | serverName | tlsConnect | tunnel | read | write | shutdown | resetIdle | borrow
    | relayComplete => trivial

/-! ## One turn -/

/-- A chunk is moved as a whole, and nothing is read. -/
theorem wp_copiedChunk {chunk : Bytes} {sink : Side} {readText shutdownText writeText : String} :
    wp (Answer False) (fun _ _ => True) (copyChunk (.ok chunk) sink readText shutdownText writeText)
      (fun r w' => r = .ok chunk.length ∧ ∀ s, w'.remaining s = w.remaining s) w := by
  refine wp.bind ⟨trivial, ?_⟩
  dsimp only
  split
  · next hnil =>
    refine wp.bind (wp.mapError (wp_call.mpr ⟨trivial, fun r w' hr => ?_⟩))
    cases hr with
    | shutdown => exact ⟨trivial, trivial, by rw [hnil]; rfl, fun s => remaining_shutdown w sink s⟩
    | shutdownFault hf => exact hf.elim
  · refine wp.bind (wp.mapError (wp_writeAll (fun _ _ _ => trivial) ?_ fun hf => hf.elim))
    refine wp.bind (wp_call.mpr ⟨trivial, fun r w' hr => ?_⟩)
    cases hr with
    | resetIdle => exact ⟨trivial, trivial, rfl, fun s => remaining_write w sink s chunk⟩

/-- What is left to do for one side: its bytes, and its end. -/
def Relay.left (v : Relay) (w : Wire) (side : Side) : ℕ :=
  (w.remaining side).length + (!v.done side).toNat

/-- What is left to do. -/
def Relay.unfinished (v : Relay) (w : Wire) : ℕ := v.left w .inbound + v.left w .upstream

/-- Less is left for the side that is served, and as much as before for the other one. -/
theorem Relay.unfinished_lt {served : Relay} (source : Side)
    (hsource : served.left w' source < v.left w source)
    (hother : served.left w' source.other = v.left w source.other) :
    served.unfinished w' < v.unfinished w := by
  unfold Relay.unfinished
  cases source with
  | inbound =>
    rw [Side.other_inbound] at hother
    omega
  | upstream =>
    rw [Side.other_upstream] at hother
    omega

/-- An arm of the `select!` and the variables behind it. -/
abbrev copyTurn (chunk : Bytes) (source : Side) (readText shutdownText writeText : String)
    (ended : Relay) (moved : Nat → Relay) : Io (Next Relay (UInt64 × UInt64)) := do
  let n ← copyChunk (.ok chunk) source.other readText shutdownText writeText
  if n = 0 then return .again ended
  return .again (moved n)

/-- One turn of the loop, once a chunk is read. -/
theorem wp_patientTurn (source : Side) {chunk : Bytes}
    {readText shutdownText writeText : String} {ended : Relay} {moved : Nat → Relay}
    (h : v.Tracks w t) (hopen : v.done source = false) (hc : Consumes source chunk w w₁)
    (hempty : chunk = [] → w₁.remaining source = [])
    (hended : ∀ s, ended.count s = v.count s ∧
      ended.done s = if s = source then true else v.done s)
    (hmoved : ∀ n s, (moved n).done s = v.done s ∧
      (moved n).count s = if s = source then v.count s + n.toUInt64 else v.count s) :
    wp (Answer False) (fun _ _ => True)
      (copyTurn chunk source readText shutdownText writeText ended moved)
      (fun r w' => ∃ v' : Relay, r = .ok (.again v') ∧ v'.Tracks w' t ∧
        v'.unfinished w' < v.unfinished w) w₁ := by
  let next : Relay := if chunk.length = 0 then ended else moved chunk.length
  have htracks : wp (Answer False) Pumping
      (copyTurn chunk source readText shutdownText writeText ended moved)
      (fun r w' => ∀ v' : Relay, r = .ok (.again v') → v'.Tracks w' t) w₁ := by
    refine wp_turn source h hc hempty hended hmoved ?_ fun _ _ _ _ => nofun
    rintro v' w' hv _ ⟨⟩
    exact hv
  have hresult : wp (Answer False) (fun _ _ => True)
      (copyTurn chunk source readText shutdownText writeText ended moved)
      (fun r w' => r = .ok (.again next) ∧ ∀ s, w'.remaining s = w₁.remaining s) w₁ := by
    refine wp.bind (wp_copiedChunk.mono ?_)
    rintro _ w' ⟨rfl, hsame⟩
    dsimp only [next]
    split
    · exact ⟨trivial, rfl, hsame⟩
    · exact ⟨trivial, rfl, hsame⟩
  refine ((htracks.and hresult).mono ?_).mono_invariant fun _ _ _ => trivial
  rintro _ w' ⟨htracks, rfl, hsame⟩
  refine ⟨next, rfl, htracks next rfl, Relay.unfinished_lt source ?_ ?_⟩
  · have htaken := congrArg List.length hc.taken
    rw [List.length_append, ← hsame] at htaken
    unfold Relay.left
    dsimp only [next]
    split
    · next hzero =>
      rw [(hended source).2, if_pos rfl, hopen]
      simp only [Bool.not_true, Bool.not_false, Bool.toNat_true, Bool.toNat_false]
      omega
    · next hpos =>
      rw [(hmoved _ source).1]
      omega
  · have hne : source.other ≠ source := by cases source <;> nofun
    unfold Relay.left
    rw [hsame, hc.other _ hne]
    dsimp only [next]
    split
    · rw [(hended _).2, if_neg hne]
    · rw [(hmoved _ _).1]

/-- An arm of the `select!` writes, shuts a write side down and resets the timer. -/
theorem only_copyChunk {P : Call → Prop} {result : Except Fault Bytes} {sink : Side}
    {readText shutdownText writeText : String} (hwrite : ∀ part, P (.write sink part))
    (hshutdown : P (.shutdown sink)) (hreset : P .resetIdle) :
    (copyChunk result sink readText shutdownText writeText).Only P := by
  refine .bind (.mapError (Io.only_fallible result)) fun chunk => ?_
  split
  · exact .bind (.mapError ⟨hshutdown, Io.only_fallible⟩) fun _ => trivial
  · exact .bind (.mapError (Io.only_writeAll hwrite)) fun _ => .bind ⟨hreset, fun _ => trivial⟩
      fun _ => trivial

theorem only_copyTurn {chunk : Bytes} {source : Side} {readText shutdownText writeText : String}
    {ended : Relay} {moved : Nat → Relay} :
    (copyTurn chunk source readText shutdownText writeText ended moved).Only Call.Early := by
  refine (only_copyChunk (fun _ => nofun) nofun nofun).bind fun n => ?_
  split <;> trivial

/-- Some side is open while the loop goes on. -/
theorem Relay.exists_guard (h : ¬ (v.aDone && v.bDone) = true) : ∃ side, v.guard side = true := by
  by_cases ha : v.aDone = true
  · exact ⟨.upstream, by simpa [Relay.guard, ha] using h⟩
  · exact ⟨.inbound, by simpa [Relay.guard] using ha⟩

theorem Relay.done_of_guard {side : Side} (h : v.guard side = true) : v.done side = false := by
  cases side <;> simpa [Relay.guard, Relay.done] using h

variable (w t v) in
/-- The result of a turn that does not fail: less is left to do, or both directions are done. -/
def PatientResult : Except Error (Next Relay (UInt64 × UInt64)) → Wire → Prop
  | .ok (.again v'), w' => v'.Tracks w' t ∧ v'.unfinished w' < v.unfinished w
  | .ok (.exit counters), w' =>
    w' = w ∧ counters = (v.aToB, v.bToA) ∧ ∀ side, v.done side = true
  | .error _, _ => False

theorem wp_patientCopy (h : v.Tracks w t) :
    wp PatientRelay (fun c _ => Call.Waits c) (copyBidirectional v) (PatientResult w t v) w := by
  have hserve (source : Side) {chunk : Bytes} {readText shutdownText writeText : String}
      {ended : Relay} {moved : Nat → Relay} {w₁ : Wire} (hguard : v.guard source = true)
      (hread : w.Read relayBuffer source chunk w₁)
      (hended : ∀ s, ended.count s = v.count s ∧
        ended.done s = if s = source then true else v.done s)
      (hmoved : ∀ n s, (moved n).done s = v.done s ∧
        (moved n).count s = if s = source then v.count s + n.toUInt64 else v.count s) :
      wp PatientRelay (fun c _ => Call.Waits c)
        (copyTurn chunk source readText shutdownText writeText ended moved)
        (PatientResult w t v) w₁ := by
    obtain ⟨hc, -, hnil⟩ := hread.consumes (by decide)
    have hempty (hchunk : chunk = []) : w₁.remaining source = [] := by
      have htaken := hc.taken
      rw [hnil hchunk, hchunk] at htaken
      exact htaken.symm
    have hturn : wp (Answer False) (fun _ _ => True)
        (copyTurn chunk source readText shutdownText writeText ended moved)
        (PatientResult w t v) w₁ := by
      refine (wp_patientTurn source h (Relay.done_of_guard hguard) hc hempty hended hmoved).mono ?_
      rintro _ w' ⟨v', rfl, hv'⟩
      exact hv'
    exact (hturn.of_part (Prog.only_true _) fun _ _ _ _ _ hr => hr.1).of_only only_copyTurn
      fun _ _ _ hearly => Call.Early.waits hearly
  unfold copyBidirectional
  split
  · next hdone =>
    have hboth : v.aDone = true ∧ v.bDone = true := by simpa using hdone
    exact ⟨trivial, rfl, rfl, fun side => by cases side; exacts [hboth.1, hboth.2]⟩
  · next hopen =>
    refine wp_call_bind.mpr ⟨Relay.exists_guard hopen, fun branch w₁ ⟨hanswer, hpatient⟩ => ?_⟩
    cases hanswer with
    | idle => exact hpatient.elim
    | branchFault _ hf => exact hf.elim
    | @branch _ side _ _ bytes _ hguard hread =>
      cases side with
      | inbound =>
        exact hserve .inbound hguard hread (fun s => by cases s <;> exact ⟨rfl, rfl⟩)
          fun n s => by cases s <;> exact ⟨rfl, rfl⟩
      | upstream =>
        exact hserve .upstream hguard hread (fun s => by cases s <;> exact ⟨rfl, rfl⟩)
          fun n s => by cases s <;> exact ⟨rfl, rfl⟩

variable (w t v) in
/-- The result of a turn of the relay: less is left to do, or the connection is complete. -/
def PatientEnd : Except Error (Next Relay Unit) → Wire → Prop
  | .ok (.again v'), w' => v'.Tracks w' t ∧ v'.unfinished w' < v.unfinished w
  | .ok (.exit ()), w' => w'.Complete ∧ w'.tunnel = some t
  | .error _, _ => False

theorem wp_patientRelay (h : v.Tracks w t) :
    wp PatientRelay (fun c _ => Call.Waits c) (relayConnection v) (PatientEnd w t v) w := by
  refine wp.bind (wp.mapError ((wp_patientCopy h).mono ?_))
  rintro (e | v' | counters) w' hresult
  · exact hresult
  · exact ⟨trivial, hresult⟩
  · obtain ⟨rfl, rfl, hdone⟩ := hresult
    refine wp_call.mpr ⟨trivial, fun r w'' ⟨hanswer, _⟩ => ?_⟩
    cases hanswer with
    | relayComplete => exact ⟨trivial, complete_of_tracks h hdone, h.idle.tunnel⟩

/-! ## Where the bytes come from -/

/-- The client sends these bytes, the proxy that was dialled sends its own, and the tunnel leads to
it. -/
structure Upstreams.Feeds (net : Upstreams) (client : Bytes) (w : Wire) : Prop where
  client : w.incoming .inbound = client
  sends : ∀ proxy, w.proxy = some proxy → net.sends proxy = some (w.incoming .upstream)
  tunnel : ∀ t, w.tunnel = some t → w.proxy = some t.proxy

theorem feeds_fresh : net.Feeds client (.fresh client) := ⟨rfl, nofun, nofun⟩

/-- Reads leave it alone what a peer sends. -/
theorem Upstreams.Feeds.read {cap : Nat} {side : Side} {bytes : Bytes} (h : net.Feeds client w)
    (hread : w.Read cap side bytes w') : net.Feeds client w' := by
  cases hread with
  | front => exact ⟨h.client, h.sends, h.tunnel⟩
  | socket => exact ⟨h.client, h.sends, h.tunnel⟩

theorem Upstreams.Feeds.answered {call : Call} {r : Reply call} (h : net.Feeds client w)
    (hr : UpstreamAnswer net runtime call w r w') : net.Feeds client w' := by
  cases hr with
  | connect hsends =>
    refine ⟨?_, ?_, nofun⟩
    · simpa [Wire.dialled] using h.client
    · rintro proxy ⟨⟩
      simpa [Wire.dialled] using hsends
  | refused | serverName | tlsConnect | tlsFault | borrow => exact h
  | alike hcall hr =>
    cases hr with
    | connect | connectFault | serverName | tlsConnect | tlsFault | borrow => exact hcall.elim
    | tunnel =>
      refine ⟨h.client, h.sends, fun t ht => ?_⟩
      obtain ⟨proxy, hproxy, rfl⟩ := Option.map_eq_some_iff.mp ht
      exact hproxy
    | read hread => exact h.read hread
    | branch _ hread => exact h.read hread
    | write => exact ⟨h.client, h.sends, h.tunnel⟩
    | shutdown => exact ⟨h.client, h.sends, h.tunnel⟩
    | relayComplete => exact ⟨h.client, h.sends, h.tunnel⟩
    | idle | resetIdle => exact h
    | readFault hf | writeFault hf | shutdownFault hf => exact hf.elim
    | branchFault _ hf => exact hf.elim

/-! ## The whole connection -/

/-- The loop invariant: the relay serves the proxy that was chosen. -/
def Upstreams.Relays (net : Upstreams) (target : Target) (route : List Hop) (client : Bytes)
    (v : Relay) (w : Wire) : Prop :=
  ∃ t, v.Tracks w t ∧ net.Chooses target route t.proxy ∧ net.Feeds client w

/-- How a connection ends. The client and the proxy have all that the other one has sent, or no
proxy on the route opens a tunnel and the client got nothing. -/
def Upstreams.Finishes (net : Upstreams) (target : Target) (route : List Hop) (client : Bytes) :
    Except Error Unit → Wire → Prop
  | .ok (), w => w.Complete ∧ ∃ t sent, w.tunnel = some t ∧ net.Chooses target route t.proxy ∧
      net.sends t.proxy = some sent ∧ w.relayed t .inbound = client ∧
      tunnelBytes t.proxy sent = some (w.relayed t .upstream)
  | .error _, w => (∀ hop ∈ route, ¬ net.Opens target hop.proxy) ∧ w.tunnel = none ∧
      w.written .inbound = []

theorem only_relayConnection : (relayConnection v).Only Call.Alike := by
  have hcopy {result : Except Fault Bytes} {sink : Side} {readText shutdownText writeText : String}
      {ended : Relay} {moved : Nat → Relay} : (do
        let n ← copyChunk result sink readText shutdownText writeText
        if n = 0 then return .again ended
        return .again (moved n) : Io (Next Relay (UInt64 × UInt64))).Only Call.Alike := by
    refine (only_copyChunk (fun _ => trivial) trivial trivial).bind fun n => ?_
    split <;> trivial
  have hturn : (copyBidirectional v).Only Call.Alike := by
    unfold copyBidirectional
    split
    · trivial
    · refine .bind ⟨trivial, fun _ => trivial⟩ fun branch => ?_
      obtain _ | ⟨_ | _, _⟩ := branch
      · trivial
      · exact hcopy
      · exact hcopy
  refine .bind hturn.mapError fun next => ?_
  cases next with
  | again v => trivial
  | exit counters => exact ⟨trivial, fun _ => trivial⟩

theorem only_handleConnection : (handleConnection protocol).Only Call.Early := by
  have htarget : (readTarget protocol).Only Call.Early := by
    refine (only_readTarget protocol).mono ?_
    rintro i ⟨cap, rfl⟩
    nofun
  refine htarget.bind fun read => .bind ⟨nofun, fun _ => trivial⟩ fun runtime => ?_
  refine (only_connectWithFallback _ _).bind fun upstream => .bind (Io.only_ofExcept _) fun _ => ?_
  exact .bind (.mapError (Io.only_writeAll nofun)) fun _ => trivial

/-- A turn of the relay leaves less to do, or it ends the connection. -/
theorem wp_finishingTurn (h : net.Relays target route client v w) :
    wp (PatientAnswer net runtime) (Answerable (PatientAnswer net runtime)) (relayConnection v)
      (Loop.postBelow (net.Relays target route client) Relay.unfinished
        (net.Finishes target route client) (v.unfinished w)) w := by
  obtain ⟨t, ht, hchosen, hfeeds⟩ := h
  have hrelay : wp (PatientAnswer net runtime) (fun c _ => Call.Waits c) (relayConnection v)
      (PatientEnd w t v) w := by
    refine (wp_patientRelay ht).of_part only_relayConnection fun call w r w' halike hr => ?_
    obtain ⟨hr, hpatient⟩ := hr
    cases hr with
    | alike _ hr => exact ⟨hr, hpatient⟩
    | connect | refused | serverName | tlsConnect | tlsFault | borrow => exact halike.elim
  have hfed : wp (PatientAnswer net runtime) (fun _ _ => True) (relayConnection v)
      (fun _ w => net.Feeds client w) w :=
    wp_of_kept (Prog.only_true _) (fun _ _ _ _ => trivial)
      (fun _ _ _ _ _ hfeeds hr => hfeeds.answered hr.1) hfeeds
  refine ((hrelay.and hfed).mono ?_).mono_invariant fun c w h => answerable_of_waits h.1 w
  rintro (e | v' | u) w' ⟨hr, hfeeds⟩
  · exact hr.elim
  · exact ⟨⟨t, hr.1, hchosen, hfeeds⟩, hr.2⟩
  · obtain ⟨hcomplete, htunnel⟩ := hr
    refine ⟨hcomplete, t, _, htunnel, hchosen, hfeeds.sends _ (hfeeds.tunnel t htunnel), ?_⟩
    obtain ⟨t', htunnel', hboth, -⟩ := hcomplete
    obtain rfl := Option.some.inj (htunnel.symm.trans htunnel')
    have hclient : some (w'.incoming .inbound) = some (w'.relayed t .inbound) := (hboth .inbound).1
    rw [hfeeds.client] at hclient
    exact ⟨(Option.some.inj hclient).symm, (hboth .upstream).1⟩

/-- The first part of a connection. -/
theorem wp_finishingStart (h : Recognised client target protocol) :
    wp (PatientAnswer net runtime) (Answerable (PatientAnswer net runtime))
      (handleConnection protocol)
      (Loop.post (net.Relays target (runtime.router.lookup target.host) client)
        (net.Finishes target (runtime.router.lookup target.host) client)) (.fresh client) := by
  have hfed : wp (UpstreamAnswer net runtime) (fun _ _ => True) (handleConnection protocol)
      (fun _ w => net.Feeds client w) (.fresh client) :=
    wp_of_kept (Prog.only_true _) (fun _ _ _ _ => trivial)
      (fun _ _ _ _ _ hfeeds hr => hfeeds.answered hr) feeds_fresh
  have htracks : wp (Answer True) (Orderly protocol) (handleConnection protocol)
      (Loop.post Relaying Finished) (id (.fresh client)) := wp_handleConnection
  have hall := ((wp_serving h).and hfed).and (htracks.of_simulates upstream_simulates)
  have hpatient : wp (PatientAnswer net runtime) (fun _ _ => True) (handleConnection protocol)
      _ (.fresh client) :=
    (hall.mono_invariant fun _ _ _ => trivial).of_part (Prog.only_true _)
      fun _ _ _ _ _ hr => hr.1
  refine (hpatient.of_only only_handleConnection fun _ _ _ hearly =>
    answerable_of_waits (Call.Early.waits hearly) _).mono ?_
  rintro (e | next) w' ⟨⟨hserves, hfeeds⟩, hrelaying⟩
  · exact hserves hfeeds.client
  · obtain ⟨rfl, t, hchosen, hidle, -⟩ := hserves hfeeds.client
    obtain ⟨t', ht'⟩ := hrelaying
    obtain rfl := Option.some.inj (hidle.tunnel.symm.trans ht'.idle.tunnel)
    exact ⟨t, ht', hchosen, hfeeds⟩

/-- If the client names its target, no read, write or shutdown fails and no timer fires, then no run
of the connection goes on for ever, and a run that does not go on has ended: both peers have all
that the other one has sent, or no proxy on the route opens a tunnel. -/
theorem handleConnection_finishes (net : Upstreams) (runtime : Runtime)
    (protocol : InboundProtocol) (client : Bytes) (target : Target)
    (h : Recognised client target protocol) :
    (¬ ∃ run : ℕ → Io (Next Relay Unit) × Wire,
      run 0 = (handleConnection protocol, .fresh client) ∧
      ∀ n, Loop.Step (PatientAnswer net runtime) relayConnection (run n) (run (n + 1))) ∧
    ∀ c, Loop.Reaches (PatientAnswer net runtime) relayConnection
        (handleConnection protocol, .fresh client) c →
      (∃ c', Loop.Step (PatientAnswer net runtime) relayConnection c c') ∨
        ∃ r, c.1 = Loop.ended r ∧
          net.Finishes target (runtime.router.lookup target.host) client r c.2 := by
  have htotal := Loop.total (fun v w => wp_finishingTurn) (@wp_finishingStart net runtime _ _ _ h)
  exact ⟨htotal.1.finite, htotal.2⟩

/-- The first proxy refuses the connection, and the second one sends two bytes behind its reply. A
connection that does not go on has brought them to the client. -/
theorem handleConnection_finishes_second :
    let second : ProxyConfig := { plainHttpProxy with port := 8081 }
    let net : Upstreams := {
      sends := fun proxy =>
        if proxy = second then some (ascii "HTTP/1.1 200 OK\r\n\r\nhi") else none
      serverName := fun _ => true
      secure := fun _ => true }
    let hello := helloRecord (ascii "example.com") (by decide)
    ∀ c, Loop.Reaches (PatientAnswer net twoHops) relayConnection
        (handleConnection .https, .fresh hello) c →
      (∃ c', Loop.Step (PatientAnswer net twoHops) relayConnection c c') ∨
        c.1 = .ret (.exit ()) ∧ c.2.Complete ∧ ∃ t, c.2.tunnel = some t ∧
          c.2.relayed t .inbound = hello ∧ c.2.relayed t .upstream = ascii "hi" := by
  intro second net hello c hrun
  have hfound : parseTlsSni hello = found (ascii "example.com") :=
    parseTlsSni_helloRecord _ _ (by decide) (by decide)
  have hshort : hello.length ≤ maxClientHello := by
    rw [length_helloRecord]
    decide
  have hreply : OpensConnect (ascii "HTTP/1.1 200 OK\r\n\r\nhi") :=
    ⟨15, by decide, by decide, by decide⟩
  have hopens : net.Opens ⟨ascii "example.com", 443⟩ second := ⟨_, by simp [net], hreply⟩
  have hroute : twoHops.router.lookup (ascii "example.com") =
      [⟨ascii "jp", plainHttpProxy⟩, ⟨ascii "us", second⟩] := rfl
  obtain ⟨-, hends⟩ := handleConnection_finishes net twoHops .https hello
    ⟨ascii "example.com", 443⟩ ⟨⟨hfound, rfl⟩, .inl hshort⟩
  refine (hends c hrun).imp_right ?_
  rintro ⟨e | u, hend, hfinishes⟩
  · rw [hroute] at hfinishes
    refine absurd hopens (hfinishes.1 ⟨ascii "us", second⟩ ?_)
    exact List.mem_cons_of_mem _ List.mem_cons_self
  · obtain ⟨hcomplete, t, sent, htunnel, -, hsends, hclient, hback⟩ := hfinishes
    refine ⟨hend, hcomplete, t, htunnel, hclient, ?_⟩
    have hchosen : t.proxy = second ∧ sent = ascii "HTTP/1.1 200 OK\r\n\r\nhi" := by
      by_cases hproxy : t.proxy = second
      · simp only [net, if_pos hproxy] at hsends
        exact ⟨hproxy, (Option.some.inj hsends).symm⟩
      · simp only [net, if_neg hproxy] at hsends
        exact nomatch hsends
    rw [hchosen.1, hchosen.2] at hback
    have hbytes : tunnelBytes second (ascii "HTTP/1.1 200 OK\r\n\r\nhi") = some (ascii "hi") := by
      decide
    exact Option.some.inj (hback.symm.trans hbytes)

end Finishing

end NyaSniProxy
