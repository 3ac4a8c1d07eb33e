import NyaSniProxy.Connection.Opening
import NyaSniProxy.Connection.Run

/-!
# Transparency

Every run of a connection keeps its tunnel transparent, at each of its points: over all ways to cut
the streams into reads and writes, all orders in which the relay serves its branches, and all
failures. A connection that ends well has relayed both streams as a whole. One turn of the loop is
the rule for one chunk, in either direction, and the loop invariant ties the variables of the loop
to the streams.

`Orderly` is the invariant of all points of a connection. It also says at which points nothing is in
the hands of the program.
-/

namespace NyaSniProxy

open Text Interaction Wire

variable {faulty : Prop} {w : Wire} {t : Tunnel}

/-- Between two turns the relay holds nothing. -/
abbrev Wire.Idle (w : Wire) (t : Tunnel) : Prop := w.Flow t fun _ => []

theorem update_nil (side : Side) (pending : Side → Bytes) (h : ∀ s, s ≠ side → pending s = []) :
    Function.update pending side [] = fun _ => [] := by
  funext s
  by_cases hs : s = side
  · subst hs
    simp
  · simp [hs, h s hs]

/-- What holds while the tunnel is served: the relay waits with empty hands, writes to sides that
are open, and makes no other read. -/
def Pumping : Option Call → Wire → Prop
  | some (.select ..), w => ∃ t, w.Idle t
  | some (.write side _), w => w.shut side = false ∧ ∃ t pending, w.Flow t pending
  | some (.read ..), _ => False
  | _, w => ∃ t pending, w.Flow t pending

theorem Pumping.flow {c : Option Call} (h : Pumping c w) : ∃ t pending, w.Flow t pending := by
  unfold Pumping at h
  split at h
  · exact h.imp fun t hidle => ⟨_, hidle⟩
  · exact h.2
  · exact h.elim
  · exact h

theorem Pumping.transparent {c : Option Call} (h : Pumping c w) : w.Transparent := by
  obtain ⟨t, pending, hflow⟩ := h.flow
  exact hflow.transparent

/-- All bytes in the hands of the relay are handed over. -/
theorem wp_writePending {side : Side} {bytes : Bytes} {Q : Except Error Unit → Wire → Prop}
    (h : w.Flow t (Function.update (fun _ => []) side bytes))
    (hok : (w.write side.other bytes).Idle t → Q (.ok ()) (w.write side.other bytes))
    (herr : ∀ e w', w'.Transparent → Q (.error e) w') :
    wp (Answer faulty) Pumping (Io.writeAll side.other bytes) Q w := by
  have hwhole : Function.update (fun _ => []) side bytes side = bytes ++ [] := by simp
  have hidle := h.write hwhole
  rw [update_nil side _ (by intro s hs; simp [hs])] at hidle
  by_cases hnil : bytes = []
  · subst hnil
    rw [Io.writeAll, dif_pos rfl]
    rw [Wire.write_nil] at hok hidle
    exact ⟨⟨t, _, hidle⟩, hok hidle⟩
  · have hshut : w.shut side.other = false := by
      refine Bool.eq_false_iff.mpr fun hs => hnil ?_
      simpa using (h.shut side hs).1
    have hpart (part : Bytes) (hp : part <+: bytes) :
        ∃ pending, (w.write side.other part).Flow t pending := by
      obtain ⟨rest, hrest⟩ := hp
      have hsplit : Function.update (fun _ => []) side bytes side = part ++ rest := by
        simp [hrest]
      exact ⟨_, h.write hsplit⟩
    have hwriting : wp (Answer faulty)
        (fun _ w' => w'.shut side.other = false ∧ ∃ pending, w'.Flow t pending)
        (Io.writeAll side.other bytes) Q w :=
      wp_writeAll (fun _ part hp => ⟨hshut, hpart part hp⟩) (hok hidle) fun _ f part hp => by
        obtain ⟨pending, hflow⟩ := hpart part hp
        exact herr _ _ hflow.transparent
    refine hwriting.of_only (P := fun i => ∃ part, i = .write side.other part)
      (Io.only_writeAll fun part => ⟨part, rfl⟩) fun c w' hw' hcall => ?_
    cases c with
    | none => exact ⟨t, hw'.2⟩
    | some i =>
      obtain ⟨part, rfl⟩ := hcall i rfl
      exact ⟨hw'.1, t, hw'.2⟩

/-- The end of a stream is passed on. -/
theorem wp_passEnd {source : Side} {text : String} {Q : Except Error Unit → Wire → Prop}
    (h : w.Idle t) (hempty : w.remaining source = [])
    (hok : (w.shutdown source.other).Idle t → Q (.ok ()) (w.shutdown source.other))
    (herr : ∀ e w', w'.Transparent → Q (.error e) w') :
    wp (Answer faulty) Pumping ((Io.shutdown source.other).mapError (.within text)) Q w := by
  refine wp.mapError (wp_call.mpr ⟨⟨t, _, h⟩, fun r w' hr => ?_⟩)
  cases hr with
  | shutdown =>
    have hdone := h.shutdown rfl hempty
    exact ⟨⟨t, _, hdone⟩, hok hdone⟩
  | shutdownFault => exact ⟨⟨t, _, h⟩, herr _ _ h.transparent⟩

/-- An arm of the `select!`: a chunk is moved, or the end of the stream is passed on. -/
theorem wp_copyChunk {source : Side} {chunk : Bytes} {readText shutdownText writeText : String}
    {Q : Except Error Nat → Wire → Prop}
    (h : w.Flow t (Function.update (fun _ => []) source chunk))
    (hempty : chunk = [] → w.remaining source = [])
    (hend : ∀ w', w'.Idle t → w'.shut = Function.update w.shut source.other true →
      (∀ s, w'.relayed t s = w.relayed t s) → Q (.ok 0) w')
    (hchunk : ∀ w', chunk ≠ [] → w'.Idle t → w'.shut = w.shut →
      (∀ s, w'.relayed t s = if s = source then w.relayed t s ++ chunk else w.relayed t s) →
      Q (.ok chunk.length) w')
    (herr : ∀ e w', w'.Transparent → Q (.error e) w') :
    wp (Answer faulty) Pumping
      (copyChunk (.ok chunk) source.other readText shutdownText writeText) Q w := by
  refine wp.bind ⟨⟨t, _, h⟩, ?_⟩
  dsimp only
  split
  · next hnil =>
    subst hnil
    have hidle : w.Idle t := by
      rwa [update_nil source _ fun _ _ => rfl] at h
    refine wp.bind (wp_passEnd hidle (hempty rfl) (fun hdone => ?_) herr)
    refine ⟨⟨t, _, hdone⟩, hend _ hdone rfl fun s => ?_⟩
    cases s <;> rfl
  · next hne =>
    refine wp.bind (wp.mapError (wp_writePending h (fun hidle => ?_)
      fun e w' ht => herr _ w' ht))
    refine wp.bind (wp_call.mpr ⟨⟨t, _, hidle⟩, fun r w' hr => ?_⟩)
    cases hr with
    | resetIdle =>
      exact ⟨⟨t, _, hidle⟩, ⟨t, _, hidle⟩, hchunk _ hne hidle rfl fun s => relayed_write h s⟩

/-! ## The loop -/

/-- The counter of a direction. -/
def Relay.count (v : Relay) : Side → UInt64
  | .inbound => v.aToB
  | .upstream => v.bToA

/-- Was the end of a direction reached? -/
def Relay.done (v : Relay) : Side → Bool
  | .inbound => v.aDone
  | .upstream => v.bDone

/-- Number of bytes handed over in front of the loop. -/
def Tunnel.initial (t : Tunnel) : Side → Nat
  | .inbound => t.read
  | .upstream => 0

/-- The variables of the loop say what it relayed and which ends it passed on. -/
structure Relay.Tracks (v : Relay) (w : Wire) (t : Tunnel) : Prop where
  idle : w.Idle t
  initial : ∀ side, t.initial side ≤ (w.relayed t side).length
  count : ∀ side, v.count side = ((w.relayed t side).length - t.initial side).toUInt64
  done : ∀ side, v.done side = w.shut side.other

theorem toUInt64_add (m n : Nat) : (m + n).toUInt64 = m.toUInt64 + n.toUInt64 := by
  simp [Nat.toUInt64]

/-- One turn of the loop, once a chunk is read. -/
theorem wp_turn (source : Side) {chunk : Bytes} {readText shutdownText writeText : String}
    {v ended : Relay} {moved : Nat → Relay} {w₁ : Wire}
    {Q : Except Error (Next Relay (UInt64 × UInt64)) → Wire → Prop} (h : v.Tracks w t)
    (hc : Consumes source chunk w w₁) (hempty : chunk = [] → w₁.remaining source = [])
    (hended : ∀ s, ended.count s = v.count s ∧
      ended.done s = if s = source then true else v.done s)
    (hmoved : ∀ n s, (moved n).done s = v.done s ∧
      (moved n).count s = if s = source then v.count s + n.toUInt64 else v.count s)
    (hok : ∀ v' w', v'.Tracks w' t → Q (.ok (.again v')) w')
    (herr : ∀ e w', w'.Transparent → Q (.error e) w') :
    wp (Answer faulty) Pumping
      (do
        let n ← copyChunk (.ok chunk) source.other readText shutdownText writeText
        if n = 0 then return .again ended
        return .again (moved n)) Q w₁ := by
  have hread := h.idle.read hc
  rw [List.nil_append] at hread
  refine wp.bind (wp_copyChunk hread hempty (fun w' hidle hshut hrelayed => ?_)
    (fun w' hne hidle hshut hrelayed => ?_) herr)
  all_goals simp only [hc.shut_eq, hc.relayed_eq] at hshut hrelayed
  · refine ⟨⟨t, _, hidle⟩, hok _ w' ⟨hidle, fun s => ?_, fun s => ?_, fun s => ?_⟩⟩
    · rw [hrelayed]
      exact h.initial s
    · rw [hrelayed, (hended s).1]
      exact h.count s
    · have hother : s.other = source.other ↔ s = source := by cases s <;> cases source <;> simp
      rw [(hended s).2, hshut, Function.update_apply, h.done]
      simp [hother]
  · have hlen : chunk.length ≠ 0 := fun h => hne (List.length_eq_zero_iff.mp h)
    dsimp only
    rw [if_neg hlen]
    refine ⟨⟨t, _, hidle⟩, hok _ w' ⟨hidle, fun s => ?_, fun s => ?_, fun s => ?_⟩⟩
    · have hinitial := h.initial s
      rw [hrelayed]
      split
      · rw [List.length_append]
        exact hinitial.trans (Nat.le_add_right _ _)
      · exact hinitial
    · rw [hrelayed, (hmoved _ s).2, h.count]
      split
      · rw [List.length_append, Nat.sub_add_comm (h.initial s), toUInt64_add]
      · rfl
    · rw [(hmoved _ s).1, hshut]
      exact h.done s

/-- The timer, a chunk, the end of a stream, or a failed read. -/
theorem wp_select {guard : Side → Bool} {Q : Except Error Branch → Wire → Prop}
    (h : w.Idle t) (hidle : Q (.ok .idle) w)
    (hread : ∀ side chunk w', Consumes side chunk w w' → (chunk = [] → w'.remaining side = []) →
      Q (.ok (.read side (.ok chunk))) w')
    (herr : ∀ side f, Q (.ok (.read side (.error f))) w) :
    wp (Answer faulty) Pumping (Io.select guard relayBuffer) Q w := by
  have hnow : Pumping none w := ⟨t, _, h⟩
  refine wp_call.mpr ⟨⟨t, h⟩, fun branch w' hr => ?_⟩
  cases hr with
  | idle => exact ⟨hnow, hidle⟩
  | branch hguard hr =>
    obtain ⟨hc, -, hnil⟩ := hr.consumes (by decide)
    refine ⟨⟨t, _, h.read hc⟩, hread _ _ _ hc fun hempty => ?_⟩
    have htaken := hc.taken
    rw [hnil hempty, hempty] at htaken
    exact htaken.symm
  | branchFault hguard hf => exact ⟨hnow, herr _ _⟩

/-- The result of one turn: the variables still say what was relayed, or both ends were passed on
and the result is the counters. -/
def TurnResult (t : Tunnel) : Except Error (Next Relay (UInt64 × UInt64)) → Wire → Prop
  | .ok (.again v), w => v.Tracks w t
  | .ok (.exit counters), w => ∃ v : Relay, v.Tracks w t ∧ (∀ side, v.done side = true) ∧
      counters = (v.aToB, v.bToA)
  | .error _, w => w.Transparent

theorem wp_copyBidirectional {v : Relay} (h : v.Tracks w t) :
    wp (Answer faulty) Pumping (copyBidirectional v) (TurnResult t) w := by
  have hnow : Pumping none w := ⟨t, _, h.idle⟩
  unfold copyBidirectional
  split
  · next hdone =>
    have hboth : v.aDone = true ∧ v.bDone = true := by simpa using hdone
    exact ⟨hnow, v, h, fun side => by cases side; exacts [hboth.1, hboth.2], rfl⟩
  · refine wp.bind (wp_select h.idle ⟨hnow, hnow.transparent⟩ (fun side chunk w' hc hempty => ?_)
      fun side f => ?_)
    · cases side with
      | inbound =>
        exact wp_turn .inbound h hc hempty (fun s => by cases s <;> exact ⟨rfl, rfl⟩)
          (fun n s => by cases s <;> exact ⟨rfl, rfl⟩) (fun v' w' hv => hv) fun e w' ht => ht
      | upstream =>
        exact wp_turn .upstream h hc hempty (fun s => by cases s <;> exact ⟨rfl, rfl⟩)
          (fun n s => by cases s <;> exact ⟨rfl, rfl⟩) (fun v' w' hv => hv) fun e w' ht => ht
    · cases side <;> exact ⟨hnow, hnow.transparent⟩

/-- The loop invariant. -/
def Relaying (v : Relay) (w : Wire) : Prop := ∃ t, v.Tracks w t

/-- How a connection ends. -/
def Finished : Except Error Unit → Wire → Prop
  | .ok (), w => w.Complete
  | .error _, w => w.Transparent

/-- The report at the end, if both directions are done. -/
theorem complete_of_tracks {v : Relay} (h : v.Tracks w t) (hdone : ∀ side, v.done side = true) :
    { w with report := some (v.aToB, v.bToA) }.Complete := by
  have hshut (side : Side) : w.shut side.other = true := (h.done side).symm.trans (hdone side)
  refine ⟨t, h.idle.tunnel, fun side => ⟨?_, hshut side⟩, ?_⟩
  · have hsplit := h.idle.split side
    rw [(h.idle.shut side (hshut side)).2, List.nil_append, List.append_nil] at hsplit
    cases side <;> exact hsplit
  · have hin := h.count .inbound
    have hout := h.count .upstream
    simp only [Relay.count, Tunnel.initial, Nat.sub_zero] at hin hout
    rw [hin, hout]
    rfl

theorem wp_relayConnection {v : Relay} (h : Relaying v w) :
    wp (Answer faulty) Pumping (relayConnection v) (Loop.post Relaying Finished) w := by
  obtain ⟨t, ht⟩ := h
  refine wp.bind (wp.mapError ((wp_copyBidirectional ht).mono fun r w' hr => ?_))
  match r, hr with
  | .error e, hr => exact hr
  | .ok (.again v'), hr => exact ⟨⟨t, _, hr.idle⟩, t, hr⟩
  | .ok (.exit _), ⟨v', hv, hdone, rfl⟩ =>
    refine wp_call.mpr ⟨⟨t, _, hv.idle⟩, fun r w'' hr => ?_⟩
    cases hr with
    | relayComplete => exact ⟨⟨t, _, hv.idle.tunnel, hv.idle.start, hv.idle.split, hv.idle.shut⟩,
        complete_of_tracks hv hdone⟩

/-! ## The whole connection -/

theorem waiting_fresh (client : Bytes) : Waiting [] (.fresh client) where
  tunnel := rfl
  client := rfl
  written := rfl
  shut _ := rfl

theorem Waiting.read {bytes : Bytes} {w' : Wire} (h : Waiting [] w)
    (hc : Consumes .inbound bytes w w') : Waiting bytes w' := by
  have htaken := hc.taken
  obtain ⟨u, f, rfl⟩ := hc.frame
  exact ⟨h.tunnel, htaken ▸ h.client, h.written, h.shut⟩

/-- The bytes read with the target are the first ones that are handed over. -/
theorem tracks_init {initial : Bytes} (h : Opened initial t w)
    (hidle : (w.write Side.inbound.other initial).Idle t) :
    Relay.init.Tracks (w.write Side.inbound.other initial) t := by
  have hrelayed (s : Side) : (w.write Side.inbound.other initial).relayed t s =
      if s = .inbound then w.relayed t s ++ initial else w.relayed t s := relayed_write h.flow s
  refine ⟨hidle, fun s => ?_, fun s => ?_, fun s => ?_⟩
  · rw [hrelayed, h.fresh]
    cases s <;> simp [Tunnel.initial, h.read]
  · rw [hrelayed, h.fresh]
    cases s <;> simp [Relay.count, Relay.init, Tunnel.initial, h.read]
  · have hshut : (w.write Side.inbound.other initial).shut s.other = false := h.shut s.other
    rw [hshut]
    cases s <;> rfl

/-- The client's target was sent to a proxy, as a whole if it is an HTTP proxy, and what was read
from the client is kept. -/
def Wire.Asked (w : Wire) (protocol : InboundProtocol) : Prop :=
  ∃ proxy target initial, w.proxy = some proxy ∧ Parsed initial target protocol ∧
    w.incoming .inbound = initial ++ w.remaining .inbound ∧
    (proxy.kind ≠ .socks5 → w.written .upstream = proxy.connectRequest target)

/-- What holds at every point of a connection: it is transparent, it waits for both sides with empty
hands and for a proxy behind its request, and it writes to sides that are open. -/
structure Orderly (protocol : InboundProtocol) (c : Option Call) (w : Wire) : Prop where
  transparent : w.Transparent
  idle : ∀ guard cap, c = some (.select guard cap) → ∃ t, w.Idle t
  asked : ∀ cap, c = some (.read .upstream cap) → w.Asked protocol
  writable : ∀ side bytes, c = some (.write side bytes) → w.shut side = false

theorem Pumping.orderly {protocol : InboundProtocol} {c : Option Call} (h : Pumping c w) :
    Orderly protocol c w := by
  refine ⟨h.transparent, ?_, ?_, ?_⟩
  · rintro guard cap rfl
    exact h
  · rintro cap rfl
    exact h.elim
  · rintro side bytes rfl
    exact h.1

theorem Trying.orderly {protocol : InboundProtocol} {c : Option Call} {initial : Bytes}
    {target : Target} (h : Trying target initial c w) (hparsed : Parsed initial target protocol)
    (hcall : ∀ i, c = some i → i.Early) : Orderly protocol c w := by
  refine ⟨h.transparent, fun guard cap hc => absurd rfl (hcall _ hc guard cap), fun cap hc => ?_,
    fun side bytes _ => h.shut side⟩
  obtain ⟨proxy, hproxy, hwritten⟩ := h.asked cap hc
  exact ⟨proxy, target, initial, hproxy, hparsed, h.client, hwritten⟩

/-- One more turn of the relay, whatever was done before. -/
theorem wp_relaying {protocol : InboundProtocol} {v : Relay} (h : Relaying v w) :
    wp (Answer faulty) (Orderly protocol) (relayConnection v) (Loop.post Relaying Finished) w :=
  (wp_relayConnection h).mono_invariant fun _ _ hp => hp.orderly

section Stages

variable {protocol : InboundProtocol} {initial : Bytes} {target : Target}

theorem wp_readingTarget (h : Waiting [] w) :
    wp (Answer faulty) (Orderly protocol) (readTarget protocol)
      (fun r w' => match r with
        | .ok (target, initial) => Waiting initial w' ∧ Parsed initial target protocol
        | .error _ => w'.Transparent) w := by
  have hreading : wp (Answer faulty) (fun _ => Transparent) (readTarget protocol)
      (fun r w' => match r with
        | .ok (target, initial) => Waiting initial w' ∧ Parsed initial target protocol
        | .error _ => w'.Transparent) w :=
    wp_readTarget (fun _ bytes w' hc => (h.read hc).transparent)
      (fun target initial w' hc hparsed => ⟨h.read hc, hparsed⟩)
      fun e bytes w' hc => (h.read hc).transparent
  -- it reads from the client only
  refine hreading.of_only (only_readTarget protocol) fun c w' hnow hcall => ⟨hnow, ?_, ?_, ?_⟩
  all_goals
    intros
    obtain ⟨_, hc⟩ := hcall _ (by assumption)
    cases hc

theorem wp_connecting {hops : List Hop} (h : Waiting initial w)
    (hparsed : Parsed initial target protocol) :
    wp (Answer faulty) (Orderly protocol)
      (connectWithFallback (m := Io) (fun hop target => (hop.proxy.connect target).attempt)
        hops target)
      (fun r w' => match r with
        | .ok (.ok ()) => ∃ t, Opened initial t w'
        | .ok (.error _) => Waiting initial w'
        | .error _ => False) w := by
  have hconnecting : wp (Answer faulty)
      (fun c w' => (∀ i, c = some i → i.Early) → Orderly protocol c w')
      (connectWithFallback (m := Io) (fun hop target => (hop.proxy.connect target).attempt)
        hops target)
      (fun r w' => match r with
        | .ok (.ok ()) => ∃ t, Opened initial t w'
        | .ok (.error _) => Waiting initial w'
        | .error _ => False) w :=
    wp_connectWithFallback (fun c w' ht hearly => ht.orderly hparsed hearly)
      (fun t w' ho _ => Pumping.orderly (c := none) ⟨t, _, ho.flow⟩) h (fun t w' ho => ⟨t, ho⟩)
      fun e w' hw => hw
  exact hconnecting.of_only (only_connectWithFallback _ _) fun c w' h hcall => h hcall

/-- What was read with the target is handed over, and the relay starts. -/
theorem wp_handingOver (h : Opened initial t w) :
    wp (Answer faulty) (Orderly protocol) (Io.writeAll .upstream initial)
      (fun r w' => match r with
        | .ok () => Relaying .init w'
        | .error _ => w'.Transparent) w := by
  have hwriting : wp (Answer faulty) Pumping (Io.writeAll .upstream initial)
      (fun r w' => match r with
        | .ok () => Relaying .init w'
        | .error _ => w'.Transparent) w :=
    wp_writePending h.flow (fun hidle => ⟨t, tracks_init h hidle⟩) fun e w' ht => ht
  exact hwriting.mono_invariant fun _ _ hp => hp.orderly

end Stages

theorem wp_handleConnection {protocol : InboundProtocol} {client : Bytes} :
    wp (Answer faulty) (Orderly protocol) (handleConnection protocol)
      (Loop.post Relaying Finished) (.fresh client) := by
  refine wp.bind ((wp_readingTarget (waiting_fresh client)).mono ?_)
  rintro (e | ⟨target, initial⟩) w₁ h
  · exact h
  obtain ⟨hw₁, hparsed⟩ := h
  have hwaiting {w' : Wire} (h : Waiting initial w') (c : Option Call)
      (hc : ∀ cap, c ≠ some (.read .upstream cap)) (hearly : ∀ i, c = some i → i.Early) :
      Orderly protocol c w' :=
    Trying.orderly ⟨h, fun cap hread => absurd hread (hc cap)⟩ hparsed hearly
  have hborrow : Orderly protocol (some .borrow) w₁ :=
    hwaiting hw₁ _ nofun (by rintro i ⟨⟩; nofun)
  refine wp.bind (wp_call.mpr ⟨hborrow, fun runtime w' hr => ?_⟩)
  cases hr with
  | borrow runtime =>
    refine ⟨hwaiting hw₁ none nofun nofun, wp.bind ((wp_connecting hw₁ hparsed).mono ?_)⟩
    rintro (e | e | u) w₂ h
    · exact h.elim
    · have hfailed := hwaiting h none nofun nofun
      exact wp.bind ⟨hfailed, hfailed.transparent⟩
    · obtain ⟨t, ho⟩ := h
      have hnow : Orderly protocol none w₂ := Pumping.orderly (c := none) ⟨t, _, ho.flow⟩
      refine wp.bind ⟨hnow, wp.bind (wp.mapError ((wp_handingOver ho).mono ?_))⟩
      rintro (e | u) w' h
      · exact h
      · obtain ⟨t', ht'⟩ := h
        exact ⟨Pumping.orderly (c := none) ⟨t', _, ht'.idle⟩, t', ht'⟩

/-- Whatever the client and the proxies send, however their streams are cut, in whatever order the
relay serves its branches and whatever fails: a connection is transparent at every point of its run,
and it is complete when it ends well. -/
theorem handleConnection_transparent (protocol : InboundProtocol) (client : Bytes)
    (c : Io (Next Relay Unit) × Wire)
    (h : Loop.Reaches (Answer True) relayConnection (handleConnection protocol, .fresh client) c) :
    c.2.Transparent ∧ (c.1 = .ret (.exit ()) → c.2.Complete) := by
  have hstart : wp (Answer True) (Orderly protocol) (handleConnection protocol)
      (Loop.post Relaying Finished) (.fresh client) := wp_handleConnection
  have hwp := Loop.reaches (fun v w => wp_relaying) hstart h
  refine ⟨hwp.invariant.transparent, fun hret => ?_⟩
  rw [hret] at hwp
  exact hwp.2

/-- A connection to `example.com` through an HTTP proxy that says `hi`, relayed to its end. -/
theorem handleConnection_example : ∃ w : Wire, w.Complete ∧ w.written .inbound = ascii "hi" := by
  let hop : Hop := ⟨ascii "us", plainHttpProxy⟩
  let reply := ascii "HTTP/1.1 200 OK\r\n\r\nhi"
  have hroute (host : Bytes) : Router.lookup ⟨∅, [hop]⟩ host = [hop] := rfl
  obtain ⟨w, hwritten, hrun⟩ := exists_complete_run True (ascii "example.com") reply 15 hop
    ⟨⟨∅, [hop]⟩, [], 0⟩ (by decide) (by decide) (by decide) rfl (hroute _) (by decide) (by decide)
    (by decide)
  exact ⟨w, (handleConnection_transparent .https _ _ hrun).2 rfl, hwritten⟩

end NyaSniProxy
