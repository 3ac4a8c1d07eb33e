import NyaSniProxy.Connection.Transparency

/-!
# Writers that buffer

Between a connection and each of its peers stands a writer. It accepts bytes and transmits them in
order, at any time; what it holds back is transmitted for sure only by a shutdown, and the program
has no call to flush it. So bytes may stay in a writer while the tunnel waits, but nowhere else:
what was read is accepted before the next read of the relay, and the request to a proxy before its
reply is awaited.
-/

namespace NyaSniProxy

open Text Interaction

/-- The network, and what each writer transmitted of the bytes it accepted. -/
structure Writers where
  wire : Wire
  sent : Side → Bytes

namespace Writers

def fresh (client : Bytes) : Writers where
  wire := .fresh client
  sent _ := []

/-- What a writer holds back. -/
def held (x : Writers) (side : Side) : Bytes := (x.wire.written side).drop (x.sent side).length

/-- A `shutdown` that succeeds has transmitted everything. -/
def Emptied : (i : Call) → Reply i → Writers → Prop
  | .shutdown side, .ok (), x => x.sent side = x.wire.written side
  | _, _, _ => True

/-- A new connection to a proxy has a new writer. -/
def Renewed : (i : Call) → Reply i → Side → Prop
  | .connect _, .ok (), .upstream => True
  | _, _, _ => False

end Writers

open Writers

/-- How a network answers through such writers. -/
structure Buffered (E : Env Call Reply Wire) (i : Call) (x : Writers) (r : Reply i)
    (x' : Writers) : Prop where
  answer : E i x.wire r x'.wire
  accepted : ∀ side, x'.sent side <+: x'.wire.written side
  progress : ∀ side, ¬ Renewed i r side → x.sent side <+: x'.sent side
  emptied : Emptied i r x'

theorem buffered_simulates (E : Env Call Reply Wire) : Simulates Writers.wire (Buffered E) E :=
  fun _ _ _ _ h => h.answer

/-! ## Shut sides are drained -/

/-- The writers have transmitted nothing they did not accept, and all of it on a side that was shut
down. -/
structure Transmitting (x : Writers) : Prop where
  accepted : ∀ side, x.sent side <+: x.wire.written side
  drained : ∀ side, x.wire.shut side = true → x.sent side = x.wire.written side

theorem transmitting_fresh (client : Bytes) : Transmitting (.fresh client) :=
  ⟨fun _ => List.prefix_refl _, nofun⟩

theorem Transmitting.split {x : Writers} (h : Transmitting x) (side : Side) :
    x.wire.written side = x.sent side ++ x.held side ∧
      (x.wire.shut side = true → x.held side = []) := by
  obtain ⟨rest, hrest⟩ := h.accepted side
  have hheld : x.held side = rest := by
    rw [Writers.held, ← hrest, List.drop_left]
  refine ⟨by rw [hheld, hrest], fun hshut => ?_⟩
  have hall := h.drained side hshut
  rw [← hrest] at hall
  rw [hheld]
  exact List.self_eq_append_right.mp hall

/-- Nothing is written to a side that is shut, so what was transmitted stays everything. -/
theorem Transmitting.step {faulty : Prop} {i : Call} {x x' : Writers} {r : Reply i}
    (h : Transmitting x) (hopen : ∀ side bytes, i = .write side bytes → x.wire.shut side = false)
    (hb : Buffered (Answer faulty) i x r x') : Transmitting x' := by
  obtain ⟨w, sent⟩ := x
  obtain ⟨w', sent'⟩ := x'
  obtain ⟨hanswer, haccepted, hprogress, hemptied⟩ := hb
  refine ⟨haccepted, fun side hshut => ?_⟩
  have hsame (hbefore : w.shut side = true) (hwritten : w'.written side = w.written side)
      (hold : ¬ Renewed i r side) : sent' side = w'.written side := by
    have hall : sent side = w.written side := h.drained side hbefore
    have hmore : sent side <+: sent' side := hprogress side hold
    rw [hall, ← hwritten] at hmore
    exact (haccepted side).eq_of_length_le hmore.length_le
  cases hanswer with
  | connect bytes =>
    cases side with
    | inbound => exact hsame hshut rfl id
    | upstream => simp at hshut
  | @shutdown s _ =>
    by_cases hs : side = s
    · subst hs
      exact hemptied
    · have hbefore : w.shut side = true := by simpa [Wire.shutdown, hs] using hshut
      exact hsame hbefore rfl id
  | @write s bytes _ n hle hpos =>
    have hs : side ≠ s := by
      rintro rfl
      exact Bool.false_ne_true ((hopen side bytes rfl).symm.trans hshut)
    exact hsame hshut (by simp [hs]) id
  | read hread => cases hread <;> exact hsame hshut rfl id
  | branch hguard hread => cases hread <;> exact hsame hshut rfl id
  | _ => exact hsame hshut rfl id

/-! ## A writer that holds back what is relayed -/

/-- The writer to the upstream transmits what opens the tunnel, and the rest at its shutdown. -/
def lagging (w : Wire) : Writers where
  wire := w
  sent
    | .inbound => w.written .inbound
    | .upstream =>
      match w.shut .upstream, w.tunnel with
      | false, some t => (w.written .upstream).take t.written
      | _, _ => w.written .upstream

theorem lagging_accepted (w : Wire) (side : Side) : (lagging w).sent side <+: w.written side := by
  cases side with
  | inbound => exact List.prefix_refl _
  | upstream =>
    dsimp only [lagging]
    split
    · exact List.take_prefix _ _
    · exact List.prefix_refl _

theorem lagging_progress {w w' : Wire} (hshut : w.shut .upstream = true → w'.shut .upstream = true)
    (htunnel : w'.tunnel = w.tunnel) (hwritten : ∀ side, w.written side <+: w'.written side)
    (side : Side) : (lagging w).sent side <+: (lagging w').sent side := by
  cases side with
  | inbound => exact hwritten .inbound
  | upstream =>
    dsimp only [lagging]
    rw [htunnel]
    cases hs : w.shut .upstream with
    | true =>
      rw [hshut hs]
      exact hwritten .upstream
    | false =>
      cases w.tunnel with
      | none => cases w'.shut .upstream <;> exact hwritten .upstream
      | some t =>
        cases w'.shut .upstream with
        | false => exact (hwritten .upstream).take _
        | true => exact (List.take_prefix _ _).trans (hwritten .upstream)

theorem lagging_opened (w : Wire) (pre : Bytes) (side : Side) :
    (lagging (w.opened pre)).sent side = w.written side := by
  cases side with
  | inbound => rfl
  | upstream =>
    have hshut : (w.opened pre).shut .upstream = w.shut .upstream := rfl
    dsimp only [lagging]
    rw [hshut]
    cases w.shut .upstream with
    | true => rfl
    | false => cases hproxy : w.proxy <;> simp [Wire.opened, hproxy]

theorem lagging_simulates {faulty : Prop} :
    Simulates lagging (Answer faulty) (Buffered (Answer faulty)) := by
  intro i w r w' h
  refine ⟨h, lagging_accepted w', ?_, ?_⟩
  · intro side hold
    have hsame (hshut : w'.shut = w.shut) (htunnel : w'.tunnel = w.tunnel)
        (hwritten : w'.written = w.written) : (lagging w).sent side <+: (lagging w').sent side :=
      lagging_progress (fun hs => hshut ▸ hs) htunnel (fun s => hwritten ▸ List.prefix_refl _) side
    cases h with
    | connect bytes =>
      cases side with
      | inbound => exact List.prefix_refl _
      | upstream => exact absurd trivial hold
    | @tunnel pre _ =>
      rw [lagging_opened]
      exact lagging_accepted w side
    | @write s bytes _ n hle hpos =>
      apply lagging_progress
      · exact id
      · rfl
      · intro s'
        by_cases hs : s' = s
        · subst hs
          simp [Wire.write]
        · simp [Wire.write, hs]
    | @shutdown s _ =>
      apply lagging_progress
      · intro hs
        cases s <;> simp [Wire.shutdown, hs]
      · rfl
      · exact fun _ => List.prefix_refl _
    | read hread => cases hread <;> exact hsame rfl rfl rfl
    | branch hguard hread => cases hread <;> exact hsame rfl rfl rfl
    | _ => exact hsame rfl rfl rfl
  · cases h with
    | @shutdown side _ => cases side <;> simp [lagging, Wire.shutdown, Emptied]
    | _ => trivial

/-- A ClientHello for `example.com`. -/
def exampleRecord : Bytes := helloRecord (ascii "example.com") (by decide)

/-- With that writer a connection comes to the relay with the ClientHello read and accepted. -/
theorem reaches_lagging : ∃ w t, Loop.Reaches (Buffered (Answer True)) relayConnection
    (handleConnection .https, .fresh exampleRecord) (relayConnection .init, lagging w) ∧
    w.tunnel = some t ∧ w.incoming .inbound = exampleRecord ∧ w.remaining .inbound = [] ∧
    w.shut .upstream = false ∧ w.relayed t .inbound = exampleRecord := by
  let hop : Hop := ⟨ascii "us", plainHttpProxy⟩
  let runtime : Runtime := ⟨⟨∅, [hop]⟩, [], 0⟩
  let reply := ascii "HTTP/1.1 200 OK\r\n\r\n"
  have hkind : hop.proxy.kind = .http := rfl
  have hroute : runtime.router.lookup (ascii "example.com") = [hop] := rfl
  have hstop : headerEnd reply = some 15 := by decide
  have hopen := ends_handleConnection True (by decide) (by decide) (by decide) hkind hroute
    (by decide) hstop (by decide)
  have hrun : Loop.Reaches (Answer True) relayConnection _ (relayConnection .init, _) :=
    Loop.reaches_again hopen
  have hfresh : lagging (.fresh exampleRecord) = .fresh exampleRecord := by
    refine congrArg (Writers.mk _) (funext fun side => ?_)
    cases side <;> rfl
  refine ⟨_, _, hfresh ▸ lagging_simulates.reaches hrun, rfl, rfl, rfl, rfl, ?_⟩
  exact List.drop_left

/-! ## Whole connections -/

/-- Whatever the writers hold back, however the streams are cut and in whatever order the relay
serves its branches: what was transmitted to a side and what its writer holds is what the program
wrote, and the writer holds nothing once the side is shut down. When the relay waits, all that was
read of either side was written to the other one, and when the reply of a proxy is awaited, all of
the request was. -/
theorem handleConnection_accepted (protocol : InboundProtocol) (client : Bytes)
    (c : Io (Next Relay Unit) × Writers)
    (h : Loop.Reaches (Buffered (Answer True)) relayConnection
      (handleConnection protocol, .fresh client) c) :
    (∀ side, c.2.wire.written side = c.2.sent side ++ c.2.held side ∧
      (c.2.wire.shut side = true → c.2.held side = [])) ∧
    (∀ guard cap, c.1.pending = some (.select guard cap) →
      ∃ t, c.2.wire.tunnel = some t ∧ ∀ side, c.2.wire.stream t side =
        some (c.2.wire.relayed t side ++ c.2.wire.remaining side)) ∧
    (∀ cap, c.1.pending = some (.read .upstream cap) → c.2.wire.Asked protocol) := by
  have hstart : wp (Answer True) (Orderly protocol) (handleConnection protocol)
      (Loop.post Relaying Finished) (.fresh client) := wp_handleConnection
  obtain ⟨hwp, htransmitting⟩ := (buffered_simulates (Answer True)).keeps
    (fun v w => wp_relaying) (fun i x r x' horderly hx hb => hx.step
      (fun side bytes hi => horderly.writable side bytes (congrArg some hi)) hb)
    hstart (transmitting_fresh client) h
  have horderly := hwp.invariant
  refine ⟨htransmitting.split, fun guard cap hpending => ?_, horderly.asked⟩
  obtain ⟨t, hidle⟩ := horderly.idle guard cap hpending
  exact ⟨t, hidle.tunnel, hidle.split⟩

/-- The ClientHello is accepted when the relay waits for the first time. -/
theorem handleConnection_accepted_example : ∃ (c : Io (Next Relay Unit) × Writers) (t : Tunnel),
    c.1.pending = some (.select Relay.init.guard relayBuffer) ∧
    c.2.wire.incoming .inbound = exampleRecord ∧
    c.2.wire.stream t .inbound =
      some (c.2.wire.relayed t .inbound ++ c.2.wire.remaining .inbound) ∧
    c.2.wire.written .upstream = c.2.sent .upstream ++ c.2.held .upstream := by
  obtain ⟨w, -, hrun, -, hclient, -⟩ := reaches_lagging
  obtain ⟨hsplit, hselect, -⟩ := handleConnection_accepted .https exampleRecord _ hrun
  obtain ⟨t, -, hstream⟩ := hselect Relay.init.guard relayBuffer rfl
  exact ⟨_, t, rfl, hclient, hstream .inbound, (hsplit .upstream).1⟩

/-- The relay waits for more, and of the ClientHello it read nothing was transmitted. -/
theorem relay_waits_untransmitted :
    ∃ (c : Io (Next Relay Unit) × Writers) (guard : Side → Bool) (cap : Nat) (t : Tunnel),
      Loop.Reaches (Buffered (Answer True)) relayConnection
        (handleConnection .https, .fresh exampleRecord) c ∧
      c.1.pending = some (.select guard cap) ∧ c.2.wire.tunnel = some t ∧
      c.2.wire.incoming .inbound = exampleRecord ∧ c.2.wire.remaining .inbound = [] ∧
      (c.2.sent .upstream).drop t.written = [] ∧ exampleRecord ≠ [] := by
  obtain ⟨w, t, hrun, htunnel, hclient, hread, hshut, -⟩ := reaches_lagging
  refine ⟨_, Relay.init.guard, relayBuffer, t, hrun, rfl, htunnel, hclient, hread, ?_, ?_⟩
  · have hsent : (lagging w).sent .upstream = (w.written .upstream).take t.written := by
      simp [lagging, hshut, htunnel]
    rw [hsent]
    simp
  · rw [← List.length_pos_iff, exampleRecord, length_helloRecord]
    omega

end NyaSniProxy
