import NyaSniProxy.Proxy.Socks5

/-!
# The two streams of a tunnel

Once a tunnel is open, each side has a stream for the other one: the client's starts at its first
byte, the upstream's behind the proxy's reply. `Flow` says where the bytes of a stream are: handed
to the other side, in the hands of the relay, or not read yet, in this order and with nothing
between. Reads, writes and shutdowns keep it, and it makes the tunnel transparent.
-/

namespace NyaSniProxy

open Text Interaction Wire

def Side.other : Side → Side
  | .inbound => .upstream
  | .upstream => .inbound

@[simp] theorem Side.other_inbound : Side.inbound.other = .upstream := rfl
@[simp] theorem Side.other_upstream : Side.upstream.other = .inbound := rfl

/-- What follows the reply of the proxy. -/
def tunnelBytes (proxy : ProxyConfig) (bytes : Bytes) : Option Bytes :=
  match proxy.kind with
  | .http | .https => (headerEnd bytes).map fun stop => bytes.drop (stop + 4)
  | .socks5 => (socks5Reply proxy.username.isSome bytes).map Prod.snd

namespace Wire

variable (w : Wire) (t : Tunnel)

/-- What is to be relayed from a side. -/
def stream : Side → Option Bytes
  | .inbound => some (w.incoming .inbound)
  | .upstream => tunnelBytes t.proxy (w.incoming .upstream)

/-- What was handed to the other side. -/
def relayed : Side → Bytes
  | .inbound => (w.written .upstream).drop t.written
  | .upstream => w.written .inbound

/-- What was handed over is a first part of the stream, and all of it if the end was passed on. -/
def Transparent : Prop :=
  match w.tunnel with
  | none => w.written .inbound = [] ∧ ∀ side, w.shut side = false
  | some t => ∀ side, ∃ bytes, w.stream t side = some bytes ∧ w.relayed t side <+: bytes ∧
      (w.shut side.other = true → w.relayed t side = bytes)

/-- Both streams were handed over to their ends, which were passed on, and the counters say how many
bytes the relay moved. -/
def Complete : Prop :=
  ∃ t, w.tunnel = some t ∧
    (∀ side, w.stream t side = some (w.relayed t side) ∧ w.shut side.other = true) ∧
    w.report = some (((w.relayed t .inbound).length - t.read).toUInt64,
      (w.relayed t .upstream).length.toUInt64)

/-- The bytes `pending` were read and not handed over yet. -/
structure Flow (pending : Side → Bytes) : Prop where
  tunnel : w.tunnel = some t
  start : t.written ≤ (w.written .upstream).length
  split : ∀ side, w.stream t side =
    some (w.relayed t side ++ (pending side ++ w.remaining side))
  shut : ∀ side, w.shut side.other = true → pending side = [] ∧ w.remaining side = []

variable {w t} {w' : Wire} {pending : Side → Bytes} {side : Side} {bytes part rest : Bytes}

theorem Flow.transparent (h : Flow w t pending) : w.Transparent := by
  unfold Transparent
  rw [h.tunnel]
  intro side
  refine ⟨_, h.split side, List.prefix_append _ _, fun hshut => ?_⟩
  obtain ⟨hpending, hremaining⟩ := h.shut side hshut
  simp [hpending, hremaining]

/-! ## Steps -/

theorem Consumes.relayed_eq (h : Consumes side bytes w w') (s : Side) :
    w'.relayed t s = w.relayed t s := by
  obtain ⟨u, f, rfl⟩ := h.frame
  cases s <;> rfl

theorem Consumes.shut_eq (h : Consumes side bytes w w') : w'.shut = w.shut := by
  obtain ⟨u, f, rfl⟩ := h.frame
  rfl

theorem Flow.read (h : Flow w t pending) (hc : Consumes side bytes w w') :
    Flow w' t (Function.update pending side (pending side ++ bytes)) := by
  have hstream (s : Side) : w'.stream t s = w.stream t s := by
    obtain ⟨u, f, rfl⟩ := hc.frame
    cases s <;> rfl
  have hframe : w'.tunnel = w.tunnel ∧ w'.written = w.written := by
    obtain ⟨u, f, rfl⟩ := hc.frame
    exact ⟨rfl, rfl⟩
  refine ⟨hframe.1.trans h.tunnel, hframe.2 ▸ h.start, fun s => ?_, fun s hs => ?_⟩
  · rw [hstream, hc.relayed_eq, h.split s]
    by_cases hside : s = side
    · subst hside
      simp [hc.taken]
    · simp [hside, hc.other s hside]
  · rw [hc.shut_eq] at hs
    obtain ⟨hpending, hremaining⟩ := h.shut s hs
    by_cases hside : s = side
    · subst hside
      rw [hc.taken, List.append_eq_nil_iff] at hremaining
      simp [hpending, hremaining]
    · simp [hside, hpending, hc.other s hside, hremaining]

/-- A write moves bytes from the relay's hands to the other side. -/
theorem relayed_write (h : Flow w t pending) (s : Side) :
    (w.write side.other part).relayed t s =
      if s = side then w.relayed t s ++ part else w.relayed t s := by
  have hdrop : (w.written .upstream ++ part).drop t.written =
      (w.written .upstream).drop t.written ++ part := List.drop_append_of_le_length h.start
  cases side <;> cases s <;> simp [Wire.relayed, Wire.write, hdrop]

theorem Flow.write (h : Flow w t pending) (hp : pending side = part ++ rest) :
    Flow (w.write side.other part) t (Function.update pending side rest) := by
  have hstart : t.written ≤ ((w.write side.other part).written .upstream).length := by
    have := h.start
    cases side <;> simp [Wire.write] <;> omega
  have hstream (s : Side) : (w.write side.other part).stream t s = w.stream t s := by
    cases s <;> rfl
  refine ⟨h.tunnel, hstart, fun s => ?_, fun s hs => ?_⟩
  · rw [hstream, relayed_write h, h.split s, remaining_write]
    by_cases hside : s = side
    · subst hside
      simp [hp]
    · simp [hside]
  · obtain ⟨hpending, hremaining⟩ := h.shut s hs
    rw [remaining_write]
    by_cases hside : s = side
    · subst hside
      rw [hp, List.append_eq_nil_iff] at hpending
      simp [hpending, hremaining]
    · simp [hside, hpending, hremaining]

/-- At the end of a stream the other write side is shut down. -/
theorem Flow.shutdown (h : Flow w t pending) (hp : pending side = [])
    (hr : w.remaining side = []) : Flow (w.shutdown side.other) t pending := by
  have hsame (s : Side) : (w.shutdown side.other).stream t s = w.stream t s ∧
      (w.shutdown side.other).relayed t s = w.relayed t s := by cases s <;> exact ⟨rfl, rfl⟩
  refine ⟨h.tunnel, h.start, fun s => ?_, fun s hs => ?_⟩
  · rw [remaining_shutdown, (hsame s).1, (hsame s).2]
    exact h.split s
  · rw [remaining_shutdown]
    by_cases hside : s = side
    · subst hside
      exact ⟨hp, hr⟩
    · refine h.shut s ?_
      have hne : s.other ≠ side.other := by cases s <;> cases side <;> simp_all
      simpa [Wire.shutdown, hne] using hs

end Wire

end NyaSniProxy
