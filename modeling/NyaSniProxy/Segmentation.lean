import NyaSniProxy.Wire
import NyaSniProxy.Http.Head

/-!
# Messages in pieces

A stream arrives in reads that are cut at any place. The three loops of this program that collect a
message from it are `Collector`s. `Collects` says where such a loop may be: its buffer is what it
has consumed of the stream, and no earlier buffer had a verdict. `Stops` says how it may end.

A head ends at its first empty line, so what a collector of heads returns does not depend on the
cuts if the head is within the limit, and it gives up if there is no head within one chunk more.
-/

namespace NyaSniProxy

open Text Interaction Wire

/-- Every run of the program with this network ends in the postcondition, and there is one. -/
def Always {α : Type} (p : Io α) (w : Wire) (Q : Except Error α → Wire → Prop) : Prop :=
  (∃ r w', Ends (Answer False) p w r w') ∧ ∀ r w', Ends (Answer False) p w r w' → Q r w'

theorem always_iff {α : Type} {p : Io α} {w : Wire} {Q : Except Error α → Wire → Prop} :
    Always p w Q ↔ ∀ r w', Ends (Answer False) p w r w' → Q r w' :=
  and_iff_right (exists_ends exists_answer p w)

/-- The parameters of `Io.readUntil`. -/
structure Collector (α : Type) where
  side : Side
  cap : Nat
  limit : Nat
  closed : Error
  tooLong : Error
  check : Bytes → Option (Except Error α)
  cap_pos : 0 < cap

namespace Collector

variable {α : Type} (self : Collector α)

/-- The loop with these bytes in its buffer. -/
def loop (buf : Bytes) : Io α :=
  .readUntil self.side self.cap self.limit self.closed self.tooLong self.check buf

/-- The loop goes on with this buffer. -/
def Open (buf : Bytes) : Prop :=
  buf.length ≤ self.limit ∧ (buf = [] ∨ self.check buf = none)

/-- How the loop ends. -/
inductive Stops (w : Wire) : Except Error α → Wire → Prop where
  | verdict {buf bytes r w'} : self.Open buf → bytes.length ≤ self.cap →
      self.check (buf ++ bytes) = some r → Consumes self.side (buf ++ bytes) w w' → Stops w r w'
  | closed {buf w'} : self.Open buf → w'.remaining self.side = [] → Consumes self.side buf w w' →
      Stops w (.error self.closed) w'
  | tooLong {buf w'} : self.limit < buf.length → buf.length ≤ self.limit + self.cap →
      self.check buf = none → Consumes self.side buf w w' → Stops w (.error self.tooLong) w'

/-- Where the loop may be. -/
inductive Collects (w : Wire) : Io α × Wire → Prop where
  | reading {buf w'} : self.Open buf → Consumes self.side buf w w' → Collects w (self.loop buf, w')
  | stopped {r w'} : self.Stops w r w' → Collects w (.ofExcept r, w')

variable {self} {w w' : Wire} {c c' : Io α × Wire} {buf : Bytes} {r : Except Error α}

theorem Collects.step (h : self.Collects w c) (hs : Step (Answer False) c c') :
    self.Collects w c' := by
  cases h with
  | stopped h =>
    rename_i r _
    cases r <;> cases hs
  | @reading buf w₁ hopen hc =>
    rw [Collector.loop, Io.readUntil] at hs
    cases hs with
    | call hr =>
      cases hr with
      | readFault hf => exact hf.elim
      | @read _ _ _ bytes w₂ hread =>
        obtain ⟨hmore, hle, hend⟩ := hread.consumes self.cap_pos
        have hall := hc.trans hmore
        cases bytes with
        | nil =>
          rw [List.append_nil] at hall
          have hrest := hend rfl
          rw [hmore.taken, List.nil_append] at hrest
          exact .stopped (.closed hopen hrest hall)
        | cons b bytes =>
          dsimp only
          split
          · next hverdict => exact .stopped (.verdict hopen hle hverdict hall)
          · next hnone =>
            split
            · next hlong =>
              refine .stopped (.tooLong hlong ?_ hnone hall)
              have := hopen.1
              rw [List.length_append]
              omega
            · next hshort => exact .reading ⟨not_lt.mp hshort, .inr hnone⟩ hall

theorem Collects.reaches (h : self.Collects w c) (hs : Reaches (Answer False) c c') :
    self.Collects w c' := by
  induction hs with
  | refl => exact h
  | tail _ hs ih => exact ih.step hs

theorem collects_start (w : Wire) : self.Collects w (self.loop [], w) :=
  .reading ⟨Nat.zero_le _, .inl rfl⟩ (.refl w self.side)

theorem stops_of_ends (h : Ends (Answer False) (self.loop []) w r w') : self.Stops w r w' := by
  have hcollects := (collects_start w).reaches h
  generalize hp : (Prog.ofExcept r : Io α) = p at hcollects
  cases hcollects with
  | reading =>
    rw [Collector.loop, Io.readUntil] at hp
    cases r <;> cases hp
  | @stopped r' _ hstops =>
    cases r <;> cases r' <;> cases hp <;> exact hstops

/-- The buffer is never longer than the limit and one chunk. -/
theorem Collects.bounded (h : self.Collects w c) :
    ∃ buf, Consumes self.side buf w c.2 ∧ buf.length ≤ self.limit + self.cap ∧
      (c.1.pending ≠ none → c.1 = self.loop buf) := by
  cases h with
  | @reading buf w' hopen hc => exact ⟨buf, hc, by have := hopen.1; omega, fun _ => rfl⟩
  | @stopped r w' hstops =>
    have hended : (Prog.ofExcept r : Io α).pending = none := by cases r <;> rfl
    cases hstops with
    | @verdict buf bytes _ _ hopen hle _ hc =>
      refine ⟨_, hc, ?_, fun h => absurd hended h⟩
      have := hopen.1
      rw [List.length_append]
      omega
    | closed hopen _ hc =>
      exact ⟨_, hc, by have := hopen.1; omega, fun h => absurd hended h⟩
    | tooLong _ hle _ hc => exact ⟨_, hc, hle, fun h => absurd hended h⟩

/-- Every read makes the buffer longer. -/
theorem within_loop (h : buf.length ≤ self.limit) :
    (self.loop buf).Within (self.limit + 1 - buf.length) := by
  induction hm : self.limit - buf.length using Nat.strong_induction_on generalizing buf with
  | _ m ih =>
    subst hm
    obtain ⟨n, hn⟩ : ∃ n, self.limit + 1 - buf.length = n + 1 := ⟨self.limit - buf.length, by omega⟩
    rw [hn, Collector.loop, Io.readUntil]
    intro r
    rcases r with f | _ | ⟨b, bytes⟩
    · trivial
    · trivial
    · dsimp only
      split
      · exact Prog.within_ofExcept _ _
      · split
        · trivial
        · next hshort =>
          simp only [List.length_append, List.length_cons] at hshort
          apply (ih _ ?_ ?_ rfl).mono
          all_goals simp only [List.length_append, List.length_cons]; omega

variable (self) in
/-- Every run of a reader ends in an error, after a bounded number of reads. Until then it is in its
loop, with a bounded buffer that holds what it has consumed of the stream. -/
def GivesUp (reader : Io α) (w : Wire) : Prop :=
  Always reader w (fun r _ => ∃ e, r = .error e) ∧
    ∀ n c, Steps (Answer False) n (reader, w) c → n ≤ self.limit + 1 ∧
      ∃ buf, Consumes self.side buf w c.2 ∧ buf.length ≤ self.limit + self.cap ∧
        (c.1.pending ≠ none → c.1 = self.loop buf)

theorem givesUp_of_error
    (h : ∀ r w', self.Stops w r w' → ∃ e, r = .error e) : self.GivesUp (self.loop []) w := by
  refine ⟨always_iff.mpr fun r w' hr => h r w' (stops_of_ends hr), fun n c hs => ⟨?_, ?_⟩⟩
  · exact hs.le_of_within (within_loop (Nat.zero_le _))
  · exact ((collects_start w).reaches hs.reaches).bounded

/-! ## Heads -/

section Heads

variable {f : Bytes → Nat → α} {stop : Nat}

/-- The loop ends at the first empty line of its stream. -/
theorem Stops.head
    (hcheck : ∀ buf, self.check buf = (headerEnd buf).map fun stop => .ok (f buf stop))
    (hstop : headerEnd (w.remaining self.side) = some stop) (hlimit : stop + 4 ≤ self.limit)
    (h : self.Stops w r w') :
    ∃ buf, r = .ok (f buf stop) ∧ headerEnd buf = some stop ∧ Consumes self.side buf w w' := by
  have hundecided {buf : Bytes} (h : self.check buf = none) : headerEnd buf = none := by
    rwa [hcheck, Option.map_eq_none_iff] at h
  cases h with
  | verdict _ _ hverdict hc =>
    rw [hcheck, Option.map_eq_some_iff] at hverdict
    obtain ⟨i, hi, rfl⟩ := hverdict
    have hfirst := Search.find_append hi (w'.remaining self.side)
    rw [← hc.taken] at hfirst
    obtain rfl := Option.some.inj (hstop.symm.trans hfirst)
    exact ⟨_, rfl, hi, hc⟩
  | @closed buf _ hopen hend hc =>
    rw [hc.taken, hend, List.append_nil] at hstop
    rcases hopen.2 with rfl | hnone
    · cases hstop
    · rw [hundecided hnone] at hstop
      cases hstop
  | tooLong hlong _ hnone hc =>
    rw [hc.taken] at hstop
    have hin : headerEnd _ = some stop :=
      Search.find_of_append hstop (show stop + 4 ≤ _ from by omega)
    cases (hundecided hnone).symm.trans hin

/-- Without an empty line in reach the loop gives up. -/
theorem givesUp_of_no_head
    (hcheck : ∀ buf, self.check buf = (headerEnd buf).map fun stop => .ok (f buf stop))
    (hnone : ¬ crlf ++ crlf <:+: (w.remaining self.side).take (self.limit + self.cap)) :
    self.GivesUp (self.loop []) w := by
  refine givesUp_of_error fun r w' h => ?_
  cases h with
  | closed => exact ⟨_, rfl⟩
  | tooLong => exact ⟨_, rfl⟩
  | @verdict buf bytes _ _ hopen hle hverdict hc =>
    rw [hcheck, Option.map_eq_some_iff] at hverdict
    obtain ⟨i, hi, -⟩ := hverdict
    have hlen : (buf ++ bytes).length ≤ self.limit + self.cap := by
      have := hopen.1
      rw [List.length_append]
      omega
    have hpart : buf ++ bytes <+: (w.remaining self.side).take (self.limit + self.cap) := by
      rw [hc.taken]
      exact List.prefix_take_iff.mpr ⟨List.prefix_append _ _, hlen⟩
    obtain ⟨-, hp, -⟩ := Search.find_eq_some_iff.mp hi
    exact absurd (hp.isInfix.trans ((List.drop_suffix _ _).isInfix.trans hpart.isInfix)) hnone

end Heads

end Collector

theorem chunk_pos : 0 < 1024 := Nat.zero_lt_succ 1023

theorem responseChunk_pos : 0 < 512 := Nat.zero_lt_succ 511

/-- The loop of `readUntilHeaderEnd`. -/
def headerCollector : Collector Bytes where
  side := .inbound
  cap := 1024
  limit := maxHttpHeader
  closed := .msg "connection closed before HTTP header"
  tooLong := .msg "HTTP header exceeds 65536 bytes"
  check buf := (headerEnd buf).map fun _ => .ok buf
  cap_pos := chunk_pos

theorem readUntilHeaderEnd_eq : readUntilHeaderEnd = headerCollector.loop [] := rfl

theorem headerCollector_check (buf : Bytes) :
    headerCollector.check buf = (headerEnd buf).map fun _ => .ok buf := rfl

/-- The loop of `readConnectResponse`. -/
def responseCollector : Collector (Bytes × Bytes) where
  side := .upstream
  cap := 512
  limit := maxHttpHeader
  closed := .msg "HTTP proxy closed before CONNECT response"
  tooLong := .msg "HTTP proxy CONNECT response too large"
  check response := (splitResponse response).map .ok
  cap_pos := responseChunk_pos

theorem readConnectResponse_eq : readConnectResponse = responseCollector.loop [] := rfl

theorem responseCollector_check (buf : Bytes) :
    responseCollector.check buf =
      (headerEnd buf).map fun stop => .ok (buf.take stop, buf.drop (stop + 4)) := by
  simp only [responseCollector, splitResponse, Option.map_map, Function.comp_def]

theorem always_readUntilHeaderEnd {w : Wire} {stop : Nat}
    (hstop : headerEnd (w.remaining .inbound) = some stop) (hlimit : stop + 4 ≤ maxHttpHeader) :
    Always readUntilHeaderEnd w fun r w' => ∃ buf, r = .ok buf ∧
      buf.take stop = (w.remaining .inbound).take stop ∧
      buf ++ w'.remaining .inbound = w.remaining .inbound ∧
      parseHttpHost buf = parseHttpHost (w.remaining .inbound) := by
  rw [readUntilHeaderEnd_eq, always_iff]
  intro r w' hr
  obtain ⟨buf, rfl, hhead, hc⟩ :=
    Collector.Stops.head (f := fun buf _ => buf) headerCollector_check hstop hlimit
      (Collector.stops_of_ends hr)
  have htaken : w.remaining .inbound = buf ++ w'.remaining .inbound := hc.taken
  refine ⟨buf, rfl, ?_, htaken.symm, ?_⟩
  · rw [htaken, List.take_append_of_le_length (by have := Search.find_le hhead; omega)]
  · rw [htaken, parseHttpHost_append hhead]

/-- A text with a first empty line is what stands before it, the empty line, and the rest. -/
theorem headerEnd_parts {buf : Bytes} {stop : Nat} (h : headerEnd buf = some stop) :
    buf.take stop ++ (crlf ++ crlf) ++ buf.drop (stop + 4) = buf := by
  obtain ⟨-, ⟨rest, hrest⟩, -⟩ := Search.find_eq_some_iff.mp h
  have hdrop : buf.drop (stop + 4) = rest := by
    rw [← List.drop_drop, ← hrest]
    rfl
  rw [hdrop, List.append_assoc, hrest, List.take_append_drop]

theorem always_readConnectResponse {w : Wire} {stop : Nat}
    (hstop : headerEnd (w.remaining .upstream) = some stop) (hlimit : stop + 4 ≤ maxHttpHeader) :
    Always readConnectResponse w fun r w' => ∃ header leftover, r = .ok (header, leftover) ∧
      header = (w.remaining .upstream).take stop ∧
      header ++ (crlf ++ crlf) ++ leftover ++ w'.remaining .upstream =
        w.remaining .upstream := by
  rw [readConnectResponse_eq, always_iff]
  intro r w' hr
  obtain ⟨buf, rfl, hhead, hc⟩ :=
    Collector.Stops.head (f := fun buf stop => (buf.take stop, buf.drop (stop + 4)))
      responseCollector_check hstop hlimit (Collector.stops_of_ends hr)
  have htaken : w.remaining .upstream = buf ++ w'.remaining .upstream := hc.taken
  refine ⟨_, _, rfl, ?_, ?_⟩
  · rw [htaken, List.take_append_of_le_length (by have := Search.find_le hhead; omega)]
  · rw [headerEnd_parts hhead, htaken]

/-- What the readers of heads return does not depend on how their stream is cut. -/
theorem headReaders_segmentation (w : Wire) :
    (∀ stop, headerEnd (w.remaining .inbound) = some stop → stop + 4 ≤ maxHttpHeader →
      Always readUntilHeaderEnd w fun r w' => ∃ buf, r = .ok buf ∧
        buf.take stop = (w.remaining .inbound).take stop ∧
        buf ++ w'.remaining .inbound = w.remaining .inbound ∧
        parseHttpHost buf = parseHttpHost (w.remaining .inbound)) ∧
    (∀ stop, headerEnd (w.remaining .upstream) = some stop → stop + 4 ≤ maxHttpHeader →
      Always readConnectResponse w fun r w' => ∃ header leftover, r = .ok (header, leftover) ∧
        header = (w.remaining .upstream).take stop ∧
        header ++ (crlf ++ crlf) ++ leftover ++ w'.remaining .upstream =
          w.remaining .upstream) ∧
    (¬ crlf ++ crlf <:+: (w.remaining .inbound).take (maxHttpHeader + 1024) →
      headerCollector.GivesUp readUntilHeaderEnd w) ∧
    (¬ crlf ++ crlf <:+: (w.remaining .upstream).take (maxHttpHeader + 512) →
      responseCollector.GivesUp readConnectResponse w) := by
  refine ⟨fun _ => always_readUntilHeaderEnd, fun _ => always_readConnectResponse, ?_, ?_⟩
  · rw [readUntilHeaderEnd_eq]
    exact Collector.givesUp_of_no_head (f := fun buf _ => buf) headerCollector_check
  · rw [readConnectResponse_eq]
    exact Collector.givesUp_of_no_head
      (f := fun buf stop => (buf.take stop, buf.drop (stop + 4))) responseCollector_check

theorem headReaders_segmentation_get :
    let stream := ascii "GET / HTTP/1.1\r\nHost: a.com\r\n\r\nbody"
    Always readUntilHeaderEnd (.fresh stream) (fun r w' => ∃ buf, r = .ok buf ∧
      buf.take 27 = ascii "GET / HTTP/1.1\r\nHost: a.com" ∧
      buf ++ w'.remaining .inbound = stream ∧ parseHttpHost buf = parseHttpHost stream) ∧
    headerCollector.GivesUp readUntilHeaderEnd (.fresh (ascii "GET / HTTP/1.1\r\n")) :=
  ⟨(headReaders_segmentation _).1 27 (by decide) (by decide),
    (headReaders_segmentation _).2.2.1 (by decide)⟩

end NyaSniProxy
