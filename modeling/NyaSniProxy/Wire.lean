import NyaSniProxy.Connection

/-!
# The network around a connection

`Wire` is what lies outside a connection: what each peer sends, how much of it was read, and what
was handed to each peer. `Answer` says how the network answers a call. It cuts streams into reads
and writes as it likes and serves the branches of the relay in any order; with `faulty` it may also
let operations fail at any time. The end of a stream is answered once everything in it was read.

The rules below are the weakest preconditions of single calls and of the loops over reads and
writes. They speak about `remaining`, which is the part of a stream that was not read, with the
bytes in front of it that `PrefixedStream` serves.
-/

namespace NyaSniProxy

open Text Interaction

/-- Where the streams stood when the tunnel was opened: the bytes handed to the upstream, and the
bytes read from the client. -/
structure Tunnel where
  proxy : ProxyConfig
  written : Nat
  read : Nat

structure Wire where
  /-- Everything a peer sends. -/
  incoming : Side → Bytes
  /-- The part of `incoming` that was not read from the socket. -/
  unread : Side → Bytes
  /-- What was handed to the peer. -/
  written : Side → Bytes
  /-- Was the write side shut down? -/
  shut : Side → Bool
  front : PrefixedStream
  proxy : Option ProxyConfig
  tunnel : Option Tunnel
  report : Option (UInt64 × UInt64)

namespace Wire

/-- A client that will send these bytes has connected. -/
def fresh (client : Bytes) : Wire where
  incoming
    | .inbound => client
    | .upstream => []
  unread
    | .inbound => client
    | .upstream => []
  written _ := []
  shut _ := false
  front := .new []
  proxy := none
  tunnel := none
  report := none

/-- What the program can still read of a stream. -/
def remaining (w : Wire) : Side → Bytes
  | .inbound => w.unread .inbound
  | .upstream => w.front.front ++ w.unread .upstream

/-- A connection to a proxy that will send these bytes. -/
def dialled (w : Wire) (proxy : ProxyConfig) (bytes : Bytes) : Wire :=
  { w with
    incoming := Function.update w.incoming .upstream bytes
    unread := Function.update w.unread .upstream bytes
    written := Function.update w.written .upstream []
    shut := Function.update w.shut .upstream false
    front := .new []
    proxy := some proxy
    tunnel := none }

def opened (w : Wire) (pre : Bytes) : Wire :=
  { w with
    front := .new pre
    tunnel := w.proxy.map fun proxy => {
      proxy
      written := (w.written .upstream).length
      read := (w.incoming .inbound).length - (w.unread .inbound).length } }

/-- More bytes were handed to the peer. -/
def write (w : Wire) (side : Side) (bytes : Bytes) : Wire :=
  { w with written := Function.update w.written side (w.written side ++ bytes) }

def shutdown (w : Wire) (side : Side) : Wire :=
  { w with shut := Function.update w.shut side true }

/-- One read of a stream: what is in front of it, or a part of what arrived, or its end. -/
inductive Read (w : Wire) (cap : Nat) : Side → Bytes → Wire → Prop where
  | front {bytes front} : w.front.pollRead cap = some (bytes, front) →
      Read w cap .upstream bytes { w with front }
  | socket {side bytes rest} : (side = .upstream → w.front.pollRead cap = none) →
      w.unread side = bytes ++ rest → bytes.length ≤ cap → (bytes = [] → cap = 0 ∨ rest = []) →
      Read w cap side bytes { w with unread := Function.update w.unread side rest }

end Wire

/-- Which answers the network may give to a call. -/
inductive Answer (faulty : Prop) : Env Call Reply Wire where
  | connect {proxy w} (bytes) : Answer faulty (.connect proxy) w (.ok ()) (w.dialled proxy bytes)
  | connectFault {proxy w f} : faulty → Answer faulty (.connect proxy) w (.error f) w
  | serverName {host w} (valid) : Answer faulty (.serverName host) w valid w
  | tlsConnect {w} : Answer faulty .tlsConnect w (.ok ()) w
  | tlsFault {w f} : faulty → Answer faulty .tlsConnect w (.error f) w
  | tunnel {pre w} : Answer faulty (.tunnel pre) w () (w.opened pre)
  | read {side cap w bytes w'} : w.Read cap side bytes w' →
      Answer faulty (.read side cap) w (.ok bytes) w'
  | readFault {side cap w f} : faulty → Answer faulty (.read side cap) w (.error f) w
  | write {side bytes w n} : n ≤ bytes.length → (bytes ≠ [] → 0 < n) →
      Answer faulty (.write side bytes) w (.ok n) (w.write side (bytes.take n))
  | writeFault {side bytes w f} : faulty → Answer faulty (.write side bytes) w (.error f) w
  | shutdown {side w} : Answer faulty (.shutdown side) w (.ok ()) (w.shutdown side)
  | shutdownFault {side w f} : faulty → Answer faulty (.shutdown side) w (.error f) w
  | idle {guard cap w} : Answer faulty (.select guard cap) w .idle w
  | branch {guard side cap w bytes w'} : guard side = true → w.Read cap side bytes w' →
      Answer faulty (.select guard cap) w (.read side (.ok bytes)) w'
  | branchFault {guard side cap w f} : guard side = true → faulty →
      Answer faulty (.select guard cap) w (.read side (.error f)) w
  | resetIdle {w} : Answer faulty .resetIdle w () w
  | borrow {w} (runtime) : Answer faulty .borrow w runtime w
  | relayComplete {fromClient fromServer w} :
      Answer faulty (.relayComplete fromClient fromServer) w ()
        { w with report := some (fromClient, fromServer) }

theorem Wire.exists_read (w : Wire) (side : Side) (cap : Nat) :
    ∃ bytes w', w.Read cap side bytes w' := by
  have hsocket (h : side = .upstream → w.front.pollRead cap = none) :
      ∃ bytes w', w.Read cap side bytes w' := by
    refine ⟨_, _, .socket h (List.take_append_drop cap (w.unread side)).symm
      (List.length_take_le ..) fun hnil => ?_⟩
    exact (List.take_eq_nil_iff.mp hnil).imp_right fun h => by simp [h]
  cases side with
  | inbound => exact hsocket nofun
  | upstream =>
    cases hpoll : w.front.pollRead cap with
    | some p => exact ⟨_, _, .front hpoll⟩
    | none => exact hsocket fun _ => hpoll

/-- The network answers every call, also if nothing fails. -/
theorem exists_answer {faulty : Prop} (i : Call) (w : Wire) :
    ∃ r w', Answer faulty i w r w' := by
  cases i with
  | connect proxy => exact ⟨_, _, .connect []⟩
  | serverName host => exact ⟨_, _, .serverName true⟩
  | tlsConnect => exact ⟨_, _, .tlsConnect⟩
  | tunnel pre => exact ⟨_, _, .tunnel⟩
  | read side cap =>
    obtain ⟨bytes, w', h⟩ := w.exists_read side cap
    exact ⟨_, _, .read h⟩
  | write side bytes =>
    exact ⟨_, _, .write (Nat.le_refl _) fun h => List.length_pos_of_ne_nil h⟩
  | shutdown side => exact ⟨_, _, .shutdown⟩
  | select guard cap => exact ⟨_, _, .idle⟩
  | resetIdle => exact ⟨_, _, .resetIdle⟩
  | borrow => exact ⟨⟨⟨∅, []⟩, [], 0⟩, _, .borrow _⟩
  | relayComplete a b => exact ⟨_, _, .relayComplete⟩

/-! ## Reads -/

namespace PrefixedStream

/-- A read that is served from the front takes some bytes off it. -/
theorem pollRead_eq_some {s s' : PrefixedStream} {cap : Nat} {bytes : Bytes}
    (h : s.pollRead cap = some (bytes, s')) :
    s.front = bytes ++ s'.front ∧ bytes ≠ [] ∧ bytes.length ≤ cap := by
  unfold pollRead at h
  split at h
  · next hpre =>
    obtain ⟨rfl, rfl⟩ := by simpa using h
    have hlen : (s.pre.drop s.preOffset).length = s.pre.length - s.preOffset :=
      List.length_drop
    refine ⟨?_, ?_, by rw [List.length_take]; omega⟩
    · split
      · next hend =>
        have hall : s.pre.length - s.preOffset ≤ min (s.pre.length - s.preOffset) cap := by omega
        simp [front, List.take_of_length_le, hall]
      · simp only [front, ← List.drop_drop]
        exact (List.take_append_drop _ _).symm
    · intro hnil
      rw [List.take_eq_nil_iff] at hnil
      rcases hnil with hmin | hdrop
      · omega
      · rw [hdrop, List.length_nil] at hlen
        omega
  · cases h

theorem pollRead_eq_none {s : PrefixedStream} {cap : Nat} (hcap : 0 < cap)
    (h : s.pollRead cap = none) : s.front = [] := by
  unfold pollRead at h
  split at h
  · cases h
  · next hpre => exact List.drop_eq_nil_of_le (by omega)

@[simp] theorem front_new (pre : Bytes) : (new pre).front = pre := rfl

end PrefixedStream

namespace Wire

/-- `bytes` were read from a stream, and nothing else happened. -/
structure Consumes (side : Side) (bytes : Bytes) (w w' : Wire) : Prop where
  frame : ∃ unread front, w' = { w with unread, front }
  taken : w.remaining side = bytes ++ w'.remaining side
  other : ∀ s, s ≠ side → w'.remaining s = w.remaining s
  suffix : w'.front.front <:+ w.front.front

variable {w w' w₁ : Wire} {side : Side} {bytes more : Bytes} {cap : Nat}

theorem Consumes.refl (w : Wire) (side : Side) : Consumes side [] w w :=
  ⟨⟨_, _, rfl⟩, rfl, fun _ _ => rfl, List.suffix_refl _⟩

theorem Consumes.trans (h : Consumes side bytes w w₁) (h' : Consumes side more w₁ w') :
    Consumes side (bytes ++ more) w w' := by
  obtain ⟨u, f, rfl⟩ := h.frame
  obtain ⟨u', f', rfl⟩ := h'.frame
  refine ⟨⟨u', f', rfl⟩, ?_, fun s hs => (h'.other s hs).trans (h.other s hs),
    h'.suffix.trans h.suffix⟩
  rw [h.taken, h'.taken, List.append_assoc]

@[simp] theorem write_nil (w : Wire) (side : Side) : w.write side [] = w := by
  simp [write]

theorem write_write (w : Wire) (side : Side) (bytes more : Bytes) :
    (w.write side bytes).write side more = w.write side (bytes ++ more) := by
  simp [write]

@[simp] theorem remaining_write (w : Wire) (side s : Side) (bytes : Bytes) :
    (w.write side bytes).remaining s = w.remaining s := by
  cases s <;> rfl

@[simp] theorem remaining_shutdown (w : Wire) (side s : Side) :
    (w.shutdown side).remaining s = w.remaining s := by
  cases s <;> rfl

/-- Reads and writes do not interfere. -/
theorem Consumes.write (h : Consumes side bytes w w') (s : Side) :
    Consumes side bytes (w.write s more) (w'.write s more) := by
  obtain ⟨u, f, rfl⟩ := h.frame
  exact ⟨⟨u, f, rfl⟩, by simpa using h.taken, fun s' hs => by simpa using h.other s' hs, h.suffix⟩

theorem Read.consumes (h : w.Read cap side bytes w') (hcap : 0 < cap) :
    Consumes side bytes w w' ∧ bytes.length ≤ cap ∧ (bytes = [] → w.remaining side = []) := by
  cases h with
  | front hpoll =>
    obtain ⟨hfront, hne, hle⟩ := PrefixedStream.pollRead_eq_some hpoll
    refine ⟨⟨⟨_, _, rfl⟩, by simp [remaining, hfront], fun s hs => ?_, ⟨_, hfront.symm⟩⟩, hle,
      fun he => absurd he hne⟩
    cases s with
    | inbound => rfl
    | upstream => exact absurd rfl hs
  | socket hpoll hunread hle hend =>
    cases side with
    | inbound =>
      refine ⟨⟨⟨_, _, rfl⟩, by simp [remaining, hunread], fun s hs => ?_, List.suffix_refl _⟩, hle,
        fun he => ?_⟩
      · cases s with
        | inbound => exact absurd rfl hs
        | upstream => simp [remaining]
      · simp [remaining, hunread, he, (hend he).resolve_left (by omega)]
    | upstream =>
      have hfront := PrefixedStream.pollRead_eq_none hcap (hpoll rfl)
      refine ⟨⟨⟨_, _, rfl⟩, by simp [remaining, hunread, hfront], fun s hs => ?_,
        List.suffix_refl _⟩, hle, fun he => ?_⟩
      · cases s with
        | inbound => simp [remaining]
        | upstream => exact absurd rfl hs
      · simp [remaining, hunread, hfront, he, (hend he).resolve_left (by omega)]

end Wire

/-! ## Exchanges with the upstream -/

open Wire

/-- The bytes `read` came from the upstream and the bytes `written` went there. -/
def Exchanged (read written : Bytes) (w w' : Wire) : Prop :=
  Consumes .upstream read (w.write .upstream written) w'

theorem Exchanged.refl (w : Wire) : Exchanged [] [] w w := by
  simpa [Exchanged] using Consumes.refl w .upstream

section Exchanged

variable {w w₁ w' : Wire} {received handed more : Bytes}

theorem Exchanged.read (h : Exchanged received handed w w₁)
    (hc : Consumes .upstream more w₁ w') : Exchanged (received ++ more) handed w w' :=
  Consumes.trans h hc

theorem Exchanged.write (h : Exchanged received handed w w') :
    Exchanged received (handed ++ more) w (w'.write .upstream more) := by
  have hw : Consumes .upstream received ((w.write .upstream handed).write .upstream more)
      (w'.write .upstream more) := Consumes.write h .upstream
  rwa [write_write] at hw

theorem Exchanged.trans {received' handed' : Bytes} (h : Exchanged received handed w w₁)
    (h' : Exchanged received' handed' w₁ w') :
    Exchanged (received ++ received') (handed ++ handed') w w' := by
  have hw : Exchanged received (handed ++ handed') w (w₁.write .upstream handed') := h.write
  exact Consumes.trans hw h'

theorem Exchanged.taken (h : Exchanged received handed w w') :
    w.remaining .upstream = received ++ w'.remaining .upstream := by
  simpa using Consumes.taken h

theorem Exchanged.written (h : Exchanged received handed w w') :
    w'.written .upstream = w.written .upstream ++ handed := by
  obtain ⟨u, f, rfl⟩ := Consumes.frame h
  simp [Wire.write]

end Exchanged

/-! ## Rules -/

section Rules

variable {α : Type} {faulty : Prop} {I : Option Call → Wire → Prop} {w : Wire} {side : Side}

/-- One read: some bytes, the end of the stream, or a fault. -/
theorem wp_call_read {cap : Nat} {k : Except Fault Bytes → Io α} {Q : Except Error α → Wire → Prop}
    (hcap : 0 < cap) (hI : I (some (.read side cap)) w)
    (hok : ∀ bytes w', Consumes side bytes w w' → bytes.length ≤ cap →
      (bytes = [] → w.remaining side = []) → wp (Answer faulty) I (k (.ok bytes)) Q w')
    (herr : faulty → ∀ f, wp (Answer faulty) I (k (.error f)) Q w) :
    wp (Answer faulty) I (.call (.read side cap) k) Q w := by
  refine wp_call.mpr ⟨hI, fun r w' hr => ?_⟩
  cases hr with
  | read h =>
    obtain ⟨hc, hle, hend⟩ := h.consumes hcap
    exact hok _ _ hc hle hend
  | readFault hf => exact herr hf _

/-- All of the bytes are handed over, or a fault comes in between. -/
theorem wp_writeAll {bytes : Bytes} {Q : Except Error Unit → Wire → Prop}
    (hI : ∀ c part, part <+: bytes → I c (w.write side part))
    (hok : Q (.ok ()) (w.write side bytes))
    (herr : faulty → ∀ f part, part <+: bytes → Q (.error (.fault f)) (w.write side part)) :
    wp (Answer faulty) I (Io.writeAll side bytes) Q w := by
  induction hn : bytes.length using Nat.strong_induction_on generalizing bytes w with
  | _ n ih =>
    subst hn
    rw [Io.writeAll]
    split
    · next hnil =>
      subst hnil
      rw [write_nil] at hok
      exact ⟨by simpa using hI none [] (List.nil_prefix ..), hok⟩
    · next hne =>
      refine wp_call.mpr ⟨by simpa using hI _ [] (List.nil_prefix ..), fun r w' hr => ?_⟩
      cases hr with
      | @write _ _ _ n hle hpos =>
        obtain ⟨n, rfl⟩ := Nat.exists_eq_add_one.mpr (hpos hne)
        have hpart {part : Bytes} (h : part <+: bytes.drop (n + 1)) :
            bytes.take (n + 1) ++ part <+: bytes := by
          conv_rhs => rw [← List.take_append_drop (n + 1) bytes]
          exact (List.prefix_append_right_inj _).mpr h
        refine ih _ (by rw [List.length_drop]; omega) (fun c part h => ?_) ?_
          (fun hf f part h => ?_) rfl
        · rw [write_write]
          exact hI c _ (hpart h)
        · rwa [write_write, List.take_append_drop]
        · rw [write_write]
          exact herr hf f _ (hpart h)
      | writeFault hf =>
        exact ⟨by simpa using hI none [] (List.nil_prefix ..),
          by simpa using herr hf _ [] (List.nil_prefix ..)⟩

/-- Exactly `n` bytes are read, unless the stream ends or fails before. -/
theorem wp_readExact {n : Nat} {acc : Bytes} {Q : Except Error Bytes → Wire → Prop}
    (hI : ∀ c bytes w', Consumes side bytes w w' → I c w')
    (hok : ∀ bytes w', Consumes side bytes w w' → acc.length + bytes.length = max n acc.length →
      Q (.ok (acc ++ bytes)) w')
    (herr : ∀ f bytes w', Consumes side bytes w w' →
      (faulty ∨ acc.length + bytes.length < n ∧ w'.remaining side = []) →
      Q (.error (.fault f)) w') :
    wp (Answer faulty) I (Io.readExact side n acc) Q w := by
  induction hm : n - acc.length using Nat.strong_induction_on generalizing acc w with
  | _ m ih =>
    subst hm
    rw [Io.readExact]
    split
    · next hlt =>
      refine wp_call_read (by omega) (hI _ [] w (.refl w side)) (fun bytes w' hc hle hend => ?_)
        fun hf f => ⟨hI _ [] w (.refl w side), herr f [] w (.refl w side) (.inl hf)⟩
      cases bytes with
      | nil =>
        have hrest := hend rfl
        rw [hc.taken, List.nil_append] at hrest
        exact ⟨hI _ [] w' hc, herr _ [] w' hc (.inr ⟨by simpa using hlt, hrest⟩)⟩
      | cons b bytes =>
        simp only [List.length_cons] at hle
        refine ih _ (by simp only [List.length_append, List.length_cons]; omega)
          (fun c more w'' h => hI c _ w'' (hc.trans h)) (fun more w'' h hlen => ?_)
          (fun f more w'' h hshort => ?_) rfl
        · rw [List.append_assoc]
          refine hok _ w'' (hc.trans h) ?_
          simp only [List.length_append, List.length_cons] at hlen ⊢
          omega
        · refine herr f _ w'' (hc.trans h) (hshort.imp_right fun h => ⟨?_, h.2⟩)
          simp only [List.length_append, List.length_cons] at h ⊢
          omega
    · next hge =>
      have h := hok [] w (.refl w side) (by simp only [List.length_nil]; omega)
      rw [List.append_nil] at h
      exact ⟨hI _ [] w (.refl w side), h⟩

/-- `wp_readExact` with nothing read before. -/
theorem wp_readExactly {n : Nat} {Q : Except Error Bytes → Wire → Prop}
    (hI : ∀ c bytes w', Consumes side bytes w w' → I c w')
    (hok : ∀ bytes w', Consumes side bytes w w' → bytes.length = n → Q (.ok bytes) w')
    (herr : ∀ f bytes w', Consumes side bytes w w' →
      (faulty ∨ (w.remaining side).length < n) → Q (.error (.fault f)) w') :
    wp (Answer faulty) I (Io.readExact side n []) Q w := by
  refine wp_readExact hI (fun bytes w' hc hlen => ?_) fun f bytes w' hc hshort => ?_
  · exact hok bytes w' hc (by simpa using hlen)
  · refine herr f bytes w' hc (hshort.imp_right fun h => ?_)
    rw [hc.taken, h.2]
    simpa using h.1

/-- What a reader that collects a message has read when it stops. -/
theorem wp_readUntil {cap limit : Nat} {closed tooLong : Error}
    {check : Bytes → Option (Except Error α)} {buf : Bytes} {Q : Except Error α → Wire → Prop}
    (hcap : 0 < cap) (hI : ∀ c bytes w', Consumes side bytes w w' → I c w')
    (hverdict : ∀ bytes w' verdict, Consumes side bytes w w' →
      check (buf ++ bytes) = some verdict → Q verdict w')
    (herr : ∀ e bytes w', Consumes side bytes w w' → Q (.error e) w') :
    wp (Answer faulty) I (Io.readUntil side cap limit closed tooLong check buf) Q w := by
  induction hm : limit + 1 - buf.length using Nat.strong_induction_on generalizing buf w with
  | _ m ih =>
    subst hm
    rw [Io.readUntil]
    refine wp_call_read hcap (hI _ [] w (.refl w side)) (fun bytes w' hc hle hend => ?_)
      fun hf f => ⟨hI _ [] w (.refl w side), herr _ [] w (.refl w side)⟩
    cases bytes with
    | nil => exact ⟨hI _ [] w' hc, herr _ [] w' hc⟩
    | cons b bytes =>
      dsimp only
      split
      · next verdict hcheck =>
        have hpost := hverdict _ w' verdict hc hcheck
        cases verdict with
        | ok a => exact ⟨hI _ _ w' hc, hpost⟩
        | error e => exact ⟨hI _ _ w' hc, hpost⟩
      · split
        · exact ⟨hI _ _ w' hc, herr _ _ w' hc⟩
        · next hshort =>
          simp only [List.length_append, List.length_cons] at hshort
          refine ih _ (by simp only [List.length_append, List.length_cons]; omega)
            (fun c more w'' h => hI c _ w'' (hc.trans h)) (fun more w'' verdict h hcheck => ?_)
            (fun e more w'' h => herr e _ w'' (hc.trans h)) rfl
          rw [List.append_assoc] at hcheck
          exact hverdict _ w'' verdict (hc.trans h) hcheck

theorem wp_ofExcept {r : Except Error α} {Q : Except Error α → Wire → Prop}
    (hI : I none w) (hQ : Q r w) : wp (Answer faulty) I (.ofExcept r : Io α) Q w := by
  cases r <;> exact ⟨hI, hQ⟩

end Rules

/-! ## Runs without cuts -/

section Runs

variable {α : Type} {faulty : Prop} {w w' : Wire} {side : Side} {bytes : Bytes}

/-- Everything was read from the socket. -/
def Wire.drained (w : Wire) (side : Side) : Wire :=
  { w with unread := Function.update w.unread side [] }

/-- One read may bring everything. -/
theorem read_drained {cap : Nat} (hfront : side = .upstream → w.front.pollRead cap = none)
    (hunread : w.unread side = bytes) (hlen : bytes.length ≤ cap) :
    w.Read cap side bytes (w.drained side) :=
  .socket hfront (by rw [hunread, List.append_nil]) hlen fun _ => .inr rfl

/-- One write may take everything. -/
theorem ends_writeAll : Ends (Answer faulty) (Io.writeAll side bytes) w (.ok ())
    (w.write side bytes) := by
  rw [Io.writeAll]
  split
  · next hnil =>
    subst hnil
    rw [write_nil]
    exact .refl
  · next hne =>
    have hanswer : Answer faulty (.write side bytes) w (.ok bytes.length)
        (w.write side (bytes.take bytes.length)) :=
      .write (le_refl _) fun h => List.length_pos_of_ne_nil h
    rw [List.take_length] at hanswer
    refine Ends.call hanswer ?_
    obtain ⟨n, hn⟩ := Nat.exists_eq_add_one.mpr (List.length_pos_of_ne_nil hne)
    simp only [hn]
    rw [← hn, List.drop_length, Io.writeAll]
    exact .refl

/-- One read may bring a whole message. -/
theorem ends_readUntil {cap limit : Nat} {closed tooLong : Error}
    {check : Bytes → Option (Except Error α)} {buf : Bytes} {verdict : Except Error α}
    (hread : w.Read cap side bytes w') (hne : bytes ≠ [])
    (hcheck : check (buf ++ bytes) = some verdict) :
    Ends (Answer faulty) (Io.readUntil side cap limit closed tooLong check buf) w verdict w' := by
  rw [Io.readUntil]
  refine Ends.call (.read hread) ?_
  obtain ⟨b, bytes, rfl⟩ := List.exists_cons_of_ne_nil hne
  simp only [hcheck]
  exact .refl

end Runs

end NyaSniProxy
