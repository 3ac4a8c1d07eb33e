import Mathlib.Algebra.Order.BigOperators.Group.List
import NyaSniProxy.Reload.InFlight

/-!
# The slot of a finished fetch

The thread of a fetch sends its result and drops its guard after that, so the caller may return the
result while the slot is still taken. A schedule is prompt if it gives the caller no turn between
the two. In prompt runs the slots that are taken are those of calls that have not got a result, and
a caller that makes one call after the other finds the slots full of calls that timed out only.
-/

namespace NyaSniProxy

open Text

namespace FetchCall

variable {width : Nat}

/-- The call has returned what its thread sent. -/
def delivered (c : FetchCall width) : Bool :=
  match c.caller with
  | .returned (.ok _) => true
  | .returned (.error (.failed _)) => true
  | _ => false

/-- The call is being answered or has been answered that too many fetches are in flight. -/
def refused (c : FetchCall width) : Bool :=
  match c.caller with
  | .count => true
  | .returned (.error (.inFlight _)) => true
  | _ => false

/-- The call has returned without waiting for its thread any longer. -/
def timedOut (c : FetchCall width) : Bool :=
  match c.caller with
  | .returned (.error .timedOut) => true
  | _ => false

/-- The call has returned. -/
def hasReturned (c : FetchCall width) : Bool :=
  match c.caller with
  | .returned _ => true
  | _ => false

end FetchCall

/-- Who takes a step of a call. -/
inductive Party where
  | caller
  | thread

/-- A step that this party takes: the caller moves in its own steps and in no others. -/
def FetchTurn {width : Nat} (party : Party) (s : InFlightFetches width) (c : FetchCall width)
    (s' : InFlightFetches width) (c' : FetchCall width) : Prop :=
  FetchStep s c s' c' ∧ (party = .caller ↔ c'.caller ≠ c.caller)

/-- The caller gets no turn while its thread stands between the send of the result and the drop of
the guard. -/
def Party.Prompt {width : Nat} (party : Party) (c : FetchCall width) : Prop :=
  party = .caller → c.thread ≠ .sent

/-- A step of a prompt schedule. -/
def PromptStep {width : Nat} (s : InFlightFetches width) (c : FetchCall width)
    (s' : InFlightFetches width) (c' : FetchCall width) : Prop :=
  ∃ party : Party, party.Prompt c ∧ FetchTurn party s c s' c'

/-- The runs of prompt schedules. -/
abbrev FetchPool.PromptReachable {width : Nat} (max : BitVec width) :
    Pool (InFlightFetches width) (FetchCall width) → Prop :=
  Pool.Reachable FetchCall.new PromptStep (.new max)

/-- A step of one caller that makes its next call when the last one has returned. The threads of
earlier calls go on. -/
inductive FetchPool.SequentialStep {width : Nat} : Pool (InFlightFetches width) (FetchCall width) →
    Pool (InFlightFetches width) (FetchCall width) → Prop where
  | join {s parts} : (∀ c ∈ parts, c.hasReturned) → SequentialStep ⟨s, parts⟩ ⟨s, parts ++ [.new]⟩
  | act {s s' c c' before after} : PromptStep s c s' c' →
      SequentialStep ⟨s, before ++ c :: after⟩ ⟨s', before ++ c' :: after⟩

abbrev FetchPool.SequentialReachable {width : Nat} (max : BitVec width) :
    Pool (InFlightFetches width) (FetchCall width) → Prop :=
  Relation.ReflTransGen FetchPool.SequentialStep ⟨.new max, []⟩

/-- Finished fetches have freed their slots. -/
structure SlotsFreed {width : Nat} (p : Pool (InFlightFetches width) (FetchCall width)) : Prop where
  released : ∀ c ∈ p.parts, c.delivered → c.history.count .acquire = 1 ∧
    c.history.count .release = 1
  /-- The counter counts the slots of calls without a result. -/
  counted : p.shared.current.toNat =
    ((p.parts.filter fun c => !c.delivered).map FetchCall.guards).sum
  zero : (∀ c ∈ p.parts, c.delivered) → p.shared.current = 0

/-- A call finds the slots full only if calls that timed out hold them all, so a refused call has as
many of those before it as there are slots. -/
structure FullOfTimeouts {width : Nat} (max : BitVec width)
    (p : Pool (InFlightFetches width) (FetchCall width)) : Prop where
  found : ∀ c ∈ p.parts, c.caller = .load → max ≤ p.shared.current →
    max.toNat ≤ ((p.parts.filter FetchCall.timedOut).map FetchCall.guards).sum
  refused : ∀ c ∈ p.parts, ∀ n, c.caller = .returned (.error (.inFlight n)) →
    max.toNat ≤ p.parts.countP FetchCall.timedOut

section Prompt

variable {width : Nat} {max : BitVec width} {s s' : InFlightFetches width}
  {c c' : FetchCall width} {p : Pool (InFlightFetches width) (FetchCall width)}

/-- The call has returned, and not because time was up. -/
def FetchCall.settled (c : FetchCall width) : Bool := c.hasReturned && !c.timedOut

/-- What a prompt run keeps of a call: when it has settled, its thread has ended, if there ever was
one. -/
def FetchCall.Prompt (max : BitVec width) (c : FetchCall width) : Prop :=
  c.Traced max ∧ (c.settled → c.thread = .ended ∨ c.thread = .unborn)

theorem FetchCall.settled_of_delivered (h : c.delivered) : c.settled := by
  obtain ⟨caller, t, ch, es⟩ := c
  unfold delivered at h
  unfold settled hasReturned timedOut
  split at h <;> simp_all

theorem FetchCall.hasReturned_of_timedOut (h : c.timedOut) : c.hasReturned := by
  obtain ⟨caller, t, ch, es⟩ := c
  unfold timedOut at h
  unfold hasReturned
  split at h <;> simp_all

/-- A call that has returned makes no more steps of its own. -/
theorem FetchStep.caller_eq (h : FetchStep s c s' c') (hover : c.hasReturned) :
    c'.caller = c.caller := by
  cases h <;> simp_all [FetchCall.hasReturned]

/-- A settled call does nothing more. -/
theorem FetchCall.Prompt.done (hc : c.Prompt max) (hsettled : c.settled) :
    ¬ FetchStep s c s' c' := by
  have hended := hc.2 hsettled
  intro h
  cases h <;> simp_all [FetchCall.settled, FetchCall.hasReturned]

/-- What the caller takes from the channel comes from a thread that has ended, or that is about to
drop its guard. -/
theorem ended_of_value {t : FetchThread} {result : Except Error Bytes} {es : List FetchEvent}
    (h : FetchCall.Threaded t (.value result) es) (hsent : t ≠ .sent) : t = .ended := by
  cases t with
  | ended => rfl
  | sent => exact absurd rfl hsent
  | unborn => exact h.elim
  | fetching | sending result' | unwinding | closing => exact absurd h.1 nofun

theorem ended_of_closed {t : FetchThread} {es : List FetchEvent}
    (h : FetchCall.Threaded t .closed es) : t = .ended := by
  cases t with
  | ended => rfl
  | unborn => exact h.elim
  | sent =>
    obtain ⟨result, hch | hch, -⟩ := h
    · cases hch
    · cases hch
  | fetching | sending result' | unwinding | closing => exact absurd h.1 nofun

theorem prompt_step (h : PromptStep s c s' c') (hs : s.Bounded max) (hc : c.Prompt max)
    (hheld : c.guards ≤ s.current.toNat) : s'.Bounded max ∧ c'.Prompt max ∧
      s'.current.toNat + c.guards = s.current.toNat + c'.guards := by
  obtain ⟨party, hprompt, hstep, hturn⟩ := h
  obtain ⟨hbounded, htraced, hconserved⟩ := traced_step hstep hs hc.1 hheld
  refine ⟨hbounded, ⟨htraced, fun hsettled => ?_⟩, hconserved⟩
  have hstill (hsame : c'.caller = c.caller) : c'.thread = .ended ∨ c'.thread = .unborn := by
    have hbefore : c.settled := by
      simpa [FetchCall.settled, FetchCall.hasReturned, FetchCall.timedOut, hsame] using hsettled
    exact absurd hstep (hc.done hbefore)
  cases hstep with
  | counted => exact .inr hc.1.1
  | unspawned => exact .inr hc.1.1
  | received => exact .inl (ended_of_value hc.1 (hprompt (hturn.mpr nofun)))
  | hungUp => exact .inl (ended_of_closed hc.1)
  | fetched | panicked | sent | abandoned | dropped | unwound | closed => exact hstill rfl
  | loadFull | loadFree | exchanged | notExchanged | spawned | spawnFailed | timedOut =>
    simp [FetchCall.settled, FetchCall.hasReturned, FetchCall.timedOut] at hsettled

/-- A settled call holds no guard. -/
theorem FetchCall.Prompt.guards (hc : c.Prompt max) (hsettled : c.settled) : c.guards = 0 := by
  obtain ⟨htraced, hended⟩ := hc
  obtain ⟨caller, t, ch, es⟩ := c
  cases caller with
  | returned result =>
    obtain ⟨-, rfl, -⟩ | ⟨-, rfl, -⟩ | ⟨hthreaded, -⟩ := htraced
    · rfl
    · rfl
    · obtain rfl | rfl : t = .ended ∨ t = .unborn := hended hsettled
      · obtain ⟨hacquire, -, hrelease, -⟩ := threaded_accounts hthreaded
        simp [FetchCall.guards, hacquire, hrelease]
      · exact hthreaded.elim
  | _ => simp [FetchCall.settled, FetchCall.hasReturned] at hsettled

theorem FetchCall.Prompt.released (hc : c.Prompt max) (hdelivered : c.delivered) :
    c.history.count .acquire = 1 ∧ c.history.count .release = 1 := by
  have hended := hc.2 (settled_of_delivered hdelivered)
  obtain ⟨htraced, -⟩ := hc
  obtain ⟨caller, t, ch, es⟩ := c
  have hthreaded : Threaded t ch es := by
    cases caller with
    | returned result =>
      obtain ⟨-, -, n, rfl⟩ | ⟨-, -, f, rfl⟩ | ⟨hthreaded, -⟩ := htraced
      · cases hdelivered
      · cases hdelivered
      · exact hthreaded
    | _ => cases hdelivered
  obtain rfl | rfl : t = .ended ∨ t = .unborn := hended
  · obtain ⟨hacquire, -, hrelease, -⟩ := threaded_accounts hthreaded
    exact ⟨hacquire, hrelease rfl⟩
  · exact hthreaded.elim

/-- Calls without guards need not be counted. -/
theorem sum_guards_filter {keep : FetchCall width → Bool} {parts : List (FetchCall width)}
    (h : ∀ c ∈ parts, keep c = false → c.guards = 0) :
    (parts.map FetchCall.guards).sum = ((parts.filter keep).map FetchCall.guards).sum := by
  induction parts with
  | nil => rfl
  | cons c parts ih =>
    obtain ⟨hc, hrest⟩ := List.forall_mem_cons.mp h
    rw [List.map_cons, List.sum_cons, ih hrest]
    cases hkeep : keep c with
    | false => rw [hc hkeep, List.filter_cons_of_neg (by simp [hkeep]), Nat.zero_add]
    | true => rw [List.filter_cons_of_pos hkeep, List.map_cons, List.sum_cons]

/-- What a prompt run keeps of the slots and of every call. -/
theorem prompt_reachable (h : FetchPool.PromptReachable max p) :
    p.shared.Bounded max ∧ (∀ c ∈ p.parts, c.Prompt max) ∧
      p.shared.current.toNat = (p.parts.map FetchCall.guards).sum := by
  refine @Pool.conserved _ _ _ _ (FetchCall.Prompt max) (InFlightFetches.Bounded max)
    (fun s => s.current.toNat) FetchCall.guards _ ?_ rfl ?_ ?_ (fun _ _ _ _ => prompt_step) p h
  · simp [InFlightFetches.new]
  · exact ⟨rfl, BitVec.le_def.mpr (by simp [InFlightFetches.new])⟩
  · exact ⟨⟨rfl, rfl, rfl⟩, fun _ => .inr rfl⟩

theorem slotsFreed (h : FetchPool.PromptReachable max p) : SlotsFreed p := by
  obtain ⟨-, hprompt, hsum⟩ := prompt_reachable h
  have hfree (c) (hc : c ∈ p.parts) (hdelivered : (!c.delivered) = false) : c.guards = 0 :=
    (hprompt c hc).guards (FetchCall.settled_of_delivered (by simpa using hdelivered))
  rw [sum_guards_filter hfree] at hsum
  refine ⟨fun c hc hdelivered => (hprompt c hc).released hdelivered, hsum, fun hall => ?_⟩
  have hnone : (p.parts.filter fun c => !c.delivered) = [] := by
    refine List.filter_eq_nil_iff.mpr fun c hc => ?_
    simp [hall c hc]
  rw [hnone] at hsum
  exact BitVec.eq_of_toNat_eq (by simpa using hsum)

end Prompt

/-! ## One call after the other -/

section Sequential

variable {width : Nat} {max : BitVec width} {s s' : InFlightFetches width}
  {c c' : FetchCall width} {p p' : Pool (InFlightFetches width) (FetchCall width)}

theorem FetchPool.SequentialReachable.prompt (h : FetchPool.SequentialReachable max p) :
    FetchPool.PromptReachable max p := by
  refine Relation.ReflTransGen.mono (fun p p' hs => ?_) _ _ h
  cases hs with
  | join => exact .join
  | act h => exact .act h

/-- Only a full pool refuses a call. -/
theorem refused_step (h : FetchStep s c s' c') (hrefused : c'.refused) :
    c.refused ∨ c.caller = .load ∧ s.max ≤ s.current := by
  cases h with
  | loadFull hfull => exact .inr ⟨rfl, hfull⟩
  | @received t result es => cases result <;> cases hrefused
  | _ => exact .inl hrefused

/-- A part that changes but keeps what is counted. -/
theorem countP_replace_le {q : FetchCall width → Bool} (before after : List (FetchCall width))
    (h : q c = true → q c' = true) :
    (before ++ c :: after).countP q ≤ (before ++ c' :: after).countP q := by
  rw [List.countP_append, List.countP_append, List.countP_cons, List.countP_cons]
  grind

/-- What a caller keeps that makes one call after the other. -/
structure Sequential (max : BitVec width)
    (p : Pool (InFlightFetches width) (FetchCall width)) : Prop where
  /-- There is one call at most that has not returned. -/
  one : p.parts.countP (fun c => !c.hasReturned) ≤ 1
  refused : ∀ c ∈ p.parts, c.refused → max.toNat ≤ p.parts.countP FetchCall.timedOut

/-- Timed out calls hold one slot each at most. -/
theorem sum_timedOut_le {parts : List (FetchCall width)} (h : ∀ c ∈ parts, c.Prompt max) :
    ((parts.filter FetchCall.timedOut).map FetchCall.guards).sum ≤
      parts.countP FetchCall.timedOut := by
  rw [List.countP_eq_length_filter]
  refine (List.sum_le_card_nsmul _ 1 fun n hn => ?_).trans (by simp)
  obtain ⟨c, hc, rfl⟩ := List.mem_map.mp hn
  have honce := ((h c (List.mem_of_mem_filter hc)).1.accounted).once
  unfold FetchCall.guards
  omega

/-- A call that looks for a slot is the only one that has not returned, so the slots it finds taken
are those of calls that timed out. -/
theorem Sequential.full (hinv : Sequential max p) (hp : FetchPool.PromptReachable max p)
    (hc : c ∈ p.parts) (hload : c.caller = .load) (hfull : max ≤ p.shared.current) :
    max.toNat ≤ ((p.parts.filter FetchCall.timedOut).map FetchCall.guards).sum := by
  obtain ⟨hbounded, hprompt, hsum⟩ := prompt_reachable hp
  have hown : c.guards = 0 := by
    have htraced := (hprompt c hc).1
    obtain ⟨caller, t, ch, es⟩ := c
    obtain rfl : caller = .load := hload
    obtain ⟨-, -, rfl⟩ := htraced
    rfl
  have hover : c.hasReturned = false := by simp [FetchCall.hasReturned, hload]
  obtain ⟨before, after, hparts⟩ := List.append_of_mem hc
  have hone := hinv.one
  rw [hparts, List.countP_append, List.countP_cons_of_pos (by simp [hover])] at hone
  have hfree : ∀ d ∈ p.parts, d.timedOut = false → d.guards = 0 := by
    intro d hd htimedOut
    by_cases hdover : d.hasReturned
    · exact (hprompt d hd).guards (by simp [FetchCall.settled, hdover, htimedOut])
    · have hbefore : before.countP (fun c => !c.hasReturned) = 0 := by omega
      have hafter : after.countP (fun c => !c.hasReturned) = 0 := by omega
      rw [List.countP_eq_zero] at hbefore hafter
      rw [hparts] at hd
      obtain hd | rfl | hd : d ∈ before ∨ d = c ∨ d ∈ after := by simpa using hd
      · exact absurd (hbefore d hd) (by simp [hdover])
      · exact hown
      · exact absurd (hafter d hd) (by simp [hdover])
  rw [← sum_guards_filter hfree, ← hsum]
  exact BitVec.le_def.mp hfull

theorem sequential_step (hp : FetchPool.SequentialReachable max p)
    (h : FetchPool.SequentialStep p p') (hinv : Sequential max p) : Sequential max p' := by
  obtain ⟨hbounded, hprompt, hsum⟩ := prompt_reachable hp.prompt
  cases h with
  | @join s parts hall =>
    have hnone : parts.countP (fun c => !c.hasReturned) = 0 :=
      List.countP_eq_zero.mpr fun c hc => by simp [hall c hc]
    refine ⟨?_, fun c hc hrefused => ?_⟩
    · rw [List.countP_append, hnone, Nat.zero_add]
      exact List.countP_le_length
    · obtain hc | rfl : c ∈ parts ∨ c = .new := by simpa using hc
      · rw [List.countP_append]
        exact (hinv.refused c hc hrefused).trans (Nat.le_add_right _ _)
      · cases hrefused
  | @act s s' c c' before after hstep =>
    obtain ⟨party, -, hstep, -⟩ := hstep
    have hreturned (hover : c.hasReturned) := hstep.caller_eq hover
    have hover : (!c'.hasReturned) = true → (!c.hasReturned) = true := fun h => by
      by_contra hc
      have hsame := hreturned (by simpa using hc)
      simp_all [FetchCall.hasReturned]
    have htimedOut : c.timedOut = true → c'.timedOut = true := fun h => by
      have hsame := hreturned (FetchCall.hasReturned_of_timedOut h)
      simpa [FetchCall.timedOut, hsame] using h
    refine ⟨(countP_replace_le before after hover).trans hinv.one, fun d hd hrefused => ?_⟩
    refine le_trans ?_ (countP_replace_le before after htimedOut)
    obtain hd | rfl | hd : d ∈ before ∨ d = c' ∨ d ∈ after := by simpa using hd
    · exact hinv.refused d (by simp [hd]) hrefused
    · obtain hbefore | ⟨hload, hfull⟩ := refused_step hstep hrefused
      · exact hinv.refused c (by simp) hbefore
      · rw [hbounded.1] at hfull
        exact (hinv.full hp.prompt (by simp) hload hfull).trans (sum_timedOut_le hprompt)
    · exact hinv.refused d (by simp [hd]) hrefused

theorem sequential_reachable (h : FetchPool.SequentialReachable max p) : Sequential max p := by
  induction h with
  | refl => exact ⟨by simp, by simp⟩
  | tail hrun hstep ih => exact sequential_step hrun hstep ih

/-- If no caller gets a turn while its thread stands between the send of the result and the drop of
the guard, a call that has returned its result has freed its slot, and the counter counts the other
calls only. A caller that waits for each call to return before it makes the next one is never
refused because of its finished fetches: as many of its calls as there are slots have timed out. -/
theorem fetches_freed (max : BitVec width) :
    (∀ p, FetchPool.PromptReachable max p → SlotsFreed p) ∧
      ∀ p, FetchPool.SequentialReachable max p → FullOfTimeouts max p := by
  refine ⟨fun p => slotsFreed, fun p hp => ?_⟩
  have hinv := sequential_reachable hp
  refine ⟨fun c hc hload => hinv.full hp.prompt hc hload, fun c hc n hcaller => ?_⟩
  exact hinv.refused c hc (by simp [FetchCall.refused, hcaller])

/-! ### A prompt run -/

section Runs

variable {max : BitVec 64} {s s' : InFlightFetches 64} {c c' : FetchCall 64}
  {parts : List (FetchCall 64)}

/-- The last call acts. -/
theorem act_last {party : Party} (hr : FetchPool.SequentialReachable max ⟨s, parts ++ [c]⟩)
    (h : FetchTurn party s c s' c') (hprompt : party.Prompt c) :
    FetchPool.SequentialReachable max ⟨s', parts ++ [c']⟩ :=
  .tail hr (.act ⟨party, hprompt, h⟩)

theorem caller_acts (hr : FetchPool.SequentialReachable max ⟨s, parts ++ [c]⟩)
    (h : FetchStep s c s' c') (hmoves : c'.caller ≠ c.caller) (hthread : c.thread ≠ .sent) :
    FetchPool.SequentialReachable max ⟨s', parts ++ [c']⟩ :=
  @act_last _ _ _ _ _ _ .caller hr ⟨h, iff_of_true rfl hmoves⟩ fun _ => hthread

theorem thread_acts (hr : FetchPool.SequentialReachable max ⟨s, parts ++ [c]⟩)
    (h : FetchStep s c s' c') (hstays : c'.caller = c.caller) :
    FetchPool.SequentialReachable max ⟨s', parts ++ [c']⟩ :=
  @act_last _ _ _ _ _ _ .thread hr ⟨h, iff_of_false nofun (not_not.mpr hstays)⟩ nofun

/-- The next call spawns its thread. -/
theorem spawned_run (hr : FetchPool.SequentialReachable max ⟨s, parts⟩)
    (hover : ∀ c ∈ parts, c.hasReturned) (hfree : ¬ s.max ≤ s.current) :
    FetchPool.SequentialReachable max
      ⟨s.add, parts ++ [⟨.waiting, .fetching, .empty, [.start, .acquire]⟩]⟩ := by
  have hjoin : FetchPool.SequentialReachable max ⟨s, parts ++ [.new]⟩ := .tail hr (.join hover)
  have hloaded := caller_acts hjoin (.loadFree hfree) nofun nofun
  exact caller_acts (caller_acts hloaded .exchanged nofun nofun) .spawned nofun nofun

/-- A call that has returned its text after its thread dropped the guard. -/
def promptCall (text : Bytes) : FetchCall 64 :=
  ⟨.returned (.ok text), .ended, .value (.ok text),
    [.release, .produce (.ok text), .start, .acquire]⟩

theorem promptCall_run (hr : FetchPool.SequentialReachable max ⟨s, parts⟩)
    (hover : ∀ c ∈ parts, c.hasReturned) (hfree : ¬ s.max ≤ s.current) (text : Bytes) :
    FetchPool.SequentialReachable max ⟨s.add.sub, parts ++ [promptCall text]⟩ := by
  have hfetched := thread_acts (spawned_run hr hover hfree) (.fetched (.ok text)) rfl
  have hdropped := thread_acts (thread_acts hfetched .sent rfl) .dropped rfl
  exact caller_acts hdropped .received nofun nofun

/-- A call that was told that this many fetches are in flight. -/
def refusedCall (n : Nat) : FetchCall 64 := ⟨.returned (.error (.inFlight n)), .unborn, .empty, []⟩

theorem refusedCall_run (hr : FetchPool.SequentialReachable max ⟨s, parts⟩)
    (hover : ∀ c ∈ parts, c.hasReturned) (hfull : s.max ≤ s.current) :
    FetchPool.SequentialReachable max ⟨s, parts ++ [refusedCall s.current.toNat]⟩ := by
  have hjoin : FetchPool.SequentialReachable max ⟨s, parts ++ [.new]⟩ := .tail hr (.join hover)
  exact caller_acts (caller_acts hjoin (.loadFull hfull) nofun nofun) .counted nofun nofun

/-- The only slot is freed by the first call and then held by a call that timed out, so the third
one is refused. -/
theorem fetches_freed_prompt :
    let p : Pool (InFlightFetches 64) (FetchCall 64) :=
      ⟨⟨1, 1⟩, [promptCall (ascii "rules: []"), timedOutCall, refusedCall 1]⟩
    SlotsFreed p ∧ FullOfTimeouts 1 p := by
  intro p
  have hfirst : FetchPool.SequentialReachable (1 : BitVec 64)
      ⟨⟨0, 1⟩, [promptCall (ascii "rules: []")]⟩ :=
    @promptCall_run _ _ [] .refl (by simp) (by decide) _
  have hsecond : FetchPool.SequentialReachable (1 : BitVec 64)
      ⟨⟨1, 1⟩, [promptCall (ascii "rules: []"), timedOutCall]⟩ :=
    caller_acts (spawned_run hfirst (by simp [promptCall, FetchCall.hasReturned]) (by decide))
      .timedOut nofun nofun
  have hthird : FetchPool.SequentialReachable 1 p :=
    refusedCall_run hsecond (by simp [promptCall, timedOutCall, FetchCall.hasReturned]) (by decide)
  exact ⟨(fetches_freed 1).1 p hthird.prompt, (fetches_freed 1).2 p hthird⟩

end Runs

end Sequential

/-! ## A result that comes first -/

section Late

/-- A call that has returned its text before its thread dropped the guard. -/
def lateCall (text : Bytes) : FetchCall 64 :=
  ⟨.returned (.ok text), .sent, .value (.ok text), [.produce (.ok text), .start, .acquire]⟩

theorem lateCall_reachable (text : Bytes) :
    FetchPool.Reachable (2 : BitVec 64) ⟨⟨1, 2⟩, [lateCall text]⟩ := by
  have hnew : FetchPool.Reachable (2 : BitVec 64) ⟨.new 2, [.new]⟩ := Pool.reachable_join
  have hloaded := hnew.step (.loadFree (by decide))
  have hspawned := (hloaded.step .exchanged).step .spawned
  have hsent := (hspawned.step (.fetched (.ok text))).step .sent
  exact hsent.step .received

/-- The lone call has returned its text, and the counter reads one. -/
theorem fetches_late : ∃ p : Pool (InFlightFetches 64) (FetchCall 64),
    FetchPool.Reachable 2 p ∧ (∀ c ∈ p.parts, c.delivered) ∧ p.shared.current = 1 ∧
      ¬ SlotsFreed p := by
  refine ⟨_, lateCall_reachable (ascii "rules: []"), ?_, rfl, fun hfreed => ?_⟩
  · simp [lateCall, FetchCall.delivered]
  · have hzero := hfreed.zero (by simp [lateCall, FetchCall.delivered])
    simp at hzero

end Late

end NyaSniProxy
