import NyaSniProxy.Segmentation
import NyaSniProxy.Tls.Reading

/-!
# A ClientHello in pieces

`readHttpsTarget` tests its limit before the parser sees the buffer, and the buffer holds whatever
came with the last read. So a stream of more than the limit can be refused for its size although its
ClientHello is within the limit: the last read before the hello is complete brings up to 1023 bytes
behind it. `sizeError_iff` says for every stream whether some cut leads there. A verdict of the
parser is final: more bytes behind the buffer do not change it.
-/

namespace NyaSniProxy

open Text Frame Interaction Wire ClientHelloStatus

/-! ## The parser and longer buffers -/

/-- More bytes do not change a verdict. -/
theorem parseTlsSni_append {buf : Bytes} (h : parseTlsSni buf ≠ needMore) (more : Bytes) :
    parseTlsSni (buf ++ more) = parseTlsSni buf := by
  unfold parseTlsSni at h ⊢
  split at h
  · next contentType v1 v2 hi lo rest =>
    simp only [List.cons_append]
    by_cases htype : contentType ≠ 22
    · rw [if_pos htype, if_pos htype]
    · rw [if_neg htype] at h ⊢
      rw [if_neg htype]
      have hlen : ¬ rest.length < fromBeBytes hi lo := fun hlt => h (if_pos hlt)
      have hlonger : ¬ (rest ++ more).length < fromBeBytes hi lo := by
        rw [List.length_append]
        omega
      rw [if_neg hlen, if_neg hlonger, List.take_append_of_le_length (not_lt.mp hlen)]
  · exact absurd rfl h

theorem parseTlsSni_of_shorter {buf part : Bytes} (hpart : part <+: buf)
    (h : parseTlsSni buf = needMore) : parseTlsSni part = needMore := by
  obtain ⟨more, rfl⟩ := hpart
  by_contra hne
  exact hne ((parseTlsSni_append hne more).symm.trans h)

/-- Before a record is complete there is no verdict. -/
theorem parseTlsSni_take_record (version : UInt8 × UInt8) (fragment : Vec16) (rest : Bytes)
    {n : Nat} (h : n < (record version fragment).length) :
    parseTlsSni ((record version fragment ++ rest).take n) = needMore := by
  obtain ⟨hi, lo, hv, hlen⟩ := fragment.encode_eq
  rw [List.take_append_of_le_length h.le]
  simp only [record, hv, List.length_cons] at h ⊢
  rcases n with _ | _ | _ | _ | _ | n
  iterate 5 rfl
  · have hshort : (fragment.1.take n).length < fromBeBytes hi lo := by
      rw [List.length_take, hlen]
      omega
    simp only [List.take_succ_cons, parseTlsSni, hshort, if_true, ne_eq, not_true, if_false]

def sizeReason : String := "TLS ClientHello exceeds 65536 bytes"

section Reason

variable {P : ClientHelloStatus → Prop} {missing truncated : String} {body : Bytes}
  {k : Bytes → Bytes → ClientHelloStatus}

theorem vec8_ind (hmissing : P (invalid missing)) (htruncated : P (invalid truncated))
    (hk : ∀ a b, P (k a b)) : P (vec8 missing truncated body k) := by
  unfold vec8
  split
  · split
    · exact htruncated
    · exact hk _ _
  · exact hmissing

theorem vec16_ind (hmissing : P (invalid missing)) (htruncated : P (invalid truncated))
    (hk : ∀ a b, P (k a b)) : P (vec16 missing truncated body k) := by
  unfold vec16
  split
  · dsimp only
    split
    · exact htruncated
    · exact hk _ _
  · exact hmissing

theorem parseNames_reason (names : Bytes) : parseNames names ≠ invalid sizeReason := by
  fun_induction parseNames names with
  | case1 => decide
  | case2 => decide
  | case3 =>
    unfold hostStatus
    grind [sizeReason]
  | case4 => assumption
  | case5 => decide

theorem parseExtensions_reason (extensions : Bytes) :
    parseExtensions extensions ≠ invalid sizeReason := by
  fun_induction parseExtensions extensions with
  | case1 => decide
  | case2 => decide
  | case3 =>
    refine vec16_ind (P := (· ≠ invalid sizeReason)) ?_ ?_ fun names _ => parseNames_reason names
    all_goals decide
  | case4 => assumption
  | case5 => decide

/-- The parser does not complain about the size. -/
theorem parseTlsSni_reason (buf : Bytes) : parseTlsSni buf ≠ invalid sizeReason := by
  have hbody (body : Bytes) : parseClientHelloBody body ≠ invalid sizeReason := by
    unfold parseClientHelloBody
    split
    · decide
    · refine vec8_ind (P := (· ≠ invalid sizeReason)) ?_ ?_ fun _ body =>
        vec16_ind (P := (· ≠ invalid sizeReason)) ?_ ?_ fun _ body =>
        vec8_ind (P := (· ≠ invalid sizeReason)) ?_ ?_ fun _ body =>
        vec16_ind (P := (· ≠ invalid sizeReason)) ?_ ?_ fun extensions _ =>
        parseExtensions_reason extensions
      all_goals decide
  have hrecord (record : Bytes) : parseRecord record ≠ invalid sizeReason := by
    unfold parseRecord
    split
    · split_ifs
      · decide
      · decide
      · exact hbody _
    · decide
  unfold parseTlsSni
  split
  · split_ifs
    · decide
    · decide
    · exact hrecord _
  · decide

end Reason

/-! ## The reader -/

def sizeError : Error := .msg sizeReason

/-- The loop of `readHttpsTarget`. -/
def helloCollector : Collector (Target × Bytes) where
  side := .inbound
  cap := 1024
  limit := maxClientHello
  closed := .msg "connection closed before TLS ClientHello"
  tooLong := sizeError
  check := checkClientHello
  cap_pos := chunk_pos

theorem readHttpsTarget_eq : readHttpsTarget = helloCollector.loop [] := rfl

section Check

variable {buf : Bytes}

theorem checkClientHello_eq_none :
    checkClientHello buf = none ↔ buf.length ≤ maxClientHello ∧ parseTlsSni buf = needMore := by
  unfold checkClientHello
  split
  · next h => simp [h]
  · next h => cases parseTlsSni buf <;> simp [not_lt.mp h]

theorem checkClientHello_sizeError :
    checkClientHello buf = some (.error sizeError) ↔ maxClientHello < buf.length := by
  unfold checkClientHello
  split
  · next h => simp [h, sizeError, sizeReason]
  · next h =>
    have hreason := parseTlsSni_reason buf
    cases hstatus : parseTlsSni buf with
    | needMore => simp [h]
    | found host => simp [h]
    | invalid reason =>
      rw [hstatus] at hreason
      have hne : Error.msg reason ≠ sizeError := fun he =>
        hreason (congrArg invalid (Error.bail.inj he).1)
      simpa [h] using hne

/-- A loop that goes on has no verdict of the parser. -/
theorem parseTlsSni_of_open (h : helloCollector.Open buf) : parseTlsSni buf = needMore := by
  obtain rfl | hnone := h.2
  · rfl
  · exact (checkClientHello_eq_none.mp hnone).2

end Check

section Runs

variable {α : Type} {self : Collector α} {w w' : Wire} {buf bytes : Bytes}

/-- A read without a verdict. -/
theorem Collector.step_loop (hread : w.Read self.cap self.side bytes w') (hne : bytes ≠ [])
    (hopen : self.Open (buf ++ bytes)) :
    Step (Answer False) (self.loop buf, w) (self.loop (buf ++ bytes), w') := by
  have hnone := hopen.2.resolve_left (by simp [hne])
  obtain ⟨b, bytes, rfl⟩ := List.exists_cons_of_ne_nil hne
  have hcall (k : Except Fault Bytes → Io α)
      (hk : k (.ok (b :: bytes)) = self.loop (buf ++ b :: bytes)) :
      Step (Answer False) (.call (.read self.side self.cap) k, w)
        (self.loop (buf ++ b :: bytes), w') := hk ▸ .call (.read hread)
  rw [Collector.loop, Io.readUntil]
  apply hcall
  simp only [hnone, dif_neg (not_lt.mpr hopen.1)]
  rfl

/-- The client's stream after `n` bytes were read. -/
def Wire.skip (w : Wire) (n : Nat) : Wire :=
  { w with unread := Function.update w.unread .inbound ((w.unread .inbound).drop n) }

theorem Wire.read_skip (w : Wire) {n m cap : Nat} (hm : 0 < m) (hcap : m ≤ cap) :
    (w.skip n).Read cap .inbound (((w.unread .inbound).drop n).take m) (w.skip (n + m)) := by
  have hskip : w.skip (n + m) = { w.skip n with
      unread := Function.update (w.skip n).unread .inbound
        ((w.unread .inbound).drop (n + m)) } := by
    simp [skip]
  rw [hskip]
  refine .socket nofun ?_ ((List.length_take_le ..).trans hcap) fun hnil => .inr ?_
  · rw [← List.drop_drop, List.take_append_drop]
    simp [skip]
  · rw [← List.drop_drop, (List.take_eq_nil_iff.mp hnil).resolve_left hm.ne', List.drop_nil]

/-- Byte by byte the loop comes to every buffer without a verdict. -/
theorem Collector.reaches_take (hside : self.side = .inbound) {n : Nat}
    (hopen : ∀ i ≤ n, self.Open ((w.unread .inbound).take i))
    (hlen : n ≤ (w.unread .inbound).length) :
    Reaches (Answer False) (self.loop [], w)
      (self.loop ((w.unread .inbound).take n), w.skip n) := by
  induction n with
  | zero =>
    have hskip : w.skip 0 = w := by simp [Wire.skip]
    rw [hskip, List.take_zero]
  | succ n ih =>
    have hrun := ih (fun i hi => hopen i (by omega)) (by omega)
    have hread := w.read_skip (n := n) Nat.zero_lt_one self.cap_pos
    refine .tail hrun ?_
    rw [List.take_add]
    refine Collector.step_loop (by rwa [hside]) ?_ ?_
    · simp only [ne_eq, List.take_eq_nil_iff, List.drop_eq_nil_iff]
      omega
    · rw [← List.take_add]
      exact hopen (n + 1) (Nat.le_refl _)

end Runs

/-- Whether some cut of the stream leads to the size error. -/
theorem sizeError_iff (w : Wire) :
    (∃ w', Ends (Answer False) readHttpsTarget w (.error sizeError) w') ↔
      maxClientHello < (w.remaining .inbound).length ∧
        parseTlsSni ((w.remaining .inbound).take (maxClientHello - 1023)) = needMore := by
  constructor
  · rintro ⟨w', h⟩
    have hstops := Collector.stops_of_ends (readHttpsTarget_eq ▸ h)
    generalize hr : (Except.error sizeError : Except Error (Target × Bytes)) = r at hstops
    cases hstops with
    | @verdict buf bytes _ _ hopen hle hverdict hc =>
      subst hr
      have hlong := checkClientHello_sizeError.mp hverdict
      have htaken : w.remaining .inbound = (buf ++ bytes) ++ w'.remaining .inbound := hc.taken
      have hcap : bytes.length ≤ 1024 := hle
      rw [List.length_append] at hlong
      rw [htaken]
      refine ⟨by simp only [List.length_append]; omega, ?_⟩
      refine parseTlsSni_of_shorter ?_ (parseTlsSni_of_open hopen)
      rw [List.append_assoc, List.take_append_of_le_length (by omega)]
      exact List.take_prefix _ _
    | closed => exact absurd (Except.error.inj hr) (by decide)
    | tooLong hlong _ hnone =>
      exact absurd (checkClientHello_eq_none.mp hnone).1 (not_le.mpr hlong)
  · rintro ⟨hlong, hmore⟩
    have hopen (i : Nat) (hi : i ≤ maxClientHello - 1023) :
        helloCollector.Open ((w.unread .inbound).take i) := by
      have hle : ((w.unread .inbound).take i).length ≤ maxClientHello := by
        have := List.length_take_le i (w.unread .inbound)
        omega
      refine ⟨hle, .inr (checkClientHello_eq_none.mpr ⟨hle, ?_⟩)⟩
      exact parseTlsSni_of_shorter (List.take_prefix_take_left hi) hmore
    have hunread : maxClientHello < (w.unread .inbound).length := hlong
    have hrun := Collector.reaches_take (w := w) rfl hopen (by omega)
    have hread := w.read_skip (n := maxClientHello - 1023) (m := 1024) (by omega) (Nat.le_refl _)
    rw [readHttpsTarget_eq]
    refine ⟨_, hrun.trans (ends_readUntil hread ?_ (checkClientHello_sizeError.mpr ?_))⟩
    · simp only [ne_eq, List.take_eq_nil_iff, List.drop_eq_nil_iff]
      omega
    · rw [← List.take_add, List.length_take]
      have hcap : maxClientHello - 1023 + 1024 = maxClientHello + 1 := rfl
      omega

/-! ## A verdict is final -/

/-- The result of the reader fits a stream. -/
inductive Settled (stream : Bytes) : Except Error (Target × Bytes) → Prop where
  | accepted {host buf} : parseTlsSni stream = found host →
      Settled stream (.ok ({ host, port := 443 }, buf))
  | rejected {reason} : parseTlsSni stream = invalid reason → Settled stream (.error (.msg reason))
  | tooLong : maxClientHello < stream.length → Settled stream (.error sizeError)

/-- A result of the check fits every stream that starts with the buffer. -/
theorem settled_of_checkClientHello {buf : Bytes} {r : Except Error (Target × Bytes)}
    (h : checkClientHello buf = some r) (more : Bytes) : Settled (buf ++ more) r := by
  unfold checkClientHello at h
  split at h
  · next hlong =>
    obtain rfl := Option.some.inj h
    refine .tooLong ?_
    rw [List.length_append]
    omega
  · cases hstatus : parseTlsSni buf with
    | needMore => simp [hstatus] at h
    | found host =>
      rw [hstatus] at h
      obtain rfl := Option.some.inj h
      exact .accepted (by rw [parseTlsSni_append (by simp [hstatus]), hstatus])
    | invalid reason =>
      rw [hstatus] at h
      obtain rfl := Option.some.inj h
      exact .rejected (by rw [parseTlsSni_append (by simp [hstatus]), hstatus])

/-- The reader only gives up without a verdict at the end of the stream. -/
theorem settled_of_ends {w w' : Wire} {r : Except Error (Target × Bytes)}
    (h : Ends (Answer False) readHttpsTarget w r w') :
    ∃ taken, w.remaining .inbound = taken ++ w'.remaining .inbound ∧
      ((∀ more, Settled (taken ++ more) r) ∨
        r = .error helloCollector.closed ∧ w'.remaining .inbound = [] ∧
          parseTlsSni taken = needMore) := by
  cases Collector.stops_of_ends (readHttpsTarget_eq ▸ h) with
  | @verdict buf bytes _ _ _ _ hverdict hc =>
    exact ⟨buf ++ bytes, hc.taken, .inl (settled_of_checkClientHello hverdict)⟩
  | @closed buf _ hopen hend hc =>
    exact ⟨buf, hc.taken, .inr ⟨rfl, hend, parseTlsSni_of_open hopen⟩⟩
  | tooLong hlong _ hnone _ =>
    exact absurd (checkClientHello_eq_none.mp hnone).1 (not_le.mpr hlong)

/-- More bytes do not change what the parser has found or refused. So if the reader accepts or
refuses a connection, then every stream that starts with the bytes it has read gives the same
verdict, or is too long as they are. -/
theorem parseTlsSni_final :
    (∀ buf more host, parseTlsSni buf = found host → parseTlsSni (buf ++ more) = found host) ∧
    (∀ buf more reason, parseTlsSni buf = invalid reason →
      parseTlsSni (buf ++ more) = invalid reason) ∧
    ∀ w r w', Ends (Answer False) readHttpsTarget w r w' →
      ∃ taken, w.remaining .inbound = taken ++ w'.remaining .inbound ∧
        ((∀ more, Settled (taken ++ more) r) ∨
          r = .error helloCollector.closed ∧ w'.remaining .inbound = [] ∧
            parseTlsSni taken = needMore) := by
  refine ⟨fun buf more host h => ?_, fun buf more reason h => ?_, fun w r w' => settled_of_ends⟩
  · rw [parseTlsSni_append (by simp [h]), h]
  · rw [parseTlsSni_append (by simp [h]), h]

theorem parseTlsSni_final_example :
    parseTlsSni (record (3, 1) ⟨exampleHello.message, by decide⟩ ++ [23, 3, 3]) =
        found (ascii "example.com") ∧
      parseTlsSni ([21, 3, 1, 0, 2] ++ [2, 40]) = invalid "not a TLS handshake record" :=
  ⟨parseTlsSni_final.1 _ _ _ (parseTlsSni_hello _ (by decide) rfl (by decide) (by decide)),
    parseTlsSni_final.2.1 _ _ _ rfl⟩

/-! ## Without the size error -/

section NoSizeError

variable {version : UInt8 × UInt8} {fragment : Vec16} {rest host : Bytes}

/-- The size error stays away if the stream is short, or if no read that completes the record can
make the buffer too long. -/
theorem no_sizeError_iff (w : Wire)
    (hstream : w.remaining .inbound = record version fragment ++ rest)
    (hfound : parseTlsSni (record version fragment) = found host) :
    (¬ ∃ w', Ends (Answer False) readHttpsTarget w (.error sizeError) w') ↔
      (w.remaining .inbound).length ≤ maxClientHello ∨
        (record version fragment).length + 1023 ≤ maxClientHello := by
  rw [sizeError_iff, not_and_or, not_lt]
  refine or_congr_right ?_
  rw [hstream]
  constructor
  · intro h
    by_contra hlt
    have hmax : maxClientHello = 65536 := rfl
    exact h (parseTlsSni_take_record version fragment rest (by omega))
  · intro hle hmore
    have hpart : record version fragment <+:
        (record version fragment ++ rest).take (maxClientHello - 1023) :=
      List.prefix_take_iff.mpr ⟨List.prefix_append _ _, by omega⟩
    cases hfound.symm.trans (parseTlsSni_of_shorter hpart hmore)

/-- Without the size error the reader finds the host. -/
theorem readHttpsTarget_found {w w' : Wire} {r : Except Error (Target × Bytes)}
    (hstream : w.remaining .inbound = record version fragment ++ rest)
    (hfound : parseTlsSni (record version fragment) = found host)
    (hends : Ends (Answer False) readHttpsTarget w r w') (hr : r ≠ .error sizeError) :
    ∃ buf, r = .ok ({ host, port := 443 }, buf) ∧
      buf ++ w'.remaining .inbound = w.remaining .inbound := by
  have hall : parseTlsSni (w.remaining .inbound) = found host := by
    rw [hstream, parseTlsSni_append (by simp [hfound]), hfound]
  cases Collector.stops_of_ends (readHttpsTarget_eq ▸ hends) with
  | @closed buf _ hopen hend hc =>
    have htaken : w.remaining .inbound = buf ++ w'.remaining .inbound := hc.taken
    have hend : w'.remaining .inbound = [] := hend
    rw [htaken, hend, List.append_nil, parseTlsSni_of_open hopen] at hall
    cases hall
  | tooLong => exact absurd rfl hr
  | @verdict buf bytes _ _ _ _ hverdict hc =>
    have htaken : w.remaining .inbound = (buf ++ bytes) ++ w'.remaining .inbound := hc.taken
    have hshort : ¬ maxClientHello < (buf ++ bytes).length := fun hlong =>
      hr (Option.some.inj (hverdict.symm.trans (checkClientHello_sizeError.mpr hlong)))
    have hcheck : checkClientHello (buf ++ bytes) = some r := hverdict
    have hstable (h : parseTlsSni (buf ++ bytes) ≠ needMore) :
        parseTlsSni (buf ++ bytes) = found host := by
      rw [← parseTlsSni_append h, ← htaken, hall]
    unfold checkClientHello at hcheck
    rw [if_neg hshort] at hcheck
    cases hstatus : parseTlsSni (buf ++ bytes) with
    | needMore => simp [hstatus] at hcheck
    | found host' =>
      obtain rfl : host' = host := by simpa [hstatus] using hstable
      exact ⟨_, by simpa [hstatus] using hcheck.symm, htaken.symm⟩
    | invalid reason => simp [hstatus] at hstable

end NoSizeError

/-- What the reader of a ClientHello returns depends on the cuts exactly if the stream is longer
than the limit and the record ends within the last 1023 bytes before it. -/
theorem readHttpsTarget_segmentation (w : Wire) :
    ((∃ w', Ends (Answer False) readHttpsTarget w (.error sizeError) w') ↔
      maxClientHello < (w.remaining .inbound).length ∧
        parseTlsSni ((w.remaining .inbound).take (maxClientHello - 1023)) = needMore) ∧
    ∀ version fragment rest host,
      w.remaining .inbound = record version fragment ++ rest →
      (record version fragment).length ≤ maxClientHello →
      parseTlsSni (record version fragment) = found host →
      (Always readHttpsTarget w (fun r w' => ∃ buf, r = .ok ({ host, port := 443 }, buf) ∧
          buf ++ w'.remaining .inbound = w.remaining .inbound) ↔
        (w.remaining .inbound).length ≤ maxClientHello ∨
          (record version fragment).length + 1023 ≤ maxClientHello) := by
  refine ⟨sizeError_iff w, fun version fragment rest host hstream _ hfound => ?_⟩
  rw [← no_sizeError_iff w hstream hfound, always_iff]
  constructor
  · rintro h ⟨w', hends⟩
    obtain ⟨buf, hr, -⟩ := h _ _ hends
    cases hr
  · intro hnone r w' hends
    refine readHttpsTarget_found hstream hfound hends ?_
    rintro rfl
    exact hnone ⟨w', hends⟩

theorem readHttpsTarget_segmentation_example :
    let stream := record (3, 1) ⟨exampleHello.message, by decide⟩ ++ [23, 3, 3]
    Always readHttpsTarget (.fresh stream) fun r w' => ∃ buf,
      r = .ok ({ host := ascii "example.com", port := 443 }, buf) ∧
        buf ++ w'.remaining .inbound = stream :=
  ((readHttpsTarget_segmentation _).2 (3, 1) ⟨exampleHello.message, by decide⟩ [23, 3, 3]
    (ascii "example.com") rfl (by decide)
    (parseTlsSni_hello _ (by decide) rfl (by decide) (by decide))).mpr (.inl (by decide))

theorem padding_isOther : (21 : UInt16) ≠ 0 := by decide

theorem length_padding {n : Nat} (h : n < 65000) :
    (List.replicate n (0 : UInt8)).length < 65536 := by
  rw [List.length_replicate]
  omega

/-- The extensions for `example.com` and one of `n` bytes of padding. -/
def paddedExtensions (n : Nat) (h : n < 65000) : List Extension :=
  exampleHello.extensions ++
    [.other 21 ⟨List.replicate n 0, length_padding h⟩ padding_isOther]

theorem fits_padded (n : Nat) (h : n < 65000) :
    ((paddedExtensions n h).flatMap Extension.encode).length < 65536 := by
  simp [paddedExtensions, exampleHello, syntheticClientHello, Extension.encode, Extension.data,
    ServerName.encode, toBeBytes, ascii]
  omega

/-- The message for `example.com` with padding. -/
def paddedHello (n : Nat) (h : n < 65000) : ClientHello :=
  { exampleHello with extensions := paddedExtensions n h, fits := fits_padded n h }

theorem length_paddedHello (n : Nat) (h : n < 65000) :
    (paddedHello n h).message.length = n + 71 := by
  simp [ClientHello.message, ClientHello.body, paddedHello, paddedExtensions, exampleHello,
    syntheticClientHello, Extension.encode, Extension.data, ServerName.encode, toBeBytes, ascii]
  omega

/-- A record of 65000 bytes with another record behind it may be refused for its size. -/
theorem readHttpsTarget_refuses :
    let hello := paddedHello 64924 (by decide)
    let first := record (3, 1) ⟨hello.message, by rw [length_paddedHello]; decide⟩
    let second := record (3, 1) ⟨List.replicate 1500 0, by rw [List.length_replicate]; decide⟩
    first.length ≤ maxClientHello ∧ parseTlsSni first = found (ascii "example.com") ∧
      ∃ w', Ends (Answer False) readHttpsTarget (.fresh (first ++ second)) (.error sizeError)
        w' := by
  intro hello first second
  have hfirst : first.length = 65000 := by
    simp only [first, record, List.length_cons, Vec16.length_encode, hello, length_paddedHello]
  have hsecond : second.length = 1505 := by
    simp only [second, record, List.length_cons, Vec16.length_encode, List.length_replicate]
  have hmax : maxClientHello = 65536 := rfl
  refine ⟨by omega, parseTlsSni_hello _ _ rfl (by decide) (by decide), ?_⟩
  rw [sizeError_iff]
  have hlen : ((Wire.fresh (first ++ second)).remaining .inbound).length = 66505 := by
    change (first ++ second).length = 66505
    rw [List.length_append, hfirst, hsecond]
  have hcut : maxClientHello - 1023 < first.length := by omega
  exact ⟨by omega, parseTlsSni_take_record _ _ _ hcut⟩

end NyaSniProxy
