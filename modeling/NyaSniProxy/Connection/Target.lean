import NyaSniProxy.Wire
import NyaSniProxy.Http.Head
import NyaSniProxy.Tls.Reading

/-!
# Reading the target

The target of a connection is read from the bytes at the front of the client's stream. They are
kept, and what they say does not change with what the client sends next.
-/

namespace NyaSniProxy

open Text Interaction Wire ClientHelloStatus

/-- The parser's verdict on the bytes read so far is this target. -/
def Parsed (bytes : Bytes) (target : Target) : InboundProtocol → Prop
  | .http => parseHttpHost bytes = .ok target
  | .https => parseTlsSni bytes = found target.host ∧ target.port = 443

/-- The client's stream names this host: in the Host field of a request head, with the port if there
is one, or in a ClientHello. -/
def Names (stream name : Bytes) : InboundProtocol → Prop
  | .http => NamesHost stream name
  | .https => Carries stream name ∧ name ≠ [] ∧ IsUtf8 name

section Rules

variable {faulty : Prop} {I : Option Call → Wire → Prop} {w : Wire}
  {Q : Except Error (Target × Bytes) → Wire → Prop}

theorem wp_readHttpTarget (hI : ∀ c bytes w', Consumes .inbound bytes w w' → I c w')
    (hok : ∀ target bytes w', Consumes .inbound bytes w w' → Parsed bytes target .http →
      Q (.ok (target, bytes)) w')
    (herr : ∀ e bytes w', Consumes .inbound bytes w w' → Q (.error e) w') :
    wp (Answer faulty) I readHttpTarget Q w := by
  refine wp.bind (wp_readUntil (by decide) hI (fun bytes w' verdict hc hcheck => ?_) herr)
  rw [List.nil_append, Option.map_eq_some_iff] at hcheck
  obtain ⟨stop, hstop, rfl⟩ := hcheck
  refine wp.bind (wp_ofExcept (hI none bytes w' hc) ?_)
  cases htarget : parseHttpHost bytes with
  | ok target => exact ⟨hI none bytes w' hc, hok target bytes w' hc htarget⟩
  | error e => exact herr e bytes w' hc

theorem wp_readHttpsTarget (hI : ∀ c bytes w', Consumes .inbound bytes w w' → I c w')
    (hok : ∀ target bytes w', Consumes .inbound bytes w w' → Parsed bytes target .https →
      Q (.ok (target, bytes)) w')
    (herr : ∀ e bytes w', Consumes .inbound bytes w w' → Q (.error e) w') :
    wp (Answer faulty) I readHttpsTarget Q w := by
  refine wp_readUntil (by decide) hI (fun bytes w' verdict hc hcheck => ?_) herr
  rw [List.nil_append] at hcheck
  unfold checkClientHello at hcheck
  split at hcheck
  · obtain rfl := Option.some.inj hcheck
    exact herr _ bytes w' hc
  · split at hcheck
    · cases hcheck
    · next host hfound =>
      obtain rfl := Option.some.inj hcheck
      exact hok _ bytes w' hc ⟨hfound, rfl⟩
    · obtain rfl := Option.some.inj hcheck
      exact herr _ bytes w' hc

theorem wp_readTarget {protocol : InboundProtocol}
    (hI : ∀ c bytes w', Consumes .inbound bytes w w' → I c w')
    (hok : ∀ target bytes w', Consumes .inbound bytes w w' → Parsed bytes target protocol →
      Q (.ok (target, bytes)) w')
    (herr : ∀ e bytes w', Consumes .inbound bytes w w' → Q (.error e) w') :
    wp (Answer faulty) I (readTarget protocol) Q w := by
  cases protocol with
  | http => exact wp.mapError (wp_readHttpTarget hI hok fun e => herr _)
  | https => exact wp.mapError (wp_readHttpsTarget hI hok fun e => herr _)

end Rules

/-- What was read is kept, and the target is what it says. -/
theorem readTarget_ends {faulty : Prop} {protocol : InboundProtocol} {target : Target}
    {initial : Bytes} {w w' : Wire}
    (h : Ends (Answer faulty) (readTarget protocol) w (.ok (target, initial)) w') :
    w.remaining .inbound = initial ++ w'.remaining .inbound ∧ Parsed initial target protocol := by
  let Q (r : Except Error (Target × Bytes)) (w' : Wire) : Prop := ∀ target initial,
    r = .ok (target, initial) →
      w.remaining .inbound = initial ++ w'.remaining .inbound ∧ Parsed initial target protocol
  have hwp : wp (Answer faulty) (fun _ _ => True) (readTarget protocol) Q w := by
    refine wp_readTarget (fun _ _ _ _ => trivial) (fun target bytes w' hc hp => ?_)
      fun e bytes w' _ target initial => nofun
    rintro target initial ⟨⟩
    exact ⟨hc.taken, hp⟩
  exact hwp.ends h target initial rfl

/-! ## The named host -/

theorem Carries.append {buf host : Bytes} (h : Carries buf host) (more : Bytes) :
    Carries (buf ++ more) host := by
  obtain ⟨version, fragment, a, b, c, body, slack, rest, rfl, h⟩ := h
  exact ⟨version, fragment, a, b, c, body, slack, rest ++ more, List.append_assoc .., h⟩

theorem Carries.unique {buf host host' : Bytes} (h : Carries buf host) (hne : host ≠ [])
    (hu : IsUtf8 host) (h' : Carries buf host') (hne' : host' ≠ []) (hu' : IsUtf8 host') :
    host = host' := by
  have hfound := parseTlsSni_eq_found_iff.mpr ⟨h, hne, hu⟩
  have hfound' := parseTlsSni_eq_found_iff.mpr ⟨h', hne', hu'⟩
  exact found.inj (hfound.symm.trans hfound')

/-- A stream names one host. -/
theorem Names.unique {protocol : InboundProtocol} {stream name name' : Bytes}
    (h : Names stream name protocol) (h' : Names stream name' protocol) : name = name' := by
  cases protocol with
  | http => exact NamesHost.unique h h'
  | https => exact h.1.unique h.2.1 h.2.2 h'.1 h'.2.1 h'.2.2

/-- The target comes from the host the stream names, and it has the same bytes up to brackets, a
colon and a port. -/
theorem names_of_parsed {protocol : InboundProtocol} {bytes : Bytes} {target : Target}
    (h : Parsed bytes target protocol) (more : Bytes) :
    ∃ name, Names (bytes ++ more) name protocol ∧ (Clean name ↔ Clean target.host) := by
  cases protocol with
  | http =>
    obtain ⟨value, hname, hvalue⟩ := namesHost_of_parseHttpHost h
    exact ⟨value, hname.append more, clean_parseHostPort hvalue⟩
  | https =>
    obtain ⟨hcarries, hne, hu⟩ := parseTlsSni_eq_found_iff.mp h.1
    exact ⟨target.host, ⟨hcarries.append more, hne, hu⟩, Iff.rfl⟩

/-! ## A run -/

/-- An HTTP proxy without credentials. -/
def plainHttpProxy : ProxyConfig where
  kind := .http
  host := ascii "proxy.example"
  port := 8080
  username := none
  password := none
  tlsConnector := false

/-- The bytes of a ClientHello in one record. -/
def helloRecord (host : Bytes) (h : host.length < 900) : Bytes :=
  record (3, 1) ⟨(syntheticClientHello host (by omega)).message, by
    rw [length_syntheticClientHello]
    omega⟩

section HelloRecord

variable (host : Bytes) (h : host.length < 900)

theorem parseTlsSni_helloRecord (hne : host ≠ []) (hu : IsUtf8 host) :
    parseTlsSni (helloRecord host h) = found host := by
  have hmessage := parseRecord_message (syntheticClientHello host (by omega)) []
  rw [List.append_nil, verdict_of_hostName (hostName_syntheticClientHello host _),
    hostStatus_of_utf8 hne hu] at hmessage
  rw [helloRecord, ← List.append_nil (record _ _), parseTlsSni_record, hmessage]

theorem length_helloRecord : (helloRecord host h).length = host.length + 61 := by
  simp [helloRecord, record, length_syntheticClientHello]

theorem checkClientHello_helloRecord (hne : host ≠ []) (hu : IsUtf8 host) :
    checkClientHello (helloRecord host h) = some (.ok (⟨host, 443⟩, helloRecord host h)) := by
  have hshort : ¬ maxClientHello < (helloRecord host h).length := by
    rw [length_helloRecord, maxClientHello]
    omega
  rw [checkClientHello, if_neg hshort, parseTlsSni_helloRecord host h hne hu]

/-- A ClientHello that arrives at once is read at once. -/
theorem readTarget_helloRecord (faulty : Prop) (hne : host ≠ []) (hu : IsUtf8 host) :
    Ends (Answer faulty) (readTarget .https) (.fresh (helloRecord host h))
      (.ok (⟨host, 443⟩, helloRecord host h))
      ((Wire.fresh (helloRecord host h)).drained .inbound) := by
  have hlen : (helloRecord host h).length ≤ 1024 := by
    rw [length_helloRecord]
    omega
  have hfirst : helloRecord host h ≠ [] := by
    rw [← List.length_pos_iff, length_helloRecord]
    omega
  have hread : (Wire.fresh (helloRecord host h)).Read 1024 .inbound (helloRecord host h) _ :=
    read_drained nofun rfl hlen
  have hrun : Ends (Answer faulty) readHttpsTarget _ _ _ :=
    ends_readUntil hread hfirst (checkClientHello_helloRecord host h hne hu)
  exact hrun.mapError

end HelloRecord

end NyaSniProxy
