import NyaSniProxy.Connection.Session
import NyaSniProxy.Library.Records

/-!
# What a connection shows of credentials

Connections log their errors. What a connection ends with does not depend on the username and the
password of a proxy: a connection with other credentials has the same records, and one that is
answered in the same way ends in the same result, with the same text of an error. Only two things
about them are seen, whether there is a username and whether both fit the length fields of SOCKS5.
-/

namespace NyaSniProxy

open Text Interaction

/-- The texts fit the length fields of a SOCKS5 handshake. -/
def ProxyConfig.CredentialsFit (self : ProxyConfig) : Prop :=
  (self.username.getD []).length ≤ 255 ∧ (self.password.getD []).length ≤ 255

/-- The proxies differ in nothing but what their credentials say. -/
structure ProxyConfig.SameButSecrets (proxy other : ProxyConfig) : Prop where
  kind : proxy.kind = other.kind
  host : proxy.host = other.host
  port : proxy.port = other.port
  tlsConnector : proxy.tlsConnector = other.tlsConnector
  username : proxy.username.isSome = other.username.isSome
  fit : proxy.CredentialsFit ↔ other.CredentialsFit

def Hop.SameButSecrets (self other : Hop) : Prop :=
  self.name = other.name ∧ self.proxy.SameButSecrets other.proxy

/-- All hosts have the same routes, up to credentials. -/
def Runtime.SameButSecrets (self other : Runtime) : Prop :=
  ∀ host, List.Forall₂ Hop.SameButSecrets (self.router.lookup host) (other.router.lookup host)

/-! ## What is seen -/

/-- The proxy without its credentials. -/
def ProxyConfig.withoutSecrets (self : ProxyConfig) : ProxyConfig :=
  { self with username := none, password := none }

/-- What is seen of a call: its answer, or that a message was sent. -/
inductive Sight where
  | answered (call : Call) (reply : Reply call)
  | sent (side : Side)

/-- Everything is seen but the bytes of a message, the parts in which they are taken, the
credentials of the proxy that is dialled, and the runtime that is borrowed. -/
def Call.view : (call : Call) → Reply call → Option Sight
  | .connect proxy, r => some (.answered (.connect proxy.withoutSecrets) r)
  | .write side _, .error f => some (.answered (.write side []) (.error f))
  | .write side _, .ok 0 => some (.answered (.write side []) (.ok 0))
  | .write side bytes, .ok (n + 1) => if bytes.length ≤ n + 1 then some (.sent side) else none
  | .borrow, _ => none
  | call, r => some (.answered call r)

/-- The calls of which everything is seen. -/
def Call.Plain : Call → Prop
  | .connect _ | .write .. | .borrow => False
  | _ => True

/-- A message was sent, or a write of it failed or took nothing. -/
def MessageRecord (side : Side) (seen : List Sight) (r : Except Error Unit) : Prop :=
  seen = [.sent side] ∧ r = .ok () ∨
    (∃ f, seen = [.answered (.write side []) (.error f)] ∧ r = .error (.fault f)) ∨
    seen = [.answered (.write side []) (.ok 0)] ∧ r = .error (.fault .io)

section Secrets

variable {runtime runtime' : Runtime} {proxy other : ProxyConfig} {target : Target}
  {side : Side} {bytes bytes' : Bytes} {seen : List Sight}

variable (runtime runtime') in
/-- Two programs in lockstep, each with one runtime in force. -/
abbrev Alike {α : Type} (p q : Io α) : Prop :=
  Lockstep (Served (· = runtime)) (Served (· = runtime')) Call.view p q

theorem alike_of_only {α : Type} {p : Io α} (hp : p.Only Call.Plain) :
    Alike runtime runtime' p p := by
  refine .of_only hp (fun i hi a _ => ?_) fun i hi => ?_
  · cases i with
    | borrow => exact hi.elim
    | _ => trivial
  · refine ⟨Sight.answered i, fun a a' h => ?_, fun a => ?_⟩
    · simpa using h
    · cases i with
      | connect | write | borrow => exact hi.elim
      | _ => rfl

/-- What is seen of a message does not depend on its bytes. -/
theorem hasRecord_writeAll {inForce : Runtime → Prop} {r : Except Error Unit} (hne : bytes ≠ []) :
    HasRecord (Served inForce) Call.view (Io.writeAll side bytes) seen r ↔
      MessageRecord side seen r := by
  constructor
  · intro h
    induction bytes using Io.writeAll.induct generalizing seen with
    | case1 => exact absurd rfl hne
    | case2 bytes hne ih =>
      rw [Io.writeAll, dif_neg hne] at h
      obtain ⟨f | _ | n, rest, -, rfl, hrest⟩ := hasRecord_call.mp h
      · obtain ⟨rfl, rfl⟩ := hasRecord_fail.mp hrest
        exact .inr (.inl ⟨f, rfl, rfl⟩)
      · obtain ⟨rfl, rfl⟩ := hasRecord_fail.mp hrest
        exact .inr (.inr ⟨rfl, rfl⟩)
      · by_cases hall : bytes.length ≤ n + 1
        · dsimp only at hrest
          rw [List.drop_of_length_le hall, Io.writeAll, dif_pos rfl] at hrest
          obtain ⟨rfl, rfl⟩ := hasRecord_ret.mp hrest
          exact .inl ⟨by simp [Call.view, hall], rfl⟩
        · have hmessage := ih n (by simpa using hall) hrest
          simpa [Call.view, hall] using hmessage
  · rw [Io.writeAll, dif_neg hne]
    rintro (⟨rfl, rfl⟩ | ⟨f, rfl, rfl⟩ | ⟨rfl, rfl⟩)
    · obtain ⟨n, hn⟩ := Nat.exists_eq_add_one.mpr (List.length_pos_of_ne_nil hne)
      refine hasRecord_call.mpr ⟨.ok (n + 1), [], trivial, by simp [Call.view, hn], ?_⟩
      dsimp only
      rw [← hn, List.drop_length, Io.writeAll, dif_pos rfl]
      exact .ret
    · exact hasRecord_call.mpr ⟨.error f, [], trivial, rfl, .fail⟩
    · exact hasRecord_call.mpr ⟨.ok 0, [], trivial, rfl, .fail⟩

theorem MessageRecord.known {seen' u u' : List Sight} {r r' : Except Error Unit}
    (h : MessageRecord side seen r) (h' : MessageRecord side seen' r')
    (heq : seen ++ u = seen' ++ u') : seen = seen' ∧ r = r' := by
  obtain ⟨rfl, rfl⟩ | ⟨f, rfl, rfl⟩ | ⟨rfl, rfl⟩ := h <;>
    obtain ⟨rfl, rfl⟩ | ⟨f', rfl, rfl⟩ | ⟨rfl, rfl⟩ := h' <;> simp_all

theorem alike_writeAll (hnil : bytes = [] ↔ bytes' = []) :
    Alike runtime runtime' (Io.writeAll side bytes) (Io.writeAll side bytes') := by
  by_cases hne : bytes = []
  · rw [hne, hnil.mp hne, Io.writeAll, dif_pos rfl]
    exact .ret ()
  have hne' := mt hnil.mpr hne
  refine ⟨fun seen r h => ?_, fun seen seen' u u' r r' h h' heq => ?_⟩
  · exact (hasRecord_writeAll hne').mpr ((hasRecord_writeAll hne).mp h)
  · exact ((hasRecord_writeAll hne).mp h).known ((hasRecord_writeAll hne').mp h') heq

/-! ## One proxy -/

theorem alike_tcpConnect (h : proxy.SameButSecrets other) (name : String) :
    Alike runtime runtime' (proxy.tcpConnect name) (other.tcpConnect name) := by
  have haddress : proxy.address = other.address := by
    rw [ProxyConfig.address, ProxyConfig.address, h.host, h.port]
  unfold ProxyConfig.tcpConnect
  rw [haddress]
  have hseen : proxy.withoutSecrets = other.withoutSecrets := by
    unfold ProxyConfig.withoutSecrets
    rw [h.kind, h.host, h.port, h.tlsConnector]
  refine .mapError _ (.calls Eq (fun a _ => ⟨a, trivial, rfl⟩) (fun a a' u u' _ _ heq => ?_)
    (fun a a' hsame => ?_) fun a a' hsame => ?_)
  · have hfirst := (List.cons.inj heq).1
    simpa [hseen] using hfirst
  · rw [hsame, Call.view, Call.view, hseen]
  · exact hsame ▸ alike_of_only (Io.only_fallible a)

theorem connectRequest_ne_nil : proxy.connectRequest target ≠ [] := by
  simp [ProxyConfig.connectRequest, ascii]

theorem alike_httpConnect (proxy other : ProxyConfig) (target : Target) :
    Alike runtime runtime' (proxy.httpConnect target) (other.httpConnect target) := by
  have hrequest := iff_of_false (@connectRequest_ne_nil proxy target)
    (@connectRequest_ne_nil other target)
  refine (alike_writeAll hrequest).bind fun _ => ?_
  refine alike_of_only (.bind (Io.only_readUntil trivial) fun response => ?_)
  exact .bind (Io.only_ofExcept _) fun _ => trivial

/-- The frame with the credentials is written, or they are too long. -/
theorem alike_authenticate {username username' password password' : Bytes}
    (hfit : username.length ≤ 255 ∧ password.length ≤ 255 ↔
      username'.length ≤ 255 ∧ password'.length ≤ 255) :
    Alike runtime runtime'
      (do .writeAll .upstream (← .ofExcept (ProxyConfig.socks5Auth username password)))
      (do .writeAll .upstream (← .ofExcept (ProxyConfig.socks5Auth username' password'))) := by
  unfold ProxyConfig.socks5Auth
  by_cases hlong : username.length ≤ 255 ∧ password.length ≤ 255
  · rw [if_neg (by omega), if_neg (by have := hfit.mp hlong; omega)]
    exact alike_writeAll (iff_of_false nofun nofun)
  · rw [if_pos (by omega), if_pos (by have := mt hfit.mpr hlong; omega)]
    exact alike_of_only trivial

theorem alike_socks5Method (h : proxy.SameButSecrets other) (selected : Bytes) :
    Alike runtime runtime' (proxy.socks5Method selected) (other.socks5Method selected) := by
  have husername := h.username
  have hfit := h.fit
  unfold ProxyConfig.CredentialsFit at hfit
  unfold ProxyConfig.socks5Method
  cases hu : proxy.username with
  | none =>
    have hu' : other.username = none := by simpa [hu] using husername.symm
    rw [hu']
    refine alike_of_only ?_
    dsimp only
    split <;> trivial
  | some username =>
    rw [hu, Option.isSome_some] at husername
    obtain ⟨username', hu'⟩ := Option.isSome_iff_exists.mp husername.symm
    rw [hu, hu', Option.getD_some, Option.getD_some] at hfit
    rw [hu']
    dsimp only
    split
    · have hstatus : (do
          let authStatus ← Io.readExact .upstream 2 []
          if authStatus ≠ [0x01, 0x00] then
            .fail (.msg "SOCKS5 username/password authentication failed")
          else .ret () : Io Unit).Only Call.Plain := by
        refine .bind (Io.only_readExact fun _ => trivial) fun status => ?_
        split <;> trivial
      have halike : Alike runtime runtime' _ _ :=
        (alike_authenticate hfit).bind fun _ => alike_of_only hstatus
      simpa only [bind_assoc] using halike
    · refine alike_of_only ?_
      split
      · trivial
      · split <;> trivial

theorem alike_socks5Connect (h : proxy.SameButSecrets other) (target : Target) :
    Alike runtime runtime' (proxy.socks5Connect target) (other.socks5Connect target) := by
  have hgreeting (proxy : ProxyConfig) : proxy.socks5Greeting ≠ [] := by
    unfold ProxyConfig.socks5Greeting
    split <;> nofun
  have hselected : (Io.readExact .upstream 2 []).Only Call.Plain :=
    Io.only_readExact fun _ => trivial
  have hreply : ProxyConfig.readSocks5Reply.Only Call.Plain := by
    refine .bind (Io.only_readExact fun _ => trivial) fun head => ?_
    refine .bind (only_socks5AddrLen head fun _ => trivial) fun n => ?_
    exact .bind (Io.only_readExact fun _ => trivial) fun _ => trivial
  have hrequest : Alike runtime runtime' (do
      .writeAll .upstream (← .ofExcept (ProxyConfig.socks5Request target))
      ProxyConfig.readSocks5Reply) _ :=
    (alike_of_only (Io.only_ofExcept _)).bind fun request =>
      (alike_writeAll Iff.rfl).bind fun _ => alike_of_only hreply
  exact (alike_writeAll (iff_of_false (hgreeting proxy) (hgreeting other))).bind fun _ =>
    (alike_of_only hselected).bind fun selected =>
      (alike_socks5Method h selected).bind fun _ => hrequest

theorem alike_connect (h : proxy.SameButSecrets other) (target : Target) :
    Alike runtime runtime' (proxy.connect target) (other.connect target) := by
  have hopen (pre : Bytes) : Alike runtime runtime' (ProxyConfig.openTunnel pre)
      (ProxyConfig.openTunnel pre) := alike_of_only ⟨trivial, fun _ => trivial⟩
  have htls : Alike runtime runtime' proxy.tlsConnect other.tlsConnect := by
    have hsame : proxy.tlsConnect = other.tlsConnect := by
      unfold ProxyConfig.tlsConnect
      rw [h.tlsConnector, h.host]
    rw [hsame]
    exact alike_of_only (only_tlsConnect other (fun _ => trivial) trivial)
  have hhttp : Alike runtime runtime' (proxy.httpConnect target)
      (other.httpConnect target) :=
    alike_httpConnect proxy other target
  unfold ProxyConfig.connect
  rw [h.kind]
  cases other.kind with
  | http => exact (alike_tcpConnect h _).bind fun _ => (hhttp.mapError _).bind hopen
  | https =>
    exact (alike_tcpConnect h _).bind fun _ => htls.bind fun _ => (hhttp.mapError _).bind hopen
  | socks5 =>
    exact (alike_tcpConnect h _).bind fun _ =>
      ((alike_socks5Connect h target).mapError _).bind fun _ => hopen []

/-! ## The whole connection -/

theorem alike_connectWithFallback {hops hops' : List Hop}
    (h : List.Forall₂ Hop.SameButSecrets hops hops') (target : Target) :
    Alike runtime runtime'
      (connectWithFallback (m := Io) (fun hop target => (hop.proxy.connect target).attempt)
        hops target)
      (connectWithFallback (m := Io) (fun hop target => (hop.proxy.connect target).attempt)
        hops' target) := by
  unfold connectWithFallback
  generalize (none : Option Error) = last
  induction h generalizing last with
  | nil => exact alike_of_only trivial
  | cons hhop _ ih =>
    refine (alike_connect hhop.2 target).attempt.bind fun result => ?_
    cases result with
    | ok u => exact alike_of_only trivial
    | error e => exact ih (some e)

/-- With other credentials a connection may be answered in the same ways, and the same answers give
the same result, with the same text of an error. -/
theorem handleConnection_secret (protocol : InboundProtocol) (runtime runtime' : Runtime)
    (h : runtime.SameButSecrets runtime') (seen : List Sight)
    (result : Except Error (Next Relay Unit))
    (hrun : HasRecord (Served (· = runtime)) Call.view (handleConnection protocol) seen result) :
    HasRecord (Served (· = runtime')) Call.view (handleConnection protocol) seen result ∧
      ∀ result', HasRecord (Served (· = runtime')) Call.view (handleConnection protocol) seen
        result' → result = result' := by
  have htarget : (readTarget protocol).Only Call.Plain := by
    refine (only_readTarget protocol).mono ?_
    rintro i ⟨cap, rfl⟩
    trivial
  have hinitial (initial : Bytes) : Alike runtime runtime' (do
      Io.timeout "timed out writing initial traffic upstream" (.writeAll .upstream initial)
      return .again .init : Io (Next Relay Unit)) _ :=
    (Lockstep.mapError _ (alike_writeAll Iff.rfl)).bind fun _ => .ret _
  have halike : Alike runtime runtime' (handleConnection protocol) (handleConnection protocol) := by
    refine (alike_of_only htarget).bind fun read => ?_
    -- the one call that is answered differently
    refine .calls (fun r r' => r = runtime ∧ r' = runtime')
      (fun r hr => ⟨runtime', rfl, hr, rfl⟩) (fun r r' _ _ hr hr' _ => ⟨hr, hr'⟩)
      (fun _ _ _ => rfl) ?_
    rintro _ _ ⟨rfl, rfl⟩
    exact (alike_connectWithFallback (h read.1.host) read.1).bind fun upstream =>
      (alike_of_only (Io.only_ofExcept upstream)).bind fun _ => hinitial read.2
  exact ⟨halike.follows seen result hrun, fun result' => halike.result hrun⟩

end Secrets

/-! ## A run -/

section Example

variable {inForce : Runtime → Prop} {proxy : ProxyConfig} {bytes : Bytes} {side : Side}

/-- Any bytes may be read. -/
theorem exists_record_readExact {n : Nat} (hlen : bytes.length = n) (hn : 0 < n) :
    ∃ seen, HasRecord (Served inForce) Call.view (Io.readExact side n []) seen (.ok bytes) := by
  subst hlen
  obtain ⟨b, bs, rfl⟩ := List.exists_cons_of_length_pos hn
  rw [Io.readExact, dif_pos (by simp)]
  refine ⟨_, .call (t := []) (a := .ok (b :: bs)) trivial ?_⟩
  simp only [List.nil_append]
  rw [Io.readExact, dif_neg (lt_irrefl _)]
  exact .ret

/-- A proxy may reject credentials. -/
theorem exists_record_rejected (husername : proxy.username.isSome) (hfit : proxy.CredentialsFit)
    (target : Target) :
    ∃ seen, HasRecord (Served inForce) Call.view (proxy.socks5Connect target) seen
      (.error (.msg "SOCKS5 username/password authentication failed")) := by
  obtain ⟨username, hu⟩ := Option.isSome_iff_exists.mp husername
  unfold ProxyConfig.CredentialsFit at hfit
  rw [hu, Option.getD_some] at hfit
  have hsent {bytes : Bytes} (hne : bytes ≠ []) :
      HasRecord (Served inForce) Call.view (Io.writeAll .upstream bytes) [.sent .upstream]
        (.ok ()) := (hasRecord_writeAll hne).mpr (.inl ⟨rfl, rfl⟩)
  obtain ⟨seen, hstatus⟩ : ∃ seen, HasRecord (Served inForce) Call.view
      (Io.readExact .upstream 2 []) seen (.ok [0x01, 0x01]) :=
    exists_record_readExact rfl two_pos
  obtain ⟨seen', hselected⟩ : ∃ seen, HasRecord (Served inForce) Call.view
      (Io.readExact .upstream 2 []) seen (.ok [0x05, 0x02]) :=
    exists_record_readExact rfl two_pos
  have hmethod : ∃ seen, HasRecord (Served inForce) Call.view (proxy.socks5Method [0x05, 0x02]) seen
      (.error (.msg "SOCKS5 username/password authentication failed")) := by
    unfold ProxyConfig.socks5Method ProxyConfig.socks5Auth
    rw [hu]
    dsimp only
    rw [if_pos rfl, if_neg (by omega)]
    exact ⟨_, .bind .ret (.bind (hsent nofun) (.bind hstatus .fail))⟩
  obtain ⟨seen'', hmethod⟩ := hmethod
  have hgreeting : proxy.socks5Greeting ≠ [] := by
    unfold ProxyConfig.socks5Greeting
    split <;> nofun
  exact ⟨_, .bind (hsent hgreeting) (.bind hselected hmethod.bind_error)⟩

/-- A proxy to which this password is said. -/
def passwordProxy (password : String) : ProxyConfig :=
  { plainHttpProxy with
    kind := .socks5, username := some (ascii "me"), password := some (ascii password) }

def passwordRuntime (password : String) : Runtime where
  router := { rules := ∅, default := [⟨ascii "jp", passwordProxy password⟩] }
  hostnames := []
  fingerprint := 0

theorem exists_record_password : ∃ seen,
    HasRecord (Served (· = passwordRuntime "open")) Call.view (handleConnection .https) seen
      (.error (.msg "SOCKS5 username/password authentication failed")) := by
  have hhello := Ends.session (s := .fresh _) (· = passwordRuntime "open")
    (steady_readTarget .https)
    (readTarget_helloRecord (ascii "example.com") (by decide) True (by decide) (by decide))
  obtain ⟨seen, hhello⟩ := hhello.hasRecord Call.view fun _ _ _ _ h => h.choose_spec.2.2
  have hconnect : ∃ seen, HasRecord (Served (· = passwordRuntime "open")) Call.view
      ((passwordProxy "open").connect ⟨ascii "example.com", 443⟩) seen
      (.error (.msg "SOCKS5 username/password authentication failed")) := by
    obtain ⟨seen, hrejected⟩ := @exists_record_rejected (· = passwordRuntime "open")
      (passwordProxy "open") rfl (by unfold ProxyConfig.CredentialsFit; decide)
      ⟨ascii "example.com", 443⟩
    have hdialled : HasRecord (Served (· = passwordRuntime "open")) Call.view
        ((passwordProxy "open").tcpConnect "SOCKS5 proxy") _ (.ok ()) :=
      hasRecord_mapError.mpr ⟨.ok (), rfl, .call (a := .ok ()) trivial .ret⟩
    exact ⟨_, hdialled.bind (.bind_error (hasRecord_mapError.mpr ⟨_, rfl, hrejected⟩))⟩
  obtain ⟨seen', hconnect⟩ := hconnect
  -- the only hop fails, and its error is the last one
  have hfallback : HasRecord (Served (· = passwordRuntime "open")) Call.view
      (connectWithFallback (m := Io) (fun hop target => (hop.proxy.connect target).attempt)
        [⟨ascii "jp", passwordProxy "open"⟩] ⟨ascii "example.com", 443⟩) _
      (.ok (.error (.msg "SOCKS5 username/password authentication failed"))) :=
    .bind (hasRecord_attempt.mpr ⟨_, rfl, hconnect⟩) .ret
  have hborrowed : Served (· = passwordRuntime "open") .borrow (passwordRuntime "open") := rfl
  exact ⟨_, hhello.bind (.call hborrowed (hfallback.bind (.bind_error .fail)))⟩

/-- A rejected password ends the connection in the same way as any other rejected password. -/
theorem handleConnection_secret_rejected : ∃ seen,
    let rejected : Error := .msg "SOCKS5 username/password authentication failed"
    HasRecord (Served (· = passwordRuntime "open")) Call.view (handleConnection .https) seen
      (.error rejected) ∧
    HasRecord (Served (· = passwordRuntime "sesame")) Call.view (handleConnection .https) seen
      (.error rejected) ∧
    ∀ result, HasRecord (Served (· = passwordRuntime "sesame")) Call.view (handleConnection .https)
      seen result → .error rejected = result := by
  obtain ⟨seen, hopen⟩ := exists_record_password
  have hsame : (passwordRuntime "open").SameButSecrets (passwordRuntime "sesame") := by
    refine fun host => .cons ⟨rfl, ?_⟩ .nil
    exact ⟨rfl, rfl, rfl, rfl, rfl, by unfold ProxyConfig.CredentialsFit; decide⟩
  exact ⟨seen, hopen, handleConnection_secret .https _ _ hsame seen _ hopen⟩

end Example

end NyaSniProxy
