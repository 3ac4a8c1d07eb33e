import NyaSniProxy.Connection.Session
import NyaSniProxy.Library.Deadline
import NyaSniProxy.Router.Lookup

/-!
# How long a connection may take to be relayed

The connection here is the one with its timers: `timedHandleConnection` says which parts are under
which timer, and without the timers it is `handleConnection`. Every call that may wait for a peer is
under one of them. So a client and proxies that send nothing, or one byte at a time, keep a
connection from its relay for a bounded time only, which grows with the length of its route.

Times are in milliseconds.
-/

namespace NyaSniProxy

open Text Interaction Deadline

def initialReadTimeout : Nat := 10000
def initialUpstreamWriteTimeout : Nat := 10000
def upstreamConnectTimeout : Nat := 10000
def proxyHandshakeTimeout : Nat := 10000

abbrev TimedIo (α : Type) := Deadline.Timed Call Reply Error α

namespace ProxyConfig

variable (self : ProxyConfig) (target : Target)

def timedTcpConnect (proxy : String) : TimedIo Unit :=
  under upstreamConnectTimeout (self.tcpConnect proxy)

def timedTlsConnect : TimedIo Unit :=
  if self.tlsConnector then
    .call (.io (.serverName self.host)) fun valid =>
      if valid then
        under proxyHandshakeTimeout (Io.timeoutContext "timed out during HTTPS proxy TLS handshake"
          "TLS handshake with HTTPS proxy" [] (.call .tlsConnect Io.fallible))
      else .fail (.within "HTTPS proxy host is not a valid TLS server name" .parse)
  else .fail (.msg "HTTPS proxy connector missing")

def timedConnect : TimedIo Unit :=
  match self.kind with
  | .http => do
    self.timedTcpConnect "HTTP proxy"
    let pre ← under proxyHandshakeTimeout
      (Io.timeout "timed out during HTTP proxy CONNECT" (self.httpConnect target))
    ofProg (openTunnel pre)
  | .https => do
    self.timedTcpConnect "HTTPS proxy"
    self.timedTlsConnect
    let pre ← under proxyHandshakeTimeout
      (Io.timeout "timed out during HTTPS proxy CONNECT" (self.httpConnect target))
    ofProg (openTunnel pre)
  | .socks5 => do
    self.timedTcpConnect "SOCKS5 proxy"
    under proxyHandshakeTimeout
      (Io.timeout "timed out during SOCKS5 handshake" (self.socks5Connect target))
    ofProg (openTunnel [])

end ProxyConfig

def timedHandleConnection (protocol : InboundProtocol) : TimedIo (Next Relay Unit) := do
  let (target, initial) ← under initialReadTimeout (readTarget protocol)
  let runtime ← ofProg Io.borrow
  let hops := runtime.router.lookup target.host
  let upstream ← connectWithFallback
    (fun hop target => (hop.proxy.timedConnect target).attempt) hops target
  .ofExcept upstream
  under initialUpstreamWriteTimeout
    (Io.timeout "timed out writing initial traffic upstream" (.writeAll .upstream initial))
  return .again .init

/-! ## Without timers -/

theorem erase_timedTlsConnect (self : ProxyConfig) :
    erase self.timedTlsConnect = self.tlsConnect := by
  unfold ProxyConfig.timedTlsConnect ProxyConfig.tlsConnect
  split
  · refine congrArg (Prog.call _) (funext fun valid => ?_)
    cases valid with
    | false => rfl
    | true => exact erase_under _ _
  · rfl

theorem erase_timedConnect (self : ProxyConfig) (target : Target) :
    erase (self.timedConnect target) = self.connect target := by
  unfold ProxyConfig.timedConnect ProxyConfig.connect ProxyConfig.timedTcpConnect
  cases self.kind <;>
    simp only [erase_bind, erase_under, erase_ofProg, erase_timedTlsConnect]

theorem erase_connectWithFallback (hops : List Hop) (target : Target) :
    erase (connectWithFallback (m := TimedIo)
      (fun hop target => (hop.proxy.timedConnect target).attempt) hops target) =
    connectWithFallback (m := Io) (fun hop target => (hop.proxy.connect target).attempt)
      hops target := by
  unfold connectWithFallback
  generalize (none : Option Error) = last
  induction hops generalizing last with
  | nil => rfl
  | cons hop hops ih =>
    unfold connectWithFallback.go
    rw [erase_bind, erase_attempt, erase_timedConnect]
    refine congrArg (Bind.bind _) (funext fun result => ?_)
    cases result with
    | ok u => rfl
    | error e => exact ih (some e)

theorem erase_timedHandleConnection (protocol : InboundProtocol) :
    erase (timedHandleConnection protocol) = handleConnection protocol := by
  unfold timedHandleConnection handleConnection
  simp only [erase_bind, erase_under, erase_ofProg, erase_connectWithFallback, erase_ofExcept]
  rfl

/-! ## With timers -/

/-- The calls that wait for no peer. -/
def Call.Prompt : Call → Prop
  | .serverName _ | .tunnel _ | .borrow => True
  | _ => False

/-- The time of one hop: to connect, for TLS, and for the handshake. -/
def hopTime (lag : Nat) : Nat :=
  upstreamConnectTimeout + 2 * proxyHandshakeTimeout + 5 * lag

/-- The time until the relay, with a route of `n` hops. -/
def setupTime (n lag : Nat) : Nat :=
  initialReadTimeout + n * hopTime lag + initialUpstreamWriteTimeout + 3 * lag

section Takes

variable {inForce : Runtime → Prop} {lag n : Nat} {target : Target}

theorem takes_openTunnel (pre : Bytes) :
    Takes (Served inForce) Call.Prompt lag (ofProg (ProxyConfig.openTunnel pre)) lag :=
  takes_io (b := 0) trivial fun _ _ => takes_ret ()

theorem takes_timedTlsConnect (self : ProxyConfig) :
    Takes (Served inForce) Call.Prompt lag self.timedTlsConnect
      (lag + (proxyHandshakeTimeout + lag)) := by
  unfold ProxyConfig.timedTlsConnect
  split
  · refine takes_io trivial fun valid _ => ?_
    cases valid with
    | false => exact takes_ofExcept (.error _)
    | true => exact takes_under _ _
  · exact takes_ofExcept (.error _)

theorem takes_timedConnect (self : ProxyConfig) :
    Takes (Served inForce) Call.Prompt lag (self.timedConnect target) (hopTime lag) := by
  have hconnect (proxy : String) : Takes (Served inForce) Call.Prompt lag
      (self.timedTcpConnect proxy) (upstreamConnectTimeout + lag) := takes_under _ _
  have hshake {α : Type} (p : Io α) : Takes (Served inForce) Call.Prompt lag
      (under proxyHandshakeTimeout p) (proxyHandshakeTimeout + lag) := takes_under _ _
  unfold ProxyConfig.timedConnect
  cases self.kind with
  | http =>
    refine ((hconnect _).bind fun _ => (hshake _).bind fun pre => takes_openTunnel pre).mono ?_
    simp only [hopTime]
    omega
  | https =>
    refine ((hconnect _).bind fun _ => (takes_timedTlsConnect self).bind fun _ =>
      (hshake _).bind fun pre => takes_openTunnel pre).mono ?_
    simp only [hopTime]
    omega
  | socks5 =>
    refine ((hconnect _).bind fun _ => (hshake _).bind fun _ => takes_openTunnel []).mono ?_
    simp only [hopTime]
    omega

theorem takes_connectWithFallback (hops : List Hop) :
    Takes (Served inForce) Call.Prompt lag (connectWithFallback (m := TimedIo)
      (fun hop target => (hop.proxy.timedConnect target).attempt) hops target)
      (hops.length * hopTime lag) := by
  unfold connectWithFallback
  generalize (none : Option Error) = last
  induction hops generalizing last with
  | nil => exact takes_ret _
  | cons hop hops ih =>
    have htry : Takes (Served inForce) Call.Prompt lag
        ((hop.proxy.timedConnect target).attempt : TimedIo (Except Error Unit)) (hopTime lag) :=
      (takes_timedConnect hop.proxy).attempt
    rw [List.length_cons, Nat.add_one_mul, Nat.add_comm]
    refine htry.bind fun result => ?_
    cases result with
    | ok u => exact takes_ret _
    | error e => exact ih (some e)

theorem takes_timedHandleConnection (protocol : InboundProtocol)
    (hroutes : ∀ runtime, inForce runtime →
      ∀ host, (runtime.router.lookup host).length ≤ n) :
    Takes (Served inForce) Call.Prompt lag (timedHandleConnection protocol)
      (setupTime n lag) := by
  have hrest (target : Target) (initial : Bytes) (runtime : Runtime) (hruntime : inForce runtime) :
      Takes (Served inForce) Call.Prompt lag (α := Next Relay Unit) (do
        let upstream ← connectWithFallback (m := TimedIo)
          (fun hop target => (hop.proxy.timedConnect target).attempt)
          (runtime.router.lookup target.host) target
        .ofExcept upstream
        under initialUpstreamWriteTimeout
          (Io.timeout "timed out writing initial traffic upstream" (.writeAll .upstream initial))
        return .again .init)
      (n * hopTime lag + (0 + (initialUpstreamWriteTimeout + lag + 0))) := by
    have hle := Nat.mul_le_mul_right (hopTime lag) (hroutes runtime hruntime target.host)
    refine ((takes_connectWithFallback _).mono hle).bind fun upstream => ?_
    exact (takes_ofExcept _).bind fun _ => (takes_under _ _).bind fun _ => takes_ret _
  refine ((takes_under _ _).bind fun read => takes_io trivial fun runtime hruntime =>
    hrest read.1 read.2 runtime hruntime).mono ?_
  simp only [setupTime]
  omega

end Takes

/-! ## The length of a route -/

section Routes

variable (parseUrl : Bytes → Option Url) (hash : Bytes → UInt64)

/-- The runtime of a configuration with at most `n` proxies in a rule. -/
def ShortRules (n : Nat) (runtime : Runtime) : Prop :=
  ∃ yaml, Runtime.fromYaml parseUrl hash yaml = .ok runtime ∧
    ∀ rule ∈ yaml.rules.entries, rule.2.names.length ≤ n

variable {parseUrl hash} {n : Nat} {runtime : Runtime}

theorem length_lookup_le (h : ShortRules parseUrl hash n runtime) (host : Bytes) :
    (runtime.router.lookup host).length ≤ n := by
  obtain ⟨yaml, hyaml, hshort⟩ := h
  obtain ⟨ref, href, hlookup⟩ := lookup_eq hyaml host
  obtain ⟨rule, hrule, rfl⟩ : ∃ rule ∈ yaml.rules.entries, rule.2 = ref := by
    obtain ⟨rule, hrule, hsame⟩ | ⟨-, rule, hrule, hsame⟩ := refFor_rule href
    · exact ⟨rule, (mem_rulesFor.mp hrule).1, hsame⟩
    · exact ⟨rule, (mem_defaultRules.mp hrule).1, hsame⟩
  have hlen : (runtime.router.lookup host).length = rule.2.names.length := by
    rw [hlookup, ← List.length_map (f := Hop.name), (routeOf_rule hyaml hrule).names]
  exact hlen.trans_le (hshort rule hrule)

/-- Whatever the client and the proxies do or leave undone: a connection comes to its relay, or to
its end, after ten seconds for the target, at most thirty for each hop that was tried, and ten for
the first bytes, up to how late the program is. -/
theorem handleConnection_timely (n lag : Nat) (protocol : InboundProtocol) (start : Nat) :
    erase (timedHandleConnection protocol) = handleConnection protocol ∧
      ∀ c, Reaches (Deadline.Answer (Served (ShortRules parseUrl hash n)) Call.Prompt lag)
        (timedHandleConnection protocol, ⟨start, none⟩) c →
        c.2.now ≤ start + setupTime n lag := by
  refine ⟨erase_timedHandleConnection protocol, fun c h => ?_⟩
  have htakes : Takes (Served (ShortRules parseUrl hash n)) Call.Prompt lag
      (timedHandleConnection protocol) (setupTime n lag) :=
    takes_timedHandleConnection protocol fun _ => length_lookup_le
  have hrun := (htakes ⟨start, none⟩ rfl).reaches h
  exact hrun.invariant

/-- A client that sends nothing is cut off, here a tenth of a second late. -/
theorem handleConnection_timely_silent :
    ∃ c : TimedIo (Next Relay Unit) × Deadline.Clock,
      c.1 = .fail (.within "timed out reading TLS ClientHello" (.fault .elapsed)) ∧
        c.2.now = 10100 ∧ c.2.now ≤ setupTime 2 100 := by
  let E := Deadline.Answer (Served (ShortRules sampleUrl (fun _ => 0) 2)) Call.Prompt 100
  let cut : Error := .within "timed out reading TLS ClientHello" (.fault .elapsed)
  have hcut := @Deadline.Answer.io Call Reply (Served (ShortRules sampleUrl (fun _ => 0) 2))
    Call.Prompt 100 (.read .inbound 1024) ⟨0, some 10000⟩ 10100 (Except.error Fault.elapsed)
    trivial (Nat.zero_le _) False.elim (by rintro d ⟨⟩; decide)
  have hread : Ends E (ofProg (readTarget .https)) ⟨0, some 10000⟩ (.error cut)
      ⟨10100, some 10000⟩ := by
    unfold readTarget readHttpsTarget
    rw [Io.readUntil]
    exact .call hcut .refl
  have harm : Ends E (.call (.arm initialReadTimeout) .ret : TimedIo Unit) ⟨0, none⟩ (.ok ())
      ⟨0, some 10000⟩ := .call .arm .refl
  have hdisarm : Ends E (.call .disarm .ret : TimedIo Unit) ⟨10100, some 10000⟩ (.ok ())
      ⟨10100, none⟩ := .call .disarm .refl
  have hunder : Ends E (under initialReadTimeout (readTarget .https)) ⟨0, none⟩ (.error cut)
      ⟨10100, none⟩ := harm.bind (hread.attempt.bind (hdisarm.bind .refl))
  have hrun : Ends E (timedHandleConnection .https) ⟨0, none⟩ (.error cut) ⟨10100, none⟩ :=
    hunder.bind_error
  have htimely := (handleConnection_timely 2 100 .https 0).2 _ hrun
  rw [Nat.zero_add] at htimely
  exact ⟨(.fail cut, ⟨10100, none⟩), rfl, rfl, htimely⟩

end Routes

end NyaSniProxy
