import NyaSniProxy.Http

/-!
# Connecting through a proxy

`ProxyConfig.connect` opens a tunnel to a target. An HTTP proxy is asked with a CONNECT request, in
TLS for an HTTPS proxy, and a SOCKS5 proxy with the handshake of RFC 1928. What an HTTP proxy sent
behind its reply already belongs to the tunnel, so `PrefixedStream` serves it before the rest.
-/

namespace NyaSniProxy

open Text Interaction

/-- A stream with bytes in front of it. Once they are all read there are none. -/
structure PrefixedStream where
  pre : Bytes
  preOffset : Nat

namespace PrefixedStream

def new (pre : Bytes) : PrefixedStream := { pre, preOffset := 0 }

/-- A read into a buffer with `remaining` bytes left is served from the bytes in front, or else
(`none`) it is a read of the stream. -/
def pollRead (self : PrefixedStream) (remaining : Nat) : Option (Bytes × PrefixedStream) :=
  if self.preOffset < self.pre.length ∧ remaining > 0 then
    let available := self.pre.drop self.preOffset
    let n := min available.length remaining
    let preOffset := self.preOffset + n
    some (available.take n,
      if preOffset = self.pre.length then { pre := [], preOffset := 0 }
      else { self with preOffset })
  else none

/-- The bytes that are still in front of the stream. -/
def front (self : PrefixedStream) : Bytes := self.pre.drop self.preOffset

end PrefixedStream

/-- The CONNECT reply up to the empty line, and what came behind it. -/
def splitResponse (response : Bytes) : Option (Bytes × Bytes) :=
  (headerEnd response).map fun stop => (response.take stop, response.drop (stop + 4))

def readConnectResponse : Io (Bytes × Bytes) :=
  .readUntil .upstream 512 maxHttpHeader
    (.msg "HTTP proxy closed before CONNECT response")
    (.msg "HTTP proxy CONNECT response too large")
    (fun response => (splitResponse response).map .ok) []

/-- The verdict on the head of the reply. -/
def checkStatus (header : Bytes) : Except Error Unit := do
  let some head := fromUtf8 header | throw (.within "CONNECT response is not UTF-8" .parse)
  let some status := firstLine head | throw (.msg "empty CONNECT response")
  if (splitWhitespace status)[1]? ≠ some (ascii "200") then
    throw (.bail "HTTP proxy CONNECT failed: " status)

namespace ProxyConfig

def httpConnect (self : ProxyConfig) (target : Target) : Io Bytes := do
  .writeAll .upstream (self.connectRequest target)
  let (header, leftover) ← readConnectResponse
  .ofExcept (checkStatus header)
  return leftover

/-- The greeting: which methods are offered. -/
def socks5Greeting (self : ProxyConfig) : Bytes :=
  match self.username with
  | some _ => [0x05, 0x02, 0x00, 0x02]
  | none => [0x05, 0x01, 0x00]

/-- The answer to the method the server selected. -/
def socks5Method (self : ProxyConfig) (selected : Bytes) : Io Unit :=
  match self.username with
  | some username =>
    if selected = [0x05, 0x02] then do
      .writeAll .upstream (← .ofExcept (socks5Auth username (self.password.getD [])))
      let authStatus ← .readExact .upstream 2 []
      if authStatus ≠ [0x01, 0x00] then
        .fail (.msg "SOCKS5 username/password authentication failed")
      else .ret ()
    else if selected = [0x05, 0x00] then .ret ()
    else if selected = [0x05, 0xff] then
      .fail (.msg "SOCKS5 proxy rejected authentication methods")
    else .fail (.msg "invalid SOCKS5 method selection response")
  | none =>
    if selected ≠ [0x05, 0x00] then
      .fail (.msg "SOCKS5 proxy requires unsupported authentication")
    else .ret ()

/-- Number of bytes of the bound address, after the first four bytes of the reply. -/
def socks5AddrLen (head : Bytes) : Io Nat :=
  if head[0]? ≠ some 0x05 then .fail (.msg "invalid SOCKS5 response version")
  else if head[1]? ≠ some 0x00 then
    .fail (.bail "SOCKS5 connect failed with code 0x" (hexByte (head.getD 1 0)))
  else if head[3]? = some 0x01 then .ret 4
  else if head[3]? = some 0x03 then do
    let len ← .readExact .upstream 1 []
    return (len.headD 0).toNat
  else if head[3]? = some 0x04 then .ret 16
  else .fail (.bail "invalid SOCKS5 address type 0x" (hexByte (head.getD 3 0)))

/-- The reply to the request. -/
def readSocks5Reply : Io Unit := do
  let head ← .readExact .upstream 4 []
  let addrLen ← socks5AddrLen head
  let _ ← .readExact .upstream (addrLen + 2) []

def socks5Connect (self : ProxyConfig) (target : Target) : Io Unit := do
  .writeAll .upstream self.socks5Greeting
  let selected ← .readExact .upstream 2 []
  self.socks5Method selected
  .writeAll .upstream (← .ofExcept (socks5Request target))
  readSocks5Reply

/-- `TcpStream::connect` and its timer. -/
def tcpConnect (self : ProxyConfig) (proxy : String) : Io Unit :=
  Io.timeoutContext ("timed out connecting to " ++ proxy) ("connect " ++ proxy ++ " ") self.address
    (.call (.connect self) Io.fallible)

/-- TLS to an HTTPS proxy. -/
def tlsConnect (self : ProxyConfig) : Io Unit :=
  if self.tlsConnector then
    .call (.serverName self.host) fun valid =>
      if valid then
        Io.timeoutContext "timed out during HTTPS proxy TLS handshake"
          "TLS handshake with HTTPS proxy" [] (.call .tlsConnect Io.fallible)
      else .fail (.within "HTTPS proxy host is not a valid TLS server name" .parse)
  else .fail (.msg "HTTPS proxy connector missing")

/-- `PrefixedStream::new`: from here on the stream is the tunnel. -/
def openTunnel (pre : Bytes) : Io Unit := .call (.tunnel pre) .ret

def connect (self : ProxyConfig) (target : Target) : Io Unit :=
  match self.kind with
  | .http => do
    self.tcpConnect "HTTP proxy"
    let pre ← Io.timeout "timed out during HTTP proxy CONNECT" (self.httpConnect target)
    openTunnel pre
  | .https => do
    self.tcpConnect "HTTPS proxy"
    self.tlsConnect
    let pre ← Io.timeout "timed out during HTTPS proxy CONNECT" (self.httpConnect target)
    openTunnel pre
  | .socks5 => do
    self.tcpConnect "SOCKS5 proxy"
    Io.timeout "timed out during SOCKS5 handshake" (self.socks5Connect target)
    openTunnel []

end ProxyConfig

end NyaSniProxy
