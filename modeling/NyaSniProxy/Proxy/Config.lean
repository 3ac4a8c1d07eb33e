import NyaSniProxy.Target
import NyaSniProxy.Library.Base64
import NyaSniProxy.Library.Net

/-!
# Upstream proxy configuration

A proxy is configured by a URL. The `url` crate is a parameter here: `Url` holds what its accessors
return for a parsed URL, and `parseUrl` is its parser. Also here are the texts a configured proxy
determines: the Basic header, the CONNECT request and the frames of a SOCKS5 handshake.
-/

namespace NyaSniProxy

open Text

inductive ProxyKind where
  | http
  | https
  | socks5
  deriving DecidableEq

/-- `tlsConnector` says whether the proxy has a TLS connector. -/
structure ProxyConfig where
  kind : ProxyKind
  host : Bytes
  port : UInt16
  username : Option Bytes
  password : Option Bytes
  tlsConnector : Bool
  deriving DecidableEq

/-- What the accessors of `url::Url` return. -/
structure Url where
  scheme : Bytes
  hostStr : Option Bytes
  portOrKnownDefault : Option UInt16
  username : Bytes
  password : Option Bytes

namespace ProxyConfig

def parseKind (scheme : Bytes) : Except Error ProxyKind :=
  if scheme = ascii "http" then .ok .http
  else if scheme = ascii "https" then .ok .https
  else if scheme = ascii "socks5" then .ok .socks5
  else .error (.bail "unsupported proxy scheme: " scheme)

def parse (parseUrl : Bytes → Option Url) (raw : Bytes) : Except Error ProxyConfig := do
  let some url := parseUrl raw | throw (.within "parse proxy URL" .parse)
  let kind ← parseKind url.scheme
  let some host := url.hostStr | throw (.msg "proxy URL missing host")
  let some port := url.portOrKnownDefault
    | throw (.msg "proxy URL missing port and scheme has no known default")
  let username := if url.username = [] then none else some url.username
  return {
    kind, host, port, username
    password := url.password
    tlsConnector := kind = .https }

/-- The address `TcpStream::connect` is called with. -/
def dial (self : ProxyConfig) : Net.Dial := Net.dial self.host self.port

/-- `{host}:{port}` of the proxy, as error messages show it. -/
def address (self : ProxyConfig) : Bytes := self.host ++ colon :: decimal self.port.toNat

def basicAuthHeader (self : ProxyConfig) : Option Bytes :=
  self.username.map fun username => Base64.encode (username ++ colon :: self.password.getD [])

/-- The request `http_connect` writes. -/
def connectRequest (self : ProxyConfig) (target : Target) : Bytes :=
  let targetAddr := formatTarget target
  let auth := match self.basicAuthHeader with
    | some auth => ascii "Proxy-Authorization: Basic " ++ auth ++ crlf
    | none => []
  ascii "CONNECT " ++ targetAddr ++ ascii " HTTP/1.1" ++ crlf ++
    ascii "Host: " ++ targetAddr ++ crlf ++
    ascii "Proxy-Connection: Keep-Alive" ++ crlf ++ auth ++ crlf

/-- The RFC 1929 frame `socks5_connect` writes. -/
def socks5Auth (username password : Bytes) : Except Error Bytes :=
  if username.length > 255 ∨ password.length > 255 then
    .error (.msg "SOCKS5 username/password must be <= 255 bytes")
  else .ok (0x01 :: username.length.toUInt8 :: username ++ password.length.toUInt8 :: password)

/-- The RFC 1928 request `socks5_connect` writes. -/
def socks5Request (target : Target) : Except Error Bytes :=
  if target.host.length > 255 then .error (.msg "SOCKS5 target host is too long")
  else .ok ([0x05, 0x01, 0x00, 0x03, target.host.length.toUInt8] ++ target.host ++
    toBeBytes target.port)

end ProxyConfig

end NyaSniProxy
