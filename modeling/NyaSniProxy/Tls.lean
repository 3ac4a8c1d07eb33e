import NyaSniProxy.Io

/-!
# TLS ClientHello

The target of a TLS connection is the host name in the server name extension of its ClientHello.
`parseTlsSni` looks at the first record of the buffer. Everything inside is a nest of vectors with a
length in front, of one or two bytes; `vec8` and `vec16` take one apart and go on with its contents
and with what follows it.
-/

namespace NyaSniProxy

open Text

def maxClientHello : Nat := 64 * 1024

inductive ClientHelloStatus where
  | needMore
  | found (host : Bytes)
  | invalid (reason : String)
  deriving DecidableEq

namespace ClientHelloStatus

/-- A vector with a length of one byte. -/
def vec8 (missing truncated : String) (body : Bytes) (k : Bytes → Bytes → ClientHelloStatus) :
    ClientHelloStatus :=
  match body with
  | len :: rest =>
    if rest.length < len.toNat then invalid truncated
    else k (rest.take len.toNat) (rest.drop len.toNat)
  | [] => invalid missing

/-- A vector with a length of two bytes. -/
def vec16 (missing truncated : String) (body : Bytes) (k : Bytes → Bytes → ClientHelloStatus) :
    ClientHelloStatus :=
  match body with
  | hi :: lo :: rest =>
    let len := fromBeBytes hi lo
    if rest.length < len then invalid truncated
    else k (rest.take len) (rest.drop len)
  | _ => invalid missing

end ClientHelloStatus

open ClientHelloStatus

/-- The verdict on a host name of the list. -/
def hostStatus (name : Bytes) : ClientHelloStatus :=
  match fromUtf8 name with
  | some host => if host = [] then invalid "invalid SNI hostname" else found host
  | none => invalid "invalid SNI hostname"

/-- The loop over the names of a server name list. -/
def parseNames (names : Bytes) : ClientHelloStatus :=
  match _h : names with
  | [] => invalid "DNS SNI name not found"
  | nameType :: hi :: lo :: rest =>
    let nameLen := fromBeBytes hi lo
    if rest.length < nameLen then invalid "truncated SNI host"
    else if nameType = 0 then hostStatus (rest.take nameLen)
    else parseNames (rest.drop nameLen)
  | _ => invalid "truncated SNI name"
termination_by names.length
decreasing_by
  simp only [List.length_drop, List.length_cons]
  omega

def parseSniExtension (data : Bytes) : ClientHelloStatus :=
  vec16 "truncated SNI extension" "truncated SNI list" data fun names _ => parseNames names

/-- The loop over the extensions. -/
def parseExtensions (extensions : Bytes) : ClientHelloStatus :=
  match _h : extensions with
  | [] => invalid "TLS SNI extension not found"
  | t1 :: t2 :: l1 :: l2 :: rest =>
    let extType := fromBeBytes t1 t2
    let extLen := fromBeBytes l1 l2
    if rest.length < extLen then invalid "truncated extension"
    else if extType = 0 then parseSniExtension (rest.take extLen)
    else parseExtensions (rest.drop extLen)
  | _ => invalid "truncated extension header"
termination_by extensions.length
decreasing_by
  simp only [List.length_drop, List.length_cons]
  omega

def parseClientHelloBody (body : Bytes) : ClientHelloStatus :=
  if body.length < 34 then invalid "truncated ClientHello"
  else
    vec8 "missing session id length" "truncated session id" (body.drop 34) fun _ body =>
    vec16 "missing cipher suites length" "truncated cipher suites" body fun _ body =>
    vec8 "missing compression methods length" "truncated compression methods" body fun _ body =>
    vec16 "missing extensions length" "truncated extensions" body fun extensions _ =>
    parseExtensions extensions

/-- A length of three bytes. -/
def helloLength (a b c : UInt8) : Nat := a.toNat * 65536 + b.toNat * 256 + c.toNat

def parseRecord : Bytes → ClientHelloStatus
  | msgType :: a :: b :: c :: rest =>
    if msgType ≠ 1 then invalid "not a TLS ClientHello"
    else if rest.length < helloLength a b c then needMore
    else parseClientHelloBody (rest.take (helloLength a b c))
  | _ => invalid "not a TLS ClientHello"

def parseTlsSni : Bytes → ClientHelloStatus
  | contentType :: _ :: _ :: hi :: lo :: rest =>
    if contentType ≠ 22 then invalid "not a TLS handshake record"
    else if rest.length < fromBeBytes hi lo then needMore
    else parseRecord (rest.take (fromBeBytes hi lo))
  | _ => needMore

/-- The limit comes before the parser. -/
def checkClientHello (buf : Bytes) : Option (Except Error (Target × Bytes)) :=
  if maxClientHello < buf.length then some (.error (.msg "TLS ClientHello exceeds 65536 bytes"))
  else match parseTlsSni buf with
    | needMore => none
    | found host => some (.ok ({ host, port := 443 }, buf))
    | invalid reason => some (.error (.msg reason))

def readHttpsTarget : Io (Target × Bytes) :=
  .readUntil .inbound 1024 maxClientHello
    (.msg "connection closed before TLS ClientHello")
    (.msg "TLS ClientHello exceeds 65536 bytes") checkClientHello []

end NyaSniProxy
