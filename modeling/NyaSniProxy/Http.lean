import NyaSniProxy.Io

/-!
# HTTP request heads

The target of a plain HTTP connection is the value of the first Host field of its request head.
-/

namespace NyaSniProxy

open Text

def maxHttpHeader : Nat := 64 * 1024

/-- Offset of the empty line that ends a head. -/
def headerEnd (buf : Bytes) : Option Nat := Search.find (crlf ++ crlf) buf

def readUntilHeaderEnd : Io Bytes :=
  .readUntil .inbound 1024 maxHttpHeader
    (.msg "connection closed before HTTP header")
    (.msg "HTTP header exceeds 65536 bytes")
    (fun buf => (headerEnd buf).map fun _ => .ok buf) []

/-- The trimmed value of the first Host field among the lines after the request line. -/
def hostField : List Bytes → Option Bytes
  | [] => none
  | line :: lines =>
    match splitOnce colon line with
    | none => hostField lines
    | some (name, value) =>
      if eqIgnoreAsciiCase (trim name) (ascii "host") then some (trim value) else hostField lines

def parseHttpHost (header : Bytes) : Except Error Target := do
  let some stop := headerEnd header | throw (.msg "incomplete HTTP header")
  let some text := fromUtf8 (header.take stop)
    | throw (.within "HTTP header is not valid UTF-8" .parse)
  match hostField ((Search.splitOn crlf text).drop 1) with
  | some value => parseHostPort value 80
  | none => throw (.msg "HTTP Host header not found")

def readHttpTarget : Io (Target × Bytes) := do
  let header ← readUntilHeaderEnd
  let target ← .ofExcept (parseHttpHost header)
  return (target, header)

end NyaSniProxy
