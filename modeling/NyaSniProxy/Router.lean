import NyaSniProxy.Config
import NyaSniProxy.Proxy.Config
import Mathlib.Data.List.Sort

/-!
# Routing

`Runtime.fromYaml` turns a configuration into a router, a list of hostnames for the hosts file and a
fingerprint. It goes through the rules once, in the iteration order of their hash map, with four
accumulators. `connectWithFallback` tries the hops of a route in order.
-/

namespace NyaSniProxy

open Text

structure Hop where
  name : Bytes
  proxy : ProxyConfig
  deriving DecidableEq

structure Router where
  rules : HashMap Bytes (List Hop)
  default : List Hop

def Router.lookup (self : Router) (host : Bytes) : List Hop :=
  (self.rules.lookup (toAsciiLowercase (trimEndMatches dot host))).getD self.default

structure Runtime where
  router : Router
  hostnames : List Bytes
  fingerprint : UInt64

/-! ## The fingerprint -/

/-- Bytes that hashing a `str` feeds to the hasher. -/
def hashStr (s : Bytes) : Bytes := s ++ [0xff]

/-- Bytes that hashing a length feeds to the hasher: a `usize`, little-endian. -/
def hashLen (n : Nat) : Bytes := (List.range 8).map fun i => (n / 256 ^ i % 256).toUInt8

/-- Bytes that hashing a `Vec<String>` feeds to the hasher. -/
def hashVec (names : List Bytes) : Bytes := hashLen names.length ++ names.flatMap hashStr

/-- Stable sort by a key, as `slice::sort_by_key`. -/
def sortByKey {α : Type} (key : α → Bytes) (xs : List α) : List α :=
  xs.insertionSort fun a b => key a ≤ key b

/-- Everything `routing_fingerprint` feeds to the hasher. -/
def fingerprintStream (yaml : FileConfig) : Bytes :=
  (sortByKey (·.1) yaml.proxies.entries).flatMap (fun p => hashStr p.1 ++ hashStr p.2) ++
  (sortByKey (fun r => toAsciiLowercase r.1) yaml.rules.entries).flatMap
    (fun r => hashStr (toAsciiLowercase r.1) ++ hashVec r.2.names)

/-- `hash` is the hash of the standard library's `DefaultHasher`. -/
def routingFingerprint (hash : Bytes → UInt64) (yaml : FileConfig) : UInt64 :=
  hash (fingerprintStream yaml)

/-! ## Building the router -/

/-- A rule of the configuration: its key and its proxies. -/
abbrev Rule := Sigma fun _ : Bytes => ProxyRef

def parseProxies (parseUrl : Bytes → Option Url) (proxies : HashMap Bytes Bytes) :
    Except Error (HashMap Bytes ProxyConfig) :=
  proxies.entries.foldlM (fun parsed p => do
    return parsed.insert p.1 (← ProxyConfig.parse parseUrl p.2)) ∅

def resolveName (proxies : HashMap Bytes ProxyConfig) (name : Bytes) : Except Error Hop :=
  match proxies.lookup name with
  | some proxy => .ok { name, proxy }
  | none => .error (.bail "unknown proxy " name)

def resolve (proxies : HashMap Bytes ProxyConfig) (names : ProxyRef) : Except Error (List Hop) :=
  names.names.mapM (resolveName proxies)

/-- The variables of the loop over the rules. -/
structure Build where
  rules : HashMap Bytes (List Hop)
  default : Option (List Hop)
  hostnames : List Bytes
  seen : List Bytes

def Build.empty : Build := { rules := ∅, default := none, hostnames := [], seen := [] }

/-- `seen.insert`, and the host's spelling if the host is new. -/
def Build.see (b : Build) (key : Bytes) : Build :=
  if toAsciiLowercase key ∈ b.seen then b
  else { b with seen := toAsciiLowercase key :: b.seen, hostnames := b.hostnames ++ [key] }

/-- One turn of the loop. -/
def addRule (proxies : HashMap Bytes ProxyConfig) (b : Build) (rule : Rule) :
    Except Error Build := do
  if isDefaultKey rule.1 then
    return { b with default := some (← resolve proxies rule.2) }
  if !isValidHostname rule.1 then
    throw (.bail "invalid hostname in rules: " rule.1)
  let hops ← resolve proxies rule.2
  let b := b.see rule.1
  return { b with rules := b.rules.insert (toAsciiLowercase rule.1) hops }

def Runtime.fromYaml (parseUrl : Bytes → Option Url) (hash : Bytes → UInt64)
    (yaml : FileConfig) : Except Error Runtime := do
  let proxies ← parseProxies parseUrl yaml.proxies
  let b ← yaml.rules.entries.foldlM (addRule proxies) .empty
  let some default := b.default | throw (.msg "rules.default is required")
  if default = [] then
    throw (.msg "rules.default must not be empty")
  return {
    router := { rules := b.rules, default }
    hostnames := sortByKey toAsciiLowercase b.hostnames
    fingerprint := routingFingerprint hash yaml }

/-- Try the hops in order; `connect` is one attempt. -/
def connectWithFallback {m : Type → Type} [Monad m] {α : Type}
    (connect : Hop → Target → m (Except Error α)) (hops : List Hop) (target : Target) :
    m (Except Error α) :=
  go hops none
where
  go : List Hop → Option Error → m (Except Error α)
    | [], lastErr => return .error (lastErr.getD (.msg "no proxy candidates"))
    | hop :: hops, _ => do
      match ← connect hop target with
      | .ok stream => return .ok stream
      | .error err => go hops (some err)

end NyaSniProxy
