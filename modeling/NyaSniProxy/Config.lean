import NyaSniProxy.Error
import NyaSniProxy.Library.Net
import NyaSniProxy.Library.Path
import Mathlib.Data.List.AList

/-!
# The configuration file

`FileConfig` is the YAML document. Deserialization belongs to `serde_yaml`, a parameter of
`parseYaml`; what the visitors of this program add to it, and the checks made afterwards, are here.

A `HashMap` is an association list without repeated keys: its entries in iteration order. The
order is arbitrary, so whatever depends on it must be shown not to.
-/

namespace NyaSniProxy

open Text

/-- The entries of a hash map in iteration order. -/
abbrev HashMap (κ ν : Type) := AList fun _ : κ => ν

instance instDecidableNodupKeys {κ ν : Type} [DecidableEq κ]
    (entries : List (Sigma fun _ : κ => ν)) : Decidable entries.NodupKeys :=
  inferInstanceAs (Decidable entries.keys.Nodup)

inductive HostsSetting where
  | disabled
  | path (path : FsPath)
  deriving DecidableEq

/-- Proxy names in the order they are tried. There is at least one, and none is empty. -/
structure ProxyRef where
  names : List Bytes
  nonempty : names ≠ []
  named : ∀ name ∈ names, name ≠ []
  deriving DecidableEq

/-- A YAML value as the visitor of a rule sees it. -/
inductive ProxyNode where
  | str (value : Bytes)
  | seq (names : List Bytes)

def ProxyRef.deserialize : ProxyNode → Except Error ProxyRef
  | .str value =>
    if h : value = [] then .error (.msg "proxy name must not be empty")
    else .ok ⟨[value], by simp, by simpa using h⟩
  | .seq names =>
    if hn : ∀ name ∈ names, name ≠ [] then
      if h : names = [] then .error (.msg "proxy list must not be empty")
      else .ok ⟨names, h, hn⟩
    else .error (.msg "proxy name must not be empty")

structure FileConfig where
  listen : Option Net.IpAddr
  hosts : Option HostsSetting
  refresh : Option UInt64
  http : Option Bool
  proxies : HashMap Bytes Bytes
  rules : HashMap Bytes ProxyRef

/-- The key of the default rule, in any letter case. -/
def isDefaultKey (key : Bytes) : Bool := eqIgnoreAsciiCase key (ascii "default")

def parseYaml (deserialize : Bytes → Option FileConfig) (text : Bytes) :
    Except Error FileConfig := do
  let some cfg := deserialize text | throw (.within "parse YAML config" .parse)
  if cfg.proxies.entries.isEmpty then
    throw (.msg "proxies must not be empty")
  if cfg.proxies.keys.any fun name => name.isEmpty then
    throw (.msg "proxy name must not be empty")
  if !cfg.rules.keys.any isDefaultKey then
    throw (.msg "rules.default is required")
  return cfg

structure StaticSettings where
  listen : Net.IpAddr
  http : Bool
  hostsPath : Option FsPath
  refresh : UInt64

/-- What the command line sets. -/
structure CliOverrides where
  listen : Option Net.IpAddr
  hosts : Option FsPath
  noHosts : Bool
  noHttp : Bool
  refresh : Option UInt64

def defaultListen : Net.IpAddr := .v4 127 0 0 2
def defaultRefreshSecs : UInt64 := 30

/-- `defaultHostsPath` is where the system has its hosts file. -/
def mergeSettings (defaultHostsPath : FsPath) (yaml : FileConfig) (cli : CliOverrides) :
    Except Error StaticSettings := do
  let listen := (cli.listen <|> yaml.listen).getD defaultListen
  if !listen.isLoopback then
    throw (.bail "listen must be a loopback address, got " listen.display)
  let http := if cli.noHttp then false else yaml.http.getD true
  let hostsPath :=
    if cli.noHosts then none
    else match cli.hosts with
      | some path => some path
      | none =>
        match yaml.hosts with
        | some .disabled => none
        | some (.path path) => some path
        | none => some defaultHostsPath
  let refreshSecs := (cli.refresh <|> yaml.refresh).getD defaultRefreshSecs
  if refreshSecs = 0 then
    throw (.msg "refresh must be greater than 0 seconds")
  return { listen, http, hostsPath, refresh := refreshSecs }

/-- The settings `warn_ignored_runtime_changes` warns about. -/
def ignoredRuntimeChanges (prev next : FileConfig) : List String :=
  (if prev.listen ≠ next.listen then ["listen"] else []) ++
  (if prev.http ≠ next.http then ["http"] else []) ++
  (if prev.hosts ≠ next.hosts then ["hosts"] else []) ++
  (if prev.refresh ≠ next.refresh then ["refresh"] else [])

variable {deserialize : Bytes → Option FileConfig} {text : Bytes} {cfg : FileConfig}

/-- What `parse_yaml` has checked. -/
theorem parseYaml_eq_ok (h : parseYaml deserialize text = .ok cfg) :
    deserialize text = some cfg ∧ cfg.proxies.entries ≠ [] ∧ [] ∉ cfg.proxies.keys ∧
      ∃ key ∈ cfg.rules.keys, isDefaultKey key = true := by
  unfold parseYaml at h
  split at h
  · next cfg' hd =>
    simp only [bind, Except.bind, pure, Except.pure, throw, throwThe,
      MonadExceptOf.throw] at h
    split_ifs at h with hp hn hr
    obtain rfl := Except.ok.inj h
    refine ⟨hd, by simpa using hp, ?_, by simpa using hr⟩
    simpa using hn
  · cases h

/-- What `merge_settings` has checked. -/
theorem mergeSettings_eq_ok {defaultHostsPath : FsPath} {cli : CliOverrides}
    {settings : StaticSettings} (h : mergeSettings defaultHostsPath cfg cli = .ok settings) :
    settings.listen.isLoopback = true ∧ settings.refresh ≠ 0 := by
  unfold mergeSettings at h
  simp only [bind, Except.bind, pure, Except.pure, throw, throwThe, MonadExceptOf.throw] at h
  split_ifs at h with hlisten hrefresh
  all_goals
    obtain rfl := Except.ok.inj h
    exact ⟨by simpa using hlisten, hrefresh⟩

end NyaSniProxy
