import NyaSniProxy.Error
import NyaSniProxy.Library.Interaction
import NyaSniProxy.Library.Net
import NyaSniProxy.Library.Path
import NyaSniProxy.Library.Search

/-!
# The hosts file

The program keeps one block of the hosts file in sync, between two marks. `replaceManagedBlock`
says what the file becomes; `syncHosts` reads it and writes it back through a temporary file.
-/

namespace NyaSniProxy

open Text Interaction

def beginMark : Bytes := ascii "# BEGIN nyasniproxy"
def endMark : Bytes := ascii "# END nyasniproxy"

def renderBlock (ip : Net.IpAddr) (names : List Bytes) (newline : Bytes) : Bytes :=
  let entry :=
    if names = [] then []
    else ip.display ++ names.flatMap (fun name => space :: name) ++ newline
  beginMark ++ newline ++ entry ++ endMark ++ newline

def skipEol (text : Bytes) (offset : Nat) : Nat :=
  let rest := text.drop offset
  if crlf <+: rest then offset + 2
  else if [lf] <+: rest then offset + 1
  else offset

/-- What is pushed after a text so that it ends with a line feed. -/
def missingLf (text : Bytes) : Bytes := if text.getLast? = some lf then [] else [lf]

def splice (original : Bytes) (start after : Nat) (block : Bytes) : Bytes :=
  original.take start ++ block ++ missingLf block ++ original.drop after

/-- The line ending of a text: CRLF if it contains one. -/
def newlineOf (original : Bytes) : Bytes := if crlf <:+: original then crlf else [lf]

def appendBlock (original block : Bytes) : Bytes :=
  let out := if original = [] then [] else original ++ missingLf original ++ newlineOf original
  out ++ block ++ missingLf block

def replaceManagedBlock (original block : Bytes) : Bytes :=
  match Search.find beginMark original, Search.find endMark original with
  | some start, some stop =>
    if stop > start then
      splice original start (skipEol original (stop + endMark.length)) block
    else splice original start original.length block
  | some start, none => splice original start original.length block
  | none, _ => appendBlock original block

/-! ## Writing the file -/

/-- Access rights of a file. -/
abbrev Permissions := Nat

inductive FsCall where
  | readToString (path : FsPath)
  | write (path : FsPath) (content : Bytes)
  | metadata (path : FsPath)
  | setPermissions (path : FsPath) (permissions : Permissions)
  | rename (source target : FsPath)
  | removeFile (path : FsPath)

abbrev FsReply : FsCall → Type
  | .readToString _ => Except Fault Bytes
  | .metadata _ => Except Fault Permissions
  | .write .. | .setPermissions .. | .rename .. | .removeFile _ => Except Fault Unit

abbrev Fs (α : Type) := Prog FsCall FsReply Error α

/-- The removal of the temporary file; its result is dropped. -/
def cleanup (tmp : FsPath) : Fs Unit := .call (.removeFile tmp) fun _ => .ret ()

/-- The temporary file, next to the file itself. -/
def tmpPath (path : FsPath) (fileName : Bytes) : FsPath :=
  let dir : FsPath := match path.parent with
    | some dir => if dir.absolute = false ∧ dir.components = [] then .current else dir
    | none => .current
  dir.join (dot :: fileName ++ ascii ".nyasniproxy.tmp")

def writeAtomic (path : FsPath) (content : Bytes) : Fs Unit :=
  match path.fileName with
  | none => .fail (.msg "hosts path has no file name")
  | some fileName =>
    let tmp := tmpPath path fileName
    let install : Fs Unit := .call (.rename tmp path) fun
      | .ok () => .ret ()
      | .error _ => .call (.write path content) fun result => do
        cleanup tmp
        .ofExcept (result.mapError fun e => .context "write hosts " path.display (.fault e))
    .call (.write tmp content) fun
      | .error e => do
        cleanup tmp
        .fail (.context "write temp hosts " tmp.display (.fault e))
      | .ok () => .call (.metadata path) fun
        | .error _ => install
        | .ok permissions => .call (.setPermissions tmp permissions) fun
          | .error e => do
            cleanup tmp
            .fail (.within "copy hosts permissions" (.fault e))
          | .ok () => install

/-- The result says whether the file was written. -/
def syncHosts (path : FsPath) (ip : Net.IpAddr) (names : List Bytes) : Fs Bool :=
  .call (.readToString path) fun
    | .error e => .fail (.context "read hosts " path.display (.fault e))
    | .ok original => do
      let block := renderBlock ip names (newlineOf original)
      let updated := replaceManagedBlock original block
      if updated = original then return false
      writeAtomic path updated
      return true

end NyaSniProxy
