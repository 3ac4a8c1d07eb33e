import NyaSniProxy.Library.Text

/-!
# Paths

A path is given by its components, as paths are compared. Repeated separators and `.` between
components are gone; a leading `.` and every `..` are components like any other.
-/

structure FsPath where
  absolute : Bool
  components : List Text.Bytes
  deriving DecidableEq

namespace FsPath

open Text

/-- The current directory. -/
def current : FsPath := ⟨false, [ascii "."]⟩

/-- `Path::file_name`: the last component unless it is `..` or `.`. -/
def fileName (self : FsPath) : Option Bytes :=
  self.components.getLast?.filter fun name => name ≠ ascii ".." ∧ name ≠ ascii "."

/-- `Path::parent`. -/
def parent (self : FsPath) : Option FsPath :=
  if self.components = [] then none
  else some { self with components := self.components.dropLast }

/-- `Path::join` of a file name. -/
def join (self : FsPath) (name : Bytes) : FsPath :=
  { self with components := self.components ++ [name] }

def display (self : FsPath) : Bytes :=
  (if self.absolute then [47] else []) ++ [47].intercalate self.components

theorem fileName_eq_some {path : FsPath} {name : Bytes} (h : path.fileName = some name) :
    ∃ front, path.components = front ++ [name] := by
  obtain ⟨hlast, -⟩ := Option.filter_eq_some_iff.mp h
  exact List.getLast?_eq_some_iff.mp hlast

end FsPath
