import StreamGauge.Region.Dump

/-!
# Dump folders

A `Folder` holds the dump files written to one directory without subdirectories. Writing to a path
through a directory that is not there fails and leaves the folder as it was.
-/

namespace StreamGauge

/-- Files of one directory, each name once. -/
structure Folder where
  files : List (String × String)
deriving DecidableEq, Repr

namespace Folder

/-- A directory without files. -/
def empty : Folder := ⟨[]⟩

/-- The most bytes of a path. -/
def maxPathBytes : Nat := 4095

/-- Whether a file can have this name. -/
def isFileName (name : String) : Bool :=
  name ≠ ".." && name.utf8ByteSize ≤ 255 && !name.contains '\x00'

/-- The name of a file of this directory that a path leads to. Empty parts and points between
slashes lead nowhere else, but a path that begins with a slash leaves the directory, and one that
is too long leads nowhere. -/
def fileName? (path : String) : Option String :=
  let parts := (path.toList.splitOn '/').map String.ofList
  if maxPathBytes < path.utf8ByteSize ∨ path.startsWith "/" then none
  else if parts.getLast? = some "" ∨ parts.getLast? = some "." then none
  else
    match parts.filter fun part => part ≠ "" && part ≠ "." with
    | [name] => if isFileName name then some name else none
    | _ => none

/-- Writes a file, replacing what it held. -/
def write? (f : Folder) (path text : String) : Option Folder :=
  (fileName? path).map fun name => ⟨f.files.filter (·.1 ≠ name) ++ [(name, text)]⟩

/-- The files in the order of their names. -/
def sorted (f : Folder) : List (String × String) := f.files.mergeSort fun a b => a.1 ≤ b.1

end Folder

end StreamGauge
