import ChainFeed.Cli

/-!
# Paths

A command reads its files by path. A path is walked name by name from the working directory, or from the
root when it begins with a slash; each step needs a directory to start from.
-/

namespace ChainFeed.Rehearsal

/-- The files of a working directory, each under the names on the way to it. -/
abbrev Directory := List (List String × String)

def pathNames (path : String) : List String := path.splitOn "/"

def Directory.ofFiles (files : List (String × String)) : Directory :=
  files.map fun (path, text) => (pathNames path, text)

inductive Start where
  | workingDirectory
  /-- Above the working directory. -/
  | above
  | root
  deriving DecidableEq

structure Place where
  start : Start
  names : List String := []

namespace Place

def parent (p : Place) : Place :=
  match p.names, p.start with
  | [], .root => p
  | [], _ => ⟨.above, []⟩
  | names, start => ⟨start, names.dropLast⟩

def child (p : Place) (name : String) : Place := { p with names := p.names ++ [name] }

end Place

inductive Found where
  | file (text : String)
  | directory
  deriving DecidableEq

def commonDirectories : List (List String) := [[], ["dev"], ["etc"], ["tmp"]]

namespace Directory

/-- Outside of the working directory there are common directories and an empty device. -/
def at? (d : Directory) (p : Place) : Option Found :=
  match p.start with
  | .workingDirectory =>
    match d.find? (·.1 == p.names) with
    | some (_, text) => some (.file text)
    | none => if p.names.isEmpty || d.any (p.names.isPrefixOf ·.1) then some .directory else none
  | .above => if p.names.isEmpty then some .directory else none
  | .root =>
    if p.names = ["dev", "null"] then some (.file "")
    else if commonDirectories.contains p.names then some .directory
    else none

def maxName : Nat := 255

def maxPath : Nat := 4095

/-- One step of a walk. An empty name, as behind a slash at the end, stays where it is. -/
def step (d : Directory) (p : Place) (name : String) : Except FileFault Place :=
  if d.at? p ≠ some .directory then .error .notDirectory
  else if name = "" ∨ name = "." then .ok p
  else if name = ".." then .ok p.parent
  else if maxName < name.utf8ByteSize then .error .nameTooLong
  else if (d.at? (p.child name)).isNone then .error .missing
  else .ok (p.child name)

def read (d : Directory) (path : String) : Except FileFault String := do
  if path.isEmpty then throw .missing
  if maxPath < path.utf8ByteSize then throw .nameTooLong
  let start : Start := if path.startsWith "/" then .root else .workingDirectory
  let place ← (pathNames path).foldlM d.step ⟨start, []⟩
  match d.at? place with
  | some (.file text) => return text
  | some .directory => throw .isDirectory
  | none => throw .missing

end Directory

end ChainFeed.Rehearsal
