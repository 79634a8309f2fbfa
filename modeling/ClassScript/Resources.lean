import ClassScript.Bytes

/-!
Where class files and data come from.

A source stores resources under their names, or is a directory tree, or refuses some names
outright. Resources are a list of sources; the first that has a name wins, and a fault of a
source ends the search.
-/

namespace ClassScript

/-- Why a source could not be read. -/
inductive IoFault where
  | notFound
  | permissionDenied
  | invalidData
  | invalidInput
  | isADirectory
  | notADirectory
  | invalidFilename
  | unexpectedEof
  deriving DecidableEq, Repr

def IoFault.name : IoFault → String
  | notFound => "NotFound"
  | permissionDenied => "PermissionDenied"
  | invalidData => "InvalidData"
  | invalidInput => "InvalidInput"
  | isADirectory => "IsADirectory"
  | notADirectory => "NotADirectory"
  | invalidFilename => "InvalidFilename"
  | unexpectedEof => "UnexpectedEof"

/-- The mark of a fault in a text. -/
def IoFault.message (f : IoFault) : String := "<io:" ++ f.name ++ ">"

/-- A name without the slashes in front. -/
def Resources.relative (name : String) : List Char := name.toList.dropWhile (· = '/')

/-- The parts of a path between its slashes. -/
def Resources.parts : List Char → List (List Char)
  | [] => [[]]
  | c :: cs =>
    if c = '/' then [] :: parts cs
    else
      match parts cs with
      | [] => [[c]]
      | p :: ps => (c :: p) :: ps

/-! A directory is the list of its files, each under the parts of its path; the directories
are the proper beginnings of these paths. -/

structure Directory where
  files : List (List (List Char) × Bytes)

namespace Directory

inductive Node where
  | file (data : Bytes)
  | folder
  | absent

def node (d : Directory) (path : List (List Char)) : Node :=
  match d.files.find? (·.1 == path) with
  | some (_, data) => .file data
  | none => if path.isEmpty || d.files.any (path.isPrefixOf ·.1) then .folder else .absent

/-- Empty parts and single dots stay where they are. -/
def stays (part : List Char) : Bool := part.isEmpty || part == ['.']

/-- A part of a path has at most 255 bytes. -/
def fits (part : List Char) : Bool := (String.ofList part).utf8ByteSize ≤ 255

/-- A whole path has at most 4095 bytes, of which the way to the tree takes sixteen. -/
def reaches (name : List Char) : Bool := (String.ofList name).utf8ByteSize ≤ 4079

/-- Follows the parts of a path from a place in the tree. -/
def follow (d : Directory) : List (List Char) → List (List Char) → Except IoFault (Option Bytes)
  | here, [] =>
    match d.node here with
    | .file data => .ok (some data)
    | .folder => .error .isADirectory
    | .absent => .ok none
  | here, part :: rest =>
    match d.node here with
    | .file _ => .error .notADirectory
    | .absent => .ok none
    | .folder =>
      if stays part then d.follow here rest
      else if fits part then d.follow (here ++ [part]) rest
      else .error .invalidFilename

/-- The file of a name. A name that steps upwards finds nothing. -/
def get (d : Directory) (name : String) : Except IoFault (Option Bytes) :=
  let relative := Resources.relative name
  let path := Resources.parts relative
  if path.contains ['.', '.'] then .ok none
  else if name.toList.contains '\x00' then .error .invalidInput
  else if reaches relative then d.follow [] path
  else .error .invalidFilename

/-- The directory that holds files under these names. -/
def ofFiles (files : List (String × Bytes)) : Directory :=
  ⟨files.map fun (name, data) =>
    ((Resources.parts (Resources.relative name)).filter (!stays ·), data)⟩

end Directory

inductive Source where
  /-- Resources by name; of two under one name the later counts. -/
  | stored (entries : List (String × Bytes))
  | directory (tree : Directory)
  | refusing (names : List String)

namespace Source

def get : Source → String → Except IoFault (Option Bytes)
  | stored entries, name =>
    .ok (entries.reverse.lookup (String.ofList (Resources.relative name)))
  | directory tree, name => tree.get name
  | refusing names, name => if names.contains name then .error .permissionDenied else .ok none

/-- The number of bytes stored. -/
def size : Source → Nat
  | stored entries => Bytes.total (entries.map Prod.snd)
  | directory tree => Bytes.total (tree.files.map Prod.snd)
  | refusing _ => 0

end Source

structure Resources where
  sources : List Source

namespace Resources

/-- The resource of a name in the first source that has it. -/
def find (name : String) : List Source → Except IoFault (Option Bytes)
  | [] => .ok none
  | s :: ss => do
    match ← s.get name with
    | some data => return some data
    | none => find name ss

def get (r : Resources) (name : String) : Except IoFault (Option Bytes) := find name r.sources

def size (r : Resources) : Nat := r.sources.foldr (fun s n => s.size + n) 0

end Resources

end ClassScript
