import ClassScript.Archive.Directory
import ClassScript.Archive.Inflate
import ClassScript.Resources

/-!
Files of an archive.

The directory of an archive names its files. The data of a file comes after a record of its
own, plain or deflated, and has to agree with the checksum in the directory.
-/

namespace ClassScript.Archive

/-- The entries by name: of two under one name the later counts, in the place of the
earlier. -/
def distinct (entries : List Entry) : List Entry :=
  entries.foldl (fun kept e =>
    if kept.any (·.name == e.name) then kept.map fun k => if k.name == e.name then e else k
    else kept ++ [e]) []

/-- A folder is an entry whose name ends like a path to a folder. -/
def isFolder (name : String) : Bool :=
  match name.toList.getLast? with
  | some c => c == '/' || c == '\\'
  | none => false

inductive Method where
  | stored | deflated
  deriving DecidableEq, Repr

def method? : Nat → Option Method
  | 0 => some .stored
  | 8 => some .deflated
  | _ => none

def unpack (m : Method) (data : Bytes) : Except IoFault Bytes :=
  match m with
  | .stored => .ok data
  | .deflated =>
    match Inflate.inflate data with
    | .ok out => .ok out
    | .error .ended => .error .unexpectedEof
    | .error .corrupt => .error .invalidInput

/-- Reads the record in front of data up to its end. -/
def dataHeader : Read Unit := do
  expect dataMark
  skip 22
  let nameLength ← low 2
  let fieldsLength ← low 2
  modify fun i => ⟨i.offset + nameLength + fieldsLength, i.rest.drop (nameLength + fieldsLength)⟩

/-- The data of an entry, still packed; it may reach over the end of the archive. -/
def packed (bs : Bytes) (e : Entry) : Except Failure Bytes :=
  readAt (do dataHeader; return (← get).rest.take e.packedSize) bs e.start

def ioFault : Failure → IoFault
  | .endOfData => .unexpectedEof
  | .fault _ => .invalidData

/-- The file of an entry; folders have none. -/
def file (bs : Bytes) (e : Entry) : Except IoFault (Option (String × Bytes)) := do
  if e.isLocked then throw .invalidData
  let data ← (packed bs e).mapError ioFault
  match method? e.method with
  | none => throw .invalidData
  | some m =>
    if isFolder e.name then return none
    let data ← unpack m data
    if Checksum.of data = e.checksum then return some (e.name, data) else throw .invalidData

/-- The files of an archive under their names. -/
def files (bs : Bytes) : Except IoFault (List (String × Bytes)) := do
  let entries ← (directory bs).mapError ioFault
  return (← (distinct entries).mapM (file bs)).filterMap id

/-! ### Classes of an archive -/

def classExtension : List Char := ".class".toList

/-- The class of a file name; descriptions of packages and modules are none. -/
def className? (name : String) : Option String :=
  let backwards := name.toList.reverse
  if classExtension.reverse.isPrefixOf backwards then
    let base := backwards.drop classExtension.length
    let isInfo (suffix : String) : Bool := suffix.toList.reverse.isPrefixOf base
    if isInfo "package-info" || isInfo "module-info" then none
    else some (String.ofList base.reverse)
  else none

/-- The classes among the files, in the order of the file names. -/
def classNames (files : List (String × Bytes)) : List String :=
  ((files.map Prod.fst).mergeSort fun a b => a ≤ b).filterMap className?

end ClassScript.Archive
