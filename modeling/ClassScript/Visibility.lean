import ClassScript.Hierarchy
import ClassScript.Options
import ClassScript.Script.Quoted

/-!
Which symbols stay visible outside the program.

A package is exported when the options list it or its `package-info` is marked; a class when
it is listed or marked, or is public in an exported package; a member when it is marked, or
is public or protected in an exported class. Verdicts are remembered for the run.
-/

namespace ClassScript

inductive Symbol where
  | package (name : String)
  | classDecl (name : String)
  | field (owner name : String)
  | method (owner name descriptor : String)
  deriving DecidableEq, Repr

/-- The classes and the packages that the options export. -/
structure ExportList where
  classes : List String
  packages : List String
  deriving DecidableEq, Repr

namespace ExportList

/-- The name without the slash at its end, if it has one. -/
def package? (name : String) : Option String :=
  match name.toList.reverse with
  | '/' :: r => some (String.ofList r.reverse)
  | _ => none

def ofNames (names : List String) : ExportList :=
  ⟨names.filter fun n => (package? n).isNone, names.filterMap package?⟩

end ExportList

/-- What a run has learnt: the classes it has met and the verdicts it has passed. -/
structure Knowledge where
  classes : Cache := {}
  verdicts : Table Symbol Bool := {}

abbrev Query := ExceptT LoadError (StateM Knowledge)

namespace Query

/-- A look-up of classes, within a query. -/
def ofLookup {α : Type} (l : Lookup α) : Query α := fun k =>
  let (a, classes) := l k.classes
  (a, { k with classes })

/-- The verdict on a symbol, from memory or passed now. -/
def memoized (s : Symbol) (judge : Query Bool) : Query Bool := do
  match (← get).verdicts.get? s with
  | some known => return known
  | none =>
    let verdict ← judge
    modify fun k => { k with verdicts := k.verdicts.insert s verdict }
    return verdict

end Query

/-- The library and the symbols that the options export. -/
structure Exports where
  library : Library
  listed : ExportList

namespace Exports

def isMarked (annotations : List Annotation) : Bool :=
  annotations.any (·.typeName == Marker.exported)

def find (e : Exports) (name : String) : Query (Option ClassDecl) :=
  Query.ofLookup (e.library.find name)

def infoName (package : String) : String :=
  if package.isEmpty then "package-info" else package ++ "/package-info"

def isExportedPackage (e : Exports) (package : String) : Query Bool :=
  Query.memoized (.package package) do
    if e.listed.packages.contains package then return true
    match ← e.find (infoName package) with
    | some c => return isMarked c.annotations
    | none => return false

def isExportedClass (e : Exports) (c : ClassDecl) : Query Bool :=
  Query.memoized (.classDecl c.name) do
    if e.listed.classes.contains c.name || isMarked c.annotations then return true
    if !c.isPublic then return false
    e.isExportedPackage ((Name.package? c.name).getD "")

def isExportedField (e : Exports) (c : ClassDecl) (f : FieldDecl) : Query Bool :=
  Query.memoized (.field c.name f.name) do
    if isMarked f.annotations then return true
    if Access.meets f.access Access.visible then e.isExportedClass c else return false

def isExportedMethod (e : Exports) (c : ClassDecl) (m : MethodDecl) : Query Bool :=
  Query.memoized (.method c.name m.name m.descriptor) do
    if isMarked m.annotations then return true
    if Access.meets m.access Access.visible then e.isExportedClass c else return false

end Exports

end ClassScript
