import ClassScript.ClassFile.Decl
import ClassScript.Name
import ClassScript.Resources
import ClassScript.Table

/-!
The classes there are, and the memory of those looked up so far.

A class is loaded at most once: the cache remembers it, and remembers as well that a name
has no class. A load that fails leaves nothing behind.
-/

namespace ClassScript

/-- Why a class could not be had. -/
inductive LoadError where
  | classNotFound (name : String)
  | parse (resource : String) (error : ParseError)
  | io (resource : String) (fault : IoFault)
  deriving DecidableEq, Repr

def LoadError.message : LoadError → String
  | classNotFound name => "can't find class " ++ name
  | parse resource e => resource ++ ": " ++ e.message
  | io resource fault => "can't read " ++ resource ++ ": " ++ fault.message

/-- The classes by name, and a bound on how many names one class can lead to. -/
structure Library where
  load : String → Except LoadError (Option ClassDecl)
  reach : Nat

namespace Library

/-- Arrays have no class file. -/
def isArray (name : String) : Bool := name.toList.head? == some '['

/-- The class that the resources hold under a name. -/
def loadFrom (r : Resources) (name : String) : Except LoadError (Option ClassDecl) :=
  if isArray name then .ok none
  else
    let resource := Name.resource name
    match r.get resource with
    | .error fault => .error (.io resource fault)
    | .ok none => .ok none
    | .ok (some data) =>
      match ClassDecl.parse data with
      | .ok c => .ok (some c)
      | .error e => .error (.parse resource e)

/-- Every name that a class mentions is spelled in the bytes of its file, so there are no
more of them than bytes. -/
def ofResources (r : Resources) : Library := ⟨loadFrom r, r.size + 1⟩

end Library

/-- The names looked up so far, with the class found or with none. -/
abbrev Cache := Table String (Option ClassDecl)

abbrev Lookup := ExceptT LoadError (StateM Cache)

namespace Library

/-- The class of a name, from the cache or loaded into it. -/
def find (lib : Library) (name : String) : Lookup (Option ClassDecl) := do
  match (← get).get? name with
  | some known => return known
  | none =>
    let loaded ← liftExcept (lib.load name)
    modify (·.insert name loaded)
    return loaded
where
  liftExcept {α : Type} : Except LoadError α → Lookup α
    | .ok a => return a
    | .error e => throw e

/-- The class of a name that has to have one. -/
def require (lib : Library) (name : String) : Lookup ClassDecl := do
  match ← lib.find name with
  | some c => return c
  | none => throw (.classNotFound name)

end Library

end ClassScript
