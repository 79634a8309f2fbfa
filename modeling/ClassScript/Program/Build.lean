import ClassScript.Define
import ClassScript.Program
import ClassScript.References
import ClassScript.Script.Comments
import ClassScript.Text.Utf8

/-!
Making a program from its root classes.

Classes are taken up in the order of their discovery: the roots first, then whatever the code
of a class refers to. When none waits any more, the resources that the classes and the
options name are fetched.
-/

namespace ClassScript

/-- Why there is no program. -/
inductive ProgramError where
  | load (error : LoadError)
  | resourceNotFound (name : String)
  /-- A class could not be defined; `tail` is the end of what was written of it. -/
  | generation (name tail : String) (error : GenerationError)
  | noExports
  deriving DecidableEq, Repr

def ProgramError.message : ProgramError → String
  | load e => e.message
  | resourceNotFound name => "can't find resource " ++ name
  | generation name tail e =>
    "can't generate " ++ name ++ ": " ++ e.message ++ "; output ends with " ++ Escaped.text tail
  | noExports => "library translation exports no symbols"

namespace Program

/-! ### Discovery -/

/-- A program under way. -/
structure Progress where
  knowledge : Knowledge := {}
  exporter : Exporter
  references : References := {}
  invokers : Invokers := {}
  /-- The scripts to include, each once. -/
  scripts : List String := []
  items : Array Item := #[]

namespace Progress

/-- Meets a request of generated code. -/
def meet (s : Progress) : Request → Progress
  | .reference name => { s with references := s.references.add name }
  | .invoker method => { s with invokers := s.invokers.add method }
  | .script resource =>
    if s.scripts.contains resource then s else { s with scripts := s.scripts ++ [resource] }

/-- Leaves a class to others. -/
def skip (s : Progress) (name : String) (stub : Item) : Progress :=
  { s with references := s.references.mark name .skipped, items := s.items.push stub }

/-- The parents of a class met so far: its superclass and then its interfaces. -/
def parents (s : Progress) (name : String) : List String :=
  match s.knowledge.classes.get? name with
  | some (some c) => c.superName.toList ++ c.interfaces
  | _ => []

end Progress

/-- Adds the definition of a class. -/
def define (g : Generator) (mode : LinkMode) (name : String) (c : ClassDecl) (s : Progress) :
    Except ProgramError Progress :=
  let (result, session) := g.define c { knowledge := s.knowledge, exporter := s.exporter }
  let pieces := session.pieces.toList
  match result with
  | .error e =>
    .error (.generation name (Piece.renderAll { indent := indent mode } pieces).tail e)
  | .ok hasInitializer =>
    let s := session.requests.foldl Progress.meet
      { s with knowledge := session.knowledge, exporter := session.exporter }
    let call := if hasInitializer then some (ClassDecl.initializer c.name) else none
    .ok { s with
      references := s.references.mark name (.processed call)
      items := s.items.push (.defined name pieces) }

/-- Takes up one class. -/
def takeUp (g : Generator) (o : Options) (name : String) (s : Progress) :
    Except ProgramError Progress :=
  if g.scope.isExternal name then .ok (s.skip name (.linked name))
  else
    let (found, knowledge) := g.exports.find name s.knowledge
    let s := { s with knowledge }
    match found with
    | .error e => .error (.load e)
    | .ok (some c) => define g o.mode name c s
    | .ok none =>
      if o.roots.contains name then .error (.load (.classNotFound name))
      else .ok (s.skip name (.lazy name))

/-- Takes up classes until none waits, at most `fuel` of them. -/
def discover (g : Generator) (o : Options) : Nat → Progress → Except ProgramError Progress
  | 0, s => .ok s
  | fuel + 1, s =>
    match s.references.next with
    | (none, references) => .ok { s with references }
    | (some name, references) => do
      discover g o fuel (← takeUp g o name { s with references })

/-- Discovery starts from the roots; a complete program also has the classes that its
support code refers to. -/
def start (o : Options) : Progress :=
  let names := if o.mode = .standalone then o.fixed ++ o.roots else o.roots
  { exporter := .start o.obfuscation, references := names.foldl References.add {} }

/-- Every name that a class refers to is spelled in a text of its constant pool, and a text
of at least three bytes spells two names at most; one more is that of the class of classes.
So no more classes can be discovered than these. -/
def bound (r : Resources) (o : Options) : Nat := o.fixed.length + o.roots.length + r.size + 2

/-! ### Assembly -/

def fetch (r : Resources) (name : String) : Except ProgramError Bytes :=
  match r.get name with
  | .error fault => .error (.load (.io name fault))
  | .ok none => .error (.resourceNotFound name)
  | .ok (some data) => .ok data

/-- The lines of a script, without comments and blank lines. -/
def scriptLines (data : Bytes) : List String := Lines.solid (Comments.strip (Utf8.text data))

/-- The program that the options ask for. -/
def build (r : Resources) (o : Options) : Except ProgramError Program := do
  let library := Library.ofResources r
  let g : Generator := ⟨⟨library, .ofNames o.exported⟩, ⟨o.mode, o.roots⟩⟩
  let s ← discover g o (bound r o) (start o)
  let scripts ← s.scripts.mapM fun name => return scriptLines (← fetch r name)
  let data ← o.resources.mapM fun name => return (name, ← fetch r name)
  if o.isLibrary && s.exporter.count = 0 then throw .noExports
  let (initializers, _) := s.references.flush s.parents
  return ⟨o.mode, s.items.toList, s.invokers, scripts.flatten, data, initializers, s.exporter⟩

end Program

end ClassScript
