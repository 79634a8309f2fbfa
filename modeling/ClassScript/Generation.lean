import ClassScript.Dispatch
import ClassScript.Instruction.Decode
import ClassScript.Method.Frame
import ClassScript.Script.Definition

/-!
Generating code with other classes in view.

Generation asks about classes, exports symbols, and notes what the code needs besides itself:
each need is a request, kept in the order in which the code was generated. A generation that
fails leaves behind what it had done.
-/

namespace ClassScript

/-- Where in a class generation was. -/
inductive Site where
  | classDecl (name : String)
  | field (owner name : String)
  | method (owner name descriptor : String)
  | code (owner name descriptor : String) (pc : Nat)
  deriving DecidableEq, Repr

def Site.text : Site → String
  | classDecl name => name
  | field owner name => owner ++ "." ++ name
  | method owner name descriptor => owner ++ "." ++ name ++ descriptor
  | code owner name descriptor pc =>
    owner ++ "." ++ name ++ descriptor ++ " at pc " ++ toString pc

/-- Why generation failed. -/
inductive Cause where
  | decode (error : DecodeError)
  | pool (error : PoolError)
  | fault (fault : Fault)
  | load (error : LoadError)
  | descriptor (error : ParseError)
  deriving DecidableEq, Repr

def Fault.message : Fault → String
  | underflow => "operand stack underflow"
  | unsupported name => name ++ " is not supported"
  | defect d => d.message

def Cause.message : Cause → String
  | decode e => e.message
  | pool e => e.message
  | fault f => f.message
  | load e => e.message
  | descriptor e => e.message

structure GenerationError where
  site : Site
  cause : Cause
  deriving DecidableEq, Repr

def GenerationError.message (e : GenerationError) : String := e.site.text ++ ": " ++ e.cause.message

/-- What generated code needs besides itself: that a class is defined before it runs, that
the invoker knows a method name, that a script is included. -/
inductive Request where
  | reference (name : String)
  | invoker (method : String)
  | script (resource : String)
  deriving DecidableEq, Repr

structure Session where
  knowledge : Knowledge := {}
  exporter : Exporter
  requests : Array Request := #[]
  /-- The definition as far as it is done. -/
  pieces : Array Piece := #[]

abbrev Generation := ExceptT GenerationError (StateM Session)

namespace Generation

def fail {α : Type} (site : Site) (cause : Cause) : Generation α := throw ⟨site, cause⟩

/-- A result, or a cause of failure at a site. -/
def liftExcept {ε α : Type} (site : Site) (cause : ε → Cause) : Except ε α → Generation α
  | .ok a => return a
  | .error e => fail site (cause e)

/-- A question about classes. -/
def ask {α : Type} (site : Site) (q : Query α) : Generation α := fun s =>
  let (a, knowledge) := q s.knowledge
  (a.mapError fun e => ⟨site, .load e⟩, { s with knowledge })

def request (r : Request) : Generation Unit :=
  modify fun s => { s with requests := s.requests.push r }

def write (p : Piece) : Generation Unit := modify fun s => { s with pieces := s.pieces.push p }

/-- Exports a property of an object. -/
def publish (dest name : String) : Generation Unit := do
  modify fun s => { s with exporter := s.exporter.add name }
  if (← get).exporter.writes then write (.publish dest name)

end Generation

/-- The classes in view and the classes that the output defines. -/
structure Generator where
  exports : Exports
  scope : ModuleScope

end ClassScript
