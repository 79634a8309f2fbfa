import ClassScript.Script.Stmt
import ClassScript.Table

/-!
The operand stack while code is generated.

Every stack position has a variable for each kind of value. A constant that is pushed stays
pending: it takes part in later instructions as a literal, and is written to the variable of
its position only when control may reach the code after it by another way. Statements go
out in the order in which they are to run.
-/

namespace ClassScript

/-- What an instruction asks for and cannot have. -/
inductive Defect where
  | arithmeticOnReference
  | negationOfReference
  | shiftOfNonIntegral
  | logicOfNonIntegral
  | badFieldDescriptor (text : String)
  | badMethodDescriptor (text : String)
  | branchOutsideCode (pc : Nat)
  | tableOutsideCode (pc : Nat)
  | scriptArgsNotStrings
  | scriptWithoutBody
  | scriptArity (named takes : Nat)
  | voidParameter
  deriving DecidableEq, Repr

def Defect.message : Defect → String
  | arithmeticOnReference => "arithmetic on a reference"
  | negationOfReference => "negation of a reference"
  | shiftOfNonIntegral => "shift of a non-integral value"
  | logicOfNonIntegral => "bitwise operation on a non-integral value"
  | badFieldDescriptor text => "bad field descriptor " ++ text
  | badMethodDescriptor text => "bad method descriptor " ++ text
  | branchOutsideCode pc => s!"branch target pc {pc} is not an instruction"
  | tableOutsideCode pc => s!"exception table refers to pc {pc}, not an instruction"
  | scriptArgsNotStrings => "JavaScriptBody args must be strings"
  | scriptWithoutBody => "JavaScriptBody has no body"
  | scriptArity named takes =>
    s!"JavaScriptBody names {named} parameters, the method takes {takes}"
  | voidParameter => "void parameter"

/-- Why code for an instruction could not be generated. -/
inductive Fault where
  | underflow
  | unsupported (name : String)
  | defect (d : Defect)
  deriving DecidableEq, Repr

/-- A stack position: its value is in its variable, or is a pending constant. -/
inductive Entry where
  | slot (kind : Kind)
  | const (value : Literal)
  deriving DecidableEq, Repr

namespace Entry

def kind : Entry → Kind
  | slot k => k
  | const l => l.kind

/-- How to read the value at a depth. -/
def atom (depth : Nat) : Entry → Atom
  | slot k => .var (.operand k depth)
  | const l => .lit l

end Entry

structure Frame where
  /-- The stack, top first. The depth of a position is the number of positions below it. -/
  stack : List Entry := []
  /-- Variables that the function has to declare. -/
  used : List Var := []
  temps : Nat := 0
  /-- The kinds on the stack at each label, bottom first, as the first jump there found them. -/
  layouts : Table Nat (List Kind) := {}
  out : Array Stmt := #[]

namespace Frame

/-- The kinds on the stack, bottom first. -/
def layout (f : Frame) : List Kind := (f.stack.map Entry.kind).reverse

/-- Is the value `n` positions below the top a wide one? -/
def isWide (f : Frame) (n : Nat) : Bool := (f.stack[n]?.map (·.kind.isWide)).getD false

end Frame

abbrev Lower := StateT Frame (Except Fault)

namespace Lower

def emit (s : Stmt) : Lower Unit := modify fun f => { f with out := f.out.push s }

/-- Has the function declare a variable. -/
def declare (v : Var) : Lower Unit := modify fun f => { f with used := v :: f.used }

/-- Pushes a value that the variable of the new position is to hold. -/
def pushSlot (k : Kind) : Lower Var := do
  let v := Var.operand k (← get).stack.length
  modify fun f => { f with stack := .slot k :: f.stack, used := v :: f.used }
  return v

def pushConst (l : Literal) : Lower Unit :=
  modify fun f => { f with stack := .const l :: f.stack }

def assign (k : Kind) (e : Expr) : Lower Unit := do
  emit (.assign (← pushSlot k) e)

def pop : Lower Atom := do
  match (← get).stack with
  | [] => throw .underflow
  | e :: rest =>
    modify fun f => { f with stack := rest }
    return e.atom rest.length

/-- Two values, the deeper first. -/
def pop2 : Lower (Atom × Atom) := do
  let b ← pop
  let a ← pop
  return (a, b)

def pop3 : Lower (Atom × Atom × Atom) := do
  let c ← pop
  let (a, b) ← pop2
  return (a, b, c)

/-- So many values, the deepest first. -/
def popMany : Nat → Lower (List Atom)
  | 0 => return []
  | n + 1 => do
    let a ← pop
    return (← popMany n) ++ [a]

/-- The top value, which stays. -/
def peek : Lower Atom := do
  match (← get).stack with
  | [] => throw .underflow
  | e :: rest => return e.atom rest.length

/-- The writes that put the pending constants of a stack into their variables, lowest
first. -/
def pending : List Entry → List (Var × Literal)
  | [] => []
  | .slot _ :: rest => pending rest
  | .const l :: rest => pending rest ++ [(.operand l.kind rest.length, l)]

/-- Writes out all pending constants. -/
def flush : Lower Unit :=
  modify fun f =>
    let writes := pending f.stack
    { f with
      stack := f.stack.map fun e => .slot e.kind
      used := writes.map Prod.fst ++ f.used
      out := f.out ++ (writes.map fun (v, l) => Stmt.assign v (.atom (.lit l))).toArray }

/-- The variables of a layout, bottom first. -/
def layoutVars (kinds : List Kind) : List Var := kinds.zipIdx.map fun (k, i) => .operand k i

/-- Takes the stack that a label has: all of it in variables. -/
def reset (kinds : List Kind) : Lower Unit :=
  modify fun f => { f with
    stack := (kinds.map Entry.slot).reverse
    used := layoutVars kinds ++ f.used }

/-- Remembers the layout at a label, unless it is known. -/
def record (target : Nat) : Lower Unit :=
  modify fun f =>
    if f.layouts.contains target then f
    else { f with layouts := f.layouts.insert target f.layout }

/-- Makes the stack ready for a jump. -/
def beforeJump (targets : List Nat) : Lower Unit := do
  flush
  targets.forM record

def branch (c : Comparison) (target : Nat) : Lower Unit := do
  beforeJump [target]
  emit (.jumpIf c target)

/-- The variable of a local slot. -/
def slot (k : Kind) (index : UInt16) : Lower Var := do
  let v := Var.slot k index
  declare v
  return v

def temp : Lower Var := do
  let v := Var.temp (← get).temps
  modify fun f => { f with temps := f.temps + 1, used := v :: f.used }
  return v

end Lower

end ClassScript
