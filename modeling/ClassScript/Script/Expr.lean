import ClassScript.Name
import ClassScript.Script.Number
import ClassScript.Kind

/-!
Expressions of generated code.

Operands are atoms: variables and literals. An expression applies one operation to atoms, so
nothing needs a rule of precedence, and evaluation order is the order of the statements.
-/

namespace ClassScript

/-- A constant value. -/
inductive Literal where
  | null
  | int (value : Int32)
  | long (value : Int64)
  | float (value : Binary32)
  | double (value : Binary64)
  | text (s : String)
  deriving DecidableEq, Repr

namespace Literal

def kind : Literal → Kind
  | null | text _ => .ref
  | int _ => .int
  | long _ => .long
  | float _ => .float
  | double _ => .double

def render : Literal → String
  | null => "null"
  | int v => Number.int v
  | long v => Number.long v
  | float v => Number.float v
  | double v => Number.double v
  | text s => Quoted.text s

end Literal

/-- A variable of a function: for a stack position, for a local slot, or for a moment. -/
inductive Var where
  | operand (kind : Kind) (depth : Nat)
  | slot (kind : Kind) (index : UInt16)
  | temp (number : Nat)
  deriving DecidableEq, Repr

/-- Each variable has a name of its own: kinds have different letters. -/
def Var.name : Var → String
  | operand k depth => String.ofList ['s', 't', k.letter] ++ toString depth
  | slot k index => String.ofList ['l', 'c', k.letter] ++ toString index.toNat
  | temp n => "tm" ++ toString n

inductive Atom where
  | var (v : Var)
  | lit (l : Literal)
  deriving DecidableEq, Repr

namespace Atom

def render : Atom → String
  | var v => v.name
  | lit l => l.render

def int? : Atom → Option Int32
  | lit (.int v) => some v
  | _ => none

def long? : Atom → Option Int64
  | lit (.long v) => some v
  | _ => none

/-- A float constant counts as the double it widens to. -/
def double? : Atom → Option Binary64
  | lit (.float v) => some v.widen
  | lit (.double v) => some v
  | _ => none

def vars : Atom → List Var
  | var v => [v]
  | lit _ => []

end Atom

/-- Functions of the support code. -/
inductive Helper where
  | arith32 (op : ArithOp)
  | arith64 (op : ArithOp)
  | neg32
  | neg64
  | shift64 (op : ShiftOp)
  | logic64 (op : LogicOp)
  | compare64
  | compareFloat
  | i2l
  | l2i
  | l2d
  | d2i
  | d2l
  | toInt8
  | toInt16
  | toChar
  | elementAt
  | newArray
  | checkCast
  | isInstance
  deriving DecidableEq, Repr

namespace Helper

def arithName : ArithOp → String
  | .add => "add"
  | .sub => "sub"
  | .mul => "mul"
  | .div => "div"
  | .rem => "mod"

def name : Helper → String
  | arith32 op => arithName op ++ "32"
  | arith64 op => arithName op ++ "64"
  | neg32 => "neg32"
  | neg64 => "neg64"
  | shift64 .shl => "shl64"
  | shift64 .shr => "shr64"
  | shift64 .ushr => "ushr64"
  | logic64 .and => "and64"
  | logic64 .or => "or64"
  | logic64 .xor => "xor64"
  | compare64 => "compare64"
  | compareFloat => "fcmp"
  | i2l => "i2l"
  | l2i => "l2i"
  | l2d => "l2d"
  | d2i => "d2i"
  | d2l => "d2l"
  | toInt8 => "toInt8"
  | toInt16 => "toInt16"
  | toChar => "toChar"
  | elementAt => "at"
  | newArray => "newArray"
  | checkCast => "checkCast"
  | isInstance => "isInstance"

end Helper

inductive BinaryOp where
  | arith (op : ArithOp)
  | shift (op : ShiftOp)
  | logic (op : LogicOp)
  deriving DecidableEq, Repr

def BinaryOp.symbol : BinaryOp → String
  | arith .add => "+"
  | arith .sub => "-"
  | arith .mul => "*"
  | arith .div => "/"
  | arith .rem => "%"
  | shift .shl => "<<"
  | shift .shr => ">>"
  | shift .ushr => ">>>"
  | logic .and => "&"
  | logic .or => "|"
  | logic .xor => "^"

/-- How a member is written: plainly where its name allows, or always in quotes. -/
inductive AccessForm where
  | plain | quoted
  deriving DecidableEq, Repr

/-- The function that defines a class. -/
def classFunction (name : String) : String := property "vm" (Name.ofClass name)

inductive Expr where
  | atom (a : Atom)
  | helper (h : Helper) (args : List Atom)
  /-- Rounds to a single. -/
  | fround (e : Expr)
  | binary (op : BinaryOp) (a b : Atom)
  | negate (a : Atom)
  /-- Wraps to a 32-bit integer. -/
  | wrap (e : Expr)
  | multiArray (descriptor : String) (counts : List Atom)
  /-- The class object of an array type. -/
  | arrayClass (descriptor : String)
  /-- Writes an element of an array. -/
  | put (array index : Atom) (value : Expr)
  /-- A new object of a class, or its prototype. -/
  | object (name : String) (fresh : Bool)
  /-- The function that stands between a call and its receiver. -/
  | invoker
  | member (object : Expr) (form : AccessForm) (name : String)
  | call (callee : Expr) (args : List Atom)
  deriving DecidableEq, Repr

namespace Expr

def render : Expr → String
  | atom a => a.render
  | helper h args => ClassScript.call ("rt." ++ h.name) (args.map Atom.render)
  | fround e => "Math.fround(" ++ e.render ++ ")"
  | binary op a b => a.render ++ " " ++ op.symbol ++ " " ++ b.render
  | negate a => "-(" ++ a.render ++ ")"
  | wrap e => "(" ++ e.render ++ ") | 0"
  | multiArray d counts =>
    "rt.multiArray(" ++ Quoted.text d ++ ", [" ++ ", ".intercalate (counts.map Atom.render) ++ "])"
  | arrayClass d => "rt.classFor(vm, " ++ Quoted.text d ++ ")"
  | put array index value =>
    ClassScript.call "rt.put" [array.render, index.render, value.render]
  | object name fresh => classFunction name ++ (if fresh then "(true)" else "(false)")
  | invoker => "invoker"
  | member e .plain name => property e.render name
  | member e .quoted name => bracket e.render name
  | call f args => ClassScript.call f.render (args.map Atom.render)

/-- The class object of a class. -/
def classObject (name : String) : Expr :=
  member (member (object name false) .plain "constructor") .plain "$class"

/-- The variables that the expression reads. -/
def vars : Expr → List Var
  | atom a | negate a => a.vars
  | helper _ args | multiArray _ args => args.flatMap Atom.vars
  | fround e | wrap e | member e _ _ => e.vars
  | binary _ a b => a.vars ++ b.vars
  | put array index value => array.vars ++ index.vars ++ value.vars
  | arrayClass _ | object .. | invoker => []
  | call f args => f.vars ++ args.flatMap Atom.vars

/-- The classes whose defining function the expression names. -/
def classes : Expr → List String
  | object name _ => [name]
  | fround e | wrap e | put _ _ e | member e _ _ | call e _ => e.classes
  | atom _ | negate _ | helper .. | multiArray .. | binary .. | arrayClass _ | invoker => []

end Expr

end ClassScript
