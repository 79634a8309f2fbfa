/-!
What a value on the operand stack can be, and the families of operations on such values.

A stack value has one of five kinds; an array element may be narrower. Long and double are
the wide kinds: they fill two local slots and count twice in the stack shuffles.
-/

namespace ClassScript

inductive Kind where
  | int | long | float | double | ref
  deriving DecidableEq, Repr, Inhabited

namespace Kind

def all : List Kind := [int, long, float, double, ref]

def isWide : Kind → Bool
  | long | double => true
  | _ => false

/-- The letter of the kind in a generated variable name. -/
def letter : Kind → Char
  | int => 'I'
  | long => 'L'
  | float => 'F'
  | double => 'D'
  | ref => 'A'

/-- The kinds in the order in which typed opcodes list them. -/
def ofIndex : Nat → Kind
  | 0 => int
  | 1 => long
  | 2 => float
  | 3 => double
  | _ => ref

end Kind

inductive ArrayKind where
  | int | long | float | double | ref | byte | boolean | char | short
  deriving DecidableEq, Repr, Inhabited

namespace ArrayKind

def all : List ArrayKind := [int, long, float, double, ref, byte, boolean, char, short]

/-- The kind of an element once it is on the stack. -/
def kind : ArrayKind → Kind
  | long => .long
  | float => .float
  | double => .double
  | ref => .ref
  | _ => .int

/-- The descriptor of a one dimensional array of such elements. -/
def arrayDescriptor : ArrayKind → String
  | int => "[I"
  | long => "[J"
  | float => "[F"
  | double => "[D"
  | ref => "[Ljava/lang/Object;"
  | byte => "[B"
  | boolean => "[Z"
  | char => "[C"
  | short => "[S"

/-- The element kinds in the order in which array loads and stores list them. -/
def ofIndex : Nat → ArrayKind
  | 0 => int
  | 1 => long
  | 2 => float
  | 3 => double
  | 4 => ref
  | 5 => byte
  | 6 => char
  | _ => short

/-- The element kind that a type code of an array creation stands for. -/
def ofTypeCode? : Nat → Option ArrayKind
  | 4 => some boolean
  | 5 => some char
  | 6 => some float
  | 7 => some double
  | 8 => some byte
  | 9 => some short
  | 10 => some int
  | 11 => some long
  | _ => none

end ArrayKind

inductive ArithOp where
  | add | sub | mul | div | rem
  deriving DecidableEq, Repr, Inhabited

inductive ShiftOp where
  | shl | shr | ushr
  deriving DecidableEq, Repr, Inhabited

inductive LogicOp where
  | and | or | xor
  deriving DecidableEq, Repr, Inhabited

inductive Cond where
  | eq | ne | lt | ge | gt | le
  deriving DecidableEq, Repr, Inhabited

namespace Cond

def all : List Cond := [eq, ne, lt, ge, gt, le]

/-- The comparison operator of a script. -/
def operator : Cond → String
  | eq => "==="
  | ne => "!=="
  | lt => "<"
  | ge => ">="
  | gt => ">"
  | le => "<="

end Cond

inductive Conversion where
  | i2l | i2f | i2d | l2i | l2f | l2d | f2i | f2l | f2d | d2i | d2l | d2f | i2b | i2c | i2s
  deriving DecidableEq, Repr, Inhabited

namespace Conversion

def all : List Conversion :=
  [i2l, i2f, i2d, l2i, l2f, l2d, f2i, f2l, f2d, d2i, d2l, d2f, i2b, i2c, i2s]

def source : Conversion → Kind
  | i2l | i2f | i2d | i2b | i2c | i2s => .int
  | l2i | l2f | l2d => .long
  | f2i | f2l | f2d => .float
  | d2i | d2l | d2f => .double

def target : Conversion → Kind
  | i2l | f2l | d2l => .long
  | i2f | l2f | d2f => .float
  | i2d | l2d | f2d => .double
  | l2i | f2i | d2i | i2b | i2c | i2s => .int

end Conversion

inductive InvokeKind where
  | virtual | special | static | interface
  deriving DecidableEq, Repr, Inhabited

end ClassScript
