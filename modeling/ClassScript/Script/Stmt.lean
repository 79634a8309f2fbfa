import ClassScript.Script.Expr
import ClassScript.Script.Writer
import ClassScript.Script.SwitchTable

/-!
Statements of generated code.

The body of a function is a flat list of statements. Where there are jumps the list runs
inside a loop around a switch on the variable `gt`: a label is a case of the switch, and a
jump sets `gt` and goes round. Where there are handlers a `try` stands between the loop and
the switch, and each label also sets `gt`, so that the handlers can tell where control was.
-/

namespace ClassScript

structure Comparison where
  op : Cond
  left : Atom
  right : Atom
  deriving DecidableEq, Repr

def Comparison.render (c : Comparison) : String :=
  c.left.render ++ " " ++ c.op.operator ++ " " ++ c.right.render

inductive Stmt where
  | assign (v : Var) (e : Expr)
  /-- Writes a member. -/
  | store (place : Expr) (value : Atom)
  | eval (e : Expr)
  | jump (target : Nat)
  | jumpIf (c : Comparison) (target : Nat)
  | jumpTo (key : Atom) (table : SwitchTable) (default : Nat)
  | returns (value : Option Atom)
  | raise (value : Atom)
  | label (address : Nat)
  /-- Tells the handlers where control is. -/
  | mark (address : Nat)
  deriving DecidableEq, Repr

namespace Stmt

/-- The place of a key in a table that starts at `low`. -/
def index (key : String) (low : Int32) : String :=
  if low = 0 then key
  else if low < 0 then key ++ " + " ++ toString (-low.toInt)
  else key ++ " - " ++ toString low.toInt

def renderJump (key : String) (default : Nat) (w : Writer) : SwitchTable → Writer
  | .indexed low high targets =>
    let lo := Number.int low
    let hi := Number.int high
    let table := ", ".intercalate (targets.map toString)
    let w := w.begins ("if (" ++ key ++ " >= " ++ lo ++ " && " ++ key ++ " <= " ++ hi ++ ") \x7b")
    let w := w.line ("gt = [" ++ table ++ "][" ++ index key low ++ "];")
    let w := w.label "\x7d else \x7b"
    let w := w.line ("gt = " ++ toString default ++ ";")
    (w.ends "\x7d").line "continue;"
  | .chain pairs =>
    let test (p : Int32 × Nat) : String :=
      "if (" ++ key ++ " === " ++ Number.int p.1 ++ ") \x7b gt = " ++ toString p.2 ++
        "; continue; \x7d"
    ((w.lines (pairs.map test)).line ("gt = " ++ toString default ++ ";")).line "continue;"

def render (w : Writer) : Stmt → Writer
  | assign v e => w.line (v.name ++ " = " ++ e.render ++ ";")
  | store place value => w.line (place.render ++ " = " ++ value.render ++ ";")
  | eval e => w.line (e.render ++ ";")
  | jump t => w.line ("gt = " ++ toString t ++ "; continue;")
  | jumpIf c t =>
    w.line ("if (" ++ c.render ++ ") \x7b gt = " ++ toString t ++ "; continue; \x7d")
  | jumpTo key table default => renderJump key.render default w table
  | returns none => w.line "return;"
  | returns (some a) => w.line ("return " ++ a.render ++ ";")
  | raise a => w.line ("throw " ++ a.render ++ ";")
  | label pc => w.label ("case " ++ toString pc ++ ":")
  | mark pc => w.line ("gt = " ++ toString pc ++ ";")

/-- The variables that the statement reads or writes. -/
def vars : Stmt → List Var
  | assign v e => v :: e.vars
  | store place value => place.vars ++ value.vars
  | eval e => e.vars
  | jumpIf c _ => c.left.vars ++ c.right.vars
  | jumpTo key _ _ => key.vars
  | returns value => (value.map Atom.vars).getD []
  | raise a => a.vars
  | jump _ | label _ | mark _ => []

/-- The classes whose defining function the statement names. -/
def classes : Stmt → List String
  | assign _ e | eval e | store e _ => e.classes
  | _ => []

end Stmt

/-- A clause of the handlers: the range of `gt`, the class to match unless all are caught,
and where control goes. -/
structure CatchClause where
  start : Nat
  stop : Nat
  caught : Option String
  target : Nat
  deriving DecidableEq, Repr

namespace CatchClause

/-- Values that the machine did not throw count as throwable, so that class needs no test. -/
def test (c : CatchClause) : String :=
  let range := "gt >= " ++ toString c.start ++ " && gt < " ++ toString c.stop
  match c.caught with
  | none | some "java/lang/Throwable" => range
  | some name => range ++ " && " ++ property "e" (Name.instanceFlag name)

/-- The variable of the one stack position that a handler starts with. -/
def thrown : Var := .operand .ref 0

def render (w : Writer) (c : CatchClause) : Writer :=
  w.line ("if (" ++ c.test ++ ") \x7b " ++ thrown.name ++ " = e; gt = " ++ toString c.target ++
    "; continue; \x7d")

end CatchClause

/-- The statements of a body, run once, or in a loop with its handlers. -/
inductive Body where
  | straight (code : List Stmt)
  | looped (code : List Stmt) (handlers : List CatchClause)
  deriving DecidableEq, Repr

namespace Body

def code : Body → List Stmt
  | straight code | looped code _ => code

def handlers : Body → List CatchClause
  | straight _ => []
  | looped _ handlers => handlers

def renderHandlers (w : Writer) (clauses : List CatchClause) : Writer :=
  let w := w.label "\x7d catch (e) \x7b"
  let w := w.line "e = rt.throwable(e);"
  let w := clauses.foldl CatchClause.render w
  (w.line "throw e;").ends "\x7d"

def render (w : Writer) : Body → Writer
  | straight code => code.foldl Stmt.render w
  | looped code clauses =>
    let w := (w.line "var gt = 0;").begins "for (;;) \x7b"
    let w := if clauses.isEmpty then w else w.begins "try \x7b"
    let w := (w.begins "switch (gt) \x7b").enter
    let w := code.foldl Stmt.render w
    let w := w.leave.ends "\x7d"
    let w := if clauses.isEmpty then w else renderHandlers w clauses
    w.ends "\x7d"

end Body

end ClassScript
