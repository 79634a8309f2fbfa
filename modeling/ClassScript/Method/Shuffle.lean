import ClassScript.Instruction
import ClassScript.Method.Frame

/-!
Instructions that reorder the top of the stack.

A shuffle takes some values and pushes a pattern of them. Moves run one after another, so a
variable that a move overwrites while a later move still reads it is copied aside first.
-/

namespace ClassScript

/-- How many values are taken, and which of them are pushed, the deepest being number
zero. -/
structure Shuffle where
  take : Nat
  pattern : List Nat
  deriving DecidableEq, Repr

namespace Shuffle

/-- The variable that holds value number `i` of the taken ones, if it is in one. -/
def source? (base : Nat) (values : List Entry) (i : Nat) : Option Var :=
  match values[i]? with
  | some (.slot k) => some (.operand k (base + i))
  | _ => none

/-- The variables that a move of the pattern overwrites with another value. -/
def overwritten (base : Nat) (values : List Entry) (pattern : List Nat) : List Var :=
  pattern.zipIdx.filterMap fun (i, offset) =>
    match values[i]? with
    | some (.slot k) => if offset = i then none else some (.operand k (base + offset))
    | _ => none

/-- Copies aside the values that are read after their variable is overwritten, and returns
where each of them is now. -/
def save (base : Nat) (values : List Entry) (pattern : List Nat) : Lower (List (Nat × Var)) := do
  let lost := overwritten base values pattern
  let moved := (List.range values.length).filterMap fun i =>
    match source? base values i with
    | some v => if lost.contains v && pattern.contains i then some (i, v) else none
    | none => none
  moved.mapM fun (i, v) => do
    let t ← Lower.temp
    Lower.emit (.assign t (.atom (.var v)))
    return (i, t)

/-- Pushes one value of the pattern. -/
def move (base : Nat) (values : List Entry) (saved : List (Nat × Var)) (i : Nat) : Lower Unit := do
  match values[i]? with
  | none => return
  | some (.const l) => Lower.pushConst l
  | some (.slot k) =>
    let source := (saved.lookup i).getD (.operand k (base + i))
    let dest ← Lower.pushSlot k
    if dest ≠ source then Lower.emit (.assign dest (.atom (.var source)))

def run (s : Shuffle) : Lower Unit := do
  let stack := (← get).stack
  if stack.length < s.take then throw .underflow
  let values := (stack.take s.take).reverse
  let base := stack.length - s.take
  modify fun f => { f with stack := stack.drop s.take }
  let saved ← save base values s.pattern
  s.pattern.forM (move base values saved)

/-- The shuffle of an instruction, by which of the topmost values are wide. -/
def of? (wide : Nat → Bool) : Instruction → Option Shuffle
  | .dup => some ⟨1, [0, 0]⟩
  | .dupX1 => some ⟨2, [1, 0, 1]⟩
  | .dupX2 => if wide 1 then some ⟨2, [1, 0, 1]⟩ else some ⟨3, [2, 0, 1, 2]⟩
  | .dup2 => if wide 0 then some ⟨1, [0, 0]⟩ else some ⟨2, [0, 1, 0, 1]⟩
  | .dup2X1 => if wide 0 then some ⟨2, [1, 0, 1]⟩ else some ⟨3, [1, 2, 0, 1, 2]⟩
  | .dup2X2 =>
    match wide 0, wide 1, wide 2 with
    | true, true, _ => some ⟨2, [1, 0, 1]⟩
    | true, false, _ => some ⟨3, [2, 0, 1, 2]⟩
    | false, _, true => some ⟨3, [1, 2, 0, 1, 2]⟩
    | false, _, false => some ⟨4, [2, 3, 0, 1, 2, 3]⟩
  | .swap => some ⟨2, [1, 0]⟩
  | _ => none

end Shuffle

end ClassScript
