import ClassScript.Kind

/-!
Type descriptors.

A descriptor spells a type in one letter, or a class as `Lname;`, or an array as `[` before
its element. A method descriptor lists the parameters between parentheses and ends with what
the method returns; its first closing parenthesis ends the parameters.
-/

namespace ClassScript

/-- The type of a value; `void` only where nothing is returned. -/
inductive ValueType where
  | int | long | float | double | byte | char | short | boolean | void
  | object (name : String)
  | array (element : ValueType)
  deriving DecidableEq, Repr, Inhabited

namespace ValueType

def kind? : ValueType → Option Kind
  | long => some .long
  | float => some .float
  | double => some .double
  | object _ | array _ => some .ref
  | void => none
  | _ => some .int

/-- How many local slots a value of the type fills. -/
def slots : ValueType → UInt16
  | long | double => 2
  | void => 0
  | _ => 1

def chars : ValueType → List Char
  | int => ['I']
  | long => ['J']
  | float => ['F']
  | double => ['D']
  | byte => ['B']
  | char => ['C']
  | short => ['S']
  | boolean => ['Z']
  | void => ['V']
  | object name => 'L' :: name.toList ++ [';']
  | array element => '[' :: element.chars

def descriptor (t : ValueType) : String := String.ofList t.chars

/-- The type at the front of a text, and what follows it. -/
def parse : List Char → Option (ValueType × List Char)
  | 'B' :: r => some (byte, r)
  | 'C' :: r => some (char, r)
  | 'D' :: r => some (double, r)
  | 'F' :: r => some (float, r)
  | 'I' :: r => some (int, r)
  | 'J' :: r => some (long, r)
  | 'S' :: r => some (short, r)
  | 'Z' :: r => some (boolean, r)
  | 'V' :: r => some (void, r)
  | 'L' :: r =>
    match r.takeWhile (· ≠ ';'), r.dropWhile (· ≠ ';') with
    | [], _ | _, [] => none
    | name, _ :: r => some (object (String.ofList name), r)
  | '[' :: r =>
    match parse r with
    | none | some (void, _) => none
    | some (element, r) => some (array element, r)
  | _ => none

/-- The type that a field descriptor spells. -/
def ofDescriptor? (text : String) : Option ValueType :=
  match parse text.toList with
  | some (void, _) => none
  | some (t, []) => some t
  | _ => none

/-- The text after so many bytes, unless they end inside a character or beyond the text. -/
def dropBytes : Nat → List Char → Option (List Char)
  | 0, cs => some cs
  | _ + 1, [] => none
  | n + 1, c :: cs => if c.utf8Size ≤ n + 1 then dropBytes (n + 1 - c.utf8Size) cs else none

def countBytes : List Char → Nat
  | [] => 0
  | c :: cs => c.utf8Size + countBytes cs

/-- The type that starts at a byte offset, and the offset just after it. -/
def parseAt (text : String) (offset : Nat) : Option (ValueType × Nat) := do
  let (t, rest) ← parse (← dropBytes offset text.toList)
  return (t, countBytes text.toList - countBytes rest)

end ValueType

/-- What a method takes and returns. -/
structure Signature where
  params : List ValueType
  result : ValueType
  deriving DecidableEq, Repr

namespace Signature

/-- The local slots of the parameters, `this` not among them. -/
def paramSlots (s : Signature) : UInt16 := s.params.foldl (fun n t => n + t.slots) 0

/-- The types that fill a text, none of them void. Each takes a character at least, so a
text of `n` characters holds at most `n`. -/
def parseParams : Nat → List Char → Option (List ValueType)
  | _, [] => some []
  | 0, _ :: _ => none
  | n + 1, c :: cs =>
    match ValueType.parse (c :: cs) with
    | none | some (.void, _) => none
    | some (t, r) => (parseParams n r).map (t :: ·)

def parse : List Char → Option Signature
  | '(' :: cs => do
    let params := cs.takeWhile (· ≠ ')')
    match cs.dropWhile (· ≠ ')') with
    | [] => none
    | _ :: cs =>
      match ← ValueType.parse cs with
      | (result, []) => return ⟨← parseParams params.length params, result⟩
      | _ => none
  | _ => none

/-- The signature that a method descriptor spells. -/
def ofDescriptor? (text : String) : Option Signature := parse text.toList

end Signature

end ClassScript
