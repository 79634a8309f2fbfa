import ClassScript.Table

/-!
The classes that a program refers to.

Classes are kept in the order of their discovery and are taken up in that order. Static
initializers run in the opposite order, except that the initializers of the parents of a
class run before its own.
-/

namespace ClassScript

/-- What has become of a class. -/
inductive ReferenceState where
  /-- Waiting to be taken up. -/
  | referenced
  /-- Defined, with the call of its static initializer if it has one. -/
  | processed (initializer : Option String)
  /-- Its initializer has been written. -/
  | emitted
  /-- Left to others to define. -/
  | skipped
  deriving DecidableEq, Repr

structure References where
  /-- The classes in the order of discovery. -/
  names : List String := []
  states : Table String ReferenceState := {}
  /-- How many names have been passed over. -/
  passed : Nat := 0

namespace References

def size (r : References) : Nat := r.names.length

def state? (r : References) (name : String) : Option ReferenceState := r.states.get? name

/-- Adds a class, unless it is known. -/
def add (r : References) (name : String) : References :=
  if r.states.contains name then r
  else { r with names := r.names ++ [name], states := r.states.insert name .referenced }

/-- Adds a class, and tells whether it was unknown. -/
def enter (r : References) (name : String) : Bool × References :=
  (!r.states.contains name, r.add name)

def mark (r : References) (name : String) (s : ReferenceState) : References :=
  { r with states := r.states.insert name s }

/-- The first of these names that waits, and how many have then been passed. -/
def firstWaiting (states : Table String ReferenceState) :
    Nat → List String → Option String × Nat
  | n, [] => (none, n)
  | n, name :: rest =>
    if states.get? name = some .referenced then (some name, n + 1)
    else firstWaiting states (n + 1) rest

/-- The next class to take up. -/
def next (r : References) : Option String × References :=
  let (name, passed) := firstWaiting r.states r.passed (r.names.drop r.passed)
  (name, { r with passed })

/-- Initializers being put in order: the classes met, and the calls written. -/
structure Flush where
  states : Table String ReferenceState
  visited : List String := []
  calls : List String := []

/-- Writes the initializer of a class, those of its parents first. A class is met once, so
no chain of parents is longer than the table of states. -/
def flushOne (parents : String → List String) : Nat → Flush → String → Flush
  | 0, f, _ => f
  | fuel + 1, f, name =>
    match f.states.get? name with
    | some (.processed call) =>
      if f.visited.contains name then f
      else
        let f := (parents name).foldl (flushOne parents fuel)
          { f with visited := name :: f.visited }
        { f with states := f.states.insert name .emitted, calls := f.calls ++ call.toList }
    | _ => f

/-- The calls of the static initializers in the order to run them. -/
def flush (r : References) (parents : String → List String) : List String × References :=
  let f := r.names.reverse.foldl (flushOne parents (r.states.size + 1)) { states := r.states }
  (f.calls, { r with states := f.states })

end References

end ClassScript
