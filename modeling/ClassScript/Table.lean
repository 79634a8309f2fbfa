/-!
Finite tables from keys to values, the key set last in front.
-/

namespace ClassScript

structure Table (κ ν : Type) where
  entries : List (κ × ν) := []
  deriving Repr

namespace Table

variable {κ ν : Type} [BEq κ]

def empty : Table κ ν := {}

def get? (t : Table κ ν) (k : κ) : Option ν := t.entries.lookup k

def contains (t : Table κ ν) (k : κ) : Bool := (t.get? k).isSome

/-- Sets the value of a key, in place of the one it had. -/
def insert (t : Table κ ν) (k : κ) (v : ν) : Table κ ν :=
  ⟨(k, v) :: t.entries.filter fun e => !(e.1 == k)⟩

def size (t : Table κ ν) : Nat := t.entries.length

end Table

end ClassScript
