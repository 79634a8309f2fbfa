import ClassScript.Bytes

/-!
Reading values off the front of a byte string.

A reader takes a prefix of the input and keeps count of the offset. It fails when the data
ends, or with a fault that the format itself defines.
-/

namespace ClassScript

/-- The bytes still unread and the offset of the first of them. -/
structure Input where
  offset : Nat
  rest : Bytes
  deriving DecidableEq, Repr

def Input.start (bs : Bytes) : Input := ⟨0, bs⟩

inductive ReadFailure (ε : Type) where
  | endOfData
  | fault (cause : ε)
  deriving DecidableEq, Repr

abbrev Reader (ε : Type) := StateT Input (Except (ReadFailure ε))

namespace Reader

variable {ε α : Type}

def offset : Reader ε Nat := return (← get).offset

def fail (cause : ε) : Reader ε α := throw (.fault cause)

/-- The next `n` bytes. -/
def take (n : Nat) : Reader ε Bytes := fun i =>
  let taken := i.rest.take n
  if taken.length = n then .ok (taken, ⟨i.offset + n, i.rest.drop n⟩)
  else .error .endOfData

/-- The next `n` bytes as a number, most significant first. -/
def nat (n : Nat) : Reader ε Nat := return Bytes.toNat (← take n)

def u8 : Reader ε UInt8 := return .ofNat (← nat 1)
def u16 : Reader ε UInt16 := return .ofNat (← nat 2)
def u32 : Reader ε UInt32 := return .ofNat (← nat 4)
def u64 : Reader ε UInt64 := return .ofNat (← nat 8)
def i8 : Reader ε Int8 := return (← u8).toInt8
def i16 : Reader ε Int16 := return (← u16).toInt16
def i32 : Reader ε Int32 := return (← u32).toInt32
def i64 : Reader ε Int64 := return (← u64).toInt64

/-- The same reader `n` times over. -/
def many : Nat → Reader ε α → Reader ε (List α)
  | 0, _ => return []
  | n + 1, r => return (← r) :: (← many n r)

/-- A count of two bytes, then so many items. -/
def counted (r : Reader ε α) : Reader ε (List α) := do
  let n ← u16
  many n.toNat r

/-- The value at the front of the bytes. -/
def parse (r : Reader ε α) (bs : Bytes) : Except (ReadFailure ε) α :=
  (r.run (.start bs)).map Prod.fst

end Reader

end ClassScript
