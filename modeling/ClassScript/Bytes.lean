/-!
Byte strings, and numbers written with the most significant byte first.
-/

namespace ClassScript

abbrev Bytes := List UInt8

namespace Bytes

/-- The number that the bytes spell, most significant first. -/
def toNat (bs : Bytes) : Nat := bs.foldl (fun n b => n * 256 + b.toNat) 0

/-- The low `width` bytes of a number, most significant first. -/
def ofNat : Nat → Nat → Bytes
  | 0, _ => []
  | width + 1, n => .ofNat (n / Nat.pow 256 width) :: ofNat width n

/-- The number of bytes in some byte strings. -/
def total : List Bytes → Nat
  | [] => 0
  | bs :: rest => bs.length + total rest

/-- The number that the bytes spell, least significant first. -/
def toNatLow (bs : Bytes) : Nat := bs.foldr (fun b n => b.toNat + 256 * n) 0

end Bytes

end ClassScript
