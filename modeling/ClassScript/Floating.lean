/-!
Floating point words, as exact arithmetic on their bits.

A word is a sign, a biased exponent and a fraction. `Format.unpack` reads a word as a
signed `m * 2 ^ e`; `Format.pack` rounds such a number to the nearest word, a half going to
the even neighbour. Widening, narrowing and the passage from and to integers are made from
these two.
-/

namespace ClassScript

/-- The widths of the fraction and of the exponent of a word. -/
structure Format where
  fraction : Nat
  exponent : Nat
  deriving DecidableEq, Repr

namespace Format

def single : Format := ⟨23, 8⟩
def double : Format := ⟨52, 11⟩

/-- The exponent that is all ones: infinities and words that are no number. -/
def top (f : Format) : Nat := Nat.pow 2 f.exponent - 1

/-- The power of two that one unit of the least exponent is worth. -/
def least (f : Format) : Int := 2 - (Nat.pow 2 (f.exponent - 1) : Nat) - f.fraction

end Format

/-- What a word stands for. -/
inductive Unpacked where
  | nan
  | infinite (negative : Bool)
  | finite (negative : Bool) (m : Nat) (e : Int)
  deriving DecidableEq, Repr

namespace Format

def unpack (f : Format) (word : Nat) : Unpacked :=
  let fraction := word % Nat.pow 2 f.fraction
  let exponent := word / Nat.pow 2 f.fraction % Nat.pow 2 f.exponent
  let negative := decide (word / Nat.pow 2 (f.fraction + f.exponent) % 2 = 1)
  if exponent = f.top then (if fraction = 0 then .infinite negative else .nan)
  else if exponent = 0 then .finite negative fraction f.least
  else .finite negative (Nat.pow 2 f.fraction + fraction) (f.least + exponent - 1)

/-- `m / 2 ^ s`, rounded to the nearest, a half to the even neighbour. -/
def shiftRounding (m s : Nat) : Nat :=
  let q := m / Nat.pow 2 s
  let twice := 2 * (m % Nat.pow 2 s)
  if twice > Nat.pow 2 s ∨ (twice = Nat.pow 2 s ∧ q % 2 = 1) then q + 1 else q

/-- The word without its sign that is nearest to `m * 2 ^ e`. -/
def packMagnitude (f : Format) (m : Nat) (e : Int) : Nat :=
  if m = 0 then 0
  else
    let excess := e + (m.log2 + 1 : Nat) - (f.fraction + 1 : Nat)
    let q := max excess f.least
    let m' := if q ≤ e then m * Nat.pow 2 (e - q).toNat else shiftRounding m (q - e).toNat
    -- a carry out of the significand moves into the exponent field by itself
    let word := (q - f.least).toNat * Nat.pow 2 f.fraction + m'
    min word (f.top * Nat.pow 2 f.fraction)

def sign (f : Format) (negative : Bool) : Nat :=
  if negative then Nat.pow 2 (f.fraction + f.exponent) else 0

/-- The quiet word that is no number. -/
def quiet (f : Format) : Nat := f.top * Nat.pow 2 f.fraction + Nat.pow 2 (f.fraction - 1)

def pack (f : Format) : Unpacked → Nat
  | .nan => f.quiet
  | .infinite negative => f.sign negative + f.top * Nat.pow 2 f.fraction
  | .finite negative m e => f.sign negative + f.packMagnitude m e

end Format

/-- The part of `±m * 2 ^ e` before the point. -/
def Unpacked.truncate (negative : Bool) (m : Nat) (e : Int) : Int :=
  let n : Nat := if 0 ≤ e then m * Nat.pow 2 e.toNat else m / Nat.pow 2 (-e).toNat
  if negative then -(n : Int) else n

/-- The integer in `[lo, hi]` nearest to the truncated value; zero for what is no number. -/
def Unpacked.toInt (lo hi : Int) : Unpacked → Int
  | .nan => 0
  | .infinite negative => if negative then lo else hi
  | .finite negative m e => max lo (min hi (truncate negative m e))

def Unpacked.ofInt (n : Int) : Unpacked := .finite (decide (n < 0)) n.natAbs 0

structure Binary32 where
  bits : UInt32
  deriving DecidableEq, Repr, Inhabited

structure Binary64 where
  bits : UInt64
  deriving DecidableEq, Repr, Inhabited

namespace Binary32

def unpack (x : Binary32) : Unpacked := Format.single.unpack x.bits.toNat
def pack (u : Unpacked) : Binary32 := ⟨.ofNat (Format.single.pack u)⟩
def ofInt (n : Int) : Binary32 := pack (.ofInt n)

/-- Every single word is a double word. -/
def widen (x : Binary32) : Binary64 := ⟨.ofNat (Format.double.pack x.unpack)⟩

end Binary32

namespace Binary64

def unpack (x : Binary64) : Unpacked := Format.double.unpack x.bits.toNat
def pack (u : Unpacked) : Binary64 := ⟨.ofNat (Format.double.pack u)⟩
def ofInt (n : Int) : Binary64 := pack (.ofInt n)
def narrow (x : Binary64) : Binary32 := .pack x.unpack

def toInt32 (x : Binary64) : Int32 := .ofInt (x.unpack.toInt (-2147483648) 2147483647)
def toInt64 (x : Binary64) : Int64 :=
  .ofInt (x.unpack.toInt (-9223372036854775808) 9223372036854775807)

end Binary64

end ClassScript
