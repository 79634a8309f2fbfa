import ClassScript.Floating

/-!
The shortest decimal that reads back as a given double.

A positive double `m * 2 ^ e` is the nearest word to every real in an interval around it;
the ends belong to the interval when `m` is even. For one digit, two digits and so on, the
two neighbours of the value on that decimal grid are tried, and the first grid with a
neighbour inside the interval wins.
-/

namespace ClassScript.Shortest

/-- Is `a * 2 ^ s` at most `d * 10 ^ k`, or below it when `strict`? -/
def below (strict : Bool) (a : Nat) (s : Int) (d : Nat) (k : Int) : Bool :=
  let lhs := a * Nat.pow 2 s.toNat * Nat.pow 10 (-k).toNat
  let rhs := d * Nat.pow 10 k.toNat * Nat.pow 2 (-s).toNat
  if strict then lhs < rhs else lhs ≤ rhs

/-- The interval around `m * 2 ^ e`, its ends and the value itself as multiples of
`2 ^ (e - 2)`. Below a power of two the words lie closer. -/
structure Interval where
  low : Nat
  mid : Nat
  high : Nat
  scale : Int
  closed : Bool

def Interval.around (m : Nat) (e : Int) : Interval :=
  let close := m = Nat.pow 2 Format.double.fraction ∧ Format.double.least < e
  { low := if close then 4 * m - 1 else 4 * m - 2
    mid := 4 * m
    high := 4 * m + 2
    scale := e - 2
    closed := m % 2 = 0 }

def Interval.contains (i : Interval) (d : Nat) (k : Int) : Bool :=
  below (!i.closed) i.low i.scale d k && !below i.closed i.high i.scale d k

/-- The greatest `d` with `d * 10 ^ k` at most the value. -/
def Interval.floor (i : Interval) (k : Int) : Nat :=
  (i.mid * Nat.pow 2 i.scale.toNat * Nat.pow 10 (-k).toNat) /
    (Nat.pow 10 k.toNat * Nat.pow 2 (-i.scale).toNat)

/-- The neighbour of the value on the grid `10 ^ k` that reads back; of two the nearer, and
the upper of two equally near. -/
def Interval.onGrid? (i : Interval) (k : Int) : Option Nat :=
  let d := i.floor k
  match i.contains d k && d ≠ 0, i.contains (d + 1) k with
  | true, true => if below true (2 * i.mid) i.scale (2 * d + 1) k then some d else some (d + 1)
  | true, false => some d
  | false, true => some (d + 1)
  | false, false => none

/-- A power of ten at or just above the leading digit of the value: `30103 / 100000` is the
decimal logarithm of two. -/
def leadingExponent (m : Nat) (e : Int) : Int := ((m.log2 : Int) + e) * 30103 / 100000 + 1

/-- The first grid on which the value has a neighbour that reads back. -/
def search (i : Interval) : Nat → Int → Nat × Int
  | 0, k => (i.floor k, k)
  | fuel + 1, k =>
    match i.onGrid? k with
    | some d => (d, k)
    | none => search i fuel (k - 1)

/-- Drops the zeros at the end of a decimal `d * 10 ^ k`. -/
def strip : Nat → Nat → Int → Nat × Int
  | 0, d, k => (d, k)
  | fuel + 1, d, k => if d % 10 = 0 ∧ d ≠ 0 then strip fuel (d / 10) (k + 1) else (d, k)

/-- The shortest `d * 10 ^ k` that reads back as `m * 2 ^ e`, for a positive `m`. -/
def decimal (m : Nat) (e : Int) : Nat × Int :=
  let (d, k) := search (.around m e) 20 (leadingExponent m e)
  strip 20 d k

end ClassScript.Shortest
