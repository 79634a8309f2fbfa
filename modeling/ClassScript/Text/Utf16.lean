/-!
Characters as 16-bit units.

A character above the first plane is a pair of surrogates. A surrogate that has lost its
partner is no character and reads as the replacement character.
-/

namespace ClassScript.Utf16

def isHigh (u : UInt16) : Bool := 0xd800 ≤ u && u ≤ 0xdbff

def isLow (u : UInt16) : Bool := 0xdc00 ≤ u && u ≤ 0xdfff

def replacement : Char := '�'

/-- The character of a surrogate pair. -/
def pair (hi lo : UInt16) : Char :=
  Char.ofNat (0x10000 + (hi.toNat - 0xd800) * 0x400 + (lo.toNat - 0xdc00))

def decode : List UInt16 → List Char
  | [] => []
  | [u] => if isHigh u || isLow u then [replacement] else [Char.ofNat u.toNat]
  | u :: v :: r =>
    if isHigh u then
      if isLow v then pair u v :: decode r else replacement :: decode (v :: r)
    else if isLow u then replacement :: decode (v :: r)
    else Char.ofNat u.toNat :: decode (v :: r)

/-- The units of one character. -/
def units (c : Char) : List UInt16 :=
  if c.toNat < 0x10000 then [.ofNat c.toNat]
  else
    let n := c.toNat - 0x10000
    [.ofNat (0xd800 + n / 0x400), .ofNat (0xdc00 + n % 0x400)]

end ClassScript.Utf16
