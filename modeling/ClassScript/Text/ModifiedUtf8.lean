import ClassScript.Bytes
import ClassScript.Text.Utf16

/-!
The text encoding of class files.

Each 16-bit unit is written on its own in one, two or three bytes; a zero unit takes two, so
no byte of a text is zero. Longer forms than needed are accepted, four-byte forms are not.
-/

namespace ClassScript.ModifiedUtf8

/-- Is the byte of the shape `10xxxxxx`? -/
def isTail (b : UInt8) : Bool := b &&& 0xc0 == 0x80

def two (b c : UInt8) : UInt16 := ((b &&& 0x1f).toUInt16 <<< 6) ||| (c &&& 0x3f).toUInt16

def three (b c d : UInt8) : UInt16 :=
  ((b &&& 0x0f).toUInt16 <<< 12) ||| ((c &&& 0x3f).toUInt16 <<< 6) ||| (d &&& 0x3f).toUInt16

/-- The units that the bytes encode, if they fall into groups. -/
def units : Bytes → Option (List UInt16)
  | [] => some []
  | b :: r =>
    if b &&& 0x80 == 0 then
      if b == 0 then none else (units r).map (b.toUInt16 :: ·)
    else if b &&& 0xe0 == 0xc0 then
      match r with
      | c :: r => if isTail c then (units r).map (two b c :: ·) else none
      | [] => none
    else if b &&& 0xf0 == 0xe0 then
      match r with
      | c :: d :: r => if isTail c && isTail d then (units r).map (three b c d :: ·) else none
      | _ => none
    else none

def decode (bs : Bytes) : Option String := (units bs).map (String.ofList ∘ Utf16.decode)

/-- The byte `10xxxxxx` of the low six bits. -/
def tail (u : UInt16) : UInt8 := (u &&& 0x3f).toUInt8 ||| 0x80

/-- The shortest group of a unit. -/
def group (u : UInt16) : Bytes :=
  if u ≠ 0 ∧ u < 0x80 then [u.toUInt8]
  else if u < 0x800 then [(u >>> 6).toUInt8 ||| 0xc0, tail u]
  else [(u >>> 12).toUInt8 ||| 0xe0, tail (u >>> 6), tail u]

def encode (s : String) : Bytes := (s.toList.flatMap Utf16.units).flatMap group

end ClassScript.ModifiedUtf8
