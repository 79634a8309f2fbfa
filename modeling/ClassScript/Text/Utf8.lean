import ClassScript.Bytes
import ClassScript.Text.Utf16

/-!
UTF-8 that need not be well formed.

A run of bytes that starts a character and cannot be completed reads as one replacement
character, and reading goes on at the byte that did not fit.
-/

namespace ClassScript.Utf8

def isTail (b : UInt8) : Bool := 0x80 ≤ b && b ≤ 0xbf

/-- May `b` follow the lead byte of a group of three? -/
def isSecondOfThree (lead b : UInt8) : Bool :=
  isTail b && (lead != 0xe0 || 0xa0 ≤ b) && (lead != 0xed || b ≤ 0x9f)

/-- May `b` follow the lead byte of a group of four? -/
def isSecondOfFour (lead b : UInt8) : Bool :=
  isTail b && (lead != 0xf0 || 0x90 ≤ b) && (lead != 0xf4 || b ≤ 0x8f)

/-- The character of a lead byte, given its own bits, and the tail bytes after it. -/
def assemble (lead : Nat) (tail : List UInt8) : Char :=
  Char.ofNat (tail.foldl (fun n b => n * 64 + b.toNat % 64) lead)

open Utf16 (replacement) in
/-- The character that starts at `a`, and how many of the bytes after `a` belong to it. -/
def first (a : UInt8) (r : Bytes) : Char × Nat :=
  if a < 0x80 then (Char.ofNat a.toNat, 0)
  else if 0xc2 ≤ a && a ≤ 0xdf then
    match r with
    | b :: _ => if isTail b then (assemble (a.toNat % 32) [b], 1) else (replacement, 0)
    | [] => (replacement, 0)
  else if 0xe0 ≤ a && a ≤ 0xef then
    match r with
    | b :: c :: _ =>
      if isSecondOfThree a b then
        if isTail c then (assemble (a.toNat % 16) [b, c], 2) else (replacement, 1)
      else (replacement, 0)
    | [b] => (replacement, if isSecondOfThree a b then 1 else 0)
    | [] => (replacement, 0)
  else if 0xf0 ≤ a && a ≤ 0xf4 then
    match r with
    | b :: c :: d :: _ =>
      if isSecondOfFour a b then
        if isTail c then
          if isTail d then (assemble (a.toNat % 8) [b, c, d], 3) else (replacement, 2)
        else (replacement, 1)
      else (replacement, 0)
    | [b, c] => (replacement, if isSecondOfFour a b then (if isTail c then 2 else 1) else 0)
    | [b] => (replacement, if isSecondOfFour a b then 1 else 0)
    | [] => (replacement, 0)
  else (replacement, 0)

/-- Reads on after `skip` bytes that the last character has taken. -/
def decodeAfter : Nat → Bytes → List Char
  | _, [] => []
  | skip + 1, _ :: r => decodeAfter skip r
  | 0, a :: r => (first a r).1 :: decodeAfter (first a r).2 r

/-- The text of the bytes, with replacement characters where they are not UTF-8. -/
def text (bs : Bytes) : String := String.ofList (decodeAfter 0 bs)

def encode (s : String) : Bytes := s.toUTF8.data.toList

/-- The text of the bytes, if all of them are UTF-8. -/
def text? (bs : Bytes) : Option String :=
  let t := text bs
  if encode t = bs then some t else none

end ClassScript.Utf8
