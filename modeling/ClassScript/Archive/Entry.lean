import ClassScript.Archive.Checksum
import ClassScript.Archive.Record
import ClassScript.Text.Utf8

/-!
Entries of the directory of an archive.

An entry gives the name and the sizes of a file, and where its data is. Further fields may
follow the name; some of them replace what the entry says. A field that the entry ends in
the middle of is where they stop to count.
-/

namespace ClassScript.Archive

/-- What is known of a file from its entry. -/
structure Entry where
  name : String
  /-- The name as it is written. -/
  nameBytes : Bytes
  comment : String
  /-- The data cannot be read without a key. -/
  isLocked : Bool
  /-- A further field tells how the data is locked. -/
  hasLock : Bool
  method : Nat
  checksum : UInt32
  size : Nat
  packedSize : Nat
  /-- Where the record in front of the data is. -/
  start : Nat
  deriving DecidableEq, Repr

/-! ### Text -/

/-- The characters above the first 128 of the code page that unmarked text is in. -/
def codePage : Array Char :=
  ("ÇüéâäàåçêëèïîìÄÅÉæÆôöòûùÿÖÜ¢£¥₧ƒáíóúñÑªº¿⌐¬½¼¡«»░▒▓│┤╡╢╖╕╣║╗╝╜╛┐" ++
    "└┴┬├─┼╞╟╚╔╩╦╠═╬╧╨╤╥╙╘╒╓╫╪┘┌█▄▌▐▀αßΓπΣσµτΦΘΩδ∞φε∩≡±≥≤⌠⌡÷≈°∙·√ⁿ²■\u00a0").toList.toArray

def codePageChar (b : UInt8) : Char :=
  if b < 0x80 then Char.ofNat b.toNat else codePage[b.toNat - 0x80]?.getD '?'

def text (isUtf8 : Bool) (bs : Bytes) : String :=
  if isUtf8 then Utf8.text bs else String.ofList (bs.map codePageChar)

/-! ### Further fields -/

/-- Reading fields, which change the entry as they go; what a field has changed stays when
it ends early. -/
abbrev Noting := StateT Input (ExceptT Failure (StateM Entry))

namespace Noting

def read {α : Type} (r : Read α) : Noting α := fun i =>
  match r i with
  | .ok result => pure result
  | .error f => throw f

def fail {α : Type} : Noting α := read (Reader.fail ())

def entry : Noting Entry := monadLift (get : StateM Entry Entry)

def note (change : Entry → Entry) : Noting Unit := monadLift (modify change : StateM Entry Unit)

end Noting

/-- A size that does not fit in four bytes stands as this one. -/
def wide : Nat := 0xffffffff

open Noting in
/-- Sizes and position in eight bytes: all three, or those that did not fit. -/
def noteWide (length : Nat) : Noting Unit := do
  let isFull := 24 ≤ length
  let hasSize := isFull || (← entry).size == wide
  if hasSize then
    let n ← read (low 8)
    note fun e => { e with size := n }
  let hasPackedSize := isFull || (← entry).packedSize == wide
  if hasPackedSize then
    let n ← read (low 8)
    note fun e => { e with packedSize := n }
  let hasStart := isFull || (← entry).start == wide
  if hasStart then
    let n ← read (low 8)
    note fun e => { e with start := n }
  let taken := 8 * (hasSize.toNat + hasPackedSize.toNat + hasStart.toNat)
  if length < taken then fail else read (skip (length - taken))

open Noting in
/-- Three times, in a list with a single attribute of 24 bytes. -/
def checkFileTimes (length : Nat) : Noting Unit := do
  if length ≠ 32 then fail
  read (skip 4)
  if (← read (low 2)) ≠ 1 then fail
  if (← read (low 2)) ≠ 24 then fail
  read (skip 24)

open Noting in
/-- Up to three times of four bytes, as three flags tell; with room for a single one the
flags may tell of more. -/
def checkTimes (length : Nat) : Noting Unit := do
  let flags ← read (low 1)
  let count := ((List.range 8).filter flags.testBit).length
  if length ≠ 5 ∧ length ≠ 1 + 4 * count then fail
  if 8 ≤ flags then fail
  read (skip (length - 1))

open Noting in
/-- The data is encrypted, and packed by a method that the field names. -/
def noteLock (length : Nat) : Noting Unit := do
  if length ≠ 7 then fail
  let version ← read (low 2)
  let vendor ← read (low 2)
  let strength ← read (low 1)
  let method ← read (low 2)
  if vendor ≠ 0x4541 then fail
  if version ≠ 1 ∧ version ≠ 2 then fail
  if strength = 0 ∨ 3 < strength then fail
  note fun e => { e with isLocked := true, hasLock := true, method }

open Noting in
/-- A text in UTF-8 that is to replace another, of which it holds the checksum. -/
def replacing (length : Nat) (replaced : Bytes) : Noting (String × Bytes) := do
  read (skip 1)
  let checksum ← read (low 4)
  if length < 5 then fail
  let bytes ← read (Reader.take (length - 5))
  if checksum ≠ (Checksum.of replaced).toNat then fail
  match Utf8.text? bytes with
  | some t => return (t, bytes)
  | none => fail

open Noting in
/-- Reads a field. -/
def noteField : Noting Unit := do
  let kind ← read (low 2)
  let length ← read (low 2)
  match kind with
  | 0x0001 => noteWide length
  | 0x000a => checkFileTimes length
  | 0x5455 => checkTimes length
  | 0x9901 => noteLock length
  | 0x6375 =>
    let (comment, _) ← replacing length (Utf8.encode (← entry).comment)
    note fun e => { e with comment }
  | 0x7075 =>
    let (name, nameBytes) ← replacing length (← entry).nameBytes
    note fun e => { e with name, nameBytes }
  | _ => read (skip length)

/-- Reads fields to the end. Each takes a byte at least. -/
def noteFields : Nat → Noting Unit
  | 0 => return ()
  | fuel + 1 => do
    if (← get).rest.isEmpty then return ()
    noteField
    noteFields fuel

/-- The entry, changed as its further fields tell. -/
def Entry.extended (e : Entry) (fields : Bytes) : Except Failure Entry :=
  match ((noteFields fields.length).run (.start fields)).run.run e with
  | (.error (.fault cause), _) => .error (.fault cause)
  | (_, e) => .ok e

/-! ### Records -/

/-- The method that stands for encrypted data, of which a further field has to tell more. -/
def lockedMethod : Nat := 99

/-- The next entry of a directory at `directoryStart`, in an archive that starts at `base`.
Data comes before the directory. -/
def Entry.next (base directoryStart : Nat) : Read Entry := do
  expect entryMark
  skip 4
  let flags ← low 2
  let method ← low 2
  skip 4
  let checksum ← low 4
  let packedSize ← low 4
  let size ← low 4
  let nameLength ← low 2
  let fieldsLength ← low 2
  let commentLength ← low 2
  skip 8
  let start ← low 4
  let nameBytes ← Reader.take nameLength
  let fields ← Reader.take fieldsLength
  let comment ← Reader.take commentLength
  let isUtf8 := flags.testBit 11
  let plain : Entry :=
    { name := text isUtf8 nameBytes, nameBytes, comment := text isUtf8 comment,
      isLocked := flags.testBit 0, hasLock := false, method, checksum := .ofNat checksum, size,
      packedSize, start }
  match plain.extended fields with
  | .error f => throw f
  | .ok e =>
    if e.method = lockedMethod ∧ !e.hasLock then Reader.fail ()
    if directoryStart ≤ base + e.start then Reader.fail ()
    return { e with start := base + e.start }

end ClassScript.Archive
