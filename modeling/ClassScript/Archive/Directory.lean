import ClassScript.Archive.Entry

/-!
The directory of an archive.

A record near the end of an archive tells where its directory is. Positions are relative to
the start of the archive, in front of which there may be other bytes: the directory starts
where the first entry is found. When its numbers do not fit, a wider record counts instead,
which a locator right in front of the record leads to.

The last record that leads to a directory counts. Of the failures on the way, the first to
read a record is remembered until a later record proves inconsistent; both are forgotten
when a directory was found but could not be read.
-/

namespace ClassScript.Archive

structure EndRecord where
  position : Nat
  disk : Nat
  directoryDisk : Nat
  /-- How many entries are on this disk, and how many in all. -/
  count : Nat
  total : Nat
  offset : Nat
  deriving DecidableEq, Repr

def EndRecord.read : Read EndRecord := do
  let position ← Reader.offset
  expect endMark
  let disk ← low 2
  let directoryDisk ← low 2
  let count ← low 2
  let total ← low 2
  skip 4
  let offset ← low 4
  let commentLength ← low 2
  if (← get).rest.length < commentLength then Reader.fail ()
  return { position, disk, directoryDisk, count, total, offset }

/-- Where the wider record is. -/
structure Locator where
  position : Nat
  directoryDisk : Nat
  offset : Nat
  disks : Nat
  deriving DecidableEq, Repr

namespace Locator

/-- The number of bytes of a locator. -/
def width : Nat := 20

def read : Read Locator := do
  let position ← Reader.offset
  expect locatorMark
  let directoryDisk ← low 4
  let offset ← low 8
  let disks ← low 4
  return { position, directoryDisk, offset, disks }

/-- The locator of a record, if the record may need one. -/
def of? (bs : Bytes) (r : EndRecord) : Option Locator :=
  if (r.total = 0xffff ∨ r.offset = wide) ∧ width ≤ r.position then
    (readAt read bs (r.position - width)).toOption
  else none

end Locator

structure WideEndRecord where
  position : Nat
  madeBy : Nat
  needed : Nat
  disk : Nat
  directoryDisk : Nat
  count : Nat
  total : Nat
  offset : Nat
  deriving DecidableEq, Repr

/-- The least number of bytes of an entry. -/
def Entry.width : Nat := 46

/-- Reads a wider record, which has to reach up to the locator, to agree with it, and to
leave room for its directory. -/
def WideEndRecord.read (l : Locator) : Read WideEndRecord := do
  let position ← Reader.offset
  expect wideEndMark
  let length ← low 8
  let madeBy ← low 2
  let needed ← low 2
  let disk ← low 4
  let directoryDisk ← low 4
  let count ← low 8
  let total ← low 8
  skip 8
  let offset ← low 8
  if length < 44 then Reader.fail ()
  if length + 12 ≠ l.position - position then Reader.fail ()
  if directoryDisk ≠ l.directoryDisk then Reader.fail ()
  if position < total * Entry.width + offset then Reader.fail ()
  return { position, madeBy, needed, disk, directoryDisk, count, total, offset }

/-- Where a directory is. -/
structure Place where
  /-- Where the archive starts. -/
  base : Nat
  start : Nat
  count : Nat
  /-- The record that led here can be followed. -/
  isSound : Bool
  deriving DecidableEq, Repr

namespace Place

/-- The first wider record that holds together; without one the last failure counts. -/
def ofWide (bs : Bytes) (l : Locator) : Failure → List Nat → Except Failure Place
  | f, [] => .error f
  | _, position :: rest =>
    match readAt (WideEndRecord.read l) bs position with
    | .error f => ofWide bs l f rest
    | .ok r =>
      let base := position - l.offset
      .ok ⟨base, base + r.offset, r.total,
        r.count ≤ r.total && r.needed ≤ r.madeBy && r.disk == r.directoryDisk⟩

/-- The place that a record leads to. -/
def of (bs : Bytes) (r : EndRecord) : Except Failure Place :=
  let isSound := r.disk == r.directoryDisk
  match Locator.of? bs r with
  | some l =>
    if l.position ≤ l.offset ∨ 1 < l.disks then .error (.fault ())
    else ofWide bs l (.fault ()) (positions wideEndMark bs l.offset l.position)
  | none =>
    if r.total = 0 then
      let base := r.position - r.offset
      .ok ⟨base, base + r.offset, r.count, isSound⟩
    else
      match (positions entryMark bs r.offset r.position).head? with
      | some start => .ok ⟨start - r.offset, start, r.count, isSound⟩
      | none => .error (.fault ())

/-- The entries of the directory at a place. -/
def entries (bs : Bytes) (p : Place) : Except Failure (List Entry) :=
  if p.isSound then readAt (Reader.many p.count (Entry.next p.base p.start)) bs p.start
  else .error (.fault ())

end Place

/-- The directory that the first of the records at some positions leads to, after a failure
that is remembered. -/
def directoryFrom (bs : Bytes) : Option Failure → List Nat → Except Failure (List Entry)
  | f, [] => .error (f.getD (.fault ()))
  | f, position :: rest =>
    match readAt EndRecord.read bs position with
    | .error g => directoryFrom bs (some (f.getD g)) rest
    | .ok r =>
      match Place.of bs r with
      | .error g => directoryFrom bs (some g) rest
      | .ok p =>
        match p.entries bs with
        | .error _ => directoryFrom bs none rest
        | .ok entries => .ok entries

def directory (bs : Bytes) : Except Failure (List Entry) :=
  directoryFrom bs none (positions endMark bs 0 bs.length).reverse

end ClassScript.Archive
