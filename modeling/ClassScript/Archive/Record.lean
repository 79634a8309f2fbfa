import ClassScript.Reader

/-!
Records of an archive.

An archive is a sequence of records and data in no fixed order. A record starts with a mark,
by which it can be found, and goes on with numbers, lowest byte first.
-/

namespace ClassScript.Archive

/-- A record ends with the archive too early, or does not hold together. -/
abbrev Failure := ReadFailure Unit

abbrev Read := Reader Unit

/-- A number of `n` bytes, lowest first. -/
def low (n : Nat) : Read Nat := return Bytes.toNatLow (← Reader.take n)

def skip (n : Nat) : Read Unit := discard (Reader.take n)

def entryMark : Bytes := [0x50, 0x4b, 0x01, 0x02]
def dataMark : Bytes := [0x50, 0x4b, 0x03, 0x04]
def endMark : Bytes := [0x50, 0x4b, 0x05, 0x06]
def wideEndMark : Bytes := [0x50, 0x4b, 0x06, 0x06]
def locatorMark : Bytes := [0x50, 0x4b, 0x06, 0x07]

def expect (mark : Bytes) : Read Unit := do
  if (← Reader.take mark.length) ≠ mark then Reader.fail ()

/-- What a reader finds at a position. -/
def readAt {α : Type} (r : Read α) (bs : Bytes) (position : Nat) : Except Failure α :=
  (r.run ⟨position, bs.drop position⟩).map Prod.fst

/-- The positions from `n` on, counted at the front of the bytes, where the mark stands. -/
def positionsFrom (mark : Bytes) : Nat → Bytes → List Nat
  | _, [] => []
  | n, b :: bs =>
    let rest := positionsFrom mark (n + 1) bs
    if mark.isPrefixOf (b :: bs) then n :: rest else rest

/-- The positions of the mark from `first` on and before `limit`. -/
def positions (mark : Bytes) (bs : Bytes) (first limit : Nat) : List Nat :=
  (positionsFrom mark first (bs.drop first)).takeWhile (· < limit)

end ClassScript.Archive
