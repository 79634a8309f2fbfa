import ClassScript.Bytes

/-!
Data in the deflate format.

The data is a sequence of blocks of bits, the last of them marked. A block holds plain bytes,
or symbols of two prefix codes, fixed or described at its start. A symbol is a byte, the end
of the block, or the length of a copy of bytes that have come before, followed by the
distance to them.
-/

namespace ClassScript.Inflate

abbrev Bits := List Bool

/-- The bits of the bytes, the lowest of each byte first. -/
def bits (bs : Bytes) : Bits := bs.flatMap fun b => (List.range 8).map b.toNat.testBit

/-- Why there is no data: the bits end too early, or make no sense. -/
inductive Fault where
  | ended
  | corrupt
  deriving DecidableEq, Repr

/-- Bits are taken from the front. -/
abbrev Take := StateT Bits (Except Fault)

def bit : Take Bool := fun
  | [] => .error .ended
  | b :: r => .ok (b, r)

/-- A number of `n` bits, the lowest first. -/
def number : Nat → Take Nat
  | 0 => return 0
  | n + 1 => do
    let b ← bit
    return b.toNat + 2 * (← number n)

/-! ### Prefix codes -/

/-- A code is given by how many symbols have each length, from one up, and the symbols in
the order of their lengths. -/
structure Code where
  counts : List Nat
  symbols : Array Nat

namespace Code

def maxLength : Nat := 15

/-- The code in which the `n`-th symbol has the `n`-th length; none has length zero. -/
def ofLengths (lengths : List Nat) : Code :=
  let withLength (n : Nat) : List Nat :=
    lengths.zipIdx.filterMap fun (l, symbol) => if l = n then some symbol else none
  let groups := (List.range maxLength).map fun n => withLength (n + 1)
  ⟨groups.map List.length, groups.flatten.toArray⟩

/-- How much of the code space the lengths from `n` on fill, in units of the longest. -/
def filled : Nat → List Nat → Nat
  | _, [] => 0
  | n, c :: cs => c * Nat.pow 2 (maxLength - n) + filled (n + 1) cs

def isFull (c : Code) : Bool := filled 1 c.counts == Nat.pow 2 maxLength

/-- A code has to fill its space, unless it has no symbol, or only one, of length one. -/
def isUsable (c : Code) : Bool :=
  c.isFull || (c.symbols.size ≤ 1 && c.counts.head? == some c.symbols.size)

/-- Reads a symbol. At each length, `code` is what has been read, `first` the first code of
that length, and `index` the place of its symbol. What has been read makes no sense as soon
as no longer code is left. -/
def symbolFrom (symbols : Array Nat) : List Nat → Nat → Nat → Nat → Take Nat
  | [], _, _, _ => throw .corrupt
  | count :: counts, code, first, index => do
    let code := 2 * code + (← bit).toNat
    if code < first + count then
      match symbols[index + (code - first)]? with
      | some s => return s
      | none => throw .corrupt
    else if index + count = symbols.size then throw .corrupt
    else symbolFrom symbols counts code (2 * (first + count)) (index + count)

def symbol (c : Code) : Take Nat := symbolFrom c.symbols c.counts 0 0 0

end Code

/-- The code of bytes, ends and lengths, and the code of distances. -/
structure Codes where
  literals : Code
  distances : Code

def fixedCodes : Codes :=
  ⟨.ofLengths (List.replicate 144 8 ++ List.replicate 112 9 ++ List.replicate 24 7 ++
    List.replicate 8 8), .ofLengths (List.replicate 32 5)⟩

/-- The order in which the lengths of the length code are written. -/
def lengthOrder : List Nat := [16, 17, 18, 0, 8, 7, 9, 6, 10, 5, 11, 4, 12, 3, 13, 2, 14, 1, 15]

/-- Adds lengths of codes to those read, latest first, until there are `total`. Each round
adds one at least. -/
def lengths (c : Code) (total : Nat) : Nat → List Nat → Take (List Nat)
  | fuel, read =>
    if total ≤ read.length then
      if read.length = total then return read.reverse else throw .corrupt
    else
      match fuel with
      | 0 => throw .ended
      | fuel + 1 => do
        match ← c.symbol with
        | 16 =>
          match read with
          | [] => throw .corrupt
          | last :: _ => lengths c total fuel (List.replicate (3 + (← number 2)) last ++ read)
        | 17 => lengths c total fuel (List.replicate (3 + (← number 3)) 0 ++ read)
        | 18 => lengths c total fuel (List.replicate (11 + (← number 7)) 0 ++ read)
        | n => lengths c total fuel (n :: read)

/-- The codes that a block describes. -/
def readCodes : Take Codes := do
  let literals := 257 + (← number 5)
  let distances := 1 + (← number 5)
  let described := 4 + (← number 4)
  if 286 < literals || 30 < distances then throw .corrupt
  let given ← (List.range described).mapM fun _ => number 3
  let table := lengthOrder.zip given
  let c := Code.ofLengths ((List.range 19).map fun n => (table.lookup n).getD 0)
  if !c.isFull then throw .corrupt
  let total := literals + distances
  let all ← lengths c total total []
  let codes : Codes := ⟨.ofLengths (all.take literals), .ofLengths (all.drop literals)⟩
  if codes.literals.isUsable && codes.distances.isUsable then return codes else throw .corrupt

/-! ### Copies -/

/-- The first value of each length symbol from 257 on, and the number of further bits. -/
def lengthBases : Array (Nat × Nat) :=
  #[(3, 0), (4, 0), (5, 0), (6, 0), (7, 0), (8, 0), (9, 0), (10, 0), (11, 1), (13, 1), (15, 1),
    (17, 1), (19, 2), (23, 2), (27, 2), (31, 2), (35, 3), (43, 3), (51, 3), (59, 3), (67, 4),
    (83, 4), (99, 4), (115, 4), (131, 5), (163, 5), (195, 5), (227, 5), (258, 0)]

def distanceBases : Array (Nat × Nat) :=
  #[(1, 0), (2, 0), (3, 0), (4, 0), (5, 1), (7, 1), (9, 2), (13, 2), (17, 3), (25, 3), (33, 4),
    (49, 4), (65, 5), (97, 5), (129, 6), (193, 6), (257, 7), (385, 7), (513, 8), (769, 8),
    (1025, 9), (1537, 9), (2049, 10), (3073, 10), (4097, 11), (6145, 11), (8193, 12),
    (12289, 12), (16385, 13), (24577, 13)]

def extended (bases : Array (Nat × Nat)) (i : Nat) : Take Nat := do
  match bases[i]? with
  | none => throw .corrupt
  | some (base, extra) => return base + (← number extra)

/-- Repeats bytes that came `distance` ago; before the start there are zeros. -/
def copy (distance : Nat) : Nat → Array UInt8 → Array UInt8
  | 0, out => out
  | n + 1, out =>
    let b := if distance ≤ out.size then out[out.size - distance]?.getD 0 else 0
    copy distance n (out.push b)

/-! ### Blocks -/

/-- The symbols of a block, up to its end. Each takes a bit at least. -/
def symbols (c : Codes) : Nat → Array UInt8 → Take (Array UInt8)
  | 0, _ => throw .ended
  | fuel + 1, out => do
    let s ← c.literals.symbol
    if s < 256 then symbols c fuel (out.push (.ofNat s))
    else if s = 256 then return out
    else
      let length ← extended lengthBases (s - 257)
      let distance ← extended distanceBases (← c.distances.symbol)
      symbols c fuel (copy distance length out)

/-- Plain bytes, from the next whole byte on: their number, its complement, and they. -/
def plain (out : Array UInt8) : Take (Array UInt8) := do
  modify fun r => r.drop (r.length % 8)
  let n ← number 16
  let complement ← number 16
  if n + complement ≠ 0xffff then throw .corrupt
  let data ← (List.range n).mapM fun _ => number 8
  return out ++ (data.map UInt8.ofNat).toArray

def block (out : Array UInt8) : Take (Array UInt8) := do
  match ← number 2 with
  | 0 => plain out
  | 1 => symbols fixedCodes (← get).length out
  | 2 =>
    let codes ← readCodes
    symbols codes (← get).length out
  | _ => throw .corrupt

/-- Blocks up to the last. -/
def blocks : Nat → Array UInt8 → Take (Array UInt8)
  | 0, _ => throw .ended
  | fuel + 1, out => do
    let last ← bit
    let out ← block out
    if last then return out else blocks fuel out

/-- The data that the bytes hold. Bytes after the last block do not count. -/
def inflate (bs : Bytes) : Except Fault Bytes :=
  let input := bits bs
  (blocks input.length #[] input).map (·.1.toList)

end ClassScript.Inflate
