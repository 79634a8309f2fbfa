import ClassScript.Instruction
import ClassScript.Reader
import ClassScript.Script.Quoted

/-!
From a code array to instructions.

An opcode either is the whole instruction, or is followed by an index of one or two bytes,
by a branch offset, or by a layout of its own. `decode` reads instruction after instruction
to the end of the array, and then sees that every branch reaches the start of one.
-/

namespace ClassScript

inductive DecodeError where
  | unknownOpcode (pc : Nat) (opcode : UInt8)
  | badWide (pc : Nat) (opcode : UInt8)
  | truncated (pc : Nat)
  | badTarget (pc : Nat) (target : Int)
  | badSwitchRange (pc : Nat) (low high : Int32)
  | empty
  deriving DecidableEq, Repr

namespace DecodeError

def opcodeText (opcode : UInt8) : String := "0x" ++ String.ofList (Quoted.hex 2 opcode.toNat)

def message : DecodeError → String
  | unknownOpcode pc opcode => s!"unknown opcode {opcodeText opcode} at pc {pc}"
  | badWide pc opcode => s!"opcode {opcodeText opcode} cannot follow wide at pc {pc}"
  | truncated pc => s!"instruction at pc {pc} runs past the end of the code array"
  | badTarget pc target =>
    s!"branch at pc {pc} targets {target}, which is not an instruction boundary"
  | badSwitchRange pc low high => s!"tableswitch at pc {pc} has high {high} below low {low}"
  | empty => "empty code array"

end DecodeError

namespace Instruction

def arithOf : Nat → ArithOp
  | 0 => .add
  | 1 => .sub
  | 2 => .mul
  | 3 => .div
  | _ => .rem

def shiftOf : Nat → ShiftOp
  | 0 => .shl
  | 1 => .shr
  | _ => .ushr

def logicOf : Nat → LogicOp
  | 0 => .and
  | 1 => .or
  | _ => .xor

def condOf : Nat → Cond
  | 0 => .eq
  | 1 => .ne
  | 2 => .lt
  | 3 => .ge
  | 4 => .gt
  | _ => .le

def integralOf (n : Nat) : Kind := if n % 2 = 0 then .int else .long

/-- The instruction that an opcode is by itself. -/
def plain? (op : Nat) : Option Instruction :=
  if op = 0x00 then some nop
  else if op = 0x01 then some (push .null)
  else if op ≤ 0x08 then some (push (.int (.ofInt ((op : Int) - 0x03))))
  else if op ≤ 0x0a then some (push (.long (.ofNat (op - 0x09))))
  else if op ≤ 0x0d then some (push (.float (.ofInt (op - 0x0b : Nat))))
  else if op ≤ 0x0f then some (push (.double (.ofInt (op - 0x0e : Nat))))
  else if 0x1a ≤ op ∧ op ≤ 0x2d then
    some (load (.ofIndex ((op - 0x1a) / 4)) (.ofNat ((op - 0x1a) % 4)))
  else if 0x2e ≤ op ∧ op ≤ 0x35 then some (arrayLoad (.ofIndex (op - 0x2e)))
  else if 0x3b ≤ op ∧ op ≤ 0x4e then
    some (store (.ofIndex ((op - 0x3b) / 4)) (.ofNat ((op - 0x3b) % 4)))
  else if 0x4f ≤ op ∧ op ≤ 0x56 then some (arrayStore (.ofIndex (op - 0x4f)))
  else if op = 0x57 then some pop
  else if op = 0x58 then some pop2
  else if op = 0x59 then some dup
  else if op = 0x5a then some dupX1
  else if op = 0x5b then some dupX2
  else if op = 0x5c then some dup2
  else if op = 0x5d then some dup2X1
  else if op = 0x5e then some dup2X2
  else if op = 0x5f then some swap
  else if 0x60 ≤ op ∧ op ≤ 0x73 then
    some (arith (arithOf ((op - 0x60) / 4)) (.ofIndex ((op - 0x60) % 4)))
  else if 0x74 ≤ op ∧ op ≤ 0x77 then some (neg (.ofIndex (op - 0x74)))
  else if 0x78 ≤ op ∧ op ≤ 0x7d then
    some (shift (shiftOf ((op - 0x78) / 2)) (integralOf (op - 0x78)))
  else if 0x7e ≤ op ∧ op ≤ 0x83 then
    some (logic (logicOf ((op - 0x7e) / 2)) (integralOf (op - 0x7e)))
  else if 0x85 ≤ op ∧ op ≤ 0x93 then Conversion.all[op - 0x85]?.map convert
  else if op = 0x94 then some lcmp
  else if op = 0x95 then some (cmp .float false)
  else if op = 0x96 then some (cmp .float true)
  else if op = 0x97 then some (cmp .double false)
  else if op = 0x98 then some (cmp .double true)
  else if 0xac ≤ op ∧ op ≤ 0xb0 then some (returns (some (.ofIndex (op - 0xac))))
  else if op = 0xb1 then some (returns none)
  else if op = 0xbe then some arrayLength
  else if op = 0xbf then some athrow
  else if op = 0xc2 then some monitorEnter
  else if op = 0xc3 then some monitorExit
  else none

/-- The instruction of an opcode that takes a local index, of one byte or after `wide` of
two. -/
def onLocal? (op : Nat) (index : UInt16) : Option Instruction :=
  if 0x15 ≤ op ∧ op ≤ 0x19 then some (load (.ofIndex (op - 0x15)) index)
  else if 0x36 ≤ op ∧ op ≤ 0x3a then some (store (.ofIndex (op - 0x36)) index)
  else if op = 0xa9 then some (ret index)
  else none

/-- The instruction of an opcode that takes a pool index of two bytes. -/
def onPool? (op : Nat) (index : UInt16) : Option Instruction :=
  if op = 0x13 ∨ op = 0x14 then some (ldc index)
  else if op = 0xb2 then some (getStatic index)
  else if op = 0xb3 then some (putStatic index)
  else if op = 0xb4 then some (getField index)
  else if op = 0xb5 then some (putField index)
  else if op = 0xb6 then some (invoke .virtual index)
  else if op = 0xb7 then some (invoke .special index)
  else if op = 0xb8 then some (invoke .static index)
  else if op = 0xbb then some (new index)
  else if op = 0xbd then some (newRefArray index)
  else if op = 0xc0 then some (checkCast index)
  else if op = 0xc1 then some (instanceOf index)
  else none

/-- The instruction of an opcode that takes a branch offset of two bytes. -/
def onBranch? (op : Nat) (target : Nat) : Option Instruction :=
  if 0x99 ≤ op ∧ op ≤ 0x9e then some (ifZero (condOf (op - 0x99)) target)
  else if 0x9f ≤ op ∧ op ≤ 0xa4 then some (ifInt (condOf (op - 0x9f)) target)
  else if op = 0xa5 then some (ifRef true target)
  else if op = 0xa6 then some (ifRef false target)
  else if op = 0xa7 then some (goto target)
  else if op = 0xa8 then some (jsr target)
  else if op = 0xc6 then some (ifNull true target)
  else if op = 0xc7 then some (ifNull false target)
  else none

open Reader

abbrev Decoder := Reader DecodeError

/-- The address at an offset from `pc`, which lies inside the array. -/
def target (len pc : Nat) (offset : Int) : Decoder Nat :=
  let t := pc + offset
  if t < 0 ∨ len ≤ t then fail (.badTarget pc t) else return t.toNat

/-- Operands of a switch start at a multiple of four. -/
def skipPadding (pc : Nat) : Decoder Unit :=
  modify fun i =>
    let n := (4 - (pc + 1) % 4) % 4
    ⟨i.offset + n, i.rest.drop n⟩

def decodeTableSwitch (len pc : Nat) : Decoder Instruction := do
  skipPadding pc
  let default ← target len pc (← i32).toInt
  let low ← i32
  let high ← i32
  if high < low then fail (.badSwitchRange pc low high)
  let targets ← many (high.toInt - low.toInt + 1).toNat do target len pc (← i32).toInt
  return tableSwitch default low targets

def decodeLookupSwitch (len pc : Nat) : Decoder Instruction := do
  skipPadding pc
  let default ← target len pc (← i32).toInt
  let n ← i32
  let pairs ← many n.toInt.toNat do
    let key ← i32
    return (key, ← target len pc (← i32).toInt)
  return lookupSwitch default pairs

/-- The opcode after `wide`, with operands twice as long. -/
def decodeWide (pc : Nat) : Decoder Instruction := do
  let op ← u8
  let index ← u16
  if op = 0x84 then return iinc index (← i16)
  match onLocal? op.toNat index with
  | some i => return i
  | none => fail (.badWide pc op)

/-- The instruction at the front of the input. -/
def decodeOne (len : Nat) : Decoder Instruction := do
  let pc ← offset
  let opcode ← u8
  let op := opcode.toNat
  if let some i := plain? op then return i
  else if op = 0x10 then return push (.int (← i8).toInt32)
  else if op = 0x11 then return push (.int (← i16).toInt32)
  else if op = 0x12 then return ldc (← u8).toUInt16
  else if (onLocal? op 0).isSome then
    match onLocal? op (← u8).toUInt16 with
    | some i => return i
    | none => fail (.unknownOpcode pc opcode)
  else if (onPool? op 0).isSome then
    match onPool? op (← u16) with
    | some i => return i
    | none => fail (.unknownOpcode pc opcode)
  else if (onBranch? op 0).isSome then
    match onBranch? op (← target len pc (← i16).toInt) with
    | some i => return i
    | none => fail (.unknownOpcode pc opcode)
  else if op = 0x84 then return iinc (← u8).toUInt16 (← i8).toInt16
  else if op = 0xaa then decodeTableSwitch len pc
  else if op = 0xab then decodeLookupSwitch len pc
  else if op = 0xb9 then
    let index ← u16
    -- an argument count and a zero, both without effect
    let _ ← u16
    return invoke .interface index
  else if op = 0xba then
    let index ← u16
    let _ ← u16
    return invokeDynamic index
  else if op = 0xbc then
    let code ← u8
    match ArrayKind.ofTypeCode? code.toNat with
    | some kind => return newArray kind
    | none => fail (.unknownOpcode pc code)
  else if op = 0xc4 then decodeWide pc
  else if op = 0xc5 then return newMultiArray (← u16) (← u8)
  else if op = 0xc8 then return goto (← target len pc (← i32).toInt)
  else if op = 0xc9 then return jsr (← target len pc (← i32).toInt)
  else fail (.unknownOpcode pc opcode)

/-- Instruction after instruction; each takes a byte at least, so `fuel` of the length of
the input is enough. -/
def decodeFrom (len : Nat) : Nat → Input → Except DecodeError (List Located)
  | 0, _ => .ok []
  | fuel + 1, input =>
    if input.rest.isEmpty then .ok []
    else
      match (decodeOne len).run input with
      | .ok (i, rest) => (decodeFrom len fuel rest).map (⟨input.offset, i⟩ :: ·)
      | .error .endOfData => .error (.truncated input.offset)
      | .error (.fault e) => .error e

/-- The first branch that does not reach the start of an instruction. -/
def badTarget? (code : List Located) : Option (Nat × Nat) :=
  let starts := code.map Located.address
  code.findSome? fun l =>
    (l.instruction.targets.find? (!starts.contains ·)).map (l.address, ·)

/-- The instructions of a code array. -/
def decode (bytes : Bytes) : Except DecodeError (List Located) := do
  if bytes.isEmpty then throw .empty
  let code ← decodeFrom bytes.length bytes.length (.start bytes)
  match badTarget? code with
  | some (pc, t) => throw (.badTarget pc t)
  | none => return code

end Instruction

end ClassScript
