import ClassScript.Floating
import ClassScript.Kind

/-!
Decoded instructions.

Opcodes that share a behaviour are one constructor, and every branch carries the absolute
address of its target.
-/

namespace ClassScript

/-- A constant that an instruction holds in itself. -/
inductive Immediate where
  | null
  | int (value : Int32)
  | long (value : Int64)
  | float (value : Binary32)
  | double (value : Binary64)
  deriving DecidableEq, Repr

inductive Instruction where
  | nop
  | push (value : Immediate)
  | ldc (index : UInt16)
  | load (kind : Kind) (index : UInt16)
  | store (kind : Kind) (index : UInt16)
  | arrayLoad (kind : ArrayKind)
  | arrayStore (kind : ArrayKind)
  | pop
  | pop2
  | dup
  | dupX1
  | dupX2
  | dup2
  | dup2X1
  | dup2X2
  | swap
  | arith (op : ArithOp) (kind : Kind)
  | neg (kind : Kind)
  | shift (op : ShiftOp) (kind : Kind)
  | logic (op : LogicOp) (kind : Kind)
  | iinc (index : UInt16) (delta : Int16)
  | convert (conversion : Conversion)
  | lcmp
  /-- Compares floats or doubles; what is no number counts as greater when `nanGreater`. -/
  | cmp (kind : Kind) (nanGreater : Bool)
  /-- Compares an int with zero. -/
  | ifZero (cond : Cond) (target : Nat)
  | ifInt (cond : Cond) (target : Nat)
  | ifRef (equal : Bool) (target : Nat)
  | ifNull (null : Bool) (target : Nat)
  | goto (target : Nat)
  | jsr (target : Nat)
  | ret (index : UInt16)
  | tableSwitch (default : Nat) (low : Int32) (targets : List Nat)
  | lookupSwitch (default : Nat) (pairs : List (Int32 × Nat))
  | returns (kind : Option Kind)
  | getStatic (index : UInt16)
  | putStatic (index : UInt16)
  | getField (index : UInt16)
  | putField (index : UInt16)
  | invoke (kind : InvokeKind) (index : UInt16)
  | invokeDynamic (index : UInt16)
  | new (index : UInt16)
  | newArray (kind : ArrayKind)
  | newRefArray (index : UInt16)
  | arrayLength
  | athrow
  | checkCast (index : UInt16)
  | instanceOf (index : UInt16)
  | monitorEnter
  | monitorExit
  | newMultiArray (index : UInt16) (dimensions : UInt8)
  deriving DecidableEq, Repr

namespace Instruction

/-- The addresses the instruction may jump to; the default of a switch comes last. -/
def targets : Instruction → List Nat
  | ifZero _ t | ifInt _ t | ifRef _ t | ifNull _ t | goto t | jsr t => [t]
  | tableSwitch default _ ts => ts ++ [default]
  | lookupSwitch default pairs => pairs.map Prod.snd ++ [default]
  | _ => []

/-- Does control never pass to the next instruction? -/
def endsFlow : Instruction → Bool
  | goto _ | ret _ | tableSwitch .. | lookupSwitch .. | returns _ | athrow => true
  | _ => false

end Instruction

/-- An instruction and its address. -/
structure Located where
  address : Nat
  instruction : Instruction
  deriving DecidableEq, Repr

end ClassScript
