import ClassScript.Floating
import ClassScript.Kind

/-!
Integer arithmetic of the machine, used where all operands are constants.

Results wrap around; a division by zero has no result, since it has to throw when the
program runs; a shift counts modulo the width.
-/

namespace ClassScript.Arith

def arith32 (op : ArithOp) (a b : Int32) : Option Int32 :=
  match op with
  | .add => some (a + b)
  | .sub => some (a - b)
  | .mul => some (a * b)
  | .div => if b = 0 then none else some (a / b)
  | .rem => if b = 0 then none else some (a % b)

def arith64 (op : ArithOp) (a b : Int64) : Option Int64 :=
  match op with
  | .add => some (a + b)
  | .sub => some (a - b)
  | .mul => some (a * b)
  | .div => if b = 0 then none else some (a / b)
  | .rem => if b = 0 then none else some (a % b)

def shift32 (op : ShiftOp) (a b : Int32) : Int32 :=
  match op with
  | .shl => a <<< (b &&& 0x1f)
  | .shr => a >>> (b &&& 0x1f)
  | .ushr => (a.toUInt32 >>> (b &&& 0x1f).toUInt32).toInt32

def shift64 (op : ShiftOp) (a : Int64) (b : Int32) : Int64 :=
  let n := (b &&& 0x3f).toInt64
  match op with
  | .shl => a <<< n
  | .shr => a >>> n
  | .ushr => (a.toUInt64 >>> n.toUInt64).toInt64

def logic32 (op : LogicOp) (a b : Int32) : Int32 :=
  match op with
  | .and => a &&& b
  | .or => a ||| b
  | .xor => a ^^^ b

def logic64 (op : LogicOp) (a b : Int64) : Int64 :=
  match op with
  | .and => a &&& b
  | .or => a ||| b
  | .xor => a ^^^ b

/-- The sign of the difference. -/
def compare64 (a b : Int64) : Int32 := if a < b then -1 else if a = b then 0 else 1

/-- A converted constant. -/
inductive Converted where
  | int (value : Int32)
  | long (value : Int64)
  | float (value : Binary32)
  | double (value : Binary64)
  deriving DecidableEq, Repr

def convertInt (c : Conversion) (v : Int32) : Option Converted :=
  match c with
  | .i2l => some (.long v.toInt64)
  | .i2f => some (.float (.ofInt v.toInt))
  | .i2d => some (.double (.ofInt v.toInt))
  | .i2b => some (.int v.toInt8.toInt32)
  | .i2c => some (.int v.toUInt32.toUInt16.toUInt32.toInt32)
  | .i2s => some (.int v.toInt16.toInt32)
  | _ => none

def convertLong (c : Conversion) (v : Int64) : Option Converted :=
  match c with
  | .l2i => some (.int v.toInt32)
  | .l2f => some (.float (.ofInt v.toInt))
  | .l2d => some (.double (.ofInt v.toInt))
  | _ => none

/-- Conversions of a float or a double, the float being widened first. An integer out of
range becomes the nearest in range. -/
def convertDouble (c : Conversion) (v : Binary64) : Option Converted :=
  match c with
  | .f2i | .d2i => some (.int v.toInt32)
  | .f2l | .d2l => some (.long v.toInt64)
  | .f2d => some (.double v)
  | .d2f => some (.float v.narrow)
  | _ => none

end ClassScript.Arith
