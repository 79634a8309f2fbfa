import ClassScript.ClassFile.Pool

/-!
A class file as it is laid out in bytes.

Names are still indices into the constant pool, and attributes are raw bytes; the code of a
method is the one attribute with a layout of its own here. `ClassFile.read` follows the
order of the file, so it stops at the first thing that is wrong.
-/

namespace ClassScript

open Reader

structure Attribute where
  name : UInt16
  info : Bytes
  deriving DecidableEq, Repr

def Attribute.read : Reader Malformed Attribute := do
  let name ← u16
  let n ← u32
  return ⟨name, ← take n.toNat⟩

/-- A row of an exception table: the range guarded, where control goes, and the class
caught, zero for all. -/
structure Handler where
  start : UInt16
  stop : UInt16
  target : UInt16
  catchType : UInt16
  deriving DecidableEq, Repr

def Handler.read : Reader Malformed Handler := return ⟨← u16, ← u16, ← u16, ← u16⟩

structure Code where
  maxStack : UInt16
  maxLocals : UInt16
  bytes : Bytes
  handlers : List Handler
  attributes : List Attribute
  deriving DecidableEq, Repr

def Code.read : Reader Malformed Code := do
  let maxStack ← u16
  let maxLocals ← u16
  let n ← u32
  let bytes ← take n.toNat
  let handlers ← counted Handler.read
  let attributes ← counted Attribute.read
  return { maxStack, maxLocals, bytes, handlers, attributes }

/-- A field or a method. -/
structure Member where
  access : UInt16
  name : UInt16
  descriptor : UInt16
  attributes : List Attribute
  deriving DecidableEq, Repr

def Member.read : Reader Malformed Member := return ⟨← u16, ← u16, ← u16, ← counted Attribute.read⟩

structure ClassFile where
  minor : UInt16
  major : UInt16
  pool : ConstantPool
  access : UInt16
  thisClass : UInt16
  superClass : UInt16
  interfaces : List UInt16
  fields : List Member
  methods : List Member
  attributes : List Attribute
  deriving DecidableEq, Repr

namespace ClassFile

def magic : Nat := 0xcafebabe

def read : Reader Malformed ClassFile := do
  let start ← offset
  if (← nat 4) ≠ magic then fail (.badMagic start)
  let minor ← u16
  let major ← u16
  let pool ← ConstantPool.read
  let access ← u16
  let thisClass ← u16
  let superClass ← u16
  let interfaces ← counted u16
  let fields ← counted Member.read
  let methods ← counted Member.read
  let attributes ← counted Attribute.read
  return ⟨minor, major, pool, access, thisClass, superClass, interfaces, fields, methods,
    attributes⟩

end ClassFile

end ClassScript
