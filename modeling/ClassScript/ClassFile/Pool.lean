import ClassScript.Floating
import ClassScript.Reader
import ClassScript.Text.ModifiedUtf8

/-!
The constant pool of a class file.

Entries are addressed by slots counted from one. A long or a double fills two slots, of
which the upper is unusable; so is slot zero. References between entries are indices, and
`className`, `nameAndType`, `memberRef` and `loadable` follow them to the texts.
-/

namespace ClassScript

/-- What is wrong with the layout of a class file, and where. -/
inductive Malformed where
  | badMagic (offset : Nat)
  | unknownTag (offset : Nat)
  | malformedText (offset : Nat)
  | poolOverrun (offset : Nat)
  deriving DecidableEq, Repr

namespace Malformed

def offset : Malformed → Nat
  | badMagic n | unknownTag n | malformedText n | poolOverrun n => n

/-- What a failed check reports; the other faults say nothing. -/
def message? : Malformed → Option String
  | malformedText _ => some "malformed modified UTF-8 string"
  | poolOverrun _ => some "wide constant overruns the constant pool"
  | _ => none

end Malformed

inductive Constant where
  | utf8 (text : String)
  | integer (value : Int32)
  | float (value : Binary32)
  | long (value : Int64)
  | double (value : Binary64)
  | classRef (name : UInt16)
  | string (text : UInt16)
  | fieldRef (owner nameAndType : UInt16)
  | methodRef (owner nameAndType : UInt16)
  | interfaceMethodRef (owner nameAndType : UInt16)
  | nameAndType (name descriptor : UInt16)
  | methodHandle (kind : UInt8) (reference : UInt16)
  | methodType (descriptor : UInt16)
  | dynamic (bootstrap nameAndType : UInt16)
  | invokeDynamic (bootstrap nameAndType : UInt16)
  | moduleRef (name : UInt16)
  | packageRef (name : UInt16)
  deriving DecidableEq, Repr, Inhabited

namespace Constant

def isWide : Constant → Bool
  | long _ | double _ => true
  | _ => false

/-- How many slots the entry fills. -/
def width (c : Constant) : Nat := if c.isWide then 2 else 1

/-- The name of the entry's kind in a report. -/
def kindName : Constant → String
  | utf8 _ => "Utf8"
  | integer _ => "Integer"
  | float _ => "Float"
  | long _ => "Long"
  | double _ => "Double"
  | classRef _ => "Class"
  | string _ => "String"
  | fieldRef .. => "Fieldref"
  | methodRef .. => "Methodref"
  | interfaceMethodRef .. => "InterfaceMethodref"
  | nameAndType .. => "NameAndType"
  | methodHandle .. => "MethodHandle"
  | methodType _ => "MethodType"
  | dynamic .. => "Dynamic"
  | invokeDynamic .. => "InvokeDynamic"
  | moduleRef _ => "Module"
  | packageRef _ => "Package"

open Reader

/-- A length of two bytes and so many bytes of text. -/
def readText : Reader Malformed String := do
  let start ← offset
  let n ← u16
  match ModifiedUtf8.decode (← take n.toNat) with
  | some s => return s
  | none => fail (.malformedText start)

/-- A tag byte and the entry it announces. -/
def read : Reader Malformed Constant := do
  let start ← offset
  match (← u8).toNat with
  | 1 => return utf8 (← readText)
  | 3 => return integer (← i32)
  | 4 => return float ⟨← u32⟩
  | 5 => return long (← i64)
  | 6 => return double ⟨← u64⟩
  | 7 => return classRef (← u16)
  | 8 => return string (← u16)
  | 9 => return fieldRef (← u16) (← u16)
  | 10 => return methodRef (← u16) (← u16)
  | 11 => return interfaceMethodRef (← u16) (← u16)
  | 12 => return nameAndType (← u16) (← u16)
  | 15 => return methodHandle (← u8) (← u16)
  | 16 => return methodType (← u16)
  | 17 => return dynamic (← u16) (← u16)
  | 18 => return invokeDynamic (← u16) (← u16)
  | 19 => return moduleRef (← u16)
  | 20 => return packageRef (← u16)
  | _ => fail (.unknownTag start)

/-- Entries until so many slots are filled; a wide entry may not run over the last. -/
def readSlots : Nat → Reader Malformed (List Constant)
  | 0 => return []
  | 1 => do
    let c ← read
    if c.isWide then fail (.poolOverrun (← offset)) else return [c]
  | n + 2 => do
    let c ← read
    if c.isWide then return c :: (← readSlots n) else return c :: (← readSlots (n + 1))

end Constant

inductive PoolError where
  | outOfRange (index : UInt16)
  | unusable (index : UInt16)
  | wrongKind (index : UInt16) (expected found : String)
  deriving DecidableEq, Repr

def PoolError.message : PoolError → String
  | outOfRange i => s!"constant pool index {i} is out of range"
  | unusable i => s!"constant pool index {i} refers to an unusable slot"
  | wrongKind i expected found => s!"constant pool index {i} is {found}, expected {expected}"

/-- A field or method reference with its indices followed. -/
structure MemberRef where
  owner : String
  name : String
  descriptor : String
  deriving DecidableEq, Repr

/-- A constant that an instruction can push. -/
inductive Loadable where
  | int (value : Int32)
  | float (value : Binary32)
  | long (value : Int64)
  | double (value : Binary64)
  | string (text : String)
  | classRef (name : String)
  deriving DecidableEq, Repr

structure ConstantPool where
  slots : Array (Option Constant)
  deriving DecidableEq, Repr, Inhabited

namespace ConstantPool

/-- The slots of an entry. -/
def slotsOf (c : Constant) : List (Option Constant) :=
  if c.isWide then [some c, none] else [some c]

def ofEntries (cs : List Constant) : ConstantPool := ⟨(none :: cs.flatMap slotsOf).toArray⟩

/-- The number of slots, slot zero among them. -/
def size (p : ConstantPool) : Nat := p.slots.size

def isEmpty (p : ConstantPool) : Bool := p.size ≤ 1

def get (p : ConstantPool) (i : UInt16) : Except PoolError Constant :=
  match p.slots[i.toNat]? with
  | none => .error (.outOfRange i)
  | some none => .error (.unusable i)
  | some (some c) => .ok c

/-- The usable slots with their indices, in increasing order. -/
def toList (p : ConstantPool) : List (UInt16 × Constant) :=
  p.slots.toList.zipIdx.filterMap fun (slot, i) => slot.map (.ofNat i, ·)

def utf8 (p : ConstantPool) (i : UInt16) : Except PoolError String := do
  match ← p.get i with
  | .utf8 s => return s
  | c => throw (.wrongKind i "Utf8" c.kindName)

def className (p : ConstantPool) (i : UInt16) : Except PoolError String := do
  match ← p.get i with
  | .classRef n => p.utf8 n
  | c => throw (.wrongKind i "Class" c.kindName)

def nameAndType (p : ConstantPool) (i : UInt16) : Except PoolError (String × String) := do
  match ← p.get i with
  | .nameAndType n d => return (← p.utf8 n, ← p.utf8 d)
  | c => throw (.wrongKind i "NameAndType" c.kindName)

def memberRef (p : ConstantPool) (i : UInt16) : Except PoolError MemberRef := do
  match ← p.get i with
  | .fieldRef o nt | .methodRef o nt | .interfaceMethodRef o nt =>
    let owner ← p.className o
    let (name, descriptor) ← p.nameAndType nt
    return { owner, name, descriptor }
  | c => throw (.wrongKind i "member reference" c.kindName)

def loadable (p : ConstantPool) (i : UInt16) : Except PoolError Loadable := do
  match ← p.get i with
  | .integer v => return .int v
  | .float v => return .float v
  | .long v => return .long v
  | .double v => return .double v
  | .string s => return .string (← p.utf8 s)
  | .classRef n => return .classRef (← p.utf8 n)
  | c => throw (.wrongKind i "loadable constant" c.kindName)

/-- A slot count and the entries that fill so many slots. -/
def read : Reader Malformed ConstantPool := do
  let count ← Reader.u16
  match count.toNat with
  | 0 => Reader.fail (.poolOverrun (← Reader.offset))
  | n + 1 => return ofEntries (← Constant.readSlots n)

end ConstantPool

end ClassScript
