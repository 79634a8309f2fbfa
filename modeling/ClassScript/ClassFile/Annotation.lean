import ClassScript.ClassFile.Layout

/-!
Annotations.

In the file an element value is a tag and indices into the constant pool, nested to any
depth. `Annotation.readAll` finds the annotation attributes among the others, reads each of
them whole and then follows the indices.
-/

namespace ClassScript

/-- An element value with its indices. The five integer tags share a form. -/
inductive RawValue where
  | int (tag : Char) (value : UInt16)
  | long (value : UInt16)
  | float (value : UInt16)
  | double (value : UInt16)
  | string (text : UInt16)
  | enumerated (type name : UInt16)
  | classInfo (descriptor : UInt16)
  | nested (type : UInt16) (elements : List (UInt16 × RawValue))
  | array (values : List RawValue)

structure RawAnnotation where
  type : UInt16
  elements : List (UInt16 × RawValue)

inductive ElementValue where
  | int (tag : Char) (value : Int32)
  | long (value : Int64)
  | float (value : Binary32)
  | double (value : Binary64)
  | string (text : String)
  | enumerated (descriptor name : String)
  | classInfo (descriptor : String)
  | nested (descriptor : String) (visible : Bool) (elements : List (String × ElementValue))
  | array (values : List ElementValue)

/-- An annotation of the type with this descriptor; `visible` when it is kept at run time. -/
structure Annotation where
  descriptor : String
  visible : Bool
  elements : List (String × ElementValue)

/-- The class that a descriptor `L...;` names. -/
def objectName? (descriptor : String) : Option String :=
  match descriptor.toList with
  | 'L' :: r =>
    match r.reverse with
    | ';' :: name => some (String.ofList name.reverse)
    | _ => none
  | _ => none

namespace ElementValue

def string? : ElementValue → Option String
  | string s => some s
  | _ => none

/-- An array of strings, or a single string as an array of one. -/
def strings? : ElementValue → Option (List String)
  | string s => some [s]
  | array vs => vs.mapM string?
  | _ => none

end ElementValue

namespace RawValue

open Reader

/-- A value nested to at most `depth` levels. Each level has a tag of its own, so no value
is nested deeper than its bytes are many. -/
def readWithin : Nat → Reader Malformed RawValue
  | 0 => throw .endOfData
  | depth + 1 => do
    let element : Reader Malformed (UInt16 × RawValue) := do
      let name ← u16
      return (name, ← readWithin depth)
    let start ← offset
    match Char.ofNat (← u8).toNat with
    | 'B' => return int 'B' (← u16)
    | 'C' => return int 'C' (← u16)
    | 'I' => return int 'I' (← u16)
    | 'S' => return int 'S' (← u16)
    | 'Z' => return int 'Z' (← u16)
    | 'J' => return long (← u16)
    | 'F' => return float (← u16)
    | 'D' => return double (← u16)
    | 's' => return string (← u16)
    | 'e' => return enumerated (← u16) (← u16)
    | 'c' => return classInfo (← u16)
    | '@' => return nested (← u16) (← counted element)
    | '[' => return array (← counted (readWithin depth))
    | _ => fail (.unknownTag start)

def read : Reader Malformed RawValue := do
  readWithin (← get).rest.length

/-- The entry at an index, if `select` takes it. -/
def constant {α : Type} (p : ConstantPool) (i : UInt16) (expected : String)
    (select : Constant → Option α) : Except PoolError α := do
  match select (← p.get i) with
  | some a => return a
  | none => throw (.wrongKind i expected "other constant")

mutual

/-- Follows the indices of a value; nested annotations are as visible as the outer one. -/
def resolve (p : ConstantPool) (visible : Bool) : RawValue → Except PoolError ElementValue
  | int tag i => return .int tag (← constant p i "Integer" fun | .integer v => some v | _ => none)
  | long i => return .long (← constant p i "Long" fun | .long v => some v | _ => none)
  | float i => return .float (← constant p i "Float" fun | .float v => some v | _ => none)
  | double i => return .double (← constant p i "Double" fun | .double v => some v | _ => none)
  | string i => return .string (← p.utf8 i)
  | enumerated t n => return .enumerated (← p.utf8 t) (← p.utf8 n)
  | classInfo i => return .classInfo (← p.utf8 i)
  | nested t es => return .nested (← p.utf8 t) visible (← resolveElements p visible es)
  | array vs => return .array (← resolveAll p visible vs)

def resolveElements (p : ConstantPool) (visible : Bool) :
    List (UInt16 × RawValue) → Except PoolError (List (String × ElementValue))
  | [] => return []
  | (n, v) :: es => do
    let name ← p.utf8 n
    let value ← resolve p visible v
    return (name, value) :: (← resolveElements p visible es)

def resolveAll (p : ConstantPool) (visible : Bool) :
    List RawValue → Except PoolError (List ElementValue)
  | [] => return []
  | v :: vs => return (← resolve p visible v) :: (← resolveAll p visible vs)

end

end RawValue

open Reader in
def RawAnnotation.read : Reader Malformed RawAnnotation := do
  let type ← u16
  let elements ← counted do
    let name ← u16
    return (name, ← RawValue.read)
  return ⟨type, elements⟩

def RawAnnotation.resolve (p : ConstantPool) (visible : Bool) (a : RawAnnotation) :
    Except PoolError Annotation :=
  return ⟨← p.utf8 a.type, visible, ← RawValue.resolveElements p visible a.elements⟩

/-- Why annotations could not be read. -/
inductive AnnotationError where
  | layout (failure : ReadFailure Malformed)
  | pool (error : PoolError)
  deriving DecidableEq, Repr

namespace Annotation

/-- The internal name of the annotation's type. -/
def typeName (a : Annotation) : String := (objectName? a.descriptor).getD a.descriptor

def element? (a : Annotation) (name : String) : Option ElementValue := a.elements.lookup name

/-- The attributes that hold annotations, and whether those are visible. -/
def visibility? : String → Option Bool
  | "RuntimeVisibleAnnotations" => some true
  | "RuntimeInvisibleAnnotations" => some false
  | _ => none

/-- The annotations of one attribute. -/
def ofAttribute (p : ConstantPool) (holder : Attribute) :
    Except AnnotationError (List Annotation) := do
  let name ← (p.utf8 holder.name).mapError .pool
  match visibility? name with
  | none => return []
  | some visible =>
    let raw ← ((Reader.counted RawAnnotation.read).parse holder.info).mapError .layout
    raw.mapM fun a => (a.resolve p visible).mapError .pool

/-- The annotations of all attributes, in order. -/
def readAll (p : ConstantPool) (attributes : List Attribute) :
    Except AnnotationError (List Annotation) :=
  return (← attributes.mapM (ofAttribute p)).flatten

end Annotation

end ClassScript
