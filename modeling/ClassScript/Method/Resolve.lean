import ClassScript.Generation
import ClassScript.Method.Lower

/-!
Code for the instructions that name the constant pool.

A member is written in quotes where the class that declares it is unknown or belongs to the
host program, so that names there may be shortened apart from names here. A reference to a
class is requested whenever the code names the function that defines it.
-/

namespace ClassScript

abbrev Emission := StateT Frame Generation

namespace Emission

/-- A step that needs no other class. -/
def lower {α : Type} (site : Site) (step : Lower α) : Emission α := fun f =>
  Generation.liftExcept site .fault (step f)

end Emission

/-- A field that an instruction names: its kind, and the class that declares it if known. -/
structure FieldUse where
  ref : MemberRef
  kind : Kind
  declaring : Option String

def FieldUse.owner (u : FieldUse) : String := u.declaring.getD u.ref.owner

namespace Generator

open Generation Emission Lower

/-- How members of a class are written. -/
def form (g : Generator) : Option String → AccessForm
  | some declaring => if g.scope.isExternal declaring then .quoted else .plain
  | none => .quoted

def declaringField (g : Generator) (r : MemberRef) : Query (Option String) := do
  let found ← Query.ofLookup (g.exports.library.findField r.owner r.name r.descriptor)
  return found.map (·.1.name)

def declaringMethod (g : Generator) (r : MemberRef) : Query (Option String) := do
  let found ← Query.ofLookup (g.exports.library.findMethod r.owner r.name r.descriptor)
  return found.map (·.1.name)

def classAt (site : Site) (p : ConstantPool) (i : UInt16) : Generation String :=
  liftExcept site .pool (p.className i)

def memberAt (site : Site) (p : ConstantPool) (i : UInt16) : Generation MemberRef :=
  liftExcept site .pool (p.memberRef i)

def fieldAt (g : Generator) (site : Site) (p : ConstantPool) (i : UInt16) :
    Generation FieldUse := do
  let ref ← memberAt site p i
  match (ValueType.ofDescriptor? ref.descriptor).bind ValueType.kind? with
  | none => fail site (.fault (.defect (.badFieldDescriptor ref.descriptor)))
  | some kind => return { ref, kind, declaring := ← ask site (g.declaringField ref) }

def fieldOf (g : Generator) (u : FieldUse) (object : Expr) : Expr :=
  .member object (g.form u.declaring) (Name.ofField u.owner u.ref.name)

def staticFieldAt (g : Generator) (site : Site) (p : ConstantPool) (i : UInt16) :
    Generation (Expr × Kind) := do
  let u ← g.fieldAt site p i
  request (.reference u.ref.owner)
  request (.reference u.owner)
  return (g.fieldOf u (.object u.owner false), u.kind)

/-- The array type with elements of a class or array type. -/
def arrayOf (element : String) : String :=
  if Library.isArray element then "[" ++ element else "[L" ++ element ++ ";"

/-- How the support code is told a type to test for: by name, and by the property that
instances have unless they are arrays. -/
def typeTest (name : String) : List Atom :=
  [.lit (.text name),
    if Library.isArray name then .lit .null else .lit (.text (Name.instanceFlag name))]

def ldc (site : Site) (p : ConstantPool) (i : UInt16) : Emission Unit := do
  match ← liftExcept site .pool (p.loadable i) with
  | .int v => lower site (pushConst (.int v))
  | .float v => lower site (pushConst (.float v))
  | .long v => lower site (pushConst (.long v))
  | .double v => lower site (pushConst (.double v))
  | .string s => lower site (pushConst (.text s))
  | .classRef name =>
    if Library.isArray name then lower site (assign .ref (.arrayClass name))
    else
      request (.reference name)
      lower site (assign .ref (.classObject name))

/-- The call that an instruction makes, with its arguments taken. -/
def callOf (g : Generator) (site : Site) (kind : InvokeKind) (r : MemberRef) (args : List Atom) :
    Emission Expr := do
  let name := Name.ofMethod r.name r.descriptor
  match kind with
  | .static =>
    request (.reference r.owner)
    let declaring ← ask site (g.declaringMethod r)
    return .call (.member (.object r.owner false) (g.form declaring) name) args
  | .special =>
    let receiver ← lower site pop
    request (.reference r.owner)
    let declaring ← ask site (g.declaringMethod r)
    let method := Expr.member (.object r.owner false) (g.form declaring) name
    return .call (.member method .plain "call") (receiver :: args)
  | .virtual | .interface =>
    let receiver ← lower site pop
    match ← ask site (g.exports.dispatch g.scope r.owner r.name r.descriptor) with
    | .direct =>
      let declaring ← ask site (g.declaringMethod r)
      return .call (.member (.atom receiver) (g.form declaring) name) args
    | .invoker =>
      request (.invoker name)
      return .call (.call (.member .invoker .plain name) [receiver]) args

def invoke (g : Generator) (site : Site) (p : ConstantPool) (kind : InvokeKind) (i : UInt16) :
    Emission Unit := do
  let r ← memberAt site p i
  match Signature.ofDescriptor? r.descriptor with
  | none => fail site (.fault (.defect (.badMethodDescriptor r.descriptor)))
  | some signature =>
    let args ← lower site (popMany signature.params.length)
    let e ← g.callOf site kind r args
    match signature.result.kind? with
    | some k => lower site (assign k e)
    | none => lower site (emit (.eval e))

/-- Code for an instruction of a class with this constant pool. -/
def instruction (g : Generator) (site : Site) (p : ConstantPool) (i : Instruction) :
    Emission Unit := do
  match i with
  | .ldc index => ldc site p index
  | .getStatic index =>
    let (place, kind) ← g.staticFieldAt site p index
    lower site (assign kind place)
  | .putStatic index =>
    let (place, _) ← g.staticFieldAt site p index
    let value ← lower site pop
    lower site (emit (.store place value))
  | .getField index =>
    let object ← lower site pop
    let u ← g.fieldAt site p index
    lower site (assign u.kind (g.fieldOf u (.atom object)))
  | .putField index =>
    let (object, value) ← lower site pop2
    let u ← g.fieldAt site p index
    lower site (emit (.store (g.fieldOf u (.atom object)) value))
  | .invoke kind index => g.invoke site p kind index
  | .new index =>
    let name ← classAt site p index
    request (.reference name)
    lower site (assign .ref (.object name true))
  | .newRefArray index =>
    let element ← classAt site p index
    let count ← lower site pop
    lower site (assign .ref (.helper .newArray [.lit (.text (arrayOf element)), count]))
  | .newMultiArray index dimensions =>
    let descriptor ← classAt site p index
    let counts ← lower site (popMany dimensions.toNat)
    lower site (assign .ref (.multiArray descriptor counts))
  | .checkCast index =>
    let name ← classAt site p index
    if name != "java/lang/Object" then
      let value ← lower site peek
      lower site (emit (.eval (.helper .checkCast (value :: typeTest name))))
  | .instanceOf index =>
    let name ← classAt site p index
    let value ← lower site pop
    lower site (assign .int (.helper .isInstance (value :: typeTest name)))
  | i => lower site (Lower.instruction i)

end Generator

end ClassScript
