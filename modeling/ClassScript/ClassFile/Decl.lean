import ClassScript.ClassFile.Annotation
import ClassScript.Descriptor
import ClassScript.Text.Escaped

/-!
A class with the indices of its file followed.

`ClassDecl.parse` reads the layout first, then checks the version, and then resolves names,
members and attributes in the order of the file; it reports the first thing that fails.
Descriptors are kept as text and read when someone asks for the type.
-/

namespace ClassScript

inductive ParseError where
  | layout (failure : ReadFailure Malformed)
  | unsupportedVersion (major minor : UInt16)
  | pool (error : PoolError)
  | attributeLayout (name : String) (failure : ReadFailure Malformed)
  | badDescriptor (member descriptor : String)
  | missingCode (method : String)
  deriving DecidableEq, Repr

namespace ParseError

/-- The text of an error. What is wrong with a layout is told by the failure itself, for
which the text has a fixed mark. -/
def message : ParseError → String
  | layout _ => "malformed class file: <binary>"
  | unsupportedVersion major minor => s!"unsupported class file version {major}.{minor}"
  | pool e => e.message
  | attributeLayout name _ => s!"malformed {name} attribute: <binary>"
  | badDescriptor member descriptor =>
    s!"invalid descriptor {Escaped.text descriptor} for {member}"
  | missingCode method => s!"method {method} has no Code attribute"

end ParseError

/-! Access flags are kept as the sixteen bits of the file. -/

namespace Access

def visible : UInt16 := 0x0005
def publicFlag : UInt16 := 0x0001
def privateFlag : UInt16 := 0x0002
def staticFlag : UInt16 := 0x0008
def finalFlag : UInt16 := 0x0010
def nativeFlag : UInt16 := 0x0100
def interfaceFlag : UInt16 := 0x0200
def abstractFlag : UInt16 := 0x0400

/-- Is one of the bits of the mask set? -/
def meets (access mask : UInt16) : Bool := access &&& mask != 0

end Access

/-- The value that a field starts with. -/
inductive FieldValue where
  | int (value : Int32)
  | long (value : Int64)
  | float (value : Binary32)
  | double (value : Binary64)
  | string (text : String)
  deriving DecidableEq, Repr

structure FieldDecl where
  owner : String
  name : String
  descriptor : String
  access : UInt16
  constant : Option FieldValue
  annotations : List Annotation

structure MethodDecl where
  owner : String
  name : String
  descriptor : String
  access : UInt16
  code : Option Code
  exceptions : List String
  annotations : List Annotation

structure ClassDecl where
  name : String
  superName : Option String
  interfaces : List String
  access : UInt16
  pool : ConstantPool
  fields : List FieldDecl
  methods : List MethodDecl
  annotations : List Annotation
  sourceFile : Option String
  major : UInt16

namespace Attribute

/-- The first attribute of a name; attributes whose own name cannot be read are passed
over. -/
def find? (p : ConstantPool) (name : String) (attributes : List Attribute) : Option Attribute :=
  attributes.find? fun a => (p.utf8 a.name).toOption == some name

/-- The payload of an attribute. -/
def decode {α : Type} (a : Attribute) (name : String) (r : Reader Malformed α) :
    Except ParseError α :=
  (r.parse a.info).mapError (.attributeLayout name)

end Attribute

namespace FieldDecl

def isStatic (f : FieldDecl) : Bool := Access.meets f.access Access.staticFlag

/-- The type that the descriptor spells. -/
def type (f : FieldDecl) : Except ParseError ValueType :=
  match ValueType.ofDescriptor? f.descriptor with
  | some t => .ok t
  | none => .error (.badDescriptor (f.owner ++ "." ++ f.name) f.descriptor)

def constantAt (p : ConstantPool) (i : UInt16) : Except PoolError FieldValue := do
  match ← p.get i with
  | .integer v => return .int v
  | .long v => return .long v
  | .float v => return .float v
  | .double v => return .double v
  | .string s => return .string (← p.utf8 s)
  | _ => throw (.wrongKind i "constant value" "other constant")

end FieldDecl

/-- An error of annotations, as one of the class. -/
def AnnotationError.toParseError : AnnotationError → ParseError
  | .layout failure => .attributeLayout "annotations" failure
  | .pool e => .pool e

def annotationsOf (p : ConstantPool) (attributes : List Attribute) :
    Except ParseError (List Annotation) :=
  Except.mapError AnnotationError.toParseError <| Annotation.readAll p attributes

def FieldDecl.resolve (p : ConstantPool) (owner : String) (m : Member) :
    Except ParseError FieldDecl := do
  let name ← (p.utf8 m.name).mapError .pool
  let descriptor ← (p.utf8 m.descriptor).mapError .pool
  let constant ← match Attribute.find? p "ConstantValue" m.attributes with
    | none => pure none
    | some a =>
      let i ← a.decode "ConstantValue" Reader.u16
      pure (some (← (FieldDecl.constantAt p i).mapError .pool))
  let annotations ← annotationsOf p m.attributes
  return { owner, name, descriptor, access := m.access, constant, annotations }

namespace MethodDecl

def isStatic (m : MethodDecl) : Bool := Access.meets m.access Access.staticFlag
def isFinal (m : MethodDecl) : Bool := Access.meets m.access Access.finalFlag
def isPrivate (m : MethodDecl) : Bool := Access.meets m.access Access.privateFlag
def isAbstract (m : MethodDecl) : Bool := Access.meets m.access Access.abstractFlag
def isNative (m : MethodDecl) : Bool := Access.meets m.access Access.nativeFlag

/-- The bytes of the code; none for a method without code. -/
def bytecode (m : MethodDecl) : Bytes := (m.code.map Code.bytes).getD []

def handlers (m : MethodDecl) : List Handler := (m.code.map Code.handlers).getD []

def annotation? (m : MethodDecl) (typeName : String) : Option Annotation :=
  m.annotations.find? (·.typeName == typeName)

def signature (m : MethodDecl) : Except ParseError Signature :=
  match Signature.ofDescriptor? m.descriptor with
  | some s => .ok s
  | none => .error (.badDescriptor (m.owner ++ "." ++ m.name) m.descriptor)

def resolve (p : ConstantPool) (owner : String) (m : Member) : Except ParseError MethodDecl := do
  let name ← (p.utf8 m.name).mapError .pool
  let descriptor ← (p.utf8 m.descriptor).mapError .pool
  let code ← match Attribute.find? p "Code" m.attributes with
    | none => pure none
    | some a => some <$> a.decode "Code" Code.read
  if code.isNone && !Access.meets m.access (Access.abstractFlag ||| Access.nativeFlag) then
    throw (.missingCode (owner ++ "." ++ name ++ descriptor))
  let exceptions ← match Attribute.find? p "Exceptions" m.attributes with
    | none => pure []
    | some a =>
      let indices ← a.decode "Exceptions" (Reader.counted Reader.u16)
      (indices.mapM p.className).mapError .pool
  let annotations ← annotationsOf p m.attributes
  return { owner, name, descriptor, access := m.access, code, exceptions, annotations }

end MethodDecl

namespace ClassDecl

def isInterface (c : ClassDecl) : Bool := Access.meets c.access Access.interfaceFlag
def isFinal (c : ClassDecl) : Bool := Access.meets c.access Access.finalFlag
def isPublic (c : ClassDecl) : Bool := Access.meets c.access Access.publicFlag

def annotation? (c : ClassDecl) (typeName : String) : Option Annotation :=
  c.annotations.find? (·.typeName == typeName)

/-- The method of that name and descriptor that the class itself declares. -/
def method? (c : ClassDecl) (name descriptor : String) : Option MethodDecl :=
  c.methods.find? fun m => m.name == name && m.descriptor == descriptor

def field? (c : ClassDecl) (name descriptor : String) : Option FieldDecl :=
  c.fields.find? fun f => f.name == name && f.descriptor == descriptor

def minMajor : UInt16 := 45
def maxMajor : UInt16 := 69

/-- The superclass at an index; the root of all classes has none. -/
def superOf (p : ConstantPool) (i : UInt16) : Except ParseError (Option String) :=
  if i = 0 then return none else some <$> (p.className i).mapError .pool

def sourceFileOf (p : ConstantPool) (attributes : List Attribute) :
    Except ParseError (Option String) := do
  match Attribute.find? p "SourceFile" attributes with
  | none => return none
  | some a =>
    let i ← a.decode "SourceFile" Reader.u16
    some <$> (p.utf8 i).mapError .pool

def ofClassFile (f : ClassFile) : Except ParseError ClassDecl := do
  unless minMajor ≤ f.major && f.major ≤ maxMajor do
    throw (.unsupportedVersion f.major f.minor)
  let p := f.pool
  let name ← (p.className f.thisClass).mapError .pool
  let superName ← superOf p f.superClass
  let interfaces ← (f.interfaces.mapM p.className).mapError .pool
  let fields ← f.fields.mapM (FieldDecl.resolve p name)
  let methods ← f.methods.mapM (MethodDecl.resolve p name)
  let annotations ← annotationsOf p f.attributes
  let sourceFile ← sourceFileOf p f.attributes
  return ⟨name, superName, interfaces, f.access, p, fields, methods, annotations, sourceFile,
    f.major⟩

/-- The class that the bytes hold; bytes after its end do not matter. -/
def parse (bs : Bytes) : Except ParseError ClassDecl := do
  let f ← (ClassFile.read.parse bs).mapError .layout
  ofClassFile f

end ClassDecl

end ClassScript
