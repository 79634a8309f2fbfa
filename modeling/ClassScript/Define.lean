import ClassScript.Method.Function

/-!
The definition of a class.
-/

namespace ClassScript

def FieldValue.literal : FieldValue → Literal
  | int v => .int v
  | long v => .long v
  | float v => .float v
  | double v => .double v
  | string s => .text s

def ValueType.zero : ValueType → Literal
  | long => .long 0
  | object _ | array _ => .null
  | _ => .int 0

/-- The value that a field starts with: a static field may have a constant of its own. -/
def FieldDecl.initialValue (f : FieldDecl) : Except ParseError Literal := do
  match f.isStatic, f.constant with
  | true, some v => return v.literal
  | _, _ => return (← f.type).zero

namespace ClassDecl

def initializerName : String := "<clinit>"

/-- Does the definition have the method? An abstract one only with a body in script. -/
def defines (m : MethodDecl) : Bool :=
  !m.isAbstract || m.annotations.any (·.typeName == Marker.scriptBody)

/-- The script that is to be included with the class. -/
def script? (c : ClassDecl) : Option String := do
  let a ← c.annotation? Marker.scriptResource
  (← a.element? "value").string?

/-- The statement that runs the static initializer of a class. -/
def initializer (name : String) : String :=
  (Expr.object name false).render ++ "." ++ Name.ofMethod initializerName "()V" ++ "();"

end ClassDecl

namespace Generator

open Generation

/-- Publishes a property of a class if the question about it says so. -/
def offer (c : ClassDecl) (exported : Query Bool) (dest name : String) : Generation Unit := do
  if ← ask (.classDecl c.name) exported then publish dest name

def field (g : Generator) (c : ClassDecl) (object : String) (f : FieldDecl) : Generation Unit := do
  let value ← liftExcept (.field f.owner f.name) .descriptor f.initialValue
  write (.field object c.name f.name value)
  offer c (g.exports.isExportedField c f) object (Name.ofField c.name f.name)

def method (g : Generator) (c : ClassDecl) (m : MethodDecl) : Generation Unit := do
  write (.function (← g.function c m))
  offer c (g.exports.isExportedMethod c m) "c" (Name.ofMethod m.name m.descriptor)

/-- Writes the definition of a class. Returns whether the class has a static initializer. -/
def define (g : Generator) (c : ClassDecl) : Generation Bool := do
  c.script?.forM fun s => request (.script s)
  c.superName.forM fun s => request (.reference s)
  write (.opening c.name c.superName)
  (c.fields.filter (·.isStatic)).forM (g.field c "c")
  let methods := c.methods.filter ClassDecl.defines
  methods.forM (g.method c)
  request (.reference Piece.classClass)
  let named := Annotation.classes c.annotations ++ c.interfaces
  named.forM fun name => request (.reference name)
  write (.reflection c.name c.interfaces c.access c.annotations)
  write (.construction c.superName)
  (c.fields.filter (!·.isStatic)).forM (g.field c "this")
  write .closing
  offer c (g.exports.isExportedClass c) "vm" (Name.ofClass c.name)
  return methods.any (·.name == ClassDecl.initializerName)

end Generator

end ClassScript
