import ClassScript.ClassFile.Annotation
import ClassScript.Exporter
import ClassScript.Script.Stmt

/-!
The definition of a class, as a list of pieces.

The pieces of a class come in a fixed order: how it starts, its static fields, its methods,
its class object, its instance fields and its end. Printing goes piece by piece, so the text
of a definition that could not be finished is the text of the pieces it has.
-/

namespace ClassScript

/-! Annotations that are kept at run time become data: each value is an array that starts
with its tag. -/

namespace ElementValue

/-- The class of an enumerated value. -/
def enumClass (descriptor : String) : String := (objectName? descriptor).getD descriptor

mutual

def render : ElementValue → String
  | int tag v => "['" ++ String.ofList [tag] ++ "', " ++ Number.int v ++ "]"
  | long v => "['J', " ++ Number.long v ++ "]"
  | float v => "['F', " ++ Number.float v ++ "]"
  | double v => "['D', " ++ Number.double v ++ "]"
  | string s => "['s', " ++ Quoted.text s ++ "]"
  | enumerated d name =>
    let owner := enumClass d
    "['e', " ++ Quoted.text (Name.ofClass owner) ++ ", " ++
      Quoted.text (Name.ofField owner name) ++ "]"
  | classInfo d =>
    match objectName? d with
    | some name => "['c', " ++ Quoted.text d ++ ", " ++ Quoted.text (Name.ofClass name) ++ "]"
    | none => "['c', " ++ Quoted.text d ++ "]"
  | nested d _ es =>
    "['@', " ++ Quoted.text d ++ ", \x7b" ++ ", ".intercalate (renderElements es) ++ "\x7d]"
  | array vs => "['[', [" ++ ", ".intercalate (renderAll vs) ++ "]]"

def renderElements : List (String × ElementValue) → List String
  | [] => []
  | (name, v) :: es => (Quoted.text name ++ ": " ++ render v) :: renderElements es

def renderAll : List ElementValue → List String
  | [] => []
  | v :: vs => render v :: renderAll vs

end

mutual

/-- The classes that the data of a value names. -/
def classes : ElementValue → List String
  | enumerated d _ => [enumClass d]
  | classInfo d => (objectName? d).toList
  | nested _ _ es => classesOfElements es
  | array vs => classesOfAll vs
  | _ => []

def classesOfElements : List (String × ElementValue) → List String
  | [] => []
  | (_, v) :: es => classes v ++ classesOfElements es

def classesOfAll : List ElementValue → List String
  | [] => []
  | v :: vs => classes v ++ classesOfAll vs

end

end ElementValue

namespace Annotation

def kept (annotations : List Annotation) : List Annotation := annotations.filter (·.visible)

def render (a : Annotation) : String :=
  Quoted.text a.descriptor ++ ": rt.annotation(\x7b" ++
    ", ".intercalate (ElementValue.renderElements a.elements) ++ "\x7d)"

/-- The classes that the kept annotations name, in the order of their data. -/
def classes (annotations : List Annotation) : List String :=
  (kept annotations).flatMap fun a => ElementValue.classesOfElements a.elements

end Annotation

/-- What a function does: it is given as script, or is missing, or is generated. -/
inductive FunctionBody where
  | script (lines : List String)
  | missing (text : String)
  /-- The local slots that hold `this` and the parameters, the variables to declare, and the
  statements. -/
  | code (bindings : List (Var × String)) (declared : List Var) (body : Body)

/-- A method as a property of the prototype. -/
structure Function where
  name : String
  params : List String
  body : FunctionBody

namespace Function

def renderBody (w : Writer) : FunctionBody → Writer
  | .script lines => w.lines lines
  | .missing text => w.line ("throw new Error(" ++ Quoted.text text ++ ");")
  | .code bindings declared body =>
    let w := w.lines (bindings.map fun (v, source) => "var " ++ v.name ++ " = " ++ source ++ ";")
    let w := if declared.isEmpty then w
      else w.line ("var " ++ ", ".intercalate (declared.map Var.name) ++ ";")
    body.render w

def render (w : Writer) (f : Function) : Writer :=
  let header := property "c" f.name ++ " = function(" ++ ", ".intercalate f.params ++ ") \x7b"
  (renderBody (w.begins header) f.body).ends "\x7d;"

end Function

inductive Piece where
  | opening (name : String) (superName : Option String)
  /-- A field of the prototype or of a new object, with its first value. -/
  | field (object : String) (owner name : String) (value : Literal)
  | function (f : Function)
  | publish (dest name : String)
  | reflection (name : String) (interfaces : List String) (access : UInt16)
      (annotations : List Annotation)
  /-- How a new object starts, before its own fields. -/
  | construction (superName : Option String)
  | closing

namespace Piece

def classClass : String := "java/lang/Class"

def renderOpening (w : Writer) (name : String) (superName : Option String) : Writer :=
  let id := Name.ofClass name
  let w := w.begins (classFunction name ++ " = function " ++ id ++ "(arg0) \x7b")
  let w := w.line ("var CLS = " ++ id ++ ";")
  let w := w.begins "if (!CLS.$class) \x7b"
  let w := w.line "CLS.$class = 'temp';"
  let w := match superName with
    | some s => w.lines ["var pp = " ++ (Expr.object s true).render ++ ";",
        "var p = CLS.prototype = pp;", "var sprcls = pp.constructor.$class;"]
    | none => w.lines ["var p = CLS.prototype;", "var sprcls = null;"]
  w.lines ["var c = p;", "p.constructor = CLS;"]

def renderReflection (w : Writer) (name : String) (interfaces : List String) (access : UInt16)
    (annotations : List Annotation) : Writer :=
  let w := w.lines ["CLS.$class = " ++ (Expr.object classClass true).render ++ ";",
    "CLS.$class.jvmName = " ++ Quoted.text name ++ ";", "CLS.$class.superclass = sprcls;"]
  let w := if interfaces.isEmpty then w
    else
      let list := interfaces.map fun i => (Expr.classObject i).render
      w.line ("CLS.$class.interfaces = function() \x7b return [" ++ ", ".intercalate list ++
        "]; \x7d;")
  let w := w.lines ["CLS.$class.access = " ++ toString access.toNat ++ ";",
    "CLS.$class.cnstr = CLS;"]
  let data := List.map Annotation.render <| Annotation.kept annotations
  let w := if data.isEmpty then w
    else w.line ("CLS.$class.anno = \x7b" ++ ", ".intercalate data ++ "\x7d;")
  let w := w.line (property "c" (Name.instanceFlag name) ++ " = true;")
  let w := w.lines (interfaces.map fun i =>
    "rt.implement(c, " ++ (Expr.object i false).render ++ ");")
  w.ends "\x7d"

def renderConstruction (w : Writer) (superName : Option String) : Writer :=
  let w := w.begins "if (arguments.length === 0) \x7b"
  let w := w.begins "if (!(this instanceof CLS)) \x7b"
  let w := (w.line "return new CLS();").ends "\x7d"
  match superName with
  | some s => w.line ((Expr.object s false).render ++ ".constructor.call(this);")
  | none => w

def renderClosing (w : Writer) : Writer :=
  let w := (w.line "return this;").ends "\x7d"
  (w.line "return arg0 ? new CLS() : CLS.prototype;").ends "\x7d;"

def render (w : Writer) : Piece → Writer
  | opening name superName => renderOpening w name superName
  | field object owner name value =>
    w.line (property object (Name.ofField owner name) ++ " = " ++ value.render ++ ";")
  | function f => f.render w
  | publish dest name => w.line (Exporter.statement dest name)
  | reflection name interfaces access annotations =>
    renderReflection w name interfaces access annotations
  | construction superName => renderConstruction w superName
  | closing => renderClosing w

def renderAll (w : Writer) (pieces : List Piece) : Writer := pieces.foldl render w

end Piece

end ClassScript
