import ClassScript.Name

/-!
What a program is to be made of, and how.
-/

namespace ClassScript

/-- A complete program, or an extension of a running one. -/
inductive LinkMode where
  | standalone | extension
  deriving DecidableEq, Repr, Inhabited

/-- How much is done for a later pass that shortens names: nothing, a list of the names to
keep, or a second publication of every exported symbol under a quoted name. -/
inductive Obfuscation where
  | none | keepList | full
  deriving DecidableEq, Repr, Inhabited

structure Options where
  /-- Internal names of the classes to start from. -/
  roots : List String
  mode : LinkMode := .standalone
  /-- Exported classes, and exported packages with a slash at the end. -/
  exported : List String := []
  /-- Resources to embed as data. -/
  resources : List String := []
  obfuscation : Obfuscation := .none
  /-- A library exports something. -/
  isLibrary : Bool := false
  /-- Classes that a complete program always has. -/
  fixed : List String

namespace Options

/-- Classes that the support code of a program itself refers to. -/
def defaultFixed : List String :=
  ["java/lang/Class", "java/lang/ArithmeticException",
    "java/lang/ArrayIndexOutOfBoundsException", "java/lang/ClassCastException",
    "java/lang/NegativeArraySizeException", "java/lang/NullPointerException"]

/-- Options for roots written with dots or slashes. -/
def ofRoots (roots : List String) : Options :=
  { roots := roots.map Name.internal, fixed := defaultFixed }

def isSeparator (c : Char) : Bool := c == '/' || c == '.'

/-- An export entry: a package when it ends in a separator, else a class. -/
def exportEntry (name : String) : String :=
  let backwards := name.toList.reverse
  if (backwards.head?.map isSeparator).getD false then
    let package := (backwards.dropWhile isSeparator).reverse
    String.ofList (package.map (fun c => if c = '.' then '/' else c) ++ ['/'])
  else Name.internal name

def withExported (o : Options) (name : String) : Options :=
  { o with exported := o.exported ++ [exportEntry name] }

def withFixed (o : Options) (names : List String) : Options :=
  { o with fixed := names.map Name.internal }

end Options

/-! Annotations that steer generation. -/

namespace Marker

/-- Keeps a symbol reachable from outside the program. -/
def exported : String := "jvm2js/core/Exported"
/-- Gives a method a body in script. -/
def scriptBody : String := "jvm2js/core/JavaScriptBody"
/-- Names a script to include with a class. -/
def scriptResource : String := "jvm2js/core/JavaScriptResource"

end Marker

end ClassScript
