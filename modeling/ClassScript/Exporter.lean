import ClassScript.Options
import ClassScript.Script.Quoted
import ClassScript.Script.Writer

/-!
How exported symbols show in the output.
-/

namespace ClassScript

/-- Counts the exported symbols and collects the names to keep. -/
structure Exporter where
  level : Obfuscation
  /-- Each name once, in the order of first use. -/
  kept : List String := []
  count : Nat := 0
  deriving DecidableEq, Repr

namespace Exporter

/-- Names that the support code relies on. -/
def supportNames : List String :=
  ["jvm2js", "$class", "anno", "access", "cls", "vm", "rt", "loadClass", "loadBytes",
    "loadResource", "registerExtension", "jvmName", "primitive", "superclass", "interfaces",
    "cnstr", "hi", "lo", "add32", "sub32", "mul32", "div32", "mod32", "neg32", "toInt8",
    "toInt16", "toChar", "add64", "sub64", "mul64", "div64", "mod64", "neg64", "and64", "or64",
    "xor64", "shl64", "shr64", "ushr64", "compare64", "i2l", "l2i", "l2d", "d2i", "d2l", "long",
    "fcmp", "newArray", "multiArray", "at", "put", "checkCast", "isInstance", "implement",
    "lazy", "resource", "resourceText", "resourceBytes", "throwable", "mangleClass", "classFor",
    "annotation", "$loader", "getClass__Ljava_lang_Class_2", "clone__Ljava_lang_Object_2"]

def start (level : Obfuscation) : Exporter :=
  { level, kept := if level = .keepList then supportNames else [] }

/-- The statement that publishes a property under its quoted name. -/
def statement (dest name : String) : String :=
  bracket dest name ++ " = " ++ property dest name ++ ";"

/-- Exports a property. -/
def add (x : Exporter) (name : String) : Exporter :=
  let x := { x with count := x.count + 1 }
  if x.level = .keepList && !x.kept.contains name then { x with kept := x.kept ++ [name] } else x

/-- Does an export write a statement? -/
def writes (x : Exporter) : Bool := x.level = .full

end Exporter

end ClassScript
