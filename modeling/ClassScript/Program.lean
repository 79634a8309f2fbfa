import ClassScript.Invokers
import ClassScript.Script.Definition
import ClassScript.Script.Support
import ClassScript.Text.Base64

/-!
A whole program and its text.

Each class of a program is a definition or a stub: one that leaves the class to the host
program, or one that has it loaded at first use. After the classes come the invoker, the
scripts that classes ask for, embedded data, and the calls of the static initializers.
-/

namespace ClassScript

/-- A class in a program. -/
inductive Item where
  | defined (name : String) (pieces : List Piece)
  /-- Loaded when it is first used. -/
  | lazy (name : String)
  /-- Left to the host program. -/
  | linked (name : String)

namespace Item

def definedName? : Item → Option String
  | defined name _ => some name
  | _ => none

def lazyName? : Item → Option String
  | lazy name => some name
  | _ => none

def linkedName? : Item → Option String
  | linked name => some name
  | _ => none

def render (w : Writer) : Item → Writer
  | defined _ pieces => Piece.renderAll w pieces
  | lazy name =>
    w.line (classFunction name ++ " = function() \x7b return rt.lazy(vm, " ++ Quoted.text name ++
      ", " ++ Quoted.text (Name.ofClass name) ++ ", arguments); \x7d;")
  | linked name =>
    w.line (classFunction name ++ " = function() \x7b return link(" ++ Quoted.text name ++ ", " ++
      Quoted.text (Name.ofClass name) ++ ", arguments); \x7d;")

end Item

/-- The parts of the output, in its order. -/
structure Program where
  mode : LinkMode
  items : List Item
  invokers : Invokers
  /-- The lines of the included scripts. -/
  scripts : List String
  /-- Embedded resources by name. -/
  data : List (String × Bytes)
  initializers : List String
  exporter : Exporter

namespace Program

def compiled (p : Program) : List String := p.items.filterMap Item.definedName?
def stubbed (p : Program) : List String := p.items.filterMap Item.lazyName?
def external (p : Program) : List String := p.items.filterMap Item.linkedName?

def indent : LinkMode → Nat
  | .standalone => 2
  | .extension => 1

def opening (support : String) : LinkMode → String
  | .standalone =>
    "(function jvm2jsVM(global) \x7b\n  var fillInVMSkeleton = function(vm) \x7b\n" ++
      "    var rt = vm.rt = " ++ support ++ "(vm);\n"
  | .extension =>
    let w := Writer.begins {} "jvm2js.registerExtension(function(exports) \x7b"
    let w := w.lines ["var vm = \x7b\x7d;", "var rt = exports.rt;"]
    let w := w.begins "function link(name, prop, args) \x7b"
    let w := w.begins "if (typeof exports[prop] !== 'function' && exports.$loader) \x7b"
    let w := (w.line "exports.$loader(name.replace(/\\//g, '.'));").ends "\x7d"
    let w := w.begins "if (typeof exports[prop] !== 'function') \x7b"
    let w := w.line "throw new Error('java.lang.NoClassDefFoundError: ' + name);"
    let w := w.ends "\x7d"
    let w := w.lines ["vm[prop] = exports[prop];", "return vm[prop].apply(null, args);"]
    (w.ends "\x7d").text

def closing (compiled : List String) : LinkMode → String
  | .standalone =>
    let w : Writer := { indent := 2 }
    let w := (w.line "return vm;").ends "\x7d;"
    let w := w.lines ["var vm = fillInVMSkeleton(\x7b\x7d);", "var rt = vm.rt;",
      "var extensions = [];"]
    let w := w.begins "var jvm2js = global.jvm2js = \x7b"
    let w := w.lines ["vm: vm,", "rt: rt,", "extensions: extensions,", "loader: null,"]
    let w := w.begins "loadClass: function(name) \x7b"
    let w := w.line "var fn = vm[rt.mangleClass(name.replace(/\\./g, '/'))];"
    let w := w.begins "if (typeof fn !== 'function') \x7b"
    let w := w.line "throw new Error('java.lang.ClassNotFoundException: ' + name);"
    let w := w.ends "\x7d"
    let w := (w.line "return fn(false).constructor.$class;").ends "\x7d,"
    let w := w.lines ["loadBytes: function(name) \x7b return rt.resourceBytes(name); \x7d,",
      "loadResource: function(name) \x7b return rt.resourceText(name); \x7d,"]
    let w := w.begins "registerExtension: function(init) \x7b"
    let w := (w.lines ["extensions.push(init);", "init(vm);"]).ends "\x7d"
    let w := w.ends "\x7d;"
    let w := w.begins "vm.$loader = function(name) \x7b"
    let w := w.begins "if (typeof jvm2js.loader === 'function') \x7b"
    let w := (w.line "jvm2js.loader(name);").ends "\x7d"
    ((w.ends "\x7d;").ends "\x7d(this));").text
  | .extension =>
    let w : Writer := { indent := 1 }
    let publish (name : String) : String :=
      bracket "exports" (Name.ofClass name) ++ " = " ++ classFunction name ++ ";"
    ((w.lines (compiled.map publish)).ends "\x7d);").text

def renderParts (p : Program) (w : Writer) : Writer :=
  let w := p.items.foldl Item.render w
  let w := if p.invokers.names.isEmpty then w
    else Invokers.render (Invokers.renderTrampoline w) p.invokers
  let w := w.lines p.scripts
  let w := w.lines (p.data.map fun (name, bytes) =>
    "rt.resource(" ++ Quoted.text name ++ ", " ++ Quoted.text (Base64.text bytes) ++ ");")
  w.lines p.initializers

/-- The program with this support code. -/
def renderWith (support : String) (p : Program) : String :=
  opening support p.mode ++ (p.renderParts { indent := indent p.mode }).text ++
    closing p.compiled p.mode

def render (p : Program) : String := p.renderWith Support.text

end Program

end ClassScript
