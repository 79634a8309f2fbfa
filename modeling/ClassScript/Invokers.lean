import ClassScript.Script.Quoted
import ClassScript.Script.Writer

/-!
Calls through the invoker.

The invoker is one function that remembers a target and a method name and passes its
arguments on. Each method name has a selector that sets both.
-/

namespace ClassScript

/-- Method names called through the invoker, each once, in the order of first use. -/
structure Invokers where
  names : List String := []
  deriving DecidableEq, Repr

namespace Invokers

def add (t : Invokers) (name : String) : Invokers :=
  if t.names.contains name then t else ⟨t.names ++ [name]⟩

def renderTrampoline (w : Writer) : Writer :=
  let w := w.begins "var invoker = function Invoker() \x7b"
  let w := w.line "return Invoker.target[Invoker.method].apply(Invoker.target, arguments);"
  w.ends "\x7d;"

/-- The selector of a method name. -/
def renderSelector (w : Writer) (name : String) : Writer :=
  let w := w.begins (property "invoker" name ++ " = function(target) \x7b")
  let w := w.line "invoker.target = target;"
  let w := w.line ("invoker.method = " ++ Quoted.text name ++ ";")
  let w := w.line "return invoker;"
  w.ends "\x7d;"

def render (w : Writer) (t : Invokers) : Writer := t.names.foldl renderSelector w

end Invokers

end ClassScript
