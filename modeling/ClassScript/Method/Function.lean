import ClassScript.Method.Body
import ClassScript.Text.Lines

/-!
The function of a method.

A method may carry its body as script; a native method without one only reports that it is
missing; all others get generated code. The local slots of `this` and of the parameters are
bound at the start, and every other variable that the code uses is declared, once, in the
order of the names.
-/

namespace ClassScript

namespace Function

/-- The slots of parameters from the `i`-th on. -/
def bindParams : Nat → UInt16 → List ValueType → Except Defect (List (Var × String))
  | _, _, [] => return []
  | i, slot, t :: ts =>
    match t.kind? with
    | none => throw .voidParameter
    | some k => return (.slot k slot, s!"arg{i}") :: (← bindParams (i + 1) (slot + t.slots) ts)

/-- The slots that hold `this` and the parameters, and what they hold. -/
def bindings (isStatic : Bool) (params : List ValueType) : Except Defect (List (Var × String)) := do
  if isStatic then bindParams 0 0 params
  else return (.slot .ref 0, "this") :: (← bindParams 0 1 params)

/-- The variables to declare: those used that are not bound. -/
def declared (bound used : List Var) : List Var :=
  (used.filter (!bound.contains ·)).eraseDups.mergeSort fun a b => a.name ≤ b.name

end Function

namespace Generator

open Generation

/-- The parameters that a body in script names. -/
def scriptArgs (site : Site) (a : Annotation) : Generation (List String) :=
  match a.element? "args" with
  | none => return []
  | some v =>
    match v.strings? with
    | some names => return names
    | none => fail site (.fault (.defect .scriptArgsNotStrings))

def scriptFunction (m : MethodDecl) (site : Site) (a : Annotation) : Generation Function := do
  let defect (d : Defect) : Cause := .fault (.defect d)
  let args ← scriptArgs site a
  match (a.element? "body").bind ElementValue.string? with
  | none => fail site (defect .scriptWithoutBody)
  | some text =>
    let signature ← liftExcept site .descriptor m.signature
    let takes := signature.params.length
    if args.length ≠ takes then fail site (defect (.scriptArity args.length takes))
    return ⟨Name.ofMethod m.name m.descriptor, args, .script (Lines.solid text)⟩

def codeFunction (g : Generator) (c : ClassDecl) (m : MethodDecl) (site : Site) :
    Generation Function := do
  let signature ← liftExcept site .descriptor m.signature
  let bound ← liftExcept site (fun d => .fault (.defect d))
    (Function.bindings m.isStatic signature.params)
  let (body, used) ← g.body c m
  let params := (List.range signature.params.length).map fun i => s!"arg{i}"
  return ⟨Name.ofMethod m.name m.descriptor, params,
    .code bound (Function.declared (bound.map Prod.fst) used) body⟩

/-- The function of a method. -/
def function (g : Generator) (c : ClassDecl) (m : MethodDecl) : Generation Function := do
  let site := Site.method c.name m.name m.descriptor
  match m.annotation? Marker.scriptBody with
  | some a => scriptFunction m site a
  | none =>
    if m.isNative then
      let text := "native method " ++ site.text ++ " is not available"
      return ⟨Name.ofMethod m.name m.descriptor, [], .missing text⟩
    else g.codeFunction c m site

end Generator

end ClassScript
