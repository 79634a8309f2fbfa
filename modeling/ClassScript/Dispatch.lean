import ClassScript.Visibility

/-!
How a virtual call reaches its method.

A direct call names the property of the receiver. An invoker call asks the receiver at run
time; it is needed when code outside the program may bring further overrides.
-/

namespace ClassScript

inductive Dispatch where
  | direct | invoker
  deriving DecidableEq, Repr

/-- The classes that the output at hand defines. -/
structure ModuleScope where
  mode : LinkMode
  internal : List String
  deriving DecidableEq, Repr

/-- Is the class one of the host program? A complete program has no host. -/
def ModuleScope.isExternal (s : ModuleScope) (name : String) : Bool :=
  match s.mode with
  | .standalone => false
  | .extension => !s.internal.contains name

namespace Exports

/-- Is the method, or one that it overrides, exported? -/
def isHierarchyExported (e : Exports) (c : ClassDecl) (m : MethodDecl) : Query Bool := do
  if ← e.isExportedMethod c m then return true
  if m.isPrivate || m.isStatic then return false
  let result ← Hierarchy.walk e.find e.library.reach c.name false fun d _ => do
    match d.method? m.name m.descriptor with
    | none => return .yield false
    | some n => if ← e.isExportedMethod d n then return .done true else return .yield false
  return result.value

/-- How to call a method on a receiver of the class `start`. -/
def dispatch (e : Exports) (scope : ModuleScope) (start name descriptor : String) :
    Query Dispatch := do
  match ← Query.ofLookup (e.library.findMethod start name descriptor) with
  | none => return .invoker
  | some (c, m) =>
    if scope.isExternal c.name then return .invoker
    if m.isFinal || m.isPrivate || c.isFinal then return .direct
    if let some referenced ← e.find start then
      if referenced.isFinal then return .direct
    if ← e.isHierarchyExported c m then return .invoker else return .direct

end Exports

end ClassScript
