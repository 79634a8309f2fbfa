import ClassScript.Library

/-!
Walking the hierarchy of a class.

The walk visits the class, then its superclasses upwards, and then the interfaces that can
be reached from these: depth first, from left to right, taking the classes of the chain in
order. No name is looked up twice, a class that is missing is passed over, and the visitor
may end the walk.
-/

namespace ClassScript.Hierarchy

variable {m : Type → Type} [Monad m] {σ : Type}

/-- A walk under way: the names met, and the state of the visitor, or its last state. -/
structure Walk (σ : Type) where
  seen : List String
  result : ForInStep σ

/-- Visits the superclass chain from a name upwards, for at most `fuel` classes, and returns
the classes visited. -/
def climb (find : String → m (Option ClassDecl)) (visit : ClassDecl → σ → m (ForInStep σ)) :
    Nat → Option String → Walk σ → m (Walk σ × List ClassDecl)
  | 0, _, w => return (w, [])
  | _, none, w => return (w, [])
  | fuel + 1, some name, w =>
    match w.result with
    | .done _ => return (w, [])
    | .yield s =>
      if w.seen.contains name then return (w, [])
      else do
        let seen := name :: w.seen
        match ← find name with
        | none => return (⟨seen, .yield s⟩, [])
        | some c =>
          let (w, cs) ← climb find visit fuel c.superName ⟨seen, ← visit c s⟩
          return (w, c :: cs)

/-- Visits the interfaces of these names and all above them, to at most `fuel` levels. -/
def spread (find : String → m (Option ClassDecl)) (visit : ClassDecl → σ → m (ForInStep σ)) :
    Nat → List String → Walk σ → m (Walk σ)
  | 0, _, w => return w
  | fuel + 1, names, w =>
    names.foldlM (fun w name => do
      match w.result with
      | .done _ => return w
      | .yield s =>
        if w.seen.contains name then return w
        else
          let seen := name :: w.seen
          match ← find name with
          | none => return ⟨seen, .yield s⟩
          | some c => spread find visit fuel c.interfaces ⟨seen, ← visit c s⟩) w

/-- Visits the hierarchy of a class until the visitor is done. -/
def walk (find : String → m (Option ClassDecl)) (fuel : Nat) (start : String) (init : σ)
    (visit : ClassDecl → σ → m (ForInStep σ)) : m (ForInStep σ) := do
  let (w, chain) ← climb find visit fuel (some start) ⟨[], .yield init⟩
  let w ← chain.foldlM (fun w c => spread find visit fuel c.interfaces w) w
  return w.result

/-- The first class in the order of the walk for which `select` has an answer. -/
def first? {α : Type} (find : String → m (Option ClassDecl)) (fuel : Nat) (start : String)
    (select : ClassDecl → Option α) : m (Option (ClassDecl × α)) := do
  let result ← walk find fuel start none fun c s =>
    return match select c with
      | some a => .done (some (c, a))
      | none => .yield s
  return result.value

end ClassScript.Hierarchy

namespace ClassScript.Library

/-- The method that a class has by its name and descriptor, and the class that declares it. -/
def findMethod (lib : Library) (start name descriptor : String) :
    Lookup (Option (ClassDecl × MethodDecl)) :=
  Hierarchy.first? lib.find lib.reach start (·.method? name descriptor)

def findField (lib : Library) (start name descriptor : String) :
    Lookup (Option (ClassDecl × FieldDecl)) :=
  Hierarchy.first? lib.find lib.reach start (·.field? name descriptor)

end ClassScript.Library
