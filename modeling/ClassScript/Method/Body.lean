import ClassScript.Method.Resolve

/-!
The body of a method.

A label stands at every address that a jump, a switch or a handler names. Control reaches a
label with the stack that the first jump there had, or with what the code before it left; a
handler starts with the thrown value alone. Code that nothing can reach is left out.
-/

namespace ClassScript

namespace Labels

/-- The addresses that a row of an exception table names inside the code. -/
def ofHandler (length : Nat) (h : Handler) : List Nat :=
  [h.start.toNat, h.target.toNat] ++ if h.stop.toNat < length then [h.stop.toNat] else []

/-- The addresses that need a label, unless one of them is not where an instruction starts:
then the lowest that is not among the targets of jumps, or the first in the table. -/
def of (code : List Located) (handlers : List Handler) (length : Nat) :
    Except Defect (List Nat) := do
  let isStart (pc : Nat) : Bool := code.any (·.address == pc)
  let targets := code.flatMap (·.instruction.targets)
  if let some bad := (targets.filter (!isStart ·)).min? then throw (.branchOutsideCode bad)
  let named := handlers.flatMap (ofHandler length)
  if let some bad := named.find? (!isStart ·) then throw (.tableOutsideCode bad)
  let labels := targets ++ named
  return if labels.isEmpty then [] else 0 :: labels

end Labels

/-- The stack that handlers start with. -/
def Frame.ofHandlers (handlers : List Handler) : Frame :=
  { layouts := handlers.foldl (fun t h => t.insert h.target.toNat [.ref]) {} }

namespace Lower

/-- A label; `marked` when handlers have to know of it. -/
def enterLabel (pc : Nat) (reachable marked : Bool) : Lower Unit := do
  if reachable then
    flush
    record pc
  else
    reset (((← get).layouts.get? pc).getD [])
  emit (.label pc)
  if marked then emit (.mark pc)

end Lower

namespace Generator

open Generation Emission

/-- Code for a list of instructions. Returns the address of the last instruction that has
code; `last` is the one before these. -/
def block (g : Generator) (site : Nat → Site) (p : ConstantPool) (labels : List Nat)
    (marked : Bool) : List Located → Bool → Option Nat → Emission (Option Nat)
  | [], _, last => return last
  | ⟨pc, i⟩ :: rest, reachable, last => do
    let labelled := labels.contains pc
    if labelled || reachable then
      if labelled then lower (site pc) (Lower.enterLabel pc reachable marked)
      g.instruction (site pc) p i
      block g site p labels marked rest (!i.endsFlow) (some pc)
    else
      block g site p labels marked rest false last

def catchClause (site : Site) (p : ConstantPool) (h : Handler) : Generation CatchClause := do
  let caught ← if h.catchType = 0 then pure none
    else do
      let name ← classAt site p h.catchType
      request (.reference name)
      pure (some name)
  return ⟨h.start.toNat, h.stop.toNat, caught, h.target.toNat⟩

/-- The statements of a method and the variables that they need. -/
def body (g : Generator) (c : ClassDecl) (m : MethodDecl) : Generation (Body × List Var) := do
  let start := Site.method c.name m.name m.descriptor
  let site := Site.code c.name m.name m.descriptor
  let code ← liftExcept start .decode (Instruction.decode m.bytecode)
  let labels ← liftExcept start (fun d => .fault (.defect d))
    (Labels.of code m.handlers m.bytecode.length)
  let marked := !m.handlers.isEmpty
  let (last, f) ← g.block site c.pool labels marked code true none (Frame.ofHandlers m.handlers)
  if labels.isEmpty then return (.straight f.out.toList, f.used)
  let clauses ← m.handlers.mapM (catchClause ((last.map site).getD start) c.pool)
  return (.looped f.out.toList clauses, if marked then CatchClause.thrown :: f.used else f.used)

end Generator

end ClassScript
