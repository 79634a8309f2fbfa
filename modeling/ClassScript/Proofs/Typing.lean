import ClassScript.ClassFile.Pool
import ClassScript.Descriptor
import ClassScript.Instruction
import Mathlib.Tactic.SplitIfs

/-!
What an instruction does to the kinds on the operand stack.

Stacks are lists of kinds, top first. An instruction has no effect on a stack that it cannot
run on: too short, of other kinds, or where its constant or descriptor does not resolve.
Subroutines and dynamic calls have none at all.
-/

namespace ClassScript

def Immediate.kind : Immediate → Kind
  | null => .ref
  | int _ => .int
  | long _ => .long
  | float _ => .float
  | double _ => .double

def Loadable.kind : Loadable → Kind
  | int _ => .int
  | float _ => .float
  | long _ => .long
  | double _ => .double
  | string _ | classRef _ => .ref

namespace Typing

def take : List Kind → List Kind → Option (List Kind)
  | [], s => some s
  | k :: ks, l :: s => if l = k then take ks s else none
  | _ :: _, [] => none

/-- Takes some kinds and puts others, the first of each being the top. -/
def replace (taken put : List Kind) (s : List Kind) : Option (List Kind) :=
  (take taken s).map (put ++ ·)

def resolve {ε α : Type} : Except ε α → Option α
  | .ok a => some a
  | .error _ => none

def fieldKind (p : ConstantPool) (i : UInt16) : Option Kind := do
  let r ← resolve (p.memberRef i)
  (← ValueType.ofDescriptor? r.descriptor).kind?

/-- A call takes its arguments, the last on top, and a receiver unless it is static. -/
def call (p : ConstantPool) (kind : InvokeKind) (i : UInt16) (s : List Kind) :
    Option (List Kind) := do
  let r ← resolve (p.memberRef i)
  let signature ← Signature.ofDescriptor? r.descriptor
  let args ← signature.params.mapM ValueType.kind?
  let receiver := if kind = .static then [] else [Kind.ref]
  replace (args.reverse ++ receiver) signature.result.kind?.toList s

def shuffle : Instruction → List Kind → Option (List Kind)
  | .dup, a :: s => if a.isWide then none else some (a :: a :: s)
  | .dupX1, a :: b :: s => if a.isWide || b.isWide then none else some (a :: b :: a :: s)
  | .dupX2, a :: b :: s =>
    if a.isWide then none
    else if b.isWide then some (a :: b :: a :: s)
    else
      match s with
      | c :: s => if c.isWide then none else some (a :: b :: c :: a :: s)
      | [] => none
  | .dup2, a :: s =>
    if a.isWide then some (a :: a :: s)
    else
      match s with
      | b :: s => if b.isWide then none else some (a :: b :: a :: b :: s)
      | [] => none
  | .dup2X1, a :: b :: s =>
    if b.isWide then none
    else if a.isWide then some (a :: b :: a :: s)
    else
      match s with
      | c :: s => if c.isWide then none else some (a :: b :: c :: a :: b :: s)
      | [] => none
  | .dup2X2, a :: b :: s =>
    match a.isWide, b.isWide, s with
    | true, true, s => some (a :: b :: a :: s)
    | true, false, c :: s => if c.isWide then none else some (a :: b :: c :: a :: s)
    | false, false, c :: s =>
      if c.isWide then some (a :: b :: c :: a :: b :: s)
      else
        match s with
        | d :: s => if d.isWide then none else some (a :: b :: c :: d :: a :: b :: s)
        | [] => none
    | _, _, _ => none
  | .swap, a :: b :: s => if a.isWide || b.isWide then none else some (b :: a :: s)
  | _, _ => none

def effect (p : ConstantPool) (i : Instruction) (s : List Kind) : Option (List Kind) :=
  match i with
  | .nop | .iinc .. | .goto _ | .returns none => some s
  | .push v => some (v.kind :: s)
  | .ldc index => (resolve (p.loadable index)).map (·.kind :: s)
  | .load k _ => some (k :: s)
  | .store k _ | .returns (some k) => replace [k] [] s
  | .arrayLoad k => replace [.int, .ref] [k.kind] s
  | .arrayStore k => replace [k.kind, .int, .ref] [] s
  | .pop =>
    match s with
    | a :: s => if a.isWide then none else some s
    | [] => none
  | .pop2 =>
    match s with
    | a :: s =>
      if a.isWide then some s
      else
        match s with
        | b :: s => if b.isWide then none else some s
        | [] => none
    | [] => none
  | .arith _ k => if k = .ref then none else replace [k, k] [k] s
  | .neg k => if k = .ref then none else replace [k] [k] s
  | .shift _ k => if k = .int ∨ k = .long then replace [.int, k] [k] s else none
  | .logic _ k => if k = .int ∨ k = .long then replace [k, k] [k] s else none
  | .convert c => replace [c.source] [c.target] s
  | .lcmp => replace [.long, .long] [.int] s
  | .cmp k _ => if k = .float ∨ k = .double then replace [k, k] [.int] s else none
  | .ifZero .. | .tableSwitch .. | .lookupSwitch .. => replace [.int] [] s
  | .ifInt .. => replace [.int, .int] [] s
  | .ifRef .. => replace [.ref, .ref] [] s
  | .ifNull .. | .monitorEnter | .monitorExit | .athrow => replace [.ref] [] s
  | .getStatic index => (fieldKind p index).map (· :: s)
  | .putStatic index => do replace [← fieldKind p index] [] s
  | .getField index => do replace [.ref] [← fieldKind p index] s
  | .putField index => do replace [← fieldKind p index, .ref] [] s
  | .invoke kind index => call p kind index s
  | .new index => (resolve (p.className index)).map fun _ => .ref :: s
  | .newArray _ => replace [.int] [.ref] s
  | .newRefArray index => do let _ ← resolve (p.className index); replace [.int] [.ref] s
  | .newMultiArray index dimensions => do
    let _ ← resolve (p.className index)
    replace (List.replicate dimensions.toNat .int) [.ref] s
  | .arrayLength => replace [.ref] [.int] s
  | .checkCast index => do let _ ← resolve (p.className index); replace [.ref] [.ref] s
  | .instanceOf index => do let _ ← resolve (p.className index); replace [.ref] [.int] s
  | .jsr _ | .ret _ | .invokeDynamic _ => none
  | .dup | .dupX1 | .dupX2 | .dup2 | .dup2X1 | .dup2X2 | .swap => shuffle i s

def straight (p : ConstantPool) (code : List Instruction) (s : List Kind) : Option (List Kind) :=
  code.foldlM (fun s i => effect p i s) s

lemma effect_ldc (p : ConstantPool) (i : UInt16) (s : List Kind) :
    effect p (.ldc i) s = (resolve (p.loadable i)).map (·.kind :: s) := rfl

lemma effect_pop {p : ConstantPool} {s s' : List Kind} (h : effect p .pop s = some s') :
    ∃ k, s = [k] ++ s' := by
  cases s with
  | nil => cases h
  | cons k s =>
    change (if k.isWide then none else some s) = _ at h
    split_ifs at h
    cases h
    exact ⟨k, rfl⟩

lemma effect_pop2 {p : ConstantPool} {s s' : List Kind} (h : effect p .pop2 s = some s') :
    (∃ k, k.isWide = true ∧ s = k :: s') ∨ ∃ k l, ¬ k.isWide = true ∧ s = k :: l :: s' := by
  cases s with
  | nil => cases h
  | cons k s =>
    by_cases hk : k.isWide = true
    · have h' : some s = some s' := (if_pos hk).symm.trans h
      cases h'
      exact .inl ⟨k, hk, rfl⟩
    · cases s with
      | nil => exact absurd ((if_neg hk).symm.trans h) (by simp)
      | cons l s =>
        have h' : (if l.isWide then none else some s) = some s' := (if_neg hk).symm.trans h
        split_ifs at h'
        cases h'
        exact .inr ⟨k, l, hk, rfl⟩

lemma take_eq_some {ks s s' : List Kind} : take ks s = some s' ↔ s = ks ++ s' := by
  fun_induction take ks s <;> grind

lemma replace_eq_some {taken put s s' : List Kind} :
    replace taken put s = some s' ↔ ∃ r, s = taken ++ r ∧ s' = put ++ r := by
  simp only [replace, Option.map_eq_some_iff, take_eq_some]
  constructor
  · rintro ⟨r, rfl, rfl⟩; exact ⟨r, rfl, rfl⟩
  · rintro ⟨r, rfl, rfl⟩; exact ⟨r, rfl, rfl⟩

end Typing

end ClassScript
