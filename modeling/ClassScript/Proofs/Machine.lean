import ClassScript.ClassFile.Pool
import ClassScript.Instruction
import Mathlib.Tactic.Ring

/-!
The machine that instructions are for, as far as straight code goes.

Integers are counted in `Int` and brought back to their width at the end, so nothing here
rests on the arithmetic that constants are folded with. A step has no result where the
operands are not of the kinds that the instruction takes.
-/

namespace ClassScript.Machine

inductive Reference where
  | null
  | text (s : String)
  | object (identity : Nat)
  deriving DecidableEq

/-- A value of the machine. What is no number is one value, whatever its word. -/
inductive Value where
  | int (v : Int32)
  | long (v : Int64)
  | float (x : Unpacked)
  | double (x : Unpacked)
  | ref (r : Reference)
  deriving DecidableEq

namespace Value

def kind : Value → Kind
  | int _ => .int
  | long _ => .long
  | float _ => .float
  | double _ => .double
  | ref _ => .ref

def ofImmediate : Immediate → Value
  | .null => .ref .null
  | .int v => .int v
  | .long v => .long v
  | .float v => .float v.widen.unpack
  | .double v => .double v.unpack

end Value

/-- The operand stack, top first, and the local slots. -/
structure State where
  stack : List Value
  locals : Nat → Option Value

/-! ### Operations -/

/-- No quotient by zero. -/
def arith : ArithOp → Int → Int → Option Int
  | .add, a, b => some (a + b)
  | .sub, a, b => some (a - b)
  | .mul, a, b => some (a * b)
  | .div, a, b => if b = 0 then none else some (a.tdiv b)
  | .rem, a, b => if b = 0 then none else some (a.tmod b)

/-- Shifts of a word of `width` bits; the distance counts modulo the width. -/
def shift (width : Nat) (op : ShiftOp) (a b : Int) : Int :=
  let n := (b % width).toNat
  match op with
  | .shl => a * 2 ^ n
  | .shr => a / 2 ^ n
  | .ushr => a % 2 ^ width / 2 ^ n

def logic {width : Nat} : LogicOp → BitVec width → BitVec width → BitVec width
  | .and, a, b => a &&& b
  | .or, a, b => a ||| b
  | .xor, a, b => a ^^^ b

inductive Computed where
  | value (v : Value)
  | divisionByZero
  deriving DecidableEq

def Computed.ofQuotient (make : Int → Value) : Option Int → Computed
  | some n => value (make n)
  | none => divisionByZero

def calculate (op : ArithOp) : Kind → Value → Value → Option Computed
  | .int, .int a, .int b =>
    some (.ofQuotient (fun n => .int (.ofInt n)) (arith op a.toInt b.toInt))
  | .long, .long a, .long b =>
    some (.ofQuotient (fun n => .long (.ofInt n)) (arith op a.toInt b.toInt))
  | _, _, _ => none

def negate : Kind → Value → Option Value
  | .int, .int a => some (.int (.ofInt (-a.toInt)))
  | .long, .long a => some (.long (.ofInt (-a.toInt)))
  | _, _ => none

def displace (op : ShiftOp) : Kind → Value → Value → Option Value
  | .int, .int a, .int b => some (.int (.ofInt (shift 32 op a.toInt b.toInt)))
  | .long, .long a, .int b => some (.long (.ofInt (shift 64 op a.toInt b.toInt)))
  | _, _, _ => none

def combine (op : LogicOp) : Kind → Value → Value → Option Value
  | .int, .int a, .int b => some (.int ⟨⟨logic op a.toBitVec b.toBitVec⟩⟩)
  | .long, .long a, .long b => some (.long ⟨⟨logic op a.toBitVec b.toBitVec⟩⟩)
  | _, _, _ => none

def compare : Value → Value → Option Value
  | .long a, .long b => some (.int (.ofInt (a.toInt - b.toInt).sign))
  | _, _ => none

def convert : Conversion → Value → Option Value
  | .i2l, .int a => some (.long (.ofInt a.toInt))
  | .l2i, .long a => some (.int (.ofInt a.toInt))
  | .i2b, .int a => some (.int (.ofInt (a.toInt.bmod (2 ^ 8))))
  | .i2c, .int a => some (.int (.ofInt (a.toInt % 2 ^ 16)))
  | .i2s, .int a => some (.int (.ofInt (a.toInt.bmod (2 ^ 16))))
  | _, _ => none

/-! ### Steps -/

/-- A wide value fills two slots. What a write meets of an older value is gone. -/
def setLocal (locals : Nat → Option Value) (i : Nat) (v : Value) : Nat → Option Value := fun j =>
  if j = i then some v
  else if v.kind.isWide ∧ j = i + 1 then none
  else if j + 1 = i ∧ (locals j).any (·.kind.isWide) then none
  else locals j

/-- How code ends: after its last instruction, or at one that divides by zero. -/
inductive Outcome where
  | completes (m : State)
  | throws

namespace State

variable (m : State)

def push (v : Value) : Outcome := .completes { m with stack := v :: m.stack }

def load (k : Kind) (i : Nat) : Option Outcome :=
  match m.locals i with
  | some v => if v.kind = k then some (m.push v) else none
  | none => none

def store (k : Kind) (i : Nat) : Option Outcome :=
  match m.stack with
  | v :: s => if v.kind = k then some (.completes ⟨s, setLocal m.locals i v⟩) else none
  | [] => none

def increment (i : Nat) (delta : Int) : Option Outcome :=
  match m.locals i with
  | some (.int v) =>
    some (.completes { m with locals := setLocal m.locals i (.int (.ofInt (v.toInt + delta))) })
  | _ => none

def pop : Option Outcome :=
  match m.stack with
  | v :: s => if v.kind.isWide then none else some (.completes { m with stack := s })
  | [] => none

/-- Takes one wide value, or two that are not. -/
def pop2 : Option Outcome :=
  match m.stack with
  | v :: s =>
    if v.kind.isWide then some (.completes { m with stack := s })
    else
      match s with
      | w :: s => if w.kind.isWide then none else some (.completes { m with stack := s })
      | [] => none
  | [] => none

def unary (f : Value → Option Value) : Option Outcome :=
  match m.stack with
  | v :: s => (f v).map fun r => .completes { m with stack := r :: s }
  | [] => none

def binary (f : Value → Value → Option Computed) : Option Outcome :=
  match m.stack with
  | w :: v :: s => (f v w).map fun
    | .value r => .completes { m with stack := r :: s }
    | .divisionByZero => .throws
  | _ => none

end State

def step (p : ConstantPool) (i : Instruction) (m : State) : Option Outcome :=
  match i with
  | .push v => some (m.push (.ofImmediate v))
  | .ldc index =>
    match p.loadable index with
    | .ok (.int v) => some (m.push (.int v))
    | .ok (.long v) => some (m.push (.long v))
    | _ => none
  | .load k index => m.load k index.toNat
  | .store k index => m.store k index.toNat
  | .iinc index delta => m.increment index.toNat delta.toInt
  | .pop => m.pop
  | .pop2 => m.pop2
  | .arith op k => m.binary (calculate op k)
  | .neg k => m.unary (negate k)
  | .shift op k => m.binary fun a b => (displace op k a b).map .value
  | .logic op k => m.binary fun a b => (combine op k a b).map .value
  | .lcmp => m.binary fun a b => (compare a b).map .value
  | .convert c => m.unary (convert c)
  | _ => none

def run (p : ConstantPool) : List Instruction → State → Option Outcome
  | [], m => some (.completes m)
  | i :: rest, m =>
    match step p i m with
    | some (.completes m) => run p rest m
    | other => other

/-! ### What a step can be -/

namespace State

variable {m : State} {o : Outcome}

lemma load_cases {k : Kind} {i : Nat} (h : m.load k i = some o) :
    ∃ v, m.locals i = some v ∧ v.kind = k ∧ o = m.push v := by
  unfold load at h
  split at h
  · rename_i v hv
    split_ifs at h with hk
    cases h
    exact ⟨v, hv, hk, rfl⟩
  · cases h

lemma store_cases {k : Kind} {i : Nat} (h : m.store k i = some o) :
    ∃ v vs, m.stack = v :: vs ∧ v.kind = k ∧ o = .completes ⟨vs, setLocal m.locals i v⟩ := by
  unfold store at h
  split at h
  · rename_i v vs hm
    split_ifs at h with hk
    cases h
    exact ⟨v, vs, hm, hk, rfl⟩
  · cases h

lemma increment_cases {i : Nat} {d : Int} (h : m.increment i d = some o) :
    ∃ v, m.locals i = some (.int v) ∧
      o = .completes ⟨m.stack, setLocal m.locals i (.int (.ofInt (v.toInt + d)))⟩ := by
  unfold increment at h
  split at h
  · rename_i v hv
    cases h
    exact ⟨v, hv, rfl⟩
  · cases h

lemma pop_cases (h : m.pop = some o) :
    ∃ v vs, m.stack = v :: vs ∧ o = .completes { m with stack := vs } := by
  unfold pop at h
  split at h
  · rename_i v vs hm
    split_ifs at h
    cases h
    exact ⟨v, vs, hm, rfl⟩
  · cases h

lemma pop2_cases (h : m.pop2 = some o) :
    (∃ v vs, m.stack = v :: vs ∧ v.kind.isWide = true ∧ o = .completes { m with stack := vs }) ∨
      ∃ v w vs, m.stack = v :: w :: vs ∧ ¬ v.kind.isWide = true ∧
        o = .completes { m with stack := vs } := by
  unfold pop2 at h
  split at h
  · rename_i v vs hm
    split_ifs at h with hv
    · cases h
      exact .inl ⟨v, vs, hm, hv, rfl⟩
    · split at h
      · rename_i w ws
        split_ifs at h
        cases h
        exact .inr ⟨v, w, ws, hm, hv, rfl⟩
      · cases h
  · cases h

lemma unary_cases {f : Value → Option Value} (h : m.unary f = some o) :
    ∃ v vs r, m.stack = v :: vs ∧ f v = some r ∧ o = .completes { m with stack := r :: vs } := by
  unfold unary at h
  split at h
  · rename_i v vs hm
    obtain ⟨r, hr, rfl⟩ := Option.map_eq_some_iff.mp h
    exact ⟨v, vs, r, hm, hr, rfl⟩
  · cases h

lemma binary_cases {f : Value → Value → Option Computed} (h : m.binary f = some o) :
    ∃ v w vs, m.stack = w :: v :: vs ∧
      ((∃ r, f v w = some (.value r) ∧ o = .completes { m with stack := r :: vs }) ∨
        f v w = some .divisionByZero ∧ o = .throws) := by
  unfold binary at h
  split at h
  · rename_i w v vs hm
    obtain ⟨r, hr, rfl⟩ := Option.map_eq_some_iff.mp h
    refine ⟨v, w, vs, hm, ?_⟩
    cases r with
    | value r => exact .inl ⟨r, hr, rfl⟩
    | divisionByZero => exact .inr ⟨hr, rfl⟩
  · cases h

/-- An operation that always has a result. -/
lemma binary_value_cases {f : Value → Value → Option Value}
    (h : (m.binary fun a b => (f a b).map .value) = some o) :
    ∃ v w vs r, m.stack = w :: v :: vs ∧ f v w = some r ∧
      o = .completes { m with stack := r :: vs } := by
  obtain ⟨v, w, vs, hm, ⟨r, hr, rfl⟩ | ⟨hr, -⟩⟩ := binary_cases h
  · obtain ⟨r', hr', heq⟩ := Option.map_eq_some_iff.mp hr
    cases heq
    exact ⟨v, w, vs, r, hm, hr', rfl⟩
  · obtain ⟨r', -, heq⟩ := Option.map_eq_some_iff.mp hr
    cases heq

end State

lemma step_ldc (p : ConstantPool) (i : UInt16) (m : State) :
    step p (.ldc i) m =
      match p.loadable i with
      | .ok (.int v) => some (m.push (.int v))
      | .ok (.long v) => some (m.push (.long v))
      | _ => none := rfl

/-- Only arithmetic throws. -/
lemma arith_of_step_throws {p : ConstantPool} {m : State} {i : Instruction}
    (h : step p i m = some .throws) : ∃ op k, i = .arith op k := by
  cases i with
  | arith op k => exact ⟨op, k, rfl⟩
  | ldc index =>
    rw [step_ldc] at h
    split at h <;> cases h
  | load k index => obtain ⟨v, -, -, ho⟩ := State.load_cases h; cases ho
  | store k index => obtain ⟨v, vs, -, -, ho⟩ := State.store_cases h; cases ho
  | iinc index d => obtain ⟨v, -, ho⟩ := State.increment_cases h; cases ho
  | pop => obtain ⟨v, vs, -, ho⟩ := State.pop_cases h; cases ho
  | pop2 => rcases State.pop2_cases h with ⟨v, vs, -, -, ho⟩ | ⟨v, w, vs, -, -, ho⟩ <;> cases ho
  | neg k => obtain ⟨v, vs, r, -, -, ho⟩ := State.unary_cases h; cases ho
  | convert c => obtain ⟨v, vs, r, -, -, ho⟩ := State.unary_cases h; cases ho
  | shift op k => obtain ⟨v, w, vs, r, -, -, ho⟩ := State.binary_value_cases h; cases ho
  | logic op k => obtain ⟨v, w, vs, r, -, -, ho⟩ := State.binary_value_cases h; cases ho
  | lcmp => obtain ⟨v, w, vs, r, -, -, ho⟩ := State.binary_value_cases h; cases ho
  | _ => cases h

end ClassScript.Machine
