import ClassScript.Proofs.Folding
import ClassScript.Proofs.LongDivision
import ClassScript.Script.Stmt

/-!
What statements of straight code do to the variables of a script.

A store gives every variable its value, by name. The values of the machine have a form in
the script: an int is a number, a long an object of two words, a floating value a number.
On such forms the functions of the support code and the operators compute what the
machine computes.
-/

namespace ClassScript

open SupportCode (Long Halt Result)

inductive Datum where
  | undefined
  | number (n : Int)
  | long (v : Long)
  | real (x : Unpacked)
  | ref (r : Machine.Reference)
  deriving DecidableEq

namespace Datum

def ofValue : Machine.Value → Datum
  | .int v => number v.toInt
  | .long v => long (SupportCode.ofBits v.toBitVec)
  | .float x | .double x => real x
  | .ref r => ref r

def read : Kind → Datum → Option Machine.Value
  | .int, number n => if -2 ^ 31 ≤ n ∧ n < 2 ^ 31 then some (.int (.ofInt n)) else none
  | .long, long v =>
    if (-2 ^ 31 ≤ v.hi ∧ v.hi < 2 ^ 31) ∧ 0 ≤ v.lo ∧ v.lo < 2 ^ 32 then
      some (.long (.ofInt (v.hi * 2 ^ 32 + v.lo)))
    else none
  | .float, real x => some (.float x)
  | .double, real x => some (.double x)
  | .ref, ref r => some (.ref r)
  | _, _ => none

end Datum

/-- The value of each variable, by its name. -/
abbrev Store := String → Datum

namespace Store

def set (σ : Store) (v : Var) (d : Datum) : Store := fun name => if name = v.name then d else σ name

end Store

/-! ### Expressions and statements -/

namespace Literal

def value : Literal → Machine.Value
  | null => .ref .null
  | int v => .int v
  | long v => .long v
  | float v => .float v.widen.unpack
  | double v => .double v.unpack
  | text s => .ref (.text s)

def eval : Literal → Datum
  | null => .ref .null
  | int v => .number v.toInt
  | long v => .long (SupportCode.long (Number.split v).1.toInt (Number.split v).2.toNat)
  | float v => .real v.widen.unpack
  | double v => .real v.unpack
  | text s => .ref (.text s)

end Literal

def Atom.eval (σ : Store) : Atom → Datum
  | var v => σ v.name
  | lit l => l.eval

namespace SupportCode

def arith32 : ArithOp → Int → Int → Result Int
  | .add => add32
  | .sub => sub32
  | .mul => fun a b => .ok (mul32 a b)
  | .div => div32
  | .rem => mod32

def arith64 : ArithOp → Long → Long → Result Long
  | .add => add64
  | .sub => sub64
  | .mul => mul64
  | .div => div64
  | .rem => mod64

def shift64 : ShiftOp → Long → Int → Long
  | .shl => shl64
  | .shr => shr64
  | .ushr => ushr64

def logic64 : LogicOp → Long → Long → Long
  | .and => and64
  | .or => or64
  | .xor => xor64

end SupportCode

/-- A call of the support code, with the arguments that straight code gives it. -/
def Helper.eval : Helper → List Datum → Result Datum
  | arith32 op, [.number a, .number b] => .number <$> SupportCode.arith32 op a b
  | arith64 op, [.long a, .long b] => .long <$> SupportCode.arith64 op a b
  | neg32, [.number a] => .ok (.number (SupportCode.neg32 a))
  | neg64, [.long a] => .long <$> SupportCode.neg64 a
  | shift64 op, [.long a, .number n] => .ok (.long (SupportCode.shift64 op a n))
  | logic64 op, [.long a, .long b] => .ok (.long (SupportCode.logic64 op a b))
  | compare64, [.long a, .long b] => .ok (.number (SupportCode.compare64 a b))
  | i2l, [.number a] => .ok (.long (SupportCode.i2l a))
  | l2i, [.long a] => .ok (.number (SupportCode.l2i a))
  | toInt8, [.number a] => .ok (.number (SupportCode.toInt8 a))
  | toInt16, [.number a] => .ok (.number (SupportCode.toInt16 a))
  | toChar, [.number a] => .ok (.number (SupportCode.toChar a))
  | _, _ => .error .outside

def BinaryOp.eval : BinaryOp → Int → Int → Result Int
  | arith .add, a, b => SupportCode.exact (a + b)
  | shift .shl, a, b => .ok (SupportCode.shl a b)
  | shift .shr, a, b => .ok (SupportCode.sar a b)
  | shift .ushr, a, b => .ok (SupportCode.shr a b)
  | logic .and, a, b => .ok (SupportCode.bitAnd a b)
  | logic .or, a, b => .ok (SupportCode.bitOr a b)
  | logic .xor, a, b => .ok (SupportCode.bitXor a b)
  | _, _, _ => .error .outside

def Expr.eval (σ : Store) : Expr → Result Datum
  | atom a => .ok (a.eval σ)
  | helper h args => h.eval (args.map (Atom.eval σ))
  | binary op a b =>
    match a.eval σ, b.eval σ with
    | .number x, .number y => .number <$> op.eval x y
    | _, _ => .error .outside
  | wrap e =>
    match e.eval σ with
    | .ok (.number n) => .ok (.number (SupportCode.bitOr n 0))
    | .ok _ => .error .outside
    | .error h => .error h
  | _ => .error .outside

/-- What a statement does; only assignments are described. -/
def Stmt.exec (σ : Store) : Stmt → Result Store
  | assign v e => (e.eval σ).map (σ.set v)
  | _ => .error .outside

def Store.exec (σ : Store) (lines : List Stmt) : Result Store := lines.foldlM Stmt.exec σ

/-! ### Variables -/

lemma Kind.letter_injective {k l : Kind} (h : k.letter = l.letter) : k = l := by
  cases k <;> cases l <;> first | rfl | exact absurd h (by decide)

/-- Numbers that differ are written with different digits. -/
lemma digits_injective {m n : Nat} (h : (toString m).toList = (toString n).toList) : m = n := by
  have h' : Nat.toDigits 10 m = Nat.toDigits 10 n := by
    rw [← Nat.toList_repr, ← Nat.toList_repr]
    exact h
  rw [← Nat.ofDigitChars_ten_toDigits (n := m), h', Nat.ofDigitChars_ten_toDigits]

/-- Variables that differ have different names. -/
lemma Var.name_injective {v w : Var} (h : v.name = w.name) : v = w := by
  have h' := congrArg String.toList h
  -- the first letter tells the three sorts of names apart, and what follows it is a number
  cases v with
  | operand k d =>
    cases w with
    | operand l e =>
      simp only [name, String.toList_append, String.toList_ofList, List.cons_append,
        List.nil_append, List.cons.injEq, true_and] at h'
      obtain ⟨hk, hd⟩ := h'
      rw [Kind.letter_injective hk, digits_injective hd]
    | slot l i => simp [name] at h'
    | temp n => simp [name] at h'
  | slot k i =>
    cases w with
    | operand l e => simp [name] at h'
    | slot l j =>
      simp only [name, String.toList_append, String.toList_ofList, List.cons_append,
        List.nil_append, List.cons.injEq, true_and] at h'
      obtain ⟨hk, hd⟩ := h'
      rw [Kind.letter_injective hk, UInt16.toNat_inj.mp (digits_injective hd)]
    | temp n => simp [name] at h'
  | temp n =>
    cases w with
    | operand l e => simp [name] at h'
    | slot l i => simp [name] at h'
    | temp m =>
      simp only [name, String.toList_append, List.append_cancel_left_eq] at h'
      rw [digits_injective h']

@[simp] lemma Store.set_self (σ : Store) (v : Var) (d : Datum) : σ.set v d v.name = d := if_pos rfl

lemma Store.set_of_ne (σ : Store) {v w : Var} (d : Datum) (h : w ≠ v) :
    σ.set v d w.name = σ w.name :=
  if_neg fun hname => h (Var.name_injective hname)

@[simp] lemma Store.exec_nil (σ : Store) : σ.exec [] = .ok σ := rfl

lemma Store.exec_assign {σ : Store} {v : Var} {e : Expr} {d : Datum} (h : e.eval σ = .ok d) :
    σ.exec [.assign v e] = .ok (σ.set v d) := by
  simp [exec, Stmt.exec, h, Except.map]

/-- What cannot be computed stops the statements. -/
lemma Store.exec_cons_error {σ : Store} {v : Var} {e : Expr} {halt : Halt} (after : List Stmt)
    (h : e.eval σ = .error halt) : σ.exec (.assign v e :: after) = .error halt := by
  rw [exec, List.foldlM_cons, Stmt.exec, h]
  rfl

lemma Store.exec_append (σ : Store) (before after : List Stmt) :
    σ.exec (before ++ after) = (σ.exec before).bind (Store.exec · after) := by
  rw [exec, List.foldlM_append]
  rfl

/-! ### Forms -/

lemma Literal.eval_eq (l : Literal) : l.eval = .ofValue l.value := by
  cases l with
  | long v =>
    have hhi : SupportCode.word (Number.split v).1.toInt = v.toBitVec.extractLsb' 32 32 := by
      rw [Number.split]
      refine (SupportCode.word_toInt _).trans ?_
      have hshift : (v >>> 32).toBitVec = v.toBitVec.sshiftRight 32 := rfl
      rw [Int64.toBitVec_toInt32, hshift]
      apply BitVec.eq_of_getLsbD_eq
      grind
    have hlo : SupportCode.word ((Number.split v).2.toNat : Int) = v.toBitVec.extractLsb' 0 32 := by
      refine (SupportCode.word_toNat _).trans ?_
      apply BitVec.eq_of_getLsbD_eq
      intro i hi
      simp [Number.split]
    rw [eval, SupportCode.long_eq, hhi, hlo, SupportCode.append_high_low]
    rfl
  | _ => rfl

lemma Datum.read_ofValue (v : Machine.Value) : (ofValue v).read v.kind = some v := by
  cases v with
  | int v =>
    have := SupportCode.toInt_bounds v.toBitVec
    have := Int32.ofInt_toInt v
    simp_all [ofValue, Machine.Value.kind, read]
  | long v =>
    have h1 := SupportCode.toInt_bounds (v.toBitVec.extractLsb' 32 32)
    have h2 := SupportCode.toInt_eq_high_low v.toBitVec
    have h3 := (v.toBitVec.extractLsb' 0 32).isLt
    have h4 : v.toBitVec.toInt = v.toInt := rfl
    rw [ofValue, Machine.Value.kind, read, SupportCode.ofBits_hi, SupportCode.ofBits_lo]
    rw [if_pos (by omega), ← h2, h4, Int64.ofInt_toInt]
  | _ => rfl

lemma Datum.ofValue_ofInt32 {n : Int} (h : -2 ^ 31 ≤ n ∧ n < 2 ^ 31) :
    ofValue (.int (.ofInt n)) = number n := by
  rw [ofValue, Int32.toInt_ofInt_of_le h.1 h.2]

lemma Datum.ofValue_ofInt64 {v : Long} (hhi : -2 ^ 31 ≤ v.hi ∧ v.hi < 2 ^ 31)
    (hlo : 0 ≤ v.lo ∧ v.lo < 2 ^ 32) :
    ofValue (.long (.ofInt (v.hi * 2 ^ 32 + v.lo))) = long v := by
  have hsum : (BitVec.ofInt 64 (v.hi * 2 ^ 32 + v.lo)).toInt = v.hi * 2 ^ 32 + v.lo := by
    rw [BitVec.toInt_ofInt]
    exact Int.bmod_eq_of_le_mul_two (by omega) (by omega)
  have hsplit := SupportCode.toInt_eq_high_low (BitVec.ofInt 64 (v.hi * 2 ^ 32 + v.lo))
  have h1 := SupportCode.toInt_bounds ((BitVec.ofInt 64 (v.hi * 2 ^ 32 + v.lo)).extractLsb' 32 32)
  have h2 := ((BitVec.ofInt 64 (v.hi * 2 ^ 32 + v.lo)).extractLsb' 0 32).isLt
  rw [ofValue, Int64.toBitVec_ofInt, SupportCode.ofBits]
  congr 1
  apply Long.ext <;> dsimp only <;> omega

/-- A datum is read as the value that it is the form of. -/
lemma Datum.read_eq_some {k : Kind} {d : Datum} {v : Machine.Value} :
    d.read k = some v ↔ v.kind = k ∧ d = .ofValue v := by
  constructor
  · intro h
    unfold read at h
    split at h
    · split_ifs at h with hn
      cases h
      exact ⟨rfl, (ofValue_ofInt32 hn).symm⟩
    · split_ifs at h with hn
      cases h
      exact ⟨rfl, (ofValue_ofInt64 hn.1 hn.2).symm⟩
    all_goals cases h
    all_goals exact ⟨rfl, rfl⟩
  · rintro ⟨rfl, rfl⟩
    exact read_ofValue v

end ClassScript
