import ClassScript.Proofs.Evaluation
import ClassScript.Proofs.Frames

/-!
The code for an operation computes what the machine computes.

An operand is a variable or a literal. Where all operands are literals the result is one
too; otherwise a statement computes it. Either way it is the machine's result, and only a
quotient by zero has none: the code for it calls the support code, which throws.
-/

namespace ClassScript

open SupportCode (Result)
open Datum (ofValue)

def Atom.Denotes (σ : Store) (v : Machine.Value) : Atom → Prop
  | var x => σ x.name = ofValue v
  | lit l => l.value = v

namespace Atom.Denotes

variable {σ : Store} {a : Atom}

lemma eval_eq {v : Machine.Value} (h : a.Denotes σ v) : a.eval σ = ofValue v := by
  cases a with
  | var x => exact h
  | lit l => rw [Atom.eval, Literal.eval_eq, show l.value = v from h]

lemma int? {x : Int32} (h : a.Denotes σ (.int x)) : a.int? = none ∨ a.int? = some x := by
  cases a with
  | var v => exact .inl rfl
  | lit l =>
    cases l with
    | int v => cases h; exact .inr rfl
    | _ => exact .inl rfl

lemma long? {x : Int64} (h : a.Denotes σ (.long x)) : a.long? = none ∨ a.long? = some x := by
  cases a with
  | var v => exact .inl rfl
  | lit l =>
    cases l with
    | long v => cases h; exact .inr rfl
    | _ => exact .inl rfl

end Atom.Denotes

/-! ### Expressions -/

def Machine.Computed.form : Machine.Computed → Result Datum
  | value v => .ok (ofValue v)
  | divisionByZero => .error .divisionByZero

/-- An int is written as the number that its word spells. -/
lemma ofValue_int {n : Int} {w : BitVec 32} (h : BitVec.ofInt 32 n = w) :
    ofValue (.int (.ofInt n)) = .number w.toInt := by
  rw [← h]; rfl

lemma ofValue_long {n : Int} {w : BitVec 64} (h : BitVec.ofInt 64 n = w) :
    ofValue (.long (.ofInt n)) = .long (SupportCode.ofBits w) := by
  rw [← h]; rfl

/-- The support code's arithmetic on ints. -/
lemma arith32_form (op : ArithOp) (x y : BitVec 32) :
    Datum.number <$> SupportCode.arith32 op x.toInt y.toInt =
      (Machine.Computed.ofQuotient (fun n => .int (.ofInt n))
        (Machine.arith op x.toInt y.toInt)).form := by
  have hzero : y.toInt = 0 ↔ y = 0#32 := by rw [← BitVec.toInt_inj, BitVec.toInt_zero]
  cases op with
  | add =>
    have h : BitVec.ofInt 32 (x.toInt + y.toInt) = x + y := by simp [BitVec.ofInt_add]
    rw [SupportCode.arith32, SupportCode.add32_eq]
    exact congrArg Except.ok (ofValue_int h).symm
  | sub =>
    rw [SupportCode.arith32, SupportCode.sub32_eq]
    exact congrArg Except.ok (ofValue_int (Machine.ofInt_sub_toInt x y)).symm
  | mul =>
    have h : BitVec.ofInt 32 (x.toInt * y.toInt) = x * y := by simp [BitVec.ofInt_mul]
    simp only [SupportCode.arith32, SupportCode.mul32_eq]
    exact congrArg Except.ok (ofValue_int h).symm
  | div =>
    rw [SupportCode.arith32, Machine.arith]
    split_ifs with hy
    · rw [hy]; rfl
    · rw [SupportCode.div32_eq _ _ (mt hzero.mpr hy)]
      exact congrArg Except.ok (ofValue_int (Machine.ofInt_tdiv x y)).symm
  | rem =>
    rw [SupportCode.arith32, Machine.arith]
    split_ifs with hy
    · rw [hy]; rfl
    · rw [SupportCode.mod32_eq _ _ (mt hzero.mpr hy)]
      exact congrArg Except.ok (ofValue_int (Machine.ofInt_tmod x y)).symm

/-- The support code's arithmetic on longs. -/
lemma arith64_form (op : ArithOp) (x y : BitVec 64) :
    Datum.long <$> SupportCode.arith64 op (SupportCode.ofBits x) (SupportCode.ofBits y) =
      (Machine.Computed.ofQuotient (fun n => .long (.ofInt n))
        (Machine.arith op x.toInt y.toInt)).form := by
  have hzero : y.toInt = 0 ↔ y = 0#64 := by rw [← BitVec.toInt_inj, BitVec.toInt_zero]
  cases op with
  | add =>
    have h : BitVec.ofInt 64 (x.toInt + y.toInt) = x + y := by simp [BitVec.ofInt_add]
    rw [SupportCode.arith64, SupportCode.add64_eq]
    exact congrArg Except.ok (ofValue_long h).symm
  | sub =>
    rw [SupportCode.arith64, SupportCode.sub64_eq]
    exact congrArg Except.ok (ofValue_long (Machine.ofInt_sub_toInt x y)).symm
  | mul =>
    have h : BitVec.ofInt 64 (x.toInt * y.toInt) = x * y := by simp [BitVec.ofInt_mul]
    rw [SupportCode.arith64, SupportCode.mul64_eq]
    exact congrArg Except.ok (ofValue_long h).symm
  | div =>
    rw [SupportCode.arith64, Machine.arith]
    split_ifs with hy
    · rw [hzero.mp hy, SupportCode.div64_zero]; rfl
    · rw [SupportCode.div64_eq _ _ (mt hzero.mpr hy)]
      exact congrArg Except.ok (ofValue_long (Machine.ofInt_tdiv x y)).symm
  | rem =>
    rw [SupportCode.arith64, Machine.arith]
    split_ifs with hy
    · rw [hzero.mp hy, SupportCode.mod64_zero]; rfl
    · rw [SupportCode.mod64_eq _ _ (mt hzero.mpr hy)]
      exact congrArg Except.ok (ofValue_long (Machine.ofInt_tmod x y)).symm

lemma sign_bounds (n : Int) : -2 ^ 31 ≤ n.sign ∧ n.sign < 2 ^ 31 := by
  rcases n.sign_trichotomy with h | h | h <;> omega

section Expressions

variable {σ : Store} {a b : Atom}

lemma eval_call {h : Helper} {x : Machine.Value} (ha : a.Denotes σ x) :
    (Expr.helper h [a]).eval σ = h.eval [ofValue x] := by
  rw [← ha.eval_eq]
  rfl

lemma eval_call_two {h : Helper} {x y : Machine.Value} (ha : a.Denotes σ x) (hb : b.Denotes σ y) :
    (Expr.helper h [a, b]).eval σ = h.eval [ofValue x, ofValue y] := by
  rw [← ha.eval_eq, ← hb.eval_eq]
  rfl

lemma eval_operator {op : BinaryOp} {x y : Int32} (ha : a.Denotes σ (.int x))
    (hb : b.Denotes σ (.int y)) :
    (Expr.binary op a b).eval σ = .number <$> op.eval x.toInt y.toInt := by
  rw [Expr.eval, ha.eval_eq, hb.eval_eq]
  rfl

/-- The number that an operator gives, brought back to an int. -/
lemma eval_wrap {e : Expr} {n : Int} (he : e.eval σ = .ok (.number n)) :
    (Expr.wrap e).eval σ = .ok (.number (SupportCode.word n).toInt) := by
  rw [Expr.eval, he, ← SupportCode.bitOr_zero]

lemma eval_arith32 (op : ArithOp) {x y : Int32} (ha : a.Denotes σ (.int x))
    (hb : b.Denotes σ (.int y)) :
    (Expr.helper (.arith32 op) [a, b]).eval σ =
      (Machine.Computed.ofQuotient (fun n => .int (.ofInt n))
        (Machine.arith op x.toInt y.toInt)).form :=
  (eval_call_two ha hb).trans (arith32_form op x.toBitVec y.toBitVec)

lemma eval_arith64 (op : ArithOp) {x y : Int64} (ha : a.Denotes σ (.long x))
    (hb : b.Denotes σ (.long y)) :
    (Expr.helper (.arith64 op) [a, b]).eval σ =
      (Machine.Computed.ofQuotient (fun n => .long (.ofInt n))
        (Machine.arith op x.toInt y.toInt)).form :=
  (eval_call_two ha hb).trans (arith64_form op x.toBitVec y.toBitVec)

/-- The operators of shifts on ints; an unsigned one has to be brought back to an int. -/
lemma eval_shift32 {op : ShiftOp} {x y : Int32} (ha : a.Denotes σ (.int x))
    (hb : b.Denotes σ (.int y)) :
    (if op = .ushr then Expr.wrap (.binary (.shift op) a b) else .binary (.shift op) a b).eval σ =
      .ok (ofValue (.int (.ofInt (Machine.shift 32 op x.toInt y.toInt)))) := by
  have hx : SupportCode.word x.toInt = x.toBitVec := SupportCode.word_toInt _
  have hy : SupportCode.distance y.toInt = y.toBitVec.toNat % 32 :=
    congrArg (BitVec.toNat · % 32) (SupportCode.word_toInt y.toBitVec)
  have hform := ofValue_int (Machine.ofInt_shift op x.toBitVec y.toBitVec (by decide))
  refine Eq.trans ?_ (congrArg Except.ok hform).symm
  cases op
  · rw [if_neg (by decide), eval_operator ha hb]
    change Except.ok (Datum.number (SupportCode.shl x.toInt y.toInt)) = _
    rw [SupportCode.shl, hx, hy]
    rfl
  · rw [if_neg (by decide), eval_operator ha hb]
    change Except.ok (Datum.number (SupportCode.sar x.toInt y.toInt)) = _
    rw [SupportCode.sar, hx, hy]
    rfl
  · have hshr : SupportCode.shr x.toInt y.toInt =
        ((x.toBitVec >>> (y.toBitVec.toNat % 32)).toNat : Int) := by
      rw [SupportCode.shr, hx, hy]
    rw [if_pos rfl, eval_wrap ((eval_operator ha hb).trans rfl), hshr, SupportCode.word_toNat]
    rfl

lemma eval_shift64 {op : ShiftOp} {x : Int64} {y : Int32} (ha : a.Denotes σ (.long x))
    (hb : b.Denotes σ (.int y)) :
    (Expr.helper (.shift64 op) [a, b]).eval σ =
      .ok (ofValue (.long (.ofInt (Machine.shift 64 op x.toInt y.toInt)))) := by
  have hy : SupportCode.word y.toInt = y.toBitVec := SupportCode.word_toInt _
  have hform := ofValue_long (Machine.ofInt_shift op x.toBitVec y.toBitVec (by decide))
  refine (eval_call_two ha hb).trans (Eq.trans ?_ (congrArg Except.ok hform).symm)
  change Except.ok (Datum.long (SupportCode.shift64 op (SupportCode.ofBits x.toBitVec) y.toInt)) = _
  cases op
  · rw [SupportCode.shift64, SupportCode.shl64_eq, hy]
    rfl
  · rw [SupportCode.shift64, SupportCode.shr64_eq, hy]
    rfl
  · rw [SupportCode.shift64, SupportCode.ushr64_eq, hy]
    rfl

lemma eval_logic32 {op : LogicOp} {x y : Int32} (ha : a.Denotes σ (.int x))
    (hb : b.Denotes σ (.int y)) :
    (Expr.binary (.logic op) a b).eval σ =
      .ok (ofValue (.int ⟨⟨Machine.logic op x.toBitVec y.toBitVec⟩⟩)) := by
  have hx : SupportCode.word x.toInt = x.toBitVec := SupportCode.word_toInt _
  have hy : SupportCode.word y.toInt = y.toBitVec := SupportCode.word_toInt _
  rw [eval_operator ha hb]
  cases op
  · change Except.ok (Datum.number (SupportCode.bitAnd x.toInt y.toInt)) = _
    rw [SupportCode.bitAnd, hx, hy]
    rfl
  · change Except.ok (Datum.number (SupportCode.bitOr x.toInt y.toInt)) = _
    rw [SupportCode.bitOr, hx, hy]
    rfl
  · change Except.ok (Datum.number (SupportCode.bitXor x.toInt y.toInt)) = _
    rw [SupportCode.bitXor, hx, hy]
    rfl

lemma eval_logic64 {op : LogicOp} {x y : Int64} (ha : a.Denotes σ (.long x))
    (hb : b.Denotes σ (.long y)) :
    (Expr.helper (.logic64 op) [a, b]).eval σ =
      .ok (ofValue (.long ⟨⟨Machine.logic op x.toBitVec y.toBitVec⟩⟩)) := by
  rw [eval_call_two ha hb]
  change Except.ok (Datum.long (SupportCode.logic64 op (SupportCode.ofBits x.toBitVec)
    (SupportCode.ofBits y.toBitVec))) = _
  cases op
  · rw [SupportCode.logic64, SupportCode.and64_eq]
    rfl
  · rw [SupportCode.logic64, SupportCode.or64_eq]
    rfl
  · rw [SupportCode.logic64, SupportCode.xor64_eq]
    rfl

lemma eval_compare64 {x y : Int64} (ha : a.Denotes σ (.long x)) (hb : b.Denotes σ (.long y)) :
    (Expr.helper .compare64 [a, b]).eval σ =
      .ok (ofValue (.int (.ofInt (x.toInt - y.toInt).sign))) := by
  rw [eval_call_two ha hb, Datum.ofValue_ofInt32 (sign_bounds _)]
  exact congrArg (Except.ok ∘ Datum.number) (SupportCode.compare64_eq x.toBitVec y.toBitVec)

lemma eval_neg32 {x : Int32} (ha : a.Denotes σ (.int x)) :
    (Expr.helper .neg32 [a]).eval σ = .ok (ofValue (.int (.ofInt (-x.toInt)))) := by
  have h : BitVec.ofInt 32 (-x.toInt) = -x.toBitVec :=
    BitVec.ofInt_neg.trans (congrArg Neg.neg BitVec.ofInt_toInt)
  rw [eval_call ha, ofValue_int h]
  exact congrArg (Except.ok ∘ Datum.number) (SupportCode.neg32_eq x.toBitVec)

lemma eval_neg64 {x : Int64} (ha : a.Denotes σ (.long x)) :
    (Expr.helper .neg64 [a]).eval σ = .ok (ofValue (.long (.ofInt (-x.toInt)))) := by
  have h : BitVec.ofInt 64 (-x.toInt) = -x.toBitVec :=
    BitVec.ofInt_neg.trans (congrArg Neg.neg BitVec.ofInt_toInt)
  rw [eval_call ha, ofValue_long h]
  exact congrArg (Datum.long <$> ·) (SupportCode.neg64_eq x.toBitVec)

lemma eval_add_wrap {x : Int32} {y : Int32} (ha : a.Denotes σ (.int x))
    (hb : b.Denotes σ (.int y)) :
    (Expr.wrap (.binary (.arith .add) a b)).eval σ =
      .ok (ofValue (.int (.ofInt (x.toInt + y.toInt)))) := by
  have hx := SupportCode.toInt_bounds x.toBitVec
  have hy := SupportCode.toInt_bounds y.toBitVec
  have hx' : x.toBitVec.toInt = x.toInt := rfl
  have hy' : y.toBitVec.toInt = y.toInt := rfl
  have hsum : SupportCode.exact (x.toInt + y.toInt) = .ok (x.toInt + y.toInt) :=
    SupportCode.exact_ok (by rw [← hx', ← hy']; omega)
  refine eval_wrap ?_
  rw [eval_operator ha hb]
  exact congrArg (Datum.number <$> ·) hsum

/-- The conversions among ints and longs. -/
lemma eval_convert {c : Conversion} {v w : Machine.Value} (ha : a.Denotes σ v)
    (h : Machine.convert c v = some w) : (Lower.convertExpr c a).eval σ = .ok (ofValue w) := by
  unfold Machine.convert at h
  split at h <;> cases h <;> rename_i x
  · have hform := ofValue_long (Machine.ofInt_toInt_signExtend x.toBitVec)
    refine (eval_call ha).trans (Eq.trans ?_ (congrArg Except.ok hform).symm)
    exact congrArg (Except.ok ∘ Datum.long) (SupportCode.i2l_eq x.toBitVec)
  · have hform := ofValue_int (Machine.ofInt_toInt_setWidth x.toBitVec)
    refine (eval_call ha).trans (Eq.trans ?_ (congrArg Except.ok hform).symm)
    exact congrArg (Except.ok ∘ Datum.number) (SupportCode.l2i_eq x.toBitVec)
  · rw [ofValue, Machine.toInt_ofInt_bmod _ (by omega)]
    exact (eval_call ha).trans
      (congrArg (Except.ok ∘ Datum.number) (SupportCode.toInt8_eq x.toBitVec))
  · rw [ofValue, Int32.toInt_ofInt_of_le (by omega) (by omega)]
    exact (eval_call ha).trans
      (congrArg (Except.ok ∘ Datum.number) (SupportCode.toChar_eq x.toBitVec))
  · rw [ofValue, Machine.toInt_ofInt_bmod _ (by omega)]
    exact (eval_call ha).trans
      (congrArg (Except.ok ∘ Datum.number) (SupportCode.toInt16_eq x.toBitVec))

end Expressions

/-! ### Code -/

/-- Code that pushes a value: as a pending constant, or computed into its variable. -/
inductive Lower.Yields (σ : Store) (v : Machine.Value) : Lower Unit → Prop
  | const (l : Literal) : l.value = v → Yields σ v (pushConst l)
  | computed (e : Expr) : e.eval σ = .ok (ofValue v) → Yields σ v (assign v.kind e)

namespace Lower

variable {σ : Store} {a b : Atom} {v w r : Machine.Value}

/-- Two operands that are both constants, or not. -/
lemma both_int {x y : Int32} (ha : a.Denotes σ (.int x)) (hb : b.Denotes σ (.int y)) :
    both a.int? b.int? = none ∨ both a.int? b.int? = some (x, y) := by
  rcases ha.int? with ha | ha <;> rcases hb.int? with hb | hb <;> simp [both, ha, hb]

lemma both_long {x y : Int64} (ha : a.Denotes σ (.long x)) (hb : b.Denotes σ (.long y)) :
    both a.long? b.long? = none ∨ both a.long? b.long? = some (x, y) := by
  rcases ha.long? with ha | ha <;> rcases hb.long? with hb | hb <;> simp [both, ha, hb]

lemma both_long_int {x : Int64} {y : Int32} (ha : a.Denotes σ (.long x))
    (hb : b.Denotes σ (.int y)) :
    both a.long? b.int? = none ∨ both a.long? b.int? = some (x, y) := by
  rcases ha.long? with ha | ha <;> rcases hb.int? with hb | hb <;> simp [both, ha, hb]

/-- Arithmetic is folded only where it has a result, which is then the machine's. -/
lemma arith_int (op : ArithOp) {x y : Int32} (ha : a.Denotes σ (.int x))
    (hb : b.Denotes σ (.int y)) :
    arith op .int a b = assign .int (.helper (.arith32 op) [a, b]) ∨
      ∃ n, Machine.arith op x.toInt y.toInt = some n ∧
        arith op .int a b = pushConst (.int (.ofInt n)) := by
  rcases both_int ha hb with hboth | hboth
  · exact .inl (by simp only [arith, hboth, Option.bind_none])
  · simp only [arith, hboth, Option.bind_some, Machine.arith32_eq]
    cases Machine.arith op x.toInt y.toInt with
    | none => exact .inl rfl
    | some n => exact .inr ⟨n, rfl, rfl⟩

lemma arith_long (op : ArithOp) {x y : Int64} (ha : a.Denotes σ (.long x))
    (hb : b.Denotes σ (.long y)) :
    arith op .long a b = assign .long (.helper (.arith64 op) [a, b]) ∨
      ∃ n, Machine.arith op x.toInt y.toInt = some n ∧
        arith op .long a b = pushConst (.long (.ofInt n)) := by
  rcases both_long ha hb with hboth | hboth
  · exact .inl (by simp only [arith, hboth, Option.bind_none])
  · simp only [arith, hboth, Option.bind_some, Machine.arith64_eq]
    cases Machine.arith op x.toInt y.toInt with
    | none => exact .inl rfl
    | some n => exact .inr ⟨n, rfl, rfl⟩

lemma arith_yields {op : ArithOp} {k : Kind} (ha : a.Denotes σ v) (hb : b.Denotes σ w)
    (h : Machine.calculate op k v w = some (.value r)) : Yields σ r (arith op k a b) := by
  unfold Machine.calculate at h
  split at h
  · have heval := eval_arith32 op ha hb
    rw [Option.some.inj h] at heval
    -- either the helper is called when the code runs, or the result is known before
    rcases arith_int op ha hb with hcode | ⟨n, hn, hcode⟩
    · rw [hcode, show Kind.int = r.kind from Machine.kind_of_quotient (fun _ => rfl)
        (Option.some.inj h)]
      exact .computed _ heval
    · rw [hn] at h
      cases h
      rw [hcode]
      exact .const _ rfl
  · have heval := eval_arith64 op ha hb
    rw [Option.some.inj h] at heval
    rcases arith_long op ha hb with hcode | ⟨n, hn, hcode⟩
    · rw [hcode, show Kind.long = r.kind from Machine.kind_of_quotient (fun _ => rfl)
        (Option.some.inj h)]
      exact .computed _ heval
    · rw [hn] at h
      cases h
      rw [hcode]
      exact .const _ rfl
  · cases h

def calculator (op : ArithOp) (k : Kind) : Helper := if k = .int then .arith32 op else .arith64 op

/-- **A quotient by zero** is not folded: its code calls the support code with the divisor
zero, and the call throws. -/
lemma arith_throws {op : ArithOp} {k : Kind} (ha : a.Denotes σ v) (hb : b.Denotes σ w)
    (h : Machine.calculate op k v w = some .divisionByZero) :
    arith op k a b = assign k (.helper (calculator op k) [a, b]) ∧
      (op = .div ∨ op = .rem) ∧ (w = .int 0 ∨ w = .long 0) ∧
      (Expr.helper (calculator op k) [a, b]).eval σ = .error .divisionByZero := by
  unfold Machine.calculate at h
  split at h
  · have heval := eval_arith32 op ha hb
    rw [Option.some.inj h] at heval
    obtain ⟨hop, hzero⟩ := Machine.arith_eq_none (Machine.quotient_eq_none (Option.some.inj h))
    refine ⟨?_, hop, .inl (congrArg _ (Int32.toInt_inj.mp hzero)), heval⟩
    -- a quotient by zero is never folded, so it is the helper that is called
    rcases arith_int op ha hb with hcode | ⟨n, hn, -⟩
    · exact hcode
    · rw [hn] at h
      cases h
  · have heval := eval_arith64 op ha hb
    rw [Option.some.inj h] at heval
    obtain ⟨hop, hzero⟩ := Machine.arith_eq_none (Machine.quotient_eq_none (Option.some.inj h))
    refine ⟨?_, hop, .inr (congrArg _ (Int64.toInt_inj.mp hzero)), heval⟩
    rcases arith_long op ha hb with hcode | ⟨n, hn, -⟩
    · exact hcode
    · rw [hn] at h
      cases h
  · cases h

lemma shift_yields {op : ShiftOp} {k : Kind} (ha : a.Denotes σ v) (hb : b.Denotes σ w)
    (h : Machine.displace op k v w = some r) : Yields σ r (shift op k a b) := by
  unfold Machine.displace at h
  split at h
  · cases h
    rw [shift]
    rcases both_int ha hb with hboth | hboth
    · rw [hboth]
      exact .computed _ (eval_shift32 ha hb)
    · rw [hboth]
      exact .const _ (by rw [Machine.shift32_eq]; rfl)
  · cases h
    rw [shift]
    rcases both_long_int ha hb with hboth | hboth
    · rw [hboth]
      exact .computed _ (eval_shift64 ha hb)
    · rw [hboth]
      exact .const _ (by rw [Machine.shift64_eq]; rfl)
  · cases h

lemma logic_yields {op : LogicOp} {k : Kind} (ha : a.Denotes σ v) (hb : b.Denotes σ w)
    (h : Machine.combine op k v w = some r) : Yields σ r (logic op k a b) := by
  unfold Machine.combine at h
  split at h
  · cases h
    rw [logic]
    rcases both_int ha hb with hboth | hboth
    · rw [hboth]
      exact .computed _ (eval_logic32 ha hb)
    · rw [hboth]
      exact .const _ (by rw [Machine.logic32_eq]; rfl)
  · cases h
    rw [logic]
    rcases both_long ha hb with hboth | hboth
    · rw [hboth]
      exact .computed _ (eval_logic64 ha hb)
    · rw [hboth]
      exact .const _ (by rw [Machine.logic64_eq]; rfl)
  · cases h

lemma neg_yields {k : Kind} (ha : a.Denotes σ v) (h : Machine.negate k v = some r) :
    Yields σ r (neg k a) := by
  unfold Machine.negate at h
  split at h
  · rename_i x
    cases h
    rw [neg]
    rcases ha.int? with hint | hint
    · rw [hint]
      exact .computed _ (eval_neg32 ha)
    · rw [hint]
      exact .const _ (by rw [Int32.ofInt_neg, Int32.ofInt_toInt]; rfl)
  · rename_i x
    cases h
    rw [neg]
    rcases ha.long? with hlong | hlong
    · rw [hlong]
      exact .computed _ (eval_neg64 ha)
    · rw [hlong]
      exact .const _ (by rw [Int64.ofInt_neg, Int64.ofInt_toInt]; rfl)
  · cases h

/-- A constant is converted as the machine converts it. -/
lemma convertConst_eq {c : Conversion} (ha : a.Denotes σ v) (h : Machine.convert c v = some r) :
    convertConst? c a = none ∨ ∃ x, convertConst? c a = some x ∧ (converted x).value = r := by
  unfold Machine.convert at h
  split at h <;> cases h
  -- an operand that is no literal is converted when the code runs
  · rcases ha.int? with hint | hint
    · exact .inl (by simp [convertConst?, Conversion.source, hint])
    · refine .inr ⟨_, by simp [convertConst?, Conversion.source, hint, Arith.convertInt]; rfl, ?_⟩
      exact congrArg Machine.Value.long (Int64.ofInt_int32ToInt _).symm
  · rcases ha.long? with hlong | hlong
    · exact .inl (by simp [convertConst?, Conversion.source, hlong])
    · refine .inr ⟨_, by simp [convertConst?, Conversion.source, hlong, Arith.convertLong]; rfl, ?_⟩
      exact congrArg Machine.Value.int (Int32.ofInt_int64ToInt _).symm
  · rcases ha.int? with hint | hint
    · exact .inl (by simp [convertConst?, Conversion.source, hint])
    · refine .inr ⟨_, by simp [convertConst?, Conversion.source, hint, Arith.convertInt]; rfl, ?_⟩
      exact congrArg Machine.Value.int (Machine.toInt8_toInt32_eq _)
  · rcases ha.int? with hint | hint
    · exact .inl (by simp [convertConst?, Conversion.source, hint])
    · refine .inr ⟨_, by simp [convertConst?, Conversion.source, hint, Arith.convertInt]; rfl, ?_⟩
      exact congrArg Machine.Value.int (Machine.toUInt16_toInt32_eq _)
  · rcases ha.int? with hint | hint
    · exact .inl (by simp [convertConst?, Conversion.source, hint])
    · refine .inr ⟨_, by simp [convertConst?, Conversion.source, hint, Arith.convertInt]; rfl, ?_⟩
      exact congrArg Machine.Value.int (Machine.toInt16_toInt32_eq _)

lemma convert_yields {c : Conversion} (ha : a.Denotes σ v) (h : Machine.convert c v = some r) :
    Yields σ r (convert c a) := by
  rw [convert]
  rcases convertConst_eq ha h with hc | ⟨x, hc, hx⟩
  · rw [hc, ← Machine.kind_of_convert h]
    exact .computed _ (eval_convert ha h)
  · rw [hc]
    exact .const _ hx

lemma compareLongs_yields (ha : a.Denotes σ v) (hb : b.Denotes σ w)
    (h : Machine.compare v w = some r) : Yields σ r (compareLongs a b) := by
  unfold Machine.compare at h
  split at h
  · cases h
    rw [compareLongs]
    rcases both_long ha hb with hboth | hboth
    · rw [hboth]
      exact .computed _ (eval_compare64 ha hb)
    · rw [hboth]
      exact .const _ (by rw [Machine.compare64_eq]; rfl)
  · cases h

end Lower

end ClassScript
