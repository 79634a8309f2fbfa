import ClassScript.Proofs.Folding
import ClassScript.Script.Number
import Mathlib.Algebra.Order.Ring.Int

/-!
Constants are folded exactly.

A word stands for a number of the signed range of its width. What is folded is computed on these
numbers without a bound and then brought back into the range, modulo two to the width. Both
widths follow from one argument on words that stand for their numbers.
-/

namespace ClassScript

/-! ### What is exact -/

/-- `q` and `r` are the quotient and the remainder of `a` by `b` in words of `w` bits, where the
quotient is cut toward zero. -/
structure Truncates (w : Nat) (a b q r : Int) : Prop where
  quotient : q = (a.tdiv b).bmod (2 ^ w)
  remainder : r = a.tmod b
  whole : a = (q * b + r).bmod (2 ^ w)
  sign : r = 0 ∨ r.sign = a.sign
  small : |r| < |b|

/-- Arithmetic on words of `w` bits that stand for numbers. -/
structure ExactArith (w : Nat) {α : Type} (value : α → Int) (fold : ArithOp → α → α → Option α) :
    Prop where
  add : ∀ a b, (fold .add a b).map value = some ((value a + value b).bmod (2 ^ w))
  sub : ∀ a b, (fold .sub a b).map value = some ((value a - value b).bmod (2 ^ w))
  mul : ∀ a b, (fold .mul a b).map value = some ((value a * value b).bmod (2 ^ w))
  div_none : ∀ a b, fold .div a b = none ↔ value b = 0
  rem_none : ∀ a b, fold .rem a b = none ↔ value b = 0
  divides : ∀ a b, value b ≠ 0 → ∃ q r, fold .div a b = some q ∧ fold .rem a b = some r ∧
    Truncates w (value a) (value b) (value q) (value r)
  /-- The one quotient that leaves the range: the least number by minus one. -/
  least : ∀ a b, value a = -2 ^ (w - 1) → value b = -1 →
    fold .div a b = some a ∧ (fold .rem a b).map value = some 0

def distance (w : Nat) (b : Int32) : Nat := (b.toInt % w).toNat

/-- Shifts of words of `w` bits: products and floored quotients by powers of two. The unsigned
shift divides the number that the same bits stand for without a sign. -/
structure ExactShift (w : Nat) {α : Type} (value : α → Int) (fold : ShiftOp → α → Int32 → α) :
    Prop where
  shl : ∀ a b, value (fold .shl a b) = (value a * 2 ^ distance w b).bmod (2 ^ w)
  shr : ∀ a b, value (fold .shr a b) = (value a).fdiv (2 ^ distance w b)
  ushr : ∀ a b, value (fold .ushr a b) =
    ((value a % 2 ^ w).fdiv (2 ^ distance w b)).bmod (2 ^ w)

def LogicOp.onBits : LogicOp → Bool → Bool → Bool
  | .and, x, y => x && y
  | .or, x, y => x || y
  | .xor, x, y => x ^^ y

/-- Conversions between words: to a wider word the number stays, to a narrower one it is brought
into its range. -/
structure ExactConversions : Prop where
  i2l : ∀ v, ∃ r, Arith.convertInt .i2l v = some (.long r) ∧ r.toInt = v.toInt
  l2i : ∀ v, ∃ r, Arith.convertLong .l2i v = some (.int r) ∧ r.toInt = v.toInt.bmod (2 ^ 32)
  i2b : ∀ v, ∃ r, Arith.convertInt .i2b v = some (.int r) ∧ r.toInt = v.toInt.bmod (2 ^ 8)
  i2c : ∀ v, ∃ r, Arith.convertInt .i2c v = some (.int r) ∧ r.toInt = v.toInt % 2 ^ 16
  i2s : ∀ v, ∃ r, Arith.convertInt .i2s v = some (.int r) ∧ r.toInt = v.toInt.bmod (2 ^ 16)

/-! ### Quotients and remainders -/

/-- A remainder lies between zero and the number divided. -/
lemma tmod_between (a b : Int) : 0 ≤ a ∧ 0 ≤ a.tmod b ∧ a.tmod b ≤ a ∨
    a ≤ 0 ∧ a ≤ a.tmod b ∧ a.tmod b ≤ 0 := by
  have habs : (a.tmod b).natAbs ≤ a.natAbs := by
    rw [Int.natAbs_tmod]
    exact Nat.mod_le _ _
  rcases Int.le_total 0 a with ha | ha
  · have hpos := Int.tmod_nonneg b ha
    left
    omega
  · have hneg : 0 ≤ (-a).tmod b := Int.tmod_nonneg b (by omega)
    rw [Int.neg_tmod] at hneg
    right
    omega

/-- A floored quotient by a positive number lies between zero and the number divided. -/
lemma ediv_between (a : Int) {c : Int} (hc : 0 < c) :
    0 ≤ a / c ∧ a / c ≤ a ∨ a ≤ a / c ∧ a / c ≤ 0 := by
  rcases Int.le_total 0 a with ha | ha
  · exact .inl ⟨Int.ediv_nonneg ha hc.le, Int.ediv_le_self c ha⟩
  · have hmul : a * c ≤ a := by nlinarith
    exact .inr ⟨Int.le_ediv_of_mul_le hc hmul, Int.ediv_nonpos_of_nonpos_of_neg ha hc⟩

/-- Half of the range is brought back to its least number. -/
lemma bmod_half {w : Nat} (hw : 0 < w) : (2 ^ (w - 1) : Int).bmod (2 ^ w) = -2 ^ (w - 1) := by
  obtain ⟨k, rfl⟩ : ∃ k, w = k + 1 := ⟨w - 1, by omega⟩
  have hpos : (0 : Int) < 2 ^ k := by positivity
  have hwhole : ((2 ^ (k + 1) : Nat) : Int) = 2 * 2 ^ k := by
    push_cast
    ring
  have hsum : (2 ^ k : Int) = -2 ^ k + ((2 ^ (k + 1) : Nat) : Int) := by omega
  rw [Nat.add_sub_cancel]
  calc (2 ^ k : Int).bmod (2 ^ (k + 1))
      = (-2 ^ k + ((2 ^ (k + 1) : Nat) : Int)).bmod (2 ^ (k + 1)) := by rw [← hsum]
    _ = (-2 ^ k : Int).bmod (2 ^ (k + 1)) := Int.add_bmod_right _ _
    _ = -2 ^ k := Int.bmod_eq_of_le_mul_two (by omega) (by omega)

lemma truncates_of_range {w : Nat} {a b q r : Int} (hb : b ≠ 0) (hrange : a.bmod (2 ^ w) = a)
    (hq : q = (a.tdiv b).bmod (2 ^ w)) (hr : r = a.tmod b) : Truncates w a b q r where
  quotient := hq
  remainder := hr
  whole := by
    rw [hq, hr]
    calc a = a.bmod (2 ^ w) := hrange.symm
      _ = (a.tdiv b * b + a.tmod b).bmod (2 ^ w) := by rw [Int.tdiv_mul_add_tmod]
      _ = ((a.tdiv b * b).bmod (2 ^ w) + a.tmod b).bmod (2 ^ w) := Int.bmod_add_bmod.symm
      _ = (((a.tdiv b).bmod (2 ^ w) * b).bmod (2 ^ w) + a.tmod b).bmod (2 ^ w) := by
        rw [Int.bmod_mul_bmod]
      _ = ((a.tdiv b).bmod (2 ^ w) * b + a.tmod b).bmod (2 ^ w) := Int.bmod_add_bmod
  sign := by
    rw [hr, Int.sign_tmod]
    split_ifs with hdvd
    · exact .inl (Int.tmod_eq_zero_of_dvd hdvd)
    · exact .inr rfl
  small := by
    rw [hr, Int.abs_eq_natAbs, Int.abs_eq_natAbs, Int.natAbs_tmod]
    exact_mod_cast Nat.mod_lt _ (Int.natAbs_pos.mpr hb)

/-! ### Words that stand for numbers -/

/-- Words of `w` bits, one for each number of the signed range. -/
structure Signed (w : Nat) (α : Type) where
  value : α → Int
  ofInt : Int → α
  value_ofInt : ∀ n, value (ofInt n) = n.bmod (2 ^ w)
  ofInt_value : ∀ a, ofInt (value a) = a

namespace Signed

variable {w : Nat} {α : Type} (words : Signed w α)

lemma value_bmod (a : α) : (words.value a).bmod (2 ^ w) = words.value a := by
  rw [← words.value_ofInt, words.ofInt_value]

lemma value_range (a : α) : -2 ^ w ≤ words.value a * 2 ∧ words.value a * 2 < 2 ^ w := by
  have hpos : 0 < 2 ^ w := Nat.two_pow_pos w
  have hlow := Int.le_bmod (x := words.value a) hpos
  have hhigh := Int.bmod_lt (x := words.value a) hpos
  rw [words.value_bmod] at hlow hhigh
  push_cast at hlow hhigh
  omega

/-- A number between zero and that of a word is in the range. -/
lemma bmod_of_between {n : Int} (a : α)
    (h : 0 ≤ n ∧ n ≤ words.value a ∨ words.value a ≤ n ∧ n ≤ 0) :
    n.bmod (2 ^ w) = n := by
  obtain ⟨hlow, hhigh⟩ := words.value_range a
  have hpos : (0 : Int) < 2 ^ w := by positivity
  refine Int.bmod_eq_of_le_mul_two ?_ ?_
  · push_cast
    omega
  · push_cast
    omega

lemma exactArith {fold : ArithOp → α → α → Option α} (hw : 0 < w)
    (h : ∀ op a b, fold op a b = (Machine.arith op (words.value a) (words.value b)).map
      words.ofInt) :
    ExactArith w words.value fold where
  add a b := by simp [h, Machine.arith, words.value_ofInt]
  sub a b := by simp [h, Machine.arith, words.value_ofInt]
  mul a b := by simp [h, Machine.arith, words.value_ofInt]
  div_none a b := by simp [h, Machine.arith]
  rem_none a b := by simp [h, Machine.arith]
  divides a b hb := by
    have hrem : ((words.value a).tmod (words.value b)).bmod (2 ^ w) =
        (words.value a).tmod (words.value b) := by
      refine words.bmod_of_between a ?_
      rcases tmod_between (words.value a) (words.value b) with ⟨-, hr⟩ | ⟨-, hr⟩
      · exact .inl hr
      · exact .inr hr
    refine ⟨_, _, by rw [h, Machine.arith, if_neg hb, Option.map_some],
      by rw [h, Machine.arith, if_neg hb, Option.map_some], ?_⟩
    refine truncates_of_range hb (words.value_bmod a) (words.value_ofInt _) ?_
    rw [words.value_ofInt, hrem]
  least a b ha hb := by
    -- the exact quotient is half of the range, which is one too many
    have hne : words.value b ≠ 0 := by omega
    constructor
    · rw [h, Machine.arith, if_neg hne, hb, Int.tdiv_neg, Int.tdiv_one, Option.map_some,
        ha, Int.neg_neg]
      rw [← words.ofInt_value (words.ofInt _), words.value_ofInt, bmod_half hw, ← ha,
        words.ofInt_value]
    · rw [h, Machine.arith, if_neg hne, hb, Int.tmod_neg, Int.tmod_one, Option.map_some,
        Option.map_some, words.value_ofInt, Int.zero_bmod]

lemma exactShift {fold : ShiftOp → α → Int32 → α}
    (h : ∀ op a b, fold op a b = words.ofInt (Machine.shift w op (words.value a) b.toInt)) :
    ExactShift w words.value fold where
  shl a b := by rw [h, words.value_ofInt]; rfl
  shr a b := by
    have hpos : (0 : Int) < 2 ^ distance w b := by positivity
    rw [h, words.value_ofInt, Int.fdiv_eq_ediv_of_nonneg _ hpos.le]
    exact words.bmod_of_between a (ediv_between _ hpos)
  ushr a b := by
    have hpos : (0 : Int) < 2 ^ distance w b := by positivity
    rw [h, words.value_ofInt, Int.fdiv_eq_ediv_of_nonneg _ hpos.le]
    rfl

end Signed

def Signed.ints : Signed 32 Int32 where
  value := Int32.toInt
  ofInt := .ofInt
  value_ofInt _ := Int32.toInt_ofInt
  ofInt_value := Int32.ofInt_toInt

def Signed.longs : Signed 64 Int64 where
  value := Int64.toInt
  ofInt := .ofInt
  value_ofInt _ := Int64.toInt_ofInt
  ofInt_value := Int64.ofInt_toInt

/-! ### Bits, comparison, conversion and splitting -/

lemma getLsbD_logic {w : Nat} (op : LogicOp) (x y : BitVec w) (i : Nat) :
    (Machine.logic op x y).getLsbD i = op.onBits (x.getLsbD i) (y.getLsbD i) := by
  cases op with
  | and => exact BitVec.getLsbD_and
  | or => exact BitVec.getLsbD_or
  | xor => exact BitVec.getLsbD_xor

lemma exactConversions : ExactConversions where
  i2l v := ⟨_, rfl, v.toInt_toInt64⟩
  l2i v := ⟨_, rfl, v.toInt_toInt32⟩
  i2b v := ⟨_, rfl, by rw [Int8.toInt_toInt32, Int32.toInt_toInt8]⟩
  i2c v := ⟨_, rfl, by
    rw [Machine.toUInt16_toInt32_eq, Int32.toInt_ofInt]
    have hpos := Int.emod_nonneg v.toInt (show (2 ^ 16 : Int) ≠ 0 by decide)
    have hlt := Int.emod_lt_of_pos v.toInt (show (0 : Int) < 2 ^ 16 by decide)
    exact Int.bmod_eq_of_le_mul_two (by simp only [Int32.size]; omega)
      (by simp only [Int32.size]; omega)⟩
  i2s v := ⟨_, rfl, by rw [Int16.toInt_toInt32, Int32.toInt_toInt16]⟩

lemma toInt_compare64 (a b : Int64) : (Arith.compare64 a b).toInt = (a.toInt - b.toInt).sign := by
  rw [Machine.compare64_eq, Int32.toInt_ofInt]
  rcases Int.sign_trichotomy (a.toInt - b.toInt) with h | h | h <;> rw [h] <;> rfl

/-- The two words of a long make it up. -/
lemma toInt_split (v : Int64) :
    v.toInt = (Number.split v).1.toInt * 2 ^ 32 + (Number.split v).2.toNat := by
  have hlow : ((Number.split v).2.toNat : Int) = v.toInt % 2 ^ 32 :=
    (Machine.toInt_emod_pow v.toBitVec (show 32 ≤ 64 by decide)).symm
  have hshift : (v >>> 32).toInt = v.toInt / 2 ^ 32 :=
    ((Signed.longs.exactShift Machine.shift64_eq).shr v 32).trans
      (Int.fdiv_eq_ediv_of_nonneg _ (by decide))
  have hhigh : (Number.split v).1.toInt = v.toInt / 2 ^ 32 := by
    have hle := v.le_toInt
    have hlt := v.toInt_lt
    rw [Number.split, Int64.toInt_toInt32, hshift]
    exact Int.bmod_eq_of_le_mul_two (by omega) (by omega)
  rw [hhigh, hlow, Int.mul_comm, Int.mul_ediv_add_emod]

/-- **Constants are folded exactly**, in both widths and for all operands. -/
theorem folding_exact :
    ExactArith 32 Int32.toInt Arith.arith32 ∧ ExactArith 64 Int64.toInt Arith.arith64 ∧
    ExactShift 32 Int32.toInt Arith.shift32 ∧ ExactShift 64 Int64.toInt Arith.shift64 ∧
    (∀ op a b i, (Arith.logic32 op a b).toBitVec.getLsbD i =
      op.onBits (a.toBitVec.getLsbD i) (b.toBitVec.getLsbD i)) ∧
    (∀ op a b i, (Arith.logic64 op a b).toBitVec.getLsbD i =
      op.onBits (a.toBitVec.getLsbD i) (b.toBitVec.getLsbD i)) ∧
    (∀ a b, (Arith.compare64 a b).toInt = (a.toInt - b.toInt).sign) ∧
    ExactConversions ∧
    ∀ v, v.toInt = (Number.split v).1.toInt * 2 ^ 32 + (Number.split v).2.toNat ∧
      (Number.split v).2.toNat < 2 ^ 32 := by
  refine ⟨Signed.ints.exactArith (by decide) Machine.arith32_eq,
    Signed.longs.exactArith (by decide) Machine.arith64_eq,
    Signed.ints.exactShift Machine.shift32_eq,
    Signed.longs.exactShift Machine.shift64_eq, ?_, ?_, toInt_compare64, exactConversions, ?_⟩
  · intro op a b i
    rw [Machine.logic32_eq]
    exact getLsbD_logic op _ _ i
  · intro op a b i
    rw [Machine.logic64_eq]
    exact getLsbD_logic op _ _ i
  · exact fun v => ⟨toInt_split v, (Number.split v).2.toNat_lt⟩

example : Arith.arith32 .div Int32.minValue (-1) = some Int32.minValue ∧
    Arith.shift64 .ushr (-1) (-1) = 1 ∧ Number.split (-1) = (-1, 0xffffffff) := by decide

end ClassScript
