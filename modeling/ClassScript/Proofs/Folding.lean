import ClassScript.Arith
import ClassScript.Proofs.Machine
import Mathlib.Tactic.Linarith

/-!
Operations on constants are the operations of the machine.

The machine counts in `Int` and wraps at the end; the lemmas on words say the same of bit
vectors, where the folded operations and those of the support code meet.
-/

namespace ClassScript.Machine

/-! ### Words -/

lemma ofInt_mul_pow {w : Nat} (x : BitVec w) (n : Nat) :
    BitVec.ofInt w (x.toInt * 2 ^ n) = x <<< n := by
  have hpow : BitVec.ofInt w (2 ^ n) = BitVec.twoPow w n := by
    rw [show (2 ^ n : Int) = ((2 ^ n : Nat) : Int) by norm_cast, BitVec.ofInt_natCast]
    apply BitVec.eq_of_toNat_eq
    rw [BitVec.toNat_ofNat, BitVec.toNat_twoPow]
  rw [BitVec.shiftLeft_eq_mul_twoPow, BitVec.ofInt_mul, BitVec.ofInt_toInt, hpow]

lemma ofInt_div_pow {w : Nat} (x : BitVec w) (n : Nat) :
    BitVec.ofInt w (x.toInt / 2 ^ n) = x.sshiftRight n := by
  rw [BitVec.sshiftRight, Int.shiftRight_eq_div_pow]
  rfl

lemma toInt_emod_pow {w k : Nat} (x : BitVec w) (h : k ≤ w) :
    x.toInt % 2 ^ k = ((x.toNat % 2 ^ k : Nat) : Int) := by
  rw [BitVec.toInt_eq_toNat_bmod, show (2 ^ k : Int) = ((2 ^ k : Nat) : Int) by norm_cast,
    ← Int.emod_emod_of_dvd _ (Int.natCast_dvd_natCast.mpr (pow_dvd_pow 2 h)), Int.bmod_emod,
    Int.emod_emod_of_dvd _ (Int.natCast_dvd_natCast.mpr (pow_dvd_pow 2 h))]
  norm_cast

lemma ofInt_emod_pow {w k : Nat} (x : BitVec w) (h : k ≤ w) :
    BitVec.ofInt w (x.toInt % 2 ^ k) = (x.setWidth k).setWidth w := by
  rw [toInt_emod_pow x h, BitVec.ofInt_natCast]
  apply BitVec.eq_of_toNat_eq
  rw [BitVec.toNat_ofNat, BitVec.toNat_setWidth, BitVec.toNat_setWidth]

lemma ofInt_emod_div_pow {w : Nat} (x : BitVec w) (n : Nat) :
    BitVec.ofInt w (x.toInt % 2 ^ w / 2 ^ n) = x >>> n := by
  rw [toInt_emod_pow x le_rfl, Nat.mod_eq_of_lt x.isLt,
    show (2 ^ n : Int) = ((2 ^ n : Nat) : Int) by norm_cast, ← Int.natCast_ediv,
    BitVec.ofInt_natCast]
  apply BitVec.eq_of_toNat_eq
  rw [BitVec.toNat_ofNat, BitVec.toNat_ushiftRight, Nat.shiftRight_eq_div_pow,
    Nat.mod_eq_of_lt (lt_of_le_of_lt (Nat.div_le_self _ _) x.isLt)]

lemma ofInt_tdiv {w : Nat} (x y : BitVec w) : BitVec.ofInt w (x.toInt.tdiv y.toInt) = x.sdiv y := by
  apply BitVec.eq_of_toInt_eq
  rw [BitVec.toInt_ofInt, BitVec.toInt_sdiv]

lemma ofInt_tmod {w : Nat} (x y : BitVec w) : BitVec.ofInt w (x.toInt.tmod y.toInt) = x.srem y := by
  rw [← BitVec.toInt_srem, BitVec.ofInt_toInt]

lemma ofInt_sub_toInt {w : Nat} (x y : BitVec w) : BitVec.ofInt w (x.toInt - y.toInt) = x - y := by
  rw [Int.sub_eq_add_neg, BitVec.ofInt_add, BitVec.ofInt_neg, BitVec.ofInt_toInt,
    BitVec.ofInt_toInt,
    BitVec.sub_eq_add_neg]

lemma ofInt_toInt_signExtend (x : BitVec 32) : BitVec.ofInt 64 x.toInt = x.signExtend 64 := rfl

lemma ofInt_toInt_setWidth (x : BitVec 64) : BitVec.ofInt 32 x.toInt = x.setWidth 32 :=
  BitVec.signExtend_eq_setWidth_of_le x (by omega)

def shiftWord {w : Nat} (op : ShiftOp) (x : BitVec w) (n : Nat) : BitVec w :=
  match op with
  | .shl => x <<< n
  | .shr => x.sshiftRight n
  | .ushr => x >>> n

lemma ofInt_shift {w v : Nat} (op : ShiftOp) (x : BitVec w) (y : BitVec v) (h : w ∣ 2 ^ v) :
    BitVec.ofInt w (shift w op x.toInt y.toInt) = shiftWord op x (y.toNat % w) := by
  have hn : (y.toInt % w).toNat = y.toNat % w := by
    rw [BitVec.toInt_eq_toNat_bmod, ← Int.emod_emod_of_dvd _ (Int.natCast_dvd_natCast.mpr h),
      Int.bmod_emod, Int.emod_emod_of_dvd _ (Int.natCast_dvd_natCast.mpr h), ← Int.natCast_emod,
      Int.toNat_natCast]
  cases op
  · simp only [shift, hn, shiftWord, ofInt_mul_pow]
  · simp only [shift, hn, shiftWord, ofInt_div_pow]
  · simp only [shift, hn, shiftWord, ofInt_emod_div_pow]

/-! ### Results -/

lemma quotient_eq_none {make : Int → Value} {q : Option Int}
    (h : Computed.ofQuotient make q = .divisionByZero) : q = none := by
  cases q with
  | none => rfl
  | some n => cases h

lemma kind_of_quotient {make : Int → Value} {q : Option Int} {v : Value} {k : Kind}
    (hmake : ∀ n, (make n).kind = k) (h : Computed.ofQuotient make q = .value v) : k = v.kind := by
  cases q with
  | none => cases h
  | some n => cases h; exact (hmake n).symm

lemma arith_eq_none {op : ArithOp} {m n : Int} (h : arith op m n = none) :
    (op = .div ∨ op = .rem) ∧ n = 0 := by
  cases op with
  | add | sub | mul => cases h
  | div => exact ⟨.inl rfl, by simpa [arith] using h⟩
  | rem => exact ⟨.inr rfl, by simpa [arith] using h⟩

lemma kind_of_convert {c : Conversion} {v w : Value} (h : convert c v = some w) :
    w.kind = c.target := by
  unfold convert at h
  split at h <;> cases h <;> rfl

/-! ### Folded operations -/

open Arith

lemma arith32_eq (op : ArithOp) (a b : Int32) :
    arith32 op a b = (arith op a.toInt b.toInt).map Int32.ofInt := by
  have hzero : b = 0 ↔ b.toInt = 0 := by rw [← Int32.toInt_inj]; rfl
  cases op
  · simp [arith32, arith, Int32.ofInt_add]
  · simp [arith32, arith, Int32.ofInt_sub]
  · simp [arith32, arith, Int32.ofInt_mul]
  · simp only [arith32, arith, hzero]
    split_ifs with h
    · rfl
    · rw [Option.map_some, Option.some_inj, ← Int32.toBitVec_inj, Int32.toBitVec_ofInt]
      exact (ofInt_tdiv a.toBitVec b.toBitVec).symm
  · simp only [arith32, arith, hzero]
    split_ifs with h
    · rfl
    · rw [Option.map_some, Option.some_inj, ← Int32.toBitVec_inj, Int32.toBitVec_ofInt]
      exact (ofInt_tmod a.toBitVec b.toBitVec).symm

lemma arith64_eq (op : ArithOp) (a b : Int64) :
    arith64 op a b = (arith op a.toInt b.toInt).map Int64.ofInt := by
  have hzero : b = 0 ↔ b.toInt = 0 := by rw [← Int64.toInt_inj]; rfl
  cases op
  · simp [arith64, arith, Int64.ofInt_add]
  · simp [arith64, arith, Int64.ofInt_sub]
  · simp [arith64, arith, Int64.ofInt_mul]
  · simp only [arith64, arith, hzero]
    split_ifs with h
    · rfl
    · rw [Option.map_some, Option.some_inj, ← Int64.toBitVec_inj, Int64.toBitVec_ofInt]
      exact (ofInt_tdiv a.toBitVec b.toBitVec).symm
  · simp only [arith64, arith, hzero]
    split_ifs with h
    · rfl
    · rw [Option.map_some, Option.some_inj, ← Int64.toBitVec_inj, Int64.toBitVec_ofInt]
      exact (ofInt_tmod a.toBitVec b.toBitVec).symm

lemma toNat_and_mask {k : Nat} (y : BitVec 32) (hk : k < 32) :
    (y &&& BitVec.ofNat 32 (2 ^ k - 1)).toNat = y.toNat % 2 ^ k := by
  have hlt : 2 ^ k < 2 ^ 32 := Nat.pow_lt_pow_right (by omega) hk
  rw [BitVec.toNat_and, BitVec.toNat_ofNat, Nat.mod_eq_of_lt (by omega),
    Nat.and_two_pow_sub_one_eq_mod]

/-- Within the width a distance is taken as it is. -/
lemma toNat_smod {w : Nat} {x y : BitVec w} (hx : x.msb = false) (hy : y.msb = false)
    (h : x.toNat < y.toNat) : (x.smod y).toNat = x.toNat := by
  rw [BitVec.smod, hx, hy, BitVec.umod_eq, BitVec.toNat_umod, Nat.mod_eq_of_lt h]

lemma shift32_eq (op : ShiftOp) (a b : Int32) :
    shift32 op a b = .ofInt (shift 32 op a.toInt b.toInt) := by
  rw [← Int32.toBitVec_inj, Int32.toBitVec_ofInt]
  refine Eq.trans ?_ (ofInt_shift op a.toBitVec b.toBitVec (by decide)).symm
  have hmask : (b &&& 0x1f).toBitVec.toNat = b.toBitVec.toNat % 32 :=
    toNat_and_mask (k := 5) b.toBitVec (by omega)
  have hlt : b.toBitVec.toNat % 32 < 32 := Nat.mod_lt _ (by omega)
  have hsmod : ((b &&& 0x1f).toBitVec.smod 32).toNat = b.toBitVec.toNat % 32 := by
    rw [toNat_smod (by rw [BitVec.msb_eq_decide, hmask]; simp; omega) rfl (by rwa [hmask]), hmask]
  cases op
  · rw [shift32, Int32.toBitVec_shiftLeft, BitVec.shiftLeft_eq', hsmod]
    rfl
  · rw [shift32, Int32.toBitVec_shiftRight, BitVec.sshiftRight_eq', hsmod]
    rfl
  · rw [shift32, UInt32.toBitVec_toInt32, UInt32.toBitVec_shiftRight, Int32.toBitVec_toUInt32,
      Int32.toBitVec_toUInt32, BitVec.ushiftRight_eq', BitVec.toNat_umod, hmask]
    exact congrArg _ (Nat.mod_eq_of_lt hlt)

lemma shift64_eq (op : ShiftOp) (a : Int64) (b : Int32) :
    shift64 op a b = .ofInt (shift 64 op a.toInt b.toInt) := by
  rw [← Int64.toBitVec_inj, Int64.toBitVec_ofInt]
  refine Eq.trans ?_ (ofInt_shift op a.toBitVec b.toBitVec (by decide)).symm
  have hmask : (b &&& 0x3f).toBitVec.toNat = b.toBitVec.toNat % 64 :=
    toNat_and_mask (k := 6) b.toBitVec (by omega)
  have hlt : b.toBitVec.toNat % 64 < 64 := Nat.mod_lt _ (by omega)
  have hmsb : (b &&& 0x3f).toBitVec.msb = false := by
    rw [BitVec.msb_eq_decide, hmask]; simp; omega
  have hwide : (b &&& 0x3f).toInt64.toBitVec.toNat = b.toBitVec.toNat % 64 := by
    rw [Int32.toBitVec_toInt64, BitVec.signExtend_eq_setWidth_of_msb_false hmsb,
      BitVec.toNat_setWidth_of_le (by omega), hmask]
  have hsmod : ((b &&& 0x3f).toInt64.toBitVec.smod 64).toNat = b.toBitVec.toNat % 64 := by
    rw [toNat_smod (by rw [BitVec.msb_eq_decide, hwide]; simp; omega) rfl (by rwa [hwide]), hwide]
  cases op
  · rw [shift64, Int64.toBitVec_shiftLeft, BitVec.shiftLeft_eq', hsmod]
    rfl
  · rw [shift64, Int64.toBitVec_shiftRight, BitVec.sshiftRight_eq', hsmod]
    rfl
  · rw [shift64, UInt64.toBitVec_toInt64, UInt64.toBitVec_shiftRight, Int64.toBitVec_toUInt64,
      Int64.toBitVec_toUInt64, BitVec.ushiftRight_eq', BitVec.toNat_umod, hwide]
    exact congrArg _ (Nat.mod_eq_of_lt hlt)

lemma logic32_eq (op : LogicOp) (a b : Int32) :
    logic32 op a b = ⟨⟨logic op a.toBitVec b.toBitVec⟩⟩ := by
  cases op <;> rfl

lemma logic64_eq (op : LogicOp) (a b : Int64) :
    logic64 op a b = ⟨⟨logic op a.toBitVec b.toBitVec⟩⟩ := by
  cases op <;> rfl

lemma compare64_eq (a b : Int64) : compare64 a b = .ofInt (a.toInt - b.toInt).sign := by
  simp only [compare64, Int64.lt_iff_toInt_lt, ← Int64.toInt_inj]
  rcases lt_trichotomy a.toInt b.toInt with h | h | h
  · rw [if_pos h, Int.sign_eq_neg_one_of_neg (by omega)]; rfl
  · rw [if_neg (by omega), if_pos h, h, Int.sub_self]; rfl
  · rw [if_neg (by omega), if_neg (by omega), Int.sign_eq_one_of_pos (by omega)]; rfl

/-- Wrapping to fewer bits leaves nothing for a wider wrap to do. -/
lemma toInt_ofInt_bmod (n : Int) {k : Nat} (hk : k ≤ 31) :
    (Int32.ofInt (n.bmod (2 ^ k))).toInt = n.bmod (2 ^ k) := by
  have hpos : 0 < 2 ^ k := Nat.two_pow_pos k
  have hle : 2 ^ k ≤ 2 ^ 31 := Nat.pow_le_pow_right (by omega) hk
  have h1 := Int.le_bmod (x := n) hpos
  have h2 := Int.bmod_lt (x := n) hpos
  rw [Int32.toInt_ofInt]
  exact Int.bmod_eq_of_le_mul_two (by simp only [Int32.size]; omega)
    (by simp only [Int32.size]; omega)

lemma toInt8_toInt32_eq (a : Int32) : a.toInt8.toInt32 = .ofInt (a.toInt.bmod (2 ^ 8)) := by
  rw [← Int32.toInt_inj, Int8.toInt_toInt32, Int32.toInt_toInt8, toInt_ofInt_bmod _ (by omega)]

lemma toInt16_toInt32_eq (a : Int32) : a.toInt16.toInt32 = .ofInt (a.toInt.bmod (2 ^ 16)) := by
  rw [← Int32.toInt_inj, Int16.toInt_toInt32, Int32.toInt_toInt16, toInt_ofInt_bmod _ (by omega)]

lemma toUInt16_toInt32_eq (a : Int32) :
    a.toUInt32.toUInt16.toUInt32.toInt32 = .ofInt (a.toInt % 2 ^ 16) := by
  rw [← Int32.toBitVec_inj, UInt32.toBitVec_toInt32, Int32.toBitVec_ofInt, UInt16.toBitVec_toUInt32,
    UInt32.toBitVec_toUInt16, Int32.toBitVec_toUInt32]
  exact (ofInt_emod_pow a.toBitVec (by omega)).symm

end ClassScript.Machine
