import Mathlib

/-!
What the integer functions of the support code compute.

A script has one type of numbers. Bitwise operators see the low 32 bits of a number; sums and
products are exact as long as the result is a whole number of at most 53 bits, and this model
has no others. A long is an object of two words, the high one signed and the low one not.
Each function below follows the text of the support code, and is then shown to compute on
words what its name says.
-/

namespace ClassScript.SupportCode

/-- How a computation ends without a value: it throws for a division by zero, or it leaves
what this model describes. -/
inductive Halt where
  | divisionByZero
  | outside
  deriving DecidableEq

abbrev Result := Except Halt

/-! ### Numbers -/

/-- A sum or product, where it is exact. -/
def exact (n : Int) : Result Int := if n.natAbs ≤ 2 ^ 53 then .ok n else .error .outside

/-- What bitwise operators see of a number. -/
def word (n : Int) : BitVec 32 := BitVec.ofInt 32 n

def distance (n : Int) : Nat := (word n).toNat % 32

def bitOr (a b : Int) : Int := (word a ||| word b).toInt
def bitAnd (a b : Int) : Int := (word a &&& word b).toInt
def bitXor (a b : Int) : Int := (word a ^^^ word b).toInt
def bitNot (a : Int) : Int := (~~~word a).toInt
def shl (a n : Int) : Int := (word a <<< distance n).toInt
def sar (a n : Int) : Int := ((word a).sshiftRight (distance n)).toInt
def shr (a n : Int) : Int := (word a >>> distance n).toNat

/-- The integer nearest to `p / q`, a half going to the even neighbour. -/
def nearest (p q : Nat) : Nat :=
  let twice := 2 * (p % q)
  if twice > q ∨ (twice = q ∧ p / q % 2 = 1) then p / q + 1 else p / q

/-- The power of two that gives `p / q` a whole part of 53 bits. -/
def scale (p q : Nat) : Nat :=
  let k := 52 + q.log2 - p.log2
  if p * 2 ^ k < 2 ^ 52 * q then k + 1 else k

/-- The whole part of the double nearest to `p / q`. -/
def quotient (p q : Nat) : Nat := nearest (p * 2 ^ scale p q) q / 2 ^ scale p q

/-- `(a / b) | 0`: the quotient is a double, of which the operator keeps the whole part. -/
def divide (a b : Int) : Int :=
  bitOr (a.sign * b.sign * quotient a.natAbs b.natAbs) 0

/-! ### Functions on numbers -/

def add32 (a b : Int) : Result Int := return bitOr (← exact (a + b)) 0
def sub32 (a b : Int) : Result Int := return bitOr (← exact (a - b)) 0
def mul32 (a b : Int) : Int := (word a * word b).toInt
def div32 (a b : Int) : Result Int := if b = 0 then .error .divisionByZero else .ok (divide a b)
def mod32 (a b : Int) : Result Int :=
  if b = 0 then .error .divisionByZero else .ok (bitOr (a.tmod b) 0)
def neg32 (a : Int) : Int := bitOr (-a) 0
def toInt8 (a : Int) : Int := sar (shl a 24) 24
def toInt16 (a : Int) : Int := sar (shl a 16) 16
def toChar (a : Int) : Int := bitAnd a 65535

/-! ### Functions on longs -/

@[ext] structure Long where
  hi : Int
  lo : Int
  deriving DecidableEq

def long (hi lo : Int) : Long := ⟨bitOr hi 0, shr lo 0⟩

def i2l (a : Int) : Long := long (if a < 0 then -1 else 0) a
def l2i (a : Long) : Int := bitOr a.lo 0

def add64 (a b : Long) : Result Long := do
  let lo ← exact (a.lo + b.lo)
  let hi ← exact (a.hi + b.hi)
  let hi ← exact (hi + if lo ≥ 2 ^ 32 then 1 else 0)
  return long hi lo

def neg64 (a : Long) : Result Long := add64 (long (bitNot a.hi) (bitNot a.lo)) (long 0 1)

def sub64 (a b : Long) : Result Long := do add64 a (← neg64 b)

def mulAdd (c x y : Int) : Result Int := do exact (c + (← exact (x * y)))

def mul64 (a b : Long) : Result Long := do
  let a48 := shr a.hi 16
  let a32 := bitAnd a.hi 0xffff
  let a16 := shr a.lo 16
  let a00 := bitAnd a.lo 0xffff
  let b48 := shr b.hi 16
  let b32 := bitAnd b.hi 0xffff
  let b16 := shr b.lo 16
  let b00 := bitAnd b.lo 0xffff
  let c00 ← mulAdd 0 a00 b00
  let c16 ← mulAdd (shr c00 16) a16 b00
  let c00 := bitAnd c00 0xffff
  let c32 := shr c16 16
  let c16 ← mulAdd (bitAnd c16 0xffff) a00 b16
  let c32 ← exact (c32 + shr c16 16)
  let c16 := bitAnd c16 0xffff
  let c32 ← mulAdd c32 a32 b00
  let c48 := shr c32 16
  let c32 ← mulAdd (bitAnd c32 0xffff) a16 b16
  let c48 ← exact (c48 + shr c32 16)
  let c32 ← mulAdd (bitAnd c32 0xffff) a00 b32
  let c48 ← exact (c48 + shr c32 16)
  let c32 := bitAnd c32 0xffff
  let top ← mulAdd 0 a48 b00
  let top ← mulAdd top a32 b16
  let top ← mulAdd top a16 b32
  let top ← mulAdd top a00 b48
  let c48 ← exact (c48 + top)
  let c48 := bitAnd c48 0xffff
  return long (bitOr (shl c48 16) c32) (bitOr (shl c16 16) c00)

def and64 (a b : Long) : Long := long (bitAnd a.hi b.hi) (bitAnd a.lo b.lo)
def or64 (a b : Long) : Long := long (bitOr a.hi b.hi) (bitOr a.lo b.lo)
def xor64 (a b : Long) : Long := long (bitXor a.hi b.hi) (bitXor a.lo b.lo)

def shl64 (a : Long) (n : Int) : Long :=
  let n := bitAnd n 63
  if n = 0 then a
  else if n < 32 then long (bitOr (shl a.hi n) (shr a.lo (32 - n))) (shl a.lo n)
  else long (shl a.lo (n - 32)) 0

def shr64 (a : Long) (n : Int) : Long :=
  let n := bitAnd n 63
  if n = 0 then a
  else if n < 32 then long (sar a.hi n) (bitOr (shr a.lo n) (shl a.hi (32 - n)))
  else long (sar a.hi 31) (sar a.hi (n - 32))

def ushr64 (a : Long) (n : Int) : Long :=
  let n := bitAnd n 63
  if n = 0 then a
  else if n < 32 then long (shr a.hi n) (bitOr (shr a.lo n) (shl a.hi (32 - n)))
  else long 0 (shr a.hi (n - 32))

def compare64 (a b : Long) : Int :=
  if a.hi ≠ b.hi then (if a.hi < b.hi then -1 else 1)
  else if a.lo = b.lo then 0
  else if a.lo < b.lo then -1 else 1

def unsignedCompare (a b : Long) : Int :=
  let ah := shr a.hi 0
  let bh := shr b.hi 0
  if ah ≠ bh then (if ah < bh then -1 else 1)
  else if a.lo = b.lo then 0
  else if a.lo < b.lo then -1 else 1

/-- One round of the long division: bit `i` of `n` comes into the remainder, and the quotient
has bit `i` when the divisor can be taken from it. -/
def divideStep (n d : Long) (i : Nat) (q r : Long) : Result (Long × Long) := do
  let r := shl64 r 1
  let bit := if 32 ≤ i then bitAnd (shr n.hi (i - 32)) 1 else bitAnd (shr n.lo i) 1
  let r := long r.hi (bitOr r.lo bit)
  if unsignedCompare r d ≥ 0 then
    let r ← sub64 r d
    let q := if 32 ≤ i then long (bitOr q.hi (shl 1 (i - 32))) q.lo
      else long q.hi (bitOr q.lo (shl 1 i))
    return (q, r)
  else return (q, r)

def divideLoop (n d : Long) : Nat → Long → Long → Result (Long × Long)
  | 0, q, r => .ok (q, r)
  | i + 1, q, r => do
    let (q, r) ← divideStep n d i q r
    divideLoop n d i q r

def magnitude (a : Long) : Result Long := if a.hi < 0 then neg64 a else .ok a

def divideLong (a b : Long) : Result (Long × Long) :=
  if b.hi = 0 ∧ b.lo = 0 then .error .divisionByZero
  else do divideLoop (← magnitude a) (← magnitude b) 64 (long 0 0) (long 0 0)

def div64 (a b : Long) : Result Long := do
  let (q, _) ← divideLong a b
  if (decide (a.hi < 0)) ≠ (decide (b.hi < 0)) then neg64 q else return q

def mod64 (a b : Long) : Result Long := do
  let (_, r) ← divideLong a b
  if a.hi < 0 then neg64 r else return r

/-! ### Words -/

lemma exact_ok {n : Int} (h : n.natAbs ≤ 2 ^ 53) : exact n = .ok n := if_pos h

@[simp] lemma ok_bind {α β : Type} (a : α) (f : α → Result β) : (Except.ok a >>= f) = f a := rfl

@[simp] lemma word_toInt (x : BitVec 32) : word x.toInt = x := BitVec.ofInt_toInt

@[simp] lemma word_toNat (x : BitVec 32) : word (x.toNat : Int) = x := by
  rw [word, BitVec.ofInt_natCast, BitVec.ofNat_toNat, BitVec.setWidth_eq]

lemma word_add (a b : Int) : word (a + b) = word a + word b := BitVec.ofInt_add a b

lemma word_neg (a : Int) : word (-a) = -word a := BitVec.ofInt_neg

lemma word_sub (a b : Int) : word (a - b) = word a - word b := by
  rw [Int.sub_eq_add_neg, word_add, word_neg, BitVec.sub_eq_add_neg]

@[simp] lemma bitOr_zero (n : Int) : bitOr n 0 = (word n).toInt := by simp [bitOr, word]

@[simp] lemma shr_zero (n : Int) : shr n 0 = (word n).toNat := by simp [shr, distance, word]

lemma toInt_bounds (x : BitVec 32) : -2 ^ 31 ≤ x.toInt ∧ x.toInt < 2 ^ 31 := by
  have h1 := BitVec.le_toInt x
  have h2 := BitVec.toInt_lt (x := x)
  omega

/-! ### What the functions on numbers compute -/

lemma add32_eq (x y : BitVec 32) : add32 x.toInt y.toInt = .ok (x + y).toInt := by
  have hx := toInt_bounds x
  have hy := toInt_bounds y
  have h : (x.toInt + y.toInt).natAbs ≤ 2 ^ 53 := by omega
  simp only [add32, exact_ok h, ok_bind, bitOr_zero, word_add, word_toInt]
  rfl

lemma sub32_eq (x y : BitVec 32) : sub32 x.toInt y.toInt = .ok (x - y).toInt := by
  have hx := toInt_bounds x
  have hy := toInt_bounds y
  have h : (x.toInt - y.toInt).natAbs ≤ 2 ^ 53 := by omega
  simp only [sub32, exact_ok h, ok_bind, bitOr_zero, word_sub, word_toInt]
  rfl

lemma mul32_eq (x y : BitVec 32) : mul32 x.toInt y.toInt = (x * y).toInt := by
  simp [mul32]

lemma neg32_eq (x : BitVec 32) : neg32 x.toInt = (-x).toInt := by
  simp [neg32, word_neg]

/-- Scaled up, the quotient is far enough from the next whole number for the rounding not to
reach it. -/
lemma quotient_eq {p q : Nat} (hp : p ≤ 2 ^ 31) (hq : 0 < q) : quotient p q = p / q := by
  rcases Nat.eq_zero_or_pos p with rfl | hp0
  · simp [quotient, nearest]
  have hk : q < 2 ^ scale p q := by
    have h1 : p.log2 ≤ 31 := by
      rw [← Nat.lt_succ_iff]
      exact (Nat.log2_lt (by omega)).mpr (by omega)
    have h2 : q < 2 ^ (q.log2 + 1) := Nat.lt_log2_self
    have h3 : q.log2 + 1 ≤ scale p q := by unfold scale; dsimp only; split <;> omega
    exact lt_of_lt_of_le h2 (Nat.pow_le_pow_right (by omega) h3)
  unfold quotient
  generalize 2 ^ scale p q = t at hk ⊢
  have ht : 0 < t := by omega
  -- rounding moves the scaled quotient by one at most, which is less than the scale
  have hlow : p / q * t ≤ p * t / q := by
    rw [Nat.le_div_iff_mul_le hq]
    calc p / q * t * q = p / q * q * t := by ring
      _ ≤ p * t := Nat.mul_le_mul_right _ (Nat.div_mul_le_self p q)
  have hhigh : p * t / q + 1 < (p / q + 1) * t := by
    have h1 : p * t < ((p / q + 1) * t - 1) * q := by
      have h2 : p + 1 ≤ (p / q + 1) * q := by
        have := Nat.lt_div_mul_add (a := p) hq
        rw [Nat.succ_mul]; omega
      have h3 : (p + 1) * t ≤ (p / q + 1) * q * t := Nat.mul_le_mul_right _ h2
      have h4 : (p / q + 1) * q * t = (p / q + 1) * t * q := by ring
      rw [Nat.sub_mul]
      rw [Nat.succ_mul] at h3
      omega
    have := (Nat.div_lt_iff_lt_mul hq).mpr h1
    omega
  have hnear : p * t / q ≤ nearest (p * t) q ∧ nearest (p * t) q ≤ p * t / q + 1 := by
    unfold nearest; dsimp only; split <;> omega
  apply Nat.div_eq_of_lt_le
  · omega
  · show _ < (p / q + 1) * t
    omega

lemma sign_mul_natAbs_div (a b : Int) :
    a.sign * b.sign * (a.natAbs / b.natAbs : Nat) = a.tdiv b := by
  cases a with
  | ofNat m =>
    rcases Nat.eq_zero_or_pos m with rfl | hm
    · simp
    · cases b with
      | ofNat n =>
        rcases Nat.eq_zero_or_pos n with rfl | hn
        · simp
        · simp [Int.sign_eq_one_of_pos, hm, hn]
      | negSucc n => simp [Int.sign_eq_one_of_pos, hm, Int.tdiv]
  | negSucc m =>
    cases b with
    | ofNat n =>
      rcases Nat.eq_zero_or_pos n with rfl | hn
      · simp
      · simp [Int.sign_eq_one_of_pos, hn, Int.tdiv]
    | negSucc n => simp [Int.tdiv]

lemma divide_eq (x y : BitVec 32) (hy : y ≠ 0) : divide x.toInt y.toInt = (x.sdiv y).toInt := by
  have hx := toInt_bounds x
  have hy0 : y.toInt ≠ 0 := by
    intro h
    exact hy (BitVec.eq_of_toInt_eq (by simpa using h))
  rw [divide, quotient_eq (by omega) (by omega), bitOr_zero, BitVec.toInt_sdiv, word,
    BitVec.toInt_ofInt]
  rw [sign_mul_natAbs_div]

lemma div32_eq (x y : BitVec 32) (hy : y ≠ 0) :
    div32 x.toInt y.toInt = .ok (x.sdiv y).toInt := by
  have hy0 : y.toInt ≠ 0 := by
    intro h
    exact hy (BitVec.eq_of_toInt_eq (by simpa using h))
  rw [div32, if_neg hy0, divide_eq x y hy]

lemma mod32_eq (x y : BitVec 32) (hy : y ≠ 0) :
    mod32 x.toInt y.toInt = .ok (x.srem y).toInt := by
  have hy0 : y.toInt ≠ 0 := by
    intro h
    exact hy (BitVec.eq_of_toInt_eq (by simpa using h))
  rw [mod32, if_neg hy0, bitOr_zero, ← BitVec.toInt_srem, word_toInt]

lemma distance_of_lt {n : Nat} (h : n < 32) : distance n = n := by
  rw [distance, word, BitVec.ofInt_natCast, BitVec.toNat_ofNat]
  omega

/-- Shifted up and down again, a word keeps its low bits with their sign. -/
lemma sar_shl (x : BitVec 32) {n : Nat} (hn : n < 32) :
    sar (shl x.toInt n) n = x.toInt.bmod (2 ^ (32 - n)) := by
  have h32 : 2 ^ n * 2 ^ (32 - n) = 2 ^ 32 := by rw [← pow_add]; congr 1; omega
  have hpos : 0 < 2 ^ n := Nat.two_pow_pos n
  have heven : 2 ∣ 2 ^ (32 - n) := dvd_pow_self 2 (by omega)
  have hmod : 2 ^ (32 - n) ∣ 2 ^ 32 := ⟨2 ^ n, by rw [← h32, Nat.mul_comm]⟩
  have hshl : (x <<< n).toInt = (2 ^ n : Nat) * (x.toNat : Int).bmod (2 ^ (32 - n)) := by
    rw [BitVec.toInt_shiftLeft, Nat.shiftLeft_eq, ← h32, Nat.mul_comm, Int.natCast_mul,
      Int.mod_bmod_mul_of_pos _ _ hpos heven]
  rw [sar, shl, distance_of_lt hn, word_toInt, word_toInt, BitVec.toInt_sshiftRight, hshl,
    Int.shiftRight_eq_div_pow, Int.mul_ediv_cancel_left _ (by omega),
    BitVec.toInt_eq_toNat_bmod, Int.bmod_bmod_of_dvd hmod]

lemma toInt8_eq (x : BitVec 32) : toInt8 x.toInt = x.toInt.bmod 256 :=
  sar_shl x (n := 24) (by omega)

lemma toInt16_eq (x : BitVec 32) : toInt16 x.toInt = x.toInt.bmod 65536 :=
  sar_shl x (n := 16) (by omega)

/-- The low sixteen bits of a number. -/
lemma bitAnd_mask (n : Int) : bitAnd n 0xffff = (word n).toNat % 65536 := by
  have hmask : (word n &&& 65535#32).toNat = (word n).toNat % 65536 := by
    rw [BitVec.toNat_and]
    exact Nat.and_two_pow_sub_one_eq_mod _ 16
  have hw : word 0xffff = 65535#32 := rfl
  rw [bitAnd, hw, BitVec.toInt_eq_toNat_cond, hmask]
  omega

lemma toChar_eq (x : BitVec 32) : toChar x.toInt = x.toInt % 65536 := by
  have hx := x.isLt
  rw [toChar, bitAnd_mask, word_toInt, BitVec.toInt_eq_toNat_cond]
  split <;> omega

/-! ### What the functions on longs compute -/

def ofBits (v : BitVec 64) : Long := ⟨(v.extractLsb' 32 32).toInt, (v.extractLsb' 0 32).toNat⟩

@[simp] lemma ofBits_hi (v : BitVec 64) : (ofBits v).hi = (v.extractLsb' 32 32).toInt := rfl
@[simp] lemma ofBits_lo (v : BitVec 64) : (ofBits v).lo = (v.extractLsb' 0 32).toNat := rfl

lemma long_eq (hi lo : Int) : long hi lo = ofBits (word hi ++ word lo) := by
  rw [long, ofBits, BitVec.extractLsb'_append_eq_left, BitVec.extractLsb'_append_eq_right,
    bitOr_zero, shr_zero]

lemma toNat_append (x y : BitVec 32) : (x ++ y).toNat = x.toNat * 2 ^ 32 + y.toNat := by
  rw [BitVec.toNat_append, ← Nat.shiftLeft_add_eq_or_of_lt y.isLt, Nat.shiftLeft_eq]

lemma toNat_high (v : BitVec 64) : (v.extractLsb' 32 32).toNat = v.toNat / 2 ^ 32 := by
  have := v.isLt
  rw [BitVec.extractLsb'_toNat, Nat.shiftRight_eq_div_pow]
  omega

lemma toNat_low (v : BitVec 64) : (v.extractLsb' 0 32).toNat = v.toNat % 2 ^ 32 := by
  rw [BitVec.extractLsb'_toNat, Nat.shiftRight_zero]

lemma toInt_high (v : BitVec 64) :
    (v.extractLsb' 32 32).toInt =
      if v.toNat < 2 ^ 63 then ((v.toNat / 2 ^ 32 : Nat) : Int)
        else (v.toNat / 2 ^ 32 : Nat) - 2 ^ 32 := by
  rw [BitVec.toInt_eq_toNat_cond, toNat_high]
  split <;> split <;> omega

lemma append_high_low (v : BitVec 64) : v.extractLsb' 32 32 ++ v.extractLsb' 0 32 = v := by
  apply BitVec.eq_of_toNat_eq
  rw [toNat_append, toNat_high, toNat_low]
  omega

lemma toNat_word (n : Int) : ((word n).toNat : Int) = n % 2 ^ 32 := by
  rw [word, BitVec.toNat_ofInt]
  omega

lemma add64_eq (a b : BitVec 64) : add64 (ofBits a) (ofBits b) = .ok (ofBits (a + b)) := by
  have ha := toInt_bounds (a.extractLsb' 32 32)
  have hb := toInt_bounds (b.extractLsb' 32 32)
  have hal := toNat_low a
  have hbl := toNat_low b
  have hah := toInt_high a
  have hbh := toInt_high b
  obtain ⟨k, hk⟩ : ∃ k : Int, k = if ((a.extractLsb' 0 32).toNat + (b.extractLsb' 0 32).toNat : Int)
    ≥ 2 ^ 32 then 1 else 0 := ⟨_, rfl⟩
  simp only [add64, ofBits_hi, ofBits_lo]
  rw [exact_ok (by omega), ok_bind, exact_ok (by omega), ok_bind, ← hk,
    exact_ok (by split at hk <;> omega), ok_bind, long_eq]
  congr 2
  apply BitVec.eq_of_toNat_eq
  rw [toNat_append, BitVec.toNat_add]
  have hlo := toNat_word ((a.extractLsb' 0 32).toNat + (b.extractLsb' 0 32).toNat : Int)
  have hhi := toNat_word ((a.extractLsb' 32 32).toInt + (b.extractLsb' 32 32).toInt + k)
  split at hk <;> split at hah <;> split at hbh <;> omega

lemma bitNot_eq (n : Int) : word (bitNot n) = ~~~word n := by rw [bitNot, word_toInt]

lemma neg64_eq (a : BitVec 64) : neg64 (ofBits a) = .ok (ofBits (-a)) := by
  have h : ~~~(a.extractLsb' 32 32) ++ ~~~(a.extractLsb' 0 32) = ~~~a := by
    rw [← BitVec.not_append, append_high_low]
  simp only [neg64, long_eq, bitNot_eq, ofBits_hi, ofBits_lo, word_toInt, word_toNat]
  rw [add64_eq, h, BitVec.neg_eq_not_add]
  rfl

lemma sub64_eq (a b : BitVec 64) : sub64 (ofBits a) (ofBits b) = .ok (ofBits (a - b)) := by
  rw [sub64, neg64_eq, ok_bind, add64_eq, BitVec.sub_eq_add_neg]

lemma and64_eq (a b : BitVec 64) : and64 (ofBits a) (ofBits b) = ofBits (a &&& b) := by
  rw [← append_high_low (a &&& b), BitVec.extractLsb'_and, BitVec.extractLsb'_and]
  simp only [and64, long_eq, bitAnd, ofBits_hi, ofBits_lo, word_toInt, word_toNat]

lemma or64_eq (a b : BitVec 64) : or64 (ofBits a) (ofBits b) = ofBits (a ||| b) := by
  rw [← append_high_low (a ||| b), BitVec.extractLsb'_or, BitVec.extractLsb'_or]
  simp only [or64, long_eq, bitOr, ofBits_hi, ofBits_lo, word_toInt, word_toNat]

lemma xor64_eq (a b : BitVec 64) : xor64 (ofBits a) (ofBits b) = ofBits (a ^^^ b) := by
  rw [← append_high_low (a ^^^ b), BitVec.extractLsb'_xor, BitVec.extractLsb'_xor]
  simp only [xor64, long_eq, bitXor, ofBits_hi, ofBits_lo, word_toInt, word_toNat]

/-- Distances of shifts of longs count modulo 64. -/
lemma bitAnd_sixty_three (n : Int) : bitAnd n 63 = ((word n).toNat % 64 : Nat) := by
  have hmask : (word n &&& 63#32).toNat = (word n).toNat % 64 := by
    rw [BitVec.toNat_and]
    exact Nat.and_two_pow_sub_one_eq_mod _ 6
  have hw : word 63 = 63#32 := rfl
  rw [bitAnd, hw, BitVec.toInt_eq_toNat_cond, hmask]
  omega

lemma shl64_eq (a : BitVec 64) (n : Int) :
    shl64 (ofBits a) n = ofBits (a <<< ((word n).toNat % 64)) := by
  unfold shl64
  rw [bitAnd_sixty_three]
  have hlt : (word n).toNat % 64 < 64 := Nat.mod_lt _ (by omega)
  generalize (word n).toNat % 64 = k at hlt ⊢
  dsimp only
  by_cases h0 : k = 0
  · subst h0; simp
  rw [if_neg (by omega)]
  by_cases h32 : k < 32
  · have hk : (32 - (k : Int)) = ((32 - k : Nat) : Int) := by omega
    rw [if_pos (by omega), hk, long_eq, ← append_high_low (a <<< k)]
    simp only [bitOr, shl, shr, ofBits_hi, ofBits_lo, word_toInt, word_toNat,
      distance_of_lt h32, distance_of_lt (show 32 - k < 32 by omega)]
    congr 2 <;> apply BitVec.eq_of_getLsbD_eq <;> grind
  · have hk : ((k : Int) - 32) = ((k - 32 : Nat) : Int) := by omega
    rw [if_neg (by omega), hk, long_eq, ← append_high_low (a <<< k)]
    simp only [shl, ofBits_lo, word_toInt, word_toNat, distance_of_lt (show k - 32 < 32 by omega)]
    congr 2 <;> apply BitVec.eq_of_getLsbD_eq <;> grind [word]

lemma shr64_eq (a : BitVec 64) (n : Int) :
    shr64 (ofBits a) n = ofBits (a.sshiftRight ((word n).toNat % 64)) := by
  unfold shr64
  rw [bitAnd_sixty_three]
  have hlt : (word n).toNat % 64 < 64 := Nat.mod_lt _ (by omega)
  generalize (word n).toNat % 64 = k at hlt ⊢
  dsimp only
  by_cases h0 : k = 0
  · subst h0; simp
  rw [if_neg (by omega)]
  by_cases h32 : k < 32
  · have hk : (32 - (k : Int)) = ((32 - k : Nat) : Int) := by omega
    rw [if_pos (by omega), hk, long_eq, ← append_high_low (a.sshiftRight k)]
    simp only [bitOr, sar, shl, shr, ofBits_hi, ofBits_lo, word_toInt, word_toNat,
      distance_of_lt h32, distance_of_lt (show 32 - k < 32 by omega)]
    congr 2 <;> apply BitVec.eq_of_getLsbD_eq <;> grind
  · have hk : ((k : Int) - 32) = ((k - 32 : Nat) : Int) := by omega
    have h31 : distance 31 = 31 := rfl
    rw [if_neg (by omega), hk, long_eq, ← append_high_low (a.sshiftRight k)]
    simp only [sar, ofBits_hi, word_toInt, h31, distance_of_lt (show k - 32 < 32 by omega)]
    congr 2 <;> apply BitVec.eq_of_getLsbD_eq <;> grind

lemma ushr64_eq (a : BitVec 64) (n : Int) :
    ushr64 (ofBits a) n = ofBits (a >>> ((word n).toNat % 64)) := by
  unfold ushr64
  rw [bitAnd_sixty_three]
  have hlt : (word n).toNat % 64 < 64 := Nat.mod_lt _ (by omega)
  generalize (word n).toNat % 64 = k at hlt ⊢
  dsimp only
  by_cases h0 : k = 0
  · subst h0; simp
  rw [if_neg (by omega)]
  by_cases h32 : k < 32
  · have hk : (32 - (k : Int)) = ((32 - k : Nat) : Int) := by omega
    rw [if_pos (by omega), hk, long_eq, ← append_high_low (a >>> k)]
    simp only [bitOr, shl, shr, ofBits_hi, ofBits_lo, word_toInt, word_toNat,
      distance_of_lt h32, distance_of_lt (show 32 - k < 32 by omega)]
    congr 2 <;> apply BitVec.eq_of_getLsbD_eq <;> grind
  · have hk : ((k : Int) - 32) = ((k - 32 : Nat) : Int) := by omega
    rw [if_neg (by omega), hk, long_eq, ← append_high_low (a >>> k)]
    simp only [shr, ofBits_hi, word_toInt, word_toNat, distance_of_lt (show k - 32 < 32 by omega)]
    congr 2 <;> apply BitVec.eq_of_getLsbD_eq <;> grind [word]

lemma toInt_eq_high_low (v : BitVec 64) :
    v.toInt = (v.extractLsb' 32 32).toInt * 2 ^ 32 + (v.extractLsb' 0 32).toNat := by
  have hv := v.isLt
  rw [BitVec.toInt_eq_toNat_cond, toInt_high, toNat_low]
  split <;> split <;> omega

/-- The order of longs is that of their high words, and then of their low words. -/
lemma sign_sub_eq {ah bh al bl : Int} (ha : 0 ≤ al ∧ al < 2 ^ 32) (hb : 0 ≤ bl ∧ bl < 2 ^ 32) :
    (ah * 2 ^ 32 + al - (bh * 2 ^ 32 + bl)).sign =
      if ah ≠ bh then (if ah < bh then -1 else 1)
      else if al = bl then 0 else if al < bl then -1 else 1 := by
  split_ifs with h1 h2 h3 h4
  · exact Int.sign_eq_neg_one_of_neg (by omega)
  · exact Int.sign_eq_one_of_pos (by omega)
  · rw [show ah * 2 ^ 32 + al - (bh * 2 ^ 32 + bl) = 0 by omega, Int.sign_zero]
  · exact Int.sign_eq_neg_one_of_neg (by omega)
  · exact Int.sign_eq_one_of_pos (by omega)

lemma compare64_eq (a b : BitVec 64) :
    compare64 (ofBits a) (ofBits b) = (a.toInt - b.toInt).sign := by
  have hal := (a.extractLsb' 0 32).isLt
  have hbl := (b.extractLsb' 0 32).isLt
  rw [toInt_eq_high_low a, toInt_eq_high_low b, sign_sub_eq (by omega) (by omega)]
  rfl

lemma unsignedCompare_nonneg (a b : BitVec 64) :
    unsignedCompare (ofBits a) (ofBits b) ≥ 0 ↔ b.toNat ≤ a.toNat := by
  have ha := toNat_high a
  have hb := toNat_high b
  have hal := toNat_low a
  have hbl := toNat_low b
  simp only [unsignedCompare, shr_zero, ofBits_hi, ofBits_lo, word_toInt]
  split_ifs <;> omega

lemma i2l_eq (x : BitVec 32) : i2l x.toInt = ofBits (x.signExtend 64) := by
  rw [i2l, long_eq, ← append_high_low (x.signExtend 64), word_toInt]
  congr 2
  · have hmsb : x.toInt < 0 ↔ x.msb = true := by rw [BitVec.msb_eq_toInt, decide_eq_true_eq]
    have hneg : word (-1) = BitVec.allOnes 32 := rfl
    have hzero : word 0 = 0#32 := rfl
    apply BitVec.eq_of_getLsbD_eq
    intro i hi
    simp only [hmsb]
    split_ifs with h
    · rw [hneg, BitVec.getLsbD_allOnes]
      grind
    · rw [hzero, BitVec.getLsbD_zero]
      grind
  · apply BitVec.eq_of_getLsbD_eq
    grind

lemma l2i_eq (a : BitVec 64) : l2i (ofBits a) = (a.setWidth 32).toInt := by
  have h : a.extractLsb' 0 32 = a.setWidth 32 := by
    apply BitVec.eq_of_getLsbD_eq
    grind
  rw [l2i, bitOr_zero, ofBits_lo, word_toNat, h]

/-! A product is computed from digits of sixteen bits. -/

lemma toNat_word_natCast {n : Nat} (h : n < 2 ^ 32) : (word n).toNat = n := by
  rw [word, BitVec.ofInt_natCast, BitVec.toNat_ofNat, Nat.mod_eq_of_lt h]

lemma shr_sixteen {n : Nat} (h : n < 2 ^ 32) : shr n 16 = (n / 65536 : Nat) := by
  have hd : distance 16 = 16 := rfl
  rw [shr, hd, BitVec.toNat_ushiftRight, toNat_word_natCast h, Nat.shiftRight_eq_div_pow]

lemma bitAnd_mask_natCast (n : Nat) : bitAnd n 0xffff = (n % 65536 : Nat) := by
  have := toNat_word n
  rw [bitAnd_mask]
  omega

lemma exact_add_ok {m n : Nat} (h : m + n ≤ 2 ^ 53) :
    exact (m + n) = .ok ((m + n : Nat) : Int) := by
  rw [← Int.natCast_add, exact_ok (by omega)]

lemma mulAdd_ok {c x y : Nat} (h : c + x * y ≤ 2 ^ 53) :
    mulAdd c x y = .ok ((c + x * y : Nat) : Int) := by
  rw [mulAdd, exact_ok (by rw [← Int.natCast_mul]; omega), ok_bind, ← Int.natCast_mul,
    ← Int.natCast_add, exact_ok (by omega)]

/-- Two digits side by side. -/
lemma toNat_digits {c d : Nat} (hc : c < 65536) (hd : d < 65536) :
    (word (bitOr (shl c 16) d)).toNat = c * 65536 + d := by
  have h16 : distance 16 = 16 := rfl
  rw [bitOr, shl, h16, word_toInt, word_toInt, BitVec.toNat_or, BitVec.toNat_shiftLeft,
    toNat_word_natCast (by omega), toNat_word_natCast (by omega)]
  rw [Nat.mod_eq_of_lt (by rw [Nat.shiftLeft_eq]; omega), ←
    Nat.shiftLeft_add_eq_or_of_lt (by omega),
    Nat.shiftLeft_eq]

/-- The digits of the two words of a long. -/
lemma digits (a : BitVec 64) : ∃ a48 a32 a16 a00 : Nat,
    (a48 < 65536 ∧ a32 < 65536 ∧ a16 < 65536 ∧ a00 < 65536) ∧
    a.toNat = a48 * 2 ^ 48 + a32 * 2 ^ 32 + a16 * 2 ^ 16 + a00 ∧
    shr (ofBits a).hi 16 = a48 ∧ bitAnd (ofBits a).hi 0xffff = a32 ∧
    shr (ofBits a).lo 16 = a16 ∧ bitAnd (ofBits a).lo 0xffff = a00 := by
  have ha := a.isLt
  have hd : distance 16 = 16 := rfl
  refine ⟨a.toNat / 2 ^ 48, a.toNat / 2 ^ 32 % 65536, a.toNat / 2 ^ 16 % 65536, a.toNat % 65536,
    by omega, by omega, ?_, ?_, ?_, ?_⟩
  · rw [shr, hd, ofBits_hi, word_toInt, BitVec.toNat_ushiftRight, toNat_high,
      Nat.shiftRight_eq_div_pow]
    omega
  · rw [bitAnd_mask, ofBits_hi, word_toInt, toNat_high]
    omega
  · rw [ofBits_lo, shr_sixteen (by rw [toNat_low]; omega), toNat_low]
    omega
  · rw [ofBits_lo, bitAnd_mask, word_toNat, toNat_low]
    omega

/-- A product of two digits and two carries fit a word. -/
lemma mul_digits_le {x y : Nat} (hx : x < 65536) (hy : y < 65536) : x * y ≤ 65535 * 65535 :=
  Nat.mul_le_mul (by omega) (by omega)

lemma mul64_eq (a b : BitVec 64) : mul64 (ofBits a) (ofBits b) = .ok (ofBits (a * b)) := by
  obtain ⟨a48, a32, a16, a00, ⟨_, _, _, _⟩, ha, e1, e2, e3, e4⟩ := digits a
  obtain ⟨b48, b32, b16, b00, ⟨_, _, _, _⟩, hb, f1, f2, f3, f4⟩ := digits b
  have p00 := mul_digits_le ‹a00 < 65536› ‹b00 < 65536›
  have p10 := mul_digits_le ‹a16 < 65536› ‹b00 < 65536›
  have p01 := mul_digits_le ‹a00 < 65536› ‹b16 < 65536›
  have p20 := mul_digits_le ‹a32 < 65536› ‹b00 < 65536›
  have p11 := mul_digits_le ‹a16 < 65536› ‹b16 < 65536›
  have p02 := mul_digits_le ‹a00 < 65536› ‹b32 < 65536›
  have p30 := mul_digits_le ‹a48 < 65536› ‹b00 < 65536›
  have p21 := mul_digits_le ‹a32 < 65536› ‹b16 < 65536›
  have p12 := mul_digits_le ‹a16 < 65536› ‹b32 < 65536›
  have p03 := mul_digits_le ‹a00 < 65536› ‹b48 < 65536›
  have zero : (0 : Int) = (0 : Nat) := rfl
  simp only [mul64, e1, e2, e3, e4, f1, f2, f3, f4]
  rw [zero, mulAdd_ok (by omega), ok_bind, Nat.zero_add]
  generalize h00 : a00 * b00 = c00 at p00 ⊢
  rw [shr_sixteen (by omega), mulAdd_ok (by omega), ok_bind]
  generalize h16 : c00 / 65536 + a16 * b00 = c16
  rw [shr_sixteen (by omega), bitAnd_mask_natCast c16, mulAdd_ok (by omega), ok_bind]
  generalize h16' : c16 % 65536 + a00 * b16 = d16
  rw [shr_sixteen (by omega), exact_add_ok (by omega), ok_bind, mulAdd_ok (by omega), ok_bind]
  generalize h32 : c16 / 65536 + d16 / 65536 + a32 * b00 = c32
  rw [shr_sixteen (by omega), bitAnd_mask_natCast c32, mulAdd_ok (by omega), ok_bind]
  generalize h32' : c32 % 65536 + a16 * b16 = d32
  rw [shr_sixteen (by omega), exact_add_ok (by omega), ok_bind, bitAnd_mask_natCast d32,
    mulAdd_ok (by omega), ok_bind]
  generalize h32'' : d32 % 65536 + a00 * b32 = e32
  rw [shr_sixteen (by omega), exact_add_ok (by omega), ok_bind, mulAdd_ok (by omega), ok_bind,
    mulAdd_ok (by omega), ok_bind, mulAdd_ok (by omega), ok_bind, mulAdd_ok (by omega), ok_bind,
    exact_add_ok (by omega), ok_bind]
  generalize h48 : c32 / 65536 + d32 / 65536 + e32 / 65536 +
    (0 + a48 * b00 + a32 * b16 + a16 * b32 + a00 * b48) = c48
  rw [bitAnd_mask_natCast, bitAnd_mask_natCast, bitAnd_mask_natCast, bitAnd_mask_natCast, long_eq]
  have hab : a.toNat * b.toNat = c00 + (a16 * b00 + a00 * b16) * 2 ^ 16 +
      (a32 * b00 + a16 * b16 + a00 * b32) * 2 ^ 32 +
      (a48 * b00 + a32 * b16 + a16 * b32 + a00 * b48) * 2 ^ 48 +
      (a48 * b16 + a32 * b32 + a16 * b48 + (a48 * b32 + a32 * b48) * 2 ^ 16 +
        a48 * b48 * 2 ^ 32) * 2 ^ 64 := by
    rw [ha, hb, ← h00]; ring
  show Except.ok _ = Except.ok _
  congr 2
  apply BitVec.eq_of_toNat_eq
  rw [toNat_append, toNat_digits (by omega) (by omega), toNat_digits (by omega) (by omega),
    BitVec.toNat_mul, hab]
  omega

end ClassScript.SupportCode
