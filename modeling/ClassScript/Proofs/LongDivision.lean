import ClassScript.Proofs.SupportCode

/-!
The long division of the support code, which takes the dividend bit by bit from the highest
down, is the division of signed words.
-/

namespace ClassScript.SupportCode

lemma bitAnd_one (n : Int) : bitAnd n 1 = ((word n).toNat % 2 : Nat) := by
  have hmask : (word n &&& 1#32).toNat = (word n).toNat % 2 := by
    rw [BitVec.toNat_and]
    exact Nat.and_two_pow_sub_one_eq_mod _ 1
  have hw : word 1 = 1#32 := rfl
  rw [bitAnd, hw, BitVec.toInt_eq_toNat_cond, hmask]
  omega

lemma bit_eq (n : BitVec 64) {i : Nat} (hi : i < 64) :
    (if 32 ≤ i then bitAnd (shr (ofBits n).hi (i - 32)) 1 else bitAnd (shr (ofBits n).lo i) 1) =
      (n.toNat / 2 ^ i % 2 : Nat) := by
  split
  · have hk : ((i : Int) - 32) = ((i - 32 : Nat) : Int) := by omega
    rw [bitAnd_one, shr, hk, distance_of_lt (by omega), ofBits_hi, word_toInt, word_toNat,
      BitVec.toNat_ushiftRight, toNat_high, Nat.shiftRight_eq_div_pow, Nat.div_div_eq_div_mul,
      ← pow_add, show 32 + (i - 32) = i by omega]
  · have h : 2 ^ 32 = 2 ^ i * 2 ^ (32 - i) := by rw [← pow_add]; congr 1; omega
    rw [bitAnd_one, shr, distance_of_lt (by omega), ofBits_lo, word_toNat, word_toNat,
      BitVec.toNat_ushiftRight, toNat_low, Nat.shiftRight_eq_div_pow, h, Nat.mod_mul_right_div_self,
      Nat.mod_mod_of_dvd _ (dvd_pow_self 2 (by omega))]

lemma long_bitOr_low (v : BitVec 64) {b : Nat} (hb : b < 2) :
    long (ofBits v).hi (bitOr (ofBits v).lo b) = ofBits (v ||| BitVec.ofNat 64 b) := by
  rw [long_eq, ← append_high_low (v ||| BitVec.ofNat 64 b)]
  simp only [bitOr, ofBits_hi, ofBits_lo, word_toInt, word_toNat]
  have hb' : b = 0 ∨ b = 1 := by omega
  rcases hb' with rfl | rfl <;> congr 2 <;> apply BitVec.eq_of_getLsbD_eq <;> grind [word]

lemma setBit_eq (q : BitVec 64) {i : Nat} (hi : i < 64) :
    (if 32 ≤ i then long (bitOr (ofBits q).hi (shl 1 (i - 32))) (ofBits q).lo
      else long (ofBits q).hi (bitOr (ofBits q).lo (shl 1 i))) = ofBits (q ||| 1#64 <<< i) := by
  have hone : word 1 = 1#32 := rfl
  split
  · have hk : ((i : Int) - 32) = ((i - 32 : Nat) : Int) := by omega
    rw [long_eq, ← append_high_low (q ||| 1#64 <<< i), hk]
    simp only [bitOr, shl, ofBits_hi, ofBits_lo, word_toInt, word_toNat, hone,
      distance_of_lt (show i - 32 < 32 by omega)]
    congr 2 <;> apply BitVec.eq_of_getLsbD_eq <;> grind
  · rw [long_eq, ← append_high_low (q ||| 1#64 <<< i)]
    simp only [bitOr, shl, ofBits_hi, ofBits_lo, word_toInt, word_toNat, hone,
      distance_of_lt (show i < 32 by omega)]
    congr 2 <;> apply BitVec.eq_of_getLsbD_eq <;> grind

/-- What a round does to quotient and remainder, as numbers. -/
lemma divideStep_eq (n d q r : BitVec 64) {i : Nat} (hi : i < 64) (hr : 2 * r.toNat + 1 < 2 ^ 64) :
    ∃ q' r' : BitVec 64,
      divideStep (ofBits n) (ofBits d) i (ofBits q) (ofBits r) = .ok (ofBits q', ofBits r') ∧
      if d.toNat ≤ 2 * r.toNat + n.toNat / 2 ^ i % 2 then
        q' = q ||| 1#64 <<< i ∧ r'.toNat + d.toNat = 2 * r.toNat + n.toNat / 2 ^ i % 2
      else q' = q ∧ r'.toNat = 2 * r.toNat + n.toNat / 2 ^ i % 2 := by
  have hbit : n.toNat / 2 ^ i % 2 < 2 := Nat.mod_lt _ (by omega)
  obtain ⟨s, hs⟩ : ∃ s, s = r <<< 1 ||| BitVec.ofNat 64 (n.toNat / 2 ^ i % 2) := ⟨_, rfl⟩
  have hs' : s.toNat = 2 * r.toNat + n.toNat / 2 ^ i % 2 := by
    rw [hs, BitVec.toNat_or, BitVec.toNat_shiftLeft, BitVec.toNat_ofNat,
      Nat.mod_eq_of_lt (by rw [Nat.shiftLeft_eq]; omega), Nat.mod_eq_of_lt (by omega),
      ← Nat.shiftLeft_add_eq_or_of_lt (by omega), Nat.shiftLeft_eq]
    omega
  have hone : (word 1).toNat % 64 = 1 := rfl
  simp only [divideStep, shl64_eq, hone, bit_eq n hi, long_bitOr_low _ hbit, ← hs,
    unsignedCompare_nonneg, hs', setBit_eq q hi]
  by_cases h : d.toNat ≤ 2 * r.toNat + n.toNat / 2 ^ i % 2
  · refine ⟨q ||| 1#64 <<< i, s - d, ?_, ?_⟩
    · rw [if_pos h, sub64_eq]; rfl
    · have hd := d.isLt
      rw [if_pos h, BitVec.toNat_sub_of_le (by rw [BitVec.le_def]; omega)]
      exact ⟨rfl, by omega⟩
  · refine ⟨q, s, ?_, ?_⟩
    · rw [if_neg h]; rfl
    · rw [if_neg h]; exact ⟨rfl, hs'⟩

lemma toNat_or_setBit {q : BitVec 64} {i m : Nat} (hi : i < 64) (hq : q.toNat = m * 2 ^ (i + 1)) :
    (q ||| 1#64 <<< i).toNat = (2 * m + 1) * 2 ^ i := by
  have hlt : 2 ^ i < 2 ^ 64 := Nat.pow_lt_pow_right (by omega) hi
  rw [BitVec.toNat_or, BitVec.toNat_shiftLeft, hq, BitVec.toNat_ofNat, Nat.shiftLeft_eq,
    Nat.mod_eq_of_lt (a := 1) (by omega), Nat.one_mul, Nat.mod_eq_of_lt hlt, ← Nat.shiftLeft_eq,
    ← Nat.shiftLeft_add_eq_or_of_lt (Nat.pow_lt_pow_right (by omega) (by omega)), Nat.shiftLeft_eq]
  ring

/-- **Long division**: the quotient has the bits above `i`, and the remainder is what the
dividend without its low `i` bits leaves. -/
lemma divideLoop_eq (n d : BitVec 64) (hd : d.toNat ≤ 2 ^ 63) :
    ∀ (i : Nat) (q r : BitVec 64) (m : Nat), i ≤ 64 → q.toNat = m * 2 ^ i → r.toNat < d.toNat →
      n.toNat / 2 ^ i = m * d.toNat + r.toNat →
      divideLoop (ofBits n) (ofBits d) i (ofBits q) (ofBits r) =
        .ok (ofBits (n / d), ofBits (n % d))
  | 0, q, r, m, _, hq, hr, h => by
    rw [pow_zero, Nat.mul_one] at hq
    rw [pow_zero, Nat.div_one] at h
    have hdiv : n.toNat / d.toNat = m :=
      Nat.div_eq_of_lt_le (by omega) (by rw [Nat.succ_mul]; omega)
    have hmod : n.toNat % d.toNat = r.toNat := by
      rw [h, Nat.mul_comm, Nat.mul_add_mod, Nat.mod_eq_of_lt hr]
    rw [divideLoop]
    congr 3 <;> apply BitVec.eq_of_toNat_eq
    · rw [BitVec.toNat_udiv, hdiv, hq]
    · rw [BitVec.toNat_umod, hmod]
  | i + 1, q, r, m, hi, hq, hr, h => by
    obtain ⟨q', r', hstep, hqr⟩ := divideStep_eq n d q r (i := i) (by omega) (by omega)
    have hnext : n.toNat / 2 ^ i = 2 * (n.toNat / 2 ^ (i + 1)) + n.toNat / 2 ^ i % 2 := by
      rw [pow_succ, ← Nat.div_div_eq_div_mul]
      omega
    rw [divideLoop, hstep, ok_bind]
    split at hqr
    · refine divideLoop_eq n d hd i q' r' (2 * m + 1) (by omega) ?_ (by omega) ?_
      · rw [hqr.1, toNat_or_setBit (by omega) hq]
      · rw [hnext, h, Nat.add_mul, Nat.mul_add]
        have := hqr.2
        rw [Nat.mul_assoc]; omega
    · refine divideLoop_eq n d hd i q' r' (2 * m) (by omega) ?_ (by omega) ?_
      · rw [hqr.1, hq, pow_succ]; ring
      · rw [hnext, h, Nat.mul_add, Nat.mul_assoc]; omega

lemma hi_neg_iff (a : BitVec 64) : (ofBits a).hi < 0 ↔ a.msb = true := by
  have h := toInt_eq_high_low a
  have hlo := (a.extractLsb' 0 32).isLt
  rw [BitVec.msb_eq_toInt, decide_eq_true_eq, h, ofBits_hi]
  omega

lemma eq_zero_iff (b : BitVec 64) : ((ofBits b).hi = 0 ∧ (ofBits b).lo = 0) ↔ b = 0#64 := by
  have h := toInt_eq_high_low b
  have hlo := (b.extractLsb' 0 32).isLt
  rw [← BitVec.toInt_inj, h, ofBits_hi, ofBits_lo, BitVec.toInt_zero]
  omega

lemma toNat_magnitude_le (b : BitVec 64) : (if b.msb then -b else b).toNat ≤ 2 ^ 63 := by
  rw [BitVec.msb_eq_decide]
  split_ifs with h
  · rw [decide_eq_true_eq] at h
    rw [BitVec.toNat_neg]
    omega
  · rw [decide_eq_true_eq] at h
    omega

lemma magnitude_ne_zero {b : BitVec 64} (hb : b ≠ 0#64) : (if b.msb then -b else b) ≠ 0#64 := by
  split_ifs with h
  · exact fun h0 => hb (BitVec.neg_eq_zero_iff.mp h0)
  · exact hb

/-- The magnitude that the long division works on. -/
lemma magnitude_eq (a : BitVec 64) :
    magnitude (ofBits a) = .ok (ofBits (if a.msb then -a else a)) := by
  simp only [magnitude, hi_neg_iff, neg64_eq]
  split <;> rfl

lemma divideLong_eq (a b : BitVec 64) (hb : b ≠ 0#64) :
    divideLong (ofBits a) (ofBits b) =
      .ok (ofBits ((if a.msb then -a else a) / (if b.msb then -b else b)),
        ofBits ((if a.msb then -a else a) % (if b.msb then -b else b))) := by
  have hpos : 0 < (if b.msb then -b else b).toNat := by
    have := BitVec.toNat_ne.mp (magnitude_ne_zero hb)
    rw [BitVec.toNat_ofNat] at this
    omega
  have hzero : long 0 0 = ofBits 0#64 := rfl
  rw [divideLong, if_neg (by rwa [eq_zero_iff]), magnitude_eq, ok_bind,
    magnitude_eq, ok_bind, hzero]
  refine divideLoop_eq _ _ (toNat_magnitude_le b) 64 _ _ 0 le_rfl (by simp) (by simpa using hpos) ?_
  rw [Nat.div_eq_of_lt (BitVec.isLt _)]
  simp

lemma div64_eq (a b : BitVec 64) (hb : b ≠ 0#64) :
    div64 (ofBits a) (ofBits b) = .ok (ofBits (a.sdiv b)) := by
  rw [div64, divideLong_eq a b hb, ok_bind]
  simp only [hi_neg_iff, neg64_eq, BitVec.sdiv]
  cases a.msb <;> cases b.msb <;> rfl

lemma mod64_eq (a b : BitVec 64) (hb : b ≠ 0#64) :
    mod64 (ofBits a) (ofBits b) = .ok (ofBits (a.srem b)) := by
  rw [mod64, divideLong_eq a b hb, ok_bind]
  simp only [hi_neg_iff, neg64_eq, BitVec.srem]
  cases a.msb <;> cases b.msb <;> rfl

lemma div64_zero (a : BitVec 64) : div64 (ofBits a) (ofBits 0#64) = .error .divisionByZero := rfl

lemma mod64_zero (a : BitVec 64) : mod64 (ofBits a) (ofBits 0#64) = .error .divisionByZero := rfl

end ClassScript.SupportCode
