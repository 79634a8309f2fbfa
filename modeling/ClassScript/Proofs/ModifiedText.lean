import ClassScript.Text.ModifiedUtf8
import Mathlib.Algebra.Group.Nat.Defs
import Mathlib.Tactic.Lemma
import Mathlib.Tactic.SplitIfs

/-!
Texts of class files are read back.

A character is one or two units, and a unit is a group of one, two or three bytes whose first
byte tells how many there are. Neither step loses anything, since no character is a surrogate.
-/

namespace ClassScript

namespace Utf16

lemma isHigh_iff {u : UInt16} : isHigh u = true ↔ 0xd800 ≤ u.toNat ∧ u.toNat ≤ 0xdbff := by
  simp [isHigh, UInt16.le_iff_toNat_le]

lemma isLow_iff {u : UInt16} : isLow u = true ↔ 0xdc00 ≤ u.toNat ∧ u.toNat ≤ 0xdfff := by
  simp [isLow, UInt16.le_iff_toNat_le]

/-- A unit that is no surrogate is a character by itself. -/
lemma decode_plain {u : UInt16} (hhigh : ¬ isHigh u = true) (hlow : ¬ isLow u = true)
    (r : List UInt16) : decode (u :: r) = Char.ofNat u.toNat :: decode r := by
  cases r with
  | nil => simp [decode, hhigh, hlow]
  | cons v r => rw [decode, if_neg hhigh, if_neg hlow]

lemma decode_pair {hi lo : UInt16} (hhigh : isHigh hi = true) (hlow : isLow lo = true)
    (r : List UInt16) : decode (hi :: lo :: r) = pair hi lo :: decode r := by
  rw [decode, if_pos hhigh, if_pos hlow]

lemma decode_units (c : Char) (r : List UInt16) : decode (units c ++ r) = c :: decode r := by
  have hvalid : c.toNat < 0xd800 ∨ 0xdfff < c.toNat ∧ c.toNat < 0x110000 := c.valid
  rw [units]
  split_ifs with hplane
  · have hu : (UInt16.ofNat c.toNat).toNat = c.toNat := UInt16.toNat_ofNat_of_lt' hplane
    have hhigh : ¬ isHigh (.ofNat c.toNat) = true := by rw [isHigh_iff]; omega
    have hlow : ¬ isLow (.ofNat c.toNat) = true := by rw [isLow_iff]; omega
    rw [List.singleton_append, decode_plain hhigh hlow, hu, Char.ofNat_toNat]
  · have hhi : (UInt16.ofNat (0xd800 + (c.toNat - 0x10000) / 0x400)).toNat =
        0xd800 + (c.toNat - 0x10000) / 0x400 :=
          UInt16.toNat_ofNat_of_lt' (by change _ < 2 ^ 16; omega)
    have hlo : (UInt16.ofNat (0xdc00 + (c.toNat - 0x10000) % 0x400)).toNat =
        0xdc00 + (c.toNat - 0x10000) % 0x400 :=
          UInt16.toNat_ofNat_of_lt' (by change _ < 2 ^ 16; omega)
    have hsum : 0x10000 + (0xd800 + (c.toNat - 0x10000) / 0x400 - 0xd800) * 0x400 +
        (0xdc00 + (c.toNat - 0x10000) % 0x400 - 0xdc00) = c.toNat := by omega
    dsimp only
    rw [List.cons_append, List.singleton_append, decode_pair, pair, hhi, hlo, hsum,
      Char.ofNat_toNat]
    · rw [isHigh_iff]; omega
    · rw [isLow_iff]; omega

lemma decode_flatMap_units (cs : List Char) : decode (cs.flatMap units) = cs := by
  induction cs with
  | nil => rfl
  | cons c cs ih => rw [List.flatMap_cons, decode_units, ih]

end Utf16

namespace ModifiedUtf8

/-! ### Groups by the numbers of their bytes -/

/-- What holds of each of the numbers of bytes holds of each byte. -/
lemma of_forall_lt {p : UInt8 → Prop} (h : ∀ n < 256, p (.ofNat n)) (b : UInt8) : p b := by
  have hb := h b.toNat b.toNat_lt
  rwa [UInt8.ofNat_toNat] at hb

lemma lead_one : ∀ b : UInt8, 0 < b.toNat → b.toNat < 0x80 →
    (b &&& 0x80 == 0) = true ∧ (b == 0) = false :=
  of_forall_lt (by decide +kernel)

lemma lead_two : ∀ b : UInt8, 0xc0 ≤ b.toNat → b.toNat < 0xe0 →
    (b &&& 0x80 == 0) = false ∧ (b &&& 0xe0 == 0xc0) = true :=
  of_forall_lt (by decide +kernel)

lemma lead_three : ∀ b : UInt8, 0xe0 ≤ b.toNat → b.toNat < 0xf0 →
    (b &&& 0x80 == 0) = false ∧ (b &&& 0xe0 == 0xc0) = false ∧ (b &&& 0xf0 == 0xe0) = true :=
  of_forall_lt (by decide +kernel)

lemma isTail_of_bounds : ∀ b : UInt8, 0x80 ≤ b.toNat → b.toNat < 0xc0 → isTail b = true :=
  of_forall_lt (by decide +kernel)

lemma units_one {b : UInt8} (h : 0 < b.toNat) (h' : b.toNat < 0x80) (r : Bytes) :
    units (b :: r) = (units r).map (b.toUInt16 :: ·) := by
  obtain ⟨hlead, hzero⟩ := lead_one b h h'
  rw [units.eq_def]
  simp [hlead, hzero]

lemma units_two {b c : UInt8} (hb : 0xc0 ≤ b.toNat) (hb' : b.toNat < 0xe0) (hc : isTail c = true)
    (r : Bytes) : units (b :: c :: r) = (units r).map (two b c :: ·) := by
  obtain ⟨hone, htwo⟩ := lead_two b hb hb'
  rw [units.eq_def]
  simp [hone, htwo, hc]

lemma units_three {b c d : UInt8} (hb : 0xe0 ≤ b.toNat) (hb' : b.toNat < 0xf0)
    (hc : isTail c = true) (hd : isTail d = true) (r : Bytes) :
    units (b :: c :: d :: r) = (units r).map (three b c d :: ·) := by
  obtain ⟨hone, htwo, hthree⟩ := lead_three b hb hb'
  rw [units.eq_def]
  simp [hone, htwo, hthree, hc, hd]

/-! ### The bits of a unit -/

/-- Bits that do not meet add up. -/
lemma or_eq_add {n k : Nat} (h : n < 2 ^ k) (m : Nat) : n ||| m * 2 ^ k = m * 2 ^ k + n := by
  rw [← Nat.shiftLeft_eq, Nat.shiftLeft_add_eq_or_of_lt h, Nat.or_comm]

lemma toNat_two (b c : UInt8) : (two b c).toNat = b.toNat % 32 * 64 + c.toNat % 64 := by
  have hb : b.toNat &&& 31 = b.toNat % 32 := Nat.and_two_pow_sub_one_eq_mod b.toNat 5
  have hc : c.toNat &&& 63 = c.toNat % 64 := Nat.and_two_pow_sub_one_eq_mod c.toNat 6
  have hlt : b.toNat % 32 * 64 < 2 ^ 16 := by omega
  have hor := or_eq_add (n := c.toNat % 64) (k := 6) (Nat.mod_lt _ (by decide)) (b.toNat % 32)
  simp only [two, UInt16.toNat_or, UInt16.toNat_shiftLeft, UInt8.toNat_toUInt16, UInt8.toNat_and,
    Nat.shiftLeft_eq]
  change (b.toNat &&& 31) * 64 % 2 ^ 16 ||| (c.toNat &&& 63) = _
  rw [hb, hc, Nat.mod_eq_of_lt hlt, Nat.or_comm]
  exact hor

lemma toNat_three (b c d : UInt8) :
    (three b c d).toNat = b.toNat % 16 * 4096 + c.toNat % 64 * 64 + d.toNat % 64 := by
  have hb : b.toNat &&& 15 = b.toNat % 16 := Nat.and_two_pow_sub_one_eq_mod b.toNat 4
  have hc : c.toNat &&& 63 = c.toNat % 64 := Nat.and_two_pow_sub_one_eq_mod c.toNat 6
  have hd : d.toNat &&& 63 = d.toNat % 64 := Nat.and_two_pow_sub_one_eq_mod d.toNat 6
  have hltb : b.toNat % 16 * 4096 < 2 ^ 16 := by omega
  have hltc : c.toNat % 64 * 64 < 2 ^ 16 := by omega
  have hhigh := or_eq_add (n := c.toNat % 64 * 64) (k := 12) (by omega) (b.toNat % 16)
  have hlow := or_eq_add (n := d.toNat % 64) (k := 6) (Nat.mod_lt _ (by decide))
    (b.toNat % 16 * 64 + c.toNat % 64)
  simp only [three, UInt16.toNat_or, UInt16.toNat_shiftLeft, UInt8.toNat_toUInt16, UInt8.toNat_and,
    Nat.shiftLeft_eq]
  change (b.toNat &&& 15) * 4096 % 2 ^ 16 ||| (c.toNat &&& 63) * 64 % 2 ^ 16 |||
    (d.toNat &&& 63) = _
  rw [hb, hc, hd, Nat.mod_eq_of_lt hltb, Nat.mod_eq_of_lt hltc, Nat.or_comm (b.toNat % 16 * 4096)]
  change c.toNat % 64 * 64 ||| b.toNat % 16 * 2 ^ 12 ||| d.toNat % 64 = _
  rw [hhigh, Nat.or_comm]
  have hsum : b.toNat % 16 * 2 ^ 12 + c.toNat % 64 * 64 =
      (b.toNat % 16 * 64 + c.toNat % 64) * 2 ^ 6 := by
    omega
  rw [hsum]
  exact hlow.trans (by omega)

lemma toNat_tail (u : UInt16) : (tail u).toNat = 0x80 + u.toNat % 64 := by
  have hu : u.toNat &&& 63 = u.toNat % 64 := Nat.and_two_pow_sub_one_eq_mod u.toNat 6
  have hor := or_eq_add (n := u.toNat % 64) (k := 6) (Nat.mod_lt _ (by decide)) 2
  have hlt : u.toNat % 64 < 2 ^ 8 := by omega
  simp only [tail, UInt8.toNat_or, UInt16.toNat_toUInt8, UInt16.toNat_and]
  change (u.toNat &&& 63) % 2 ^ 8 ||| 2 * 2 ^ 6 = _
  rw [hu, Nat.mod_eq_of_lt hlt]
  exact hor.trans (by omega)

lemma isTail_tail (u : UInt16) : isTail (tail u) = true := by
  have htail := toNat_tail u
  exact isTail_of_bounds _ (by omega) (by omega)

lemma toNat_shiftRight (u : UInt16) {k : UInt16} (hk : k.toNat < 16) :
    (u >>> k).toNat = u.toNat / 2 ^ k.toNat := by
  rw [UInt16.toNat_shiftRight, Nat.mod_eq_of_lt hk, Nat.shiftRight_eq_div_pow]

/-- The first byte of a group of two or three. -/
lemma toNat_lead {u : UInt16} {k m : Nat} (h : u.toNat < 2 ^ k) (hk : k ≤ 8)
    (hm : m * 2 ^ k < 256) :
    (u.toUInt8 ||| .ofNat (m * 2 ^ k)).toNat = m * 2 ^ k + u.toNat := by
  have hlt : u.toNat < 256 := Nat.lt_of_lt_of_le h (Nat.pow_le_pow_right (by decide) hk)
  rw [UInt8.toNat_or, UInt16.toNat_toUInt8, UInt8.toNat_ofNat_of_lt' hm, Nat.mod_eq_of_lt hlt,
    or_eq_add h]

lemma toNat_lead_two {u : UInt16} (hu : u.toNat < 0x800) :
    ((u >>> 6).toUInt8 ||| 0xc0).toNat = 0xc0 + u.toNat / 64 := by
  have hshift : (u >>> 6).toNat = u.toNat / 64 := toNat_shiftRight u (by decide)
  rw [← hshift]
  exact toNat_lead (k := 5) (m := 6) (by omega) (by decide) (by decide)

lemma toNat_lead_three (u : UInt16) :
    ((u >>> 12).toUInt8 ||| 0xe0).toNat = 0xe0 + u.toNat / 4096 := by
  have hlt := u.toNat_lt
  have hshift : (u >>> 12).toNat = u.toNat / 4096 := toNat_shiftRight u (by decide)
  rw [← hshift]
  exact toNat_lead (k := 4) (m := 14) (by omega) (by decide) (by decide)

/-! ### Reading back -/

/-- The group of a unit is read as this unit. -/
lemma units_group (u : UInt16) (r : Bytes) : units (group u ++ r) = (units r).map (u :: ·) := by
  have hlt := u.toNat_lt
  rw [group]
  split_ifs with hone htwo
  · obtain ⟨hne, hu⟩ := hone
    have hu' : u.toNat < 0x80 := by simpa [UInt16.lt_iff_toNat_lt] using hu
    have hpos : u.toNat ≠ 0 := fun h => hne (UInt16.toNat_inj.mp h)
    have hbyte : u.toUInt8.toNat = u.toNat := by
      rw [UInt16.toNat_toUInt8]
      omega
    have hunit : u.toUInt8.toUInt16 = u := UInt16.toNat_inj.mp (by rw [UInt8.toNat_toUInt16, hbyte])
    rw [List.singleton_append, units_one (by omega) (by omega), hunit]
  · have hu : u.toNat < 0x800 := by simpa [UInt16.lt_iff_toNat_lt] using htwo
    have hlead := toNat_lead_two hu
    have hunit : two ((u >>> 6).toUInt8 ||| 0xc0) (tail u) = u :=
      UInt16.toNat_inj.mp (by rw [toNat_two, hlead, toNat_tail]; omega)
    rw [List.cons_append, List.singleton_append,
      units_two (by omega) (by omega) (isTail_tail u), hunit]
  · have hshift : (u >>> 6).toNat = u.toNat / 64 := toNat_shiftRight u (by decide)
    have hlead := toNat_lead_three u
    have hunit : three ((u >>> 12).toUInt8 ||| 0xe0) (tail (u >>> 6)) (tail u) = u :=
      UInt16.toNat_inj.mp (by rw [toNat_three, hlead, toNat_tail, toNat_tail, hshift]; omega)
    rw [List.cons_append, List.cons_append, List.singleton_append,
      units_three (by omega) (by omega) (isTail_tail _) (isTail_tail u), hunit]

lemma units_flatMap_group (us : List UInt16) : units (us.flatMap group) = some us := by
  induction us with
  | nil => rfl
  | cons u us ih => rw [List.flatMap_cons, units_group, ih, Option.map_some]

/-- **A text is read back from its bytes.** -/
lemma decode_encode (s : String) : decode (encode s) = some s := by
  rw [decode, encode, units_flatMap_group, Option.map_some, Function.comp_apply,
    Utf16.decode_flatMap_units, String.ofList_toList]

end ModifiedUtf8

end ClassScript
