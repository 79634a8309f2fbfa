import ClassScript.Proofs.ModifiedText
import Mathlib.Data.List.Chain

/-!
Which bytes are a text, and which text they are.

The bytes of a text fall into groups of one, two or three, each of which stands for a unit of
16 bits; bytes that do not are refused. The units in turn fall into characters and into surrogates
that have lost their partner. Both divisions are given here without the functions that read them.
-/

namespace ClassScript

/-! ### Units into characters -/

namespace Utf16

/-- A part of a sequence of units: the units of a character, or a surrogate that stands alone. -/
inductive Part where
  | char (c : Char)
  | lone (u : UInt16) (h : isHigh u = true ∨ isLow u = true)

namespace Part

def units : Part → List UInt16
  | char c => Utf16.units c
  | lone u _ => [u]

def read : Part → Char
  | char c => c
  | lone _ _ => replacement

def Pairs : Part → Part → Prop
  | lone u _, lone v _ => isHigh u = true ∧ isLow v = true
  | _, _ => False

end Part

/-- The parts of a sequence of units: a surrogate stands alone only where it has no partner. -/
structure Parts (us : List UInt16) (ps : List Part) : Prop where
  units : us = ps.flatMap Part.units
  apart : ps.IsChain fun p q => ¬ p.Pairs q

lemma not_isLow_of_isHigh {u : UInt16} (h : isHigh u = true) : ¬ isLow u = true := by
  rw [isHigh_iff] at h
  rw [isLow_iff]
  omega

lemma decode_high {u : UInt16} (hu : isHigh u = true) {r : List UInt16}
    (hr : ∀ v ∈ r.head?, ¬ isLow v = true) : decode (u :: r) = replacement :: decode r := by
  cases r with
  | nil => simp [decode, hu]
  | cons v r =>
    have hv : ¬ isLow v = true := hr v rfl
    rw [decode, if_pos hu, if_neg hv]

lemma decode_low {u : UInt16} (hu : isLow u = true) (r : List UInt16) :
    decode (u :: r) = replacement :: decode r := by
  have hhigh : ¬ isHigh u = true := fun h => not_isLow_of_isHigh h hu
  cases r with
  | nil => simp [decode, hu]
  | cons v r => rw [decode, if_neg hhigh, if_pos hu]

/-- No character starts with a low surrogate. -/
lemma head_units (c : Char) : ∃ u r, units c = u :: r ∧ ¬ isLow u = true := by
  have hvalid : c.toNat < 0xd800 ∨ 0xdfff < c.toNat ∧ c.toNat < 0x110000 := c.valid
  unfold units
  split_ifs with hplane
  · have hu : (UInt16.ofNat c.toNat).toNat = c.toNat := UInt16.toNat_ofNat_of_lt' hplane
    refine ⟨_, _, rfl, ?_⟩
    rw [isLow_iff]
    omega
  · have hu : (UInt16.ofNat (0xd800 + (c.toNat - 0x10000) / 0x400)).toNat =
        0xd800 + (c.toNat - 0x10000) / 0x400 :=
          UInt16.toNat_ofNat_of_lt' (by change _ < 2 ^ 16; omega)
    refine ⟨_, _, rfl, ?_⟩
    rw [isLow_iff]
    omega

/-- A surrogate that stands alone and is high is not followed by a low one. -/
lemma not_isLow_head {u : UInt16} (hu : isHigh u = true) {hlone : isHigh u = true ∨ isLow u = true}
    {ps : List Part} (h : (Part.lone u hlone :: ps).IsChain fun p q => ¬ p.Pairs q) :
    ∀ v ∈ (ps.flatMap Part.units).head?, ¬ isLow v = true := by
  intro v hv hlow
  cases ps with
  | nil => cases hv
  | cons p ps =>
    have hapart := (List.isChain_cons_cons.mp h).1
    cases p with
    | char c =>
      obtain ⟨w, r, hw, hnot⟩ := head_units c
      rw [List.flatMap_cons, Part.units, hw] at hv
      cases hv
      exact hnot hlow
    | lone w hw =>
      cases hv
      exact hapart ⟨hu, hlow⟩

/-- The parts of a sequence are what it is read as. -/
lemma Parts.decode_eq {us : List UInt16} {ps : List Part} (h : Parts us ps) :
    decode us = ps.map Part.read := by
  obtain ⟨rfl, hapart⟩ := h
  induction ps with
  | nil => rfl
  | cons p ps ih =>
    have hrest := ih hapart.tail
    rw [List.flatMap_cons, List.map_cons, ← hrest]
    cases p with
    | char c => exact decode_units c _
    | lone u hlone =>
      rcases hlone with hu | hu
      · exact decode_high hu (not_isLow_head hu hapart)
      · exact decode_low hu _

lemma toNat_ofNat {n : Nat} (h : n.isValidChar) : (Char.ofNat n).toNat = n := by
  rw [Char.ofNat, dif_pos h]
  rfl

lemma units_ofNat {u : UInt16} (hhigh : ¬ isHigh u = true) (hlow : ¬ isLow u = true) :
    units (Char.ofNat u.toNat) = [u] := by
  have hlt := u.toNat_lt
  rw [isHigh_iff] at hhigh
  rw [isLow_iff] at hlow
  have hvalid : u.toNat.isValidChar := by
    unfold Nat.isValidChar
    omega
  have hchar : (Char.ofNat u.toNat).toNat = u.toNat := toNat_ofNat hvalid
  rw [units, hchar, if_pos hlt, UInt16.ofNat_toNat]

lemma units_pair {hi lo : UInt16} (hhigh : isHigh hi = true) (hlow : isLow lo = true) :
    units (pair hi lo) = [hi, lo] := by
  rw [isHigh_iff] at hhigh
  rw [isLow_iff] at hlow
  set n := 0x10000 + (hi.toNat - 0xd800) * 0x400 + (lo.toNat - 0xdc00) with hn
  have hvalid : n.isValidChar := by
    unfold Nat.isValidChar
    omega
  have hchar : (pair hi lo).toNat = n := toNat_ofNat hvalid
  have hhi : 0xd800 + (n - 0x10000) / 0x400 = hi.toNat := by omega
  have hlo : 0xdc00 + (n - 0x10000) % 0x400 = lo.toNat := by omega
  rw [units, hchar, if_neg (by omega)]
  dsimp only
  rw [hhi, hlo, UInt16.ofNat_toNat, UInt16.ofNat_toNat]

/-- One more part in front, unless it is a surrogate that finds its partner there. -/
lemma Parts.cons {us : List UInt16} {ps : List Part} (h : Parts us ps) {p : Part}
    (hp : ∀ q ∈ ps.head?, ¬ p.Pairs q) : Parts (p.units ++ us) (p :: ps) where
  units := by rw [List.flatMap_cons, ← h.units]
  apart := List.isChain_cons.mpr ⟨hp, h.apart⟩

lemma Parts.head {us : List UInt16} {ps : List Part} (h : Parts us ps) {u : UInt16}
    {hu : isHigh u = true ∨ isLow u = true} (hhead : .lone u hu ∈ ps.head?) :
    us.head? = some u := by
  obtain ⟨ps', rfl⟩ := List.head?_eq_some_iff.mp hhead
  rw [h.units]
  rfl

/-- A surrogate in front, where no partner follows. -/
lemma Parts.cons_lone {us : List UInt16} {ps : List Part} (h : Parts us ps) {u : UInt16}
    (hu : isHigh u = true ∨ isLow u = true)
    (hnext : isHigh u = true → ∀ v ∈ us.head?, ¬ isLow v = true) :
    Parts (u :: us) (.lone u hu :: ps) := by
  refine h.cons (p := .lone u hu) fun q hq hpairs => ?_
  cases q with
  | char c => exact hpairs
  | lone v hv => exact hnext hpairs.1 v (h.head hq) hpairs.2

/-- Every sequence of units has its parts. -/
lemma exists_parts (us : List UInt16) : ∃ ps, Parts us ps := by
  fun_induction decode us with
  | case1 => exact ⟨[], rfl, .nil⟩
  | case2 u hu =>
    rw [Bool.or_eq_true] at hu
    exact ⟨_, Parts.cons_lone ⟨rfl, .nil⟩ hu (by simp)⟩
  | case3 u hu =>
    simp only [Bool.or_eq_true, not_or] at hu
    refine ⟨[.char (.ofNat u.toNat)], ?_, .singleton _⟩
    simp [Part.units, units_ofNat hu.1 hu.2]
  | case4 u v r hhigh hlow ih =>
    obtain ⟨ps, hps⟩ := ih
    refine ⟨.char (pair u v) :: ps, ?_⟩
    have hcons := hps.cons (p := .char (pair u v)) fun _ _ h => h
    rwa [Part.units, units_pair hhigh hlow] at hcons
  | case5 u v r hhigh hlow ih =>
    obtain ⟨ps, hps⟩ := ih
    exact ⟨_, hps.cons_lone (.inl hhigh) fun _ => by simpa using hlow⟩
  | case6 u v r hhigh hlow ih =>
    obtain ⟨ps, hps⟩ := ih
    exact ⟨_, hps.cons_lone (.inr hlow) fun h => absurd h hhigh⟩
  | case7 u v r hhigh hlow ih =>
    obtain ⟨ps, hps⟩ := ih
    refine ⟨.char (.ofNat u.toNat) :: ps, ?_⟩
    have hcons := hps.cons (p := .char (.ofNat u.toNat)) fun _ _ h => h
    rwa [Part.units, units_ofNat hhigh hlow] at hcons

end Utf16

/-! ### Bytes into units -/

namespace ModifiedUtf8

/-- The bytes of one unit, by the bits that they hold: `0xxxxxxx` but not zero, `110xxxxx 10yyyyyy`
or `1110xxxx 10yyyyyy 10zzzzzz`. -/
inductive Group : Bytes → UInt16 → Prop
  | one {x : Nat} (hpos : 0 < x) (hx : x < 0x80) : Group [.ofNat x] (.ofNat x)
  | two {x y : Nat} (hx : x < 0x20) (hy : y < 0x40) :
    Group [.ofNat (0xc0 + x), .ofNat (0x80 + y)] (.ofNat (x * 0x40 + y))
  | three {x y z : Nat} (hx : x < 0x10) (hy : y < 0x40) (hz : z < 0x40) :
    Group [.ofNat (0xe0 + x), .ofNat (0x80 + y), .ofNat (0x80 + z)]
    (.ofNat (x * 0x1000 + y * 0x40 + z))

/-- Bytes that are a sequence of groups, and the units that these stand for. -/
inductive Groups : Bytes → List UInt16 → Prop
  | nil : Groups [] []
  | cons {g bs : Bytes} {u : UInt16} {us : List UInt16} (hg : Group g u) (h : Groups bs us) :
    Groups (g ++ bs) (u :: us)

lemma toNat_byte {n : Nat} (h : n < 256) : (UInt8.ofNat n).toNat = n := UInt8.toNat_ofNat_of_lt' h

lemma toNat_unit {n : Nat} (h : n < 65536) : (UInt16.ofNat n).toNat = n :=
  UInt16.toNat_ofNat_of_lt' h

lemma units_append_of_group {g : Bytes} {u : UInt16} (h : Group g u) (r : Bytes) :
    units (g ++ r) = (units r).map (u :: ·) := by
  cases h with
  | @one x hpos hx =>
    have hb : (UInt8.ofNat x).toNat = x := toNat_byte (by omega)
    have hunit : (UInt8.ofNat x).toUInt16 = .ofNat x :=
      UInt16.toNat_inj.mp (by rw [UInt8.toNat_toUInt16, hb, toNat_unit (by omega)])
    rw [List.singleton_append, units_one (by omega) (by omega), hunit]
  | @two x y hx hy =>
    have hb : (UInt8.ofNat (0xc0 + x)).toNat = 0xc0 + x := toNat_byte (by omega)
    have hc : (UInt8.ofNat (0x80 + y)).toNat = 0x80 + y := toNat_byte (by omega)
    have hunit : two (.ofNat (0xc0 + x)) (.ofNat (0x80 + y)) = .ofNat (x * 0x40 + y) :=
      UInt16.toNat_inj.mp (by rw [toNat_two, hb, hc, toNat_unit (by omega)]; omega)
    rw [List.cons_append, List.singleton_append, units_two (by omega) (by omega)
      (isTail_of_bounds _ (by omega) (by omega)), hunit]
  | @three x y z hx hy hz =>
    have hb : (UInt8.ofNat (0xe0 + x)).toNat = 0xe0 + x := toNat_byte (by omega)
    have hc : (UInt8.ofNat (0x80 + y)).toNat = 0x80 + y := toNat_byte (by omega)
    have hd : (UInt8.ofNat (0x80 + z)).toNat = 0x80 + z := toNat_byte (by omega)
    have hunit : three (.ofNat (0xe0 + x)) (.ofNat (0x80 + y)) (.ofNat (0x80 + z)) =
        .ofNat (x * 0x1000 + y * 0x40 + z) :=
      UInt16.toNat_inj.mp (by rw [toNat_three, hb, hc, hd, toNat_unit (by omega)]; omega)
    rw [List.cons_append, List.cons_append, List.singleton_append, units_three (by omega) (by omega)
      (isTail_of_bounds _ (by omega) (by omega)) (isTail_of_bounds _ (by omega) (by omega)), hunit]

lemma Groups.units_eq {bs : Bytes} {us : List UInt16} (h : Groups bs us) : units bs = some us := by
  induction h with
  | nil => rfl
  | cons hg _ ih => rw [units_append_of_group hg, ih, Option.map_some]

/-! Each test on a first byte tells how it starts. -/

lemma lt_of_lead_one : ∀ b : UInt8, (b &&& 0x80 == 0) = true → b.toNat < 0x80 :=
  of_forall_lt (by decide +kernel)

lemma bounds_of_lead_two :
    ∀ b : UInt8, (b &&& 0xe0 == 0xc0) = true → 0xc0 ≤ b.toNat ∧ b.toNat < 0xe0 :=
  of_forall_lt (by decide +kernel)

lemma bounds_of_lead_three :
    ∀ b : UInt8, (b &&& 0xf0 == 0xe0) = true → 0xe0 ≤ b.toNat ∧ b.toNat < 0xf0 :=
  of_forall_lt (by decide +kernel)

lemma bounds_of_isTail : ∀ b : UInt8, isTail b = true → 0x80 ≤ b.toNat ∧ b.toNat < 0xc0 :=
  of_forall_lt (by decide +kernel)

lemma eq_ofNat {b : UInt8} {n : Nat} (h : b.toNat = n) : b = .ofNat n := by
  rw [← h, UInt8.ofNat_toNat]

lemma group_one {b : UInt8} (hlead : (b &&& 0x80 == 0) = true) (hzero : ¬ (b == 0) = true) :
    Group [b] b.toUInt16 := by
  have hlt := lt_of_lead_one b hlead
  have hpos : b.toNat ≠ 0 := fun h => hzero (beq_iff_eq.mpr (UInt8.toNat_inj.mp h))
  have hgroup := Group.one (x := b.toNat) (by omega) hlt
  have hunit : b.toUInt16 = .ofNat b.toNat :=
    UInt16.toNat_inj.mp (by rw [UInt8.toNat_toUInt16, toNat_unit (by omega)])
  rwa [UInt8.ofNat_toNat, ← hunit] at hgroup

lemma group_two {b c : UInt8} (hlead : (b &&& 0xe0 == 0xc0) = true) (hc : isTail c = true) :
    Group [b, c] (two b c) := by
  have hb := bounds_of_lead_two b hlead
  have hc := bounds_of_isTail c hc
  have hgroup := Group.two (x := b.toNat - 0xc0) (y := c.toNat - 0x80) (by omega) (by omega)
  have hunit : two b c = .ofNat ((b.toNat - 0xc0) * 0x40 + (c.toNat - 0x80)) :=
    UInt16.toNat_inj.mp (by rw [toNat_two, toNat_unit (by omega)]; omega)
  rwa [← hunit, ← eq_ofNat (b := b) (by omega), ← eq_ofNat (b := c) (by omega)] at hgroup

lemma group_three {b c d : UInt8} (hlead : (b &&& 0xf0 == 0xe0) = true) (hc : isTail c = true)
    (hd : isTail d = true) : Group [b, c, d] (three b c d) := by
  have hb := bounds_of_lead_three b hlead
  have hc := bounds_of_isTail c hc
  have hd := bounds_of_isTail d hd
  have hgroup := Group.three (x := b.toNat - 0xe0) (y := c.toNat - 0x80) (z := d.toNat - 0x80)
    (by omega) (by omega) (by omega)
  have hunit : three b c d =
      .ofNat ((b.toNat - 0xe0) * 0x1000 + (c.toNat - 0x80) * 0x40 + (d.toNat - 0x80)) :=
    UInt16.toNat_inj.mp (by rw [toNat_three, toNat_unit (by omega)]; omega)
  rwa [← hunit, ← eq_ofNat (b := b) (by omega), ← eq_ofNat (b := c) (by omega),
    ← eq_ofNat (b := d) (by omega)] at hgroup

lemma groups_of_units {bs : Bytes} {us : List UInt16} (h : units bs = some us) : Groups bs us := by
  fun_induction units bs generalizing us with
  | case1 =>
    cases h
    exact .nil
  | case3 b r hlead hzero ih =>
    obtain ⟨vs, hvs, rfl⟩ := Option.map_eq_some_iff.mp h
    exact .cons (group_one hlead hzero) (ih hvs)
  | case4 b hone hlead c r hc ih =>
    obtain ⟨vs, hvs, rfl⟩ := Option.map_eq_some_iff.mp h
    exact .cons (group_two hlead hc) (ih hvs)
  | case7 b hone htwo hlead c d r htails ih =>
    obtain ⟨vs, hvs, rfl⟩ := Option.map_eq_some_iff.mp h
    rw [Bool.and_eq_true] at htails
    exact .cons (group_three hlead htails.1 htails.2) (ih hvs)
  | _ => cases h

/-- **Bytes are read as units exactly when they are the groups of these.** -/
lemma units_eq_some_iff {bs : Bytes} {us : List UInt16} : units bs = some us ↔ Groups bs us :=
  ⟨groups_of_units, Groups.units_eq⟩

/-! ### The bytes of a character -/

/-- The bytes of a character, by its number. Zero takes two bytes; a character above the first plane
takes those of its two surrogates. -/
def charBytes (c : Char) : Bytes :=
  let n := c.toNat
  if 0 < n ∧ n < 0x80 then [.ofNat n]
  else if n < 0x800 then [.ofNat (0xc0 + n / 0x40), .ofNat (0x80 + n % 0x40)]
  else if n < 0x10000 then
    [.ofNat (0xe0 + n / 0x1000), .ofNat (0x80 + n / 0x40 % 0x40), .ofNat (0x80 + n % 0x40)]
  else
    [0xed, .ofNat (0xa0 + (n / 0x10000 - 1)), .ofNat (0x80 + n / 0x400 % 0x40),
      0xed, .ofNat (0xb0 + n / 0x40 % 0x10), .ofNat (0x80 + n % 0x40)]

lemma group_of_lt {n : Nat} (hpos : 0 < n) (h : n < 0x80) : group (.ofNat n) = [.ofNat n] := by
  have hu : (UInt16.ofNat n).toNat = n := toNat_unit (by omega)
  have hne : UInt16.ofNat n ≠ 0 := fun h0 => by
    rw [h0] at hu
    change 0 = n at hu
    omega
  have hlt : UInt16.ofNat n < 0x80 := UInt16.lt_iff_toNat_lt.mpr (by rw [hu]; exact h)
  have hbyte : (UInt16.ofNat n).toUInt8.toNat = n := by
    rw [UInt16.toNat_toUInt8, hu]
    omega
  rw [group, if_pos ⟨hne, hlt⟩, eq_ofNat hbyte]

lemma group_of_lt_two {n : Nat} (hn : ¬ (0 < n ∧ n < 0x80)) (h : n < 0x800) :
    group (.ofNat n) = [.ofNat (0xc0 + n / 0x40), .ofNat (0x80 + n % 0x40)] := by
  have hu : (UInt16.ofNat n).toNat = n := toNat_unit (by omega)
  have hlead := toNat_lead_two (u := .ofNat n) (by omega)
  have htail := toNat_tail (.ofNat n)
  rw [hu] at hlead htail
  have hone : ¬ (UInt16.ofNat n ≠ 0 ∧ UInt16.ofNat n < 0x80) := by
    rintro ⟨hne, hlt⟩
    have hlt' : n < 0x80 := hu ▸ UInt16.lt_iff_toNat_lt.mp hlt
    have hpos : n ≠ 0 := by
      rintro rfl
      exact hne rfl
    omega
  have htwo : UInt16.ofNat n < 0x800 := UInt16.lt_iff_toNat_lt.mpr (by rw [hu]; exact h)
  rw [group, if_neg hone, if_pos htwo, eq_ofNat hlead, eq_ofNat htail]

lemma group_of_le {n : Nat} (h : 0x800 ≤ n) (hn : n < 0x10000) :
    group (.ofNat n) =
      [.ofNat (0xe0 + n / 0x1000), .ofNat (0x80 + n / 0x40 % 0x40), .ofNat (0x80 + n % 0x40)] := by
  have hu : (UInt16.ofNat n).toNat = n := toNat_unit hn
  have hshift : (UInt16.ofNat n >>> 6).toNat = (UInt16.ofNat n).toNat / 64 :=
    toNat_shiftRight _ (by decide)
  have hlead := toNat_lead_three (.ofNat n)
  have htail := toNat_tail (UInt16.ofNat n >>> 6)
  have htail' := toNat_tail (.ofNat n)
  rw [hu] at hlead htail' hshift
  rw [hshift] at htail
  have hone : ¬ (UInt16.ofNat n ≠ 0 ∧ UInt16.ofNat n < 0x80) := by
    rintro ⟨-, hlt⟩
    have hlt' : n < 0x80 := hu ▸ UInt16.lt_iff_toNat_lt.mp hlt
    omega
  have htwo : ¬ UInt16.ofNat n < 0x800 := by
    intro hlt
    have hlt' : n < 0x800 := hu ▸ UInt16.lt_iff_toNat_lt.mp hlt
    omega
  rw [group, if_neg hone, if_neg htwo, eq_ofNat hlead, eq_ofNat htail, eq_ofNat htail']

lemma flatMap_group_units (c : Char) : (Utf16.units c).flatMap group = charBytes c := by
  have hvalid : c.toNat < 0xd800 ∨ 0xdfff < c.toNat ∧ c.toNat < 0x110000 := c.valid
  simp only [Utf16.units, charBytes]
  split_ifs with hplane hone htwo htwo
  · simp [group_of_lt hone.1 hone.2]
  · simp [group_of_lt_two hone htwo]
  · simp [group_of_le (by omega) hplane]
  · omega
  · omega
  · -- surrogates lie between 0xd800 and 0xdfff: each is a group of three that starts with 0xed
    set n := c.toNat with hn
    have hhi := group_of_le (n := 0xd800 + (n - 0x10000) / 0x400) (by omega) (by omega)
    have hlo := group_of_le (n := 0xdc00 + (n - 0x10000) % 0x400) (by omega) (by omega)
    have h1 : 0xe0 + (0xd800 + (n - 0x10000) / 0x400) / 0x1000 = 0xed := by omega
    have h2 : 0x80 + (0xd800 + (n - 0x10000) / 0x400) / 0x40 % 0x40 = 0xa0 + (n / 0x10000 - 1) := by
      omega
    have h3 : 0x80 + (0xd800 + (n - 0x10000) / 0x400) % 0x40 = 0x80 + n / 0x400 % 0x40 := by omega
    have h4 : 0xe0 + (0xdc00 + (n - 0x10000) % 0x400) / 0x1000 = 0xed := by omega
    have h5 : 0x80 + (0xdc00 + (n - 0x10000) % 0x400) / 0x40 % 0x40 = 0xb0 + n / 0x40 % 0x10 := by
      omega
    have h6 : 0x80 + (0xdc00 + (n - 0x10000) % 0x400) % 0x40 = 0x80 + n % 0x40 := by omega
    rw [h1, h2, h3] at hhi
    rw [h4, h5, h6] at hlo
    simp only [List.flatMap_cons, List.flatMap_nil, hhi, hlo]
    rfl

lemma encode_eq (s : String) : encode s = s.toList.flatMap charBytes := by
  rw [encode, List.flatMap_assoc]
  exact congrArg s.toList.flatMap (funext flatMap_group_units)

/-- **Texts are read exactly.** The bytes of a string, character by character, are read as that
string. Bytes are refused exactly when they are not a sequence of groups, and else they are read as
the characters of the units that their groups stand for, each surrogate without a partner as the
replacement character. -/
theorem texts_read_exactly :
    (∀ s : String, encode s = s.toList.flatMap charBytes ∧ decode (encode s) = some s) ∧
    ∀ bs : Bytes, (decode bs = none ↔ ¬ ∃ us, Groups bs us) ∧
      ∀ s, decode bs = some s ↔
        ∃ us ps, Groups bs us ∧ Utf16.Parts us ps ∧ s = String.ofList (ps.map Utf16.Part.read) := by
  refine ⟨fun s => ⟨encode_eq s, decode_encode s⟩, fun bs => ⟨?_, fun s => ⟨fun h => ?_, ?_⟩⟩⟩
  · simp only [decode, Option.map_eq_none_iff, ← units_eq_some_iff]
    rw [Option.eq_none_iff_forall_ne_some, not_exists]
  · obtain ⟨us, hus, rfl⟩ := Option.map_eq_some_iff.mp h
    obtain ⟨ps, hps⟩ := Utf16.exists_parts us
    exact ⟨us, ps, units_eq_some_iff.mp hus, hps, congrArg String.ofList hps.decode_eq⟩
  · rintro ⟨us, ps, hgroups, hps, rfl⟩
    rw [decode, hgroups.units_eq, Option.map_some, Function.comp_apply, hps.decode_eq]

end ModifiedUtf8

end ClassScript
