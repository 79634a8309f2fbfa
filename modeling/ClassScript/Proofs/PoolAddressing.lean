import ClassScript.ClassFile.Pool
import ClassScript.Proofs.Framing
import Mathlib.Tactic.SplitIfs

/-!
Where the entries of a constant pool stand.

An entry stands at the slot that follows those of the entries before it, counted from one; a wide
entry leaves the slot after its own unusable. A pool that was read has the slots that its count
says, every index of two bytes is answered by these rules, and indices in entries are followed to
where they lead.
-/

namespace ClassScript

open Reader (many)

/-- A sequence that succeeds does so step by step. -/
lemma Except.bind_eq_ok {ε α β : Type} {x : Except ε α} {k : α → Except ε β} {b : β} :
    x >>= k = .ok b ↔ ∃ a, x = .ok a ∧ k a = .ok b := by
  cases x with
  | error e =>
    constructor
    · rintro ⟨⟩
    · rintro ⟨_, ⟨⟩, _⟩
  | ok a =>
    constructor
    · exact fun h => ⟨a, rfl, h⟩
    · rintro ⟨_, ⟨⟩, h⟩
      exact h

/-! ### Slots -/

namespace Constant

def extent (es : List Constant) : Nat := (es.map width).sum

@[simp] lemma extent_nil : extent [] = 0 := rfl

@[simp] lemma extent_cons (c : Constant) (es : List Constant) :
    extent (c :: es) = c.width + extent es := by
  simp [extent]

@[simp] lemma extent_append (es es' : List Constant) :
    extent (es ++ es') = extent es + extent es' := by
  simp [extent]

lemma width_pos (c : Constant) : 0 < c.width := by
  rw [width]
  split_ifs <;> omega

/-- The entry at a slot: slots count from one, and each entry before it takes its width. -/
def StandsAt (es : List Constant) (slot : Nat) (c : Constant) : Prop :=
  ∃ before after, es = before ++ c :: after ∧ slot = 1 + extent before

lemma StandsAt.lt {es : List Constant} {slot : Nat} {c : Constant} (h : StandsAt es slot c) :
    0 < slot ∧ slot + c.width ≤ 1 + extent es := by
  obtain ⟨before, after, rfl, rfl⟩ := h
  simp only [extent_append, extent_cons]
  omega

lemma StandsAt.tail {es : List Constant} {slot : Nat} {c : Constant} (h : StandsAt es slot c)
    (e : Constant) :
    StandsAt (e :: es) (e.width + slot) c := by
  obtain ⟨before, after, rfl, rfl⟩ := h
  exact ⟨e :: before, after, rfl, by rw [extent_cons]; omega⟩

/-- Every slot but the first is that of an entry, or stands right after a wide one. -/
lemma slot_cases (es : List Constant) (slot : Nat) (hpos : 0 < slot) (hlt : slot ≤ extent es) :
    (∃ c, StandsAt es slot c) ∨ ∃ c, c.isWide ∧ StandsAt es (slot - 1) c := by
  induction es generalizing slot with
  | nil =>
    rw [extent_nil] at hlt
    omega
  | cons e es ih =>
    rw [extent_cons] at hlt
    by_cases hhead : slot = 1
    · exact .inl ⟨e, [], es, rfl, hhead⟩
    · by_cases hlater : e.width < slot
      · rcases ih (slot - e.width) (by omega) (by omega) with ⟨c, hc⟩ | ⟨c, hwide, hc⟩
        · refine .inl ⟨c, ?_⟩
          have htail := hc.tail e
          rwa [Nat.add_sub_cancel' (by omega)] at htail
        · refine .inr ⟨c, hwide, ?_⟩
          have hone := hc.lt.1
          have htail := hc.tail e
          rwa [show e.width + (slot - e.width - 1) = slot - 1 by omega] at htail
      · -- the second slot of the first entry
        have hwide : e.isWide = true := by
          by_contra hnarrow
          rw [width, if_neg hnarrow] at hlater
          omega
        rw [width, if_pos hwide] at hlater
        exact .inr ⟨e, hwide, [], es, rfl, by rw [extent_nil]; omega⟩

end Constant

open Constant (extent StandsAt)

namespace ConstantPool

variable {es : List Constant} {c : Constant} {slot : Nat} {i : UInt16}

lemma length_slotsOf (c : Constant) : (slotsOf c).length = c.width := by
  rw [slotsOf, Constant.width]
  split_ifs <;> rfl

lemma length_flatMap_slotsOf (es : List Constant) : (es.flatMap slotsOf).length = extent es := by
  induction es with
  | nil => rfl
  | cons e es ih =>
    rw [List.flatMap_cons, List.length_append, length_slotsOf, ih, Constant.extent_cons]

lemma size_ofEntries (es : List Constant) : (ofEntries es).size = 1 + extent es := by
  rw [size, ofEntries, List.size_toArray, List.length_cons, length_flatMap_slotsOf, Nat.add_comm]

/-- The slots of the entries follow slot zero. -/
lemma slots_ofEntries_succ (es : List Constant) (n : Nat) :
    (ofEntries es).slots[1 + n]? = (es.flatMap slotsOf)[n]? := by
  rw [ofEntries, List.getElem?_toArray, Nat.add_comm, List.getElem?_cons_succ]

lemma slots_after (before after : List Constant) (c : Constant) (n : Nat) (hn : n < c.width) :
    (ofEntries (before ++ c :: after)).slots[1 + extent before + n]? = (slotsOf c)[n]? := by
  rw [Nat.add_assoc, slots_ofEntries_succ, List.flatMap_append, List.flatMap_cons,
    List.getElem?_append_right (by rw [length_flatMap_slotsOf]; omega), length_flatMap_slotsOf,
    Nat.add_sub_cancel_left, List.getElem?_append_left (by rwa [length_slotsOf])]

lemma get_of_standsAt (h : StandsAt es i.toNat c) : (ofEntries es).get i = .ok c := by
  obtain ⟨before, after, rfl, hi⟩ := h
  have hslot := slots_after before after c 0 c.width_pos
  have hfirst : (slotsOf c)[0]? = some (some c) := by
    rw [slotsOf]
    split_ifs <;> rfl
  rw [get, hi, ← Nat.add_zero (1 + _), hslot, hfirst]

lemma get_after_wide (h : StandsAt es slot c) (hwide : c.isWide = true) (hi : i.toNat = slot + 1) :
    (ofEntries es).get i = .error (.unusable i) := by
  obtain ⟨before, after, rfl, rfl⟩ := h
  have hslot := slots_after before after c 1 (by rw [Constant.width, if_pos hwide]; omega)
  have hsecond : (slotsOf c)[1]? = some none := by rw [slotsOf, if_pos hwide]; rfl
  rw [get, hi, hslot, hsecond]

lemma get_zero (es : List Constant) : (ofEntries es).get 0 = .error (.unusable 0) := rfl

lemma get_outOfRange {p : ConstantPool} (h : p.size ≤ i.toNat) :
    p.get i = .error (.outOfRange i) := by
  rw [get, Array.getElem?_eq_none h]

/-- How an index is answered: it is too large, it is zero or follows a wide entry, or an entry
stands there. -/
lemma get_cases (es : List Constant) (i : UInt16) :
    1 + extent es ≤ i.toNat ∧ (ofEntries es).get i = .error (.outOfRange i) ∨
    (i = 0 ∨ ∃ slot c, StandsAt es slot c ∧ c.isWide ∧ i.toNat = slot + 1) ∧
      (ofEntries es).get i = .error (.unusable i) ∨
    ∃ c, StandsAt es i.toNat c ∧ (ofEntries es).get i = .ok c := by
  by_cases hlarge : 1 + extent es ≤ i.toNat
  · exact .inl ⟨hlarge, get_outOfRange (by rwa [size_ofEntries])⟩
  · by_cases hzero : i = 0
    · subst hzero
      exact .inr (.inl ⟨.inl rfl, get_zero es⟩)
    · have hpos : 0 < i.toNat := Nat.pos_of_ne_zero fun h => hzero (UInt16.toNat_inj.mp h)
      rcases Constant.slot_cases es i.toNat hpos (by omega) with ⟨c, hc⟩ | ⟨c, hwide, hc⟩
      · exact .inr (.inr ⟨c, hc, get_of_standsAt hc⟩)
      · have hi : i.toNat = i.toNat - 1 + 1 := by omega
        exact .inr (.inl ⟨.inr ⟨_, c, hc, hwide, hi⟩, get_after_wide hc hwide hi⟩)

/-! ### The list of entries with their indices -/

variable {p : ConstantPool}

lemma mem_toList_iff (hsize : p.size ≤ UInt16.size) : (i, c) ∈ p.toList ↔ p.get i = .ok c := by
  have hget : p.get i = .ok c ↔ p.slots[i.toNat]? = some (some c) := by
    rw [get]
    split <;> simp_all
  rw [hget, toList, List.mem_filterMap]
  constructor
  · rintro ⟨⟨slot, n⟩, hmem, hslot⟩
    obtain ⟨c', rfl, heq⟩ := Option.map_eq_some_iff.mp hslot
    cases heq
    have hn : p.slots[n]? = some (some c) := by
      rw [← Array.getElem?_toList]
      exact List.mem_zipIdx_iff_getElem?.mp hmem
    have hlt : n < p.size := (Array.getElem?_eq_some_iff.mp hn).1
    rwa [UInt16.toNat_ofNat_of_lt' (by omega)]
  · intro h
    refine ⟨(some c, i.toNat), ?_, by simp⟩
    rw [List.mem_zipIdx_iff_getElem?, Array.getElem?_toList]
    exact h

lemma pairwise_toList (hsize : p.size ≤ UInt16.size) :
    (p.toList.map Prod.fst).Pairwise (· < ·) := by
  rw [List.pairwise_map, toList, List.pairwise_filterMap]
  have hindices : p.slots.toList.zipIdx.Pairwise fun x y => x.2 < y.2 := by
    rw [← List.pairwise_map, List.zipIdx_map_snd]
    exact List.pairwise_lt_range'
  refine hindices.imp_of_mem ?_
  rintro ⟨slot, m⟩ ⟨slot', n⟩ - hmem hlt x hx y hy
  obtain ⟨c, -, rfl⟩ := Option.map_eq_some_iff.mp hx
  obtain ⟨c', -, rfl⟩ := Option.map_eq_some_iff.mp hy
  have hn : n < p.size := by
    have hslot := List.mem_zipIdx_iff_getElem?.mp hmem
    exact (List.getElem?_eq_some_iff.mp hslot).1
  rw [UInt16.lt_iff_toNat_lt, UInt16.toNat_ofNat_of_lt' (by omega),
    UInt16.toNat_ofNat_of_lt' (by omega)]
  exact hlt

/-! ### Indices that are followed -/

def ClassAt (p : ConstantPool) (i : UInt16) (name : String) : Prop :=
  ∃ n, p.get i = .ok (.classRef n) ∧ p.get n = .ok (.utf8 name)

def NameAndTypeAt (p : ConstantPool) (i : UInt16) (name descriptor : String) : Prop :=
  ∃ n d, p.get i = .ok (.nameAndType n d) ∧ p.get n = .ok (.utf8 name) ∧ p.get d =
    .ok (.utf8 descriptor)

/-- The index leads to one of the three entries for members, and that to a class and to a name
and a type. -/
def MemberAt (p : ConstantPool) (i : UInt16) (m : MemberRef) : Prop :=
  ∃ o nt, (p.get i = .ok (.fieldRef o nt) ∨ p.get i = .ok (.methodRef o nt) ∨
      p.get i = .ok (.interfaceMethodRef o nt)) ∧
    p.ClassAt o m.owner ∧ p.NameAndTypeAt nt m.name m.descriptor

/-- The index leads to a number, or over one more index to a text. -/
inductive LoadableAt (p : ConstantPool) (i : UInt16) : Loadable → Prop
  | int {v : Int32} (h : p.get i = .ok (.integer v)) : LoadableAt p i (.int v)
  | float {v : Binary32} (h : p.get i = .ok (.float v)) : LoadableAt p i (.float v)
  | long {v : Int64} (h : p.get i = .ok (.long v)) : LoadableAt p i (.long v)
  | double {v : Binary64} (h : p.get i = .ok (.double v)) : LoadableAt p i (.double v)
  | string {n : UInt16} {s : String} (h : p.get i = .ok (.string n))
      (hs : p.get n = .ok (.utf8 s)) :
    LoadableAt p i (.string s)
  | classRef {n : UInt16} {s : String} (h : p.get i = .ok (.classRef n))
      (hs : p.get n = .ok (.utf8 s)) :
    LoadableAt p i (.classRef s)

lemma utf8_eq_ok {s : String} : p.utf8 i = .ok s ↔ p.get i = .ok (.utf8 s) := by
  rw [utf8, Except.bind_eq_ok]
  constructor
  · rintro ⟨c, hget, hc⟩
    cases c <;> cases hc
    exact hget
  · exact fun h => ⟨_, h, rfl⟩

lemma className_eq_ok {name : String} : p.className i = .ok name ↔ p.ClassAt i name := by
  rw [className, Except.bind_eq_ok]
  constructor
  · rintro ⟨c, hget, hc⟩
    cases c with
    | classRef n => exact ⟨n, hget, utf8_eq_ok.mp hc⟩
    | _ => cases hc
  · rintro ⟨n, hget, hname⟩
    exact ⟨_, hget, utf8_eq_ok.mpr hname⟩

lemma nameAndType_eq_ok {name descriptor : String} :
    p.nameAndType i = .ok (name, descriptor) ↔ p.NameAndTypeAt i name descriptor := by
  rw [nameAndType, Except.bind_eq_ok]
  constructor
  · rintro ⟨c, hget, hc⟩
    cases c with
    | nameAndType n d =>
      obtain ⟨s, hs, hc⟩ := Except.bind_eq_ok.mp hc
      obtain ⟨t, ht, hc⟩ := Except.bind_eq_ok.mp hc
      cases hc
      exact ⟨n, d, hget, utf8_eq_ok.mp hs, utf8_eq_ok.mp ht⟩
    | _ => cases hc
  · rintro ⟨n, d, hget, hname, hdescriptor⟩
    refine ⟨_, hget, Except.bind_eq_ok.mpr ⟨_, utf8_eq_ok.mpr hname, ?_⟩⟩
    exact Except.bind_eq_ok.mpr ⟨_, utf8_eq_ok.mpr hdescriptor, rfl⟩

/-- What is done with the two indices of a member. -/
lemma member_eq_ok {o nt : UInt16} {m : MemberRef} :
    (do
      let owner ← p.className o
      let (name, descriptor) ← p.nameAndType nt
      return { owner, name, descriptor } : Except PoolError MemberRef) = .ok m ↔
      p.ClassAt o m.owner ∧ p.NameAndTypeAt nt m.name m.descriptor := by
  rw [Except.bind_eq_ok]
  constructor
  · rintro ⟨owner, howner, hrest⟩
    obtain ⟨⟨name, descriptor⟩, hnt, hm⟩ := Except.bind_eq_ok.mp hrest
    cases hm
    exact ⟨className_eq_ok.mp howner, nameAndType_eq_ok.mp hnt⟩
  · rintro ⟨howner, hnt⟩
    exact ⟨_, className_eq_ok.mpr howner, Except.bind_eq_ok.mpr ⟨_, nameAndType_eq_ok.mpr hnt, rfl⟩⟩

lemma memberRef_eq_ok {m : MemberRef} : p.memberRef i = .ok m ↔ p.MemberAt i m := by
  rw [memberRef, Except.bind_eq_ok]
  constructor
  · rintro ⟨c, hget, hc⟩
    cases c with
    | fieldRef o nt => exact ⟨o, nt, .inl hget, member_eq_ok.mp hc⟩
    | methodRef o nt => exact ⟨o, nt, .inr (.inl hget), member_eq_ok.mp hc⟩
    | interfaceMethodRef o nt => exact ⟨o, nt, .inr (.inr hget), member_eq_ok.mp hc⟩
    | _ => cases hc
  · rintro ⟨o, nt, hget | hget | hget, hm⟩
    · exact ⟨_, hget, member_eq_ok.mpr hm⟩
    · exact ⟨_, hget, member_eq_ok.mpr hm⟩
    · exact ⟨_, hget, member_eq_ok.mpr hm⟩

lemma loadable_eq_ok {l : Loadable} : p.loadable i = .ok l ↔ p.LoadableAt i l := by
  rw [loadable, Except.bind_eq_ok]
  constructor
  · rintro ⟨c, hget, hc⟩
    cases c with
    | integer v =>
      cases hc
      exact .int hget
    | float v =>
      cases hc
      exact .float hget
    | long v =>
      cases hc
      exact .long hget
    | double v =>
      cases hc
      exact .double hget
    | string n =>
      obtain ⟨s, hs, hc⟩ := Except.bind_eq_ok.mp hc
      cases hc
      exact .string hget (utf8_eq_ok.mp hs)
    | classRef n =>
      obtain ⟨s, hs, hc⟩ := Except.bind_eq_ok.mp hc
      cases hc
      exact .classRef hget (utf8_eq_ok.mp hs)
    | _ => cases hc
  · intro h
    cases h with
    | int hget => exact ⟨_, hget, rfl⟩
    | float hget => exact ⟨_, hget, rfl⟩
    | long hget => exact ⟨_, hget, rfl⟩
    | double hget => exact ⟨_, hget, rfl⟩
    | string hget hs => exact ⟨_, hget, Except.bind_eq_ok.mpr ⟨_, utf8_eq_ok.mpr hs, rfl⟩⟩
    | classRef hget hs => exact ⟨_, hget, Except.bind_eq_ok.mpr ⟨_, utf8_eq_ok.mpr hs, rfl⟩⟩

end ConstantPool

/-! ### Reading a pool -/

namespace Reader

variable {ε α : Type} {r : Reader ε α} {i j : Input} {a : α} {as : List α} {n : Nat}

/-- One item, and then the others. -/
lemma many_cons_eq_ok : many (n + 1) r i = .ok (a :: as, j) ↔
    ∃ m, r i = .ok (a, m) ∧ many n r m = .ok (as, j) := by
  constructor
  · intro h
    obtain ⟨b, m, hr, h⟩ := bind_eq_ok h
    obtain ⟨bs, m', hmany, h⟩ := bind_eq_ok h
    cases h
    exact ⟨m, hr, hmany⟩
  · rintro ⟨m, hr, hmany⟩
    rw [many, bind_ok hr, bind_ok hmany]
    rfl

end Reader

namespace Constant

variable {i j : Input} {es : List Constant} {c : Constant} {n : Nat}

/-- One entry, unless it runs over the last slot, and then the others. -/
lemma readSlots_succ (n : Nat) : readSlots (n + 1) = do
    let c ← read
    if n + 1 < c.width then Reader.fail (.poolOverrun (← Reader.offset))
    else return c :: (← readSlots (n + 1 - c.width)) := by
  have hwidth (c : Constant) : c.width = if c.isWide then 2 else 1 := rfl
  cases n with
  | zero =>
    rw [readSlots]
    congr 1
    funext c
    by_cases hwide : c.isWide = true
    · rw [if_pos hwide, hwidth, if_pos hwide, if_pos (by omega)]
    · rw [if_neg hwide, hwidth, if_neg hwide, if_neg (by omega)]
      rfl
  | succ n =>
    rw [readSlots]
    congr 1
    funext c
    by_cases hwide : c.isWide = true
    · rw [if_pos hwide, hwidth, if_pos hwide, if_neg (by omega)]
      rfl
    · rw [if_neg hwide, hwidth, if_neg hwide, if_neg (by omega)]
      rfl

/-- The entries read are those that stand there one after another, as many as fill the slots. -/
lemma readSlots_eq_ok : readSlots n i = .ok (es, j) ↔
    many es.length read i = .ok (es, j) ∧ extent es = n := by
  induction es generalizing n i with
  | nil =>
    cases n with
    | zero => exact ⟨fun h => ⟨h, rfl⟩, fun h => h.1⟩
    | succ n =>
      refine ⟨fun h => ?_, fun h => by cases h.2⟩
      rw [readSlots_succ] at h
      obtain ⟨c, m, -, h⟩ := Reader.bind_eq_ok h
      split_ifs at h
      · cases h
      · obtain ⟨cs, m', -, h⟩ := Reader.bind_eq_ok h
        cases h
  | cons c es ih =>
    rw [List.length_cons, Reader.many_cons_eq_ok, extent_cons]
    have hpos := c.width_pos
    cases n with
    | zero =>
      constructor
      · rintro ⟨⟩
      · rintro ⟨-, hsum⟩
        omega
    | succ n =>
      rw [readSlots_succ]
      constructor
      · intro h
        obtain ⟨d, m, hread, h⟩ := Reader.bind_eq_ok h
        -- an entry wider than what is left is refused
        split_ifs at h with hover
        · cases h
        · obtain ⟨cs, m', hrest, h⟩ := Reader.bind_eq_ok h
          cases h
          obtain ⟨hmany, hextent⟩ := ih.mp hrest
          exact ⟨⟨m, hread, hmany⟩, by omega⟩
      · rintro ⟨⟨m, hread, hmany⟩, hextent⟩
        have hrest : readSlots (n + 1 - c.width) m = .ok (es, j) := ih.mpr ⟨hmany, by omega⟩
        rw [Reader.bind_ok hread, if_neg (by omega), Reader.bind_ok hrest]
        rfl

/-- A wide entry that has one slot left is reported behind it. -/
lemma readSlots_overrun (hread : many (es.length + 1) read i = .ok (es ++ [c], j))
    (hwide : c.isWide = true) :
    readSlots (extent es + 1) i = .error (.fault (.poolOverrun j.offset)) := by
  induction es generalizing i with
  | nil =>
    obtain ⟨m, hc, hnil⟩ := Reader.many_cons_eq_ok.mp hread
    cases hnil
    rw [readSlots_succ, Reader.bind_ok hc, if_pos (by rw [width, if_pos hwide, extent_nil]; omega)]
    rfl
  | cons e es ih =>
    obtain ⟨m, he, hes⟩ := Reader.many_cons_eq_ok.mp hread
    have hpos := e.width_pos
    rw [extent_cons, readSlots_succ, Reader.bind_ok he, if_neg (by omega)]
    have hleft : e.width + extent es + 1 - e.width = extent es + 1 := by omega
    rw [hleft, Reader.bind_error (ih hes)]

end Constant

namespace ConstantPool

variable {count : UInt16} {o : Nat} {bs : Bytes} {p : ConstantPool} {j : Input}

lemma read_zero (hcount : count.toNat = 0) :
    read ⟨o, .u16 count ++ bs⟩ = .error (.fault (.poolOverrun (o + 2))) := by
  rw [read, Reader.bind_ok (Reader.Reads.u16 count bs), hcount]
  rfl

lemma read_succ {n : Nat} (hcount : count.toNat = n + 1) :
    read ⟨o, .u16 count ++ bs⟩ = (do return ofEntries (← Constant.readSlots n)) ⟨o + 2, bs⟩ := by
  rw [read, Reader.bind_ok (Reader.Reads.u16 count bs), hcount]
  rfl

/-- What makes a pool of a count: entries that fill one slot less. -/
lemma read_eq_ok : read ⟨o, .u16 count ++ bs⟩ = .ok (p, j) ↔ ∃ es,
    many es.length Constant.read ⟨o + 2, bs⟩ = .ok (es, j) ∧ 1 + extent es = count.toNat ∧
      p = ofEntries es := by
  cases hcount : count.toNat with
  | zero =>
    rw [read_zero hcount]
    constructor
    · rintro ⟨⟩
    · rintro ⟨es, -, hsum, -⟩
      omega
  | succ n =>
    rw [read_succ hcount]
    constructor
    · intro h
      obtain ⟨es, m, hslots, h⟩ := Reader.bind_eq_ok h
      cases h
      obtain ⟨hmany, hextent⟩ := Constant.readSlots_eq_ok.mp hslots
      exact ⟨es, hmany, by omega, rfl⟩
    · rintro ⟨es, hmany, hextent, rfl⟩
      have hslots : Constant.readSlots n ⟨o + 2, bs⟩ = .ok (es, j) :=
        Constant.readSlots_eq_ok.mpr ⟨hmany, by omega⟩
      rw [Reader.bind_ok hslots]
      rfl

/-! ### Slot after slot -/

/-- Reads entries until there are so many slots. A wide entry takes the slot after its own as well,
be there one or not. -/
def fill (count : Nat) (slots : Array (Option Constant)) :
    Reader Malformed (Array (Option Constant)) := do
  if slots.size < count then
    let c ← Constant.read
    fill count (if c.isWide then (slots.push (some c)).push none else slots.push (some c))
  else return slots
termination_by count - slots.size
decreasing_by
  split <;> grind

/-- Slots that are no more than the count make a pool. -/
def ofSlots (count : Nat) (slots : Array (Option Constant)) : Reader Malformed ConstantPool := do
  if count < slots.size then Reader.fail (.poolOverrun (← Reader.offset)) else return ⟨slots⟩

def readSlotwise : Reader Malformed ConstantPool := do
  let count ← Reader.u16
  let slots ← fill count.toNat #[none]
  ofSlots count.toNat slots

lemma push_slotsOf (slots : Array (Option Constant)) (c : Constant) :
    (if c.isWide then (slots.push (some c)).push none else slots.push (some c)) =
      slots ++ (slotsOf c).toArray := by
  rw [slotsOf]
  split_ifs <;> exact Array.ext' (by simp)

/-- Slots that are filled further hold the entries that fill what is left. -/
lemma fill_eq (count n : Nat) (slots : Array (Option Constant)) (hleft : slots.size + n = count) :
    (do ofSlots count (← fill count slots)) = (do
      let es ← Constant.readSlots n
      return ⟨slots ++ (es.flatMap slotsOf).toArray⟩) := by
  induction n using Nat.strong_induction_on generalizing slots with
  | _ n ih =>
    rw [fill]
    cases n with
    | zero =>
      rw [if_neg (by omega), pure_bind, ofSlots, if_neg (by omega)]
      simp [Constant.readSlots]
    | succ n =>
      rw [if_pos (by omega), Constant.readSlots_succ, bind_assoc, bind_assoc]
      refine bind_congr fun c => ?_
      have hsize : (slots ++ (slotsOf c).toArray).size = slots.size + c.width := by
        rw [Array.size_append, ← length_slotsOf]
        rfl
      have hpos := c.width_pos
      rw [push_slotsOf]
      -- a last entry may reach past the count, and then neither gives a pool
      by_cases hover : n + 1 < c.width
      · rw [if_pos hover, fill, if_neg (by omega), pure_bind, ofSlots,
          if_pos (by omega), bind_assoc]
        rfl
      · rw [if_neg hover, ih (n + 1 - c.width) (by omega) _ (by omega), bind_assoc]
        refine bind_congr fun es => ?_
        simp

/-- **A pool that is read slot after slot is that of the entries that fill its slots.** -/
lemma read_eq_readSlotwise : read = readSlotwise := by
  rw [read, readSlotwise]
  refine bind_congr fun count => ?_
  cases hcount : count.toNat with
  | zero =>
    rw [fill]
    rfl
  | succ n =>
    rw [fill_eq (n + 1) n #[none] (Nat.add_comm 1 n)]
    refine bind_congr fun es => ?_
    rw [ofEntries, List.toArray_cons]

/-- How the slots of a pool are addressed when its entries are `es`. -/
structure Addresses (p : ConstantPool) (count : UInt16) (es : List Constant) : Prop where
  entries : p = ofEntries es
  size : p.size = count.toNat
  outOfRange : ∀ i, p.get i = .error (.outOfRange i) ↔ count ≤ i
  unusable : ∀ i, p.get i = .error (.unusable i) ↔
    i = 0 ∨ ∃ slot c, StandsAt es slot c ∧ c.isWide ∧ i.toNat = slot + 1
  found : ∀ i c, p.get i = .ok c ↔ StandsAt es i.toNat c
  listed : ∀ i c, (i, c) ∈ p.toList ↔ p.get i = .ok c
  increasing : (p.toList.map Prod.fst).Pairwise (· < ·)

/-- What indices are followed to: a text, two, three, or what can be pushed. -/
structure Follows (p : ConstantPool) : Prop where
  className : ∀ i name, p.className i = .ok name ↔ p.ClassAt i name
  nameAndType : ∀ i name descriptor,
    p.nameAndType i = .ok (name, descriptor) ↔ p.NameAndTypeAt i name descriptor
  memberRef : ∀ i m, p.memberRef i = .ok m ↔ p.MemberAt i m
  loadable : ∀ i l, p.loadable i = .ok l ↔ p.LoadableAt i l

lemma addresses_ofEntries {es : List Constant} (h : 1 + extent es = count.toNat) :
    (ofEntries es).Addresses count es := by
  have hsize : (ofEntries es).size = count.toNat := (size_ofEntries es).trans h
  have hfits : (ofEntries es).size ≤ UInt16.size := by
    rw [hsize]
    exact count.toNat_lt.le
  -- an index is out of range, at a hole or at an entry, and each gives its own answer
  refine ⟨rfl, hsize, fun i => ?_, fun i => ?_, fun i c => ?_, fun i c => mem_toList_iff hfits,
    pairwise_toList hfits⟩
  · rw [UInt16.le_iff_toNat_le, ← h]
    constructor
    · intro hget
      rcases get_cases es i with ⟨hlarge, -⟩ | ⟨-, hget'⟩ | ⟨c, -, hget'⟩
      · exact hlarge
      · cases hget'.symm.trans hget
      · cases hget'.symm.trans hget
    · exact fun hlarge => get_outOfRange (by rwa [size_ofEntries])
  · constructor
    · intro hget
      rcases get_cases es i with ⟨-, hget'⟩ | ⟨hhole, -⟩ | ⟨c, -, hget'⟩
      · cases hget'.symm.trans hget
      · exact hhole
      · cases hget'.symm.trans hget
    · rintro (rfl | ⟨slot, c, hc, hwide, hi⟩)
      · exact get_zero es
      · exact get_after_wide hc hwide hi
  · constructor
    · intro hget
      rcases get_cases es i with ⟨-, hget'⟩ | ⟨-, hget'⟩ | ⟨c', hc, hget'⟩
      · cases hget'.symm.trans hget
      · cases hget'.symm.trans hget
      · cases hget'.symm.trans hget
        exact hc
    · exact get_of_standsAt

/-- **How constant pools are addressed.** A pool that is read has the entries that stand there one
after another, its count is the number of their slots, and the slots are addressed by the entries
before them. There is no pool for a count that the entries do not fill: none for zero, and none
where a wide entry runs over the last slot. -/
theorem pools_addressed (count : UInt16) (o : Nat) (bs : Bytes) :
    (∀ p j, read ⟨o, .u16 count ++ bs⟩ = .ok (p, j) →
      ∃ es, many es.length Constant.read ⟨o + 2, bs⟩ = .ok (es, j) ∧
        p.Addresses count es ∧ p.Follows) ∧
    ((∃ x, read ⟨o, .u16 count ++ bs⟩ = .ok x) ↔
      ∃ es j, many es.length Constant.read ⟨o + 2, bs⟩ = .ok (es, j) ∧
        1 + extent es = count.toNat) ∧
    (count = 0 → read ⟨o, .u16 count ++ bs⟩ = .error (.fault (.poolOverrun (o + 2)))) ∧
    ∀ es c j, many (es.length + 1) Constant.read ⟨o + 2, bs⟩ = .ok (es ++ [c], j) → c.isWide →
      1 + extent es + 1 = count.toNat →
      read ⟨o, .u16 count ++ bs⟩ = .error (.fault (.poolOverrun j.offset)) := by
  refine ⟨fun p j h => ?_, ⟨?_, ?_⟩, ?_, ?_⟩
  · obtain ⟨es, hmany, hextent, rfl⟩ := read_eq_ok.mp h
    refine ⟨es, hmany, addresses_ofEntries hextent, ?_⟩
    exact ⟨fun _ _ => className_eq_ok, fun _ _ _ => nameAndType_eq_ok, fun _ _ => memberRef_eq_ok,
      fun _ _ => loadable_eq_ok⟩
  · rintro ⟨⟨p, j⟩, h⟩
    obtain ⟨es, hmany, hextent, -⟩ := read_eq_ok.mp h
    exact ⟨es, j, hmany, hextent⟩
  · rintro ⟨es, j, hmany, hextent⟩
    exact ⟨_, read_eq_ok.mpr ⟨es, hmany, hextent, rfl⟩⟩
  · rintro rfl
    exact read_zero rfl
  · intro es c j hmany hwide hextent
    have hslots := Constant.readSlots_overrun hmany hwide
    rw [read_succ (n := extent es + 1) (by omega), Reader.bind_error hslots]

def spaced : Bytes := [5, 0, 0, 0, 0, 0, 0, 0, 7, 1, 0, 1, 0x78, 7, 0, 3]

theorem pools_addressed_spaced :
    ∃ p, read ⟨8, .u16 5 ++ spaced⟩ = .ok (p, ⟨26, []⟩) ∧
      p.get 2 = .error (.unusable 2) ∧ p.get 3 = .ok (.utf8 "x") ∧ p.className 4 = .ok "x" ∧
      (∃ es, many es.length Constant.read ⟨10, spaced⟩ = .ok (es, ⟨26, []⟩) ∧
        p.Addresses 5 es ∧ p.Follows) ∧
      many 1 Constant.read ⟨10, spaced⟩ = .ok ([.long 7], ⟨19, spaced.drop 9⟩) ∧
      read ⟨8, .u16 2 ++ spaced⟩ = .error (.fault (.poolOverrun 19)) := by
  have hread : read ⟨8, .u16 5 ++ spaced⟩ =
      .ok (ofEntries [.long 7, .utf8 "x", .classRef 3], ⟨26, []⟩) := by rfl
  have hlong : many 1 Constant.read ⟨10, spaced⟩ = .ok ([.long 7], ⟨19, spaced.drop 9⟩) := by rfl
  refine ⟨_, hread, by rfl, by rfl, by rfl, (pools_addressed 5 8 spaced).1 _ _ hread, hlong, ?_⟩
  exact (pools_addressed 2 8 spaced).2.2.2 [] (.long 7) _ hlong rfl rfl

end ConstantPool

end ClassScript
