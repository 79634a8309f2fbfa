import ClassScript.Proofs.Tiling
import Mathlib.Data.List.Nodup

/-!
Code written back as it was read.

An instruction and the opcode it had give its bytes again, all but those that say nothing: the
padding of switches, and the two bytes after the pool index of an interface call or a dynamic call.
So what is accepted is an encoding of what is returned, with one exception: a switch whose number of
pairs is negative is accepted, as one without pairs, and is written back with the number zero.
-/

namespace ClassScript.Instruction

/-! ### Layouts -/

/-- The opcode of an instruction, and whether it is widened. -/
inductive Form where
  | short (op : UInt8)
  | wide (op : UInt8)

def Form.of? : Bytes → Option Form
  | [] => none
  | op :: operands => if op = 0xc4 then operands.head?.map wide else some (short op)

/-- What follows an opcode. Where opcodes share a layout, each makes its own instruction. -/
inductive Layout where
  | nothing (i : Instruction)
  | byteValue
  | shortValue
  | byteIndex (f : UInt16 → Instruction)
  | shortIndex (f : UInt16 → Instruction)
  /-- A pool index and two bytes that say nothing. -/
  | call (f : UInt16 → Instruction)
  | near (f : Nat → Instruction)
  | far (f : Nat → Instruction)
  | increment
  | table
  | pairs
  | typeCode
  | dimensions

def layouts : List (UInt8 × Layout) :=
  plainOpcodes.map (Prod.map id Layout.nothing) ++
  localOpcodes.map (Prod.map id Layout.byteIndex) ++
  poolOpcodes.map (Prod.map id Layout.shortIndex) ++
  branchOpcodes.map (Prod.map id Layout.near) ++
  farOpcodes.map (Prod.map id Layout.far) ++
  [(0x10, .byteValue), (0x11, .shortValue), (0x12, .byteIndex ldc), (0x84, .increment),
    (0xaa, .table),
    (0xab, .pairs), (0xb9, .call (invoke .interface)), (0xba, .call invokeDynamic),
    (0xbc, .typeCode),
    (0xc5, .dimensions)]

def row? {α : Type} (rows : List (UInt8 × α)) (op : UInt8) : Option α :=
  (rows.find? (·.1 == op)).map Prod.snd

/-! ### The writer -/

def index : Instruction → UInt16
  | ldc n | load _ n | store _ n | ret n | getStatic n | putStatic n | getField n |
      putField n | invoke _ n
  | invokeDynamic n | new n | newRefArray n | checkCast n | instanceOf n => n
  | _ => 0

def goal (i : Instruction) : Nat := i.targets.headD 0

def value : Instruction → Int32
  | push (.int v) => v
  | _ => 0

def writeIncrement : Instruction → Option Bytes
  | iinc n v =>
    if n.toNat < 256 ∧ v.toInt8.toInt16 = v then some [n.toUInt8, v.toInt8.toUInt8] else none
  | _ => none

def writeTable (pc : Nat) : Instruction → Option Bytes
  | tableSwitch default low ts =>
    let high : Int := low.toInt + ts.length - 1
    if (ts ≠ [] ∧ high < 2 ^ 31) ∧ Within 32 pc default ∧ ∀ t ∈ ts, Within 32 pc t then
      some (.replicate (padding pc) 0 ++ (offset32 pc default ++ (Bytes.u32 low.toUInt32 ++
        (Bytes.u32 (Int32.ofInt high).toUInt32 ++ ts.flatMap (offset32 pc)))))
    else none
  | _ => none

def writePairs (pc : Nat) : Instruction → Option Bytes
  | lookupSwitch default pairs =>
    if pairs.length < 2 ^ 31 ∧ Within 32 pc default ∧ ∀ p ∈ pairs, Within 32 pc p.2 then
      some (.replicate (padding pc) 0 ++
        (offset32 pc default ++ (Bytes.u32 (Int32.ofInt pairs.length).toUInt32 ++
        pairs.flatMap fun p => Bytes.u32 p.1.toUInt32 ++ offset32 pc p.2)))
    else none
  | _ => none

def writeTypeCode : Instruction → Option Bytes
  | newArray kind => (typeCodes.find? (·.2 = kind)).map fun r => [r.1]
  | _ => none

def writeDimensions : Instruction → Option Bytes
  | newMultiArray n d => some (Bytes.u16 n ++ [d])
  | _ => none

/-- The operands of an instruction in a layout, if they fit it. What says nothing is zero. -/
def Layout.write (pc : Nat) (i : Instruction) : Layout → Option Bytes
  | nothing i' => if i' = i then some [] else none
  | byteValue =>
    if push (.int i.value.toInt8.toInt32) = i then some [i.value.toInt8.toUInt8] else none
  | shortValue =>
    if push (.int i.value.toInt16.toInt32) =
      i then some (Bytes.u16 i.value.toInt16.toUInt16) else none
  | byteIndex f => if f i.index = i ∧ i.index.toNat < 256 then some [i.index.toUInt8] else none
  | shortIndex f => if f i.index = i then some (Bytes.u16 i.index) else none
  | call f => if f i.index = i then some (Bytes.u16 i.index ++ [0, 0]) else none
  | near f => if f i.goal = i ∧ Within 16 pc i.goal then some (offset16 pc i.goal) else none
  | far f => if f i.goal = i ∧ Within 32 pc i.goal then some (offset32 pc i.goal) else none
  | increment => i.writeIncrement
  | table => i.writeTable pc
  | pairs => i.writePairs pc
  | typeCode => i.writeTypeCode
  | dimensions => i.writeDimensions

def writeWideIncrement : Instruction → Option Bytes
  | iinc n v => some (Bytes.u16 n ++ Bytes.u16 v.toUInt16)
  | _ => none

def writeWide (op : UInt8) (i : Instruction) : Option Bytes :=
  if op = 0x84 then i.writeWideIncrement
  else (row? localOpcodes op).bind fun f => if f i.index = i then some (Bytes.u16 i.index) else none

def write (pc : Nat) (i : Instruction) : Form → Option Bytes
  | .short op => (row? layouts op).bind fun layout => (layout.write pc i).map (op :: ·)
  | .wide op => (writeWide op i).map (0xc4 :: op :: ·)

/-- The bytes of instructions, each in the form it has in the array. -/
def writeBack (bytes : Bytes) : List Located → Option Bytes
  | [] => some []
  | l :: code => do
    let form ← Form.of? (bytes.drop l.address)
    return (← write l.address l.instruction form) ++ (← writeBack bytes code)

/-- The addresses of the bytes of an instruction that say nothing. -/
def unused : Located → List Nat
  | ⟨pc, tableSwitch ..⟩ | ⟨pc, lookupSwitch ..⟩ => .range' (pc + 1) (padding pc)
  | ⟨pc, invoke .interface _⟩ | ⟨pc, invokeDynamic _⟩ => [pc + 3, pc + 4]
  | _ => []

/-- There is a switch at the address `pc` whose number of pairs is negative. -/
def NegativeCount (bytes : Bytes) (pc : Nat) : Prop :=
  (bytes.drop pc).head? = some 0xab ∧ wordAt (bytes.drop pc) (padding pc + 5) < 0

instance (bytes : Bytes) (pc : Nat) : Decidable (NegativeCount bytes pc) :=
  inferInstanceAs (Decidable (_ ∧ _))

def countField (pc : Nat) : List Nat := .range' (pc + padding pc + 5) 4

/-! ### Rows -/

variable {pc : Nat} {op : UInt8} {i : Instruction} {bs out rest bytes : Bytes} {code : List Located}
  {layout : Layout}

section

variable {α : Type} {rows : List (UInt8 × α)} {x : α}

lemma mem_of_row? (h : row? rows op = some x) : (op, x) ∈ rows := by
  obtain ⟨r, hfind, rfl⟩ := Option.map_eq_some_iff.mp h
  obtain rfl : r.1 = op := by simpa using List.find?_some hfind
  exact List.mem_of_find?_eq_some hfind

lemma row?_eq (hnodup : (rows.map Prod.fst).Nodup) (h : (op, x) ∈ rows) :
    row? rows op = some x := by
  cases hrow : row? rows op with
  | none =>
    rw [row?, Option.map_eq_none_iff, List.find?_eq_none] at hrow
    exact absurd (beq_self_eq_true op) (hrow _ h)
  | some y =>
    have hsame := List.inj_on_of_nodup_map hnodup (mem_of_row? hrow) h rfl
    exact congrArg some (Prod.mk.inj hsame).2

end

lemma row?_layouts (h : (op, layout) ∈ layouts) : row? layouts op = some layout := by
  have hnodup : ((layouts.map Prod.fst).map UInt8.toNat).Nodup := by decide +kernel
  exact row?_eq (.of_map _ hnodup) h

lemma ne_wide_of_mem (h : (op, layout) ∈ layouts) : op ≠ 0xc4 := by
  have hall : ∀ op ∈ layouts.map Prod.fst, op ≠ 0xc4 := by decide +kernel
  exact hall op (List.mem_map_of_mem h)

inductive Follows : UInt8 → Layout → Prop where
  | plain {op : UInt8} {i : Instruction} (h : (op, i) ∈ plainOpcodes) : Follows op (.nothing i)
  | onLocal {op : UInt8} {f : UInt16 → Instruction} (h : (op, f) ∈ localOpcodes) :
      Follows op (.byteIndex f)
  | onPool {op : UInt8} {f : UInt16 → Instruction} (h : (op, f) ∈ poolOpcodes) :
      Follows op (.shortIndex f)
  | branch {op : UInt8} {f : Nat → Instruction} (h : (op, f) ∈ branchOpcodes) : Follows op (.near f)
  | farBranch {op : UInt8} {f : Nat → Instruction} (h : (op, f) ∈ farOpcodes) : Follows op (.far f)
  | byteConstant : Follows 0x10 .byteValue
  | shortConstant : Follows 0x11 .shortValue
  | constant : Follows 0x12 (.byteIndex ldc)
  | increment : Follows 0x84 .increment
  | tableSwitch : Follows 0xaa .table
  | lookupSwitch : Follows 0xab .pairs
  | interfaceCall : Follows 0xb9 (.call (invoke .interface))
  | dynamicCall : Follows 0xba (.call invokeDynamic)
  | primitiveArray : Follows 0xbc .typeCode
  | multiArray : Follows 0xc5 .dimensions

lemma mem_layouts : (op, layout) ∈ layouts ↔ Follows op layout := by
  constructor
  · intro h
    simp only [layouts, List.mem_append, List.mem_map, Prod.exists, Prod.map, id,
      Prod.mk.injEq, List.mem_cons, List.not_mem_nil, or_false] at h
    rcases h with
      ((((⟨_, _, h, rfl, rfl⟩ | ⟨_, _, h, rfl, rfl⟩) | ⟨_, _, h, rfl, rfl⟩) | ⟨_, _, h, rfl, rfl⟩) |
        ⟨_, _, h, rfl, rfl⟩) | ⟨rfl, rfl⟩ | ⟨rfl, rfl⟩ | ⟨rfl, rfl⟩ | ⟨rfl, rfl⟩ | ⟨rfl, rfl⟩ |
        ⟨rfl, rfl⟩ | ⟨rfl, rfl⟩ |
      ⟨rfl, rfl⟩ | ⟨rfl, rfl⟩ | ⟨rfl, rfl⟩
    exacts [.plain h, .onLocal h, .onPool h, .branch h, .farBranch h, .byteConstant,
      .shortConstant, .constant, .increment, .tableSwitch, .lookupSwitch, .interfaceCall,
      .dynamicCall, .primitiveArray, .multiArray]
  · rintro (h | h | h | h | h) <;> simp [layouts, Prod.map, *]

/-! ### What is written -/

lemma toUInt16_toUInt8 {n : UInt16} (h : n.toNat < 256) : n.toUInt8.toUInt16 = n := by
  rw [← UInt16.toNat_inj, UInt8.toNat_toUInt16, UInt16.toNat_toUInt8, Nat.mod_eq_of_lt h]

lemma Encodes.of_eq {i' : Instruction} (h : Encodes pc i' bs) (hi : i' = i) : Encodes pc i bs :=
  hi ▸ h

lemma pads_replicate (pc : Nat) : Pads pc (.replicate (padding pc) 0) := by
  rw [Pads, List.length_replicate, padding]
  omega

lemma writeIncrement_encodes (h : i.writeIncrement = some bs) : Encodes pc i (0x84 :: bs) := by
  unfold writeIncrement at h
  split at h
  next n v =>
    obtain ⟨⟨hn, hv⟩, ⟨⟩⟩ := Option.ite_none_right_eq_some.mp h
    exact .of_eq (.increment n.toUInt8 v.toInt8) (by rw [toUInt16_toUInt8 hn, hv])
  · cases h

lemma writeTable_encodes (h : i.writeTable pc = some bs) : Encodes pc i (0xaa :: bs) := by
  unfold writeTable at h
  split at h
  next default low ts =>
    obtain ⟨⟨⟨hne, hhigh⟩, hdefault, hts⟩, ⟨⟩⟩ := Option.ite_none_right_eq_some.mp h
    have hlow := low.le_toInt
    have hpos := List.length_pos_iff.mpr hne
    exact .tableSwitch (pads_replicate pc) hdefault hts hne
      (Int32.toInt_ofInt_of_le (by omega) hhigh)
  · cases h

lemma writePairs_encodes (h : i.writePairs pc = some bs) : Encodes pc i (0xab :: bs) := by
  unfold writePairs at h
  split at h
  next default pairs =>
    obtain ⟨⟨hlength, hdefault, hts⟩, ⟨⟩⟩ := Option.ite_none_right_eq_some.mp h
    exact .lookupSwitch (pads_replicate pc) hdefault hts
      (Int32.toInt_ofInt_of_le (by omega) (by omega))
  · cases h

lemma writeTypeCode_encodes (h : i.writeTypeCode = some bs) : Encodes pc i (0xbc :: bs) := by
  unfold writeTypeCode at h
  split at h
  next kind =>
    obtain ⟨r, hfind, rfl⟩ := Option.map_eq_some_iff.mp h
    obtain rfl : r.2 = kind := by simpa using List.find?_some hfind
    exact .primitiveArray (List.mem_of_find?_eq_some hfind)
  · cases h

lemma writeDimensions_encodes (h : i.writeDimensions = some bs) : Encodes pc i (0xc5 :: bs) := by
  unfold writeDimensions at h
  split at h
  next n d =>
    cases h
    exact .multiArray n d
  · cases h

/-- What is written in a layout is an encoding. -/
lemma Layout.write_encodes (h : (op, layout) ∈ layouts) (hwrite : layout.write pc i = some bs) :
    Encodes pc i (op :: bs) := by
  cases mem_layouts.mp h with
  | plain hrow =>
    obtain ⟨rfl, ⟨⟩⟩ := Option.ite_none_right_eq_some.mp hwrite
    exact .plain hrow
  | onLocal hrow =>
    obtain ⟨⟨hi, hlt⟩, ⟨⟩⟩ := Option.ite_none_right_eq_some.mp hwrite
    exact .of_eq (.onLocal hrow i.index.toUInt8) (by rw [toUInt16_toUInt8 hlt, hi])
  | onPool hrow =>
    obtain ⟨hi, ⟨⟩⟩ := Option.ite_none_right_eq_some.mp hwrite
    exact .of_eq (.onPool hrow i.index) hi
  | branch hrow =>
    obtain ⟨⟨hi, hnear⟩, ⟨⟩⟩ := Option.ite_none_right_eq_some.mp hwrite
    exact .of_eq (.branch hrow hnear) hi
  | farBranch hrow =>
    obtain ⟨⟨hi, hfar⟩, ⟨⟩⟩ := Option.ite_none_right_eq_some.mp hwrite
    exact .of_eq (.farBranch hrow hfar) hi
  | byteConstant =>
    obtain ⟨hi, ⟨⟩⟩ := Option.ite_none_right_eq_some.mp hwrite
    exact .of_eq (.byteConstant i.value.toInt8) hi
  | shortConstant =>
    obtain ⟨hi, ⟨⟩⟩ := Option.ite_none_right_eq_some.mp hwrite
    exact .of_eq (.shortConstant i.value.toInt16) hi
  | constant =>
    obtain ⟨⟨hi, hlt⟩, ⟨⟩⟩ := Option.ite_none_right_eq_some.mp hwrite
    exact .of_eq (.constant i.index.toUInt8) (by rw [toUInt16_toUInt8 hlt, hi])
  | increment => exact writeIncrement_encodes hwrite
  | tableSwitch => exact writeTable_encodes hwrite
  | lookupSwitch => exact writePairs_encodes hwrite
  | interfaceCall =>
    obtain ⟨hi, ⟨⟩⟩ := Option.ite_none_right_eq_some.mp hwrite
    exact .of_eq (.interfaceCall i.index 0 0) hi
  | dynamicCall =>
    obtain ⟨hi, ⟨⟩⟩ := Option.ite_none_right_eq_some.mp hwrite
    exact .of_eq (.dynamicCall i.index 0 0) hi
  | primitiveArray => exact writeTypeCode_encodes hwrite
  | multiArray => exact writeDimensions_encodes hwrite

lemma writeWide_encodes (h : writeWide op i = some bs) : Encodes pc i (0xc4 :: op :: bs) := by
  unfold writeWide at h
  split at h
  next hop =>
    subst hop
    unfold writeWideIncrement at h
    split at h
    next n v =>
      cases h
      exact .wideIncrement n v
    · cases h
  · obtain ⟨f, hrow, h⟩ := Option.bind_eq_some_iff.mp h
    obtain ⟨hi, ⟨⟩⟩ := Option.ite_none_right_eq_some.mp h
    exact .of_eq (.onWideLocal (mem_of_row? hrow) i.index) hi

/-- Nothing but encodings is written. -/
lemma write_encodes {form : Form} (h : write pc i form = some bs) : Encodes pc i bs := by
  cases form with
  | short op =>
    obtain ⟨layout, hrow, h⟩ := Option.bind_eq_some_iff.mp h
    obtain ⟨operands, hwrite, rfl⟩ := Option.map_eq_some_iff.mp h
    exact Layout.write_encodes (mem_of_row? hrow) hwrite
  | wide op =>
    obtain ⟨operands, hwrite, rfl⟩ := Option.map_eq_some_iff.mp h
    exact writeWide_encodes hwrite

/-! ### What was read -/

/-- As many bytes, and the same but at free addresses. The first stands at the address `pc`. -/
structure Agrees (free : Nat → Prop) (pc : Nat) (out bs : Bytes) : Prop where
  length : out.length = bs.length
  same : ∀ k, ¬ free (pc + k) → out[k]? = bs[k]?

namespace Agrees

variable {free free' : Nat → Prop} {a b c d : Bytes}

lemma refl (bs : Bytes) : Agrees free pc bs bs := ⟨rfl, fun _ _ => rfl⟩

lemma of_free (hlength : a.length = b.length) (h : ∀ k < b.length, free (pc + k)) :
    Agrees free pc a b where
  length := hlength
  same k hk := by
    have hle : b.length ≤ k := Nat.le_of_not_lt fun hlt => hk (h k hlt)
    rw [List.getElem?_eq_none hle, List.getElem?_eq_none (hlength ▸ hle)]

lemma mono (h : Agrees free pc a b) (hfree : ∀ k, free k → free' k) : Agrees free' pc a b :=
  ⟨h.length, fun k hk => h.same k fun hold => hk (hfree _ hold)⟩

lemma append (h : Agrees free pc a b) (h' : Agrees free (pc + b.length) c d) :
    Agrees free pc (a ++ c) (b ++ d) where
  length := by rw [List.length_append, List.length_append, h.length, h'.length]
  same k hk := by
    rcases Nat.lt_or_ge k b.length with hlt | hge
    · rw [List.getElem?_append_left hlt, List.getElem?_append_left (h.length ▸ hlt)]
      exact h.same k hk
    · rw [List.getElem?_append_right hge, List.getElem?_append_right (h.length ▸ hge), h.length]
      refine h'.same (k - b.length) ?_
      rwa [Nat.add_assoc, Nat.add_sub_cancel' hge]

lemma cons (op : UInt8) (h : Agrees free (pc + 1) c d) : Agrees free pc (op :: c) (op :: d) :=
  append (a := [op]) (b := [op]) (refl [op]) h

/-- Padding is free. -/
lemma padded (hpad : Pads pc bs) (hfree : ∀ k ∈ List.range' (pc + 1) (padding pc), free k)
    (h : Agrees free (pc + 1 + padding pc) c d) :
    Agrees free (pc + 1) (List.replicate (padding pc) 0 ++ c) (bs ++ d) := by
  refine append (of_free ?_ fun k hk => hfree _ ?_) (hpad.length_eq ▸ h)
  · rw [List.length_replicate, hpad.length_eq]
  · rw [hpad.length_eq] at hk
    rw [List.mem_range'_1]
    omega

/-- So are the two bytes after a pool index. -/
lemma trailed (n : UInt16) (x y : UInt8) (hfree : ∀ k ∈ [pc + 3, pc + 4], free k) :
    Agrees free (pc + 1) (Bytes.u16 n ++ [0, 0]) (Bytes.u16 n ++ [x, y]) := by
  have hlength : (Bytes.u16 n).length = 2 := Bytes.length_ofNat _ _
  refine append (refl _) (of_free rfl fun k hk => hfree _ ?_)
  have hk' : k < 2 := hk
  rw [hlength, List.mem_pair]
  omega

end Agrees

/-- The instruction at the front is written back in its form, but for what says nothing. -/
def Returns (free : Nat → Prop) (pc : Nat) (i : Instruction) (bs rest : Bytes) : Prop :=
  ∃ out, (Form.of? (bs ++ rest)).bind (write pc i) = some out ∧ Agrees free pc out bs

lemma returns_short {free : Nat → Prop} (hfollows : Follows op layout)
    (hwrite : layout.write pc i = some out) (h : Agrees free (pc + 1) out bs) (rest : Bytes) :
    Returns free pc i (op :: bs) rest := by
  have hrow := mem_layouts.mpr hfollows
  refine ⟨op :: out, ?_, h.cons op⟩
  rw [List.cons_append, Form.of?, if_neg (ne_wide_of_mem hrow), Option.bind_some, write,
    row?_layouts hrow, Option.bind_some, hwrite, Option.map_some]

lemma returns_wide {free : Nat → Prop} (hwrite : writeWide op i = some bs) (rest : Bytes) :
    Returns free pc i (0xc4 :: op :: bs) rest := by
  refine ⟨0xc4 :: op :: bs, ?_, .refl _⟩
  rw [List.cons_append, Form.of?, if_pos rfl]
  change (writeWide op i).map (0xc4 :: op :: ·) = _
  rw [hwrite, Option.map_some]

lemma index_onLocal {f : UInt16 → Instruction} (h : (op, f) ∈ localOpcodes) (n : UInt16) :
    (f n).index = n := by
  have hall : ∀ p ∈ localOpcodes, (p.2 n).index = n := by simp [localOpcodes, rows, index]
  exact hall _ h

lemma index_onPool {f : UInt16 → Instruction} (h : (op, f) ∈ poolOpcodes) (n : UInt16) :
    (f n).index = n := by
  have hall : ∀ p ∈ poolOpcodes, (p.2 n).index = n := by simp [poolOpcodes, rows, index]
  exact hall _ h

lemma goal_branch {f : Nat → Instruction} (h : (op, f) ∈ branchOpcodes) (t : Nat) :
    (f t).goal = t := by
  have hall : ∀ p ∈ branchOpcodes, (p.2 t).goal = t := by simp [branchOpcodes, rows, goal, targets]
  exact hall _ h

lemma goal_farBranch {f : Nat → Instruction} (h : (op, f) ∈ farOpcodes) (t : Nat) :
    (f t).goal = t := by
  have hall : ∀ p ∈ farOpcodes, (p.2 t).goal = t := by simp [farOpcodes, rows, goal, targets]
  exact hall _ h

lemma write_byteIndex {f : UInt16 → Instruction} {n : UInt8}
    (h : (f n.toUInt16).index = n.toUInt16) :
    (Layout.byteIndex f).write pc (f n.toUInt16) = some [n] := by
  rw [Layout.write, h, UInt8.toUInt8_toUInt16, UInt8.toNat_toUInt16, if_pos ⟨rfl, n.toNat_lt⟩]

section Switch

variable {default : Nat} {low high count : Int32} {ts : List Nat} {pairs : List (Int32 × Nat)}

lemma write_table (hdefault : Within 32 pc default) (hts : ∀ t ∈ ts, Within 32 pc t) (hne : ts ≠ [])
    (hhigh : high.toInt = low.toInt + ts.length - 1) :
    Layout.table.write pc (tableSwitch default low ts) =
      some (.replicate (padding pc) 0 ++ (offset32 pc default ++ (Bytes.u32 low.toUInt32 ++
        (Bytes.u32 high.toUInt32 ++ ts.flatMap (offset32 pc))))) := by
  rw [Layout.write, writeTable, ← hhigh, Int32.ofInt_toInt,
    if_pos ⟨⟨hne, high.toInt_lt⟩, hdefault, hts⟩]

lemma write_pairs (hdefault : Within 32 pc default) (hts : ∀ p ∈ pairs, Within 32 pc p.2)
    (hcount : count.toInt = pairs.length) :
    Layout.pairs.write pc (lookupSwitch default pairs) =
      some (.replicate (padding pc) 0 ++ (offset32 pc default ++ (Bytes.u32 count.toUInt32 ++
        pairs.flatMap fun p => Bytes.u32 p.1.toUInt32 ++ offset32 pc p.2))) := by
  have hlt := count.toInt_lt
  rw [Layout.write, writePairs, ← hcount, Int32.ofInt_toInt, if_pos ⟨by omega, hdefault, hts⟩]

end Switch

/-- An encoding is written back. -/
lemma Encodes.returns (h : Encodes pc i bs) (rest : Bytes) :
    Returns (· ∈ unused ⟨pc, i⟩) pc i bs rest := by
  cases h with
  | plain h => exact returns_short (.plain h) (if_pos rfl) (.refl _) rest
  | byteConstant v =>
    have hwrite : Layout.byteValue.write pc (push (.int v.toInt32)) = some [v.toUInt8] := by
      rw [Layout.write, value, Int8.toInt8_toInt32, if_pos rfl]
    exact returns_short .byteConstant hwrite (.refl _) rest
  | shortConstant v =>
    have hwrite : Layout.shortValue.write pc (push (.int v.toInt32)) =
        some (Bytes.u16 v.toUInt16) := by
      rw [Layout.write, value, Int16.toInt16_toInt32, if_pos rfl]
    exact returns_short .shortConstant hwrite (.refl _) rest
  | constant n => exact returns_short .constant (write_byteIndex rfl) (.refl _) rest
  | onLocal h n =>
    exact returns_short (.onLocal h) (write_byteIndex (index_onLocal h _)) (.refl _) rest
  | @onWideLocal op f h n =>
    have hop : ∀ op ∈ localOpcodes.map Prod.fst, op ≠ 0x84 := by decide +kernel
    have hne : op ≠ 0x84 := hop op (List.mem_map_of_mem h)
    have hwrite : writeWide op (f n) = some (Bytes.u16 n) := by
      rw [writeWide, if_neg hne, row?_eq (by decide +kernel) h, Option.bind_some,
        index_onLocal h, if_pos rfl]
    exact returns_wide hwrite rest
  | increment n v =>
    have hwrite : Layout.increment.write pc (iinc n.toUInt16 v.toInt16) = some [n, v.toUInt8] := by
      rw [Layout.write, writeIncrement, UInt8.toUInt8_toUInt16, UInt8.toNat_toUInt16,
        Int8.toInt8_toInt16,
        if_pos ⟨n.toNat_lt, rfl⟩]
    exact returns_short .increment hwrite (.refl _) rest
  | wideIncrement n v => exact returns_wide rfl rest
  | @onPool op f h n =>
    have hwrite : (Layout.shortIndex f).write pc (f n) = some (Bytes.u16 n) := by
      rw [Layout.write, index_onPool h, if_pos rfl]
    exact returns_short (.onPool h) hwrite (.refl _) rest
  | @branch op f t h ht =>
    have hwrite : (Layout.near f).write pc (f t) = some (offset16 pc t) := by
      rw [Layout.write, goal_branch h, if_pos ⟨rfl, ht⟩]
    exact returns_short (.branch h) hwrite (.refl _) rest
  | @farBranch op f t h ht =>
    have hwrite : (Layout.far f).write pc (f t) = some (offset32 pc t) := by
      rw [Layout.write, goal_farBranch h, if_pos ⟨rfl, ht⟩]
    exact returns_short (.farBranch h) hwrite (.refl _) rest
  | tableSwitch hpad hdefault hts hne hhigh =>
    exact returns_short .tableSwitch (write_table hdefault hts hne hhigh)
      (.padded hpad (fun _ hk => hk) (.refl _)) rest
  | lookupSwitch hpad hdefault hts hcount =>
    exact returns_short .lookupSwitch (write_pairs hdefault hts hcount)
      (.padded hpad (fun _ hk => hk) (.refl _)) rest
  | interfaceCall n count zero =>
    have hwrite : (Layout.call (invoke .interface)).write pc (invoke .interface n) = _ := if_pos rfl
    exact returns_short .interfaceCall hwrite (.trailed n count zero fun _ hk => hk) rest
  | dynamicCall n a b =>
    have hwrite : (Layout.call invokeDynamic).write pc (invokeDynamic n) = _ := if_pos rfl
    exact returns_short .dynamicCall hwrite (.trailed n a b fun _ hk => hk) rest
  | @primitiveArray code kind h =>
    have hall : ∀ r ∈ typeCodes, (newArray r.2).writeTypeCode = some [r.1] := by decide
    have hwrite : Layout.typeCode.write pc (newArray kind) = some [code] := hall _ h
    exact returns_short .primitiveArray hwrite (.refl _) rest
  | multiArray n d => exact returns_short .multiArray rfl (.refl _) rest

/-! ### Negative numbers of pairs -/

def Free (bytes : Bytes) (l : Located) (k : Nat) : Prop :=
  k ∈ unused l ∨ NegativeCount bytes l.address ∧ k ∈ countField l.address

lemma negativeCount_iff {pad : Bytes} {default : Nat} {count : Int32} (hpad : Pads pc pad)
    (hbytes : bytes.drop pc = 0xab ::
      (pad ++ (offset32 pc default ++ (Bytes.u32 count.toUInt32 ++ rest)))) :
    NegativeCount bytes pc ↔ count.toInt < 0 := by
  have hword : wordAt (bytes.drop pc) (padding pc + 5) = count.toInt := by
    rw [hbytes]
    exact hpad.wordAt_first
  rw [NegativeCount, hword, hbytes]
  exact and_iff_right rfl

/-- No encoding has a negative number of pairs. -/
lemma Encodes.not_negativeCount (h : Encodes pc i bs) (hbytes : bytes.drop pc = bs ++ rest) :
    ¬ NegativeCount bytes pc := by
  intro hnegative
  have hhead := hnegative.1
  rw [hbytes] at hhead
  -- only one layout starts with the opcode of such a switch
  have hne {α : Type} {rows : List (UInt8 × α)} {op : UInt8} {x : α}
      (hrows : (0xab : UInt8) ∉ rows.map Prod.fst) (hrow : (op, x) ∈ rows) :
      some op ≠ some 0xab := by
    intro heq
    exact hrows (Option.some.inj heq ▸ List.mem_map_of_mem hrow)
  cases h with
  | plain h => exact hne (by decide +kernel) h hhead
  | onLocal h n => exact hne (by decide +kernel) h hhead
  | onPool h n => exact hne (by decide +kernel) h hhead
  | branch h ht => exact hne (by decide +kernel) h hhead
  | farBranch h ht => exact hne (by decide +kernel) h hhead
  | lookupSwitch hpad hdefault hts hcount =>
    simp only [List.cons_append, List.append_assoc] at hbytes
    have hlt := (negativeCount_iff hpad hbytes).mp hnegative
    omega
  | _ => exact absurd (Option.some.inj hhead) (by decide)

lemma Spelled.returns (h : Spelled pc i bs) (hbytes : bytes.drop pc = bs ++ rest) :
    Returns (Free bytes ⟨pc, i⟩) pc i bs rest := by
  cases h with
  | legal h =>
    obtain ⟨out, hwrite, hagrees⟩ := h.returns rest
    exact ⟨out, hwrite, hagrees.mono fun _ => .inl⟩
  | @negativeCount pad default count hpad hdefault hcount =>
    have hnegative : NegativeCount bytes pc := by
      rw [List.cons_append, List.append_assoc, List.append_assoc] at hbytes
      exact (negativeCount_iff hpad hbytes).mpr hcount
    have hcount' : (0 : Int32).toInt = ([] : List (Int32 × Nat)).length := rfl
    refine returns_short .lookupSwitch (write_pairs hdefault (by simp) hcount') ?_ rest
    refine .padded hpad (fun _ => .inl)
      (.append (.refl _) (.of_free ?_ fun k hk => .inr ⟨hnegative, ?_⟩))
    · rfl
    · rw [Bytes.u32, Bytes.length_ofNat] at hk
      change pc + 1 + padding pc + (offset32 pc default).length + k ∈ countField pc
      rw [length_offset32, countField, List.mem_range'_1]
      omega

/-! ### The array -/

lemma Laid.not_negativeCount (h : Laid pc code bs) (hbytes : bytes.drop pc = bs) :
    ∀ l ∈ code, ¬ NegativeCount bytes l.address := by
  induction h with
  | nil => simp
  | cons h hcode ih =>
    rintro l (_ | ⟨_, hl⟩)
    · exact h.not_negativeCount hbytes
    · exact ih (Scanned.drop_add hbytes) l hl

namespace Scanned

lemma laid (h : Scanned pc code bs) (hbytes : bytes.drop pc = bs)
    (hcounts : ∀ l ∈ code, ¬ NegativeCount bytes l.address) : Laid pc code bs := by
  induction h with
  | nil pc => exact .nil pc
  | cons h hcode ih =>
    have hlaid := ih (drop_add hbytes) fun l hl => hcounts l (List.mem_cons_of_mem _ hl)
    cases h with
    | legal h => exact .cons h hlaid
    | negativeCount hpad hdefault hcount =>
      simp only [List.cons_append, List.append_assoc] at hbytes
      exact absurd ((negativeCount_iff hpad hbytes).mpr hcount) (hcounts _ List.mem_cons_self)

/-- The instructions are written back one after another. -/
lemma writeBack_eq (h : Scanned pc code bs) (hbytes : bytes.drop pc = bs) :
    ∃ out, writeBack bytes code = some out ∧ Laid pc code out ∧
      Agrees (fun k => ∃ l ∈ code, Free bytes l k) pc out bs := by
  induction h with
  | nil pc => exact ⟨[], rfl, .nil pc, .refl []⟩
  | @cons pc i bs rest code h hcode ih =>
    obtain ⟨out, hwrite, hagrees⟩ := h.returns hbytes
    obtain ⟨after, hafter, hlaid, hrest⟩ := ih (drop_add hbytes)
    obtain ⟨form, hform, hencodes⟩ := Option.bind_eq_some_iff.mp hwrite
    refine ⟨out ++ after, ?_, .cons (write_encodes hencodes) (hagrees.length ▸ hlaid), ?_⟩
    · rw [writeBack, hbytes, hform, hafter]
      change (write pc i form).bind _ = _
      rw [hencodes]
      rfl
    · refine (hagrees.mono fun k hk => ⟨_, List.mem_cons_self, hk⟩).append
        (hrest.mono fun k hk => ?_)
      obtain ⟨l, hl, hfree⟩ := hk
      exact ⟨l, List.mem_cons_of_mem _ hl, hfree⟩

end Scanned

/-- **Accepted code is written back.** Each instruction, written at its address with the opcode it
had, gives its bytes again, but for those that say nothing and for negative numbers of pairs. The
bytes are an encoding of the instructions exactly if there is no such number. -/
theorem accepted_code_written_back (h : decode bytes = .ok code) :
    (∃ out, writeBack bytes code = some out ∧ Laid 0 code out ∧ out.length = bytes.length ∧
      ∀ k, (∀ l ∈ code, k ∉ unused l) →
        (∀ l ∈ code, NegativeCount bytes l.address → k ∉ countField l.address) →
        out[k]? = bytes[k]?) ∧
    (Laid 0 code bytes ↔ ∀ l ∈ code, ¬ NegativeCount bytes l.address) := by
  have hscanned : Scanned 0 code bytes := decodeFrom_scanned (Nat.le_refl _) (decode_cases h).2
  obtain ⟨out, hwrite, hlaid, hagrees⟩ := hscanned.writeBack_eq rfl
  refine ⟨⟨out, hwrite, hlaid, hagrees.length, fun k hunused hcount => hagrees.same k ?_⟩,
    fun hlaid => hlaid.not_negativeCount rfl, hscanned.laid rfl⟩
  rw [Nat.zero_add]
  rintro ⟨l, hl, hk | ⟨hnegative, hk⟩⟩
  · exact hunused l hl hk
  · exact hcount l hl hnegative hk

/-- An array with both switches and padding that is not zero. -/
theorem accepted_code_written_back_medley :
    decode medleyBytes = .ok medley ∧ Laid 0 medley medleyBytes ∧
    ∃ out, writeBack medleyBytes medley = some out ∧ out ≠ medleyBytes ∧
      ∀ k, (∀ l ∈ medley, k ∉ unused l) → out[k]? = medleyBytes[k]? := by
  have hcounts : ∀ l ∈ medley, ¬ NegativeCount medleyBytes l.address := by decide +kernel
  have hchanged : writeBack medleyBytes medley ≠ some medleyBytes := by decide +kernel
  obtain ⟨⟨out, hwrite, -, -, hsame⟩, hlaid⟩ := accepted_code_written_back decode_medley
  refine ⟨decode_medley, hlaid.mpr hcounts, out, hwrite, ?_, fun k hk =>
    hsame k hk fun l hl hnegative => ?_⟩
  · rintro rfl
    exact hchanged hwrite
  · exact absurd hnegative (hcounts l hl)

/-- A switch that has minus one pairs, between two instructions. -/
def shortfall : Bytes :=
  [0x1a, 0xab, 0x00, 0x00, 0x00, 0x00, 0x00, 0x0b, 0xff, 0xff, 0xff, 0xff, 0xb1]

/-- It is accepted, but it is no encoding of what is returned, and comes back with no pairs. -/
theorem negative_count_accepted :
    decode shortfall = .ok [⟨0, load .int 0⟩, ⟨1, lookupSwitch 12 []⟩, ⟨12, returns none⟩] ∧
    ¬ Laid 0 [⟨0, load .int 0⟩, ⟨1, lookupSwitch 12 []⟩, ⟨12, returns none⟩] shortfall ∧
    writeBack shortfall [⟨0, load .int 0⟩, ⟨1, lookupSwitch 12 []⟩, ⟨12, returns none⟩] =
      some [0x1a, 0xab, 0x00, 0x00, 0x00, 0x00, 0x00, 0x0b, 0x00, 0x00, 0x00, 0x00, 0xb1] ∧
    unused ⟨0, load .int 0⟩ ++ unused ⟨1, lookupSwitch 12 []⟩ ++
      unused ⟨12, returns none⟩ = [2, 3] := by
  refine ⟨by decide +kernel, fun hlaid => ?_, by decide +kernel, rfl⟩
  exact hlaid.not_negativeCount rfl ⟨1, lookupSwitch 12 []⟩ (by simp) (by decide)

end ClassScript.Instruction
