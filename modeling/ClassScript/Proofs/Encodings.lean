import ClassScript.Instruction.Decode
import ClassScript.Proofs.Framing

/-!
Every way to write instructions is read back.

The opcodes are listed here by what follows them in a code array: nothing, a local index, a pool
index or a branch offset. With the few that have a layout of their own they say which bytes
encode an instruction at an address. Most instructions have several encodings; whichever is
taken for each, decoding gives the instructions and their addresses.
-/

namespace ClassScript

namespace Instruction

open Reader (Reads)

/-! ### Opcodes -/

def rows {α : Type} (first : UInt8) : List α → List (UInt8 × α)
  | [] => []
  | x :: xs => (first, x) :: rows (first + 1) xs

def plainOpcodes : List (UInt8 × Instruction) :=
  rows 0x00 [nop, push .null] ++
  rows 0x02 ([-1, 0, 1, 2, 3, 4, 5].map fun v => push (.int v)) ++
  rows 0x09 ([0, 1].map fun v => push (.long v)) ++
  rows 0x0b ([0, 0x3f800000, 0x40000000].map fun bits => push (.float ⟨bits⟩)) ++
  rows 0x0e ([0, 0x3ff0000000000000].map fun bits => push (.double ⟨bits⟩)) ++
  rows 0x1a ([0, 1, 2, 3].map (load .int)) ++
  rows 0x1e ([0, 1, 2, 3].map (load .long)) ++
  rows 0x22 ([0, 1, 2, 3].map (load .float)) ++
  rows 0x26 ([0, 1, 2, 3].map (load .double)) ++
  rows 0x2a ([0, 1, 2, 3].map (load .ref)) ++
  rows 0x2e ([.int, .long, .float, .double, .ref, .byte, .char, .short].map arrayLoad) ++
  rows 0x3b ([0, 1, 2, 3].map (store .int)) ++
  rows 0x3f ([0, 1, 2, 3].map (store .long)) ++
  rows 0x43 ([0, 1, 2, 3].map (store .float)) ++
  rows 0x47 ([0, 1, 2, 3].map (store .double)) ++
  rows 0x4b ([0, 1, 2, 3].map (store .ref)) ++
  rows 0x4f ([.int, .long, .float, .double, .ref, .byte, .char, .short].map arrayStore) ++
  rows 0x57 [pop, pop2, dup, dupX1, dupX2, dup2, dup2X1, dup2X2, swap] ++
  rows 0x60 ([.int, .long, .float, .double].map (arith .add)) ++
  rows 0x64 ([.int, .long, .float, .double].map (arith .sub)) ++
  rows 0x68 ([.int, .long, .float, .double].map (arith .mul)) ++
  rows 0x6c ([.int, .long, .float, .double].map (arith .div)) ++
  rows 0x70 ([.int, .long, .float, .double].map (arith .rem)) ++
  rows 0x74 ([.int, .long, .float, .double].map neg) ++
  rows 0x78 ([.int, .long].map (shift .shl)) ++
  rows 0x7a ([.int, .long].map (shift .shr)) ++
  rows 0x7c ([.int, .long].map (shift .ushr)) ++
  rows 0x7e ([.int, .long].map (logic .and)) ++
  rows 0x80 ([.int, .long].map (logic .or)) ++
  rows 0x82 ([.int, .long].map (logic .xor)) ++
  rows 0x85 ([.i2l, .i2f, .i2d, .l2i, .l2f, .l2d, .f2i, .f2l, .f2d, .d2i, .d2l, .d2f, .i2b, .i2c,
    .i2s].map convert) ++
  rows 0x94 [lcmp, cmp .float false, cmp .float true, cmp .double false, cmp .double true] ++
  rows 0xac ([.int, .long, .float, .double, .ref].map fun k => returns (some k)) ++
  rows 0xb1 [returns none] ++
  rows 0xbe [arrayLength, athrow] ++
  rows 0xc2 [monitorEnter, monitorExit]

def localOpcodes : List (UInt8 × (UInt16 → Instruction)) :=
  rows 0x15 [load .int, load .long, load .float, load .double, load .ref] ++
  rows 0x36 [store .int, store .long, store .float, store .double, store .ref] ++
  rows 0xa9 [ret]

def poolOpcodes : List (UInt8 × (UInt16 → Instruction)) :=
  rows 0x13 [ldc, ldc] ++
  rows 0xb2 [getStatic, putStatic, getField, putField, invoke .virtual, invoke .special,
    invoke .static] ++
  rows 0xbb [new] ++
  rows 0xbd [newRefArray] ++
  rows 0xc0 [checkCast, instanceOf]

def branchOpcodes : List (UInt8 × (Nat → Instruction)) :=
  rows 0x99 ([.eq, .ne, .lt, .ge, .gt, .le].map ifZero) ++
  rows 0x9f ([.eq, .ne, .lt, .ge, .gt, .le].map ifInt) ++
  rows 0xa5 [ifRef true, ifRef false, goto, jsr] ++
  rows 0xc6 [ifNull true, ifNull false]

def farOpcodes : List (UInt8 × (Nat → Instruction)) := rows 0xc8 [goto, jsr]

def typeCodes : List (UInt8 × ArrayKind) :=
  rows 4 [.boolean, .char, .float, .double, .byte, .short, .int, .long]

/-! ### Encodings -/

/-- The way from an address to another is a signed number of so many bits. -/
def Within (bits pc t : Nat) : Prop :=
  -2 ^ (bits - 1) ≤ (t - pc : Int) ∧ (t - pc : Int) < 2 ^ (bits - 1)

instance (bits pc t : Nat) : Decidable (Within bits pc t) := inferInstanceAs (Decidable (_ ∧ _))

def offset16 (pc t : Nat) : Bytes := .u16 (Int16.ofInt (t - pc)).toUInt16
def offset32 (pc t : Nat) : Bytes := .u32 (Int32.ofInt (t - pc)).toUInt32

/-- Any bytes from after the opcode up to the next multiple of four. -/
def Pads (pc : Nat) (pad : Bytes) : Prop := pad.length < 4 ∧ (pc + 1 + pad.length) % 4 = 0

instance (pc : Nat) (pad : Bytes) : Decidable (Pads pc pad) := inferInstanceAs (Decidable (_ ∧ _))

/-- The bytes encode the instruction when they stand at the address `pc`. -/
inductive Encodes (pc : Nat) : Instruction → Bytes → Prop where
  | plain {op : UInt8} {i : Instruction} (h : (op, i) ∈ plainOpcodes) : Encodes pc i [op]
  | byteConstant (v : Int8) : Encodes pc (push (.int v.toInt32)) [0x10, v.toUInt8]
  | shortConstant (v : Int16) : Encodes pc (push (.int v.toInt32)) (0x11 :: Bytes.u16 v.toUInt16)
  | constant (n : UInt8) : Encodes pc (ldc n.toUInt16) [0x12, n]
  | onLocal {op : UInt8} {f : UInt16 → Instruction} (h : (op, f) ∈ localOpcodes) (n : UInt8) :
    Encodes pc (f n.toUInt16) [op, n]
  | onWideLocal {op : UInt8} {f : UInt16 → Instruction} (h : (op, f) ∈ localOpcodes) (n : UInt16) :
    Encodes pc (f n) (0xc4 :: op :: Bytes.u16 n)
  | increment (n : UInt8) (v : Int8) :
    Encodes pc (iinc n.toUInt16 v.toInt16) [0x84, n, v.toUInt8]
  | wideIncrement (n : UInt16) (v : Int16) :
    Encodes pc (iinc n v) (0xc4 :: 0x84 :: (Bytes.u16 n ++ Bytes.u16 v.toUInt16))
  | onPool {op : UInt8} {f : UInt16 → Instruction} (h : (op, f) ∈ poolOpcodes) (n : UInt16) :
    Encodes pc (f n) (op :: Bytes.u16 n)
  | branch {op : UInt8} {f : Nat → Instruction} {t : Nat} (h : (op, f) ∈ branchOpcodes)
    (ht : Within 16 pc t) : Encodes pc (f t) (op :: offset16 pc t)
  | farBranch {op : UInt8} {f : Nat → Instruction} {t : Nat} (h : (op, f) ∈ farOpcodes)
    (ht : Within 32 pc t) : Encodes pc (f t) (op :: offset32 pc t)
  /-- One target for each number from the lowest to the highest. -/
  | tableSwitch {pad : Bytes} {default : Nat} {low high : Int32} {ts : List Nat}
      (hpad : Pads pc pad)
    (hdefault : Within 32 pc default) (hts : ∀ t ∈ ts, Within 32 pc t) (hne : ts ≠ [])
    (hhigh : high.toInt = low.toInt + ts.length - 1) :
    Encodes pc (tableSwitch default low ts)
      (0xaa ::
        (pad ++ (offset32 pc default ++ (Bytes.u32 low.toUInt32 ++ (Bytes.u32 high.toUInt32 ++
        ts.flatMap (offset32 pc))))))
  | lookupSwitch {pad : Bytes} {default : Nat} {count : Int32} {pairs : List (Int32 × Nat)}
    (hpad : Pads pc pad) (hdefault : Within 32 pc default) (hts : ∀ p ∈ pairs, Within 32 pc p.2)
    (hcount : count.toInt = pairs.length) :
    Encodes pc (lookupSwitch default pairs)
      (0xab :: (pad ++ (offset32 pc default ++ (Bytes.u32 count.toUInt32 ++
        pairs.flatMap fun p => Bytes.u32 p.1.toUInt32 ++ offset32 pc p.2))))
  | interfaceCall (n : UInt16) (count zero : UInt8) :
    Encodes pc (invoke .interface n) (0xb9 :: (Bytes.u16 n ++ [count, zero]))
  | dynamicCall (n : UInt16) (a b : UInt8) :
    Encodes pc (invokeDynamic n) (0xba :: (Bytes.u16 n ++ [a, b]))
  | primitiveArray {code : UInt8} {kind : ArrayKind} (h : (code, kind) ∈ typeCodes) :
    Encodes pc (newArray kind) [0xbc, code]
  | multiArray (n : UInt16) (dimensions : UInt8) :
    Encodes pc (newMultiArray n dimensions) (0xc5 :: (Bytes.u16 n ++ [dimensions]))

inductive Laid : Nat → List Located → Bytes → Prop where
  | nil (pc : Nat) : Laid pc [] []
  | cons {pc : Nat} {i : Instruction} {bs rest : Bytes} {code : List Located} (h : Encodes pc i bs)
    (hcode : Laid (pc + bs.length) code rest) : Laid pc (⟨pc, i⟩ :: code) (bs ++ rest)

/-! ### One instruction -/

variable {len pc o t : Nat} {op : UInt8}

lemma plain?_eq {i : Instruction} (h : (op, i) ∈ plainOpcodes) : plain? op.toNat = some i := by
  have hall : ∀ p ∈ plainOpcodes, plain? p.1.toNat = some p.2 := by decide +kernel
  exact hall _ h

lemma reads_plain {i : Instruction} (h : (op, i) ∈ plainOpcodes) :
    Reads pc [op] (decodeOne len) i := by
  refine .tagged op ?_
  simp only [plain?_eq h]
  exact .pure i

section Index

variable {f : UInt16 → Instruction}

lemma onLocal?_eq (h : (op, f) ∈ localOpcodes) (n : UInt16) : onLocal? op.toNat n = some (f n) := by
  have hall : ∀ p ∈ localOpcodes, onLocal? p.1.toNat n = some (p.2 n) := by
    simp [localOpcodes, rows, onLocal?, Kind.ofIndex]
  exact hall _ h

lemma reads_onLocal (h : (op, f) ∈ localOpcodes) (n : UInt8) :
    Reads pc [op, n] (decodeOne len) (f n.toUInt16) := by
  have hall : ∀ p ∈ localOpcodes, plain? p.1.toNat = none ∧ p.1.toNat ≠ 0x10 ∧ p.1.toNat ≠ 0x11 ∧
      p.1.toNat ≠ 0x12 := by
    decide +kernel
  obtain ⟨hplain, h10, h11, h12⟩ := hall _ h
  have hlocal : (onLocal? op.toNat 0).isSome := by rw [onLocal?_eq h]; rfl
  refine .tagged op ?_
  simp only [hplain]
  refine .ite_neg h10 (.ite_neg h11 (.ite_neg h12 (.ite_pos hlocal (.bind_last (.u8 n) ?_))))
  simp only [onLocal?_eq h]
  exact .pure _

lemma reads_onWideLocal (h : (op, f) ∈ localOpcodes) (n : UInt16) :
    Reads pc (0xc4 :: op :: Bytes.u16 n) (decodeOne len) (f n) := by
  have hall : ∀ p ∈ localOpcodes, p.1 ≠ 0x84 := by decide
  refine .tagged 0xc4 (.bind (.u8 op) (.bind_last (.u16 n) (.ite_neg (hall _ h) ?_)))
  simp only [onLocal?_eq h]
  exact .pure _

lemma onPool?_eq (h : (op, f) ∈ poolOpcodes) (n : UInt16) : onPool? op.toNat n = some (f n) := by
  have hall : ∀ p ∈ poolOpcodes, onPool? p.1.toNat n = some (p.2 n) := by
    simp [poolOpcodes, rows, onPool?]
  exact hall _ h

lemma reads_onPool (h : (op, f) ∈ poolOpcodes) (n : UInt16) :
    Reads pc (op :: Bytes.u16 n) (decodeOne len) (f n) := by
  have hall : ∀ p ∈ poolOpcodes, plain? p.1.toNat = none ∧ p.1.toNat ≠ 0x10 ∧ p.1.toNat ≠ 0x11 ∧
      p.1.toNat ≠ 0x12 ∧ ¬ (onLocal? p.1.toNat 0).isSome := by
    decide +kernel
  obtain ⟨hplain, h10, h11, h12, hlocal⟩ := hall _ h
  have hpool : (onPool? op.toNat 0).isSome := by rw [onPool?_eq h]; rfl
  refine .tagged op ?_
  simp only [hplain]
  refine .ite_neg h10 (.ite_neg h11 (.ite_neg h12 (.ite_neg hlocal (.ite_pos hpool ?_))))
  refine .bind_last (.u16 n) ?_
  simp only [onPool?_eq h]
  exact .pure _

end Index

section Target

variable {f : Nat → Instruction}

lemma reads_target {d : Int} (hd : d = t - pc) (ht : t < len) : Reads o [] (target len pc d) t := by
  rw [target, hd, show (pc + (t - pc) : Int) = t by omega]
  exact .ite_neg (by omega) (.pure t)

lemma reads_offset16 (h : Within 16 pc t) (ht : t < len) :
    Reads o [] (target len pc (Int16.ofInt (t - pc)).toInt) t :=
  reads_target (Int16.toInt_ofInt_of_le h.1 h.2) ht

lemma reads_offset32 (h : Within 32 pc t) (ht : t < len) :
    Reads o [] (target len pc (Int32.ofInt (t - pc)).toInt) t :=
  reads_target (Int32.toInt_ofInt_of_le h.1 h.2) ht

lemma onBranch?_eq (h : (op, f) ∈ branchOpcodes) (t : Nat) : onBranch? op.toNat t = some (f t) := by
  have hall : ∀ p ∈ branchOpcodes, onBranch? p.1.toNat t = some (p.2 t) := by
    simp [branchOpcodes, rows, onBranch?, condOf]
  exact hall _ h

lemma reads_branch (h : (op, f) ∈ branchOpcodes) (hnear : Within 16 pc t) (ht : t < len) :
    Reads pc (op :: offset16 pc t) (decodeOne len) (f t) := by
  have hall : ∀ p ∈ branchOpcodes, plain? p.1.toNat = none ∧ p.1.toNat ≠ 0x10 ∧ p.1.toNat ≠ 0x11 ∧
      p.1.toNat ≠ 0x12 ∧ ¬ (onLocal? p.1.toNat 0).isSome ∧ ¬ (onPool? p.1.toNat 0).isSome := by
    decide +kernel
  obtain ⟨hplain, h10, h11, h12, hlocal, hpool⟩ := hall _ h
  have hbranch : (onBranch? op.toNat 0).isSome := by rw [onBranch?_eq h]; rfl
  refine .tagged op ?_
  simp only [hplain]
  refine .ite_neg h10 (.ite_neg h11 (.ite_neg h12 (.ite_neg hlocal (.ite_neg hpool ?_))))
  refine .ite_pos hbranch (.bind_last (.i16 _) (.bind_nil (reads_offset16 hnear ht) ?_))
  simp only [onBranch?_eq h]
  exact .pure _

lemma reads_farBranch (h : (op, f) ∈ farOpcodes) (hnear : Within 32 pc t) (ht : t < len) :
    Reads pc (op :: offset32 pc t) (decodeOne len) (f t) := by
  have hall : ∀ p ∈ farOpcodes, Reads pc (p.1 :: offset32 pc t) (decodeOne len) (p.2 t) := by
    simp only [farOpcodes, rows, List.forall_mem_cons, List.not_mem_nil,
      false_implies, implies_true,
      and_true]
    constructor
    · exact .tagged 0xc8 (.bind_last (.i32 _) (.bind_nil (reads_offset32 hnear ht) (.pure _)))
    · exact .tagged 0xc9 (.bind_last (.i32 _) (.bind_nil (reads_offset32 hnear ht) (.pure _)))
  exact hall _ h

lemma mem_targets_branch (h : (op, f) ∈ branchOpcodes) : t ∈ (f t).targets := by
  have hall : ∀ p ∈ branchOpcodes, t ∈ (p.2 t).targets := by
    simp [branchOpcodes, rows, targets]
  exact hall _ h

lemma mem_targets_farBranch (h : (op, f) ∈ farOpcodes) : t ∈ (f t).targets := by
  have hall : ∀ p ∈ farOpcodes, t ∈ (p.2 t).targets := by
    simp [farOpcodes, rows, targets]
  exact hall _ h

end Target

lemma ofTypeCode?_eq {code : UInt8} {kind : ArrayKind} (h : (code, kind) ∈ typeCodes) :
    ArrayKind.ofTypeCode? code.toNat = some kind := by
  have hall : ∀ p ∈ typeCodes, ArrayKind.ofTypeCode? p.1.toNat = some p.2 := by decide
  exact hall _ h

section Switch

variable {pad : Bytes} {default : Nat} {low high count : Int32} {ts : List Nat}
  {pairs : List (Int32 × Nat)}

lemma reads_padding (h : Pads pc pad) : Reads o pad (skipPadding pc) () := by
  have hlen : (4 - (pc + 1) % 4) % 4 = pad.length := by
    obtain ⟨hlt, hmod⟩ := h
    omega
  intro rest
  simp only [skipPadding, hlen]
  change Except.ok ((), (⟨o + pad.length, (pad ++ rest).drop pad.length⟩ : Input)) = _
  rw [List.drop_left]

lemma reads_tableSwitch (hpad : Pads pc pad) (hnear : Within 32 pc default)
    (hdefault : default < len) (hts : ∀ t ∈ ts, Within 32 pc t ∧ t < len) (hne : ts ≠ [])
    (hhigh : high.toInt = low.toInt + ts.length - 1) :
    Reads o (pad ++ (offset32 pc default ++ (.u32 low.toUInt32 ++ (.u32 high.toUInt32 ++
      ts.flatMap (offset32 pc))))) (decodeTableSwitch len pc) (tableSwitch default low ts) := by
  have hlen : (high.toInt - low.toInt + 1).toNat = ts.length := by omega
  have hle : ¬ high < low := by
    have hpos := List.length_pos_iff.2 hne
    rw [Int32.lt_iff_toInt_lt]
    omega
  refine .bind (reads_padding hpad) (.bind (.i32 _) (.bind_nil (reads_offset32 hnear hdefault) ?_))
  refine .bind (.i32 low) (.bind (.i32 high) (.ite_neg hle ?_))
  rw [hlen]
  refine (Reads.many fun t ht _ => ?_).map _
  exact .bind_last (.i32 _) (reads_offset32 (hts t ht).1 (hts t ht).2)

lemma reads_lookupSwitch (hpad : Pads pc pad) (hnear : Within 32 pc default)
    (hdefault : default < len) (hts : ∀ p ∈ pairs, Within 32 pc p.2 ∧ p.2 < len)
    (hcount : count.toInt = pairs.length) :
    Reads o (pad ++ (offset32 pc default ++ (Bytes.u32 count.toUInt32 ++
      pairs.flatMap fun p => .u32 p.1.toUInt32 ++ offset32 pc p.2)))
      (decodeLookupSwitch len pc) (lookupSwitch default pairs) := by
  refine .bind (reads_padding hpad) (.bind (.i32 _) (.bind_nil (reads_offset32 hnear hdefault) ?_))
  refine .bind (.i32 count) ?_
  rw [hcount, Int.toNat_natCast]
  refine (Reads.many fun p hp _ => ?_).map _
  refine .bind (.i32 p.1) (.bind_last (.i32 _) (.bind_nil ?_ (.pure p)))
  exact reads_offset32 (hts p hp).1 (hts p hp).2

end Switch

/-- An encoding is read back if its targets lie in the code array. -/
lemma Encodes.reads {i : Instruction} {bs : Bytes} (h : Encodes pc i bs)
    (ht : ∀ t ∈ i.targets, t < len) :
    Reads pc bs (decodeOne len) i := by
  cases h with
  | plain h => exact reads_plain h
  | byteConstant v => exact .tagged 0x10 ((Reads.i8 v).map fun v => push (.int v.toInt32))
  | shortConstant v => exact .tagged 0x11 ((Reads.i16 v).map fun v => push (.int v.toInt32))
  | constant n => exact .tagged 0x12 ((Reads.u8 n).map fun n => ldc n.toUInt16)
  | onLocal h n => exact reads_onLocal h n
  | onWideLocal h n => exact reads_onWideLocal h n
  | increment n v =>
    exact .tagged 0x84 (.bind (.u8 n) ((Reads.i8 v).map fun v => iinc n.toUInt16 v.toInt16))
  | wideIncrement n v =>
    exact .tagged 0xc4 (.bind (.u8 0x84) (.bind (.u16 n) ((Reads.i16 v).map (iinc n))))
  | onPool h n => exact reads_onPool h n
  | branch h hnear => exact reads_branch h hnear (ht _ (mem_targets_branch h))
  | farBranch h hnear => exact reads_farBranch h hnear (ht _ (mem_targets_farBranch h))
  | tableSwitch hpad hdefault hts hne hhigh =>
    refine .tagged 0xaa
      (reads_tableSwitch hpad hdefault (ht _ ?_) (fun t h => ⟨hts t h, ht t ?_⟩) hne hhigh)
    · exact List.mem_append_right _ List.mem_cons_self
    · exact List.mem_append_left _ h
  | lookupSwitch hpad hdefault hts hcount =>
    refine .tagged 0xab
      (reads_lookupSwitch hpad hdefault (ht _ ?_) (fun p h => ⟨hts p h, ht p.2 ?_⟩) hcount)
    · exact List.mem_append_right _ List.mem_cons_self
    · exact List.mem_append_left _ (List.mem_map_of_mem h)
  | interfaceCall n count zero =>
    exact .tagged 0xb9 (.bind (.u16 n) (.bind_last (.u16_pair count zero) (.pure _)))
  | dynamicCall n a b =>
    exact .tagged 0xba (.bind (.u16 n) (.bind_last (.u16_pair a b) (.pure _)))
  | primitiveArray h =>
    refine .tagged 0xbc (.bind_last (.u8 _) ?_)
    simp only [ofTypeCode?_eq h]
    exact .pure _
  | multiArray n dimensions =>
    exact .tagged 0xc5 (.bind (.u16 n) ((Reads.u8 dimensions).map (newMultiArray n)))

lemma Encodes.length_pos {i : Instruction} {bs : Bytes} (h : Encodes pc i bs) : 0 < bs.length := by
  cases h <;> exact Nat.succ_pos _

/-! ### A code array -/

variable {code : List Located} {bytes : Bytes}

lemma Laid.address_lt (h : Laid pc code bytes) : ∀ l ∈ code, l.address < pc + bytes.length := by
  induction h with
  | nil => simp
  | @cons pc i bs rest code h hcode ih =>
    have hpos := h.length_pos
    rw [List.length_append]
    rintro l (_ | ⟨_, hl⟩)
    · change pc < _
      omega
    · have hlt := ih l hl
      omega

/-- Encodings of instructions are read back one after another. -/
lemma Laid.decodeFrom_eq {fuel : Nat} (h : Laid pc code bytes) (hfuel : bytes.length ≤ fuel)
    (ht : ∀ l ∈ code, ∀ t ∈ l.instruction.targets, t < len) :
    decodeFrom len fuel ⟨pc, bytes⟩ = .ok code := by
  induction h generalizing fuel with
  | nil pc => cases fuel <;> rfl
  | @cons pc i bs rest code h hcode ih =>
    have hpos := h.length_pos
    rw [List.length_append] at hfuel
    obtain ⟨fuel, rfl⟩ : ∃ n, fuel = n + 1 := ⟨fuel - 1, by omega⟩
    have hread : decodeOne len ⟨pc, bs ++ rest⟩ = .ok (i, ⟨pc + bs.length, rest⟩) :=
      h.reads (ht ⟨pc, i⟩ List.mem_cons_self) rest
    have hrest : decodeFrom len fuel ⟨pc + bs.length, rest⟩ = .ok code :=
      ih (by omega) fun l hl => ht l (List.mem_cons_of_mem _ hl)
    have hne : (bs ++ rest).isEmpty = false := by
      rw [List.isEmpty_eq_false_iff, ← List.length_pos_iff, List.length_append]
      omega
    simp only [decodeFrom, hne, Bool.false_eq_true, if_false, StateT.run, hread, hrest]
    rfl

lemma badTarget?_eq_none
    (h : ∀ l ∈ code, ∀ t ∈ l.instruction.targets, t ∈ code.map Located.address) :
    badTarget? code = none := by
  rw [badTarget?, List.findSome?_eq_none_iff]
  intro l hl
  rw [Option.map_eq_none_iff, List.find?_eq_none]
  intro t ht
  simpa using h l hl t ht

/-- Decoding undoes any choice of encodings, if every branch goes to one of the instructions. -/
theorem decode_laid {code : List Located} {bytes : Bytes} (hlaid : Laid 0 code bytes)
    (hne : code ≠ []) (ht : ∀ l ∈ code, ∀ t ∈ l.instruction.targets, t ∈ code.map Located.address) :
    decode bytes = .ok code := by
  have hlt : ∀ l ∈ code, ∀ t ∈ l.instruction.targets, t < bytes.length := by
    intro l hl t htarget
    obtain ⟨m, hm, rfl⟩ := List.mem_map.1 (ht l hl t htarget)
    simpa using hlaid.address_lt m hm
  have hbytes : bytes.isEmpty = false := by
    cases hlaid with
    | nil => exact absurd rfl hne
    | cons h _ => simp [List.length_pos_iff.1 h.length_pos]
  have hcode := hlaid.decodeFrom_eq (Nat.le_refl _) hlt
  simp only [decode, hbytes, Bool.false_eq_true, if_false, Input.start, hcode, bind, Except.bind,
    badTarget?_eq_none ht]
  rfl

/-- Both switches, with padding that is not zero, and short, long and wide forms. -/
def medley : List Located := [
  ⟨0, load .int 300⟩,
  ⟨4, tableSwitch 56 (-1) [0, 86]⟩,
  ⟨28, lookupSwitch 90 [(7, 4), (-2, 68)]⟩,
  ⟨56, iinc 5 (-1)⟩,
  ⟨59, iinc 5 (-200)⟩,
  ⟨65, ifZero .eq 0⟩,
  ⟨68, ldc 7⟩,
  ⟨70, ldc 7⟩,
  ⟨73, invoke .interface 9⟩,
  ⟨78, goto 4⟩,
  ⟨83, goto 86⟩,
  ⟨86, ret 3⟩,
  ⟨88, newArray .boolean⟩,
  ⟨90, returns none⟩]

def medleyBytes : Bytes :=
  [0xc4, 0x15, 0x01, 0x2c] ++
  ([0xaa, 0xde, 0xad, 0xbe, 0x00, 0x00, 0x00, 0x34, 0xff, 0xff, 0xff, 0xff, 0x00, 0x00, 0x00, 0x00,
    0xff, 0xff, 0xff, 0xfc, 0x00, 0x00, 0x00, 0x52] ++
  ([0xab, 0x01, 0x02, 0x03, 0x00, 0x00, 0x00, 0x3e, 0x00, 0x00, 0x00, 0x02, 0x00, 0x00, 0x00, 0x07,
    0xff, 0xff, 0xff, 0xe8, 0xff, 0xff, 0xff, 0xfe, 0x00, 0x00, 0x00, 0x28] ++
  ([0x84, 0x05, 0xff] ++
  ([0xc4, 0x84, 0x00, 0x05, 0xff, 0x38] ++
  ([0x99, 0xff, 0xbf] ++
  ([0x12, 0x07] ++
  ([0x13, 0x00, 0x07] ++
  ([0xb9, 0x00, 0x09, 0xaa, 0xbb] ++
  ([0xc8, 0xff, 0xff, 0xff, 0xb6] ++
  ([0xa7, 0x00, 0x03] ++
  ([0xa9, 0x03] ++
  ([0xbc, 0x04] ++
  ([0xb1] ++ [])))))))))))))

lemma medley_laid : Laid 0 medley medleyBytes := by
  have htable : Encodes 4 (tableSwitch 56 (-1) [0, 86]) _ :=
    .tableSwitch (show Pads 4 [0xde, 0xad, 0xbe] by decide) (by decide) (by decide) (by decide)
      (show Int32.toInt 0 = _ by decide)
  have hlookup : Encodes 28 (lookupSwitch 90 [(7, 4), (-2, 68)]) _ :=
    .lookupSwitch (show Pads 28 [0x01, 0x02, 0x03] by decide) (by decide) (by decide)
      (show Int32.toInt 2 = _ by decide)
  refine .cons (.onWideLocal (f := load .int) (by simp [localOpcodes, rows]) 300) ?_
  refine .cons htable (.cons hlookup ?_)
  refine .cons (.increment 5 (-1)) (.cons (.wideIncrement 5 (-200)) ?_)
  refine .cons (.branch (f := ifZero .eq) (t := 0) (by simp [branchOpcodes, rows]) (by decide)) ?_
  refine .cons (.constant 7) (.cons (.onPool (f := ldc) (by simp [poolOpcodes, rows]) 7) ?_)
  refine .cons (.interfaceCall 9 0xaa 0xbb) ?_
  refine .cons (.farBranch (f := goto) (t := 4) (by simp [farOpcodes, rows]) (by decide)) ?_
  refine .cons (.branch (f := goto) (t := 86) (by simp [branchOpcodes, rows]) (by decide)) ?_
  refine .cons (.onLocal (f := ret) (by simp [localOpcodes, rows]) 3) ?_
  exact .cons (.primitiveArray (by decide)) (.cons (.plain (by decide)) (.nil _))

lemma decode_medley : decode medleyBytes = .ok medley := by decide +kernel

theorem decode_laid_medley :
    Laid 0 medley medleyBytes ∧ medley ≠ [] ∧
    (∀ l ∈ medley, ∀ t ∈ l.instruction.targets, t ∈ medley.map Located.address) ∧
    decode medleyBytes = .ok medley :=
  have htargets : ∀ l ∈ medley, ∀ t ∈ l.instruction.targets, t ∈ medley.map Located.address := by
    decide
  ⟨medley_laid, by decide, htargets, decode_laid medley_laid (by decide) htargets⟩

end Instruction

end ClassScript
