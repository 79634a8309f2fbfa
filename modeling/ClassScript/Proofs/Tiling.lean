import ClassScript.Proofs.AcceptedCode
import ClassScript.Proofs.BranchFaults
import ClassScript.Proofs.Decoding
import Mathlib.Data.List.Chain

/-!
Decoded instructions tile the code array.

The length of an instruction follows from its address and its bytes alone. An array is taken only if
these lengths lead from its start to its end, from one instruction to the next; so every byte
belongs to one instruction. An array in which they lead past the end is refused.
-/

namespace ClassScript.Instruction

/-! ### Lengths -/

/-- The number of bytes after an opcode, for those where it is fixed. -/
def operandBytes (op : UInt8) : Nat :=
  let n := op.toNat
  if n ∈ [0x10, 0x12, 0xa9, 0xbc] ∨ 0x15 ≤ n ∧ n ≤ 0x19 ∨ 0x36 ≤ n ∧ n ≤ 0x3a then 1
  else if n ∈ [0x11, 0x13, 0x14, 0x84, 0xbb, 0xbd, 0xc0, 0xc1, 0xc6, 0xc7] ∨
    0x99 ≤ n ∧ n ≤ 0xa8 ∨ 0xb2 ≤ n ∧ n ≤ 0xb8 then 2
  else if n = 0xc5 then 3
  else if n ∈ [0xb9, 0xba, 0xc8, 0xc9] then 4
  else 0

def padding (pc : Nat) : Nat := (4 - (pc + 1) % 4) % 4

def wordAt (bs : Bytes) (n : Nat) : Int :=
  (UInt32.ofNat (Bytes.toNat ((bs.drop n).take 4))).toInt32.toInt

/-- The length that the bytes give the instruction at the address `pc`, whether or not so many
bytes are there. -/
def lengthAt (pc : Nat) : Bytes → Nat
  | [] => 0
  | op :: operands =>
    -- a default, the lowest and the highest number, and a target for each
    if op = 0xaa then
      1 + padding pc + 12 +
        4 * (wordAt operands (padding pc + 8) - wordAt operands (padding pc + 4) + 1).toNat
    -- a default, the number of pairs, and the pairs
    else if op = 0xab then 1 + padding pc + 8 + 8 * (wordAt operands (padding pc + 4)).toNat
    else if op = 0xc4 then if operands.head? = some 0x84 then 6 else 4
    else 1 + operandBytes op

variable {pc len : Nat} {op : UInt8} {i : Instruction} {bs rest bytes : Bytes} {code : List Located}

lemma Pads.length_eq {pad : Bytes} (h : Pads pc pad) : pad.length = padding pc := by
  obtain ⟨hlt, hmod⟩ := h
  rw [padding]
  omega

lemma length_offset32 (pc t : Nat) : (offset32 pc t).length = 4 := Bytes.length_ofNat _ _

lemma wordAt_append (pre rest : Bytes) (n : Int32) :
    wordAt (pre ++ (Bytes.u32 n.toUInt32 ++ rest)) pre.length = n.toInt := by
  have hfour : (Bytes.u32 n.toUInt32).length = 4 := Bytes.length_ofNat _ _
  rw [wordAt, List.drop_left, List.take_left' hfour, Bytes.u32,
    Bytes.toNat_ofNat n.toUInt32.toNat_lt,
    UInt32.ofNat_toNat]
  rfl

section Switch

variable {pad : Bytes} {default : Nat} {first second : Int32}

/-- The word after the default. -/
lemma Pads.wordAt_first (h : Pads pc pad) :
    wordAt (pad ++ (offset32 pc default ++ (Bytes.u32 first.toUInt32 ++ rest))) (padding pc + 4) =
      first.toInt := by
  have hword := wordAt_append (pad ++ offset32 pc default) rest first
  rwa [List.append_assoc, List.length_append, h.length_eq, length_offset32] at hword

/-- The word after that one. -/
lemma Pads.wordAt_second (h : Pads pc pad) :
    wordAt (pad ++ (offset32 pc default ++
      (Bytes.u32 first.toUInt32 ++ (Bytes.u32 second.toUInt32 ++ rest)))) (padding pc + 8) =
      second.toInt := by
  have hword := wordAt_append (pad ++ offset32 pc default ++ Bytes.u32 first.toUInt32) rest second
  rwa [List.append_assoc, List.append_assoc, List.length_append, List.length_append, h.length_eq,
    length_offset32, Bytes.u32, Bytes.length_ofNat, Nat.add_assoc] at hword

lemma Pads.lengthAt_table (h : Pads pc pad) :
    lengthAt pc (0xaa :: (pad ++ (offset32 pc default ++ (Bytes.u32 first.toUInt32 ++
      (Bytes.u32 second.toUInt32 ++ rest))))) = 13 + padding pc + 4 *
        (second.toInt - first.toInt + 1).toNat := by
  rw [lengthAt, if_pos rfl, h.wordAt_first, h.wordAt_second]
  omega

lemma Pads.lengthAt_lookup (h : Pads pc pad) :
    lengthAt pc (0xab :: (pad ++ (offset32 pc default ++ (Bytes.u32 first.toUInt32 ++ rest)))) =
      9 + padding pc + 8 * first.toInt.toNat := by
  rw [lengthAt, if_neg (by decide), if_pos rfl, h.wordAt_first]
  omega

end Switch

/-- The opcode has so many bytes after it, wherever it stands. -/
def Fixed (n : Nat) (op : UInt8) : Prop := op ≠ 0xaa ∧ op ≠ 0xab ∧ op ≠ 0xc4 ∧ operandBytes op = n

instance (n : Nat) (op : UInt8) : Decidable (Fixed n op) := inferInstanceAs (Decidable (_ ∧ _))

lemma Fixed.lengthAt_eq {n : Nat} (h : Fixed n op) (operands : Bytes) :
    lengthAt pc (op :: operands) = 1 + n := by
  obtain ⟨htable, hlookup, hwide, rfl⟩ := h
  rw [lengthAt, if_neg htable, if_neg hlookup, if_neg hwide]

lemma fixed_of_mem {α : Type} {rows : List (UInt8 × α)} {n : Nat} {x : α}
    (hall : ∀ op ∈ rows.map Prod.fst, Fixed n op) (h : (op, x) ∈ rows) : Fixed n op :=
  hall op (List.mem_map_of_mem h)

lemma length_flatMap_eq {α : Type} {write : α → Bytes} {n : Nat} (h : ∀ x, (write x).length = n)
    (xs : List α) :
    (xs.flatMap write).length = n * xs.length := by
  induction xs with
  | nil => rfl
  | cons x xs ih =>
    rw [List.flatMap_cons, List.length_append, h, ih, List.length_cons]
    ring

/-- **An instruction is as long as its address and its bytes say**, whatever stands after it. -/
lemma Spelled.lengthAt_eq (h : Spelled pc i bs) (rest : Bytes) :
    lengthAt pc (bs ++ rest) = bs.length := by
  have hu32 (n : UInt32) : (Bytes.u32 n).length = 4 := Bytes.length_ofNat _ _
  cases h with
  | legal h =>
    cases h with
    | plain h => exact (fixed_of_mem (by decide +kernel) h).lengthAt_eq (n := 0) rest
    | byteConstant v => rfl
    | shortConstant v => rfl
    | constant n => rfl
    | onLocal h n => exact (fixed_of_mem (by decide +kernel) h).lengthAt_eq (n := 1) (n :: rest)
    | @onWideLocal op f h n =>
      have hop : ∀ op ∈ localOpcodes.map Prod.fst, ¬ op = 0x84 := by decide +kernel
      have hne : ¬ some op = some 0x84 :=
        fun heq => hop op (List.mem_map_of_mem h) (Option.some.inj heq)
      change (if some op = some 0x84 then 6 else 4) = 4
      rw [if_neg hne]
    | increment n v => rfl
    | wideIncrement n v => rfl
    | onPool h n => exact (fixed_of_mem (by decide +kernel) h).lengthAt_eq (n := 2) _
    | branch h ht => exact (fixed_of_mem (by decide +kernel) h).lengthAt_eq (n := 2) _
    | farBranch h ht => exact (fixed_of_mem (by decide +kernel) h).lengthAt_eq (n := 4) _
    | @tableSwitch pad default low high ts hpad hdefault hts hne hhigh =>
      have htargets : (ts.flatMap (offset32 pc)).length = 4 * ts.length :=
        length_flatMap_eq (length_offset32 pc) ts
      simp only [List.cons_append, List.append_assoc, hpad.lengthAt_table, List.length_cons,
        List.length_append, hpad.length_eq, length_offset32, hu32, htargets]
      omega
    | @lookupSwitch pad default count pairs hpad hdefault hts hcount =>
      have hpair (p : Int32 × Nat) : (Bytes.u32 p.1.toUInt32 ++ offset32 pc p.2).length = 8 := by
        rw [List.length_append, hu32, length_offset32]
      have hpairs := length_flatMap_eq hpair pairs
      simp only [List.cons_append, List.append_assoc, hpad.lengthAt_lookup, List.length_cons,
        List.length_append, hpad.length_eq, length_offset32, hu32, hpairs]
      omega
    | interfaceCall n count zero => rfl
    | dynamicCall n a b => rfl
    | primitiveArray h => rfl
    | multiArray n d => rfl
  | @negativeCount pad default count hpad hdefault hcount =>
    simp only [List.cons_append, List.append_assoc, hpad.lengthAt_lookup, List.length_cons,
      List.length_append, hpad.length_eq, length_offset32, hu32]
    omega

/-! ### The array -/

def stopAt (bytes : Bytes) (pc : Nat) : Nat := pc + lengthAt pc (bytes.drop pc)

/-- The instructions take up the array, each from its address on. -/
structure Tiled (bytes : Bytes) (code : List Located) : Prop where
  first : code.head?.map Located.address = some 0
  rising : (code.map Located.address).Pairwise (· < ·)
  /-- Each ends where the next one starts, -/
  next : code.IsChain fun l l' => stopAt bytes l.address = l'.address
  /-- and the last with the array. -/
  last : ∀ l ∈ code.getLast?, stopAt bytes l.address = bytes.length
  owner : ∀ k < bytes.length, ∃! l, l ∈ code ∧ l.address ≤ k ∧ k < stopAt bytes l.address
  targets : ∀ l ∈ code, ∀ t ∈ l.instruction.targets, ∃ l' ∈ code, l'.address = t

namespace Scanned

lemma le_address (h : Scanned pc code bs) : ∀ l ∈ code, pc ≤ l.address := by
  induction h with
  | nil => simp
  | @cons pc i bs rest code h hcode ih =>
    rintro l (_ | ⟨_, hl⟩)
    · exact Nat.le_refl _
    · exact Nat.le_trans (Nat.le_add_right _ _) (ih l hl)

/-- The first instruction stands at the first byte. -/
lemma head?_eq (h : Scanned pc code bs) (hbs : bs ≠ []) :
    code.head?.map Located.address = some pc := by
  cases h with
  | nil => exact absurd rfl hbs
  | cons => rfl

lemma rising (h : Scanned pc code bs) : (code.map Located.address).Pairwise (· < ·) := by
  induction h with
  | nil => exact .nil
  | @cons pc i bs rest code h hcode ih =>
    refine List.pairwise_cons.mpr ⟨fun a ha => ?_, ih⟩
    obtain ⟨l, hl, rfl⟩ := List.mem_map.mp ha
    have hpos := h.length_pos
    have hle := hcode.le_address l hl
    dsimp only
    omega

lemma stopAt_eq (h : Spelled pc i bs) (hbytes : bytes.drop pc = bs ++ rest) :
    stopAt bytes pc = pc + bs.length := by
  rw [stopAt, hbytes, h.lengthAt_eq]

lemma drop_add (hbytes : bytes.drop pc = bs ++ rest) : bytes.drop (pc + bs.length) = rest := by
  rw [← List.drop_drop, hbytes, List.drop_left]

lemma next (h : Scanned pc code bs) (hbytes : bytes.drop pc = bs) :
    code.IsChain fun l l' => stopAt bytes l.address = l'.address := by
  induction h with
  | nil => exact .nil
  | @cons pc i bs rest code h hcode ih =>
    refine (ih (drop_add hbytes)).cons fun l hl => ?_
    cases hcode with
    | nil => cases hl
    | cons =>
      cases hl
      exact stopAt_eq h hbytes

lemma last (h : Scanned pc code bs) (hbytes : bytes.drop pc = bs) :
    ∀ l ∈ code.getLast?, stopAt bytes l.address = bytes.length := by
  induction h with
  | nil => simp
  | @cons pc i bs rest code h hcode ih =>
    have hih := ih (drop_add hbytes)
    cases hcode with
    | nil =>
      rintro l ⟨⟩
      change stopAt bytes pc = _
      have hlength := congrArg List.length hbytes
      have hpos := h.length_pos
      rw [List.append_nil, List.length_drop] at hlength
      rw [stopAt_eq h hbytes]
      omega
    | cons h' hcode =>
      rwa [List.getLast?_cons_cons]

/-- Every byte from `pc` on belongs to one instruction. -/
lemma owner (h : Scanned pc code bs) (hbytes : bytes.drop pc = bs) {k : Nat} (hpc : pc ≤ k)
    (hk : k < bytes.length) :
    ∃! l, l ∈ code ∧ l.address ≤ k ∧ k < stopAt bytes l.address := by
  induction h with
  | nil =>
    have hlength := List.drop_eq_nil_iff.mp hbytes
    omega
  | @cons pc i bs rest code h hcode ih =>
    have hstop := stopAt_eq h hbytes
    by_cases hin : k < pc + bs.length
    · refine ⟨⟨pc, i⟩, ⟨List.mem_cons_self, hpc, hstop ▸ hin⟩, ?_⟩
      rintro l ⟨_ | ⟨_, hl⟩, hle, -⟩
      · rfl
      · have hafter := hcode.le_address l hl
        omega
    · obtain ⟨l, ⟨hl, hle, hlt⟩, hunique⟩ := ih (drop_add hbytes) (by omega)
      refine ⟨l, ⟨List.mem_cons_of_mem _ hl, hle, hlt⟩, ?_⟩
      rintro l' ⟨_ | ⟨_, hl'⟩, hle', hlt'⟩
      · exact absurd (hstop ▸ hlt') hin
      · exact hunique l' ⟨hl', hle', hlt'⟩

end Scanned

/-! ### The loop -/

def checked (r : Except DecodeError (List Located)) : Except DecodeError (List Located) :=
  r.bind fun code =>
    match badTarget? code with
    | some (pc, t) => .error (.badTarget pc t)
    | none => .ok code

lemma decode_eq_checked (h : bytes ≠ []) :
    decode bytes = checked (decodeFrom bytes.length bytes.length (.start bytes)) := by
  have hempty : bytes.isEmpty = false := List.isEmpty_eq_false_iff.mpr h
  rw [decode, hempty]
  rfl

/-- The instructions from an input on, with a rule for each thing that can happen and no bound on
their number. A derivation is a run that has come to its end. -/
inductive Scan (len : Nat) : Input → Except DecodeError (List Located) → Prop where
  | ended (o : Nat) : Scan len ⟨o, []⟩ (.ok [])
  | read {input next : Input} {i : Instruction} {r : Except DecodeError (List Located)}
    (hmore : input.rest ≠ []) (h : decodeOne len input = .ok (i, next)) (hrest : Scan len next r) :
    Scan len input (r.map (⟨input.offset, i⟩ :: ·))
  | cut {input : Input} (hmore : input.rest ≠ []) (h : decodeOne len input = .error .endOfData) :
    Scan len input (.error (.truncated input.offset))
  | refused {input : Input} {e : DecodeError} (hmore : input.rest ≠ [])
    (h : decodeOne len input = .error (.fault e)) : Scan len input (.error e)

lemma decodeFrom_scan {fuel : Nat} {input : Input} (hfuel : input.rest.length ≤ fuel) :
    Scan len input (decodeFrom len fuel input) := by
  induction fuel generalizing input with
  | zero =>
    obtain ⟨o, rest⟩ := input
    obtain rfl : rest = [] := List.eq_nil_of_length_eq_zero (Nat.le_zero.mp hfuel)
    exact .ended o
  | succ fuel ih =>
    rw [decodeFrom]
    split_ifs with hempty
    · obtain ⟨o, rest⟩ := input
      obtain rfl := List.isEmpty_iff.mp hempty
      exact .ended o
    · have hmore : input.rest ≠ [] := fun h => hempty (List.isEmpty_iff.mpr h)
      split
      next i next hone =>
        refine .read hmore hone (ih ?_)
        obtain ⟨used, hused, -, hspelled⟩ := decodeOne_consumes hone
        have hpos := hspelled.length_pos
        rw [hused, List.length_append] at hfuel
        omega
      next hone => exact .cut hmore hone
      next e hone => exact .refused hmore hone

/-! ### Accepted arrays -/

lemma exists_of_badTarget? (h : badTarget? code = none) :
    ∀ l ∈ code, ∀ t ∈ l.instruction.targets, ∃ l' ∈ code, l'.address = t := by
  intro l hl t ht
  rw [badTarget?, List.findSome?_eq_none_iff] at h
  have hfound := h l hl
  rw [Option.map_eq_none_iff, List.find?_eq_none] at hfound
  simpa using hfound t ht

lemma decode_tiled (h : decode bytes = .ok code) : Tiled bytes code := by
  obtain ⟨hempty, hfrom⟩ := decode_cases h
  have hne : bytes ≠ [] := List.isEmpty_eq_false_iff.mp hempty
  have hscanned : Scanned 0 code bytes := decodeFrom_scanned (Nat.le_refl _) hfrom
  refine ⟨hscanned.head?_eq hne, hscanned.rising, hscanned.next rfl, hscanned.last rfl,
    fun k hk => hscanned.owner rfl (Nat.zero_le k) hk, exists_of_badTarget? ?_⟩
  rw [decode_eq_checked hne, hfrom, checked, Except.bind] at h
  split at h
  · cases h
  · assumption

/-- An instruction ends where another starts, or with the array. -/
lemma Tiled.stop_cases (h : Tiled bytes code) {l : Located} (hl : l ∈ code) :
    stopAt bytes l.address = bytes.length ∨ ∃ l' ∈ code, stopAt bytes l.address = l'.address := by
  obtain ⟨before, after, rfl⟩ := List.append_of_mem hl
  cases after with
  | nil => exact .inl (h.last l (by simp))
  | cons l' after =>
    have hnext := (List.isChain_append_cons_cons.mp h.next).2.1
    exact .inr ⟨l', by simp, hnext⟩

/-- The addresses to which the lengths lead from the start of the array. -/
inductive Starts (bytes : Bytes) : Nat → Prop where
  | zero : Starts bytes 0
  | next {pc : Nat} (h : Starts bytes pc) (hlt : pc < bytes.length) : Starts bytes (stopAt bytes pc)

lemma Tiled.exists_of_starts (h : Tiled bytes code) (hpc : Starts bytes pc)
    (hlt : pc < bytes.length) :
    ∃ l ∈ code, l.address = pc := by
  induction hpc with
  | zero =>
    obtain ⟨l, hl, haddress⟩ := Option.map_eq_some_iff.mp h.first
    exact ⟨l, List.mem_of_mem_head? hl, haddress⟩
  | next hpc hpclt ih =>
    obtain ⟨l, hl, rfl⟩ := ih hpclt
    obtain hend | ⟨l', hl', hstop⟩ := h.stop_cases hl
    · omega
    · exact ⟨l', hl', hstop.symm⟩

lemma decode_overrun (hpc : Starts bytes pc) (hlt : pc < bytes.length)
    (hover : bytes.length < stopAt bytes pc) :
    ∃ e, decode bytes = .error e := by
  cases hcode : decode bytes with
  | error e => exact ⟨e, rfl⟩
  | ok code =>
    have htiled := decode_tiled hcode
    obtain ⟨l, hl, rfl⟩ := htiled.exists_of_starts hpc hlt
    obtain hend | ⟨l', hl', hstop⟩ := htiled.stop_cases hl
    · omega
    · have hinside := decode_address_lt hcode l' hl'
      omega

/-- Labels are at instructions if all branches go to instructions. -/
lemma labels_onTarget (h : Tiled bytes code) (handlers : List Handler) (length pc : Nat) :
    Labels.of code handlers length ≠ .error (.branchOutsideCode pc) := by
  have hnone : (code.flatMap (·.instruction.targets)).filter
      (fun pc => !code.any (·.address == pc)) = [] := by
    rw [List.filter_eq_nil_iff]
    intro t ht
    obtain ⟨l, hl, htarget⟩ := List.mem_flatMap.mp ht
    simpa using h.targets l hl t htarget
  intro hlabels
  simp only [Labels.of, hnone, List.min?_nil] at hlabels
  split at hlabels
  · cases hlabels
  · split at hlabels <;> cases hlabels

/-- **Decoded instructions tile the code array.** They follow one another from its start to its end
by the lengths that their bytes give them, each byte belongs to one of them, and branches go from
one to another; so no method is refused for a branch to where no instruction is. Reading comes to an
end on every array, and an array is refused if a length leads past its end. -/
theorem instructions_tile (bytes : Bytes) :
    (∀ code, decode bytes = .ok code → Tiled bytes code) ∧
      (∀ (g : Generator) (c : ClassDecl) (m : MethodDecl) (s t : Session)
        (e : GenerationError) (pc : Nat),
        m.bytecode = bytes → g.function c m s = (.error e, t) →
          e.cause ≠ .fault (.defect (.branchOutsideCode pc))) ∧
      (bytes ≠ [] → ∃ r, Scan bytes.length (.start bytes) r ∧ decode bytes = checked r) ∧
      ∀ pc, Starts bytes pc → pc < bytes.length → bytes.length < stopAt bytes pc →
        ∃ e, decode bytes = .error e := by
  refine ⟨fun code => decode_tiled, ?_, ?_, fun pc => decode_overrun⟩
  · rintro g c m s t e pc rfl hrun hcause
    have hbody : (g.body c m).OnTarget := Generator.body_onTarget fun code hcode =>
      labels_onTarget (decode_tiled hcode) m.handlers m.bytecode.length
    exact (Generator.function_onTarget hbody s).error hrun _ hcause pc rfl
  · intro hne
    exact ⟨_, decodeFrom_scan (Nat.le_refl _), decode_eq_checked hne⟩

/-- An array with both switches, and the same array cut off in the second one. -/
theorem instructions_tile_medley :
    (decode medleyBytes = .ok medley ∧ Tiled medleyBytes medley) ∧
      Starts (medleyBytes.take 50) 28 ∧
        (medleyBytes.take 50).length < stopAt (medleyBytes.take 50) 28 ∧
      ∃ e, decode (medleyBytes.take 50) = .error e := by
  have hstarts : Starts (medleyBytes.take 50) 28 := .next (.next .zero (by decide)) (by decide)
  have hover : (medleyBytes.take 50).length < stopAt (medleyBytes.take 50) 28 := by decide
  exact ⟨⟨decode_medley, (instructions_tile medleyBytes).1 medley decode_medley⟩, hstarts, hover,
    (instructions_tile (medleyBytes.take 50)).2.2.2 28 hstarts (by decide) hover⟩

end ClassScript.Instruction
