import ClassScript.Proofs.Encodings

/-!
What the decoder takes for an instruction.

Every instruction that is read stands in the bytes it was read from: they are one of its encodings.
There is one exception. A negative number of pairs in a switch is taken for none, although no
encoding has it. So a code array is cut into such pieces from its start to its end.
-/

namespace ClassScript

namespace Bytes

lemma toNat_cons (b : UInt8) (bs : Bytes) :
    toNat (b :: bs) = b.toNat * 256 ^ bs.length + toNat bs := by
  have hfold (acc : Nat) : bs.foldl (fun n b => n * 256 + b.toNat) acc =
      acc * 256 ^ bs.length + toNat bs := by
    induction bs generalizing acc with
    | nil => simp [toNat]
    | cons c bs ih =>
      rw [toNat, List.foldl_cons, List.foldl_cons, ih, ih, List.length_cons]
      ring
  rw [toNat, List.foldl_cons, hfold, Nat.zero_mul, Nat.zero_add]

lemma toNat_lt (bs : Bytes) : toNat bs < 256 ^ bs.length := by
  induction bs with
  | nil => simp [toNat]
  | cons b bs ih =>
    have hb : b.toNat + 1 ≤ 256 := b.toNat_lt
    have hle : (b.toNat + 1) * 256 ^ bs.length ≤ 256 * 256 ^ bs.length := Nat.mul_le_mul_right _ hb
    rw [toNat_cons, List.length_cons, Nat.pow_succ']
    rw [Nat.add_mul, Nat.one_mul] at hle
    omega

/-- The low bytes of a number do not depend on what stands above them. -/
lemma ofNat_add_mul (width m n : Nat) : ofNat width (m * 256 ^ width + n) = ofNat width n := by
  induction width generalizing m with
  | zero => rfl
  | succ width ih =>
    have hhigh : (m * 256 ^ (width + 1) + n) / 256 ^ width = 256 * m + n / 256 ^ width := by
      rw [Nat.pow_succ, show m * (256 ^ width * 256) + n = n + 256 ^ width * (256 * m) by ring,
        Nat.add_mul_div_left _ _ (Nat.pow_pos (by decide)), Nat.add_comm]
    have hbyte : UInt8.ofNat (256 * m + n / 256 ^ width) = UInt8.ofNat (n / 256 ^ width) := by
      rw [← UInt8.toNat_inj, UInt8.toNat_ofNat', UInt8.toNat_ofNat']
      omega
    rw [ofNat, ofNat, Nat.pow_eq, hhigh, hbyte, Nat.pow_succ, Nat.mul_left_comm,
      Nat.mul_comm _ (m * 256),
      ih (m * 256)]

/-- Bytes are those of the number that they spell. -/
lemma ofNat_toNat (bs : Bytes) : ofNat bs.length (toNat bs) = bs := by
  induction bs with
  | nil => rfl
  | cons b bs ih =>
    have hhead : (b.toNat * 256 ^ bs.length + toNat bs) / 256 ^ bs.length = b.toNat := by
      rw [Nat.mul_comm, Nat.mul_add_div (Nat.pow_pos (by decide)), Nat.div_eq_of_lt (toNat_lt bs),
        Nat.add_zero]
    rw [toNat_cons, List.length_cons, ofNat, Nat.pow_eq, hhead, UInt8.ofNat_toNat,
      ofNat_add_mul, ih]

end Bytes

namespace Reader

variable {ε α β : Type}

/-- What the reader reads at the offset `o` is related by `Q` to the bytes that it takes. -/
def Consumes (o : Nat) (r : Reader ε α) (Q : Bytes → α → Prop) : Prop :=
  ∀ ⦃bs : Bytes⦄ ⦃a : α⦄ ⦃j : Input⦄, r ⟨o, bs⟩ = .ok (a, j) →
    ∃ used, bs = used ++ j.rest ∧ j.offset = o + used.length ∧ Q used a

namespace Consumes

variable {o : Nat} {r r' : Reader ε α} {k : α → Reader ε β} {Q Q' : Bytes → α → Prop}
  {R : Bytes → β → Prop}

lemma pure {a : α} (h : Q [] a) : Consumes o (pure a : Reader ε α) Q := by
  intro bs b j hrun
  cases hrun
  exact ⟨[], rfl, rfl, h⟩

lemma fail (cause : ε) : Consumes o (fail cause : Reader ε α) Q := by
  intro bs a j hrun
  cases hrun

/-- Nothing follows a failure. -/
lemma fail_bind (cause : ε) : Consumes o (Reader.fail cause >>= k) R := by
  intro bs b j hrun
  cases hrun

lemma mono (h : Consumes o r Q) (hQ : ∀ used a, Q used a → Q' used a) : Consumes o r Q' := by
  intro bs a j hrun
  obtain ⟨used, hbs, hoffset, ha⟩ := h hrun
  exact ⟨used, hbs, hoffset, hQ used a ha⟩

lemma bind (h : Consumes o r Q)
    (hk : ∀ used a, Q used a → Consumes (o + used.length) (k a) fun used' b =>
      R (used ++ used') b) :
    Consumes o (r >>= k) R := by
  intro bs b j hboth
  obtain ⟨a, ⟨m, rest⟩, hr, hrun⟩ := bind_eq_ok hboth
  obtain ⟨used, rfl, rfl, ha⟩ := h hr
  obtain ⟨used', hrest, hoffset, hb⟩ := hk used a ha hrun
  refine ⟨used ++ used', ?_, ?_, hb⟩
  · rw [List.append_assoc, ← hrest]
  · rw [hoffset, List.length_append, Nat.add_assoc]

/-- A value that says how it is written, and what follows it. -/
lemma bind_write {write : α → Bytes} (h : Consumes o r fun used a => used = write a)
    (hk : ∀ a, Consumes (o + (write a).length) (k a) fun used b => R (write a ++ used) b) :
    Consumes o (r >>= k) R := by
  refine bind h fun used a ha => ?_
  subst ha
  exact hk a

/-- The last part of a value. -/
lemma map (h : Consumes o r Q) {f : α → β} (hf : ∀ used a, Q used a → R used (f a)) :
    Consumes o (r >>= fun x => Pure.pure (f x)) R := by
  refine bind h fun used a ha => pure ?_
  rw [List.append_nil]
  exact hf used a ha

lemma ite {c : Prop} [Decidable c] (h : c → Consumes o r Q) (h' : ¬ c → Consumes o r' Q) :
    Consumes o (if c then r else r') Q := by
  split
  next hc => exact h hc
  next hc => exact h' hc

lemma take (n : Nat) :
    Consumes o (take n : Reader ε Bytes) fun used a => used = a ∧ a.length = n := by
  intro bs a j hrun
  change (if _ then _ else _) = _ at hrun
  split at hrun
  next hlen =>
    cases hrun
    exact ⟨bs.take n, (List.take_append_drop n bs).symm, by rw [hlen], rfl, hlen⟩
  next => cases hrun

lemma nat (n : Nat) :
    Consumes o (nat n : Reader ε Nat) fun used a => used = Bytes.ofNat n a ∧ a < 256 ^ n := by
  refine (take n).map fun used a ha => ?_
  obtain ⟨rfl, rfl⟩ := ha
  exact ⟨(Bytes.ofNat_toNat used).symm, Bytes.toNat_lt used⟩

lemma u8 : Consumes o (u8 : Reader ε UInt8) fun used a => used = [a] := by
  refine (nat 1).map fun used a ha => ?_
  simpa [Bytes.ofNat] using ha.1

lemma u16 : Consumes o (u16 : Reader ε UInt16) fun used a => used = Bytes.u16 a := by
  refine (nat 2).map fun used a ha => ?_
  rw [Bytes.u16, UInt16.toNat_ofNat_of_lt' ha.2]
  exact ha.1

lemma u32 : Consumes o (u32 : Reader ε UInt32) fun used a => used = Bytes.u32 a := by
  refine (nat 4).map fun used a ha => ?_
  rw [Bytes.u32, UInt32.toNat_ofNat_of_lt' ha.2]
  exact ha.1

lemma i8 : Consumes o (i8 : Reader ε Int8) fun used a => used = [a.toUInt8] :=
  u8.map fun _ _ ha => ha

lemma i16 : Consumes o (i16 : Reader ε Int16) fun used a => used = Bytes.u16 a.toUInt16 :=
  u16.map fun _ _ ha => ha

lemma i32 : Consumes o (i32 : Reader ε Int32) fun used a => used = Bytes.u32 a.toUInt32 :=
  u32.map fun _ _ ha => ha

/-- A byte that says what follows it. -/
lemma tagged {k : Nat → UInt8 → Reader ε β}
    (hk : ∀ tag, Consumes (o + 1) (k o tag) fun used b => R (tag :: used) b) :
    Consumes o (Reader.offset >>= fun start => Reader.u8 >>= k start) R := by
  have hbyte : Consumes o (Reader.u8 >>= k o) R := bind_write u8 hk
  exact hbyte

/-- Items one after another. -/
lemma many {write : α → Bytes} {P : α → Prop}
    (h : ∀ o, Consumes o r fun used a => used = write a ∧ P a) (n : Nat) :
    Consumes o (many n r) fun used xs => used = xs.flatMap write ∧
      xs.length = n ∧ ∀ x ∈ xs, P x := by
  induction n generalizing o with
  | zero => exact pure ⟨rfl, rfl, by simp⟩
  | succ n ih =>
    refine bind (h o) fun used x hx => ih.map fun used' xs hxs => ?_
    obtain ⟨rfl, hP⟩ := hx
    obtain ⟨rfl, rfl, hall⟩ := hxs
    exact ⟨rfl, rfl, List.forall_mem_cons.mpr ⟨hP, hall⟩⟩

end Consumes

end Reader

namespace Instruction

open Reader (Consumes)

/-- The bytes are taken for the instruction when they stand at the address `pc`. -/
inductive Spelled (pc : Nat) : Instruction → Bytes → Prop where
  | legal {i : Instruction} {bs : Bytes} (h : Encodes pc i bs) : Spelled pc i bs
  | negativeCount {pad : Bytes} {default : Nat} {count : Int32} (hpad : Pads pc pad)
    (hdefault : Within 32 pc default) (hcount : count.toInt < 0) :
    Spelled pc (lookupSwitch default [])
    (0xab :: (pad ++ (offset32 pc default ++ Bytes.u32 count.toUInt32)))

/-! ### Opcodes -/

variable {len pc o : Nat} {op : UInt8}

/-- What holds of all opcodes, checked one by one. -/
lemma forall_opcode {P : UInt8 → Nat → Prop} (h : ∀ n < 256, P (UInt8.ofNat n) n) (op : UInt8) :
    P op op.toNat := by
  have hop := h op.toNat op.toNat_lt
  rwa [UInt8.ofNat_toNat] at hop

lemma mem_plainOpcodes {i : Instruction} (h : plain? op.toNat = some i) : (op, i) ∈ plainOpcodes :=
  forall_opcode (P := fun op n => ∀ i ∈ plain? n, (op, i) ∈ plainOpcodes) (by decide +kernel) op i h

lemma exists_row {α : Type} {rows : List (UInt8 × α)} (h : op ∈ rows.map Prod.fst) :
    ∃ x, (op, x) ∈ rows := by
  obtain ⟨⟨op', x⟩, hrow, rfl⟩ := List.mem_map.mp h
  exact ⟨x, hrow⟩

lemma exists_onLocal {index : UInt16} (h : (onLocal? op.toNat index).isSome) :
    ∃ f, (op, f) ∈ localOpcodes := by
  have hindex : (onLocal? op.toNat index).isSome = (onLocal? op.toNat 0).isSome := by
    simp only [onLocal?]
    split_ifs <;> rfl
  exact exists_row (forall_opcode
    (P := fun op n => (onLocal? n 0).isSome → op ∈ localOpcodes.map Prod.fst)
    (by decide +kernel) op (hindex ▸ h))

lemma exists_onPool (h : (onPool? op.toNat 0).isSome) : ∃ f, (op, f) ∈ poolOpcodes :=
  exists_row (forall_opcode (P := fun op n => (onPool? n 0).isSome → op ∈ poolOpcodes.map Prod.fst)
    (by decide +kernel) op h)

lemma exists_onBranch (h : (onBranch? op.toNat 0).isSome) : ∃ f, (op, f) ∈ branchOpcodes :=
  exists_row (forall_opcode
    (P := fun op n => (onBranch? n 0).isSome → op ∈ branchOpcodes.map Prod.fst)
    (by decide +kernel) op h)

lemma mem_typeCodes {code : UInt8} {kind : ArrayKind}
    (h : ArrayKind.ofTypeCode? code.toNat = some kind) :
    (code, kind) ∈ typeCodes :=
  forall_opcode (P := fun code n => ∀ kind ∈ ArrayKind.ofTypeCode? n, (code, kind) ∈ typeCodes)
    (by decide +kernel) code kind h

/-! ### Branches -/

/-- The address that an offset gives is where the offset leads. -/
lemma target_consumes (d : Int) :
    Consumes o (target len pc d) fun used t => used = [] ∧ (t : Int) = pc + d := by
  refine .ite (fun _ => .fail _) fun h => .pure ⟨rfl, ?_⟩
  omega

lemma offset16_eq {d : Int16} {t : Nat} (h : (t : Int) = pc + d.toInt) :
    Within 16 pc t ∧ Bytes.u16 d.toUInt16 = offset16 pc t := by
  have hd : (t - pc : Int) = d.toInt := by omega
  refine ⟨⟨?_, ?_⟩, ?_⟩
  · rw [hd]
    exact d.le_toInt
  · rw [hd]
    exact d.toInt_lt
  · rw [offset16, hd, Int16.ofInt_toInt]

lemma offset32_eq {d : Int32} {t : Nat} (h : (t : Int) = pc + d.toInt) :
    Within 32 pc t ∧ Bytes.u32 d.toUInt32 = offset32 pc t := by
  have hd : (t - pc : Int) = d.toInt := by omega
  refine ⟨⟨?_, ?_⟩, ?_⟩
  · rw [hd]
    exact d.le_toInt
  · rw [hd]
    exact d.toInt_lt
  · rw [offset32, hd, Int32.ofInt_toInt]

lemma farBranch_consumes :
    Consumes o (do target len pc (← Reader.i32).toInt : Decoder Nat)
      fun used t => used = offset32 pc t ∧ Within 32 pc t := by
  refine .bind_write .i32 fun d => (target_consumes d.toInt).mono fun used t ht => ?_
  obtain ⟨rfl, ht⟩ := ht
  obtain ⟨hwithin, hbytes⟩ := offset32_eq ht
  rw [List.append_nil]
  exact ⟨hbytes, hwithin⟩

/-! ### Switches -/

/-- Padding may run over the end of the data, but the word that follows it may not. -/
lemma padded_consumes {α : Type} {k : Int32 → Decoder α} {R : Bytes → α → Prop}
    (hk : ∀ pad n o, Pads pc pad → Consumes o (k n) fun used a =>
      R (pad ++ (Bytes.u32 n.toUInt32 ++ used)) a) :
    Consumes o (skipPadding pc >>= fun _ => Reader.i32 >>= k) R := by
  intro bs a j hrun
  change (Reader.i32 >>= k)
    ⟨o + (4 - (pc + 1) % 4) % 4, bs.drop ((4 - (pc + 1) % 4) % 4)⟩ = _ at hrun
  generalize hn : (4 - (pc + 1) % 4) % 4 = n at hrun
  obtain ⟨d, m, hd, -⟩ := Reader.bind_eq_ok hrun
  obtain ⟨word, hword, -, rfl⟩ := Consumes.i32 hd
  have hlong : n ≤ bs.length := by
    by_contra hshort
    rw [List.drop_eq_nil_of_le (by omega)] at hword
    have hlength := congrArg List.length hword
    rw [List.length_append, Bytes.u32, Bytes.length_ofNat] at hlength
    simp only [List.length_nil] at hlength
    omega
  have hlen : (bs.take n).length = n := by rw [List.length_take, Nat.min_eq_left hlong]
  have hpad : Pads pc (bs.take n) := by
    rw [Pads, hlen]
    omega
  have hword' : Consumes (o + n) (Reader.i32 >>= k) fun used a => R (bs.take n ++ used) a :=
    .bind_write .i32 fun d => hk _ d _ hpad
  obtain ⟨used, hused, hoffset, ha⟩ := hword' hrun
  refine ⟨bs.take n ++ used, ?_, ?_, ha⟩
  · rw [List.append_assoc, ← hused, List.take_append_drop]
  · rw [hoffset, List.length_append, hlen, Nat.add_assoc]

/-- Both kinds of switch start with a default. -/
lemma default_consumes {α : Type} {k : Nat → Decoder α} {R : Bytes → α → Prop}
    (hk : ∀ pad default o, Pads pc pad → Within 32 pc default →
      Consumes o (k default) fun used a => R (pad ++ (offset32 pc default ++ used)) a) :
    Consumes o (skipPadding pc >>= fun _ => Reader.i32 >>= fun d =>
      target len pc d.toInt >>= k) R := by
  refine padded_consumes fun pad d o hpad =>
    .bind (target_consumes d.toInt) fun used default hdefault => ?_
  obtain ⟨rfl, hdefault⟩ := hdefault
  obtain ⟨hwithin, hbytes⟩ := offset32_eq hdefault
  rw [hbytes]
  exact hk pad default _ hpad hwithin

lemma decodeTableSwitch_consumes :
    Consumes o (decodeTableSwitch len pc) fun used i => Spelled pc i (0xaa :: used) := by
  refine default_consumes fun pad default o hpad hwithin => ?_
  refine .bind_write .i32 fun low => .bind_write .i32 fun high =>
    .ite (fun _ => .fail_bind _) fun hle => ?_
  refine (Consumes.many (fun _ => farBranch_consumes) _).map fun used ts hts => ?_
  obtain ⟨rfl, hlength, hall⟩ := hts
  rw [Int32.lt_iff_toInt_lt] at hle
  have hne : ts ≠ [] := by
    rw [← List.length_pos_iff]
    omega
  exact .legal (.tableSwitch hpad hwithin hall hne (by omega))

lemma decodeLookupSwitch_consumes :
    Consumes o (decodeLookupSwitch len pc) fun used i => Spelled pc i (0xab :: used) := by
  refine default_consumes fun pad default o hpad hwithin => ?_
  have hpair (o : Nat) : Consumes o (do
      let key ← Reader.i32
      return (key, ← target len pc (← Reader.i32).toInt) : Decoder (Int32 × Nat))
      fun used p => used = Bytes.u32 p.1.toUInt32 ++ offset32 pc p.2 ∧ Within 32 pc p.2 := by
    refine .bind_write .i32 fun key => .bind_write .i32 fun d =>
      (target_consumes d.toInt).map fun used t ht => ?_
    obtain ⟨rfl, ht⟩ := ht
    obtain ⟨hwithin, hbytes⟩ := offset32_eq ht
    rw [List.append_nil, hbytes]
    exact ⟨rfl, hwithin⟩
  refine .bind_write .i32 fun count => (Consumes.many hpair _).map fun used pairs hpairs => ?_
  obtain ⟨rfl, hlength, hall⟩ := hpairs
  by_cases hcount : count.toInt < 0
  · obtain rfl : pairs = [] := List.eq_nil_of_length_eq_zero (by omega)
    rw [List.flatMap_nil, List.append_nil]
    exact .negativeCount hpad hwithin hcount
  · exact .legal (.lookupSwitch hpad hwithin hall (by omega))

lemma decodeWide_consumes :
    Consumes o (decodeWide pc) fun used i => Spelled pc i (0xc4 :: used) := by
  refine .bind_write .u8 fun op => .bind_write .u16 fun n => .ite (fun hop => ?_) fun _ => ?_
  · subst hop
    refine Consumes.i16.map fun used v hv => ?_
    subst hv
    exact .legal (.wideIncrement n v)
  · split
    next i hi =>
      obtain ⟨f, hf⟩ := exists_onLocal (Option.isSome_of_eq_some hi)
      rw [onLocal?_eq hf, Option.some.injEq] at hi
      subst hi
      refine .pure ?_
      rw [List.append_nil]
      exact .legal (.onWideLocal hf n)
    next => exact .fail _

/-! ### One instruction -/

/-- A jump whose offset takes four bytes. -/
lemma farJump_consumes {f : Nat → Instruction} (h : (op, f) ∈ farOpcodes) :
    Consumes o (do return f (← target len pc (← Reader.i32).toInt) : Decoder Instruction)
      fun used i => Spelled pc i (op :: used) := by
  refine .bind_write .i32 fun d => (target_consumes d.toInt).map fun used t ht => ?_
  obtain ⟨rfl, ht⟩ := ht
  obtain ⟨hwithin, hbytes⟩ := offset32_eq ht
  rw [List.append_nil, hbytes]
  exact .legal (.farBranch h hwithin)

lemma eq_opcode {n : Nat} (h : op.toNat = n) : op = UInt8.ofNat n := by rw [← h, UInt8.ofNat_toNat]

/-- **Every instruction that is read is spelled by the bytes it was read from.** -/
lemma decodeOne_consumes : Consumes pc (decodeOne len) fun used i => Spelled pc i used := by
  refine .tagged fun op => ?_
  dsimp only
  split
  next i hi => exact .pure (.legal (.plain (mem_plainOpcodes hi)))
  -- the other opcodes are told apart in the order of the decoder, each with the form it reads
  refine .ite (fun h => ?_) fun _ => .ite (fun h => ?_) fun _ => .ite (fun h => ?_) fun _ =>
    .ite (fun h => ?_) fun _ => .ite (fun h => ?_) fun _ => .ite (fun h => ?_) fun _ =>
    .ite (fun h => ?_) fun _ => .ite (fun h => ?_) fun _ => .ite (fun h => ?_) fun _ =>
    .ite (fun h => ?_) fun _ => .ite (fun h => ?_) fun _ => .ite (fun h => ?_) fun _ =>
    .ite (fun h => ?_) fun _ => .ite (fun h => ?_) fun _ => .ite (fun h => ?_) fun _ =>
    .ite (fun h => ?_) fun _ => .fail _
  · obtain rfl := eq_opcode h
    exact Consumes.i8.map fun used v hv => hv ▸ .legal (.byteConstant v)
  · obtain rfl := eq_opcode h
    exact Consumes.i16.map fun used v hv => hv ▸ .legal (.shortConstant v)
  · obtain rfl := eq_opcode h
    exact Consumes.u8.map fun used n hn => hn ▸ .legal (.constant n)
  · obtain ⟨f, hf⟩ := exists_onLocal h
    refine .bind_write .u8 fun n => ?_
    simp only [onLocal?_eq hf]
    exact .pure (.legal (.onLocal hf n))
  · obtain ⟨f, hf⟩ := exists_onPool h
    refine .bind_write .u16 fun n => ?_
    simp only [onPool?_eq hf]
    refine .pure ?_
    rw [List.append_nil]
    exact .legal (.onPool hf n)
  · obtain ⟨f, hf⟩ := exists_onBranch h
    refine .bind_write .i16 fun d => .bind (target_consumes d.toInt) fun used t ht => ?_
    obtain ⟨rfl, ht⟩ := ht
    obtain ⟨hwithin, hbytes⟩ := offset16_eq ht
    simp only [onBranch?_eq hf]
    refine .pure ?_
    rw [List.append_nil, List.append_nil, hbytes]
    exact .legal (.branch hf hwithin)
  · obtain rfl := eq_opcode h
    exact .bind_write .u8 fun n => Consumes.i8.map fun used v hv => hv ▸ .legal (.increment n v)
  · obtain rfl := eq_opcode h
    exact decodeTableSwitch_consumes
  · obtain rfl := eq_opcode h
    exact decodeLookupSwitch_consumes
  · obtain rfl := eq_opcode h
    exact .bind_write .u16 fun n => Consumes.u16.map fun used x hx =>
      hx ▸ .legal (.interfaceCall n _ _)
  · obtain rfl := eq_opcode h
    exact .bind_write .u16 fun n => Consumes.u16.map fun used x hx =>
      hx ▸ .legal (.dynamicCall n _ _)
  · obtain rfl := eq_opcode h
    refine .bind_write .u8 fun code => ?_
    split
    next kind hkind => exact .pure (.legal (.primitiveArray (mem_typeCodes hkind)))
    next => exact .fail _
  · obtain rfl := eq_opcode h
    exact decodeWide_consumes
  · obtain rfl := eq_opcode h
    exact .bind_write .u16 fun n => Consumes.u8.map fun used d hd => hd ▸ .legal (.multiArray n d)
  · obtain rfl := eq_opcode h
    exact farJump_consumes (by simp [farOpcodes, rows])
  · obtain rfl := eq_opcode h
    exact farJump_consumes (by simp [farOpcodes, rows])

/-! ### A code array -/

lemma Spelled.length_pos {i : Instruction} {bs : Bytes} (h : Spelled pc i bs) : 0 < bs.length := by
  cases h with
  | legal h => cases h <;> exact Nat.zero_lt_succ _
  | negativeCount => exact Nat.zero_lt_succ _

inductive Scanned : Nat → List Located → Bytes → Prop where
  | nil (pc : Nat) : Scanned pc [] []
  | cons {pc : Nat} {i : Instruction} {bs rest : Bytes} {code : List Located} (h : Spelled pc i bs)
    (hcode : Scanned (pc + bs.length) code rest) : Scanned pc (⟨pc, i⟩ :: code) (bs ++ rest)

lemma decodeFrom_scanned {fuel : Nat} {bs : Bytes} {code : List Located} (hfuel : bs.length ≤ fuel)
    (h : decodeFrom len fuel ⟨pc, bs⟩ = .ok code) : Scanned pc code bs := by
  -- every instruction takes a byte at least, so the bound is never what ends the scan
  induction fuel generalizing pc bs code with
  | zero =>
    obtain rfl : bs = [] := List.eq_nil_of_length_eq_zero (by omega)
    cases h
    exact .nil pc
  | succ fuel ih =>
    rw [decodeFrom] at h
    split_ifs at h with hempty
    · obtain rfl := List.isEmpty_iff.mp hempty
      cases h
      exact .nil pc
    · split at h
      next i rest hone =>
        obtain ⟨o', tail⟩ := rest
        obtain ⟨used, rfl, rfl, hspelled⟩ := decodeOne_consumes hone
        cases hrest : decodeFrom len fuel ⟨pc + used.length, tail⟩ with
        | error e =>
          rw [hrest] at h
          cases h
        | ok code =>
          rw [hrest] at h
          cases h
          have hpos := hspelled.length_pos
          rw [List.length_append] at hfuel
          exact .cons hspelled (ih (by omega) hrest)
      next => cases h
      next => cases h

end Instruction

end ClassScript
