import ClassScript.Instruction.Decode
import ClassScript.Proofs.Readers

/-!
Where decoded instructions stand.

No reader goes back, and an instruction takes a byte at least. So the instructions of a code
array come out by rising address, the first at the start of the array.
-/

namespace ClassScript

namespace Instruction

open Reader (Takes)

lemma target_takes (len pc : Nat) (offset : Int) : Takes 0 (target len pc offset) :=
  .ite (.fail _) (.pure rfl)

lemma skipPadding_takes (pc : Nat) : Takes 0 (skipPadding pc) := by
  intro i j a h
  cases h
  simp only [List.length_drop, Nat.add_sub_cancel_left]
  exact ⟨Nat.le_add_right _ _, by omega, trivial⟩

/-- The address that an offset of four bytes gives. -/
lemma wideTarget_takes (len pc : Nat) :
    Takes 0 (do target len pc (← Reader.i32).toInt : Decoder Nat) :=
  .seq .i32 fun _ => target_takes len pc _

lemma decodeTableSwitch_takes (len pc : Nat) : Takes 0 (decodeTableSwitch len pc) := by
  refine .seq (skipPadding_takes pc) fun _ => .seq .i32 fun _ =>
    .seq (target_takes len pc _) fun _ =>
    .seq .i32 fun low => .seq .i32 fun high => ?_
  exact .ite (.fail_bind _ _) (.seq (.many (wideTarget_takes len pc) _) fun _ => .pure rfl)

lemma decodeLookupSwitch_takes (len pc : Nat) : Takes 0 (decodeLookupSwitch len pc) := by
  refine .seq (skipPadding_takes pc) fun _ => .seq .i32 fun _ =>
    .seq (target_takes len pc _) fun _ =>
    .seq .i32 fun n => .seq (.many ?_ _) fun _ => .pure rfl
  exact .seq .i32 fun _ => .seq .i32 fun _ => .seq (target_takes len pc _) fun _ => .pure rfl

lemma decodeWide_takes (pc : Nat) : Takes 0 (decodeWide pc) := by
  refine .seq .u8 fun op => .seq .u16 fun index => .ite (.seq .i16 fun _ => .pure rfl) ?_
  split
  · exact .pure rfl
  · exact .fail _

lemma decodeOne_takes (len : Nat) : Takes 1 (decodeOne len) := by
  refine .bind .offset fun pc => .bind .u8 fun opcode => ?_
  change Takes 0 _
  dsimp only
  split
  · exact .pure rfl
  refine .ite (.seq .i8 fun _ => .pure rfl) (.ite (.seq .i16 fun _ => .pure rfl)
    (.ite (.seq .u8 fun _ => .pure rfl) (.ite (.seq .u8 fun _ => ?_) (.ite (.seq .u16 fun _ => ?_)
    (.ite (.seq .i16 fun _ => .seq (target_takes len pc _) fun _ => ?_)
    (.ite (.seq .u8 fun _ => .seq .i8 fun _ => .pure rfl) (.ite (decodeTableSwitch_takes len pc)
    (.ite (decodeLookupSwitch_takes len pc) (.ite (.seq .u16 fun _ => .seq .u16 fun _ => .pure rfl)
    (.ite (.seq .u16 fun _ => .seq .u16 fun _ => .pure rfl) (.ite (.seq .u8 fun _ => ?_)
    (.ite (decodeWide_takes pc) (.ite (.seq .u16 fun _ => .seq .u8 fun _ => .pure rfl)
    (.ite (.seq .i32 fun _ => .seq (target_takes len pc _) fun _ => .pure rfl)
    (.ite (.seq .i32 fun _ => .seq (target_takes len pc _) fun _ => .pure rfl)
      (.fail _))))))))))))))))
  -- an operand that the opcode may refuse
  all_goals
    split
    · exact .pure rfl
    · exact .fail _

/-- The addresses of instructions that are read from an input on. -/
lemma decodeFrom_addresses {len fuel : Nat} {input : Input} {code : List Located}
    (h : decodeFrom len fuel input = .ok code) :
    (∀ l ∈ code, input.offset ≤ l.address) ∧ (code.map Located.address).Pairwise (· < ·) := by
  induction fuel generalizing input code with
  | zero =>
    cases h
    simp
  | succ fuel ih =>
    rw [decodeFrom] at h
    split at h
    · cases h
      simp
    split at h
    next i rest hone =>
      cases hrest : decodeFrom len fuel rest with
      | error e => rw [hrest] at h; cases h
      | ok code' =>
        rw [hrest] at h
        cases h
        -- what is left starts behind this instruction, which takes a byte at least
        obtain ⟨hle, hsorted⟩ := ih hrest
        have hstep : input.offset + 1 ≤ rest.offset := (decodeOne_takes len hone).1
        have hlt (l : Located) (hl : l ∈ code') : input.offset < l.address :=
          Nat.lt_of_lt_of_le hstep (hle l hl)
        refine ⟨?_, List.pairwise_cons.mpr ⟨?_, hsorted⟩⟩
        · rintro l (_ | ⟨_, hl⟩)
          · exact Nat.le_refl _
          · exact Nat.le_of_lt (hlt l hl)
        · intro pc hpc
          obtain ⟨l, hl, rfl⟩ := List.mem_map.mp hpc
          exact hlt l hl
    · cases h
    · cases h

/-- An instruction starts inside the code array. -/
lemma decodeFrom_address_lt {len fuel n : Nat} {bytes : Bytes} {code : List Located}
    (h : decodeFrom len fuel ⟨n, bytes.drop n⟩ = .ok code) :
    ∀ l ∈ code, l.address < bytes.length := by
  induction fuel generalizing n code with
  | zero =>
    cases h
    simp
  | succ fuel ih =>
    rw [decodeFrom] at h
    split at h
    · cases h
      simp
    next hrest =>
      have hn : n < bytes.length :=
        Nat.lt_of_not_le fun hge => hrest (by simp [List.drop_eq_nil_of_le hge])
      split at h
      next i rest hone =>
        cases hcode : decodeFrom len fuel rest with
        | error e => rw [hcode] at h; cases h
        | ok code' =>
          rw [hcode] at h
          cases h
          obtain ⟨hoffset, -, hdrop⟩ := decodeOne_takes len hone
          have hrest : rest = ⟨rest.offset, bytes.drop rest.offset⟩ := by
            rw [List.drop_drop, Nat.add_sub_cancel' (by dsimp only at hoffset ⊢; omega)] at hdrop
            rw [← hdrop]
          rw [hrest] at hcode
          rintro l (_ | ⟨_, hl⟩)
          · exact hn
          · exact ih hcode l hl
      · cases h
      · cases h

lemma decode_cases {bytes : Bytes} {code : List Located} (h : decode bytes = .ok code) :
    bytes.isEmpty = false ∧ decodeFrom bytes.length bytes.length (.start bytes) = .ok code := by
  unfold decode at h
  split at h
  · cases h
  next hbytes =>
    cases hcode : decodeFrom bytes.length bytes.length (.start bytes) with
    | error e => simp [hcode, bind, Except.bind] at h
    | ok code' =>
      simp only [hcode, bind, Except.bind, pure, Except.pure] at h
      split at h
      · cases h
      · cases h
        exact ⟨by simpa using hbytes, rfl⟩

/-- Decoded instructions stand by rising address. -/
lemma decode_sorted {bytes : Bytes} {code : List Located} (h : decode bytes = .ok code) :
    (code.map Located.address).Pairwise (· < ·) :=
  (decodeFrom_addresses (decode_cases h).2).2

lemma decode_address_lt {bytes : Bytes} {code : List Located} (h : decode bytes = .ok code) :
    ∀ l ∈ code, l.address < bytes.length :=
  decodeFrom_address_lt (n := 0) (decode_cases h).2

/-- The first of them stands at the start of the code array. -/
lemma decode_head {bytes : Bytes} {code : List Located} (h : decode bytes = .ok code) :
    ∃ i rest, code = ⟨0, i⟩ :: rest := by
  obtain ⟨hbytes, hcode⟩ := decode_cases h
  cases bytes with
  | nil => cases hbytes
  | cons b bs =>
    rw [List.length_cons, decodeFrom, if_neg (by simp [Input.start])] at hcode
    split at hcode
    next i rest hone =>
      cases hrest : decodeFrom (bs.length + 1) bs.length rest with
      | error e => rw [hrest] at hcode; cases hcode
      | ok code' =>
        rw [hrest] at hcode
        cases hcode
        exact ⟨i, code', rfl⟩
    · cases hcode
    · cases hcode

end Instruction

end ClassScript
