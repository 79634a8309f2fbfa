import ClassScript.Reader
import Mathlib.Tactic.Lemma

/-!
How far readers go.

No reader goes back. `Spends` counts the bytes that a result has cost at least, and its rules
follow the steps of which readers are made.
-/

namespace ClassScript.Reader

variable {ε α β : Type}

/-- What it reads has cost so many bytes at least: the reader is so much further on, so much
less is left, and that is what stands behind its new offset. -/
def Spends (cost : α → Nat) (r : Reader ε α) : Prop :=
  ∀ ⦃i j : Input⦄ ⦃a : α⦄, r i = .ok (a, j) →
    i.offset + cost a ≤ j.offset ∧ cost a + j.rest.length ≤ i.rest.length ∧
      j.rest = i.rest.drop (j.offset - i.offset)

/-- Whatever it reads, the reader goes on by `n` bytes or more. -/
abbrev Takes (n : Nat) (r : Reader ε α) : Prop := Spends (fun _ => n) r

namespace Spends

variable {cost : α → Nat} {r r' : Reader ε α}

lemma pure {a : α} (h : cost a = 0) : Spends cost (pure a : Reader ε α) := by
  intro i j b hrun
  cases hrun
  simp [h]

lemma fail (cause : ε) : Spends cost (fail cause : Reader ε α) := by
  intro i j a hrun
  cases hrun

/-- Nothing follows a failure. -/
lemma fail_bind {cost : β → Nat} (cause : ε) (k : α → Reader ε β) :
    Spends cost (Reader.fail cause >>= k) := by
  intro i j b hrun
  cases hrun

lemma bind {k : α → Reader ε β} {total : β → Nat} (h : Spends cost r)
    (hk : ∀ a, Spends (fun b => total b - cost a) (k a)) : Spends total (r >>= k) := by
  intro i j b hrun
  change (r i).bind (fun x => k x.1 x.2) = _ at hrun
  cases hi : r i with
  | error e =>
    rw [hi] at hrun
    cases hrun
  | ok x =>
    rw [hi] at hrun
    obtain ⟨hoffset, hlength, hrest⟩ := h hi
    obtain ⟨hoffset', hlength', hrest'⟩ := hk x.1 hrun
    dsimp only at hoffset' hlength'
    refine ⟨by omega, by omega, ?_⟩
    rw [hrest', hrest, List.drop_drop]
    congr 1
    omega

lemma mono {cost' : α → Nat} (h : Spends cost r) (hle : ∀ a, cost' a ≤ cost a) :
    Spends cost' r := by
  intro i j a hrun
  obtain ⟨hoffset, hlength, hrest⟩ := h hrun
  have hcost := hle a
  exact ⟨by omega, by omega, hrest⟩

lemma ite {c : Prop} [Decidable c] (h : Spends cost r) (h' : Spends cost r') :
    Spends cost (if c then r else r') := by
  split
  · exact h
  · exact h'

lemma offset : Takes 0 (offset : Reader ε Nat) := by
  intro i j a hrun
  cases hrun
  simp

lemma take (n : Nat) : Takes n (take n : Reader ε Bytes) := by
  intro i j a hrun
  change (if _ then _ else _) = _ at hrun
  split at hrun
  next hlen =>
    cases hrun
    rw [List.length_take] at hlen
    simp only [List.length_drop, Nat.add_sub_cancel_left]
    exact ⟨Nat.le_refl _, by omega, trivial⟩
  next => cases hrun

lemma nat (n : Nat) : Takes n (nat n : Reader ε Nat) :=
  bind (take n) fun _ => pure (Nat.sub_self n)

lemma u8 : Takes 1 (u8 : Reader ε UInt8) := bind (nat 1) fun _ => pure rfl

lemma u16 : Takes 2 (u16 : Reader ε UInt16) := bind (nat 2) fun _ => pure rfl

lemma u32 : Takes 4 (u32 : Reader ε UInt32) := bind (nat 4) fun _ => pure rfl

lemma u64 : Takes 8 (u64 : Reader ε UInt64) := bind (nat 8) fun _ => pure rfl

lemma i8 : Takes 1 (i8 : Reader ε Int8) := bind u8 fun _ => pure rfl

lemma i16 : Takes 2 (i16 : Reader ε Int16) := bind u16 fun _ => pure rfl

lemma i32 : Takes 4 (i32 : Reader ε Int32) := bind u32 fun _ => pure rfl

lemma i64 : Takes 8 (i64 : Reader ε Int64) := bind u64 fun _ => pure rfl

/-- A sequence of readers, however far the first goes. -/
lemma seq {m : Nat} {k : α → Reader ε β} (hr : Takes m r) (hk : ∀ a, Takes 0 (k a)) :
    Takes 0 (r >>= k) :=
  bind hr fun a => (hk a).mono fun _ => Nat.le_of_eq (Nat.zero_sub m)

lemma many (h : Takes 0 r) (n : Nat) : Takes 0 (many n r) := by
  induction n with
  | zero => exact pure rfl
  | succ n ih => exact seq h fun _ => seq ih fun _ => pure rfl

lemma counted (h : Takes 0 r) : Takes 0 (counted r) := seq u16 fun n => many h n.toNat

end Spends

end ClassScript.Reader
