import ClassScript.Reader
import Mathlib.Tactic.Lemma
import Mathlib.Tactic.Ring

/-!
Reading back what was written.

A reader reads a value off some bytes when it takes just these bytes, whatever follows them.
The rules put such readers together in the order in which the bytes are put together, so a
format is read back part by part.
-/

namespace ClassScript

namespace Bytes

@[simp] lemma length_ofNat (width n : Nat) : (ofNat width n).length = width := by
  induction width with
  | zero => rfl
  | succ width ih => rw [ofNat, List.length_cons, ih]

/-- The bytes of a number, read after others. -/
lemma foldl_ofNat (width n acc : Nat) :
    (ofNat width n).foldl
    (fun m b => m * 256 + b.toNat) acc = acc * 256 ^ width + n % 256 ^ width := by
  induction width generalizing acc with
  | zero => simp [ofNat, Nat.mod_one]
  | succ width ih =>
    have hbyte : (UInt8.ofNat (n / Nat.pow 256 width)).toNat = n / 256 ^ width % 256 := by
      rw [UInt8.toNat_ofNat']
      rfl
    rw [ofNat, List.foldl_cons, ih, hbyte, Nat.mod_pow_succ]
    ring

lemma toNat_ofNat {width n : Nat} (h : n < 256 ^ width) : toNat (ofNat width n) = n := by
  rw [toNat, foldl_ofNat, Nat.zero_mul, Nat.zero_add, Nat.mod_eq_of_lt h]

def u16 (n : UInt16) : Bytes := ofNat 2 n.toNat
def u32 (n : UInt32) : Bytes := ofNat 4 n.toNat
def u64 (n : UInt64) : Bytes := ofNat 8 n.toNat

/-- A count of two bytes, then the items. -/
def counted {α : Type} (write : α → Bytes) (xs : List α) : Bytes :=
  ofNat 2 xs.length ++ xs.flatMap write

end Bytes

namespace Reader

variable {ε α β : Type}

lemma bind_ok {r : Reader ε α} {k : α → Reader ε β} {i j : Input} {a : α} (h : r i = .ok (a, j)) :
    (r >>= k) i = k a j := by
  change (r i).bind (fun x => k x.1 x.2) = _
  rw [h]
  rfl

lemma bind_error {r : Reader ε α} {k : α → Reader ε β} {i : Input} {e : ReadFailure ε}
    (h : r i = .error e) :
    (r >>= k) i = .error e := by
  change (r i).bind (fun x => k x.1 x.2) = _
  rw [h]
  rfl

/-- A sequence that succeeds does so step by step. -/
lemma bind_eq_ok {r : Reader ε α} {k : α → Reader ε β} {i j : Input} {b : β}
    (h : (r >>= k) i = .ok (b, j)) : ∃ a m, r i = .ok (a, m) ∧ k a m = .ok (b, j) := by
  cases hr : r i with
  | error e =>
    rw [bind_error hr] at h
    cases h
  | ok x => exact ⟨x.1, x.2, rfl, (bind_ok hr).symm.trans h⟩

/-- At the offset `o` the reader reads `a` off the bytes `bs`, and stops right after them. -/
def Reads (o : Nat) (bs : Bytes) (r : Reader ε α) (a : α) : Prop :=
  ∀ rest, r ⟨o, bs ++ rest⟩ = .ok (a, ⟨o + bs.length, rest⟩)

namespace Reads

variable {o : Nat} {bs bs' : Bytes} {r : Reader ε α} {k : α → Reader ε β} {a : α} {b : β}

lemma pure (a : α) : Reads o [] (pure a : Reader ε α) a := fun _ => rfl

lemma bind (h : Reads o bs r a) (hk : Reads (o + bs.length) bs' (k a) b) :
    Reads o (bs ++ bs') (r >>= k) b := by
  intro rest
  rw [List.append_assoc, bind_ok (h (bs' ++ rest)), hk, List.length_append, Nat.add_assoc]

/-- A step that takes no bytes. -/
lemma bind_nil (h : Reads o [] r a) (hk : Reads o bs (k a) b) : Reads o bs (r >>= k) b := bind h hk

/-- A last step that takes no bytes. -/
lemma bind_last (h : Reads o bs r a) (hk : Reads (o + bs.length) [] (k a) b) :
    Reads o bs (r >>= k) b := by
  have hbind := bind h hk
  rwa [List.append_nil] at hbind

/-- The last part of a value. -/
lemma map (h : Reads o bs r a) (f : α → β) : Reads o bs (r >>= fun x => Pure.pure (f x)) (f a) :=
  bind_last h (pure (f a))

lemma ite_pos {c : Prop} [Decidable c] {r' : Reader ε α} (hc : c) (h : Reads o bs r a) :
    Reads o bs (if c then r else r') a := by
  rwa [if_pos hc]

lemma ite_neg {c : Prop} [Decidable c] {r' : Reader ε α} (hc : ¬ c) (h : Reads o bs r a) :
    Reads o bs (if c then r' else r) a := by
  rwa [if_neg hc]

lemma offset : Reads o [] (offset : Reader ε Nat) o := fun _ => rfl

lemma take (bs : Bytes) : Reads o bs (take bs.length : Reader ε Bytes) bs := by
  intro rest
  change (if _ then _ else _) = _
  rw [List.take_left, if_pos rfl, List.drop_left]

lemma nat (width : Nat) {n : Nat} (h : n < 256 ^ width) :
    Reads o (Bytes.ofNat width n) (nat width : Reader ε Nat) n := by
  have htake := (take (ε := ε) (o := o) (Bytes.ofNat width n)).map Bytes.toNat
  rwa [Bytes.length_ofNat, Bytes.toNat_ofNat h] at htake

lemma u8 (n : UInt8) : Reads o [n] (u8 : Reader ε UInt8) n := by
  have hnat := (nat (ε := ε) (o := o) 1 n.toNat_lt).map UInt8.ofNat
  rwa [UInt8.ofNat_toNat, show Bytes.ofNat 1 n.toNat = [n] by simp [Bytes.ofNat]] at hnat

/-- A byte that says what follows it. -/
lemma tagged (tag : UInt8) {k : Nat → UInt8 → Reader ε β} (hk : Reads (o + 1) bs (k o tag) b) :
    Reads o (tag :: bs) (Reader.offset >>= fun start => Reader.u8 >>= k start) b :=
  bind_nil offset (bind (u8 tag) hk)

lemma u16 (n : UInt16) : Reads o (.u16 n) (u16 : Reader ε UInt16) n := by
  have hnat := (nat (ε := ε) (o := o) 2 n.toNat_lt).map UInt16.ofNat
  rwa [UInt16.ofNat_toNat] at hnat

/-- Any two bytes are a number. -/
lemma u16_pair (a b : UInt8) :
    Reads o [a, b] (Reader.u16 : Reader ε UInt16) (.ofNat (Bytes.toNat [a, b])) :=
  ((take [a, b]).map Bytes.toNat).map UInt16.ofNat

lemma u32 (n : UInt32) : Reads o (.u32 n) (u32 : Reader ε UInt32) n := by
  have hnat := (nat (ε := ε) (o := o) 4 n.toNat_lt).map UInt32.ofNat
  rwa [UInt32.ofNat_toNat] at hnat

lemma u64 (n : UInt64) : Reads o (.u64 n) (u64 : Reader ε UInt64) n := by
  have hnat := (nat (ε := ε) (o := o) 8 n.toNat_lt).map UInt64.ofNat
  rwa [UInt64.ofNat_toNat] at hnat

lemma i8 (n : Int8) : Reads o [n.toUInt8] (i8 : Reader ε Int8) n := (u8 n.toUInt8).map UInt8.toInt8

lemma i16 (n : Int16) : Reads o (.u16 n.toUInt16) (i16 : Reader ε Int16) n :=
  (u16 n.toUInt16).map UInt16.toInt16

lemma i32 (n : Int32) : Reads o (.u32 n.toUInt32) (i32 : Reader ε Int32) n :=
  (u32 n.toUInt32).map UInt32.toInt32

lemma i64 (n : Int64) : Reads o (.u64 n.toUInt64) (i64 : Reader ε Int64) n :=
  (u64 n.toUInt64).map UInt64.toInt64

/-- Items one after another. -/
lemma many {write : α → Bytes} {xs : List α} (h : ∀ x ∈ xs, ∀ o, Reads o (write x) r x) :
    Reads o (xs.flatMap write) (many xs.length r) xs := by
  induction xs generalizing o with
  | nil => exact pure []
  | cons x xs ih =>
    have hx := h x List.mem_cons_self o
    exact hx.bind ((ih fun y hy => h y (List.mem_cons_of_mem _ hy)).map (x :: ·))

/-- A number that fits two bytes. -/
lemma ofNat16 {n : Nat} (h : n < 2 ^ 16) {k : UInt16 → Reader ε β}
    (hk : ∀ m : UInt16, m.toNat = n → Reads (o + 2) bs (k m) b) :
    Reads o (.ofNat 2 n ++ bs) (Reader.u16 >>= k) b := by
  have hn : (UInt16.ofNat n).toNat = n := UInt16.toNat_ofNat_of_lt' h
  have hread := u16 (ε := ε) (o := o) (.ofNat n)
  rw [Bytes.u16, hn] at hread
  refine hread.bind ?_
  rw [Bytes.length_ofNat]
  exact hk _ hn

/-- A number that fits four bytes. -/
lemma ofNat32 {n : Nat} (h : n < 2 ^ 32) {k : UInt32 → Reader ε β}
    (hk : ∀ m : UInt32, m.toNat = n → Reads (o + 4) bs (k m) b) :
    Reads o (.ofNat 4 n ++ bs) (Reader.u32 >>= k) b := by
  have hn : (UInt32.ofNat n).toNat = n := UInt32.toNat_ofNat_of_lt' h
  have hread := u32 (ε := ε) (o := o) (.ofNat n)
  rw [Bytes.u32, hn] at hread
  refine hread.bind ?_
  rw [Bytes.length_ofNat]
  exact hk _ hn

/-- Items behind their number. -/
lemma counted {write : α → Bytes} {xs : List α} (hlen : xs.length < 2 ^ 16)
    (h : ∀ x ∈ xs, ∀ o, Reads o (write x) r x) :
    Reads o (.counted write xs) (counted r) xs :=
  ofNat16 hlen fun n hn => by
    rw [hn]
    exact many h

/-- The value at the front of the bytes. -/
lemma parse (h : Reads 0 bs r a) : r.parse bs = .ok a := by
  have hrun := h []
  rw [List.append_nil] at hrun
  rw [Reader.parse, StateT.run, Input.start, hrun]
  rfl

end Reads

end Reader

end ClassScript
