import ClassScript.Proofs.ParallelMoves
import ClassScript.Proofs.StraightCode

/-!
Instructions that shuffle the stack, word by word.

The machine describes these instructions by words: a wide value is two words, any other is one. The
generated code moves whole values, and chooses the moves by which of the topmost values are wide.
Wherever no wide value is split, the values it leaves are those whose words the machine leaves.
-/

namespace ClassScript

/-- A word on the stack of the machine: a value of one word, or half of a wide one. -/
inductive Word (α : Type) where
  | whole (v : α)
  | lower (v : α)
  | upper (v : α)
  deriving DecidableEq, Repr

namespace Word

variable {α β : Type}

/-- The words of some values, from the top of the stack down. -/
def ofValues (wide : α → Bool) (vs : List α) : List (Word α) :=
  vs.flatMap fun v => if wide v then [upper v, lower v] else [whole v]

/-- What an instruction does to the words on the stack of the machine, the first being topmost. -/
def shuffle : Instruction → List β → Option (List β)
  | .dup, a :: s => some (a :: a :: s)
  | .dupX1, a :: b :: s => some (a :: b :: a :: s)
  | .dupX2, a :: b :: c :: s => some (a :: b :: c :: a :: s)
  | .dup2, a :: b :: s => some (a :: b :: a :: b :: s)
  | .dup2X1, a :: b :: c :: s => some (a :: b :: c :: a :: b :: s)
  | .dup2X2, a :: b :: c :: d :: s => some (a :: b :: c :: d :: a :: b :: s)
  | .swap, a :: b :: s => some (b :: a :: s)
  | _, _ => none

/-- The two groups of words that an instruction handles: how many there are on top, and how many
below these. -/
def groups : Instruction → Option (Nat × Nat)
  | .dup => some (1, 0)
  | .dupX1 | .swap => some (1, 1)
  | .dupX2 => some (1, 2)
  | .dup2 => some (2, 0)
  | .dup2X1 => some (2, 1)
  | .dup2X2 => some (2, 2)
  | _ => none

/-- Are so many words from the top those of whole values? -/
def isCut (wide : α → Bool) : Nat → List α → Bool
  | 0, _ => true
  | _ + 1, [] => false
  | 1, v :: _ => !wide v
  | n + 2, v :: vs => if wide v then isCut wide n vs else isCut wide (n + 1) vs

section

variable {wide : α → Bool} {vs t u r : List α} {n m : Nat}

lemma ofValues_append (wide : α → Bool) (vs vs' : List α) :
    ofValues wide (vs ++ vs') = ofValues wide vs ++ ofValues wide vs' :=
  List.flatMap_append

lemma ofValues_cons (wide : α → Bool) (v : α) (vs : List α) :
    ofValues wide (v :: vs) = (if wide v then [upper v, lower v] else [whole v]) ++
      ofValues wide vs :=
  List.flatMap_cons

lemma isCut_wide {v : α} (hv : wide v = true) (n : Nat) :
    isCut wide (n + 2) (v :: vs) = isCut wide n vs := by
  rw [isCut, if_pos hv]

lemma isCut_narrow {v : α} (hv : wide v = false) (n : Nat) :
    isCut wide (n + 1) (v :: vs) = isCut wide n vs := by
  cases n with
  | zero => simp [isCut, hv]
  | succ n => simp [isCut, hv]

/-- A cut is between two values. -/
lemma exists_of_isCut (h : isCut wide n vs = true) :
    ∃ t r, vs = t ++ r ∧ (ofValues wide t).length = n := by
  induction vs generalizing n with
  | nil =>
    cases n with
    | zero => exact ⟨[], [], rfl, rfl⟩
    | succ n => cases h
  | cons v vs ih =>
    cases hv : wide v with
    | true =>
      rcases n with _ | _ | n
      · exact ⟨[], v :: vs, rfl, rfl⟩
      · simp [isCut, hv] at h
      · obtain ⟨t, r, rfl, ht⟩ := ih ((isCut_wide hv n).symm.trans h)
        exact ⟨v :: t, r, rfl, by simp [ofValues_cons, hv, ht]⟩
    | false =>
      cases n with
      | zero => exact ⟨[], v :: vs, rfl, rfl⟩
      | succ n =>
        obtain ⟨t, r, rfl, ht⟩ := ih ((isCut_narrow hv n).symm.trans h)
        exact ⟨v :: t, r, rfl, by simp [ofValues_cons, hv, ht]⟩

/-- Below one cut, the next is counted from there. -/
lemma isCut_append (ht : (ofValues wide t).length = n) (m : Nat) :
    isCut wide (n + m) (t ++ r) = isCut wide m r := by
  induction t generalizing n with
  | nil =>
    have hn : n = 0 := ht.symm
    rw [hn, Nat.zero_add, List.nil_append]
  | cons v t ih =>
    rw [ofValues_cons, List.length_append] at ht
    cases hv : wide v with
    | true =>
      have hn : n + m = (ofValues wide t).length + m + 2 := by
        simp only [hv, if_true, List.length_cons, List.length_nil] at ht
        omega
      rw [hn, List.cons_append, isCut_wide hv]
      exact ih rfl
    | false =>
      have hn : n + m = (ofValues wide t).length + m + 1 := by
        simp only [hv, Bool.false_eq_true, if_false, List.length_cons, List.length_nil] at ht
        omega
      rw [hn, List.cons_append, isCut_narrow hv]
      exact ih rfl

/-- Two cuts, and the values above, between and below them. -/
lemma exists_groups (h : isCut wide n vs = true) (h' : isCut wide (n + m) vs = true) :
    ∃ t u r, vs = t ++ (u ++ r) ∧ (ofValues wide t).length = n ∧ (ofValues wide u).length = m := by
  obtain ⟨t, r, rfl, ht⟩ := exists_of_isCut h
  obtain ⟨u, r, rfl, hu⟩ := exists_of_isCut ((isCut_append ht m).symm.trans h')
  exact ⟨t, u, r, rfl, ht, hu⟩

lemma eq_nil_of_length (h : (ofValues wide t).length = 0) : t = [] := by
  cases t with
  | nil => rfl
  | cons v t =>
    rw [ofValues_cons] at h
    cases hv : wide v <;> simp [hv] at h

lemma eq_singleton_of_length (h : (ofValues wide t).length = 1) :
    ∃ a, t = [a] ∧ wide a = false := by
  cases t with
  | nil => cases h
  | cons v t =>
    rw [ofValues_cons] at h
    cases hv : wide v with
    | true => simp [hv] at h
    | false =>
      have ht : (ofValues wide t).length = 0 := by simpa [hv] using h
      obtain rfl := eq_nil_of_length ht
      exact ⟨v, rfl, hv⟩

/-- Two words are those of a wide value, or of two others. -/
lemma eq_of_length_two (h : (ofValues wide t).length = 2) :
    (∃ a, t = [a] ∧ wide a = true) ∨ ∃ a b, t = [a, b] ∧ wide a = false ∧ wide b = false := by
  cases t with
  | nil => cases h
  | cons v t =>
    rw [ofValues_cons] at h
    cases hv : wide v with
    | true =>
      have ht : (ofValues wide t).length = 0 := by simpa [hv] using h
      obtain rfl := eq_nil_of_length ht
      exact .inl ⟨v, rfl, hv⟩
    | false =>
      have ht : (ofValues wide t).length = 1 := by
        simp only [hv, Bool.false_eq_true, if_false, List.singleton_append, List.length_cons] at h
        omega
      obtain ⟨b, rfl, hb⟩ := eq_singleton_of_length ht
      exact .inr ⟨v, b, rfl, hv, hb⟩

end

/-! ### Forms of an instruction -/

/-- The shuffle that puts a copy of the top group below the second, by the numbers
of their values. -/
def copyBelow (top second : Nat) : Shuffle :=
  ⟨second + top, List.range' second top ++ List.range (second + top)⟩

lemma pick_append (p p' : List Nat) (vs : List α) :
    Shuffle.pick (p ++ p') vs = Shuffle.pick p vs ++ Shuffle.pick p' vs :=
  List.filterMap_append

lemma pick_range' (xs ys : List α) :
    Shuffle.pick (List.range' xs.length ys.length) (xs ++ ys) = ys := by
  induction ys generalizing xs with
  | nil => rfl
  | cons y ys ih =>
    have hrest := ih (xs ++ [y])
    rw [List.length_append, List.length_singleton, List.append_assoc,
      List.singleton_append] at hrest
    have hhead : (xs ++ y :: ys)[xs.length]? = some y := by
      rw [List.getElem?_append_right (Nat.le_refl _), Nat.sub_self, List.getElem?_cons_zero]
    rw [List.length_cons, List.range'_succ, Shuffle.pick, List.filterMap_cons, hhead]
    exact congrArg (y :: ·) hrest

lemma apply_copyBelow (t u r : List α) :
    (copyBelow t.length u.length).apply (t ++ (u ++ r)) = t ++ (u ++ (t ++ r)) := by
  have hlength : (t ++ u).length = u.length + t.length := by rw [List.length_append, Nat.add_comm]
  have htop : Shuffle.pick (List.range' u.length t.length)
      (u.reverse ++ t.reverse) = t.reverse := by
    simpa using pick_range' u.reverse t.reverse
  have hall : Shuffle.pick (List.range (u.length + t.length)) (u.reverse ++ t.reverse) =
      u.reverse ++ t.reverse := by
    simpa [List.range_eq_range'] using pick_range' [] (u.reverse ++ t.reverse)
  rw [← List.append_assoc, Shuffle.apply]
  dsimp only [copyBelow]
  rw [List.take_left' hlength, List.drop_left' hlength, List.reverse_append,
    pick_append, htop, hall]
  simp

section

variable {wide : α → Bool} {i : Instruction} {n m : Nat} {t u r : List α}

/-- The machine copies the top group below the second, and only a swap does otherwise. -/
lemma shuffle_copies (hi : groups i = some (n, m)) (hswap : i ≠ .swap) {x y : List β}
    (hx : x.length = n) (hy : y.length = m) (z : List β) :
    shuffle i (x ++ (y ++ z)) = some (x ++ (y ++ (x ++ z))) := by
  -- one and two words over none, one and two
  cases i <;> cases hi
  case dup =>
    obtain ⟨a, rfl⟩ := List.length_eq_one_iff.mp hx
    obtain rfl := List.length_eq_zero_iff.mp hy
    rfl
  case dupX1 =>
    obtain ⟨a, rfl⟩ := List.length_eq_one_iff.mp hx
    obtain ⟨b, rfl⟩ := List.length_eq_one_iff.mp hy
    rfl
  case dupX2 =>
    obtain ⟨a, rfl⟩ := List.length_eq_one_iff.mp hx
    obtain ⟨b, c, rfl⟩ := List.length_eq_two.mp hy
    rfl
  case dup2 =>
    obtain ⟨a, b, rfl⟩ := List.length_eq_two.mp hx
    obtain rfl := List.length_eq_zero_iff.mp hy
    rfl
  case dup2X1 =>
    obtain ⟨a, b, rfl⟩ := List.length_eq_two.mp hx
    obtain ⟨c, rfl⟩ := List.length_eq_one_iff.mp hy
    rfl
  case dup2X2 =>
    obtain ⟨a, b, rfl⟩ := List.length_eq_two.mp hx
    obtain ⟨c, d, rfl⟩ := List.length_eq_two.mp hy
    rfl
  case swap => exact absurd rfl hswap

/-- Which values are wide tells how many there are in either group. -/
lemma of?_copies (hi : groups i = some (n, m)) (hswap : i ≠ .swap)
    (ht : (ofValues wide t).length = n) (hu : (ofValues wide u).length = m) :
    Shuffle.of? (fun k => ((t ++ (u ++ r))[k]?.map wide).getD false) i =
      some (copyBelow t.length u.length) := by
  cases i <;> cases hi
  case dup =>
    obtain ⟨a, rfl, ha⟩ := eq_singleton_of_length ht
    obtain rfl := eq_nil_of_length hu
    rfl
  case dupX1 =>
    obtain ⟨a, rfl, ha⟩ := eq_singleton_of_length ht
    obtain ⟨b, rfl, hb⟩ := eq_singleton_of_length hu
    rfl
  case dupX2 =>
    obtain ⟨a, rfl, ha⟩ := eq_singleton_of_length ht
    -- two words are one wide value or two narrow ones
    rcases eq_of_length_two hu with ⟨b, rfl, hb⟩ | ⟨b, c, rfl, hb, hc⟩
    · simp [Shuffle.of?, hb, copyBelow, List.range_succ, List.range'_succ]
    · simp [Shuffle.of?, hb, copyBelow, List.range_succ, List.range'_succ]
  case dup2 =>
    obtain rfl := eq_nil_of_length hu
    rcases eq_of_length_two ht with ⟨a, rfl, ha⟩ | ⟨a, b, rfl, ha, hb⟩
    · simp [Shuffle.of?, ha, copyBelow, List.range_succ, List.range'_succ]
    · simp [Shuffle.of?, ha, copyBelow, List.range_succ, List.range'_succ]
  case dup2X1 =>
    obtain ⟨c, rfl, hc⟩ := eq_singleton_of_length hu
    rcases eq_of_length_two ht with ⟨a, rfl, ha⟩ | ⟨a, b, rfl, ha, hb⟩
    · simp [Shuffle.of?, ha, copyBelow, List.range_succ, List.range'_succ]
    · simp [Shuffle.of?, ha, copyBelow, List.range_succ, List.range'_succ]
  case dup2X2 =>
    rcases eq_of_length_two ht with ⟨a, rfl, ha⟩ | ⟨a, b, rfl, ha, hb⟩
    · rcases eq_of_length_two hu with ⟨c, rfl, hc⟩ | ⟨c, d, rfl, hc, hd⟩
      · simp [Shuffle.of?, ha, hc, copyBelow, List.range_succ, List.range'_succ]
      · simp [Shuffle.of?, ha, hc, copyBelow, List.range_succ, List.range'_succ]
    · rcases eq_of_length_two hu with ⟨c, rfl, hc⟩ | ⟨c, d, rfl, hc, hd⟩
      · simp [Shuffle.of?, ha, hc, copyBelow, List.range_succ, List.range'_succ]
      · simp [Shuffle.of?, ha, hc, copyBelow, List.range_succ, List.range'_succ]
  case swap => exact absurd rfl hswap

/-- The form that is chosen for an instruction does to the words of the values what
the machine does. -/
structure Form (wide : α → Bool) (i : Instruction) (size : Nat) (vs : List α)
    (s : Shuffle) : Prop where
  chosen : Shuffle.of? (fun k => (vs[k]?.map wide).getD false) i = some s
  take_le : s.take ≤ vs.length
  range : ∀ j ∈ s.pattern, j < s.take
  taken : (ofValues wide (vs.take s.take)).length = size
  words : shuffle i (ofValues wide vs) = some (ofValues wide (s.apply vs))

lemma form_swap {a b : α} (ha : wide a = false) (hb : wide b = false) :
    Form wide .swap 2 (a :: b :: r) ⟨2, [1, 0]⟩ where
  chosen := rfl
  take_le := by simp
  range := by simp
  taken := by simp [ofValues, ha, hb]
  words := by simp [ofValues, shuffle, Shuffle.apply, Shuffle.pick, ha, hb]

lemma form_copies (hi : groups i = some (n, m)) (hswap : i ≠ .swap)
    (ht : (ofValues wide t).length = n) (hu : (ofValues wide u).length = m) :
    Form wide i (n + m) (t ++ (u ++ r)) (copyBelow t.length u.length) where
  chosen := of?_copies hi hswap ht hu
  take_le := by
    simp only [copyBelow, List.length_append]
    omega
  range j hj := by
    simp only [copyBelow, List.mem_append, List.mem_range'_1, List.mem_range] at hj ⊢
    omega
  taken := by
    have hlength : (t ++ u).length = u.length + t.length := by rw [List.length_append, Nat.add_comm]
    rw [← List.append_assoc]
    dsimp only [copyBelow]
    rw [List.take_left' hlength, ofValues_append, List.length_append, ht, hu]
  words := by
    rw [apply_copyBelow]
    simp only [ofValues_append]
    exact shuffle_copies hi hswap ht hu _

lemma exists_form {vs : List α} (hi : groups i = some (n, m)) (h : isCut wide n vs = true)
    (h' : isCut wide (n + m) vs = true) : ∃ s, Form wide i (n + m) vs s := by
  obtain ⟨t, u, r, rfl, ht, hu⟩ := exists_groups h h'
  by_cases hswap : i = .swap
  · subst hswap
    cases hi
    obtain ⟨a, rfl, ha⟩ := eq_singleton_of_length ht
    obtain ⟨b, rfl, hb⟩ := eq_singleton_of_length hu
    exact ⟨_, form_swap ha hb⟩
  · exact ⟨_, form_copies hi hswap ht hu⟩

lemma exists_of? (hi : groups i = some (n, m)) (isWide : Nat → Bool) :
    ∃ s, Shuffle.of? isWide i = some s := by
  rw [← Option.isSome_iff_exists]
  cases i <;> cases hi
  case dup | dupX1 | swap => rfl
  case dupX2 | dup2 | dup2X1 | dup2X2 =>
    unfold Shuffle.of?
    dsimp only
    split <;> rfl

lemma isCut_map {γ : Type} (wide : α → Bool) (see : γ → α) (n : Nat) (vs : List γ) :
    isCut wide n (vs.map see) = isCut (fun v => wide (see v)) n vs := by
  induction vs generalizing n with
  | nil => cases n <;> rfl
  | cons v vs ih =>
    rcases n with _ | _ | n
    · rfl
    · rfl
    · simp only [List.map_cons, isCut, ih]

end

end Word

/-! ### The instructions -/

def Store.words (σ : Store) (stack : List Entry) : List (Word (Kind × Datum)) :=
  Word.ofValues (fun v => v.1.isWide) (σ.held stack)

/-- The values are as wide as the entries say, so that the same form is chosen for either. -/
lemma Store.words_apply (σ : Store) {i : Instruction} {n m : Nat} (hi : Word.groups i = some (n, m))
    {f : Frame} (h : Word.isCut Kind.isWide n f.kinds = true)
    (h' : Word.isCut Kind.isWide (n + m) f.kinds = true) {s : Shuffle}
    (hs : Shuffle.of? f.isWide i = some s) :
    Word.shuffle i (σ.words f.stack) =
      some (Word.ofValues (fun v => v.1.isWide) (s.apply (σ.held f.stack))) := by
  have hkinds : f.kinds = (σ.held f.stack).map Prod.fst := (σ.map_fst_held f.stack).symm
  rw [hkinds, Word.isCut_map] at h h'
  obtain ⟨s', hform⟩ := Word.exists_form hi h h'
  have hwide : (fun k => ((σ.held f.stack)[k]?.map fun v => v.1.isWide).getD false) = f.isWide := by
    funext k
    have hk : (σ.held f.stack)[k]?.map Prod.fst = f.stack[k]?.map Entry.kind := by
      rw [← List.getElem?_map, ← List.getElem?_map, σ.map_fst_held]
    have hk' := congrArg (Option.map Kind.isWide) hk
    rw [Option.map_map, Option.map_map] at hk'
    exact congrArg (Option.getD · false) hk'
  have hchosen := hform.chosen
  rw [hwide, hs] at hchosen
  cases hchosen
  exact hform.words

def mixed : Frame := { stack := [.slot .int, .const (.int 7), .slot .float, .slot .long] }

end ClassScript
