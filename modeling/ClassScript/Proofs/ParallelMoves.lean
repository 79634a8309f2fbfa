import ClassScript.Proofs.Evaluation
import ClassScript.Proofs.Frames

/-!
A shuffle moves all its values at once, though its moves run one after another.

The variables written by the moves of a shuffle are those that its pattern overwrites. A value in
such a variable is read from the copy made aside, and every other value from a variable that no
move writes. So each position gets the value that was there before the first move.
-/

namespace ClassScript

/-! ### Moves in sequence -/

namespace Store

variable {σ : Store} {ms : List Move}

def move (σ : Store) (ms : List Move) : Store :=
  ms.foldl (fun σ m => σ.set m.dest (σ m.source.name)) σ

lemma move_append (σ : Store) (ms ms' : List Move) : σ.move (ms ++ ms') = (σ.move ms).move ms' :=
  List.foldl_append

lemma exec_moves (σ : Store) (ms : List Move) : σ.exec (ms.map Move.stmt) = .ok (σ.move ms) := by
  induction ms generalizing σ with
  | nil => rfl
  | cons m ms ih =>
    have hfirst : σ.exec [m.stmt] = .ok (σ.set m.dest (σ m.source.name)) := exec_assign rfl
    rw [List.map_cons, ← List.singleton_append, exec_append, hfirst]
    exact ih _

lemma move_of_ne {v : Var} (h : ∀ m ∈ ms, m.dest ≠ v) : σ.move ms v.name = σ v.name := by
  induction ms generalizing σ with
  | nil => rfl
  | cons m ms ih =>
    obtain ⟨hm, hms⟩ := List.forall_mem_cons.mp h
    calc (σ.set m.dest (σ m.source.name)).move ms v.name
        = σ.set m.dest (σ m.source.name) v.name := ih hms
      _ = σ v.name := set_of_ne σ _ hm.symm

/-- Moves to different variables, none of which is read after it is written, act at once. -/
lemma move_dest (hdest : (ms.map Move.dest).Nodup)
    (hread : ms.Pairwise fun a b => a.dest ≠ b.source) {m : Move} (hm : m ∈ ms) :
    σ.move ms m.dest.name = σ m.source.name := by
  induction ms generalizing σ with
  | nil => cases hm
  | cons a ms ih =>
    rw [List.map_cons, List.nodup_cons] at hdest
    obtain ⟨hfirst, hread⟩ := List.pairwise_cons.mp hread
    rcases List.mem_cons.mp hm with rfl | hm
    · have hkept : ∀ b ∈ ms, b.dest ≠ m.dest :=
        fun b hb heq => hdest.1 (heq ▸ List.mem_map_of_mem hb)
      calc (σ.set m.dest (σ m.source.name)).move ms m.dest.name
          = σ.set m.dest (σ m.source.name) m.dest.name := move_of_ne hkept
        _ = σ m.source.name := set_self _ _ _
    · calc (σ.set a.dest (σ a.source.name)).move ms m.dest.name
          = σ.set a.dest (σ a.source.name) m.source.name := ih hdest.2 hread hm
        _ = σ m.source.name := set_of_ne σ _ (hfirst m hm).symm

end Store

namespace Shuffle

variable {base : Nat} {values : List Entry} {pattern : List Nat}

/-! ### Copies aside -/

lemma mem_overwritten {v : Var} :
    v ∈ overwritten base values pattern ↔ ∃ i j k, (i, j) ∈ pattern.zipIdx ∧
      values[i]? = some (.slot k) ∧
      j ≠ i ∧ v = .operand k (base + j) := by
  rw [overwritten, List.mem_filterMap]
  constructor
  · rintro ⟨⟨i, j⟩, hmem, h⟩
    dsimp only at h
    split at h
    next k hk =>
      split_ifs at h with hne
      cases h
      exact ⟨i, j, k, hmem, hk, hne, rfl⟩
    next => cases h
  · rintro ⟨i, j, k, hmem, hk, hne, rfl⟩
    exact ⟨(i, j), hmem, by simp [hk, hne]⟩

lemma mem_moved {i : Nat} {v : Var} :
    (i, v) ∈ moved base values pattern ↔
      ∃ k, values[i]? = some (.slot k) ∧ v = .operand k (base + i) ∧
        v ∈ overwritten base values pattern ∧ i ∈ pattern := by
  rw [moved, List.mem_filterMap]
  constructor
  · rintro ⟨i', -, h⟩
    unfold source? at h
    split at h
    next w hw =>
      split at hw
      next k hk =>
        cases hw
        split_ifs at h with hlost
        cases h
        rw [Bool.and_eq_true, List.contains_iff_mem, List.contains_iff_mem] at hlost
        exact ⟨k, hk, rfl, hlost.1, hlost.2⟩
      next => cases hw
    next => cases h
  · rintro ⟨k, hk, rfl, hlost, hmem⟩
    refine ⟨i, List.mem_range.mpr (List.getElem?_eq_some_iff.mp hk).1, ?_⟩
    simp [source?, hk, hlost, hmem]

lemma mem_copies {n : Nat} {ms : List (Nat × Var)} {m : Move} (h : m ∈ copies n ms) :
    ∃ t i, n ≤ t ∧ m.dest = .temp t ∧ (i, m.source) ∈ ms := by
  induction ms generalizing n with
  | nil => cases h
  | cons a ms ih =>
    rcases List.mem_cons.mp h with rfl | h
    · exact ⟨n, a.1, Nat.le_refl n, rfl, List.mem_cons_self⟩
    · obtain ⟨t, i, ht, hdest, hmem⟩ := ih h
      exact ⟨t, i, Nat.le_of_succ_le ht, hdest, List.mem_cons_of_mem _ hmem⟩

lemma nodup_copies (n : Nat) (ms : List (Nat × Var)) : ((copies n ms).map Move.dest).Nodup := by
  induction ms generalizing n with
  | nil => exact List.nodup_nil
  | cons a ms ih =>
    rw [copies, List.map_cons]
    refine List.nodup_cons.mpr ⟨fun hmem => ?_, ih (n + 1)⟩
    obtain ⟨m, hm, hdest⟩ := List.mem_map.mp hmem
    obtain ⟨t, -, ht, htemp, -⟩ := mem_copies hm
    cases hdest.symm.trans htemp
    omega

/-- A value is either where it was, or in the copy made of it. -/
lemma lookup_saved (n : Nat) (ms : List (Nat × Var)) (i : Nat) :
    ((saved n ms).lookup i = none ∧ ∀ v, (i, v) ∉ ms) ∨
      ∃ t v, (saved n ms).lookup i = some (.temp t) ∧ (i, v) ∈ ms ∧ ⟨.temp t, v⟩ ∈ copies n ms := by
  induction ms generalizing n with
  | nil => exact .inl ⟨rfl, by simp⟩
  | cons a ms ih =>
    rw [saved, copies]
    by_cases hi : i = a.1
    · subst hi
      exact .inr ⟨n, a.2, by simp, List.mem_cons_self, List.mem_cons_self⟩
    · have hlookup : ((a.1, Var.temp n) :: saved (n + 1) ms).lookup i =
          (saved (n + 1) ms).lookup i := by
        have hb : (i == a.1) = false := by simpa using hi
        simp only [List.lookup_cons, hb]
      rw [hlookup]
      rcases ih (n + 1) with ⟨hnone, hnot⟩ | ⟨t, v, hsome, hmem, hcopy⟩
      · refine .inl ⟨hnone, fun v hmem => ?_⟩
        rcases List.mem_cons.mp hmem with rfl | hmem
        · exact hi rfl
        · exact hnot v hmem
      · exact .inr ⟨t, v, hsome, List.mem_cons_of_mem _ hmem, List.mem_cons_of_mem _ hcopy⟩

/-! ### Moves to new positions -/

section

variable {n i j d : Nat} {k : Kind} {σ : Store}

/-- A value that stays where it is is in no variable that is overwritten, and one that is copied
aside is read from there. -/
lemma source_cases (n : Nat) (hk : values[i]? = some (.slot k)) (hi : i ∈ pattern) :
    ((saved n (moved base values pattern)).lookup i).getD (.operand k (base + i)) =
          .operand k (base + i) ∧
        .operand k (base + i) ∉ overwritten base values pattern ∨
      ∃ t, ((saved n (moved base values pattern)).lookup i).getD (.operand k (base + i)) = .temp t ∧
        ⟨.temp t, .operand k (base + i)⟩ ∈ copies n (moved base values pattern) ∧
        .operand k (base + i) ∈ overwritten base values pattern := by
  rcases lookup_saved n (moved base values pattern) i with
    ⟨hnone, hnot⟩ | ⟨t, v, hsome, hmem, hcopy⟩
  · refine .inl ⟨by rw [hnone, Option.getD_none], fun hlost => ?_⟩
    exact hnot _ (mem_moved.mpr ⟨k, hk, rfl, hlost, hi⟩)
  · obtain ⟨k', hk', rfl, hlost, -⟩ := mem_moved.mp hmem
    cases hk.symm.trans hk'
    exact .inr ⟨t, by rw [hsome, Option.getD_some], hcopy, hlost⟩

lemma step?_eq_some {m : Move} {x : Nat × Nat} {saved : List (Nat × Var)}
    (h : step? base values saved x = some m) :
    ∃ k, values[x.1]? = some (.slot k) ∧ m.dest = .operand k (base + x.2) ∧
      m.source = (saved.lookup x.1).getD (.operand k (base + x.1)) ∧ m.dest ≠ m.source := by
  unfold step? at h
  split at h
  next k hk =>
    dsimp only at h
    split_ifs at h with hne
    cases h
    exact ⟨k, hk, rfl, rfl, hne⟩
  next => cases h

/-- What the moves write is what the pattern overwrites, and they read nothing of it. -/
lemma moves_separate (n : Nat) {m : Move}
    (h : m ∈ pattern.zipIdx.filterMap (step? base values (saved n (moved base values pattern)))) :
    m.dest ∈ overwritten base values pattern ∧ m.source ∉ overwritten base values pattern := by
  obtain ⟨⟨i, j⟩, hx, h⟩ := List.mem_filterMap.mp h
  obtain ⟨k, hk, hdest, hsource, hne⟩ := step?_eq_some h
  have hi : i ∈ pattern := List.fst_mem_of_mem_zipIdx hx
  dsimp only at hk hdest hsource
  rw [hdest, hsource] at *
  rcases source_cases n hk hi with ⟨hstays, hkept⟩ | ⟨t, haside, -, hlost⟩
  · rw [hstays] at hne ⊢
    refine ⟨mem_overwritten.mpr ⟨i, j, k, hx, hk, fun hij => hne (hij ▸ rfl), rfl⟩, hkept⟩
  · rw [haside]
    constructor
    · by_cases hij : j = i
      · exact hij ▸ hlost
      · exact mem_overwritten.mpr ⟨i, j, k, hx, hk, hij, rfl⟩
    · intro hmem
      obtain ⟨_, _, _, _, _, _, heq⟩ := mem_overwritten.mp hmem
      cases heq

lemma nodup_moves {saved : List (Nat × Var)} (targets : List Nat) (offset : Nat) :
    (((targets.zipIdx offset).filterMap (step? base values saved)).map Move.dest).Nodup := by
  induction targets generalizing offset with
  | nil => exact List.nodup_nil
  | cons i targets ih =>
    rw [List.zipIdx_cons, List.filterMap_cons]
    split
    next => exact ih (offset + 1)
    next m hm =>
      rw [List.map_cons]
      refine List.nodup_cons.mpr ⟨fun hmem => ?_, ih (offset + 1)⟩
      obtain ⟨m', hm', heq⟩ := List.mem_map.mp hmem
      obtain ⟨⟨i', j⟩, hx, hstep⟩ := List.mem_filterMap.mp hm'
      have hj : offset + 1 ≤ j := (List.mem_zipIdx hx).1
      obtain ⟨_, _, hdest, -⟩ := step?_eq_some hm
      obtain ⟨_, _, hdest', -⟩ := step?_eq_some hstep
      rw [hdest, hdest'] at heq
      have hsum := (Var.operand.inj heq).2
      dsimp only at hsum
      omega

lemma copies_read (n : Nat) :
    (copies n (moved base values pattern)).Pairwise fun a b => a.dest ≠ b.source := by
  refine List.pairwise_of_forall_mem_list fun a ha b hb heq => ?_
  obtain ⟨t, -, -, hdest, -⟩ := mem_copies ha
  obtain ⟨-, i, -, -, hmem⟩ := mem_copies hb
  obtain ⟨k, -, hsource, -⟩ := mem_moved.mp hmem
  cases hdest.symm.trans (heq.trans hsource)

lemma moves_read (n : Nat) :
    (pattern.zipIdx.filterMap (step? base values (saved n (moved base values pattern)))).Pairwise
      fun a b => a.dest ≠ b.source :=
  List.pairwise_of_forall_mem_list fun _ ha _ hb heq =>
    (moves_separate n hb).2 (heq ▸ (moves_separate n ha).1)

/-- **No operand is read after it is written.** -/
lemma plan_reads_first (n base : Nat) (values : List Entry) (pattern : List Nat) :
    (plan n base values pattern).Pairwise fun a b => ∀ k d, b.source = .operand k d →
      a.dest ≠ b.source := by
  refine List.pairwise_append.mpr ⟨?_, ?_, fun a ha b _ k d hsource heq => ?_⟩
  · exact (copies_read n).imp fun hne _ _ _ => hne
  · exact (moves_read n).imp fun hne _ _ _ => hne
  · obtain ⟨t, -, -, hdest, -⟩ := mem_copies ha
    cases hdest.symm.trans (heq.trans hsource)

/-- Only temporary variables and positions from the base on are written. -/
lemma dest_of_mem_plan {m : Move} (h : m ∈ plan n base values pattern) :
    (∃ t, m.dest = .temp t) ∨ ∃ k d, base ≤ d ∧ m.dest = .operand k d := by
  rcases List.mem_append.mp h with h | h
  · obtain ⟨t, -, -, hdest, -⟩ := mem_copies h
    exact .inl ⟨t, hdest⟩
  · obtain ⟨x, -, h⟩ := List.mem_filterMap.mp h
    obtain ⟨k, -, hdest, -⟩ := step?_eq_some h
    exact .inr ⟨k, base + x.2, Nat.le_add_right _ _, hdest⟩

lemma move_plan_below (hd : d < base) :
    σ.move (plan n base values pattern) (Var.operand k d).name = σ (Var.operand k d).name := by
  refine Store.move_of_ne fun m hm heq => ?_
  rcases dest_of_mem_plan hm with ⟨t, hdest⟩ | ⟨k', d', hle, hdest⟩
  · cases hdest.symm.trans heq
  · cases hdest.symm.trans heq
    omega

lemma move_plan_slot (index : UInt16) :
    σ.move (plan n base values pattern) (Var.slot k index).name = σ (Var.slot k index).name := by
  refine Store.move_of_ne fun m hm heq => ?_
  rcases dest_of_mem_plan hm with ⟨t, hdest⟩ | ⟨k', d', -, hdest⟩
  · cases hdest.symm.trans heq
  · cases hdest.symm.trans heq

/-- After the copies, each value is where its move reads it. -/
lemma move_copies_source (n base : Nat) (σ : Store) (hk : values[i]? = some (.slot k))
    (hi : i ∈ pattern) :
    σ.move (copies n (moved base values pattern))
        (((saved n (moved base values pattern)).lookup i).getD (.operand k (base + i))).name =
      σ (Var.operand k (base + i)).name := by
  rcases source_cases n hk hi with ⟨hstays, -⟩ | ⟨t, haside, hcopy, -⟩
  · rw [hstays]
    refine Store.move_of_ne fun m hm heq => ?_
    obtain ⟨t, -, -, hdest, -⟩ := mem_copies hm
    cases hdest.symm.trans heq
  · rw [haside]
    exact Store.move_dest (nodup_copies n _) (copies_read n) hcopy

/-- **Each new position gets the value that was there before the first move.** -/
lemma move_plan_target (hx : (i, j) ∈ pattern.zipIdx) (hk : values[i]? = some (.slot k)) :
    σ.move (plan n base values pattern) (Var.operand k (base + j)).name =
      σ (Var.operand k (base + i)).name := by
  have hi : i ∈ pattern := List.fst_mem_of_mem_zipIdx hx
  have hsource := move_copies_source n base σ hk hi
  rw [plan, Store.move_append, ← hsource]
  generalize hs : ((saved n (moved base values pattern)).lookup i).getD
    (.operand k (base + i)) = source
  by_cases hne : Var.operand k (base + j) = source
  · -- it is there, and so in a variable that no move writes
    have hkept : source ∉ overwritten base values pattern := by
      rcases source_cases n hk hi with ⟨hstays, hkept⟩ | ⟨t, haside, -⟩
      · rwa [← hs, hstays]
      · cases hne.trans (hs.symm.trans haside)
    rw [hne]
    exact Store.move_of_ne fun m hm heq => hkept (heq ▸ (moves_separate n hm).1)
  · have hstep : step? base values (saved n (moved base values pattern)) (i, j) =
        some ⟨.operand k (base + j), source⟩ := by
      simp [step?, hk, hs, hne]
    exact Store.move_dest (nodup_moves pattern 0) (moves_read n)
      (List.mem_filterMap.mpr ⟨(i, j), hx, hstep⟩)

end

end Shuffle

/-! ### The values -/

namespace Store

variable {σ σ' : Store}

/-- The kind and the value at each position, top first. -/
def held (σ : Store) : List Entry → List (Kind × Datum)
  | [] => []
  | e :: rest => (e.kind, (e.atom rest.length).eval σ) :: σ.held rest

lemma map_fst_held (σ : Store) (stack : List Entry) :
    (σ.held stack).map Prod.fst = stack.map Entry.kind := by
  induction stack with
  | nil => rfl
  | cons e rest ih => rw [held, List.map_cons, List.map_cons, ih]

lemma held_congr {stack : List Entry}
    (h : ∀ k d, d < stack.length → σ' (Var.operand k d).name = σ (Var.operand k d).name) :
    σ'.held stack = σ.held stack := by
  induction stack with
  | nil => rfl
  | cons e rest ih =>
    rw [held, held, ih fun k d hd => h k d (Nat.lt_succ_of_lt hd)]
    cases e with
    | const l => rfl
    | slot k => exact congrArg (fun x => (k, x) :: _) (h k rest.length (Nat.lt_succ_self _))

def heldFrom (σ : Store) (base : Nat) (values : List Entry) : List (Kind × Datum) :=
  (values.zipIdx base).map fun x => (x.1.kind, (x.1.atom x.2).eval σ)

lemma held_reverse_append (σ : Store) (values rest : List Entry) :
    σ.held (values.reverse ++ rest) = (σ.heldFrom rest.length values).reverse ++ σ.held rest := by
  induction values generalizing rest with
  | nil => rfl
  | cons e values ih =>
    rw [List.reverse_cons, List.append_assoc, List.singleton_append, ih (e :: rest)]
    simp [heldFrom, held]

lemma getElem?_heldFrom (σ : Store) (base : Nat) (values : List Entry) (i : Nat) :
    (σ.heldFrom base values)[i]? = values[i]?.map fun e =>
    (e.kind, (e.atom (base + i)).eval σ) := by
  rw [heldFrom, List.getElem?_map, List.getElem?_zipIdx, Option.map_map]
  rfl

end Store

namespace Shuffle

open Store (held heldFrom)

lemma heldFrom_pick {σ σ' : Store} {base : Nat} {values : List Entry} {targets : List Nat}
    (hrange : ∀ i ∈ targets, i < values.length) (offset : Nat)
    (h : ∀ i j e, (i, j) ∈ targets.zipIdx offset → values[i]? = some e →
      (e.atom (base + j)).eval σ' = (e.atom (base + i)).eval σ) :
    σ'.heldFrom (base + offset) (pick targets values) = pick targets (σ.heldFrom base values) := by
  induction targets generalizing offset with
  | nil => rfl
  | cons i targets ih =>
    obtain ⟨hi, hrange⟩ := List.forall_mem_cons.mp hrange
    have hvalue : values[i]? = some values[i] := List.getElem?_eq_getElem hi
    have hfirst := h i offset values[i] (by simp [List.zipIdx_cons]) hvalue
    have hrest := ih hrange (offset + 1) fun i j e hx => h i j e (by simp [List.zipIdx_cons, hx])
    rw [pick, pick, List.filterMap_cons, List.filterMap_cons, hvalue,
      Store.getElem?_heldFrom, hvalue]
    simp only [Option.map_some]
    rw [← hfirst, ← pick, ← pick, ← hrest]
    rfl

/-- **A shuffle does to the values what it does to the stack.** -/
lemma held_apply {s : Shuffle} (hs : ∀ i ∈ s.pattern, i < s.take) {f : Frame}
    (h : s.take ≤ f.stack.length) (σ : Store) :
    (σ.move (s.planOf f)).held (s.apply f.stack) = s.apply (σ.held f.stack) := by
  obtain ⟨values, hvalues⟩ : ∃ values, values = (f.stack.take s.take).reverse := ⟨_, rfl⟩
  obtain ⟨rest, hrest⟩ : ∃ rest, rest = f.stack.drop s.take := ⟨_, rfl⟩
  have hbase : f.stack.length - s.take = rest.length := by rw [hrest, List.length_drop]
  have hlength : values.length = s.take := by
    rw [hvalues, List.length_reverse, List.length_take_of_le h]
  have hstack : f.stack = values.reverse ++ rest := by
    rw [hvalues, hrest, List.reverse_reverse, List.take_append_drop]
  have hold : s.apply (σ.held f.stack) =
      (pick s.pattern (σ.heldFrom rest.length values)).reverse ++ σ.held rest := by
    have hlength' : (σ.heldFrom rest.length values).reverse.length = s.take := by
      simp [heldFrom, hlength]
    rw [hstack, Store.held_reverse_append, apply, List.take_left' hlength',
      List.drop_left' hlength',
      List.reverse_reverse]
  have hbelow : (σ.move (s.planOf f)).held rest = σ.held rest :=
    Store.held_congr fun k d hd => move_plan_below (hbase ▸ hd)
  rw [hold, apply, ← hvalues, ← hrest, Store.held_reverse_append, hbelow]
  refine congrArg (fun vs => List.reverse vs ++ _) ?_
  refine heldFrom_pick (hlength ▸ hs) 0 fun i j e hx he => ?_
  cases e with
  | const l => rfl
  | slot k =>
    rw [← hbase]
    refine move_plan_target hx ?_
    rwa [← hvalues]

end Shuffle

end ClassScript
