import ClassScript.Method.Lower
import ClassScript.Proofs.AcceptedCode
import ClassScript.Proofs.Control
import ClassScript.Proofs.Decoding
import Mathlib.Data.Finset.Card
import Mathlib.Data.Int.Interval

/-!
Jump tables select the target of the first pair.

Sorting keeps pairs with one key in order, and of these the first is kept; so the sorted pairs give
every key the target that the pairs give it. A table indexed by the key is these pairs written out,
with the default between them.
-/

namespace ClassScript

namespace SwitchTable

variable {pairs ps : List (Int32 × Nat)} {default n : Nat} {k key low high : Int32}

/-- The target that a table selects. No target if an index leads past the table. -/
def lookup (default : Nat) (key : Int32) : SwitchTable → Option Nat
  | indexed low high targets =>
    if low ≤ key ∧ key ≤ high then targets[(key.toInt - low.toInt).toNat]? else some default
  | chain pairs => some ((pairs.lookup key).getD default)

/-! ### Sorting -/

def Rising (ps : List (Int32 × Nat)) : Prop := ps.Pairwise fun p q => p.1.toInt < q.1.toInt

lemma ne_of_toInt_lt {j k : Int32} (h : j.toInt < k.toInt) : j ≠ k := fun heq => by
  rw [heq] at h
  exact Int.lt_irrefl _ h

lemma lookup_cons (p : Int32 × Nat) (ps : List (Int32 × Nat)) (k : Int32) :
    (p :: ps).lookup k = if k = p.1 then some p.2 else ps.lookup k := by
  rw [List.lookup_cons]
  by_cases heq : k = p.1
  · rw [if_pos heq, beq_iff_eq.mpr heq]
  · rw [if_neg heq, beq_eq_false_iff_ne.mpr heq]

lemma lookup_dedup (ps : List (Int32 × Nat)) (k : Int32) : (dedup ps).lookup k = ps.lookup k := by
  induction ps with
  | nil => rfl
  | cons p ps ih =>
    rw [lookup_cons, ← ih, dedup]
    split
    next hnil => rw [hnil, lookup_cons]
    next q qs hcons =>
      rw [hcons]
      split
      next heq =>
        -- the dropped pair stands behind one with its key
        rw [lookup_cons, lookup_cons, heq]
        split <;> rfl
      next => rw [lookup_cons]

lemma dedup_rising (h : ps.Pairwise fun p q => p.1.toInt ≤ q.1.toInt) : Rising (dedup ps) := by
  induction ps with
  | nil => exact .nil
  | cons p ps ih =>
    obtain ⟨hp, hps⟩ := List.pairwise_cons.mp h
    have hrising := ih hps
    have hsubset := dedup_subset ps
    rw [dedup]
    split
    · exact List.pairwise_singleton _ _
    next q qs hcons =>
      rw [hcons] at hrising hsubset
      obtain ⟨hq, hqs⟩ := List.pairwise_cons.mp hrising
      split
      next heq => exact List.pairwise_cons.mpr ⟨fun r hr => heq ▸ hq r hr, hqs⟩
      next hne =>
        have hle := hp q (hsubset List.mem_cons_self)
        have hlt : p.1.toInt < q.1.toInt :=
          lt_of_le_of_ne hle fun heq => hne (Int32.toInt_inj.mp heq)
        refine List.pairwise_cons.mpr ⟨fun r hr => ?_, hrising⟩
        rcases List.mem_cons.mp hr with rfl | hr
        · exact hlt
        · exact Int.lt_trans hlt (hq r hr)

/-- The first pair with a key is the first of all pairs with it. -/
lemma lookup_eq_filter (ps : List (Int32 × Nat)) (k : Int32) :
    ps.lookup k = ((ps.filter (·.1 == k)).head?).map Prod.snd := by
  induction ps with
  | nil => rfl
  | cons p ps ih =>
    rw [lookup_cons, List.filter_cons, ih]
    by_cases heq : p.1 = k
    · rw [if_pos heq.symm, if_pos (beq_iff_eq.mpr heq)]
      rfl
    · rw [if_neg fun h => heq h.symm, if_neg fun h => heq (beq_iff_eq.mp h)]

lemma le_trans (p q r : Int32 × Nat) (hpq : decide (p.1 ≤ q.1)) (hqr : decide (q.1 ≤ r.1)) :
    decide (p.1 ≤ r.1) := by
  rw [decide_eq_true_eq, Int32.le_iff_toInt_le] at *
  omega

lemma le_total (p q : Int32 × Nat) : decide (p.1 ≤ q.1) || decide (q.1 ≤ p.1) := by
  rw [Bool.or_eq_true, decide_eq_true_eq, decide_eq_true_eq, Int32.le_iff_toInt_le,
    Int32.le_iff_toInt_le]
  omega

/-- Sorting is stable. -/
lemma filter_mergeSort (pairs : List (Int32 × Nat)) (k : Int32) :
    (pairs.mergeSort fun p q => p.1 ≤ q.1).filter (·.1 == k) = pairs.filter (·.1 == k) := by
  have hequal : (pairs.filter (·.1 == k)).Pairwise fun p q => decide (p.1 ≤ q.1) := by
    refine List.pairwise_of_forall_mem_list fun p hp q hq => ?_
    have hpk := beq_iff_eq.mp (List.mem_filter.mp hp).2
    have hqk := beq_iff_eq.mp (List.mem_filter.mp hq).2
    rw [hpk, hqk, decide_eq_true_eq]
    exact Int32.le_refl k
  -- what has the key and keeps its order is as long as all that has the key
  have hsub :=
    (List.sublist_mergeSort le_trans le_total hequal List.filter_sublist).filter (·.1 == k)
  simp only [List.filter_filter, Bool.and_self] at hsub
  have hlength := ((List.mergeSort_perm pairs fun p q => p.1 ≤ q.1).filter (·.1 == k)).length_eq
  exact (hsub.eq_of_length hlength.symm).symm

lemma lookup_sorted (pairs : List (Int32 × Nat)) (k : Int32) :
    (sorted pairs).lookup k = pairs.lookup k := by
  rw [sorted, lookup_dedup, lookup_eq_filter, filter_mergeSort, ← lookup_eq_filter]

lemma sorted_rising (pairs : List (Int32 × Nat)) : Rising (sorted pairs) := by
  refine dedup_rising ((List.pairwise_mergeSort le_trans le_total pairs).imp fun h => ?_)
  rwa [decide_eq_true_eq, Int32.le_iff_toInt_le] at h

lemma dedup_of_rising (h : Rising ps) : dedup ps = ps := by
  induction ps with
  | nil => rfl
  | cons p ps ih =>
    obtain ⟨hp, hps⟩ := List.pairwise_cons.mp h
    rw [dedup, ih hps]
    cases ps with
    | nil => rfl
    | cons q qs =>
      have hne : ¬ p.1 = q.1 := ne_of_toInt_lt (hp q List.mem_cons_self)
      simp only [if_neg hne]

lemma sorted_of_rising (h : Rising ps) : sorted ps = ps := by
  have hle : ps.Pairwise fun p q => decide (p.1 ≤ q.1) := h.imp fun hlt =>
    decide_eq_true (Int32.le_iff_toInt_le.mpr (Int.le_of_lt hlt))
  rw [sorted, List.mergeSort_of_pairwise hle, dedup_of_rising h]

lemma Rising.lookup_eq_some {p : Int32 × Nat} (h : Rising ps) (hp : p ∈ ps) :
    ps.lookup p.1 = some p.2 := by
  induction ps with
  | nil => cases hp
  | cons q ps ih =>
    obtain ⟨hq, hps⟩ := List.pairwise_cons.mp h
    rw [lookup_cons]
    rcases List.mem_cons.mp hp with rfl | hp
    · rw [if_pos rfl]
    · have hne : ¬ p.1 = q.1 := (ne_of_toInt_lt (hq p hp)).symm
      rw [if_neg hne, ih hps hp]

/-! ### Keys -/

lemma lookup_eq_none_iff : ps.lookup k = none ↔ k ∉ ps.map Prod.fst := by
  rw [List.lookup_eq_none_iff, List.mem_map]
  constructor
  · rintro h ⟨p, hp, rfl⟩
    exact bne_iff_ne.mp (h p hp) rfl
  · intro h p hp
    exact bne_iff_ne.mpr fun heq => h ⟨p, hp, heq.symm⟩

lemma mem_keys_sorted : k ∈ (sorted pairs).map Prod.fst ↔ k ∈ pairs.map Prod.fst := by
  rw [← not_iff_not, ← lookup_eq_none_iff, lookup_sorted, lookup_eq_none_iff]

structure Bounds (pairs : List (Int32 × Nat)) (low high : Int32) : Prop where
  low_mem : low ∈ pairs.map Prod.fst
  high_mem : high ∈ pairs.map Prod.fst
  le : ∀ k ∈ pairs.map Prod.fst, low ≤ k ∧ k ≤ high

def distinct (pairs : List (Int32 × Nat)) : Nat := (pairs.map Prod.fst).toFinset.card

lemma Rising.keys (h : Rising ps) : (ps.map Prod.fst).Pairwise fun j k => j.toInt < k.toInt :=
  List.pairwise_map.mpr h

lemma length_sorted (pairs : List (Int32 × Nat)) : (sorted pairs).length = distinct pairs := by
  have hnodup : ((sorted pairs).map Prod.fst).Nodup := (sorted_rising pairs).keys.imp ne_of_toInt_lt
  have hkeys : ((sorted pairs).map Prod.fst).toFinset = (pairs.map Prod.fst).toFinset := by
    ext k
    rw [List.mem_toFinset, List.mem_toFinset, mem_keys_sorted]
  rw [distinct, ← hkeys, List.toFinset_card_of_nodup hnodup, List.length_map]

/-- The first and the last of the sorted pairs have the least and the greatest key. -/
lemma bounds_sorted {t u : Nat} (hfirst : (sorted pairs).head? = some (low, t))
    (hlast : (sorted pairs).getLast? = some (high, u)) : Bounds pairs low high := by
  have hrising := sorted_rising pairs
  refine ⟨mem_keys_sorted.mp (List.mem_map_of_mem (List.mem_of_mem_head? hfirst)),
    mem_keys_sorted.mp (List.mem_map_of_mem (List.mem_of_getLast? hlast)), fun k hk => ?_⟩
  obtain ⟨p, hp, rfl⟩ := List.mem_map.mp (mem_keys_sorted.mpr hk)
  rw [Int32.le_iff_toInt_le, Int32.le_iff_toInt_le]
  constructor
  · obtain ⟨rest, hcons⟩ := List.head?_eq_some_iff.mp hfirst
    rw [hcons] at hp hrising
    rcases List.mem_cons.mp hp with rfl | hp
    · exact Int.le_refl _
    · exact Int.le_of_lt ((List.pairwise_cons.mp hrising).1 p hp)
  · obtain ⟨init, hsnoc⟩ := List.getLast?_eq_some_iff.mp hlast
    rw [hsnoc] at hp hrising
    rcases List.mem_append.mp hp with hp | hp
    · exact Int.le_of_lt ((List.pairwise_append.mp hrising).2.2 p hp _ (List.mem_singleton_self _))
    · rw [List.mem_singleton.mp hp]

/-! ### The table -/

lemma length_fill (default n : Nat) (start : Int) (ps : List (Int32 × Nat)) :
    (fill default n start ps).length = n := by
  induction n generalizing start ps with
  | zero => rfl
  | succ n ih =>
    cases ps with
    | nil => rw [fill, List.length_cons, ih]
    | cons p ps =>
      rw [fill]
      split <;> rw [List.length_cons, ih]

/-- A table holds the target of each key. -/
lemma getElem?_fill {start : Int} {i : Nat} (hrising : Rising ps)
    (hstart : ∀ p ∈ ps, start ≤ p.1.toInt) (hi : i < n) (hk : k.toInt = start + i) :
    (fill default n start ps)[i]? = some ((ps.lookup k).getD default) := by
  induction n generalizing start ps i with
  | zero => cases hi
  | succ n ih =>
    cases ps with
    | nil =>
      rw [fill]
      cases i with
      | zero => rfl
      | succ i => exact ih .nil (by simp) (by omega) (by omega)
    | cons p ps =>
      obtain ⟨hp, hps⟩ := List.pairwise_cons.mp hrising
      have hfirst := hstart p List.mem_cons_self
      rw [fill]
      -- the first pair fills this entry, or it waits for a later one
      split
      next heq =>
        cases i with
        | zero =>
          have hkey : k = p.1 := Int32.toInt_inj.mp (by omega)
          rw [lookup_cons, if_pos hkey]
          rfl
        | succ i =>
          have hkey : ¬ k = p.1 := fun h => by
            rw [h] at hk
            omega
          rw [lookup_cons, if_neg hkey]
          refine ih hps (fun q hq => ?_) (by omega) (by omega)
          have hlt := hp q hq
          omega
      next hne =>
        have hafter : ∀ q ∈ p :: ps, start + 1 ≤ q.1.toInt := by
          rintro q (_ | ⟨_, hq⟩)
          · omega
          · have hlt := hp q hq
            omega
        cases i with
        | zero =>
          have hnone : (p :: ps).lookup k = none := by
            rw [lookup_eq_none_iff, List.mem_map]
            rintro ⟨q, hq, rfl⟩
            have hlt := hafter q hq
            omega
          rw [hnone]
          rfl
        | succ i => exact ih hrising hafter (by omega) (by omega)

/-- What the sorted pairs are made into: nothing, a chain, or a table. -/
lemma ofPairs_cases (pairs : List (Int32 × Nat)) (default : Nat) :
    (pairs = [] ∧ ofPairs pairs default = .chain []) ∨
      ∃ low high, Bounds pairs low high ∧
        ((2 * distinct pairs < high.toInt - low.toInt + 1 ∧
          ofPairs pairs default = .chain (sorted pairs)) ∨
          high.toInt - low.toInt + 1 ≤ 2 * distinct pairs ∧ ofPairs pairs default =
            .indexed low high
              (fill default (high.toInt - low.toInt + 1).toNat low.toInt (sorted pairs))) := by
  rcases hfirst : (sorted pairs).head? with _ | ⟨low, t⟩
  · have hnil := List.head?_eq_none_iff.mp hfirst
    refine .inl ⟨List.eq_nil_iff_forall_not_mem.mpr fun p hp => ?_, by simp only [ofPairs, hfirst]⟩
    have hkey : p.1 ∈ (sorted pairs).map Prod.fst := mem_keys_sorted.mpr (List.mem_map_of_mem hp)
    rw [hnil] at hkey
    cases hkey
  · obtain ⟨rest, hcons⟩ := List.head?_eq_some_iff.mp hfirst
    obtain ⟨⟨high, u⟩, hlast⟩ : ∃ q, (sorted pairs).getLast? = some q := by
      rw [hcons]
      exact ⟨_, List.getLast?_cons⟩
    have hbounds := bounds_sorted hfirst hlast
    have hle := (hbounds.le high hbounds.high_mem).1
    rw [Int32.le_iff_toInt_le] at hle
    refine .inr ⟨low, high, hbounds, ?_⟩
    simp only [ofPairs, hfirst, hlast, length_sorted]
    split
    · exact .inl ⟨by omega, rfl⟩
    · exact .inr ⟨by omega, rfl⟩

lemma Bounds.unique {low' high' : Int32} (h : Bounds pairs low high)
    (h' : Bounds pairs low' high') :
    low = low' ∧ high = high' := by
  have hlow := (h.le low' h'.low_mem).1
  have hlow' := (h'.le low h.low_mem).1
  have hhigh := (h.le high' h'.high_mem).2
  have hhigh' := (h'.le high h.high_mem).2
  exact ⟨Int32.le_antisymm hlow hlow', Int32.le_antisymm hhigh' hhigh⟩

/-- The table is indexed exactly if the keys lie close together. -/
lemma exists_indexed_iff (pairs : List (Int32 × Nat)) (default : Nat) :
    (∃ low high targets, ofPairs pairs default = .indexed low high targets) ↔
      ∃ low high, Bounds pairs low high ∧ high.toInt - low.toInt + 1 ≤ 2 * distinct pairs := by
  obtain ⟨rfl, htable⟩ | ⟨low, high, hbounds, ⟨hlong, htable⟩ | ⟨hshort, htable⟩⟩ :=
    ofPairs_cases pairs default
  · rw [htable]
    refine ⟨by rintro ⟨_, _, _, ⟨⟩⟩, ?_⟩
    rintro ⟨low, high, hbounds, -⟩
    cases hbounds.low_mem
  · rw [htable]
    refine ⟨by rintro ⟨_, _, _, ⟨⟩⟩, ?_⟩
    rintro ⟨low', high', hbounds', hshort⟩
    obtain ⟨rfl, rfl⟩ := hbounds.unique hbounds'
    omega
  · exact ⟨fun _ => ⟨low, high, hbounds, hshort⟩, fun _ => ⟨_, _, _, htable⟩⟩

lemma bounds_of_indexed {targets : List Nat}
    (h : ofPairs pairs default = .indexed low high targets) :
    Bounds pairs low high ∧ (targets.length : Int) = high.toInt - low.toInt + 1 := by
  obtain ⟨rfl, htable⟩ | ⟨low', high', hbounds, ⟨-, htable⟩ | ⟨-, htable⟩⟩ :=
    ofPairs_cases pairs default
  · cases htable.symm.trans h
  · cases htable.symm.trans h
  · cases htable.symm.trans h
    have hle := Int32.le_iff_toInt_le.mp (hbounds.le low hbounds.low_mem).2
    rw [length_fill]
    exact ⟨hbounds, by omega⟩

lemma rising_of_chain (h : ofPairs pairs default = .chain ps) : Rising ps := by
  obtain ⟨rfl, htable⟩ | ⟨low, high, -, ⟨-, htable⟩ | ⟨-, htable⟩⟩ := ofPairs_cases pairs default
  · cases htable.symm.trans h
    exact .nil
  · cases htable.symm.trans h
    exact sorted_rising pairs
  · cases htable.symm.trans h

lemma lookup_none_of_bounds (h : Bounds pairs low high) (hkey : ¬ (low ≤ key ∧ key ≤ high)) :
    pairs.lookup key = none :=
  lookup_eq_none_iff.mpr fun hmem => hkey (h.le key hmem)

/-- **A table selects what the first pair with the key says.** -/
lemma lookup_ofPairs (pairs : List (Int32 × Nat)) (default : Nat) (key : Int32) :
    (ofPairs pairs default).lookup default key = some ((pairs.lookup key).getD default) := by
  obtain ⟨rfl, htable⟩ | ⟨low, high, hbounds, ⟨-, htable⟩ | ⟨-, htable⟩⟩ :=
    ofPairs_cases pairs default
  · rw [htable]
    rfl
  · rw [htable, lookup, lookup_sorted]
  · rw [htable, lookup]
    split
    next hkey =>
      rw [Int32.le_iff_toInt_le, Int32.le_iff_toInt_le] at hkey
      have hstart : ∀ p ∈ sorted pairs, low.toInt ≤ p.1.toInt := fun p hp =>
        Int32.le_iff_toInt_le.mp (hbounds.le p.1 (mem_keys_sorted.mp (List.mem_map_of_mem hp))).1
      rw [getElem?_fill (k := key) (sorted_rising pairs) hstart (by omega) (by omega),
        lookup_sorted]
    next hkey =>
      rw [lookup_none_of_bounds hbounds hkey]
      rfl

/-! ### Spans -/

lemma distinct_le (pairs : List (Int32 × Nat)) : distinct pairs ≤ 2 ^ 32 := by
  have hcard : distinct pairs ≤ (Finset.Icc (-2 ^ 31 : Int) (2 ^ 31 - 1)).card := by
    refine Finset.card_le_card_of_injOn Int32.toInt (fun k _ => ?_) fun j _ k _ h =>
      Int32.toInt_inj.mp h
    have hlow := k.le_toInt
    have hhigh := k.toInt_lt
    simp only [Finset.coe_Icc, Set.mem_Icc]
    omega
  rwa [Int.card_Icc] at hcard

/-- A number that is small enough is kept in 64 bits. -/
lemma bmod_eq_of_small {n : Int} (h : -2 ^ 63 ≤ n) (h' : n < 2 ^ 63) : n.bmod (2 ^ 64) = n :=
  Int.bmod_eq_of_le (by omega) (by omega)

/-- The numbers that decide between a table and a chain can be computed in 64 bits. -/
structure Computes64 (pairs : List (Int32 × Nat)) (low high : Int32) : Prop where
  difference : (high.toInt64 - low.toInt64).toInt = high.toInt - low.toInt
  span : (high.toInt64 - low.toInt64 + 1).toInt = high.toInt - low.toInt + 1
  doubled : (2 * Int64.ofNat (distinct pairs)).toInt = 2 * distinct pairs

lemma computes64 (pairs : List (Int32 × Nat)) (low high : Int32) : Computes64 pairs low high := by
  have hlow := low.le_toInt
  have hlow' := low.toInt_lt
  have hhigh := high.le_toInt
  have hhigh' := high.toInt_lt
  have hdifference : (high.toInt64 - low.toInt64).toInt = high.toInt - low.toInt := by
    rw [Int64.toInt_sub, Int32.toInt_toInt64, Int32.toInt_toInt64]
    exact bmod_eq_of_small (by omega) (by omega)
  have hdistinct := distinct_le pairs
  refine ⟨hdifference, ?_, ?_⟩
  · rw [Int64.toInt_add, hdifference, Int64.toInt_one]
    exact bmod_eq_of_small (by omega) (by omega)
  · have htwo : Int64.toInt 2 = 2 := rfl
    rw [Int64.toInt_mul, Int64.toInt_ofNat_of_lt (by omega), htwo]
    exact bmod_eq_of_small (by omega) (by omega)

end SwitchTable

/-! ### Tables of instructions -/

namespace Instruction

def isTable : Instruction → Bool
  | tableSwitch .. => true
  | _ => false

variable {pc default : Nat} {low : Int32} {targets : List Nat} {i : Instruction} {bs bytes : Bytes}
  {code : List Located}

/-- A switch by range goes to a target for each of some numbers of 32 bits. -/
lemma Encodes.table_fits (h : Encodes pc i bs) (hi : i = .tableSwitch default low targets) :
    targets ≠ [] ∧ low.toInt + targets.length ≤ 2 ^ 31 := by
  have htable : isTable i = true := by rw [hi, isTable]
  have hplain : ∀ p ∈ plainOpcodes, isTable p.2 = false := by decide +kernel
  have hlocal : ∀ p ∈ localOpcodes, ∀ n, isTable (p.2 n) = false := by
    simp [localOpcodes, rows, isTable]
  have hpool : ∀ p ∈ poolOpcodes, ∀ n, isTable (p.2 n) = false := by
    simp [poolOpcodes, rows, isTable]
  have hbranch : ∀ p ∈ branchOpcodes, ∀ t, isTable (p.2 t) = false := by
    simp [branchOpcodes, rows, isTable]
  have hfar : ∀ p ∈ farOpcodes, ∀ t, isTable (p.2 t) = false := by simp [farOpcodes, rows, isTable]
  cases h with
  | plain h => cases (hplain _ h).symm.trans htable
  | onLocal h n => cases (hlocal _ h _).symm.trans htable
  | onWideLocal h n => cases (hlocal _ h _).symm.trans htable
  | onPool h n => cases (hpool _ h _).symm.trans htable
  | branch h ht => cases (hbranch _ h _).symm.trans htable
  | farBranch h ht => cases (hfar _ h _).symm.trans htable
  | @tableSwitch pad default' low' high ts hpad hdefault hts hne hhigh =>
    cases hi
    have hlt := high.toInt_lt
    exact ⟨hne, by omega⟩
  | _ => cases htable

lemma Scanned.exists_spelled (h : Scanned pc code bs) :
    ∀ l ∈ code, ∃ used, Spelled l.address l.instruction used := by
  induction h with
  | nil => simp
  | @cons pc i bs rest code h hcode ih =>
    rintro l (_ | ⟨_, hl⟩)
    · exact ⟨bs, h⟩
    · exact ih l hl

lemma decode_table_fits (h : decode bytes = .ok code)
    (hl : ⟨pc, tableSwitch default low targets⟩ ∈ code) :
    targets ≠ [] ∧ low.toInt + targets.length ≤ 2 ^ 31 := by
  have hscanned : Scanned 0 code bytes := decodeFrom_scanned (Nat.le_refl _) (decode_cases h).2
  obtain ⟨used, hspelled⟩ := hscanned.exists_spelled _ hl
  cases hspelled with
  | legal h => exact h.table_fits rfl

end Instruction

namespace Lower

variable {low : Int32} {targets : List Nat} {default : Nat}

open SwitchTable

/-- Keys of a table that fits do not wrap. -/
lemma toInt_key {n i : Nat} (hfits : low.toInt + n ≤ 2 ^ 31) (hi : i < n) :
    (low + Int32.ofNat i).toInt = low.toInt + i := by
  have hlow := low.le_toInt
  rw [Int32.toInt_add, Int32.toInt_ofNat', Int32.size, Int.add_bmod_bmod]
  exact Int.bmod_eq_of_le (by omega) (by omega)

lemma length_tablePairs (low : Int32) (targets : List Nat) :
    (tablePairs low targets).length = targets.length := by
  rw [tablePairs, List.length_map, List.length_zipIdx]

lemma getElem?_tablePairs (low : Int32) (targets : List Nat) (i : Nat) :
    (tablePairs low targets)[i]? = targets[i]?.map fun t => (low + Int32.ofNat i, t) := by
  rw [tablePairs, List.getElem?_map, List.getElem?_zipIdx, Option.map_map, Nat.zero_add]
  rfl

lemma mem_tablePairs (low : Int32) {i : Nat} (hi : i < targets.length) :
    (low + Int32.ofNat i, targets[i]) ∈ tablePairs low targets := by
  refine List.mem_iff_getElem?.mpr ⟨i, ?_⟩
  rw [getElem?_tablePairs, List.getElem?_eq_getElem hi]
  rfl

lemma tablePairs_rising (hfits : low.toInt + targets.length ≤ 2 ^ 31) :
    Rising (tablePairs low targets) := by
  have hkey {i : Nat} (hi : i < (tablePairs low targets).length) :
      (tablePairs low targets)[i].1.toInt = low.toInt + i := by
    have hget := getElem?_tablePairs low targets i
    rw [length_tablePairs] at hi
    rw [List.getElem?_eq_getElem (by rwa [length_tablePairs]), List.getElem?_eq_getElem hi,
      Option.map_some,
      Option.some.injEq] at hget
    rw [hget, toInt_key hfits hi]
  rw [Rising, List.pairwise_iff_getElem]
  intro i j hi hj hij
  rw [hkey hi, hkey hj]
  omega

lemma mem_keys_tablePairs {k : Int32} :
    k ∈ (tablePairs low targets).map Prod.fst ↔ ∃ i < targets.length, k = low + Int32.ofNat i := by
  rw [List.mem_map]
  constructor
  · rintro ⟨p, hp, rfl⟩
    obtain ⟨i, hi⟩ := List.mem_iff_getElem?.mp hp
    rw [getElem?_tablePairs] at hi
    obtain ⟨t, ht, rfl⟩ := Option.map_eq_some_iff.mp hi
    exact ⟨i, (List.getElem?_eq_some_iff.mp ht).1, rfl⟩
  · rintro ⟨i, hi, rfl⟩
    exact ⟨_, mem_tablePairs low hi, rfl⟩

lemma tablePairs_bounds (hne : targets ≠ []) (hfits : low.toInt + targets.length ≤ 2 ^ 31) :
    Bounds (tablePairs low targets) low (low + Int32.ofNat (targets.length - 1)) := by
  have hpos := List.length_pos_iff.mpr hne
  have hhigh := toInt_key hfits (Nat.sub_lt hpos Nat.zero_lt_one)
  refine ⟨mem_keys_tablePairs.mpr ⟨0, hpos, (Int32.add_zero low).symm⟩,
    mem_keys_tablePairs.mpr ⟨_, Nat.sub_lt hpos Nat.zero_lt_one, rfl⟩, fun k hk => ?_⟩
  obtain ⟨i, hi, rfl⟩ := mem_keys_tablePairs.mp hk
  rw [Int32.le_iff_toInt_le, Int32.le_iff_toInt_le, hhigh, toInt_key hfits hi]
  omega

lemma fill_tablePairs (hfits : low.toInt + targets.length ≤ 2 ^ 31) (default : Nat) :
    fill default targets.length low.toInt (tablePairs low targets) = targets := by
  have hrising := tablePairs_rising hfits
  refine List.ext_getElem (length_fill _ _ _ _) fun i hi hi' => ?_
  have hkey := toInt_key hfits hi'
  have hstart : ∀ p ∈ tablePairs low targets, low.toInt ≤ p.1.toInt := by
    intro p hp
    obtain ⟨j, hj, hpj⟩ := mem_keys_tablePairs.mp (List.mem_map_of_mem hp)
    rw [hpj, toInt_key hfits hj]
    omega
  have hget : (fill default targets.length low.toInt (tablePairs low targets))[i]? = _ :=
    getElem?_fill hrising hstart hi' hkey
  rw [hrising.lookup_eq_some (mem_tablePairs low hi'), List.getElem?_eq_getElem hi] at hget
  exact Option.some.inj hget

/-- A switch by range that fits becomes a table, with its own targets. -/
lemma ofPairs_tablePairs (hne : targets ≠ []) (hfits : low.toInt + targets.length ≤ 2 ^ 31)
    (default : Nat) :
    ofPairs (tablePairs low targets) default =
      .indexed low (low + Int32.ofNat (targets.length - 1)) targets := by
  have hpos := List.length_pos_iff.mpr hne
  have hhigh := toInt_key hfits (Nat.sub_lt hpos Nat.zero_lt_one)
  have hsorted := sorted_of_rising (tablePairs_rising hfits)
  have hdistinct : distinct (tablePairs low targets) = targets.length := by
    rw [← length_sorted, hsorted, length_tablePairs]
  obtain ⟨hnil, -⟩ | ⟨low', high', hbounds, hcase⟩ := ofPairs_cases (tablePairs low targets) default
  · have hlength := length_tablePairs low targets
    rw [hnil, List.length_nil] at hlength
    omega
  · obtain ⟨rfl, rfl⟩ := (tablePairs_bounds hne hfits).unique hbounds
    have hspan : ((low + Int32.ofNat (targets.length - 1)).toInt - low.toInt + 1).toNat =
        targets.length := by omega
    rw [hdistinct, hspan, hsorted, fill_tablePairs hfits] at hcase
    obtain ⟨hlong, -⟩ | ⟨-, htable⟩ := hcase
    · omega
    · exact htable

end Lower

namespace SwitchTable

/-- **Jump tables are exact.** A table selects the target of the first pair with the key, and the
default if there is none. It is indexed if the keys span at most twice as many values as there are
keys, which can be decided in 64 bits; otherwise the keys are compared in increasing order. The keys
of a decoded switch by range do not wrap, and its table is the one in the code. -/
theorem jump_tables_exact (pairs : List (Int32 × Nat)) (default : Nat) :
    (∀ key, (ofPairs pairs default).lookup default key = some ((pairs.lookup key).getD default)) ∧
      ((∃ low high targets, ofPairs pairs default = .indexed low high targets) ↔
        ∃ low high, Bounds pairs low high ∧ high.toInt - low.toInt + 1 ≤ 2 * distinct pairs) ∧
      (∀ low high targets, ofPairs pairs default = .indexed low high targets →
        Bounds pairs low high ∧ (targets.length : Int) = high.toInt - low.toInt + 1) ∧
      (∀ ps, ofPairs pairs default = .chain ps → (ps.map Prod.fst).Pairwise (· < ·)) ∧
      (∀ low high, Computes64 pairs low high) ∧
      ∀ bytes code pc d low targets, Instruction.decode bytes = .ok code →
        ⟨pc, .tableSwitch d low targets⟩ ∈ code →
          (∀ (i : Nat) k t, (Lower.tablePairs low targets)[i]? = some (k, t) →
            k.toInt = low.toInt + i ∧ targets[i]? = some t) ∧
          ∃ high : Int32, high.toInt = low.toInt + targets.length - 1 ∧
            ofPairs (Lower.tablePairs low targets) d = .indexed low high targets := by
  refine ⟨lookup_ofPairs pairs default, exists_indexed_iff pairs default, fun low high targets =>
    bounds_of_indexed,
    fun ps hchain => (rising_of_chain hchain).keys.imp Int32.lt_iff_toInt_lt.mpr,
    computes64 pairs, ?_⟩
  intro bytes code pc d low targets hcode hl
  obtain ⟨hne, hfits⟩ := Instruction.decode_table_fits hcode hl
  refine ⟨fun i k t hget => ?_, _, ?_, Lower.ofPairs_tablePairs hne hfits d⟩
  · rw [Lower.getElem?_tablePairs] at hget
    obtain ⟨t', ht', heq⟩ := Option.map_eq_some_iff.mp hget
    cases heq
    exact ⟨Lower.toInt_key hfits (List.getElem?_eq_some_iff.mp ht').1, ht'⟩
  · have hpos := List.length_pos_iff.mpr hne
    rw [Lower.toInt_key hfits (Nat.sub_lt hpos Nat.zero_lt_one)]
    omega

/-- A key that two pairs have, and a switch by range that is decoded from code. -/
theorem jump_tables_exact_medley :
    (ofPairs [(4, 40), (1, 10), (4, 41)] 99).lookup 99 4 = some 40 ∧
      Instruction.decode Instruction.medleyBytes = .ok Instruction.medley ∧
      ∃ high, ofPairs (Lower.tablePairs (-1) [0, 86]) 56 = .indexed (-1) high [0, 86] ∧
        Bounds (Lower.tablePairs (-1) [0, 86]) (-1) high := by
  have hl : ⟨4, .tableSwitch 56 (-1) [0, 86]⟩ ∈ Instruction.medley := by decide
  obtain ⟨-, high, -, htable⟩ :=
    (jump_tables_exact [] 0).2.2.2.2.2 _ _ 4 56 (-1) [0, 86] Instruction.decode_medley hl
  refine ⟨(jump_tables_exact [(4, 40), (1, 10), (4, 41)] 99).1 4, Instruction.decode_medley,
    high, htable, ?_⟩
  exact ((jump_tables_exact _ 56).2.2.1 (-1) high [0, 86] htable).1

end SwitchTable

end ClassScript
