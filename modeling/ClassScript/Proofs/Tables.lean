import ClassScript.Table
import Mathlib.Tactic.Lemma

/-!
Finite tables as functions of their keys.
-/

namespace ClassScript.Table

variable {κ ν : Type} [BEq κ] [LawfulBEq κ]

/-- The entries of other keys decide what a key has. -/
lemma lookup_filter_ne {k k' : κ} (h : k' ≠ k) (es : List (κ × ν)) :
    (es.filter fun e => !(e.1 == k)).lookup k' = es.lookup k' := by
  induction es with
  | nil => rfl
  | cons e es ih =>
    by_cases he : e.1 = k
    · have hne : (k' == e.1) = false := by simpa [he] using h
      rw [List.filter_cons_of_neg (by simp [he]), ih, List.lookup_cons, hne]
    · rw [List.filter_cons_of_pos (by simp [he]), List.lookup_cons, List.lookup_cons, ih]

@[simp] lemma get?_insert_self (t : Table κ ν) (k : κ) (v : ν) :
    (t.insert k v).get? k = some v := by
  simp [get?, insert]

lemma get?_insert_of_ne (t : Table κ ν) {k k' : κ} (v : ν) (h : k' ≠ k) :
    (t.insert k v).get? k' = t.get? k' := by
  have hne : (k' == k) = false := by simpa using h
  rw [get?, insert, List.lookup_cons, hne]
  exact lookup_filter_ne h t.entries

lemma contains_insert_self (t : Table κ ν) (k : κ) (v : ν) : (t.insert k v).contains k = true := by
  simp [contains]

/-- A key that has a value keeps one. -/
lemma contains_insert_of_contains {t : Table κ ν} {k : κ} (h : t.contains k = true) (k' : κ)
    (v : ν) :
    (t.insert k' v).contains k = true := by
  by_cases hk : k = k'
  · subst hk
    exact contains_insert_self t k v
  · rwa [contains, get?_insert_of_ne t v hk]

lemma contains_insert_iff {t : Table κ ν} {k k' : κ} {v : ν} :
    (t.insert k v).contains k' = true ↔ k' = k ∨ t.contains k' = true := by
  by_cases hk : k' = k
  · subst hk
    simp [contains_insert_self]
  · rw [contains, get?_insert_of_ne t v hk, or_iff_right hk]
    rfl

lemma mem_keys {t : Table κ ν} {k : κ} {v : ν} (h : t.get? k = some v) :
    k ∈ t.entries.map Prod.fst := by
  obtain ⟨es⟩ := t
  change es.lookup k = some v at h
  induction es with
  | nil => cases h
  | cons e es ih =>
    rw [List.lookup_cons] at h
    cases hk : k == e.1 with
    | true => exact List.mem_cons.mpr (.inl (by simpa using hk))
    | false =>
      rw [hk] at h
      exact List.mem_cons_of_mem _ (ih h)

end ClassScript.Table
