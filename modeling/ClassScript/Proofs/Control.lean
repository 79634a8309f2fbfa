import ClassScript.Script.Stmt
import Mathlib.Logic.Relation
import Mathlib.Tactic.Lemma

/-!
Control in a body that runs in a loop.

The statements of such a body stand in a switch on the variable `gt`. From one statement control
goes on to the next, or round the loop to a label; a value that a statement throws goes to the
first clause that catches it, and so round the loop too. Which way a test goes, and what is thrown
where, is left open here: the steps are all that can be taken with any values.

Whatever the way, at a statement that is no label `gt` has the value of the last mark above it.
-/

namespace ClassScript

/-! ### Jumps -/

namespace SwitchTable

def targets : SwitchTable → List Nat
  | indexed _ _ ts => ts
  | chain pairs => pairs.map Prod.snd

lemma dedup_subset (ps : List (Int32 × Nat)) : dedup ps ⊆ ps := by
  induction ps with
  | nil => exact fun _ h => h
  | cons p ps ih =>
    rw [dedup]
    split
    · simp
    next q qs hdedup =>
      rw [hdedup] at ih
      split
      · exact List.cons_subset_cons p (List.Subset.trans (List.subset_cons_self q qs) ih)
      · exact List.cons_subset_cons p ih

lemma sorted_subset (pairs : List (Int32 × Nat)) : sorted pairs ⊆ pairs :=
  List.Subset.trans (dedup_subset _) (List.mergeSort_perm _ _).subset

lemma mem_fill {default n : Nat} {key : Int} {ps : List (Int32 × Nat)} {t : Nat}
    (h : t ∈ fill default n key ps) : t ∈ ps.map Prod.snd ∨ t = default := by
  induction n generalizing key ps with
  | zero => cases h
  | succ n ih =>
    cases ps with
    | nil =>
      rcases List.mem_cons.1 h with rfl | h
      · exact .inr rfl
      · exact ih h
    | cons p ps =>
      rw [fill] at h
      split at h
      · rcases List.mem_cons.1 h with rfl | h
        · exact .inl List.mem_cons_self
        · exact (ih h).imp_left (List.mem_cons_of_mem _)
      · rcases List.mem_cons.1 h with rfl | h
        · exact .inr rfl
        · exact ih h

/-- A table holds no target but those of its pairs and the default. -/
lemma mem_targets_ofPairs {pairs : List (Int32 × Nat)} {default t : Nat}
    (h : t ∈ (ofPairs pairs default).targets) : t ∈ pairs.map Prod.snd ++ [default] := by
  have hsorted : (sorted pairs).map Prod.snd ⊆ pairs.map Prod.snd :=
    List.map_subset _ (sorted_subset pairs)
  simp only [ofPairs] at h
  split at h
  · split at h
    · exact List.mem_append_left _ (hsorted h)
    · rcases mem_fill h with h | rfl
      · exact List.mem_append_left _ (hsorted h)
      · exact List.mem_append_right _ List.mem_cons_self
  · cases h

end SwitchTable

namespace Stmt

def targets : Stmt → List Nat
  | jump t | jumpIf _ t => [t]
  | jumpTo _ table default => table.targets ++ [default]
  | _ => []

def label? : Stmt → Option Nat
  | label a => some a
  | _ => none

def mark? : Stmt → Option Nat
  | mark a => some a
  | _ => none

/-- A statement that does something: neither a label nor a mark. -/
def acts : Stmt → Bool
  | label _ | mark _ => false
  | _ => true

lemma label?_eq_none {s : Stmt} (h : s.acts = true) : s.label? = none := by
  cases s with
  | label a => cases h
  | _ => rfl

lemma mark?_eq_none {s : Stmt} (h : s.acts = true) : s.mark? = none := by
  cases s with
  | mark a => cases h
  | _ => rfl

def fallsOn : Stmt → Bool
  | jump _ | jumpTo .. | returns _ | raise _ => false
  | _ => true

/-- A statement that acts, and jumps to the given labels only. -/
structure Stays (labels : List Nat) (s : Stmt) : Prop where
  acts : s.acts = true
  targets : ∀ a ∈ s.targets, a ∈ labels

end Stmt

namespace CatchClause

/-- Is the place where control was in the range of the clause? -/
def spans (k : CatchClause) (gt : Nat) : Bool := k.start ≤ gt && gt < k.stop

/-- Does the clause let a thrown value pass its test of the class? A value has a property for
each class that it is an instance of. -/
def admits (thrown : String → Bool) (k : CatchClause) : Bool :=
  match k.caught with
  | none | some "java/lang/Throwable" => true
  | some name => thrown (Name.instanceFlag name)

end CatchClause

/-! ### Steps -/

/-- Before which statement control stands, and the value of `gt`. -/
structure Control where
  pos : Nat
  gt : Nat

namespace Control

/-- Round the loop with `gt` set: to the label, or behind all statements if there is none. -/
def enter (code : List Stmt) (a : Nat) : Control := ⟨code.idxOf (.label a), a⟩

inductive Step (code : List Stmt) (clauses : List CatchClause) : Control → Control → Prop where
  | next {n gt : Nat} {s : Stmt} (h : code[n]? = some s) (hs : s.fallsOn = true) :
    Step code clauses ⟨n, gt⟩ ⟨n + 1, s.mark?.getD gt⟩
  | jump {n gt a : Nat} {s : Stmt} (h : code[n]? = some s) (ha : a ∈ s.targets) :
    Step code clauses ⟨n, gt⟩ (enter code a)
  /-- The statement throws, and of the clauses that span `gt` the first that admits the value
  catches it. -/
  | thrown {n gt : Nat} {s : Stmt} (h : code[n]? = some s) (hs : s.acts = true)
    (value : String → Bool) {k : CatchClause}
    (hk : clauses.find? (fun k => k.spans gt && k.admits value) = some k) :
    Step code clauses ⟨n, gt⟩ (enter code k.target)
  /-- Behind the last statement the loop starts again. -/
  | again {gt : Nat} : Step code clauses ⟨code.length, gt⟩ (enter code gt)

def Reachable (code : List Stmt) (clauses : List CatchClause) (c : Control) : Prop :=
  Relation.ReflTransGen (Step code clauses) (enter code 0) c

end Control

/-! ### Where control is -/

/-- The labels of a body: each stands in it with its mark below it, and there is no other way
round the loop. -/
structure Switched (labels : List Nat) (code : List Stmt) (clauses : List CatchClause) : Prop where
  start : 0 ∈ labels
  placed : ∀ a ∈ labels, .label a ∈ code
  marked : ∀ n a, code[n]? = some (.label a) → code[n + 1]? = some (.mark a)
  marks : ∀ a, .mark a ∈ code → a ∈ labels
  jumps : ∀ s ∈ code, ∀ a ∈ s.targets, a ∈ labels
  clauses : ∀ k ∈ clauses, k.target ∈ labels

def lastMark (code : List Stmt) : Option Nat := (code.filterMap Stmt.mark?).getLast?

lemma lastMark_take_succ {code : List Stmt} {n : Nat} {s : Stmt} (h : code[n]? = some s) :
    lastMark (code.take (n + 1)) = s.mark?.or (lastMark (code.take n)) := by
  rw [lastMark, lastMark, List.take_add_one, h, List.filterMap_append, List.getLast?_append]
  cases hs : s.mark? <;> simp [hs]

namespace Control

/-- The value of `gt` is that of the label or the mark where control stands, or of the last mark
that it has passed. -/
structure Tracked (labels : List Nat) (code : List Stmt) (c : Control) : Prop where
  known : c.gt ∈ labels
  stands : code[c.pos]? = some (.label c.gt) ∨ code[c.pos]? = some (.mark c.gt) ∨
    lastMark (code.take c.pos) = some c.gt

variable {labels : List Nat} {code : List Stmt} {clauses : List CatchClause} {c c' : Control}

lemma tracked_enter (h : Switched labels code clauses) {a : Nat} (ha : a ∈ labels) :
    Tracked labels code (enter code a) := by
  have hlt : code.idxOf (.label a) < code.length := List.idxOf_lt_length_iff.2 (h.placed a ha)
  refine ⟨ha, .inl ?_⟩
  rw [enter, List.getElem?_eq_getElem hlt, List.getElem_idxOf]

lemma Tracked.step (hc : Tracked labels code c) (h : Switched labels code clauses)
    (hstep : Step code clauses c c') : Tracked labels code c' := by
  cases hstep with
  | @next n gt s hn hs =>
    obtain ⟨hknown, hstands⟩ := hc
    dsimp only at hknown hstands
    cases hmark : s.mark? with
    | some a =>
      have hmem : s = .mark a := by
        cases s <;> cases hmark
        rfl
      subst hmem
      refine ⟨h.marks a (List.mem_of_getElem? hn), .inr (.inr ?_)⟩
      rw [lastMark_take_succ hn]
      rfl
    | none =>
      refine ⟨hknown, ?_⟩
      -- behind a label comes its mark; and without a mark here, the last one stays the last
      rcases hstands with hlabel | hmarked | hlast
      · exact .inr (.inl (h.marked n gt hlabel))
      · rw [hn] at hmarked
        cases hmarked
        cases hmark
      · refine .inr (.inr ?_)
        rw [lastMark_take_succ hn, hmark]
        exact hlast
  | jump hn ha => exact tracked_enter h (h.jumps _ (List.mem_of_getElem? hn) _ ha)
  | thrown hn hs value hk => exact tracked_enter h (h.clauses _ (List.mem_of_find?_eq_some hk))
  | again => exact tracked_enter h hc.known

lemma Reachable.tracked (hc : Reachable code clauses c) (h : Switched labels code clauses) :
    Tracked labels code c := by
  induction hc with
  | refl => exact tracked_enter h h.start
  | tail _ hstep ih => exact ih.step h hstep

/-- At a statement that acts, `gt` is the last mark above. -/
lemma Tracked.lastMark_eq (hc : Tracked labels code c) {s : Stmt} (hs : code[c.pos]? = some s)
    (hacts : s.acts = true) : lastMark (code.take c.pos) = some c.gt := by
  rcases hc.stands with h | h | h
  · rw [hs] at h
    cases h
    cases hacts
  · rw [hs] at h
    cases h
    cases hacts
  · exact h

end Control

end ClassScript
