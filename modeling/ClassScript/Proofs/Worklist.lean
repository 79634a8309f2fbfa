import ClassScript.References
import ClassScript.Proofs.Tables
import Mathlib.Data.List.Nodup
import Mathlib.Tactic.SplitIfs

/-!
The list of classes to take up loses none and repeats none.

Classes are added, taken up and marked in any order. After all such steps the names stand in the
order of their first addition, and the names that have been passed are those that were taken up
and those that had a mark when their turn came. So nothing is left out when no class waits.
-/

namespace ClassScript.References

/-! ### Histories -/

inductive Step where
  | add (name : String)
  | next
  | processed (name : String) (call : Option String)
  | skipped (name : String)

namespace Step

def added? : Step → Option String
  | add name => some name
  | _ => none

def marked? : Step → Option String
  | processed name _ | skipped name => some name
  | _ => none

def taken? (r : References) : Step → Option String
  | next => r.next.1
  | _ => none

end Step

def after (r : References) : Step → References
  | .add name => (r.enter name).2
  | .next => r.next.2
  | .processed name call => r.mark name (.processed call)
  | .skipped name => r.mark name .skipped

def run (steps : List Step) : References := steps.foldl after {}

def added (steps : List Step) : List String := steps.filterMap Step.added?

def takenFrom (r : References) : List Step → List String
  | [] => []
  | s :: steps => (s.taken? r).toList ++ takenFrom (r.after s) steps

def taken (steps : List Step) : List String := takenFrom {} steps

def Marked (steps : List Step) (name : String) : Prop := ∃ s ∈ steps, s.marked? = some name

/-- The turn of a class comes with a call of `next` after these steps: the call goes by it. -/
def Turn (earlier : List Step) (name : String) : Prop :=
  name ∈ ((run earlier).names.take (run earlier).next.2.passed).drop (run earlier).passed

/-- Steps that mark only names that were added before. -/
inductive History : List Step → Prop where
  | nil : History []
  | add {steps : List Step} (h : History steps) (name : String) : History (steps ++ [.add name])
  | next {steps : List Step} (h : History steps) : History (steps ++ [.next])
  | processed {steps : List Step} {name : String} (h : History steps) (hname : name ∈ added steps)
      (call : Option String) : History (steps ++ [.processed name call])
  | skipped {steps : List Step} {name : String} (h : History steps) (hname : name ∈ added steps) :
      History (steps ++ [.skipped name])

variable {r : References} {steps : List Step} {s : Step} {name : String} {gone : List String}

lemma run_concat (steps : List Step) (s : Step) : run (steps ++ [s]) = (run steps).after s := by
  rw [run, List.foldl_concat]
  rfl

lemma added_concat (steps : List Step) (s : Step) :
    added (steps ++ [s]) = added steps ++ s.added?.toList := by
  rw [added, List.filterMap_append]
  cases h : s.added? <;> simp [added, h]

lemma taken_concat (steps : List Step) (s : Step) :
    taken (steps ++ [s]) = taken steps ++ (s.taken? (run steps)).toList := by
  have hfrom (r : References) :
      takenFrom r (steps ++ [s]) = takenFrom r steps ++
      (s.taken? (steps.foldl after r)).toList := by
    induction steps generalizing r with
    | nil => simp [takenFrom]
    | cons t steps ih =>
      rw [List.cons_append, takenFrom, takenFrom, ih, List.append_assoc, List.foldl_cons]
  exact hfrom {}

lemma Marked.concat (h : Marked steps name) (s : Step) : Marked (steps ++ [s]) name := by
  obtain ⟨t, ht, hname⟩ := h
  exact ⟨t, List.mem_append_left _ ht, hname⟩

/-! ### The names that have been passed -/

/-- The names passed so far: those taken up among them, in this order, and others that had a mark
when their turn came. -/
structure Turned (steps : List Step) (gone : List String) : Prop where
  taken : (taken steps).Sublist gone
  turns : ∀ name ∈ gone, name ∈ References.taken steps ∨
    ∃ earlier, earlier ++ [.next] <+: steps ∧ Turn earlier name ∧ Marked earlier name

lemma Turned.concat (h : Turned steps gone) (hs : s.taken? (run steps) = none) :
    Turned (steps ++ [s]) gone := by
  have htaken : References.taken (steps ++ [s]) = References.taken steps := by
    rw [taken_concat, hs, Option.toList_none, List.append_nil]
  refine ⟨by rw [htaken]; exact h.taken, fun name hname => ?_⟩
  rw [htaken]
  refine (h.turns name hname).imp_right ?_
  rintro ⟨earlier, hprefix, hturn⟩
  exact ⟨earlier, hprefix.trans (List.prefix_append _ _), hturn⟩

/-- The search goes by names that do not wait, up to one that does or to the end. -/
lemma firstWaiting_spec (states : Table String ReferenceState) (n : Nat) (names : List String) :
    ∃ behind rest, names = behind ++ (firstWaiting states n names).1.toList ++ rest ∧
      (∀ name ∈ behind, states.get? name ≠ some .referenced) ∧
      (firstWaiting states n names).2 =
        n + (behind ++ (firstWaiting states n names).1.toList).length ∧
      ((firstWaiting states n names).1 = none → rest = []) := by
  induction names generalizing n with
  | nil => exact ⟨[], [], rfl, by simp, rfl, fun _ => rfl⟩
  | cons name names ih =>
    rw [firstWaiting]
    split_ifs with hwaits
    · exact ⟨[], names, rfl, by simp, rfl, by rintro ⟨⟩⟩
    · obtain ⟨behind, rest, hnames, hbehind, hpassed, hend⟩ := ih (n + 1)
      refine ⟨name :: behind, rest, ?_, List.forall_mem_cons.mpr ⟨hwaits, hbehind⟩, ?_, hend⟩
      · rw [List.cons_append, List.cons_append, ← hnames]
      · rw [hpassed, List.cons_append, List.length_cons]
        omega

/-! ### What every history keeps -/

structure Kept (steps : List Step) (r : References) : Prop where
  names : r.names = (added steps).eraseDups
  nodup : r.names.Nodup
  keys : ∀ name, r.states.contains name = true ↔ name ∈ r.names
  marked : ∀ name ∈ r.names, r.states.get? name ≠ some .referenced → Marked steps name
  passed : r.passed ≤ r.names.length
  turned : Turned steps (r.names.take r.passed)

lemma Kept.mem_names (h : Kept steps r) : name ∈ r.names ↔ name ∈ added steps := by
  rw [h.names, List.mem_eraseDups]

lemma Kept.start : Kept [] (run []) where
  names := rfl
  nodup := List.nodup_nil
  keys name := by simp [run, Table.contains, Table.get?]
  marked name hname := by cases hname
  passed := Nat.le_refl 0
  turned := ⟨.slnil, fun name hname => by cases hname⟩

lemma Kept.add (h : Kept steps (run steps)) (name : String) :
    Kept (steps ++ [.add name]) (run (steps ++ [.add name])) := by
  have hadded : (added (steps ++ [.add name])).eraseDups =
      (added steps).eraseDups ++ ([name].removeAll (added steps)).eraseDups := by
    rw [added_concat]
    exact List.eraseDups_append
  have hturned := h.turned.concat (s := .add name) rfl
  rw [run_concat, after, enter, References.add]
  -- a name that was added before has a state already
  by_cases hknown : name ∈ (run steps).names
  · have hempty : [name].removeAll (added steps) = [] := by
      simp [List.removeAll, h.mem_names.mp hknown]
    rw [if_pos ((h.keys name).mpr hknown)]
    refine ⟨?_, h.nodup, h.keys, fun n hn hstate => (h.marked n hn hstate).concat _,
      h.passed, hturned⟩
    rw [hadded, hempty, h.names]
    exact (List.append_nil _).symm
  · have hfresh : [name].removeAll (added steps) = [name] := by
      simpa [List.removeAll] using fun hmem => hknown (h.mem_names.mpr hmem)
    have hne {n : String} (hn : n ∈ (run steps).names) : n ≠ name := fun heq => hknown (heq ▸ hn)
    rw [if_neg fun hcontains => hknown ((h.keys name).mp hcontains)]
    refine ⟨?_, ?_, fun n => ?_, fun n hn hstate => ?_, ?_, ?_⟩
    · rw [hadded, hfresh, h.names]
      rfl
    · exact List.nodup_append_comm.mp (List.nodup_cons.mpr ⟨hknown, h.nodup⟩)
    · rw [Table.contains_insert_iff, h.keys, List.mem_append, List.mem_singleton, or_comm]
    · rcases List.mem_append.mp hn with hold | hnew
      · rw [Table.get?_insert_of_ne _ _ (hne hold)] at hstate
        exact (h.marked n hold hstate).concat _
      · rw [List.mem_singleton.mp hnew, Table.get?_insert_self] at hstate
        exact absurd rfl hstate
    · rw [List.length_append]
      exact Nat.le_add_right_of_le h.passed
    · rw [List.take_append_of_le_length h.passed]
      exact hturned

/-- A mark changes the state of a class, which has the mark from then on. -/
lemma Kept.mark (h : Kept steps (run steps)) (hname : name ∈ added steps) {state : ReferenceState}
    (hs : s.marked? = some name) (hrun : run (steps ++ [s]) = (run steps).mark name state) :
    Kept (steps ++ [s]) (run (steps ++ [s])) := by
  obtain ⟨hadds, htakes⟩ : s.added? = none ∧ s.taken? (run steps) = none := by
    cases s with
    | processed | skipped => exact ⟨rfl, rfl⟩
    | add | next => cases hs
  have hnames : added (steps ++ [s]) = added steps := by
    rw [added_concat, hadds, Option.toList_none, List.append_nil]
  rw [hrun, References.mark]
  refine ⟨by rw [hnames, h.names], h.nodup, fun n => ?_, fun n hn hstate =>
    ?_, h.passed, h.turned.concat htakes⟩
  · rw [Table.contains_insert_iff, h.keys]
    exact or_iff_right_of_imp fun heq => heq ▸ h.mem_names.mpr hname
  · by_cases heq : n = name
    · exact ⟨s, by simp, by rw [hs, heq]⟩
    · rw [Table.get?_insert_of_ne _ _ heq] at hstate
      exact (h.marked n hn hstate).concat _

/-- The names that a call of `next` goes by have marks, but for the last if it is the answer. -/
lemma Kept.next_spec (h : Kept steps (run steps)) : ∃ behind rest,
    (run steps).names = (run steps).names.take (run steps).passed ++
    (behind ++ (run steps).next.1.toList ++ rest) ∧
    (∀ name ∈ behind, Marked steps name) ∧
    (run steps).next.2.passed = (run steps).passed + (behind ++ (run steps).next.1.toList).length ∧
    ((run steps).next.1 = none → rest = []) := by
  obtain ⟨behind, rest, hdrop, hbehind, hpassed, hend⟩ :=
    firstWaiting_spec (run steps).states (run steps).passed
      ((run steps).names.drop (run steps).passed)
  have hsplit : (run steps).names =
      (run steps).names.take (run steps).passed ++ (behind ++ (run steps).next.1.toList ++ rest) :=
    (List.take_append_drop _ _).symm.trans (congrArg _ hdrop)
  refine ⟨behind, rest, hsplit, fun name hname => ?_, hpassed, hend⟩
  refine h.marked name ?_ (hbehind name hname)
  rw [hsplit]
  simp [hname]

lemma Kept.length_gone (h : Kept steps (run steps)) :
    ((run steps).names.take (run steps).passed).length = (run steps).passed := by
  rw [List.length_take, Nat.min_eq_left h.passed]

/-- Where no class waits, all have been passed. -/
lemma Kept.passed_of_none (h : Kept steps (run steps)) (hnone : (run steps).next.1 = none) :
    (run steps).next.2.passed = (run steps).names.length := by
  obtain ⟨behind, rest, hnames, -, hpassed, hend⟩ := h.next_spec
  have hlength := congrArg List.length hnames
  rw [hend hnone, List.append_nil, List.length_append, h.length_gone] at hlength
  rw [hpassed, hlength]

lemma Kept.next (h : Kept steps (run steps)) :
    Kept (steps ++ [.next]) (run (steps ++ [.next])) := by
  obtain ⟨behind, rest, hnames, hbehind, hpassed, -⟩ := h.next_spec
  have hlength := h.length_gone
  have htake : (run steps).names.take (run steps).next.2.passed =
      (run steps).names.take (run steps).passed ++ (behind ++ (run steps).next.1.toList) := by
    rw [hpassed]
    generalize (run steps).names.take (run steps).passed = gone at hnames hlength ⊢
    rw [hnames, ← hlength, List.take_length_add_append, List.take_left]
  have htaken : References.taken (steps ++ [.next]) = References.taken steps ++
      (run steps).next.1.toList :=
    taken_concat steps .next
  have hadded : added (steps ++ [.next]) = added steps := by
    rw [added_concat]
    exact List.append_nil _
  rw [run_concat, after]
  refine ⟨by rw [hadded]; exact h.names, h.nodup, h.keys, fun n hn hstate =>
    (h.marked n hn hstate).concat _, ?_, ?_, ?_⟩
  · have hle := congrArg List.length hnames
    rw [List.length_append, List.length_append, hlength] at hle
    change (run steps).next.2.passed ≤ (run steps).names.length
    omega
  · change (References.taken (steps ++ [.next])).Sublist
      ((run steps).names.take (run steps).next.2.passed)
    rw [htaken, htake]
    exact h.turned.taken.append (List.sublist_append_right behind _)
  · intro name hname
    change name ∈ (run steps).names.take (run steps).next.2.passed at hname
    have hturn (hgone : name ∈ behind ++ (run steps).next.1.toList) : Turn steps name := by
      rw [Turn, htake, List.drop_left' hlength]
      exact hgone
    rw [htake, List.mem_append, List.mem_append] at hname
    rw [htaken, List.mem_append]
    -- passed before, passed now for its mark, or the answer
    rcases hname with hgone | hgone | hanswer
    · refine (h.turned.turns name hgone).imp .inl ?_
      rintro ⟨earlier, hprefix, hearlier⟩
      exact ⟨earlier, hprefix.trans (List.prefix_append _ _), hearlier⟩
    · exact .inr ⟨steps, List.prefix_refl _, hturn (List.mem_append_left _ hgone),
        hbehind name hgone⟩
    · exact .inl (.inr hanswer)

/-- Every history keeps the table in order. -/
lemma History.kept (h : History steps) : Kept steps (run steps) := by
  induction h with
  | nil => exact .start
  | add h name ih => exact ih.add name
  | next h ih => exact ih.next
  | processed h hname call ih => exact ih.mark hname rfl (run_concat _ _)
  | skipped h hname ih => exact ih.mark hname rfl (run_concat _ _)

/-- Names are only ever added at the end. -/
lemma names_prefix (r : References) (steps : List Step) :
    r.names <+: (steps.foldl after r).names := by
  induction steps generalizing r with
  | nil => exact List.prefix_refl _
  | cons s steps ih =>
    have hstep : r.names <+: (r.after s).names := by
      cases s with
      | add name =>
        rw [after, enter, References.add]
        split_ifs
        · exact List.prefix_refl _
        · exact List.prefix_append _ _
      | next | processed | skipped => exact List.prefix_refl _
    exact hstep.trans (ih _)

/-- **The list of classes to take up loses and repeats nothing**, whatever has been done to it. -/
theorem worklist_exact (h : History steps) :
    (run steps).names = (added steps).eraseDups ∧ (run steps).names.Nodup ∧
    (∀ more, (run steps).names <+: (run (steps ++ more)).names) ∧
    (∀ name, ((run steps).enter name).1 = true ↔ name ∉ added steps) ∧
    (taken steps).Sublist (run steps).names ∧ (taken steps).Nodup ∧
    ((run steps).next.1 = none → ∀ name ∈ added steps, name ∈ taken steps ∨
      ∃ earlier, earlier ++ [.next] <+: steps ++ [.next] ∧ Turn earlier name ∧
        Marked earlier name) := by
  have hkept := h.kept
  have hsublist := hkept.turned.taken.trans (List.take_sublist _ _)
  refine ⟨hkept.names, hkept.nodup, fun more => ?_, fun name =>
    ?_, hsublist, hkept.nodup.sublist hsublist, ?_⟩
  · rw [run, run, List.foldl_append]
    exact names_prefix _ more
  · rw [enter, ← hkept.mem_names, ← hkept.keys]
    simp
  · intro hnone name hname
    have hall : name ∈ (run (steps ++ [.next])).names.take (run (steps ++ [.next])).passed := by
      rw [run_concat, after, hkept.passed_of_none hnone]
      change name ∈ (run steps).names.take (run steps).names.length
      rw [List.take_length]
      exact hkept.mem_names.mpr hname
    have hturned := hkept.next.turned.turns name hall
    rwa [taken_concat, Step.taken?, hnone, Option.toList_none, List.append_nil] at hturned

def visits : List Step :=
  [.add "a/B", .add "a/A", .add "a/B", .next, .processed "a/B" none, .add "a/C",
    .skipped "a/A", .next, .next]

theorem worklist_exact_visits :
    History visits ∧ (run visits).names = ["a/B", "a/A", "a/C"] ∧ taken visits = ["a/B", "a/C"] ∧
      (run visits).next.1 = none ∧ (taken visits).Sublist (run visits).names ∧
      ∃ earlier, earlier ++ [.next] <+: visits ++ [.next] ∧ Turn earlier "a/A" ∧
        Marked earlier "a/A" := by
  have hstart : History (visits.take 4) := .next (.add (.add (.add .nil "a/B") "a/A") "a/B")
  have hmarked : History (visits.take 7) :=
    .skipped (.add (.processed hstart (by decide) none) "a/C") (by decide)
  have hvisits : History visits := .next (.next hmarked)
  obtain ⟨-, -, -, -, hsublist, -, hnone⟩ := worklist_exact hvisits
  refine ⟨hvisits, by decide, by decide, by decide, hsublist, ?_⟩
  exact (hnone (by decide) "a/A" (by decide)).resolve_left (by decide)

end ClassScript.References
