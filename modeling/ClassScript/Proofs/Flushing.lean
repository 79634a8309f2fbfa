import ClassScript.Proofs.InitializerOrder

/-!
Flushing static initializers, whatever the parents of classes are.

The walk along the parents comes to an end though it may meet unknown classes, and classes that
are above themselves. It writes the initializer of each class that is processed, once, and
leaves nothing to write. Where no class is above itself, all that is above a class comes first.
-/

namespace ClassScript.References

open Relation (TransGen)

/-! ### Tables that can arise -/

inductive Reached : References → Prop where
  | empty : Reached {}
  | add {r : References} (h : Reached r) (name : String) : Reached (r.add name)
  | next {r : References} (h : Reached r) : Reached r.next.2
  | processed {r : References} {name : String} (h : Reached r) (hname : name ∈ r.names)
      (call : Option String) : Reached (r.mark name (.processed call))
  | skipped {r : References} {name : String} (h : Reached r) (hname : name ∈ r.names) :
      Reached (r.mark name .skipped)

/-- A class that has a state keeps its place among the names when another state is set. -/
lemma mem_names_mark {r : References} {name : String} {s t : ReferenceState}
    (h : ∀ n s, r.state? n = some s → n ∈ r.names) (hname : name ∈ r.names) (n : String)
    (hn : (r.mark name t).state? n = some s) : n ∈ r.names := by
  by_cases heq : n = name
  · exact heq ▸ hname
  · rw [state?, mark, Table.get?_insert_of_ne _ _ heq] at hn
    exact h n s hn

/-- Only classes that were added have a state. -/
lemma Reached.mem_names {r : References} (h : r.Reached) (name : String) (s : ReferenceState)
    (hs : r.state? name = some s) : name ∈ r.names := by
  induction h generalizing name s with
  | empty => cases hs
  | @add r h new ih =>
    rw [References.add] at hs ⊢
    split_ifs at hs ⊢
    · exact ih name s hs
    · by_cases heq : name = new
      · simp [heq]
      · rw [state?, Table.get?_insert_of_ne _ _ heq] at hs
        exact List.mem_append_left _ (ih name s hs)
  | next h ih => exact ih name s hs
  | processed h hname call ih => exact mem_names_mark ih hname name hs
  | skipped h hname ih => exact mem_names_mark ih hname name hs

/-! ### The walk ends -/

/-- The walk from one class after another, with a rule for each thing that it can meet and no
bound on its depth. A derivation is a walk that has come to its end. -/
inductive Walks (parents : String → List String) : List String → Flush → Flush → Prop where
  | done (f : Flush) : Walks parents [] f f
  | pass {name : String} {names : List String} {f f' : Flush}
      (h : (∀ call, f.states.get? name ≠ some (.processed call)) ∨ name ∈ f.visited)
      (rest : Walks parents names f f') : Walks parents (name :: names) f f'
  | write {name : String} {names : List String} {f f₁ f₂ : Flush} {call : Option String}
      (hcall : f.states.get? name = some (.processed call)) (hnew : name ∉ f.visited)
      (above : Walks parents (parents name) { f with visited := name :: f.visited } f₁)
      (rest : Walks parents names { f₁ with
        states := f₁.states.insert name .emitted, calls := f₁.calls ++ call.toList } f₂) :
      Walks parents (name :: names) f f₂

variable {parents : String → List String} {states : Table String ReferenceState}
  {f f₁ f₂ : Flush} {order names : List String} {name : String}

lemma Walks.cons (h : Walks parents [name] f f₁) (h' : Walks parents names f₁ f₂) :
    Walks parents (name :: names) f f₂ := by
  cases h with
  | pass hname rest =>
    cases rest
    exact .pass hname h'
  | write hcall hnew above rest =>
    cases rest
    exact .write hcall hnew above h'

/-- If every class can be walked from in a state of the walk that `P` describes, and leads to
such a state again, so can one class after another. -/
lemma Walks.foldl {fuel : Nat} {P : Flush → Prop}
    (hone : ∀ name ∈ names, ∀ f, P f → Walks parents [name] f (flushOne parents fuel f name) ∧
      P (flushOne parents fuel f name)) (h : P f) :
    Walks parents names f (names.foldl (flushOne parents fuel) f) := by
  induction names generalizing f with
  | nil => exact .done f
  | cons name names ih =>
    obtain ⟨hwalk, hP⟩ := hone name List.mem_cons_self f h
    exact hwalk.cons (ih (fun n hn => hone n (List.mem_cons_of_mem _ hn)) hP)

/-- A class that is not processed at the start never is. -/
lemma Flushed.not_processed (h : Flushed parents states f order) (hname : ¬ Processed states name)
    (call : Option String) : f.states.get? name ≠ some (.processed call) := by
  rw [h.table]
  split_ifs
  · exact fun heq => by cases heq
  · exact fun heq => hname ⟨call, heq⟩

/-- With levels enough, the bound on the depth is never met. -/
lemma flushOne_walks (fuel : Nat) (name : String)
    (hready : Processed states name → Ready parents states fuel f order name)
    (h : Flushed parents states f order) :
    Walks parents [name] f (flushOne parents fuel f name) := by
  induction fuel generalizing f order name with
  | zero =>
    have hnot : ¬ Processed states name := fun hp => by
      have hlt := (hready hp).levels
      have hle := h.length_le
      omega
    exact .pass (.inl (h.not_processed hnot)) (.done f)
  | succ fuel ih =>
    rw [flushOne]
    split
    next call hstate =>
      split_ifs with hvisited
      · exact .pass (.inr (List.contains_iff_mem.mp hvisited)) (.done f)
      · have hfresh : name ∉ f.visited := fun hmem => hvisited (List.contains_iff_mem.mpr hmem)
        have hp : Processed states name := by_contra fun hno => h.not_processed hno call hstate
        refine .write hstate hfresh (.foldl (P := fun f => ∃ order,
          Ready parents states fuel f order name) ?_ ⟨order, (hready hp).enter hp hfresh⟩) (.done _)
        -- each parent in its turn, and ready again for the next
        rintro p hmem f' ⟨order', hr⟩
        have hrp : Processed states p → Ready parents states fuel f' order' p := fun hpp =>
          ⟨hr.flushed, hr.levels, fun x hx => (hr.below x hx).tail ⟨hmem, hpp⟩⟩
        obtain ⟨new, hext, -⟩ := flushOne_done fuel p hrp hr.flushed
        exact ⟨ih p hrp hr.flushed, order' ++ new, hr.extends hext⟩
    next hother => exact .pass (.inl hother) (.done f)

/-- A flush is a walk from all classes, the last discovered first. -/
lemma flush_walks (r : References) (parents : String → List String) :
    ∃ f, Walks parents r.names.reverse { states := r.states } f ∧
      r.flush parents = (f.calls, { r with states := f.states }) := by
  refine ⟨_, .foldl (P := fun f => ∃ order, Flushed parents r.states f order ∧
    ∀ x, ¬ Open f order x)
    ?_ ⟨[], .start parents r.states, fun x hx => by cases hx.1⟩, rfl⟩
  rintro name - f ⟨order, h, hopen⟩
  have hready : Processed r.states name → Ready parents r.states (r.states.size + 1) f order name :=
    fun _ => ⟨h, by omega, fun x hx => absurd hx (hopen x)⟩
  obtain ⟨new, hext, -⟩ := flushOne_done (r.states.size + 1) name hready h
  exact ⟨flushOne_walks _ name hready h, order ++ new, hext.flushed, fun x hx =>
    hopen x (hext.open_of hx)⟩

/-! ### What has been written -/

lemma pendingCall_eq_some {call : String} :
    pendingCall states name = some call ↔ states.get? name = some (.processed (some call)) := by
  unfold pendingCall
  split
  next c hc => rw [hc, Option.some.injEq, ReferenceState.processed.injEq]
  next hother =>
    constructor
    · rintro ⟨⟩
    · exact fun h => absurd h (hother _)

/-- The calls that a flush writes are those of the classes of `order`, one for each and in this
order, and these are the classes that have one. -/
structure WritesOnce (r : References) (parents : String → List String) (order : List String) :
    Prop where
  nodup : order.Nodup
  mem : ∀ name, name ∈ order ↔ ∃ call, r.state? name = some (.processed (some call))
  calls : List.Forall₂ (fun name call => r.state? name = some (.processed (some call))) order
    (r.flush parents).1

lemma forall₂_pendingCall (order : List String) :
    List.Forall₂ (fun name call => states.get? name = some (.processed (some call)))
      (order.filter fun n => (pendingCall states n).isSome)
        (order.filterMap (pendingCall states)) := by
  induction order with
  | nil => exact .nil
  | cons name order ih =>
    cases hcall : pendingCall states name with
    | none => rwa [List.filter_cons_of_neg (by simp [hcall]), List.filterMap_cons_none hcall]
    | some call =>
      rw [List.filter_cons_of_pos (by simp [hcall]), List.filterMap_cons_some hcall]
      exact .cons (pendingCall_eq_some.mp hcall) ih

/-- A table in which no class waits for its initializer has none to write. -/
lemma flush_eq_nil {r : References} (h : ∀ name, ¬ Processed r.states name)
    (parents : String → List String) : (r.flush parents).1 = [] := by
  obtain ⟨order, -, hmem, hcalls, -⟩ := flush_order r parents fun name hp => absurd hp (h name)
  have hnil : order = [] :=
    List.eq_nil_iff_forall_not_mem.mpr fun name hn => h name ((hmem name).mp hn)
  rw [hcalls, hnil]
  rfl

/-- **Flushing orders the initializers, for any parents.** The walk along the parents ends. The
initializer of each processed class is written once and nothing else is; the class then counts
as emitted, and no other class changes its state. A second flush writes nothing. If no
processed class is above itself along processed classes, then each initializer comes after
those of all classes above its own. -/
theorem initializers_flushed (r : References) (hr : r.Reached) (parents : String → List String) :
    (∃ f, Walks parents r.names.reverse { states := r.states } f ∧
      r.flush parents = (f.calls, { r with states := f.states })) ∧
    (∀ name call, r.state? name = some (.processed call) →
      (r.flush parents).2.state? name = some .emitted) ∧
    (∀ name, (∀ call, r.state? name ≠ some (.processed call)) →
      (r.flush parents).2.state? name = r.state? name) ∧
    (∀ parents', ((r.flush parents).2.flush parents').1 = []) ∧
    ∃ order, WritesOnce r parents order ∧
      ((∀ c, ¬ TransGen (Up parents r.states) c c) → ∀ c ∈ order, ∀ p ∈ order,
        TransGen (Up parents r.states) c p → Precedes order p c) := by
  have hnames : ∀ name, Processed r.states name → name ∈ r.names := fun name ⟨_, h⟩ =>
    hr.mem_names name _ h
  obtain ⟨order, hflushed, hmem⟩ := flush_flushed r parents hnames
  have hemitted : ∀ name, Processed r.states name →
      (r.flush parents).2.state? name = some .emitted := fun name hp =>
    (hflushed.table name).trans (if_pos ((hmem name).mpr hp))
  have hkept : ∀ name, ¬ Processed r.states name →
      (r.flush parents).2.state? name = r.state? name := fun name hp =>
    (hflushed.table name).trans (if_neg fun hn => hp ((hmem name).mp hn))
  -- the order of the calls is the order of the classes, without those that have no call
  refine ⟨flush_walks r parents, fun name call h => hemitted name ⟨call, h⟩,
    fun name h => hkept name fun ⟨call, hcall⟩ => h call hcall, fun parents' => ?_,
    order.filter fun n => (pendingCall r.states n).isSome, ⟨?_, ?_, ?_⟩, ?_⟩
  · refine flush_eq_nil (fun name => ?_) parents'
    rintro ⟨call, hcall⟩
    by_cases hp : Processed r.states name
    · cases (hemitted name hp).symm.trans hcall
    · exact hp ⟨call, (hkept name hp).symm.trans hcall⟩
  · exact hflushed.nodup.filter _
  · intro name
    rw [List.mem_filter, hmem, Option.isSome_iff_exists]
    constructor
    · rintro ⟨-, call, hcall⟩
      exact ⟨call, pendingCall_eq_some.mp hcall⟩
    · rintro ⟨call, hcall⟩
      exact ⟨⟨_, hcall⟩, call, pendingCall_eq_some.mpr hcall⟩
  · rw [show (r.flush parents).1 = order.filterMap (pendingCall r.states) from hflushed.calls]
    exact forall₂_pendingCall order
  · intro hacyclic c hc p hp hup
    rw [List.mem_filter] at hc hp
    exact (precedes_of_up hflushed.nodup hflushed.precedes_or hacyclic hc.1 hup).filter hp.2 hc.2

def relatives : References := ["Main", "Base", "Lazy", "Mid"].foldl add {}

/-- A class, one above it and one above that; the fourth is left to others to define. -/
def family : References :=
  relatives |>.mark "Main" (.processed (some "Main();")) |>.mark "Base"
    (.processed (some "Base();"))
    |>.mark "Lazy" .skipped |>.mark "Mid" (.processed (some "Mid();"))

/-- The parents of `family`. The way from `Main` to itself leads through the class that is
skipped. -/
def familyParents (name : String) : List String :=
  if name = "Main" then ["Lazy", "Mid"] else if name = "Mid" then ["Base", "Unknown"]
  else if name = "Lazy" then ["Main"] else []

lemma family_reached : family.Reached := by
  have hadded : relatives.Reached := .add (.add (.add (.add .empty "Main") "Base") "Lazy") "Mid"
  have hnames : relatives.names = ["Main", "Base", "Lazy", "Mid"] := by decide
  have hmem {name : String} (h : name ∈ ["Main", "Base", "Lazy", "Mid"]) : name ∈ relatives.names :=
    hnames ▸ h
  unfold family
  refine .processed (.skipped (.processed (.processed hadded (hmem ?_) _) (hmem ?_) _) (hmem ?_))
    (hmem ?_) _ <;> decide

def familyRank (name : String) : Nat :=
  if name = "Lazy" then 3 else if name = "Main" then 2 else if name = "Mid" then 1 else 0

lemma familyRank_lt {c p : String} (h : Up familyParents family.states c p) :
    familyRank p < familyRank c := by
  obtain ⟨hmem, call, hcall⟩ := h
  have hskipped : p ≠ "Lazy" := by
    rintro rfl
    cases hcall
  rw [familyParents] at hmem
  split_ifs at hmem with hmain hmid hlazy
  · obtain rfl : p = "Mid" := by simpa [hskipped] using hmem
    simp [familyRank, hmain]
  · have hp : p = "Base" ∨ p = "Unknown" := by simpa using hmem
    rcases hp with rfl | rfl <;> simp [familyRank, hmid]
  · obtain rfl : p = "Main" := by simpa using hmem
    simp [familyRank, hlazy]
  · cases hmem

lemma family_acyclic (c : String) : ¬ TransGen (Up familyParents family.states) c c := by
  have hpath {c p : String} (h : TransGen (Up familyParents family.states) c p) :
      familyRank p < familyRank c := by
    induction h with
    | single h => exact familyRank_lt h
    | tail _ h ih => exact Nat.lt_trans (familyRank_lt h) ih
  exact fun h => Nat.lt_irrefl _ (hpath h)

theorem initializers_flushed_family :
    family.Reached ∧ (family.flush familyParents).1 = ["Base();", "Mid();", "Main();"] ∧
    ((family.flush familyParents).2.flush familyParents).1 = [] ∧
    ∃ order, WritesOnce family familyParents order ∧ Precedes order "Base" "Main" := by
  obtain ⟨-, -, -, hsecond, order, honce, hbefore⟩ :=
    initializers_flushed family family_reached familyParents
  have hup : TransGen (Up familyParents family.states) "Main" "Base" :=
    .tail (b := "Mid") (.single ⟨by decide, some "Mid();", by decide⟩)
      ⟨by decide, some "Base();", by decide⟩
  exact ⟨family_reached, by decide, hsecond familyParents, order, honce,
    hbefore family_acyclic "Main" ((honce.mem _).mpr ⟨"Main();", by decide⟩)
      "Base" ((honce.mem _).mpr ⟨"Base();", by decide⟩) hup⟩

end ClassScript.References
