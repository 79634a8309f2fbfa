import ClassScript.Proofs.Tables
import ClassScript.References
import Mathlib.Data.List.Perm.Subperm
import Mathlib.Data.List.Nodup
import Mathlib.Logic.Relation
import Mathlib.Tactic.Tauto

/-!
The order of static initializers.

Writing out the initializers is a walk, depth first, along the parents of classes. Each class
that is processed is met once and comes out after its parents; only a parent that is itself
below the class, along a cycle, can come later. This holds for any parents at all.
-/

namespace ClassScript.References

open Relation (ReflTransGen TransGen)

/-- The class is defined and its initializer not yet written. -/
def Processed (states : Table String ReferenceState) (name : String) : Prop :=
  ∃ call, states.get? name = some (.processed call)

def pendingCall (states : Table String ReferenceState) (name : String) : Option String :=
  match states.get? name with
  | some (.processed call) => call
  | _ => none

section

variable (parents : String → List String) (states : Table String ReferenceState)

def Up (c p : String) : Prop := p ∈ parents c ∧ Processed states p

/-- The walk has written out the classes of `order`, one after another. -/
structure Flushed (f : Flush) (order : List String) : Prop where
  nodup : order.Nodup
  table : ∀ name, f.states.get? name = if name ∈ order then some .emitted else states.get? name
  calls : f.calls = order.filterMap (pendingCall states)
  met : ∀ name ∈ order, name ∈ f.visited
  met_nodup : f.visited.Nodup
  processed : ∀ name ∈ f.visited, Processed states name
  above : ∀ before c after, order = before ++ c :: after → ∀ p, Up parents states c p →
    p ∈ before ∨ ReflTransGen (Up parents states) p c

end

variable {parents : String → List String} {states : Table String ReferenceState}
  {f : Flush} {order : List String} {name : String}

/-- No more classes are met than there are. -/
lemma Flushed.length_le (h : Flushed parents states f order) : f.visited.length ≤ states.size := by
  have hkeys : f.visited ⊆ states.entries.map Prod.fst := by
    intro name hname
    obtain ⟨call, hcall⟩ := h.processed name hname
    exact Table.mem_keys hcall
  simpa [Table.size] using (List.subperm_of_subset h.met_nodup hkeys).length_le

/-- What a stretch of the walk does: it writes out the classes of `new`, each met for the
first time, and leaves open what was open. -/
structure Extends (parents : String → List String) (states : Table String ReferenceState)
    (f f' : Flush) (order new : List String) : Prop where
  flushed : Flushed parents states f' (order ++ new)
  met : ∀ name, name ∈ f'.visited ↔ name ∈ f.visited ∨ name ∈ new
  fresh : ∀ name ∈ new, name ∉ f.visited

lemma Extends.refl (h : Flushed parents states f order) : Extends parents states f f order [] :=
  ⟨by rwa [List.append_nil], by simp, by simp⟩

lemma Extends.trans {f' f'' : Flush} {new new' : List String}
    (h : Extends parents states f f' order new)
    (h' : Extends parents states f' f'' (order ++ new) new') :
    Extends parents states f f'' order (new ++ new') where
  flushed := by
    rw [← List.append_assoc]
    exact h'.flushed
  met name := by rw [h'.met, h.met, List.mem_append, or_assoc]
  fresh name hname hmet := by
    rcases List.mem_append.mp hname with hnew | hnew
    · exact h.fresh name hnew hmet
    · exact h'.fresh name hnew ((h.met name).mpr (.inl hmet))

def Open (f : Flush) (order : List String) (name : String) : Prop := name ∈ f.visited ∧ name ∉ order

lemma Extends.open_of {f' : Flush} {new : List String} (h : Extends parents states f f' order new)
    (ho : Open f' (order ++ new) name) : Open f order name := by
  have hnew : name ∉ new := fun hn => ho.2 (List.mem_append_right _ hn)
  exact ⟨((h.met name).mp ho.1).resolve_right hnew, fun hn => ho.2 (List.mem_append_left _ hn)⟩

/-- The walk enters a class. -/
lemma Flushed.enter (h : Flushed parents states f order) (hname : Processed states name)
    (hfresh : name ∉ f.visited) :
    Flushed parents states { f with visited := name :: f.visited } order where
  nodup := h.nodup
  table := h.table
  calls := h.calls
  met n hn := List.mem_cons_of_mem _ (h.met n hn)
  met_nodup := List.nodup_cons.mpr ⟨hfresh, h.met_nodup⟩
  processed n hn := by
    rcases List.mem_cons.mp hn with rfl | hn
    · exact hname
    · exact h.processed n hn
  above := h.above

/-- The walk leaves a class whose parents it has met. -/
lemma Flushed.leave {call : Option String} (h : Flushed parents states f order)
    (hcall : states.get? name = some (.processed call)) (hmet : name ∈ f.visited)
    (hnew : name ∉ order)
    (hparents : ∀ p, Up parents states name p →
      p ∈ order ∨ ReflTransGen (Up parents states) p name) :
    Flushed parents states
      { f with states := f.states.insert name .emitted, calls := f.calls ++ call.toList }
      (order ++ [name]) where
  nodup := by
    rw [List.nodup_append_comm]
    exact List.nodup_cons.mpr ⟨hnew, h.nodup⟩
  table n := by
    by_cases hn : n = name
    · subst hn
      rw [Table.get?_insert_self, if_pos (by simp)]
    · rw [Table.get?_insert_of_ne _ _ hn, h.table]
      simp [hn]
  calls := by
    have hpending : pendingCall states name = call := by rw [pendingCall, hcall]
    rw [h.calls, List.filterMap_append]
    cases call <;> simp [hpending]
  met n hn := by
    rcases List.mem_append.mp hn with hn | hn
    · exact h.met n hn
    · rwa [List.mem_singleton.mp hn]
  met_nodup := h.met_nodup
  processed := h.processed
  above before c after heq p hp := by
    -- the last class is the new one; before it stands what stood there already
    rcases List.eq_nil_or_concat after with rfl | ⟨after', last, rfl⟩
    · obtain ⟨rfl, hc⟩ := List.append_inj heq (by simpa using congrArg List.length heq)
      obtain rfl := (List.cons.inj hc).1
      exact hparents p hp
    · have hsnoc : order ++ [name] = (before ++ c :: after') ++ [last] := by simpa using heq
      exact h.above before c after' (List.append_inj_left' hsnoc rfl) p hp

/-- A walk that starts at `name`: every class on the way to it is below it, and so many
more levels are left that no chain of parents is cut off. -/
structure Ready (parents : String → List String) (states : Table String ReferenceState)
    (fuel : Nat) (f : Flush) (order : List String) (name : String) : Prop where
  flushed : Flushed parents states f order
  levels : states.size < fuel + f.visited.length
  below : ∀ x, Open f order x → ReflTransGen (Up parents states) x name

/-- What the walk from `name` has done when it comes back. -/
def Done (parents : String → List String) (states : Table String ReferenceState) (f f' : Flush)
    (order names : List String) : Prop :=
  ∃ new, Extends parents states f f' order new ∧
    ∀ name ∈ names, Processed states name → name ∈ f'.visited

lemma Ready.extends {fuel : Nat} {f' : Flush} {new : List String}
    (h : Ready parents states fuel f order name) (h' : Extends parents states f f' order new) :
    Ready parents states fuel f' (order ++ new) name where
  flushed := h'.flushed
  levels := by
    have hsub : f.visited ⊆ f'.visited := fun x hx => (h'.met x).mpr (.inl hx)
    have hle := (List.subperm_of_subset h.flushed.met_nodup hsub).length_le
    exact Nat.lt_of_lt_of_le h.levels (Nat.add_le_add_left hle fuel)
  below x hx := h.below x (h'.open_of hx)

/-- The walk enters the class that it starts at. -/
lemma Ready.enter {fuel : Nat} (h : Ready parents states (fuel + 1) f order name)
    (hname : Processed states name) (hfresh : name ∉ f.visited) :
    Ready parents states fuel { f with visited := name :: f.visited } order name where
  flushed := h.flushed.enter hname hfresh
  levels := by
    have := h.levels
    simp only [List.length_cons]
    omega
  below x hx := by
    rcases List.mem_cons.mp hx.1 with rfl | hmem
    · exact .refl
    · exact h.below x ⟨hmem, hx.2⟩

/-- The parents of a class, one after another. -/
lemma foldl_done {fuel : Nat}
    (hone : ∀ {f order p}, (Processed states p → Ready parents states fuel f order p) →
      Flushed parents states f order →
      Done parents states f (flushOne parents fuel f p) order [p])
    {ps : List String} (hps : ∀ p ∈ ps, p ∈ parents name)
    (h : Ready parents states fuel f order name) :
    Done parents states f (ps.foldl (flushOne parents fuel) f) order ps := by
  induction ps generalizing f order with
  | nil => exact ⟨[], .refl h.flushed, by simp⟩
  | cons p ps ih =>
    have hup : Processed states p → Up parents states name p := fun hp =>
      ⟨hps p List.mem_cons_self, hp⟩
    obtain ⟨new, hext, hp⟩ := hone (p := p) (fun hp => ⟨h.flushed, h.levels, fun x hx =>
      (h.below x hx).tail (hup hp)⟩) h.flushed
    obtain ⟨new', hext', hrest⟩ :=
      ih (fun q hq => hps q (List.mem_cons_of_mem _ hq)) (h.extends hext)
    refine ⟨new ++ new', hext.trans hext', ?_⟩
    intro q hq hprocessed
    rcases List.mem_cons.mp hq with rfl | hq
    · exact (hext'.met q).mpr (.inl (hp q List.mem_cons_self hprocessed))
    · exact hrest q hq hprocessed

/-- A class that is not written out now has been met before, or is not processed. -/
lemma Flushed.met_of_not_processed (h : Flushed parents states f order)
    (hname : ¬ Processed f.states name) (hp : Processed states name) : name ∈ f.visited := by
  by_cases hmem : name ∈ order
  · exact h.met name hmem
  · obtain ⟨call, hcall⟩ := hp
    exact absurd ⟨call, by rw [h.table, if_neg hmem, hcall]⟩ hname

/-- **One class and all above it.** -/
lemma flushOne_done (fuel : Nat) (name : String)
    (hready : Processed states name → Ready parents states fuel f order name)
    (h : Flushed parents states f order) :
    Done parents states f (flushOne parents fuel f name) order [name] := by
  induction fuel generalizing f order name with
  | zero =>
    -- with no level left, more classes would have been met than there are
    have hnot : ¬ Processed states name := fun hp => by
      have hlt := (hready hp).levels
      have hle := h.length_le
      omega
    exact ⟨[], .refl h, fun n hn hp => absurd (List.mem_singleton.mp hn ▸ hp) hnot⟩
  | succ fuel ih =>
    rw [flushOne]
    split
    next call hstate =>
      have hnew : name ∉ order := fun hmem => by
        rw [h.table, if_pos hmem] at hstate
        cases hstate
      have hcall : states.get? name = some (.processed call) := by
        rwa [h.table, if_neg hnew] at hstate
      split_ifs with hvisited
      · have hmem : name ∈ f.visited := List.contains_iff_mem.mp hvisited
        exact ⟨[], .refl h, fun n hn _ => List.mem_singleton.mp hn ▸ hmem⟩
      · have hfresh : name ∉ f.visited := fun hmem => hvisited (List.contains_iff_mem.mpr hmem)
        have hin := (hready ⟨call, hcall⟩).enter ⟨call, hcall⟩ hfresh
        obtain ⟨new, hext, hparents⟩ := foldl_done (fun hr hf => ih _ hr hf) (fun p hp => hp) hin
        have hmet := (hext.met name).mpr (.inl List.mem_cons_self)
        have hnew' : name ∉ order ++ new := fun hmem => by
          rcases List.mem_append.mp hmem with hmem | hmem
          · exact hnew hmem
          · exact hext.fresh name hmem List.mem_cons_self
        have hleave := hext.flushed.leave hcall hmet hnew' fun p hp => by
          by_cases hpo : p ∈ order ++ new
          · exact .inl hpo
          · exact .inr (hin.below p (hext.open_of ⟨hparents p hp.1 hp.2, hpo⟩))
        refine ⟨new ++ [name], ⟨by rwa [← List.append_assoc], fun x => ?_, fun x hx hxm => ?_⟩, ?_⟩
        · simp only [hext.met, List.mem_cons, List.mem_append, List.not_mem_nil, or_false]
          tauto
        · rcases List.mem_append.mp hx with hx | hx
          · exact hext.fresh x hx (List.mem_cons_of_mem _ hxm)
          · exact hfresh (List.mem_singleton.mp hx ▸ hxm)
        · intro n hn _
          exact List.mem_singleton.mp hn ▸ hmet
    next hother =>
      refine ⟨[], .refl h, fun n hn hp => ?_⟩
      obtain rfl := List.mem_singleton.mp hn
      exact h.met_of_not_processed (fun ⟨call, hcall⟩ => hother call hcall) hp

/-- The walk from one class after another, none of them open. -/
lemma foldl_flushed (names : List String) (h : Flushed parents states f order)
    (hopen : ∀ x, ¬ Open f order x) :
    ∃ order', Flushed parents states
        (names.foldl (flushOne parents (states.size + 1)) f) order' ∧
      (∀ x ∈ order, x ∈ order') ∧ ∀ name ∈ names, Processed states name → name ∈ order' := by
  induction names generalizing f order with
  | nil => exact ⟨order, h, fun _ hx => hx, by simp⟩
  | cons name names ih =>
    obtain ⟨new, hext, hname⟩ := flushOne_done (states.size + 1) name
      (fun _ => ⟨h, by omega, fun x hx => absurd hx (hopen x)⟩) h
    have hopen' : ∀ x, ¬ Open (flushOne parents (states.size + 1) f name) (order ++ new) x :=
      fun x hx => hopen x (hext.open_of hx)
    obtain ⟨order', hflushed, hkeep, hnames⟩ := ih hext.flushed hopen'
    refine ⟨order', hflushed, fun x hx => hkeep x (List.mem_append_left _ hx), ?_⟩
    intro n hn hp
    rcases List.mem_cons.mp hn with rfl | hn
    · refine hkeep n (by_contra fun hno => hopen' n ⟨hname n List.mem_cons_self hp, hno⟩)
    · exact hnames n hn hp

def Precedes (order : List String) (p c : String) : Prop :=
  ∃ before after, order = before ++ c :: after ∧ p ∈ before

lemma Precedes.filter {order : List String} {p c : String} (h : Precedes order p c)
    {q : String → Bool} (hp : q p = true) (hc : q c = true) : Precedes (order.filter q) p c := by
  obtain ⟨before, after, rfl, hmem⟩ := h
  refine ⟨before.filter q, after.filter q, ?_, List.mem_filter.mpr ⟨hmem, hp⟩⟩
  rw [List.filter_append, List.filter_cons_of_pos hc]

lemma Flushed.precedes_or (h : Flushed parents states f order) :
    ∀ c ∈ order, ∀ p, Up parents states c p →
      Precedes order p c ∨ ReflTransGen (Up parents states) p c := by
  intro c hc p hp
  obtain ⟨before, after, heq⟩ := List.append_of_mem hc
  exact (h.above before c after heq p hp).imp (fun hb => ⟨before, after, heq, hb⟩) id

/-- Before the walk. -/
lemma Flushed.start (parents : String → List String) (states : Table String ReferenceState) :
    Flushed parents states { states } [] :=
  ⟨List.nodup_nil, by simp, rfl, by simp, List.nodup_nil, by simp, by simp⟩

/-- The walk of a flush, at its end: it has written out the classes that are processed. -/
lemma flush_flushed (r : References) (parents : String → List String)
    (hnames : ∀ name, Processed r.states name → name ∈ r.names) :
    ∃ order : List String, Flushed parents r.states
        (r.names.reverse.foldl (flushOne parents (r.states.size + 1)) { states := r.states })
          order ∧
      ∀ name, name ∈ order ↔ Processed r.states name := by
  obtain ⟨order, h, -, hall⟩ :=
    foldl_flushed r.names.reverse (.start parents r.states) fun x hx => by cases hx.1
  refine ⟨order, h, fun name => ⟨fun hn => h.processed name (h.met name hn), fun hp => ?_⟩⟩
  exact hall name (List.mem_reverse.mpr (hnames name hp)) hp

/-- **The initializers that are written out.** Each class that waits for its initializer has
its turn once, and its call comes at that turn, after the turns of its parents; only a parent
that is itself below the class can come later. -/
lemma flush_order (r : References) (parents : String → List String)
    (hnames : ∀ name, Processed r.states name → name ∈ r.names) :
    ∃ order : List String, order.Nodup ∧ (∀ name, name ∈ order ↔ Processed r.states name) ∧
      (r.flush parents).1 = order.filterMap (pendingCall r.states) ∧
      ∀ c ∈ order, ∀ p, Up parents r.states c p →
        Precedes order p c ∨ ReflTransGen (Up parents r.states) p c := by
  obtain ⟨order, h, hall⟩ := flush_flushed r parents hnames
  exact ⟨order, h.nodup, hall, h.calls, h.precedes_or⟩

/-- Where no class is above itself, all that is above a class comes before it. -/
lemma precedes_of_up {order : List String} (hnodup : order.Nodup)
    (habove : ∀ c ∈ order, ∀ p, Up parents states c p →
      Precedes order p c ∨ ReflTransGen (Up parents states) p c)
    (hacyclic : ∀ c, ¬ TransGen (Up parents states) c c) {c p : String} (hc : c ∈ order)
    (h : TransGen (Up parents states) c p) : Precedes order p c := by
  have hone : ∀ c ∈ order, ∀ p, Up parents states c p → Precedes order p c := fun c hc p hp =>
    (habove c hc p hp).resolve_right fun hcycle => hacyclic c (.head' hp hcycle)
  induction h with
  | single hp => exact hone c hc _ hp
  | @tail q p hq hp ih =>
    obtain ⟨before, after, heq, hmem⟩ := ih
    obtain ⟨before₁, before₂, rfl⟩ := List.append_of_mem hmem
    obtain ⟨before', after', heq', hmem'⟩ := hone q (by rw [heq]; simp) p hp
    -- the class between has one place in the order only
    have hplace : before' = before₁ := by
      have hsplit : before' ++ q :: after' = before₁ ++ q :: (before₂ ++ c :: after) := by
        rw [← heq', heq]
        simp
      rw [heq'] at hnodup
      have hleft : q ∉ before' := fun hm => (List.nodup_append.mp hnodup).2.2 q hm q (by simp) rfl
      have hright : q ∉ after' := (List.nodup_cons.mp (List.nodup_append.mp hnodup).2.1).1
      exact ((List.append_cons_inj_of_notMem hleft hright).mp hsplit).1
    exact ⟨before₁ ++ q :: before₂, after, heq, by rw [← hplace]; simp [hmem']⟩

end ClassScript.References
