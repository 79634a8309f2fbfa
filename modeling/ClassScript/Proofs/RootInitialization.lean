import ClassScript.Proofs.Linking

/-!
When the static initializers of an extension run.

An extension defines its roots, and the walk that puts initializers in order goes along the parents
of these. It stops at a class of the host, whose own parents are not its concern: so a root is
initialized before those that descend from it by way of roots, while the order of two roots that are
related only through the host is left open.
-/

namespace ClassScript

open Relation (TransGen)

def Library.only (lib : Library) (names : List String) : Library :=
  { lib with load := fun name => if name ∈ names then lib.load name else .ok none }

/-- In it a way up leads from one of the classes to another, up to its last step. -/
lemma Library.parent_only {lib : Library} {names : List String} {child parent : String} :
    (lib.only names).Parent child parent ↔ child ∈ names ∧ lib.Parent child parent := by
  simp only [Parent, only]
  split <;> simp [*]

namespace Program

namespace Discovered

open References (Processed Up)

variable {r : Resources} {o : Options} {s : Progress} {done : List String}
  {name child parent : String}

/-- A way up through roots is one that the walk takes. -/
lemma transGen_up_of_roots (h : Discovered r o s done [])
    (hpath : TransGen ((Library.ofResources r).only o.roots).Parent child parent)
    (hparent : Processed s.references.states parent) :
    TransGen (Up s.parents s.references.states) child parent := by
  have hroot {name : String} (hname : name ∈ o.roots) : Processed s.references.states name := by
    obtain ⟨pieces, hitem⟩ := h.root_defined hname
    obtain ⟨c, -, hprocessed⟩ := h.processed_of_mem hitem
    exact hprocessed
  have hup {child parent : String}
      (hstep : ((Library.ofResources r).only o.roots).Parent child parent)
      (hparent : Processed s.references.states parent) :
      Up s.parents s.references.states child parent := by
    obtain ⟨hchild, hstep⟩ := Library.parent_only.mp hstep
    exact ⟨(h.mem_parents (hroot hchild) hstep).1, hparent⟩
  induction hpath using TransGen.head_induction_on with
  | single hstep => exact .single (hup hstep hparent)
  | @head child middle hstep hrest ih =>
    obtain ⟨next, hnext, -⟩ := TransGen.head'_iff.mp hrest
    exact .head (hup hstep (hroot (Library.parent_only.mp hnext).1)) ih

/-- The calls at the end of a program, in an order that respects the ways up that the walk takes. -/
lemma exists_order (h : Discovered r o s done [])
    (hdeclared : (Library.ofResources r).Declares (s.items.toList.filterMap Item.definedName?))
    (hacyclic : ∀ name, ¬ TransGen (Library.ofResources r).Parent name name) :
    ∃ order : List String, order.Nodup ∧
      (∀ name, name ∈ order ↔
        Processed s.references.states name ∧ (Library.ofResources r).HasInitializer name) ∧
      (s.references.flush s.parents).1 = order.map ClassDecl.initializer ∧
      ∀ a ∈ order, ∀ b ∈ order, TransGen (Up s.parents s.references.states) b a →
        References.Precedes order a b := by
  obtain ⟨order, hnodup, hmem, hflush, habove⟩ :=
    References.flush_order s.references s.parents h.mem_names
  have hpending := fun name (hname : name ∈ order) =>
    h.pendingCall_eq hdeclared ((hmem name).mp hname)
  have hup : ∀ name, ¬ TransGen (Up s.parents s.references.states) name name := fun name hcycle =>
    hacyclic name (TransGen.mono (fun _ _ => h.parent_of_up) name name hcycle)
  refine ⟨order.filter fun name => (References.pendingCall s.references.states name).isSome,
    hnodup.filter _, fun name => ?_, ?_, fun a ha b hb hpath => ?_⟩
  · rw [List.mem_filter, ← hmem]
    exact and_congr_right fun hname => (hpending name hname).2
  · rw [hflush]
    exact filterMap_eq_map_filter fun name hname => (hpending name hname).1
  · obtain ⟨-, hacall⟩ := List.mem_filter.mp ha
    obtain ⟨hb, hbcall⟩ := List.mem_filter.mp hb
    exact (References.precedes_of_up hnodup habove hup hb hpath).filter hacall hbcall

end Discovered

/-- **Roots are initialized after the roots that they descend from.** An extension of classes
without cycles among their ancestors defines its roots. Each that has an initializer has its call
once, after all definitions and after the calls of its ancestors as far as roots lead up to them. -/
theorem roots_initialized_in_order {r : Resources} {o : Options} {p : Program}
    (hbuild : build r o = .ok p) (hmode : o.mode = .extension)
    (hdeclared : (Library.ofResources r).Declares p.compiled)
    (hacyclic : ∀ name, ¬ TransGen (Library.ofResources r).Parent name name) :
    (∀ name, name ∈ p.compiled ↔ name ∈ o.roots) ∧
      ∃ order, p.Initializes ((Library.ofResources r).only o.roots)
        (Library.ofResources r).HasInitializer order := by
  obtain ⟨s, ⟨-, -, done, h⟩, hitems, -, hcalls⟩ := build_gives r o hbuild
  have hcompiled (name : String) : name ∈ p.compiled ↔
      ∃ pieces, Item.defined name pieces ∈ s.items.toList := by
    rw [mem_compiled, hitems]
  have hprocessed (name : String) : name ∈ p.compiled ↔
      References.Processed s.references.states name := by
    rw [hcompiled]
    constructor
    · rintro ⟨pieces, hitem⟩
      exact (h.processed_of_mem hitem).elim fun _ hc => hc.2
    · intro hname
      obtain ⟨pieces, -, hitem, -⟩ := h.exists_defines hname
      exact ⟨pieces, hitem⟩
  have hdeclared' :
      (Library.ofResources r).Declares (s.items.toList.filterMap Item.definedName?) := by
    rwa [compiled, hitems] at hdeclared
  obtain ⟨order, hnodup, hmem, hflush, habove⟩ := h.exists_order hdeclared' hacyclic
  refine ⟨fun name => ?_, order, hnodup, fun name => ?_, hcalls.trans hflush,
    fun a ha b hb hpath => ?_,
    p.render_eq⟩
  · rw [hcompiled]
    refine ⟨fun hitem => ?_, h.root_defined⟩
    obtain ⟨pieces, hitem⟩ := hitem
    exact h.defined_root hmode hitem
  · rw [hmem, hprocessed]
  · exact habove a ha b hb (h.transGen_up_of_roots hpath ((hmem a).mp ha).1)

theorem roots_initialized_in_order_diamond :
    ∃ p order, build diamond { roots := ["C", "B", "A"], fixed := [], mode := .extension } = .ok p ∧
      p.external = ["java/lang/Class", "I"] ∧
      p.initializers = [ClassDecl.initializer "A", ClassDecl.initializer "C"] ∧
      p.Initializes ((Library.ofResources diamond).only ["C", "B", "A"])
        (Library.ofResources diamond).HasInitializer order := by
  have hrun : (build diamond { roots := ["C", "B", "A"], fixed := [], mode := .extension }).map
      (fun p => (p.compiled, p.external, p.initializers)) =
      .ok (["C", "B", "A"], ["java/lang/Class", "I"],
        [ClassDecl.initializer "A", ClassDecl.initializer "C"]) := by decide +kernel
  obtain ⟨p, hbuild, hseen⟩ := exists_of_map_ok hrun
  obtain ⟨hcompiled, hseen⟩ := Prod.mk.inj hseen
  obtain ⟨hexternal, hcalls⟩ := Prod.mk.inj hseen
  have hdeclared : (Library.ofResources diamond).Declares p.compiled := by
    rw [hcompiled]
    exact declares_of_view (by decide +kernel)
  obtain ⟨-, order, horder⟩ := roots_initialized_in_order hbuild rfl hdeclared diamond_acyclic
  exact ⟨p, order, hbuild, hexternal, hcalls, horder⟩

/-! ### Roots that are related through the host -/

/-- Two roots, and between them a class of the host. -/
def bridged : Resources := ⟨[.stored [
  ("A.class", sampleFile "A" none none (some 0)),
  ("X.class", sampleFile "X" (some "A") none none),
  ("B.class", sampleFile "B" (some "X") none (some 0))]]⟩

/-- There is no cycle where the parents of all classes are in a list, and those of each of its
members further along. -/
lemma acyclic_of_ranked {r : Resources} (names : List String)
    (hparents : ∀ data ∈ r.contents,
      ∀ p ∈ ((ClassDecl.parse data).toOption.map ClassDecl.parents).getD [],
      p ∈ names)
    (hrank : ∀ name ∈ names, ∀ p ∈ ((Library.ofResources r).view ClassDecl.parents name).getD [],
      names.idxOf name < names.idxOf p) (name : String) :
    ¬ TransGen (Library.ofResources r).Parent name name := by
  have hmem {child parent : String} (h : (Library.ofResources r).Parent child parent) :
      parent ∈ names := by
    obtain ⟨c, hload, hp⟩ := h
    obtain ⟨data, hdata, hparse⟩ := Library.loadFrom_gives r child hload c rfl
    exact hparents data hdata parent (by rw [hparse]; exact hp)
  have hlt {child parent : String} (h : (Library.ofResources r).Parent child parent)
      (hchild : child ∈ names) :
      names.idxOf child < names.idxOf parent := by
    obtain ⟨c, hload, hp⟩ := h
    exact hrank child hchild parent (by rw [Library.view_eq_some hload]; exact hp)
  have hpath {child parent : String} (h : TransGen (Library.ofResources r).Parent child parent)
      (hchild : child ∈ names) : names.idxOf child < names.idxOf parent := by
    induction h with
    | single h => exact hlt h hchild
    | @tail middle parent hup h ih =>
      obtain ⟨_, -, hlast⟩ := TransGen.tail'_iff.mp hup
      exact Nat.lt_trans ih (hlt h (hmem hlast))
  intro hcycle
  obtain ⟨_, -, hlast⟩ := TransGen.tail'_iff.mp hcycle
  exact Nat.lt_irrefl _ (hpath hcycle (hmem hlast))

lemma parent_of_view {r : Resources} {child parent : String}
    (h : (Library.ofResources r).view (fun c => c.parents.contains parent) child = some true) :
    (Library.ofResources r).Parent child parent := by
  obtain ⟨c, hload, hmem⟩ := Library.exists_of_view h
  exact ⟨c, hload, List.contains_iff_mem.mp hmem⟩

lemma hasInitializer_of_view {r : Resources} {name : String}
    (h : (Library.ofResources r).view (fun c => (initializerOf c).isSome) name = some true) :
    (Library.ofResources r).HasInitializer name := by
  obtain ⟨c, hload, hsome⟩ := Library.exists_of_view h
  rw [initializerOf] at hsome
  split at hsome
  next hany =>
    obtain ⟨m, hm, hname⟩ := List.any_eq_true.mp hany
    obtain ⟨hm, hdefines⟩ := List.mem_filter.mp hm
    exact ⟨c, hload, m, hm, beq_iff_eq.mp hname, hdefines⟩
  next => cases hsome

/-- **The host between two roots hides that one is above the other**: the lower one is initialized
first. -/
theorem bridged_roots_out_of_order :
    ¬ ∀ (r : Resources) (o : Options) (p : Program), build r o = .ok p → o.mode = .extension →
      (Library.ofResources r).Declares (p.compiled ++ p.external) →
      (∀ name, ¬ TransGen (Library.ofResources r).Parent name name) →
      ∃ order, p.Initializes (Library.ofResources r)
        (Library.ofResources r).HasInitializer order := by
  intro hall
  have hrun : (build bridged { roots := ["A", "B"], fixed := [], mode := .extension }).map
      (fun p => (p.compiled, p.external, p.initializers)) =
      .ok (["A", "B"], ["java/lang/Class", "X"],
        [ClassDecl.initializer "B", ClassDecl.initializer "A"]) := by decide +kernel
  obtain ⟨p, hbuild, hseen⟩ := exists_of_map_ok hrun
  obtain ⟨hcompiled, hseen⟩ := Prod.mk.inj hseen
  obtain ⟨hexternal, hcalls⟩ := Prod.mk.inj hseen
  have hdeclared : (Library.ofResources bridged).Declares (p.compiled ++ p.external) := by
    have hnamed : ∀ name ∈ ["A", "B"] ++ ["java/lang/Class", "X"],
        ((Library.ofResources bridged).view ClassDecl.name name).getD name = name := by
          decide +kernel
    intro name hname c hload
    rw [hcompiled, hexternal] at hname
    have hdeclares := hnamed name hname
    rwa [Library.view_eq_some hload] at hdeclares
  obtain ⟨order, horder⟩ := hall bridged _ p hbuild rfl hdeclared
    (acyclic_of_ranked ["B", "X", "A"] (by decide +kernel) (by decide +kernel))
  have hlower : (Library.ofResources bridged).Parent "B" "X" := parent_of_view (by decide +kernel)
  have hupper : (Library.ofResources bridged).Parent "X" "A" := parent_of_view (by decide +kernel)
  have hmem : ∀ name ∈ ["A", "B"], name ∈ order := by
    intro name hname
    have hhas : ∀ name ∈ ["A", "B"],
        (Library.ofResources bridged).view (fun c => (initializerOf c).isSome)
        name = some true := by
      decide +kernel
    exact (horder.mem name).mpr ⟨hcompiled ▸ hname, hasInitializer_of_view (hhas name hname)⟩
  obtain ⟨before, after, horderEq, hbefore⟩ :=
    horder.ancestors "A" (hmem "A" (by simp)) "B" (hmem "B" (by simp))
      (.head hlower (.single hupper))
  -- the call for `B` is the first, so that no other can stand before it
  have heq : [ClassDecl.initializer "B", ClassDecl.initializer "A"] =
      before.map ClassDecl.initializer ++ ClassDecl.initializer "B" ::
      after.map ClassDecl.initializer := by
    rw [← hcalls, horder.calls, horderEq, List.map_append, List.map_cons]
  cases before with
  | nil => cases hbefore
  | cons first rest =>
    have hlast : ClassDecl.initializer "B" ∈ [ClassDecl.initializer "A"] := by
      rw [(List.cons.inj heq).2]
      simp
    exact absurd (List.mem_singleton.mp hlast) (by decide +kernel)

end Program

end ClassScript
