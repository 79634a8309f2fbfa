import ClassScript.Proofs.Alike
import Mathlib.Data.List.Nodup

/-!
The order in which a hierarchy is searched.

First come the superclasses upwards, up to one that is missing or has been met. Then come the
interfaces of these classes and all above them, depth first and from left to right, each where it
is met first. The order is given by rules that mention neither a bound nor a visitor. In every
hierarchy whose classes can be loaded there is such an order, and it has exactly the classes that
can be reached.
-/

namespace ClassScript

/-! ### Room for more names -/

lemma Room.append {U met met' : List String} {levels : Nat} (h : Room U levels met)
    (hnodup : met'.Nodup) (hfresh : ∀ n ∈ met', n ∉ met) (hmem : ∀ n ∈ met', n ∈ U) :
    Room U levels (met' ++ met) where
  nodup := List.Nodup.append hnodup h.nodup fun n hn hn' => hfresh n hn hn'
  mem n hn := (List.mem_append.mp hn).elim (hmem n) (h.mem n)
  levels := by
    have := h.levels
    rw [List.length_append]
    omega

lemma Room.exists_succ {U met : List String} {levels : Nat} (h : Room U levels met) :
    ∃ n, levels = n + 1 := by
  cases levels with
  | zero => exact h.ne_zero.elim
  | succ n => exact ⟨n, rfl⟩

lemma Room.cons {U met : List String} {name : String} {levels : Nat} (h : Room U (levels + 1) met)
    (hname : name ∈ U) (hnew : name ∉ met) : Room U levels (name :: met) :=
  h.enter hname (by simpa using hnew)

namespace Hierarchy

/-- The superclasses from a name upwards, each with the name that it is looked up by, when the
names in `met` have been met before. -/
inductive Superclasses (lib : Library) :
    List String → Option String → List (String × ClassDecl) → Prop
  | top {met} : Superclasses lib met none []
  | again {met name} : name ∈ met → Superclasses lib met (some name) []
  | missing {met name} : lib.load name = .ok none → Superclasses lib met (some name) []
  | found {met name c chain} : name ∉ met → lib.load name = .ok (some c) →
      Superclasses lib (name :: met) c.superName chain →
      Superclasses lib met (some name) ((name, c) :: chain)

/-- The interfaces from these names upwards, depth first and from left to right, when the names in
`met` have been met before. -/
inductive Preorder (lib : Library) : List String → List String → List (String × ClassDecl) → Prop
  | nil {met} : Preorder lib met [] []
  | again {met name names rest} : name ∈ met → Preorder lib met names rest →
      Preorder lib met (name :: names) rest
  | missing {met name names rest} : lib.load name = .ok none → Preorder lib met names rest →
      Preorder lib met (name :: names) rest
  | found {met name names c above rest} : name ∉ met → lib.load name = .ok (some c) →
      Preorder lib (name :: met) c.interfaces above →
      Preorder lib (above.map Prod.fst ++ name :: met) names rest →
      Preorder lib met (name :: names) ((name, c) :: above ++ rest)

inductive Above (lib : Library) (start : String) : String → Prop
  | start : Above lib start start
  | superclass {name c p} : Above lib start name → lib.load name = .ok (some c) →
      c.superName = some p →
      Above lib start p

/-- The names of the interfaces of a class and its superclasses, and of all
interfaces above these. -/
inductive Implemented (lib : Library) (start : String) : String → Prop
  | listed {name c i} : Above lib start name → lib.load name = .ok (some c) → i ∈ c.interfaces →
      Implemented lib start i
  | extended {name c i} : Implemented lib start name → lib.load name = .ok (some c) →
      i ∈ c.interfaces →
      Implemented lib start i

variable {lib : Library} {met names : List String} {start name : String}

/-! ### Superclasses -/

namespace Superclasses

variable {next : Option String} {chain : List (String × ClassDecl)}

lemma loaded (h : Superclasses lib met next chain) :
    ∀ x ∈ chain, lib.load x.1 = .ok (some x.2) := by
  induction h with
  | found _ hload _ ih => exact List.forall_mem_cons.mpr ⟨hload, ih⟩
  | _ => simp

lemma fresh (h : Superclasses lib met next chain) :
    (chain.map Prod.fst).Nodup ∧ ∀ n ∈ chain.map Prod.fst, n ∉ met := by
  induction h with
  | found hnew _ _ ih =>
    obtain ⟨hnodup, hfresh⟩ := ih
    rw [List.map_cons]
    refine ⟨List.nodup_cons.mpr ⟨fun hmem => hfresh _ hmem List.mem_cons_self, hnodup⟩, ?_⟩
    exact List.forall_mem_cons.mpr
      ⟨hnew, fun n hn hmet => hfresh n hn (List.mem_cons_of_mem _ hmet)⟩
  | _ => simp

/-- What holds of the first name, and of each superclass of a class for whose name it holds. -/
lemma within {P : String → Prop} (h : Superclasses lib met next chain)
    (hnext : ∀ n, next = some n → P n)
    (hstep : ∀ n c p, P n → lib.load n = .ok (some c) → c.superName = some p → P p) :
    ∀ x ∈ chain, P x.1 := by
  induction h with
  | found _ hload _ ih =>
    have hname := hnext _ rfl
    exact List.forall_mem_cons.mpr ⟨hname, ih fun p hp => hstep _ _ p hname hload hp⟩
  | _ => simp

/-- Every superclass that is found is in the chain, or has been met before. -/
lemma covers (h : Superclasses lib met next chain) :
    (∀ n c, next = some n → lib.load n = .ok (some c) → n ∈ chain.map Prod.fst ++ met) ∧
      ∀ x ∈ chain, ∀ n c, x.2.superName = some n → lib.load n = .ok (some c) →
        n ∈ chain.map Prod.fst ++ met := by
  induction h with
  | top => simp
  | again hmet => exact ⟨by rintro n c ⟨⟩ _; simpa using hmet, by simp⟩
  | missing hload =>
    refine ⟨?_, by simp⟩
    rintro n c ⟨⟩ hsome
    rw [hload] at hsome
    cases hsome
  | @found met name c chain hnew hload _ ih =>
    have hsame : ∀ n, n ∈ chain.map Prod.fst ++ name :: met ↔
        n ∈ ((name, c) :: chain).map Prod.fst ++ met := by
      intro n
      simp only [List.map_cons, List.cons_append, List.mem_cons, List.mem_append]
      tauto
    simp only [hsame] at ih
    refine ⟨?_, List.forall_mem_cons.mpr ⟨fun n d hn hd => ih.1 n d hn hd, ih.2⟩⟩
    rintro n d ⟨⟩ _
    simp

lemma exists_of_room {U : List String} {N : String → Prop}
    (hU : ∀ n c, N n → lib.load n = .ok (some c) → n ∈ U)
    (hload : ∀ n, N n → ∃ o, lib.load n = .ok o)
    (hstep : ∀ n c p, N n → lib.load n = .ok (some c) → c.superName = some p → N p) {levels : Nat}
    (hroom : Room U levels met) (hnext : ∀ n, next = some n → N n) :
    ∃ chain, Superclasses lib met next chain := by
  induction levels generalizing met next with
  | zero => exact hroom.ne_zero.elim
  | succ levels ih =>
    cases next with
    | none => exact ⟨[], .top⟩
    | some name =>
      have hname := hnext name rfl
      by_cases hmet : name ∈ met
      · exact ⟨[], .again hmet⟩
      · obtain ⟨o, ho⟩ := hload name hname
        cases o with
        | none => exact ⟨[], .missing ho⟩
        | some c =>
          obtain ⟨chain, hchain⟩ :=
            ih (hroom.cons (hU name c hname ho) hmet) fun p hp => hstep name c p hname ho hp
          exact ⟨(name, c) :: chain, .found hmet ho hchain⟩

end Superclasses

/-! ### Interfaces -/

namespace Preorder

variable {interfaces : List (String × ClassDecl)}

lemma loaded (h : Preorder lib met names interfaces) :
    ∀ x ∈ interfaces, lib.load x.1 = .ok (some x.2) := by
  induction h with
  | nil => simp
  | again _ _ ih => exact ih
  | missing _ _ ih => exact ih
  | found _ hload _ _ ih ih' =>
    exact List.forall_mem_cons.mpr ⟨hload, List.forall_mem_append.mpr ⟨ih, ih'⟩⟩

lemma fresh (h : Preorder lib met names interfaces) :
    (interfaces.map Prod.fst).Nodup ∧ ∀ n ∈ interfaces.map Prod.fst, n ∉ met := by
  induction h with
  | nil => simp
  | again _ _ ih => exact ih
  | missing _ _ ih => exact ih
  | @found met name names c above rest hnew _ _ _ ih ih' =>
    obtain ⟨hnodup, hfresh⟩ := ih
    obtain ⟨hnodup', hfresh'⟩ := ih'
    have hname : ∀ n ∈ above.map Prod.fst ++ rest.map Prod.fst, n ≠ name ∧ n ∉ met := by
      intro n hn
      rcases List.mem_append.mp hn with hn | hn
      · have := hfresh n hn
        rwa [List.mem_cons, not_or] at this
      · have := hfresh' n hn
        rw [List.mem_append, not_or, List.mem_cons, not_or] at this
        exact this.2
    rw [List.map_append, List.map_cons, List.cons_append]
    refine ⟨List.nodup_cons.mpr ⟨fun hmem => (hname name hmem).1 rfl, ?_⟩, ?_⟩
    · refine List.Nodup.append hnodup hnodup' fun n hn hn' => hfresh' n hn' ?_
      exact List.mem_append_left _ hn
    · exact List.forall_mem_cons.mpr ⟨hnew, fun n hn => (hname n hn).2⟩

/-- What holds of the first names, and of the interfaces of a class for whose name it holds. -/
lemma within {P : String → Prop} (h : Preorder lib met names interfaces) (hnames : ∀ n ∈ names, P n)
    (hstep : ∀ n c i, P n → lib.load n = .ok (some c) → i ∈ c.interfaces → P i) :
    ∀ x ∈ interfaces, P x.1 := by
  induction h with
  | nil => simp
  | again _ _ ih => exact ih fun n hn => hnames n (List.mem_cons_of_mem _ hn)
  | missing _ _ ih => exact ih fun n hn => hnames n (List.mem_cons_of_mem _ hn)
  | found _ hload _ _ ih ih' =>
    obtain ⟨hname, hrest⟩ := List.forall_mem_cons.mp hnames
    refine List.forall_mem_cons.mpr ⟨hname, List.forall_mem_append.mpr ⟨?_, ih' hrest⟩⟩
    exact ih fun i hi => hstep _ _ i hname hload hi

/-- Every interface that is found is in the order, or has been met before. -/
lemma covers (h : Preorder lib met names interfaces) :
    (∀ n ∈ names, ∀ c, lib.load n = .ok (some c) → n ∈ interfaces.map Prod.fst ++ met) ∧
      ∀ x ∈ interfaces, ∀ n ∈ x.2.interfaces, ∀ c, lib.load n = .ok (some c) →
        n ∈ interfaces.map Prod.fst ++ met := by
  induction h with
  | nil => simp
  | again hmet _ ih =>
    exact ⟨List.forall_mem_cons.mpr ⟨fun _ _ => List.mem_append_right _ hmet, ih.1⟩, ih.2⟩
  | missing hload _ ih =>
    refine ⟨List.forall_mem_cons.mpr ⟨fun c hsome => ?_, ih.1⟩, ih.2⟩
    rw [hload] at hsome
    cases hsome
  | @found met name names c above rest _ _ _ _ ih ih' =>
    -- behind the class all is met that was met before, itself, and what lies above it
    have hsame : ∀ n, n ∈ ((name, c) :: above ++ rest).map Prod.fst ++ met ↔
        n ∈ rest.map Prod.fst ++ (above.map Prod.fst ++ name :: met) := by
      intro n
      simp only [List.cons_append, List.map_cons, List.map_append, List.mem_cons, List.mem_append]
      tauto
    simp only [hsame]
    refine ⟨List.forall_mem_cons.mpr ⟨fun _ _ => by simp, ih'.1⟩, ?_⟩
    refine List.forall_mem_cons.mpr ⟨fun n hn d hd => ?_, ?_⟩
    · exact List.mem_append_right _ (ih.1 n hn d hd)
    · refine List.forall_mem_append.mpr ⟨fun x hx n hn d hd => ?_, ih'.2⟩
      exact List.mem_append_right _ (ih.2 x hx n hn d hd)

lemma exists_of_room {U : List String} {N : String → Prop}
    (hU : ∀ n c, N n → lib.load n = .ok (some c) → n ∈ U)
    (hload : ∀ n, N n → ∃ o, lib.load n = .ok o)
    (hstep : ∀ n c i, N n → lib.load n = .ok (some c) → i ∈ c.interfaces → N i) {levels : Nat}
    (hroom : Room U levels met) (hnames : ∀ n ∈ names, N n) :
    ∃ interfaces, Preorder lib met names interfaces := by
  -- the levels bound the names that are still to come, so each interface that is found leaves fewer
  induction levels generalizing met names with
  | zero => exact hroom.ne_zero.elim
  | succ levels ih =>
    induction names with
    | nil => exact ⟨[], .nil⟩
    | cons name names ih' =>
      obtain ⟨hname, hrest⟩ := List.forall_mem_cons.mp hnames
      by_cases hmet : name ∈ met
      · obtain ⟨rest, h⟩ := ih' hrest
        exact ⟨rest, .again hmet h⟩
      · obtain ⟨o, ho⟩ := hload name hname
        cases o with
        | none =>
          obtain ⟨rest, h⟩ := ih' hrest
          exact ⟨rest, .missing ho h⟩
        | some c =>
          have hroom' := hroom.cons (hU name c hname ho) hmet
          obtain ⟨above, habove⟩ := ih hroom' fun i hi => hstep name c i hname ho hi
          obtain ⟨hnodup, hfresh⟩ := habove.fresh
          have hmem : ∀ n ∈ above.map Prod.fst, n ∈ U := by
            intro n hn
            obtain ⟨x, hx, rfl⟩ := List.mem_map.mp hn
            exact hU _ _ (habove.within (fun i hi => hstep name c i hname ho hi) hstep x hx)
              (habove.loaded x hx)
          obtain ⟨rest, hrest'⟩ := ih (hroom'.append hnodup hfresh hmem) hrest
          exact ⟨(name, c) :: above ++ rest, .found hmet ho habove hrest'⟩

end Preorder

/-! ### The whole order -/

/-- The order of a search from a name: the superclasses, then the interfaces above them. -/
structure SearchOrder (lib : Library) (start : String)
    (chain interfaces : List (String × ClassDecl)) : Prop where
  superclasses : Superclasses lib [] (some start) chain
  preorder : Preorder lib (chain.map Prod.fst) (chain.flatMap (·.2.interfaces)) interfaces

def Asked (lib : Library) (start name : String) : Prop :=
  Above lib start name ∨ Implemented lib start name

lemma mem_of_mem_names {found : List (String × ClassDecl)}
    (hloaded : ∀ x ∈ found, lib.load x.1 = .ok (some x.2)) {c : ClassDecl}
    (hmem : name ∈ found.map Prod.fst) (hload : lib.load name = .ok (some c)) :
    (name, c) ∈ found := by
  obtain ⟨⟨n, d⟩, hx, rfl⟩ := List.mem_map.mp hmem
  have hsame := (hloaded _ hx).symm.trans hload
  cases hsame
  exact hx

namespace SearchOrder

variable {chain interfaces : List (String × ClassDecl)}

lemma nodup (h : SearchOrder lib start chain interfaces) :
    ((chain ++ interfaces).map Prod.fst).Nodup := by
  obtain ⟨hnodup, hfresh⟩ := h.preorder.fresh
  rw [List.map_append]
  exact List.Nodup.append h.superclasses.fresh.1 hnodup fun n hn hn' => hfresh n hn' hn

/-- A superclass that is found is in the chain, by induction on how it is reached. -/
lemma mem_chain_of_above (h : SearchOrder lib start chain interfaces) (hname : Above lib start name)
    {c : ClassDecl} (hload : lib.load name = .ok (some c)) : (name, c) ∈ chain := by
  obtain ⟨hfirst, hnext⟩ := h.superclasses.covers
  refine mem_of_mem_names h.superclasses.loaded ?_ hload
  induction hname generalizing c with
  | start => simpa using hfirst start c rfl hload
  | superclass _ hload' hsuper ih =>
    have hmem := mem_of_mem_names h.superclasses.loaded (ih hload') hload'
    simpa using hnext _ hmem _ c hsuper hload

lemma mem_chain_iff (h : SearchOrder lib start chain interfaces) (name : String) (c : ClassDecl) :
    (name, c) ∈ chain ↔ Above lib start name ∧ lib.load name = .ok (some c) := by
  constructor
  · intro hmem
    refine ⟨h.superclasses.within (P := Above lib start) ?_ ?_ _ hmem, h.superclasses.loaded _ hmem⟩
    · rintro n ⟨⟩
      exact .start
    · exact fun _ _ _ hn hload hsuper => .superclass hn hload hsuper
  · rintro ⟨hname, hload⟩
    exact h.mem_chain_of_above hname hload

lemma not_above_of_mem_interfaces (h : SearchOrder lib start chain interfaces) {c : ClassDecl}
    (hmem : (name, c) ∈ interfaces) : ¬ Above lib start name := by
  intro habove
  have hchain := h.mem_chain_of_above habove (h.preorder.loaded _ hmem)
  exact h.preorder.fresh.2 name (List.mem_map_of_mem hmem) (List.mem_map_of_mem hchain)

lemma implemented_of_mem_interfaces (h : SearchOrder lib start chain interfaces) {c : ClassDecl}
    (hmem : (name, c) ∈ interfaces) : Implemented lib start name := by
  refine h.preorder.within (P := Implemented lib start) ?_ (fun _ _ _ hn hload hi =>
    .extended hn hload hi) _ hmem
  intro i hi
  obtain ⟨⟨n, d⟩, hd, hi⟩ := List.mem_flatMap.mp hi
  obtain ⟨habove, hload⟩ := (h.mem_chain_iff n d).mp hd
  exact .listed habove hload hi

lemma mem_interfaces_of_implemented (h : SearchOrder lib start chain interfaces)
    (hname : Implemented lib start name) {c : ClassDecl} (hload : lib.load name = .ok (some c)) :
    name ∈ interfaces.map Prod.fst ++ chain.map Prod.fst := by
  obtain ⟨hfirst, hnext⟩ := h.preorder.covers
  have hlisted {n : String} {d : ClassDecl} (hd : (n, d) ∈ chain) {i : String}
      (hi : i ∈ d.interfaces) :
      i ∈ chain.flatMap (·.2.interfaces) := List.mem_flatMap.mpr ⟨(n, d), hd, hi⟩
  induction hname generalizing c with
  | listed habove hload' hi =>
    exact hfirst _ (hlisted (h.mem_chain_of_above habove hload') hi) c hload
  | extended _ hload' hi ih =>
    rcases List.mem_append.mp (ih hload') with hmem | hmem
    · exact hnext _ (mem_of_mem_names h.preorder.loaded hmem hload') _ hi c hload
    · exact hfirst _ (hlisted (mem_of_mem_names h.superclasses.loaded hmem hload') hi) c hload

lemma mem_interfaces_iff (h : SearchOrder lib start chain interfaces) (name : String)
    (c : ClassDecl) :
    (name, c) ∈ interfaces ↔
      Implemented lib start name ∧ ¬ Above lib start name ∧ lib.load name = .ok (some c) := by
  constructor
  · intro hmem
    exact ⟨h.implemented_of_mem_interfaces hmem, h.not_above_of_mem_interfaces hmem,
      h.preorder.loaded _ hmem⟩
  · rintro ⟨himpl, habove, hload⟩
    refine mem_of_mem_names h.preorder.loaded ?_ hload
    refine (List.mem_append.mp (h.mem_interfaces_of_implemented himpl hload)).resolve_right
      fun hmem => habove ?_
    exact ((h.mem_chain_iff name c).mp (mem_of_mem_names h.superclasses.loaded hmem hload)).1

/-- The order has the classes that are found under the names asked for. -/
lemma mem_iff_asked (h : SearchOrder lib start chain interfaces) (name : String) (c : ClassDecl) :
    (name, c) ∈ chain ++ interfaces ↔ Asked lib start name ∧ lib.load name = .ok (some c) := by
  rw [List.mem_append, h.mem_chain_iff, h.mem_interfaces_iff, Asked]
  by_cases habove : Above lib start name <;> simp [habove]

end SearchOrder

/-- **There is an order to search whenever no class fails to load**, and there are finitely many. -/
lemma exists_searchOrder {U : List String}
    (hU : ∀ n c, Asked lib start n → lib.load n = .ok (some c) → n ∈ U)
    (hload : ∀ n, Asked lib start n → ∃ o, lib.load n = .ok o) :
    ∃ chain interfaces, SearchOrder lib start chain interfaces := by
  have hstart : Room U (U.length + 1) [] := .start (Nat.lt_succ_self _)
  have hfirst : ∀ n, some start = some n → Above lib start n := by
    rintro n ⟨⟩
    exact .start
  have hup : ∀ n c p, Above lib start n → lib.load n = .ok (some c) → c.superName = some p →
      Above lib start p :=
    fun _ _ _ hn hc hp => .superclass hn hc hp
  obtain ⟨chain, hchain⟩ := Superclasses.exists_of_room (fun n c hn => hU n c (.inl hn))
    (fun n hn => hload n (.inl hn)) hup hstart hfirst
  have habove := hchain.within hfirst hup
  have hmem : ∀ n ∈ chain.map Prod.fst, n ∈ U := by
    intro n hn
    obtain ⟨x, hx, rfl⟩ := List.mem_map.mp hn
    exact hU _ _ (.inl (habove x hx)) (hchain.loaded x hx)
  have hroom := hstart.append hchain.fresh.1 hchain.fresh.2 hmem
  rw [List.append_nil] at hroom
  have hlisted : ∀ i ∈ chain.flatMap (·.2.interfaces), Implemented lib start i := by
    intro i hi
    obtain ⟨x, hx, hi⟩ := List.mem_flatMap.mp hi
    exact .listed (habove x hx) (hchain.loaded x hx) hi
  obtain ⟨interfaces, hinterfaces⟩ := Preorder.exists_of_room (fun n c hn => hU n c (.inr hn))
    (fun n hn => hload n (.inr hn)) (fun _ _ _ hn hc hi => .extended hn hc hi) hroom hlisted
  exact ⟨chain, interfaces, hchain, hinterfaces⟩

end Hierarchy

end ClassScript
