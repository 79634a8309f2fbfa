import ClassScript.Proofs.Discovery
import ClassScript.Proofs.InitializerOrder
import ClassScript.Proofs.Rendering

/-!
When the static initializers of a program run.

A complete program has every class that its classes descend from, as far as the library has
them. So the walk along the parents, which puts the initializers in order, misses no ancestor,
and the initializers of all ancestors of a class are called before its own.
-/

namespace ClassScript

open Relation (TransGen)

/-! ### The hierarchy of a library -/

namespace Library

def Parent (lib : Library) (child parent : String) : Prop :=
  ∃ c, lib.load child = .ok (some c) ∧ parent ∈ c.parents

def DeclaresInitializer (lib : Library) (name : String) : Prop :=
  ∃ c, lib.load name = .ok (some c) ∧ ∃ m ∈ c.methods, m.name = ClassDecl.initializerName

/-- The class declares a static initializer that is not abstract, or has a body in script. -/
def HasInitializer (lib : Library) (name : String) : Prop :=
  ∃ c, lib.load name = .ok (some c) ∧
    ∃ m ∈ c.methods, m.name = ClassDecl.initializerName ∧ ClassDecl.defines m = true

def Declares (lib : Library) (names : List String) : Prop :=
  ∀ name ∈ names, ∀ c, lib.load name = .ok (some c) → c.name = name

def view {α : Type} (lib : Library) (see : ClassDecl → α) (name : String) : Option α :=
  match lib.load name with
  | .ok (some c) => some (see c)
  | _ => none

lemma view_eq_some {α : Type} {lib : Library} {see : ClassDecl → α} {name : String} {c : ClassDecl}
    (h : lib.load name = .ok (some c)) : lib.view see name = some (see c) := by
  rw [view, h]

lemma exists_of_view {α : Type} {lib : Library} {see : ClassDecl → α} {name : String} {a : α}
    (h : lib.view see name = some a) : ∃ c, lib.load name = .ok (some c) ∧ see c = a := by
  rw [view] at h
  split at h
  next c hload => exact ⟨c, hload, Option.some.inj h⟩
  next => cases h

end Library

namespace Program

/-! ### Classes that are defined -/

namespace Discovered

open References (Processed Up)

variable {r : Resources} {o : Options} {s : Progress} {done : List String}
  {name child parent : String}

lemma mem_names (h : Discovered r o s done []) (name : String)
    (hname : Processed s.references.states name) : name ∈ s.references.names := by
  obtain ⟨call, hcall⟩ := hname
  exact (h.stands.keys name).mp (by rw [Table.contains, hcall]; rfl)

lemma exists_defines (h : Discovered r o s done []) (hname : Processed s.references.states name) :
    ∃ pieces c, Item.defined name pieces ∈ s.items.toList ∧
      Defines (generator r o) s name pieces c := by
  obtain ⟨item, hitem, rfl, hfits⟩ := h.exists_item (h.mem_names name hname)
  obtain ⟨call, hcall⟩ := hname
  cases item with
  | defined n pieces =>
    obtain ⟨c, hc⟩ := hfits
    exact ⟨pieces, c, hitem, hc⟩
  | lazy n => cases hcall.symm.trans hfits.2.2.2
  | linked n => cases hcall.symm.trans hfits.2

lemma processed_of_mem (h : Discovered r o s done []) {pieces : List Piece}
    (hitem : Item.defined name pieces ∈ s.items.toList) :
    ∃ c, Defines (generator r o) s name pieces c ∧ Processed s.references.states name := by
  obtain ⟨c, hc⟩ := h.fits _ (Array.mem_toList_iff.mp hitem)
  exact ⟨c, hc, _, hc.state⟩

/-- The class that an item defines is the one that its name says. -/
lemma defines_named (h : Discovered r o s done [])
    (hdeclared : (Library.ofResources r).Declares (s.items.toList.filterMap Item.definedName?))
    {pieces : List Piece} (hitem : Item.defined name pieces ∈ s.items.toList) :
    ∃ c, Defines (generator r o) s name pieces c ∧ c.name = name := by
  obtain ⟨c, hc, -⟩ := h.processed_of_mem hitem
  exact ⟨c, hc, hdeclared name (List.mem_filterMap.mpr ⟨_, hitem, rfl⟩) c (h.holds hc.learnt)⟩

/-- The walk goes up to parents only. -/
lemma parent_of_up (h : Discovered r o s done [])
    (hup : Up s.parents s.references.states child parent) :
    (Library.ofResources r).Parent child parent := by
  have hmem := hup.1
  rw [Progress.parents] at hmem
  split at hmem
  next c hc => exact ⟨c, h.holds hc, hmem⟩
  next => cases hmem

/-- The parents of a class that is defined are known, and have been discovered. -/
lemma mem_parents (h : Discovered r o s done []) (hchild : Processed s.references.states child)
    (hparent : (Library.ofResources r).Parent child parent) :
    parent ∈ s.parents child ∧ parent ∈ s.references.names := by
  obtain ⟨pieces, c, -, hc⟩ := h.exists_defines hchild
  obtain ⟨c', hc', hmem⟩ := hparent
  obtain rfl : c' = c := by
    have heq := hc'.symm.trans (h.holds hc.learnt)
    simpa using heq
  have hparents : s.parents child = c'.parents := by
    rw [Progress.parents, hc.learnt, ClassDecl.parents]
  exact ⟨hparents ▸ hmem, hc.parents parent hmem⟩

/-- In a complete program a parent is defined when the library has it. -/
lemma up_of_parent (h : Discovered r o s done []) (hmode : o.mode = .standalone)
    (hchild : Processed s.references.states child)
    (hparent : (Library.ofResources r).Parent child parent) {d : ClassDecl}
    (hload : (Library.ofResources r).load parent = .ok (some d)) :
    Up s.parents s.references.states child parent := by
  obtain ⟨hmem, hname⟩ := h.mem_parents hchild hparent
  refine ⟨hmem, ?_⟩
  obtain ⟨item, hitem, rfl, hfits⟩ := h.exists_item hname
  cases item with
  | defined n ps =>
    obtain ⟨e, he⟩ := hfits
    exact ⟨_, he.state⟩
  | lazy n =>
    have heq := hload.symm.trans (h.holds hfits.2.2.1)
    simp at heq
  | linked n => cases hmode.symm.trans (isExternal_iff.mp hfits.1).1

lemma transGen_up (h : Discovered r o s done []) (hmode : o.mode = .standalone)
    (hpath : TransGen (Library.ofResources r).Parent child parent)
    (hchild : Processed s.references.states child)
    (hparent : Processed s.references.states parent) :
    TransGen (Up s.parents s.references.states) child parent := by
  induction hpath using TransGen.head_induction_on with
  | single hstep =>
    obtain ⟨pieces, d, -, hd⟩ := h.exists_defines hparent
    exact .single (h.up_of_parent hmode hchild hstep (h.holds hd.learnt))
  | @head child middle hstep hrest ih =>
    -- a class in between has a parent, so the library has it
    obtain ⟨d, hd⟩ : ∃ d, (Library.ofResources r).load middle = .ok (some d) := by
      obtain ⟨next, ⟨d, hd, -⟩, -⟩ := TransGen.head'_iff.mp hrest
      exact ⟨d, hd⟩
    have hup := h.up_of_parent hmode hchild hstep hd
    exact .head hup (ih hup.2)

/-- A class that is defined has its call pending if it has an initializer. -/
lemma pendingCall_eq (h : Discovered r o s done [])
    (hdeclared : (Library.ofResources r).Declares (s.items.toList.filterMap Item.definedName?))
    (hname : Processed s.references.states name) :
    (∀ call, References.pendingCall s.references.states name = some call →
      call = ClassDecl.initializer name) ∧
      ((References.pendingCall s.references.states name).isSome = true ↔
        (Library.ofResources r).HasInitializer name) := by
  obtain ⟨pieces, -, hitem, -⟩ := h.exists_defines hname
  obtain ⟨c, hc, hcname⟩ := h.defines_named hdeclared hitem
  have hload := h.holds hc.learnt
  have hpending : References.pendingCall s.references.states name = initializerOf c := by
    have hstate : s.references.states.get? name = some (.processed (initializerOf c)) := hc.state
    rw [References.pendingCall, hstate]
  -- only the methods that are written count, so a bare declaration is no initializer
  have hany : (c.methods.filter ClassDecl.defines).any
      (·.name == ClassDecl.initializerName) = true ↔
      (Library.ofResources r).HasInitializer name := by
    simp only [List.any_eq_true, List.mem_filter, beq_iff_eq]
    constructor
    · rintro ⟨m, ⟨hm, hdefines⟩, hmname⟩
      exact ⟨c, hload, m, hm, hmname, hdefines⟩
    · rintro ⟨c', hload', m, hm, hmname, hdefines⟩
      obtain rfl : c' = c := by simpa using hload'.symm.trans hload
      exact ⟨m, ⟨hm, hdefines⟩, hmname⟩
  rw [hpending, initializerOf, ← hany]
  split
  next hhas => exact ⟨fun call hcall => by rw [← Option.some.inj hcall, hcname], by simp [hhas]⟩
  next hhas => exact ⟨by rintro call ⟨⟩, by simp [hhas]⟩

end Discovered

/-- How a program calls the initializers of the classes that have one: each once, those of all
ancestors of a class before its own, and all after the definitions. -/
structure Initializes (lib : Library) (has : String → Prop) (p : Program)
    (order : List String) : Prop where
  nodup : order.Nodup
  mem : ∀ name, name ∈ order ↔ name ∈ p.compiled ∧ has name
  calls : p.initializers = order.map ClassDecl.initializer
  ancestors : ∀ a ∈ order, ∀ b ∈ order, TransGen lib.Parent b a → References.Precedes order a b
  last : ∃ level, p.render = opening Support.text p.mode ++
    (p.items.foldl Item.render { indent := indent p.mode }).text ++ p.invokers.text level ++
    String.join ((p.scripts ++ p.data.map dataLine).map fun s =>
      Writer.margin level ++ s ++ "\n") ++
    String.join (p.initializers.map fun call => Writer.margin level ++ call ++ "\n") ++
    closing p.compiled p.mode

lemma filterMap_eq_map_filter {α β : Type} {f : α → Option β} {g : α → β} {l : List α}
    (h : ∀ a ∈ l, ∀ b, f a = some b → b = g a) :
    l.filterMap f = (l.filter fun a => (f a).isSome).map g := by
  induction l with
  | nil => rfl
  | cons a l ih =>
    have hrest := ih fun a' ha' => h a' (List.mem_cons_of_mem _ ha')
    cases hfa : f a with
    | none => rw [List.filterMap_cons_none hfa, List.filter_cons_of_neg (by simp [hfa]), hrest]
    | some b =>
      rw [List.filterMap_cons_some hfa, List.filter_cons_of_pos (by simp [hfa]),
        List.map_cons, hrest,
        h a List.mem_cons_self b hfa]

/-- **Initializers of superclasses run first.** In a complete program of classes without cycles
among their ancestors, each class that is defined and has an initializer has its call once,
after all definitions and after the calls of its ancestors. -/
theorem ancestors_initialized_first {r : Resources} {o : Options} {p : Program}
    (hbuild : build r o = .ok p) (hmode : o.mode = .standalone)
    (hdeclared : (Library.ofResources r).Declares p.compiled)
    (hacyclic : ∀ name, ¬ TransGen (Library.ofResources r).Parent name name) :
    ∃ order, p.Initializes (Library.ofResources r)
      (Library.ofResources r).HasInitializer order := by
  obtain ⟨s, ⟨-, -, done, h⟩, hitems, -, hcalls⟩ := build_gives r o hbuild
  rw [compiled, hitems] at hdeclared
  obtain ⟨order, hnodup, hmem, hflush, habove⟩ :=
    References.flush_order s.references s.parents h.mem_names
  have hpending := fun name (hname : name ∈ order) =>
    h.pendingCall_eq hdeclared ((hmem name).mp hname)
  have hacyclic' : ∀ name, ¬ TransGen (References.Up s.parents s.references.states) name name :=
    fun name hcycle => hacyclic name (TransGen.mono (fun _ _ => h.parent_of_up) name name hcycle)
  refine ⟨order.filter fun name => (References.pendingCall s.references.states name).isSome,
    hnodup.filter _, fun name => ?_, ?_, fun a ha b hb hpath => ?_, p.render_eq⟩
  · rw [List.mem_filter, mem_compiled, hitems]
    constructor
    · rintro ⟨hname, hcall⟩
      obtain ⟨pieces, -, hitem, -⟩ := h.exists_defines ((hmem name).mp hname)
      exact ⟨⟨pieces, hitem⟩, (hpending name hname).2.mp hcall⟩
    · rintro ⟨⟨pieces, hitem⟩, hhas⟩
      obtain ⟨c, -, hprocessed⟩ := h.processed_of_mem hitem
      have hname := (hmem name).mpr hprocessed
      exact ⟨hname, (hpending name hname).2.mpr hhas⟩
  · rw [hcalls, hflush]
    exact filterMap_eq_map_filter fun name hname => (hpending name hname).1
  · obtain ⟨ha, hacall⟩ := List.mem_filter.mp ha
    obtain ⟨hb, hbcall⟩ := List.mem_filter.mp hb
    have hup := h.transGen_up hmode hpath ((hmem b).mp hb) ((hmem a).mp ha)
    exact (References.precedes_of_up hnodup habove hacyclic' hb hup).filter hacall hbcall

/-! ### Samples -/

def sampleText (s : String) : Bytes :=
  1 :: 0 :: .ofNat s.length :: s.toList.map fun c => .ofNat c.toNat

/-- The file of a class with parents as given and, where there are flags for it, a static
initializer that does nothing. The flags are the upper ones. -/
def sampleFile (name : String) (superName interface : Option String) (flags : Option UInt8) :
    Bytes :=
  [0xca, 0xfe, 0xba, 0xbe, 0, 0, 0, 52, 0, 10] ++
  sampleText name ++ [7, 0, 1] ++ sampleText (superName.getD "") ++ [7, 0, 3] ++
  sampleText (interface.getD "") ++ [7, 0, 5] ++
  sampleText ClassDecl.initializerName ++ sampleText "()V" ++ sampleText "Code" ++
  [0, 0, 0, 2, 0, if superName.isSome then 4 else 0] ++
  (if interface.isSome then [0, 1, 0, 6] else [0, 0]) ++
  [0, 0, 0, if flags.isSome then 1 else 0] ++
  (flags.toList.flatMap fun f =>
    [f, 8, 0, 7, 0, 8, 0, 1, 0, 9, 0, 0, 0, 13, 0, 1, 0, 1, 0, 0, 0, 1, 0xb1, 0, 0, 0, 0]) ++
  [0, 0]

/-- Two ways up from `C` to `I`, one of them through a class without an initializer. -/
def diamond : Resources := ⟨[.stored [
  ("A.class", sampleFile "A" none none (some 0)),
  ("I.class", sampleFile "I" none none (some 0)),
  ("B.class", sampleFile "B" (some "A") (some "I") none),
  ("C.class", sampleFile "C" (some "B") (some "I") (some 0))]]⟩

def depth (name : String) : Nat :=
  if name = "A" ∨ name = "I" then 0 else if name = "B" then 1 else 2

lemma depth_lt {child parent : String} (h : (Library.ofResources diamond).Parent child parent) :
    depth parent < depth child := by
  obtain ⟨c, hload, hmem⟩ := h
  have hview : (Library.ofResources diamond).view ClassDecl.parents child = some c.parents :=
    Library.view_eq_some hload
  by_cases htop : child ∈ ["A", "I"]
  · have hnone : ∀ n ∈ ["A", "I"],
        (Library.ofResources diamond).view ClassDecl.parents n = some [] := by
      decide +kernel
    rw [hnone child htop] at hview
    rw [← Option.some.inj hview] at hmem
    cases hmem
  by_cases hmiddle : child = "B"
  · subst hmiddle
    have hparents : (Library.ofResources diamond).view ClassDecl.parents "B" = some ["A", "I"] := by
      decide +kernel
    rw [hparents] at hview
    rw [← Option.some.inj hview] at hmem
    revert parent
    decide
  -- no class of the sample has a parent that is as deep as all other names are
  · have hall : ∀ data ∈ diamond.contents,
        ∀ n ∈ ((ClassDecl.parse data).toOption.map ClassDecl.parents).getD [], depth n < 2 := by
      decide +kernel
    obtain ⟨data, hdata, hparse⟩ := Library.loadFrom_gives diamond child hload c rfl
    have hlt := hall data hdata parent (by rw [hparse]; exact hmem)
    have hchild : depth child = 2 := by
      simp only [List.mem_cons, List.not_mem_nil, or_false] at htop
      rw [depth, if_neg htop, if_neg hmiddle]
    omega

lemma diamond_acyclic (name : String) :
    ¬ TransGen (Library.ofResources diamond).Parent name name := by
  have hpath {child parent : String}
      (h : TransGen (Library.ofResources diamond).Parent child parent) :
      depth parent < depth child := by
    induction h with
    | single h => exact depth_lt h
    | tail _ h ih => exact Nat.lt_trans (depth_lt h) ih
  exact fun h => Nat.lt_irrefl _ (hpath h)

lemma exists_of_map_ok {ε α β : Type} {x : Except ε α} {f : α → β} {b : β} (h : x.map f = .ok b) :
    ∃ a, x = .ok a ∧ f a = b := by
  cases x with
  | error e => cases h
  | ok a => exact ⟨a, rfl, Except.ok.inj h⟩

/-- Classes that declare their names, seen one by one. -/
lemma declares_of_view {lib : Library} {names : List String}
    (h : ∀ name ∈ names, lib.view ClassDecl.name name = some name) : lib.Declares names := by
  intro name hname c hload
  have hview := h name hname
  rw [Library.view_eq_some hload] at hview
  exact Option.some.inj hview

theorem ancestors_initialized_first_diamond :
    ∃ p order, build diamond { roots := ["C"], fixed := [] } = .ok p ∧ p.compiled =
      ["C", "B", "I", "A"] ∧
      p.Initializes (Library.ofResources diamond)
        (Library.ofResources diamond).HasInitializer order := by
  have hrun : (build diamond { roots := ["C"], fixed := [] }).map compiled =
      .ok ["C", "B", "I", "A"] := by
    decide +kernel
  obtain ⟨p, hbuild, hcompiled⟩ := exists_of_map_ok hrun
  have hdeclared : (Library.ofResources diamond).Declares p.compiled := by
    rw [hcompiled]
    exact declares_of_view (by decide +kernel)
  obtain ⟨order, horder⟩ := ancestors_initialized_first hbuild rfl hdeclared diamond_acyclic
  exact ⟨p, order, hbuild, hcompiled, horder⟩

/-- One class, with an initializer that has code and is marked abstract. -/
def marked : Resources := ⟨[.stored [("X.class", sampleFile "X" none none (some 4))]]⟩

lemma marked_acyclic (name : String) :
    ¬ TransGen (Library.ofResources marked).Parent name name := by
  have hstep {child parent : String} : ¬ (Library.ofResources marked).Parent child parent := by
    rintro ⟨c, hload, hmem⟩
    obtain ⟨data, hdata, hparse⟩ := Library.loadFrom_gives marked child hload c rfl
    have hnone : ∀ data ∈ marked.contents,
        ((ClassDecl.parse data).toOption.map ClassDecl.parents).getD [] = [] := by decide +kernel
    have hparents := hnone data hdata
    rw [hparse] at hparents
    change c.parents = [] at hparents
    rw [hparents] at hmem
    cases hmem
  intro h
  obtain ⟨next, h, -⟩ := TransGen.head'_iff.mp h
  exact hstep h

/-- **An initializer that is marked abstract is not called**, though its class is defined. -/
theorem marked_initializer_not_called :
    ¬ ∀ (r : Resources) (o : Options) (p : Program), build r o = .ok p → o.mode = .standalone →
      (Library.ofResources r).Declares p.compiled →
      (∀ name, ¬ TransGen (Library.ofResources r).Parent name name) →
      ∃ order, p.Initializes (Library.ofResources r)
        (Library.ofResources r).DeclaresInitializer order := by
  intro hall
  have hrun : (build marked { roots := ["X"], fixed := [] }).map
      (fun p => (p.compiled, p.initializers)) = .ok (["X"], []) := by decide +kernel
  obtain ⟨p, hbuild, hseen⟩ := exists_of_map_ok hrun
  obtain ⟨hcompiled, hcalls⟩ := Prod.mk.inj hseen
  have hdeclared : (Library.ofResources marked).Declares p.compiled := by
    rw [hcompiled]
    exact declares_of_view (by decide +kernel)
  obtain ⟨order, horder⟩ := hall marked _ p hbuild rfl hdeclared marked_acyclic
  have hmethods : (Library.ofResources marked).view (fun c => c.methods.map MethodDecl.name) "X" =
      some [ClassDecl.initializerName] := by decide +kernel
  obtain ⟨c, hload, hmethod⟩ := Library.exists_of_view hmethods
  obtain ⟨m, hm, hmname⟩ :=
    List.mem_map.mp (hmethod ▸ List.mem_singleton_self ClassDecl.initializerName)
  have hmem : "X" ∈ order := (horder.mem "X").mpr ⟨by rw [hcompiled]; simp, c, hload, m, hm, hmname⟩
  have hnil : order.map ClassDecl.initializer = [] := horder.calls.symm.trans hcalls
  rw [List.map_eq_nil_iff.mp hnil] at hmem
  cases hmem

end Program

end ClassScript
