import ClassScript.Proofs.AnnotationData
import ClassScript.Proofs.ClassMentions
import ClassScript.Proofs.Initialization

/-!
Programs are closed under linking.

Every class that has been discovered is one item of the program, and all that the definitions
name has been discovered. So each class that the text of a program mentions is defined, or has a
stub, once; and each method name that is called through the invoker has one selector.
-/

namespace ClassScript

open Wording

/-! ### The texts of items -/

/-- From `w` to `v` text was added at the end. -/
def Writer.Extends (w v : Writer) : Prop := ∃ text, v.text = w.text ++ text

namespace Writer.Extends

variable {u w v : Writer}

lemma refl (w : Writer) : w.Extends w := ⟨"", by simp⟩

lemma trans (h : u.Extends w) (h' : w.Extends v) : u.Extends v := by
  obtain ⟨s, hs⟩ := h
  obtain ⟨t, ht⟩ := h'
  exact ⟨s ++ t, by rw [ht, hs, String.append_assoc]⟩

lemma line (h : w.Extends v) (s : String) : w.Extends (v.line s) := h.trans ⟨_, rfl⟩

lemma enter (h : w.Extends v) : w.Extends v.enter := h

lemma begins (h : w.Extends v) (s : String) : w.Extends (v.begins s) := h.line s

lemma ends (h : w.Extends v) (s : String) : w.Extends (v.ends s) := h.trans ⟨_, rfl⟩

lemma lines (h : w.Extends v) (ss : List String) : w.Extends (v.lines ss) :=
  h.trans ⟨_, by rw [lines_eq]⟩

end Writer.Extends

namespace Piece

variable {own : String} {w : Writer}

lemma extends_render {p : Piece} (hp : p.Proper own) : w.Extends (p.render w) := by
  cases hscript : p.isScript with
  | false =>
    have hmentions : w.Mentions (.ofMembers fun _ _ => True) (p.render w) :=
      mentions_render hp hscript (fun _ => trivial) (fun _ _ => trivial)
        (fun _ _ => trivial) (.refl _ w)
    obtain ⟨text, htext, -⟩ := hmentions
    exact ⟨text, htext⟩
  | true =>
    -- a body in script is written as it stands
    cases p with
    | function f =>
      cases hbody : f.body with
      | script lines =>
        rw [render, Function.render, hbody]
        exact (((Writer.Extends.refl w).begins _).lines lines).ends _
      | missing | code =>
        rw [isScript, hbody] at hscript
        cases hscript
    | _ => cases hscript

lemma extends_renderAll {pieces : List Piece} (h : ∀ p ∈ pieces, p.Proper own) :
    w.Extends (renderAll w pieces) := by
  induction pieces generalizing w with
  | nil => exact .refl w
  | cons p pieces ih =>
    obtain ⟨hp, hpieces⟩ := List.forall_mem_cons.mp h
    exact (extends_render hp).trans (ih hpieces)

/-- A definition goes on behind the line that sets the function of its class. -/
lemma extends_opening (name : String) (superName : Option String) :
    (w.line (property "vm" (Name.ofClass name) ++ " = function " ++ Name.ofClass name ++
      "(arg0) \x7b")).Extends (renderOpening w name superName) := by
  cases superName with
  | none => exact (((((Writer.Extends.refl _).enter.line _).begins _).line _).lines _).lines _
  | some s => exact (((((Writer.Extends.refl _).enter.line _).begins _).line _).lines _).lines _

end Piece

/-- Somewhere in the text the function of a class is set. -/
def Sets (name text : String) : Prop :=
  ∃ before after, text = before ++ property "vm" (Name.ofClass name) ++ " = function" ++ after

/-- The function is set in a part of the text. -/
lemma Sets.within {name text : String} (h : Sets name text) (a b : String) :
    Sets name (a ++ text ++ b) := by
  obtain ⟨before, after, rfl⟩ := h
  exact ⟨a ++ before, after ++ b, by simp only [String.append_assoc]⟩

/-- The function is set where the text goes on in this way behind its name. -/
lemma sets_of_eq (name : String) {s t : String} (h : s = " = function" ++ t) (rest : String) :
    Sets name (classFunction name ++ s ++ rest) :=
  ⟨"", t ++ rest, by rw [h, classFunction, String.empty_append]; simp only [String.append_assoc]⟩

namespace Item

def pieces : Item → List Piece
  | defined _ pieces => pieces
  | _ => []

def assigned : Item → List String
  | defined _ pieces => pieces.filterMap Piece.opened?
  | lazy name | linked name => [name]

/-- A stub sets the function of its class. -/
lemma sets_stub {item : Item} (h : item.definedName? = none) (w : Writer) :
    ∃ text, (item.render w).text = w.text ++ text ∧ Sets item.name text := by
  cases item with
  | defined => cases h
  | lazy name =>
    have hsplit : " = function() \x7b return rt.lazy(vm, " = " = function" ++
        "() \x7b return rt.lazy(vm, " := by
      decide
    refine ⟨_, rfl, Sets.within ?_ _ _⟩
    simpa only [Item.name, String.append_assoc] using sets_of_eq name hsplit _
  | linked name =>
    have hsplit : " = function() \x7b return link(" = " = function" ++ "() \x7b return link(" := by
      decide
    refine ⟨_, rfl, Sets.within ?_ _ _⟩
    simpa only [Item.name, String.append_assoc] using sets_of_eq name hsplit _

/-- A definition sets the function of its class. -/
lemma sets_defined {name own : String} {pieces : List Piece} (hproper : ∀ p ∈ pieces, p.Proper own)
    (hopened : pieces.filterMap Piece.opened? = [own]) (w : Writer) :
    ∃ text, (render w (.defined name pieces)).text = w.text ++ text ∧ Sets own text := by
  obtain ⟨piece, hpiece, hown⟩ := List.mem_filterMap.mp (hopened ▸ List.mem_singleton_self own)
  obtain ⟨front, back, rfl⟩ := List.append_of_mem hpiece
  obtain ⟨hfront, hback⟩ := List.forall_mem_append.mp hproper
  -- the pieces before and after the opening only add to the text
  cases piece with
  | opening n superName =>
    cases hown
    have hsplit : " = function " = " = function" ++ " " := by decide
    have hback : ∀ p ∈ back, p.Proper own := fun p hp => hback p (List.mem_cons_of_mem _ hp)
    obtain ⟨a, ha⟩ : w.Extends (Piece.renderAll w front) := Piece.extends_renderAll hfront
    obtain ⟨b, hb⟩ := (Piece.extends_opening (w := Piece.renderAll w front) own superName).trans
      (Piece.extends_renderAll hback)
    have hline : Sets own (property "vm" (Name.ofClass own) ++ " = function " ++ Name.ofClass own ++
        "(arg0) \x7b") := by
      simpa only [classFunction, String.append_assoc] using sets_of_eq own hsplit _
    refine ⟨a ++ (Writer.margin (Piece.renderAll w front).indent ++ _ ++ "\n") ++ b, ?_,
      (hline.within _ _).within a b⟩
    have hall : render w (.defined name (front ++ .opening own superName :: back)) =
        Piece.renderAll (Piece.renderOpening (Piece.renderAll w front) own superName) back := by
      rw [render, Piece.renderAll, List.foldl_append]
      rfl
    rw [hall, hb, Writer.line, ha]
    simp only [String.append_assoc]
  | _ => cases hown

lemma name_of_definedName? (item : Item) (name : String) (h : item.definedName? = some name) :
    name = item.name := by
  cases item with
  | defined => exact (Option.some.inj h).symm
  | lazy | linked => cases h

lemma name_of_lazyName? (item : Item) (name : String) (h : item.lazyName? = some name) :
    name = item.name := by
  cases item with
  | lazy => exact (Option.some.inj h).symm
  | defined | linked => cases h

lemma name_of_linkedName? (item : Item) (name : String) (h : item.linkedName? = some name) :
    name = item.name := by
  cases item with
  | linked => exact (Option.some.inj h).symm
  | defined | lazy => cases h

end Item

namespace Program

/-- What linking a program needs, where `names` are the classes that have been discovered. -/
structure Linked (p : Program) (o : Options) (names : List String) : Prop where
  /-- Each class is defined or given its stub once, in the order of discovery. -/
  assigned : p.items.flatMap Item.assigned = names
  nodup : names.Nodup
  compiled_sublist : p.compiled.Sublist names
  stubbed_sublist : p.stubbed.Sublist names
  external_sublist : p.external.Sublist names
  cover : ∀ name ∈ names, name ∈ p.compiled ∨ name ∈ p.stubbed ∨ name ∈ p.external
  compiled_stubbed : p.compiled.Disjoint p.stubbed
  compiled_external : p.compiled.Disjoint p.external
  stubbed_external : p.stubbed.Disjoint p.external
  roots : ∀ name ∈ o.roots, name ∈ p.compiled
  standalone : o.mode = .standalone → p.external = []
  extension : o.mode = .extension → ∀ name ∈ p.compiled, name ∈ o.roots
  /-- The text of each item sets the function of its class. -/
  sets : ∀ item ∈ p.items, ∀ w, ∃ text, (item.render w).text = w.text ++ text ∧ Sets item.name text
  classes : ∀ item ∈ p.items, ∀ piece ∈ item.pieces, ∀ name ∈ piece.classes, name ∈ names
  invoked : ∀ item ∈ p.items, ∀ piece ∈ item.pieces, ∀ m ∈ piece.invoked,
    p.invokers.names.count m = 1
  /-- Wherever the text of a definition takes a member of `vm`, bodies in script apart, it is the
  function of a class that has been discovered; and wherever it takes one of the invoker, it is
  listed once. -/
  mentions : ∀ item ∈ p.items, ∀ piece ∈ item.pieces, piece.isScript = false → ∀ w, ∃ text,
    (piece.render w).text = w.text ++ text ∧
      Takes "vm" (fun id => ∃ name ∈ names, id = Name.ofClass name) text.toList ∧
      Takes "invoker" (fun m => p.invokers.names.count m = 1) text.toList
  /-- The classes that the annotation data of a class object name have been discovered. -/
  data : ∀ item ∈ p.items, ∀ name interfaces access annotations,
    Piece.reflection name interfaces access annotations ∈ item.pieces → ∀ w, ∃ text ids,
      (Piece.render w (.reflection name interfaces access annotations)).text = w.text ++ text ∧
      AnnotationData.classes text = some ids ∧
      ∀ id ∈ ids, ∃ name ∈ names, id = AnnotationData.units (Name.ofClass name)
  published : ∀ item ∈ p.items, ∀ id, Piece.publish "vm" id ∈ item.pieces →
    id = Name.ofClass item.name
  calls : ∀ call ∈ p.initializers, ∃ name ∈ p.compiled, call = property "vm" (Name.ofClass name) ++
    "(false)" ++ "." ++ Name.ofMethod "<clinit>" "()V" ++ "();"
  /-- Behind the definitions stand the selectors, line by line, of these names and no others. -/
  selectors : ∃ level, p.render = opening Support.text p.mode ++
    (p.items.foldl Item.render { indent := indent p.mode }).text ++
    (if p.invokers.names.isEmpty then "" else
      String.join ((["var invoker = function Invoker() \x7b",
        "  return Invoker.target[Invoker.method].apply(Invoker.target, arguments);", "\x7d;"] ++
        p.invokers.names.flatMap fun m =>
          [property "invoker" m ++ " = function(target) \x7b", "  invoker.target = target;",
            "  invoker.method = " ++ Quoted.text m ++ ";", "  return invoker;", "\x7d;"]).map
        fun s => Writer.margin level ++ s ++ "\n")) ++
    String.join ((p.scripts ++ p.data.map dataLine).map fun s =>
      Writer.margin level ++ s ++ "\n") ++
    String.join (p.initializers.map fun call => Writer.margin level ++ call ++ "\n") ++
    closing p.compiled p.mode
  /-- Each of these names has one line that its selector starts with. -/
  selected : ∀ m ∈ p.invokers.names, (Invokers.lines p.invokers.names).count
    (property "invoker" m ++ " = function(target) \x7b") = 1

/-! ### The three lists -/

section

variable {p : Program}

/-- A list of items of one kind, in the order of the items. -/
lemma sublist_names {f : Item → Option String}
    (hf : ∀ item name, f item = some name → name = item.name) :
    (p.items.filterMap f).Sublist (p.items.map Item.name) := by
  rw [filterMap_eq_map_filter fun item _ => hf item]
  exact List.filter_sublist.map _

/-- Two kinds of items that no item is both of. -/
lemma disjoint_kinds {f g : Item → Option String} (hnodup : (p.items.map Item.name).Nodup)
    (hf : ∀ item name, f item = some name → name = item.name)
    (hg : ∀ item name, g item = some name → name = item.name)
    (hfg : ∀ item, f item = none ∨ g item = none) :
    (p.items.filterMap f).Disjoint (p.items.filterMap g) := by
  intro name hname hname'
  obtain ⟨item, hitem, hfitem⟩ := List.mem_filterMap.mp hname
  obtain ⟨item', hitem', hgitem⟩ := List.mem_filterMap.mp hname'
  obtain rfl : item = item' := by
    have heq : item.name = item'.name := (hf item name hfitem).symm.trans (hg item' name hgitem)
    exact List.inj_on_of_nodup_map hnodup hitem hitem' heq
  rcases hfg item with h | h
  · cases hfitem.symm.trans h
  · cases hgitem.symm.trans h

/-- Each item is on one of the lists. -/
lemma mem_lists {item : Item} (h : item ∈ p.items) :
    item.name ∈ p.compiled ∨ item.name ∈ p.stubbed ∨ item.name ∈ p.external := by
  simp only [compiled, stubbed, external, List.mem_filterMap]
  cases item with
  | defined name pieces => exact .inl ⟨_, h, rfl⟩
  | lazy name => exact .inr (.inl ⟨_, h, rfl⟩)
  | linked name => exact .inr (.inr ⟨_, h, rfl⟩)

lemma mem_external {name : String} (h : name ∈ p.external) : Item.linked name ∈ p.items := by
  obtain ⟨item, hitem, hname⟩ := List.mem_filterMap.mp h
  cases item with
  | linked n =>
    cases hname
    exact hitem
  | defined | lazy => cases hname

end

/-! ### What discovery has found -/

namespace Discovered

variable {r : Resources} {o : Options} {s : Progress} {done : List String} {name : String}

lemma names_eq (h : Discovered r o s done []) :
    s.items.toList.map Item.name = s.references.names := by
  rw [h.items, h.stands.names, List.append_nil]

lemma root_defined (h : Discovered r o s done []) (hroot : name ∈ o.roots) :
    ∃ pieces, Item.defined name pieces ∈ s.items.toList := by
  obtain ⟨item, hitem, rfl, hfits⟩ := h.exists_item (h.roots name hroot)
  cases item with
  | defined n pieces => exact ⟨pieces, hitem⟩
  | lazy n => exact absurd hroot hfits.2.1
  | linked n => exact absurd hroot (isExternal_iff.mp hfits.1).2

lemma not_linked (h : Discovered r o s done []) (hmode : o.mode = .standalone) :
    Item.linked name ∉ s.items.toList := by
  intro hitem
  have hfits := h.fits _ (Array.mem_toList_iff.mp hitem)
  cases hmode.symm.trans (isExternal_iff.mp hfits.1).1

/-- An extension defines no other classes. -/
lemma defined_root (h : Discovered r o s done []) (hmode : o.mode = .extension)
    {pieces : List Piece} (hitem : Item.defined name pieces ∈ s.items.toList) : name ∈ o.roots := by
  obtain ⟨c, hc, -⟩ := h.processed_of_mem hitem
  by_contra hroot
  cases hc.internal.symm.trans (isExternal_iff.mpr ⟨hmode, hroot⟩)

section

variable {item : Item} {piece : Piece} (h : Discovered r o s done [])
  (hdeclared : (Library.ofResources r).Declares (s.items.toList.filterMap Item.definedName?))

include h hdeclared

/-- What a definition needs is met, the class itself among it. -/
lemma needs_met (hitem : item ∈ s.items.toList) (hpiece : piece ∈ item.pieces) {q : Request}
    (hq : q ∈ piece.needs) : s.Meets q := by
  cases item with
  | lazy | linked => cases hpiece
  | defined name pieces =>
    obtain ⟨c, hc, hcname⟩ := h.defines_named hdeclared hitem
    have hmem : name ∈ s.references.names := h.names_eq ▸ List.mem_map_of_mem hitem
    rcases hc.needs piece hpiece q hq with rfl | hmet
    · rw [hcname]
      exact hmem
    · exact hmet

/-- Definitions are made of the pieces that the generator writes for their class. -/
lemma proper (hitem : item ∈ s.items.toList) (hpiece : piece ∈ item.pieces) :
    piece.Proper item.name := by
  cases item with
  | lazy | linked => cases hpiece
  | defined name pieces =>
    obtain ⟨c, hc, rfl⟩ := h.defines_named hdeclared hitem
    exact hc.proper piece hpiece

lemma sets (hitem : item ∈ s.items.toList) (w : Writer) :
    ∃ text, (item.render w).text = w.text ++ text ∧ Sets item.name text := by
  cases item with
  | lazy | linked => exact Item.sets_stub rfl w
  | defined name pieces =>
    obtain ⟨c, hc, rfl⟩ := h.defines_named hdeclared hitem
    exact Item.sets_defined hc.proper hc.opened w

/-- A class that a piece names has been found. -/
lemma mem_names_of_class (hitem : item ∈ s.items.toList) (hpiece : piece ∈ item.pieces)
    (hname : name ∈ piece.classes) : name ∈ s.references.names := by
  have hq : Request.reference name ∈ piece.needs :=
    List.mem_append_left _ (List.mem_map_of_mem hname)
  exact h.needs_met hdeclared hitem hpiece hq

/-- A method name that a piece calls through the invoker is listed once. -/
lemma count_invoked (hitem : item ∈ s.items.toList) (hpiece : piece ∈ item.pieces) {m : String}
    (hm : m ∈ piece.invoked) : s.invokers.names.count m = 1 := by
  have hq : Request.invoker m ∈ piece.needs := List.mem_append_right _ (List.mem_map_of_mem hm)
  have hmem : m ∈ s.invokers.names := h.needs_met hdeclared hitem hpiece hq
  exact List.count_eq_one_of_mem h.invokers hmem

lemma mentions (hitem : item ∈ s.items.toList) (hpiece : piece ∈ item.pieces)
    (hscript : piece.isScript = false) (w : Writer) :
    ∃ text, (piece.render w).text = w.text ++ text ∧
      Takes "vm" (fun id => ∃ name ∈ s.references.names, id = Name.ofClass name) text.toList ∧
      Takes "invoker" (fun m => s.invokers.names.count m = 1) text.toList := by
  -- one scope holds both what may be taken of `vm` and what may be taken of the invoker
  let σ : Scope := .ofMembers fun object m =>
    if object = "vm" then ∃ name ∈ s.references.names, m = Name.ofClass name
    else s.invokers.names.count m = 1
  have hvm (name : String) (hname : name ∈ item.name :: piece.classes) :
      σ.member "vm" (Name.ofClass name) := by
    rcases List.mem_cons.mp hname with rfl | hname
    · exact ⟨_, h.names_eq ▸ List.mem_map_of_mem hitem, rfl⟩
    · exact ⟨_, h.mem_names_of_class hdeclared hitem hpiece hname, rfl⟩
  have hinvoked (m : String) (hm : m ∈ piece.invoked) : σ.member "invoker" m :=
    h.count_invoked hdeclared hitem hpiece hm
  have hmentions : w.Mentions σ (piece.render w) :=
    Piece.mentions_render (h.proper hdeclared hitem hpiece) hscript (fun _ => trivial) hvm
      hinvoked (.refl _ w)
  obtain ⟨text, htext, ⟨_, -, -, htakes⟩, -⟩ := hmentions
  exact ⟨text, htext, htakes "vm" (by decide), htakes "invoker" (by decide)⟩

lemma data (hitem : item ∈ s.items.toList) {interfaces : List String} {access : UInt16}
    {annotations : List Annotation}
    (hpiece : Piece.reflection name interfaces access annotations ∈ item.pieces) (w : Writer) :
    ∃ text ids, (Piece.render w (.reflection name interfaces access annotations)).text =
        w.text ++ text ∧
      AnnotationData.classes text = some ids ∧
      ∀ id ∈ ids, ∃ name ∈ s.references.names, id = AnnotationData.units (Name.ofClass name) := by
  have hproper := h.proper hdeclared hitem hpiece
  obtain ⟨text, htext, hids⟩ := Piece.classes_reflection w name interfaces access hproper
  refine ⟨text, _, htext, hids, fun id hid => ?_⟩
  obtain ⟨n, hn, rfl⟩ := List.mem_map.mp hid
  have hname := h.mem_names_of_class hdeclared hitem hpiece (List.mem_append_right _ hn)
  exact ⟨n, hname, rfl⟩

/-- Each item sets the function of its class, and no other. -/
lemma assigned_eq : s.items.toList.flatMap Item.assigned = s.references.names := by
  have hone : ∀ item ∈ s.items.toList, item.assigned = [item.name] := by
    intro item hitem
    cases item with
    | lazy | linked => rfl
    | defined name pieces =>
      obtain ⟨c, hc, hcname⟩ := h.defines_named hdeclared hitem
      rw [Item.assigned, hc.opened, hcname, Item.name]
  rw [List.flatMap_congr hone, ← List.map_eq_flatMap, h.names_eq]

/-- Only initializers of classes that are defined are called. -/
lemma flushed_call {call : String} (hcall : call ∈ (s.references.flush s.parents).1) :
    ∃ name pieces, Item.defined name pieces ∈ s.items.toList ∧
      call = ClassDecl.initializer name := by
  obtain ⟨order, -, hmem, hflush, -⟩ := References.flush_order s.references s.parents h.mem_names
  rw [hflush] at hcall
  obtain ⟨name, hname, hpending⟩ := List.mem_filterMap.mp hcall
  have hprocessed := (hmem name).mp hname
  obtain ⟨pieces, -, hitem, -⟩ := h.exists_defines hprocessed
  exact ⟨name, pieces, hitem, (h.pendingCall_eq hdeclared hprocessed).1 call hpending⟩

end

end Discovered

/-- **The output is closed under linking.** The classes of a program are those that discovery has
found when no class waits any more, each defined or given its stub once; and whatever class or
selector the definitions name is there. -/
theorem closed_under_linking {r : Resources} {o : Options} {p : Program}
    (hbuild : build r o = .ok p) (hdeclared : (Library.ofResources r).Declares p.compiled) :
    ∃ s, discover (generator r o) o (bound r o) (start o) = .ok s ∧ s.references.next.1 = none ∧
      p.Linked o s.references.names := by
  obtain ⟨s, ⟨hrun, hnext, done, h⟩, hitems, hinvokers, hcalls⟩ := build_gives r o hbuild
  have hnames : p.items.map Item.name = s.references.names := hitems ▸ h.names_eq
  have hnodup : (p.items.map Item.name).Nodup := hnames ▸ h.stands.nodup
  rw [compiled, hitems] at hdeclared
  refine ⟨s, hrun, hnext, {
    assigned := hitems ▸ h.assigned_eq hdeclared
    nodup := h.stands.nodup
    compiled_sublist := hnames ▸ sublist_names Item.name_of_definedName?
    stubbed_sublist := hnames ▸ sublist_names Item.name_of_lazyName?
    external_sublist := hnames ▸ sublist_names Item.name_of_linkedName?
    cover := fun name hname => ?_
    compiled_stubbed := disjoint_kinds hnodup Item.name_of_definedName? Item.name_of_lazyName? ?_
    compiled_external := disjoint_kinds hnodup Item.name_of_definedName? Item.name_of_linkedName? ?_
    stubbed_external := disjoint_kinds hnodup Item.name_of_lazyName? Item.name_of_linkedName? ?_
    roots := fun name hname => ?_
    standalone := fun hmode => ?_
    extension := fun hmode name hname => ?_
    sets := fun item hitem w => ?_
    classes := fun item hitem piece hpiece name hname => ?_
    invoked := fun item hitem piece hpiece m hm => ?_
    mentions := fun item hitem piece hpiece hscript w => ?_
    data := fun item hitem name interfaces access annotations hpiece w => ?_
    published := fun item hitem id hid => ?_
    calls := fun call hcall => ?_
    selectors := p.render_eq
    selected := fun m hm => ?_ }⟩
  · obtain ⟨item, hitem, rfl, -⟩ := h.exists_item hname
    exact mem_lists (hitems ▸ hitem)
  · rintro (_ | _ | _) <;> simp [Item.definedName?, Item.lazyName?]
  · rintro (_ | _ | _) <;> simp [Item.definedName?, Item.linkedName?]
  · rintro (_ | _ | _) <;> simp [Item.lazyName?, Item.linkedName?]
  · rw [mem_compiled, hitems]
    exact h.root_defined hname
  · refine List.eq_nil_iff_forall_not_mem.mpr fun name hname => ?_
    exact h.not_linked hmode (hitems ▸ mem_external hname)
  · obtain ⟨pieces, hitem⟩ := mem_compiled.mp hname
    exact h.defined_root hmode (hitems ▸ hitem)
  · exact h.sets hdeclared (hitems ▸ hitem) w
  · exact h.mem_names_of_class hdeclared (hitems ▸ hitem) hpiece hname
  · exact hinvokers ▸ h.count_invoked hdeclared (hitems ▸ hitem) hpiece hm
  · exact hinvokers ▸ h.mentions hdeclared (hitems ▸ hitem) hpiece hscript w
  · exact h.data hdeclared (hitems ▸ hitem) hpiece w
  · rcases h.proper hdeclared (hitems ▸ hitem) hid with hother | ⟨-, hid⟩
    · exact absurd hother (by decide)
    · exact hid
  · obtain ⟨name, pieces, hitem, hname⟩ := h.flushed_call hdeclared (hcalls ▸ hcall)
    exact ⟨name, mem_compiled.mpr ⟨pieces, hitems ▸ hitem⟩, hname⟩
  · rw [← Invokers.header, Invokers.count_lines]
    exact List.count_eq_one_of_mem (hinvokers ▸ h.invokers) hm

/-- A class whose initializer makes an object of one missing class and calls a method of it. -/
def calling : Resources := ⟨[.stored [("X.class",
  [0xca, 0xfe, 0xba, 0xbe, 0, 0, 0, 52, 0, 11] ++
  sampleText "X" ++ [7, 0, 1] ++ sampleText "D" ++ [7, 0, 3] ++ sampleText "m" ++
  sampleText "()V" ++
  [12, 0, 5, 0, 6, 10, 0, 4, 0, 7] ++ sampleText ClassDecl.initializerName ++ sampleText "Code" ++
  [0, 0, 0, 2, 0, 0, 0, 0, 0, 0, 0, 1, 0, 8, 0, 9, 0, 6, 0, 1, 0, 10, 0, 0, 0, 19, 0,
    1, 0, 0, 0, 0, 0, 7, 0xbb, 0, 4, 0xb6, 0, 8, 0xb1, 0, 0, 0, 0, 0, 0])]]⟩

theorem closed_under_linking_calling :
    ∃ p, build calling { roots := ["X"], fixed := [] } = .ok p ∧
      (p.compiled, p.stubbed, p.invokers.names) = (["X"], ["D", "java/lang/Class"], ["m__V"]) ∧
      (Library.ofResources calling).Declares p.compiled ∧
      ∃ s : Progress, s.references.next.1 = none ∧
        p.Linked { roots := ["X"], fixed := [] } s.references.names := by
  have hrun : (build calling { roots := ["X"], fixed := [] }).map
      (fun p => (p.compiled, p.stubbed, p.invokers.names)) =
      .ok (["X"], ["D", "java/lang/Class"], ["m__V"]) := by decide +kernel
  obtain ⟨p, hbuild, hseen⟩ := exists_of_map_ok hrun
  have hdeclared : (Library.ofResources calling).Declares p.compiled := by
    rw [(Prod.mk.inj hseen).1]
    exact declares_of_view (by decide +kernel)
  obtain ⟨s, -, hnext, hlinked⟩ := closed_under_linking hbuild hdeclared
  exact ⟨p, hbuild, hseen, hdeclared, s, hnext, hlinked⟩

end Program

end ClassScript
