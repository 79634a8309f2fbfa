import ClassScript.Proofs.Traversal

/-!
What is exported, and what is remembered of it.

A verdict is passed once and kept under the name of the symbol. As long as every class is found
under the name it declares, what is kept is what would be judged anew; so a verdict does not depend
on what was asked before.
-/

namespace ClassScript

def Library.Owns (lib : Library) (c : ClassDecl) : Prop := lib.load c.name = .ok (some c)

namespace Exports

/-! ### What is exported -/

def PackageExported (e : Exports) (package : String) : Prop :=
  package ∈ e.listed.packages ∨
    ∃ c, e.library.load (infoName package) = .ok (some c) ∧ isMarked c.annotations = true

def ClassExported (e : Exports) (c : ClassDecl) : Prop :=
  c.name ∈ e.listed.classes ∨ isMarked c.annotations = true ∨
    c.isPublic = true ∧ e.PackageExported ((Name.package? c.name).getD "")

def MethodExported (e : Exports) (c : ClassDecl) (m : MethodDecl) : Prop :=
  isMarked m.annotations = true ∨ Access.meets m.access Access.visible = true ∧ e.ClassExported c

/-- The method, or one that it overrides, is exported. A static method overrides none. Of two
declarations in one class the first counts. -/
def OverrideExported (e : Exports) (c : ClassDecl) (m : MethodDecl) : Prop :=
  if m.isStatic then e.MethodExported c m
  else ∃ name d n, Hierarchy.Asked e.library c.name name ∧ e.library.load name = .ok (some d) ∧
    d.method? m.name m.descriptor = some n ∧ e.MethodExported d n

/-! ### What is remembered -/

/-- The verdict on a symbol says what is exported. No call asks about fields. -/
def Right (e : Exports) : Symbol → Bool → Prop
  | .package package, v => v = true ↔ e.PackageExported package
  | .classDecl name, v => ∀ c, e.library.Owns c → c.name = name → (v = true ↔ e.ClassExported c)
  | .field _ _, _ => True
  | .method owner name descriptor, v => ∀ c m, e.library.Owns c → c.name = owner →
      c.method? name descriptor = some m → (v = true ↔ e.MethodExported c m)

/-- The classes met are those of the library, and the verdicts passed are right. -/
structure Knows (e : Exports) (k : Knowledge) : Prop where
  classes : k.classes.Holds e.library
  verdicts : ∀ s v, k.verdicts.get? s = some v → e.Right s v

variable {e : Exports}

lemma knows_nothing : e.Knows {} where
  classes := by rintro n v ⟨⟩
  verdicts := by rintro s v ⟨⟩

lemma ofLookup_returns {α : Type} {l : Lookup α} {Q : α → Prop}
    (h : Returns (Cache.Holds e.library) l Q) :
    Returns e.Knows (Query.ofLookup l) Q := by
  intro k hk
  obtain ⟨a, t, hl, ht, ha⟩ := h k.classes hk.classes
  exact ⟨a, { k with classes := t }, by rw [Query.ofLookup, hl], ⟨ht, hk.verdicts⟩, ha⟩

lemma find_returns {name : String} {o : Option ClassDecl} (h : e.library.load name = .ok o) :
    Returns e.Knows (e.find name) (· = o) :=
  ofLookup_returns (Library.find_returns h)

/-- A verdict is right if it is judged rightly when it is passed. -/
lemma memoized_returns {s : Symbol} {judge : Query Bool} (h : Returns e.Knows judge (e.Right s)) :
    Returns e.Knows (Query.memoized s judge) (e.Right s) := by
  intro k hk
  have hget : (get : Query Knowledge) k = (.ok k, k) := rfl
  rw [Query.memoized, bind_ok hget]
  cases hknown : k.verdicts.get? s with
  | some v => exact ⟨v, k, rfl, hk, hk.verdicts s v hknown⟩
  | none =>
    obtain ⟨v, k', hjudge, hk', hv⟩ := h k hk
    refine ⟨v, { k' with verdicts := k'.verdicts.insert s v }, ?_,
      ⟨hk'.classes, fun s' v' hget' => ?_⟩, hv⟩
    · dsimp only
      rw [bind_ok hjudge]
      rfl
    · by_cases hs : s' = s
      · subst hs
        rw [Table.get?_insert_self] at hget'
        cases hget'
        exact hv
      · rw [Table.get?_insert_of_ne _ _ hs] at hget'
        exact hk'.verdicts s' v' hget'

lemma isExportedPackage_returns {package : String} {o : Option ClassDecl}
    (h : e.library.load (infoName package) = .ok o) :
    Returns e.Knows (e.isExportedPackage package) fun v => v = true ↔
      e.PackageExported package := by
  refine memoized_returns ?_
  split
  next hlisted => exact .pure ⟨fun _ => .inl (List.contains_iff_mem.mp hlisted), fun _ => rfl⟩
  next hlisted =>
    have hnot : package ∉ e.listed.packages := fun hmem => hlisted (List.contains_iff_mem.mpr hmem)
    refine .bind (find_returns h) fun o' ho => ?_
    subst ho
    cases o' with
    | none =>
      refine .pure ⟨nofun, ?_⟩
      rintro (hmem | ⟨c, hload, -⟩)
      · exact absurd hmem hnot
      · cases h.symm.trans hload
    | some c =>
      refine .pure ⟨fun hmarked => .inr ⟨c, h, hmarked⟩, ?_⟩
      rintro (hmem | ⟨c', hload, hmarked⟩)
      · exact absurd hmem hnot
      · cases h.symm.trans hload
        exact hmarked

/-- The class is the one that a verdict on its name is about. -/
lemma right_classDecl {c : ClassDecl} (hc : e.library.Owns c) {v : Bool} :
    e.Right (.classDecl c.name) v ↔ (v = true ↔ e.ClassExported c) := by
  refine ⟨fun h => h c hc rfl, fun h c' hc' hname => ?_⟩
  rw [Library.Owns, hname] at hc'
  cases hc.symm.trans hc'
  exact h

lemma isExportedClass_returns {c : ClassDecl} (hc : e.library.Owns c) {o : Option ClassDecl}
    (h : e.library.load (infoName ((Name.package? c.name).getD "")) = .ok o) :
    Returns e.Knows (e.isExportedClass c) fun v => v = true ↔ e.ClassExported c := by
  refine (memoized_returns (s := .classDecl c.name) ?_).mono fun v => (right_classDecl hc).mp
  -- a listed class is exported; another needs to be public in an exported package
  split
  next hlisted =>
    rw [Bool.or_eq_true, List.contains_iff_mem] at hlisted
    refine .pure ((right_classDecl hc).mpr ⟨fun _ => ?_, fun _ => rfl⟩)
    exact hlisted.imp_right .inl
  next hlisted =>
    rw [Bool.or_eq_true, List.contains_iff_mem, not_or] at hlisted
    have hopen : e.ClassExported c ↔
        c.isPublic = true ∧ e.PackageExported ((Name.package? c.name).getD "") := by
      rw [ClassExported, or_iff_right hlisted.1, or_iff_right hlisted.2]
    split
    next hprivate =>
      refine .pure ((right_classDecl hc).mpr ?_)
      rw [hopen]
      rw [Bool.not_eq_true'] at hprivate
      exact ⟨nofun, fun h => absurd h.1 (Bool.not_eq_true _ ▸ hprivate)⟩
    next hpublic =>
      refine (isExportedPackage_returns h).mono fun v hv => (right_classDecl hc).mpr ?_
      rw [Bool.not_eq_true, Bool.not_eq_false'] at hpublic
      rw [hopen, hv, and_iff_right hpublic]

lemma right_method {c : ClassDecl} {m : MethodDecl} (hc : e.library.Owns c)
    (hm : c.method? m.name m.descriptor = some m) {v : Bool} :
    e.Right (.method c.name m.name m.descriptor) v ↔ (v = true ↔ e.MethodExported c m) := by
  refine ⟨fun h => h c m hc rfl hm, fun h c' m' hc' hname hm' => ?_⟩
  rw [Library.Owns, hname] at hc'
  cases hc.symm.trans hc'
  cases hm.symm.trans hm'
  exact h

lemma isExportedMethod_returns {c : ClassDecl} {m : MethodDecl} (hc : e.library.Owns c)
    (hm : c.method? m.name m.descriptor = some m) {o : Option ClassDecl}
    (h : e.library.load (infoName ((Name.package? c.name).getD "")) = .ok o) :
    Returns e.Knows (e.isExportedMethod c m) fun v => v = true ↔ e.MethodExported c m := by
  refine (memoized_returns (s := .method c.name m.name m.descriptor) ?_).mono fun v =>
    (right_method hc hm).mp
  split
  next hmarked => exact .pure ((right_method hc hm).mpr ⟨fun _ => .inl hmarked, fun _ => rfl⟩)
  next hmarked =>
    have hopen : e.MethodExported c m ↔ Access.meets m.access Access.visible = true ∧
        e.ClassExported c := by
      rw [MethodExported, or_iff_right hmarked]
    split
    next hvisible =>
      refine (isExportedClass_returns hc h).mono fun v hv => (right_method hc hm).mpr ?_
      rw [hopen, hv, and_iff_right hvisible]
    next hvisible =>
      refine .pure ((right_method hc hm).mpr ?_)
      rw [hopen]
      exact ⟨nofun, fun h => absurd h.1 hvisible⟩

/-! ### Hierarchies -/

end Exports

lemma ClassDecl.method?_eq_some {c : ClassDecl} {name descriptor : String} {m : MethodDecl}
    (h : c.method? name descriptor = some m) : m.name = name ∧ m.descriptor = descriptor := by
  have hfound := List.find?_some h
  rwa [Bool.and_eq_true, beq_iff_eq, beq_iff_eq] at hfound

namespace Exports

open Hierarchy

variable {e : Exports} {c : ClassDecl} {m : MethodDecl}
  {chain interfaces : List (String × ClassDecl)}

def Exposes (e : Exports) (name descriptor : String) (d : ClassDecl) : Prop :=
  ∃ n, d.method? name descriptor = some n ∧ e.MethodExported d n

open Classical in
noncomputable def expose (e : Exports) (name descriptor : String) (d : ClassDecl) (_ : Bool) :
    ForInStep Bool :=
  if e.Exposes name descriptor d then .done true else .yield false

lemma value_visitAll_expose (name descriptor : String) (cs : List ClassDecl) :
    (visitAll (e.expose name descriptor) cs false).value = true ↔
      ∃ d ∈ cs, e.Exposes name descriptor d := by
  induction cs with
  | nil => simp [visitAll, ForInStep.value]
  | cons d cs ih =>
    rw [visitAll_cons, expose]
    split
    next hd => exact ⟨fun _ => ⟨d, List.mem_cons_self, hd⟩, fun _ => rfl⟩
    next hd =>
      rw [resume, ih]
      simp [hd]

/-- The hierarchy of a class is open to judgement: the walk from the class has the order of
`chain` and `interfaces`, each of these classes is found under its own name, and so is what
its package says. -/
structure Judged (e : Exports) (c : ClassDecl)
    (chain interfaces : List (String × ClassDecl)) : Prop where
  order : SearchOrder e.library c.name chain interfaces
  levels : (chain ++ interfaces).length < e.library.reach
  owns : ∀ x ∈ chain ++ interfaces, e.library.Owns x.2
  info : ∀ x ∈ chain ++ interfaces, ∃ o,
    e.library.load (infoName ((Name.package? x.2.name).getD "")) = .ok o

lemma Judged.exists_mem_iff (h : e.Judged c chain interfaces) {P : ClassDecl → Prop} :
    (∃ d ∈ (chain ++ interfaces).map Prod.snd, P d) ↔
      ∃ name d, Asked e.library c.name name ∧ e.library.load name = .ok (some d) ∧ P d := by
  constructor
  · rintro ⟨d, hd, hP⟩
    obtain ⟨⟨name, d⟩, hx, rfl⟩ := List.mem_map.mp hd
    obtain ⟨hname, hload⟩ := (h.order.mem_iff_asked name d).mp hx
    exact ⟨name, d, hname, hload, hP⟩
  · rintro ⟨name, d, hname, hload, hP⟩
    exact ⟨d, List.mem_map_of_mem ((h.order.mem_iff_asked name d).mpr ⟨hname, hload⟩), hP⟩

/-- A class that is found under its own name is the first of its hierarchy. -/
lemma Judged.mem_self (h : e.Judged c chain interfaces) (hc : e.library.Owns c) :
    (c.name, c) ∈ chain ++ interfaces :=
  (h.order.mem_iff_asked c.name c).mpr ⟨.inl .start, hc⟩

def inspect (e : Exports) (name descriptor : String) (d : ClassDecl) (_ : Bool) :
    Query (ForInStep Bool) := do
  match d.method? name descriptor with
  | none => return .yield false
  | some n => if ← e.isExportedMethod d n then return .done true else return .yield false

lemma inspect_returns {d : ClassDecl} (hd : e.library.Owns d) {o : Option ClassDecl}
    (hinfo : e.library.load (infoName ((Name.package? d.name).getD "")) = .ok o)
    (name descriptor : String) (s : Bool) :
    Returns e.Knows (e.inspect name descriptor d s) (· = e.expose name descriptor d s) := by
  rw [inspect, expose]
  cases hn : d.method? name descriptor with
  | none =>
    refine .pure (if_neg ?_).symm
    rintro ⟨n, hsome, -⟩
    cases hn.symm.trans hsome
  | some n =>
    obtain ⟨rfl, rfl⟩ := ClassDecl.method?_eq_some hn
    refine .bind (isExportedMethod_returns hd hn hinfo) fun v hv => ?_
    split
    next htrue => exact .pure (if_pos ⟨n, hn, hv.mp htrue⟩).symm
    next hfalse =>
      refine .pure (if_neg ?_).symm
      rintro ⟨n', hsome, hexported⟩
      cases hn.symm.trans hsome
      exact hfalse (hv.mpr hexported)

/-- **A hierarchy is judged by all its declarations of the method.** -/
lemma isHierarchyExported_returns (h : e.Judged c chain interfaces) (hc : e.library.Owns c)
    (hm : c.method? m.name m.descriptor = some m) (hprivate : m.isPrivate = false) :
    Returns e.Knows (e.isHierarchyExported c m) fun v => v = true ↔ e.OverrideExported c m := by
  obtain ⟨o, hinfo⟩ := h.info _ (h.mem_self hc)
  have hwalk :
      Returns e.Knows (walk e.find e.library.reach c.name false (e.inspect m.name m.descriptor))
      (· = visitAll (e.expose m.name m.descriptor) ((chain ++ interfaces).map Prod.snd) false) := by
    refine walk_returns_of_mem (fun n o hn => find_returns hn) h.order
      (fun x hx s => ?_) h.levels false
    obtain ⟨o, hinfo⟩ := h.info x hx
    exact inspect_returns (h.owns x hx) hinfo m.name m.descriptor s
  have hself : e.MethodExported c m → ∃ d ∈ (chain ++ interfaces).map Prod.snd,
      e.Exposes m.name m.descriptor d :=
    fun hexported => ⟨c, List.mem_map_of_mem (h.mem_self hc), m, hm, hexported⟩
  have hover : m.isStatic = false → (e.OverrideExported c m ↔
      ∃ d ∈ (chain ++ interfaces).map Prod.snd, e.Exposes m.name m.descriptor d) := by
    intro hstatic
    rw [OverrideExported, hstatic, if_neg Bool.false_ne_true, h.exists_mem_iff]
    simp only [Exposes, exists_and_left]
  refine .bind (isExportedMethod_returns hc hm hinfo) fun v hv => ?_
  -- a static method overrides nothing, so its own verdict stands
  cases hstatic : m.isStatic with
  | true =>
    have hown : e.OverrideExported c m ↔ e.MethodExported c m := by
      rw [OverrideExported, if_pos hstatic]
    cases v with
    | true => exact .pure (hv.trans hown.symm)
    | false =>
      simp only [hprivate, Bool.false_or, Bool.false_eq_true, if_false, if_true]
      exact .pure (hv.trans hown.symm)
  | false =>
    cases v with
    | true => exact .pure ⟨fun _ => (hover hstatic).mpr (hself (hv.mp rfl)), fun _ => rfl⟩
    | false =>
      simp only [hprivate, Bool.or_self, Bool.false_eq_true, if_false]
      refine .bind hwalk fun r hr => .pure ?_
      rw [hr, value_visitAll_expose, hover hstatic]

end Exports

end ClassScript
