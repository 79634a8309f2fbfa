import ClassScript.Proofs.Verdicts

/-!
When a call is direct.

A call is direct if no override of its method can come from outside: the class that declares the
method belongs to the program, and the method cannot be overridden or is not exported. The lookup,
the module and the verdicts are asked one after another, and each may end the decision. Whatever
classes fail to load, a decision that is reached is the right one; the classes that failed did not
matter to it.
-/

namespace ClassScript

/-! ### Failures that do not matter -/

section

variable {ε σ α β : Type}

/-- Whatever the first computation returns, the second returns as well. -/
def Follows (x y : ExceptT ε (StateM σ) α) : Prop :=
  ∀ ⦃s : σ⦄ ⦃a : α⦄ ⦃t : σ⦄, x s = (.ok a, t) → y s = (.ok a, t)

namespace Follows

variable {x y : ExceptT ε (StateM σ) α}

lemma refl (x : ExceptT ε (StateM σ) α) : Follows x x := fun _ _ _ h => h

lemma bind {k k' : α → ExceptT ε (StateM σ) β} (h : Follows x y) (hk : ∀ a, Follows (k a) (k' a)) :
    Follows (x >>= k) (y >>= k') := by
  intro s b u hrun
  obtain ⟨a, t, hx, hrest⟩ := bind_eq_ok hrun
  rw [bind_ok (h hx)]
  exact hk a hrest

lemma foldlM {k k' : β → α → ExceptT ε (StateM σ) β} (h : ∀ b a, Follows (k b a) (k' b a))
    (l : List α) (b : β) :
    Follows (l.foldlM k b) (l.foldlM k' b) := by
  induction l generalizing b with
  | nil => exact refl _
  | cons a l ih =>
    rw [List.foldlM_cons, List.foldlM_cons]
    exact bind (h b a) ih

end Follows

namespace Hierarchy

variable {τ : Type} {find find' : String → ExceptT ε (StateM σ) (Option ClassDecl)}
  {visit visit' : ClassDecl → τ → ExceptT ε (StateM σ) (ForInStep τ)}

lemma climb_follows (hfind : ∀ n, Follows (find n) (find' n))
    (hvisit : ∀ c s, Follows (visit c s) (visit' c s)) (fuel : Nat) (next : Option String)
    (w : Walk τ) :
    Follows (climb find visit fuel next w) (climb find' visit' fuel next w) := by
  induction fuel generalizing next w with
  | zero => exact .refl _
  | succ fuel ih =>
    cases next with
    | none => exact .refl _
    | some name =>
      obtain ⟨seen, s | s⟩ := w
      · exact .refl _
      · simp only [climb]
        split
        · exact .refl _
        · refine .bind (hfind name) fun o => ?_
          cases o with
          | none => exact .refl _
          | some c => exact .bind (hvisit c s) fun r => .bind (ih _ _) fun _ => .refl _

lemma spread_follows (hfind : ∀ n, Follows (find n) (find' n))
    (hvisit : ∀ c s, Follows (visit c s) (visit' c s)) (fuel : Nat) (names : List String)
    (w : Walk τ) :
    Follows (spread find visit fuel names w) (spread find' visit' fuel names w) := by
  induction fuel generalizing names w with
  | zero => exact .refl _
  | succ fuel ih =>
    rw [spread, spread]
    refine .foldlM (fun w name => ?_) names w
    obtain ⟨seen, s | s⟩ := w
    · exact .refl _
    · dsimp only
      split
      · exact .refl _
      · refine .bind (hfind name) fun o => ?_
        cases o with
        | none => exact .refl _
        | some c => exact .bind (hvisit c s) fun r => ih _ _

lemma walk_follows (hfind : ∀ n, Follows (find n) (find' n))
    (hvisit : ∀ c s, Follows (visit c s) (visit' c s)) (fuel : Nat) (start : String) (init : τ) :
    Follows (walk find fuel start init visit) (walk find' fuel start init visit') := by
  refine .bind (climb_follows hfind hvisit fuel _ _) fun r => ?_
  exact .bind (.foldlM (fun w c => spread_follows hfind hvisit fuel _ w) _ _) fun _ => .refl _

end Hierarchy

end

namespace Library

variable {lib : Library} {name : String} {c : ClassDecl} {o : Option ClassDecl}

/-- The library without the classes that fail to load. -/
def known (lib : Library) : Library where
  load name :=
    match lib.load name with
    | .ok o => .ok o
    | .error _ => .ok none
  reach := lib.reach

lemma known_eq_of_ok (h : lib.load name = .ok o) : lib.known.load name = .ok o := by
  simp only [known, h]

lemma known_eq_of_error {e : LoadError} (h : lib.load name = .error e) :
    lib.known.load name = .ok none := by
  simp only [known, h]

lemma exists_known (lib : Library) (name : String) : ∃ o, lib.known.load name = .ok o := by
  cases h : lib.load name with
  | ok o => exact ⟨o, known_eq_of_ok h⟩
  | error e => exact ⟨none, known_eq_of_error h⟩

lemma known_eq_some_iff : lib.known.load name = .ok (some c) ↔ lib.load name = .ok (some c) := by
  refine ⟨fun hknown => ?_, known_eq_of_ok⟩
  cases h : lib.load name with
  | ok o => rwa [known_eq_of_ok h] at hknown
  | error e => cases (known_eq_of_error h).symm.trans hknown

lemma find_follows (lib : Library) (name : String) :
    Follows (lib.find name) (lib.known.find name) := by
  intro t o t' h
  rw [find_eq] at h ⊢
  cases hknown : t.get? name with
  | some known =>
    rw [Cache.look_known hknown] at h ⊢
    exact h
  | none =>
    cases hload : lib.load name with
    | ok loaded => rwa [known_eq_of_ok hload, ← hload]
    | error e =>
      rw [Cache.look_unknown hknown, hload] at h
      cases h

end Library

lemma Query.ofLookup_follows {α : Type} {l l' : Lookup α} (h : Follows l l') :
    Follows (ofLookup l) (ofLookup l') := by
  intro k a k' hrun
  rcases hl : l k.classes with ⟨e | b, t⟩
  · rw [ofLookup, hl] at hrun
    cases hrun
  · rw [ofLookup, hl] at hrun
    cases hrun
    rw [ofLookup, h hl]

lemma Query.memoized_follows (s : Symbol) {judge judge' : Query Bool} (h : Follows judge judge') :
    Follows (memoized s judge) (memoized s judge') := by
  refine .bind (.refl _) fun k => ?_
  split
  · exact .refl _
  · exact .bind h fun _ => .refl _

namespace Exports

def known (e : Exports) : Exports := ⟨e.library.known, e.listed⟩

variable (e : Exports)

lemma find_follows (name : String) : Follows (e.find name) (e.known.find name) :=
  Query.ofLookup_follows (e.library.find_follows name)

lemma isExportedPackage_follows (package : String) :
    Follows (e.isExportedPackage package) (e.known.isExportedPackage package) := by
  refine Query.memoized_follows _ ?_
  change Follows (if e.listed.packages.contains package then _ else _)
    (if e.listed.packages.contains package then _ else _)
  split
  · exact .refl _
  · exact .bind (e.find_follows _) fun _ => .refl _

lemma isExportedClass_follows (c : ClassDecl) :
    Follows (e.isExportedClass c) (e.known.isExportedClass c) := by
  refine Query.memoized_follows _ ?_
  change Follows (if e.listed.classes.contains c.name || isMarked c.annotations then _ else _)
    (if e.listed.classes.contains c.name || isMarked c.annotations then _ else _)
  split
  · exact .refl _
  · split
    · exact .refl _
    · exact e.isExportedPackage_follows _

lemma isExportedMethod_follows (c : ClassDecl) (m : MethodDecl) :
    Follows (e.isExportedMethod c m) (e.known.isExportedMethod c m) := by
  refine Query.memoized_follows _ ?_
  split
  · exact .refl _
  · split
    · exact e.isExportedClass_follows c
    · exact .refl _

lemma isHierarchyExported_follows (c : ClassDecl) (m : MethodDecl) :
    Follows (e.isHierarchyExported c m) (e.known.isHierarchyExported c m) := by
  refine .bind (e.isExportedMethod_follows c m) fun exported => ?_
  split
  · exact .refl _
  · split
    · exact .refl _
    · refine .bind (Hierarchy.walk_follows e.find_follows (fun d s => ?_) _ _ _) fun _ => .refl _
      split
      · exact .refl _
      · exact .bind (e.isExportedMethod_follows d _) fun _ => .refl _

/-- A decision is the same without the classes that fail to load. -/
lemma dispatch_follows (scope : ModuleScope) (start name descriptor : String) :
    Follows (e.dispatch scope start name descriptor)
      (e.known.dispatch scope start name descriptor) := by
  have hmethod : Follows (e.library.findMethod start name descriptor)
      (e.library.known.findMethod start name descriptor) :=
    .bind (Hierarchy.walk_follows e.library.find_follows (fun _ _ => .refl _) _ _ _)
      fun _ => .refl _
  refine .bind (Query.ofLookup_follows hmethod) fun found => ?_
  -- each question that may end the decision has the same answer in both libraries
  rcases found with _ | ⟨c, m⟩
  · exact .refl _
  · dsimp only
    split
    · exact .refl _
    · split
      · exact .refl _
      · refine .bind (e.find_follows start) fun referenced => ?_
        split
        · split
          · exact .refl _
          · exact .bind (e.isHierarchyExported_follows c m) fun _ => .refl _
        · exact .bind (e.isHierarchyExported_follows c m) fun _ => .refl _

end Exports

/-! ### Decisions -/

namespace Exports

open Hierarchy

variable {e : Exports} {scope : ModuleScope} {start name descriptor : String}
  {chain interfaces chain' interfaces' : List (String × ClassDecl)} {c : ClassDecl} {m : MethodDecl}

/-- The method of the class cannot be overridden, or not in a receiver of the class `start`. -/
def Fixed (lib : Library) (start : String) (c : ClassDecl) (m : MethodDecl) : Prop :=
  m.isFinal = true ∨ m.isPrivate = true ∨ c.isFinal = true ∨ ∃ r, lib.load start = .ok (some r) ∧
    r.isFinal = true

/-- The class belongs to the program, and no override of its method can come from outside. -/
def Closed (e : Exports) (scope : ModuleScope) (start : String) (c : ClassDecl) (m : MethodDecl) :
    Prop :=
  scope.isExternal c.name = false ∧ (Fixed e.library start c m ∨ ¬ e.OverrideExported c m)

def declaration? (name descriptor : String) (found : List (String × ClassDecl)) :
    Option (ClassDecl × MethodDecl) :=
  (found.map Prod.snd).findSome? fun c => (c.method? name descriptor).map (c, ·)

lemma exists_of_declaration? {found : List (String × ClassDecl)}
    (h : declaration? name descriptor found = some (c, m)) :
    (∃ n, (n, c) ∈ found) ∧ c.method? name descriptor = some m := by
  obtain ⟨d, hd, hmap⟩ := List.exists_of_findSome?_eq_some h
  obtain ⟨n, hn, heq⟩ := Option.map_eq_some_iff.mp hmap
  cases heq
  obtain ⟨⟨key, d⟩, hx, rfl⟩ := List.mem_map.mp hd
  exact ⟨⟨key, hx⟩, hn⟩

lemma findMethod_returns (h : SearchOrder e.library start chain interfaces)
    (hlevels : (chain ++ interfaces).length < e.library.reach) (name descriptor : String) :
    Returns e.Knows (Query.ofLookup (e.library.findMethod start name descriptor))
      (· = declaration? name descriptor (chain ++ interfaces)) :=
  ofLookup_returns (first?_returns (fun _ _ => Library.find_returns) h hlevels _)

lemma dispatch_of_none (h : SearchOrder e.library start chain interfaces)
    (hlevels : (chain ++ interfaces).length < e.library.reach)
    (hnone : declaration? name descriptor (chain ++ interfaces) = none) :
    Returns e.Knows (e.dispatch scope start name descriptor) (· = .invoker) := by
  refine .bind (findMethod_returns h hlevels name descriptor) fun found hfound => ?_
  rw [hfound, hnone]
  exact .pure rfl

/-- The last question, when nothing else has settled the call. -/
lemma exported_returns (hjudged : e.Judged c chain' interfaces') (hc : e.library.Owns c)
    (hm : c.method? m.name m.descriptor = some m) (hprivate : m.isPrivate = false) :
    Returns e.Knows
      (do
        if ← e.isHierarchyExported c m then return Dispatch.invoker
        else return .direct : Query Dispatch)
      fun d => d = .direct ↔ ¬ e.OverrideExported c m := by
  refine .bind (isHierarchyExported_returns hjudged hc hm hprivate) fun v hv => ?_
  cases v with
  | true => exact .pure ⟨nofun, fun hnot => absurd (hv.mp rfl) hnot⟩
  | false => exact .pure ⟨fun _ hexported => Bool.false_ne_true (hv.mpr hexported), fun _ => rfl⟩

lemma dispatch_of_some (h : SearchOrder e.library start chain interfaces)
    (hlevels : (chain ++ interfaces).length < e.library.reach)
    (hsome : declaration? name descriptor (chain ++ interfaces) = some (c, m))
    {o : Option ClassDecl} (hstart : e.library.load start = .ok o)
    (hjudged : e.Judged c chain' interfaces') (hc : e.library.Owns c) :
    Returns e.Knows (e.dispatch scope start name descriptor) fun d => d = .direct ↔
      e.Closed scope start c m := by
  have hm := (exists_of_declaration? hsome).2
  obtain ⟨rfl, rfl⟩ := ClassDecl.method?_eq_some hm
  refine .bind (findMethod_returns h hlevels _ _) fun found hfound => ?_
  rw [hfound, hsome]
  dsimp only
  -- the ends of a decision in their order: external, fixed, a final receiver, the exports
  split
  next hexternal =>
    exact .pure
      ⟨nofun, fun hclosed => absurd hexternal (by rw [hclosed.1]; exact Bool.false_ne_true)⟩
  next hinternal =>
    rw [Bool.not_eq_true] at hinternal
    split
    next hfinal =>
      rw [Bool.or_eq_true, Bool.or_eq_true, or_assoc] at hfinal
      exact .pure ⟨fun _ => ⟨hinternal, .inl (hfinal.imp_right fun h => h.imp_right .inl)⟩,
        fun _ => rfl⟩
    next hopen =>
      rw [Bool.or_eq_true, Bool.or_eq_true, not_or, not_or] at hopen
      obtain ⟨⟨hmfinal, hprivate⟩, hcfinal⟩ := hopen
      have hclosed : e.Closed scope start c m ↔
          (∃ r, e.library.load start = .ok (some r) ∧ r.isFinal = true) ∨
          ¬ e.OverrideExported c m := by
        rw [Closed, Fixed, and_iff_right hinternal, or_iff_right hmfinal, or_iff_right hprivate,
          or_iff_right hcfinal]
      have hrest := exported_returns hjudged hc hm (Bool.not_eq_true _ ▸ hprivate)
      refine .bind (find_returns hstart) fun o' ho => ?_
      subst ho
      split
      next r =>
        split
        next hrfinal => exact .pure ⟨fun _ => hclosed.mpr (.inl ⟨r, hstart, hrfinal⟩), fun _ => rfl⟩
        next hrfinal =>
          refine hrest.mono fun d hd => hd.trans (hclosed.trans (or_iff_right ?_)).symm
          rintro ⟨r', hload, hfinal⟩
          cases hstart.symm.trans hload
          exact hrfinal hfinal
      next hnone =>
        refine hrest.mono fun d hd => hd.trans (hclosed.trans (or_iff_right ?_)).symm
        rintro ⟨r', hload, -⟩
        cases hstart.symm.trans hload
        exact hnone r' rfl

end Exports

/-! ### Resources -/

namespace Hierarchy

variable {lib lib' : Library} {start name : String}

lemma Above.mono (hlib : ∀ n c, lib.load n = .ok (some c) → lib'.load n = .ok (some c))
    (h : Above lib start name) :
    Above lib' start name := by
  induction h with
  | start => exact .start
  | superclass _ hload hsuper ih => exact .superclass ih (hlib _ _ hload) hsuper

lemma Asked.mono (hlib : ∀ n c, lib.load n = .ok (some c) → lib'.load n = .ok (some c))
    (h : Asked lib start name) :
    Asked lib' start name := by
  rcases h with h | h
  · exact .inl (h.mono hlib)
  · refine .inr ?_
    induction h with
    | listed habove hload hi => exact .listed (habove.mono hlib) (hlib _ _ hload) hi
    | extended _ hload hi ih => exact .extended ih (hlib _ _ hload) hi

lemma asked_known : Asked lib.known start name ↔ Asked lib start name :=
  ⟨fun h => h.mono fun _ _ => Library.known_eq_some_iff.mp, fun h => h.mono fun _ _ =>
    Library.known_eq_some_iff.mpr⟩

lemma Superclasses.known {met : List String} {next : Option String}
    {chain : List (String × ClassDecl)} (h : Superclasses lib met next chain) :
    Superclasses lib.known met next chain := by
  induction h with
  | top => exact .top
  | again hmet => exact .again hmet
  | missing hload => exact .missing (Library.known_eq_of_ok hload)
  | found hnew hload _ ih => exact .found hnew (Library.known_eq_of_ok hload) ih

lemma Preorder.known {met names : List String} {interfaces : List (String × ClassDecl)}
    (h : Preorder lib met names interfaces) : Preorder lib.known met names interfaces := by
  induction h with
  | nil => exact .nil
  | again hmet _ ih => exact .again hmet ih
  | missing hload _ ih => exact .missing (Library.known_eq_of_ok hload) ih
  | found hnew hload _ _ ih ih' => exact .found hnew (Library.known_eq_of_ok hload) ih ih'

/-- An order is the same without the classes that fail to load. -/
lemma SearchOrder.known {chain interfaces : List (String × ClassDecl)}
    (h : SearchOrder lib start chain interfaces) :
    SearchOrder lib.known start chain interfaces :=
  ⟨h.superclasses.known, h.preorder.known⟩

end Hierarchy

/-- The library has the classes of the resources, and levels for all of them. -/
structure Library.Shows (lib : Library) (r : Resources) : Prop where
  loads : ∀ n c, lib.load n = .ok (some c) → Library.loadFrom r n = .ok (some c)
  reach : lib.reach = r.size + 1

namespace Library.Shows

open Hierarchy

variable {lib : Library} {r : Resources}

lemma ofResources (r : Resources) : (Library.ofResources r).Shows r := ⟨fun _ _ h => h, rfl⟩

lemma known (h : lib.Shows r) : lib.known.Shows r :=
  ⟨fun n c hload => h.loads n c (known_eq_some_iff.mp hload), h.reach⟩

lemma eq_or_mem_of_asked (h : lib.Shows r) {start n : String} (hn : Asked lib start n) :
    n = start ∨ n ∈ r.spelled :=
  Hierarchy.eq_or_mem_of_asked (hn.mono h.loads)

lemma length_lt (h : lib.Shows r) {start : String} {chain interfaces : List (String × ClassDecl)}
    (horder : SearchOrder lib start chain interfaces) :
    (chain ++ interfaces).length < lib.reach := by
  rw [h.reach]
  exact Nat.lt_succ_of_le (horder.length_le_of (fun _ => h.eq_or_mem_of_asked) h.loads)

lemma exists_order (h : lib.Shows r) {start : String}
    (hload : ∀ n, Asked lib start n → ∃ o, lib.load n = .ok o) :
    ∃ chain interfaces, SearchOrder lib start chain interfaces :=
  exists_searchOrder (fun _ _ hn _ => List.mem_cons.mpr (h.eq_or_mem_of_asked hn)) hload

end Library.Shows

namespace Exports

open Hierarchy

/-- The method is declared by the first class in the order of the search that has it. Classes that
fail to load are passed over. -/
def Declared (lib : Library) (start name descriptor : String) (c : ClassDecl) (m : MethodDecl) :
    Prop :=
  ∃ chain interfaces, SearchOrder lib.known start chain interfaces ∧
    declaration? name descriptor (chain ++ interfaces) = some (c, m)

/-- The names that a decision may look up: those in the hierarchy of the receiver, those in the
hierarchy of the class that declares the method, and those of the packages of the latter. -/
inductive Consults (lib : Library) (start name descriptor : String) : String → Prop where
  | receiver {n : String} (h : Asked lib start n) : Consults lib start name descriptor n
  | declaring {n : String} {c : ClassDecl} {m : MethodDecl}
      (hm : Declared lib start name descriptor c m)
    (h : Asked lib c.name n) : Consults lib start name descriptor n
  | info {n : String} {c d : ClassDecl} {m : MethodDecl}
      (hm : Declared lib start name descriptor c m)
    (h : Asked lib c.name n) (hload : lib.load n = .ok (some d)) :
    Consults lib start name descriptor (infoName ((Name.package? d.name).getD ""))

variable {r : Resources} {listed : ExportList} {scope : ModuleScope}
  {start name descriptor : String}
  {c : ClassDecl} {m : MethodDecl}

lemma Declared.exists_load {lib : Library} (h : Declared lib start name descriptor c m) :
    ∃ n, Asked lib start n ∧ lib.load n = .ok (some c) ∧ c.method? name descriptor = some m := by
  obtain ⟨chain, interfaces, horder, hfound⟩ := h
  obtain ⟨⟨n, hx⟩, hm⟩ := exists_of_declaration? hfound
  obtain ⟨hasked, hload⟩ := (horder.mem_iff_asked n c).mp hx
  exact ⟨n, asked_known.mp hasked, Library.known_eq_some_iff.mp hload, hm⟩

/-- A hierarchy can be judged if its classes declare the names they are found under, and no name
that is asked for fails to load. -/
lemma exists_judged {lib : Library} (hlib : lib.Shows r)
    (hnamed : ∀ n d, Asked lib c.name n → lib.load n = .ok (some d) → d.name = n)
    (hload : ∀ n, Asked lib c.name n → ∃ o, lib.load n = .ok o)
    (hinfo : ∀ n d, Asked lib c.name n → lib.load n = .ok (some d) →
      ∃ o, lib.load (infoName ((Name.package? d.name).getD "")) = .ok o) :
    ∃ chain interfaces, Judged ⟨lib, listed⟩ c chain interfaces := by
  obtain ⟨chain, interfaces, horder⟩ := hlib.exists_order hload
  refine ⟨chain, interfaces, horder, hlib.length_lt horder, fun x hx => ?_, fun x hx => ?_⟩
  · obtain ⟨hasked, hx⟩ := (horder.mem_iff_asked x.1 x.2).mp hx
    rw [Library.Owns, hnamed _ _ hasked hx]
    exact hx
  · obtain ⟨hasked, hx⟩ := (horder.mem_iff_asked x.1 x.2).mp hx
    exact hinfo _ _ hasked hx

section Known

variable {e : Exports}

lemma packageExported_known {package : String} :
    e.known.PackageExported package ↔ e.PackageExported package := by
  simp only [PackageExported, known, Library.known_eq_some_iff]

lemma methodExported_known : e.known.MethodExported c m ↔ e.MethodExported c m := by
  simp only [MethodExported, ClassExported, packageExported_known]
  rfl

lemma overrideExported_known : e.known.OverrideExported c m ↔ e.OverrideExported c m := by
  simp only [OverrideExported, methodExported_known]
  simp only [known, asked_known, Library.known_eq_some_iff]

lemma closed_known : e.known.Closed scope start c m ↔ e.Closed scope start c m := by
  simp only [Closed, Fixed, overrideExported_known]
  simp only [known, Library.known_eq_some_iff]

end Known

def decision (r : Resources) (listed : ExportList) (scope : ModuleScope)
    (start name descriptor : String) :
    Except LoadError Dispatch :=
  (dispatch ⟨.ofResources r, listed⟩ scope start name descriptor {}).1

/-- What is decided without the classes that fail to load is what is decided. -/
lemma decision_of_returns {Q : Dispatch → Prop}
    (h : Returns (known ⟨.ofResources r, listed⟩).Knows
      ((known ⟨.ofResources r, listed⟩).dispatch scope start name descriptor) Q)
    {d : Dispatch} (hd : decision r listed scope start name descriptor = .ok d) : Q d := by
  rcases hrun : dispatch ⟨.ofResources r, listed⟩ scope start name descriptor {} with ⟨result, k⟩
  rw [decision, hrun] at hd
  subst hd
  have hknown := dispatch_follows _ scope start name descriptor hrun
  obtain ⟨d', k', hrun', -, hQ⟩ := h {} knows_nothing
  cases hknown.symm.trans hrun'
  exact hQ

lemma decision_of_undeclared (hm : ∀ c m, ¬ Declared (.ofResources r) start name descriptor c m)
    {d : Dispatch} (hd : decision r listed scope start name descriptor = .ok d) : d = .invoker := by
  have hshows := (Library.Shows.ofResources r).known
  obtain ⟨chain, interfaces, horder⟩ : ∃ chain interfaces,
      SearchOrder (Library.ofResources r).known start chain interfaces :=
    hshows.exists_order fun n _ => Library.exists_known _ n
  have hnone : declaration? name descriptor (chain ++ interfaces) = none :=
    Option.eq_none_iff_forall_ne_some.mpr fun x hx => hm x.1 x.2 ⟨chain, interfaces, horder, hx⟩
  exact decision_of_returns (dispatch_of_none horder (hshows.length_lt horder) hnone) hd

section Named

variable (hnamed : ∀ n d, Consults (.ofResources r) start name descriptor n →
  Library.loadFrom r n = .ok (some d) → d.name = n)

include hnamed

lemma Declared.owns (h : Declared (.ofResources r) start name descriptor c m) :
    (Library.ofResources r).Owns c := by
  obtain ⟨n, hasked, hload, -⟩ := h.exists_load
  rw [Library.Owns, hnamed n c (.receiver hasked) hload]
  exact hload

lemma decision_of_declared (hm : Declared (.ofResources r) start name descriptor c m) {d : Dispatch}
    (hd : decision r listed scope start name descriptor = .ok d) :
    d = .direct ↔ Closed ⟨.ofResources r, listed⟩ scope start c m := by
  have hshows := (Library.Shows.ofResources r).known
  obtain ⟨chain, interfaces, horder, hfound⟩ := id hm
  obtain ⟨chain', interfaces', hjudged⟩ : ∃ chain interfaces,
      Judged (known ⟨.ofResources r, listed⟩) c chain interfaces :=
    exists_judged hshows
      (fun n d hn hd => hnamed n d (.declaring hm (asked_known.mp hn))
        (Library.known_eq_some_iff.mp hd))
      (fun n _ => Library.exists_known _ n) fun n d _ _ => Library.exists_known _ _
  obtain ⟨o, hstart⟩ := Library.exists_known (.ofResources r) start
  have howns : (Library.ofResources r).known.Owns c := Library.known_eq_of_ok (hm.owns hnamed)
  rw [← closed_known]
  exact decision_of_returns
    (dispatch_of_some horder (hshows.length_lt horder) hfound hstart hjudged howns) hd

lemma exists_decision (hload : ∀ n, Consults (.ofResources r) start name descriptor n →
    ∃ o, (Library.ofResources r).load n = .ok o) : ∃ d, decision r listed scope start name
      descriptor = .ok d := by
  have hshows := Library.Shows.ofResources r
  obtain ⟨chain, interfaces, horder⟩ := hshows.exists_order fun n hn => hload n (.receiver hn)
  have hlevels := hshows.length_lt horder
  have hreturns : ∃ Q, Returns (Knows ⟨.ofResources r, listed⟩)
      (dispatch ⟨.ofResources r, listed⟩ scope start name descriptor) Q := by
    rcases hfound : declaration? name descriptor (chain ++ interfaces) with _ | ⟨c, m⟩
    · exact ⟨_, dispatch_of_none horder hlevels hfound⟩
    · have hm : Declared (.ofResources r) start name descriptor c m :=
        ⟨chain, interfaces, horder.known, hfound⟩
      obtain ⟨chain', interfaces', hjudged⟩ : ∃ chain interfaces,
          Judged ⟨.ofResources r, listed⟩ c chain interfaces :=
        exists_judged hshows (fun n d hn => hnamed n d (.declaring hm hn))
          (fun n hn => hload n (.declaring hm hn))
          fun n d hn hd => hload _ (.info hm hn hd)
      obtain ⟨o, hstart⟩ := hload start (.receiver (.inl .start))
      exact ⟨_, dispatch_of_some horder hlevels hfound hstart hjudged (hm.owns hnamed)⟩
  obtain ⟨Q, hreturns⟩ := hreturns
  obtain ⟨d, k, hrun, -, -⟩ := hreturns {} knows_nothing
  exact ⟨d, by rw [decision, hrun]⟩

lemma decision_direct_iff {d : Dispatch}
    (hd : decision r listed scope start name descriptor = .ok d) :
    d = .direct ↔ ∃ c m, Declared (.ofResources r) start name descriptor c m ∧
      Closed ⟨.ofResources r, listed⟩ scope start c m := by
  constructor
  · rintro rfl
    by_contra hnone
    refine nomatch decision_of_undeclared (fun c m hm => hnone ⟨c, m, hm, ?_⟩) hd
    exact (decision_of_declared hnamed hm hd).mp rfl
  · rintro ⟨c, m, hm, hclosed⟩
    exact (decision_of_declared hnamed hm hd).mpr hclosed

end Named

/-! ### Longer lists -/

section Longer

variable {lib : Library} {listed' : ExportList} (hclasses : listed.classes ⊆ listed'.classes)
  (hpackages : listed.packages ⊆ listed'.packages)

include hclasses hpackages

lemma ClassExported.mono (h : ClassExported ⟨lib, listed⟩ c) : ClassExported ⟨lib, listed'⟩ c :=
  h.imp (fun hmem => hclasses hmem) fun h => h.imp_right fun h =>
    ⟨h.1, h.2.imp_left fun hmem => hpackages hmem⟩

lemma MethodExported.mono (h : MethodExported ⟨lib, listed⟩ c m) :
    MethodExported ⟨lib, listed'⟩ c m :=
  h.imp_right fun h => ⟨h.1, h.2.mono hclasses hpackages⟩

lemma OverrideExported.mono (h : OverrideExported ⟨lib, listed⟩ c m) :
    OverrideExported ⟨lib, listed'⟩ c m := by
  revert h
  rw [OverrideExported, OverrideExported]
  split
  · exact fun h => h.mono hclasses hpackages
  · rintro ⟨n, d, m', hasked, hload, hm', hexported⟩
    exact ⟨n, d, m', hasked, hload, hm', hexported.mono hclasses hpackages⟩

/-- What is closed in spite of a list is closed in spite of a shorter one. -/
lemma Closed.anti (h : Closed ⟨lib, listed'⟩ scope start c m) :
    Closed ⟨lib, listed⟩ scope start c m :=
  ⟨h.1, h.2.imp_right fun hnot hexported => hnot (hexported.mono hclasses hpackages)⟩

end Longer

/-- A visible method is exported with its class. -/
lemma overrideExported_of_listed {e : Exports} (hc : e.library.Owns c)
    (hm : c.method? m.name m.descriptor = some m)
    (hvisible : Access.meets m.access Access.visible = true) (hlisted : c.name ∈ e.listed.classes) :
    e.OverrideExported c m := by
  have hexported : e.MethodExported c m := .inr ⟨hvisible, .inl hlisted⟩
  rw [OverrideExported]
  split
  · exact hexported
  · exact ⟨c.name, c, m, .inl .start, hc, hm, hexported⟩

end Exports

namespace ExportList

variable {names names' : List String}

lemma classes_subset (h : names ⊆ names') : (ofNames names).classes ⊆ (ofNames names').classes :=
  List.filter_subset _ h

lemma packages_subset (h : names ⊆ names') : (ofNames names).packages ⊆ (ofNames names').packages :=
  List.filterMap_subset _ h

end ExportList

namespace Exports

open Hierarchy

variable {r : Resources} {start name descriptor : String}

/-- **A call is direct exactly if no override of its method can come from outside.** A decision
that is reached is right, and one is reached unless a class fails to load. Exporting more never
makes a call direct, and exporting the class of a visible method that can be overridden ends direct
calls of it. -/
theorem dispatch_exact (r : Resources) (names : List String) (scope : ModuleScope)
    (start name descriptor : String)
    (hnamed : ∀ n d, Consults (.ofResources r) start name descriptor n →
      Library.loadFrom r n = .ok (some d) → d.name = n) :
    (∀ d, decision r (.ofNames names) scope start name descriptor = .ok d →
      (d = .direct ↔ ∃ c m, Declared (.ofResources r) start name descriptor c m ∧
        Closed ⟨.ofResources r, .ofNames names⟩ scope start c m)) ∧
    ((∀ n, Consults (.ofResources r) start name descriptor n → ∃ o, Library.loadFrom r n = .ok o) →
      ∃ d, decision r (.ofNames names) scope start name descriptor = .ok d) ∧
    (∀ names', names ⊆ names' → decision r (.ofNames names) scope start name descriptor =
      .ok .invoker →
      decision r (.ofNames names') scope start name descriptor ≠ .ok .direct) ∧
    ∀ c m, Declared (.ofResources r) start name descriptor c m →
      ¬ Fixed (.ofResources r) start c m →
      Access.meets m.access Access.visible = true → ExportList.package? c.name = none →
      decision r (.ofNames (c.name :: names)) scope start name descriptor ≠ .ok .direct := by
  refine ⟨fun d => decision_direct_iff hnamed, exists_decision hnamed,
    fun names' hsub hbefore hafter => ?_, ?_⟩
  · obtain ⟨c, m, hm, hclosed⟩ := (decision_direct_iff hnamed hafter).mp rfl
    have hbefore' := (decision_of_declared hnamed hm hbefore).mpr
      (hclosed.anti (ExportList.classes_subset hsub) (ExportList.packages_subset hsub))
    cases hbefore'
  · intro c m hm hfixed hvisible hname hdirect
    have hlisted : c.name ∈ (ExportList.ofNames (c.name :: names)).classes :=
      List.mem_filter.mpr ⟨List.mem_cons_self, by rw [hname]; rfl⟩
    obtain ⟨-, -, -, hmethod⟩ := hm.exists_load
    obtain ⟨rfl, rfl⟩ := ClassDecl.method?_eq_some hmethod
    rcases ((decision_of_declared hnamed hm hdirect).mp rfl).2 with h | h
    · exact hfixed h
    · exact h (overrideExported_of_listed (hm.owns hnamed) hmethod hvisible hlisted)

def consultable (r : Resources) (start : String) : List String :=
  start :: (r.spelled ++ r.spelled.map fun n => infoName ((Name.package? n).getD ""))

lemma Consults.mem_consultable {n : String}
    (h : Consults (.ofResources r) start name descriptor n) :
    n ∈ consultable r start := by
  have hspelled {n : String} (h : n ∈ r.spelled) : n ∈ consultable r start :=
    List.mem_cons_of_mem _ (List.mem_append_left _ h)
  have hname {n : String} {d : ClassDecl} (h : Library.loadFrom r n = .ok (some d)) :
      d.name ∈ r.spelled :=
    (Library.spells_of_loadFrom h).2 (Library.spells_of_loadFrom h).1.name
  cases h with
  | receiver hasked =>
    rcases eq_or_mem_of_asked hasked with rfl | hmem
    · exact List.mem_cons_self
    · exact hspelled hmem
  | declaring hm hasked =>
    obtain ⟨n', -, hload, -⟩ := hm.exists_load
    rcases eq_or_mem_of_asked hasked with rfl | hmem
    · exact hspelled (hname hload)
    · exact hspelled hmem
  | info hm hasked hload =>
    exact List.mem_cons_of_mem _ (List.mem_append_right _ (List.mem_map_of_mem (hname hload)))

def openFile (name superName : String) : Bytes :=
  [0xca, 0xfe, 0xba, 0xbe, 0, 0, 0, 52, 0, 7] ++
  Program.sampleText name ++ [7, 0, 1] ++ Program.sampleText superName ++ [7, 0, 3] ++
  Program.sampleText "f" ++ Program.sampleText "()V" ++
  [0, 1, 0, 2, 0, 4, 0, 0, 0, 0, 0, 1, 4, 1, 0, 5, 0, 6, 0, 0, 0, 0]

/-- `A` overrides the method of `p/B`; the superclass of the latter is missing. -/
def overriding : Resources :=
  ⟨[.stored [("A.class", openFile "A" "p/B"), ("p/B.class", openFile "p/B" "Z")]]⟩

lemma overriding_loads {n : String} (h : n ∈ consultable overriding "A") :
    ∃ o, Library.loadFrom overriding n = .ok o ∧ ∀ d, o = some d → d.name = n := by
  have hall : ∀ n ∈ consultable overriding "A",
      ((Library.loadFrom overriding n).toOption.map fun o => o.all (·.name == n)) = some true := by
    decide +kernel
  have hn := hall n h
  cases hload : Library.loadFrom overriding n with
  | error e =>
    rw [hload] at hn
    cases hn
  | ok o =>
    rw [hload] at hn
    refine ⟨o, rfl, ?_⟩
    rintro d rfl
    exact beq_iff_eq.mp (Option.some.inj hn)

/-- The call is direct until the package of the method that is overridden is exported, or the class
of the one that overrides it. -/
theorem dispatch_exact_overriding :
    let scope : ModuleScope := ⟨.extension, ["A"]⟩
    (∃ c m, Declared (.ofResources overriding) "A" "f" "()V" c m ∧
      Closed ⟨.ofResources overriding, .ofNames []⟩ scope "A" c m) ∧
    decision overriding (.ofNames []) scope "A" "f" "()V" = .ok .direct ∧
    (∀ names, "p/" ∈ names → decision overriding (.ofNames names) scope "A" "f" "()V" =
      .ok .invoker) ∧
    ∀ names, decision overriding (.ofNames ("A" :: names)) scope "A" "f" "()V" = .ok .invoker := by
  intro scope
  have hnamed : ∀ n d, Consults (.ofResources overriding) "A" "f" "()V" n →
      Library.loadFrom overriding n = .ok (some d) → d.name = n := by
    intro n d hn hload
    obtain ⟨o, ho, hname⟩ := overriding_loads hn.mem_consultable
    exact hname d (Except.ok.inj (ho.symm.trans hload))
  have hexact (names : List String) := dispatch_exact overriding names scope "A" "f" "()V" hnamed
  have hinvoker {names : List String}
      (hnot : decision overriding (.ofNames names) scope "A" "f" "()V" ≠ .ok .direct) :
      decision overriding (.ofNames names) scope "A" "f" "()V" = .ok .invoker := by
    obtain ⟨d, hd⟩ :=
      (hexact names).2.1 fun n hn => (overriding_loads hn.mem_consultable).imp fun _ h => h.1
    cases d with
    | direct => exact absurd hd hnot
    | invoker => exact hd
  have hdirect : decision overriding (.ofNames []) scope "A" "f" "()V" = .ok .direct := by
    decide +kernel
  have hpackage : decision overriding (.ofNames ["p/"]) scope "A" "f" "()V" = .ok .invoker := by
    decide +kernel
  have hclosed := ((hexact []).1 _ hdirect).mp rfl
  refine ⟨hclosed, hdirect, fun names hp => hinvoker ?_, fun names => hinvoker ?_⟩
  · exact (hexact ["p/"]).2.2.1 names (List.cons_subset.mpr ⟨hp, List.nil_subset _⟩) hpackage
  · obtain ⟨c, m, hm, hinternal, -⟩ := hclosed
    have hname : c.name = "A" := by simpa [scope, ModuleScope.isExternal] using hinternal
    have hload := hm.owns hnamed
    obtain ⟨-, -, -, hmethod⟩ := hm.exists_load
    have hview : (Library.ofResources overriding).view
        (fun c => (c.isFinal, (c.method? "f" "()V").map fun m =>
          (m.isFinal, m.isPrivate, Access.meets m.access Access.visible))) "A" =
        some (false, some (false, false, true)) := by
      decide +kernel
    rw [Library.Owns, hname] at hload
    rw [Library.view_eq_some hload, hmethod] at hview
    simp only [Option.map_some, Option.some.injEq, Prod.mk.injEq] at hview
    obtain ⟨hcfinal, hmfinal, hprivate, hvisible⟩ := hview
    have hfixed : ¬ Fixed (.ofResources overriding) "A" c m := by
      rintro (h | h | h | ⟨r, hr, h⟩)
      · cases hmfinal.symm.trans h
      · cases hprivate.symm.trans h
      · cases hcfinal.symm.trans h
      · cases hload.symm.trans hr
        cases hcfinal.symm.trans h
    have hnot := (hexact names).2.2.2 c m hm hfixed hvisible (by rw [hname]; decide)
    rwa [hname] at hnot

end Exports

end ClassScript
