import ClassScript.Dispatch
import ClassScript.Proofs.Tables
import ClassScript.Proofs.Triples

/-!
What look-ups leave behind.

Whatever is asked about classes, the memory of those met only grows, and it holds nothing but
what the library has under each name.
-/

namespace ClassScript

/-- The cache says of each name what the library has. -/
def Cache.Holds (lib : Library) (t : Cache) : Prop :=
  ∀ {name v}, t.get? name = some v → lib.load name = .ok v

/-- One cache after another: the names met stay, and what is added is what the library has. -/
structure Cache.Grows (lib : Library) (t t' : Cache) : Prop where
  holds : t'.Holds lib
  kept : ∀ {name v}, t.get? name = some v → t'.get? name = some v

def Library.Has (lib : Library) (c : ClassDecl) : Prop := ∃ name, lib.load name = .ok (some c)

lemma Cache.Grows.refl {lib : Library} {t : Cache} (h : t.Holds lib) : t.Grows lib t := ⟨h, id⟩

lemma Cache.Grows.trans {lib : Library} {t t' t'' : Cache} (h : t.Grows lib t')
    (h' : t'.Grows lib t'') : t.Grows lib t'' :=
  ⟨h'.holds, fun hv => h'.kept (h.kept hv)⟩

/-! ### Computations that look classes up -/

section

variable {ε σ α β : Type}

/-- The computation adds to the cache, which `view` finds in the state, what the library has,
and its result is in `R`. -/
def Sound (lib : Library) (view : σ → Cache) (x : ExceptT ε (StateM σ) α) (R : α → Prop) : Prop :=
  ∀ s, (view s).Holds lib → Ends x s (fun a t => (view s).Grows lib (view t) ∧ R a) fun _ _ => True

variable {lib : Library} {view : σ → Cache}

namespace Sound

variable {x : ExceptT ε (StateM σ) α} {R R' : α → Prop}

lemma pure {a : α} (h : R a) : Sound lib view (Pure.pure a : ExceptT ε (StateM σ) α) R :=
  fun _ hs => .pure ⟨.refl hs, h⟩

lemma bind {k : α → ExceptT ε (StateM σ) β} {T : β → Prop} (h : Sound lib view x R)
    (hk : ∀ a, R a → Sound lib view (k a) T) : Sound lib view (x >>= k) T := by
  intro s hs
  refine .bind (h s hs) fun a t ha => ?_
  exact (hk a ha.2 t ha.1.holds).mono (fun b u hb => ⟨ha.1.trans hb.1, hb.2⟩) fun _ _ h => h

lemma mono (h : Sound lib view x R) (hR : ∀ a, R a → R' a) : Sound lib view x R' := fun s hs =>
  (h s hs).mono (fun a _ ha => ⟨ha.1, hR a ha.2⟩) fun _ _ h => h

/-- A state that carries the same cache. -/
lemma modify {g : σ → σ} (h : ∀ s, view (g s) = view s) :
    Sound lib view (modify g : ExceptT ε (StateM σ) PUnit) fun _ => True := by
  intro s hs
  refine .of_ok rfl ⟨?_, trivial⟩
  rw [h]
  exact .refl hs

lemma get : Sound lib view (MonadState.get : ExceptT ε (StateM σ) σ) fun _ => True :=
  fun _ hs => .of_ok rfl ⟨.refl hs, trivial⟩

lemma foldlM {k : β → α → ExceptT ε (StateM σ) β} {J : β → Prop} {l : List α} {b : β}
    (hk : ∀ a ∈ l, ∀ b, J b → Sound lib view (k b a) J) (hb : J b) :
    Sound lib view (l.foldlM k b) J := by
  induction l generalizing b with
  | nil => exact pure hb
  | cons a l ih =>
    rw [List.foldlM_cons]
    refine bind (hk a List.mem_cons_self b hb) fun b' hb' => ?_
    exact ih (fun a' ha' => hk a' (List.mem_cons_of_mem _ ha')) hb'

end Sound

/-! ### The hierarchy -/

namespace Hierarchy

variable {find : String → ExceptT ε (StateM σ) (Option ClassDecl)} {τ : Type} {I : τ → Prop}
  {visit : ClassDecl → τ → ExceptT ε (StateM σ) (ForInStep τ)}

lemma climb_sound (hfind : ∀ name, Sound lib view (find name) fun o => ∀ c, o = some c → lib.Has c)
    (hvisit : ∀ c s, lib.Has c → I s → Sound lib view (visit c s) fun r => I r.value) (fuel : Nat)
    (start : Option String) (w : Walk τ) (hw : I w.result.value) :
    Sound lib view (climb find visit fuel start w) fun r => I r.1.result.value := by
  induction fuel generalizing start w with
  | zero => exact .pure hw
  | succ fuel ih =>
    obtain ⟨seen, result⟩ := w
    cases start with
    | none => exact .pure hw
    | some name =>
      rw [climb]
      cases result with
      | done s => exact .pure hw
      | yield s =>
        dsimp only
        -- a class that was seen ends the walk, as one that is missing does
        split
        · exact .pure hw
        · refine .bind (hfind name) fun o ho => ?_
          cases o with
          | none => exact .pure hw
          | some c =>
            refine .bind (hvisit c s (ho c rfl) hw) fun r hr => ?_
            exact .bind (ih c.superName ⟨name :: seen, r⟩ hr) fun w hw => .pure hw

lemma spread_sound (hfind : ∀ name, Sound lib view (find name) fun o => ∀ c, o = some c → lib.Has c)
    (hvisit : ∀ c s, lib.Has c → I s → Sound lib view (visit c s) fun r => I r.value) (fuel : Nat)
    (names : List String) (w : Walk τ) (hw : I w.result.value) :
    Sound lib view (spread find visit fuel names w) fun r => I r.result.value := by
  induction fuel generalizing names w with
  | zero => exact .pure hw
  | succ fuel ih =>
    rw [spread]
    refine .foldlM (fun name _ w hw => ?_) hw
    obtain ⟨seen, result⟩ := w
    cases result with
    | done s => exact .pure hw
    | yield s =>
      dsimp only
      split
      · exact .pure hw
      · refine .bind (hfind name) fun o ho => ?_
        cases o with
        | none => exact .pure hw
        | some c => exact .bind (hvisit c s (ho c rfl) hw) fun r hr => ih _ ⟨name :: seen, r⟩ hr

lemma walk_sound (hfind : ∀ name, Sound lib view (find name) fun o => ∀ c, o = some c → lib.Has c)
    (hvisit : ∀ c s, lib.Has c → I s → Sound lib view (visit c s) fun r => I r.value) (fuel : Nat)
    (start : String) {init : τ} (hinit : I init) :
    Sound lib view (walk find fuel start init visit) fun r => I r.value := by
  refine .bind (climb_sound hfind hvisit fuel (some start) ⟨[], .yield init⟩ hinit) fun r hr => ?_
  refine .bind (.foldlM (J := fun w => I w.result.value) (fun c _ w hw => ?_) hr)
    fun w hw => .pure hw
  exact spread_sound hfind hvisit fuel _ w hw

lemma first?_sound {γ : Type}
    (hfind : ∀ name, Sound lib view (find name) fun o => ∀ c, o = some c → lib.Has c) (fuel : Nat)
    (start : String) (select : ClassDecl → Option γ) :
    Sound lib view (first? find fuel start select) fun o => ∀ x, o = some x → lib.Has x.1 := by
  refine .bind (walk_sound (I := fun o => ∀ x, o = some x → lib.Has x.1) hfind ?_ fuel start ?_)
    fun r hr => .pure hr
  · intro c s hc hs
    refine .pure ?_
    cases select c with
    | none => exact hs
    | some a =>
      rintro x ⟨⟩
      exact hc
  · rintro x ⟨⟩

end Hierarchy

end

/-! ### Look-ups and queries -/

/-- What a look-up gives, and the cache after it, if `loaded` is what there is to load. -/
def Cache.look (t : Cache) (name : String) (loaded : Except LoadError (Option ClassDecl)) :
    Except LoadError (Option ClassDecl) × Cache :=
  match t.get? name with
  | some known => (.ok known, t)
  | none => (loaded, loaded.toOption.elim t (t.insert name))

lemma Cache.look_known {t : Cache} {name : String} {known : Option ClassDecl}
    (h : t.get? name = some known) (loaded : Except LoadError (Option ClassDecl)) :
    t.look name loaded = (.ok known, t) := by
  rw [look, h]

lemma Cache.look_unknown {t : Cache} {name : String} (h : t.get? name = none)
    (loaded : Except LoadError (Option ClassDecl)) :
    t.look name loaded = (loaded, loaded.toOption.elim t (t.insert name)) := by
  rw [look, h]

lemma Cache.Holds.grows_insert {lib : Library} {t : Cache} {name : String} {v : Option ClassDecl}
    (ht : t.Holds lib) (h : t.get? name = none) (hload : lib.load name = .ok v) :
    t.Grows lib (t.insert name v) where
  holds {n w} hw := by
    by_cases hn : n = name
    · subst hn
      rw [Table.get?_insert_self] at hw
      cases hw
      exact hload
    · rw [Table.get?_insert_of_ne _ _ hn] at hw
      exact ht hw
  kept {n w} hw := by
    have hn : n ≠ name := by
      rintro rfl
      cases h.symm.trans hw
    rwa [Table.get?_insert_of_ne _ _ hn]

namespace Library

section

variable {m : Type → Type} [Monad m]

/-- The class under a name, from the cache or loaded into it, by whatever there is to load with. -/
def findBy (load : String → m (Except LoadError (Option ClassDecl))) (name : String) :
    ExceptT LoadError (StateT Cache m) (Option ClassDecl) := do
  match (← get).get? name with
  | some known => return known
  | none =>
    let loaded ← ExceptT.mk (StateT.lift (load name))
    modify (·.insert name loaded)
    return loaded

variable [LawfulMonad m] (load : String → m (Except LoadError (Option ClassDecl))) {name : String}
  {t : Cache}

lemma get_bind {β : Type} (k : Cache → ExceptT LoadError (StateT Cache m) β) (t : Cache) :
    (get >>= k) t = k t t := by
  simp [get, getThe, MonadStateOf.get, liftM, monadLift, MonadLift.monadLift, ExceptT.lift,
    ExceptT.mk, bind, ExceptT.bind, StateT.bind, StateT.get, ExceptT.bindCont, Functor.map,
    StateT.map]

lemma findBy_known {known : Option ClassDecl} (h : t.get? name = some known) :
    findBy load name t = pure (.ok known, t) := by
  rw [findBy, get_bind, h]
  rfl

lemma findBy_unknown (h : t.get? name = none) :
    findBy load name t = t.look name <$> load name := by
  have hlook : t.look name = fun loaded => (loaded, loaded.toOption.elim t (t.insert name)) := by
    funext loaded
    exact Cache.look_unknown h loaded
  rw [findBy, get_bind, h, hlook, map_eq_pure_bind]
  simp only [bind, ExceptT.bind, ExceptT.mk, StateT.bind, StateT.lift, bind_assoc, pure_bind]
  refine bind_congr fun loaded => ?_
  cases loaded with
  | error e => rfl
  | ok found =>
    simp only [ExceptT.bindCont, modify, modifyGet, MonadStateOf.modifyGet, monadLift,
      MonadLift.monadLift, ExceptT.lift, ExceptT.mk, StateT.modifyGet, Functor.map, StateT.map,
      StateT.bind, pure_bind]
    rfl

end

variable {lib : Library}

lemma find_eq_findBy (lib : Library) : lib.find = findBy (m := Id) lib.load := by
  funext name
  rw [find, findBy]
  cases lib.load name <;> rfl

/-- **What looking a class up does.** -/
lemma find_eq (lib : Library) (name : String) (t : Cache) :
    lib.find name t = t.look name (lib.load name) := by
  rw [find_eq_findBy]
  cases h : t.get? name with
  | some known => rw [findBy_known _ h, Cache.look_known h]; rfl
  | none => exact findBy_unknown _ h

/-- A cache that holds what the library has changes no answer, and holds the answer from then on. -/
lemma find_run {t : Cache} (ht : t.Holds lib) (name : String) :
    ∃ t', lib.find name t = (lib.load name, t') ∧ t.Grows lib t' ∧
      ∀ o, lib.load name = .ok o → t'.get? name = some o := by
  rw [find_eq]
  cases h : t.get? name with
  | some known =>
    rw [Cache.look_known h, ht h]
    refine ⟨t, rfl, .refl ht, fun o ho => ?_⟩
    cases ho
    exact h
  | none =>
    rw [Cache.look_unknown h]
    cases hload : lib.load name with
    | error e => exact ⟨t, rfl, .refl ht, nofun⟩
    | ok v =>
      refine ⟨t.insert name v, rfl, ht.grows_insert h hload, fun o ho => ?_⟩
      cases ho
      exact Table.get?_insert_self _ _ _

/-- A class that is looked up is the one that the library has, and is known from then on. -/
lemma find_ends (name : String) {t : Cache} (ht : t.Holds lib) :
    Ends (lib.find name) t
      (fun o t' => t.Grows lib t' ∧ t'.get? name = some o ∧ lib.load name = .ok o)
      fun _ _ => True := by
  obtain ⟨t', hrun, hgrows, hknown⟩ := find_run ht name
  cases hload : lib.load name with
  | error e => exact .of_error (hrun.trans (by rw [hload])) trivial
  | ok o => exact .of_ok (hrun.trans (by rw [hload])) ⟨hgrows, hknown o hload, rfl⟩

lemma find_sound (name : String) :
    Sound lib id (lib.find name) fun o => ∀ c, o = some c → lib.Has c := fun _ ht =>
  (find_ends name ht).mono (fun _ _ h => ⟨h.1, fun _ hc => ⟨name, hc ▸ h.2.2⟩⟩) fun _ _ h => h

lemma findMethod_sound (start name descriptor : String) :
    Sound lib id (lib.findMethod start name descriptor) fun o => ∀ x, o = some x → lib.Has x.1 :=
  Hierarchy.first?_sound find_sound _ _ _

lemma findField_sound (start name descriptor : String) :
    Sound lib id (lib.findField start name descriptor) fun o => ∀ x, o = some x → lib.Has x.1 :=
  Hierarchy.first?_sound find_sound _ _ _

end Library

namespace Query

variable {lib : Library} {α : Type}

lemma ofLookup_ends {l : Lookup α} {k : Knowledge} {Q : α → Cache → Prop}
    {E : LoadError → Cache → Prop} (h : Ends l k.classes Q E) :
    Ends (ofLookup l) k (fun a k' => Q a k'.classes) fun e k' => E e k'.classes := by
  rcases hl : l k.classes with ⟨e | a, classes⟩
  · exact .of_error (t := { k with classes }) (e := e) (by rw [ofLookup, hl]) (h.error hl)
  · exact .of_ok (t := { k with classes }) (a := a) (by rw [ofLookup, hl]) (h.ok hl)

lemma ofLookup_sound {l : Lookup α} {R : α → Prop} (h : Sound lib id l R) :
    Sound lib Knowledge.classes (ofLookup l) R := fun k hk => ofLookup_ends (h k.classes hk)

/-- A verdict that is remembered takes no look-up. -/
lemma memoized_sound (s : Symbol) {judge : Query Bool}
    (h : Sound lib Knowledge.classes judge fun _ => True) :
    Sound lib Knowledge.classes (memoized s judge) fun _ => True := by
  refine .bind .get fun k _ => ?_
  split
  · exact .pure trivial
  · exact .bind h fun _ _ => .bind (.modify fun _ => rfl) fun _ _ => .pure trivial

end Query

namespace Exports

variable {e : Exports}

lemma find_sound (name : String) :
    Sound e.library Knowledge.classes (e.find name) fun o => ∀ c, o = some c → e.library.Has c :=
  Query.ofLookup_sound (Library.find_sound name)

lemma isExportedPackage_sound (package : String) :
    Sound e.library Knowledge.classes (e.isExportedPackage package) fun _ => True := by
  refine Query.memoized_sound _ ?_
  split
  · exact .pure trivial
  · refine .bind (find_sound _) fun o _ => ?_
    split <;> exact .pure trivial

lemma isExportedClass_sound (c : ClassDecl) :
    Sound e.library Knowledge.classes (e.isExportedClass c) fun _ => True := by
  refine Query.memoized_sound _ ?_
  split
  · exact .pure trivial
  · split
    · exact .pure trivial
    · exact isExportedPackage_sound _

lemma isExportedField_sound (c : ClassDecl) (f : FieldDecl) :
    Sound e.library Knowledge.classes (e.isExportedField c f) fun _ => True := by
  refine Query.memoized_sound _ ?_
  split
  · exact .pure trivial
  · split
    · exact isExportedClass_sound c
    · exact .pure trivial

lemma isExportedMethod_sound (c : ClassDecl) (m : MethodDecl) :
    Sound e.library Knowledge.classes (e.isExportedMethod c m) fun _ => True := by
  refine Query.memoized_sound _ ?_
  split
  · exact .pure trivial
  · split
    · exact isExportedClass_sound c
    · exact .pure trivial

lemma isHierarchyExported_sound (c : ClassDecl) (m : MethodDecl) :
    Sound e.library Knowledge.classes (e.isHierarchyExported c m) fun _ => True := by
  refine .bind (isExportedMethod_sound c m) fun exported _ => ?_
  split
  · exact .pure trivial
  · split
    · exact .pure trivial
    · refine .bind (Hierarchy.walk_sound (I := fun _ => True) find_sound ?_ _ _ trivial)
        fun _ _ => .pure trivial
      intro d s _ _
      split
      · exact .pure trivial
      · refine .bind (isExportedMethod_sound d _) fun _ _ => ?_
        split <;> exact .pure trivial

lemma dispatch_sound (scope : ModuleScope) (start name descriptor : String) :
    Sound e.library Knowledge.classes (e.dispatch scope start name descriptor) fun _ => True := by
  refine .bind (Query.ofLookup_sound (Library.findMethod_sound start name descriptor)) fun o _ => ?_
  rcases o with _ | ⟨c, m⟩
  · exact .pure trivial
  · dsimp only
    split
    · exact .pure trivial
    · split
      · exact .pure trivial
      · refine .bind (find_sound start) fun referenced _ => ?_
        split
        · split
          · exact .pure trivial
          · refine .bind (isHierarchyExported_sound c m) fun _ _ => ?_
            split <;> exact .pure trivial
        · refine .bind (isHierarchyExported_sound c m) fun _ _ => ?_
          split <;> exact .pure trivial

end Exports

namespace Generator

variable {g : Generator}

/-- The class that declares a member is one of the library. -/
lemma declaringField_sound (r : MemberRef) :
    Sound g.exports.library Knowledge.classes (g.declaringField r)
      fun o => ∀ name, o = some name → ∃ c, g.exports.library.Has c ∧ name = c.name := by
  refine .bind (Query.ofLookup_sound (Library.findField_sound _ _ _)) fun o ho => .pure ?_
  intro name hname
  obtain ⟨x, rfl, rfl⟩ := Option.map_eq_some_iff.mp hname
  exact ⟨x.1, ho x rfl, rfl⟩

lemma declaringMethod_sound (r : MemberRef) :
    Sound g.exports.library Knowledge.classes (g.declaringMethod r) fun _ => True :=
  .bind (Query.ofLookup_sound (Library.findMethod_sound _ _ _)) fun _ _ => .pure trivial

end Generator

end ClassScript
