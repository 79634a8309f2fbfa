import ClassScript.Proofs.Requests
import Mathlib.Data.List.Perm.Subperm

/-!
Computations that do the same.

Two computations may go by different libraries, or follow a hierarchy to different depths. They do
the same as long as the names that they look up are of a kind on which the libraries agree, and
either depth is more than the number of these names: no name is looked up twice on a walk, so that
none is cut off. `Alike` compares two computations from every state in an invariant; its rules
follow the steps of which the computations are made.
-/

namespace ClassScript

section

variable {ε σ α β : Type}

/-- From every state in `I` the two do the same; the result is in `R`, and the state
stays in `I`. -/
def Alike (I : σ → Prop) (x y : ExceptT ε (StateM σ) α) (R : α → Prop) : Prop :=
  ∀ s, I s → x s = y s ∧ Ends x s (fun a t => I t ∧ R a) fun _ _ => True

namespace Alike

variable {I : σ → Prop} {x y : ExceptT ε (StateM σ) α} {R R' : α → Prop}

lemma pure {a : α} (h : R a) : Alike I (Pure.pure a : ExceptT ε (StateM σ) α) (Pure.pure a) R :=
  fun _ hs => ⟨rfl, .pure ⟨hs, h⟩⟩

lemma throw (e : ε) : Alike I (throw e : ExceptT ε (StateM σ) α) (throw e) R :=
  fun s _ => ⟨rfl, .of_error (t := s) rfl trivial⟩

lemma bind {k k' : α → ExceptT ε (StateM σ) β} {T : β → Prop} (h : Alike I x y R)
    (hk : ∀ a, R a → Alike I (k a) (k' a) T) : Alike I (x >>= k) (y >>= k') T := by
  intro s hs
  obtain ⟨heq, hends⟩ := h s hs
  refine ⟨?_, .bind hends fun a t ht => (hk a ht.2 t ht.1).2⟩
  rcases hx : x s with ⟨e | a, t⟩
  · rw [bind_error hx, bind_error (heq ▸ hx)]
  · obtain ⟨ht, ha⟩ := hends.ok hx
    rw [bind_ok hx, bind_ok (heq ▸ hx)]
    exact (hk a ha t ht).1

lemma mono (h : Alike I x y R) (hR : ∀ a, R a → R' a) : Alike I x y R' := fun s hs =>
  ⟨(h s hs).1, (h s hs).2.mono (fun a _ ha => ⟨ha.1, hR a ha.2⟩) fun _ _ h => h⟩

lemma of_sound {lib : Library} {view : σ → Cache} (h : Sound lib view x R) :
    Alike (fun s => (view s).Holds lib) x x R := fun s hs =>
  ⟨rfl, (h s hs).mono (fun _ _ ha => ⟨ha.1.holds, ha.2⟩) fun _ _ h => h⟩

lemma modify {g : σ → σ} (h : ∀ s, I s → I (g s)) :
    Alike I (modify g : ExceptT ε (StateM σ) PUnit) (modify g) fun _ => True := fun s hs =>
  ⟨rfl, .of_ok rfl ⟨h s hs, trivial⟩⟩

lemma get : Alike I (MonadState.get : ExceptT ε (StateM σ) σ) MonadState.get fun _ => True :=
  fun _ hs => ⟨rfl, .of_ok rfl ⟨hs, trivial⟩⟩

lemma foldlM {k k' : β → α → ExceptT ε (StateM σ) β} {J : β → Prop} {l : List α} {b : β}
    (hk : ∀ a ∈ l, ∀ b, J b → Alike I (k b a) (k' b a) J) (hb : J b) :
    Alike I (l.foldlM k b) (l.foldlM k' b) J := by
  induction l generalizing b with
  | nil => exact pure hb
  | cons a l ih =>
    rw [List.foldlM_cons, List.foldlM_cons]
    refine bind (hk a List.mem_cons_self b hb) fun b' hb' => ?_
    exact ih (fun a' ha' => hk a' (List.mem_cons_of_mem _ ha')) hb'

lemma forM {k k' : α → ExceptT ε (StateM σ) PUnit} {l : List α}
    (hk : ∀ a ∈ l, Alike I (k a) (k' a) fun _ => True) :
    Alike I (l.forM k) (l.forM k') fun _ => True := by
  induction l with
  | nil => exact pure trivial
  | cons a l ih =>
    refine bind (hk a List.mem_cons_self) fun _ _ => ?_
    exact ih fun a' ha' => hk a' (List.mem_cons_of_mem _ ha')

lemma forM_option {k k' : α → ExceptT ε (StateM σ) PUnit} {o : Option α}
    (hk : ∀ a, o = some a → Alike I (k a) (k' a) fun _ => True) :
    Alike I (o.forM k) (o.forM k') fun _ => True := by
  cases o with
  | none => exact pure trivial
  | some a => exact hk a rfl

lemma mapM {k k' : α → ExceptT ε (StateM σ) β} {l : List α}
    (hk : ∀ a, Alike I (k a) (k' a) fun _ => True) :
    Alike I (l.mapM k) (l.mapM k') fun _ => True := by
  induction l with
  | nil => exact pure trivial
  | cons a l ih =>
    rw [List.mapM_cons, List.mapM_cons]
    exact bind (hk a) fun _ _ => bind ih fun _ _ => pure trivial

end Alike

/-! ### The hierarchy -/

/-- Names of the kind lead only to names of the kind: the class found declares one, and so are its
parents. -/
def ClassDecl.Leads (N : String → Prop) (c : ClassDecl) : Prop := N c.name ∧ ∀ p ∈ c.parents, N p

lemma ClassDecl.Leads.superName {N : String → Prop} {c : ClassDecl} (h : c.Leads N) {p : String}
    (hp : c.superName = some p) : N p :=
  h.2 p (List.mem_append_left _ (Option.mem_toList.mpr hp))

lemma ClassDecl.Leads.interface {N : String → Prop} {c : ClassDecl} (h : c.Leads N) {p : String}
    (hp : p ∈ c.interfaces) : N p :=
  h.2 p (List.mem_append_right _ hp)

/-- The names met on a walk are among those of `U`, each once, and more levels are left than names
of `U` are still to come. -/
structure Room (U : List String) (levels : Nat) (seen : List String) : Prop where
  nodup : seen.Nodup
  mem : ∀ name ∈ seen, name ∈ U
  levels : U.length < levels + seen.length

namespace Room

variable {U seen : List String} {levels : Nat} {name : String}

lemma start (h : U.length < levels) : Room U levels [] := ⟨List.nodup_nil, by simp, by simpa⟩

lemma ne_zero (h : Room U 0 seen) : False := by
  have hle := (List.subperm_of_subset h.nodup h.mem).length_le
  have hlt := h.levels
  omega

lemma enter (h : Room U (levels + 1) seen) (hname : name ∈ U) (hnew : seen.contains name = false) :
    Room U levels (name :: seen) := by
  have hnot : name ∉ seen := fun hmem => by simp [hmem] at hnew
  refine ⟨List.nodup_cons.mpr ⟨hnot, h.nodup⟩, List.forall_mem_cons.mpr ⟨hname, h.mem⟩, ?_⟩
  have hlt := h.levels
  rw [List.length_cons]
  omega

lemma succ (h : Room U levels seen) : Room U (levels + 1) seen := by
  refine ⟨h.nodup, h.mem, ?_⟩
  have hlt := h.levels
  omega

end Room

namespace Hierarchy

variable {I : σ → Prop} {N : String → Prop} {U : List String} {τ : Type} {J : τ → Prop}
  {find find' : String → ExceptT ε (StateM σ) (Option ClassDecl)}
  {visit visit' : ClassDecl → τ → ExceptT ε (StateM σ) (ForInStep τ)}

structure Walk.Fits (U : List String) (J : τ → Prop) (levels levels' : Nat)
    (w : Walk τ) : Prop where
  left : Room U levels w.seen
  right : Room U levels' w.seen
  value : J w.result.value

lemma Walk.Fits.succ {levels levels' : Nat} {w : Walk τ} (h : w.Fits U J levels levels') :
    w.Fits U J (levels + 1) (levels' + 1) :=
  ⟨h.left.succ, h.right.succ, h.value⟩

lemma Walk.Fits.enter {levels levels' : Nat} {seen : List String} {name : String}
    {r r' : ForInStep τ} (h : Walk.Fits U J (levels + 1) (levels' + 1) ⟨seen, r⟩) (hname : name ∈ U)
    (hnew : seen.contains name = false) (hr : J r'.value) :
    Walk.Fits U J levels levels' ⟨name :: seen, r'⟩ :=
  ⟨h.left.enter hname hnew, h.right.enter hname hnew, hr⟩

lemma climb_alike (hU : ∀ name, N name → name ∈ U)
    (hfind : ∀ name, N name → Alike I (find name) (find' name) fun o => ∀ c, o = some c → c.Leads N)
    (hvisit : ∀ c s, c.Leads N → J s → Alike I (visit c s) (visit' c s) fun r => J r.value)
    {levels levels' : Nat} {start : Option String} {w : Walk τ}
    (hstart : ∀ name, start = some name → N name) (hw : w.Fits U J levels levels') :
    Alike I (climb find visit levels start w) (climb find' visit' levels' start w)
      fun r => r.1.Fits U J levels levels' ∧ ∀ c ∈ r.2, c.Leads N := by
  -- neither walk runs out of levels while names are left, so both end for the same reason
  induction levels generalizing levels' start w with
  | zero => exact hw.left.ne_zero.elim
  | succ levels ih =>
    cases levels' with
    | zero => exact hw.right.ne_zero.elim
    | succ levels' =>
      obtain ⟨seen, result⟩ := w
      cases start with
      | none => exact .pure ⟨hw, by simp⟩
      | some name =>
        have hname := hstart name rfl
        rw [climb, climb]
        cases result with
        | done s => exact .pure ⟨hw, by simp⟩
        | yield s =>
          dsimp only
          cases hseen : seen.contains name with
          | true => exact .pure ⟨hw, by simp⟩
          | false =>
            refine .bind (hfind name hname) fun o ho => ?_
            cases o with
            | none => exact .pure ⟨(hw.enter (hU name hname) hseen hw.value).succ, by simp⟩
            | some c =>
              have hc := ho c rfl
              refine .bind (hvisit c s hc hw.value) fun r hr => ?_
              refine .bind (ih (fun p hp => hc.superName hp) (hw.enter (hU name hname) hseen hr))
                fun r hr => ?_
              exact .pure ⟨hr.1.succ, List.forall_mem_cons.mpr ⟨hc, hr.2⟩⟩

lemma spread_alike (hU : ∀ name, N name → name ∈ U)
    (hfind : ∀ name, N name → Alike I (find name) (find' name) fun o => ∀ c, o = some c → c.Leads N)
    (hvisit : ∀ c s, c.Leads N → J s → Alike I (visit c s) (visit' c s) fun r => J r.value)
    {levels levels' : Nat} {names : List String} {w : Walk τ} (hnames : ∀ name ∈ names, N name)
    (hw : w.Fits U J levels levels') :
    Alike I (spread find visit levels names w) (spread find' visit' levels' names w)
      fun w => w.Fits U J levels levels' := by
  induction levels generalizing levels' names w with
  | zero => exact hw.left.ne_zero.elim
  | succ levels ih =>
    cases levels' with
    | zero => exact hw.right.ne_zero.elim
    | succ levels' =>
      rw [spread, spread]
      refine .foldlM (fun name hmem w hw => ?_) hw
      have hname := hnames name hmem
      obtain ⟨seen, result⟩ := w
      cases result with
      | done s => exact .pure hw
      | yield s =>
        dsimp only
        cases hseen : seen.contains name with
        | true => exact .pure hw
        | false =>
          -- the name is new to both walks, and both are told the same about it
          refine .bind (hfind name hname) fun o ho => ?_
          cases o with
          | none => exact .pure (hw.enter (hU name hname) hseen hw.value).succ
          | some c =>
            have hc := ho c rfl
            refine .bind (hvisit c s hc hw.value) fun r hr => ?_
            refine (ih (fun p hp => hc.interface hp) (hw.enter (hU name hname) hseen hr)).mono ?_
            exact fun _ hw => hw.succ

/-- Two walks meet the same classes when both have more levels than there are names. -/
lemma walk_alike (hU : ∀ name, N name → name ∈ U)
    (hfind : ∀ name, N name → Alike I (find name) (find' name) fun o => ∀ c, o = some c → c.Leads N)
    (hvisit : ∀ c s, c.Leads N → J s → Alike I (visit c s) (visit' c s) fun r => J r.value)
    {levels levels' : Nat} (hlevels : U.length < levels) (hlevels' : U.length < levels')
    {start : String} (hstart : N start) {init : τ} (hinit : J init) :
    Alike I (walk find levels start init visit) (walk find' levels' start init visit')
      fun r => J r.value := by
  have hw : Walk.Fits U J levels levels' ⟨[], .yield init⟩ :=
    ⟨.start hlevels, .start hlevels', hinit⟩
  refine .bind (climb_alike hU hfind hvisit (by rintro name ⟨⟩; exact hstart) hw) fun r hr => ?_
  refine .bind (.foldlM (J := fun w => w.Fits U J levels levels') (fun c hc w hw => ?_) hr.1)
    fun w hw => .pure hw.value
  exact spread_alike hU hfind hvisit (fun p hp => (hr.2 c hc).interface hp) hw

lemma first?_alike {γ : Type} (hU : ∀ name, N name → name ∈ U)
    (hfind : ∀ name, N name → Alike I (find name) (find' name) fun o => ∀ c, o = some c → c.Leads N)
    {levels levels' : Nat} (hlevels : U.length < levels) (hlevels' : U.length < levels')
    {start : String} (hstart : N start) (select : ClassDecl → Option γ) :
    Alike I (first? find levels start select) (first? find' levels' start select)
      fun o => ∀ x, o = some x → x.1.Leads N := by
  refine .bind (walk_alike (J := fun o => ∀ x, o = some x → x.1.Leads N) hU hfind ?_ hlevels
    hlevels' hstart ?_) fun r hr => .pure hr
  · intro c s hc hs
    refine .pure ?_
    cases select c with
    | none => exact hs
    | some a =>
      rintro x ⟨⟩
      exact hc
  · rintro x ⟨⟩

end Hierarchy

end

/-! ### Libraries -/

/-- Two libraries that cannot be told apart by what is looked up from names of the kind: they have
the same under these names and under those of package descriptions, names of the kind lead to no
others, and there are fewer of them than levels in either library. -/
structure Library.Agree (lib lib' : Library) (N : String → Prop) : Prop where
  load : ∀ name, N name → lib.load name = lib'.load name
  info : ∀ package, lib.load (Exports.infoName package) = lib'.load (Exports.infoName package)
  leads : ∀ name c, N name → lib.load name = .ok (some c) → c.Leads N
  levels : ∃ U : List String, (∀ name, N name → name ∈ U) ∧ U.length < lib.reach ∧
    U.length < lib'.reach

namespace Library

variable {lib lib' : Library} {N : String → Prop}

lemma find_congr {name : String} (h : lib.load name = lib'.load name) :
    lib.find name = lib'.find name := by
  funext t
  rw [find_eq, find_eq, h]

lemma find_alike (h : lib.Agree lib' N) {name : String} (hname : N name) :
    Alike (Cache.Holds lib) (lib.find name) (lib'.find name) fun o =>
      ∀ c, o = some c → c.Leads N := by
  rw [← find_congr (h.load name hname)]
  intro t ht
  refine ⟨rfl, (find_ends name ht).mono (fun o u hu => ⟨hu.1.holds, ?_⟩) fun _ _ h => h⟩
  rintro c rfl
  exact h.leads name c hname hu.2.2

lemma findMethod_alike (h : lib.Agree lib' N) {start : String} (hstart : N start)
    (name descriptor : String) :
    Alike (Cache.Holds lib) (lib.findMethod start name descriptor)
      (lib'.findMethod start name descriptor)
      fun o => ∀ x, o = some x → x.1.Leads N := by
  obtain ⟨U, hU, hlevels, hlevels'⟩ := h.levels
  exact Hierarchy.first?_alike hU (fun _ hname => find_alike h hname) hlevels hlevels' hstart _

lemma findField_alike (h : lib.Agree lib' N) {start : String} (hstart : N start)
    (name descriptor : String) :
    Alike (Cache.Holds lib) (lib.findField start name descriptor)
      (lib'.findField start name descriptor)
      fun o => ∀ x, o = some x → x.1.Leads N := by
  obtain ⟨U, hU, hlevels, hlevels'⟩ := h.levels
  exact Hierarchy.first?_alike hU (fun _ hname => find_alike h hname) hlevels hlevels' hstart _

end Library

abbrev Knowledge.Holds (lib : Library) (k : Knowledge) : Prop := k.classes.Holds lib

lemma Query.ofLookup_alike {lib : Library} {α : Type} {l l' : Lookup α} {R : α → Prop}
    (h : Alike (Cache.Holds lib) l l' R) :
    Alike (Knowledge.Holds lib) (ofLookup l) (ofLookup l') R := fun k hk => by
  obtain ⟨heq, hends⟩ := h k.classes hk
  exact ⟨by rw [ofLookup, ofLookup, heq], ofLookup_ends hends⟩

/-! ### Visibility and dispatch -/

/-- Two views of exports that differ in their libraries only, and not on names of the kind. -/
structure Exports.Agree (e e' : Exports) (N : String → Prop) : Prop where
  library : e.library.Agree e'.library N
  listed : e.listed = e'.listed

namespace Exports

variable {e e' : Exports} {N : String → Prop}

lemma isExportedPackage_congr (h : e.Agree e' N) (package : String) :
    e.isExportedPackage package = e'.isExportedPackage package := by
  rw [isExportedPackage, isExportedPackage, find, find, Library.find_congr
    (h.library.info package), h.listed]

lemma isExportedClass_congr (h : e.Agree e' N) (c : ClassDecl) :
    e.isExportedClass c = e'.isExportedClass c := by
  rw [isExportedClass, isExportedClass, isExportedPackage_congr h, h.listed]

lemma isExportedField_congr (h : e.Agree e' N) (c : ClassDecl) (f : FieldDecl) :
    e.isExportedField c f = e'.isExportedField c f := by
  rw [isExportedField, isExportedField, isExportedClass_congr h]

lemma isExportedMethod_congr (h : e.Agree e' N) (c : ClassDecl) (m : MethodDecl) :
    e.isExportedMethod c m = e'.isExportedMethod c m := by
  rw [isExportedMethod, isExportedMethod, isExportedClass_congr h]

lemma find_alike (h : e.Agree e' N) {name : String} (hname : N name) :
    Alike (Knowledge.Holds e.library) (e.find name) (e'.find name)
      fun o => ∀ c, o = some c → c.Leads N :=
  Query.ofLookup_alike (Library.find_alike h.library hname)

/-- The question about a method walks its hierarchy from the name that its class declares. -/
lemma isHierarchyExported_alike (h : e.Agree e' N) {c : ClassDecl} (hc : c.Leads N)
    (m : MethodDecl) :
    Alike (Knowledge.Holds e.library) (e.isHierarchyExported c m)
      (e'.isHierarchyExported c m) fun _ => True := by
  have hexported (d : ClassDecl) (n : MethodDecl) :
      Alike (Knowledge.Holds e.library) (e.isExportedMethod d n)
        (e'.isExportedMethod d n) fun _ => True := by
    rw [← isExportedMethod_congr h]
    exact .of_sound (isExportedMethod_sound d n)
  obtain ⟨U, hU, hlevels, hlevels'⟩ := h.library.levels
  refine .bind (hexported c m) fun exported _ => ?_
  split
  · exact .pure trivial
  · split
    · exact .pure trivial
    · refine .bind
        (Hierarchy.walk_alike (J := fun _ => True) hU (fun _ hname => find_alike h hname) ?_
        hlevels hlevels' hc.1 trivial) fun _ _ => .pure trivial
      intro d s _ _
      split
      · exact .pure trivial
      · refine .bind (hexported d _) fun _ _ => ?_
        split <;> exact .pure trivial

lemma dispatch_alike (h : e.Agree e' N) (scope : ModuleScope) {start : String} (hstart : N start)
    (name descriptor : String) :
    Alike (Knowledge.Holds e.library) (e.dispatch scope start name descriptor)
      (e'.dispatch scope start name descriptor) fun _ => True := by
  refine .bind (Query.ofLookup_alike (Library.findMethod_alike h.library hstart name descriptor))
    fun o ho => ?_
  rcases o with _ | ⟨c, m⟩
  · exact .pure trivial
  · have hexported := isHierarchyExported_alike h (ho _ rfl) m
    dsimp only
    split
    · exact .pure trivial
    · split
      · exact .pure trivial
      · refine .bind (find_alike h hstart) fun referenced _ => ?_
        split
        · split
          · exact .pure trivial
          · refine .bind hexported fun _ _ => ?_
            split <;> exact .pure trivial
        · refine .bind hexported fun _ _ => ?_
          split <;> exact .pure trivial

end Exports

end ClassScript
