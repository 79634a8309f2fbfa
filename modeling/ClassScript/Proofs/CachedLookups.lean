import ClassScript.Proofs.Initialization
import Mathlib.Data.List.Induction

/-!
A cache that cannot be told from none.

Classes come from a provider, which may have data under a name, nothing, or a fault. All that is
asked about classes is made of look-ups one after another, so it is one program, which can be run
with a cache, with a cache and a provider under watch, or without a cache. Two runs are compared
step by step. The cache has nothing but what the provider has; so wherever a call is made, it gives
the answer that it gives first. And a name that is in the cache was asked for once, one that is not
was not, unless its class fails to load.
-/

namespace ClassScript

/-! ### Providers -/

/-- What there is under the name of a resource. -/
abbrev Provider := String → Except IoFault (Option Bytes)

namespace Library

section

variable {m : Type → Type} [Monad m]

/-- The class under a name, by whatever there is to ask for resources. -/
def loadBy (ask : String → m (Except IoFault (Option Bytes))) (name : String) :
    m (Except LoadError (Option ClassDecl)) := do
  if isArray name then return .ok none
  else
    let resource := Name.resource name
    match ← ask resource with
    | .error fault => return .error (.io resource fault)
    | .ok none => return .ok none
    | .ok (some data) =>
      match ClassDecl.parse data with
      | .ok c => return .ok (some c)
      | .error e => return .error (.parse resource e)

end

end Library

namespace Provider

def load (p : Provider) (name : String) : Except LoadError (Option ClassDecl) :=
  Library.loadBy (m := Id) p name

def library (p : Provider) (reach : Nat) : Library := ⟨p.load, reach⟩

/-- Resources are a provider. -/
lemma library_get (r : Resources) : library r.get (r.size + 1) = Library.ofResources r := by
  rw [library, Library.ofResources]
  congr 1

end Provider

/-! ### Calls -/

section

variable {m : Type → Type} [Monad m] {α : Type}

/-- What comes of a computation, be it a failure. -/
def attempt (x : ExceptT LoadError m α) : ExceptT LoadError m (Except LoadError α) :=
  ExceptT.lift x.run

/-- A visitor that may look classes up itself, and go on by what comes of it. -/
inductive Inquiry (α : Type) where
  | decided (a : α)
  | looking (name : String) (next : Except LoadError (Option ClassDecl) → Inquiry α)

def Inquiry.run (look : String → ExceptT LoadError m (Option ClassDecl)) :
    Inquiry α → ExceptT LoadError m α
  | decided a => return a
  | looking name next => do (next (← attempt (look name))).run look

/-- What can be asked about classes. A visitor has a state of its own. -/
inductive Call : Type 1 where
  | find (name : String)
  | require (name : String)
  | method (start name descriptor : String)
  | field (start name descriptor : String)
  | methods {σ : Type} (start name descriptor : String) (init : σ)
    (visit : ClassDecl × MethodDecl → σ → Inquiry (ForInStep σ))
  | traverse {σ : Type} (start : String) (init : σ) (visit : ClassDecl → σ → Inquiry (ForInStep σ))

namespace Call

def Answer : Call → Type
  | find _ => Option ClassDecl
  | require _ => ClassDecl
  | method .. => Option (ClassDecl × MethodDecl)
  | field .. => Option (ClassDecl × FieldDecl)
  | @methods σ .. => ForInStep σ
  | @traverse σ .. => ForInStep σ

def run (look : String → ExceptT LoadError m (Option ClassDecl)) (reach : Nat) :
    (c : Call) → ExceptT LoadError m c.Answer
  | find name => look name
  | require name => do
    match ← look name with
    | some c => return c
    | none => throw (.classNotFound name)
  | method start name descriptor => Hierarchy.first? look reach start (·.method? name descriptor)
  | field start name descriptor => Hierarchy.first? look reach start (·.field? name descriptor)
  | methods start name descriptor init visit =>
    Hierarchy.walk look reach start init fun c s =>
      match c.method? name descriptor with
      | some m => (visit (c, m) s).run look
      | none => return .yield s
  | traverse start init visit =>
    Hierarchy.walk look reach start init fun c s => (visit c s).run look

def on (lib : Library) (c : Call) : Lookup c.Answer := c.run lib.find lib.reach

lemma on_require (lib : Library) (name : String) : (require name).on lib = lib.require name := rfl

lemma on_method (lib : Library) (start name descriptor : String) :
    (method start name descriptor).on lib = lib.findMethod start name descriptor := rfl

lemma on_field (lib : Library) (start name descriptor : String) :
    (field start name descriptor).on lib = lib.findField start name descriptor := rfl

end Call

end

/-! ### One program in two monads -/

/-- A relation between computations in two monads that follows their steps. -/
structure Stepwise (m n : Type → Type) [Monad m] [Monad n] where
  Rel {α : Type} : ExceptT LoadError m α → ExceptT LoadError n α → Prop
  pure {α : Type} (a : α) : Rel (pure a) (pure a)
  bind {α β : Type} {x : ExceptT LoadError m α} {y : ExceptT LoadError n α}
    {k : α → ExceptT LoadError m β}
    {k' : α → ExceptT LoadError n β} : Rel x y → (∀ a, Rel (k a) (k' a)) → Rel (x >>= k) (y >>= k')
  throw {α : Type} (e : LoadError) : Rel (α := α) (throw e) (throw e)
  attempt {α : Type} {x : ExceptT LoadError m α} {y : ExceptT LoadError n α} :
    Rel x y → Rel (attempt x) (attempt y)

namespace Stepwise

variable {m n : Type → Type} [Monad m] [Monad n] (R : Stepwise m n) {α β σ : Type}

lemma foldlM {k : β → α → ExceptT LoadError m β} {k' : β → α → ExceptT LoadError n β}
    (hk : ∀ b a, R.Rel (k b a) (k' b a)) (l : List α) (b : β) :
    R.Rel (l.foldlM k b) (l.foldlM k' b) := by
  induction l generalizing b with
  | nil => exact R.pure b
  | cons a l ih =>
    rw [List.foldlM_cons, List.foldlM_cons]
    exact R.bind (hk b a) ih

variable {look : String → ExceptT LoadError m (Option ClassDecl)}
  {look' : String → ExceptT LoadError n (Option ClassDecl)}
  (hlook : ∀ name, R.Rel (look name) (look' name))

include hlook

section

variable {visit : ClassDecl → σ → ExceptT LoadError m (ForInStep σ)}
  {visit' : ClassDecl → σ → ExceptT LoadError n (ForInStep σ)}
  (hvisit : ∀ c s, R.Rel (visit c s) (visit' c s))

include hvisit

lemma climb (levels : Nat) (start : Option String) (w : Hierarchy.Walk σ) :
    R.Rel (Hierarchy.climb look visit levels start w)
      (Hierarchy.climb look' visit' levels start w) := by
  induction levels generalizing start w with
  | zero => exact R.pure _
  | succ levels ih =>
    obtain ⟨seen, result⟩ := w
    cases start with
    | none => exact R.pure _
    | some name =>
      rw [Hierarchy.climb, Hierarchy.climb]
      cases result with
      | done s => exact R.pure _
      | yield s =>
        dsimp only
        split
        · exact R.pure _
        · refine R.bind (hlook name) fun o => ?_
          cases o with
          | none => exact R.pure _
          | some c => exact R.bind (hvisit c s) fun r => R.bind (ih _ _) fun w => R.pure _

lemma spread (levels : Nat) (names : List String) (w : Hierarchy.Walk σ) :
    R.Rel (Hierarchy.spread look visit levels names w)
      (Hierarchy.spread look' visit' levels names w) := by
  induction levels generalizing names w with
  | zero => exact R.pure _
  | succ levels ih =>
    rw [Hierarchy.spread, Hierarchy.spread]
    refine R.foldlM (fun w name => ?_) names w
    obtain ⟨seen, result⟩ := w
    cases result with
    | done s => exact R.pure _
    | yield s =>
      dsimp only
      split
      · exact R.pure _
      · refine R.bind (hlook name) fun o => ?_
        cases o with
        | none => exact R.pure _
        | some c => exact R.bind (hvisit c s) fun r => ih _ _

lemma walk (levels : Nat) (start : String) (init : σ) :
    R.Rel (Hierarchy.walk look levels start init visit)
      (Hierarchy.walk look' levels start init visit') := by
  refine R.bind (R.climb hlook hvisit levels (some start) _) fun r => ?_
  exact R.bind (R.foldlM (fun w c => R.spread hlook hvisit levels c.interfaces w) r.2 r.1)
    fun w => R.pure _

end

lemma first? (levels : Nat) (start : String) (select : ClassDecl → Option α) :
    R.Rel (Hierarchy.first? look levels start select)
      (Hierarchy.first? look' levels start select) :=
  R.bind (R.walk hlook (fun _ _ => R.pure _) levels start none) fun _ => R.pure _

lemma inquiry (q : Inquiry α) : R.Rel (q.run look) (q.run look') := by
  induction q with
  | decided a => exact R.pure a
  | looking name next ih => exact R.bind (R.attempt (hlook name)) ih

/-- **Calls are related as soon as look-ups are.** -/
lemma call (reach : Nat) (c : Call) : R.Rel (c.run look reach) (c.run look' reach) := by
  cases c with
  | find name => exact hlook name
  | require name =>
    refine R.bind (hlook name) fun o => ?_
    cases o with
    | some c => exact R.pure c
    | none => exact R.throw _
  | method start name descriptor => exact R.first? hlook reach start _
  | field start name descriptor => exact R.first? hlook reach start _
  | methods start name descriptor init visit =>
    refine R.walk hlook (fun c s => ?_) reach start init
    split
    · exact R.inquiry hlook _
    · exact R.pure _
  | traverse start init visit =>
    exact R.walk hlook (fun c s => R.inquiry hlook (visit c s)) reach start init

end Stepwise

/-! ### A provider under watch -/

/-- Computations with a cache that note which resources they ask for, in order. -/
abbrev Watched := ExceptT LoadError (StateT Cache (StateM (List String)))

namespace Watched

variable {α β : Type} {x : Watched α} {k : α → Watched β} {t t' : Cache} {l l' : List String}

lemma bind_ok {a : α} (h : x t l = ((.ok a, t'), l')) : (x >>= k) t l = k a t' l' := by
  simp [bind, ExceptT.bind, ExceptT.mk, StateT.bind, h, ExceptT.bindCont]

lemma bind_error {e : LoadError} (h : x t l = ((.error e, t'), l')) :
    (x >>= k) t l = ((.error e, t'), l') := by
  simp only [bind, ExceptT.bind, ExceptT.mk, StateT.bind, h, ExceptT.bindCont]
  rfl

/-- Answers as the provider does, and notes what was asked for. -/
def ask (p : Provider) (resource : String) : StateM (List String) (Except IoFault (Option Bytes)) :=
  fun asked => (p resource, asked ++ [resource])

def find (p : Provider) : String → Watched (Option ClassDecl) :=
  Library.findBy (Library.loadBy (ask p))

/-- What is noted when a class is loaded: nothing for an array. -/
def noted (name : String) (l : List String) : List String :=
  if Library.isArray name then l else l ++ [Name.resource name]

section

variable (p : Provider) {name : String}

lemma loadBy_ask (name : String) (l : List String) :
    Library.loadBy (ask p) name l = (p.load name, noted name l) := by
  have hask {β : Type} (k : Except IoFault (Option Bytes) → StateM (List String) β)
      (resource : String) :
      (ask p resource >>= k) l = k (p resource) (l ++ [resource]) := rfl
  have hpure {β : Type} (k : Except IoFault (Option Bytes) → Id β) (resource : String) :
      ((show Id _ from p resource) >>= k) = k (p resource) := rfl
  rw [Provider.load, Library.loadBy, Library.loadBy, noted]
  split
  · rfl
  · dsimp only
    rw [hask, hpure]
    rcases p (Name.resource name) with fault | _ | data
    · rfl
    · rfl
    · dsimp only
      cases ClassDecl.parse data <;> rfl

/-- A watched look-up does what one without a watch does, and asks for what is not in the cache. -/
lemma find_eq (name : String) (t : Cache) (l : List String) :
    find p name t l = (t.look name (p.load name), if t.contains name then l else noted name l) := by
  rw [Table.contains]
  cases h : t.get? name with
  | some known =>
    rw [find, Library.findBy_known _ h, Cache.look_known h]
    rfl
  | none =>
    rw [find, Library.findBy_unknown _ h]
    change (t.look name (Library.loadBy (ask p) name l).1, (Library.loadBy (ask p) name l).2) = _
    rw [loadBy_ask]
    rfl

end

/-- Who watches changes neither results nor caches. -/
def unwatched : Stepwise (StateT Cache (StateM (List String))) (StateM Cache) where
  Rel x y := ∀ t l, (x t l).1 = y t
  pure _ _ _ := rfl
  bind {α β x y k k'} hx hk t l := by
    rcases hrun : x t l with ⟨⟨e | a, t'⟩, l'⟩
    · have hy : y t = (.error e, t') := by rw [← hx t l, hrun]
      rw [bind_error hrun, ClassScript.bind_error hy]
    · have hy : y t = (.ok a, t') := by rw [← hx t l, hrun]
      rw [bind_ok hrun, ClassScript.bind_ok hy, hk]
  throw _ _ _ := rfl
  attempt {α x y} hx t l := by
    have hy : ClassScript.attempt y t = (.ok (y t).1, (y t).2) := rfl
    rw [hy, ← hx t l]
    rfl

lemma find_unwatched (p : Provider) (reach : Nat) (name : String) :
    unwatched.Rel (find p name) ((p.library reach).find name) := by
  intro t l
  rw [find_eq, Library.find_eq]
  rfl

/-! ### What the cache has -/

/-- The cache has what the provider has, and of what can be loaded the provider was asked for no
more than is in the cache, and once. -/
structure Kept (p : Provider) (t : Cache) (l : List String) : Prop where
  holds : ∀ name v, t.get? name = some v → p.load name = .ok v
  asked : ∀ name v, p.load name = .ok v →
    l.count (Name.resource name) ≤ if t.contains name then 1 else 0

lemma count_noted_of_ne {name name' : String} (h : name' ≠ name) (l : List String) :
    (noted name l).count (Name.resource name') = l.count (Name.resource name') := by
  have hne : Name.resource name ≠ Name.resource name' :=
    fun heq => h ((String.append_left_inj _).mp heq).symm
  rw [noted]
  split
  · rfl
  · rw [List.count_append, List.count_singleton, if_neg (by simpa using hne), Nat.add_zero]

lemma count_noted_le (name : String) (l : List String) :
    (noted name l).count (Name.resource name) ≤ l.count (Name.resource name) + 1 := by
  rw [noted]
  split
  · exact Nat.le_succ _
  · exact Nat.le_of_eq (by rw [List.count_append, List.count_singleton_self])

namespace Kept

variable {p : Provider} {name : String}

lemma fresh (p : Provider) : Kept p {} [] where
  holds := by rintro name v ⟨⟩
  asked name v _ := Nat.zero_le _

lemma failed (h : Kept p t l) {e : LoadError} (hload : p.load name = .error e) :
    Kept p t (noted name l) where
  holds := h.holds
  asked name' v hv := by
    have hne : name' ≠ name := by
      rintro rfl
      rw [hload] at hv
      cases hv
    rw [count_noted_of_ne hne]
    exact h.asked name' v hv

lemma loaded (h : Kept p t l) {v : Option ClassDecl} (hload : p.load name = .ok v)
    (hnew : t.get? name = none) :
    Kept p (t.insert name v) (noted name l) where
  holds name' w hw := by
    by_cases hname : name' = name
    · subst hname
      rw [Table.get?_insert_self] at hw
      cases hw
      exact hload
    · rw [Table.get?_insert_of_ne _ _ hname] at hw
      exact h.holds name' w hw
  asked name' w hw := by
    by_cases hname : name' = name
    · subst hname
      -- a name that is not in the cache has not been asked for
      have hcontains : t.contains name' = false := by
        rw [Table.contains, hnew]
        rfl
      have hold := h.asked name' v hload
      rw [hcontains] at hold
      rw [Table.contains_insert_self]
      exact Nat.le_trans (count_noted_le name' l) (Nat.succ_le_succ hold)
    · rw [count_noted_of_ne hname, Table.contains, Table.get?_insert_of_ne _ _ hname]
      exact h.asked name' w hw

/-- A class that fails to load is not in the cache. -/
lemma get?_eq_none (h : Kept p t l) {e : LoadError} (hload : p.load name = .error e) :
    t.get? name = none := by
  cases hget : t.get? name with
  | none => rfl
  | some v =>
    have hsame := h.holds name v hget
    rw [hload] at hsame
    cases hsame

end Kept

/-- From a cache as it should be, the result is the one without a cache, and the cache stays so. -/
def uncached (p : Provider) : Stepwise (StateT Cache (StateM (List String))) Id where
  Rel x r := ∀ t l, Kept p t l → (x t l).1.1 = r.run ∧ Kept p (x t l).1.2 (x t l).2
  pure _ _ _ h := ⟨rfl, h⟩
  bind {α β x r k k'} hx hk t l h := by
    obtain ⟨hresult, hkept⟩ := hx t l h
    rcases hrun : x t l with ⟨⟨e | a, t'⟩, l'⟩
    · rw [hrun] at hresult hkept
      obtain rfl : r = Except.error e := hresult.symm
      rw [bind_error hrun]
      exact ⟨rfl, hkept⟩
    · rw [hrun] at hresult hkept
      obtain rfl : r = Except.ok a := hresult.symm
      rw [bind_ok hrun]
      exact hk a t' l' hkept
  throw _ _ _ h := ⟨rfl, h⟩
  attempt {α x r} hx t l h := by
    obtain ⟨hresult, hkept⟩ := hx t l h
    exact ⟨congrArg Except.ok hresult, hkept⟩

lemma find_uncached (p : Provider) (name : String) :
    (uncached p).Rel (find p name) (ExceptT.mk (p.load name)) := by
  intro t l h
  rw [find_eq, Table.contains]
  cases hknown : t.get? name with
  | some v =>
    rw [Cache.look_known hknown]
    exact ⟨(h.holds name v hknown).symm, h⟩
  | none =>
    rw [Cache.look_unknown hknown]
    cases hload : p.load name with
    | error e => exact ⟨rfl, h.failed hload⟩
    | ok v => exact ⟨rfl, h.loaded hload hknown⟩

end Watched

/-! ### One call after another -/

def Library.after (lib : Library) (calls : List Call) : Cache :=
  calls.foldl (fun t c => (c.on lib t).2) {}

namespace Call

variable (p : Provider) (reach : Nat) (c : Call)

def watched : Watched c.Answer := c.run (Watched.find p) reach

def uncached : Except LoadError c.Answer :=
  (c.run (m := Id) (fun name => ExceptT.mk (p.load name)) reach).run

lemma watched_fst (t : Cache) (l : List String) :
    (c.watched p reach t l).1 = c.on (p.library reach) t :=
  Watched.unwatched.call (Watched.find_unwatched p reach) reach c t l

lemma watched_kept {t : Cache} {l : List String} (h : Watched.Kept p t l) :
    (c.watched p reach t l).1.1 = c.uncached p reach ∧
      Watched.Kept p (c.watched p reach t l).1.2 (c.watched p reach t l).2 :=
  (Watched.uncached p).call (Watched.find_uncached p) reach c t l h

end Call

namespace Provider

variable (p : Provider) (reach : Nat) (calls : List Call)

/-- The cache after these calls, and the resources that the provider was asked for. -/
def record : Cache × List String :=
  calls.foldl (fun s c => ((c.watched p reach s.1 s.2).1.2, (c.watched p reach s.1 s.2).2)) ({}, [])

lemma record_concat (c : Call) :
    p.record reach (calls ++ [c]) =
      ((c.watched p reach (p.record reach calls).1 (p.record reach calls).2).1.2,
        (c.watched p reach (p.record reach calls).1 (p.record reach calls).2).2) := by
  rw [record, List.foldl_concat, ← record]

lemma record_kept : Watched.Kept p (p.record reach calls).1 (p.record reach calls).2 := by
  induction calls using List.reverseRecOn with
  | nil => exact .fresh p
  | append_singleton calls c ih =>
    rw [record_concat]
    exact (c.watched_kept p reach ih).2

lemma record_fst : (p.record reach calls).1 = (p.library reach).after calls := by
  induction calls using List.reverseRecOn with
  | nil => rfl
  | append_singleton calls c ih =>
    rw [record_concat, Call.watched_fst, ih, Library.after, Library.after, List.foldl_concat]

/-- **The cache cannot be told from a fresh one.** Whatever calls were made before, each call has
the answer, or fails with the error, that it has with a fresh cache. The provider, which may be
watched without a change to any result or cache, was asked at most once for each class that does not
fail to load. A class that fails to load is never in the cache, and a look-up that fails leaves the
cache as it is. -/
theorem lookups_cached_transparently (p : Provider) (reach : Nat) (earlier : List Call) (c : Call) :
    (c.on (p.library reach) ((p.library reach).after earlier)).1 = (c.on (p.library reach) {}).1 ∧
    (∀ t l, (c.watched p reach t l).1 = c.on (p.library reach) t) ∧
    (∀ name v, p.load name = .ok v → (p.record reach earlier).2.count (Name.resource name) ≤ 1) ∧
    ∀ name e, p.load name = .error e → ((p.library reach).after earlier).get? name = none ∧
      (p.library reach).find name ((p.library reach).after earlier) =
        (.error e, (p.library reach).after earlier) := by
  have hkept := p.record_kept reach earlier
  refine ⟨?_, c.watched_fst p reach, fun name v hload => ?_, fun name e hload => ?_⟩
  · have hanswer := (c.watched_kept p reach hkept).1
    have hfresh := (c.watched_kept p reach (.fresh p)).1
    rw [Call.watched_fst, record_fst] at hanswer
    rw [Call.watched_fst] at hfresh
    exact hanswer.trans hfresh.symm
  · have hle := hkept.asked name v hload
    split at hle <;> omega
  · have hnone := hkept.get?_eq_none hload
    rw [record_fst] at hnone
    refine ⟨hnone, ?_⟩
    have hfails : (p.library reach).load name = .error e := hload
    rw [Library.find_eq, Cache.look_unknown hnone, hfails]
    rfl

/-- The class `A` extends `B`, whose file breaks off. -/
def torn : Resources := ⟨[.stored [
  ("A.class", Program.sampleFile "A" (some "B") none none), ("B.class", [0xca, 0xfe])]]⟩

def sidelong : Call :=
  .traverse "A" 0 fun _ n => .looking "X" fun r =>
    .decided (if r.toBool then .yield (n + 1) else .done n)

def visits : List Call := [sidelong, .find "A", .find "B", .require "X", sidelong]

theorem lookups_cached_transparently_torn :
    (record torn.get 3 visits).2 = ["A.class", "X.class", "B.class", "B.class", "B.class"] ∧
    (∃ v, load torn.get "X" = .ok v) ∧ (record torn.get 3 visits).2.count (Name.resource "X") ≤ 1 ∧
    (∃ e, load torn.get "B" = .error e) ∧
    ((Library.ofResources torn).after visits).get? "B" = none ∧
    (sidelong.on (.ofResources torn) ((Library.ofResources torn).after visits)).1 =
      (sidelong.on (.ofResources torn) {}).1 := by
  have hmissing : load torn.get "X" = .ok none := rfl
  have hbroken : (load torn.get "B").toOption = none := by decide +kernel
  obtain ⟨-, -, hasked, -⟩ := lookups_cached_transparently torn.get 3 visits sidelong
  obtain ⟨hanswer, -, -, hfailed⟩ :=
    lookups_cached_transparently torn.get (torn.size + 1) visits sidelong
  rw [library_get] at hanswer hfailed
  cases hload : load torn.get "B" with
  | ok v =>
    rw [hload] at hbroken
    cases hbroken
  | error e =>
    refine ⟨by decide +kernel, ⟨none, hmissing⟩, hasked "X" none hmissing, ⟨e, rfl⟩, ?_, hanswer⟩
    exact (hfailed "B" e hload).1

end Provider

end ClassScript
