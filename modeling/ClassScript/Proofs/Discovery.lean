import ClassScript.Program.Build
import ClassScript.Proofs.Requests
import Mathlib.Data.List.Perm.Subperm
import Mathlib.Data.List.Nodup

/-!
The discovery of classes.

Classes are taken up one after another in the order of their discovery, and each becomes one
item of the program. What the items need has been discovered by then; and since every name is
one of finitely many, discovery ends with no class waiting.
-/

namespace ClassScript

/-! ### Lists that hold each member once -/

section

variable {l : List String} {x y : String}

lemma mem_snoc_unless : y ∈ (if l.contains x then l else l ++ [x]) ↔ y ∈ l ∨ y = x := by
  split
  next hknown =>
    have hmem : x ∈ l := List.contains_iff_mem.mp hknown
    exact ⟨.inl, fun h => h.elim id fun heq => heq ▸ hmem⟩
  next => simp

lemma nodup_snoc_unless (h : l.Nodup) : (if l.contains x then l else l ++ [x]).Nodup := by
  split
  next => exact h
  next hnew =>
    have hnot : x ∉ l := fun hmem => hnew (List.contains_iff_mem.mpr hmem)
    exact List.nodup_append_comm.mp (List.nodup_cons.mpr ⟨hnot, h⟩)

lemma Invokers.names_add (t : Invokers) (name : String) :
    (t.add name).names = if t.names.contains name then t.names else t.names ++ [name] := by
  rw [add]
  split <;> rfl

end

/-! ### The table of references -/

namespace References

/-- The names of `done` have been taken up, those of `waiting` wait, and there are no others. -/
structure Stands (r : References) (done waiting : List String) : Prop where
  names : r.names = done ++ waiting
  nodup : r.names.Nodup
  keys : ∀ name, r.states.contains name = true ↔ name ∈ r.names
  waits : ∀ name ∈ waiting, r.states.get? name = some .referenced

variable {r : References} {done waiting : List String} {name : String}

lemma next_nil (h : r.Stands done []) (hpassed : r.passed = done.length) : r.next = (none, r) := by
  have hdrop : r.names.drop r.passed = [] := by
    rw [h.names, hpassed, List.append_nil, List.drop_length]
  rw [next, hdrop]
  rfl

lemma next_cons (h : r.Stands done (name :: waiting)) (hpassed : r.passed = done.length) :
    r.next = (some name, { r with passed := done.length + 1 }) := by
  have hwaits := h.waits name List.mem_cons_self
  rw [next, h.names, hpassed, List.drop_left]
  simp [firstWaiting, hwaits]

structure Keeps (r r' : References) (done : List String) : Prop where
  names : ∀ name ∈ r.names, name ∈ r'.names
  states : ∀ name ∈ done, r'.states.get? name = r.states.get? name

lemma add_stands (h : r.Stands done waiting) (name : String) :
    ∃ new, (r.add name).Stands done (waiting ++ new) ∧ r.Keeps (r.add name) done ∧
      (r.add name).passed = r.passed ∧ ∀ n, n ∈ (r.add name).names ↔ n ∈ r.names ∨ n = name := by
  -- a name with a state stays where it is, and a new one goes to the end of what waits
  by_cases hknown : r.states.contains name = true
  · have hmem : name ∈ r.names := (h.keys name).mp hknown
    rw [add, if_pos hknown]
    refine ⟨[], by rwa [List.append_nil], ⟨fun _ hn => hn, fun _ _ => rfl⟩, rfl, fun n => ?_⟩
    exact ⟨.inl, fun hn => hn.elim id fun heq => heq ▸ hmem⟩
  · have hnew : name ∉ r.names := fun hmem => hknown ((h.keys name).mpr hmem)
    have hne {n : String} (hn : n ∈ r.names) : n ≠ name := fun heq => hnew (heq ▸ hn)
    rw [add, if_neg hknown]
    refine ⟨[name], ⟨?_, ?_, fun n => ?_, fun n hn => ?_⟩, ⟨?_, fun n hn => ?_⟩, rfl, fun n => ?_⟩
    · rw [h.names, List.append_assoc]
    · exact List.nodup_append_comm.mp (List.nodup_cons.mpr ⟨hnew, h.nodup⟩)
    · by_cases hn : n = name
      · simp [hn, Table.contains]
      · rw [Table.contains, Table.get?_insert_of_ne _ _ hn]
        have hkeys := h.keys n
        rw [Table.contains] at hkeys
        simp [hn, hkeys]
    · rcases List.mem_append.mp hn with hn | hn
      · have hmem : n ∈ r.names := by rw [h.names]; exact List.mem_append_right _ hn
        rw [Table.get?_insert_of_ne _ _ (hne hmem)]
        exact h.waits n hn
      · rw [List.mem_singleton.mp hn, Table.get?_insert_self]
    · exact fun n hn => List.mem_append_left _ hn
    · have hmem : n ∈ r.names := by rw [h.names]; exact List.mem_append_left _ hn
      exact Table.get?_insert_of_ne _ _ (hne hmem)
    · simp

lemma foldl_add_stands (names : List String) (h : r.Stands done waiting) :
    ∃ waiting', (names.foldl add r).Stands done waiting' ∧ (names.foldl add r).passed = r.passed ∧
      ∀ n, n ∈ (names.foldl add r).names ↔ n ∈ r.names ∨ n ∈ names := by
  induction names generalizing r waiting with
  | nil => exact ⟨waiting, h, rfl, by simp⟩
  | cons name names ih =>
    obtain ⟨new, hstands, -, hpassed, hmem⟩ := add_stands h name
    obtain ⟨waiting', hstands', hpassed', hmem'⟩ := ih hstands
    refine ⟨waiting', hstands', hpassed'.trans hpassed, fun n => ?_⟩
    rw [List.foldl_cons, hmem', hmem, List.mem_cons, or_assoc]

/-- A class that waits is taken up. -/
lemma mark_stands (h : r.Stands done (name :: waiting)) (state : ReferenceState) :
    (r.mark name state).Stands (done ++ [name]) waiting ∧ r.Keeps (r.mark name state) done := by
  have hnodup : (done ++ name :: waiting).Nodup := h.names ▸ h.nodup
  have hmem : name ∈ r.names := by rw [h.names]; simp
  have hwaiting : name ∉ waiting := (List.nodup_cons.mp (List.nodup_append.mp hnodup).2.1).1
  have hdone : name ∉ done := fun hn =>
    (List.nodup_append.mp hnodup).2.2 name hn name List.mem_cons_self rfl
  refine ⟨⟨?_, h.nodup, fun n => ?_, fun n hn => ?_⟩, fun _ hn => hn, fun n hn => ?_⟩
  · rw [List.append_assoc]
    exact h.names
  · by_cases hn : n = name
    · simp [mark, hn, Table.contains, hmem]
    · rw [mark, Table.contains, Table.get?_insert_of_ne _ _ hn]
      exact h.keys n
  · have hne : n ≠ name := fun heq => hwaiting (heq ▸ hn)
    rw [mark, Table.get?_insert_of_ne _ _ hne]
    exact h.waits n (List.mem_cons_of_mem _ hn)
  · exact Table.get?_insert_of_ne _ _ fun heq => hdone (heq ▸ hn)

end References

/-! ### A program under way -/

def Item.name : Item → String
  | defined name _ | lazy name | linked name => name

namespace Program

def generator (r : Resources) (o : Options) : Generator :=
  ⟨⟨Library.ofResources r, .ofNames o.exported⟩, ⟨o.mode, o.roots⟩⟩

lemma isExternal_iff {r : Resources} {o : Options} {name : String} :
    (generator r o).scope.isExternal name = true ↔ o.mode = .extension ∧ name ∉ o.roots := by
  cases hmode : o.mode with
  | standalone => simp [generator, ModuleScope.isExternal, hmode]
  | extension => simp [generator, ModuleScope.isExternal, hmode]

def discoverable (r : Resources) (o : Options) : List String :=
  Piece.classClass :: (o.fixed ++ o.roots ++ r.spelled)

def setting (r : Resources) (o : Options) (c : ClassDecl) : Setting :=
  ⟨c.name, generator r o, discoverable r o⟩

lemma length_discoverable (r : Resources) (o : Options) :
    (discoverable r o).length < bound r o := by
  have hspelled := r.length_spelled
  simp only [discoverable, bound, List.length_cons, List.length_append]
  omega

namespace Progress

def Meets (s : Progress) : Request → Prop
  | .reference name => name ∈ s.references.names
  | .invoker method => method ∈ s.invokers.names
  | .script resource => resource ∈ s.scripts

/-- One progress after another: what was discovered, met and learnt stays. -/
structure Keeps (s t : Progress) (done : List String) : Prop where
  references : s.references.Keeps t.references done
  invokers : ∀ method ∈ s.invokers.names, method ∈ t.invokers.names
  scripts : ∀ resource ∈ s.scripts, resource ∈ t.scripts
  learnt : ∀ name v, s.knowledge.classes.get? name = some v → t.knowledge.classes.get? name = some v

lemma Keeps.meets {s t : Progress} {done : List String} (h : s.Keeps t done) {q : Request}
    (hq : s.Meets q) : t.Meets q := by
  cases q with
  | reference name => exact h.references.names name hq
  | invoker method => exact h.invokers method hq
  | script resource => exact h.scripts resource hq

end Progress

/-- The call of the initializer of a class, if the definition has one. -/
def initializerOf (c : ClassDecl) : Option String :=
  if (c.methods.filter ClassDecl.defines).any (·.name == ClassDecl.initializerName) then
    some (ClassDecl.initializer c.name)
  else none

/-- A class that is defined is the one that its name has been looked up to be. It is defined once;
all that its definition needs is met, and so are its parents. -/
structure Defines (g : Generator) (s : Progress) (name : String) (pieces : List Piece)
    (c : ClassDecl) :
    Prop where
  internal : g.scope.isExternal name = false
  learnt : s.knowledge.classes.get? name = some (some c)
  state : s.references.state? name = some (.processed (initializerOf c))
  parents : ∀ p ∈ c.parents, p ∈ s.references.names
  needs : ∀ p ∈ pieces, ∀ q ∈ p.needs, q = .reference c.name ∨ s.Meets q
  proper : ∀ p ∈ pieces, p.Proper c.name
  opened : pieces.filterMap Piece.opened? = [c.name]

def Fits (g : Generator) (o : Options) (s : Progress) : Item → Prop
  | .defined name pieces => ∃ c, Defines g s name pieces c
  | .lazy name => g.scope.isExternal name = false ∧ name ∉ o.roots ∧
      s.knowledge.classes.get? name = some none ∧ s.references.state? name = some .skipped
  | .linked name => g.scope.isExternal name = true ∧ s.references.state? name = some .skipped

lemma Fits.mono {g : Generator} {o : Options} {s t : Progress} {done : List String} {item : Item}
    (h : Fits g o s item) (hkeeps : s.Keeps t done) (hdone : item.name ∈ done) :
    Fits g o t item := by
  have hstate : t.references.state? item.name = s.references.state? item.name :=
    hkeeps.references.states _ hdone
  cases item with
  | defined name pieces =>
    obtain ⟨c, hc⟩ := h
    refine ⟨c, hc.internal, hkeeps.learnt _ _ hc.learnt, hstate.trans hc.state, ?_, ?_, hc.proper,
      hc.opened⟩
    · exact fun p hp => hkeeps.references.names p (hc.parents p hp)
    · exact fun p hp q hq => (hc.needs p hp q hq).imp_right hkeeps.meets
  | lazy name =>
    obtain ⟨hinternal, hroot, hlearnt, hskipped⟩ := h
    exact ⟨hinternal, hroot, hkeeps.learnt _ _ hlearnt, hstate.trans hskipped⟩
  | linked name => exact ⟨h.1, hstate.trans h.2⟩

/-- Discovery between two classes: those of `done` are items, in this order, and those of
`waiting` are to come. -/
structure Discovered (r : Resources) (o : Options) (s : Progress)
    (done waiting : List String) : Prop where
  stands : s.references.Stands done waiting
  known : ∀ name ∈ s.references.names, name ∈ discoverable r o
  holds : s.knowledge.classes.Holds (Library.ofResources r)
  items : s.items.toList.map Item.name = done
  fits : ∀ item ∈ s.items, Fits (generator r o) o s item
  invokers : s.invokers.names.Nodup
  roots : ∀ name ∈ o.roots, name ∈ s.references.names

/-! ### Meeting requests -/

namespace Progress

variable {s t : Progress} {done waiting : List String}

lemma Keeps.refl (s : Progress) (done : List String) : s.Keeps s done :=
  ⟨⟨fun _ h => h, fun _ _ => rfl⟩, fun _ h => h, fun _ h => h, fun _ _ h => h⟩

lemma Keeps.trans {u : Progress} (h : s.Keeps t done) (h' : t.Keeps u done) : s.Keeps u done where
  references :=
    ⟨fun n hn => h'.references.names n (h.references.names n hn),
      fun n hn => (h'.references.states n hn).trans (h.references.states n hn)⟩
  invokers m hm := h'.invokers m (h.invokers m hm)
  scripts x hx := h'.scripts x (h.scripts x hx)
  learnt name v hv := h'.learnt name v (h.learnt name v hv)

/-- What meeting requests does: it adds classes that wait, from among those requested. -/
structure Met (s t : Progress) (requests : List Request)
    (done waiting new : List String) : Prop where
  stands : t.references.Stands done (waiting ++ new)
  passed : t.references.passed = s.references.passed
  keeps : s.Keeps t done
  meets : ∀ q ∈ requests, t.Meets q
  known : ∀ name ∈ t.references.names, name ∈ s.references.names ∨ Request.reference name ∈ requests
  knowledge : t.knowledge = s.knowledge
  items : t.items = s.items
  invokers : s.invokers.names.Nodup → t.invokers.names.Nodup

lemma meet_met (h : s.references.Stands done waiting) (q : Request) :
    ∃ new, Met s (s.meet q) [q] done waiting new := by
  have hsame : s.references.Stands done (waiting ++ []) := by rwa [List.append_nil]
  have hrefl := Keeps.refl s done
  have hone {t : Progress} (ht : t.Meets q) : ∀ q' ∈ [q], t.Meets q' := fun q' hq' => by
    rwa [List.mem_singleton.mp hq']
  -- only a reference can make a class wait; the others leave the classes as they are
  cases q with
  | reference name =>
    obtain ⟨new, hstands, hkeeps, hpassed, hmem⟩ := References.add_stands h name
    refine ⟨new, hstands, hpassed, ⟨hkeeps, hrefl.invokers, hrefl.scripts, hrefl.learnt⟩,
      hone ((hmem name).mpr (.inr rfl)), fun n hn => ?_, rfl, rfl, id⟩
    exact ((hmem n).mp hn).imp_right fun heq => by rw [heq]; exact List.mem_singleton_self _
  | invoker method =>
    refine ⟨[], hsame, rfl,
      ⟨hrefl.references, fun m hm => ?_, hrefl.scripts, hrefl.learnt⟩, hone ?_,
      fun n hn => .inl hn, rfl, rfl, fun hnodup => ?_⟩
    · change m ∈ (s.invokers.add method).names
      rw [Invokers.names_add, mem_snoc_unless]
      exact .inl hm
    · change method ∈ (s.invokers.add method).names
      rw [Invokers.names_add, mem_snoc_unless]
      exact .inr rfl
    · change (s.invokers.add method).names.Nodup
      rw [Invokers.names_add]
      exact nodup_snoc_unless hnodup
  | script resource =>
    have hmeet : s.meet (.script resource) = { s with
        scripts :=
          if s.scripts.contains resource then s.scripts else s.scripts ++ [resource] } := by
      rw [meet]
      split <;> rfl
    rw [hmeet]
    refine ⟨[], hsame, rfl,
      ⟨hrefl.references, hrefl.invokers, fun x hx => ?_, hrefl.learnt⟩, hone ?_,
      fun n hn => .inl hn, rfl, rfl, id⟩
    · exact mem_snoc_unless.mpr (.inl hx)
    · exact mem_snoc_unless.mpr (.inr rfl)

lemma foldl_meet_met (requests : List Request) (h : s.references.Stands done waiting) :
    ∃ new, Met s (requests.foldl meet s) requests done waiting new := by
  induction requests generalizing s waiting with
  | nil =>
    exact ⟨[], by rwa [List.append_nil], rfl, .refl s done, by simp, fun _ hn =>
      .inl hn, rfl, rfl, id⟩
  | cons q qs ih =>
    obtain ⟨new, hq⟩ := meet_met h q
    obtain ⟨new', hqs⟩ := ih hq.stands
    refine ⟨new ++ new', ?_, hqs.passed.trans hq.passed, hq.keeps.trans hqs.keeps, fun q' hq' => ?_,
      fun n hn => ?_, hqs.knowledge.trans hq.knowledge, hqs.items.trans hq.items,
      fun h => hqs.invokers (hq.invokers h)⟩
    · rw [← List.append_assoc]
      exact hqs.stands
    · rcases List.mem_cons.mp hq' with rfl | hq'
      · exact hqs.keeps.meets (hq.meets q' (List.mem_singleton_self _))
      · exact hqs.meets q' hq'
    · rcases hqs.known n hn with hn | hn
      · exact (hq.known n hn).imp_right fun heq => by
          rw [List.mem_singleton.mp heq]; exact List.mem_cons_self
      · exact .inr (List.mem_cons_of_mem _ hn)

end Progress

/-! ### One class -/

namespace Discovered

variable {r : Resources} {o : Options} {s t : Progress} {done waiting : List String} {name : String}

lemma keeps {waiting' : List String} (h : Discovered r o s done waiting) (hkeeps : s.Keeps t done)
    (hstands : t.references.Stands done waiting')
    (hknown : ∀ name ∈ t.references.names, name ∈ discoverable r o)
    (hholds : t.knowledge.classes.Holds (Library.ofResources r)) (hitems : t.items = s.items)
    (hinvokers : t.invokers.names.Nodup) : Discovered r o t done waiting' := by
  refine ⟨hstands, hknown,
    hholds, by rw [hitems, h.items], fun item hitem => ?_, hinvokers, fun n hn => ?_⟩
  · rw [hitems] at hitem
    have hname : item.name ∈ done := h.items ▸ List.mem_map_of_mem hitem.val
    exact (h.fits item hitem).mono hkeeps hname
  · exact hkeeps.references.names n (h.roots n hn)

/-- More has been learnt about classes. -/
lemma learn (h : Discovered r o s done waiting) {k : Knowledge} (e : Exporter)
    (hgrows : s.knowledge.classes.Grows (Library.ofResources r) k.classes) :
    Discovered r o { s with knowledge := k, exporter := e } done waiting := by
  have hrefl := Progress.Keeps.refl s done
  refine h.keeps ⟨hrefl.references, hrefl.invokers, hrefl.scripts, fun _ _ hv =>
    hgrows.kept hv⟩ h.stands
    h.known hgrows.holds rfl h.invokers

lemma met (h : Discovered r o s done waiting) {requests : List Request} {new : List String}
    (hmet : Progress.Met s t requests done waiting new)
    (hknown : ∀ name, Request.reference name ∈ requests → name ∈ discoverable r o) :
    Discovered r o t done (waiting ++ new) := by
  refine h.keeps hmet.keeps hmet.stands (fun n hn => ?_) ?_ hmet.items (hmet.invokers h.invokers)
  · exact (hmet.known n hn).elim (h.known n) (hknown n)
  · rw [hmet.knowledge]
    exact h.holds

/-- The class that is taken up becomes an item. -/
lemma take (h : Discovered r o s done (name :: waiting)) {state : ReferenceState} {item : Item}
    (ht : t = { s with references := s.references.mark name state, items := s.items.push item })
    (hname : item.name = name) (hfits : Fits (generator r o) o t item) :
    Discovered r o t (done ++ [name]) waiting := by
  subst ht
  obtain ⟨hstands, hmark⟩ := References.mark_stands h.stands state
  have hrefl := Progress.Keeps.refl s done
  refine ⟨hstands, h.known,
    h.holds, by simp [h.items, hname], fun item' hitem => ?_, h.invokers, h.roots⟩
  rcases Array.mem_push.mp hitem with hitem | rfl
  · have hdone : item'.name ∈ done := h.items ▸ List.mem_map_of_mem hitem.val
    exact (h.fits item' hitem).mono ⟨hmark, hrefl.invokers, hrefl.scripts, hrefl.learnt⟩ hdone
  · exact hfits

lemma serves {c : ClassDecl} (hload : Library.loadFrom r name = .ok (some c)) :
    (setting r o c).Serves c.pool ∧ c.Spells ∧
      ∀ n ∈ c.pool.spelled, n ∈ discoverable r o := by
  have hall {c : ClassDecl} {name : String} (hload : Library.loadFrom r name = .ok (some c)) :
      c.Spells ∧ ∀ n ∈ c.pool.spelled, n ∈ discoverable r o := by
    obtain ⟨hspells, hsub⟩ := Library.spells_of_loadFrom hload
    exact ⟨hspells, fun n hn => List.mem_cons_of_mem _ (List.mem_append_right _ (hsub hn))⟩
  obtain ⟨hspells, hnames⟩ := hall hload
  refine ⟨⟨fun n hn => hnames n (ConstantPool.mem_spelled_of_text hn), fun d hd => ?_⟩,
    hspells, hnames⟩
  obtain ⟨name', hload'⟩ := hd
  obtain ⟨hspells', hnames'⟩ := hall hload'
  exact hnames' _ hspells'.name

/-- A class is defined. -/
lemma define (h : Discovered r o s done (name :: waiting)) {c : ClassDecl} {mode : LinkMode}
    (hinternal : (generator r o).scope.isExternal name = false)
    (hlearnt : s.knowledge.classes.get? name = some (some c))
    (hrun : Program.define (generator r o) mode name c s = .ok t) :
    ∃ new, Discovered r o t (done ++ [name]) (waiting ++ new) ∧
      t.references.passed = s.references.passed := by
  obtain ⟨hserves, hspells, hnames⟩ := serves (o := o) (h.holds hlearnt)
  have htagged : ∀ a ∈ c.annotations, a.Tagged := by
    obtain ⟨data, -, hparse⟩ := Library.loadFrom_gives r name (h.holds hlearnt) c rfl
    exact ClassDecl.parse_tagged data hparse
  have hgen : Generates (setting r o c) [] ((generator r o).define c) _ _ [c.name] :=
    Generator.define_generates rfl hserves hspells htagged hnames List.mem_cons_self
  have hfair : Session.Fair (setting r o c) { knowledge := s.knowledge, exporter := s.exporter } :=
    ⟨h.holds, by simp, by simp⟩
  rcases hdef : (generator r o).define c { knowledge := s.knowledge, exporter := s.exporter } with
    ⟨e | hasInitializer, session⟩
  · rw [Program.define, hdef] at hrun
    cases hrun
  obtain ⟨honward, rfl, hparents⟩ := (hgen _ hfair (by simp)).ok hdef
  rw [Program.define, hdef] at hrun
  dsimp only at hrun
  rw [← Array.foldl_toList] at hrun
  cases hrun
  -- the requests of the definition are met before the class is marked
  have hlearn := h.learn session.exporter honward.grows
  obtain ⟨new, hmet⟩ := Progress.foldl_meet_met session.requests.toList hlearn.stands
  have hknown : ∀ n, Request.reference n ∈ session.requests.toList → n ∈ discoverable r o :=
    fun n hn => honward.fair.known n (Array.mem_toList_iff.mp hn)
  have hmeets {q : Request} (hq : q ∈ session.requests) :=
    hmet.meets q (Array.mem_toList_iff.mpr hq)
  refine ⟨new, (hlearn.met hmet hknown).take rfl rfl ⟨c, hinternal, ?_, ?_, fun p hp => ?_, ?_, ?_,
    honward.opened⟩, hmet.passed⟩
  · exact hmet.keeps.learnt _ _ (honward.grows.kept hlearnt)
  · exact Table.get?_insert_self _ _ _
  · exact hmeets (hparents _ (List.mem_map_of_mem hp))
  · intro p hp q hq
    have hcovered := (honward.fair.pieces p (Array.mem_toList_iff.mp hp)).needs q hq
    refine hcovered.imp_right fun hq => ?_
    have hq' := hmeets hq
    cases q <;> exact hq'
  · exact fun p hp => (honward.fair.pieces p (Array.mem_toList_iff.mp hp)).proper

/-- **One class is taken up.** -/
lemma takeUp (h : Discovered r o s done (name :: waiting))
    (hrun : Program.takeUp (generator r o) o name s = .ok t) :
    ∃ new, Discovered r o t (done ++ [name]) (waiting ++ new) ∧
      t.references.passed = s.references.passed := by
  rw [Program.takeUp] at hrun
  -- a class is external, defined or missing, and a root must not be missing
  split at hrun
  next hexternal =>
    cases hrun
    refine ⟨[], ?_, rfl⟩
    rw [List.append_nil]
    exact h.take rfl rfl ⟨hexternal, Table.get?_insert_self _ _ _⟩
  next hinternal =>
    replace hinternal : (generator r o).scope.isExternal name = false := by simpa using hinternal
    have hfind := Query.ofLookup_ends (Library.find_ends name h.holds)
    rcases hfound : (generator r o).exports.find name s.knowledge with ⟨e | found, knowledge⟩
    · rw [hfound] at hrun
      cases hrun
    obtain ⟨hgrows, hlearnt, -⟩ := hfind.ok hfound
    have hlearn := h.learn s.exporter hgrows
    rw [hfound] at hrun
    cases found with
    | some c => exact hlearn.define hinternal hlearnt hrun
    | none =>
      dsimp only at hrun
      split at hrun
      next => cases hrun
      next hroot =>
        cases hrun
        have hnot : name ∉ o.roots := fun hmem => hroot (List.contains_iff_mem.mpr hmem)
        refine ⟨[], ?_, rfl⟩
        rw [List.append_nil]
        exact hlearn.take rfl rfl ⟨hinternal, hnot, hlearnt, Table.get?_insert_self _ _ _⟩

/-- No more classes are discovered than there are names. -/
lemma length_le (h : Discovered r o s done waiting) :
    done.length + waiting.length ≤ (discoverable r o).length := by
  have hle := (List.subperm_of_subset h.stands.nodup h.known).length_le
  rwa [h.stands.names, List.length_append] at hle

/-- The next class has been found in the table and is not yet taken up. -/
lemma pass (h : Discovered r o s done (name :: waiting)) :
    Discovered r o { s with references := { s.references with passed := done.length + 1 } } done
      (name :: waiting) := by
  have hrefl := Progress.Keeps.refl s done
  exact h.keeps ⟨⟨hrefl.references.names, hrefl.references.states⟩, hrefl.invokers, hrefl.scripts,
    hrefl.learnt⟩ ⟨h.stands.names, h.stands.nodup, h.stands.keys, h.stands.waits⟩
    h.known h.holds rfl
    h.invokers

/-- **All classes.** With as many steps left as names can still come, none waits at the end. -/
lemma discover {fuel : Nat} (h : Discovered r o s done waiting)
    (hpassed : s.references.passed = done.length)
    (hfuel : (discoverable r o).length ≤ done.length + fuel)
    (hrun : Program.discover (generator r o) o fuel s = .ok t) :
    ∃ done', Discovered r o t done' [] ∧ t.references.passed = done'.length := by
  -- each turn takes up a name, and the bound counts all the names there can be
  induction fuel generalizing s done waiting with
  | zero =>
    have hle := h.length_le
    obtain rfl : waiting = [] := List.length_eq_zero_iff.mp (by omega)
    cases hrun
    exact ⟨done, h, hpassed⟩
  | succ fuel ih =>
    rw [Program.discover] at hrun
    cases waiting with
    | nil =>
      rw [References.next_nil h.stands hpassed] at hrun
      cases hrun
      exact ⟨done, h, hpassed⟩
    | cons name waiting =>
      rw [References.next_cons h.stands hpassed] at hrun
      dsimp only at hrun
      cases hone : Program.takeUp (generator r o) o name
          { s with references := { s.references with passed := done.length + 1 } } with
      | error e =>
        rw [hone] at hrun
        cases hrun
      | ok u =>
        rw [hone] at hrun
        obtain ⟨new, hnext, hpassed'⟩ := h.pass.takeUp hone
        refine ih hnext ?_ ?_ hrun
        · rw [hpassed', List.length_append, List.length_singleton]
        · rw [List.length_append, List.length_singleton]
          omega

end Discovered

/-! ### The whole program -/

lemma mem_compiled {p : Program} {name : String} :
    name ∈ p.compiled ↔ ∃ pieces, Item.defined name pieces ∈ p.items := by
  rw [compiled, List.mem_filterMap]
  constructor
  · rintro ⟨item, hitem, hname⟩
    cases item with
    | defined n pieces =>
      cases hname
      exact ⟨pieces, hitem⟩
    | lazy n => cases hname
    | linked n => cases hname
  · rintro ⟨pieces, hitem⟩
    exact ⟨_, hitem, rfl⟩

/-- Each class that has been discovered is an item. -/
lemma Discovered.exists_item {r : Resources} {o : Options} {s : Progress} {done : List String}
    {name : String} (h : Discovered r o s done []) (hname : name ∈ s.references.names) :
    ∃ item ∈ s.items.toList, item.name = name ∧ Fits (generator r o) o s item := by
  rw [h.stands.names, List.append_nil, ← h.items] at hname
  obtain ⟨item, hitem, rfl⟩ := List.mem_map.mp hname
  exact ⟨item, hitem, rfl, h.fits item (Array.mem_toList_iff.mp hitem)⟩

lemma start_discovered (r : Resources) (o : Options) :
    ∃ waiting, Discovered r o (start o) [] waiting ∧ (start o).references.passed = 0 := by
  have hempty : References.Stands {} [] [] :=
    ⟨rfl, List.nodup_nil, by simp [Table.contains, Table.get?], by simp⟩
  obtain ⟨waiting, hstands, hpassed, hmem⟩ := References.foldl_add_stands
    (if o.mode = .standalone then o.fixed ++ o.roots else o.roots) hempty
  have hnames (n : String) : n ∈ (start o).references.names ↔
      n ∈ (if o.mode = .standalone then o.fixed ++ o.roots else o.roots) := by
    refine (hmem n).trans ?_
    simp
  refine ⟨waiting,
    ⟨hstands, fun n hn => ?_, ?_, rfl, by simp [start], List.nodup_nil, fun n hn => ?_⟩,
    hpassed⟩
  · have hn' := (hnames n).mp hn
    simp only [discoverable, List.mem_cons, List.mem_append]
    split at hn'
    · exact .inr (.inl (List.mem_append.mp hn'))
    · exact .inr (.inl (.inr hn'))
  · intro name v hv
    cases hv
  · rw [hnames]
    split
    · exact List.mem_append_right _ hn
    · exact hn

lemma discover_gives (r : Resources) (o : Options) :
    Gives (discover (generator r o) o (bound r o) (start o)) fun s =>
      discover (generator r o) o (bound r o) (start o) = .ok s ∧ s.references.next.1 = none ∧
        ∃ done, Discovered r o s done [] := by
  intro s hrun
  obtain ⟨waiting, hstart, hpassed⟩ := start_discovered r o
  have hfuel : (discoverable r o).length ≤ 0 + bound r o := by
    have hlt := length_discoverable r o
    omega
  obtain ⟨done, hdone, hpassed'⟩ := hstart.discover hpassed hfuel hrun
  exact ⟨hrun, by rw [References.next_nil hdone.stands hpassed'], done, hdone⟩

/-- **A program is what discovery has found when no class waits any more.** -/
lemma build_gives (r : Resources) (o : Options) :
    Gives (build r o) fun p => ∃ s, (discover (generator r o) o (bound r o) (start o) = .ok s ∧
      s.references.next.1 = none ∧ ∃ done, Discovered r o s done []) ∧ p.items = s.items.toList ∧
      p.invokers = s.invokers ∧ p.initializers = (s.references.flush s.parents).1 := by
  refine .bind (discover_gives r o) fun s hs => .bind (.any _) fun scripts _ => ?_
  refine .bind (.any _) fun data _ => ?_
  rcases hflush : s.references.flush s.parents with ⟨initializers, references⟩
  dsimp only
  split
  · exact .throw_bind _ _
  · exact .pure ⟨s, hs, rfl, rfl, by rw [hflush]⟩

end Program

end ClassScript
