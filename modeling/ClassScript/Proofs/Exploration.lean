import ClassScript.Proofs.Discovery
import ClassScript.Proofs.Twins

/-!
The loop of discovery ends.

`Explores` is the loop as it stands, with no limit on its rounds. Every class is taken up once, and
each is one of finitely many: the worklist grows while it is drained, but what has been taken up
stays within the names that the options and the stored class files spell. So the loop ends after
fewer rounds than it is given, and it does the same however far hierarchies are followed.
-/

namespace ClassScript.Program

/-- The loop takes up the classes of the list one after another, until none waits or one cannot be
taken up. -/
inductive Explores (g : Generator) (o : Options) :
    Progress → List String → Except ProgramError Progress → Prop
  | idle {s references} : s.references.next = (none, references) →
      Explores g o s [] (.ok { s with references })
  | fails {s references name e} : s.references.next = (some name, references) →
      takeUp g o name { s with references } = .error e → Explores g o s [name] (.error e)
  | takes {s t references name names result} : s.references.next = (some name, references) →
      takeUp g o name { s with references } = .ok t → Explores g o t names result →
      Explores g o s (name :: names) result

namespace Explores

variable {g g' : Generator} {o : Options} {s : Progress} {names names' : List String}
  {result result' : Except ProgramError Progress}

/-- There is one way to go on. -/
lemma unique (h : Explores g o s names result) (h' : Explores g o s names' result') :
    names = names' ∧ result = result' := by
  -- the next name and what taking it up gives are functions of the progress
  induction h generalizing names' with
  | idle hnext =>
    cases h' with
    | idle hnext' =>
      cases hnext.symm.trans hnext'
      exact ⟨rfl, rfl⟩
    | fails hnext' _ => cases hnext.symm.trans hnext'
    | takes hnext' _ _ => cases hnext.symm.trans hnext'
  | fails hnext htake =>
    cases h' with
    | idle hnext' => cases hnext.symm.trans hnext'
    | fails hnext' htake' =>
      cases hnext.symm.trans hnext'
      cases htake.symm.trans htake'
      exact ⟨rfl, rfl⟩
    | takes hnext' htake' _ =>
      cases hnext.symm.trans hnext'
      cases htake.symm.trans htake'
  | takes hnext htake _ ih =>
    cases h' with
    | idle hnext' => cases hnext.symm.trans hnext'
    | fails hnext' htake' =>
      cases hnext.symm.trans hnext'
      cases htake.symm.trans htake'
    | takes hnext' htake' hrest' =>
      cases hnext.symm.trans hnext'
      cases htake.symm.trans htake'
      obtain ⟨rfl, rfl⟩ := ih hrest'
      exact ⟨rfl, rfl⟩

/-- Discovery with a round to spare is the whole loop. -/
lemma discover_eq (h : Explores g o s names result) {fuel : Nat} (hfuel : names.length < fuel) :
    discover g o fuel s = result := by
  induction h generalizing fuel with
  | idle hnext =>
    obtain ⟨fuel, rfl⟩ := Nat.exists_eq_add_one_of_ne_zero (Nat.ne_zero_of_lt hfuel)
    rw [discover, hnext]
  | fails hnext htake =>
    obtain ⟨fuel, rfl⟩ := Nat.exists_eq_add_one_of_ne_zero (Nat.ne_zero_of_lt hfuel)
    rw [discover, hnext]
    dsimp only
    rw [htake]
    rfl
  | takes hnext htake _ ih =>
    obtain ⟨fuel, rfl⟩ := Nat.exists_eq_add_one_of_ne_zero (Nat.ne_zero_of_lt hfuel)
    rw [discover, hnext]
    dsimp only
    rw [htake]
    exact ih (Nat.lt_of_succ_lt_succ hfuel)

end Explores

/-! ### Every run ends -/

/-- From wherever discovery is, the loop ends: what it takes up has not been taken up before, and is
among the names that can be discovered. -/
lemma Discovered.explores {r : Resources} {o : Options} {s : Progress} {done waiting : List String}
    (h : Discovered r o s done waiting) (hpassed : s.references.passed = done.length) :
    ∃ names result, Explores (generator r o) o s names result ∧ (done ++ names).Nodup ∧
      ∀ name ∈ names, name ∈ discoverable r o := by
  -- the measure is the number of names that are still to come
  induction hn : (discoverable r o).length - done.length using Nat.strongRecOn
    generalizing s done waiting with
  | ind n ih =>
    have hnodup : (done ++ waiting).Nodup := h.stands.names ▸ h.stands.nodup
    cases waiting with
    | nil => exact ⟨[], _, .idle (References.next_nil h.stands hpassed), hnodup, by simp⟩
    | cons name waiting =>
      have hnext := References.next_cons h.stands hpassed
      have hknown : name ∈ discoverable r o := h.known name (by rw [h.stands.names]; simp)
      have hone : (done ++ [name]).Nodup :=
        hnodup.sublist
          (List.Sublist.append_left (List.singleton_sublist.mpr List.mem_cons_self) done)
      cases htake : Program.takeUp (generator r o) o name
          { s with references := { s.references with passed := done.length + 1 } } with
      | error e => exact ⟨[name], _, .fails hnext htake, hone, by simpa using hknown⟩
      | ok t =>
        obtain ⟨new, hrest, hpassed'⟩ := h.pass.takeUp htake
        have hlength : (done ++ [name]).length = done.length + 1 := by simp
        have hle := h.length_le
        rw [List.length_cons] at hle
        obtain ⟨names, result, hrun, hnodup', hnames⟩ :=
          ih _ (by omega) hrest (hpassed'.trans hlength.symm) rfl
        rw [List.append_assoc] at hnodup'
        exact ⟨name :: names, result, .takes hnext htake hrun, hnodup',
          List.forall_mem_cons.mpr ⟨hknown, hnames⟩⟩

/-! ### Generators that take up the same -/

/-- Discovery that knows what the library has, and has met requests for scripts of the kind only. -/
structure Progress.Within (lib : Library) (P : String → Prop) (s : Progress) : Prop where
  holds : s.knowledge.classes.Holds lib
  scripts : ∀ x ∈ s.scripts, P x

/-- Two generators that have the same classes to define, and agree on all that the definitions ask
about; `P` is the kind of their scripts. -/
structure Twins (g g' : Generator) (N P : String → Prop) : Prop extends g.Agree g' N where
  load : ∀ name, g.scope.isExternal name = false →
    g.exports.library.load name = g'.exports.library.load name
  owned : ∀ name c, g.scope.isExternal name = false →
    g.exports.library.load name = .ok (some c) → c.pool.Owned N
  script : ∀ name c, g.scope.isExternal name = false →
    g.exports.library.load name = .ok (some c) → ∀ x, c.script? = some x → P x

section

variable {g g' : Generator} {o : Options} {N P : String → Prop} {s : Progress}

lemma Progress.Within.meet {lib : Library} (h : s.Within lib P) {q : Request}
    (hq : ∀ x, q = .script x → P x) : (s.meet q).Within lib P := by
  cases q with
  | reference name => exact ⟨h.holds, h.scripts⟩
  | invoker method => exact ⟨h.holds, h.scripts⟩
  | script resource =>
    rw [Progress.meet]
    split
    · exact h
    · refine ⟨h.holds, fun x hx => ?_⟩
      rcases List.mem_append.mp hx with hx | hx
      · exact h.scripts x hx
      · rw [List.mem_singleton.mp hx]
        exact hq resource rfl

lemma Progress.Within.foldl_meet {lib : Library} {requests : List Request} (h : s.Within lib P)
    (hrequests : ∀ x, Request.script x ∈ requests → P x) :
    (requests.foldl Progress.meet s).Within lib P := by
  induction requests generalizing s with
  | nil => exact h
  | cons q qs ih =>
    refine ih (h.meet fun x hx => ?_) fun x hx => hrequests x (List.mem_cons_of_mem _ hx)
    exact hrequests x (hx ▸ List.mem_cons_self)

namespace Twins

lemma define_eq (h : Twins g g' N P) (hs : s.Within g.exports.library P) (mode : LinkMode)
    {name : String} {c : ClassDecl} (hc : c.pool.Owned N)
    (hscript : ∀ x, c.script? = some x → P x) :
    define g mode name c s = define g' mode name c s ∧
      Gives (define g mode name c s) (·.Within g.exports.library P) := by
  obtain ⟨heq, hends⟩ := Generator.define_alike h.toAgree hc hscript
    { knowledge := s.knowledge, exporter := s.exporter } ⟨hs.holds, by simp⟩
  refine ⟨by rw [define, define, heq], ?_⟩
  rcases hdef : g.define c { knowledge := s.knowledge, exporter := s.exporter } with
    ⟨e | called, session⟩
  · rw [define, hdef]
    rintro _ ⟨⟩
  · obtain ⟨hwithin, -⟩ := hends.ok hdef
    rw [define, hdef]
    dsimp only
    rw [← Array.foldl_toList]
    rintro _ ⟨⟩
    have hmet : (session.requests.toList.foldl Progress.meet
        { s with knowledge := session.knowledge, exporter := session.exporter }).Within
        g.exports.library P :=
      Progress.Within.foldl_meet ⟨hwithin.holds, hs.scripts⟩ fun x hx =>
        hwithin.scripts x (Array.mem_toList_iff.mp hx)
    exact ⟨hmet.holds, hmet.scripts⟩

lemma takeUp_eq (h : Twins g g' N P) (hs : s.Within g.exports.library P) (name : String) :
    takeUp g o name s = takeUp g' o name s ∧
      Gives (takeUp g o name s) (·.Within g.exports.library P) := by
  rw [takeUp, takeUp, ← h.scope]
  cases hexternal : g.scope.isExternal name with
  | true =>
    refine ⟨rfl, ?_⟩
    rintro _ ⟨⟩
    exact ⟨hs.holds, hs.scripts⟩
  | false =>
    have hfind : g'.exports.find name = g.exports.find name := by
      rw [Exports.find, Exports.find, Library.find_congr (h.load name hexternal)]
    have hends := Query.ofLookup_ends (Library.find_ends name hs.holds)
    rw [hfind]
    simp only [Bool.false_eq_true, if_false]
    -- both look the class up alike, and only one that is found is defined
    rcases hfound : g.exports.find name s.knowledge with ⟨e | found, knowledge⟩
    · refine ⟨rfl, ?_⟩
      rintro _ ⟨⟩
    · obtain ⟨hgrows, -, hload⟩ := hends.ok hfound
      have hs' : Progress.Within g.exports.library P { s with knowledge } :=
        ⟨hgrows.holds, hs.scripts⟩
      cases found with
      | some c =>
        exact h.define_eq hs' o.mode (h.owned name c hexternal hload)
          (h.script name c hexternal hload)
      | none =>
        refine ⟨rfl, ?_⟩
        dsimp only
        split
        · rintro _ ⟨⟩
        · rintro _ ⟨⟩
          exact ⟨hs'.holds, hs'.scripts⟩

/-- **The loop is the same with either generator.** -/
lemma explores (h : Twins g g' N P) (hs : s.Within g.exports.library P) {names : List String}
    {result : Except ProgramError Progress} (hrun : Explores g o s names result) :
    Explores g' o s names result ∧ Gives result (·.Within g.exports.library P) := by
  induction hrun with
  | idle hnext =>
    refine ⟨.idle hnext, ?_⟩
    rintro _ ⟨⟩
    exact ⟨hs.holds, hs.scripts⟩
  | @fails s references name e hnext htake =>
    have hs' : Progress.Within g.exports.library P { s with references } := ⟨hs.holds, hs.scripts⟩
    rw [(h.takeUp_eq hs' name).1] at htake
    refine ⟨.fails hnext htake, ?_⟩
    rintro _ ⟨⟩
  | @takes s t references name names result hnext htake _ ih =>
    have hs' : Progress.Within g.exports.library P { s with references } := ⟨hs.holds, hs.scripts⟩
    obtain ⟨heq, hgives⟩ := h.takeUp_eq hs' name (o := o)
    obtain ⟨hrun', hwithin⟩ := ih (hgives htake)
    exact ⟨.takes hnext (heq ▸ htake) hrun', hwithin⟩

end Twins

lemma start_within (lib : Library) (P : String → Prop) (o : Options) : (start o).Within lib P where
  holds := by
    rintro name v ⟨⟩
  scripts := by simp [start]

end

/-! ### How far hierarchies are followed -/

def generatorTo (r : Resources) (o : Options) (levels : Nat) : Generator :=
  ⟨⟨⟨Library.loadFrom r, levels⟩, .ofNames o.exported⟩, ⟨o.mode, o.roots⟩⟩

/-- A name that a class gives itself or a parent is spelled in its file. -/
lemma leads_of_loadFrom {r : Resources} {name : String} {c : ClassDecl}
    (h : Library.loadFrom r name = .ok (some c)) : c.Leads (· ∈ r.spelled) := by
  obtain ⟨hspells, hsub⟩ := Library.spells_of_loadFrom h
  refine ⟨hsub hspells.name, fun p hp => hsub ?_⟩
  rcases List.mem_append.mp hp with hp | hp
  · exact hspells.superName p (Option.mem_toList.mp hp)
  · exact hspells.interfaces p hp

lemma owned_of_loadFrom {r : Resources} {name : String} {c : ClassDecl}
    (h : Library.loadFrom r name = .ok (some c)) : c.pool.Owned (· ∈ r.spelled) := fun i _ hm =>
  (Library.spells_of_loadFrom h).2
    (ConstantPool.mem_spelled_of_text (ConstantPool.memberRef_gives i hm))

/-- More levels than bytes change nothing. -/
lemma twins_generatorTo (r : Resources) (o : Options) {levels : Nat} (h : r.size < levels) :
    Twins (generator r o) (generatorTo r o levels) (· ∈ r.spelled) fun _ => True where
  scope := rfl
  exports :=
    { library :=
        { load := fun _ _ => rfl
          info := fun _ => rfl
          leads := fun _ _ _ hload => leads_of_loadFrom hload
          levels := ⟨r.spelled, fun _ hname => hname, Nat.lt_succ_of_le r.length_spelled,
            Nat.lt_of_le_of_lt r.length_spelled h⟩ }
      listed := rfl }
  load _ _ := rfl
  owned _ _ _ hload := owned_of_loadFrom hload
  script _ _ _ _ _ _ := trivial

/-! ### The whole loop -/

/-- The class of classes, a class that the options name, or one that the constant pool of a stored
class file spells. -/
def Named (r : Resources) (o : Options) (name : String) : Prop :=
  name = Piece.classClass ∨ name ∈ o.fixed ∨ name ∈ o.roots ∨
    ∃ data ∈ r.contents, ∃ f, ClassFile.read.parse data = .ok f ∧ name ∈ f.pool.spelled

lemma named_of_discoverable {r : Resources} {o : Options} {name : String}
    (h : name ∈ discoverable r o) :
    Named r o name := by
  simp only [discoverable, List.mem_cons, List.mem_append] at h
  rcases h with h | (h | h) | h
  · exact .inl h
  · exact .inr (.inl h)
  · exact .inr (.inr (.inl h))
  · obtain ⟨data, hdata, hname⟩ := List.mem_flatMap.mp h
    rw [Bytes.spelled] at hname
    split at hname
    next f hf => exact .inr (.inr (.inr ⟨data, hdata, f, hf, hname⟩))
    next => cases hname

/-- The run of the loop for a program: it takes up these classes and ends so. -/
structure Exploration (r : Resources) (o : Options) (names : List String)
    (result : Except ProgramError Progress) : Prop where
  /-- However far beyond the bytes stored hierarchies are followed, this is a run. -/
  runs : ∀ more, Explores (generatorTo r o (r.size + 1 + more)) o (start o) names result
  /-- There is no other. -/
  only : ∀ more names' result', Explores (generatorTo r o (r.size + 1 + more)) o
    (start o) names' result' →
    names' = names ∧ result' = result
  /-- Every class is taken up once. -/
  nodup : names.Nodup
  named : ∀ name ∈ names, Named r o name
  length_le : names.length ≤ 1 + o.fixed.length + o.roots.length + r.spelled.length

/-- The rounds that a program is given are more than the loop takes. -/
lemma start_explores (r : Resources) (o : Options) :
    ∃ names, Explores (generator r o) o (start o) names
      (discover (generator r o) o (bound r o) (start o)) ∧
      names.Nodup ∧ ∀ name ∈ names, name ∈ discoverable r o := by
  obtain ⟨waiting, hstart, hpassed⟩ := start_discovered r o
  obtain ⟨names, result, hrun, hnodup, hnames⟩ := hstart.explores hpassed
  rw [List.nil_append] at hnodup
  have hlength : names.length < bound r o :=
    Nat.lt_of_le_of_lt (List.subperm_of_subset hnodup hnames).length_le (length_discoverable r o)
  rw [hrun.discover_eq hlength]
  exact ⟨names, hrun, hnodup, hnames⟩

/-- **The loop of discovery ends for all resources and options.** It takes up no class twice, and
only classes that the options or the stored class files spell; the rounds that a program is given
are enough for it. -/
theorem exploration_ends (r : Resources) (o : Options) :
    ∃ names, Exploration r o names (discover (generator r o) o (bound r o) (start o)) := by
  obtain ⟨names, hrun, hnodup, hnames⟩ := start_explores r o
  have hruns (more : Nat) : Explores (generatorTo r o (r.size + 1 + more)) o (start o) names
      (discover (generator r o) o (bound r o) (start o)) :=
    ((twins_generatorTo r o (by omega)).explores (start_within _ _ o) hrun).1
  have hlength := (List.subperm_of_subset hnodup hnames).length_le
  refine ⟨names, hruns, fun more _ _ h => h.unique (hruns more), hnodup,
    fun name hname => named_of_discoverable (hnames name hname), ?_⟩
  simp only [discoverable, List.length_cons, List.length_append] at hlength
  omega

end ClassScript.Program
