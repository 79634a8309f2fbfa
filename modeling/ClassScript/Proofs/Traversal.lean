import ClassScript.Proofs.Initialization
import ClassScript.Proofs.SearchOrder
import ClassScript.Proofs.Spelling

/-!
A walk visits the hierarchy in the order of the search.

The walk keeps the names it has asked for, and it goes on to a number of levels. As long as its
visitor is not done, the names it has found are those that come earlier in the order, and it has
more levels left than there are classes to come. So it is never cut off, and whatever the visitor
does with a class is done for each class of the order in turn, until the visitor is done.
-/

namespace ClassScript

section

variable {ε σ α β : Type}

/-- From every state in `I` the computation has a result in `Q`, and the state stays in `I`. -/
def Returns (I : σ → Prop) (x : ExceptT ε (StateM σ) α) (Q : α → Prop) : Prop :=
  ∀ s, I s → ∃ a t, x s = (.ok a, t) ∧ I t ∧ Q a

namespace Returns

variable {I : σ → Prop} {x : ExceptT ε (StateM σ) α} {Q Q' : α → Prop}

lemma pure {a : α} (h : Q a) : Returns I (Pure.pure a : ExceptT ε (StateM σ) α) Q :=
  fun s hs => ⟨a, s, rfl, hs, h⟩

lemma bind {k : α → ExceptT ε (StateM σ) β} {R : β → Prop} (h : Returns I x Q)
    (hk : ∀ a, Q a → Returns I (k a) R) : Returns I (x >>= k) R := by
  intro s hs
  obtain ⟨a, t, hx, ht, ha⟩ := h s hs
  obtain ⟨b, u, hb, hu⟩ := hk a ha t ht
  exact ⟨b, u, (bind_ok hx).trans hb, hu⟩

lemma mono (h : Returns I x Q) (hQ : ∀ a, Q a → Q' a) : Returns I x Q' := fun s hs =>
  have ⟨a, t, hx, ht, ha⟩ := h s hs
  ⟨a, t, hx, ht, hQ a ha⟩

end Returns

end

lemma Library.find_returns {lib : Library} {name : String} {o : Option ClassDecl}
    (h : lib.load name = .ok o) :
    Returns (Cache.Holds lib) (lib.find name) (· = o) := by
  intro t ht
  obtain ⟨t', hrun, hgrows, -⟩ := find_run ht name
  exact ⟨o, t', hrun.trans (by rw [h]), hgrows.holds, rfl⟩

namespace Hierarchy

/-! ### Visitors -/

section

variable {τ : Type}

/-- What a visitor makes of these classes: it is given each in turn, until it is done. -/
def visitAll (visit : ClassDecl → τ → ForInStep τ) : List ClassDecl → τ → ForInStep τ
  | [], s => .yield s
  | c :: cs, s =>
    match visit c s with
    | .yield s => visitAll visit cs s
    | .done s => .done s

/-- A visitor that is done is given no more classes. -/
def resume (visit : ClassDecl → τ → ForInStep τ) (cs : List ClassDecl) : ForInStep τ → ForInStep τ
  | .yield s => visitAll visit cs s
  | .done s => .done s

lemma visitAll_cons (visit : ClassDecl → τ → ForInStep τ) (c : ClassDecl) (cs : List ClassDecl)
    (s : τ) :
    visitAll visit (c :: cs) s = resume visit cs (visit c s) := by
  rw [visitAll]
  cases visit c s <;> rfl

lemma visitAll_append (visit : ClassDecl → τ → ForInStep τ) (cs cs' : List ClassDecl) (s : τ) :
    visitAll visit (cs ++ cs') s = resume visit cs' (visitAll visit cs s) := by
  induction cs generalizing s with
  | nil => rfl
  | cons c cs ih =>
    rw [List.cons_append, visitAll_cons, visitAll_cons]
    cases visit c s with
    | yield s' => exact ih s'
    | done s' => rfl

lemma resume_append (visit : ClassDecl → τ → ForInStep τ) (cs cs' : List ClassDecl)
    (r : ForInStep τ) :
    resume visit (cs ++ cs') r = resume visit cs' (resume visit cs r) := by
  cases r with
  | yield s => exact visitAll_append visit cs cs' s
  | done s => rfl

/-- A visitor that notes each class, and ends the walk according to the classes noted. -/
def note (stop : List ClassDecl → Bool) (c : ClassDecl) (noted : List ClassDecl) :
    ForInStep (List ClassDecl) :=
  if stop (noted ++ [c]) then .done (noted ++ [c]) else .yield (noted ++ [c])

/-- The classes noted are all, if the visitor ends the walk nowhere, and those up to the first class
where it does so otherwise. -/
def Noted (stop : List ClassDecl → Bool) (all : List ClassDecl) : ForInStep (List ClassDecl) → Prop
  | .yield noted => noted = all ∧ ∀ cs c, cs ++ [c] <+: all → stop (cs ++ [c]) = false
  | .done noted => noted <+: all ∧ stop noted = true ∧ ∃ before last, noted = before ++ [last] ∧
      ∀ cs c, cs ++ [c] <+: before → stop (cs ++ [c]) = false

lemma noted_visitAll (stop : List ClassDecl → Bool) (before cs : List ClassDecl)
    (hbefore : ∀ ds d, ds ++ [d] <+: before → stop (ds ++ [d]) = false) :
    Noted stop (before ++ cs) (visitAll (note stop) cs before) := by
  induction cs generalizing before with
  | nil =>
    rw [List.append_nil]
    exact ⟨rfl, hbefore⟩
  | cons c cs ih =>
    rw [visitAll_cons, note]
    cases hstop : stop (before ++ [c]) with
    | true => exact ⟨⟨cs, by simp⟩, hstop, before, c, rfl, hbefore⟩
    | false =>
      have hnext : ∀ ds d, ds ++ [d] <+: before ++ [c] → stop (ds ++ [d]) = false := by
        intro ds d hds
        rcases List.prefix_concat_iff.mp hds with heq | hds
        · rw [heq, hstop]
        · exact hbefore ds d hds
      have h := ih (before ++ [c]) hnext
      rwa [List.append_assoc] at h

/-- A visitor that is done at the first class for which there is an answer. -/
def answer {α : Type} (select : ClassDecl → Option α) (c : ClassDecl) (s : Option (ClassDecl × α)) :
    ForInStep (Option (ClassDecl × α)) :=
  match select c with
  | some a => .done (some (c, a))
  | none => .yield s

lemma value_visitAll_answer {α : Type} (select : ClassDecl → Option α) (cs : List ClassDecl) :
    (visitAll (answer select) cs none).value = cs.findSome? fun c => (select c).map (c, ·) := by
  induction cs with
  | nil => rfl
  | cons c cs ih =>
    rw [visitAll, List.findSome?_cons, answer]
    cases select c with
    | some a => rfl
    | none => exact ih

end

/-! ### A walk whose visitor is done -/

section

variable {m : Type → Type} [Monad m] {τ : Type} {find : String → m (Option ClassDecl)}
  {visit : ClassDecl → τ → m (ForInStep τ)}

variable [LawfulMonad m]

lemma spread_append (levels : Nat) (names names' : List String) (w : Walk τ) :
    spread find visit levels (names ++ names') w =
      spread find visit levels names w >>= spread find visit levels names' := by
  cases levels with
  | zero => simp only [spread, pure_bind]
  | succ levels => simp only [spread, List.foldlM_append]

lemma spread_done (levels : Nat) (names : List String) (seen : List String) (s : τ) :
    spread find visit levels names ⟨seen, .done s⟩ = pure ⟨seen, .done s⟩ := by
  cases levels with
  | zero => rfl
  | succ levels =>
    rw [spread]
    induction names with
    | nil => rfl
    | cons name names ih => rw [List.foldlM_cons, pure_bind, ih]

lemma spread_cons_of_mem {levels : Nat} {name : String} {names seen : List String} {s : τ}
    (h : name ∈ seen) :
    spread find visit (levels + 1) (name :: names) ⟨seen, .yield s⟩ =
      spread find visit (levels + 1) names ⟨seen, .yield s⟩ := by
  have hmem : seen.contains name = true := List.contains_iff_mem.mpr h
  rw [spread, List.foldlM_cons]
  simp only [hmem, if_true, pure_bind]
  rw [← spread]

lemma spread_cons_of_not_mem {levels : Nat} {name : String} {names seen : List String} {s : τ}
    (h : name ∉ seen) :
    spread find visit (levels + 1) (name :: names) ⟨seen, .yield s⟩ =
      find name >>= fun o =>
        match o with
        | none => spread find visit (levels + 1) names ⟨name :: seen, .yield s⟩
        | some c => visit c s >>= fun r =>
          spread find visit levels c.interfaces ⟨name :: seen, r⟩ >>= spread find visit
            (levels + 1) names := by
  have hmem : seen.contains name = false := by simpa using h
  rw [spread, List.foldlM_cons]
  simp only [hmem, Bool.false_eq_true, if_false, bind_assoc]
  refine bind_congr fun o => ?_
  cases o with
  | none => exact pure_bind _ _
  | some c => exact bind_assoc _ _ _

lemma foldlM_spread (levels : Nat) (cs : List ClassDecl) (w : Walk τ) :
    cs.foldlM (fun w c => spread find visit levels c.interfaces w) w =
      spread find visit levels (cs.flatMap (·.interfaces)) w := by
  induction cs generalizing w with
  | nil => cases levels <;> rfl
  | cons c cs ih =>
    rw [List.foldlM_cons, List.flatMap_cons, spread_append]
    exact bind_congr fun w => ih w

end

/-! ### A walk and the order -/

section

variable {ε σ τ : Type} {I : σ → Prop} {lib : Library} {U met names seen : List String}
  {levels : Nat}
  {find : String → ExceptT ε (StateM σ) (Option ClassDecl)}
  {visit : ClassDecl → τ → ExceptT ε (StateM σ) (ForInStep τ)} {f : ClassDecl → τ → ForInStep τ}

/-- The names asked for are those met in the order, and such as have no class. -/
structure Meets (lib : Library) (seen met : List String) : Prop where
  subset : ∀ n ∈ met, n ∈ seen
  missing : ∀ n ∈ seen, n ∉ met → lib.load n = .ok none

namespace Meets

variable {name : String}

lemma not_mem (h : Meets lib seen met) (hnew : name ∉ met) {c : ClassDecl}
    (hload : lib.load name = .ok (some c)) :
    name ∉ seen := by
  intro hmem
  have hnone := h.missing name hmem hnew
  rw [hload] at hnone
  cases hnone

lemma pass (h : Meets lib seen met) (hload : lib.load name = .ok none) :
    Meets lib (name :: seen) met where
  subset n hn := List.mem_cons_of_mem _ (h.subset n hn)
  missing n hn hnew := by
    rcases List.mem_cons.mp hn with rfl | hn
    · exact hload
    · exact h.missing n hn hnew

lemma enter (h : Meets lib seen met) : Meets lib (name :: seen) (name :: met) where
  subset n hn := by
    rcases List.mem_cons.mp hn with rfl | hn
    · exact List.mem_cons_self
    · exact List.mem_cons_of_mem _ (h.subset n hn)
  missing n hn hnew := by
    rw [List.mem_cons, not_or] at hnew
    exact h.missing n ((List.mem_cons.mp hn).resolve_left hnew.1) hnew.2

lemma of_iff {met' : List String} (h : Meets lib seen met) (hsame : ∀ n, n ∈ met ↔ n ∈ met') :
    Meets lib seen met' where
  subset n hn := h.subset n ((hsame n).mpr hn)
  missing n hn hnew := h.missing n hn fun hmem => hnew ((hsame n).mp hmem)

end Meets

/-- Where a walk stands in the order, unless its visitor is done. -/
def Walk.At (lib : Library) (met : List String) (w : Walk τ) : Prop :=
  ∀ s, w.result = .yield s → Meets lib w.seen met

lemma Walk.At.of_iff {met' : List String} {w : Walk τ} (h : w.At lib met)
    (hsame : ∀ n, n ∈ met ↔ n ∈ met') :
    w.At lib met' :=
  fun s hs => (h s hs).of_iff hsame

lemma climb_returns (hfind : ∀ n o, lib.load n = .ok o → Returns I (find n) (· = o))
    {next : Option String} {chain : List (String × ClassDecl)} (h : Superclasses lib met next chain)
    (hvisit : ∀ x ∈ chain, ∀ s, Returns I (visit x.2 s) (· = f x.2 s)) (hU : ∀ x ∈ chain, x.1 ∈ U)
    (hroom : Room U levels met) {w : Walk τ} (hw : w.At lib met) :
    Returns I (climb find visit levels next w) fun r =>
      r.1.result = resume f (chain.map Prod.snd) w.result ∧ r.1.At lib (chain.map Prod.fst ++ met) ∧
        ∀ s, r.1.result = .yield s → r.2 = chain.map Prod.snd := by
  -- the induction is on the classes above; a walk that is done stays as it is
  induction h generalizing levels w with
  | top =>
    obtain ⟨levels, rfl⟩ := hroom.exists_succ
    obtain ⟨seen, _ | s⟩ := w <;> exact .pure ⟨rfl, hw, fun _ _ => rfl⟩
  | @again met name hmet =>
    obtain ⟨levels, rfl⟩ := hroom.exists_succ
    obtain ⟨seen, s | s⟩ := w
    · exact .pure ⟨rfl, hw, fun _ _ => rfl⟩
    · have hmem : seen.contains name = true :=
        List.contains_iff_mem.mpr ((hw s rfl).subset name hmet)
      simp only [climb, hmem, if_true]
      exact .pure ⟨rfl, hw, fun _ _ => rfl⟩
  | @missing met name hload =>
    obtain ⟨levels, rfl⟩ := hroom.exists_succ
    obtain ⟨seen, s | s⟩ := w
    · exact .pure ⟨rfl, hw, fun _ _ => rfl⟩
    · simp only [climb]
      split
      · exact .pure ⟨rfl, hw, fun _ _ => rfl⟩
      · refine .bind (hfind name none hload) fun o ho => ?_
        subst ho
        exact .pure ⟨rfl, fun _ _ => (hw s rfl).pass hload, fun _ _ => rfl⟩
  | @found met name c chain hnew hload habove ih =>
    obtain ⟨levels, rfl⟩ := hroom.exists_succ
    obtain ⟨hname, hU⟩ := List.forall_mem_cons.mp hU
    obtain ⟨hc, hvisit⟩ := List.forall_mem_cons.mp hvisit
    obtain ⟨seen, s | s⟩ := w
    · refine .pure ⟨rfl, ?_, ?_⟩
      · rintro s' ⟨⟩
      · rintro s' ⟨⟩
    · have hseen := hw s rfl
      have hmem : seen.contains name = false := by simpa using hseen.not_mem hnew hload
      simp only [climb, hmem]
      refine .bind (hfind name _ hload) fun o ho => ?_
      subst ho
      refine .bind (hc s) fun r hr => ?_
      subst hr
      refine .bind (ih hvisit hU (hroom.cons hname hnew) fun _ _ => hseen.enter) fun r hr => ?_
      obtain ⟨hresult, hat, hchain⟩ := hr
      refine .pure ⟨?_, ?_, fun s' hs' => ?_⟩
      · rw [hresult]
        exact (visitAll_cons f c _ s).symm
      · exact hat.of_iff fun n => by simp [or_left_comm]
      · rw [hchain s' hs', List.map_cons]

/-- Whatever is to come, a visitor that is done stays so. -/
lemma spread_done_returns (cs : List ClassDecl) (met : List String) (s : τ) :
    Returns I (spread find visit levels names ⟨seen, .done s⟩) fun w =>
      w.result = resume f cs (.done s) ∧ w.At lib met := by
  rw [spread_done]
  exact .pure ⟨rfl, by rintro s' ⟨⟩⟩

lemma spread_returns (hfind : ∀ n o, lib.load n = .ok o → Returns I (find n) (· = o))
    {interfaces : List (String × ClassDecl)} (h : Preorder lib met names interfaces)
    (hvisit : ∀ x ∈ interfaces, ∀ s, Returns I (visit x.2 s) (· = f x.2 s))
    (hU : ∀ x ∈ interfaces, x.1 ∈ U) (hroom : Room U levels met) {w : Walk τ} (hw : w.At lib met) :
    Returns I (spread find visit levels names w) fun w' =>
      w'.result = resume f (interfaces.map Prod.snd) w.result ∧
        w'.At lib (interfaces.map Prod.fst ++ met) := by
  -- the induction follows the order; a level is left for each class that is still to be met
  induction h generalizing levels w with
  | nil =>
    obtain ⟨levels, rfl⟩ := hroom.exists_succ
    obtain ⟨seen, s | s⟩ := w <;> exact .pure ⟨rfl, hw⟩
  | @again met name names rest hmet _ ih =>
    obtain ⟨levels, rfl⟩ := hroom.exists_succ
    obtain ⟨seen, s | s⟩ := w
    · exact spread_done_returns _ _ _
    · rw [spread_cons_of_mem ((hw s rfl).subset name hmet)]
      exact ih hvisit hU hroom hw
  | @missing met name names rest hload _ ih =>
    obtain ⟨levels, rfl⟩ := hroom.exists_succ
    obtain ⟨seen, s | s⟩ := w
    · exact spread_done_returns _ _ _
    · by_cases hmem : name ∈ seen
      · rw [spread_cons_of_mem hmem]
        exact ih hvisit hU hroom hw
      · rw [spread_cons_of_not_mem hmem]
        refine .bind (hfind name none hload) fun o ho => ?_
        subst ho
        exact ih hvisit hU hroom fun _ _ => (hw s rfl).pass hload
  | @found met name names c above rest hnew hload habove _ ih ih' =>
    obtain ⟨levels, rfl⟩ := hroom.exists_succ
    obtain ⟨hname, hU⟩ := List.forall_mem_cons.mp hU
    obtain ⟨hUabove, hUrest⟩ := List.forall_mem_append.mp hU
    obtain ⟨hc, hvisit⟩ := List.forall_mem_cons.mp hvisit
    obtain ⟨habove', hrest'⟩ := List.forall_mem_append.mp hvisit
    obtain ⟨seen, s | s⟩ := w
    · exact spread_done_returns _ _ _
    · have hseen := hw s rfl
      have hinner := hroom.cons hname hnew
      have houter :=
        (hinner.append habove.fresh.1 habove.fresh.2 (List.forall_mem_map.mpr hUabove)).succ
      rw [spread_cons_of_not_mem (hseen.not_mem hnew hload)]
      refine .bind (hfind name _ hload) fun o ho => ?_
      subst ho
      refine .bind (hc s) fun r hr => ?_
      subst hr
      refine .bind (ih habove' hUabove hinner fun _ _ => hseen.enter) fun w hw => ?_
      refine (ih' hrest' hUrest houter hw.2).mono fun w' hw' => ⟨?_, hw'.2.of_iff fun n => ?_⟩
      · calc w'.result = resume f (rest.map Prod.snd) (resume f (above.map Prod.snd) (f c s)) := by
              rw [hw'.1, hw.1]
          _ = resume f (((name, c) :: above ++ rest).map Prod.snd) (.yield s) := by
              rw [← resume_append, ← List.map_append]
              exact (visitAll_cons f c _ s).symm
      · simp only [List.cons_append, List.map_cons, List.map_append, List.mem_cons, List.mem_append]
        tauto

/-- A walk starts with the superclasses. -/
lemma climb_start_returns (hfind : ∀ n o, lib.load n = .ok o → Returns I (find n) (· = o))
    {start : String} {chain : List (String × ClassDecl)}
    (h : Superclasses lib [] (some start) chain)
    (hvisit : ∀ x ∈ chain, ∀ s, Returns I (visit x.2 s) (· = f x.2 s))
    (hlevels : chain.length < levels) (init : τ) :
    Returns I (climb find visit levels (some start) ⟨[], .yield init⟩) fun r =>
      r.1.result = visitAll f (chain.map Prod.snd) init ∧ r.1.At lib (chain.map Prod.fst) ∧
        ∀ s, r.1.result = .yield s → r.2 = chain.map Prod.snd := by
  have hroom : Room (chain.map Prod.fst) levels [] := .start (by simpa using hlevels)
  have hstart : Walk.At lib [] (⟨[], .yield init⟩ : Walk τ) := fun _ _ => ⟨by simp, by simp⟩
  have hclimb := climb_returns hfind h hvisit (fun x hx => List.mem_map_of_mem hx) hroom hstart
  rwa [List.append_nil] at hclimb

/-- **A walk gives its visitor the classes of the order in turn, until the visitor is done.** -/
lemma walk_returns_of_mem (hfind : ∀ n o, lib.load n = .ok o → Returns I (find n) (· = o))
    {start : String} {chain interfaces : List (String × ClassDecl)}
    (h : SearchOrder lib start chain interfaces)
    (hvisit : ∀ x ∈ chain ++ interfaces, ∀ s, Returns I (visit x.2 s) (· = f x.2 s))
    (hlevels : (chain ++ interfaces).length < levels) (init : τ) :
    Returns I (walk find levels start init visit)
      (· = visitAll f ((chain ++ interfaces).map Prod.snd) init) := by
  obtain ⟨hchain, hinterfaces⟩ := List.forall_mem_append.mp hvisit
  have hless : chain.length < levels := by
    rw [List.length_append] at hlevels
    omega
  refine .bind (climb_start_returns hfind h.superclasses hchain hless init) fun r hr => ?_
  obtain ⟨w, cs⟩ := r
  obtain ⟨hresult, hat, hcs⟩ := hr
  dsimp only at hresult hat hcs ⊢
  rw [List.map_append, visitAll_append, ← hresult, foldlM_spread]
  obtain ⟨seen, s | s⟩ := w
  · rw [spread_done, pure_bind]
    exact .pure rfl
  · have hlisted : cs.flatMap (·.interfaces) = chain.flatMap (·.2.interfaces) := by
      rw [hcs s rfl, List.flatMap_map]
    have hU : ∀ x ∈ chain ++ interfaces, x.1 ∈ (chain ++ interfaces).map Prod.fst :=
      fun x hx => List.mem_map_of_mem hx
    obtain ⟨hUchain, hUinterfaces⟩ := List.forall_mem_append.mp hU
    have hroom : Room ((chain ++ interfaces).map Prod.fst) levels (chain.map Prod.fst ++ []) :=
      Room.append (.start (by simpa using hlevels)) h.superclasses.fresh.1
        h.superclasses.fresh.2 (List.forall_mem_map.mpr hUchain)
    rw [List.append_nil] at hroom
    rw [hlisted]
    exact .bind (spread_returns hfind h.preorder hinterfaces hUinterfaces hroom hat)
      fun w hw => .pure hw.1

lemma walk_returns (hfind : ∀ n o, lib.load n = .ok o → Returns I (find n) (· = o))
    (hvisit : ∀ c s, Returns I (visit c s) (· = f c s)) {start : String}
    {chain interfaces : List (String × ClassDecl)} (h : SearchOrder lib start chain interfaces)
    (hlevels : (chain ++ interfaces).length < levels) (init : τ) :
    Returns I (walk find levels start init visit)
      (· = visitAll f ((chain ++ interfaces).map Prod.snd) init) :=
  walk_returns_of_mem hfind h (fun x _ => hvisit x.2) hlevels init

lemma first?_returns {α : Type} (hfind : ∀ n o, lib.load n = .ok o → Returns I (find n) (· = o))
    {start : String} {chain interfaces : List (String × ClassDecl)}
    (h : SearchOrder lib start chain interfaces) (hlevels : (chain ++ interfaces).length < levels)
    (select : ClassDecl → Option α) :
    Returns I (first? find levels start select)
      (· = ((chain ++ interfaces).map Prod.snd).findSome? fun c => (select c).map (c, ·)) := by
  have hvisit (c : ClassDecl) (s : Option (ClassDecl × α)) :
      Returns I (pure (answer select c s) : ExceptT ε (StateM σ) _) (· = answer select c s) :=
        .pure rfl
  refine .bind (walk_returns hfind hvisit h hlevels none) fun r hr => .pure ?_
  rw [hr, value_visitAll_answer]

end

/-! ### The levels of a library -/

variable {r : Resources} {start : String} {chain interfaces : List (String × ClassDecl)}

/-- A search asks for its first name, and for names that the resources spell. -/
lemma eq_or_mem_of_asked {name : String} (h : Asked (Library.ofResources r) start name) :
    name = start ∨ name ∈ r.spelled := by
  rcases h with h | h
  · cases h with
    | start => exact .inl rfl
    | superclass _ hload hsuper =>
      obtain ⟨hspells, hsub⟩ := Library.spells_of_loadFrom hload
      exact .inr (hsub (hspells.superName _ hsuper))
  · cases h with
    | listed _ hload hi =>
      obtain ⟨hspells, hsub⟩ := Library.spells_of_loadFrom hload
      exact .inr (hsub (hspells.interfaces _ hi))
    | extended _ hload hi =>
      obtain ⟨hspells, hsub⟩ := Library.spells_of_loadFrom hload
      exact .inr (hsub (hspells.interfaces _ hi))

lemma SearchOrder.asked {lib : Library} (h : SearchOrder lib start chain interfaces) :
    ∀ x ∈ chain ++ interfaces, Asked lib start x.1 := by
  rintro ⟨name, c⟩ hx
  rcases List.mem_append.mp hx with hx | hx
  · exact .inl ((h.mem_chain_iff name c).mp hx).1
  · exact .inr ((h.mem_interfaces_iff name c).mp hx).1

/-- There are no more classes in an order than bytes: one that is found at all has its name spelled,
and three bytes go with every two names that are. -/
lemma SearchOrder.length_le_of {lib : Library} (h : SearchOrder lib start chain interfaces)
    (hasked : ∀ n, Asked lib start n → n = start ∨ n ∈ r.spelled)
    (hloads : ∀ n c, lib.load n = .ok (some c) → Library.loadFrom r n = .ok (some c)) :
    (chain ++ interfaces).length ≤ r.size := by
  have hsub : (chain ++ interfaces).map Prod.fst ⊆ start :: r.spelled := by
    intro n hn
    obtain ⟨x, hx, rfl⟩ := List.mem_map.mp hn
    rcases hasked x.1 (h.asked x hx) with heq | hmem
    · exact heq ▸ List.mem_cons_self
    · exact List.mem_cons_of_mem _ hmem
  have hlength := (List.subperm_of_subset h.nodup hsub).length_le
  rw [List.length_map, List.length_cons] at hlength
  cases hall : chain ++ interfaces with
  | nil => exact Nat.zero_le _
  | cons x xs =>
    have hx : x ∈ chain ++ interfaces := hall ▸ List.mem_cons_self
    have hload : lib.load x.1 = .ok (some x.2) :=
      (List.mem_append.mp hx).elim (h.superclasses.loaded x) (h.preorder.loaded x)
    obtain ⟨hspells, hsub⟩ := Library.spells_of_loadFrom (hloads x.1 x.2 hload)
    have hlt := Resources.length_spelled_lt (hsub hspells.name)
    rw [← hall]
    omega

/-- A walk has a level for each class. -/
lemma SearchOrder.length_le (h : SearchOrder (Library.ofResources r) start chain interfaces) :
    (chain ++ interfaces).length ≤ r.size :=
  h.length_le_of (fun _ => eq_or_mem_of_asked) fun _ _ hload => hload

/-! ### Searching -/

/-- A hierarchy is searched in the order of `chain` and then `interfaces`, which have the classes
that can be reached, each once: this is what any visitor is shown, to as many levels as the library
has or more, and what members are looked up by. -/
structure Searched (lib : Library) (start : String)
    (chain interfaces : List (String × ClassDecl)) : Prop where
  order : SearchOrder lib start chain interfaces
  nodup : ((chain ++ interfaces).map Prod.fst).Nodup
  mem_chain : ∀ name c, (name, c) ∈ chain ↔ Above lib start name ∧ lib.load name = .ok (some c)
  mem_interfaces : ∀ name c, (name, c) ∈ interfaces ↔
    Implemented lib start name ∧ ¬ Above lib start name ∧ lib.load name = .ok (some c)
  visits : ∀ {τ : Type} (visit : ClassDecl → τ → ForInStep τ) (init : τ) (levels : Nat),
    lib.reach ≤ levels →
    Returns (Cache.Holds lib) (walk lib.find levels start init fun c s => pure (visit c s))
      (· = visitAll visit ((chain ++ interfaces).map Prod.snd) init)
  notes : ∀ (stop : List ClassDecl → Bool) (levels : Nat), lib.reach ≤ levels →
    Returns (Cache.Holds lib) (walk lib.find levels start [] fun c noted =>
      pure (note stop c noted))
      (Noted stop ((chain ++ interfaces).map Prod.snd))
  method : ∀ name descriptor, Returns (Cache.Holds lib) (lib.findMethod start name descriptor)
    (· = ((chain ++ interfaces).map Prod.snd).findSome? fun c =>
      (c.method? name descriptor).map (c, ·))
  field : ∀ name descriptor, Returns (Cache.Holds lib) (lib.findField start name descriptor)
    (· = ((chain ++ interfaces).map Prod.snd).findSome? fun c =>
      (c.field? name descriptor).map (c, ·))

/-- **Every hierarchy is searched in its order, to the end.** There may be cycles in it, several
ways to a class, and classes that are missing; only no class on the way fails to load. -/
theorem hierarchy_searched_in_order (r : Resources) (start : String)
    (hload : ∀ name, Asked (Library.ofResources r) start name →
      ∃ o, Library.loadFrom r name = .ok o) :
    ∃ chain interfaces, Searched (Library.ofResources r) start chain interfaces := by
  have hnames : ∀ n c, Asked (Library.ofResources r) start n →
      (Library.ofResources r).load n = .ok (some c) →
      n ∈ start :: r.spelled := fun n _ hn _ => List.mem_cons.mpr (eq_or_mem_of_asked hn)
  obtain ⟨chain, interfaces, h⟩ := exists_searchOrder hnames hload
  have hfind (n : String) (o : Option ClassDecl) (hn : (Library.ofResources r).load n = .ok o) :=
    Library.find_returns hn
  have hreach : (chain ++ interfaces).length < (Library.ofResources r).reach :=
    Nat.lt_succ_of_le h.length_le
  have hvisits {τ : Type} (visit : ClassDecl → τ → ForInStep τ) (init : τ) (levels : Nat)
      (hlevels : (Library.ofResources r).reach ≤ levels) :=
    walk_returns hfind (fun c s => .pure (a := visit c s) rfl) h
      (Nat.lt_of_lt_of_le hreach hlevels) init
  refine ⟨chain, interfaces, ?_⟩
  exact
    { order := h
      nodup := h.nodup
      mem_chain := h.mem_chain_iff
      mem_interfaces := h.mem_interfaces_iff
      visits := hvisits
      notes := fun stop levels hlevels => by
        refine (hvisits (note stop) [] levels hlevels).mono fun r hr => ?_
        rw [hr]
        exact noted_visitAll stop [] _ (by simp)
      method := fun name descriptor => first?_returns hfind h hreach _
      field := fun name descriptor => first?_returns hfind h hreach _ }

/-- The superclasses of `A` go in a circle, and so do its interfaces; `K` is missing. -/
def tangle : Resources := ⟨[.stored [
  ("A.class", Program.sampleFile "A" (some "B") (some "I") none),
  ("B.class", Program.sampleFile "B" (some "C") (some "J") none),
  ("C.class", Program.sampleFile "C" (some "A") (some "K") none),
  ("I.class", Program.sampleFile "I" none (some "J") none),
  ("J.class", Program.sampleFile "J" none (some "I") none)]]⟩

lemma tangle_loads {name : String} (h : Asked (Library.ofResources tangle) "A" name) :
    ∃ o, Library.loadFrom tangle name = .ok o := by
  have hall : ∀ n ∈ "A" :: tangle.spelled, (Library.loadFrom tangle n).toOption.isSome := by
    decide +kernel
  have hsome := hall name (List.mem_cons.mpr (eq_or_mem_of_asked h))
  cases hload : Library.loadFrom tangle name with
  | ok o => exact ⟨o, rfl⟩
  | error e =>
    rw [hload] at hsome
    cases hsome

def namesFrom (lib : Library) (start : String) : List String :=
  match walk lib.find lib.reach start []
    (fun c noted => pure (note (fun _ => false) c noted)) {} with
  | (.ok result, _) => result.value.map ClassDecl.name
  | (.error _, _) => []

lemma Searched.namesFrom_eq {lib : Library} (h : Searched lib start chain interfaces) :
    namesFrom lib start = (chain ++ interfaces).map (·.2.name) := by
  have hempty : Cache.Holds lib {} := by rintro n v ⟨⟩
  obtain ⟨result, t, hrun, -, hnoted⟩ := h.notes (fun _ => false) _ (Nat.le_refl _) {} hempty
  rw [namesFrom, hrun]
  cases result with
  | yield noted =>
    dsimp only [ForInStep.value]
    rw [hnoted.1, List.map_map]
    rfl
  | done noted => cases hnoted.2.1

theorem hierarchy_searched_in_order_tangle :
    ∃ chain interfaces, Searched (Library.ofResources tangle) "A" chain interfaces ∧
      (chain ++ interfaces).map (·.2.name) = ["A", "B", "C", "I", "J"] := by
  have hnames : namesFrom (Library.ofResources tangle) "A" = ["A", "B", "C", "I", "J"] := by
    decide +kernel
  obtain ⟨chain, interfaces, h⟩ := hierarchy_searched_in_order tangle "A" fun _ => tangle_loads
  exact ⟨chain, interfaces, h, h.namesFrom_eq.symm.trans hnames⟩

end Hierarchy

end ClassScript
