import ClassScript.Proofs.Traversal

/-!
The interfaces of a hierarchy by a stack of names.

Names that are still to be looked up wait on a stack. The interfaces of a class are pushed from the
last to the first, so the first of them is looked up next, and what is above it comes before what
is above the second. No levels are counted. This finds the interfaces in the order of the search.
-/

namespace ClassScript.Hierarchy

section

variable {m : Type → Type} [Monad m] {τ : Type}

/-- The stack with these names on it, the first on top. -/
def push (names stack : List String) : List String :=
  names.reverse.foldl (fun waiting name => name :: waiting) stack

/-- Takes one name after another off the stack, for at most so many turns, and visits what is
found; the interfaces above it go on the stack. -/
def drain (find : String → m (Option ClassDecl)) (visit : ClassDecl → τ → m (ForInStep τ)) :
    Nat → List String → Walk τ → m (Walk τ)
  | 0, _, w => return w
  | _, [], w => return w
  | turns + 1, name :: stack, w =>
    match w.result with
    | .done _ => return w
    | .yield s =>
      if w.seen.contains name then drain find visit turns stack w
      else do
        let seen := name :: w.seen
        match ← find name with
        | none => drain find visit turns stack ⟨seen, .yield s⟩
        | some c => drain find visit turns (push c.interfaces stack) ⟨seen, ← visit c s⟩

/-- The walk, with a stack of names for the interfaces of each class in the chain. -/
def sweep (find : String → m (Option ClassDecl)) (levels turns : Nat) (start : String) (init : τ)
    (visit : ClassDecl → τ → m (ForInStep τ)) : m (ForInStep τ) := do
  let (w, chain) ← climb find visit levels (some start) ⟨[], .yield init⟩
  let w ← chain.foldlM (fun w c => drain find visit turns (push c.interfaces []) w) w
  return w.result

end

lemma push_eq (names stack : List String) : push names stack = names ++ stack := by
  rw [push, List.foldl_reverse]
  induction names with
  | nil => rfl
  | cons name names ih => rw [List.foldr_cons, ih, List.cons_append]

/-! ### The order of a part of the names -/

namespace Preorder

variable {lib : Library} {met names : List String} {interfaces : List (String × ClassDecl)}

lemma congr {met' : List String} (h : Preorder lib met names interfaces)
    (hsame : ∀ n, n ∈ met ↔ n ∈ met') : Preorder lib met' names interfaces := by
  induction h generalizing met' with
  | nil => exact .nil
  | again hmet _ ih => exact .again ((hsame _).mp hmet) (ih hsame)
  | missing hload _ ih => exact .missing hload (ih hsame)
  | found hnew hload _ _ ih ih' =>
    refine .found (fun hmem => hnew ((hsame _).mpr hmem)) hload (ih fun n => ?_) (ih' fun n => ?_)
    · rw [List.mem_cons, List.mem_cons, hsame]
    · rw [List.mem_append, List.mem_append, List.mem_cons, List.mem_cons, hsame]

lemma append {names' : List String} (h : Preorder lib met (names ++ names') interfaces) :
    ∃ first rest, interfaces = first ++ rest ∧ Preorder lib met names first ∧
      Preorder lib (first.map Prod.fst ++ met) names' rest := by
  generalize hall : names ++ names' = all at h
  -- the cases below are those of a first name; if there is none, all that is found is the rest
  induction h generalizing names with
  | nil =>
    obtain ⟨rfl, rfl⟩ := List.append_eq_nil_iff.mp hall
    exact ⟨[], [], rfl, .nil, .nil⟩
  | again hmet h ih =>
    rcases List.append_eq_cons_iff.mp hall with ⟨rfl, rfl⟩ | ⟨tail, rfl, htail⟩
    · exact ⟨[], _, rfl, .nil, .again hmet h⟩
    · obtain ⟨first, rest, rfl, hfirst, hrest⟩ := ih htail.symm
      exact ⟨first, rest, rfl, .again hmet hfirst, hrest⟩
  | missing hload h ih =>
    rcases List.append_eq_cons_iff.mp hall with ⟨rfl, rfl⟩ | ⟨tail, rfl, htail⟩
    · exact ⟨[], _, rfl, .nil, .missing hload h⟩
    · obtain ⟨first, rest, rfl, hfirst, hrest⟩ := ih htail.symm
      exact ⟨first, rest, rfl, .missing hload hfirst, hrest⟩
  | @found met name names c above rest hnew hload habove h ih ih' =>
    rcases List.append_eq_cons_iff.mp hall with ⟨rfl, rfl⟩ | ⟨tail, rfl, htail⟩
    · exact ⟨[], _, rfl, .nil, .found hnew hload habove h⟩
    · obtain ⟨first, rest, rfl, hfirst, hrest⟩ := ih' htail.symm
      refine ⟨(name, c) :: above ++ first, rest, ?_, .found hnew hload habove hfirst, ?_⟩
      · rw [List.append_assoc]
      · refine hrest.congr fun n => ?_
        simp only [List.cons_append, List.map_cons, List.map_append, List.mem_cons,
          List.mem_append]
        tauto

end Preorder

/-! ### The stack and the order -/

section

variable {m : Type → Type} [Monad m] {τ : Type} {find : String → m (Option ClassDecl)}
  {visit : ClassDecl → τ → m (ForInStep τ)} {turns : Nat} {name : String} {stack seen : List String}
  {s : τ}

lemma drain_nil (w : Walk τ) : drain find visit turns [] w = pure w := by
  cases turns <;> rfl

lemma drain_done : drain find visit turns stack ⟨seen, .done s⟩ = pure ⟨seen, .done s⟩ := by
  cases turns <;> cases stack <;> rfl

lemma drain_cons_of_mem (h : name ∈ seen) :
    drain find visit (turns + 1) (name :: stack) ⟨seen, .yield s⟩ =
      drain find visit turns stack ⟨seen, .yield s⟩ := by
  have hmem : seen.contains name = true := List.contains_iff_mem.mpr h
  rw [drain]
  simp only [hmem, if_true]

lemma drain_cons_of_not_mem (h : name ∉ seen) :
    drain find visit (turns + 1) (name :: stack) ⟨seen, .yield s⟩ =
      find name >>= fun o =>
        match o with
        | none => drain find visit turns stack ⟨name :: seen, .yield s⟩
        | some c => visit c s >>= fun r =>
          drain find visit turns (c.interfaces ++ stack) ⟨name :: seen, r⟩ := by
  have hmem : seen.contains name = false := by simpa using h
  rw [drain]
  simp only [hmem, push_eq]
  rfl

lemma foldlM_drain_done [LawfulMonad m] (cs : List ClassDecl) :
    cs.foldlM (fun w c => drain find visit turns (push c.interfaces []) w) ⟨seen, .done s⟩ =
      pure ⟨seen, .done s⟩ := by
  induction cs with
  | nil => rfl
  | cons c cs ih => rw [List.foldlM_cons, drain_done, pure_bind, ih]

end

section

variable {ε σ τ : Type} {I : σ → Prop} {lib : Library} {met names stack : List String}
  {turns turns' : Nat} {find : String → ExceptT ε (StateM σ) (Option ClassDecl)}
  {visit : ClassDecl → τ → ExceptT ε (StateM σ) (ForInStep τ)} {f : ClassDecl → τ → ForInStep τ}

def pushed (found : List (String × ClassDecl)) : Nat :=
  (found.map (·.2.interfaces.length)).sum

lemma pushed_cons (x : String × ClassDecl) (found : List (String × ClassDecl)) :
    pushed (x :: found) = x.2.interfaces.length + pushed found := rfl

lemma pushed_append (found found' : List (String × ClassDecl)) :
    pushed (found ++ found') = pushed found + pushed found' := by
  rw [pushed, List.map_append, List.sum_append_nat, ← pushed, ← pushed]

/-- A visitor that is done leaves the stack as it is, whatever is on it. -/
lemma drain_done_returns {cs : List ClassDecl} {seen : List String} {s : τ} {Q : Walk τ → Prop}
    (hbelow : ∀ k w, turns ≤ k → w.result = resume f cs (.done s) → w.At lib met →
      Returns I (drain find visit k stack w) Q) :
    Returns I (drain find visit turns' names ⟨seen, .done s⟩) Q := by
  have hdone := hbelow turns ⟨seen, .done s⟩ le_rfl rfl (by rintro s' ⟨⟩)
  rw [drain_done] at hdone ⊢
  exact hdone

/-- What is on top of the stack is found in its order, and then comes what is below it. -/
lemma drain_append_returns (hfind : ∀ n o, lib.load n = .ok o → Returns I (find n) (· = o))
    {interfaces : List (String × ClassDecl)} (h : Preorder lib met names interfaces)
    (hvisit : ∀ x ∈ interfaces, ∀ s, Returns I (visit x.2 s) (· = f x.2 s)) {Q : Walk τ → Prop}
    {w : Walk τ} (hw : w.At lib met) (hturns : names.length + pushed interfaces + turns ≤ turns')
    (hbelow : ∀ k w', turns ≤ k → w'.result = resume f (interfaces.map Prod.snd) w.result →
      w'.At lib (interfaces.map Prod.fst ++ met) → Returns I (drain find visit k stack w') Q) :
    Returns I (drain find visit turns' (names ++ stack) w) Q := by
  -- the induction follows the order, for every stack below
  induction h generalizing w stack turns turns' with
  | nil =>
    refine hbelow turns' w (by simpa [pushed] using hturns) ?_ hw
    cases w.result <;> rfl
  | @again met name names rest hmet _ ih =>
    obtain ⟨seen, s | s⟩ := w
    · exact drain_done_returns hbelow
    · rw [List.length_cons] at hturns
      obtain ⟨k, rfl⟩ : ∃ k, turns' = k + 1 := ⟨turns' - 1, by omega⟩
      rw [List.cons_append, drain_cons_of_mem ((hw s rfl).subset name hmet)]
      exact ih hvisit hw (by omega) hbelow
  | @missing met name names rest hload _ ih =>
    obtain ⟨seen, s | s⟩ := w
    · exact drain_done_returns hbelow
    · rw [List.length_cons] at hturns
      obtain ⟨k, rfl⟩ : ∃ k, turns' = k + 1 := ⟨turns' - 1, by omega⟩
      rw [List.cons_append]
      by_cases hmem : name ∈ seen
      · rw [drain_cons_of_mem hmem]
        exact ih hvisit hw (by omega) hbelow
      · rw [drain_cons_of_not_mem hmem]
        refine .bind (hfind name none hload) fun o ho => ?_
        subst ho
        exact ih hvisit (fun _ _ => (hw s rfl).pass hload) (by omega) hbelow
  | @found met name names c above rest hnew hload habove _ ih ih' =>
    obtain ⟨hc, hvisit⟩ := List.forall_mem_cons.mp hvisit
    obtain ⟨habove', hrest'⟩ := List.forall_mem_append.mp hvisit
    obtain ⟨seen, s | s⟩ := w
    · exact drain_done_returns hbelow
    · have hseen := hw s rfl
      rw [List.length_cons, List.cons_append, pushed_cons, pushed_append] at hturns
      obtain ⟨k, rfl⟩ : ∃ k, turns' = k + 1 := ⟨turns' - 1, by omega⟩
      rw [List.cons_append, drain_cons_of_not_mem (hseen.not_mem hnew hload)]
      refine .bind (hfind name _ hload) fun o ho => ?_
      subst ho
      refine .bind (hc s) fun r hr => ?_
      subst hr
      have hroom : c.interfaces.length + pushed above +
          (names.length + pushed rest + turns) ≤ k := by
        dsimp only at hturns
        omega
      refine ih habove' (fun _ _ => hseen.enter) hroom fun k' w' hk' hresult hat => ?_
      refine ih' hrest' hat hk' fun k'' w'' hk'' hresult' hat' => hbelow k'' w'' hk'' ?_ ?_
      · calc w''.result = resume f (rest.map Prod.snd) (resume f (above.map Prod.snd) (f c s)) := by
              rw [hresult', hresult]
          _ = resume f (((name, c) :: above ++ rest).map Prod.snd) (.yield s) := by
              rw [← resume_append, ← List.map_append]
              exact (visitAll_cons f c _ s).symm
      · refine hat'.of_iff fun n => ?_
        simp only [List.cons_append, List.map_cons, List.map_append, List.mem_cons,
          List.mem_append]
        tauto

/-- **A stack of names gives the visitor the interfaces in their order.** -/
lemma drain_returns (hfind : ∀ n o, lib.load n = .ok o → Returns I (find n) (· = o))
    {interfaces : List (String × ClassDecl)} (h : Preorder lib met names interfaces)
    (hvisit : ∀ x ∈ interfaces, ∀ s, Returns I (visit x.2 s) (· = f x.2 s)) {w : Walk τ}
    (hw : w.At lib met) (hturns : names.length + pushed interfaces ≤ turns) :
    Returns I (drain find visit turns (push names []) w) fun w' =>
      w'.result = resume f (interfaces.map Prod.snd) w.result ∧
        w'.At lib (interfaces.map Prod.fst ++ met) := by
  have hall : names.length + pushed interfaces + 0 ≤ turns := hturns
  rw [push_eq]
  refine drain_append_returns hfind h hvisit hw hall fun k w' _ hresult hat => ?_
  rw [drain_nil]
  exact .pure ⟨hresult, hat⟩

/-- One class of the chain after another. -/
lemma foldlM_drain_returns (hfind : ∀ n o, lib.load n = .ok o → Returns I (find n) (· = o))
    {chain interfaces : List (String × ClassDecl)}
    (h : Preorder lib met (chain.flatMap (·.2.interfaces)) interfaces)
    (hvisit : ∀ x ∈ interfaces, ∀ s, Returns I (visit x.2 s) (· = f x.2 s)) {w : Walk τ}
    (hw : w.At lib met) (hturns : pushed (chain ++ interfaces) ≤ turns) :
    Returns I ((chain.map Prod.snd).foldlM
      (fun w c => drain find visit turns (push c.interfaces []) w) w)
      fun w' => w'.result = resume f (interfaces.map Prod.snd) w.result := by
  induction chain generalizing met interfaces w with
  | nil =>
    cases h
    cases w with | mk seen result => cases result <;> exact .pure rfl
  | cons x chain ih =>
    rw [List.flatMap_cons] at h
    -- the interfaces of one class come before those of the next, and are met by then
    obtain ⟨first, rest, rfl, hfirst, hrest⟩ := h.append
    obtain ⟨hvisit, hvisit'⟩ := List.forall_mem_append.mp hvisit
    rw [List.cons_append, pushed_cons, pushed_append, pushed_append] at hturns
    rw [List.map_cons, List.foldlM_cons]
    refine .bind (drain_returns hfind hfirst hvisit hw (by omega)) fun w' hw' => ?_
    have hleft : pushed (chain ++ rest) ≤ turns := by
      rw [pushed_append]
      omega
    refine (ih hrest hvisit' hw'.2 hleft).mono fun w'' hw'' => ?_
    rw [hw'', hw'.1, ← resume_append, List.map_append]

/-- **The walk with a stack shows its visitor what the walk by levels does:** the classes of the
order in turn, until the visitor is done. -/
lemma sweep_returns (hfind : ∀ n o, lib.load n = .ok o → Returns I (find n) (· = o))
    {start : String} {chain interfaces : List (String × ClassDecl)}
    (h : SearchOrder lib start chain interfaces)
    (hvisit : ∀ x ∈ chain ++ interfaces, ∀ s, Returns I (visit x.2 s) (· = f x.2 s)) {levels : Nat}
    (hlevels : chain.length < levels) (hturns : pushed (chain ++ interfaces) ≤ turns) (init : τ) :
    Returns I (sweep find levels turns start init visit)
      (· = visitAll f ((chain ++ interfaces).map Prod.snd) init) := by
  obtain ⟨hchain, hinterfaces⟩ := List.forall_mem_append.mp hvisit
  refine .bind (climb_start_returns hfind h.superclasses hchain hlevels init) fun r hr => ?_
  obtain ⟨w, cs⟩ := r
  obtain ⟨hresult, hat, hcs⟩ := hr
  dsimp only at hresult hat hcs ⊢
  rw [List.map_append, visitAll_append, ← hresult]
  obtain ⟨seen, s | s⟩ := w
  · rw [foldlM_drain_done, pure_bind]
    exact .pure rfl
  · rw [hcs s rfl]
    exact .bind (foldlM_drain_returns hfind h.preorder hinterfaces hat hturns) fun w hw => .pure hw

end

end ClassScript.Hierarchy
