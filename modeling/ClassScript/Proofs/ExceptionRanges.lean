import ClassScript.Proofs.Needs
import ClassScript.Proofs.StackLayouts
import Mathlib.Order.Bounds.Basic

/-!
Handlers catch in the ranges of the exception table.

Labels stand at all addresses where a range starts or stops, and each sets `gt`. So the value of
`gt` while an instruction runs is the last label at or before its address, by whatever way control
came there, and it is in a range just when the address of the instruction is. The clauses that are
tried are those of the rows that cover the instruction, in the order of the table.
-/

namespace ClassScript

/-! ### What emission adds to the code -/

lemma Stmt.Stays.assign {labels : List Nat} (v : Var) (e : Expr) : Stays labels (.assign v e) :=
  ⟨rfl, by simp [Stmt.targets]⟩

lemma Stmt.Stays.eval {labels : List Nat} (e : Expr) : Stays labels (.eval e) :=
  ⟨rfl, by simp [Stmt.targets]⟩

lemma Stmt.Stays.store {labels : List Nat} (place : Expr) (value : Atom) :
    Stays labels (.store place value) :=
  ⟨rfl, by simp [Stmt.targets]⟩

namespace Emission

variable {α β : Type} {P : Stmt → Prop} {x : Emission α}

/-- An emission that succeeds adds statements of `P` to the code. -/
def Adds (P : Stmt → Prop) (x : Emission α) : Prop :=
  ∀ ⦃f : Frame⦄ ⦃s t : Session⦄ ⦃r : α × Frame⦄, x f s = (.ok r, t) →
    ∃ added : List Stmt, r.2.out = f.out ++ added.toArray ∧ ∀ st ∈ added, P st

namespace Adds

lemma pure (a : α) : Adds P (pure a : Emission α) := by
  intro f s t r h
  cases h
  exact ⟨[], by simp, by simp⟩

lemma bind {k : α → Emission β} (hx : Adds P x) (hk : ∀ a, Adds P (k a)) : Adds P (x >>= k) := by
  intro f s u r h
  obtain ⟨a, f', t, hfirst, hrest⟩ := bind_eq_ok h
  obtain ⟨first, hout, hP⟩ := hx hfirst
  obtain ⟨second, hout', hP'⟩ := hk a hrest
  dsimp only at hout
  refine ⟨first ++ second, by simp [hout, hout'], fun st hst => ?_⟩
  exact (List.mem_append.1 hst).elim (hP st) (hP' st)

/-- Generation does not touch the frame. -/
lemma lift (y : Generation α) : Adds P (liftM y : Emission α) := by
  intro f s u r h
  obtain ⟨a, t, -, hrest⟩ := ClassScript.bind_eq_ok h
  cases hrest
  exact ⟨[], by simp, by simp⟩

lemma lower {y : Lower α} (h : Lower.Adds P y) (site : Site) : Adds P (lower site y) :=
  fun _ _ _ _ hy => h (lower_eq_ok hy).1

end Adds

end Emission

namespace Generator

open Lower hiding Adds instruction_adds
open Emission (Adds)

variable {labels : List Nat}

lemma ldc_adds (site : Site) (p : ConstantPool) (i : UInt16) :
    Adds (Stmt.Stays labels) (ldc site p i) := by
  refine .bind (.lift _) fun l => ?_
  cases l with
  | int v | float v | long v | double v | string v => exact .lower (pushConst_adds _) site
  | classRef name =>
    dsimp only
    split
    · exact .lower (assign_adds _ fun v => .assign v _) site
    · exact .bind (.lift _) fun _ => .lower (assign_adds _ fun v => .assign v _) site

lemma callOf_adds (g : Generator) (site : Site) (kind : InvokeKind) (r : MemberRef)
    (args : List Atom) :
    Adds (Stmt.Stays labels) (g.callOf site kind r args) := by
  cases kind with
  | static => exact .bind (.lift _) fun _ => .bind (.lift _) fun _ => .pure _
  | special =>
    exact .bind (.lower pop_adds site) fun _ => .bind (.lift _) fun _ =>
      .bind (.lift _) fun _ => .pure _
  | virtual | interface =>
    refine .bind (.lower pop_adds site) fun _ => .bind (.lift _) fun dispatch => ?_
    cases dispatch with
    | direct | invoker => exact .bind (.lift _) fun _ => .pure _

lemma invoke_adds (g : Generator) (site : Site) (p : ConstantPool) (kind : InvokeKind)
    (i : UInt16) :
    Adds (Stmt.Stays labels) (g.invoke site p kind i) := by
  refine .bind (.lift _) fun r => ?_
  split
  · exact .lift _
  · refine .bind (.lower (popMany_adds _) site) fun args =>
      .bind (g.callOf_adds site kind r args) fun e => ?_
    split
    · exact .lower (assign_adds _ fun v => .assign v _) site
    · exact .lower (.emit (.eval _)) site

/-- **An instruction adds no label, and jumps to its targets only.** -/
lemma instruction_adds (g : Generator) (site : Site) (p : ConstantPool) (i : Instruction) :
    Adds (Stmt.Stays i.targets) (g.instruction site p i) := by
  have hlower : Adds (Stmt.Stays i.targets) (Emission.lower site (Lower.instruction i)) :=
    .lower ((Lower.instruction_adds i).mono fun _ h => h.toStays) site
  have hassign {k : Kind} {e : Expr} : Adds (Stmt.Stays []) (Emission.lower site (assign k e)) :=
    .lower (assign_adds _ fun v => .assign v _) site
  -- asking the pool and other classes writes no lines; the rest is as if lowered alone
  cases i with
  | ldc index => exact ldc_adds site p index
  | getStatic index => exact .bind (.lift _) fun _ => hassign
  | putStatic index =>
    exact .bind (.lift _) fun _ => .bind (.lower pop_adds site) fun _ =>
      .lower (.emit (.store _ _)) site
  | getField index => exact .bind (.lower pop_adds site) fun _ => .bind (.lift _) fun _ => hassign
  | putField index =>
    exact .bind (.lower pop2_adds site) fun _ => .bind (.lift _) fun _ =>
      .lower (.emit (.store _ _)) site
  | invoke kind index => exact g.invoke_adds site p kind index
  | new index => exact .bind (.lift _) fun _ => .bind (.lift _) fun _ => hassign
  | newRefArray index =>
    exact .bind (.lift _) fun _ => .bind (.lower pop_adds site) fun _ => hassign
  | newMultiArray index dimensions =>
    exact .bind (.lift _) fun _ => .bind (.lower (popMany_adds _) site) fun _ => hassign
  | checkCast index =>
    refine .bind (.lift _) fun name => ?_
    split
    · exact .bind (.lower peek_adds site) fun _ => .lower (.emit (.eval _)) site
    · exact .pure _
  | instanceOf index => exact .bind (.lift _) fun _ => .bind (.lower pop_adds site) fun _ => hassign
  | _ => exact hlower

end Generator

/-! ### The statements of a pass -/

/-- Statements with labels at these addresses, in this order, each with its mark below it; and
jumps to `labels` only. -/
structure Flow (labels addresses : List Nat) (code : List Stmt) : Prop where
  placed : code.filterMap Stmt.label? = addresses
  marks : code.filterMap Stmt.mark? = addresses
  marked : ∀ n a, code[n]? = some (.label a) → code[n + 1]? = some (.mark a)
  jumps : ∀ s ∈ code, ∀ a ∈ s.targets, a ∈ labels

namespace Flow

variable {labels as bs : List Nat} {xs ys : List Stmt}

lemma append (hx : Flow labels as xs) (hy : Flow labels bs ys) :
    Flow labels (as ++ bs) (xs ++ ys) where
  placed := by rw [List.filterMap_append, hx.placed, hy.placed]
  marks := by rw [List.filterMap_append, hx.marks, hy.marks]
  marked n a h := by
    rcases Nat.lt_or_ge n xs.length with hn | hn
    · rw [List.getElem?_append_left hn] at h
      have hmark := hx.marked n a h
      rw [List.getElem?_append_left (List.getElem?_eq_some_iff.1 hmark).1]
      exact hmark
    · rw [List.getElem?_append_right hn] at h
      rw [List.getElem?_append_right (by omega), Nat.sub_add_comm hn]
      exact hy.marked _ a h
  jumps s hs := (List.mem_append.1 hs).elim (hx.jumps s) (hy.jumps s)

lemma of_stays (h : ∀ s ∈ xs, s.Stays labels) : Flow labels [] xs where
  placed := List.filterMap_eq_nil_iff.2 fun s hs => Stmt.label?_eq_none (h s hs).acts
  marks := List.filterMap_eq_nil_iff.2 fun s hs => Stmt.mark?_eq_none (h s hs).acts
  marked n a hn := by
    have hacts := (h _ (List.mem_of_getElem? hn)).acts
    cases hacts
  jumps s hs := (h s hs).targets

lemma nil : Flow labels [] [] := of_stays (by simp)

/-- The lines of a label. -/
lemma label (a : Nat) : Flow labels [a] (Lower.labelLines a true) where
  placed := rfl
  marks := rfl
  marked n b hn := by
    rcases n with _ | _ | n
    · cases hn
      rfl
    · cases hn
    · cases hn
  jumps := by simp [Lower.labelLines, Stmt.targets]

end Flow

def labelled (labels : List Nat) (code : List Located) : List Nat :=
  (code.map Located.address).filter (labels.contains ·)

lemma mem_labelled {labels : List Nat} {code : List Located} {a : Nat} :
    a ∈ labelled labels code ↔ a ∈ code.map Located.address ∧ a ∈ labels := by
  rw [labelled, List.mem_filter, List.contains_iff_mem]

lemma labelled_append (labels : List Nat) (pre post : List Located) :
    labelled labels (pre ++ post) = labelled labels pre ++ labelled labels post := by
  rw [labelled, List.map_append, List.filter_append]
  rfl

lemma labelled_cons (labels : List Nat) (l : Located) (code : List Located) :
    labelled labels (l :: code) = labelled labels [l] ++ labelled labels code :=
  labelled_append labels [l] code

def Frame.Places (labels addresses : List Nat) (f f' : Frame) : Prop :=
  ∃ added : List Stmt, f'.out = f.out ++ added.toArray ∧ Flow labels addresses added

section

variable {labels as bs : List Nat} {f f' f'' : Frame} {l : Located}

lemma Frame.Places.trans (h : f.Places labels as f') (h' : f'.Places labels bs f'') :
    f.Places labels (as ++ bs) f'' := by
  obtain ⟨xs, hout, hflow⟩ := h
  obtain ⟨ys, hout', hflow'⟩ := h'
  exact ⟨xs ++ ys, by simp [hout, hout'], hflow.append hflow'⟩

namespace Lower

lemma writes_stays (stack : List Entry) : ∀ s ∈ writes stack, s.Stays labels := by
  intro s hs
  obtain ⟨w, -, rfl⟩ := List.mem_map.1 hs
  exact .assign _ _

lemma arrive_places {reachable marked : Bool} (hmarked : marked = true)
    (h : arrive labels l.address reachable marked f = .ok ((), f')) :
    f.Places labels (labelled labels [l]) f' := by
  subst hmarked
  rw [arrive] at h
  by_cases hl : labels.contains l.address = true
  · have has : labelled labels [l] = [l.address] := by simpa [labelled] using hl
    rw [if_pos hl] at h
    -- where the code falls through, what is still pending is written before the label
    cases reachable with
    | true =>
      obtain ⟨f₁, hrun, -, -, hout⟩ := enterLabel_fall (f := f) l.address true
      cases hrun.symm.trans h
      exact ⟨_, hout, has ▸ (Flow.of_stays (writes_stays f.stack)).append (.label l.address)⟩
    | false =>
      obtain ⟨f₁, hrun, -, -, hout⟩ := enterLabel_jump (f := f) l.address true
      cases hrun.symm.trans h
      exact ⟨_, hout, has ▸ .label l.address⟩
  · have has : labelled labels [l] = [] := by simpa [labelled] using hl
    rw [if_neg hl] at h
    cases h
    exact ⟨[], by simp, has ▸ .nil⟩

end Lower

namespace Generator

variable {g : Generator} {site : Nat → Site} {p : ConstantPool} {code pre post : List Located}
  {s t : Session}

lemma instruction_stays {w : Site} {i : Instruction} (hi : ∀ a ∈ i.targets, a ∈ labels)
    (h : g.instruction w p i f s = (.ok ((), f'), t)) :
    ∃ lines : List Stmt, f'.out = f.out ++ lines.toArray ∧ ∀ st ∈ lines, st.Stays labels := by
  obtain ⟨lines, hout, hlines⟩ := g.instruction_adds w p i h
  exact ⟨lines, hout, fun st hst =>
    ⟨(hlines st hst).acts, fun a ha => hi a ((hlines st hst).targets a ha)⟩⟩

/-- **A pass over code places its labels.** -/
lemma block_places {marked reachable : Bool} {last last' : Option Nat} (hmarked : marked = true)
    (hcode : ∀ l ∈ code, ∀ a ∈ l.instruction.targets, a ∈ labels)
    (h : g.block site p labels marked code reachable last f s = (.ok (last', f'), t)) :
    f.Places labels (labelled labels code) f' := by
  induction code generalizing reachable last f s with
  | nil =>
    cases h
    exact ⟨[], by simp, .nil⟩
  | cons l code ih =>
    have hrest : ∀ l ∈ code, ∀ a ∈ l.instruction.targets, a ∈ labels :=
      fun l hl => hcode l (List.mem_cons_of_mem _ hl)
    rw [labelled_cons]
    -- code that nothing reaches is left out, and no label stands at it
    cases hlive : labels.contains l.address || reachable with
    | true =>
      rw [block_live hlive] at h
      obtain ⟨_, f₁, s₁, harrive, h⟩ := Emission.bind_eq_ok h
      obtain ⟨_, f₂, s₂, hrun, h⟩ := Emission.bind_eq_ok h
      obtain ⟨lines, hout, hlines⟩ := instruction_stays (hcode l List.mem_cons_self) hrun
      have hfirst := Lower.arrive_places hmarked (Emission.lower_eq_ok harrive).1
      exact hfirst.trans (Frame.Places.trans ⟨lines, hout, .of_stays hlines⟩ (ih hrest h))
    | false =>
      rw [block_dead hlive] at h
      have hl : labels.contains l.address = false := (Bool.or_eq_false_iff.1 hlive).1
      have has : labelled labels [l] = [] := by simpa [labelled] using hl
      rw [has]
      exact ih hrest h

end Generator

end

/-! ### Labels and ranges -/

namespace Labels

/-- The addresses where a method has labels, if it has any: the start, the targets of jumps, and
where a row of the exception table has its range and its handler. -/
inductive Named (code : List Located) (handlers : List Handler) (length : Nat) : Nat → Prop where
  | start : Named code handlers length 0
  | target {l : Located} {a : Nat} (hl : l ∈ code) (ha : a ∈ l.instruction.targets) :
    Named code handlers length a
  | rangeStart {h : Handler} (hh : h ∈ handlers) : Named code handlers length h.start.toNat
  | rangeStop {h : Handler} (hh : h ∈ handlers) (hlt : h.stop.toNat < length) :
    Named code handlers length h.stop.toNat
  | handler {h : Handler} (hh : h ∈ handlers) : Named code handlers length h.target.toNat

variable {code : List Located} {handlers : List Handler} {length : Nat} {labels : List Nat}

lemma mem_ofHandler {a : Nat} {h : Handler} :
    a ∈ ofHandler length h ↔
      a = h.start.toNat ∨ a = h.target.toNat ∨ a = h.stop.toNat ∧ h.stop.toNat < length := by
  rw [ofHandler]
  split_ifs with hlt <;> simp [hlt]

/-- Labels are at the addresses of instructions. -/
lemma of_eq_ok (h : Labels.of code handlers length = .ok labels) (hne : handlers ≠ []) :
    labels = 0 :: (code.flatMap (·.instruction.targets) ++ handlers.flatMap (ofHandler length)) ∧
      ∀ a ∈ labels, a = 0 ∨ a ∈ code.map Located.address := by
  have hstart {a : Nat} (ha : ¬ (!code.any (·.address == a)) = true) :
      a ∈ code.map Located.address := by
    simpa using ha
  have hnamed :
      ¬ (code.flatMap (·.instruction.targets) ++ handlers.flatMap (ofHandler length)).isEmpty := by
    obtain ⟨row, hrow⟩ := List.exists_mem_of_ne_nil _ hne
    have hmem : row.start.toNat ∈ handlers.flatMap (ofHandler length) :=
      List.mem_flatMap.2 ⟨row, hrow, mem_ofHandler.2 (.inl rfl)⟩
    rw [List.isEmpty_iff]
    exact List.ne_nil_of_mem (List.mem_append_right _ hmem)
  simp only [Labels.of] at h
  -- both checks have passed: one for the targets of the code, one for the handlers
  split at h
  · cases h
  next hmin =>
    split at h
    · cases h
    next hfind =>
      rw [if_neg hnamed] at h
      cases h
      have htargets := List.filter_eq_nil_iff.1
        (List.min?_eq_none_iff.1 (Option.eq_none_iff_forall_ne_some.2 hmin))
      have hrows := List.find?_eq_none.1 (Option.eq_none_iff_forall_ne_some.2 hfind)
      refine ⟨rfl, fun a ha => ?_⟩
      rcases List.mem_cons.1 ha with rfl | ha
      · exact .inl rfl
      · rcases List.mem_append.1 ha with ha | ha
        · exact .inr (hstart (htargets a ha))
        · exact .inr (hstart (hrows a ha))

lemma mem_iff_named (h : Labels.of code handlers length = .ok labels) (hne : handlers ≠ [])
    {a : Nat} :
    a ∈ labels ↔ Named code handlers length a := by
  rw [(of_eq_ok h hne).1]
  simp only [List.mem_cons, List.mem_append, List.mem_flatMap, mem_ofHandler]
  constructor
  · rintro (rfl | ⟨l, hl, ha⟩ | ⟨h, hh, rfl | rfl | ⟨rfl, hlt⟩⟩)
    · exact .start
    · exact .target hl ha
    · exact .rangeStart hh
    · exact .handler hh
    · exact .rangeStop hh hlt
  · rintro (_ | ⟨hl, ha⟩ | hh | ⟨hh, hlt⟩ | hh)
    · exact .inl rfl
    · exact .inr (.inl ⟨_, hl, ha⟩)
    · exact .inr (.inr ⟨_, hh, .inl rfl⟩)
    · exact .inr (.inr ⟨_, hh, .inr (.inr ⟨rfl, hlt⟩)⟩)
    · exact .inr (.inr ⟨_, hh, .inr (.inl rfl)⟩)

/-- The greatest label up to an instruction is in a range just when the instruction is. -/
lemma covers_iff {pc gt : Nat} (h : IsGreatest {a | Named code handlers length a ∧ a ≤ pc} gt)
    (hpc : pc < length) {row : Handler} (hrow : row ∈ handlers) :
    (row.start.toNat ≤ gt ∧ gt < row.stop.toNat) ↔
    (row.start.toNat ≤ pc ∧ pc < row.stop.toNat) := by
  obtain ⟨⟨-, hle⟩, hupper⟩ := h
  have hstart : row.start.toNat ≤ pc → row.start.toNat ≤ gt := fun h => hupper ⟨.rangeStart hrow, h⟩
  have hstop : row.stop.toNat < length → row.stop.toNat ≤ pc → row.stop.toNat ≤ gt :=
    fun hlt h => hupper ⟨.rangeStop hrow hlt, h⟩
  omega

end Labels

section

variable {labels : List Nat} {code pre post : List Located} {l : Located}

/-- The last label before or at an instruction is the greatest that is not above its address. -/
lemma isGreatest_getLast (hsorted : (code.map Located.address).Pairwise (· < ·))
    (hlabels : ∀ a ∈ labels, a ∈ code.map Located.address) (hcode : code = pre ++ l :: post)
    {gt : Nat} (h : (labelled labels (pre ++ [l])).getLast? = some gt) :
    IsGreatest {a | a ∈ labels ∧ a ≤ l.address} gt := by
  have hsplit : code.map Located.address = (pre ++ [l]).map Located.address ++
      post.map Located.address := by
    simp [hcode]
  rw [hsplit, List.pairwise_append] at hsorted
  obtain ⟨hbefore, -, hafter⟩ := hsorted
  have hl : l.address ∈ (pre ++ [l]).map Located.address := by simp
  have hle : ∀ a ∈ (pre ++ [l]).map Located.address, a ≤ l.address := by
    rw [List.map_append, List.pairwise_append] at hbefore
    intro a ha
    rw [List.map_append, List.mem_append] at ha
    rcases ha with ha | ha
    · exact Nat.le_of_lt (hbefore.2.2 a ha l.address List.mem_cons_self)
    · exact Nat.le_of_eq (List.mem_singleton.1 ha)
  obtain ⟨before, hlast⟩ := List.getLast?_eq_some_iff.1 h
  have hgt := mem_labelled.1 (show gt ∈ labelled labels (pre ++ [l]) by simp [hlast])
  refine ⟨⟨hgt.2, hle gt hgt.1⟩, ?_⟩
  rintro a ⟨ha, hal⟩
  -- a label stands at an instruction, and that one does not come after
  have haddress : a ∈ (pre ++ [l]).map Located.address := by
    have := hlabels a ha
    rw [hsplit, List.mem_append] at this
    refine this.resolve_right fun hpost => ?_
    exact absurd (hafter l.address hl a hpost) (Nat.not_lt.2 hal)
  have hmem' : a ∈ before ++ [gt] := hlast ▸ mem_labelled.2 ⟨haddress, ha⟩
  have hrising : (before ++ [gt]).Pairwise (· < ·) := hlast ▸ hbefore.filter _
  rcases List.mem_append.1 hmem' with ha | ha
  · exact Nat.le_of_lt ((List.pairwise_append.1 hrising).2.2 a ha gt List.mem_cons_self)
  · exact Nat.le_of_eq (List.mem_singleton.1 ha)

end

/-! ### Clauses -/

namespace Handler

def covers (h : Handler) (pc : Nat) : Bool := h.start.toNat ≤ pc && pc < h.stop.toNat

/-- Does the row catch a thrown value? A value has a property for each class that it is an
instance of, and all that is thrown is throwable. -/
def admits (p : ConstantPool) (thrown : String → Bool) (h : Handler) : Bool :=
  h.catchType = 0 || match p.className h.catchType with
    | .ok name => name = "java/lang/Throwable" || thrown (Name.instanceFlag name)
    | .error _ => false

structure Clause (p : ConstantPool) (h : Handler) (k : CatchClause) : Prop where
  start : k.start = h.start.toNat
  stop : k.stop = h.stop.toNat
  target : k.target = h.target.toNat
  all : h.catchType = 0 → k.caught = none
  one : h.catchType ≠ 0 → ∃ name, p.className h.catchType = .ok name ∧ k.caught = some name

end Handler

section

variable {p : ConstantPool} {rows : List Handler} {row : Handler} {k : CatchClause}
  {ks : List CatchClause}
  {pc gt : Nat}

lemma Generator.catchClause_clause {site : Site} {s t : Session}
    (h : catchClause site p row s = (.ok k, t)) :
    row.Clause p k := by
  unfold catchClause at h
  split_ifs at h with htype
  · cases h
    exact ⟨rfl, rfl, rfl, fun _ => rfl, fun hne => absurd htype hne⟩
  · obtain ⟨name, s₁, hname, h⟩ := bind_eq_ok h
    obtain ⟨_, s₂, -, h⟩ := bind_eq_ok h
    cases h
    have hclass := (Generation.liftExcept_eq_ok hname).1
    exact ⟨rfl, rfl, rfl, fun h => absurd h htype, fun _ => ⟨name, hclass, rfl⟩⟩

lemma Handler.Clause.admits_eq (h : row.Clause p k) (thrown : String → Bool) :
    k.admits thrown = row.admits p thrown := by
  rw [CatchClause.admits, Handler.admits]
  by_cases htype : row.catchType = 0
  · rw [h.all htype]
    simp [htype]
  · obtain ⟨name, hname, hcaught⟩ := h.one htype
    rw [hcaught, hname]
    by_cases hthrowable : name = "java/lang/Throwable"
    · subst hthrowable
      simp
    · simp only [htype, hthrowable, decide_false, Bool.false_or]

/-- Every clause is that of a row. -/
lemma clause_of_mem (h : List.Forall₂ (Handler.Clause p) rows ks) (hk : k ∈ ks) :
    ∃ row ∈ rows, row.Clause p k := by
  induction h with
  | nil => cases hk
  | cons hclause _ ih =>
    rcases List.mem_cons.1 hk with rfl | hk
    · exact ⟨_, List.mem_cons_self, hclause⟩
    · obtain ⟨row, hrow, hclause⟩ := ih hk
      exact ⟨row, List.mem_cons_of_mem _ hrow, hclause⟩

/-- The clauses that are tried are those of the rows that guard the instruction. -/
lemma clauses_filter (h : List.Forall₂ (Handler.Clause p) rows ks)
    (hrange : ∀ row ∈ rows, (row.start.toNat ≤ gt ∧ gt < row.stop.toNat) ↔
      (row.start.toNat ≤ pc ∧ pc < row.stop.toNat)) :
    List.Forall₂ (Handler.Clause p) (rows.filter (·.covers pc)) (ks.filter (·.spans gt)) := by
  induction h with
  | nil => exact .nil
  | @cons row k rows ks hk hks ih =>
    have hspans : k.spans gt = row.covers pc := by
      have := hrange row List.mem_cons_self
      rw [CatchClause.spans, Handler.covers, hk.start, hk.stop, Bool.eq_iff_iff]
      simpa using this
    have hrest := ih fun row hrow => hrange row (List.mem_cons_of_mem _ hrow)
    rw [List.filter_cons, List.filter_cons, hspans]
    split
    · exact .cons hk hrest
    · exact hrest

lemma clauses_find? (h : List.Forall₂ (Handler.Clause p) rows ks) (thrown : String → Bool) :
    (ks.find? (·.admits thrown)).map CatchClause.target =
      (rows.find? (·.admits p thrown)).map (·.target.toNat) := by
  induction h with
  | nil => rfl
  | @cons row k rows ks hk hks ih =>
    rw [List.find?_cons, List.find?_cons, hk.admits_eq thrown]
    cases row.admits p thrown with
    | true => exact congrArg some hk.target
    | false => exact ih

end

/-! ### The body of a method -/

namespace Generator

variable {g : Generator} {c : ClassDecl} {m : MethodDecl} {s t : Session} {body : Body}
  {used : List Var}

/-- A body that is generated is the code of a pass over the method, with the clauses of its rows. -/
lemma body_eq_ok (h : g.body c m s = (.ok (body, used), t)) (hne : m.handlers ≠ []) :
    ∃ code labels last f u clauses, Instruction.decode m.bytecode = .ok code ∧
      Labels.of code m.handlers m.bytecode.length = .ok labels ∧
      g.pass c m labels code (Frame.ofHandlers m.handlers) s = (.ok (last, f), u) ∧
      body = .looped f.out.toList clauses ∧
        List.Forall₂ (Handler.Clause c.pool) m.handlers clauses := by
  obtain ⟨code, s₁, hcode, h₁⟩ := bind_eq_ok h
  obtain ⟨labels, s₂, hlabels, h₂⟩ := bind_eq_ok h₁
  obtain ⟨⟨last, f⟩, u, hpass, h₃⟩ := bind_eq_ok h₂
  obtain ⟨hcode, hs₁⟩ := Generation.liftExcept_eq_ok hcode
  obtain ⟨hlabels, hs₂⟩ := Generation.liftExcept_eq_ok hlabels
  rw [hs₂, hs₁] at hpass
  have hsome : ¬ labels.isEmpty = true := by
    rw [(Labels.of_eq_ok hlabels hne).1]
    exact Bool.false_ne_true
  dsimp only at h₃
  rw [if_neg hsome] at h₃
  obtain ⟨clauses, s₃, hclauses, h₄⟩ := bind_eq_ok h₃
  cases h₄
  have hrows := mapM_eq_ok (R := Handler.Clause c.pool) (fun _ _ _ _ => catchClause_clause) hclauses
  exact ⟨code, labels, last, f, u, clauses, hcode, hlabels, hpass, rfl, hrows⟩

/-- The statements when the pass over a method comes to the instruction after `pre`, with the lines
of its label among them, and the statements when it leaves it. -/
def turn (g : Generator) (c : ClassDecl) (m : MethodDecl) (labels : List Nat) (pre : List Located)
    (l : Located) : Generation (List Stmt × List Stmt) := do
  let site := Site.code c.name m.name m.descriptor l.address
  let (_, f) ← g.pass c m labels pre (Frame.ofHandlers m.handlers)
  let (_, f₁) ← Emission.lower site
    (Lower.arrive labels l.address (fallsThrough labels pre true) (!m.handlers.isEmpty)) f
  let (_, f₂) ← g.instruction site c.pool l.instruction f₁
  return (f₁.out.toList, f₂.out.toList)

variable {labels : List Nat} {code pre post : List Located} {l : Located} {f : Frame}
  {last : Option Nat}

/-- Each instruction that gets code has its turn: the labels before it are placed then, and its
lines hold no label. -/
lemma pass_turn (h : g.pass c m labels code (Frame.ofHandlers m.handlers) s = (.ok (last, f), t))
    (hmarked : (!m.handlers.isEmpty) = true)
    (hcode : ∀ l ∈ code, ∀ a ∈ l.instruction.targets, a ∈ labels) (hsplit : code = pre ++ l :: post)
    (hlive : l.address ∈ labels ∨ fallsThrough labels pre true = true) :
    ∃ before lines after, (g.turn c m labels pre l s).1 = .ok (before, before ++ lines) ∧
      f.out.toList = before ++ lines ++ after ∧ (∀ st ∈ lines, st.Stays labels) ∧
      before.filterMap Stmt.mark? = labelled labels (pre ++ [l]) := by
  rw [pass_eq hsplit hlive] at h
  obtain ⟨last₀, f₀, s₀, hpre, h₁⟩ := Emission.bind_eq_ok h
  obtain ⟨_, f₁, s₁, hlower, h₂⟩ := Emission.bind_eq_ok h₁
  obtain ⟨_, f₂, s₂, hrun, hpost⟩ := Emission.bind_eq_ok h₂
  obtain ⟨harrive, -⟩ := Emission.lower_eq_ok hlower
  have hmem {j : Located} (hj : j ∈ pre ∨ j = l ∨ j ∈ post) : j ∈ code := by
    rw [hsplit]
    simpa using hj
  -- the code before it, its label, its lines, and the code after it
  have hplaces : (Frame.ofHandlers m.handlers).Places labels (labelled labels pre) f₀ :=
    block_places hmarked (fun j hj => hcode j (hmem (.inl hj))) hpre
  have hlabel : f₀.Places labels (labelled labels [l]) f₁ := Lower.arrive_places hmarked harrive
  obtain ⟨lines, hlines, hstays⟩ := instruction_stays (hcode l (hmem (.inr (.inl rfl)))) hrun
  obtain ⟨after, hafter, -⟩ :=
    block_places hmarked (fun j hj => hcode j (hmem (.inr (.inr hj)))) hpost
  obtain ⟨before, hbefore, hflow⟩ := hplaces.trans hlabel
  have hout : f₁.out.toList = before := by simp [hbefore, Frame.ofHandlers]
  have hturn : g.turn c m labels pre l s = (.ok (f₁.out.toList, f₂.out.toList), s₂) :=
    (bind_ok hpre).trans ((bind_ok hlower).trans (bind_ok hrun))
  refine ⟨before, lines, after, ?_, ?_, hstays, ?_⟩
  · simp [hturn, hlines, hout]
  · simp [hafter, hlines, hout]
  · rw [hflow.marks, labelled_append]

end Generator

/-- How a value is caught that is thrown at `pc`, while `gt` has this value. -/
structure Dispatches (p : ConstantPool) (handlers : List Handler) (clauses : List CatchClause)
    (pc gt : Nat) : Prop where
  range : ∀ h ∈ handlers, (h.start.toNat ≤ gt ∧ gt < h.stop.toNat) ↔
    (h.start.toNat ≤ pc ∧ pc < h.stop.toNat)
  /-- The clauses that are tried. -/
  tried : List.Forall₂ (Handler.Clause p) (handlers.filter (·.covers pc))
    (clauses.filter (·.spans gt))
  /-- Where control goes. -/
  caught : ∀ thrown, (clauses.find? fun k => k.spans gt && k.admits thrown).map CatchClause.target =
    (handlers.find? fun h => h.covers pc && h.admits p thrown).map (·.target.toNat)

section

variable {p : ConstantPool} {handlers : List Handler} {clauses : List CatchClause}
  {labels : List Nat}
  {code pre post : List Located} {l : Located} {length pc gt : Nat} {stmts : List Stmt}

lemma Dispatches.of_isGreatest (hrows : List.Forall₂ (Handler.Clause p) handlers clauses)
    (h : IsGreatest {a | Labels.Named code handlers length a ∧ a ≤ pc} gt) (hpc : pc < length) :
    Dispatches p handlers clauses pc gt := by
  have hrange : ∀ row ∈ handlers, (row.start.toNat ≤ gt ∧ gt < row.stop.toNat) ↔
      (row.start.toNat ≤ pc ∧ pc < row.stop.toNat) := fun row hrow => Labels.covers_iff h hpc hrow
  have htried := clauses_filter hrows hrange
  refine ⟨hrange, htried, fun thrown => ?_⟩
  have hfind := clauses_find? htried thrown
  rw [List.find?_filter, List.find?_filter] at hfind
  simpa using hfind

/-- A pass over code whose labels are those of its jumps and clauses. -/
lemma Flow.switched (h : Flow labels (labelled labels code) stmts) (hstart : 0 ∈ labels)
    (hlabels : ∀ a ∈ labels, a ∈ code.map Located.address)
    (hclauses : ∀ k ∈ clauses, k.target ∈ labels) :
    Switched labels stmts clauses where
  start := hstart
  placed a ha := by
    have hmem : a ∈ stmts.filterMap Stmt.label? := h.placed ▸ mem_labelled.2 ⟨hlabels a ha, ha⟩
    obtain ⟨s, hs, hlabel⟩ := List.mem_filterMap.1 hmem
    cases s <;> cases hlabel
    exact hs
  marked := h.marked
  marks a ha := by
    have hmem : a ∈ stmts.filterMap Stmt.mark? := List.mem_filterMap.2 ⟨_, ha, rfl⟩
    rw [h.marks] at hmem
    exact (mem_labelled.1 hmem).2
  jumps := h.jumps
  clauses := hclauses

/-- While the lines of an instruction run, the last mark is that of the last label before them. -/
lemma lastMark_take {before lines : List Stmt} (after : List Stmt)
    (hlines : ∀ s ∈ lines, s.Stays labels) {n : Nat} (hn : before.length ≤ n)
    (hn' : n < before.length + lines.length) :
    lastMark ((before ++ lines ++ after).take n) = lastMark before ∧
      ∃ s, (before ++ lines ++ after)[n]? = some s ∧ s.acts = true := by
  have hlt : n - before.length < lines.length := by omega
  constructor
  · have htake : (before ++ lines ++ after).take n = before ++ lines.take (n - before.length) := by
      rw [List.append_assoc, List.take_append, List.take_of_length_le hn,
        List.take_append_of_le_length (Nat.le_of_lt hlt)]
    have hnone : (lines.take (n - before.length)).filterMap Stmt.mark? = [] :=
      (Flow.of_stays fun s hs => hlines s (List.mem_of_mem_take hs)).marks
    rw [htake, lastMark, List.filterMap_append, hnone, List.append_nil]
    rfl
  · refine ⟨lines[n - before.length], ?_, (hlines _ (List.getElem_mem hlt)).acts⟩
    rw [List.append_assoc, List.getElem?_append_right hn, List.getElem?_append_left hlt,
      List.getElem?_eq_getElem hlt]

end

/-- The int in slot 0 is divided by one as long as it is not zero. What the division throws is
thrown again from its handler, and zero is the answer to all that is thrown. -/
def salvage : MethodDecl where
  owner := "A"
  name := "salvage"
  descriptor := "(I)I"
  access := Access.staticFlag
  code := some ⟨2, 1,
    [0x1a, 0x04, 0x6c, 0x3b, 0x1a, 0x9a, 0xff, 0xfb, 0x1a, 0xac, 0xbf, 0x57, 0x03, 0xac],
    [⟨2, 4, 10, 1⟩, ⟨0, 14, 11, 0⟩], []⟩
  exceptions := []
  annotations := []

def salvageClass : ClassDecl :=
  ⟨"A", none, [], 0, .ofEntries [.classRef 2, .utf8 "java/lang/ArithmeticException"],
    [], [salvage], [], none, 52⟩

def salvageCode : List Located :=
  [⟨0, .load .int 0⟩, ⟨1, .push (.int 1)⟩, ⟨2, .arith .div .int⟩, ⟨3, .store .int 0⟩,
    ⟨4, .load .int 0⟩, ⟨5, .ifZero .ne 0⟩, ⟨8, .load .int 0⟩, ⟨9, .returns (some .int)⟩,
    ⟨10, .athrow⟩, ⟨11, .pop⟩, ⟨12, .push (.int 0)⟩, ⟨13, .returns (some .int)⟩]

def salvageStmts : List Stmt :=
  [.label 0, .mark 0, .assign (.operand .int 0) (.atom (.var (.slot .int 0))),
    .assign (.operand .int 1) (.atom (.lit (.int 1))),
    .label 2, .mark 2,
    .assign (.operand .int 0)
    (.helper (.arith32 .div) [.var (.operand .int 0), .var (.operand .int 1)]),
    .assign (.slot .int 0) (.atom (.var (.operand .int 0))),
    .label 4, .mark 4, .assign (.operand .int 0) (.atom (.var (.slot .int 0))),
    .jumpIf ⟨.ne, .var (.operand .int 0), .lit (.int 0)⟩ 0,
    .assign (.operand .int 0) (.atom (.var (.slot .int 0))),
    .returns (some (.var (.operand .int 0))), .label 10, .mark 10, .raise (.var (.operand .ref 0)),
    .label 11, .mark 11, .returns (some (.lit (.int 0)))]

def salvageClauses : List CatchClause :=
  [⟨2, 4, some "java/lang/ArithmeticException", 10⟩, ⟨0, 14, none, 11⟩]

lemma salvage_decode : Instruction.decode salvage.bytecode = .ok salvageCode := by decide +kernel

lemma salvage_labels :
    Labels.of salvageCode salvage.handlers salvage.bytecode.length = .ok [0, 0, 2, 10, 4, 0, 11] :=
  rfl

lemma salvage_body :
    (Generator.alone.body salvageClass salvage { exporter := ⟨.none, [], 0⟩ }).1.map Prod.fst =
      .ok (.looped salvageStmts salvageClauses) := by decide +kernel

/-- The division throws, and so does its handler. -/
lemma salvage_reachable : Control.Reachable salvageStmts salvageClauses ⟨19, 11⟩ := by
  have hstart : Control.Reachable salvageStmts salvageClauses ⟨0, 0⟩ := .refl
  have hdivision :=
    (((((hstart.tail (.next rfl rfl)).tail (.next rfl rfl)).tail (.next rfl rfl)).tail
      (.next rfl rfl)).tail (.next rfl rfl)).tail (.next rfl rfl)
  have hhandler :=
    ((hdivision.tail (.thrown (k := ⟨2, 4, some "java/lang/ArithmeticException", 10⟩) rfl rfl
      (fun _ => true) rfl)).tail (.next (s := .label 10) rfl rfl)).tail
      (.next (s := .mark 10) rfl rfl)
  exact ((hhandler.tail (.thrown (k := ⟨0, 14, none, 11⟩) rfl rfl (fun _ => true) rfl)).tail
    (.next (s := .label 11) rfl rfl)).tail (.next (s := .mark 11) rfl rfl)

/-- The last instruction returns, and is the only one behind the last label with a statement. -/
lemma salvage_turn :
    (Generator.alone.turn salvageClass salvage [0, 0, 2, 10, 4, 0, 11] (salvageCode.take 11)
      ⟨13, .returns (some .int)⟩ { exporter := ⟨.none, [], 0⟩ }).1 =
      .ok (salvageStmts.take 19, salvageStmts) := by decide +kernel

end ClassScript
