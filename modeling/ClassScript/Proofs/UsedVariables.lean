import ClassScript.Method.Function
import ClassScript.Proofs.Triples

/-!
The variables that generated code uses are noted as it is generated.

A variable is noted when a value is pushed into it, when a constant is written out to it, when a
label has it on its stack, and when an instruction names it. So whatever stands on the stack is
noted, and with it whatever the code reads and writes.
-/

namespace ClassScript

namespace Frame

def held : List Entry → List Var
  | [] => []
  | .slot k :: rest => .operand k rest.length :: held rest
  | .const _ :: rest => held rest

structure Covered (f : Frame) : Prop where
  stack : held f.stack ⊆ f.used
  code : ∀ s ∈ f.out, s.vars ⊆ f.used

lemma held_subset_cons (e : Entry) (rest : List Entry) : held rest ⊆ held (e :: rest) := by
  cases e <;> simp [held]

/-- The value `i` positions above the bottom is in the variable of its kind and position. -/
lemma mem_held {stack : List Entry} {v : Var} :
    v ∈ held stack ↔ ∃ k i, stack.reverse[i]? = some (.slot k) ∧ v = .operand k i := by
  induction stack with
  | nil => simp [held]
  | cons e rest ih =>
    have hlen : (rest.reverse ++ [e])[rest.length]? = some e := by
      rw [List.getElem?_append_right (by simp), List.length_reverse, Nat.sub_self]
      rfl
    rw [List.reverse_cons]
    constructor
    · intro hv
      have hcases : v ∈ held rest ∨ ∃ k, e = .slot k ∧ v = .operand k rest.length := by
        cases e with
        | slot k => exact (List.mem_cons.mp hv).symm.imp_right fun h => ⟨k, rfl, h⟩
        | const l => exact .inl hv
      obtain hv | ⟨k, rfl, rfl⟩ := hcases
      · obtain ⟨k, i, hi, rfl⟩ := ih.mp hv
        exact ⟨k, i, by rw [List.getElem?_append_left (List.getElem?_eq_some_iff.mp hi).1, hi], rfl⟩
      · exact ⟨k, rest.length, hlen, rfl⟩
    · rintro ⟨k, i, hi, rfl⟩
      -- the entry on top has the last position
      by_cases hlt : i < rest.reverse.length
      · rw [List.getElem?_append_left hlt] at hi
        exact held_subset_cons e rest (ih.mpr ⟨k, i, hi, rfl⟩)
      · have hend := (List.getElem?_eq_some_iff.mp hi).1
        simp only [List.length_append, List.length_reverse, List.length_singleton] at hend hlt
        obtain rfl : i = rest.length := by omega
        rw [hlen] at hi
        cases hi
        exact List.mem_cons_self

lemma vars_atom_subset (e : Entry) (rest : List Entry) :
    (e.atom rest.length).vars ⊆ held (e :: rest) := by
  cases e <;> simp [Entry.atom, Atom.vars, held]

lemma held_drop_subset (stack : List Entry) (n : Nat) : held (stack.drop n) ⊆ held stack := by
  induction stack generalizing n with
  | nil => simp
  | cons e rest ih =>
    cases n with
    | zero => exact List.Subset.refl _
    | succ n => exact List.Subset.trans (ih n) (held_subset_cons e rest)

/-- One more variable is noted, and the stack may hold it. -/
lemma Covered.note {f g : Frame} {v : Var} (hf : f.Covered) (hused : g.used = v :: f.used)
    (hout : g.out = f.out) (hstack : held g.stack ⊆ v :: held f.stack) :
    g.Covered ∧ f.used ⊆ g.used ∧ [v] ⊆ g.used := by
  rw [hused]
  refine ⟨⟨?_, ?_⟩, List.subset_cons_self _ _, by simp⟩
  · rw [hused]
    exact List.Subset.trans hstack (List.cons_subset_cons v hf.stack)
  · rw [hused, hout]
    exact fun s hs => List.subset_cons_of_subset _ (hf.code s hs)

end Frame

/-! ### Lowering -/

open ClassScript.Frame (held held_subset_cons held_drop_subset mem_held vars_atom_subset)

namespace Lower

variable {α β : Type} {vs : List Var} {x : Lower α} {r : α → List Var}

/-- Where the variables `vs` are noted, the step keeps all that is used noted, and with it what
its result names. -/
def Covers (vs : List Var) (x : Lower α) (r : α → List Var) : Prop :=
  ∀ ⦃f f' : Frame⦄ ⦃a : α⦄, f.Covered → vs ⊆ f.used → x f = .ok (a, f') →
    f'.Covered ∧ f.used ⊆ f'.used ∧ r a ⊆ f'.used

abbrev none (_ : α) : List Var := []

namespace Covers

lemma pure {a : α} (h : r a ⊆ vs) : Covers vs (pure a : Lower α) r := by
  intro f f' b hf hvs hx
  cases hx
  exact ⟨hf, List.Subset.refl _, List.Subset.trans h hvs⟩

lemma throw (fault : Fault) : Covers vs (throw fault : Lower α) r := by
  intro f f' a _ _ h
  cases h

lemma throw_bind (fault : Fault) (k : β → Lower α) :
    Covers vs (MonadExcept.throw fault >>= k) r := by
  intro f f' b _ _ h
  cases h

lemma bind {k : α → Lower β} {q : β → List Var} (hx : Covers vs x r)
    (hk : ∀ a, Covers (r a ++ vs) (k a) q) :
    Covers vs (x >>= k) q := by
  intro f f'' b hf hvs h
  change (x f).bind (fun p => k p.1 p.2) = _ at h
  cases hstep : x f with
  | error fault =>
    rw [hstep] at h
    cases h
  | ok p =>
    obtain ⟨a, f'⟩ := p
    rw [hstep] at h
    obtain ⟨hf', hused, ha⟩ := hx hf hvs hstep
    obtain ⟨hf'', hused', hb⟩ :=
      hk a hf' (List.append_subset.mpr ⟨ha, List.Subset.trans hvs hused⟩) h
    exact ⟨hf'', List.Subset.trans hused hused', hb⟩

lemma mono {ws : List Var} (h : Covers vs x r) (hvs : vs ⊆ ws) : Covers ws x r :=
  fun _ _ _ hf hws hx => h hf (List.Subset.trans hvs hws) hx

/-- What is on the stack is noted. -/
lemma get : Covers vs (get : Lower Frame) fun f => held f.stack := by
  intro f f' a hf _ h
  cases h
  exact ⟨hf, List.Subset.refl _, hf.stack⟩

lemma update {g : Frame → Frame}
    (h : ∀ f, f.Covered → vs ⊆ f.used → (g f).Covered ∧ f.used ⊆ (g f).used) :
    Covers vs (modify g) none := by
  intro f f' a hf hvs hx
  cases hx
  obtain ⟨hg, hused⟩ := h f hf hvs
  exact ⟨hg, hused, List.nil_subset _⟩

/-- The stack is replaced by one with noted variables. -/
lemma setStack {stack : List Entry} (h : held stack ⊆ vs) :
    Covers vs (modify fun f => { f with stack }) none :=
  update fun _ hf hvs => ⟨⟨List.Subset.trans h hvs, hf.code⟩, List.Subset.refl _⟩

lemma emit {s : Stmt} (h : s.vars ⊆ vs) : Covers vs (emit s) none := by
  refine update fun f hf hvs => ⟨⟨hf.stack, fun s' hs' => ?_⟩, List.Subset.refl _⟩
  obtain hs' | rfl := Array.mem_push.mp hs'
  · exact hf.code s' hs'
  · exact List.Subset.trans h hvs

lemma forM {k : α → Lower PUnit} {l : List α} (h : ∀ a, Covers vs (k a) none) :
    Covers vs (l.forM k) none := by
  induction l with
  | nil => exact pure (List.nil_subset _)
  | cons a l ih => exact bind (h a) fun _ => ih

lemma mapM {k : α → Lower β} {q : β → List Var} {l : List α} (h : ∀ a ∈ l, Covers vs (k a) q) :
    Covers vs (l.mapM k) fun bs => bs.flatMap q := by
  induction l with
  | nil => exact pure (List.nil_subset _)
  | cons a l ih =>
    rw [List.mapM_cons]
    refine bind (h a List.mem_cons_self) fun b => ?_
    refine bind
      ((ih fun a' ha' => h a' (List.mem_cons_of_mem a ha')).mono (List.subset_append_right _ _))
      fun bs => ?_
    exact pure (by simp)

end Covers

lemma pop_covers : Covers vs pop Atom.vars := by
  refine .bind .get fun f => ?_
  split
  · exact .throw _
  · rename_i e rest hstack
    rw [hstack]
    refine .bind (.setStack ?_) fun _ => .pure ?_
    · exact List.subset_append_of_subset_left _ (held_subset_cons e rest)
    · exact List.subset_append_of_subset_right
        _ (List.subset_append_of_subset_left _ (vars_atom_subset e rest))

lemma peek_covers : Covers vs peek Atom.vars := by
  refine .bind .get fun f => ?_
  split
  · exact .throw _
  · rename_i e rest hstack
    rw [hstack]
    exact .pure (List.subset_append_of_subset_left _ (vars_atom_subset e rest))

lemma pop2_covers : Covers vs pop2 fun p => p.1.vars ++ p.2.vars :=
  .bind pop_covers fun _ => .bind pop_covers fun _ => .pure (by simp)

lemma pop3_covers : Covers vs pop3 fun p => p.1.vars ++ p.2.1.vars ++ p.2.2.vars :=
  .bind pop_covers fun _ => .bind pop2_covers fun _ => .pure (by grind)

lemma popMany_covers (n : Nat) : Covers vs (popMany n) fun as => as.flatMap Atom.vars := by
  induction n generalizing vs with
  | zero => exact .pure (List.nil_subset _)
  | succ n ih => exact .bind pop_covers fun _ => .bind ih fun _ => .pure (by simp)

lemma pushConst_covers (l : Literal) : Covers vs (pushConst l) none :=
  .update fun _ hf _ => ⟨⟨hf.stack, hf.code⟩, List.Subset.refl _⟩

lemma pushSlot_covers (k : Kind) : Covers vs (pushSlot k) fun v => [v] := by
  intro f f' v hf _ h
  cases h
  exact hf.note rfl rfl (List.Subset.refl _)

lemma assign_covers (k : Kind) {e : Expr} (h : e.vars ⊆ vs) : Covers vs (assign k e) none :=
  .bind (pushSlot_covers k) fun _ =>
    .emit (List.cons_subset.mpr ⟨List.mem_cons_self, List.subset_cons_of_subset _ h⟩)

lemma slot_covers (k : Kind) (index : UInt16) : Covers vs (slot k index) fun v => [v] := by
  intro f f' v hf _ h
  cases h
  exact hf.note rfl rfl (List.subset_cons_self _ _)

lemma temp_covers : Covers vs temp fun v => [v] := by
  intro f f' v hf _ h
  cases h
  exact hf.note rfl rfl (List.subset_cons_self _ _)

/-- What is written out is in variables that are noted with it. -/
lemma held_flushed (stack : List Entry) :
    held (stack.map fun e => .slot e.kind) ⊆ (pending stack).map Prod.fst ++ held stack := by
  induction stack with
  | nil => simp [held]
  | cons e rest ih =>
    intro v hv
    rw [List.map_cons, held, List.length_map] at hv
    obtain rfl | hv := List.mem_cons.mp hv
    · cases e with
      | slot k => exact List.mem_append_right _ List.mem_cons_self
      | const l => simp [pending, Entry.kind]
    · have hrest := List.mem_append.mp (ih hv)
      cases e with
      | slot k => exact List.mem_append.mpr (hrest.imp_right (List.mem_cons_of_mem _))
      | const l =>
        simp only [pending, held, List.map_append, List.mem_append]
        exact hrest.imp_left .inl

lemma flush_covers : Covers vs flush none := by
  refine .update fun f hf _ => ⟨⟨?_, fun s hs => ?_⟩, List.subset_append_right _ _⟩
  · exact List.Subset.trans (held_flushed f.stack) (List.append_subset.mpr
      ⟨List.subset_append_left _ _, List.subset_append_of_subset_right _ hf.stack⟩)
  · obtain hs | hs := Array.mem_append.mp hs
    · exact List.subset_append_of_subset_right _ (hf.code s hs)
    · obtain ⟨w, hw, rfl⟩ := List.mem_map.mp (List.mem_toArray.mp hs)
      refine List.cons_subset.mpr ⟨List.mem_append_left _ (List.mem_map_of_mem hw),
        List.nil_subset _⟩

lemma record_covers (target : Nat) : Covers vs (record target) none := by
  refine .update fun f hf _ => ?_
  split
  · exact ⟨hf, List.Subset.refl _⟩
  · exact ⟨⟨hf.stack, hf.code⟩, List.Subset.refl _⟩

/-- The stack of a label is in the variables of its layout. -/
lemma held_layout (kinds : List Kind) : held (kinds.map Entry.slot).reverse ⊆ layoutVars kinds := by
  intro v hv
  obtain ⟨k, i, hi, rfl⟩ := mem_held.mp hv
  rw [List.reverse_reverse, List.getElem?_map, Option.map_eq_some_iff] at hi
  obtain ⟨k', hk, heq⟩ := hi
  cases heq
  exact List.mem_map.mpr ⟨(k, i), List.mem_zipIdx_iff_getElem?.mpr hk, rfl⟩

lemma reset_covers (kinds : List Kind) : Covers vs (reset kinds) none :=
  .update fun _ hf _ => ⟨⟨List.subset_append_of_subset_left _ (held_layout kinds),
    fun s hs => List.subset_append_of_subset_right _ (hf.code s hs)⟩, List.subset_append_right _ _⟩

lemma beforeJump_covers (targets : List Nat) : Covers vs (beforeJump targets) none :=
  .bind flush_covers fun _ => .forM record_covers

lemma branch_covers {c : Comparison} (hleft : c.left.vars ⊆ vs) (hright : c.right.vars ⊆ vs)
    (target : Nat) :
    Covers vs (branch c target) none :=
  .bind (beforeJump_covers _) fun _ => .emit (by simp [Stmt.vars, hleft, hright])

/-! One instruction: what it writes and reads is taken from the stack or noted for it. -/

lemma arith_covers (op : ArithOp) (k : Kind) {a b : Atom} (ha : a.vars ⊆ vs) (hb : b.vars ⊆ vs) :
    Covers vs (arith op k a b) none := by
  cases k with
  | int | long =>
    rw [arith]
    split
    · exact pushConst_covers _
    · exact assign_covers _ (by simp [Expr.vars, ha, hb])
  | float | double => exact assign_covers _ (by simp [Expr.vars, ha, hb])
  | ref => exact .throw _

lemma neg_covers (k : Kind) {a : Atom} (ha : a.vars ⊆ vs) : Covers vs (neg k a) none := by
  cases k with
  | int | long =>
    rw [neg]
    split
    · exact pushConst_covers _
    · exact assign_covers _ (by simp [Expr.vars, ha])
  | float | double => exact assign_covers _ ha
  | ref => exact .throw _

lemma shift_covers (op : ShiftOp) (k : Kind) {a b : Atom} (ha : a.vars ⊆ vs) (hb : b.vars ⊆ vs) :
    Covers vs (shift op k a b) none := by
  cases k with
  | int =>
    rw [shift]
    split
    · exact pushConst_covers _
    · refine assign_covers _ ?_
      split <;> simp [Expr.vars, ha, hb]
  | long =>
    rw [shift]
    split
    · exact pushConst_covers _
    · exact assign_covers _ (by simp [Expr.vars, ha, hb])
  | float | double | ref => exact .throw _

lemma logic_covers (op : LogicOp) (k : Kind) {a b : Atom} (ha : a.vars ⊆ vs) (hb : b.vars ⊆ vs) :
    Covers vs (logic op k a b) none := by
  cases k with
  | int | long =>
    rw [logic]
    split
    · exact pushConst_covers _
    · exact assign_covers _ (by simp [Expr.vars, ha, hb])
  | float | double | ref => exact .throw _

lemma vars_convertExpr (c : Conversion) (a : Atom) : (convertExpr c a).vars = a.vars := by
  cases c <;> simp [convertExpr, Expr.vars]

lemma convert_covers (c : Conversion) {a : Atom} (ha : a.vars ⊆ vs) :
    Covers vs (convert c a) none := by
  rw [convert]
  split
  · exact pushConst_covers _
  · exact assign_covers _ (by rwa [vars_convertExpr])

lemma vars_narrow (k : ArrayKind) (a : Atom) : (narrow k a).vars ⊆ a.vars := by
  cases k with
  | byte | boolean | char | short =>
    rw [narrow]
    dsimp only
    split
    · exact List.nil_subset _
    · rw [vars_convertExpr]
      exact List.Subset.refl _
  | _ => exact List.Subset.refl _

lemma switch_covers (pairs : List (Int32 × Nat)) (default : Nat) :
    Covers vs (switch pairs default) none :=
  .bind pop_covers fun _ => .bind (beforeJump_covers _) fun _ => .emit (by simp [Stmt.vars])

/-- A value that a shuffle takes is in the variable of its position. -/
lemma operand_mem_held {stack : List Entry} {n i : Nat} {k : Kind}
    (h : (stack.take n).reverse[i]? = some (.slot k)) :
    .operand k (stack.length - n + i) ∈ held stack := by
  refine mem_held.mpr ⟨k, _, ?_, rfl⟩
  have hsplit : stack.reverse = (stack.drop n).reverse ++ (stack.take n).reverse := by
    rw [← List.reverse_append, List.take_append_drop]
  have hlen : (stack.drop n).reverse.length = stack.length - n := by
    rw [List.length_reverse, List.length_drop]
  rw [hsplit, ← hlen, List.getElem?_append_right (Nat.le_add_right _ _), Nat.add_sub_cancel_left, h]

section

variable {base : Nat} {values : List Entry}
  (hvalues : ∀ {i k}, values[i]? = some (.slot k) → .operand k (base + i) ∈ vs)

include hvalues

lemma source_mem {i : Nat} {v : Var} (h : Shuffle.source? base values i = some v) : v ∈ vs := by
  unfold Shuffle.source? at h
  split at h
  · cases h
    exact hvalues ‹_›
  · cases h

lemma save_covers (pattern : List Nat) :
    Covers vs (Shuffle.save base values pattern) fun saved => saved.flatMap fun p => [p.2] := by
  refine .mapM fun p hp => ?_
  obtain ⟨i, -, hi⟩ := List.mem_filterMap.mp hp
  have hsource : p.2 ∈ vs := by
    split at hi
    · rename_i v hv
      split at hi
      · cases hi
        exact source_mem hvalues hv
      · cases hi
    · cases hi
  refine .bind temp_covers fun t => .bind (.emit ?_) fun _ => .pure (by simp)
  refine List.cons_subset.mpr ⟨List.mem_cons_self, List.cons_subset.mpr ⟨?_, List.nil_subset _⟩⟩
  exact List.mem_cons_of_mem _ hsource

lemma move_covers {saved : List (Nat × Var)} (hsaved : ∀ p ∈ saved, p.2 ∈ vs) (i : Nat) :
    Covers vs (Shuffle.move base values saved i) none := by
  rw [Shuffle.move]
  split
  · exact .pure (List.nil_subset _)
  · exact pushConst_covers _
  · rename_i k hk
    have hsource : (saved.lookup i).getD (.operand k (base + i)) ∈ vs := by
      cases hlookup : saved.lookup i with
      | none => exact hvalues hk
      | some v =>
        obtain ⟨before, after, rfl, -⟩ := List.lookup_eq_some_iff.mp hlookup
        exact hsaved (i, v) (List.mem_append_right _ List.mem_cons_self)
    refine .bind (pushSlot_covers k) fun dest => ?_
    split
    · refine .emit
        (List.cons_subset.mpr ⟨List.mem_cons_self, List.cons_subset.mpr ⟨?_, List.nil_subset _⟩⟩)
      exact List.mem_cons_of_mem _ hsource
    · exact .pure (List.nil_subset _)

end

lemma run_covers (s : Shuffle) : Covers vs s.run none := by
  refine .bind .get fun f => ?_
  dsimp only
  split
  · exact .throw_bind _ _
  · refine .bind (.setStack (List.subset_append_of_subset_left _ (held_drop_subset _ _)))
      fun _ => ?_
    have hvalues {i : Nat} {k : Kind} (h : (f.stack.take s.take).reverse[i]? = some (.slot k)) :
        .operand k (f.stack.length - s.take + i) ∈ held f.stack ++ vs :=
      List.mem_append_left _ (operand_mem_held h)
    refine .bind (save_covers hvalues _) fun saved => .forM (move_covers ?_ fun p hp => ?_)
    · exact fun h => List.mem_append_right _ (hvalues h)
    · exact List.mem_append_left _ (List.mem_flatMap.mpr ⟨p, hp, List.mem_cons_self⟩)

lemma shuffle_covers (i : Instruction) : Covers vs (shuffle i) none := by
  refine .bind .get fun f => ?_
  split
  · exact run_covers _
  · exact .pure (List.nil_subset _)

/-- **An instruction that is lowered alone uses noted variables only.** -/
lemma instruction_covers (i : Instruction) : Covers vs (instruction i) none := by
  have hshuffle : Covers vs (shuffle i) none := shuffle_covers i
  have hpop : Covers vs (do let _ ← pop) none := .bind pop_covers fun _ => .pure (List.nil_subset _)
  -- a line names what was taken from the stack, what it assigns, or a slot
  cases i with
  | push v => exact pushConst_covers _
  | load k index =>
    exact .bind (slot_covers k index) fun _ => assign_covers k (by simp [Expr.vars, Atom.vars])
  | store k index =>
    exact .bind pop_covers fun _ => .bind (slot_covers k index) fun _ =>
      .emit (by simp [Stmt.vars, Expr.vars])
  | iinc index delta =>
    exact .bind (slot_covers .int index) fun _ => .emit (by simp [Stmt.vars, Expr.vars, Atom.vars])
  | arrayLoad k => exact .bind pop2_covers fun _ => assign_covers _ (by simp [Expr.vars])
  | arrayStore k =>
    refine .bind pop3_covers fun p => .emit (List.append_subset.mpr ⟨by simp, ?_⟩)
    exact List.subset_append_of_subset_left
      _ (List.subset_append_of_subset_right _ (vars_narrow k p.2.2))
  | pop | monitorEnter | monitorExit => exact hpop
  | pop2 =>
    refine .bind .get fun f => ?_
    split
    · exact .bind pop_covers fun _ => .pure (List.nil_subset _)
    · exact .bind pop2_covers fun _ => .pure (List.nil_subset _)
  | arith op k => exact .bind pop2_covers fun _ => arith_covers op k (by simp) (by simp)
  | neg k => exact .bind pop_covers fun _ => neg_covers k (by simp)
  | shift op k => exact .bind pop2_covers fun _ => shift_covers op k (by simp) (by simp)
  | logic op k => exact .bind pop2_covers fun _ => logic_covers op k (by simp) (by simp)
  | convert c => exact .bind pop_covers fun _ => convert_covers c (by simp)
  | lcmp =>
    refine .bind pop2_covers fun p => ?_
    obtain ⟨a, b⟩ := p
    dsimp only
    split
    · exact pushConst_covers _
    · exact assign_covers _ (by simp [Expr.vars])
  | cmp k nanGreater =>
    exact .bind pop2_covers fun _ => assign_covers _ (by simp [Expr.vars, Atom.vars])
  | ifZero cond t | ifNull null t =>
    exact .bind pop_covers fun _ => branch_covers (by simp) (List.nil_subset _) t
  | ifInt cond t | ifRef equal t =>
    exact .bind pop2_covers fun _ => branch_covers (by simp) (by simp) t
  | goto t => exact .bind (beforeJump_covers _) fun _ => .emit (List.nil_subset _)
  | jsr t | ret index | invokeDynamic index => exact .throw _
  | tableSwitch default low targets => exact switch_covers _ _
  | lookupSwitch default pairs => exact switch_covers _ _
  | returns k =>
    cases k with
    | none => exact .emit (List.nil_subset _)
    | some k => exact .bind pop_covers fun _ => .emit (by simp [Stmt.vars])
  | newArray k => exact .bind pop_covers fun _ => assign_covers _ (by simp [Expr.vars, Atom.vars])
  | arrayLength => exact .bind pop_covers fun _ => assign_covers _ (by simp [Expr.vars])
  | athrow => exact .bind pop_covers fun _ => .emit (by simp [Stmt.vars])
  | _ => exact hshuffle

lemma enterLabel_covers (pc : Nat) (reachable marked : Bool) :
    Covers vs (enterLabel pc reachable marked) none := by
  have hlines {ws : List Var} :
      Covers ws (do emit (.label pc); if marked then emit (.mark pc)) none := by
    refine .bind (.emit (List.nil_subset _)) fun _ => ?_
    split
    · exact .emit (List.nil_subset _)
    · exact .pure (List.nil_subset _)
  rw [enterLabel]
  split
  · exact .bind flush_covers fun _ => .bind (record_covers pc) fun _ => hlines
  · exact .bind .get fun _ => .bind (reset_covers _) fun _ => hlines

end Lower

/-! ### Code that names the constant pool -/

namespace Emission

variable {α β : Type} {vs : List Var} {x : Emission α} {r : α → List Var}

/-- The same of steps that may ask about other classes. -/
def Covers (vs : List Var) (x : Emission α) (r : α → List Var) : Prop :=
  ∀ ⦃f f' : Frame⦄ ⦃a : α⦄ ⦃s t : Session⦄, f.Covered → vs ⊆ f.used → x f s = (.ok (a, f'), t) →
    f'.Covered ∧ f.used ⊆ f'.used ∧ r a ⊆ f'.used

namespace Covers

lemma pure {a : α} (h : r a ⊆ vs) : Covers vs (pure a : Emission α) r := by
  intro f f' b s t hf hvs hx
  cases hx
  exact ⟨hf, List.Subset.refl _, List.Subset.trans h hvs⟩

lemma bind {k : α → Emission β} {q : β → List Var} (hx : Covers vs x r)
    (hk : ∀ a, Covers (r a ++ vs) (k a) q) :
    Covers vs (x >>= k) q := by
  intro f f'' b s u hf hvs h
  obtain ⟨a, f', t, hstep, h⟩ := bind_eq_ok h
  obtain ⟨hf', hused, ha⟩ := hx hf hvs hstep
  obtain ⟨hf'', hused', hb⟩ := hk a hf' (List.append_subset.mpr ⟨ha, List.Subset.trans hvs hused⟩) h
  exact ⟨hf'', List.Subset.trans hused hused', hb⟩

lemma lower {y : Lower α} (h : Lower.Covers vs y r) (site : Site) : Covers vs (lower site y) r := by
  intro f f' a s t hf hvs hx
  exact h hf hvs (lower_eq_ok hx).1

/-- A step that leaves the frame as it is, with a result that names no variable. -/
lemma lift {y : Generation α} (h : ∀ {s a t}, y s = (.ok a, t) → r a = []) :
    Covers vs (liftM y : Emission α) r := by
  intro f f' a s t hf _ hx
  obtain ⟨b, t', hy, hx⟩ := ClassScript.bind_eq_ok hx
  cases hx
  rw [h hy]
  exact ⟨hf, List.Subset.refl _, List.nil_subset _⟩

lemma lift_bind {y : Generation α} {k : α → Emission β} {q : β → List Var}
    (hk : ∀ a, Covers vs (k a) q) :
    Covers vs (liftM y >>= k) q :=
  bind (r := Lower.none) (lift fun _ => rfl) hk

end Covers

end Emission

namespace Generator

open Lower (none pop_covers pop2_covers peek_covers popMany_covers assign_covers pushConst_covers)
open Emission (Covers)

variable {vs : List Var}

lemma ldc_covers (site : Site) (p : ConstantPool) (i : UInt16) : Covers vs (ldc site p i) none := by
  refine .lift_bind fun l => ?_
  cases l with
  | int v | float v | long v | double v | string v => exact .lower (pushConst_covers _) site
  | classRef name =>
    dsimp only
    split
    · exact .lower (assign_covers _ (List.nil_subset _)) site
    · exact .lift_bind fun _ => .lower (assign_covers _ (List.nil_subset _)) site

/-- A call uses its arguments and the receiver, which is taken after them. -/
lemma callOf_covers (g : Generator) (site : Site) (kind : InvokeKind) (m : MemberRef)
    {args : List Atom} (h : args.flatMap Atom.vars ⊆ vs) :
    Covers vs (g.callOf site kind m args) Expr.vars := by
  have hreceiver (a : Atom) : a.vars ++ args.flatMap Atom.vars ⊆ a.vars ++ vs :=
    List.append_subset.mpr ⟨List.subset_append_left _ _, List.subset_append_of_subset_right _ h⟩
  cases kind with
  | static => exact .lift_bind fun _ => .lift_bind fun _ => .pure h
  | special =>
    exact .bind (.lower pop_covers site) fun a => .lift_bind fun _ => .lift_bind fun _ =>
      .pure (hreceiver a)
  | virtual | interface =>
    refine .bind (.lower pop_covers site) fun a => .lift_bind fun dispatch => ?_
    cases dispatch with
    | direct => exact .lift_bind fun _ => .pure (hreceiver a)
    | invoker => exact .lift_bind fun _ => .pure (by simpa [Expr.vars] using hreceiver a)

lemma invoke_covers (g : Generator) (site : Site) (p : ConstantPool) (kind : InvokeKind)
    (i : UInt16) :
    Covers vs (g.invoke site p kind i) none := by
  refine .lift_bind fun m => ?_
  split
  · exact .lift fun _ => rfl
  · refine .bind (.lower (popMany_covers _) site) fun args => ?_
    refine .bind (g.callOf_covers site kind m (List.subset_append_left _ _)) fun e => ?_
    split
    · exact .lower (assign_covers _ (List.subset_append_left _ _)) site
    · exact .lower (.emit (by simp [Stmt.vars])) site

/-- A static field is a property of an object that no variable holds. -/
lemma staticFieldAt_vars {g : Generator} {site : Site} {p : ConstantPool} {i : UInt16}
    {s t : Session} {e : Expr × Kind} (h : g.staticFieldAt site p i s = (.ok e, t)) :
    e.1.vars = [] := by
  obtain ⟨u, t₁, -, h⟩ := bind_eq_ok h
  obtain ⟨_, t₂, -, h⟩ := bind_eq_ok h
  obtain ⟨_, t₃, -, h⟩ := bind_eq_ok h
  cases h
  rfl

lemma vars_typeTest (name : String) : (typeTest name).flatMap Atom.vars = [] := by
  unfold typeTest
  split <;> rfl

/-- **Code for an instruction uses noted variables only.** -/
lemma instruction_covers (g : Generator) (site : Site) (p : ConstantPool) (i : Instruction) :
    Covers vs (g.instruction site p i) none := by
  have hlower : Covers vs (Emission.lower site (Lower.instruction i)) none :=
    .lower (Lower.instruction_covers i) site
  have hplace {index : UInt16} : Covers vs (liftM (g.staticFieldAt site p index) : Emission _)
      fun e => e.1.vars :=
    .lift staticFieldAt_vars
  have hpop {ws : List Var} : Covers ws (Emission.lower site Lower.pop) Atom.vars :=
    .lower pop_covers site
  -- what is looked up in other classes brings no variable of its own
  cases i with
  | ldc index => exact ldc_covers site p index
  | getStatic index =>
    exact .bind hplace fun _ => .lower (assign_covers _ (List.subset_append_left _ _)) site
  | putStatic index =>
    exact .bind hplace fun _ => .bind hpop fun _ => .lower (.emit (by simp [Stmt.vars])) site
  | getField index =>
    exact .bind hpop fun _ => .lift_bind fun _ =>
      .lower (assign_covers _ (by simp [fieldOf, Expr.vars])) site
  | putField index =>
    exact .bind (.lower pop2_covers site) fun _ => .lift_bind fun _ =>
      .lower (.emit (by simp [Stmt.vars, fieldOf, Expr.vars])) site
  | invoke kind index => exact g.invoke_covers site p kind index
  | new index =>
    exact .lift_bind fun _ => .lift_bind fun _ => .lower (assign_covers _ (List.nil_subset _)) site
  | newRefArray index =>
    exact .lift_bind fun _ => .bind hpop fun _ =>
      .lower (assign_covers _ (by simp [Expr.vars, Atom.vars])) site
  | newMultiArray index dimensions =>
    exact .lift_bind fun _ => .bind (.lower (popMany_covers _) site) fun _ =>
      .lower (assign_covers _ (by simp [Expr.vars])) site
  | checkCast index =>
    refine .lift_bind fun name => ?_
    split
    · refine .bind (.lower peek_covers site) fun a => .lower (.emit ?_) site
      simp [Stmt.vars, Expr.vars, vars_typeTest]
    · exact .pure (List.nil_subset _)
  | instanceOf index =>
    refine .lift_bind fun name => .bind hpop fun a => .lower (assign_covers _ ?_) site
    simp [Expr.vars, vars_typeTest]
  | _ => exact hlower

lemma block_covers (g : Generator) (site : Nat → Site) (p : ConstantPool) (labels : List Nat)
    (marked : Bool) (code : List Located) (reachable : Bool) (last : Option Nat) :
    Covers vs (g.block site p labels marked code reachable last) none := by
  induction code generalizing reachable last with
  | nil => exact .pure (List.nil_subset _)
  | cons l code ih =>
    rw [block]
    dsimp only
    split
    · have hrest : Covers vs (do
          g.instruction (site l.address) p l.instruction
          g.block site p labels marked code (!l.instruction.endsFlow) (some l.address)) none :=
        .bind (g.instruction_covers _ p _) fun _ => ih _ _
      split
      · exact .bind (.lower (Lower.enterLabel_covers _ _ _) _) fun _ => hrest
      · exact hrest
    · exact ih _ _

end Generator

/-- The variables that a body reads or writes. Handlers write the one that they find the
thrown value in. -/
def Body.vars (b : Body) : List Var :=
  b.code.flatMap Stmt.vars ++ if b.handlers.isEmpty then [] else [CatchClause.thrown]

lemma Frame.covered_ofHandlers (handlers : List Handler) : (Frame.ofHandlers handlers).Covered :=
  ⟨List.nil_subset _, by simp [ofHandlers]⟩

/-- **The variables of a body are noted for it.** -/
lemma Generator.body_vars {g : Generator} {c : ClassDecl} {m : MethodDecl} {b : Body}
    {used : List Var} {s t : Session} (h : g.body c m s = (.ok (b, used), t)) : b.vars ⊆ used := by
  obtain ⟨code, s₁, -, h⟩ := bind_eq_ok h
  obtain ⟨labels, s₂, -, h⟩ := bind_eq_ok h
  obtain ⟨⟨last, f⟩, s₃, hblock, h⟩ := bind_eq_ok h
  obtain ⟨hf, -, -⟩ := g.block_covers _ c.pool labels _ code true .none
    (Frame.covered_ofHandlers m.handlers) (List.nil_subset _) hblock
  have hcode : f.out.toList.flatMap Stmt.vars ⊆ f.used := by
    intro v hv
    obtain ⟨s, hs, hv⟩ := List.mem_flatMap.mp hv
    exact hf.code s (Array.mem_toList_iff.mp hs) hv
  dsimp only at h
  split at h
  · cases h
    simpa [Body.vars, Body.code, Body.handlers] using hcode
  · obtain ⟨clauses, s₄, hclauses, h⟩ := bind_eq_ok h
    cases h
    -- with handlers there is one variable more, for what is thrown
    cases hmarked : m.handlers.isEmpty with
    | true =>
      rw [List.isEmpty_iff.mp hmarked] at hclauses
      cases hclauses
      simpa [Body.vars, Body.code, Body.handlers] using hcode
    | false =>
      have hused : f.out.toList.flatMap Stmt.vars ⊆ CatchClause.thrown :: f.used :=
        List.subset_cons_of_subset _ hcode
      refine List.append_subset.mpr ⟨hused, ?_⟩
      split
      · exact List.nil_subset _
      · simp

end ClassScript
