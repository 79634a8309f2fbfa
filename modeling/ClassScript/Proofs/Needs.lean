import ClassScript.Define
import ClassScript.Proofs.Control
import ClassScript.Proofs.Frames

/-!
What code needs besides itself.

A class is needed where code names the function that defines it, and a method name where code
calls through the invoker. Lowering an instruction that names no class adds no need, and no jump
but to the targets of the instruction.
-/

namespace ClassScript

/-! ### The needs of code -/

namespace Expr

def invoked : Expr → List String
  | member invoker _ name => [name]
  | fround e | wrap e | put _ _ e | member e _ _ | call e _ => e.invoked
  | atom _ | negate _ | helper .. | multiArray .. | binary .. | arrayClass _ | object
      .. | invoker => []

def needs (e : Expr) : List Request := e.classes.map .reference ++ e.invoked.map .invoker

end Expr

namespace Stmt

def invoked : Stmt → List String
  | assign _ e | eval e | store e _ => e.invoked
  | _ => []

def needs (s : Stmt) : List Request := s.classes.map .reference ++ s.invoked.map .invoker

/-- A statement that names no class, does something, and jumps to the given labels only. -/
structure Bare (labels : List Nat) (s : Stmt) : Prop extends s.Stays labels where
  needs : s.needs = []

namespace Bare

variable {labels : List Nat}

lemma assign (v : Var) {e : Expr} (h : e.needs = []) : Bare labels (.assign v e) :=
  ⟨⟨rfl, by simp [targets]⟩, h⟩

lemma eval {e : Expr} (h : e.needs = []) : Bare labels (.eval e) := ⟨⟨rfl, by simp [targets]⟩, h⟩

end Bare

end Stmt

def FunctionBody.statements : FunctionBody → List Stmt
  | code _ _ body => body.code
  | _ => []

namespace Piece

/-- The classes whose defining function the piece names, those of annotation data among them. -/
def classes : Piece → List String
  | opening name superName => name :: superName.toList
  | function f => f.body.statements.flatMap Stmt.classes
  | reflection _ interfaces _ annotations =>
    classClass :: interfaces ++ Annotation.classes annotations
  | construction superName => superName.toList
  | field .. | publish .. | closing => []

/-- The method names that the piece calls through the invoker. -/
def invoked : Piece → List String
  | function f => f.body.statements.flatMap Stmt.invoked
  | _ => []

def needs (p : Piece) : List Request := p.classes.map .reference ++ p.invoked.map .invoker

/-- The class whose definition starts with the piece. -/
def opened? : Piece → Option String
  | opening name _ => some name
  | _ => none

lemma mem_needs_function {f : Function} {q : Request} :
    q ∈ (function f).needs ↔ ∃ s ∈ f.body.statements, q ∈ s.needs := by
  simp only [needs, classes, invoked, Stmt.needs, List.mem_append, List.mem_map, List.mem_flatMap]
  constructor
  · rintro (⟨n, ⟨s, hs, hn⟩, rfl⟩ | ⟨n, ⟨s, hs, hn⟩, rfl⟩)
    · exact ⟨s, hs, .inl ⟨n, hn, rfl⟩⟩
    · exact ⟨s, hs, .inr ⟨n, hn, rfl⟩⟩
  · rintro ⟨s, hs, ⟨n, hn, rfl⟩ | ⟨n, hn, rfl⟩⟩
    · exact .inl ⟨n, ⟨s, hs, hn⟩, rfl⟩
    · exact .inr ⟨n, ⟨s, hs, hn⟩, rfl⟩

end Piece

def Frame.needs (f : Frame) : List Request := f.out.toList.flatMap Stmt.needs

/-! ### Lowering -/

namespace Lower

variable {α β : Type} {P : Stmt → Prop} {labels : List Nat} {x : Lower α}

/-- The step adds statements of `P` to the code. -/
def Adds (P : Stmt → Prop) (x : Lower α) : Prop :=
  ∀ ⦃f f' : Frame⦄ ⦃a : α⦄, x f = .ok (a, f') →
    ∃ added : List Stmt, f'.out = f.out ++ added.toArray ∧ ∀ s ∈ added, P s

namespace Adds

/-- A step that changes no code. -/
lemma of_out_eq (h : ∀ ⦃f f' : Frame⦄ ⦃a : α⦄, x f = .ok (a, f') → f'.out = f.out) : Adds P x :=
  fun _ _ _ hx => ⟨[], by simp [h hx], by simp⟩

lemma pure (a : α) : Adds P (pure a : Lower α) :=
  of_out_eq fun _ _ _ h => by
    cases h
    rfl

lemma throw (fault : Fault) : Adds P (throw fault : Lower α) := by
  intro f f' a h
  cases h

/-- Nothing follows a fault. -/
lemma throw_bind (fault : Fault) (k : α → Lower β) : Adds P (MonadExcept.throw fault >>= k) := by
  intro f f' b h
  cases h

lemma bind {k : α → Lower β} (hx : Adds P x) (hk : ∀ a, Adds P (k a)) : Adds P (x >>= k) := by
  intro f f' b h
  change (x f).bind (fun r => k r.1 r.2) = _ at h
  cases hf : x f with
  | error fault =>
    rw [hf] at h
    cases h
  | ok r =>
    rw [hf] at h
    obtain ⟨first, hfirst, hP⟩ := hx hf
    obtain ⟨second, hsecond, hP'⟩ := hk r.1 h
    refine ⟨first ++ second, by simp [hsecond, hfirst], fun s hs => ?_⟩
    exact (List.mem_append.1 hs).elim (hP s) (hP' s)

lemma mono {P' : Stmt → Prop} (h : Adds P x) (hP : ∀ s, P s → P' s) : Adds P' x := by
  intro f f' a hx
  obtain ⟨added, hout, hadded⟩ := h hx
  exact ⟨added, hout, fun s hs => hP s (hadded s hs)⟩

lemma get : Adds P (get : Lower Frame) :=
  of_out_eq fun _ _ _ h => by
    cases h
    rfl

/-- A change of the frame that adds no code. -/
lemma modify {g : Frame → Frame} (hg : ∀ f, (g f).out = f.out) : Adds P (modify g) :=
  of_out_eq fun f _ _ h => by
    cases h
    exact hg f

lemma emit {s : Stmt} (hs : P s) : Adds P (emit s) := by
  intro f f' a h
  cases h
  exact ⟨[s], by simp, by simpa using hs⟩

lemma forM {k : α → Lower PUnit} {l : List α} (h : ∀ a, Adds P (k a)) : Adds P (l.forM k) := by
  induction l with
  | nil => exact pure _
  | cons a l ih => exact bind (h a) fun _ => ih

lemma mapM {k : α → Lower β} {l : List α} (h : ∀ a, Adds P (k a)) : Adds P (l.mapM k) := by
  induction l with
  | nil => exact pure _
  | cons a l ih =>
    rw [List.mapM_cons]
    exact bind (h a) fun _ => bind ih fun _ => pure _

end Adds

lemma pop_adds : Adds P pop := by
  refine .bind .get fun f => ?_
  split
  · exact .throw _
  · exact .bind (.modify fun _ => rfl) fun _ => .pure _

lemma peek_adds : Adds P peek := by
  refine .bind .get fun f => ?_
  split
  · exact .throw _
  · exact .pure _

lemma pop2_adds : Adds P pop2 := .bind pop_adds fun _ => .bind pop_adds fun _ => .pure _

lemma pop3_adds : Adds P pop3 := .bind pop_adds fun _ => .bind pop2_adds fun _ => .pure _

lemma popMany_adds (n : Nat) : Adds P (popMany n) := by
  induction n with
  | zero => exact .pure _
  | succ n ih => exact .bind pop_adds fun _ => .bind ih fun _ => .pure _

lemma pushConst_adds (l : Literal) : Adds P (pushConst l) := .modify fun _ => rfl

lemma pushSlot_adds (k : Kind) : Adds P (pushSlot k) :=
  .bind .get fun _ => .bind (.modify fun _ => rfl) fun _ => .pure _

lemma assign_adds (k : Kind) {e : Expr} (he : ∀ v, P (.assign v e)) : Adds P (assign k e) :=
  .bind (pushSlot_adds k) fun v => .emit (he v)

lemma slot_adds (k : Kind) (index : UInt16) : Adds P (slot k index) :=
  .bind (.modify fun _ => rfl) fun _ => .pure _

/-- Writing out constants adds statements that name nothing. -/
lemma flush_adds : Adds (Stmt.Bare labels) flush := by
  intro f f' a h
  cases h
  refine ⟨_, rfl, fun s hs => ?_⟩
  obtain ⟨w, -, rfl⟩ := List.mem_map.mp hs
  exact .assign _ rfl

lemma record_adds (target : Nat) : Adds P (record target) :=
  .modify fun f => by split <;> rfl

lemma beforeJump_adds (targets : List Nat) : Adds (Stmt.Bare labels) (beforeJump targets) :=
  .bind flush_adds fun _ => .forM record_adds

lemma branch_adds (c : Comparison) {target : Nat} (h : target ∈ labels) :
    Adds (Stmt.Bare labels) (branch c target) :=
  .bind (beforeJump_adds _) fun _ => .emit ⟨⟨rfl, by simpa [Stmt.targets] using h⟩, rfl⟩

/-! One instruction: whatever it emits is made of its operands. -/

/-- A value is computed into the variable of its position. -/
lemma assign_bare {k : Kind} {e : Expr} (he : e.needs = []) :
    Adds (Stmt.Bare labels) (assign k e) :=
  assign_adds k fun v => .assign v he

lemma arith_adds (op : ArithOp) (k : Kind) (a b : Atom) :
    Adds (Stmt.Bare labels) (arith op k a b) := by
  cases k with
  | int | long =>
    rw [arith]
    split
    · exact pushConst_adds _
    · exact assign_bare rfl
  | float | double => exact assign_bare rfl
  | ref => exact .throw _

lemma neg_adds (k : Kind) (a : Atom) : Adds (Stmt.Bare labels) (neg k a) := by
  cases k with
  | int | long =>
    rw [neg]
    split
    · exact pushConst_adds _
    · exact assign_bare rfl
  | float | double => exact assign_bare rfl
  | ref => exact .throw _

lemma shift_adds (op : ShiftOp) (k : Kind) (a b : Atom) :
    Adds (Stmt.Bare labels) (shift op k a b) := by
  cases k with
  | int =>
    rw [shift]
    split
    · exact pushConst_adds _
    · refine assign_bare ?_
      split <;> rfl
  | long =>
    rw [shift]
    split
    · exact pushConst_adds _
    · exact assign_bare rfl
  | float | double | ref => exact .throw _

lemma logic_adds (op : LogicOp) (k : Kind) (a b : Atom) :
    Adds (Stmt.Bare labels) (logic op k a b) := by
  cases k with
  | int | long =>
    rw [logic]
    split
    · exact pushConst_adds _
    · exact assign_bare rfl
  | float | double | ref => exact .throw _

lemma needs_convertExpr (c : Conversion) (a : Atom) : (convertExpr c a).needs = [] := by
  cases c <;> rfl

lemma convert_adds (c : Conversion) (a : Atom) : Adds (Stmt.Bare labels) (convert c a) := by
  rw [convert]
  split
  · exact pushConst_adds _
  · exact assign_bare (needs_convertExpr c a)

lemma needs_narrow (k : ArrayKind) (a : Atom) : (narrow k a).needs = [] := by
  cases k with
  | byte | boolean | char | short =>
    rw [narrow]
    dsimp only
    split
    · rfl
    · exact needs_convertExpr _ a
  | _ => rfl

lemma switch_adds (pairs : List (Int32 × Nat)) (default : Nat) :
    Adds (Stmt.Bare (pairs.map Prod.snd ++ [default])) (switch pairs default) := by
  refine .bind pop_adds fun _ => .bind (beforeJump_adds _) fun _ =>
    .emit ⟨⟨rfl, fun a ha => ?_⟩, rfl⟩
  rcases List.mem_append.1 ha with ha | ha
  · exact SwitchTable.mem_targets_ofPairs ha
  · exact List.mem_append_right _ ha

lemma save_adds (base : Nat) (values : List Entry) (pattern : List Nat) :
    Adds (Stmt.Bare labels) (Shuffle.save base values pattern) := by
  have htemp : Adds (Stmt.Bare labels) temp :=
    .bind .get fun _ => .bind (.modify fun _ => rfl) fun _ => .pure _
  exact .mapM fun _ => .bind htemp fun _ => .bind (.emit (.assign _ rfl)) fun _ => .pure _

lemma move_adds (base : Nat) (values : List Entry) (saved : List (Nat × Var)) (i : Nat) :
    Adds (Stmt.Bare labels) (Shuffle.move base values saved i) := by
  rw [Shuffle.move]
  split
  · exact .pure _
  · exact pushConst_adds _
  · refine .bind (pushSlot_adds _) fun _ => ?_
    split
    · exact .emit (.assign _ rfl)
    · exact .pure _

lemma run_adds (s : Shuffle) : Adds (Stmt.Bare labels) s.run := by
  refine .bind .get fun f => ?_
  dsimp only
  split
  · exact .throw_bind _ _
  · exact .bind (.modify fun _ => rfl) fun _ => .bind (save_adds _ _ _) fun saved =>
      .forM (move_adds _ _ saved)

lemma shuffle_adds (i : Instruction) : Adds (Stmt.Bare labels) (shuffle i) := by
  refine .bind .get fun f => ?_
  split
  · exact run_adds _
  · exact .pure _

/-- **An instruction that is lowered alone needs no class, and jumps to its targets only.** -/
lemma instruction_adds (i : Instruction) : Adds (Stmt.Bare i.targets) (instruction i) := by
  have hshuffle : Adds (Stmt.Bare i.targets) (shuffle i) := shuffle_adds i
  -- a line jumps to a target of the instruction, and needs no other class
  cases i with
  | push v => exact pushConst_adds _
  | load k index => exact .bind (slot_adds k index) fun _ => assign_bare rfl
  | store k index =>
    exact .bind pop_adds fun _ => .bind (slot_adds k index) fun _ => .emit (.assign _ rfl)
  | iinc index delta => exact .bind (slot_adds .int index) fun _ => .emit (.assign _ rfl)
  | arrayLoad k => exact .bind pop2_adds fun _ => assign_bare rfl
  | arrayStore k => exact .bind pop3_adds fun r => .emit (.eval (needs_narrow k r.2.2))
  | pop | monitorEnter | monitorExit => exact .bind pop_adds fun _ => .pure _
  | pop2 =>
    refine .bind .get fun f => ?_
    split
    · exact .bind pop_adds fun _ => .pure _
    · exact .bind pop2_adds fun _ => .pure _
  | arith op k => exact .bind pop2_adds fun r => arith_adds op k r.1 r.2
  | neg k => exact .bind pop_adds fun a => neg_adds k a
  | shift op k => exact .bind pop2_adds fun r => shift_adds op k r.1 r.2
  | logic op k => exact .bind pop2_adds fun r => logic_adds op k r.1 r.2
  | convert c => exact .bind pop_adds fun a => convert_adds c a
  | lcmp =>
    refine .bind pop2_adds fun r => ?_
    obtain ⟨a, b⟩ := r
    dsimp only
    split
    · exact pushConst_adds _
    · exact assign_bare rfl
  | cmp k nanGreater => exact .bind pop2_adds fun _ => assign_bare rfl
  | ifZero cond t | ifNull null t => exact .bind pop_adds fun _ => branch_adds _ List.mem_cons_self
  | ifInt cond t | ifRef equal t => exact .bind pop2_adds fun _ => branch_adds _ List.mem_cons_self
  | goto t => exact .bind (beforeJump_adds _) fun _ => .emit ⟨⟨rfl, fun _ h => h⟩, rfl⟩
  | jsr t | ret index | invokeDynamic index => exact .throw _
  | tableSwitch default low targets =>
    have hswitch := switch_adds (tablePairs low targets) default
    rwa [tablePairs_targets] at hswitch
  | lookupSwitch default pairs => exact switch_adds pairs default
  | returns k =>
    cases k with
    | none => exact .emit ⟨⟨rfl, by simp [Stmt.targets]⟩, rfl⟩
    | some k => exact .bind pop_adds fun _ => .emit ⟨⟨rfl, by simp [Stmt.targets]⟩, rfl⟩
  | newArray k | arrayLength => exact .bind pop_adds fun _ => assign_bare rfl
  | athrow => exact .bind pop_adds fun _ => .emit ⟨⟨rfl, by simp [Stmt.targets]⟩, rfl⟩
  | _ => exact hshuffle

lemma enterLabel_adds (pc : Nat) (reachable marked : Bool) :
    Adds (fun s => s.needs = []) (enterLabel pc reachable marked) := by
  have hlines :
      Adds (fun s => s.needs = []) (do emit (.label pc); if marked then emit (.mark pc)) := by
    refine .bind (.emit rfl) fun _ => ?_
    split
    · exact .emit rfl
    · exact .pure _
  have hflush : Adds (fun s => s.needs = []) flush :=
    flush_adds.mono fun s (h : s.Bare []) => h.needs
  rw [enterLabel]
  split
  · exact .bind hflush fun _ => .bind (record_adds pc) fun _ => hlines
  · exact .bind .get fun _ => .bind (.modify fun _ => rfl) fun _ => hlines

end Lower

end ClassScript
