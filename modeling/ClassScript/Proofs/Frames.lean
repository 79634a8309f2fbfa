import ClassScript.Method.Resolve
import ClassScript.Proofs.Typing
import Mathlib.Tactic.Linarith

/-!
How code generation changes the frame.

Each step is described by an equation. Together they say that an instruction takes the kinds
on the stack of the frame to the kinds that the machine has after it; that a jump finds
every value in its variable and tells its targets so; and that nothing that has gone out is
taken back.
-/

namespace ClassScript

namespace Frame

def kinds (f : Frame) : List Kind := f.stack.map Entry.kind

def Settled (f : Frame) : Prop := f.stack = f.kinds.map Entry.slot

/-- The layouts with that of one more label, unless it is known. -/
def recorded (layout : List Kind) (t : Table Nat (List Kind)) (pc : Nat) : Table Nat (List Kind) :=
  if t.contains pc then t else t.insert pc layout

lemma layout_eq (f : Frame) : f.layout = f.kinds.reverse := rfl

lemma exists_stack_cons {f : Frame} {k : Kind} {ks : List Kind} (h : f.kinds = k :: ks) :
    ∃ e rest, f.stack = e :: rest ∧ e.kind = k ∧ rest.map Entry.kind = ks := by
  obtain ⟨e, rest, hstack, hkind, hrest⟩ := List.map_eq_cons_iff.mp h
  exact ⟨e, rest, hstack, hkind, hrest⟩

end Frame

namespace Lower

variable {α β : Type} {f f' : Frame} {e d c : Entry} {rest : List Entry}

/-! ### Steps -/

lemma bind_ok {x : Lower α} {g : α → Lower β} {a : α} (h : x f = .ok (a, f')) :
    (x >>= g) f = g a f' := by
  change (x f).bind _ = _
  rw [h]
  rfl

lemma get_run : (get : Lower Frame) f = .ok (f, f) := rfl

lemma pop_cons (h : f.stack = e :: rest) :
    pop f = .ok (e.atom rest.length, { f with stack := rest }) := by
  obtain ⟨stack, used, temps, layouts, out⟩ := f
  cases h
  rfl

lemma pop2_cons (h : f.stack = e :: d :: rest) :
    pop2 f = .ok ((d.atom rest.length, e.atom (rest.length + 1)), { f with stack := rest }) := by
  rw [pop2, bind_ok (pop_cons h), bind_ok (pop_cons rfl)]
  rfl

lemma pop3_cons (h : f.stack = e :: d :: c :: rest) :
    pop3 f = .ok ((c.atom rest.length, d.atom (rest.length + 1), e.atom (rest.length + 2)),
      { f with stack := rest }) := by
  rw [pop3, bind_ok (pop_cons h), bind_ok (pop2_cons rfl)]
  rfl

lemma peek_cons (h : f.stack = e :: rest) : peek f = .ok (e.atom rest.length, f) := by
  obtain ⟨stack, used, temps, layouts, out⟩ := f
  cases h
  rfl

lemma popMany_append {es rest : List Entry} (h : f.stack = es ++ rest) :
    ∃ args, popMany es.length f = .ok (args, { f with stack := rest }) := by
  induction es generalizing f with
  | nil => exact ⟨[], by rw [← show f.stack = rest from h]; rfl⟩
  | cons e es ih =>
    obtain ⟨args, hargs⟩ := ih (f := { f with stack := es ++ rest }) rfl
    refine ⟨args ++ [e.atom (es ++ rest).length], ?_⟩
    have hpop : pop f = .ok (e.atom (es ++ rest).length, { f with stack := es ++ rest }) :=
      pop_cons h
    rw [List.length_cons, popMany, bind_ok hpop, bind_ok hargs]
    rfl

lemma assign_run (k : Kind) (e : Expr) :
    assign k e f = .ok ((), { f with
      stack := .slot k :: f.stack
      used := .operand k f.stack.length :: f.used
      out := f.out.push (.assign (.operand k f.stack.length) e) }) := rfl

lemma record_run (t : Nat) :
    record t f = .ok ((), { f with layouts := Frame.recorded f.layout f.layouts t }) := by
  change Except.ok ((), (if f.layouts.contains t then f else _ : Frame)) = _
  rw [Frame.recorded]
  split_ifs <;> rfl

lemma forM_record (targets : List Nat) :
    targets.forM record f = .ok ((), { f with
      layouts := targets.foldl (Frame.recorded f.layout) f.layouts }) := by
  induction targets generalizing f with
  | nil => rfl
  | cons t targets ih =>
    change (record t >>= fun _ => targets.forM record) f = _
    rw [bind_ok (record_run t), ih]
    rfl

/-- A step that runs, and what follows it. -/
lemma exists_of_bind {x : Lower α} {g : α → Lower Unit} {a : α} {q : Frame → Prop}
    (h : x f = .ok (a, f')) (hg : ∃ f'', g a f' = .ok ((), f'') ∧ q f'') :
    ∃ f'', (x >>= g) f = .ok ((), f'') ∧ q f'' := by
  rwa [bind_ok h]

/-- The assignments that put the pending constants of a stack into their variables. -/
def writes (stack : List Entry) : List Stmt :=
  (pending stack).map fun (v, l) => Stmt.assign v (.atom (.lit l))

def flushed (f : Frame) : Frame :=
  { f with
    stack := f.stack.map fun e => .slot e.kind
    used := (pending f.stack).map Prod.fst ++ f.used
    out := f.out ++ (writes f.stack).toArray }

lemma flush_run : flush f = .ok ((), flushed f) := rfl

@[simp] lemma flushed_kinds (f : Frame) : (flushed f).kinds = f.kinds := by
  simp [flushed, Frame.kinds, Entry.kind, Function.comp_def]

lemma beforeJump_run (targets : List Nat) :
    beforeJump targets f = .ok ((), { flushed f with
      layouts := targets.foldl (Frame.recorded f.layout) f.layouts }) := by
  rw [beforeJump, bind_ok flush_run, forM_record, Frame.layout_eq, Frame.layout_eq, flushed_kinds]
  rfl

end Lower

/-- The way a jump leaves a frame: what it does not take is in its variables, and the jump
itself goes out last. -/
def Frame.Leaves (f f' : Frame) : Prop :=
  ∃ taken rest jump, f.stack = taken ++ rest ∧ f'.stack = rest.map (fun e => .slot e.kind) ∧
    f'.out = f.out ++ (Lower.writes rest ++ [jump]).toArray

lemma Frame.Leaves.settled {f f' : Frame} (h : f.Leaves f') : f'.Settled := by
  obtain ⟨taken, rest, jump, -, hstack, -⟩ := h
  simp [Settled, kinds, hstack, Entry.kind, Function.comp_def]

/-- What generation does to a frame for an instruction: the kinds on the stack are the new
ones, and the targets of a jump are told of them. -/
structure Frame.Advances (f f' : Frame) (ks : List Kind) (targets : List Nat) : Prop where
  kinds : f'.kinds = ks
  layouts : f'.layouts = targets.foldl (Frame.recorded ks.reverse) f.layouts
  leaves : targets ≠ [] → f.Leaves f'
  lines : ∃ lines : List Stmt, f'.out = f.out ++ lines.toArray

namespace Lower

variable {f f' : Frame} {ks : List Kind}

/-- The usual case: no jump. -/
lemma advances_of_layouts (hks : f'.kinds = ks) (hlay : f'.layouts = f.layouts)
    (hout : ∃ lines : List Stmt, f'.out = f.out ++ lines.toArray) : f.Advances f' ks [] :=
  ⟨hks, hlay, fun h => absurd rfl h, hout⟩

/-- A value that a statement computes. -/
lemma assign_advances {rest : List Entry} (k : Kind) (e : Expr)
    (hks : k :: rest.map Entry.kind = ks) :
    ∃ f', assign k e { f with stack := rest } = .ok ((), f') ∧ f.Advances f' ks [] :=
  ⟨_, rfl, advances_of_layouts hks rfl ⟨[.assign (.operand k rest.length) e], by simp⟩⟩

lemma pushConst_advances {rest : List Entry} (l : Literal)
    (hks : l.kind :: rest.map Entry.kind = ks) :
    ∃ f', pushConst l { f with stack := rest } = .ok ((), f') ∧ f.Advances f' ks [] :=
  ⟨_, rfl, advances_of_layouts hks rfl ⟨[], by simp⟩⟩

lemma emit_advances (rest : List Entry) (s : Stmt) (hks : rest.map Entry.kind = ks) :
    ∃ f', emit s { f with stack := rest } = .ok ((), f') ∧ f.Advances f' ks [] :=
  ⟨_, rfl, advances_of_layouts hks rfl ⟨[s], by simp⟩⟩

/-- A jump: the stack is written out, then the targets are told. -/
lemma jump_advances (taken : List Entry) {rest : List Entry} (hf : f.stack = taken ++ rest)
    (s : Stmt) (targets : List Nat) (hks : rest.map Entry.kind = ks) :
    ∃ f', (beforeJump targets >>= fun _ => emit s) { f with stack := rest } = .ok ((), f') ∧
      f.Advances f' ks targets := by
  have hlayout : ({ f with stack := rest } : Frame).layout = ks.reverse := by rw [← hks]; rfl
  refine ⟨_, bind_ok (beforeJump_run targets), ?_, ?_, fun _ => ?_, ?_⟩
  · exact (flushed_kinds _).trans hks
  · rw [← hlayout]
  · exact ⟨taken, rest, s, hf, rfl, by simp [flushed]⟩
  · exact ⟨writes rest ++ [s], by simp [flushed]⟩

end Lower

/-! ### Shuffles -/

structure Move where
  dest : Var
  source : Var
  deriving DecidableEq, Repr

def Move.stmt (m : Move) : Stmt := .assign m.dest (.atom (.var m.source))

/-- The entries are pushed, and the moves go out. -/
structure Frame.Emits (f f' : Frame) (es : List Entry) (ms : List Move) : Prop where
  stack : f'.stack = es ++ f.stack
  layouts : f'.layouts = f.layouts
  out : f'.out = f.out ++ (ms.map Move.stmt).toArray

namespace Shuffle

open Lower (bind_ok get_run)

variable {base : Nat} {values : List Entry} {pattern : List Nat}

/-- The values that are copied aside, by their numbers, and where they are. -/
def moved (base : Nat) (values : List Entry) (pattern : List Nat) : List (Nat × Var) :=
  (List.range values.length).filterMap fun i =>
    match source? base values i with
    | some v =>
      if (overwritten base values pattern).contains v && pattern.contains i
        then some (i, v) else none
    | none => none

/-- The copies, to temporary variables from number `n` on. -/
def copies (n : Nat) : List (Nat × Var) → List Move
  | [] => []
  | m :: ms => ⟨.temp n, m.2⟩ :: copies (n + 1) ms

def saved (n : Nat) : List (Nat × Var) → List (Nat × Var)
  | [] => []
  | m :: ms => (m.1, .temp n) :: saved (n + 1) ms

lemma save_eq (base : Nat) (values : List Entry) (pattern : List Nat) :
    save base values pattern = (moved base values pattern).mapM fun m => do
      let t ← Lower.temp
      Lower.emit (.assign t (.atom (.var m.2)))
      return (m.1, t) := rfl

/-- Copies aside change no position. -/
lemma save_emits (base : Nat) (values : List Entry) (pattern : List Nat) (f : Frame) :
    ∃ f', save base values pattern f = .ok (saved f.temps (moved base values pattern), f') ∧
      f.Emits f' [] (copies f.temps (moved base values pattern)) := by
  rw [save_eq]
  generalize moved base values pattern = ms
  induction ms generalizing f with
  | nil => exact ⟨f, rfl, rfl, rfl, by simp [copies]⟩
  | cons m ms ih =>
    obtain ⟨f', hrest, hstack, hlayouts, hout⟩ := ih { f with
      temps := f.temps + 1
      used := .temp f.temps :: f.used
      out := f.out.push (.assign (.temp f.temps) (.atom (.var m.2))) }
    refine ⟨f', ?_, hstack, hlayouts, ?_⟩
    · rw [List.mapM_cons, bind_ok (a := (m.1, Var.temp f.temps)) rfl, bind_ok hrest]
      rfl
    · rw [hout]
      simp [copies, Move.stmt]

/-- The move of value number `i` to the new position `j`, unless it is there. -/
def step? (base : Nat) (values : List Entry) (saved : List (Nat × Var)) (x : Nat × Nat) :
    Option Move :=
  match values[x.1]? with
  | some (.slot k) =>
    let m : Move := ⟨.operand k (base + x.2), (saved.lookup x.1).getD (.operand k (base + x.1))⟩
    if m.dest ≠ m.source then some m else none
  | _ => none

lemma move_emits (saved : List (Nat × Var)) {i offset : Nat} {e : Entry} (h : values[i]? = some e)
    {f : Frame} (hf : f.stack.length = base + offset) :
    ∃ f', move base values saved i f = .ok ((), f') ∧
      f.Emits f' [e] (step? base values saved (i, offset)).toList := by
  rw [move, step?, h]
  cases e with
  | const l => exact ⟨_, rfl, rfl, rfl, by simp⟩
  | slot k =>
    dsimp only
    rw [bind_ok (x := Lower.pushSlot k) rfl, hf]
    split_ifs
    · exact ⟨_, rfl, rfl, rfl, by simp [Move.stmt]⟩
    · exact ⟨_, rfl, rfl, rfl, by simp⟩

def pick {α : Type} (pattern : List Nat) (values : List α) : List α :=
  pattern.filterMap (values[·]?)

lemma forM_move_emits {saved : List (Nat × Var)} {targets : List Nat}
    (h : ∀ i ∈ targets, i < values.length) {offset : Nat} {f : Frame}
    (hf : f.stack.length = base + offset) :
    ∃ f', targets.forM (move base values saved) f = .ok ((), f') ∧
      f.Emits f' (pick targets values).reverse
        ((targets.zipIdx offset).filterMap (step? base values saved)) := by
  induction targets generalizing offset f with
  | nil => exact ⟨f, rfl, rfl, rfl, by simp⟩
  | cons i targets ih =>
    obtain ⟨hi, h⟩ := List.forall_mem_cons.mp h
    have hvalue : values[i]? = some values[i] := List.getElem?_eq_getElem hi
    obtain ⟨f₁, hmove, hstack, hlayouts, hout⟩ := move_emits saved hvalue hf
    have hlength : f₁.stack.length = base + (offset + 1) := by
      rw [hstack, List.length_append, hf, List.length_singleton]
      omega
    obtain ⟨f₂, hrest, hstack', hlayouts', hout'⟩ := ih h hlength
    refine ⟨f₂, ?_, ?_, hlayouts'.trans hlayouts, ?_⟩
    · change (move base values saved i >>= fun _ => targets.forM (move base values saved)) f = _
      rw [bind_ok hmove, hrest]
    · rw [hstack', hstack, pick, pick, List.filterMap_cons, hvalue]
      simp
    · rw [hout', hout, List.zipIdx_cons, List.filterMap_cons]
      cases step? base values saved (i, offset) <;> simp

/-- All copies and moves of a pattern, with temporary variables from number `n` on. -/
def plan (n base : Nat) (values : List Entry) (pattern : List Nat) : List Move :=
  copies n (moved base values pattern) ++
    pattern.zipIdx.filterMap (step? base values (saved n (moved base values pattern)))

def planOf (s : Shuffle) (f : Frame) : List Move :=
  plan f.temps (f.stack.length - s.take) (f.stack.take s.take).reverse s.pattern

/-- A shuffle of a list of values, the first being the topmost. -/
def apply {α : Type} (s : Shuffle) (vs : List α) : List α :=
  (pick s.pattern (vs.take s.take).reverse).reverse ++ vs.drop s.take

lemma run_underflow {s : Shuffle} {f : Frame} (h : f.stack.length < s.take) :
    s.run f = .error .underflow := by
  rw [run, bind_ok get_run]
  dsimp only
  rw [if_pos h]
  rfl

/-- A shuffle takes its values off and pushes its pattern of them. -/
lemma run_emits {s : Shuffle} (hs : ∀ i ∈ s.pattern, i < s.take) {f : Frame}
    (h : s.take ≤ f.stack.length) :
    ∃ f', s.run f = .ok ((), f') ∧ f'.stack = s.apply f.stack ∧ f'.layouts = f.layouts ∧
      f'.out = f.out ++ ((s.planOf f).map Move.stmt).toArray := by
  obtain ⟨f₁, hsave, hstack, hlayouts, hout⟩ :=
    save_emits (f.stack.length - s.take) (f.stack.take s.take).reverse s.pattern
      { f with stack := f.stack.drop s.take }
  have hlength : f₁.stack.length = f.stack.length - s.take + 0 := by
    rw [hstack]
    simp
  have hrange : ∀ i ∈ s.pattern, i < (f.stack.take s.take).reverse.length := by
    intro i hi
    rw [List.length_reverse, List.length_take_of_le h]
    exact hs i hi
  obtain ⟨f₂, hmoves, hstack', hlayouts', hout'⟩ := forM_move_emits hrange hlength
  refine ⟨f₂, ?_, ?_, hlayouts'.trans hlayouts, ?_⟩
  · rw [run, bind_ok get_run]
    dsimp only
    rw [if_neg (Nat.not_lt.mpr h)]
    change (save (f.stack.length - s.take) (f.stack.take s.take).reverse s.pattern >>= fun saved =>
      s.pattern.forM (move (f.stack.length - s.take) (f.stack.take s.take).reverse saved))
        { f with stack := f.stack.drop s.take } = _
    rw [bind_ok hsave, hmoves]
  · rw [hstack', hstack]
    rfl
  · rw [hout', hout, planOf, plan, List.map_append]
    simp

def pushed (values : List Entry) (pattern : List Nat) : List Kind :=
  (pattern.filterMap fun i => values[i]?.map Entry.kind).reverse

lemma run_advances (s : Shuffle) (hs : ∀ i ∈ s.pattern, i < s.take) {f : Frame}
    {es rest : List Entry} (hf : f.stack = es ++ rest) (hes : es.length = s.take) :
    ∃ f', s.run f = .ok ((), f') ∧
      f.Advances f' (pushed es.reverse s.pattern ++ rest.map Entry.kind) [] := by
  have hle : s.take ≤ f.stack.length := by
    rw [hf, List.length_append, hes]
    exact Nat.le_add_right _ _
  obtain ⟨f', hrun, hstack, hlayouts, hout⟩ := run_emits hs hle
  refine ⟨f', hrun, Lower.advances_of_layouts ?_ hlayouts ⟨_, hout⟩⟩
  rw [Frame.kinds, hstack, hf, apply, List.take_left' hes, List.drop_left' hes, List.map_append,
    List.map_reverse, pick, List.map_filterMap]
  rfl

end Shuffle

/-! ### Instructions -/

def Instruction.usesPool : Instruction → Bool
  | ldc _ | getStatic _ | putStatic _ | getField _ | putField _ | invoke .. | new _
  | newRefArray _ | newMultiArray .. | checkCast _ | instanceOf _ => true
  | _ => false

namespace Lower

open Typing

variable {f : Frame} {ks : List Kind}

lemma take_one {k : Kind} {r : List Kind} (h : f.kinds = [k] ++ r) :
    ∃ e rest, f.stack = e :: rest ∧ rest.map Entry.kind = r := by
  obtain ⟨e, rest, hstack, -, hrest⟩ := Frame.exists_stack_cons h
  exact ⟨e, rest, hstack, hrest⟩

lemma take_two {k l : Kind} {r : List Kind} (h : f.kinds = [k, l] ++ r) :
    ∃ e d rest, f.stack = e :: d :: rest ∧ rest.map Entry.kind = r := by
  obtain ⟨e, rest, hstack, -, hrest⟩ := Frame.exists_stack_cons h
  obtain ⟨d, rest, rfl, -, hrest⟩ := List.map_eq_cons_iff.mp hrest
  exact ⟨e, d, rest, hstack, hrest⟩

lemma take_three {k l m : Kind} {r : List Kind} (h : f.kinds = [k, l, m] ++ r) :
    ∃ e d c rest, f.stack = e :: d :: c :: rest ∧ rest.map Entry.kind = r := by
  obtain ⟨e, d, rest, hstack, hrest⟩ := take_two (r := m :: r) h
  obtain ⟨c, rest, rfl, -, hrest⟩ := List.map_eq_cons_iff.mp hrest
  exact ⟨e, d, c, rest, hstack, hrest⟩

inductive Pushes (k : Kind) : Lower Unit → Prop
  | const (l : Literal) : l.kind = k → Pushes k (pushConst l)
  | computed (e : Expr) : Pushes k (assign k e)

lemma Pushes.advances {k : Kind} {x : Lower Unit} (h : Pushes k x) {rest : List Entry}
    (hks : k :: rest.map Entry.kind = ks) :
    ∃ f', x { f with stack := rest } = .ok ((), f') ∧ f.Advances f' ks [] := by
  cases h with
  | const l hl => exact pushConst_advances l (by rw [hl, hks])
  | computed e => exact assign_advances k e hks

lemma arith_pushes (op : ArithOp) {k : Kind} (a b : Atom) (hk : k ≠ .ref) :
    Pushes k (arith op k a b) := by
  cases k <;> simp only [arith]
  · split
    · exact .const _ rfl
    · exact .computed _
  · split
    · exact .const _ rfl
    · exact .computed _
  · exact .computed _
  · exact .computed _
  · exact absurd rfl hk

lemma neg_pushes {k : Kind} (a : Atom) (hk : k ≠ .ref) : Pushes k (neg k a) := by
  cases k <;> simp only [neg]
  · split
    · exact .const _ rfl
    · exact .computed _
  · split
    · exact .const _ rfl
    · exact .computed _
  · exact .computed _
  · exact .computed _
  · exact absurd rfl hk

lemma shift_pushes (op : ShiftOp) {k : Kind} (a b : Atom) (hk : k = .int ∨ k = .long) :
    Pushes k (shift op k a b) := by
  rcases hk with rfl | rfl <;> simp only [shift] <;> split
  · exact .const _ rfl
  · exact .computed _
  · exact .const _ rfl
  · exact .computed _

lemma logic_pushes (op : LogicOp) {k : Kind} (a b : Atom) (hk : k = .int ∨ k = .long) :
    Pushes k (logic op k a b) := by
  rcases hk with rfl | rfl <;> simp only [logic] <;> split
  · exact .const _ rfl
  · exact .computed _
  · exact .const _ rfl
  · exact .computed _

/-- A converted constant is of the kind that the conversion gives. -/
lemma kind_of_convertConst {c : Conversion} {a : Atom} {v : Arith.Converted}
    (h : convertConst? c a = some v) : (converted v).kind = c.target := by
  cases c <;> simp only [convertConst?, Conversion.source, Option.bind_eq_some_iff] at h <;>
    obtain ⟨x, -, hx⟩ := h <;> cases hx <;> rfl

lemma convert_pushes (c : Conversion) (a : Atom) : Pushes c.target (convert c a) := by
  rw [convert]
  split
  · rename_i v hv
    exact .const _ (kind_of_convertConst hv)
  · exact .computed _

def compareLongs (a b : Atom) : Lower Unit :=
  match both a.long? b.long? with
  | some (x, y) => pushConst (.int (Arith.compare64 x y))
  | none => assign .int (.helper .compare64 [a, b])

lemma compareLongs_pushes (a b : Atom) : Pushes .int (compareLongs a b) := by
  rw [compareLongs]
  split
  · exact .const _ rfl
  · exact .computed _

lemma tablePairs_targets (low : Int32) (targets : List Nat) :
    (tablePairs low targets).map Prod.snd = targets := by
  simp [tablePairs, List.map_map, Function.comp_def]

lemma switch_advances (pairs : List (Int32 × Nat)) (default : Nat) {r : List Kind}
    (h : f.kinds = [.int] ++ r) :
    ∃ f', switch pairs default f = .ok ((), f') ∧
      f.Advances f' r (pairs.map Prod.snd ++ [default]) := by
  obtain ⟨e, rest, hstack, hrest⟩ := take_one h
  rw [switch, bind_ok (pop_cons hstack)]
  exact jump_advances [e] hstack _ _ hrest

lemma branch_advances (taken : List Entry) {rest : List Entry} (hf : f.stack = taken ++ rest)
    (c : Comparison) (t : Nat) (hks : rest.map Entry.kind = ks) :
    ∃ f', branch c t { f with stack := rest } = .ok ((), f') ∧ f.Advances f' ks [t] :=
  jump_advances taken hf _ _ hks

lemma instruction_shuffle {i : Instruction} {s : Shuffle} (h : Shuffle.of? f.isWide i = some s) :
    instruction i f = s.run f := by
  have hrun : shuffle i f = s.run f := by
    rw [shuffle, bind_ok get_run]
    simp only [h]
  cases i with
  | dup | dupX1 | dupX2 | dup2 | dup2X1 | dup2X2 | swap => exact hrun
  | _ => cases h

/-- A shuffle that does to the kinds of a stack what an instruction does. -/
def Shuffles (stack : List Entry) (ks : List Kind) (s : Shuffle) : Prop :=
  ∃ es rest, stack = es ++ rest ∧ es.length = s.take ∧ (∀ j ∈ s.pattern, j < s.take) ∧
    ks = Shuffle.pushed es.reverse s.pattern ++ rest.map Entry.kind

section Shuffles

variable {a b c d : Entry} {rest : List Entry}

lemma shuffles_one : Shuffles (a :: rest) (a.kind :: a.kind :: rest.map Entry.kind) ⟨1, [0, 0]⟩ :=
  ⟨[a], rest, rfl, rfl, by simp, rfl⟩

lemma shuffles_two :
    Shuffles (a :: b :: rest) (a.kind :: b.kind :: a.kind :: rest.map Entry.kind) ⟨2, [1, 0, 1]⟩ :=
  ⟨[a, b], rest, rfl, rfl, by simp, rfl⟩

lemma shuffles_three : Shuffles (a :: b :: c :: rest)
    (a.kind :: b.kind :: c.kind :: a.kind :: rest.map Entry.kind) ⟨3, [2, 0, 1, 2]⟩ :=
  ⟨[a, b, c], rest, rfl, rfl, by simp, rfl⟩

lemma shuffles_pair : Shuffles (a :: b :: rest)
    (a.kind :: b.kind :: a.kind :: b.kind :: rest.map Entry.kind) ⟨2, [0, 1, 0, 1]⟩ :=
  ⟨[a, b], rest, rfl, rfl, by simp, rfl⟩

lemma shuffles_pair_one : Shuffles (a :: b :: c :: rest)
    (a.kind :: b.kind :: c.kind :: a.kind :: b.kind :: rest.map Entry.kind) ⟨3, [1, 2, 0, 1, 2]⟩ :=
  ⟨[a, b, c], rest, rfl, rfl, by simp, rfl⟩

lemma shuffles_pair_pair : Shuffles (a :: b :: c :: d :: rest)
    (a.kind :: b.kind :: c.kind :: d.kind :: a.kind :: b.kind :: rest.map Entry.kind)
    ⟨4, [2, 3, 0, 1, 2, 3]⟩ :=
  ⟨[a, b, c, d], rest, rfl, rfl, by simp, rfl⟩

lemma shuffles_swap :
    Shuffles (a :: b :: rest) (b.kind :: a.kind :: rest.map Entry.kind) ⟨2, [1, 0]⟩ :=
  ⟨[a, b], rest, rfl, rfl, by simp, rfl⟩

end Shuffles

/-- The shuffle that is chosen for an instruction does what the instruction does. -/
lemma shuffle_of {i : Instruction} (h : Typing.shuffle i f.kinds = some ks) :
    ∃ s, Shuffle.of? f.isWide i = some s ∧ Shuffles f.stack ks s := by
  unfold Frame.kinds at h
  unfold Frame.isWide
  generalize f.stack = stack at h ⊢
  rcases stack with _ | ⟨a, stack⟩
  · cases i <;> simp [Typing.shuffle] at h
  cases i <;> simp only [Typing.shuffle, List.map_cons, reduceCtorEq] at h
  case dup =>
    split_ifs at h
    cases h
    exact ⟨_, rfl, shuffles_one⟩
  case dup2 =>
    split_ifs at h with ha
    · cases h
      exact ⟨_, by simp [Shuffle.of?, ha], shuffles_one⟩
    · rcases stack with _ | ⟨b, rest⟩
      · cases h
      · simp only [List.map_cons] at h
        split_ifs at h
        cases h
        exact ⟨_, by simp [Shuffle.of?, ha], shuffles_pair⟩
  -- the others take two values at least
  all_goals
    rcases stack with _ | ⟨b, stack⟩
    · cases h
    simp only [List.map_cons] at h
  case cons.dupX1.cons =>
    split_ifs at h
    cases h
    exact ⟨_, rfl, shuffles_two⟩
  case cons.swap.cons =>
    split_ifs at h
    cases h
    exact ⟨_, rfl, shuffles_swap⟩
  case cons.dupX2.cons =>
    split_ifs at h with ha hb
    · cases h
      exact ⟨_, by simp [Shuffle.of?, hb], shuffles_two⟩
    · rcases stack with _ | ⟨c, rest⟩
      · cases h
      · simp only [List.map_cons] at h
        split_ifs at h
        cases h
        exact ⟨_, by simp [Shuffle.of?, hb], shuffles_three⟩
  case cons.dup2X1.cons =>
    split_ifs at h with hb ha
    · cases h
      exact ⟨_, by simp [Shuffle.of?, ha], shuffles_two⟩
    · rcases stack with _ | ⟨c, rest⟩
      · cases h
      · simp only [List.map_cons] at h
        split_ifs at h
        cases h
        exact ⟨_, by simp [Shuffle.of?, ha], shuffles_pair_one⟩
  case cons.dup2X2.cons =>
    cases ha : a.kind.isWide <;> cases hb : b.kind.isWide <;> simp only [ha, hb] at h
    · rcases stack with _ | ⟨c, stack⟩
      · cases h
      · simp only [List.map_cons] at h
        split_ifs at h with hc
        · cases h
          exact ⟨_, by simp [Shuffle.of?, ha, hb, hc], shuffles_pair_one⟩
        · rcases stack with _ | ⟨d, rest⟩
          · cases h
          · simp only [List.map_cons] at h
            split_ifs at h
            cases h
            exact ⟨_, by simp [Shuffle.of?, ha, hb, hc], shuffles_pair_pair⟩
    · cases h
    · rcases stack with _ | ⟨c, rest⟩
      · cases h
      · simp only [List.map_cons] at h
        split_ifs at h
        cases h
        exact ⟨_, by simp [Shuffle.of?, ha, hb], shuffles_three⟩
    · cases h
      exact ⟨_, by simp [Shuffle.of?, ha, hb], shuffles_two⟩

lemma instruction_pop2_wide {e : Entry} {rest : List Entry} (h : f.stack = e :: rest)
    (hw : e.kind.isWide = true) : instruction .pop2 f = .ok ((), { f with stack := rest }) := by
  have hwide : f.isWide 0 = true := by simp [Frame.isWide, h, hw]
  change (if f.isWide 0 then _ else _ : Lower Unit) f = _
  rw [if_pos hwide, bind_ok (pop_cons h)]
  rfl

lemma instruction_pop2_narrow {e d : Entry} {rest : List Entry} (h : f.stack = e :: d :: rest)
    (hw : ¬ e.kind.isWide = true) : instruction .pop2 f = .ok ((), { f with stack := rest }) := by
  have hwide : ¬ f.isWide 0 = true := by simpa [Frame.isWide, h] using hw
  change (if f.isWide 0 then _ else _ : Lower Unit) f = _
  rw [if_neg hwide, bind_ok (pop2_cons h)]
  rfl

/-- **The code for an instruction** does to the kinds what the instruction does. -/
theorem instruction_advances {p : ConstantPool} {i : Instruction} (hi : i.usesPool = false)
    (h : effect p i f.kinds = some ks) :
    ∃ f', instruction i f = .ok ((), f') ∧ f.Advances f' ks i.targets := by
  cases i with
  | ldc | getStatic | putStatic | getField | putField | invoke | new | newRefArray
  | newMultiArray | checkCast | instanceOf => cases hi
  | jsr | ret | invokeDynamic => cases h
  | nop =>
    cases h
    exact ⟨f, rfl, advances_of_layouts rfl rfl ⟨[], by simp⟩⟩
  | push v =>
    cases h
    exact pushConst_advances _ (by cases v <;> rfl)
  | load k index =>
    cases h
    have hassign := assign_run (f := { f with used := .slot k index :: f.used }) k
      (.atom (.var (.slot k index)))
    exact ⟨_, hassign, advances_of_layouts rfl rfl ⟨[.assign _ _], by simp; rfl⟩⟩
  | iinc index delta =>
    cases h
    exact ⟨_, rfl, advances_of_layouts rfl rfl ⟨[_], by simp; rfl⟩⟩
  | store k index =>
    obtain ⟨r, hr, rfl⟩ := replace_eq_some.mp h
    obtain ⟨e, rest, hstack, hrest⟩ := take_one hr
    exact exists_of_bind (pop_cons hstack)
      (⟨_, rfl, advances_of_layouts hrest rfl ⟨[_], by simp; rfl⟩⟩)
  | returns k =>
    cases k with
    | none =>
      cases h
      exact emit_advances f.stack _ rfl
    | some k =>
      obtain ⟨r, hr, rfl⟩ := replace_eq_some.mp h
      obtain ⟨e, rest, hstack, hrest⟩ := take_one hr
      exact exists_of_bind (pop_cons hstack) (emit_advances rest _ hrest)
  | arrayLoad k =>
    obtain ⟨r, hr, rfl⟩ := replace_eq_some.mp h
    obtain ⟨e, d, rest, hstack, hrest⟩ := take_two hr
    exact exists_of_bind (pop2_cons hstack) (assign_advances _ _ (by rw [hrest]; rfl))
  | arrayStore k =>
    obtain ⟨r, hr, rfl⟩ := replace_eq_some.mp h
    obtain ⟨e, d, c, rest, hstack, hrest⟩ := take_three hr
    exact exists_of_bind (pop3_cons hstack) (emit_advances rest _ hrest)
  | arith op k =>
    rw [effect] at h
    split_ifs at h with hk
    obtain ⟨r, hr, rfl⟩ := replace_eq_some.mp h
    obtain ⟨e, d, rest, hstack, hrest⟩ := take_two hr
    exact exists_of_bind (pop2_cons hstack) ((arith_pushes op _ _ hk).advances (by rw [hrest]; rfl))
  | neg k =>
    rw [effect] at h
    split_ifs at h with hk
    obtain ⟨r, hr, rfl⟩ := replace_eq_some.mp h
    obtain ⟨e, rest, hstack, hrest⟩ := take_one hr
    exact exists_of_bind (pop_cons hstack) ((neg_pushes _ hk).advances (by rw [hrest]; rfl))
  | shift op k =>
    rw [effect] at h
    split_ifs at h with hk
    obtain ⟨r, hr, rfl⟩ := replace_eq_some.mp h
    obtain ⟨e, d, rest, hstack, hrest⟩ := take_two hr
    exact exists_of_bind (pop2_cons hstack) ((shift_pushes op _ _ hk).advances (by rw [hrest]; rfl))
  | logic op k =>
    rw [effect] at h
    split_ifs at h with hk
    obtain ⟨r, hr, rfl⟩ := replace_eq_some.mp h
    obtain ⟨e, d, rest, hstack, hrest⟩ := take_two hr
    exact exists_of_bind (pop2_cons hstack) ((logic_pushes op _ _ hk).advances (by rw [hrest]; rfl))
  | convert c =>
    obtain ⟨r, hr, rfl⟩ := replace_eq_some.mp h
    obtain ⟨e, rest, hstack, hrest⟩ := take_one hr
    exact exists_of_bind (pop_cons hstack) ((convert_pushes c _).advances (by rw [hrest]; rfl))
  | lcmp =>
    obtain ⟨r, hr, rfl⟩ := replace_eq_some.mp h
    obtain ⟨e, d, rest, hstack, hrest⟩ := take_two hr
    exact exists_of_bind (pop2_cons hstack)
      ((compareLongs_pushes _ _).advances (by rw [hrest]; rfl))
  | cmp k nanGreater =>
    rw [effect] at h
    split_ifs at h with hk
    obtain ⟨r, hr, rfl⟩ := replace_eq_some.mp h
    obtain ⟨e, d, rest, hstack, hrest⟩ := take_two hr
    exact exists_of_bind (pop2_cons hstack) (assign_advances _ _ (by rw [hrest]; rfl))
  | ifZero c t | ifNull b t =>
    obtain ⟨r, hr, rfl⟩ := replace_eq_some.mp h
    obtain ⟨e, rest, hstack, hrest⟩ := take_one hr
    exact exists_of_bind (pop_cons hstack) (branch_advances [e] hstack _ _ hrest)
  | ifInt c t | ifRef b t =>
    obtain ⟨r, hr, rfl⟩ := replace_eq_some.mp h
    obtain ⟨e, d, rest, hstack, hrest⟩ := take_two hr
    exact exists_of_bind (pop2_cons hstack) (branch_advances [e, d] hstack _ _ hrest)
  | goto t =>
    cases h
    exact jump_advances [] rfl _ _ rfl
  | tableSwitch default low targets =>
    obtain ⟨r, hr, rfl⟩ := replace_eq_some.mp h
    have := switch_advances (tablePairs low targets) default hr
    rwa [tablePairs_targets] at this
  | lookupSwitch default pairs =>
    obtain ⟨r, hr, rfl⟩ := replace_eq_some.mp h
    exact switch_advances pairs default hr
  | newArray k =>
    obtain ⟨r, hr, rfl⟩ := replace_eq_some.mp h
    obtain ⟨e, rest, hstack, hrest⟩ := take_one hr
    exact exists_of_bind (pop_cons hstack) (assign_advances _ _ (by rw [hrest]; rfl))
  | arrayLength =>
    obtain ⟨r, hr, rfl⟩ := replace_eq_some.mp h
    obtain ⟨e, rest, hstack, hrest⟩ := take_one hr
    exact exists_of_bind (pop_cons hstack) (assign_advances _ _ (by rw [hrest]; rfl))
  | athrow =>
    obtain ⟨r, hr, rfl⟩ := replace_eq_some.mp h
    obtain ⟨e, rest, hstack, hrest⟩ := take_one hr
    exact exists_of_bind (pop_cons hstack) (emit_advances rest _ hrest)
  | monitorEnter | monitorExit =>
    obtain ⟨r, hr, rfl⟩ := replace_eq_some.mp h
    obtain ⟨e, rest, hstack, hrest⟩ := take_one hr
    exact exists_of_bind (pop_cons hstack) (⟨_, rfl, advances_of_layouts hrest rfl ⟨[], by simp⟩⟩)
  | pop =>
    obtain ⟨k, hr⟩ := effect_pop h
    obtain ⟨e, rest, hstack, hrest⟩ := take_one hr
    exact exists_of_bind (pop_cons hstack) ⟨_, rfl, advances_of_layouts hrest rfl ⟨[], by simp⟩⟩
  | pop2 =>
    obtain ⟨k, hk, hr⟩ | ⟨k, l, hk, hr⟩ := effect_pop2 h
    · obtain ⟨e, rest, hstack, rfl, hrest⟩ := Frame.exists_stack_cons hr
      exact ⟨_, instruction_pop2_wide hstack hk, advances_of_layouts hrest rfl ⟨[], by simp⟩⟩
    · obtain ⟨e, rest, hstack, rfl, hrest⟩ := Frame.exists_stack_cons hr
      obtain ⟨d, rest, rfl, -, hrest⟩ := List.map_eq_cons_iff.mp hrest
      exact ⟨_, instruction_pop2_narrow hstack hk, advances_of_layouts hrest rfl ⟨[], by simp⟩⟩
  | dup | dupX1 | dupX2 | dup2 | dup2X1 | dup2X2 | swap =>
    obtain ⟨s, hs, es, rest, hstack, hlen, hpattern, rfl⟩ := shuffle_of h
    obtain ⟨f', hrun, hadv⟩ := s.run_advances hpattern hstack hlen
    exact ⟨f', (instruction_shuffle hs).trans hrun, hadv⟩

end Lower

end ClassScript
