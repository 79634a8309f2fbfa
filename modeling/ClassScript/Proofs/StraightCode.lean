import ClassScript.Proofs.Operations
import ClassScript.Proofs.Triples

/-!
Straight code keeps its meaning.

A frame and a store together are an operand stack: a position in its variable has the value
of that variable, a pending constant its own; a local slot is the variable of its kind and
number. Running the statements that are generated for straight code on the store is running
the code on that stack and those slots. Where the machine throws, for a division by zero, the
statements up to that division run, and the next one calls the support code, which throws.
-/

namespace ClassScript

open Datum (ofValue)

/-! ### A frame and a store as a state of the machine -/

def Entry.read (σ : Store) (depth : Nat) : Entry → Option Machine.Value
  | slot k => (σ (Var.operand k depth).name).read k
  | const l => some l.value

/-- The operand stack that a list of positions stands for, top first. -/
def Store.operands (σ : Store) : List Entry → Option (List Machine.Value)
  | [] => some []
  | e :: rest => do return (← e.read σ rest.length) :: (← σ.operands rest)

/-- The frame and the store stand for a state of the machine. -/
structure Frame.Reads (f : Frame) (σ : Store) (m : Machine.State) : Prop where
  operands : σ.operands f.stack = some m.stack
  locals : ∀ (i : UInt16) (v : Machine.Value), m.locals i.toNat = some v →
    (σ (Var.slot v.kind i).name).read v.kind = some v

/-- The pool's int or long at an index, as a literal. -/
def ConstantPool.integer? (p : ConstantPool) (index : UInt16) : Option Literal :=
  match p.loadable index with
  | .ok (.int v) => some (.int v)
  | .ok (.long v) => some (.long v)
  | _ => none

def Instruction.isStraight (p : ConstantPool) : Instruction → Bool
  | push _ | load .. | store .. | iinc .. | pop | pop2 | lcmp => true
  | ldc index => (p.integer? index).isSome
  | arith _ k | neg k | shift _ k | logic _ k => k = .int || k = .long
  | convert c => c ∈ [.i2l, .l2i, .i2b, .i2c, .i2s]
  | _ => false

/-! ### Positions -/

lemma Entry.read_eq_some {σ : Store} {n : Nat} {e : Entry} {v : Machine.Value} :
    e.read σ n = some v ↔ e.kind = v.kind ∧ (e.atom n).Denotes σ v := by
  cases e with
  | slot k =>
    rw [read, Datum.read_eq_some]
    exact ⟨fun h => ⟨h.1.symm, h.2⟩, fun h => ⟨h.1.symm, h.2⟩⟩
  | const l =>
    rw [read, Option.some.injEq]
    refine ⟨fun h => ⟨?_, h⟩, fun h => h.2⟩
    rw [← h]
    cases l <;> rfl

lemma Store.operands_cons {σ : Store} {e : Entry} {rest : List Entry} {vs : List Machine.Value} :
    σ.operands (e :: rest) = some vs ↔
      ∃ v ws, e.read σ rest.length = some v ∧ σ.operands rest = some ws ∧ vs = v :: ws := by
  simp only [operands, Option.pure_def, Option.bind_eq_bind, Option.bind_eq_some_iff,
    Option.some.injEq]
  constructor
  · rintro ⟨v, hv, ws, hws, rfl⟩; exact ⟨v, ws, hv, hws, rfl⟩
  · rintro ⟨v, ws, hv, hws, rfl⟩; exact ⟨v, hv, ws, hws, rfl⟩

/-- The positions on a stack of the machine. -/
lemma Store.exists_of_operands {σ : Store} {stack : List Entry} {v : Machine.Value}
    {vs : List Machine.Value} (h : σ.operands stack = some (v :: vs)) :
    ∃ e rest, stack = e :: rest ∧ e.kind = v.kind ∧ (e.atom rest.length).Denotes σ v ∧
      σ.operands rest = some vs := by
  cases stack with
  | nil => cases h
  | cons e rest =>
    obtain ⟨w, ws, hw, hws, heq⟩ := operands_cons.mp h
    cases heq
    obtain ⟨hkind, hden⟩ := Entry.read_eq_some.mp hw
    exact ⟨e, rest, rfl, hkind, hden, hws⟩

/-- Writing a variable that no position uses changes no operand. -/
lemma Store.operands_set {σ : Store} {x : Var} {d : Datum} {stack : List Entry}
    (h : ∀ k n, n < stack.length → x ≠ .operand k n) :
    (σ.set x d).operands stack = σ.operands stack := by
  induction stack with
  | nil => rfl
  | cons e rest ih =>
    have hread : e.read (σ.set x d) rest.length = e.read σ rest.length := by
      cases e with
      | slot k => rw [Entry.read, Entry.read, Store.set_of_ne _ _ (h k rest.length (by simp)).symm]
      | const l => rfl
    rw [operands, operands, hread, ih fun k n hn => h k n (by simp; omega)]

/-! ### One instruction -/

lemma Frame.Reads.drop {f : Frame} {σ : Store} {m : Machine.State} (h : f.Reads σ m)
    {v : Machine.Value} {vs : List Machine.Value} (hm : m.stack = v :: vs) :
    ∃ e rest, f.stack = e :: rest ∧ e.kind = v.kind ∧ (e.atom rest.length).Denotes σ v ∧
      ({ f with stack := rest } : Frame).Reads σ { m with stack := vs } := by
  obtain ⟨e, rest, hstack, hkind, hden, hrest⟩ := Store.exists_of_operands (hm ▸ h.operands)
  exact ⟨e, rest, hstack, hkind, hden, hrest, h.locals⟩

/-- Statements that take a frame and a store to others that stand for a state. -/
def Frame.Runs (f f' : Frame) (σ : Store) (m : Machine.State) : Prop :=
  ∃ lines σ', f'.out = f.out ++ lines.toArray ∧ σ.exec lines = .ok σ' ∧ f'.Reads σ' m

namespace Lower

variable {f : Frame} {σ : Store}

/-- A value that is pushed. -/
lemma Yields.runs {v : Machine.Value} {x : Lower Unit} (hx : Yields σ v x) {rest : List Entry}
    {m : Machine.State} (hr : ({ f with stack := rest } : Frame).Reads σ m) :
    ∃ f', x { f with stack := rest } = .ok ((), f') ∧
      f.Runs f' σ { m with stack := v :: m.stack } := by
  cases hx with
  | const l hl =>
    refine ⟨_, rfl, [], σ, by simp, rfl, ?_, hr.locals⟩
    exact Store.operands_cons.mpr ⟨v, m.stack, by rw [Entry.read, hl], hr.operands, rfl⟩
  | computed e he =>
    refine ⟨_, rfl, [.assign (.operand v.kind rest.length) e],
      σ.set (.operand v.kind rest.length) (ofValue v), by simp, Store.exec_assign he, ?_, ?_⟩
    · refine Store.operands_cons.mpr ⟨v, m.stack, ?_, ?_, rfl⟩
      · rw [Entry.read, Store.set_self, Datum.read_ofValue]
      · rw [Store.operands_set fun k n (hn : n < rest.length) => by simp; omega]
        exact hr.operands
    · intro i w hw
      rw [Store.set_of_ne _ _ (by simp)]
      exact hr.locals i w hw

/-- Writing a local slot. -/
lemma write_runs {rest : List Entry} {m : Machine.State}
    (hr : ({ f with stack := rest } : Frame).Reads σ m) {e : Expr} {v : Machine.Value}
    (he : e.eval σ = .ok (ofValue v)) (i : UInt16) :
    f.Runs { f with
      stack := rest
      used := .slot v.kind i :: f.used
      out := f.out.push (.assign (.slot v.kind i) e) } σ
      ⟨m.stack, Machine.setLocal m.locals i.toNat v⟩ := by
  refine ⟨[.assign (.slot v.kind i) e], σ.set (.slot v.kind i) (ofValue v), by simp,
    Store.exec_assign he, ?_, ?_⟩
  · rw [Store.operands_set fun k n hn => by simp]
    exact hr.operands
  · intro j w hw
    simp only [Machine.setLocal] at hw
    split_ifs at hw with hj
    · cases hw
      rw [UInt16.toNat_inj.mp hj, Store.set_self, Datum.read_ofValue]
    · rw [Store.set_of_ne _ _ fun heq => hj (congrArg UInt16.toNat (Var.slot.inj heq).2)]
      exact hr.locals j w hw

/-- An operation on the top value. -/
lemma unary_runs {m : Machine.State} (hr : f.Reads σ m) {v r : Machine.Value}
    {vs : List Machine.Value} (hm : m.stack = v :: vs) {x : Atom → Lower Unit}
    (hx : ∀ a, a.Denotes σ v → Yields σ r (x a)) :
    ∃ f', (pop >>= x) f = .ok ((), f') ∧ f.Runs f' σ { m with stack := r :: vs } := by
  obtain ⟨e, rest, hstack, -, hden, hrest⟩ := hr.drop hm
  rw [bind_ok (pop_cons hstack)]
  exact (hx _ hden).runs hrest

/-- An operation on the two top values. -/
lemma binary_runs {m : Machine.State} (hr : f.Reads σ m) {v w r : Machine.Value}
    {vs : List Machine.Value} (hm : m.stack = w :: v :: vs) {x : Atom × Atom → Lower Unit}
    (hx : ∀ a b, a.Denotes σ v → b.Denotes σ w → Yields σ r (x (a, b))) :
    ∃ f', (pop2 >>= x) f = .ok ((), f') ∧ f.Runs f' σ { m with stack := r :: vs } := by
  obtain ⟨e, rest, hstack, -, hw, hrest⟩ := hr.drop hm
  obtain ⟨d, rest, rfl, -, hv, hrest⟩ := hrest.drop rfl
  rw [bind_ok (pop2_cons hstack)]
  exact (hx _ _ hv hw).runs hrest

/-- **One instruction**: where the machine goes on, so do the statements. -/
lemma instruction_runs {p : ConstantPool} {i : Instruction} {m m' : Machine.State}
    (hi : i.usesPool = false) (hr : f.Reads σ m) (h : Machine.step p i m = some (.completes m')) :
    ∃ f', instruction i f = .ok ((), f') ∧ f.Runs f' σ m' := by
  cases i with
  | ldc => cases hi
  | push v =>
    cases h
    exact (Yields.const (immediate v) (by cases v <;> rfl)).runs hr
  | load k index =>
    obtain ⟨v, hv, rfl, ho⟩ := Machine.State.load_cases h
    cases ho
    have hvar := (Datum.read_eq_some.mp (hr.locals index v hv)).2
    have hyields : Yields σ v (assign v.kind (.atom (.var (.slot v.kind index)))) :=
      .computed _ (congrArg Except.ok hvar)
    exact hyields.runs (f := { f with used := .slot v.kind index :: f.used })
      ⟨hr.operands, hr.locals⟩
  | iinc index delta =>
    obtain ⟨v, hv, ho⟩ := Machine.State.increment_cases h
    cases ho
    have hvar : (Atom.var (.slot .int index)).Denotes σ (.int v) :=
      (Datum.read_eq_some.mp (hr.locals index (.int v) hv)).2
    have hdelta : (Atom.lit (.int delta.toInt32)).Denotes σ (.int delta.toInt32) := rfl
    have hsum := eval_add_wrap hvar hdelta
    rw [Int16.toInt_toInt32] at hsum
    exact ⟨_, rfl, write_runs hr hsum index⟩
  | store k index =>
    obtain ⟨v, vs, hm, rfl, ho⟩ := Machine.State.store_cases h
    cases ho
    obtain ⟨e, rest, hstack, hkind, hden, hrest⟩ := hr.drop hm
    have hvalue : (Expr.atom (e.atom rest.length)).eval σ = .ok (ofValue v) :=
      congrArg Except.ok hden.eval_eq
    exact exists_of_bind (pop_cons hstack) ⟨_, rfl, write_runs hrest hvalue index⟩
  | pop =>
    obtain ⟨v, vs, hm, ho⟩ := Machine.State.pop_cases h
    cases ho
    obtain ⟨e, rest, hstack, hkind, hden, hrest⟩ := hr.drop hm
    exact exists_of_bind (pop_cons hstack) ⟨_, rfl, [], σ, by simp, rfl, hrest⟩
  | pop2 =>
    rcases Machine.State.pop2_cases h with ⟨v, vs, hm, hwide, ho⟩ | ⟨v, w, vs, hm, hwide, ho⟩ <;>
      cases ho
    · obtain ⟨e, rest, hstack, hkind, hden, hrest⟩ := hr.drop hm
      exact ⟨_, instruction_pop2_wide hstack (hkind ▸ hwide), [], σ, by simp, rfl, hrest⟩
    · obtain ⟨e, rest, hstack, hkind, hden, hrest⟩ := hr.drop hm
      obtain ⟨d, rest, rfl, -, -, hrest⟩ := hrest.drop rfl
      exact ⟨_, instruction_pop2_narrow hstack (hkind ▸ hwide), [], σ, by simp, rfl, hrest⟩
  | arith op k =>
    obtain ⟨v, w, vs, hm, ⟨r, hv, ho⟩ | ⟨-, ho⟩⟩ := Machine.State.binary_cases h <;> cases ho
    exact binary_runs hr hm fun a b ha hb => arith_yields ha hb hv
  | neg k =>
    obtain ⟨v, vs, r, hm, hv, ho⟩ := Machine.State.unary_cases h
    cases ho
    exact unary_runs hr hm fun a ha => neg_yields ha hv
  | shift op k =>
    obtain ⟨v, w, vs, r, hm, hv, ho⟩ := Machine.State.binary_value_cases h
    cases ho
    exact binary_runs hr hm fun a b ha hb => shift_yields ha hb hv
  | logic op k =>
    obtain ⟨v, w, vs, r, hm, hv, ho⟩ := Machine.State.binary_value_cases h
    cases ho
    exact binary_runs hr hm fun a b ha hb => logic_yields ha hb hv
  | lcmp =>
    obtain ⟨v, w, vs, r, hm, hv, ho⟩ := Machine.State.binary_value_cases h
    cases ho
    exact binary_runs hr hm fun a b ha hb => compareLongs_yields ha hb hv
  | convert c =>
    obtain ⟨v, vs, r, hm, hv, ho⟩ := Machine.State.unary_cases h
    cases ho
    exact unary_runs hr hm fun a ha => convert_yields ha hv
  | _ => cases h

/-- **A division by zero**: the next statement calls the support code with the divisor zero,
and the call throws. -/
lemma instruction_throws {p : ConstantPool} {i : Instruction} {m : Machine.State}
    (hr : f.Reads σ m) (h : Machine.step p i m = some .throws) :
    ∃ op k v a b f', i = .arith op k ∧ (op = .div ∨ op = .rem) ∧ instruction i f = .ok ((), f') ∧
      f'.out = f.out.push (.assign v (.helper (calculator op k) [a, b])) ∧
      (b.eval σ = ofValue (.int 0) ∨ b.eval σ = ofValue (.long 0)) ∧
      (Expr.helper (calculator op k) [a, b]).eval σ = .error .divisionByZero := by
  obtain ⟨op, k, rfl⟩ := Machine.arith_of_step_throws h
  obtain ⟨v, w, vs, hm, ⟨r, -, ho⟩ | ⟨hv, -⟩⟩ := Machine.State.binary_cases h
  · cases ho
  · obtain ⟨e, rest, hstack, -, hw, hrest⟩ := hr.drop hm
    obtain ⟨d, rest, rfl, -, hu, hrest⟩ := hrest.drop rfl
    obtain ⟨hcode, hop, hzero, hthrow⟩ := arith_throws hu hw hv
    have hrun : instruction (.arith op k) f = arith op k _ _ { f with stack := rest } :=
      bind_ok (pop2_cons hstack)
    refine ⟨op, k, .operand k rest.length, _, _, _, rfl, hop,
      hrun.trans ((congrFun hcode _).trans (assign_run _ _)), rfl, ?_, hthrow⟩
    rw [hw.eval_eq]
    exact hzero.imp (congrArg ofValue) (congrArg ofValue)

end Lower

/-! ### Straight code -/

namespace Generator

variable (g : Generator) (site : Nat → Site) (p : ConstantPool)

def instructions (code : List Located) : Emission Unit :=
  code.forM fun l => g.instruction (site l.address) p l.instruction

variable {g site p} {f f' : Frame} {s : Session} {σ : Store}

lemma instruction_eq_lower {w : Site} {i : Instruction} (h : i.usesPool = false) :
    g.instruction w p i = Emission.lower w (Lower.instruction i) := by
  cases i with
  | ldc | getStatic | putStatic | getField | putField | invoke | new | newRefArray
  | newMultiArray | checkCast | instanceOf => cases h
  | _ => rfl

/-- An int or a long of the pool is pushed as a constant. -/
lemma instruction_ldc {w : Site} {index : UInt16} {l : Literal} (h : p.integer? index = some l) :
    g.instruction w p (.ldc index) f s =
      (.ok ((), { f with stack := .const l :: f.stack }), s) := by
  change ldc w p index f s = _
  rw [ldc]
  unfold ConstantPool.integer? at h
  split at h <;> cases h <;> rename_i v hv
  · rw [Emission.bind_ok (a := .int v) (t := s) (by rw [hv]; rfl)]
    rfl
  · rw [Emission.bind_ok (a := .long v) (t := s) (by rw [hv]; rfl)]
    rfl

lemma straight_cases {i : Instruction} (h : i.isStraight p = true) :
    i.usesPool = false ∨ ∃ index l, i = .ldc index ∧ p.integer? index = some l := by
  cases i with
  | ldc index =>
    obtain ⟨l, hl⟩ := Option.isSome_iff_exists.mp h
    exact .inr ⟨index, l, rfl, hl⟩
  | getStatic | putStatic | getField | putField | invoke | new | newRefArray
  | newMultiArray | checkCast | instanceOf => cases h
  | _ => exact .inl rfl

lemma instructions_cons {l : Located} {code : List Located} {s' : Session}
    (h : g.instruction (site l.address) p l.instruction f s = (.ok ((), f'), s')) :
    g.instructions site p (l :: code) f s = g.instructions site p code f' s' :=
  Emission.bind_ok h

/-- Typed straight code is translated, and asks for nothing. -/
lemma straight_advances {w : Site} {i : Instruction} {ks : List Kind} (hs : i.isStraight p = true)
    (h : Typing.effect p i f.kinds = some ks) :
    ∃ f', g.instruction w p i f s = (.ok ((), f'), s) ∧ f'.kinds = ks ∧
      ∃ lines : List Stmt, f'.out = f.out ++ lines.toArray := by
  rcases straight_cases hs with hi | ⟨index, l, rfl, hl⟩
  · obtain ⟨f', hrun, hadv⟩ := Lower.instruction_advances hi h
    exact ⟨f', (congrFun (congrFun (instruction_eq_lower hi) f) s).trans (Emission.lower_ok hrun),
      hadv.kinds, hadv.lines⟩
  · refine ⟨_, instruction_ldc hl, ?_, [], by simp⟩
    unfold ConstantPool.integer? at hl
    split at hl <;> cases hl <;> rename_i v hv
    all_goals
      rw [Typing.effect_ldc, hv] at h
      cases h
      rfl

/-- Where the machine goes on, so do the statements. -/
lemma straight_runs {w : Site} {i : Instruction} {m m' : Machine.State} (hs : i.isStraight p = true)
    (hr : f.Reads σ m) (h : Machine.step p i m = some (.completes m')) :
    ∃ f', g.instruction w p i f s = (.ok ((), f'), s) ∧ f.Runs f' σ m' := by
  rcases straight_cases hs with hi | ⟨index, l, rfl, hl⟩
  · obtain ⟨f', hrun, hruns⟩ := Lower.instruction_runs hi hr h
    exact ⟨f', (congrFun (congrFun (instruction_eq_lower hi) f) s).trans
      (Emission.lower_ok hrun), hruns⟩
  · have hstep : Machine.step p (.ldc index) m =
        some (.completes { m with stack := l.value :: m.stack }) := by
      unfold ConstantPool.integer? at hl
      split at hl <;> cases hl <;> rename_i v hv <;> rw [Machine.step_ldc, hv] <;> rfl
    cases hstep.symm.trans h
    obtain ⟨f', hf', hruns⟩ := (Lower.Yields.const l rfl).runs hr
    cases hf'
    exact ⟨_, instruction_ldc hl, hruns⟩

/-- Typed straight code is translated to its end. -/
lemma instructions_typed {code : List Located} {ks : List Kind}
    (hs : ∀ l ∈ code, l.instruction.isStraight p = true)
    (h : Typing.straight p (code.map Located.instruction) f.kinds = some ks) :
    ∃ f', g.instructions site p code f s = (.ok ((), f'), s) ∧ f'.kinds = ks ∧
      ∃ lines : List Stmt, f'.out = f.out ++ lines.toArray := by
  induction code generalizing f with
  | nil =>
    cases h
    exact ⟨f, rfl, rfl, [], by simp⟩
  | cons l code ih =>
    simp only [List.map_cons, Typing.straight, List.foldlM_cons, Option.bind_eq_bind,
      Option.bind_eq_some_iff] at h
    obtain ⟨ks₁, hl, h⟩ := h
    obtain ⟨f₁, hf₁, rfl, lines, hout⟩ :=
      straight_advances (g := g) (s := s) (w := site l.address) (hs l (by simp)) hl
    obtain ⟨f', hf', hkinds, lines', hout'⟩ := ih (fun l' hl' => hs l' (by simp [hl'])) h
    refine ⟨f', by rw [instructions_cons hf₁, hf'], hkinds, lines ++ lines', ?_⟩
    rw [hout', hout]
    simp

/-- **Straight code** on a run that completes. -/
lemma instructions_runs {code : List Located} {m m' : Machine.State}
    (hs : ∀ l ∈ code, l.instruction.isStraight p = true) (hr : f.Reads σ m)
    (h : Machine.run p (code.map Located.instruction) m = some (.completes m')) :
    ∃ f', g.instructions site p code f s = (.ok ((), f'), s) ∧ f.Runs f' σ m' := by
  induction code generalizing f σ m with
  | nil =>
    cases h
    exact ⟨f, rfl, [], σ, by simp, rfl, hr⟩
  | cons l code ih =>
    simp only [List.map_cons, Machine.run] at h
    split at h
    · rename_i m₁ hstep
      obtain ⟨f₁, hf₁, lines, σ₁, hout, hexec, hr₁⟩ :=
        straight_runs (g := g) (s := s) (w := site l.address) (hs l (by simp)) hr hstep
      obtain ⟨f', hf', lines', σ', hout', hexec', hr'⟩ :=
        ih (fun l' hl' => hs l' (by simp [hl'])) hr₁ h
      refine ⟨f', by rw [instructions_cons hf₁, hf'], lines ++ lines', σ', ?_, ?_, hr'⟩
      · rw [hout', hout]; simp
      · rw [Store.exec_append, hexec]; exact hexec'
    · rename_i o hne
      exact absurd h (hne m')

/-- Where the machine stops at a division by zero: the code before it has run, and the next
statement calls the support code with the divisor zero. -/
structure Division (g : Generator) (site : Nat → Site) (p : ConstantPool) (f : Frame) (s : Session)
    (σ : Store) (m : Machine.State) (code : List Located) (lines : List Stmt) where
  pre : List Located
  post : List Located
  pc : Nat
  op : ArithOp
  kind : Kind
  before : List Stmt
  after : List Stmt
  dest : Var
  dividend : Atom
  divisor : Atom
  frame : Frame
  state : Machine.State
  store : Store
  code_eq : code = pre ++ ⟨pc, .arith op kind⟩ :: post
  divides : op = .div ∨ op = .rem
  run_pre : Machine.run p (pre.map Located.instruction) m = some (.completes state)
  instructions_pre : g.instructions site p pre f s = (.ok ((), frame), s)
  out_pre : frame.out = f.out ++ before.toArray
  exec_before : σ.exec before = .ok store
  reads : frame.Reads store state
  lines_eq :
    lines = before ++ .assign dest (.helper (Lower.calculator op kind) [dividend, divisor]) :: after
  zero : divisor.eval store = ofValue (.int 0) ∨ divisor.eval store = ofValue (.long 0)
  throws : (Expr.helper (Lower.calculator op kind) [dividend, divisor]).eval store =
    .error .divisionByZero

/-- **Straight code** on a run that throws. -/
lemma instructions_throws {code : List Located} {m : Machine.State} {ks : List Kind}
    (hs : ∀ l ∈ code, l.instruction.isStraight p = true)
    (ht : Typing.straight p (code.map Located.instruction) f.kinds = some ks) (hr : f.Reads σ m)
    (h : Machine.run p (code.map Located.instruction) m = some .throws) :
    ∃ f' lines, g.instructions site p code f s = (.ok ((), f'), s) ∧
      f'.out = f.out ++ lines.toArray ∧ Nonempty (g.Division site p f s σ m code lines) := by
  induction code generalizing f σ m with
  | nil => cases h
  | cons l code ih =>
    have hs' : ∀ l' ∈ code, l'.instruction.isStraight p = true :=
      fun l' hl' => hs l' (by simp [hl'])
    simp only [List.map_cons, Typing.straight, List.foldlM_cons, Option.bind_eq_bind,
      Option.bind_eq_some_iff] at ht
    obtain ⟨ks₁, hl, ht⟩ := ht
    obtain ⟨f₁, hf₁, rfl, -⟩ :=
      straight_advances (g := g) (s := s) (w := site l.address) (hs l (by simp)) hl
    simp only [List.map_cons, Machine.run] at h
    -- either this instruction completes and a later one throws, or it throws itself
    split at h
    · rename_i m₁ hstep
      obtain ⟨f₁', hf₁', lines, σ₁, hout, hexec, hr₁⟩ :=
        straight_runs (g := g) (s := s) (w := site l.address) (hs l (by simp)) hr hstep
      cases hf₁.symm.trans hf₁'
      obtain ⟨f', lines', hf', hout', ⟨d⟩⟩ := ih hs' ht hr₁ h
      refine ⟨f', lines ++ lines', by rw [instructions_cons hf₁, hf'], by rw [hout', hout]; simp, ⟨{
        d with
        pre := l :: d.pre
        before := lines ++ d.before
        code_eq := congrArg (l :: ·) d.code_eq
        run_pre := ?_
        instructions_pre := by rw [instructions_cons hf₁, d.instructions_pre]
        out_pre := by rw [d.out_pre, hout]; simp
        exec_before := by rw [Store.exec_append, hexec]; exact d.exec_before
        lines_eq := (congrArg (lines ++ ·) d.lines_eq).trans (List.append_assoc ..).symm }⟩⟩
      simp only [List.map_cons, Machine.run, hstep]
      exact d.run_pre
    · obtain ⟨op, k, v, a, b, f₁', hi, hop, hf₁', hout, hzero, hthrow⟩ :=
        Lower.instruction_throws hr h
      obtain rfl : f₁ = f₁' := by
        have hlower := Emission.lower_ok (w := site l.address) (s := s) hf₁'
        rw [← instruction_eq_lower (g := g) (p := p) (by rw [hi]; rfl), hf₁] at hlower
        cases hlower
        rfl
      obtain ⟨f', hf', -, lines, hout'⟩ := instructions_typed (g := g) (s := s) hs' ht
      refine ⟨f', .assign v (.helper (Lower.calculator op k) [a, b]) :: lines,
        by rw [instructions_cons hf₁, hf'], by rw [hout', hout]; simp, ⟨{
        pre := []
        post := code
        pc := l.address
        op := op
        kind := k
        before := []
        after := lines
        dest := v
        dividend := a
        divisor := b
        frame := f
        state := m
        store := σ
        code_eq := by rw [← hi]; rfl
        divides := hop
        run_pre := rfl
        instructions_pre := rfl
        out_pre := by simp
        exec_before := rfl
        reads := hr
        lines_eq := rfl
        zero := hzero
        throws := hthrow }⟩⟩

end Generator

def quotientCode : List Located :=
  [⟨0, .push (.int 6)⟩, ⟨2, .push (.int 1)⟩, ⟨3, .arith .add .int⟩, ⟨4, .load .int 0⟩,
    ⟨5, .arith .div .int⟩, ⟨6, .convert .i2l⟩, ⟨7, .store .long 1⟩]

def slotZero (n : Int32) : Machine.State := ⟨[], fun i => if i = 0 then some (.int n) else none⟩

lemma reads_slotZero (n : Int32) :
    Frame.Reads {} (Store.set (fun _ => .undefined) (.slot .int 0) (.number n.toInt))
      (slotZero n) := by
  refine ⟨rfl, fun i v h => ?_⟩
  simp only [slotZero] at h
  split_ifs at h with hi
  cases h
  rw [show i = 0 from UInt16.toNat_inj.mp hi]
  exact (congrArg (Datum.read .int) (Store.set_self _ _ _)).trans (Datum.read_ofValue (.int n))

end ClassScript
