import ClassScript.Method.Function
import ClassScript.Proofs.Triples

/-!
Which faults are not about branches.

That a branch leads to no instruction is found before any code is generated. Lowering an instruction
may fail in many ways, but not in this one.
-/

namespace ClassScript

/-- The fault is not that a branch leads to no instruction. -/
def Fault.OnTarget (fault : Fault) : Prop := ∀ pc, fault ≠ .defect (.branchOutsideCode pc)

def GenerationError.OnTarget (e : GenerationError) : Prop :=
  ∀ fault, e.cause = .fault fault → fault.OnTarget

/-! ### Lowering -/

namespace Lower

variable {α β : Type} {x : Lower α}

def OnTarget (x : Lower α) : Prop :=
  ∀ ⦃f : Frame⦄ ⦃fault : Fault⦄, x f = .error fault → fault.OnTarget

namespace OnTarget

lemma pure (a : α) : OnTarget (pure a : Lower α) := by
  intro f fault h
  cases h

lemma throw {fault : Fault} (hfault : fault.OnTarget) : OnTarget (throw fault : Lower α) := by
  intro f fault' h
  cases h
  exact hfault

lemma throw_bind {fault : Fault} (hfault : fault.OnTarget) (k : α → Lower β) :
    OnTarget (MonadExcept.throw fault >>= k) := by
  intro f fault' h
  cases h
  exact hfault

lemma bind {k : α → Lower β} (hx : OnTarget x) (hk : ∀ a, OnTarget (k a)) : OnTarget (x >>= k) := by
  intro f fault h
  change (x f).bind (fun r => k r.1 r.2) = _ at h
  cases hf : x f with
  | error fault' =>
    rw [hf] at h
    cases h
    exact hx hf
  | ok r =>
    rw [hf] at h
    exact hk r.1 h

lemma get : OnTarget (get : Lower Frame) := by
  intro f fault h
  cases h

lemma modify (g : Frame → Frame) : OnTarget (modify g) := by
  intro f fault h
  cases h

lemma forM {k : α → Lower PUnit} {l : List α} (h : ∀ a, OnTarget (k a)) : OnTarget (l.forM k) := by
  induction l with
  | nil => exact pure _
  | cons a l ih => exact bind (h a) fun _ => ih

lemma mapM {k : α → Lower β} {l : List α} (h : ∀ a, OnTarget (k a)) : OnTarget (l.mapM k) := by
  induction l with
  | nil => exact pure _
  | cons a l ih =>
    rw [List.mapM_cons]
    exact bind (h a) fun _ => bind ih fun _ => pure _

end OnTarget

lemma pop_onTarget : OnTarget pop := by
  refine .bind .get fun f => ?_
  split
  · exact .throw nofun
  · exact .bind (.modify _) fun _ => .pure _

lemma peek_onTarget : OnTarget peek := by
  refine .bind .get fun f => ?_
  split
  · exact .throw nofun
  · exact .pure _

lemma pop2_onTarget : OnTarget pop2 :=
  .bind pop_onTarget fun _ => .bind pop_onTarget fun _ => .pure _

lemma pop3_onTarget : OnTarget pop3 :=
  .bind pop_onTarget fun _ => .bind pop2_onTarget fun _ => .pure _

lemma popMany_onTarget (n : Nat) : OnTarget (popMany n) := by
  induction n with
  | zero => exact .pure _
  | succ n ih => exact .bind pop_onTarget fun _ => .bind ih fun _ => .pure _

lemma pushSlot_onTarget (k : Kind) : OnTarget (pushSlot k) :=
  .bind .get fun _ => .bind (.modify _) fun _ => .pure _

lemma assign_onTarget (k : Kind) (e : Expr) : OnTarget (assign k e) :=
  .bind (pushSlot_onTarget k) fun _ => .modify _

lemma slot_onTarget (k : Kind) (index : UInt16) : OnTarget (slot k index) :=
  .bind (.modify _) fun _ => .pure _

lemma beforeJump_onTarget (targets : List Nat) : OnTarget (beforeJump targets) :=
  .bind (.modify _) fun _ => .forM fun _ => .modify _

lemma branch_onTarget (c : Comparison) (target : Nat) : OnTarget (branch c target) :=
  .bind (beforeJump_onTarget _) fun _ => .modify _

lemma arith_onTarget (op : ArithOp) (k : Kind) (a b : Atom) : OnTarget (arith op k a b) := by
  cases k with
  | int | long =>
    rw [arith]
    split
    · exact .modify _
    · exact assign_onTarget _ _
  | float | double => exact assign_onTarget _ _
  | ref => exact .throw nofun

lemma neg_onTarget (k : Kind) (a : Atom) : OnTarget (neg k a) := by
  cases k with
  | int | long =>
    rw [neg]
    split
    · exact .modify _
    · exact assign_onTarget _ _
  | float | double => exact assign_onTarget _ _
  | ref => exact .throw nofun

lemma shift_onTarget (op : ShiftOp) (k : Kind) (a b : Atom) : OnTarget (shift op k a b) := by
  cases k with
  | int | long =>
    rw [shift]
    split
    · exact .modify _
    · exact assign_onTarget _ _
  | float | double | ref => exact .throw nofun

lemma logic_onTarget (op : LogicOp) (k : Kind) (a b : Atom) : OnTarget (logic op k a b) := by
  cases k with
  | int | long =>
    rw [logic]
    split
    · exact .modify _
    · exact assign_onTarget _ _
  | float | double | ref => exact .throw nofun

lemma convert_onTarget (c : Conversion) (a : Atom) : OnTarget (convert c a) := by
  rw [convert]
  split
  · exact .modify _
  · exact assign_onTarget _ _

lemma switch_onTarget (pairs : List (Int32 × Nat)) (default : Nat) :
    OnTarget (switch pairs default) :=
  .bind pop_onTarget fun _ => .bind (beforeJump_onTarget _) fun _ => .modify _

lemma move_onTarget (base : Nat) (values : List Entry) (saved : List (Nat × Var)) (i : Nat) :
    OnTarget (Shuffle.move base values saved i) := by
  rw [Shuffle.move]
  split
  · exact .pure _
  · exact .modify _
  · refine .bind (pushSlot_onTarget _) fun _ => ?_
    split
    · exact .modify _
    · exact .pure _

lemma run_onTarget (s : Shuffle) : OnTarget s.run := by
  have hsave (base : Nat) (values : List Entry) : OnTarget (Shuffle.save base values s.pattern) :=
    .mapM fun _ => .bind (.bind .get fun _ => .bind (.modify _) fun _ => .pure _) fun _ =>
      .bind (.modify _) fun _ => .pure _
  refine .bind .get fun f => ?_
  dsimp only
  split
  · refine .throw_bind ?_ _
    exact nofun
  · exact .bind (.modify _) fun _ => .bind (hsave _ _) fun saved => .forM (move_onTarget _ _ saved)

lemma shuffle_onTarget (i : Instruction) : OnTarget (shuffle i) := by
  refine .bind .get fun f => ?_
  split
  · exact run_onTarget _
  · exact .pure _

lemma instruction_onTarget (i : Instruction) : OnTarget (instruction i) := by
  have hshuffle : OnTarget (shuffle i) := shuffle_onTarget i
  -- no step below reports a branch, and what is refused is refused with another fault
  cases i with
  | push v => exact .modify _
  | load k index => exact .bind (slot_onTarget k index) fun _ => assign_onTarget _ _
  | store k index =>
    exact .bind pop_onTarget fun _ => .bind (slot_onTarget k index) fun _ => .modify _
  | iinc index delta => exact .bind (slot_onTarget .int index) fun _ => .modify _
  | arrayLoad k => exact .bind pop2_onTarget fun _ => assign_onTarget _ _
  | arrayStore k => exact .bind pop3_onTarget fun _ => .modify _
  | pop | monitorEnter | monitorExit => exact .bind pop_onTarget fun _ => .pure _
  | pop2 =>
    refine .bind .get fun f => ?_
    split
    · exact .bind pop_onTarget fun _ => .pure _
    · exact .bind pop2_onTarget fun _ => .pure _
  | arith op k => exact .bind pop2_onTarget fun _ => arith_onTarget op k _ _
  | neg k => exact .bind pop_onTarget fun _ => neg_onTarget k _
  | shift op k => exact .bind pop2_onTarget fun _ => shift_onTarget op k _ _
  | logic op k => exact .bind pop2_onTarget fun _ => logic_onTarget op k _ _
  | convert c => exact .bind pop_onTarget fun _ => convert_onTarget c _
  | lcmp =>
    refine .bind pop2_onTarget fun _ => ?_
    dsimp only
    split
    · exact .modify _
    · exact assign_onTarget _ _
  | cmp k nanGreater => exact .bind pop2_onTarget fun _ => assign_onTarget _ _
  | ifZero cond t | ifNull null t => exact .bind pop_onTarget fun _ => branch_onTarget _ t
  | ifInt cond t | ifRef equal t => exact .bind pop2_onTarget fun _ => branch_onTarget _ t
  | goto t => exact .bind (beforeJump_onTarget _) fun _ => .modify _
  | jsr | ret | invokeDynamic => exact .throw nofun
  | tableSwitch default low targets => exact switch_onTarget _ _
  | lookupSwitch default pairs => exact switch_onTarget _ _
  | returns k =>
    cases k with
    | none => exact .modify _
    | some k => exact .bind pop_onTarget fun _ => .modify _
  | newArray k => exact .bind pop_onTarget fun _ => assign_onTarget _ _
  | arrayLength => exact .bind pop_onTarget fun _ => assign_onTarget _ _
  | athrow => exact .bind pop_onTarget fun _ => .modify _
  | _ => exact hshuffle

lemma enterLabel_onTarget (pc : Nat) (reachable marked : Bool) :
    OnTarget (enterLabel pc reachable marked) := by
  have hmark : OnTarget (do emit (.label pc); if marked then emit (.mark pc)) := by
    refine .bind (.modify _) fun _ => ?_
    split
    · exact .modify _
    · exact .pure _
  rw [enterLabel]
  split
  · exact .bind (.modify _) fun _ => .bind (.modify _) fun _ => hmark
  · exact .bind .get fun _ => .bind (.modify _) fun _ => hmark

end Lower

/-! ### Generation -/

namespace Generation

variable {α β : Type} {x : Generation α}

def OnTarget (x : Generation α) : Prop :=
  ∀ s, Ends x s (fun _ _ => True) fun e _ => e.OnTarget

namespace OnTarget

lemma pure (a : α) : OnTarget (pure a : Generation α) := fun _ => .pure trivial

lemma bind {k : α → Generation β} (hx : OnTarget x) (hk : ∀ a, OnTarget (k a)) :
    OnTarget (x >>= k) :=
  fun s => (hx s).bind fun a t _ => hk a t

lemma fail {site : Site} {fault : Fault} (h : fault.OnTarget) :
    OnTarget (fail site (.fault fault) : Generation α) :=
  fun s => .of_error (t := s) rfl fun _ heq => Cause.fault.inj heq ▸ h

lemma liftExcept {ε : Type} {site : Site} {cause : ε → Cause} {r : Except ε α}
    (h : ∀ e, r = .error e → GenerationError.OnTarget ⟨site, cause e⟩) :
    OnTarget (liftExcept site cause r) := by
  intro s
  cases r with
  | ok a => exact .of_ok (t := s) rfl trivial
  | error e => exact .of_error (t := s) rfl (h e rfl)

lemma ask (site : Site) (q : Query α) : OnTarget (ask site q) :=
  fun s => (ask_ends site q s).mono (fun _ _ _ => trivial) fun e _ he => by
    obtain ⟨cause, rfl⟩ := he
    exact nofun

lemma request (q : Request) : OnTarget (request q) := fun _ => .of_ok rfl trivial

lemma mapM {k : α → Generation β} {l : List α} (h : ∀ a, OnTarget (k a)) : OnTarget (l.mapM k) :=
  fun _ => (Ends.mapM (I := fun _ => True) (fun a _ t _ => h a t) trivial).mono
    (fun _ _ h => h) fun _ _ h => h

end OnTarget

end Generation

namespace Emission

variable {α β : Type} {x : Emission α}

def OnTarget (x : Emission α) : Prop := ∀ f, Generation.OnTarget (x f)

namespace OnTarget

lemma pure (a : α) : OnTarget (pure a : Emission α) := fun _ => .pure _

lemma bind {k : α → Emission β} (hx : OnTarget x) (hk : ∀ a, OnTarget (k a)) : OnTarget (x >>= k) :=
  fun f => (hx f).bind fun r => hk r.1 r.2

lemma lift {y : Generation α} (h : y.OnTarget) : OnTarget (liftM y : Emission α) :=
  fun _ => .bind h fun _ => .pure _

lemma lower {y : Lower α} (h : y.OnTarget) (site : Site) : OnTarget (lower site y) :=
  fun f => .liftExcept fun fault hfault fault' heq => by
    cases heq
    exact h hfault

end OnTarget

end Emission

namespace Generator

open Lower hiding OnTarget instruction_onTarget
open Emission (OnTarget)

lemma classAt_onTarget (site : Site) (p : ConstantPool) (i : UInt16) :
    (classAt site p i).OnTarget :=
  .liftExcept fun _ _ => nofun

lemma memberAt_onTarget (site : Site) (p : ConstantPool) (i : UInt16) :
    (memberAt site p i).OnTarget :=
  .liftExcept fun _ _ => nofun

lemma fieldAt_onTarget (g : Generator) (site : Site) (p : ConstantPool) (i : UInt16) :
    (g.fieldAt site p i).OnTarget := by
  refine .bind (memberAt_onTarget site p i) fun ref => ?_
  split
  · exact .fail nofun
  · exact .bind (.ask _ _) fun _ => .pure _

lemma staticFieldAt_onTarget (g : Generator) (site : Site) (p : ConstantPool) (i : UInt16) :
    (g.staticFieldAt site p i).OnTarget :=
  .bind (g.fieldAt_onTarget site p i) fun _ => .bind (.request _) fun _ =>
    .bind (.request _) fun _ => .pure _

lemma ldc_onTarget (site : Site) (p : ConstantPool) (i : UInt16) : OnTarget (ldc site p i) := by
  refine .bind (.lift (.liftExcept fun _ _ => nofun)) fun l => ?_
  cases l with
  | int v | float v | long v | double v | string v => exact .lower (.modify _) site
  | classRef name =>
    dsimp only
    split
    · exact .lower (assign_onTarget _ _) site
    · exact .bind (.lift (.request _)) fun _ => .lower (assign_onTarget _ _) site

lemma callOf_onTarget (g : Generator) (site : Site) (kind : InvokeKind) (r : MemberRef)
    (args : List Atom) :
    OnTarget (g.callOf site kind r args) := by
  cases kind with
  | static => exact .bind (.lift (.request _)) fun _ => .bind (.lift (.ask _ _)) fun _ => .pure _
  | special =>
    exact .bind (.lower pop_onTarget site) fun _ => .bind (.lift (.request _)) fun _ =>
      .bind (.lift (.ask _ _)) fun _ => .pure _
  | virtual | interface =>
    refine .bind (.lower pop_onTarget site) fun _ => .bind (.lift (.ask _ _)) fun dispatch => ?_
    cases dispatch with
    | direct => exact .bind (.lift (.ask _ _)) fun _ => .pure _
    | invoker => exact .bind (.lift (.request _)) fun _ => .pure _

lemma invoke_onTarget (g : Generator) (site : Site) (p : ConstantPool) (kind : InvokeKind)
    (i : UInt16) :
    OnTarget (g.invoke site p kind i) := by
  refine .bind (.lift (memberAt_onTarget site p i)) fun r => ?_
  split
  · exact .lift (.fail nofun)
  · refine .bind (.lower (popMany_onTarget _) site) fun args =>
      .bind (g.callOf_onTarget site kind r args) fun e => ?_
    split
    · exact .lower (assign_onTarget _ _) site
    · exact .lower (.modify _) site

/-- **Code for an instruction does not fail for a branch.** -/
lemma instruction_onTarget (g : Generator) (site : Site) (p : ConstantPool) (i : Instruction) :
    OnTarget (g.instruction site p i) := by
  have hlower : OnTarget (Emission.lower site (Lower.instruction i)) :=
    .lower (Lower.instruction_onTarget i) site
  have hassign {k : Kind} {e : Expr} : OnTarget (Emission.lower site (assign k e)) :=
    .lower (assign_onTarget _ _) site
  have hpop : OnTarget (Emission.lower site pop) := .lower pop_onTarget site
  -- only what asks about other classes is more than a lowering
  cases i with
  | ldc index => exact ldc_onTarget site p index
  | getStatic index => exact .bind (.lift (g.staticFieldAt_onTarget site p index)) fun _ => hassign
  | putStatic index =>
    exact .bind (.lift (g.staticFieldAt_onTarget site p index)) fun _ => .bind hpop fun _ =>
      .lower (.modify _) site
  | getField index =>
    exact .bind hpop fun _ => .bind (.lift (g.fieldAt_onTarget site p index)) fun _ => hassign
  | putField index =>
    exact .bind (.lower pop2_onTarget site) fun _ =>
      .bind (.lift (g.fieldAt_onTarget site p index)) fun _ =>
      .lower (.modify _) site
  | invoke kind index => exact g.invoke_onTarget site p kind index
  | new index =>
    exact .bind (.lift (classAt_onTarget site p index)) fun _ =>
      .bind (.lift (.request _)) fun _ => hassign
  | newRefArray index =>
    exact .bind (.lift (classAt_onTarget site p index)) fun _ => .bind hpop fun _ => hassign
  | newMultiArray index dimensions =>
    exact .bind (.lift (classAt_onTarget site p index)) fun _ =>
      .bind (.lower (popMany_onTarget _) site) fun _ => hassign
  | checkCast index =>
    refine .bind (.lift (classAt_onTarget site p index)) fun name => ?_
    split
    · exact .bind (.lower peek_onTarget site) fun _ => .lower (.modify _) site
    · exact .pure _
  | instanceOf index =>
    exact .bind (.lift (classAt_onTarget site p index)) fun _ => .bind hpop fun _ => hassign
  | _ => exact hlower

lemma block_onTarget (g : Generator) (site : Nat → Site) (p : ConstantPool) (labels : List Nat)
    (marked : Bool) (code : List Located) (reachable : Bool) (last : Option Nat) :
    OnTarget (g.block site p labels marked code reachable last) := by
  induction code generalizing reachable last with
  | nil => exact .pure _
  | cons l code ih =>
    rw [block]
    dsimp only
    split
    · have hinstruction (last : Option Nat) :
          OnTarget (do
            g.instruction (site l.address) p l.instruction
            g.block site p labels marked code (!l.instruction.endsFlow) last) :=
        .bind (g.instruction_onTarget _ p _) fun _ => ih _ _
      split
      · exact .bind (.lower (enterLabel_onTarget _ _ _) _) fun _ => hinstruction _
      · exact hinstruction _
    · exact ih _ _

lemma catchClause_onTarget (site : Site) (p : ConstantPool) (h : Handler) :
    (catchClause site p h).OnTarget := by
  rw [catchClause]
  split
  · exact .pure _
  · exact .bind (classAt_onTarget site p _) fun _ => .bind (.request _) fun _ => .pure _

lemma scriptFunction_onTarget (m : MethodDecl) (site : Site) (a : Annotation) :
    (scriptFunction m site a).OnTarget := by
  have hargs : (scriptArgs site a).OnTarget := by
    rw [scriptArgs]
    split
    · exact .pure _
    · split
      · exact .pure _
      · exact .fail nofun
  refine .bind hargs fun args => ?_
  dsimp only
  split
  · exact .fail nofun
  · refine .bind (.liftExcept fun _ _ => nofun) fun signature => ?_
    split
    · exact .bind (.fail nofun) fun _ => .pure _
    · exact .pure _

lemma bindParams_error {i : Nat} {slot : UInt16} {ts : List ValueType} {d : Defect}
    (h : Function.bindParams i slot ts = .error d) : d = .voidParameter := by
  induction ts generalizing i slot d with
  | nil => cases h
  | cons t ts ih =>
    rw [Function.bindParams] at h
    split at h
    · cases h
      rfl
    · cases hrest : Function.bindParams (i + 1) (slot + t.slots) ts with
      | error d' =>
        rw [hrest] at h
        cases h
        exact ih hrest
      | ok bound =>
        rw [hrest] at h
        cases h

lemma bindings_error {isStatic : Bool} {params : List ValueType} {d : Defect}
    (h : Function.bindings isStatic params = .error d) : d = .voidParameter := by
  rw [Function.bindings] at h
  split at h
  · exact bindParams_error h
  · cases hrest : Function.bindParams 0 1 params with
    | error d' =>
      rw [hrest] at h
      cases h
      exact bindParams_error hrest
    | ok bound =>
      rw [hrest] at h
      cases h

variable {g : Generator} {c : ClassDecl} {m : MethodDecl}

/-- A body fails for a branch only if its labels do. -/
lemma body_onTarget (hlabels : ∀ code, Instruction.decode m.bytecode = .ok code →
    ∀ pc, Labels.of code m.handlers m.bytecode.length ≠ .error (.branchOutsideCode pc)) :
      (g.body c m).OnTarget := by
  intro s
  rw [body]
  cases hcode : Instruction.decode m.bytecode with
  | error e => exact .bind_of_error (t := s) (e := ⟨_, .decode e⟩) rfl nofun
  | ok code =>
    refine .bind_of_ok (Generation.liftExcept_ok rfl _ _ s)
      (Generation.OnTarget.bind ?_ (fun labels => ?_) s)
    · refine .liftExcept fun d hd => ?_
      rintro _ ⟨⟩ pc ⟨⟩
      exact hlabels code hcode pc hd
    · refine .bind (g.block_onTarget _ _ labels _ code _ _ _) fun r => ?_
      dsimp only
      split
      · exact .pure _
      · exact .bind (.mapM fun h => catchClause_onTarget _ _ h) fun _ => .pure _

lemma function_onTarget (hbody : (g.body c m).OnTarget) : (g.function c m).OnTarget := by
  rw [function]
  split
  · exact scriptFunction_onTarget m _ _
  · split
    · exact .pure _
    · refine .bind (.liftExcept fun _ _ => nofun) fun signature =>
        .bind (.liftExcept fun d hd => ?_) fun bound =>
        .bind hbody fun _ => .pure _
      rintro _ ⟨⟩
      rw [bindings_error hd]
      exact nofun

end Generator

end ClassScript
