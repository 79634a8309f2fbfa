import ClassScript.Method.Function
import ClassScript.Proofs.Triples

/-!
Generation that writes nothing.

The function of a method is made by asking about classes and by requesting what the code needs. It
is written only when it is whole, so until then the definition stays as far as it was.
-/

namespace ClassScript

namespace Generation

variable {α β : Type} {x : Generation α}

/-- Generation that only asks, requests and fails. -/
inductive Quiet : {α : Type} → Generation α → Prop
  | pure {α : Type} (a : α) : Quiet (pure a)
  | bind {α β : Type} {x : Generation α} {k : α → Generation β} (hx : Quiet x)
      (hk : ∀ a, Quiet (k a)) :
    Quiet (x >>= k)
  | fail {α : Type} (site : Site) (cause : Cause) : Quiet (fail site cause : Generation α)
  | ask {α : Type} (site : Site) (q : Query α) : Quiet (ask site q)
  | request (r : Request) : Quiet (request r)

namespace Quiet

lemma liftExcept {ε : Type} (site : Site) (cause : ε → Cause) (r : Except ε α) :
    Quiet (liftExcept site cause r) := by
  cases r with
  | ok a => exact .pure a
  | error e => exact .fail site (cause e)

lemma mapM {k : α → Generation β} {l : List α} (h : ∀ a, Quiet (k a)) : Quiet (l.mapM k) := by
  induction l with
  | nil => exact .pure []
  | cons a l ih =>
    rw [List.mapM_cons]
    exact .bind (h a) fun b => .bind ih fun bs => .pure (b :: bs)

lemma forM {k : α → Generation PUnit} {l : List α} (h : ∀ a, Quiet (k a)) : Quiet (l.forM k) := by
  induction l with
  | nil => exact .pure ()
  | cons a l ih => exact .bind (h a) fun _ => ih

lemma forM_option {k : α → Generation PUnit} {o : Option α} (h : ∀ a, Quiet (k a)) :
    Quiet (o.forM k) := by
  cases o with
  | none => exact .pure ()
  | some a => exact h a

/-- **Whether it succeeds or fails, quiet generation leaves the pieces as they were.** -/
lemma pieces_eq (h : Quiet x) (s : Session) : (x s).2.pieces = s.pieces := by
  induction h generalizing s with
  | pure a => rfl
  | @bind α β x k hx hk ihx ihk =>
    rcases hs : x s with ⟨e | a, t⟩
    · rw [bind_error hs, ← ihx s, hs]
    · rw [bind_ok hs, ihk a t, ← ihx s, hs]
  | fail site cause => rfl
  | ask site q => rfl
  | request r => rfl

end Quiet

end Generation

namespace Emission

variable {α β : Type} {x : Emission α}

def Quiet (x : Emission α) : Prop := ∀ f, Generation.Quiet (x f)

namespace Quiet

lemma pure (a : α) : Quiet (pure a : Emission α) := fun _ => .pure _

lemma bind {k : α → Emission β} (hx : Quiet x) (hk : ∀ a, Quiet (k a)) : Quiet (x >>= k) :=
  fun f => (hx f).bind fun r => hk r.1 r.2

lemma lift {y : Generation α} (h : y.Quiet) : Quiet (liftM y : Emission α) :=
  fun _ => .bind h fun _ => .pure _

lemma lower (site : Site) (y : Lower α) : Quiet (lower site y) := fun _ => .liftExcept _ _ _

end Quiet

end Emission

/-! ### The generator -/

namespace Generator

open Emission (Quiet)

lemma classAt_quiet (site : Site) (p : ConstantPool) (i : UInt16) : (classAt site p i).Quiet :=
  .liftExcept _ _ _

lemma memberAt_quiet (site : Site) (p : ConstantPool) (i : UInt16) : (memberAt site p i).Quiet :=
  .liftExcept _ _ _

lemma fieldAt_quiet (g : Generator) (site : Site) (p : ConstantPool) (i : UInt16) :
    (g.fieldAt site p i).Quiet := by
  refine .bind (memberAt_quiet site p i) fun ref => ?_
  split
  · exact .fail _ _
  · exact .bind (.ask _ _) fun _ => .pure _

lemma staticFieldAt_quiet (g : Generator) (site : Site) (p : ConstantPool) (i : UInt16) :
    (g.staticFieldAt site p i).Quiet :=
  .bind (g.fieldAt_quiet site p i) fun _ => .bind (.request _) fun _ =>
    .bind (.request _) fun _ => .pure _

lemma ldc_quiet (site : Site) (p : ConstantPool) (i : UInt16) : Quiet (ldc site p i) := by
  refine .bind (.lift (.liftExcept _ _ _)) fun l => ?_
  cases l with
  | int v | float v | long v | double v | string v => exact .lower site _
  | classRef name =>
    dsimp only
    split
    · exact .lower site _
    · exact .bind (.lift (.request _)) fun _ => .lower site _

lemma callOf_quiet (g : Generator) (site : Site) (kind : InvokeKind) (r : MemberRef)
    (args : List Atom) :
    Quiet (g.callOf site kind r args) := by
  cases kind with
  | static => exact .bind (.lift (.request _)) fun _ => .bind (.lift (.ask _ _)) fun _ => .pure _
  | special =>
    exact .bind (.lower site _) fun _ => .bind (.lift (.request _)) fun _ =>
      .bind (.lift (.ask _ _)) fun _ => .pure _
  | virtual | interface =>
    refine .bind (.lower site _) fun _ => .bind (.lift (.ask _ _)) fun dispatch => ?_
    cases dispatch with
    | direct => exact .bind (.lift (.ask _ _)) fun _ => .pure _
    | invoker => exact .bind (.lift (.request _)) fun _ => .pure _

lemma invoke_quiet (g : Generator) (site : Site) (p : ConstantPool) (kind : InvokeKind)
    (i : UInt16) :
    Quiet (g.invoke site p kind i) := by
  refine .bind (.lift (memberAt_quiet site p i)) fun r => ?_
  split
  · exact .lift (.fail _ _)
  · refine .bind (.lower site _) fun args => .bind (g.callOf_quiet site kind r args) fun e => ?_
    split <;> exact .lower site _

lemma instruction_quiet (g : Generator) (site : Site) (p : ConstantPool) (i : Instruction) :
    Quiet (g.instruction site p i) := by
  have hclass (index : UInt16) : Quiet (liftM (classAt site p index)) :=
    .lift (classAt_quiet site p index)
  have hfield (index : UInt16) : Quiet (liftM (g.fieldAt site p index)) :=
    .lift (g.fieldAt_quiet site p index)
  have hstatic (index : UInt16) : Quiet (liftM (g.staticFieldAt site p index)) :=
    .lift (g.staticFieldAt_quiet site p index)
  cases i with
  | ldc index => exact ldc_quiet site p index
  | getStatic index => exact .bind (hstatic index) fun _ => .lower site _
  | putStatic index =>
    exact .bind (hstatic index) fun _ => .bind (.lower site _) fun _ => .lower site _
  | getField index | putField index =>
    exact .bind (.lower site _) fun _ => .bind (hfield index) fun _ => .lower site _
  | invoke kind index => exact g.invoke_quiet site p kind index
  | new index =>
    exact .bind (hclass index) fun _ => .bind (.lift (.request _)) fun _ => .lower site _
  | newRefArray index | instanceOf index =>
    exact .bind (hclass index) fun _ => .bind (.lower site _) fun _ => .lower site _
  | newMultiArray index dimensions =>
    exact .bind (hclass index) fun _ => .bind (.lower site _) fun _ => .lower site _
  | checkCast index =>
    refine .bind (hclass index) fun name => ?_
    split
    · exact .bind (.lower site _) fun _ => .lower site _
    · exact .pure _
  | _ => exact .lower site _

lemma block_quiet (g : Generator) (site : Nat → Site) (p : ConstantPool) (labels : List Nat)
    (marked : Bool) (code : List Located) (reachable : Bool) (last : Option Nat) :
    Quiet (g.block site p labels marked code reachable last) := by
  induction code generalizing reachable last with
  | nil => exact .pure _
  | cons l code ih =>
    rw [block]
    dsimp only
    split
    · split
      · exact .bind (.lower _ _) fun _ => .bind (g.instruction_quiet _ p _) fun _ => ih _ _
      · exact .bind (g.instruction_quiet _ p _) fun _ => ih _ _
    · exact ih _ _

lemma catchClause_quiet (site : Site) (p : ConstantPool) (h : Handler) :
    (catchClause site p h).Quiet := by
  rw [catchClause]
  split
  · exact .pure _
  · exact .bind (classAt_quiet site p _) fun _ => .bind (.request _) fun _ => .pure _

lemma body_quiet (g : Generator) (c : ClassDecl) (m : MethodDecl) : (g.body c m).Quiet := by
  refine .bind (.liftExcept _ _ _) fun code => .bind (.liftExcept _ _ _) fun labels => ?_
  refine .bind (g.block_quiet _ _ _ _ _ _ _ _) fun r => ?_
  dsimp only
  split
  · exact .pure _
  · exact .bind (.mapM fun h => catchClause_quiet _ _ h) fun _ => .pure _

lemma scriptFunction_quiet (m : MethodDecl) (site : Site) (a : Annotation) :
    (scriptFunction m site a).Quiet := by
  have hargs : (scriptArgs site a).Quiet := by
    rw [scriptArgs]
    split
    · exact .pure _
    · split
      · exact .pure _
      · exact .fail _ _
  refine .bind hargs fun args => ?_
  dsimp only
  split
  · exact .fail _ _
  · refine .bind (.liftExcept _ _ _) fun signature => ?_
    split
    · exact .bind (.fail _ _) fun _ => .pure _
    · exact .pure _

/-- **The function of a method is made without a word being written.** -/
lemma function_quiet (g : Generator) (c : ClassDecl) (m : MethodDecl) : (g.function c m).Quiet := by
  rw [function]
  dsimp only
  split
  · exact scriptFunction_quiet m _ _
  · split
    · exact .pure _
    · exact .bind (.liftExcept _ _ _) fun _ => .bind (.liftExcept _ _ _) fun _ =>
        .bind (g.body_quiet c m) fun _ => .pure _

end Generator

end ClassScript
