import ClassScript.Proofs.Alike

/-!
Generators that write the same.

A generator looks at the library only through the owners of the members that code names, the
classes above these, and the descriptions of packages. Two generators whose libraries agree there
define a class in the same way.
-/

namespace ClassScript

/-- A session that knows what the library has, and has asked for scripts of the kind only. -/
structure Session.Within (lib : Library) (P : String → Prop) (s : Session) : Prop where
  holds : s.knowledge.classes.Holds lib
  scripts : ∀ x, Request.script x ∈ s.requests → P x

/-- Members that the constant pool names belong to classes of the kind. -/
def ConstantPool.Owned (N : String → Prop) (p : ConstantPool) : Prop :=
  ∀ i r, p.memberRef i = .ok r → N r.owner

section

variable {α β : Type} {lib : Library} {P : String → Prop}

namespace Generation

lemma fail_alike {R : α → Prop} (site : Site) (cause : Cause) :
    Alike (Session.Within lib P) (fail site cause : Generation α) (fail site cause) R :=
  .throw _

lemma liftExcept_alike {ε : Type} (site : Site) (cause : ε → Cause) (r : Except ε α) :
    Alike (Session.Within lib P) (liftExcept site cause r)
      (liftExcept site cause r) (r = .ok ·) := by
  cases r with
  | error e => exact fail_alike site (cause e)
  | ok a => exact .pure rfl

lemma ask_alike {q q' : Query α} {R : α → Prop}
    (h : Alike (Knowledge.Holds lib) q q' R) (site : Site) :
    Alike (Session.Within lib P) (ask site q) (ask site q') R := by
  intro s hs
  obtain ⟨heq, hends⟩ := h s.knowledge hs.holds
  refine ⟨by rw [ask, ask, heq], (ask_ends site q s).mono (fun a t ht => ?_) fun _ _ _ => trivial⟩
  obtain ⟨k, hq, rfl⟩ := ht
  obtain ⟨hholds, ha⟩ := hends.ok hq
  exact ⟨⟨hholds, hs.scripts⟩, ha⟩

lemma request_alike {q : Request} (h : ∀ x, q = .script x → P x) :
    Alike (Session.Within lib P) (request q) (request q) fun _ => True := by
  refine .modify fun s hs => ⟨hs.holds, fun x hx => ?_⟩
  exact (Array.mem_push.mp hx).elim (hs.scripts x) fun heq => h x heq.symm

lemma reference_alike (name : String) :
    Alike (Session.Within lib P) (request (.reference name)) (request (.reference name))
      fun _ => True :=
  request_alike (by rintro x ⟨⟩)

lemma write_alike (p : Piece) : Alike (Session.Within lib P) (write p) (write p) fun _ => True :=
  .modify fun _ hs => ⟨hs.holds, hs.scripts⟩

lemma publish_alike (dest name : String) :
    Alike (Session.Within lib P) (publish dest name) (publish dest name) fun _ => True := by
  refine .bind (.modify fun _ hs => ⟨hs.holds, hs.scripts⟩) fun _ _ => .bind .get fun s _ => ?_
  split
  · exact write_alike _
  · exact .pure trivial

end Generation

namespace Emission

/-- The same of emissions, from every frame. -/
def Alike (lib : Library) (P : String → Prop) (x y : Emission α) (R : α → Prop) : Prop :=
  ∀ f, ClassScript.Alike (Session.Within lib P) (x f) (y f) fun r => R r.1

namespace Alike

variable {x y : Emission α} {R : α → Prop}

lemma pure {a : α} (h : R a) : Alike lib P (pure a : Emission α) (Pure.pure a) R :=
  fun _ => ClassScript.Alike.pure h

lemma bind {k k' : α → Emission β} {T : β → Prop} (h : Alike lib P x y R)
    (hk : ∀ a, R a → Alike lib P (k a) (k' a) T) : Alike lib P (x >>= k) (y >>= k') T :=
  fun f => ClassScript.Alike.bind (h f) fun r hr => hk r.1 hr r.2

lemma lift {z z' : Generation α} (h : ClassScript.Alike (Session.Within lib P) z z' R) :
    Alike lib P (liftM z) (liftM z') R :=
  fun _ => ClassScript.Alike.bind h fun _ ha => .pure ha

lemma fail (site : Site) (cause : Cause) :
    Alike lib P (liftM (Generation.fail site cause : Generation α))
      (liftM (Generation.fail site cause)) R :=
  lift (Generation.fail_alike site cause)

lemma lower (site : Site) (z : Lower α) :
    Alike lib P (Emission.lower site z) (Emission.lower site z) fun _ => True :=
  fun f => (Generation.liftExcept_alike site Cause.fault (z f)).mono fun _ _ => trivial

end Alike

end Emission

end

/-! ### The generator -/

/-- Two generators of the same output that differ in their libraries only, and not on names of the
kind. -/
structure Generator.Agree (g g' : Generator) (N : String → Prop) : Prop where
  scope : g.scope = g'.scope
  exports : g.exports.Agree g'.exports N

namespace Generator

open Generation

section

variable {lib : Library} {N P : String → Prop} {p : ConstantPool}

lemma memberAt_alike (hp : p.Owned N) (site : Site) (i : UInt16) :
    Alike (Session.Within lib P) (memberAt site p i) (memberAt site p i) fun r => N r.owner :=
  (liftExcept_alike site Cause.pool (p.memberRef i)).mono fun r hr => hp i r hr

lemma classAt_alike (site : Site) (i : UInt16) :
    Alike (Session.Within lib P) (classAt site p i) (classAt site p i) fun _ => True :=
  (liftExcept_alike site Cause.pool (p.className i)).mono fun _ _ => trivial

lemma ldc_alike (site : Site) (i : UInt16) :
    Emission.Alike lib P (ldc site p i) (ldc site p i) fun _ => True := by
  refine .bind (.lift (liftExcept_alike site Cause.pool (p.loadable i))) fun l _ => ?_
  cases l with
  | int v | float v | long v | double v | string v => exact .lower site _
  | classRef name =>
    dsimp only
    split
    · exact .lower site _
    · exact .bind (.lift (reference_alike name)) fun _ _ => .lower site _

lemma catchClause_alike (site : Site) (h : Handler) :
    Alike (Session.Within lib P) (catchClause site p h) (catchClause site p h) fun _ => True := by
  rw [catchClause]
  split
  · exact .pure trivial
  · refine .bind (classAt_alike site _) fun name _ => ?_
    exact .bind (reference_alike name) fun _ _ => .pure trivial

lemma scriptFunction_alike (m : MethodDecl) (site : Site) (a : Annotation) :
    Alike (Session.Within lib P) (scriptFunction m site a) (scriptFunction m site a)
      fun _ => True := by
  have hargs : Alike (Session.Within lib P) (scriptArgs site a)
      (scriptArgs site a) fun _ => True := by
    rw [scriptArgs]
    split
    · exact .pure trivial
    · split
      · exact .pure trivial
      · exact fail_alike _ _
  refine .bind hargs fun args _ => ?_
  dsimp only
  split
  · exact fail_alike _ _
  · refine .bind (liftExcept_alike _ _ _) fun signature _ => ?_
    split
    · exact .bind (R := fun _ => True) (fail_alike _ _) fun _ _ => .pure trivial
    · exact .pure trivial

lemma offer_alike {c : ClassDecl} {exported : Query Bool}
    (h : Sound lib Knowledge.classes exported fun _ => True) (dest name : String) :
    Alike (Session.Within lib P) (offer c exported dest name) (offer c exported dest name)
      fun _ => True := by
  refine .bind (ask_alike (.of_sound h) _) fun _ _ => ?_
  split
  · exact publish_alike dest name
  · exact .pure trivial

end

section

variable {g g' : Generator} {N P : String → Prop} {p : ConstantPool} (hg : g.Agree g' N)

include hg

lemma form_congr (declaring : Option String) : g.form declaring = g'.form declaring := by
  cases declaring with
  | none => rfl
  | some name => rw [form, form, hg.scope]

lemma fieldOf_congr (u : FieldUse) (object : Expr) : g.fieldOf u object = g'.fieldOf u object := by
  rw [fieldOf, fieldOf, form_congr hg]

lemma declaringField_alike {r : MemberRef} (hr : N r.owner) :
    Alike (Knowledge.Holds g.exports.library) (g.declaringField r) (g'.declaringField r)
      fun _ => True :=
  .bind (Query.ofLookup_alike (Library.findField_alike hg.exports.library hr _ _)) fun _ _ =>
    .pure trivial

lemma declaringMethod_alike {r : MemberRef} (hr : N r.owner) :
    Alike (Knowledge.Holds g.exports.library) (g.declaringMethod r)
      (g'.declaringMethod r) fun _ => True :=
  .bind (Query.ofLookup_alike (Library.findMethod_alike hg.exports.library hr _ _)) fun _ _ =>
    .pure trivial

lemma fieldAt_alike (hp : p.Owned N) (site : Site) (i : UInt16) :
    Alike (Session.Within g.exports.library P) (g.fieldAt site p i)
      (g'.fieldAt site p i) fun _ => True := by
  refine .bind (memberAt_alike hp site i) fun r hr => ?_
  split
  · exact fail_alike _ _
  · exact .bind (ask_alike (declaringField_alike hg hr) site) fun _ _ => .pure trivial

lemma staticFieldAt_alike (hp : p.Owned N) (site : Site) (i : UInt16) :
    Alike (Session.Within g.exports.library P) (g.staticFieldAt site p i)
      (g'.staticFieldAt site p i)
      fun _ => True := by
  refine .bind (fieldAt_alike hg hp site i) fun u _ => ?_
  refine .bind (reference_alike _) fun _ _ => .bind (reference_alike _) fun _ _ => ?_
  rw [fieldOf_congr hg]
  exact .pure trivial

lemma callOf_alike {r : MemberRef} (hr : N r.owner) (site : Site) (kind : InvokeKind)
    (args : List Atom) :
    Emission.Alike g.exports.library P (g.callOf site kind r args) (g'.callOf site kind r args)
      fun _ => True := by
  have hdeclaring : Emission.Alike g.exports.library P (liftM (ask site (g.declaringMethod r)))
      (liftM (ask site (g'.declaringMethod r))) fun _ => True :=
    .lift (ask_alike (declaringMethod_alike hg hr) site)
  -- only a call with a receiver has a dispatch to decide
  cases kind with
  | static =>
    refine .bind (.lift (reference_alike _)) fun _ _ => .bind hdeclaring fun declaring _ => ?_
    rw [form_congr hg]
    exact .pure trivial
  | special =>
    refine .bind (.lower site _) fun _ _ => .bind (.lift (reference_alike _)) fun _ _ => ?_
    refine .bind hdeclaring fun declaring _ => ?_
    rw [form_congr hg]
    exact .pure trivial
  | virtual | interface =>
    refine .bind (.lower site _) fun receiver _ => ?_
    have hdispatch := Exports.dispatch_alike hg.exports g.scope hr r.name r.descriptor
    nth_rewrite 2 [hg.scope] at hdispatch
    refine .bind (.lift (ask_alike hdispatch site)) fun dispatch _ => ?_
    cases dispatch with
    | direct =>
      refine .bind hdeclaring fun declaring _ => ?_
      rw [form_congr hg]
      exact .pure trivial
    | invoker => exact .bind (.lift (request_alike (by rintro x ⟨⟩))) fun _ _ => .pure trivial

lemma invoke_alike (hp : p.Owned N) (site : Site) (kind : InvokeKind) (i : UInt16) :
    Emission.Alike g.exports.library P (g.invoke site p kind i) (g'.invoke site p kind i)
      fun _ => True := by
  refine .bind (.lift (memberAt_alike hp site i)) fun r hr => ?_
  split
  · exact .fail _ _
  · refine .bind (.lower site _) fun args _ =>
      .bind (callOf_alike hg hr site kind args) fun e _ => ?_
    split <;> exact .lower site _

/-- An instruction asks about the owners of members only. -/
lemma instruction_alike (hp : p.Owned N) (site : Site) (i : Instruction) :
    Emission.Alike g.exports.library P (g.instruction site p i) (g'.instruction site p i)
      fun _ => True := by
  cases i with
  | ldc index => exact ldc_alike site index
  | getStatic index =>
    exact .bind (.lift (staticFieldAt_alike hg hp site index)) fun _ _ => .lower site _
  | putStatic index =>
    refine .bind (.lift (staticFieldAt_alike hg hp site index)) fun _ _ => ?_
    exact .bind (.lower site _) fun _ _ => .lower site _
  | getField index =>
    refine .bind (.lower site _) fun _ _ =>
      .bind (.lift (fieldAt_alike hg hp site index)) fun u _ => ?_
    rw [fieldOf_congr hg]
    exact .lower site _
  | putField index =>
    refine .bind (.lower site _) fun _ _ =>
      .bind (.lift (fieldAt_alike hg hp site index)) fun u _ => ?_
    rw [fieldOf_congr hg]
    exact .lower site _
  | invoke kind index => exact invoke_alike hg hp site kind index
  | new index =>
    refine .bind (.lift (classAt_alike site index)) fun name _ => ?_
    exact .bind (.lift (reference_alike name)) fun _ _ => .lower site _
  | newRefArray index =>
    refine .bind (.lift (classAt_alike site index)) fun _ _ => ?_
    exact .bind (.lower site _) fun _ _ => .lower site _
  | newMultiArray index dimensions =>
    refine .bind (.lift (classAt_alike site index)) fun _ _ => ?_
    exact .bind (.lower site _) fun _ _ => .lower site _
  | checkCast index =>
    refine .bind (.lift (classAt_alike site index)) fun name _ => ?_
    split
    · exact .bind (.lower site _) fun _ _ => .lower site _
    · exact .pure trivial
  | instanceOf index =>
    refine .bind (.lift (classAt_alike site index)) fun _ _ => ?_
    exact .bind (.lower site _) fun _ _ => .lower site _
  | _ => exact .lower site _

lemma block_alike (hp : p.Owned N) (site : Nat → Site) (labels : List Nat) (marked : Bool)
    (code : List Located) (reachable : Bool) (last : Option Nat) :
    Emission.Alike g.exports.library P (g.block site p labels marked code reachable last)
      (g'.block site p labels marked code reachable last) fun _ => True := by
  induction code generalizing reachable last with
  | nil => exact .pure trivial
  | cons l code ih =>
    obtain ⟨pc, i⟩ := l
    have hrest : Emission.Alike g.exports.library P
        (do
          g.instruction (site pc) p i
          g.block site p labels marked code (!i.endsFlow) (some pc))
        (do
          g'.instruction (site pc) p i
          g'.block site p labels marked code (!i.endsFlow) (some pc))
        fun _ => True :=
      .bind (instruction_alike hg hp (site pc) i) fun _ _ => ih _ _
    rw [block, block]
    split
    · split
      · exact .bind (.lower (site pc) _) fun _ _ => hrest
      · exact hrest
    · exact ih false last

variable {c : ClassDecl}

lemma body_alike (hc : c.pool.Owned N) (m : MethodDecl) :
    Alike (Session.Within g.exports.library P) (g.body c m) (g'.body c m) fun _ => True := by
  refine .bind (liftExcept_alike _ _ _) fun code _ =>
    .bind (liftExcept_alike _ _ _) fun labels _ => ?_
  refine .bind (block_alike hg hc _ _ _ _ _ _ _) fun r _ => ?_
  obtain ⟨last, f⟩ := r
  dsimp only
  split
  · exact .pure trivial
  · exact .bind (.mapM fun h => catchClause_alike _ h) fun _ _ => .pure trivial

lemma function_alike (hc : c.pool.Owned N) (m : MethodDecl) :
    Alike (Session.Within g.exports.library P) (g.function c m)
      (g'.function c m) fun _ => True := by
  rw [function, function]
  split
  · exact scriptFunction_alike m _ _
  · split
    · exact .pure trivial
    · refine .bind (liftExcept_alike _ _ _) fun signature _ =>
        .bind (liftExcept_alike _ _ _) fun bound _ => ?_
      exact .bind (body_alike hg hc m) fun _ _ => .pure trivial

lemma field_alike (object : String) (f : FieldDecl) :
    Alike (Session.Within g.exports.library P) (g.field c object f)
      (g'.field c object f) fun _ => True := by
  refine .bind (liftExcept_alike _ _ _) fun value _ => .bind (write_alike _) fun _ _ => ?_
  rw [← Exports.isExportedField_congr hg.exports]
  exact offer_alike (Exports.isExportedField_sound c f) _ _

lemma method_alike (hc : c.pool.Owned N) (m : MethodDecl) :
    Alike (Session.Within g.exports.library P) (g.method c m) (g'.method c m) fun _ => True := by
  refine .bind (function_alike hg hc m) fun f _ => .bind (write_alike _) fun _ _ => ?_
  rw [← Exports.isExportedMethod_congr hg.exports]
  exact offer_alike (Exports.isExportedMethod_sound c m) _ _

/-- **A class is defined in the same way where the owners of its members are of the kind.** -/
lemma define_alike (hc : c.pool.Owned N) (hscript : ∀ x, c.script? = some x → P x) :
    Alike (Session.Within g.exports.library P) (g.define c) (g'.define c) fun _ => True := by
  have hoffer : Alike (Session.Within g.exports.library P)
      (offer c (g.exports.isExportedClass c) "vm" (Name.ofClass c.name))
      (offer c (g'.exports.isExportedClass c) "vm" (Name.ofClass c.name)) fun _ => True := by
    rw [← Exports.isExportedClass_congr hg.exports]
    exact offer_alike (Exports.isExportedClass_sound c) _ _
  refine .bind (.forM_option fun x hx => request_alike (by rintro x ⟨⟩; exact hscript _ hx))
    fun _ _ => ?_
  refine .bind (.forM_option fun s _ => reference_alike s) fun _ _ =>
    .bind (write_alike _) fun _ _ => ?_
  refine .bind (.forM fun f _ => field_alike hg _ f) fun _ _ => ?_
  refine .bind (.forM fun m _ => method_alike hg hc m) fun _ _ =>
    .bind (reference_alike _) fun _ _ => ?_
  refine .bind (.forM fun name _ => reference_alike name) fun _ _ =>
    .bind (write_alike _) fun _ _ => ?_
  refine .bind (write_alike _) fun _ _ => .bind (.forM fun f _ => field_alike hg _ f) fun _ _ => ?_
  exact .bind (write_alike _) fun _ _ => .bind hoffer fun _ _ => .pure trivial

end

end Generator

end ClassScript
