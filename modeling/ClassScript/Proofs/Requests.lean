import ClassScript.Proofs.AnnotationTags
import ClassScript.Proofs.FunctionForms
import ClassScript.Proofs.Lookups
import ClassScript.Proofs.Needs
import Mathlib.Tactic.Tauto

/-!
Generated code needs only what was requested.

Generation goes on from session to session: classes looked up stay known, requests stay made,
and a piece is written only when all that it needs has been requested. `Generates` keeps the
list of the requests made so far, and its rules follow the steps of generation.
-/

namespace ClassScript

/-- The class under definition, the generator, and the names that may be requested. -/
structure Setting where
  own : String
  generator : Generator
  names : List String

abbrev Setting.lib (S : Setting) : Library := S.generator.exports.library

/-- A piece of the class `own` as the generator writes it. Fields belong to the prototype or to a
new object, and the only defining function that is published is the one of the class. -/
def Piece.Proper (own : String) : Piece → Prop
  | field object _ _ _ => object ∈ ["c", "this"]
  | function f => f.body.isScript = true ∨ f.Plain
  | publish dest name => dest ∈ ["c", "this"] ∨ dest = "vm" ∧ name = Name.ofClass own
  | reflection _ _ _ annotations => ∀ a ∈ annotations, a.Tagged
  | opening .. | construction _ | closing => True

/-- A piece needs what has been requested, apart from the class that it is part of. -/
structure Piece.Covered (own : String) (requests : Array Request) (p : Piece) : Prop where
  needs : ∀ q ∈ p.needs, q = .reference own ∨ q ∈ requests
  proper : p.Proper own

structure Session.Fair (S : Setting) (s : Session) : Prop where
  holds : s.knowledge.classes.Holds S.lib
  known : ∀ name, Request.reference name ∈ s.requests → name ∈ S.names
  pieces : ∀ p ∈ s.pieces, p.Covered S.own s.requests

def Session.opened (s : Session) : List String := s.pieces.toList.filterMap Piece.opened?

/-- One session after another, with the classes whose definitions were started in between. -/
structure Session.Onward (S : Setting) (s t : Session) (opened : List String := []) : Prop where
  fair : t.Fair S
  grows : s.knowledge.classes.Grows S.lib t.knowledge.classes
  requests : ∀ q ∈ s.requests, q ∈ t.requests
  opened : t.opened = s.opened ++ opened

namespace Session.Onward

variable {S : Setting} {s t u : Session} {opened : List String}

lemma refl (h : s.Fair S) : s.Onward S s :=
  ⟨h, .refl h.holds, fun _ hq => hq, (List.append_nil _).symm⟩

lemma trans (h : s.Onward S t) (h' : t.Onward S u opened) : s.Onward S u opened where
  fair := h'.fair
  grows := h.grows.trans h'.grows
  requests q hq := h'.requests q (h.requests q hq)
  opened := by rw [h'.opened, h.opened, List.append_nil]

end Session.Onward

section

variable {α β : Type} {S : Setting} {made : List Request}

/-- Where the requests of `made` have been made, the generation goes on in order, its result is
in `R`, and all of `N` has then been requested. It starts the definitions of `opened`. -/
def Generates (S : Setting) (made : List Request) (x : Generation α) (R : α → Prop)
    (N : α → List Request) (opened : List String := []) : Prop :=
  ∀ s, s.Fair S → (∀ q ∈ made, q ∈ s.requests) →
    Ends x s (fun a t => s.Onward S t opened ∧ R a ∧ ∀ q ∈ N a, q ∈ t.requests) fun _ _ => True

namespace Generates

variable {x : Generation α} {R : α → Prop} {N : α → List Request} {opened : List String}

lemma pure {a : α} (hR : R a) (hN : ∀ q ∈ N a, q ∈ made) :
    Generates S made (pure a : Generation α) R N :=
  fun _ hs hmade => .pure ⟨.refl hs, hR, fun q hq => hmade q (hN q hq)⟩

lemma fail (site : Site) (cause : Cause) : Generates S made (Generation.fail site cause) R N :=
  fun s _ _ => .of_error (t := s) rfl trivial

lemma bind {k : α → Generation β} {R' : β → Prop} {N' : β → List Request}
    (hx : Generates S made x R N) (hk : ∀ a, R a → Generates S (N a ++ made) (k a) R' N' opened) :
    Generates S made (x >>= k) R' N' opened := by
  intro s hs hmade
  refine .bind (hx s hs hmade) fun a t ht => ?_
  obtain ⟨hst, ha, hN⟩ := ht
  have hmade' : ∀ q ∈ N a ++ made, q ∈ t.requests := fun q hq =>
    (List.mem_append.mp hq).elim (hN q) fun hq => hst.requests q (hmade q hq)
  exact (hk a ha t hst.fair hmade').mono (fun b u hu => ⟨hst.trans hu.1, hu.2⟩) fun _ _ h => h

/-- Fewer facts about the result, and more requests made before. -/
lemma mono {made' : List Request} {R' : α → Prop} {N' : α → List Request}
    (h : Generates S made x R N) (hmade : ∀ q ∈ made, q ∈ made') (hR : ∀ a, R a → R' a)
    (hN : ∀ a, ∀ q ∈ N' a, q ∈ N a ∨ q ∈ made') : Generates S made' x R' N' := by
  intro s hs hrequests
  refine (h s hs fun q hq => hrequests q (hmade q hq)).mono (fun a t ht => ?_) fun _ _ h => h
  refine ⟨ht.1, hR a ht.2.1, fun q hq => ?_⟩
  exact (hN a q hq).elim (ht.2.2 q) fun hq => ht.1.requests q (hrequests q hq)

/-- What is known of every result. -/
lemma of_result {R' : α → Prop} (h : Generates S made x R N)
    (hR' : ∀ {s a t}, x s = (.ok a, t) → R' a) : Generates S made x R' N := by
  intro s hs hmade
  have hends := h s hs hmade
  refine ⟨fun hx => ?_, hends.error⟩
  obtain ⟨honward, -, hN⟩ := hends.ok hx
  exact ⟨honward, hR' hx, hN⟩

lemma liftExcept {ε : Type} {r : Except ε α} (h : Gives r R) (site : Site) (cause : ε → Cause) :
    Generates S made (Generation.liftExcept site cause r) R fun _ => [] := by
  cases r with
  | error e => exact fail site (cause e)
  | ok a => exact pure (h rfl) (by simp)

/-- A question about classes. -/
lemma ask {q : Query α} (h : Sound S.lib Knowledge.classes q R) (site : Site) :
    Generates S made (Generation.ask site q) R fun _ => [] := by
  intro s hs _
  refine (Generation.ask_ends site q s).mono (fun a t ht => ?_) fun _ _ _ => trivial
  obtain ⟨k, hq, rfl⟩ := ht
  obtain ⟨hgrows, ha⟩ := (h s.knowledge hs.holds).ok hq
  exact ⟨⟨⟨hgrows.holds, hs.known, hs.pieces⟩, hgrows, fun _ hr =>
    hr, (List.append_nil _).symm⟩, ha,
    by simp⟩

lemma request {q : Request} (h : ∀ name, q = .reference name → name ∈ S.names) :
    Generates S made (Generation.request q) (fun _ => True) fun _ => [q] := by
  intro s hs _
  refine .of_ok rfl
    ⟨⟨⟨hs.holds, ?_, ?_⟩, .refl hs.holds, ?_, (List.append_nil _).symm⟩, trivial, ?_⟩
  · intro name hname
    rcases Array.mem_push.mp hname with hname | hname
    · exact hs.known name hname
    · exact h name hname.symm
  · intro p hp
    have hcovered := hs.pieces p hp
    exact ⟨fun r hr => (hcovered.needs r hr).imp_right (Array.mem_push_of_mem q), hcovered.proper⟩
  · exact fun r hr => Array.mem_push_of_mem q hr
  · intro r hr
    rw [List.mem_singleton.mp hr]
    exact Array.mem_push_self

/-- A piece that starts no definition, or one that does. -/
lemma write_opened {p : Piece} (hneeds : ∀ q ∈ p.needs, q = .reference S.own ∨ q ∈ made)
    (hproper : p.Proper S.own) :
    Generates S made (Generation.write p) (fun _ => True) (fun _ => []) p.opened?.toList := by
  intro s hs hmade
  refine .of_ok rfl ⟨⟨⟨hs.holds, hs.known, ?_⟩, .refl hs.holds, fun _ hr => hr, ?_⟩,
    trivial, by simp⟩
  · intro p' hp'
    rcases Array.mem_push.mp hp' with hp' | rfl
    · exact hs.pieces p' hp'
    · exact ⟨fun q hq => (hneeds q hq).imp_right (hmade q), hproper⟩
  · simp only [Session.opened, Array.toList_push, List.filterMap_append]
    cases p <;> rfl

lemma write {p : Piece} (hopened : p.opened? = none)
    (hneeds : ∀ q ∈ p.needs, q = .reference S.own ∨ q ∈ made) (hproper : p.Proper S.own) :
    Generates S made (Generation.write p) (fun _ => True) fun _ => [] := by
  have hwrite := write_opened hneeds hproper
  rwa [hopened] at hwrite

/-- The definition of a class is started, and no other after it. -/
lemma bind_opening {name : String} {superName : Option String} {k : Unit → Generation β}
    {R' : β → Prop} {N' : β → List Request}
    (hneeds : ∀ q ∈ (Piece.opening name superName).needs, q = .reference S.own ∨ q ∈ made)
    (hk : Generates S made (k ()) R' N') :
    Generates S made (Generation.write (.opening name superName) >>= k) R' N' [name] := by
  intro s hs hmade
  refine .bind (write_opened hneeds trivial s hs hmade) fun _ t ht => ?_
  have hmade' : ∀ q ∈ made, q ∈ t.requests := fun q hq => ht.1.requests q (hmade q hq)
  refine (hk t ht.1.fair hmade').mono (fun b u hu => ⟨⟨hu.1.fair, ?_, ?_, ?_⟩, hu.2⟩) fun _ _ h => h
  · exact ht.1.grows.trans hu.1.grows
  · exact fun q hq => hu.1.requests q (ht.1.requests q hq)
  · rw [hu.1.opened, ht.1.opened, List.append_nil]
    rfl

lemma forM {k : α → Generation PUnit} {l : List α} {M : α → List Request}
    (h : ∀ a ∈ l, Generates S made (k a) (fun _ => True) fun _ => M a) :
    Generates S made (l.forM k) (fun _ => True) fun _ => l.flatMap M := by
  induction l with
  | nil => exact pure trivial (by simp)
  | cons a l ih =>
    refine bind (h a List.mem_cons_self) fun _ _ => ?_
    refine (ih fun a' ha' => h a' (List.mem_cons_of_mem _ ha')).mono ?_ (fun _ h => h) ?_
    · exact fun q hq => List.mem_append_right _ hq
    · intro _ q hq
      rw [List.flatMap_cons] at hq
      exact (List.mem_append.mp hq).symm.imp id (List.mem_append_left _)

/-- A value that may be missing. -/
lemma forM_option {k : α → Generation PUnit} {o : Option α} {M : α → List Request}
    (h : ∀ a, o = some a → Generates S made (k a) (fun _ => True) fun _ => M a) :
    Generates S made (o.forM k) (fun _ => True) fun _ => o.toList.flatMap M := by
  cases o with
  | none => exact pure trivial (by simp)
  | some a =>
    exact (h a rfl).mono (fun _ hq => hq) (fun _ h => h) fun _ q hq => .inl (by simpa using hq)

lemma mapM {k : α → Generation β} {l : List α}
    (h : ∀ a, Generates S made (k a) (fun _ => True) fun _ => []) :
    Generates S made (l.mapM k) (fun _ => True) fun _ => [] := by
  induction l with
  | nil => exact pure trivial (by simp)
  | cons a l ih =>
    rw [List.mapM_cons]
    exact bind (h a) fun _ _ => bind ih fun _ _ => pure trivial (by simp)

end Generates

/-- The emission goes on in order, and all that its code needs has been requested. -/
def Emits (S : Setting) (made : List Request) (x : Emission α) (R : α → Prop)
    (N : α → List Request) : Prop :=
  ∀ f, Generates S (made ++ f.needs) (x f) (fun r => R r.1) fun r => N r.1 ++ r.2.needs

namespace Emits

variable {x : Emission α} {R : α → Prop} {N : α → List Request}

lemma pure {a : α} (hR : R a) (hN : ∀ q ∈ N a, q ∈ made) :
    Emits S made (pure a : Emission α) R N := fun _ =>
  Generates.pure hR fun q hq => List.mem_append.mpr ((List.mem_append.mp hq).imp_left (hN q))

lemma bind {k : α → Emission β} {R' : β → Prop} {N' : β → List Request} (hx : Emits S made x R N)
    (hk : ∀ a, R a → Emits S (N a ++ made) (k a) R' N') : Emits S made (x >>= k) R' N' := by
  intro f
  refine Generates.bind (hx f) fun r hr => ?_
  obtain ⟨a, f'⟩ := r
  refine (hk a hr f').mono (fun q hq => ?_) (fun _ h => h) fun _ q hq => .inl hq
  simp only [List.mem_append] at hq ⊢
  rcases hq with (hq | hq) | hq
  · exact .inl (.inl hq)
  · exact .inr (.inl hq)
  · exact .inl (.inr hq)

lemma lift {y : Generation α} (h : Generates S made y R N) : Emits S made (liftM y) R N := by
  intro f
  have h' : Generates S (made ++ f.needs) y R N :=
    h.mono (fun q hq => List.mem_append_left _ hq) (fun _ h => h) fun _ q hq => .inl hq
  refine Generates.bind h' fun a ha => Generates.pure ha fun q hq => ?_
  simp only [List.mem_append] at hq ⊢
  exact hq.imp_right .inr

lemma fail (site : Site) (cause : Cause) :
    Emits S made (liftM (Generation.fail site cause : Generation α)) R N :=
  lift (Generates.fail site cause)

/-- A step that needs no other class. -/
lemma lower {y : Lower α} (h : Lower.Adds (fun s => ∀ q ∈ s.needs, q ∈ made) y) (site : Site) :
    Emits S made (Emission.lower site y) (fun _ => True) fun _ => [] := by
  intro f
  rw [Emission.lower]
  cases hy : y f with
  | error fault => exact .fail site _
  | ok r =>
    obtain ⟨added, hout, hadded⟩ := h hy
    refine .pure trivial fun q hq => ?_
    simp only [Frame.needs, hout, Array.toList_append, List.flatMap_append, List.nil_append,
      List.mem_append] at hq ⊢
    refine hq.symm.imp_left fun hq => ?_
    obtain ⟨s, hs, hq⟩ := List.mem_flatMap.mp hq
    exact hadded s hs q hq

end Emits

end

/-! ### The generator -/

def ClassDecl.parents (c : ClassDecl) : List String := c.superName.toList ++ c.interfaces

/-- The names that code over a constant pool can come to request. -/
structure Setting.Serves (S : Setting) (p : ConstantPool) : Prop where
  texts : ∀ name ∈ p.texts, name ∈ S.names
  declared : ∀ c, S.lib.Has c → c.name ∈ S.names

namespace Generator

open Generation Lower

variable {S : Setting} {made : List Request} {p : ConstantPool}

lemma classAt_generates (hp : S.Serves p) (site : Site) (i : UInt16) :
    Generates S made (classAt site p i) (· ∈ S.names) fun _ => [] :=
  .liftExcept (fun _ h => hp.texts _ (ConstantPool.className_gives i h)) site _

lemma memberAt_generates (hp : S.Serves p) (site : Site) (i : UInt16) :
    Generates S made (memberAt site p i) (·.owner ∈ S.names) fun _ => [] :=
  .liftExcept (fun _ h => hp.texts _ (ConstantPool.memberRef_gives i h)) site _

lemma fieldAt_generates (hp : S.Serves p) (site : Site) (i : UInt16) :
    Generates S made (S.generator.fieldAt site p i)
      (fun u => u.ref.owner ∈ S.names ∧ u.owner ∈ S.names) fun _ => [] := by
  refine .bind (memberAt_generates hp site i) fun r hr => ?_
  split
  · exact .fail _ _
  · refine .bind (.ask (declaringField_sound r) site) fun declaring hdeclaring =>
      .pure ⟨hr, ?_⟩ (by simp)
    cases declaring with
    | none => exact hr
    | some name =>
      obtain ⟨c, hc, rfl⟩ := hdeclaring name rfl
      exact hp.declared c hc

lemma request_generates {name : String} (h : name ∈ S.names) :
    Generates S made (request (.reference name)) (fun _ => True) fun _ => [.reference name] :=
  .request fun _ heq => by
    cases heq
    exact h

lemma staticFieldAt_generates (hp : S.Serves p) (site : Site) (i : UInt16) :
    Generates S made (S.generator.staticFieldAt site p i) (fun _ => True) fun r => r.1.needs := by
  refine .bind (fieldAt_generates hp site i) fun u hu => ?_
  refine .bind (request_generates hu.1) fun _ _ => .bind (request_generates hu.2) fun _ _ => ?_
  exact .pure trivial fun q hq => List.mem_append_left _ hq

lemma ldc_emits (hp : S.Serves p) (site : Site) (i : UInt16) :
    Emits S made (ldc site p i) (fun _ => True) fun _ => [] := by
  have hloadable : Generates S made (Generation.liftExcept site .pool (p.loadable i))
      (fun l => ∀ name, l = .classRef name → name ∈ S.names) fun _ => [] :=
    .liftExcept
      (fun _ h name hname => hp.texts _ (ConstantPool.loadable_gives i h name hname)) site _
  refine .bind (.lift hloadable) fun l hl => ?_
  cases l with
  | int v | float v | long v | double v | string v => exact .lower (pushConst_adds _) site
  | classRef name =>
    dsimp only
    split
    · exact .lower (assign_adds _ (by rintro v q ⟨⟩)) site
    · refine .bind (.lift (request_generates (hl name rfl))) fun _ _ =>
        .lower (assign_adds _ ?_) site
      exact fun _ q hq => List.mem_append_left _ hq

/-- A call needs the class that it names, or the invoker. -/
lemma callOf_emits {r : MemberRef} (hr : r.owner ∈ S.names) (site : Site) (kind : InvokeKind)
    (args : List Atom) :
    Emits S made (S.generator.callOf site kind r args) (fun _ => True) Expr.needs := by
  have hdeclaring {made : List Request} :
      Emits S made (liftM (ask site (S.generator.declaringMethod r))) (fun _ => True) fun _ => [] :=
    .lift (.ask (declaringMethod_sound r) site)
  cases kind with
  | static =>
    refine .bind (.lift (request_generates hr)) fun _ _ => .bind hdeclaring fun _ _ => ?_
    exact .pure trivial fun q hq => List.mem_append_right [] (List.mem_append_left _ hq)
  | special =>
    refine .bind (.lower pop_adds site) fun _ _ =>
      .bind (.lift (request_generates hr)) fun _ _ => ?_
    refine .bind hdeclaring fun _ _ => ?_
    exact .pure trivial fun q hq => List.mem_append_right [] (List.mem_append_left _ hq)
  | virtual | interface =>
    refine .bind (.lower pop_adds site) fun receiver _ => ?_
    refine .bind (.lift (.ask (Exports.dispatch_sound _ _ _ _) site)) fun dispatch _ => ?_
    cases dispatch with
    | direct => exact .bind hdeclaring fun _ _ => .pure trivial (by rintro q ⟨⟩)
    | invoker =>
      refine .bind (.lift (.request (by simp))) fun _ _ => ?_
      exact .pure trivial fun q hq => List.mem_append_left _ hq

lemma invoke_emits (hp : S.Serves p) (site : Site) (kind : InvokeKind) (i : UInt16) :
    Emits S made (S.generator.invoke site p kind i) (fun _ => True) fun _ => [] := by
  refine .bind (.lift (memberAt_generates hp site i)) fun r hr => ?_
  split
  · exact .fail _ _
  · refine .bind (.lower (popMany_adds _) site) fun args _ => ?_
    refine .bind (callOf_emits hr site kind args) fun e _ => ?_
    split
    · exact .lower (assign_adds _ fun _ q hq => List.mem_append_left _ hq) site
    · refine .lower (.emit ?_) site
      exact fun q hq => List.mem_append_left _ hq

/-- **What an instruction adds to the code needs only what was requested.** -/
lemma instruction_emits (hp : S.Serves p) (site : Site) (i : Instruction) :
    Emits S made (S.generator.instruction site p i) (fun _ => True) fun _ => [] := by
  have hlower : Emits S made (Emission.lower site (Lower.instruction i))
      (fun _ => True) fun _ => [] :=
    .lower ((instruction_adds i).mono fun s hs => by rw [hs.needs]; rintro q ⟨⟩) site
  -- what an instruction asks for is asked for before the line that needs it
  cases i with
  | ldc index => exact ldc_emits hp site index
  | getStatic index =>
    refine .bind (.lift (staticFieldAt_generates hp site index)) fun r _ => ?_
    exact .lower (assign_adds _ fun _ q hq => List.mem_append_left _ hq) site
  | putStatic index =>
    refine .bind (.lift (staticFieldAt_generates hp site index)) fun r _ => ?_
    refine .bind (.lower pop_adds site) fun value _ => .lower (.emit fun q hq => ?_) site
    exact List.mem_append_right [] (List.mem_append_left _ hq)
  | getField index =>
    refine .bind (.lower pop_adds site) fun object _ => ?_
    refine .bind (.lift (fieldAt_generates hp site index)) fun u _ => ?_
    exact .lower (assign_adds _ (by rintro v q ⟨⟩)) site
  | putField index =>
    refine .bind (.lower pop2_adds site) fun r _ => ?_
    refine .bind (.lift (fieldAt_generates hp site index)) fun u _ => ?_
    exact .lower (.emit (by rintro q ⟨⟩)) site
  | invoke kind index => exact invoke_emits hp site kind index
  | new index =>
    refine .bind (.lift (classAt_generates hp site index)) fun name hname => ?_
    refine .bind (.lift (request_generates hname)) fun _ _ => .lower (assign_adds _ ?_) site
    exact fun _ q hq => List.mem_append_left _ hq
  | newRefArray index =>
    refine .bind (.lift (classAt_generates hp site index)) fun _ _ =>
      .bind (.lower pop_adds site) fun _ _ => ?_
    exact .lower (assign_adds _ (by rintro v q ⟨⟩)) site
  | newMultiArray index dimensions =>
    refine .bind (.lift (classAt_generates hp site index)) fun _ _ => ?_
    refine .bind (.lower (popMany_adds _) site) fun _ _ => ?_
    exact .lower (assign_adds _ (by rintro v q ⟨⟩)) site
  | checkCast index =>
    refine .bind (.lift (classAt_generates hp site index)) fun name _ => ?_
    split
    · refine .bind (.lower peek_adds site) fun _ _ => ?_
      exact .lower (.emit (by rintro q ⟨⟩)) site
    · exact .pure trivial (by simp)
  | instanceOf index =>
    refine .bind (.lift (classAt_generates hp site index)) fun _ _ =>
      .bind (.lower pop_adds site) fun _ _ => ?_
    exact .lower (assign_adds _ (by rintro v q ⟨⟩)) site
  | _ => exact hlower

lemma block_emits (hp : S.Serves p) (site : Nat → Site) (labels : List Nat) (marked : Bool)
    (code : List Located) (reachable : Bool) (last : Option Nat) :
    Emits S made (S.generator.block site p labels marked code reachable last) (fun _ => True)
      fun _ => [] := by
  induction code generalizing reachable last with
  | nil => exact .pure trivial (by simp)
  | cons l code ih =>
    obtain ⟨pc, i⟩ := l
    have hrest : Emits S made (do
        S.generator.instruction (site pc) p i
        S.generator.block site p labels marked code (!i.endsFlow) (some pc)) (fun _ => True)
        fun _ => [] :=
      .bind (instruction_emits hp (site pc) i) fun _ _ => ih _ _
    rw [block]
    split
    · split
      · have hlabel : Adds (fun s => ∀ q ∈ s.needs, q ∈ made) (enterLabel pc reachable marked) :=
          (enterLabel_adds pc reachable marked).mono fun s hs => by rw [hs]; rintro q ⟨⟩
        exact .bind (.lower hlabel (site pc)) fun _ _ => hrest
      · exact hrest
    · exact ih false last

lemma catchClause_generates (hp : S.Serves p) (site : Site) (h : Handler) :
    Generates S made (catchClause site p h) (fun _ => True) fun _ => [] := by
  rw [catchClause]
  split
  · exact .pure trivial (by simp)
  · refine .bind (classAt_generates hp site _) fun name hname => ?_
    exact .bind (request_generates hname) fun _ _ => .pure trivial (by simp)

variable {c : ClassDecl}

lemma body_generates (hc : S.Serves c.pool) (m : MethodDecl) :
    Generates S made (S.generator.body c m) (fun _ => True) fun r =>
      r.1.code.flatMap Stmt.needs := by
  refine .bind (.liftExcept (fun _ _ => trivial) _ _) fun code _ => ?_
  refine .bind (.liftExcept (fun _ _ => trivial) _ _) fun labels _ => ?_
  have hblock : Emits S [] (S.generator.block (Site.code c.name m.name m.descriptor) c.pool labels
      (!m.handlers.isEmpty) code true none) (fun _ => True) fun _ => [] :=
    block_emits hc _ _ _ _ _ _
  -- the frame of the handlers holds no code yet
  refine .bind ((hblock (Frame.ofHandlers m.handlers)).mono (by rintro q ⟨⟩) (fun _ h => h)
    fun _ q hq => .inl hq) fun r _ => ?_
  obtain ⟨last, f⟩ := r
  dsimp only
  split
  · exact .pure trivial fun q hq => List.mem_append_left _ hq
  · refine .bind (.mapM fun h => catchClause_generates hc _ h) fun clauses _ => ?_
    exact .pure trivial fun q hq => List.mem_append_right [] (List.mem_append_left _ hq)

lemma scriptFunction_generates (m : MethodDecl) (site : Site) (a : Annotation) :
    Generates S made (scriptFunction m site a) (fun _ => True) fun f =>
      (Piece.function f).needs := by
  have hargs : Generates S made (scriptArgs site a) (fun _ => True) fun _ => [] := by
    rw [scriptArgs]
    split
    · exact .pure trivial (by simp)
    · split
      · exact .pure trivial (by simp)
      · exact .fail _ _
  refine .bind hargs fun args _ => ?_
  dsimp only
  split
  · exact .fail _ _
  · refine .bind (.liftExcept (fun _ _ => trivial) _ _) fun signature _ => ?_
    split
    · exact .bind (R := fun _ => True) (N := fun _ => []) (.fail _ _) fun _ _ =>
        .pure trivial (by rintro q ⟨⟩)
    · exact .pure trivial (by rintro q ⟨⟩)

/-- All that a function needs has been requested when it is there. -/
lemma function_generates (hc : S.Serves c.pool) (m : MethodDecl) :
    Generates S made (S.generator.function c m) (fun f => f.body.isScript = true ∨ f.Plain)
      fun f => (Piece.function f).needs := by
  refine .of_result (R := fun _ => True) ?_ fun {s f t} hf => ?_
  swap
  · cases hscript : f.body.isScript with
    | true => exact .inl rfl
    | false => exact .inr (function_plain hf hscript)
  rw [function]
  split
  · exact scriptFunction_generates m _ _
  · split
    · exact .pure trivial (by rintro q ⟨⟩)
    · refine .bind (.liftExcept (fun _ _ => trivial) _ _) fun signature _ => ?_
      refine .bind (.liftExcept (fun _ _ => trivial) _ _) fun bound _ => ?_
      refine .bind (body_generates hc m) fun r _ => .pure trivial fun q hq => ?_
      obtain ⟨s, hs, hq⟩ := Piece.mem_needs_function.mp hq
      exact List.mem_append_left _ (List.mem_flatMap.mpr ⟨s, hs, hq⟩)

lemma publish_generates {dest name : String} (h : (Piece.publish dest name).Proper S.own) :
    Generates S made (publish dest name) (fun _ => True) fun _ => [] := by
  intro s hs hmade
  refine .bind_of_ok rfl (.bind_of_ok rfl ?_)
  split
  · have hwrite : Generates S made (write (.publish dest name)) (fun _ => True) fun _ => [] :=
      .write rfl (by rintro q ⟨⟩) h
    refine (hwrite { s with exporter := s.exporter.add name } ⟨hs.holds, hs.known, hs.pieces⟩
      hmade).mono (fun _ t ht => ?_) fun _ _ h => h
    exact ⟨⟨ht.1.fair, ht.1.grows, ht.1.requests, ht.1.opened⟩, ht.2⟩
  · exact .pure ⟨⟨⟨hs.holds, hs.known, hs.pieces⟩, .refl hs.holds, fun _ hq => hq,
      (List.append_nil _).symm⟩, trivial, by simp⟩

lemma offer_generates {exported : Query Bool}
    (h : Sound S.lib Knowledge.classes exported fun _ => True) {dest name : String}
    (hproper : (Piece.publish dest name).Proper S.own) :
    Generates S made (offer c exported dest name) (fun _ => True) fun _ => [] := by
  refine .bind (.ask h _) fun _ _ => ?_
  split
  · exact publish_generates hproper
  · exact .pure trivial (by simp)

lemma field_generates {object : String} (hobject : object ∈ ["c", "this"]) (f : FieldDecl) :
    Generates S made (S.generator.field c object f) (fun _ => True) fun _ => [] := by
  refine .bind (.liftExcept (fun _ _ => trivial) _ _) fun value _ => ?_
  refine .bind (.write rfl (by rintro q ⟨⟩) hobject) fun _ _ => ?_
  exact offer_generates (Exports.isExportedField_sound c f) (.inl hobject)

lemma method_generates (hc : S.Serves c.pool) (m : MethodDecl) :
    Generates S made (S.generator.method c m) (fun _ => True) fun _ => [] := by
  refine .bind (function_generates hc m) fun f hf => ?_
  refine .bind (.write rfl (fun q hq => .inr (List.mem_append_left _ hq)) hf) fun _ _ => ?_
  exact offer_generates (Exports.isExportedMethod_sound c m) (.inl (by decide))

lemma requests_generates {l : List String} (h : ∀ name ∈ l, name ∈ S.names) :
    Generates S made (l.forM fun name => request (.reference name)) (fun _ => True)
      fun _ => l.map .reference := by
  rw [List.map_eq_flatMap]
  exact .forM fun name hname => request_generates (h name hname)

/-- **The definition of a class: it is started once, and each piece needs what has been requested,
the parents of the class among them.** -/
lemma define_generates (hown : S.own = c.name) (hc : S.Serves c.pool) (hspells : c.Spells)
    (htagged : ∀ a ∈ c.annotations, a.Tagged) (hnames : ∀ name ∈ c.pool.spelled, name ∈ S.names)
    (hclass : Piece.classClass ∈ S.names) :
    Generates S made (S.generator.define c)
      (· = (c.methods.filter ClassDecl.defines).any (·.name == ClassDecl.initializerName))
      (fun _ => c.parents.map .reference) [c.name] := by
  have hsuper : Generates S (c.script?.toList.flatMap (fun s => [.script s]) ++ made)
      (c.superName.forM fun s => request (.reference s)) (fun _ => True)
      fun _ => c.superName.toList.map .reference := by
    rw [List.map_eq_flatMap]
    exact .forM_option fun s hs => request_generates (hnames s (hspells.superName s hs))
  refine .bind (.forM_option fun s _ => .request (by simp)) fun _ _ => .bind hsuper fun _ _ => ?_
  refine .bind_opening (fun q hq => ?_) ?_
  · simp only [Piece.needs, Piece.classes, Piece.invoked, List.map_cons, List.map_nil,
      List.append_nil,
      List.mem_cons] at hq
    rw [hown]
    exact hq.imp_right (List.mem_append_left _)
  refine .bind (.forM fun f _ => field_generates (by decide) f) fun _ _ => ?_
  refine .bind (.forM fun m _ => method_generates hc m) fun _ _ => ?_
  refine .bind (request_generates hclass) fun _ _ => .bind (requests_generates ?_) fun _ _ => ?_
  · exact fun name hname =>
      (List.mem_append.mp hname).elim (hspells.annotations name)
        (hspells.interfaces name) |> hnames name
  refine .bind (.write rfl (fun q hq => .inr ?_) htagged) fun _ _ => ?_
  · simp only [Piece.needs, Piece.classes, Piece.invoked, List.map_append,
      List.map_cons, List.map_nil, List.append_nil, List.mem_append, List.mem_cons] at hq ⊢
    tauto
  refine .bind (.write rfl (fun q hq => .inr ?_) trivial) fun _ _ => ?_
  · simp only [Piece.needs, Piece.classes, Piece.invoked, List.map_nil, List.append_nil] at hq
    simp only [List.mem_append]
    tauto
  refine .bind (.forM fun f _ => field_generates (by decide) f) fun _ _ => ?_
  refine .bind (.write rfl (by rintro q ⟨⟩) trivial) fun _ _ => ?_
  refine .bind (offer_generates (Exports.isExportedClass_sound c) (.inr ⟨rfl, by rw [hown]⟩))
    fun _ _ => ?_
  refine .pure rfl fun q hq => ?_
  simp only [ClassDecl.parents, List.map_append, List.mem_append] at hq ⊢
  tauto

end Generator

end ClassScript
