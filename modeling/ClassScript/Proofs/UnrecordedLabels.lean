import ClassScript.Method.Function
import ClassScript.Proofs.StackLayouts
import Mathlib.Data.Nat.Find

/-!
When typed code is rejected for its stack.

Code is generated in the order of addresses, and a label gets the layout of the first jump to it
that has been seen. A label that only later jumps enter has none on record and starts on an empty
stack. So a method with a stack typing can still be found short of operands; but only if it has such
a label, and not before the pass has come to the first of them.
-/

namespace ClassScript

/-- A label with operands on the stack and no layout on record when its turn comes: control does not
fall into it, it is no handler, and no jump before it goes there. -/
structure Unrecorded (handlers : List Handler) (labels : List Nat) (code : List Located)
    (S : Nat → List Kind) (pre : List Located) (l : Located) : Prop where
  translates : Translates labels code pre l
  apart : fallsThrough labels pre true = false
  handler : ∀ h ∈ handlers, h.target.toNat ≠ l.address
  jump : ∀ pre' j, Translates labels code pre' j → j.address < l.address →
    l.address ∉ j.instruction.targets
  operands : S l.address ≠ []

section

variable {p : ConstantPool} {handlers : List Handler} {labels : List Nat}
  {code pre rest : List Located}
  {S : Nat → List Kind}

lemma StackTyping.of_append (h : StackTyping p handlers (pre ++ rest) S) :
    StackTyping p handlers pre S where
  entry := h.entry
  handler := h.handler
  flow before pc i after hpre := by
    obtain ⟨ks, heffect, htargets, hnext⟩ := h.flow before pc i (after ++ rest) (by rw [hpre]; simp)
    refine ⟨ks, heffect, htargets, fun hflow next hmem => hnext hflow next ?_⟩
    cases after with
    | nil => cases hmem
    | cons a after => exact hmem

lemma Translates.append {before : List Located} {l : Located} (h : Translates labels pre before l)
    (rest : List Located) : Translates labels (pre ++ rest) before l := by
  obtain ⟨⟨after, rfl⟩, hlive⟩ := h
  exact ⟨⟨after ++ rest, by simp⟩, hlive⟩

lemma Translates.of_append {before : List Located} {l : Located}
    (h : Translates labels (pre ++ rest) before l) (hlen : before.length < pre.length) :
    Translates labels pre before l := by
  obtain ⟨⟨after, heq⟩, hlive⟩ := h
  refine ⟨⟨after.take (pre.length - before.length - 1), ?_⟩, hlive⟩
  have htake := congrArg (List.take pre.length) heq
  rw [List.take_left, List.take_append, List.take_of_length_le (Nat.le_of_lt hlen)] at htake
  obtain ⟨n, hn⟩ := Nat.exists_eq_add_of_lt hlen
  rw [htake]
  congr 1
  have hsub : pre.length - before.length = pre.length - before.length - 1 + 1 := by omega
  rw [hsub, List.take_succ_cons]
  simp

/-- Code is typed as far as its labels are on record. -/
lemma TypedCode.of_recorded (hS : StackTyping p handlers code S)
    (hsorted : (code.map Located.address).Pairwise (· < ·)) (hcode : code = pre ++ rest)
    (hnone : ∀ before l, before.length < pre.length →
      ¬ Unrecorded handlers labels code S before l) :
    TypedCode p handlers labels pre S where
  typing := StackTyping.of_append (hcode ▸ hS)
  sorted := by
    rw [hcode, List.map_append] at hsorted
    exact (List.pairwise_append.mp hsorted).1
  entered before l hl hfall := by
    obtain ⟨after, hpre⟩ := hl.1
    have hlen : before.length < pre.length := by
      rw [hpre]
      simp
    have hsplit : code = before ++ l :: (after ++ rest) := by
      rw [hcode, hpre]
      simp
    by_contra hentered
    push Not at hentered
    obtain ⟨hhandler, hjump, hoperands⟩ := hentered
    refine hnone before l hlen ⟨hcode ▸ hl.append rest, hfall, hhandler, fun before' j hj hlt =>
      ?_, hoperands⟩
    -- a jump at a lower address stands before the label, and so within `pre`
    obtain ⟨after', hj'⟩ := hj.1
    have hlen' : before'.length < before.length := length_lt_of_address_lt hsorted hsplit hj' hlt
    exact hjump before' j (Translates.of_append (hcode ▸ hj) (Nat.lt_trans hlen' hlen)) hlt

/-- The first label that is not on record, if there is one. -/
lemma exists_first_unrecorded (h : ∃ before l, Unrecorded handlers labels code S before l) :
    ∃ pre l rest, code = pre ++ l :: rest ∧ Unrecorded handlers labels code S pre l ∧
      ∀ before l', before.length < pre.length → ¬ Unrecorded handlers labels code S before l' := by
  classical
  have hsome : ∃ n before l, before.length = n ∧ Unrecorded handlers labels code S before l := by
    obtain ⟨before, l, hl⟩ := h
    exact ⟨_, before, l, rfl, hl⟩
  obtain ⟨pre, l, hlen, hl⟩ := Nat.find_spec hsome
  obtain ⟨⟨rest, hcode⟩, -⟩ := hl.translates
  refine ⟨pre, l, rest, hcode, hl, fun before l' hlt hl' => ?_⟩
  exact Nat.find_min hsome (hlen ▸ hlt) ⟨before, l', rfl, hl'⟩

end

namespace Generator

variable {g : Generator} {c : ClassDecl} {m : MethodDecl} {s t : Session} {e : GenerationError}
  {code : List Located} {labels : List Nat} {S : Nat → List Kind}

/-- The pass is not short of operands as long as labels are on record. -/
lemma pass_error (hcode : Instruction.decode m.bytecode = .ok code)
    (hS : StackTyping c.pool m.handlers code S) {pre rest : List Located}
    (hsplit : code = pre ++ rest) (hpre : pre ≠ [])
    (hnone : ∀ before l, before.length < pre.length →
      ¬ Unrecorded m.handlers labels code S before l) :
    Ends (g.pass c m labels pre (Frame.ofHandlers m.handlers)) s (fun _ _ => True)
      fun e _ => e.cause ≠ .fault .underflow := by
  obtain ⟨i, tail, hhead⟩ := Instruction.decode_head hcode
  have hC : TypedCode c.pool m.handlers labels pre S :=
    .of_recorded hS (Instruction.decode_sorted hcode) hsplit hnone
  obtain ⟨l, pre', rfl⟩ := List.exists_cons_of_ne_nil hpre
  obtain rfl : l = ⟨0, i⟩ := (List.cons.inj (hsplit.symm.trans hhead)).1
  have hA : Agrees m.handlers labels (⟨0, i⟩ :: pre') S [] (Frame.ofHandlers m.handlers) :=
    hC.typing.agrees rfl
  refine (pass_agrees hC hA (List.append_nil _).symm).mono (fun _ _ _ => trivial) ?_
  rintro e _ ⟨pc, cause, rfl⟩
  exact Cause.noConfusion

/-- A body that is short of operands is so in the pass over its code. -/
lemma body_underflow (hcode : Instruction.decode m.bytecode = .ok code) :
    Ends (g.body c m) s (fun _ _ => True) fun e _ => e.cause = .fault .underflow →
      ∃ labels, Labels.of code m.handlers m.bytecode.length = .ok labels ∧
        ∃ u, g.pass c m labels code (Frame.ofHandlers m.handlers) s = (.error e, u) := by
  refine .bind_of_ok (Generation.liftExcept_ok hcode _ _ s) ?_
  cases hlabels : Labels.of code m.handlers m.bytecode.length with
  | error d => exact .bind_of_error (t := s) (e := ⟨_, .fault (.defect d)⟩) rfl (by rintro ⟨⟩)
  | ok labels =>
    refine .bind_of_ok (Generation.liftExcept_ok rfl _ _ s) ?_
    refine .bind (Q := fun _ _ => True) ⟨fun _ => trivial, fun he _ => ⟨labels, rfl, _, he⟩⟩
      fun r u _ => ?_
    dsimp only
    split
    · exact .pure trivial
    · refine .bind (Ends.mapM (I := fun _ => True) (fun h _ u _ => ?_) trivial) fun _ _ _ =>
        .pure trivial
      exact (catchClause_ends _ h u).mono (fun _ _ h => h) fun e _ he hcause => absurd hcause (he _)

lemma scriptFunction_underflow (site : Site) (a : Annotation) :
    Ends (scriptFunction m site a) s (fun _ _ => True) fun e _ => e.cause ≠ .fault .underflow := by
  have hargs : Ends (scriptArgs site a) s (fun _ _ => True) fun e _ =>
      e.cause ≠ .fault .underflow := by
    rw [scriptArgs]
    split
    · exact .pure trivial
    · split
      · exact .pure trivial
      · exact .of_error (t := s) rfl (by rintro ⟨⟩)
  refine .bind hargs fun args u _ => ?_
  dsimp only
  split
  · exact .of_error (t := u) rfl (by rintro ⟨⟩)
  · cases hsignature : m.signature with
    | error d => exact .bind_of_error (t := u) (e := ⟨_, .descriptor d⟩) rfl (by rintro ⟨⟩)
    | ok signature =>
      refine .bind_of_ok (Generation.liftExcept_ok rfl _ _ u) ?_
      split
      · exact .bind_of_error (t := u) rfl (by rintro ⟨⟩)
      · exact .pure trivial

/-- A function that is short of operands is so in the body of its method. -/
lemma function_underflow : Ends (g.function c m) s (fun _ _ => True) fun e _ =>
    e.cause = .fault .underflow → ∃ u, g.body c m s = (.error e, u) := by
  rw [function]
  split
  · exact (scriptFunction_underflow _ _).mono (fun _ _ h => h) fun _ _ h hcause => absurd hcause h
  · split
    · exact .pure trivial
    · rw [codeFunction]
      cases hsignature : m.signature with
      | error d => exact .bind_of_error (t := s) (e := ⟨_, .descriptor d⟩) rfl (by rintro ⟨⟩)
      | ok signature =>
        refine .bind_of_ok (Generation.liftExcept_ok rfl _ _ s) ?_
        cases hbound : Function.bindings m.isStatic signature.params with
        | error d => exact .bind_of_error (t := s) (e := ⟨_, .fault (.defect d)⟩) rfl (by rintro ⟨⟩)
        | ok bound =>
          refine .bind_of_ok (Generation.liftExcept_ok rfl _ _ s) ?_
          exact .bind (Q := fun _ _ => True) ⟨fun _ => trivial, fun he _ => ⟨_, he⟩⟩ fun _ _ _ =>
            .pure trivial

end Generator

/-- **A typed method is rejected for its stack only after a label that is not on record.** If the
translation of a method with a stack typing ends for want of operands, the method has a label that
nothing before it enters while operands are on its stack; and all code before the first such label
has been generated. -/
theorem underflow_after_unrecorded_label (g : Generator) (c : ClassDecl) (m : MethodDecl)
    {code : List Located} {S : Nat → List Kind} (hcode : Instruction.decode m.bytecode = .ok code)
    (hS : StackTyping c.pool m.handlers code S) {s t : Session} {e : GenerationError}
    (hrun : g.function c m s = (.error e, t)) (hcause : e.cause = .fault .underflow) :
    ∃ labels, Labels.of code m.handlers m.bytecode.length = .ok labels ∧
      ∃ pre l, Unrecorded m.handlers labels code S pre l ∧
        ∃ last f u, g.pass c m labels pre (Frame.ofHandlers m.handlers) s = (.ok (last, f), u) := by
  obtain ⟨u, hbody⟩ := Generator.function_underflow.error hrun hcause
  obtain ⟨labels, hlabels, u, hpass⟩ := (Generator.body_underflow hcode).error hbody hcause
  obtain ⟨i, tail, hhead⟩ := Instruction.decode_head hcode
  have hsome : ∃ before l, Unrecorded m.handlers labels code S before l := by
    by_contra hnone
    push Not at hnone
    have hne : code ≠ [] := by rw [hhead]; exact List.cons_ne_nil _ _
    exact (Generator.pass_error hcode hS (List.append_nil code).symm hne fun before l _ =>
      hnone before l).error
      hpass hcause
  obtain ⟨pre, l, rest, hsplit, hl, hfirst⟩ := exists_first_unrecorded hsome
  refine ⟨labels, hlabels, pre, l, hl, ?_⟩
  have hne : pre ≠ [] := by
    rintro rfl
    cases hl.apart
  rcases hpre : g.pass c m labels pre (Frame.ofHandlers m.handlers) s with ⟨e' | ⟨last, f⟩, u'⟩
  · -- the pass would have ended there, and not for want of operands
    have hwhole : g.pass c m labels code (Frame.ofHandlers m.handlers) s = (.error e', u') := by
      rw [Generator.pass_eq hsplit hl.translates.2]
      exact bind_error hpre
    cases hwhole.symm.trans hpass
    exact absurd hcause ((Generator.pass_error hcode hS hsplit hne hfirst).error hpre)
  · exact ⟨last, f, u', rfl⟩

/-! ### A jump backwards with an operand -/

/-- A jump over the end of the method, and one back to it with a zero on the stack. -/
def detour : MethodDecl where
  owner := "A"
  name := "detour"
  descriptor := "()V"
  access := Access.staticFlag
  code := some ⟨1, 0, [0xa7, 0, 5, 0x57, 0xb1, 0x03, 0xa7, 0xff, 0xfd], [], []⟩
  exceptions := []
  annotations := []

def detourClass : ClassDecl := ⟨"A", none, [], 0, ⟨#[]⟩, [], [detour], [], none, 52⟩

def detourCode : List Located :=
  [⟨0, .goto 5⟩, ⟨3, .pop⟩, ⟨4, .returns none⟩, ⟨5, .push (.int 0)⟩, ⟨6, .goto 3⟩]

def detourTyping (pc : Nat) : List Kind := if pc ∈ [3, 6] then [.int] else []

lemma detour_decode : Instruction.decode detour.bytecode = .ok detourCode := by decide +kernel

lemma detour_typing : StackTyping detourClass.pool detour.handlers detourCode detourTyping where
  entry := rfl
  handler := by rintro h ⟨⟩
  flow pre pc i post h := by
    have hlen := congrArg List.length h
    simp only [detourCode, List.length_append, List.length_cons, List.length_nil] at hlen
    have hi : detourCode[pre.length]? = some ⟨pc, i⟩ := by simp [h]
    obtain rfl : post = detourCode.drop (pre.length + 1) := by simp [h]
    have hlt : pre.length < 5 := by omega
    interval_cases pre.length <;> cases hi <;> exact ⟨_, rfl, by decide, by decide⟩

/-- The translation stops at the label, where it finds nothing to pop. -/
lemma detour_run : ∃ t, Generator.alone.function detourClass detour { exporter := ⟨.none, [], 0⟩ } =
    (.error ⟨.code "A" "detour" "()V" 3, .fault .underflow⟩, t) := by
  have hrun : (Generator.alone.function detourClass detour { exporter := ⟨.none, [], 0⟩ }).1 =
      .error ⟨.code "A" "detour" "()V" 3, .fault .underflow⟩ := by rfl
  exact ⟨_, Prod.ext hrun rfl⟩

theorem underflow_after_unrecorded_label_detour :
    ∃ labels, Labels.of detourCode detour.handlers detour.bytecode.length = .ok labels ∧
      ∃ pre l, Unrecorded detour.handlers labels detourCode detourTyping pre l ∧
        ∃ last f u, Generator.alone.pass detourClass detour labels pre
          (Frame.ofHandlers detour.handlers) { exporter := ⟨.none, [], 0⟩ } =
            (.ok (last, f), u) := by
  obtain ⟨t, hrun⟩ := detour_run
  exact underflow_after_unrecorded_label Generator.alone detourClass detour detour_decode
    detour_typing hrun rfl

/-- **A method with a stack typing can be rejected for want of operands.** -/
theorem typed_method_underflows :
    ¬ ∀ (g : Generator) (c : ClassDecl) (m : MethodDecl) (code : List Located)
      (S : Nat → List Kind),
      Instruction.decode m.bytecode = .ok code → StackTyping c.pool m.handlers code S →
      ∀ s e t, g.function c m s = (.error e, t) → e.cause ≠ .fault .underflow := by
  intro hall
  obtain ⟨t, hrun⟩ := detour_run
  exact hall _ _ _ _ _ detour_decode detour_typing _ _ t hrun rfl

end ClassScript
