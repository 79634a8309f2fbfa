import ClassScript.Proofs.Evaluation
import ClassScript.Proofs.FunctionForms
import ClassScript.Proofs.MentionedCode
import ClassScript.Proofs.Rendering

/-!
The variables of a function are declared in its header.

A function binds the slots of its parameters, declares in one line what else its code has noted, and
then goes on with the code. Read as text, the code mentions no variable that is in neither, and no
name is in both.
-/

namespace ClassScript

open Wording

/-! ### Declarations -/

namespace Function

/-- What is used is bound or declared. -/
lemma mem_declared {bound used : List Var} {v : Var} :
    v ∈ declared bound used ↔ v ∈ used ∧ v ∉ bound := by
  rw [declared, List.mem_mergeSort, List.mem_eraseDups, List.mem_filter]
  simp

lemma nodup_eraseDups : (l : List Var) → l.eraseDups.Nodup
  | [] => .nil
  | v :: l => by
    rw [List.eraseDups_cons]
    refine .cons (fun hv => ?_) (nodup_eraseDups (l.filter fun w => !w == v))
    rw [List.mem_eraseDups, List.mem_filter] at hv
    simp at hv
termination_by l => l.length
decreasing_by exact Nat.lt_succ_of_le (List.length_filter_le _ _)

lemma nodup_declared (bound used : List Var) : (declared bound used).Nodup :=
  (List.mergeSort_perm _ _).nodup_iff.mpr (nodup_eraseDups _)

end Function

/-- With the code of a method come the variables that were noted for it. -/
lemma Generator.exists_used {g : Generator} {c : ClassDecl} {m : MethodDecl} {s t : Session}
    {f : Function} {bound : List (Var × String)} {declared : List Var} {body : Body}
    (h : g.function c m s = (.ok f, t)) (hf : f.body = .code bound declared body) :
    ∃ used, body.vars ⊆ used ∧ declared = Function.declared (bound.map Prod.fst) used := by
  obtain ⟨signature, used, u, v, -, -, hbody, hdeclared⟩ := code_of_function h hf
  exact ⟨used, body_vars hbody, hdeclared⟩

/-- No variables but these, and any members. -/
def Wording.Scope.ofVars (vs : List Var) : Scope where
  word w := isVariable w = true → ∃ v ∈ vs, v.name.toList = w
  plain w hw h := absurd h (by simp [hw])
  member _ _ := True

/-- **Variables are declared.** In the function of a method that has generated code, the code
follows the lines that bind the parameters and declare the other variables. Whatever word outside
the literals of the code begins as the names of operands, slots and temporaries do, and is not the
name of a member, is the name of a variable that is bound or declared. No name is declared twice,
and none is both bound and declared. -/
theorem variables_declared {g : Generator} {c : ClassDecl} {m : MethodDecl} {s t : Session}
    {f : Function} {bound : List (Var × String)} {declared : List Var} {body : Body}
    (h : g.function c m s = (.ok f, t)) (hf : f.body = .code bound declared body) :
    (∀ w, Function.renderBody w f.body = body.render
      (w.lines (Function.declarations bound declared))) ∧
    (∀ w, ∃ text code, (body.render w).text = w.text ++ text ∧
      Brackets.outside text.toList = some code ∧
      ∀ word ∈ roots code, isVariable word = true →
        ∃ v ∈ bound.map Prod.fst ++ declared, v.name.toList = word) ∧
    (declared.map Var.name).Nodup ∧ ∀ v ∈ bound.map Prod.fst, ∀ x ∈ declared, v.name ≠ x.name := by
  obtain ⟨used, hused, rfl⟩ := Generator.exists_used h hf
  have hvars : body.vars ⊆ bound.map Prod.fst ++ Function.declared (bound.map Prod.fst) used := by
    intro v hv
    by_cases hbound : v ∈ bound.map Prod.fst
    · exact List.mem_append_left _ hbound
    · exact List.mem_append_right _ (Function.mem_declared.mpr ⟨hused hv, hbound⟩)
  refine ⟨fun w => hf ▸ Function.renderBody_code w _ _ _, fun w => ?_, ?_, ?_⟩
  · have hadmits :
        (Scope.ofVars (bound.map Prod.fst ++ Function.declared (bound.map Prod.fst) used)).Admits
        body.vars (body.code.flatMap Stmt.classes) (body.code.flatMap Stmt.invoked) :=
      ⟨fun v hv _ => ⟨v, hvars hv, rfl⟩, fun _ _ => trivial, fun _ _ => trivial⟩
    obtain ⟨text, htext, ⟨code, hcode, hwords, -⟩, -⟩ := Body.mentions_render hadmits (.refl _ w)
    exact ⟨text, code, htext, hcode, hwords⟩
  · exact (Function.nodup_declared _ _).map fun _ _ => Var.name_injective
  · intro v hv x hx heq
    rw [Var.name_injective heq] at hv
    exact (Function.mem_declared.mp hx).2 hv

/-- A division of the argument and of a slot that was never written, swapped. -/
def juggling : MethodDecl where
  owner := "a/B"
  name := "m"
  descriptor := "(I)I"
  access := 9
  code := some {
    maxStack := 2
    maxLocals := 2
    bytes := [0x1a, 0x1b, 0x5f, 0x6c, 0xac]
    handlers := []
    attributes := [] }
  exceptions := []
  annotations := []

def juggler : ClassDecl := ⟨"a/B", none, [], 0x21, ⟨#[]⟩, [], [juggling], [], none, 52⟩

/-- The names that the function binds, and the variables that its code mentions. -/
def FunctionBody.mentioned : FunctionBody → List String × Option (List String)
  | code bound _ body =>
    (bound.map (·.1.name), (Brackets.outside (body.render {}).text.toList).map fun code =>
      ((roots code).filter isVariable).eraseDups.map String.ofList)
  | _ => ([], none)

theorem variables_declared_juggling : ∃ f t bound declared body,
    Generator.alone.function juggler juggling { exporter := .start .none } = (.ok f, t) ∧
    f.body = .code bound declared body ∧ bound.map (·.1.name) = ["lcI0"] ∧
    ∀ name ∈ ["stI0", "stI1", "lcI1", "tm0", "tm1"], ∃ v ∈ declared, v.name = name := by
  have hseen :
      (Generator.alone.function juggler juggling { exporter := .start .none }).1.toOption.map
      (·.body.mentioned) =
      some (["lcI0"], some ["stI0", "lcI0", "stI1", "lcI1", "tm0", "tm1"]) := by
    decide +kernel
  rcases hrun : Generator.alone.function juggler juggling { exporter := .start .none } with
    ⟨_ | f, t⟩
  · rw [hrun] at hseen
    cases hseen
  have hmentioned : f.body.mentioned =
      (["lcI0"], some ["stI0", "lcI0", "stI1", "lcI1", "tm0", "tm1"]) := by
    rw [hrun] at hseen
    exact Option.some.inj hseen
  cases hbody : f.body with
  | code bound declared body =>
    rw [hbody] at hmentioned
    obtain ⟨hbound, hwords⟩ := Prod.mk.inj hmentioned
    refine ⟨f, t, bound, declared, body, rfl, hbody, hbound, fun name hname => ?_⟩
    obtain ⟨text, code, htext, hcode, hroots⟩ := (variables_declared hrun hbody).2.1 {}
    rw [htext, String.empty_append, hcode, Option.map_some, Option.some.injEq] at hwords
    have hmem : name ∈ ((roots code).filter isVariable).eraseDups.map String.ofList := by
      rw [hwords]
      revert name
      decide
    obtain ⟨word, hword, rfl⟩ := List.mem_map.mp hmem
    obtain ⟨hword, hvariable⟩ := List.mem_filter.mp (List.mem_eraseDups.mp hword)
    obtain ⟨v, hv, rfl⟩ := hroots word hword hvariable
    rw [String.ofList_toList] at hname
    refine ⟨v, (List.mem_append.mp hv).resolve_left fun hv => ?_, String.ofList_toList.symm⟩
    -- The one name that is bound is none of these.
    have hfirst : v.name ∈ bound.map (·.1.name) := by
      rw [← Function.comp_def Var.name Prod.fst, ← List.map_map]
      exact List.mem_map_of_mem hv
    rw [hbound, List.mem_singleton] at hfirst
    rw [hfirst] at hname
    revert hname
    decide
  | script | missing =>
    rw [hbody] at hmentioned
    cases hmentioned

end ClassScript
