import ClassScript.Method.Function
import ClassScript.Proofs.Spelling
import ClassScript.Proofs.Triples

/-!
The forms of a function.

The function of a method is given as script, or reports that the method is missing, or has code.
In the last two nothing is taken over as it stands: the parameters have numbers, and the slots
start with them and with the object.
-/

namespace ClassScript

def FunctionBody.isScript : FunctionBody → Bool
  | script _ => true
  | _ => false

/-- The slots that hold something from the start. -/
def FunctionBody.bindings : FunctionBody → List (Var × String)
  | code bindings _ _ => bindings
  | _ => []

def IsArgument (t : String) : Prop := ∃ i : Nat, t = s!"arg{i}"

structure Function.Plain (f : Function) : Prop where
  generated : f.body.isScript = false
  params : ∀ p ∈ f.params, IsArgument p
  bindings : ∀ b ∈ f.body.bindings, b.2 = "this" ∨ IsArgument b.2

namespace Function

/-- The lines between the header of a function and its code. -/
def declarations (bound : List (Var × String)) (declared : List Var) : List String :=
  (bound.map fun b => "var " ++ b.1.name ++ " = " ++ b.2 ++ ";") ++
    if declared.isEmpty then [] else ["var " ++ ", ".intercalate (declared.map Var.name) ++ ";"]

lemma renderBody_code (w : Writer) (bound : List (Var × String)) (declared : List Var)
    (body : Body) :
    renderBody w (.code bound declared body) =
      body.render (w.lines (declarations bound declared)) := by
  simp only [renderBody, declarations, Writer.lines, List.foldl_append]
  split <;> rfl

lemma bindParams_arguments (i : Nat) (slot : UInt16) (ts : List ValueType) :
    Gives (bindParams i slot ts) fun bs => ∀ b ∈ bs, IsArgument b.2 := by
  induction ts generalizing i slot with
  | nil => exact .pure (by simp)
  | cons t ts ih =>
    rw [bindParams]
    split
    · exact .throw _
    · exact .bind (ih _ _) fun bs hbs => .pure (List.forall_mem_cons.mpr ⟨⟨i, rfl⟩, hbs⟩)

lemma bindings_plain (isStatic : Bool) (params : List ValueType) :
    Gives (bindings isStatic params) fun bs => ∀ b ∈ bs, b.2 = "this" ∨ IsArgument b.2 := by
  rw [bindings]
  split
  · intro bs hbs b hb
    exact .inr (bindParams_arguments 0 0 params hbs b hb)
  · refine .bind (bindParams_arguments 0 1 params) fun bs hbs => .pure ?_
    exact List.forall_mem_cons.mpr ⟨.inl rfl, fun b hb => .inr (hbs b hb)⟩

end Function

namespace Generator

variable {g : Generator} {c : ClassDecl} {m : MethodDecl} {s t : Session} {f : Function}

lemma scriptFunction_body {site : Site} {a : Annotation}
    (h : scriptFunction m site a s = (.ok f, t)) : ∃ lines, f.body = .script lines := by
  obtain ⟨args, s₁, -, h⟩ := bind_eq_ok h
  cases htext : (a.element? "body").bind ElementValue.string? with
  | none =>
    simp only [htext] at h
    cases h
  | some text =>
    simp only [htext] at h
    obtain ⟨signature, s₂, -, h⟩ := bind_eq_ok h
    split at h
    · cases h
    · cases h
      exact ⟨_, rfl⟩

/-- **What the function of a method can be.** It has code where the method has no body in script
and is not native, and the code is that of the method, behind the slots of the parameters. -/
lemma function_forms (h : g.function c m s = (.ok f, t)) :
    (∃ a lines, m.annotation? Marker.scriptBody = some a ∧ f.body = .script lines) ∨
    (∃ text, f.params = [] ∧ f.body = .missing text) ∨
    ∃ signature bound body used u v, m.signature = .ok signature ∧
      Function.bindings m.isStatic signature.params = .ok bound ∧
      g.body c m u = (.ok (body, used), v) ∧
      f.params = (List.range signature.params.length).map (fun i => s!"arg{i}") ∧
      f.body = .code bound (Function.declared (bound.map Prod.fst) used) body := by
  rw [function] at h
  cases hscript : m.annotation? Marker.scriptBody with
  | some a =>
    simp only [hscript] at h
    obtain ⟨lines, hlines⟩ := scriptFunction_body h
    exact .inl ⟨a, lines, rfl, hlines⟩
  | none =>
    simp only [hscript] at h
    -- a native method has no code to translate and says so when it is called
    split at h
    · cases h
      exact .inr (.inl ⟨_, rfl, rfl⟩)
    · obtain ⟨signature, s₁, hsignature, h⟩ := bind_eq_ok h
      obtain ⟨bound, s₂, hbound, h⟩ := bind_eq_ok h
      obtain ⟨⟨body, used⟩, s₃, hbody, h⟩ := bind_eq_ok h
      cases h
      refine .inr (.inr ⟨signature, bound, body, used, s₂, _, ?_, ?_, hbody, rfl, rfl⟩)
      · exact (Generation.liftExcept_eq_ok hsignature).1
      · exact (Generation.liftExcept_eq_ok hbound).1

/-- The code of a function is that of its method, behind the variables of the parameters. -/
lemma code_of_function {bound : List (Var × String)} {declared : List Var} {body : Body}
    (h : g.function c m s = (.ok f, t)) (hf : f.body = .code bound declared body) :
    ∃ signature used u v, m.signature = .ok signature ∧
      Function.bindings m.isStatic signature.params = .ok bound ∧
      g.body c m u = (.ok (body, used), v) ∧
      declared = Function.declared (bound.map Prod.fst) used := by
  obtain ⟨a, lines, -, hscript⟩ | ⟨text, -, hmissing⟩ |
    ⟨signature, _, _, used, u, v, hsignature, hbound, hbody, -, hcode⟩ := function_forms h
  · cases hscript.symm.trans hf
  · cases hmissing.symm.trans hf
  · cases hcode.symm.trans hf
    exact ⟨signature, used, u, v, hsignature, hbound, hbody, rfl⟩

/-- A function that is not given as script takes over no text. -/
lemma function_plain (h : g.function c m s = (.ok f, t)) (hscript : f.body.isScript = false) :
    f.Plain := by
  obtain ⟨a, lines, -, hlines⟩ | ⟨text, hparams, hmissing⟩ |
    ⟨signature, bound, body, used, u, v, -, hbound, -, hparams, hcode⟩ := function_forms h
  · rw [hlines] at hscript
    cases hscript
  · refine ⟨hscript, ?_, ?_⟩
    · simp [hparams]
    · simp [hmissing, FunctionBody.bindings]
  · refine ⟨hscript, ?_, ?_⟩
    · rw [hparams]
      exact List.forall_mem_map.mpr fun i _ => ⟨i, rfl⟩
    · rw [hcode]
      exact Function.bindings_plain _ _ hbound

end Generator

end ClassScript
