import ClassScript.Proofs.MentionedCode
import ClassScript.Proofs.Rendering
import ClassScript.Proofs.Requests

/-!
The classes that the text of a definition mentions.

Each piece of a definition is written by the generator, a body in script apart, so its text takes
from `vm` only the functions of the classes that the piece names, and from the invoker only the
method names that its code calls.
-/

namespace ClassScript

open Wording

section

variable {σ : Scope}

/-! ### Annotations -/

namespace ElementValue

/-- A tag, and what it is the tag of. -/
lemma mentions_tagged (tag : Char) {s t : String}
    (hs : s.toList = ['[', '\'', tag, '\'', ',', ' '] ∧ Quoted.escape tag = [tag])
    (h : Mentions σ t) : Mentions σ (s ++ t) := by
  have htag : Mentions σ ("[" ++ Quoted.text (String.ofList [tag])) :=
    .lead (by decide) (mentions_quoted _)
  rw [Brackets.tag_eq tag hs]
  exact htag.glue (by decide) (by decide) h

lemma mentions_elements {es : List (String × ElementValue)} (h : ∀ e ∈ es, Mentions σ e.2.render) :
    ∀ t ∈ renderElements es, Mentions σ t := by
  rw [renderElements_eq]
  refine List.forall_mem_map.mpr fun e he => ?_
  exact (mentions_quoted e.1).glue (by decide) (by decide) (h e he)

/-- The names of classes in annotation data stand in literals. -/
lemma Tagged.mentions {v : ElementValue} (h : v.Tagged) : Mentions σ v.render := by
  induction h with
  | @int tag h v =>
    rw [render]
    exact (mentions_tagged tag ⟨by simp, escape_intTags h⟩ (Number.mentions_int σ v)).trail
      (by decide)
  | long v =>
    rw [render]
    exact (mentions_tagged 'J' (by decide) (Number.mentions_long σ v)).trail (by decide)
  | float v =>
    rw [render]
    exact (mentions_tagged 'F' (by decide) (Number.mentions_double σ v.widen)).trail (by decide)
  | double v =>
    rw [render]
    exact (mentions_tagged 'D' (by decide) (Number.mentions_double σ v)).trail (by decide)
  | string s =>
    rw [render]
    exact (mentions_tagged 's' (by decide) (mentions_quoted s)).trail (by decide)
  | enumerated d name =>
    rw [render]
    have hclass : Mentions σ ("['e', " ++ Quoted.text (Name.ofClass (enumClass d))) :=
      mentions_tagged 'e' (by decide) (mentions_quoted _)
    exact (hclass.glue (by decide) (by decide) (mentions_quoted _)).trail (by decide)
  | classInfo d =>
    rw [render]
    have hclass : Mentions σ ("['c', " ++ Quoted.text d) :=
      mentions_tagged 'c' (by decide) (mentions_quoted d)
    split
    · exact (hclass.glue (by decide) (by decide) (mentions_quoted _)).trail (by decide)
    · exact hclass.trail (by decide)
  | nested d visible h ih =>
    rw [render]
    have htype : Mentions σ ("['@', " ++ Quoted.text d) :=
      mentions_tagged '@' (by decide) (mentions_quoted d)
    exact (htype.glue (by decide) (by decide) (mentions_list (mentions_elements ih))).trail
      (by decide)
  | @array vs h ih =>
    rw [render, renderAll_eq]
    have hopen : "['[', [" = "['[', " ++ "[" := by decide
    have hlist : Mentions σ ("[" ++ ", ".intercalate (vs.map render)) :=
      .lead (by decide) (mentions_list (List.forall_mem_map.mpr ih))
    have hvalues := mentions_tagged '[' (s := "['[', ") (by decide) hlist
    rw [← String.append_assoc, ← hopen] at hvalues
    exact hvalues.trail (by decide)

end ElementValue

lemma Annotation.Tagged.mentions {a : Annotation} (h : a.Tagged) : Mentions σ a.render := by
  have helements :=
    mentions_list (ElementValue.mentions_elements (σ := σ) fun e he => (h e he).mentions)
  exact ((mentions_quoted a.descriptor).glue (by decide) (by decide) helements).trail (by decide)

end

/-! ### Functions -/

section

variable {σ : Scope} {w v : Writer}

lemma IsArgument.mentions {t : String} (h : IsArgument t) : Mentions σ t := by
  obtain ⟨i, rfl⟩ := h
  have htext : (s!"arg{i}").toList = ['a', 'r', 'g'] ++ (toString i).toList := String.toList_append
  refine mentions_word (fun c hc => ?_) (σ.plain _ (by rw [htext]; rfl))
  rw [htext, List.mem_append] at hc
  rcases hc with hc | hc
  · exact List.all_eq_true.mp (by decide : ['a', 'r', 'g'].all Identifier.isPart = true) c hc
  · simp [Identifier.isPart, Char.isAlphanum, Number.isDigit_nat i c hc]

/-- A member of a fixed object that is none of the two. -/
lemma mentions_member (object : String) (h : isFixed object = true ∧ isSettled object = true)
    (name : String) : Mentions σ (property object name) :=
  mentions_property (mentions_of_isFixed h.1) ((settled_of_isSettled h.2).members name)

namespace Function

lemma mentions_renderBody {f : Function} (hf : f.Plain) (hvars : ∀ x : Var, σ.word x.name.toList)
    (hclasses : ∀ name ∈ f.body.statements.flatMap Stmt.classes, σ.member "vm" (Name.ofClass name))
    (hinvoked : ∀ m ∈ f.body.statements.flatMap Stmt.invoked, σ.member "invoker" m)
    (h : w.Mentions σ v) : w.Mentions σ (renderBody v f.body) := by
  obtain ⟨hgenerated, -, hsources⟩ := hf
  cases hbody : f.body with
  | script lines =>
    rw [hbody] at hgenerated
    cases hgenerated
  | missing text =>
    exact h.line ((mentions_quoted text).within (by decide) (by decide))
  | code bindings declared body =>
    rw [hbody] at hsources hclasses hinvoked
    have hbound : ∀ b ∈ bindings, Mentions σ ("var " ++ b.1.name ++ " = " ++ b.2 ++ ";") := by
      intro b hb
      have hvar : Mentions σ ("var " ++ b.1.name) := .lead (by decide) (Var.mentions (hvars b.1))
      -- what a slot starts as is `this` or an argument, and neither names a class
      rcases hsources b hb with hthis | harg
      · rw [hthis]
        exact mentions_assignment hvar (mentions_of_isFixed (by decide))
      · exact mentions_assignment hvar harg.mentions
    have hdeclared : Mentions σ ("var " ++ ", ".intercalate (declared.map Var.name) ++ ";") := by
      have hnames :=
        mentions_list (List.forall_mem_map.mpr fun x (_ : x ∈ declared) => Var.mentions (hvars x))
      exact hnames.within (by decide) (by decide)
    rw [renderBody_code]
    refine Body.mentions_render ⟨fun x _ => hvars x, hclasses, hinvoked⟩ (h.lines ?_)
    refine List.forall_mem_append.mpr ⟨List.forall_mem_map.mpr hbound, ?_⟩
    split
    · simp
    · simpa using hdeclared

lemma mentions_render {f : Function} (hf : f.Plain) (hvars : ∀ x : Var, σ.word x.name.toList)
    (hclasses : ∀ name ∈ f.body.statements.flatMap Stmt.classes, σ.member "vm" (Name.ofClass name))
    (hinvoked : ∀ m ∈ f.body.statements.flatMap Stmt.invoked, σ.member "invoker" m)
    (h : w.Mentions σ v) : w.Mentions σ (f.render v) := by
  have hname : Mentions σ (property "c" f.name) := mentions_member "c" (by decide) f.name
  have hparams : Mentions σ (", ".intercalate f.params) :=
    mentions_list fun p hp => (hf.params p hp).mentions
  have hheader := (hname.glue (a := " = function(") (by decide) (by decide) hparams).trail
    (t := ") \x7b") (by decide)
  exact (mentions_renderBody hf hvars hclasses hinvoked (h.begins hheader)).ends
    (mentions_of_isFixed (by decide))

end Function

/-! ### Pieces -/

namespace Piece

open Annotation (kept)

def isScript : Piece → Bool
  | function f => f.body.isScript
  | _ => false

lemma mentions_object {name : String} (h : σ.member "vm" (Name.ofClass name)) (fresh : Bool) :
    Mentions σ (Expr.object name fresh).render :=
  Expr.mentions ⟨by simp [Expr.vars], by simpa [Expr.classes] using h, by simp [Expr.invoked]⟩

lemma mentions_classObject {name : String} (h : σ.member "vm" (Name.ofClass name)) :
    Mentions σ (Expr.classObject name).render :=
  Expr.mentions ⟨by simp [Expr.classObject, Expr.vars],
    by simpa [Expr.classObject, Expr.classes] using h, by simp [Expr.classObject, Expr.invoked]⟩

lemma mentions_opening {name : String} {superName : Option String} (hfree : ∀ word, σ.word word)
    (hclasses : ∀ n ∈ name :: superName.toList, σ.member "vm" (Name.ofClass n))
    (h : w.Mentions σ v) :
    w.Mentions σ (renderOpening v name superName) := by
  obtain ⟨hname, hsuper⟩ := List.forall_mem_cons.mp hclasses
  have hid : Mentions σ (Name.ofClass name) := mentions_word (Name.isPart_ofClass name) (hfree _)
  have hheader :
      Mentions σ (classFunction name ++ " = function " ++ Name.ofClass name ++ "(arg0) \x7b") :=
    ((mentions_classFunction hname).glue (by decide) (by decide) hid).trail (by decide)
  have hself : Mentions σ ("var CLS = " ++ Name.ofClass name ++ ";") :=
    hid.within (by decide) (by decide)
  have htemp : Mentions σ "CLS.$class = 'temp';" := by
    have htext : "CLS.$class = " ++ Quoted.text "temp" ++ ";" = "CLS.$class = 'temp';" := by decide
    exact htext ▸ (mentions_quoted "temp").within (by decide) (by decide)
  have hstart := (((h.begins hheader).line hself).begins (s := "if (!CLS.$class) \x7b")
    (mentions_of_isFixed (by decide))).line htemp
  have hconstructor {v : Writer} (h : w.Mentions σ v) :
      w.Mentions σ (v.lines ["var c = p;", "p.constructor = CLS;"]) :=
    (h.line (mentions_of_isFixed (by decide))).line (mentions_of_isFixed (by decide))
  -- the superclass is the one other class that the lines mention
  cases superName with
  | none =>
    exact hconstructor
      ((hstart.line (mentions_of_isFixed (by decide))).line (mentions_of_isFixed (by decide)))
  | some s =>
    have hparent : Mentions σ ("var pp = " ++ (Expr.object s true).render ++ ";") :=
      (mentions_object (hsuper s (by simp)) true).within (by decide) (by decide)
    exact hconstructor (((hstart.line hparent).line (mentions_of_isFixed (by decide))).line
      (mentions_of_isFixed (by decide)))

lemma mentions_reflection {name : String} {interfaces : List String} (access : UInt16)
    {annotations : List Annotation} (hannotations : ∀ a ∈ annotations, a.Tagged)
    (hclass : σ.member "vm" (Name.ofClass classClass))
    (hinterfaces : ∀ i ∈ interfaces, σ.member "vm" (Name.ofClass i)) (h : w.Mentions σ v) :
    w.Mentions σ (renderReflection v name interfaces access annotations) := by
  have hobject : Mentions σ ("CLS.$class = " ++ (Expr.object classClass true).render ++ ";") :=
    (mentions_object hclass true).within (by decide) (by decide)
  have hname : Mentions σ ("CLS.$class.jvmName = " ++ Quoted.text name ++ ";") :=
    (mentions_quoted name).within (by decide) (by decide)
  have hlist : Mentions σ ("CLS.$class.interfaces = function() \x7b return [" ++
      ", ".intercalate (interfaces.map fun i => (Expr.classObject i).render) ++ "]; \x7d;") := by
    have hobjects :=
      mentions_list (List.forall_mem_map.mpr fun i hi => mentions_classObject (hinterfaces i hi))
    exact hobjects.within (by decide) (by decide)
  have haccess : Mentions σ ("CLS.$class.access = " ++ toString access.toNat ++ ";") :=
    (mentions_digital (Number.digital_nat _)).within (by decide) (by decide)
  have hdata : Mentions σ ("CLS.$class.anno = \x7b" ++
      ", ".intercalate ((kept annotations).map Annotation.render) ++ "\x7d;") := by
    have hkept : ∀ a ∈ kept annotations, Mentions σ a.render := fun a ha =>
      (hannotations a (List.mem_filter.mp ha).1).mentions
    exact (mentions_list (List.forall_mem_map.mpr hkept)).within (by decide) (by decide)
  have hflag : Mentions σ (property "c" (Name.instanceFlag name) ++ " = true;") :=
    (mentions_member "c" (by decide) _).trail (by decide)
  have himplement : ∀ i ∈ interfaces,
      Mentions σ ("rt.implement(c, " ++ (Expr.object i false).render ++ ");") := fun i hi =>
    (mentions_object (hinterfaces i hi) false).within (by decide) (by decide)
  have hsuper : Mentions σ "CLS.$class.superclass = sprcls;" := mentions_of_isFixed (by decide)
  have hconstructor : Mentions σ "CLS.$class.cnstr = CLS;" := mentions_of_isFixed (by decide)
  rw [renderReflection_eq]
  refine (h.lines fun s hs => ?_).ends (mentions_of_isFixed (by decide))
  simp only [reflectionLines, List.mem_append, List.mem_cons, List.not_mem_nil, or_false,
    List.mem_ite_nil_left, List.mem_map] at hs
  rcases hs with ((((((rfl | rfl | rfl) | ⟨-, rfl⟩) | rfl | rfl) | ⟨-, rfl⟩) | rfl) | ⟨i, hi, rfl⟩)
  · exact hobject
  · exact hname
  · exact hsuper
  · exact hlist
  · exact haccess
  · exact hconstructor
  · exact hdata
  · exact hflag
  · exact himplement i hi

lemma mentions_construction {superName : Option String}
    (hclasses : ∀ n ∈ superName.toList, σ.member "vm" (Name.ofClass n)) (h : w.Mentions σ v) :
    w.Mentions σ (renderConstruction v superName) := by
  have hnew : w.Mentions σ (((v.begins "if (arguments.length === 0) \x7b").begins
      "if (!(this instanceof CLS)) \x7b").line "return new CLS();") :=
    ((h.begins (mentions_of_isFixed (by decide))).begins (mentions_of_isFixed (by decide))).line
      (mentions_of_isFixed (by decide))
  have hended := hnew.ends (s := "\x7d") (mentions_of_isFixed (by decide))
  cases superName with
  | none => exact hended
  | some s =>
    have hobject := mentions_object (σ := σ) (hclasses s (by simp)) false
    have hsettled : Settled (Expr.object s false).render := Expr.settled (by simp)
    have hparts : ∀ c ∈ "constructor".toList, Identifier.isPart c = true :=
      List.all_eq_true.mp (by decide)
    have hcalls : ∀ c ∈ "call".toList, Identifier.isPart c = true :=
      List.all_eq_true.mp (by decide)
    have hconstructor := hobject.point hparts (hsettled.members _)
    have hcall := hconstructor.point hcalls ((settled_point _ hparts).members _)
    have htext : (Expr.object s false).render ++ ".constructor.call(this);" =
        (Expr.object s false).render ++ "." ++ "constructor" ++ "." ++ "call" ++ "(this);" := by
      simp only [String.append_assoc]
      rfl
    refine hended.line ?_
    rw [htext]
    exact hcall.trail (by decide)

lemma mentions_closing (h : w.Mentions σ v) : w.Mentions σ (renderClosing v) := by
  have hinner := (h.line (s := "return this;") (mentions_of_isFixed (by decide))).ends (s := "\x7d")
    (mentions_of_isFixed (by decide))
  exact (hinner.line (mentions_of_isFixed (by decide))).ends (mentions_of_isFixed (by decide))

/-- **What the text of a piece takes from the two objects.** It is what the piece names, and the
function of its own class. -/
lemma mentions_render {own : String} {p : Piece} (hp : p.Proper own) (hscript : p.isScript = false)
    (hfree : ∀ word, σ.word word)
    (hclasses : ∀ n ∈ own :: p.classes, σ.member "vm" (Name.ofClass n))
    (hinvoked : ∀ m ∈ p.invoked, σ.member "invoker" m) (h : w.Mentions σ v) :
    w.Mentions σ (p.render v) := by
  obtain ⟨hown, hclasses⟩ := List.forall_mem_cons.mp hclasses
  -- the objects that fields and methods are members of
  have hmember : ∀ object ∈ ["c", "this"], ∀ name, Mentions σ (property object name) ∧
      Mentions σ (bracket object name) := by
    intro object hobject name
    have hall : ["c", "this"].all (fun object => isFixed object && isSettled object) = true := by
      decide
    obtain ⟨hfixed, hsettled⟩ := Bool.and_eq_true_iff.mp (List.all_eq_true.mp hall object hobject)
    have hmembers := (settled_of_isSettled hsettled).members (σ := σ) name
    exact ⟨mentions_property (mentions_of_isFixed hfixed) hmembers,
      mentions_bracket (mentions_of_isFixed hfixed) hmembers⟩
  cases p with
  | opening name superName => exact mentions_opening hfree hclasses h
  | field object owner name value =>
    exact h.line (mentions_assignment (hmember object hp _).1 value.mentions)
  | function f =>
    have hf : f.Plain := hp.resolve_left fun hbody => by
      rw [isScript, hbody] at hscript
      cases hscript
    exact Function.mentions_render hf (fun _ => hfree _) hclasses hinvoked h
  | publish dest name =>
    rcases hp with hdest | ⟨rfl, rfl⟩
    · obtain ⟨hproperty, hbracket⟩ := hmember dest hdest name
      exact h.line (mentions_assignment hbracket hproperty)
    · have hvm : ∀ o ∈ objects, EndsWith "vm".toList o → σ.member o (Name.ofClass own) := by
        intro o ho hends
        rwa [hends.eq (by decide) ho]
      have hobject : Mentions σ "vm" := ClassScript.mentions_object (by decide)
      exact h.line
        (mentions_assignment (mentions_bracket hobject hvm) (mentions_property hobject hvm))
  | reflection name interfaces access annotations =>
    obtain ⟨hclass, hrest⟩ := List.forall_mem_cons.mp hclasses
    exact mentions_reflection access hp hclass (fun i hi => hrest i (List.mem_append_left _ hi)) h
  | construction superName => exact mentions_construction hclasses h
  | closing => exact mentions_closing h

end Piece

end

end ClassScript
