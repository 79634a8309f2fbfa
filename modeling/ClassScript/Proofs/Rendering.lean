import ClassScript.Program
import ClassScript.Proofs.Literals

/-!
The text of a program, part by part.

All writing is at the end of the text, and what is written depends on the margin only. So the
text of a program is that of its definitions, of the invoker with its selectors, and of the
lines that follow them.
-/

namespace ClassScript

lemma Writer.lines_eq (w : Writer) (ss : List String) :
    w.lines ss = { w with
      text := w.text ++ String.join (ss.map fun s => margin w.indent ++ s ++ "\n") } := by
  induction ss generalizing w with
  | nil => simp [lines]
  | cons s ss ih =>
    have hlines : w.lines (s :: ss) = (w.line s).lines ss := rfl
    rw [hlines, ih]
    simp [line, String.append_assoc]

/-- Different names are different members, however they are written. -/
lemma property_injective (object : String) : Function.Injective (property object) := by
  intro m n h
  have hforms (m n : String) : object ++ "." ++ m ≠ bracket object n := by
    intro heq
    rw [bracket, String.append_assoc, String.append_assoc, String.append_assoc] at heq
    have hhead := congrArg (·.toList.head?) ((String.append_right_inj object).mp heq)
    simp at hhead
  unfold property at h
  split_ifs at h with hm hn hn
  · exact (String.append_right_inj _).mp h
  · exact absurd h (hforms m n)
  · exact absurd h.symm (hforms n m)
  · rw [bracket, bracket, String.append_left_inj, String.append_right_inj] at h
    exact Quoted.text_injective h

namespace Piece

open Annotation (kept)

/-- The lines that make the class object, without the end of their block. -/
def reflectionLines (name : String) (interfaces : List String) (access : UInt16)
    (annotations : List Annotation) : List String :=
  ["CLS.$class = " ++ (Expr.object classClass true).render ++ ";",
    "CLS.$class.jvmName = " ++ Quoted.text name ++ ";", "CLS.$class.superclass = sprcls;"] ++
  (if interfaces.isEmpty then []
    else ["CLS.$class.interfaces = function() \x7b return [" ++
      ", ".intercalate (interfaces.map fun i => (Expr.classObject i).render) ++ "]; \x7d;"]) ++
  ["CLS.$class.access = " ++ toString access.toNat ++ ";", "CLS.$class.cnstr = CLS;"] ++
  (if (kept annotations).isEmpty then []
    else ["CLS.$class.anno = \x7b" ++
      ", ".intercalate ((kept annotations).map Annotation.render) ++ "\x7d;"]) ++
  [property "c" (Name.instanceFlag name) ++ " = true;"] ++
  interfaces.map fun i => "rt.implement(c, " ++ (Expr.object i false).render ++ ");"

lemma renderReflection_eq (w : Writer) (name : String) (interfaces : List String) (access : UInt16)
    (annotations : List Annotation) :
    renderReflection w name interfaces access annotations =
      (w.lines (reflectionLines name interfaces access annotations)).ends "\x7d" := by
  simp only [renderReflection, reflectionLines, Writer.lines, List.foldl_append, List.isEmpty_map]
  split <;> split <;> rfl

end Piece

lemma Writer.margin_succ (n : Nat) : margin (n + 1) = margin n ++ "  " := by
  have htwo : "  " = String.ofList (List.replicate 2 ' ') := by decide
  rw [margin, margin, htwo, ← String.ofList_append, List.replicate_append_replicate, Nat.mul_succ]

lemma Writer.lines_append (w : Writer) (ss ts : List String) :
    w.lines (ss ++ ts) = (w.lines ss).lines ts := List.foldl_append

namespace Invokers

/-- The selector of a method name: a function that sets the target and the name. -/
def selector (m : String) : List String :=
  [property "invoker" m ++ " = function(target) \x7b",
    "  invoker.target = target;",
    "  invoker.method = " ++ Quoted.text m ++ ";",
    "  return invoker;",
    "\x7d;"]

/-- The invoker, and one selector for each name, in the order of the names. -/
def lines (names : List String) : List String :=
  ["var invoker = function Invoker() \x7b",
    "  return Invoker.target[Invoker.method].apply(Invoker.target, arguments);",
    "\x7d;"] ++ names.flatMap selector

def text (t : Invokers) (level : Nat) : String :=
  if t.names.isEmpty then ""
  else String.join ((lines t.names).map fun s => Writer.margin level ++ s ++ "\n")

lemma renderTrampoline_eq (w : Writer) : renderTrampoline w = w.lines (lines []) := by
  simp [renderTrampoline, lines, Writer.lines, Writer.begins, Writer.ends,
    Writer.line, Writer.enter, Writer.leave, Writer.margin_succ, String.append_assoc]

lemma renderSelector_eq (w : Writer) (m : String) : renderSelector w m = w.lines (selector m) := by
  have hmethod (rest : String) :
      "  invoker.method = " ++ rest = "  " ++ ("invoker.method = " ++ rest) := by
    rw [← String.append_assoc]
    rfl
  simp [renderSelector, selector, Writer.lines, Writer.begins, Writer.ends, Writer.line,
    Writer.enter, Writer.leave, Writer.margin_succ, String.append_assoc, hmethod]

lemma render_eq (w : Writer) (t : Invokers) : render w t = w.lines (t.names.flatMap selector) := by
  obtain ⟨names⟩ := t
  simp only [render]
  induction names generalizing w with
  | nil => rfl
  | cons name names ih =>
    rw [List.foldl_cons, ih, renderSelector_eq, List.flatMap_cons, Writer.lines_append]

def header (m : String) : String := property "invoker" m ++ " = function(target) \x7b"

lemma header_injective : Function.Injective header := by
  intro m n h
  exact property_injective "invoker" ((String.append_left_inj _).mp h)

lemma head?_header (m : String) : (header m).toList.head? = some 'i' := by
  rw [header, property, bracket]
  split <;> simp

/-- No line of a selector but the first is the first line of one. -/
lemma count_selector (m n : String) : (selector m).count (header n) = if m = n then 1 else 0 := by
  have hother {line : String} (h : line.toList.head? ≠ some 'i') : line ≠ header n := fun heq =>
    h (by rw [heq, head?_header])
  have htarget : "  invoker.target = target;" ≠ header n := hother (by decide)
  have hmethod : "  invoker.method = " ++ Quoted.text m ++ ";" ≠ header n := hother (by simp)
  have hreturn : "  return invoker;" ≠ header n := hother (by decide)
  have hend : "\x7d;" ≠ header n := hother (by decide)
  rw [selector, ← header]
  simp [List.count_cons, htarget, hmethod, hreturn, hend, header_injective.eq_iff]

/-- **Each name has one selector for each time it is listed.** -/
lemma count_lines (names : List String) (m : String) :
    (lines names).count (header m) = names.count m := by
  have hinvoker : (lines []).count (header m) = 0 := by
    have hall : (lines []).all (fun line => line.toList.head? != some 'i') = true := by decide
    refine List.count_eq_zero_of_not_mem fun hmem => ?_
    have hhead := List.all_eq_true.mp hall _ hmem
    rw [head?_header] at hhead
    cases hhead
  have hlines : lines names = lines [] ++ names.flatMap selector := rfl
  rw [hlines, List.count_append, hinvoker, Nat.zero_add]
  induction names with
  | nil => rfl
  | cons name names ih =>
    rw [List.flatMap_cons, List.count_append, count_selector, ih rfl, List.count_cons]
    simp [Nat.add_comm]

lemma text_eq (w : Writer) (t : Invokers) :
    (if t.names.isEmpty then w else render (renderTrampoline w) t) =
      { w with text := w.text ++ t.text w.indent } := by
  rw [text]
  split
  · simp
  · have hlines : render (renderTrampoline w) t = w.lines (lines t.names) := by
      rw [render_eq, renderTrampoline_eq, ← Writer.lines_append]
      rfl
    rw [hlines, Writer.lines_eq]

end Invokers

namespace Program

def dataLine (d : String × Bytes) : String :=
  "rt.resource(" ++ Quoted.text d.1 ++ ", " ++ Quoted.text (Base64.text d.2) ++ ");"

/-- **The text of a program:** its definitions, the invoker, its scripts and data, and the calls
of the initializers. -/
lemma render_eq (p : Program) :
    ∃ level, p.render = opening Support.text p.mode ++
      (p.items.foldl Item.render { indent := indent p.mode }).text ++ p.invokers.text level ++
      String.join ((p.scripts ++ p.data.map dataLine).map fun s =>
        Writer.margin level ++ s ++ "\n") ++
      String.join (p.initializers.map fun call => Writer.margin level ++ call ++ "\n") ++
      closing p.compiled p.mode := by
  refine ⟨(p.items.foldl Item.render { indent := indent p.mode }).indent, ?_⟩
  have hparts (w : Writer) : p.renderParts w = Writer.lines (.lines (.lines
      (if p.invokers.names.isEmpty then p.items.foldl Item.render w
        else Invokers.render (Invokers.renderTrampoline (p.items.foldl Item.render w)) p.invokers)
      p.scripts) (p.data.map dataLine)) p.initializers := rfl
  rw [render, renderWith, hparts, Invokers.text_eq]
  simp [Writer.lines_eq, String.append_assoc]

end Program

end ClassScript
