import ClassScript.Proofs.BracketedText
import ClassScript.Proofs.Rendering

/-!
The classes that annotation data name.

The data of an annotation are arrays that start with a tag. An enumerated value has the name of
its class behind the tag, and a class value behind its descriptor, if it is a class; both names
stand in literals. `scan` reads them off a text, and off the text that makes a class object it
reads the classes of the kept annotations.
-/

namespace ClassScript

/-! ### Reading the names off a text -/

namespace AnnotationData

/-- What the next literal is: the tag of an array, the class of an enumerated value, a descriptor,
the class that it describes, or nothing of these. -/
inductive Next where
  | other | tag | enumClass | descriptor | described
  deriving DecidableEq, Repr

def units (t : String) : List UInt16 := t.toList.flatMap Utf16.units

namespace Next

def mark (q : Next) (c : Char) : Next :=
  if c = '[' then tag else if c = ',' ∨ c = ' ' then q else other

/-- After a literal, with the class that it names. -/
def literal (us : List UInt16) : Next → Next × List (List UInt16)
  | other => (other, [])
  | tag => (if us = units "e" then enumClass else if us = units "c" then descriptor else other, [])
  | enumClass | described => (other, [us])
  | descriptor => (described, [])

end Next

/-- The names of classes in a text, and what comes next after it, if each literal has an end. -/
def scan (q : Next) : List Char → Option (Next × List (List UInt16))
  | [] => some (q, [])
  | c :: r =>
    if c = '\'' then
      match _ : Quoted.readBody r with
      | some (us, after) =>
        (scan (q.literal us).1 after).map fun x => (x.1, (q.literal us).2 ++ x.2)
      | none => none
    else scan (q.mark c) r
termination_by t => t.length
decreasing_by
  · have hlt := Quoted.length_readBody ‹_›
    simp only [List.length_cons]
    omega
  · simp

def classes (text : String) : Option (List (List UInt16)) := (scan .other text.toList).map Prod.snd

lemma scan_nil (q : Next) : scan q [] = some (q, []) := by
  rw [scan]

lemma scan_cons {c : Char} (h : c ≠ '\'') (q : Next) (r : List Char) :
    scan q (c :: r) = scan (q.mark c) r := by
  rw [scan, if_neg h]

lemma scan_literal {t r : List Char} {us : List UInt16} (h : Quoted.readBody t = some (us, r))
    (q : Next) :
    scan q ('\'' :: t) = (scan (q.literal us).1 r).map fun x => (x.1, (q.literal us).2 ++ x.2) := by
  rw [scan, if_pos rfl]
  split
  next h' =>
    cases h.symm.trans h'
    rfl
  next h' => cases h.symm.trans h'

/-- A text is read on from where the text before it has led. -/
lemma scan_append {q q' : Next} {s t : List Char} {xs : List (List UInt16)}
    (h : scan q s = some (q', xs)) :
    scan q (s ++ t) = (scan q' t).map fun x => (x.1, xs ++ x.2) := by
  fun_induction scan q s generalizing xs with
  | case1 q =>
    cases h
    simp
  | case2 q r us after hread ih =>
    obtain ⟨⟨q'', ys⟩, hys, heq⟩ := Option.map_eq_some_iff.mp h
    cases heq
    rw [List.cons_append, scan_literal (Quoted.readBody_append hread t), ih hys, Option.map_map]
    congr 1
    funext x
    simp
  | case3 => cases h
  | case4 q c r hc ih => rw [List.cons_append, scan_cons hc, ih h]

/-- The text, read where `q` comes next, names the classes of `xs`, and then `q'` comes next. -/
def Scans (q : Next) (t : String) (xs : List (List UInt16)) (q' : Next) : Prop :=
  scan q t.toList = some (q', xs)

namespace Scans

variable {q q' q'' : Next} {s t : String} {xs ys : List (List UInt16)}

lemma append (h : Scans q s xs q') (h' : Scans q' t ys q'') : Scans q (s ++ t) (xs ++ ys) q'' := by
  rw [Scans, String.toList_append, scan_append h, h', Option.map_some]

/-- A text without literals. -/
lemma fixed (hquote : t.toList.contains '\'' = false) (h : t.toList.foldl Next.mark q = q') :
    Scans q t [] q' := by
  rw [Scans]
  have hquote : '\'' ∉ t.toList := by simpa using hquote
  generalize t.toList = cs at h hquote
  induction cs generalizing q with
  | nil =>
    cases h
    exact scan_nil q
  | cons c cs ih =>
    rw [List.mem_cons, not_or] at hquote
    rw [scan_cons (Ne.symm hquote.1)]
    exact ih h hquote.2

/-- Text in which no array starts. -/
lemma other (h : ∀ c ∈ t.toList, c ≠ '[' ∧ c ≠ '\'') : Scans .other t [] .other := by
  refine fixed ?_ ?_
  · simpa using fun hmem => (h _ hmem).2 rfl
  · generalize t.toList = cs at h
    induction cs with
    | nil => rfl
    | cons c cs ih =>
      obtain ⟨hc, hcs⟩ := List.forall_mem_cons.mp h
      have hmark : Next.other.mark c = .other := by
        rw [Next.mark, if_neg hc.1]
        split_ifs <;> rfl
      rw [List.foldl_cons, hmark]
      exact ih hcs

lemma quoted (q : Next) (text : String) :
    Scans q (Quoted.text text) (q.literal (units text)).2 (q.literal (units text)).1 := by
  have hread := Quoted.readBody_flatMap_escape text.toList []
  rw [Scans, Quoted.text, String.toList_ofList, Quoted.chars, List.cons_append,
    scan_literal hread, scan_nil]
  simp [units]

/-- Texts that are separated by commas, and what ends them. -/
lemma list {α : Type} {l : List α} {text : α → String} {f : α → List (List UInt16)}
    (h : ∀ a ∈ l, Scans q (text a) (f a) .other ∧ Scans .other (text a) (f a) .other)
    (hend : ∀ q, Scans q s [] .other) :
    Scans q (", ".intercalate (l.map text) ++ s) (l.flatMap f) .other := by
  induction l generalizing q with
  | nil => simpa using hend q
  | cons a l ih =>
    obtain ⟨⟨ha, -⟩, hl⟩ := List.forall_mem_cons.mp h
    cases l with
    | nil =>
      have hlast := ha.append (hend .other)
      simpa using hlast
    | cons b l =>
      have hcomma : Scans .other ", " [] .other := fixed rfl rfl
      have hrest := ih fun x hx => ⟨(hl x hx).2, (hl x hx).2⟩
      have hfirst := (ha.append hcomma).append hrest
      rw [List.append_nil] at hfirst
      rw [List.map_cons, List.map_cons, String.intercalate_cons_cons, List.flatMap_cons]
      simpa only [String.append_assoc, List.map_cons] using hfirst

end Scans

def ids (names : List String) : List (List UInt16) :=
  names.map fun name => units (Name.ofClass name)

lemma scans_square (q : Next) : Scans q "]" [] .other := .fixed rfl rfl

lemma scans_neutral {t : String} (h : Brackets.Neutral t) : Scans .other t [] .other := by
  refine .other fun c hc => ?_
  have hmarks := Brackets.not_mem_marks (h c hc)
  constructor <;> rintro rfl <;> exact hmarks (by decide)

lemma scans_long (v : Int64) : Scans .other (Number.long v) [] .other := by
  have hopen : Scans .other "rt.long(" [] .other := .fixed rfl rfl
  have hcomma : Scans .other ", " [] .other := .fixed rfl rfl
  have hend : Scans .other ")" [] .other := .fixed rfl rfl
  exact (((hopen.append (scans_neutral (Number.neutral_int _))).append hcomma).append
    (scans_neutral (Number.neutral_nat _))).append hend

/-- The tag of a value tells what the next literal is. -/
lemma scans_tag (tag : Char) {t : String}
    (h : t.toList = ['[', '\'', tag, '\'', ',', ' '] ∧ Quoted.escape tag = [tag]) (q : Next) :
    Scans q t [] (Next.tag.literal (units (String.ofList [tag]))).1 := by
  have hopen : Scans q "[" [] .tag := .fixed rfl rfl
  have htag := hopen.append (.quoted .tag (String.ofList [tag]))
  have hcomma (q : Next) : Scans q ", " [] q := .fixed rfl rfl
  rw [Brackets.tag_eq tag h]
  exact htag.append (hcomma _)

end AnnotationData

/-! ### The data of annotations -/

namespace ElementValue

open AnnotationData

lemma classesOfElements_eq (es : List (String × ElementValue)) :
    classesOfElements es = es.flatMap fun e => e.2.classes := by
  induction es with
  | nil => rfl
  | cons e es ih => rw [classesOfElements, ih, List.flatMap_cons]

lemma classesOfAll_eq (vs : List ElementValue) : classesOfAll vs = vs.flatMap classes := by
  induction vs with
  | nil => rfl
  | cons v vs ih => rw [classesOfAll, ih, List.flatMap_cons]

/-- An element: its name, and its value. -/
lemma scans_element {e : String × ElementValue}
    (h : ∀ q, Scans q e.2.render (ids e.2.classes) .other) :
    Scans .other (Quoted.text e.1 ++ ": " ++ e.2.render) (ids e.2.classes) .other := by
  have hcolon : Scans .other ": " [] .other := .fixed rfl rfl
  exact ((Scans.quoted .other e.1).append hcolon).append (h .other)

/-- **The data of a value name its classes.** -/
lemma Tagged.scans {v : ElementValue} (h : v.Tagged) (q : Next) :
    Scans q v.render (ids v.classes) .other := by
  have hcomma (q : Next) : Scans q ", " [] q := .fixed rfl rfl
  induction h generalizing q with
  | @int tag h v =>
    have htag : Scans q ("['" ++ String.ofList [tag] ++ "', ") [] .other := by
      have hother : (Next.tag.literal (units (String.ofList [tag]))).1 = .other := by
        simp only [intTags, List.mem_cons, List.not_mem_nil, or_false] at h
        -- none of the integers' tags announces a class
        rcases h with rfl | rfl | rfl | rfl | rfl <;> decide
      exact hother ▸ scans_tag tag ⟨by simp, escape_intTags h⟩ q
    rw [render]
    exact (htag.append (scans_neutral (Number.neutral_int v))).append (scans_square _)
  | long v =>
    rw [render]
    exact ((scans_tag 'J' (by decide) q).append (scans_long v)).append (scans_square _)
  | float v =>
    rw [render]
    exact ((scans_tag 'F' (by decide) q).append
      (scans_neutral (Number.neutral_double v.widen))).append
      (scans_square _)
  | double v =>
    rw [render]
    exact ((scans_tag 'D' (by decide) q).append (scans_neutral (Number.neutral_double v))).append
      (scans_square _)
  | string s =>
    rw [render]
    exact ((scans_tag 's' (by decide) q).append (.quoted .other s)).append (scans_square _)
  | enumerated d name =>
    rw [render]
    have hclass := (scans_tag 'e' (by decide) q (t := "['e', ")).append
      (.quoted .enumClass (Name.ofClass (enumClass d)))
    exact ((hclass.append (hcomma _)).append (.quoted .other _)).append (scans_square _)
  | classInfo d =>
    rw [render, classes]
    have hdescriptor := (scans_tag 'c' (by decide) q (t := "['c', ")).append (.quoted .descriptor d)
    split
    -- only the descriptor of a class has a name behind it
    next name hname =>
      rw [hname]
      exact ((hdescriptor.append (hcomma _)).append (.quoted .described (Name.ofClass name))).append
        (scans_square _)
    next hname =>
      rw [hname]
      exact hdescriptor.append (scans_square _)
  | @nested d visible es h ih =>
    rw [render, classes, renderElements_eq, classesOfElements_eq, ids, List.map_flatMap]
    have hbrace : Scans .other ", \x7b" [] .other := .fixed rfl rfl
    have htype :=
      ((scans_tag '@' (by decide) q (t := "['@', ")).append (.quoted .other d)).append hbrace
    have helements := Scans.list (q := .other) (f := fun e => ids e.2.classes)
      (fun e he => ⟨scans_element (ih e he), scans_element (ih e he)⟩)
      fun q => (Scans.fixed rfl rfl : Scans q "\x7d]" [] .other)
    have hvalue := htype.append helements
    rwa [← String.append_assoc] at hvalue
  | @array vs h ih =>
    rw [render, classes, renderAll_eq, classesOfAll_eq, ids, List.map_flatMap]
    have hopen : "['[', " ++ "[" = "['[', [" := by decide
    have htag := (scans_tag '[' (by decide) q (t := "['[', ")).append (t := "[") (.fixed rfl rfl)
    rw [hopen] at htag
    have hvalues := Scans.list (q := .tag) (f := fun v => ids v.classes)
      (fun v hv => ⟨ih v hv _, ih v hv _⟩)
      fun q => (Scans.fixed rfl rfl : Scans q "]]" [] .other)
    have hvalue := htag.append hvalues
    rwa [← String.append_assoc] at hvalue

end ElementValue

namespace Annotation

open AnnotationData ElementValue

lemma Tagged.scans {a : Annotation} (h : a.Tagged) :
    Scans .other a.render (ids (classesOfElements a.elements)) .other := by
  rw [render, renderElements_eq, classesOfElements_eq, ids, List.map_flatMap]
  have hopen : Scans .other ": rt.annotation(\x7b" [] .other := .fixed rfl rfl
  have helements := Scans.list (q := .other) (f := fun e => ids e.2.classes)
    (fun e he => ⟨scans_element (h e he).scans, scans_element (h e he).scans⟩)
    fun q => (Scans.fixed rfl rfl : Scans q "\x7d)" [] .other)
  have hvalue := ((Scans.quoted .other a.descriptor).append hopen).append helements
  rwa [← String.append_assoc] at hvalue

end Annotation

/-! ### The class object -/

namespace AnnotationData

variable {q : Next} {object : String}

/-- A member of an object names no class in this way, whatever it is called. -/
lemma scans_property (h : Scans q object [] .other) (name : String) :
    Scans q (property object name) [] .other := by
  unfold property
  split_ifs with hplain
  · have hpoint : Scans .other "." [] .other := .fixed rfl rfl
    exact (h.append hpoint).append (scans_neutral (Identifier.neutral_of_isPlain hplain))
  · have hopen : Scans .other "[" [] .tag := .fixed rfl rfl
    exact ((h.append hopen).append (.quoted .tag name)).append (scans_square _)

lemma scans_object (q : Next) (name : String) (fresh : Bool) :
    Scans q (Expr.object name fresh).render [] .other := by
  have hvm : Scans q "vm" [] .other := .fixed rfl rfl
  refine (scans_property hvm _).append ?_
  cases fresh <;> exact .fixed rfl rfl

/-- Lines at the same margin name what they name one by one. -/
def ScansLines (n : Nat) (lines : List String) (xs : List (List UInt16)) : Prop :=
  Scans .other (String.join (lines.map fun s => Writer.margin n ++ s ++ "\n")) xs .other

namespace ScansLines

variable {n : Nat} {ls ms : List String} {xs ys : List (List UInt16)} {s : String}

lemma nil : ScansLines n [] [] := scan_nil _

lemma cons (h : Scans .other s xs .other) (h' : ScansLines n ls ys) :
    ScansLines n (s :: ls) (xs ++ ys) := by
  have hmargin : Scans .other (Writer.margin n) [] .other := by
    refine .other fun c hc => ?_
    rw [Writer.margin, String.toList_ofList] at hc
    rw [List.eq_of_mem_replicate hc]
    decide
  have hend : Scans .other "\n" [] .other := .fixed rfl rfl
  have hline := ((hmargin.append h).append hend).append h'
  rw [List.nil_append, List.append_nil] at hline
  simpa [ScansLines] using hline

lemma append (h : ScansLines n ls xs) (h' : ScansLines n ms ys) :
    ScansLines n (ls ++ ms) (xs ++ ys) := by
  have hlines := Scans.append h h'
  simpa [ScansLines] using hlines

lemma quiet (h : ∀ s ∈ ls, Scans .other s [] .other) : ScansLines n ls [] := by
  induction ls with
  | nil => exact nil
  | cons s ls ih =>
    obtain ⟨hs, hls⟩ := List.forall_mem_cons.mp h
    exact cons hs (ih hls)

end ScansLines

end AnnotationData

namespace Piece

open AnnotationData
open Annotation (kept)

/-- **What the text of a class object names in its annotation data** are the classes of the kept
annotations, in their order. -/
lemma classes_reflection (w : Writer) (name : String) (interfaces : List String) (access : UInt16)
    {annotations : List Annotation} (h : ∀ a ∈ annotations, a.Tagged) :
    ∃ text, (render w (.reflection name interfaces access annotations)).text = w.text ++ text ∧
      AnnotationData.classes text = some (ids <| Annotation.classes annotations) := by
  have hsemicolon : Scans .other ";" [] .other := .fixed rfl rfl
  have hhead : ScansLines w.indent ["CLS.$class = " ++ (Expr.object classClass true).render ++ ";",
      "CLS.$class.jvmName = " ++ Quoted.text name ++ ";",
      "CLS.$class.superclass = sprcls;"] [] := by
    have hobject : Scans .other "CLS.$class = " [] .other := .fixed rfl rfl
    have hname : Scans .other "CLS.$class.jvmName = " [] .other := .fixed rfl rfl
    exact .cons ((hobject.append (scans_object _ _ _)).append hsemicolon) <|
      .cons ((hname.append (.quoted .other name)).append hsemicolon) <| .cons (.fixed rfl rfl) .nil
  have hinterfaces : ScansLines w.indent (if interfaces.isEmpty then []
      else ["CLS.$class.interfaces = function() \x7b return [" ++
        ", ".intercalate (interfaces.map fun i => (Expr.classObject i).render) ++ "]; \x7d;"])
        [] := by
    split
    · exact .nil
    · have hopen : Scans .other "CLS.$class.interfaces = function() \x7b return [" [] .tag :=
        .fixed rfl rfl
      have hobject (i : String) (q : Next) : Scans q (Expr.classObject i).render [] .other :=
        scans_property (scans_property (scans_object q i false) _) _
      have hlist :=
        Scans.list (q := .tag) (f := fun _ => []) (fun i (_ : i ∈ interfaces) =>
          ⟨hobject i _, hobject i _⟩)
        fun q => (Scans.fixed rfl rfl : Scans q "]; \x7d;" [] .other)
      rw [List.flatMap_eq_nil_iff.mpr fun _ _ => rfl] at hlist
      have hline := ScansLines.cons (n := w.indent) (hopen.append hlist) .nil
      simpa [String.append_assoc] using hline
  have hnumbers : ScansLines w.indent ["CLS.$class.access = " ++ toString access.toNat ++ ";",
      "CLS.$class.cnstr = CLS;"] [] := by
    have haccess : Scans .other "CLS.$class.access = " [] .other := .fixed rfl rfl
    exact .cons ((haccess.append (scans_neutral (Number.neutral_nat _))).append hsemicolon) <|
      .cons (.fixed rfl rfl) .nil
  -- of all the lines, only this one has the tags that announce classes
  have hdata : ScansLines w.indent (if (kept annotations).isEmpty then []
      else ["CLS.$class.anno = \x7b" ++
        ", ".intercalate ((kept annotations).map Annotation.render) ++ "\x7d;"])
      (ids <| Annotation.classes annotations) := by
    have hclasses : (ids <| Annotation.classes annotations) =
        (kept annotations).flatMap fun a => ids (ElementValue.classesOfElements a.elements) :=
      List.map_flatMap
    rw [hclasses]
    split
    next hnone =>
      rw [List.isEmpty_iff.mp hnone]
      exact .nil
    next =>
      have hopen : Scans .other "CLS.$class.anno = \x7b" [] .other := .fixed rfl rfl
      have hkept : ∀ a ∈ kept annotations, a.Tagged :=
        fun a ha => h a (List.mem_filter.mp ha).1
      have hlist := Scans.list (q := .other) (fun a ha => ⟨(hkept a ha).scans, (hkept a ha).scans⟩)
        fun q => (Scans.fixed rfl rfl : Scans q "\x7d;" [] .other)
      have hline := ScansLines.cons (n := w.indent) (hopen.append hlist) .nil
      simpa [String.append_assoc] using hline
  have hflag : ScansLines w.indent [property "c" (Name.instanceFlag name) ++ " = true;"] [] :=
    .cons ((scans_property (.fixed rfl rfl) _).append (.fixed rfl rfl)) .nil
  have himplement : ScansLines w.indent (interfaces.map fun i =>
      "rt.implement(c, " ++ (Expr.object i false).render ++ ");") [] := by
    have hopen : Scans .other "rt.implement(c, " [] .other := .fixed rfl rfl
    exact .quiet (List.forall_mem_map.mpr fun i _ =>
      (hopen.append (scans_object _ _ _)).append (.fixed rfl rfl))
  have hlines : ScansLines w.indent (reflectionLines name interfaces access annotations)
      (ids <| Annotation.classes annotations) := by
    have hall :=
      ((((hhead.append hinterfaces).append hnumbers).append hdata).append hflag).append himplement
    simp only [List.nil_append, List.append_nil] at hall
    exact hall
  have hend : ScansLines (w.indent - 1) ["\x7d"] [] := .cons (.fixed rfl rfl) .nil
  have htext := Scans.append hlines hend
  rw [List.append_nil] at htext
  refine ⟨_, ?_, by rw [AnnotationData.classes, htext, Option.map_some]⟩
  rw [render, renderReflection_eq, Writer.ends, Writer.line, Writer.leave, Writer.lines_eq]
  simp [String.append_assoc]

end Piece

end ClassScript
