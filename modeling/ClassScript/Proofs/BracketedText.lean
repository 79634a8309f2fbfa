import ClassScript.Proofs.AnnotationTags
import ClassScript.Proofs.Brackets

/-!
The texts of numbers, names, expressions and annotations, with their brackets in order.

Numbers and identifiers have no brackets and no quotes. Whatever else a class file spells reaches
the script inside a literal, so a text is closed as soon as what stands around its literals is.
-/

namespace ClassScript

open Brackets

namespace Brackets

lemma closed_comma : Closed ", " := .of_scan rfl rfl

lemma fits_paren : Fits ")" [')'] [] := .of_scan rfl rfl

lemma fits_square : Fits "]" [']'] [] := .of_scan rfl rfl

end Brackets

/-! ### Numbers -/

namespace Number

def isDigital (c : Char) : Bool := c.isDigit || c == '.' || c == '-' || c == 'e'

/-- What a number is written with, unless it is written as a word. -/
def Digital (t : String) : Prop := ∀ c ∈ t.toList, isDigital c = true

lemma Digital.append {s t : String} (h : Digital s) (h' : Digital t) : Digital (s ++ t) := by
  intro c hc
  rw [String.toList_append, List.mem_append] at hc
  exact hc.elim (h c) (h' c)

lemma digital_ofList {cs : List Char} :
    Digital (String.ofList cs) ↔ ∀ c ∈ cs, isDigital c = true := by
  rw [Digital, String.toList_ofList]

lemma digital_of_all {t : String} (h : t.toList.all isDigital = true) : Digital t :=
  List.all_eq_true.mp h

lemma Digital.neutral {t : String} (h : Digital t) : Neutral t := by
  intro c hc
  have hc := h c hc
  simp only [isDigital, Bool.or_eq_true, beq_iff_eq, or_assoc] at hc
  obtain hdigit | rfl | rfl | rfl := hc
  · apply isNeutral_of_isPart
    simp [Identifier.isPart, Char.isAlphanum, hdigit]
  all_goals decide

lemma isDigit_nat (n : Nat) : ∀ c ∈ (toString n).toList, c.isDigit = true := by
  intro c hc
  have hrepr : (toString n).toList = Nat.toDigits 10 n := Nat.toList_repr
  rw [hrepr] at hc
  exact Nat.isDigit_of_mem_toDigits (by decide) (by decide) hc

lemma digital_nat (n : Nat) : Digital (toString n) :=
  fun c hc => by simp [isDigital, isDigit_nat n c hc]

lemma digital_toString (i : Int) : Digital (toString i) := by
  cases i with
  | ofNat n => exact digital_nat n
  | negSucc n => exact (digital_of_all (by decide)).append (digital_nat (n + 1))

lemma digital_zeros (n : Nat) : Digital (String.ofList (List.replicate n '0')) := by
  rw [digital_ofList]
  intro c hc
  rw [List.eq_of_mem_replicate hc]
  decide

lemma digital_positional {digits : String} (h : Digital digits) (exponent : Int) :
    Digital (positional digits exponent) := by
  simp only [positional]
  split_ifs
  · exact ((digital_of_all (by decide)).append (digital_zeros _)).append h
  · exact (h.append (digital_zeros _)).append (digital_of_all (by decide))
  · have htake (n : Nat) : Digital (String.ofList (digits.toList.take n)) :=
      digital_ofList.mpr fun c hc => h c (List.mem_of_mem_take hc)
    have hdrop (n : Nat) : Digital (String.ofList (digits.toList.drop n)) :=
      digital_ofList.mpr fun c hc => h c (List.mem_of_mem_drop hc)
    exact ((htake _).append (digital_of_all (by decide))).append (hdrop _)

lemma digital_scientific {digits : String} (h : Digital digits) (exponent : Int) :
    Digital (scientific digits exponent) := by
  have hpoint : isDigital '.' = true := by decide
  simp only [scientific]
  refine (Digital.append ?_ (digital_of_all (by decide))).append (digital_toString exponent)
  unfold Digital at h
  split
  next => exact digital_of_all (by decide)
  next d hd =>
    rw [digital_ofList, ← hd]
    exact h
  next d ds _ hds =>
    rw [hds] at h
    obtain ⟨hd, hrest⟩ := List.forall_mem_cons.mp h
    rw [digital_ofList]
    exact List.forall_mem_cons.mpr ⟨hd, List.forall_mem_cons.mpr ⟨hpoint, hrest⟩⟩

lemma digital_magnitude (m : Nat) (e : Int) : Digital (magnitude m e) := by
  have hdigits := digital_nat (Shortest.decimal m e).1
  simp only [magnitude]
  split_ifs
  · exact digital_positional hdigits _
  · exact digital_scientific hdigits _

lemma neutral_nat (n : Nat) : Neutral (toString n) := (digital_nat n).neutral

lemma neutral_toString (i : Int) : Neutral (toString i) := (digital_toString i).neutral

lemma neutral_int (v : Int32) : Neutral (int v) := neutral_toString v.toInt

lemma neutral_double (x : Binary64) : Neutral (double x) := by
  unfold double
  split
  iterate 5 exact neutral_of_all (by decide)
  · refine Neutral.append ?_ (digital_magnitude _ _).neutral
    split_ifs <;> exact neutral_of_all (by decide)

lemma closed_long (v : Int64) : Closed (long v) := by
  have hopen : Fits "rt.long(" [] [')'] := .of_scan rfl rfl
  have hhigh := (neutral_int (split v).1).closed
  have hlow := (neutral_nat (split v).2.toNat).closed
  exact (((hopen.append (hhigh.fits _)).append (closed_comma.fits _)).append (hlow.fits _)).append
    fits_paren

end Number

/-! ### Names -/

namespace Name

lemma isPart_hexDigit : ∀ d < 16, Identifier.isPart (Quoted.hexDigit d) = true := by decide

/-- Escapes are made of what an identifier may be made of. -/
lemma isPart_escape {c x : Char} (h : x ∈ escape c) : Identifier.isPart x = true := by
  have htwo {a b : Char} (ha : Identifier.isPart a = true) (hb : Identifier.isPart b = true)
      (hx : x ∈ [a, b]) :
      Identifier.isPart x = true := by
    simp only [List.mem_cons, List.not_mem_nil, or_false] at hx
    rcases hx with rfl | rfl
    · exact ha
    · exact hb
  unfold escape at h
  split_ifs at h with hplain
  · rw [List.mem_singleton] at h
    subst h
    simp only [Bool.or_eq_true] at hplain
    rcases hplain with hplain | hplain <;> simp [Identifier.isPart, hplain]
  · rw [List.mem_singleton] at h
    subst h
    decide
  iterate 3 exact htwo (by decide) (by decide) h
  -- any other character is spelled by its units in hexadecimal
  · obtain ⟨u, -, hx⟩ := List.mem_flatMap.mp h
    simp only [List.mem_cons] at hx
    rcases hx with rfl | rfl | hx
    · decide
    · decide
    · obtain ⟨d, hd, rfl⟩ := Quoted.mem_hex hx
      exact isPart_hexDigit d hd

lemma isPart_ofClass (name : String) : ∀ x ∈ (ofClass name).toList, Identifier.isPart x = true := by
  rw [ofClass, String.toList_ofList]
  intro x hx
  obtain ⟨c, -, hx⟩ := List.mem_flatMap.mp hx
  exact isPart_escape hx

lemma neutral_ofClass (name : String) : Neutral (ofClass name) :=
  fun x hx => isNeutral_of_isPart (isPart_ofClass name x hx)

end Name

lemma Identifier.isPart_of_isPlain {name : String} (h : isPlain name = true) :
    ∀ x ∈ name.toList, isPart x = true := by
  unfold isPlain at h
  intro x hx
  split at h
  next hname => simp [hname] at hx
  next c cs hname =>
    simp only [Bool.and_eq_true, List.all_eq_true] at h
    rw [hname, List.mem_cons] at hx
    rcases hx with rfl | hx
    · simp only [isStart, isPart, Char.isAlphanum, Bool.or_eq_true] at h ⊢
      tauto
    · exact h.1.2 x hx

lemma Identifier.neutral_of_isPlain {name : String} (h : isPlain name = true) : Neutral name :=
  fun x hx => isNeutral_of_isPart (isPart_of_isPlain h x hx)

lemma closed_bracket {object : String} (h : Closed object) (name : String) :
    Closed (bracket object name) := by
  have hopen : Fits "[" [] [']'] := .of_scan rfl rfl
  exact (((h.fits []).append hopen).append ((closed_quoted name).fits _)).append fits_square

lemma closed_property {object : String} (h : Closed object) (name : String) :
    Closed (property object name) := by
  unfold property
  split_ifs with hplain
  · exact (h.append (.of_scan rfl rfl)).append (Identifier.neutral_of_isPlain hplain).closed
  · exact closed_bracket h name

/-- Closed texts, separated by commas. -/
lemma closed_list {texts : List String} (h : ∀ t ∈ texts, Closed t) :
    Closed (", ".intercalate texts) :=
  .intercalate h closed_comma

lemma closed_call {callee : String} (h : Closed callee) {args : List String}
    (hargs : ∀ t ∈ args, Closed t) :
    Closed (call callee args) := by
  have hopen : Fits "(" [] [')'] := .of_scan rfl rfl
  exact (((h.fits []).append hopen).append ((closed_list hargs).fits _)).append fits_paren

lemma closed_classFunction (name : String) : Closed (classFunction name) :=
  closed_property (.of_scan rfl rfl) _

/-! ### Expressions -/

lemma Literal.closed (l : Literal) : Closed l.render := by
  cases l with
  | null => exact .of_scan rfl rfl
  | int v => exact (Number.neutral_int v).closed
  | long v => exact Number.closed_long v
  | float v => exact (Number.neutral_double v.widen).closed
  | double v => exact (Number.neutral_double v).closed
  | text s => exact closed_quoted s

lemma Var.isPart_name (v : Var) : ∀ c ∈ v.name.toList, Identifier.isPart c = true := by
  have hname {start : String} (h : start.toList.all Identifier.isPart = true) (n : Nat) :
      ∀ c ∈ (start ++ toString n).toList, Identifier.isPart c = true := by
    rw [String.toList_append]
    refine List.forall_mem_append.mpr ⟨List.all_eq_true.mp h, fun c hc => ?_⟩
    simp [Identifier.isPart, Char.isAlphanum, Number.isDigit_nat n c hc]
  cases v with
  | operand k depth => exact hname (by cases k <;> decide) depth
  | slot k index => exact hname (by cases k <;> decide) index.toNat
  | temp n => exact hname (by decide) n

lemma Var.neutral (v : Var) : Neutral v.name := fun c hc => isNeutral_of_isPart (v.isPart_name c hc)

lemma Atom.closed (a : Atom) : Closed a.render := by
  cases a with
  | var v => exact v.neutral.closed
  | lit l => exact l.closed

lemma Atom.closed_map (args : List Atom) : ∀ t ∈ args.map Atom.render, Closed t :=
  List.forall_mem_map.mpr fun a _ => a.closed

lemma Helper.closed (h : Helper) : Closed ("rt." ++ h.name) := by
  have hname : Neutral h.name := by
    apply neutral_of_all
    cases h with
    | arith32 op | arith64 op | shift64 op | logic64 op => cases op <;> decide
    | _ => decide
  exact (Closed.append (.of_scan rfl rfl) hname.closed)

/-- Two closed texts with an operator between them. -/
lemma closed_operator {a b op : String} (ha : Closed a) (hop : Closed op) (hb : Closed b) :
    Closed (a ++ " " ++ op ++ " " ++ b) := by
  have hblank : Closed " " := .of_scan rfl rfl
  exact (((ha.append hblank).append hop).append hblank).append hb

namespace Expr

/-- **The brackets of an expression are closed in it.** -/
lemma closed (e : Expr) : Closed e.render := by
  induction e with
  | atom a => exact a.closed
  | helper h args => exact closed_call h.closed (Atom.closed_map args)
  | fround e ih => exact ih.within [')'] (.of_scan rfl rfl) fits_paren
  | binary op a b =>
    have hop : Closed op.symbol := by
      cases op with
      | arith op | shift op | logic op => cases op <;> exact .of_scan rfl rfl
    exact closed_operator a.closed hop b.closed
  | negate a => exact a.closed.within [')'] (.of_scan rfl rfl) fits_paren
  | wrap e ih => exact ih.within [')'] (.of_scan rfl rfl) (.of_scan rfl rfl)
  | multiArray d counts =>
    have hopen : Fits "rt.multiArray(" [] [')'] := .of_scan rfl rfl
    have hlist : Fits ", [" [')'] [']', ')'] := .of_scan rfl rfl
    have hclose : Fits "])" [']', ')'] [] := .of_scan rfl rfl
    have hcounts := closed_list (Atom.closed_map counts)
    exact (((hopen.append ((closed_quoted d).fits _)).append hlist).append (hcounts.fits _)).append
      hclose
  | arrayClass d => exact (closed_quoted d).within [')'] (.of_scan rfl rfl) fits_paren
  | put array index value ih =>
    refine closed_call (.of_scan rfl rfl) fun t ht => ?_
    simp only [List.mem_cons, List.not_mem_nil, or_false] at ht
    rcases ht with rfl | rfl | rfl
    · exact array.closed
    · exact index.closed
    · exact ih
  | object name fresh =>
    refine (closed_classFunction name).append ?_
    cases fresh <;> exact .of_scan rfl rfl
  | invoker => exact .of_scan rfl rfl
  | member e form name ih =>
    cases form with
    | plain => exact closed_property ih name
    | quoted => exact closed_bracket ih name
  | call f args ih => exact closed_call ih (Atom.closed_map args)

end Expr

lemma Comparison.closed (c : Comparison) : Closed c.render := by
  refine closed_operator c.left.closed ?_ c.right.closed
  cases c.op <;> exact .of_scan rfl rfl

lemma Stmt.closed_index {key : String} (h : Closed key) (low : Int32) : Closed (index key low) := by
  unfold index
  split_ifs
  · exact h
  · exact (h.append (.of_scan rfl rfl)).append (Number.neutral_toString _).closed
  · exact (h.append (.of_scan rfl rfl)).append (Number.neutral_toString _).closed

lemma CatchClause.closed_test (c : CatchClause) : Closed c.test := by
  have hstart := (Number.neutral_nat c.start).closed
  have hstop := (Number.neutral_nat c.stop).closed
  have hrange :=
    ((Closed.append (s := "gt >= ") (.of_scan rfl rfl) hstart).append (t := " && gt < ")
      (.of_scan rfl rfl)).append hstop
  unfold test
  split
  · exact hrange
  · exact hrange
  · exact (hrange.append (.of_scan rfl rfl)).append (closed_property (.of_scan rfl rfl) _)

lemma Exporter.closed_statement {dest : String} (h : Closed dest) (name : String) :
    Closed (statement dest name) :=
  (((closed_bracket h name).append (.of_scan rfl rfl)).append (closed_property h name)).append
    (.of_scan rfl rfl)

/-! ### Annotations -/

/-- The tag of a value stands in quotes of its own. -/
lemma Brackets.tag_eq (tag : Char) {t : String}
    (h : t.toList = ['[', '\'', tag, '\'', ',', ' '] ∧ Quoted.escape tag = [tag]) :
    t = "[" ++ Quoted.text (String.ofList [tag]) ++ ", " := by
  rw [← String.toList_inj, h.1]
  simp [Quoted.text, Quoted.chars, h.2]

lemma Brackets.fits_tag (tag : Char) {t : String}
    (h : t.toList = ['[', '\'', tag, '\'', ',', ' '] ∧ Quoted.escape tag = [tag]) :
    Fits t [] [']'] := by
  have hopen : Fits "[" [] [']'] := .of_scan rfl rfl
  rw [tag_eq tag h]
  exact (hopen.append ((closed_quoted _).fits _)).append (closed_comma.fits _)

namespace ElementValue

lemma renderElements_eq (es : List (String × ElementValue)) :
    renderElements es = es.map fun e => Quoted.text e.1 ++ ": " ++ e.2.render := by
  induction es with
  | nil => rfl
  | cons e es ih => rw [renderElements, ih, List.map_cons]

lemma renderAll_eq (vs : List ElementValue) : renderAll vs = vs.map render := by
  induction vs with
  | nil => rfl
  | cons v vs ih => rw [renderAll, ih, List.map_cons]

/-- The data of an element of an annotation. -/
lemma closed_elements {es : List (String × ElementValue)} (h : ∀ e ∈ es, Closed e.2.render) :
    ∀ t ∈ renderElements es, Closed t := by
  have hcolon : Closed ": " := .of_scan rfl rfl
  rw [renderElements_eq]
  exact List.forall_mem_map.mpr fun e he => ((closed_quoted e.1).append hcolon).append (h e he)

lemma escape_intTags {tag : Char} (h : tag ∈ intTags) : Quoted.escape tag = [tag] := by
  simp only [intTags, List.mem_cons, List.not_mem_nil, or_false] at h
  rcases h with rfl | rfl | rfl | rfl | rfl <;> decide

lemma Tagged.closed {v : ElementValue} (h : v.Tagged) : Closed v.render := by
  induction h with
  | @int tag h v =>
    rw [render]
    have htag := fits_tag tag (t := "['" ++ String.ofList [tag] ++ "', ")
      ⟨by simp, escape_intTags h⟩
    exact (Number.neutral_int v).closed.within [']'] htag fits_square
  | long v =>
    rw [render]
    exact (Number.closed_long v).within [']'] (fits_tag 'J' (by decide)) fits_square
  | float v =>
    rw [render]
    exact (Number.neutral_double v.widen).closed.within [']'] (fits_tag 'F' (by decide)) fits_square
  | double v =>
    rw [render]
    exact (Number.neutral_double v).closed.within [']'] (fits_tag 'D' (by decide)) fits_square
  | string s =>
    rw [render]
    exact (closed_quoted s).within [']'] (fits_tag 's' (by decide)) fits_square
  | enumerated d name =>
    rw [render]
    have htag : Fits "['e', " [] [']'] := fits_tag 'e' (by decide)
    exact (((htag.append ((closed_quoted _).fits _)).append (closed_comma.fits _)).append
      ((closed_quoted _).fits _)).append fits_square
  | classInfo d =>
    rw [render]
    have htag : Fits "['c', " [] [']'] := fits_tag 'c' (by decide)
    have hname := htag.append ((closed_quoted d).fits _)
    split
    · exact ((hname.append (closed_comma.fits _)).append ((closed_quoted _).fits _)).append
        fits_square
    · exact hname.append fits_square
  | nested d visible h ih =>
    rw [render]
    have htag : Fits "['@', " [] [']'] := fits_tag '@' (by decide)
    have hopen : Fits ", \x7b" [']'] ['\x7d', ']'] := .of_scan rfl rfl
    have hclose : Fits "\x7d]" ['\x7d', ']'] [] := .of_scan rfl rfl
    have helements := closed_list (closed_elements ih)
    exact (((htag.append ((closed_quoted d).fits _)).append hopen).append (helements.fits _)).append
      hclose
  | array h ih =>
    rw [render, renderAll_eq]
    have htag : Fits "['[', " [] [']'] := fits_tag '[' (by decide)
    have hopen : Fits "['[', [" [] [']', ']'] := htag.append (t := "[") (.of_scan rfl rfl)
    have hvalues := closed_list (List.forall_mem_map.mpr ih)
    exact hvalues.within [']', ']'] hopen (.of_scan rfl rfl)

end ElementValue

lemma Annotation.Tagged.closed {a : Annotation} (h : a.Tagged) : Closed a.render := by
  have hopen : Fits ": rt.annotation(\x7b" [] ['\x7d', ')'] := .of_scan rfl rfl
  have hclose : Fits "\x7d)" ['\x7d', ')'] [] := .of_scan rfl rfl
  have helements := closed_list (ElementValue.closed_elements fun e he => (h e he).closed)
  exact ((((closed_quoted a.descriptor).fits []).append hopen).append (helements.fits _)).append
    hclose

end ClassScript
