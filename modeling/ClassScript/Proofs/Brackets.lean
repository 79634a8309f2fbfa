import ClassScript.Proofs.Literals
import ClassScript.Script.Definition

/-!
Text with its brackets in order.

Brackets count outside string literals only, so a text is first read without its literals. Then
each bracket has to be closed by one of its own kind, and in turn. The parts of a text are followed
by the brackets that they find open and those that they leave open; what leaves none and finds none
may stand anywhere.
-/

namespace ClassScript

/-! ### Literals removed -/

namespace Quoted

lemma exists_of_prepend {us vs : List UInt16} {x : Option (List UInt16 × List Char)} {r : List Char}
    (h : prepend us x = some (vs, r)) : ∃ ws, x = some (ws, r) ∧ vs = us ++ ws := by
  obtain ⟨⟨ws, r'⟩, hx, heq⟩ := Option.map_eq_some_iff.mp h
  cases heq
  exact ⟨ws, hx, rfl⟩

/-- An escape of one letter is neither of those with digits. -/
lemma readBody_simple {e c : Char} (h : simpleEscape? e = some c) (r : List Char) :
    readBody ('\\' :: e :: r) = prepend (Utf16.units c) (readBody r) := by
  unfold simpleEscape? at h
  split at h <;> cases h <;> rfl

lemma length_readBody {cs r : List Char} {us : List UInt16} (h : readBody cs = some (us, r)) :
    r.length < cs.length := by
  fun_induction readBody cs generalizing us with
  | case1 => cases h
  | case2 r' =>
    cases h
    simp
  | case3 a b r' ih | case4 a b c d r' ih | case5 e r' hx hu ih =>
    obtain ⟨u, -, h⟩ := Option.bind_eq_some_iff.mp h
    obtain ⟨ws, hws, -⟩ := exists_of_prepend h
    have hlt := ih hws
    simp only [List.length_cons]
    omega
  | case6 => cases h
  | case7 c r' hquote hx hu he hc ih =>
    obtain ⟨ws, hws, -⟩ := exists_of_prepend h
    have hlt := ih hws
    simp only [List.length_cons]
    omega

/-- What follows a literal has no part in it. -/
lemma readBody_append {cs r : List Char} {us : List UInt16} (h : readBody cs = some (us, r))
    (after : List Char) : readBody (cs ++ after) = some (us, r ++ after) := by
  fun_induction readBody cs generalizing us with
  | case1 => cases h
  | case2 r' =>
    cases h
    rfl
  | case3 a b r' ih | case4 a b c d r' ih =>
    obtain ⟨u, hu, h⟩ := Option.bind_eq_some_iff.mp h
    obtain ⟨ws, hws, rfl⟩ := exists_of_prepend h
    simp only [List.cons_append, readBody, hu, Option.bind_some, ih hws, prepend_some]
  | case5 e r' hx hu ih =>
    obtain ⟨c, hc, h⟩ := Option.bind_eq_some_iff.mp h
    obtain ⟨ws, hws, rfl⟩ := exists_of_prepend h
    rw [List.cons_append, List.cons_append, readBody_simple hc, ih hws, prepend_some]
  | case6 => cases h
  | case7 c r' hquote hx hu he hc ih =>
    obtain ⟨ws, hws, rfl⟩ := exists_of_prepend h
    rw [not_or] at hc
    rw [List.cons_append, readBody_plain hquote hc.1 hc.2, ih hws, prepend_some]

end Quoted

namespace Brackets

/-- A text without its literals, if each of them has an end. -/
def outside : List Char → Option (List Char)
  | [] => some []
  | c :: r =>
    if c = '\'' then
      match _ : Quoted.readBody r with
      | some (_, after) => outside after
      | none => none
    else (outside r).map (c :: ·)
termination_by t => t.length
decreasing_by
  · have hlt := Quoted.length_readBody ‹_›
    simp only [List.length_cons]
    omega
  · simp

lemma outside_nil : outside [] = some [] := by
  rw [outside]

lemma outside_cons {c : Char} (h : c ≠ '\'') (r : List Char) :
    outside (c :: r) = (outside r).map (c :: ·) := by
  rw [outside, if_neg h]

lemma outside_literal {t r : List Char} {us : List UInt16} (h : Quoted.readBody t = some (us, r)) :
    outside ('\'' :: t) = outside r := by
  rw [outside, if_pos rfl]
  split
  next h' =>
    cases h.symm.trans h'
    rfl
  next h' => cases h.symm.trans h'

/-- A text whose literals have their ends is read apart from what follows. -/
lemma outside_append {s t code : List Char} (h : outside s = some code) :
    outside (s ++ t) = (outside t).map (code ++ ·) := by
  fun_induction outside s generalizing code with
  | case1 =>
    cases h
    simp
  | case2 r us after hread ih =>
    rw [List.cons_append, outside_literal (Quoted.readBody_append hread t), ih h]
  | case3 => cases h
  | case4 c r hc ih =>
    obtain ⟨code', hcode, rfl⟩ := Option.map_eq_some_iff.mp h
    rw [List.cons_append, outside_cons hc, ih hcode, Option.map_map]
    rfl

/-- A text without literals is all outside them. -/
lemma outside_eq_self {t : List Char} (h : '\'' ∉ t) : outside t = some t := by
  induction t with
  | nil => exact outside_nil
  | cons c t ih =>
    rw [List.mem_cons, not_or] at h
    rw [outside_cons (Ne.symm h.1), ih h.2, Option.map_some]

/-! ### Brackets in turn -/

def closer? : Char → Option Char
  | '(' => some ')'
  | '[' => some ']'
  | '\x7b' => some '\x7d'
  | _ => none

def isCloser (c : Char) : Bool := c == ')' || c == ']' || c == '\x7d'

/-- Every bracket is closed by one of its kind, and what stands between them is of the same form. -/
inductive Nested : List Char → Prop
  | nil : Nested []
  | other {c : Char} {t : List Char} (hopen : closer? c = none) (hclose : isCloser c = false)
    (h : Nested t) : Nested (c :: t)
  | enclosed {a b : Char} {s t : List Char} (hab : closer? a = some b) (hs : Nested s)
      (ht : Nested t) :
    Nested (a :: (s ++ b :: t))

/-- Every literal of the text has an end, and its brackets are in order outside them. -/
def WellBracketed (text : String) : Prop := ∃ code, outside text.toList = some code ∧ Nested code

/-- The brackets that have to be closed after a text, innermost first, if those before it were
given. -/
def scan : List Char → List Char → Option (List Char)
  | σ, [] => some σ
  | σ, c :: t =>
    match closer? c with
    | some b => scan (b :: σ) t
    | none =>
      if isCloser c then
        match σ with
        | b :: τ => if b = c then scan τ t else none
        | [] => none
      else scan σ t

lemma scan_append (σ s t : List Char) : scan σ (s ++ t) = (scan σ s).bind fun τ => scan τ t := by
  fun_induction scan σ s <;> simp_all [scan]

lemma scan_frame {ρ τ t : List Char} (h : scan ρ t = some τ) (σ : List Char) :
    scan (ρ ++ σ) t = some (τ ++ σ) := by
  fun_induction scan ρ t <;> simp_all [scan]

/-- A text that closes the brackets of `σ`: nested text, the first of them, and so on. -/
def Closes : List Char → List Char → Prop
  | [], t => Nested t
  | b :: σ, t => ∃ s r, t = s ++ b :: r ∧ Nested s ∧ Closes σ r

/-- More in front of the text that comes before the first closing bracket. -/
lemma Closes.extend {σ t : List Char} (h : Closes σ t) (front : List Char)
    (hfront : ∀ {s}, Nested s → Nested (front ++ s)) : Closes σ (front ++ t) := by
  cases σ with
  | nil => exact hfront h
  | cons b σ =>
    obtain ⟨s, r, rfl, hs, hr⟩ := h
    exact ⟨front ++ s, r, by rw [List.append_assoc], hfront hs, hr⟩

lemma closes_of_scan {σ t : List Char} (h : scan σ t = some []) : Closes σ t := by
  fun_induction scan σ t with
  | case1 σ =>
    cases h
    exact .nil
  | case2 σ c t b hb ih =>
    obtain ⟨s, r, rfl, hs, hr⟩ := ih h
    have hcloses := hr.extend (c :: (s ++ [b])) fun ht => by
      simpa using Nested.enclosed hb hs ht
    simpa using hcloses
  | case3 t b τ hopen hclose ih => exact ⟨[], t, rfl, .nil, ih h⟩
  | case4 => cases h
  | case5 => cases h
  | case6 σ c t hopen hclose ih =>
    exact (ih h).extend [c] fun ht => .other hopen (Bool.eq_false_iff.mpr hclose) ht

lemma nested_of_scan {t : List Char} (h : scan [] t = some []) : Nested t := closes_of_scan h

/-! ### Parts of a text -/

/-- Where the brackets of `ρ` are to be closed before the text, those of `τ` are to be closed after
it. -/
def Fits (t : String) (ρ τ : List Char) : Prop :=
  ∃ code, outside t.toList = some code ∧ scan ρ code = some τ

def Closed (t : String) : Prop := Fits t [] []

variable {s t : String} {ρ σ τ : List Char}

lemma Closed.wellBracketed (h : Closed t) : WellBracketed t := by
  obtain ⟨code, hcode, hscan⟩ := h
  exact ⟨code, hcode, nested_of_scan hscan⟩

namespace Fits

lemma append (h : Fits s ρ σ) (h' : Fits t σ τ) : Fits (s ++ t) ρ τ := by
  obtain ⟨code, hcode, hscan⟩ := h
  obtain ⟨code', hcode', hscan'⟩ := h'
  refine ⟨code ++ code', ?_, ?_⟩
  · rw [String.toList_append, outside_append hcode, hcode', Option.map_some]
  · rw [scan_append, hscan, Option.bind_some, hscan']

/-- The brackets further out have no part in it. -/
lemma frame (h : Fits t ρ τ) (σ : List Char) : Fits t (ρ ++ σ) (τ ++ σ) := by
  obtain ⟨code, hcode, hscan⟩ := h
  exact ⟨code, hcode, scan_frame hscan σ⟩

/-- A text without literals. -/
lemma of_scan (hquote : t.toList.contains '\'' = false) (hscan : scan ρ t.toList = some τ) :
    Fits t ρ τ := by
  exact ⟨t.toList, outside_eq_self (by simpa using hquote), hscan⟩

end Fits

namespace Closed

lemma fits (h : Closed t) (σ : List Char) : Fits t σ σ := Fits.frame h σ

lemma append (h : Closed s) (h' : Closed t) : Closed (s ++ t) := Fits.append h h'

/-- A closed text between two texts of which the second closes what the first leaves open. -/
lemma within {a b : String} (h : Closed t) (σ : List Char) (ha : Fits a [] σ) (hb : Fits b σ []) :
    Closed (a ++ t ++ b) :=
  (ha.append (h.fits σ)).append hb

lemma intercalate {l : List String} (h : ∀ t ∈ l, Closed t) (hs : Closed s) :
    Closed (s.intercalate l) := by
  induction l with
  | nil => exact ⟨[], outside_nil, rfl⟩
  | cons t l ih =>
    obtain ⟨ht, hl⟩ := List.forall_mem_cons.mp h
    cases l with
    | nil => simpa using ht
    | cons u l =>
      rw [String.intercalate_cons_cons]
      exact (ht.append hs).append (ih hl)

end Closed

/-- The literal of any string may stand anywhere. -/
lemma closed_quoted (s : String) : Closed (Quoted.text s) := by
  refine ⟨[], ?_, rfl⟩
  have hread := Quoted.readBody_flatMap_escape s.toList []
  rw [Quoted.text, String.toList_ofList, Quoted.chars, List.cons_append,
    outside_literal hread, outside_nil]

/-! ### Text without brackets -/

def marks : List Char := ['\'', '(', ')', '[', ']', '\x7b', '\x7d']

def isNeutral (c : Char) : Bool := !marks.contains c

def Neutral (t : String) : Prop := ∀ c ∈ t.toList, isNeutral c = true

lemma Neutral.append (h : Neutral s) (h' : Neutral t) : Neutral (s ++ t) := by
  intro c hc
  rw [String.toList_append, List.mem_append] at hc
  exact hc.elim (h c) (h' c)

lemma neutral_ofList {cs : List Char} :
    Neutral (String.ofList cs) ↔ ∀ c ∈ cs, isNeutral c = true := by
  rw [Neutral, String.toList_ofList]

lemma neutral_of_all (h : t.toList.all isNeutral = true) : Neutral t := List.all_eq_true.mp h

lemma not_mem_marks {c : Char} (h : isNeutral c = true) : c ∉ marks := by
  simpa [isNeutral] using h

lemma closer?_eq_none {c : Char} (h : c ∉ marks) : closer? c = none := by
  unfold closer?
  split <;> simp_all [marks]

lemma isCloser_eq_false {c : Char} (h : c ∉ marks) : isCloser c = false := by
  simp_all [marks, isCloser]

lemma Neutral.closed (h : Neutral t) : Closed t := by
  have hquote : t.toList.contains '\'' = false := by
    rw [List.contains_eq_mem, decide_eq_false_iff_not]
    exact fun hmem => absurd (h _ hmem) (by decide)
  refine .of_scan hquote ?_
  unfold Neutral at h
  generalize t.toList = cs at h
  induction cs with
  | nil => rfl
  | cons c cs ih =>
    obtain ⟨hc, hcs⟩ := List.forall_mem_cons.mp h
    have hmarks := not_mem_marks hc
    simp only [scan, closer?_eq_none hmarks, isCloser_eq_false hmarks, Bool.false_eq_true, if_false]
    exact ih hcs

/-- What a name may be made of is neutral: letters, digits, the underscore and the dollar. -/
lemma isNeutral_of_isPart {c : Char} (h : Identifier.isPart c = true) : isNeutral c = true := by
  have hmarks : marks.all (fun c => !Identifier.isPart c) = true := by decide
  by_contra hneutral
  have hmem : c ∈ marks := by simpa [isNeutral] using hneutral
  have hpart := List.all_eq_true.mp hmarks c hmem
  simp [h] at hpart

end Brackets

end ClassScript
