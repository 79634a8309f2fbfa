import ClassScript.Proofs.Needs
import ClassScript.Proofs.StandingWords

/-!
What a text mentions.

A scope says which words may stand for themselves in a text, and which members of the two objects
may be taken. A text is put together from parts with a gap between them, or with a point or a
bracket, so it keeps to a scope if its parts do. An expression mentions the variables, the classes
and the method names that its syntax has.
-/

namespace ClassScript

open Brackets

namespace Wording

/-- Does the word begin as the names of variables do? -/
def isVariable (word : List Char) : Bool :=
  ["st", "lc", "tm"].any fun start => start.toList.isPrefixOf word

/-- What may stand for itself in a text, and what may be taken from the two objects. Words that do
not begin as variables do are free. -/
structure Scope where
  word : List Char → Prop
  plain : ∀ w, isVariable w = false → word w
  member : String → String → Prop

def Scope.ofMembers (member : String → String → Prop) : Scope where
  word _ := True
  plain _ _ := trivial
  member := member

/-- Outside its literals, which have their ends, the text keeps to the scope. -/
def Mentions (σ : Scope) (t : String) : Prop :=
  ∃ code, outside t.toList = some code ∧ (∀ w ∈ roots code, σ.word w) ∧
    ∀ o ∈ objects, Takes o (σ.member o) t.toList

/-- Nothing that follows the text is read as one word with it. -/
def Stops (t : String) : Prop :=
  ∃ code, outside t.toList = some code ∧ (∀ c ∈ code.getLast?, isGap c = true) ∧
    ∀ c ∈ t.toList.getLast?, isGap c = true

/-- The text does not end with one of the objects. -/
def Settled (t : String) : Prop := ∀ o ∈ objects, ¬ EndsWith t.toList o

/-- A text without literals, variables and objects. -/
def isFixed (t : String) : Bool :=
  !t.toList.contains '\'' &&
    (roots t.toList).all fun w => !isVariable w && !objects.any (·.toList == w)

/-- It begins with a gap that takes no member. -/
def isTrailer (t : String) : Bool := isFixed t && t.toList.head?.any fun c => isGap c && c != '['

/-- It ends with a gap. -/
def isLeader (t : String) : Bool := isFixed t && t.toList.getLast?.any isGap

/-- It ends with a letter that no object ends with. -/
def isSettled (t : String) : Bool := t.toList.getLast?.any fun c => c != 'm' && c != 'r'

variable {σ : Scope} {s t : String}

/-! ### Fixed texts -/

lemma not_mem_of_isFixed (h : isFixed t = true) : '\'' ∉ t.toList := by
  simpa using (Bool.and_eq_true_iff.mp h).1

lemma outside_of_isFixed (h : isFixed t = true) : outside t.toList = some t.toList :=
  outside_eq_self (not_mem_of_isFixed h)

lemma mentions_of_isFixed (h : isFixed t = true) : Mentions σ t := by
  have hroots := List.all_eq_true.mp (Bool.and_eq_true_iff.mp h).2
  refine ⟨_, outside_of_isFixed h, fun w hw => ?_, fun o ho =>
    takes_of_not_mem_roots ho fun hw => ?_⟩
  · have hw := (Bool.and_eq_true_iff.mp (hroots w hw)).1
    exact σ.plain w (by simpa using hw)
  · have hw := (Bool.and_eq_true_iff.mp (hroots _ hw)).2
    simp only [Bool.not_eq_true', List.any_eq_false, beq_iff_eq] at hw
    exact hw o ho rfl

/-- A word that begins as variables do has one of their letters. -/
lemma exists_mem_of_isVariable {w : List Char} (h : isVariable w = true) :
    ∃ c ∈ w, c ∈ ['s', 'l', 't'] := by
  cases w with
  | nil => cases h
  | cons c w =>
    refine ⟨c, List.mem_cons_self, ?_⟩
    obtain ⟨start, hstart, h⟩ := List.any_eq_true.mp h
    obtain ⟨r, hr⟩ := List.isPrefixOf_iff_prefix.mp h
    have hletter : ["st", "lc", "tm"].all
        (fun start => start.toList.head?.any ['s', 'l', 't'].contains) = true := by
      decide
    have hstart := List.all_eq_true.mp hletter start hstart
    obtain ⟨d, hd, hmem⟩ := (Option.any_eq_true _ _).mp hstart
    obtain ⟨ds, hds⟩ := List.head?_eq_some_iff.mp hd
    rw [hds] at hr
    cases hr
    exact List.contains_iff_mem.mp hmem

/-- A text of other characters than quotes and the letters that variables and objects have. -/
lemma mentions_of_not_mem (h : ∀ c ∈ t.toList, c ∉ ['\'', 's', 'l', 't', 'v']) : Mentions σ t := by
  refine ⟨_, outside_eq_self fun hmem => h _ hmem (by decide), fun w hw => σ.plain w ?_,
    fun o ho => takes_of_not_mem ho fun hmem => h _ hmem (by decide)⟩
  rw [Bool.eq_false_iff]
  intro hvar
  obtain ⟨c, hc, hletter⟩ := exists_mem_of_isVariable hvar
  refine h c (mem_of_mem_roots hw hc) (List.mem_cons_of_mem _ ?_)
  exact List.mem_append_left ['v'] hletter

/-- A single word. -/
lemma mentions_word (h : ∀ c ∈ t.toList, Identifier.isPart c = true) (hword : σ.word t.toList) :
    Mentions σ t := by
  have hquote : '\'' ∉ t.toList := fun hmem => absurd (h _ hmem) (by decide)
  refine ⟨_, outside_eq_self hquote, fun w hw => ?_, fun o _ =>
    takes_of_not_isAccess fun c hc => ?_⟩
  · rw [roots_of_isPart h, List.mem_singleton] at hw
    rwa [hw]
  · constructor <;> rintro rfl <;> exact absurd (h _ hc) (by decide)

lemma mentions_quoted (text : String) : Mentions σ (Quoted.text text) := by
  have hread := Quoted.readBody_flatMap_escape text.toList []
  refine ⟨[], ?_, fun w hw => ?_, fun o ho => takes_quoted ho text⟩
  · rw [Quoted.text, String.toList_ofList, Quoted.chars, List.cons_append, outside_literal hread,
      outside_nil]
  · rw [roots_nil, List.mem_singleton] at hw
    subst hw
    exact σ.plain [] rfl

lemma mentions_digital (h : Number.Digital t) : Mentions σ t := by
  refine mentions_of_not_mem fun c hc hletter => ?_
  have hall : ['\'', 's', 'l', 't', 'v'].all (fun c => !Number.isDigital c) = true := by decide
  have hno := List.all_eq_true.mp hall c hletter
  rw [h c hc] at hno
  cases hno

/-- A text that ends with a gap, whatever is before it. -/
lemma Mentions.stops (h : Mentions σ s) (ht : isLeader t = true) : Stops (s ++ t) := by
  obtain ⟨code, hcode, -⟩ := h
  obtain ⟨hfixed, hlast⟩ := Bool.and_eq_true_iff.mp ht
  obtain ⟨c, hc, hgap⟩ := (Option.any_eq_true _ _).mp hlast
  refine ⟨code ++ t.toList, ?_, fun d hd => ?_, fun d hd => ?_⟩
  · rw [String.toList_append, outside_append hcode, outside_of_isFixed hfixed, Option.map_some]
  · rw [List.getLast?_append, hc] at hd
    cases hd
    exact hgap
  · rw [String.toList_append, List.getLast?_append, hc] at hd
    cases hd
    exact hgap

/-! ### Texts put together -/

namespace Mentions

lemma isSome_outside (h : Mentions σ s) : (outside s.toList).isSome = true := by
  obtain ⟨code, hcode, -⟩ := h
  rw [hcode]
  rfl

/-- A text goes on where it has come to a gap. -/
lemma append (h : Mentions σ s) (h' : Mentions σ t) (hstops : Stops s) : Mentions σ (s ++ t) := by
  have hout := h.isSome_outside
  obtain ⟨code, hcode, hs, htakes⟩ := h
  obtain ⟨code', hcode', ht, htakes'⟩ := h'
  obtain ⟨_, hsame, hgap, hlast⟩ := hstops
  cases hcode.symm.trans hsame
  refine ⟨code ++ code', ?_, fun w hw => ?_, fun o ho => ?_⟩
  · rw [String.toList_append, outside_append hcode, hcode', Option.map_some]
  · exact (mem_roots_append (.inl hgap) hw).elim (hs w) (ht w)
  · rw [String.toList_append]
    exact (htakes o ho).join ho (htakes' o ho) hout (.inl hlast) fun hends =>
      absurd hlast (hends.not_gap ho)

/-- The text goes on with a gap, and there takes no member but those it may. -/
lemma follow (h : Mentions σ s) (h' : Mentions σ t)
    (hhead : ∀ c ∈ t.toList.head?, isGap c = true ∧ c ≠ '\'')
    (hend : ∀ o ∈ objects, EndsWith s.toList o → isAccess t.toList = true →
      ∃ m, σ.member o m ∧ Follows m t.toList) : Mentions σ (s ++ t) := by
  have hout := h.isSome_outside
  obtain ⟨code, hcode, hs, htakes⟩ := h
  obtain ⟨code', hcode', ht, htakes'⟩ := h'
  have hstart : ∀ c ∈ code'.head?, isGap c = true := by
    cases ht' : t.toList with
    | nil =>
      rw [ht', outside_nil] at hcode'
      cases hcode'
      simp
    | cons d r =>
      -- the first character is outside the literals
      obtain ⟨hgap, hquote⟩ := hhead d (by rw [ht']; rfl)
      rw [ht', outside_cons hquote] at hcode'
      obtain ⟨rest, -, rfl⟩ := Option.map_eq_some_iff.mp hcode'
      rintro c hc
      cases hc
      exact hgap
  refine ⟨code ++ code', ?_, fun w hw => ?_, fun o ho => ?_⟩
  · rw [String.toList_append, outside_append hcode, hcode', Option.map_some]
  · exact (mem_roots_append (.inr hstart) hw).elim (hs w) (ht w)
  · rw [String.toList_append]
    refine (htakes o ho).join ho (htakes' o ho) hout (.inr fun c hc => ?_) (hend o ho)
    exact isPart_of_isGap (hhead c hc).1

/-- A gap and more after the text. -/
lemma trail (h : Mentions σ s) (ht : isTrailer t = true) : Mentions σ (s ++ t) := by
  obtain ⟨hfixed, hhead⟩ := Bool.and_eq_true_iff.mp ht
  obtain ⟨c, hc, hgap⟩ := (Option.any_eq_true _ _).mp hhead
  obtain ⟨hgap, hbracket⟩ := Bool.and_eq_true_iff.mp hgap
  refine h.follow (mentions_of_isFixed hfixed) (fun d hd => ?_) fun o _ _ haccess => ?_
  · cases hc.symm.trans hd
    refine ⟨hgap, ?_⟩
    rintro rfl
    exact not_mem_of_isFixed hfixed (List.mem_of_head? hc)
  · -- a gap that is no bracket takes no member
    rw [isAccess, hc, Option.any_some, Bool.or_eq_true, beq_iff_eq, beq_iff_eq] at haccess
    rcases haccess with rfl | rfl
    · cases hgap
    · cases hbracket

/-- More and a gap before the text. -/
lemma lead (hs : isLeader s = true) (h : Mentions σ t) : Mentions σ (s ++ t) := by
  have hempty : Mentions σ "" := mentions_of_isFixed (by decide)
  have hstops : Stops s := by simpa using hempty.stops hs
  exact (mentions_of_isFixed (Bool.and_eq_true_iff.mp hs).1).append h hstops

/-- More and a gap before the text, and a gap and more after it. -/
lemma within {a b : String} (h : Mentions σ s) (ha : isLeader a = true) (hb : isTrailer b = true) :
    Mentions σ (a ++ s ++ b) :=
  (lead ha h).trail hb

/-- Two texts with a gap before and after what stands between them. -/
lemma glue {a : String} (h : Mentions σ s) (ha : isTrailer a = true) (ha' : isLeader a = true)
    (h' : Mentions σ t) : Mentions σ (s ++ a ++ t) :=
  (h.trail ha).append h' (h.stops ha')

/-- A member of what stands before. -/
lemma point (h : Mentions σ s) {name : String}
    (hname : ∀ c ∈ name.toList, Identifier.isPart c = true)
    (hend : ∀ o ∈ objects, EndsWith s.toList o → σ.member o name) :
    Mentions σ (s ++ "." ++ name) := by
  have hout := h.isSome_outside
  obtain ⟨code, hcode, hs, htakes⟩ := h
  have hquote : '\'' ∉ '.' :: name.toList := by
    rintro hmem
    obtain heq | hmem := List.mem_cons.mp hmem
    · exact absurd heq (by decide)
    · exact absurd (hname _ hmem) (by decide)
  have htext : (s ++ "." ++ name).toList = s.toList ++ '.' :: name.toList := by simp
  refine ⟨code ++ '.' :: name.toList, ?_, fun w hw => ?_, fun o ho => ?_⟩
  · rw [htext, outside_append hcode, outside_eq_self hquote, Option.map_some]
  · rw [roots_append_point code hname] at hw
    exact hs w hw
  · rw [htext]
    refine (htakes o ho).join ho (takes_point ho hname) hout (.inr ?_) fun hends _ => ?_
    · rintro c hc
      cases hc
      decide
    · have hfollows := Follows.point hname [] (by simp)
      rw [List.append_nil] at hfollows
      exact ⟨name, hend o ho hends, hfollows⟩

end Mentions

/-! ### Texts that end with no object -/

/-- The objects end with one of these letters. -/
lemma EndsWith.getLast? {o : String} {s : List Char} (ho : o ∈ objects) (h : EndsWith s o) :
    ∃ c ∈ s.getLast?, c = 'm' ∨ c = 'r' := by
  obtain ⟨a, rfl, -⟩ := h
  have hall :
      objects.all (fun o => o.toList.getLast?.any fun c => c == 'm' || c == 'r') = true := by
    decide
  obtain ⟨c, hc, hletter⟩ := (Option.any_eq_true _ _).mp (List.all_eq_true.mp hall o ho)
  exact ⟨c, by rw [List.getLast?_append, hc]; rfl, by simpa using hletter⟩

/-- No object ends with another. -/
lemma EndsWith.eq {o object : String} (hobject : object ∈ objects) (ho : o ∈ objects)
    (h : EndsWith object.toList o) : o = object := by
  obtain ⟨a, heq, -⟩ := h
  have hall : objects.all (fun object => objects.all fun o =>
      !o.toList.isSuffixOf object.toList || o == object) = true := by
    decide
  have hsuffix := List.all_eq_true.mp (List.all_eq_true.mp hall object hobject) o ho
  rw [List.isSuffixOf_iff_suffix.mpr ⟨a, heq.symm⟩] at hsuffix
  simpa using hsuffix

lemma settled_append (s : String) (h : isSettled t = true) : Settled (s ++ t) := by
  intro o ho hends
  obtain ⟨c, hc, hletter⟩ := hends.getLast? ho
  obtain ⟨d, hd, hother⟩ := (Option.any_eq_true _ _).mp h
  rw [String.toList_append, List.getLast?_append, hd] at hc
  cases hc
  simp only [Bool.and_eq_true, bne_iff_ne] at hother
  exact hletter.elim hother.1 hother.2

lemma settled_of_isSettled (h : isSettled t = true) : Settled t := by
  simpa using settled_append "" h

lemma settled_digital (h : Number.Digital t) : Settled t := by
  intro o ho hends
  obtain ⟨c, hc, hletter⟩ := hends.getLast? ho
  have hdigital := h c (List.mem_of_getLast? hc)
  rcases hletter with rfl | rfl <;> exact absurd hdigital (by decide)

/-- A word that is none of the objects. -/
lemma settled_word (h : ∀ c ∈ t.toList, Identifier.isPart c = true) (ht : t ∉ objects) :
    Settled t := by
  rintro o ho ⟨a, heq, hstanding⟩
  obtain rfl | ⟨a, c, rfl⟩ := List.eq_nil_or_concat a
  · rw [List.nil_append, String.toList_inj] at heq
    exact ht (heq ▸ ho)
  · have hgap := hstanding.gap c (by simp)
    rw [isGap_of_isPart (h c (by rw [heq]; simp))] at hgap
    cases hgap

/-- An object at the end of a text is behind the last gap. -/
lemma Settled.behind (h : Settled t) (hs : Stops s) : Settled (s ++ t) := by
  rintro o ho ⟨a, heq, hstanding⟩
  obtain ⟨code, hcode, -, hgap⟩ := hs
  rw [String.toList_append] at heq
  obtain ⟨a, rfl, ht⟩ | ⟨c, hc, hobject⟩ := List.append_eq_append_iff.mp heq
  · exact h o ho ⟨a, ht, hstanding.of_append (by rw [hcode]; rfl)⟩
  obtain rfl | ⟨c, x, rfl⟩ := List.eq_nil_or_concat c
  · refine h o ho ⟨[], hobject.symm, by rw [outside_nil]; rfl, by simp⟩
  · -- the gap would be a part of the object
    have hx := hgap x (by rw [hc]; simp)
    rw [isGap_of_isPart (isPart_objects ho x (by rw [hobject]; simp))] at hx
    cases hx

/-- The name of a member is no object. -/
lemma settled_point (s : String) {name : String}
    (hname : ∀ c ∈ name.toList, Identifier.isPart c = true) : Settled (s ++ "." ++ name) := by
  rintro o ho ⟨a, heq, hstanding⟩
  have htext : (s ++ "." ++ name).toList = s.toList ++ '.' :: name.toList := by simp
  have hpath : ∀ c ∈ '.' :: name.toList, isGap c = false :=
    List.forall_mem_cons.mpr ⟨by decide, fun c hc => isGap_of_isPart (hname c hc)⟩
  have hpoint : '.' ∉ o.toList := fun hmem => absurd (isPart_objects ho _ hmem) (by decide)
  rw [htext] at heq
  obtain ⟨a, rfl, ht⟩ | ⟨c, -, hobject⟩ := List.append_eq_append_iff.mp heq
  · -- the object is in the name, and there is a gap in front of it
    obtain rfl | ⟨a, x, rfl⟩ := List.eq_nil_or_concat a
    · rw [List.nil_append] at ht
      exact hpoint (by rw [← ht]; exact List.mem_cons_self)
    · have hgap := hstanding.gap x (by simp)
      rw [hpath x (by rw [ht]; simp)] at hgap
      cases hgap
  · exact hpoint (by rw [hobject]; simp)

end Wording

open Wording

/-! ### Numbers and names -/

section

variable {σ : Scope}

lemma Number.mentions_int (σ : Scope) (v : Int32) : Mentions σ (int v) :=
  mentions_digital (digital_toString v.toInt)

lemma Number.mentions_double (σ : Scope) (x : Binary64) : Mentions σ (double x) := by
  unfold double
  split
  iterate 5 exact mentions_of_isFixed (by decide)
  · refine mentions_digital (Digital.append ?_ (digital_magnitude _ _))
    split_ifs <;> exact digital_of_all (by decide)

lemma Number.settled_double (x : Binary64) : Settled (double x) := by
  unfold double
  split
  iterate 5 exact settled_of_isSettled (by decide)
  · refine settled_digital (Digital.append ?_ (digital_magnitude _ _))
    split_ifs <;> exact digital_of_all (by decide)

lemma Number.mentions_long (σ : Scope) (v : Int64) : Mentions σ (long v) := by
  have hlow : Mentions σ (toString (split v).2.toNat) := mentions_digital (digital_nat _)
  have hhigh : Mentions σ ("rt.long(" ++ int (split v).1) := .lead (by decide) (mentions_int σ _)
  exact (hhigh.glue (by decide) (by decide) hlow).trail (by decide)

lemma Var.mentions {v : Var} (h : σ.word v.name.toList) : Mentions σ v.name :=
  mentions_word v.isPart_name h

lemma Var.settled (v : Var) : Settled v.name := by
  refine settled_word v.isPart_name fun hmem => ?_
  have hall : objects.all (fun o => o.toList.head?.any fun c =>
      c != 's' && c != 'l' && c != 't') = true := by
    decide
  have hhead := List.all_eq_true.mp hall _ hmem
  cases v <;> simp [name] at hhead

variable {object : String}

lemma mentions_bracket (h : Mentions σ object) {name : String}
    (hend : ∀ o ∈ objects, EndsWith object.toList o → σ.member o name) :
    Mentions σ (bracket object name) := by
  have hname : Mentions σ ("[" ++ Quoted.text name ++ "]") :=
    (mentions_quoted name).within (by decide) (by decide)
  have htext : ("[" ++ Quoted.text name ++ "]").toList =
      '[' :: Quoted.chars name.toList ++ [']'] := by
    simp [Quoted.text]
  have hbracket : bracket object name = object ++ ("[" ++ Quoted.text name ++ "]") := by
    simp only [bracket, String.append_assoc]
  rw [hbracket]
  refine h.follow hname (fun c hc => ?_) fun o ho hends _ => ⟨name, hend o ho hends, ?_⟩
  · rw [htext] at hc
    cases hc
    decide
  · rw [htext]
    exact .bracket []

lemma mentions_property (h : Mentions σ object) {name : String}
    (hend : ∀ o ∈ objects, EndsWith object.toList o → σ.member o name) :
    Mentions σ (property object name) := by
  unfold property
  split_ifs with hplain
  · exact h.point (Identifier.isPart_of_isPlain hplain) hend
  · exact mentions_bracket h hend

lemma settled_bracket (object name : String) : Settled (bracket object name) :=
  settled_append _ (by decide)

lemma settled_property (object name : String) : Settled (property object name) := by
  unfold property
  split_ifs with hplain
  · exact settled_point object (Identifier.isPart_of_isPlain hplain)
  · exact settled_bracket object name

/-- A member of what is no object. -/
lemma Wording.Settled.members (h : Settled object) (name : String) :
    ∀ o ∈ objects, EndsWith object.toList o → σ.member o name :=
  fun o ho hends => absurd hends (h o ho)

lemma mentions_list {texts : List String} (h : ∀ t ∈ texts, Mentions σ t) :
    Mentions σ (", ".intercalate texts) := by
  induction texts with
  | nil => exact mentions_of_isFixed (by decide)
  | cons t texts ih =>
    obtain ⟨ht, htexts⟩ := List.forall_mem_cons.mp h
    cases texts with
    | nil => simpa using ht
    | cons u texts =>
      rw [String.intercalate_cons_cons]
      exact ht.glue (by decide) (by decide) (ih htexts)

lemma mentions_call {callee : String} (h : Mentions σ callee) {args : List String}
    (hargs : ∀ t ∈ args, Mentions σ t) : Mentions σ (call callee args) :=
  (h.glue (by decide) (by decide) (mentions_list hargs)).trail (by decide)

lemma mentions_object {o : String} (ho : o ∈ objects) : Mentions σ o := by
  have hall : objects.all (fun o => !isVariable o.toList) = true := by decide
  have hplain : isVariable o.toList = false := by simpa using List.all_eq_true.mp hall o ho
  exact mentions_word (isPart_objects ho) (σ.plain _ hplain)

lemma mentions_classFunction {name : String} (h : σ.member "vm" (Name.ofClass name)) :
    Mentions σ (classFunction name) := by
  refine mentions_property (mentions_object (by decide)) fun o ho hends => ?_
  rwa [hends.eq (by decide) ho]

/-- What the code of a class has to do with a scope: its variables may stand in the text, and the
classes and method names that it has may be taken. -/
structure Wording.Scope.Admits (σ : Scope) (vars : List Var) (classes invoked : List String) :
    Prop where
  vars : ∀ v ∈ vars, σ.word v.name.toList
  classes : ∀ name ∈ classes, σ.member "vm" (Name.ofClass name)
  invoked : ∀ m ∈ invoked, σ.member "invoker" m

/-! ### Expressions -/

lemma Literal.mentions (l : Literal) : Mentions σ l.render := by
  cases l with
  | null => exact mentions_of_isFixed (by decide)
  | int v => exact Number.mentions_int σ v
  | long v => exact Number.mentions_long σ v
  | float v => exact Number.mentions_double σ v.widen
  | double v => exact Number.mentions_double σ v
  | text s => exact mentions_quoted s

lemma Literal.settled (l : Literal) : Settled l.render := by
  cases l with
  | null => exact settled_of_isSettled (by decide)
  | int v => exact settled_digital (Number.digital_toString v.toInt)
  | long v => exact settled_append _ (by decide)
  | float v => exact Number.settled_double v.widen
  | double v => exact Number.settled_double v
  | text s =>
    have htext : (Literal.text s).render =
        String.ofList ('\'' :: s.toList.flatMap Quoted.escape) ++ "'" := by
      rw [← String.toList_inj]
      simp [render, Quoted.text, Quoted.chars]
    rw [htext]
    exact settled_append _ (by decide)

lemma Atom.mentions {a : Atom} (h : ∀ v ∈ a.vars, σ.word v.name.toList) : Mentions σ a.render := by
  cases a with
  | var v => exact Var.mentions (h v List.mem_cons_self)
  | lit l => exact l.mentions

lemma Atom.settled (a : Atom) : Settled a.render := by
  cases a with
  | var v => exact v.settled
  | lit l => exact l.settled

lemma Atom.mentions_map {args : List Atom}
    (h : ∀ v ∈ args.flatMap Atom.vars, σ.word v.name.toList) :
    ∀ t ∈ args.map Atom.render, Mentions σ t :=
  List.forall_mem_map.mpr fun a ha => Atom.mentions fun v hv =>
    h v (List.mem_flatMap.mpr ⟨a, ha, hv⟩)

lemma Helper.mentions (h : Helper) : Mentions σ ("rt." ++ h.name) := by
  refine mentions_of_isFixed ?_
  cases h with
  | arith32 op | arith64 op | shift64 op | logic64 op => cases op <;> decide
  | _ => decide

/-- Two texts with an operator between them. -/
lemma mentions_operator {a b op : String} (ha : Mentions σ a) (hop : isTrailer op = true)
    (hb : Mentions σ b) : Mentions σ (a ++ " " ++ op ++ " " ++ b) :=
  ((ha.trail (by decide)).trail hop).glue (by decide) (by decide) hb

lemma BinaryOp.isTrailer_symbol (op : BinaryOp) : isTrailer op.symbol = true := by
  cases op with
  | arith op | shift op | logic op => cases op <;> decide

namespace Expr

lemma invoked_member {e : Expr} (h : e ≠ invoker) (form : AccessForm) (name : String) :
    (member e form name).invoked = e.invoked := by
  cases e <;> first | rfl | exact absurd rfl h

/-- Of all expressions only the invoker ends with an object. -/
lemma settled {e : Expr} (h : e ≠ invoker) : Settled e.render := by
  cases e with
  | atom a => exact a.settled
  | helper | fround | multiArray | arrayClass | put | call | negate | wrap =>
    exact settled_append _ (by decide)
  | binary op a b =>
    have ha : Mentions (.ofMembers fun _ _ => True) a.render := Atom.mentions fun _ _ => trivial
    have hop : isTrailer op.symbol = true := op.isTrailer_symbol
    exact b.settled.behind (((ha.trail (by decide)).trail hop).stops (by decide))
  | object name fresh => cases fresh <;> exact settled_append _ (by decide)
  | invoker => exact absurd rfl h
  | member e form name =>
    cases form with
    | plain => exact settled_property e.render name
    | quoted => exact settled_bracket e.render name

/-- **An expression mentions what its syntax has.** -/
lemma mentions {e : Expr} (h : σ.Admits e.vars e.classes e.invoked) : Mentions σ e.render := by
  induction e with
  | atom a => exact Atom.mentions h.vars
  | helper f args => exact mentions_call f.mentions (Atom.mentions_map h.vars)
  | fround e ih =>
    exact (ih ⟨h.vars, h.classes, h.invoked⟩).within (by decide) (by decide)
  | binary op a b =>
    obtain ⟨ha, hb⟩ := List.forall_mem_append.mp h.vars
    exact mentions_operator (Atom.mentions ha) op.isTrailer_symbol (Atom.mentions hb)
  | negate a => exact (Atom.mentions h.vars).within (by decide) (by decide)
  | wrap e ih =>
    exact (ih ⟨h.vars, h.classes, h.invoked⟩).within (by decide) (by decide)
  | multiArray d counts =>
    have hcounts := mentions_list (Atom.mentions_map h.vars)
    have hopen : Mentions σ ("rt.multiArray(" ++ Quoted.text d) :=
      .lead (by decide) (mentions_quoted d)
    exact (hopen.glue (by decide) (by decide) hcounts).trail (by decide)
  | arrayClass d =>
    -- here the object itself is an argument
    have htext : "rt.classFor(vm, " = "rt.classFor(" ++ "vm" ++ ", " := by decide
    have hopen : Mentions σ ("rt.classFor(" ++ "vm") :=
      .lead (by decide) (mentions_object (by decide))
    have hclass := hopen.glue (a := ", ") (by decide) (by decide) (mentions_quoted d)
    rw [← htext] at hclass
    exact hclass.trail (by decide)
  | put array index value ih =>
    obtain ⟨hatoms, hvalue⟩ := List.forall_mem_append.mp h.vars
    obtain ⟨harray, hindex⟩ := List.forall_mem_append.mp hatoms
    refine mentions_call (mentions_of_isFixed (by decide)) fun t ht => ?_
    simp only [List.mem_cons, List.not_mem_nil, or_false] at ht
    rcases ht with rfl | rfl | rfl
    · exact Atom.mentions harray
    · exact Atom.mentions hindex
    · exact ih ⟨hvalue, h.classes, h.invoked⟩
  | object name fresh =>
    refine (mentions_classFunction (h.classes name List.mem_cons_self)).trail ?_
    cases fresh <;> decide
  | invoker => exact mentions_object (by decide)
  | member e form name ih =>
    -- a member of the invoker is a method name that is called; of other expressions it is free
    have hmember : Mentions σ e.render ∧ ∀ o ∈ objects, EndsWith e.render.toList o →
        σ.member o name := by
      by_cases he : e = invoker
      · subst he
        refine ⟨ih ⟨h.vars, h.classes, by simp [invoked]⟩, fun o ho hends => ?_⟩
        rw [hends.eq (by decide) ho]
        exact h.invoked name List.mem_cons_self
      · have hinvoked := h.invoked
        rw [invoked_member he] at hinvoked
        exact ⟨ih ⟨h.vars, h.classes, hinvoked⟩, (settled he).members name⟩
    cases form with
    | plain => exact mentions_property hmember.1 hmember.2
    | quoted => exact mentions_bracket hmember.1 hmember.2
  | call f args ih =>
    obtain ⟨hf, hargs⟩ := List.forall_mem_append.mp h.vars
    exact mentions_call (ih ⟨hf, h.classes, h.invoked⟩) (Atom.mentions_map hargs)

end Expr

lemma Comparison.mentions {c : Comparison} (hleft : ∀ v ∈ c.left.vars, σ.word v.name.toList)
    (hright : ∀ v ∈ c.right.vars, σ.word v.name.toList) : Mentions σ c.render := by
  refine mentions_operator (Atom.mentions hleft) ?_ (Atom.mentions hright)
  cases c.op <;> decide

lemma Stmt.mentions_index {key : String} (h : Mentions σ key) (low : Int32) :
    Mentions σ (index key low) := by
  unfold index
  split_ifs
  · exact h
  · exact h.glue (by decide) (by decide) (mentions_digital (Number.digital_toString _))
  · exact h.glue (by decide) (by decide) (mentions_digital (Number.digital_toString _))

lemma CatchClause.mentions_test (c : CatchClause) : Mentions σ c.test := by
  have hstart : Mentions σ (toString c.start) := mentions_digital (Number.digital_nat c.start)
  have hstop : Mentions σ (toString c.stop) := mentions_digital (Number.digital_nat c.stop)
  have hrange : Mentions σ ("gt >= " ++ toString c.start ++ " && gt < " ++ toString c.stop) :=
    (Mentions.lead (by decide) hstart).glue (by decide) (by decide) hstop
  have he : Settled "e" := settled_of_isSettled (by decide)
  unfold test
  split
  · exact hrange
  · exact hrange
  · exact hrange.glue (by decide) (by decide)
      (mentions_property (mentions_of_isFixed (by decide)) (he.members _))

end

end ClassScript
