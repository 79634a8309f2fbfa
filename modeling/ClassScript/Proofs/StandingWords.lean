import ClassScript.Proofs.BracketedText

/-!
Words of a text that stand for themselves.

Outside its literals a text is made of words, of points that join them, and of gaps. Of words that
are joined by points only the first stands for itself; the others are names of members. What a
text takes from an object is seen where the object's name stands for itself and a point or a
bracket follows. A join of two texts adds nothing to that, unless a word runs over it or the first
text ends with the object.
-/

namespace ClassScript

open Brackets

namespace Wording

/-- What is neither a part of a word nor joins words. -/
def isGap (c : Char) : Bool := !(Identifier.isPart c || c == '.')

/-- The words of a text without literals that stand for themselves. -/
def roots (code : List Char) : List (List Char) :=
  (code.splitOnP isGap).map (·.takeWhile Identifier.isPart)

lemma isGap_of_isPart {c : Char} (h : Identifier.isPart c = true) : isGap c = false := by
  rw [isGap, h]
  rfl

lemma isPart_of_isGap {c : Char} (h : isGap c = true) : Identifier.isPart c = false := by
  rw [isGap, Bool.not_eq_true', Bool.or_eq_false_iff] at h
  exact h.1

/-! ### The words -/

lemma roots_append_gap (a b : List Char) {c : Char} (hc : isGap c = true) :
    roots (a ++ c :: b) = roots a ++ roots b := by
  rw [roots, List.splitOnP_append_cons a b hc, List.map_append, ← roots, ← roots]

lemma roots_nil : roots [] = [[]] := rfl

/-- Words do not run over a gap. -/
lemma mem_roots_append {a b w : List Char}
    (hgap : (∀ c ∈ a.getLast?, isGap c = true) ∨ ∀ c ∈ b.head?, isGap c = true)
    (hw : w ∈ roots (a ++ b)) : w ∈ roots a ∨ w ∈ roots b := by
  rcases hgap with hgap | hgap
  · -- the gap is the last character of the first text, or there is no first text
    obtain rfl | ⟨a, c, rfl⟩ := List.eq_nil_or_concat a
    · exact .inr hw
    · have hc : isGap c = true := hgap c (by simp)
      rw [List.concat_eq_append, List.append_assoc, List.singleton_append,
        roots_append_gap a b hc, List.mem_append] at hw
      rw [List.concat_eq_append, roots_append_gap a [] hc, List.mem_append]
      exact hw.imp_left .inl
  · -- the gap is the first character of the second text
    cases b with
    | nil =>
      rw [List.append_nil] at hw
      exact .inl hw
    | cons c b =>
      have hc : isGap c = true := hgap c rfl
      rw [roots_append_gap a b hc, List.mem_append] at hw
      have hb : roots (c :: b) = roots [] ++ roots b := roots_append_gap [] b hc
      rw [hb, List.mem_append]
      exact hw.imp_right .inr

lemma roots_cons {c : Char} (hc : isGap c = false) (a : List Char) :
    roots (c :: a) = (roots a).modifyHead fun w => if Identifier.isPart c then c :: w else [] := by
  obtain ⟨p, ps, hsplit⟩ := List.exists_cons_of_ne_nil (List.splitOnP_ne_nil isGap a)
  rw [roots, roots, List.splitOnP_cons_eq_if_modifyHead, hsplit, hc]
  simp [List.takeWhile_cons]

/-- The first word begins with the text. -/
lemma head?_roots (a : List Char) : (roots a).head? = some (a.takeWhile Identifier.isPart) := by
  induction a with
  | nil => rfl
  | cons c a ih =>
    cases hc : isGap c with
    | true =>
      have hcons : roots (c :: a) = [] :: roots a := roots_append_gap [] a hc
      rw [hcons, List.takeWhile_cons, isPart_of_isGap hc]
      rfl
    | false =>
      rw [roots_cons hc, List.head?_modifyHead, ih, List.takeWhile_cons]
      rfl

/-- A member's name does not stand for itself. -/
lemma roots_append_point (a : List Char) {name : List Char}
    (h : ∀ c ∈ name, Identifier.isPart c = true) : roots (a ++ '.' :: name) = roots a := by
  induction a with
  | nil =>
    have hpath : ∀ c ∈ '.' :: name, isGap c = false :=
      List.forall_mem_cons.mpr ⟨by decide, fun c hc => isGap_of_isPart (h c hc)⟩
    rw [List.nil_append, roots, List.splitOnP_eq_singleton hpath]
    rfl
  | cons c a ih =>
    cases hc : isGap c with
    | true =>
      have hcons (b : List Char) : roots (c :: b) = roots [] ++ roots b := roots_append_gap [] b hc
      rw [List.cons_append, hcons, hcons, ih]
    | false => rw [List.cons_append, roots_cons hc, roots_cons hc, ih]

lemma roots_of_isPart {word : List Char} (h : ∀ c ∈ word, Identifier.isPart c = true) :
    roots word = [word] := by
  have hpath : ∀ c ∈ word, isGap c = false := fun c hc => isGap_of_isPart (h c hc)
  rw [roots, List.splitOnP_eq_singleton hpath, List.map_singleton, List.takeWhile_eq_self_iff.mpr h]

/-- A word is made of characters of the text. -/
lemma mem_of_mem_roots {code w : List Char} (hw : w ∈ roots code) {c : Char} (hc : c ∈ w) :
    c ∈ code := by
  induction code generalizing w with
  | nil =>
    rw [roots_nil, List.mem_singleton] at hw
    rwa [hw] at hc
  | cons d code ih =>
    refine List.mem_cons.mpr ?_
    cases hd : isGap d with
    | true =>
      have hcons : roots (d :: code) = [] :: roots code := roots_append_gap [] code hd
      rw [hcons] at hw
      obtain rfl | hw := List.mem_cons.mp hw
      · cases hc
      · exact .inr (ih hw hc)
    | false =>
      -- only the first word can have the character, and only in front
      obtain ⟨p, ps, hroots⟩ : ∃ p ps, roots code = p :: ps :=
        List.exists_cons_of_ne_nil (by simp [roots, List.splitOnP_ne_nil])
      rw [roots_cons hd, hroots, List.modifyHead_cons] at hw
      rw [hroots] at ih
      obtain rfl | hw := List.mem_cons.mp hw
      · split at hc
        · exact (List.mem_cons.mp hc).imp_right (ih List.mem_cons_self)
        · cases hc
      · exact .inr (ih (List.mem_cons_of_mem p hw) hc)

/-! ### Members that are taken -/

def objects : List String := ["vm", "invoker"]

/-- A text behind which a word stands for itself: no literal is open, and there is no word or
point for it to go on. -/
structure Standing (a : List Char) : Prop where
  outside : (outside a).isSome = true
  gap : ∀ c ∈ a.getLast?, isGap c = true

def isAccess (b : List Char) : Bool := b.head?.any fun c => c == '.' || c == '['

/-- What follows an object takes the member `m`, and no longer name. -/
inductive Follows (m : String) : List Char → Prop
  | point (hm : ∀ c ∈ m.toList, Identifier.isPart c = true) (rest : List Char)
    (hrest : ∀ c ∈ rest.head?, Identifier.isPart c = false) : Follows m ('.' :: m.toList ++ rest)
  | bracket (rest : List Char) : Follows m ('[' :: Quoted.chars m.toList ++ ']' :: rest)

/-- Wherever the object stands for itself and a member of it is taken, it is one of `P`. -/
def Takes (object : String) (P : String → Prop) (t : List Char) : Prop :=
  ∀ a b, t = a ++ (object.toList ++ b) → Standing a → isAccess b = true → ∃ m, P m ∧ Follows m b

def EndsWith (s : List Char) (object : String) : Prop := ∃ a, s = a ++ object.toList ∧ Standing a

section

variable {o : String} {P : String → Prop} {s t : List Char}

lemma isPart_objects (ho : o ∈ objects) : ∀ c ∈ o.toList, Identifier.isPart c = true := by
  have hall : objects.all (fun o => o.toList.all Identifier.isPart) = true := by decide
  exact List.all_eq_true.mp (List.all_eq_true.mp hall o ho)

lemma objects_ne_nil (ho : o ∈ objects) : o.toList ≠ [] := by
  have hall : objects.all (fun o => !o.toList.isEmpty) = true := by decide
  simpa using List.all_eq_true.mp hall o ho

/-- What stands behind a text without open literals stands for itself by its own right. -/
lemma Standing.of_append {a : List Char} (hs : (Brackets.outside s).isSome = true)
    (h : Standing (s ++ a)) : Standing a where
  outside := by
    obtain ⟨code, hcode⟩ := Option.isSome_iff_exists.mp hs
    have hsome := h.outside
    rw [outside_append hcode, Option.isSome_map] at hsome
    exact hsome
  gap c hc := h.gap c (by rw [List.getLast?_append, Option.mem_def.mp hc]; rfl)

/-- No object ends where a gap does. -/
lemma EndsWith.not_gap (ho : o ∈ objects) (h : EndsWith s o) :
    ¬ ∀ c ∈ s.getLast?, isGap c = true := by
  obtain ⟨a, rfl, -⟩ := h
  intro hgap
  have hlast := List.getLast?_eq_some_getLast (objects_ne_nil ho)
  have hmem := hgap (o.toList.getLast (objects_ne_nil ho))
    (by rw [List.getLast?_append, hlast]; rfl)
  rw [isGap_of_isPart (isPart_objects ho _ (List.getLast_mem _))] at hmem
  cases hmem

/-- A member that is taken is taken whatever follows, unless its name goes on there. -/
lemma Follows.append {m : String} {b : List Char} (h : Follows m b)
    (hedge : (∀ c ∈ b.getLast?, isGap c = true) ∨ ∀ c ∈ t.head?, Identifier.isPart c = false) :
    Follows m (b ++ t) := by
  cases h with
  | point hm rest hrest =>
    rw [List.append_assoc]
    refine .point hm _ fun c hc => ?_
    cases rest with
    | cons d rest => exact hrest c hc
    | nil =>
      refine hedge.elim (fun hgap => ?_) (fun hhead => hhead c hc)
      -- the name itself ends with no gap
      rw [List.append_nil] at hgap
      have hlast := hgap _ (List.getLast?_eq_some_getLast (List.cons_ne_nil _ _))
      have hno : ∀ d ∈ '.' :: m.toList, isGap d = false :=
        List.forall_mem_cons.mpr ⟨by decide, fun d hd => isGap_of_isPart (hm d hd)⟩
      rw [hno _ (List.getLast_mem _)] at hlast
      cases hlast
  | bracket rest =>
    rw [List.append_assoc, List.cons_append]
    exact .bracket _

/-- **A join of two texts takes what the two take.** At the join there is a gap, or the second text
does not go on with a word; and if the first text ends with the object, the second takes no other
member of it. -/
lemma Takes.join (ho : o ∈ objects) (hs : Takes o P s) (ht : Takes o P t)
    (hout : (outside s).isSome = true)
    (hedge : (∀ c ∈ s.getLast?, isGap c = true) ∨ ∀ c ∈ t.head?, Identifier.isPart c = false)
    (hend : EndsWith s o → isAccess t = true → ∃ m, P m ∧ Follows m t) : Takes o P (s ++ t) := by
  intro a b heq hstanding haccess
  obtain ⟨a', rfl, ht'⟩ | ⟨c, rfl, hc⟩ := List.append_eq_append_iff.mp heq
  · -- the object is in the second text
    exact ht a' b ht' (hstanding.of_append hout) haccess
  obtain ⟨b', rfl, rfl⟩ | ⟨d, hobject, rfl⟩ := List.append_eq_append_iff.mp hc
  · -- it is in the first
    cases b' with
    | nil =>
      rw [List.append_nil] at hend
      exact hend ⟨a, rfl, hstanding⟩ haccess
    | cons x b' =>
      obtain ⟨m, hm, hfollows⟩ := hs a (x :: b') rfl hstanding haccess
      refine ⟨m, hm, hfollows.append (hedge.imp_left fun hgap y hy => hgap y ?_)⟩
      rw [List.getLast?_append, List.getLast?_append, Option.mem_def.mp hy]
      rfl
  · -- it runs over the join, and so does a word
    obtain rfl | ⟨c, x, rfl⟩ := List.eq_nil_or_concat c
    · rw [List.nil_append] at hobject
      exact ht [] b (by rw [hobject]; rfl) ⟨by rw [outside_nil]; rfl, by simp⟩ haccess
    cases d with
    | nil =>
      rw [List.append_nil] at hobject
      exact hend ⟨a, by rw [hobject], hstanding⟩ haccess
    | cons y d =>
      have hpart := isPart_objects ho
      rw [hobject] at hpart
      exfalso
      rcases hedge with hgap | hhead
      · have hx := hgap x (by simp)
        rw [isGap_of_isPart (hpart x (by simp))] at hx
        cases hx
      · have hy := hhead y rfl
        rw [hpart y (by simp)] at hy
        cases hy

/-! ### Texts that take nothing -/

/-- Nothing is taken where there is no point and no bracket. -/
lemma takes_of_not_isAccess (h : ∀ c ∈ t, c ≠ '.' ∧ c ≠ '[') : Takes o P t := by
  rintro a b rfl - haccess
  obtain ⟨c, hc, hopens⟩ := (Option.any_eq_true _ _).mp haccess
  obtain ⟨hpoint, hbracket⟩ := h c (by simp [List.mem_of_head? hc])
  simp [hpoint, hbracket] at hopens

/-- Both objects have this letter in their names. -/
lemma takes_of_not_mem (ho : o ∈ objects) (h : 'v' ∉ t) : Takes o P t := by
  rintro a b rfl - -
  have hall : objects.all (fun o => o.toList.contains 'v') = true := by decide
  have hmem : 'v' ∈ o.toList := by simpa using List.all_eq_true.mp hall o ho
  exact absurd (List.mem_append_right _ (List.mem_append_left _ hmem)) h

/-- A word that stands in front of a member is a root of the text. -/
lemma mem_roots_of_isAccess {a w b : List Char} (ha : ∀ c ∈ a.getLast?, isGap c = true)
    (hw : ∀ c ∈ w, Identifier.isPart c = true) (hb : isAccess b = true) :
    w ∈ roots (a ++ (w ++ b)) := by
  obtain ⟨c, hc, hopens⟩ := (Option.any_eq_true _ _).mp hb
  obtain ⟨b, rfl⟩ := List.head?_eq_some_iff.mp hc
  have hpart : Identifier.isPart c = false := by
    simp only [Bool.or_eq_true, beq_iff_eq] at hopens
    rcases hopens with rfl | rfl <;> decide
  have hfirst : w ∈ roots (w ++ c :: b) := by
    have htake : (w ++ c :: b).takeWhile Identifier.isPart = w := by
      rw [List.takeWhile_append_of_pos hw, List.takeWhile_cons, hpart]
      simp
    exact List.mem_of_head? (by rw [head?_roots, htake])
  obtain rfl | ⟨a, g, rfl⟩ := List.eq_nil_or_concat a
  · exact hfirst
  · rw [List.concat_eq_append, List.append_assoc, List.singleton_append,
      roots_append_gap a _ (ha g (by simp))]
    exact List.mem_append_right _ hfirst

/-- Nothing is taken of an object that is not among the words. -/
lemma takes_of_not_mem_roots (ho : o ∈ objects) (h : o.toList ∉ roots t) : Takes o P t := by
  rintro a b rfl hstanding haccess
  exact absurd (mem_roots_of_isAccess hstanding.gap (isPart_objects ho) haccess) h

/-- Inside a literal no word stands for itself. -/
lemma takes_quoted (ho : o ∈ objects) (text : String) : Takes o P (Quoted.text text).toList := by
  rintro a b heq hstanding -
  have hread := Quoted.readBody_flatMap_escape text.toList []
  rw [Quoted.text, String.toList_ofList, Quoted.chars, List.cons_append] at heq
  obtain rfl | ⟨q, a, rfl⟩ : a = [] ∨ ∃ q a', a = q :: a' := by cases a <;> simp
  · -- a name of an object does not begin with a quote
    have hmem : '\'' ∈ o.toList := by
      obtain ⟨c, o', ho'⟩ := List.exists_cons_of_ne_nil (objects_ne_nil ho)
      rw [List.nil_append, ho', List.cons_append] at heq
      rw [ho', (List.cons.inj heq).1]
      exact List.mem_cons_self
    exact absurd (isPart_objects ho _ hmem) (by decide)
  · -- the literal has come to its end in `a`, and nothing is left for the object
    obtain rfl := (List.cons.inj heq).1
    have hrest : text.toList.flatMap Quoted.escape ++ ['\''] = a ++ (o.toList ++ b) :=
      (List.cons.inj heq).2
    obtain ⟨code, hcode⟩ := Option.isSome_iff_exists.mp hstanding.outside
    cases hbody : Quoted.readBody a with
    | none =>
      rw [outside, if_pos rfl] at hcode
      split at hcode
      next h => cases hbody.symm.trans h
      next => cases hcode
    | some r =>
      rw [hrest, Quoted.readBody_append hbody] at hread
      have hnil := (Prod.mk.inj (Option.some.inj hread)).2
      simp [objects_ne_nil ho] at hnil

/-- The name of a member does not stand for itself. -/
lemma takes_point (ho : o ∈ objects) {name : List Char}
    (h : ∀ c ∈ name, Identifier.isPart c = true) : Takes o P ('.' :: name) := by
  refine takes_of_not_mem_roots ho fun hmem => ?_
  have hroots : roots ('.' :: name) = [[]] := roots_append_point [] h
  rw [hroots, List.mem_singleton] at hmem
  exact objects_ne_nil ho hmem

end

end Wording

end ClassScript
