import ClassScript.Proofs.Identifiers
import ClassScript.Resources
import Mathlib.Data.Set.Insert

/-!
Which methods share a property.

The property of a method keeps the underscores of the name, and puts two more between the name
and the types. These two are found again by what follows them: a type begins with a letter or
with a bracket, and in the spelling of types nothing but an escape follows two underscores. So
methods share a property only if they have one descriptor, and names that are equal or written
alike: the names in brackets are written as plain words.
-/

namespace ClassScript

/-! ### Underscores in the spelling of types -/

namespace Name

variable {c : Char} {cs l x y r : List Char}

/-- A character that a list does not have stands behind it. -/
lemma exists_append_of_not_mem (h : c ∉ l) (heq : l ++ r = x ++ c :: y) :
    ∃ x', x = l ++ x' ∧ r = x' ++ c :: y := by
  rcases List.append_eq_append_iff.mp heq with ⟨x', hx, hr⟩ | ⟨l', hl, hr⟩
  · exact ⟨x', hx, hr⟩
  · cases l' with
    | nil => exact ⟨[], by simp [hl], hr.symm⟩
    | cons d l' =>
      obtain ⟨rfl, -⟩ := List.cons.inj hr
      exact absurd (by simp [hl]) h

/-- An underscore that stands in a text or behind it: if it stands in the text, a digit that
marks an escape follows. -/
def Marked (l r x y : List Char) : Prop :=
  (∃ x', x = l ++ x' ∧ r = x' ++ '_' :: y) ∨ ∃ d y', y = d :: y' ∧ d ∈ marks

lemma Marked.of_not_mem (h : '_' ∉ l) (heq : l ++ r = x ++ '_' :: y) : Marked l r x y :=
  .inl (exists_append_of_not_mem h heq)

/-- An escape begins with its only underscore. -/
lemma Marked.escape {d : Char} (hd : d ∈ marks) (h : '_' ∉ d :: l)
    (heq : '_' :: d :: l ++ r = x ++ '_' :: y) : Marked ('_' :: d :: l) r x y := by
  cases x with
  | nil => exact .inr ⟨d, l ++ r, (List.cons.inj heq).2.symm, hd⟩
  | cons e x =>
    obtain ⟨rfl, htail⟩ := List.cons.inj heq
    obtain ⟨x', rfl, hr⟩ := exists_append_of_not_mem h htail
    exact .inl ⟨x', rfl, hr⟩

lemma Marked.units {us : List UInt16}
    (heq : (us.flatMap fun u => '_' :: '0' :: Quoted.hex 4 u.toNat) ++ r = x ++ '_' :: y) :
    Marked (us.flatMap fun u => '_' :: '0' :: Quoted.hex 4 u.toNat) r x y := by
  induction us generalizing x with
  | nil => exact .inl ⟨x, rfl, heq⟩
  | cons u us ih =>
    have hhex : '_' ∉ '0' :: Quoted.hex 4 u.toNat := by
      simpa using Quoted.underscore_not_mem_hex 4 u.toNat
    rw [List.flatMap_cons, List.append_assoc] at heq
    rcases Marked.escape (by decide) hhex heq with ⟨x', rfl, hrest⟩ | hmark
    · rcases ih hrest with ⟨x'', rfl, hr⟩ | hmark
      · exact .inl ⟨x'', by rw [List.flatMap_cons, List.append_assoc], hr⟩
      · exact .inr hmark
    · exact .inr hmark

/-- In the escape of any character but the slash a digit follows each underscore. -/
lemma escape_marked (hslash : c ≠ '/') (heq : escape c ++ r = x ++ '_' :: y) :
    Marked (escape c) r x y := by
  unfold Name.escape at heq ⊢
  split_ifs at heq ⊢ with hplain
  · refine .of_not_mem ?_ heq
    rintro hmem
    rw [← List.mem_singleton.mp hmem] at hplain
    exact absurd hplain (by decide)
  iterate 3 exact .escape (by decide) (by decide) heq
  · exact .units heq

/-- No slash stands before another one, or before a digit that marks an escape. -/
def Tight (cs : List Char) : Prop := cs.IsChain fun a b => a = '/' → b ∉ '/' :: marks

/-- **Two underscores in an escaped text** are a slash and the beginning of an escape. -/
lemma mark_of_escapeAll (h : Tight cs) (heq : escapeAll cs = x ++ '_' :: '_' :: y) :
    ∃ d y', y = d :: y' ∧ d ∈ marks := by
  induction cs generalizing x with
  | nil => simp [escapeAll] at heq
  | cons c cs ih =>
    obtain ⟨hnext, hrest⟩ := List.isChain_cons.mp h
    have hsplit : escape c ++ escapeAll cs = x ++ '_' :: '_' :: y := heq
    by_cases hslash : c = '/'
    · subst hslash
      cases x with
      | cons e x => exact ih hrest (List.cons.inj hsplit).2
      | nil =>
        -- the second underscore is the first character of the rest
        have hunderscore : escapeAll cs = [] ++ '_' :: y := (List.cons.inj hsplit).2
        cases cs with
        | nil => simp [escapeAll] at hunderscore
        | cons d cs =>
          have hd := hnext d rfl rfl
          rw [List.mem_cons, not_or] at hd
          rcases escape_marked hd.1 hunderscore with ⟨x', hnil, -⟩ | hmark
          · obtain ⟨e, r, hescape, -⟩ := escape_head d
            rw [hescape] at hnil
            cases hnil
          · exact hmark
    · rcases escape_marked hslash hsplit with ⟨x', rfl, hrest'⟩ | ⟨d, y', hcons, hd⟩
      · exact ih hrest hrest'
      · obtain ⟨rfl, -⟩ := List.cons.inj hcons
        exact absurd hd (by decide)

end Name

/-! ### Methods -/

/-- The parts of a class name between its slashes are not empty, and none begins with a digit that
marks an escape. -/
def ValueType.Segmented (t : ValueType) : Prop :=
  ∀ name ∈ t.className?, ∀ part ∈ Resources.parts name.toList, part ≠ [] ∧
    ∀ c ∈ part.head?, c ∉ Name.marks

def Signature.Segmented (s : Signature) : Prop := ∀ t ∈ s.result :: s.params, t.Segmented

instance ValueType.decidableSegmented (t : ValueType) : Decidable t.Segmented :=
  inferInstanceAs (Decidable (∀ name ∈ t.className?, ∀ part ∈ Resources.parts name.toList,
    part ≠ [] ∧ ∀ c ∈ part.head?, c ∉ Name.marks))

instance Signature.decidableSegmented (s : Signature) : Decidable s.Segmented :=
  inferInstanceAs (Decidable (∀ t ∈ s.result :: s.params, t.Segmented))

namespace Name

lemma parts_ne_nil (cs : List Char) : Resources.parts cs ≠ [] := by
  cases cs with
  | nil => simp [Resources.parts]
  | cons c cs =>
    unfold Resources.parts
    split
    · simp
    · split <;> simp

/-- The first character of a text begins its first part, unless it is a slash. -/
lemma head_of_parts {cs part : List Char} {parts : List (List Char)}
    (h : Resources.parts cs = part :: parts) (hne : part ≠ []) :
    cs.head? = part.head? ∧ cs.head? ≠ some '/' := by
  cases cs with
  | nil =>
    cases h
    exact absurd rfl hne
  | cons c cs =>
    unfold Resources.parts at h
    split at h
    · cases h
      exact absurd rfl hne
    · rename_i hc
      split at h <;> cases h <;> exact ⟨rfl, by simpa using hc⟩

lemma tight_of_parts {cs part : List Char} {parts : List (List Char)}
    (h : Resources.parts cs = part :: parts)
    (hparts : ∀ p ∈ parts, p ≠ [] ∧ ∀ c ∈ p.head?, c ∉ marks) : Tight cs := by
  induction cs generalizing part parts with
  | nil => exact .nil
  | cons c cs ih =>
    obtain ⟨first, others, hcs⟩ := List.exists_cons_of_ne_nil (parts_ne_nil cs)
    unfold Resources.parts at h
    rw [hcs] at h
    split at h
    · cases h
      obtain ⟨⟨hne, hstart⟩, hothers⟩ := List.forall_mem_cons.mp hparts
      obtain ⟨hhead, hslash⟩ := head_of_parts hcs hne
      refine List.isChain_cons.mpr ⟨fun d hd _ hmem => ?_, ih hcs hothers⟩
      rcases List.mem_cons.mp hmem with rfl | hmark
      · exact hslash hd
      · exact hstart d (hhead ▸ hd) hmark
    · rename_i hc
      cases h
      exact List.isChain_cons.mpr ⟨fun d _ hslash => absurd hslash hc, ih hcs hparts⟩

/-- A text that is tight and does not end with a slash can be followed by another one. -/
structure Closed (cs : List Char) : Prop where
  tight : Tight cs
  last : ∀ c ∈ cs.getLast?, c ≠ '/'

lemma Closed.append {s t : List Char} (hs : Closed s) (ht : Closed t) : Closed (s ++ t) := by
  refine ⟨List.IsChain.append hs.tight ht.tight fun a ha b _ hslash =>
    absurd hslash (hs.last a ha), ?_⟩
  intro c hc
  rw [List.getLast?_append, Option.mem_def, Option.or_eq_some_iff] at hc
  rcases hc with hc | ⟨-, hc⟩
  · exact ht.last c hc
  · exact hs.last c hc

lemma closed_chars {t : ValueType} (h : t.Segmented) : Closed t.chars := by
  induction t with
  | object name =>
    obtain ⟨first, others, hparts⟩ := List.exists_cons_of_ne_nil (parts_ne_nil name.toList)
    have htight : Tight name.toList := by
      refine tight_of_parts hparts fun p hp => h name rfl p ?_
      rw [hparts]
      exact List.mem_cons_of_mem _ hp
    have hend : Tight (name.toList ++ [';']) := by
      refine List.IsChain.append htight (.singleton _) fun a _ b hb _ => ?_
      cases hb
      decide
    refine ⟨List.isChain_cons.mpr ⟨fun _ _ hslash => absurd hslash (by decide), hend⟩,
      fun c hc => ?_⟩
    rw [ValueType.chars, List.getLast?_concat] at hc
    cases hc
    decide
  | array element ih =>
    have helement := ih h
    refine Closed.append (s := ['[']) ⟨.singleton _, ?_⟩ helement
    simp
  | _ => exact ⟨.singleton _, by simp [ValueType.chars]⟩

lemma closed_flatMap_chars {ts : List ValueType} (h : ∀ t ∈ ts, t.Segmented) :
    Closed (ts.flatMap ValueType.chars) := by
  induction ts with
  | nil => exact ⟨.nil, by simp⟩
  | cons t ts ih =>
    obtain ⟨ht, hts⟩ := List.forall_mem_cons.mp h
    exact (closed_chars ht).append (ih hts)

end Name

namespace Signature

/-- The types of a signature in the order in which the property of a method has them. -/
def types (s : Signature) : List Char := (s.result :: s.params).flatMap ValueType.chars

end Signature

namespace Name

/-- A type begins with a letter or a bracket. -/
lemma head_chars (t : ValueType) : ∃ c r, t.chars = c :: r ∧ c ∉ '/' :: marks := by
  cases t <;> exact ⟨_, _, rfl, by decide⟩

lemma head_types (s : Signature) : ∃ c r, s.types = c :: r ∧ c ∉ '/' :: marks := by
  obtain ⟨c, r, hchars, hc⟩ := head_chars s.result
  refine ⟨c, r ++ s.params.flatMap ValueType.chars, ?_, hc⟩
  rw [Signature.types, List.flatMap_cons, hchars, List.cons_append]

lemma legible_of_tight {cs : List Char} (h : Tight cs) : Legible cs :=
  List.IsChain.imp (fun _ _ hab ha hb => hab ha (List.mem_cons_of_mem _ hb)) h

/-- The two underscores between a name and the types are nowhere else. -/
lemma eq_nil_of_separators {s s' : Signature} (hs : s.Segmented) {y : List Char}
    (h : '_' :: '_' :: escapeAll s.types = y ++ '_' :: '_' :: escapeAll s'.types) : y = [] := by
  cases y with
  | nil => rfl
  | cons u y =>
    -- one underscore before the types is a slash before them, and what follows is still tight
    obtain ⟨c, r, htypes, hc⟩ := head_types s
    have htight : Tight ('/' :: s.types) := by
      refine List.isChain_cons.mpr ⟨fun d hd _ => ?_, (closed_flatMap_chars hs).tight⟩
      rw [htypes] at hd
      cases hd
      exact hc
    obtain ⟨d, r', hmark, hd⟩ := mark_of_escapeAll htight (List.cons.inj h).2
    obtain ⟨c', r'', htypes', hc'⟩ := head_types s'
    have hhead : ∀ e ∈ s'.types.head?, e ∉ marks := by
      rw [htypes']
      rintro e ⟨⟩ hmem
      exact hc' (List.mem_cons_of_mem _ hmem)
    exact absurd hd (head_escapeAll hhead d (by rw [hmark]; rfl))

/-- A type is read off the front, so the order of the types loses nothing. -/
lemma chars_eq_of_types_eq {s s' : Signature} (hs : s.Legal) (hs' : s'.Legal)
    (h : s.types = s'.types) :
    s.chars = s'.chars := by
  have hread : ValueType.parse s.types = some (s.result, s.params.flatMap ValueType.chars) :=
    ValueType.parse_chars hs.result _
  have hread' : ValueType.parse s'.types = some (s'.result, s'.params.flatMap ValueType.chars) :=
    ValueType.parse_chars hs'.result _
  rw [h, hread'] at hread
  obtain ⟨hresult, hparams⟩ := Prod.mk.inj (Option.some.inj hread)
  rw [Signature.chars, Signature.chars, hresult, hparams]

/-- The name of a method: one of the two that are in brackets, or letters, digits, dollars and
underscores. -/
def IsMethod (name : String) : Prop :=
  name = "<init>" ∨ name = "<clinit>" ∨ name ≠ "" ∧ ∀ c ∈ name.toList, Identifier.isPart c = true

def unbracketed (name : String) : String :=
  if name = "<init>" then "cons" else if name = "<clinit>" then "class" else name

lemma escapeMethod_of_isPart {c : Char} (h : Identifier.isPart c = true) :
    escapeMethod c = [c] := by
  unfold escapeMethod
  split_ifs with hunderscore
  · rfl
  · refine if_pos ?_
    simpa [Identifier.isPart, hunderscore] using h

lemma methodStem_eq {name : String} (h : IsMethod name) :
    methodStem name = (unbracketed name).toList := by
  unfold methodStem unbracketed
  split_ifs with hinit hclinit
  · rfl
  · rfl
  · rcases h with hname | hname | ⟨-, hparts⟩
    · exact absurd hname hinit
    · exact absurd hname hclinit
    · rw [List.flatMap_congr fun c hc => escapeMethod_of_isPart (hparts c hc),
        List.flatMap_singleton']

lemma unbracketed_eq_iff (n n' : String) :
    unbracketed n = unbracketed n' ↔
      n = n' ∨ ({n, n'} : Set String) = {"<init>", "cons"} ∨ ({n, n'} : Set String) =
        {"<clinit>", "class"} := by
  simp only [Set.pair_eq_pair_iff]
  unfold unbracketed
  grind

lemma ofMethod_eq {name descriptor : String} {s : Signature}
    (h : Signature.ofDescriptor? descriptor = some s) :
    ofMethod name descriptor =
      String.ofList (methodStem name ++ '_' :: '_' :: escapeAll s.types) := by
  obtain ⟨hlegal, hchars⟩ := Signature.of_parse h
  unfold ofMethod
  rw [hchars, Signature.splitDescriptor_chars hlegal]
  simp [Signature.types, escapeAll]

/-- **Methods share a property** exactly when their descriptors are equal, and their names are equal
or a name in brackets and the word for it. -/
theorem methods_share_property {n₁ d₁ n₂ d₂ : String} {s₁ s₂ : Signature} (hn₁ : IsMethod n₁)
    (hn₂ : IsMethod n₂) (hd₁ : Signature.ofDescriptor? d₁ = some s₁)
    (hd₂ : Signature.ofDescriptor? d₂ = some s₂) (hs₁ : s₁.Segmented) (hs₂ : s₂.Segmented) :
    ofMethod n₁ d₁ = ofMethod n₂ d₂ ↔
      d₁ = d₂ ∧ (n₁ = n₂ ∨ ({n₁, n₂} : Set String) = {"<init>", "cons"} ∨
        ({n₁, n₂} : Set String) = {"<clinit>", "class"}) := by
  obtain ⟨hlegal₁, hchars₁⟩ := Signature.of_parse hd₁
  obtain ⟨hlegal₂, hchars₂⟩ := Signature.of_parse hd₂
  rw [ofMethod_eq hd₁, ofMethod_eq hd₂, String.ofList_inj, methodStem_eq hn₁, methodStem_eq hn₂,
    ← unbracketed_eq_iff]
  constructor
  · intro h
    obtain ⟨hname, hescaped⟩ : (unbracketed n₁).toList = (unbracketed n₂).toList ∧
        escapeAll s₁.types = escapeAll s₂.types := by
      -- of the two names one is longer, and what it has more would be read as types
      rcases List.append_eq_append_iff.mp h with ⟨y, hname, hrest⟩ | ⟨y, hname, hrest⟩
      · obtain rfl := eq_nil_of_separators hs₁ hrest
        simp_all
      · obtain rfl := eq_nil_of_separators hs₂ hrest
        simp_all
    have htypes : s₁.types = s₂.types :=
      eq_of_escapeAll_eq (legible_of_tight (closed_flatMap_chars hs₁).tight)
        (legible_of_tight (closed_flatMap_chars hs₂).tight) hescaped
    refine ⟨String.toList_inj.mp ?_, String.toList_inj.mp hname⟩
    rw [hchars₁, hchars₂, chars_eq_of_types_eq hlegal₁ hlegal₂ htypes]
  · rintro ⟨rfl, hname⟩
    cases hd₁.symm.trans hd₂
    rw [hname]

theorem methods_share_property_constructor :
    ofMethod "<init>" "([La/_b;J)La/B;" = ofMethod "cons" "([La/_b;J)La/B;" ∧
      ofMethod "a" "()[I" ≠ ofMethod "a_" "()I" := by
  have hplain {name : String} (hne : name ≠ "") (hall : name.toList.all Identifier.isPart = true) :
      IsMethod name :=
    .inr (.inr ⟨hne, List.all_eq_true.mp hall⟩)
  have hcons : IsMethod "cons" := hplain (by decide) (by decide)
  have ha : IsMethod "a" := hplain (by decide) (by decide)
  have ha' : IsMethod "a_" := hplain (by decide) (by decide)
  have hsegmented : Signature.Segmented ⟨[.array (.object "a/_b"), .long], .object "a/B"⟩ := by
    decide
  refine ⟨?_, fun h => ?_⟩
  · exact (methods_share_property (.inl rfl) hcons rfl rfl hsegmented hsegmented).mpr
      ⟨rfl, .inr (.inl rfl)⟩
  · have harray : Signature.Segmented ⟨[], .array .int⟩ := by decide
    have hint : Signature.Segmented ⟨[], .int⟩ := by decide
    have hsame := (methods_share_property ha ha' rfl rfl harray hint).mp h
    exact absurd hsame.1 (by decide)

end Name

end ClassScript
