import ClassScript.Proofs.LexicalElements

/-!
Stripping block comments from a script keeps its tokens.

The stripper knows quotes and block comments and nothing else. So it has to be said of line comments
and of templates that quotes in them pair off, and of tokens with nothing but comments between them
that they are not read as one without.
-/

namespace ClassScript.Lexical

open Comments

/-! ### Reading by quotes alone -/

/-- How far a text has been read that has no line comments and no substitutions. -/
inductive Flat where
  | code
  | slash
  | inside (quote : Char) (escaped : Bool)
  deriving DecidableEq

namespace Flat

def afterCode (c : Char) : Flat :=
  if isQuote c then inside c false else if c = '/' then slash else code

def next : Flat → Char → Option Flat
  | code, c => some (afterCode c)
  | slash, c => if c = '*' then none else some (afterCode c)
  | inside q true, _ => some (inside q false)
  | inside q false, c =>
    some (if c = '\\' then inside q true else if c = q then code else inside q false)

def mode : Flat → Mode
  | code | slash => .code
  | inside q false => .quoted q
  | inside q true => .escaped q

end Flat

/-- Read by its quotes alone, the text has an end to each, and outside them no
block comment begins. -/
def isSettled (e : List Char) : Bool :=
  e.foldlM Flat.next .code = some .code || e.foldlM Flat.next .code = some .slash

lemma stripFrom_code {c : Char} {r : List Char}
    (h : Flat.afterCode c = .slash → r.head? ≠ some '*') :
    stripFrom .code (c :: r) = c :: stripFrom (Flat.afterCode c).mode r := by
  have hmode : (if isQuote c then Mode.quoted c else .code) = (Flat.afterCode c).mode := by
    unfold Flat.afterCode
    split_ifs <;> rfl
  rw [stripFrom, hmode]
  rintro r' rfl rfl
  exact h rfl rfl

lemma stripFrom_cons {s s' : Flat} {c : Char} {r : List Char} (h : s.next c = some s')
    (hr : s' = .slash → r.head? ≠ some '*') :
    stripFrom s.mode (c :: r) = c :: stripFrom s'.mode r := by
  match s, h with
  | .code, h =>
    cases h
    exact stripFrom_code hr
  | .slash, h =>
    simp only [Flat.next] at h
    split_ifs at h
    cases h
    exact stripFrom_code hr
  | .inside q true, h =>
    cases h
    simp only [Flat.mode, stripFrom]
  | .inside q false, h =>
    cases h
    simp only [Flat.mode, stripFrom, afterQuoted]
    split_ifs <;> rfl

lemma stripFrom_append {s s' : Flat} {e r : List Char} (h : e.foldlM Flat.next s = some s')
    (hr : s' = .slash → r.head? ≠ some '*') :
    stripFrom s.mode (e ++ r) = e ++ stripFrom s'.mode r := by
  induction e generalizing s with
  | nil =>
    cases h
    rfl
  | cons c e ih =>
    rw [List.foldlM_cons] at h
    obtain ⟨s₁, h₁, h⟩ := Option.bind_eq_some_iff.mp h
    rw [List.cons_append, stripFrom_cons h₁, ih h, List.cons_append]
    -- A slash is followed by no star, in the text or after it.
    rintro rfl
    cases e with
    | nil =>
      cases h
      exact hr rfl
    | cons d e =>
      rintro heq
      cases heq
      cases h

lemma strip_code {e : List Char} (h : e.foldlM Flat.next .code = some .code) (r : List Char) :
    stripFrom .code (e ++ r) = e ++ stripFrom .code r :=
  stripFrom_append h fun heq => by cases heq

lemma strip_settled {e r : List Char} (h : isSettled e = true) (hr : r.head? ≠ some '*') :
    stripFrom .code (e ++ r) = e ++ stripFrom .code r := by
  simp only [isSettled, Bool.or_eq_true, decide_eq_true_eq] at h
  obtain h | h := h
  · exact strip_code h r
  · exact stripFrom_append h fun _ => hr

/-! ### The elements that are always settled -/

lemma foldlM_code {e : List Char} (h : ∀ c ∈ e, isQuote c = false ∧ c ≠ '/') :
    e.foldlM Flat.next .code = some .code := by
  induction e with
  | nil => rfl
  | cons c e ih =>
    obtain ⟨hquote, hslash⟩ := h c List.mem_cons_self
    have hnext : Flat.next .code c = some .code := by
      simp [Flat.next, Flat.afterCode, hquote, hslash]
    rw [List.foldlM_cons, hnext]
    exact ih fun d hd => h d (List.mem_cons_of_mem c hd)

lemma not_mem_of_all {p : Char → Bool} {cs : List Char} {c : Char}
    (h : cs.all (fun c => !p c) = true) (hc : p c = true) : c ∉ cs := by
  intro hmem
  have hno := List.all_eq_true.mp h c hmem
  rw [hc] at hno
  cases hno

/-- The characters that the stripper looks for. -/
lemma quote_or_slash {p : Char → Bool} {c : Char} (h : "'\"\x60/".toList.all (fun c => !p c) = true)
    (hc : p c = true) :
    isQuote c = false ∧ c ≠ '/' := by
  have hno := not_mem_of_all h hc
  simpa [isQuote, and_assoc] using hno

lemma foldlM_word {e : List Char} (h : isWord e = true) :
    e.foldlM Flat.next .code = some .code := by
  cases e with
  | nil => cases h
  | cons c e =>
    rw [isWord, Bool.and_eq_true, List.all_eq_true] at h
    refine foldlM_code fun d hd => quote_or_slash (p := isPart) (by decide) ?_
    obtain rfl | hd := List.mem_cons.mp hd
    · rw [isPart, h.1, Bool.true_or]
    · exact h.2 d hd

lemma Numeral.mem_of_next {s s' : Numeral} {c : Char} (h : s.next c = some s') :
    isPart c = true ∨ c ∈ ".+-".toList := by
  by_contra hno
  obtain ⟨hpart, hmark⟩ := not_or.mp hno
  have hdigit : c.isDigit = false :=
    Bool.eq_false_iff.mpr fun hc => hpart (by rw [isPart, hc, Bool.or_true])
  have hdigit' : isDigit c = false := Bool.eq_false_iff.mpr fun hc => hpart (isPart_of_isDigit hc)
  have hletter : c ∉ "0eEnxXoObB".toList := fun hmem =>
    hpart (List.all_eq_true.mp (by decide : "0eEnxXoObB".toList.all isPart = true) c hmem)
  have hnone : s.next c = none := by
    cases s <;> simp_all [next, afterWhole]
  rw [hnone] at h
  cases h

lemma foldlM_number {e : List Char} (h : isNumber e = true) :
    e.foldlM Flat.next .code = some .code := by
  obtain ⟨s', hrun, -⟩ := isNumber_iff.mp h
  clear h
  refine foldlM_code ?_
  generalize Numeral.start = s at hrun
  induction e generalizing s with
  | nil => simp
  | cons c e ih =>
    rw [List.foldlM_cons] at hrun
    obtain ⟨s₁, h₁, hrun⟩ := Option.bind_eq_some_iff.mp hrun
    intro d hd
    obtain rfl | hd := List.mem_cons.mp hd
    · obtain hc | hc := Numeral.mem_of_next h₁
      · exact quote_or_slash (p := isPart) (by decide) hc
      · exact quote_or_slash (p := fun c => ".+-".toList.contains c) (by decide)
          (List.contains_iff_mem.mpr hc)
    · exact ih s₁ hrun d hd

lemma foldlM_quotation {e : List Char} {q : Char} {b : Bool}
    (h : e.foldlM Quotation.next (.inside q b) = some .ended) :
    e.foldlM Flat.next (.inside q b) = some .code := by
  induction e generalizing b with
  | nil => cases h
  | cons c e ih =>
    rw [List.foldlM_cons] at h ⊢
    cases b with
    | true => exact ih h
    | false =>
      simp only [Quotation.next, Flat.next, Option.bind_some, Option.bind_eq_bind] at h ⊢
      split_ifs at h ⊢
      · exact ih h
      · obtain rfl := Quotation.foldlM_ended h
        rfl
      · exact ih h

lemma foldlM_isQuotation {e : List Char} (h : isQuotation e = true) :
    e.foldlM Flat.next .code = some .code := by
  cases e with
  | nil => cases h
  | cons q e =>
    simp only [isQuotation, Bool.and_eq_true, decide_eq_true_eq] at h
    have hnext : Flat.next .code q = some (.inside q false) := by
      rw [Flat.next, Flat.afterCode, if_pos h.1]
    rw [List.foldlM_cons, hnext]
    exact foldlM_quotation h.2

lemma Template.eq_quote_of_next {s : Template} {c : Char} (h : s.next c = some .ended) :
    c = '`' := by
  have htext : ∀ opened, afterText opened c = .ended → c = '`' := by
    intro opened heq
    unfold afterText at heq
    split_ifs at heq with h₁ h₂ h₃
    exact h₃
  -- only in the text of a template does a quote end it
  cases s with
  | text opened => exact htext opened (Option.some.inj h)
  | escape opened => cases h
  | dollar opened =>
    have heq := Option.some.inj h
    split_ifs at heq
    exact htext opened heq
  | code place depth opened =>
    cases place with
    | plain =>
      simp only [next, afterCode] at h
      split_ifs at h
      · split at h <;> cases h
      all_goals cases h
    | string q escaped => cases escaped <;> cases h
    | slash =>
      simp only [next] at h
      split_ifs at h <;> cases h
    | line => cases h
    | block starred => cases h
  | ended => cases h

lemma Flat.eq_slash_of_next {s : Flat} {c : Char} (h : s.next c = some .slash) : c = '/' := by
  have hcode : afterCode c = .slash → c = '/' := by
    intro heq
    unfold afterCode at heq
    split_ifs at heq with h₁ h₂
    exact h₂
  match s, h with
  | code, h => exact hcode (Option.some.inj h)
  | slash, h =>
    simp only [next] at h
    split_ifs at h
    exact hcode (Option.some.inj h)
  | inside q true, h => cases h
  | inside q false, h =>
    have heq := Option.some.inj h
    split_ifs at heq

lemma exists_next_of_foldlM {σ : Type} {next : σ → Char → Option σ} {s s' : σ} {e : List Char}
    {c : Char} (h : (e ++ [c]).foldlM next s = some s') : ∃ m, next m c = some s' := by
  rw [List.foldlM_append] at h
  obtain ⟨m, -, h⟩ := Option.bind_eq_some_iff.mp h
  obtain ⟨m', hm, h⟩ := Option.bind_eq_some_iff.mp h
  cases h
  exact ⟨m, hm⟩

/-- A template ends with its quote, so it does not end with a slash. -/
lemma foldlM_template {e : List Char} (h : isTemplate e = true) (hs : isSettled e = true) :
    e.foldlM Flat.next .code = some .code := by
  simp only [isSettled, Bool.or_eq_true, decide_eq_true_eq] at hs
  refine hs.resolve_right fun hslash => ?_
  cases e with
  | nil => cases h
  | cons q e =>
    obtain ⟨rfl, hrun⟩ := isTemplate_iff.mp h
    obtain rfl | ⟨e, c, rfl⟩ := List.eq_nil_or_concat e
    · cases hrun
    · rw [List.concat_eq_append] at hrun hslash
      obtain ⟨m, hm⟩ := exists_next_of_foldlM hrun
      rw [← List.cons_append] at hslash
      obtain ⟨f, hf⟩ := exists_next_of_foldlM hslash
      have hquote := Template.eq_quote_of_next hm
      rw [Flat.eq_slash_of_next hf] at hquote
      exact absurd hquote (by decide)

/-! ### Stripping an element -/

/-- After a line comment the line ends, and with it the text or not. -/
lemma Next.isLineEnd_head {e r : List Char} (h : Next e r) (he : isLineComment e = true) :
    ∀ c ∈ r.head?, isLineEnd c = true := by
  intro c hc
  by_contra hline
  obtain ⟨cs, rfl, hcs⟩ := isLineComment_iff.mp he
  obtain ⟨r, rfl⟩ := List.head?_eq_some_iff.mp hc
  have hlonger : isLineComment ('/' :: '/' :: cs ++ [c]) = true := by
    refine isLineComment_iff.mpr ⟨cs ++ [c], rfl, fun d hd => ?_⟩
    obtain hd | hd := List.mem_append.mp hd
    · exact hcs d hd
    · rw [List.mem_singleton.mp hd]
      exact Bool.eq_false_iff.mpr hline
  have hel : isElement ('/' :: '/' :: cs ++ [c]) = true := by
    rw [isElement, hlonger, Bool.or_true, Bool.true_or]
  have hrefused := h.longest [c] r rfl (List.cons_ne_nil c []) hel
  simp [admits] at hrefused

lemma strip_element {e r : List Char} (h : Next e r) (hblock : isBlockComment e = false)
    (hsettled : isLineComment e = true ∨ isTemplate e = true → isSettled e = true) :
    stripFrom .code (e ++ r) = e ++ stripFrom .code r := by
  obtain he | he | he | he | he | he | he | he := isElement_iff.mp h.element
  · exact strip_code (foldlM_word he) r
  · exact strip_code (foldlM_number he) r
  · have hall : punctuators.all (fun p => p.foldlM Flat.next .code = some .code) = true := by decide
    exact strip_code (by simpa using List.all_eq_true.mp hall e (mem_punctuators he)) r
  · exact strip_code (foldlM_isQuotation (Bool.and_eq_true_iff.mp he).1) r
  · exact strip_code (foldlM_template he (hsettled (.inr he))) r
  · obtain ⟨c, rfl, hblank⟩ := isBlankText_iff.mp he
    have hc : isQuote c = false ∧ c ≠ '/' := quote_or_slash (p := isBlank) (by decide) hblank
    exact strip_code (foldlM_code fun d hd => List.mem_singleton.mp hd ▸ hc) r
  · refine strip_settled (hsettled (.inl he)) fun hstar => ?_
    exact absurd (h.isLineEnd_head he '*' hstar) (by decide)
  · rw [hblock] at he
    cases he

lemma isClosing_cons_cons (a b : Char) (cs : List Char) :
    isClosing (a :: b :: cs) = if a = '*' ∧ b = '/' then cs.isEmpty else isClosing (b :: cs) := by
  by_cases h : a = '*' ∧ b = '/'
  · obtain ⟨rfl, rfl⟩ := h
    rfl
  · rw [if_neg h, isClosing]
    rintro _ rfl heq
    cases heq
    exact h ⟨rfl, rfl⟩

/-- A comment is stripped to where it first can end. -/
lemma stripFrom_comment {last : Char} {cs : List Char} (h : isClosing (last :: cs) = true)
    (r : List Char) :
    stripFrom (.comment last) (cs ++ r) = stripFrom .code r := by
  induction cs generalizing last with
  | nil =>
    rw [isClosing] at h
    · cases h
    · rintro _ - heq
      cases heq
  | cons c cs ih =>
    rw [isClosing_cons_cons] at h
    rw [List.cons_append, stripFrom]
    split_ifs at h ⊢
    · rw [List.isEmpty_iff.mp h, List.nil_append]
    · exact ih h

lemma strip_blockComment {e : List Char} (h : isBlockComment e = true) (r : List Char) :
    stripFrom .code (e ++ r) = stripFrom .code r := by
  obtain ⟨cs, rfl, hcs⟩ := isBlockComment_iff.mp h
  have hclosing : isClosing ('\x00' :: cs) = true := by
    rw [isClosing, hcs]
    intro _ heq
    exact absurd heq (by decide)
  exact stripFrom_comment hclosing r

def kept (es : List (List Char)) : List (List Char) := es.filter (!isBlockComment ·)

lemma kept_cons_block {b : List Char} (h : isBlockComment b = true) (es : List (List Char)) :
    kept (b :: es) = kept es := by
  simp [kept, h]

lemma kept_cons {e : List Char} (h : isBlockComment e = false) (es : List (List Char)) :
    kept (e :: es) = e :: kept es := by
  simp [kept, h]

/-- All that is left of a text are its elements other than block comments. -/
lemma Lexes.strip_eq {t : List Char} {es : List (List Char)} (h : Lexes t es)
    (hsettled : ∀ e ∈ es, isLineComment e = true ∨ isTemplate e = true → isSettled e = true) :
    stripFrom .code t = (kept es).flatten := by
  induction h with
  | nil => rfl
  | @cons e r es h _ ih =>
    have ih := ih fun f hf => hsettled f (List.mem_cons_of_mem e hf)
    cases hb : isBlockComment e with
    | true => rw [strip_blockComment hb, ih, kept_cons_block hb]
    | false =>
      rw [strip_element h hb (hsettled e List.mem_cons_self), ih, kept_cons hb, List.flatten_cons]

/-! ### Tokens apart -/

/-- Two elements are still read apart when nothing stands between them, whatever
comes after them. -/
def Apart (e f : List Char) : Prop := Next e f ∧ ¬ (e = ['.'] ∧ f.head? = some '.')

instance (e f : List Char) : Decidable (Apart e f) := inferInstanceAs (Decidable (_ ∧ _))

/-- Two tokens with nothing but block comments between them are apart. -/
def Parted : List (List Char) → Prop
  | [] => True
  | e :: es =>
    (es.head?.any isBlockComment = true →
      ∀ f ∈ (es.dropWhile isBlockComment).head?, isToken e = true → isToken f = true → Apart e f) ∧
      Parted es

instance decidableParted : (es : List (List Char)) → Decidable (Parted es)
  | [] => .isTrue trivial
  | _ :: es =>
    have := decidableParted es
    inferInstanceAs (Decidable (_ ∧ _))

lemma next_nil {e : List Char} (h : isElement e = true) : Next e [] := by
  refine ⟨h, by simp [admits], fun _ => rfl, ?_⟩
  intro x y heq hx
  exact absurd (List.append_eq_nil_iff.mp heq.symm).1 hx

/-- An element is the next one if the character after it does not make it longer and it is no point
before two others. -/
lemma next_of_grows {e w : List Char} {c : Char} (he : isElement e = true)
    (hblock : isBlockComment e = false) (hadmits : admits e (c :: w) = true)
    (hend : isNumber e = true → isPart c = false)
    (hlong : isElement (e ++ [c]) = true → admits (e ++ [c]) w = false)
    (hdots : e = ['.'] → c = '.' → w.head? ≠ some '.') : Next e (c :: w) := by
  refine ⟨he, hadmits, hend, ?_⟩
  intro x y heq hx hel
  cases x with
  | nil => exact absurd rfl hx
  | cons d x =>
    rw [List.cons_append] at heq
    obtain ⟨rfl, rfl⟩ := List.cons.inj heq
    obtain ⟨hel', hchain⟩ | ⟨hnumber, hpart⟩ | ⟨rfl, rfl, rfl⟩ := isElement_grows he hblock hel
    · have hrefused := hlong hel'
      have hx : x = [] := hchain (by by_contra hne; simp [admits, hne] at hrefused)
      rw [hx, List.nil_append] at hrefused
      rwa [hx]
    · rw [hend hnumber] at hpart
      cases hpart
    · exact absurd rfl (hdots rfl rfl)

/-! ### The characters around a comment -/

lemma isBlank_apart {c : Char} (h : isBlank c = true) :
    isPart c = false ∧ c ∉ "0123456789.+-".toList := by
  have hdigit : c ∉ "0123456789.+-".toList := not_mem_of_all (by decide) h
  refine ⟨Bool.eq_false_iff.mpr fun hpart => ?_, hdigit⟩
  simp only [isPart, isLetter, h, Bool.not_true, Bool.and_false, Bool.or_false,
    Bool.or_eq_true] at hpart
  obtain hstart | hc := hpart
  · have hall : ∀ n < 128, Identifier.isStart (Char.ofNat n) = true → isBlank (Char.ofNat n) =
        false := by decide
    have hno := hall c.toNat (toNat_lt_of_isStart hstart)
    rw [Char.ofNat_toNat] at hno
    rw [hno hstart] at h
    cases h
  · exact hdigit (List.mem_append_left ".+-".toList (mem_digits hc))

lemma not_isElement_blank {c d : Char} (hc : isBlank c = true) : isElement [c, d] = false := by
  obtain ⟨hpart, hdigit⟩ := isBlank_apart hc
  have hquote : isQuote c = false ∧ c ≠ '/' := quote_or_slash (p := isBlank) (by decide) hc
  refine Bool.eq_false_iff.mpr fun hel => ?_
  obtain h | h | h | h | h | ⟨-, h⟩ | h := isElement_cons hel
  · rw [isPart, h] at hpart
    cases hpart
  · obtain ⟨s, hs, -⟩ := isNumber_iff.mp h
    exact hdigit (List.mem_append_left "+-".toList (mem_of_foldlM_start hs))
  · have hall : punctuators.all (fun p => !p.any isBlank) = true := by decide
    have hp := List.all_eq_true.mp hall _ (mem_punctuators h)
    simp [hc] at hp
  · rw [(isString_iff.mp h).1] at hquote
    cases hquote.1
  · rw [(isTemplate_iff.mp h).1] at hquote
    exact absurd hquote.1 (by decide)
  · cases h
  · exact hquote.2 h

lemma isPart_of_isWord_concat {e : List Char} {c : Char} (h : isWord (e ++ [c]) = true) :
    isPart c = true := by
  cases e with
  | nil => simp_all [isWord, isPart]
  | cons d e => simp_all [isWord]

lemma not_isElement_concat {e : List Char} {c : Char} (he : isToken e = true)
    (hc : isBlank c = true ∨ c = '/') :
    isElement (e ++ [c]) = false := by
  have hpart : isPart c = false ∧ c ∉ ".+-".toList := by
    obtain hc | rfl := hc
    · obtain ⟨hpart, hmark⟩ := isBlank_apart hc
      exact ⟨hpart, fun hmem => hmark (List.mem_append_right "0123456789".toList hmem)⟩
    · decide
  have hel : isElement e = true := by rw [isElement, he, Bool.true_or, Bool.true_or, Bool.true_or]
  refine Bool.eq_false_iff.mpr fun h => ?_
  -- one kind of element after the other: none ends with this character behind a token
  obtain h | h | h | h | h | h | h | h := isElement_iff.mp h
  · rw [isPart_of_isWord_concat h] at hpart
    cases hpart.1
  · obtain ⟨s, hs, -⟩ := isNumber_iff.mp h
    obtain ⟨m, hm⟩ := exists_next_of_foldlM hs
    obtain h | h := Numeral.mem_of_next hm
    · rw [h] at hpart
      cases hpart.1
    · exact hpart.2 h
  · have hall : punctuators.all (fun p => p.getLast?.all fun c => !isBlank c && c != '/') := by
      decide
    have hlast := List.all_eq_true.mp hall _ (mem_punctuators h)
    rw [List.getLast?_concat] at hlast
    obtain hc | rfl := hc
    · simp [hc] at hlast
    · cases hlast
  · exact not_isElement_literal hel (.inl h)
  · exact not_isElement_literal hel (.inr h)
  · cases e with
    | nil => cases he
    | cons d e => cases e <;> cases h
  · obtain ⟨cs, hcs, -⟩ := isLineComment_iff.mp h
    obtain ⟨ds, rfl⟩ := exists_cons_of_slash hel hcs
    cases isToken_slash he
  · obtain ⟨cs, hcs, -⟩ := isBlockComment_iff.mp h
    obtain ⟨ds, rfl⟩ := exists_cons_of_slash hel hcs
    cases isToken_slash he

/-! ### Elements stay apart without the comments -/

lemma kept_cases (es : List (List Char)) : kept es = [] ∨
    ∃ g es', es.dropWhile isBlockComment = g :: es' ∧ isBlockComment g = false ∧
      kept es = g :: kept es' := by
  induction es with
  | nil => exact .inl rfl
  | cons b es ih =>
    cases hb : isBlockComment b with
    | true =>
      rw [kept_cons_block hb, List.dropWhile_cons_of_pos hb]
      exact ih
    | false =>
      refine .inr ⟨b, es, ?_, hb, kept_cons hb es⟩
      rw [List.dropWhile_cons_of_neg (by rw [hb]; exact Bool.false_ne_true)]

lemma Lexes.isElement {t : List Char} {es : List (List Char)} (h : Lexes t es) :
    ∀ e ∈ es, isElement e = true := by
  induction h with
  | nil => simp
  | cons h _ ih => exact List.forall_mem_cons.mpr ⟨h.element, ih⟩

lemma exists_cons_of_isElement {e : List Char} (h : isElement e = true) : ∃ c e', e = c :: e' := by
  cases e with
  | nil => cases h
  | cons c e => exact ⟨c, e, rfl⟩

/-- An element that is neither a token nor a block comment begins with a blank or a slash. -/
lemma exists_cons_of_not_isToken {e : List Char} (h : isElement e = true)
    (htoken : isToken e = false) (hblock : isBlockComment e = false) :
    ∃ c e', e = c :: e' ∧ (isBlank c = true ∨ c = '/') := by
  simp only [isElement, htoken, hblock, Bool.false_or, Bool.or_false, Bool.or_eq_true] at h
  obtain h | h := h
  · obtain ⟨c, rfl, hc⟩ := isBlankText_iff.mp h
    exact ⟨c, [], rfl, .inl hc⟩
  · obtain ⟨cs, rfl, -⟩ := isLineComment_iff.mp h
    exact ⟨'/', _, rfl, .inr rfl⟩

lemma Apart.next {e f : List Char} (h : Apart e f) (hblock : isBlockComment e = false)
    (hf : isElement f = true) (k : List Char) : Next e (f ++ k) := by
  obtain ⟨h, hdots⟩ := h
  obtain ⟨c, f, rfl⟩ := exists_cons_of_isElement hf
  refine next_of_grows h.element hblock h.admitted h.ended (fun hel => ?_) fun he hc =>
    absurd ⟨he, hc ▸ rfl⟩ hdots
  have hrefused := h.longest [c] f rfl (List.cons_ne_nil c []) hel
  cases f with
  | nil => simp [admits] at hrefused
  | cons d f => exact hrefused

/-- A blank on one side, or a comment after the other, is enough to keep two elements apart. -/
lemma next_gap {e f : List Char} (he : isElement e = true) (hf : isElement f = true)
    (heb : isBlockComment e = false) (hfb : isBlockComment f = false)
    (hline : isLineComment e = false) (h : isToken e = true → isToken f = false) (k : List Char) :
    Next e (f ++ k) := by
  -- between a token and what is none stands a character that continues no token
  cases htoken : isToken e with
  | true =>
    obtain ⟨c, f, rfl, hc⟩ := exists_cons_of_not_isToken hf (h htoken) hfb
    have hapart : isPart c = false ∧ c ∉ "0123456789.".toList := by
      obtain hc | rfl := hc
      · obtain ⟨hpart, hmark⟩ := isBlank_apart hc
        exact ⟨hpart, fun hmem => hmark (List.mem_append_left "+-".toList hmem)⟩
      · decide
    refine next_of_grows he heb ?_ (fun _ => hapart.1) (fun hel => ?_) ?_
    · have hdigit : c.isDigit = false :=
        Bool.eq_false_iff.mpr fun hd => hapart.2 (List.mem_append_left ['.'] (mem_digits hd))
      simp [admits, hdigit]
    · rw [not_isElement_concat htoken hc] at hel
      cases hel
    · rintro - rfl
      exact absurd (by decide) hapart.2
  | false =>
    obtain ⟨c, f, rfl⟩ := exists_cons_of_isElement hf
    have hblank : isBlankText e = true := by simpa [isElement, htoken, heb, hline] using he
    obtain ⟨b, rfl, hb⟩ := isBlankText_iff.mp hblank
    have hmark := (isBlank_apart hb).2
    refine next_of_grows he heb ?_ (fun hnumber => ?_) (fun hel => ?_) ?_
    · simp [admits]
    · obtain ⟨s, hs, -⟩ := isNumber_iff.mp hnumber
      exact absurd (List.mem_append_left "+-".toList (mem_of_foldlM_start hs)) hmark
    · rw [List.singleton_append, not_isElement_blank hb] at hel
      cases hel
    · rintro heq -
      cases heq
      exact absurd (by decide) hmark

lemma isElement_point_digit {d : Char} (hd : d.isDigit = true) : isElement ['.', d] = true := by
  have hnumber : isNumber ['.', d] = true := by
    simp [isNumber, Numeral.next, Numeral.isEnd, hd]
  exact isElement_iff.mpr (.inr (.inl hnumber))

/-- What follows the next element does not matter to the one before. Only after two points a
third one does. -/
lemma Next.congr_rest {e f r k : List Char} (h : Next e (f ++ r)) (hf : Next f r)
    (hblock : isBlockComment e = false) (hdots : e = ['.'] → f = ['.'] → k.head? ≠ some '.') :
    Next e (f ++ k) := by
  obtain ⟨c, f, rfl⟩ := exists_cons_of_isElement hf.element
  refine next_of_grows h.element hblock h.admitted h.ended (fun hel => ?_) ?_
  · have hrefused := h.longest [c] (f ++ r) rfl (List.cons_ne_nil c []) hel
    cases f with
    | nil =>
      -- A chain that is refused stands before a digit, which would have gone with its point.
      simp only [admits, List.nil_append, Bool.or_eq_false_iff, bne_eq_false_iff_eq,
        Bool.not_eq_false',
        Option.any_eq_true] at hrefused
      obtain ⟨hchain, d, hd, hdigit⟩ := hrefused
      obtain rfl : c = '.' := by simpa using congrArg List.getLast? hchain
      obtain ⟨r, rfl⟩ := List.head?_eq_some_iff.mp hd
      have hlonger := hf.longest [d] r rfl (List.cons_ne_nil d []) (isElement_point_digit hdigit)
      simp [admits] at hlonger
    | cons d f => exact hrefused
  · rintro rfl rfl
    cases f with
    | nil => exact hdots rfl rfl
    | cons d f =>
      rintro hd
      cases hd
      have hrefused := h.longest ['.', '.'] (f ++ r) rfl (List.cons_ne_nil _ _) (by decide)
      simp [admits] at hrefused

lemma dropWhile_eq_self {es : List (List Char)} (h : es.head?.any isBlockComment = false) :
    es.dropWhile isBlockComment = es := by
  cases es with
  | nil => rfl
  | cons b es =>
    simp only [List.head?_cons, Option.any_some] at h
    rw [List.dropWhile_cons_of_neg (by rw [h]; exact Bool.false_ne_true)]

/-- A point that no point follows is followed by none without the comments either. -/
lemma head_kept_ne_point {r : List Char} {es : List (List Char)} (hr : Lexes r es)
    (hp : Parted (['.'] :: es)) (hpoint : r.head? ≠ some '.') :
    (kept es).flatten.head? ≠ some '.' := by
  obtain hnil | ⟨g, es', hdrop, hg, hkept⟩ := kept_cases es
  · rw [hnil]
    simp
  · have hel : isElement g = true :=
      hr.isElement g ((List.dropWhile_sublist _).subset (hdrop ▸ List.mem_cons_self))
    obtain ⟨c, g', rfl⟩ := exists_cons_of_isElement hel
    rw [hkept]
    change some c ≠ some '.'
    rintro hc
    cases hc
    -- a point that comes first now came first before, or a comment stood between the two
    cases hhead : es.head?.any isBlockComment with
    | false =>
      rw [dropWhile_eq_self hhead] at hdrop
      rw [← hr.flatten, hdrop] at hpoint
      exact hpoint rfl
    | true =>
      cases htoken : isToken ('.' :: g') with
      | true => exact (hp.1 hhead ('.' :: g') (by rw [hdrop]; rfl) (by decide) htoken).2 ⟨rfl, rfl⟩
      | false =>
        obtain ⟨d, _, heq, hd⟩ := exists_cons_of_not_isToken hel htoken hg
        cases heq
        exact absurd hd (by decide)

/-- The next element of a text is the next one of what is left of the text. -/
lemma Next.kept {e r : List Char} {es : List (List Char)} (h : Next e r) (hr : Lexes r es)
    (hblock : isBlockComment e = false) (hp : Parted (e :: es)) : Next e (kept es).flatten := by
  obtain hnil | ⟨g, es', hdrop, hg, hkept⟩ := kept_cases es
  · rw [hnil]
    exact next_nil h.element
  · have hel : isElement g = true :=
      hr.isElement g ((List.dropWhile_sublist _).subset (hdrop ▸ List.mem_cons_self))
    rw [hkept, List.flatten_cons]
    cases hhead : es.head?.any isBlockComment with
    | true =>
      by_cases htokens : isToken e = true ∧ isToken g = true
      · exact (hp.1 hhead g (by rw [hdrop]; rfl) htokens.1 htokens.2).next hblock hel _
      · refine next_gap h.element hel hblock hg ?_ (fun he => Bool.eq_false_iff.mpr fun hg =>
          htokens ⟨he, hg⟩) _
        -- A line comment has its line to itself.
        refine Bool.eq_false_iff.mpr fun hline => ?_
        obtain ⟨b, hb, hbb⟩ := (Option.any_eq_true _ _).mp hhead
        obtain ⟨cs, rfl, -⟩ := isBlockComment_iff.mp hbb
        obtain ⟨fs, rfl⟩ := List.head?_eq_some_iff.mp hb
        exact absurd (h.isLineEnd_head hline '/' (by rw [← hr.flatten]; rfl)) (by decide)
    | false =>
      rw [dropWhile_eq_self hhead] at hdrop
      subst hdrop
      cases hr with
      | cons hnext hr =>
        refine h.congr_rest hnext hblock ?_
        rintro rfl rfl
        refine head_kept_ne_point hr hp.2 fun hpoint => ?_
        obtain ⟨r, rfl⟩ := List.head?_eq_some_iff.mp hpoint
        have hrefused := h.longest ['.', '.'] r rfl (List.cons_ne_nil _ _) (by decide)
        simp [admits] at hrefused

lemma Lexes.kept {t : List Char} {es : List (List Char)} (h : Lexes t es) (hp : Parted es) :
    Lexes (kept es).flatten (kept es) := by
  induction h with
  | nil => exact .nil
  | @cons e r es h hr ih =>
    cases hb : isBlockComment e with
    | true =>
      rw [kept_cons_block hb]
      exact ih hp.2
    | false =>
      rw [kept_cons hb, List.flatten_cons]
      exact .cons (h.kept hr hb hp) (ih hp.2)

lemma isToken_eq_false_of_isBlockComment {e : List Char} (h : isBlockComment e = true) :
    isToken e = false := by
  obtain ⟨cs, rfl, -⟩ := isBlockComment_iff.mp h
  refine Bool.eq_false_iff.mpr fun htoken => ?_
  cases isToken_slash htoken

lemma tokens_kept (es : List (List Char)) : tokens (kept es) = tokens es := by
  unfold tokens kept
  rw [List.filter_filter]
  refine List.filter_congr fun e _ => ?_
  cases hb : isBlockComment e with
  | true => rw [isToken_eq_false_of_isBlockComment hb, Bool.false_and]
  | false => rw [Bool.not_false, Bool.and_true]

/-- **Stripping block comments keeps the tokens of a script.** Where the quotes of its line comments
and templates pair off, and tokens with nothing but comments between them are apart, what is left is
read in one way. It has the same tokens, in the same order, and no block comment. -/
theorem strip_keeps_tokens {text : String} {es : List (List Char)} (h : Lexes text.toList es)
    (hsettled : ∀ e ∈ es, isLineComment e = true ∨ isTemplate e = true → isSettled e = true)
    (hparted : Parted es) :
    ∃ fs, (∀ gs, Lexes (strip text).toList gs ↔ gs = fs) ∧ tokens fs = tokens es ∧
      ∀ f ∈ fs, isBlockComment f = false := by
  have hlexes : Lexes (strip text).toList (kept es) := by
    rw [strip, String.toList_ofList, h.strip_eq hsettled]
    exact h.kept hparted
  refine ⟨kept es, fun gs => ⟨fun hgs => hgs.unique hlexes, fun hgs => hgs ▸ hlexes⟩,
    tokens_kept es, ?_⟩
  intro f hf
  simpa using (List.mem_filter.mp hf).2

/-- A script with comments between tokens, quotes in a comment, a comment in a literal and a
template in a template. -/
def annotated : List (List Char) :=
  ["//''", "\n", "f", "(", "/**/", ")", ";", "'/**/'", "/***/", ";", "`/*$\x7b`n`\x7d`"].map
    String.toList

theorem strip_keeps_tokens_annotated :
    (Lexes annotated.flatten annotated ∧ Parted annotated) ∧
      ∃ fs, (∀ gs, Lexes (strip (String.ofList annotated.flatten)).toList gs ↔ gs = fs) ∧
        tokens fs = tokens annotated ∧
        ∀ f ∈ fs, isBlockComment f = false := by
  have hlexes : Lexes annotated.flatten annotated := by decide +kernel
  have hparted : Parted annotated := by decide +kernel
  refine ⟨⟨hlexes, hparted⟩, strip_keeps_tokens (by rwa [String.toList_ofList]) ?_ hparted⟩
  decide +kernel

/-- **A quote in a line comment is taken for the beginning of a literal.** The literal that follows
loses its text. -/
theorem strip_empties_literal : ∃ es fs,
    Lexes "//'\na = '/**/';".toList es ∧ Lexes (strip "//'\na = '/**/';").toList fs ∧
      tokens es = ["a", "=", "'/**/'", ";"].map String.toList ∧
      tokens fs = ["a", "=", "''", ";"].map String.toList := by
  refine ⟨["//'", "\n", "a", " ", "=", " ", "'/**/'", ";"].map String.toList,
    ["//'", "\n", "a", " ", "=", " ", "''", ";"].map String.toList, ?_⟩
  decide +kernel

end ClassScript.Lexical
