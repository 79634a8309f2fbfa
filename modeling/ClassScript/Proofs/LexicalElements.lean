import ClassScript.Script.Comments
import ClassScript.Script.Quoted
import Mathlib.Tactic.ByContra
import Mathlib.Tactic.Lemma
import Mathlib.Tactic.SplitIfs

/-!
How a script is read: the elements of a text, each as long as can be.

An element is a blank, a word, a number, a punctuator, a literal or a comment. The next element of a
text is the longest piece at its front that is one. There is no division here: a slash begins a
comment or an assignment and nothing else. A template is one literal, with all that is substituted
in it.
-/

namespace ClassScript.Lexical

open Comments (isQuote)

/-! ### Characters -/

def isLineEnd (c : Char) : Bool := ['\n', '\r', '\u2028', '\u2029'].contains c

def isBlank (c : Char) : Bool :=
  isLineEnd c || (0x2000 ≤ c.toNat && c.toNat ≤ 0x200a) ||
    [' ', '\t', '\x0b', '\x0c', '\u00a0', '\u1680', '\u202f', '\u205f', '\u3000',
      '\ufeff'].contains c

/-- What a word may begin with. Outside ASCII all that is not blank counts as a letter. -/
def isLetter (c : Char) : Bool := Identifier.isStart c || (0x80 ≤ c.toNat && !isBlank c)

def isPart (c : Char) : Bool := isLetter c || c.isDigit

/-! ### Words, numbers and punctuators -/

def isWord : List Char → Bool
  | [] => false
  | c :: cs => isLetter c && cs.all isPart

inductive Numeral where
  | start
  /-- A first zero, which the letter of a base may follow. -/
  | zero
  | whole
  /-- A point before any digit. -/
  | point
  | fraction
  /-- After the letter of an exponent, and after its sign. -/
  | exponent
  | signed
  | power
  /-- After the letter of a base, and in the digits that follow it. -/
  | base
  | digits
  /-- After the letter of a big integer. -/
  | big

namespace Numeral

def isDigit (c : Char) : Bool := c.isDigit || c == '_'

def afterWhole (c : Char) : Option Numeral :=
  if isDigit c then some whole
  else if c = '.' then some fraction
  else if c = 'e' ∨ c = 'E' then some exponent
  else if c = 'n' then some big
  else none

def next : Numeral → Char → Option Numeral
  | start, c =>
    if c = '0' then some zero else if c.isDigit then some whole else if c =
      '.' then some point else none
  | zero, c => if "xXoObB".toList.contains c then some base else afterWhole c
  | whole, c => afterWhole c
  | point, c => if c.isDigit then some fraction else none
  | fraction, c =>
    if isDigit c then some fraction else if c = 'e' ∨ c = 'E' then some exponent else none
  | exponent, c => if c = '+' ∨ c = '-' then some signed else if c.isDigit then some power else none
  | signed, c => if c.isDigit then some power else none
  | power, c => if isDigit c then some power else none
  | base, c => if isPart c then some digits else none
  | digits, c => if isPart c then some digits else none
  | big, _ => none

def isEnd : Numeral → Bool
  | zero | whole | fraction | power | digits | big => true
  | start | point | exponent | signed | base => false

end Numeral

def isNumber (e : List Char) : Bool := (e.foldlM Numeral.next .start).any Numeral.isEnd

def punctuators : List (List Char) :=
  ["\x7b", "\x7d", "(", ")", "[", "]", ".", "...", ";", ",", "<", ">", "<=", ">=", "==", "!=",
    "===", "!==", "+", "-",
    "*", "%", "**", "++", "--", "<<", ">>", ">>>", "&", "|", "^", "!", "~", "&&", "||", "??", "?",
    "?.", ":", "=", "+=",
    "-=", "*=", "/=", "%=", "**=", "<<=", ">>=", ">>>=", "&=", "|=", "^=", "&&=", "||=", "??=",
    "=>"].map String.toList

def isPunctuator (e : List Char) : Bool := punctuators.contains e

/-! ### Literals -/

inductive Quotation where
  | inside (quote : Char) (escaped : Bool)
  | ended
  deriving DecidableEq

def Quotation.next : Quotation → Char → Option Quotation
  | inside q true, _ => some (inside q false)
  | inside q false, c =>
    some (if c = '\\' then inside q true else if c = q then ended else inside q false)
  | ended, _ => none

/-- From a quote to the next one like it that is not escaped. -/
def isQuotation : List Char → Bool
  | [] => false
  | q :: cs => isQuote q && cs.foldlM Quotation.next (.inside q false) = some .ended

/-- Where a character stands in the code of a substitution. -/
inductive Place where
  | plain
  | string (quote : Char) (escaped : Bool)
  /-- After a slash, and in the comments that it may begin. -/
  | slash
  | line
  | block (starred : Bool)
  deriving DecidableEq

/-- How far a template has been read, after its first quote. Each substitution that is open counts
the braces that are open in it. -/
inductive Template where
  | text (opened : List Nat)
  | escape (opened : List Nat)
  | dollar (opened : List Nat)
  | code (place : Place) (depth : Nat) (opened : List Nat)
  | ended
  deriving DecidableEq

namespace Template

def afterText (opened : List Nat) (c : Char) : Template :=
  if c = '\\' then escape opened
  else if c = '$' then dollar opened
  else if c = '`' then
    match opened with
    | [] => ended
    | depth :: opened => code .plain depth opened
  else text opened

def afterCode (depth : Nat) (opened : List Nat) (c : Char) : Option Template :=
  if c = '\x7d' then
    match depth with
    | 0 => some (text opened)
    | n + 1 => some (code .plain n opened)
  else if c = '\x7b' then some (code .plain (depth + 1) opened)
  else if c = '`' then some (text (depth :: opened))
  else if c = '\'' ∨ c = '"' then some (code (.string c false) depth opened)
  else if c = '/' then some (code .slash depth opened)
  else if c = '\\' then none
  else some (code .plain depth opened)

def next : Template → Char → Option Template
  | text opened, c => some (afterText opened c)
  | escape opened, _ => some (text opened)
  | dollar opened, c => some (if c = '\x7b' then code .plain 0 opened else afterText opened c)
  | code .plain depth opened, c => afterCode depth opened c
  | code (.string q true) depth opened, _ => some (code (.string q false) depth opened)
  | code (.string q false) depth opened, c =>
    some (code (if c = '\\' then .string q true else if c = q then .plain else .string q false)
      depth opened)
  | code .slash depth opened, c =>
    if c = '/' then some (code .line depth opened)
    else if c = '*' then some (code (.block false) depth opened)
    else if c = '=' then some (code .plain depth opened)
    else none
  | code .line depth opened, c => some (code (if isLineEnd c then .plain else .line) depth opened)
  | code (.block starred) depth opened, c =>
    some (code (if starred ∧ c = '/' then .plain else .block (c = '*')) depth opened)
  | ended, _ => none

end Template

def isString (e : List Char) : Bool := isQuotation e && e.head? != some '`'

def isTemplate : List Char → Bool
  | '`' :: cs => cs.foldlM Template.next (.text []) = some .ended
  | _ => false

/-! ### Comments -/

def isLineComment : List Char → Bool
  | '/' :: '/' :: cs => cs.all (!isLineEnd ·)
  | _ => false

/-- The text ends where a comment in it first ends. -/
def isClosing : List Char → Bool
  | [] => false
  | '*' :: '/' :: cs => cs.isEmpty
  | _ :: cs => isClosing cs

def isBlockComment : List Char → Bool
  | '/' :: '*' :: cs => isClosing cs
  | _ => false

/-! ### Elements -/

def isBlankText : List Char → Bool
  | [c] => isBlank c
  | _ => false

def isToken (e : List Char) : Bool :=
  isWord e || isNumber e || isPunctuator e || isString e || isTemplate e

def isElement (e : List Char) : Bool :=
  isToken e || isBlankText e || isLineComment e || isBlockComment e

/-- A question mark with a point before a digit is a condition and not a chain. -/
def admits (e r : List Char) : Bool := e != ['?', '.'] || !r.head?.any Char.isDigit

/-- The next element of a text is `e`, and `r` is the rest: nothing longer will do, and a number
does not run on into a letter or a digit. -/
structure Next (e r : List Char) : Prop where
  element : isElement e = true
  admitted : admits e r = true
  ended : isNumber e = true → r.head?.any isPart = false
  longest : ∀ x y, r = x ++ y → x ≠ [] → isElement (e ++ x) = true → admits (e ++ x) y = false

inductive Lexes : List Char → List (List Char) → Prop
  | nil : Lexes [] []
  | cons {e r : List Char} {es : List (List Char)} (h : Next e r) (hr : Lexes r es) :
      Lexes (e ++ r) (e :: es)

/-- The elements that are neither blanks nor comments. -/
def tokens (es : List (List Char)) : List (List Char) := es.filter isToken

/-! ### A text has one reading -/

lemma Next.eq_nil {e x r : List Char} (h : Next e (x ++ r)) (hx : Next (e ++ x) r) : x = [] := by
  by_contra hne
  have hrefused := h.longest x r rfl hne hx.element
  rw [hx.admitted] at hrefused
  cases hrefused

lemma Next.unique {e e' r r' : List Char} (h : Next e r) (h' : Next e' r')
    (heq : e ++ r = e' ++ r') :
    e = e' ∧ r = r' := by
  obtain ⟨x, rfl, rfl⟩ | ⟨x, rfl, rfl⟩ := List.append_eq_append_iff.mp heq
  · obtain rfl := h.eq_nil h'
    simp
  · obtain rfl := h'.eq_nil h
    simp

lemma Lexes.unique {t : List Char} {es fs : List (List Char)} (h : Lexes t es) (h' : Lexes t fs) :
    es = fs := by
  induction h generalizing fs with
  | nil =>
    generalize ht : ([] : List Char) = t at h'
    cases h' with
    | nil => rfl
    | cons h _ =>
      obtain ⟨rfl, -⟩ := List.append_eq_nil_iff.mp ht.symm
      cases h.element
  | @cons e r es h _ ih =>
    generalize ht : e ++ r = t at h'
    cases h' with
    | nil =>
      obtain ⟨rfl, -⟩ := List.append_eq_nil_iff.mp ht
      cases h.element
    | cons h₂ hr₂ =>
      obtain ⟨rfl, rfl⟩ := h.unique h₂ ht
      rw [ih hr₂]

lemma Lexes.flatten {t : List Char} {es : List (List Char)} (h : Lexes t es) : es.flatten = t := by
  induction h with
  | nil => rfl
  | cons _ _ ih => rw [List.flatten_cons, ih]

/-! ### Readings can be checked -/

lemma next_iff {e r : List Char} : Next e r ↔
    isElement e = true ∧ admits e r = true ∧ (isNumber e = true → r.head?.any isPart = false) ∧
      ∀ n < r.length, isElement (e ++ r.take (n + 1)) = true →
        admits (e ++ r.take (n + 1)) (r.drop (n + 1)) = false := by
  constructor
  · intro h
    refine ⟨h.element, h.admitted, h.ended, fun n hn =>
      h.longest _ _ (List.take_append_drop _ _).symm ?_⟩
    exact List.ne_nil_of_length_pos (by rw [List.length_take]; omega)
  · rintro ⟨hel, had, hend, hlong⟩
    refine ⟨hel, had, hend, ?_⟩
    rintro x y rfl hx
    have hpos := List.length_pos_iff.mpr hx
    have h := hlong (x.length - 1) (by rw [List.length_append]; omega)
    rwa [Nat.sub_add_cancel hpos, List.take_left, List.drop_left] at h

instance (e r : List Char) : Decidable (Next e r) := decidable_of_iff _ next_iff.symm

lemma lexes_cons_iff {t e : List Char} {es : List (List Char)} :
    Lexes t (e :: es) ↔ e ++ es.flatten = t ∧ Next e es.flatten ∧ Lexes es.flatten es := by
  constructor
  · rintro (_ | ⟨h, hr⟩)
    obtain rfl := hr.flatten
    exact ⟨rfl, h, hr⟩
  · rintro ⟨rfl, h, hr⟩
    exact .cons h hr

lemma lexes_nil_iff {t : List Char} : Lexes t [] ↔ t = [] :=
  ⟨fun h => by cases h; rfl, fun h => h ▸ .nil⟩

instance decidableLexes : (t : List Char) → (es : List (List Char)) → Decidable (Lexes t es)
  | _, [] => decidable_of_iff _ lexes_nil_iff.symm
  | _, _ :: es =>
    have := decidableLexes es.flatten es
    decidable_of_iff _ lexes_cons_iff.symm

/-! ### What an element can grow into -/

lemma isElement_iff {e : List Char} : isElement e = true ↔
    isWord e = true ∨ isNumber e = true ∨ isPunctuator e = true ∨ isString e = true ∨
      isTemplate e = true ∨
      isBlankText e = true ∨ isLineComment e = true ∨ isBlockComment e = true := by
  simp only [isElement, isToken, Bool.or_eq_true, or_assoc]

lemma isNumber_iff {e : List Char} :
    isNumber e = true ↔ ∃ s, e.foldlM Numeral.next .start = some s ∧ s.isEnd = true :=
  Option.any_eq_true _ _

lemma isString_iff {c : Char} {e : List Char} : isString (c :: e) = true ↔
    isQuote c = true ∧ e.foldlM Quotation.next (.inside c false) = some .ended ∧ c ≠ '`' := by
  simp [isString, isQuotation, and_assoc]

lemma isTemplate_iff {c : Char} {e : List Char} : isTemplate (c :: e) = true ↔
    c = '`' ∧ e.foldlM Template.next (.text []) = some .ended := by
  constructor
  · intro h
    unfold isTemplate at h
    split at h
    · rename_i heq
      cases heq
      exact ⟨rfl, by simpa using h⟩
    · cases h
  · rintro ⟨rfl, h⟩
    simp [isTemplate, h]

lemma isBlankText_iff {e : List Char} : isBlankText e = true ↔ ∃ c, e = [c] ∧ isBlank c = true := by
  constructor
  · intro h
    cases e with
    | nil => cases h
    | cons c e =>
      cases e with
      | nil => exact ⟨c, rfl, h⟩
      | cons d e => cases h
  · rintro ⟨c, rfl, hc⟩
    exact hc

lemma isLineComment_iff {e : List Char} :
    isLineComment e = true ↔ ∃ cs, e = '/' :: '/' :: cs ∧ ∀ c ∈ cs, isLineEnd c = false := by
  unfold isLineComment
  split
  · simp
  · rename_i hno
    refine iff_of_false Bool.false_ne_true ?_
    rintro ⟨cs, rfl, -⟩
    exact hno cs rfl

lemma isBlockComment_iff {e : List Char} :
    isBlockComment e = true ↔ ∃ cs, e = '/' :: '*' :: cs ∧ isClosing cs = true := by
  unfold isBlockComment
  split
  · simp
  · rename_i hno
    refine iff_of_false Bool.false_ne_true ?_
    rintro ⟨cs, rfl, -⟩
    exact hno cs rfl

namespace Numeral

lemma isPart_of_isDigit {c : Char} (h : isDigit c = true) : isPart c = true := by
  obtain h | h := Bool.or_eq_true_iff.mp h
  · exact Bool.or_eq_true_iff.mpr (.inr h)
  · obtain rfl := beq_iff_eq.mp h
    decide

lemma afterWhole_cases {c : Char} {s : Numeral} (h : afterWhole c = some s) :
    isPart c = true ∨ s.isEnd = true := by
  unfold afterWhole at h
  split_ifs at h with h₁ h₂ h₃ h₄
  · exact .inl (isPart_of_isDigit h₁)
  · cases h
    exact .inr rfl
  · obtain rfl | rfl := h₃
    all_goals exact .inl (by decide)
  · subst h₄
    exact .inl (by decide)

/-- What makes a number longer is a letter or a digit, or else it makes another number of it. -/
lemma next_cases {s s' : Numeral} {c : Char} (hs : s.isEnd = true) (h : next s c = some s') :
    isPart c = true ∨ s'.isEnd = true := by
  -- where a number may end, a point is all that goes on with it and is no part of a word
  cases s with
  | start | point | exponent | signed | base => cases hs
  | zero =>
    simp only [next] at h
    split_ifs at h with hc
    · exact .inl (List.all_eq_true.mp (by decide : "xXoObB".toList.all isPart = true) c
        (List.contains_iff_mem.mp hc))
    · exact afterWhole_cases h
  | whole => exact afterWhole_cases h
  | fraction =>
    simp only [next] at h
    split_ifs at h with h₁ h₂
    · exact .inl (isPart_of_isDigit h₁)
    · obtain rfl | rfl := h₂
      all_goals exact .inl (by decide)
  | power =>
    simp only [next] at h
    split_ifs at h with h₁
    exact .inl (isPart_of_isDigit h₁)
  | digits =>
    simp only [next] at h
    split_ifs at h with h₁
    exact .inl h₁
  | big => cases h

end Numeral

/-- What an element may begin with, by its kind. -/
lemma isElement_cons {c : Char} {e : List Char} (h : isElement (c :: e) = true) :
    isLetter c = true ∨ isNumber (c :: e) = true ∨ isPunctuator (c :: e) = true ∨
      isString (c :: e) = true ∨
      isTemplate (c :: e) = true ∨ (isBlank c = true ∧ e = []) ∨ c = '/' := by
  obtain h | h | h | h | h | h | h | h := isElement_iff.mp h
  · rw [isWord, Bool.and_eq_true] at h
    exact .inl h.1
  · exact .inr (.inl h)
  · exact .inr (.inr (.inl h))
  · exact .inr (.inr (.inr (.inl h)))
  · exact .inr (.inr (.inr (.inr (.inl h))))
  · obtain ⟨d, heq, hd⟩ := isBlankText_iff.mp h
    cases heq
    exact .inr (.inr (.inr (.inr (.inr (.inl ⟨hd, rfl⟩)))))
  · obtain ⟨cs, hcs, -⟩ := isLineComment_iff.mp h
    exact .inr (.inr (.inr (.inr (.inr (.inr (List.cons.inj hcs).1)))))
  · obtain ⟨cs, hcs, -⟩ := isBlockComment_iff.mp h
    exact .inr (.inr (.inr (.inr (.inr (.inr (List.cons.inj hcs).1)))))

lemma mem_punctuators {e : List Char} (h : isPunctuator e = true) : e ∈ punctuators :=
  List.contains_iff_mem.mp h

lemma mem_digits {c : Char} (h : c.isDigit = true) : c ∈ "0123456789".toList := by
  obtain ⟨hlow, hhigh⟩ : 48 ≤ c.toNat ∧ c.toNat ≤ 57 := Char.isDigit_iff_toNat.mp h
  have hall : ∀ n < 10, Char.ofNat (48 + n) ∈ "0123456789".toList := by decide
  have hc := hall (c.toNat - 48) (by omega)
  rwa [Nat.add_sub_of_le hlow, Char.ofNat_toNat] at hc

lemma toNat_lt_of_isAlpha {c : Char} (h : c.isAlpha = true) : c.toNat < 128 := by
  obtain h | h := Bool.or_eq_true_iff.mp h
  · have hle : c.val ≤ 'Z'.val := (of_decide_eq_true h).2
    exact Nat.lt_of_le_of_lt (UInt32.le_iff_toNat_le.mp hle) (by decide)
  · have hle : c.val ≤ 'z'.val := of_decide_eq_true (Bool.and_eq_true_iff.mp h).2
    exact Nat.lt_of_le_of_lt (UInt32.le_iff_toNat_le.mp hle) (by decide)

lemma toNat_lt_of_isStart {c : Char} (h : Identifier.isStart c = true) : c.toNat < 128 := by
  simp only [Identifier.isStart, Bool.or_eq_true, beq_iff_eq, or_assoc] at h
  obtain h | rfl | rfl := h
  · exact toNat_lt_of_isAlpha h
  · decide
  · decide

lemma mem_of_foldlM_start {c : Char} {e : List Char} {s : Numeral}
    (h : (c :: e).foldlM Numeral.next .start = some s) : c ∈ "0123456789.".toList := by
  rw [List.foldlM_cons] at h
  obtain ⟨s₁, h₁, -⟩ := Option.bind_eq_some_iff.mp h
  simp only [Numeral.next] at h₁
  split_ifs at h₁ with hzero hdigit hpoint
  · subst hzero
    decide
  · exact List.mem_append_left ['.'] (mem_digits hdigit)
  · subst hpoint
    decide

/-- Of what a number begins with, only a point is an element and no number. -/
lemma isEnd_or_eq_point {e : List Char} {s : Numeral} (he : isElement e = true)
    (hs : e.foldlM Numeral.next .start = some s) : s.isEnd = true ∨ e = ['.'] := by
  cases e with
  | nil => cases he
  | cons c e =>
    have hapart :
        "0123456789.".toList.all (fun c => !isLetter c && !isQuote c && !isBlank c && c != '/') =
        true := by
      decide
    have hc := List.all_eq_true.mp hapart c (mem_of_foldlM_start hs)
    simp only [Bool.and_eq_true, Bool.not_eq_true', bne_iff_ne] at hc
    obtain ⟨⟨⟨hletter, hquote⟩, hblank⟩, hslash⟩ := hc
    -- a first digit or point leaves only numbers and punctuators
    obtain h | h | h | h | h | ⟨h, -⟩ | h := isElement_cons he
    · simp [h] at hletter
    · obtain ⟨s', hs', hend⟩ := isNumber_iff.mp h
      rw [hs] at hs'
      cases hs'
      exact .inl hend
    · have hpoint : punctuators.all (fun p => (p.foldlM Numeral.next .start).isNone || p == ['.']) =
          true := by decide
      have hp := List.all_eq_true.mp hpoint _ (mem_punctuators h)
      rw [hs] at hp
      exact .inr (by simpa using hp)
    · simp [(isString_iff.mp h).1] at hquote
    · rw [(isTemplate_iff.mp h).1] at hquote
      exact absurd hquote (by decide)
    · simp [h] at hblank
    · exact absurd h hslash

/-- After a quote an element goes on to the end of its literal. -/
lemma isElement_of_isQuote {c : Char} {e : List Char} (hc : isQuote c = true)
    (he : isElement (c :: e) = true) :
    isString (c :: e) = true ∨ isTemplate (c :: e) = true := by
  have hmem : c ∈ "'\"\x60".toList := by
    simpa [isQuote, or_assoc] using hc
  have hapart : "'\"\x60".toList.all (fun c => !isLetter c && !isBlank c && c != '/' &&
      !"0123456789.".toList.contains c && punctuators.all (·.head? != some c)) = true := by decide
  have h := List.all_eq_true.mp hapart c hmem
  simp only [Bool.and_eq_true, Bool.not_eq_true', bne_iff_ne] at h
  obtain ⟨⟨⟨⟨hletter, hblank⟩, hslash⟩, hnumber⟩, hpunct⟩ := h
  obtain h | h | h | h | h | ⟨h, -⟩ | h := isElement_cons he
  · simp [h] at hletter
  · obtain ⟨s, hs, -⟩ := isNumber_iff.mp h
    have hstart := List.contains_iff_mem.mpr (mem_of_foldlM_start hs)
    rw [hstart] at hnumber
    cases hnumber
  · have hhead := List.all_eq_true.mp hpunct _ (mem_punctuators h)
    simp at hhead
  · exact .inl h
  · exact .inr h
  · simp [h] at hblank
  · exact absurd h hslash

/-- A slash begins a comment, or an assignment that divides. -/
lemma isToken_slash {e : List Char} (h : isToken ('/' :: e) = true) : e = ['='] := by
  simp only [isToken, Bool.or_eq_true, or_assoc] at h
  obtain h | h | h | h | h := h
  · rw [isWord, Bool.and_eq_true] at h
    exact absurd h.1 (by decide)
  · obtain ⟨s, hs, -⟩ := isNumber_iff.mp h
    exact absurd (mem_of_foldlM_start hs) (by decide)
  · have hslash : punctuators.all (fun p => p.head? != some '/' || p == ['/', '=']) = true := by
      decide
    have hp := List.all_eq_true.mp hslash _ (mem_punctuators h)
    simpa using hp
  · exact absurd (isString_iff.mp h).1 (by decide)
  · cases h

/-! ### No literal begins another -/

lemma Quotation.foldlM_ended {x : List Char} {s : Quotation}
    (h : x.foldlM Quotation.next .ended = some s) :
    x = [] := by
  cases x with
  | nil => rfl
  | cons c x => cases h

lemma Template.foldlM_ended {x : List Char} {s : Template}
    (h : x.foldlM Template.next .ended = some s) : x = [] := by
  cases x with
  | nil => rfl
  | cons c x => cases h

lemma eq_nil_of_isString {e x : List Char} (he : isString e = true)
    (hx : isString (e ++ x) = true) : x = [] := by
  cases e with
  | nil => cases he
  | cons c e =>
    obtain ⟨-, he, -⟩ := isString_iff.mp he
    rw [List.cons_append] at hx
    obtain ⟨-, hx, -⟩ := isString_iff.mp hx
    rw [List.foldlM_append, he] at hx
    exact Quotation.foldlM_ended hx

lemma eq_nil_of_isTemplate {e x : List Char} (he : isTemplate e = true)
    (hx : isTemplate (e ++ x) = true) : x = [] := by
  cases e with
  | nil => cases he
  | cons c e =>
    obtain ⟨-, he⟩ := isTemplate_iff.mp he
    rw [List.cons_append] at hx
    obtain ⟨-, hx⟩ := isTemplate_iff.mp hx
    rw [List.foldlM_append, he] at hx
    exact Template.foldlM_ended hx

/-! ### How elements grow -/

/-- What becomes of an element that is written on, a character at a time: an element again, or a
number that runs on, or the first of three points. -/
def Grows (e : List Char) (c : Char) (y : List Char) : Prop :=
  (isElement (e ++ [c]) = true ∧ (e ++ [c] = ['?', '.'] → y = [])) ∨
    (isNumber e = true ∧ isPart c = true) ∨
    (e = ['.'] ∧ c = '.' ∧ y = ['.'])

lemma grows_word {e y : List Char} {c : Char} (he : isElement e = true)
    (hp : isWord (e ++ c :: y) = true) :
    Grows e c y := by
  cases e with
  | nil => cases he
  | cons d e =>
    simp only [List.cons_append, isWord, List.all_append, List.all_cons, Bool.and_eq_true] at hp
    obtain ⟨hd, hparts, hc, -⟩ := hp
    have hword : isWord (d :: e ++ [c]) = true := by
      simpa [isWord, hd, hc] using hparts
    refine .inl ⟨isElement_iff.mpr (.inl hword), fun heq => ?_⟩
    rw [heq] at hword
    exact absurd hword (by decide)

lemma grows_number {e y : List Char} {c : Char} (he : isElement e = true)
    (hp : isNumber (e ++ c :: y) = true) :
    Grows e c y := by
  obtain ⟨s₂, hp, -⟩ := isNumber_iff.mp hp
  rw [List.foldlM_append] at hp
  obtain ⟨s, hs, hp⟩ := Option.bind_eq_some_iff.mp hp
  rw [List.foldlM_cons] at hp
  obtain ⟨s₁, hs₁, -⟩ := Option.bind_eq_some_iff.mp hp
  have hgrown : s₁.isEnd = true → Grows e c y := by
    intro hend
    have hnumber : isNumber (e ++ [c]) = true := by
      refine isNumber_iff.mpr ⟨s₁, ?_, hend⟩
      simp [List.foldlM_append, hs, hs₁]
    refine .inl ⟨isElement_iff.mpr (.inr (.inl hnumber)), fun heq => ?_⟩
    rw [heq] at hnumber
    exact absurd hnumber (by decide)
  -- all but a lone point is a number itself before the rest is read
  obtain hend | rfl := isEnd_or_eq_point he hs
  · obtain hc | hend₁ := Numeral.next_cases hend hs₁
    · exact .inr (.inl ⟨isNumber_iff.mpr ⟨s, hs, hend⟩, hc⟩)
    · exact hgrown hend₁
  · obtain rfl : s = .point := by simpa [Numeral.next] using hs.symm
    simp only [Numeral.next] at hs₁
    split_ifs at hs₁
    cases hs₁
    exact hgrown rfl

lemma grows_punctuator {e y : List Char} {c : Char} (he : isElement e = true)
    (hp : isPunctuator (e ++ c :: y) = true) : Grows e c y := by
  have hall : punctuators.all (fun p => (List.range p.length).all fun n =>
      !isElement (p.take n) ||
        (isElement (p.take (n + 1)) &&
          (p.take (n + 1) != ['?', '.'] || (p.drop (n + 1)).isEmpty)) ||
        (n == 1 && p == ['.', '.', '.'])) = true := by decide +kernel
  have h := List.all_eq_true.mp (List.all_eq_true.mp hall _ (mem_punctuators hp)) e.length
    (List.mem_range.mpr (by rw [List.length_append, List.length_cons]; omega))
  have hlen : (e ++ [c]).length = e.length + 1 := by rw [List.length_append, List.length_singleton]
  have htake : (e ++ c :: y).take (e.length + 1) = e ++ [c] := by
    rw [List.append_cons, List.take_left' hlen]
  have hdrop : (e ++ c :: y).drop (e.length + 1) = y := by
    rw [List.append_cons, List.drop_left' hlen]
  rw [List.take_left, htake, hdrop, he] at h
  simp only [Bool.not_true, Bool.false_or, Bool.or_eq_true, Bool.and_eq_true, bne_iff_ne,
    List.isEmpty_iff,
    beq_iff_eq] at h
  obtain ⟨hel, hchain⟩ | ⟨hlen, hdots⟩ := h
  · exact .inl ⟨hel, fun heq => hchain.resolve_left (absurd heq)⟩
  · obtain ⟨d, rfl⟩ := List.length_eq_one_iff.mp hlen
    simp only [List.cons_append, List.nil_append, List.cons.injEq] at hdots
    obtain ⟨rfl, rfl, rfl⟩ := hdots
    exact .inr (.inr ⟨rfl, rfl, rfl⟩)

lemma not_isElement_literal {e y : List Char} {c : Char} (he : isElement e = true)
    (hp : isString (e ++ c :: y) = true ∨ isTemplate (e ++ c :: y) = true) : False := by
  cases e with
  | nil => cases he
  | cons q e =>
    rw [List.cons_append] at hp
    rcases hp with hp | hp
    · obtain ⟨hq, -, hne⟩ := isString_iff.mp hp
      obtain h | h := isElement_of_isQuote hq he
      · cases eq_nil_of_isString h hp
      · exact hne (isTemplate_iff.mp h).1
    · obtain ⟨rfl, -⟩ := isTemplate_iff.mp hp
      obtain h | h := isElement_of_isQuote (by decide) he
      · exact (isString_iff.mp h).2.2 rfl
      · cases eq_nil_of_isTemplate h hp

/-- An element that a comment begins with has both characters of the comment's mark. -/
lemma exists_cons_of_slash {e x y : List Char} {d : Char} (he : isElement e = true)
    (h : e ++ x = '/' :: d :: y) :
    ∃ cs, e = '/' :: d :: cs := by
  match e, he, h with
  | [], he, _ => cases he
  | [c], he, h =>
    cases h
    exact absurd he (by decide)
  | a :: b :: cs, _, h =>
    simp only [List.cons_append, List.cons.injEq] at h
    exact ⟨cs, by rw [h.1, h.2.1]⟩

lemma grows_line {e y : List Char} {c : Char} (he : isElement e = true)
    (hp : isLineComment (e ++ c :: y) = true) :
    Grows e c y := by
  obtain ⟨cs, hcs, hline⟩ := isLineComment_iff.mp hp
  obtain ⟨ds, rfl⟩ := exists_cons_of_slash he hcs
  have hline' : isLineComment ('/' :: '/' :: ds ++ [c]) = true := by
    refine isLineComment_iff.mpr ⟨ds ++ [c], rfl, fun d hd => hline d ?_⟩
    simp only [List.cons_append, List.cons.injEq, true_and] at hcs
    rw [← hcs]
    simp only [List.mem_append, List.mem_cons, List.not_mem_nil, or_false] at hd ⊢
    exact hd.imp_right .inl
  refine .inl ⟨?_, fun heq => ?_⟩
  · rw [isElement, hline', Bool.or_true, Bool.true_or]
  · cases heq

lemma isElement_grows {e y : List Char} {c : Char} (he : isElement e = true)
    (hblock : isBlockComment e = false) (hp : isElement (e ++ c :: y) = true) : Grows e c y := by
  obtain h | h | h | h | h | h | h | h := isElement_iff.mp hp
  · exact grows_word he h
  · exact grows_number he h
  · exact grows_punctuator he h
  · exact (not_isElement_literal he (.inl h)).elim
  · exact (not_isElement_literal he (.inr h)).elim
  · cases e with
    | nil => cases he
    | cons d e => cases e <;> cases h
  · exact grows_line he h
  · obtain ⟨cs, hcs, -⟩ := isBlockComment_iff.mp h
    obtain ⟨ds, rfl⟩ := exists_cons_of_slash he hcs
    simp only [isElement, Bool.or_eq_true, or_assoc, hblock] at he
    obtain h | h | h | h := he
    · cases isToken_slash h
    all_goals cases h

end ClassScript.Lexical
