import ClassScript.Proofs.Identifiers

/-!
String literals are read back.

A script reads a literal up to the first quote that no backslash escapes, and its value is a
sequence of 16-bit units: those of each character, or the unit that an escape gives. A literal
that is written here ends where it was meant to end, whatever follows it, and has the value that
was meant.
-/

namespace ClassScript

/-! ### Hexadecimal digits, read -/

namespace Quoted

def isHexDigit (c : Char) : Bool := digitValue c.toLower < 16

def unitOf? (cs : List Char) : Option UInt16 :=
  if cs.all isHexDigit then some (.ofNat (ofHex (cs.map Char.toLower))) else none

lemma isHexDigit_hexDigit : ∀ d < 16, isHexDigit (hexDigit d) = true := by decide

lemma toLower_hexDigit : ∀ d < 16, (hexDigit d).toLower = hexDigit d := by decide

lemma mem_hex {width n : Nat} {c : Char} (h : c ∈ hex width n) : ∃ d < 16, c = hexDigit d := by
  induction width with
  | zero => simp [hex] at h
  | succ width ih =>
    rw [hex, List.mem_cons] at h
    rcases h with rfl | h
    · exact ⟨_, Nat.mod_lt _ (by decide), rfl⟩
    · exact ih h

lemma unitOf?_hex (width : Nat) {n : Nat} (h : n < 16 ^ width) :
    unitOf? (hex width n) = some (.ofNat n) := by
  have hdigits : (hex width n).all isHexDigit = true := by
    rw [List.all_eq_true]
    intro c hc
    obtain ⟨d, hd, rfl⟩ := mem_hex hc
    exact isHexDigit_hexDigit d hd
  have hlower : (hex width n).map Char.toLower = hex width n := by
    refine (List.map_congr_left fun c hc => ?_).trans (List.map_id _)
    obtain ⟨d, hd, rfl⟩ := mem_hex hc
    exact toLower_hexDigit d hd
  rw [unitOf?, if_pos hdigits, hlower, ofHex_hex, Nat.mod_eq_of_lt h]

/-! ### The reader of literals -/

def simpleEscape? : Char → Option Char
  | '\\' => some '\\'
  | '\'' => some '\''
  | 'n' => some '\n'
  | 'r' => some '\r'
  | 't' => some '\t'
  | _ => none

/-- Does the character end a line? A literal may not hold it. -/
def endsLine (c : Char) : Bool := c == '\n' || c == '\r' || c.toNat == 0x2028 || c.toNat == 0x2029

def prepend (us : List UInt16) (x : Option (List UInt16 × List Char)) :
    Option (List UInt16 × List Char) :=
  x.map fun (vs, r) => (us ++ vs, r)

/-- The value of a literal whose opening quote has been read, and what follows its closing quote. -/
def readBody : List Char → Option (List UInt16 × List Char)
  | [] => none
  | '\'' :: r => some ([], r)
  | '\\' :: 'x' :: a :: b :: r => (unitOf? [a, b]).bind fun u => prepend [u] (readBody r)
  | '\\' :: 'u' :: a :: b :: c :: d :: r =>
    (unitOf? [a, b, c, d]).bind fun u => prepend [u] (readBody r)
  | '\\' :: e :: r => (simpleEscape? e).bind fun c => prepend (Utf16.units c) (readBody r)
  | c :: r => if c = '\\' ∨ endsLine c then none else prepend (Utf16.units c) (readBody r)

def read : List Char → Option (List UInt16 × List Char)
  | '\'' :: r => readBody r
  | _ => none

/-! ### What is written, read -/

@[simp] lemma prepend_some (us vs : List UInt16) (r : List Char) :
    prepend us (some (vs, r)) = some (us ++ vs, r) := rfl

/-- A character that stands for itself. -/
lemma readBody_plain {c : Char} (hquote : c ≠ '\'') (hslash : c ≠ '\\')
    (hline : ¬ endsLine c = true) (r : List Char) :
    readBody (c :: r) = prepend (Utf16.units c) (readBody r) := by
  rw [readBody.eq_def]
  split <;> simp_all

lemma readBody_hex_two {n : Nat} (h : n < 0x100) (r : List Char) :
    readBody ('\\' :: 'x' :: hex 2 n ++ r) = prepend [.ofNat n] (readBody r) := by
  have hunit := unitOf?_hex 2 h
  simp only [hex] at hunit
  simp only [hex, List.cons_append, List.nil_append, readBody, hunit, Option.bind_some]

lemma readBody_hex_four {n : Nat} (h : n < 0x10000) (r : List Char) :
    readBody ('\\' :: 'u' :: hex 4 n ++ r) = prepend [.ofNat n] (readBody r) := by
  have hunit := unitOf?_hex 4 h
  simp only [hex] at hunit
  simp only [hex, List.cons_append, List.nil_append, readBody, hunit, Option.bind_some]

lemma units_of_lt {c : Char} (h : c.toNat < 0x10000) : Utf16.units c = [.ofNat c.toNat] := if_pos h

/-- What is written for a character is read as this character. -/
lemma readBody_escape (c : Char) (r : List Char) :
    readBody (escape c ++ r) = prepend (Utf16.units c) (readBody r) := by
  unfold escape
  split_ifs with hslash hquote hfeed hreturn htab hseparator hcontrol
  · subst hslash
    rfl
  · subst hquote
    rfl
  · subst hfeed
    rfl
  · subst hreturn
    rfl
  · subst htab
    rfl
  · rw [readBody_hex_four (by omega), units_of_lt (by omega)]
  · rw [readBody_hex_two (by omega), units_of_lt (by omega)]
  · refine readBody_plain hquote hslash ?_ r
    simp only [endsLine, Bool.or_eq_true, beq_iff_eq]
    tauto

lemma readBody_flatMap_escape (cs r : List Char) :
    readBody (cs.flatMap escape ++ '\'' :: r) = some (cs.flatMap Utf16.units, r) := by
  induction cs with
  | nil => rfl
  | cons c cs ih =>
    rw [List.flatMap_cons, List.append_assoc, readBody_escape, ih, prepend_some, List.flatMap_cons]

/-- **A literal that is written is read back, and reading stops at its end.** -/
lemma read_chars (cs r : List Char) : read (chars cs ++ r) = some (cs.flatMap Utf16.units, r) := by
  rw [chars, List.cons_append, List.cons_append, List.append_assoc, List.singleton_append, read,
    readBody_flatMap_escape]

lemma text_injective : Function.Injective text := by
  intro s t h
  have hread (s : String) : read (text s).toList = some (s.toList.flatMap Utf16.units, []) := by
    rw [text, String.toList_ofList, ← List.append_nil (chars _), read_chars]
  have hunits := (hread s).symm.trans (h ▸ hread t)
  have heq := congrArg Utf16.decode (Prod.mk.inj (Option.some.inj hunits)).1
  rw [Utf16.decode_flatMap_units, Utf16.decode_flatMap_units] at heq
  exact String.toList_inj.mp heq

/-- A character that may stand in the text of a script: no control, and no end of a line. -/
def Shown (c : Char) : Prop := 0x20 ≤ c.toNat ∧ c.toNat ≠ 0x7f ∧ c.toNat ≠ 0x2028 ∧ c.toNat ≠ 0x2029

instance decidableShown (c : Char) : Decidable (Shown c) :=
  inferInstanceAs (Decidable (_ ∧ _ ∧ _ ∧ _))

lemma shown_hexDigit : ∀ d < 16, Shown (hexDigit d) := by decide

lemma shown_hex {width n : Nat} {c : Char} (h : c ∈ hex width n) : Shown c := by
  obtain ⟨d, hd, rfl⟩ := mem_hex h
  exact shown_hexDigit d hd

lemma shown_escape {c x : Char} (h : x ∈ escape c) : Shown x := by
  have htwo {a b : Char} (ha : Shown a) (hb : Shown b) (hx : x ∈ [a, b]) : Shown x := by
    simp only [List.mem_cons, List.not_mem_nil, or_false] at hx
    rcases hx with rfl | rfl
    · exact ha
    · exact hb
  have hhex {a b : Char} {width n : Nat} (ha : Shown a) (hb : Shown b)
      (hx : x ∈ a :: b :: hex width n) :
      Shown x := by
    simp only [List.mem_cons] at hx
    rcases hx with rfl | rfl | hx
    · exact ha
    · exact hb
    · exact shown_hex hx
  unfold escape at h
  split_ifs at h with hslash hquote hfeed hreturn htab hseparator hcontrol
  iterate 5 exact htwo (by decide) (by decide) h
  iterate 2 exact hhex (by decide) (by decide) h
  · rw [List.mem_singleton] at h
    subst h
    unfold Shown
    omega

lemma shown_chars {cs : List Char} {x : Char} (h : x ∈ chars cs) : Shown x := by
  rw [chars, List.cons_append, List.mem_cons, List.mem_append, List.mem_singleton,
    List.mem_flatMap] at h
  rcases h with rfl | ⟨c, -, hx⟩ | rfl
  · decide
  · exact shown_escape hx
  · decide

/-- **Literals are faithful.** A script that reads the literal of a string finds its end where the
literal ends, whatever text follows, and gives it the units of the string as its value. So the
literal holds no control and no end of a line, and two strings have different literals. -/
theorem literals_faithful :
    (∀ s r : String, read (text s ++ r).toList = some (s.toList.flatMap Utf16.units, r.toList)) ∧
    (∀ (s : String), ∀ c ∈ (text s).toList,
      0x20 ≤ c.toNat ∧ c.toNat ≠ 0x7f ∧ c.toNat ≠ 0x2028 ∧ c.toNat ≠ 0x2029) ∧
    Function.Injective text := by
  refine ⟨fun s r => ?_, fun s c hc => ?_, text_injective⟩
  · rw [String.toList_append, text, String.toList_ofList, read_chars]
  · rw [text, String.toList_ofList] at hc
    exact shown_chars hc

/-- A quote and a separator of lines, with text behind that would end a statement. -/
theorem literals_faithful_separator :
    read (text "'\u2028" ++ "');").toList = some ([0x27, 0x2028], ['\'', ')', ';']) ∧
      'u' ∈ (text "'\u2028").toList ∧
      (0x20 ≤ 'u'.toNat ∧ 'u'.toNat ≠ 0x7f ∧ 'u'.toNat ≠ 0x2028 ∧ 'u'.toNat ≠ 0x2029) := by
  obtain ⟨hread, hshown, -⟩ := literals_faithful
  have hmem : 'u' ∈ (text "'\u2028").toList := by decide
  exact ⟨hread "'\u2028" "');", hmem, hshown _ _ hmem⟩

end Quoted

end ClassScript
