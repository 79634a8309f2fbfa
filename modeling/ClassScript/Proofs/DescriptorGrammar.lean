import ClassScript.Proofs.Descriptors

/-!
The grammar of descriptors.

What is read as a type is its spelling and nothing else, wherever in a text it stands and whatever
follows it there. A signature is spelled by its parameters and its result; since its parameters end
at the first closing parenthesis, no class among them has one in its name.
-/

namespace ClassScript

/-! ### Bytes and characters -/

namespace ValueType

lemma countBytes_append (cs ds : List Char) :
    countBytes (cs ++ ds) = countBytes cs + countBytes ds := by
  induction cs with
  | nil => simp [countBytes]
  | cons c cs ih =>
    simp only [List.cons_append, countBytes, ih]
    omega

lemma countBytes_toList (s : String) : countBytes s.toList = s.utf8ByteSize := by
  obtain ⟨cs, rfl⟩ : ∃ cs, s = String.ofList cs := ⟨s.toList, String.ofList_toList.symm⟩
  rw [String.toList_ofList]
  induction cs with
  | nil => rfl
  | cons c cs ih =>
    have hsplit : String.ofList (c :: cs) = String.singleton c ++ String.ofList cs := by
      rw [← List.singleton_append, String.ofList_append]
      rfl
    rw [countBytes, ih, hsplit, String.utf8ByteSize_append, String.utf8ByteSize_singleton]

lemma dropBytes_append (before after : List Char) :
    dropBytes (countBytes before) (before ++ after) = some after := by
  induction before with
  | nil => simp [countBytes, dropBytes]
  | cons c cs ih =>
    have hpos := c.utf8Size_pos
    obtain ⟨n, hn⟩ : ∃ n, c.utf8Size + countBytes cs = n + 1 :=
      ⟨c.utf8Size + countBytes cs - 1, by omega⟩
    have hrest : n + 1 - c.utf8Size = countBytes cs := by omega
    rw [countBytes, hn, List.cons_append, dropBytes, if_pos (by omega), hrest, ih]

lemma of_dropBytes {n : Nat} {cs after : List Char} (h : dropBytes n cs = some after) :
    ∃ before, cs = before ++ after ∧ countBytes before = n := by
  fun_induction dropBytes n cs with
  | case1 cs =>
    cases h
    exact ⟨[], rfl, rfl⟩
  | case2 => cases h
  | case3 n c cs hle ih =>
    obtain ⟨before, hcs, hcount⟩ := ih h
    refine ⟨c :: before, by rw [hcs, List.cons_append], ?_⟩
    rw [countBytes, hcount]
    omega
  | case4 => cases h

/-- **A type is read at an offset, up to another one, exactly when its spelling stands between
them.** -/
lemma parseAt_eq_some_iff {text : String} {offset stop : Nat} {t : ValueType} :
    parseAt text offset = some (t, stop) ↔ t.Legal ∧ ∃ before after,
      text = before ++ t.descriptor ++ after ∧ before.utf8ByteSize = offset ∧
        stop = offset + t.descriptor.utf8ByteSize := by
  constructor
  · intro h
    obtain ⟨cs, hcs, h⟩ := Option.bind_eq_some_iff.mp h
    obtain ⟨⟨u, rest⟩, hparse, h⟩ := Option.bind_eq_some_iff.mp h
    cases h
    obtain ⟨before, htext, hbefore⟩ := of_dropBytes hcs
    obtain ⟨hlegal, rfl⟩ := of_parse hparse
    refine ⟨hlegal, .ofList before, .ofList rest, ?_, ?_, ?_⟩
    · rw [descriptor, ← String.ofList_append, ← String.ofList_append, List.append_assoc, ← htext,
        String.ofList_toList]
    · rw [← countBytes_toList, String.toList_ofList, hbefore]
    · rw [← countBytes_toList, descriptor, String.toList_ofList, htext]
      simp only [countBytes_append]
      omega
  · rintro ⟨hlegal, before, after, rfl, rfl, rfl⟩
    have htext : (before ++ t.descriptor ++ after).toList =
        before.toList ++ (t.chars ++ after.toList) := by
      simp [descriptor, String.toList_append, List.append_assoc]
    have hsize : countBytes t.chars = t.descriptor.utf8ByteSize := by
      rw [← countBytes_toList, descriptor, String.toList_ofList]
    rw [parseAt, htext, ← countBytes_toList, dropBytes_append]
    simp only [Option.bind_eq_bind, Option.bind_some, parse_chars hlegal]
    congr 2
    simp only [countBytes_append, hsize]
    omega

/-! ### Types -/

lemma mem_chars_iff {t : ValueType} :
    ')' ∈ t.chars ↔ ∃ name, t.className? = some name ∧ ')' ∈ name.toList := by
  induction t with
  | object name => simp [chars, className?]
  | array element ih => simpa [chars, className?] using ih
  | _ => simp [chars, className?]

/-- **A field descriptor is the spelling of a value.** -/
lemma ofDescriptor?_eq_some_iff {text : String} {t : ValueType} :
    ofDescriptor? text = some t ↔ t.Legal ∧ t ≠ void ∧ text = t.descriptor := by
  constructor
  · intro h
    unfold ofDescriptor? at h
    split at h
    next => cases h
    next u hvoid hparse =>
      cases h
      obtain ⟨hlegal, htext⟩ := of_parse hparse
      refine ⟨hlegal, hvoid, ?_⟩
      rw [descriptor, ← String.ofList_toList (s := text), htext, List.append_nil]
    next => cases h
  · rintro ⟨hlegal, hvoid, rfl⟩
    have hparse : parse t.descriptor.toList = some (t, []) := by
      rw [descriptor, String.toList_ofList, ← List.append_nil t.chars]
      exact parse_chars hlegal []
    rw [ofDescriptor?, hparse]
    cases t with
    | void => exact absurd rfl hvoid
    | _ => rfl

/-- The spellings of two types differ. -/
lemma descriptor_inj {t u : ValueType} (ht : t.Legal) (hu : u.Legal)
    (h : t.descriptor = u.descriptor) : t = u := by
  have hchars : t.chars ++ [] = u.chars ++ [] := by
    rw [descriptor, descriptor, String.ofList_inj] at h
    rw [h]
  have hparse := (parse_chars ht []).symm.trans (hchars ▸ parse_chars hu [])
  cases hparse
  rfl

lemma exists_chars_eq (t : ValueType) : ∃ c cs, t.chars = c :: cs := by
  cases t <;> exact ⟨_, _, rfl⟩

end ValueType

/-! ### Signatures -/

namespace Signature

def descriptor (s : Signature) : String :=
  "(" ++ String.join (s.params.map ValueType.descriptor) ++ ")" ++ s.result.descriptor

lemma toList_descriptor (s : Signature) : s.descriptor.toList = s.chars := by
  simp [descriptor, chars, List.flatMap_map, ValueType.descriptor]

lemma parseParams_flatMap {ts : List ValueType} (h : ∀ t ∈ ts, t ≠ .void ∧ t.Legal) {n : Nat}
    (hn : (ts.flatMap ValueType.chars).length ≤ n) :
    parseParams n (ts.flatMap ValueType.chars) = some ts := by
  induction ts generalizing n with
  | nil => cases n <;> rfl
  | cons t ts ih =>
    obtain ⟨⟨hvoid, hlegal⟩, hts⟩ := List.forall_mem_cons.mp h
    obtain ⟨c, cs, hchars⟩ := t.exists_chars_eq
    have hparse := ValueType.parse_chars hlegal (ts.flatMap ValueType.chars)
    rw [List.flatMap_cons, hchars, List.cons_append] at hn ⊢
    rw [hchars, List.cons_append] at hparse
    simp only [List.length_cons, List.length_append] at hn
    obtain ⟨m, rfl⟩ : ∃ m, n = m + 1 := ⟨n - 1, by omega⟩
    have hrest := ih hts (n := m) (by omega)
    rw [parseParams, hparse]
    cases t with
    | void => exact absurd rfl hvoid
    | _ => simp [hrest]

lemma parse_chars {s : Signature} (h : s.Legal) : parse s.chars = some s := by
  have hresult : ValueType.parse s.result.chars = some (s.result, []) := by
    rw [← List.append_nil s.result.chars]
    exact ValueType.parse_chars h.result []
  have hparams := parseParams_flatMap h.params (Nat.le_refl _)
  rw [chars, List.cons_append, parse, takeWhile_ne_append h.closed, dropWhile_ne_append h.closed]
  simp only [hresult, hparams, Option.bind_eq_bind, Option.bind_some]
  rfl

/-- The parameters end at the first closing parenthesis exactly when no class among them has one in
its name. -/
lemma closed_iff {ts : List ValueType} :
    ')' ∉ ts.flatMap ValueType.chars ↔
      ∀ t ∈ ts, ∀ name, t.className? = some name → ')' ∉ name.toList := by
  simp only [List.mem_flatMap, ValueType.mem_chars_iff]
  constructor
  · exact fun h t ht name hname hmem => h ⟨t, ht, name, hname, hmem⟩
  · rintro h ⟨t, ht, name, hname, hmem⟩
    exact h t ht name hname hmem

/-- **A method descriptor is the spelling of a signature.** -/
lemma ofDescriptor?_eq_some_iff {text : String} {s : Signature} :
    ofDescriptor? text = some s ↔ s.Legal ∧ text = s.descriptor := by
  rw [ofDescriptor?, ← String.toList_inj, toList_descriptor]
  constructor
  · exact of_parse
  · rintro ⟨hlegal, htext⟩
    rw [htext, parse_chars hlegal]

end Signature

/-- **Descriptors are read by their grammar.** A text is read as the type of a field, or as the
signature of a method, exactly when it spells it; a type is read at an offset exactly when it is
spelled there, and reading stops where the spelling does. So a spelling is read back, and no two
types or signatures share one. -/
theorem descriptors_read_by_grammar :
    (∀ (text : String) (t : ValueType),
      ValueType.ofDescriptor? text = some t ↔ t.Legal ∧ t ≠ .void ∧ text = t.descriptor) ∧
    (∀ (text : String) (s : Signature), Signature.ofDescriptor? text = some s ↔
      text = s.descriptor ∧ s.result.Legal ∧ ∀ t ∈ s.params, t.Legal ∧ t ≠ .void ∧
        ∀ name, t.className? = some name → ')' ∉ name.toList) ∧
    (∀ (text : String) (offset : Nat) (t : ValueType) (stop : Nat),
      ValueType.parseAt text offset = some (t, stop) ↔ t.Legal ∧ ∃ before after,
        text = before ++ t.descriptor ++ after ∧ before.utf8ByteSize = offset ∧
          stop = offset + t.descriptor.utf8ByteSize) ∧
    (∀ t : ValueType, t.Legal → t ≠ .void → ValueType.ofDescriptor? t.descriptor = some t) ∧
    (∀ t u : ValueType, t.Legal → u.Legal → t.descriptor = u.descriptor → t = u) ∧
    ∀ s s' : Signature, s.Legal → s'.Legal → s.descriptor = s'.descriptor → s = s' := by
  refine ⟨fun text t => ValueType.ofDescriptor?_eq_some_iff, fun text s => ?_,
    fun text offset t stop => ValueType.parseAt_eq_some_iff, fun t ht hvoid => ?_,
    fun t u => ValueType.descriptor_inj, fun s s' hs hs' h => ?_⟩
  · rw [Signature.ofDescriptor?_eq_some_iff]
    constructor
    · rintro ⟨hlegal, htext⟩
      have hclosed := Signature.closed_iff.mp hlegal.closed
      exact ⟨htext, hlegal.result, fun t ht =>
        ⟨(hlegal.params t ht).2, (hlegal.params t ht).1, hclosed t ht⟩⟩
    · rintro ⟨htext, hresult, hparams⟩
      refine ⟨⟨hresult, fun t ht => ⟨(hparams t ht).2.1, (hparams t ht).1⟩, ?_⟩, htext⟩
      exact Signature.closed_iff.mpr fun t ht => (hparams t ht).2.2
  · exact ValueType.ofDescriptor?_eq_some_iff.mpr ⟨ht, hvoid, rfl⟩
  · have hread := Signature.ofDescriptor?_eq_some_iff.mpr ⟨hs, h.symm⟩
    have hread' := Signature.ofDescriptor?_eq_some_iff.mpr ⟨hs', rfl⟩
    exact Option.some.inj (hread.symm.trans hread')

def nestedArray : ValueType := .array (.array (.object "a/B"))

/-- A parenthesis in the name of the result does no harm. -/
theorem descriptors_read_by_grammar_nested :
    nestedArray.Legal ∧ nestedArray ≠ .void ∧
      ValueType.ofDescriptor? "[[La/B;" = some nestedArray ∧
      ValueType.parseAt "é[[La/B;I" 2 = some (nestedArray, 9) ∧
      Signature.ofDescriptor? "([[La/B;J)L);" = some ⟨[nestedArray, .long], .object ")"⟩ := by
  obtain ⟨-, hsignature, hat, hback, -⟩ := descriptors_read_by_grammar
  have hlegal : nestedArray.Legal := ⟨by decide, by decide, by decide, by decide⟩
  refine ⟨hlegal, by decide, hback nestedArray hlegal (by decide), ?_, ?_⟩
  · exact (hat _ _ _ _).mpr ⟨hlegal, "é", "I", by decide, by decide, by decide⟩
  · refine (hsignature _ _).mpr ⟨by decide, ⟨by decide, by decide⟩, ?_⟩
    simp only [List.forall_mem_cons, List.not_mem_nil, false_imp_iff, implies_true, and_true]
    refine ⟨⟨hlegal, by decide, ?_⟩, trivial, by decide, by rintro name ⟨⟩⟩
    rintro name ⟨⟩
    decide

end ClassScript
