import ClassScript.Descriptor
import ClassScript.Name
import Mathlib.Data.List.TakeWhile
import Mathlib.Tactic.Lemma

/-!
What descriptors spell.

A descriptor is read from the left, and each letter tells how the type goes on. So a text begins
with at most one type, whatever follows it, and a descriptor that is read is the spelling of
what it is read as.
-/

namespace ClassScript

/-! ### Up to a character -/

section

variable {c : Char} {l : List Char}

lemma ne_of_not_mem (h : c ∉ l) : ∀ x ∈ l, decide (x ≠ c) = true := by
  intro x hx
  simp only [decide_eq_true_eq]
  rintro rfl
  exact h hx

lemma takeWhile_ne_append (h : c ∉ l) (r : List Char) : (l ++ c :: r).takeWhile (· ≠ c) = l := by
  rw [List.takeWhile_append_of_pos (ne_of_not_mem h)]
  simp

lemma dropWhile_ne_append (h : c ∉ l) (r : List Char) :
    (l ++ c :: r).dropWhile (· ≠ c) = c :: r := by
  rw [List.dropWhile_append_of_pos (ne_of_not_mem h)]
  simp

/-- A text is cut where the character stands first. -/
lemma eq_append_of_dropWhile_ne {x : Char} {r : List Char} (h : l.dropWhile (· ≠ c) = x :: r) :
    c ∉ l.takeWhile (· ≠ c) ∧ l = l.takeWhile (· ≠ c) ++ c :: r := by
  obtain rfl : x = c := by
    have hhead := List.head?_dropWhile_not (fun y => decide (y ≠ c)) l
    rw [h] at hhead
    simpa using hhead
  constructor
  · intro hmem
    simpa using List.mem_takeWhile_imp hmem
  · rw [← h, List.takeWhile_append_dropWhile]

end

/-! ### Types -/

namespace ValueType

/-- A type that some text spells: a class has a name, which ends at the first semicolon, and
the elements of an array are values. -/
def Legal : ValueType → Prop
  | object name => name ≠ "" ∧ ';' ∉ name.toList
  | array element => element ≠ void ∧ element.Legal
  | _ => True

/-- The class that a type names, itself or for its elements. -/
def className? : ValueType → Option String
  | object name => some name
  | array element => element.className?
  | _ => none

lemma parse_chars {t : ValueType} (h : t.Legal) (r : List Char) :
    parse (t.chars ++ r) = some (t, r) := by
  induction t with
  | object name =>
    obtain ⟨hname, hsemicolon⟩ := h
    have hne : name.toList ≠ [] := fun hnil => hname (String.toList_eq_nil_iff.mp hnil)
    have htext : (object name).chars ++ r = 'L' :: (name.toList ++ ';' :: r) := by simp [chars]
    rw [htext, parse, takeWhile_ne_append hsemicolon, dropWhile_ne_append hsemicolon]
    obtain ⟨c, cs, hcons⟩ := List.exists_cons_of_ne_nil hne
    rw [hcons]
    simp [← hcons]
  | array element ih =>
    obtain ⟨hvoid, hlegal⟩ := h
    rw [chars, List.cons_append, parse, ih hlegal]
    cases element with
    | void => exact absurd rfl hvoid
    | _ => rfl
  | _ => rfl

lemma of_parse {cs r : List Char} {t : ValueType} (h : parse cs = some (t, r)) :
    t.Legal ∧ cs = t.chars ++ r := by
  fun_induction parse cs generalizing t with
  | case12 cs c rest hdrop hname =>
    cases h
    obtain ⟨hsemicolon, hcs⟩ := eq_append_of_dropWhile_ne hdrop
    refine ⟨⟨fun hempty => hname (String.ofList_eq_empty_iff.mp hempty), ?_⟩, ?_⟩
    · rwa [String.toList_ofList]
    · rw [chars, String.toList_ofList]
      simpa using hcs
  | case15 cs element rest hvoid hparse ih =>
    cases h
    obtain ⟨hlegal, hcs⟩ := ih hparse
    exact ⟨⟨hvoid, hlegal⟩, congrArg ('[' :: ·) hcs⟩
  | _ =>
    cases h <;> exact ⟨trivial, rfl⟩

end ValueType

/-! ### Signatures -/

namespace Signature

def chars (s : Signature) : List Char :=
  '(' :: s.params.flatMap ValueType.chars ++ ')' :: s.result.chars

/-- A signature that some text spells: its parameters are values, and end at the first closing
parenthesis. -/
structure Legal (s : Signature) : Prop where
  result : s.result.Legal
  params : ∀ t ∈ s.params, t ≠ .void ∧ t.Legal
  closed : ')' ∉ s.params.flatMap ValueType.chars

lemma of_parseParams {n : Nat} {cs : List Char} {ts : List ValueType}
    (h : parseParams n cs = some ts) :
    (∀ t ∈ ts, t ≠ .void ∧ t.Legal) ∧ cs = ts.flatMap ValueType.chars := by
  fun_induction parseParams n cs generalizing ts with
  | case1 =>
    cases h
    exact ⟨by simp, rfl⟩
  | case5 n c cs t rest hvoid hparse ih =>
    obtain ⟨us, hus, rfl⟩ := Option.map_eq_some_iff.mp h
    obtain ⟨hlegal, hcs⟩ := ValueType.of_parse hparse
    obtain ⟨hall, hrest⟩ := ih hus
    refine ⟨List.forall_mem_cons.mpr ⟨⟨hvoid, hlegal⟩, hall⟩, ?_⟩
    rw [hcs, List.flatMap_cons, ← hrest]
  | _ => cases h

lemma of_parse {cs : List Char} {s : Signature} (h : parse cs = some s) :
    s.Legal ∧ cs = s.chars := by
  unfold parse at h
  split at h
  next cs =>
    split at h
    next => cases h
    next c rest hdrop =>
      obtain ⟨⟨result, after⟩, hresult, h⟩ := Option.bind_eq_some_iff.mp h
      split at h
      next hafter =>
        obtain ⟨params, hparams, h⟩ := Option.bind_eq_some_iff.mp h
        cases h
        cases hafter
        obtain ⟨hclosed, hcs⟩ := eq_append_of_dropWhile_ne hdrop
        obtain ⟨hlegal, hrest⟩ := ValueType.of_parse hresult
        obtain ⟨hall, htexts⟩ := of_parseParams hparams
        rw [htexts, hrest, List.append_nil] at hcs
        exact ⟨⟨hlegal, hall, htexts ▸ hclosed⟩, congrArg ('(' :: ·) hcs⟩
      next => cases h
  next => cases h

/-- The text of a signature is cut between its parameters and its result. -/
lemma splitDescriptor_chars {s : Signature} (h : s.Legal) :
    Name.splitDescriptor s.chars = (s.params.flatMap ValueType.chars, s.result.chars) := by
  rw [chars, List.cons_append, Name.splitDescriptor, takeWhile_ne_append h.closed,
    dropWhile_ne_append h.closed]

end Signature

end ClassScript
