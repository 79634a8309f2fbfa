import ClassScript.Proofs.Descriptors
import ClassScript.Proofs.ModifiedText
import Mathlib.Data.List.Chain
import Mathlib.Tactic.Ring

/-!
Classes and fields have identifiers of their own.

An identifier can be read back: an underscore before one of four digits begins an escape, and
any other stands for a slash. So a name is determined by its identifier as long as no slash of
it stands before such a digit. The property of a field is the identifier of its class, a slash
and its own name.
-/

namespace ClassScript

/-! ### Hexadecimal digits -/

namespace Quoted

def digitValue (c : Char) : Nat := "0123456789abcdef".toList.idxOf c

def ofHex (cs : List Char) : Nat := cs.foldl (fun n c => n * 16 + digitValue c) 0

lemma digitValue_hexDigit : ∀ d < 16, digitValue (hexDigit d) = d := by decide

lemma hexDigit_ne_underscore : ∀ d < 16, hexDigit d ≠ '_' := by decide

lemma foldl_hex (width n a : Nat) :
    (hex width n).foldl (fun n c => n * 16 + digitValue c) a = a * 16 ^ width + n % 16 ^ width := by
  induction width generalizing a with
  | zero => simp [hex, Nat.mod_one]
  | succ width ih =>
    have hdigit := digitValue_hexDigit (n / 16 ^ width % 16) (Nat.mod_lt _ (by decide))
    rw [hex, List.foldl_cons, ih, Nat.pow_eq, hdigit, Nat.mod_pow_succ, Nat.pow_succ]
    ring

lemma ofHex_hex (width n : Nat) : ofHex (hex width n) = n % 16 ^ width := by
  rw [ofHex, foldl_hex, Nat.zero_mul, Nat.zero_add]

lemma underscore_not_mem_hex (width n : Nat) : '_' ∉ hex width n := by
  induction width with
  | zero => simp [hex]
  | succ width ih =>
    rw [hex, List.mem_cons, not_or]
    exact ⟨(hexDigit_ne_underscore _ (Nat.mod_lt _ (by decide))).symm, ih⟩

end Quoted

namespace Name

/-- The digits that tell escapes apart, each after an underscore. -/
def marks : List Char := ['0', '1', '2', '3']

/-- The units of the text that an identifier stands for. -/
def unescape : List Char → List UInt16
  | '_' :: '0' :: a :: b :: c :: d :: r => .ofNat (Quoted.ofHex [a, b, c, d]) :: unescape r
  | '_' :: '1' :: r => Utf16.units '_' ++ unescape r
  | '_' :: '2' :: r => Utf16.units ';' ++ unescape r
  | '_' :: '3' :: r => Utf16.units '[' ++ unescape r
  | '_' :: r => Utf16.units '/' ++ unescape r
  | c :: r => Utf16.units c ++ unescape r
  | [] => []

lemma unescape_hex (u : UInt16) (r : List Char) :
    unescape ('_' :: '0' :: Quoted.hex 4 u.toNat ++ r) = u :: unescape r := by
  have hread := Quoted.ofHex_hex 4 u.toNat
  have hlt := u.toNat_lt
  rw [Nat.mod_eq_of_lt (by omega)] at hread
  simp only [Quoted.hex] at hread
  simp only [Quoted.hex, List.cons_append, List.nil_append, unescape, hread, UInt16.ofNat_toNat]

lemma unescape_slash {r : List Char} (h : ∀ c ∈ r.head?, c ∉ marks) :
    unescape ('_' :: r) = Utf16.units '/' ++ unescape r := by
  rw [unescape.eq_def]
  split
  case h_6 hne heq => cases heq; exact absurd rfl hne
  all_goals simp_all [marks]

lemma unescape_of_ne {c : Char} (h : c ≠ '_') (r : List Char) :
    unescape (c :: r) = Utf16.units c ++ unescape r := by
  rw [unescape.eq_def]
  split <;> simp_all

lemma unescape_units (us : List UInt16) (r : List Char) :
    unescape ((us.flatMap fun u => '_' :: '0' :: Quoted.hex 4 u.toNat) ++ r) =
      us ++ unescape r := by
  induction us with
  | nil => rfl
  | cons u us ih => rw [List.flatMap_cons, List.append_assoc, unescape_hex, ih, List.cons_append]

/-- An escape is read back; a slash is told from an escape by what follows. -/
lemma unescape_escape (c : Char) {r : List Char} (h : c = '/' → ∀ d ∈ r.head?, d ∉ marks) :
    unescape (escape c ++ r) = Utf16.units c ++ unescape r := by
  unfold escape
  split_ifs with hplain hslash hunderscore hsemicolon hbracket
  · refine unescape_of_ne ?_ r
    rintro rfl
    exact absurd hplain (by decide)
  · subst hslash
    exact unescape_slash (h rfl)
  · subst hunderscore
    rfl
  · subst hsemicolon
    rfl
  · subst hbracket
    rfl
  · exact unescape_units _ r

lemma units_ne_nil (c : Char) : Utf16.units c ≠ [] := by
  unfold Utf16.units
  split_ifs <;> simp

/-- An escape begins with the character itself or with an underscore. -/
lemma escape_head (c : Char) : ∃ d r, escape c = d :: r ∧ (d = c ∨ d = '_') := by
  unfold escape
  split_ifs
  · exact ⟨_, _, rfl, .inl rfl⟩
  iterate 4 exact ⟨_, _, rfl, .inr rfl⟩
  · obtain ⟨u, us, hunits⟩ := List.exists_cons_of_ne_nil (units_ne_nil c)
    rw [hunits]
    exact ⟨_, _, rfl, .inr rfl⟩

/-- No slash stands before a digit that marks an escape. -/
def Legible (cs : List Char) : Prop := cs.IsChain fun a b => a = '/' → b ∉ marks

instance decidableLegible (cs : List Char) : Decidable (Legible cs) :=
  inferInstanceAs (Decidable (cs.IsChain fun a b => a = '/' → b ∉ marks))

/-- A condition on one character is decided for it alone. -/
instance decidableHead (o : Option Char) : Decidable (∀ c ∈ o, c ∉ marks) :=
  match o with
  | none => isTrue (by simp)
  | some c => decidable_of_iff (c ∉ marks) (by simp)

/-- Escapes bring no digit to the front. -/
lemma head_escapeAll {cs : List Char} (h : ∀ c ∈ cs.head?, c ∉ marks) :
    ∀ d ∈ (escapeAll cs).head?, d ∉ marks := by
  cases cs with
  | nil => exact h
  | cons c cs =>
    obtain ⟨d, r, hescape, hd⟩ := escape_head c
    have hhead : (escapeAll (c :: cs)).head? = some d := by
      rw [escapeAll, List.flatMap_cons, hescape]
      rfl
    rw [hhead]
    rintro _ ⟨⟩
    rcases hd with rfl | rfl
    · exact h d rfl
    · decide

lemma unescape_escapeAll {cs : List Char} (h : Legible cs) :
    unescape (escapeAll cs) = cs.flatMap Utf16.units := by
  induction cs with
  | nil => rfl
  | cons c cs ih =>
    obtain ⟨hnext, hrest⟩ := List.isChain_cons.mp h
    rw [List.flatMap_cons, ← ih hrest]
    exact unescape_escape c fun hslash => head_escapeAll fun d hd => hnext d hd hslash

/-- **Texts are told apart by their escapes.** -/
lemma eq_of_escapeAll_eq {s t : List Char} (hs : Legible s) (ht : Legible t)
    (h : escapeAll s = escapeAll t) : s = t := by
  have hunits := congrArg unescape h
  rw [unescape_escapeAll hs, unescape_escapeAll ht] at hunits
  have hdecoded := congrArg Utf16.decode hunits
  rwa [Utf16.decode_flatMap_units, Utf16.decode_flatMap_units] at hdecoded

/-! ### Classes and fields -/

lemma escapeAll_append (s t : List Char) : escapeAll (s ++ t) = escapeAll s ++ escapeAll t :=
  List.flatMap_append

lemma legible_of_not_mem {cs : List Char} (h : '/' ∉ cs) : Legible cs := by
  induction cs with
  | nil => exact .nil
  | cons c cs ih =>
    rw [List.mem_cons, not_or] at h
    exact List.isChain_cons.mpr ⟨fun _ _ hc => absurd hc.symm h.1, ih h.2⟩

/-- The name of a field: in one piece, and not beginning with a digit that marks an escape. -/
structure Simple (name : String) : Prop where
  piece : '/' ∉ name.toList
  start : ∀ c ∈ name.toList.head?, c ∉ marks

/-- The property of a field is the escape of its class and its name, with a slash between. -/
lemma ofField_eq (owner name : String) :
    ofField owner name =
      String.ofList ("fld_".toList ++ escapeAll (owner.toList ++ '/' :: name.toList)) := by
  have hslash : escapeAll ('/' :: name.toList) = '_' :: escapeAll name.toList := rfl
  unfold ofField
  rw [escapeAll_append, hslash, List.append_assoc]

lemma legible_member {owner name : String} (howner : Legible owner.toList) (hname : Simple name) :
    Legible (owner.toList ++ '/' :: name.toList) := by
  have hmember : Legible ('/' :: name.toList) :=
    List.isChain_cons.mpr ⟨fun c hc _ => hname.start c hc, legible_of_not_mem hname.piece⟩
  refine List.IsChain.append howner hmember ?_
  rintro a - b hb -
  cases hb
  decide

/-- The last slash separates the class from the field. -/
lemma member_inj {s s' t t' : List Char} (ht : '/' ∉ t) (ht' : '/' ∉ t')
    (h : s ++ '/' :: t = s' ++ '/' :: t') : s = s' ∧ t = t' := by
  have hback : t.reverse ++ '/' :: s.reverse = t'.reverse ++ '/' :: s'.reverse := by
    simpa using congrArg List.reverse h
  rw [← List.mem_reverse] at ht ht'
  constructor
  · have hdrop := congrArg (List.dropWhile (· ≠ '/')) hback
    rw [dropWhile_ne_append ht, dropWhile_ne_append ht'] at hdrop
    exact List.reverse_injective (List.cons.inj hdrop).2
  · have htake := congrArg (List.takeWhile (· ≠ '/')) hback
    rw [takeWhile_ne_append ht, takeWhile_ne_append ht'] at htake
    exact List.reverse_injective htake

/-- **Classes and fields have identifiers of their own.** -/
theorem identifiers_injective :
    (∀ a b : String, Legible a.toList → Legible b.toList →
      (ofClass a = ofClass b → a = b) ∧ (instanceFlag a = instanceFlag b → a = b)) ∧
    ∀ owner name owner' name' : String, Legible owner.toList → Legible owner'.toList →
      Simple name → Simple name' → ofField owner name = ofField owner' name' →
        owner = owner' ∧ name = name' := by
  have hclass : ∀ a b : String, Legible a.toList → Legible b.toList →
      ofClass a = ofClass b → a = b := by
    intro a b ha hb h
    exact String.toList_inj.mp (eq_of_escapeAll_eq ha hb (String.ofList_injective h))
  refine ⟨fun a b ha hb => ⟨hclass a b ha hb, fun h => hclass a b ha hb ?_⟩, ?_⟩
  · have hchars := congrArg String.toList h
    rw [instanceFlag, instanceFlag, String.toList_append, String.toList_append] at hchars
    exact String.toList_inj.mp (List.append_cancel_left hchars)
  · intro owner name owner' name' howner howner' hname hname' h
    rw [ofField_eq, ofField_eq] at h
    have hmember := eq_of_escapeAll_eq (legible_member howner hname) (legible_member howner' hname')
      (List.append_cancel_left (String.ofList_injective h))
    obtain ⟨hs, ht⟩ := member_inj hname.piece hname'.piece hmember
    exact ⟨String.toList_inj.mp hs, String.toList_inj.mp ht⟩

theorem identifiers_injective_mixed :
    ofClass "a/𝔸_b" ≠ ofClass "a/𝔸/b" ∧ instanceFlag "é;" ≠ instanceFlag "é[" ∧
      ofField "a/B" "c_d" ≠ ofField "a/B_c" "d" := by
  obtain ⟨hclasses, hfields⟩ := identifiers_injective
  refine ⟨fun h => ?_, fun h => ?_, fun h => ?_⟩
  · exact absurd ((hclasses _ _ (by decide) (by decide)).1 h) (by decide)
  · exact absurd ((hclasses _ _ (by decide) (by decide)).2 h) (by decide)
  · have hboth := hfields _ _ _ _ (by decide) (by decide) ⟨by decide, by decide⟩
      ⟨by decide, by decide⟩ h
    exact absurd hboth.1 (by decide)

end Name

end ClassScript
