import ClassScript.Define
import ClassScript.Proofs.BracketedText
import ClassScript.Proofs.Identifiers
import ClassScript.Proofs.QuietGeneration
import ClassScript.Proofs.Rendering

/-!
The functions that define classes, and their names.

The definition of a class starts with a function that bears the identifier of the class. Where the
parts of a class name are identifiers of Java, the identifier starts with a letter, and what Java
does not keep for itself is escaped or left alone. A word that only scripts keep for themselves is
left alone too, so a class with such a word for its whole name has a function that cannot be named.
-/

namespace ClassScript

/-! ### Names made of identifiers -/

namespace Name

/-- The words that Java keeps for itself. The underscore, which later versions keep too, needs no
exception. -/
def keywords : List String :=
  ["abstract", "assert", "boolean", "break", "byte", "case", "catch", "char", "class", "const",
    "continue", "default",
    "do", "double", "else", "enum", "extends", "final", "finally", "float", "for", "goto", "if",
    "implements", "import",
    "instanceof", "int", "interface", "long", "native", "new", "package", "private", "protected",
    "public", "return",
    "short", "static", "strictfp", "super", "switch", "synchronized", "this", "throw", "throws",
    "transient", "try",
    "void", "volatile", "while", "true", "false", "null"]

/-- Can the text be a part of a class name? It is not empty, does not start with a digit and is no
keyword. Which characters it is made of does not matter here. -/
def isWord : List Char → Bool
  | [] => false
  | c :: cs => !c.isDigit && !keywords.contains (String.ofList (c :: cs))

def Composed (name : String) : Prop := (name.toList.splitOn '/').all isWord = true

instance decidableComposed (name : String) : Decidable (Composed name) :=
  inferInstanceAs (Decidable (_ = true))

/-- The words that scripts keep for themselves and Java does not. -/
def scriptWords : List String :=
  ["debugger", "delete", "export", "function", "in", "typeof", "var", "with",
    "yield", "let", "await"]

lemma mem_scriptWords {w : String} (hreserved : w ∈ Identifier.reserved) (hkeyword : w ∉ keywords) :
    w ∈ scriptWords := by
  have hall : Identifier.reserved.all (fun w => keywords.contains w || scriptWords.contains w) =
      true := by decide
  have hw := List.all_eq_true.mp hall w hreserved
  rw [Bool.or_eq_true, List.contains_iff_mem, List.contains_iff_mem] at hw
  exact hw.resolve_left hkeyword

lemma isPlain_scriptWords {w : String} (h : w ∈ scriptWords) :
    Identifier.isPlain (ofClass w) = false := by
  have hall : scriptWords.all (fun w => !Identifier.isPlain (ofClass w)) = true := by decide
  simpa using List.all_eq_true.mp hall w h

lemma underscore_not_mem_reserved {w : String} (h : w ∈ Identifier.reserved) : '_' ∉ w.toList := by
  have hall : Identifier.reserved.all (fun w => !w.toList.contains '_') = true := by decide
  simpa using List.all_eq_true.mp hall w h

/-- The first part of a name begins with no digit, and there is no slash in front of it. -/
lemma Composed.exists_cons {name : String} (h : Composed name) :
    ∃ c cs, name.toList = c :: cs ∧ c.isDigit = false ∧ c ≠ '/' := by
  unfold Composed at h
  cases hname : name.toList with
  | nil =>
    rw [hname] at h
    cases h
  | cons c cs =>
    obtain ⟨part, parts, hrest⟩ := List.exists_cons_of_ne_nil (List.splitOn_ne_nil '/' cs)
    rw [hname, List.splitOn_cons_eq_if_modifyHead, hrest] at h
    split_ifs at h with hslash
    · cases h
    · rw [List.modifyHead_cons, List.all_cons, Bool.and_eq_true, isWord, Bool.and_eq_true,
        Bool.not_eq_true'] at h
      exact ⟨c, cs, rfl, h.1.1, fun heq => hslash (beq_iff_eq.mpr heq)⟩

/-- Text without an underscore has had nothing escaped, and no slash. -/
lemma escape_eq_self {c : Char} (h : '_' ∉ escape c) : escape c = [c] ∧ c ≠ '/' := by
  unfold escape at h ⊢
  split_ifs at h ⊢ with hplain
  · refine ⟨rfl, ?_⟩
    rintro rfl
    exact absurd hplain (by decide)
  iterate 4 exact absurd List.mem_cons_self h
  · obtain ⟨u, us, hunits⟩ := List.exists_cons_of_ne_nil (units_ne_nil c)
    rw [hunits] at h
    exact absurd List.mem_cons_self h

lemma escapeAll_eq_self {cs : List Char} (h : '_' ∉ escapeAll cs) :
    escapeAll cs = cs ∧ '/' ∉ cs := by
  induction cs with
  | nil => exact ⟨rfl, List.not_mem_nil⟩
  | cons c cs ih =>
    rw [escapeAll, List.flatMap_cons, List.mem_append, not_or] at h
    obtain ⟨hc, hslash⟩ := escape_eq_self h.1
    obtain ⟨hcs, hslashes⟩ := ih h.2
    refine ⟨?_, ?_⟩
    · rw [escapeAll, List.flatMap_cons, hc, ← escapeAll, hcs, List.singleton_append]
    · rw [List.mem_cons, not_or]
      exact ⟨Ne.symm hslash, hslashes⟩

/-- A name without slashes is one part. -/
lemma Composed.not_mem_keywords {name : String} (h : Composed name) (hslash : '/' ∉ name.toList) :
    name ∉ keywords := by
  unfold Composed at h
  rw [List.splitOn_eq_singleton hslash, List.all_cons, Bool.and_eq_true] at h
  cases hname : name.toList with
  | nil =>
    rw [hname] at h
    cases h.1
  | cons c cs =>
    rw [hname, isWord, ← hname, String.ofList_toList, Bool.and_eq_true, Bool.not_eq_true',
      Bool.not_eq_true'] at h
    rw [← List.contains_iff_mem, h.1.2]
    exact Bool.false_ne_true

/-- The identifier of a class is a word of the script language only where the class has that word
for its name. -/
lemma Composed.mem_scriptWords {name : String} (h : Composed name)
    (hreserved : ofClass name ∈ Identifier.reserved) :
    name ∈ scriptWords := by
  have hplain := underscore_not_mem_reserved hreserved
  rw [ofClass, String.toList_ofList] at hplain
  obtain ⟨hself, hslash⟩ := escapeAll_eq_self hplain
  rw [ofClass, hself, String.ofList_toList] at hreserved
  exact Name.mem_scriptWords hreserved (h.not_mem_keywords hslash)

/-- **The identifier of a class is one, unless the class is named by a word of the script
language.** -/
lemma Composed.isPlain_iff {name : String} (h : Composed name) :
    Identifier.isPlain (ofClass name) = true ↔ name ∉ scriptWords := by
  constructor
  · intro hplain hmem
    rw [isPlain_scriptWords hmem] at hplain
    cases hplain
  · intro hword
    obtain ⟨c, cs, hname, hdigit, hslash⟩ := h.exists_cons
    obtain ⟨d, r, hescape, hd⟩ := escape_head c
    have htext : (ofClass name).toList = d :: (r ++ escapeAll cs) := by
      rw [ofClass, String.toList_ofList, hname, escapeAll, List.flatMap_cons, hescape,
        List.cons_append, ← escapeAll]
    have hpart : ∀ x ∈ (ofClass name).toList, Identifier.isPart x = true := by
      intro x hx
      rw [ofClass, String.toList_ofList] at hx
      obtain ⟨y, -, hx⟩ := List.mem_flatMap.mp hx
      exact isPart_escape hx
    rw [htext, List.forall_mem_cons] at hpart
    have hstart : Identifier.isStart d = true := by
      -- a first character is kept or escaped, and an escape starts with an underscore
      rcases hd with rfl | rfl
      · have hc := hpart.1
        simpa [Identifier.isStart, Identifier.isPart, Char.isAlphanum, hdigit] using hc
      · rfl
    have hreserved : Identifier.reserved.contains (ofClass name) = false := by
      rw [← Bool.not_eq_true, List.contains_iff_mem]
      exact fun hmem => hword (h.mem_scriptWords hmem)
    unfold Identifier.isPlain
    rw [htext]
    simp only [hstart, hreserved, Bool.true_and, Bool.not_false, Bool.and_true]
    exact List.all_eq_true.mpr hpart.2

end Name

/-! ### How a definition starts -/

namespace Generation

variable {α β : Type} {x : Generation α}

/-- Whether it succeeds or fails, the generation writes behind what is written. -/
def Appends (x : Generation α) : Prop := ∀ s, s.pieces.toList <+: (x s).2.pieces.toList

namespace Appends

lemma bind {k : α → Generation β} (hx : Appends x) (hk : ∀ a, Appends (k a)) :
    Appends (x >>= k) := by
  intro s
  have hs := hx s
  rcases h : x s with ⟨e | a, t⟩
  · rw [h] at hs
    rwa [bind_error h]
  · rw [h] at hs
    rw [bind_ok h]
    exact hs.trans (hk a t)

lemma of_pieces_eq (h : ∀ s, (x s).2.pieces = s.pieces) : Appends x :=
  fun s => ⟨[], by rw [List.append_nil, h s]⟩

lemma quiet (h : Quiet x) : Appends x := of_pieces_eq h.pieces_eq

lemma write (p : Piece) : Appends (write p) := fun _ => ⟨[p], Array.toList_push.symm⟩

lemma forM {k : α → Generation PUnit} {l : List α} (h : ∀ a, Appends (k a)) :
    Appends (l.forM k) := by
  induction l with
  | nil => exact quiet (.pure ())
  | cons a l ih => exact bind (h a) fun _ => ih

end Appends

end Generation

namespace Generator

open Generation

lemma offer_appends (c : ClassDecl) (exported : Query Bool) (dest name : String) :
    Appends (offer c exported dest name) := by
  refine .bind (.quiet (.ask _ _)) fun b => ?_
  split
  · refine .bind (.of_pieces_eq fun _ => rfl) fun _ =>
      .bind (.of_pieces_eq fun _ => rfl) fun s => ?_
    split
    · exact .write _
    · exact .quiet (.pure ())
  · exact .quiet (.pure ())

lemma field_appends (g : Generator) (c : ClassDecl) (object : String) (f : FieldDecl) :
    Appends (g.field c object f) :=
  .bind (.quiet (.liftExcept _ _ _)) fun _ => .bind (.write _) fun _ => offer_appends c _ _ _

lemma method_appends (g : Generator) (c : ClassDecl) (m : MethodDecl) : Appends (g.method c m) :=
  .bind (.quiet (g.function_quiet c m)) fun _ => .bind (.write _) fun _ => offer_appends c _ _ _

/-- **A definition starts with the function of its class,** even one that is not finished. -/
lemma define_opens (g : Generator) (c : ClassDecl) (s : Session) :
    s.pieces.toList ++ [.opening c.name c.superName] <+: (g.define c s).2.pieces.toList := by
  have hrequest {o : Option String} {q : String → Request} (s : Session) :
      ∃ t, (o.forM fun n => request (q n)) s = (.ok (), t) ∧ t.pieces = s.pieces := by
    cases o with
    | none => exact ⟨s, rfl, rfl⟩
    | some n => exact ⟨_, rfl, rfl⟩
  obtain ⟨t, ht, hpieces⟩ := hrequest (o := c.script?) (q := .script) s
  obtain ⟨u, hu, hpieces'⟩ := hrequest (o := c.superName) (q := .reference) t
  rw [define, bind_ok ht, bind_ok hu, ← hpieces, ← hpieces', ← Array.toList_push]
  have hrest : Appends (do
      (c.fields.filter (·.isStatic)).forM (g.field c "c")
      let methods := c.methods.filter ClassDecl.defines
      methods.forM (g.method c)
      request (.reference Piece.classClass)
      let named := Annotation.classes c.annotations ++ c.interfaces
      named.forM fun name => request (.reference name)
      write (.reflection c.name c.interfaces c.access c.annotations)
      write (.construction c.superName)
      (c.fields.filter (!·.isStatic)).forM (g.field c "this")
      write .closing
      offer c (g.exports.isExportedClass c) "vm" (Name.ofClass c.name)
      return methods.any (·.name == ClassDecl.initializerName)) := by
    refine .bind (.forM (g.field_appends c _)) fun _ =>
      .bind (.forM (g.method_appends c)) fun _ => ?_
    refine .bind (.quiet (.request _)) fun _ =>
      .bind (.quiet (.forM fun _ => .request _)) fun _ => ?_
    refine .bind (.write _) fun _ => .bind (.write _) fun _ =>
      .bind (.forM (g.field_appends c _)) fun _ => ?_
    exact .bind (.write _) fun _ => .bind (offer_appends c _ _ _) fun _ => .quiet (.pure _)
  exact hrest { u with pieces := u.pieces.push (.opening c.name c.superName) }

end Generator

/-- The first two lines of a definition. -/
lemma Piece.exists_renderOpening (w : Writer) (name : String) (superName : Option String) :
    ∃ rest, (renderOpening w name superName).text = w.text ++
      (Writer.margin w.indent ++
        (classFunction name ++ " = function " ++ Name.ofClass name ++ "(arg0) \x7b") ++
        "\n") ++
      (Writer.margin (w.indent + 1) ++ ("var CLS = " ++ Name.ofClass name ++ ";") ++ "\n") ++
        rest := by
  cases superName with
  | none =>
    simp only [renderOpening, Writer.begins, Writer.enter, Writer.lines_eq, Writer.line,
      String.append_assoc]
    exact ⟨_, rfl⟩
  | some s =>
    simp only [renderOpening, Writer.begins, Writer.enter, Writer.lines_eq, Writer.line,
      String.append_assoc]
    exact ⟨_, rfl⟩

/-- **The functions of classes have names, but for classes named by words of the script language.**
Whether or not a definition is finished, it starts with a function and a variable line that both
bear the identifier of the class, after what was there. Where the name of the class is made of
identifiers, that identifier is a plain one exactly when the name is none of the words that scripts
keep for themselves and Java does not. -/
theorem class_functions_named (g : Generator) (c : ClassDecl) (h : Name.Composed c.name)
    (s : Session) :
    s.pieces.toList ++ [.opening c.name c.superName] <+: (g.define c s).2.pieces.toList ∧
    (∀ w, ∃ rest, (Piece.render w (.opening c.name c.superName)).text = w.text ++
      (Writer.margin w.indent ++
        (classFunction c.name ++ " = function " ++ Name.ofClass c.name ++ "(arg0) \x7b") ++
        "\n") ++
      (Writer.margin (w.indent + 1) ++ ("var CLS = " ++ Name.ofClass c.name ++ ";") ++ "\n") ++
        rest) ∧
    (Identifier.isPlain (Name.ofClass c.name) = true ↔ c.name ∉ Name.scriptWords) :=
  ⟨g.define_opens c s, fun w => Piece.exists_renderOpening w c.name c.superName, h.isPlain_iff⟩

def ClassDecl.bare (name : String) : ClassDecl :=
  ⟨name, none, [], 0x21, ⟨#[]⟩, [], [], [], none, 52⟩

/-- A word of the script language as a part of a name does no harm. -/
theorem class_functions_named_words :
    Name.Composed "in/été_1" ∧ Identifier.isPlain (Name.ofClass "in/été_1") = true ∧
      [.opening "in/été_1" none] <+:
        (Generator.alone.define (.bare "in/été_1")
          { exporter := .start .none }).2.pieces.toList := by
  have hpath : Name.Composed "in/été_1" := by decide
  obtain ⟨hopens, -, hplain⟩ :=
    class_functions_named Generator.alone (.bare "in/été_1") hpath { exporter := .start .none }
  exact ⟨hpath, hplain.mpr (by decide), hopens⟩

/-- As the whole name it leaves the function without one. -/
theorem class_function_unnamed :
    Name.Composed "function" ∧ Identifier.isPlain (Name.ofClass "function") = false ∧
      (Piece.render {} (.opening "function" none)).text.toList.take 41 =
        "vm['function'] = function function(arg0) ".toList := by
  decide +kernel

end ClassScript
