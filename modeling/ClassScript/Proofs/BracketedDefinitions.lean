import ClassScript.Define
import ClassScript.Proofs.BracketedText
import ClassScript.Proofs.ClassFiles
import ClassScript.Proofs.FunctionForms
import ClassScript.Proofs.QuietGeneration

/-!
Definitions have their brackets in order.

A definition is written line by line. `Writer.Leaves` follows the brackets that the lines leave open
together with the indentation, and each statement and each piece says what it does to both. The
pieces of a class open two blocks, close one, open another and close both, so the text of a whole
definition is well bracketed and ends at the indentation at which it starts.
-/

namespace ClassScript

open Brackets

/-! ### Lines -/

/-- From `w` to `v` text was added that leaves the brackets of `σ` to be closed, and the lines go on
`n` levels further in. -/
structure Writer.Leaves (w : Writer) (σ : List Char) (n : Nat) (v : Writer) : Prop where
  text : ∃ t, v.text = w.text ++ t ∧ Fits t [] σ
  indent : v.indent = w.indent + n

namespace Writer.Leaves

variable {w v : Writer} {σ τ : List Char} {n : Nat} {s : String}

lemma refl (w : Writer) : w.Leaves [] 0 w where
  text := ⟨"", by simp, (.of_scan rfl rfl)⟩
  indent := rfl

lemma line (h : w.Leaves σ n v) (hs : Fits s σ τ) : w.Leaves τ n (v.line s) where
  text := by
    obtain ⟨t, htext, ht⟩ := h.text
    have hmargin : Neutral (margin v.indent) := by
      rw [margin, neutral_ofList]
      intro c hc
      rw [List.eq_of_mem_replicate hc]
      decide
    have hend : Closed "\n" := .of_scan rfl rfl
    refine ⟨t ++ (margin v.indent ++ s ++ "\n"), ?_,
      ht.append (((hmargin.closed.fits _).append hs).append (hend.fits _))⟩
    rw [Writer.line, htext, String.append_assoc]
  indent := h.indent

lemma enter (h : w.Leaves σ n v) : w.Leaves σ (n + 1) v.enter where
  text := h.text
  indent := by rw [Writer.enter, h.indent, Nat.add_assoc]

lemma leave (h : w.Leaves σ (n + 1) v) : w.Leaves σ n v.leave where
  text := h.text
  indent := by rw [Writer.leave, h.indent, ← Nat.add_assoc, Nat.add_sub_cancel]

lemma begins (h : w.Leaves σ n v) (hs : Fits s σ τ) : w.Leaves τ (n + 1) (v.begins s) :=
  (h.line hs).enter

lemma ends (h : w.Leaves σ (n + 1) v) (hs : Fits s σ τ) : w.Leaves τ n (v.ends s) := h.leave.line hs

lemma label (h : w.Leaves σ (n + 1) v) (hs : Fits s σ τ) : w.Leaves τ (n + 1) (v.label s) :=
  (h.leave.line hs).enter

lemma line_closed (h : w.Leaves σ n v) (hs : Closed s) : w.Leaves σ n (v.line s) :=
  h.line (hs.fits σ)

lemma foldl {α : Type} {f : Writer → α → Writer} {l : List α} (h : w.Leaves σ n v)
    (hf : ∀ a ∈ l, ∀ {v}, w.Leaves σ n v → w.Leaves σ n (f v a)) : w.Leaves σ n (l.foldl f v) := by
  induction l generalizing v with
  | nil => exact h
  | cons a l ih =>
    obtain ⟨ha, hl⟩ := List.forall_mem_cons.mp hf
    exact ih (ha h) hl

lemma lines {ss : List String} (h : w.Leaves σ n v) (hs : ∀ s ∈ ss, Closed s) :
    w.Leaves σ n (v.lines ss) :=
  h.foldl fun s hmem _ hv => hv.line_closed (hs s hmem)

/-- A line that is left out where there is nothing to say. -/
lemma line_unless (h : w.Leaves σ n v) (hs : Closed s) (c : Bool) :
    w.Leaves σ n (if c then v else v.line s) := by
  split_ifs
  · exact h
  · exact h.line_closed hs

/-- All that was open is closed again. -/
lemma exists_text (h : w.Leaves [] 0 v) :
    ∃ t, v = { w with text := w.text ++ t } ∧ WellBracketed t := by
  obtain ⟨⟨t, htext, ht⟩, hindent⟩ := h
  refine ⟨t, ?_, Closed.wellBracketed ht⟩
  rw [← htext, ← Nat.add_zero w.indent, ← hindent]

end Writer.Leaves

variable {w v : Writer} {σ : List Char} {n : Nat}

/-! ### Statements -/

namespace Brackets

lemma closed_nil : ∀ t ∈ ([] : List String), Closed t := by simp

lemma closed_cons {t : String} {ts : List String} (ht : Closed t) (hts : ∀ t ∈ ts, Closed t) :
    ∀ u ∈ t :: ts, Closed u :=
  List.forall_mem_cons.mpr ⟨ht, hts⟩

lemma closed_semicolon : Closed ";" := .of_scan rfl rfl

lemma fits_brace : Fits "\x7d" ['\x7d'] [] := .of_scan rfl rfl

/-- An assignment of one closed text to another. -/
lemma closed_assignment {a b : String} (ha : Closed a) (hb : Closed b) :
    Closed (a ++ " = " ++ b ++ ";") :=
  ((ha.append (.of_scan rfl rfl)).append hb).append closed_semicolon

/-- A jump, if a test is passed. -/
lemma closed_jump {test : String} (h : Closed test) (target : Nat) :
    Closed ("if (" ++ test ++ ") \x7b gt = " ++ toString target ++ "; continue; \x7d") := by
  have hopen : Fits "if (" [] [')'] := .of_scan rfl rfl
  have hthen : Fits ") \x7b gt = " [')'] ['\x7d'] := .of_scan rfl rfl
  have hend : Fits "; continue; \x7d" ['\x7d'] [] := .of_scan rfl rfl
  have htarget := (Number.neutral_nat target).closed
  exact (((hopen.append (h.fits _)).append hthen).append (htarget.fits _)).append hend

lemma closed_goto (target : Nat) : Closed ("gt = " ++ toString target ++ ";") :=
  (Number.neutral_nat target).closed.within [] (.of_scan rfl rfl) closed_semicolon

end Brackets

namespace Stmt

/-- A switch of either form. -/
lemma leaves_renderJump {key : String} (hkey : Closed key) (default : Nat) (table : SwitchTable)
    (h : w.Leaves σ n v) : w.Leaves σ n (renderJump key default v table) := by
  have hcontinue : Closed "continue;" := .of_scan rfl rfl
  cases table with
  | indexed low high targets =>
    have hopen : Fits "if (" [] [')'] := .of_scan rfl rfl
    have hge : Closed " >= " := .of_scan rfl rfl
    have hand : Closed " && " := .of_scan rfl rfl
    have hle : Closed " <= " := .of_scan rfl rfl
    have hthen : Fits ") \x7b" [')'] ['\x7d'] := .of_scan rfl rfl
    have hfrom := ((hopen.append (hkey.fits _)).append (hge.fits _)).append
      ((Number.neutral_int low).closed.fits _)
    have hto := (((hfrom.append (hand.fits _)).append (hkey.fits _)).append (hle.fits _)).append
      ((Number.neutral_int high).closed.fits _)
    have htargets := closed_list (List.forall_mem_map.mpr fun target (_ : target ∈ targets) =>
      (Number.neutral_nat target).closed)
    have hpick :
        Closed ("gt = [" ++ ", ".intercalate (targets.map toString) ++ "][" ++
          index key low ++ "];") := by
      have hlist : Fits "gt = [" [] [']'] := .of_scan rfl rfl
      have hnext : Fits "][" [']'] [']'] := .of_scan rfl rfl
      have hend : Fits "];" [']'] [] := .of_scan rfl rfl
      have hindex := closed_index hkey low
      exact (((hlist.append (htargets.fits _)).append hnext).append (hindex.fits _)).append hend
    have helse : Fits "\x7d else \x7b" ['\x7d'] ['\x7d'] := .of_scan rfl rfl
    have hinside := (h.begins ((hto.append hthen).frame σ)).line_closed hpick
    have hdefault := (hinside.label (helse.frame σ)).line_closed (closed_goto default)
    exact (hdefault.ends (fits_brace.frame σ)).line_closed hcontinue
  | chain pairs =>
    have htests :
        ∀ t ∈ pairs.map (fun p => "if (" ++ key ++ " === " ++ Number.int p.1 ++ ") \x7b gt = " ++
        toString p.2 ++ "; continue; \x7d"), Closed t := by
      refine List.forall_mem_map.mpr fun p _ => ?_
      have hequal := (hkey.append (t := " === ") (.of_scan rfl rfl)).append
        (Number.neutral_int p.1).closed
      simpa only [String.append_assoc] using closed_jump hequal p.2
    exact ((h.lines htests).line_closed (closed_goto default)).line_closed hcontinue

/-- **A statement leaves the brackets and the indentation as they were.** Labels stand one level
further out, so there has to be one. -/
lemma leaves_render (h : w.Leaves σ (n + 1) v) (s : Stmt) : w.Leaves σ (n + 1) (s.render v) := by
  cases s with
  | assign x e => exact h.line_closed (closed_assignment x.neutral.closed e.closed)
  | store place value => exact h.line_closed (closed_assignment place.closed value.closed)
  | eval e => exact h.line_closed (e.closed.append closed_semicolon)
  | jump t =>
    have hjump := (Number.neutral_nat t).closed.within [] (a := "gt = ") (b := "; continue;")
      (.of_scan rfl rfl) (.of_scan rfl rfl)
    exact h.line_closed hjump
  | jumpIf c t => exact h.line_closed (closed_jump c.closed t)
  | jumpTo key table default => exact leaves_renderJump key.closed default table h
  | returns value =>
    cases value with
    | none => exact h.line_closed (.of_scan rfl rfl)
    | some a =>
      have hreturn := a.closed.within [] (a := "return ") (.of_scan rfl rfl) closed_semicolon
      exact h.line_closed hreturn
  | raise a =>
    have hthrow := a.closed.within [] (a := "throw ") (.of_scan rfl rfl) closed_semicolon
    exact h.line_closed hthrow
  | label pc =>
    have hcase := (Number.neutral_nat pc).closed.within [] (a := "case ") (b := ":")
      (.of_scan rfl rfl) (.of_scan rfl rfl)
    exact h.label (hcase.fits _)
  | mark pc => exact h.line_closed (closed_goto pc)

end Stmt

lemma CatchClause.leaves_render (h : w.Leaves σ n v) (c : CatchClause) :
    w.Leaves σ n (c.render v) := by
  have hopen : Fits "if (" [] [')'] := .of_scan rfl rfl
  have hthen : Fits ") \x7b " [')'] ['\x7d'] := .of_scan rfl rfl
  have hgoto : Closed " = e; gt = " := .of_scan rfl rfl
  have hend : Fits "; continue; \x7d" ['\x7d'] [] := .of_scan rfl rfl
  have htarget := (Number.neutral_nat c.target).closed
  have htest := (hopen.append (c.closed_test.fits _)).append hthen
  have hline :=
    (((htest.append (thrown.neutral.closed.fits _)).append (hgoto.fits _)).append
      (htarget.fits _)).append hend
  exact h.line_closed hline

namespace Body

lemma leaves_renderHandlers (h : w.Leaves ('\x7d' :: σ) (n + 1) v) (clauses : List CatchClause) :
    w.Leaves σ n (renderHandlers v clauses) := by
  have hcatch : Fits "\x7d catch (e) \x7b" ['\x7d'] ['\x7d'] := .of_scan rfl rfl
  have hthrowable : Closed "e = rt.throwable(e);" := .of_scan rfl rfl
  have hthrow : Closed "throw e;" := .of_scan rfl rfl
  have hclauses := ((h.label (hcatch.frame σ)).line_closed hthrowable).foldl (l := clauses)
    fun c _ _ hv => c.leaves_render hv
  exact (hclauses.line_closed hthrow).ends (fits_brace.frame σ)

/-- The statements of a body, and the loop around them if there is one. -/
lemma leaves_render (h : w.Leaves σ (n + 1) v) (b : Body) : w.Leaves σ (n + 1) (b.render v) := by
  cases b with
  | straight code => exact h.foldl fun s _ _ hv => s.leaves_render hv
  | looped code clauses =>
    have hvar : Closed "var gt = 0;" := .of_scan rfl rfl
    have hfor : Fits "for (;;) \x7b" [] ['\x7d'] := .of_scan rfl rfl
    have htry : Fits "try \x7b" [] ['\x7d'] := .of_scan rfl rfl
    have hswitch : Fits "switch (gt) \x7b" [] ['\x7d'] := .of_scan rfl rfl
    have hloop := (h.line_closed hvar).begins (hfor.frame σ)
    -- the cases of the switch stand two levels further in than the switch itself
    have hcases {n : Nat} {σ : List Char} {v : Writer} (h : w.Leaves σ n v) :
        w.Leaves σ n
        ((code.foldl Stmt.render (v.begins "switch (gt) \x7b").enter).leave.ends "\x7d") :=
      ((h.begins (hswitch.frame σ)).enter.foldl fun s _ _ hv => s.leaves_render hv).leave.ends
        (fits_brace.frame σ)
    simp only [render]
    split_ifs
    · exact (hcases hloop).ends (fits_brace.frame σ)
    · exact (leaves_renderHandlers (hcases (hloop.begins (htry.frame _))) clauses).ends
        (fits_brace.frame σ)

end Body

/-! ### Functions -/

lemma IsArgument.closed {t : String} (h : IsArgument t) : Closed t := by
  obtain ⟨i, rfl⟩ := h
  have harg : Closed "arg" := .of_scan rfl rfl
  exact harg.append (Number.neutral_nat i).closed

namespace Function

lemma leaves_renderBody {f : Function} (hf : f.Plain) (h : w.Leaves σ (n + 1) v) :
    w.Leaves σ (n + 1) (renderBody v f.body) := by
  obtain ⟨hgenerated, -, hsources⟩ := hf
  cases hbody : f.body with
  | script lines =>
    rw [hbody] at hgenerated
    cases hgenerated
  | missing text =>
    have hthrow := (closed_quoted text).within [')'] (a := "throw new Error(") (b := ");")
      (.of_scan rfl rfl) (.of_scan rfl rfl)
    exact h.line_closed hthrow
  | code bindings declared body =>
    rw [hbody] at hsources
    have hsource : ∀ b ∈ bindings, Closed b.2 := by
      intro b hb
      -- a slot starts as `this` or as an argument
      rcases hsources b hb with hthis | harg
      · rw [hthis]
        exact .of_scan rfl rfl
      · exact harg.closed
    rw [renderBody_code]
    refine body.leaves_render
      (h.lines (List.forall_mem_append.mpr ⟨List.forall_mem_map.mpr fun b hmem => ?_, ?_⟩))
    · exact closed_assignment (Closed.append (s := "var ") (.of_scan rfl rfl) b.1.neutral.closed)
        (hsource b hmem)
    · have hnames :=
        closed_list (List.forall_mem_map.mpr fun x (_ : x ∈ declared) => x.neutral.closed)
      have hdeclared := hnames.within [] (a := "var ") (.of_scan rfl rfl) closed_semicolon
      split
      · exact closed_nil
      · exact closed_cons hdeclared closed_nil

/-- A function opens one block and closes it. -/
lemma leaves_render {f : Function} (hf : f.Plain) (h : w.Leaves σ n v) :
    w.Leaves σ n (f.render v) := by
  have hproperty : Closed (property "c" f.name) := closed_property (.of_scan rfl rfl) f.name
  have hfunction : Fits " = function(" [] [')'] := .of_scan rfl rfl
  have hblock : Fits ") \x7b" [')'] ['\x7d'] := .of_scan rfl rfl
  have hend : Fits "\x7d;" ['\x7d'] [] := .of_scan rfl rfl
  have hparams := closed_list fun p hp => (hf.params p hp).closed
  have hheader := (((hproperty.fits []).append hfunction).append (hparams.fits _)).append hblock
  exact (leaves_renderBody hf (h.begins (hheader.frame σ))).ends (hend.frame σ)

end Function

/-! ### Pieces -/

abbrev Writer.Inside (w : Writer) (n : Nat) (v : Writer) : Prop :=
  w.Leaves (List.replicate n '\x7d') n v

namespace Piece

lemma inside_opening (h : w.Inside n v) (name : String) (superName : Option String) :
    w.Inside (n + 2) (renderOpening v name superName) := by
  have hname := (Name.neutral_ofClass name).closed
  have hheader : Fits (classFunction name ++ " = function " ++ Name.ofClass name ++ "(arg0) \x7b")
      [] ['\x7d'] := by
    have hblock : Fits "(arg0) \x7b" [] ['\x7d'] := .of_scan rfl rfl
    exact Fits.append (((closed_classFunction name).append (.of_scan rfl rfl)).append hname) hblock
  have hself := hname.within [] (a := "var CLS = ") (.of_scan rfl rfl) closed_semicolon
  have hif : Fits "if (!CLS.$class) \x7b" [] ['\x7d'] := .of_scan rfl rfl
  have htemp : Closed "CLS.$class = 'temp';" := by
    have htext : "CLS.$class = 'temp';" = "CLS.$class = " ++ Quoted.text "temp" ++ ";" := by decide
    rw [htext]
    exact (closed_quoted "temp").within [] (.of_scan rfl rfl) closed_semicolon
  have hstart := ((h.begins (hheader.frame _)).line_closed hself).begins (hif.frame _)
    |>.line_closed htemp
  have hconstructor {v : Writer} (h : w.Inside (n + 2) v) :
      w.Inside (n + 2) (v.lines ["var c = p;", "p.constructor = CLS;"]) :=
    h.lines (closed_cons (.of_scan rfl rfl) <| closed_cons (.of_scan rfl rfl) closed_nil)
  -- without a superclass there is no constructor to take the prototype from
  cases superName with
  | none =>
    have hnull : Closed "var sprcls = null;" := .of_scan rfl rfl
    exact hconstructor
      (hstart.lines (closed_cons (.of_scan rfl rfl) <| closed_cons hnull closed_nil))
  | some s =>
    have hparent := (Expr.object s true).closed.within [] (a := "var pp = ")
      (.of_scan rfl rfl) closed_semicolon
    have hprototype : Closed "var p = CLS.prototype = pp;" := .of_scan rfl rfl
    have hclass : Closed "var sprcls = pp.constructor.$class;" := .of_scan rfl rfl
    exact hconstructor
      (hstart.lines (closed_cons hparent <| closed_cons hprototype <|
        closed_cons hclass closed_nil))

/-- The class object, at the end of the block that runs once. -/
lemma inside_reflection (h : w.Inside (n + 1) v) (name : String) (interfaces : List String)
    (access : UInt16) {annotations : List Annotation} (hannotations : ∀ a ∈ annotations, a.Tagged) :
    w.Inside n (renderReflection v name interfaces access annotations) := by
  have hobject := (Expr.object classClass true).closed.within [] (a := "CLS.$class = ")
    (.of_scan rfl rfl)
    closed_semicolon
  have hname := (closed_quoted name).within [] (a := "CLS.$class.jvmName = ")
    (.of_scan rfl rfl) closed_semicolon
  have haccess := (Number.neutral_nat access.toNat).closed.within [] (a := "CLS.$class.access = ")
    (.of_scan rfl rfl)
    closed_semicolon
  have hinterfaces : Closed ("CLS.$class.interfaces = function() \x7b return [" ++
      ", ".intercalate (interfaces.map fun i => (Expr.classObject i).render) ++ "]; \x7d;") := by
    have hobjects :=
      closed_list (List.forall_mem_map.mpr fun i (_ : i ∈ interfaces) =>
        (Expr.classObject i).closed)
    exact hobjects.within [']', '\x7d'] (.of_scan rfl rfl) (.of_scan rfl rfl)
  have hdata : Closed ("CLS.$class.anno = \x7b" ++
      ", ".intercalate (List.map Annotation.render <| Annotation.kept annotations) ++ "\x7d;") := by
    refine (closed_list (List.forall_mem_map.mpr fun a ha => ?_)).within ['\x7d'] (.of_scan rfl rfl)
      (.of_scan rfl rfl)
    exact (hannotations a (List.mem_filter.mp ha).1).closed
  have hsuper : Closed "CLS.$class.superclass = sprcls;" := .of_scan rfl rfl
  have hconstructor : Closed "CLS.$class.cnstr = CLS;" := .of_scan rfl rfl
  have hhead := h.lines (closed_cons hobject <| closed_cons hname <| closed_cons hsuper closed_nil)
  have hlisted := (hhead.line_unless hinterfaces interfaces.isEmpty).lines
    (closed_cons haccess <| closed_cons hconstructor closed_nil)
  have hflag : Closed (property "c" (Name.instanceFlag name) ++ " = true;") :=
    (closed_property (.of_scan rfl rfl) _).append (.of_scan rfl rfl)
  have hkept :=
    hlisted.line_unless hdata (List.isEmpty <| List.map Annotation.render <|
      Annotation.kept annotations)
  refine ((hkept.line_closed hflag).lines (List.forall_mem_map.mpr fun i _ => ?_)).ends
    (fits_brace.frame _)
  exact (Expr.object i false).closed.within [')'] (.of_scan rfl rfl) (.of_scan rfl rfl)

lemma inside_construction (h : w.Inside n v) (superName : Option String) :
    w.Inside (n + 1) (renderConstruction v superName) := by
  have hlength : Fits "if (arguments.length === 0) \x7b" [] ['\x7d'] := .of_scan rfl rfl
  have hinstance : Fits "if (!(this instanceof CLS)) \x7b" [] ['\x7d'] := .of_scan rfl rfl
  have hnew : Closed "return new CLS();" := .of_scan rfl rfl
  have hblock := ((h.begins (hlength.frame _)).begins (hinstance.frame _)).line_closed hnew
  have hended := hblock.ends (fits_brace.frame _)
  cases superName with
  | none => exact hended
  | some s =>
    have hparent := (Expr.object s false).closed.append (t := ".constructor.call(this);")
      (.of_scan rfl rfl)
    exact hended.line_closed hparent

lemma inside_closing (h : w.Inside (n + 2) v) : w.Inside n (renderClosing v) := by
  have hthis : Closed "return this;" := .of_scan rfl rfl
  have hresult : Closed "return arg0 ? new CLS() : CLS.prototype;" := .of_scan rfl rfl
  have hend : Fits "\x7d;" ['\x7d'] [] := .of_scan rfl rfl
  have hinner := (h.line_closed hthis).ends (fits_brace.frame _)
  exact (hinner.line_closed hresult).ends (hend.frame _)

lemma inside_field (h : w.Inside n v) {object : String} (hobject : Closed object)
    (owner name : String) (value : Literal) :
    w.Inside n (render v (.field object owner name value)) :=
  h.line_closed (closed_assignment (closed_property hobject _) value.closed)

lemma inside_publish (h : w.Inside n v) {dest : String} (hdest : Closed dest) (name : String) :
    w.Inside n (render v (.publish dest name)) :=
  h.line_closed (Exporter.closed_statement hdest name)

end Piece

/-! ### Definitions -/

/-- The function of a method without a script says nothing but what the generator says. -/
lemma Generator.function_plain_of_none {g : Generator} {c : ClassDecl} {m : MethodDecl}
    (hm : m.annotation? Marker.scriptBody = none) {s t : Session} {f : Function}
    (hf : g.function c m s = (.ok f, t)) : f.Plain := by
  refine function_plain hf ?_
  obtain ⟨a, lines, hscript, -⟩ | ⟨text, -, hmissing⟩ |
    ⟨signature, bound, body, used, u, v, -, -, -, -,
    hcode⟩ := function_forms hf
  · cases hm.symm.trans hscript
  · rw [hmissing]
    rfl
  · rw [hcode]
    rfl

namespace Generation

variable {α β : Type}

/-- Generation that succeeds adds pieces that lead from `m` open blocks to `n`. -/
def Draws (x : Generation α) (m n : Nat) : Prop :=
  ∀ ⦃s a t⦄, x s = (.ok a, t) → ∃ added, t.pieces.toList = s.pieces.toList ++ added ∧
    ∀ {w v : Writer}, w.Inside m v → w.Inside n (Piece.renderAll v added)

namespace Draws

variable {x : Generation α} {l m n : Nat}

lemma bind {k : α → Generation β} (hx : Draws x l m)
    (hk : ∀ a s t, x s = (.ok a, t) → Draws (k a) m n) :
    Draws (x >>= k) l n := by
  intro s b u h
  obtain ⟨a, t, ha, hb⟩ := bind_eq_ok h
  obtain ⟨first, hfirst, hm⟩ := hx ha
  obtain ⟨second, hsecond, hn⟩ := hk a s t ha hb
  refine ⟨first ++ second, by rw [hsecond, hfirst, List.append_assoc], fun hv => ?_⟩
  rw [Piece.renderAll, List.foldl_append]
  exact hn (hm hv)

/-- Nothing is written. -/
lemma of_pieces_eq (h : ∀ s, (x s).2.pieces = s.pieces) : Draws x n n := by
  intro s a t hx
  refine ⟨[], ?_, fun hv => hv⟩
  rw [List.append_nil, ← h s, hx]

lemma quiet (h : Quiet x) : Draws x n n := of_pieces_eq h.pieces_eq

lemma write {p : Piece} (h : ∀ {w v : Writer}, w.Inside m v → w.Inside n (p.render v)) :
    Draws (write p) m n := by
  intro s a t hx
  cases hx
  exact ⟨[p], Array.toList_push, h⟩

lemma publish {dest : String} (h : Closed dest) (name : String) :
    Draws (publish dest name) n n := by
  refine .bind (.of_pieces_eq fun _ => rfl) fun _ _ _ _ =>
    .bind (.of_pieces_eq fun _ => rfl) fun s _ _ _ => ?_
  split
  · exact .write fun hv => Piece.inside_publish hv h name
  · exact .of_pieces_eq fun _ => rfl

lemma forM {k : α → Generation PUnit} {as : List α} (h : ∀ a ∈ as, Draws (k a) n n) :
    Draws (as.forM k) n n := by
  induction as with
  | nil => exact .of_pieces_eq fun _ => rfl
  | cons a as ih =>
    obtain ⟨ha, has⟩ := List.forall_mem_cons.mp h
    exact .bind ha fun _ _ _ _ => ih has

end Draws

end Generation

namespace Generator

open Generation

lemma offer_draws (c : ClassDecl) (exported : Query Bool) {dest : String} (h : Closed dest)
    (name : String) :
    Draws (offer c exported dest name) n n := by
  refine .bind (.quiet (.ask _ _)) fun b _ _ _ => ?_
  split
  · exact .publish h name
  · exact .of_pieces_eq fun _ => rfl

lemma field_draws (g : Generator) (c : ClassDecl) {object : String} (h : Closed object)
    (f : FieldDecl) :
    Draws (g.field c object f) n n := by
  refine .bind (.quiet (.liftExcept _ _ _)) fun value _ _ _ => ?_
  refine .bind (.write fun hv => Piece.inside_field hv h c.name f.name value) fun _ _ _ _ => ?_
  exact offer_draws c _ h _

lemma method_draws (g : Generator) (c : ClassDecl) {m : MethodDecl}
    (hm : m.annotation? Marker.scriptBody = none) :
    Draws (g.method c m) n n := by
  refine .bind (.quiet (g.function_quiet c m)) fun f _ _ hf => ?_
  refine .bind (.write fun hv => Function.leaves_render (function_plain_of_none hm hf) hv)
    fun _ _ _ _ => ?_
  exact offer_draws c _ (.of_scan rfl rfl) _

/-- A definition starts with no block open and ends with none. In between the definition of the
class and its first part are open, then the class object ends the latter, then the part is open
that makes new objects. -/
lemma define_draws (g : Generator) {c : ClassDecl} (hannotations : ∀ a ∈ c.annotations, a.Tagged)
    (hmethods : ∀ m ∈ c.methods, m.annotation? Marker.scriptBody = none) :
    Draws (g.define c) 0 0 := by
  have hthis : Closed "this" := .of_scan rfl rfl
  have hc : Closed "c" := .of_scan rfl rfl
  have hvm : Closed "vm" := .of_scan rfl rfl
  refine .bind (.quiet (.forM_option fun s => .request _)) fun _ _ _ _ => ?_
  refine .bind (.quiet (.forM_option fun s => .request _)) fun _ _ _ _ => ?_
  refine .bind (m := 2) (.write fun hv => Piece.inside_opening hv c.name c.superName)
    fun _ _ _ _ => ?_
  refine .bind (.forM fun f _ => g.field_draws c hc f) fun _ _ _ _ => ?_
  refine .bind (.forM fun m hm => g.method_draws c (hmethods m (List.mem_filter.mp hm).1))
    fun _ _ _ _ => ?_
  refine .bind (.quiet (.request _)) fun _ _ _ _ =>
    .bind (.quiet (.forM fun _ => .request _)) fun _ _ _ _ => ?_
  refine .bind (m := 1) (.write fun hv => Piece.inside_reflection hv _ _ _ hannotations)
    fun _ _ _ _ => ?_
  refine .bind (m := 2) (.write fun hv => Piece.inside_construction hv c.superName)
    fun _ _ _ _ => ?_
  refine .bind (.forM fun f _ => g.field_draws c hthis f) fun _ _ _ _ => ?_
  refine .bind (.write fun hv => Piece.inside_closing hv) fun _ _ _ _ => ?_
  exact .bind (offer_draws c _ hvm _) fun _ _ _ _ => .of_pieces_eq fun _ => rfl

end Generator

/-- **Definitions are well bracketed.** The text of a class, none of whose methods has a body in
script, has its brackets in order wherever it is written, and the writer ends at the indentation at
which it started. The same holds of the function of each such method. -/
theorem definitions_well_bracketed (g : Generator) (c : ClassDecl) :
    (∀ bytes, ClassDecl.parse bytes = .ok c →
      (∀ m ∈ c.methods, m.annotation? Marker.scriptBody = none) →
      ∀ s t b, g.define c s = (.ok b, t) → ∃ pieces, t.pieces.toList = s.pieces.toList ++ pieces ∧
        ∀ w, ∃ text, Piece.renderAll w pieces = { w with text := w.text ++ text } ∧
          WellBracketed text) ∧
    ∀ m : MethodDecl, m.annotation? Marker.scriptBody = none →
      ∀ s t f, g.function c m s = (.ok f, t) →
      t.pieces = s.pieces ∧ ∀ w, ∃ text, f.render w = { w with text := w.text ++ text } ∧
        WellBracketed text := by
  refine ⟨fun bytes hbytes hmethods s t b hdefine => ?_, fun m hm s t f hf => ⟨?_, fun w => ?_⟩⟩
  · obtain ⟨pieces, hpieces, hdrawn⟩ :=
      g.define_draws (ClassDecl.parse_tagged bytes hbytes) hmethods hdefine
    exact ⟨pieces, hpieces, fun w => (hdrawn (.refl w)).exists_text⟩
  · have hquiet := (g.function_quiet c m).pieces_eq s
    rwa [hf] at hquiet
  · exact (Function.leaves_render (Generator.function_plain_of_none hm hf) (.refl w)).exists_text

/-- A switch over the first argument, and a division under an exception table. -/
def tangledCode : Code where
  maxStack := 2
  maxLocals := 1
  bytes := [0x1a, 0xaa, 0, 0, 0, 0, 0, 28, 0, 0, 0, 0, 0, 0, 0, 1, 0, 0, 0, 23, 0, 0, 0, 28,
    0x04, 0x1a, 0x6c, 0xac, 0x57, 0x03, 0xac]
  handlers := [⟨24, 28, 28, 0⟩]
  attributes := []

/-- A class with brackets and quotes in its names, in a constant and in an annotation. -/
def tangled : ClassContents where
  minor := 0
  major := 52
  constants :=
    [.utf8 "a/B'([", .classRef 1, .utf8 "f]", .utf8 "Ljava/lang/String;",
      .utf8 "ConstantValue", .string 7,
    .utf8 "]'\x7d", .utf8 "m", .utf8 "(I)I", .utf8 "Code", .utf8 "RuntimeVisibleAnnotations",
    .utf8 "La/T;", .utf8 "z",
    .integer 1]
  access := 0x21
  thisClass := 2
  superClass := 0
  interfaces := [2]
  fields := [⟨0x19, 3, 4, [⟨5, [0, 6]⟩]⟩]
  methods := [⟨9, 8, 9, [⟨10, tangledCode.write⟩]⟩]
  attributes := [⟨11, [0, 1, 0, 12, 0, 1, 0, 13, 0x5b, 0, 2, 0x5a, 0, 14, 0x73, 0, 7]⟩]

def tangledGenerator : Generator := ⟨⟨⟨fun _ => .ok none, 0⟩, ⟨["a/B'(["], []⟩⟩, ⟨.standalone, []⟩⟩

def tangledStart : Session := { exporter := .start .full }

theorem definitions_well_bracketed_tangled :
    ∃ c t, ClassDecl.parse tangled.write = .ok c ∧
      (∀ m ∈ c.methods, m.annotation? Marker.scriptBody = none) ∧
      tangledGenerator.define c tangledStart = (.ok false, t) ∧ t.pieces.size = 9 ∧
      (∀ w, ∃ text, Piece.renderAll w t.pieces.toList = { w with text := w.text ++ text } ∧
        WellBracketed text) ∧
      ∃ m ∈ c.methods, ∃ f u, tangledGenerator.function c m tangledStart = (.ok f, u) ∧
        ∀ w, ∃ text, f.render w = { w with text := w.text ++ text } ∧ WellBracketed text := by
  have hseen : ((ClassDecl.parse tangled.write).toOption.map fun c =>
      (c.methods.map fun m => (m.annotation? Marker.scriptBody).isNone,
        (tangledGenerator.define c tangledStart).1.toOption,
        (tangledGenerator.define c tangledStart).2.pieces.size,
        c.methods.map fun m => (tangledGenerator.function c m tangledStart).1.toOption.isSome)) =
      some ([true], some false, 9, [true]) := by decide +kernel
  cases hparse : ClassDecl.parse tangled.write with
  | error e =>
    rw [hparse] at hseen
    cases hseen
  | ok c =>
    rw [hparse] at hseen
    obtain ⟨hscript, hrest⟩ := Prod.mk.inj (Option.some.inj hseen)
    obtain ⟨hresult, hrest⟩ := Prod.mk.inj hrest
    obtain ⟨hsize, hfunction⟩ := Prod.mk.inj hrest
    obtain ⟨m, hmethods, hm⟩ := List.map_eq_singleton_iff.mp hscript
    rw [Option.isNone_iff_eq_none] at hm
    have hnone : ∀ m ∈ c.methods, m.annotation? Marker.scriptBody = none := by
      rw [hmethods]
      simpa using hm
    rw [hmethods, List.map_singleton, List.singleton_inj] at hfunction
    rcases hdefine : tangledGenerator.define c tangledStart with ⟨_ | b, t⟩
    · rw [hdefine] at hresult
      cases hresult
    rcases hrun : tangledGenerator.function c m tangledStart with ⟨_ | f, u⟩
    · rw [hrun] at hfunction
      cases hfunction
    rw [hdefine] at hresult hsize
    obtain ⟨hclass, hone⟩ := definitions_well_bracketed tangledGenerator c
    obtain ⟨pieces, hpieces, htext⟩ := hclass _ hparse hnone _ _ _ hdefine
    refine ⟨c, t, rfl, hnone, ?_, hsize, ?_,
      m, by simp [hmethods], f, u, hrun, (hone m hm _ _ _ hrun).2⟩
    · cases hresult
      exact hdefine
    · rwa [hpieces]

end ClassScript
