import ClassScript.Proofs.Mentions
import ClassScript.Proofs.UsedVariables

/-!
What generated code mentions.

Code is written line by line, and each line ends with a gap, so the lines keep to a scope if each
of them does. A statement mentions the variables that it reads or writes, and the classes and
method names of its expressions.
-/

namespace ClassScript

open Wording

/-! ### Lines -/

/-- From `w` to `v` lines were added that keep to the scope. -/
def Writer.Mentions (σ : Scope) (w v : Writer) : Prop :=
  ∃ t, v.text = w.text ++ t ∧ Wording.Mentions σ t ∧ Stops t

namespace Writer.Mentions

variable {σ : Scope} {w v : Writer} {s : String}

lemma refl (σ : Scope) (w : Writer) : w.Mentions σ w :=
  ⟨"", by simp, mentions_of_isFixed (by decide), [], Brackets.outside_nil, by simp, by simp⟩

lemma mem_margin {n : Nat} {c : Char} (hc : c ∈ (margin n).toList) : c = ' ' := by
  rw [margin, String.toList_ofList] at hc
  exact List.eq_of_mem_replicate hc

lemma stops_margin (n : Nat) : Stops (margin n) := by
  have hgap : ∀ c ∈ (margin n).toList.getLast?, isGap c = true := fun c hc => by
    rw [mem_margin (List.mem_of_getLast? hc)]
    decide
  refine ⟨_, Brackets.outside_eq_self fun hquote => ?_, hgap, hgap⟩
  exact absurd (mem_margin hquote) (by decide)

lemma mentions_margin (n : Nat) : Wording.Mentions σ (margin n) := by
  refine mentions_of_not_mem fun c hc => ?_
  rw [mem_margin hc]
  decide

lemma line (h : Mentions σ w v) (hs : Wording.Mentions σ s) : Mentions σ w (v.line s) := by
  obtain ⟨t, htext, ht, hstops⟩ := h
  have hline : Wording.Mentions σ (t ++ (margin v.indent ++ s)) :=
    ht.append ((mentions_margin v.indent).append hs (stops_margin v.indent)) hstops
  refine ⟨t ++ (margin v.indent ++ s) ++ "\n", ?_, hline.trail (by decide), hline.stops (by decide)⟩
  rw [Writer.line, htext]
  simp only [String.append_assoc]

lemma enter (h : Mentions σ w v) : Mentions σ w v.enter := h

lemma leave (h : Mentions σ w v) : Mentions σ w v.leave := h

lemma begins (h : Mentions σ w v) (hs : Wording.Mentions σ s) : Mentions σ w (v.begins s) :=
  (h.line hs).enter

lemma ends (h : Mentions σ w v) (hs : Wording.Mentions σ s) : Mentions σ w (v.ends s) :=
  h.leave.line hs

lemma label (h : Mentions σ w v) (hs : Wording.Mentions σ s) : Mentions σ w (v.label s) :=
  (h.leave.line hs).enter

lemma foldl {α : Type} {f : Writer → α → Writer} {l : List α} (h : Mentions σ w v)
    (hf : ∀ a ∈ l, ∀ {v}, Mentions σ w v → Mentions σ w (f v a)) : Mentions σ w (l.foldl f v) := by
  induction l generalizing v with
  | nil => exact h
  | cons a l ih =>
    obtain ⟨ha, hl⟩ := List.forall_mem_cons.mp hf
    exact ih (ha h) hl

lemma lines {ss : List String} (h : Mentions σ w v) (hs : ∀ s ∈ ss, Wording.Mentions σ s) :
    Mentions σ w (v.lines ss) :=
  h.foldl fun s hmem _ hv => hv.line (hs s hmem)

end Writer.Mentions

section

variable {σ : Scope} {w v : Writer}

/-! ### Statements -/

/-- An assignment of one text to another. -/
lemma Wording.mentions_assignment {a b : String} (ha : Mentions σ a) (hb : Mentions σ b) :
    Mentions σ (a ++ " = " ++ b ++ ";") :=
  (ha.glue (by decide) (by decide) hb).trail (by decide)

/-- A jump, if a test is passed. -/
lemma Wording.mentions_jump {test : String} (h : Mentions σ test) (target : Nat) :
    Mentions σ ("if (" ++ test ++ ") \x7b gt = " ++ toString target ++ "; continue; \x7d") := by
  have htarget : Mentions σ (toString target) := mentions_digital (Number.digital_nat target)
  exact ((Mentions.lead (by decide) h).glue (by decide) (by decide) htarget).trail (by decide)

lemma Wording.mentions_goto (target : Nat) : Mentions σ ("gt = " ++ toString target ++ ";") :=
  (mentions_digital (Number.digital_nat target)).within (by decide) (by decide)

namespace Stmt

/-- A switch of either form. -/
lemma mentions_renderJump {key : String} (hkey : Wording.Mentions σ key) (default : Nat)
    (table : SwitchTable) (h : w.Mentions σ v) : w.Mentions σ (renderJump key default v table) := by
  have hcontinue : Wording.Mentions σ "continue;" := mentions_of_isFixed (by decide)
  cases table with
  | indexed low high targets =>
    have hlow : Wording.Mentions σ ("if (" ++ key ++ " >= " ++ Number.int low) :=
      (Wording.Mentions.lead (by decide) hkey).glue (by decide) (by decide)
        (Number.mentions_int σ low)
    have hhigh : Wording.Mentions σ
        ("if (" ++ key ++ " >= " ++ Number.int low ++ " && " ++ key ++ " <= " ++
          Number.int high ++ ") \x7b") :=
      ((hlow.glue (by decide) (by decide) hkey).glue (by decide) (by decide)
        (Number.mentions_int σ high)).trail (by decide)
    have htargets : Wording.Mentions σ (", ".intercalate (targets.map toString)) :=
      mentions_list (List.forall_mem_map.mpr fun target _ =>
        mentions_digital (Number.digital_nat target))
    have hpick : Wording.Mentions σ
        ("gt = [" ++ ", ".intercalate (targets.map toString) ++ "][" ++ index key low ++ "];") :=
      ((Wording.Mentions.lead (by decide) htargets).glue (by decide) (by decide)
        (mentions_index hkey low)).trail (by decide)
    have helse := ((h.begins hhigh).line hpick).label (s := "\x7d else \x7b")
      (mentions_of_isFixed (by decide))
    exact ((helse.line (mentions_goto default)).ends (mentions_of_isFixed (by decide))).line
      hcontinue
  | chain pairs =>
    refine ((h.lines (List.forall_mem_map.mpr fun p _ => ?_)).line (mentions_goto default)).line
      hcontinue
    have hequal : Wording.Mentions σ (key ++ " === " ++ Number.int p.1) :=
      hkey.glue (by decide) (by decide) (Number.mentions_int σ p.1)
    simpa only [String.append_assoc] using mentions_jump hequal p.2

/-- **A statement mentions what its syntax has.** -/
lemma mentions_render {s : Stmt} (hs : σ.Admits s.vars s.classes s.invoked) (h : w.Mentions σ v) :
    w.Mentions σ (s.render v) := by
  -- all but a jump over a table are a single line
  cases s with
  | assign x e =>
    obtain ⟨hx, he⟩ := List.forall_mem_cons.mp hs.vars
    exact h.line
      (mentions_assignment (Var.mentions hx) (Expr.mentions ⟨he, hs.classes, hs.invoked⟩))
  | store place value =>
    obtain ⟨hplace, hvalue⟩ := List.forall_mem_append.mp hs.vars
    have hplace := Expr.mentions (e := place) ⟨hplace, hs.classes, hs.invoked⟩
    exact h.line (mentions_assignment hplace (Atom.mentions hvalue))
  | eval e => exact h.line ((Expr.mentions ⟨hs.vars, hs.classes, hs.invoked⟩).trail (by decide))
  | jump t =>
    have ht : Wording.Mentions σ (toString t) := mentions_digital (Number.digital_nat t)
    exact h.line (ht.within (by decide) (by decide))
  | jumpIf c t =>
    obtain ⟨hleft, hright⟩ := List.forall_mem_append.mp hs.vars
    exact h.line (mentions_jump (Comparison.mentions hleft hright) t)
  | jumpTo key table default =>
    exact mentions_renderJump (Atom.mentions hs.vars) default table h
  | returns value =>
    cases value with
    | none => exact h.line (mentions_of_isFixed (by decide))
    | some a =>
      exact h.line ((Atom.mentions hs.vars).within (by decide) (by decide))
  | raise a =>
    exact h.line ((Atom.mentions hs.vars).within (by decide) (by decide))
  | label pc =>
    have hpc : Wording.Mentions σ (toString pc) := mentions_digital (Number.digital_nat pc)
    exact h.label (hpc.within (by decide) (by decide))
  | mark pc => exact h.line (mentions_goto pc)

end Stmt

lemma CatchClause.mentions_render (hthrown : σ.word thrown.name.toList) (c : CatchClause)
    (h : w.Mentions σ v) : w.Mentions σ (c.render v) := by
  have htarget : Wording.Mentions σ (toString c.target) :=
    mentions_digital (Number.digital_nat c.target)
  refine h.line ?_
  exact (((Wording.Mentions.lead (by decide) c.mentions_test).glue (by decide) (by decide)
    (Var.mentions hthrown)).glue (by decide) (by decide) htarget).trail (by decide)

namespace Body

lemma mentions_renderHandlers (hthrown : σ.word CatchClause.thrown.name.toList)
    (clauses : List CatchClause) (h : w.Mentions σ v) :
    w.Mentions σ (renderHandlers v clauses) := by
  have hcatch : Wording.Mentions σ "\x7d catch (e) \x7b" := mentions_of_isFixed (by decide)
  have hthrowable : Wording.Mentions σ "e = rt.throwable(e);" := mentions_of_isFixed (by decide)
  have hclauses := ((h.label hcatch).line hthrowable).foldl (l := clauses)
    fun c _ _ hv => c.mentions_render hthrown hv
  exact (hclauses.line (mentions_of_isFixed (by decide))).ends (mentions_of_isFixed (by decide))

/-- **The text of a body mentions what its statements do, and the variable of its handlers.** -/
lemma mentions_render {b : Body}
    (hb : σ.Admits b.vars (b.code.flatMap Stmt.classes) (b.code.flatMap Stmt.invoked))
    (h : w.Mentions σ v) : w.Mentions σ (b.render v) := by
  obtain ⟨hcode, hhandlers⟩ := List.forall_mem_append.mp hb.vars
  have hstmts {v : Writer} (h : w.Mentions σ v) : w.Mentions σ (b.code.foldl Stmt.render v) := by
    refine h.foldl fun s hs _ hv =>
      Stmt.mentions_render ⟨fun x hx => ?_, fun n hn => ?_, fun m hm => ?_⟩ hv
    · exact hcode x (List.mem_flatMap.mpr ⟨s, hs, hx⟩)
    · exact hb.classes n (List.mem_flatMap.mpr ⟨s, hs, hn⟩)
    · exact hb.invoked m (List.mem_flatMap.mpr ⟨s, hs, hm⟩)
  cases b with
  | straight code => exact hstmts h
  | looped code clauses =>
    have hvar : Wording.Mentions σ "var gt = 0;" := mentions_of_isFixed (by decide)
    have hfor : Wording.Mentions σ "for (;;) \x7b" := mentions_of_isFixed (by decide)
    have htry : Wording.Mentions σ "try \x7b" := mentions_of_isFixed (by decide)
    have hswitch : Wording.Mentions σ "switch (gt) \x7b" := mentions_of_isFixed (by decide)
    have hbrace : Wording.Mentions σ "\x7d" := mentions_of_isFixed (by decide)
    have hloop := (h.line hvar).begins hfor
    simp only [render]
    -- without handlers no `try` stands around the switch
    split_ifs with hempty
    · exact ((hstmts (hloop.begins hswitch).enter).leave.ends hbrace).ends hbrace
    · have hthrown : σ.word CatchClause.thrown.name.toList :=
        hhandlers CatchClause.thrown (by simp [handlers, hempty])
      have hcases := (hstmts ((hloop.begins htry).begins hswitch).enter).leave.ends hbrace
      exact (mentions_renderHandlers hthrown clauses hcases).ends hbrace

end Body

end

end ClassScript
