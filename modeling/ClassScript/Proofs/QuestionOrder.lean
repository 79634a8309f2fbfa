import ClassScript.Proofs.Verdicts

/-!
The order in which one asks what is exported.

All questions of a run share one memory, and a verdict is kept under a symbol. The symbol of a
package or of a class tells it from all others, and so does that of a method; but fields of one
class are kept under their names alone. So an answer is the one that a fresh memory gives to the
first question under the same symbol that has a verdict, and depends on the order only where two
members share a symbol.
-/

namespace ClassScript

/-! ### Questions and answers -/

inductive Question where
  | package (name : String)
  | classDecl (c : ClassDecl)
  | field (c : ClassDecl) (f : FieldDecl)
  | method (c : ClassDecl) (m : MethodDecl)

namespace Question

def ask (e : Exports) : Question → Query Bool
  | package name => e.isExportedPackage name
  | classDecl c => e.isExportedClass c
  | field c f => e.isExportedField c f
  | method c m => e.isExportedMethod c m

def symbol : Question → Symbol
  | package name => .package name
  | classDecl c => .classDecl c.name
  | field c f => .field c.name f.name
  | method c m => .method c.name m.name m.descriptor

/-- The question is about a package, or about a class of the library or a member
that it declares. -/
def Valid (e : Exports) : Question → Prop
  | package _ => True
  | classDecl c => e.library.Owns c
  | field c f => e.library.Owns c ∧ f ∈ c.fields
  | method c m => e.library.Owns c ∧ m ∈ c.methods

/-- Two fields of one class with one name, or two methods of one class with one name and one
descriptor. -/
def Clashes : Question → Question → Prop
  | field c f, field c' f' => c.name = c'.name ∧ f.name = f'.name ∧ f ≠ f'
  | method c m, method c' m' =>
    c.name = c'.name ∧ m.name = m'.name ∧ m.descriptor = m'.descriptor ∧ m ≠ m'
  | _, _ => False

def fresh (e : Exports) (q : Question) : Except LoadError Bool := (q.ask e {}).1

end Question

namespace Exports

def answers (e : Exports) : List Question → Knowledge → List (Except LoadError Bool)
  | [], _ => []
  | q :: qs, k => (q.ask e k).1 :: answers e qs (q.ask e k).2

/-- The answer to the first of the earlier questions that has the symbol of `q` and a verdict; if
there is none, the answer to `q` itself. -/
def decided (e : Exports) (earlier : List Question) (q : Question) : Except LoadError Bool :=
  match earlier.find? fun p => p.symbol = q.symbol ∧ (p.fresh e).toBool with
  | some p => p.fresh e
  | none => q.fresh e

end Exports

/-! ### Judgement without a memory -/

namespace Exports

variable {e : Exports} {k : Knowledge}

def judgePackage (e : Exports) (package : String) : Except LoadError Bool :=
  if e.listed.packages.contains package then .ok true
  else (e.library.load (infoName package)).map fun o => o.any (isMarked ·.annotations)

def judgeClass (e : Exports) (c : ClassDecl) : Except LoadError Bool :=
  if e.listed.classes.contains c.name || isMarked c.annotations then .ok true
  else if !c.isPublic then .ok false
  else e.judgePackage ((Name.package? c.name).getD "")

def judgeMember (e : Exports) (c : ClassDecl) (annotations : List Annotation) (access : UInt16) :
    Except LoadError Bool :=
  if isMarked annotations then .ok true
  else if Access.meets access Access.visible then e.judgeClass c else .ok false

end Exports

def Question.judge (e : Exports) : Question → Except LoadError Bool
  | package name => e.judgePackage name
  | classDecl c => e.judgeClass c
  | field c f => e.judgeMember c f.annotations f.access
  | method c m => e.judgeMember c m.annotations m.access

/-! ### What is kept -/

def Symbol.IsMember : Symbol → Prop
  | .field .. | .method .. => True
  | .package _ | .classDecl _ => False

namespace Query

variable {s : Symbol} {judge : Query Bool} {k k' : Knowledge} {v : Bool}

lemma memoized_known (h : k.verdicts.get? s = some v) : memoized s judge k = (.ok v, k) := by
  have hget : (get : Query Knowledge) k = (.ok k, k) := rfl
  rw [memoized, bind_ok hget, h]
  rfl

lemma memoized_ok (h : k.verdicts.get? s = none) (hjudge : judge k = (.ok v, k')) :
    memoized s judge k = (.ok v, { k' with verdicts := k'.verdicts.insert s v }) := by
  have hget : (get : Query Knowledge) k = (.ok k, k) := rfl
  rw [memoized, bind_ok hget, h]
  dsimp only
  rw [bind_ok hjudge]
  rfl

lemma memoized_error {err : LoadError} (h : k.verdicts.get? s = none)
    (hjudge : judge k = (.error err, k')) :
    memoized s judge k = (.error err, k') := by
  have hget : (get : Query Knowledge) k = (.ok k, k) := rfl
  rw [memoized, bind_ok hget, h]
  exact bind_error hjudge

end Query

namespace Exports

variable {e : Exports} {k : Knowledge}

/-- The classes met are those of the library, and packages and classes are judged as they
would be now. -/
structure Keeps (e : Exports) (k : Knowledge) : Prop where
  classes : k.classes.Holds e.library
  packages : ∀ package v, k.verdicts.get? (.package package) = some v →
    e.judgePackage package = .ok v
  classDecls : ∀ c v, e.library.Owns c → k.verdicts.get? (.classDecl c.name) = some v →
    e.judgeClass c = .ok v

/-- The query answers `r` from any memory in order, leaves it in order, and keeps no verdict
on a member. -/
def Settles (e : Exports) (q : Query Bool) (r : Except LoadError Bool) : Prop :=
  ∀ k, e.Keeps k → (q k).1 = r ∧ e.Keeps (q k).2 ∧ ∀ s, s.IsMember →
    (q k).2.verdicts.get? s = k.verdicts.get? s

namespace Settles

lemma pure (v : Bool) : e.Settles (pure v) (.ok v) := fun _ hk => ⟨rfl, hk, fun _ _ => rfl⟩

/-- A verdict that is kept and one that is passed now are the same. -/
lemma memoized {s : Symbol} {judge : Query Bool} {r : Except LoadError Bool} (h : e.Settles judge r)
    (hs : ¬ s.IsMember) (hknown : ∀ k v, e.Keeps k → k.verdicts.get? s = some v → r = .ok v)
    (hinsert : ∀ k v, e.Keeps k → r = .ok v →
      e.Keeps { k with verdicts := k.verdicts.insert s v }) :
    e.Settles (Query.memoized s judge) r := by
  intro k hk
  cases hget : k.verdicts.get? s with
  | some v =>
    rw [Query.memoized_known hget]
    exact ⟨(hknown k v hk hget).symm, hk, fun _ _ => rfl⟩
  | none =>
    obtain ⟨hanswer, hk', hmembers⟩ := h k hk
    rcases hjudge : judge k with ⟨err | v, k'⟩
    · rw [hjudge] at hanswer hk' hmembers
      rw [Query.memoized_error hget hjudge]
      exact ⟨hanswer, hk', hmembers⟩
    · rw [hjudge] at hanswer hk' hmembers
      rw [Query.memoized_ok hget hjudge]
      refine ⟨hanswer, hinsert k' v hk' hanswer.symm, fun s' hs' => ?_⟩
      have hne : s' ≠ s := by
        rintro rfl
        exact hs hs'
      exact (Table.get?_insert_of_ne _ _ hne).trans (hmembers s' hs')

end Settles

/-- A verdict of another kind changes nothing for packages and classes. -/
lemma Keeps.insert {s : Symbol} {v : Bool} (hk : e.Keeps k)
    (hpackage : ∀ package, s = .package package → e.judgePackage package = .ok v)
    (hclass : ∀ c, e.library.Owns c → s = .classDecl c.name → e.judgeClass c = .ok v) :
    e.Keeps { k with verdicts := k.verdicts.insert s v } where
  classes := hk.classes
  packages package w hw := by
    by_cases hs : Symbol.package package = s
    · subst hs
      rw [Table.get?_insert_self] at hw
      cases hw
      exact hpackage package rfl
    · rw [Table.get?_insert_of_ne _ _ hs] at hw
      exact hk.packages package w hw
  classDecls c w hc hw := by
    by_cases hs : Symbol.classDecl c.name = s
    · subst hs
      rw [Table.get?_insert_self] at hw
      cases hw
      exact hclass c hc rfl
    · rw [Table.get?_insert_of_ne _ _ hs] at hw
      exact hk.classDecls c w hc hw

lemma isExportedPackage_settles (package : String) :
    e.Settles (e.isExportedPackage package) (e.judgePackage package) := by
  refine .memoized ?_ id (fun k v hk => hk.packages package v) fun k v hk hv => ?_
  · rw [judgePackage]
    split
    · exact .pure true
    · intro k hk
      obtain ⟨classes, hfind, hgrows, -⟩ := Library.find_run hk.classes (infoName package)
      have hrun : e.find (infoName package) k =
          (e.library.load (infoName package), { k with classes }) := by
        rw [find, Query.ofLookup, hfind]
      rcases hload : e.library.load (infoName package) with err | o
      · rw [bind_error (hrun.trans (by rw [hload]))]
        exact ⟨rfl, ⟨hgrows.holds, hk.packages, hk.classDecls⟩, fun _ _ => rfl⟩
      · rw [bind_ok (hrun.trans (by rw [hload]))]
        cases o <;> exact ⟨rfl, ⟨hgrows.holds, hk.packages, hk.classDecls⟩, fun _ _ => rfl⟩
  · refine hk.insert (fun p hp => ?_) fun c _ hc => ?_
    · cases hp
      exact hv
    · cases hc

lemma isExportedClass_settles {c : ClassDecl} (hc : e.library.Owns c) :
    e.Settles (e.isExportedClass c) (e.judgeClass c) := by
  refine .memoized ?_ id (fun k v hk => hk.classDecls c v hc) fun k v hk hv => ?_
  · rw [judgeClass]
    split
    · exact .pure true
    · split
      · exact .pure false
      · exact isExportedPackage_settles _
  · refine hk.insert (fun p hp => ?_) fun c' hc' hname => ?_
    · cases hp
    · -- the library has one class under the name
      have hsame : c.name = c'.name := Symbol.classDecl.inj hname
      rw [Library.Owns, ← hsame] at hc'
      cases hc.symm.trans hc'
      exact hv

/-- The judgement that a member's verdict is passed by. -/
lemma member_settles {c : ClassDecl} (hc : e.library.Owns c) (annotations : List Annotation)
    (access : UInt16) :
    e.Settles (do
      if isMarked annotations then return true
      if Access.meets access Access.visible then e.isExportedClass c else return false)
      (e.judgeMember c annotations access) := by
  rw [judgeMember]
  split
  · exact .pure true
  · split
    · exact isExportedClass_settles hc
    · exact .pure false

/-! ### One question after another -/

def verdict? (e : Exports) (asked : List Question) (s : Symbol) : Option Bool :=
  asked.findSome? fun p => if p.symbol = s then (p.judge e).toOption else none

/-- A memory after questions: of each member it keeps the first verdict. -/
structure Remembers (e : Exports) (asked : List Question) (k : Knowledge) :
    Prop extends e.Keeps k where
  members : ∀ s, s.IsMember → k.verdicts.get? s = e.verdict? asked s

variable {asked : List Question} {q : Question}

lemma remembers_nothing (e : Exports) : e.Remembers [] {} where
  classes := by rintro n v ⟨⟩
  packages := by rintro package v ⟨⟩
  classDecls := by rintro c v - ⟨⟩
  members _ _ := rfl

lemma verdict?_append (asked : List Question) (q : Question) (s : Symbol) :
    e.verdict? (asked ++ [q]) s =
      (e.verdict? asked s).or (if q.symbol = s then (q.judge e).toOption else none) := by
  rw [verdict?, List.findSome?_append, List.findSome?_singleton, ← verdict?]

/-- A question under another symbol decides nothing. -/
lemma verdict?_append_of_ne {s : Symbol} (h : q.symbol ≠ s) :
    e.verdict? (asked ++ [q]) s = e.verdict? asked s := by
  rw [verdict?_append, if_neg h, Option.or_none]

/-- Questions about packages and about classes have symbols that tell them apart, so that a verdict
under the symbol is the one on the question. -/
lemma judge_eq_of_verdict? (hvalid : ∀ p ∈ asked, p.Valid e) (hq : q.Valid e)
    (hmember : ¬ q.symbol.IsMember) {v : Bool} (h : e.verdict? asked q.symbol = some v) :
    q.judge e = .ok v := by
  obtain ⟨p, hp, hverdict⟩ := List.exists_of_findSome?_eq_some h
  split_ifs at hverdict with hsymbol
  have hjudge : p.judge e = q.judge e := by
    -- a class is named by its symbol, and the library has one class of a name
    cases q with
    | field c f | method c m => exact absurd trivial hmember
    | package name =>
      cases p with
      | package name' =>
        cases hsymbol
        rfl
      | classDecl c | field c f | method c m => cases hsymbol
    | classDecl c =>
      cases p with
      | classDecl c' =>
        have hname : c'.name = c.name := Symbol.classDecl.inj hsymbol
        have hc' : e.library.Owns c' := hvalid _ hp
        rw [Library.Owns, hname] at hc'
        cases hc'.symm.trans hq
        rfl
      | package name | field c f | method c m => cases hsymbol
  rw [← hjudge]
  cases hp' : p.judge e with
  | error err =>
    rw [hp'] at hverdict
    cases hverdict
  | ok w =>
    rw [hp'] at hverdict
    cases hverdict
    rfl

/-- The answer that the first verdict under the symbol gives, or else the judgement now. -/
def answer (e : Exports) (asked : List Question) (q : Question) : Except LoadError Bool :=
  ((e.verdict? asked q.symbol).map .ok).getD (q.judge e)

/-- A query that settles its question without a word about members. -/
lemma Settles.remembers {y : Query Bool} (h : e.Settles y (q.judge e)) (hk : e.Remembers asked k)
    (hmember : ¬ q.symbol.IsMember) (hvalid : ∀ p ∈ asked, p.Valid e) (hq : q.Valid e) :
    (y k).1 = e.answer asked q ∧ e.Remembers (asked ++ [q]) (y k).2 := by
  obtain ⟨hanswer, hkeeps, hmembers⟩ := h k hk.toKeeps
  refine ⟨?_, hkeeps, fun s hs => ?_⟩
  · rw [hanswer, answer]
    cases hverdict : e.verdict? asked q.symbol with
    | none => rfl
    | some v => exact judge_eq_of_verdict? hvalid hq hmember hverdict
  · have hne : q.symbol ≠ s := by
      rintro rfl
      exact hmember hs
    rw [hmembers s hs, hk.members s hs, verdict?_append_of_ne hne]

/-- The verdict on a member is passed once, and kept. -/
lemma Settles.remembers_member {y : Query Bool} (h : e.Settles y (q.judge e))
    (hk : e.Remembers asked k) (hmember : q.symbol.IsMember) :
    (Query.memoized q.symbol y k).1 = e.answer asked q ∧
      e.Remembers (asked ++ [q]) (Query.memoized q.symbol y k).2 := by
  rw [answer, ← hk.members q.symbol hmember]
  cases hget : k.verdicts.get? q.symbol with
  | some v =>
    rw [Query.memoized_known hget]
    refine ⟨rfl, hk.toKeeps, fun s hs => ?_⟩
    rw [hk.members s hs]
    -- an answer that is there already is not asked for again
    by_cases hsymbol : q.symbol = s
    · subst hsymbol
      rw [verdict?_append, ← hk.members _ hs, hget, Option.some_or]
    · rw [verdict?_append_of_ne hsymbol]
  | none =>
    have hnone : e.verdict? asked q.symbol = none := (hk.members _ hmember).symm.trans hget
    obtain ⟨hanswer, hkeeps, hmembers⟩ := h k hk.toKeeps
    rcases hjudge : y k with ⟨err | v, k'⟩
    · rw [hjudge] at hanswer hkeeps hmembers
      rw [Query.memoized_error hget hjudge]
      refine ⟨hanswer, hkeeps, fun s hs => ?_⟩
      rw [hmembers s hs, hk.members s hs, verdict?_append, ← hanswer]
      split_ifs <;> simp [Except.toOption]
    · rw [hjudge] at hanswer hkeeps hmembers
      rw [Query.memoized_ok hget hjudge]
      have hinsert : e.Keeps { k' with verdicts := k'.verdicts.insert q.symbol v } :=
        hkeeps.insert (fun p hp => by simp [hp, Symbol.IsMember] at hmember)
          fun c _ hc => by simp [hc, Symbol.IsMember] at hmember
      -- only the answer to this question is new
      refine ⟨hanswer, hinsert, fun s hs => ?_⟩
      by_cases hsymbol : s = q.symbol
      · subst hsymbol
        rw [Table.get?_insert_self, verdict?_append, hnone, if_pos rfl, ← hanswer]
        rfl
      · rw [Table.get?_insert_of_ne _ _ hsymbol, hmembers s hs, hk.members s hs,
          verdict?_append_of_ne (Ne.symm hsymbol)]

/-- **One question:** it is answered by the first verdict under its symbol, its own included. -/
lemma Remembers.ask (hk : e.Remembers asked k) (hvalid : ∀ p ∈ asked, p.Valid e) (hq : q.Valid e) :
    (q.ask e k).1 = e.answer asked q ∧ e.Remembers (asked ++ [q]) (q.ask e k).2 := by
  cases q with
  | package name =>
    exact (isExportedPackage_settles name).remembers (q := .package name) hk id hvalid hq
  | classDecl c => exact (isExportedClass_settles hq).remembers (q := .classDecl c) hk id hvalid hq
  | field c f =>
    exact (member_settles hq.1 f.annotations f.access).remembers_member (q := .field c f) hk trivial
  | method c m =>
    exact (member_settles hq.1 m.annotations m.access).remembers_member
      (q := .method c m) hk trivial

lemma fresh_eq_judge (hq : q.Valid e) : q.fresh e = q.judge e :=
  ((remembers_nothing e).ask (by simp) hq).1

/-- **A run of questions:** each is answered by the first verdict under its symbol. -/
lemma Remembers.getElem?_answers (hk : e.Remembers asked k) {earlier later : List Question}
    (hvalid : ∀ p ∈ asked ++ earlier ++ q :: later, p.Valid e) :
    (e.answers (earlier ++ q :: later) k)[earlier.length]? = some
    (e.answer (asked ++ earlier) q) := by
  induction earlier generalizing asked k with
  | nil =>
    simp only [List.append_nil, List.forall_mem_append, List.forall_mem_cons] at hvalid
    rw [List.append_nil, ← (hk.ask hvalid.1 hvalid.2.1).1]
    rfl
  | cons p earlier ih =>
    have hstep := hk.ask (q := p) (fun p' hp' => hvalid p' (by simp [hp'])) (hvalid p (by simp))
    have hrest := ih hstep.2 (by simpa using hvalid)
    rw [List.append_assoc, List.singleton_append] at hrest
    rw [← hrest]
    rfl

/-- In terms of answers from a fresh memory. -/
lemma answer_eq_decided (hvalid : ∀ p ∈ asked, p.Valid e) (hq : q.Valid e) :
    e.answer asked q = e.decided asked q := by
  rw [answer, verdict?, decided]
  induction asked with
  | nil => exact (fresh_eq_judge hq).symm
  | cons p asked ih =>
    obtain ⟨hp, hasked⟩ := List.forall_mem_cons.mp hvalid
    rw [List.findSome?_cons, List.find?_cons, fresh_eq_judge hp]
    by_cases hsymbol : p.symbol = q.symbol
    · cases hjudge : p.judge e with
      | error err => simpa [hsymbol, hjudge, Except.toOption, Except.toBool] using ih hasked
      | ok v => simp [hsymbol, Except.toOption, Except.toBool, fresh_eq_judge hp, hjudge]
    · simpa [hsymbol] using ih hasked

/-- Questions about members that do not clash have symbols that tell them apart. -/
lemma eq_of_symbol_eq {p : Question} (hp : p.Valid e) (hq : q.Valid e)
    (hsymbol : p.symbol = q.symbol) (hclash : ¬ p.Clashes q) : p = q := by
  have hclass {c c' : ClassDecl} (hc : e.library.Owns c) (hc' : e.library.Owns c')
      (hname : c.name = c'.name) :
      c = c' := by
    rw [Library.Owns, hname] at hc
    cases hc.symm.trans hc'
    rfl
  -- equal symbols of members fix the class, but not which of two members of one name it is
  cases p with
  | package name =>
    cases q with
    | package name' =>
      cases hsymbol
      rfl
    | classDecl c | field c f | method c m => cases hsymbol
  | classDecl c =>
    cases q with
    | classDecl c' => rw [hclass hp hq (Symbol.classDecl.inj hsymbol)]
    | package name | field c f | method c m => cases hsymbol
  | field c f =>
    cases q with
    | field c' f' =>
      obtain ⟨hname, hfield⟩ := Symbol.field.inj hsymbol
      have hsame : f = f' := by_contra fun hne => hclash ⟨hname, hfield, hne⟩
      rw [hclass hp.1 hq.1 hname, hsame]
    | package name | classDecl c | method c m => cases hsymbol
  | method c m =>
    cases q with
    | method c' m' =>
      obtain ⟨hname, hmethod, hdescriptor⟩ := Symbol.method.inj hsymbol
      have hsame : m = m' := by_contra fun hne => hclash ⟨hname, hmethod, hdescriptor, hne⟩
      rw [hclass hp.1 hq.1 hname, hsame]
    | package name | classDecl c | field c f => cases hsymbol

/-- A question that clashes with none before it is decided by itself. -/
lemma decided_eq_fresh (hvalid : ∀ p ∈ asked, p.Valid e) (hq : q.Valid e)
    (hclash : ∀ p ∈ asked, ¬ p.Clashes q) :
    e.decided asked q = q.fresh e := by
  rw [decided]
  split
  next p hp =>
    have hmem := List.mem_of_find?_eq_some hp
    have hsymbol := List.find?_some hp
    rw [decide_eq_true_eq] at hsymbol
    rw [eq_of_symbol_eq (hvalid p hmem) hq hsymbol.1 (hclash p hmem)]
  next => rfl

/-- **Verdicts do not depend on the order of the questions, but for members that share a symbol.**
Any questions may be asked before and after, of packages, of classes that the library has under the
names that they declare, and of members of these. The answer is the one that a fresh memory gives to
the first question under the symbol that has a verdict. So it is the answer that a fresh memory
gives to the question itself, unless it was asked before about another field of that name in the
class, or another method of that name and descriptor. -/
theorem answers_independent_of_order (e : Exports) (earlier : List Question) (q : Question)
    (later : List Question) (hvalid : ∀ p ∈ earlier ++ q :: later, p.Valid e) :
    (e.answers (earlier ++ q :: later) {})[earlier.length]? = some (e.decided earlier q) ∧
    ((∀ p ∈ earlier, ¬ p.Clashes q) →
      (e.answers (earlier ++ q :: later) {})[earlier.length]? = some (q.fresh e)) := by
  have hsplit := hvalid
  rw [List.forall_mem_append, List.forall_mem_cons] at hsplit
  obtain ⟨hearlier, hq, -⟩ := hsplit
  have hanswer : (e.answers (earlier ++ q :: later) {})[earlier.length]? =
      some (e.decided earlier q) := by
    rw [(remembers_nothing e).getElem?_answers hvalid, List.nil_append,
      answer_eq_decided hearlier hq]
  refine ⟨hanswer, fun hclash => ?_⟩
  rw [hanswer, decided_eq_fresh hearlier hq hclash]

def openField : FieldDecl := ⟨"a/C", "x", "I", 1, none, []⟩

def hiddenField : FieldDecl := ⟨"a/C", "x", "J", 2, none, []⟩

def lastField : FieldDecl := ⟨"a/C", "y", "I", 4, none, []⟩

/-- A public field and a private one share a name; a third has its own. -/
def sharing : ClassDecl :=
  ⟨"a/C", none, [], 0x21, ⟨#[]⟩, [openField, hiddenField, lastField], [], [], none, 52⟩

def sharingExports : Exports :=
  ⟨⟨fun name => if name = "a/C" then .ok (some sharing) else .ok none, 1⟩, .ofNames ["a/C"]⟩

/-- The third field gets the answer that it would get first. -/
theorem answers_independent_of_order_sharing :
    (∀ p ∈ [.field sharing openField, .classDecl sharing, .field sharing hiddenField,
      .field sharing lastField],
      Question.Valid sharingExports p) ∧
    (sharingExports.answers [.field sharing openField, .classDecl sharing,
      .field sharing hiddenField,
      .field sharing lastField] {})[3]? = some
        ((Question.field sharing lastField).fresh sharingExports) := by
  have howns : sharingExports.library.Owns sharing := rfl
  have hvalid : ∀ p ∈ [.field sharing openField, .classDecl sharing, .field sharing hiddenField,
      .field sharing lastField], Question.Valid sharingExports p := by
    have hfields : sharing.fields = [openField, hiddenField, lastField] := rfl
    simp [Question.Valid, howns, hfields]
  have hclash : ∀ p ∈ [.field sharing openField, .classDecl sharing, .field sharing hiddenField],
      ¬ Question.Clashes p (.field sharing lastField) := by
    simp [Question.Clashes, openField, hiddenField, lastField]
  have hlast := (answers_independent_of_order sharingExports
    [.field sharing openField, .classDecl sharing, .field sharing hiddenField]
    (.field sharing lastField) [] hvalid).2
  exact ⟨hvalid, hlast hclash⟩

/-- The two fields that share a name get one answer, and which one it is depends on which of them is
asked about first. -/
theorem fields_answered_in_order :
    sharingExports.answers [.field sharing openField, .field sharing hiddenField] {} =
      [.ok true, .ok true] ∧
    sharingExports.answers [.field sharing hiddenField, .field sharing openField] {} =
      [.ok false, .ok false] := by
  decide

end Exports

end ClassScript
