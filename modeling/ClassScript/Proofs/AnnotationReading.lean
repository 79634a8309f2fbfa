import ClassScript.Proofs.AnnotationTrees

/-!
Annotations are read back.

The attributes of a member that hold annotations hold trees. Their indices are followed one after
another: if each leads to what is wanted there, the annotations that the trees stand for are read,
all of them as visible as their attribute; and else the reading fails with an error that names an
index that does not.
-/

namespace ClassScript

open Reader (Reads)

/-! ### Indices that lead nowhere -/

/-- An index in a tree, with what it has to lead to. -/
inductive Use where
  | text (index : UInt16)
  | integer (index : UInt16)
  | float (index : UInt16)
  | long (index : UInt16)
  | double (index : UInt16)

namespace Use

def index : Use → UInt16
  | text i | integer i | float i | long i | double i => i

def Found (p : ConstantPool) : Use → Prop
  | text i => ∃ s, p.get i = .ok (.utf8 s)
  | integer i => ∃ v, p.get i = .ok (.integer v)
  | float i => ∃ v, p.get i = .ok (.float v)
  | long i => ∃ v, p.get i = .ok (.long v)
  | double i => ∃ v, p.get i = .ok (.double v)

end Use

def PoolError.index : PoolError → UInt16
  | outOfRange i | unusable i | wrongKind i _ _ => i

namespace RawValue

mutual

/-- The indices of a tree, in the order in which they are followed. -/
def uses : RawValue → List Use
  | int _ i => [.integer i]
  | long i => [.long i]
  | float i => [.float i]
  | double i => [.double i]
  | string i => [.text i]
  | enumerated t n => [.text t, .text n]
  | classInfo i => [.text i]
  | nested t es => .text t :: usesOfElements es
  | array vs => usesOfAll vs

def usesOfElements : List (UInt16 × RawValue) → List Use
  | [] => []
  | (n, v) :: es => .text n :: (v.uses ++ usesOfElements es)

def usesOfAll : List RawValue → List Use
  | [] => []
  | v :: vs => v.uses ++ usesOfAll vs

end

end RawValue

def RawAnnotation.uses (t : RawAnnotation) : List Use :=
  .text t.type :: RawValue.usesOfElements t.elements

/-- These indices are followed: a result comes of it if they all lead to what they have to, and
else an error that names one that does not. -/
structure Checks {α : Type} (p : ConstantPool) (us : List Use) (x : Except PoolError α) : Prop where
  found : ∀ a, x = .ok a → ∀ u ∈ us, u.Found p
  named : ∀ e, x = .error e → ∃ u ∈ us, ¬ u.Found p ∧ e.index = u.index

namespace Checks

variable {α β : Type} {p : ConstantPool} {us vs : List Use} {x : Except PoolError α}

lemma pure (a : α) : Checks p [] (pure a : Except PoolError α) := by
  refine ⟨fun _ _ u hu => ?_, fun e h => ?_⟩
  · cases hu
  · cases h

lemma bind {k : α → Except PoolError β} (h : Checks p us x) (hk : ∀ a, Checks p vs (k a)) :
    Checks p (us ++ vs) (x >>= k) := by
  cases x with
  | error e =>
    refine ⟨fun b hb => ?_, fun e' he => ?_⟩
    · cases hb
    · cases he
      obtain ⟨u, hu, hnot⟩ := h.named e rfl
      exact ⟨u, List.mem_append_left _ hu, hnot⟩
  | ok a =>
    refine ⟨fun b hb u hu => ?_, fun e he => ?_⟩
    · exact (List.mem_append.mp hu).elim (h.found a rfl u) ((hk a).found b hb u)
    · obtain ⟨u, hu, hnot⟩ := (hk a).named e he
      exact ⟨u, List.mem_append_right _ hu, hnot⟩

/-- A last step that follows no index. -/
lemma map (h : Checks p us x) (f : α → β) : Checks p us (x >>= fun a => Pure.pure (f a)) := by
  have hbind := h.bind fun a => pure (p := p) (f a)
  rwa [List.append_nil] at hbind

/-- A single index. -/
lemma one {u : Use} (hfound : u.Found p ↔ ∃ a, x = .ok a)
    (hindex : ∀ e, x = .error e → e.index = u.index) :
    Checks p [u] x := by
  refine ⟨fun a ha v hv => ?_, fun e he =>
    ⟨u, List.mem_singleton_self u, fun hu => ?_, hindex e he⟩⟩
  · rw [List.mem_singleton.mp hv]
    exact hfound.mpr ⟨a, ha⟩
  · obtain ⟨a, ha⟩ := hfound.mp hu
    cases he.symm.trans ha

/-- One after another. -/
lemma mapM {γ : Type} {k : γ → Except PoolError α} {uses : γ → List Use}
    (h : ∀ c, Checks p (uses c) (k c)) (cs : List γ) : Checks p (cs.flatMap uses) (cs.mapM k) := by
  induction cs with
  | nil => exact pure []
  | cons c cs ih =>
    rw [List.mapM_cons, List.flatMap_cons]
    exact (h c).bind fun a => ih.map (a :: ·)

end Checks

namespace ConstantPool

variable {p : ConstantPool} {i : UInt16} {e : PoolError}

lemma index_of_get (h : p.get i = .error e) : e.index = i := by
  rw [get] at h
  split at h <;> cases h <;> rfl

lemma utf8_checks (p : ConstantPool) (i : UInt16) : Checks p [.text i] (p.utf8 i) := by
  refine .one (exists_congr fun s => utf8_eq_ok.symm) fun e he => ?_
  rw [utf8] at he
  cases hget : p.get i with
  | error e' =>
    rw [hget] at he
    cases he
    exact index_of_get hget
  | ok c =>
    rw [hget] at he
    cases c <;> cases he <;> rfl

end ConstantPool

namespace RawValue

variable {p : ConstantPool}

/-- The entries of one kind, each with its value. -/
lemma constant_checks {α : Type} {u : Use} {expected : String} {select : Constant → Option α}
    (make : α → Constant) (hselect : ∀ c a, select c = some a ↔ c = make a)
    (hfound : u.Found p ↔ ∃ a, p.get u.index = .ok (make a)) :
    Checks p [u] (constant p u.index expected select) := by
  refine .one (hfound.trans (exists_congr fun a => ?_)) fun e he => ?_
  · rw [constant_eq_ok]
    simp only [hselect]
    exact ⟨fun h => ⟨_, h, rfl⟩, by rintro ⟨c, h, rfl⟩; exact h⟩
  · rw [constant] at he
    cases hget : p.get u.index with
    | error e' =>
      rw [hget] at he
      cases he
      exact ConstantPool.index_of_get hget
    | ok c =>
      rw [hget] at he
      dsimp only [bind, Except.bind] at he
      split at he
      · cases he
      · cases he
        rfl

mutual

lemma resolve_checks (p : ConstantPool) (visible : Bool) :
    (t : RawValue) → Checks p t.uses (t.resolve p visible)
  | int tag i => by
    rw [resolve, uses]
    exact .map
      (constant_checks (u := .integer i) .integer (by intro c v; cases c <;> simp) Iff.rfl) _
  | long i => by
    rw [resolve, uses]
    exact .map (constant_checks (u := .long i) .long (by intro c v; cases c <;> simp) Iff.rfl) _
  | float i => by
    rw [resolve, uses]
    exact .map (constant_checks (u := .float i) .float (by intro c v; cases c <;> simp) Iff.rfl) _
  | double i => by
    rw [resolve, uses]
    exact .map (constant_checks (u := .double i) .double (by intro c v; cases c <;> simp) Iff.rfl) _
  | string i => by
    rw [resolve, uses]
    exact (p.utf8_checks i).map _
  | enumerated t n => by
    rw [resolve, uses]
    exact (p.utf8_checks t).bind fun d => (p.utf8_checks n).map _
  | classInfo i => by
    rw [resolve, uses]
    exact (p.utf8_checks i).map _
  | nested t es => by
    rw [resolve, uses]
    exact (p.utf8_checks t).bind fun d => (resolveElements_checks p visible es).map _
  | array vs => by
    rw [resolve, uses]
    exact (resolveAll_checks p visible vs).map _

lemma resolveElements_checks (p : ConstantPool) (visible : Bool) :
    (es : List (UInt16 × RawValue)) → Checks p (usesOfElements es) (resolveElements p visible es)
  | [] => by
    rw [resolveElements, usesOfElements]
    exact .pure []
  | (n, v) :: es => by
    rw [resolveElements, usesOfElements]
    refine (p.utf8_checks n).bind fun name => (resolve_checks p visible v).bind fun a => ?_
    exact (resolveElements_checks p visible es).map _

lemma resolveAll_checks (p : ConstantPool) (visible : Bool) :
    (vs : List RawValue) → Checks p (usesOfAll vs) (resolveAll p visible vs)
  | [] => by
    rw [resolveAll, usesOfAll]
    exact .pure []
  | v :: vs => by
    rw [resolveAll, usesOfAll]
    exact (resolve_checks p visible v).bind fun a => (resolveAll_checks p visible vs).map _

end

end RawValue

lemma RawAnnotation.resolve_checks (p : ConstantPool) (visible : Bool) (t : RawAnnotation) :
    Checks p t.uses (t.resolve p visible) :=
  (p.utf8_checks t.type).bind fun _ => (RawValue.resolveElements_checks p visible t.elements).map _

/-! ### Attributes -/

def Annotation.holderName : Bool → String
  | true => "RuntimeVisibleAnnotations"
  | false => "RuntimeInvisibleAnnotations"

structure AnnotationTable where
  visible : Bool
  trees : List RawAnnotation

namespace AnnotationTable

def Stands (p : ConstantPool) (t : AnnotationTable) (as : List Annotation) : Prop :=
  RawAnnotation.AllStand p t.trees as

def uses (t : AnnotationTable) : List Use := t.trees.flatMap RawAnnotation.uses

def resolve (p : ConstantPool) (t : AnnotationTable) : Except PoolError (List Annotation) :=
  t.trees.mapM (·.resolve p t.visible)

end AnnotationTable

/-- What attributes hold: those with one of the two names the trees written in them, and others
none. -/
inductive Attribute.Holds (p : ConstantPool) : Attribute → AnnotationTable → Prop where
  | table {i : UInt16} {t : AnnotationTable}
      (hname : p.get i = .ok (.utf8 <| Annotation.holderName t.visible))
    (hwritable : CountFits RawAnnotation.Writable t.trees) :
    Holds p ⟨i, .counted RawAnnotation.write t.trees⟩ t
  | other {a : Attribute} {name : String} (hname : p.get a.name = .ok (.utf8 name))
    (hother : ∀ visible, name ≠ Annotation.holderName visible) (visible : Bool) :
    Holds p a ⟨visible, []⟩

namespace Annotation

variable {p : ConstantPool}

lemma visibility?_holderName (visible : Bool) :
    visibility? (holderName visible) = some visible := by
  cases visible <;> rfl

lemma visibility?_eq_none {name : String} (h : ∀ visible, name ≠ holderName visible) :
    visibility? name = none := by
  rw [visibility?]
  · exact h true
  · exact h false

lemma mapM_mapError {ε ε' α β : Type} (f : ε → ε') (k : α → Except ε β) (l : List α) :
    (l.mapM fun a => (k a).mapError f) = (l.mapM k).mapError f := by
  induction l with
  | nil => rfl
  | cons a l ih =>
    rw [List.mapM_cons, List.mapM_cons, ih]
    cases k a with
    | error e => rfl
    | ok b =>
      cases l.mapM k with
      | error e => rfl
      | ok bs => rfl

/-- Of an attribute, the trees that it holds are resolved. -/
lemma ofAttribute_eq {a : Attribute} {t : AnnotationTable} (h : a.Holds p t) :
    ofAttribute p a = (t.resolve p).mapError .pool := by
  cases h with
  | @table i _ hname hwritable =>
    have hread : (Reader.counted RawAnnotation.read).parse (.counted RawAnnotation.write t.trees) =
        .ok t.trees :=
      (Reads.counted hwritable.length fun a ha o =>
        RawAnnotation.reads_write (hwritable.all a ha) o).parse
    rw [ofAttribute, ConstantPool.utf8_eq_ok.mpr hname]
    dsimp only [bind, Except.bind, Except.mapError]
    rw [visibility?_holderName]
    dsimp only
    rw [hread]
    exact mapM_mapError AnnotationError.pool (·.resolve p t.visible) t.trees
  | other hname hother visible =>
    rw [ofAttribute, ConstantPool.utf8_eq_ok.mpr hname]
    dsimp only [bind, Except.bind, Except.mapError]
    rw [visibility?_eq_none hother]
    rfl

/-- Of all attributes, the trees that they hold are resolved one after another. -/
lemma readAll_eq {attributes : List Attribute} {tables : List AnnotationTable}
    (h : List.Forall₂ (Attribute.Holds p) attributes tables) :
    readAll p attributes =
      ((tables.mapM (AnnotationTable.resolve p)).map List.flatten).mapError .pool := by
  have hmapM : attributes.mapM (ofAttribute p) =
      (tables.mapM (AnnotationTable.resolve p)).mapError .pool := by
    rw [← mapM_mapError]
    induction h with
    | nil => rfl
    | cons ha _ ih => rw [List.mapM_cons, List.mapM_cons, ofAttribute_eq ha, ih]
  rw [readAll, hmapM]
  cases tables.mapM (AnnotationTable.resolve p) with
  | error e => rfl
  | ok l => rfl

end Annotation

namespace AnnotationTable

variable {p : ConstantPool}

lemma mapM_resolve_of_stand {tables : List AnnotationTable} {groups : List (List Annotation)}
    (h : List.Forall₂ (Stands p) tables groups) : tables.mapM (resolve p) =
      .ok (List.zipWith (fun t as => as.map (·.shown t.visible)) tables groups) := by
  induction h with
  | nil => rfl
  | @cons t as _ _ ht _ ih =>
    have hone : t.resolve p = .ok (as.map (·.shown t.visible)) :=
      RawAnnotation.mapM_resolve_of_stand ht t.visible
    rw [List.mapM_cons, hone, ih]
    rfl

lemma mapM_resolve_checks (p : ConstantPool) (tables : List AnnotationTable) :
    Checks p (tables.flatMap uses) (tables.mapM (resolve p)) := by
  have hone (t : AnnotationTable) : Checks p t.uses (t.resolve p) :=
    .mapM (fun a => a.resolve_checks p t.visible) t.trees
  exact .mapM hone tables

end AnnotationTable

namespace Annotation

/-- **Annotations are read back.** A pool with the constants of some annotations has trees for
them. From attributes that hold trees, the annotations that these stand for are read in their
order, and each is as visible as its attribute, with all that is nested in it. If an index in a
tree does not lead to what it has to, the error names such an index. -/
theorem trees_read_back (p : ConstantPool) :
    (∀ as : List Annotation, CountFits Writable as → (∀ a ∈ as, p.Supplies a.constants) →
      ∃ trees, CountFits RawAnnotation.Writable trees ∧ RawAnnotation.AllStand p trees as) ∧
    ∀ attributes tables, List.Forall₂ (Attribute.Holds p) attributes tables →
      (∀ groups, List.Forall₂ (AnnotationTable.Stands p) tables groups →
        readAll p attributes =
          .ok (List.zipWith (fun t as => as.map (·.shown t.visible)) tables groups).flatten) ∧
      ((∃ u ∈ tables.flatMap AnnotationTable.uses, ¬ u.Found p) →
        ∃ e, readAll p attributes = .error (.pool e) ∧
          ∃ u ∈ tables.flatMap AnnotationTable.uses, ¬ u.Found p ∧ e.index = u.index) := by
  refine ⟨fun as hwritable hp => ?_, fun attributes tables h => ⟨fun groups hgroups => ?_, ?_⟩⟩
  · obtain ⟨trees, hall, hstand⟩ := RawAnnotation.exists_trees hwritable.all hp
    exact ⟨trees, ⟨hstand.length_eq ▸ hwritable.length, hall⟩, hstand⟩
  · rw [readAll_eq h, AnnotationTable.mapM_resolve_of_stand hgroups]
    rfl
  · rintro ⟨u, hu, hnot⟩
    have hchecks := AnnotationTable.mapM_resolve_checks p tables
    rw [readAll_eq h]
    cases hresolve : tables.mapM (AnnotationTable.resolve p) with
    | ok l => exact absurd (hchecks.found l hresolve u hu) hnot
    | error e => exact ⟨e, rfl, hchecks.named e hresolve⟩

/-- A pool with two numbers and some texts; slot six is the second one of the long. -/
def labels : ConstantPool :=
  .ofEntries [.utf8 "RuntimeInvisibleAnnotations", .utf8 "La/A;", .utf8 "v", .integer 7,
  .long (-1), .utf8 "x"]

/-- An annotation whose one element is a list of a flag, of a long and of an annotation. -/
def label (visible : Bool) : Annotation :=
  ⟨"La/A;", visible,
    [("v", .array [.int 'Z' 7, .long (-1), .nested "La/A;" visible [("v", .string "x")]])]⟩

def labelTree (text : UInt16) : RawAnnotation :=
  ⟨2, [(3, .array [.int 'Z' 4, .long 5, .nested 2 [(3, .string text)]])]⟩

theorem trees_read_back_label :
    (∃ trees, CountFits RawAnnotation.Writable trees ∧
      RawAnnotation.AllStand labels trees [label true]) ∧
    readAll labels [⟨1, .counted RawAnnotation.write [labelTree 7]⟩] = .ok [label false] ∧
    ∃ e, readAll labels [⟨1, .counted RawAnnotation.write [labelTree 6]⟩] = .error (.pool e) ∧
      ∃ u ∈ [AnnotationTable.mk false [labelTree 6]].flatMap AnnotationTable.uses,
        ¬ u.Found labels ∧ e.index = u.index := by
  have hlabel : CountFits Writable [label true] := by
    refine ⟨by decide, List.forall_mem_singleton.mpr ⟨by decide, ?_⟩⟩
    refine List.forall_mem_singleton.mpr (.array (by simp) ?_)
    refine List.forall_mem_cons.mpr ⟨.int (by decide) 7, List.forall_mem_cons.mpr ⟨.long (-1), ?_⟩⟩
    exact List.forall_mem_singleton.mpr
      (.nested _ _ (by simp) (List.forall_mem_singleton.mpr (.string _)))
  have htree (i : UInt16) : CountFits RawAnnotation.Writable [labelTree i] := by
    refine ⟨by simp, List.forall_mem_singleton.mpr ⟨by simp [labelTree], ?_⟩⟩
    refine List.forall_mem_singleton.mpr (.array (by simp) ?_)
    refine List.forall_mem_cons.mpr ⟨.int (by decide) 4, List.forall_mem_cons.mpr ⟨.long 5, ?_⟩⟩
    exact List.forall_mem_singleton.mpr
      (.nested _ (by simp) (List.forall_mem_singleton.mpr (.string i)))
  have hholds (i : UInt16) : List.Forall₂ (Attribute.Holds labels)
      [⟨1, .counted RawAnnotation.write [labelTree i]⟩] [⟨false, [labelTree i]⟩] :=
    .cons (.table (t := ⟨false, [labelTree i]⟩) rfl (htree i)) .nil
  have hstands : (labelTree 7).Stands labels (label true) := by
    refine ⟨rfl, .cons rfl (.array (.cons (.int 'Z' rfl) (.cons (.long rfl) (.cons ?_ .nil)))) .nil⟩
    exact .nested true rfl (.cons rfl (.string rfl) .nil)
  refine ⟨(trees_read_back labels).1 _ hlabel ?_,
    ((trees_read_back labels).2 _ _ (hholds 7)).1 [[label true]] (.cons (.cons hstands .nil) .nil),
    ((trees_read_back labels).2 _ _ (hholds 6)).2 ⟨.text 6, ?_, ?_⟩⟩
  · refine List.forall_mem_singleton.mpr ?_
    change ∀ c ∈ [.utf8 "La/A;", .utf8 "v", .integer 7, .long (-1), .utf8 "La/A;",
      .utf8 "v", .utf8 "x"],
      ∃ i, labels.get i = .ok c
    simp only [List.forall_mem_cons, List.not_mem_nil, false_implies, implies_true, and_true]
    exact ⟨⟨2, rfl⟩, ⟨3, rfl⟩, ⟨4, rfl⟩, ⟨5, rfl⟩, ⟨2, rfl⟩, ⟨3, rfl⟩, ⟨7, rfl⟩⟩
  · simp [AnnotationTable.uses, RawAnnotation.uses, labelTree, RawValue.usesOfElements,
      RawValue.usesOfAll,
      RawValue.uses]
  · rintro ⟨s, hs⟩
    cases hs

end Annotation

end ClassScript
