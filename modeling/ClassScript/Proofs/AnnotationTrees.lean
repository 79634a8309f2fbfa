import ClassScript.ClassFile.Annotation
import ClassScript.Proofs.AnnotationTags
import ClassScript.Proofs.ClassFiles
import ClassScript.Proofs.PoolAddressing
import Mathlib.Data.List.Forall2

/-!
Annotations as trees.

In the file an annotation is a tree of indices, and it is read back from the bytes that are written
of it. The tree stands for an annotation when each of its indices leads to the constant that is
wanted there: then the annotation is what it is resolved to, as visible as it is asked for. A pool
with all constants of an annotation has a tree for it.
-/

namespace ClassScript

open Reader (Reads)

/-! ### Layout -/

namespace RawValue

def tagByte (tag : Char) : UInt8 := .ofNat tag.toNat

mutual

def write : RawValue → Bytes
  | int tag i => tagByte tag :: Bytes.u16 i
  | long i => tagByte 'J' :: Bytes.u16 i
  | float i => tagByte 'F' :: Bytes.u16 i
  | double i => tagByte 'D' :: Bytes.u16 i
  | string i => tagByte 's' :: Bytes.u16 i
  | enumerated t n => tagByte 'e' :: (Bytes.u16 t ++ Bytes.u16 n)
  | classInfo i => tagByte 'c' :: Bytes.u16 i
  | nested t es => tagByte '@' :: (Bytes.u16 t ++ (Bytes.ofNat 2 es.length ++ writeElements es))
  | array vs => tagByte '[' :: (Bytes.ofNat 2 vs.length ++ writeAll vs)

def writeElements : List (UInt16 × RawValue) → Bytes
  | [] => []
  | (n, v) :: es => Bytes.u16 n ++ v.write ++ writeElements es

def writeAll : List RawValue → Bytes
  | [] => []
  | v :: vs => v.write ++ writeAll vs

end

def writeElement (e : UInt16 × RawValue) : Bytes := Bytes.u16 e.1 ++ e.2.write

lemma writeElements_eq (es : List (UInt16 × RawValue)) :
    writeElements es = es.flatMap writeElement := by
  induction es with
  | nil => rfl
  | cons e es ih => rw [writeElements, ih, List.flatMap_cons, writeElement]

lemma writeAll_eq (vs : List RawValue) : writeAll vs = vs.flatMap write := by
  induction vs with
  | nil => rfl
  | cons v vs ih => rw [writeAll, ih, List.flatMap_cons]

/-- The tags are known, and all numbers of parts fit two bytes. -/
inductive Writable : RawValue → Prop where
  | int {tag : Char} (h : tag ∈ ElementValue.intTags) (i : UInt16) : Writable (.int tag i)
  | long (i : UInt16) : Writable (.long i)
  | float (i : UInt16) : Writable (.float i)
  | double (i : UInt16) : Writable (.double i)
  | string (i : UInt16) : Writable (.string i)
  | enumerated (t n : UInt16) : Writable (.enumerated t n)
  | classInfo (i : UInt16) : Writable (.classInfo i)
  | nested (t : UInt16) {es : List (UInt16 × RawValue)} (hlength : es.length < 2 ^ 16)
    (h : ∀ e ∈ es, Writable e.2) : Writable (.nested t es)
  | array {vs : List RawValue} (hlength : vs.length < 2 ^ 16) (h : ∀ v ∈ vs, Writable v) :
      Writable (.array vs)

lemma length_le_flatMap {α : Type} (write : α → Bytes) {x : α} {xs : List α} (h : x ∈ xs) :
    (write x).length ≤ (xs.flatMap write).length :=
  (List.sublist_flatten_of_mem (List.mem_map_of_mem h)).length_le

lemma length_write_pos (v : RawValue) : 0 < v.write.length := by
  cases v <;> simp [write]

/-- No value has less than one level. -/
lemma within {v : RawValue} {o depth : Nat}
    (h : ∀ o depth, v.write.length ≤ depth + 1 → Reads o v.write (readWithin (depth + 1)) v)
    (hdepth : v.write.length ≤ depth) : Reads o v.write (readWithin depth) v := by
  cases depth with
  | zero => exact absurd hdepth (Nat.not_le.mpr v.length_write_pos)
  | succ depth => exact h o depth hdepth

/-- A value is read with as many levels as it has bytes. -/
lemma reads_levels {v : RawValue} (h : v.Writable) (o depth : Nat)
    (hdepth : v.write.length ≤ depth + 1) :
    Reads o v.write (readWithin (depth + 1)) v := by
  induction h generalizing o depth with
  | int htag i =>
    rw [write, readWithin]
    simp only [ElementValue.intTags, List.mem_cons, List.not_mem_nil, or_false] at htag
    rcases htag with rfl | rfl | rfl | rfl | rfl
    iterate 5 exact .tagged _ ((Reads.u16 i).map (int _))
  | long i =>
    rw [write, readWithin]
    exact .tagged _ ((Reads.u16 i).map long)
  | float i =>
    rw [write, readWithin]
    exact .tagged _ ((Reads.u16 i).map float)
  | double i =>
    rw [write, readWithin]
    exact .tagged _ ((Reads.u16 i).map double)
  | string i =>
    rw [write, readWithin]
    exact .tagged _ ((Reads.u16 i).map string)
  | enumerated t n =>
    rw [write, readWithin]
    exact .tagged _ (.bind (.u16 t) ((Reads.u16 n).map (enumerated t)))
  | classInfo i =>
    rw [write, readWithin]
    exact .tagged _ ((Reads.u16 i).map classInfo)
  | @nested t es hlength h ih =>
    rw [write, writeElements_eq] at hdepth ⊢
    rw [readWithin]
    refine .tagged _ (.bind (.u16 t) (Reads.map (.counted hlength fun e he o => ?_) (nested t)))
    refine .bind (.u16 e.1) (Reads.map (within (ih e he) ?_) (Prod.mk e.1))
    -- a part has fewer bytes than the whole, whose tag is not among them, so one level less will do
    have hle := length_le_flatMap writeElement he
    simp only [writeElement, List.length_append, List.length_cons] at hle hdepth
    omega
  | @array vs hlength h ih =>
    rw [write, writeAll_eq] at hdepth ⊢
    rw [readWithin]
    refine .tagged _ (Reads.map (.counted hlength fun v hv o => within (ih v hv) ?_) array)
    have hle := length_le_flatMap write hv
    simp only [List.length_append, List.length_cons] at hdepth
    omega

lemma reads_write {v : RawValue} (h : v.Writable) (o : Nat) : Reads o v.write read v := by
  intro rest
  exact within (reads_levels h) (by simp) rest

end RawValue

namespace RawAnnotation

def write (a : RawAnnotation) : Bytes :=
  Bytes.u16 a.type ++ .counted RawValue.writeElement a.elements

def Writable (a : RawAnnotation) : Prop := CountFits (fun e => e.2.Writable) a.elements

lemma reads_write {a : RawAnnotation} (h : a.Writable) (o : Nat) : Reads o a.write read a := by
  refine .bind (.u16 a.type) (Reads.map (.counted h.length fun e he o => ?_) (mk a.type))
  exact .bind (.u16 e.1) ((RawValue.reads_write (h.all e he) _).map (Prod.mk e.1))

end RawAnnotation

/-! ### What a tree stands for -/

namespace RawValue

mutual

/-- The indices of the tree lead to the constants of the value. How visible the value is does not
matter: the tree does not say. -/
inductive Stands (p : ConstantPool) : RawValue → ElementValue → Prop where
  | int {i : UInt16} {v : Int32} (tag : Char) (h : p.get i = .ok (.integer v)) :
      Stands p (.int tag i) (.int tag v)
  | long {i : UInt16} {v : Int64} (h : p.get i = .ok (.long v)) : Stands p (.long i) (.long v)
  | float {i : UInt16} {v : Binary32} (h : p.get i = .ok (.float v)) :
      Stands p (.float i) (.float v)
  | double {i : UInt16} {v : Binary64} (h : p.get i = .ok (.double v)) :
      Stands p (.double i) (.double v)
  | string {i : UInt16} {s : String} (h : p.get i = .ok (.utf8 s)) :
      Stands p (.string i) (.string s)
  | enumerated {t n : UInt16} {d name : String} (ht : p.get t = .ok (.utf8 d))
      (hn : p.get n = .ok (.utf8 name)) :
    Stands p (.enumerated t n) (.enumerated d name)
  | classInfo {i : UInt16} {d : String} (h : p.get i = .ok (.utf8 d)) :
      Stands p (.classInfo i) (.classInfo d)
  | nested {t : UInt16} {d : String} {es : List (UInt16 × RawValue)}
      {as : List (String × ElementValue)}
    (visible : Bool) (ht : p.get t = .ok (.utf8 d)) (h : ElementsStand p es as) :
    Stands p (.nested t es) (.nested d visible as)
  | array {vs : List RawValue} {as : List ElementValue} (h : AllStand p vs as) :
      Stands p (.array vs) (.array as)

inductive ElementsStand (p : ConstantPool) :
    List (UInt16 × RawValue) → List (String × ElementValue) → Prop where
  | nil : ElementsStand p [] []
  | cons {n : UInt16} {name : String} {v : RawValue} {a : ElementValue}
      {es : List (UInt16 × RawValue)}
    {as : List (String × ElementValue)} (hn : p.get n = .ok (.utf8 name)) (hv : Stands p v a)
    (h : ElementsStand p es as) : ElementsStand p ((n, v) :: es) ((name, a) :: as)

inductive AllStand (p : ConstantPool) : List RawValue → List ElementValue → Prop where
  | nil : AllStand p [] []
  | cons {v : RawValue} {a : ElementValue} {vs : List RawValue} {as : List ElementValue}
      (hv : Stands p v a)
    (h : AllStand p vs as) : AllStand p (v :: vs) (a :: as)

end

end RawValue

namespace RawAnnotation

structure Stands (p : ConstantPool) (t : RawAnnotation) (a : Annotation) : Prop where
  type : p.get t.type = .ok (.utf8 a.descriptor)
  elements : RawValue.ElementsStand p t.elements a.elements

def AllStand (p : ConstantPool) : List RawAnnotation → List Annotation → Prop :=
  List.Forall₂ (Stands p)

end RawAnnotation

namespace ElementValue

mutual

/-- The value with all annotations in it visible, or none. -/
def shown (visible : Bool) : ElementValue → ElementValue
  | nested d _ es => nested d visible (shownElements visible es)
  | array vs => array (shownAll visible vs)
  | v => v

def shownElements (visible : Bool) : List (String × ElementValue) → List (String × ElementValue)
  | [] => []
  | (name, v) :: es => (name, v.shown visible) :: shownElements visible es

def shownAll (visible : Bool) : List ElementValue → List ElementValue
  | [] => []
  | v :: vs => v.shown visible :: shownAll visible vs

end

end ElementValue

def Annotation.shown (visible : Bool) (a : Annotation) : Annotation :=
  { a with visible, elements := ElementValue.shownElements visible a.elements }

namespace RawValue

variable {p : ConstantPool} {visible : Bool}

lemma constant_eq_ok {α : Type} {i : UInt16} {expected : String} {select : Constant → Option α}
    {a : α} :
    constant p i expected select = .ok a ↔ ∃ c, p.get i = .ok c ∧ select c = some a := by
  rw [constant, Except.bind_eq_ok]
  refine exists_congr fun c => and_congr_right fun _ => ?_
  cases select c with
  | none =>
    constructor
    · rintro ⟨⟩
    · rintro ⟨⟩
  | some b =>
    exact ⟨fun h => congrArg some (Except.ok.inj h), fun h =>
      congrArg Except.ok (Option.some.inj h)⟩

lemma constant_then {α β : Type} {i : UInt16} {expected : String} {select : Constant → Option α}
    {make : α → β} {c : Constant} {a : α} (h : p.get i = .ok c) (hselect : select c = some a) :
    (do return make (← constant p i expected select)) = Except.ok (make a) :=
  Except.bind_eq_ok.mpr ⟨a, constant_eq_ok.mpr ⟨c, h, hselect⟩, rfl⟩

open ConstantPool (utf8_eq_ok)

mutual

/-- A tree that stands for a value is resolved to it. -/
lemma resolve_of_stands {t : RawValue} {a : ElementValue} : Stands p t a →
    t.resolve p visible = .ok (a.shown visible)
  | .int tag h => by
    rw [resolve]
    exact constant_then h rfl
  | .long h => by
    rw [resolve]
    exact constant_then h rfl
  | .float h => by
    rw [resolve]
    exact constant_then h rfl
  | .double h => by
    rw [resolve]
    exact constant_then h rfl
  | .string h => by
    rw [resolve, utf8_eq_ok.mpr h]
    rfl
  | .enumerated ht hn => by
    rw [resolve, utf8_eq_ok.mpr ht, utf8_eq_ok.mpr hn]
    rfl
  | .classInfo h => by
    rw [resolve, utf8_eq_ok.mpr h]
    rfl
  | .nested visible ht h => by
    rw [resolve, utf8_eq_ok.mpr ht, resolveElements_of_stand h]
    rfl
  | .array h => by
    rw [resolve, resolveAll_of_stand h]
    rfl

lemma resolveElements_of_stand {es : List (UInt16 × RawValue)} {as : List (String × ElementValue)} :
    ElementsStand p es as → resolveElements p visible es =
      .ok (ElementValue.shownElements visible as)
  | .nil => by
    rw [resolveElements]
    rfl
  | .cons hn hv h => by
    rw [resolveElements, utf8_eq_ok.mpr hn, resolve_of_stands hv, resolveElements_of_stand h]
    rfl

lemma resolveAll_of_stand {vs : List RawValue} {as : List ElementValue} :
    AllStand p vs as → resolveAll p visible vs = .ok (ElementValue.shownAll visible as)
  | .nil => by
    rw [resolveAll]
    rfl
  | .cons hv h => by
    rw [resolveAll, resolve_of_stands hv, resolveAll_of_stand h]
    rfl

end

end RawValue

namespace RawAnnotation

variable {p : ConstantPool}

lemma resolve_of_stands {t : RawAnnotation} {a : Annotation} (h : t.Stands p a) (visible : Bool) :
    t.resolve p visible = .ok (a.shown visible) := by
  rw [resolve, ConstantPool.utf8_eq_ok.mpr h.type, RawValue.resolveElements_of_stand h.elements]
  rfl

lemma mapM_resolve_of_stand {trees : List RawAnnotation} {as : List Annotation}
    (h : AllStand p trees as) (visible : Bool) :
    trees.mapM (resolve p visible) = .ok (as.map (·.shown visible)) := by
  induction h with
  | nil => rfl
  | cons ha _ ih =>
    rw [List.mapM_cons, resolve_of_stands ha visible, ih]
    rfl

end RawAnnotation

/-! ### Trees for all annotations -/

namespace ElementValue

mutual

def constants : ElementValue → List Constant
  | int _ v => [.integer v]
  | long v => [.long v]
  | float v => [.float v]
  | double v => [.double v]
  | string s => [.utf8 s]
  | enumerated d name => [.utf8 d, .utf8 name]
  | classInfo d => [.utf8 d]
  | nested d _ es => .utf8 d :: constantsOfElements es
  | array vs => constantsOfAll vs

def constantsOfElements : List (String × ElementValue) → List Constant
  | [] => []
  | (name, v) :: es => .utf8 name :: (v.constants ++ constantsOfElements es)

def constantsOfAll : List ElementValue → List Constant
  | [] => []
  | v :: vs => v.constants ++ constantsOfAll vs

end

inductive Writable : ElementValue → Prop where
  | int {tag : Char} (h : tag ∈ intTags) (v : Int32) : Writable (.int tag v)
  | long (v : Int64) : Writable (.long v)
  | float (v : Binary32) : Writable (.float v)
  | double (v : Binary64) : Writable (.double v)
  | string (s : String) : Writable (.string s)
  | enumerated (d name : String) : Writable (.enumerated d name)
  | classInfo (d : String) : Writable (.classInfo d)
  | nested (d : String) (visible : Bool) {es : List (String × ElementValue)}
      (hlength : es.length < 2 ^ 16)
    (h : ∀ e ∈ es, Writable e.2) : Writable (.nested d visible es)
  | array {vs : List ElementValue} (hlength : vs.length < 2 ^ 16) (h : ∀ v ∈ vs, Writable v) :
      Writable (.array vs)

end ElementValue

namespace Annotation

def constants (a : Annotation) : List Constant :=
  .utf8 a.descriptor :: ElementValue.constantsOfElements a.elements

def Writable (a : Annotation) : Prop := CountFits (fun e => e.2.Writable) a.elements

end Annotation

namespace ConstantPool

def Supplies (p : ConstantPool) (cs : List Constant) : Prop := ∀ c ∈ cs, ∃ i, p.get i = .ok c

end ConstantPool

namespace RawValue

variable {p : ConstantPool}

/-- Trees for elements, from trees for their values. -/
lemma exists_elements {as : List (String × ElementValue)}
    (h : ∀ a ∈ as, p.Supplies a.2.constants → ∃ t : RawValue, t.Writable ∧ Stands p t a.2)
    (hp : p.Supplies (ElementValue.constantsOfElements as)) :
    ∃ es : List (UInt16 × RawValue),
      es.length = as.length ∧ (∀ e ∈ es, e.2.Writable) ∧ ElementsStand p es as := by
  induction as with
  | nil => exact ⟨[], rfl, by simp, .nil⟩
  | cons a as ih =>
    obtain ⟨ha, has⟩ := List.forall_mem_cons.mp h
    rw [ElementValue.constantsOfElements, ConstantPool.Supplies, List.forall_mem_cons] at hp
    obtain ⟨⟨n, hn⟩, hrest⟩ := hp
    obtain ⟨t, htwritable, ht⟩ := ha fun c hc => hrest c (List.mem_append_left _ hc)
    obtain ⟨es, hlength, hwritable, hes⟩ := ih has fun c hc => hrest c (List.mem_append_right _ hc)
    exact ⟨(n, t) :: es, congrArg Nat.succ hlength, List.forall_mem_cons.mpr
      ⟨htwritable, hwritable⟩, .cons hn ht hes⟩

lemma exists_all {as : List ElementValue}
    (h : ∀ a ∈ as, p.Supplies a.constants → ∃ t : RawValue, t.Writable ∧ Stands p t a)
    (hp : p.Supplies (ElementValue.constantsOfAll as)) :
    ∃ vs : List RawValue, vs.length = as.length ∧ (∀ v ∈ vs, v.Writable) ∧ AllStand p vs as := by
  induction as with
  | nil => exact ⟨[], rfl, by simp, .nil⟩
  | cons a as ih =>
    obtain ⟨ha, has⟩ := List.forall_mem_cons.mp h
    rw [ElementValue.constantsOfAll] at hp
    obtain ⟨t, htwritable, ht⟩ := ha fun c hc => hp c (List.mem_append_left _ hc)
    obtain ⟨vs, hlength, hwritable, hvs⟩ := ih has fun c hc => hp c (List.mem_append_right _ hc)
    exact ⟨t :: vs, congrArg Nat.succ hlength, List.forall_mem_cons.mpr ⟨htwritable, hwritable⟩,
      .cons ht hvs⟩

/-- A pool with the constants of a value has a tree for it. -/
lemma exists_stands {a : ElementValue} (h : a.Writable) (hp : p.Supplies a.constants) :
    ∃ t : RawValue, t.Writable ∧ Stands p t a := by
  induction h with
  | int htag v =>
    obtain ⟨i, hi⟩ := hp _ List.mem_cons_self
    exact ⟨_, .int htag i, .int _ hi⟩
  | long v =>
    obtain ⟨i, hi⟩ := hp _ List.mem_cons_self
    exact ⟨_, .long i, .long hi⟩
  | float v =>
    obtain ⟨i, hi⟩ := hp _ List.mem_cons_self
    exact ⟨_, .float i, .float hi⟩
  | double v =>
    obtain ⟨i, hi⟩ := hp _ List.mem_cons_self
    exact ⟨_, .double i, .double hi⟩
  | string s =>
    obtain ⟨i, hi⟩ := hp _ List.mem_cons_self
    exact ⟨_, .string i, .string hi⟩
  | enumerated d name =>
    obtain ⟨t, ht⟩ := hp _ List.mem_cons_self
    obtain ⟨n, hn⟩ := hp _ (List.mem_cons_of_mem _ List.mem_cons_self)
    exact ⟨_, .enumerated t n, .enumerated ht hn⟩
  | classInfo d =>
    obtain ⟨i, hi⟩ := hp _ List.mem_cons_self
    exact ⟨_, .classInfo i, .classInfo hi⟩
  | nested d visible hlength h ih =>
    rw [ElementValue.constants, ConstantPool.Supplies, List.forall_mem_cons] at hp
    obtain ⟨⟨t, ht⟩, hrest⟩ := hp
    obtain ⟨es, heq, hwritable, hes⟩ := exists_elements ih hrest
    exact ⟨_, .nested t (heq ▸ hlength) hwritable, .nested visible ht hes⟩
  | array hlength h ih =>
    rw [ElementValue.constants] at hp
    obtain ⟨vs, heq, hwritable, hvs⟩ := exists_all ih hp
    exact ⟨_, .array (heq ▸ hlength) hwritable, .array hvs⟩

end RawValue

namespace RawAnnotation

variable {p : ConstantPool}

lemma exists_stands {a : Annotation} (h : a.Writable) (hp : p.Supplies a.constants) :
    ∃ t : RawAnnotation, t.Writable ∧ t.Stands p a := by
  obtain ⟨⟨i, hi⟩, hrest⟩ := List.forall_mem_cons.mp hp
  obtain ⟨es, hlength, hwritable, hes⟩ :=
    RawValue.exists_elements (fun e he => RawValue.exists_stands (h.all e he)) hrest
  exact ⟨⟨i, es⟩, ⟨hlength ▸ h.length, hwritable⟩, hi, hes⟩

lemma exists_trees {as : List Annotation} (h : ∀ a ∈ as, a.Writable)
    (hp : ∀ a ∈ as, p.Supplies a.constants) :
    ∃ trees : List RawAnnotation, (∀ t ∈ trees, t.Writable) ∧ AllStand p trees as := by
  induction as with
  | nil => exact ⟨[], by simp, .nil⟩
  | cons a as ih =>
    obtain ⟨ha, has⟩ := List.forall_mem_cons.mp h
    obtain ⟨hpa, hpas⟩ := List.forall_mem_cons.mp hp
    obtain ⟨t, hwritable, ht⟩ := exists_stands ha hpa
    obtain ⟨trees, hall, htrees⟩ := ih has hpas
    exact ⟨t :: trees, List.forall_mem_cons.mpr ⟨hwritable, hall⟩, .cons ht htrees⟩

end RawAnnotation

end ClassScript
