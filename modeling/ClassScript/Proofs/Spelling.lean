import ClassScript.Library
import ClassScript.Proofs.Readers
import ClassScript.Script.Definition

/-!
Where class names are spelled.

Every class that a class names is spelled in a text of its constant pool, and every text takes
three bytes of its file at least. So the resources of a program spell a list of names that is
no longer than their bytes are many, and no class of theirs names another outside that list.
-/

namespace ClassScript

/-! ### Results that may fail -/

section

variable {ε ε' α β : Type}

def Gives (x : Except ε α) (R : α → Prop) : Prop := ∀ ⦃a⦄, x = .ok a → R a

namespace Gives

variable {x : Except ε α} {Q : α → Prop} {R : β → Prop}

lemma pure {b : β} (h : R b) : Gives (Pure.pure b : Except ε β) R := by
  rintro _ ⟨⟩
  exact h

lemma throw (e : ε) : Gives (throw e : Except ε β) R := by rintro _ ⟨⟩

/-- Nothing follows an error. -/
lemma throw_bind (e : ε) (k : α → Except ε β) : Gives (MonadExcept.throw e >>= k) R := by
  rintro _ ⟨⟩

lemma bind {k : α → Except ε β} (h : Gives x Q) (hk : ∀ a, Q a → Gives (k a) R) :
    Gives (x >>= k) R := by
  cases x with
  | error e => exact throw e
  | ok a => exact hk a (h rfl)

lemma map {f : α → β} (h : Gives x Q) (hf : ∀ a, Q a → R (f a)) : Gives (f <$> x) R := by
  cases x with
  | error e => exact throw e
  | ok a =>
    rintro _ ⟨⟩
    exact hf a (h rfl)

lemma mapError {f : ε → ε'} (h : Gives x Q) : Gives (x.mapError f) Q := by
  cases x with
  | error e => exact throw (f e)
  | ok a =>
    rintro _ ⟨⟩
    exact h rfl

lemma any (x : Except ε α) : Gives x fun _ => True := fun _ _ => trivial

lemma mapM_mem {k : α → Except ε β} {l : List α} (h : ∀ a ∈ l, Gives (k a) R) :
    Gives (l.mapM k) fun bs => ∀ b ∈ bs, R b := by
  induction l with
  | nil => exact pure (by simp)
  | cons a l ih =>
    obtain ⟨ha, hl⟩ := List.forall_mem_cons.mp h
    rw [List.mapM_cons]
    refine bind ha fun b hb => bind (ih hl) fun bs hbs => pure ?_
    exact List.forall_mem_cons.mpr ⟨hb, hbs⟩

lemma mapM {k : α → Except ε β} {l : List α} (h : ∀ a, Gives (k a) R) :
    Gives (l.mapM k) fun bs => ∀ b ∈ bs, R b :=
  mapM_mem fun a _ => h a

end Gives

end

/-! ### The names in a constant pool -/

def Constant.text? : Constant → Option String
  | utf8 s => some s
  | _ => none

namespace ConstantPool

def texts (p : ConstantPool) : List String := p.slots.toList.filterMap (·.bind Constant.text?)

/-- The names that the texts spell: a text as it stands, and the class of a descriptor. -/
def spelled (p : ConstantPool) : List String :=
  p.texts.flatMap fun t => t :: (objectName? t).toList

variable {p : ConstantPool}

lemma mem_spelled_of_text {t : String} (h : t ∈ p.texts) : t ∈ p.spelled :=
  List.mem_flatMap.mpr ⟨t, h, List.mem_cons_self⟩

lemma mem_spelled_of_object {t name : String} (h : t ∈ p.texts)
    (hname : objectName? t = some name) :
    name ∈ p.spelled :=
  List.mem_flatMap.mpr ⟨t, h, by simp [hname]⟩

lemma length_spelled : p.spelled.length ≤ 2 * p.texts.length := by
  rw [spelled]
  induction p.texts with
  | nil => exact Nat.le_refl _
  | cons t ts ih =>
    have hone : (objectName? t).toList.length ≤ 1 := by cases objectName? t <;> simp
    simp only [List.flatMap_cons, List.length_append, List.length_cons]
    omega

lemma get_gives (i : UInt16) : Gives (p.get i) fun c => some c ∈ p.slots.toList := by
  intro c h
  rw [get] at h
  split at h
  next => cases h
  next => cases h
  next c' hc =>
    cases h
    exact Array.mem_toList_iff.mpr (Array.mem_of_getElem? hc)

lemma utf8_gives (i : UInt16) : Gives (p.utf8 i) (· ∈ p.texts) := by
  refine .bind (get_gives i) fun c hc => ?_
  split
  · exact .pure (List.mem_filterMap.mpr ⟨_, hc, rfl⟩)
  · exact .throw _

lemma className_gives (i : UInt16) : Gives (p.className i) (· ∈ p.texts) := by
  refine .bind (get_gives i) fun c _ => ?_
  split
  · exact utf8_gives _
  · exact .throw _

lemma memberRef_gives (i : UInt16) : Gives (p.memberRef i) (·.owner ∈ p.texts) := by
  refine .bind (get_gives i) fun c _ => ?_
  split
  · exact .bind (className_gives _) fun owner howner => .bind (.any _) fun nt _ => .pure howner
  · exact .bind (className_gives _) fun owner howner => .bind (.any _) fun nt _ => .pure howner
  · exact .bind (className_gives _) fun owner howner => .bind (.any _) fun nt _ => .pure howner
  · exact .throw _

/-- A loadable class is named by a text. -/
lemma loadable_gives (i : UInt16) :
    Gives (p.loadable i) fun l => ∀ name, l = .classRef name → name ∈ p.texts := by
  refine .bind (get_gives i) fun c _ => ?_
  split
  · exact .pure (by simp)
  · exact .pure (by simp)
  · exact .pure (by simp)
  · exact .pure (by simp)
  · exact .bind (.any _) fun _ _ => .pure (by simp)
  · refine .bind (utf8_gives _) fun s hs => .pure ?_
    rintro _ ⟨⟩
    exact hs
  · exact .throw _

end ConstantPool

/-! ### The names in annotations -/

namespace RawValue

variable {p : ConstantPool} {visible : Bool}

mutual

lemma resolve_gives : (v : RawValue) →
    Gives (v.resolve p visible) fun a => ∀ name ∈ a.classes, name ∈ p.spelled
  | int tag i | long i | float i | double i | string i => by
    rw [resolve]
    exact .bind (.any _) fun _ _ => .pure (by simp [ElementValue.classes])
  | enumerated t n => by
    rw [resolve]
    refine .bind (ConstantPool.utf8_gives t) fun d hd => .bind (.any _) fun _ _ => .pure ?_
    intro name hname
    rw [ElementValue.classes, List.mem_singleton, ElementValue.enumClass] at hname
    subst hname
    cases hobject : objectName? d with
    | none => exact ConstantPool.mem_spelled_of_text hd
    | some name => exact ConstantPool.mem_spelled_of_object hd hobject
  | classInfo i => by
    rw [resolve]
    refine .bind (ConstantPool.utf8_gives i) fun d hd => .pure ?_
    intro name hname
    rw [ElementValue.classes, Option.mem_toList] at hname
    exact ConstantPool.mem_spelled_of_object hd hname
  | nested t es => by
    rw [resolve]
    refine .bind (.any _) fun d _ => .bind (resolveElements_gives es) fun es' hes => .pure ?_
    rwa [ElementValue.classes]
  | array vs => by
    rw [resolve]
    refine .bind (resolveAll_gives vs) fun vs' hvs => .pure ?_
    rwa [ElementValue.classes]

lemma resolveElements_gives : (es : List (UInt16 × RawValue)) →
    Gives (resolveElements p visible es)
      fun a => ∀ name ∈ ElementValue.classesOfElements a, name ∈ p.spelled
  | [] => by
    rw [resolveElements]
    exact .pure (by simp [ElementValue.classesOfElements])
  | (n, v) :: es => by
    rw [resolveElements]
    refine .bind (.any _) fun _ _ => .bind (resolve_gives v) fun a ha =>
      .bind (resolveElements_gives es) fun as has => .pure ?_
    rw [ElementValue.classesOfElements]
    exact fun name hname => (List.mem_append.mp hname).elim (ha name) (has name)

lemma resolveAll_gives : (vs : List RawValue) →
    Gives (resolveAll p visible vs)
      fun a => ∀ name ∈ ElementValue.classesOfAll a, name ∈ p.spelled
  | [] => by
    rw [resolveAll]
    exact .pure (by simp [ElementValue.classesOfAll])
  | v :: vs => by
    rw [resolveAll]
    refine .bind (resolve_gives v) fun a ha => .bind (resolveAll_gives vs) fun as has => .pure ?_
    rw [ElementValue.classesOfAll]
    exact fun name hname => (List.mem_append.mp hname).elim (ha name) (has name)

end

end RawValue

/-- All classes that the values of an annotation name are spelled. -/
def Annotation.Spelled (p : ConstantPool) (a : Annotation) : Prop :=
  ∀ name ∈ ElementValue.classesOfElements a.elements, name ∈ p.spelled

namespace Annotation

lemma ofAttribute_gives (p : ConstantPool) (holder : Attribute) :
    Gives (ofAttribute p holder) fun as => ∀ a ∈ as, a.Spelled p := by
  have hone (a : RawAnnotation) (visible : Bool) : Gives (a.resolve p visible) (·.Spelled p) :=
    .bind (.any _) fun _ _ => .bind (RawValue.resolveElements_gives _) fun _ hes => .pure hes
  refine .bind (.any _) fun name _ => ?_
  split
  · exact .pure (by simp)
  · exact .bind (.any _) fun raw _ => .mapM fun a => .mapError (hone a _)

lemma readAll_gives (p : ConstantPool) (attributes : List Attribute) :
    Gives (readAll p attributes) fun as => ∀ a ∈ as, a.Spelled p := by
  refine .bind (.mapM (ofAttribute_gives p)) fun as has => .pure ?_
  intro a ha
  obtain ⟨l, hl, ha⟩ := List.mem_flatten.mp ha
  exact has l hl a ha

end Annotation

/-! ### The names in a class -/

/-- All classes that the head of a class names are spelled in its constant pool. -/
structure ClassDecl.Spells (c : ClassDecl) : Prop where
  name : c.name ∈ c.pool.spelled
  superName : ∀ s, c.superName = some s → s ∈ c.pool.spelled
  interfaces : ∀ i ∈ c.interfaces, i ∈ c.pool.spelled
  annotations : ∀ n ∈ Annotation.classes c.annotations, n ∈ c.pool.spelled

namespace ClassDecl

lemma superOf_gives (p : ConstantPool) (i : UInt16) :
    Gives (superOf p i) fun o => ∀ s, o = some s → s ∈ p.texts := by
  rw [superOf]
  split
  · exact .pure (by simp)
  · refine .map (.mapError (ConstantPool.className_gives i)) fun t ht => ?_
    rintro _ ⟨⟩
    exact ht

lemma ofClassFile_gives (f : ClassFile) :
    Gives (ofClassFile f) fun c => c.pool = f.pool ∧ c.Spells := by
  rw [ofClassFile]
  split
  · refine .bind (.mapError (ConstantPool.className_gives _)) fun name hname => ?_
    refine .bind (superOf_gives _ _) fun superName hsuper => ?_
    refine .bind (.mapError (.mapM ConstantPool.className_gives)) fun interfaces hinterfaces => ?_
    refine .bind (.any _) fun fields _ => .bind (.any _) fun methods _ => ?_
    refine .bind (.mapError <| Annotation.readAll_gives _ _) fun annotations hannotations => ?_
    refine .bind (.any _) fun _ _ => .pure ⟨rfl, ?_⟩
    refine ⟨?_, fun s hs => ?_, fun i hi => ?_, fun n hn => ?_⟩
    · exact ConstantPool.mem_spelled_of_text hname
    · exact ConstantPool.mem_spelled_of_text (hsuper s hs)
    · exact ConstantPool.mem_spelled_of_text (hinterfaces i hi)
    · obtain ⟨a, ha, hn⟩ := List.mem_flatMap.mp hn
      exact hannotations a (List.mem_filter.mp ha).1 n hn
  · exact .throw _

end ClassDecl

/-! ### The bytes of a class file -/

section

open Reader (Spends Takes)

/-- A text has a tag and a length of two bytes. -/
def Constant.cost (c : Constant) : Nat := if c.text?.isSome then 3 else 0

lemma Constant.read_spends : Spends cost read := by
  have htext : Takes 2 readText := by
    refine .bind .offset fun start => .bind .u16 fun n => .bind (.take n.toNat) fun bytes => ?_
    split
    · exact .pure (Nat.zero_sub _)
    · exact .fail _
  -- one case for each tag, in the order of the reader
  refine .bind .offset fun start => .bind .u8 fun tag => ?_
  split
  · exact .bind htext fun _ => .pure rfl
  · exact .bind .i32 fun _ => .pure rfl
  · exact .bind .u32 fun _ => .pure rfl
  · exact .bind .i64 fun _ => .pure rfl
  · exact .bind .u64 fun _ => .pure rfl
  · exact .bind .u16 fun _ => .pure rfl
  · exact .bind .u16 fun _ => .pure rfl
  · exact .bind .u16 fun _ => .bind .u16 fun _ => .pure rfl
  · exact .bind .u16 fun _ => .bind .u16 fun _ => .pure rfl
  · exact .bind .u16 fun _ => .bind .u16 fun _ => .pure rfl
  · exact .bind .u16 fun _ => .bind .u16 fun _ => .pure rfl
  · exact .bind .u8 fun _ => .bind .u16 fun _ => .pure rfl
  · exact .bind .u16 fun _ => .pure rfl
  · exact .bind .u16 fun _ => .bind .u16 fun _ => .pure rfl
  · exact .bind .u16 fun _ => .bind .u16 fun _ => .pure rfl
  · exact .bind .u16 fun _ => .pure rfl
  · exact .bind .u16 fun _ => .pure rfl
  · exact .fail _

lemma Constant.readSlots_spends (n : Nat) :
    Spends (fun cs => 3 * (cs.filterMap text?).length) (readSlots n) := by
  have hone (c : Constant) (cs : List Constant) :
      3 * ((c :: cs).filterMap text?).length = c.cost + 3 * (cs.filterMap text?).length := by
    rw [List.filterMap_cons, cost]
    cases c.text? with
    | none => simp
    | some t =>
      simp only [List.length_cons, Option.isSome_some, if_true]
      omega
  induction n using readSlots.induct with
  | case1 => exact .pure rfl
  | case2 =>
    refine .bind read_spends fun c => .ite (.bind .offset fun _ => .fail _) (.pure ?_)
    rw [hone, Nat.add_sub_cancel_left]
    rfl
  | case3 n ih ih' =>
    have hrest (m : Nat) (h : Spends (fun cs => 3 * (cs.filterMap text?).length) (readSlots m))
        (c : Constant) :
        Spends (fun cs => 3 * (cs.filterMap text?).length - c.cost) (return c :: (← readSlots m)) :=
      .bind h fun cs => .pure (by rw [hone]; omega)
    exact .bind read_spends fun c => .ite (hrest n ih c) (hrest (n + 1) ih' c)

namespace ConstantPool

lemma texts_ofEntries (cs : List Constant) :
    (ofEntries cs).texts = cs.filterMap Constant.text? := by
  have hslots (c : Constant) :
      (slotsOf c).filterMap (·.bind Constant.text?) = (Constant.text? c).toList := by
    cases c <;> rfl
  simp only [texts, ofEntries, List.filterMap_cons, Option.bind_none]
  induction cs with
  | nil => rfl
  | cons c cs ih =>
    rw [List.flatMap_cons, List.filterMap_append, hslots, ih, List.filterMap_cons]
    cases c.text? <;> rfl

lemma read_spends : Spends (fun p => 3 * p.texts.length) read := by
  refine .bind .u16 fun count => ?_
  split
  · exact .bind .offset fun _ => .fail _
  · refine .bind (Constant.readSlots_spends _) fun cs => .pure ?_
    rw [texts_ofEntries]
    omega

end ConstantPool

lemma Attribute.read_takes : Takes 0 read :=
  .seq .u16 fun _ => .seq .u32 fun n => .seq (.take n.toNat) fun _ => .pure rfl

lemma Member.read_takes : Takes 0 read :=
  .seq .u16 fun _ => .seq .u16 fun _ => .seq .u16 fun _ =>
    .seq (.counted Attribute.read_takes) fun _ =>
    .pure rfl

lemma ClassFile.read_spends : Spends (fun f => 3 * f.pool.texts.length) read := by
  refine .bind .offset fun start => .bind (.nat 4) fun n => ?_
  refine .ite (.fail_bind _ _) ?_
  refine .bind .u16 fun minor => .bind .u16 fun major =>
    .bind ConstantPool.read_spends fun pool => ?_
  refine .bind .u16 fun access => .bind .u16 fun thisClass => .bind .u16 fun superClass => ?_
  have hindices : Takes 0 (Reader.counted Reader.u16 : Reader Malformed (List UInt16)) :=
    .counted (Spends.u16.mono fun _ => Nat.zero_le _)
  refine .bind hindices fun interfaces => .bind (.counted Member.read_takes) fun fields => ?_
  refine .bind (.counted Member.read_takes) fun methods => ?_
  refine .bind (.counted Attribute.read_takes) fun attributes => .pure ?_
  dsimp only
  omega

/-- A class file has three bytes for every two names that it spells. -/
lemma ClassFile.length_spelled {bs : Bytes} {f : ClassFile} (h : read.parse bs = .ok f) :
    3 * f.pool.spelled.length ≤ 2 * bs.length := by
  rw [Reader.parse] at h
  cases hrun : read.run (.start bs) with
  | error e =>
    rw [hrun] at h
    cases h
  | ok x =>
    rw [hrun] at h
    cases h
    have hcost : 3 * x.1.pool.texts.length + x.2.rest.length ≤ bs.length := (read_spends hrun).2.1
    have htwo := x.1.pool.length_spelled
    omega

end

/-! ### The resources -/

namespace Source

def contents : Source → List Bytes
  | stored entries => entries.map Prod.snd
  | directory tree => tree.files.map Prod.snd
  | refusing _ => []

lemma size_eq (s : Source) : s.size = Bytes.total s.contents := by cases s <;> rfl

lemma follow_gives (d : Directory) (path : List (List Char)) (here : List (List Char)) :
    Gives (d.follow here path) fun o => ∀ data, o = some data → data ∈ d.files.map Prod.snd := by
  induction path generalizing here with
  | nil =>
    rw [Directory.follow]
    split
    next data hnode =>
      rintro _ ⟨⟩ _ ⟨⟩
      rw [Directory.node] at hnode
      split at hnode
      next file hfile =>
        cases hnode
        exact List.mem_map_of_mem (List.mem_of_find?_eq_some hfile)
      next => split at hnode <;> cases hnode
    next => rintro _ ⟨⟩
    next => exact .pure (by simp)
  | cons part rest ih =>
    rw [Directory.follow]
    split
    next => rintro _ ⟨⟩
    next => exact .pure (by simp)
    next =>
      split
      · exact ih here
      · split
        · exact ih _
        · rintro _ ⟨⟩

lemma get_gives (s : Source) (name : String) :
    Gives (s.get name) fun o => ∀ data, o = some data → data ∈ s.contents := by
  cases s with
  | stored entries =>
    refine .pure fun data hdata => ?_
    obtain ⟨l, r, heq, -⟩ := List.lookup_eq_some_iff.mp hdata
    have hmem : (_, data) ∈ entries.reverse := heq ▸ List.mem_append_right l List.mem_cons_self
    exact List.mem_map_of_mem (List.mem_reverse.mp hmem)
  | directory tree =>
    rw [get, Directory.get]
    split
    · exact .pure (by simp)
    · split
      · rintro _ ⟨⟩
      · split
        · exact follow_gives tree _ _
        · rintro _ ⟨⟩
  | refusing names =>
    rw [get]
    split
    · rintro _ ⟨⟩
    · exact .pure (by simp)

end Source

namespace Bytes

lemma total_append (l l' : List Bytes) : total (l ++ l') = total l + total l' := by
  induction l with
  | nil => exact (Nat.zero_add _).symm
  | cons bs l ih => rw [List.cons_append, total, total, ih, Nat.add_assoc]

/-- The names that the bytes spell, read as a class file. -/
def spelled (bs : Bytes) : List String :=
  match ClassFile.read.parse bs with
  | .ok f => f.pool.spelled
  | .error _ => []

lemma length_spelled (bs : Bytes) : 3 * bs.spelled.length ≤ 2 * bs.length := by
  rw [spelled]
  split
  next f hf => exact ClassFile.length_spelled hf
  next => exact Nat.zero_le _

end Bytes

namespace Resources

def contents (r : Resources) : List Bytes := r.sources.flatMap Source.contents

def spelled (r : Resources) : List String := r.contents.flatMap Bytes.spelled

lemma size_eq (r : Resources) : r.size = Bytes.total r.contents := by
  obtain ⟨sources⟩ := r
  rw [size, contents]
  induction sources with
  | nil => rfl
  | cons s ss ih => rw [List.foldr_cons, List.flatMap_cons, Bytes.total_append, ih, s.size_eq]

lemma three_mul_length_spelled (r : Resources) : 3 * r.spelled.length ≤ 2 * r.size := by
  rw [size_eq, spelled]
  induction r.contents with
  | nil => exact Nat.le_refl _
  | cons bs l ih =>
    have hbs := bs.length_spelled
    rw [List.flatMap_cons, List.length_append, Bytes.total]
    omega

/-- **The resources spell no more names than they have bytes.** -/
lemma length_spelled (r : Resources) : r.spelled.length ≤ r.size := by
  have h := r.three_mul_length_spelled
  omega

lemma length_spelled_lt {r : Resources} {name : String} (h : name ∈ r.spelled) :
    r.spelled.length < r.size := by
  have hpos := List.length_pos_of_mem h
  have hle := r.three_mul_length_spelled
  omega

lemma get_gives (r : Resources) (name : String) :
    Gives (r.get name) fun o => ∀ data, o = some data → data ∈ r.contents := by
  obtain ⟨sources⟩ := r
  rw [get, contents]
  induction sources with
  | nil => exact .pure (by simp)
  | cons s ss ih =>
    refine .bind (s.get_gives name) fun o ho => ?_
    rw [List.flatMap_cons]
    cases o with
    | some data =>
      refine .pure ?_
      rintro _ ⟨⟩
      exact List.mem_append_left _ (ho data rfl)
    | none => exact fun o' h data hdata => List.mem_append_right _ (ih h data hdata)

end Resources

/-- A class of the library is stored as a file of the resources. -/
lemma Library.loadFrom_gives (r : Resources) (name : String) :
    Gives (loadFrom r name) fun o => ∀ c, o = some c → ∃ data ∈ r.contents,
      ClassDecl.parse data = .ok c := by
  rw [loadFrom]
  split
  · exact .pure (by simp)
  · dsimp only
    split
    next => rintro _ ⟨⟩
    next => exact .pure (by simp)
    next data hdata =>
      split
      next c hparse =>
        rintro _ ⟨⟩ _ ⟨⟩
        exact ⟨data, r.get_gives _ hdata data rfl, hparse⟩
      next => rintro _ ⟨⟩

/-- **A class of the library names only what the resources spell.** -/
lemma Library.spells_of_loadFrom {r : Resources} {name : String} {c : ClassDecl}
    (h : loadFrom r name = .ok (some c)) : c.Spells ∧ c.pool.spelled ⊆ r.spelled := by
  obtain ⟨data, hmem, hparse⟩ := loadFrom_gives r name h c rfl
  rw [ClassDecl.parse] at hparse
  cases hfile : ClassFile.read.parse data with
  | error e =>
    rw [hfile] at hparse
    cases hparse
  | ok f =>
    rw [hfile] at hparse
    obtain ⟨hpool, hspells⟩ := ClassDecl.ofClassFile_gives f hparse
    refine ⟨hspells, fun n hn => List.mem_flatMap.mpr ⟨data, hmem, ?_⟩⟩
    rw [hpool] at hn
    rwa [Bytes.spelled, hfile]

end ClassScript
