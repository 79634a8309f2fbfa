import ClassScript.Proofs.Spelling

/-!
The tags of annotation values.

Five kinds of value are kept as integers with their tag, and the tag is shown as it is. A class
file can hold no other: a value with an unknown tag is not read.
-/

namespace ClassScript

namespace Reader

variable {ε α β : Type}

def Yields (r : Reader ε α) (P : α → Prop) : Prop := ∀ i, Gives (r i) fun x => P x.1

namespace Yields

variable {r : Reader ε α} {P : α → Prop} {Q : β → Prop}

lemma pure {a : α} (h : P a) : Yields (pure a : Reader ε α) P := fun _ => .pure h

lemma bind {k : α → Reader ε β} (h : Yields r P) (hk : ∀ a, P a → Yields (k a) Q) :
    Yields (r >>= k) Q :=
  fun i => Gives.bind (h i) fun x hx => hk x.1 hx x.2

lemma any (r : Reader ε α) : Yields r fun _ => True := fun _ => .any _

lemma many (h : Yields r P) (n : Nat) : Yields (many n r) fun l => ∀ a ∈ l, P a := by
  induction n with
  | zero => exact pure (by simp)
  | succ n ih =>
    exact bind h fun a ha => bind ih fun l hl => pure (List.forall_mem_cons.mpr ⟨ha, hl⟩)

lemma counted (h : Yields r P) : Yields (counted r) fun l => ∀ a ∈ l, P a :=
  bind (any u16) fun n _ => many h n.toNat

lemma parse (h : Yields r P) (bs : Bytes) : Gives (r.parse bs) P := .map (h _) fun _ hx => hx

end Yields

end Reader

def ElementValue.intTags : List Char := ['B', 'C', 'I', 'S', 'Z']

/-- The integers in a value have one of their tags. -/
inductive ElementValue.Tagged : ElementValue → Prop
  | int {tag : Char} (h : tag ∈ intTags) (v : Int32) : Tagged (.int tag v)
  | long (v : Int64) : Tagged (.long v)
  | float (v : Binary32) : Tagged (.float v)
  | double (v : Binary64) : Tagged (.double v)
  | string (s : String) : Tagged (.string s)
  | enumerated (d name : String) : Tagged (.enumerated d name)
  | classInfo (d : String) : Tagged (.classInfo d)
  | nested (d : String) (visible : Bool) {es : List (String × ElementValue)}
      (h : ∀ e ∈ es, Tagged e.2) :
    Tagged (.nested d visible es)
  | array {vs : List ElementValue} (h : ∀ v ∈ vs, Tagged v) : Tagged (.array vs)

def Annotation.Tagged (a : Annotation) : Prop := ∀ e ∈ a.elements, e.2.Tagged

namespace RawValue

open Reader (Yields)

/-- Wherever its indices lead, the value has its tags. -/
def Leads (v : RawValue) : Prop := ∀ p visible, Gives (v.resolve p visible) ElementValue.Tagged

lemma resolveElements_tagged {es : List (UInt16 × RawValue)} (h : ∀ e ∈ es, e.2.Leads)
    (p : ConstantPool) (visible : Bool) :
    Gives (resolveElements p visible es) fun as => ∀ a ∈ as, a.2.Tagged := by
  induction es with
  | nil =>
    rw [resolveElements]
    exact .pure (by simp)
  | cons e es ih =>
    obtain ⟨he, hes⟩ := List.forall_mem_cons.mp h
    rw [resolveElements]
    refine .bind (.any _) fun _ _ => .bind (he p visible) fun a ha =>
      .bind (ih hes) fun as has => .pure ?_
    exact List.forall_mem_cons.mpr ⟨ha, has⟩

lemma resolveAll_tagged {vs : List RawValue} (h : ∀ v ∈ vs, v.Leads) (p : ConstantPool)
    (visible : Bool) :
    Gives (resolveAll p visible vs) fun as => ∀ a ∈ as, a.Tagged := by
  induction vs with
  | nil =>
    rw [resolveAll]
    exact .pure (by simp)
  | cons v vs ih =>
    obtain ⟨hv, hvs⟩ := List.forall_mem_cons.mp h
    rw [resolveAll]
    refine .bind (hv p visible) fun a ha => .bind (ih hvs) fun as has => .pure ?_
    exact List.forall_mem_cons.mpr ⟨ha, has⟩

/-- Values are read by their tags, and nested ones in the same way. -/
lemma readWithin_yields (depth : Nat) : Yields (readWithin depth) Leads := by
  induction depth with
  | zero =>
    intro i
    exact .throw _
  | succ depth ih =>
    have hindex {f : UInt16 → RawValue} (hf : ∀ i, (f i).Leads) :
        Yields (Reader.u16 >>= fun i => pure (f i) : Reader Malformed RawValue) Leads :=
      .bind (.any _) fun i _ => .pure (hf i)
    have helement :
        Yields (Reader.u16 >>= fun name => readWithin depth >>= fun v => pure (name, v) :
        Reader Malformed (UInt16 × RawValue)) fun e => e.2.Leads :=
      .bind (.any _) fun _ _ => .bind ih fun _ hv => .pure hv
    refine .bind (.any _) fun start _ => .bind (.any _) fun tag _ => ?_
    split
    -- five tags share the integers, and each is kept with its value
    iterate 5
      refine hindex fun i p visible => ?_
      rw [resolve]
      exact .bind (.any _) fun v _ => .pure (.int (by decide) v)
    · refine hindex fun i p visible => ?_
      rw [resolve]
      exact .bind (.any _) fun v _ => .pure (.long v)
    · refine hindex fun i p visible => ?_
      rw [resolve]
      exact .bind (.any _) fun v _ => .pure (.float v)
    · refine hindex fun i p visible => ?_
      rw [resolve]
      exact .bind (.any _) fun v _ => .pure (.double v)
    · refine hindex fun i p visible => ?_
      rw [resolve]
      exact .bind (.any _) fun s _ => .pure (.string s)
    · refine .bind (.any _) fun t _ => .bind (.any _) fun n _ => .pure fun p visible => ?_
      rw [resolve]
      exact .bind (.any _) fun d _ => .bind (.any _) fun name _ => .pure (.enumerated d name)
    · refine hindex fun i p visible => ?_
      rw [resolve]
      exact .bind (.any _) fun d _ => .pure (.classInfo d)
    · refine .bind (.any _) fun t _ => .bind (.counted helement) fun es hes =>
        .pure fun p visible => ?_
      rw [resolve]
      exact .bind (.any _) fun d _ => .bind (resolveElements_tagged hes p visible) fun _ has =>
        .pure (.nested d visible has)
    · refine .bind (.counted ih) fun vs hvs => .pure fun p visible => ?_
      rw [resolve]
      exact .bind (resolveAll_tagged hvs p visible) fun _ has => .pure (.array has)
    · intro i
      exact .throw _

end RawValue

lemma RawAnnotation.read_yields : Reader.Yields read fun a => ∀ e ∈ a.elements, e.2.Leads := by
  have hvalue : Reader.Yields RawValue.read RawValue.Leads :=
    .bind (.any _) fun input _ => RawValue.readWithin_yields input.rest.length
  refine .bind (.any _) fun type _ => .bind (.counted (P := fun e => e.2.Leads) ?_) fun es hes =>
    .pure hes
  exact .bind (.any _) fun name _ => .bind hvalue fun v hv => .pure hv

namespace Annotation

lemma ofAttribute_tagged (p : ConstantPool) (holder : Attribute) :
    Gives (ofAttribute p holder) fun as => ∀ a ∈ as, a.Tagged := by
  refine .bind (.any _) fun name _ => ?_
  split
  next => exact .pure (by simp)
  next visible _ =>
    have hread := RawAnnotation.read_yields.counted.parse holder.info
    refine .bind hread.mapError fun raw hraw => ?_
    refine .mapM_mem fun a ha => .mapError ?_
    refine .bind (.any _) fun _ _ => .bind ?_ fun _ hes => .pure hes
    exact RawValue.resolveElements_tagged (hraw a ha) p visible

lemma readAll_tagged (p : ConstantPool) (attributes : List Attribute) :
    Gives (readAll p attributes) fun as => ∀ a ∈ as, a.Tagged := by
  refine .bind (.mapM (ofAttribute_tagged p)) fun as has => .pure ?_
  intro a ha
  obtain ⟨l, hl, ha⟩ := List.mem_flatten.mp ha
  exact has l hl a ha

end Annotation

/-- The annotations of a class that was read have their tags. -/
lemma ClassDecl.parse_tagged (bytes : Bytes) :
    Gives (parse bytes) fun c => ∀ a ∈ c.annotations, a.Tagged := by
  refine .bind (.any _) fun f _ => ?_
  rw [ofClassFile]
  split
  · refine .bind (.any _) fun _ _ => .bind (.any _) fun _ _ => .bind (.any _) fun _ _ => ?_
    refine .bind (.any _) fun _ _ => .bind (.any _) fun _ _ => ?_
    refine .bind (.mapError <| Annotation.readAll_tagged _ _) fun annotations hannotations => ?_
    exact .bind (.any _) fun _ _ => .pure hannotations
  · exact .throw _

end ClassScript
