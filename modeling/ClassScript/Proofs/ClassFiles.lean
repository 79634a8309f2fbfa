import ClassScript.ClassFile.Decl
import ClassScript.Proofs.ModifiedText
import ClassScript.Proofs.PoolAddressing
import Mathlib.Tactic.MkIffOfInductiveProp
import Mathlib.Tactic.SplitIfs

/-!
Class files are read back.

The layout of a class file is written out here part by part: numbers have their most
significant byte first, a list stands behind its number, a text behind its length, and an entry
of the constant pool behind its tag. Where all numbers fit their fields, reading a file gives
what was written and takes its bytes and no more.
-/

namespace ClassScript

open Reader (Reads)

/-! ### Layout -/

def Attribute.write (a : Attribute) : Bytes := .u16 a.name ++ (.ofNat 4 a.info.length ++ a.info)

def Handler.write (h : Handler) : Bytes :=
  .u16 h.start ++ (.u16 h.stop ++ (.u16 h.target ++ .u16 h.catchType))

def Code.write (c : Code) : Bytes :=
  .u16 c.maxStack ++ (.u16 c.maxLocals ++ (.ofNat 4 c.bytes.length ++ (c.bytes ++
    (.counted Handler.write c.handlers ++ .counted Attribute.write c.attributes))))

def Member.write (m : Member) : Bytes :=
  .u16 m.access ++ (.u16 m.name ++ (.u16 m.descriptor ++ .counted Attribute.write m.attributes))

def Constant.write : Constant → Bytes
  | utf8 s => 1 :: (Bytes.ofNat 2 (ModifiedUtf8.encode s).length ++ ModifiedUtf8.encode s)
  | integer v => 3 :: Bytes.u32 v.toUInt32
  | float v => 4 :: Bytes.u32 v.bits
  | long v => 5 :: Bytes.u64 v.toUInt64
  | double v => 6 :: Bytes.u64 v.bits
  | classRef n => 7 :: Bytes.u16 n
  | string n => 8 :: Bytes.u16 n
  | fieldRef o n => 9 :: (Bytes.u16 o ++ Bytes.u16 n)
  | methodRef o n => 10 :: (Bytes.u16 o ++ Bytes.u16 n)
  | interfaceMethodRef o n => 11 :: (Bytes.u16 o ++ Bytes.u16 n)
  | nameAndType n d => 12 :: (Bytes.u16 n ++ Bytes.u16 d)
  | methodHandle k n => 15 :: k :: Bytes.u16 n
  | methodType d => 16 :: Bytes.u16 d
  | dynamic b n => 17 :: (Bytes.u16 b ++ Bytes.u16 n)
  | invokeDynamic b n => 18 :: (Bytes.u16 b ++ Bytes.u16 n)
  | moduleRef n => 19 :: Bytes.u16 n
  | packageRef n => 20 :: Bytes.u16 n

/-- What a class file says, its constants in their order. -/
structure ClassContents where
  minor : UInt16
  major : UInt16
  constants : List Constant
  access : UInt16
  thisClass : UInt16
  superClass : UInt16
  interfaces : List UInt16
  fields : List Member
  methods : List Member
  attributes : List Attribute

namespace ClassContents

def toClassFile (c : ClassContents) : ClassFile where
  minor := c.minor
  major := c.major
  pool := .ofEntries c.constants
  access := c.access
  thisClass := c.thisClass
  superClass := c.superClass
  interfaces := c.interfaces
  fields := c.fields
  methods := c.methods
  attributes := c.attributes

def write (c : ClassContents) : Bytes :=
  Bytes.ofNat 4 0xcafebabe ++ (.u16 c.minor ++ (.u16 c.major ++
    ((.ofNat 2 (Constant.extent c.constants + 1) ++ c.constants.flatMap Constant.write) ++
    (.u16 c.access ++ (.u16 c.thisClass ++ (.u16 c.superClass ++
    (.counted Bytes.u16 c.interfaces ++ (.counted Member.write c.fields ++
    (.counted Member.write c.methods ++ .counted Attribute.write c.attributes)))))))))

end ClassContents

/-! ### What fits its fields -/

/-- A list whose number fits two bytes, of items that fit. -/
@[mk_iff]
structure CountFits {α : Type} (fits : α → Prop) (xs : List α) : Prop where
  length : xs.length < 2 ^ 16
  all : ∀ x ∈ xs, fits x

instance {α : Type} {fits : α → Prop} [DecidablePred fits] : DecidablePred (CountFits fits) :=
  fun xs => decidable_of_iff' _ (countFits_iff fits xs)

def Attribute.Fits (a : Attribute) : Prop := a.info.length < 2 ^ 32

instance : DecidablePred Attribute.Fits :=
  fun a => inferInstanceAs (Decidable (a.info.length < 2 ^ 32))

@[mk_iff]
structure Code.Fits (c : Code) : Prop where
  bytes : c.bytes.length < 2 ^ 32
  handlers : c.handlers.length < 2 ^ 16
  attributes : CountFits Attribute.Fits c.attributes

instance : DecidablePred Code.Fits := fun c => decidable_of_iff' _ (Code.fits_iff c)

def Member.Fits (m : Member) : Prop := CountFits Attribute.Fits m.attributes

instance : DecidablePred Member.Fits :=
  fun m => inferInstanceAs (Decidable (CountFits Attribute.Fits m.attributes))

def Constant.textLength : Constant → Nat
  | utf8 s => (ModifiedUtf8.encode s).length
  | _ => 0

@[mk_iff]
structure ClassContents.Fits (c : ClassContents) : Prop where
  slots : Constant.extent c.constants + 1 < 2 ^ 16
  texts : ∀ x ∈ c.constants, x.textLength < 2 ^ 16
  interfaces : c.interfaces.length < 2 ^ 16
  fields : CountFits Member.Fits c.fields
  methods : CountFits Member.Fits c.methods
  attributes : CountFits Attribute.Fits c.attributes

instance : DecidablePred ClassContents.Fits :=
  fun c => decidable_of_iff' _ (ClassContents.fits_iff c)

/-! ### Reading back -/

variable {o : Nat}

lemma Attribute.reads_write {a : Attribute} (h : a.Fits) : Reads o a.write read a := by
  refine .bind (.u16 a.name) (.ofNat32 h fun n hn => ?_)
  rw [hn]
  exact (Reads.take a.info).map (Attribute.mk a.name)

/-- Attributes behind their number. -/
lemma Attribute.reads_counted {as : List Attribute} (h : CountFits Fits as) :
    Reads o (.counted write as) (Reader.counted read) as :=
  .counted h.length fun a ha _ => reads_write (h.all a ha)

lemma Handler.reads_write (h : Handler) : Reads o h.write read h :=
  .bind (.u16 h.start) (.bind (.u16 h.stop) (.bind (.u16 h.target) ((Reads.u16 h.catchType).map _)))

lemma Code.reads_write {c : Code} (h : c.Fits) : Reads o c.write read c := by
  refine .bind (.u16 c.maxStack) (.bind (.u16 c.maxLocals) (.ofNat32 h.bytes fun n hn => ?_))
  rw [hn]
  refine .bind (.take c.bytes) (.bind (.counted h.handlers fun x _ _ => Handler.reads_write x) ?_)
  exact (Attribute.reads_counted h.attributes).map _

lemma Member.reads_write {m : Member} (h : m.Fits) : Reads o m.write read m :=
  .bind (.u16 m.access) (.bind (.u16 m.name) (.bind (.u16 m.descriptor)
    ((Attribute.reads_counted h).map _)))

/-- Fields or methods behind their number. -/
lemma Member.reads_counted {ms : List Member} (h : CountFits Fits ms) :
    Reads o (.counted write ms) (Reader.counted read) ms :=
  .counted h.length fun m hm _ => reads_write (h.all m hm)

namespace Constant

lemma reads_text {s : String} (h : (ModifiedUtf8.encode s).length < 2 ^ 16) :
    Reads o (.ofNat 2 (ModifiedUtf8.encode s).length ++ ModifiedUtf8.encode s) readText s := by
  refine .bind_nil .offset (.ofNat16 h fun n hn => ?_)
  rw [hn]
  refine .bind_last (.take _) ?_
  simp only [ModifiedUtf8.decode_encode]
  exact .pure s

lemma reads_write {c : Constant} (h : c.textLength < 2 ^ 16) : Reads o c.write read c := by
  cases c with
  | utf8 s => exact .tagged 1 ((reads_text h).map utf8)
  | integer v => exact .tagged 3 ((Reads.i32 v).map integer)
  | float v => exact .tagged 4 ((Reads.u32 v.bits).map fun w => float ⟨w⟩)
  | long v => exact .tagged 5 ((Reads.i64 v).map long)
  | double v => exact .tagged 6 ((Reads.u64 v.bits).map fun w => double ⟨w⟩)
  | classRef n => exact .tagged 7 ((Reads.u16 n).map classRef)
  | string n => exact .tagged 8 ((Reads.u16 n).map string)
  | fieldRef a n => exact .tagged 9 (.bind (.u16 a) ((Reads.u16 n).map (fieldRef a)))
  | methodRef a n => exact .tagged 10 (.bind (.u16 a) ((Reads.u16 n).map (methodRef a)))
  | interfaceMethodRef a n =>
    exact .tagged 11 (.bind (.u16 a) ((Reads.u16 n).map (interfaceMethodRef a)))
  | nameAndType n d => exact .tagged 12 (.bind (.u16 n) ((Reads.u16 d).map (nameAndType n)))
  | methodHandle k n => exact .tagged 15 (.bind (.u8 k) ((Reads.u16 n).map (methodHandle k)))
  | methodType d => exact .tagged 16 ((Reads.u16 d).map methodType)
  | dynamic b n => exact .tagged 17 (.bind (.u16 b) ((Reads.u16 n).map (dynamic b)))
  | invokeDynamic b n => exact .tagged 18 (.bind (.u16 b) ((Reads.u16 n).map (invokeDynamic b)))
  | moduleRef n => exact .tagged 19 ((Reads.u16 n).map moduleRef)
  | packageRef n => exact .tagged 20 ((Reads.u16 n).map packageRef)

/-- Entries that fill the slots are read one by one, a wide one for two slots. -/
lemma reads_slots {cs : List Constant} (h : ∀ c ∈ cs, c.textLength < 2 ^ 16) :
    Reads o (cs.flatMap write) (readSlots (extent cs)) cs := by
  induction cs generalizing o with
  | nil => exact .pure []
  | cons c cs ih =>
    have hc : Reads o c.write read c := reads_write (h c List.mem_cons_self)
    have hcs (o : Nat) : Reads o (cs.flatMap write) (readSlots (extent cs)) cs :=
      ih fun x hx => h x (List.mem_cons_of_mem _ hx)
    have hpos := c.width_pos
    obtain ⟨n, hn⟩ : ∃ n, c.width + extent cs = n + 1 := ⟨c.width - 1 + extent cs, by omega⟩
    have hleft : n + 1 - c.width = extent cs := by omega
    rw [extent_cons, hn, readSlots_succ, List.flatMap_cons]
    refine .bind hc (.ite_neg (by omega) ?_)
    rw [hleft]
    exact (hcs _).map (c :: ·)

end Constant

lemma ConstantPool.reads_write {cs : List Constant} (hslots : Constant.extent cs + 1 < 2 ^ 16)
    (h : ∀ c ∈ cs, c.textLength < 2 ^ 16) :
    Reads o (.ofNat 2 (Constant.extent cs + 1) ++ cs.flatMap Constant.write) read
      (.ofEntries cs) := by
  refine .ofNat16 hslots fun n hn => ?_
  rw [hn]
  exact (Constant.reads_slots h).map ofEntries

lemma ClassContents.reads_write (c : ClassContents) (h : c.Fits) :
    Reads o c.write ClassFile.read c.toClassFile := by
  refine .bind_nil .offset (.bind (.nat 4 (by decide)) (.ite_neg (not_not.2 rfl) ?_))
  refine .bind (.u16 c.minor) (.bind (.u16 c.major) ?_)
  refine .bind (ConstantPool.reads_write h.slots h.texts) ?_
  refine .bind (.u16 c.access) (.bind (.u16 c.thisClass) (.bind (.u16 c.superClass) ?_))
  refine .bind (.counted h.interfaces fun i _ _ => .u16 i) ?_
  refine .bind (Member.reads_counted h.fields) (.bind (Member.reads_counted h.methods) ?_)
  exact (Attribute.reads_counted h.attributes).map _

/-- Class files and the code of methods are read back as they were written, and what follows them
is left. -/
theorem layout_read_back :
    (∀ c : ClassContents, c.Fits → ∀ start rest,
      ClassFile.read ⟨start, c.write ++ rest⟩ =
        .ok (c.toClassFile, ⟨start + c.write.length, rest⟩)) ∧
    (∀ c : Code, c.Fits →
      (∀ start rest, Code.read ⟨start, c.write ++ rest⟩ = .ok (c, ⟨start + c.write.length, rest⟩)) ∧
      ∀ index name, Attribute.decode ⟨index, c.write⟩ name Code.read = .ok c) := by
  refine ⟨fun c h _ => c.reads_write h, fun c h =>
    ⟨fun _ => Code.reads_write h, fun index name => ?_⟩⟩
  rw [Attribute.decode, (Code.reads_write h).parse]
  rfl

def guardedCode : Code where
  maxStack := 2
  maxLocals := 1
  bytes := [0x2a, 0xb6, 0x00, 0x05, 0xb0, 0xbf]
  handlers := [⟨0, 4, 5, 0⟩, ⟨0, 6, 5, 7⟩]
  attributes := [⟨9, [0x00, 0x00]⟩]

/-- A class with a constant of each kind: two of the wide ones, numbers that are not, and texts with
a zero character and with one outside the basic plane. -/
def motley : ClassContents where
  minor := 3
  major := 52
  constants := [.utf8 "a\x00é😀", .long (-2), .integer (-1), .float ⟨0x7fc00001⟩,
    .double ⟨0x7ff8000000000001⟩, .classRef 1, .string 1, .fieldRef 7 11, .methodRef 7 11,
    .interfaceMethodRef 7 11, .nameAndType 1 1, .methodHandle 6 10, .methodType 1, .dynamic 0 12,
    .invokeDynamic 0 12, .moduleRef 1, .packageRef 1, .utf8 ""]
  access := 0xffff
  thisClass := 7
  superClass := 0
  interfaces := [7, 7]
  fields := [⟨0x19, 1, 1, []⟩, ⟨2, 1, 1, [⟨1, [0xff]⟩]⟩]
  methods := [⟨9, 1, 1, [⟨1, guardedCode.write⟩, ⟨1, []⟩]⟩]
  attributes := [⟨1, [1, 2, 3]⟩]

theorem layout_read_back_motley :
    motley.Fits ∧ guardedCode.Fits ∧
    ClassFile.read ⟨7, motley.write ++ [0xca]⟩ =
      .ok (motley.toClassFile, ⟨7 + motley.write.length, [0xca]⟩) ∧
    Code.read ⟨2, guardedCode.write ++ [0]⟩ =
      .ok (guardedCode, ⟨2 + guardedCode.write.length, [0]⟩) ∧
    Attribute.decode ⟨1, guardedCode.write⟩ "Code" Code.read = .ok guardedCode :=
  have hmotley : motley.Fits := by decide
  have hguarded : guardedCode.Fits := by decide
  have hclass := layout_read_back.1 motley hmotley
  have hcode := layout_read_back.2 guardedCode hguarded
  ⟨hmotley, hguarded, hclass 7 [0xca], hcode.1 2 [0], hcode.2 1 "Code"⟩

end ClassScript
