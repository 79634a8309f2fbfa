import ClassScript.ClassFile.Decl
import ClassScript.Proofs.ClassFiles

/-!
Class files that are cut off, and bytes after their end.

A reader is framed when a value that it reads stands in bytes of its own: it reads the same value
off these bytes whatever follows them, and it reports the end of the data when only a part of them
is there. Readers put together from framed ones are framed. So is the reader of class files, and
what makes a class of the file looks at nothing else.
-/

namespace ClassScript

open Reader (Reads)

namespace Reader

variable {ε α β : Type}

/-- When only a part of these bytes is there, the reader comes to the end of the data. -/
def Lacks (o : Nat) (bs : Bytes) (r : Reader ε α) : Prop :=
  ∀ ⦃part rest : Bytes⦄, bs = part ++ rest → rest ≠ [] → r ⟨o, part⟩ = .error .endOfData

lemma Lacks.nil {o : Nat} {r : Reader ε α} : Lacks o [] r := fun _ _ hparts hrest =>
  absurd (List.append_eq_nil_iff.mp hparts.symm).2 hrest

/-- What the reader reads stands in bytes of its own. -/
def Framed (r : Reader ε α) : Prop :=
  ∀ ⦃o : Nat⦄ ⦃bs : Bytes⦄ ⦃a : α⦄ ⦃j : Input⦄, r ⟨o, bs⟩ = .ok (a, j) →
    ∃ used, bs = used ++ j.rest ∧ Reads o used r a ∧ Lacks o used r

namespace Framed

variable {r r' : Reader ε α} {k : α → Reader ε β}

lemma pure (a : α) : Framed (pure a : Reader ε α) := by
  intro o bs b j h
  cases h
  exact ⟨[], rfl, .pure a, .nil⟩

lemma fail (cause : ε) : Framed (fail cause : Reader ε α) := by
  intro o bs a j h
  cases h

/-- Nothing follows a failure. -/
lemma fail_bind (cause : ε) : Framed (Reader.fail cause >>= k) := by
  intro o bs b j h
  cases h

lemma bind (h : Framed r) (hk : ∀ a, Framed (k a)) : Framed (r >>= k) := by
  intro o bs b j hboth
  obtain ⟨a, ⟨o', rest⟩, hr, hrun⟩ := bind_eq_ok hboth
  obtain ⟨used, rfl, hreads, hlacks⟩ := h hr
  obtain ⟨rfl⟩ : o' = o + used.length := by
    have hsame := hr.symm.trans (hreads rest)
    cases hsame
    rfl
  obtain ⟨used', hused', hreads', hlacks'⟩ := hk a hrun
  refine ⟨used ++ used', by rw [List.append_assoc, ← hused'], hreads.bind hreads', ?_⟩
  intro part lost hparts hlost
  -- the cut is in the bytes of the second reader, or before the first of them
  rcases List.append_eq_append_iff.mp hparts with ⟨c, rfl, hc⟩ | ⟨c, rfl, rfl⟩
  · rw [bind_ok (hreads c)]
    exact hlacks' hc hlost
  · by_cases hempty : c = []
    · subst hempty
      have hrun := hreads []
      simp only [List.append_nil] at hrun hlacks'
      rw [bind_ok hrun]
      exact @hlacks' [] used' rfl hlost
    · exact bind_error (hlacks rfl hempty)

lemma map (h : Framed r) (f : α → β) : Framed (r >>= fun x => Pure.pure (f x)) :=
  h.bind fun _ => pure _

lemma ite {c : Prop} [Decidable c] (h : Framed r) (h' : Framed r') :
    Framed (if c then r else r') := by
  split
  · exact h
  · exact h'

lemma offset : Framed (offset : Reader ε Nat) := by
  intro o bs a j h
  cases h
  exact ⟨[], rfl, .offset, .nil⟩

lemma take (n : Nat) : Framed (take n : Reader ε Bytes) := by
  intro o bs a j h
  change (if _ then _ else _) = _ at h
  split at h
  next hlen =>
    cases h
    dsimp only at hlen ⊢
    have hreads := Reads.take (ε := ε) (o := o) (bs.take n)
    rw [hlen] at hreads
    refine ⟨bs.take n, (List.take_append_drop n bs).symm, hreads, fun part rest hparts hrest => ?_⟩
    have hlt : part.length < n := by
      have hpos := List.length_pos_iff.mpr hrest
      rw [hparts, List.length_append] at hlen
      omega
    change (if _ then _ else _) = _
    rw [if_neg (by rw [List.length_take]; dsimp only; omega)]
  next => cases h

lemma nat (n : Nat) : Framed (nat n : Reader ε Nat) := (take n).map _

lemma u8 : Framed (u8 : Reader ε UInt8) := (nat 1).map _

lemma u16 : Framed (u16 : Reader ε UInt16) := (nat 2).map _

lemma u32 : Framed (u32 : Reader ε UInt32) := (nat 4).map _

lemma u64 : Framed (u64 : Reader ε UInt64) := (nat 8).map _

lemma i32 : Framed (i32 : Reader ε Int32) := u32.map _

lemma i64 : Framed (i64 : Reader ε Int64) := u64.map _

lemma many (h : Framed r) (n : Nat) : Framed (many n r) := by
  induction n with
  | zero => exact pure []
  | succ n ih => exact h.bind fun _ => ih.map _

lemma counted (h : Framed r) : Framed (counted r) := u16.bind fun n => h.many n.toNat

/-- **Where framed data ends.** What follows it does not matter, and no shorter part of
it will do. -/
lemma parse_ends (h : Framed r) {bs : Bytes} {a : α} (hparse : r.parse bs = .ok a) :
    ∃ n ≤ bs.length, (∀ suffix, r.parse (bs.take n ++ suffix) = .ok a) ∧
      ∀ m < n, r.parse (bs.take m) = .error .endOfData := by
  simp only [Reader.parse, StateT.run, Input.start] at hparse ⊢
  cases hrun : r ⟨0, bs⟩ with
  | error e =>
    rw [hrun] at hparse
    cases hparse
  | ok x =>
    rw [hrun] at hparse
    cases hparse
    obtain ⟨used, hused, hreads, hlacks⟩ := h hrun
    have htake : bs.take used.length = used := by rw [hused, List.take_left]
    refine ⟨used.length, by rw [hused, List.length_append]; omega, fun suffix => ?_, fun m hm => ?_⟩
    · rw [htake, hreads suffix]
      rfl
    · have hpart : bs.take m = used.take m := by rw [← htake, List.take_take, Nat.min_eq_left hm.le]
      have hrest : used.drop m ≠ [] := by simpa using hm
      rw [hpart, hlacks (List.take_append_drop m used).symm hrest]
      rfl

end Framed

end Reader

open Reader (Framed)

/-! ### The parts of a class file -/

namespace Constant

lemma readText_framed : Framed readText := by
  refine .bind .offset fun start => .bind .u16 fun n => .bind (.take n.toNat) fun bs => ?_
  split
  · exact .pure _
  · exact .fail _

lemma read_framed : Framed read := by
  have hpair {α : Type} (f : UInt16 → UInt16 → α) :
      Framed (do return f (← Reader.u16) (← Reader.u16) : Reader Malformed α) :=
    .bind .u16 fun _ => .map .u16 _
  refine .bind .offset fun start => .bind .u8 fun tag => ?_
  split
  · exact .map readText_framed _
  · exact .map .i32 _
  · exact .map .u32 _
  · exact .map .i64 _
  · exact .map .u64 _
  · exact .map .u16 _
  · exact .map .u16 _
  · exact hpair _
  · exact hpair _
  · exact hpair _
  · exact hpair _
  · exact .bind .u8 fun _ => .map .u16 _
  · exact .map .u16 _
  · exact hpair _
  · exact hpair _
  · exact .map .u16 _
  · exact .map .u16 _
  · exact .fail _

lemma readSlots_framed (n : Nat) : Framed (readSlots n) := by
  induction n using readSlots.induct with
  | case1 => exact .pure _
  | case2 =>
    refine .bind read_framed fun c => .ite ?_ (.pure _)
    exact .bind .offset fun _ => .fail _
  | case3 n ih ih' => exact .bind read_framed fun c => .ite (.map ih _) (.map ih' _)

end Constant

lemma ConstantPool.read_framed : Framed read := by
  refine .bind .u16 fun count => ?_
  split
  · exact .bind .offset fun _ => .fail _
  · exact .map (Constant.readSlots_framed _) _

lemma Attribute.read_framed : Framed read :=
  .bind .u16 fun _ => .bind .u32 fun n => .map (.take n.toNat) _

lemma Member.read_framed : Framed read :=
  .bind .u16 fun _ => .bind .u16 fun _ => .bind .u16 fun _ =>
    .map (.counted Attribute.read_framed) _

lemma ClassFile.read_framed : Framed read := by
  refine .bind .offset fun start => .bind (.nat 4) fun word => .ite (.fail_bind _) ?_
  refine .bind .u16 fun _ => .bind .u16 fun _ => .bind ConstantPool.read_framed fun _ => ?_
  refine .bind .u16 fun _ => .bind .u16 fun _ => .bind .u16 fun _ =>
    .bind (.counted .u16) fun _ => ?_
  refine .bind (.counted Member.read_framed) fun _ =>
    .bind (.counted Member.read_framed) fun _ => ?_
  exact .map (.counted Attribute.read_framed) _

/-! ### Classes -/

namespace ClassDecl

/-- **A class ends where its structure ends.** Bytes after it are never looked at, and a file that
is cut off before it is reported as such. -/
theorem truncation_detected {bs : Bytes} {c : ClassDecl} (h : parse bs = .ok c) :
    ∃ n ≤ bs.length, (∀ suffix, parse (bs.take n ++ suffix) = .ok c) ∧
      ∀ m < n, parse (bs.take m) = .error (.layout .endOfData) := by
  cases hfile : ClassFile.read.parse bs with
  | error e =>
    rw [parse, hfile] at h
    cases h
  | ok f =>
    have hclass : ofClassFile f = .ok c := by rwa [parse, hfile] at h
    obtain ⟨n, hn, hsuffix, hcut⟩ := ClassFile.read_framed.parse_ends hfile
    refine ⟨n, hn, fun suffix => ?_, fun m hm => ?_⟩
    · rw [parse, hsuffix suffix]
      exact hclass
    · rw [parse, hcut m hm]
      rfl

end ClassDecl

def compact : ClassContents where
  minor := 0
  major := 52
  constants :=
    [.utf8 "a/é", .classRef 1, .long (-2), .utf8 "f", .utf8 "J",
      .utf8 "ConstantValue", .utf8 "Code",
    .utf8 "()V", .utf8 "SourceFile"]
  access := 0x21
  thisClass := 2
  superClass := 0
  interfaces := [2]
  fields := [⟨0x19, 5, 6, [⟨7, [0, 3]⟩]⟩]
  methods := [⟨9, 5, 9, [⟨8, guardedCode.write⟩]⟩]
  attributes := [⟨10, [0, 1]⟩]

def followed : Bytes := compact.write ++ [0xca, 0xfe]

theorem ClassDecl.truncation_detected_followed :
    ∃ c n, parse followed = .ok c ∧ c.name = "a/é" ∧ n ≤ followed.length ∧
      (∀ suffix, parse (followed.take n ++ suffix) = .ok c) ∧
      ∀ m < n, parse (followed.take m) = .error (.layout .endOfData) := by
  have hname : (parse followed).toOption.map ClassDecl.name = some "a/é" := by decide +kernel
  cases hparse : parse followed with
  | error e =>
    rw [hparse] at hname
    cases hname
  | ok c =>
    rw [hparse] at hname
    obtain ⟨n, hn, hsuffix, hcut⟩ := ClassDecl.truncation_detected hparse
    exact ⟨c, n, rfl, Option.some.inj hname, hn, hsuffix, hcut⟩

end ClassScript
