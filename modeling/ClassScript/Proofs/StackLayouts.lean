import ClassScript.Method.Body
import ClassScript.Proofs.Decoding
import ClassScript.Proofs.Tables
import ClassScript.Proofs.TypedInstructions

/-!
Stack layouts agree where paths join.

A stack typing gives the kinds on the stack at each instruction of a method. One pass over
typed code never runs out of operands: at each instruction that gets code, the frame has the
kinds of the typing there. A jump and a fall into a label find every value in the variable of
its position, so all ways to a label leave the stack in the same variables.
-/

namespace ClassScript

/-! ### Passing control -/

/-- Writing out the pending constants of a stack keeps its values, each now in the variable of
its position. -/
lemma Store.exec_writes {σ : Store} {stack : List Entry} {vs : List Machine.Value}
    (h : σ.operands stack = some vs) :
    ∃ σ', σ.exec (Lower.writes stack) = .ok σ' ∧
      σ'.operands (stack.map fun e => .slot e.kind) = some vs ∧
      ∀ k n, stack.length ≤ n → σ' (Var.operand k n).name = σ (Var.operand k n).name := by
  induction stack generalizing vs with
  | nil => exact ⟨σ, rfl, h, fun _ _ _ => rfl⟩
  | cons e rest ih =>
    obtain ⟨v, ws, hv, hws, rfl⟩ := operands_cons.mp h
    obtain ⟨σ', hexec, hrest, hframe⟩ := ih hws
    have hlen : (rest.map fun e => Entry.slot e.kind).length = rest.length := List.length_map _
    -- a slot holds its value already; a constant is written into its own
    cases e with
    | slot k =>
      refine ⟨σ', hexec, operands_cons.mpr ⟨v, ws, ?_, hrest, rfl⟩, fun k n hn => hframe k n ?_⟩
      · rw [hlen, Entry.read, Entry.kind, hframe k _ (Nat.le_refl _)]
        exact hv
      · exact Nat.le_of_succ_le hn
    | const l =>
      cases hv
      refine ⟨σ'.set (.operand l.kind rest.length) l.eval, ?_, ?_, ?_⟩
      · have hwrites : Lower.writes (.const l :: rest) =
            Lower.writes rest ++ [.assign (.operand l.kind rest.length) (.atom (.lit l))] := by
          simp [Lower.writes, Lower.pending]
        rw [hwrites, exec_append, hexec]
        exact exec_assign rfl
      · refine operands_cons.mpr ⟨l.value, ws, ?_, ?_, rfl⟩
        · have hkind : l.kind = l.value.kind := by cases l <;> rfl
          rw [hlen, Entry.read, Entry.kind, set_self, Literal.eval_eq, hkind, Datum.read_ofValue]
        · rw [operands_set fun k n hn => by simp at hn ⊢; omega]
          exact hrest
      · intro k n hn
        have hne : Var.operand k n ≠ .operand l.kind rest.length := by
          simp at hn ⊢
          omega
        rw [set_of_ne _ _ hne, hframe k n (Nat.le_of_succ_le hn)]

/-- Control passes from a frame to one that has all its values in variables: what lies below
the positions taken is put where the new frame reads it, and then come the statements
`after`. -/
def Frame.Passes (f f' : Frame) (taken : List Entry) (ks : List Kind) (after : List Stmt) : Prop :=
  ∃ rest writes, f.stack = taken ++ rest ∧ f'.stack = ks.map Entry.slot ∧
    f'.out = f.out ++ (writes ++ after).toArray ∧
    ∀ (σ : Store) (vs : List Machine.Value), σ.operands rest = some vs →
      ∃ σ', σ.exec writes = .ok σ' ∧ σ'.operands f'.stack = some vs

lemma Frame.Leaves.passes {f f' : Frame} (h : f.Leaves f') :
    ∃ taken jump, f.Passes f' taken f'.kinds [jump] := by
  obtain ⟨taken, rest, jump, hstack, hstack', hout⟩ := id h
  refine ⟨taken, jump, rest, Lower.writes rest, hstack, h.settled, hout, fun σ vs hvs => ?_⟩
  obtain ⟨σ', hexec, hread, -⟩ := Store.exec_writes hvs
  exact ⟨σ', hexec, hstack' ▸ hread⟩

namespace Lower

def arrive (labels : List Nat) (pc : Nat) (reachable marked : Bool) : Lower Unit :=
  if labels.contains pc then enterLabel pc reachable marked else pure ()

def labelLines (pc : Nat) (marked : Bool) : List Stmt :=
  .label pc :: if marked then [.mark pc] else []

variable {f : Frame}

lemma emitLabel_run (pc : Nat) (marked : Bool) :
    (do emit (.label pc); if marked then emit (.mark pc) : Lower Unit) f =
      .ok ((), { f with out := f.out ++ (labelLines pc marked).toArray }) := by
  cases marked <;> rfl

/-- A label into which control falls. -/
lemma enterLabel_fall (pc : Nat) (marked : Bool) :
    ∃ f', enterLabel pc true marked f = .ok ((), f') ∧
      f'.stack = f.stack.map (fun e => .slot e.kind) ∧
      f'.layouts = Frame.recorded f.layout f.layouts pc ∧
      f'.out = f.out ++ (writes f.stack ++ labelLines pc marked).toArray := by
  unfold enterLabel
  rw [if_pos rfl, bind_ok flush_run]
  refine ⟨_, (bind_ok (record_run pc)).trans (emitLabel_run pc marked), rfl, ?_, ?_⟩
  · rw [Frame.layout_eq, Frame.layout_eq, flushed_kinds]
    rfl
  · simp [flushed]

/-- A label that only jumps reach. -/
lemma enterLabel_jump (pc : Nat) (marked : Bool) :
    ∃ f', enterLabel pc false marked f = .ok ((), f') ∧
      f'.stack = ((f.layouts.get? pc).getD []).reverse.map Entry.slot ∧ f'.layouts = f.layouts ∧
      f'.out = f.out ++ (labelLines pc marked).toArray := by
  unfold enterLabel
  rw [if_neg (by simp), bind_ok get_run]
  exact ⟨_, (bind_ok (x := reset _) rfl).trans (emitLabel_run pc marked),
    List.map_reverse.symm, rfl, rfl⟩

end Lower

/-! ### Typed code -/

/-- A stack typing of a method: the kinds on the stack at each address, top first. The code
starts on an empty stack, a handler on the thrown value, and every instruction takes the kinds
at its address to those of all its successors. -/
structure StackTyping (p : ConstantPool) (handlers : List Handler) (code : List Located)
    (S : Nat → List Kind) : Prop where
  entry : S 0 = []
  handler : ∀ h ∈ handlers, S h.target.toNat = [.ref]
  flow : ∀ pre pc i post, code = pre ++ ⟨pc, i⟩ :: post → ∃ ks, Typing.effect p i (S pc) = some ks ∧
    (∀ t ∈ i.targets, S t = ks) ∧
    (i.endsFlow = false → ∀ next ∈ post.head?, S next.address = ks)

/-- Does control fall out of the end of the code? `entered` says whether it falls into its
start. -/
def fallsThrough (labels : List Nat) : List Located → Bool → Bool
  | [], entered => entered
  | ⟨pc, i⟩ :: rest, entered =>
    fallsThrough labels rest ((labels.contains pc || entered) && !i.endsFlow)

/-- The instruction after `pre` gets code: it has a label, or control falls into it. -/
def Translates (labels : List Nat) (code pre : List Located) (l : Located) : Prop :=
  (∃ post, code = pre ++ l :: post) ∧
    (l.address ∈ labels ∨ fallsThrough labels pre true = true)

/-- A label into which control does not fall is a handler, or a jump before it goes there, or
the stack is empty there. -/
def LabelsEntered (handlers : List Handler) (labels : List Nat) (code : List Located)
    (S : Nat → List Kind) : Prop :=
  ∀ pre l, Translates labels code pre l → fallsThrough labels pre true = false →
    (∃ h ∈ handlers, h.target.toNat = l.address) ∨
    (∃ pre' j, Translates labels code pre' j ∧ j.address < l.address ∧
      l.address ∈ j.instruction.targets) ∨
    S l.address = []

lemma fallsThrough_append (labels : List Nat) (pre post : List Located) (entered : Bool) :
    fallsThrough labels (pre ++ post) entered =
      fallsThrough labels post (fallsThrough labels pre entered) := by
  induction pre generalizing entered with
  | nil => rfl
  | cons l pre ih => exact ih _

/-- An instruction at a lower address stands before. -/
lemma length_lt_of_address_lt {code pre post pre' post' : List Located} {l j : Located}
    (hsorted : (code.map Located.address).Pairwise (· < ·)) (h : code = pre ++ l :: post)
    (h' : code = pre' ++ j :: post') (hlt : j.address < l.address) : pre'.length < pre.length := by
  have hl : code[pre.length]? = some l := by simp [h]
  have hj : code[pre'.length]? = some j := by simp [h']
  by_contra hge
  rcases Nat.lt_or_eq_of_le (Nat.le_of_not_lt hge) with hlen | hlen
  · obtain ⟨hl', rfl⟩ := List.getElem?_eq_some_iff.mp hl
    obtain ⟨hj', rfl⟩ := List.getElem?_eq_some_iff.mp hj
    have := List.pairwise_iff_getElem.mp hsorted _ _ (by simpa using hl') (by simpa using hj') hlen
    simp only [List.getElem_map] at this
    omega
  · rw [hlen, hj] at hl
    cases hl
    omega

namespace Frame

variable {ks : List Kind} {targets : List Nat} {t : Table Nat (List Kind)} {pc : Nat}

lemma get?_recorded {ks' : List Kind} {target : Nat}
    (h : (recorded ks t target).get? pc = some ks') :
    t.get? pc = some ks' ∨ pc = target ∧ ks' = ks := by
  rw [recorded] at h
  split_ifs at h
  · exact .inl h
  · by_cases hpc : pc = target
    · subst hpc
      rw [Table.get?_insert_self] at h
      exact .inr ⟨rfl, (Option.some.inj h).symm⟩
    · rw [Table.get?_insert_of_ne _ _ hpc] at h
      exact .inl h

lemma get?_foldl_recorded {ks' : List Kind}
    (h : (targets.foldl (recorded ks) t).get? pc = some ks') :
    t.get? pc = some ks' ∨ pc ∈ targets ∧ ks' = ks := by
  induction targets generalizing t with
  | nil => exact .inl h
  | cons target targets ih =>
    rcases ih h with hold | ⟨hmem, hks⟩
    · rcases get?_recorded hold with hold | ⟨rfl, hks⟩
      · exact .inl hold
      · exact .inr ⟨List.mem_cons_self, hks⟩
    · exact .inr ⟨List.mem_cons_of_mem _ hmem, hks⟩

lemma contains_recorded_self : (recorded ks t pc).contains pc = true := by
  rw [recorded]
  split_ifs with h
  · exact h
  · exact Table.contains_insert_self t pc ks

lemma contains_recorded (h : t.contains pc = true) (target : Nat) :
    (recorded ks t target).contains pc = true := by
  rw [recorded]
  split_ifs
  · exact h
  · exact Table.contains_insert_of_contains h target ks

lemma contains_foldl_recorded (h : t.contains pc = true ∨ pc ∈ targets) :
    (targets.foldl (recorded ks) t).contains pc = true := by
  induction targets generalizing t with
  | nil => exact h.resolve_right (by simp)
  | cons target targets ih =>
    refine ih ?_
    rcases h with h | h
    · exact .inl (contains_recorded h target)
    · rcases List.mem_cons.mp h with rfl | h
      · exact .inl contains_recorded_self
      · exact .inr h

end Frame

/-! ### The pass over the code -/

/-- A method with a stack typing, its labels entered as they should be. -/
structure TypedCode (p : ConstantPool) (handlers : List Handler) (labels : List Nat)
    (code : List Located) (S : Nat → List Kind) : Prop where
  typing : StackTyping p handlers code S
  entered : LabelsEntered handlers labels code S
  sorted : (code.map Located.address).Pairwise (· < ·)

/-- The state of generation after the code `pre`: every layout on record is that of the
typing, handlers and the targets of jumps are on record, and where control falls on, the frame
has the kinds of the next instruction. -/
structure Agrees (handlers : List Handler) (labels : List Nat) (code : List Located)
    (S : Nat → List Kind) (pre : List Located) (f : Frame) : Prop where
  known : ∀ {t ks}, f.layouts.get? t = some ks → ks = (S t).reverse
  handlers : ∀ h ∈ handlers, f.layouts.contains h.target.toNat = true
  jumps : ∀ {pre' j}, Translates labels code pre' j → pre'.length < pre.length →
    ∀ t ∈ j.instruction.targets, f.layouts.contains t = true
  falls : fallsThrough labels pre true = true → ∀ l post, code = pre ++ l :: post →
    f.kinds = S l.address

/-- The turn of an instruction has come: its label, if it has one, is set. -/
structure Arrives (labels : List Nat) (S : Nat → List Kind) (marked falls : Bool) (l : Located)
    (f f' : Frame) : Prop where
  kinds : f'.kinds = S l.address
  known : ∀ {t ks}, f'.layouts.get? t = some ks → ks = (S t).reverse
  contains : ∀ {t}, f.layouts.contains t = true → f'.layouts.contains t = true
  settled : l.address ∈ labels → f'.Settled
  passes : l.address ∈ labels → falls = true →
    f.Passes f' [] (S l.address) (Lower.labelLines l.address marked)

section

variable {p : ConstantPool} {handlers : List Handler} {labels : List Nat} {code pre : List Located}
  {S : Nat → List Kind} {f f' : Frame} {l : Located}

/-- The layout on record for a label into which control does not fall. -/
lemma Agrees.layout (hA : Agrees handlers labels code S pre f)
    (hC : TypedCode p handlers labels code S) (hl : Translates labels code pre l)
    (hfall : fallsThrough labels pre true = false) :
    (f.layouts.get? l.address).getD [] = (S l.address).reverse := by
  cases hget : f.layouts.get? l.address with
  | some ks => exact hA.known hget
  | none =>
    have hnone : ¬ f.layouts.contains l.address = true := by simp [Table.contains, hget]
    rcases hC.entered pre l hl hfall with ⟨h, hmem, htarget⟩ | ⟨pre', j, hj, hlt, htarget⟩ | hempty
    · exact absurd (htarget ▸ hA.handlers h hmem) hnone
    · obtain ⟨post, hpost⟩ := hl.1
      obtain ⟨post', hpost'⟩ := hj.1
      have hlen := length_lt_of_address_lt hC.sorted hpost hpost' hlt
      exact absurd (hA.jumps hj hlen _ htarget) hnone
    · rw [hempty]
      rfl

lemma Agrees.arrives (hA : Agrees handlers labels code S pre f)
    (hC : TypedCode p handlers labels code S) (hl : Translates labels code pre l) (marked : Bool) :
    ∃ f', Lower.arrive labels l.address (fallsThrough labels pre true) marked f = .ok ((), f') ∧
      Arrives labels S marked (fallsThrough labels pre true) l f f' := by
  obtain ⟨post, hpost⟩ := hl.1
  by_cases hlabel : l.address ∈ labels
  · rw [Lower.arrive, if_pos (List.contains_iff_mem.mpr hlabel)]
    -- falling through brings its stack along; otherwise a jump has recorded one
    cases hfall : fallsThrough labels pre true with
    | true =>
      have hkinds : f.kinds = S l.address := hA.falls hfall l post hpost
      obtain ⟨f', hrun, hstack, hlayouts, hout⟩ := Lower.enterLabel_fall (f := f) l.address marked
      have hslots : f'.stack = (S l.address).map Entry.slot := by
        rw [hstack, ← hkinds, Frame.kinds, List.map_map]
        rfl
      refine ⟨f', hrun, ?_, ?_, ?_, ?_, ?_⟩
      · simp [Frame.kinds, hslots, Function.comp_def, Entry.kind]
      · intro t ks ht
        rw [hlayouts, Frame.layout_eq, hkinds] at ht
        rcases Frame.get?_recorded ht with ht | ⟨rfl, rfl⟩
        · exact hA.known ht
        · rfl
      · intro t ht
        rw [hlayouts]
        exact Frame.contains_recorded ht l.address
      · intro _
        simp [Frame.Settled, Frame.kinds, hslots, Function.comp_def, Entry.kind]
      · intro _ _
        refine ⟨f.stack, Lower.writes f.stack, rfl, hslots, hout, fun σ vs hvs => ?_⟩
        obtain ⟨σ', hexec, hread, -⟩ := Store.exec_writes hvs
        exact ⟨σ', hexec, hstack ▸ hread⟩
    | false =>
      obtain ⟨f', hrun, hstack, hlayouts, -⟩ := Lower.enterLabel_jump (f := f) l.address marked
      rw [hA.layout hC hl hfall, List.reverse_reverse] at hstack
      refine ⟨f', hrun, ?_, ?_, ?_, ?_, by simp⟩
      · simp [Frame.kinds, hstack, Function.comp_def, Entry.kind]
      · rw [hlayouts]
        exact hA.known
      · rw [hlayouts]
        exact id
      · intro _
        simp [Frame.Settled, Frame.kinds, hstack, Function.comp_def, Entry.kind]
  · have hfall : fallsThrough labels pre true = true := hl.2.resolve_left hlabel
    rw [Lower.arrive, if_neg (by simpa using hlabel)]
    exact ⟨f, rfl, hA.falls hfall l post hpost, hA.known, id, fun h => absurd h hlabel,
      fun h => absurd h hlabel⟩

/-- The instructions before one more. -/
lemma Translates.cases {pre' post : List Located} {j : Located} (hj : Translates labels code pre' j)
    (hcode : code = pre ++ l :: post) (hlen : pre'.length < (pre ++ [l]).length) :
    pre'.length < pre.length ∨ pre' = pre ∧ j = l := by
  rcases Nat.lt_or_eq_of_le (Nat.le_of_lt_succ (by simpa using hlen)) with h | h
  · exact .inl h
  · obtain ⟨post', hcode'⟩ := hj.1
    obtain ⟨hpre, hrest⟩ := List.append_inj (hcode'.symm.trans hcode) h
    exact .inr ⟨hpre, (List.cons.inj hrest).1⟩

lemma fallsThrough_snoc (labels : List Nat) (pre : List Located) (l : Located) :
    fallsThrough labels (pre ++ [l]) true =
      ((labels.contains l.address || fallsThrough labels pre true) && !l.instruction.endsFlow) :=
  fallsThrough_append labels pre [l] true

/-- After an instruction that got code. -/
lemma Agrees.next {marked : Bool} {f₁ f₂ : Frame} {ks : List Kind} {post : List Located}
    (hA : Agrees handlers labels code S pre f) (hcode : code = pre ++ l :: post)
    (hin : Arrives labels S marked (fallsThrough labels pre true) l f f₁)
    (hadv : f₁.Advances f₂ ks l.instruction.targets)
    (htargets : ∀ t ∈ l.instruction.targets, S t = ks)
    (hnext : l.instruction.endsFlow = false → ∀ next ∈ post.head?, S next.address = ks) :
    Agrees handlers labels code S (pre ++ [l]) f₂ where
  known ht := by
    rw [hadv.layouts] at ht
    rcases Frame.get?_foldl_recorded ht with ht | ⟨hmem, rfl⟩
    · exact hin.known ht
    · rw [htargets _ hmem]
  handlers h hh := by
    rw [hadv.layouts]
    exact Frame.contains_foldl_recorded (.inl (hin.contains (hA.handlers h hh)))
  jumps hj hlen t ht := by
    rw [hadv.layouts]
    -- the jump stands before the instruction or is the instruction
    rcases hj.cases hcode hlen with hlt | ⟨rfl, rfl⟩
    · exact Frame.contains_foldl_recorded (.inl (hin.contains (hA.jumps hj hlt t ht)))
    · exact Frame.contains_foldl_recorded (.inr ht)
  falls hfall l' post' hcode' := by
    rw [fallsThrough_snoc, Bool.and_eq_true, Bool.not_eq_true'] at hfall
    have hpost : post = l' :: post' := by
      rw [hcode, List.append_assoc, List.append_cancel_left_eq] at hcode'
      exact (List.cons.inj hcode').2
    rw [hadv.kinds, hnext hfall.2 l' (by rw [hpost]; rfl)]

/-- After an instruction that nothing reaches. -/
lemma Agrees.skip {post : List Located} (hA : Agrees handlers labels code S pre f)
    (hcode : code = pre ++ l :: post)
    (hdead : (labels.contains l.address || fallsThrough labels pre true) = false) :
    Agrees handlers labels code S (pre ++ [l]) f where
  known := hA.known
  handlers := hA.handlers
  jumps hj hlen t ht := by
    rcases hj.cases hcode hlen with hlt | ⟨rfl, rfl⟩
    · exact hA.jumps hj hlt t ht
    · rw [Bool.or_eq_false_iff] at hdead
      rcases hj.2 with hlabel | hfall
      · exact absurd (List.contains_iff_mem.mpr hlabel) (by rw [hdead.1]; exact Bool.false_ne_true)
      · exact absurd hfall (by rw [hdead.2]; exact Bool.false_ne_true)
  falls hfall := by
    rw [fallsThrough_snoc, hdead] at hfall
    cases hfall

namespace Generator

variable {g : Generator} {site : Nat → Site} {marked : Bool} {s : Session}

lemma block_live {pc : Nat} {i : Instruction} {rest : List Located} {reachable : Bool}
    (h : (labels.contains pc || reachable) = true) (last : Option Nat) :
    g.block site p labels marked (⟨pc, i⟩ :: rest) reachable last =
      (do
        Emission.lower (site pc) (Lower.arrive labels pc reachable marked)
        g.instruction (site pc) p i
        g.block site p labels marked rest (!i.endsFlow) (some pc)) := by
  rw [block]
  simp only [h, if_true, Lower.arrive]
  split_ifs
  · rfl
  · funext f s
    have hnone : Emission.lower (site pc) (pure ()) f s = (.ok ((), f), s) := Emission.lower_ok rfl
    rw [Emission.bind_ok hnone]

lemma block_dead {pc : Nat} {i : Instruction} {rest : List Located} {reachable : Bool}
    (h : (labels.contains pc || reachable) = false) (last : Option Nat) :
    g.block site p labels marked (⟨pc, i⟩ :: rest) reachable last =
      g.block site p labels marked rest false last := by
  rw [block]
  simp only [h, Bool.false_eq_true, if_false]

/-- What generation does for one instruction in its turn. -/
lemma turn_agrees (hC : TypedCode p handlers labels code S)
    (hA : Agrees handlers labels code S pre f) (hl : Translates labels code pre l)
    {f₁ : Frame} (hin : Arrives labels S marked (fallsThrough labels pre true) l f f₁) :
    Ends (g.instruction (site l.address) p l.instruction f₁) s
      (fun r _ => Agrees handlers labels code S (pre ++ [l]) r.2 ∧
        ∀ t ∈ l.instruction.targets, ∃ taken jump, f₁.Passes r.2 taken (S t) [jump])
      fun e _ => e.IsLoad (site l.address) := by
  obtain ⟨post, hcode⟩ := hl.1
  obtain ⟨ks, heffect, htargets, hnext⟩ := hC.typing.flow pre _ _ post hcode
  rw [← hin.kinds] at heffect
  refine (instruction_advances heffect).mono (fun r _ hadv => ⟨?_, ?_⟩) fun _ _ h => h
  · exact hA.next hcode hin hadv htargets hnext
  · intro t ht
    have hleaves := (hadv.leaves (List.ne_nil_of_mem ht)).passes
    rwa [hadv.kinds, ← htargets t ht] at hleaves

/-- A stretch of the code, from an agreeing frame to another. -/
lemma block_agrees (hC : TypedCode p handlers labels code S) {mid post : List Located}
    (hcode : code = pre ++ (mid ++ post)) (hA : Agrees handlers labels code S pre f)
    (last : Option Nat) :
    Ends (g.block site p labels marked mid (fallsThrough labels pre true) last f) s
      (fun r _ => Agrees handlers labels code S (pre ++ mid) r.2)
      fun e _ => ∃ pc, e.IsLoad (site pc) := by
  induction mid generalizing pre f last s with
  | nil => exact .pure (by rwa [List.append_nil])
  | cons l mid ih =>
    have hsnoc : pre ++ l :: mid = (pre ++ [l]) ++ mid := by simp
    have hcode' : code = (pre ++ [l]) ++ (mid ++ post) := by rw [hcode]; simp
    have hreach := fallsThrough_snoc labels pre l
    -- code that nothing reaches is skipped, and the stack stays as it was
    cases hlive : labels.contains l.address || fallsThrough labels pre true with
    | true =>
      have hl : Translates labels code pre l :=
        ⟨⟨mid ++ post, hcode⟩, by simpa using hlive⟩
      obtain ⟨f₁, harrive, hin⟩ := hA.arrives hC hl marked
      rw [hlive, Bool.true_and] at hreach
      rw [block_live hlive]
      refine lower_bind harrive
        (.bind (Q := fun r _ => Agrees handlers labels code S (pre ++ [l]) r.2) ?_ ?_)
      · exact (turn_agrees hC hA hl hin).mono (fun _ _ h => h.1) fun _ _ h => ⟨l.address, h⟩
      · rintro ⟨_, f₂⟩ t hA₂
        rw [hsnoc, ← hreach]
        exact ih hcode' hA₂ _
    | false =>
      rw [hlive, Bool.false_and] at hreach
      rw [block_dead hlive, hsnoc, ← hreach]
      exact ih hcode' (hA.skip hcode hlive) last

def pass (g : Generator) (c : ClassDecl) (m : MethodDecl) (labels : List Nat) (pre : List Located) :
    Emission (Option Nat) :=
  g.block (Site.code c.name m.name m.descriptor) c.pool labels (!m.handlers.isEmpty) pre true none

lemma block_append (pre post : List Located) (reachable : Bool) (last : Option Nat) :
    g.block site p labels marked (pre ++ post) reachable last =
      g.block site p labels marked pre reachable last >>=
        g.block site p labels marked post (fallsThrough labels pre reachable) := by
  induction pre generalizing reachable last with
  | nil => exact (pure_bind _ _).symm
  | cons l pre ih =>
    cases hlive : labels.contains l.address || reachable with
    | true =>
      rw [List.cons_append, block_live hlive, block_live hlive, fallsThrough, hlive,
        Bool.true_and, ih]
      simp only [bind_assoc]
    | false =>
      rw [List.cons_append, block_dead hlive, block_dead hlive, fallsThrough, hlive,
        Bool.false_and, ih]

/-- The pass over a method comes to each instruction that gets code after the code before it. -/
lemma pass_eq {c : ClassDecl} {m : MethodDecl} {post : List Located}
    (hcode : code = pre ++ l :: post)
    (hlive : l.address ∈ labels ∨ fallsThrough labels pre true = true) :
    g.pass c m labels code = (do
      let _ ← g.pass c m labels pre
      Emission.lower (Site.code c.name m.name m.descriptor l.address)
        (Lower.arrive labels l.address (fallsThrough labels pre true) (!m.handlers.isEmpty))
      g.instruction (Site.code c.name m.name m.descriptor l.address) c.pool l.instruction
      g.block (Site.code c.name m.name m.descriptor) c.pool labels (!m.handlers.isEmpty) post
        (!l.instruction.endsFlow) (some l.address)) := by
  rw [pass, pass, hcode, block_append]
  congr 1
  funext last
  exact block_live (by simpa using hlive) last

lemma pass_agrees {c : ClassDecl} {m : MethodDecl} (hC : TypedCode c.pool m.handlers labels code S)
    (hA : Agrees m.handlers labels code S [] (Frame.ofHandlers m.handlers)) {post : List Located}
    (hcode : code = pre ++ post) :
    Ends (g.pass c m labels pre (Frame.ofHandlers m.handlers)) s
      (fun r _ => Agrees m.handlers labels code S pre r.2)
      fun e _ => ∃ pc, e.IsLoad (Site.code c.name m.name m.descriptor pc) :=
  block_agrees hC hcode hA none

lemma catchClause_ends (w : Site) (h : Handler) (s : Session) :
    Ends (catchClause w p h) s (fun _ _ => True) fun e _ => ∀ fault, e.cause ≠ .fault fault := by
  unfold catchClause
  split_ifs
  · exact .bind_of_ok rfl (.pure trivial)
  · refine .bind (Q := fun _ _ => True) ?_ fun _ _ _ =>
      .bind_of_ok rfl (.bind_of_ok rfl (.pure trivial))
    cases hname : p.className h.catchType with
    | ok name => exact .of_ok (Generation.liftExcept_ok hname _ _ s) trivial
    | error cause =>
      refine .of_error (e := ⟨w, .pool cause⟩) (t := s) (by rw [classAt, hname]; rfl)
        fun fault => ?_
      exact Cause.noConfusion

/-- A body that stops does so for a class or a constant, never for want of operands. -/
lemma body_error {c : ClassDecl} {m : MethodDecl} (hcode : Instruction.decode m.bytecode = .ok code)
    (hlabels : Labels.of code m.handlers m.bytecode.length = .ok labels)
    (hC : TypedCode c.pool m.handlers labels code S)
    (hA : Agrees m.handlers labels code S [] (Frame.ofHandlers m.handlers)) :
    Ends (g.body c m) s (fun _ _ => True) fun e _ => ∀ fault, e.cause ≠ .fault fault := by
  have hpass := pass_agrees (g := g) (s := s) hC hA (List.append_nil code).symm
  refine .bind_of_ok (Generation.liftExcept_ok hcode _ _ s) (.bind_of_ok
    (Generation.liftExcept_ok hlabels _ _ s) (.bind (hpass.mono (fun _ _ h => h) ?_) ?_))
  · rintro e _ ⟨pc, cause, rfl⟩ fault
    exact Cause.noConfusion
  · rintro ⟨last, f⟩ t -
    dsimp only
    split
    · exact .pure trivial
    · refine .bind (.mapM (I := fun _ => True) (fun h _ s _ => catchClause_ends _ h s) trivial) ?_
      exact fun _ _ _ => .pure trivial

end Generator

/-! ### The start of a method -/

/-- The layouts of handlers, with those that are already there. -/
lemma get?_foldl_handlers {table : Table Nat (List Kind)} {t : Nat} {ks : List Kind}
    (h : (handlers.foldl (fun t h => t.insert h.target.toNat [.ref]) table).get? t = some ks) :
    table.get? t = some ks ∨ ks = [.ref] ∧ ∃ h ∈ handlers, h.target.toNat = t := by
  induction handlers generalizing table with
  | nil => exact .inl h
  | cons h' handlers ih =>
    rcases ih h with hold | ⟨hks, h, hmem, ht⟩
    · by_cases ht : t = h'.target.toNat
      · subst ht
        rw [Table.get?_insert_self] at hold
        exact .inr ⟨(Option.some.inj hold).symm, h', List.mem_cons_self, rfl⟩
      · rw [Table.get?_insert_of_ne _ _ ht] at hold
        exact .inl hold
    · exact .inr ⟨hks, h, List.mem_cons_of_mem _ hmem, ht⟩

lemma contains_foldl_handlers {table : Table Nat (List Kind)} {t : Nat}
    (h : table.contains t = true ∨ ∃ h ∈ handlers, h.target.toNat = t) :
    (handlers.foldl (fun t h => t.insert h.target.toNat [Kind.ref]) table).contains t = true := by
  induction handlers generalizing table with
  | nil => exact h.resolve_right (by simp)
  | cons h' handlers ih =>
    refine ih ?_
    rcases h with h | ⟨h, hmem, rfl⟩
    · exact .inl (Table.contains_insert_of_contains h _ _)
    · rcases List.mem_cons.mp hmem with rfl | hmem
      · exact .inl (Table.contains_insert_self _ _ _)
      · exact .inr ⟨h, hmem, rfl⟩

/-- A typing agrees with the frame that a method starts with. -/
lemma StackTyping.agrees (hS : StackTyping p handlers code S) {i : Instruction}
    {rest : List Located} (hcode : code = ⟨0, i⟩ :: rest) :
    Agrees handlers labels code S [] (Frame.ofHandlers handlers) where
  known ht := by
    obtain ⟨rfl, h, hh, rfl⟩ := (get?_foldl_handlers ht).resolve_left (by simp [Table.get?])
    rw [hS.handler h hh]
    rfl
  handlers h hh := contains_foldl_handlers (.inr ⟨h, hh, rfl⟩)
  jumps _ hlen := absurd hlen (Nat.not_lt_zero _)
  falls _ l post hcode' := by
    obtain ⟨rfl, -⟩ := List.cons.inj (hcode.symm.trans hcode')
    exact hS.entry.symm

end

/-- **Stack layouts agree where paths join.** The pass over a typed method never finds its
stack too short: a body that cannot be generated has another cause. When the turn of an
instruction comes, after the code before it, the frame has the layout of the typing there. At
a label no constant is pending. Both a fall into a label and a jump to one leave every value
in the variable in which the code after the label finds it. -/
theorem stack_layouts_agree (g : Generator) (c : ClassDecl) (m : MethodDecl) {code : List Located}
    {labels : List Nat} {S : Nat → List Kind} (hcode : Instruction.decode m.bytecode = .ok code)
    (hlabels : Labels.of code m.handlers m.bytecode.length = .ok labels)
    (hS : StackTyping c.pool m.handlers code S) (hentered : LabelsEntered m.handlers labels code S)
    (s : Session) :
    (∀ e t, g.body c m s = (.error e, t) → ∀ fault, e.cause ≠ .fault fault) ∧
    ∀ pre l post, code = pre ++ l :: post →
      (l.address ∈ labels ∨ fallsThrough labels pre true = true) →
      let site := Site.code c.name m.name m.descriptor
      let falls := fallsThrough labels pre true
      let marked := !m.handlers.isEmpty
      (g.pass c m labels code = do
        let _ ← g.pass c m labels pre
        Emission.lower (site l.address) (Lower.arrive labels l.address falls marked)
        g.instruction (site l.address) c.pool l.instruction
        g.block site c.pool labels marked post (!l.instruction.endsFlow) (some l.address)) ∧
      ∀ last f t, g.pass c m labels pre (Frame.ofHandlers m.handlers) s = (.ok (last, f), t) →
        ∃ f₁, Lower.arrive labels l.address falls marked f = .ok ((), f₁) ∧
          f₁.layout = (S l.address).reverse ∧
          (l.address ∈ labels → f₁.Settled) ∧
          (l.address ∈ labels → falls = true →
            f.Passes f₁ [] (S l.address) (Lower.labelLines l.address marked)) ∧
          ∀ f₂ t', g.instruction (site l.address) c.pool l.instruction f₁ t = (.ok ((), f₂), t') →
            ∀ target ∈ l.instruction.targets,
              ∃ taken jump, f₁.Passes f₂ taken (S target) [jump] := by
  obtain ⟨i, rest, hhead⟩ := Instruction.decode_head hcode
  have hC : TypedCode c.pool m.handlers labels code S :=
    ⟨hS, hentered, Instruction.decode_sorted hcode⟩
  have hstart : Agrees m.handlers labels code S [] (Frame.ofHandlers m.handlers) := hS.agrees hhead
  refine ⟨fun e t h => (Generator.body_error hcode hlabels hC hstart).error h, ?_⟩
  intro pre l post hsplit hlive
  refine ⟨Generator.pass_eq hsplit hlive, fun last f t hpass => ?_⟩
  have hl : Translates labels code pre l := ⟨⟨post, hsplit⟩, hlive⟩
  have hA : Agrees m.handlers labels code S pre f :=
    (Generator.pass_agrees hC hstart hsplit).ok hpass
  obtain ⟨f₁, harrive, hin⟩ := hA.arrives hC hl (!m.handlers.isEmpty)
  refine ⟨f₁, harrive, ?_, hin.settled, hin.passes, fun f₂ t' hrun => ?_⟩
  · rw [Frame.layout_eq, hin.kinds]
  · exact ((Generator.turn_agrees hC hA hl hin).ok hrun).2

/-- Five and one, or five and nothing, by the int in slot 0. The five is pending when the
paths part, and so are the other constants when they join. -/
def choice : MethodDecl where
  owner := "A"
  name := "choice"
  descriptor := "(I)I"
  access := Access.staticFlag
  code := some ⟨2, 1, [0x08, 0x1a, 0x99, 0, 7, 0x04, 0xa7, 0, 4, 0x03, 0x60, 0xac], [], []⟩
  exceptions := []
  annotations := []

def choiceClass : ClassDecl := ⟨"A", none, [], 0, ⟨#[]⟩, [], [choice], [], none, 52⟩

def choiceCode : List Located :=
  [⟨0, .push (.int 5)⟩, ⟨1, .load .int 0⟩, ⟨2, .ifZero .eq 9⟩, ⟨5, .push (.int 1)⟩, ⟨6, .goto 10⟩,
    ⟨9, .push (.int 0)⟩, ⟨10, .arith .add .int⟩, ⟨11, .returns (some .int)⟩]

def choiceTyping (pc : Nat) : List Kind :=
  if pc = 0 then [] else if pc ∈ [2, 6, 10] then [.int, .int] else [.int]

lemma choice_decode : Instruction.decode choice.bytecode = .ok choiceCode := by decide +kernel

lemma choice_labels :
    Labels.of choiceCode choice.handlers choice.bytecode.length = .ok [0, 9, 10] := rfl

/-- The ways to split the code at an instruction. -/
lemma choice_split {pre post : List Located} {l : Located} (h : choiceCode = pre ++ l :: post) :
    ∃ n < 8, pre = choiceCode.take n ∧ choiceCode[n]? = some l ∧
      post = choiceCode.drop (n + 1) := by
  have hlen := congrArg List.length h
  simp only [choiceCode, List.length_append, List.length_cons, List.length_nil] at hlen
  exact ⟨pre.length, by omega, by simp [h], by simp [h], by simp [h]⟩

lemma choice_typing : StackTyping choiceClass.pool choice.handlers choiceCode choiceTyping where
  entry := rfl
  handler := by rintro h ⟨⟩
  flow pre pc i post h := by
    obtain ⟨n, hn, -, hi, rfl⟩ := choice_split h
    interval_cases n <;> cases hi <;> exact ⟨_, rfl, by decide, by decide⟩

/-- Control falls into the other labels. -/
lemma choice_entered : LabelsEntered choice.handlers [0, 9, 10] choiceCode choiceTyping := by
  rintro pre l ⟨⟨post, h⟩, -⟩ hfall
  obtain ⟨n, hn, rfl, hi, rfl⟩ := choice_split h
  have honly : ∀ n < 8, fallsThrough [0, 9, 10] (choiceCode.take n) true = false → n = 5 := by
    decide
  obtain rfl := honly n hn hfall
  cases hi
  exact .inr
    (.inl ⟨choiceCode.take 2, ⟨2, .ifZero .eq 9⟩, ⟨⟨_, rfl⟩, .inr rfl⟩, by decide, by decide⟩)

theorem stack_layouts_agree_choice :
    (∀ e t, Generator.alone.body choiceClass choice { exporter := ⟨.none, [], 0⟩ } = (.error e, t) →
      ∀ fault, e.cause ≠ .fault fault) ∧
    ∃ last f f₁ t,
      Generator.alone.pass choiceClass choice [0, 9, 10] (choiceCode.take 6)
        (Frame.ofHandlers choice.handlers) { exporter := ⟨.none, [], 0⟩ } = (.ok (last, f), t) ∧
      Lower.arrive [0, 9, 10] 10 true false f = .ok ((), f₁) ∧ f₁.layout =
        [.int, .int] ∧ f₁.Settled ∧
      f.Passes f₁ [] [.int, .int] [.label 10] := by
  have h := stack_layouts_agree Generator.alone choiceClass choice choice_decode choice_labels
    choice_typing choice_entered { exporter := ⟨.none, [], 0⟩ }
  obtain ⟨-, hturn⟩ := h.2 (choiceCode.take 6) ⟨10, .arith .add .int⟩ _ rfl (.inr rfl)
  obtain ⟨f₁, harrive, hlayout, hsettled, hpasses, -⟩ := hturn _ _ _ rfl
  exact ⟨h.1, _, _, f₁, _, rfl, harrive, hlayout, hsettled (by decide), hpasses (by decide) rfl⟩

end ClassScript
