import ClassScript.Proofs.DeclaredVariables
import ClassScript.Proofs.DescriptorGrammar

/-!
The slots of parameters.

Parameters fill local slots one after another, after `this` if there is one. The slots are counted
in sixteen bits, so the numbers are right, and the variables of parameters differ, as long as the
count stays below the limit. It does for descriptors of up to 32770 bytes. Longer ones are read as
well, and with enough parameters of two slots the count starts again at zero.
-/

namespace ClassScript

namespace Function

/-! ### Counting -/

/-- How many slots `this` and parameters fill. -/
def occupied (isStatic : Bool) (ts : List ValueType) : Nat :=
  (if isStatic then 0 else 1) + (ts.map (·.slots.toNat)).sum

/-- The number of the next slot, as it is counted. -/
def counted (isStatic : Bool) (ts : List ValueType) : UInt16 :=
  ts.foldl (fun n t => n + t.slots) (if isStatic then 0 else 1)

variable {isStatic : Bool} {ts : List ValueType} {t : ValueType}

/-- The count is the exact number but for multiples of the limit. -/
lemma toNat_foldl (n : UInt16) (ts : List ValueType) :
    (ts.foldl (fun n t => n + t.slots) n).toNat =
    (n.toNat + (ts.map (·.slots.toNat)).sum) % 2 ^ 16 := by
  induction ts generalizing n with
  | nil => exact (Nat.mod_eq_of_lt n.toNat_lt).symm
  | cons t ts ih =>
    rw [List.foldl_cons, ih, UInt16.toNat_add, Nat.mod_add_mod, Nat.add_assoc,
      List.map_cons, List.sum_cons]

lemma toNat_counted (isStatic : Bool) (ts : List ValueType) :
    (counted isStatic ts).toNat = occupied isStatic ts % 2 ^ 16 := by
  rw [counted, toNat_foldl, occupied]
  cases isStatic <;> rfl

lemma occupied_append (isStatic : Bool) (ts us : List ValueType) :
    occupied isStatic (ts ++ us) = occupied isStatic ts + occupied true us := by
  simp only [occupied, List.map_append, List.sum_append, if_true]
  omega

lemma occupied_take_le (isStatic : Bool) (ts : List ValueType) (i : Nat) :
    occupied isStatic (ts.take i) ≤ occupied isStatic ts := by
  have happend := occupied_append isStatic (ts.take i) (ts.drop i)
  rw [List.take_append_drop] at happend
  omega

/-- As long as all slots have a number, they are counted right. -/
lemma toNat_counted_take (h : occupied isStatic ts < 2 ^ 16) (i : Nat) :
    (counted isStatic (ts.take i)).toNat = occupied isStatic (ts.take i) := by
  rw [toNat_counted]
  exact Nat.mod_eq_of_lt (Nat.lt_of_le_of_lt (occupied_take_le isStatic ts i) h)

/-- Values fill one slot or two. -/
lemma slots_bounds (h : t ≠ .void) : 1 ≤ t.slots.toNat ∧ t.slots.toNat ≤ 2 := by
  cases t with
  | void => exact absurd rfl h
  | _ => simp [ValueType.slots]

lemma exists_kind (h : t ≠ .void) : ∃ k, t.kind? = some k := by
  cases t with
  | void => exact absurd rfl h
  | _ => exact ⟨_, rfl⟩

lemma occupied_le (h : ∀ t ∈ ts, t ≠ .void) : occupied isStatic ts ≤ 1 + 2 * ts.length := by
  induction ts with
  | nil => cases isStatic <;> decide
  | cons t ts ih =>
    obtain ⟨ht, hts⟩ := List.forall_mem_cons.mp h
    have htwo := (slots_bounds ht).2
    have hrest := ih hts
    simp only [occupied, List.map_cons, List.sum_cons, List.length_cons] at hrest ⊢
    omega

/-! ### Descriptors -/

/-- A parameter takes a byte at least. -/
lemma length_le_countBytes (ts : List ValueType) :
    ts.length ≤ ValueType.countBytes (ts.flatMap ValueType.chars) := by
  induction ts with
  | nil => exact Nat.zero_le _
  | cons t ts ih =>
    obtain ⟨c, cs, hchars⟩ := t.exists_chars_eq
    have hpos := c.utf8Size_pos
    rw [List.flatMap_cons, ValueType.countBytes_append, hchars, ValueType.countBytes,
      List.length_cons]
    omega

/-- Parentheses and a result are around the parameters. -/
lemma params_length_add_three_le (s : Signature) :
    s.params.length + 3 ≤ s.descriptor.utf8ByteSize := by
  have hparams := length_le_countBytes s.params
  have hresult := length_le_countBytes [s.result]
  rw [List.flatMap_singleton, List.length_singleton] at hresult
  have hopen : '('.utf8Size = 1 := rfl
  have hclose : ')'.utf8Size = 1 := rfl
  rw [← ValueType.countBytes_toList, Signature.toList_descriptor, Signature.chars, List.cons_append,
    ValueType.countBytes, ValueType.countBytes_append, ValueType.countBytes]
  omega

lemma occupied_lt {s : Signature} (h : ∀ t ∈ s.params, t ≠ .void)
    (hbytes : s.descriptor.utf8ByteSize ≤ 32770) :
    occupied isStatic s.params < 2 ^ 16 := by
  have hlength := params_length_add_three_le s
  have hle : occupied isStatic s.params ≤ 1 + 2 * s.params.length := occupied_le h
  omega

/-! ### Variables -/

/-- Each parameter gets the variable of the slot that is counted for it. -/
lemma bindParams_eq (h : ∀ t ∈ ts, t ≠ .void) (i : Nat) (slot : UInt16) :
    ∃ bs : List (Var × String), bindParams i slot ts = .ok bs ∧ bs.length = ts.length ∧
      ∀ (j : Nat) (t : ValueType), ts[j]? = some t → ∃ k : Kind, t.kind? = some k ∧
        bs[j]? =
          some (Var.slot k ((ts.take j).foldl (fun n t => n + t.slots) slot), s!"arg{i + j}") := by
  induction ts generalizing i slot with
  | nil => exact ⟨[], rfl, rfl, by simp⟩
  | cons t ts ih =>
    obtain ⟨ht, hts⟩ := List.forall_mem_cons.mp h
    obtain ⟨k, hk⟩ := exists_kind ht
    obtain ⟨bs, hbs, hlength, hall⟩ := ih hts (i + 1) (slot + t.slots)
    refine ⟨(.slot k slot, s!"arg{i}") :: bs, ?_, congrArg (· + 1) hlength, fun j u hu => ?_⟩
    · rw [bindParams, hk, hbs]
      rfl
    · cases j with
      | zero =>
        cases hu
        exact ⟨k, hk, rfl⟩
      | succ j =>
        obtain ⟨l, hl, hget⟩ := hall j u hu
        rw [Nat.add_right_comm] at hget
        exact ⟨l, hl, hget⟩

/-- The slots of parameters rise, so that no variable is bound twice. -/
lemma bindParams_rising {i : Nat} {slot : UInt16} {bs : List (Var × String)}
    (hbs : bindParams i slot ts = .ok bs) (h : ∀ t ∈ ts, t ≠ .void)
    (hfits : slot.toNat + (ts.map (·.slots.toNat)).sum < 2 ^ 16) :
    (∀ b ∈ bs, ∃ k n, b.1 = .slot k n ∧ slot.toNat ≤ n.toNat) ∧
    (bs.map fun b => b.1.name).Nodup := by
  induction ts generalizing i slot bs with
  | nil =>
    cases hbs
    exact ⟨by simp, .nil⟩
  | cons t ts ih =>
    obtain ⟨ht, hts⟩ := List.forall_mem_cons.mp h
    obtain ⟨k, hk⟩ := exists_kind ht
    have hone := (slots_bounds ht).1
    rw [List.map_cons, List.sum_cons] at hfits
    -- the sum of all widths fits, so that no slot wraps around
    have hnext : (slot + t.slots).toNat = slot.toNat + t.slots.toNat := by
      rw [UInt16.toNat_add]
      exact Nat.mod_eq_of_lt (by omega)
    rw [bindParams, hk] at hbs
    cases hrest : bindParams (i + 1) (slot + t.slots) ts with
    | error d =>
      rw [hrest] at hbs
      cases hbs
    | ok rest =>
      rw [hrest] at hbs
      cases hbs
      obtain ⟨habove, hnodup⟩ := ih hrest hts (by omega)
      refine ⟨?_, List.nodup_cons.mpr ⟨fun hmem => ?_, hnodup⟩⟩
      · rintro b (_ | ⟨_, hb⟩)
        · exact ⟨k, slot, rfl, Nat.le_refl _⟩
        · obtain ⟨l, n, hvar, hle⟩ := habove b hb
          exact ⟨l, n, hvar, by omega⟩
      · obtain ⟨b, hb, hname⟩ := List.mem_map.mp hmem
        obtain ⟨l, n, hvar, hle⟩ := habove b hb
        have hsame := Var.name_injective hname
        rw [hvar] at hsame
        cases hsame
        omega

lemma bindings_eq (h : ∀ t ∈ ts, t ≠ .void) (isStatic : Bool) :
    ∃ bs : List (Var × String), bindings isStatic ts = .ok bs ∧
      bs.length = ts.length + (if isStatic then 0 else 1) ∧
      ∀ (i : Nat) (t : ValueType), ts[i]? = some t → ∃ k : Kind, t.kind? = some k ∧
        bs[i + if isStatic then 0 else 1]? =
          some (Var.slot k (counted isStatic (ts.take i)), s!"arg{i}") := by
  cases isStatic with
  | true =>
    obtain ⟨bs, hbs, hlength, hall⟩ := bindParams_eq h 0 0
    refine ⟨bs, hbs, hlength, fun i t ht => ?_⟩
    obtain ⟨k, hk, hget⟩ := hall i t ht
    rw [Nat.zero_add] at hget
    exact ⟨k, hk, hget⟩
  | false =>
    obtain ⟨bs, hbs, hlength, hall⟩ := bindParams_eq h 0 1
    refine ⟨(.slot .ref 0, "this") :: bs, ?_, congrArg (· + 1) hlength, fun i t ht => ?_⟩
    · rw [bindings, hbs]
      rfl
    · obtain ⟨k, hk, hget⟩ := hall i t ht
      rw [Nat.zero_add] at hget
      exact ⟨k, hk, hget⟩

lemma bindings_nodup {bs : List (Var × String)} (hbs : bindings isStatic ts = .ok bs)
    (h : ∀ t ∈ ts, t ≠ .void) (hfits : occupied isStatic ts < 2 ^ 16) :
    (bs.map fun b => b.1.name).Nodup := by
  cases isStatic with
  | true => exact (bindParams_rising hbs h hfits).2
  | false =>
    rw [bindings] at hbs
    cases hparams : bindParams 0 1 ts with
    | error d =>
      rw [hparams] at hbs
      cases hbs
    | ok params =>
      rw [hparams] at hbs
      cases hbs
      -- `this` is in slot zero, below all parameters
      obtain ⟨habove, hnodup⟩ := bindParams_rising hparams h hfits
      refine List.nodup_cons.mpr ⟨fun hmem => ?_, hnodup⟩
      obtain ⟨b, hb, hname⟩ := List.mem_map.mp hmem
      obtain ⟨l, n, hvar, hle⟩ := habove b hb
      have hsame := Var.name_injective hname
      rw [hvar] at hsame
      cases hsame
      exact absurd hle (by decide)

/-- Generated code starts with these variables. -/
lemma bindings_of_function {g : Generator} {c : ClassDecl} {m : MethodDecl} {st st' : Session}
    {f : Function} {bound : List (Var × String)} {declared : List Var} {body : Body} {s : Signature}
    (h : g.function c m st = (.ok f, st')) (hf : f.body = .code bound declared body)
    (hs : Signature.ofDescriptor? m.descriptor = some s) :
    bindings m.isStatic s.params = .ok bound := by
  obtain ⟨signature, used, u, v, hsignature, hbound, -, -⟩ := Generator.code_of_function h hf
  rw [MethodDecl.signature, hs] at hsignature
  cases hsignature
  exact hbound

/-- **Parameters have the slots that the sizes before them give**, and variables of their own, if
all slots can be numbered in sixteen bits. They can for descriptors of up to 32770 bytes; and what
is counted for the parameters is their size only if they can. Whether or not they can, generated
code has a variable for each parameter, by the slot that is counted for it. -/
theorem parameter_slots_exact {text : String} {s : Signature}
    (h : Signature.ofDescriptor? text = some s) (isStatic : Bool) :
    (text.utf8ByteSize ≤ 32770 → occupied isStatic s.params < 2 ^ 16) ∧
    (s.paramSlots.toNat = occupied true s.params ↔ occupied true s.params < 2 ^ 16) ∧
    ∃ bs : List (Var × String), bindings isStatic s.params = .ok bs ∧
      bs.length = s.params.length + (if isStatic then 0 else 1) ∧
      (∀ (i : Nat) (t : ValueType), s.params[i]? = some t → ∃ k : Kind, t.kind? = some k ∧
        bs[i + if isStatic then 0 else 1]? =
          some (Var.slot k (counted isStatic (s.params.take i)), s!"arg{i}")) ∧
      (∀ (g : Generator) (c : ClassDecl) (m : MethodDecl) (st st' : Session) (f : Function)
        (bound : List (Var × String)) (declared : List Var) (body : Body), m.descriptor = text →
          m.isStatic = isStatic →
          g.function c m st = (.ok f, st') → f.body = .code bound declared body → bound = bs) ∧
      (occupied isStatic s.params < 2 ^ 16 →
        (∀ i, (counted isStatic (s.params.take i)).toNat = occupied isStatic (s.params.take i)) ∧
        (bs.map fun b => b.1.name).Nodup) := by
  obtain ⟨hlegal, htext⟩ := Signature.ofDescriptor?_eq_some_iff.mp h
  have hvoid : ∀ t ∈ s.params, t ≠ .void := fun t ht => (hlegal.params t ht).1
  have hcounted : s.paramSlots.toNat = occupied true s.params % 2 ^ 16 :=
    toNat_counted true s.params
  obtain ⟨bs, hbs, hlength, hall⟩ := bindings_eq hvoid isStatic
  refine ⟨?_, ?_, bs, hbs, hlength, hall, ?_, fun hfits => ⟨toNat_counted_take hfits, ?_⟩⟩
  · rw [htext]
    exact occupied_lt hvoid
  · rw [hcounted]
    exact Nat.mod_eq_iff_lt (by decide)
  · rintro g c m st st' f bound declared body rfl rfl hfunction hbody
    exact Except.ok.inj ((bindings_of_function hfunction hbody h).symm.trans hbs)
  · exact bindings_nodup hbs hvoid hfits

def mixed : MethodDecl := { juggling with
  descriptor := "(IJLa/B;D)V"
  access := 1
  code := some {
    maxStack := 0
    maxLocals := 7
    bytes := [0xb1]
    handlers := []
    attributes := [] } }

theorem parameter_slots_exact_mixed :
    Signature.ofDescriptor? mixed.descriptor = some ⟨[.int, .long, .object "a/B", .double], .void⟩ ∧
    mixed.descriptor.utf8ByteSize ≤ 32770 ∧
    (counted false [.int, .long, .object "a/B"]).toNat = occupied false
    [.int, .long, .object "a/B"] ∧
    ∃ (f : Function) (t : Session) (bound : List (Var × String))
      (declared : List Var) (body : Body),
      Generator.alone.function juggler mixed { exporter := .start .none } = (.ok f, t) ∧
      f.body = .code bound declared body ∧
      bound[4]? = some (Var.slot .double (counted false [.int, .long, .object "a/B"]), "arg3") ∧
      (bound.map fun b => b.1.name).Nodup := by
  have hread : Signature.ofDescriptor? mixed.descriptor =
      some ⟨[.int, .long, .object "a/B", .double], .void⟩ := by
    decide +kernel
  have hsize : mixed.descriptor.utf8ByteSize ≤ 32770 := by decide +kernel
  have hseen : (Generator.alone.function juggler mixed { exporter := .start .none }).1.toOption.map
      (·.body.mentioned.1) = some ["lcA0", "lcI1", "lcL2", "lcA4", "lcD5"] := by
    decide +kernel
  obtain ⟨hfits, -, bs, -, -, hall, hcode, hexact⟩ := parameter_slots_exact hread false
  obtain ⟨hcounted, hnodup⟩ := hexact (hfits hsize)
  obtain ⟨k, hk, hget⟩ := hall 3 .double rfl
  cases hk
  rcases hrun : Generator.alone.function juggler mixed { exporter := .start .none } with ⟨_ | f, t⟩
  · rw [hrun] at hseen
    cases hseen
  · cases hbody : f.body with
    | code bound declared body =>
      obtain rfl := hcode _ _ _ _ _ _ _ _ _ rfl rfl hrun hbody
      exact ⟨hread, hsize, hcounted 3, f, t, bound, declared, body, rfl, hbody, hget, hnodup⟩
    | script | missing =>
      rw [hrun] at hseen
      have hnames : f.body.mentioned.1 = ["lcA0", "lcI1", "lcL2", "lcA4", "lcD5"] :=
        Option.some.inj hseen
      rw [hbody] at hnames
      cases hnames

/-! ### Too many slots -/

def longs (n : Nat) : Signature := ⟨.replicate n .long, .void⟩

lemma longs_legal (n : Nat) : (longs n).Legal where
  result := trivial
  params t ht := by
    obtain rfl := List.eq_of_mem_replicate ht
    exact ⟨by decide, trivial⟩
  closed := by
    rw [Signature.closed_iff]
    intro t ht name hname
    obtain rfl := List.eq_of_mem_replicate ht
    cases hname

lemma utf8ByteSize_longs (n : Nat) : (longs n).descriptor.utf8ByteSize = n + 3 := by
  have hparams :
      ValueType.countBytes ((List.replicate n ValueType.long).flatMap ValueType.chars) = n := by
    induction n with
    | zero => rfl
    | succ n ih =>
      rw [List.replicate_succ, List.flatMap_cons, ValueType.countBytes_append, ih]
      exact Nat.add_comm 1 n
  rw [← ValueType.countBytes_toList, Signature.toList_descriptor, Signature.chars, List.cons_append,
    ValueType.countBytes, ValueType.countBytes_append, longs, hparams]
  exact Nat.add_comm 1 (n + 2)

lemma occupied_longs (n : Nat) : occupied true (.replicate n .long) = 2 * n := by
  rw [occupied, List.map_replicate, List.sum_replicate]
  exact (Nat.zero_add _).trans (Nat.mul_comm n 2)

lemma counted_longs (n : Nat) : counted true (.replicate n .long) = .ofNat (2 * n) := by
  rw [← UInt16.toNat_inj, toNat_counted, occupied_longs, UInt16.toNat_ofNat']

/-- The variable of each parameter. -/
lemma bindings_longs (n : Nat) :
    ∃ bs : List (Var × String), bindings true (longs n).params = .ok bs ∧
      ∀ i < n, bs[i]? = some (Var.slot .long (.ofNat (2 * i)), s!"arg{i}") := by
  have hvoid : ∀ t ∈ (longs n).params, t ≠ .void := fun t ht => ((longs_legal n).params t ht).1
  obtain ⟨bs, hbs, -, hall⟩ := bindings_eq hvoid true
  refine ⟨bs, hbs, fun i hi => ?_⟩
  obtain ⟨k, hk, hget⟩ := hall i .long (List.getElem?_replicate_of_lt hi)
  cases hk
  rwa [longs, List.take_replicate, Nat.min_eq_left (Nat.le_of_lt hi), counted_longs] at hget

/-- With 32769 of them there are two slots more than can be numbered, and the first parameter and
the last share a variable. -/
theorem parameter_slots_overflow :
    Signature.ofDescriptor? (longs 32769).descriptor = some (longs 32769) ∧
    (longs 32769).descriptor.utf8ByteSize ≤ 65535 ∧ occupied true
    (longs 32769).params = 2 ^ 16 + 2 ∧
    (longs 32769).paramSlots = 2 ∧
    ∃ bs : List (Var × String), bindings true (longs 32769).params = .ok bs ∧
      bs[0]? = some (Var.slot .long 0, "arg0") ∧
      bs[32768]? = some (Var.slot .long 0, "arg32768") := by
  obtain ⟨bs, hbs, hall⟩ := bindings_longs 32769
  refine ⟨Signature.ofDescriptor?_eq_some_iff.mpr ⟨longs_legal _, rfl⟩, ?_, occupied_longs 32769,
    counted_longs 32769, bs, hbs, hall 0 (by decide), hall 32768 (by decide)⟩
  rw [utf8ByteSize_longs]
  decide

end Function

end ClassScript
