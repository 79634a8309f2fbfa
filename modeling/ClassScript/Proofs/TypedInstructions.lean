import ClassScript.Proofs.StraightCode

/-!
Typed instructions are translated.

Where the kinds on the stack are those that an instruction takes, and what it names in the
constant pool resolves, its code can be generated, and the frame then has the kinds that the
instruction leaves. Only the search for a class can still fail.
-/

namespace ClassScript

/-- Generation stopped at a site for a class that could not be loaded. -/
def GenerationError.IsLoad (site : Site) (e : GenerationError) : Prop :=
  ∃ cause, e = ⟨site, .load cause⟩

namespace Typing

lemma resolve_eq_some {ε α : Type} {r : Except ε α} {a : α} : resolve r = some a ↔ r = .ok a := by
  cases r with
  | error e => simp [resolve]
  | ok b => simp [resolve]

lemma fieldKind_eq_some {p : ConstantPool} {i : UInt16} {k : Kind} (h : fieldKind p i = some k) :
    ∃ r, p.memberRef i = .ok r ∧
      (ValueType.ofDescriptor? r.descriptor).bind ValueType.kind? = some k := by
  obtain ⟨r, hr, hk⟩ := Option.bind_eq_some_iff.mp h
  exact ⟨r, resolve_eq_some.mp hr, hk⟩

lemma length_of_mapM {α β : Type} {k : α → Option β} {l : List α} {r : List β}
    (h : l.mapM k = some r) : r.length = l.length := by
  induction l generalizing r with
  | nil =>
    cases h
    rfl
  | cons a l ih =>
    rw [List.mapM_cons] at h
    obtain ⟨b, -, h⟩ := Option.bind_eq_some_iff.mp h
    obtain ⟨bs, hbs, h⟩ := Option.bind_eq_some_iff.mp h
    cases h
    rw [List.length_cons, List.length_cons, ih hbs]

end Typing

namespace Generator

open Generation Lower Typing

variable {α β : Type} {g : Generator} {w : Site} {p : ConstantPool} {f : Frame} {s : Session}
  {ks : List Kind}

lemma lift_bind {x : Generation α} {k : α → Emission β} {Q : α → Session → Prop}
    {R : β × Frame → Session → Prop} {E : GenerationError → Session → Prop} (h : Ends x s Q E)
    (hk : ∀ a t, Q a t → Ends (k a f) t R E) : Ends ((liftM x >>= k : Emission β) f) s R E := by
  have hx : Ends ((liftM x : Emission α) f) s (fun r t => r.2 = f ∧ Q r.1 t) E :=
    Ends.bind h fun a t hQ => .pure ⟨rfl, hQ⟩
  refine Ends.bind hx fun r t hr => ?_
  obtain ⟨a, f'⟩ := r
  obtain ⟨rfl, hQ⟩ := hr
  exact hk a t hQ

lemma lift_bind_ok {x : Generation α} {k : α → Emission β} {t : Session} {a : α}
    {R : β × Frame → Session → Prop} {E : GenerationError → Session → Prop} (h : x s = (.ok a, t))
    (hk : Ends (k a f) t R E) : Ends ((liftM x >>= k : Emission β) f) s R E :=
  lift_bind (Q := fun a' t' => a' = a ∧ t' = t) (.of_ok h ⟨rfl, rfl⟩) fun _ _ h => by
    obtain ⟨rfl, rfl⟩ := h
    exact hk

lemma lower_bind {x : Lower α} {k : α → Emission β} {a : α} {f' : Frame}
    {R : β × Frame → Session → Prop} {E : GenerationError → Session → Prop} (h : x f = .ok (a, f'))
    (hk : Ends (k a f') s R E) : Ends ((Emission.lower w x >>= k) f) s R E :=
  .bind_of_ok (Emission.lower_ok h) hk

/-- The last step of an instruction. -/
lemma lower_advances {x : Lower Unit} {f' : Frame} {targets : List Nat}
    {E : GenerationError → Session → Prop}
    (h : ∃ f'', x f' = .ok ((), f'') ∧ f.Advances f'' ks targets) :
    Ends (Emission.lower w x f') s (fun r _ => f.Advances r.2 ks targets) E := by
  obtain ⟨f'', hx, hadv⟩ := h
  exact .of_ok (Emission.lower_ok hx) hadv

lemma fieldAt_ends {i : UInt16} {k : Kind} (h : fieldKind p i = some k) :
    Ends (g.fieldAt w p i) s (fun u _ => u.kind = k) fun e _ => e.IsLoad w := by
  obtain ⟨r, hr, hk⟩ := fieldKind_eq_some h
  refine .bind_of_ok (liftExcept_ok hr w _ s) ?_
  rw [hk]
  exact .bind (ask_ends w _ s) fun _ _ _ => .pure rfl

lemma staticFieldAt_ends {i : UInt16} {k : Kind} (h : fieldKind p i = some k) :
    Ends (g.staticFieldAt w p i) s (fun place _ => place.2 = k) fun e _ => e.IsLoad w :=
  .bind (fieldAt_ends h) fun _ _ hu => .bind_of_ok rfl (.bind_of_ok rfl (.pure hu))

lemma ldc_advances {index : UInt16} (h : effect p (.ldc index) f.kinds = some ks) :
    Ends (ldc w p index f) s (fun r _ => f.Advances r.2 ks []) fun e _ => e.IsLoad w := by
  rw [effect_ldc] at h
  obtain ⟨l, hl, rfl⟩ := Option.map_eq_some_iff.mp h
  refine lift_bind_ok (liftExcept_ok (resolve_eq_some.mp hl) w _ s) ?_
  cases l with
  | int v | float v | long v | double v | string v =>
    exact lower_advances (pushConst_advances _ rfl)
  | classRef name =>
    dsimp only
    split_ifs
    · exact lower_advances (assign_advances .ref _ rfl)
    · exact lift_bind_ok rfl (lower_advances (assign_advances .ref _ rfl))

/-- A call takes its receiver, if it has one. -/
lemma callOf_ends {kind : InvokeKind} {r : MemberRef} {args : List Atom} {rest : List Entry}
    {below : List Kind}
    (h : rest.map Entry.kind = (if kind = .static then [] else [Kind.ref]) ++ below) :
    Ends (g.callOf w kind r args { f with stack := rest }) s
      (fun x _ => ∃ rest', x.2 = { f with stack := rest' } ∧ rest'.map Entry.kind = below)
      fun e _ => e.IsLoad w := by
  cases kind with
  | static =>
    exact lift_bind_ok rfl (lift_bind (ask_ends w _ _) fun _ _ _ => .pure ⟨rest, rfl, h⟩)
  | special =>
    obtain ⟨e, rest', rfl, -, hrest⟩ := List.map_eq_cons_iff.mp h
    exact lower_bind (pop_cons rfl) (lift_bind_ok rfl (lift_bind (ask_ends w _ _) fun _ _ _ =>
      .pure ⟨rest', rfl, hrest⟩))
  | virtual | interface =>
    obtain ⟨e, rest', rfl, -, hrest⟩ := List.map_eq_cons_iff.mp h
    refine lower_bind (pop_cons rfl) (lift_bind (ask_ends w _ _) fun dispatch _ _ => ?_)
    cases dispatch with
    | direct => exact lift_bind (ask_ends w _ _) fun _ _ _ => .pure ⟨rest', rfl, hrest⟩
    | invoker => exact lift_bind_ok rfl (.pure ⟨rest', rfl, hrest⟩)

lemma invoke_advances {kind : InvokeKind} {index : UInt16}
    (h : Typing.call p kind index f.kinds = some ks) :
    Ends (g.invoke w p kind index f) s (fun r _ => f.Advances r.2 ks []) fun e _ => e.IsLoad w := by
  obtain ⟨r, hr, h⟩ := Option.bind_eq_some_iff.mp h
  obtain ⟨signature, hsig, h⟩ := Option.bind_eq_some_iff.mp h
  obtain ⟨kinds, hkinds, h⟩ := Option.bind_eq_some_iff.mp h
  obtain ⟨below, hbelow, rfl⟩ := replace_eq_some.mp h
  refine lift_bind_ok (liftExcept_ok (resolve_eq_some.mp hr) w _ s) ?_
  rw [hsig]
  -- the arguments, then what lies below them
  rw [List.append_assoc] at hbelow
  obtain ⟨es, rest, hstack, hes, hrest⟩ := List.map_eq_append_iff.mp hbelow
  have hlen : es.length = signature.params.length := by
    rw [← length_of_mapM hkinds, ← List.length_map, hes, List.length_reverse]
  obtain ⟨args, hargs⟩ := popMany_append hstack
  rw [hlen] at hargs
  refine lower_bind hargs (.bind (callOf_ends hrest) fun x t hx => ?_)
  obtain ⟨e, f'⟩ := x
  obtain ⟨rest', rfl, hrest'⟩ := hx
  cases signature.result.kind? with
  | some k => exact lower_advances (assign_advances k e (by rw [hrest']; rfl))
  | none => exact lower_advances (emit_advances rest' _ hrest')

/-- **A typed instruction is translated: the frame gets the kinds that the typing says, and
only a class that cannot be loaded stops it.** -/
lemma instruction_advances {i : Instruction} (h : effect p i f.kinds = some ks) :
    Ends (g.instruction w p i f) s (fun r _ => f.Advances r.2 ks i.targets)
      fun e _ => e.IsLoad w := by
  cases hi : i.usesPool with
  | false =>
    obtain ⟨f', hrun, hadv⟩ := Lower.instruction_advances hi h
    rw [instruction_eq_lower hi]
    exact .of_ok (Emission.lower_ok hrun) hadv
  | true =>
    cases i with
    | ldc index => exact ldc_advances h
    | getStatic index =>
      obtain ⟨k, hk, rfl⟩ := Option.map_eq_some_iff.mp h
      refine lift_bind (staticFieldAt_ends hk) fun place t hplace => ?_
      obtain ⟨place, _⟩ := place
      cases hplace
      exact lower_advances (assign_advances _ place rfl)
    | putStatic index =>
      obtain ⟨k, hk, h⟩ := Option.bind_eq_some_iff.mp h
      obtain ⟨r, hr, rfl⟩ := replace_eq_some.mp h
      obtain ⟨e, rest, hstack, hrest⟩ := take_one hr
      exact lift_bind (staticFieldAt_ends hk) fun place t _ =>
        lower_bind (pop_cons hstack) (lower_advances (emit_advances rest _ hrest))
    | getField index =>
      obtain ⟨k, hk, h⟩ := Option.bind_eq_some_iff.mp h
      obtain ⟨r, hr, rfl⟩ := replace_eq_some.mp h
      obtain ⟨e, rest, hstack, hrest⟩ := take_one hr
      refine lower_bind (pop_cons hstack) (lift_bind (fieldAt_ends hk) fun u t hu => ?_)
      exact lower_advances (assign_advances u.kind _ (by rw [hu, hrest]; rfl))
    | putField index =>
      obtain ⟨k, hk, h⟩ := Option.bind_eq_some_iff.mp h
      obtain ⟨r, hr, rfl⟩ := replace_eq_some.mp h
      obtain ⟨e, d, rest, hstack, hrest⟩ := take_two hr
      exact lower_bind (pop2_cons hstack) (lift_bind (fieldAt_ends hk) fun u t hu =>
        lower_advances (emit_advances rest _ hrest))
    | invoke kind index => exact invoke_advances h
    | new index =>
      obtain ⟨name, hname, rfl⟩ := Option.map_eq_some_iff.mp h
      exact lift_bind_ok (liftExcept_ok (resolve_eq_some.mp hname) w _ s) (lift_bind_ok rfl
        (lower_advances (assign_advances .ref _ rfl)))
    | newRefArray index =>
      obtain ⟨name, hname, h⟩ := Option.bind_eq_some_iff.mp h
      obtain ⟨r, hr, rfl⟩ := replace_eq_some.mp h
      obtain ⟨e, rest, hstack, hrest⟩ := take_one hr
      exact lift_bind_ok (liftExcept_ok (resolve_eq_some.mp hname) w _ s)
        (lower_bind (pop_cons hstack)
        (lower_advances (assign_advances .ref _ (by rw [hrest]; rfl))))
    | newMultiArray index dimensions =>
      obtain ⟨name, hname, h⟩ := Option.bind_eq_some_iff.mp h
      obtain ⟨r, hr, rfl⟩ := replace_eq_some.mp h
      obtain ⟨es, rest, hstack, hes, hrest⟩ := List.map_eq_append_iff.mp hr
      obtain ⟨counts, hcounts⟩ := popMany_append hstack
      have hlen : es.length = dimensions.toNat := by
        rw [← List.length_map, hes, List.length_replicate]
      rw [hlen] at hcounts
      exact lift_bind_ok (liftExcept_ok (resolve_eq_some.mp hname) w _ s) (lower_bind hcounts
        (lower_advances (assign_advances .ref _ (by rw [hrest]; rfl))))
    | checkCast index =>
      obtain ⟨name, hname, h⟩ := Option.bind_eq_some_iff.mp h
      obtain ⟨r, hr, rfl⟩ := replace_eq_some.mp h
      obtain ⟨e, rest, hstack, hkind, hrest⟩ := Frame.exists_stack_cons hr
      refine lift_bind_ok (liftExcept_ok (resolve_eq_some.mp hname) w _ s) ?_
      split_ifs
      · exact lower_bind (peek_cons hstack) (lower_advances (emit_advances f.stack _ hr))
      · exact .pure (advances_of_layouts hr rfl ⟨[], by simp⟩)
    | instanceOf index =>
      obtain ⟨name, hname, h⟩ := Option.bind_eq_some_iff.mp h
      obtain ⟨r, hr, rfl⟩ := replace_eq_some.mp h
      obtain ⟨e, rest, hstack, hrest⟩ := take_one hr
      exact lift_bind_ok (liftExcept_ok (resolve_eq_some.mp hname) w _ s)
        (lower_bind (pop_cons hstack)
        (lower_advances (assign_advances .int _ (by rw [hrest]; rfl))))
    | _ => cases hi

end Generator

end ClassScript
