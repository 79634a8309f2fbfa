import ClassScript.Method.Resolve
import Mathlib.Data.List.Forall2
import Mathlib.Tactic.Lemma

/-!
Running computations that may fail, step by step.

Look-ups, queries and generation all take a state to a result and a state, or fail and leave
a state behind. `Ends` says what holds in either case; its rules follow the steps of which
such computations are made.
-/

namespace ClassScript

section

variable {ε σ α β : Type}

/-- From the state `s` the computation ends with a result in `Q`, or fails with an error in
`E`, and with it comes the state that it leaves. -/
structure Ends (x : ExceptT ε (StateM σ) α) (s : σ) (Q : α → σ → Prop) (E : ε → σ → Prop) :
    Prop where
  ok : ∀ {a t}, x s = (.ok a, t) → Q a t
  error : ∀ {e t}, x s = (.error e, t) → E e t

lemma bind_ok {x : ExceptT ε (StateM σ) α} {k : α → ExceptT ε (StateM σ) β} {s t : σ} {a : α}
    (h : x s = (.ok a, t)) : (x >>= k) s = k a t := by
  simp [bind, ExceptT.bind, ExceptT.mk, StateT.bind, h, ExceptT.bindCont]

lemma bind_error {x : ExceptT ε (StateM σ) α} {k : α → ExceptT ε (StateM σ) β} {s t : σ} {e : ε}
    (h : x s = (.error e, t)) : (x >>= k) s = (.error e, t) := by
  simp only [bind, ExceptT.bind, ExceptT.mk, StateT.bind, h, ExceptT.bindCont]
  rfl

/-- A sequence that succeeds does so step by step. -/
lemma bind_eq_ok {x : ExceptT ε (StateM σ) α} {k : α → ExceptT ε (StateM σ) β} {s u : σ} {b : β}
    (h : (x >>= k) s = (.ok b, u)) : ∃ a t, x s = (.ok a, t) ∧ k a t = (.ok b, u) := by
  rcases hx : x s with ⟨e | a, t⟩
  · rw [bind_error hx] at h
    cases h
  · exact ⟨a, t, rfl, (bind_ok hx).symm.trans h⟩

/-- What each step of a list of them ensures. -/
lemma mapM_eq_ok {k : α → ExceptT ε (StateM σ) β} {R : α → β → Prop}
    (hk : ∀ a b s t, k a s = (.ok b, t) → R a b) {l : List α} {bs : List β} {s u : σ}
    (h : l.mapM k s = (.ok bs, u)) : List.Forall₂ R l bs := by
  induction l generalizing bs s with
  | nil =>
    cases h
    exact .nil
  | cons a l ih =>
    rw [List.mapM_cons] at h
    obtain ⟨b, t, hb, h⟩ := bind_eq_ok h
    obtain ⟨bs', t', hbs, h⟩ := bind_eq_ok h
    cases h
    exact .cons (hk a b s t hb) (ih hbs)

namespace Ends

variable {x : ExceptT ε (StateM σ) α} {s t : σ} {Q Q' : α → σ → Prop} {E E' : ε → σ → Prop}

lemma of_ok {a : α} (h : x s = (.ok a, t)) (hQ : Q a t) : Ends x s Q E where
  ok h' := by
    cases h.symm.trans h'
    exact hQ
  error h' := by cases h.symm.trans h'

lemma of_error {e : ε} (h : x s = (.error e, t)) (hE : E e t) : Ends x s Q E where
  ok h' := by cases h.symm.trans h'
  error h' := by
    cases h.symm.trans h'
    exact hE

lemma pure {a : α} (h : Q a s) : Ends (Pure.pure a) s Q E := of_ok rfl h

lemma mono (h : Ends x s Q E) (hQ : ∀ a t, Q a t → Q' a t) (hE : ∀ e t, E e t → E' e t) :
    Ends x s Q' E' :=
  ⟨fun hx => hQ _ _ (h.ok hx), fun hx => hE _ _ (h.error hx)⟩

/-- One step, then the rest from wherever the step has led. -/
lemma bind {k : α → ExceptT ε (StateM σ) β} {R : β → σ → Prop} (h : Ends x s Q E)
    (hk : ∀ a t, Q a t → Ends (k a) t R E) : Ends (x >>= k) s R E := by
  rcases hx : x s with ⟨_ | a, t⟩
  · exact of_error (bind_error hx) (h.error hx)
  · have hrest := hk a t (h.ok hx)
    exact ⟨fun hy => hrest.ok ((bind_ok hx).symm.trans hy),
      fun hy => hrest.error ((bind_ok hx).symm.trans hy)⟩

/-- A step that cannot fail. -/
lemma bind_of_ok {k : α → ExceptT ε (StateM σ) β} {R : β → σ → Prop} {a : α} (h : x s = (.ok a, t))
    (hk : Ends (k a) t R E) : Ends (x >>= k) s R E :=
  bind (Q := fun a' t' => a' = a ∧ t' = t) (of_ok h ⟨rfl, rfl⟩) fun _ _ h => by
    obtain ⟨rfl, rfl⟩ := h
    exact hk

/-- A step that cannot but fail. -/
lemma bind_of_error {k : α → ExceptT ε (StateM σ) β} {R : β → σ → Prop} {e : ε}
    (h : x s = (.error e, t)) (hE : E e t) : Ends (x >>= k) s R E :=
  of_error (bind_error h) hE

/-- The same step for every member of a list, each keeping `I`. -/
lemma mapM {k : α → ExceptT ε (StateM σ) β} {l : List α} {I : σ → Prop}
    (h : ∀ a ∈ l, ∀ s, I s → Ends (k a) s (fun _ t => I t) E) (hs : I s) :
    Ends (l.mapM k) s (fun _ t => I t) E := by
  induction l generalizing s with
  | nil => exact .pure hs
  | cons a l ih =>
    rw [List.mapM_cons]
    refine .bind (h a List.mem_cons_self s hs) fun b t ht => ?_
    exact .bind (ih (fun a' ha' => h a' (List.mem_cons_of_mem _ ha')) ht) fun _ _ ht' => .pure ht'

end Ends

end

variable {α β : Type}

namespace Generation

/-- A question changes what is known and nothing else, and fails only where a class cannot be
loaded. -/
lemma ask_ends (site : Site) (q : Query α) (s : Session) :
    Ends (ask site q) s (fun a t => ∃ k, q s.knowledge = (.ok a, k) ∧ t = { s with knowledge := k })
      fun e _ => ∃ cause, e = ⟨site, .load cause⟩ := by
  rcases hq : q s.knowledge with ⟨cause | a, k⟩
  · refine .of_error (t := { s with knowledge := k }) (e := ⟨site, .load cause⟩) ?_ ⟨cause, rfl⟩
    rw [ask, hq]
    rfl
  · refine .of_ok (t := { s with knowledge := k }) (a := a) ?_ ⟨k, rfl, rfl⟩
    rw [ask, hq]
    rfl

lemma liftExcept_ok {ε : Type} {r : Except ε α} {a : α} (h : r = .ok a) (site : Site)
    (cause : ε → Cause) (s : Session) : liftExcept site cause r s = (.ok a, s) := by
  rw [h]
  rfl

lemma liftExcept_eq_ok {ε : Type} {r : Except ε α} {a : α} {site : Site} {cause : ε → Cause}
    {s t : Session} (h : liftExcept site cause r s = (.ok a, t)) : r = .ok a ∧ t = s := by
  cases r with
  | error e => cases h
  | ok a' =>
    cases h
    exact ⟨rfl, rfl⟩

end Generation

namespace Emission

lemma bind_ok {x : Emission α} {k : α → Emission β} {f f' : Frame} {s t : Session} {a : α}
    (h : x f s = (.ok (a, f'), t)) : (x >>= k) f s = k a f' t :=
  ClassScript.bind_ok h

/-- A step that needs no other class leaves the session as it is. -/
lemma lower_ok {w : Site} {x : Lower α} {f f' : Frame} {s : Session} {a : α}
    (h : x f = .ok (a, f')) : lower w x f s = (.ok (a, f'), s) := by
  rw [lower, h]
  rfl

lemma lower_error {w : Site} {x : Lower α} {f : Frame} {s : Session} {e : Fault}
    (h : x f = .error e) :
    lower w x f s = (.error ⟨w, .fault e⟩, s) := by
  rw [lower, h]
  rfl

lemma bind_eq_ok {x : Emission α} {k : α → Emission β} {f : Frame} {s u : Session} {r : β × Frame}
    (h : (x >>= k) f s = (.ok r, u)) :
    ∃ a f' t, x f s = (.ok (a, f'), t) ∧ k a f' t = (.ok r, u) := by
  obtain ⟨⟨a, f'⟩, t, hx, hk⟩ := ClassScript.bind_eq_ok h
  exact ⟨a, f', t, hx, hk⟩

lemma lower_eq_ok {w : Site} {x : Lower α} {f : Frame} {s t : Session} {r : α × Frame}
    (h : lower w x f s = (.ok r, t)) : x f = .ok r ∧ t = s :=
  Generation.liftExcept_eq_ok h

end Emission

/-- A generator that has no class in view. -/
def Generator.alone : Generator := ⟨⟨⟨fun _ => .ok none, 0⟩, ⟨[], []⟩⟩, ⟨.standalone, []⟩⟩

end ClassScript
