import Mathlib.Algebra.Group.Nat.Defs
import Mathlib.Tactic.Common

namespace Atros
set_option autoImplicit true

/-- A program over a state `σ` returns a value and a state, or stops with a fault. -/
abbrev Prog (ε σ α : Type) := StateT σ (Except ε) α

variable {ε σ τ α β : Type} {E E' : ε → Prop} {Q Q' : α → σ → Prop}

/-- Every outcome of a run is covered: a result satisfies `Q`, a fault satisfies `E`. -/
def Ends (E : ε → Prop) (Q : α → σ → Prop) : Except ε (α × σ) → Prop
  | .ok (a, s) => Q a s
  | .error e => E e

instance Ends.decidable [∀ e, Decidable (E e)] [∀ a s, Decidable (Q a s)]
    (r : Except ε (α × σ)) : Decidable (Ends E Q r) :=
  match r with
  | .ok (a, s) => inferInstanceAs (Decidable (Q a s))
  | .error e => inferInstanceAs (Decidable (E e))

theorem Ends.ok (h : Ends E Q r) (hr : r = .ok (a, s)) : Q a s := by
  subst hr
  exact h

theorem Ends.of_eq {r : Except ε (α × σ)} (hr : r = .ok (a, s)) (h : Q a s) : Ends E Q r := by
  rw [hr]
  exact h

theorem Ends.error (h : Ends E Q r) (hr : r = .error e) : E e := by
  subst hr
  exact h

theorem Ends.mono (h : Ends E Q r) (hE : ∀ e, E e → E' e) (hQ : ∀ a s, Q a s → Q' a s) :
    Ends E' Q' r := by
  rcases r with e | ⟨a, s⟩
  · exact hE e h
  · exact hQ a s h

theorem Ends.imp (h : Ends E Q r) (hQ : ∀ a s, Q a s → Q' a s) : Ends E Q' r :=
  h.mono (fun _ he => he) hQ

theorem Ends.of_ok {r : Except ε (α × σ)} (h : ∀ a s, r = .ok (a, s) → Q a s) :
    Ends (fun _ => True) Q r := by
  rcases r with e | ⟨a, s⟩
  · trivial
  · exact h a s rfl

theorem Ends.returns (h : Ends (fun _ => False) Q r) : ∃ a s, r = .ok (a, s) ∧ Q a s := by
  rcases r with e | ⟨a, s⟩
  · exact h.elim
  · exact ⟨a, s, rfl, h⟩

theorem bind_eq (x : Prog ε σ α) (f : α → Prog ε σ β) (s : σ) :
    (x >>= f) s = match x s with
      | .ok (a, s') => f a s'
      | .error e => .error e := by
  change (StateT.bind x f) s = _
  unfold StateT.bind
  cases x s <;> rfl

theorem bind_ok {x : Prog ε σ α} {f : α → Prog ε σ β} (h : x s = .ok (a, s')) :
    (x >>= f) s = f a s' := by
  rw [bind_eq, h]

@[simp] theorem bind_get (f : σ → Prog ε σ β) (s : σ) :
    ((get : Prog ε σ σ) >>= f) s = f s s := rfl

@[simp] theorem bind_pure_ok (a : α) (f : α → Prog ε σ β) (s : σ) :
    ((pure a : Prog ε σ α) >>= f) s = f a s := rfl

@[simp] theorem bind_modify (g : σ → σ) (f : PUnit → Prog ε σ β) (s : σ) :
    ((modify g : Prog ε σ PUnit) >>= f) s = f ⟨⟩ (g s) := rfl

theorem bind_left {x y : Prog ε σ α} {f : α → Prog ε σ β} (h : x s = y s) :
    (x >>= f) s = (y >>= f) s := by
  rw [bind_eq, bind_eq, h]

theorem bind_error {x : Prog ε σ α} {f : α → Prog ε σ β} (h : x s = .error e) :
    (x >>= f) s = .error e := by
  rw [bind_eq, h]

theorem of_bind_ok {x : Prog ε σ α} {f : α → Prog ε σ β} (h : (x >>= f) s = .ok (b, s'')) :
    ∃ a s', x s = .ok (a, s') ∧ f a s' = .ok (b, s'') := by
  rw [bind_eq] at h
  rcases hx : x s with e | ⟨a, s'⟩
  · rw [hx] at h
    cases h
  · rw [hx] at h
    exact ⟨a, s', rfl, h⟩

/-- The sequencing rule. -/
theorem Ends.bind {x : Prog ε σ β} {f : β → Prog ε σ α} (h : Ends E R (x s))
    (hf : ∀ a s', R a s' → Ends E Q (f a s')) : Ends E Q ((x >>= f) s) := by
  rw [bind_eq]
  rcases hx : x s with e | ⟨a, s'⟩
  · exact h.error hx
  · exact hf a s' (h.ok hx)

theorem Ends.step {x : Prog ε σ β} {f : β → Prog ε σ α} (h : x s = .ok (a, s'))
    (hf : Ends E Q (f a s')) : Ends E Q ((x >>= f) s) := by
  rwa [bind_ok h]

/-- Two programs that do the same, and then the same again in every state they can be in. -/
theorem bind_agree {x y : Prog ε σ α} {f g : α → Prog ε σ β} (hxy : x s = y s)
    (hy : Ends (fun _ => True) Q (y s)) (hfg : ∀ a s', Q a s' → f a s' = g a s') :
    (x >>= f) s = (y >>= g) s := by
  rw [bind_eq, bind_eq, hxy]
  rcases hrun : y s with e | ⟨a, s'⟩
  · rfl
  · exact hfg a s' (hy.ok hrun)

/-- A test whose failure is a fault. -/
def check (p : Prop) [Decidable p] (e : ε) : Prog ε σ Unit :=
  if p then pure () else throw e

theorem check_ok [Decidable p] {e : ε} {s : σ} (hp : p) : check p e s = .ok ((), s) := by
  simp only [check, if_pos hp]
  rfl

theorem check_error [Decidable p] {e : ε} {s : σ} (hp : ¬p) :
    check p e s = .error e := by
  simp only [check, if_neg hp]
  rfl

theorem Ends.check [Decidable p] {e : ε} {s : σ} (hE : ¬p → E e) :
    Ends E (fun _ s' => s' = s ∧ p) (Atros.check p e s) := by
  by_cases hp : p
  · rw [check_ok hp]
    exact ⟨rfl, hp⟩
  · rw [check_error hp]
    exact hE hp

theorem Ends.bindCheck [Decidable p] {e : ε} {f : Unit → Prog ε σ α} (hE : ¬p → E e)
    (hf : p → Ends E Q (f () s)) : Ends E Q ((Atros.check p e >>= f) s) := by
  refine Ends.bind (Ends.check hE) ?_
  rintro - s' ⟨rfl, hp⟩
  exact hf hp

/-- The target of a pointer, a fault when the pointer is null. -/
def deref (p : Option α) (e : ε) : Prog ε σ α :=
  match p with
  | some a => pure a
  | none => throw e

@[simp] theorem deref_some {e : ε} {s : σ} : deref (some a) e s = .ok (a, s) := rfl

/-- Run a program on one component of a larger state. -/
def onPart (get : σ → τ) (put : σ → τ → σ) (x : Prog ε τ α) : Prog ε σ α := fun s =>
  match x (get s) with
  | .ok (a, t) => .ok (a, put s t)
  | .error e => .error e

theorem Ends.onPart {get : σ → τ} {put : σ → τ → σ} {x : Prog ε τ α}
    (h : Ends E R (x (get s))) :
    Ends E (fun a s' => ∃ t, R a t ∧ s' = put s t) (Atros.onPart get put x s) := by
  unfold Atros.onPart
  rcases hx : x (get s) with e | ⟨a, t⟩
  · exact h.error hx
  · exact ⟨t, h.ok hx, rfl⟩

theorem onPart_ok {get : σ → τ} {put : σ → τ → σ} {x : Prog ε τ α}
    (h : x (get s) = .ok (a, t)) : onPart get put x s = .ok (a, put s t) := by
  unfold onPart
  rw [h]

theorem of_onPart_ok {get : σ → τ} {put : σ → τ → σ} {x : Prog ε τ α}
    (h : onPart get put x s = .ok (a, s')) :
    ∃ t, x (get s) = .ok (a, t) ∧ s' = put s t := by
  unfold onPart at h
  rcases hx : x (get s) with e | ⟨b, t⟩
  · rw [hx] at h
    cases h
  · rw [hx] at h
    cases h
    exact ⟨t, rfl, rfl⟩

end Atros
