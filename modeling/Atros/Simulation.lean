import Atros.Program

namespace Atros
set_option autoImplicit true

/-! Two programs that do the same, on states that `Rep` relates to each other. -/

section
variable {σ τ α β ε : Type} {Rep : σ → τ → Prop} {s : σ} {t : τ}

/-- The two outcomes are the same result in related states, or the same fault. -/
def SameOutcome (Rep : σ → τ → Prop) (r : Except ε (α × σ)) : Except ε (α × τ) → Prop
  | .ok (a, t) => ∃ s, r = .ok (a, s) ∧ Rep s t
  | .error e => r = .error e

/-- From every state that stands for `t`, `x` does what `y` does. -/
def Simulates (Rep : σ → τ → Prop) (x : Prog ε σ α) (y : Prog ε τ α) (t : τ) : Prop :=
  ∀ s, Rep s t → SameOutcome Rep (x s) (y t)

theorem SameOutcome.of_ok {r : Except ε (α × σ)} {r' : Except ε (α × τ)} (hr' : r' = .ok (a, t))
    (hr : r = .ok (a, s)) (hs : Rep s t) : SameOutcome Rep r r' := by
  subst hr'
  exact ⟨s, hr, hs⟩

theorem SameOutcome.of_error {r : Except ε (α × σ)} {r' : Except ε (α × τ)} (hr' : r' = .error e)
    (hr : r = .error e) : SameOutcome Rep r r' := by
  subst hr'
  exact hr

theorem Simulates.pure (a : α) (t : τ) :
    Simulates Rep (Pure.pure a : Prog ε σ α) (Pure.pure a) t :=
  fun s hs => ⟨s, rfl, hs⟩

theorem SameOutcome.bind {x : Prog ε σ β} {y : Prog ε τ β} {f : β → Prog ε σ α}
    {g : β → Prog ε τ α} {R : σ → τ → Prop} (hx : SameOutcome R (x s) (y t))
    (hf : ∀ b s' t', y t = .ok (b, t') → R s' t' → SameOutcome Rep (f b s') (g b t')) :
    SameOutcome Rep ((x >>= f) s) ((y >>= g) t) := by
  cases hy : y t with
  | error e =>
    rw [hy] at hx
    rw [bind_error hy, bind_error hx]
    rfl
  | ok v =>
    obtain ⟨b, t'⟩ := v
    rw [hy] at hx
    obtain ⟨s', hs', hrep⟩ := hx
    rw [bind_ok hy, bind_ok hs']
    exact hf b s' t' hy hrep

/-- The sequencing rule. -/
theorem Simulates.bind {x : Prog ε σ β} {y : Prog ε τ β} {f : β → Prog ε σ α}
    {g : β → Prog ε τ α} (hx : Simulates Rep x y t)
    (hf : ∀ b t', y t = .ok (b, t') → Simulates Rep (f b) (g b) t') :
    Simulates Rep (x >>= f) (y >>= g) t := fun s hs =>
  (hx s hs).bind fun b s' t' hy hrep => hf b t' hy s' hrep

theorem Simulates.check [Decidable p] {e : ε} {f : Unit → Prog ε σ α} {g : Unit → Prog ε τ α}
    (hf : p → Simulates Rep (f ()) (g ()) t) :
    Simulates Rep (Atros.check p e >>= f) (Atros.check p e >>= g) t := by
  intro s hs
  by_cases hp : p
  · rw [bind_ok (check_ok hp), bind_ok (check_ok hp)]
    exact hf hp s hs
  · rw [bind_error (check_error hp), bind_error (check_error hp)]
    rfl

theorem Simulates.ite [Decidable p] {x x' : Prog ε σ α} {y y' : Prog ε τ α}
    (hx : p → Simulates Rep x y t) (hx' : ¬p → Simulates Rep x' y' t) :
    Simulates Rep (if p then x else x') (if p then y else y') t := by
  split
  · exact hx ‹_›
  · exact hx' ‹_›

end

end Atros
