import Mathlib.Logic.Function.Basic

namespace Atros
set_option autoImplicit true

/-! A cache of some values of a function, filled and emptied as the hardware likes. -/

section
variable {K V : Type} {f f' c c' : K → Option V}

/-- An entry of the cache is a value of the function, except perhaps at `k`. -/
def CoherentOff (k : K) (f c : K → Option V) : Prop := ∀ i ≠ k, ∀ v, c i = some v → f i = some v

def Coherent (f c : K → Option V) : Prop := ∀ i v, c i = some v → f i = some v

/-- The cache first, the function where the cache has nothing. -/
def lookaside (f c : K → Option V) (i : K) : Option V := (c i).or (f i)

/-- Entries may go, and values of the function may come. -/
def Refills (f c c' : K → Option V) : Prop := ∀ i v, c' i = some v → c i = some v ∨ f i = some v

theorem coherent_empty (f : K → Option V) : Coherent f fun _ => none := by
  intro i v h
  cases h

/-- A coherent cache does not show. -/
theorem Coherent.lookaside (h : Coherent f c) (i : K) : lookaside f c i = f i := by
  unfold Atros.lookaside
  cases hc : c i with
  | none => rfl
  | some v => exact (h i v hc).symm

theorem CoherentOff.refill {k : K} (h : CoherentOff k f c) (hr : Refills f c c') :
    CoherentOff k f c' := by
  intro i hi v hc
  rcases hr i v hc with hc | hf
  · exact h i hi v hc
  · exact hf

theorem Coherent.refill (h : Coherent f c) (hr : Refills f c c') : Coherent f c' := by
  intro i v hc
  rcases hr i v hc with hc | hf
  · exact h i v hc
  · exact hf

theorem Coherent.change {k : K} (h : Coherent f c) (hf : ∀ i ≠ k, f' i = f i) :
    CoherentOff k f' c := by
  intro i hi v hc
  rw [hf i hi]
  exact h i v hc

theorem CoherentOff.invalidate [DecidableEq K] {k : K} (h : CoherentOff k f c) :
    Coherent f (Function.update c k none) := by
  intro i v hc
  by_cases hi : i = k
  · subst hi
    rw [Function.update_self] at hc
    cases hc
  · rw [Function.update_of_ne hi] at hc
    exact h i hi v hc

end

end Atros
