import Atros.ListMacros

namespace Atros
set_option autoImplicit true

/-! Programs over a state `σ`, described by what they do to an abstract state `τ` that `Rep`
relates to it. -/

section
variable {σ τ α β ε : Type} {Rep : σ → τ → Prop} {E E' : ε → Prop} {Q Q' : α → τ → Prop}

/-- The place holds `a` in every state that `t` stands for. -/
def Reads (Rep : σ → τ → Prop) (x : Place σ α) (t : τ) (a : α) : Prop :=
  ∀ s, Rep s t → x.get s = a

/-- A store of `v` to the place leads from `t` to `t'`. -/
def Writes (Rep : σ → τ → Prop) (x : Place σ α) (v : α) (t t' : τ) : Prop :=
  ∀ s, Rep s t → Rep (x.set v s) t'

/-- Every outcome from `t` is covered: a result and an abstract state satisfy `Q`, a fault
satisfies `E`. -/
def Runs (Rep : σ → τ → Prop) (E : ε → Prop) (Q : α → τ → Prop) (x : Prog ε σ α) (t : τ) :
    Prop :=
  ∀ s, Rep s t → Ends E (fun a s' => ∃ t', Rep s' t' ∧ Q a t') (x s)

theorem Runs.mono {x : Prog ε σ α} (h : Runs Rep E Q x t) (hE : ∀ e, E e → E' e)
    (hQ : ∀ a t', Q a t' → Q' a t') : Runs Rep E' Q' x t := by
  intro s hs
  refine (h s hs).mono hE ?_
  rintro a s' ⟨t', hs', hq⟩
  exact ⟨t', hs', hQ a t' hq⟩

theorem Runs.imp {x : Prog ε σ α} (h : Runs Rep E Q x t) (hQ : ∀ a t', Q a t' → Q' a t') :
    Runs Rep E Q' x t := h.mono (fun _ he => he) hQ

theorem Runs.pure (h : Q a t) : Runs Rep E Q (Pure.pure a : Prog ε σ α) t :=
  fun _ hs => ⟨t, hs, h⟩

theorem Runs.throw (h : E e) : Runs Rep E Q (MonadExcept.throw e : Prog ε σ α) t :=
  fun _ _ => h

theorem Runs.bind {x : Prog ε σ β} {f : β → Prog ε σ α} (h : Runs Rep E R x t)
    (hf : ∀ b t', R b t' → Runs Rep E Q (f b) t') : Runs Rep E Q (x >>= f) t := by
  intro s hs
  refine Ends.bind (h s hs) ?_
  rintro b s' ⟨t', hs', hr⟩
  exact hf b t' hr s' hs'

theorem Runs.check [Decidable p] {e : ε} {f : Unit → Prog ε σ α} (hE : ¬p → E e)
    (hf : p → Runs Rep E Q (f ()) t) : Runs Rep E Q (Atros.check p e >>= f) t := by
  intro s hs
  exact Ends.bindCheck hE fun hp => hf hp s hs

theorem Runs.passes [Decidable p] {e : ε} {f : Unit → Prog ε σ α} (hp : p)
    (hf : Runs Rep E Q (f ()) t) : Runs Rep E Q (Atros.check p e >>= f) t :=
  .check (fun hn => absurd hp hn) fun _ => hf

theorem Runs.deref {e : ε} {f : β → Prog ε σ α} (hf : Runs Rep E Q (f b) t) :
    Runs Rep E Q (Atros.deref (some b) e >>= f) t := hf

theorem Runs.ite [Decidable p] {x y : Prog ε σ α} (hx : p → Runs Rep E Q x t)
    (hy : ¬p → Runs Rep E Q y t) : Runs Rep E Q (if p then x else y) t := by
  split
  · exact hx ‹_›
  · exact hy ‹_›

theorem Runs.get {f : σ → Prog ε σ α} (hf : ∀ s, Rep s t → Runs Rep E Q (f s) t) :
    Runs Rep E Q (MonadState.get >>= f) t :=
  fun s hs => hf s hs s hs

theorem Runs.modify {g : σ → σ} {f : Unit → Prog ε σ α} (hg : ∀ s, Rep s t → Rep (g s) t')
    (hf : Runs Rep E Q (f ()) t') : Runs Rep E Q (modify g >>= f) t :=
  fun s hs => hf (g s) (hg s hs)

theorem Runs.onPart {c : γ} {get : σ → γ} {put : σ → γ → σ} {x : Prog ε γ α}
    (hget : ∀ s, Rep s t → get s = c) (h : Ends E R (x c))
    (hput : ∀ a c', R a c' → ∃ t', Q a t' ∧ ∀ s, Rep s t → Rep (put s c') t') :
    Runs Rep E Q (Atros.onPart get put x) t := by
  intro s hs
  rw [← hget s hs] at h
  refine (Ends.onPart h).imp ?_
  rintro a _ ⟨c', hr, rfl⟩
  obtain ⟨t', hq, hrep⟩ := hput a c' hr
  exact ⟨t', hrep s hs, hq⟩

end

section
variable {σ τ α β P : Type} {Rep : σ → τ → Prop} {E : Panic → Prop} {Q : α → τ → Prop}

theorem Runs.read {x : Place σ β} {f : β → Prog Panic σ α} (hx : Reads Rep x t b)
    (hf : Runs Rep E Q (f b) t) : Runs Rep E Q (x.read >>= f) t := by
  intro s hs
  rw [bind_read, hx s hs]
  exact hf s hs

theorem Runs.write {x : Place σ β} {f : Unit → Prog Panic σ α} (hx : Writes Rep x v t t')
    (hf : Runs Rep E Q (f ()) t') : Runs Rep E Q (x.write v >>= f) t := by
  intro s hs
  rw [bind_write]
  exact hf _ (hx s hs)

theorem Runs.writeLast {x : Place σ β} {Q : Unit → τ → Prop} (hx : Writes Rep x v t t')
    (hq : Q () t') : Runs Rep E Q (x.write v) t :=
  fun s hs => ⟨t', hx s hs, hq⟩

theorem Runs.follow {f : P → Prog Panic σ α} (hf : Runs Rep E Q (f p) t) :
    Runs Rep E Q (Atros.follow (some p) >>= f) t := hf

end

end Atros
