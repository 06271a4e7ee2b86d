import Atros.Program
import Mathlib.Logic.Function.Basic

namespace Atros
set_option autoImplicit true

/-! Operations on a family of linked lists, as operations on the sequences of their nodes. -/

section
variable {I P A Op σ ε : Type}

/-- No node is on two lists. -/
def ListsApart (lists : I → List P) : Prop := ∀ i j x, x ∈ lists i → x ∈ lists j → i = j

/-- The operations, each on one list: what their callers see to, and what they do to the nodes and
answer. An operation adds at most a node that was on no list. -/
structure SequenceOps (I P A Op : Type) where
  list : Op → I
  Allowed : (I → List P) → Op → Prop
  nodes : Op → List P → List P
  answer : Op → List P → A
  fresh : ∀ {lists op}, Allowed lists op → ∀ x ∈ nodes op (lists (list op)),
    x ∈ lists (list op) ∨ ∀ j, x ∉ lists j

/-- How the pointers of a state represent lists, and which nodes have no links. -/
structure Linking (σ I P : Type) where
  OnList : σ → I → List P → Prop
  Unlinked : σ → P → Prop

variable (S : SequenceOps I P A Op) (L : Linking σ I P)

section
variable [DecidableEq I]

def SequenceOps.after (lists : I → List P) (op : Op) : I → List P :=
  Function.update lists (S.list op) (S.nodes op (lists (S.list op)))

/-- Each operation is allowed after those before it. -/
def SequenceOps.AllowedAll : (I → List P) → List Op → Prop
  | _, [] => True
  | lists, op :: ops => S.Allowed lists op ∧ AllowedAll (S.after lists op) ops

def SequenceOps.answers : (I → List P) → List Op → List A
  | _, [] => []
  | lists, op :: ops => S.answer op (lists (S.list op)) :: answers (S.after lists op) ops

theorem SequenceOps.after_self (lists : I → List P) (op : Op) :
    S.after lists op (S.list op) = S.nodes op (lists (S.list op)) :=
  Function.update_self ..

theorem SequenceOps.after_other (lists : I → List P) (h : j ≠ S.list op) :
    S.after lists op j = lists j :=
  Function.update_of_ne h ..

/-- A node that is on a list after an operation was there before, or is new on its list. -/
theorem SequenceOps.mem_after {lists : I → List P} (h : S.Allowed lists op)
    (hx : x ∈ S.after lists op j) : x ∈ lists j ∨ j = S.list op ∧ ∀ k, x ∉ lists k := by
  by_cases hj : j = S.list op
  · subst hj
    rw [S.after_self] at hx
    exact (S.fresh h x hx).imp id fun hnew => ⟨rfl, hnew⟩
  · rw [S.after_other lists hj] at hx
    exact .inl hx

theorem SequenceOps.apart_after {lists : I → List P} (hap : ListsApart lists)
    (h : S.Allowed lists op) : ListsApart (S.after lists op) := by
  intro i j x hi hj
  rcases S.mem_after h hi with hi | ⟨rfl, hnew⟩
  · rcases S.mem_after h hj with hj | ⟨rfl, hnew⟩
    · exact hap i j x hi hj
    · exact absurd hi (hnew i)
  · rcases S.mem_after h hj with hj | ⟨rfl, -⟩
    · exact absurd hj (hnew j)
    · rfl

end

/-- The state holds these lists, and the nodes of `N` that are on none have no links. -/
structure Linking.Holds (N : P → Prop) (s : σ) (lists : I → List P) : Prop where
  onList : ∀ i, L.OnList s i (lists i)
  apart : ListsApart lists
  unlinked : ∀ x, N x → (∀ i, x ∉ lists i) → L.Unlinked s x

/-- What an operation has to do to its list `i`, and to leave as it is. -/
structure Linking.Relinks (i : I) (xs ys : List P) (s s' : σ) : Prop where
  onList : L.OnList s' i ys
  others : ∀ j ≠ i, ∀ zs, (∀ z ∈ zs, z ∉ xs ∧ z ∉ ys) → L.OnList s j zs → L.OnList s' j zs
  unlinked : ∀ x ∉ ys, (x ∉ xs → L.Unlinked s x) → L.Unlinked s' x

/-- A call of a program whose loops are bounded ends so, whatever bound is large enough. -/
def EndsBounded (run : Nat → Prog ε σ α) (s : σ) (a : α) (s' : σ) : Prop :=
  ∃ bound, ∀ rounds ≥ bound, run rounds s = .ok (a, s')

theorem EndsBounded.of_all {run : Nat → Prog ε σ α} {s s' : σ}
    (h : ∀ rounds, run rounds s = .ok (a, s')) : EndsBounded run s a s' :=
  ⟨0, fun rounds _ => h rounds⟩

theorem EndsBounded.bind {x : Nat → Prog ε σ α} {f : Nat → α → Prog ε σ β} {s s' s'' : σ}
    (hx : EndsBounded x s a s') (hf : EndsBounded (fun rounds => f rounds a) s' b s'') :
    EndsBounded (fun rounds => x rounds >>= f rounds) s b s'' := by
  obtain ⟨bound, hx⟩ := hx
  obtain ⟨bound', hf⟩ := hf
  refine ⟨max bound bound', fun rounds hr => ?_⟩
  have hle : bound ≤ rounds := Nat.le_trans (Nat.le_max_left ..) hr
  have hle' : bound' ≤ rounds := Nat.le_trans (Nat.le_max_right ..) hr
  exact (bind_ok (hx rounds hle)).trans (hf rounds hle')

/-- The run of an operation does what it does to the sequence of the nodes. -/
structure Linking.Does (run : Nat → Prog ε σ A) (lists : I → List P) (op : Op) (s s' : σ) :
    Prop where
  ends : EndsBounded run s (S.answer op (lists (S.list op))) s'
  relinks : L.Relinks (S.list op) (lists (S.list op)) (S.nodes op (lists (S.list op))) s s'

variable {S L} [DecidableEq I] {N : P → Prop} {s s' : σ} {lists : I → List P} {op : Op}

theorem Linking.Holds.after (h : L.Holds N s lists) (hop : S.Allowed lists op)
    (hr : L.Relinks (S.list op) (lists (S.list op)) (S.nodes op (lists (S.list op))) s s') :
    L.Holds N s' (S.after lists op) := by
  refine ⟨fun j => ?_, S.apart_after h.apart hop, fun x hN hoff => ?_⟩
  · by_cases hj : j = S.list op
    · subst hj
      rw [S.after_self]
      exact hr.onList
    · rw [S.after_other lists hj]
      refine hr.others j hj (lists j) (fun z hz => ?_) (h.onList j)
      have hnot : z ∉ lists (S.list op) := fun hz' => hj (h.apart _ _ z hz hz')
      exact ⟨hnot, fun hz' => (S.fresh hop z hz').elim hnot fun hnew => hnew j hz⟩
  · have hnew := hoff (S.list op)
    rw [S.after_self] at hnew
    refine hr.unlinked x hnew fun hx => h.unlinked x hN fun i => ?_
    by_cases hi : i = S.list op
    · rwa [hi]
    · have hoff' := hoff i
      rwa [S.after_other lists hi] at hoff'

theorem Linking.Holds.refines {run : Nat → Op → Prog ε σ A}
    (hstep : ∀ s lists op, L.Holds N s lists → S.Allowed lists op →
      ∃ s', L.Does S (fun rounds => run rounds op) lists op s s')
    (h : L.Holds N s lists) (hops : S.AllowedAll lists ops) :
    ∃ s', EndsBounded (fun rounds => ops.mapM (run rounds)) s (S.answers lists ops) s' ∧
      L.Holds N s' (ops.foldl S.after lists) := by
  induction ops generalizing s lists with
  | nil => exact ⟨s, .of_all fun _ => rfl, h⟩
  | cons op ops ih =>
    obtain ⟨s₁, hends, hr⟩ := hstep s lists op h hops.1
    obtain ⟨s₂, hrest, hholds⟩ := ih (h.after hops.1 hr) hops.2
    refine ⟨s₂, ?_, hholds⟩
    simp only [List.mapM_cons]
    exact hends.bind (hrest.bind (.of_all fun _ => rfl))

end

end Atros
