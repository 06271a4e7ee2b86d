import Atros.Vsnprintf

namespace Atros
set_option autoImplicit true

/-- `o'` comes from `o` by stores at `a` or above. -/
inductive Output.Stores (a : Nat) (o : Output) : Output → Prop
  | refl : Stores a o o
  | put (h : Stores a o o') (hx : a ≤ x) (b : UInt8) : Stores a o (o'.put x b)

namespace Output.Stores

theorem trans {o o' o'' : Output} (h : o.Stores a o') (h' : o'.Stores a o'') : o.Stores a o'' := by
  induction h' with
  | refl => exact h
  | put _ hx b ih => exact ih.put hx b

theorem mono {o o' : Output} (h : o.Stores a o') (hle : b ≤ a) : o.Stores b o' := by
  induction h with
  | refl => exact .refl
  | put _ hx c ih => exact ih.put (hle.trans hx) c

theorem keeps {o o' : Output} (h : o.Stores a o') (hx : o.written x = true) :
    o'.written x = true := by
  induction h with
  | refl => exact hx
  | put _ _ b ih => exact (confined_put _ _ b).keeps x ih

theorem frame {o o' : Output} (h : o.Stores a o') (hx : x < a) : o'.mem x = o.mem x := by
  induction h with
  | refl => rfl
  | put _ hy b ih =>
    rw [mem_put, if_neg (by omega)]
    exact ih

end Output.Stores

theorem Output.put_stores (o : Output) (hx : a ≤ x) (b : UInt8) : o.Stores a (o.put x b) :=
  .put .refl hx b

theorem digitLoop_stores (base n str rounds value i : Nat) (o : Output) :
    o.Stores str (digitLoop base n str rounds value i o).2.2 := by
  induction rounds generalizing value i o with
  | zero => exact .refl
  | succ rounds ih =>
    rw [digitLoop]
    split
    · exact (o.put_stores (Nat.le_add_right _ _) _).trans (ih _ _ _)
    · exact o.put_stores (Nat.le_add_right _ _) _

theorem reverseLoop_stores (str i j : Nat) (o : Output) :
    o.Stores str (reverseLoop str i j o) := by
  induction i generalizing j o with
  | zero => exact .refl
  | succ i ih =>
    rw [reverseLoop]
    split
    · exact ((o.put_stores (Nat.le_add_right _ _) _).put (Nat.le_add_right _ _) _).trans (ih _ _)
    · exact .refl

theorem uToNstrDigits_stores (value n str base j : Nat) (o : Output) :
    o.Stores str (uToNstrDigits value n str base j o).2 := by
  have hloop := digitLoop_stores base n str 32 value j o
  rcases hd : digitLoop base n str 32 value j o with ⟨v, i, o'⟩
  rw [hd] at hloop
  simp only [uToNstrDigits, hd]
  split
  · exact (hloop.put (Nat.le_add_right _ _) _).trans (reverseLoop_stores _ _ _ _)
  · exact hloop.put (Nat.le_refl str) _

theorem uToNstr_stores (value n str base : Nat) (o : Output) :
    o.Stores str (uToNstr value n str base o).2 := by
  have hprefix (b : UInt8) : o.Stores str
      (uToNstrDigits value n str base 2 ((o.put str (ch '0')).put (str + 1) b)).2 :=
    ((o.put_stores (Nat.le_refl str) _).put (Nat.le_succ str) _).trans
      (uToNstrDigits_stores _ _ _ _ _ _)
  rw [uToNstr]
  split_ifs
  · exact .refl
  · exact o.put_stores (Nat.le_refl str) _
  · exact hprefix _
  · exact o.put_stores (Nat.le_refl str) _
  · exact hprefix _
  · exact o.put_stores (Nat.le_refl str) _
  · exact uToNstrDigits_stores _ _ _ _ _ _

theorem iToNstr_stores (value n str base : Nat) (o : Output) :
    o.Stores str (iToNstr value n str base o).2 := by
  have hu := (uToNstr_stores (sub32 0 value) (sub32 n 1) (str + 1) base o).mono (Nat.le_succ str)
  rcases Nat.lt_or_ge value (2 ^ 31) with h | h
  · rw [iToNstr, if_neg (Nat.not_le.mpr h)]
    exact uToNstr_stores _ _ _ _ _
  · rcases hr : uToNstr (sub32 0 value) (sub32 n 1) (str + 1) base o with ⟨width, o'⟩
    rw [hr] at hu
    rw [iToNstr_of_neg h hr]
    split
    · exact hu.put (Nat.le_refl str) _
    · exact hu

theorem copyString_stores (n str j : Nat) (s : List UInt8) (o : Output) :
    o.Stores str (copyString n str s j o).2 := by
  induction s generalizing j o with
  | nil => exact .refl
  | cons c s ih =>
    rw [copyString]
    split
    · exact (o.put_stores (Nat.le_add_right _ _) _).trans (ih _ _)
    · exact .refl

theorem convert_stores (h : convert n str conv j args o = some (j', args', o')) :
    o.Stores str o' := by
  cases conv with
  | signed base =>
    obtain ⟨⟨w, as⟩, -, heq⟩ := Option.map_eq_some_iff.mp h
    cases heq
    exact (iToNstr_stores _ _ _ _ _).mono (Nat.le_add_right _ _)
  | unsigned base =>
    obtain ⟨⟨w, as⟩, -, heq⟩ := Option.map_eq_some_iff.mp h
    cases heq
    exact (uToNstr_stores _ _ _ _ _).mono (Nat.le_add_right _ _)
  | char =>
    obtain ⟨⟨w, as⟩, -, heq⟩ := Option.map_eq_some_iff.mp h
    cases heq
    exact o.put_stores (Nat.le_add_right _ _) _
  | string =>
    obtain ⟨⟨s, as⟩, -, heq⟩ := Option.map_eq_some_iff.mp h
    cases heq
    exact copyString_stores _ _ _ _ _
  | percent =>
    cases h
    exact o.put_stores (Nat.le_add_right _ _) _
  | other =>
    cases h
    exact .refl

theorem vsnprintfLoop_stores (h : vsnprintfLoop n str format i j spec args o = some (k, o')) :
    o.Stores str o' := by
  induction format generalizing i j spec args o with
  | nil =>
    cases h
    exact .refl
  | cons c format ih =>
    rw [vsnprintfLoop] at h
    split_ifs at h
    · obtain ⟨⟨j₁, args₁, o₁⟩, hconv, h⟩ := Option.bind_eq_some_iff.mp h
      exact (convert_stores hconv).trans (ih h)
    · exact ih h
    · exact (o.put_stores (Nat.le_add_right _ _) _).trans (ih h)
    · cases h
      exact .refl

theorem vsnprintf_below (h : vsnprintf str n format args m = some (j, o)) (hx : x < str) :
    o.mem x = m x := by
  obtain ⟨⟨k, o'⟩, hloop, heq⟩ := Option.map_eq_some_iff.mp h
  cases heq
  exact ((vsnprintfLoop_stores hloop).put (Nat.le_add_right _ _) 0).frame hx

end Atros
