import Atros.Console

namespace Atros
set_option autoImplicit true

variable {s s' : Screen} {p : Page}

/-- The window is the 25 rows of the page from `top` on, with the cursor on the same cell; what
comes below has not been reached. -/
structure Screen.Shows (s : Screen) (p : Page) (top : Nat) : Prop where
  line : p.row = top + s.line
  column : s.column = p.column
  cells : ∀ i j, i ≤ 24 → j ≤ 79 → cellAt s.out.mem i j = p.cell (top + i) j
  below : ∀ i j, top + 24 < i → p.cell i j = .blank

structure Screen.InRange (s : Screen) : Prop where
  line : s.line ≤ 24
  column : s.column ≤ 79

/-- Where the `switch` can leave the cursor. -/
structure Screen.Moves (s s' : Screen) : Prop where
  line : s'.line = s.line ∨ s'.line = s.line + 1 ∧ s'.column = 0
  column : s'.column ≤ 83

theorem Screen.InRange.moves (h : s.InRange) (c : UInt8) : s.Moves (s.move c) := by
  have hline := h.line
  have hcolumn := h.column
  unfold Screen.move
  split
  · exact ⟨.inl rfl, Nat.zero_le _⟩
  · split
    · exact ⟨.inr ⟨add32_of_lt (by omega), rfl⟩, Nat.zero_le _⟩
    · split
      · refine ⟨.inl rfl, ?_⟩
        simp only [add32_of_lt (by omega : s.column + 4 < 2 ^ 32)]
        omega
      · split
        · split
          · refine ⟨.inl rfl, ?_⟩
            simp only [sub32_of_le (by omega : 1 ≤ s.column) (by omega)]
            omega
          · exact ⟨.inl rfl, by omega⟩
        · refine ⟨.inl rfl, ?_⟩
          simp only [add32_of_lt (by omega : s.column + 1 < 2 ^ 32)]
          omega

theorem Screen.Shows.move (h : s.Shows p top) (hs : s.InRange) (c : UInt8) :
    (s.move c).Shows (p.move c) top := by
  have hline := hs.line
  have hcolumn := hs.column
  have hpcolumn := h.column
  have hrow := h.line
  unfold Screen.move Page.move
  by_cases hcr : c = carriageReturn
  · rw [if_pos hcr, if_pos hcr]
    exact ⟨h.line, rfl, h.cells, h.below⟩
  rw [if_neg hcr, if_neg hcr]
  by_cases hnl : c = newline
  · rw [if_pos hnl, if_pos hnl]
    refine ⟨?_, rfl, h.cells, h.below⟩
    rw [add32_of_lt (by omega)]
    exact congrArg Nat.succ hrow
  rw [if_neg hnl, if_neg hnl]
  by_cases htab : c = horizontalTab
  · rw [if_pos htab, if_pos htab]
    refine ⟨h.line, ?_, h.cells, h.below⟩
    rw [add32_of_lt (by omega)]
    exact congrArg (· + 4) hpcolumn
  rw [if_neg htab, if_neg htab]
  by_cases hbs : c = backspace
  · rw [if_pos hbs, if_pos hbs]
    split
    · refine ⟨h.line, ?_, h.cells, h.below⟩
      rw [sub32_of_le (by omega) (by omega)]
      exact congrArg (· - 1) hpcolumn
    · refine ⟨h.line, ?_, h.cells, h.below⟩
      simp only
      omega
  rw [if_neg hbs, if_neg hbs, videoAddr_eq hline hcolumn]
  have hbase : videoBase = 3221979136 := by decide
  rw [add32_of_lt (by omega : videoBase + 160 * s.line + 2 * s.column + 1 < 2 ^ 32)]
  refine ⟨h.line, ?_, fun i j hi hj => ?_, fun i j hi => ?_⟩
  · rw [add32_of_lt (by omega)]
    exact congrArg (· + 1) hpcolumn
  · rw [cellAt_put hline hcolumn hj, h.cells i j hi hj]
    exact if_congr (by omega) rfl rfl
  · exact (if_neg (by omega)).trans (h.below i j hi)

theorem Screen.Shows.wrap (h : s.Shows p top) (hline : s.line ≤ 25) (hcolumn : s.column ≤ 83) :
    s.wrap.Shows p.wrap top := by
  have hpcolumn := h.column
  have hrow := h.line
  unfold Screen.wrap Page.wrap
  rw [← hpcolumn]
  split
  · refine ⟨?_, ?_, h.cells, h.below⟩
    · rw [add32_of_lt (by omega)]
      exact congrArg Nat.succ hrow
    · simp only
      omega
  · exact h

theorem Screen.Shows.scroll (h : s.Shows p top) (hline : s.line ≤ 25)
    (htop : top = 0 ∨ 24 ≤ s.line) : s.scroll.Shows p p.top := by
  have hrow := h.line
  unfold Screen.scroll
  split
  · have hnext : p.top = top + 1 := by
      rw [Page.top]
      omega
    rw [hnext]
    refine ⟨?_, h.column, fun i j hi hj => ?_, fun i j hi => h.below i j (by omega)⟩
    · simp only
      omega
    · rw [cellAt_scroll s.out hi hj]
      split
      · rw [h.cells (i + 1) j (by omega) hj, Nat.add_right_comm, Nat.add_assoc]
      · exact (h.below _ _ (by omega)).symm
  · have hsame : p.top = top := by
      rw [Page.top]
      omega
    rw [hsame]
    exact h

theorem Screen.Moves.wrap (h : s.Moves s') (hs : s.InRange) :
    s.line ≤ s'.wrap.line ∧ s'.wrap.line ≤ 25 ∧ s'.wrap.column ≤ 79 := by
  have hline := hs.line
  have hmoved := h.line
  have hcolumn := h.column
  unfold Screen.wrap
  split
  · simp only [add32_of_lt (by omega : s'.line + 1 < 2 ^ 32)]
    omega
  · omega

theorem Screen.scroll_inRange (hline : s.line ≤ 25) (hcolumn : s.column ≤ 79) :
    s.scroll.InRange := by
  unfold Screen.scroll
  split
  · exact ⟨le_refl _, hcolumn⟩
  · exact ⟨by omega, hcolumn⟩

theorem Screen.InRange.put (h : s.InRange) (c : UInt8) : (s.put c).InRange := by
  obtain ⟨-, hline, hcolumn⟩ := (Screen.InRange.moves
    (s := { s with cursors := (s.line, s.column) :: s.cursors }) ⟨h.line, h.column⟩ c).wrap
    ⟨h.line, h.column⟩
  exact scroll_inRange hline hcolumn

theorem Screen.Shows.put (h : s.Shows p p.top) (hs : s.InRange) (c : UInt8) :
    (s.put c).Shows (p.type c) (p.type c).top := by
  let s₀ : Screen := { s with cursors := (s.line, s.column) :: s.cursors }
  have h₀ : s₀.Shows p p.top := ⟨h.line, h.column, h.cells, h.below⟩
  have hs₀ : s₀.InRange := ⟨hs.line, hs.column⟩
  have hmoves := hs₀.moves c
  obtain ⟨hle, hline, hcolumn⟩ := hmoves.wrap hs₀
  have hmoved : (s₀.move c).line ≤ 25 := by
    have hold := hs₀.line
    have hnew := hmoves.line
    omega
  have hwrapped := (h₀.move hs₀ c).wrap hmoved hmoves.column
  refine hwrapped.scroll hline ?_
  have hrow : p.row = p.top + s.line := h.line
  have hold : s₀.line = s.line := rfl
  rw [Page.top] at hrow ⊢
  omega

end Atros
