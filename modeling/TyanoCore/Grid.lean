import Mathlib.Algebra.Order.Ring.Int
import Mathlib.Tactic.Ring

/-!
# Grids

A rectangle of cells whose accesses are checked: one outside of the rectangle has no result.  Around
the rectangle the plane has a default value, and a shift of the plane that keeps every value leaves
room for nothing else.
-/

universe u

/-- The data counts for the cells of the rectangle only. -/
structure Grid (α : Type u) where
  rows : ℕ
  cols : ℕ
  data : ℤ → ℤ → α

namespace Grid

variable {α : Type u}

/-- A cell that goes to a cell of another grid. -/
structure Copy where
  row : ℤ
  col : ℤ
  fromRow : ℤ
  fromCol : ℤ

def Has (g : Grid α) (row col : ℤ) : Prop :=
  0 ≤ row ∧ row < g.rows ∧ 0 ≤ col ∧ col < g.cols

instance (g : Grid α) (row col : ℤ) : Decidable (g.Has row col) :=
  inferInstanceAs (Decidable (_ ∧ _))

def blank (value : α) (rows cols : ℕ) : Grid α := ⟨rows, cols, fun _ _ => value⟩

def read (g : Grid α) (row col : ℤ) : Option α :=
  if g.Has row col then some (g.data row col) else none

def write (g : Grid α) (row col : ℤ) (value : α) : Option (Grid α) :=
  if g.Has row col then
    some { g with data := fun r c => if r = row ∧ c = col then value else g.data r c }
  else none

/-- The value at a place of the plane. -/
def value (g : Grid α) (d : α) (row col : ℤ) : α := (g.read row col).getD d

/-- The copies one after the other, each a read and a write. -/
def transfer (source : Grid α) (copies : List Copy) (target : Grid α) : Option (Grid α) :=
  copies.foldlM (fun grid c => (source.read c.fromRow c.fromCol).bind (grid.write c.row c.col)) target

variable {g source target : Grid α} {d : α} {row col : ℤ}

theorem read_of_has (h : g.Has row col) : g.read row col = some (g.data row col) := if_pos h

theorem write_of_has (h : g.Has row col) (value : α) :
    g.write row col value =
      some { g with data := fun r c => if r = row ∧ c = col then value else g.data r c } :=
  if_pos h

theorem value_of_has (h : g.Has row col) : g.value d row col = g.data row col := by
  rw [value, read_of_has h, Option.getD_some]

theorem value_of_not_has (h : ¬g.Has row col) : g.value d row col = d := by
  rw [value, read, if_neg h, Option.getD_none]

theorem read_eq_value (h : g.Has row col) (d : α) : g.read row col = some (g.value d row col) := by
  rw [read_of_has h, value_of_has h]

/-- Copies that stay within the two grids, where what comes to a place depends on the place only. -/
theorem transfer_data (f : ℤ → ℤ → α) (copies : List Copy) (target : Grid α)
    (h : ∀ c ∈ copies, target.Has c.row c.col ∧
      source.read c.fromRow c.fromCol = some (f c.row c.col)) :
    source.transfer copies target = some
      { target with data := fun r s =>
          if ∃ c ∈ copies, c.row = r ∧ c.col = s then f r s else target.data r s } := by
  induction copies generalizing target with
  | nil => simp [transfer]
  | cons c rest ih =>
    have hc := h c List.mem_cons_self
    have hrest : ∀ c' ∈ rest, target.Has c'.row c'.col ∧
        source.read c'.fromRow c'.fromCol = some (f c'.row c'.col) :=
      fun c' hc' => h c' (List.mem_cons_of_mem c hc')
    rw [transfer, List.foldlM_cons, hc.2, Option.bind_some, write_of_has hc.1, Option.bind_eq_bind,
      Option.bind_some]
    refine (ih _ ?_).trans ?_
    · exact hrest
    refine congrArg some (congrArg (Grid.mk target.rows target.cols) ?_)
    ext r s
    -- a place that a later copy comes to, one that only the first copy comes to, or neither
    by_cases hlater : ∃ c' ∈ rest, c'.row = r ∧ c'.col = s
    · rw [if_pos hlater, if_pos]
      obtain ⟨c', hc', hplace⟩ := hlater
      exact ⟨c', List.mem_cons_of_mem c hc', hplace⟩
    · rw [if_neg hlater]
      dsimp only
      by_cases hfirst : r = c.row ∧ s = c.col
      · rw [if_pos hfirst, if_pos ⟨c, List.mem_cons_self, hfirst.1.symm, hfirst.2.symm⟩, hfirst.1,
          hfirst.2]
      · rw [if_neg hfirst, if_neg]
        intro hsome
        obtain ⟨c', hc', hplace⟩ := hsome
        cases hc' with
        | head => exact hfirst ⟨hplace.1.symm, hplace.2.symm⟩
        | tail _ hc' => exact hlater ⟨c', hc', hplace⟩

/-- Copies onto a blank grid that take to each place what lies at its place of origin, and miss
nothing of what lies there. -/
theorem transfer_value (fromRow fromCol : ℤ → ℤ → ℤ) {rows cols : ℕ} (copies : List Copy)
    (hwithin : ∀ c ∈ copies, (blank d rows cols).Has c.row c.col ∧
      source.Has c.fromRow c.fromCol ∧
        c.fromRow = fromRow c.row c.col ∧ c.fromCol = fromCol c.row c.col)
    (hall : ∀ row col, source.Has (fromRow row col) (fromCol row col) →
      ∃ c ∈ copies, c.row = row ∧ c.col = col) :
    ∃ grid, source.transfer copies (blank d rows cols) = some grid ∧
      grid.rows = rows ∧ grid.cols = cols ∧
        ∀ row col, grid.value d row col = source.value d (fromRow row col) (fromCol row col) := by
  have hcopies : ∀ c ∈ copies, (blank d rows cols).Has c.row c.col ∧
      source.read c.fromRow c.fromCol =
        some (source.value d (fromRow c.row c.col) (fromCol c.row c.col)) := by
    intro c hc
    have hcopy := hwithin c hc
    rw [← hcopy.2.2.1, ← hcopy.2.2.2]
    exact ⟨hcopy.1, read_eq_value hcopy.2.1 d⟩
  refine ⟨_, transfer_data (fun r s => source.value d (fromRow r s) (fromCol r s)) copies _ hcopies,
    rfl, rfl, ?_⟩
  intro row col
  by_cases htarget : ∃ c ∈ copies, c.row = row ∧ c.col = col
  · obtain ⟨c, hc, hrow, hcol⟩ := htarget
    have hhas := (hwithin c hc).1
    rw [hrow, hcol] at hhas
    refine (value_of_has ?_).trans (if_pos ⟨c, hc, hrow, hcol⟩)
    exact hhas
  · have horigin : ¬source.Has (fromRow row col) (fromCol row col) :=
      fun hhas => htarget (hall row col hhas)
    rw [value_of_not_has horigin]
    by_cases hhas : (blank d rows cols).Has row col
    · refine (value_of_has ?_).trans (if_neg htarget)
      exact hhas
    · apply value_of_not_has
      exact hhas

/-- A row of `n` places ends within `n` steps to either side. -/
theorem far {x s : ℤ} {n : ℕ} (hs : s ≠ 0) (hx : 0 ≤ x ∧ x < n) :
    ¬(0 ≤ x + n * s ∧ x + n * s < n) := by
  intro hnear
  have hn : (0 : ℤ) ≤ n := Int.natCast_nonneg n
  rcases lt_or_gt_of_ne hs with hneg | hpos
  · have hback : (n : ℤ) * s ≤ n * (-1) := mul_le_mul_of_nonneg_left (by omega) hn
    omega
  · have hon : (n : ℤ) * 1 ≤ n * s := mul_le_mul_of_nonneg_left (by omega) hn
    omega

/-- A shift that changes no value leaves only the default, unless it is no shift. -/
theorem value_of_shift {down right : ℤ} (hne : down ≠ 0 ∨ right ≠ 0)
    (h : ∀ row col, g.value d (row + down) (col + right) = g.value d row col) (row col : ℤ) :
    g.value d row col = d := by
  have hshifted : ∀ n : ℕ, g.value d (row + n * down) (col + n * right) = g.value d row col := by
    intro n
    induction n with
    | zero => rw [Nat.cast_zero, zero_mul, zero_mul, add_zero, add_zero]
    | succ n ih =>
      calc g.value d (row + (n + 1 : ℕ) * down) (col + (n + 1 : ℕ) * right)
          = g.value d (row + n * down + down) (col + n * right + right) := by
            push_cast
            ring_nf
        _ = g.value d row col := (h _ _).trans ih
  by_cases hhas : g.Has row col
  · rw [Has] at hhas
    -- the place is shifted so often that it lies outside of the grid
    rcases hne with hdown | hright
    · rw [← hshifted g.rows]
      apply value_of_not_has
      intro hnear
      exact far hdown ⟨hhas.1, hhas.2.1⟩ ⟨hnear.1, hnear.2.1⟩
    · rw [← hshifted g.cols]
      apply value_of_not_has
      intro hnear
      exact far hright hhas.2.2 hnear.2.2
  · exact value_of_not_has hhas

end Grid
