import Mathlib.Algebra.Order.Ring.Int
import Mathlib.Algebra.Ring.Int.Defs
import Mathlib.Data.Int.Notation
import Mathlib.Logic.Function.Iterate
import Mathlib.Tactic.Linarith

/-!
# Lines by an error term

A line is drawn along its longer axis.  With every cell an error grows by the shorter difference;
where it gets to half of the longer one, the other coordinate takes a step.  The steps are those of
the exact line, rounded to the nearest cell.
-/

namespace DigitalLine

/-- The error, and the steps along the shorter axis, a cell further. -/
def advance (dmin dmaj : ℕ) (s : ℤ × ℕ) : ℤ × ℕ :=
  if (dmaj : ℤ) ≤ 2 * (s.1 + dmin) then (s.1 + dmin - dmaj, s.2 + 1) else (s.1 + dmin, s.2)

/-- The error and the steps after a number of cells. -/
def walk (dmin dmaj : ℕ) : ℕ → ℤ × ℕ
  | 0 => (0, 0)
  | k + 1 => advance dmin dmaj (walk dmin dmaj k)

/-- The steps of the exact line after `k` cells, rounded. -/
def rounded (dmin dmaj k : ℕ) : ℕ := (2 * k * dmin + dmaj) / (2 * dmaj)

variable {dmin dmaj k : ℕ}

theorem walk_succ : walk dmin dmaj (k + 1) = advance dmin dmaj (walk dmin dmaj k) := rfl

/-- The error is what the steps do not account for. -/
theorem walk_error : (walk dmin dmaj k).1 + (walk dmin dmaj k).2 * dmaj = k * dmin := by
  induction k with
  | zero => simp [walk]
  | succ k ih =>
    rw [walk_succ, advance]
    split
    · push_cast
      linarith
    · push_cast
      linarith

/-- At most one step is taken with each cell. -/
theorem walk_steps_le : (walk dmin dmaj k).2 ≤ k := by
  induction k with
  | zero => exact Nat.le_refl 0
  | succ k ih =>
    rw [walk_succ, advance]
    split <;> dsimp only <;> omega

/-- The error stays within half of the longer difference. -/
theorem walk_error_bounds (hle : dmin ≤ dmaj) (hpos : 0 < dmaj) :
    -(dmaj : ℤ) ≤ 2 * (walk dmin dmaj k).1 ∧ 2 * (walk dmin dmaj k).1 < dmaj := by
  induction k with
  | zero =>
    simp only [walk]
    omega
  | succ k ih =>
    rw [walk_succ, advance]
    split <;> dsimp only <;> omega

theorem walk_steps_of_pos (hle : dmin ≤ dmaj) (hpos : 0 < dmaj) :
    (walk dmin dmaj k).2 = rounded dmin dmaj k := by
  obtain ⟨hlow, hhigh⟩ := walk_error_bounds (k := k) hle hpos
  have herror : (walk dmin dmaj k).1 + (walk dmin dmaj k).2 * dmaj = k * dmin := walk_error
  -- twice the exact numerator is the steps and a remainder below the divisor
  obtain ⟨r, hr⟩ := Int.eq_ofNat_of_zero_le (by omega : 0 ≤ 2 * (walk dmin dmaj k).1 + dmaj)
  have hdivision : 2 * k * dmin + dmaj = (2 * dmaj) * (walk dmin dmaj k).2 + r := by
    have hcast : ((2 * k * dmin + dmaj : ℕ) : ℤ) =
        ((2 * dmaj * (walk dmin dmaj k).2 + r : ℕ) : ℤ) := by
      push_cast
      linarith
    exact_mod_cast hcast
  have hrest : r < 2 * dmaj := by omega
  rw [rounded, hdivision, Nat.mul_add_div (by omega), Nat.div_eq_of_lt hrest, Nat.add_zero]

/-- No steps are taken along a straight axis. -/
theorem rounded_straight : rounded 0 dmaj k = 0 := by
  rcases Nat.eq_zero_or_pos dmaj with rfl | hpos
  · exact Nat.div_zero _
  · exact Nat.div_eq_of_lt (by omega)

/-- The steps are the rounded ones. -/
theorem walk_steps (hle : dmin ≤ dmaj) (hk : k ≤ dmaj) :
    (walk dmin dmaj k).2 = rounded dmin dmaj k := by
  rcases Nat.eq_zero_or_pos dmaj with rfl | hpos
  · obtain rfl : dmin = 0 := Nat.le_zero.mp hle
    obtain rfl : k = 0 := Nat.le_zero.mp hk
    exact rounded_straight.symm
  · exact walk_steps_of_pos hle hpos

/-- The line ends at the end of the shorter axis. -/
theorem rounded_full (hle : dmin ≤ dmaj) : rounded dmin dmaj dmaj = dmin := by
  rcases Nat.eq_zero_or_pos dmaj with rfl | hpos
  · obtain rfl : dmin = 0 := Nat.le_zero.mp hle
    rfl
  · rw [rounded, Nat.mul_add_div (by omega), Nat.div_eq_of_lt (by omega), Nat.add_zero]

theorem rounded_mono {j : ℕ} (hjk : j ≤ k) : rounded dmin dmaj j ≤ rounded dmin dmaj k := by
  unfold rounded
  gcongr

/-- No step goes beyond the end of the shorter axis. -/
theorem rounded_le (hle : dmin ≤ dmaj) (hk : k ≤ dmaj) : rounded dmin dmaj k ≤ dmin :=
  calc rounded dmin dmaj k
      ≤ rounded dmin dmaj dmaj := rounded_mono hk
    _ = dmin := rounded_full hle

end DigitalLine
