import Mathlib.Algebra.Order.Group.Unbundled.Abs
import Mathlib.Data.Int.Notation
import TyanoCore.Basic

/-!
# Positions

Where something is on the map.  The constructors assert that the coordinates are valid, so a
position that can be built is valid.
-/

namespace TyanoCore

namespace Position

def maxX : ℕ := 60000
def maxY : ℕ := 60000
def maxZ : ℕ := 15

/-- The ground floor, and squares near the corner of the map, are within the limits. -/
theorem ground_le_maxZ : 7 ≤ maxZ := by decide

theorem hundred_le_maxX : 100 ≤ maxX := by decide

theorem hundred_le_maxY : 100 ≤ maxY := by decide

end Position

structure Position where
  x : ℕ
  y : ℕ
  z : ℕ
  x_le : x ≤ Position.maxX
  y_le : y ≤ Position.maxY
  z_le : z ≤ Position.maxZ
deriving DecidableEq

namespace Position

/-- `Position::isValid`. -/
def isValid (x y z : ℤ) : Bool :=
  0 ≤ x && x ≤ maxX && 0 ≤ y && y ≤ maxY && 0 ≤ z && z ≤ maxZ

/-- The position with the given coordinates, where they are valid. -/
def of (x y z : ℤ) : Option Position :=
  if h : isValid x y z = true then
    some
      { x := x.toNat, y := y.toNat, z := z.toNat
        x_le := by simp only [isValid, Bool.and_eq_true, decide_eq_true_eq] at h; omega
        y_le := by simp only [isValid, Bool.and_eq_true, decide_eq_true_eq] at h; omega
        z_le := by simp only [isValid, Bool.and_eq_true, decide_eq_true_eq] at h; omega }
  else none

/-- Whether a position has the given coordinates. -/
def At (p : Position) (x y z : ℤ) : Prop := (p.x : ℤ) = x ∧ (p.y : ℤ) = y ∧ (p.z : ℤ) = z

theorem At.unique {p q : Position} {x y z : ℤ} (hp : p.At x y z) (hq : q.At x y z) : p = q := by
  obtain ⟨px, py, pz, _, _, _⟩ := p
  obtain ⟨qx, qy, qz, _, _, _⟩ := q
  simp only [At] at hp hq
  obtain rfl : px = qx := by omega
  obtain rfl : py = qy := by omega
  obtain rfl : pz = qz := by omega
  rfl

theorem of_eq_some {x y z : ℤ} {p : Position} : of x y z = some p ↔ p.At x y z := by
  have hx := p.x_le
  have hy := p.y_le
  have hz := p.z_le
  unfold of
  split
  · next h =>
    simp only [isValid, Bool.and_eq_true, decide_eq_true_eq] at h
    constructor
    · rintro ⟨⟩
      simp only [At]
      omega
    · intro hp
      refine congrArg some (At.unique ?_ hp)
      simp only [At]
      omega
  · next h =>
    constructor
    · rintro ⟨⟩
    · rintro ⟨hpx, hpy, hpz⟩
      refine absurd ?_ h
      simp only [isValid, Bool.and_eq_true, decide_eq_true_eq]
      omega

theorem of_self (p : Position) : of p.x p.y p.z = some p := of_eq_some.mpr ⟨rfl, rfl, rfl⟩

/-- `Position::distanceTo`. -/
def distanceTo (p q : Position) : ℕ :=
  max ((q.x : ℤ) - p.x).natAbs (max ((q.y : ℤ) - p.y).natAbs ((q.z : ℤ) - p.z).natAbs)

end Position

end TyanoCore
