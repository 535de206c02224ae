import Mathlib.Algebra.Order.Group.Int
import Mathlib.Algebra.Order.Group.Abs
import Mathlib.Algebra.Order.Group.Unbundled.Int
import TyanoCore.Spectators

/-!
# What a creature sees

The squares that a creature sees are a window around it, which moves with the height.  The borders
are computed in unsigned integers of 32 bits: a western or northern border below zero becomes a huge
one, and nothing is seen.
-/

namespace TyanoCore

/-- An integer as a `uint32_t`. -/
def uint32 (i : ℤ) : ℕ := (i % 2 ^ 32).toNat

theorem uint32_of_nonneg {i : ℤ} (hnonneg : 0 ≤ i) (hlt : i < 2 ^ 32) : (uint32 i : ℤ) = i := by
  rw [uint32, Int.emod_eq_of_lt hnonneg hlt, Int.toNat_of_nonneg hnonneg]

theorem uint32_of_neg {i : ℤ} (hneg : i < 0) (hle : -2 ^ 32 ≤ i) : (uint32 i : ℤ) = i + 2 ^ 32 := by
  have hmod : i % 2 ^ 32 = i + 2 ^ 32 := by omega
  rw [uint32, hmod, Int.toNat_of_nonneg (by omega)]

namespace CreatureView

/-- Whether the floor of a position can be seen from another one. -/
def seesFloor (myPos pos : Position) : Bool :=
  if myPos.z ≤ 7 then
    -- on ground level or above: the view is from 7 to 0
    pos.z ≤ 7
  else
    -- underground: the view is two floors up and down
    ((myPos.z : ℤ) - pos.z).natAbs ≤ 2

/-- One coordinate of the comparison that `Creature::canSee` ends with. -/
def inView (myCoord coord : ℕ) (viewRange : ℕ) (offsetz : ℤ) : Bool :=
  uint32 (uint32 (myCoord - viewRange) + offsetz) ≤ coord &&
    coord ≤ uint32 (uint32 (myCoord + viewRange) + offsetz)

/-- `Creature::canSee`. -/
def canSee (myPos pos : Position) (viewRangeX viewRangeY : ℕ) : Bool :=
  if seesFloor myPos pos then
    let offsetz : ℤ := myPos.z - pos.z
    inView myPos.x pos.x viewRangeX offsetz && inView myPos.y pos.y viewRangeY offsetz
  else false

/-- The floors show each other. -/
def FloorsVisible (myPos pos : Position) : Prop :=
  (myPos.z ≤ 7 ∧ pos.z ≤ 7) ∨ (8 ≤ myPos.z ∧ |(myPos.z : ℤ) - pos.z| ≤ 2)

/-- A coordinate lies in the window over the integers. -/
def InWindow (myCoord coord : ℕ) (viewRange : ℕ) (offsetz : ℤ) : Prop :=
  |(coord : ℤ) - myCoord - offsetz| ≤ viewRange

theorem seesFloor_iff {myPos pos : Position} :
    seesFloor myPos pos = true ↔ FloorsVisible myPos pos := by
  unfold seesFloor FloorsVisible
  split
  · next h =>
    rw [decide_eq_true_eq]
    omega
  · next h =>
    rw [decide_eq_true_eq, Int.abs_eq_natAbs]
    omega

/-- The unsigned comparison asks for a border that is not below zero as well. -/
theorem inView_iff {myCoord coord viewRange : ℕ} {offsetz : ℤ} (hcoord : coord ≤ 60000)
    (hmy : myCoord ≤ 60000) (hrange : viewRange < 2 ^ 15) (hlow : -15 ≤ offsetz)
    (hhigh : offsetz ≤ 15) :
    inView myCoord coord viewRange offsetz = true ↔
      InWindow myCoord coord viewRange offsetz ∧ (viewRange : ℤ) ≤ myCoord + offsetz := by
  have hupper : (uint32 (myCoord + viewRange) : ℤ) = myCoord + viewRange :=
    uint32_of_nonneg (by omega) (by omega)
  -- the floor offset is added in the same width, so the first wrap does not show
  have hlower : uint32 (uint32 (myCoord - viewRange) + offsetz) =
      uint32 (myCoord - viewRange + offsetz) := by
    unfold uint32
    omega
  unfold inView InWindow
  rw [hlower, hupper, Bool.and_eq_true, decide_eq_true_eq, decide_eq_true_eq, abs_le]
  rcases lt_or_ge ((myCoord : ℤ) - viewRange + offsetz) 0 with hneg | hnonneg
  · have hwrapped := uint32_of_neg hneg (by omega)
    constructor
    · rintro ⟨hle, -⟩
      omega
    · rintro ⟨-, hborder⟩
      omega
  · have hexact := uint32_of_nonneg hnonneg (by omega)
    have hexact' : (uint32 (myCoord + viewRange + offsetz) : ℤ) = myCoord + viewRange + offsetz :=
      uint32_of_nonneg (by omega) (by omega)
    omega

/-- What `canSee` says, with the borders that must not be below zero. -/
theorem canSee_eq_true_iff {myPos pos : Position} {viewRangeX viewRangeY : ℕ}
    (hx : viewRangeX < 2 ^ 15) (hy : viewRangeY < 2 ^ 15) :
    canSee myPos pos viewRangeX viewRangeY = true ↔
      FloorsVisible myPos pos ∧
        (InWindow myPos.x pos.x viewRangeX (myPos.z - pos.z) ∧
          (viewRangeX : ℤ) ≤ myPos.x + (myPos.z - pos.z)) ∧
        InWindow myPos.y pos.y viewRangeY (myPos.z - pos.z) ∧
          (viewRangeY : ℤ) ≤ myPos.y + (myPos.z - pos.z) := by
  have hz := myPos.z_le
  have hz' := pos.z_le
  simp only [Position.maxZ] at hz hz'
  unfold canSee
  split
  · next h =>
    rw [Bool.and_eq_true, inView_iff pos.x_le myPos.x_le hx (by omega) (by omega),
      inView_iff pos.y_le myPos.y_le hy (by omega) (by omega)]
    exact (and_iff_right (seesFloor_iff.mp h)).symm
  · next h =>
    constructor
    · rintro ⟨⟩
    · rintro ⟨hfloors, -⟩
      exact absurd (seesFloor_iff.mpr hfloors) h

/-- The position is in the window: the floors show each other, and both coordinates are within the
ranges. -/
def Visible (myPos pos : Position) (viewRangeX viewRangeY : ℕ) : Prop :=
  FloorsVisible myPos pos ∧ InWindow myPos.x pos.x viewRangeX (myPos.z - pos.z) ∧
    InWindow myPos.y pos.y viewRangeY (myPos.z - pos.z)

/-- The western and the northern border of the window are on the map. -/
def BordersOnMap (myPos pos : Position) (viewRangeX viewRangeY : ℕ) : Prop :=
  (viewRangeX : ℤ) ≤ myPos.x + (myPos.z - pos.z) ∧
    (viewRangeY : ℤ) ≤ myPos.y + (myPos.z - pos.z)

/-- The view is exact unless a position that should be seen meets a border below zero. -/
theorem canSee_exact_iff (myPos pos : Position) (viewRangeX viewRangeY : ℕ)
    (hx : viewRangeX < 2 ^ 15) (hy : viewRangeY < 2 ^ 15) :
    (canSee myPos pos viewRangeX viewRangeY = true ↔ Visible myPos pos viewRangeX viewRangeY) ↔
      (Visible myPos pos viewRangeX viewRangeY → BordersOnMap myPos pos viewRangeX viewRangeY) := by
  rw [canSee_eq_true_iff hx hy]
  unfold Visible BordersOnMap
  constructor
  · rintro hexact hvisible
    obtain ⟨-, ⟨-, hwest⟩, -, hnorth⟩ := hexact.mpr hvisible
    exact ⟨hwest, hnorth⟩
  · intro hborders
    constructor
    · rintro ⟨hfloors, ⟨hwindow, -⟩, hwindow', -⟩
      exact ⟨hfloors, hwindow, hwindow'⟩
    · intro hvisible
      obtain ⟨hwest, hnorth⟩ := hborders hvisible
      exact ⟨hvisible.1, ⟨hvisible.2.1, hwest⟩, hvisible.2.2, hnorth⟩

instance (myPos pos : Position) : Decidable (FloorsVisible myPos pos) :=
  inferInstanceAs (Decidable (_ ∨ _))

instance (myPos pos : Position) (viewRangeX viewRangeY : ℕ) :
    Decidable (Visible myPos pos viewRangeX viewRangeY) :=
  inferInstanceAs (Decidable (_ ∧ _ ≤ _ ∧ _ ≤ _))

instance (myPos pos : Position) (viewRangeX viewRangeY : ℕ) :
    Decidable (BordersOnMap myPos pos viewRangeX viewRangeY) :=
  inferInstanceAs (Decidable (_ ≤ _ ∧ _ ≤ _))

/-- A square near the western border of the map. -/
def borderSquare : Position where
  x := 5
  y := 100
  z := 7
  x_le := by decide
  y_le := Position.hundred_le_maxY
  z_le := Position.ground_le_maxZ

theorem canSee_exact_borderSquare :
    ((11 < 2 ^ 15) ∧ (11 < 2 ^ 15)) ∧
      ((canSee borderSquare borderSquare 11 11 = true ↔
          Visible borderSquare borderSquare 11 11) ↔
        (Visible borderSquare borderSquare 11 11 →
          BordersOnMap borderSquare borderSquare 11 11)) :=
  ⟨by decide, canSee_exact_iff borderSquare borderSquare 11 11 (by decide) (by decide)⟩

/-- A creature less than a window away from the border does not see its own square. -/
theorem borderSquare_unseen :
    ¬(canSee borderSquare borderSquare Map.maxViewportX Map.maxViewportY = true ↔
      Visible borderSquare borderSquare Map.maxViewportX Map.maxViewportY) := by
  decide

end CreatureView

end TyanoCore
