import TyanoCore.CountedLoop
import TyanoCore.PathNodes
import TyanoCore.TileSearch

/-!
# The ring around a position

The loops of `Position::neighbors` as the machine makes them: the offsets are counted up, and the
coordinates go through a signed 16-bit integer, which gives them back.  They add the positions of the
search for a tile, each once.
-/

namespace TyanoCore

open CountedLoop

/-- `static_cast<int16_t>` and back into a `uint16_t`. -/
def throughInt16 (v : ℤ) : ℕ := (BitVec.ofInt 16 (BitVec.ofInt 16 v).toInt).toNat

namespace Position

/-- The counter of both loops. -/
def countedOffsets (distance : UInt16) (increase : ℤ) : List ℤ :=
  let startOffset : ℤ := -distance.toNat
  let endOffset : ℤ := distance.toNat
  values endOffset increase (2 * distance.toNat + 1) startOffset

/-- The inner loop, for the column with an offset. -/
def neighborColumn (p : Position) (distance : UInt16) (xOffset : ℤ) : List Coordinates :=
  let startOffset : ℤ := -distance.toNat
  let endOffset : ℤ := distance.toNat
  let x := (p.x : ℤ) + xOffset
  if x < 0 ∨ (maxX : ℤ) < x then []
  else
    let yOffsetIncrease := if xOffset = startOffset ∨ xOffset = endOffset then 1
      else endOffset - startOffset
    (countedOffsets distance yOffsetIncrease).flatMap fun yOffset =>
      let y := (p.y : ℤ) + yOffset
      if y < 0 ∨ (maxY : ℤ) < y then [] else [⟨throughInt16 x, throughInt16 y, p.z⟩]

/-- `neighbors` into a vector. -/
def neighborsInto (p : Position) (distance : UInt16) (target : List Coordinates) :
    List Coordinates :=
  if distance = 0 then target
  else target ++ (countedOffsets distance 1).flatMap (p.neighborColumn distance)

variable {p q : Position} {distance : UInt16} {x y : ℤ}

/-! ## The loops -/

theorem throughInt16_eq (h : 0 ≤ x) (hlt : x < 2 ^ 16) : throughInt16 x = x.toNat := by
  rw [throughInt16, BitVec.ofInt_toInt, BitVec.toNat_ofInt]
  apply congrArg
  exact Int.emod_eq_of_lt h hlt

theorem countedOffsets_eq (distance : UInt16) {increase : ℕ} (hincrease : 0 < increase) :
    countedOffsets distance increase = offsets distance.toNat increase := by
  -- the loop makes as many rounds as the increase fits into the side of the ring
  have hdiv : 2 * distance.toNat / increase * increase ≤ 2 * distance.toNat := Nat.div_mul_le_self _ _
  have hmod : 2 * distance.toNat < 2 * distance.toNat / increase * increase + increase :=
    Nat.lt_div_mul_add hincrease
  have hvalues : values distance.toNat increase (2 * distance.toNat + 1) (-(distance.toNat : ℤ)) =
      (List.range (2 * distance.toNat / increase + 1)).map
        fun i : ℕ => -(distance.toNat : ℤ) + i * increase := by
    apply values_eq_map_range
    · exact Nat.succ_le_succ (Nat.div_le_self (2 * distance.toNat) increase)
    · intro i hi
      have hle : i * increase ≤ 2 * distance.toNat / increase * increase :=
        Nat.mul_le_mul_right increase (Nat.le_of_lt_succ hi)
      rw [← Nat.cast_mul]
      omega
    · rw [← Nat.cast_mul, Nat.succ_mul]
      omega
  rw [countedOffsets, hvalues, offsets]
  apply List.map_congr_left
  intro i _
  rw [Nat.cast_mul]
  omega

/-- A position of the ring, where there is one. -/
theorem map_coordinates_of (p : Position) (x y : ℤ) :
    (Position.of x y p.z).toList.map coordinates =
      if x < 0 ∨ (maxX : ℤ) < x then []
      else if y < 0 ∨ (maxY : ℤ) < y then []
      else [⟨throughInt16 x, throughInt16 y, p.z⟩] := by
  have hmaxX : maxX = 60000 := rfl
  have hmaxY : maxY = 60000 := rfl
  cases hof : Position.of x y p.z with
  | none =>
    split
    · rfl
    split
    · rfl
    · next hx hy =>
      -- within the bounds there would be a position
      have hvalid : Position.of x y p.z = some ⟨x.toNat, y.toNat, p.z, by omega, by omega, p.z_le⟩ := by
        rw [of_eq_some]
        refine ⟨?_, ?_, rfl⟩
        · show (x.toNat : ℤ) = x
          omega
        · show (y.toNat : ℤ) = y
          omega
      rw [hof] at hvalid
      exact absurd hvalid.symm (Option.some_ne_none _)
  | some q =>
    obtain ⟨hqx, hqy, hqz⟩ := of_eq_some.mp hof
    have hx := q.x_le
    have hy := q.y_le
    rw [if_neg (by omega), if_neg (by omega), throughInt16_eq (by omega) (by omega),
      throughInt16_eq (by omega) (by omega), Option.toList_some, List.map_singleton, coordinates,
      ← hqx, ← hqy, Int.toNat_natCast, Int.toNat_natCast, Int.natCast_inj.mp hqz]

/-- A column has its positions, in the order of the search for a tile. -/
theorem neighborColumn_eq (p : Position) (hpos : 0 < distance.toNat) (xOffset : ℤ) :
    p.neighborColumn distance xOffset =
      ((offsets distance.toNat
          (if xOffset = -(distance.toNat : ℤ) ∨ xOffset = distance.toNat then 1
            else 2 * distance.toNat)).filterMap fun yOffset =>
        Position.of (p.x + xOffset) (p.y + yOffset) p.z).map coordinates := by
  -- at both ends every row is visited, between them the first and the last
  have hincrease : countedOffsets distance
      (if xOffset = -(distance.toNat : ℤ) ∨ xOffset = distance.toNat then 1
        else distance.toNat - -(distance.toNat : ℤ)) =
      offsets distance.toNat (if xOffset = -(distance.toNat : ℤ) ∨ xOffset = distance.toNat then 1
        else 2 * distance.toNat) := by
    split
    · exact countedOffsets_eq distance Nat.one_pos
    · rw [← countedOffsets_eq distance (Nat.mul_pos Nat.two_pos hpos)]
      congr 1
      omega
  have hplace (yOffset : ℤ) := map_coordinates_of p (p.x + xOffset) (p.y + yOffset)
  rw [List.filterMap_eq_flatMap_toList, List.map_flatMap, neighborColumn]
  dsimp only
  rw [hincrease]
  split
  · next hout =>
    symm
    rw [List.flatMap_eq_nil_iff]
    intro yOffset _
    rw [hplace, if_pos hout]
  · next hin =>
    congr 1
    funext yOffset
    rw [hplace, if_neg hin]

theorem neighborsInto_eq (p : Position) (distance : UInt16) (target : List Coordinates) :
    p.neighborsInto distance target =
      target ++ (p.neighbors distance.toNat).map coordinates := by
  rw [neighborsInto, neighbors]
  by_cases hzero : distance = 0
  · rw [if_pos hzero, hzero]
    exact (List.append_nil target).symm
  have hpos : 0 < distance.toNat := by
    apply Nat.pos_of_ne_zero
    exact fun h => hzero (UInt16.toNat_inj.mp h)
  rw [if_neg hzero, if_neg (Nat.ne_of_gt hpos), List.map_flatMap]
  have houter := countedOffsets_eq distance Nat.one_pos
  rw [Nat.cast_one] at houter
  rw [houter]
  congr 2
  funext xOffset
  rw [neighborColumn_eq p hpos]

/-! ## The ring -/

theorem nodup_offsets {d increase : ℕ} (hincrease : 0 < increase) :
    (offsets d increase).Nodup := by
  apply List.nodup_range.map
  intro i j hij
  dsimp only at hij
  have hmul : i * increase = j * increase := by omega
  exact Nat.eq_of_mul_eq_mul_right hincrease hmul

theorem nodup_neighbors (p : Position) (d : ℕ) : (p.neighbors d).Nodup := by
  rw [neighbors]
  split
  · exact List.nodup_nil
  next hd =>
  rw [List.nodup_flatMap]
  -- no position twice in a column, and none in two of them
  constructor
  · intro xOffset _
    apply List.Nodup.filterMap
    · intro y y' q hq hq'
      have hy := (of_eq_some.mp hq).2.1
      have hy' := (of_eq_some.mp hq').2.1
      omega
    · apply nodup_offsets
      split
      · exact Nat.one_pos
      · omega
  · apply (nodup_offsets Nat.one_pos).imp
    intro x x' hne q hq hq'
    obtain ⟨y, -, hof⟩ := List.mem_filterMap.mp hq
    obtain ⟨y', -, hof'⟩ := List.mem_filterMap.mp hq'
    have hx := (of_eq_some.mp hof).1
    have hx' := (of_eq_some.mp hof').1
    omega

/-- The ring has every position of the floor at the distance once, and nothing else. -/
theorem neighbors_ring (p : Position) (hdistance : 1 ≤ distance) :
    (p.neighborsInto distance []).Nodup ∧
      ∀ c, c ∈ p.neighborsInto distance [] ↔
        ∃ q : Position, q.coordinates = c ∧ q.z = p.z ∧
          max ((q.x : ℤ) - p.x).natAbs ((q.y : ℤ) - p.y).natAbs = distance.toNat := by
  have hpos : 0 < distance.toNat := hdistance
  -- a position is given by its coordinates
  have hinjective : Function.Injective coordinates := by
    rintro ⟨qx, qy, qz, _, _, _⟩ ⟨rx, ry, rz, _, _, _⟩ h
    obtain ⟨rfl, rfl, rfl⟩ := Coordinates.mk.inj h
    rfl
  rw [neighborsInto_eq, List.nil_append]
  refine ⟨(nodup_neighbors p _).map hinjective, ?_⟩
  intro c
  rw [List.mem_map]
  constructor
  · rintro ⟨q, hq, hc⟩
    obtain ⟨-, hz, hd⟩ := mem_neighbors.mp hq
    rw [distanceTo_of_offsets (add_sub_cancel _ _).symm (add_sub_cancel _ _).symm hz] at hd
    exact ⟨q, hc, hz, hd⟩
  · rintro ⟨q, hc, hz, hd⟩
    rw [← distanceTo_of_offsets (add_sub_cancel _ _).symm (add_sub_cancel _ _).symm hz] at hd
    exact ⟨q, mem_neighbors.mpr ⟨hpos, hz, hd⟩, hc⟩

/-- A corner of the map. -/
def corner : Position where
  x := 60000
  y := 0
  z := 7
  x_le := Nat.le_refl maxX
  y_le := Nat.zero_le maxY
  z_le := ground_le_maxZ

/-- At the border of the map the ring is cut off. -/
theorem neighbors_ring_corner : (1 : UInt16) ≤ 1 ∧
    corner.neighborsInto 1 [] = [⟨59999, 0, 7⟩, ⟨59999, 1, 7⟩, ⟨60000, 1, 7⟩] ∧
    (corner.neighborsInto 1 []).Nodup ∧
      ∀ c, c ∈ corner.neighborsInto 1 [] ↔
        ∃ q : Position, q.coordinates = c ∧ q.z = corner.z ∧
          max ((q.x : ℤ) - corner.x).natAbs ((q.y : ℤ) - corner.y).natAbs = 1 := by
  have h := neighbors_ring corner (show (1 : UInt16) ≤ 1 by decide)
  exact ⟨by decide, by decide, h.1, h.2⟩

end Position

end TyanoCore
