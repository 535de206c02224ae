import Mathlib.Algebra.Order.Ring.Nat
import Mathlib.Data.List.Basic
import Mathlib.Data.Int.Notation
import TyanoCore.Run

/-!
# A floor of the map

A floor is loaded into an array of its full size.  Once loading is complete the array is cut down to
the rectangle of the tiles that have been loaded.  To the outside a floor is a function from
coordinates to tiles, before and after.
-/

namespace TyanoCore

open Transition

/-- The largest `uint16_t`. -/
def uint16Max : ℕ := 65535

structure MapLayer (Tile : Type*) where
  completed : Bool
  endX : ℕ
  endY : ℕ
  maxLoadedX : ℕ
  maxLoadedY : ℕ
  minLoadedX : ℕ
  minLoadedY : ℕ
  startX : ℕ
  startY : ℕ
  tiles : Option (List (Option Tile))

namespace MapLayer

variable {Tile : Type*}

/-- The constructor; `clear` leaves a floor like a new one. -/
def new : MapLayer Tile where
  completed := false
  endX := 0
  endY := 0
  maxLoadedX := 0
  maxLoadedY := 0
  minLoadedX := uint16Max
  minLoadedY := uint16Max
  startX := 0
  startY := 0
  tiles := none

def clear (_ : MapLayer Tile) : MapLayer Tile := new

def prepareWithSize (l : MapLayer Tile) (width height : ℕ) : MapLayer Tile :=
  { l.clear with
    endX := width
    endY := height
    tiles := some (List.replicate (width * height) none) }

/-- The index is converted to an `int32_t`. -/
def indexForPosition (l : MapLayer Tile) (x y : ℕ) : ℤ :=
  if x < l.startX ∨ y < l.startY ∨ x ≥ l.endX ∨ y ≥ l.endY then -1
  else
    let indexX := x - l.startX
    let indexY := (l.endX - l.startX) * (y - l.startY)
    (BitVec.ofNat 32 (indexX + indexY)).toInt

/-- The tile at a position, or null; `none` when the index is not one of the array. -/
def getTile (l : MapLayer Tile) (x y : ℕ) : Option (Option Tile) :=
  let index := l.indexForPosition x y
  if index < 0 then some none else l.tiles.bind fun tiles => tiles[index.toNat]?

/-- While the floor is being loaded the rectangle of the loaded tiles grows. -/
def load (l : MapLayer Tile) (x y : ℕ) : MapLayer Tile :=
  if l.completed then l
  else
    { l with
      minLoadedX := if x < l.minLoadedX then x else l.minLoadedX
      maxLoadedX := if x > l.maxLoadedX then x else l.maxLoadedX
      minLoadedY := if y < l.minLoadedY then y else l.minLoadedY
      maxLoadedY := if y > l.maxLoadedY then y else l.maxLoadedY }

/-- Whether the tile could be set; `none` when the index is not one of the array. -/
def setTile (l : MapLayer Tile) (x y : ℕ) (tile : Option Tile) : Option (MapLayer Tile × Bool) :=
  let index := l.indexForPosition x y
  if index < 0 then some (l, false)
  else
    match l.tiles with
    | none => none
    | some tiles =>
      if index.toNat < tiles.length then
        some ({ l.load x y with tiles := some (tiles.set index.toNat tile) }, true)
      else none

/-- The rows of the loaded rectangle, from the first one on; `none` when a row reaches beyond the
array. -/
def copyRows (l : MapLayer Tile) (tiles : List (Option Tile)) (optimizedWidth : ℕ) :
    ℕ → Option (List (Option Tile))
  | 0 => some []
  | n + 1 => do
    let optimizedTiles ← copyRows l tiles optimizedWidth n
    let y := l.minLoadedY + n
    let startIndex := (l.endX - l.startX) * (y - l.startY) + l.minLoadedX
    if startIndex + optimizedWidth ≤ tiles.length then
      some (optimizedTiles ++ (tiles.drop startIndex).take optimizedWidth)
    else none

/-- `complete`; `none` when it fails its assertion or reads beyond the array. -/
def complete (l : MapLayer Tile) : Option (MapLayer Tile) :=
  if l.completed then none
  else
    match l.tiles with
    | none => some { l.clear with completed := true }
    | some tiles =>
      if l.minLoadedX > l.maxLoadedX ∨ l.minLoadedY > l.maxLoadedY then
        some { l.clear with completed := true }
      else if l.minLoadedX = l.startX ∧ l.minLoadedY = l.startY ∧
          l.maxLoadedX + 1 = l.endX ∧ l.maxLoadedY + 1 = l.endY then
        some { l with completed := true }
      else do
        let optimizedWidth := l.maxLoadedX - l.minLoadedX + 1
        let optimizedHeight := l.maxLoadedY - l.minLoadedY + 1
        let optimizedTiles ← l.copyRows tiles optimizedWidth optimizedHeight
        some
          { l with
            completed := true
            startX := l.minLoadedX
            startY := l.minLoadedY
            endX := l.maxLoadedX + 1
            endY := l.maxLoadedY + 1
            tiles := some optimizedTiles }

end MapLayer

/-! ## A floor as a store -/

/-- A floor with its size and what has been stored since it was prepared. -/
structure LayerStore (Tile : Type*) where
  layer : MapLayer Tile
  width : ℕ
  height : ℕ
  stored : ℕ → ℕ → Option Tile

inductive LayerAction (Tile : Type*) where
  | prepareWithSize (width height : ℕ)
  | setTile (x y : ℕ) (tile : Option Tile)
  | complete

namespace LayerStore

variable {Tile : Type*}

def new : LayerStore Tile := ⟨.new, 0, 0, fun _ _ => none⟩

/-- The calls on a floor; its size is such that an index fits into an `int32_t`. -/
def step (s : LayerStore Tile) : LayerAction Tile → Option (LayerStore Tile)
  | .prepareWithSize width height =>
    if width ≤ uint16Max ∧ height ≤ uint16Max ∧ width * height < 2 ^ 31 then
      some ⟨s.layer.prepareWithSize width height, width, height, fun _ _ => none⟩
    else none
  | .setTile x y tile =>
    (s.layer.setTile x y tile).map fun (layer, success) =>
      { s with
        layer := layer
        stored := if success then
            fun x' y' => if x' = x ∧ y' = y then tile else s.stored x' y'
          else s.stored }
  | .complete => s.layer.complete.map fun layer => { s with layer := layer }

/-- A position in the rectangle that the array stands for. -/
def InBox (l : MapLayer Tile) (x y : ℕ) : Prop :=
  l.startX ≤ x ∧ x < l.endX ∧ l.startY ≤ y ∧ y < l.endY

/-- Where a position of the rectangle is in the array. -/
def offset (l : MapLayer Tile) (x y : ℕ) : ℕ :=
  (x - l.startX) + (l.endX - l.startX) * (y - l.startY)

/-- No tile has been loaded, or the loaded rectangle lies in the floor. -/
def LoadedBox (l : MapLayer Tile) : Prop :=
  (l.minLoadedX = uint16Max ∧ l.maxLoadedX = 0 ∧ l.minLoadedY = uint16Max ∧ l.maxLoadedY = 0) ∨
  (l.minLoadedX ≤ l.maxLoadedX ∧ l.maxLoadedX < l.endX ∧
    l.minLoadedY ≤ l.maxLoadedY ∧ l.maxLoadedY < l.endY)

/-- The array holds what has been stored. -/
structure Laid (s : LayerStore Tile) : Prop where
  width_le : s.width ≤ uint16Max
  height_le : s.height ≤ uint16Max
  size_lt : s.width * s.height < 2 ^ 31
  startX_le : s.layer.startX ≤ s.layer.endX
  startY_le : s.layer.startY ≤ s.layer.endY
  endX_le : s.layer.endX ≤ s.width
  endY_le : s.layer.endY ≤ s.height
  loading : s.layer.completed = false → s.layer.startX = 0 ∧ s.layer.startY = 0 ∧
    s.layer.endX = s.width ∧ s.layer.endY = s.height
  loadedBox : s.layer.completed = false → LoadedBox s.layer
  stored_loaded : s.layer.completed = false → ∀ x y, s.stored x y ≠ none →
    s.layer.minLoadedX ≤ x ∧ x ≤ s.layer.maxLoadedX ∧
      s.layer.minLoadedY ≤ y ∧ y ≤ s.layer.maxLoadedY
  stored_inBox : ∀ x y, s.stored x y ≠ none → InBox s.layer x y
  array : ∀ x y, InBox s.layer x y → ∃ tiles, s.layer.tiles = some tiles ∧
    tiles.length = (s.layer.endX - s.layer.startX) * (s.layer.endY - s.layer.startY) ∧
    tiles[offset s.layer x y]? = some (s.stored x y)

variable {s t : LayerStore Tile} {l : MapLayer Tile} {x y : ℕ}

/-! ## Indexes -/

theorem offset_lt (hin : InBox l x y) :
    offset l x y < (l.endX - l.startX) * (l.endY - l.startY) := by
  obtain ⟨hx, hx', hy, hy'⟩ := hin
  have hrow : y - l.startY + 1 ≤ l.endY - l.startY := by omega
  calc offset l x y
      < (l.endX - l.startX) + (l.endX - l.startX) * (y - l.startY) := by
        unfold offset
        omega
    _ = (l.endX - l.startX) * (y - l.startY + 1) := by
        rw [Nat.mul_succ, Nat.add_comm]
    _ ≤ (l.endX - l.startX) * (l.endY - l.startY) := Nat.mul_le_mul_left _ hrow

/-- Two positions of the rectangle are at different places. -/
theorem offset_injective {x' y' : ℕ} (hin : InBox l x y) (hin' : InBox l x' y')
    (h : offset l x y = offset l x' y') : x = x' ∧ y = y' := by
  obtain ⟨hx, hx₁, hy, hy₁⟩ := hin
  obtain ⟨hx', hx₁', hy', hy₁'⟩ := hin'
  unfold offset at h
  have hpos : 0 < l.endX - l.startX := by omega
  have hmod : x - l.startX = x' - l.startX := by
    -- the column is the remainder by the width, the row what is left
    have hmods := congrArg (· % (l.endX - l.startX)) h
    simp only [Nat.add_mul_mod_self_left] at hmods
    rwa [Nat.mod_eq_of_lt (by omega), Nat.mod_eq_of_lt (by omega)] at hmods
  have hrow : y - l.startY = y' - l.startY := by
    rw [hmod] at h
    exact Nat.eq_of_mul_eq_mul_left hpos (Nat.add_left_cancel h)
  omega

theorem Laid.size_box (h : Laid s) : (s.layer.endX - s.layer.startX) *
    (s.layer.endY - s.layer.startY) < 2 ^ 31 := by
  have hx := h.endX_le
  have hy := h.endY_le
  calc (s.layer.endX - s.layer.startX) * (s.layer.endY - s.layer.startY)
      ≤ s.width * s.height := Nat.mul_le_mul (by omega) (by omega)
    _ < 2 ^ 31 := h.size_lt

/-- The index of a position of the rectangle fits into an `int32_t`. -/
theorem Laid.index_eq (h : Laid s) (hin : InBox s.layer x y) :
    s.layer.indexForPosition x y = offset s.layer x y := by
  have hlt := Nat.lt_trans (offset_lt hin) h.size_box
  unfold InBox at hin
  rw [MapLayer.indexForPosition, if_neg (by omega)]
  change (BitVec.ofNat 32 (offset s.layer x y)).toInt = _
  have hnat : (BitVec.ofNat 32 (offset s.layer x y)).toNat = offset s.layer x y := by
    rw [BitVec.toNat_ofNat]
    exact Nat.mod_eq_of_lt (by omega)
  rw [BitVec.toInt_eq_toNat_of_lt (by rw [hnat]; omega), hnat]

theorem index_of_not_inBox (hin : ¬ InBox l x y) : l.indexForPosition x y = -1 := by
  unfold InBox at hin
  exact if_pos (by omega)

/-- A floor returns what has been stored, and null everywhere else. -/
theorem Laid.getTile_eq (h : Laid s) (x y : ℕ) : s.layer.getTile x y = some (s.stored x y) := by
  unfold MapLayer.getTile
  by_cases hin : InBox s.layer x y
  · obtain ⟨tiles, htiles, -, hget⟩ := h.array x y hin
    rw [h.index_eq hin]
    simp only [if_neg (Int.not_lt.mpr (Int.natCast_nonneg _)), Int.toNat_natCast, htiles,
      Option.bind_some, hget]
  · have hnone : s.stored x y = none := by
      by_contra hne
      exact hin (h.stored_inBox x y hne)
    rw [index_of_not_inBox hin, hnone]
    rfl

/-! ## What a call does to the array -/

theorem laid_prepareWithSize (s : LayerStore Tile) {width height : ℕ} (hw : width ≤ uint16Max)
    (hh : height ≤ uint16Max) (hsize : width * height < 2 ^ 31) :
    Laid ⟨s.layer.prepareWithSize width height, width, height, fun _ _ => none⟩ where
  width_le := hw
  height_le := hh
  size_lt := hsize
  startX_le := Nat.zero_le _
  startY_le := Nat.zero_le _
  endX_le := le_rfl
  endY_le := le_rfl
  loading _ := ⟨rfl, rfl, rfl, rfl⟩
  loadedBox _ := .inl ⟨rfl, rfl, rfl, rfl⟩
  stored_loaded _ x y hne := absurd rfl hne
  stored_inBox x y hne := absurd rfl hne
  array x y hin := by
    have hlt := offset_lt hin
    refine ⟨_, rfl, ?_, ?_⟩
    · rw [List.length_replicate]
      rfl
    · rw [List.getElem?_replicate]
      exact if_pos hlt

theorem laid_new : Laid (new : LayerStore Tile) where
  width_le := Nat.zero_le _
  height_le := Nat.zero_le _
  size_lt := by
    change 0 * 0 < 2 ^ 31
    decide
  startX_le := le_rfl
  startY_le := le_rfl
  endX_le := le_rfl
  endY_le := le_rfl
  loading _ := ⟨rfl, rfl, rfl, rfl⟩
  loadedBox _ := .inl ⟨rfl, rfl, rfl, rfl⟩
  stored_loaded _ x y hne := absurd rfl hne
  stored_inBox x y hne := absurd rfl hne
  array x y hin := absurd hin.2.1 (Nat.not_lt_zero x)

/-- A tile that can be set is stored and nothing else changes; outside the rectangle nothing
happens. -/
theorem Laid.setTile_eq (h : Laid s) (x y : ℕ) (tile : Option Tile) :
    (¬ InBox s.layer x y ∧ s.layer.setTile x y tile = some (s.layer, false)) ∨
    (InBox s.layer x y ∧ ∃ tiles, s.layer.tiles = some tiles ∧
      offset s.layer x y < tiles.length ∧ s.layer.setTile x y tile =
        some ({ s.layer.load x y with
          tiles := some (tiles.set (offset s.layer x y) tile) }, true)) := by
  by_cases hin : InBox s.layer x y
  · obtain ⟨tiles, htiles, hlength, -⟩ := h.array x y hin
    have hlt := offset_lt hin
    rw [← hlength] at hlt
    refine .inr ⟨hin, tiles, htiles, hlt, ?_⟩
    unfold MapLayer.setTile
    rw [h.index_eq hin]
    simp only [if_neg (Int.not_lt.mpr (Int.natCast_nonneg _)), Int.toNat_natCast, htiles,
      if_pos hlt]
  · refine .inl ⟨hin, ?_⟩
    unfold MapLayer.setTile
    rw [index_of_not_inBox hin]
    rfl

section Load

variable (l : MapLayer Tile) (x y : ℕ)

@[simp] theorem startX_load : (l.load x y).startX = l.startX := by
  unfold MapLayer.load
  split <;> rfl

@[simp] theorem startY_load : (l.load x y).startY = l.startY := by
  unfold MapLayer.load
  split <;> rfl

@[simp] theorem endX_load : (l.load x y).endX = l.endX := by
  unfold MapLayer.load
  split <;> rfl

@[simp] theorem endY_load : (l.load x y).endY = l.endY := by
  unfold MapLayer.load
  split <;> rfl

@[simp] theorem completed_load : (l.load x y).completed = l.completed := by
  unfold MapLayer.load
  split <;> rfl

end Load

/-- The rectangle of the loaded tiles has grown by a position. -/
theorem load_loaded {l : MapLayer Tile} (hl : l.completed = false) (hin : InBox l x y)
    (hx : x ≤ uint16Max) (hy : y ≤ uint16Max) (hbox : LoadedBox l) :
    LoadedBox (l.load x y) ∧
    ∀ x' y', (x' = x ∧ y' = y) ∨ (l.minLoadedX ≤ x' ∧ x' ≤ l.maxLoadedX ∧
        l.minLoadedY ≤ y' ∧ y' ≤ l.maxLoadedY) →
      (l.load x y).minLoadedX ≤ x' ∧ x' ≤ (l.load x y).maxLoadedX ∧
        (l.load x y).minLoadedY ≤ y' ∧ y' ≤ (l.load x y).maxLoadedY := by
  obtain ⟨-, hx₁, -, hy₁⟩ := hin
  have hload : ¬ l.completed = true := by
    rw [hl]
    exact Bool.false_ne_true
  unfold MapLayer.load
  rw [if_neg hload]
  unfold LoadedBox at hbox ⊢
  simp only
  constructor
  · right
    -- the first tile to be loaded makes the rectangle, another one makes it larger
    rcases hbox with ⟨hminx, hmaxx, hminy, hmaxy⟩ | ⟨hminx, hmaxx, hminy, hmaxy⟩
    · rw [hminx, hmaxx, hminy, hmaxy]
      refine ⟨?_, ?_, ?_, ?_⟩ <;> repeat' split
      all_goals omega
    · refine ⟨?_, ?_, ?_, ?_⟩ <;> repeat' split
      all_goals omega
  · intro x' y' h
    refine ⟨?_, ?_, ?_, ?_⟩ <;> split <;> omega

theorem Laid.setTile (h : Laid s) {tile : Option Tile} {layer : MapLayer Tile} {success : Bool}
    (hset : s.layer.setTile x y tile = some (layer, success)) :
    Laid { s with
      layer := layer
      stored := if success then
          fun x' y' => if x' = x ∧ y' = y then tile else s.stored x' y'
        else s.stored } := by
  rcases h.setTile_eq x y tile with ⟨-, heq⟩ | ⟨hin, tiles, htiles, hlt, heq⟩
  · obtain ⟨rfl, rfl⟩ := Prod.mk.inj (Option.some.inj (heq.symm.trans hset))
    exact h
  obtain ⟨rfl, rfl⟩ := Prod.mk.inj (Option.some.inj (heq.symm.trans hset))
  have hx : x ≤ uint16Max := by
    have := h.width_le
    have := h.endX_le
    have := hin.2.1
    omega
  have hy : y ≤ uint16Max := by
    have := h.height_le
    have := h.endY_le
    have := hin.2.2.2
    omega
  -- the rectangle is the same as before, and so are the places of its positions
  have hbox {l : MapLayer Tile} (hl : l = { s.layer.load x y with
      tiles := some (tiles.set (offset s.layer x y) tile) }) (x' y' : ℕ) :
      (InBox l x' y' ↔ InBox s.layer x' y') ∧ offset l x' y' = offset s.layer x' y' := by
    subst hl
    simp [InBox, offset]
  constructor
  case width_le => exact h.width_le
  case height_le => exact h.height_le
  case size_lt => exact h.size_lt
  case startX_le => simpa using h.startX_le
  case startY_le => simpa using h.startY_le
  case endX_le => simpa using h.endX_le
  case endY_le => simpa using h.endY_le
  case loading => simpa using h.loading
  case loadedBox =>
    intro hl
    simp only [completed_load] at hl
    exact (load_loaded hl hin hx hy (h.loadedBox hl)).1
  case stored_loaded =>
    intro hl x' y' hne
    simp only [completed_load] at hl
    apply (load_loaded hl hin hx hy (h.loadedBox hl)).2
    by_cases hxy : x' = x ∧ y' = y
    · exact .inl hxy
    · simp only [if_true, if_neg hxy] at hne
      exact .inr (h.stored_loaded hl x' y' hne)
  case stored_inBox =>
    intro x' y' hne
    apply (hbox rfl x' y').1.mpr
    by_cases hxy : x' = x ∧ y' = y
    · rw [hxy.1, hxy.2]
      exact hin
    · simp only [if_true, if_neg hxy] at hne
      exact h.stored_inBox x' y' hne
  case array =>
    intro x' y' hin'
    obtain ⟨hiff, hoffset⟩ := hbox rfl x' y'
    obtain ⟨tiles', htiles', hlength, hget⟩ := h.array x' y' (hiff.mp hin')
    obtain rfl := Option.some.inj (htiles.symm.trans htiles')
    refine ⟨_, rfl, ?_, ?_⟩
    · rw [List.length_set]
      simpa using hlength
    · rw [hoffset, List.getElem?_set]
      simp only [if_true]
      by_cases hxy : x' = x ∧ y' = y
      · obtain ⟨rfl, rfl⟩ := hxy
        rw [if_pos rfl, if_pos hlt, if_pos ⟨rfl, rfl⟩]
      · have hne : offset s.layer x y ≠ offset s.layer x' y' := by
          intro heq
          obtain ⟨h₁, h₂⟩ := offset_injective hin (hiff.mp hin') heq
          exact hxy ⟨h₁.symm, h₂.symm⟩
        rw [if_neg hne, if_neg hxy]
        exact hget

/-! ## Cutting down the array -/

/-- Where a row of the loaded rectangle starts in the array. -/
def rowStart (l : MapLayer Tile) (j : ℕ) : ℕ :=
  (l.endX - l.startX) * (l.minLoadedY + j - l.startY) + l.minLoadedX

theorem copyRows_spec (l : MapLayer Tile) (tiles : List (Option Tile)) (width : ℕ) (n : ℕ)
    (hrows : ∀ j < n, rowStart l j + width ≤ tiles.length) :
    ∃ rows, l.copyRows tiles width n = some rows ∧ rows.length = width * n ∧
      ∀ i < width, ∀ j < n, rows[i + width * j]? = tiles[rowStart l j + i]? := by
  induction n with
  | zero => exact ⟨[], rfl, rfl, fun i _ j hj => absurd hj (Nat.not_lt_zero j)⟩
  | succ n ih =>
    obtain ⟨rows, hcopy, hlength, hget⟩ := ih fun j hj => hrows j (Nat.lt_succ_of_lt hj)
    have hlast := hrows n (Nat.lt_succ_self n)
    have hrow : ((tiles.drop (rowStart l n)).take width).length = width := by
      rw [List.length_take, List.length_drop]
      omega
    refine ⟨rows ++ (tiles.drop (rowStart l n)).take width, ?_, ?_, ?_⟩
    · rw [MapLayer.copyRows, hcopy]
      exact if_pos hlast
    · rw [List.length_append, hlength, hrow, Nat.mul_succ]
    · intro i hi j hj
      rcases Nat.lt_succ_iff_lt_or_eq.mp hj with hj | rfl
      · have hrowle : j + 1 ≤ n := hj
        have hlt : i + width * j < rows.length := by
          calc i + width * j < width * (j + 1) := by
                rw [Nat.mul_succ]
                omega
            _ ≤ width * n := Nat.mul_le_mul_left width hrowle
            _ = rows.length := hlength.symm
        rw [List.getElem?_append_left hlt]
        exact hget i hi j hj
      · rw [List.getElem?_append_right (by omega), hlength, Nat.add_sub_cancel,
          List.getElem?_take_of_lt hi, List.getElem?_drop]

/-- Without a stored tile the array can be given up. -/
theorem Laid.cleared (h : Laid s) (hempty : ∀ x y, s.stored x y = none) :
    Laid { s with layer := { s.layer.clear with completed := true } } where
  width_le := h.width_le
  height_le := h.height_le
  size_lt := h.size_lt
  startX_le := le_rfl
  startY_le := le_rfl
  endX_le := Nat.zero_le _
  endY_le := Nat.zero_le _
  loading hf := Bool.noConfusion hf
  loadedBox hf := Bool.noConfusion hf
  stored_loaded hf := Bool.noConfusion hf
  stored_inBox x y hne := absurd (hempty x y) hne
  array x _ hin := absurd hin.2.1 (Nat.not_lt_zero x)

/-- A floor that is loaded from border to border keeps its array. -/
theorem Laid.kept (h : Laid s) : Laid { s with layer := { s.layer with completed := true } } where
  width_le := h.width_le
  height_le := h.height_le
  size_lt := h.size_lt
  startX_le := h.startX_le
  startY_le := h.startY_le
  endX_le := h.endX_le
  endY_le := h.endY_le
  loading hf := Bool.noConfusion hf
  loadedBox hf := Bool.noConfusion hf
  stored_loaded hf := Bool.noConfusion hf
  stored_inBox := h.stored_inBox
  array := h.array

/-- The rows of the loaded rectangle lie in the array, and are an array of their own. -/
theorem Laid.cutDown (h : Laid s) (hopen : s.layer.completed = false)
    (hminx : s.layer.minLoadedX ≤ s.layer.maxLoadedX) (hmaxx : s.layer.maxLoadedX < s.layer.endX)
    (hminy : s.layer.minLoadedY ≤ s.layer.maxLoadedY) (hmaxy : s.layer.maxLoadedY < s.layer.endY)
    {tiles : List (Option Tile)} (htiles : s.layer.tiles = some tiles) :
    ∃ rows, s.layer.copyRows tiles (s.layer.maxLoadedX - s.layer.minLoadedX + 1)
        (s.layer.maxLoadedY - s.layer.minLoadedY + 1) = some rows ∧
      Laid { s with layer := { s.layer with
        completed := true
        startX := s.layer.minLoadedX
        startY := s.layer.minLoadedY
        endX := s.layer.maxLoadedX + 1
        endY := s.layer.maxLoadedY + 1
        tiles := some rows } } := by
  obtain ⟨hsx, hsy, hex, hey⟩ := h.loading hopen
  -- before completion the array begins at the origin, so the places are plain
  have harray (x y : ℕ) (hin : InBox s.layer x y) :
      tiles.length = s.layer.endX * s.layer.endY ∧
        tiles[x + s.layer.endX * y]? = some (s.stored x y) := by
    obtain ⟨tiles', htiles', hlength, hget⟩ := h.array x y hin
    obtain rfl := Option.some.inj (htiles.symm.trans htiles')
    unfold offset at hget
    rw [hsx, hsy, Nat.sub_zero, Nat.sub_zero] at hlength
    rw [hsx, hsy, Nat.sub_zero, Nat.sub_zero, Nat.sub_zero] at hget
    exact ⟨hlength, hget⟩
  have hstart (j : ℕ) : rowStart s.layer j =
      s.layer.endX * (s.layer.minLoadedY + j) + s.layer.minLoadedX := by
    unfold rowStart
    rw [hsx, hsy, Nat.sub_zero, Nat.sub_zero]
  have hlength := (harray s.layer.minLoadedX s.layer.minLoadedY
    ⟨by omega, by omega, by omega, by omega⟩).1
  have hrows : ∀ j < s.layer.maxLoadedY - s.layer.minLoadedY + 1,
      rowStart s.layer j + (s.layer.maxLoadedX - s.layer.minLoadedX + 1) ≤ tiles.length := by
    intro j hj
    -- a row ends before the next row of the array begins
    have hrow : s.layer.minLoadedY + j + 1 ≤ s.layer.endY := by omega
    calc rowStart s.layer j + (s.layer.maxLoadedX - s.layer.minLoadedX + 1)
        ≤ s.layer.endX * (s.layer.minLoadedY + j + 1) := by
          rw [hstart, Nat.mul_succ]
          omega
      _ ≤ s.layer.endX * s.layer.endY := Nat.mul_le_mul_left _ hrow
      _ = tiles.length := hlength.symm
  obtain ⟨rows, hcopy, hrowsLength, hget⟩ := copyRows_spec s.layer tiles _ _ hrows
  refine ⟨rows, hcopy, ?_⟩
  have hwidth := h.endX_le
  have hheight := h.endY_le
  constructor
  case width_le => exact h.width_le
  case height_le => exact h.height_le
  case size_lt => exact h.size_lt
  case startX_le =>
    simp only
    omega
  case startY_le =>
    simp only
    omega
  case endX_le =>
    simp only
    omega
  case endY_le =>
    simp only
    omega
  case loading => exact fun hf => Bool.noConfusion hf
  case loadedBox => exact fun hf => Bool.noConfusion hf
  case stored_loaded => exact fun hf => Bool.noConfusion hf
  case stored_inBox =>
    intro x y hne
    obtain ⟨h₁, h₂, h₃, h₄⟩ := h.stored_loaded hopen x y hne
    exact ⟨h₁, Nat.lt_succ_of_le h₂, h₃, Nat.lt_succ_of_le h₄⟩
  case array =>
    rintro x y ⟨hx, hx', hy, hy'⟩
    simp only at hx hx' hy hy'
    refine ⟨rows, rfl, ?_, ?_⟩
    · simp only
      rw [hrowsLength]
      congr 1 <;> omega
    · have hwidth' : s.layer.maxLoadedX + 1 - s.layer.minLoadedX =
          s.layer.maxLoadedX - s.layer.minLoadedX + 1 := by omega
      -- the place of a position in the new array is a copy of its place in the old one
      have hplace : rowStart s.layer (y - s.layer.minLoadedY) + (x - s.layer.minLoadedX) =
          x + s.layer.endX * y := by
        have hy'' : s.layer.minLoadedY + (y - s.layer.minLoadedY) = y := by omega
        rw [hstart, hy'']
        omega
      simp only [offset, hwidth']
      rw [hget _ (by omega) _ (by omega), hplace]
      exact (harray x y ⟨by omega, by omega, by omega, by omega⟩).2

/-- A floor that is loaded can be completed. -/
theorem Laid.complete (h : Laid s) (hopen : s.layer.completed = false) :
    ∃ layer, s.layer.complete = some layer ∧ Laid { s with layer := layer } := by
  have hnot : ¬ s.layer.completed = true := by
    rw [hopen]
    exact Bool.false_ne_true
  unfold MapLayer.complete
  rw [if_neg hnot]
  rcases h.loadedBox hopen with ⟨hminx, hmaxx, -, -⟩ | ⟨hminx, hmaxx, hminy, hmaxy⟩
  · -- no tile has been loaded, so none has been stored
    have hmin : s.layer.minLoadedX > s.layer.maxLoadedX := by
      rw [hminx, hmaxx]
      decide
    have hempty (x y : ℕ) : s.stored x y = none := by
      by_contra hne
      obtain ⟨h₁, h₂, -, -⟩ := h.stored_loaded hopen x y hne
      omega
    cases s.layer.tiles with
    | none => exact ⟨_, rfl, h.cleared hempty⟩
    | some tiles => exact ⟨_, if_pos (.inl hmin), h.cleared hempty⟩
  · have hstart := h.loading hopen
    obtain ⟨tiles, htiles, -, -⟩ := h.array s.layer.minLoadedX s.layer.minLoadedY
      ⟨by omega, by omega, by omega, by omega⟩
    obtain ⟨rows, hcopy, hlaid⟩ := h.cutDown hopen hminx hmaxx hminy hmaxy htiles
    rw [htiles]
    simp only
    rw [if_neg (by omega)]
    split
    · -- loaded from border to border: the array stays
      have hkept := h.kept
      simp only [htiles] at hkept
      exact ⟨_, rfl, hkept⟩
    · rw [hcopy]
      exact ⟨_, rfl, hlaid⟩

/-! ## Runs -/

theorem Laid.step (h : Laid s) {a : LayerAction Tile} (hstep : s.step a = some t) : Laid t := by
  cases a with
  | prepareWithSize width height =>
    rw [LayerStore.step] at hstep
    split at hstep
    · next hsize =>
      obtain rfl := Option.some.inj hstep
      exact laid_prepareWithSize s hsize.1 hsize.2.1 hsize.2.2
    · exact absurd hstep.symm (Option.some_ne_none _)
  | setTile x y tile =>
    obtain ⟨⟨layer, success⟩, hset, rfl⟩ := Option.map_eq_some_iff.mp hstep
    exact h.setTile hset
  | complete =>
    obtain ⟨layer, hcomplete, rfl⟩ := Option.map_eq_some_iff.mp hstep
    have hopen : s.layer.completed = false := by
      by_contra hne
      rw [MapLayer.complete, if_pos (Bool.eq_true_of_not_eq_false hne)] at hcomplete
      exact absurd hcomplete.symm (Option.some_ne_none _)
    obtain ⟨layer', heq, hlaid⟩ := h.complete hopen
    obtain rfl := Option.some.inj (hcomplete.symm.trans heq)
    exact hlaid

/-- The calls on a floor never leave its array.  A floor returns what was last stored since it was
prepared, and null elsewhere; while it is loaded a tile can be set exactly within its size; and
completing it changes nothing that it returns. -/
theorem mapLayer_stores (actions : List (LayerAction Tile))
    (hrun : runActions step new actions = some s) :
    (∀ x y, s.layer.getTile x y = some (s.stored x y)) ∧
    (∀ x y tile, ∃ layer success, s.layer.setTile x y tile = some (layer, success) ∧
      (s.layer.completed = false → (success = true ↔ x < s.width ∧ y < s.height))) ∧
    (s.layer.completed = false → ∃ layer, s.layer.complete = some layer ∧
      ∀ x y, layer.getTile x y = s.layer.getTile x y) := by
  have hreach : (System.ofStep (· = (new : LayerStore Tile)) step).Reachable s :=
    reachable_of_runActions (.init rfl) hrun
  have hlaid : Laid s := by
    apply hreach.invariant
    · rintro s rfl
      exact laid_new
    · exact fun s a t hs hst => hs.step hst
  refine ⟨hlaid.getTile_eq, fun x y tile => ?_, fun hopen => ?_⟩
  · rcases hlaid.setTile_eq x y tile with ⟨hnot, heq⟩ | ⟨hin, tiles, -, -, heq⟩
    · refine ⟨_, _, heq, fun hopen => ⟨fun hf => Bool.noConfusion hf, fun hsize => ?_⟩⟩
      obtain ⟨hsx, hsy, hex, hey⟩ := hlaid.loading hopen
      exact absurd ⟨by omega, by omega, by omega, by omega⟩ hnot
    · refine ⟨_, _, heq, fun hopen => ⟨fun _ => ?_, fun _ => rfl⟩⟩
      obtain ⟨-, -, hex, hey⟩ := hlaid.loading hopen
      exact ⟨hex ▸ hin.2.1, hey ▸ hin.2.2.2⟩
  · obtain ⟨layer, hcomplete, hafter⟩ := hlaid.complete hopen
    refine ⟨layer, hcomplete, fun x y => ?_⟩
    rw [hlaid.getTile_eq x y]
    exact hafter.getTile_eq x y

/-- Two tiles on a floor of four by three, of which the rectangle between them is left. -/
theorem mapLayer_stores_corner :
    ∃ s : LayerStore ℕ, runActions step new
        [.prepareWithSize 4 3, .setTile 1 1 (some 7), .setTile 2 2 (some 8), .setTile 9 1 (some 9),
          .complete] = some s ∧
      s.layer.tiles = some [some 7, none, none, some 8] ∧
      ∀ x y, s.layer.getTile x y = some (s.stored x y) :=
  ⟨_, rfl, rfl, (mapLayer_stores [.prepareWithSize 4 3, .setTile 1 1 (some 7),
    .setTile 2 2 (some 8), .setTile 9 1 (some 9), .complete] rfl).1⟩

end LayerStore

end TyanoCore
