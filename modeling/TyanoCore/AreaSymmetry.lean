import Mathlib.Data.List.GetD
import TyanoCore.CombatArea

/-!
# The symmetry of spell areas

Each copy of a matrix takes the value at a place from one place of the given matrix: a rotation turns
around the two centers, a mirrored or flipped copy reverses the columns or the rows.  With the center
that the copy gets, this says which offset of the given matrix an offset of the copy stands for.
-/

namespace TyanoCore

open MatrixOperation

/-! ## Copies of a matrix -/

theorem MatrixArea.setCenter_centerX (area : MatrixArea) (y x : ℤ) :
    ((area.setCenter y x).centerX : ℤ) = x % 2 ^ 16 :=
  Int.toNat_of_nonneg (Int.emod_nonneg x (by decide))

theorem MatrixArea.setCenter_centerY (area : MatrixArea) (y x : ℤ) :
    ((area.setCenter y x).centerY : ℤ) = y % 2 ^ 16 :=
  Int.toNat_of_nonneg (Int.emod_nonneg y (by decide))

/-- What a copy onto a new matrix is: its size, its center, and where its values come from. -/
structure CopyOf (input area : MatrixArea) (rows cols : ℕ) (centerX centerY : ℤ)
    (fromRow fromCol : ℤ → ℤ → ℤ) : Prop where
  rows_eq : area.rows = rows
  cols_eq : area.cols = cols
  centerX_eq : (area.centerX : ℤ) = centerX % 2 ^ 16
  centerY_eq : (area.centerY : ℤ) = centerY % 2 ^ 16
  value_eq : ∀ row col,
    area.value false row col = input.value false (fromRow row col) (fromCol row col)

variable {input : MatrixArea} {rows cols : ℕ}

/-- A loop whose copies stay within the matrices and miss no cell. -/
theorem copyArea_copyOf {op : MatrixOperation} {centerX centerY : ℤ} {fromRow fromCol : ℤ → ℤ → ℤ}
    (hcenter : ∀ grid, input.transfer (copyCells input (.new rows cols) op)
        (Grid.blank false rows cols) = some grid →
      copyArea input (.new rows cols) op =
        some (MatrixArea.setCenter ⟨grid, 0, 0⟩ centerY centerX))
    (hwithin : ∀ c ∈ copyCells input (.new rows cols) op,
      (Grid.blank false rows cols).Has c.row c.col ∧ input.Has c.fromRow c.fromCol ∧
        c.fromRow = fromRow c.row c.col ∧ c.fromCol = fromCol c.row c.col)
    (hall : ∀ row col, input.Has (fromRow row col) (fromCol row col) →
      ∃ c ∈ copyCells input (.new rows cols) op, c.row = row ∧ c.col = col) :
    ∃ area, copyArea input (.new rows cols) op = some area ∧
      CopyOf input area rows cols centerX centerY fromRow fromCol := by
  have htransfer := Grid.transfer_value fromRow fromCol _ hwithin hall
  obtain ⟨grid, hgrid, hrows, hcols, hvalue⟩ := htransfer
  refine ⟨_, hcenter grid hgrid, ?_⟩
  constructor
  · exact hrows
  · exact hcols
  · exact MatrixArea.setCenter_centerX _ _ _
  · exact MatrixArea.setCenter_centerY _ _ _
  · exact hvalue

theorem copyArea_mirror (input : MatrixArea) (rows cols : ℕ) (hrows : input.rows ≤ rows)
    (hcols : input.cols ≤ cols) :
    ∃ area, copyArea input (.new rows cols) .mirror = some area ∧
      CopyOf input area rows cols ((input.rows : ℤ) - 1 - input.centerX) input.centerY
        (fun row _ => row) (fun _ col => (input.cols : ℤ) - 1 - col) := by
  apply copyArea_copyOf
  · intro grid hgrid
    rw [copyArea, show (MatrixArea.new rows cols).toGrid = Grid.blank false rows cols from rfl, hgrid]
    rfl
  · intro c hc
    simp only [copyCells, List.mem_flatMap, List.mem_map, List.mem_range] at hc
    obtain ⟨y, hy, rx, hrx, rfl⟩ := hc
    simp only [Grid.Has, Grid.blank, and_true]
    omega
  · intro row col hhas
    rw [Grid.Has] at hhas
    refine ⟨⟨row.toNat, col.toNat, row.toNat, (input.cols : ℤ) - 1 - col.toNat⟩, ?_, ?_, ?_⟩
    · simp only [copyCells, List.mem_flatMap, List.mem_map, List.mem_range]
      exact ⟨row.toNat, by omega, col.toNat, by omega, rfl⟩
    · exact Int.toNat_of_nonneg hhas.1
    · exact Int.toNat_of_nonneg (by omega)

theorem copyArea_flip (input : MatrixArea) (rows cols : ℕ) (hrows : input.rows ≤ rows)
    (hcols : input.cols ≤ cols) :
    ∃ area, copyArea input (.new rows cols) .flip = some area ∧
      CopyOf input area rows cols input.centerX ((input.cols : ℤ) - 1 - input.centerY)
        (fun row _ => (input.rows : ℤ) - 1 - row) (fun _ col => col) := by
  apply copyArea_copyOf
  · intro grid hgrid
    rw [copyArea, show (MatrixArea.new rows cols).toGrid = Grid.blank false rows cols from rfl, hgrid]
    rfl
  · intro c hc
    simp only [copyCells, List.mem_flatMap, List.mem_map, List.mem_range] at hc
    obtain ⟨x, hx, ry, hry, rfl⟩ := hc
    simp only [Grid.Has, Grid.blank, and_true]
    omega
  · intro row col hhas
    rw [Grid.Has] at hhas
    refine ⟨⟨row.toNat, col.toNat, (input.rows : ℤ) - 1 - row.toNat, col.toNat⟩, ?_, ?_, ?_⟩
    · simp only [copyCells, List.mem_flatMap, List.mem_map, List.mem_range]
      exact ⟨col.toNat, by omega, row.toNat, by omega, rfl⟩
    · exact Int.toNat_of_nonneg (by omega)
    · exact Int.toNat_of_nonneg hhas.2.2.1

/-- The rotations of `copyArea`. -/
def MatrixOperation.IsRotation (op : MatrixOperation) : Prop :=
  op = rotate90 ∨ op = rotate180 ∨ op = rotate270

theorem copyCells_rotation (input output : MatrixArea) {op : MatrixOperation} (hop : op.IsRotation) :
    copyCells input output op =
      (List.range input.cols).flatMap fun x : ℕ => (List.range input.rows).map fun y : ℕ =>
        { row := (x - input.centerX) * op.sin + (y - input.centerY) * op.cos +
            rotateCenterY output
          col := (x - input.centerX) * op.cos - (y - input.centerY) * op.sin +
            rotateCenterX output
          fromRow := y
          fromCol := x } := by
  rcases hop with rfl | rfl | rfl <;> rfl

/-- Each of the angles swaps or reverses the axes. -/
theorem turn_cases {op : MatrixOperation} (hop : op.IsRotation) :
    (op.cos = 0 ∧ op.sin = 1) ∨ (op.cos = -1 ∧ op.sin = 0) ∨ (op.cos = 0 ∧ op.sin = -1) := by
  rcases hop with rfl | rfl | rfl <;> decide

/-- A rotation onto a square that is twice as large as the longer side. -/
theorem copyArea_rotation (input : MatrixArea) {op : MatrixOperation} (hop : op.IsRotation)
    (hx : input.centerX < input.cols) (hy : input.centerY < input.rows) {m : ℕ}
    (hm : m = max input.cols input.rows) :
    ∃ area, copyArea input (.new (m * 2) (m * 2)) op = some area ∧
      CopyOf input area (m * 2) (m * 2) ((m : ℤ) - 1) ((m : ℤ) - 1)
        (fun row col => input.centerY +
          ((row - (m - 1)) * op.cos - (col - (m - 1)) * op.sin))
        (fun row col => input.centerX +
          ((col - (m - 1)) * op.cos + (row - (m - 1)) * op.sin)) := by
  have hhalf : ((m * 2 / 2 : ℕ) : ℤ) - 1 = m - 1 := by omega
  have hcells := copyCells_rotation input (.new (m * 2) (m * 2)) hop
  rw [show rotateCenterX (.new (m * 2) (m * 2)) = (m : ℤ) - 1 from hhalf,
    show rotateCenterY (.new (m * 2) (m * 2)) = (m : ℤ) - 1 from hhalf] at hcells
  have hcols : input.cols ≤ m := by omega
  have hrows : input.rows ≤ m := by omega
  apply copyArea_copyOf
  · intro grid hgrid
    rw [copyArea, show (MatrixArea.new (m * 2) (m * 2)).toGrid = Grid.blank false (m * 2) (m * 2)
      from rfl, hgrid, ← hhalf]
    rcases hop with rfl | rfl | rfl <;> rfl
  · intro c hc
    rw [hcells] at hc
    simp only [List.mem_flatMap, List.mem_map, List.mem_range] at hc
    obtain ⟨x, hx', y, hy', rfl⟩ := hc
    simp only [Grid.Has, Grid.blank]
    -- each angle leaves a linear problem
    rcases turn_cases hop with ⟨hcos, hsin⟩ | ⟨hcos, hsin⟩ | ⟨hcos, hsin⟩ <;>
      rw [hcos, hsin] <;> omega
  · intro row col hhas
    rw [Grid.Has] at hhas
    rw [hcells]
    simp only [List.mem_flatMap, List.mem_map, List.mem_range]
    obtain ⟨y, hfromRow⟩ := Int.eq_ofNat_of_zero_le hhas.1
    obtain ⟨x, hfromCol⟩ := Int.eq_ofNat_of_zero_le hhas.2.2.1
    refine ⟨_, ⟨x, by omega, y, by omega, rfl⟩, ?_, ?_⟩
    all_goals
      dsimp only
      rcases turn_cases hop with ⟨hcos, hsin⟩ | ⟨hcos, hsin⟩ | ⟨hcos, hsin⟩ <;>
        rw [hcos, hsin] at hfromRow hfromCol ⊢ <;> omega

/-! ## The given matrix -/

/-- A matrix as it is given, row by row, with one cell that is the center. -/
structure SpellMatrix where
  rows : ℕ
  cols : ℕ
  cells : List ℕ
  length_eq : cells.length = rows * cols
  rows_lt : rows < 2 ^ 14
  cols_lt : cols < 2 ^ 14
  centerX : ℕ
  centerY : ℕ
  centerX_lt : centerX < cols
  centerY_lt : centerY < rows
  center_iff : ∀ y < rows, ∀ x < cols,
    IsCenter (cells.getD (y * cols + x) 0) ↔ y = centerY ∧ x = centerX

namespace SpellMatrix

/-- The cells of the shape. -/
def grid (m : SpellMatrix) : Grid Bool where
  rows := m.rows
  cols := m.cols
  data row col := decide (IsValue (m.cells.getD (row.toNat * m.cols + col.toNat) 0))

/-- The value at an offset from the center, which is 0 where the matrix has no cell. -/
def valueAt (m : SpellMatrix) (dx dy : ℤ) : Bool :=
  m.grid.value false (m.centerY + dy) (m.centerX + dx)

end SpellMatrix

/-- A place of a matrix and its place in the list determine each other. -/
theorem place_unique {x x' y y' cols : ℕ} (hx : x < cols) (hx' : x' < cols)
    (h : y * cols + x = y' * cols + x') : y = y' ∧ x = x' := by
  have hcols : 0 < cols := by omega
  have hy : (y * cols + x) / cols = y := by
    rw [Nat.mul_comm, Nat.mul_add_div hcols, Nat.div_eq_of_lt hx, Nat.add_zero]
  have hy' : (y' * cols + x') / cols = y' := by
    rw [Nat.mul_comm, Nat.mul_add_div hcols, Nat.div_eq_of_lt hx', Nat.add_zero]
  have hrow : y = y' := by rw [← hy, h, hy']
  rw [hrow] at h
  exact ⟨hrow, Nat.add_left_cancel h⟩

/-- A place before the end of the list lies within the rows. -/
theorem place_lt {x y rows cols : ℕ} (h : y * cols + x < rows * cols) : y < rows := by
  apply lt_of_not_ge
  intro hge
  have hmul := Nat.mul_le_mul_right cols hge
  omega

/-- What the loop of `createArea` has done after some of the cells. -/
structure Filled (rows cols : ℕ) (cells : List ℕ) (s : AreaFilling) : Prop where
  rows_eq : s.area.rows = rows
  cols_eq : s.area.cols = cols
  place_eq : cells.length = s.y * cols + s.x
  x_lt : s.x < cols
  data_eq : ∀ y x : ℕ, x < cols →
    s.area.data y x = decide (IsValue (cells.getD (y * cols + x) 0))
  center_eq : ∀ y x : ℕ, x < cols → y * cols + x < cells.length →
    (∀ k < cells.length, IsCenter (cells.getD k 0) ↔ k = y * cols + x) →
      s.area.centerY = y ∧ s.area.centerX = x

theorem getD_concat_of_ne {cells : List ℕ} {cell k : ℕ} (hk : k ≠ cells.length) :
    (cells ++ [cell]).getD k 0 = cells.getD k 0 := by
  rcases lt_or_gt_of_ne hk with hlt | hgt
  · exact List.getD_append cells [cell] 0 k hlt
  · have hbeyond : (cells ++ [cell]).length ≤ k := by
      rw [List.length_append, List.length_singleton]
      exact hgt
    rw [List.getD_eq_default _ _ hbeyond, List.getD_eq_default _ _ hgt.le]

theorem getD_concat_length (cells : List ℕ) (cell : ℕ) :
    (cells ++ [cell]).getD cells.length 0 = cell := by
  rw [List.getD_append_right _ _ _ _ le_rfl, Nat.sub_self, List.getD_cons_zero]

/-- The value of a cell is stored. -/
theorem Filled.setValue {rows cols : ℕ} {cells : List ℕ} {s : AreaFilling}
    (h : Filled rows cols cells s) (hlength : cells.length < rows * cols) (cell : ℕ) :
    ∃ area, (if IsValue cell then s.area.setValue s.y s.x true else some s.area) = some area ∧
      area.rows = rows ∧ area.cols = cols ∧
        area.centerX = s.area.centerX ∧ area.centerY = s.area.centerY ∧
          ∀ y x : ℕ, x < cols →
            area.data y x = decide (IsValue ((cells ++ [cell]).getD (y * cols + x) 0)) := by
  have hrow : s.y < rows := place_lt (h.place_eq ▸ hlength)
  split
  · next hvalue =>
    have hhas : s.area.Has s.y s.x := by
      rw [Grid.Has, h.rows_eq, h.cols_eq]
      have hcol := h.x_lt
      omega
    have hset := congrArg (Option.map fun grid => { s.area with toGrid := grid })
      (Grid.write_of_has hhas true)
    refine ⟨_, hset, h.rows_eq, h.cols_eq, rfl, rfl, ?_⟩
    intro y x hx
    dsimp only
    split
    · next hplace =>
      obtain ⟨hy, hx⟩ := hplace
      rw [Nat.cast_inj.mp hy, Nat.cast_inj.mp hx, ← h.place_eq, getD_concat_length]
      exact (decide_eq_true hvalue).symm
    · next hplace =>
      rw [h.data_eq y x hx, getD_concat_of_ne]
      intro hend
      rw [h.place_eq] at hend
      have hsame := place_unique hx h.x_lt hend
      exact hplace ⟨congrArg Nat.cast hsame.1, congrArg Nat.cast hsame.2⟩
  · next hvalue =>
    refine ⟨_, rfl, h.rows_eq, h.cols_eq, rfl, rfl, ?_⟩
    intro y x hx
    rw [h.data_eq y x hx]
    by_cases hend : y * cols + x = cells.length
    · rw [hend, getD_concat_length, List.getD_eq_default _ _ le_rfl]
      exact (decide_eq_false hvalue).symm ▸ rfl
    · rw [getD_concat_of_ne hend]

/-- The center is stored when its cell comes, and kept after it. -/
theorem Filled.setCenter {rows cols : ℕ} {cells : List ℕ} {s : AreaFilling}
    (h : Filled rows cols cells s) (hlength : cells.length < rows * cols) (hrows : rows < 2 ^ 14)
    (hcols : cols < 2 ^ 14) (cell : ℕ) {area : MatrixArea}
    (harea : area.centerX = s.area.centerX ∧ area.centerY = s.area.centerY) {y x : ℕ} (hx : x < cols)
    (hplace : y * cols + x < (cells ++ [cell]).length)
    (hcenter : ∀ k < (cells ++ [cell]).length,
      IsCenter ((cells ++ [cell]).getD k 0) ↔ k = y * cols + x) :
    (if IsCenter cell then area.setCenter s.y s.x else area).centerY = y ∧
      (if IsCenter cell then area.setCenter s.y s.x else area).centerX = x := by
  have hlast : cells.length < (cells ++ [cell]).length := by
    rw [List.length_append, List.length_singleton]
    exact Nat.lt_succ_self _
  have hiff := hcenter cells.length hlast
  rw [getD_concat_length] at hiff
  split
  · next hcell =>
    have hend := hiff.mp hcell
    have hrow : s.y < rows := place_lt (h.place_eq ▸ hlength)
    have hcol := h.x_lt
    rw [h.place_eq] at hend
    have hsame := place_unique hcol hx hend
    simp only [MatrixArea.setCenter]
    omega
  · next hcell =>
    have hbefore : y * cols + x ≠ cells.length := fun heq => hcell (hiff.mpr heq.symm)
    rw [harea.1, harea.2]
    rw [List.length_append, List.length_singleton] at hplace
    apply h.center_eq y x hx (by omega)
    intro k hk
    rw [← hcenter k (hk.trans hlast), getD_concat_of_ne hk.ne]

/-- One round of the loop of `createArea`. -/
theorem Filled.fill {rows cols : ℕ} {cells : List ℕ} {s : AreaFilling}
    (h : Filled rows cols cells s) (hlength : cells.length < rows * cols) (hrows : rows < 2 ^ 14)
    (hcols : cols < 2 ^ 14) (cell : ℕ) :
    ∃ s', fill cols s cell = some s' ∧ Filled rows cols (cells ++ [cell]) s' := by
  obtain ⟨area, hset, hareaRows, hareaCols, hareaX, hareaY, hdata⟩ := h.setValue hlength cell
  have hrow : s.y < rows := place_lt (h.place_eq ▸ hlength)
  have hcol := h.x_lt
  have hplace := h.place_eq
  have hsame : ∀ y x : ℕ, (if IsCenter cell then area.setCenter s.y s.x else area).data y x =
      area.data y x := by
    intro y x
    split <;> rfl
  -- wherever the loop goes on, the area holds the cells up to this one
  have hfilled {x' y' : ℕ} (hx' : x' < cols) (hnext : s.y * cols + s.x + 1 = y' * cols + x') :
      Filled rows cols (cells ++ [cell])
        ⟨if IsCenter cell then area.setCenter s.y s.x else area, x', y'⟩ := by
    constructor
    · dsimp only
      split <;> exact hareaRows
    · dsimp only
      split <;> exact hareaCols
    · rw [List.length_append, List.length_singleton, hplace]
      exact hnext
    · exact hx'
    · intro y x hx
      rw [hsame, hdata y x hx]
    · intro y x hx hlt hunique
      exact h.setCenter hlength hrows hcols cell ⟨hareaX, hareaY⟩ hx hlt hunique
  have hx : (s.x + 1) % 2 ^ 16 = s.x + 1 := Nat.mod_eq_of_lt (by omega)
  have hy : (s.y + 1) % 2 ^ 16 = s.y + 1 := Nat.mod_eq_of_lt (by omega)
  rw [TyanoCore.fill, hset, Option.map_some, hx, hy]
  dsimp only
  split
  · next hwithin => exact ⟨_, rfl, hfilled (by omega) (Nat.add_assoc ..)⟩
  · next hends =>
    refine ⟨_, rfl, hfilled (by omega) ?_⟩
    rw [Nat.succ_mul]
    omega

/-- The whole loop. -/
theorem Filled.run {rows cols : ℕ} (hrows : rows < 2 ^ 14) (hcols : cols < 2 ^ 14)
    (rest : List ℕ) : ∀ {cells : List ℕ} {s : AreaFilling}, Filled rows cols cells s →
      cells.length + rest.length ≤ rows * cols →
        ∃ s', rest.foldlM (TyanoCore.fill cols) s = some s' ∧ Filled rows cols (cells ++ rest) s' := by
  induction rest with
  | nil =>
    intro cells s h _
    exact ⟨s, rfl, by rwa [List.append_nil]⟩
  | cons cell rest ih =>
    intro cells s h hlength
    rw [List.length_cons] at hlength
    obtain ⟨s₁, hfill, h₁⟩ := h.fill (by omega) hrows hcols cell
    have hlength₁ : (cells ++ [cell]).length + rest.length ≤ rows * cols := by
      rw [List.length_append, List.length_singleton]
      omega
    obtain ⟨s₂, hrest, h₂⟩ := ih h₁ hlength₁
    refine ⟨s₂, ?_, ?_⟩
    · rw [List.foldlM_cons, hfill]
      exact hrest
    · rwa [List.append_assoc, List.singleton_append] at h₂

theorem filled_nil {rows cols : ℕ} (hcols : 0 < cols) :
    Filled rows cols [] ⟨MatrixArea.new rows cols, 0, 0⟩ := by
  constructor
  · rfl
  · rfl
  · rw [List.length_nil, Nat.zero_mul, Nat.zero_add]
  · exact hcols
  · intro y x _
    rfl
  · intro y x _ hlt
    exact absurd hlt (Nat.not_lt_zero _)

/-- The matrix that is stored for the direction that it is given for. -/
structure Stores (m : SpellMatrix) (area : MatrixArea) : Prop where
  rows_eq : area.rows = m.rows
  cols_eq : area.cols = m.cols
  centerX_eq : area.centerX = m.centerX
  centerY_eq : area.centerY = m.centerY
  value_eq : ∀ row col, area.value false row col = m.grid.value false row col

theorem createArea_stores (m : SpellMatrix) :
    ∃ area, createArea m.cells m.rows = some area ∧ Stores m area := by
  have hx := m.centerX_lt
  have hy := m.centerY_lt
  have hwidth : m.cells.length / m.rows = m.cols := by
    rw [m.length_eq, Nat.mul_div_cancel_left _ (by omega)]
  obtain ⟨s, hrun, h⟩ := Filled.run m.rows_lt m.cols_lt m.cells (filled_nil (by omega))
    (by rw [List.length_nil, m.length_eq, Nat.zero_add])
  rw [List.nil_append] at h
  refine ⟨s.area, ?_, ?_⟩
  · rw [createArea, hwidth, hrun]
    rfl
  have hplace : m.centerY * m.cols + m.centerX < m.cells.length := by
    have hmul := Nat.mul_le_mul_right m.cols (Nat.succ_le_of_lt hy)
    rw [Nat.succ_mul] at hmul
    rw [m.length_eq]
    omega
  have hcenter := h.center_eq m.centerY m.centerX hx hplace ?_
  · constructor
    · exact h.rows_eq
    · exact h.cols_eq
    · exact hcenter.2
    · exact hcenter.1
    · intro row col
      have hiff : s.area.Has row col ↔ m.grid.Has row col := by
        rw [Grid.Has, h.rows_eq, h.cols_eq]
        rfl
      by_cases hhas : m.grid.Has row col
      · rw [Grid.value_of_has hhas, Grid.value_of_has (hiff.mpr hhas)]
        have hdata := h.data_eq row.toNat col.toNat ((Int.toNat_lt hhas.2.2.1).mpr hhas.2.2.2)
        rw [Int.toNat_of_nonneg hhas.1, Int.toNat_of_nonneg hhas.2.2.1] at hdata
        exact hdata
      · rw [Grid.value_of_not_has hhas, Grid.value_of_not_has (hiff.not.mpr hhas)]
  · -- the cell of the center is the only one of its kind
    intro k hk
    have hrow : k / m.cols < m.rows := Nat.div_lt_of_lt_mul (by rwa [Nat.mul_comm, ← m.length_eq])
    have hcol : k % m.cols < m.cols := Nat.mod_lt _ (by omega)
    have hk' : k / m.cols * m.cols + k % m.cols = k := Nat.div_add_mod' k m.cols
    have hiff := m.center_iff (k / m.cols) hrow (k % m.cols) hcol
    rw [hk'] at hiff
    rw [hiff]
    constructor
    · intro heq
      rw [← heq.1, ← heq.2, hk']
    · intro heq
      apply place_unique hcol hx
      rw [hk', heq]

/-! ## The directions -/

/-- The offset of the given matrix that an offset of a direction stands for: turned for the main
directions, mirrored and flipped for the diagonals. -/
def turned (direction : Direction) (dx dy : ℤ) : ℤ × ℤ :=
  match direction with
  | .east => (dy, -dx)
  | .south => (-dx, -dy)
  | .west => (-dy, dx)
  | .northEast => (-dx, dy)
  | .southWest => (dx, -dy)
  | .southEast => (-dx, -dy)
  | _ => (dx, dy)

namespace SpellMatrix

variable (m : SpellMatrix)

/-- How far the mirrored shape is off, for the number of rows stands in the formula of its center. -/
def mirrorShift : ℤ := m.cols - 1 - m.centerX - ((m.rows : ℤ) - 1 - m.centerX) % 2 ^ 16

def flipShift : ℤ := m.rows - 1 - m.centerY - ((m.cols : ℤ) - 1 - m.centerY) % 2 ^ 16

/-- The offset of the given matrix that the area of a direction stores at an offset. -/
def origin (direction : Direction) (dx dy : ℤ) : ℤ × ℤ :=
  match direction with
  | .northEast => (m.mirrorShift - dx, dy)
  | .southWest => (dx, m.flipShift - dy)
  | .southEast => (-dx, m.flipShift - dy)
  | _ => turned direction dx dy

/-- What `areas` has for a direction. -/
structure StoredFor (direction : Direction) (area : MatrixArea) : Prop where
  rows_lt : area.rows < 2 ^ 16
  cols_lt : area.cols < 2 ^ 16
  valueAt_eq : ∀ dx dy,
    area.valueAt dx dy = m.valueAt (m.origin direction dx dy).1 (m.origin direction dx dy).2

variable {m} {area : MatrixArea}

/-- The size of the matrices of the other directions, which no center exceeds. -/
theorem side_lt (m : SpellMatrix) : max m.cols m.rows < 2 ^ 14 := max_lt m.cols_lt m.rows_lt

theorem storedFor_given (h : Stores m area) {direction : Direction}
    (hdirection : ∀ dx dy, m.origin direction dx dy = (dx, dy)) : m.StoredFor direction area := by
  have hrows := m.rows_lt
  have hcols := m.cols_lt
  constructor
  · rw [h.rows_eq]
    omega
  · rw [h.cols_eq]
    omega
  · intro dx dy
    rw [hdirection, MatrixArea.valueAt, h.value_eq, h.centerX_eq, h.centerY_eq, valueAt]

theorem storedFor_rotation (h : Stores m area) {op : MatrixOperation} (hop : op.IsRotation)
    (direction : Direction) (hdirection : ∀ dx dy, m.origin direction dx dy =
      (dx * op.cos + dy * op.sin, dy * op.cos - dx * op.sin)) :
    ∃ turnedArea, copyArea area (.new (max area.cols area.rows * 2) (max area.cols area.rows * 2))
      op = some turnedArea ∧ m.StoredFor direction turnedArea := by
  have hx := m.centerX_lt
  have hy := m.centerY_lt
  have hside := m.side_lt
  obtain ⟨turnedArea, hcopy, hturned⟩ := copyArea_rotation area hop
    (by rwa [h.centerX_eq, h.cols_eq]) (by rwa [h.centerY_eq, h.rows_eq]) rfl
  refine ⟨turnedArea, hcopy, ?_⟩
  have hrows := hturned.rows_eq
  have hcols := hturned.cols_eq
  have hcenterX := hturned.centerX_eq
  have hcenterY := hturned.centerY_eq
  rw [h.cols_eq, h.rows_eq] at hrows hcols hcenterX hcenterY
  constructor
  · omega
  · omega
  · intro dx dy
    rw [MatrixArea.valueAt, hturned.value_eq, h.value_eq, hdirection, valueAt, h.centerX_eq,
      h.centerY_eq, h.cols_eq, h.rows_eq]
    have hdx : (turnedArea.centerX : ℤ) + dx - ((max m.cols m.rows : ℕ) - 1) = dx := by omega
    have hdy : (turnedArea.centerY : ℤ) + dy - ((max m.cols m.rows : ℕ) - 1) = dy := by omega
    rw [hdx, hdy]

theorem storedFor_mirror (h : Stores m area) :
    ∃ neArea, copyArea area (.new (max area.cols area.rows * 2) (max area.cols area.rows * 2))
      .mirror = some neArea ∧ m.StoredFor .northEast neArea := by
  have hy := m.centerY_lt
  have hrows := m.rows_lt
  have hside := m.side_lt
  obtain ⟨neArea, hcopy, hne⟩ := copyArea_mirror area (max area.cols area.rows * 2)
    (max area.cols area.rows * 2) (by omega) (by omega)
  refine ⟨neArea, hcopy, ?_⟩
  have hrows' := hne.rows_eq
  have hcols' := hne.cols_eq
  have hcenterX := hne.centerX_eq
  have hcenterY := hne.centerY_eq
  rw [h.cols_eq, h.rows_eq] at hrows' hcols'
  rw [h.rows_eq, h.centerX_eq] at hcenterX
  rw [h.centerY_eq] at hcenterY
  constructor
  · omega
  · omega
  · intro dx dy
    rw [MatrixArea.valueAt, hne.value_eq, h.value_eq, origin, valueAt, mirrorShift, ← hcenterX,
      h.cols_eq]
    refine congrArg₂ _ ?_ ?_ <;> omega

/-- The flipped area, and the one that is mirrored from it. -/
theorem storedFor_flip (h : Stores m area) :
    ∃ swArea seArea,
      copyArea area (.new (max area.cols area.rows * 2) (max area.cols area.rows * 2)) .flip =
          some swArea ∧
        copyArea swArea (.new (max area.cols area.rows * 2) (max area.cols area.rows * 2)) .mirror =
            some seArea ∧
          m.StoredFor .southWest swArea ∧ m.StoredFor .southEast seArea := by
  have hx := m.centerX_lt
  have hcols := m.cols_lt
  have hside := m.side_lt
  obtain ⟨swArea, hcopy, hsw⟩ := copyArea_flip area (max area.cols area.rows * 2)
    (max area.cols area.rows * 2) (by omega) (by omega)
  obtain ⟨seArea, hcopy', hse⟩ := copyArea_mirror swArea _ _ hsw.rows_eq.le hsw.cols_eq.le
  refine ⟨swArea, seArea, hcopy, hcopy', ?_, ?_⟩
  all_goals
    have hrows' := hsw.rows_eq
    have hcols' := hsw.cols_eq
    have hcenterX := hsw.centerX_eq
    have hcenterY := hsw.centerY_eq
    rw [h.cols_eq, h.rows_eq] at hrows' hcols'
    rw [h.cols_eq, h.centerY_eq] at hcenterY
    rw [h.centerX_eq] at hcenterX
  · constructor
    · omega
    · omega
    · intro dx dy
      rw [MatrixArea.valueAt, hsw.value_eq, h.value_eq, origin, valueAt, flipShift, ← hcenterY,
        h.rows_eq]
      refine congrArg₂ _ ?_ ?_ <;> omega
  · have hrows'' := hse.rows_eq
    have hcols'' := hse.cols_eq
    have hcenterX' := hse.centerX_eq
    have hcenterY' := hse.centerY_eq
    rw [h.cols_eq, h.rows_eq] at hrows'' hcols''
    constructor
    · omega
    · omega
    · intro dx dy
      rw [MatrixArea.valueAt, hse.value_eq, hsw.value_eq, h.value_eq, origin, valueAt, flipShift,
        ← hcenterY, h.rows_eq]
      -- the flipped area is a square, and its mirrored center is where it should be
      refine congrArg₂ _ ?_ ?_ <;> omega

/-- The main directions. -/
def IsMain (direction : Direction) : Prop :=
  direction = .north ∨ direction = .south ∨ direction = .east ∨ direction = .west

def IsDiagonal (direction : Direction) : Prop :=
  direction = .northWest ∨ direction = .northEast ∨ direction = .southWest ∨ direction = .southEast

theorem setupArea_eq (m : SpellMatrix) (c : CombatArea) :
    ∃ c', c.setupArea m.cells m.rows = some c' ∧ c'.hasExtArea = c.hasExtArea ∧
      ∀ direction, IsMain direction →
        ∃ area, c'.areas direction = some area ∧ m.StoredFor direction area := by
  obtain ⟨area, hcreate, h⟩ := createArea_stores m
  obtain ⟨southArea, hsouth, hsouthArea⟩ := storedFor_rotation h
    (Or.inr (Or.inl rfl) : MatrixOperation.rotate180.IsRotation) .south fun dx dy => by
      simp only [origin, turned, MatrixOperation.cos, MatrixOperation.sin]
      ring_nf
  obtain ⟨eastArea, heast, heastArea⟩ := storedFor_rotation h
    (Or.inl rfl : MatrixOperation.rotate90.IsRotation) .east fun dx dy => by
      simp only [origin, turned, MatrixOperation.cos, MatrixOperation.sin]
      ring_nf
  obtain ⟨westArea, hwest, hwestArea⟩ := storedFor_rotation h
    (Or.inr (Or.inr rfl) : MatrixOperation.rotate270.IsRotation) .west fun dx dy => by
      simp only [origin, turned, MatrixOperation.cos, MatrixOperation.sin]
      ring_nf
  have hnorthArea : m.StoredFor .north area := storedFor_given h fun dx dy => rfl
  have hsetup : c.setupArea m.cells m.rows = some ((((c.setArea .north area).setArea .south
      southArea).setArea .east eastArea).setArea .west westArea) := by
    simp only [CombatArea.setupArea, hcreate, hsouth, heast, hwest, Option.bind_eq_bind,
      Option.bind_some]
  refine ⟨_, hsetup, rfl, ?_⟩
  intro direction hdirection
  rcases hdirection with rfl | rfl | rfl | rfl
  · exact ⟨area, rfl, hnorthArea⟩
  · exact ⟨southArea, rfl, hsouthArea⟩
  · exact ⟨eastArea, rfl, heastArea⟩
  · exact ⟨westArea, rfl, hwestArea⟩

theorem cells_ne_nil (m : SpellMatrix) : m.cells ≠ [] := by
  have hx := m.centerX_lt
  have hy := m.centerY_lt
  intro hnil
  have hlength := m.length_eq
  rw [hnil, List.length_nil] at hlength
  rcases Nat.mul_eq_zero.mp hlength.symm with hrows | hcols <;> omega

theorem setupExtArea_eq (m : SpellMatrix) (c : CombatArea) :
    ∃ c', c.setupExtArea m.cells m.rows = some c' ∧ c'.hasExtArea = true ∧
      (∀ direction, IsMain direction → c'.areas direction = c.areas direction) ∧
        ∀ direction, IsDiagonal direction →
          ∃ area, c'.areas direction = some area ∧ m.StoredFor direction area := by
  obtain ⟨area, hcreate, h⟩ := createArea_stores m
  obtain ⟨neArea, hne, hneArea⟩ := storedFor_mirror h
  obtain ⟨swArea, seArea, hsw, hse, hswArea, hseArea⟩ := storedFor_flip h
  have hnwArea : m.StoredFor .northWest area := storedFor_given h fun dx dy => rfl
  have hsetup : c.setupExtArea m.cells m.rows = some
      { (((c.setArea .northWest area).setArea .northEast neArea).setArea .southWest swArea).setArea
        .southEast seArea with hasExtArea := true } := by
    simp only [CombatArea.setupExtArea, if_neg m.cells_ne_nil, hcreate, hne, hsw, hse,
      Option.bind_eq_bind, Option.bind_some]
  refine ⟨_, hsetup, rfl, ?_, ?_⟩
  · intro direction hdirection
    rcases hdirection with rfl | rfl | rfl | rfl <;> rfl
  · intro direction hdirection
    rcases hdirection with rfl | rfl | rfl | rfl
    · exact ⟨area, rfl, hnwArea⟩
    · exact ⟨neArea, rfl, hneArea⟩
    · exact ⟨swArea, rfl, hswArea⟩
    · exact ⟨seArea, rfl, hseArea⟩

/-! ## Where the diagonals are symmetric -/

theorem mirrorShift_eq_zero (m : SpellMatrix) : m.mirrorShift = 0 ↔ m.rows = m.cols := by
  have hx := m.centerX_lt
  have hrows := m.rows_lt
  have hcols := m.cols_lt
  rw [mirrorShift]
  omega

theorem flipShift_eq_zero (m : SpellMatrix) : m.flipShift = 0 ↔ m.rows = m.cols := by
  have hy := m.centerY_lt
  have hrows := m.rows_lt
  have hcols := m.cols_lt
  rw [flipShift]
  omega

/-- A matrix whose shape has no cell. -/
def Blank (m : SpellMatrix) : Prop := ∀ cell ∈ m.cells, ¬IsValue cell

theorem blank_iff (m : SpellMatrix) :
    m.Blank ↔ ∀ row col, m.grid.value false row col = false := by
  constructor
  · intro h row col
    by_cases hhas : m.grid.Has row col
    · rw [Grid.value_of_has hhas]
      apply decide_eq_false
      rcases lt_or_ge (row.toNat * m.cols + col.toNat) m.cells.length with hlt | hge
      · rw [List.getD_eq_getElem _ _ hlt]
        exact h _ (List.getElem_mem hlt)
      · rw [List.getD_eq_default _ _ hge]
        decide
    · exact Grid.value_of_not_has hhas
  · intro h cell hcell
    obtain ⟨k, hk, rfl⟩ := List.getElem_of_mem hcell
    have hcols : 0 < m.cols := m.centerX_lt.trans_le' (Nat.zero_le _)
    have hrow : k / m.cols < m.rows := Nat.div_lt_of_lt_mul (by rwa [Nat.mul_comm, ← m.length_eq])
    have hcol : k % m.cols < m.cols := Nat.mod_lt _ hcols
    have hvalue := h (k / m.cols : ℕ) (k % m.cols : ℕ)
    have hhas : m.grid.Has (k / m.cols : ℕ) (k % m.cols : ℕ) :=
      ⟨Int.natCast_nonneg _, Nat.cast_lt.mpr hrow, Int.natCast_nonneg _, Nat.cast_lt.mpr hcol⟩
    rw [Grid.value_of_has hhas] at hvalue
    have hcell := of_decide_eq_false hvalue
    rw [Int.toNat_natCast, Int.toNat_natCast, Nat.div_add_mod', List.getD_eq_getElem _ _ hk] at hcell
    exact hcell

/-- Two places of the given matrix have one value at each offset only where the shift is none. -/
theorem shift_iff (m : SpellMatrix) {down right : ℤ} :
    (∀ dx dy, m.valueAt (dx + right) (dy + down) = m.valueAt dx dy) ↔
      (down = 0 ∧ right = 0) ∨ m.Blank := by
  rw [blank_iff]
  constructor
  · intro h
    by_cases hne : down ≠ 0 ∨ right ≠ 0
    · right
      apply Grid.value_of_shift hne
      intro row col
      have hshift := h (col - m.centerX) (row - m.centerY)
      simp only [valueAt] at hshift
      have hrow : (m.centerY : ℤ) + (row - m.centerY + down) = row + down := by omega
      have hcol : (m.centerX : ℤ) + (col - m.centerX + right) = col + right := by omega
      rw [hrow, hcol, add_sub_cancel, add_sub_cancel] at hshift
      exact hshift
    · left
      omega
  · intro h dx dy
    rcases h with hzero | hblank
    · rw [hzero.1, hzero.2, add_zero, add_zero]
    · rw [valueAt, valueAt, hblank, hblank]

end SpellMatrix

end TyanoCore
