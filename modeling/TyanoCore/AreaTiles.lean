import Mathlib.Data.List.Nodup
import TyanoCore.AreaSymmetry

/-!
# The tiles of a spell

`getList` goes through the cells of an area that lie on the map.  What it finds is the shape of the
spell, turned to where the caster looks.  The diagonals have that shape only where the given matrix
is a square, since the number of its rows stands in the formula for the column of the mirrored center
and the number of its columns in that for the row of the flipped one.
-/

namespace TyanoCore

namespace CombatArea

/-! ## The offsets -/

theorem mem_counter {first last o : ℤ} : o ∈ counter first last ↔ first ≤ o ∧ o ≤ last := by
  simp only [counter, List.mem_map, List.mem_range]
  constructor
  · intro h
    obtain ⟨k, hk, rfl⟩ := h
    omega
  · intro h
    exact ⟨(o - first).toNat, by omega, by omega⟩

theorem counter_nodup (first last : ℤ) : (counter first last).Nodup := by
  apply List.Nodup.map _ List.nodup_range
  intro k k' h
  dsimp only at h
  omega

variable {area : MatrixArea} {world : SightMap} {destination p : Position} {offset : ℤ × ℤ}
variable {tile : SightTile}

/-- The offsets are those of the cells that lie on the map. -/
theorem mem_offsets (hrows : area.rows < 2 ^ 16) (hcols : area.cols < 2 ^ 16) :
    offset ∈ offsets area destination ↔
      area.Has (area.centerY + offset.2) (area.centerX + offset.1) ∧
        (0 ≤ destination.x + offset.1 ∧ destination.x + offset.1 ≤ (Position.maxX : ℤ)) ∧
          (0 ≤ destination.y + offset.2 ∧ destination.y + offset.2 ≤ (Position.maxY : ℤ)) := by
  rw [offsets, Nat.mod_eq_of_lt hrows, Nat.mod_eq_of_lt hcols, Grid.Has]
  split
  · next hempty =>
    apply iff_of_false List.not_mem_nil
    omega
  · next hsize =>
    simp only [List.mem_flatMap, List.mem_map, mem_counter]
    constructor
    · intro h
      obtain ⟨offsetY, hY, offsetX, hX, rfl⟩ := h
      dsimp only
      omega
    · intro h
      exact ⟨offset.2, by omega, offset.1, by omega, rfl⟩

theorem offsets_nodup (area : MatrixArea) (destination : Position) :
    (offsets area destination).Nodup := by
  rw [offsets]
  split
  · exact List.nodup_nil
  · rw [List.nodup_flatMap]
    constructor
    · intro offsetY _
      apply (counter_nodup _ _).map
      intro x x' h
      exact congrArg Prod.fst h
    · apply (counter_nodup _ _).imp
      intro y y' hne
      apply List.disjoint_left.mpr
      intro offset hy hy'
      obtain ⟨x, -, rfl⟩ := List.mem_map.mp hy
      obtain ⟨x', -, heq⟩ := List.mem_map.mp hy'
      exact hne (congrArg Prod.snd heq).symm

/-! ## One offset -/

theorem valueAt_of_has (h : area.Has (area.centerY + offset.2) (area.centerX + offset.1)) :
    area.getValue (area.centerY + offset.2) (area.centerX + offset.1) =
      some (area.valueAt offset.1 offset.2) :=
  Grid.read_eq_value h false

theorem has_of_valueAt (h : area.valueAt offset.1 offset.2 = true) :
    area.Has (area.centerY + offset.2) (area.centerX + offset.1) := by
  by_contra hhas
  rw [MatrixArea.valueAt, Grid.value_of_not_has hhas] at h
  exact Bool.false_ne_true h

/-- The accesses to the matrix are within its cells, and the positions are valid. -/
theorem visit_isSome (world : SightMap) (h : area.Has (area.centerY + offset.2) (area.centerX + offset.1))
    (hx : 0 ≤ destination.x + offset.1 ∧ destination.x + offset.1 ≤ (Position.maxX : ℤ))
    (hy : 0 ≤ destination.y + offset.2 ∧ destination.y + offset.2 ≤ (Position.maxY : ℤ)) :
    (visit area world destination offset).isSome := by
  have hz := destination.z_le
  have hvalid : Position.isValid (destination.x + offset.1) (destination.y + offset.2)
      destination.z = true := by
    simp only [Position.isValid, Bool.and_eq_true, decide_eq_true_eq]
    omega
  rw [visit, valueAt_of_has h, Option.bind_some]
  split
  · rw [Position.of, dif_pos hvalid]
    rfl
  · rfl

theorem visit_eq_some :
    visit area world destination offset = some (some (p, tile)) ↔
      area.valueAt offset.1 offset.2 = true ∧
        p.At (destination.x + offset.1) (destination.y + offset.2) destination.z ∧
          world.isSightClear destination p true = some true ∧ world.getTile p.cell = some tile := by
  rw [← Position.of_eq_some]
  by_cases hvalue : area.valueAt offset.1 offset.2 = true
  · rw [visit, valueAt_of_has (has_of_valueAt hvalue), Option.bind_some, if_pos hvalue,
      and_iff_right hvalue]
    cases hof : Position.of (destination.x + offset.1) (destination.y + offset.2) destination.z with
    | none => simp
    | some position =>
      rw [Option.map_some, Option.some.injEq, Option.some.injEq]
      constructor
      · intro h
        split at h
        · next hclear =>
          obtain ⟨tile', htile, heq⟩ := Option.map_eq_some_iff.mp h
          obtain ⟨rfl, rfl⟩ := Prod.mk.inj heq
          exact ⟨rfl, hclear, htile⟩
        · cases h
      · intro h
        obtain ⟨rfl, hclear, htile⟩ := h
        rw [if_pos hclear, htile, Option.map_some]
  · apply iff_of_false
    · intro h
      rw [visit] at h
      obtain ⟨value, hread, h⟩ := Option.bind_eq_some_iff.mp h
      by_cases hhas : area.Has (area.centerY + offset.2) (area.centerX + offset.1)
      · rw [valueAt_of_has hhas] at hread
        rw [← Option.some.inj hread, if_neg hvalue] at h
        cases h
      · rw [MatrixArea.getValue, Grid.read, if_neg hhas] at hread
        cases hread
    · exact fun h => hvalue h.1

/-! ## The list -/

/-- The list of an area: the tiles of its cells that exist and are in clear sight, each one once. -/
theorem offsets_visit (hrows : area.rows < 2 ^ 16) (hcols : area.cols < 2 ^ 16) (world : SightMap)
    (destination : Position) :
    ∃ tiles, (offsets area destination).mapM (visit area world destination) = some tiles ∧
      (tiles.reduceOption.map Prod.fst).Nodup ∧
        ∀ p tile, (p, tile) ∈ tiles.reduceOption ↔
          p.z = destination.z ∧
            area.valueAt ((p.x : ℤ) - destination.x) ((p.y : ℤ) - destination.y) = true ∧
              world.getTile p.cell = some tile ∧
                world.isSightClear destination p true = some true := by
  let found offset := (visit area world destination offset).getD none
  have hfound : ∀ offset ∈ offsets area destination,
      visit area world destination offset = some (found offset) := by
    intro offset hoffset
    rw [mem_offsets hrows hcols] at hoffset
    have hsome := visit_isSome world hoffset.1 hoffset.2.1 hoffset.2.2
    obtain ⟨result, hresult⟩ := Option.isSome_iff_exists.mp hsome
    simp only [found, hresult, Option.getD_some]
  have hmem : ∀ p tile, (p, tile) ∈ (((offsets area destination).map found).reduceOption) ↔
      ∃ offset ∈ offsets area destination,
        visit area world destination offset = some (some (p, tile)) := by
    intro p tile
    rw [List.reduceOption_mem_iff, List.mem_map]
    apply exists_congr
    intro offset
    apply and_congr_right
    intro hoffset
    rw [hfound offset hoffset, Option.some.injEq]
  have hat : ∀ offset, ∀ {p}, p ∈ (found offset).map Prod.fst →
      p.At (destination.x + offset.1) (destination.y + offset.2) destination.z := by
    intro offset p h
    obtain ⟨⟨p, tile⟩, hpair, rfl⟩ := Option.map_eq_some_iff.mp h
    cases hvisit : visit area world destination offset with
    | none => simp only [found, hvisit, Option.getD_none, reduceCtorEq] at hpair
    | some result =>
      simp only [found, hvisit, Option.getD_some] at hpair
      rw [hpair] at hvisit
      exact (visit_eq_some.mp hvisit).2.1
  refine ⟨_, Loop.mapM_some hfound, ?_, ?_⟩
  · -- a position has one offset
    rw [List.reduceOption, List.filterMap_map, List.map_filterMap]
    apply (offsets_nodup area destination).filterMap
    intro offset offset' p h h'
    have hoffset := hat offset h
    have hoffset' := hat offset' h'
    rw [Position.At] at hoffset hoffset'
    ext <;> omega
  · intro p tile
    rw [hmem]
    constructor
    · intro h
      obtain ⟨offset, -, hvisit⟩ := h
      obtain ⟨hvalue, hat, hclear, htile⟩ := visit_eq_some.mp hvisit
      rw [Position.At] at hat
      refine ⟨by omega, ?_, htile, hclear⟩
      rwa [show (p.x : ℤ) - destination.x = offset.1 by omega,
        show (p.y : ℤ) - destination.y = offset.2 by omega]
    · intro h
      obtain ⟨hz, hvalue, htile, hclear⟩ := h
      have hx := p.x_le
      have hy := p.y_le
      refine ⟨((p.x : ℤ) - destination.x, (p.y : ℤ) - destination.y), ?_, ?_⟩
      · rw [mem_offsets hrows hcols]
        refine ⟨has_of_valueAt hvalue, ?_, ?_⟩ <;> dsimp only <;> omega
      · rw [visit_eq_some]
        refine ⟨hvalue, ?_, hclear, htile⟩
        rw [Position.At]
        omega

end CombatArea

/-! ## The areas of a spell -/

namespace SpellMatrix

variable (m : SpellMatrix)

/-- The area of a direction has at each offset from its center the value of the given matrix at the
turned offset. -/
def Symmetric (direction : Direction) (area : MatrixArea) : Prop :=
  ∀ dx dy, area.valueAt dx dy = m.valueAt (turned direction dx dy).1 (turned direction dx dy).2

/-- The areas that are set up from a matrix, and from one for the diagonals where there is one. -/
def setup (ext : Option SpellMatrix) : Option CombatArea :=
  (CombatArea.new.setupArea m.cells m.rows).bind fun c =>
    match ext with
    | none => some c
    | some ext => c.setupExtArea ext.cells ext.rows

/-- The shape of the spell in a direction. -/
def InShape (ext : Option SpellMatrix) (direction : Direction) (dx dy : ℤ) : Prop :=
  let offset := turned direction dx dy
  (IsMain direction ∧ m.valueAt offset.1 offset.2 = true) ∨
    (IsDiagonal direction ∧ ∃ e, ext = some e ∧ e.valueAt offset.1 offset.2 = true)

/-- What the areas are for: no access leaves a matrix, the areas are symmetric, and the tiles of a
list are those of the shape that exist and are in clear sight, each one once. -/
structure AreaLaw (ext : Option SpellMatrix) (c : CombatArea) : Prop where
  setup_eq : m.setup ext = some c
  main : ∀ direction, IsMain direction →
    ∃ area, c.areas direction = some area ∧ m.Symmetric direction area
  diagonal : ∀ e, ext = some e → ∀ direction, IsDiagonal direction →
    ∃ area, c.areas direction = some area ∧ e.Symmetric direction area
  getList_eq : ∀ world origin destination, ∃ list,
    c.getList world origin destination = some (true, list) ∧ (list.map Prod.fst).Nodup ∧
      ∀ p tile, (p, tile) ∈ list ↔
        p.z = destination.z ∧
          m.InShape ext (CombatArea.direction ext.isSome origin destination)
            ((p.x : ℤ) - destination.x) ((p.y : ℤ) - destination.y) ∧
            world.getTile p.cell = some tile ∧
              world.isSightClear destination p true = some true

/-- Every area that is set up stores what its direction stands for, wherever its center is put. -/
theorem setup_storedFor (ext : Option SpellMatrix) :
    ∃ c, m.setup ext = some c ∧ c.hasExtArea = ext.isSome ∧
      (∀ direction, IsMain direction →
        ∃ area, c.areas direction = some area ∧ m.StoredFor direction area) ∧
        ∀ e, ext = some e → ∀ direction, IsDiagonal direction →
          ∃ area, c.areas direction = some area ∧ e.StoredFor direction area := by
  obtain ⟨c, hsetup, hext, hmain⟩ := m.setupArea_eq .new
  cases ext with
  | none =>
    refine ⟨c, ?_, hext, hmain, ?_⟩
    · rw [setup, hsetup, Option.bind_some]
    · intro e he
      cases he
  | some ext =>
    obtain ⟨c', hsetup', hext', hkept, hdiagonal⟩ := ext.setupExtArea_eq c
    refine ⟨c', ?_, hext', ?_, ?_⟩
    · rw [setup, hsetup, Option.bind_some]
      exact hsetup'
    · intro direction hdirection
      rw [hkept direction hdirection]
      exact hmain direction hdirection
    · intro e he
      rw [← Option.some.inj he]
      exact hdiagonal

theorem direction_cases (hasExtArea : Bool) (origin destination : Position) :
    IsMain (CombatArea.direction hasExtArea origin destination) ∨
      hasExtArea = true ∧ IsDiagonal (CombatArea.direction hasExtArea origin destination) := by
  rw [CombatArea.direction]
  split_ifs <;> simp_all [IsMain, IsDiagonal]

theorem not_isMain_of_isDiagonal {direction : Direction} (h : IsDiagonal direction) :
    ¬IsMain direction := by
  rcases h with rfl | rfl | rfl | rfl <;> simp [IsMain]

/-- In the main directions an area is stored as it should be. -/
theorem origin_main {direction : Direction} (h : IsMain direction) (dx dy : ℤ) :
    m.origin direction dx dy = turned direction dx dy := by
  rcases h with rfl | rfl | rfl | rfl <;> rfl

/-- The diagonals of a square matrix are stored as they should be, and those of a blank one. -/
theorem valueAt_diagonal {e : SpellMatrix} (h : e.rows = e.cols ∨ e.Blank) {direction : Direction}
    (hdirection : IsDiagonal direction) (dx dy : ℤ) :
    e.valueAt (e.origin direction dx dy).1 (e.origin direction dx dy).2 =
      e.valueAt (turned direction dx dy).1 (turned direction dx dy).2 := by
  rcases h with hsquare | hblank
  · have hmirror := (mirrorShift_eq_zero e).mpr hsquare
    have hflip := (flipShift_eq_zero e).mpr hsquare
    rcases hdirection with rfl | rfl | rfl | rfl <;>
      simp only [origin, turned, hmirror, hflip, zero_sub]
  · rw [valueAt, valueAt, (blank_iff e).mp hblank, (blank_iff e).mp hblank]

/-- A mirrored area is symmetric only where its center is where it should be. -/
theorem symmetric_northEast {e : SpellMatrix} {area : MatrixArea}
    (hstored : e.StoredFor .northEast area) (hsymmetric : e.Symmetric .northEast area) :
    e.rows = e.cols ∨ e.Blank := by
  have hshift : ∀ dx dy, e.valueAt (dx + e.mirrorShift) (dy + 0) = e.valueAt dx dy := by
    intro dx dy
    have h := hsymmetric (-dx) dy
    rw [hstored.valueAt_eq, origin, turned, neg_neg, sub_neg_eq_add, add_comm] at h
    rw [add_zero]
    exact h
  apply ((shift_iff e).mp hshift).imp_left
  intro hzero
  exact (mirrorShift_eq_zero e).mp hzero.2

theorem inShape_main {ext : Option SpellMatrix} {direction : Direction} (h : IsMain direction)
    (dx dy : ℤ) : m.InShape ext direction dx dy ↔
      m.valueAt (turned direction dx dy).1 (turned direction dx dy).2 = true := by
  rw [InShape]
  constructor
  · intro hshape
    rcases hshape with hmain | hdiagonal
    · exact hmain.2
    · exact absurd h (not_isMain_of_isDiagonal hdiagonal.1)
  · exact fun hvalue => Or.inl ⟨h, hvalue⟩

theorem inShape_diagonal {e : SpellMatrix} {direction : Direction} (h : IsDiagonal direction)
    (dx dy : ℤ) : m.InShape (some e) direction dx dy ↔
      e.valueAt (turned direction dx dy).1 (turned direction dx dy).2 = true := by
  rw [InShape]
  constructor
  · intro hshape
    rcases hshape with hmain | hdiagonal
    · exact absurd hmain.1 (not_isMain_of_isDiagonal h)
    · obtain ⟨-, e', he, hvalue⟩ := hdiagonal
      rw [Option.some.inj he]
      exact hvalue
  · exact fun hvalue => Or.inr ⟨h, e, rfl, hvalue⟩

/-- A law of the areas needs a square matrix for the diagonals, or one without a shape. -/
theorem AreaLaw.square_or_blank {m : SpellMatrix} {ext : Option SpellMatrix} {c : CombatArea}
    (h : m.AreaLaw ext c) {e : SpellMatrix} (he : ext = some e) : e.rows = e.cols ∨ e.Blank := by
  obtain ⟨c', hsetup, -, -, hdiagonal⟩ := m.setup_storedFor ext
  have hsame : c = c' := Option.some.inj (h.setup_eq.symm.trans hsetup)
  obtain ⟨area, harea, hsymmetric⟩ := h.diagonal e he .northEast (Or.inr (Or.inl rfl))
  obtain ⟨area', harea', hstored⟩ := hdiagonal e he .northEast (Or.inr (Or.inl rfl))
  rw [hsame, harea'] at harea
  rw [← Option.some.inj harea] at hsymmetric
  exact symmetric_northEast hstored hsymmetric

/-- The areas do what they are for exactly where the matrix for the diagonals is a square, or has no
cell of a shape. -/
theorem exists_areaLaw_iff (m : SpellMatrix) (ext : Option SpellMatrix) :
    (∃ c, m.AreaLaw ext c) ↔ ∀ e, ext = some e → e.rows = e.cols ∨ e.Blank := by
  obtain ⟨c, hsetup, hhasExt, hmain, hdiagonal⟩ := m.setup_storedFor ext
  constructor
  · intro h e he
    obtain ⟨c', hlaw⟩ := h
    exact hlaw.square_or_blank he
  · intro h
    refine ⟨c, hsetup, ?_, ?_, ?_⟩
    · intro direction hdirection
      obtain ⟨area, harea, hstored⟩ := hmain direction hdirection
      refine ⟨area, harea, ?_⟩
      intro dx dy
      rw [hstored.valueAt_eq, origin_main m hdirection]
    · intro e he direction hdirection
      obtain ⟨area, harea, hstored⟩ := hdiagonal e he direction hdirection
      refine ⟨area, harea, ?_⟩
      intro dx dy
      rw [hstored.valueAt_eq, valueAt_diagonal (h e he) hdirection]
    · intro world origin destination
      -- the area of the direction has the shape
      have hshape : ∃ area, c.getArea origin destination = some area ∧ area.rows < 2 ^ 16 ∧
          area.cols < 2 ^ 16 ∧ ∀ dx dy, area.valueAt dx dy = true ↔
            m.InShape ext (CombatArea.direction ext.isSome origin destination) dx dy := by
        rw [CombatArea.getArea, hhasExt]
        rcases direction_cases ext.isSome origin destination with hdirection | ⟨hext, hdirection⟩
        · obtain ⟨area, harea, hstored⟩ := hmain _ hdirection
          refine ⟨area, harea, hstored.rows_lt, hstored.cols_lt, ?_⟩
          intro dx dy
          rw [hstored.valueAt_eq, origin_main m hdirection, inShape_main m hdirection]
        · obtain ⟨e, he⟩ := Option.isSome_iff_exists.mp hext
          obtain ⟨area, harea, hstored⟩ := hdiagonal e he _ hdirection
          refine ⟨area, harea, hstored.rows_lt, hstored.cols_lt, ?_⟩
          intro dx dy
          rw [hstored.valueAt_eq, valueAt_diagonal (h e he) hdirection]
          rw [he] at hdirection ⊢
          rw [inShape_diagonal m hdirection]
      obtain ⟨area, harea, hrows, hcols, hvalue⟩ := hshape
      obtain ⟨tiles, hvisit, hnodup, hmem⟩ :=
        CombatArea.offsets_visit hrows hcols world destination
      refine ⟨tiles.reduceOption, ?_, hnodup, ?_⟩
      · rw [CombatArea.getList, harea]
        dsimp only
        rw [hvisit, Option.map_some]
      · intro p tile
        rw [hmem, hvalue]

/-- A row with the caster on its right. -/
def leftRow : SpellMatrix where
  rows := 1
  cols := 2
  cells := [1, 2]
  length_eq := rfl
  rows_lt := by decide
  cols_lt := by decide
  centerX := 1
  centerY := 0
  centerX_lt := by decide
  centerY_lt := by decide
  center_iff := by decide

/-- Mirrored, the row has its center outside of the matrix. -/
theorem not_areaLaw_leftRow : ¬∃ c, leftRow.AreaLaw (some leftRow) c := by
  intro h
  obtain ⟨c, hlaw⟩ := h
  rcases hlaw.square_or_blank rfl with hsquare | hblank
  · exact absurd hsquare (by decide)
  · exact hblank 1 (by decide) (Or.inl rfl)

example : (copyArea ⟨⟨1, 2, fun _ col => decide (col = 0)⟩, 1, 0⟩ (.new 4 4) .mirror).map
    (fun area => (area.centerX, area.valueAt 1 0)) = some (65535, false) := by decide

end SpellMatrix

end TyanoCore
