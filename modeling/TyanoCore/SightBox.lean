import TyanoCore.SightLine

/-!
# The box of a line of sight

A line from one floor to another stays in the box of its ends when one of the first two axes leads.
Where the floors lie further apart than the `x` coordinates, `x` has to fit in the eight bits of a
floor, and `y` takes at most one step with each floor.
-/

namespace TyanoCore

/-- A coordinate between two others. -/
def Between (a b c : ℤ) : Prop := min a b ≤ c ∧ c ≤ max a b

/-- The cell lies in the box that the positions span. -/
structure InBox (origin destination : Position) (cell : Cell) : Prop where
  x : Between origin.x destination.x cell.x
  y : Between origin.y destination.y cell.y
  z : Between origin.z destination.z cell.z

theorem InBox.symm {origin destination : Position} {cell : Cell}
    (h : InBox destination origin cell) : InBox origin destination cell := by
  obtain ⟨hx, hy, hz⟩ := h
  unfold Between at hx hy hz
  constructor <;> unfold Between <;> omega

/-- Where the floor changes, the tile above the last cell lies in the box too. -/
theorem InBox.between {origin destination : Position} {last cell : Cell}
    (hlast : InBox origin destination last) (hcell : InBox origin destination cell) :
    InBox origin destination ⟨last.x, last.y, min last.z cell.z⟩ := by
  obtain ⟨hx, hy, hz⟩ := hlast
  obtain ⟨-, -, hz'⟩ := hcell
  refine ⟨hx, hy, ?_⟩
  unfold Between at hz hz' ⊢
  dsimp only
  omega

/-! ## The scan of a line in the box -/

namespace SightMap

variable {m m' : SightMap} {origin destination : Position}

/-- The maps have the same tiles in the box. -/
def AgreeOn (origin destination : Position) (m m' : SightMap) : Prop :=
  ∀ cell, InBox origin destination cell → m.getTile cell = m'.getTile cell

/-- All the cells lie in the box. -/
def AllInBox (origin destination : Position) (line : List Cell) : Prop :=
  ∀ cell ∈ line, InBox origin destination cell

/-- The last cell of a scan: none yet, or one in the box. -/
def LastInBox (origin destination : Position) (last : Cell) : Prop :=
  last = ⟨0, 0, 0⟩ ∨ InBox origin destination last

theorem LastInBox.lastOr {last cell : Cell} (h : LastInBox origin destination last)
    (hcell : InBox origin destination cell) :
    InBox origin destination (SightMap.lastOr last cell) := by
  unfold SightMap.lastOr
  split
  · exact hcell
  · next hset => exact h.resolve_left hset

/-- A round looks at cells in the box only, the current one last, and goes on from one of them. -/
theorem examine_inBox (o d : Cell) {last cell : Cell} (hlast : LastInBox origin destination last)
    (hcell : InBox origin destination cell) :
    AllInBox origin destination (m.examine o d last cell).1 ∧
      ∀ last', (m.examine o d last cell).2 = some last' →
        InBox origin destination last' ∧ (m.examine o d last cell).1.getLast? = some cell := by
  have hbefore := hlast.lastOr hcell
  have hone : AllInBox origin destination [cell] := List.forall_mem_singleton.mpr hcell
  have habove : AllInBox origin destination (between (lastOr last cell) cell) := by
    unfold between
    split
    · exact List.forall_mem_singleton.mpr (hbefore.between hcell)
    · exact List.forall_mem_nil _
  unfold examine
  dsimp only
  split
  · split
    · refine ⟨habove, ?_⟩
      rintro last' ⟨⟩
    · have hboth := List.forall_mem_append.mpr ⟨habove, hone⟩
      split
      · refine ⟨hboth, ?_⟩
        rintro last' ⟨⟩
      · refine ⟨hboth, ?_⟩
        rintro last' ⟨⟩
        exact ⟨hcell, List.getLast?_concat⟩
  · refine ⟨hone, ?_⟩
    rintro last' ⟨⟩
    exact ⟨hbefore, rfl⟩

/-- What a round does depends on the tiles of the box. -/
theorem examine_congr (hagree : AgreeOn origin destination m m') (o d : Cell) {last cell : Cell}
    (hlast : LastInBox origin destination last) (hcell : InBox origin destination cell) :
    m.examine o d last cell = m'.examine o d last cell := by
  have hbefore := hlast.lastOr hcell
  have habove : ((between (lastOr last cell) cell).any fun c => (m.getTile c).isSome) =
      (between (lastOr last cell) cell).any fun c => (m'.getTile c).isSome := by
    unfold between
    split
    · rw [List.any_cons, List.any_cons, hagree _ (hbefore.between hcell)]
      rfl
    · rfl
  unfold examine
  dsimp only
  rw [habove, hagree cell hcell]

/-- The scan of a line in the box examines cells of the box only; when the sight is clear, the last
one is the end of the line. -/
theorem inspect_inBox (o d : Cell) (line : List Cell) :
    ∀ last, LastInBox origin destination last → AllInBox origin destination line →
      AllInBox origin destination (m.inspect o d last line).2 ∧
        ((m.inspect o d last line).1 = true →
          (m.inspect o d last line).2.getLast? = line.getLast?) := by
  induction line with
  | nil => exact fun last _ _ => ⟨List.forall_mem_nil _, fun _ => rfl⟩
  | cons cell rest ih =>
    intro last hlast hline
    obtain ⟨hcell, hrest⟩ := List.forall_mem_cons.mp hline
    obtain ⟨hcells, hnext⟩ := examine_inBox (m := m) o d hlast hcell
    rw [inspect]
    cases hexamine : m.examine o d last cell with
    | mk cells last' =>
      rw [hexamine] at hcells hnext
      cases last' with
      | none =>
        refine ⟨hcells, ?_⟩
        rintro ⟨⟩
      | some last' =>
        obtain ⟨hlast', hend⟩ := hnext last' rfl
        obtain ⟨hexamined, hclear⟩ := ih last' (Or.inr hlast') hrest
        refine ⟨List.forall_mem_append.mpr ⟨hcells, hexamined⟩, fun h => ?_⟩
        dsimp only at hend
        rw [List.getLast?_append, hclear h, hend]
        -- the cell is the last one where the line ends with it
        cases rest with
        | nil => rfl
        | cons c cs => rw [List.getLast?_cons_cons, List.getLast?_cons]; rfl

theorem inspect_congr (hagree : AgreeOn origin destination m m') (o d : Cell) (line : List Cell) :
    ∀ last, LastInBox origin destination last → AllInBox origin destination line →
      m.inspect o d last line = m'.inspect o d last line := by
  induction line with
  | nil => exact fun last _ _ => rfl
  | cons cell rest ih =>
    intro last hlast hline
    obtain ⟨hcell, hrest⟩ := List.forall_mem_cons.mp hline
    have hnext := (examine_inBox (m := m') o d hlast hcell).2
    rw [inspect, inspect, examine_congr hagree o d hlast hcell]
    cases hexamine : m'.examine o d last cell with
    | mk cells last' =>
      rw [hexamine] at hnext
      cases last' with
      | none => rfl
      | some last' =>
        dsimp only
        rw [ih last' (Or.inr (hnext last' rfl).1) hrest]

theorem nowhere_getTile (cell : Cell) : nowhere.getTile cell = none := by
  unfold getTile
  split <;> rfl

/-- Nothing blocks the sight where there are no tiles, and each round looks at its cell last. -/
theorem inspect_nowhere (o d : Cell) (line : List Cell) :
    ∀ last, (nowhere.inspect o d last line).1 = true ∧
      (nowhere.inspect o d last line).2.getLast? = line.getLast? := by
  induction line with
  | nil => exact fun last => ⟨rfl, rfl⟩
  | cons cell rest ih =>
    intro last
    have hexamine : ∃ cells last', nowhere.examine o d last cell = (cells ++ [cell], some last') := by
      unfold examine
      dsimp only
      split
      · refine ⟨between (lastOr last cell) cell, cell, ?_⟩
        rw [if_neg (by simp [nowhere_getTile]), if_neg (by simp [nowhere_getTile])]
      · exact ⟨[], _, rfl⟩
    obtain ⟨cells, last', hexamine⟩ := hexamine
    obtain ⟨hclear, hend⟩ := ih last'
    rw [inspect, hexamine]
    refine ⟨hclear, ?_⟩
    dsimp only
    rw [List.getLast?_append, hend, List.getLast?_concat, List.getLast?_cons]
    cases rest with
    | nil => rfl
    | cons c cs => rw [List.getLast?_cons]; rfl

end SightMap

/-! ## The cells of a line across floors -/

theorem step_between {start finish : ℤ} {n : ℕ} (hn : n ≤ (start - finish).natAbs) :
    Between start finish (start + stepSign start finish * n) := by
  unfold Between stepSign
  split <;> omega

theorem step_full {start finish : ℤ} :
    start + stepSign start finish * (start - finish).natAbs = finish := by
  unfold stepSign
  split <;> omega

/-- The steps of an axis that does not lead stay between its ends. -/
theorem walk_between {start finish : ℤ} {dmin dmaj k : ℕ} (hmin : dmin = (start - finish).natAbs)
    (hle : dmin ≤ dmaj) (hk : k ≤ dmaj) :
    Between start finish (start + stepSign start finish * (DigitalLine.walk dmin dmaj k).2) := by
  rw [DigitalLine.walk_steps hle hk]
  exact step_between ((DigitalLine.rounded_le hle hk).trans hmin.le)

/-- The steps of an axis that does not lead end at its end. -/
theorem walk_full {start finish : ℤ} {dmin dmaj : ℕ} (hmin : dmin = (start - finish).natAbs)
    (hle : dmin ≤ dmaj) :
    start + stepSign start finish * (DigitalLine.walk dmin dmaj dmaj).2 = finish := by
  rw [DigitalLine.walk_steps hle le_rfl, DigitalLine.rounded_full hle, hmin]
  exact step_full

/-- The last cell of a line. -/
theorem Ray.cells_getLast? (r : Ray) : r.cells.getLast? = some (r.cell (r.scanAt r.dx)) := by
  unfold Ray.cells
  rw [List.range_succ, List.map_append, List.map_singleton, List.getLast?_concat]

/-- The coordinates fit where the scan puts them, and no axis needs more steps than it gets. -/
def Fits (origin destination : Position) : Prop :=
  ((origin.z : ℤ) - destination.z).natAbs ≤ ((origin.x : ℤ) - destination.x).natAbs ∨
    ((origin.y : ℤ) - destination.y).natAbs ≤ ((origin.z : ℤ) - destination.z).natAbs ∧
      origin.x < 2 ^ 8 ∧ destination.x < 2 ^ 8

instance (origin destination : Position) : Decidable (Fits origin destination) :=
  inferInstanceAs (Decidable (_ ∨ _ ∧ _ ∧ _))

theorem Fits.symm {origin destination : Position} (h : Fits origin destination) :
    Fits destination origin := by
  unfold Fits at h ⊢
  omega

/-- The line stays in the box, and ends at the destination. -/
theorem Fits.cells {origin destination : Position} (h : Fits origin destination) :
    SightMap.AllInBox origin destination (ray origin destination).cells ∧
      (ray origin destination).cells.getLast? = some destination.cell := by
  rw [Ray.cells_getLast?]
  unfold SightMap.AllInBox Ray.cells
  rw [List.forall_mem_map]
  simp only [List.mem_range, Ray.scanAt_eq]
  unfold ray
  dsimp only
  split
  · next hdir =>
    -- the floor leads, and both `x` coordinates go through the eight bits as they are
    obtain ⟨hy, hox, hdx⟩ := h.resolve_left (by omega)
    rw [show toUInt8 origin.x = origin.x from Nat.mod_eq_of_lt hox,
      show toUInt8 destination.x = destination.x from Nat.mod_eq_of_lt hdx]
    dsimp only [Ray.cell, Ray.sx, Ray.sy, Ray.sz, Position.cell]
    constructor
    · intro k hk
      exact ⟨walk_between rfl hdir.le (by omega), walk_between rfl hy (by omega),
        step_between (by omega)⟩
    · exact congrArg some (Cell.ext (walk_full rfl hdir.le) (walk_full rfl hy) step_full)
  · next hz =>
    split
    · next hdir =>
      dsimp only [Ray.cell, Ray.sx, Ray.sy, Ray.sz, Position.cell]
      constructor
      · intro k hk
        exact ⟨walk_between rfl hdir.le (by omega), step_between (by omega),
          walk_between rfl (by omega) (by omega)⟩
      · exact congrArg some
          (Cell.ext (walk_full rfl hdir.le) step_full (walk_full rfl (by omega)))
    · next hdir =>
      dsimp only [Ray.cell, Ray.sx, Ray.sy, Ray.sz, Position.cell]
      constructor
      · intro k hk
        exact ⟨step_between (by omega), walk_between rfl (not_lt.mp hdir) (by omega),
          walk_between rfl (not_lt.mp hz) (by omega)⟩
      · exact congrArg some
          (Cell.ext step_full (walk_full rfl (not_lt.mp hdir)) (walk_full rfl (not_lt.mp hz)))

/-- Otherwise the line misses the destination. -/
theorem Fits.of_cells {origin destination : Position}
    (h : (ray origin destination).cells.getLast? = some destination.cell) :
    Fits origin destination := by
  rw [Ray.cells_getLast?, Option.some.injEq, Ray.scanAt_eq] at h
  unfold ray at h
  dsimp only at h
  split at h
  · next hdir =>
    dsimp only [Ray.cell, Ray.sx, Ray.sy, Ray.sz, Position.cell] at h
    obtain ⟨hx, hy, -⟩ := Cell.mk.inj h
    right
    constructor
    · -- there is at most one step along `y` with each floor
      have hsteps : (DigitalLine.walk ((origin.y : ℤ) - destination.y).natAbs
          ((origin.z : ℤ) - destination.z).natAbs ((origin.z : ℤ) - destination.z).natAbs).2 ≤
          ((origin.z : ℤ) - destination.z).natAbs := DigitalLine.walk_steps_le
      unfold stepSign at hy
      split at hy <;> omega
    · rw [DigitalLine.walk_steps hdir.le le_rfl, DigitalLine.rounded_full hdir.le] at hx
      have hz := origin.z_le
      have hz' := destination.z_le
      unfold stepSign toUInt8 at hx
      unfold Position.maxZ at hz hz'
      split at hx <;> omega
  · next hz => exact Or.inl (not_lt.mp hz)

/-! ## Scans and what depends on them -/

/-- On every map the scan examines cells of the box only, and ends at the destination when nothing
blocks the sight. -/
def StaysInBox (origin destination : Position) : Prop :=
  ∀ m : SightMap, ∃ clear examined,
    m.checkSightLine origin destination = some (clear, examined) ∧
      (clear = true → examined.getLast? = some destination.cell) ∧
      SightMap.AllInBox origin destination examined

/-- Maps with the same tiles in the box answer alike. -/
def DependsOnBox (origin destination : Position) : Prop :=
  ∀ m m' : SightMap, SightMap.AgreeOn origin destination m m' →
    (∀ requireSameFloor, m.isSightClear origin destination requireSameFloor =
      m'.isSightClear origin destination requireSameFloor) ∧
    ∀ checkLineOfSight rangeX rangeY,
      m.canThrowObjectTo origin destination checkLineOfSight rangeX rangeY =
        m'.canThrowObjectTo origin destination checkLineOfSight rangeX rangeY

variable {origin destination : Position}

theorem Fits.staysInBox (h : Fits origin destination) : StaysInBox origin destination := by
  intro m
  obtain ⟨hbox, hend⟩ := h.cells
  obtain ⟨hexamined, hclear⟩ := SightMap.inspect_inBox (m := m) origin.cell destination.cell
    (ray origin destination).cells ⟨0, 0, 0⟩ (Or.inl rfl) hbox
  exact ⟨_, _, m.checkSightLine_eq origin destination, fun hc => (hclear hc).trans hend, hexamined⟩

theorem Fits.checkSightLine_congr (h : Fits origin destination) {m m' : SightMap}
    (hagree : SightMap.AgreeOn origin destination m m') :
    m.checkSightLine origin destination = m'.checkSightLine origin destination := by
  rw [m.checkSightLine_eq, m'.checkSightLine_eq,
    SightMap.inspect_congr hagree _ _ _ _ (Or.inl rfl) h.cells.1]

theorem Fits.dependsOnBox (h : Fits origin destination) : DependsOnBox origin destination := by
  intro m m' hagree
  have hthere := h.checkSightLine_congr hagree
  have hback := h.symm.checkSightLine_congr fun cell hcell => hagree cell hcell.symm
  have hclear (requireSameFloor : Bool) :
      m.isSightClear origin destination requireSameFloor =
        m'.isSightClear origin destination requireSameFloor := by
    unfold SightMap.isSightClear
    rw [hthere, hback]
  refine ⟨hclear, ?_⟩
  intro checkLineOfSight rangeX rangeY
  unfold SightMap.canThrowObjectTo
  rw [hclear false]

/-- The scan keeps to the box of its ends, and all that depends on it with it, if and only if the
coordinates fit. -/
theorem sightLine_box_iff (origin destination : Position) :
    StaysInBox origin destination ∧ DependsOnBox origin destination ↔ Fits origin destination := by
  constructor
  · rintro ⟨hstays, -⟩
    obtain ⟨clear, examined, hscan, hend, -⟩ := hstays SightMap.nowhere
    obtain ⟨hclear, hlast⟩ := SightMap.inspect_nowhere origin.cell destination.cell
      (ray origin destination).cells ⟨0, 0, 0⟩
    rw [SightMap.checkSightLine_eq, Option.some.injEq] at hscan
    rw [hscan] at hclear hlast
    exact Fits.of_cells (hlast.symm.trans (hend hclear))
  · exact fun h => ⟨h.staysInBox, h.dependsOnBox⟩

/-- A place of the map, east of the first 256 columns. -/
def eastPlace (z : ℕ) (hz : z ≤ Position.maxZ) : Position where
  x := 300
  y := 100
  z := z
  x_le := by decide
  y_le := Position.hundred_le_maxY
  z_le := hz

/-- The line to the square above goes along squares 256 columns further west. -/
theorem eastPlace_leaves_box :
    SightMap.nowhere.checkSightLine (eastPlace 7 (by decide)) (eastPlace 6 (by decide)) =
        some (true, [⟨44, 100, 7⟩, ⟨44, 100, 6⟩, ⟨44, 100, 6⟩]) ∧
      ¬(StaysInBox (eastPlace 7 (by decide)) (eastPlace 6 (by decide)) ∧
        DependsOnBox (eastPlace 7 (by decide)) (eastPlace 6 (by decide))) := by
  have hscan : SightMap.nowhere.checkSightLine (eastPlace 7 (by decide))
      (eastPlace 6 (by decide)) = some (true, [⟨44, 100, 7⟩, ⟨44, 100, 6⟩, ⟨44, 100, 6⟩]) := by decide
  refine ⟨hscan, ?_⟩
  rintro ⟨hstays, -⟩
  obtain ⟨clear, examined, hscan', hend, -⟩ := hstays SightMap.nowhere
  obtain ⟨rfl, rfl⟩ := Prod.mk.inj (Option.some.inj (hscan.symm.trans hscan'))
  exact absurd (hend rfl) (by decide)

end TyanoCore
