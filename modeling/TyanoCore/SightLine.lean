import Mathlib.Tactic.Ring
import TyanoCore.DigitalLine
import TyanoCore.Loop
import TyanoCore.Spectators

/-!
# Lines of sight

A line of sight is scanned cell by cell along its longest axis, whose coordinate takes the place of
the first one meanwhile.  A tile on the way blocks it when something there blocks projectiles; where
the line changes the floor, any tile above the last cell does.
-/

namespace TyanoCore

/-- A place the scan looks at, on the map or not. -/
@[ext]
structure Cell where
  x : ℤ
  y : ℤ
  z : ℤ
deriving DecidableEq

def Position.cell (p : Position) : Cell := ⟨p.x, p.y, p.z⟩

/-- What lies on a tile, as far as projectiles go: whether the kind of each thing blocks them. -/
structure SightTile where
  ground : Option Bool
  items : List Bool

/-- `Tile::hasProperty` for `BLOCKPROJECTILE`. -/
def SightTile.hasBlockProjectile (tile : SightTile) : Bool :=
  tile.ground.any id || tile.items.any id

/-- The floors of the map, each a function from its coordinates to the tiles. -/
structure SightMap where
  layers : ℕ → ℕ → ℕ → Option SightTile

namespace SightMap

def getTile (m : SightMap) (cell : Cell) : Option SightTile :=
  if cell.x < 0 ∨ Position.maxX < cell.x ∨ cell.y < 0 ∨ Position.maxY < cell.y ∨
      cell.z < 0 ∨ Position.maxZ < cell.z then none
  else m.layers cell.z.toNat cell.x.toNat cell.y.toNat

end SightMap

/-! ## The line -/

/-- The axis that leads. -/
inductive Axis where
  | x
  | y
  | z
deriving DecidableEq

/-- What the scan starts with: the ends of the line and the differences, where the leading axis has
changed places with `x`. -/
structure Ray where
  dir : Axis
  start : Cell
  finish : Cell
  dx : ℕ
  dy : ℕ
  dz : ℕ

/-- A value that goes through a `uint8_t`. -/
def toUInt8 (n : ℕ) : ℕ := n % 2 ^ 8

def ray (origin destination : Position) : Ray :=
  let dx := ((origin.x : ℤ) - destination.x).natAbs
  let dy := ((origin.y : ℤ) - destination.y).natAbs
  let dz := ((origin.z : ℤ) - destination.z).natAbs
  if dx < dz then
    -- the floor of a position has 8 bits, and the `x` coordinate is put there
    { dir := .z
      start := ⟨origin.z, origin.y, toUInt8 origin.x⟩
      finish := ⟨destination.z, destination.y, toUInt8 destination.x⟩
      dx := dz
      dy := dy
      dz := dx }
  else if dx < dy then
    { dir := .y
      start := ⟨origin.y, origin.x, origin.z⟩
      finish := ⟨destination.y, destination.x, destination.z⟩
      dx := dy
      dy := dx
      dz := dz }
  else
    { dir := .x
      start := origin.cell
      finish := destination.cell
      dx := dx
      dy := dy
      dz := dz }

/-- The direction of a step. -/
def stepSign (start finish : ℤ) : ℤ := if start < finish then 1 else -1

/-- The place of the scan on its line, and the two errors. -/
structure Scan where
  x : ℤ
  y : ℤ
  z : ℤ
  ey : ℤ
  ez : ℤ

namespace Ray

variable (r : Ray)

def sx : ℤ := stepSign r.start.x r.finish.x
def sy : ℤ := stepSign r.start.y r.finish.y
def sz : ℤ := stepSign r.start.z r.finish.z

def begin : Scan := { x := r.start.x, y := r.start.y, z := r.start.z, ey := 0, ez := 0 }

/-- The cell of the map, `(rx, ry, rz)`. -/
def cell (s : Scan) : Cell :=
  match r.dir with
  | .y => ⟨s.y, s.x, s.z⟩
  | .z => ⟨s.z, s.y, s.x⟩
  | .x => ⟨s.x, s.y, s.z⟩

/-- The end of a round. -/
def advance (s : Scan) : Scan :=
  let ey := s.ey + r.dy
  let ez := s.ez + r.dz
  { x := s.x + r.sx
    y := if r.dx ≤ 2 * ey then s.y + r.sy else s.y
    z := if r.dx ≤ 2 * ez then s.z + r.sz else s.z
    ey := if r.dx ≤ 2 * ey then ey - r.dx else ey
    ez := if r.dx ≤ 2 * ez then ez - r.dx else ez }

end Ray

/-! ## The scan -/

namespace SightMap

variable (m : SightMap)

/-- The last cell that was looked at; all zeros stand for none. -/
def lastOr (last cell : Cell) : Cell := if last = ⟨0, 0, 0⟩ then cell else last

/-- Where the floor changes, the cell of the last square on the upper floor. -/
def between (last cell : Cell) : List Cell :=
  if last.z ≠ cell.z then [⟨last.x, last.y, min last.z cell.z⟩] else []

/-- The cells that a round looks at, and the last one unless the sight is blocked. -/
def examine (origin destination last cell : Cell) : List Cell × Option Cell :=
  let last := lastOr last cell
  -- at a change of floor even an end of the line is looked at
  if last.z ≠ cell.z ∨ (cell ≠ destination ∧ cell ≠ origin) then
    let above := between last cell
    if above.any fun cell => (m.getTile cell).isSome then (above, none)
    else if (m.getTile cell).any SightTile.hasBlockProjectile then (above ++ [cell], none)
    else (above ++ [cell], some cell)
  else ([cell], some last)

/-- A round of the loop, with the cells examined so far. -/
def sightBody (origin destination : Cell) (r : Ray) :
    Scan × Cell × List Cell → (Scan × Cell × List Cell) ⊕ (Bool × List Cell)
  | (s, last, examined) =>
    -- the loop ends behind the end of the line, not at it
    if s.x = r.finish.x + r.sx then .inr (true, examined)
    else
      let (cells, last) := m.examine origin destination last (r.cell s)
      match last with
      | none => .inr (false, examined ++ cells)
      | some last => .inl (r.advance s, last, examined ++ cells)

/-- `Map::checkSightLine`, with the cells it examines in their order. -/
def checkSightLine (origin destination : Position) : Option (Bool × List Cell) :=
  let r := ray origin destination
  Loop.run (m.sightBody origin.cell destination.cell r) (r.dx + 2) (r.begin, ⟨0, 0, 0⟩, [])

/-- `Map::isSightClear`: two converging rays. -/
def isSightClear (origin destination : Position) (requireSameFloor : Bool) : Option Bool :=
  if requireSameFloor ∧ origin.z ≠ destination.z then some false
  else do
    let (clear, _) ← m.checkSightLine origin destination
    if clear then some true
    else (m.checkSightLine destination origin).map Prod.fst

/-- `Map::canThrowObjectTo`. -/
def canThrowObjectTo (origin destination : Position) (checkLineOfSight : Bool)
    (rangeX rangeY : ℤ) : Option Bool :=
  if Map.isUnderground origin.z ≠ Map.isUnderground destination.z then some false
  else if 2 < (origin.z : ℤ) - destination.z then some false
  else
    let deltaX := |(origin.x : ℤ) - destination.x|
    let deltaY := |(origin.y : ℤ) - destination.y|
    let deltaZ := |(origin.z : ℤ) - destination.z|
    if rangeX < deltaX - deltaZ ∨ rangeY < deltaY - deltaZ then some false
    else if checkLineOfSight then m.isSightClear origin destination false
    else some true

end SightMap

/-! ## The cells of a line -/

theorem stepSign_mul {start finish : ℤ} {n : ℕ} (hn : start = finish → n = 0) :
    stepSign start finish * n = (finish - start).sign * n := by
  unfold stepSign
  split
  · next hlt => rw [Int.sign_eq_one_of_pos (by omega)]
  · next hge =>
    rcases eq_or_ne start finish with heq | hne
    · rw [hn heq, Nat.cast_zero, mul_zero, mul_zero]
    · rw [Int.sign_eq_neg_one_of_neg (by omega)]

namespace Ray

variable (r : Ray)

/-- The scan after `k` rounds that do not end it. -/
def scanAt : ℕ → Scan
  | 0 => r.begin
  | k + 1 => r.advance (scanAt k)

/-- The cells of the whole line. -/
def cells : List Cell := (List.range (r.dx + 1)).map fun k => r.cell (r.scanAt k)

/-- The scan follows the error term along both of the other axes. -/
theorem scanAt_eq (k : ℕ) : r.scanAt k =
    { x := r.start.x + r.sx * k
      y := r.start.y + r.sy * (DigitalLine.walk r.dy r.dx k).2
      z := r.start.z + r.sz * (DigitalLine.walk r.dz r.dx k).2
      ey := (DigitalLine.walk r.dy r.dx k).1
      ez := (DigitalLine.walk r.dz r.dx k).1 } := by
  induction k with
  | zero => simp [scanAt, begin, DigitalLine.walk]
  | succ k ih =>
    rw [scanAt, ih, advance, DigitalLine.walk_succ, DigitalLine.walk_succ, DigitalLine.advance,
      DigitalLine.advance]
    dsimp only
    rw [Scan.mk.injEq]
    refine ⟨by push_cast; ring, ?_, ?_, ?_, ?_⟩
    · split
      · push_cast
        ring
      · rfl
    · split
      · push_cast
        ring
      · rfl
    · split <;> rfl
    · split <;> rfl

/-- The difference along the leading axis is that of the ends. -/
def Leads : Prop := r.dx = (r.finish.x - r.start.x).natAbs

variable {r}

/-- The loop ends after the last cell. -/
theorem Leads.exit_iff (h : r.Leads) {k : ℕ} (hk : k ≤ r.dx + 1) :
    (r.scanAt k).x = r.finish.x + r.sx ↔ k = r.dx + 1 := by
  unfold Leads at h
  rw [scanAt_eq]
  unfold sx stepSign
  dsimp only
  split <;> omega

end Ray

theorem ray_leads (origin destination : Position) : (ray origin destination).Leads := by
  unfold Ray.Leads ray Position.cell
  dsimp only
  split
  · dsimp only
    omega
  · split <;> dsimp only <;> omega

namespace SightMap

variable (m : SightMap)

/-- The rounds over the rest of the line: whether the sight is clear, and the cells examined. -/
def inspect (origin destination : Cell) : Cell → List Cell → Bool × List Cell
  | _, [] => (true, [])
  | last, cell :: rest =>
    match m.examine origin destination last cell with
    | (cells, none) => (false, cells)
    | (cells, some last) =>
      let (clear, examined) := inspect origin destination last rest
      (clear, cells ++ examined)

theorem run_sightBody {r : Ray} (h : r.Leads) (origin destination : Cell) (n : ℕ) :
    ∀ (k : ℕ) (last : Cell) (examined : List Cell), k + n = r.dx + 1 →
      Loop.run (m.sightBody origin destination r) (n + 1) (r.scanAt k, last, examined) =
        some (Prod.map id (examined ++ ·) (m.inspect origin destination last
          ((List.range' k n).map fun k => r.cell (r.scanAt k)))) := by
  -- on the rounds that are left; the place goes up as they go down
  induction n with
  | zero =>
    intro k last examined hk
    have hexit : (r.scanAt k).x = r.finish.x + r.sx := (h.exit_iff (by omega)).mpr (by omega)
    apply Loop.run_inr
    rw [sightBody, if_pos hexit]
    simp [inspect]
  | succ n ih =>
    intro k last examined hk
    have hgoes : ¬(r.scanAt k).x = r.finish.x + r.sx := fun hexit => by
      have hlast := (h.exit_iff (by omega)).mp hexit
      omega
    rw [List.range'_succ, List.map_cons, inspect]
    cases hexamine : m.examine origin destination last (r.cell (r.scanAt k)) with
    | mk cells last' =>
      cases last' with
      | none =>
        apply Loop.run_inr
        rw [sightBody, if_neg hgoes, hexamine]
        rfl
      | some last' =>
        have hround : m.sightBody origin destination r (r.scanAt k, last, examined) =
            .inl (r.scanAt (k + 1), last', examined ++ cells) := by
          rw [sightBody, if_neg hgoes, hexamine]
          rfl
        rw [Loop.run_inl hround, ih (k + 1) last' (examined ++ cells) (by omega)]
        simp [Prod.map]

/-- The scan goes through the cells of the line. -/
theorem checkSightLine_eq (origin destination : Position) :
    m.checkSightLine origin destination =
      some (m.inspect origin.cell destination.cell ⟨0, 0, 0⟩ (ray origin destination).cells) := by
  have hrun := m.run_sightBody (ray_leads origin destination) origin.cell destination.cell
    ((ray origin destination).dx + 1) 0 ⟨0, 0, 0⟩ [] (by omega)
  rw [← List.range_eq_range'] at hrun
  exact hrun.trans (by simp [Prod.map, Ray.cells])

end SightMap

/-! ## One floor -/

/-- The cell of the rounded line after `k` cells along the longer axis; `x` leads when the axes are
equally long. -/
def lineCell (origin destination : Position) (k : ℕ) : Cell :=
  let dx := ((origin.x : ℤ) - destination.x).natAbs
  let dy := ((origin.y : ℤ) - destination.y).natAbs
  let sx := ((destination.x : ℤ) - origin.x).sign
  let sy := ((destination.y : ℤ) - origin.y).sign
  if dx < dy then
    ⟨origin.x + sx * DigitalLine.rounded dx dy k, origin.y + sy * k, origin.z⟩
  else
    ⟨origin.x + sx * k, origin.y + sy * DigitalLine.rounded dy dx k, origin.z⟩

/-- The rounded line. -/
def roundedLine (origin destination : Position) : List Cell :=
  (List.range (max ((origin.x : ℤ) - destination.x).natAbs
    ((origin.y : ℤ) - destination.y).natAbs + 1)).map (lineCell origin destination)

/-- The steps of an axis are rounded, whichever way they go. -/
theorem step_rounded {start finish : ℤ} {dmin dmaj k : ℕ} (hmin : dmin = (start - finish).natAbs)
    (hle : dmin ≤ dmaj) (hk : k ≤ dmaj) :
    stepSign start finish * (DigitalLine.walk dmin dmaj k).2 =
      (finish - start).sign * DigitalLine.rounded dmin dmaj k := by
  rw [DigitalLine.walk_steps hle hk]
  apply stepSign_mul
  intro heq
  obtain rfl : dmin = 0 := by omega
  exact DigitalLine.rounded_straight

/-- On one floor the scan goes along the rounded line. -/
theorem ray_cells_same_floor {origin destination : Position} (hz : origin.z = destination.z) :
    (ray origin destination).cells = roundedLine origin destination := by
  have hdz : ((origin.z : ℤ) - destination.z).natAbs = 0 := by omega
  unfold Ray.cells roundedLine ray
  dsimp only
  rw [hdz, if_neg (Nat.not_lt_zero _)]
  split
  · next hdir =>
    rw [max_eq_right hdir.le]
    apply List.map_congr_left
    intro k hk
    rw [List.mem_range] at hk
    dsimp only at hk
    rw [Ray.scanAt_eq, lineCell, if_pos hdir]
    dsimp only [Ray.cell, Ray.sx, Ray.sy, Ray.sz]
    rw [DigitalLine.walk_steps (Nat.zero_le _) (by omega), DigitalLine.rounded_straight,
      step_rounded (by omega) hdir.le (by omega), stepSign_mul (n := k) (by omega)]
    simp
  · next hdir =>
    rw [max_eq_left (not_lt.mp hdir)]
    apply List.map_congr_left
    intro k hk
    rw [List.mem_range] at hk
    dsimp only at hk
    rw [Ray.scanAt_eq, lineCell, if_neg hdir]
    dsimp only [Ray.cell, Ray.sx, Ray.sy, Ray.sz, Position.cell]
    rw [DigitalLine.walk_steps (Nat.zero_le _) (by omega), DigitalLine.rounded_straight,
      step_rounded (by omega) (not_lt.mp hdir) (by omega), stepSign_mul (n := k) (by omega)]
    simp

theorem roundedLine_floor {origin destination : Position} :
    ∀ cell ∈ roundedLine origin destination, cell.z = origin.z := by
  intro cell hcell
  obtain ⟨k, -, rfl⟩ := List.mem_map.mp hcell
  unfold lineCell
  dsimp only
  split <;> rfl

namespace SightMap

variable (m : SightMap)

/-- A cell between the ends where something blocks projectiles. -/
def Obstructs (origin destination cell : Cell) : Prop :=
  cell ≠ origin ∧ cell ≠ destination ∧
    ∃ tile, m.getTile cell = some tile ∧ tile.hasBlockProjectile = true

/-- The scan of a line on one floor: it examines the cells up to the first one that obstructs it,
and all of them when none does. -/
structure Scanned (origin destination : Cell) (line : List Cell) (clear : Bool)
    (examined : List Cell) : Prop where
  inOrder : examined <+: line
  complete : clear = true → examined = line
  stopped : clear = false → ∃ before cell, examined = before ++ [cell] ∧
    ∀ c ∈ before, ¬m.Obstructs origin destination c
  blocked : clear = false ↔ ∃ cell ∈ examined, m.Obstructs origin destination cell

variable {m} {origin destination : Cell}

/-- On one floor a cell is looked at unless it is one of the ends. -/
theorem examine_same_floor {last cell : Cell} (hlast : (lastOr last cell).z = cell.z) :
    (∃ last', last'.z = cell.z ∧ m.examine origin destination last cell = ([cell], some last') ∧
        ¬m.Obstructs origin destination cell) ∨
      m.examine origin destination last cell = ([cell], none) ∧
        m.Obstructs origin destination cell := by
  have hfloor : ¬(lastOr last cell).z ≠ cell.z := not_not.mpr hlast
  have habove : between (lastOr last cell) cell = [] := if_neg hfloor
  unfold examine
  dsimp only
  rw [habove]
  split
  · next hbetween =>
    obtain ⟨hdestination, horigin⟩ := hbetween.resolve_left hfloor
    rw [List.any_nil, if_neg Bool.false_ne_true]
    split
    · next hblocks =>
      rw [Option.any_eq_true] at hblocks
      exact Or.inr ⟨rfl, horigin, hdestination, hblocks⟩
    · next hblocks =>
      rw [Option.any_eq_true] at hblocks
      exact Or.inl ⟨cell, rfl, rfl, fun hobstructs => hblocks hobstructs.2.2⟩
  · next hend =>
    refine Or.inl ⟨_, hlast, rfl, fun hobstructs => hend (Or.inr ?_)⟩
    exact ⟨hobstructs.2.1, hobstructs.1⟩

/-- On one floor the scan stops at the first cell that obstructs it. -/
theorem inspect_same_floor {z : ℤ} (line : List Cell) :
    ∀ last : Cell, (last = ⟨0, 0, 0⟩ ∨ last.z = z) → (∀ cell ∈ line, cell.z = z) →
      m.Scanned origin destination line (m.inspect origin destination last line).1
        (m.inspect origin destination last line).2 := by
  induction line with
  | nil =>
    intro last _ _
    constructor
    · exact List.prefix_refl []
    · exact fun _ => rfl
    · rintro ⟨⟩
    · constructor
      · rintro ⟨⟩
      · rintro ⟨cell, hcell, -⟩
        cases hcell
  | cons cell rest ih =>
    intro last hlast hline
    have hcell : cell.z = z := hline cell List.mem_cons_self
    have hfloor : (lastOr last cell).z = cell.z := by
      unfold lastOr
      split
      · rfl
      · next hset => exact (hlast.resolve_left hset).trans hcell.symm
    rw [inspect]
    rcases examine_same_floor hfloor with ⟨last', hlast', hexamine, hfree⟩ | ⟨hexamine, hobstructs⟩
    · have hrest := ih last' (Or.inr (hlast'.trans hcell))
        fun c hc => hline c (List.mem_cons_of_mem cell hc)
      rw [hexamine]
      constructor
      · exact (List.prefix_cons_inj cell).mpr hrest.inOrder
      · exact fun hclear => congrArg (cell :: ·) (hrest.complete hclear)
      · intro hblocked
        obtain ⟨before, last, hexamined, hbefore⟩ := hrest.stopped hblocked
        exact ⟨cell :: before, last, congrArg (cell :: ·) hexamined,
          List.forall_mem_cons.mpr ⟨hfree, hbefore⟩⟩
      · refine hrest.blocked.trans ⟨?_, ?_⟩
        · rintro ⟨c, hc, hobstructs⟩
          exact ⟨c, List.mem_cons_of_mem cell hc, hobstructs⟩
        · rintro ⟨c, hc, hobstructs⟩
          rcases List.mem_cons.mp hc with rfl | hc
          · exact absurd hobstructs hfree
          · exact ⟨c, hc, hobstructs⟩
    · rw [hexamine]
      constructor
      · exact ⟨rest, rfl⟩
      · rintro ⟨⟩
      · exact fun _ => ⟨[], cell, rfl, fun c hc => absurd hc List.not_mem_nil⟩
      · exact iff_of_true rfl ⟨cell, List.mem_cons_self, hobstructs⟩

end SightMap

/-- On one floor the scan examines the rounded line, up to the first cell that obstructs it. -/
theorem checkSightLine_same_floor (m : SightMap) (origin destination : Position)
    (hz : origin.z = destination.z) : ∃ clear examined,
      m.checkSightLine origin destination = some (clear, examined) ∧
        m.Scanned origin.cell destination.cell (roundedLine origin destination) clear examined := by
  refine ⟨_, _, m.checkSightLine_eq origin destination, ?_⟩
  rw [ray_cells_same_floor hz]
  exact SightMap.inspect_same_floor _ _ (Or.inl rfl) roundedLine_floor

namespace SightMap

/-- A map without tiles. -/
def nowhere : SightMap where
  layers _ _ _ := none

end SightMap

/-- A place on the ground level. -/
def groundPlace (x y : ℕ) (hx : x ≤ Position.maxX) (hy : y ≤ Position.maxY) : Position where
  x := x
  y := y
  z := 7
  x_le := hx
  y_le := hy
  z_le := Position.ground_le_maxZ

theorem checkSightLine_same_floor_diagonal :
    (groundPlace 5 1 (by decide) (by decide)).z = (groundPlace 2 3 (by decide) (by decide)).z ∧
      ∃ clear examined,
        SightMap.nowhere.checkSightLine (groundPlace 5 1 (by decide) (by decide))
            (groundPlace 2 3 (by decide) (by decide)) = some (clear, examined) ∧
          SightMap.nowhere.Scanned (groundPlace 5 1 (by decide) (by decide)).cell
            (groundPlace 2 3 (by decide) (by decide)).cell
            (roundedLine (groundPlace 5 1 (by decide) (by decide))
              (groundPlace 2 3 (by decide) (by decide))) clear examined :=
  ⟨rfl, checkSightLine_same_floor SightMap.nowhere _ _ rfl⟩

end TyanoCore
