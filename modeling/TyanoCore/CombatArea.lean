import Mathlib.Data.List.ReduceOption
import TyanoCore.Grid
import TyanoCore.PathRoute
import TyanoCore.SightLine

/-!
# Areas of spells

The shape of a spell is a matrix of cells around the place of the caster.  It is given for the north
(and for the north-west) and copied for the other directions: turned for the four main ones, mirrored
and flipped for the diagonals.  Every access to a matrix is checked, so that a result means that
all of them were within its cells.
-/

namespace TyanoCore

structure MatrixArea extends Grid Bool where
  centerX : ℕ
  centerY : ℕ

namespace MatrixArea

def new (rows cols : ℕ) : MatrixArea :=
  { toGrid := Grid.blank false rows cols, centerX := 0, centerY := 0 }

def setValue (area : MatrixArea) (row col : ℤ) (value : Bool) : Option MatrixArea :=
  (area.write row col value).map fun grid => { area with toGrid := grid }

def getValue (area : MatrixArea) (row col : ℤ) : Option Bool := area.read row col

/-- The coordinates of the center have 16 bits. -/
def setCenter (area : MatrixArea) (y x : ℤ) : MatrixArea :=
  { area with centerX := (x % 2 ^ 16).toNat, centerY := (y % 2 ^ 16).toNat }

/-- The value at an offset from the center; there is none where the matrix has no cell. -/
def valueAt (area : MatrixArea) (dx dy : ℤ) : Bool :=
  area.value false (area.centerY + dy) (area.centerX + dx)

end MatrixArea

inductive MatrixOperation
  | copy
  | mirror
  | flip
  | rotate90
  | rotate180
  | rotate270
deriving DecidableEq

namespace MatrixOperation

/-- The cosine of the angle of a rotation. -/
def cos : MatrixOperation → ℤ
  | .rotate90 => 0
  | .rotate180 => -1
  | .rotate270 => 0
  | _ => 1

def sin : MatrixOperation → ℤ
  | .rotate90 => 1
  | .rotate180 => 0
  | .rotate270 => -1
  | _ => 0

end MatrixOperation

def rotateCenterX (output : MatrixArea) : ℤ := (output.cols / 2 : ℕ) - 1
def rotateCenterY (output : MatrixArea) : ℤ := (output.rows / 2 : ℕ) - 1

/-- The cells that `copyArea` goes through, in its order. -/
def copyCells (input output : MatrixArea) (op : MatrixOperation) : List Grid.Copy :=
  match op with
  | .copy =>
    (List.range input.rows).flatMap fun y : ℕ => (List.range input.cols).map fun x : ℕ =>
      { row := y, col := x, fromRow := y, fromCol := x }
  | .mirror =>
    (List.range input.rows).flatMap fun y : ℕ => (List.range input.cols).map fun rx : ℕ =>
      { row := y, col := rx, fromRow := y, fromCol := (input.cols : ℤ) - 1 - rx }
  | .flip =>
    (List.range input.cols).flatMap fun x : ℕ => (List.range input.rows).map fun ry : ℕ =>
      { row := ry, col := x, fromRow := (input.rows : ℤ) - 1 - ry, fromCol := x }
  | _ =>
    (List.range input.cols).flatMap fun x : ℕ => (List.range input.rows).map fun y : ℕ =>
      let newX : ℤ := x - input.centerX
      let newY : ℤ := y - input.centerY
      { row := newX * op.sin + newY * op.cos + rotateCenterY output
        col := newX * op.cos - newY * op.sin + rotateCenterX output
        fromRow := y
        fromCol := x }

/-- `CombatArea::copyArea`, where the rotations are exact. -/
def copyArea (input output : MatrixArea) (op : MatrixOperation) : Option MatrixArea :=
  (input.transfer (copyCells input output op) output.toGrid).map fun grid =>
    let copied := { output with toGrid := grid }
    match op with
    | .copy => copied.setCenter input.centerY input.centerX
    | .mirror => copied.setCenter input.centerY ((input.rows : ℤ) - 1 - input.centerX)
    | .flip => copied.setCenter ((input.cols : ℤ) - 1 - input.centerY) input.centerX
    | _ => copied.setCenter (rotateCenterY output) (rotateCenterX output)

/-! ## The given matrix -/

/-- The matrix as far as `createArea` has filled it, and the cell that is next. -/
structure AreaFilling where
  area : MatrixArea
  x : ℕ
  y : ℕ

/-- A cell that belongs to the shape, and one that is the place of the caster. -/
def IsValue (cell : ℕ) : Prop := cell = 1 ∨ cell = 3
def IsCenter (cell : ℕ) : Prop := cell = 2 ∨ cell = 3

instance : DecidablePred IsValue := fun _ => inferInstanceAs (Decidable (_ ∨ _))
instance : DecidablePred IsCenter := fun _ => inferInstanceAs (Decidable (_ ∨ _))

/-- A round of the loop of `createArea`; the coordinates have 16 bits. -/
def fill (cols : ℕ) (s : AreaFilling) (cell : ℕ) : Option AreaFilling :=
  (if IsValue cell then s.area.setValue s.y s.x true else some s.area).map fun area =>
    let area := if IsCenter cell then area.setCenter s.y s.x else area
    let x := (s.x + 1) % 2 ^ 16
    if cols ≠ x then { area, x, y := s.y }
    else { area, x := 0, y := (s.y + 1) % 2 ^ 16 }

def createArea (cells : List ℕ) (rows : ℕ) : Option MatrixArea :=
  let cols := cells.length / rows
  (cells.foldlM (fill cols) ⟨MatrixArea.new rows cols, 0, 0⟩).map AreaFilling.area

/-! ## The areas -/

/-- `areas` and `hasExtArea`. -/
structure CombatArea where
  areas : Direction → Option MatrixArea
  hasExtArea : Bool

namespace CombatArea

def new : CombatArea := { areas := fun _ => none, hasExtArea := false }

def setArea (c : CombatArea) (direction : Direction) (area : MatrixArea) : CombatArea :=
  { c with areas := fun d => if d = direction then some area else c.areas d }

def setupArea (c : CombatArea) (cells : List ℕ) (rows : ℕ) : Option CombatArea := do
  let area ← createArea cells rows
  let maxOutput := max area.cols area.rows * 2
  let southArea ← copyArea area (.new maxOutput maxOutput) .rotate180
  let eastArea ← copyArea area (.new maxOutput maxOutput) .rotate90
  let westArea ← copyArea area (.new maxOutput maxOutput) .rotate270
  some ((((c.setArea .north area).setArea .south southArea).setArea .east eastArea).setArea
    .west westArea)

def setupExtArea (c : CombatArea) (cells : List ℕ) (rows : ℕ) : Option CombatArea :=
  if cells = [] then some c
  else do
    let area ← createArea cells rows
    let maxOutput := max area.cols area.rows * 2
    let neArea ← copyArea area (.new maxOutput maxOutput) .mirror
    let swArea ← copyArea area (.new maxOutput maxOutput) .flip
    -- the fourth one comes from the third one, in whose cells the first rows may be empty
    let seArea ← copyArea swArea (.new maxOutput maxOutput) .mirror
    let c := (((c.setArea .northWest area).setArea .northEast neArea).setArea
      .southWest swArea).setArea .southEast seArea
    some { c with hasExtArea := true }

/-- The direction whose area `getArea` takes. -/
def direction (hasExtArea : Bool) (origin destination : Position) : Direction :=
  let dx : ℤ := destination.x - origin.x
  let dy : ℤ := destination.y - origin.y
  if hasExtArea ∧ dx < 0 ∧ dy < 0 then .northWest
  else if hasExtArea ∧ 0 < dx ∧ dy < 0 then .northEast
  else if hasExtArea ∧ dx < 0 ∧ 0 < dy then .southWest
  else if hasExtArea ∧ 0 < dx ∧ 0 < dy then .southEast
  else if dx < 0 then .west
  else if 0 < dx then .east
  else if dy < 0 then .north
  else .south

def getArea (c : CombatArea) (origin destination : Position) : Option MatrixArea :=
  c.areas (direction c.hasExtArea origin destination)

/-- The values of a counter from the first to the last one. -/
def counter (first last : ℤ) : List ℤ := 
  (List.range (last + 1 - first).toNat).map fun k : ℕ => first + k

/-- The offsets that `getList` goes through, in its order, as `(offsetX, offsetY)`. -/
def offsets (area : MatrixArea) (destination : Position) : List (ℤ × ℤ) :=
  let sizeX : ℕ := area.cols % 2 ^ 16
  let sizeY : ℕ := area.rows % 2 ^ 16
  let maxOffsetX := min ((sizeX : ℤ) - area.centerX - 1) ((Position.maxX : ℤ) - destination.x)
  let maxOffsetY := min ((sizeY : ℤ) - area.centerY - 1) ((Position.maxY : ℤ) - destination.y)
  let minOffsetX := -min (area.centerX : ℤ) destination.x
  let minOffsetY := -min (area.centerY : ℤ) destination.y
  if sizeX = 0 ∨ sizeY = 0 then []
  else (counter minOffsetY maxOffsetY).flatMap fun offsetY =>
    (counter minOffsetX maxOffsetX).map fun offsetX => (offsetX, offsetY)

/-- A round of the loops of `getList`: the tile that it adds, with its position. -/
def visit (area : MatrixArea) (world : SightMap) (destination : Position) (offset : ℤ × ℤ) :
    Option (Option (Position × SightTile)) :=
  (area.getValue (area.centerY + offset.2) (area.centerX + offset.1)).bind fun value =>
    if value then
      -- the constructor asserts that the position is valid
      (Position.of (destination.x + offset.1) (destination.y + offset.2) destination.z).map
        fun position =>
          if world.isSightClear destination position true = some true then
            (world.getTile position.cell).map fun tile => (position, tile)
          else none
    else some none

/-- `CombatArea::getList`: what it returns, and the tiles that it adds to the list. -/
def getList (c : CombatArea) (world : SightMap) (origin destination : Position) :
    Option (Bool × List (Position × SightTile)) :=
  match c.getArea origin destination with
  | none => some (false, [])
  | some area =>
    ((offsets area destination).mapM (visit area world destination)).map fun tiles =>
      (true, tiles.reduceOption)

end CombatArea

end TyanoCore
