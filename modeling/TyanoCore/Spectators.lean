import TyanoCore.Position

/-!
# The creatures of the map

The map keeps the creatures in blocks of a hundred times a hundred squares, floor by floor, in one
array.  `getSpectators` goes through the blocks around a position; what the clients' usual window
shows is remembered until the next creature moves.
-/

namespace TyanoCore

/-- The map, and where the creatures stand: `tile` is the position of a creature's tile. -/
structure Map where
  width : ℕ
  height : ℕ
  /-- `_creatures`: null, or the blocks; one outside of the array reads as empty. -/
  creatures : Option (ℕ → List CreatureId) := none
  spectatorCache : Position → Option (List CreatureId) := fun _ => none
  tile : CreatureId → Option Position := fun _ => none
  lastPosition : CreatureId → Position

namespace Map

def creaturesBlockSize : ℕ := 100
def maxX : ℕ := 60000
def maxY : ℕ := 60000
def maxZ : ℕ := 15
def maxViewportX : ℕ := 11
def maxViewportY : ℕ := 11
def numZ : ℕ := maxZ + 1

def isUnderground (z : ℕ) : Bool := 8 ≤ z

variable (m : Map)

def creatureBlockCountX : ℕ := m.width / creaturesBlockSize + 1
def creatureBlockCountY : ℕ := m.height / creaturesBlockSize + 1
def creatureBlockCountZ : ℕ := numZ

/-- `Creature::getPosition`. -/
def getPosition (c : CreatureId) : Position := (m.tile c).getD (m.lastPosition c)

def clearSpectatorCache : Map := { m with spectatorCache := fun _ => none }

/-! ## The blocks -/

def creaturesIndexForPosition (p : Position) : ℕ :=
  creatureBlockCountZ * m.creatureBlockCountY * (p.x / creaturesBlockSize)
    + creatureBlockCountZ * (p.y / creaturesBlockSize) + p.z

def setBlock (blocks : ℕ → List CreatureId) (index : ℕ) (block : List CreatureId) :
    ℕ → List CreatureId :=
  fun i => if i = index then block else blocks i

/-- A creature leaves the block with an index; `none` when it is not there. -/
def leaveBlock (creatures : Option (ℕ → List CreatureId)) (c : CreatureId) (fromIndex : Option ℕ) :
    Option (Option (ℕ → List CreatureId)) :=
  match fromIndex, creatures with
  | some index, some blocks =>
    if c ∈ blocks index then some (some (setBlock blocks index ((blocks index).erase c)))
    else none
  | _, _ => some creatures

/-- A creature comes to the block with an index; the array is made for the first one. -/
def enterBlock (creatures : Option (ℕ → List CreatureId)) (c : CreatureId) (toIndex : Option ℕ) :
    Option (ℕ → List CreatureId) :=
  match toIndex with
  | none => creatures
  | some index =>
    let blocks := creatures.getD fun _ => []
    some (setBlock blocks index (blocks index ++ [c]))

/-- `Map::onCreatureMoved`. -/
def onCreatureMoved (c : CreatureId) (fromTile toTile : Option Position) : Option Map :=
  let fromIndex := fromTile.map m.creaturesIndexForPosition
  let toIndex := toTile.map m.creaturesIndexForPosition
  if fromIndex = toIndex then some m
  else (leaveBlock m.creatures c fromIndex).map fun creatures =>
    { m with creatures := enterBlock creatures c toIndex }

/-! ## Spectators -/

/-- The values of an index that goes from `first` to `last` in steps. -/
def indexes (first last step : ℕ) : List ℕ :=
  if last < first then [] else List.range' first ((last - first) / step + 1) step

/-- A border of the window, kept on the map. -/
def clamp (value : ℤ) (limit : ℕ) : ℕ := (max 0 (min value limit)).toNat

/-- The offsets of a window from its centre. -/
structure Offsets where
  minX : ℤ
  maxX : ℤ
  minY : ℤ
  maxY : ℤ
deriving DecidableEq

/-- What the window shows of a floor; it moves with the height. -/
structure Window where
  minX : ℕ
  maxX : ℕ
  minY : ℕ
  maxY : ℕ

def window (center : Position) (offsets : Offsets) (z : ℕ) : Window :=
  let deltaZ : ℤ := center.z - z
  { minX := clamp (center.x + offsets.minX + deltaZ) maxX
    maxX := clamp (center.x + offsets.maxX + deltaZ) maxX
    minY := clamp (center.y + offsets.minY + deltaZ) maxY
    maxY := clamp (center.y + offsets.maxY + deltaZ) maxY }

def Window.Contains (window : Window) (p : Position) : Prop :=
  window.minX ≤ p.x ∧ p.x ≤ window.maxX ∧ window.minY ≤ p.y ∧ p.y ≤ window.maxY

instance (window : Window) (p : Position) : Decidable (window.Contains p) :=
  inferInstanceAs (Decidable (_ ∧ _ ∧ _ ∧ _))

/-- The indexes of the blocks that a window touches on a floor. -/
def blockIndexes (window : Window) (z : ℕ) : List ℕ :=
  let indexStepX := creatureBlockCountZ * m.creatureBlockCountY
  let indexStepY := creatureBlockCountZ
  let minIndexX := indexStepX * (window.minX / creaturesBlockSize)
  let maxIndexX := indexStepX * (window.maxX / creaturesBlockSize)
  let minIndexY := indexStepY * (window.minY / creaturesBlockSize)
  let maxIndexY := indexStepY * (window.maxY / creaturesBlockSize)
  (indexes minIndexX maxIndexX indexStepX).flatMap fun indexX =>
    (indexes minIndexY maxIndexY indexStepY).map fun indexY => indexX + indexY + z

/-- The creatures on a floor that the loops of `Map::getSpectators` come to, in their order. -/
def floorSpectators (blocks : ℕ → List CreatureId) (center : Position) (offsets : Offsets)
    (z : ℕ) : List CreatureId :=
  let window := window center offsets z
  if window.maxX < window.minX ∨ window.maxY < window.minY then []
  else (m.blockIndexes window z).flatMap fun index =>
    (blocks index).filter fun c => window.Contains (m.getPosition c)

def addSpectator (checkForDuplicates : Bool) (spectators : List CreatureId) (c : CreatureId) :
    List CreatureId :=
  if !checkForDuplicates || c ∉ spectators then spectators ++ [c] else spectators

/-- The private `Map::getSpectators`. -/
def collectSpectators (spectators : List CreatureId) (center : Position)
    (checkForDuplicates : Bool) (offsets : Offsets) (minZ maxZ : ℕ) : List CreatureId :=
  match m.creatures with
  | none => spectators
  | some blocks =>
    ((List.range' minZ (maxZ + 1 - minZ)).flatMap (m.floorSpectators blocks center offsets)).foldl
      (addSpectator checkForDuplicates) spectators

/-! ## The cache -/

/-- The ranges of `Map::getSpectators`; zero stands for the viewport. -/
structure Ranges where
  west : ℤ := 0
  east : ℤ := 0
  north : ℤ := 0
  south : ℤ := 0

def Ranges.offsets (ranges : Ranges) : Offsets where
  minX := if ranges.west = 0 then -maxViewportX else -ranges.west
  maxX := if ranges.east = 0 then maxViewportX else ranges.east
  minY := if ranges.north = 0 then -maxViewportY else -ranges.north
  maxY := if ranges.south = 0 then maxViewportY else ranges.south

def viewport : Offsets where
  minX := -maxViewportX
  maxX := maxViewportX
  minY := -maxViewportY
  maxY := maxViewportY

/-- The floors that a query looks at. -/
def floors (z : ℕ) (multiFloor : Bool) : ℕ × ℕ :=
  if multiFloor then
    if isUnderground z then (z - 2, min (z + 2) maxZ)
    else (0, 7)
  else (z, z)

/-- A query whose result is remembered. -/
def cacheable (checkForDuplicates multiFloor : Bool) (ranges : Ranges) : Bool :=
  ranges.offsets = viewport && multiFloor && !checkForDuplicates

/-- `Map::getSpectators` into a list; `isEntry` when the list is itself the entry of the cache. -/
def getSpectatorsInto (isEntry : Bool) (spectators : List CreatureId) (center : Position)
    (checkForDuplicates multiFloor : Bool) (ranges : Ranges) : Map × List CreatureId :=
  if maxZ < center.z then (m, spectators)
  else
    let cacheResult := cacheable checkForDuplicates multiFloor ranges
    let entry := if cacheResult && !isEntry then m.spectatorCache center else none
    match entry with
    | some entry => (m, entry)
    | none =>
      let (minZ, maxZ) := floors center.z multiFloor
      let spectators := m.collectSpectators spectators center true ranges.offsets minZ maxZ
      if cacheResult then
        ({ m with
            spectatorCache := fun p => if p = center then some spectators else m.spectatorCache p },
          spectators)
      else (m, spectators)

/-- `Map::getSpectators` around a position: the entry of the cache, which is filled first. -/
def getSpectators (center : Position) : Map × List CreatureId :=
  if maxZ < center.z then (m, [])
  else match m.spectatorCache center with
  | some entry => (m, entry)
  | none => m.getSpectatorsInto true [] center false true {}

/-! ## Creatures come and go -/

/-- A creature is on another tile, and the map is told. -/
def moveCreature (c : CreatureId) (fromTile toTile : Option Position) : Option Map :=
  { m with tile := fun d => if d = c then toTile else m.tile d }.onCreatureMoved c fromTile toTile

/-- What `Tile::addCreature` and `Tile::removeCreature` end with: the cache is cleared, then the
creature is moved. -/
def place (c : CreatureId) (toTile : Option Position) (lastPosition : Position) : Option Map :=
  let m := { m with lastPosition := fun d => if d = c then lastPosition else m.lastPosition d }
  m.clearSpectatorCache.moveCreature c (m.tile c) toTile

/-- `Tile::addCreature` of the tile at `pos`; `admitted` when no check and no script refuses. -/
def addCreature (c : CreatureId) (pos : Position) (admitted : Bool) : Option Map :=
  if !admitted || m.tile c = some pos then some m
  else match m.tile c with
  | some previous =>
    let (m, spectators) := m.getSpectatorsInto false [] previous false true {}
    let (m, _) := m.getSpectatorsInto false spectators pos true true {}
    m.place c (some pos) previous
  | none =>
    let (m, _) := m.getSpectatorsInto false [c] pos true true {}
    m.place c (some pos) pos

/-- `Tile::removeCreature` of the tile the creature stands on. -/
def removeCreature (c : CreatureId) (admitted : Bool) : Option Map :=
  match m.tile c with
  | none => some m
  | some pos =>
    if !admitted then some m
    else
      let (m, _) := m.getSpectatorsInto false [] pos false true {}
      m.place c none pos

end Map

end TyanoCore
