import TyanoCore.ForwardingSearch

/-!
# Whether a creature can be added to a tile

`Tile::testAddCreature` asks a forwarding tile for its destination, tests the tile there, and then
looks for a tile near it that has room.  A teleporter or a change of floor that leads to itself is
refused; one that leads back over others is not.
-/

namespace TyanoCore

/-! ## Creatures and tiles -/

def FLAG_NOLIMIT : BitVec 32 := 1
def FLAG_IGNOREBLOCKITEM : BitVec 32 := 2
def FLAG_IGNORE_PROTECTION_ZONE : BitVec 32 := 128

def hasBitSet (flag flags : BitVec 32) : Bool := flags &&& flag = flag

/-- What a tile asks a monster; damage comes in types. -/
structure EnteringMonster where
  isHostile : Bool := true
  canPushItems : Bool := false
  canPushCreatures : Bool := false
  hasController : Bool := false
  isFollowing : Bool := false
  isImmune : ℕ → Bool := fun _ => false
  /-- The monster has the condition that goes with a type of damage. -/
  hasCondition : ℕ → Bool := fun _ => false

inductive EnteringKind where
  | monster (monster : EnteringMonster)
  | player (isPzLocked : Bool)
  | npc

structure EnteringCreature where
  kind : EnteringKind
  /-- The tile that the creature is on. -/
  tile : Option Position := none

/-- `Creature::getMoveFlags` and those of monsters and npcs. -/
def EnteringCreature.getMoveFlags (creature : EnteringCreature) : BitVec 32 :=
  match creature.kind with
  | .monster monster =>
    if monster.isFollowing then FLAG_PATHFINDING ||| FLAG_IGNOREFIELDDAMAGE else FLAG_PATHFINDING
  | .player _ => 0
  | .npc => FLAG_PATHFINDING

/-- An item as it is for the creature that comes. -/
structure ObstacleItem where
  isBlocking : Bool := false
  isMoveable : Bool := true

structure ObstacleField where
  isBlocking : Bool := false
  combatType : ℕ := 0

/-- A creature on a tile as it is for the one that comes. -/
structure ObstacleCreature where
  canWalkthrough : Bool := false
  isMonster : Bool := false
  isPushable : Bool := false
  hasController : Bool := false

/-- A tile without the flags that depend on its items. -/
structure EntryTile where
  lockCount : ℕ := 0
  ground : Option ObstacleItem := none
  fieldItem : Option ObstacleField := none
  /-- The destination of the teleporter, which may be no position. -/
  teleporter : Option (Option Position) := none
  items : List ObstacleItem := []
  creatures : List ObstacleCreature := []
  thingCount : ℕ := 0
  protectionZone : Bool := false
  pvpZone : Bool := false
  noPvpZone : Bool := false
  /-- For the tile of a house, whether the player is invited. -/
  house : Option Bool := none

/-- The returns of the test. -/
inductive EntryReturn where
  | noError
  | notPossible
  | notEnoughRoom
  | locked
  | playerIsPzLocked
  | playerIsPzLockedEnterPvpZone
  | playerIsPzLockedLeavePvpZone
  | destinationOutOfReach
  | playerIsNotInvited
deriving DecidableEq

/-- What a search sees of a return; the codes are those of the enumeration. -/
def EntryReturn.toPlacement : EntryReturn → PlacementReturn
  | .noError => .noError
  | .notPossible => .notPossible
  | .notEnoughRoom => .notEnoughRoom
  | .locked => .other 0
  | .playerIsPzLocked => .other 1
  | .playerIsPzLockedEnterPvpZone => .other 2
  | .playerIsPzLockedLeavePvpZone => .other 3
  | .destinationOutOfReach => .other 4
  | .playerIsNotInvited => .other 5

/-- The map, the creature that comes, and the dice of each search. -/
structure EntryTest where
  tile : Position → Option EntryTile
  creature : EnteringCreature
  dice : ℕ → Shuffles

namespace EntryTest

variable (t : EntryTest) (m : TileFlags) (p : Position) (tile : EntryTile) (flags : BitVec 32)

/-! ## Being allowed in general -/

def previousTile : Option EntryTile := t.creature.tile.bind t.tile

/-- The checks for a monster. -/
def testMonster (monster : EnteringMonster) : Option EntryReturn :=
  let pathfinding := hasBitSet FLAG_PATHFINDING flags
  if monster.isHostile && !hasBitSet FLAG_IGNORE_PROTECTION_ZONE flags && tile.protectionZone
      && !t.previousTile.any EntryTile.protectionZone then some .notPossible
  else if m p (.property .immovableBlockSolid) then some .notPossible
  else if pathfinding && m p (.property .immovableNoFieldBlockPath) then some .notPossible
  else if (m p (.property .blockSolid) || pathfinding && m p (.property .noFieldBlockPath))
      && (!monster.canPushItems || hasBitSet FLAG_IGNOREBLOCKITEM flags) then some .notPossible
  else match tile.fieldItem with
  | none => none
  | some magicField =>
    -- "previousCombatType" is the one of the field here, not of the previous field
    let alreadyAffected := t.previousTile.any fun previous =>
      previous.fieldItem.isSome && !monster.isImmune magicField.combatType
    if !hasBitSet FLAG_IGNOREFIELDDAMAGE flags && !monster.isImmune magicField.combatType
        && !monster.hasCondition magicField.combatType && !alreadyAffected then some .notPossible
    else none

/-- The checks for a player whose protection is locked. -/
def testPzLocked : Option EntryReturn :=
  match t.previousTile with
  | some previous =>
    if !previous.pvpZone && tile.pvpZone then some .playerIsPzLockedEnterPvpZone
    else if previous.pvpZone && !tile.pvpZone then some .playerIsPzLockedLeavePvpZone
    else if !previous.protectionZone && tile.protectionZone then some .playerIsPzLocked
    else if !previous.noPvpZone && tile.noPvpZone then some .playerIsPzLocked
    else none
  | none =>
    if tile.protectionZone then some .playerIsPzLocked
    else if tile.noPvpZone then some .playerIsPzLocked
    else none

/-- "First check whether the creature is allowed to be added in general." -/
def testGeneral : Option EntryReturn :=
  if 0 < tile.lockCount then some .locked
  else if t.creature.tile = some p then some .noError
  else if tile.ground.isNone then some .notPossible
  else if hasBitSet FLAG_NOLIMIT flags then none
  else if tile.fieldItem.any ObstacleField.isBlocking then some .notPossible
  else match t.creature.kind with
  | .monster monster => t.testMonster m p tile flags monster
  | .player isPzLocked => if isPzLocked then t.testPzLocked tile else none
  | .npc => none

/-! ## Room -/

/-- "Then check whether the tile is full or occupied." -/
def testRoom : EntryReturn :=
  if hasBitSet FLAG_IGNOREBLOCKITEM flags
      && (tile.ground.any ObstacleItem.isBlocking
        || tile.items.any fun item => item.isBlocking && !item.isMoveable) then .notPossible
  else if !hasBitSet FLAG_IGNOREBLOCKITEM flags && m p (.property .immovableBlockSolid) then
    .notPossible
  else if !hasBitSet FLAG_IGNOREBLOCKITEM flags && m p (.property .blockSolid) then .notEnoughRoom
  else if !hasBitSet FLAG_IGNOREBLOCKCREATURE flags
      && (match t.creature.kind with
        | .monster monster =>
          if monster.canPushCreatures && !monster.hasController then
            tile.creatures.any fun existing => !existing.canWalkthrough
              && (!existing.isMonster || !existing.isPushable || existing.hasController)
          else tile.creatures.any fun existing => !existing.canWalkthrough
        | _ => tile.creatures.any fun existing => !existing.canWalkthrough) then .notEnoughRoom
  else if maxIndex ≤ tile.thingCount then .notEnoughRoom
  else .noError

/-- `HouseTile::testAddCreature` has a look at what the test of a tile returns. -/
def testHouse (result : EntryReturn) : EntryReturn :=
  match tile.house with
  | none => result
  | some isInvited =>
    if result ≠ .noError then result
    else match t.creature.kind with
    | .player _ => if isInvited then .noError else .playerIsNotInvited
    | _ => .notPossible

/-! ## Forwarding -/

def setFlag (m : TileFlags) (p : Position) (f : TileFlag) : TileFlags :=
  fun q g => m q g || (q = p && g = f)

def isLocalForwarder : Bool := m p .floorChange
def isForwarder : Bool := isLocalForwarder m p || tile.teleporter.isSome

/-- How far a change of floor leads, on the x and the y axis. -/
def lateralOffset : Option FloorChange → ℤ × ℤ
  | some .north => (0, -1)
  | some .south => (0, 1)
  | some .east => (1, 0)
  | some .west => (-1, 0)
  | some .northEx => (0, -2)
  | some .southEx => (0, 2)
  | some .eastEx => (2, 0)
  | some .westEx => (-2, 0)
  | _ => (0, 0)

/-- Where the flags of a tile with a change of floor lead. -/
def floorDestination : Option Position :=
  let offsetZ : ℤ := if m p (.floorChangeTo .down) then 1 else -1
  let offset := lateralOffset (TileState.lateralChange (m p))
  Position.of (p.x + offset.1) (p.y + offset.2) (p.z + offsetZ)

/-- Sets the flag that the direction is resolved, and the direction that leads back from a
destination with a change of floor. -/
def resolveDirection (destination : Position) : TileFlags :=
  let m := setFlag m p .floorChangeResolved
  if (t.tile destination).isSome && isLocalForwarder m destination then
    match TileState.lateralChange (m destination) with
    | some change => setFlag m p (.floorChangeTo change.opposite)
    | none => m
  else m

/-- `Tile::getForwardingDestination` with the flags it leaves; the call it makes of itself finds the
direction resolved. -/
def getForwardingDestination : TileFlags × Option Position :=
  if isLocalForwarder m p then
    if (TileState.lateralChange (m p)).isSome || m p .floorChangeResolved then
      (m, floorDestination m p)
    else match floorDestination m p with
    | none => (m, none)
    | some destination =>
      let m := t.resolveDirection m p destination
      (m, floorDestination m p)
  else (m, tile.teleporter.join)

/-- `Tile::getForwardingDestinationTile`, by its position. -/
def getForwardingDestinationTile : TileFlags × Option Position :=
  if !isForwarder m p tile then (m, none)
  else match t.getForwardingDestination m p tile with
  | (m, none) => (m, none)
  | (m, some destination) =>
    -- "Forwarder at position ... leads to itself."
    if destination = p then (m, none)
    else if (t.tile destination).isNone then (m, none)
    else (m, some destination)

section Forward

variable (test : Position → BitVec 32 → Forwarding EntryReturn) (dice : Shuffles)

/-- The search of `Tile::getCreatureForwardingTile` around the destination. -/
def forwardingSearch (destination : Position) (moveFlags : BitVec 32) : ForwardingSearch where
  hasTile q := (t.tile q).isSome
  test q f := do
    let result ← test q f
    pure result.toPlacement
  position := destination
  radius := 10
  directFlags := moveFlags ||| FLAG_PATHFINDING
  indirectFlags := moveFlags ||| FLAG_IGNOREFIELDDAMAGE ||| FLAG_PATHFINDING

/-- `Tile::getCreatureForwardingTile`. -/
def getCreatureForwardingTile : Forwarding (Option Position) := do
  let m ← get
  let (m, destination) := t.getForwardingDestinationTile m p tile
  set m
  match destination with
  | none => pure none
  | some destination =>
    let moveFlags := t.creature.getMoveFlags
    let moveFlags :=
      if isLocalForwarder m p then moveFlags ||| FLAG_IGNOREBLOCKCREATURE else moveFlags
    let result ← (t.forwardingSearch test destination moveFlags).findTileForThingNearPosition dice
    match result with
    | .found tile _ => pure (some tile)
    | .failed _ => pure none

/-- The body of `Tile::testAddCreature`, with the test of other tiles as an argument. -/
def testTile : Forwarding EntryReturn := do
  let m ← get
  match t.testGeneral m p tile flags with
  | some result => pure result
  | none =>
    if isForwarder m p tile then
      if hasBitSet FLAG_PATHFINDING flags && !hasBitSet FLAG_NOLIMIT flags then pure .notPossible
      else
        let (m, destination) := t.getForwardingDestinationTile m p tile
        set m
        match destination with
        | none => pure .notPossible
        | some destination =>
          let result ← test destination flags
          if result ≠ .noError ∧ result ≠ .notEnoughRoom then pure result
          else
            let found ← t.getCreatureForwardingTile p tile test dice
            let m ← get
            match found with
            | none => pure .destinationOutOfReach
            | some _ => pure (t.testRoom m p tile flags)
    else pure (t.testRoom m p tile flags)

end Forward

/-- `Tile::testAddCreature`, for at most `n` tiles that forward to each other. -/
def testAddCreature : ℕ → Position → BitVec 32 → Forwarding EntryReturn
  | 0, _, _ => failure
  | n + 1, p, flags =>
    match t.tile p with
    -- only tiles are tested
    | none => pure .notPossible
    | some tile => do
      let result ← t.testTile p tile flags (testAddCreature n) (t.dice n)
      pure (t.testHouse tile result)

end EntryTest

end TyanoCore
