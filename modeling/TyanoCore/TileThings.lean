import TyanoCore.World

/-!
# What lies on a tile

One tile as the server keeps it: the ground, a single vector for all other items, in which those
that are not always on top come first, the number of these, the number of all things, and flags
about what lies there.  Nothing here looks beyond the tile; where an item leads elsewhere, only that
it does is known.
-/

namespace TyanoCore

/-! ## Items -/

inductive FloorChange where
  | down
  | north
  | east
  | south
  | west
  | northEx
  | eastEx
  | southEx
  | westEx
deriving DecidableEq

structure TileKind extends ItemKind where
  blockPathFind : Bool := false
  floorChange : List FloorChange := []

/-- The class an item was built as; it stays when the kind of the item changes. -/
inductive ItemClass where
  | item
  | container
  | depot
  | teleporter
  | magicField
  | mailbox
  | trashHolder
  | bed
deriving DecidableEq

/-- Where the parent pointer of an item leads; `here` is the tile. -/
inductive ItemParent where
  | nowhere
  | virtualCylinder
  | here
  | elsewhere
deriving DecidableEq

structure TileItem where
  kind : TileKind
  itemClass : ItemClass := .item
  count : ℕ := 1
  isLoadedFromMap : Bool := false
  hasUniqueId : Bool := false
  hasActionId : Bool := false
  parent : ItemParent := .nowhere

/-- The properties that a tile keeps flags about. -/
inductive ItemProperty where
  | blockSolid
  | immovableBlockSolid
  | blockPath
  | noFieldBlockPath
  | immovableBlockPath
  | immovableNoFieldBlockPath
deriving DecidableEq

namespace TileItem

variable (item : TileItem)

def isStackable : Bool := item.kind.stackable
def isAlwaysOnTop : Bool := item.kind.alwaysOnTop
def isGroundTile : Bool := item.kind.isGroundTile
def isReplaceable : Bool := item.kind.replaceable
def isContainer : Bool := item.itemClass = .container || item.itemClass = .depot
def isSplash : Bool := item.kind.isSplash
def isMagicField : Bool := item.kind.isMagicField

/-- The condition that the `IMMOVABLE` properties share. -/
def isImmovable : Bool :=
  !item.kind.moveable
    || (item.isLoadedFromMap && (item.hasUniqueId || (item.hasActionId && item.isContainer)))

def hasProperty : ItemProperty → Bool
  | .blockSolid => item.kind.blockSolid
  | .immovableBlockSolid => item.kind.blockSolid && item.isImmovable
  | .blockPath => item.kind.blockPathFind
  | .noFieldBlockPath => !item.isMagicField && item.kind.blockPathFind
  | .immovableBlockPath => item.kind.blockPathFind && item.isImmovable
  | .immovableNoFieldBlockPath =>
    !item.isMagicField && item.kind.blockPathFind && item.isImmovable

/-- `Item::floorChange` for one change. -/
def hasFloorChange (change : FloorChange) : Bool := item.kind.floorChange.contains change

/-- `Item::floorChange` for any change. -/
def floorChange : Bool := !item.kind.floorChange.isEmpty

/-- `Item::setSubType`; a count has eight bits. -/
def setSubType (n : ℕ) : TileItem :=
  if item.kind.isFluidContainer || item.kind.isSplash then item
  else if item.kind.charges ≠ 0 then item
  else { item with count := n % 256 }

/-- The item with another kind and sub-type. -/
def update (kind : TileKind) (n : ℕ) : TileItem :=
  { item with kind := kind }.setSubType n

end TileItem

/-- The flags of a tile that depend on the items there. -/
inductive TileFlag where
  | floorChange
  | floorChangeTo (change : FloorChange)
  | floorChangeResolved
  | teleporter
  | magicField
  | mailbox
  | trashHolder
  | bed
  | depot
  | property (property : ItemProperty)
deriving DecidableEq

/-- The item has what the flag stands for. -/
def TileItem.shows (item : TileItem) : TileFlag → Bool
  | .floorChange => item.floorChange
  | .floorChangeTo change => item.hasFloorChange change
  | .floorChangeResolved => false
  | .teleporter => item.itemClass = .teleporter
  | .magicField => item.itemClass = .magicField
  | .mailbox => item.itemClass = .mailbox
  | .trashHolder => item.itemClass = .trashHolder
  | .bed => item.itemClass = .bed
  | .depot => item.itemClass = .depot
  | .property p => item.hasProperty p

/-! ## The tile -/

/-- `StackPosition::MAX_INDEX`. -/
def maxIndex : ℕ := 9

structure TileState where
  item : ItemId → TileItem
  ground : Option ItemId := none
  /-- Items that are not always on top, then those that are. -/
  items : List ItemId := []
  downItemCount : ℕ := 0
  creatures : List ℕ := []
  thingCount : ℕ := 0
  flags : TileFlag → Bool := fun _ => false

namespace TileState

variable (s : TileState)

/-- The items from `getBeginDownItem` to `getEndDownItem`. -/
def downItems : List ItemId := s.items.take s.downItemCount

/-- The items from `getBeginTopItem` to `getEndTopItem`. -/
def topItems : List ItemId := s.items.drop s.downItemCount

/-- The ground and the items. -/
def things : List ItemId := s.ground.toList ++ s.items

def setItem (i : ItemId) (item : TileItem) : TileState :=
  { s with item := fun j => if j = i then item else s.item j }

def setParent (i : ItemId) (parent : ItemParent) : TileState :=
  s.setItem i { s.item i with parent := parent }

/-- `Tile::hasProperty` without one of the items. -/
def hasProperty (exclude : ItemId) (p : ItemProperty) : Bool :=
  s.things.any fun i => i ≠ exclude && (s.item i).hasProperty p

/-- `Tile::getTeleporter` finds one. -/
def isTeleporter : Bool :=
  s.flags .teleporter && s.things.any fun i => (s.item i).itemClass = .teleporter

def isLocalForwarder : Bool := s.flags .floorChange
def isForwarder : Bool := s.isLocalForwarder || s.isTeleporter

/-- `Tile::hasRoomForThing` for an item. -/
def hasRoomForItem : Bool :=
  if maxIndex ≤ s.thingCount then false
  else if !s.creatures.isEmpty then true
  else if maxIndex ≤ s.thingCount + 1 then false
  else true

end TileState

/-! ## Flags -/

/-- `Tile::updateTileFlags` for an item that comes: floor changes are looked at as long as there is
none, and `IMMOVABLEBLOCKPATH` is not in the list. -/
def raiseFlags (flags : TileFlag → Bool) (item : TileItem) : TileFlag → Bool
  | .floorChangeTo change =>
    flags (.floorChangeTo change) || (!flags .floorChange && item.hasFloorChange change)
  | .property .immovableBlockPath => flags (.property .immovableBlockPath)
  | f => flags f || item.shows f

/-- `Tile::updateTileFlags` for an item that goes: only the properties are looked for in the other
items. -/
def lowerFlags (flags : TileFlag → Bool) (item : TileItem) (others : ItemProperty → Bool) :
    TileFlag → Bool
  | .property p => flags (.property p) && !(item.hasProperty p && !others p)
  | f => flags f && !item.shows f

namespace TileState

variable (s : TileState)

def updateTileFlags (i : ItemId) (removed : Bool) : TileState :=
  { s with
    flags :=
      if removed then lowerFlags s.flags (s.item i) (s.hasProperty i)
      else raiseFlags s.flags (s.item i) }

/-! ## The vector -/

/-- Inserts an item before the `k`-th of the items on top. -/
def insertTop (k : ℕ) (i : ItemId) : TileState :=
  { s with
    items := s.downItems ++ s.topItems.insertIdx k i
    thingCount := s.thingCount + 1 }

def insertDown (i : ItemId) : TileState :=
  { s with
    items := i :: s.items
    downItemCount := s.downItemCount + 1
    thingCount := s.thingCount + 1 }

def eraseTop (i : ItemId) : TileState :=
  { s with
    items := s.downItems ++ s.topItems.erase i
    thingCount := s.thingCount - 1 }

def eraseDown (i : ItemId) : TileState :=
  { s with
    items := s.downItems.erase i ++ s.topItems
    downItemCount := s.downItemCount - 1
    thingCount := s.thingCount - 1 }

/-! ## Adding and removing -/

/-- `Tile::__internalAddThing`; an item goes after those on top of the same order. -/
def internalAddThing (i : ItemId) : TileState :=
  let item := s.item i
  if !s.hasRoomForItem then s
  else if 0xFFFF ≤ s.items.length then s
  else if item.isGroundTile then
    -- "return;": a second ground is not taken
    if s.ground.isSome then s
    else
      let s := { s with ground := some i, thingCount := s.thingCount + 1 }
      (s.setParent i .here).updateTileFlags i false
  else if item.isAlwaysOnTop then
    let k := s.topItems.findIdx fun top =>
      decide (item.kind.alwaysOnTopOrder < (s.item top).kind.alwaysOnTopOrder)
    ((s.insertTop k i).setParent i .here).updateTileFlags i false
  else ((s.insertDown i).setParent i .here).updateTileFlags i false

/-- What `Tile::__removeThing` leaves of a stack: a difference of 32 bits, at least zero, of which
eight bits are kept. -/
def newCount (itemCount count : ℕ) : ℕ :=
  (Int.bmod (itemCount - count) (2 ^ 32)).toNat % 256

/-- `Tile::__removeThing`. -/
def removeThing (i : ItemId) (count : ℕ) : TileState :=
  let item := s.item i
  if s.ground = some i then
    let s := (s.setParent i .nowhere)
    { s with ground := none, thingCount := s.thingCount - 1 }.updateTileFlags i true
  else if item.isAlwaysOnTop then
    if i ∈ s.topItems then ((s.setParent i .nowhere).eraseTop i).updateTileFlags i true
    else s
  else if i ∈ s.downItems then
    -- part of a stack: the flags are lowered and raised again
    if item.isStackable ∧ count ≠ item.count then
      let s := s.updateTileFlags i true
      (s.setItem i { item with count := newCount item.count count }).updateTileFlags i false
    else ((s.setParent i .nowhere).eraseDown i).updateTileFlags i true
  else s

/-- The splash or the magic field that an item takes the place of. -/
def oldItem (i : ItemId) : Option ItemId :=
  let item := s.item i
  if item.isAlwaysOnTop then
    if item.isSplash then s.topItems.find? fun j => (s.item j).isSplash else none
  else if item.isMagicField then
    s.downItems.find? fun j => (s.item j).itemClass = .magicField
  else none

/-- Removes the splash or magic field. -/
def removeOldItem (old : Option ItemId) : TileState :=
  match old with
  | none => s
  | some old => (s.removeThing old 1).setParent old .nowhere

def lateralChanges : List FloorChange :=
  [.north, .south, .east, .west, .northEx, .southEx, .eastEx, .westEx]

/-- The direction of a floor change, as `Tile::getForwardingDestination` looks for it. -/
def lateralChange (flags : TileFlag → Bool) : Option FloorChange :=
  lateralChanges.find? fun change => flags (.floorChangeTo change)

end TileState

def FloorChange.opposite : FloorChange → FloorChange
  | .down => .down
  | .north => .south
  | .south => .north
  | .east => .west
  | .west => .east
  | .northEx => .southEx
  | .southEx => .northEx
  | .eastEx => .westEx
  | .westEx => .eastEx

namespace TileState

variable (kinds : KindId → Option TileKind) (s : TileState)

def setFlag (f : TileFlag) : TileState :=
  { s with flags := fun g => g = f || s.flags g }

/-- The flags after `Tile::getForwardingDestination`: a tile with a floor change in no direction
asks the tile there, once.  A destination that is no position is `none`, one without a tile has no
flags. -/
def resolveForwarding (destination : Option (TileFlag → Bool)) : TileState :=
  if !s.isLocalForwarder || (lateralChange s.flags).isSome || s.flags .floorChangeResolved then s
  else match destination with
  | none => s
  | some flags =>
    let s := s.setFlag .floorChangeResolved
    match if flags .floorChange then lateralChange flags else none with
    | none => s
    | some change => s.setFlag (.floorChangeTo change.opposite)

/-- `Tile::__addThing`; `none` when the kind of a waterball is not known.  A forwarder sends the
item to another tile. -/
def addThing (i : ItemId) (destination : Option (TileFlag → Bool)) : Option TileState :=
  if s.isForwarder then some (s.resolveForwarding destination)
  else if !s.hasRoomForItem then some s
  else if 0xFFFF ≤ s.items.length then some s
  else
    let item := s.item i
    let old := s.oldItem i
    let s := s.setParent i .here
    if item.isGroundTile then
      match s.ground with
      | some oldGround =>
        -- the flags of the old ground go while the new one is there already
        let s := { s.setParent oldGround .nowhere with ground := some i }
        some ((s.updateTileFlags oldGround true).updateTileFlags i false)
      | none =>
        some ({ s with ground := some i, thingCount := s.thingCount + 1 }.updateTileFlags i false)
    else if item.isAlwaysOnTop then
      let s := s.removeOldItem old
      -- unlike above, before those on top of the same order
      let k := s.topItems.findIdx fun top =>
        decide (item.kind.alwaysOnTopOrder ≤ (s.item top).kind.alwaysOnTopOrder)
      some ((s.insertTop k i).updateTileFlags i false)
    else if old.any fun field => !(s.item field).isReplaceable then
      -- this magic field cannot be replaced
      some (s.setParent i .nowhere)
    else
      let s := s.removeOldItem old
      if item.kind.id = itemWaterballSplash ∧ s.flags .trashHolder = false then
        match kinds itemWaterball with
        | none => none
        | some waterball =>
          let s := s.setItem i { s.item i with kind := waterball }
          some ((s.insertDown i).updateTileFlags i false)
      else some ((s.insertDown i).updateTileFlags i false)

/-- `Tile::__updateThing`. -/
def updateThing (i : ItemId) (kindId : KindId) (count : ℕ) : TileState :=
  if i ∉ s.things then s
  else match kinds kindId with
  | none => s
  | some newKind =>
    let s := s.updateTileFlags i true
    (s.setItem i ((s.item i).update newKind count)).updateTileFlags i false

/-- The second half of `Tile::__replaceThing`. -/
def replaced (oldItem i : ItemId) : TileState :=
  let s := ((s.setParent i .here).updateTileFlags oldItem true).updateTileFlags i false
  s.setParent oldItem .nowhere

/-- `Tile::__replaceThing` behind the ground: the items on top, the creatures, and the other
items. -/
def replaceItem (pos : ℕ) (i : ItemId) : TileState :=
  match s.topItems[pos]? with
  | some oldItem => { s with items := s.downItems ++ s.topItems.set pos i }.replaced oldItem i
  | none =>
    let pos := pos - s.topItems.length
    if pos < s.creatures.length then s
    else
      let pos := pos - s.creatures.length
      match s.downItems[pos]? with
      | some oldItem => { s with items := s.downItems.set pos i ++ s.topItems }.replaced oldItem i
      | none => s

/-- `Tile::__replaceThing`. -/
def replaceThing (index : ℕ) (i : ItemId) : TileState :=
  match s.ground, index with
  | some oldGround, 0 => { s with ground := some i }.replaced oldGround i
  | some _, pos + 1 => s.replaceItem pos i
  | none, pos => s.replaceItem pos i

/-- `Tile::addCreature` on a tile that forwards nothing; the checks other than for room are the
argument. -/
def addCreature (creature : ℕ) (admitted : Bool) : TileState :=
  if creature ∈ s.creatures then s
  else if s.ground = none ∨ !admitted ∨ maxIndex ≤ s.thingCount then s
  else { s with creatures := s.creatures ++ [creature], thingCount := s.thingCount + 1 }

/-- `Tile::removeCreature`, and the departure in `Tile::addCreature` of another tile. -/
def removeCreature (creature : ℕ) : TileState :=
  if creature ∉ s.creatures then s
  else { s with creatures := s.creatures.erase creature, thingCount := s.thingCount - 1 }

end TileState

end TyanoCore
