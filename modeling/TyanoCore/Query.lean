import TyanoCore.World

/-!
# Queries of the cylinders

`__getThing`, `__getIndexOfThing`, `__queryAdd`, `__queryMaxCount`, `__queryRemove` and
`__queryDestination` of containers, players and tiles.  None of them changes the world.
-/

namespace TyanoCore

/-- `100 - count` in 32 bits. -/
def roomOnStack (count : ℕ) : ℕ := (100 + 2 ^ 32 - count) % 2 ^ 32

/-- Where `__queryDestination` sends an item. -/
structure Destination where
  cylinder : Cylinder
  index : ℤ
  destItem : Option ItemId
  flags : CylinderFlags

variable (srv : Server) (w : World)

/-! ## Things and indexes -/

def Container.getThing (j : ItemId) (index : ℤ) : Option ItemId :=
  if index < 0 then none else (w.item j).itemlist[index.toNat]?

def Player.getThing (p : PlayerId) (index : ℤ) : Option ItemId :=
  if 0 < index ∧ index < 11 then (w.player p).inventory index.toNat else none

def Container.getIndexOfThing (j : ItemId) (item : ItemId) : ℤ :=
  match (w.item j).itemlist.idxOf? item with
  | some n => n
  | none => -1

def Player.getIndexOfThing (p : PlayerId) (item : ItemId) : ℤ :=
  match slots.find? fun s => (w.player p).inventory s = some item with
  | some s => s
  | none => -1

def Tile.getIndexOfThing (t : TileId) (item : ItemId) : ℤ :=
  let tile := w.tile t
  if tile.ground = some item then 0
  else match tile.topItems.idxOf? item with
  | some n => n + 1
  | none =>
    match tile.downItems.idxOf? item with
    | some n => tile.topItems.length + tile.creatures.length + n + 1
    | none => -1

def Cylinder.getIndexOfThing : Cylinder → ItemId → ℤ
  | .container j => Container.getIndexOfThing w j
  | .player p => Player.getIndexOfThing w p
  | .tile t => Tile.getIndexOfThing w t

/-! ## Adding: players -/

def Player.hasCapacity (p : PlayerId) (item : ItemId) (count : ℕ) : Bool :=
  !(w.player p).cannotPickupItem
    && ((w.player p).hasInfiniteCapacity
      || w.getTopParent srv.loopBound item = some (.player p)
      || (if (w.item item).isStackable then (w.item item).kind.weight * (count : ℤ)
          else w.getWeight item) < w.getFreeCapacity p)

/-- `Player::getInventoryItem` of the slot that an index is converted to. -/
def Player.getInventoryItem (p : PlayerId) (index : ℤ) : Option ItemId :=
  let slot := (index % 256).toNat
  if 0 < slot ∧ slot < 11 then (w.player p).inventory slot
  else if slot = slotHand then
    ((w.player p).inventory slotLeft).orElse fun _ => (w.player p).inventory slotRight
  else none

/-- The checks for an item that goes into one hand, given what the other hand holds. -/
def Player.queryHand (item : ItemId) (count : ℕ) (otherHand : Option ItemId) : ReturnValue :=
  let it := w.item item
  if it.hasSlot .twoHand then
    if otherHand ≠ none ∧ otherHand ≠ some item then .bothHandsNeedToBeFree else .noError
  else match otherHand with
  | none => .noError
  | some other =>
    let type := it.kind.weaponType
    let otherType := (w.item other).kind.weaponType
    if (w.item other).hasSlot .twoHand then .dropTwoHandedItem
    else if item = other ∧ count = it.count then .noError
    else if otherType = .shield ∧ type = .shield then .canOnlyUseOneShield
    else if !(w.item other).isWeapon || !it.isWeapon || otherType = .shield || otherType = .ammo
        || type = .shield || type = .ammo then .noError
    else .canOnlyUseOneWeapon

/-- Where an item would have to go instead. -/
def Player.queryDressed (item : ItemId) : ReturnValue :=
  let it := w.item item
  if it.hasSlot .head || it.hasSlot .necklace || it.hasSlot .backpack || it.hasSlot .armor
      || it.hasSlot .legs || it.hasSlot .feet || it.hasSlot .ring then .cannotBeDressed
  else if it.hasSlot .twoHand then .putThisObjectInBothHands
  else if it.hasSlot .right || it.hasSlot .left then .putThisObjectInYourHand
  else .noError

/-- The `switch` of `Player::__queryAdd` over the slots. -/
def Player.querySlot (p : PlayerId) (index : ℤ) (item : ItemId) (count : ℕ) : ReturnValue :=
  let it := w.item item
  let otherwise := Player.queryDressed w item
  let accept (slot : SlotPosition) : ReturnValue :=
    if it.hasSlot slot then .noError else otherwise
  match index with
  | 1 => accept .head
  | 2 => accept .necklace
  | 3 => accept .backpack
  | 4 => accept .armor
  | 5 =>
    if it.hasSlot .right then Player.queryHand w item count ((w.player p).inventory slotLeft)
    else otherwise
  | 6 =>
    if it.hasSlot .left then Player.queryHand w item count ((w.player p).inventory slotRight)
    else otherwise
  | 7 => accept .legs
  | 8 => accept .feet
  | 9 => accept .ring
  | 10 => accept .ammo
  | 0 => .notEnoughRoom
  | -1 => .notEnoughRoom
  | _ => .notPossible

/-- Whether the item in a slot has to make way for another item. -/
def Player.needsExchange (p : PlayerId) (index : ℤ) (item : ItemId) : Bool :=
  match Player.getInventoryItem w p index with
  | none => false
  | some other =>
    !(w.item other).isStackable || (w.item other).kind.id ≠ (w.item item).kind.id

def Player.queryAdd (p : PlayerId) (index : ℤ) (item : ItemId) (count : ℕ)
    (flags : CylinderFlags) : ReturnValue :=
  if flags.childIsOwner then
    if flags.noLimit || Player.hasCapacity srv w p item count then .noError
    else .notEnoughCapacity
  else if !(w.item item).kind.pickupable then .cannotPickup
  else
    let ret := Player.querySlot w p index item count
    if ret = .noError ∨ ret = .notEnoughRoom then
      if Player.needsExchange w p index item then .needExchange
      else if !srv.onPlayerEquip w.abilities p item index then .cannotBeDressed
      else if !Player.hasCapacity srv w p item count then .notEnoughCapacity
      else ret
    else ret

/-! ## Adding: tiles -/

def Tile.hasRoomForThing (t : TileId) : Bool :=
  let tile := w.tile t
  tile.thingCount < 9 && (!tile.creatures.isEmpty || tile.thingCount + 1 < 9)

/-- Whether an item on the tile blocks another item. -/
def Tile.blocks (item iItem : ItemId) : Bool :=
  let kind := (w.item iItem).kind
  !((w.item item).kind.isHangable && (kind.isHorizontal || kind.isVertical)) && kind.blockSolid
    && (!(w.item item).kind.pickupable
      || (!kind.allowPickupable && (!kind.hasHeight || kind.pickupable || kind.isBed)))

/-- Whether a tile both holds something that hangs and something to hang it on. -/
def Tile.hangs (items : List ItemId) : Bool :=
  items.any (fun i => (w.item i).kind.isHangable)
    && items.any (fun i => (w.item i).kind.isHorizontal || (w.item i).kind.isVertical)

def Tile.queryAdd (t : TileId) (item : ItemId) (flags : CylinderFlags) : ReturnValue :=
  let tile := w.tile t
  let kind := (w.item item).kind
  if srv.isForwarder t then
    if srv.getAvailableItemForwardingTile w t item = none then .destinationOutOfReach else .noError
  else if !Tile.hasRoomForThing w t then .tileIsFull
  else if 0xFFFF ≤ tile.topItems.length + tile.downItems.length then .notPossible
  else if flags.noLimit then .noError
  else if tile.ground = none ∧ ¬ kind.isHangable then .notPossible
  else if tile.creatures ≠ [] ∧ ¬ flags.ignoreBlockCreature
      ∧ tile.creatures.any (fun ghost => !ghost && kind.blockSolid) then .notEnoughRoom
  else if tile.protectionZone ∧ srv.itemLimitProtectionZone ≠ 0
      ∧ srv.itemLimitProtectionZone < tile.thingCount then .tileIsFull
  else if !tile.hasItemList then .noError
  else if tile.items.any (Tile.blocks w item) then .notEnoughRoom
  else if kind.isHangable ∧ Tile.hangs w tile.items then .needExchange
  else .noError

/-! ## Adding: containers -/

def Container.full (j : ItemId) : Bool := (w.item j).maxSize ≤ (w.item j).itemlist.length

def Container.queryAdd (j : ItemId) (index : ℤ) (item : ItemId) (count : ℕ)
    (flags : CylinderFlags) : ReturnValue :=
  if flags.childIsOwner then .noError
  else if !(w.item item).kind.pickupable then .cannotPickup
  else if item = j then .thisIsImpossible
  else if (w.item item).isContainer && w.isInside item srv.loopBound (w.item j).parent then
    .thisIsImpossible
  else if index = -1 ∧ ¬ flags.noLimit ∧ Container.full w j then .containerNotEnoughRoom
  else
    let flags := { flags with childIsOwner := true }
    match w.getTopParent srv.loopBound j with
    | some (.player p) => Player.queryAdd srv w p (-1) item count flags
    | some (.tile t) => Tile.queryAdd srv w t item flags
    -- a container that is carried by nobody has no objection as a parent
    | some (.container _) => .noError
    | none => .noError

def Cylinder.queryAdd (c : Cylinder) (index : ℤ) (item : ItemId) (count : ℕ)
    (flags : CylinderFlags) : ReturnValue :=
  match c with
  | .container j => Container.queryAdd srv w j index item count flags
  | .player p => Player.queryAdd srv w p index item count flags
  | .tile t => Tile.queryAdd srv w t item flags

/-! ## How much, and removing -/

/-- The maximum, and the return value. -/
def Container.queryMaxCount (j : ItemId) (index : ℤ) (item : ItemId) (count : ℕ)
    (flags : CylinderFlags) : ℕ × ReturnValue :=
  if flags.noLimit then (max 1 count, .noError)
  else
    let freeSlots := (w.item j).maxSize - (w.item j).itemlist.length
    if (w.item item).isStackable then
      let n :=
        if index = -1 then 0
        else match Container.getThing w j index with
        | none => 0
        | some dest =>
          if (w.item dest).kind.id = (w.item item).kind.id then roomOnStack (w.item dest).count
          else 0
      let maxQueryCount := (freeSlots * 100 + n) % 2 ^ 32
      (maxQueryCount, if maxQueryCount < count then .containerNotEnoughRoom else .noError)
    else (freeSlots, if freeSlots = 0 then .containerNotEnoughRoom else .noError)

def Player.queryMaxCount (p : PlayerId) (index : ℤ) (item : ItemId) (count : ℕ) :
    ℕ × ReturnValue :=
  match Player.getThing w p index with
  | none => (if (w.item item).isStackable then 100 else 1, .noError)
  | some dest =>
    let maxQueryCount :=
      if (w.item dest).isStackable ∧ (w.item item).kind.id = (w.item dest).kind.id then
        roomOnStack (w.item dest).count
      else 0
    (maxQueryCount, if maxQueryCount < count then .notEnoughRoom else .noError)

def Tile.queryMaxCount (count : ℕ) : ℕ × ReturnValue := (max 1 count, .noError)

def Cylinder.queryMaxCount (c : Cylinder) (index : ℤ) (item : ItemId) (count : ℕ)
    (flags : CylinderFlags) : ℕ × ReturnValue :=
  match c with
  | .container j => Container.queryMaxCount w j index item count flags
  | .player p => Player.queryMaxCount w p index item count
  | .tile _ => Tile.queryMaxCount count

/-- `__queryRemove`: the three cylinders differ only in what they answer about an item that may
not be moved. -/
def Cylinder.queryRemove (c : Cylinder) (item : ItemId) (count : ℕ) (flags : CylinderFlags) :
    ReturnValue :=
  let it := w.item item
  if Cylinder.getIndexOfThing w c item = -1 then .notPossible
  else if count = 0 ∨ (it.isStackable ∧ it.count < count) then .notPossible
  else if it.isNotMoveable ∧ ¬ flags.ignoreNotMoveable then
    match c with
    | .tile _ => .notPossible
    | _ => .notMoveable
  else .noError

/-! ## Destinations -/

/-- A cylinder that is itself the thing at the index takes the item in. -/
def Destination.orSubCylinder (d : Destination) (thing : Option ItemId) : Destination :=
  match thing with
  | none => d
  | some i =>
    if (w.item i).isContainer then { d with cylinder := .container i, index := -1, destItem := none }
    else { d with destItem := some i }

def Container.queryDestination (j : ItemId) (d : Destination) : Destination :=
  if d.index = 254 then
    let cylinder :=
      match (w.item j).parent with
      | some (.container k) => .container k
      | _ => .container j
    { d with cylinder := cylinder, index := -1, destItem := none }
  else if d.index = 255 then { d with cylinder := .container j, index := -1, destItem := none }
  else
    let index := if ((w.item j).maxSize : ℤ) ≤ d.index then -1 else d.index
    let d := { d with cylinder := .container j, index := index }
    if index = -1 then d else d.orSubCylinder w (Container.getThing w j index)

/-- The containers directly in a list of items, the item offered in a trade left out. -/
def Player.openContainers (p : PlayerId) (items : List ItemId) : List ItemId :=
  items.filter fun i => some i ≠ (w.player p).tradeItem && (w.item i).isContainer

/-- "check deeper in the containers": the first nested container that takes the item. -/
def Player.deepSearch (p : PlayerId) (accepts : ItemId → Bool) :
    ℕ → List (ItemId × ℤ) → Option ItemId
  | 0, _ => none
  | _, [] => none
  | n + 1, (c, level) :: deepList =>
    let subContainers := Player.openContainers w p (w.item c).itemlist
    match subContainers.find? accepts with
    | some sub => some sub
    | none =>
      let deeper :=
        if srv.playerDeepness < 0 ∨ level < srv.playerDeepness then
          subContainers.map fun sub => (sub, level + 1)
        else []
      Player.deepSearch p accepts n (deepList ++ deeper)

def Player.findSlot (p : PlayerId) (item : ItemId) : Option ℕ :=
  slots.find? fun s => (w.player p).inventory s = none
    ∧ Player.queryAdd srv w p s item (w.item item).count {} = .noError

def Player.findContainer (p : PlayerId) (item : ItemId) : Option ItemId :=
  let accepts (c : ItemId) : Bool :=
    Container.queryAdd srv w c (-1) item (w.item item).count {} = .noError
  let containers := Player.openContainers w p (w.things (.player p))
  match containers.find? accepts with
  | some c => some c
  | none => Player.deepSearch srv w p accepts srv.loopBound (containers.map fun c => (c, 0))

def Player.queryDestination (p : PlayerId) (item : ItemId) (d : Destination) : Destination :=
  let this : Destination := { d with cylinder := .player p }
  if d.index = 0 ∨ d.index = -1 then
    match Player.findSlot srv w p item with
    | some s => { this with index := s, destItem := none }
    | none =>
      match Player.findContainer srv w p item with
      | some c => { this with cylinder := .container c, index := -1, destItem := none }
      | none => { this with destItem := none }
  else this.orSubCylinder w (Player.getThing w p d.index)

def Tile.queryDestination (t : TileId) (d : Destination) : Destination :=
  let destTile := (srv.floorChangeTile t).getD t
  { d with
    cylinder := .tile destTile
    destItem := (w.tile destTile).downItems.head?
    flags := if (srv.floorChangeTile t).isSome then { d.flags with noLimit := true } else d.flags }

def Cylinder.queryDestination (item : ItemId) (d : Destination) : Destination :=
  match d.cylinder with
  | .container j => Container.queryDestination w j d
  | .player p => Player.queryDestination srv w p item d
  | .tile t => Tile.queryDestination srv w t d

end TyanoCore
