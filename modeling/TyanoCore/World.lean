import Mathlib.Tactic.SplitIfs
import Mathlib.Data.Int.Notation
import TyanoCore.Basic

/-!
# Items, players and tiles

The world of the server as far as moving items is concerned: kinds of items, items and their
parents, container lists, inventories and tiles.  Pointers are numbers; weights are counted in
hundredths of an ounce, as in the files the server reads.
-/

namespace TyanoCore

abbrev TileId := ℕ
abbrev KindId := ℕ

inductive ReturnValue where
  | noError
  | notPossible
  | notEnoughRoom
  | destinationOutOfReach
  | notMoveable
  | dropTwoHandedItem
  | bothHandsNeedToBeFree
  | canOnlyUseOneWeapon
  | needExchange
  | cannotBeDressed
  | putThisObjectInYourHand
  | putThisObjectInBothHands
  | containerNotEnoughRoom
  | notEnoughCapacity
  | cannotPickup
  | thisIsImpossible
  | canOnlyUseOneShield
  | tileIsFull
deriving DecidableEq

/-- The `FLAG_` bits that the modelled queries look at. -/
structure CylinderFlags where
  noLimit : Bool := false
  ignoreBlockCreature : Bool := false
  childIsOwner : Bool := false
  ignoreNotMoveable : Bool := false

inductive ItemGroup where
  | none
  | ground
  | container
  | splash
  | fluid
  | deprecated
deriving DecidableEq

inductive ItemType where
  | generic
  | depot
  | mailbox
  | trashHolder
  | container
  | door
  | magicField
  | teleporter
  | bed
  | key
deriving DecidableEq

inductive WeaponType where
  | none
  | sword
  | club
  | axe
  | shield
  | dist
  | wand
  | ammo
  | fist
deriving DecidableEq

/-- `SLOTP_` bits, by the number of the bit. -/
inductive SlotPosition where
  | head
  | necklace
  | backpack
  | armor
  | right
  | left
  | legs
  | feet
  | ring
  | ammo
  | depot
  | twoHand
deriving DecidableEq

/-- What the items of one kind have in common; the defaults are those of the constructor. -/
structure ItemKind where
  id : KindId
  group : ItemGroup := .none
  type : ItemType := .generic
  stackable : Bool := false
  charges : ℕ := 0
  moveable : Bool := true
  pickupable : Bool := false
  replaceable : Bool := true
  isHangable : Bool := false
  isHorizontal : Bool := false
  isVertical : Bool := false
  blockSolid : Bool := false
  allowPickupable : Bool := false
  hasHeight : Bool := false
  alwaysOnTop : Bool := false
  alwaysOnTopOrder : ℤ := 0
  slotPosition : List SlotPosition := [.left, .right, .ammo]
  weaponType : WeaponType := .none
  weight : ℤ := 0
  maxItems : ℕ := 8
  worth : ℕ := 0
deriving DecidableEq

namespace ItemKind

variable (k : ItemKind)

def isGroundTile : Bool := k.group = .ground
def isSplash : Bool := k.group = .splash
def isFluidContainer : Bool := k.group = .fluid
def isMagicField : Bool := k.type = .magicField
def isBed : Bool := k.type = .bed

/-- The classes `Item::CreateItem` gives to the items of a kind. -/
def isOrdinary : Bool :=
  k.type ∉ [ItemType.depot, .teleporter, .magicField, .door, .trashHolder, .mailbox, .bed]
    && k.group ≠ .container

end ItemKind

/-- The ids that `Item::CreateItem` replaces by others. -/
def createdKindId (kindId : KindId) : KindId :=
  if kindId ∈ [2210, 2211, 2212] then kindId - 3
  else if kindId ∈ [2215, 2216] then kindId - 2
  else if kindId ∈ [2202, 2203, 2204, 2205, 2206] then kindId - 37
  else if kindId = 2640 then 6132
  else if kindId = 6301 then 6300
  else kindId

def itemParcel : KindId := 2595
def itemLetter : KindId := 2597
def itemWaterballSplash : KindId := 7711
def itemWaterball : KindId := 7956

/-- A kind whose items have no sub-type but their count, are of class `Item`, and keep their
kind when they are created or put on a tile. -/
def ItemKind.isPlain (k : ItemKind) : Bool :=
  k.isOrdinary && k.group ∉ [.splash, .fluid, .ground, .deprecated] && k.charges = 0
    && createdKindId k.id = k.id && k.id ≠ 0 && k.id ≠ itemWaterballSplash

/-- The kinds of the server, each under its id. -/
structure Items where
  kind : KindId → Option ItemKind
  /-- The worth table, in the order of the map: what a coin is worth and its kind. -/
  worth : List (ℕ × KindId)
  kind_id : ∀ {id k}, kind id = some k → k.id = id

/-- What can hold items. -/
inductive Cylinder where
  | container (item : ItemId)
  | player (player : PlayerId)
  | tile (tile : TileId)
deriving DecidableEq

/-- An item; `itemlist` and `maxSize` are those of a container, a bed belongs to a `house` or not. -/
structure Item where
  kind : ItemKind
  count : ℕ := 1
  charges : ℕ := 0
  fluidType : ℕ := 0
  parent : Option Cylinder := none
  isContainer : Bool := false
  maxSize : ℕ := 0
  itemlist : List ItemId := []
  house : Bool := false

namespace Item

variable (item : Item)

def isStackable : Bool := item.kind.stackable
def isNotMoveable : Bool := !item.kind.moveable
def isWeapon : Bool := item.kind.weaponType ≠ .none
def hasSlot (slot : SlotPosition) : Bool := slot ∈ item.kind.slotPosition
def getWorth : ℕ := item.count * item.kind.worth
def canRemove : Bool := item.kind.type ≠ .depot && (!item.kind.isBed || item.house)

def setSubType (n : ℕ) : Item :=
  let n := n % 2 ^ 16
  if item.kind.isFluidContainer || item.kind.isSplash then { item with fluidType := n }
  else if item.kind.charges ≠ 0 then { item with charges := n }
  else { item with count := n % 256 }

end Item

structure Player where
  inventory : ℕ → Option ItemId := fun _ => none
  capacity : ℤ := 40000
  cannotPickupItem : Bool := false
  hasInfiniteCapacity : Bool := false
  isRemoved : Bool := false
  tile : Option TileId := none
  tradeItem : Option ItemId := none

/-- The slots from `FIRST` up to, but without, `LAST`. -/
def slots : List ℕ := [1, 2, 3, 4, 5, 6, 7, 8, 9, 10]

def slotRight : ℕ := 5
def slotLeft : ℕ := 6
def slotHand : ℕ := 12

structure Tile where
  ground : Option ItemId := none
  topItems : List ItemId := []
  downItems : List ItemId := []
  /-- Whether the vector for the items other than the ground has been allocated. -/
  hasItemList : Bool := false
  /-- For each creature on the tile, whether it is a ghost. -/
  creatures : List Bool := []
  protectionZone : Bool := false

def Tile.items (t : Tile) : List ItemId := t.ground.toList ++ t.topItems ++ t.downItems
def Tile.thingCount (t : Tile) : ℕ := t.items.length + t.creatures.length

/-- For each player and slot, whether the abilities of the item in the slot are enabled. -/
abbrev Abilities := PlayerId → ℤ → Bool

structure World where
  item : ItemId → Item
  player : PlayerId → Player
  tile : TileId → Tile
  /-- The weight of a container's contents, as the container remembers it. -/
  totalWeight : ItemId → ℤ
  inventoryWeight : PlayerId → ℤ
  abilities : Abilities
  /-- The number the next created item gets. -/
  next : ItemId

/-- What the cylinders look up elsewhere: the items, the configuration, the movement events and
the map. -/
structure Server where
  items : Items
  playerDeepness : ℤ := 1
  itemLimitProtectionZone : ℕ := 0
  onPlayerEquip : Abilities → PlayerId → ItemId → ℤ → Bool := fun _ _ _ _ => true
  equipped : Abilities → PlayerId → ItemId → ℤ → Abilities := fun a _ _ _ => a
  deEquipped : Abilities → PlayerId → ItemId → ℤ → Bool → Abilities := fun a _ _ _ _ => a
  /-- What else a handler does: it may transform the item or run a script. -/
  transformEquipped : World → PlayerId → ItemId → ℤ → World := fun w _ _ _ => w
  transformDeEquipped : World → PlayerId → ItemId → ℤ → Bool → World := fun w _ _ _ _ => w
  isForwarder : TileId → Bool := fun _ => false
  getAvailableItemForwardingTile : World → TileId → ItemId → Option TileId := fun _ _ _ => none
  /-- The tile that things dropped on a tile with a floor change fall to. -/
  floorChangeTile : TileId → Option TileId := fun _ => none
  /-- The flags `TILESTATE_TRASHHOLDER` and `TILESTATE_MAILBOX` of a tile. -/
  trashHolderFlag : World → TileId → Bool := fun _ _ => false
  mailboxFlag : World → TileId → Bool := fun _ _ => false
  isSwimmingPool : World → TileId → Bool := fun _ _ => false
  transformItem : World → ItemId → KindId → World := fun w _ _ => w
  /-- `Mailbox::sendItem`: who is written on the item may get it in a depot. -/
  sendItem : World → ItemId → World := fun w _ => w
  /-- How many steps the loops over parents and over nested containers are followed. -/
  loopBound : ℕ

/-- The movement events decide about slots and abilities only. -/
structure Server.Quiet (srv : Server) : Prop where
  equip : ∀ w p i slot, srv.transformEquipped w p i slot = w
  deEquip : ∀ w p i slot isRemoval, srv.transformDeEquipped w p i slot isRemoval = w

/-- Besides, stackable kinds are plain, as in the items the server ships. -/
structure Server.Ordinary (srv : Server) : Prop extends Server.Quiet srv where
  plainStacks : ∀ {id k}, srv.items.kind id = some k → k.stackable = true → k.isPlain = true

namespace World

variable (w : World)

def setItem (i : ItemId) (item : Item) : World :=
  { w with item := fun j => if j = i then item else w.item j }

def setPlayer (p : PlayerId) (player : Player) : World :=
  { w with player := fun q => if q = p then player else w.player q }

def setTile (t : TileId) (tile : Tile) : World :=
  { w with tile := fun u => if u = t then tile else w.tile u }

def setParent (i : ItemId) (parent : Option Cylinder) : World :=
  w.setItem i { w.item i with parent := parent }

def setItemList (j : ItemId) (itemlist : List ItemId) : World :=
  w.setItem j { w.item j with itemlist := itemlist }

def setInventory (p : PlayerId) (slot : ℕ) (i : Option ItemId) : World :=
  w.setPlayer p { w.player p with
    inventory := fun s => if s = slot then i else (w.player p).inventory s }

section

variable {w}

/-! A link of a container is set in two places: the parent of the item and the list. -/

theorem parent_setItemList (i : ItemId) (parent : Option Cylinder) (j k : ItemId)
    (l : List ItemId) : (((w.setParent i parent).setItemList j l).item k).parent =
      if k = i then parent else (w.item k).parent := by
  simp only [setItemList, setParent, setItem]
  split_ifs <;> simp_all

theorem itemlist_setItemList (i : ItemId) (parent : Option Cylinder) (j k : ItemId)
    (l : List ItemId) : (((w.setParent i parent).setItemList j l).item k).itemlist =
      if k = j then l else (w.item k).itemlist := by
  simp only [setItemList, setParent, setItem]
  split_ifs <;> simp_all

theorem isContainer_setItemList (i : ItemId) (parent : Option Cylinder) (j k : ItemId)
    (l : List ItemId) : (((w.setParent i parent).setItemList j l).item k).isContainer =
      (w.item k).isContainer := by
  simp only [setItemList, setParent, setItem]
  split_ifs <;> simp_all

end

/-- The items a cylinder holds, in the order of their indexes. -/
def things : Cylinder → List ItemId
  | .container j => (w.item j).itemlist
  | .player p => slots.filterMap (w.player p).inventory
  | .tile t => (w.tile t).items

/-! ## Parents -/

def getParent : Cylinder → Option Cylinder
  | .container j => (w.item j).parent
  | .player p => (w.player p).tile.map .tile
  | .tile _ => none

/-- The loop of `Thing::getTopParent`. -/
def topParentLoop : ℕ → Option Cylinder → Cylinder → Cylinder
  | 0, prev, aux => prev.getD aux
  | n + 1, prev, aux =>
    match w.getParent aux with
    | none => prev.getD aux
    | some parent => topParentLoop n (some aux) parent

/-- `Thing::getTopParent`: the outermost cylinder below the tile; null for an item that is not a
cylinder and lies nowhere. -/
def getTopParent (bound : ℕ) (i : ItemId) : Option Cylinder :=
  let this : Option Cylinder := if (w.item i).isContainer then some (.container i) else none
  match (w.item i).parent with
  | none => this
  | some parent => some (w.topParentLoop bound this parent)

/-- The loop of `Container::__queryAdd` over the parents of the container. -/
def isInside (target : ItemId) : ℕ → Option Cylinder → Bool
  | 0, _ => false
  | _ + 1, none => false
  | n + 1, some cylinder =>
    cylinder = .container target || isInside target n (w.getParent cylinder)

/-- `isRemoved` of a thing with the given parent. -/
def isRemovedFrom : ℕ → Option Cylinder → Bool
  | _, none => true
  | _, some (.player p) => (w.player p).isRemoved
  | _, some (.tile _) => false
  | 0, some (.container _) => false
  | n + 1, some (.container j) => isRemovedFrom n (w.item j).parent

def getTile (bound : ℕ) : Cylinder → Option TileId
  | .tile t => some t
  | .player p => (w.player p).tile
  | .container j =>
    match w.getTopParent bound j with
    | none => none
    | some top =>
      match (w.getParent top).getD top with
      | .tile t => some t
      | _ => none

/-! ## Weights -/

def getWeight (i : ItemId) : ℤ :=
  (if (w.item i).isStackable then (w.item i).kind.weight * max 1 ((w.item i).count : ℤ)
    else (w.item i).kind.weight)
    + if (w.item i).isContainer then w.totalWeight i else 0

def getParentContainer (j : ItemId) : Option ItemId :=
  match (w.item j).parent with
  | some (.container k) => some k
  | _ => none

def updateItemWeight : ℕ → World → ItemId → ℤ → World
  | 0, w, _, _ => w
  | n + 1, w, j, diff =>
    let w' := { w with totalWeight := fun k => if k = j then w.totalWeight j + diff
                                               else w.totalWeight k }
    match w.getParentContainer j with
    | none => w'
    | some parent => updateItemWeight n w' parent diff

def updateInventoryWeight (p : PlayerId) : World :=
  { w with inventoryWeight := fun q =>
      if q ≠ p then w.inventoryWeight q
      else if (w.player p).hasInfiniteCapacity then 0
      else ((w.things (.player p)).map w.getWeight).sum }

def getFreeCapacity (p : PlayerId) : ℤ :=
  if (w.player p).cannotPickupItem then 0
  else if (w.player p).hasInfiniteCapacity then 1000000
  else max 0 ((w.player p).capacity - w.inventoryWeight p)

end World

end TyanoCore
