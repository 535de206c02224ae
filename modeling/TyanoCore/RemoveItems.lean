import TyanoCore.ContainerIteration

/-!
# Removing items of a kind

`Game::removeItemOfType` first counts what there is and then goes through the cylinder and through
the containers in it.  It counts with the sub-type of every item, and removes stacks of any; the
second of its two loops does not get past an item of another sub-type.
-/

namespace TyanoCore

variable (srv : Server) (w : World)

/-! ## Things -/

/-- `Tile::__getThing`, where a creature is not an item. -/
def Tile.getThing (t : TileId) (index : ℕ) : Option ItemId :=
  let tile := w.tile t
  match tile.ground, index with
  | some ground, 0 => some ground
  | ground, index =>
    let index := if ground.isSome then index - 1 else index
    if index < tile.topItems.length then tile.topItems[index]?
    else
      let index := index - tile.topItems.length
      if index < tile.creatures.length then none
      else tile.downItems[index - tile.creatures.length]?

def Cylinder.getThing (c : Cylinder) (index : ℕ) : Option ItemId :=
  match c with
  | .container j => Container.getThing w j index
  | .player p => Player.getThing w p index
  | .tile t => Tile.getThing w t index

def Cylinder.getFirstIndex : Cylinder → ℕ
  | .player _ => 1
  | _ => 0

def Cylinder.getLastIndex : Cylinder → ℕ
  | .container j => (w.item j).itemlist.length
  | .player _ => 11
  | .tile t => (w.tile t).thingCount

def Cylinder.isPlayer : Cylinder → Bool
  | .player _ => true
  | _ => false

/-! ## Counting -/

/-- `Item::getSubType`. -/
def Item.subType (item : Item) : ℕ :=
  if item.kind.isFluidContainer || item.kind.isSplash then item.fluidType
  else if item.kind.charges ≠ 0 then item.charges
  else item.count

/-- The kind and the sub-type are the ones that are asked for; -1 stands for any sub-type. -/
def Item.isOf (item : Item) (itemId : KindId) (subType : ℤ) : Bool :=
  item.kind.id = itemId && (subType = -1 || subType = item.subType)

/-- `Item::countByType` of an item of the kind. -/
def Item.countByType (item : Item) (itemId : KindId) (subType : ℤ) : ℕ :=
  if item.isOf itemId subType then item.count else 0

/-- The counts are `uint32_t`s. -/
def Container.getItemTypeCount (j : ItemId) (itemId : KindId) (subType : ℤ) : ℕ :=
  ((w.item j).itemlist.map fun i => (w.item i).countByType itemId subType).sum % 2 ^ 32

def Tile.getItemTypeCount (t : TileId) (itemId : KindId) (subType : ℤ) : ℕ :=
  (((List.range (w.tile t).thingCount).filterMap (Tile.getThing w t)).map fun i =>
    (w.item i).countByType itemId subType).sum % 2 ^ 32

/-- What a slot adds to the count: its item, when slots are included, and all that lies in it. -/
def Player.countSlot (n : ℕ) (p : PlayerId) (itemId : KindId) (subType : ℤ) (includeSlots : Bool)
    (count slot : ℕ) : Option ℕ :=
  match (w.player p).inventory slot with
  | none => some count
  | some item =>
    let count :=
      if includeSlots then count + (w.item item).countByType itemId subType else count
    if (w.item item).isContainer then
      ContainerIterator.loop w n item
        (fun count i => .inl (count + (w.item i).countByType itemId subType)) id count
    else some count

/-- `Player::__getItemTypeCount`. -/
def Player.getItemTypeCount (n : ℕ) (p : PlayerId) (itemId : KindId) (subType : ℤ)
    (includeSlots : Bool) : Option ℕ :=
  (slots.foldlM (Player.countSlot w n p itemId subType includeSlots) 0).map (· % 2 ^ 32)

def Cylinder.getItemTypeCount (n : ℕ) (c : Cylinder) (itemId : KindId) (subType : ℤ)
    (includeSlots : Bool) : Option ℕ :=
  match c with
  | .container j => some (Container.getItemTypeCount w j itemId subType)
  | .player p => Player.getItemTypeCount w n p itemId subType includeSlots
  | .tile t => some (Tile.getItemTypeCount w t itemId subType)

/-! ## Removing -/

/-- The variables of the loops; the first one goes through the cylinder, the second one through a
container of the list at a time. -/
structure RemoveScan where
  world : World
  container : Option ItemId := none
  i : ℕ
  count : ℤ
  listContainer : List ItemId := []

/-- What is removed, and by whom it is asked for. -/
structure RemoveRequest where
  cylinder : Cylinder
  itemId : KindId
  subType : ℤ
  includeSlots : Bool

namespace RemoveRequest

variable (r : RemoveRequest)

/-- An item of the kind, unless it is in a slot of a player whose slots are not included. -/
def asks (nested : Bool) (item : Item) : Bool :=
  item.kind.id = r.itemId && (nested || r.includeSlots || !r.cylinder.isPlayer)

/-- The sub-type of the item is the one that is asked for. -/
def hasSubType (item : Item) : Bool := r.subType = -1 || r.subType = item.subType

/-- An item that is asked for is removed, as far as it is needed, in both loops.  One of another
sub-type is passed over in the first loop only. -/
def take (s : RemoveScan) (item : ItemId) : RemoveScan :=
  let it := s.world.item item
  if it.isStackable then
    -- whether anything is removed is not asked; the count falls all the same
    if s.count < it.count then
      { s with
        world := (Game.internalRemoveItem srv s.world item (some s.count.toNat) false {}).1
        count := 0 }
    else
      { s with
        world := (Game.internalRemoveItem srv s.world item none false {}).1
        count := s.count - it.count }
  else if r.hasSubType it then
    { s with
      world := (Game.internalRemoveItem srv s.world item none false {}).1
      count := s.count - 1 }
  else if s.container = none then { s with i := s.i + 1 }
  else s

/-- An item that is not asked for is passed over; a container is looked into later. -/
def pass (s : RemoveScan) (item : ItemId) : RemoveScan :=
  { s with
    i := s.i + 1
    listContainer :=
      if (s.world.item item).isContainer then s.listContainer ++ [item] else s.listContainer }

/-- The cylinder that is gone through. -/
def place (s : RemoveScan) : Cylinder := s.container.elim r.cylinder .container

/-- A round of the loops; the second one starts over with the next container of the list. -/
def round (s : RemoveScan) : RemoveScan ⊕ (World × Bool) :=
  if s.i < Cylinder.getLastIndex s.world (r.place s) ∧ 0 < s.count then
    match Cylinder.getThing s.world (r.place s) s.i with
    | none => .inl { s with i := s.i + 1 }
    | some item =>
      if r.asks s.container.isSome (s.world.item item) then .inl (r.take srv s item)
      else .inl (pass s item)
  else
    match s.listContainer with
    | [] => .inr (s.world, s.count = 0)
    | container :: listContainer =>
      if 0 < s.count then
        .inl { s with container := some container, i := 0, listContainer := listContainer }
      else .inr (s.world, s.count = 0)

end RemoveRequest

/-- `Game::removeItemOfType`, followed for at most `n` rounds of each loop. -/
def Game.removeItemOfType (n : ℕ) (cylinder : Option Cylinder) (itemId : KindId) (count : ℤ)
    (subType : ℤ) (includeSlots : Bool) : Option (World × Bool) :=
  match cylinder with
  | none => some (w, false)
  | some cylinder => do
    let counted ← Cylinder.getItemTypeCount w n cylinder itemId subType includeSlots
    -- the count is compared as an `int32_t`
    if (counted : ℤ).bmod (2 ^ 32) < count then some (w, false)
    else if count ≤ 0 then some (w, true)
    else
      let r : RemoveRequest := { cylinder, itemId, subType, includeSlots }
      Loop.run (r.round srv) n { world := w, i := cylinder.getFirstIndex, count := count }

end TyanoCore
