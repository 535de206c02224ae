import TyanoCore.Query

/-!
# Updates of the cylinders

`__addThing`, `__updateThing`, `__removeThing` and the notifications that follow them.  Messages
to clients are left out; what remains of a notification are the movement events, the weight that a
player remembers of his inventory, and the trash holder or the mailbox of a tile.
-/

namespace TyanoCore

variable (srv : Server) (w : World)

/-! ## Adding -/

def Container.addThing (j : ItemId) (index : ℤ) (item : ItemId) : World :=
  if ((w.item j).maxSize : ℤ) ≤ index then w
  else
    let w' := (w.setParent item (some (.container j))).setItemList j (item :: (w.item j).itemlist)
    w'.updateItemWeight srv.loopBound j (w.getWeight item)

def Player.addThing (p : PlayerId) (index : ℤ) (item : ItemId) : World :=
  if index < 0 ∨ 11 < index then w
  else if index = 0 then w
  else (w.setParent item (some (.player p))).setInventory p index.toNat (some item)

/-- The items of a tile that are always on top, with one more of a given order. -/
def Tile.insertTopItem (item : ItemId) (order : ℤ) : List ItemId → List ItemId
  | [] => [item]
  | top :: topItems =>
    if order > (w.item top).kind.alwaysOnTopOrder then
      top :: Tile.insertTopItem item order topItems
    else item :: top :: topItems

def Tile.removeThing (t : TileId) (item : ItemId) (count : ℕ) : World :=
  let tile := w.tile t
  if Tile.getIndexOfThing w t item = -1 then w
  else if tile.ground = some item then (w.setParent item none).setTile t { tile with ground := none }
  else if (w.item item).kind.alwaysOnTop then
    if item ∈ tile.topItems then
      (w.setParent item none).setTile t { tile with topItems := tile.topItems.erase item }
    else w
  else if item ∈ tile.downItems then
    if (w.item item).isStackable ∧ count ≠ (w.item item).count then
      w.setItem item { w.item item with count := ((w.item item).count - count) % 256 }
    else (w.setParent item none).setTile t { tile with downItems := tile.downItems.erase item }
  else w

/-- The splash or the magic field on a tile that another one takes the place of. -/
def Tile.oldItem (t : TileId) (item : ItemId) : Option ItemId :=
  let kind := (w.item item).kind
  if kind.isGroundTile then none
  else if kind.alwaysOnTop then
    if kind.isSplash then (w.tile t).topItems.find? fun i => (w.item i).kind.isSplash else none
  else if kind.isMagicField then (w.tile t).downItems.find? fun i => (w.item i).kind.isMagicField
  else none

/-- `Tile::__addThing` on a tile that forwards nothing. -/
def Tile.addThingHere (t : TileId) (item : ItemId) : World :=
  let tile := w.tile t
  let kind := (w.item item).kind
  if !Tile.hasRoomForThing w t then w
  else if 0xFFFF ≤ tile.topItems.length + tile.downItems.length then w
  else
    let w' := w.setParent item (some (.tile t))
    if kind.isGroundTile then
      let w' := match tile.ground with
        | some ground => w'.setParent ground none
        | none => w'
      w'.setTile t { w'.tile t with ground := some item }
    else
      let oldItem := Tile.oldItem w t item
      if kind.alwaysOnTop then
        let w' := match oldItem with
          | some splash => (Tile.removeThing w' t splash 1).setParent splash none
          | none => w'
        let topItems := Tile.insertTopItem w' item kind.alwaysOnTopOrder (w'.tile t).topItems
        w'.setTile t { w'.tile t with topItems := topItems, hasItemList := true }
      else if oldItem.any fun field => !(w.item field).kind.replaceable then
        -- this magic field cannot be replaced
        w'.setParent item none
      else
        let w' := match oldItem with
          | some field => (Tile.removeThing w' t field 1).setParent field none
          | none => w'
        let w' :=
          if kind.id = itemWaterballSplash ∧ srv.trashHolderFlag w t = false then
            match srv.items.kind itemWaterball with
            | some waterball => w'.setItem item { w'.item item with kind := waterball }
            | none => w'
          else w'
        w'.setTile t
          { w'.tile t with downItems := item :: (w'.tile t).downItems, hasItemList := true }

def Tile.addThing (t : TileId) (item : ItemId) : World :=
  if srv.isForwarder t then
    -- the tile found is not a forwarder itself
    match srv.getAvailableItemForwardingTile w t item with
    | none => w
    | some destinationTile => Tile.addThingHere srv w destinationTile item
  else Tile.addThingHere srv w t item

def Cylinder.addThing (c : Cylinder) (index : ℤ) (item : ItemId) : World :=
  match c with
  | .container j => Container.addThing srv w j index item
  | .player p => Player.addThing w p index item
  | .tile t => Tile.addThing srv w t item

/-! ## Updating -/

/-- Gives an item its new kind and sub-type. -/
def Item.update (item : Item) (kind : ItemKind) (count : ℕ) : Item :=
  { item with kind := kind }.setSubType count

def Container.updateThing (j : ItemId) (item : ItemId) (kindId : KindId) (count : ℕ) : World :=
  if Container.getIndexOfThing w j item = -1 then w
  else match srv.items.kind kindId with
  | none => w
  | some newKind =>
    let w' := w.setItem item ((w.item item).update newKind count)
    w'.updateItemWeight srv.loopBound j (-w.getWeight item + w'.getWeight item)

def Player.updateThing (p : PlayerId) (item : ItemId) (kindId : KindId) (count : ℕ) : World :=
  if Player.getIndexOfThing w p item = -1 then w
  else match srv.items.kind kindId with
  | none => w
  | some newKind => w.setItem item ((w.item item).update newKind count)

def Tile.updateThing (t : TileId) (item : ItemId) (kindId : KindId) (count : ℕ) : World :=
  if Tile.getIndexOfThing w t item = -1 then w
  else match srv.items.kind kindId with
  | none => w
  | some newKind => w.setItem item ((w.item item).update newKind count)

def Cylinder.updateThing : Cylinder → ItemId → KindId → ℕ → World
  | .container j => Container.updateThing srv w j
  | .player p => Player.updateThing srv w p
  | .tile t => Tile.updateThing srv w t

/-! ## Removing -/

def Container.removeThing (j : ItemId) (item : ItemId) (count : ℕ) : World :=
  if Container.getIndexOfThing w j item = -1 then w
  else if (w.item item).isStackable ∧ count ≠ (w.item item).count then
    let w' := w.setItem item { w.item item with count := (w.item item).count - count }
    w'.updateItemWeight srv.loopBound j (-w.getWeight item + w'.getWeight item)
  else
    let w' := w.updateItemWeight srv.loopBound j (-w.getWeight item)
    (w'.setParent item none).setItemList j ((w.item j).itemlist.erase item)

def Player.removeThing (p : PlayerId) (item : ItemId) (count : ℕ) : World :=
  let index := Player.getIndexOfThing w p item
  if index = -1 then w
  else if (w.item item).isStackable ∧ count ≠ (w.item item).count then
    w.setItem item { w.item item with count := (w.item item).count - count }
  else (w.setParent item none).setInventory p index.toNat none

def Cylinder.removeThing : Cylinder → ItemId → ℕ → World
  | .container j => Container.removeThing srv w j
  | .player p => Player.removeThing w p
  | .tile t => Tile.removeThing w t

/-! ## Notifications of a removal -/

def Cylinder.postRemoveNotification (c : Cylinder) (item : ItemId) (index : ℤ)
    (isCompleteRemoval : Bool) : World :=
  match c with
  | .player p =>
    let w := { w with abilities := srv.deEquipped w.abilities p item index isCompleteRemoval }
    (srv.transformDeEquipped w p item index isCompleteRemoval).updateInventoryWeight p
  | .container j =>
    match w.getTopParent srv.loopBound j with
    | some (.player p) => w.updateInventoryWeight p
    | _ => w
  | .tile _ => w

/-- `Game::internalRemoveItem`; without a count the whole item is removed. -/
def Game.internalRemoveItem (item : ItemId) (count : Option ℕ) (test : Bool)
    (flags : CylinderFlags) : World × ReturnValue :=
  match (w.item item).parent with
  | none => (w, .notPossible)
  | some cylinder =>
    let count := count.getD (w.item item).count
    let ret := Cylinder.queryRemove w cylinder item count { flags with ignoreNotMoveable := true }
    if ret ≠ .noError then (w, ret)
    else if !(w.item item).canRemove then (w, .notPossible)
    else if test then (w, .noError)
    else
      let index := Cylinder.getIndexOfThing w cylinder item
      let w := Cylinder.removeThing srv w cylinder item count
      let isCompleteRemoval := w.isRemovedFrom srv.loopBound (w.item item).parent
      (Cylinder.postRemoveNotification srv w cylinder item index isCompleteRemoval, .noError)

/-! ## Notifications of an addition -/

/-- The item of a type on a tile that is found first: the ground, or the last one of the vector, in
which those on top come after the others. -/
def Tile.findType (t : TileId) (type : ItemType) : Option ItemId :=
  let tile := w.tile t
  (tile.ground.toList ++ tile.topItems.reverse ++ tile.downItems.reverse).find? fun i =>
    (w.item i).kind.type = type

def Tile.getTrashHolder (t : TileId) : Option ItemId :=
  if srv.trashHolderFlag w t then Tile.findType w t .trashHolder else none

def Tile.getMailbox (t : TileId) : Option ItemId :=
  if srv.mailboxFlag w t then Tile.findType w t .mailbox else none

/-- `TrashHolder::__addThing`, on the tile of the trash holder; the magic effect is left out. -/
def TrashHolder.addThing (t : TileId) (trashHolder item : ItemId) : World :=
  if item = trashHolder ∨ (w.item item).isNotMoveable then w
  else if srv.isSwimmingPool w t ∧ (w.item item).kind.id = itemWaterballSplash then w
  else if srv.isSwimmingPool w t ∧ (w.item item).kind.id = itemWaterball then
    srv.transformItem w item itemWaterballSplash
  else (Game.internalRemoveItem srv w item none false {}).1

def Mailbox.canSend (item : Item) : Bool := item.kind.id = itemParcel || item.kind.id = itemLetter

def Mailbox.addThing (item : ItemId) : World :=
  if Mailbox.canSend (w.item item) then srv.sendItem w item else w

/-- What a tile does to an item that has been added to it. -/
def Tile.postAddNotification (t : TileId) (item : ItemId) : World :=
  if srv.trashHolderFlag w t then
    match Tile.getTrashHolder srv w t with
    | some trashHolder => TrashHolder.addThing srv w t trashHolder item
    | none => w
  else if srv.mailboxFlag w t then
    match Tile.getMailbox srv w t with
    | some _ => Mailbox.addThing srv w item
    | none => w
  else w

/-- `Cylinder::postAddNotification`: a player is told as the owner of his slots, and as the
outermost parent of his containers. -/
def Cylinder.postAddNotification (c : Cylinder) (item : ItemId) (index : ℤ) : World :=
  match c with
  | .player p =>
    let w := { w with abilities := srv.equipped w.abilities p item index }
    (srv.transformEquipped w p item index).updateInventoryWeight p
  | .container j =>
    match w.getTopParent srv.loopBound j with
    | some (.player p) => w.updateInventoryWeight p
    | _ => w
  | .tile t => Tile.postAddNotification srv w t item

end TyanoCore
