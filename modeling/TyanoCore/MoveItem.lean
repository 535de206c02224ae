import TyanoCore.Update

/-!
# Moving and adding items

`Item::CreateItem`, `Game::internalMoveItem` and `Game::internalAddItem`.
-/

namespace TyanoCore

variable (srv : Server) (w : World)

/-! ## New items -/

/-- The constructors behind `Item::CreateItem`. -/
def Item.new (kind : ItemKind) (amount : ℕ) : Item :=
  let isContainer := kind.type = .depot || kind.group = .container
  let item : Item :=
    { kind := kind, charges := kind.charges, isContainer := isContainer
      maxSize := if isContainer then kind.maxItems else 0 }
  if kind.isFluidContainer || kind.isSplash then { item with fluidType := amount }
  else if kind.stackable ∧ amount ≠ 0 then { item with count := amount % 256 }
  else if kind.charges ≠ 0 ∧ amount ≠ 0 then { item with charges := amount }
  else item

def World.create (item : Item) : World :=
  { w with
    item := fun i => if i = w.next then item else w.item i
    totalWeight := fun i => if i = w.next then 0 else w.totalWeight i
    next := w.next + 1 }

/-- `Item::CreateItem`: the classes other than `Item` are built without an amount. -/
def Item.createItem (kindId : KindId) (amount : ℕ) : Option (World × ItemId) :=
  if kindId = 0 then none
  else match srv.items.kind (createdKindId kindId) with
  | none => none
  | some kind =>
    if kind.group = .deprecated then none
    else
      let amount := if kind.isOrdinary then amount % 2 ^ 16 else 0
      some (w.create (Item.new kind amount), w.next)

/-! ## Moving -/

def mapMaxLayers : ℕ := 16

/-- The loop that follows `__queryDestination` from cylinder to cylinder. -/
def Game.findDestination (item : ItemId) : ℕ → Destination → Destination
  | 0, d => d
  | n + 1, d =>
    let sub := Cylinder.queryDestination srv w item d
    if sub.cylinder = d.cylinder then sub
    else Game.findDestination item n { sub with flags := {} }

/-- `__getIndexOfThing` and `postAddNotification`, where there is a thing. -/
def Cylinder.notifyAdded (c : Cylinder) (item : Option ItemId) : World :=
  match item with
  | none => w
  | some item =>
    let index := Cylinder.getIndexOfThing w c item
    if index = -1 then w else Cylinder.postAddNotification srv w c item index

/-- The notifications of an exchange. -/
def Game.exchanged (fromCylinder toCylinder : Cylinder) (toItem : ItemId) (oldToItemIndex : ℤ) :
    World :=
  let w :=
    if oldToItemIndex = -1 then w
    else Cylinder.postRemoveNotification srv w toCylinder toItem oldToItemIndex true
  Cylinder.notifyAdded srv w fromCylinder (some toItem)

/-- The first half of an exchange: the item in the way goes to the source. -/
def Game.exchange (fromCylinder toCylinder : Cylinder) (toItem : ItemId) : World :=
  let oldToItemIndex := Cylinder.getIndexOfThing w toCylinder toItem
  let w := Cylinder.removeThing srv w toCylinder toItem (w.item toItem).count
  let w := Cylinder.addThing srv w fromCylinder 0 toItem
  Game.exchanged srv w fromCylinder toCylinder toItem oldToItemIndex

/-- What the checks of `Game::internalMoveItem` lead to: an early return, a null pointer that is
followed, or the move of `m` units. -/
inductive MoveChecks where
  | returned (w : World) (ret : ReturnValue)
  | crashed
  | ready (w : World) (d : Destination) (maxQueryCount : ℕ) (retMaxCount : ReturnValue) (m : ℕ)

/-- The checks from "check how much we can move" on. -/
def Game.moveCounts (fromCylinder : Cylinder) (d : Destination) (item : ItemId) (count : ℕ) :
    MoveChecks :=
  let (maxQueryCount, retMaxCount) :=
    Cylinder.queryMaxCount w d.cylinder d.index item count d.flags
  if retMaxCount ≠ .noError ∧ maxQueryCount = 0 then .returned w retMaxCount
  else
    let m := if (w.item item).isStackable then min count maxQueryCount else maxQueryCount
    match Cylinder.queryRemove w fromCylinder item m d.flags with
    | .noError => .ready w d maxQueryCount retMaxCount m
    | ret => .returned w ret

/-- The exchange branch, entered when the destination asks for one. -/
def Game.moveExchange (fromCylinder : Cylinder) (d : Destination) (item : ItemId) (count : ℕ) :
    MoveChecks :=
  match d.destItem with
  | none => .crashed
  | some toItem =>
    let toItemCount := (w.item toItem).count
    let fromIndex := Cylinder.getIndexOfThing w fromCylinder item
    match Cylinder.queryAdd srv w fromCylinder fromIndex toItem toItemCount {} with
    | .noError =>
      let (maxExchangeQueryCount, retExchangeMaxCount) :=
        Cylinder.queryMaxCount w fromCylinder (-1) toItem toItemCount {}
      if retExchangeMaxCount ≠ .noError ∧ maxExchangeQueryCount = 0 then
        .returned w retExchangeMaxCount
      else if Cylinder.queryRemove w d.cylinder toItem toItemCount d.flags = .noError then
        let w' := Game.exchange srv w fromCylinder d.cylinder toItem
        match Cylinder.queryAdd srv w' d.cylinder d.index item count d.flags with
        | .noError => Game.moveCounts w' fromCylinder { d with destItem := none } item count
        | ret => .returned w' ret
      else Game.moveCounts w fromCylinder d item count
    | ret => .returned w ret

/-- Everything in `Game::internalMoveItem` before the item is removed from its source. -/
def Game.moveChecks (fromCylinder toCylinder : Cylinder) (index : ℤ) (item : ItemId) (count : ℕ)
    (flags : CylinderFlags) : MoveChecks :=
  let d := Game.findDestination srv w item mapMaxLayers
    { cylinder := toCylinder, index := index, destItem := none, flags := flags }
  if d.destItem = some item then .returned w .noError
  else match Cylinder.queryAdd srv w d.cylinder d.index item count d.flags with
  | .needExchange => Game.moveExchange srv w fromCylinder d item count
  | .noError => Game.moveCounts w fromCylinder d item count
  | ret => .returned w ret

/-- Moves what fits onto the stack at the destination; `n` units. -/
def Game.mergeStack (d : Destination) (item : ItemId) (m : ℕ) : World × Option ItemId × ℕ :=
  match d.destItem with
  | none => (w, none, 0)
  | some toItem =>
    if (w.item toItem).kind.id = (w.item item).kind.id then
      let n := min (roomOnStack (w.item toItem).count) m
      (Cylinder.updateThing srv w d.cylinder toItem (w.item toItem).kind.id
        ((w.item toItem).count + n), some toItem, n)
    else (w, none, 0)

/-- Adds what was not merged. -/
def Game.addMoved (d : Destination) (moveItem : Option ItemId) : World :=
  match moveItem with
  | none => w
  | some moveItem => Cylinder.addThing srv w d.cylinder d.index moveItem

/-- Adds what was not merged, then notifies the cylinders. -/
def Game.finishMove (fromCylinder : Cylinder) (d : Destination) (item : ItemId)
    (moveItem updateItem : Option ItemId) (itemIndex : ℤ) (isCompleteRemoval : Bool) : World :=
  let w := Game.addMoved srv w d moveItem
  let w :=
    if itemIndex = -1 then w
    else Cylinder.postRemoveNotification srv w fromCylinder item itemIndex isCompleteRemoval
  let w := Cylinder.notifyAdded srv w d.cylinder moveItem
  Cylinder.notifyAdded srv w d.cylinder updateItem

/-- `Game::internalMoveItem` from the removal on; `none` when the new stack cannot be created. -/
def Game.performMove (fromCylinder : Cylinder) (d : Destination) (item : ItemId) (m : ℕ) :
    Option World :=
  let itemIndex := Cylinder.getIndexOfThing w fromCylinder item
  let w := Cylinder.removeThing srv w fromCylinder item m
  let isCompleteRemoval := w.isRemovedFrom srv.loopBound (w.item item).parent
  if (w.item item).isStackable then
    let (w, updateItem, n) := Game.mergeStack srv w d item m
    if m - n = 0 then
      some (Game.finishMove srv w fromCylinder d item none updateItem itemIndex isCompleteRemoval)
    else match Item.createItem srv w (w.item item).kind.id (m - n) with
    | none => none
    | some (w, moveItem) =>
      some (Game.finishMove srv w fromCylinder d item (some moveItem) updateItem itemIndex
        isCompleteRemoval)
  else
    some (Game.finishMove srv w fromCylinder d item (some item) none itemIndex isCompleteRemoval)

/-! ## Adding -/

/-- `Game::internalAddItem`; null pointers are refused. -/
def Game.internalAddItem (toCylinder : Option Cylinder) (item : Option ItemId) (index : ℤ)
    (flags : CylinderFlags) (test : Bool) : World × ReturnValue :=
  match toCylinder, item with
  | some toCylinder, some item =>
    let d := Cylinder.queryDestination srv w item
      { cylinder := toCylinder, index := index, destItem := none, flags := flags }
    let count := (w.item item).count
    let ret := Cylinder.queryAdd srv w d.cylinder d.index item count d.flags
    if ret ≠ .noError then (w, ret)
    else
      let (maxQueryCount, ret) := Cylinder.queryMaxCount w d.cylinder d.index item count d.flags
      if ret ≠ .noError then (w, ret)
      else if test then (w, .noError)
      else if (w.item item).isStackable then
        let m := min count maxQueryCount
        let (w, updateItem, n) := Game.mergeStack srv w d item m
        if updateItem = none then
          (Cylinder.notifyAdded srv (Cylinder.addThing srv w d.cylinder d.index item) d.cylinder
            (some item), .noError)
        else if m - n = 0 then (Cylinder.notifyAdded srv w d.cylinder (some item), .noError)
        else
          let created :=
            if m - n = count then some (w, item)
            else Item.createItem srv w (w.item item).kind.id (m - n)
          match created with
          | none => (Cylinder.notifyAdded srv w d.cylinder (some item), .noError)
          | some (w, moveItem) =>
            (Cylinder.notifyAdded srv (Cylinder.addThing srv w d.cylinder d.index moveItem)
              d.cylinder (some moveItem), .noError)
      else
        (Cylinder.notifyAdded srv (Cylinder.addThing srv w d.cylinder d.index item) d.cylinder
          (some item), .noError)
  | _, _ => (w, .notPossible)

/-- `Game::internalMoveItem`; `none` when a null pointer is followed. -/
def Game.internalMoveItem (fromCylinder : Cylinder) (toCylinder : Option Cylinder) (index : ℤ)
    (item : ItemId) (count : ℕ) (flags : CylinderFlags) : Option (World × ReturnValue) :=
  match toCylinder with
  | none => some (w, .notPossible)
  | some toCylinder =>
    if (w.item item).parent = none then
      some (Game.internalAddItem srv w (some toCylinder) (some item) (-1) { noLimit := true } false)
    else match Game.moveChecks srv w fromCylinder toCylinder index item count flags with
    | .returned w ret => some (w, ret)
    | .crashed => none
    | .ready w d maxQueryCount retMaxCount m =>
      let ret :=
        if (w.item item).isStackable ∧ maxQueryCount < count then retMaxCount else .noError
      (Game.performMove srv w fromCylinder d item m).map fun w => (w, ret)

end TyanoCore
