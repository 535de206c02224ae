import Mathlib.Data.List.InsertIdx
import Mathlib.Data.List.Perm.Basic
import Mathlib.Data.List.ReduceOption
import Mathlib.Logic.Function.Basic
import TyanoCore.Run

/-!
# Movement events of the items on a tile

The movement events remember the items with tile events of the last tile they were asked about.  What
is remembered is filled by a scan of the tile that skips the item that is moved, and patched when items
are added to the tile or removed from it; it is right as long as no item with a tile event gets onto a
tile that is not remembered, and none is removed in part from one that is.
-/

namespace TyanoCore

/-- `MOVE_EVENT_WILL_ADD_CREATURE` has the number of `MOVE_EVENT_REMOVE_ITEM_ITEMTILE`. -/
inductive MoveEventType
  | stepIn
  | stepOut
  | equip
  | deEquip
  | addItem
  | removeItem
  | addItemItemTile
  | removeItemItemTile
  deriving DecidableEq

/-- What the events of an item are looked up by. -/
structure EventKeys where
  uniqueId : ℕ
  actionId : ℕ
  id : ℕ

/-- The registered events, and what each item is. -/
structure MoveEvents (τ ι ε : Type*) where
  uniqueIdMap : ℕ → Option (MoveEventType → List ε)
  actionIdMap : ℕ → Option (MoveEventType → List ε)
  itemIdMap : ℕ → Option (MoveEventType → List ε)
  positionMap : τ → Option (MoveEventType → List ε)
  keys : ι → EventKeys

/-- An event that is fired: of the position, of the item that is moved, or of an item on the tile. -/
inductive Fired (ι ε : Type*)
  | position (event : ε)
  | item (event : ε)
  | tileItem (tileItem : ι) (event : ε)
  deriving DecidableEq

/-- The tiles with their items, and what the movement events remember. -/
structure TileWorld (τ ι : Type*) where
  items : τ → List ι
  lastCacheTile : Option τ
  lastCacheItemVector : List (Option ι)

inductive TileNotification (τ ι : Type*)
  | creatureAdded (tile : τ)
  | creatureRemoved (tile : τ) (hasNewTile : Bool)
  | itemAdded (tile : τ) (item : ι) (index : ℕ)
  | itemRemoved (tile : τ) (item : ι) (isCompleteRemoval hasNewParent : Bool)

namespace MoveEvents

variable {τ ι ε : Type*} [DecidableEq τ] [DecidableEq ι]

/-- The first event of a type in a list that may not be there. -/
def firstEvent (list : Option (MoveEventType → List ε)) (eventType : MoveEventType) : Option ε :=
  match list with
  | none => none
  | some moveEvent => (moveEvent eventType).head?

/-- `getEvent` of an item. -/
def getEvent (events : MoveEvents τ ι ε) (item : ι) (eventType : MoveEventType) : Option ε :=
  let keys := events.keys item
  let byUniqueId :=
    if keys.uniqueId ≠ 0 then firstEvent (events.uniqueIdMap keys.uniqueId) eventType else none
  let byActionId :=
    if keys.actionId ≠ 0 then firstEvent (events.actionIdMap keys.actionId) eventType else none
  (byUniqueId.or byActionId).or (firstEvent (events.itemIdMap keys.id) eventType)

/-- `getEvent` of a tile. -/
def getTileEvent (events : MoveEvents τ ι ε) (tile : τ) (eventType : MoveEventType) : Option ε :=
  firstEvent (events.positionMap tile) eventType

/-- `hasTileEvent`. -/
def hasTileEvent (events : MoveEvents τ ι ε) (item : ι) : Bool :=
  (events.getEvent item .stepIn).isSome || (events.getEvent item .stepOut).isSome ||
    (events.getEvent item .removeItemItemTile).isSome ||
    (events.getEvent item .addItemItemTile).isSome ||
    (events.getEvent item .removeItemItemTile).isSome

/-- The event of an item on the tile, unless it is the one that is moved. -/
def tileItemEvent (events : MoveEvents τ ι ε) (eventType : MoveEventType) (moved : Option ι)
    (tileItem : ι) : Option (Fired ι ε) :=
  if moved = some tileItem then none
  else (events.getEvent tileItem eventType).map (Fired.tileItem tileItem)

/-- The loop over the items of the tile, which fills what is remembered. -/
def scan (events : MoveEvents τ ι ε) (eventType : MoveEventType) (moved : Option ι) :
    List ι → List (Option ι) × List (Fired ι ε)
  | [] => ([], [])
  | tileItem :: rest =>
    let (vector, fired) := events.scan eventType moved rest
    if moved = some tileItem then (vector, fired)
    else
      match events.getEvent tileItem eventType with
      | some event => (some tileItem :: vector, .tileItem tileItem event :: fired)
      | none => (if events.hasTileEvent tileItem then some tileItem :: vector else vector, fired)

/-- The common end of `onCreatureMove` and `onItemMove`. -/
def fireTileItems (events : MoveEvents τ ι ε) (w : TileWorld τ ι) (tile : τ)
    (eventType : MoveEventType) (moved : Option ι) : TileWorld τ ι × List (Fired ι ε) :=
  if w.lastCacheTile = some tile then
    (w, w.lastCacheItemVector.filterMap fun entry =>
      entry.bind (events.tileItemEvent eventType moved))
  else
    let (vector, fired) := events.scan eventType moved (w.items tile)
    ({ w with lastCacheTile := some tile, lastCacheItemVector := vector }, fired)

/-- `onCreatureMove`, of the tile that is stepped on or off. -/
def onCreatureMove (events : MoveEvents τ ι ε) (w : TileWorld τ ι) (tile : τ) (isStepping : Bool) :
    TileWorld τ ι × List (Fired ι ε) :=
  let eventType := if isStepping then MoveEventType.stepIn else .stepOut
  let (w, fired) := events.fireTileItems w tile eventType none
  (w, ((events.getTileEvent tile eventType).map .position).toList ++ fired)

/-- `onItemMove`. -/
def onItemMove (events : MoveEvents τ ι ε) (w : TileWorld τ ι) (item : ι) (tile : τ) (isAdd : Bool) :
    TileWorld τ ι × List (Fired ι ε) :=
  let eventType1 := if isAdd then MoveEventType.addItem else .removeItem
  let eventType2 := if isAdd then MoveEventType.addItemItemTile else .removeItemItemTile
  let (w, fired) := events.fireTileItems w tile eventType2 (some item)
  (w, ((events.getTileEvent tile eventType1).map .position).toList ++
    ((events.getEvent item eventType1).map .item).toList ++ fired)

/-- `onAddTileItem`. -/
def onAddTileItem (events : MoveEvents τ ι ε) (w : TileWorld τ ι) (tile : τ) (item : ι) :
    TileWorld τ ι :=
  if w.lastCacheTile ≠ some tile then w
  else if some item ∉ w.lastCacheItemVector ∧ events.hasTileEvent item = true then
    { w with lastCacheItemVector := w.lastCacheItemVector ++ [some item] }
  else w

/-- The loop of `onRemoveTileItem`. -/
def clearFirst (item : ι) : List (Option ι) → List (Option ι)
  | [] => []
  | entry :: vector => if entry = some item then none :: vector else entry :: clearFirst item vector

/-- `onRemoveTileItem`. -/
def onRemoveTileItem (w : TileWorld τ ι) (tile : τ) (item : ι) : TileWorld τ ι :=
  if w.lastCacheTile ≠ some tile then w
  else { w with lastCacheItemVector := clearFirst item w.lastCacheItemVector }

/-- The items of a tile after one has been added, which may be put onto one that is there already. -/
def itemsWith (items : List ι) (item : ι) (index : ℕ) : List ι :=
  if item ∈ items then items else items.insertIdx index item

/-- The items of a tile after one has been removed as a whole or in part. -/
def itemsWithout (items : List ι) (item : ι) (isCompleteRemoval : Bool) : List ι :=
  if isCompleteRemoval then items.erase item else items

/-- The world with other items on a tile. -/
def withItems (w : TileWorld τ ι) (tile : τ) (items : List ι) : TileWorld τ ι :=
  { w with items := Function.update w.items tile items }

/-- A change of a tile and the notification of it; the item must be on the tile after it is added and
before it is removed. -/
def step (events : MoveEvents τ ι ε) (w : TileWorld τ ι) :
    TileNotification τ ι → Option (TileWorld τ ι × List (Fired ι ε))
  | .creatureAdded tile => some (events.onCreatureMove w tile true)
  | .creatureRemoved tile hasNewTile =>
    some (if hasNewTile then events.onCreatureMove w tile false else (w, []))
  | .itemAdded tile item index =>
    let items := itemsWith (w.items tile) item index
    if item ∉ items then none
    else
      let w := withItems w tile items
      some (events.onItemMove (events.onAddTileItem w tile item) item tile true)
  | .itemRemoved tile item isCompleteRemoval hasNewParent =>
    if item ∉ w.items tile then none
    else
      let items := itemsWithout (w.items tile) item isCompleteRemoval
      let w := onRemoveTileItem (withItems w tile items) tile item
      some (if hasNewParent then events.onItemMove w item tile false else (w, []))

variable {events : MoveEvents τ ι ε} {w w' : TileWorld τ ι} {tile : τ} {item : ι}
  {eventType : MoveEventType} {moved : Option ι}

/-! ## What is remembered -/

/-- The types that are asked of the items on a tile. -/
def OfTile (eventType : MoveEventType) : Prop :=
  eventType = .stepIn ∨ eventType = .stepOut ∨ eventType = .addItemItemTile ∨
    eventType = .removeItemItemTile

omit [DecidableEq τ] [DecidableEq ι] in
theorem hasTileEvent_of_isSome (htype : OfTile eventType)
    (h : (events.getEvent item eventType).isSome = true) : events.hasTileEvent item = true := by
  rw [hasTileEvent]
  rcases htype with rfl | rfl | rfl | rfl <;> rw [h] <;> simp only [Bool.true_or, Bool.or_true]

/-- The items that are remembered are those of the tile with a tile event. -/
def Remembered (events : MoveEvents τ ι ε) (w : TileWorld τ ι) : Prop :=
  ∀ tile, w.lastCacheTile = some tile →
    (w.lastCacheItemVector.reduceOption).Perm ((w.items tile).filter fun i => events.hasTileEvent i)

omit [DecidableEq τ] in
/-- What is fired for the items on a tile is determined by those with a tile event. -/
theorem filterMap_filter_hasTileEvent (htype : OfTile eventType) (items : List ι) :
    (items.filter fun i => events.hasTileEvent i).filterMap (events.tileItemEvent eventType moved) =
      items.filterMap (events.tileItemEvent eventType moved) := by
  induction items with
  | nil => rfl
  | cons item items ih =>
    rw [List.filter_cons]
    split
    · rw [List.filterMap_cons, List.filterMap_cons, ih]
    · next hnot =>
      have hnone : events.tileItemEvent eventType moved item = none := by
        rw [tileItemEvent]
        split
        · rfl
        · rw [Option.map_eq_none_iff]
          by_contra hsome
          exact hnot (hasTileEvent_of_isSome htype (Option.isSome_iff_ne_none.mpr hsome))
      rw [ih, List.filterMap_cons, hnone]

omit [DecidableEq τ] in
/-- The scan fires what is on the tile. -/
theorem scan_snd (items : List ι) :
    (events.scan eventType moved items).2 =
      items.filterMap (events.tileItemEvent eventType moved) := by
  induction items with
  | nil => rfl
  | cons item items ih =>
    rw [scan, List.filterMap_cons, tileItemEvent]
    dsimp only
    split
    · exact ih
    · split
      · next event hevent =>
        rw [hevent, ih]
        rfl
      · next hevent =>
        rw [hevent, ih]
        rfl

omit [DecidableEq τ] in
/-- The scan remembers the items with a tile event, except for the one that is moved. -/
theorem scan_fst (htype : OfTile eventType) (items : List ι)
    (hmoved : ∀ i ∈ items, moved = some i → events.hasTileEvent i = false) :
    (events.scan eventType moved items).1.reduceOption =
      items.filter fun i => events.hasTileEvent i := by
  induction items with
  | nil => rfl
  | cons item items ih =>
    have hrest := ih fun i hi => hmoved i (List.mem_cons_of_mem item hi)
    rw [scan, List.filter_cons]
    dsimp only
    split
    · next heq =>
      rw [hmoved item List.mem_cons_self heq, if_neg Bool.false_ne_true]
      exact hrest
    · split
      · next event hevent =>
        have hhas : events.hasTileEvent item = true :=
          hasTileEvent_of_isSome htype (by rw [hevent]; rfl)
        rw [hhas, if_pos rfl]
        exact (List.reduceOption_cons_of_some item _).trans (congrArg _ hrest)
      · split
        · exact (List.reduceOption_cons_of_some item _).trans (congrArg _ hrest)
        · exact hrest

/-- What is fired with an empty cache: the events of the items on the tile. -/
theorem fireTileItems_snd (htype : OfTile eventType) (h : events.Remembered w) :
    (events.fireTileItems w tile eventType moved).2.Perm
      ((w.items tile).filterMap (events.tileItemEvent eventType moved)) := by
  rw [fireTileItems]
  split
  · next hcached =>
    have hperm := (h tile hcached).filterMap (events.tileItemEvent eventType moved)
    rw [filterMap_filter_hasTileEvent htype] at hperm
    apply List.Perm.trans _ hperm
    rw [List.reduceOption, List.filterMap_filterMap]
    exact List.Perm.refl _
  · rw [← scan_snd]

theorem remembered_fireTileItems (htype : OfTile eventType) (h : events.Remembered w)
    (hmoved : w.lastCacheTile = some tile ∨
      ∀ i ∈ w.items tile, moved = some i → events.hasTileEvent i = false) :
    events.Remembered (events.fireTileItems w tile eventType moved).1 := by
  rw [fireTileItems]
  split
  · exact h
  · next hother =>
    intro tile' htile'
    obtain rfl : tile = tile' := Option.some.inj htile'
    show (events.scan eventType moved (w.items tile)).1.reduceOption.Perm _
    rw [scan_fst htype (w.items tile) (hmoved.resolve_left hother)]

/-! ## Items that come and go -/

omit [DecidableEq τ] in
theorem reduceOption_clearFirst (vector : List (Option ι)) :
    (clearFirst item vector).reduceOption = vector.reduceOption.erase item := by
  induction vector with
  | nil => rfl
  | cons entry vector ih =>
    rw [clearFirst]
    cases entry with
    | none =>
      rw [if_neg (Option.some_ne_none item).symm, List.reduceOption_cons_of_none,
        List.reduceOption_cons_of_none]
      exact ih
    | some i =>
      rw [List.reduceOption_cons_of_some]
      split
      · next heq =>
        rw [Option.some.inj heq, List.erase_cons_head]
        exact List.reduceOption_cons_of_none _
      · next hne =>
        have hbeq : ¬ (i == item) = true := fun heq => hne (congrArg some (eq_of_beq heq))
        rw [List.reduceOption_cons_of_some, List.erase_cons_tail hbeq, ih]

omit [DecidableEq τ] in
/-- An item that is on the tile after it was added was there before or is new there. -/
theorem itemsWith_cases {items : List ι} {index : ℕ} (h : item ∈ itemsWith items item index) :
    (item ∈ items ∧ itemsWith items item index = items) ∨
      (item ∉ items ∧ (itemsWith items item index).Perm (item :: items)) := by
  rw [itemsWith] at h ⊢
  split
  · next hthere => exact Or.inl ⟨hthere, rfl⟩
  · next hnew =>
    rw [if_neg hnew] at h
    refine Or.inr ⟨hnew, List.perm_insertIdx item items ?_⟩
    by_contra hout
    rw [List.insertIdx_of_length_lt (Nat.lt_of_not_le hout)] at h
    exact hnew h

theorem onAddTileItem_frame (w : TileWorld τ ι) (tile : τ) (item : ι) :
    (events.onAddTileItem w tile item).items = w.items ∧
      (events.onAddTileItem w tile item).lastCacheTile = w.lastCacheTile := by
  rw [onAddTileItem]
  split
  · exact ⟨rfl, rfl⟩
  · split <;> exact ⟨rfl, rfl⟩

theorem onRemoveTileItem_frame (w : TileWorld τ ι) (tile : τ) (item : ι) :
    (onRemoveTileItem w tile item).items = w.items ∧
      (onRemoveTileItem w tile item).lastCacheTile = w.lastCacheTile := by
  rw [onRemoveTileItem]
  split <;> exact ⟨rfl, rfl⟩

omit [DecidableEq ι] in
theorem remembered_withItems_of_ne (h : events.Remembered w) (hother : w.lastCacheTile ≠ some tile)
    (items : List ι) : events.Remembered (withItems w tile items) := by
  intro tile' htile'
  have hne : tile' ≠ tile := by
    rintro rfl
    exact hother htile'
  show (w.lastCacheItemVector.reduceOption).Perm
    ((Function.update w.items tile items tile').filter _)
  rw [Function.update_of_ne hne]
  exact h tile' htile'

omit [DecidableEq ι] in
/-- With new items on the tile that is remembered, only these matter. -/
theorem remembered_withItems {items : List ι} {vector : List (Option ι)}
    (hlast : w.lastCacheTile = some tile)
    (h : (vector.reduceOption).Perm (items.filter fun i => events.hasTileEvent i)) :
    events.Remembered { withItems w tile items with lastCacheItemVector := vector } := by
  intro tile' htile'
  obtain rfl := Option.some.inj (hlast.symm.trans htile')
  show (vector.reduceOption).Perm ((Function.update w.items tile items tile).filter _)
  rw [Function.update_self]
  exact h

/-- An item that is added is remembered where its tile is. -/
theorem remembered_onAddTileItem (h : events.Remembered w) {index : ℕ}
    (hitem : item ∈ itemsWith (w.items tile) item index) :
    events.Remembered (events.onAddTileItem
      (withItems w tile (itemsWith (w.items tile) item index)) tile item) := by
  by_cases hcached : w.lastCacheTile = some tile
  · have hperm := h tile hcached
    have hmem : some item ∈ w.lastCacheItemVector ↔
        item ∈ w.items tile ∧ events.hasTileEvent item = true := by
      rw [← List.reduceOption_mem_iff, hperm.mem_iff, List.mem_filter]
    have hlast (items : List ι) : ¬ (withItems w tile items).lastCacheTile ≠ some tile :=
      not_not.mpr hcached
    rw [onAddTileItem, if_neg (hlast _)]
    rcases itemsWith_cases hitem with ⟨hthere, hsame⟩ | ⟨hnew, hadded⟩
    · -- it is put onto one that is there, and remembered if it has a tile event
      rw [hsame, if_neg fun hadd => hadd.1 (hmem.mpr ⟨hthere, hadd.2⟩)]
      exact remembered_withItems hcached hperm
    · have hfilter := (hadded.filter fun i => events.hasTileEvent i).symm
      rw [List.filter_cons] at hfilter
      split
      · next hadd =>
        rw [if_pos hadd.2] at hfilter
        apply remembered_withItems hcached
        apply List.Perm.trans _ hfilter
        rw [List.reduceOption_append]
        exact List.perm_append_comm.trans (hperm.cons item)
      · next hkeep =>
        have hnone : ¬ events.hasTileEvent item = true :=
          fun hhas => hkeep ⟨fun hin => hnew (hmem.mp hin).1, hhas⟩
        rw [if_neg hnone] at hfilter
        exact remembered_withItems hcached (hperm.trans hfilter)
  · have hlast (items : List ι) : (withItems w tile items).lastCacheTile ≠ some tile := hcached
    rw [onAddTileItem, if_pos (hlast _)]
    exact remembered_withItems_of_ne h hcached _

/-- An item that is removed as a whole is forgotten where its tile is remembered. -/
theorem remembered_onRemoveTileItem (h : events.Remembered w) {isCompleteRemoval : Bool}
    (hpart : isCompleteRemoval = false → events.hasTileEvent item = true →
      w.lastCacheTile ≠ some tile) :
    events.Remembered (onRemoveTileItem
      (withItems w tile (itemsWithout (w.items tile) item isCompleteRemoval)) tile item) := by
  by_cases hcached : w.lastCacheTile = some tile
  · have hlast (items : List ι) : ¬ (withItems w tile items).lastCacheTile ≠ some tile :=
      not_not.mpr hcached
    rw [onRemoveTileItem, if_neg (hlast _)]
    apply remembered_withItems hcached
    have herase := (h tile hcached).erase item
    show ((clearFirst item w.lastCacheItemVector).reduceOption).Perm _
    rw [reduceOption_clearFirst]
    apply herase.trans
    cases isCompleteRemoval with
    | true =>
      rw [List.erase_filter]
      exact List.Perm.refl _
    | false =>
      have hnone : events.hasTileEvent item ≠ true := fun hhas => hpart rfl hhas hcached
      rw [List.erase_of_not_mem fun hin => hnone (List.mem_filter.mp hin).2]
      exact List.Perm.refl _
  · have hlast (items : List ι) : (withItems w tile items).lastCacheTile ≠ some tile := hcached
    rw [onRemoveTileItem, if_pos (hlast _)]
    exact remembered_withItems_of_ne h hcached _

/-! ## Runs -/

/-- Which tile an action asks for events, of what type, and the item that is moved. -/
def asked : TileNotification τ ι → Option (τ × MoveEventType × Option ι)
  | .creatureAdded tile => some (tile, .stepIn, none)
  | .creatureRemoved tile hasNewTile => if hasNewTile then some (tile, .stepOut, none) else none
  | .itemAdded tile item _ => some (tile, .addItemItemTile, some item)
  | .itemRemoved tile item _ hasNewParent =>
    if hasNewParent then some (tile, .removeItemItemTile, some item) else none

/-- The events of the position and of the item that is moved. -/
def ownEvents (events : MoveEvents τ ι ε) : TileNotification τ ι → List (Fired ι ε)
  | .creatureAdded tile => ((events.getTileEvent tile .stepIn).map .position).toList
  | .creatureRemoved tile _ => ((events.getTileEvent tile .stepOut).map .position).toList
  | .itemAdded tile item _ => ((events.getTileEvent tile .addItem).map .position).toList ++
      ((events.getEvent item .addItem).map .item).toList
  | .itemRemoved tile item _ _ => ((events.getTileEvent tile .removeItem).map .position).toList ++
      ((events.getEvent item .removeItem).map .item).toList

/-- The world when the events are fired. -/
def changed (events : MoveEvents τ ι ε) (w : TileWorld τ ι) : TileNotification τ ι → Option (TileWorld τ ι)
  | .creatureAdded _ | .creatureRemoved _ _ => some w
  | .itemAdded tile item index =>
    if item ∉ itemsWith (w.items tile) item index then none
    else some (events.onAddTileItem
      (withItems w tile (itemsWith (w.items tile) item index)) tile item)
  | .itemRemoved tile item isCompleteRemoval _ =>
    if item ∉ w.items tile then none
    else some (onRemoveTileItem
      (withItems w tile (itemsWithout (w.items tile) item isCompleteRemoval)) tile item)

/-- What an action fires in a world. -/
def fire (events : MoveEvents τ ι ε) (w : TileWorld τ ι) (a : TileNotification τ ι) :
    TileWorld τ ι × List (Fired ι ε) :=
  match asked a with
  | none => (w, [])
  | some (tile, eventType, moved) =>
    let (w, fired) := events.fireTileItems w tile eventType moved
    (w, events.ownEvents a ++ fired)

/-- An action changes the tile and fires then. -/
theorem step_eq (w : TileWorld τ ι) (a : TileNotification τ ι) :
    events.step w a = (events.changed w a).map fun w => events.fire w a := by
  cases a with
  | creatureAdded tile => rfl
  | creatureRemoved tile hasNewTile => cases hasNewTile <;> rfl
  | itemAdded tile item index =>
    rw [step, changed]
    dsimp only
    split
    · rfl
    · rfl
  | itemRemoved tile item isCompleteRemoval hasNewParent =>
    rw [step, changed]
    dsimp only
    split
    · rfl
    · cases hasNewParent <;> rfl

/-- An item with a tile event is only added to the tile that is remembered; in part it is only removed
from another tile, and to nowhere. -/
def Careful (events : MoveEvents τ ι ε) (w : TileWorld τ ι) : TileNotification τ ι → Prop
  | .creatureAdded _ | .creatureRemoved _ _ => True
  | .itemAdded tile item _ => events.hasTileEvent item = true → w.lastCacheTile = some tile
  | .itemRemoved tile item isCompleteRemoval hasNewParent =>
    isCompleteRemoval = false → events.hasTileEvent item = true →
      w.lastCacheTile ≠ some tile ∧ hasNewParent = false

/-- An item lies on a tile once. -/
def Distinct (w : TileWorld τ ι) : Prop := ∀ tile, (w.items tile).Nodup

/-- The runs from an empty cache. -/
def system (events : MoveEvents τ ι ε) :
    Transition.System (TileWorld τ ι) (TileNotification τ ι) :=
  .ofStep (fun w => w.lastCacheTile = none ∧ w.lastCacheItemVector = [] ∧ Distinct w)
    fun w a => (events.step w a).map Prod.fst

variable {a : TileNotification τ ι}

omit [DecidableEq τ] [DecidableEq ι] in
theorem ofTile_of_asked (h : asked a = some (tile, eventType, moved)) : OfTile eventType := by
  have hmem : ∀ asked', asked a = some asked' → OfTile asked'.2.1 := by
    cases a with
    | creatureAdded tile =>
      rintro _ ⟨rfl⟩
      exact Or.inl rfl
    | creatureRemoved tile hasNewTile =>
      cases hasNewTile with
      | false => exact fun _ hnone => absurd hnone (Option.some_ne_none _).symm
      | true =>
        rintro _ ⟨rfl⟩
        exact Or.inr (Or.inl rfl)
    | itemAdded tile item index =>
      rintro _ ⟨rfl⟩
      exact Or.inr (Or.inr (Or.inl rfl))
    | itemRemoved tile item isCompleteRemoval hasNewParent =>
      cases hasNewParent with
      | false => exact fun _ hnone => absurd hnone (Option.some_ne_none _).symm
      | true =>
        rintro _ ⟨rfl⟩
        exact Or.inr (Or.inr (Or.inr rfl))
  exact hmem _ h

omit [DecidableEq ι] in
theorem distinct_withItems (hdistinct : Distinct w) {items : List ι} (hitems : items.Nodup) :
    Distinct (withItems w tile items) := by
  intro tile'
  by_cases heq : tile' = tile
  · rw [heq, withItems]
    dsimp only
    rw [Function.update_self]
    exact hitems
  · rw [withItems]
    dsimp only
    rw [Function.update_of_ne heq]
    exact hdistinct tile'

/-- The hooks keep what is remembered right, and of which tile. -/
theorem changed_spec (h : events.Remembered w) (hdistinct : Distinct w)
    (hcareful : events.Careful w a) (hchanged : events.changed w a = some w') :
    events.Remembered w' ∧ Distinct w' ∧ w'.lastCacheTile = w.lastCacheTile := by
  cases a with
  | creatureAdded tile =>
    obtain rfl := Option.some.inj hchanged
    exact ⟨h, hdistinct, rfl⟩
  | creatureRemoved tile hasNewTile =>
    obtain rfl := Option.some.inj hchanged
    exact ⟨h, hdistinct, rfl⟩
  | itemAdded tile item index =>
    rw [changed] at hchanged
    split at hchanged
    · exact absurd hchanged (Option.some_ne_none _).symm
    · next hitem =>
      obtain rfl := Option.some.inj hchanged
      have hitems : (itemsWith (w.items tile) item index).Nodup := by
        rcases itemsWith_cases (not_not.mp hitem) with ⟨_, hsame⟩ | ⟨hnew, hadded⟩
        · rw [hsame]
          exact hdistinct tile
        · exact hadded.nodup_iff.mpr (List.nodup_cons.mpr ⟨hnew, hdistinct tile⟩)
      have hworld : Distinct (withItems w tile _) := distinct_withItems hdistinct hitems
      obtain ⟨hsame, hlast⟩ := events.onAddTileItem_frame
        (withItems w tile (itemsWith (w.items tile) item index)) tile item
      refine ⟨remembered_onAddTileItem h (not_not.mp hitem), ?_, hlast⟩
      rw [Distinct, hsame]
      exact hworld
  | itemRemoved tile item isCompleteRemoval hasNewParent =>
    rw [changed] at hchanged
    split at hchanged
    · exact absurd hchanged (Option.some_ne_none _).symm
    · obtain rfl := Option.some.inj hchanged
      have hitems : (itemsWithout (w.items tile) item isCompleteRemoval).Nodup := by
        rw [itemsWithout]
        split
        · exact (hdistinct tile).erase item
        · exact hdistinct tile
      have hworld : Distinct (withItems w tile _) := distinct_withItems hdistinct hitems
      obtain ⟨hsame, hlast⟩ := onRemoveTileItem_frame
        (withItems w tile (itemsWithout (w.items tile) item isCompleteRemoval)) tile item
      refine ⟨remembered_onRemoveTileItem h fun hpart hhas => (hcareful hpart hhas).1, ?_, hlast⟩
      rw [Distinct, hsame]
      exact hworld

/-- The item that is moved is not on the tile or has no tile event, unless the tile is remembered. -/
theorem moved_of_careful (hdistinct : Distinct w) (hcareful : events.Careful w a)
    (hchanged : events.changed w a = some w') (hasked : asked a = some (tile, eventType, moved)) :
    w.lastCacheTile = some tile ∨
      ∀ i ∈ w'.items tile, moved = some i → events.hasTileEvent i = false := by
  cases a with
  | creatureAdded tile' =>
    obtain ⟨_, _, rfl⟩ := hasked
    exact Or.inr fun i _ hnone => absurd hnone (Option.some_ne_none i).symm
  | creatureRemoved tile' hasNewTile =>
    cases hasNewTile with
    | false => exact absurd hasked (Option.some_ne_none _).symm
    | true =>
      obtain ⟨_, _, rfl⟩ := hasked
      exact Or.inr fun i _ hnone => absurd hnone (Option.some_ne_none i).symm
  | itemAdded tile' item index =>
    obtain ⟨rfl, _, rfl⟩ := hasked
    by_cases hhas : events.hasTileEvent item = true
    · exact Or.inl (hcareful hhas)
    · apply Or.inr
      rintro i _ ⟨rfl⟩
      exact Bool.not_eq_true _ ▸ hhas
  | itemRemoved tile' item isCompleteRemoval hasNewParent =>
    cases hasNewParent with
    | false => exact absurd hasked (Option.some_ne_none _).symm
    | true =>
      obtain ⟨rfl, _, rfl⟩ := hasked
      apply Or.inr
      rintro i hi ⟨rfl⟩
      rw [changed] at hchanged
      split at hchanged
      · exact absurd hchanged (Option.some_ne_none _).symm
      obtain rfl := Option.some.inj hchanged
      cases isCompleteRemoval with
      | true =>
        -- it has been taken from the tile
        have hitems : (onRemoveTileItem (withItems w tile (itemsWithout (w.items tile) item true))
            tile item).items tile = (w.items tile).erase item := by
          rw [(onRemoveTileItem_frame _ tile item).1]
          exact Function.update_self _ _ _
        rw [hitems] at hi
        exact absurd hi (hdistinct tile).not_mem_erase
      | false =>
        by_contra hhas
        rw [Bool.not_eq_false] at hhas
        exact absurd (hcareful rfl hhas).2 (by decide)

/-- What is fired for an action, and the world after it. -/
theorem fire_eq (hasked : asked a = some (tile, eventType, moved)) :
    events.fire w a = ((events.fireTileItems w tile eventType moved).1,
      events.ownEvents a ++ (events.fireTileItems w tile eventType moved).2) := by
  rw [fire, hasked]

theorem fire_eq_of_none (hasked : asked a = none) : events.fire w a = (w, []) := by
  rw [fire, hasked]

theorem fire_items (w : TileWorld τ ι) (a : TileNotification τ ι) :
    (events.fire w a).1.items = w.items := by
  cases hasked : asked a with
  | none => rw [fire_eq_of_none hasked]
  | some asked' =>
    rw [fire_eq hasked, fireTileItems]
    dsimp only
    split <;> rfl

/-- What holds in every state of a careful run. -/
theorem remembered_of_reachable (h : (events.system.restrict events.Careful).Reachable w) :
    events.Remembered w ∧ Distinct w := by
  apply h.invariant (fun w => events.Remembered w ∧ Distinct w)
  · rintro w ⟨hnone, _, hdistinct⟩
    refine ⟨fun tile htile => ?_, hdistinct⟩
    rw [hnone] at htile
    exact absurd htile (Option.some_ne_none tile).symm
  · rintro w a t ⟨hremembered, hdistinct⟩ ⟨hcareful, hstep⟩
    have hstep' : (events.step w a).map Prod.fst = some t := hstep
    rw [step_eq, Option.map_map, Option.map_eq_some_iff] at hstep'
    obtain ⟨w', hchanged, rfl⟩ := hstep'
    obtain ⟨hremembered', hdistinct', hlast⟩ := changed_spec hremembered hdistinct hcareful hchanged
    refine ⟨?_, ?_⟩
    · show events.Remembered (events.fire w' a).1
      cases hasked : asked a with
      | none =>
        rw [fire_eq_of_none hasked]
        exact hremembered'
      | some asked' =>
        rw [fire_eq hasked]
        apply remembered_fireTileItems (ofTile_of_asked hasked) hremembered'
        rw [hlast]
        exact moved_of_careful hdistinct hcareful hchanged hasked
    · intro tile
      show ((events.fire w' a).1.items tile).Nodup
      rw [fire_items]
      exact hdistinct' tile

/-- The world with an empty cache. -/
def forget (w : TileWorld τ ι) : TileWorld τ ι :=
  { w with lastCacheTile := none, lastCacheItemVector := [] }

/-- With an empty cache the tile changes in the same way, and the cache stays empty until then. -/
theorem changed_forget (hchanged : events.changed w a = some w') :
    ∃ w'', events.changed (forget w) a = some w'' ∧ w''.items = w'.items ∧
      w''.lastCacheTile = none := by
  cases a with
  | creatureAdded tile =>
    obtain rfl := Option.some.inj hchanged
    exact ⟨forget w, rfl, rfl, rfl⟩
  | creatureRemoved tile hasNewTile =>
    obtain rfl := Option.some.inj hchanged
    exact ⟨forget w, rfl, rfl, rfl⟩
  | itemAdded tile item index =>
    rw [changed] at hchanged
    split at hchanged
    · exact absurd hchanged (Option.some_ne_none _).symm
    · next hitem =>
      obtain rfl := Option.some.inj hchanged
      refine ⟨_, if_neg hitem, ?_, (events.onAddTileItem_frame _ tile item).2⟩
      rw [(events.onAddTileItem_frame _ tile item).1, (events.onAddTileItem_frame _ tile item).1]
      rfl
  | itemRemoved tile item isCompleteRemoval hasNewParent =>
    rw [changed] at hchanged
    split at hchanged
    · exact absurd hchanged (Option.some_ne_none _).symm
    · next hitem =>
      obtain rfl := Option.some.inj hchanged
      refine ⟨_, if_neg hitem, ?_, (onRemoveTileItem_frame _ tile item).2⟩
      rw [(onRemoveTileItem_frame _ tile item).1, (onRemoveTileItem_frame _ tile item).1]
      rfl

omit [DecidableEq τ] in
theorem mem_filterMap_tileItemEvent {items : List ι} {i : ι} {event : ε} :
    Fired.tileItem i event ∈ items.filterMap (events.tileItemEvent eventType moved) ↔
      i ∈ items ∧ moved ≠ some i ∧ events.getEvent i eventType = some event := by
  rw [List.mem_filterMap]
  apply Iff.intro
  · rintro ⟨i', hi', hfired⟩
    rw [tileItemEvent] at hfired
    split at hfired
    · exact absurd hfired (Option.some_ne_none _).symm
    · next hmoved =>
      obtain ⟨event', hevent, heq⟩ := Option.map_eq_some_iff.mp hfired
      obtain ⟨rfl, rfl⟩ := Fired.tileItem.inj heq
      exact ⟨hi', hmoved, hevent⟩
  · rintro ⟨hi, hmoved, hevent⟩
    refine ⟨i, hi, ?_⟩
    rw [tileItemEvent, if_neg hmoved, hevent]
    rfl

omit [DecidableEq τ] [DecidableEq ι] in
theorem tileItem_not_mem_ownEvents (a : TileNotification τ ι) (i : ι) (event : ε) :
    Fired.tileItem i event ∉ events.ownEvents a := by
  cases a <;> simp [ownEvents]

/-- In a careful run every step fires what it would fire with an empty cache: the events of the type
that is asked for of the items on the tile, except for the one that is moved. -/
theorem fired_of_reachable (h : (events.system.restrict events.Careful).Reachable w)
    (hcareful : events.Careful w a) {fired : List (Fired ι ε)}
    (hstep : events.step w a = some (w', fired)) :
    (∃ w'' fired', events.step (forget w) a = some (w'', fired') ∧ fired.Perm fired') ∧
    ∀ i event, Fired.tileItem i event ∈ fired ↔ ∃ tile eventType moved,
      asked a = some (tile, eventType, moved) ∧ i ∈ w'.items tile ∧ moved ≠ some i ∧
        events.getEvent i eventType = some event := by
  obtain ⟨hremembered, hdistinct⟩ := remembered_of_reachable h
  rw [step_eq, Option.map_eq_some_iff] at hstep
  obtain ⟨w1, hchanged, hfire⟩ := hstep
  -- the cache is right after the change, with what it held before or without
  obtain ⟨hremembered1, _, _⟩ := changed_spec hremembered hdistinct hcareful hchanged
  obtain ⟨w2, hchanged2, hitems2, hnone⟩ := changed_forget hchanged
  have hitems : w'.items = w1.items := by
    rw [← fire_items w1 a, hfire]
  have hremembered2 : events.Remembered w2 := by
    intro tile htile
    rw [hnone] at htile
    exact absurd htile (Option.some_ne_none tile).symm
  rw [step_eq, hchanged2]
  cases hasked : asked a with
  | none =>
    have hfired : fired = [] := by
      rw [fire_eq_of_none hasked] at hfire
      exact (congrArg Prod.snd hfire).symm
    refine ⟨⟨(events.fire w2 a).1, (events.fire w2 a).2, rfl, ?_⟩, ?_⟩
    · rw [fire_eq_of_none hasked, hfired]
    · intro i event
      rw [hfired]
      refine ⟨fun hin => absurd hin List.not_mem_nil, ?_⟩
      rintro ⟨_, _, _, hsome, _⟩
      exact absurd hsome (Option.some_ne_none _).symm
  | some asked' =>
    obtain ⟨tile, eventType, moved⟩ := asked'
    have htype := ofTile_of_asked hasked
    have hfired : fired = events.ownEvents a ++ (events.fireTileItems w1 tile eventType moved).2 := by
      rw [fire_eq hasked] at hfire
      exact (congrArg Prod.snd hfire).symm
    have hperm : (events.fireTileItems w1 tile eventType moved).2.Perm
        ((w1.items tile).filterMap (events.tileItemEvent eventType moved)) :=
      fireTileItems_snd htype hremembered1
    refine ⟨⟨(events.fire w2 a).1, (events.fire w2 a).2, rfl, ?_⟩, ?_⟩
    · have hfresh : (events.fireTileItems w2 tile eventType moved).2.Perm
          ((w2.items tile).filterMap (events.tileItemEvent eventType moved)) :=
        fireTileItems_snd htype hremembered2
      rw [hitems2] at hfresh
      rw [fire_eq hasked, hfired]
      exact (hperm.trans hfresh.symm).append_left _
    · intro i event
      rw [hfired, List.mem_append, hperm.mem_iff, mem_filterMap_tileItemEvent, ← hitems]
      apply Iff.intro
      · intro hin
        have hon := hin.resolve_left (tileItem_not_mem_ownEvents a i event)
        exact ⟨tile, eventType, moved, rfl, hon⟩
      · rintro ⟨_, _, _, ⟨rfl⟩, hon⟩
        exact Or.inr hon

/-- The item 0 is a trap with an event for creatures that step on it. -/
def trapEvents : MoveEvents ℕ ℕ ℕ where
  uniqueIdMap := fun _ => none
  actionIdMap := fun _ => none
  itemIdMap := fun id =>
    if id = 2579 then some fun eventType => if eventType = .stepIn then [1] else [] else none
  positionMap := fun _ => none
  keys := fun item => { uniqueId := 0, actionId := 0, id := if item = 0 then 2579 else 4526 }

/-- Grass on every tile. -/
def meadow : TileWorld ℕ ℕ where
  items := fun _ => [1]
  lastCacheTile := none
  lastCacheItemVector := []

theorem meadow_reachable : (trapEvents.system.restrict trapEvents.Careful).Reachable meadow := by
  apply Transition.System.Reachable.init
  exact ⟨rfl, rfl, fun _ => List.nodup_cons.mpr ⟨List.not_mem_nil, List.nodup_nil⟩⟩

/-- A trap on a tile that is remembered. -/
def trapped : TileWorld ℕ ℕ where
  items := Function.update meadow.items 0 [1, 0]
  lastCacheTile := some 0
  lastCacheItemVector := [some 0]

/-- A creature steps on the tile before the trap is put there. -/
theorem trapped_reachable : (trapEvents.system.restrict trapEvents.Careful).Reachable trapped := by
  have hfirst : (trapEvents.system.restrict trapEvents.Careful).Reachable
      { meadow with lastCacheTile := some 0 } :=
    Transition.reachable_restrict_step meadow_reachable (.creatureAdded 0) True.intro rfl
  exact Transition.reachable_restrict_step hfirst (.itemAdded 0 0 1) (fun _ => rfl) rfl

theorem fired_of_reachable_trapped :
    (∃ w'' fired', trapEvents.step (forget trapped) (.creatureAdded 0) = some (w'', fired') ∧
      [Fired.tileItem 0 1].Perm fired') ∧
    ∀ i event, Fired.tileItem i event ∈ [Fired.tileItem 0 1] ↔ ∃ tile eventType moved,
      asked (TileNotification.creatureAdded 0 : TileNotification ℕ ℕ) = some (tile, eventType, moved) ∧
        i ∈ trapped.items tile ∧ moved ≠ some i ∧ trapEvents.getEvent i eventType = some event :=
  fired_of_reachable (a := .creatureAdded 0) trapped_reachable True.intro rfl

/-- A trap on a tile that was not remembered before it was put there. -/
def forgotten : TileWorld ℕ ℕ where
  items := Function.update meadow.items 0 [1, 0]
  lastCacheTile := some 0
  lastCacheItemVector := []

/-- The trap does not fire: putting it there has made its tile the remembered one, without it. -/
theorem forgotten_trap_does_not_fire :
    ¬ ∀ (w w' : TileWorld ℕ ℕ) (a : TileNotification ℕ ℕ) (fired : List (Fired ℕ ℕ)),
      trapEvents.system.Reachable w → trapEvents.step w a = some (w', fired) →
        ∃ w'' fired', trapEvents.step (forget w) a = some (w'', fired') ∧ fired.Perm fired' := by
  intro hclaim
  have hreach : trapEvents.system.Reachable forgotten :=
    meadow_reachable.of_restrict.step (a := .itemAdded 0 0 1) (t := forgotten) rfl
  obtain ⟨w'', fired', hstep, hperm⟩ := hclaim forgotten forgotten (.creatureAdded 0) [] hreach rfl
  have hfired : [Fired.tileItem 0 1] = fired' := congrArg Prod.snd (Option.some.inj hstep)
  rw [← hfired] at hperm
  exact absurd hperm.length_eq (by decide)

end MoveEvents

end TyanoCore
