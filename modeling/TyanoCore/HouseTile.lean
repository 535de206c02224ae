import Mathlib.Data.List.Sort
import TyanoCore.HouseItems
import TyanoCore.TileIndex

/-!
# Tiles of houses

`IOMapSerialize::saveTile`, which walks over the things of a tile from behind, and `loadItem` for a tile.
A tile is seen with the trees of its items here; `ofTile` is this view of a `TileState`.
-/

namespace TyanoCore

open PropStream StoredItem

/-- A tile with what is in its items. -/
structure HouseTile where
  ground : Option ItemTree := none
  /-- Items that are not always on top, then those that are. -/
  items : List ItemTree := []
  downItemCount : ℕ := 0
  creatures : List ℕ := []
  thingCount : ℕ := 0

/-- What `__getThing` finds. -/
inductive HouseThing where
  | item (t : ItemTree)
  | creature (c : ℕ)

namespace ItemTree

variable (t : ItemTree)

def kind : StoredKind := t.label.kind

/-- The item comes before those on top of a higher order. -/
def Below (t t' : ItemTree) : Prop := t.kind.alwaysOnTopOrder < t'.kind.alwaysOnTopOrder

instance : DecidableRel Below := fun _ _ => inferInstanceAs (Decidable (_ < _))

/-- `isMoveable()` or `forceSerialize()`. -/
def isSaved : Bool :=
  t.kind.moveable || t.kind.forceSerialize || t.kind.canWriteText || t.kind.isContainer ||
    t.kind.isBed

/-- `loadItem` makes the item again on a tile. -/
def isRemade : Bool := t.kind.moveable || t.kind.forceSerialize

end ItemTree

/-- An item that is saved. -/
def HouseThing.saved : HouseThing → Option ItemTree
  | .item t => if t.isSaved then some t else none
  | .creature _ => none

namespace HouseTile

variable (tile : HouseTile)

def downItems : List ItemTree := tile.items.take tile.downItemCount
def topItems : List ItemTree := tile.items.drop tile.downItemCount

/-! ## Saving -/

/-- `Tile::__getThing` behind the ground. -/
def getThingOf (index : ℕ) : Option HouseThing :=
  match tile.topItems[index]? with
  | some t => some (.item t)
  | none =>
    let index := index - tile.topItems.length
    match tile.creatures[index]? with
    | some c => some (.creature c)
    | none => (tile.downItems[index - tile.creatures.length]?).map .item

/-- `Tile::__getThing`. -/
def getThing (index : ℕ) : Option HouseThing :=
  match tile.ground, index with
  | some ground, 0 => some (.item ground)
  | some _, index + 1 => tile.getThingOf index
  | none, index => tile.getThingOf index

/-- The loop of `saveTile`. -/
def savedItems : ℕ → List ItemTree
  | 0 => []
  | tileCount + 1 =>
    match tile.getThing tileCount with
    | some (.item t) => if t.isSaved then t :: savedItems tileCount else savedItems tileCount
    | _ => savedItems tileCount

/-- `IOMapSerialize::saveTile`. -/
def saveTile (position : Position) : List UInt8 :=
  let items := tile.savedItems tile.thingCount
  if items = [] then []
  else addUShort position.x ++ (addUShort position.y ++ (addUChar position.z ++
    (addULong items.length ++ items.flatMap saveItem)))

/-! ## Loading -/

/-- `Tile::hasRoomForThing` for an item. -/
def hasRoomForItem : Bool :=
  if maxIndex ≤ tile.thingCount then false
  else if !tile.creatures.isEmpty then true
  else if maxIndex ≤ tile.thingCount + 1 then false
  else true

/-- `Tile::__internalAddThing` adds the item. -/
def takes (t : ItemTree) : Bool :=
  tile.hasRoomForItem && tile.items.length < 0xFFFF &&
    !(t.kind.isGroundTile && tile.ground.isSome)

/-- What `Tile::__internalAddThing` makes of the tile then. -/
def place (t : ItemTree) : HouseTile :=
  if t.kind.isGroundTile then { tile with ground := some t, thingCount := tile.thingCount + 1 }
  else if t.kind.alwaysOnTop then
    { tile with
      items := tile.downItems ++ tile.topItems.orderedInsert ItemTree.Below t
      thingCount := tile.thingCount + 1 }
  else
    { tile with
      items := t :: tile.items
      downItemCount := tile.downItemCount + 1
      thingCount := tile.thingCount + 1 }

/-- `Tile::__internalAddThing`. -/
def internalAddThing (t : ItemTree) : HouseTile := if tile.takes t then tile.place t else tile

/-- `Tile::__internalAddThing` and `__startDecaying`, which does nothing to an item that was not added;
`none` where an item decays at once. -/
def add : Option LoadedItem → Option HouseTile
  | none => some tile
  | some (t, _) =>
    if tile.takes t then (startDecaying false t).map tile.place else some tile

/-- An item of the tile is the one that is meant by a kind. -/
def isMeant (kind : StoredKind) (id : KindId) (t : ItemTree) : Bool :=
  t.kind.id = id || (kind.type = .door && t.kind.createdClass = .door) ||
    (kind.isBed && t.kind.createdClass = .bed)

/-- The loop that looks for a stationary item. -/
def findItem (kind : StoredKind) (id : KindId) : Option ItemTree :=
  ((List.range tile.thingCount).filterMap fun index =>
    match tile.getThing index with
    | some (.item t) => if isMeant kind id t then some t else none
    | _ => none).head?

section Load

variable (kinds : KindId → Option StoredKind) (getNameByGuid : ℕ → Option (List UInt8))

/-- The properties of an item that are read when the map has changed since the last save; they are
dropped. -/
def skipItem (id : KindId) (s : PropStream) : Option PropStream :=
  match createItem kinds id 1 with
  | none => some s
  | some item =>
    let (_, item, s) := item.unserializeAttr getNameByGuid s
    if item.isContainer then
      (loadContainer (loadItemIn kinds getNameByGuid (s.length + 1)) true item.serializationCount {}
        s).map Prod.snd
    else some s

/-- A stationary item gets the properties that were saved, and then the kind unless they were wrong. -/
def updateItem (t : ItemTree) (id : KindId) (s : PropStream) :
    Option (ItemTree × Option KindId × PropStream) :=
  match t.label.unserializeAttr getNameByGuid s with
  | (false, item, s) => some (.node item t.children, none, s)
  | (true, item, s) =>
    if item.isContainer then
      (loadContainer (loadItemIn kinds getNameByGuid (s.length + 1)) false item.serializationCount
        { contents := t.children } s).map fun (c, s) =>
          (.node { item with serializationCount := 0 } c.contents, some id, s)
    else some (.node item t.children, some id, s)

/-- `IOMapSerialize::loadItem` for a tile; `transformItem` puts an item that has been updated in the
place of the one it was, and gives it its kind. -/
def loadItem (transformItem : HouseTile → ItemTree → ItemTree → Option KindId → HouseTile)
    (tile : HouseTile) (s : PropStream) : Option (HouseTile × PropStream) :=
  let id := getUShort s
  match kinds (id.1.getD 0) with
  | none => some (tile, id.2)
  | some kind =>
    if kind.moveable ∨ kind.forceSerialize then do
      let (item, s) ← loadItemIn kinds getNameByGuid (s.length + 1) s
      let tile ← tile.add item
      return (tile, s)
    else match tile.findItem kind (id.1.getD 0) with
    | some t => (updateItem kinds getNameByGuid t (id.1.getD 0) id.2).map fun (t', id, s) =>
        (transformItem tile t t' id, s)
    | none => (skipItem kinds getNameByGuid (id.1.getD 0) id.2).map fun s => (tile, s)

/-- The loop over the items of a tile. -/
def loadItems (transformItem : HouseTile → ItemTree → ItemTree → Option KindId → HouseTile) :
    ℕ → HouseTile → PropStream → Option (HouseTile × PropStream)
  | 0, tile, s => some (tile, s)
  | itemCount + 1, tile, s => do
    let (tile, s) ← loadItem kinds getNameByGuid transformItem tile s
    loadItems transformItem itemCount tile s

/-- What `loadMapBinary` reads for the tile at the position that comes first. -/
def loadTile (transformItem : HouseTile → ItemTree → ItemTree → Option KindId → HouseTile)
    (tile : HouseTile) (s : PropStream) : Option (HouseTile × PropStream) :=
  let x := getUShort s
  let y := getUShort x.2
  let z := getUChar y.2
  let itemCount := getULong z.2
  loadItems kinds getNameByGuid transformItem (itemCount.1.getD 0) tile itemCount.2

end Load

/-! ## The view of a tile -/

/-- A tile with the trees of its items. -/
def ofTile (s : TileState) (tree : ItemId → ItemTree) : HouseTile where
  ground := s.ground.map tree
  items := s.items.map tree
  downItemCount := s.downItemCount
  creatures := s.creatures
  thingCount := s.thingCount

/-- An item is inserted before the first one that it comes before. -/
theorem insertIdx_findIdx {α : Type} (r : α → α → Prop) [DecidableRel r] (a : α) (l : List α) :
    l.insertIdx (l.findIdx fun b => decide (r a b)) a = l.orderedInsert r a := by
  induction l with
  | nil => rfl
  | cons b l ih =>
    rw [List.findIdx_cons, List.orderedInsert_cons]
    by_cases h : r a b
    · rw [decide_eq_true h, if_pos h]
      rfl
    · rw [decide_eq_false h, if_neg h]
      exact (List.insertIdx_succ_cons).trans (congrArg _ ih)

theorem ofTile_insertTop (s : TileState) (tree : ItemId → ItemTree) (i : ItemId)
    (hkind : ∀ j, (tree j).kind.toItemKind = (s.item j).kind.toItemKind) :
    (ofTile (s.insertTop (s.topItems.findIdx fun top =>
      decide ((s.item i).kind.alwaysOnTopOrder < (s.item top).kind.alwaysOnTopOrder)) i) tree).items =
      (ofTile s tree).downItems ++
        (ofTile s tree).topItems.orderedInsert ItemTree.Below (tree i) := by
  have horder (j : ItemId) : (tree j).kind.alwaysOnTopOrder = (s.item j).kind.alwaysOnTopOrder :=
    congrArg ItemKind.alwaysOnTopOrder (hkind j)
  have hinsert := insertIdx_findIdx
    (fun j k => (s.item j).kind.alwaysOnTopOrder < (s.item k).kind.alwaysOnTopOrder) i s.topItems
  have hmap := List.map_orderedInsert
    (fun j k => (s.item j).kind.alwaysOnTopOrder < (s.item k).kind.alwaysOnTopOrder)
    ItemTree.Below tree s.topItems i
    (fun j _ => by rw [ItemTree.Below, horder, horder])
    (fun j _ => by rw [ItemTree.Below, horder, horder])
  have hdown : (ofTile s tree).downItems = s.downItems.map tree := List.map_take.symm
  have htop : (ofTile s tree).topItems = s.topItems.map tree := List.map_drop.symm
  rw [hdown, htop, ← hmap, ← hinsert, ← List.map_append]
  rfl

/-- Adding an item means the same in the view. -/
theorem ofTile_internalAddThing (s : TileState) (tree : ItemId → ItemTree) (i : ItemId)
    (hkind : ∀ j, (tree j).kind.toItemKind = (s.item j).kind.toItemKind) :
    ofTile (s.internalAddThing i) tree = (ofTile s tree).internalAddThing (tree i) := by
  have hground : (tree i).kind.isGroundTile = (s.item i).isGroundTile :=
    congrArg ItemKind.isGroundTile (hkind i)
  have hontop : (tree i).kind.alwaysOnTop = (s.item i).isAlwaysOnTop :=
    congrArg ItemKind.alwaysOnTop (hkind i)
  have hroom : (ofTile s tree).hasRoomForItem = s.hasRoomForItem := rfl
  have hlength : (ofTile s tree).items.length = s.items.length := List.length_map _
  have hsome : (ofTile s tree).ground.isSome = s.ground.isSome := Option.isSome_map
  have hinsert := ofTile_insertTop s tree i hkind
  unfold TileState.internalAddThing internalAddThing takes place
  dsimp only
  rw [hground, hontop, hroom, hlength, hsome]
  by_cases hfull : s.hasRoomForItem = true ∧ s.items.length < 0xFFFF
  · obtain ⟨hfull, hlength⟩ := hfull
    rw [hfull, decide_eq_true hlength, if_neg (Nat.not_le_of_lt hlength)]
    simp only [Bool.not_true, Bool.false_eq_true, if_false, Bool.and_true, Bool.true_and]
    cases (s.item i).isGroundTile with
    | true =>
      cases hnone : s.ground with
      | some _ => rfl
      | none => rfl
    | false =>
      cases (s.item i).isAlwaysOnTop with
      | true =>
        rw [← hinsert]
        rfl
      | false => rfl
  · have htakes : (s.hasRoomForItem && decide (s.items.length < 0xFFFF)) = false := by
      rw [Bool.eq_false_iff, ne_eq, Bool.and_eq_true, decide_eq_true_iff]
      exact hfull
    rw [htakes, Bool.false_and, if_neg Bool.false_ne_true]
    cases hnone : s.hasRoomForItem with
    | false => rfl
    | true =>
      have hlong : 0xFFFF ≤ s.items.length := not_lt.mp fun h => hfull ⟨hnone, h⟩
      rw [if_pos hlong]
      rfl

/-! ## What is saved -/

variable {tile : HouseTile}

/-- The counts agree, the tile is not full, and items are where they belong. -/
structure WellFormed (tile : HouseTile) : Prop where
  thingCount : tile.thingCount =
    (if tile.ground.isSome then 1 else 0) + tile.items.length + tile.creatures.length
  bounded : tile.thingCount ≤ maxIndex
  /-- Without creatures there is room for one. -/
  spare : tile.creatures = [] → tile.thingCount < maxIndex
  split : tile.downItemCount ≤ tile.items.length
  down : ∀ t ∈ tile.downItems, t.kind.alwaysOnTop = false
  top : ∀ t ∈ tile.topItems, t.kind.alwaysOnTop = true
  sorted : tile.topItems.Pairwise fun t t' => ¬ t'.Below t
  no_ground : ∀ t ∈ tile.items, t.kind.isGroundTile = false

/-- The things in the order of `__getThing`. -/
def things (tile : HouseTile) : List HouseThing :=
  tile.ground.toList.map .item ++ (tile.topItems.map .item ++
    (tile.creatures.map .creature ++ tile.downItems.map .item))

theorem getThing_eq (index : ℕ) : tile.getThing index = tile.things[index]? := by
  have hbehind (index : ℕ) : tile.getThingOf index = (tile.topItems.map HouseThing.item ++
      (tile.creatures.map .creature ++ tile.downItems.map .item))[index]? := by
    unfold getThingOf
    rw [List.getElem?_append, List.getElem?_append, List.length_map, List.length_map,
      List.getElem?_map, List.getElem?_map, List.getElem?_map]
    by_cases htop : index < tile.topItems.length
    · rw [if_pos htop, List.getElem?_eq_getElem htop]
      rfl
    · rw [if_neg htop, List.getElem?_eq_none (not_lt.mp htop)]
      dsimp only
      by_cases hcreature : index - tile.topItems.length < tile.creatures.length
      · rw [if_pos hcreature, List.getElem?_eq_getElem hcreature]
        rfl
      · rw [if_neg hcreature, List.getElem?_eq_none (not_lt.mp hcreature)]
  unfold getThing things
  cases tile.ground with
  | none => exact hbehind index
  | some ground =>
    cases index with
    | zero => rfl
    | succ index => exact hbehind index

theorem savedItems_eq (tileCount : ℕ) :
    tile.savedItems tileCount = (tile.things.take tileCount).reverse.filterMap HouseThing.saved := by
  induction tileCount with
  | zero => rfl
  | succ tileCount ih =>
    rw [savedItems, getThing_eq, List.take_add_one, List.reverse_append, List.filterMap_append, ih]
    cases tile.things[tileCount]? with
    | none => rfl
    | some thing =>
      cases thing with
      | creature c => rfl
      | item t =>
        dsimp only
        rw [Option.toList_some, List.reverse_singleton, List.filterMap_cons, HouseThing.saved]
        split <;> rfl

/-- The tile is saved from behind, without its creatures. -/
theorem savedItems_wellFormed (h : tile.WellFormed) (hground : ∀ t ∈ tile.ground, t.isSaved = false)
    (hsaved : ∀ t ∈ tile.items, t.isSaved = true) :
    tile.savedItems tile.thingCount = tile.downItems.reverse ++ tile.topItems.reverse := by
  have hitems (ts : List ItemTree) (hts : ∀ t ∈ ts, t ∈ tile.items) :
      (ts.map HouseThing.item).filterMap HouseThing.saved = ts := by
    rw [List.filterMap_map]
    apply (List.filterMap_congr ?_).trans List.filterMap_some
    intro t ht
    exact if_pos (hsaved t (hts t ht))
  have hcreatures : (tile.creatures.map HouseThing.creature).filterMap HouseThing.saved = [] := by
    rw [List.filterMap_map, List.filterMap_eq_nil_iff]
    exact fun _ _ => rfl
  have hnone : (tile.ground.toList.map HouseThing.item).filterMap HouseThing.saved = [] := by
    rw [List.filterMap_map, List.filterMap_eq_nil_iff]
    intro t ht
    exact if_neg (by rw [hground t (Option.mem_toList.mp ht)]; decide)
  have hlength : tile.things.length = tile.thingCount := by
    have hparts : tile.downItems.length + tile.topItems.length = tile.items.length := by
      rw [downItems, topItems, List.length_take, List.length_drop]
      have := h.split
      omega
    rw [h.thingCount, things]
    simp only [List.length_append, List.length_map]
    cases tile.ground <;> simp <;> omega
  rw [savedItems_eq, ← hlength, List.take_length, List.filterMap_reverse, things,
    List.filterMap_append, List.filterMap_append, List.filterMap_append, hnone, hcreatures,
    hitems tile.topItems fun t ht => List.mem_of_mem_drop ht,
    hitems tile.downItems fun t ht => List.mem_of_mem_take ht, List.nil_append, List.nil_append,
    List.reverse_append]

/-! ## What is loaded -/

/-- The ground and the creatures of a tile with some items. -/
def stacked (tile : HouseTile) (down top : List ItemTree) : HouseTile :=
  { tile with
    items := down ++ top
    downItemCount := down.length
    thingCount :=
      (if tile.ground.isSome then 1 else 0) + (down.length + top.length) + tile.creatures.length }

/-- The tile without its items. -/
def emptied (tile : HouseTile) : HouseTile := tile.stacked [] []

theorem downItems_stacked (down top : List ItemTree) : (tile.stacked down top).downItems = down :=
  List.take_left

theorem topItems_stacked (down top : List ItemTree) : (tile.stacked down top).topItems = top :=
  List.drop_left

/-- There is room for some more items. -/
def Room (tile : HouseTile) (n : ℕ) : Prop :=
  tile.thingCount + n ≤ maxIndex ∧ (tile.creatures = [] → tile.thingCount + n < maxIndex) ∧
    tile.items.length ≤ tile.thingCount

variable {t : ItemTree}

theorem Room.takes {n : ℕ} (h : tile.Room (n + 1)) (ht : t.kind.isGroundTile = false) :
    tile.takes t = true := by
  obtain ⟨hbounded, hspare, hlength⟩ := h
  have hfull : ¬ maxIndex ≤ tile.thingCount := by omega
  have hroom : tile.hasRoomForItem = true := by
    unfold hasRoomForItem
    rw [if_neg hfull]
    cases hcreatures : tile.creatures with
    | nil =>
      have hlast : ¬ maxIndex ≤ tile.thingCount + 1 := by
        have := hspare hcreatures
        omega
      rw [if_neg hlast]
      rfl
    | cons c creatures => rfl
  have hshort : tile.items.length < 0xFFFF := by
    have : maxIndex < 0xFFFF := by decide
    omega
  rw [HouseTile.takes, hroom, decide_eq_true hshort, ht]
  rfl

theorem place_stacked_down (down top : List ItemTree) (ht : t.kind.isGroundTile = false)
    (hdown : t.kind.alwaysOnTop = false) :
    (tile.stacked down top).place t = tile.stacked (t :: down) top := by
  unfold place
  rw [ht, hdown]
  simp only [stacked, Bool.false_eq_true, if_false, List.cons_append, List.length_cons]
  congr 1
  omega

theorem place_stacked_top (down top : List ItemTree) (ht : t.kind.isGroundTile = false)
    (htop : t.kind.alwaysOnTop = true) :
    (tile.stacked down top).place t =
      tile.stacked down (top.orderedInsert ItemTree.Below t) := by
  unfold place
  rw [ht, htop, downItems_stacked, topItems_stacked]
  simp only [stacked, Bool.false_eq_true, if_false, if_true, List.orderedInsert_length]
  congr 1
  omega

theorem Room.place {n : ℕ} (h : tile.Room (n + 1)) (ht : t.kind.isGroundTile = false) :
    (tile.place t).Room n := by
  obtain ⟨hbounded, hspare, hlength⟩ := h
  unfold HouseTile.place Room
  rw [ht]
  cases t.kind.alwaysOnTop with
  | true =>
    have hparts : tile.downItems.length + tile.topItems.length = tile.items.length := by
      rw [downItems, topItems, List.length_take, List.length_drop]
      omega
    simp only [Bool.false_eq_true, if_false, if_true, List.length_append,
      List.orderedInsert_length]
    refine ⟨by omega, fun hcreatures => ?_, by omega⟩
    have := hspare hcreatures
    omega
  | false =>
    simp only [Bool.false_eq_true, if_false, List.length_cons]
    refine ⟨by omega, fun hcreatures => ?_, by omega⟩
    have := hspare hcreatures
    omega

section Load

variable {kinds : KindId → Option StoredKind} {getNameByGuid : ℕ → Option (List UInt8)}
variable {transformItem : HouseTile → ItemTree → ItemTree → Option KindId → HouseTile}
variable {rest : PropStream}

/-- A saved item that is made again when it is loaded for a tile. -/
structure Remade (kinds : KindId → Option StoredKind) (t : ItemTree) : Prop where
  remade : t.isRemade = true
  restorable : t.All (Restorable kinds)
  lasting : t.All fun item _ => Lasting item
  no_ground : t.kind.isGroundTile = false

/-- An item as it comes back on a tile. -/
def back (getNameByGuid : ℕ → Option (List UInt8)) : ItemTree → ItemTree :=
  OrderedTree.map (started getNameByGuid false)

theorem Remade.restored (ht : Remade kinds t) :
    t.All fun item _ => item.Restored (started getNameByGuid false item) :=
  restored_started ht.restorable (ht.lasting.imp fun _ _ h _ => h)

theorem Remade.kind_back (ht : Remade kinds t) : (back getNameByGuid t).kind = t.kind := by
  obtain ⟨item, contents⟩ := t
  have hkind : (started getNameByGuid false item).kind = item.kind := ht.restored.root.kind
  rw [back, OrderedTree.map_node]
  exact hkind

/-- An item that is loaded is placed on the tile. -/
theorem loadItem_remade (ht : Remade kinds t) {tile : HouseTile} {n : ℕ} (hroom : tile.Room (n + 1))
    (hshort : Short (saveItem t ++ rest)) :
    loadItem kinds getNameByGuid transformItem tile (saveItem t ++ rest) =
      some (tile.place (back getNameByGuid t), rest) := by
  have hlasting := ht.lasting.imp fun _ _ h (_ : false = false) => h
  have hload := @loadItemIn_saveItem kinds getNameByGuid t ht.restorable
    ((saveItem t ++ rest).length + 1) hshort rest (Nat.lt_succ_self _)
  have hdecay : startDecaying false (t.map (rebuilt getNameByGuid)) = some (back getNameByGuid t) :=
    startDecaying_rebuilt ht.restorable hlasting
  have hremade : t.kind.moveable ∨ t.kind.forceSerialize := by
    have := ht.remade
    rw [ItemTree.isRemade, Bool.or_eq_true] at this
    exact this
  have hid : (getUShort (saveItem t ++ rest)).1.getD 0 = t.kind.id ∧ kinds t.kind.id = some t.kind := by
    obtain ⟨item, contents⟩ := t
    rw [saveItem_node, List.append_assoc] at hshort ⊢
    have hread := getValue_leBytes ht.restorable.root.id_lt hshort
    exact ⟨congrArg (fun read => read.1.getD 0) hread, ht.restorable.root.known⟩
  have htakes : tile.takes (t.map (rebuilt getNameByGuid)) = true := by
    apply hroom.takes
    obtain ⟨item, contents⟩ := t
    have hkind : (rebuilt getNameByGuid item).kind = item.kind :=
      ht.restorable.root.restored_rebuilt.kind
    rw [OrderedTree.map_node, ItemTree.kind, OrderedTree.label, hkind]
    exact ht.no_ground
  have hadd : tile.add (some (t.map (rebuilt getNameByGuid), ItemTree.weight t)) =
      some (tile.place (back getNameByGuid t)) := by
    rw [add, if_pos htakes, hdecay]
    rfl
  rw [loadItem]
  dsimp only
  rw [hid.1, hid.2]
  dsimp only
  rw [if_pos hremade, hload, Option.bind_eq_bind, Option.bind_some]
  dsimp only
  rw [hadd]
  rfl

/-- The items that are loaded are placed one after the other. -/
theorem loadItems_flatMap {ts : List ItemTree} (hts : ∀ t ∈ ts, Remade kinds t) {tile : HouseTile}
    (hroom : tile.Room ts.length) (hshort : Short (ts.flatMap saveItem ++ rest)) :
    loadItems kinds getNameByGuid transformItem ts.length tile (ts.flatMap saveItem ++ rest) =
      some ((ts.map (back getNameByGuid)).foldl place tile, rest) := by
  induction ts generalizing tile with
  | nil => rfl
  | cons t ts ih =>
    rw [List.flatMap_cons, List.append_assoc] at hshort ⊢
    have ht := hts t List.mem_cons_self
    have hback : (back getNameByGuid t).kind.isGroundTile = false := by
      rw [ht.kind_back]
      exact ht.no_ground
    rw [List.length_cons, loadItems, loadItem_remade ht hroom hshort, Option.bind_eq_bind,
      Option.bind_some]
    dsimp only
    rw [ih (fun t ht => hts t (List.mem_cons_of_mem _ ht)) (hroom.place hback) hshort.right,
      List.map_cons, List.foldl_cons]

end Load

/-- The items of a tile, placed in the order in which they are saved. -/
theorem foldl_place (down top : List ItemTree)
    (hdown : ∀ t ∈ down, t.kind.isGroundTile = false ∧ t.kind.alwaysOnTop = false)
    (htop : ∀ t ∈ top, t.kind.isGroundTile = false ∧ t.kind.alwaysOnTop = true) :
    (down.reverse ++ top.reverse).foldl place tile.emptied =
      tile.stacked down (top.insertionSort ItemTree.Below) := by
  have hlower : down.reverse.foldl place tile.emptied = tile.stacked down [] := by
    rw [List.foldl_reverse]
    induction down with
    | nil => rfl
    | cons t down ih =>
      obtain ⟨hground, hontop⟩ := hdown t List.mem_cons_self
      rw [List.foldr_cons, ih fun t ht => hdown t (List.mem_cons_of_mem _ ht)]
      exact place_stacked_down down [] hground hontop
  rw [List.foldl_append, hlower, List.foldl_reverse]
  induction top with
  | nil => rfl
  | cons t top ih =>
    obtain ⟨hground, hontop⟩ := htop t List.mem_cons_self
    rw [List.foldr_cons, ih fun t ht => htop t (List.mem_cons_of_mem _ ht),
      List.insertionSort_cons]
    exact place_stacked_top down _ hground hontop

/-- Where each item goes behind those of the same order, the order is kept. -/
theorem pairwise_insertionSort (ts : List ItemTree) :
    (ts.insertionSort ItemTree.Below).Pairwise fun t t' => ¬ t'.Below t := by
  have hinsert (t : ItemTree) (ts : List ItemTree) (hts : ts.Pairwise fun t t' => ¬ t'.Below t) :
      (ts.orderedInsert ItemTree.Below t).Pairwise fun t t' => ¬ t'.Below t := by
    induction ts with
    | nil => exact List.pairwise_singleton _ _
    | cons t' ts ih =>
      rw [List.pairwise_cons] at hts
      rw [List.orderedInsert_cons]
      split
      · next hbelow =>
        rw [List.pairwise_cons, List.pairwise_cons]
        refine ⟨fun t'' ht'' => ?_, hts⟩
        rcases List.mem_cons.mp ht'' with rfl | hmem
        · exact lt_asymm hbelow
        · have hle := hts.1 t'' hmem
          unfold ItemTree.Below at *
          omega
      · next hbelow =>
        rw [List.pairwise_cons]
        refine ⟨fun t'' ht'' => ?_, ih hts.2⟩
        rcases (List.mem_orderedInsert _).mp ht'' with rfl | hmem
        · exact hbelow
        · exact hts.1 t'' hmem
  induction ts with
  | nil => exact .nil
  | cons t ts ih => exact hinsert t _ ih

/-- A tile has its items again: those that are not on top in their order, and those on top in the order
of their kinds, which is their own where no two kinds have the same. -/
structure Reloaded (f : ItemTree → ItemTree) (tile tile' : HouseTile) : Prop where
  ground : tile'.ground = tile.ground
  creatures : tile'.creatures = tile.creatures
  down : tile'.downItems = tile.downItems.map f
  top : tile'.topItems.Perm (tile.topItems.map f)
  sorted : tile'.topItems.Pairwise fun t t' => ¬ t'.Below t
  distinct : tile.topItems.Pairwise ItemTree.Below → tile'.topItems = tile.topItems.map f

section Load

variable {kinds : KindId → Option StoredKind} {getNameByGuid : ℕ → Option (List UInt8)}
variable {transformItem : HouseTile → ItemTree → ItemTree → Option KindId → HouseTile}
variable {rest : PropStream} {position : Position}

theorem reloaded_stacked (hitems : ∀ t ∈ tile.topItems, Remade kinds t) :
    Reloaded (back getNameByGuid) tile (tile.stacked (tile.downItems.map (back getNameByGuid))
      ((tile.topItems.map (back getNameByGuid)).insertionSort ItemTree.Below)) where
  ground := rfl
  creatures := rfl
  down := downItems_stacked _ _
  top := by
    rw [topItems_stacked]
    exact List.perm_insertionSort _ _
  sorted := by
    rw [topItems_stacked]
    exact pairwise_insertionSort _
  distinct := by
    intro hdistinct
    rw [topItems_stacked]
    apply List.Pairwise.insertionSort_eq
    rw [List.pairwise_map]
    apply hdistinct.imp_of_mem
    intro t t' ht ht' hbelow
    rw [ItemTree.Below, (hitems t ht).kind_back, (hitems t' ht').kind_back]
    exact hbelow

/-- The position and the number of items are read. -/
theorem loadTile_header {n : ℕ} (hn : n < 2 ^ 32) {s : PropStream}
    (hshort : Short (addUShort position.x ++ (addUShort position.y ++ (addUChar position.z ++
      (addULong n ++ s))))) :
    loadTile kinds getNameByGuid transformItem tile (addUShort position.x ++
        (addUShort position.y ++ (addUChar position.z ++ (addULong n ++ s)))) =
      loadItems kinds getNameByGuid transformItem n tile s := by
  have hx : getUShort (addUShort position.x ++ (addUShort position.y ++ (addUChar position.z ++
      (addULong n ++ s)))) =
        (some position.x, addUShort position.y ++ (addUChar position.z ++ (addULong n ++ s))) :=
    getValue_leBytes (Nat.lt_of_le_of_lt position.x_le (by decide)) hshort
  have hy : getUShort (addUShort position.y ++ (addUChar position.z ++ (addULong n ++ s))) =
      (some position.y, addUChar position.z ++ (addULong n ++ s)) :=
    getValue_leBytes (Nat.lt_of_le_of_lt position.y_le (by decide)) hshort.right
  have hz : getUChar (addUChar position.z ++ (addULong n ++ s)) =
      (some position.z, addULong n ++ s) :=
    getUChar_addUChar (Nat.lt_of_le_of_lt position.z_le (by decide)) hshort.right.right
  have hcount : getULong (addULong n ++ s) = (some n, s) :=
    getValue_leBytes hn hshort.right.right.right
  rw [loadTile, hx, hy, hz, hcount]
  rfl

theorem mem_items_of_down {t : ItemTree} (ht : t ∈ tile.downItems) : t ∈ tile.items :=
  List.mem_of_mem_take ht

theorem mem_items_of_top {t : ItemTree} (ht : t ∈ tile.topItems) : t ∈ tile.items :=
  List.mem_of_mem_drop ht

/-- Put on the emptied tile from the last one to the first, the items are stacked as before, up to
the order of those on top. -/
theorem WellFormed.foldl_place (h : tile.WellFormed) (hitems : ∀ t ∈ tile.items, Remade kinds t) :
    ((tile.downItems.reverse ++ tile.topItems.reverse).map (back getNameByGuid)).foldl place
        tile.emptied =
      tile.stacked (tile.downItems.map (back getNameByGuid))
        ((tile.topItems.map (back getNameByGuid)).insertionSort ItemTree.Below) := by
  rw [List.map_append, List.map_reverse, List.map_reverse]
  apply HouseTile.foldl_place
  · intro t' ht'
    obtain ⟨t, ht, rfl⟩ := List.mem_map.mp ht'
    rw [(hitems t (mem_items_of_down ht)).kind_back]
    exact ⟨h.no_ground t (mem_items_of_down ht), h.down t ht⟩
  · intro t' ht'
    obtain ⟨t, ht, rfl⟩ := List.mem_map.mp ht'
    rw [(hitems t (mem_items_of_top ht)).kind_back]
    exact ⟨h.no_ground t (mem_items_of_top ht), h.top t ht⟩

/-- The emptied tile has room for as many things as it had. -/
theorem WellFormed.room_emptied (h : tile.WellFormed) : tile.emptied.Room tile.items.length := by
  have hcount := h.thingCount
  have hbounded := h.bounded
  have hemptied : tile.emptied.thingCount =
      (if tile.ground.isSome then 1 else 0) + tile.creatures.length := rfl
  rw [Room, hemptied]
  refine ⟨by omega, fun hcreatures => ?_, Nat.zero_le _⟩
  have := h.spare hcreatures
  omega

/-- A tile that is saved and loaded again without its items has them again; nothing is written, and so
nothing read, for a tile that has none.  An item that is loaded is put on the tile as `__internalAddThing`
puts it on a tile of which the items are known by numbers. -/
theorem loadTile_saveTile (h : tile.WellFormed) (hground : ∀ t ∈ tile.ground, t.isSaved = false)
    (hitems : ∀ t ∈ tile.items, t.isRemade = true ∧ t.All (Restorable kinds) ∧
      t.All fun item _ => Lasting item)
    (hshort : Short (tile.saveTile position ++ rest)) :
    ∃ (f : StoredItem → StoredItem) (tile' : HouseTile),
      (∀ t ∈ tile.items, t.All fun item _ => item.Restored (f item)) ∧
      Reloaded (OrderedTree.map f) tile tile' ∧
      (if tile.saveTile position = [] then tile' = tile.emptied
      else loadTile kinds getNameByGuid transformItem tile.emptied (tile.saveTile position ++ rest) =
        some (tile', rest)) ∧
      ∀ (s : TileState) (tree : ItemId → ItemTree) (i : ItemId),
        (∀ j, (tree j).kind.toItemKind = (s.item j).kind.toItemKind) →
          (ofTile s tree).internalAddThing (tree i) = ofTile (s.internalAddThing i) tree := by
  have hremade (t : ItemTree) (ht : t ∈ tile.items) : Remade kinds t :=
    ⟨(hitems t ht).1, (hitems t ht).2.1, (hitems t ht).2.2, h.no_ground t ht⟩
  -- every item of the tile is saved, from the last one to the first
  have hsaved : tile.savedItems tile.thingCount = tile.downItems.reverse ++ tile.topItems.reverse := by
    apply savedItems_wellFormed h hground
    intro t ht
    have hremade := (hitems t ht).1
    rw [ItemTree.isRemade] at hremade
    rw [ItemTree.isSaved, hremade]
    rfl
  refine ⟨started getNameByGuid false, _, fun t ht => (hremade t ht).restored,
    reloaded_stacked fun t ht => hremade t (mem_items_of_top ht), ?_,
    fun s tree i hkind => (ofTile_internalAddThing s tree i hkind).symm⟩
  rw [← h.foldl_place hremade, ← hsaved]
  unfold saveTile at hshort ⊢
  dsimp only at hshort ⊢
  by_cases hempty : tile.savedItems tile.thingCount = []
  · -- there was nothing to save
    rw [if_pos hempty, if_pos rfl, hempty]
    rfl
  · have hlength : (tile.savedItems tile.thingCount).length = tile.items.length := by
      rw [hsaved, List.length_append, List.length_reverse, List.length_reverse, ← List.length_append,
        downItems, topItems, List.take_append_drop]
    have hroom : tile.emptied.Room (tile.savedItems tile.thingCount).length := by
      rw [hlength]
      exact h.room_emptied
    have hall : ∀ t ∈ tile.savedItems tile.thingCount, Remade kinds t := by
      intro t ht
      rw [hsaved, List.mem_append, List.mem_reverse, List.mem_reverse] at ht
      rcases ht with ht | ht
      · exact hremade t (mem_items_of_down ht)
      · exact hremade t (mem_items_of_top ht)
    rw [if_neg hempty] at hshort ⊢
    simp only [List.append_assoc] at hshort ⊢
    -- at least the header is written, so the tile is read
    have hbytes : ¬ addUShort position.x ++ (addUShort position.y ++ (addUChar position.z ++
        (addULong (tile.savedItems tile.thingCount).length ++
          (tile.savedItems tile.thingCount).flatMap saveItem))) = [] := by
      intro hnil
      have := congrArg List.length hnil
      rw [List.length_append, addUShort, Bytes.leBytes_length, List.length_nil] at this
      omega
    have hcount : (tile.savedItems tile.thingCount).length < 2 ^ 32 := by
      have hcount := h.thingCount
      have hbounded := h.bounded
      unfold maxIndex at hbounded
      omega
    rw [if_neg hbytes, loadTile_header hcount hshort]
    exact loadItems_flatMap hall hroom hshort.right.right.right.right

end Load

namespace Sample

def floor : StoredKind := { id := 405, group := .ground, moveable := false }
def rug : StoredKind := { id := 1842, alwaysOnTop := true, alwaysOnTopOrder := 2 }
def mat : StoredKind := { id := 1843, alwaysOnTop := true, alwaysOnTopOrder := 2 }
def lamp : StoredKind := { id := 2041, alwaysOnTop := true, alwaysOnTopOrder := 3 }
def chest : StoredKind := { id := 1740, group := .container, moveable := false }

def kinds (id : KindId) : Option StoredKind :=
  [floor, rug, mat, lamp, chest].find? fun kind => kind.id = id

def tree (kind : StoredKind) : ItemTree := .node { kind := kind } []

def home : Position :=
  ⟨100, 100, 7, Position.hundred_le_maxX, Position.hundred_le_maxY, Position.ground_le_maxZ⟩

/-- A tile with a ground and items on top. -/
def topTile (top : List StoredKind) : HouseTile :=
  { ground := some (tree floor), items := top.map tree, thingCount := top.length + 1 }

def chestTile : HouseTile :=
  { ground := some (tree floor), items := [tree chest], downItemCount := 1, thingCount := 2 }

/-- The kinds of the items of a tile that has been saved and loaded. -/
def reloadedKinds (tile : HouseTile) : Option (List KindId) :=
  (loadTile kinds (fun _ => none) (fun tile _ _ _ => tile) tile.emptied (tile.saveTile home)).map
    fun read => read.1.items.map fun t => t.kind.id

end Sample

open Sample

theorem restorable_tree {kind : StoredKind} (hkind : kind = rug ∨ kind = lamp) :
    (tree kind).All (Restorable kinds) := by
  refine .node ?_ fun t ht => absurd ht List.not_mem_nil
  rcases hkind with rfl | rfl
  all_goals
    constructor
    · constructor <;> simp [rug, lamp, StoredKind.createdClass, StoredKind.isContainer]
    all_goals decide

theorem loadTile_saveTile_rug :
    ∃ (f : StoredItem → StoredItem) (tile' : HouseTile),
      (∀ t ∈ (topTile [rug, lamp]).items, t.All fun item _ => item.Restored (f item)) ∧
      Reloaded (OrderedTree.map f) (topTile [rug, lamp]) tile' ∧
      loadTile kinds (fun _ => none) (fun tile _ _ _ => tile) (topTile [rug, lamp]).emptied
        ((topTile [rug, lamp]).saveTile home ++ []) = some (tile', []) := by
  have hwell : (topTile [rug, lamp]).WellFormed := by
    constructor <;> decide
  have hground : ∀ t ∈ (topTile [rug, lamp]).ground, t.isSaved = false := by
    intro t ht
    cases ht
    rfl
  have hlasting (kind : StoredKind) (hkind : kind = rug ∨ kind = lamp) :
      (tree kind).All fun item _ => Lasting item := by
    refine .node ?_ fun t ht => absurd ht List.not_mem_nil
    intro _ hdecayTo
    rcases hkind with rfl | rfl <;> exact absurd hdecayTo (by decide)
  have hitems : ∀ t ∈ (topTile [rug, lamp]).items,
      t.isRemade = true ∧ t.All (Restorable kinds) ∧ t.All fun item _ => Lasting item := by
    intro t ht
    rcases List.mem_pair.mp ht with rfl | rfl
    · exact ⟨rfl, restorable_tree (.inl rfl), hlasting rug (.inl rfl)⟩
    · exact ⟨rfl, restorable_tree (.inr rfl), hlasting lamp (.inr rfl)⟩
  have hshort : ((topTile [rug, lamp]).saveTile home ++ []).length < 2 ^ 31 := by decide
  obtain ⟨f, tile', hrestored, hreloaded, hload, -⟩ :=
    @loadTile_saveTile _ _ _ (fun tile _ _ _ => tile) _ _ hwell hground hitems hshort
  rw [if_neg (by decide)] at hload
  exact ⟨f, tile', hrestored, hreloaded, hload⟩

/-- Items of the same order change places, and a chest that cannot be moved is expected to be on the
tile already. -/
theorem rug_mat_swapped :
    (topTile [rug, mat]).WellFormed ∧ (topTile [rug, mat]).items.map ItemTree.kind = [rug, mat] ∧
      (∀ t ∈ (topTile [rug, mat]).items, t.isSaved = true) ∧
      reloadedKinds (topTile [rug, mat]) = some [mat.id, rug.id] ∧
    chestTile.WellFormed ∧ chestTile.items.map ItemTree.kind = [chest] ∧
      (∀ t ∈ chestTile.items, t.isSaved = true) ∧ reloadedKinds chestTile = some [] := by
  refine ⟨?_, rfl, by decide, rfl, ?_, rfl, by decide, rfl⟩
  · constructor <;> decide
  · constructor <;> decide

end HouseTile

end TyanoCore
