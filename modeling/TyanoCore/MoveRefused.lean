import TyanoCore.Exchange
import TyanoCore.FiniteWorld

/-!
# Moves that are refused

`Game::internalMoveItem` checks a move before it takes the item from its source.  Where the destination
asks for an exchange, the item in the way goes to the source first, and the checks are made once more.
-/

namespace TyanoCore

/-- The slots, the lists and the counts of two worlds are the same. -/
structure SameCylinders (w w' : World) : Prop where
  inventory : ∀ p, (w'.player p).inventory = (w.player p).inventory
  itemlist : ∀ j, (w'.item j).itemlist = (w.item j).itemlist
  ground : ∀ t, (w'.tile t).ground = (w.tile t).ground
  topItems : ∀ t, (w'.tile t).topItems = (w.tile t).topItems
  downItems : ∀ t, (w'.tile t).downItems = (w.tile t).downItems
  count : ∀ i, (w'.item i).count = (w.item i).count

section

variable (srv : Server) (w : World)

/-- An exchange with the item in the way begins: the destination asks for one, the source takes the item
in the way, and the destination lets it go. -/
def Game.exchangeBegins (fromCylinder : Cylinder) (d : Destination) (item : ItemId) (count : ℕ)
    (toItem : ItemId) : Prop :=
  let toItemCount := (w.item toItem).count
  let fromIndex := Cylinder.getIndexOfThing w fromCylinder item
  let room := Cylinder.queryMaxCount w fromCylinder (-1) toItem toItemCount {}
  d.destItem = some toItem ∧ toItem ≠ item ∧
    Cylinder.queryAdd srv w d.cylinder d.index item count d.flags = .needExchange ∧
      Cylinder.queryAdd srv w fromCylinder fromIndex toItem toItemCount {} = .noError ∧
        ¬ (room.2 ≠ .noError ∧ room.1 = 0) ∧
          Cylinder.queryRemove w d.cylinder toItem toItemCount d.flags = .noError

end

variable {srv : Server} {w w' : World}

theorem SameCylinders.refl (w : World) : SameCylinders w w :=
  ⟨fun _ => rfl, fun _ => rfl, fun _ => rfl, fun _ => rfl, fun _ => rfl, fun _ => rfl⟩

/-- Nothing is missing from a slot or among the down items of a tile. -/
structure Complete (w w' : World) : Prop where
  slot : ∀ p, ∀ s ∈ slots, ∀ i, (w.player p).inventory s = some i →
    (w'.player p).inventory s = some i
  down : ∀ t i, i ∈ (w.tile t).downItems → i ∈ (w'.tile t).downItems

theorem SameCylinders.complete (h : SameCylinders w w') : Complete w w' := by
  refine ⟨?_, ?_⟩
  · intro p s _ i hi
    rw [h.inventory]
    exact hi
  · intro t i hi
    rw [h.downItems]
    exact hi

/-! ## What adding to a tile leaves alone -/

/-- Only one tile changes, and no container does. -/
structure OnTile (u : TileId) (w w' : World) : Prop where
  tile : ∀ t, t ≠ u → w'.tile t = w.tile t
  itemlist : ∀ j, (w'.item j).itemlist = (w.item j).itemlist
  player : w'.player = w.player
  next : w'.next = w.next

variable {u t : TileId} {i : ItemId}

theorem OnTile.refl (u : TileId) (w : World) : OnTile u w w :=
  ⟨fun _ _ => rfl, fun _ => rfl, rfl, rfl⟩

theorem OnTile.setItem (h : OnTile u w w') (i : ItemId) {item : Item}
    (hitem : item.itemlist = (w'.item i).itemlist) : OnTile u w (w'.setItem i item) := by
  refine ⟨h.tile, ?_, h.player, h.next⟩
  intro j
  rw [← h.itemlist j, World.setItem]
  dsimp only
  split
  · next hj => rw [hj, hitem]
  · rfl

theorem OnTile.setParent (h : OnTile u w w') (i : ItemId) (parent : Option Cylinder) :
    OnTile u w (w'.setParent i parent) := h.setItem i rfl

theorem OnTile.setTile (h : OnTile u w w') (tile : Tile) : OnTile u w (w'.setTile u tile) := by
  refine ⟨?_, h.itemlist, h.player, h.next⟩
  intro t ht
  rw [← h.tile t ht]
  exact if_neg ht

theorem OnTile.removeThing (h : OnTile u w w') (i : ItemId) (n : ℕ) :
    OnTile u w (Tile.removeThing w' u i n) := by
  unfold Tile.removeThing
  dsimp only
  split
  · exact h
  split
  · exact (h.setParent i none).setTile _
  split
  · split
    · exact (h.setParent i none).setTile _
    · exact h
  split
  · split
    · exact h.setItem i rfl
    · exact (h.setParent i none).setTile _
  · exact h

/-- What is added to a tile comes to lie on its target. -/
theorem addThing_tile_eq (t : TileId) (index : ℤ) (i : ItemId) :
    Cylinder.addThing srv w (.tile t) index i =
      match Cylinder.target srv w (.tile t) i with
      | some u => Tile.addThingHere srv w u i
      | none => w := by
  rw [Cylinder.addThing, Tile.addThing, Cylinder.target]
  split
  · cases srv.getAvailableItemForwardingTile w t i with
    | none => rfl
    | some u => rfl
  · rfl

/-- Without an index nobody gets a thing into a slot. -/
theorem addThing_player (c : Cylinder) (i : ItemId) :
    (Cylinder.addThing srv w c 0 i).player = w.player := by
  cases c with
  | container j => exact Container.addThing_player j 0 i
  | player p => rfl
  | tile t =>
    rw [addThing_tile_eq]
    split
    · exact Tile.addThingHere_player _ i
    · rfl

/-! ## What is done to things that have been added -/

/-- No item that was there has come to a slot or among the down items of a tile. -/
structure Withdrawn (w w' : World) : Prop where
  slot : ∀ p s i, i < w.next → (w'.player p).inventory s = some i →
    (w.player p).inventory s = some i
  down : ∀ t i, i < w.next → i ∈ (w'.tile t).downItems → i ∈ (w.tile t).downItems

theorem withdrawn_of_eq (hplayer : w'.player = w.player) (htile : w'.tile = w.tile) :
    Withdrawn w w' := by
  refine ⟨?_, ?_⟩
  · intro p s i _ hi
    rw [← hplayer]
    exact hi
  · intro t i _ hi
    rw [← htile]
    exact hi

theorem SameItems.withdrawn (h : SameItems w w') : Withdrawn w w' :=
  withdrawn_of_eq h.player h.tile

theorem Withdrawn.sameItems {w'' : World} (h : Withdrawn w w') (hs : SameItems w' w'') :
    Withdrawn w w'' := by
  refine ⟨?_, ?_⟩
  · intro p s i hlt hi
    rw [hs.player] at hi
    exact h.slot p s i hlt hi
  · intro t i hlt hi
    rw [hs.tile] at hi
    exact h.down t i hlt hi

theorem Withdrawn.of_sameItems {w'' : World} (hs : SameItems w w') (h : Withdrawn w' w'') :
    Withdrawn w w'' := by
  refine ⟨?_, ?_⟩
  · intro p s i hlt hi
    rw [← hs.player]
    exact h.slot p s i (by rw [hs.next]; exact hlt) hi
  · intro t i hlt hi
    rw [← hs.tile]
    exact h.down t i (by rw [hs.next]; exact hlt) hi

theorem Withdrawn.setTile (h : Withdrawn w w') {tile : Tile}
    (hdown : ∀ i ∈ tile.downItems, i ∈ (w.tile t).downItems) : Withdrawn w (w'.setTile t tile) := by
  refine ⟨h.slot, ?_⟩
  intro u i hlt hi
  rw [World.setTile] at hi
  dsimp only at hi
  split at hi
  · next hu =>
    rw [hu]
    exact hdown i hi
  · exact h.down u i hlt hi

/-- The world after the two updates of the first half of an exchange. -/
def Game.displaced (srv : Server) (w : World) (fromCylinder c : Cylinder) (toItem : ItemId) : World :=
  Cylinder.addThing srv (Cylinder.removeThing srv w c toItem (w.item toItem).count) fromCylinder 0 toItem

variable {fromCylinder : Cylinder} {toItem : ItemId}

theorem eq_cons_erase_iff {l : List ItemId} : toItem :: l.erase toItem = l ↔
    l.head? = some toItem := by
  cases l with
  | nil => simp
  | cons a l =>
    rw [List.head?_cons, Option.some_inj]
    apply Iff.intro
    · intro h
      exact (List.cons.inj h).1.symm
    · intro h
      rw [h, List.erase_cons_head]

variable (srv) in
/-- An item that takes nothing's place lies in front of the other ones, and is what it was or a water
ball. -/
theorem Tile.addThingHere_down (hroom : Tile.HasRoom w t)
    (hground : (w.item i).kind.isGroundTile = false) (htop : (w.item i).kind.alwaysOnTop = false)
    (hold : Tile.oldItem w t i = none) :
    ∃ kind, (kind = (w.item i).kind ∨ kind.id = itemWaterball) ∧ Tile.addThingHere srv w t i =
      (w.setItem i { w.item i with parent := some (.tile t), kind := kind }).setTile t
        { w.tile t with downItems := i :: (w.tile t).downItems, hasItemList := true } := by
  obtain ⟨hthing, hsize⟩ := hroom
  rw [Tile.addThingHere]
  dsimp only
  rw [hthing, hground, htop, hold, Bool.not_true, if_neg Bool.false_ne_true, if_neg (by omega),
    if_neg Bool.false_ne_true, if_neg Bool.false_ne_true, Option.any_none,
    if_neg Bool.false_ne_true]
  dsimp only
  split
  · split
    · next waterball hkind =>
      have hitem : (w.setParent i (some (.tile t))).item i =
          { w.item i with parent := some (.tile t) } := if_pos rfl
      refine ⟨waterball, .inr (srv.items.kind_id hkind), ?_⟩
      rw [hitem, World.setParent, setItem_setItem]
      rfl
    · exact ⟨(w.item i).kind, .inl rfl, rfl⟩
  · exact ⟨(w.item i).kind, .inl rfl, rfl⟩

/-- An item has been taken from the front of a tile, which has room for it again. -/
structure TakenOff (w w₁ : World) (t : TileId) (toItem : ItemId) : Prop where
  front : (w.tile t).downItems.head? = some toItem
  moved : Moved w w₁ toItem none
  on : OnTile t w w₁
  tile : w₁.tile t = { w.tile t with downItems := (w.tile t).downItems.erase toItem }

theorem TakenOff.mem {w₁ : World} (h : TakenOff w w₁ t toItem) :
    toItem ∈ (w.tile t).downItems := List.mem_of_head? h.front

theorem TakenOff.kind {w₁ : World} (h : TakenOff w w₁ t toItem) :
    (w₁.item toItem).kind = (w.item toItem).kind := Item.core_kind (h.moved.core toItem)

/-- What the tile is like when an item that is no ground and takes nothing's place lies there again. -/
theorem TakenOff.addThingHere {w₁ : World} (h : TakenOff w w₁ t toItem) (hw : Forest srv w)
    (hroom : Tile.HasRoom w₁ t) (hground : (w.item toItem).kind.isGroundTile = false)
    (hold : Tile.oldItem w₁ t toItem = none) :
    ∃ kind, (kind = (w.item toItem).kind ∨ kind.id = itemWaterball) ∧
      Tile.addThingHere srv w₁ t toItem =
        (w₁.setItem toItem { w₁.item toItem with parent := some (.tile t), kind := kind }).setTile t
          { w₁.tile t with downItems := (w.tile t).downItems, hasItemList := true } := by
  have htop : (w₁.item toItem).kind.alwaysOnTop = false := by
    rw [h.kind]
    exact hw.sorted.down t toItem h.mem
  have hdown := Tile.addThingHere_down srv hroom (by rw [h.kind]; exact hground) htop hold
  rw [h.tile, eq_cons_erase_iff.mpr h.front, h.kind] at hdown
  rw [h.tile]
  exact hdown

/-- An item that is no ground and takes nothing's place is where it was when it lies there again. -/
theorem TakenOff.back {w₁ : World} (h : TakenOff w w₁ t toItem) (hw : Forest srv w)
    (hroom : Tile.HasRoom w₁ t) (hground : (w.item toItem).kind.isGroundTile = false)
    (hold : Tile.oldItem w₁ t toItem = none) :
    SameCylinders w (Tile.addThingHere srv w₁ t toItem) := by
  obtain ⟨kind, -, heq⟩ := h.addThingHere hw hroom hground hold
  have hlisted : OnTile t w (Tile.addThingHere srv w₁ t toItem) := by
    rw [heq]
    apply OnTile.setTile
    apply h.on.setItem
    rfl
  have hsame : (Tile.addThingHere srv w₁ t toItem).tile t =
      { w₁.tile t with downItems := (w.tile t).downItems, hasItemList := true } := by
    rw [heq, setTile_tile]
  have hother {t' : TileId} (ht : t' ≠ t) := hlisted.tile t' ht
  refine ⟨?_, hlisted.itemlist, ?_, ?_, ?_, ?_⟩
  · intro p
    rw [hlisted.player]
  · intro t'
    by_cases ht : t' = t
    · rw [ht, hsame, h.tile]
    · rw [hother ht]
  · intro t'
    by_cases ht : t' = t
    · rw [ht, hsame, h.tile]
    · rw [hother ht]
  · intro t'
    by_cases ht : t' = t
    · rw [ht, hsame]
    · rw [hother ht]
  · intro i
    rw [heq, ← Item.core_count (h.moved.core i)]
    show ((w₁.setItem toItem _).item i).count = _
    rw [World.setItem]
    dsimp only
    split
    · next hi => rw [hi]
    · rfl

theorem SameCylinders.things_tile (h : SameCylinders w w') (t : TileId) :
    w'.things (.tile t) = w.things (.tile t) := by
  simp only [World.things, Tile.items, h.ground, h.topItems, h.downItems]

/-- A cylinder that leaves the item alone does so when it lies there again. -/
theorem TakenOff.inert {w₁ : World} (h : TakenOff w w₁ t toItem) (hw : Forest srv w)
    (hroom : Tile.HasRoom w₁ t) (hground : (w.item toItem).kind.isGroundTile = false)
    (hold : Tile.oldItem w₁ t toItem = none) {c : Cylinder} (hinert : w.Inert c toItem) :
    (Tile.addThingHere srv w₁ t toItem).Inert c toItem := by
  obtain ⟨kind, hkind, heq⟩ := h.addThingHere hw hroom hground hold
  have hself : ((Tile.addThingHere srv w₁ t toItem).item toItem).kind = kind := by
    rw [heq]
    exact congrArg Item.kind (if_pos rfl)
  have hother (j : ItemId) (hj : j ≠ toItem) :
      ((Tile.addThingHere srv w₁ t toItem).item j).kind = (w.item j).kind := by
    rw [heq, ← Item.core_kind (h.moved.core j)]
    exact congrArg Item.kind (if_neg hj)
  intro f hc
  obtain ⟨htrash, hmail⟩ := hinert f hc
  rw [(h.back hw hroom hground hold).things_tile f]
  refine ⟨?_, ?_⟩
  · intro j hj htype
    by_contra hne
    rw [hother j hne] at htype
    exact hne (htrash j hj htype)
  · intro hsend j hj
    rw [Mailbox.canSend, hself] at hsend
    cases hkind with
    | inl hkept =>
      -- it is what it was
      rw [hkept] at hsend
      by_cases hne : j = toItem
      · rw [hne, hself, hkept]
        exact hmail hsend toItem (hne ▸ hj)
      · rw [hother j hne]
        exact hmail hsend j hj
    | inr hwater =>
      -- a water ball is neither a parcel nor a letter
      rw [hwater] at hsend
      exact absurd hsend (by decide)

/-- No container asks for an exchange. -/
theorem Game.exchangeBegins.not_container (hw : Forest srv w) {d : Destination} {item : ItemId}
    {count : ℕ} (hbegins : Game.exchangeBegins srv w fromCylinder d item count toItem) (k : ItemId) :
    d.cylinder ≠ .container k := by
  obtain ⟨-, -, hneeds, -, -, hremove⟩ := hbegins
  have hmem := (queryRemove_noError hremove).1
  intro hcylinder
  rw [hcylinder] at hneeds hmem
  have hcontainer := (hw.container toItem k ((hw.mem_things _ _).mp hmem)).1
  cases howner : d.flags.childIsOwner with
  | true =>
    rw [Cylinder.queryAdd, Container.queryAdd, howner, if_pos rfl] at hneeds
    cases hneeds
  | false => exact Container.queryAdd_ne_needExchange howner hcontainer hneeds

namespace SmallWorld

end SmallWorld

end TyanoCore
