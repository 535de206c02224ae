import TyanoCore.Handout
import TyanoCore.Parents

/-!
# The first half of an exchange

What `Game::internalMoveItem` does when it takes the item in the way off its destination and puts it
into the source: which links change, what a tile gives up for it, and what becomes of the weights.
-/

namespace TyanoCore

variable {srv : Server} {w w' : World}

/-! ## Which item is in the way -/

/-- What `__queryDestination` says of the item at the destination. -/
def Destination.Found (w : World) (d : Destination) : Prop :=
  ∀ i, d.destItem = some i →
    match d.cylinder with
    | .container _ => True
    | .player p => Player.getThing w p d.index = some i
    | .tile t => (w.tile t).downItems.head? = some i

/-- Whether a magic field that cannot be replaced keeps an item off the tile. -/
def Tile.keepsOut (w : World) (t : TileId) (i : ItemId) : Bool :=
  !(w.item i).kind.isGroundTile && !(w.item i).kind.alwaysOnTop &&
    (Tile.oldItem w t i).any fun field => !(w.item field).kind.replaceable

/-- The item that a tile gives up for another one: its ground, a splash or a magic field. -/
def Tile.displaced (w : World) (t : TileId) (i : ItemId) : Option ItemId :=
  if (w.item i).kind.isGroundTile then (w.tile t).ground
  else if Tile.keepsOut w t i then none
  else Tile.oldItem w t i

/-- The kind of an item once it lies on a tile: a splash of a water ball becomes a water ball, unless
the tile has the flag of a trash holder. -/
def Tile.laidKind (srv : Server) (w : World) (t : TileId) (kind : ItemKind) : ItemKind :=
  if (!kind.isGroundTile && !kind.alwaysOnTop) = true ∧
      kind.id = itemWaterballSplash ∧ srv.trashHolderFlag w t = false then
    (srv.items.kind itemWaterball).getD kind
  else kind

/-- A tile without one of its items. -/
structure Tile.Less (tile tile' : Tile) (x : Option ItemId) : Prop where
  mem : ∀ j, j ∈ tile'.items ↔ j ∈ tile.items ∧ x ≠ some j
  creatures : tile'.creatures = tile.creatures
  protectionZone : tile'.protectionZone = tile.protectionZone
  hasItemList : tile'.hasItemList = tile.hasItemList
  ground : tile.ground ≠ none → tile'.ground ≠ none
  items_length : tile'.items.length ≤ tile.items.length
  lists_length : tile'.topItems.length + tile'.downItems.length ≤
    tile.topItems.length + tile.downItems.length

/-- A tile with one more item, for which it may have given up another one. -/
structure Tile.More (tile tile' : Tile) (i : ItemId) (x : Option ItemId) : Prop where
  mem : ∀ j, j ∈ tile'.items ↔ j = i ∨ j ∈ tile.items ∧ x ≠ some j
  creatures : tile'.creatures = tile.creatures
  protectionZone : tile'.protectionZone = tile.protectionZone
  hasItemList : tile.hasItemList = true → tile'.hasItemList = true
  ground : tile.ground ≠ none → tile'.ground ≠ none
  items_length : tile'.items.length ≤ tile.items.length + 1
  lists_length : tile'.topItems.length + tile'.downItems.length ≤
    tile.topItems.length + tile.downItems.length + 1

theorem Tile.Less.refl (tile : Tile) : Tile.Less tile tile none :=
  ⟨fun _ => by simp, rfl, rfl, rfl, id, le_rfl, le_rfl⟩

theorem Tile.Less.more {tile tile₁ tile' : Tile} {i : ItemId} {x : Option ItemId}
    (h : Tile.Less tile tile₁ x) (h' : Tile.More tile₁ tile' i none) :
    Tile.More tile tile' i x := by
  refine ⟨?_, h'.creatures.trans h.creatures, h'.protectionZone.trans h.protectionZone, ?_, ?_, ?_,
    ?_⟩
  · intro j
    rw [h'.mem, h.mem]
    simp only [ne_eq, reduceCtorEq, not_false_eq_true, and_true]
  · rw [← h.hasItemList]
    exact h'.hasItemList
  · exact fun hg => h'.ground (h.ground hg)
  · have := h.items_length
    have := h'.items_length
    omega
  · have := h.lists_length
    have := h'.lists_length
    omega

/-- Items of a tile lie there once. -/
theorem Tile.ground_ne {tile : Tile} (hnodup : tile.items.Nodup) {x : ItemId}
    (hx : x ∈ tile.topItems ∨ x ∈ tile.downItems) : tile.ground ≠ some x := by
  intro hg
  simp only [Tile.items, hg, Option.toList_some, List.cons_append, List.nil_append,
    List.nodup_cons, List.mem_append, not_or] at hnodup
  rcases hx with hx | hx
  · exact hnodup.1.1 hx
  · exact hnodup.1.2 hx

theorem Tile.disjoint {tile : Tile} (hnodup : tile.items.Nodup) {x : ItemId}
    (htop : x ∈ tile.topItems) : x ∉ tile.downItems := by
  intro hdown
  simp only [Tile.items, List.append_assoc] at hnodup
  exact List.disjoint_of_nodup_append (List.nodup_append.mp hnodup).2.1 htop hdown

theorem Tile.Less.of_top {tile : Tile} (hnodup : tile.items.Nodup) {x : ItemId}
    (hx : x ∈ tile.topItems) :
    Tile.Less tile { tile with topItems := tile.topItems.erase x } (some x) := by
  have hg := Tile.ground_ne hnodup (.inl hx)
  have hd := Tile.disjoint hnodup hx
  have htop : tile.topItems.Nodup := (List.nodup_append.mp (List.nodup_append.mp hnodup).1).2.1
  have hlength := List.length_erase_of_mem hx
  refine ⟨?_, rfl, rfl, rfl, id, ?_, ?_⟩
  · intro j
    simp only [Tile.items, List.mem_append, Option.mem_toList, htop.mem_erase_iff, ne_eq,
      Option.some.injEq]
    by_cases hj : x = j
    · subst hj
      simp [hg, hd]
    · simp [hj, Ne.symm hj]
  · simp only [Tile.items, List.length_append]
    omega
  · dsimp only
    omega

theorem Tile.More.of_top {tile : Tile} {i : ItemId} {topItems : List ItemId}
    (hperm : topItems.Perm (i :: tile.topItems)) :
    Tile.More tile { tile with topItems := topItems, hasItemList := true } i none := by
  have hlength := hperm.length_eq
  simp only [List.length_cons] at hlength
  refine ⟨?_, rfl, rfl, fun _ => rfl, id, ?_, ?_⟩
  · intro j
    simp only [Tile.items, List.mem_append, hperm.mem_iff, List.mem_cons, ne_eq, reduceCtorEq,
      not_false_eq_true, and_true]
    tauto
  · simp only [Tile.items, List.length_append]
    omega
  · dsimp only
    omega

theorem setTile_tile (t : TileId) (tile : Tile) : (w.setTile t tile).tile t = tile := if_pos rfl

/-- What putting an item that lies nowhere on a tile leaves behind: at most one other item loses
its place. -/
structure Laid (srv : Server) (w w' : World) (t : TileId) (i : ItemId) : Prop where
  core : ∀ j, j ≠ i → (w'.item j).core = (w.item j).core
  parent : ∀ j, j ≠ i → Tile.displaced w t i ≠ some j → (w'.item j).parent = (w.item j).parent
  parent_self : (w'.item i).parent = if Tile.keepsOut w t i then none else some (.tile t)
  kind_self : Tile.keepsOut w t i = false →
    (w'.item i).kind = Tile.laidKind srv w t (w.item i).kind
  tile_self : Tile.keepsOut w t i = false →
    Tile.More (w.tile t) (w'.tile t) i (Tile.displaced w t i)
  tile_kept : Tile.keepsOut w t i = true → w'.tile t = w.tile t
  tile_other : ∀ u, u ≠ t → w'.tile u = w.tile u
  player : w'.player = w.player
  totalWeight : w'.totalWeight = w.totalWeight
  inventoryWeight : w'.inventoryWeight = w.inventoryWeight
  abilities : w'.abilities = w.abilities

/-- The world once `__addThing` has settled the parents: that of the item, and that of what the
tile gives up for it. -/
structure Parented (w w' : World) (t : TileId) (i : ItemId) (x : Option ItemId)
    (kind : ItemKind) : Prop where
  item : ∀ j, j ≠ i →
    w'.item j = if x = some j then { w.item j with parent := none } else w.item j
  parent_self : (w'.item i).parent = some (.tile t)
  kind_self : (w'.item i).kind = kind
  tile_other : ∀ u, u ≠ t → w'.tile u = w.tile u
  player : w'.player = w.player
  totalWeight : w'.totalWeight = w.totalWeight
  inventoryWeight : w'.inventoryWeight = w.inventoryWeight
  abilities : w'.abilities = w.abilities

variable {t : TileId} {i : ItemId} {x : Option ItemId} {kind : ItemKind}

theorem Parented.setTile (h : Parented w w' t i x kind) (tile : Tile) :
    Parented w (w'.setTile t tile) t i x kind :=
  ⟨h.item, h.parent_self, h.kind_self, fun u hu => (if_neg hu).trans (h.tile_other u hu), h.player,
    h.totalWeight, h.inventoryWeight, h.abilities⟩

theorem Parented.setKind (h : Parented w w' t i x kind) (kind' : ItemKind) :
    Parented w (w'.setItem i { w'.item i with kind := kind' }) t i x kind' := by
  refine ⟨?_, ?_, ?_, h.tile_other, h.player, h.totalWeight, h.inventoryWeight, h.abilities⟩
  · intro j hj
    exact (if_neg hj).trans (h.item j hj)
  · simp only [World.setItem, if_true]
    exact h.parent_self
  · simp only [World.setItem, if_true]

theorem Parented.alone : Parented w (w.setParent i (some (.tile t))) t i none (w.item i).kind := by
  refine ⟨fun j hj => if_neg hj, ?_, ?_, fun _ _ => rfl, rfl, rfl, rfl, rfl⟩
  · simp only [World.setParent, World.setItem, if_true]
  · simp only [World.setParent, World.setItem, if_true]

/-- The tile that an item is added to with a cylinder. -/
def Cylinder.target (srv : Server) (w : World) (c : Cylinder) (i : ItemId) : Option TileId :=
  match c with
  | .tile t => if srv.isForwarder t then srv.getAvailableItemForwardingTile w t i else some t
  | _ => none

/-- The tile on which an item comes to lie that is added to a cylinder. -/
def Cylinder.landing (srv : Server) (w : World) (c : Cylinder) (i : ItemId) : Option TileId :=
  (c.target srv w i).filter fun t => !Tile.keepsOut w t i

/-- Whether an item loses its place when another one is added to a cylinder. -/
def Cylinder.Displaces (srv : Server) (w : World) (c : Cylinder) (i j : ItemId) : Prop :=
  ∃ u, c.landing srv w i = some u ∧ Tile.displaced w u i = some j

/-- What adding an item without an index to a cylinder leaves behind. -/
structure Deposited (srv : Server) (w w' : World) (c : Cylinder) (i : ItemId) : Prop where
  core : ∀ j, j ≠ i → (w'.item j).core = (w.item j).core
  parent : ∀ j, j ≠ i → ¬ c.Displaces srv w i j → (w'.item j).parent = (w.item j).parent
  parent_self : ∀ t, (w'.item i).parent = some (.tile t) → c.landing srv w i = some t
  mem : ∀ j, j ≠ i → (j ∈ w'.things c ↔ j ∈ w.things c ∧ ¬ c.Displaces srv w i j)
  landed : ∀ u, c.landing srv w i = some u →
    Tile.More (w.tile u) (w'.tile u) i (Tile.displaced w u i) ∧
      (w'.item i).kind = Tile.laidKind srv w u (w.item i).kind
  tile : ∀ u, c.landing srv w i ≠ some u → w'.tile u = w.tile u
  player : w'.player = w.player
  totalWeight : ∀ k, (∀ j, c = .container j → ¬ w.Around j k) →
    w'.totalWeight k = w.totalWeight k
  inventoryWeight : w'.inventoryWeight = w.inventoryWeight
  abilities : w'.abilities = w.abilities

theorem inventoryWeight_updateItemWeight (n : ℕ) (w : World) (j : ItemId) (diff : ℤ) :
    (w.updateItemWeight n j diff).inventoryWeight = w.inventoryWeight ∧
      (w.updateItemWeight n j diff).abilities = w.abilities := by
  induction n generalizing w j with
  | zero => exact ⟨rfl, rfl⟩
  | succ n ih =>
    unfold World.updateItemWeight
    dsimp only
    split
    · exact ⟨rfl, rfl⟩
    · exact ih _ _

/-- Nothing lands, and nothing is displaced. -/
theorem Cylinder.Displaces.landed {c : Cylinder} {j : ItemId} (h : c.Displaces srv w i j) :
    c.landing srv w i ≠ none := by
  obtain ⟨u, hu, -⟩ := h
  rw [hu]
  exact Option.some_ne_none u

theorem Deposited.refused {c : Cylinder} (hnone : (w.item i).parent = none)
    (hlanding : c.landing srv w i = none) : Deposited srv w w c i := by
  refine ⟨fun _ _ => rfl, fun _ _ _ => rfl, ?_, ?_, ?_, fun _ _ => rfl, rfl, fun _ _ => rfl, rfl,
    rfl⟩
  · intro t h
    rw [hnone] at h
    cases h
  · intro j _
    have hnot : ¬ c.Displaces srv w i j := fun h => h.landed hlanding
    simp only [hnot, not_false_eq_true, and_true]
  · intro u hu
    rw [hlanding] at hu
    cases hu

end TyanoCore
