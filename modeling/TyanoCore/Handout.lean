import TyanoCore.Coins
import TyanoCore.MoveConservation

/-!
# Handing out a stack

Where `Game::internalAddItem` puts a new stack of a plain kind, on a stack of the tile or as an item
of its own.  The worth that lies at some given places grows by that of the stack.
-/

namespace TyanoCore

variable {srv : Server} {w w' : World}

/-! ## Tiles -/

/-- The map as the tiles know it: a forwarder leads to a tile that is none and has room, and
whether it finds one depends on the kind of the item only. -/
structure Server.Forwarding (srv : Server) : Prop where
  room : ∀ {w t i u}, srv.getAvailableItemForwardingTile w t i = some u →
    srv.isForwarder u = false ∧ Tile.queryAdd srv w u i {} = .noError
  same : ∀ {w w' t i i'}, w'.tile = w.tile →
    (∀ j c, (w.item j).parent = some c → (w'.item j).kind = (w.item j).kind) →
    (w'.item i').kind = (w.item i).kind → srv.getAvailableItemForwardingTile w t i ≠ none →
    srv.getAvailableItemForwardingTile w' t i' ≠ none

/-- What `Tile::__addThing` asks of the tile itself. -/
def Tile.HasRoom (w : World) (t : TileId) : Prop :=
  Tile.hasRoomForThing w t = true ∧
    (w.tile t).topItems.length + (w.tile t).downItems.length < 0xFFFF

theorem Tile.HasRoom.of_tile {t : TileId} (h : Tile.HasRoom w t) (htile : w'.tile = w.tile) :
    Tile.HasRoom w' t := by
  unfold Tile.HasRoom Tile.hasRoomForThing at h ⊢
  rw [htile]
  exact h

/-- A tile that has no objections either forwards the item or has room. -/
theorem Tile.queryAdd_noError {t : TileId} {i : ItemId} {flags : CylinderFlags}
    (h : Tile.queryAdd srv w t i flags = .noError) :
    if srv.isForwarder t = true then srv.getAvailableItemForwardingTile w t i ≠ none
    else Tile.HasRoom w t := by
  unfold Tile.queryAdd at h
  dsimp only at h
  split
  · next hforwarder =>
    rw [if_pos hforwarder] at h
    intro hnone
    rw [if_pos hnone] at h
    cases h
  · next hforwarder =>
    rw [if_neg hforwarder] at h
    split at h
    · cases h
    next hroom =>
    split at h
    · cases h
    next hsize => exact ⟨by simpa using hroom, by omega⟩

theorem insertTopItem_perm (w : World) (i : ItemId) (order : ℤ) (items : List ItemId) :
    (Tile.insertTopItem w i order items).Perm (i :: items) := by
  induction items with
  | nil => exact .refl _
  | cons top items ih =>
    unfold Tile.insertTopItem
    split
    · exact (ih.cons top).trans (.swap i top items)
    · exact .refl _

/-- An item of a plain kind takes nothing's place on a tile. -/
theorem Tile.addThingHere_moved (hw : Forest srv w) {t : TileId} {i : ItemId}
    (hroom : Tile.HasRoom w t) (hplain : (w.item i).kind.isPlain = true)
    (hnone : (w.item i).parent = none) (hin : ItemInOrder srv (w.item i)) (hlt : i < w.next) :
    Forest srv (Tile.addThingHere srv w t i) ∧
      Moved w (Tile.addThingHere srv w t i) i (some (.tile t)) := by
  obtain ⟨hthing, hsize⟩ := hroom
  simp only [ItemKind.isPlain, ItemKind.isOrdinary, Bool.and_eq_true, decide_eq_true_eq,
    List.mem_cons, List.not_mem_nil, or_false, not_or] at hplain
  obtain ⟨⟨⟨⟨⟨⟨htype, -⟩, hsplash, -, hground, -⟩, -⟩, -⟩, -⟩, hwater⟩ := hplain
  have hfield : (w.item i).kind.isMagicField = false := by
    simp only [ItemKind.isMagicField, htype, decide_false]
  have hold : Tile.oldItem w t i = none := by
    simp [Tile.oldItem, ItemKind.isGroundTile, ItemKind.isSplash, hground, hsplash, hfield]
  have hnotMem : i ∉ (w.tile t).items := by
    intro h
    rw [hw.mem_things (.tile t) i |>.mp h] at hnone
    cases hnone
  have hnodup := hw.distinct.tile t
  have hwaterball :
      ¬ ((w.item i).kind.id = itemWaterballSplash ∧ srv.trashHolderFlag w t = false) :=
    fun h => hwater h.1
  unfold Tile.addThingHere
  dsimp only
  rw [if_neg (by rw [hthing]; decide), if_neg (by omega), hold,
    if_neg (by simp [ItemKind.isGroundTile, hground]), if_neg hwaterball]
  -- the new tile holds the item besides what it held
  have hattach {tile : Tile} (hperm : tile.items.Perm (i :: (w.tile t).items))
      (hsorted : TileSorted w tile) :
      Forest srv ((w.setParent i (some (.tile t))).setTile t tile) ∧
        Moved w ((w.setParent i (some (.tile t))).setTile t tile) i (some (.tile t)) := by
    refine ⟨Tile.attach hw hnone hin hlt ?_ ?_ hsorted, moved_setTile i _ t tile⟩
    · intro x
      rw [hperm.mem_iff, List.mem_cons, or_comm]
    · exact hperm.nodup_iff.mpr (List.nodup_cons.mpr ⟨hnotMem, hnodup⟩)
  split
  · next htop =>
    have hperm (world : World) :=
      insertTopItem_perm world i (w.item i).kind.alwaysOnTopOrder (w.tile t).topItems
    refine hattach ?_ ⟨?_, hw.sorted.down t⟩
    · simp only [Tile.items]
      exact (((hperm _).append_left _).append_right _).trans (List.perm_middle.append_right _)
    · intro x hx
      rcases List.mem_cons.mp ((hperm _).mem_iff.mp hx) with rfl | hx
      · exact htop
      · exact hw.sorted.top t x hx
  · next htop =>
    rw [if_neg (by simp)]
    refine hattach ?_ ⟨hw.sorted.top t, ?_⟩
    · exact List.perm_middle
    · intro x hx
      rcases List.mem_cons.mp hx with rfl | hx
      · simpa using htop
      · exact hw.sorted.down t x hx

/-- The tile that things handed to a tile fall to. -/
def Server.destTile (srv : Server) (t : TileId) : TileId := (srv.floorChangeTile t).getD t

/-- The tiles on which things handed to a tile end up. -/
def Server.Lands (srv : Server) (t u : TileId) : Prop :=
  u = srv.destTile t ∨
    ∃ w i, srv.getAvailableItemForwardingTile w (srv.destTile t) i = some u

/-- A tile takes an item as it takes others of the kind. -/
theorem Tile.addThing_moved (hfwd : srv.Forwarding) {t : TileId} {i₀ : ItemId}
    {flags : CylinderFlags} (hquery : Tile.queryAdd srv w t i₀ flags = .noError)
    (hw' : Forest srv w') (htile : w'.tile = w.tile)
    (hkinds : ∀ j c, (w.item j).parent = some c → (w'.item j).kind = (w.item j).kind) {i : ItemId}
    (hkind : (w'.item i).kind = (w.item i₀).kind) (hplain : (w'.item i).kind.isPlain = true)
    (hnone : (w'.item i).parent = none) (hin : ItemInOrder srv (w'.item i)) (hlt : i < w'.next) :
    ∃ u, (u = t ∨ srv.getAvailableItemForwardingTile w' t i = some u) ∧
      Forest srv (Tile.addThing srv w' t i) ∧
      Moved w' (Tile.addThing srv w' t i) i (some (.tile u)) := by
  have hroom := Tile.queryAdd_noError hquery
  unfold Tile.addThing
  split at hroom
  · next hforwarder =>
    rw [if_pos hforwarder]
    obtain ⟨u, hu⟩ := Option.ne_none_iff_exists'.mp (hfwd.same htile hkinds hkind hroom)
    obtain ⟨hnot, hquery'⟩ := hfwd.room hu
    have hroom' := Tile.queryAdd_noError hquery'
    rw [if_neg (by rw [hnot]; decide)] at hroom'
    rw [hu]
    exact ⟨u, .inr rfl, Tile.addThingHere_moved hw' hroom' hplain hnone hin hlt⟩
  · next hforwarder =>
    rw [if_neg hforwarder]
    exact ⟨t, .inl rfl, Tile.addThingHere_moved hw' (hroom.of_tile htile) hplain hnone hin hlt⟩

/-! ## The worth that lies at some places -/

/-- What an item is worth as a coin, if it lies at one of the places. -/
noncomputable def Item.worthAt (places : Cylinder → Prop) (item : Item) : ℕ :=
  open Classical in
  if ∃ place, item.parent = some place ∧ places place then item.coinWorth else 0

noncomputable def World.worthAt (w : World) (places : Cylinder → Prop) : ℕ :=
  w.tally (Item.worthAt places)

variable {places : Cylinder → Prop}

theorem Item.coinWorth_core {a b : Item} (h : a.core = b.core) : a.coinWorth = b.coinWorth := by
  unfold Item.coinWorth Item.getWorth
  rw [Item.core_isContainer h, Item.core_count h, Item.core_kind h]

theorem Item.worthAt_local (places : Cylinder → Prop) : Item.Local (Item.worthAt places) := by
  intro a b hcore hparent
  unfold Item.worthAt
  rw [hparent, Item.coinWorth_core hcore]

theorem Item.worthAt_place {item : Item} {place : Cylinder} (h : item.parent = some place)
    (hplace : places place) : item.worthAt places = item.coinWorth :=
  if_pos ⟨place, h, hplace⟩

theorem Item.worthAt_elsewhere {item : Item} {place : Cylinder} (h : item.parent = some place)
    (hplace : ¬ places place) : item.worthAt places = 0 := by
  refine if_neg ?_
  rintro ⟨place', heq, hplace'⟩
  rw [h] at heq
  cases heq
  exact hplace hplace'

theorem Item.worthAt_nowhere {item : Item} (h : item.parent = none) : item.worthAt places = 0 := by
  refine if_neg ?_
  rintro ⟨place, hplace, -⟩
  rw [h] at hplace
  cases hplace

def Item.InBounds (item : Item) : Prop := 1 ≤ item.count ∧ item.count ≤ 100

/-- On a tile with neither a trash holder nor a mailbox, what is added to it stays. -/
def World.KeepsAdded (w : World) (t : TileId) : Prop :=
  ∀ j ∈ w.things (.tile t), (w.item j).kind.type ≠ .trashHolder ∧ (w.item j).kind.type ≠ .mailbox

theorem World.KeepsAdded.inert {t : TileId} (h : w.KeepsAdded t) (i : ItemId) :
    w.Inert (.tile t) i := by
  intro u hu
  rw [← Cylinder.tile.inj hu]
  refine ⟨?_, ?_⟩
  · intro j hj htype
    exact absurd htype (h j hj).1
  · intro _ j hj
    exact (h j hj).2

/-- Only ordinary items come to a tile. -/
theorem World.KeepsAdded.of_forest {t : TileId} (h : w.KeepsAdded t) (hw : Forest srv w)
    (hw' : Forest srv w')
    (hnew : ∀ j, (w'.item j).parent = some (.tile t) →
      (w.item j).parent = some (.tile t) ∧ (w'.item j).kind = (w.item j).kind ∨
        (w'.item j).kind.isOrdinary = true) : w'.KeepsAdded t := by
  intro j hj
  cases hnew j ((hw'.mem_things _ j).mp hj) with
  | inl hold =>
    rw [hold.2]
    exact h j ((hw.mem_things _ j).mpr hold.1)
  | inr hordinary =>
    simp only [ItemKind.isOrdinary, Bool.and_eq_true, decide_eq_true_eq, List.mem_cons,
      List.not_mem_nil, or_false, not_or] at hordinary
    obtain ⟨⟨-, -, -, -, htrash, hmail, -⟩, -⟩ := hordinary
    exact ⟨htrash, hmail⟩

theorem ItemKind.isOrdinary_of_isPlain {kind : ItemKind} (h : kind.isPlain = true) :
    kind.isOrdinary = true := by
  simp only [ItemKind.isPlain, Bool.and_eq_true] at h
  exact h.1.1.1.1.1

/-- The books between two worlds: what was taken from the places and what was given to them.  The
containers have not moved, tiles keep what is added to them as before, and new stacks are within
their bounds. -/
structure Booked (srv : Server) (places : Cylinder → Prop) (w w' : World) (taken given : ℕ) :
    Prop where
  forest : Forest srv w'
  same : SameContainers w w'
  keeps : ∀ t, w.KeepsAdded t → w'.KeepsAdded t
  worth : w'.worthAt places + taken = w.worthAt places + given
  bounds : ∀ i < w'.next, (i < w.next → (w.item i).InBounds) → (w'.item i).InBounds

theorem Booked.refl (hw : Forest srv w) : Booked srv places w w 0 0 :=
  ⟨hw, .refl w, fun _ h => h, rfl, fun _ hi hold => hold hi⟩

theorem Booked.trans {w'' : World} {taken given taken' given' : ℕ}
    (h : Booked srv places w w' taken given) (h' : Booked srv places w' w'' taken' given') :
    Booked srv places w w'' (taken + taken') (given + given') := by
  refine ⟨h'.forest, h.same.trans h'.same, fun t ht => h'.keeps t (h.keeps t ht), ?_, ?_⟩
  · have := h.worth
    have := h'.worth
    omega
  · intro i hi hold
    exact h'.bounds i hi fun hi' => h.bounds i hi' hold

theorem SameContainers.of_sameItems (h : SameItems w w') : SameContainers w w' := by
  constructor
  · rw [h.next]
  · intro j _
    rw [h.item]
  · intro j _ _
    rw [h.item]
  · intro j hj hj'
    rw [h.next] at hj'
    exact absurd hj' (not_lt.mpr hj)
  · intro p
    rw [h.player]

theorem Booked.sameItems {w'' : World} {taken given : ℕ} (h : Booked srv places w w' taken given)
    (hs : SameItems w' w'') : Booked srv places w w'' taken given := by
  refine ⟨h.forest.of_sameItems hs, h.same.trans (.of_sameItems hs), fun t ht => ?_, ?_, ?_⟩
  · unfold World.KeepsAdded
    rw [hs.things, hs.item]
    exact h.keeps t ht
  · rw [World.worthAt, tally_sameItems hs]
    exact h.worth
  · rw [hs.item, hs.next]
    exact h.bounds

theorem Moved.bounds {i : ItemId} {parent : Option Cylinder} (h : Moved w w' i parent) :
    ∀ j < w'.next, (j < w.next → (w.item j).InBounds) → (w'.item j).InBounds := by
  intro j hj hold
  rw [h.next] at hj
  unfold Item.InBounds at hold ⊢
  rw [Item.core_count (h.core j)]
  exact hold hj

theorem Moved.sameContainers {i : ItemId} {parent : Option Cylinder} (h : Moved w w' i parent)
    (hi : (w.item i).isContainer = false) (hplayer : ∀ p, (w'.player p).tile = (w.player p).tile) :
    SameContainers w w' := by
  constructor
  · rw [h.next]
  · intro j _
    exact Item.core_isContainer (h.core j)
  · intro j _ hj
    refine h.parent_other j ?_
    rintro rfl
    rw [hi] at hj
    cases hj
  · intro j hj hj'
    rw [h.next] at hj'
    exact absurd hj' (not_lt.mpr hj)
  · exact hplayer

/-- An ordinary item that lies nowhere is put at one of the places. -/
theorem Booked.attach {i : ItemId} {place : Cylinder} (hw : Forest srv w) (hw' : Forest srv w')
    (h : Moved w w' i (some place)) (hplace : places place) (hnone : (w.item i).parent = none)
    (hi : (w.item i).isContainer = false) (hordinary : (w.item i).kind.isOrdinary = true)
    (hlt : i < w.next) (hplayer : ∀ p, (w'.player p).tile = (w.player p).tile) :
    Booked srv places w w' 0 (w.item i).coinWorth := by
  refine ⟨hw', h.sameContainers hi hplayer, fun t ht => ht.of_forest hw hw' fun j hj => ?_, ?_,
    h.bounds⟩
  · rw [Item.core_kind (h.core j)]
    by_cases hji : j = i
    · rw [hji]
      exact .inr hordinary
    · rw [← h.parent_other j hji]
      exact .inl ⟨hj, rfl⟩
  have hsum := tally_moved (Item.worthAt_local places) h hlt
  rw [Item.worthAt_nowhere hnone, Item.worthAt_place h.parent_self hplace,
    Item.coinWorth_core (h.core i)] at hsum
  exact hsum

/-- An item that lies at one of the places is taken away. -/
theorem Booked.detach {i : ItemId} {place : Cylinder} (hw : Forest srv w) (hw' : Forest srv w')
    (h : Moved w w' i none) (hplace : places place) (hparent : (w.item i).parent = some place)
    (hi : (w.item i).isContainer = false) (hlt : i < w.next)
    (hplayer : ∀ p, (w'.player p).tile = (w.player p).tile) :
    Booked srv places w w' (w.item i).coinWorth 0 := by
  refine ⟨hw', h.sameContainers hi hplayer, fun t ht => ht.of_forest hw hw' fun j hj => ?_, ?_,
    h.bounds⟩
  · have hji : j ≠ i := by
      rintro rfl
      rw [h.parent_self] at hj
      cases hj
    rw [Item.core_kind (h.core j), ← h.parent_other j hji]
    exact .inl ⟨hj, rfl⟩
  have hsum := tally_moved (Item.worthAt_local places) h hlt
  rw [Item.worthAt_nowhere h.parent_self, Item.worthAt_place hparent hplace] at hsum
  exact hsum

/-- A stack that lies at one of the places grows. -/
theorem Booked.grow (hw : Forest srv w) {i : ItemId} {place : Cylinder} {n : ℕ}
    (h : Recounted w w' i ((w.item i).count + n)) (hle : (w.item i).count + n ≤ 100)
    (hplace : places place) (hparent : (w.item i).parent = some place)
    (hs : (w.item i).isStackable = true) :
    Booked srv places w w' 0 (n * (w.item i).kind.worth) := by
  have hin := hw.inOrder i place hparent
  have hone := hin.one_le hs
  have hw' := hw.recount h fun _ => ⟨by omega, hle⟩
  refine ⟨hw', ⟨?_, ?_, ?_, ?_, ?_⟩, fun t ht => ht.of_forest hw hw' fun j hj => ?_, ?_, ?_⟩
  · rw [h.next]
  · intro j _
    exact h.isContainer j
  · intro j _ _
    exact h.parent j
  · intro j hj hj'
    rw [h.next] at hj'
    exact absurd hj' (not_lt.mpr hj)
  · intro p
    rw [h.player]
  · rw [h.parent] at hj
    exact .inl ⟨hj, h.kind j⟩
  · have hsum := tally_recounted (f := Item.worthAt places) h (hw.lt_next i place hparent)
    rw [Item.worthAt_place hparent hplace,
      Item.worthAt_place ((h.parent i).trans hparent) hplace] at hsum
    have hworth : (w'.item i).coinWorth = (w.item i).coinWorth + n * (w.item i).kind.worth := by
      rw [h.item_self]
      simp only [Item.coinWorth, hin.not_container hs, Item.getWorth, Bool.false_eq_true, if_false]
      exact Nat.add_mul _ _ _
    rw [hworth] at hsum
    unfold World.worthAt
    omega
  · intro j hj hold
    by_cases hji : j = i
    · rw [hji, h.item_self]
      exact ⟨by simp only; omega, hle⟩
    · rw [h.item_other j hji]
      rw [h.next] at hj
      exact hold hj

theorem Booked.create (hw : Forest srv w) {item : Item} (hparent : item.parent = none)
    (hitem : item.itemlist = []) (hcontainer : item.isContainer = false)
    (hbounds : item.InBounds) : Booked srv places w (w.create item) 0 0 := by
  have hw' : Forest srv (w.create item) := hw.create hparent hitem
  refine ⟨hw', ⟨Nat.le_succ _, ?_, ?_, ?_, fun _ => rfl⟩,
    fun t ht => ht.of_forest hw hw' fun j hj => ?_, ?_, ?_⟩
  · intro j hj
    rw [create_item_of_lt hj]
  · intro j hj _
    rw [create_item_of_lt hj]
  · intro j hj hj'
    have hj' : j = w.next := Nat.le_antisymm (Nat.lt_succ_iff.mp hj') hj
    rw [hj', create_item_next]
    exact hcontainer
  · have hlt : j < w.next := by
      have hj' := hw'.lt_next j _ hj
      refine Nat.lt_of_le_of_ne (Nat.lt_succ_iff.mp hj') ?_
      rintro rfl
      rw [create_item_next, hparent] at hj
      cases hj
    rw [create_item_of_lt hlt] at hj ⊢
    exact .inl ⟨hj, rfl⟩
  · exact congrArg (· + 0) (tally_create (Item.worthAt_nowhere hparent))
  · intro j hj hold
    rcases Nat.lt_or_eq_of_le (Nat.lt_succ_iff.mp hj) with hlt | heq
    · rw [create_item_of_lt hlt]
      exact hold hlt
    · rw [heq, create_item_next]
      exact hbounds

/-! ## Adding a new stack -/

/-- A stack of a plain kind that has just been created. -/
structure NewStack (srv : Server) (w : World) (i : ItemId) (kind : ItemKind) (count : ℕ) :
    Prop where
  item : w.item i = Item.stack kind count
  lt : i < w.next
  known : srv.items.kind kind.id = some kind
  plain : kind.isPlain = true
  stackable : kind.stackable = true
  pos : count ≠ 0
  le : count ≤ 100

variable {i : ItemId} {kind : ItemKind} {count : ℕ}

theorem NewStack.parent (h : NewStack srv w i kind count) : (w.item i).parent = none := by
  rw [h.item]
  rfl

theorem NewStack.inOrder (h : NewStack srv w i kind count) : ItemInOrder srv (w.item i) := by
  rw [h.item]
  exact Item.stack_inOrder h.known h.pos h.le

theorem NewStack.not_container (h : NewStack srv w i kind count) :
    (w.item i).isContainer = false := by
  rw [h.item]
  rfl

theorem NewStack.isOrdinary (h : NewStack srv w i kind count) :
    (w.item i).kind.isOrdinary = true := by
  rw [h.item]
  exact ItemKind.isOrdinary_of_isPlain h.plain

theorem NewStack.coinWorth (h : NewStack srv w i kind count) :
    (w.item i).coinWorth = count * kind.worth := by
  rw [h.item]
  rfl

theorem NewStack.create (hw : Forest srv w) (h : NewStack srv w i kind count) {n : ℕ}
    (hpos : n ≠ 0) (hle : n ≤ 100) :
    Item.createItem srv w kind.id n = some (w.create (Item.stack kind n), w.next) ∧
      Forest srv (w.create (Item.stack kind n)) ∧
      NewStack srv (w.create (Item.stack kind n)) w.next kind n :=
  ⟨createItem_stack kind n h.known h.plain h.stackable hpos hle, hw.create rfl rfl,
    ⟨create_item_next _, Nat.lt_succ_self _, h.known, h.plain, h.stackable, hpos, hle⟩⟩

theorem Tile.removeThing_player (t : TileId) (j : ItemId) (n : ℕ) :
    (Tile.removeThing w t j n).player = w.player := by
  unfold Tile.removeThing
  dsimp only
  split_ifs <;> rfl

theorem Tile.addThingHere_player (t : TileId) (j : ItemId) :
    (Tile.addThingHere srv w t j).player = w.player := by
  unfold Tile.addThingHere
  dsimp only
  -- only the removal of a splash or a field leaves more than a change of items and tiles
  repeat' split
  all_goals first | rfl | exact Tile.removeThing_player t _ _

theorem addThing_tile (c : Cylinder) (index : ℤ) (j : ItemId) (p : PlayerId) :
    ((Cylinder.addThing srv w c index j).player p).tile = (w.player p).tile := by
  cases c with
  | container k => exact congrArg (fun f => (f p).tile) (Container.addThing_player k index j)
  | player q =>
    simp only [Cylinder.addThing, Player.addThing]
    split_ifs
    · rfl
    · rfl
    · simp only [World.setParent, World.setInventory, World.setItem, World.setPlayer]
      split
      · next hq => rw [hq]
      · rfl
  | tile t =>
    simp only [Cylinder.addThing, Tile.addThing]
    split
    · split
      · rfl
      · rw [Tile.addThingHere_player]
    · rw [Tile.addThingHere_player]

/-- A cylinder that is no tile and has been asked for a place takes the stack in. -/
theorem Booked.addThing (hw : Forest srv w) (h : NewStack srv w i kind count) {c : Cylinder}
    {index : ℤ} (hadmits : w.Admits c index) (hc : w.Holder c) (hplace : places c) :
    Booked srv places w (Cylinder.addThing srv w c index i) 0 (count * kind.worth) := by
  obtain ⟨hw', hm⟩ := addThing_moved hw hadmits h.parent h.inOrder h.lt hc
  rw [← h.coinWorth]
  exact .attach hw hw' hm hplace h.parent h.not_container h.isOrdinary h.lt
    (addThing_tile c index i)

/-- Refused items change nothing. -/
theorem internalAddItem_refused {c : Option Cylinder} {item : Option ItemId} {index : ℤ}
    {flags : CylinderFlags}
    (h : (Game.internalAddItem srv w c item index flags false).2 ≠ .noError) :
    (Game.internalAddItem srv w c item index flags false).1 = w := by
  unfold Game.internalAddItem at h ⊢
  split at h
  · dsimp only at h ⊢
    split at h
    · next hret => rw [if_pos hret]
    next hret =>
    rw [if_neg hret]
    split at h
    · next hmax => rw [if_pos hmax]
    next hmax =>
    rw [if_neg hmax]
    rw [if_neg Bool.false_ne_true] at h
    split at h
    · split at h
      · exact absurd rfl h
      · split at h
        · exact absurd rfl h
        · split at h
          · exact absurd rfl h
          · exact absurd rfl h
    · exact absurd rfl h
  · rfl

/-- Without a stack at the destination the item is added as it is. -/
theorem internalAddItem_added {c : Cylinder} {index : ℤ} {flags : CylinderFlags} {d : Destination}
    (hd : Cylinder.queryDestination srv w i ⟨c, index, none, flags⟩ = d)
    (hdest : d.destItem = none)
    (h : (Game.internalAddItem srv w (some c) (some i) index flags false).2 = .noError) :
    Cylinder.queryAdd srv w d.cylinder d.index i (w.item i).count d.flags = .noError ∧
      (Game.internalAddItem srv w (some c) (some i) index flags false).1 =
        Cylinder.notifyAdded srv (Cylinder.addThing srv w d.cylinder d.index i) d.cylinder
          (some i) := by
  simp only [Game.internalAddItem, hd, Game.mergeStack, hdest] at h ⊢
  split at h
  · next hret => exact absurd h hret
  next hret =>
  rw [if_neg hret]
  split at h
  · next hmax => exact absurd h hmax
  next hmax =>
  rw [if_neg hmax]
  rw [if_neg Bool.false_ne_true]
  refine ⟨not_not.mp hret, ?_⟩
  split
  · rw [if_pos trivial]
  · rfl

/-- Containers and players send a new item to themselves or to a container within them. -/
theorem queryDestination_within (srv : Server) (hw : Forest srv w) {c : Cylinder}
    (hc : c.isTile = false) (item : ItemId) (flags : CylinderFlags) :
    (Cylinder.queryDestination srv w item ⟨c, -1, none, flags⟩).destItem = none ∧
      w.Place c (Cylinder.queryDestination srv w item ⟨c, -1, none, flags⟩).cylinder := by
  cases c with
  | container j =>
    simp [Cylinder.queryDestination, Container.queryDestination, World.Place]
  | player p =>
    simp only [Cylinder.queryDestination, Player.queryDestination, or_true, if_true]
    split
    · exact ⟨rfl, .inl rfl⟩
    · split
      · next k hk =>
        exact ⟨rfl, .inr ⟨k, rfl, (Player.findContainer_within hw.toConsistent hk).1⟩⟩
      · exact ⟨rfl, .inl rfl⟩
  | tile t => cases hc

/-- A container or a player that accepts the stack takes it in. -/
theorem internalAddItem_carried (hsrv : srv.Quiet) (hw : Forest srv w) {c : Cylinder}
    (htile : c.isTile = false) (hc : w.Holder c) (h : NewStack srv w i kind count)
    {flags : CylinderFlags} (hflags : flags.childIsOwner = false)
    (hplaces : ∀ place, w.Place c place → w.Holder place → places place)
    (hret : (Game.internalAddItem srv w (some c) (some i) (-1) flags false).2 = .noError) :
    Booked srv places w (Game.internalAddItem srv w (some c) (some i) (-1) flags false).1 0
      (count * kind.worth) := by
  obtain ⟨hsent, -⟩ := queryDestination_sent hw i (d := ⟨c, -1, none, flags⟩) htile hc hflags rfl
  obtain ⟨hdest, hplace⟩ := queryDestination_within srv hw htile i flags
  obtain ⟨hquery, heq⟩ := internalAddItem_added rfl hdest hret
  rw [heq]
  generalize Cylinder.queryDestination srv w i ⟨c, -1, none, flags⟩ = d at hsent hdest hplace hquery ⊢
  refine Booked.sameItems ?_
    (sameItems_notifyAdded hsrv _ fun y _ => World.inert_of_isTile hsent.not_tile y)
  have hadmits : w.Admits d.cylinder d.index := by
    obtain ⟨cylinder, index, destItem, dflags⟩ := d
    cases cylinder with
    | container j => exact hsent.container j rfl
    | player p =>
      obtain ⟨s, hs, hindex, -⟩ := Player.queryAdd_noError hsent.flags hquery
      exact ⟨s, hs, hindex, (hsent.player p rfl s hs hindex).trans hdest⟩
    | tile t => exact absurd hsent.not_tile (by simp [Cylinder.isTile])
  exact Booked.addThing hw h hadmits hsent.holder (hplaces _ hplace hsent.holder)

/-- A tile takes the stack in, on the uppermost stack or as an item of its own. -/
theorem Booked.addTile (hfwd : srv.Forwarding) {t : TileId} {i₀ : ItemId}
    {flags : CylinderFlags} (hquery : Tile.queryAdd srv w t i₀ flags = .noError)
    (hw' : Forest srv w') (htile : w'.tile = w.tile)
    (hkinds : ∀ j c, (w.item j).parent = some c → (w'.item j).kind = (w.item j).kind)
    (h : NewStack srv w' i kind count) (hkind : kind = (w.item i₀).kind)
    (hplaces : places (.tile t) ∧ ∀ w i u, srv.getAvailableItemForwardingTile w t i = some u →
      places (.tile u)) :
    Booked srv places w' (Tile.addThing srv w' t i) 0 (count * kind.worth) := by
  have hitem : (w'.item i).kind = kind := by
    rw [h.item]
    rfl
  obtain ⟨u, hu, hforest, hmoved⟩ := Tile.addThing_moved hfwd hquery hw' htile hkinds
    (hitem.trans hkind) (by rw [hitem]; exact h.plain) h.parent h.inOrder h.lt
  have hplace : places (.tile u) := by
    rcases hu with rfl | hu
    · exact hplaces.1
    · exact hplaces.2 _ _ u hu
  rw [← h.coinWorth]
  exact .attach hw' hforest hmoved hplace h.parent h.not_container h.isOrdinary h.lt
    (addThing_tile (.tile t) 0 i)

/-- What `Game.mergeStack` does with a new stack and the uppermost stack of a tile. -/
theorem mergeStack_new (hw : Forest srv w) (h : NewStack srv w i kind count) {u : TileId}
    (index : ℤ) (flags : CylinderFlags) {destItem : Option ItemId}
    (hdest : ∀ o, destItem = some o → o ∈ w.things (.tile u)) (hplace : places (.tile u)) :
    Game.mergeStack srv w ⟨.tile u, index, destItem, flags⟩ i count = (w, none, 0) ∨
      ∃ w' o n, Game.mergeStack srv w ⟨.tile u, index, destItem, flags⟩ i count =
          (w', some o, n) ∧ n ≤ count ∧ Booked srv places w w' 0 (n * kind.worth) ∧
        Recounted w w' o ((w.item o).count + n) ∧ o ≠ i := by
  unfold Game.mergeStack
  cases destItem with
  | none => exact .inl rfl
  | some o =>
    dsimp only
    split
    · next hid =>
      right
      have hmem := hdest o rfl
      have hparent := (hw.mem_things _ o).mp hmem
      have hin := hw.inOrder o _ hparent
      have hkind : (w.item o).kind = kind := by
        have hknown := hin.kind_known
        rw [hid, h.item] at hknown
        exact (Option.some.inj (h.known.symm.trans hknown)).symm
      have hs : (w.item o).isStackable = true := by
        unfold Item.isStackable
        rw [hkind]
        exact h.stackable
      have hle := hin.le_hundred hs
      have hne : o ≠ i := by
        rintro rfl
        rw [h.parent] at hparent
        cases hparent
      rw [roomOnStack_of_le hle]
      have hr := updateThing_recounted hw hmem (by rw [hkind]; exact h.plain)
        ((w.item o).count + min (100 - (w.item o).count) count) (by omega)
      refine ⟨_, o, _, rfl, Nat.min_le_right _ _, ?_, hr, hne⟩
      rw [← hkind]
      exact .grow hw hr (by omega) hplace hparent hs
    · exact .inl rfl

/-- What a tile has kept it keeps when it is told of it. -/
theorem Booked.notifyAdded (hsrv : srv.Quiet) {taken given : ℕ}
    (h : Booked srv places w w' taken given) {t : TileId} (hkeeps : w.KeepsAdded t)
    (y : Option ItemId) :
    Booked srv places w (Cylinder.notifyAdded srv w' (.tile t) y) taken given :=
  h.sameItems (sameItems_notifyAdded hsrv w' fun z _ => (h.keeps t hkeeps).inert z)

/-- A tile that accepts the stack takes it in and keeps it. -/
theorem internalAddItem_tile (hsrv : srv.Quiet) (hfwd : srv.Forwarding) (hw : Forest srv w)
    {t : TileId} (hkeeps : w.KeepsAdded (srv.destTile t)) (h : NewStack srv w i kind count)
    {flags : CylinderFlags} (hplaces : ∀ u, srv.Lands t u → places (.tile u))
    (hret : (Game.internalAddItem srv w (some (.tile t)) (some i) (-1) flags false).2
      = .noError) :
    Booked srv places w (Game.internalAddItem srv w (some (.tile t)) (some i) (-1) flags false).1 0
      (count * kind.worth) := by
  have hdestTile : places (.tile (srv.destTile t)) := hplaces _ (.inl rfl)
  have hforward (w₁ : World) (j : ItemId) (u : TileId)
      (hu : srv.getAvailableItemForwardingTile w₁ (srv.destTile t) j = some u) :
      places (.tile u) := hplaces u (.inr ⟨w₁, j, hu⟩)
  have hstackable : (w.item i).isStackable = true := by
    rw [h.item]
    exact h.stackable
  have hcount : (w.item i).count = count := by rw [h.item]; rfl
  have hid : (w.item i).kind = kind := by rw [h.item]; rfl
  have hdest : ∀ o, (w.tile (srv.destTile t)).downItems.head? = some o →
      o ∈ w.things (.tile (srv.destTile t)) := by
    intro o ho
    exact mem_things_tile.mpr (.inr (.inr (List.mem_of_mem_head? ho)))
  have hdef : (srv.floorChangeTile t).getD t = srv.destTile t := rfl
  have hmin : min count (max 1 count) = count := by omega
  simp only [Game.internalAddItem, Cylinder.queryDestination, Tile.queryDestination, hdef,
    Cylinder.queryMaxCount, Tile.queryMaxCount, hstackable, hcount, hmin, ne_eq,
    not_true_eq_false, if_false, if_true, Bool.false_eq_true] at hret ⊢
  generalize (if (srv.floorChangeTile t).isSome = true then { flags with noLimit := true } else flags)
    = flags' at hret ⊢
  split at hret
  · next hquery => exact absurd hret hquery
  next hquery =>
  rw [if_neg hquery]
  have hquery := not_not.mp hquery
  rcases mergeStack_new hw h (-1) flags' hdest hdestTile
    with hmerge | ⟨w₁, o, n, hmerge, hn, hbooked, hr, hne⟩
  · rw [hmerge, if_pos rfl]
    dsimp only
    refine Booked.notifyAdded hsrv ?_ hkeeps _
    exact .addTile hfwd hquery hw rfl (fun _ _ _ => rfl) h hid.symm ⟨hdestTile, hforward⟩
  · rw [hmerge]
    dsimp only
    rw [if_neg (by simp)]
    split
    · next hzero =>
      have hn : n = count := by omega
      rw [← hn]
      dsimp only
      exact hbooked.notifyAdded hsrv hkeeps _
    · next hrest =>
      have hitem : w₁.item i = w.item i := hr.item_other i hne.symm
      have h₁ : NewStack srv w₁ i kind count :=
        ⟨hitem.trans h.item, by rw [hr.next]; exact h.lt, h.known, h.plain, h.stackable, h.pos, h.le⟩
      have hsum : n * kind.worth + (count - n) * kind.worth = count * kind.worth := by
        rw [← Nat.add_mul, Nat.add_sub_cancel' hn]
      rw [← hsum]
      by_cases hall : count - n = count
      · rw [if_pos hall, hall]
        dsimp only
        refine Booked.notifyAdded hsrv ?_ hkeeps _
        have hadded := Booked.addTile hfwd hquery hbooked.forest hr.tile (fun j _ _ => hr.kind j)
          h₁ hid.symm ⟨hdestTile, hforward⟩
        exact hbooked.trans hadded
      · -- what does not fit becomes a stack of its own
        obtain ⟨hcreate, hforest, hnew⟩ := h₁.create hbooked.forest hrest (by have := h.le; omega)
        rw [if_neg hall, hitem, hid, hcreate]
        dsimp only
        refine Booked.notifyAdded hsrv ?_ hkeeps _
        have hcreated : Booked srv places w₁ (w₁.create (.stack kind (count - n))) 0 0 :=
          .create hbooked.forest rfl rfl rfl ⟨Nat.one_le_iff_ne_zero.mpr hrest, hnew.le⟩
        have hkinds (j : ItemId) (c : Cylinder) (hj : (w.item j).parent = some c) :
            ((w₁.create (.stack kind (count - n))).item j).kind = (w.item j).kind := by
          have hlt : j < w₁.next := by
            rw [hr.next]
            exact hw.lt_next j c hj
          rw [create_item_of_lt hlt]
          exact hr.kind j
        have hadded := Booked.addTile hfwd hquery hforest hr.tile hkinds hnew hid.symm
          ⟨hdestTile, hforward⟩
        exact (hbooked.trans hcreated).trans hadded

end TyanoCore
