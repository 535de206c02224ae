import Mathlib.Data.List.Nodup
import TyanoCore.MoveItem

/-!
# The forest of items

Parents and contents are kept twice: every item knows its parent and every cylinder its things.
`Forest` says that the two agree and that every item in the forest is in order.  The operations
of the cylinders change one link each; the weights that are remembered along the way belong to
no link.
-/

namespace TyanoCore

/-! ## What stays of an item that is moved -/

/-- An item without its links. -/
def Item.core (item : Item) : Item := { item with parent := none, itemlist := [] }

theorem Item.core_kind {a b : Item} (h : a.core = b.core) : a.kind = b.kind :=
  (Item.mk.injEq .. ▸ h).1

theorem Item.core_count {a b : Item} (h : a.core = b.core) : a.count = b.count :=
  (Item.mk.injEq .. ▸ h).2.1

theorem Item.core_isContainer {a b : Item} (h : a.core = b.core) :
    a.isContainer = b.isContainer :=
  (Item.mk.injEq .. ▸ h).2.2.2.2.2.1

theorem Item.core_maxSize {a b : Item} (h : a.core = b.core) : a.maxSize = b.maxSize :=
  (Item.mk.injEq .. ▸ h).2.2.2.2.2.2.1

theorem Item.core_isStackable {a b : Item} (h : a.core = b.core) :
    a.isStackable = b.isStackable := by
  unfold Item.isStackable
  rw [Item.core_kind h]

theorem Item.core_canRemove {a b : Item} (h : a.core = b.core) : a.canRemove = b.canRemove :=
  (congrArg Item.canRemove h : a.core.canRemove = b.core.canRemove)

/-- The same items, players and tiles; what is remembered of weights and abilities may differ. -/
structure SameItems (w w' : World) : Prop where
  item : w'.item = w.item
  player : w'.player = w.player
  tile : w'.tile = w.tile
  next : w'.next = w.next

theorem SameItems.refl (w : World) : SameItems w w := ⟨rfl, rfl, rfl, rfl⟩

theorem SameItems.trans {w w' w'' : World} (h : SameItems w w') (h' : SameItems w' w'') :
    SameItems w w'' :=
  ⟨h'.item.trans h.item, h'.player.trans h.player, h'.tile.trans h.tile, h'.next.trans h.next⟩

theorem SameItems.things {w w' : World} (h : SameItems w w') : w'.things = w.things := by
  funext c
  cases c with
  | container j => simp only [World.things, h.item]
  | player p => simp only [World.things, h.player]
  | tile t => simp only [World.things, h.tile]

theorem sameItems_updateItemWeight (n : ℕ) (w : World) (j : ItemId) (diff : ℤ) :
    SameItems w (w.updateItemWeight n j diff) := by
  induction n generalizing w j with
  | zero => exact .refl w
  | succ n ih =>
    unfold World.updateItemWeight
    dsimp only
    split
    · exact ⟨rfl, rfl, rfl, rfl⟩
    · refine .trans ?_ (ih _ _)
      exact ⟨rfl, rfl, rfl, rfl⟩

theorem sameItems_updateInventoryWeight (w : World) (p : PlayerId) :
    SameItems w (w.updateInventoryWeight p) :=
  ⟨rfl, rfl, rfl, rfl⟩

/-- Cylinders that a player can carry, and players, as against tiles. -/
def Cylinder.isTile : Cylinder → Bool
  | .tile _ => true
  | _ => false

/-- A cylinder leaves an item alone that is added to it: a tile has no trash holder but the item
itself, and no mailbox that could send it. -/
def World.Inert (w : World) (c : Cylinder) (i : ItemId) : Prop :=
  ∀ t, c = .tile t → (∀ j ∈ w.things (.tile t), (w.item j).kind.type = .trashHolder → j = i) ∧
    (Mailbox.canSend (w.item i) = true → ∀ j ∈ w.things (.tile t), (w.item j).kind.type ≠ .mailbox)

theorem World.inert_of_isTile {w : World} {c : Cylinder} (h : c.isTile = false) (i : ItemId) :
    w.Inert c i := by
  rintro t rfl
  cases h

theorem Tile.mem_of_findType {w : World} {t : TileId} {type : ItemType} {i : ItemId}
    (h : Tile.findType w t type = some i) :
    i ∈ w.things (.tile t) ∧ (w.item i).kind.type = type := by
  rw [Tile.findType] at h
  have htype := List.find?_some h
  have hmem := List.mem_of_find?_eq_some h
  simp only [List.mem_append, List.mem_reverse, or_assoc] at hmem
  simp only [World.things, Tile.items, List.mem_append, or_assoc]
  exact ⟨hmem, of_decide_eq_true htype⟩

theorem World.Inert.tile {srv : Server} {w : World} {t : TileId} {i : ItemId}
    (h : w.Inert (.tile t) i) : Tile.postAddNotification srv w t i = w := by
  obtain ⟨htrash, hmail⟩ := h t rfl
  rw [Tile.postAddNotification]
  split
  · next hflag =>
    split
    · next trashHolder hfound =>
      rw [Tile.getTrashHolder, if_pos hflag] at hfound
      obtain ⟨hmem, htype⟩ := Tile.mem_of_findType hfound
      rw [TrashHolder.addThing, if_pos (.inl (htrash trashHolder hmem htype).symm)]
    · rfl
  split
  · next hflag =>
    split
    · next mailbox hfound =>
      rw [Tile.getMailbox, if_pos hflag] at hfound
      obtain ⟨hmem, htype⟩ := Tile.mem_of_findType hfound
      rw [Mailbox.addThing, if_neg fun hsend => hmail hsend mailbox hmem htype]
    · rfl
  · rfl

theorem World.Inert.of_sameItems {w w' : World} {c : Cylinder} {i : ItemId} (h : w.Inert c i)
    (hs : SameItems w w') : w'.Inert c i := by
  unfold World.Inert at h ⊢
  rw [hs.things, hs.item]
  exact h

theorem sameItems_postAddNotification {srv : Server} (hsrv : srv.Quiet) (w : World)
    {c : Cylinder} {i : ItemId} (hc : w.Inert c i) (index : ℤ) :
    SameItems w (Cylinder.postAddNotification srv w c i index) := by
  unfold Cylinder.postAddNotification
  split
  · dsimp only
    rw [hsrv.equip]
    exact ⟨rfl, rfl, rfl, rfl⟩
  · split
    · exact sameItems_updateInventoryWeight w _
    · exact .refl w
  · rw [hc.tile]
    exact .refl w

theorem sameItems_postRemoveNotification {srv : Server} (hsrv : srv.Quiet) (w : World)
    (c : Cylinder) (i : ItemId) (index : ℤ) (isCompleteRemoval : Bool) :
    SameItems w (Cylinder.postRemoveNotification srv w c i index isCompleteRemoval) := by
  unfold Cylinder.postRemoveNotification
  split
  · dsimp only
    rw [hsrv.deEquip]
    exact ⟨rfl, rfl, rfl, rfl⟩
  · split
    · exact sameItems_updateInventoryWeight w _
    · exact .refl w
  · exact .refl w

theorem sameItems_notifyAdded {srv : Server} (hsrv : srv.Quiet) (w : World) {c : Cylinder}
    {i : Option ItemId} (hc : ∀ y, i = some y → w.Inert c y) :
    SameItems w (Cylinder.notifyAdded srv w c i) := by
  unfold Cylinder.notifyAdded
  split
  · exact .refl w
  · next y =>
    dsimp only
    split
    · exact .refl w
    · exact sameItems_postAddNotification hsrv w (hc y rfl) _

/-! ## The invariant -/

/-- What holds of every item in the forest. -/
structure ItemInOrder (srv : Server) (item : Item) : Prop where
  kind_known : srv.items.kind item.kind.id = some item.kind
  one_le : item.isStackable = true → 1 ≤ item.count
  le_hundred : item.isStackable = true → item.count ≤ 100
  not_container : item.isStackable = true → item.isContainer = false

/-- No cylinder holds an item twice. -/
structure World.Distinct (w : World) : Prop where
  itemlist : ∀ j, (w.item j).itemlist.Nodup
  slot : ∀ p s s' i, s ∈ slots → s' ∈ slots → (w.player p).inventory s = some i →
    (w.player p).inventory s' = some i → s = s'
  tile : ∀ t, (w.tile t).items.Nodup

/-- The items of a tile are sorted by whether they are always on top. -/
structure World.TilesSorted (w : World) : Prop where
  top : ∀ t, ∀ i ∈ (w.tile t).topItems, (w.item i).kind.alwaysOnTop = true
  down : ∀ t, ∀ i ∈ (w.tile t).downItems, (w.item i).kind.alwaysOnTop = false

/-- The links agree. -/
structure World.Consistent (w : World) : Prop where
  mem_things : ∀ c i, i ∈ w.things c ↔ (w.item i).parent = some c
  distinct : w.Distinct
  sorted : w.TilesSorted

structure Forest (srv : Server) (w : World) : Prop extends w.Consistent where
  lt_next : ∀ i c, (w.item i).parent = some c → i < w.next
  container : ∀ i j, (w.item i).parent = some (.container j) →
    (w.item j).isContainer = true ∧ j < w.next
  inOrder : ∀ i c, (w.item i).parent = some c → ItemInOrder srv (w.item i)

/-- A cylinder that exists. -/
def World.Holder (w : World) : Cylinder → Prop
  | .container j => (w.item j).isContainer = true ∧ j < w.next
  | .player _ => True
  | .tile _ => True

theorem World.holder_container {w : World} {j : ItemId} :
    w.Holder (.container j) ↔ (w.item j).isContainer = true ∧ j < w.next := Iff.rfl

theorem Forest.of_sameItems {srv : Server} {w w' : World} (hw : Forest srv w)
    (h : SameItems w w') : Forest srv w' := by
  obtain ⟨hi, hp, ht, hn⟩ := h
  have hthings := SameItems.things ⟨hi, hp, ht, hn⟩
  refine ⟨⟨?_, ?_, ?_⟩, ?_, ?_, ?_⟩
  · rw [hthings, hi]
    exact hw.mem_things
  · constructor
    · rw [hi]
      exact hw.distinct.itemlist
    · rw [hp]
      exact hw.distinct.slot
    · rw [ht]
      exact hw.distinct.tile
  · constructor
    · rw [ht, hi]
      exact hw.sorted.top
    · rw [ht, hi]
      exact hw.sorted.down
  · rw [hi, hn]
    exact hw.lt_next
  · rw [hi, hn]
    exact hw.container
  · rw [hi]
    exact hw.inOrder

/-! ## Indexes -/

theorem mem_slots {s : ℕ} : s ∈ slots ↔ 1 ≤ s ∧ s ≤ 10 := by
  simp only [slots, List.mem_cons, List.not_mem_nil, or_false]
  omega

theorem mem_things_player {w : World} {p : PlayerId} {i : ItemId} :
    i ∈ w.things (.player p) ↔ ∃ s ∈ slots, (w.player p).inventory s = some i := by
  simp only [World.things, List.mem_filterMap]

theorem mem_things_tile {w : World} {t : TileId} {i : ItemId} :
    i ∈ w.things (.tile t) ↔
      (w.tile t).ground = some i ∨ i ∈ (w.tile t).topItems ∨ i ∈ (w.tile t).downItems := by
  simp only [World.things, Tile.items, List.mem_append, Option.mem_toList, or_assoc]

theorem Player.getIndexOfThing_slot {w : World} {p : PlayerId} {i : ItemId}
    (h : Player.getIndexOfThing w p i ≠ -1) :
    ∃ s ∈ slots, Player.getIndexOfThing w p i = s ∧ (w.player p).inventory s = some i := by
  unfold Player.getIndexOfThing at h ⊢
  split
  · next s hs =>
    refine ⟨s, List.mem_of_find?_eq_some hs, rfl, ?_⟩
    simpa using List.find?_some hs
  · next hs => exact absurd (by rw [hs]) h

/-- `__getIndexOfThing` finds exactly the things of the cylinder. -/
theorem getIndexOfThing_ne {w : World} {c : Cylinder} {i : ItemId} :
    Cylinder.getIndexOfThing w c i ≠ -1 ↔ i ∈ w.things c := by
  cases c with
  | container j =>
    simp only [Cylinder.getIndexOfThing, Container.getIndexOfThing, World.things]
    cases h : (w.item j).itemlist.idxOf? i with
    | none => simpa using List.idxOf?_eq_none_iff.mp h
    | some n =>
      have hmem : i ∈ (w.item j).itemlist := by
        by_contra hc
        rw [List.idxOf?_eq_none_iff.mpr hc] at h
        cases h
      simp only [hmem, iff_true]
      omega
  | player p =>
    simp only [Cylinder.getIndexOfThing, mem_things_player]
    constructor
    · intro h
      obtain ⟨s, hs, -, hi⟩ := Player.getIndexOfThing_slot h
      exact ⟨s, hs, hi⟩
    · rintro ⟨s, hs, hi⟩
      unfold Player.getIndexOfThing
      split
      · omega
      · next hnone =>
        rw [List.find?_eq_none] at hnone
        exact absurd (by simpa using hi) (hnone s hs)
  | tile t =>
    simp only [Cylinder.getIndexOfThing, Tile.getIndexOfThing, mem_things_tile]
    have hidx {l : List ItemId} {n : ℕ} (h : l.idxOf? i = some n) : i ∈ l := by
      by_contra hc
      rw [List.idxOf?_eq_none_iff.mpr hc] at h
      cases h
    split
    · next hg => simp [hg]
    · next hg =>
      split
      · next n hn =>
        simp only [hidx hn, true_or, or_true, iff_true]
        omega
      · next hn =>
        split
        · next n hd =>
          simp only [hidx hd, or_true, iff_true]
          omega
        · next hd =>
          simp [hg, List.idxOf?_eq_none_iff.mp hn, List.idxOf?_eq_none_iff.mp hd]

/-! ## One link changes -/

/-- Only the parent of `i` is another one. -/
structure Moved (w w' : World) (i : ItemId) (parent : Option Cylinder) : Prop where
  core : ∀ j, (w'.item j).core = (w.item j).core
  parent_self : (w'.item i).parent = parent
  parent_other : ∀ j, j ≠ i → (w'.item j).parent = (w.item j).parent
  next : w'.next = w.next

theorem Moved.sameItems {w w' w'' : World} {i : ItemId} {parent : Option Cylinder}
    (h : Moved w w' i parent) (hs : SameItems w' w'') : Moved w w'' i parent := by
  constructor
  · rw [hs.item]
    exact h.core
  · rw [hs.item]
    exact h.parent_self
  · rw [hs.item]
    exact h.parent_other
  · rw [hs.next]
    exact h.next

theorem ItemInOrder.of_core {srv : Server} {a b : Item} (ha : ItemInOrder srv a)
    (h : b.core = a.core) : ItemInOrder srv b := by
  constructor
  · rw [Item.core_kind h]
    exact ha.kind_known
  · rw [Item.core_isStackable h, Item.core_count h]
    exact ha.one_le
  · rw [Item.core_isStackable h, Item.core_count h]
    exact ha.le_hundred
  · rw [Item.core_isStackable h, Item.core_isContainer h]
    exact ha.not_container

/-- An item leaves its cylinder. -/
theorem Forest.detach {srv : Server} {w w' : World} {i : ItemId} (hw : Forest srv w)
    (hm : Moved w w' i none) (hthings : ∀ c x, x ∈ w'.things c ↔ x ∈ w.things c ∧ x ≠ i)
    (hdistinct : w'.Distinct) (hsorted : w'.TilesSorted) : Forest srv w' := by
  have hparent (x : ItemId) (c : Cylinder) (h : (w'.item x).parent = some c) :
      x ≠ i ∧ (w.item x).parent = some c := by
    have hx : x ≠ i := by
      rintro rfl
      rw [hm.parent_self] at h
      cases h
    exact ⟨hx, hm.parent_other x hx ▸ h⟩
  refine ⟨⟨?_, ?_, ?_⟩, ?_, ?_, ?_⟩
  · intro c x
    rw [hthings, hw.mem_things]
    constructor
    · rintro ⟨h, hx⟩
      rw [hm.parent_other x hx]
      exact h
    · intro h
      exact (hparent x c h).symm
  · exact hdistinct
  · exact hsorted
  · intro x c h
    rw [hm.next]
    exact hw.lt_next x c (hparent x c h).2
  · intro x j h
    rw [Item.core_isContainer (hm.core j), hm.next]
    exact hw.container x j (hparent x _ h).2
  · intro x c h
    exact (hw.inOrder x c (hparent x c h).2).of_core (hm.core x)

/-- An item that lies nowhere enters a cylinder. -/
theorem Forest.attach {srv : Server} {w w' : World} {i : ItemId} {c : Cylinder}
    (hw : Forest srv w) (hm : Moved w w' i (some c)) (hnone : (w.item i).parent = none)
    (hin : ItemInOrder srv (w.item i)) (hlt : i < w.next) (hc : w.Holder c)
    (hthings : ∀ c' x, x ∈ w'.things c' ↔ x ∈ w.things c' ∨ c' = c ∧ x = i)
    (hdistinct : w'.Distinct) (hsorted : w'.TilesSorted) : Forest srv w' := by
  have hparent (x : ItemId) (c' : Cylinder) (h : (w'.item x).parent = some c') :
      x ≠ i ∧ (w.item x).parent = some c' ∨ x = i ∧ c' = c := by
    by_cases hx : x = i
    · subst hx
      rw [hm.parent_self] at h
      exact .inr ⟨rfl, (Option.some.inj h).symm⟩
    · exact .inl ⟨hx, hm.parent_other x hx ▸ h⟩
  refine ⟨⟨?_, ?_, ?_⟩, ?_, ?_, ?_⟩
  · intro c' x
    rw [hthings, hw.mem_things]
    constructor
    · rintro (h | ⟨rfl, rfl⟩)
      · have hx : x ≠ i := by
          rintro rfl
          rw [hnone] at h
          cases h
        rw [hm.parent_other x hx]
        exact h
      · exact hm.parent_self
    · intro h
      rcases hparent x c' h with ⟨-, h⟩ | ⟨rfl, rfl⟩
      · exact .inl h
      · exact .inr ⟨rfl, rfl⟩
  · exact hdistinct
  · exact hsorted
  · intro x c' h
    rw [hm.next]
    rcases hparent x c' h with ⟨-, h⟩ | ⟨rfl, -⟩
    · exact hw.lt_next x c' h
    · exact hlt
  · intro x j h
    rw [Item.core_isContainer (hm.core j), hm.next]
    rcases hparent x _ h with ⟨-, h⟩ | ⟨-, rfl⟩
    · exact hw.container x j h
    · exact hc
  · intro x c' h
    rcases hparent x c' h with ⟨-, h⟩ | ⟨rfl, -⟩
    · exact (hw.inOrder x c' h).of_core (hm.core x)
    · exact hin.of_core (hm.core x)

end TyanoCore
