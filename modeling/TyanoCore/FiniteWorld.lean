import Mathlib.Data.List.GetD
import TyanoCore.Forest

/-!
# Worlds given by lists

A world with finitely many items, players and tiles; whether it is a forest can be computed.
-/

namespace TyanoCore

def blankItem : Item := { kind := { id := 0 } }

/-- The items, players and tiles of three lists, numbered in order; no weights are remembered. -/
def World.ofLists (items : List Item) (players : List Player) (tiles : List Tile) : World where
  item i := items.getD i blankItem
  player p := players.getD p {}
  tile t := tiles.getD t {}
  totalWeight _ := 0
  inventoryWeight _ := 0
  abilities _ _ := false
  next := items.length

def Items.ofKinds (kinds : List ItemKind) (worth : List (ℕ × KindId)) : Items where
  kind id := kinds.find? fun k => k.id = id
  worth := worth
  kind_id h := by simpa using List.find?_some h

instance (srv : Server) (item : Item) : Decidable (ItemInOrder srv item) :=
  decidable_of_iff
    (srv.items.kind item.kind.id = some item.kind ∧ (item.isStackable = true → 1 ≤ item.count) ∧
      (item.isStackable = true → item.count ≤ 100) ∧
      (item.isStackable = true → item.isContainer = false))
    ⟨fun h => ⟨h.1, h.2.1, h.2.2.1, h.2.2.2⟩,
      fun h => ⟨h.kind_known, h.one_le, h.le_hundred, h.not_container⟩⟩

/-- Every cylinder's things, seen from the cylinder. -/
structure Contents (w : World) (c : Cylinder) : Prop where
  parent : ∀ i ∈ w.things c, (w.item i).parent = some c
  nodup : (w.things c).Nodup

instance (w : World) (c : Cylinder) : Decidable (Contents w c) :=
  decidable_of_iff ((∀ i ∈ w.things c, (w.item i).parent = some c) ∧ (w.things c).Nodup)
    ⟨fun h => ⟨h.1, h.2⟩, fun h => ⟨h.parent, h.nodup⟩⟩

instance (w : World) (c : Cylinder) : Decidable (w.Holder c) := by
  unfold World.Holder
  split <;> infer_instance

/-- Every item, seen from the item. -/
def Linked (srv : Server) (w : World) (i : ItemId) : Prop :=
  match (w.item i).parent with
  | none => True
  | some c => i ∈ w.things c ∧ ItemInOrder srv (w.item i) ∧ w.Holder c

instance (srv : Server) (w : World) (i : ItemId) : Decidable (Linked srv w i) := by
  unfold Linked
  split <;> infer_instance

/-- The items of a tile are sorted. -/
def Sorted (w : World) (t : TileId) : Prop :=
  (∀ i ∈ (w.tile t).topItems, (w.item i).kind.alwaysOnTop = true) ∧
    ∀ i ∈ (w.tile t).downItems, (w.item i).kind.alwaysOnTop = false

instance (w : World) (t : TileId) : Decidable (Sorted w t) := by
  unfold Sorted
  infer_instance

/-- What has to be checked of finitely many items, players and tiles. -/
def World.CheckForest (srv : Server) (items : List Item) (players : List Player)
    (tiles : List Tile) : Prop :=
  let w := World.ofLists items players tiles
  (∀ j < items.length, Contents w (.container j) ∧ Linked srv w j) ∧
    (∀ p < players.length, Contents w (.player p)) ∧
    ∀ t < tiles.length, Contents w (.tile t) ∧ Sorted w t

instance (srv : Server) (items : List Item) (players : List Player) (tiles : List Tile) :
    Decidable (World.CheckForest srv items players tiles) := by
  unfold World.CheckForest
  infer_instance

variable {srv : Server} {items : List Item} {players : List Player} {tiles : List Tile}

theorem ofLists_contents (h : World.CheckForest srv items players tiles) (c : Cylinder) :
    Contents (World.ofLists items players tiles) c := by
  obtain ⟨hitems, hplayers, htiles⟩ := h
  cases c with
  | container j =>
    by_cases hj : j < items.length
    · exact (hitems j hj).1
    · have hnil : (World.ofLists items players tiles).things (.container j) = [] := by
        simp only [World.things, World.ofLists]
        rw [List.getD_eq_default _ _ (Nat.le_of_not_lt hj)]
        rfl
      constructor <;> rw [hnil] <;> simp
  | player p =>
    by_cases hp : p < players.length
    · exact hplayers p hp
    · have hnil : (World.ofLists items players tiles).things (.player p) = [] := by
        simp only [World.things, World.ofLists]
        rw [List.getD_eq_default _ _ (Nat.le_of_not_lt hp)]
        rfl
      constructor <;> rw [hnil] <;> simp
  | tile t =>
    by_cases ht : t < tiles.length
    · exact (htiles t ht).1
    · have hnil : (World.ofLists items players tiles).things (.tile t) = [] := by
        simp only [World.things, World.ofLists]
        rw [List.getD_eq_default _ _ (Nat.le_of_not_lt ht)]
        rfl
      constructor <;> rw [hnil] <;> simp

theorem slot_unique_of_nodup {inventory : ℕ → Option ItemId} {l : List ℕ}
    (h : (l.filterMap inventory).Nodup) {s s' : ℕ} {i : ItemId} (hs : s ∈ l) (hs' : s' ∈ l)
    (hi : inventory s = some i) (hi' : inventory s' = some i) : s = s' := by
  induction l with
  | nil => cases hs
  | cons a l ih =>
    have hmem {x : ℕ} (hx : x ∈ l) (hxi : inventory x = some i) : i ∈ l.filterMap inventory :=
      List.mem_filterMap.mpr ⟨x, hx, hxi⟩
    rw [List.filterMap_cons] at h
    rcases List.mem_cons.mp hs with rfl | htail
    · rcases List.mem_cons.mp hs' with rfl | htail'
      · rfl
      · rw [hi] at h
        exact absurd (hmem htail' hi') (List.nodup_cons.mp h).1
    · rcases List.mem_cons.mp hs' with rfl | htail'
      · rw [hi'] at h
        exact absurd (hmem htail hi) (List.nodup_cons.mp h).1
      · refine ih ?_ htail htail'
        split at h
        · exact h
        · exact (List.nodup_cons.mp h).2

/-- A finite world that passes the check is a forest. -/
theorem forest_ofLists (h : World.CheckForest srv items players tiles) :
    Forest srv (World.ofLists items players tiles) := by
  have hcontents := ofLists_contents h
  have hplaced (i : ItemId) (c : Cylinder)
      (hi : ((World.ofLists items players tiles).item i).parent = some c) :
      i < items.length ∧ Linked srv (World.ofLists items players tiles) i := by
    have hlt : i < items.length := by
      by_contra hge
      simp only [World.ofLists] at hi
      rw [List.getD_eq_default _ _ (Nat.le_of_not_lt hge)] at hi
      cases hi
    exact ⟨hlt, (h.1 i hlt).2⟩
  have hlinked (i : ItemId) (c : Cylinder)
      (hi : ((World.ofLists items players tiles).item i).parent = some c) :
      i ∈ (World.ofLists items players tiles).things c ∧
        ItemInOrder srv ((World.ofLists items players tiles).item i) ∧
        (World.ofLists items players tiles).Holder c := by
    have := (hplaced i c hi).2
    unfold Linked at this
    rw [hi] at this
    exact this
  refine ⟨⟨?_, ?_, ?_⟩, ?_, ?_, ?_⟩
  · intro c i
    exact ⟨(hcontents c).parent i, fun hi => (hlinked i c hi).1⟩
  · constructor
    · intro j
      exact (hcontents (.container j)).nodup
    · intro p s s' i hs hs' hi hi'
      exact slot_unique_of_nodup (hcontents (.player p)).nodup hs hs' hi hi'
    · intro t
      exact (hcontents (.tile t)).nodup
  · have hsorted (t : TileId) : Sorted (World.ofLists items players tiles) t := by
      by_cases ht : t < tiles.length
      · exact (h.2.2 t ht).2
      · unfold Sorted
        simp only [World.ofLists]
        rw [List.getD_eq_default _ _ (Nat.le_of_not_lt ht)]
        simp
    exact ⟨fun t => (hsorted t).1, fun t => (hsorted t).2⟩
  · intro i c hi
    exact (hplaced i c hi).1
  · intro i j hi
    exact (hlinked i _ hi).2.2
  · intro i c hi
    exact (hlinked i c hi).2.1

/-! ## A small world -/

namespace SmallWorld

def gold : ItemKind := { id := 2148, stackable := true, pickupable := true, worth := 1 }
def bag : ItemKind := { id := 1987, group := .container, pickupable := true }
def statue : ItemKind := { id := 1442 }
def ring : ItemKind := { id := 2169, pickupable := true, slotPosition := [.ring] }

def server (kinds : List ItemKind) : Server where
  items := Items.ofKinds kinds [(1, 2148)]
  loopBound := 8

theorem server_ordinary {kinds : List ItemKind}
    (h : ∀ k ∈ kinds, k.stackable = true → k.isPlain = true) : (server kinds).Ordinary := by
  refine ⟨⟨?_, ?_⟩, ?_⟩
  · intro w p i slot
    rfl
  · intro w p i slot isRemoval
    rfl
  · intro id k hk hs
    exact h k (List.mem_of_find?_eq_some hk) hs

/-- The bag, item 0, lies on the tile. -/
def bagHolding (itemlist : List ItemId) : Item :=
  { kind := bag, isContainer := true, maxSize := 8, itemlist := itemlist
    parent := some (.tile 0) }

def inBag (kind : ItemKind) : Item := { kind := kind, parent := some (.container 0) }

def inSlot (kind : ItemKind) : Item := { kind := kind, parent := some (.player 0) }

def tile : Tile := { downItems := [0], hasItemList := true }

/-- A player on the tile whose capacity is unlimited. -/
def carrier (inventory : ℕ → Option ItemId) : Player :=
  { inventory := inventory, hasInfiniteCapacity := true, tile := some 0 }

end SmallWorld

end TyanoCore
