import TyanoCore.Forest

/-!
# The updates keep the forest

Each of `__addThing`, `__removeThing` and `__updateThing` changes one link or one item; containers
and players first, tiles at the end.
-/

namespace TyanoCore

variable {srv : Server} {w : World}

/-! ## Edits of the links -/

@[simp] theorem setItem_item (i j : ItemId) (item : Item) :
    (w.setItem i item).item j = if j = i then item else w.item j := rfl

theorem setItem_setItem (i : ItemId) (item item' : Item) :
    (w.setItem i item).setItem i item' = w.setItem i item' := by
  rw [World.setItem, World.setItem, World.setItem]
  congr 1
  ext j : 1
  dsimp only
  split
  · rfl
  · rfl

theorem moved_setItemList (i : ItemId) (parent : Option Cylinder) (j : ItemId)
    (l : List ItemId) : Moved w ((w.setParent i parent).setItemList j l) i parent := by
  constructor
  · intro x
    simp only [World.setItemList, World.setParent, setItem_item, Item.core]
    split_ifs <;> simp_all
  · simp only [World.setItemList, World.setParent, setItem_item]
    split_ifs <;> simp_all
  · intro x hx
    simp only [World.setItemList, World.setParent, setItem_item]
    split_ifs <;> simp_all
  · rfl

theorem moved_setInventory (i : ItemId) (parent : Option Cylinder) (p : PlayerId) (s : ℕ)
    (x : Option ItemId) : Moved w ((w.setParent i parent).setInventory p s x) i parent := by
  constructor
  · intro y
    simp only [World.setInventory, World.setPlayer, World.setParent, setItem_item, Item.core]
    split_ifs <;> simp_all
  · simp only [World.setInventory, World.setPlayer, World.setParent, setItem_item, if_true]
  · intro y hy
    simp only [World.setInventory, World.setPlayer, World.setParent, setItem_item, if_neg hy]
  · rfl

theorem moved_setTile (i : ItemId) (parent : Option Cylinder) (t : TileId) (tile : Tile) :
    Moved w ((w.setParent i parent).setTile t tile) i parent := by
  constructor
  · intro y
    simp only [World.setTile, World.setParent, setItem_item, Item.core]
    split_ifs <;> simp_all
  · simp only [World.setTile, World.setParent, setItem_item, if_true]
  · intro y hy
    simp only [World.setTile, World.setParent, setItem_item, if_neg hy]
  · rfl

theorem itemlist_setParent (i : ItemId) (parent : Option Cylinder) (k : ItemId) :
    ((w.setParent i parent).item k).itemlist = (w.item k).itemlist := by
  simp only [World.setParent, setItem_item]
  split_ifs <;> simp_all

/-! ## Containers -/

/-- The list of one container changes, by one item whose parent changes with it. -/
theorem distinct_setItemList (hw : Forest srv w) (i : ItemId) (parent : Option Cylinder)
    (j : ItemId) {l : List ItemId} (hl : l.Nodup) :
    ((w.setParent i parent).setItemList j l).Distinct := by
  constructor
  · intro k
    rw [World.itemlist_setItemList]
    split
    · exact hl
    · exact hw.distinct.itemlist k
  · exact hw.distinct.slot
  · exact hw.distinct.tile

theorem sorted_setItemList (hw : Forest srv w) (i : ItemId) (parent : Option Cylinder)
    (j : ItemId) (l : List ItemId) : ((w.setParent i parent).setItemList j l).TilesSorted := by
  have hm := moved_setItemList (w := w) i parent j l
  constructor
  · intro t x hx
    rw [Item.core_kind (hm.core x)]
    exact hw.sorted.top t x hx
  · intro t x hx
    rw [Item.core_kind (hm.core x)]
    exact hw.sorted.down t x hx

theorem Container.detach (hw : Forest srv w) {j i : ItemId}
    (hi : i ∈ w.things (.container j)) :
    Forest srv ((w.setParent i none).setItemList j ((w.item j).itemlist.erase i)) := by
  have hnd := hw.distinct.itemlist j
  refine hw.detach (moved_setItemList i none j _) ?_
    (distinct_setItemList hw i none j (hnd.erase i)) (sorted_setItemList hw i none j _)
  intro c x
  have hother (h : x ∈ w.things c) (hc : c ≠ .container j) : x ≠ i := by
    rintro rfl
    have h1 := (hw.mem_things _ _).mp hi
    have h2 := (hw.mem_things _ _).mp h
    exact hc (Option.some.inj (h2.symm.trans h1))
  cases c with
  | container k =>
    simp only [World.things, World.itemlist_setItemList]
    by_cases hk : k = j
    · subst hk
      rw [if_pos rfl, hnd.mem_erase_iff]
      exact and_comm
    · rw [if_neg hk]
      exact ⟨fun h => ⟨h, hother h (by simpa using hk)⟩, fun h => h.1⟩
  | player p => exact ⟨fun h => ⟨h, hother h (by simp)⟩, fun h => h.1⟩
  | tile t => exact ⟨fun h => ⟨h, hother h (by simp)⟩, fun h => h.1⟩

theorem Container.attach (hw : Forest srv w) {j i : ItemId} (hnone : (w.item i).parent = none)
    (hin : ItemInOrder srv (w.item i)) (hlt : i < w.next) (hj : w.Holder (.container j)) :
    Forest srv ((w.setParent i (some (.container j))).setItemList j
      (i :: (w.item j).itemlist)) := by
  have hnew : i ∉ (w.item j).itemlist := by
    intro h
    rw [(hw.mem_things (.container j) i).mp h] at hnone
    cases hnone
  refine hw.attach (moved_setItemList i _ j _) hnone hin hlt hj ?_
    (distinct_setItemList hw i _ j (List.nodup_cons.mpr ⟨hnew, hw.distinct.itemlist j⟩))
    (sorted_setItemList hw i _ j _)
  intro c x
  cases c with
  | container k =>
    simp only [World.things, World.itemlist_setItemList, Cylinder.container.injEq]
    by_cases hk : k = j
    · subst hk
      rw [if_pos rfl, List.mem_cons]
      simp only [true_and]
      exact or_comm
    · rw [if_neg hk]
      simp only [hk, false_and, or_false]
  | player p => exact ⟨.inl, fun h => h.resolve_right (by simp)⟩
  | tile t => exact ⟨.inl, fun h => h.resolve_right (by simp)⟩

/-! ## Players -/

theorem inventory_setInventory (i : ItemId) (parent : Option Cylinder) (p q : PlayerId) (s s' : ℕ)
    (x : Option ItemId) : (((w.setParent i parent).setInventory p s x).player q).inventory s' =
      if q = p ∧ s' = s then x else (w.player q).inventory s' := by
  simp only [World.setInventory, World.setPlayer, World.setParent, World.setItem]
  split_ifs <;> simp_all

theorem sorted_setInventory (hw : Forest srv w) (i : ItemId) (parent : Option Cylinder)
    (p : PlayerId) (s : ℕ) (x : Option ItemId) :
    ((w.setParent i parent).setInventory p s x).TilesSorted := by
  have hm := moved_setInventory (w := w) i parent p s x
  constructor
  · intro t y hy
    rw [Item.core_kind (hm.core y)]
    exact hw.sorted.top t y hy
  · intro t y hy
    rw [Item.core_kind (hm.core y)]
    exact hw.sorted.down t y hy

theorem things_setInventory_container (i : ItemId) (parent : Option Cylinder) (p : PlayerId)
    (s : ℕ) (x : Option ItemId) (k : ItemId) :
    ((w.setParent i parent).setInventory p s x).things (.container k) =
      w.things (.container k) :=
  itemlist_setParent i parent k

theorem Player.detach (hw : Forest srv w) {p : PlayerId} {s : ℕ} {i : ItemId} (hs : s ∈ slots)
    (hi : (w.player p).inventory s = some i) :
    Forest srv ((w.setParent i none).setInventory p s none) := by
  have hparent : (w.item i).parent = some (.player p) :=
    (hw.mem_things _ _).mp (mem_things_player.mpr ⟨s, hs, hi⟩)
  have hother {c : Cylinder} {x : ItemId} (h : x ∈ w.things c) (hc : c ≠ .player p) : x ≠ i := by
    rintro rfl
    rw [hw.mem_things, hparent] at h
    exact hc (Option.some.inj h).symm
  have hslot (q : PlayerId) (s' : ℕ) (x : ItemId) (hs' : s' ∈ slots)
      (h : ¬ (q = p ∧ s' = s)) (hx : (w.player q).inventory s' = some x) : x ≠ i := by
    rintro rfl
    have hq := (hw.mem_things (.player q) x).mp (mem_things_player.mpr ⟨s', hs', hx⟩)
    have hqp : q = p := by simpa [hparent, eq_comm] using hq
    exact h ⟨hqp, hw.distinct.slot q s' s x hs' hs hx (hqp ▸ hi)⟩
  refine hw.detach (moved_setInventory i none p s none) ?_ ?_ (sorted_setInventory hw i none p s _)
  · intro c x
    cases c with
    | container k =>
      rw [things_setInventory_container]
      exact ⟨fun h => ⟨h, hother h (by simp)⟩, fun h => h.1⟩
    | player q =>
      simp only [mem_things_player, inventory_setInventory]
      constructor
      · rintro ⟨s', hs', h⟩
        split_ifs at h with hqs
        exact ⟨⟨s', hs', h⟩, hslot q s' x hs' hqs h⟩
      · rintro ⟨⟨s', hs', h⟩, hx⟩
        refine ⟨s', hs', ?_⟩
        rw [if_neg, h]
        rintro ⟨rfl, rfl⟩
        rw [hi] at h
        exact hx (Option.some.inj h).symm
    | tile t =>
      change x ∈ w.things (.tile t) ↔ _
      exact ⟨fun h => ⟨h, hother h (by simp)⟩, fun h => h.1⟩
  · constructor
    · intro k
      change ((w.setParent i none).item k).itemlist.Nodup
      rw [itemlist_setParent]
      exact hw.distinct.itemlist k
    · intro q s₁ s₂ x h₁ h₂ hx₁ hx₂
      rw [inventory_setInventory] at hx₁ hx₂
      split_ifs at hx₁ hx₂
      exact hw.distinct.slot q s₁ s₂ x h₁ h₂ hx₁ hx₂
    · exact hw.distinct.tile

theorem Player.attach (hw : Forest srv w) {p : PlayerId} {s : ℕ} {i : ItemId}
    (hs : s ∈ slots) (hempty : (w.player p).inventory s = none)
    (hnone : (w.item i).parent = none) (hin : ItemInOrder srv (w.item i)) (hlt : i < w.next) :
    Forest srv ((w.setParent i (some (.player p))).setInventory p s (some i)) := by
  have hnew (q : PlayerId) (s' : ℕ) (hs' : s' ∈ slots) : (w.player q).inventory s' ≠ some i := by
    intro h
    rw [(hw.mem_things (.player q) i).mp (mem_things_player.mpr ⟨s', hs', h⟩)] at hnone
    cases hnone
  refine hw.attach (moved_setInventory i _ p s _) hnone hin hlt trivial ?_ ?_
    (sorted_setInventory hw i _ p s _)
  · intro c x
    cases c with
    | container k =>
      rw [things_setInventory_container]
      exact ⟨.inl, fun h => h.resolve_right (by simp)⟩
    | player q =>
      simp only [mem_things_player, inventory_setInventory, Cylinder.player.injEq]
      constructor
      · rintro ⟨s', hs', h⟩
        split_ifs at h with hqs
        · exact .inr ⟨hqs.1, (Option.some.inj h).symm⟩
        · exact .inl ⟨s', hs', h⟩
      · rintro (⟨s', hs', h⟩ | ⟨rfl, rfl⟩)
        · refine ⟨s', hs', ?_⟩
          rw [if_neg, h]
          rintro ⟨rfl, rfl⟩
          rw [hempty] at h
          cases h
        · exact ⟨s, hs, if_pos ⟨rfl, rfl⟩⟩
    | tile t => exact ⟨.inl, fun h => h.resolve_right (by simp)⟩
  · constructor
    · intro k
      change ((w.setParent i (some (.player p))).item k).itemlist.Nodup
      rw [itemlist_setParent]
      exact hw.distinct.itemlist k
    · intro q s₁ s₂ x h₁ h₂ hx₁ hx₂
      rw [inventory_setInventory] at hx₁ hx₂
      split_ifs at hx₁ hx₂ with hs₁ hs₂ hs₂
      · exact hs₁.2.trans hs₂.2.symm
      · exact absurd (hx₂.trans hx₁.symm) (hnew q s₂ h₂)
      · exact absurd (hx₁.trans hx₂.symm) (hnew q s₁ h₁)
      · exact hw.distinct.slot q s₁ s₂ x h₁ h₂ hx₁ hx₂
    · exact hw.distinct.tile

/-! ## Tiles -/

theorem things_setTile (i : ItemId) (parent : Option Cylinder) (t : TileId) (tile : Tile)
    (c : Cylinder) : ((w.setParent i parent).setTile t tile).things c =
      if c = .tile t then tile.items else w.things c := by
  cases c with
  | container k =>
    rw [if_neg (by simp)]
    exact itemlist_setParent i parent k
  | player p =>
    rw [if_neg (by simp)]
    rfl
  | tile u =>
    simp only [World.things, World.setTile, World.setParent, World.setItem, Cylinder.tile.injEq]
    split <;> rfl

theorem distinct_setTile (hw : Forest srv w) (i : ItemId) (parent : Option Cylinder)
    (t : TileId) {tile : Tile} (h : tile.items.Nodup) :
    ((w.setParent i parent).setTile t tile).Distinct := by
  constructor
  · intro k
    change ((w.setParent i parent).item k).itemlist.Nodup
    rw [itemlist_setParent]
    exact hw.distinct.itemlist k
  · exact hw.distinct.slot
  · intro u
    change ((w.setParent i parent).setTile t tile).things (.tile u) |>.Nodup
    rw [things_setTile]
    split
    · exact h
    · exact hw.distinct.tile u

/-- The tile keeps its items sorted. -/
structure TileSorted (w : World) (tile : Tile) : Prop where
  top : ∀ i ∈ tile.topItems, (w.item i).kind.alwaysOnTop = true
  down : ∀ i ∈ tile.downItems, (w.item i).kind.alwaysOnTop = false

theorem sorted_setTile (hw : Forest srv w) (i : ItemId) (parent : Option Cylinder)
    (t : TileId) {tile : Tile} (h : TileSorted w tile) :
    ((w.setParent i parent).setTile t tile).TilesSorted := by
  have hm := moved_setTile (w := w) i parent t tile
  constructor
  · intro u x hx
    rw [Item.core_kind (hm.core x)]
    change x ∈ (if u = t then tile else w.tile u).topItems at hx
    split at hx
    · exact h.top x hx
    · exact hw.sorted.top u x hx
  · intro u x hx
    rw [Item.core_kind (hm.core x)]
    change x ∈ (if u = t then tile else w.tile u).downItems at hx
    split at hx
    · exact h.down x hx
    · exact hw.sorted.down u x hx

theorem Tile.detach (hw : Forest srv w) {t : TileId} {i : ItemId} {tile : Tile}
    (hi : i ∈ w.things (.tile t)) (hitems : tile.items = (w.tile t).items.erase i)
    (hsorted : TileSorted w tile) : Forest srv ((w.setParent i none).setTile t tile) := by
  have hparent := (hw.mem_things _ _).mp hi
  have hold := hw.distinct.tile t
  have hnodup : tile.items.Nodup := hitems ▸ hold.erase i
  refine hw.detach (moved_setTile i none t tile) ?_ (distinct_setTile hw i none t hnodup)
    (sorted_setTile hw i none t hsorted)
  intro c x
  rw [things_setTile]
  split
  · next hc =>
    rw [hc, hitems, hold.mem_erase_iff]
    exact and_comm
  · next hc =>
    constructor
    · intro h
      refine ⟨h, ?_⟩
      rintro rfl
      rw [hw.mem_things, hparent] at h
      exact hc (Option.some.inj h).symm
    · exact fun h => h.1

theorem Tile.attach (hw : Forest srv w) {t : TileId} {i : ItemId} {tile : Tile}
    (hnone : (w.item i).parent = none) (hin : ItemInOrder srv (w.item i)) (hlt : i < w.next)
    (hitems : ∀ x, x ∈ tile.items ↔ x ∈ (w.tile t).items ∨ x = i) (hnodup : tile.items.Nodup)
    (hsorted : TileSorted w tile) :
    Forest srv ((w.setParent i (some (.tile t))).setTile t tile) := by
  refine hw.attach (moved_setTile i _ t tile) hnone hin hlt trivial ?_
    (distinct_setTile hw i _ t hnodup) (sorted_setTile hw i _ t hsorted)
  intro c x
  rw [things_setTile]
  split
  · next hc =>
    rw [hc, hitems]
    simp [World.things]
  · next hc => simp [hc]

/-- A tile without one of its items. -/
structure Tile.Lacks (tile tile' : Tile) (i : ItemId) : Prop where
  ground : tile'.ground = tile.ground.filter (· ≠ i)
  topItems : tile'.topItems = tile.topItems.filter (· ≠ i)
  downItems : tile'.downItems = tile.downItems.filter (· ≠ i)
  creatures : tile'.creatures = tile.creatures

theorem filter_ne_eq_self {l : List ItemId} {i : ItemId} (h : i ∉ l) : l.filter (· ≠ i) = l := by
  rw [List.filter_eq_self]
  intro x hx
  exact decide_eq_true fun heq => h (heq ▸ hx)

theorem option_filter_ne_eq_self {o : Option ItemId} {i : ItemId} (h : o ≠ some i) :
    o.filter (· ≠ i) = o := by
  cases o with
  | none => rfl
  | some x =>
    have hne : x ≠ i := fun heq => h (congrArg some heq)
    simp [Option.filter, hne]

theorem erase_eq_filter_ne {l : List ItemId} (hl : l.Nodup) (i : ItemId) :
    l.erase i = l.filter (· ≠ i) := by
  rw [hl.erase_eq_filter]
  exact List.filter_congr fun x _ => by rw [bne, decide_not, beq_eq_decide]

theorem toList_filter_ne (o : Option ItemId) (i : ItemId) :
    (o.filter (· ≠ i)).toList = o.toList.filter (· ≠ i) := by
  cases o with
  | none => rfl
  | some x => by_cases hx : x = i <;> simp [Option.filter, hx]

theorem Tile.Lacks.items {tile tile' : Tile} {i : ItemId} (h : tile.Lacks tile' i) :
    tile'.items = tile.items.filter (· ≠ i) := by
  rw [Tile.items, Tile.items, h.ground, h.topItems, h.downItems, toList_filter_ne,
    List.filter_append, List.filter_append]

/-- A whole item is taken off its tile. -/
theorem Tile.removeThing_lacks (hw : w.Consistent) {t : TileId} {i : ItemId}
    (hi : i ∈ w.things (.tile t)) {count : ℕ}
    (hcount : (w.item i).isStackable = true → count = (w.item i).count) :
    ∃ tile, Tile.removeThing w t i count = (w.setParent i none).setTile t tile ∧
      (w.tile t).Lacks tile i := by
  have hindex : Tile.getIndexOfThing w t i ≠ -1 := getIndexOfThing_ne (c := .tile t).mpr hi
  have hwhole : ¬ ((w.item i).isStackable = true ∧ count ≠ (w.item i).count) := by
    rintro ⟨hs, hne⟩
    exact hne (hcount hs)
  have hnodup := hw.distinct.tile t
  rw [Tile.items, List.append_assoc, List.nodup_append, List.nodup_append] at hnodup
  obtain ⟨-, ⟨htopNodup, hdownNodup, hrest⟩, hground⟩ := hnodup
  unfold Tile.removeThing
  dsimp only
  rw [if_neg hindex, if_neg hwhole]
  split
  · next hi =>
    have hnot (x : ItemId) (hx : x ∈ (w.tile t).topItems ++ (w.tile t).downItems) : x ≠ i :=
      fun heq => hground i (by rw [hi]; exact List.mem_singleton_self i) x hx heq.symm
    refine ⟨_, rfl, ?_, ?_, ?_, rfl⟩
    · simp [hi, Option.filter]
    · exact (filter_ne_eq_self fun hx => hnot i (List.mem_append_left _ hx) rfl).symm
    · exact (filter_ne_eq_self fun hx => hnot i (List.mem_append_right _ hx) rfl).symm
  next hnotGround =>
  have hsame := (option_filter_ne_eq_self hnotGround).symm
  split
  · next halways =>
    have hmem : i ∈ (w.tile t).topItems := by
      rcases (mem_things_tile.mp hi).resolve_left hnotGround with h | h
      · exact h
      · rw [hw.sorted.down t i h] at halways
        cases halways
    rw [if_pos hmem]
    refine ⟨_, rfl, hsame, erase_eq_filter_ne htopNodup i, ?_, rfl⟩
    exact (filter_ne_eq_self fun hx => hrest i hmem i hx rfl).symm
  · next halways =>
    have htopless : i ∉ (w.tile t).topItems := fun h => halways (hw.sorted.top t i h)
    have hmem := ((mem_things_tile.mp hi).resolve_left hnotGround).resolve_left htopless
    rw [if_pos hmem]
    exact ⟨_, rfl, hsame, (filter_ne_eq_self htopless).symm, erase_eq_filter_ne hdownNodup i, rfl⟩

/-- A whole item leaves its tile. -/
theorem Tile.removeThing_whole (hw : Forest srv w) {t : TileId} {i : ItemId}
    (hi : i ∈ w.things (.tile t)) {count : ℕ}
    (hcount : (w.item i).isStackable = true → count = (w.item i).count) :
    Forest srv (Tile.removeThing w t i count) ∧ Moved w (Tile.removeThing w t i count) i none := by
  obtain ⟨tile, heq, hlacks⟩ := Tile.removeThing_lacks hw.toConsistent hi hcount
  rw [heq]
  refine ⟨Tile.detach hw hi ?_ ⟨?_, ?_⟩, moved_setTile i none t tile⟩
  · rw [hlacks.items, erase_eq_filter_ne (hw.distinct.tile t)]
  · rw [hlacks.topItems]
    exact fun x hx => hw.sorted.top t x (List.mem_of_mem_filter hx)
  · rw [hlacks.downItems]
    exact fun x hx => hw.sorted.down t x (List.mem_of_mem_filter hx)

/-! ## Counts -/

/-- Only the count of `i` is another one. -/
structure Recounted (w w' : World) (i : ItemId) (count : ℕ) : Prop where
  item_self : w'.item i = { w.item i with count := count }
  item_other : ∀ j, j ≠ i → w'.item j = w.item j
  player : w'.player = w.player
  tile : w'.tile = w.tile
  next : w'.next = w.next

theorem recounted_setItem (i : ItemId) (count : ℕ) :
    Recounted w (w.setItem i { w.item i with count := count }) i count := by
  constructor
  · exact if_pos rfl
  · intro j hj
    exact if_neg hj
  · rfl
  · rfl
  · rfl

theorem Recounted.sameItems {w' w'' : World} {i : ItemId} {count : ℕ} (h : Recounted w w' i count)
    (hs : SameItems w' w'') : Recounted w w'' i count := by
  constructor
  · rw [hs.item]
    exact h.item_self
  · rw [hs.item]
    exact h.item_other
  · exact hs.player.trans h.player
  · exact hs.tile.trans h.tile
  · exact hs.next.trans h.next

theorem Recounted.parent {w' : World} {i : ItemId} {count : ℕ} (h : Recounted w w' i count)
    (j : ItemId) : (w'.item j).parent = (w.item j).parent := by
  by_cases hj : j = i
  · rw [hj, h.item_self]
  · rw [h.item_other j hj]

theorem Recounted.itemlist {w' : World} {i : ItemId} {count : ℕ} (h : Recounted w w' i count)
    (j : ItemId) : (w'.item j).itemlist = (w.item j).itemlist := by
  by_cases hj : j = i
  · rw [hj, h.item_self]
  · rw [h.item_other j hj]

theorem Recounted.isContainer {w' : World} {i : ItemId} {count : ℕ} (h : Recounted w w' i count)
    (j : ItemId) : (w'.item j).isContainer = (w.item j).isContainer := by
  by_cases hj : j = i
  · rw [hj, h.item_self]
  · rw [h.item_other j hj]

theorem Recounted.kind {w' : World} {i : ItemId} {count : ℕ} (h : Recounted w w' i count)
    (j : ItemId) : (w'.item j).kind = (w.item j).kind := by
  by_cases hj : j = i
  · rw [hj, h.item_self]
  · rw [h.item_other j hj]

theorem Recounted.things {w' : World} {i : ItemId} {count : ℕ} (h : Recounted w w' i count) :
    w'.things = w.things := by
  funext c
  cases c with
  | container j => exact h.itemlist j
  | player p => simp only [World.things, h.player]
  | tile t => simp only [World.things, h.tile]

/-- A stack grows or shrinks within its bounds. -/
theorem Forest.recount {w' : World} {i : ItemId} {count : ℕ} (hw : Forest srv w)
    (h : Recounted w w' i count)
    (hcount : (w.item i).isStackable = true → 1 ≤ count ∧ count ≤ 100) : Forest srv w' := by
  refine ⟨⟨?_, ?_, ?_⟩, ?_, ?_, ?_⟩
  · intro c x
    rw [h.things, h.parent]
    exact hw.mem_things c x
  · constructor
    · intro j
      rw [h.itemlist]
      exact hw.distinct.itemlist j
    · rw [h.player]
      exact hw.distinct.slot
    · rw [h.tile]
      exact hw.distinct.tile
  · constructor
    · intro t x hx
      rw [h.kind]
      rw [h.tile] at hx
      exact hw.sorted.top t x hx
    · intro t x hx
      rw [h.kind]
      rw [h.tile] at hx
      exact hw.sorted.down t x hx
  · intro x c hx
    rw [h.next]
    rw [h.parent] at hx
    exact hw.lt_next x c hx
  · intro x j hx
    rw [h.isContainer, h.next]
    rw [h.parent] at hx
    exact hw.container x j hx
  · intro x c hx
    rw [h.parent] at hx
    have hin := hw.inOrder x c hx
    by_cases hxi : x = i
    · subst hxi
      rw [h.item_self]
      exact ⟨hin.kind_known, fun hs => (hcount hs).1, fun hs => (hcount hs).2, hin.not_container⟩
    · rw [h.item_other x hxi]
      exact hin

/-! ## The operations on containers and players -/

theorem Moved.of_sameItems {w₀ w' : World} {i : ItemId} {parent : Option Cylinder}
    (hs : SameItems w₀ w) (h : Moved w w' i parent) : Moved w₀ w' i parent := by
  constructor
  · rw [← hs.item]
    exact h.core
  · exact h.parent_self
  · rw [← hs.item]
    exact h.parent_other
  · exact h.next.trans hs.next

theorem Player.getIndexOfThing_eq (hw : w.Consistent) {p : PlayerId} {s : ℕ} {i : ItemId}
    (hs : s ∈ slots) (hi : (w.player p).inventory s = some i) :
    Player.getIndexOfThing w p i = s := by
  have hne : Player.getIndexOfThing w p i ≠ -1 :=
    getIndexOfThing_ne (c := .player p).mpr (mem_things_player.mpr ⟨s, hs, hi⟩)
  obtain ⟨s', hs', hindex, hinv⟩ := Player.getIndexOfThing_slot hne
  rw [hindex, hw.distinct.slot p s' s i hs' hs hinv hi]

/-- A whole item leaves its slot. -/
theorem Player.removeThing_whole (hw : w.Consistent) {p : PlayerId} {s : ℕ} {i : ItemId}
    (hs : s ∈ slots) (hi : (w.player p).inventory s = some i) {count : ℕ}
    (hcount : (w.item i).isStackable = true → count = (w.item i).count) :
    Player.removeThing w p i count = (w.setParent i none).setInventory p s none := by
  have hwhole : ¬ ((w.item i).isStackable = true ∧ count ≠ (w.item i).count) := by
    rintro ⟨hst, hne⟩
    exact hne (hcount hst)
  unfold Player.removeThing
  dsimp only
  rw [Player.getIndexOfThing_eq hw hs hi, if_neg (by omega), if_neg hwhole, Int.toNat_natCast]

theorem Container.addThing_player (j : ItemId) (index : ℤ) (i : ItemId) :
    (Container.addThing srv w j index i).player = w.player := by
  unfold Container.addThing
  split
  · rfl
  · exact (sameItems_updateItemWeight _ _ _ _).player

/-- Removing a whole item leaves it without a parent. -/
theorem removeThing_whole (hw : Forest srv w) {c : Cylinder} {i : ItemId}
    (hi : i ∈ w.things c) {count : ℕ}
    (hcount : (w.item i).isStackable = true → count = (w.item i).count) :
    Forest srv (Cylinder.removeThing srv w c i count) ∧
      Moved w (Cylinder.removeThing srv w c i count) i none := by
  have hindex := getIndexOfThing_ne.mpr hi
  have hwhole : ¬ ((w.item i).isStackable = true ∧ count ≠ (w.item i).count) := by
    rintro ⟨hs, hne⟩
    exact hne (hcount hs)
  cases c with
  | container j =>
    change Container.getIndexOfThing w j i ≠ -1 at hindex
    simp only [Cylinder.removeThing, Container.removeThing]
    rw [if_neg hindex, if_neg hwhole]
    have hsame := sameItems_updateItemWeight srv.loopBound w j (-w.getWeight i)
    rw [← congrFun hsame.item j]
    refine ⟨Container.detach (hw.of_sameItems hsame) ?_, .of_sameItems hsame ?_⟩
    · rw [hsame.things]
      exact hi
    · exact moved_setItemList i none j _
  | player p =>
    obtain ⟨s, hs, -, hinv⟩ := Player.getIndexOfThing_slot hindex
    simp only [Cylinder.removeThing]
    rw [Player.removeThing_whole hw.toConsistent hs hinv hcount]
    exact ⟨Player.detach hw hs hinv, moved_setInventory i none p s none⟩
  | tile t => exact Tile.removeThing_whole hw hi hcount

/-- A part of a stack is removed. -/
theorem removeThing_recounted {c : Cylinder} (hc : c.isTile = false) {i : ItemId}
    (hi : i ∈ w.things c) {count : ℕ} (hs : (w.item i).isStackable = true)
    (hcount : count < (w.item i).count) :
    Recounted w (Cylinder.removeThing srv w c i count) i ((w.item i).count - count) := by
  have hindex := getIndexOfThing_ne.mpr hi
  have hpart : (w.item i).isStackable = true ∧ count ≠ (w.item i).count := ⟨hs, by omega⟩
  cases c with
  | container j =>
    change Container.getIndexOfThing w j i ≠ -1 at hindex
    simp only [Cylinder.removeThing, Container.removeThing]
    rw [if_neg hindex, if_pos hpart]
    exact (recounted_setItem i _).sameItems (sameItems_updateItemWeight _ _ _ _)
  | player p =>
    change Player.getIndexOfThing w p i ≠ -1 at hindex
    simp only [Cylinder.removeThing, Player.removeThing]
    rw [if_neg hindex, if_pos hpart]
    exact recounted_setItem i _
  | tile t => cases hc

/-- What may be removed is: as many units as are asked for, or the whole item. -/
theorem internalRemoveItem_eq (srv : Server) {c : Cylinder} {i : ItemId}
    (hparent : (w.item i).parent = some c) (hi : i ∈ w.things c) (count : Option ℕ)
    (hpos : count.getD (w.item i).count ≠ 0)
    (hle : (w.item i).isStackable = true → count.getD (w.item i).count ≤ (w.item i).count)
    (hremove : (w.item i).canRemove = true) :
    ∃ index isCompleteRemoval, (Game.internalRemoveItem srv w i count false {}).1 =
      Cylinder.postRemoveNotification srv
        (Cylinder.removeThing srv w c i (count.getD (w.item i).count)) c i index
        isCompleteRemoval := by
  have hquery : Cylinder.queryRemove w c i (count.getD (w.item i).count)
      { ignoreNotMoveable := true } = .noError := by
    unfold Cylinder.queryRemove
    dsimp only
    rw [if_neg (getIndexOfThing_ne.mpr hi), if_neg, if_neg (by simp)]
    rintro (h | ⟨hs, hlt⟩)
    · exact hpos h
    · exact absurd (hle hs) (Nat.not_le_of_lt hlt)
  simp only [Game.internalRemoveItem, hparent, hquery, hremove, ne_eq, not_true_eq_false,
    Bool.not_true, Bool.false_eq_true, if_false]
  exact ⟨_, _, rfl⟩

/-- What may not be removed stays. -/
theorem internalRemoveItem_refused (srv : Server) {i : ItemId} {count : Option ℕ}
    (h : count.getD (w.item i).count = 0 ∨ (w.item i).canRemove = false) :
    (Game.internalRemoveItem srv w i count false {}).1 = w := by
  unfold Game.internalRemoveItem
  split
  · rfl
  next c _ =>
  dsimp only
  by_cases hquery : Cylinder.queryRemove w c i (count.getD (w.item i).count)
      { ignoreNotMoveable := true } = .noError
  · rcases h with hzero | hremove
    · refine absurd hquery ?_
      unfold Cylinder.queryRemove
      dsimp only
      rw [hzero, if_pos (Or.inl rfl)]
      split <;> exact ReturnValue.noConfusion
    · rw [if_neg (not_not.mpr hquery), hremove]
      rfl
  · rw [if_pos hquery]

/-- Where `__addThing` of a container or a player finds room for an item. -/
def World.Admits (w : World) (c : Cylinder) (index : ℤ) : Prop :=
  match c with
  | .container j => index < (w.item j).maxSize
  | .player p => ∃ s ∈ slots, index = s ∧ (w.player p).inventory s = none
  | .tile _ => False

theorem World.Admits.not_tile {w : World} {c : Cylinder} {index : ℤ} (h : w.Admits c index) :
    c.isTile = false := by
  cases c with
  | container j => rfl
  | player p => rfl
  | tile t => exact h.elim

/-- Adding an item that lies nowhere gives it its parent. -/
theorem addThing_moved (hw : Forest srv w) {c : Cylinder} {index : ℤ} {i : ItemId}
    (hroom : w.Admits c index) (hnone : (w.item i).parent = none)
    (hin : ItemInOrder srv (w.item i)) (hlt : i < w.next) (hc : w.Holder c) :
    Forest srv (Cylinder.addThing srv w c index i) ∧
      Moved w (Cylinder.addThing srv w c index i) i (some c) := by
  cases c with
  | container j =>
    have hindex : ¬ ((w.item j).maxSize : ℤ) ≤ index := by
      change index < ((w.item j).maxSize : ℤ) at hroom
      omega
    simp only [Cylinder.addThing, Container.addThing]
    rw [if_neg hindex]
    have hsame := sameItems_updateItemWeight srv.loopBound
      ((w.setParent i (some (.container j))).setItemList j (i :: (w.item j).itemlist)) j
      (w.getWeight i)
    exact ⟨(Container.attach hw hnone hin hlt hc).of_sameItems hsame,
      (moved_setItemList i _ j _).sameItems hsame⟩
  | player p =>
    obtain ⟨s, hs, rfl, hempty⟩ := hroom
    have hbounds := mem_slots.mp hs
    simp only [Cylinder.addThing, Player.addThing]
    rw [if_neg (by omega), if_neg (by omega), Int.toNat_natCast]
    exact ⟨Player.attach hw hs hempty hnone hin hlt, moved_setInventory i _ p s _⟩
  | tile t => exact hroom.elim

/-- The sub-type of an item of a plain kind is its count. -/
theorem Item.update_plain {item : Item} (hplain : item.kind.isPlain = true) {count : ℕ}
    (hcount : count < 256) : item.update item.kind count = { item with count := count } := by
  have hmod : count % 2 ^ 16 % 256 = count := by omega
  simp only [ItemKind.isPlain, Bool.and_eq_true, decide_eq_true_eq, List.mem_cons,
    List.not_mem_nil, or_false, not_or] at hplain
  obtain ⟨⟨⟨⟨⟨-, hsplash, hfluid, -⟩, hcharges⟩, -⟩, -⟩, -⟩ := hplain
  simp only [Item.update, Item.setSubType, ItemKind.isFluidContainer, ItemKind.isSplash]
  rw [hmod]
  simp [hsplash, hfluid, hcharges]

/-- Updating a stack with its own kind changes its count. -/
theorem updateThing_recounted (hw : Forest srv w) {c : Cylinder} {i : ItemId}
    (hi : i ∈ w.things c) (hplain : (w.item i).kind.isPlain = true) (count : ℕ)
    (hcount : count < 256) :
    Recounted w (Cylinder.updateThing srv w c i (w.item i).kind.id count) i count := by
  have hindex := getIndexOfThing_ne.mpr hi
  have hin := hw.inOrder i c ((hw.mem_things c i).mp hi)
  cases c with
  | container j =>
    change Container.getIndexOfThing w j i ≠ -1 at hindex
    simp only [Cylinder.updateThing, Container.updateThing]
    rw [if_neg hindex, hin.kind_known]
    dsimp only
    rw [Item.update_plain hplain hcount]
    exact (recounted_setItem i _).sameItems (sameItems_updateItemWeight _ _ _ _)
  | player p =>
    change Player.getIndexOfThing w p i ≠ -1 at hindex
    simp only [Cylinder.updateThing, Player.updateThing]
    rw [if_neg hindex, hin.kind_known]
    dsimp only
    rw [Item.update_plain hplain hcount]
    exact recounted_setItem i _
  | tile t =>
    change Tile.getIndexOfThing w t i ≠ -1 at hindex
    simp only [Cylinder.updateThing, Tile.updateThing]
    rw [if_neg hindex, hin.kind_known]
    dsimp only
    rw [Item.update_plain hplain hcount]
    exact recounted_setItem i _

end TyanoCore
