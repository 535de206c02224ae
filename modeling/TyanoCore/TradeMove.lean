import TyanoCore.MoveRefused
import TyanoCore.TradeSearch

/-!
# A whole item goes to a player

`Game::internalMoveItem` as `Game::playerAcceptTrade` calls it: a whole item, from wherever it lies to
a place that the player has for it.  What changes for everything else is collected in `Handed`.
-/

namespace TyanoCore

variable {srv : Server} {w w' : World} {i y : ItemId}

/-! ## The links -/

/-- An item has left its place, and a whole item has been put into the place given, if any: all other
links are as they were. -/
structure Handed (w w' : World) (i : ItemId) (place : Option Cylinder) : Prop where
  next : w.next ≤ w'.next
  core : ∀ j < w.next, (w'.item j).core = (w.item j).core
  parent : ∀ j < w.next, j ≠ i → (w'.item j).parent = (w.item j).parent
  player : ∀ q, ∃ inventory, w'.player q = { w.player q with inventory := inventory }
  slot : ∀ q, place ≠ some (.player q) → ∀ s ∈ slots,
    (w'.player q).inventory s = ((w.player q).inventory s).filter (· ≠ i)
  itemlist : ∀ j < w.next, place ≠ some (.container j) →
    (w'.item j).itemlist = (w.item j).itemlist.filter (· ≠ i)

/-- A slot and a list that do not hold the item. -/
theorem filter_slot_of_ne {o : Option ItemId} (h : o ≠ some i) : o.filter (· ≠ i) = o := by
  cases o with
  | none => rfl
  | some x =>
    have hx : x ≠ i := fun heq => h (congrArg some heq)
    simp [hx]

theorem filter_of_not_mem {l : List ItemId} (h : i ∉ l) : l.filter (· ≠ i) = l := by
  rw [List.filter_eq_self]
  rintro x hx
  rw [decide_eq_true_eq]
  rintro rfl
  exact h hx

theorem Handed.sameItems {w'' : World} {place : Option Cylinder} (h : Handed w w' i place)
    (hs : SameItems w' w'') : Handed w w'' i place := by
  constructor
  · rw [hs.next]
    exact h.next
  · rw [hs.item]
    exact h.core
  · rw [hs.item]
    exact h.parent
  · rw [hs.player]
    exact h.player
  · rw [hs.player]
    exact h.slot
  · rw [hs.item]
    exact h.itemlist

theorem Container.removeThing_player (j : ItemId) (count : ℕ) :
    (Container.removeThing srv w j i count).player = w.player := by
  unfold Container.removeThing
  split_ifs
  · rfl
  · exact (sameItems_updateItemWeight _ _ _ _).player
  · exact (sameItems_updateItemWeight _ _ _ _).player

/-- A whole item leaves its place. -/
theorem removeThing_handed (hw : Forest srv w) {c : Cylinder} (hi : i ∈ w.things c) {count : ℕ}
    (hcount : (w.item i).isStackable = true → count = (w.item i).count) :
    Handed w (Cylinder.removeThing srv w c i count) i none := by
  obtain ⟨-, hm⟩ := removeThing_whole hw hi hcount
  have hparent := (hw.mem_things c i).mp hi
  -- the item is in one place only
  have helsewhere {c' : Cylinder} (hc : c' ≠ c) : i ∉ w.things c' := by
    intro hmem
    rw [hw.mem_things, hparent] at hmem
    exact hc (Option.some.inj hmem).symm
  have hslot (q : PlayerId) (hq : Cylinder.player q ≠ c) (s : ℕ) (hs : s ∈ slots) :
      (w.player q).inventory s = ((w.player q).inventory s).filter (· ≠ i) := by
    refine (filter_slot_of_ne fun hx => ?_).symm
    exact helsewhere hq (mem_things_player.mpr ⟨s, hs, hx⟩)
  have hrest (j : ItemId) (hj : Cylinder.container j ≠ c) :
      (w.item j).itemlist.filter (· ≠ i) = (w.item j).itemlist :=
    filter_of_not_mem (helsewhere hj)
  refine ⟨hm.next.ge, fun j _ => hm.core j, fun j _ hj => hm.parent_other j hj, ?_, ?_, ?_⟩
  · -- of a player nothing but the inventory changes
    intro q
    cases c with
    | container k => exact ⟨(w.player q).inventory, congrFun (Container.removeThing_player k count) q⟩
    | player p =>
      obtain ⟨s, hs, hinv⟩ := mem_things_player.mp hi
      simp only [Cylinder.removeThing, Player.removeThing_whole hw.toConsistent hs hinv hcount,
        World.setInventory, World.setPlayer]
      by_cases hq : q = p
      · rw [hq, if_pos rfl]
        exact ⟨_, rfl⟩
      · rw [if_neg hq]
        exact ⟨(w.player q).inventory, rfl⟩
    | tile t => exact ⟨(w.player q).inventory, congrFun (Tile.removeThing_player t i count) q⟩
  · -- the slots lose the item
    intro q _ s hs
    cases c with
    | container k =>
      simp only [Cylinder.removeThing, Container.removeThing_player]
      exact hslot q (by simp) s hs
    | player p =>
      obtain ⟨s', hs', hinv⟩ := mem_things_player.mp hi
      simp only [Cylinder.removeThing, Player.removeThing_whole hw.toConsistent hs' hinv hcount]
      rw [inventory_setInventory]
      split
      · next heq =>
        rw [heq.1, heq.2, hinv]
        simp [Option.filter_some]
      · next hne =>
        refine (filter_slot_of_ne fun hx => ?_).symm
        have hmem := mem_things_player.mpr ⟨s, hs, hx⟩
        have hqp : q = p := by
          by_contra hqp
          exact helsewhere (by simpa using hqp) hmem
        subst hqp
        exact hne ⟨rfl, hw.distinct.slot q s s' i hs hs' hx hinv⟩
    | tile t =>
      simp only [Cylinder.removeThing, Tile.removeThing_player]
      exact hslot q (by simp) s hs
  · -- and so do the containers
    intro j _ _
    cases c with
    | container k =>
      have htaken := removeThing_whole_taken srv hi count hcount
      by_cases hj : j = k
      · rw [hj]
        refine htaken.itemlist.trans ?_
        rw [(hw.distinct.itemlist k).erase_eq_filter]
        exact List.filter_congr fun x _ => by by_cases hx : x = i <;> simp [hx]
      · rw [hrest j (by simpa using hj)]
        exact htaken.itemlists j hj
    | player p =>
      obtain ⟨s, hs, hinv⟩ := mem_things_player.mp hi
      simp only [Cylinder.removeThing, Player.removeThing_whole hw.toConsistent hs hinv hcount]
      rw [hrest j (by simp)]
      exact itemlist_setParent i none j
    | tile t =>
      rw [hrest j (by simp)]
      exact ((OnTile.refl t w).removeThing i count).itemlist j

/-- A new item lies nowhere. -/
theorem Handed.create (h : Handed w w' i none) (item : Item) : Handed w (w'.create item) i none := by
  have hold (j : ItemId) (hj : j < w.next) : (w'.create item).item j = w'.item j :=
    create_item_of_lt (lt_of_lt_of_le hj h.next)
  refine ⟨h.next.trans (Nat.le_succ _), ?_, ?_, h.player, h.slot, ?_⟩
  · intro j hj
    rw [hold j hj]
    exact h.core j hj
  · intro j hj
    rw [hold j hj]
    exact h.parent j hj
  · intro j hj
    rw [hold j hj]
    exact h.itemlist j hj

/-- The item, or a new one for it, comes to its new place. -/
theorem Handed.addThing (h : Handed w w' i none) (hw' : Forest srv w')
    (hy : y = i ∨ w.next ≤ y) {c : Cylinder} {index : ℤ} (hroom : w'.Admits c index)
    (hnone : (w'.item y).parent = none) (hin : ItemInOrder srv (w'.item y)) (hlt : y < w'.next)
    (hc : w'.Holder c) : Handed w (Cylinder.addThing srv w' c index y) i (some c) := by
  obtain ⟨-, hm⟩ := addThing_moved hw' hroom hnone hin hlt hc
  -- what is put down is the item itself or a new one, so no other item moves
  have hne (j : ItemId) (hj : j < w.next) (hji : j ≠ i) : j ≠ y := by
    rcases hy with rfl | hy
    · exact hji
    · exact (lt_of_lt_of_le hj hy).ne
  refine ⟨h.next.trans hm.next.ge, fun j hj => (hm.core j).trans (h.core j hj),
    fun j hj hji => (hm.parent_other j (hne j hj hji)).trans (h.parent j hj hji), ?_, ?_, ?_⟩
  · -- of a player nothing but the inventory changes
    intro q
    obtain ⟨inventory, hplayer⟩ := h.player q
    cases c with
    | container k =>
      refine ⟨inventory, ?_⟩
      rw [← hplayer]
      exact congrFun (Container.addThing_player k index y) q
    | player p =>
      simp only [Cylinder.addThing, Player.addThing]
      split_ifs
      · exact ⟨inventory, hplayer⟩
      · exact ⟨inventory, hplayer⟩
      · simp only [World.setInventory, World.setPlayer]
        by_cases hq : q = p
        · rw [← hq, if_pos rfl]
          refine ⟨fun s => if s = index.toNat then some y else inventory s, ?_⟩
          change ({ w'.player q with inventory := fun s =>
            if s = index.toNat then some y else (w'.player q).inventory s } : Player) = _
          rw [hplayer]
        · rw [if_neg hq]
          exact ⟨inventory, hplayer⟩
    | tile t => exact hroom.elim
  · -- the slots of the other players are as they were
    intro q hq s hs
    rw [← h.slot q (by simp) s hs]
    cases c with
    | container k =>
      simp only [Cylinder.addThing, Container.addThing_player]
    | player p =>
      have hqp : q ≠ p := fun heq => hq (by rw [heq])
      simp only [Cylinder.addThing, Player.addThing]
      split_ifs
      · rfl
      · rfl
      · rw [inventory_setInventory, if_neg fun heq => hqp heq.1]
    | tile t => exact hroom.elim
  · -- and so is what is in the other containers
    intro j hj hjc
    rw [← h.itemlist j hj (by simp)]
    cases c with
    | container k =>
      have hjk : j ≠ k := fun heq => hjc (by rw [heq])
      rcases addThing_put srv w' y k index with hsame | hput
      · simp only [Cylinder.addThing, hsame]
      · exact hput.itemlists j hjk
    | player p =>
      simp only [Cylinder.addThing, Player.addThing]
      split_ifs
      · rfl
      · rfl
      · exact itemlist_setParent y _ j
    | tile t => exact hroom.elim

/-! ## The weights that are remembered -/

theorem updateItemWeight_totalWeight_le (n : ℕ) {j k : ItemId} {diff : ℤ} (hdiff : diff ≤ 0) :
    (w.updateItemWeight n j diff).totalWeight k ≤ w.totalWeight k := by
  induction n generalizing w j with
  | zero => exact le_rfl
  | succ n ih =>
    have hself : (if k = j then w.totalWeight j + diff else w.totalWeight k) ≤ w.totalWeight k := by
      split
      · next hk =>
        rw [hk]
        omega
      · exact le_rfl
    unfold World.updateItemWeight
    dsimp only
    split
    · exact hself
    · exact ih.trans hself

variable (srv) in
/-- Containers around an item that is removed lose weight, others keep theirs. -/
theorem removeThing_totalWeight (c : Cylinder) {count : ℕ}
    (hcount : (w.item i).isStackable = true → count = (w.item i).count) (j : ItemId) :
    (0 ≤ w.getWeight i → (Cylinder.removeThing srv w c i count).totalWeight j ≤ w.totalWeight j) ∧
      ((∀ k, c = .container k → ¬ w.Around k j) →
        (Cylinder.removeThing srv w c i count).totalWeight j = w.totalWeight j) := by
  have hwhole : ¬ ((w.item i).isStackable = true ∧ count ≠ (w.item i).count) := by
    rintro ⟨hs, hne⟩
    exact hne (hcount hs)
  have hsame (h : (Cylinder.removeThing srv w c i count).totalWeight = w.totalWeight) :
      (0 ≤ w.getWeight i → (Cylinder.removeThing srv w c i count).totalWeight j ≤
        w.totalWeight j) ∧ ((∀ k, c = .container k → ¬ w.Around k j) →
        (Cylinder.removeThing srv w c i count).totalWeight j = w.totalWeight j) := by
    rw [h]
    exact ⟨fun _ => le_rfl, fun _ => rfl⟩
  cases c with
  | container k =>
    simp only [Cylinder.removeThing, Container.removeThing]
    rw [if_neg hwhole]
    split
    · exact ⟨fun _ => le_rfl, fun _ => rfl⟩
    · refine ⟨fun hweight => ?_, fun hnot => ?_⟩
      · exact updateItemWeight_totalWeight_le srv.loopBound (by omega)
      · exact updateItemWeight_totalWeight srv.loopBound _ (hnot k rfl)
  | player p =>
    apply hsame
    simp only [Cylinder.removeThing, Player.removeThing]
    split_ifs <;> rfl
  | tile t =>
    apply hsame
    simp only [Cylinder.removeThing, Tile.removeThing]
    split_ifs <;> rfl

/-- Containers that are not around the new place keep their weight. -/
theorem addThing_totalWeight {c : Cylinder} (hc : c.isTile = false) (index : ℤ) {j : ItemId}
    (hy : ∀ k, c = .container k → ¬ w.Around k y) (hj : ∀ k, c = .container k → ¬ w.Around k j) :
    (Cylinder.addThing srv w c index y).totalWeight j = w.totalWeight j := by
  cases c with
  | container k =>
    simp only [Cylinder.addThing, Container.addThing]
    split
    · rfl
    · have hlinked := moved_setItemList (w := w) y (some (.container k)) k (y :: (w.item k).itemlist)
      refine updateItemWeight_totalWeight srv.loopBound _ ?_
      rintro (rfl | hin)
      · exact hj j rfl (.inl rfl)
      · exact hj k rfl (.inr (hin.of_moved hlinked.parent_other (hy k rfl)))
  | player p =>
    simp only [Cylinder.addThing, Player.addThing]
    split_ifs <;> rfl
  | tile t => cases hc

theorem removeThing_inventoryWeight (c : Cylinder) (count : ℕ) :
    (Cylinder.removeThing srv w c i count).inventoryWeight = w.inventoryWeight := by
  cases c with
  | container k =>
    simp only [Cylinder.removeThing, Container.removeThing]
    split_ifs
    · rfl
    · exact (inventoryWeight_updateItemWeight srv.loopBound _ k _).1
    · exact (inventoryWeight_updateItemWeight srv.loopBound w k _).1
  | player p =>
    simp only [Cylinder.removeThing, Player.removeThing]
    split_ifs <;> rfl
  | tile t =>
    simp only [Cylinder.removeThing, Tile.removeThing]
    split_ifs <;> rfl

theorem addThing_inventoryWeight {c : Cylinder} (hc : c.isTile = false) (index : ℤ) (y : ItemId) :
    (Cylinder.addThing srv w c index y).inventoryWeight = w.inventoryWeight := by
  cases c with
  | container k =>
    simp only [Cylinder.addThing, Container.addThing]
    split
    · rfl
    · exact (inventoryWeight_updateItemWeight srv.loopBound _ k _).1
  | player p =>
    simp only [Cylinder.addThing, Player.addThing]
    split_ifs <;> rfl
  | tile t => cases hc

/-- What `Player::updateInventoryWeight` finds. -/
def World.carriedWeight (w : World) (p : PlayerId) : ℤ :=
  (w.updateInventoryWeight p).inventoryWeight p

theorem carriedWeight_eq (p : PlayerId) : w.carriedWeight p =
    if (w.player p).hasInfiniteCapacity then 0
    else ((w.things (.player p)).map w.getWeight).sum := by
  simp [World.carriedWeight, World.updateInventoryWeight]

/-- Nothing is moved, and players may have counted anew what they carry. -/
structure Reweighed (w w' : World) : Prop where
  same : SameItems w w'
  totalWeight : w'.totalWeight = w.totalWeight
  inventoryWeight : ∀ p, w'.inventoryWeight p = w.inventoryWeight p ∨
    w'.inventoryWeight p = w'.carriedWeight p

theorem Reweighed.refl (w : World) : Reweighed w w := ⟨.refl w, rfl, fun _ => .inl rfl⟩

theorem carriedWeight_congr (h : SameItems w w') (hweight : w'.totalWeight = w.totalWeight)
    (p : PlayerId) : w'.carriedWeight p = w.carriedWeight p := by
  have hget : w'.getWeight = w.getWeight := by
    funext j
    simp only [World.getWeight, h.item, hweight]
  rw [carriedWeight_eq, carriedWeight_eq, h.player, h.things, hget]

theorem Reweighed.trans {w'' : World} (h : Reweighed w w') (h' : Reweighed w' w'') :
    Reweighed w w'' := by
  refine ⟨h.same.trans h'.same, h'.totalWeight.trans h.totalWeight, fun p => ?_⟩
  rcases h'.inventoryWeight p with hp | hp
  · rw [hp, carriedWeight_congr h'.same h'.totalWeight]
    exact h.inventoryWeight p
  · exact .inr hp

theorem reweighed_updateInventoryWeight (p : PlayerId) :
    Reweighed w (w.updateInventoryWeight p) := by
  refine ⟨sameItems_updateInventoryWeight w p, rfl, fun q => ?_⟩
  by_cases hq : q = p
  · right
    rw [hq, carriedWeight_congr (sameItems_updateInventoryWeight w p) rfl]
    rfl
  · left
    simp [World.updateInventoryWeight, hq]

theorem reweighed_postAddNotification (hsrv : srv.Quiet) {c : Cylinder} (hc : c.isTile = false)
    (y : ItemId) (index : ℤ) :
    Reweighed w (Cylinder.postAddNotification srv w c y index) := by
  unfold Cylinder.postAddNotification
  split
  · next p =>
    dsimp only
    rw [hsrv.equip]
    refine .trans ?_ (reweighed_updateInventoryWeight p)
    exact ⟨⟨rfl, rfl, rfl, rfl⟩, rfl, fun _ => .inl rfl⟩
  · split
    · exact reweighed_updateInventoryWeight _
    · exact .refl w
  · cases hc

theorem reweighed_postRemoveNotification (hsrv : srv.Quiet) (c : Cylinder) (y : ItemId) (index : ℤ)
    (isCompleteRemoval : Bool) :
    Reweighed w (Cylinder.postRemoveNotification srv w c y index isCompleteRemoval) := by
  unfold Cylinder.postRemoveNotification
  split
  · next p =>
    dsimp only
    rw [hsrv.deEquip]
    refine .trans ?_ (reweighed_updateInventoryWeight p)
    exact ⟨⟨rfl, rfl, rfl, rfl⟩, rfl, fun _ => .inl rfl⟩
  · split
    · exact reweighed_updateInventoryWeight _
    · exact .refl w
  · exact .refl w

theorem reweighed_notifyAdded (hsrv : srv.Quiet) {c : Cylinder} (hc : c.isTile = false)
    (y : Option ItemId) :
    Reweighed w (Cylinder.notifyAdded srv w c y) := by
  unfold Cylinder.notifyAdded
  split
  · exact .refl w
  · dsimp only
    split
    · exact .refl w
    · exact reweighed_postAddNotification hsrv hc _ _

theorem reweighed_finishMove (hsrv : srv.Quiet) (fromCylinder : Cylinder) {d : Destination}
    (hd : d.cylinder.isTile = false) (item : ItemId) (moveItem updateItem : Option ItemId)
    (itemIndex : ℤ) (isCompleteRemoval : Bool) :
    Reweighed (Game.addMoved srv w d moveItem)
      (Game.finishMove srv w fromCylinder d item moveItem updateItem itemIndex
        isCompleteRemoval) := by
  unfold Game.finishMove
  dsimp only
  refine .trans ?_ (reweighed_notifyAdded hsrv hd _)
  refine .trans ?_ (reweighed_notifyAdded hsrv hd _)
  split
  · exact .refl _
  · exact reweighed_postRemoveNotification hsrv _ _ _ _

/-! ## The move -/

/-- A whole item, or a new stack in its stead, has come to a place. -/
structure Transferred (srv : Server) (w w' : World) (i : ItemId) (place : Cylinder) : Prop where
  forest : Forest srv w'
  acyclic : w'.Acyclic
  sizes : w.SizesFit → w'.SizesFit
  next : w'.next ≤ w.next + 1
  handed : Handed w w' i (some place)
  left : (w'.item i).parent = none ∨ (w'.item i).parent = some place
  arrived : ∃ y, (y = i ∨ (w.item i).isStackable = true ∧ w.next ≤ y) ∧
    (w'.item y).parent = some place ∧ (w'.item y).kind = (w.item i).kind ∧
      (w'.item y).count = (w.item i).count
  lighter : 0 ≤ w.getWeight i → ∀ j < w.next, (∀ k, place = .container k → ¬ w.Around k j) →
    w'.totalWeight j ≤ w.totalWeight j
  kept : ∀ j < w.next, (∀ k, (w.item i).parent = some (.container k) → ¬ w.Around k j) →
    (∀ k, place = .container k → ¬ w.Around k j) → w'.totalWeight j = w.totalWeight j
  inventoryWeight : ∀ q, w'.inventoryWeight q = w.inventoryWeight q ∨
    w'.inventoryWeight q = w'.carriedWeight q

/-- The world between the two halves of a move: the item is out, and it, or a new stack in its stead,
lies nowhere. -/
structure InHand (srv : Server) (w w' : World) (i y : ItemId) : Prop where
  forest : Forest srv w'
  lost : ∀ k place, (w'.item k).parent = some place → (w.item k).parent = some place
  maxSize : ∀ k, (w'.item k).maxSize = (w.item k).maxSize ∨ (w'.item k).maxSize = 0
  next : w'.next ≤ w.next + 1
  handed : Handed w w' i none
  stands_for : y = i ∨ (w.item i).isStackable = true ∧ w.next ≤ y
  item_nowhere : (w'.item i).parent = none
  nowhere : (w'.item y).parent = none
  inOrder : ItemInOrder srv (w'.item y)
  lt_next : y < w'.next
  kind : (w'.item y).kind = (w.item i).kind
  count : (w'.item y).count = (w.item i).count
  lighter : 0 ≤ w.getWeight i → ∀ j < w.next, w'.totalWeight j ≤ w.totalWeight j
  kept : ∀ j < w.next, (∀ k, (w.item i).parent = some (.container k) → ¬ w.Around k j) →
    w'.totalWeight j = w.totalWeight j
  inventoryWeight : w'.inventoryWeight = w.inventoryWeight

theorem removeThing_inHand (hw : Forest srv w) {c : Cylinder} (hi : i ∈ w.things c) {count : ℕ}
    (hcount : (w.item i).isStackable = true → count = (w.item i).count) :
    InHand srv w (Cylinder.removeThing srv w c i count) i i := by
  obtain ⟨hw₁, hm⟩ := removeThing_whole hw hi hcount
  have hparent := (hw.mem_things c i).mp hi
  have hin := hw.inOrder i c hparent
  have hweights := removeThing_totalWeight srv c hcount
  refine ⟨hw₁, ?_, fun k => .inl (Item.core_maxSize (hm.core k)), hm.next.le.trans (Nat.le_succ _),
    removeThing_handed hw hi hcount, .inl rfl, hm.parent_self, hm.parent_self,
    hin.of_core (hm.core i), ?_, Item.core_kind (hm.core i), Item.core_count (hm.core i),
    fun hweight j _ => (hweights j).1 hweight, ?_, removeThing_inventoryWeight c count⟩
  · intro k place hk
    by_cases heq : k = i
    · rw [heq, hm.parent_self] at hk
      cases hk
    · exact (hm.parent_other k heq).symm.trans hk
  · rw [hm.next]
    exact hw.lt_next i c hparent
  · intro j _ hnot
    refine (hweights j).2 fun k hk => hnot k ?_
    rw [hparent, hk]

/-- The new stack for one that has been taken out. -/
theorem InHand.create (h : InHand srv w w' i i) (hlt : i < w.next) (hnext : w'.next = w.next)
    (hs : (w.item i).isStackable = true) (hpos : (w.item i).count ≠ 0)
    (hle : (w.item i).count ≤ 100) :
    InHand srv w (w'.create (Item.stack (w.item i).kind (w.item i).count)) i w'.next := by
  have hold (j : ItemId) (hj : j < w.next) :
      (w'.create (Item.stack (w.item i).kind (w.item i).count)).item j = w'.item j :=
    create_item_of_lt (hnext.symm ▸ hj)
  have hnew := create_item_next (w := w') (Item.stack (w.item i).kind (w.item i).count)
  have hknown : srv.items.kind (w.item i).kind.id = some (w.item i).kind := by
    rw [← h.kind]
    exact h.inOrder.kind_known
  have hcases (k : ItemId) : (w'.create (Item.stack (w.item i).kind (w.item i).count)).item k =
      w'.item k ∨ k = w'.next := by
    by_cases hk : k = w'.next
    · exact .inr hk
    · exact .inl (if_neg hk)
  refine ⟨h.forest.create rfl rfl, ?_, ?_, Nat.succ_le_succ hnext.le, h.handed.create _,
    .inr ⟨hs, hnext.ge⟩, ?_, ?_, ?_, Nat.lt_succ_self _, ?_, ?_, ?_, ?_, h.inventoryWeight⟩
  · intro k place hk
    rcases hcases k with heq | rfl
    · exact h.lost k place (heq ▸ hk)
    · rw [hnew] at hk
      cases hk
  · intro k
    rcases hcases k with heq | rfl
    · rw [heq]
      exact h.maxSize k
    · rw [hnew]
      exact .inr rfl
  · rw [hold i hlt]
    exact h.item_nowhere
  · rw [hnew]
    rfl
  · rw [hnew]
    exact Item.stack_inOrder hknown hpos hle
  · rw [hnew]
    rfl
  · rw [hnew]
    rfl
  · intro hweight j hj
    have hne : j ≠ w'.next := (hnext.symm ▸ hj : j < w'.next).ne
    exact (if_neg hne).trans_le (h.lighter hweight j hj)
  · intro j hj hnot
    have hne : j ≠ w'.next := (hnext.symm ▸ hj : j < w'.next).ne
    exact (if_neg hne).trans (h.kept j hj hnot)

/-- What is in hand is put down. -/
theorem InHand.transferred (h : InHand srv w w' i y) (hsrv : srv.Quiet) (hacyclic : w.Acyclic)
    {d : Destination} (hroom : w'.Admits d.cylinder d.index) (hholder : w'.Holder d.cylinder)
    (hnot : ∀ k, d.cylinder = .container k → ¬ w'.Around k y) (fromCylinder : Cylinder)
    (itemIndex : ℤ) (isCompleteRemoval : Bool) :
    Transferred srv w (Game.finishMove srv w' fromCylinder d i (some y) none itemIndex
      isCompleteRemoval) i d.cylinder := by
  obtain ⟨hforest, hm⟩ := addThing_moved h.forest hroom h.nowhere h.inOrder h.lt_next hholder
  -- a tile admits nothing here
  have htile : d.cylinder.isTile = false := hroom.not_tile
  -- the notifications at the end change no item, only what a player is told to carry
  have hafter := reweighed_finishMove (w := w') hsrv fromCylinder htile i
    (some y) none itemIndex isCompleteRemoval
  have hsame : SameItems (Cylinder.addThing srv w' d.cylinder d.index y) _ := hafter.same
  have hhanded : Handed w (Cylinder.addThing srv w' d.cylinder d.index y) i (some d.cylinder) :=
    h.handed.addThing h.forest (h.stands_for.imp_right And.right) hroom h.nowhere h.inOrder
      h.lt_next hholder
  have hacyclic' : w'.Acyclic := fun k hk => hacyclic k (hk.of_lost h.lost)
  -- only what is around the new place gets heavier
  have hweight (j : ItemId) (hj : ∀ k, d.cylinder = .container k → ¬ w.Around k j) :
      (Game.finishMove srv w' fromCylinder d i (some y) none itemIndex
        isCompleteRemoval).totalWeight j = w'.totalWeight j := by
    refine (congrFun hafter.totalWeight j).trans (addThing_totalWeight htile d.index hnot ?_)
    intro k hk haround
    rcases haround with heq | hin
    · exact hj k hk (.inl heq)
    · exact hj k hk (.inr (hin.of_lost h.lost))
  refine ⟨hforest.of_sameItems hsame, ?_, ?_, ?_, hhanded.sameItems hsame, ?_,
    ⟨y, h.stands_for, ?_, ?_, ?_⟩, ?_, ?_, ?_⟩
  · have hput : (Cylinder.addThing srv w' d.cylinder d.index y).Acyclic :=
      hacyclic'.linked hm.parent_self hm.parent_other hnot
    exact fun k hk => hput k ((World.Within.of_sameLinks hsame.sameLinks).mp hk)
  · intro hsizes k
    rw [hsame.item, Item.core_maxSize (hm.core k)]
    rcases h.maxSize k with hk | hk
    · rw [hk]
      exact hsizes k
    · rw [hk]
      decide
  · rw [hsame.next, hm.next]
    exact h.next
  · rw [hsame.item]
    by_cases hiy : i = y
    · right
      rw [hiy]
      exact hm.parent_self
    · left
      rw [hm.parent_other i hiy]
      exact h.item_nowhere
  · rw [hsame.item]
    exact hm.parent_self
  · rw [hsame.item, Item.core_kind (hm.core y)]
    exact h.kind
  · rw [hsame.item, Item.core_count (hm.core y)]
    exact h.count
  · intro hpos j hj hnotj
    rw [hweight j hnotj]
    exact h.lighter hpos j hj
  · intro j hj hfrom hnotj
    rw [hweight j hnotj]
    exact h.kept j hj hfrom
  · intro q
    have hbefore : (Cylinder.addThing srv w' d.cylinder d.index y).inventoryWeight =
        w.inventoryWeight := (addThing_inventoryWeight htile d.index y).trans h.inventoryWeight
    rw [← hbefore]
    exact hafter.inventoryWeight q

/-- A whole item is moved to a place that has no other item in the way. -/
theorem performMove_transferred (hsrv : srv.Ordinary) (hw : Forest srv w) (hacyclic : w.Acyclic)
    {c : Cylinder} (hi : i ∈ w.things c) {d : Destination} (hd : d.destItem = none)
    (hroom : w.Admits d.cylinder d.index) (hholder : w.Holder d.cylinder)
    (hnot : ∀ k, d.cylinder = .container k → ¬ w.Around k i) {m : ℕ}
    (hm : (w.item i).isStackable = true → m = (w.item i).count) :
    ∃ w', Game.performMove srv w c d i m = some w' ∧ Transferred srv w w' i d.cylinder := by
  have hparent := (hw.mem_things c i).mp hi
  have hlt := hw.lt_next i c hparent
  have hin := hw.inOrder i c hparent
  have htaken := removeThing_inHand hw hi hm
  obtain ⟨-, hmoved⟩ := removeThing_whole hw hi hm
  have hroom₁ : (Cylinder.removeThing srv w c i m).Admits d.cylinder d.index := by
    cases hc : d.cylinder with
    | container k =>
      rw [hc] at hroom
      change d.index < (((Cylinder.removeThing srv w c i m).item k).maxSize : ℤ)
      rw [Item.core_maxSize (hmoved.core k)]
      exact hroom
    | player p =>
      rw [hc] at hroom
      obtain ⟨s, hs, hindex, hempty⟩ := hroom
      exact ⟨s, hs, hindex, slots_empty_removeThing hempty⟩
    | tile t =>
      rw [hc] at hroom
      exact hroom
  have hholder₁ : (Cylinder.removeThing srv w c i m).Holder d.cylinder := by
    cases hc : d.cylinder with
    | container k =>
      rw [hc] at hholder
      rw [World.holder_container, Item.core_isContainer (hmoved.core k), hmoved.next]
      exact hholder
    | player p => trivial
    | tile t => trivial
  have hnot₁ (k : ItemId) (hk : d.cylinder = .container k) :
      ¬ (Cylinder.removeThing srv w c i m).Around k i := by
    rintro (heq | hin)
    · exact hnot k hk (.inl heq)
    · exact hnot k hk (.inr (hin.of_lost htaken.lost))
  unfold Game.performMove
  dsimp only
  generalize Cylinder.removeThing srv w c i m = w₁ at htaken hmoved hroom₁ hholder₁ hnot₁ ⊢
  have hkind := Item.core_kind (hmoved.core i)
  by_cases hs : (w.item i).isStackable = true
  · -- the stack that arrives is a new one
    have hone := hin.one_le hs
    have hle := hin.le_hundred hs
    have hwhole := hm hs
    have hs₁ : (w₁.item i).isStackable = true := (Item.core_isStackable (hmoved.core i)).trans hs
    have hmerge : Game.mergeStack srv w₁ d i m = (w₁, none, 0) := by
      unfold Game.mergeStack
      rw [hd]
    have hcreate := createItem_stack (w := w₁) (w₁.item i).kind (m - 0)
      (by rw [hkind]; exact hin.kind_known)
      (by rw [hkind]; exact hsrv.plainStacks hin.kind_known hs) hs₁ (by omega) (by omega)
    have hzero : ¬ m - 0 = 0 := by omega
    rw [if_pos hs₁, hmerge]
    dsimp only
    rw [if_neg hzero, hcreate, hkind, Nat.sub_zero, hwhole]
    refine ⟨_, rfl, (htaken.create hlt hmoved.next hs (by omega) hle).transferred hsrv.toQuiet
      hacyclic ?_ ?_ ?_ _ _ _⟩
    · exact (keepsRoom_create _).admits _ _ hholder₁ hroom₁
    · exact (keepsRoom_create _).holder _ hholder₁
    · -- nothing lies within the new stack
      intro k hk haround
      rw [hk] at hholder₁
      have hcreated := htaken.create hlt hmoved.next hs (by omega) hle
      rcases haround with heq | hin
      · exact (heq ▸ hholder₁.2).false
      · have hcontainer := (hin.container (hcreated.forest.nested fun x hx =>
          hacyclic x (hx.of_lost hcreated.lost))).1
        rw [create_item_next] at hcontainer
        cases hcontainer
  · have hs₁ : ¬ (w₁.item i).isStackable = true := by
      rw [Item.core_isStackable (hmoved.core i)]
      exact hs
    rw [if_neg hs₁]
    exact ⟨_, rfl, htaken.transferred hsrv.toQuiet hacyclic hroom₁ hholder₁ hnot₁ _ _ _⟩

/-- `Game::internalMoveItem` follows the destination of the player no further. -/
theorem findDestination_takes {q : PlayerId} {d : Destination} (h : Player.Takes srv w q i d) :
    Game.findDestination srv w i mapMaxLayers ⟨.player q, -1, none, {}⟩ = d := by
  have hquery : Cylinder.queryDestination srv w i ⟨.player q, -1, none, {}⟩ = d := h.destination
  rw [mapMaxLayers, Game.findDestination, hquery]
  dsimp only
  obtain ⟨cylinder, index, destItem, flags⟩ := d
  obtain rfl : destItem = none := h.destItem
  obtain rfl : flags = {} := h.flags
  rcases h.place with ⟨s, -, hc, -, -⟩ | ⟨k, hc, hindex, -, -⟩
  · rw [if_pos hc]
  · obtain rfl : cylinder = .container k := hc
    obtain rfl : index = -1 := hindex
    have hself : Cylinder.queryDestination srv w i ⟨.container k, -1, none, {}⟩ =
        ⟨.container k, -1, none, {}⟩ := by
      simp [Cylinder.queryDestination, Container.queryDestination]
    rw [if_neg (by simp), Game.findDestination, hself]
    simp

/-- A container that takes an item is there, and does not lie within the item. -/
theorem Player.Takes.container (hw : Forest srv w) (hacyclic : w.Acyclic)
    (hbound : w.next < srv.loopBound) {q : PlayerId} {d : Destination}
    (h : Player.Takes srv w q i d) {k : ItemId} (hk : d.cylinder = .container k) :
    Player.Opens w q k ∧ w.IsContainer k ∧ ¬ w.Around k i := by
  rcases h.place with ⟨s, -, hc, -, -⟩ | ⟨k', hc, -, hopens, -⟩
  · rw [hk] at hc
    cases hc
  · rw [hk] at hc
    cases hc
    obtain ⟨hwithin, hcontainer⟩ := hopens.within hw.toConsistent
    obtain ⟨place, hplace, -⟩ := hwithin.place
    have hk' : w.IsContainer k := ⟨hcontainer, hw.lt_next k place hplace⟩
    have hadd := h.queryAdd
    rw [hk, h.flags] at hadd
    exact ⟨hopens, hk', queryAdd_not_around (hw.nested hacyclic) hbound hk' rfl (.inl hadd)⟩

/-- What `Game::internalMoveItem` does with a whole item for which the player has a place. -/
theorem internalMoveItem_takes (hsrv : srv.Ordinary) (hw : Forest srv w) (hacyclic : w.Acyclic)
    (hbound : w.next < srv.loopBound) (hsizes : w.SizesFit) {c : Cylinder}
    (hparent : (w.item i).parent = some c) {q : PlayerId} {d : Destination}
    (h : Player.Takes srv w q i d) :
    ((w.item i).kind.moveable = true → ∃ w',
      Game.internalMoveItem srv w c (some (.player q)) (-1) i (w.item i).count {} =
          some (w', .noError) ∧ Transferred srv w w' i d.cylinder) ∧
      ((w.item i).kind.moveable = false → ∃ ret,
        Game.internalMoveItem srv w c (some (.player q)) (-1) i (w.item i).count {} =
          some (w, ret)) := by
  have hmem := (hw.mem_things c i).mpr hparent
  have hin := hw.inOrder i c hparent
  obtain ⟨max, hmax, hone, hfits⟩ := h.queryMaxCount hin hsizes
  -- the destination is found and takes the item, so only the counts are left to check
  have hchecks : Game.moveChecks srv w c (.player q) (-1) i (w.item i).count {} =
      Game.moveCounts w c d i (w.item i).count := by
    unfold Game.moveChecks
    dsimp only
    rw [findDestination_takes h, h.destItem, if_neg (by simp), h.queryAdd]
  have hcount : (w.item i).isStackable = true → min (w.item i).count max = (w.item i).count :=
    fun hs => min_eq_left (hfits hs)
  -- something is to be moved, and not more than there is
  have hunits : (if (w.item i).isStackable then min (w.item i).count max else max) ≠ 0 := by
    split
    · next hs =>
      rw [hcount hs]
      have := hin.one_le hs
      omega
    · omega
  have hindex := getIndexOfThing_ne.mpr hmem
  have hnotLess : ¬ ((if (w.item i).isStackable then min (w.item i).count max else max) = 0 ∨
      (w.item i).isStackable = true ∧ (w.item i).count <
        if (w.item i).isStackable then min (w.item i).count max else max) := by
    rintro (hzero | ⟨hs, hless⟩)
    · exact hunits hzero
    · rw [if_pos hs, hcount hs] at hless
      exact lt_irrefl _ hless
  unfold Game.internalMoveItem
  dsimp only
  rw [if_neg (by rw [hparent]; simp), hchecks, Game.moveCounts, hmax]
  dsimp only
  rw [if_neg (by simp)]
  unfold Cylinder.queryRemove
  dsimp only
  rw [if_neg hindex, if_neg hnotLess]
  constructor
  · intro hmoveable
    have hnot : ¬ ((w.item i).isNotMoveable = true ∧ ¬ d.flags.ignoreNotMoveable = true) := by
      rintro ⟨hnot, -⟩
      simp [Item.isNotMoveable, hmoveable] at hnot
    rw [if_neg hnot]
    dsimp only
    have hless : ¬ ((w.item i).isStackable = true ∧ max < (w.item i).count) := by
      rintro ⟨hs, hless⟩
      have := hfits hs
      omega
    rw [if_neg hless]
    have hroom : w.Admits d.cylinder d.index := by
      rcases h.place with ⟨s, hs, hc, hs', hempty⟩ | ⟨k, hc, hk, -, -⟩
      · rw [hc, hs']
        exact ⟨s, hs, rfl, hempty⟩
      · rw [hc, hk]
        change (-1 : ℤ) < ((w.item k).maxSize : ℤ)
        omega
    have hholder : w.Holder d.cylinder := by
      cases hc : d.cylinder with
      | container k => exact (h.container hw hacyclic hbound hc).2.1
      | player p => trivial
      | tile t => trivial
    have hwhole (hs : (w.item i).isStackable = true) :
        (if (w.item i).isStackable then min (w.item i).count max else max) = (w.item i).count := by
      rw [if_pos hs, hcount hs]
    obtain ⟨w', hperform, htransferred⟩ := performMove_transferred hsrv hw hacyclic hmem h.destItem
      hroom hholder (fun k hk => (h.container hw hacyclic hbound hk).2.2) hwhole
    rw [hperform]
    exact ⟨w', rfl, htransferred⟩
  · -- `queryRemove` refuses, wherever the item is
    intro hmoveable
    have hnot : (w.item i).isNotMoveable = true ∧ ¬ d.flags.ignoreNotMoveable = true := by
      rw [h.flags]
      simp [Item.isNotMoveable, hmoveable]
    rw [if_pos hnot]
    cases c with
    | tile t => exact ⟨_, rfl⟩
    | container k => exact ⟨_, rfl⟩
    | player p => exact ⟨_, rfl⟩

end TyanoCore
