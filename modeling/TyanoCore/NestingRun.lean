import TyanoCore.MoveConservation
import TyanoCore.Nesting
import TyanoCore.Run

/-!
# Moving items between containers

Whatever `Game::internalMoveItem` does between two containers, it puts an item only into a container
whose parents have been searched for the item, so the containers stay a forest.
-/

namespace TyanoCore

open Transition

variable {srv : Server} {w w' : World}

/-! ## The operations of a container -/

theorem linkPut_list {i j : ItemId} {itemlist : List ItemId}
    (hlist : itemlist.Perm (i :: (w.item j).itemlist)) :
    LinkPut i j w ((w.setParent i (some (.container j))).setItemList j itemlist) := by
  constructor
  · rw [World.parent_setItemList, if_pos rfl]
  · intro k hk
    rw [World.parent_setItemList, if_neg hk]
  · rw [World.itemlist_setItemList, if_pos rfl]
    exact hlist
  · intro k hk
    rw [World.itemlist_setItemList, if_neg hk]
  · intro k
    rw [World.isContainer_setItemList]
  · rfl

variable (w) in
theorem linkTaken_erase (i j : ItemId) :
    LinkTaken i j w ((w.setParent i none).setItemList j ((w.item j).itemlist.erase i)) := by
  constructor
  · rw [World.parent_setItemList, if_pos rfl]
  · intro k hk
    rw [World.parent_setItemList, if_neg hk]
  · rw [World.itemlist_setItemList, if_pos rfl]
  · intro k hk
    rw [World.itemlist_setItemList, if_neg hk]
  · intro k
    rw [World.isContainer_setItemList]
  · rfl

theorem sameLinks_updateItemWeight (n : ℕ) (w : World) (j : ItemId) (diff : ℤ) :
    SameLinks w (w.updateItemWeight n j diff) :=
  (sameItems_updateItemWeight n w j diff).sameLinks

/-- An item that keeps its links. -/
theorem sameLinks_setItem {i : ItemId} {item : Item} (hparent : item.parent = (w.item i).parent)
    (hlist : item.itemlist = (w.item i).itemlist)
    (hcontainer : item.isContainer = (w.item i).isContainer) : SameLinks w (w.setItem i item) := by
  constructor
  · intro k
    by_cases hk : k = i
    · simp [World.setItem, hk, hparent]
    · simp [World.setItem, hk]
  · intro k
    by_cases hk : k = i
    · simp [World.setItem, hk, hlist]
    · simp [World.setItem, hk]
  · intro k
    by_cases hk : k = i
    · simp [World.setItem, hk, hcontainer]
    · simp [World.setItem, hk]
  · rfl

variable (srv w) in
/-- `Container::__addThing` puts the item into the container, or does nothing. -/
theorem addThing_put (i j : ItemId) (index : ℤ) :
    Container.addThing srv w j index i = w ∨ LinkPut i j w (Container.addThing srv w j index i) := by
  unfold Container.addThing
  split
  · exact .inl rfl
  · exact .inr ((linkPut_list (.refl _)).trans (sameLinks_updateItemWeight _ _ _ _))

variable (srv w) in
/-- `Container::__removeThing` takes the item out of the container, or changes no link. -/
theorem removeThing_taken (i j : ItemId) (count : ℕ) :
    SameLinks w (Container.removeThing srv w j i count) ∨
      LinkTaken i j w (Container.removeThing srv w j i count) := by
  unfold Container.removeThing
  split
  · exact .inl (.refl w)
  split
  · have hset : SameLinks w (w.setItem i { w.item i with count := (w.item i).count - count }) :=
      sameLinks_setItem rfl rfl rfl
    exact .inl (hset.trans (sameLinks_updateItemWeight _ _ _ _))
  · have hsame := sameItems_updateItemWeight srv.loopBound w j (-w.getWeight i)
    have htaken := linkTaken_erase (w.updateItemWeight srv.loopBound j (-w.getWeight i)) i j
    rw [congrFun hsame.item j] at htaken
    exact .inr (.of_sameLinks hsame.sameLinks htaken)

variable (srv) in
/-- A whole item is taken out of the container it lies in. -/
theorem removeThing_whole_taken {i j : ItemId} (hmem : i ∈ (w.item j).itemlist)
    (count : ℕ) (hcount : (w.item i).isStackable = true → count = (w.item i).count) :
    LinkTaken i j w (Container.removeThing srv w j i count) := by
  have hindex : Container.getIndexOfThing w j i ≠ -1 :=
    (getIndexOfThing_ne (c := .container j)).mpr hmem
  have hwhole : ¬ ((w.item i).isStackable = true ∧ count ≠ (w.item i).count) := by
    rintro ⟨hs, hne⟩
    exact hne (hcount hs)
  unfold Container.removeThing
  rw [if_neg hindex, if_neg hwhole]
  have hsame := sameItems_updateItemWeight srv.loopBound w j (-w.getWeight i)
  have htaken := linkTaken_erase (w.updateItemWeight srv.loopBound j (-w.getWeight i)) i j
  rw [congrFun hsame.item j] at htaken
  exact .of_sameLinks hsame.sameLinks htaken

theorem sameLinks_update (i : ItemId) (kind : ItemKind) (count : ℕ) :
    SameLinks w (w.setItem i ((w.item i).update kind count)) := by
  apply sameLinks_setItem
  · unfold Item.update Item.setSubType
    dsimp only
    split_ifs <;> rfl
  · unfold Item.update Item.setSubType
    dsimp only
    split_ifs <;> rfl
  · unfold Item.update Item.setSubType
    dsimp only
    split_ifs <;> rfl

/-- `Container::__updateThing` changes no link. -/
theorem sameLinks_updateThing (j i : ItemId) (kindId : KindId) (count : ℕ) :
    SameLinks w (Container.updateThing srv w j i kindId count) := by
  unfold Container.updateThing
  split
  · exact .refl w
  split
  · exact .refl w
  · exact (sameLinks_update i _ count).trans (sameLinks_updateItemWeight _ _ _ _)

/-- A container tells the player who carries it, and runs no script. -/
theorem sameLinks_notifyAdded (j : ItemId) (i : Option ItemId) :
    SameLinks w (Cylinder.notifyAdded srv w (.container j) i) := by
  unfold Cylinder.notifyAdded
  split
  · exact .refl w
  · dsimp only
    split
    · exact .refl w
    · unfold Cylinder.postAddNotification
      dsimp only
      split
      · exact (sameItems_updateInventoryWeight w _).sameLinks
      · exact .refl w

theorem sameLinks_postRemoveNotification (j i : ItemId) (index : ℤ) (isCompleteRemoval : Bool) :
    SameLinks w (Cylinder.postRemoveNotification srv w (.container j) i index isCompleteRemoval) := by
  unfold Cylinder.postRemoveNotification
  dsimp only
  split
  · exact (sameItems_updateInventoryWeight w _).sameLinks
  · exact .refl w

/-! ## The checks -/

/-- A container that is there. -/
def World.IsContainer (w : World) (j : ItemId) : Prop :=
  (w.item j).isContainer = true ∧ j < w.next

/-- A container that accepts an item, or asks for an exchange, does not lie within it. -/
theorem queryAdd_not_around (hw : w.Nested) (hbound : w.next < srv.loopBound) {j i : ItemId}
    {index : ℤ} {count : ℕ} {flags : CylinderFlags} (hj : w.IsContainer j)
    (hflags : flags.childIsOwner = false)
    (h : Container.queryAdd srv w j index i count flags = .noError ∨
      Container.queryAdd srv w j index i count flags = .needExchange) : ¬ w.Around j i := by
  rintro (rfl | hin)
  -- the container itself is refused
  · simp only [Container.queryAdd, hflags, Bool.false_eq_true, if_false, if_true] at h
    split at h <;> simp at h
  -- so is a container that the loop over the parents finds
  · have hcontainer := (hin.container hw).1
    have hpos : 0 < w.next := Nat.lt_of_le_of_lt (Nat.zero_le _) hj.2
    have hinside : w.isInside i srv.loopBound (w.item j).parent = true := by
      obtain ⟨rank, hrank, hlt⟩ := hw.shallow hpos
      exact isInside_within ⟨rank, hrank, fun k => (hlt k).trans hbound⟩ hin
    simp only [Container.queryAdd, hflags, hcontainer, hinside, Bool.false_eq_true, if_false,
      Bool.and_self, if_true] at h
    split at h
    · simp at h
    · split at h <;> simp at h

theorem getThing_lt (hw : w.Nested) {j thing : ItemId} {index : ℤ}
    (h : Container.getThing w j index = some thing) : thing < w.next := by
  unfold Container.getThing at h
  split at h
  · cases h
  · have hmem := List.mem_of_getElem? h
    exact hw.lt_next thing _ ((hw.mem_itemlist thing j).mp hmem)

variable (srv) in
/-- `__queryDestination` of a container leads to a container: itself, the one it is in, or the
one at the index. -/
theorem queryDestination_container (hw : w.Nested) {d : Destination} {j : ItemId}
    (hd : d.cylinder = .container j) (hj : w.IsContainer j) (item : ItemId)
    (hflags : d.flags.childIsOwner = false) :
    ∃ k, (Cylinder.queryDestination srv w item d).cylinder = .container k ∧ w.IsContainer k ∧
      (Cylinder.queryDestination srv w item d).flags.childIsOwner = false := by
  have hquery : Cylinder.queryDestination srv w item d = Container.queryDestination w j d := by
    simp only [Cylinder.queryDestination, hd]
  rw [hquery]
  unfold Container.queryDestination
  by_cases hup : d.index = 254
  · rw [if_pos hup]
    dsimp only
    split
    · next k hk => exact ⟨k, rfl, hw.container j k hk, hflags⟩
    · exact ⟨j, rfl, hj, hflags⟩
  rw [if_neg hup]
  by_cases hadd : d.index = 255
  · rw [if_pos hadd]
    exact ⟨j, rfl, hj, hflags⟩
  rw [if_neg hadd]
  dsimp only
  generalize (if ((w.item j).maxSize : ℤ) ≤ d.index then (-1 : ℤ) else d.index) = index
  by_cases hnone : index = -1
  · rw [if_pos hnone]
    exact ⟨j, rfl, hj, hflags⟩
  rw [if_neg hnone]
  unfold Destination.orSubCylinder
  split
  · exact ⟨j, rfl, hj, hflags⟩
  · next thing hthing =>
    by_cases hcontainer : (w.item thing).isContainer = true
    · rw [if_pos hcontainer]
      exact ⟨thing, rfl, ⟨hcontainer, getThing_lt hw hthing⟩, hflags⟩
    · rw [if_neg hcontainer]
      exact ⟨j, rfl, hj, hflags⟩

variable (srv) in
theorem findDestination_container (hw : w.Nested) (item : ItemId) (n : ℕ) {d : Destination}
    {j : ItemId} (hd : d.cylinder = .container j) (hj : w.IsContainer j)
    (hflags : d.flags.childIsOwner = false) :
    ∃ k, (Game.findDestination srv w item n d).cylinder = .container k ∧ w.IsContainer k ∧
      (Game.findDestination srv w item n d).flags.childIsOwner = false := by
  -- on the rounds of the loop, each of which leads to a container
  induction n generalizing d j with
  | zero => exact ⟨j, hd, hj, hflags⟩
  | succ n ih =>
    obtain ⟨k, hk, hk', hflags'⟩ := queryDestination_container srv hw hd hj item hflags
    unfold Game.findDestination
    dsimp only
    split
    · exact ⟨k, hk, hk', hflags'⟩
    · exact ih hk hk' rfl

/-- What the checks of a move lead to: the containers stay nested, and an item that may be moved
lies in its source and does not go into itself. -/
def MoveChecks.KeepsNested (w : World) (j item : ItemId) : MoveChecks → Prop
  | .returned w' _ => w'.Nested ∧ w'.next = w.next
  | .crashed => True
  | .ready w' d _ _ _ => w'.Nested ∧ w'.next = w.next ∧ item ∈ (w'.item j).itemlist ∧
      ∃ k, d.cylinder = .container k ∧ w'.IsContainer k ∧ ¬ w'.Around k item

theorem moveCounts_nested {w₀ : World} (hw : w.Nested) (hnext : w.next = w₀.next) {j k : ItemId}
    {d : Destination} (hd : d.cylinder = .container k) (hk : w.IsContainer k) {item : ItemId}
    (hinside : ¬ w.Around k item) (count : ℕ) :
    (Game.moveCounts w (.container j) d item count).KeepsNested w₀ j item := by
  unfold Game.moveCounts
  dsimp only
  split
  · exact ⟨hw, hnext⟩
  · split
    · next hremove =>
      have hmem : item ∈ (w.item j).itemlist := (queryRemove_noError hremove).1
      exact ⟨hw, hnext, hmem, k, hd, hk, hinside⟩
    · exact ⟨hw, hnext⟩

variable (srv w) in
theorem sameLinks_exchanged (j k toItem : ItemId) (oldToItemIndex : ℤ) :
    SameLinks w (Game.exchanged srv w (.container j) (.container k) toItem oldToItemIndex) := by
  unfold Game.exchanged
  dsimp only
  split
  · exact sameLinks_notifyAdded j _
  · exact (sameLinks_postRemoveNotification k toItem _ true).trans (sameLinks_notifyAdded j _)

variable (srv) in
/-- The item in the way of another one goes to where that one comes from. -/
theorem exchange_nested (hw : w.Nested) {j k toItem : ItemId} (hj : w.IsContainer j)
    (hmem : toItem ∈ (w.item k).itemlist) (hinside : ¬ w.Around j toItem) :
    (Game.exchange srv w (.container j) (.container k) toItem).Nested ∧
      (Game.exchange srv w (.container j) (.container k) toItem).next = w.next ∧
      ∀ x, ((Game.exchange srv w (.container j) (.container k) toItem).item x).isContainer =
        (w.item x).isContainer := by
  have hparent := (hw.mem_itemlist toItem k).mp hmem
  -- the item leaves the destination
  have htaken := removeThing_whole_taken srv hmem (w.item toItem).count fun _ => rfl
  unfold Game.exchange
  dsimp only [Cylinder.removeThing, Cylinder.addThing]
  generalize Container.removeThing srv w k toItem (w.item toItem).count = w₁ at htaken
  have hnested₁ := hw.take htaken hparent
  have hj₁ : w₁.IsContainer j := ⟨(htaken.isContainer j).trans hj.1, htaken.next ▸ hj.2⟩
  have hinside₁ : ¬ w₁.Around j toItem := by
    rintro (heq | hin)
    · exact hinside (.inl heq)
    · exact hinside (.inr (hin.of_lost htaken.lost))
  -- and goes into the source
  have hexchanged {w₂ : World} (hw₂ : w₂.Nested) (hnext : w₂.next = w.next)
      (hcontainer : ∀ x, (w₂.item x).isContainer = (w.item x).isContainer) :
      let w₃ := Game.exchanged srv w₂ (.container j) (.container k) toItem
        (Cylinder.getIndexOfThing w (.container k) toItem)
      w₃.Nested ∧ w₃.next = w.next ∧
        ∀ x, (w₃.item x).isContainer = (w.item x).isContainer := by
    have hsame := sameLinks_exchanged srv w₂ j k toItem
      (Cylinder.getIndexOfThing w (.container k) toItem)
    exact ⟨hw₂.of_sameLinks hsame, hsame.next.trans hnext,
      fun x => (hsame.isContainer x).trans (hcontainer x)⟩
  rcases addThing_put srv w₁ toItem j 0 with hnothing | hput
  · rw [hnothing]
    exact hexchanged hnested₁ htaken.next htaken.isContainer
  · have hlt : toItem < w₁.next := htaken.next.symm ▸ hw.lt_next toItem _ hparent
    exact hexchanged (hnested₁.put hput htaken.parent hlt hj₁ hinside₁)
      (hput.next.trans htaken.next) fun x => (hput.isContainer x).trans (htaken.isContainer x)

theorem moveExchange_nested (hw : w.Nested) (hbound : w.next < srv.loopBound) {j k item : ItemId}
    (hj : w.IsContainer j) {d : Destination} (hd : d.cylinder = .container k)
    (hk : w.IsContainer k) (hflags : d.flags.childIsOwner = false)
    (hinside : ¬ w.Around k item) (count : ℕ) :
    (Game.moveExchange srv w (.container j) d item count).KeepsNested w j item := by
  unfold Game.moveExchange
  split
  · trivial
  next toItem _ =>
  dsimp only
  rw [hd]
  split
  · next hadd =>
    have hto : ¬ w.Around j toItem := queryAdd_not_around hw hbound hj rfl (.inl hadd)
    split
    · exact ⟨hw, rfl⟩
    split
    · next hremove =>
      have hmem : toItem ∈ (w.item k).itemlist := (queryRemove_noError hremove).1
      obtain ⟨hw', hnext', hcontainer'⟩ := exchange_nested srv hw hj hmem hto
      generalize Game.exchange srv w (.container j) (.container k) toItem = w' at hw' hnext' hcontainer'
      have hk' : w'.IsContainer k := ⟨(hcontainer' k).trans hk.1, hnext' ▸ hk.2⟩
      split
      · next hagain =>
        -- the destination is asked once more
        have hinside' := queryAdd_not_around hw' (hnext' ▸ hbound) hk' hflags (.inl hagain)
        exact moveCounts_nested hw' hnext' rfl hk' hinside' count
      · exact ⟨hw', hnext'⟩
    -- an item in the way that may not be removed stays, and the move goes on
    · exact moveCounts_nested hw rfl hd hk hinside count
  · exact ⟨hw, rfl⟩

/-- Whatever the checks of a move between two containers exchange, the containers stay nested. -/
theorem moveChecks_nested (hw : w.Nested) (hbound : w.next < srv.loopBound) {j k : ItemId}
    (hj : w.IsContainer j) (hk : w.IsContainer k) (item : ItemId) (index : ℤ) (count : ℕ)
    {flags : CylinderFlags} (hflags : flags.childIsOwner = false) :
    (Game.moveChecks srv w (.container j) (.container k) index item count flags).KeepsNested
      w j item := by
  unfold Game.moveChecks
  let start : Destination :=
    { cylinder := .container k, index := index, destItem := none, flags := flags }
  obtain ⟨l, hd, hl, hdflags⟩ :=
    findDestination_container srv hw item mapMaxLayers (d := start) rfl hk hflags
  generalize Game.findDestination srv w item mapMaxLayers _ = d at hd hdflags
  dsimp only
  split
  · exact ⟨hw, rfl⟩
  rw [hd]
  have hquery : Cylinder.queryAdd srv w (.container l) d.index item count d.flags =
      Container.queryAdd srv w l d.index item count d.flags := rfl
  split
  · next hadd =>
    have hinside := queryAdd_not_around hw hbound hl hdflags (.inr (hquery.symm.trans hadd))
    exact moveExchange_nested hw hbound hj hd hl hdflags hinside count
  · next hadd =>
    have hinside := queryAdd_not_around hw hbound hl hdflags (.inl (hquery.symm.trans hadd))
    exact moveCounts_nested hw rfl hd hl hinside count
  · exact ⟨hw, rfl⟩

/-! ## The move -/

/-- `Item::CreateItem` builds an item that holds nothing and lies nowhere. -/
theorem World.Nested.create (hw : w.Nested) {item : Item} (hparent : item.parent = none)
    (hlist : item.itemlist = []) : (w.create item).Nested := by
  have hup {x : ItemId} {c : Cylinder} (h : ((w.create item).item x).parent = some c) :
      (w.item x).parent = some c := by
    by_cases hx : x = w.next
    · rw [hx, create_item_next, hparent] at h
      cases h
    · have hsame : (w.create item).item x = w.item x := if_neg hx
      rwa [hsame] at h
  -- nothing lies in an item that does not exist yet
  have hempty : (w.item w.next).itemlist = [] := by
    rw [List.eq_nil_iff_forall_not_mem]
    intro x hx
    have hin := hw.container x _ ((hw.mem_itemlist x _).mp hx)
    exact Nat.lt_irrefl _ hin.2
  have hlists (j : ItemId) : ((w.create item).item j).itemlist = (w.item j).itemlist := by
    by_cases hj : j = w.next
    · rw [hj, create_item_next, hlist, hempty]
    · have hsame : (w.create item).item j = w.item j := if_neg hj
      rw [hsame]
  constructor
  · intro i j
    rw [hlists, hw.mem_itemlist]
    refine ⟨fun h => ?_, hup⟩
    rw [create_item_of_lt (hw.lt_next i _ h)]
    exact h
  · intro j
    rw [hlists]
    exact hw.nodup j
  · exact fun i c h => Nat.lt_succ_of_lt (hw.lt_next i c (hup h))
  · intro i j h
    have hin := hw.container i j (hup h)
    rw [create_item_of_lt hin.2]
    exact ⟨hin.1, Nat.lt_succ_of_lt hin.2⟩
  · have hwithin {c : Cylinder} {x : ItemId} (h : (w.create item).Within c x) : w.Within c x := by
      induction h with
      | thing h => exact .thing (hup h)
      | nested h _ ih => exact .nested (hup h) ih
    exact fun j hj => hw.acyclic j (hwithin hj)

/-- A new item belongs to no container, and no container belongs to it. -/
structure Fresh (w w' : World) (i : ItemId) : Prop where
  nested : w'.Nested
  eq_next : i = w.next
  next : w'.next = w.next + 1
  parent : (w'.item i).parent = none
  itemlist : (w'.item i).itemlist = []
  item_of_lt : ∀ k, k < w.next → w'.item k = w.item k

theorem World.Nested.fresh (hw : w.Nested) {item : Item} (hparent : item.parent = none)
    (hlist : item.itemlist = []) : Fresh w (w.create item) w.next := by
  refine ⟨hw.create hparent hlist, rfl, rfl, ?_, ?_, fun k hk => create_item_of_lt hk⟩
  · rw [create_item_next]
    exact hparent
  · rw [create_item_next]
    exact hlist

theorem createItem_create {kindId : KindId} {amount : ℕ} {i : ItemId}
    (h : Item.createItem srv w kindId amount = some (w', i)) :
    ∃ item : Item, w' = w.create item ∧ i = w.next ∧ item.parent = none ∧ item.itemlist = [] := by
  unfold Item.createItem at h
  split at h
  · cases h
  split at h
  · cases h
  · next kind _ =>
    dsimp only at h
    split at h
    · cases h
    · generalize (if kind.isOrdinary then amount % 2 ^ 16 else 0) = n at h
      cases h
      have hnew : (Item.new kind n).parent = none ∧ (Item.new kind n).itemlist = [] := by
        unfold Item.new
        dsimp only
        split_ifs <;> exact ⟨rfl, rfl⟩
      exact ⟨Item.new kind n, rfl, rfl, hnew⟩

theorem createItem_fresh (hw : w.Nested) {kindId : KindId} {amount : ℕ} {i : ItemId}
    (h : Item.createItem srv w kindId amount = some (w', i)) : Fresh w w' i := by
  obtain ⟨item, rfl, rfl, hparent, hlist⟩ := createItem_create h
  exact hw.fresh hparent hlist

theorem Fresh.isContainer {i j : ItemId} (h : Fresh w w' i) (hj : w.IsContainer j) :
    w'.IsContainer j := by
  refine ⟨?_, h.next ▸ Nat.lt_succ_of_lt hj.2⟩
  rw [h.item_of_lt j hj.2]
  exact hj.1

theorem Fresh.not_around {i j : ItemId} (h : Fresh w w' i) (hj : w.IsContainer j) :
    ¬ w'.Around j i := by
  rintro (heq | hin)
  · rw [h.eq_next] at heq
    exact Nat.ne_of_gt hj.2 heq
  · -- something would lie in it
    have hempty (x : ItemId) (hx : (w'.item x).parent = some (.container i)) : False := by
      have hmem := (h.nested.mem_itemlist x i).mpr hx
      rw [h.itemlist] at hmem
      cases hmem
    clear hj
    induction hin with
    | thing hx => exact hempty _ hx
    | nested _ _ ih => exact ih

/-- Adding what was not merged, and the notifications. -/
theorem finishMove_nested (hw : w.Nested) {j k : ItemId} {d : Destination}
    (hd : d.cylinder = .container k) (hk : w.IsContainer k) {moveItem : Option ItemId}
    (hmove : ∀ i, moveItem = some i → (w.item i).parent = none ∧ i < w.next ∧ ¬ w.Around k i)
    (item : ItemId) (updateItem : Option ItemId) (itemIndex : ℤ) (isCompleteRemoval : Bool) :
    (Game.finishMove srv w (.container j) d item moveItem updateItem itemIndex
      isCompleteRemoval).Nested := by
  have hadded : (Game.addMoved srv w d moveItem).Nested := by
    unfold Game.addMoved
    split
    · exact hw
    · next i =>
      obtain ⟨hnone, hlt, hinside⟩ := hmove i rfl
      rw [hd]
      -- an index behind the list is refused, and the item is lost
      rcases addThing_put srv w i k d.index with hnothing | hput
      · change (Container.addThing srv w k d.index i).Nested
        rw [hnothing]
        exact hw
      · exact hw.put hput hnone hlt hk hinside
  unfold Game.finishMove
  dsimp only
  rw [hd]
  refine hadded.of_sameLinks ?_
  have hnotify (w' : World) : SameLinks w' (Cylinder.notifyAdded srv
      (Cylinder.notifyAdded srv w' (.container k) moveItem) (.container k) updateItem) :=
    (sameLinks_notifyAdded k _).trans (sameLinks_notifyAdded k _)
  split
  · exact hnotify _
  · exact (sameLinks_postRemoveNotification j item itemIndex isCompleteRemoval).trans (hnotify _)

variable (srv w) in
theorem sameLinks_mergeStack {k : ItemId} {d : Destination} (hd : d.cylinder = .container k)
    (item : ItemId) (m : ℕ) : SameLinks w (Game.mergeStack srv w d item m).1 := by
  unfold Game.mergeStack
  split
  · exact .refl w
  · dsimp only
    split
    · rw [hd]
      exact sameLinks_updateThing k _ _ _
    · exact .refl w

variable (srv w) in
theorem removeThing_isStackable {i j : ItemId} (hij : i ≠ j) (count : ℕ) :
    ((Container.removeThing srv w j i count).item i).isStackable = (w.item i).isStackable := by
  unfold Container.removeThing
  split
  · rfl
  have hsame (w : World) (diff : ℤ) :=
    congrFun (sameItems_updateItemWeight srv.loopBound w j diff).item i
  split
  · dsimp only
    rw [hsame]
    simp [World.setItem, Item.isStackable]
  · have hkind : (((w.updateItemWeight srv.loopBound j (-w.getWeight i)).setParent i none).setItemList j
        ((w.item j).itemlist.erase i)).item i = { w.item i with parent := none } := by
      simp [World.setItemList, World.setParent, World.setItem, hij, hsame]
    dsimp only
    rw [hkind]
    rfl

/-- The move itself, once the checks have let it through. -/
theorem performMove_nested (hw : w.Nested) {j k item : ItemId} {d : Destination}
    (hd : d.cylinder = .container k) (hk : w.IsContainer k)
    (hmem : item ∈ (w.item j).itemlist) (hinside : ¬ w.Around k item) {m : ℕ}
    (h : Game.performMove srv w (.container j) d item m = some w') : w'.Nested := by
  have hparent := (hw.mem_itemlist item j).mp hmem
  have hj : item ≠ j := by
    rintro rfl
    exact hw.acyclic item (.thing hparent)
  have hremoved := removeThing_taken srv w item j m
  have hstackable := removeThing_isStackable srv w hj m
  have hwhole := removeThing_whole_taken srv hmem m
  unfold Game.performMove at h
  dsimp only [Cylinder.removeThing] at h
  generalize Container.removeThing srv w j item m = w₁ at h hremoved hstackable hwhole
  -- a part of a stack leaves no link, a whole item leaves one
  have hw₁ : w₁.Nested ∧ w₁.IsContainer k := by
    rcases hremoved with hsame | htaken
    · exact ⟨hw.of_sameLinks hsame, (hsame.isContainer k).trans hk.1, hsame.next ▸ hk.2⟩
    · exact ⟨hw.take htaken hparent, (htaken.isContainer k).trans hk.1, htaken.next ▸ hk.2⟩
  split at h
  · -- a stack: what does not fit onto another one becomes a new item
    have hmerge := sameLinks_mergeStack srv w₁ hd item m
    generalize Game.mergeStack srv w₁ d item m = merged at h hmerge
    obtain ⟨w₂, updateItem, n⟩ := merged
    have hw₂ := hw₁.1.of_sameLinks hmerge
    have hk₂ : w₂.IsContainer k :=
      ⟨(hmerge.isContainer k).trans hw₁.2.1, hmerge.next ▸ hw₁.2.2⟩
    dsimp only at h
    split at h
    · cases h
      refine finishMove_nested hw₂ hd hk₂ ?_ item updateItem _ _
      intro i hi
      cases hi
    · split at h
      · cases h
      · next w₃ moveItem hcreate =>
        cases h
        have hfresh := createItem_fresh hw₂ hcreate
        refine finishMove_nested hfresh.nested hd (hfresh.isContainer hk₂) ?_ item updateItem _ _
        intro i hi
        cases hi
        refine ⟨hfresh.parent, ?_, hfresh.not_around hk₂⟩
        rw [hfresh.eq_next, hfresh.next]
        exact Nat.lt_succ_self _
  · -- the item itself
    next hs =>
    cases h
    -- it is not stackable, so it was taken whole
    have htaken := hwhole fun hstack => absurd (hstackable.trans hstack) hs
    refine finishMove_nested hw₁.1 hd hw₁.2 ?_ item none _ _
    intro i hi
    cases hi
    refine ⟨htaken.parent, ?_, ?_⟩
    · rw [htaken.next]
      exact hw.lt_next item _ hparent
    · rintro (heq | hin)
      · exact hinside (.inl heq)
      · exact hinside (.inr (hin.of_lost htaken.lost))

variable (srv) in
/-- An item that lies nowhere is added to a container. -/
theorem addThing_nested (hw : w.Nested) {i k : ItemId} (hk : w.IsContainer k)
    (hnone : (w.item i).parent = none) (hi : i < w.next) (hinside : ¬ w.Around k i) (index : ℤ) :
    (Cylinder.notifyAdded srv (Cylinder.addThing srv w (.container k) index i) (.container k)
      (some i)).Nested := by
  have hadded : (Container.addThing srv w k index i).Nested := by
    rcases addThing_put srv w i k index with hnothing | hput
    · rw [hnothing]
      exact hw
    · exact hw.put hput hnone hi hk hinside
  exact hadded.of_sameLinks (sameLinks_notifyAdded k _)

/-- `Game::internalAddItem` of an item that lies nowhere. -/
theorem internalAddItem_nested (hw : w.Nested) (hbound : w.next < srv.loopBound) {k item : ItemId}
    (hk : w.IsContainer k) (hitem : item < w.next) (hnone : (w.item item).parent = none)
    (index : ℤ) {flags : CylinderFlags} (hflags : flags.childIsOwner = false) :
    (Game.internalAddItem srv w (some (.container k)) (some item) index flags false).1.Nested := by
  unfold Game.internalAddItem
  let start : Destination :=
    { cylinder := .container k, index := index, destItem := none, flags := flags }
  obtain ⟨l, hd, hl, hdflags⟩ := queryDestination_container srv hw (d := start) rfl hk item hflags
  dsimp only
  generalize Cylinder.queryDestination srv w item _ = d at hd hdflags
  rw [hd]
  split
  · exact hw
  next hadd =>
  have hinside : ¬ w.Around l item :=
    queryAdd_not_around hw hbound hl hdflags (.inl (not_not.mp hadd))
  split
  · exact hw
  rw [if_neg (by decide)]
  split
  · -- a stack
    generalize min (w.item item).count _ = m
    have hmerge := sameLinks_mergeStack srv w hd item m
    generalize Game.mergeStack srv w d item m = merged at hmerge
    obtain ⟨w₂, updateItem, n⟩ := merged
    dsimp only at hmerge ⊢
    have hw₂ := hw.of_sameLinks hmerge
    have hl₂ : w₂.IsContainer l := ⟨(hmerge.isContainer l).trans hl.1, hmerge.next ▸ hl.2⟩
    have hnone₂ := (hmerge.parent item).trans hnone
    have hitem₂ : item < w₂.next := hmerge.next ▸ hitem
    have hinside₂ : ¬ w₂.Around l item := by
      rintro (heq | hin)
      · exact hinside (.inl heq)
      · exact hinside (.inr ((World.Within.of_sameLinks hmerge).mp hin))
    have hself := addThing_nested srv hw₂ hl₂ hnone₂ hitem₂ hinside₂ d.index
    have hnotified : (Cylinder.notifyAdded srv w₂ (.container l) (some item)).Nested :=
      hw₂.of_sameLinks (sameLinks_notifyAdded l _)
    split
    · exact hself
    split
    · exact hnotified
    split
    · exact hnotified
    · next w₃ moveItem hcreated =>
      split at hcreated
      · cases hcreated
        exact hself
      · have hfresh := createItem_fresh hw₂ hcreated
        refine addThing_nested srv hfresh.nested (hfresh.isContainer hl₂) hfresh.parent ?_
          (hfresh.not_around hl₂) d.index
        rw [hfresh.eq_next, hfresh.next]
        exact Nat.lt_succ_self _
  · exact addThing_nested srv hw hl hnone hitem hinside d.index

/-- `Game::internalMoveItem` between two containers. -/
theorem internalMoveItem_nested (hw : w.Nested) (hbound : w.next < srv.loopBound)
    {j k item : ItemId} (hj : w.IsContainer j) (hk : w.IsContainer k) (hitem : item < w.next)
    {index : ℤ} {count : ℕ} {flags : CylinderFlags} (hflags : flags.childIsOwner = false)
    {ret : ReturnValue}
    (h : Game.internalMoveItem srv w (.container j) (some (.container k)) index item count flags =
      some (w', ret)) : w'.Nested := by
  unfold Game.internalMoveItem at h
  dsimp only at h
  split at h
  · next hnone =>
    let noLimit : CylinderFlags := { noLimit := true }
    have hadded : (Game.internalAddItem srv w (some (.container k)) (some item) (-1) noLimit
        false).1.Nested := internalAddItem_nested hw hbound hk hitem hnone (-1) rfl
    rw [Option.some.inj h] at hadded
    exact hadded
  have hchecks := moveChecks_nested hw hbound hj hk item index count hflags
  split at h
  · next hreturned =>
    rw [hreturned] at hchecks
    cases h
    exact hchecks.1
  · cases h
  · next hready =>
    rw [hready] at hchecks
    obtain ⟨hw₁, -, hmem, l, hd, hl, hinside⟩ := hchecks
    obtain ⟨w₂, hperform, hret⟩ := Option.map_eq_some_iff.mp h
    cases hret
    exact performMove_nested hw₁ hd hl hmem hinside hperform

/-! ## Walking up -/

/-- Where a walk from parent to parent is after `n` steps. -/
def World.ancestor (w : World) : ℕ → Option Cylinder → Option Cylinder
  | 0, c => c
  | _ + 1, none => none
  | n + 1, some c => World.ancestor w n (w.getParent c)

theorem ancestor_none (n : ℕ) : w.ancestor n none = none := by
  cases n <;> rfl

theorem ancestor_sameItems (h : SameItems w w') (n : ℕ) (c : Option Cylinder) :
    w'.ancestor n c = w.ancestor n c := by
  induction n generalizing c with
  | zero => rfl
  | succ n ih =>
    cases c with
    | none => rfl
    | some c =>
      have hparent : w'.getParent c = w.getParent c := by
        unfold World.getParent
        rw [h.item, h.player]
      unfold World.ancestor
      rw [hparent, ih]

/-- A walk leaves the containers after as many steps as there are items, and then passes at most a
player and his tile. -/
theorem World.Nested.ancestor_end (hw : w.Nested) (c : Cylinder) :
    w.ancestor (w.next + 2) (some c) = none := by
  have htile (n : ℕ) (t : TileId) : w.ancestor (n + 1) (some (.tile t)) = none :=
    ancestor_none n
  have hplayer (n : ℕ) (p : PlayerId) : w.ancestor (n + 2) (some (.player p)) = none := by
    have hstep : w.ancestor (n + 2) (some (.player p)) =
        w.ancestor (n + 1) ((w.player p).tile.map .tile) := rfl
    rw [hstep]
    cases (w.player p).tile with
    | none => exact ancestor_none _
    | some t => exact htile n t
  -- each container around is less deep
  have hdeep (n : ℕ) : ∀ j, w.depth j ≤ n → w.ancestor (n + 3) (some (.container j)) = none := by
    induction n using Nat.strongRecOn with
    | ind n ih =>
      intro j hj
      have hstep : w.ancestor (n + 3) (some (.container j)) =
          w.ancestor (n + 2) (w.item j).parent := rfl
      rw [hstep]
      cases hparent : (w.item j).parent with
      | none => exact ancestor_none _
      | some c =>
        cases c with
        | tile t => exact htile (n + 1) t
        | player p => exact hplayer n p
        | container k =>
          have hlt := hw.depth_lt hparent
          cases n with
          | zero => exact absurd hlt (by omega)
          | succ n => exact ih n (Nat.lt_succ_self n) k (by omega)
  cases c with
  | tile t => exact htile _ t
  | player p => exact hplayer _ p
  | container j =>
    cases hparent : (w.item j).parent with
    | none =>
      have hstep : w.ancestor (w.next + 2) (some (.container j)) =
          w.ancestor (w.next + 1) (w.item j).parent := rfl
      rw [hstep, hparent]
      exact ancestor_none _
    | some c =>
      have hj := hw.lt_next j c hparent
      have hdepth := hw.depth_lt_next hj
      have hpos : w.next ≠ 0 := Nat.ne_of_gt (Nat.lt_of_le_of_lt (Nat.zero_le _) hdepth)
      obtain ⟨n, hn⟩ := Nat.exists_eq_succ_of_ne_zero hpos
      rw [hn] at hdepth ⊢
      exact hdeep n j (Nat.le_of_lt_succ hdepth)

/-- The loop of `Container::__queryAdd` is over when the walk is. -/
theorem isInside_enough {n : ℕ} {c : Option Cylinder} (h : w.ancestor n c = none) {m : ℕ}
    (hm : n ≤ m) (target : ItemId) : w.isInside target m c = w.isInside target n c := by
  -- on the steps that the walk takes
  induction n generalizing c m with
  | zero =>
    have hc : c = none := h
    rw [hc]
    cases m <;> rfl
  | succ n ih =>
    obtain ⟨m, rfl⟩ : ∃ k, m = k + 1 := ⟨m - 1, by omega⟩
    cases c with
    | none => rfl
    | some c =>
      have hrest := ih (c := w.getParent c) h (m := m) (by omega)
      unfold World.isInside
      rw [hrest]

/-- So is the loop of `Thing::getTopParent`. -/
theorem topParentLoop_enough {n : ℕ} {aux : Cylinder} (h : w.ancestor n (some aux) = none) {m : ℕ}
    (hm : n ≤ m) (prev : Option Cylinder) :
    w.topParentLoop m prev aux = w.topParentLoop n prev aux := by
  induction n generalizing aux m prev with
  | zero => cases h
  | succ n ih =>
    obtain ⟨m, rfl⟩ : ∃ k, m = k + 1 := ⟨m - 1, by omega⟩
    have hup : w.ancestor n (w.getParent aux) = none := h
    unfold World.topParentLoop
    cases hparent : w.getParent aux with
    | none => rfl
    | some parent =>
      rw [hparent] at hup
      exact ih hup (by omega) (some aux)

/-- So is the recursion of `Container::updateItemWeight`. -/
theorem updateItemWeight_enough {n : ℕ} {j : ItemId}
    (h : w.ancestor n (some (.container j)) = none) {m : ℕ} (hm : n ≤ m) (diff : ℤ) :
    w.updateItemWeight m j diff = w.updateItemWeight n j diff := by
  induction n generalizing w j m with
  | zero => cases h
  | succ n ih =>
    obtain ⟨m, rfl⟩ : ∃ k, m = k + 1 := ⟨m - 1, by omega⟩
    have hup : w.ancestor n (w.item j).parent = none := h
    unfold World.updateItemWeight
    dsimp only
    cases hparent : w.getParentContainer j with
    | none => rfl
    | some parent =>
      have hcontainer := getParentContainer_eq_some.mp hparent
      rw [hcontainer] at hup
      -- the parent's weight is updated in a world with the same items
      have hsame (totalWeight : ItemId → ℤ) : SameItems w { w with totalWeight := totalWeight } :=
        ⟨rfl, rfl, rfl, rfl⟩
      exact ih ((ancestor_sameItems (hsame _) n _).trans hup) (Nat.le_of_succ_le_succ hm)

/-- No parent walk takes more steps than there are items, and two. -/
structure World.WalksEnd (w : World) : Prop where
  ancestor : ∀ c, w.ancestor (w.next + 2) (some c) = none
  isInside : ∀ c target n, w.next + 2 ≤ n → w.isInside target n c = w.isInside target (w.next + 2) c
  getTopParent : ∀ i n, w.next + 2 ≤ n → w.getTopParent n i = w.getTopParent (w.next + 2) i
  updateItemWeight : ∀ j diff n, w.next + 2 ≤ n →
    w.updateItemWeight n j diff = w.updateItemWeight (w.next + 2) j diff

theorem World.Nested.walksEnd (hw : w.Nested) : w.WalksEnd := by
  refine ⟨hw.ancestor_end, ?_, ?_, ?_⟩
  · intro c target n hn
    cases c with
    | none => exact isInside_enough (ancestor_none _) hn target
    | some c => exact isInside_enough (hw.ancestor_end c) hn target
  · intro i n hn
    unfold World.getTopParent
    dsimp only
    cases (w.item i).parent with
    | none => rfl
    | some parent => exact congrArg some (topParentLoop_enough (hw.ancestor_end parent) hn _)
  · exact fun j diff n hn => updateItemWeight_enough (hw.ancestor_end _) hn diff

/-! ## Runs -/

/-- A call of `Game::internalMoveItem` between two containers. -/
structure ContainerMove where
  fromCylinder : ItemId
  toCylinder : ItemId
  index : ℤ
  item : ItemId
  count : ℕ
  flags : CylinderFlags

/-- Moves between containers that exist, with any flags but `FLAG_CHILDISOWNER`; the loops over
parents are followed as far as `World.WalksEnd` says that they go. -/
def containerMoves (srv : Server) : System World ContainerMove where
  init w := w.Nested
  step w a w' := w.IsContainer a.fromCylinder ∧ w.IsContainer a.toCylinder ∧ a.item < w.next ∧
    a.flags.childIsOwner = false ∧
    ∃ ret, Game.internalMoveItem { srv with loopBound := w.next + 2 } w (.container a.fromCylinder)
      (some (.container a.toCylinder)) a.index a.item a.count a.flags = some (w', ret)

/-- Whatever is moved between containers, they stay a forest: no container lies within itself, an
item is listed once, where its parent says, and every walk from parent to parent ends. -/
theorem containerMoves_forest (h : (containerMoves srv).Reachable w) :
    w.Nested ∧ (∀ j, ¬ w.Within (.container j) j) ∧
      (∀ i j, (w.item i).parent = some (.container j) →
        (w.item j).itemlist.count i = 1 ∧ ∀ k, k ≠ j → i ∉ (w.item k).itemlist) ∧
      w.WalksEnd := by
  have hw : w.Nested := by
    refine h.invariant World.Nested (fun _ hinit => hinit) ?_
    -- one move, from any state in which the containers are nested
    rintro w a w' hw ⟨hfrom, hto, hitem, hflags, ret, hmove⟩
    exact internalMoveItem_nested hw (Nat.lt_add_of_pos_right (by decide)) hfrom hto hitem hflags
      hmove
  refine ⟨hw, hw.acyclic, ?_, hw.walksEnd⟩
  intro i j hparent
  have hmem := (hw.mem_itemlist i j).mpr hparent
  refine ⟨List.count_eq_one_of_mem (hw.nodup j) hmem, fun k hk hlisted => ?_⟩
  have hother := (hw.mem_itemlist i k).mp hlisted
  rw [hparent] at hother
  cases hother
  exact hk rfl

theorem Forest.nested (hw : Forest srv w) (hacyclic : w.Acyclic) : w.Nested := by
  constructor
  · exact fun i j => hw.mem_things (.container j) i
  · exact hw.distinct.itemlist
  · exact hw.lt_next
  · exact hw.container
  · exact hacyclic

/-- Containers with smaller numbers than what lies in them are nested. -/
theorem Forest.nested_of_ordered (hw : Forest srv w)
    (h : ∀ i < w.next, ∀ j < w.next, (w.item i).parent = some (.container j) → j < i) :
    w.Nested := by
  refine hw.nested (.of_rank id fun i j hparent => ?_)
  exact h i (hw.lt_next i _ hparent) j (hw.container i j hparent).2 hparent

namespace SmallWorld

/-- A bag in a bag, and gold in the inner one. -/
def bagInBag : World :=
  World.ofLists [bagHolding [1], { inBag bag with isContainer := true, maxSize := 8, itemlist := [2] },
    { inBag gold with parent := some (.container 1) }] [] [tile]

theorem bagInBag_nested : bagInBag.Nested := by
  have hforest : Forest (server [bag, gold]) bagInBag := forest_ofLists (by decide)
  exact hforest.nested_of_ordered (by decide)

/-- What moving the gold through the "move up" index of the inner bag leads to. -/
def goldMovedUp : Option (World × ReturnValue) :=
  Game.internalMoveItem { server [bag, gold] with loopBound := bagInBag.next + 2 } bagInBag
    (.container 1) (some (.container 1)) 254 2 1 {}

end SmallWorld

open SmallWorld in
theorem containerMoves_forest_bagInBag :
    ∃ w, (containerMoves (server [bag, gold])).Reachable w ∧ (w.item 0).itemlist = [3, 1] ∧
      w.Nested ∧ w.WalksEnd := by
  obtain ⟨⟨w, ret⟩, hmoved⟩ := Option.isSome_iff_exists.mp (show goldMovedUp.isSome by decide)
  have hreach : (containerMoves (server [bag, gold])).Reachable w := by
    refine .step (a := ⟨1, 1, 254, 2, 1, {}⟩) (.init bagInBag_nested) ?_
    exact ⟨⟨by decide, by decide⟩, ⟨by decide, by decide⟩, by decide, rfl, ret, hmoved⟩
  have hlist : goldMovedUp.map (fun r => (r.1.item 0).itemlist) = some [3, 1] := by decide
  rw [hmoved] at hlist
  obtain ⟨hnested, -, -, hends⟩ := containerMoves_forest hreach
  exact ⟨w, hreach, Option.some.inj hlist, hnested, hends⟩

end TyanoCore
