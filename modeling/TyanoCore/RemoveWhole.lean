import TyanoCore.RemoveItems
import TyanoCore.ForestUpdate
import Mathlib.Data.List.ReduceOption
import Mathlib.Tactic.IntervalCases

/-!
# Whole items that are removed

`Game::internalRemoveItem` without a count takes an item out of the cylinder it lies in, whichever
kind of cylinder that is, and changes no other link.
-/

namespace TyanoCore

variable {srv : Server} {w w' : World}

/-! ## Cells -/

/-- What `__getThing` answers, from the first index on. -/
def Cylinder.cells (w : World) : Cylinder → List (Option ItemId)
  | .container j => (w.item j).itemlist.map some
  | .player p => slots.map (w.player p).inventory
  | .tile t =>
    let tile := w.tile t
    (tile.ground.toList ++ tile.topItems).map some ++ tile.creatures.map (fun _ => none) ++
      tile.downItems.map some

theorem reduceOption_map_some (l : List ItemId) : (l.map some).reduceOption = l := by
  rw [List.reduceOption, List.filterMap_map]
  exact List.filterMap_some

theorem Cylinder.reduceOption_cells (c : Cylinder) :
    (c.cells w).reduceOption = w.things c := by
  cases c with
  | container j => exact reduceOption_map_some (w.item j).itemlist
  | player p =>
    simp only [Cylinder.cells, World.things, List.reduceOption, List.filterMap_map]
    rfl
  | tile t =>
    have hnone (l : List Bool) : (l.map fun _ => (none : Option ItemId)).reduceOption = [] := by
      rw [List.map_const', List.reduceOption_replicate_none]
    simp only [Cylinder.cells, World.things, Tile.items]
    rw [List.reduceOption_append, List.reduceOption_append, hnone, reduceOption_map_some,
      reduceOption_map_some, List.append_nil]

theorem Cylinder.length_cells (c : Cylinder) :
    Cylinder.getLastIndex w c = c.getFirstIndex + (c.cells w).length := by
  cases c with
  | container j => simp [Cylinder.getLastIndex, Cylinder.getFirstIndex, Cylinder.cells]
  | player p => simp [Cylinder.getLastIndex, Cylinder.getFirstIndex, Cylinder.cells, slots]
  | tile t =>
    simp only [Cylinder.getLastIndex, Cylinder.getFirstIndex, Cylinder.cells, Tile.thingCount,
      Tile.items, List.length_append, List.length_map]
    omega

/-- The items above the ground, then the creatures, then the other items. -/
theorem Tile.getElem_cells (topItems downItems : List ItemId) (creatures : List Bool) (k : ℕ) :
    ((topItems.map some ++ creatures.map (fun _ => none) ++ downItems.map some)[k]?).join =
      if k < topItems.length then topItems[k]?
      else if k - topItems.length < creatures.length then none
      else downItems[k - topItems.length - creatures.length]? := by
  have hjoin (l : List ItemId) (i : ℕ) : ((l.map some)[i]?).join = l[i]? := by
    rw [List.getElem?_map]
    cases l[i]? <;> rfl
  rw [List.append_assoc, List.getElem?_append, List.length_map]
  split
  · exact hjoin topItems k
  · rw [List.getElem?_append, List.length_map]
    split
    · rw [List.getElem?_map]
      cases creatures[k - topItems.length]? <;> rfl
    · exact hjoin downItems _

/-- `__getThing` looks into the cells. -/
theorem Cylinder.getThing_cells (c : Cylinder) (k : ℕ) :
    Cylinder.getThing w c (c.getFirstIndex + k) = ((c.cells w)[k]?).join := by
  cases c with
  | container j =>
    have hindex : (Cylinder.container j).getFirstIndex + k = k := Nat.zero_add k
    rw [hindex]
    simp only [Cylinder.getThing, Container.getThing, Cylinder.cells, List.getElem?_map]
    rw [if_neg (by omega), Int.toNat_natCast]
    cases (w.item j).itemlist[k]? <;> rfl
  | player p =>
    have hindex : (Cylinder.player p).getFirstIndex + k = 1 + k := rfl
    rw [hindex]
    simp only [Cylinder.getThing, Player.getThing, Cylinder.cells, List.getElem?_map]
    -- the slots are counted from one
    by_cases hk : k < 10
    · have hslot : slots[k]? = some (1 + k) := by
        interval_cases k <;> rfl
      rw [if_pos (by omega), Int.toNat_natCast, hslot]
      rfl
    · have hslot : slots[k]? = none := List.getElem?_eq_none (Nat.le_of_not_lt hk)
      rw [if_neg (by omega), hslot]
      rfl
  | tile t =>
    have hindex : (Cylinder.tile t).getFirstIndex + k = k := Nat.zero_add k
    rw [hindex]
    simp only [Cylinder.getThing, Tile.getThing, Cylinder.cells]
    cases hground : (w.tile t).ground with
    | none => exact (Tile.getElem_cells _ _ _ k).symm
    | some ground =>
      cases k with
      | zero => rfl
      | succ k => exact (Tile.getElem_cells _ _ _ k).symm

/-! ## An item that is gone -/

/-- The item has been taken out of whatever held it, and nothing else has changed. -/
structure Erased (w w' : World) (x : ItemId) : Prop where
  core : ∀ j, (w'.item j).core = (w.item j).core
  parent : ∀ j, (w'.item j).parent = if j = x then none else (w.item j).parent
  next : w'.next = w.next
  itemlist : ∀ j, (w'.item j).itemlist = (w.item j).itemlist.filter (· ≠ x)
  inventory : ∀ p, ∀ s ∈ slots,
    (w'.player p).inventory s = ((w.player p).inventory s).filter (· ≠ x)
  tile : ∀ t, (w.tile t).Lacks (w'.tile t) x

theorem Erased.sameItems {w'' : World} {x : ItemId} (h : Erased w w' x) (hs : SameItems w' w'') :
    Erased w w'' x := by
  obtain ⟨hi, hp, ht, hn⟩ := hs
  constructor
  · rw [hi]
    exact h.core
  · rw [hi]
    exact h.parent
  · exact hn.trans h.next
  · rw [hi]
    exact h.itemlist
  · rw [hp]
    exact h.inventory
  · rw [ht]
    exact h.tile

/-- Where the item does not lie, nothing changes. -/
theorem Tile.lacks_self {t : TileId} {x : ItemId} (h : x ∉ w.things (.tile t)) :
    (w.tile t).Lacks (w.tile t) x := by
  simp only [mem_things_tile, not_or] at h
  obtain ⟨hground, htop, hdown⟩ := h
  refine ⟨?_, (filter_ne_eq_self htop).symm, (filter_ne_eq_self hdown).symm, rfl⟩
  exact (option_filter_ne_eq_self hground).symm

section

variable (hw : w.Consistent) {c : Cylinder} {x : ItemId} (hx : x ∈ w.things c)

include hw hx

theorem notMem_things_of_ne {c' : Cylinder} (h : c' ≠ c) : x ∉ w.things c' := by
  intro hx'
  have hparent := (hw.mem_things c' x).mp hx'
  rw [(hw.mem_things c x).mp hx] at hparent
  exact h (Option.some.inj hparent).symm

/-- The lists, the slots and the tiles that are not the place of the item. -/
theorem itemlist_lacks_self {j : ItemId} (h : Cylinder.container j ≠ c) :
    (w.item j).itemlist = (w.item j).itemlist.filter (· ≠ x) :=
  (filter_ne_eq_self (notMem_things_of_ne hw hx h)).symm

theorem inventory_lacks_self {p : PlayerId} {s : ℕ} (hs : s ∈ slots)
    (h : Cylinder.player p ≠ c) :
    (w.player p).inventory s = ((w.player p).inventory s).filter (· ≠ x) := by
  refine (option_filter_ne_eq_self fun heq => ?_).symm
  exact notMem_things_of_ne hw hx h (mem_things_player.mpr ⟨s, hs, heq⟩)

end

theorem parent_of_moved {x : ItemId} (hm : Moved w w' x none) (j : ItemId) :
    (w'.item j).parent = if j = x then none else (w.item j).parent := by
  split
  · next hj => rw [hj, hm.parent_self]
  · next hj => exact hm.parent_other j hj

/-- The item is taken out of a container. -/
theorem erased_setItemList (hw : w.Consistent) {j x : ItemId}
    (hx : x ∈ w.things (.container j)) :
    Erased w ((w.setParent x none).setItemList j ((w.item j).itemlist.erase x)) x := by
  have hm := moved_setItemList (w := w) x none j ((w.item j).itemlist.erase x)
  refine ⟨hm.core, parent_of_moved hm, hm.next, ?_, ?_, ?_⟩
  · intro k
    rw [World.itemlist_setItemList]
    split
    · next hk => rw [hk, erase_eq_filter_ne (hw.distinct.itemlist j)]
    · next hk => exact itemlist_lacks_self hw hx (by simpa using hk)
  · exact fun p s hs => inventory_lacks_self hw hx hs (by simp)
  · exact fun t => Tile.lacks_self (notMem_things_of_ne hw hx (by simp))

/-- The item is taken from a slot. -/
theorem erased_setInventory (hw : w.Consistent) {p : PlayerId} {s : ℕ} {x : ItemId}
    (hs : s ∈ slots) (hslot : (w.player p).inventory s = some x) :
    Erased w ((w.setParent x none).setInventory p s none) x := by
  have hx : x ∈ w.things (.player p) := mem_things_player.mpr ⟨s, hs, hslot⟩
  have hm := moved_setInventory (w := w) x none p s none
  refine ⟨hm.core, parent_of_moved hm, hm.next, ?_, ?_, ?_⟩
  · intro k
    refine (itemlist_setParent x none k).trans ?_
    exact itemlist_lacks_self hw hx (by simp)
  · intro q s' hs'
    rw [inventory_setInventory]
    split
    · next h => rw [h.1, h.2, hslot]; simp [Option.filter]
    · next h =>
      by_cases hq : q = p
      · refine (option_filter_ne_eq_self fun heq => h ⟨hq, ?_⟩).symm
        rw [hq] at heq
        exact hw.distinct.slot p s' s x hs' hs heq hslot
      · exact inventory_lacks_self hw hx hs' (by simpa using hq)
  · exact fun t => Tile.lacks_self (notMem_things_of_ne hw hx (by simp))

/-- The item is taken off a tile. -/
theorem erased_setTile (hw : w.Consistent) {t : TileId} {tile : Tile} {x : ItemId}
    (hx : x ∈ w.things (.tile t)) (htile : (w.tile t).Lacks tile x) :
    Erased w ((w.setParent x none).setTile t tile) x := by
  have hm := moved_setTile (w := w) x none t tile
  refine ⟨hm.core, parent_of_moved hm, hm.next, ?_, ?_, ?_⟩
  · intro k
    refine (itemlist_setParent x none k).trans ?_
    exact itemlist_lacks_self hw hx (by simp)
  · exact fun p s hs => inventory_lacks_self hw hx hs (by simp)
  · intro u
    change (w.tile u).Lacks (if u = t then tile else w.tile u) x
    split
    · next hu => exact hu ▸ htile
    · next hu => exact Tile.lacks_self (notMem_things_of_ne hw hx (by simpa using hu))

/-- Removing a whole item that may be removed. -/
theorem internalRemoveItem_erased (hsrv : srv.Quiet) (hw : w.Consistent) {c : Cylinder}
    {x : ItemId} (hx : x ∈ w.things c) (hcount : (w.item x).count ≠ 0)
    (hremove : (w.item x).canRemove = true) :
    Erased w (Game.internalRemoveItem srv w x none false {}).1 x := by
  obtain ⟨index, isCompleteRemoval, heq⟩ := internalRemoveItem_eq srv
    ((hw.mem_things c x).mp hx) hx none hcount (fun _ => le_rfl) hremove
  rw [heq]
  refine .sameItems ?_ (sameItems_postRemoveNotification hsrv _ _ _ _ _)
  dsimp only [Option.getD_none]
  cases c with
  | container j =>
    have hindex : Container.getIndexOfThing w j x ≠ -1 :=
      getIndexOfThing_ne (c := .container j).mpr hx
    simp only [Cylinder.removeThing, Container.removeThing]
    rw [if_neg hindex, if_neg fun h => h.2 rfl]
    obtain ⟨hitem, hplayer, htile, hnext⟩ :=
      sameItems_updateItemWeight srv.loopBound w j (-w.getWeight x)
    refine (erased_setItemList hw hx).sameItems ⟨?_, hplayer, htile, hnext⟩
    simp only [World.setItemList, World.setParent, World.setItem, hitem]
  | player p =>
    obtain ⟨s, hs, hslot⟩ := mem_things_player.mp hx
    simp only [Cylinder.removeThing]
    rw [Player.removeThing_whole hw hs hslot fun _ => rfl]
    exact erased_setInventory hw hs hslot
  | tile t =>
    obtain ⟨tile, htile, hlacks⟩ := Tile.removeThing_lacks hw hx fun _ => rfl
    simp only [Cylinder.removeThing]
    rw [htile]
    exact erased_setTile hw hx hlacks

namespace Erased

variable {x : ItemId}

theorem kind (h : Erased w w' x) (j : ItemId) : (w'.item j).kind = (w.item j).kind :=
  Item.core_kind (h.core j)

theorem things (h : Erased w w' x) (c : Cylinder) :
    w'.things c = (w.things c).filter (· ≠ x) := by
  cases c with
  | container j => exact h.itemlist j
  | player p =>
    simp only [World.things]
    rw [List.filter_filterMap]
    exact List.filterMap_congr fun s hs => h.inventory p s hs
  | tile t => exact (h.tile t).items

/-- The links agree after the removal. -/
theorem consistent (h : Erased w w' x) (hw : w.Consistent) : w'.Consistent := by
  refine ⟨?_, ⟨?_, ?_, ?_⟩, ⟨?_, ?_⟩⟩
  · intro c i
    rw [h.things, h.parent, List.mem_filter, decide_eq_true_iff, hw.mem_things]
    by_cases hi : i = x <;> simp [hi]
  · intro j
    rw [h.itemlist]
    exact (hw.distinct.itemlist j).filter _
  · intro p s s' i hs hs' hi hi'
    rw [h.inventory p s hs, Option.filter_eq_some_iff] at hi
    rw [h.inventory p s' hs', Option.filter_eq_some_iff] at hi'
    exact hw.distinct.slot p s s' i hs hs' hi.1 hi'.1
  · intro t
    rw [(h.tile t).items]
    exact (hw.distinct.tile t).filter _
  · intro t i hi
    rw [(h.tile t).topItems] at hi
    rw [h.kind]
    exact hw.sorted.top t i (List.mem_of_mem_filter hi)
  · intro t i hi
    rw [(h.tile t).downItems] at hi
    rw [h.kind]
    exact hw.sorted.down t i (List.mem_of_mem_filter hi)

theorem filter_split {before after : List (Option ItemId)} (hbefore : some x ∉ before)
    (hafter : some x ∉ after) :
    (before ++ some x :: after).filter (· ≠ some x) = before ++ [] ++ after := by
  have hself {l : List (Option ItemId)} (hl : some x ∉ l) : l.filter (· ≠ some x) = l := by
    rw [List.filter_eq_self]
    exact fun o ho => decide_eq_true fun heq => hl (heq ▸ ho)
  rw [List.filter_append, List.filter_cons_of_neg (by simp), hself hbefore, hself hafter,
    List.append_nil]

theorem map_split {before after : List (Option ItemId)} (hbefore : some x ∉ before)
    (hafter : some x ∉ after) :
    (before ++ some x :: after).map (fun o => o.filter (· ≠ x)) = before ++ [none] ++ after := by
  have hself {l : List (Option ItemId)} (hl : some x ∉ l) :
      l.map (fun o => o.filter (· ≠ x)) = l :=
    (List.map_congr_left fun o ho => option_filter_ne_eq_self fun heq => hl (heq ▸ ho)).trans
      l.map_id
  rw [List.map_append, List.map_cons, hself hbefore, hself hafter]
  simp [Option.filter]

/-- The cell of the item is gone or, in a slot, empty. -/
theorem cells (h : Erased w w' x) (hw : w.Consistent) {c : Cylinder}
    {before after : List (Option ItemId)} (hcells : c.cells w = before ++ some x :: after) :
    ∃ gap, (gap = [] ∨ gap = [none]) ∧ c.cells w' = before ++ gap ++ after := by
  -- the item has one cell
  have hnodup := hw.things_nodup c
  rw [← c.reduceOption_cells, hcells, List.reduceOption_append, List.reduceOption_cons_of_some,
    List.nodup_append, List.nodup_cons] at hnodup
  obtain ⟨-, ⟨hafter, -⟩, hbefore⟩ := hnodup
  have hnotBefore : some x ∉ before := fun hx =>
    hbefore x (List.reduceOption_mem_iff.mpr hx) x List.mem_cons_self rfl
  have hnotAfter : some x ∉ after := fun hx => hafter (List.reduceOption_mem_iff.mpr hx)
  have hlist (l : List ItemId) :
      (l.filter (· ≠ x)).map some = (l.map some).filter (· ≠ some x) := by
    rw [List.filter_map]
    congr 1
    exact List.filter_congr fun i _ => by simp
  cases c with
  | container j =>
    refine ⟨[], .inl rfl, ?_⟩
    have heq : (Cylinder.container j).cells w' =
        ((Cylinder.container j).cells w).filter (· ≠ some x) := by
      rw [Cylinder.cells, h.itemlist, hlist]
      rfl
    rw [heq, hcells]
    exact filter_split hnotBefore hnotAfter
  | player p =>
    refine ⟨[none], .inr rfl, ?_⟩
    have heq : (Cylinder.player p).cells w' =
        ((Cylinder.player p).cells w).map fun o => o.filter (· ≠ x) := by
      rw [Cylinder.cells, Cylinder.cells, List.map_map]
      exact List.map_congr_left fun s hs => h.inventory p s hs
    rw [heq, hcells]
    exact map_split hnotBefore hnotAfter
  | tile t =>
    refine ⟨[], .inl rfl, ?_⟩
    have heq : (Cylinder.tile t).cells w' =
        ((Cylinder.tile t).cells w).filter (· ≠ some x) := by
      obtain ⟨hground, htop, hdown, hcreatures⟩ := h.tile t
      have hnone (l : List Bool) : (l.map fun _ => (none : Option ItemId)).filter (· ≠ some x) =
          l.map fun _ => none := by
        rw [List.filter_eq_self]
        simp
      simp only [Cylinder.cells]
      rw [List.filter_append, List.filter_append, hnone, ← hlist, ← hlist, List.filter_append,
        hground, htop, hdown, hcreatures, toList_filter_ne]
    rw [heq, hcells]
    exact filter_split hnotBefore hnotAfter

end Erased

end TyanoCore
