import Mathlib.Algebra.BigOperators.Group.Finset.Basic
import TyanoCore.ForestUpdate

/-!
# Units in the forest

A stack counts as many units as it says, any other item one.  Moving a link leaves the units of
all other items alone, so a sum over all items changes by the one item that is touched.
-/

namespace TyanoCore

variable {srv : Server} {w w' : World}

/-! ## Sums over all items -/

/-- A sum that changes at one place. -/
theorem sum_range_change {f g : ℕ → ℕ} {n i : ℕ} (hi : i < n) (h : ∀ j, j ≠ i → g j = f j) :
    ∑ j ∈ Finset.range n, g j + f i = ∑ j ∈ Finset.range n, f j + g i := by
  have hmem : i ∈ Finset.range n := Finset.mem_range.mpr hi
  have hrest : ∑ j ∈ (Finset.range n).erase i, g j = ∑ j ∈ (Finset.range n).erase i, f j :=
    Finset.sum_congr rfl fun j hj => h j (Finset.ne_of_mem_erase hj)
  have hg := Finset.add_sum_erase (Finset.range n) g hmem
  have hf := Finset.add_sum_erase (Finset.range n) f hmem
  omega

/-- What all items together contribute. -/
def World.tally (w : World) (f : Item → ℕ) : ℕ :=
  ∑ i ∈ Finset.range w.next, f (w.item i)

/-- The contribution of an item depends on where it lies, not on what lies in it. -/
def Item.Local (f : Item → ℕ) : Prop :=
  ∀ a b : Item, a.core = b.core → a.parent = b.parent → f a = f b

variable {f : Item → ℕ}

theorem tally_change {i : ItemId} (hi : i < w.next) (hn : w'.next = w.next)
    (h : ∀ j, j ≠ i → f (w'.item j) = f (w.item j)) :
    w'.tally f + f (w.item i) = w.tally f + f (w'.item i) := by
  unfold World.tally
  rw [hn]
  exact sum_range_change hi h

theorem tally_sameItems (h : SameItems w w') : w'.tally f = w.tally f := by
  unfold World.tally
  rw [h.item, h.next]

theorem tally_moved (hf : Item.Local f) {i : ItemId} {parent : Option Cylinder}
    (h : Moved w w' i parent) (hi : i < w.next) :
    w'.tally f + f (w.item i) = w.tally f + f (w'.item i) :=
  tally_change hi h.next fun j hj => hf _ _ (h.core j) (h.parent_other j hj)

theorem tally_recounted {i : ItemId} {count : ℕ} (h : Recounted w w' i count) (hi : i < w.next) :
    w'.tally f + f (w.item i) = w.tally f + f (w'.item i) :=
  tally_change hi h.next fun j hj => by rw [h.item_other j hj]

/-- A new item that contributes nothing. -/
theorem tally_create {item : Item} (h : f item = 0) : (w.create item).tally f = w.tally f := by
  unfold World.tally World.create
  rw [Finset.sum_range_succ]
  dsimp only
  rw [if_pos rfl, h, add_zero]
  refine Finset.sum_congr rfl fun i hi => ?_
  have hne : i ≠ w.next := Nat.ne_of_lt (Finset.mem_range.mp hi)
  rw [if_neg hne]

/-! ## The units of a kind -/

/-- The units of kind `k` that an item contributes; an item that lies nowhere contributes none. -/
def Item.units (item : Item) (k : KindId) : ℕ :=
  if item.parent = none then 0
  else if item.kind.id = k then (if item.isStackable then item.count else 1)
  else 0

/-- The units of kind `k` in the whole forest. -/
def World.units (w : World) (k : KindId) : ℕ :=
  ∑ i ∈ Finset.range w.next, (w.item i).units k

theorem units_sameItems (h : SameItems w w') (k : KindId) : w'.units k = w.units k :=
  tally_sameItems (f := fun item => item.units k) h

/-- What `m` units of an item come to in the account of kind `k`. -/
def Item.share (item : Item) (m : ℕ) (k : KindId) : ℕ :=
  if item.kind.id = k then (if item.isStackable then m else 1) else 0

theorem slots_empty_removeThing {c : Cylinder} {i : ItemId} {m : ℕ} {p : PlayerId} {s : ℕ}
    (h : (w.player p).inventory s = none) :
    ((Cylinder.removeThing srv w c i m).player p).inventory s = none := by
  cases c with
  | container j =>
    simp only [Cylinder.removeThing, Container.removeThing]
    split_ifs
    · exact h
    · rw [(sameItems_updateItemWeight _ _ _ _).player]
      exact h
    · change ((World.updateItemWeight srv.loopBound w j _).player p).inventory s = none
      rw [(sameItems_updateItemWeight _ _ _ _).player]
      exact h
  | player q =>
    simp only [Cylinder.removeThing, Player.removeThing]
    split_ifs
    · exact h
    · exact h
    · rw [inventory_setInventory]
      split
      · rfl
      · exact h
  | tile t =>
    simp only [Cylinder.removeThing, Tile.removeThing]
    split_ifs <;> exact h

end TyanoCore
