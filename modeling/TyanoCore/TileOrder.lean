import TyanoCore.MoveItem
import TyanoCore.TileLookup
import TyanoCore.TileRun

/-!
# The order of the items on top

Both ways of adding an item look for its place among the items on top, by the order of its kind.
`Game::transformItem` gives an item another kind, or puts another item, at the place that it has.
-/

namespace TyanoCore

open Transition

/-! ## Transforming -/

def TileKind.hasSubType (k : TileKind) : Bool :=
  k.isFluidContainer || k.isSplash || k.stackable || k.charges ≠ 0

/-- The class of which `Item::CreateItem` makes the items of a kind; doors are items here. -/
def TileKind.createdClass (k : TileKind) : ItemClass :=
  if k.type = .depot then .depot
  else if k.group = .container then .container
  else if k.type = .teleporter then .teleporter
  else if k.type = .magicField then .magicField
  else if k.type = .door then .item
  else if k.type = .trashHolder then .trashHolder
  else if k.type = .mailbox then .mailbox
  else if k.type = .bed then .bed
  else .item

/-- `Item::CreateItem`. -/
def TileItem.createItem (kinds : KindId → Option TileKind) (kindId : KindId) (amount : ℕ) :
    Option TileItem :=
  if kindId = 0 then none
  else match kinds (createdKindId kindId) with
  | none => none
  | some kind =>
    if kind.group = .deprecated then none
    else
      let amount := if kind.isOrdinary then amount % 2 ^ 16 else 0
      let count := (Item.new kind.toItemKind amount).count
      some { kind := kind, itemClass := kind.createdClass, count := count }

/-- A call of `Game::transformItem` for an item of the tile, and what it meets elsewhere. -/
structure Transformation where
  item : ItemId
  newId : KindId
  newCount : ℤ := -1
  /-- The number that a new item gets. -/
  newItem : ItemId
  /-- The charges or the fluid of the item. -/
  special : ℕ := 0
  /-- The item has a default duration and some of it is left. -/
  isTimed : Bool := false
  canTransform : Bool := true
  /-- `Game::internalRemoveItem` takes the item. -/
  removes : Bool := true

/-- What `Game::transformItem` does to the tile. -/
inductive TransformOperation where
  | keep
  | remove
  | update (resetsCount : Bool) (kindId : KindId) (count : ℕ)
  | replace (newItem : TileItem)

namespace Transformation

variable (kinds : KindId → Option TileKind) (decayTo : KindId → ℤ) (s : TileState)
  (t : Transformation)

/-- `Item::getSubType`. -/
def subType : ℕ :=
  let item := s.item t.item
  if item.kind.isFluidContainer || item.kind.isSplash || item.kind.charges ≠ 0 then t.special
  else item.count

/-- The body of `Game::transformItem`, with the call it makes of itself as an argument; `none` where
the new kind is not as much on top, and the item is removed and a new one is added. -/
def operationBody (recurse : KindId → Option TransformOperation) (newId : KindId)
    (newCount : ℤ) : Option TransformOperation :=
  let item := s.item t.item
  let oldKind := item.kind
  if oldKind.id = newId ∧ (newCount = -1 ∨ newCount = t.subType s ∧ newCount ≠ 0) then some .keep
  else if s.getIndexOfThing (.item t.item) = -1 then some .keep
  else if !t.canTransform then some .keep
  else match kinds newId with
  | none => some .keep
  | some newKind =>
    if oldKind.alwaysOnTop ≠ newKind.alwaysOnTop then none
    -- "Both items has the same type so we can safely change id/subtype"
    else if oldKind.type = newKind.type then
      if newCount = 0 ∧ (item.isStackable ∨ oldKind.charges ≠ 0) then
        let tmpId : ℤ := if oldKind.id = newKind.id then decayTo oldKind.id else newId
        if ¬ item.isStackable ∧ ¬ t.isTimed ∧ tmpId ≠ -1 then recurse (tmpId % 2 ^ 16).toNat
        else some (if t.removes then .remove else .keep)
      else
        let itemId := if oldKind.id ≠ newKind.id then newId else oldKind.id
        let resetsCount := oldKind.id ≠ newKind.id ∧ oldKind.group ≠ newKind.group
        let count := if newCount ≠ -1 ∧ newKind.hasSubType then newCount else t.subType s
        some (.update resetsCount itemId (count % 2 ^ 16).toNat)
    -- "Replacing the the old item with the new while maintaining the old position"
    else
      let amount := if newCount = -1 then 1 else (newCount % 2 ^ 16).toNat
      match TileItem.createItem kinds newId amount with
      | none => some .keep
      | some newItem => some (.replace newItem)

/-- The call that `Game::transformItem` makes of itself gives no count and so makes no further
one. -/
def operation : Option TransformOperation :=
  t.operationBody kinds decayTo s
    (fun tmpId => t.operationBody kinds decayTo s (fun _ => none) tmpId (-1)) t.newId t.newCount

def perform : TransformOperation → TileState
  | .keep => s
  | .remove => s.removeThing t.item (s.item t.item).count
  | .update resetsCount kindId count =>
    let s := if resetsCount then s.setItem t.item { s.item t.item with count := 1 } else s
    s.updateThing kinds t.item kindId count
  | .replace newItem =>
    let itemIndex := s.getIndexOfThing (.item t.item)
    ((s.setItem t.newItem newItem).replaceThing itemIndex.toNat t.newItem).setParent t.item
      .nowhere

end Transformation

/-! ## Runs -/

/-- What happens to a tile: an operation of its own, or a transformation. -/
inductive StackAction where
  | tile (a : TileAction)
  | transform (t : Transformation)

namespace StackAction

/-- Items are updated and replaced in transformations only.  A transformation is about an item of
the tile, a new item is new, and the new kind is as much on top as the old one. -/
def Asserts (kinds : KindId → Option TileKind) (decayTo : KindId → ℤ) (s : TileState) :
    StackAction → Prop
  | tile (.updateThing ..) => False
  | tile (.replaceThing ..) => False
  | tile a => a.Asserts s
  | transform t => (s.item t.item).parent = .here ∧ t.newItem ∉ s.things ∧
      ∀ operation, t.operation kinds decayTo s = some operation →
      match operation with
      | .update _ kindId _ => ∀ kind, kinds kindId = some kind →
          kind.alwaysOnTop = (s.item t.item).isAlwaysOnTop
      | .replace newItem => newItem.isAlwaysOnTop = (s.item t.item).isAlwaysOnTop
      | _ => True

def run (kinds : KindId → Option TileKind) (decayTo : KindId → ℤ) (s : TileState) :
    StackAction → Option TileState
  | tile a => a.run kinds s
  | transform t => (t.operation kinds decayTo s).map (t.perform kinds s)

end StackAction

/-- A tile, from the first item on. -/
def stackSystem (kinds : KindId → Option TileKind) (decayTo : KindId → ℤ) :
    System TileState StackAction where
  init := (tileSystem kinds).init
  step s a s' := a.Asserts kinds decayTo s ∧ a.run kinds decayTo s = some s'

/-! ## The order -/

namespace TileState

def topOrder (s : TileState) (i : ItemId) : ℤ := (s.item i).kind.alwaysOnTopOrder

/-- The orders of the items on top do not decrease. -/
def TopOrdered (s : TileState) : Prop :=
  s.topItems.Pairwise fun i j => s.topOrder i ≤ s.topOrder j

/-- At a place among the items on top an order is between those around, other than that of the item
itself. -/
def Fits (s : TileState) (k : ℕ) (i : ItemId) (order : ℤ) : Prop :=
  (∀ x ∈ s.topItems.take k, x ≠ i → s.topOrder x ≤ order) ∧
    ∀ x ∈ s.topItems.drop (k + 1), x ≠ i → order ≤ s.topOrder x

end TileState

/-- Where a transformation changes the kind at a place among the items on top, the order of the new
kind is between those around. -/
def StackAction.FitsOrder (kinds : KindId → Option TileKind) (decayTo : KindId → ℤ)
    (s : TileState) : StackAction → Prop
  | tile _ => True
  | transform t => ∀ operation, t.operation kinds decayTo s = some operation →
    match operation with
    | .update _ kindId _ => ∀ kind, kinds kindId = some kind →
        ∀ k, s.topItems[k]? = some t.item → s.Fits k t.item kind.alwaysOnTopOrder
    | .replace newItem => ∀ k, k < s.topItems.length →
        (s.getIndexOfThing (.item t.item)).toNat = (if s.ground.isSome then 1 else 0) + k →
        s.Fits k t.newItem newItem.kind.alwaysOnTopOrder
    | _ => True

variable {kinds : KindId → Option TileKind} {decayTo : KindId → ℤ}

namespace TileState

variable {s s' : TileState}

/-- The section of the items on top holds such items only, and they are in order. -/
structure TopSorted (s : TileState) : Prop where
  split : s.Split
  top : ∀ i ∈ s.topItems, (s.item i).isAlwaysOnTop = true
  ordered : s.TopOrdered

/-! ## Changes of the state -/

/-- Fewer items on top, of the same kinds. -/
theorem TopSorted.of_sublist (h : s.TopSorted) (hsplit : s'.Split)
    (hsub : s'.topItems.Sublist s.topItems)
    (hkind : ∀ x ∈ s'.topItems, (s'.item x).kind = (s.item x).kind) : s'.TopSorted := by
  constructor
  · exact hsplit
  · intro x hx
    have htop := h.top x (hsub.subset hx)
    unfold TileItem.isAlwaysOnTop at htop ⊢
    rw [hkind x hx]
    exact htop
  · have hpairwise := h.ordered.sublist hsub
    apply hpairwise.imp_of_mem
    intro x y hx hy hle
    unfold topOrder
    rw [hkind x hx, hkind y hy]
    exact hle

/-- The same vector, of items whose kinds are the same. -/
theorem TopSorted.congr (h : s.TopSorted) (hitems : s'.items = s.items)
    (hcount : s'.downItemCount = s.downItemCount)
    (hkind : ∀ x ∈ s.topItems, (s'.item x).kind = (s.item x).kind) : s'.TopSorted := by
  have htop : s'.topItems = s.topItems := by
    unfold topItems
    rw [hitems, hcount]
  have hsplit : s'.Split := by
    unfold Split
    rw [hitems, hcount]
    exact h.split
  apply h.of_sublist hsplit
  · rw [htop]
  · rw [htop]
    exact hkind

@[simp] theorem updateTileFlags_item (i : ItemId) (removed : Bool) :
    (s.updateTileFlags i removed).item = s.item := rfl

@[simp] theorem insertTop_item (k : ℕ) (i : ItemId) : (s.insertTop k i).item = s.item := rfl
@[simp] theorem insertDown_item (i : ItemId) : (s.insertDown i).item = s.item := rfl
@[simp] theorem eraseTop_item (i : ItemId) : (s.eraseTop i).item = s.item := rfl
@[simp] theorem eraseDown_item (i : ItemId) : (s.eraseDown i).item = s.item := rfl

theorem setItem_kind {i : ItemId} {item : TileItem} (hkind : item.kind = (s.item i).kind)
    (x : ItemId) : ((s.setItem i item).item x).kind = (s.item x).kind := by
  by_cases hx : x = i
  · rw [hx, setItem_self, hkind]
  · rw [setItem_other hx]

theorem setParent_kind (i : ItemId) (parent : ItemParent) (x : ItemId) :
    ((s.setParent i parent).item x).kind = (s.item x).kind := by
  apply setItem_kind
  rfl

theorem TopSorted.setParent (h : s.TopSorted) (i : ItemId) (parent : ItemParent) :
    (s.setParent i parent).TopSorted := by
  exact h.congr rfl rfl fun x _ => setParent_kind i parent x

/-- An item that is not on top changes. -/
theorem TopSorted.setItem (h : s.TopSorted) {i : ItemId} (hi : i ∉ s.topItems)
    (item : TileItem) : (s.setItem i item).TopSorted := by
  refine h.congr rfl rfl ?_
  intro x hx
  have hxi : x ≠ i := fun heq => hi (heq ▸ hx)
  rw [setItem_other hxi]

theorem TopSorted.insertDown (h : s.TopSorted) (i : ItemId) : (s.insertDown i).TopSorted := by
  have htop : (s.insertDown i).topItems = s.topItems := rfl
  apply h.of_sublist
  · exact Nat.succ_le_succ h.split
  · rw [htop]
  · exact fun _ _ => rfl

theorem TopSorted.eraseTop (h : s.TopSorted) (i : ItemId) : (s.eraseTop i).TopSorted := by
  obtain ⟨hsplit, -, htop⟩ := eraseTop_split h.split i
  apply h.of_sublist hsplit
  · rw [htop]
    exact List.erase_sublist
  · exact fun _ _ => rfl

theorem TopSorted.eraseDown (h : s.TopSorted) {i : ItemId} (hi : i ∈ s.downItems) :
    (s.eraseDown i).TopSorted := by
  obtain ⟨hsplit, -, htop⟩ := eraseDown_split h.split hi
  apply h.of_sublist hsplit
  · rw [htop]
  · exact fun _ _ => rfl

theorem insertIdx_eq_append {l : List ItemId} {k : ℕ} (hk : k ≤ l.length) (i : ItemId) :
    l.insertIdx k i = l.take k ++ i :: l.drop k := by
  induction l generalizing k with
  | nil =>
    obtain rfl := Nat.le_zero.mp hk
    rfl
  | cons x l ih =>
    cases k with
    | zero => rfl
    | succ k => exact congrArg (x :: ·) (ih (Nat.le_of_succ_le_succ hk))

/-- An item comes in at a place where its order fits. -/
theorem TopSorted.insertTop (h : s.TopSorted) {i : ItemId} {k : ℕ}
    (htop : (s.item i).isAlwaysOnTop = true) (hk : k ≤ s.topItems.length)
    (hbefore : ∀ x ∈ s.topItems.take k, s.topOrder x ≤ s.topOrder i)
    (hafter : ∀ x ∈ s.topItems.drop k, s.topOrder i ≤ s.topOrder x) :
    (s.insertTop k i).TopSorted := by
  obtain ⟨hsplit, -, htops⟩ := insertTop_split h.split k i
  have hlist : (s.insertTop k i).topItems = s.topItems.take k ++ i :: s.topItems.drop k := by
    rw [htops, insertIdx_eq_append hk]
  have hordered := h.ordered
  unfold TopOrdered at hordered
  rw [← List.take_append_drop k s.topItems] at hordered
  obtain ⟨htake, hdrop, hacross⟩ := List.pairwise_append.mp hordered
  constructor
  · exact hsplit
  · intro x hx
    rw [htops] at hx
    rcases mem_insertIdx hx with rfl | hx
    · exact htop
    · exact h.top x hx
  · unfold TopOrdered
    rw [hlist]
    refine List.pairwise_append.mpr ⟨htake, List.pairwise_cons.mpr ⟨hafter, hdrop⟩, ?_⟩
    intro x hx y hy
    rcases List.mem_cons.mp hy with rfl | hy
    · exact hbefore x hx
    · exact hacross x hx y hy

/-- What stands before the place that is found does not have the property. -/
theorem not_of_mem_take_findIdx {l : List ItemId} {p : ItemId → Bool} {x : ItemId}
    (h : x ∈ l.take (l.findIdx p)) : p x = false := by
  obtain ⟨k, hk, rfl⟩ := List.mem_iff_getElem.mp h
  rw [List.length_take] at hk
  have hlt : k < l.findIdx p := Nat.lt_of_lt_of_le hk (Nat.min_le_left _ _)
  rw [List.getElem_take]
  exact List.not_of_lt_findIdx hlt

/-- In a list in order all from the place on, that is found by a lower bound, are above it. -/
theorem le_of_mem_drop_findIdx (h : s.TopOrdered) {order : ℤ} {p : ItemId → Bool}
    (hp : ∀ x, p x = true → order ≤ s.topOrder x) {x : ItemId}
    (hx : x ∈ s.topItems.drop (s.topItems.findIdx p)) : order ≤ s.topOrder x := by
  unfold TopOrdered at h
  obtain ⟨k, hk, rfl⟩ := List.mem_iff_getElem.mp hx
  rw [List.length_drop] at hk
  have hlt : s.topItems.findIdx p < s.topItems.length := by omega
  have hfirst := hp _ (List.findIdx_getElem (w := hlt))
  rw [List.getElem_drop]
  rcases Nat.eq_zero_or_pos k with rfl | hpos
  · exact hfirst
  · have hle := List.pairwise_iff_getElem.mp h (s.topItems.findIdx p)
      (s.topItems.findIdx p + k) hlt (by omega) (by omega)
    exact Int.le_trans hfirst hle

/-! ## The operations -/

/-- The comparison of `Tile::__internalAddThing`: behind the items of the same order. -/
theorem TopSorted.insert_behind (h : s.TopSorted) {i : ItemId}
    (htop : (s.item i).isAlwaysOnTop = true) :
    (s.insertTop (s.topItems.findIdx fun top => decide (s.topOrder i < s.topOrder top))
      i).TopSorted := by
  apply h.insertTop htop List.findIdx_le_length
  · intro x hx
    exact Int.not_lt.mp (of_decide_eq_false (not_of_mem_take_findIdx hx))
  · intro x hx
    exact le_of_mem_drop_findIdx h.ordered (fun y hy => Int.le_of_lt (of_decide_eq_true hy)) hx

/-- The comparison of `Tile::__addThing`: before them. -/
theorem TopSorted.insert_before (h : s.TopSorted) {i : ItemId}
    (htop : (s.item i).isAlwaysOnTop = true) :
    (s.insertTop (s.topItems.findIdx fun top => decide (s.topOrder i ≤ s.topOrder top))
      i).TopSorted := by
  apply h.insertTop htop List.findIdx_le_length
  · intro x hx
    exact Int.le_of_lt (Int.not_le.mp (of_decide_eq_false (not_of_mem_take_findIdx hx)))
  · intro x hx
    exact le_of_mem_drop_findIdx h.ordered (fun y hy => of_decide_eq_true hy) hx

theorem TopSorted.internalAddThing (h : s.TopSorted) (i : ItemId) :
    (s.internalAddThing i).TopSorted := by
  unfold TileState.internalAddThing
  dsimp only
  split
  · exact h
  split
  · exact h
  split
  · split
    · exact h
    · -- a ground
      have hground := h.setParent i .here
      exact hground.congr rfl rfl fun _ _ => rfl
  · by_cases htop : (s.item i).isAlwaysOnTop = true
    · rw [if_pos htop]
      exact (h.insert_behind htop).setParent i .here |>.congr rfl rfl fun _ _ => rfl
    · rw [if_neg htop]
      exact (h.insertDown i).setParent i .here |>.congr rfl rfl fun _ _ => rfl

theorem TopSorted.removeThing (h : s.TopSorted) (i : ItemId) (count : ℕ) :
    (s.removeThing i count).TopSorted := by
  unfold TileState.removeThing
  dsimp only
  split
  · exact (h.setParent i .nowhere).congr rfl rfl fun _ _ => rfl
  split
  · split
    · exact ((h.setParent i .nowhere).eraseTop i).congr rfl rfl fun _ _ => rfl
    · exact h
  split
  · next hdown =>
    split
    · -- a stack of another count is of the same kind
      refine h.congr rfl rfl fun x _ => ?_
      rw [updateTileFlags_item]
      apply setItem_kind
      rfl
    · have herase := (h.setParent i .nowhere).eraseDown (i := i) hdown
      exact herase.congr rfl rfl fun _ _ => rfl
  · exact h

theorem TopSorted.removeOldItem (h : s.TopSorted) (old : Option ItemId) :
    (s.removeOldItem old).TopSorted := by
  cases old with
  | none => exact h
  | some old => exact (h.removeThing old 1).setParent old .nowhere

/-- Removing an item does not change the kind of any. -/
theorem removeThing_kind (i : ItemId) (count : ℕ) (x : ItemId) :
    ((s.removeThing i count).item x).kind = (s.item x).kind := by
  unfold TileState.removeThing
  dsimp only
  split_ifs
  · rw [updateTileFlags_item]
    exact setParent_kind i .nowhere x
  · rw [updateTileFlags_item, eraseTop_item, setParent_kind]
  · rfl
  · rw [updateTileFlags_item]
    apply setItem_kind
    rfl
  · rw [updateTileFlags_item, eraseDown_item, setParent_kind]
  · rfl

theorem removeOldItem_kind (old : Option ItemId) (x : ItemId) :
    ((s.removeOldItem old).item x).kind = (s.item x).kind := by
  cases old with
  | none => rfl
  | some old =>
    calc (((s.removeThing old 1).setParent old .nowhere).item x).kind
        = ((s.removeThing old 1).item x).kind := setParent_kind old .nowhere x
      _ = (s.item x).kind := removeThing_kind old 1 x

/-- Forwarding changes flags only. -/
theorem TopSorted.resolveForwarding (h : s.TopSorted) (destination : Option (TileFlag → Bool)) :
    (s.resolveForwarding destination).TopSorted := by
  rcases resolveForwarding_eq (s := s) destination with heq | heq | ⟨change, -, heq⟩
  · rw [heq]
    exact h
  · rw [heq]
    exact h.congr rfl rfl fun _ _ => rfl
  · rw [heq]
    exact h.congr rfl rfl fun _ _ => rfl

theorem TopSorted.addThing (h : s.TopSorted) {i : ItemId}
    {destination : Option (TileFlag → Bool)} (hrun : s.addThing kinds i destination = some s') :
    s'.TopSorted := by
  unfold TileState.addThing at hrun
  by_cases hforwarder : s.isForwarder = true
  · rw [if_pos hforwarder] at hrun
    cases hrun
    exact h.resolveForwarding destination
  rw [if_neg hforwarder] at hrun
  split at hrun
  · cases hrun
    exact h
  split at hrun
  · cases hrun
    exact h
  dsimp only at hrun
  -- the item is the tile's before anything else happens
  have hput := h.setParent i .here
  split at hrun
  · -- a ground, in the place of another one or not
    split at hrun
    · next oldGround _ =>
      cases hrun
      exact (hput.setParent oldGround .nowhere).congr rfl rfl fun _ _ => rfl
    · cases hrun
      exact hput.congr rfl rfl fun _ _ => rfl
  have hcleared := hput.removeOldItem (s.oldItem i)
  have hkind : (((s.setParent i .here).removeOldItem (s.oldItem i)).item i).kind =
      (s.item i).kind := by
    rw [removeOldItem_kind, setParent_kind]
  split at hrun
  · next htop =>
    cases hrun
    have htop' :
        (((s.setParent i .here).removeOldItem (s.oldItem i)).item i).isAlwaysOnTop = true := by
      unfold TileItem.isAlwaysOnTop at htop ⊢
      rw [hkind]
      exact htop
    have hinsert := hcleared.insert_before htop'
    unfold topOrder at hinsert
    rw [hkind] at hinsert
    exact hinsert.congr rfl rfl fun _ _ => rfl
  next hdown =>
  split at hrun
  · cases hrun
    exact hput.setParent i .nowhere
  split at hrun
  · -- the item becomes a waterball; it is not among those on top
    have hnot : i ∉ ((s.setParent i .here).removeOldItem (s.oldItem i)).topItems := by
      intro hmem
      have htop := hcleared.top i hmem
      unfold TileItem.isAlwaysOnTop at htop hdown
      rw [hkind] at htop
      exact hdown htop
    split at hrun
    · cases hrun
    · cases hrun
      exact ((hcleared.setItem hnot _).insertDown i).congr rfl rfl fun _ _ => rfl
  · cases hrun
    exact (hcleared.insertDown i).congr rfl rfl fun _ _ => rfl

/-- What an item is does not matter for whether an order fits in its place. -/
theorem Fits.setItem {k : ℕ} {i : ItemId} {order : ℤ} (h : s.Fits k i order) (item : TileItem) :
    (s.setItem i item).Fits k i order := by
  constructor
  · intro x hx hne
    unfold topOrder
    rw [setItem_other hne]
    exact h.1 x hx hne
  · intro x hx hne
    unfold topOrder
    rw [setItem_other hne]
    exact h.2 x hx hne

/-- An item becomes another one in its places, where its order fits. -/
theorem TopSorted.setItem_of_fits (h : s.TopSorted) {i : ItemId} {item : TileItem}
    (htop : item.isAlwaysOnTop = (s.item i).isAlwaysOnTop)
    (hfits : ∀ k, s.topItems[k]? = some i → s.Fits k i item.kind.alwaysOnTopOrder) :
    (s.setItem i item).TopSorted := by
  constructor
  · exact h.split
  · intro x hx
    rw [isAlwaysOnTop_setItem item htop x]
    exact h.top x hx
  · have hordered := h.ordered
    unfold TopOrdered at hordered ⊢
    rw [List.pairwise_iff_getElem] at hordered ⊢
    intro j k hj hk hjk
    have hj : j < s.topItems.length := hj
    have hk : k < s.topItems.length := hk
    have hle := hordered j k hj hk hjk
    change topOrder _ s.topItems[j] ≤ topOrder _ s.topItems[k]
    unfold topOrder at hle ⊢
    -- the places of the item have the new order, the others the old one
    by_cases hji : s.topItems[j] = i
    · by_cases hki : s.topItems[k] = i
      · exact Int.le_of_eq (by rw [hji, hki])
      · have hmem : s.topItems[k] ∈ s.topItems.drop (j + 1) := by
          refine List.mem_drop_iff_getElem.mpr ⟨k - (j + 1), by omega, ?_⟩
          congr 1
          omega
        have hplace : s.topItems[j]? = some i :=
          (List.getElem?_eq_getElem hj).trans (congrArg some hji)
        rw [hji, setItem_self, setItem_other hki]
        exact (hfits j hplace).2 _ hmem hki
    · by_cases hki : s.topItems[k] = i
      · have hmem : s.topItems[j] ∈ s.topItems.take k :=
          List.mem_take_iff_getElem.mpr ⟨j, by omega, rfl⟩
        have hplace : s.topItems[k]? = some i :=
          (List.getElem?_eq_getElem hk).trans (congrArg some hki)
        rw [hki, setItem_self, setItem_other hji]
        exact (hfits k hplace).1 _ hmem hji
      · rw [setItem_other hji, setItem_other hki]
        exact hle

theorem TopSorted.updateThing (h : s.TopSorted) {i : ItemId} {kindId : KindId} {count : ℕ}
    (hsame : ∀ kind, kinds kindId = some kind →
      kind.alwaysOnTop = (s.item i).isAlwaysOnTop)
    (hfits : ∀ kind, kinds kindId = some kind → ∀ k, s.topItems[k]? = some i →
      s.Fits k i kind.alwaysOnTopOrder) : (s.updateThing kinds i kindId count).TopSorted := by
  unfold TileState.updateThing
  split
  · exact h
  cases hkind : kinds kindId with
  | none => exact h
  | some kind =>
    have hupdate : (s.setItem i ((s.item i).update kind count)).TopSorted := by
      apply h.setItem_of_fits
      · unfold TileItem.isAlwaysOnTop
        rw [update_kind]
        exact hsame kind hkind
      · rw [update_kind]
        exact hfits kind hkind
    exact hupdate.congr rfl rfl fun _ _ => rfl

/-- An item takes a place among those on top, where its order fits. -/
theorem TopSorted.setTop (h : s.TopSorted) {i : ItemId} {k : ℕ}
    (htop : (s.item i).isAlwaysOnTop = true) (hi : i ∉ s.topItems)
    (hfits : s.Fits k i (s.topOrder i)) (hk : k < s.topItems.length)
    (hitems : s'.items = s.downItems ++ s.topItems.set k i)
    (hcount : s'.downItemCount = s.downItemCount) (hitem : s'.item = s.item) :
    s'.TopSorted := by
  obtain ⟨hsplit, -, htops⟩ := split_of_append hitems
    (hcount.trans h.split.length_downItems.symm)
  have hlist : s'.topItems = s.topItems.take k ++ i :: s.topItems.drop (k + 1) := by
    rw [htops, List.set_eq_take_append_cons_drop, if_pos hk]
  have hordered := h.ordered
  unfold TopOrdered at hordered
  have hne (x : ItemId) (hx : x ∈ s.topItems) : x ≠ i := fun heq => hi (heq ▸ hx)
  constructor
  · exact hsplit
  · intro x hx
    rw [hitem]
    rw [htops] at hx
    rcases List.mem_or_eq_of_mem_set hx with hx | rfl
    · exact h.top x hx
    · exact htop
  · unfold TopOrdered topOrder
    rw [hlist, hitem]
    refine List.pairwise_append.mpr
      ⟨hordered.sublist (List.take_sublist _ _), List.pairwise_cons.mpr
        ⟨?_, hordered.sublist (List.drop_sublist _ _)⟩, ?_⟩
    · intro x hx
      exact hfits.2 x hx (hne x (List.mem_of_mem_drop hx))
    · intro x hx y hy
      rcases List.mem_cons.mp hy with rfl | hy
      · exact hfits.1 x hx (hne x (List.mem_of_mem_take hx))
      · rw [← List.take_append_drop (k + 1) s.topItems] at hordered
        have htake : x ∈ s.topItems.take (k + 1) :=
          (List.take_subset_take_left _ (Nat.le_succ k)) hx
        exact (List.pairwise_append.mp hordered).2.2 x htake y hy

/-- The second half of `Tile::__replaceThing` changes parents and flags only. -/
theorem TopSorted.replaced (h : s.TopSorted) (old new : ItemId) :
    (s.replaced old new).TopSorted := by
  have hput := h.setParent new .here
  have hflags : (((s.setParent new .here).updateTileFlags old true).updateTileFlags new
      false).TopSorted := hput.congr rfl rfl fun _ _ => rfl
  exact hflags.setParent old .nowhere

theorem TopSorted.replaceItem (h : s.TopSorted) {pos : ℕ} {new : ItemId} (hnew : new ∉ s.things)
    (hplace : pos < s.topItems.length →
      (s.item new).isAlwaysOnTop = true ∧ s.Fits pos new (s.topOrder new)) :
    (s.replaceItem pos new).TopSorted := by
  unfold TileState.replaceItem
  cases htop : s.topItems[pos]? with
  | some old =>
    have hlt := (List.getElem?_eq_some_iff.mp htop).1
    have hnot : new ∉ s.topItems := fun hmem => hnew (mem_things_iff.mpr (.inr (.inr hmem)))
    obtain ⟨hnewTop, hfits⟩ := hplace hlt
    refine TopSorted.replaced ?_ old new
    exact h.setTop hnewTop hnot hfits hlt rfl rfl rfl
  | none =>
    dsimp only
    split
    · exact h
    split
    · next old hdown =>
      refine TopSorted.replaced ?_ old new
      obtain ⟨hsplit, -, htops⟩ := split_of_append
        (s := { s with items := s.downItems.set (pos - s.topItems.length - s.creatures.length) new
          ++ s.topItems }) rfl (h.split.length_downItems.symm.trans List.length_set.symm)
      apply h.of_sublist hsplit
      · rw [htops]
      · exact fun _ _ => rfl
    · exact h

theorem TopSorted.replaceThing (h : s.TopSorted) {index : ℕ} {new : ItemId}
    (hnew : new ∉ s.things)
    (hplace : ∀ k, k < s.topItems.length → index = (if s.ground.isSome then 1 else 0) + k →
      (s.item new).isAlwaysOnTop = true ∧ s.Fits k new (s.topOrder new)) :
    (s.replaceThing index new).TopSorted := by
  unfold TileState.replaceThing
  cases hground : s.ground with
  | none =>
    rw [hground] at hplace
    apply h.replaceItem hnew
    intro hlt
    exact hplace index hlt (Nat.zero_add index).symm
  | some ground =>
    rw [hground] at hplace
    cases index with
    | zero =>
      refine TopSorted.replaced ?_ ground new
      exact h.congr rfl rfl fun _ _ => rfl
    | succ pos =>
      apply h.replaceItem hnew
      intro hlt
      exact hplace pos hlt (Nat.add_comm pos 1)

/-- An item that is not the ground has an index up to the number of the items on top, if it is one of
them, and a larger one or none, if not. -/
theorem getIndexOfThing_item {i : ItemId} (hground : s.ground.map TileThing.item ≠ some (.item i)) :
    i ∈ s.topItems ∧ 1 ≤ s.getIndexOfThing (.item i) ∨
      s.getIndexOfThing (.item i) = -1 ∨ s.topItems.length < s.getIndexOfThing (.item i) := by
  unfold getIndexOfThing
  rw [if_neg hground]
  by_cases htop : TileThing.item i ∈ s.topItems.map TileThing.item
  · obtain ⟨j, hj, heq⟩ := List.mem_map.mp htop
    have hcount : s.countFrom (fun _ => true) (.item i) 0 =
        .error (0 + (((s.topItems.map TileThing.item).idxOf (.item i) : ℕ) : ℤ) + 1) := by
      unfold countFrom
      dsimp only
      rw [countTo_of_mem rfl htop, filter_always]
      rfl
    rw [hcount]
    refine .inl ⟨TileThing.item.inj heq ▸ hj, ?_⟩
    dsimp only
    omega
  · -- the loops over the items on top and the creatures count them all
    have hcreature := item_not_mem_creatures i s.creatures
    have hcount : s.countFrom (fun _ => true) (.item i) 0 =
        countTo (fun _ => true) (.item i) (s.downItems.map .item)
          ((s.topItems.length : ℤ) + s.creatures.length) := by
      unfold countFrom
      dsimp only
      rw [countTo_of_not_mem htop, filter_always, List.length_map]
      change (countTo _ (.item i) (s.creatures.map .creature) _).bind _ = _
      rw [countTo_of_not_mem hcreature, filter_always, List.length_map, Int.zero_add]
      rfl
    rw [hcount]
    by_cases hdown : TileThing.item i ∈ s.downItems.map TileThing.item
    · rw [countTo_of_mem rfl hdown]
      refine .inr (.inr ?_)
      dsimp only
      omega
    · rw [countTo_of_not_mem hdown]
      exact .inr (.inl rfl)

/-- The index of a place among those on top belongs to the item that is there, or to the one before
it where there is no ground. -/
theorem mem_topItems_of_place {i : ItemId} {k : ℕ} (hfound : s.getIndexOfThing (.item i) ≠ -1)
    (hk : k < s.topItems.length)
    (hindex : (s.getIndexOfThing (.item i)).toNat = (if s.ground.isSome then 1 else 0) + k) :
    i ∈ s.topItems := by
  have hbase : (if s.ground.isSome then 1 else 0) ≤ 1 := by split <;> decide
  by_cases hground : s.ground.map TileThing.item = some (.item i)
  · -- the index of the ground is below that of every place behind it
    have hzero : s.getIndexOfThing (.item i) = 0 := if_pos hground
    have hsome : s.ground.isSome = true := by
      cases hg : s.ground with
      | none =>
        rw [hg] at hground
        cases hground
      | some ground => rfl
    rw [hzero, if_pos hsome] at hindex
    have hindex : 0 = 1 + k := hindex
    omega
  · rcases getIndexOfThing_item hground with ⟨hmem, -⟩ | hnone | hlt
    · exact hmem
    · exact absurd hnone hfound
    · omega

end TileState

/-! ## Runs keep the order -/

variable {s s' : TileState}

theorem tileAction_topSorted (h : s.TopSorted) {a : TileAction}
    (hasserts : (StackAction.tile a).Asserts kinds decayTo s) (hrun : a.run kinds s = some s') :
    s'.TopSorted := by
  cases a with
  | internalAddThing i =>
    cases hrun
    exact h.internalAddThing i
  | addThing i destination => exact h.addThing hrun
  | updateThing i kindId count => exact hasserts.elim
  | replaceThing index i => exact hasserts.elim
  | removeThing i count =>
    cases hrun
    exact h.removeThing i count
  | addCreature creature admitted =>
    cases hrun
    have hstill := TileState.Still.addCreature (s := s) creature admitted
    refine h.congr hstill.items hstill.downItemCount fun x hx => ?_
    rw [hstill.item x (TileState.mem_things_iff.mpr (.inr (.inr hx)))]
  | removeCreature creature =>
    cases hrun
    have hstill := TileState.Still.removeCreature (s := s) creature
    refine h.congr hstill.items hstill.downItemCount fun x hx => ?_
    rw [hstill.item x (TileState.mem_things_iff.mpr (.inr (.inr hx)))]
  | elsewhere i item =>
    cases hrun
    have hnot : i ∉ s.topItems := by
      intro hmem
      exact hasserts.1 (TileState.mem_things_iff.mpr (.inr (.inr hmem)))
    exact h.setItem hnot item

/-- An item that is not found is left as it is. -/
theorem Transformation.operation_of_not_found {t : Transformation}
    (h : s.getIndexOfThing (.item t.item) = -1) : t.operation kinds decayTo s = some .keep := by
  unfold operation operationBody
  dsimp only
  split
  · rfl
  · rfl

theorem transformation_topSorted (h : s.TopSorted) {t : Transformation}
    (hasserts : (StackAction.transform t).Asserts kinds decayTo s)
    (hfits : (StackAction.transform t).FitsOrder kinds decayTo s)
    (hrun : (StackAction.transform t).run kinds decayTo s = some s') : s'.TopSorted := by
  obtain ⟨operation, hoperation, rfl⟩ := Option.map_eq_some_iff.mp hrun
  obtain ⟨-, hnew, hkeeps⟩ := hasserts
  have hkeeps := hkeeps operation hoperation
  have hfits := hfits operation hoperation
  cases operation with
  | keep => exact h
  | remove => exact h.removeThing t.item _
  | update resetsCount kindId count =>
    unfold Transformation.perform
    dsimp only
    by_cases hreset : resetsCount = true
    · -- the count does not matter for the order
      rw [if_pos hreset]
      have hcount : (s.setItem t.item { s.item t.item with count := 1 }).TopSorted := by
        refine h.congr rfl rfl fun x _ => ?_
        apply TileState.setItem_kind
        rfl
      apply hcount.updateThing
      · rw [TileState.setItem_self]
        exact hkeeps
      · intro kind hkind k hk
        exact (hfits kind hkind k hk).setItem _
    · rw [if_neg hreset]
      exact h.updateThing hkeeps hfits
  | replace newItem =>
    have hnot : t.newItem ∉ s.topItems := by
      intro hmem
      exact hnew (TileState.mem_things_iff.mpr (.inr (.inr hmem)))
    apply TileState.TopSorted.setParent
    apply (h.setItem hnot newItem).replaceThing hnew
    intro k hk hindex
    have hk : k < s.topItems.length := hk
    have hindex : (s.getIndexOfThing (.item t.item)).toNat =
        (if s.ground.isSome then 1 else 0) + k := hindex
    have hself : (s.setItem t.newItem newItem).item t.newItem = newItem :=
      TileState.setItem_self _ _
    have hfound : s.getIndexOfThing (.item t.item) ≠ -1 := by
      intro hnone
      rw [Transformation.operation_of_not_found hnone] at hoperation
      cases hoperation
    have htop := h.top _ (TileState.mem_topItems_of_place hfound hk hindex)
    unfold TileState.topOrder
    rw [hself]
    -- the transformed item is on top, and so is the new one
    exact ⟨hkeeps.trans htop, (hfits k hk hindex).setItem newItem⟩

/-- In every run in which the new kinds fit where they come, the items on top are in order. -/
theorem stack_topOrdered (h : ((stackSystem kinds decayTo).restrict fun s a =>
    a.FitsOrder kinds decayTo s).Reachable s) : s.TopOrdered := by
  have hsorted : s.TopSorted := by
    refine h.invariant TileState.TopSorted ?_ ?_
    · rintro s ⟨item, -, rfl⟩
      exact ⟨Nat.le_refl _, fun i hi => absurd hi List.not_mem_nil, List.Pairwise.nil⟩
    · rintro s a s' hinv ⟨hfits, hasserts, hrun⟩
      cases a with
      | tile a => exact tileAction_topSorted hinv hasserts hrun
      | transform t => exact transformation_topSorted hinv hasserts hfits hrun
  exact hsorted.ordered

/-- Kinds on top whose order is their id. -/
def layerKinds (kindId : KindId) : Option TileKind :=
  some { id := kindId, alwaysOnTop := true, alwaysOnTopOrder := kindId }

/-- An empty tile, and items of these kinds elsewhere. -/
def layerTile : TileState :=
  { item := fun i => { kind := { id := i, alwaysOnTop := true, alwaysOnTopOrder := i } } }

/-- Items of the orders 1 and 2 are on the tile. -/
def layeredTile : TileState := (layerTile.internalAddThing 1).internalAddThing 2

theorem layeredTile_reachable {ok : TileState → StackAction → Prop}
    (hok : ∀ s i, ok s (.tile (.internalAddThing i))) :
    ((stackSystem layerKinds fun _ => -1).restrict ok).Reachable layeredTile := by
  have hinit : (tileSystem layerKinds).init layerTile := ⟨layerTile.item, fun _ => nofun, rfl⟩
  have hone : ((stackSystem layerKinds fun _ => -1).restrict ok).Reachable
      (layerTile.internalAddThing 1) := .step (.init hinit) ⟨hok _ 1, rfl, rfl⟩
  exact .step hone ⟨hok _ 2, rfl, rfl⟩

/-- The item of order 1 becomes one of another order. -/
theorem layeredTile_step {newId : KindId}
    (hoperation : Transformation.operation layerKinds (fun _ => -1) layeredTile
      { item := 1, newId := newId, newItem := 9 } = some (.update false newId 1)) :
    (stackSystem layerKinds fun _ => -1).step layeredTile
      (.transform { item := 1, newId := newId, newItem := 9 })
      (layeredTile.updateThing layerKinds 1 newId 1) := by
  have hnew : (9 : ItemId) ∉ layeredTile.things := by decide
  refine ⟨⟨rfl, hnew, ?_⟩, ?_⟩
  · rintro operation h
    rw [hoperation] at h
    cases h
    intro kind hkind
    cases hkind
    rfl
  · change Option.map _ (Transformation.operation _ _ _ _) = _
    rw [hoperation]
    rfl

theorem stack_topOrdered_layered :
    (layeredTile.updateThing layerKinds 1 2 1).TopOrdered := by
  have hrun : ((stackSystem layerKinds fun _ => -1).restrict fun s a =>
      a.FitsOrder layerKinds (fun _ => -1) s).Reachable
        (layeredTile.updateThing layerKinds 1 2 1) := by
    refine .step (layeredTile_reachable fun _ _ => trivial) ⟨?_, layeredTile_step rfl⟩
    rintro operation h
    cases h
    intro kind hkind k hk
    cases hkind
    cases k with
    | zero =>
      -- the item of order 2 stays behind
      refine ⟨fun x hx => absurd hx List.not_mem_nil, fun x hx _ => ?_⟩
      obtain rfl := List.mem_singleton.mp (show x ∈ [2] from hx)
      decide
    | succ k =>
      have hmem : (1 : ItemId) ∈ [2] := List.mem_of_getElem? (show [2][k]? = some 1 from hk)
      exact absurd hmem (by decide)
  exact stack_topOrdered hrun

/-- The item of order 1 is given order 3 below the one of order 2. -/
theorem stack_not_topOrdered :
    ¬ ∀ s, (stackSystem layerKinds fun _ => -1).Reachable s → s.TopOrdered := by
  intro h
  have hrun : ((stackSystem layerKinds fun _ => -1).restrict fun _ _ => True).Reachable
      layeredTile := layeredTile_reachable fun _ _ => trivial
  have hthree : Transformation.operation layerKinds (fun _ => -1) layeredTile
      { item := 1, newId := 3, newItem := 9 } = some (.update false 3 1) := rfl
  have hordered := h _ (.step hrun.of_restrict (layeredTile_step hthree))
  revert hordered
  unfold TileState.TopOrdered
  decide

end TyanoCore
