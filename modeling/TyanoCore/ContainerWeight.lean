import TyanoCore.NestingRun
import Mathlib.Algebra.BigOperators.Group.List.Basic
import Mathlib.Algebra.Order.BigOperators.Group.Finset
import Mathlib.Tactic.Ring

/-!
# The weight a container remembers

The operations of `Container` that move items, the loaders' and `Container::clone` among them.
Every container remembers the weight of the items in it, and each operation passes the difference
on to the containers around; only the contents of a clone are added without their weight.
-/

namespace TyanoCore

open Transition

/-! ## The operations -/

section
variable (srv : Server) (w : World)

/-- `Container::addItem`. -/
def Container.addItem (j : ItemId) (item : ItemId) : World :=
  (w.setItemList j ((w.item j).itemlist ++ [item])).setParent item (some (.container j))

/-- What `Container::unserializeItemNode` does with every item it has read. -/
def Container.loadItem (j : ItemId) (item : ItemId) : World :=
  let w := Container.addItem w j item
  w.updateItemWeight srv.loopBound j (w.getWeight item)

/-- `Container::__internalAddThing`. -/
def Container.internalAddThing (j : ItemId) (item : ItemId) : World :=
  let w' := (w.setItemList j (item :: (w.item j).itemlist)).setParent item (some (.container j))
  w'.updateItemWeight srv.loopBound j (w'.getWeight item)

/-- `Container::__replaceThing`. -/
def Container.replaceThing (j : ItemId) (index : ℕ) (item : ItemId) : World :=
  match (w.item j).itemlist[index]? with
  | none => w
  | some existingItem =>
    let w' := w.updateItemWeight srv.loopBound j (-w.getWeight existingItem + w.getWeight item)
    let w' := w'.setItemList j ((w'.item j).itemlist.set index item)
    (w'.setParent item (some (.container j))).setParent existingItem none

/-- `Item::clone`: the attributes are copied, the count is passed on. -/
def Item.clone (i : ItemId) : Option (World × ItemId) :=
  match Item.createItem srv w (w.item i).kind.id (w.item i).count with
  | none => none
  | some (w', tmp) =>
    let attributes := w.item i
    some (w'.setItem tmp { w'.item tmp with
      charges := attributes.charges, fluidType := attributes.fluidType }, tmp)

/-- `Container::clone`, and `Item::clone` for other items; `none` when an item cannot be made
again or is of another class then.  The items in a container are cloned one after another. -/
def Container.clone : ℕ → World → ItemId → Option (World × ItemId)
  | 0, _, _ => none
  | n + 1, w, i =>
    match Item.clone srv w i with
    | none => none
    | some (w', item) =>
      if (w.item i).isContainer then
        if (w'.item item).isContainer then
          let addClone (w : World) (it : ItemId) : Option World :=
            (Container.clone n w it).map fun r => Container.addItem r.1 item r.2
          ((w.item i).itemlist.foldlM addClone w').map fun w => (w, item)
        else none
      else some (w', item)

end

/-! ## What is remembered -/

variable {srv : Server} {w w' : World}

/-- The weight of the items directly inside a container. -/
def World.contentsWeight (w : World) (j : ItemId) : ℤ :=
  ((w.item j).itemlist.map w.getWeight).sum

/-- The containers are wrong by the given amounts about what they hold. -/
def World.Balance (w : World) (missing : ItemId → ℤ) : Prop :=
  ∀ j, w.IsContainer j → w.contentsWeight j = w.totalWeight j + missing j

/-- Every container remembers the weight of the items directly inside it. -/
def World.Weighed (w : World) : Prop :=
  ∀ j, w.IsContainer j → w.totalWeight j = w.contentsWeight j

theorem World.weighed_iff : w.Weighed ↔ w.Balance fun _ => 0 := by
  constructor
  · intro h j hj
    rw [h j hj, add_zero]
  · intro h j hj
    rw [h j hj, add_zero]

theorem sum_map_add_ite {l : List ItemId} (hl : l.Nodup) (f : ItemId → ℤ) (j : ItemId) (d : ℤ) :
    (l.map fun i => f i + if i = j then d else 0).sum = (l.map f).sum + if j ∈ l then d else 0 := by
  induction l with
  | nil => rfl
  | cons a l ih =>
    obtain ⟨ha, hl⟩ := List.nodup_cons.mp hl
    rw [List.map_cons, List.map_cons, List.sum_cons, List.sum_cons, ih hl]
    by_cases haj : a = j
    · rw [if_pos haj, if_neg (haj ▸ ha), if_pos (haj ▸ List.mem_cons_self)]
      ring
    · have hmem : j ∈ a :: l ↔ j ∈ l := by
        rw [List.mem_cons, or_iff_right (Ne.symm haj)]
      rw [if_neg haj, if_congr hmem rfl rfl]
      ring

/-- The weight of an item without what it holds. -/
def World.ownWeight (w : World) (i : ItemId) : ℤ :=
  if (w.item i).isStackable then (w.item i).kind.weight * max 1 ((w.item i).count : ℤ)
  else (w.item i).kind.weight

theorem World.getWeight_eq (w : World) (i : ItemId) :
    w.getWeight i = w.ownWeight i + if (w.item i).isContainer then w.totalWeight i else 0 := rfl

/-- One container remembers more or less than before. -/
theorem World.Balance.addTotal (hw : w.Nested) {missing : ItemId → ℤ} (h : w.Balance missing)
    {j : ItemId} (hj : w.IsContainer j) (diff : ℤ) {totalWeight : ItemId → ℤ}
    (htotal : ∀ k, totalWeight k = w.totalWeight k + if k = j then diff else 0) :
    { w with totalWeight := totalWeight }.Balance fun k =>
      missing k - (if k = j then diff else 0)
        + if (w.item j).parent = some (Cylinder.container k) then diff else 0 := by
  let w' : World := { w with totalWeight := totalWeight }
  -- the item weighs more for the container it lies in
  have hweight (i : ItemId) : w'.getWeight i = w.getWeight i + if i = j then diff else 0 := by
    rw [World.getWeight_eq, World.getWeight_eq]
    have hown : w'.ownWeight i = w.ownWeight i := rfl
    have htotal' : w'.totalWeight i = w.totalWeight i + if i = j then diff else 0 := htotal i
    have hitem : w'.item i = w.item i := rfl
    rw [hown, htotal', hitem]
    by_cases hij : i = j
    · have hcontainer : (w.item i).isContainer = true := hij ▸ hj.1
      rw [if_pos hij, if_pos hcontainer, if_pos hcontainer]
      ring
    · rw [if_neg hij]
      simp only [add_zero]
  intro k hk
  have hcontents : w'.contentsWeight k =
      w.contentsWeight k + if j ∈ (w.item k).itemlist then diff else 0 := by
    have hmap : w'.contentsWeight k =
        ((w.item k).itemlist.map fun i => w.getWeight i + if i = j then diff else 0).sum := by
      apply congrArg List.sum
      apply List.map_congr_left
      intro i _
      exact hweight i
    rw [hmap]
    exact sum_map_add_ite (hw.nodup k) _ j diff
  -- the item is in the list of the one container that is its parent
  change w'.contentsWeight k = totalWeight k + _
  rw [hcontents, h k hk, htotal k, if_congr (hw.mem_itemlist j k) rfl rfl]
  ring

/-- `updateItemWeight` makes up for what is missing at the container it is called on, and leaves
the rest as it is: the difference is owed to one container at a time. -/
theorem World.Balance.updateItemWeight (hw : w.Nested) {n : ℕ} {j : ItemId}
    (hend : w.ancestor n (some (.container j)) = none) (hj : w.IsContainer j) (diff : ℤ)
    {missing : ItemId → ℤ} (h : w.Balance missing) :
    (w.updateItemWeight n j diff).Balance fun k => missing k - if k = j then diff else 0 := by
  -- on the steps up: what `j` was owed is then owed to the container around it
  induction n generalizing w j missing with
  | zero => cases hend
  | succ n ih =>
    have hup : w.ancestor n (w.item j).parent = none := hend
    have htotal (k : ItemId) : (if k = j then w.totalWeight j + diff else w.totalWeight k) =
        w.totalWeight k + if k = j then diff else 0 := by
      by_cases hkj : k = j
      · rw [if_pos hkj, if_pos hkj, hkj]
      · rw [if_neg hkj, if_neg hkj, add_zero]
    have hbalance := h.addTotal hw hj diff htotal
    unfold World.updateItemWeight
    dsimp only
    generalize (fun k => if k = j then w.totalWeight j + diff else w.totalWeight k) = totalWeight
      at hbalance
    have hsame : SameItems w { w with totalWeight := totalWeight } := ⟨rfl, rfl, rfl, rfl⟩
    cases hparent : w.getParentContainer j with
    | none =>
      -- no container is left to be told
      intro k hk
      have hnot : (w.item j).parent ≠ some (.container k) := by
        intro heq
        rw [World.getParentContainer, heq] at hparent
        cases hparent
      have hk' := hbalance k hk
      beta_reduce at hk'
      rw [if_neg hnot, add_zero] at hk'
      exact hk'
    | some parent =>
      have hcontainer := getParentContainer_eq_some.mp hparent
      rw [hcontainer] at hup hbalance
      have hrest := ih (hw.of_sameLinks hsame.sameLinks)
        ((ancestor_sameItems hsame n _).trans hup) (hw.container j parent hcontainer) hbalance
      intro k hk
      rw [hrest k hk]
      beta_reduce
      by_cases hkp : k = parent
      · rw [hkp, if_pos rfl, if_pos rfl]
        ring
      · have hne : some (Cylinder.container parent) ≠ some (.container k) := by
          intro heq
          cases heq
          exact hkp rfl
        rw [if_neg hkp, if_neg hne]
        ring

/-! ## Links and weights -/

/-- Every item weighs what it weighed. -/
structure SameWeights (w w' : World) : Prop where
  getWeight : ∀ k, w'.getWeight k = w.getWeight k
  totalWeight : ∀ k, w'.totalWeight k = w.totalWeight k

theorem SameWeights.trans {w'' : World} (h : SameWeights w w') (h' : SameWeights w' w'') :
    SameWeights w w'' :=
  ⟨fun k => (h'.getWeight k).trans (h.getWeight k),
    fun k => (h'.totalWeight k).trans (h.totalWeight k)⟩

/-- An item that keeps its kind, its count and its class. -/
theorem sameWeights_setItem {i : ItemId} {item : Item} (hkind : item.kind = (w.item i).kind)
    (hcount : item.count = (w.item i).count)
    (hcontainer : item.isContainer = (w.item i).isContainer) :
    SameWeights w (w.setItem i item) := by
  constructor
  · intro k
    by_cases hk : k = i
    · simp only [World.getWeight, World.setItem, Item.isStackable, hk, if_true, hkind, hcount,
        hcontainer]
    · simp only [World.getWeight, World.setItem, hk, if_false]
  · intro k
    rfl

theorem sameWeights_setParent (i : ItemId) (parent : Option Cylinder) :
    SameWeights w (w.setParent i parent) :=
  sameWeights_setItem rfl rfl rfl

theorem sameWeights_setItemList (j : ItemId) (itemlist : List ItemId) :
    SameWeights w (w.setItemList j itemlist) :=
  sameWeights_setItem rfl rfl rfl

theorem LinkPut.contentsWeight {i j : ItemId} (h : LinkPut i j w w') (hsame : SameWeights w w')
    (k : ItemId) :
    w'.contentsWeight k = w.contentsWeight k + if k = j then w.getWeight i else 0 := by
  have hweights : w'.getWeight = w.getWeight := funext hsame.getWeight
  unfold World.contentsWeight
  rw [hweights]
  by_cases hk : k = j
  · rw [hk, if_pos rfl, (h.itemlist.map w.getWeight).sum_eq, List.map_cons, List.sum_cons, add_comm]
  · rw [if_neg hk, h.itemlists k hk, add_zero]

theorem LinkTaken.contentsWeight {i j : ItemId} (h : LinkTaken i j w w') (hsame : SameWeights w w')
    (hmem : i ∈ (w.item j).itemlist) (k : ItemId) :
    w'.contentsWeight k = w.contentsWeight k - if k = j then w.getWeight i else 0 := by
  have hweights : w'.getWeight = w.getWeight := funext hsame.getWeight
  unfold World.contentsWeight
  rw [hweights]
  by_cases hk : k = j
  -- the list is the item and what is left of it
  · have hsum := ((List.perm_cons_erase hmem).map w.getWeight).sum_eq
    rw [List.map_cons, List.sum_cons] at hsum
    rw [hk, if_pos rfl, h.itemlist, hsum]
    ring
  · rw [if_neg hk, h.itemlists k hk, sub_zero]

/-- A container that exists still does. -/
theorem IsContainer.of_same (hcontainer : ∀ k, (w'.item k).isContainer = (w.item k).isContainer)
    (hnext : w'.next = w.next) {j : ItemId} : w'.IsContainer j ↔ w.IsContainer j := by
  unfold World.IsContainer
  rw [hcontainer, hnext]

theorem LinkPut.balance {i j : ItemId} (h : LinkPut i j w w') (hsame : SameWeights w w')
    {missing : ItemId → ℤ} (hw : w.Balance missing) :
    w'.Balance fun k => missing k + if k = j then w.getWeight i else 0 := by
  intro k hk
  rw [h.contentsWeight hsame k, hw k ((IsContainer.of_same h.isContainer h.next).mp hk),
    hsame.totalWeight k]
  ring

theorem LinkTaken.balance {i j : ItemId} (h : LinkTaken i j w w') (hsame : SameWeights w w')
    (hmem : i ∈ (w.item j).itemlist) {missing : ItemId → ℤ} (hw : w.Balance missing) :
    w'.Balance fun k => missing k - if k = j then w.getWeight i else 0 := by
  intro k hk
  rw [h.contentsWeight hsame hmem k, hw k ((IsContainer.of_same h.isContainer h.next).mp hk),
    hsame.totalWeight k]
  ring

/-- An item in a container weighs something else. -/
theorem SameLinks.balance (h : SameLinks w w') (hw : w.Nested) {i j : ItemId}
    (hparent : (w.item i).parent = some (.container j))
    (htotal : ∀ k, w'.totalWeight k = w.totalWeight k)
    (hweight : ∀ k, k ≠ i → w'.getWeight k = w.getWeight k) {missing : ItemId → ℤ}
    (hbalance : w.Balance missing) :
    w'.Balance fun k => missing k + if k = j then -w.getWeight i + w'.getWeight i else 0 := by
  intro k hk
  have hmem : i ∈ (w.item k).itemlist ↔ k = j := by
    rw [hw.mem_itemlist, hparent, Option.some.injEq, Cylinder.container.injEq]
    exact eq_comm
  have hcontents : w'.contentsWeight k = w.contentsWeight k +
      if k = j then -w.getWeight i + w'.getWeight i else 0 := by
    calc w'.contentsWeight k
        = ((w.item k).itemlist.map fun x => w.getWeight x +
            if x = i then -w.getWeight i + w'.getWeight i else 0).sum := by
          unfold World.contentsWeight
          rw [h.itemlist]
          apply congrArg List.sum
          apply List.map_congr_left
          intro x _
          by_cases hx : x = i
          · rw [if_pos hx, hx]
            ring
          · rw [if_neg hx, hweight x hx, add_zero]
      _ = w.contentsWeight k +
            if i ∈ (w.item k).itemlist then -w.getWeight i + w'.getWeight i else 0 :=
          sum_map_add_ite (hw.nodup k) _ i _
      _ = _ := by rw [if_congr hmem rfl rfl]
  rw [hcontents, hbalance k ((IsContainer.of_same h.isContainer h.next).mp hk), htotal]
  ring

/-! ## One operation -/

/-- The containers are nested, and each remembers what it holds. -/
structure World.Sound (w : World) : Prop where
  nested : w.Nested
  weighed : w.Weighed

/-- An item that lies nowhere may be put into a container that is not inside it. -/
structure World.MayPut (w : World) (i j : ItemId) : Prop where
  container : w.IsContainer j
  lt_next : i < w.next
  parent : (w.item i).parent = none
  not_around : ¬ w.Around j i

theorem World.MayPut.ne {i j : ItemId} (h : w.MayPut i j) : i ≠ j :=
  fun heq => h.not_around (.inl heq)

/-- `updateItemWeight` settles what one container owes. -/
theorem World.Balance.settle (hbound : srv.loopBound = w.next + 2) (hw : w.Nested) {j : ItemId}
    (hj : w.IsContainer j) {diff : ℤ} (h : w.Balance fun k => if k = j then diff else 0) :
    (w.updateItemWeight srv.loopBound j diff).Sound := by
  constructor
  · exact hw.of_sameLinks (sameLinks_updateItemWeight _ w j diff)
  · rw [World.weighed_iff]
    have hend := hw.ancestor_end (.container j)
    rw [← hbound] at hend
    intro k hk
    rw [h.updateItemWeight hw hend hj diff k hk]
    ring

/-- Putting an item into a container and passing its weight on. -/
theorem World.Sound.put (hbound : srv.loopBound = w.next + 2) (hw : w.Sound) {i j : ItemId}
    (hmay : w.MayPut i j) (h : LinkPut i j w w') (hsame : SameWeights w w') :
    (w'.updateItemWeight srv.loopBound j (w.getWeight i)).Sound := by
  have hbalance := h.balance hsame (World.weighed_iff.mp hw.weighed)
  simp only [zero_add] at hbalance
  have hj : w'.IsContainer j := (IsContainer.of_same h.isContainer h.next).mpr hmay.container
  have hnested := hw.nested.put h hmay.parent hmay.lt_next hmay.container hmay.not_around
  exact hbalance.settle (h.next ▸ hbound) hnested hj

theorem World.Sound.addThing (hbound : srv.loopBound = w.next + 2) (hw : w.Sound) {i j : ItemId}
    (hmay : w.MayPut i j) (index : ℤ) : (Container.addThing srv w j index i).Sound := by
  unfold Container.addThing
  split
  · exact hw
  · apply hw.put hbound hmay (linkPut_list (.refl _))
    exact (sameWeights_setParent i _).trans (sameWeights_setItemList j _)

theorem World.ext_item {f g : ItemId → Item} (h : ∀ k, f k = g k) :
    { w with item := f } = { w with item := g } :=
  congrArg (fun item => { w with item := item }) (funext h)

/-- The two fields may be set in any order. -/
theorem setItemList_setParent {i j : ItemId} (hij : i ≠ j) (itemlist : List ItemId)
    (parent : Option Cylinder) :
    (w.setItemList j itemlist).setParent i parent =
      (w.setParent i parent).setItemList j itemlist := by
  apply World.ext_item
  intro k
  by_cases hki : k = i
  · simp only [World.setItemList, World.setParent, World.setItem, hki, hij, if_true, if_false]
  · by_cases hkj : k = j
    · simp only [World.setItemList, World.setParent, World.setItem, hkj, Ne.symm hij, if_true,
        if_false]
    · simp only [World.setItemList, World.setParent, World.setItem, hki, hkj, if_false]

theorem addItem_put {i j : ItemId} (hij : i ≠ j) :
    LinkPut i j w (Container.addItem w j i) ∧ SameWeights w (Container.addItem w j i) := by
  unfold Container.addItem
  rw [setItemList_setParent hij]
  constructor
  · exact linkPut_list (List.perm_append_singleton i _)
  · exact (sameWeights_setParent i _).trans (sameWeights_setItemList j _)

theorem World.Sound.loadItem (hbound : srv.loopBound = w.next + 2) (hw : w.Sound) {i j : ItemId}
    (hmay : w.MayPut i j) : (Container.loadItem srv w j i).Sound := by
  obtain ⟨hput, hsame⟩ := addItem_put (w := w) hmay.ne
  unfold Container.loadItem
  dsimp only
  rw [hsame.getWeight]
  exact hw.put hbound hmay hput hsame

theorem World.Sound.internalAddThing (hbound : srv.loopBound = w.next + 2) (hw : w.Sound)
    {i j : ItemId} (hmay : w.MayPut i j) : (Container.internalAddThing srv w j i).Sound := by
  have hsame : SameWeights w
      ((w.setParent i (some (.container j))).setItemList j (i :: (w.item j).itemlist)) :=
    (sameWeights_setParent i _).trans (sameWeights_setItemList j _)
  unfold Container.internalAddThing
  dsimp only
  rw [setItemList_setParent hmay.ne, hsame.getWeight]
  exact hw.put hbound hmay (linkPut_list (.refl _)) hsame

/-- An item weighs the same after the containers around it have been told of a difference. -/
theorem getWeight_updateItemWeight (n : ℕ) {i j : ItemId} (diff : ℤ) (h : ¬ w.Around j i) :
    (w.updateItemWeight n j diff).getWeight i = w.getWeight i := by
  have hsame := sameItems_updateItemWeight n w j diff
  unfold World.getWeight
  rw [hsame.item, updateItemWeight_totalWeight n diff h]

theorem not_around_of_mem (hw : w.Nested) {i j : ItemId} (hmem : i ∈ (w.item j).itemlist) :
    ¬ w.Around j i := by
  intro haround
  exact hw.acyclic i (haround.up ((hw.mem_itemlist i j).mp hmem))

/-- Taking an item out of a container after passing its weight on. -/
theorem World.Sound.take (hbound : srv.loopBound = w.next + 2) (hw : w.Sound) {i j : ItemId}
    (hmem : i ∈ (w.item j).itemlist)
    (h : LinkTaken i j (w.updateItemWeight srv.loopBound j (-w.getWeight i)) w')
    (hsame : SameWeights (w.updateItemWeight srv.loopBound j (-w.getWeight i)) w') :
    w'.Sound := by
  have hparent := (hw.nested.mem_itemlist i j).mp hmem
  have hj := hw.nested.container i j hparent
  have hitems := sameItems_updateItemWeight srv.loopBound w j (-w.getWeight i)
  have hend := hw.nested.ancestor_end (.container j)
  rw [← hbound] at hend
  have hbalance := (World.weighed_iff.mp hw.weighed).updateItemWeight hw.nested hend hj
    (-w.getWeight i)
  have hmem' : i ∈ ((w.updateItemWeight srv.loopBound j (-w.getWeight i)).item j).itemlist := by
    rw [hitems.item]
    exact hmem
  constructor
  · apply (hw.nested.of_sameLinks hitems.sameLinks).take h
    rw [hitems.item]
    exact hparent
  · rw [World.weighed_iff]
    intro k hk
    -- the weight that was passed on is that of the item, which has not changed since
    rw [h.balance hsame hmem' hbalance k hk,
      getWeight_updateItemWeight _ _ (not_around_of_mem hw.nested hmem)]
    beta_reduce
    split_ifs <;> ring

/-- Another weight of an item in a container, passed on. -/
theorem World.Sound.reweigh (hbound : srv.loopBound = w.next + 2) (hw : w.Sound) {i j : ItemId}
    (hmem : i ∈ (w.item j).itemlist) {item : Item} (h : SameLinks w (w.setItem i item)) :
    ((w.setItem i item).updateItemWeight srv.loopBound j
      (-w.getWeight i + (w.setItem i item).getWeight i)).Sound := by
  have hparent := (hw.nested.mem_itemlist i j).mp hmem
  have hj := hw.nested.container i j hparent
  have hbalance := h.balance hw.nested hparent (fun _ => rfl) (fun k hk => by
    simp only [World.getWeight, World.setItem, hk, if_false]) (World.weighed_iff.mp hw.weighed)
  simp only [zero_add] at hbalance
  have hj' : (w.setItem i item).IsContainer j := (IsContainer.of_same h.isContainer h.next).mpr hj
  exact hbalance.settle (h.next ▸ hbound) (hw.nested.of_sameLinks h) hj'

theorem World.Sound.removeThing (hbound : srv.loopBound = w.next + 2) (hw : w.Sound) (i j : ItemId)
    (count : ℕ) : (Container.removeThing srv w j i count).Sound := by
  unfold Container.removeThing
  split
  · exact hw
  next hindex =>
  have hmem : i ∈ (w.item j).itemlist :=
    (getIndexOfThing_ne (c := .container j)).mp hindex
  split
  -- a part of a stack
  · exact hw.reweigh hbound hmem (sameLinks_setItem rfl rfl rfl)
  · have hij : i ≠ j := fun heq => not_around_of_mem hw.nested hmem (.inl heq)
    have hitems := sameItems_updateItemWeight srv.loopBound w j (-w.getWeight i)
    apply hw.take hbound hmem
    · have htaken := linkTaken_erase (w.updateItemWeight srv.loopBound j (-w.getWeight i)) i j
      rw [congrFun hitems.item j] at htaken
      exact htaken
    · exact (sameWeights_setParent i _).trans (sameWeights_setItemList j _)

theorem World.Sound.updateThing (hbound : srv.loopBound = w.next + 2) (hw : w.Sound) (i j : ItemId)
    (kindId : KindId) (count : ℕ) : (Container.updateThing srv w j i kindId count).Sound := by
  unfold Container.updateThing
  split
  · exact hw
  next hindex =>
  have hmem : i ∈ (w.item j).itemlist :=
    (getIndexOfThing_ne (c := .container j)).mp hindex
  split
  · exact hw
  · exact hw.reweigh hbound hmem (sameLinks_update i _ count)

/-- An item takes the place of another one: that one is taken out, and it is put in. -/
theorem replaced_item {i e j : ItemId} (hij : i ≠ j) (hej : e ≠ j) (hie : i ≠ e)
    (itemlist : List ItemId) :
    ((w.setItemList j itemlist).setParent i (some (.container j))).setParent e none =
      ((((w.setParent e none).setItemList j ((w.item j).itemlist.erase e)).setParent i
        (some (.container j))).setItemList j itemlist) := by
  apply World.ext_item
  intro k
  by_cases hki : k = i
  · simp [World.setItemList, World.setParent, World.setItem, hki, hij, hie]
  · by_cases hke : k = e
    · simp [World.setItemList, World.setParent, World.setItem, hke, hej, Ne.symm hie]
    · by_cases hkj : k = j
      · simp [World.setItemList, World.setParent, World.setItem, hkj, Ne.symm hij, Ne.symm hej]
      · simp [World.setItemList, World.setParent, World.setItem, hki, hke, hkj]

theorem set_perm_erase {l : List ItemId} (hl : l.Nodup) {index : ℕ} {e : ItemId}
    (h : l[index]? = some e) (i : ItemId) : (l.set index i).Perm (i :: l.erase e) := by
  obtain ⟨hlt, he⟩ := List.getElem?_eq_some_iff.mp h
  rw [← he, hl.erase_getElem index hlt]
  exact List.set_perm_cons_eraseIdx hlt i

theorem World.Sound.replaceThing (hbound : srv.loopBound = w.next + 2) (hw : w.Sound) {i j : ItemId}
    (hmay : w.MayPut i j) (index : ℕ) : (Container.replaceThing srv w j index i).Sound := by
  unfold Container.replaceThing
  split
  · exact hw
  next e he =>
  have hmem : e ∈ (w.item j).itemlist := List.mem_of_getElem? he
  have hparent := (hw.nested.mem_itemlist e j).mp hmem
  have hej : e ≠ j := fun heq => not_around_of_mem hw.nested hmem (.inl heq)
  have hie : i ≠ e := by
    rintro rfl
    rw [hmay.parent] at hparent
    cases hparent
  dsimp only
  -- the difference goes up first
  have hitems := sameItems_updateItemWeight srv.loopBound w j (-w.getWeight e + w.getWeight i)
  have hend := hw.nested.ancestor_end (.container j)
  rw [← hbound] at hend
  have hbalance := (World.weighed_iff.mp hw.weighed).updateItemWeight hw.nested hend hmay.container
    (-w.getWeight e + w.getWeight i)
  have hweight_e := getWeight_updateItemWeight srv.loopBound (-w.getWeight e + w.getWeight i)
    (not_around_of_mem hw.nested hmem)
  have hweight_i := getWeight_updateItemWeight srv.loopBound (-w.getWeight e + w.getWeight i)
    hmay.not_around
  generalize w.updateItemWeight srv.loopBound j (-w.getWeight e + w.getWeight i) = w₁
    at hitems hbalance hweight_e hweight_i
  have hnested₁ := hw.nested.of_sameLinks hitems.sameLinks
  have hmem₁ : e ∈ (w₁.item j).itemlist := by
    rw [hitems.item]
    exact hmem
  -- the existing item leaves
  have htaken := linkTaken_erase w₁ e j
  have hsame₂ : SameWeights w₁
      ((w₁.setParent e none).setItemList j ((w₁.item j).itemlist.erase e)) :=
    (sameWeights_setParent e _).trans (sameWeights_setItemList j _)
  have hperm : ((w₁.item j).itemlist.set index i).Perm (i :: (w₁.item j).itemlist.erase e) := by
    apply set_perm_erase (hnested₁.nodup j)
    rw [hitems.item]
    exact he
  have hlist :
      (((w₁.setParent e none).setItemList j ((w₁.item j).itemlist.erase e)).item j).itemlist =
      (w₁.item j).itemlist.erase e := htaken.itemlist
  rw [replaced_item hmay.ne hej hie]
  generalize (w₁.setParent e none).setItemList j ((w₁.item j).itemlist.erase e) = w₂
    at htaken hsame₂ hlist
  have hnested₂ := hnested₁.take htaken ((hnested₁.mem_itemlist e j).mp hmem₁)
  have hbalance₂ := htaken.balance hsame₂ hmem₁ hbalance
  -- and the item comes in
  rw [← hlist] at hperm
  have hput := linkPut_list (w := w₂) hperm
  have hsame₃ : SameWeights w₂
      ((w₂.setParent i (some (.container j))).setItemList j ((w₁.item j).itemlist.set index i)) :=
    (sameWeights_setParent i _).trans (sameWeights_setItemList j _)
  have hnext₂ : w₂.next = w.next := htaken.next.trans hitems.next
  have hparent₂ : (w₂.item i).parent = none := by
    rw [htaken.others i hie, hitems.item]
    exact hmay.parent
  have hcontainer₂ : w₂.IsContainer j := by
    rw [IsContainer.of_same (fun k => (htaken.isContainer k).trans (by rw [hitems.item])) hnext₂]
    exact hmay.container
  have hinside₂ : ¬ w₂.Around j i := by
    rintro (heq | hin)
    · exact hmay.ne heq
    · exact hmay.not_around
        (.inr ((World.Within.of_sameLinks hitems.sameLinks).mp (hin.of_lost htaken.lost)))
  constructor
  · exact hnested₂.put hput hparent₂ (hnext₂ ▸ hmay.lt_next) hcontainer₂ hinside₂
  · rw [World.weighed_iff]
    intro k hk
    rw [hput.balance hsame₃ hbalance₂ k hk, hsame₂.getWeight, hweight_e, hweight_i]
    beta_reduce
    split_ifs <;> ring

/-! ## New items -/

/-- Items have been made, and those that were there are what they were. -/
structure Grown (w w' : World) : Prop where
  next_le : w.next ≤ w'.next
  item : ∀ k, k < w.next → w'.item k = w.item k
  totalWeight : ∀ k, k < w.next → w'.totalWeight k = w.totalWeight k

theorem Grown.trans {w'' : World} (h : Grown w w') (h' : Grown w' w'') : Grown w w'' := by
  constructor
  · exact Nat.le_trans h.next_le h'.next_le
  · intro k hk
    rw [h'.item k (Nat.lt_of_lt_of_le hk h.next_le), h.item k hk]
  · intro k hk
    rw [h'.totalWeight k (Nat.lt_of_lt_of_le hk h.next_le), h.totalWeight k hk]

theorem Grown.contentsWeight (h : Grown w w') (hw : w.Nested) {k : ItemId} (hk : k < w.next) :
    w'.contentsWeight k = w.contentsWeight k := by
  unfold World.contentsWeight
  rw [h.item k hk]
  apply congrArg List.sum
  apply List.map_congr_left
  intro x hx
  have hlt : x < w.next := hw.lt_next x _ ((hw.mem_itemlist x k).mp hx)
  unfold World.getWeight
  rw [h.item x hlt, h.totalWeight x hlt]

/-- New containers lie in none of the old ones. -/
theorem Grown.within (h : Grown w w') (hw : w.Nested) (hw' : w'.Nested) {c k : ItemId}
    (hc : c < w.next) (hin : w'.Within (.container c) k) : w.Within (.container c) k := by
  have hback {x j : ItemId} (hj : j < w.next) (hx : (w'.item x).parent = some (.container j)) :
      (w.item x).parent = some (.container j) := by
    have hmem := (hw'.mem_itemlist x j).mpr hx
    rw [h.item j hj] at hmem
    exact (hw.mem_itemlist x j).mp hmem
  induction hin with
  | thing hx => exact .thing (hback hc hx)
  | nested hx _ ih =>
    obtain ⟨place, hplace, -⟩ := ih.place
    exact .nested (hback (hw.lt_next _ place hplace) hx) ih

theorem Grown.isContainer (h : Grown w w') {k : ItemId} (hk : k < w.next)
    (hk' : w'.IsContainer k) : w.IsContainer k := by
  have hcontainer := hk'.1
  rw [h.item k hk] at hcontainer
  exact ⟨hcontainer, hk⟩

/-- The new containers remember what they hold. -/
theorem World.Sound.grown (hw : w.Sound) (h : Grown w w') (hw' : w'.Nested)
    (hnew : ∀ k, w.next ≤ k → w'.IsContainer k → w'.totalWeight k = w'.contentsWeight k) :
    w'.Sound := by
  refine ⟨hw', fun k hk => ?_⟩
  -- the old containers hold what they held
  by_cases hlt : k < w.next
  · rw [h.totalWeight k hlt, h.contentsWeight hw.nested hlt]
    exact hw.weighed k (h.isContainer hlt hk)
  · exact hnew k (Nat.le_of_not_lt hlt) hk

theorem grown_create (item : Item) : Grown w (w.create item) :=
  ⟨Nat.le_succ _, fun _ hk => if_neg (Nat.ne_of_lt hk), fun _ hk => if_neg (Nat.ne_of_lt hk)⟩

theorem totalWeight_create (item : Item) : (w.create item).totalWeight w.next = 0 :=
  if_pos rfl

theorem contentsWeight_create {item : Item} (hlist : item.itemlist = []) :
    (w.create item).contentsWeight w.next = 0 := by
  unfold World.contentsWeight
  rw [create_item_next, hlist]
  rfl

theorem World.Sound.create (hw : w.Sound) {item : Item} (hparent : item.parent = none)
    (hlist : item.itemlist = []) : (w.create item).Sound := by
  apply hw.grown (grown_create item) (hw.nested.create hparent hlist)
  intro k hk hk'
  have heq : k = w.next := Nat.le_antisymm (Nat.le_of_lt_succ hk'.2) hk
  rw [heq, totalWeight_create, contentsWeight_create hlist]

/-! ## Clones -/

/-- The weight of what `Item::clone` makes of an item, without contents. -/
def World.clonedWeight (srv : Server) (w : World) (i : ItemId) : ℤ :=
  match Item.clone srv w i with
  | none => 0
  | some (w', tmp) => w'.getWeight tmp

theorem itemClone_create {i t : ItemId} (h : Item.clone srv w i = some (w', t)) :
    ∃ item : Item, w' = w.create item ∧ t = w.next ∧ item.parent = none ∧ item.itemlist = [] := by
  unfold Item.clone at h
  split at h
  · cases h
  · next w₁ tmp hcreate =>
    obtain ⟨item, rfl, rfl, hparent, hlist⟩ := createItem_create hcreate
    cases h
    -- the attributes are set on an item that nothing else refers to
    refine ⟨{ item with charges := (w.item i).charges, fluidType := (w.item i).fluidType },
      ?_, rfl, hparent, hlist⟩
    apply World.ext_item
    intro k
    by_cases hk : k = w.next
    · rw [if_pos hk, hk, create_item_next]
      exact (if_pos rfl).symm
    · rw [if_neg hk]
      exact (if_neg hk).trans (if_neg hk).symm

theorem clonedWeight_of_clone {i t : ItemId} (h : Item.clone srv w i = some (w', t)) :
    w'.getWeight t = w.clonedWeight srv i := by
  unfold World.clonedWeight
  rw [h]

/-- A clone depends on the item alone. -/
theorem clonedWeight_congr {i : ItemId} (h : w'.item i = w.item i) :
    w'.clonedWeight srv i = w.clonedWeight srv i := by
  unfold World.clonedWeight Item.clone Item.createItem
  rw [h]
  by_cases hzero : (w.item i).kind.id = 0
  · simp only [hzero, if_true]
  · simp only [hzero, if_false]
    cases srv.items.kind (createdKindId (w.item i).kind.id) with
    | none => rfl
    | some kind =>
      dsimp only
      by_cases hgroup : kind.group = .deprecated
      · simp only [hgroup, if_true]
      · simp only [hgroup, if_false, World.getWeight, World.setItem, World.create, if_true,
          Item.isStackable]

/-- The copies of what lies in a container, at whatever depth, weigh nothing. -/
def World.ClonesWeightless (srv : Server) (w : World) (i : ItemId) : Prop :=
  ∀ k, k = i ∨ w.Within (.container i) k → (w.item k).isContainer = true →
    ((w.item k).itemlist.map (w.clonedWeight srv)).sum = 0

/-- A clone that belongs to nothing; new containers remember what they hold. -/
structure Cloned (srv : Server) (w w' : World) (i t : ItemId) : Prop extends Grown w w' where
  nested : w'.Nested
  next_le_self : w.next ≤ t
  lt_next : t < w'.next
  parent : (w'.item t).parent = none
  weight : w'.getWeight t = w.clonedWeight srv i
  weighed : ∀ k, w.next ≤ k → w'.IsContainer k → w'.totalWeight k = w'.contentsWeight k

/-- A clone that has been given copies of the given weight so far. -/
structure Filling (srv : Server) (w v : World) (i t : ItemId) (sum : ℤ) : Prop extends
    Grown w v where
  nested : v.Nested
  eq_next : t = w.next
  container : v.IsContainer t
  parent : (v.item t).parent = none
  weight : v.getWeight t = w.clonedWeight srv i
  totalWeight_self : v.totalWeight t = 0
  contents : v.contentsWeight t = sum
  weighed : ∀ k, w.next ≤ k → k ≠ t → v.IsContainer k → v.totalWeight k = v.contentsWeight k

theorem grown_addItem {j x : ItemId} (hj : w.next ≤ j) (hx : w.next ≤ x) (h : Grown w w') :
    Grown w (Container.addItem w' j x) := by
  have hother (k : ItemId) (hk : k < w.next) : (Container.addItem w' j x).item k = w'.item k := by
    have hkj : k ≠ j := Nat.ne_of_lt (Nat.lt_of_lt_of_le hk hj)
    have hkx : k ≠ x := Nat.ne_of_lt (Nat.lt_of_lt_of_le hk hx)
    simp only [Container.addItem, World.setItemList, World.setParent, World.setItem, hkj, hkx,
      if_false]
  exact ⟨h.next_le, fun k hk => (hother k hk).trans (h.item k hk), h.totalWeight⟩

/-- One more copy. -/
theorem Filling.add {v v' : World} {i t c x : ItemId} {sum : ℤ} (h : Filling srv w v i t sum)
    (hc : c < w.next) (hclone : Cloned srv v v' c x) :
    Filling srv w (Container.addItem v' t x) i t (sum + w.clonedWeight srv c) := by
  have htv : t < v.next := h.container.2
  have hxt : x ≠ t := Nat.ne_of_gt (Nat.lt_of_lt_of_le htv hclone.next_le_self)
  have hitem := hclone.item t htv
  have hparent : (v'.item t).parent = none := by
    rw [hitem]
    exact h.parent
  have hcontainer : v'.IsContainer t := by
    refine ⟨?_, Nat.lt_of_lt_of_le htv hclone.next_le⟩
    rw [hitem]
    exact h.container.1
  have hinside : ¬ v'.Around t x := by
    rintro (heq | hin)
    · exact hxt heq
    · exact hin.parent_ne hparent
  have htx : w.next ≤ t := Nat.le_of_eq h.eq_next.symm
  have hx : w.next ≤ x := Nat.le_trans h.next_le hclone.next_le_self
  obtain ⟨hput, hsame⟩ := addItem_put (w := v') hxt
  have hgrown := h.toGrown.trans hclone.toGrown
  -- making the copy did not touch the container
  have hself : v'.getWeight t = v.getWeight t := by
    unfold World.getWeight
    rw [hitem, hclone.totalWeight t htv]
  constructor
  · exact grown_addItem htx hx hgrown
  · exact hclone.nested.put hput hclone.parent hclone.lt_next hcontainer hinside
  · exact h.eq_next
  · exact (IsContainer.of_same hput.isContainer hput.next).mpr hcontainer
  · rw [hput.others t (Ne.symm hxt)]
    exact hparent
  · rw [hsame.getWeight, hself]
    exact h.weight
  · rw [hsame.totalWeight, hclone.totalWeight t htv]
    exact h.totalWeight_self
  -- what it holds grows by the copy, while what it remembers stays 0
  · rw [hput.contentsWeight hsame, if_pos rfl, hclone.contentsWeight h.nested htv, h.contents,
      hclone.weight, clonedWeight_congr (h.item c hc)]
  · intro k hk hkt hk'
    have hk'' := (IsContainer.of_same hput.isContainer hput.next).mp hk'
    rw [hput.contentsWeight hsame, if_neg hkt, add_zero, hsame.totalWeight]
    by_cases hlt : k < v.next
    · rw [hclone.totalWeight k hlt, hclone.contentsWeight h.nested hlt]
      exact h.weighed k hk hkt (hclone.isContainer hlt hk'')
    · exact hclone.weighed k (Nat.le_of_not_lt hlt) hk''

/-- The loop of `Container::clone`, for a function that clones what is in the container. -/
theorem Filling.loop (clone : World → ItemId → Option (World × ItemId)) {i t : ItemId}
    {l : List ItemId} (hl : ∀ c ∈ l, c < w.next)
    (hclone : ∀ v v' c x, c ∈ l → Grown w v → v.Nested → clone v c = some (v', x) →
      Cloned srv v v' c x)
    {v v' : World} {sum : ℤ} (h : Filling srv w v i t sum)
    (hloop : l.foldlM (fun w it => (clone w it).map fun r => Container.addItem r.1 t r.2) v =
      some v') : Filling srv w v' i t (sum + (l.map (w.clonedWeight srv)).sum) := by
  -- on what is left to be copied
  induction l generalizing v sum with
  | nil =>
    cases hloop
    rw [List.map_nil, List.sum_nil, add_zero]
    exact h
  | cons c l ih =>
    rw [List.foldlM_cons] at hloop
    obtain ⟨v₁, hfirst, hrest⟩ := Option.bind_eq_some_iff.mp hloop
    obtain ⟨⟨u, x⟩, hcloned, hadded⟩ := Option.map_eq_some_iff.mp hfirst
    cases hadded
    have hc := hclone v u c x List.mem_cons_self h.toGrown h.nested hcloned
    have hadd := h.add (hl c List.mem_cons_self) hc
    have hlast := ih (fun d hd => hl d (List.mem_cons_of_mem c hd))
      (fun v v' d y hd => hclone v v' d y (List.mem_cons_of_mem c hd)) hadd hrest
    rw [List.map_cons, List.sum_cons, ← add_assoc]
    exact hlast

/-- What does not weigh anything when it is cloned does not later either. -/
theorem World.ClonesWeightless.grown {v : World} {c : ItemId} (h : w.ClonesWeightless srv c)
    (hw : w.Nested) (hv : v.Nested) (hgrown : Grown w v) (hc : c < w.next) :
    v.ClonesWeightless srv c := by
  intro k hk hcontainer
  have hk' : k = c ∨ w.Within (.container c) k :=
    hk.imp_right fun hin => hgrown.within hw hv hc hin
  have hlt : k < w.next := by
    rcases hk' with rfl | hin
    · exact hc
    · obtain ⟨place, hplace, -⟩ := hin.place
      exact hw.lt_next k place hplace
  have hitem := hgrown.item k hlt
  rw [hitem] at hcontainer ⊢
  rw [← h k hk' hcontainer]
  apply congrArg List.sum
  apply List.map_congr_left
  intro x hx
  have hx' : x < w.next := hw.lt_next x _ ((hw.mem_itemlist x k).mp hx)
  exact clonedWeight_congr (hgrown.item x hx')

/-- `Container::clone` of something whose contents weigh nothing. -/
theorem clone_cloned (n : ℕ) {i t : ItemId} (hw : w.Nested) (hi : i < w.next)
    (hlight : w.ClonesWeightless srv i) (h : Container.clone srv n w i = some (w', t)) :
    Cloned srv w w' i t := by
  -- on the depth of the recursion, for any world that has grown since
  induction n generalizing w w' i t with
  | zero => cases h
  | succ n ih =>
    unfold Container.clone at h
    split at h
    · cases h
    next w₁ tmp hclone =>
    obtain ⟨item, rfl, rfl, hparent, hlist⟩ := itemClone_create hclone
    have hfresh := hw.fresh hparent hlist
    have hweight := clonedWeight_of_clone hclone
    have hlt : w.next < (w.create item).next := Nat.lt_succ_self _
    by_cases hcontainer : (w.item i).isContainer = true
    · rw [if_pos hcontainer] at h
      by_cases hclass : ((w.create item).item w.next).isContainer = true
      · -- a container that is filled with copies
        rw [if_pos hclass] at h
        obtain ⟨v, hloop, hdone⟩ := Option.map_eq_some_iff.mp h
        cases hdone
        have hstart : Filling srv w (w.create item) i w.next 0 := by
          refine ⟨grown_create item, hfresh.nested, rfl, ⟨hclass, hlt⟩, hfresh.parent, hweight,
            totalWeight_create item, contentsWeight_create hlist, ?_⟩
          intro k hk hne hk'
          exact absurd (Nat.le_antisymm (Nat.le_of_lt_succ hk'.2) hk) hne
        have hmember {c : ItemId} (hc : c ∈ (w.item i).itemlist) :
            (w.item c).parent = some (.container i) := (hw.mem_itemlist c i).mp hc
        have hfilled := hstart.loop (Container.clone srv n)
          (fun c hc => hw.lt_next c _ (hmember hc)) (fun v v' c x hc hgrown hv hcloned => by
            have hc' : c < w.next := hw.lt_next c _ (hmember hc)
            have hin (k : ItemId) (hk : k = c ∨ w.Within (.container c) k) :
                w.Within (.container i) k := by
              rcases hk with rfl | hk
              · exact .thing (hmember hc)
              · exact hk.trans (.thing (hmember hc))
            have hlight' : w.ClonesWeightless srv c := fun k hk => hlight k (.inr (hin k hk))
            exact ih hv (Nat.lt_of_lt_of_le hc' hgrown.next_le)
              (hlight'.grown hw hv hgrown hc') hcloned) hloop
        have hsum := hlight i (.inl rfl) hcontainer
        refine ⟨hfilled.toGrown, hfilled.nested, Nat.le_refl _, hfilled.container.2,
          hfilled.parent, hfilled.weight, ?_⟩
        intro k hk hk'
        by_cases hself : k = w.next
        -- the copies weigh nothing, so remembering nothing is right
        · rw [hself, hfilled.totalWeight_self, hfilled.contents, hsum, add_zero]
        · exact hfilled.weighed k hk hself hk'
      · rw [if_neg hclass] at h
        cases h
    -- an item that is no container
    · rw [if_neg hcontainer] at h
      cases h
      refine ⟨grown_create item, hfresh.nested, Nat.le_refl _, hlt, hfresh.parent, hweight, ?_⟩
      intro k hk hk'
      have heq : k = w.next := Nat.le_antisymm (Nat.le_of_lt_succ hk'.2) hk
      rw [heq, totalWeight_create, contentsWeight_create hlist]

theorem World.Sound.clone (hw : w.Sound) {n : ℕ} {i t : ItemId} (hi : i < w.next)
    (hlight : w.ClonesWeightless srv i) (h : Container.clone srv n w i = some (w', t)) :
    w'.Sound := by
  have hcloned := clone_cloned n hw.nested hi hlight h
  exact hw.grown hcloned.toGrown hcloned.nested hcloned.weighed

/-! ## Everything inside -/

/-- The containers around an item lie in one another. -/
theorem World.Around.linear {x c d : ItemId} (hc : w.Around x c) (hd : w.Around x d) :
    w.Around c d ∨ w.Around d c := by
  rcases hc with rfl | hc
  · exact .inl hd
  rcases hd with rfl | hd
  · exact .inr (.inr hc)
  -- one step up from `x` is on the way to both
  induction hc with
  | thing hx => exact .inl (hd.around hx)
  | nested hx hy ih =>
    rcases hd.around hx with rfl | hd'
    · exact .inr (.inr hy)
    · exact ih hd'

open Classical in
/-- The items inside a container, at whatever depth. -/
noncomputable def World.within (w : World) (j : ItemId) : Finset ItemId :=
  (Finset.range w.next).filter fun i => w.Within (.container j) i

theorem mem_within (hw : w.Nested) {i j : ItemId} :
    i ∈ w.within j ↔ w.Within (.container j) i := by
  classical
  unfold World.within
  rw [Finset.mem_filter, Finset.mem_range]
  constructor
  · exact fun h => h.2
  · intro h
    obtain ⟨place, hplace, -⟩ := h.place
    exact ⟨hw.lt_next i place hplace, h⟩

/-- What is inside a container lies in it, or inside one of the things in it. -/
theorem within_eq (hw : w.Nested) (j : ItemId) :
    w.within j = (w.item j).itemlist.toFinset.biUnion fun c => insert c (w.within c) := by
  ext i
  rw [Finset.mem_biUnion, mem_within hw]
  constructor
  · intro h
    -- the outermost step decides which of the things it is
    induction h with
    | @thing i h =>
      exact ⟨i, List.mem_toFinset.mpr ((hw.mem_itemlist i j).mpr h), Finset.mem_insert_self i _⟩
    | @nested i k h _ ih =>
      obtain ⟨c, hc, hk⟩ := ih
      refine ⟨c, hc, Finset.mem_insert_of_mem ((mem_within hw).mpr ?_)⟩
      rcases Finset.mem_insert.mp hk with rfl | hk
      · exact .thing h
      · exact .nested h ((mem_within hw).mp hk)
  · rintro ⟨c, hc, hi⟩
    have hparent := (hw.mem_itemlist c j).mp (List.mem_toFinset.mp hc)
    rcases Finset.mem_insert.mp hi with rfl | hi
    · exact .thing hparent
    · exact ((mem_within hw).mp hi).trans (.thing hparent)

/-- Nothing is inside two of the things in a container. -/
theorem within_disjoint (hw : w.Nested) {j c d : ItemId} (hc : c ∈ (w.item j).itemlist)
    (hd : d ∈ (w.item j).itemlist) (hne : c ≠ d) :
    Disjoint (insert c (w.within c)) (insert d (w.within d)) := by
  have hparent_c := (hw.mem_itemlist c j).mp hc
  have hparent_d := (hw.mem_itemlist d j).mp hd
  rw [Finset.disjoint_left]
  intro x hxc hxd
  have haround {e : ItemId} (he : x ∈ insert e (w.within e)) : w.Around x e := by
    rcases Finset.mem_insert.mp he with rfl | he
    · exact .inl rfl
    · exact .inr ((mem_within hw).mp he)
  -- one of them would be inside the other, and the container inside itself
  rcases (haround hxc).linear (haround hxd) with (heq | hin) | (heq | hin)
  · exact hne heq.symm
  · exact not_around_of_mem hw hd (hin.around hparent_c)
  · exact hne heq
  · exact not_around_of_mem hw hc (hin.around hparent_d)

theorem within_empty (hw : w.Nested) {j : ItemId} (hj : (w.item j).isContainer = false) :
    w.within j = ∅ := by
  rw [Finset.eq_empty_iff_forall_notMem]
  intro i hi
  have hcontainer := (((mem_within hw).mp hi).container hw).1
  rw [hj] at hcontainer
  cases hcontainer

theorem within_card_lt (hw : w.Nested) {j c : ItemId} (hc : c ∈ (w.item j).itemlist) :
    (w.within c).card < (w.within j).card := by
  have hparent := (hw.mem_itemlist c j).mp hc
  apply Finset.card_lt_card
  constructor
  · intro i hi
    exact (mem_within hw).mpr (((mem_within hw).mp hi).trans (.thing hparent))
  · intro hsub
    have hself := hsub ((mem_within hw).mpr (.thing hparent))
    exact hw.acyclic c ((mem_within hw).mp hself)

/-- A container that remembers the weight of what is directly inside it, as the containers in it do,
weighs as much as it does itself and all that is inside it. -/
theorem World.Sound.getWeight_eq (hw : w.Sound) {j : ItemId} (hj : w.IsContainer j) :
    w.getWeight j = w.ownWeight j + ∑ i ∈ w.within j, w.ownWeight i := by
  have hnested := hw.nested
  -- on the number of items inside
  induction hn : (w.within j).card using Nat.strongRecOn generalizing j with
  | ind n ih =>
    subst hn
    have hchild (c : ItemId) (hc : c ∈ (w.item j).itemlist) :
        w.getWeight c = ∑ i ∈ insert c (w.within c), w.ownWeight i := by
      have hnot : c ∉ w.within c := fun h => hnested.acyclic c ((mem_within hnested).mp h)
      rw [Finset.sum_insert hnot]
      by_cases hcontainer : (w.item c).isContainer = true
      · have hlt : c < w.next := hnested.lt_next c _ ((hnested.mem_itemlist c j).mp hc)
        exact ih _ (within_card_lt hnested hc) ⟨hcontainer, hlt⟩ rfl
      · have hempty := within_empty hnested (Bool.eq_false_of_not_eq_true hcontainer)
        rw [World.getWeight_eq, if_neg hcontainer, hempty, Finset.sum_empty]
    calc w.getWeight j
        = w.ownWeight j + w.contentsWeight j := by
          rw [World.getWeight_eq, if_pos hj.1, hw.weighed j hj]
      _ = w.ownWeight j + ((w.item j).itemlist.map fun c =>
            ∑ i ∈ insert c (w.within c), w.ownWeight i).sum := by
          unfold World.contentsWeight
          rw [List.map_congr_left hchild]
      _ = w.ownWeight j + ∑ c ∈ (w.item j).itemlist.toFinset,
            ∑ i ∈ insert c (w.within c), w.ownWeight i := by
          rw [List.sum_toFinset _ (hnested.nodup j)]
      _ = w.ownWeight j + ∑ i ∈ w.within j, w.ownWeight i := by
          rw [within_eq hnested j, Finset.sum_biUnion]
          intro c hc d hd hne
          exact within_disjoint hnested (List.mem_toFinset.mp (Finset.mem_coe.mp hc))
            (List.mem_toFinset.mp (Finset.mem_coe.mp hd)) hne

/-! ## Runs -/

/-- The operations on items and containers; a container may also be laid on a tile or given to a
player. -/
inductive WeightAction where
  | createItem (kindId : KindId) (amount : ℕ)
  | place (item : ItemId) (parent : Option Cylinder)
  | loadItem (j item : ItemId)
  | addThing (j : ItemId) (index : ℤ) (item : ItemId)
  | updateThing (j item : ItemId) (kindId : KindId) (count : ℕ)
  | replaceThing (j : ItemId) (index : ℕ) (item : ItemId)
  | removeThing (j item : ItemId) (count : ℕ)
  | internalAddThing (j item : ItemId)
  | clone (item : ItemId)

/-- Not one of the containers. -/
def NoContainer (parent : Option Cylinder) : Prop :=
  ∀ j, parent ≠ some (.container j)

/-- Runs from no items at all.  Only items that lie nowhere are added to a container, and never to
one inside them; the loops over parents are followed to their end. -/
def containerWeights (srv : Server) : System World WeightAction where
  init w := w.next = 0 ∧ ∀ i, (w.item i).parent = none ∧ (w.item i).itemlist = []
  step w a w' :=
    let loops := { srv with loopBound := w.next + 2 }
    match a with
    | .createItem kindId amount => ∃ i, Item.createItem srv w kindId amount = some (w', i)
    | .place item parent => item < w.next ∧ NoContainer (w.item item).parent ∧
        NoContainer parent ∧ w' = w.setParent item parent
    | .loadItem j item => w.MayPut item j ∧ w' = Container.loadItem loops w j item
    | .addThing j index item => w.MayPut item j ∧ w' = Container.addThing loops w j index item
    | .updateThing j item kindId count => w' = Container.updateThing loops w j item kindId count
    | .replaceThing j index item =>
        w.MayPut item j ∧ w' = Container.replaceThing loops w j index item
    | .removeThing j item count => w' = Container.removeThing loops w j item count
    | .internalAddThing j item => w.MayPut item j ∧ w' = Container.internalAddThing loops w j item
    | .clone item => item < w.next ∧ ∃ n t, Container.clone srv n w item = some (w', t)

/-- The step clones nothing whose contents weigh something. -/
def WeightlessClones (srv : Server) (w : World) : WeightAction → Prop
  | .clone item => w.ClonesWeightless srv item
  | _ => True

theorem World.Sound.place (hw : w.Sound) {i : ItemId} {parent : Option Cylinder} (hi : i < w.next)
    (hold : NoContainer (w.item i).parent) (hnew : NoContainer parent) :
    (w.setParent i parent).Sound := by
  have hsame := sameWeights_setParent (w := w) i parent
  have hother (k : ItemId) (hk : k ≠ i) : (w.setParent i parent).item k = w.item k := if_neg hk
  have hself : ((w.setParent i parent).item i).parent = parent := by
    simp only [World.setParent, World.setItem, if_true]
  have hlist (k : ItemId) : ((w.setParent i parent).item k).itemlist = (w.item k).itemlist := by
    by_cases hk : k = i
    · simp only [World.setParent, World.setItem, hk, if_true]
    · rw [hother k hk]
  have hclass (k : ItemId) : ((w.setParent i parent).item k).isContainer =
      (w.item k).isContainer := by
    by_cases hk : k = i
    · simp only [World.setParent, World.setItem, hk, if_true]
    · rw [hother k hk]
  have hlink (x j : ItemId) : ((w.setParent i parent).item x).parent = some (.container j) ↔
      (w.item x).parent = some (.container j) := by
    by_cases hx : x = i
    · rw [hx, hself]
      exact iff_of_false (hnew j) (hold j)
    · rw [hother x hx]
  have hnested : (w.setParent i parent).Nested := by
    constructor
    · intro x j
      rw [hlist, hlink]
      exact hw.nested.mem_itemlist x j
    · intro j
      rw [hlist]
      exact hw.nested.nodup j
    · intro x c hx
      by_cases hxi : x = i
      · rw [hxi]
        exact hi
      · rw [hother x hxi] at hx
        exact hw.nested.lt_next x c hx
    · intro x j hx
      rw [hclass]
      exact hw.nested.container x j ((hlink x j).mp hx)
    -- no link between containers has come or gone
    · have hdown {j x : ItemId} (h : (w.setParent i parent).Within (.container j) x) :
          w.Within (.container j) x := by
        induction h with
        | thing h => exact .thing ((hlink _ _).mp h)
        | nested h _ ih => exact .nested ((hlink _ _).mp h) ih
      exact fun j hj => hw.nested.acyclic j (hdown hj)
  refine ⟨hnested, fun j hj => ?_⟩
  have hcontents : (w.setParent i parent).contentsWeight j = w.contentsWeight j := by
    unfold World.contentsWeight
    rw [hlist, funext hsame.getWeight]
  rw [hsame.totalWeight, hcontents]
  exact hw.weighed j ((IsContainer.of_same hclass rfl).mp hj)

/-- One step keeps the containers nested and their weights right. -/
theorem containerWeights_step {a : WeightAction} (hw : w.Sound)
    (hclones : WeightlessClones srv w a)
    (h : (containerWeights srv).step w a w') : w'.Sound := by
  cases a with
  | createItem kindId amount =>
    obtain ⟨i, hcreate⟩ := h
    obtain ⟨item, rfl, -, hparent, hlist⟩ := createItem_create hcreate
    exact hw.create hparent hlist
  | place item parent =>
    obtain ⟨hi, hold, hnew, rfl⟩ := h
    exact hw.place hi hold hnew
  | loadItem j item =>
    obtain ⟨hmay, rfl⟩ := h
    exact hw.loadItem rfl hmay
  | addThing j index item =>
    obtain ⟨hmay, rfl⟩ := h
    exact hw.addThing rfl hmay index
  | updateThing j item kindId count =>
    cases h
    exact hw.updateThing rfl item j kindId count
  | replaceThing j index item =>
    obtain ⟨hmay, rfl⟩ := h
    exact hw.replaceThing rfl hmay index
  | removeThing j item count =>
    cases h
    exact hw.removeThing rfl item j count
  | internalAddThing j item =>
    obtain ⟨hmay, rfl⟩ := h
    exact hw.internalAddThing rfl hmay
  | clone item =>
    obtain ⟨hi, n, t, hclone⟩ := h
    exact hw.clone hi hclones hclone

variable (srv) in
theorem sound_init (h : (containerWeights srv).init w) : w.Sound := by
  obtain ⟨hnext, hblank⟩ := h
  have hnone {i : ItemId} {c : Cylinder} (hi : (w.item i).parent = some c) : False := by
    rw [(hblank i).1] at hi
    cases hi
  refine ⟨⟨?_, ?_, fun i c hi => (hnone hi).elim, fun i j hi => (hnone hi).elim, ?_⟩, ?_⟩
  · intro i j
    rw [(hblank j).2, (hblank i).1]
    exact iff_of_false List.not_mem_nil nofun
  · intro j
    rw [(hblank j).2]
    exact List.nodup_nil
  · intro j hj
    exact hj.parent_ne (hblank j).1
  · intro j hj
    have hlt := hj.2
    rw [hnext] at hlt
    exact absurd hlt (Nat.not_lt_zero j)

/-- Where no step clones a container with something weighty in it, every container remembers the
weight of the items directly inside it, and so weighs what it does itself and all inside it. -/
theorem containerWeights_exact
    (h : ((containerWeights srv).restrict (WeightlessClones srv)).Reachable w) :
    ∀ j, w.IsContainer j →
      w.totalWeight j = ((w.item j).itemlist.map w.getWeight).sum ∧
      w.getWeight j = w.ownWeight j + ∑ i ∈ w.within j, w.ownWeight i := by
  have hw : w.Sound := by
    apply h.invariant World.Sound
    · exact fun w hinit => sound_init srv hinit
    · exact fun w a w' hw hstep => containerWeights_step hw hstep.1 hstep.2
  exact fun j hj => ⟨hw.weighed j hj, hw.getWeight_eq hj⟩

namespace SmallWorld

def anvil : ItemKind := { id := 2000, weight := 300, pickupable := true }

def noItems : World := World.ofLists [] [] []

def bagMade : World := noItems.create (Item.new bag 0)
def anvilMade : World := bagMade.create (Item.new anvil 0)

/-- The anvil is put into the bag. -/
def anvilInBag : World :=
  Container.addThing { server [bag, anvil] with loopBound := 4 } anvilMade 0 0 1

theorem anvil_mayPut : anvilMade.MayPut 1 0 := by
  refine ⟨⟨by decide, by decide⟩, by decide, rfl, ?_⟩
  rintro (heq | hin)
  · cases heq
  · exact hin.parent_ne rfl

theorem anvilInBag_reachable : ((containerWeights (server [bag, anvil])).restrict
    (WeightlessClones (server [bag, anvil]))).Reachable anvilInBag := by
  have hnone : ((containerWeights (server [bag, anvil])).restrict
      (WeightlessClones (server [bag, anvil]))).Reachable noItems :=
    .init ⟨rfl, fun i => ⟨rfl, rfl⟩⟩
  have hbag := hnone.step (a := WeightAction.createItem 1987 0) (t := bagMade) ⟨trivial, 0, rfl⟩
  have hanvil := hbag.step (a := WeightAction.createItem 2000 0) (t := anvilMade) ⟨trivial, 1, rfl⟩
  exact hanvil.step (a := WeightAction.addThing 0 0 1) ⟨trivial, anvil_mayPut, rfl⟩

end SmallWorld

open SmallWorld in
theorem containerWeights_exact_anvil :
    anvilInBag.totalWeight 0 = ((anvilInBag.item 0).itemlist.map anvilInBag.getWeight).sum ∧
      anvilInBag.totalWeight 0 = 300 :=
  ⟨(containerWeights_exact anvilInBag_reachable 0 ⟨by decide, by decide⟩).1, by decide⟩

open SmallWorld in
/-- A clone of the bag holds a copy of the anvil and remembers no weight. -/
theorem containerWeights_not_exact :
    ¬ ∀ w, (containerWeights (server [bag, anvil])).Reachable w → ∀ j, w.IsContainer j →
      w.totalWeight j = ((w.item j).itemlist.map w.getWeight).sum := by
  intro h
  obtain ⟨⟨w, t⟩, hclone⟩ := Option.isSome_iff_exists.mp
    (show (Container.clone (server [bag, anvil]) 2 anvilInBag 0).isSome by decide)
  -- item 2 is the new bag
  have hreach := anvilInBag_reachable.of_restrict.step (a := WeightAction.clone 0) (t := w)
    ⟨by decide, 2, t, hclone⟩
  have hclass : (Container.clone (server [bag, anvil]) 2 anvilInBag 0).map (fun r =>
      decide ((r.1.item 2).isContainer = true ∧ 2 < r.1.next)) = some true := by decide
  have hweights : (Container.clone (server [bag, anvil]) 2 anvilInBag 0).map (fun r =>
      decide (r.1.totalWeight 2 = ((r.1.item 2).itemlist.map r.1.getWeight).sum)) =
        some false := by decide
  rw [hclone] at hclass hweights
  have hcontainer := of_decide_eq_true (Option.some.inj hclass)
  exact of_decide_eq_false (Option.some.inj hweights) (h w hreach 2 hcontainer)

end TyanoCore
