import TyanoCore.MapItems
import Mathlib.Data.List.Sort

/-!
# Items of players

The rows in which `IOLoginData::saveItems` saves what a player carries or has in depots, and the loops of
`loadPlayer` that put the items of the rows together again.  Items point to each other, so they are
known by the ids of their rows.  The running ids are not bounded.
-/

namespace TyanoCore

/-- A row of `player_items` or `player_depotitems`, with the item that is created from it. -/
structure ItemRow where
  pid : ℕ
  sid : ℕ
  item : StoredItem
deriving DecidableEq

def ItemTree.size : ItemTree → ℕ := OrderedTree.fold fun _ sizes => 1 + sizes.sum

/-- `itemMap[sid] = ...`; the map is kept as a list in the order of the ids. -/
def putItem (itemMap : List ItemRow) (row : ItemRow) : List ItemRow :=
  (itemMap.filter fun r => r.sid ≠ row.sid).orderedInsert (fun a b => a.sid ≤ b.sid) row

/-- `IOLoginData::loadItems`. -/
def loadItems (rows : List ItemRow) : List ItemRow := rows.foldl putItem []

/-- An item that has been loaded; the items in it and the one that it is in by their ids. -/
structure LoadedNode where
  item : StoredItem
  itemlist : List ℕ := []
  totalWeight : ℤ := 0
  parent : Option ℕ := none

/-- The items of the map, and those that have been put into slots or depots. -/
structure Rebuild where
  node : ℕ → Option LoadedNode
  root : ℕ → Option ℕ

namespace Rebuild

variable (r : Rebuild)

def modify (id : ℕ) (f : LoadedNode → LoadedNode) : Rebuild :=
  { r with node := fun i => if i = id then (r.node i).map f else r.node i }

def getWeight (id : ℕ) : ℤ :=
  match r.node id with
  | none => 0
  | some node => node.item.getWeight + node.totalWeight

def getParentContainer (id : ℕ) : Option ℕ := (r.node id).bind LoadedNode.parent

/-- `Container::updateItemWeight`, for no more than a number of containers inside each other. -/
def updateItemWeight : ℕ → Rebuild → ℕ → ℤ → Rebuild
  | 0, r, _, _ => r
  | bound + 1, r, id, diff =>
    let r := r.modify id fun node => { node with totalWeight := node.totalWeight + diff }
    match r.getParentContainer id with
    | none => r
    | some parent => updateItemWeight bound r parent diff

/-- `Container::__internalAddThing`. -/
def internalAddThing (bound : ℕ) (container item : ℕ) : Rebuild :=
  let r := r.modify container fun node => { node with itemlist := item :: node.itemlist }
  let r := r.modify item fun node => { node with parent := some container }
  r.updateItemWeight (bound + 1) container (r.getWeight item)

/-- `Player::__internalAddThing` or `addDepot`: what is taken stays. -/
def addRoot (pid sid : ℕ) : Rebuild :=
  if r.root pid = none then { r with root := fun i => if i = pid then some sid else r.root i } else r

/-- What the loops of `loadPlayer` do with an entry of the map; `isRoot` tells the slots or depots from
other ids, and `accepts` what may be put there. -/
def attach (isRoot : ℕ → Bool) (accepts : StoredItem → Bool) (bound : ℕ) (r : Rebuild)
    (row : ItemRow) : Rebuild :=
  if isRoot row.pid then
    if accepts row.item then r.addRoot row.pid row.sid else r
  else match r.node row.pid with
  | none => r
  | some container =>
    if container.item.isContainer then r.internalAddThing bound row.pid row.sid else r

/-- The items of the map before they are put together. -/
def start (itemMap : List ItemRow) : Rebuild where
  node id := (itemMap.find? fun row => row.sid = id).map fun row => { item := row.item }
  root _ := none

/-- The loops of `loadPlayer`, from the end of the map. -/
def run (isRoot : ℕ → Bool) (accepts : StoredItem → Bool) (itemMap : List ItemRow) : Rebuild :=
  itemMap.reverse.foldl (attach isRoot accepts itemMap.length) (start itemMap)

end Rebuild

/-- The rows of the items in an item. -/
def rowsIn (rows : List ItemRow) (id : ℕ) : List ItemRow := rows.filter fun row => row.pid = id

/-- A row is about the item at the top of a tree, and the rows that refer to it are, in their order,
about the trees below. -/
def About (rows : List ItemRow) : ItemTree → ItemRow → Prop :=
  OrderedTree.fold fun item contents row =>
    row.item = item ∧ List.Forall₂ (fun about row' => about row') contents
      (rowsIn rows row.sid)

theorem about_node {rows : List ItemRow} {item : StoredItem} {contents : List ItemTree}
    {row : ItemRow} : About rows (.node item contents) row ↔
      row.item = item ∧ List.Forall₂ (About rows) contents (rowsIn rows row.sid) := by
  rw [About, OrderedTree.fold_node, List.forall₂_map_left_iff]

theorem mem_rowsIn {rows : List ItemRow} {id : ℕ} {row : ItemRow} :
    row ∈ rowsIn rows id ↔ row ∈ rows ∧ row.pid = id := by
  rw [rowsIn, List.mem_filter, decide_eq_true_iff]

theorem rowsIn_append (rows rows' : List ItemRow) (id : ℕ) :
    rowsIn (rows ++ rows') id = rowsIn rows id ++ rowsIn rows' id := List.filter_append _ _

theorem rowsIn_eq_nil {rows : List ItemRow} {id : ℕ} (h : ∀ row ∈ rows, row.pid ≠ id) :
    rowsIn rows id = [] := by
  rw [rowsIn, List.filter_eq_nil_iff]
  intro row hrow
  rw [decide_eq_true_iff]
  exact h row hrow

theorem forall₂_imp_of_mem {α β : Type*} {R S : α → β → Prop} {l₁ : List α} {l₂ : List β}
    (h : List.Forall₂ R l₁ l₂) (himp : ∀ a ∈ l₁, ∀ b ∈ l₂, R a b → S a b) :
    List.Forall₂ S l₁ l₂ := by
  rw [List.forall₂_iff_zip] at h ⊢
  refine ⟨h.1, fun {a b} hab => ?_⟩
  obtain ⟨ha, hb⟩ := List.of_mem_zip hab
  exact himp a ha b hb (h.2 hab)

/-- Rows that refer to earlier ids do not matter for what comes later. -/
theorem About.append {rows rows' : List ItemRow} {n : ℕ} (hlt : ∀ row ∈ rows, row.pid < n)
    (hge : ∀ row ∈ rows', n ≤ row.sid) {t : ItemTree} {row : ItemRow} (hrow : n ≤ row.sid)
    (h : About rows' t row) : About (rows ++ rows') t row := by
  induction t using OrderedTree.induct generalizing row with
  | h item contents ih =>
    rw [about_node] at h ⊢
    have hnone : rowsIn rows row.sid = [] := by
      apply rowsIn_eq_nil
      intro row' hrow'
      have := hlt row' hrow'
      omega
    rw [rowsIn_append, hnone, List.nil_append]
    refine ⟨h.1, ?_⟩
    apply forall₂_imp_of_mem h.2
    intro t ht row' hrow' habout
    exact ih t ht (hge row' (mem_rowsIn.mp hrow').1) habout

/-! ## What is saved -/

section Each

variable {blocks : List ItemBlock} {n : ℕ}

variable {stackList : List (ItemTree × ℕ)} {rows : List ItemRow}

end Each

theorem ItemTree.size_eq (t : ItemTree) : t.size = 1 + (t.children.map ItemTree.size).sum := by
  obtain ⟨item, contents⟩ := t
  exact OrderedTree.fold_node _ _ _

end TyanoCore
