import Mathlib.Data.List.Forall2
import TyanoCore.FileLoader
import TyanoCore.StoredItem

/-!
# Items of the map

The loader of the map makes an item of each item node of a tile and leaves the rest of the node to
`unserializeItemNode`.  `Container` has a function of this name that reads the nodes below, but it takes
a `NODE`, so it is not the one that is called for a `const NodeStruct*` through an item.
-/

namespace TyanoCore

open PropStream StoredItem

/-- `OTBM_ITEM`. -/
def otbmItem : ℕ := 6

/-! ## The virtual call -/

/-- How an `unserializeItemNode` takes its node. -/
inductive NodeParameter where
  | constNodeStruct
  | node
deriving DecidableEq

namespace CreatedClass

/-- A class with its base classes, up to `Item`. -/
def lineage : CreatedClass → List CreatedClass
  | .item => [.item]
  | .depot => [.depot, .container, .item]
  | c => [c, .item]

/-- The declarations of `unserializeItemNode`. -/
def declares : CreatedClass → Option NodeParameter
  | .item => some .constNodeStruct
  | .container => some .node
  | _ => none

/-- The class whose function is called through an `Item*`: the first one that declares it with the
parameters that it has in `Item`. -/
def overrider (c : CreatedClass) : CreatedClass :=
  (c.lineage.find? fun base => base.declares = declares .item).getD .item

end CreatedClass

/-! ## Loading -/

/-- What loading the map asks elsewhere. -/
structure MapSource where
  kinds : KindId → Option StoredKind
  /-- `getRandomizedKindId`, at a node. -/
  randomized : NodeStruct → KindId → KindId
  getNameByGuid : ℕ → Option (List UInt8)
  /-- `getProps`. -/
  props : NodeStruct → PropStream

/-- An item with its `getWeight()`. -/
abbrev LoadedItem := ItemTree × ℤ

namespace MapSource

variable (src : MapSource)

/-- `Item::CreateItem` from the properties of a node, and the properties that are left. -/
def createItem (node : NodeStruct) : Option (StoredItem × PropStream) :=
  match getUShort (src.props node) with
  | (none, _) => none
  | (some type, s) =>
    (StoredItem.createItem src.kinds (src.randomized node type) 0).map fun item => (item, s)

/-- `Item::unserializeItemNode`. -/
def itemUnserialize (item : StoredItem) (s : PropStream) : Option StoredItem :=
  match item.unserializeAttr src.getNameByGuid s with
  | (true, item, _) => some item
  | (false, _, _) => none

/-- An item is created and unserialized; `contents` is what `Container::unserializeItemNode` puts into
it after `Item`'s. -/
def loadItemNode (contents : Option (List LoadedItem)) (node : NodeStruct) : Option LoadedItem := do
  let (item, s) ← src.createItem node
  let item ← src.itemUnserialize item s
  let contents ← if item.kind.createdClass.overrider = .container then contents else some []
  return (.node item (contents.map Prod.fst), item.getWeight + (contents.map Prod.snd).sum)

/-- The loop of `Container::unserializeItemNode` over a node and those that follow it. -/
def containerNodes : NodeStruct → Option (List LoadedItem)
  | .null => some []
  | .node start propsSize type next child => do
    if type ≠ otbmItem then none
    else
      let item ← src.loadItemNode (containerNodes child) (.node start propsSize type next child)
      let items ← containerNodes next
      return item :: items

/-- The loop of `loadMap` over the nodes of a tile; nodes of other types are passed over. -/
def tileNodes : NodeStruct → Option (List LoadedItem)
  | .null => some []
  | .node start propsSize type next child => do
    if type = otbmItem then
      let item ← src.loadItemNode (src.containerNodes child) (.node start propsSize type next child)
      let items ← tileNodes next
      return item :: items
    else tileNodes next

end MapSource

/-! ## What the nodes denote -/

def NodeStruct.child : NodeStruct → NodeStruct
  | .null => .null
  | .node _ _ _ _ child => child

/-- The item nodes of a tile. -/
def NodeStruct.itemNodes : NodeStruct → List NodeStruct
  | .null => []
  | .node start propsSize type next child =>
    if type = otbmItem then .node start propsSize type next child :: next.itemNodes
    else next.itemNodes

namespace MapSource

variable (src : MapSource)

/-- The item of a node: its kind is valid and its attributes can be read. -/
def ItemOf (node : NodeStruct) (item : StoredItem) : Prop :=
  ∃ created s, src.createItem node = some (created, s) ∧ src.itemUnserialize created s = some item

/-- A node and those that follow it are trees of valid item nodes. -/
def Denotes : NodeStruct → Prop
  | .null => True
  | .node start propsSize type next child =>
    type = otbmItem ∧ (∃ item, src.ItemOf (.node start propsSize type next child) item) ∧
      Denotes child ∧ Denotes next

/-- The items are those of a node and of the ones that follow it, in order, and contain those of the
nodes below. -/
def Mirrors : NodeStruct → List ItemTree → Prop
  | .null, items => items = []
  | .node start propsSize type next child, items =>
    ∃ item contents rest, items = .node item contents :: rest ∧
      src.ItemOf (.node start propsSize type next child) item ∧ Mirrors child contents ∧
        Mirrors next rest

end MapSource

/-- The weight of an item with everything in it. -/
def ItemTree.weight : ItemTree → ℤ :=
  OrderedTree.fold fun item weights => item.getWeight + weights.sum

/-- An item contains what the nodes below its node denote and weighs as much as all of it. -/
def MapSource.Complete (src : MapSource) (node : NodeStruct) (loaded : LoadedItem) : Prop :=
  src.Mirrors node.child loaded.1.children ∧ loaded.2 = ItemTree.weight loaded.1

namespace MapSource

variable {src : MapSource}

/-- No class overrides the function of `Item`. -/
theorem overrider_eq (c : CreatedClass) : c.overrider = .item := by
  cases c <;> rfl

theorem loadItemNode_eq {node : NodeStruct} {item : StoredItem} (h : src.ItemOf node item)
    (contents : Option (List LoadedItem)) :
    src.loadItemNode contents node = some (.node item [], item.getWeight) := by
  obtain ⟨created, s, hcreate, hitem⟩ := h
  have hother : ¬ item.kind.createdClass.overrider = .container := by
    rw [overrider_eq]
    decide
  have hweight : item.getWeight + ([] : List ℤ).sum = item.getWeight := Int.add_zero _
  simp only [loadItemNode, hcreate, hitem, if_neg hother, Option.bind_eq_bind, Option.bind_some,
    Option.pure_def, List.map_nil, hweight]

theorem complete_iff {node : NodeStruct} {item : StoredItem} :
    src.Complete node (.node item [], item.getWeight) ↔ node.child = .null := by
  have hweight : item.getWeight = ItemTree.weight (.node item []) := (Int.add_zero _).symm
  unfold Complete
  cases hchild : node.child with
  | null => exact ⟨fun _ => rfl, fun _ => ⟨rfl, hweight⟩⟩
  | node start propsSize type next child =>
    constructor
    · rintro ⟨⟨_, _, _, hcons, -⟩, -⟩
      cases hcons
    · intro h
      cases h

/-- Every item node of the tile makes an item, and the item is complete exactly where its node has no
nodes below. -/
theorem tileNodes_complete_iff (nodes : NodeStruct)
    (h : ∀ node ∈ nodes.itemNodes, (∃ item, src.ItemOf node item) ∧ src.Denotes node.child) :
    ∃ items, src.tileNodes nodes = some items ∧
      List.Forall₂ (fun node loaded => src.Complete node loaded ↔ node.child = .null)
        nodes.itemNodes items := by
  induction nodes with
  | null => exact ⟨[], rfl, .nil⟩
  | node start propsSize type next child ihnext _ =>
    unfold tileNodes
    by_cases htype : type = otbmItem
    · have hnodes : (NodeStruct.node start propsSize type next child).itemNodes =
          .node start propsSize type next child :: next.itemNodes := if_pos htype
      rw [hnodes] at h ⊢
      obtain ⟨item, hitem⟩ := (h _ List.mem_cons_self).1
      obtain ⟨items, hitems, hall⟩ := ihnext fun node hnode => h node (List.mem_cons_of_mem _ hnode)
      refine ⟨(.node item [], item.getWeight) :: items, ?_, .cons complete_iff hall⟩
      rw [if_pos htype, loadItemNode_eq hitem, hitems]
      rfl
    · have hnodes : (NodeStruct.node start propsSize type next child).itemNodes =
          next.itemNodes := if_neg htype
      rw [hnodes] at h ⊢
      rw [if_neg htype]
      exact ihnext h

/-- A backpack node with a node for another backpack below it. -/
def backpackNode : NodeStruct := .node 0 2 otbmItem .null (.node 5 2 otbmItem .null .null)

def backpackSource : MapSource where
  kinds id := if id = 1988 then some { id := 1988, group := .container, weight := 1800 } else none
  randomized _ id := id
  getNameByGuid _ := none
  props _ := [0xC4, 0x07]

theorem backpack_incomplete : ∃ loaded, backpackSource.tileNodes backpackNode = some [loaded] ∧
    backpackSource.Denotes backpackNode ∧ ¬ backpackSource.Complete backpackNode loaded := by
  have hitem (node : NodeStruct) :
      backpackSource.ItemOf node (.construct { id := 1988, group := .container, weight := 1800 } 0) :=
    ⟨_, _, rfl, rfl⟩
  refine ⟨_, rfl, ⟨rfl, ⟨_, hitem _⟩, ⟨rfl, ⟨_, hitem _⟩, trivial, trivial⟩, trivial⟩, ?_⟩
  intro hcomplete
  have hchild := complete_iff.mp hcomplete
  cases hchild

theorem tileNodes_complete_iff_backpack :
    ∃ items, backpackSource.tileNodes (.node 5 2 otbmItem .null .null) = some items ∧
      List.Forall₂ (fun node loaded => backpackSource.Complete node loaded ↔ node.child = .null)
        [.node 5 2 otbmItem .null .null] items := by
  apply @tileNodes_complete_iff backpackSource (.node 5 2 otbmItem .null .null)
  intro node hnode
  rw [List.mem_singleton.mp hnode]
  exact ⟨⟨_, _, _, rfl, rfl⟩, trivial⟩

end MapSource

end TyanoCore
