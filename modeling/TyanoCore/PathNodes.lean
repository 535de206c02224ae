import Mathlib.Data.List.Basic
import Mathlib.Logic.Function.Basic
import TyanoCore.Frontier
import TyanoCore.Position

/-!
# The nodes of a path search

The pool of nodes that the two path searches of the map share, and what following the neighbours of a
node does to it.  Only the nodes below `curNode` are in use; they hold different places, and each but
the first has a parent next to it that is cheaper to get to.
-/

namespace TyanoCore

/-- The members of a position, which need not be on the map. -/
structure Coordinates where
  x : ℕ
  y : ℕ
  z : ℕ
  deriving DecidableEq

def Position.coordinates (p : Position) : Coordinates := ⟨p.x, p.y, p.z⟩

/-- What the searches ask of a tile: whether `testAddCreature` accepts the creature, whether the
creature sees another one on it and whether it has a field that harms the creature. -/
structure PathTile where
  accepts : Bool
  topVisibleCreature : Bool
  harmfulField : Bool

/-- A map and where the creature stands on it. -/
structure PathMap where
  position : Position
  tiles : Coordinates → Option PathTile

namespace PathMap

/-- `Map::getTile`. -/
def getTile (map : PathMap) (p : Coordinates) : Option PathTile :=
  if Position.maxX < p.x ∨ Position.maxY < p.y ∨ Position.maxZ < p.z then none else map.tiles p

/-- `Map::canWalkTo`; the tile is that of the creature where the position is. -/
def canWalkTo (map : PathMap) (destination : Coordinates) : Bool :=
  destination = map.position.coordinates ||
    match map.getTile destination with
    | none => false
    | some tile => tile.accepts

end PathMap

def mapNormalWalkCost : ℕ := 10
def mapDiagonalWalkCost : ℕ := 25
def maxNodes : ℕ := 512

structure AStarNode where
  x : ℕ
  y : ℕ
  parent : Option ℕ
  f : ℕ
  g : ℕ
  h : ℕ

namespace AStarNode

def place (node : AStarNode) : ℕ × ℕ := (node.x, node.y)

end AStarNode

structure AStarNodes where
  nodes : ℕ → AStarNode
  openNodes : ℕ → Bool
  curNode : ℕ

namespace AStarNodes

/-- `createOpenNode`. -/
def createOpenNode (nodes : AStarNodes) : Option (ℕ × AStarNodes) :=
  if maxNodes ≤ nodes.curNode then none
  else
    let retNode := nodes.curNode
    some (retNode,
      { nodes with curNode := nodes.curNode + 1
                   openNodes := Function.update nodes.openNodes retNode true })

/-- A round of `getBestNode`, with the `f` of the best node so far. -/
def better (nodes : AStarNodes) (best : ℕ × Option ℕ) (i : ℕ) : ℕ × Option ℕ :=
  if (nodes.nodes i).f < best.1 ∧ nodes.openNodes i = true then ((nodes.nodes i).f, some i) else best

/-- `getBestNode`. -/
def getBestNode (nodes : AStarNodes) : Option ℕ :=
  ((List.range nodes.curNode).foldl nodes.better (100000, none)).2

/-- `closeNode`. -/
def closeNode (nodes : AStarNodes) (node : ℕ) : AStarNodes :=
  if node < maxNodes then
    { nodes with openNodes := Function.update nodes.openNodes node false }
  else nodes

/-- `openNode`. -/
def openNode (nodes : AStarNodes) (node : ℕ) : AStarNodes :=
  if node < maxNodes then
    { nodes with openNodes := Function.update nodes.openNodes node true }
  else nodes

/-- `countClosedNodes`. -/
def countClosedNodes (nodes : AStarNodes) : ℕ :=
  (List.range nodes.curNode).countP fun i => !nodes.openNodes i

/-- `getNodeInList`. -/
def getNodeInList (nodes : AStarNodes) (x y : ℕ) : Option ℕ :=
  (List.range nodes.curNode).find? fun i => (nodes.nodes i).x = x && (nodes.nodes i).y = y

/-- `getMapWalkCost`, of the places of the node and of its neighbour. -/
def getMapWalkCost (node neighbour : ℕ × ℕ) : ℕ :=
  if ((node.1 : ℤ) - neighbour.1).natAbs = ((node.2 : ℤ) - neighbour.2).natAbs then
    mapDiagonalWalkCost
  else mapNormalWalkCost

/-- `getTileWalkCost`. -/
def getTileWalkCost (tile : PathTile) : ℕ :=
  (if tile.topVisibleCreature then mapNormalWalkCost * 3 else 0) +
    if tile.harmfulField then mapNormalWalkCost * 3 else 0

/-- `getEstimatedDistance`. -/
def getEstimatedDistance (x y xGoal yGoal : ℕ) : ℕ :=
  let dx := ((x : ℤ) - xGoal).natAbs
  let dy := ((y : ℤ) - yGoal).natAbs
  let diagonal := min dx dy
  mapDiagonalWalkCost * diagonal + mapNormalWalkCost * (dx + dy - 2 * diagonal)

/-- What is stored into a node of the pool. -/
def store (nodes : AStarNodes) (i : ℕ) (node : AStarNode) : AStarNodes :=
  { nodes with nodes := Function.update nodes.nodes i node }

/-! ## The best node and the node at a place -/

theorem foldl_better (nodes : AStarNodes) (indices : List ℕ) (best : ℕ × Option ℕ) :
    ((indices.foldl nodes.better best) = best ∨
      ∃ i ∈ indices, nodes.openNodes i = true ∧ indices.foldl nodes.better best = ((nodes.nodes i).f, some i)) ∧
    (indices.foldl nodes.better best).1 ≤ best.1 ∧
    ∀ i ∈ indices, nodes.openNodes i = true →
      (indices.foldl nodes.better best).1 ≤ (nodes.nodes i).f := by
  induction indices generalizing best with
  | nil => exact ⟨Or.inl rfl, Nat.le_refl _, fun i hi => absurd hi List.not_mem_nil⟩
  | cons i indices ih =>
    rw [List.foldl_cons]
    obtain ⟨hfrom, hle, hleast⟩ := ih (nodes.better best i)
    have hbetter : (nodes.better best i = best ∨
        nodes.openNodes i = true ∧ nodes.better best i = ((nodes.nodes i).f, some i)) ∧
        (nodes.better best i).1 ≤ best.1 ∧
        (nodes.openNodes i = true → (nodes.better best i).1 ≤ (nodes.nodes i).f) := by
      rw [better]
      split
      · next h => exact ⟨Or.inr ⟨h.2, rfl⟩, Nat.le_of_lt h.1, fun _ => Nat.le_refl _⟩
      · next h => exact ⟨Or.inl rfl, Nat.le_refl _, fun hopen => Nat.le_of_not_lt fun hlt => h ⟨hlt, hopen⟩⟩
    refine ⟨?_, hle.trans hbetter.2.1, ?_⟩
    · rcases hfrom with hsame | ⟨j, hj, hopen, heq⟩
      · rw [hsame]
        exact hbetter.1.imp id fun h => ⟨i, List.mem_cons_self, h⟩
      · exact Or.inr ⟨j, List.mem_cons_of_mem i hj, hopen, heq⟩
    · intro j hj hopen
      apply (List.mem_cons.mp hj).elim
      · rintro rfl
        exact hle.trans (hbetter.2.2 hopen)
      · exact fun hj => hleast j hj hopen

/-- The best node is open, and no open node has a lower `f`. -/
theorem getBestNode_spec {nodes : AStarNodes} {n : ℕ} (h : nodes.getBestNode = some n) :
    n < nodes.curNode ∧ nodes.openNodes n = true ∧
      ∀ i < nodes.curNode, nodes.openNodes i = true → (nodes.nodes n).f ≤ (nodes.nodes i).f := by
  obtain ⟨hfrom, _, hleast⟩ := nodes.foldl_better (List.range nodes.curNode) (100000, none)
  rw [getBestNode] at h
  rcases hfrom with hnone | ⟨i, hi, hopen, heq⟩
  · rw [hnone] at h
    exact absurd h (Option.some_ne_none n).symm
  · rw [heq] at h hleast
    obtain rfl : i = n := Option.some.inj h
    exact ⟨List.mem_range.mp hi, hopen, fun j hj => hleast j (List.mem_range.mpr hj)⟩

theorem getNodeInList_eq_some {nodes : AStarNodes} {x y i : ℕ}
    (h : nodes.getNodeInList x y = some i) : i < nodes.curNode ∧ (nodes.nodes i).place = (x, y) := by
  have hmem := List.mem_of_find?_eq_some h
  have hplace := List.find?_some h
  rw [Bool.and_eq_true, decide_eq_true_eq, decide_eq_true_eq] at hplace
  exact ⟨List.mem_range.mp hmem, Prod.ext hplace.1 hplace.2⟩

theorem getNodeInList_eq_none {nodes : AStarNodes} {x y i : ℕ}
    (h : nodes.getNodeInList x y = none) (hi : i < nodes.curNode) :
    (nodes.nodes i).place ≠ (x, y) := by
  have hother := List.find?_eq_none.mp h i (List.mem_range.mpr hi)
  rw [Bool.and_eq_true, decide_eq_true_eq, decide_eq_true_eq] at hother
  exact fun hplace => hother ⟨congrArg Prod.fst hplace, congrArg Prod.snd hplace⟩

end AStarNodes

/-- The order in which the neighbours of a node are tried; the last four are diagonal. -/
def neighbourOrderList : List (ℤ × ℤ) :=
  [(-1, 0), (0, 1), (1, 0), (0, -1), (-1, -1), (1, -1), (1, 1), (-1, 1)]

/-- In what the two searches differ: the neighbours they try, where they go and their estimate. -/
structure PathSearch where
  directions : List (ℤ × ℤ)
  canEnter : ℕ → ℕ → Bool
  tileWalkCost : ℕ → ℕ → ℕ
  estimate : ℕ → ℕ → ℕ

namespace PathSearch

/-- A neighbour of a node: `none` when the pool has run out of nodes. -/
def visit (search : PathSearch) (n : ℕ) (nodes : AStarNodes) (direction : ℤ × ℤ) :
    Option AStarNodes :=
  let node := nodes.nodes n
  let newX := (node.x : ℤ) + direction.1
  let newY := (node.y : ℤ) + direction.2
  if newX < 0 ∨ Position.maxX < newX then some nodes
  else if newY < 0 ∨ Position.maxY < newY then some nodes
  else
    let x := newX.toNat
    let y := newY.toNat
    if search.canEnter x y then
      let newg := node.g + AStarNodes.getMapWalkCost node.place (x, y) + search.tileWalkCost x y
      let h := search.estimate x y
      let neighbour : AStarNode := { x := x, y := y, parent := some n, f := newg + h, g := newg, h := h }
      match nodes.getNodeInList x y with
      | some i =>
        -- the node on the list is cheaper than this one
        if (nodes.nodes i).g ≤ newg then some nodes
        else some ((nodes.openNode i).store i neighbour)
      | none =>
        match nodes.createOpenNode with
        | none => none
        | some (i, nodes) => some (nodes.store i neighbour)
    else some nodes

/-- The neighbours of a node in turn, and whether the pool has run out of nodes among them. -/
def expand (search : PathSearch) (n : ℕ) : List (ℤ × ℤ) → AStarNodes → AStarNodes × Bool
  | [], nodes => (nodes, false)
  | direction :: directions, nodes =>
    match search.visit n nodes direction with
    | none => (nodes, true)
    | some nodes => search.expand n directions nodes

/-- From a place one may go on to another at a cost. -/
structure Step (search : PathSearch) (p q : ℕ × ℕ) (cost : ℕ) : Prop where
  direction : ((q.1 : ℤ) - p.1, (q.2 : ℤ) - p.2) ∈ search.directions
  x_le : q.1 ≤ Position.maxX
  y_le : q.2 ≤ Position.maxY
  canEnter : search.canEnter q.1 q.2 = true
  cost_eq : cost = AStarNodes.getMapWalkCost p q + search.tileWalkCost q.1 q.2

variable {search : PathSearch} {nodes nodes' : AStarNodes} {n : ℕ}

theorem Step.cost_pos {p q : ℕ × ℕ} {cost : ℕ} (h : search.Step p q cost) : 0 < cost := by
  have hcost := h.cost_eq
  rw [AStarNodes.getMapWalkCost, mapDiagonalWalkCost, mapNormalWalkCost] at hcost
  split at hcost <;> omega

/-- The node `i` is stored for a neighbour of the node `n`: it is a new one, or it is the one of the
place and was dearer. -/
structure Stored (search : PathSearch) (n i : ℕ) (q : ℕ × ℕ) (cost : ℕ)
    (nodes nodes' : AStarNodes) : Prop where
  step : search.Step (nodes.nodes n).place q cost
  nodes_eq : nodes'.nodes = Function.update nodes.nodes i
    { x := q.1, y := q.2, parent := some n, f := (nodes.nodes n).g + cost + search.estimate q.1 q.2
      g := (nodes.nodes n).g + cost, h := search.estimate q.1 q.2 }
  openNodes_eq : nodes'.openNodes = Function.update nodes.openNodes i true
  fresh_or_dearer :
    (i = nodes.curNode ∧ nodes'.curNode = nodes.curNode + 1 ∧ nodes.curNode < maxNodes ∧
      ∀ j < nodes.curNode, (nodes.nodes j).place ≠ q) ∨
    (i < nodes.curNode ∧ nodes'.curNode = nodes.curNode ∧ (nodes.nodes i).place = q ∧
      (nodes.nodes n).g + cost < (nodes.nodes i).g)

/-- The neighbour has a node that is no dearer than by way of the node `n`. -/
def Follows (search : PathSearch) (n : ℕ) (direction : ℤ × ℤ) (nodes : AStarNodes) : Prop :=
  ∀ q cost, search.Step (nodes.nodes n).place q cost →
    ((q.1 : ℤ) - (nodes.nodes n).x, (q.2 : ℤ) - (nodes.nodes n).y) = direction →
    ∃ i < nodes.curNode, (nodes.nodes i).place = q ∧ (nodes.nodes i).g ≤ (nodes.nodes n).g + cost

/-- What a neighbour does to the pool. -/
theorem visit_cases {direction : ℤ × ℤ} (hmax : nodes.curNode ≤ maxNodes)
    (hdirection : direction ∈ search.directions)
    (h : search.visit n nodes direction = some nodes') :
    (nodes' = nodes ∧ search.Follows n direction nodes) ∨
      ∃ i q cost, ((q.1 : ℤ) - (nodes.nodes n).x, (q.2 : ℤ) - (nodes.nodes n).y) = direction ∧
        search.Stored n i q cost nodes nodes' := by
  rw [visit] at h
  dsimp only at h
  split at h
  · next hx =>
    refine Or.inl ⟨(Option.some.inj h).symm, fun q cost hstep heq => ?_⟩
    have hq := hstep.x_le
    have hfst := congrArg Prod.fst heq
    dsimp only at hfst
    omega
  split at h
  · next hy =>
    refine Or.inl ⟨(Option.some.inj h).symm, fun q cost hstep heq => ?_⟩
    have hq := hstep.y_le
    have hsnd := congrArg Prod.snd heq
    dsimp only at hsnd
    omega
  next hx hy =>
  -- the neighbour is on the map; it is the only place in the direction
  let q : ℕ × ℕ :=
    (((nodes.nodes n).x + direction.1 : ℤ).toNat, ((nodes.nodes n).y + direction.2 : ℤ).toNat)
  have hq : ((q.1 : ℤ) - (nodes.nodes n).x, (q.2 : ℤ) - (nodes.nodes n).y) = direction := by
    apply Prod.ext
    · show ((_ : ℤ).toNat : ℤ) - _ = _
      omega
    · show ((_ : ℤ).toNat : ℤ) - _ = _
      omega
  have honly (q' : ℕ × ℕ)
      (heq : ((q'.1 : ℤ) - (nodes.nodes n).x, (q'.2 : ℤ) - (nodes.nodes n).y) = direction) :
      q' = q := by
    have hfst := congrArg Prod.fst (heq.trans hq.symm)
    have hsnd := congrArg Prod.snd (heq.trans hq.symm)
    dsimp only at hfst hsnd
    apply Prod.ext <;> omega
  split at h
  · next henter =>
    have hstep : search.Step (nodes.nodes n).place q
        (AStarNodes.getMapWalkCost (nodes.nodes n).place q + search.tileWalkCost q.1 q.2) := by
      refine ⟨?_, ?_, ?_, henter, rfl⟩
      · show ((q.1 : ℤ) - (nodes.nodes n).x, (q.2 : ℤ) - (nodes.nodes n).y) ∈ _
        rw [hq]
        exact hdirection
      · show (_ : ℤ).toNat ≤ _
        omega
      · show (_ : ℤ).toNat ≤ _
        omega
    split at h
    · next i hlist =>
      have hi := AStarNodes.getNodeInList_eq_some hlist
      split at h
      · next hcheaper =>
        refine Or.inl ⟨(Option.some.inj h).symm, fun q' cost hstep' heq => ?_⟩
        obtain rfl := honly q' heq
        refine ⟨i, hi.1, hi.2, ?_⟩
        rw [hstep'.cost_eq, ← Nat.add_assoc]
        exact hcheaper
      · next hdearer =>
        obtain rfl := Option.some.inj h
        have hopen : nodes.openNode i =
            { nodes with openNodes := Function.update nodes.openNodes i true } :=
          if_pos (hi.1.trans_le hmax)
        refine Or.inr ⟨i, q, _, hq, hstep, ?_, ?_, Or.inr ⟨hi.1, ?_, hi.2, ?_⟩⟩
        · rw [AStarNodes.store, hopen, ← Nat.add_assoc]
        · rw [AStarNodes.store, hopen]
        · rw [AStarNodes.store, hopen]
        · rw [← Nat.add_assoc]
          exact Nat.lt_of_not_le hdearer
    · next hlist =>
      rw [AStarNodes.createOpenNode] at h
      split at h
      · next hnone => exact absurd h (Option.some_ne_none _).symm
      · next i created hcreated =>
        split at hcreated
        · exact absurd hcreated (Option.some_ne_none _).symm
        · next hroom =>
          obtain ⟨rfl, rfl⟩ := Prod.mk.inj (Option.some.inj hcreated)
          obtain rfl := Option.some.inj h
          refine Or.inr ⟨nodes.curNode, q, _, hq, hstep, ?_, rfl,
            Or.inl ⟨rfl, rfl, Nat.lt_of_not_le hroom, ?_⟩⟩
          · rw [AStarNodes.store, ← Nat.add_assoc]
          · exact fun j hj => AStarNodes.getNodeInList_eq_none hlist hj
  · next henter =>
    refine Or.inl ⟨(Option.some.inj h).symm, fun q' cost hstep heq => ?_⟩
    obtain rfl := honly q' heq
    exact absurd hstep.canEnter henter

namespace Stored

variable {i : ℕ} {q : ℕ × ℕ} {cost : ℕ}

theorem node_self (h : search.Stored n i q cost nodes nodes') :
    nodes'.nodes i =
      { x := q.1, y := q.2, parent := some n, f := (nodes.nodes n).g + cost + search.estimate q.1 q.2
        g := (nodes.nodes n).g + cost, h := search.estimate q.1 q.2 } := by
  rw [h.nodes_eq]
  exact Function.update_self i _ _

theorem node_of_ne (h : search.Stored n i q cost nodes nodes') {j : ℕ} (hj : j ≠ i) :
    nodes'.nodes j = nodes.nodes j := by
  rw [h.nodes_eq]
  exact Function.update_of_ne hj _ _

theorem place_self (h : search.Stored n i q cost nodes nodes') : (nodes'.nodes i).place = q := by
  rw [h.node_self]
  rfl

theorem g_self (h : search.Stored n i q cost nodes nodes') :
    (nodes'.nodes i).g = (nodes.nodes n).g + cost := by
  rw [h.node_self]

theorem open_self (h : search.Stored n i q cost nodes nodes') : nodes'.openNodes i = true := by
  rw [h.openNodes_eq]
  exact Function.update_self i _ _

theorem open_of_ne (h : search.Stored n i q cost nodes nodes') {j : ℕ} (hj : j ≠ i) :
    nodes'.openNodes j = nodes.openNodes j := by
  rw [h.openNodes_eq]
  exact Function.update_of_ne hj _ _

theorem curNode_le (h : search.Stored n i q cost nodes nodes') :
    nodes.curNode ≤ nodes'.curNode := by
  have hcases := h.fresh_or_dearer
  omega

theorem lt_curNode (h : search.Stored n i q cost nodes nodes') : i < nodes'.curNode := by
  have hcases := h.fresh_or_dearer
  omega

/-- A node in use after it was in use before it, or it is the stored one. -/
theorem lt_of_lt (h : search.Stored n i q cost nodes nodes') {j : ℕ} (hj : j < nodes'.curNode)
    (hne : j ≠ i) : j < nodes.curNode := by
  have hcases := h.fresh_or_dearer
  omega

/-- The places of the nodes in use stay. -/
theorem place_eq (h : search.Stored n i q cost nodes nodes') {j : ℕ} (hj : j < nodes.curNode) :
    (nodes'.nodes j).place = (nodes.nodes j).place := by
  by_cases hne : j = i
  · obtain rfl := hne
    rw [h.place_self]
    rcases h.fresh_or_dearer with hfresh | hdearer
    · exact absurd hfresh.1 (Nat.ne_of_lt hj)
    · exact hdearer.2.2.1.symm
  · rw [h.node_of_ne hne]

/-- No node in use gets dearer. -/
theorem g_le (h : search.Stored n i q cost nodes nodes') {j : ℕ} (hj : j < nodes.curNode) :
    (nodes'.nodes j).g ≤ (nodes.nodes j).g := by
  by_cases hne : j = i
  · obtain rfl := hne
    rw [h.g_self]
    rcases h.fresh_or_dearer with hfresh | hdearer
    · exact absurd hfresh.1 (Nat.ne_of_lt hj)
    · exact Nat.le_of_lt hdearer.2.2.2
  · rw [h.node_of_ne hne]

/-- The node that is followed is not the one that is stored. -/
theorem ne (h : search.Stored n i q cost nodes nodes') (hn : n < nodes.curNode) : n ≠ i := by
  intro heq
  rcases h.fresh_or_dearer with hfresh | hdearer
  · exact absurd (heq.trans hfresh.1) (Nat.ne_of_lt hn)
  · have hless := hdearer.2.2.2
    rw [← heq] at hless
    omega

end Stored

/-- The nodes in use: the first is where the search starts, and every other has a parent that it is
one step from and at least so much dearer. -/
structure Rooted (search : PathSearch) (start : ℕ × ℕ) (nodes : AStarNodes) : Prop where
  pos : 0 < nodes.curNode
  le_max : nodes.curNode ≤ maxNodes
  root_place : (nodes.nodes 0).place = start
  root_parent : (nodes.nodes 0).parent = none
  root_g : (nodes.nodes 0).g = 0
  distinct : ∀ i < nodes.curNode, ∀ j < nodes.curNode,
    (nodes.nodes i).place = (nodes.nodes j).place → i = j
  parent : ∀ i < nodes.curNode, i ≠ 0 → ∃ j < nodes.curNode, (nodes.nodes i).parent = some j ∧
    ∃ cost, search.Step (nodes.nodes j).place (nodes.nodes i).place cost ∧
      (nodes.nodes j).g + cost ≤ (nodes.nodes i).g
  f_eq : ∀ i < nodes.curNode,
    (nodes.nodes i).f = (nodes.nodes i).g + search.estimate (nodes.nodes i).x (nodes.nodes i).y

variable {start : ℕ × ℕ}

theorem Rooted.stored {i : ℕ} {q : ℕ × ℕ} {cost : ℕ} (h : search.Rooted start nodes)
    (hn : n < nodes.curNode) (hstored : search.Stored n i q cost nodes nodes') :
    search.Rooted start nodes' := by
  have hne := hstored.ne hn
  -- the root is the cheapest of all nodes
  have hroot : (0 : ℕ) ≠ i := by
    rintro rfl
    rcases hstored.fresh_or_dearer with hfresh | hdearer
    · exact absurd hfresh.1 (Nat.ne_of_lt h.pos)
    · have hless := hdearer.2.2.2
      rw [h.root_g] at hless
      exact Nat.not_lt_zero _ hless
  have hfresh (j : ℕ) (hj : j < nodes.curNode) (hij : j ≠ i) : (nodes.nodes j).place ≠ q := by
    intro heq
    rcases hstored.fresh_or_dearer with hnew | hold
    · exact hnew.2.2.2 j hj heq
    · exact hij (h.distinct j hj i hold.1 (heq.trans hold.2.2.1.symm))
  refine ⟨h.pos.trans_le hstored.curNode_le, ?_, ?_, ?_, ?_, ?_, ?_, ?_⟩
  · have hmax := h.le_max
    have hcases := hstored.fresh_or_dearer
    omega
  · rw [hstored.node_of_ne hroot]
    exact h.root_place
  · rw [hstored.node_of_ne hroot]
    exact h.root_parent
  · rw [hstored.node_of_ne hroot]
    exact h.root_g
  · intro j hj k hk heq
    by_cases hji : j = i
    · by_cases hki : k = i
      · exact hji.trans hki.symm
      · rw [hji, hstored.place_self, hstored.node_of_ne hki] at heq
        exact absurd heq.symm (hfresh k (hstored.lt_of_lt hk hki) hki)
    · by_cases hki : k = i
      · rw [hki, hstored.place_self, hstored.node_of_ne hji] at heq
        exact absurd heq (hfresh j (hstored.lt_of_lt hj hji) hji)
      · rw [hstored.node_of_ne hji, hstored.node_of_ne hki] at heq
        exact h.distinct j (hstored.lt_of_lt hj hji) k (hstored.lt_of_lt hk hki) heq
  · intro j hj hzero
    by_cases hji : j = i
    · refine ⟨n, hn.trans_le hstored.curNode_le, ?_, cost, ?_, ?_⟩
      · rw [hji, hstored.node_self]
      · rw [hji, hstored.place_self, hstored.place_eq hn]
        exact hstored.step
      · rw [hji, hstored.g_self, hstored.node_of_ne hne]
    · obtain ⟨k, hk, hparent, b, hstep, hle⟩ := h.parent j (hstored.lt_of_lt hj hji) hzero
      rw [hstored.node_of_ne hji]
      refine ⟨k, hk.trans_le hstored.curNode_le, hparent, b, ?_, ?_⟩
      · rw [hstored.place_eq hk]
        exact hstep
      · exact (Nat.add_le_add_right (hstored.g_le hk) b).trans hle
  · intro j hj
    by_cases hji : j = i
    · rw [hji, hstored.node_self]
    · rw [hstored.node_of_ne hji]
      exact h.f_eq j (hstored.lt_of_lt hj hji)

theorem Rooted.closeNode (h : search.Rooted start nodes) (n : ℕ) :
    search.Rooted start (nodes.closeNode n) := by
  rw [AStarNodes.closeNode]
  split
  · exact ⟨h.pos, h.le_max, h.root_place, h.root_parent, h.root_g, h.distinct, h.parent, h.f_eq⟩
  · exact h

/-! ## All neighbours -/

/-- What storing keeps, the neighbours keep. -/
theorem expand_keeps (inv : AStarNodes → Prop)
    (hinv : ∀ nodes nodes' i q cost, search.Rooted start nodes → n < nodes.curNode → inv nodes →
      search.Stored n i q cost nodes nodes' → inv nodes')
    (directions : List (ℤ × ℤ)) (hsub : directions ⊆ search.directions)
    (h : search.Rooted start nodes) (hn : n < nodes.curNode) (hnodes : inv nodes) :
    search.Rooted start (search.expand n directions nodes).1 ∧
      nodes.curNode ≤ (search.expand n directions nodes).1.curNode ∧
      inv (search.expand n directions nodes).1 := by
  induction directions generalizing nodes with
  | nil => exact ⟨h, Nat.le_refl _, hnodes⟩
  | cons direction directions ih =>
    rw [expand]
    cases hvisit : search.visit n nodes direction with
    | none => exact ⟨h, Nat.le_refl _, hnodes⟩
    | some nodes' =>
      have hrest := (List.cons_subset.mp hsub).2
      apply (visit_cases h.le_max (List.cons_subset.mp hsub).1 hvisit).elim
      · rintro ⟨rfl, _⟩
        exact ih hrest h hn hnodes
      · rintro ⟨i, q, cost, _, hstored⟩
        have hle := hstored.curNode_le
        have hkeeps := ih hrest (h.stored hn hstored) (hn.trans_le hle)
          (hinv nodes nodes' i q cost h hn hnodes hstored)
        exact ⟨hkeeps.1, hle.trans hkeeps.2.1, hkeeps.2.2⟩

theorem Follows.stored {i : ℕ} {q : ℕ × ℕ} {cost : ℕ} {direction : ℤ × ℤ}
    (h : search.Follows n direction nodes) (hn : n < nodes.curNode)
    (hstored : search.Stored n i q cost nodes nodes') : search.Follows n direction nodes' := by
  intro q' cost' hstep hdirection
  rw [hstored.node_of_ne (hstored.ne hn)] at hstep hdirection ⊢
  obtain ⟨j, hj, hplace, hle⟩ := h q' cost' hstep hdirection
  refine ⟨j, hj.trans_le hstored.curNode_le, ?_, (hstored.g_le hj).trans hle⟩
  rw [hstored.place_eq hj]
  exact hplace

theorem Stored.follows {i : ℕ} {q : ℕ × ℕ} {cost : ℕ} {direction : ℤ × ℤ}
    (hstored : search.Stored n i q cost nodes nodes') (hn : n < nodes.curNode)
    (hq : ((q.1 : ℤ) - (nodes.nodes n).x, (q.2 : ℤ) - (nodes.nodes n).y) = direction) :
    search.Follows n direction nodes' := by
  intro q' cost' hstep hdirection
  rw [hstored.node_of_ne (hstored.ne hn)] at hstep hdirection ⊢
  have hsame : q' = q := by
    have hfst := congrArg Prod.fst (hdirection.trans hq.symm)
    have hsnd := congrArg Prod.snd (hdirection.trans hq.symm)
    dsimp only at hfst hsnd
    apply Prod.ext <;> omega
  refine ⟨i, hstored.lt_curNode, hstored.place_self.trans hsame.symm, ?_⟩
  rw [hstored.g_self, hstep.cost_eq, hstored.step.cost_eq, hsame]

/-- Unless the pool runs out of nodes, all neighbours are followed. -/
theorem expand_follows (directions : List (ℤ × ℤ)) (hsub : directions ⊆ search.directions)
    (h : search.Rooted start nodes) (hn : n < nodes.curNode)
    (hroom : (search.expand n directions nodes).2 = false) :
    ∀ direction ∈ directions, search.Follows n direction (search.expand n directions nodes).1 := by
  induction directions generalizing nodes with
  | nil => exact fun direction hd => absurd hd List.not_mem_nil
  | cons direction directions ih =>
    have hrest := (List.cons_subset.mp hsub).2
    rw [expand] at hroom ⊢
    cases hvisit : search.visit n nodes direction with
    | none =>
      rw [hvisit] at hroom
      exact absurd hroom Bool.true_eq_false_eq_False
    | some nodes' =>
      rw [hvisit] at hroom
      have hfirst : search.Rooted start nodes' ∧ n < nodes'.curNode ∧
          search.Follows n direction nodes' := by
        apply (visit_cases h.le_max (List.cons_subset.mp hsub).1 hvisit).elim
        · rintro ⟨rfl, hfollows⟩
          exact ⟨h, hn, hfollows⟩
        · rintro ⟨i, q, cost, hq, hstored⟩
          exact ⟨h.stored hn hstored, hn.trans_le hstored.curNode_le, hstored.follows hn hq⟩
      rintro d (_ | ⟨_, hd⟩)
      · exact (expand_keeps (search.Follows n direction)
          (fun _ _ _ _ _ _ hn hinv hstored => hinv.stored hn hstored) directions hrest
          hfirst.1 hfirst.2.1 hfirst.2.2).2.2
      · exact ih hrest hfirst.1 hfirst.2.1 hroom d hd

/-- From every closed node the neighbours have been followed. -/
structure Explored (search : PathSearch) (start : ℕ × ℕ) (nodes : AStarNodes) : Prop extends
    search.Rooted start nodes where
  followed : ∀ i < nodes.curNode, nodes.openNodes i = false →
    ∀ q cost, search.Step (nodes.nodes i).place q cost →
      ∃ j < nodes.curNode, (nodes.nodes j).place = q ∧ (nodes.nodes j).g ≤ (nodes.nodes i).g + cost

/-- A round of a search: the neighbours of a node are followed and it is closed. -/
theorem Explored.round (h : search.Explored start nodes) (hn : n < nodes.curNode)
    (hroom : (search.expand n search.directions nodes).2 = false) :
    search.Explored start ((search.expand n search.directions nodes).1.closeNode n) := by
  have hkeeps := expand_keeps (fun nodes => ∀ i < nodes.curNode, nodes.openNodes i = false →
      ∀ q cost, search.Step (nodes.nodes i).place q cost → ∃ j < nodes.curNode,
        (nodes.nodes j).place = q ∧ (nodes.nodes j).g ≤ (nodes.nodes i).g + cost)
    (by
      intro nodes nodes' i q cost _ hn hfollowed hstored k hk hclosed q' cost' hstep
      have hki : k ≠ i := by
        rintro rfl
        rw [hstored.open_self] at hclosed
        exact absurd hclosed Bool.true_eq_false_eq_False
      have hk' := hstored.lt_of_lt hk hki
      rw [hstored.open_of_ne hki] at hclosed
      rw [hstored.node_of_ne hki] at hstep ⊢
      obtain ⟨j, hj, hplace, hle⟩ := hfollowed k hk' hclosed q' cost' hstep
      refine ⟨j, hj.trans_le hstored.curNode_le, ?_, (hstored.g_le hj).trans hle⟩
      rw [hstored.place_eq hj]
      exact hplace)
    search.directions (List.Subset.refl _) h.toRooted hn h.followed
  have hfollows := expand_follows search.directions (List.Subset.refl _) h.toRooted hn hroom
  obtain ⟨hrooted, hle, hfollowed⟩ := hkeeps
  refine ⟨hrooted.closeNode n, ?_⟩
  have hmax : n < maxNodes := (hn.trans_le hle).trans_le hrooted.le_max
  rw [AStarNodes.closeNode, if_pos hmax]
  intro i hi hclosed q cost hstep
  by_cases hin : i = n
  · obtain rfl := hin
    exact hfollows _ hstep.direction q cost hstep rfl
  · dsimp only at hclosed
    rw [Function.update_of_ne hin] at hclosed
    exact hfollowed i hi hclosed q cost hstep

/-! ## The start -/

/-- The pool with `startNode` only. -/
def startNodes (search : PathSearch) (p : ℕ × ℕ) : AStarNodes where
  nodes := fun _ => { x := p.1, y := p.2, parent := none, f := 0 + search.estimate p.1 p.2, g := 0,
                      h := search.estimate p.1 p.2 }
  openNodes := fun i => i = 0
  curNode := 1

theorem explored_startNodes (search : PathSearch) (p : ℕ × ℕ) :
    search.Explored p (search.startNodes p) := by
  refine ⟨⟨Nat.one_pos, show 1 ≤ maxNodes by decide, rfl, rfl, rfl, ?_, ?_, ?_⟩, ?_⟩
  · intro i hi j hj _
    exact (Nat.lt_one_iff.mp hi).trans (Nat.lt_one_iff.mp hj).symm
  · exact fun i hi hzero => absurd (Nat.lt_one_iff.mp hi) hzero
  · intro i _
    rfl
  · intro i hi hclosed
    have hopen : (search.startNodes p).openNodes i = true := decide_eq_true (Nat.lt_one_iff.mp hi)
    rw [hopen] at hclosed
    exact absurd hclosed Bool.true_eq_false_eq_False

end PathSearch

end TyanoCore
