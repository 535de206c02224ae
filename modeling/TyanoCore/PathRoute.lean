import TyanoCore.PathNodes

/-!
# Routes of a path search

The directions of a route, where they lead, and the two ways in which the searches read them off the
parents of the node they found: `getPathTo` searches from the destination and reads forwards,
`getPathMatching` searches from the creature and reads backwards.
-/

namespace TyanoCore

inductive Direction
  | north
  | east
  | south
  | west
  | southWest
  | southEast
  | northWest
  | northEast
  | none
  deriving DecidableEq

/-- `getNextPosition`; the coordinates have 16 bits. -/
def getNextPosition (direction : Direction) (pos : Coordinates) : Coordinates :=
  let less (n : ℕ) := (n + (2 ^ 16 - 1)) % 2 ^ 16
  let more (n : ℕ) := (n + 1) % 2 ^ 16
  match direction with
  | .none => pos
  | .north => { pos with y := less pos.y }
  | .south => { pos with y := more pos.y }
  | .west => { pos with x := less pos.x }
  | .east => { pos with x := more pos.x }
  | .southWest => { pos with x := less pos.x, y := more pos.y }
  | .northWest => { pos with x := less pos.x, y := less pos.y }
  | .southEast => { pos with x := more pos.x, y := more pos.y }
  | .northEast => { pos with x := more pos.x, y := less pos.y }

abbrev Route := List Direction

namespace Route

/-- The positions that the steps of a route lead to. -/
def positions (pos : Coordinates) : Route → List Coordinates
  | [] => []
  | direction :: route =>
    let next := getNextPosition direction pos
    next :: positions next route

/-- Where a route ends. -/
def replay (pos : Coordinates) (route : Route) : Coordinates :=
  route.foldl (fun pos direction => getNextPosition direction pos) pos

theorem positions_append (pos : Coordinates) (route route' : Route) :
    positions pos (route ++ route') = positions pos route ++ positions (replay pos route) route' := by
  induction route generalizing pos with
  | nil => rfl
  | cons direction route ih => exact congrArg (List.cons _) (ih _)

theorem replay_append (pos : Coordinates) (route route' : Route) :
    replay pos (route ++ route') = replay (replay pos route) route' := List.foldl_append

/-- A route ends where it begins or at one of its positions. -/
theorem replay_eq_or_mem (pos : Coordinates) (route : Route) :
    replay pos route = pos ∨ replay pos route ∈ positions pos route := by
  induction route generalizing pos with
  | nil => exact Or.inl rfl
  | cons direction route ih =>
    apply Or.inr
    apply (ih (getNextPosition direction pos)).elim
    · intro hend
      exact List.mem_cons.mpr (Or.inl hend)
    · exact List.mem_cons_of_mem _

end Route

/-- The direction of a step, as `getPathTo` tells it. -/
def directionTo (dx dy : ℤ) : Option Direction :=
  if dx = -1 ∧ dy = -1 then some .northWest
  else if dx = 1 ∧ dy = -1 then some .northEast
  else if dx = -1 ∧ dy = 1 then some .southWest
  else if dx = 1 ∧ dy = 1 then some .southEast
  else if dx = -1 then some .west
  else if dx = 1 then some .east
  else if dy = -1 then some .north
  else if dy = 1 then some .south
  else none

/-- The direction of a step that is read backwards, as `getPathMatching` tells it. -/
def directionBack (dx dy : ℤ) : Option Direction :=
  if dx = 1 ∧ dy = 1 then some .northWest
  else if dx = -1 ∧ dy = 1 then some .northEast
  else if dx = 1 ∧ dy = -1 then some .southWest
  else if dx = -1 ∧ dy = -1 then some .southEast
  else if dx = 1 then some .west
  else if dx = -1 then some .east
  else if dy = 1 then some .north
  else if dy = -1 then some .south
  else none

theorem directionBack_eq (dx dy : ℤ) : directionBack dx dy = directionTo (-dx) (-dy) := by
  have hless (n : ℤ) : -n = -1 ↔ n = 1 := by omega
  have hmore (n : ℤ) : -n = 1 ↔ n = -1 := by omega
  simp only [directionBack, directionTo, hless, hmore]

/-- How far a direction goes. -/
def Direction.offset : Direction → ℤ × ℤ
  | .none => (0, 0)
  | .north => (0, -1)
  | .south => (0, 1)
  | .west => (-1, 0)
  | .east => (1, 0)
  | .southWest => (-1, 1)
  | .northWest => (-1, -1)
  | .southEast => (1, 1)
  | .northEast => (1, -1)

theorem directionTo_offset : ∀ offset ∈ neighbourOrderList,
    ∃ direction, directionTo offset.1 offset.2 = some direction ∧ direction.offset = offset := by
  decide

theorem getNextPosition_eq {p q : ℕ × ℕ} (z : ℕ) {direction : Direction}
    (h : direction.offset = ((q.1 : ℤ) - p.1, (q.2 : ℤ) - p.2))
    (hp : p.1 < 2 ^ 16 ∧ p.2 < 2 ^ 16) (hq : q.1 < 2 ^ 16 ∧ q.2 < 2 ^ 16) :
    getNextPosition direction ⟨p.1, p.2, z⟩ = ⟨q.1, q.2, z⟩ := by
  have hx := congrArg Prod.fst h
  have hy := congrArg Prod.snd h
  cases direction <;> dsimp only [Direction.offset] at hx hy <;>
    simp only [getNextPosition, Coordinates.mk.injEq, and_true] <;> omega

/-- A step between places of the map is told from their difference. -/
theorem directionTo_step {p q : ℕ × ℕ} (z : ℕ)
    (h : ((q.1 : ℤ) - p.1, (q.2 : ℤ) - p.2) ∈ neighbourOrderList)
    (hp : p.1 < 2 ^ 16 ∧ p.2 < 2 ^ 16) (hq : q.1 < 2 ^ 16 ∧ q.2 < 2 ^ 16) :
    ∃ direction, directionTo (q.1 - p.1) (q.2 - p.2) = some direction ∧
      direction.offset = ((q.1 : ℤ) - p.1, (q.2 : ℤ) - p.2) ∧
      getNextPosition direction ⟨p.1, p.2, z⟩ = ⟨q.1, q.2, z⟩ := by
  obtain ⟨direction, hdirection, hoffset⟩ := directionTo_offset _ h
  exact ⟨direction, hdirection, hoffset, getNextPosition_eq z hoffset hp hq⟩

/-- A neighbour is one the other way round too. -/
theorem mem_neighbourOrderList_symm {p q : ℕ × ℕ}
    (h : ((q.1 : ℤ) - p.1, (q.2 : ℤ) - p.2) ∈ neighbourOrderList) :
    ((p.1 : ℤ) - q.1, (p.2 : ℤ) - q.2) ∈ neighbourOrderList := by
  have hall : ∀ offset ∈ neighbourOrderList, (-offset.1, -offset.2) ∈ neighbourOrderList := by decide
  have hneg : (-((q.1 : ℤ) - p.1), -((q.2 : ℤ) - p.2)) ∈ neighbourOrderList := hall _ h
  rw [Int.neg_sub, Int.neg_sub] at hneg
  exact hneg

/-! ## Reading a route off the parents -/

namespace AStarNodes

/-- The loop of `getPathTo` from a node on: each step goes on from the place before. -/
def routeTo (nodes : AStarNodes) : ℕ → ℕ × ℕ → Option ℕ → Route
  | 0, _, _ => []
  | _ + 1, _, none => []
  | fuel + 1, prev, some i =>
    let node := nodes.nodes i
    let dx := (node.x : ℤ) - prev.1
    let dy := (node.y : ℤ) - prev.2
    (directionTo dx dy).toList ++ nodes.routeTo fuel node.place node.parent

/-- The loop of `getPathMatching` from a node on: each step is put in front of the ones before. -/
def routeFrom (nodes : AStarNodes) : ℕ → ℕ × ℕ → Option ℕ → Route → Route
  | 0, _, _, route => route
  | _ + 1, _, none, route => route
  | fuel + 1, prev, some i, route =>
    let node := nodes.nodes i
    let dx := (node.x : ℤ) - prev.1
    let dy := (node.y : ℤ) - prev.2
    nodes.routeFrom fuel node.place node.parent ((directionBack dx dy).toList ++ route)

end AStarNodes

namespace PathSearch

open Frontier (Walk)

variable {search : PathSearch} {start : ℕ × ℕ} {nodes : AStarNodes} {i : ℕ}

/-- What a route costs that is walked from its end to its beginning, as `getPathTo` searches it. -/
def costBack (search : PathSearch) (pos : Coordinates) : Route → ℕ
  | [] => 0
  | direction :: route =>
    let next := getNextPosition direction pos
    search.costBack next route +
      (AStarNodes.getMapWalkCost (next.x, next.y) (pos.x, pos.y) + search.tileWalkCost pos.x pos.y)

theorem Rooted.place_lt (h : search.Rooted start nodes)
    (hstart : start.1 < 2 ^ 16 ∧ start.2 < 2 ^ 16) (hi : i < nodes.curNode) :
    (nodes.nodes i).x < 2 ^ 16 ∧ (nodes.nodes i).y < 2 ^ 16 := by
  by_cases hzero : i = 0
  · rw [hzero]
    have hroot := h.root_place
    rw [← hroot] at hstart
    exact hstart
  · obtain ⟨j, _, _, cost, hstep, _⟩ := h.parent i hi hzero
    exact ⟨hstep.x_le.trans_lt (by decide), hstep.y_le.trans_lt (by decide)⟩

/-- The route from a node in use leads by nodes in use to where the search starts, and costs no more
than the node. -/
theorem Rooted.routeTo (h : search.Rooted start nodes) (hdirections : search.directions ⊆ neighbourOrderList)
    (hstart : start.1 < 2 ^ 16 ∧ start.2 < 2 ^ 16) (z : ℕ) {fuel : ℕ} (hi : i < nodes.curNode)
    (hfuel : (nodes.nodes i).g < fuel) :
    let pos : Coordinates := ⟨(nodes.nodes i).x, (nodes.nodes i).y, z⟩
    let route := nodes.routeTo fuel (nodes.nodes i).place (nodes.nodes i).parent
    Route.replay pos route = ⟨start.1, start.2, z⟩ ∧
      (∀ p ∈ Route.positions pos route, ∃ j < nodes.curNode,
        p = ⟨(nodes.nodes j).x, (nodes.nodes j).y, z⟩) ∧
      Walk search.Step start (nodes.nodes i).place (search.costBack pos route) ∧
      search.costBack pos route ≤ (nodes.nodes i).g := by
  -- the cost falls from a node to its parent, so the fuel lasts to the start
  induction fuel generalizing i with
  | zero => exact absurd hfuel (Nat.not_lt_zero _)
  | succ fuel ih =>
    dsimp only
    by_cases hzero : i = 0
    · have hroot := h.root_place
      rw [hzero, h.root_parent]
      have hplace : (nodes.nodes 0).x = start.1 ∧ (nodes.nodes 0).y = start.2 :=
        ⟨congrArg Prod.fst hroot, congrArg Prod.snd hroot⟩
      refine ⟨?_, ?_, ?_, Nat.zero_le _⟩
      · rw [← hplace.1, ← hplace.2]
        rfl
      · exact fun p hp => absurd hp List.not_mem_nil
      · rw [hroot]
        exact Walk.here start
    · obtain ⟨j, hj, hparent, cost, hstep, hle⟩ := h.parent i hi hzero
      have hpos := hstep.cost_pos
      obtain ⟨hreplay, hpositions, hwalk, hcost⟩ := ih hj (by omega)
      obtain ⟨direction, hdirection, _, hnext⟩ := directionTo_step z
        (mem_neighbourOrderList_symm (hdirections hstep.direction))
        (h.place_lt hstart hi) (h.place_lt hstart hj)
      have hroute : nodes.routeTo (fuel + 1) (nodes.nodes i).place (nodes.nodes i).parent =
          direction :: nodes.routeTo fuel (nodes.nodes j).place (nodes.nodes j).parent := by
        rw [hparent]
        show (directionTo ((nodes.nodes j).place.1 - (nodes.nodes i).place.1)
          ((nodes.nodes j).place.2 - (nodes.nodes i).place.2)).toList ++ _ = _
        rw [hdirection]
        rfl
      have hprev : getNextPosition direction ⟨(nodes.nodes i).x, (nodes.nodes i).y, z⟩ =
          ⟨(nodes.nodes j).x, (nodes.nodes j).y, z⟩ := hnext
      have hrest := hstep.cost_eq
      rw [hroute]
      refine ⟨?_, ?_, ?_, ?_⟩
      · rw [Route.replay, List.foldl_cons, hprev]
        exact hreplay
      · rw [Route.positions, hprev]
        rintro p (_ | ⟨_, hp⟩)
        · exact ⟨j, hj, rfl⟩
        · exact hpositions p hp
      · rw [costBack, hprev]
        dsimp only
        apply hwalk.snoc
        rw [hrest] at hstep
        exact hstep
      · rw [costBack, hprev]
        dsimp only
        rw [hrest] at hle
        exact (Nat.add_le_add_right hcost _).trans hle

/-- The route to a node in use leads by nodes that were entered from where the search starts to the
node, in directions of the search. -/
theorem Rooted.routeFrom (h : search.Rooted start nodes)
    (hdirections : search.directions ⊆ neighbourOrderList)
    (hstart : start.1 < 2 ^ 16 ∧ start.2 < 2 ^ 16) (z : ℕ) {fuel : ℕ} (hi : i < nodes.curNode)
    (hfuel : (nodes.nodes i).g < fuel) :
    ∃ route : Route,
      (∀ rest, nodes.routeFrom fuel (nodes.nodes i).place (nodes.nodes i).parent rest =
        route ++ rest) ∧
      Route.replay ⟨start.1, start.2, z⟩ route = ⟨(nodes.nodes i).x, (nodes.nodes i).y, z⟩ ∧
      (∀ p ∈ Route.positions ⟨start.1, start.2, z⟩ route, ∃ j < nodes.curNode, j ≠ 0 ∧
        p = ⟨(nodes.nodes j).x, (nodes.nodes j).y, z⟩) ∧
      ∀ direction ∈ route, direction.offset ∈ search.directions := by
  -- the route to the parent, then one step more
  induction fuel generalizing i with
  | zero => exact absurd hfuel (Nat.not_lt_zero _)
  | succ fuel ih =>
    by_cases hzero : i = 0
    · have hroot := h.root_place
      have hplace : (nodes.nodes 0).x = start.1 ∧ (nodes.nodes 0).y = start.2 :=
        ⟨congrArg Prod.fst hroot, congrArg Prod.snd hroot⟩
      rw [hzero, h.root_parent, hplace.1, hplace.2]
      exact ⟨[], fun rest => rfl, rfl, fun p hp => absurd hp List.not_mem_nil,
        fun direction hd => absurd hd List.not_mem_nil⟩
    · obtain ⟨j, hj, hparent, cost, hstep, hle⟩ := h.parent i hi hzero
      have hpos := hstep.cost_pos
      obtain ⟨route, hroute, hreplay, hpositions, hoffsets⟩ := ih hj (by omega)
      obtain ⟨direction, hdirection, hoffset, hnext⟩ := directionTo_step z
        (hdirections hstep.direction) (h.place_lt hstart hj) (h.place_lt hstart hi)
      have hback : directionBack ((nodes.nodes j).x - (nodes.nodes i).x)
          ((nodes.nodes j).y - (nodes.nodes i).y) = some direction := by
        rw [directionBack_eq, Int.neg_sub, Int.neg_sub]
        exact hdirection
      refine ⟨route ++ [direction], ?_, ?_, ?_, ?_⟩
      · intro rest
        rw [hparent, List.append_assoc, ← hroute]
        show nodes.routeFrom fuel _ _ ((directionBack ((nodes.nodes j).x - (nodes.nodes i).x)
          ((nodes.nodes j).y - (nodes.nodes i).y)).toList ++ rest) = _
        rw [hback]
        rfl
      · rw [Route.replay_append, hreplay]
        exact hnext
      · intro p hp
        rw [Route.positions_append, hreplay] at hp
        apply (List.mem_append.mp hp).elim
        · exact hpositions p
        · intro hlast
          obtain rfl := List.mem_singleton.mp hlast
          exact ⟨i, hi, hzero, hnext⟩
      · intro d hd
        apply (List.mem_append.mp hd).elim
        · exact hoffsets d
        · intro hlast
          obtain rfl := List.mem_singleton.mp hlast
          rw [hoffset]
          exact hstep.direction

end PathSearch

end TyanoCore
