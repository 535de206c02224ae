import Mathlib.Tactic.Linarith
import TyanoCore.PathTo

/-!
# The cost of a path

A diagonal step costs more than two orthogonal ones, and the estimate of the search counts on diagonal
steps all the same.  So `getPathTo` need not find the cheapest route; but the estimate is never more
than a quarter too high, and neither is the cost of the route.
-/

namespace TyanoCore

open Frontier (Walk)

namespace PathMap

variable {map : PathMap}

/-- A step from one position to another next to it that can be walked to, with the cost of the step
and of the tile that is entered. -/
structure WalkStep (map : PathMap) (p q : Coordinates) (cost : ℕ) : Prop where
  x_near : ((q.x : ℤ) - p.x).natAbs ≤ 1
  y_near : ((q.y : ℤ) - p.y).natAbs ≤ 1
  moves : q.x ≠ p.x ∨ q.y ≠ p.y
  floor : q.z = map.position.z
  canWalkTo : map.canWalkTo q = true
  cost_eq : cost = (if q.x ≠ p.x ∧ q.y ≠ p.y then mapDiagonalWalkCost else mapNormalWalkCost) +
    map.tileWalkCost q

theorem mem_neighbourOrderList {dx dy : ℤ} (hx : dx.natAbs ≤ 1) (hy : dy.natAbs ≤ 1)
    (hmoves : dx ≠ 0 ∨ dy ≠ 0) : (dx, dy) ∈ neighbourOrderList := by
  have hdx : dx = -1 ∨ dx = 0 ∨ dx = 1 := by omega
  have hdy : dy = -1 ∨ dy = 0 ∨ dy = 1 := by omega
  rcases hdx with rfl | rfl | rfl <;> rcases hdy with rfl | rfl | rfl <;>
    first | decide | exact absurd hmoves (by decide)

/-- Such a step is one of the search without a bound on the distance. -/
theorem WalkStep.step {p q : Coordinates} {cost : ℕ} (h : map.WalkStep p q cost) :
    (map.searchTo (-1)).Step (p.x, p.y) (q.x, q.y) cost := by
  have hx := h.x_near
  have hy := h.y_near
  have hmoves := h.moves
  have hplace : (⟨q.x, q.y, map.position.z⟩ : Coordinates) = q := by rw [← h.floor]
  have hbounds := le_of_canWalkTo h.canWalkTo
  refine ⟨mem_neighbourOrderList hx hy ?_, hbounds.1, hbounds.2, ?_, ?_⟩
  · show (q.x : ℤ) - p.x ≠ 0 ∨ (q.y : ℤ) - p.y ≠ 0
    omega
  · show map.canWalkTo ⟨q.x, q.y, map.position.z⟩ = true
    rw [hplace]
    exact h.canWalkTo
  · have hdiagonal : ((p.x : ℤ) - q.x).natAbs = ((p.y : ℤ) - q.y).natAbs ↔
        q.x ≠ p.x ∧ q.y ≠ p.y := by omega
    show cost = AStarNodes.getMapWalkCost (p.x, p.y) (q.x, q.y) +
      map.tileWalkCost ⟨q.x, q.y, map.position.z⟩
    rw [h.cost_eq, hplace, AStarNodes.getMapWalkCost]
    simp only [hdiagonal]

/-! ## The estimate -/

/-- The orthogonal steps between two places. -/
def steps (p q : ℕ × ℕ) : ℕ := ((p.1 : ℤ) - q.1).natAbs + ((p.2 : ℤ) - q.2).natAbs

/-- The estimate counts 25 where two steps would cost 20. -/
theorem estimate_le (p q : ℕ × ℕ) :
    4 * AStarNodes.getEstimatedDistance p.1 p.2 q.1 q.2 ≤ 5 * (10 * steps p q) := by
  rw [AStarNodes.getEstimatedDistance, steps, mapDiagonalWalkCost, mapNormalWalkCost]
  omega

theorem near_of_mem : ∀ offset ∈ neighbourOrderList,
    offset.1.natAbs ≤ 1 ∧ offset.2.natAbs ≤ 1 := by
  decide

/-- No walk is cheaper than the orthogonal steps between its ends. -/
theorem steps_le_of_walk {maxDistance : ℤ} {p q : ℕ × ℕ} {cost : ℕ}
    (h : Walk (map.searchTo maxDistance).Step p q cost) : 10 * steps p q ≤ cost := by
  have hpotential := h.potential_le (fun p => 10 * steps p q) (by
    intro u v c hstep
    have hnear := near_of_mem _ hstep.direction
    have hcost := hstep.cost_eq
    rw [AStarNodes.getMapWalkCost, mapDiagonalWalkCost, mapNormalWalkCost] at hcost
    show 10 * (((u.1 : ℤ) - q.1).natAbs + ((u.2 : ℤ) - q.2).natAbs) ≤
      c + 10 * (((v.1 : ℤ) - q.1).natAbs + ((v.2 : ℤ) - q.2).natAbs)
    dsimp only at hnear
    split at hcost <;> omega)
  have hzero : steps q q = 0 := by
    rw [steps]
    omega
  rw [hzero] at hpotential
  exact hpotential

/-! ## The route that is found -/

variable {maxDistance : ℤ} {start : ℕ × ℕ} {nodes : AStarNodes} {n : ℕ}

/-- The best node, where the creature stands, is at most a quarter dearer than any walk to it. -/
theorem g_le_of_walk (h : (map.searchTo maxDistance).Explored start nodes)
    (hbest : nodes.getBestNode = some n) {cost : ℕ}
    (hplace : (nodes.nodes n).place = (map.position.x, map.position.y))
    (hwalk : Walk (map.searchTo maxDistance).Step start (nodes.nodes n).place cost) :
    4 * (nodes.nodes n).g ≤ 5 * cost := by
  obtain ⟨hn, hopen, hleast⟩ := AStarNodes.getBestNode_spec hbest
  let labelled (isOpen : Bool) (p : ℕ × ℕ) (l : ℕ) : Prop :=
    ∃ i < nodes.curNode, nodes.openNodes i = isOpen ∧ (nodes.nodes i).place = p ∧
      (nodes.nodes i).g = l
  have hlabel (i : ℕ) (hi : i < nodes.curNode) :
      labelled false (nodes.nodes i).place (nodes.nodes i).g ∨
        labelled true (nodes.nodes i).place (nodes.nodes i).g := by
    cases hstate : nodes.openNodes i with
    | false => exact Or.inl ⟨i, hi, hstate, rfl, rfl⟩
    | true => exact Or.inr ⟨i, hi, hstate, rfl, rfl⟩
  have hfollowed : Frontier.Followed (map.searchTo maxDistance).Step (labelled false)
      (labelled true) := by
    rintro _ _ ⟨i, hi, hclosed, rfl, rfl⟩ q c hstep
    obtain ⟨j, hj, rfl, hle⟩ := h.followed i hi hclosed q c hstep
    exact ⟨(nodes.nodes j).g, hle, hlabel j hj⟩
  have hroot := hlabel 0 h.pos
  rw [h.root_place, h.root_g] at hroot
  have hnot (l : ℕ) : ¬ labelled false (nodes.nodes n).place l := by
    rintro ⟨i, hi, hclosed, hsame, _⟩
    rw [h.distinct i hi n hn hsame, hopen] at hclosed
    exact absurd hclosed Bool.true_eq_false_eq_False
  -- the node that waits on the walk has no lower `f` than the best one
  obtain ⟨_, _, rest, ⟨i, hi, hwaits, rfl, rfl⟩, hrest, hcost⟩ :=
    hfollowed.exists_waiting hwalk hroot hnot
  have hf := hleast i hi hwaits
  rw [h.f_eq n hn, h.f_eq i hi] at hf
  have hestimate := estimate_le (nodes.nodes i).place (map.position.x, map.position.y)
  have hsteps := steps_le_of_walk hrest
  rw [hplace] at hsteps
  have hsame : (map.searchTo maxDistance).estimate (nodes.nodes i).x (nodes.nodes i).y =
      AStarNodes.getEstimatedDistance (nodes.nodes i).place.1 (nodes.nodes i).place.2
        map.position.x map.position.y := rfl
  rw [hsame] at hf
  dsimp only at hestimate
  omega

/-- No walkable route from the destination to the creature costs less than four fifths of the one that
`getPathTo` returns. -/
theorem getPathTo_cost (map : PathMap) (destination : Coordinates) (route : Route)
    (h : map.getPathTo destination (-1) = some route) (cost : ℕ)
    (hwalk : Walk map.WalkStep destination map.position.coordinates cost) :
    4 * (map.searchTo (-1)).costBack map.position.coordinates route ≤ 5 * cost := by
  obtain ⟨hwalkable, _, nodes, n, hexplored, hbest, hx, hy, hroute⟩ := getPathTo_eq_some h
  have hbounds := le_of_canWalkTo hwalkable
  have hread := hexplored.toRooted.routeTo (List.Subset.refl _)
    ⟨hbounds.1.trans_lt (by decide), hbounds.2.trans_lt (by decide)⟩ map.position.z
    (AStarNodes.getBestNode_spec hbest).1 (Nat.lt_succ_self _)
  rw [hx, hy, ← hroute] at hread
  have hplace : (nodes.nodes n).place = (map.position.x, map.position.y) := Prod.ext hx hy
  have hsteps : Walk (map.searchTo (-1)).Step (destination.x, destination.y)
      (nodes.nodes n).place cost := by
    rw [hplace]
    exact hwalk.map (fun p : Coordinates => (p.x, p.y)) fun _ _ _ hstep => hstep.step
  have hg := g_le_of_walk hexplored hbest hplace hsteps
  have hcost : (map.searchTo (-1)).costBack map.position.coordinates route ≤ (nodes.nodes n).g :=
    hread.2.2.2
  omega

/-- The orthogonal way costs 50. -/
theorem walk_twoWays : Walk twoWays.WalkStep ⟨100, 100, 7⟩ twoWays.position.coordinates 50 := by
  have hstep (p q : Coordinates) (h : ((q.x : ℤ) - p.x).natAbs + ((q.y : ℤ) - p.y).natAbs = 1)
      (hfloor : q.z = 7) (hwalk : twoWays.canWalkTo q = true) (hcost : twoWays.tileWalkCost q = 0) :
      twoWays.WalkStep p q 10 := by
    refine ⟨by omega, by omega, by omega, hfloor, hwalk, ?_⟩
    rw [hcost, if_neg (by omega)]
    rfl
  exact Walk.next (hstep _ ⟨101, 100, 7⟩ (by decide) rfl (by decide) (by decide)) <|
    Walk.next (hstep _ ⟨102, 100, 7⟩ (by decide) rfl (by decide) (by decide)) <|
    Walk.next (hstep _ ⟨103, 100, 7⟩ (by decide) rfl (by decide) (by decide)) <|
    Walk.next (hstep _ ⟨103, 101, 7⟩ (by decide) rfl (by decide) (by decide)) <|
    Walk.next (hstep _ ⟨103, 102, 7⟩ (by decide) rfl (by decide) (by decide)) <|
    Walk.here _

theorem getPathTo_cost_twoWays :
    4 * (twoWays.searchTo (-1)).costBack twoWays.position.coordinates
      [.west, .west, .northWest, .north] ≤ 5 * 50 :=
  getPathTo_cost twoWays ⟨100, 100, 7⟩ _ getPathTo_twoWays 50 walk_twoWays

/-- The route that is returned need not be the cheapest one. -/
theorem cheaper_walk_twoWays : ∃ route, twoWays.getPathTo ⟨100, 100, 7⟩ (-1) = some route ∧
    ∃ cost, Walk twoWays.WalkStep ⟨100, 100, 7⟩ twoWays.position.coordinates cost ∧
      cost < (twoWays.searchTo (-1)).costBack twoWays.position.coordinates route :=
  ⟨_, getPathTo_twoWays, 50, walk_twoWays, by decide⟩

end PathMap

end TyanoCore
