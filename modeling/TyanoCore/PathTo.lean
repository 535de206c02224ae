import TyanoCore.Loop
import TyanoCore.PathBound
import TyanoCore.PathRoute

/-!
# The path to a destination

`Map::getPathTo` searches from the destination to the creature, so that the parents of the node where
the creature stands are the steps of its route.  A route that is found ends at the destination and
only enters tiles that can be walked to.
-/

namespace TyanoCore

open PathSearch

namespace PathMap

/-- `getTileWalkCost` of the tile at a position. -/
def tileWalkCost (map : PathMap) (p : Coordinates) : ℕ :=
  match map.getTile p with
  | none => 0
  | some tile => AStarNodes.getTileWalkCost tile

/-- The search of `getPathTo`. -/
def searchTo (map : PathMap) (maxDistance : ℤ) : PathSearch :=
  let endPos := map.position
  { directions := neighbourOrderList
    canEnter := fun x y =>
      !(maxDistance ≠ -1 && (maxDistance < ((endPos.x : ℤ) - x).natAbs ||
        maxDistance < ((endPos.y : ℤ) - y).natAbs)) && map.canWalkTo ⟨x, y, endPos.z⟩
    tileWalkCost := fun x y => map.tileWalkCost ⟨x, y, endPos.z⟩
    estimate := fun x y => AStarNodes.getEstimatedDistance x y endPos.x endPos.y }

/-- A round of the loop of `getPathTo`; the result is the node where the creature stands. -/
def roundTo (map : PathMap) (maxDistance : ℤ) (nodes : AStarNodes) :
    AStarNodes ⊕ Option (AStarNodes × ℕ) :=
  if maxDistance ≠ -1 ∨ nodes.countClosedNodes < 100 then
    match nodes.getBestNode with
    | none => .inr none
    | some n =>
      if (nodes.nodes n).x = map.position.x ∧ (nodes.nodes n).y = map.position.y then
        .inr (some (nodes, n))
      else
        match (map.searchTo maxDistance).expand n neighbourOrderList nodes with
        | (_, true) => .inr none
        | (nodes, false) => .inl (nodes.closeNode n)
  else .inr none

/-- More rounds than any search takes. -/
def maxRounds : ℕ := 2 ^ 26

/-- `getPathTo`: the route, where it returns true. -/
def getPathTo (map : PathMap) (destination : Coordinates) (maxDistance : ℤ) : Option Route :=
  if !map.canWalkTo destination then none
  else if destination.z ≠ map.position.z then none
  else
    match Loop.run (map.roundTo maxDistance) maxRounds
      ((map.searchTo maxDistance).startNodes (destination.x, destination.y)) with
    | some (some (nodes, n)) =>
      let route := nodes.routeTo ((nodes.nodes n).g + 2) (map.position.x, map.position.y) (some n)
      if route.isEmpty then none else some route
    | _ => none

variable {map : PathMap} {maxDistance : ℤ} {destination : Coordinates} {nodes nodes' : AStarNodes}
  {start : ℕ × ℕ}

/-- A round follows the neighbours of the best node and closes it. -/
theorem roundTo_inl (h : map.roundTo maxDistance nodes = .inl nodes') :
    ∃ n, nodes.getBestNode = some n ∧
      ((map.searchTo maxDistance).expand n (map.searchTo maxDistance).directions nodes).2 = false ∧
      nodes' = ((map.searchTo maxDistance).expand n
        (map.searchTo maxDistance).directions nodes).1.closeNode n := by
  rw [roundTo] at h
  split at h
  · split at h
    · exact absurd h Sum.inr_ne_inl
    · next n hbest =>
      split at h
      · exact absurd h Sum.inr_ne_inl
      · split at h
        · exact absurd h Sum.inr_ne_inl
        · next expanded heq =>
          have hexpand : (map.searchTo maxDistance).expand n
              (map.searchTo maxDistance).directions nodes = (expanded, false) := heq
          refine ⟨n, hbest, ?_, ?_⟩
          · rw [hexpand]
          · rw [hexpand]
            exact (Sum.inl.inj h).symm
  · exact absurd h Sum.inr_ne_inl

/-- The search ends with the best node where the creature stands. -/
theorem roundTo_inr {n : ℕ} (h : map.roundTo maxDistance nodes = .inr (some (nodes', n))) :
    nodes' = nodes ∧ nodes.getBestNode = some n ∧
      (nodes.nodes n).x = map.position.x ∧ (nodes.nodes n).y = map.position.y := by
  rw [roundTo] at h
  split at h
  · split at h
    · exact absurd (Sum.inr.inj h) (Option.some_ne_none _).symm
    · next m hbest =>
      split at h
      · next hplace =>
        obtain ⟨rfl, rfl⟩ := Prod.mk.inj (Option.some.inj (Sum.inr.inj h))
        exact ⟨rfl, hbest, hplace⟩
      · split at h
        · exact absurd (Sum.inr.inj h) (Option.some_ne_none _).symm
        · exact absurd h Sum.inl_ne_inr
  · exact absurd (Sum.inr.inj h) (Option.some_ne_none _).symm

theorem tileWalkCost_le (map : PathMap) (p : Coordinates) : map.tileWalkCost p ≤ 60 := by
  rw [tileWalkCost]
  split
  · exact Nat.zero_le _
  · rw [AStarNodes.getTileWalkCost, mapNormalWalkCost]
    split <;> split <;> omega

/-- Every search ends. -/
theorem run_roundTo_isSome (map : PathMap) (maxDistance : ℤ) (p : ℕ × ℕ) :
    (Loop.run (map.roundTo maxDistance) maxRounds
      ((map.searchTo maxDistance).startNodes p)).isSome := by
  apply Loop.run_isSome_of_invariant
    (fun nodes => (map.searchTo maxDistance).Explored p nodes ∧ Bounded nodes) PathSearch.measure _
    ⟨explored_startNodes _ p, bounded_startNodes _ p⟩ (measure_startNodes_lt _ p)
  intro nodes nodes' hinv hround
  obtain ⟨n, hbest, hroom, rfl⟩ := roundTo_inl hround
  obtain ⟨hn, hopen, _⟩ := AStarNodes.getBestNode_spec hbest
  have hless := round_measure_lt (fun x y => map.tileWalkCost_le ⟨x, y, map.position.z⟩)
    hinv.1.toRooted hinv.2 hn hopen
  exact ⟨⟨hinv.1.round hn hroom, hless.1⟩, hless.2⟩

/-- Where the search ends, and with what nodes. -/
theorem run_roundTo {rounds n : ℕ} (h : (map.searchTo maxDistance).Explored start nodes)
    (hrun : Loop.run (map.roundTo maxDistance) rounds nodes = some (some (nodes', n))) :
    (map.searchTo maxDistance).Explored start nodes' ∧ nodes'.getBestNode = some n ∧
      (nodes'.nodes n).x = map.position.x ∧ (nodes'.nodes n).y = map.position.y := by
  have hpost := Loop.run_invariant ((map.searchTo maxDistance).Explored start)
    (fun result => ∀ nodes n, result = some (nodes, n) →
      (map.searchTo maxDistance).Explored start nodes ∧ nodes.getBestNode = some n ∧
        (nodes.nodes n).x = map.position.x ∧ (nodes.nodes n).y = map.position.y)
    (by
      intro a a' ha hround
      obtain ⟨n, hbest, hroom, rfl⟩ := roundTo_inl hround
      exact ha.round (AStarNodes.getBestNode_spec hbest).1 hroom)
    (by
      rintro a _ ha hround nodes n rfl
      obtain ⟨rfl, hbest, hplace⟩ := roundTo_inr hround
      exact ⟨ha, hbest, hplace⟩)
    h hrun
  exact hpost nodes' n rfl

/-- What the search has found when `getPathTo` returns true, and how the route is read off it. -/
theorem getPathTo_eq_some {route : Route} (h : map.getPathTo destination maxDistance = some route) :
    map.canWalkTo destination = true ∧ destination.z = map.position.z ∧ ∃ nodes n,
      (map.searchTo maxDistance).Explored (destination.x, destination.y) nodes ∧
      nodes.getBestNode = some n ∧
      (nodes.nodes n).x = map.position.x ∧ (nodes.nodes n).y = map.position.y ∧
      route = nodes.routeTo ((nodes.nodes n).g + 1) (nodes.nodes n).place
        (nodes.nodes n).parent := by
  rw [getPathTo] at h
  split at h
  · exact absurd h (Option.some_ne_none _).symm
  next hwalk =>
  split at h
  · exact absurd h (Option.some_ne_none _).symm
  next hfloor =>
  split at h
  · next nodes n hrun =>
    obtain ⟨hexplored, hbest, hx, hy⟩ := run_roundTo (explored_startNodes _ _) hrun
    have hroute : nodes.routeTo ((nodes.nodes n).g + 2) (map.position.x, map.position.y) (some n) =
        nodes.routeTo ((nodes.nodes n).g + 1) (nodes.nodes n).place (nodes.nodes n).parent := by
      -- the first place is that of the creature, from which no step leads
      show (directionTo ((nodes.nodes n).x - map.position.x)
        ((nodes.nodes n).y - map.position.y)).toList ++ _ = _
      rw [hx, hy, Int.sub_self, Int.sub_self]
      rfl
    dsimp only at h
    rw [hroute] at h
    split at h
    · exact absurd h (Option.some_ne_none _).symm
    · refine ⟨?_, not_not.mp hfloor, nodes, n, hexplored, hbest, hx, hy, (Option.some.inj h).symm⟩
      rw [Bool.not_eq_true, Bool.not_eq_false'] at hwalk
      exact hwalk
  · exact absurd h (Option.some_ne_none _).symm

/-- A position that can be walked to is on the map. -/
theorem le_of_canWalkTo {p : Coordinates} (h : map.canWalkTo p = true) :
    p.x ≤ Position.maxX ∧ p.y ≤ Position.maxY := by
  rw [canWalkTo, Bool.or_eq_true, decide_eq_true_eq] at h
  rcases h with hown | htile
  · rw [hown]
    exact ⟨map.position.x_le, map.position.y_le⟩
  · rw [getTile] at htile
    split at htile
    · next hnone =>
      split at hnone
      · exact absurd htile Bool.false_ne_true
      · exact absurd htile Bool.false_ne_true
    · next hsome =>
      split at hsome
      · exact absurd hsome (Option.some_ne_none _).symm
      · next hbounds => omega

/-- The route that `getPathTo` returns ends at the destination, and every position on it can be walked
to and is on the map and on the floor of the creature. -/
theorem getPathTo_sound (map : PathMap) (destination : Coordinates) (maxDistance : ℤ) (route : Route)
    (h : map.getPathTo destination maxDistance = some route) :
    Route.replay map.position.coordinates route = destination ∧
      ∀ p ∈ Route.positions map.position.coordinates route,
        map.canWalkTo p = true ∧ p.x ≤ Position.maxX ∧ p.y ≤ Position.maxY ∧
          p.z = map.position.z := by
  obtain ⟨hwalk, hfloor, nodes, n, hexplored, hbest, hx, hy, hroute⟩ := getPathTo_eq_some h
  have hbounds := le_of_canWalkTo hwalk
  have hstart : destination.x < 2 ^ 16 ∧ destination.y < 2 ^ 16 :=
    ⟨hbounds.1.trans_lt (by decide), hbounds.2.trans_lt (by decide)⟩
  have hread := hexplored.toRooted.routeTo (List.Subset.refl _) hstart map.position.z
    (AStarNodes.getBestNode_spec hbest).1 (Nat.lt_succ_self _)
  rw [hx, hy, ← hroute] at hread
  refine ⟨?_, ?_⟩
  · calc
      Route.replay map.position.coordinates route
          = ⟨destination.x, destination.y, map.position.z⟩ := hread.1
      _ = destination := by rw [← hfloor]
  · intro p hp
    obtain ⟨j, hj, rfl⟩ := hread.2.1 p hp
    have henter : map.canWalkTo ⟨(nodes.nodes j).x, (nodes.nodes j).y, map.position.z⟩ = true := by
      by_cases hzero : j = 0
      · have hplace := hexplored.root_place
        have hsame : (⟨(nodes.nodes 0).x, (nodes.nodes 0).y, map.position.z⟩ : Coordinates) =
            destination := by
          rw [← hfloor]
          exact congrArg (fun p : ℕ × ℕ => (⟨p.1, p.2, destination.z⟩ : Coordinates)) hplace
        rw [hzero, hsame]
        exact hwalk
      · obtain ⟨k, _, _, cost, hstep, _⟩ := hexplored.parent j hj hzero
        exact (Bool.and_eq_true _ _ ▸ hstep.canEnter).2
    have hle := le_of_canWalkTo henter
    exact ⟨henter, hle.1, hle.2, rfl⟩

/-- A creature that gets to (100, 100) by a diagonal step, or by orthogonal ones further east. -/
def twoWays : PathMap where
  position :=
    { x := 103, y := 102, z := 7
      x_le := by decide, y_le := by decide, z_le := Position.ground_le_maxZ }
  tiles := fun p =>
    if p.z = 7 ∧ (p.x, p.y) ∈ [(100, 100), (100, 101), (101, 102), (102, 102), (103, 102),
        (101, 100), (102, 100), (103, 100), (103, 101)] then
      some { accepts := true, topVisibleCreature := false, harmfulField := false }
    else none

theorem getPathTo_twoWays :
    twoWays.getPathTo ⟨100, 100, 7⟩ (-1) = some [.west, .west, .northWest, .north] := by
  decide +kernel

theorem getPathTo_sound_twoWays :
    Route.replay ⟨103, 102, 7⟩ [.west, .west, .northWest, .north] = ⟨100, 100, 7⟩ ∧
      ∀ p ∈ Route.positions ⟨103, 102, 7⟩ [.west, .west, .northWest, .north],
        twoWays.canWalkTo p = true ∧ p.x ≤ Position.maxX ∧ p.y ≤ Position.maxY ∧ p.z = 7 :=
  getPathTo_sound twoWays ⟨100, 100, 7⟩ (-1) _ getPathTo_twoWays

end PathMap

end TyanoCore
