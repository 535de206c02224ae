import TyanoCore.PathTo

/-!
# The path to a match

`Map::getPathMatching` searches from the creature for a place that meets a condition.  A match that is
not the best one is remembered while the search goes on; the nodes on the way to it may get other
parents in the meantime, but the route that is read in the end still leads to it.
-/

namespace TyanoCore

open PathSearch

structure FindPathParams where
  fullPathSearch : Bool
  clearSight : Bool
  allowDiagonal : Bool
  keepDistance : Bool
  maxSearchDist : ℤ
  minTargetDist : ℤ
  maxTargetDist : ℤ

/-- The target of a search and from where it can be seen. -/
structure FrozenPathingConditionCall where
  targetPos : Coordinates
  isSightClear : Coordinates → Bool

namespace FrozenPathingConditionCall

/-- `FrozenPathingConditionCall::isInRange`. -/
def isInRange (condition : FrozenPathingConditionCall) (startPos testPos : Coordinates)
    (fpp : FindPathParams) : Bool :=
  let targetPos := condition.targetPos
  let dxMin := if fpp.fullPathSearch ∨ (startPos.x : ℤ) - targetPos.x ≤ 0 then fpp.maxTargetDist else 0
  let dxMax := if fpp.fullPathSearch ∨ (startPos.x : ℤ) - targetPos.x ≥ 0 then fpp.maxTargetDist else 0
  let dyMin := if fpp.fullPathSearch ∨ (startPos.y : ℤ) - targetPos.y ≤ 0 then fpp.maxTargetDist else 0
  let dyMax := if fpp.fullPathSearch ∨ (startPos.y : ℤ) - targetPos.y ≥ 0 then fpp.maxTargetDist else 0
  if (testPos.x : ℤ) > targetPos.x + dxMax ∨ (testPos.x : ℤ) < targetPos.x - dxMin then false
  else if (testPos.y : ℤ) > targetPos.y + dyMax ∨ (testPos.y : ℤ) < targetPos.y - dyMin then false
  else true

/-- The call of the condition; it may store a better `bestMatchDist`. -/
def call (condition : FrozenPathingConditionCall) (startPos testPos : Coordinates)
    (fpp : FindPathParams) (bestMatchDist : ℤ) : Bool × ℤ :=
  if !condition.isInRange startPos testPos fpp then (false, bestMatchDist)
  else if fpp.clearSight && !condition.isSightClear testPos then (false, bestMatchDist)
  else
    let targetPos := condition.targetPos
    let testDist : ℤ :=
      max ((targetPos.x : ℤ) - testPos.x).natAbs ((targetPos.y : ℤ) - testPos.y).natAbs
    if fpp.maxTargetDist = 1 then
      (testDist ≥ fpp.minTargetDist && testDist ≤ fpp.maxTargetDist, bestMatchDist)
    else if testDist ≤ fpp.maxTargetDist then
      if testDist < fpp.minTargetDist then (false, bestMatchDist)
      else if testDist = fpp.maxTargetDist then (true, 0)
      -- not quite what is wanted, but the best so far
      else if testDist > bestMatchDist then (true, testDist)
      else (false, bestMatchDist)
    else (false, bestMatchDist)

theorem isInRange_of_call {condition : FrozenPathingConditionCall} {startPos testPos : Coordinates}
    {fpp : FindPathParams} {bestMatchDist : ℤ}
    (h : (condition.call startPos testPos fpp bestMatchDist).1 = true) :
    condition.isInRange startPos testPos fpp = true := by
  by_contra hout
  rw [Bool.not_eq_true] at hout
  rw [call, hout, Bool.not_false, if_pos rfl] at h
  exact absurd h Bool.false_ne_true

end FrozenPathingConditionCall

/-- The variables of the loop. -/
structure MatchState where
  nodes : AStarNodes
  found : Option ℕ
  bestMatch : ℤ

namespace PathMap

/-- The search of `getPathMatching`, which knows no estimate. -/
def searchMatching (map : PathMap) (condition : FrozenPathingConditionCall)
    (findParameters : FindPathParams) : PathSearch :=
  let startPos := map.position.coordinates
  { directions := neighbourOrderList.take (if findParameters.allowDiagonal then 8 else 4)
    canEnter := fun x y =>
      !(findParameters.maxSearchDist ≠ -1 &&
        (findParameters.maxSearchDist < ((startPos.x : ℤ) - x).natAbs ||
          findParameters.maxSearchDist < ((startPos.y : ℤ) - y).natAbs)) &&
      !(findParameters.keepDistance &&
        !condition.isInRange startPos ⟨x, y, startPos.z⟩ findParameters) &&
      map.canWalkTo ⟨x, y, startPos.z⟩
    tileWalkCost := fun x y => map.tileWalkCost ⟨x, y, startPos.z⟩
    estimate := fun _ _ => 0 }

/-- A round of the loop of `getPathMatching`; the result is the node that was found. -/
def roundMatching (map : PathMap) (condition : FrozenPathingConditionCall)
    (findParameters : FindPathParams) (s : MatchState) :
    MatchState ⊕ Option (AStarNodes × ℕ) :=
  if findParameters.maxSearchDist ≠ -1 ∨ s.nodes.countClosedNodes < 100 then
    match s.nodes.getBestNode with
    | none => .inr (s.found.map fun found => (s.nodes, found))
    | some n =>
      let node := s.nodes.nodes n
      let startPos := map.position.coordinates
      let (matched, bestMatch) :=
        condition.call startPos ⟨node.x, node.y, startPos.z⟩ findParameters s.bestMatch
      if matched ∧ bestMatch = 0 then .inr (some (s.nodes, n))
      else
        let found := if matched then some n else s.found
        let search := map.searchMatching condition findParameters
        match search.expand n search.directions s.nodes with
        | (nodes, exhausted) =>
          -- without nodes left the search goes on with what it has, if it has found something
          if exhausted ∧ found = none then .inr none
          else .inl { nodes := nodes.closeNode n, found := found, bestMatch := bestMatch }
  else .inr (s.found.map fun found => (s.nodes, found))

def startMatching (map : PathMap) (condition : FrozenPathingConditionCall)
    (findParameters : FindPathParams) : MatchState where
  nodes := (map.searchMatching condition findParameters).startNodes (map.position.x, map.position.y)
  found := none
  bestMatch := 0

/-- `getPathMatching`: the route, where it returns true. -/
def getPathMatching (map : PathMap) (condition : FrozenPathingConditionCall)
    (findParameters : FindPathParams) : Option Route :=
  match Loop.run (map.roundMatching condition findParameters) maxRounds
    (map.startMatching condition findParameters) with
  | some (some (nodes, found)) =>
    let node := nodes.nodes found
    some (nodes.routeFrom (node.g + 1) node.place node.parent [])
  | _ => none

variable {map : PathMap} {condition : FrozenPathingConditionCall} {findParameters : FindPathParams}
  {s s' : MatchState} {n : ℕ}

/-- The condition has returned true for a place in a round of the search. -/
def Matched (map : PathMap) (condition : FrozenPathingConditionCall)
    (findParameters : FindPathParams) (p : Coordinates) : Prop :=
  ∃ s, Loop.Reaches (map.roundMatching condition findParameters)
      (map.startMatching condition findParameters) s ∧
    (condition.call map.position.coordinates p findParameters s.bestMatch).1 = true

/-- The node `n` is in use, and its place has matched. -/
def MatchedNode (map : PathMap) (condition : FrozenPathingConditionCall)
    (findParameters : FindPathParams) (nodes : AStarNodes) (n : ℕ) : Prop :=
  n < nodes.curNode ∧ map.Matched condition findParameters
    ⟨(nodes.nodes n).x, (nodes.nodes n).y, map.position.z⟩

/-- What holds in every round. -/
structure Searched (map : PathMap) (condition : FrozenPathingConditionCall)
    (findParameters : FindPathParams) (s : MatchState) : Prop where
  reaches : Loop.Reaches (map.roundMatching condition findParameters)
    (map.startMatching condition findParameters) s
  rooted : (map.searchMatching condition findParameters).Rooted (map.position.x, map.position.y) s.nodes
  found : ∀ n, s.found = some n → map.MatchedNode condition findParameters s.nodes n

theorem MatchedNode.expand {nodes : AStarNodes} {k : ℕ} {start : ℕ × ℕ}
    (h : map.MatchedNode condition findParameters nodes n)
    (hrooted : (map.searchMatching condition findParameters).Rooted start nodes)
    (hk : k < nodes.curNode) :
    map.MatchedNode condition findParameters
      (((map.searchMatching condition findParameters).expand k
        (map.searchMatching condition findParameters).directions nodes).1.closeNode k) n := by
  -- the place of a node in use stays, whatever its parent is
  have hkeeps := expand_keeps (map.MatchedNode condition findParameters · n)
    (by
      intro nodes nodes' i q cost _ _ hmatched hstored
      have hplace := hstored.place_eq hmatched.1
      refine ⟨hmatched.1.trans_le hstored.curNode_le, ?_⟩
      have hx : (nodes'.nodes n).x = (nodes.nodes n).x := congrArg Prod.fst hplace
      have hy : (nodes'.nodes n).y = (nodes.nodes n).y := congrArg Prod.snd hplace
      rw [hx, hy]
      exact hmatched.2)
    (map.searchMatching condition findParameters).directions (List.Subset.refl _) hrooted hk h
  rw [AStarNodes.closeNode]
  split
  · exact hkeeps.2.2
  · exact hkeeps.2.2

/-- A round follows the neighbours of the best node, which may have matched. -/
theorem roundMatching_inl (h : map.roundMatching condition findParameters s = .inl s') :
    ∃ n, s.nodes.getBestNode = some n ∧
      s'.nodes = ((map.searchMatching condition findParameters).expand n
        (map.searchMatching condition findParameters).directions s.nodes).1.closeNode n ∧
      (s'.found = s.found ∨ s'.found = some n ∧
        (condition.call map.position.coordinates
          ⟨(s.nodes.nodes n).x, (s.nodes.nodes n).y, map.position.z⟩ findParameters
          s.bestMatch).1 = true) := by
  rw [roundMatching] at h
  split at h
  · split at h
    · exact absurd h Sum.inr_ne_inl
    · next n hbest =>
      dsimp only at h
      split at h
      · exact absurd h Sum.inr_ne_inl
      · split at h
        · next hmatched =>
          split at h
          · exact absurd h Sum.inr_ne_inl
          · obtain rfl := Sum.inl.inj h
            exact ⟨n, hbest, rfl, Or.inr ⟨rfl, hmatched⟩⟩
        · split at h
          · exact absurd h Sum.inr_ne_inl
          · obtain rfl := Sum.inl.inj h
            exact ⟨n, hbest, rfl, Or.inl rfl⟩
  · exact absurd h Sum.inr_ne_inl

/-- The search ends with a match, remembered or of the best node. -/
theorem roundMatching_inr {nodes : AStarNodes}
    (h : map.roundMatching condition findParameters s = .inr (some (nodes, n))) :
    nodes = s.nodes ∧ (s.found = some n ∨ s.nodes.getBestNode = some n ∧
      (condition.call map.position.coordinates
        ⟨(s.nodes.nodes n).x, (s.nodes.nodes n).y, map.position.z⟩ findParameters
        s.bestMatch).1 = true) := by
  have hfound (h : (s.found.map fun found => (s.nodes, found)) = some (nodes, n)) :
      nodes = s.nodes ∧ s.found = some n := by
    obtain ⟨found, hfound, heq⟩ := Option.map_eq_some_iff.mp h
    obtain ⟨rfl, rfl⟩ := Prod.mk.inj heq
    exact ⟨rfl, hfound⟩
  rw [roundMatching] at h
  split at h
  · split at h
    · have hend := hfound (Sum.inr.inj h)
      exact ⟨hend.1, Or.inl hend.2⟩
    · next m hbest =>
      dsimp only at h
      split at h
      · next hmatched =>
        obtain ⟨rfl, rfl⟩ := Prod.mk.inj (Option.some.inj (Sum.inr.inj h))
        exact ⟨rfl, Or.inr ⟨hbest, hmatched.1⟩⟩
      · -- out of nodes or on to the next round
        have hother (p : Prop) [Decidable p] (s' : MatchState) : (if p then .inr none else .inl s') ≠
            (.inr (some (nodes, n)) : MatchState ⊕ Option (AStarNodes × ℕ)) := by
          split
          · exact fun heq => Option.some_ne_none _ (Sum.inr.inj heq).symm
          · exact Sum.inl_ne_inr
        exact absurd h (hother _ _)
  · have hend := hfound (Sum.inr.inj h)
    exact ⟨hend.1, Or.inl hend.2⟩

theorem Searched.matched_best (h : map.Searched condition findParameters s)
    (hbest : s.nodes.getBestNode = some n)
    (hmatched : (condition.call map.position.coordinates
      ⟨(s.nodes.nodes n).x, (s.nodes.nodes n).y, map.position.z⟩ findParameters
      s.bestMatch).1 = true) : map.MatchedNode condition findParameters s.nodes n :=
  ⟨(AStarNodes.getBestNode_spec hbest).1, s, h.reaches, hmatched⟩

theorem Searched.round (h : map.Searched condition findParameters s)
    (hround : map.roundMatching condition findParameters s = .inl s') :
    map.Searched condition findParameters s' := by
  obtain ⟨n, hbest, hnodes, hfound⟩ := roundMatching_inl hround
  have hn := (AStarNodes.getBestNode_spec hbest).1
  have hexpand := expand_keeps (fun _ => True) (fun _ _ _ _ _ _ _ _ _ => True.intro)
    (map.searchMatching condition findParameters).directions (List.Subset.refl _) h.rooted hn
    True.intro
  refine ⟨h.reaches.tail hround, ?_, ?_⟩
  · rw [hnodes]
    exact hexpand.1.closeNode n
  · intro m hm
    have hmatched : map.MatchedNode condition findParameters s.nodes m := by
      rcases hfound with hold | ⟨hnew, hcall⟩
      · exact h.found m (hold.symm.trans hm)
      · obtain rfl := Option.some.inj (hnew.symm.trans hm)
        exact h.matched_best hbest hcall
    rw [hnodes]
    exact hmatched.expand h.rooted hn

theorem searched_startMatching (map : PathMap) (condition : FrozenPathingConditionCall)
    (findParameters : FindPathParams) : map.Searched condition findParameters
      (map.startMatching condition findParameters) :=
  ⟨Relation.ReflTransGen.refl, (explored_startNodes _ _).toRooted,
    fun n hn => absurd hn (Option.some_ne_none n).symm⟩

/-- Every search ends. -/
theorem run_roundMatching_isSome (map : PathMap) (condition : FrozenPathingConditionCall)
    (findParameters : FindPathParams) :
    (Loop.run (map.roundMatching condition findParameters) maxRounds
      (map.startMatching condition findParameters)).isSome := by
  apply Loop.run_isSome_of_invariant
    (fun s => map.Searched condition findParameters s ∧ Bounded s.nodes)
    (fun s => PathSearch.measure s.nodes) _
    ⟨searched_startMatching map condition findParameters, bounded_startNodes _ _⟩
    (measure_startNodes_lt _ _)
  intro s s' hinv hround
  obtain ⟨n, hbest, hnodes, _⟩ := roundMatching_inl hround
  obtain ⟨hn, hopen, _⟩ := AStarNodes.getBestNode_spec hbest
  have hless := round_measure_lt (fun x y => map.tileWalkCost_le ⟨x, y, map.position.z⟩)
    hinv.1.rooted hinv.2 hn hopen
  rw [hnodes]
  exact ⟨⟨hinv.1.round hround, hless.1⟩, hless.2⟩

/-- What the search has found when `getPathMatching` returns true. -/
theorem getPathMatching_eq_some {route : Route}
    (h : map.getPathMatching condition findParameters = some route) :
    ∃ nodes n, (map.searchMatching condition findParameters).Rooted
        (map.position.x, map.position.y) nodes ∧
      map.MatchedNode condition findParameters nodes n ∧
      route = nodes.routeFrom ((nodes.nodes n).g + 1) (nodes.nodes n).place
        (nodes.nodes n).parent [] := by
  rw [getPathMatching] at h
  split at h
  · next nodes n hrun =>
    have hpost := Loop.run_invariant (map.Searched condition findParameters)
      (fun result => ∀ nodes n, result = some (nodes, n) →
        (map.searchMatching condition findParameters).Rooted (map.position.x, map.position.y) nodes ∧
          map.MatchedNode condition findParameters nodes n)
      (fun _ _ ha hround => ha.round hround)
      (by
        rintro a _ ha hround nodes n rfl
        obtain ⟨rfl, hfound | ⟨hbest, hmatched⟩⟩ := roundMatching_inr hround
        · exact ⟨ha.rooted, ha.found n hfound⟩
        · exact ⟨ha.rooted, ha.matched_best hbest hmatched⟩)
      (searched_startMatching map condition findParameters) hrun
    obtain ⟨hrooted, hmatched⟩ := hpost nodes n rfl
    exact ⟨nodes, n, hrooted, hmatched, (Option.some.inj h).symm⟩
  · exact absurd h (Option.some_ne_none _).symm

/-- What a search of `getPathMatching` says of the places it enters. -/
structure Entered (map : PathMap) (condition : FrozenPathingConditionCall)
    (findParameters : FindPathParams) (p : Coordinates) : Prop where
  canWalkTo : map.canWalkTo p = true
  within : findParameters.maxSearchDist ≠ -1 →
    (((map.position.x : ℤ) - p.x).natAbs : ℤ) ≤ max 0 findParameters.maxSearchDist ∧
      (((map.position.y : ℤ) - p.y).natAbs : ℤ) ≤ max 0 findParameters.maxSearchDist
  isInRange : findParameters.keepDistance = true →
    condition.isInRange map.position.coordinates p findParameters = true

theorem entered_of_step {p q : ℕ × ℕ} {cost : ℕ}
    (h : (map.searchMatching condition findParameters).Step p q cost) :
    map.Entered condition findParameters ⟨q.1, q.2, map.position.z⟩ := by
  have henter := h.canEnter
  simp only [searchMatching, Bool.and_eq_true, Bool.not_eq_true', Bool.and_eq_false_iff,
    Bool.or_eq_false_iff, decide_eq_false_iff_not, not_not, not_lt, Bool.not_eq_false'] at henter
  obtain ⟨⟨hwithin, hrange⟩, hwalk⟩ := henter
  refine ⟨hwalk, ?_, ?_⟩
  · intro hbound
    have hle := hwithin.resolve_left hbound
    exact ⟨hle.1.trans (le_max_right _ _), hle.2.trans (le_max_right _ _)⟩
  · intro hkeep
    rw [hkeep] at hrange
    exact hrange.resolve_left Bool.true_eq_false_eq_False

/-- No step is needed where the place of the creature matches. -/
theorem Matched.entered (h : map.Matched condition findParameters map.position.coordinates) :
    map.Entered condition findParameters map.position.coordinates := by
  obtain ⟨s, _, hcall⟩ := h
  refine ⟨?_, fun _ => ?_, fun _ => FrozenPathingConditionCall.isInRange_of_call hcall⟩
  · rw [canWalkTo, decide_eq_true rfl, Bool.true_or]
  · show (((map.position.x : ℤ) - map.position.x).natAbs : ℤ) ≤ _ ∧
      (((map.position.y : ℤ) - map.position.y).natAbs : ℤ) ≤ _
    rw [Int.sub_self, Int.sub_self]
    exact ⟨le_max_left 0 _, le_max_left 0 _⟩

/-- The first four neighbours are not diagonal. -/
theorem orthogonal_of_mem : ∀ offset ∈ neighbourOrderList.take 4, offset.1 = 0 ∨ offset.2 = 0 := by
  decide

/-- The route that `getPathMatching` returns ends at a place that matched; it only enters places that
the search may enter, and without diagonal steps unless they are allowed. -/
theorem getPathMatching_sound (map : PathMap) (condition : FrozenPathingConditionCall)
    (findParameters : FindPathParams) (route : Route)
    (h : map.getPathMatching condition findParameters = some route) :
    map.Matched condition findParameters (Route.replay map.position.coordinates route) ∧
    (∀ p, p ∈ Route.positions map.position.coordinates route ∨
        p = Route.replay map.position.coordinates route → map.Entered condition findParameters p) ∧
    (findParameters.allowDiagonal = false →
      ∀ direction ∈ route, direction.offset.1 = 0 ∨ direction.offset.2 = 0) := by
  obtain ⟨nodes, n, hrooted, hmatched, rfl⟩ := getPathMatching_eq_some h
  have hstart : map.position.x < 2 ^ 16 ∧ map.position.y < 2 ^ 16 :=
    ⟨map.position.x_le.trans_lt (by decide), map.position.y_le.trans_lt (by decide)⟩
  obtain ⟨route, hroute, hreplay, hpositions, hoffsets⟩ := hrooted.routeFrom (List.take_subset _ _)
    hstart map.position.z hmatched.1 (Nat.lt_succ_self _)
  have hposition (p : Coordinates) (hp : p ∈ Route.positions map.position.coordinates route) :
      map.Entered condition findParameters p := by
    obtain ⟨j, hj, hzero, rfl⟩ := hpositions p hp
    obtain ⟨k, _, _, cost, hstep, _⟩ := hrooted.parent j hj hzero
    exact entered_of_step hstep
  have hend : map.Matched condition findParameters (Route.replay map.position.coordinates route) := by
    have hreplay' : Route.replay map.position.coordinates route = _ := hreplay
    rw [hreplay']
    exact hmatched.2
  rw [hroute, List.append_nil]
  refine ⟨hend, ?_, ?_⟩
  · intro p hp
    apply hp.elim (hposition p)
    rintro rfl
    apply (Route.replay_eq_or_mem map.position.coordinates route).elim _ (hposition _)
    intro hsame
    rw [hsame] at hend ⊢
    exact hend.entered
  · intro hdiagonal direction hd
    have hoffset := hoffsets direction hd
    rw [searchMatching, hdiagonal] at hoffset
    exact orthogonal_of_mem _ hoffset

/-- What a creature asks for that wants to get next to a target within ten tiles. -/
def nextTo : FindPathParams where
  fullPathSearch := true
  clearSight := false
  allowDiagonal := false
  keepDistance := false
  maxSearchDist := 10
  minTargetDist := 1
  maxTargetDist := 1

theorem getPathMatching_twoWays :
    twoWays.getPathMatching ⟨⟨100, 100, 7⟩, fun _ => true⟩ nextTo =
      some [.north, .north, .west, .west] := by
  decide +kernel

theorem getPathMatching_sound_twoWays :
    twoWays.Matched ⟨⟨100, 100, 7⟩, fun _ => true⟩ nextTo ⟨101, 100, 7⟩ ∧
      twoWays.Entered ⟨⟨100, 100, 7⟩, fun _ => true⟩ nextTo ⟨103, 100, 7⟩ := by
  have hsound := getPathMatching_sound twoWays _ nextTo _ getPathMatching_twoWays
  exact ⟨hsound.1, hsound.2.1 _ (Or.inl (by decide))⟩

/-- With a distance below -1 no neighbour is entered, but the place of the creature may still match;
it is not within that distance of itself. -/
theorem match_without_distance : ∃ (map : PathMap) (condition : FrozenPathingConditionCall)
    (findParameters : FindPathParams), findParameters.maxSearchDist = -2 ∧
    map.getPathMatching condition findParameters = some [] ∧
    ¬ (((map.position.x : ℤ) - (Route.replay map.position.coordinates []).x).natAbs : ℤ) ≤
      findParameters.maxSearchDist :=
  ⟨twoWays, ⟨⟨103, 102, 7⟩, fun _ => true⟩,
    { nextTo with maxSearchDist := -2, minTargetDist := 0, maxTargetDist := 0 }, rfl,
    by decide +kernel, by decide⟩

end PathMap

end TyanoCore
