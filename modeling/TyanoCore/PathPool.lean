import TyanoCore.Chain
import TyanoCore.PathMatching
import TyanoCore.PathTo

/-!
# The pool of a path search, at every moment

Between two rounds and between two neighbours of a round, the nodes in use have different places and
their parents make up a tree with the start of the search at its root.  So the loops that follow the
parents end, and so do the searches.
-/

namespace TyanoCore

namespace AStarNodes

def parent (nodes : AStarNodes) (i : ℕ) : Option ℕ := (nodes.nodes i).parent

/-- What the pool of a search from a place is to be like. -/
structure Sound (nodes : AStarNodes) (start : ℕ × ℕ) : Prop where
  le_max : nodes.curNode ≤ maxNodes
  distinct : ∀ i < nodes.curNode, ∀ j < nodes.curNode, (nodes.nodes i).x = (nodes.nodes j).x →
    (nodes.nodes i).y = (nodes.nodes j).y → i = j
  root : 0 < nodes.curNode ∧ (nodes.nodes 0).place = start ∧ nodes.parent 0 = none
  parent_lt : ∀ i < nodes.curNode, ∀ j, nodes.parent i = some j → j < nodes.curNode
  forest : ∀ i < nodes.curNode, Relation.ReflTransGen (fun i j => nodes.parent i = some j) i 0
  follow_ends : ∀ i < nodes.curNode, Chain.Ends nodes.parent i

end AStarNodes

namespace PathSearch

variable {search : PathSearch} {nodes nodes' : AStarNodes} {start : ℕ × ℕ} {i n : ℕ}

/-- The pools of a round: the one before it, and the one after each neighbour that has been tried. -/
def Passes (search : PathSearch) (nodes nodes' : AStarNodes) : Prop :=
  nodes' = nodes ∨ ∃ n tried, nodes.getBestNode = some n ∧ tried <+: search.directions ∧
    nodes' = (search.expand n tried nodes).1

/-! ## Following the parents -/

/-- From every node in use the parents lead to the root, each cheaper than the one before. -/
theorem Rooted.forest (h : search.Rooted start nodes) (hi : i < nodes.curNode) :
    Relation.ReflTransGen (fun i j => nodes.parent i = some j) i 0 := by
  induction hg : (nodes.nodes i).g using Nat.strong_induction_on generalizing i with
  | _ g ih =>
    by_cases hzero : i = 0
    · rw [hzero]
    · obtain ⟨j, hj, hparent, cost, hstep, hle⟩ := h.parent i hi hzero
      have hpos := hstep.cost_pos
      exact (ih (nodes.nodes j).g (by omega) hj rfl).head hparent

/-- There are no more steps to the root than the node costs. -/
theorem Rooted.after_parent (h : search.Rooted start nodes) (hi : i < nodes.curNode)
    (hg : (nodes.nodes i).g < n) : Chain.after nodes.parent n i = none := by
  induction n generalizing i with
  | zero => exact absurd hg (Nat.not_lt_zero _)
  | succ n ih =>
    by_cases hzero : i = 0
    · have hroot : nodes.parent 0 = none := h.root_parent
      rw [hzero, Chain.after, hroot]
      rfl
    · obtain ⟨j, hj, hparent, cost, hstep, hle⟩ := h.parent i hi hzero
      have hpos := hstep.cost_pos
      have hnext : nodes.parent i = some j := hparent
      rw [Chain.after, hnext, Option.bind_some]
      exact ih hj (by omega)

theorem Rooted.sound (h : search.Rooted start nodes) : nodes.Sound start := by
  refine ⟨h.le_max, ?_, ⟨h.pos, h.root_place, h.root_parent⟩, ?_, fun i hi => h.forest hi,
    fun i hi => ⟨_, h.after_parent hi (Nat.lt_succ_self _)⟩⟩
  · intro i hi j hj hx hy
    exact h.distinct i hi j hj (Prod.ext hx hy)
  · intro i hi j hparent
    by_cases hzero : i = 0
    · rw [hzero] at hparent
      exact absurd (h.root_parent.symm.trans hparent) (Option.some_ne_none j).symm
    · obtain ⟨k, hk, hk', -⟩ := h.parent i hi hzero
      rw [Option.some.inj (hparent.symm.trans hk')]
      exact hk

/-- The neighbours keep the tree, however many of them have been tried. -/
theorem Passes.rooted (h : search.Rooted start nodes) (hpasses : search.Passes nodes nodes') :
    search.Rooted start nodes' := by
  rcases hpasses with rfl | ⟨n, tried, hbest, htried, rfl⟩
  · exact h
  · have hn := (AStarNodes.getBestNode_spec hbest).1
    exact (expand_keeps (fun _ => True) (fun _ _ _ _ _ _ _ _ _ => True.intro) tried
      htried.subset h hn True.intro).1

end PathSearch

namespace PathMap

open PathSearch

variable {map : PathMap} {destination : Coordinates} {maxDistance : ℤ} {s : AStarNodes}
  {condition : FrozenPathingConditionCall} {findParameters : FindPathParams}

/-- The pools that `getPathTo` comes to. -/
def PoolTo (map : PathMap) (destination : Coordinates) (maxDistance : ℤ) (nodes : AStarNodes) : Prop :=
  ∃ s, Loop.Reaches (map.roundTo maxDistance)
      ((map.searchTo maxDistance).startNodes (destination.x, destination.y)) s ∧
    (map.searchTo maxDistance).Passes s nodes

/-- The pools that `getPathMatching` comes to. -/
def PoolMatching (map : PathMap) (condition : FrozenPathingConditionCall)
    (findParameters : FindPathParams) (nodes : AStarNodes) : Prop :=
  ∃ s, Loop.Reaches (map.roundMatching condition findParameters)
      (map.startMatching condition findParameters) s ∧
    (map.searchMatching condition findParameters).Passes s.nodes nodes

theorem rooted_of_reaches (hsteps : Loop.Reaches (map.roundTo maxDistance)
      ((map.searchTo maxDistance).startNodes (destination.x, destination.y)) s) :
    (map.searchTo maxDistance).Rooted (destination.x, destination.y) s := by
  induction hsteps with
  | refl => exact (explored_startNodes _ _).toRooted
  | tail _ hround ih =>
    obtain ⟨n, hbest, -, rfl⟩ := roundTo_inl hround
    have hpasses : (map.searchTo maxDistance).Passes _ _ :=
      Or.inr ⟨n, _, hbest, List.prefix_refl _, rfl⟩
    exact (hpasses.rooted ih).closeNode n

theorem searched_of_reaches {s : MatchState}
    (hsteps : Loop.Reaches (map.roundMatching condition findParameters)
      (map.startMatching condition findParameters) s) :
    map.Searched condition findParameters s := by
  induction hsteps with
  | refl => exact searched_startMatching map condition findParameters
  | tail _ hround ih => exact ih.round hround

/-- Both searches end, and at every moment their pools are in order. -/
theorem pool_sound (map : PathMap) :
    (∀ destination maxDistance,
      (∃ rounds, (Loop.run (map.roundTo maxDistance) rounds
        ((map.searchTo maxDistance).startNodes (destination.x, destination.y))).isSome) ∧
      ∀ nodes, map.PoolTo destination maxDistance nodes →
        nodes.Sound (destination.x, destination.y)) ∧
    ∀ condition findParameters,
      (∃ rounds, (Loop.run (map.roundMatching condition findParameters) rounds
        (map.startMatching condition findParameters)).isSome) ∧
      ∀ nodes, map.PoolMatching condition findParameters nodes →
        nodes.Sound (map.position.x, map.position.y) := by
  constructor
  · intro destination maxDistance
    refine ⟨⟨maxRounds, run_roundTo_isSome map maxDistance _⟩, ?_⟩
    -- the round before has a pool that is in order, and so have all it passes through
    rintro nodes ⟨s, hsteps, hpasses⟩
    exact (hpasses.rooted (rooted_of_reaches hsteps)).sound
  · intro condition findParameters
    refine ⟨⟨maxRounds, run_roundMatching_isSome map condition findParameters⟩, ?_⟩
    rintro nodes ⟨s, hsteps, hpasses⟩
    exact (hpasses.rooted (searched_of_reaches hsteps).rooted).sound

end PathMap

end TyanoCore
