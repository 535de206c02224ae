import TyanoCore.TileSearch
import TyanoCore.TileThings

/-!
# A search whose tests follow forwarders

The admission test of a tile can go on to other tiles, without end, and it sets flags of tiles.  The
search of `World::findTileForThingNearPosition` is written out here for such tests; where they do
neither, it is the search for tests that only answer.
-/

namespace TyanoCore

open LevelSearch

/-- The flags of all tiles. -/
abbrev TileFlags := Position → TileFlag → Bool

/-- What reads and sets the flags of tiles, and may not return. -/
abbrev Forwarding := StateT TileFlags Option

structure ForwardingSearch where
  hasTile : Position → Bool
  test : Position → BitVec 32 → Forwarding PlacementReturn
  position : Position
  radius : ℕ
  directFlags : BitVec 32
  indirectFlags : BitVec 32

namespace ForwardingSearch

variable (q : ForwardingSearch) (dice : Shuffles)

def pathfindingFlags : BitVec 32 :=
  q.directFlags ||| q.indirectFlags ||| FLAG_IGNOREBLOCKCREATURE ||| FLAG_PATHFINDING

/-- The loop over the direct neighbours. -/
def tryDirectNeighbors : List Position → PlacementReturn → Bool →
    Forwarding (Except FindTileResult (PlacementReturn × Bool))
  | [], finalResult, hasDirectNeighborTiles => pure (.ok (finalResult, hasDirectNeighborTiles))
  | p :: ps, finalResult, hasDirectNeighborTiles =>
    if q.hasTile p then do
      let result ← q.test p q.indirectFlags
      if result = .noError then pure (.error (.found p q.indirectFlags))
      else
        tryDirectNeighbors ps (if finalResult = .noError then .notPossible else finalResult) true
    else tryDirectNeighbors ps finalResult hasDirectNeighborTiles

/-- The lambda `queueNeighbors`. -/
def queueNeighbors (s : State Position) (tilePosition : Position) :
    Forwarding (State Position) := do
  let result ← q.test tilePosition q.pathfindingFlags
  match result with
  | .noError | .notEnoughRoom | .tileIsFull =>
    pure ((dice.shuffle tilePosition (tilePosition.neighbors 1)).foldl
      (fun s neighborPosition =>
        if neighborPosition.distanceTo q.position ≤ q.radius ∧ neighborPosition ∉ s.marked then
          ⟨s.queue ++ [neighborPosition], insert neighborPosition s.marked⟩
        else s)
      s)
  | _ => pure s

/-- The direct neighbours that are tiles are where the search starts. -/
def queueDirectNeighbors : List Position → State Position → Forwarding (State Position)
  | [], s => pure s
  | p :: ps, s =>
    if q.hasTile p then do
      let s ← q.queueNeighbors dice s p
      queueDirectNeighbors ps s
    else queueDirectNeighbors ps s

/-- The loop that continues the search until it hits a wall, for at most `n` positions. -/
def continueSearch : ℕ → State Position → Forwarding (Option Position)
  | _, ⟨[], _⟩ => pure none
  | 0, ⟨_ :: _, _⟩ => failure
  | n + 1, ⟨tilePosition :: testablePositions, testedPositions⟩ =>
    if q.hasTile tilePosition then do
      let result ← q.test tilePosition q.indirectFlags
      if result = .noError then pure (some tilePosition)
      else
        let s ← q.queueNeighbors dice ⟨testablePositions, testedPositions⟩ tilePosition
        continueSearch n s
    else continueSearch n ⟨testablePositions, testedPositions⟩

/-- The positions that a search can visit. -/
def fuel : ℕ := (2 * q.radius + 1) ^ 3

/-- The neighbours, once the exact position has not passed. -/
def searchNeighbors (finalResult : PlacementReturn) : Forwarding FindTileResult :=
  let directNeighborPositions := q.position.neighbors 1
  if 1 ≤ q.radius ∧ directNeighborPositions ≠ [] then do
    let directNeighborPositions := dice.shuffle q.position directNeighborPositions
    match ← q.tryDirectNeighbors directNeighborPositions finalResult false with
    | .error result => pure result
    | .ok (finalResult, hasDirectNeighborTiles) =>
      if 2 ≤ q.radius ∧ hasDirectNeighborTiles = true then do
        let s ← q.queueDirectNeighbors dice directNeighborPositions
          ⟨[], insert q.position directNeighborPositions.toFinset⟩
        match ← q.continueSearch dice q.fuel s with
        | some tile => pure (.found tile q.indirectFlags)
        | none => pure (TileSearch.failure finalResult)
      else pure (TileSearch.failure finalResult)
  else pure (TileSearch.failure finalResult)

/-- `World::findTileForThingNearPosition`. -/
def findTileForThingNearPosition : Forwarding FindTileResult :=
  if q.hasTile q.position then do
    let result ← q.test q.position q.directFlags
    if result = .noError then pure (.found q.position q.directFlags)
    else q.searchNeighbors dice result
  else q.searchNeighbors dice .noError

/-! ## Tests that only answer -/

/-- The search for tests with the given answers. -/
def answered (answer : Position → BitVec 32 → PlacementReturn) : TileSearch where
  hasTile := q.hasTile
  test := answer
  position := q.position
  radius := q.radius
  directFlags := q.directFlags
  indirectFlags := q.indirectFlags

/-- In the given state the tests of the search answer and leave the flags as they are. -/
def Answers (flags : TileFlags) (answer : Position → BitVec 32 → PlacementReturn) : Prop :=
  ∀ p, q.hasTile p = true → ∀ f, f = q.directFlags ∨ f = q.indirectFlags ∨ f = q.pathfindingFlags →
    (q.test p f).run flags = some (answer p f, flags)

variable {q dice} {flags : TileFlags} {answer : Position → BitVec 32 → PlacementReturn}

section Answered

variable (h : q.Answers flags answer)

include h

theorem tryDirectNeighbors_run (ps : List Position) (finalResult : PlacementReturn)
    (hasDirectNeighborTiles : Bool) :
    (q.tryDirectNeighbors ps finalResult hasDirectNeighborTiles).run flags =
      some ((q.answered answer).tryDirectNeighbors ps finalResult hasDirectNeighborTiles,
        flags) := by
  induction ps generalizing finalResult hasDirectNeighborTiles with
  | nil => rfl
  | cons p ps ih =>
    rw [tryDirectNeighbors, TileSearch.tryDirectNeighbors]
    by_cases hp : q.hasTile p = true
    · have htile : (q.answered answer).hasTile p = true := hp
      rw [if_pos hp, if_pos htile, StateT.run_bind, h p hp _ (.inr (.inl rfl))]
      change StateT.run (if answer p q.indirectFlags = .noError then _ else _) flags = _
      by_cases hresult : answer p q.indirectFlags = .noError
      · have hanswer : (q.answered answer).test p (q.answered answer).indirectFlags = .noError :=
          hresult
        rw [if_pos hresult, if_pos hanswer]
        rfl
      · have hanswer : (q.answered answer).test p (q.answered answer).indirectFlags ≠ .noError :=
          hresult
        rw [if_neg hresult, if_neg hanswer]
        exact ih _ _
    · have htile : ¬ (q.answered answer).hasTile p = true := hp
      rw [if_neg hp, if_neg htile]
      exact ih _ _

theorem queueNeighbors_run (s : State Position) {p : Position} (hp : q.hasTile p = true) :
    (q.queueNeighbors dice s p).run flags =
      some ((q.answered answer).queueNeighbors dice s p, flags) := by
  rw [queueNeighbors, TileSearch.queueNeighbors, TileSearch.isPassable, StateT.run_bind,
    h p hp _ (.inr (.inr rfl))]
  change StateT.run (match answer p q.pathfindingFlags with
    | .noError | .notEnoughRoom | .tileIsFull => _ | _ => _) flags = _
  have hanswer : (q.answered answer).test p (q.answered answer).pathfindingFlags =
      answer p q.pathfindingFlags := rfl
  rw [hanswer]
  cases answer p q.pathfindingFlags <;> rfl

theorem queueDirectNeighbors_run (ps : List Position) (s : State Position) :
    (q.queueDirectNeighbors dice ps s).run flags =
      some (ps.foldl (fun s p => if (q.answered answer).hasTile p then
        (q.answered answer).queueNeighbors dice s p else s) s, flags) := by
  induction ps generalizing s with
  | nil => rfl
  | cons p ps ih =>
    rw [queueDirectNeighbors, List.foldl_cons]
    by_cases hp : q.hasTile p = true
    · have htile : (q.answered answer).hasTile p = true := hp
      rw [if_pos hp, if_pos htile, StateT.run_bind, queueNeighbors_run h s hp]
      exact ih _
    · have htile : ¬ (q.answered answer).hasTile p = true := hp
      rw [if_neg hp, if_neg htile]
      exact ih _

theorem continueSearch_run (n : ℕ) (s : State Position) :
    (q.continueSearch dice n s).run flags =
      ((q.answered answer).continueSearch dice n s).map (·, flags) := by
  induction n generalizing s with
  | zero => rcases s with ⟨_ | ⟨p, queue⟩, marked⟩ <;> rfl
  | succ n ih =>
    obtain ⟨queue, marked⟩ := s
    cases queue with
    | nil => rfl
    | cons p queue =>
      rw [continueSearch, TileSearch.continueSearch]
      by_cases hp : q.hasTile p = true
      · have htile : (q.answered answer).hasTile p = true := hp
        rw [if_pos hp, if_pos htile, StateT.run_bind, h p hp _ (.inr (.inl rfl))]
        change StateT.run (if answer p q.indirectFlags = .noError then _ else _) flags = _
        by_cases hresult : answer p q.indirectFlags = .noError
        · have hanswer :
              (q.answered answer).test p (q.answered answer).indirectFlags = .noError := hresult
          rw [if_pos hresult, if_pos hanswer]
          rfl
        · have hanswer :
              (q.answered answer).test p (q.answered answer).indirectFlags ≠ .noError := hresult
          rw [if_neg hresult, if_neg hanswer, StateT.run_bind, queueNeighbors_run h _ hp]
          exact ih _
      · have htile : ¬ (q.answered answer).hasTile p = true := hp
        rw [if_neg hp, if_neg htile]
        exact ih _

theorem searchNeighbors_run (finalResult : PlacementReturn) :
    (q.searchNeighbors dice finalResult).run flags =
      ((q.answered answer).searchNeighbors dice finalResult).map (·, flags) := by
  unfold searchNeighbors TileSearch.searchNeighbors
  dsimp only
  have hposition : (q.answered answer).position = q.position := rfl
  have hradius : (q.answered answer).radius = q.radius := rfl
  rw [hposition, hradius]
  by_cases hneighbors : 1 ≤ q.radius ∧ q.position.neighbors 1 ≠ []
  · rw [if_pos hneighbors, if_pos hneighbors, StateT.run_bind, tryDirectNeighbors_run h]
    cases htry : (q.answered answer).tryDirectNeighbors
        (dice.shuffle q.position (q.position.neighbors 1)) finalResult false with
    | error result => rfl
    | ok tried =>
      obtain ⟨finalResult, hasDirectNeighborTiles⟩ := tried
      change StateT.run (if 2 ≤ q.radius ∧ hasDirectNeighborTiles = true then _ else _) flags = _
      by_cases hwalk : 2 ≤ q.radius ∧ hasDirectNeighborTiles = true
      · dsimp only
        have hfuel : (q.answered answer).fuel = q.fuel := rfl
        rw [if_pos hwalk, if_pos hwalk, StateT.run_bind, queueDirectNeighbors_run h, hfuel,
          Option.bind_eq_bind, Option.bind_some, StateT.run_bind, continueSearch_run h]
        change Option.bind (Option.map _ ((q.answered answer).continueSearch dice q.fuel
          ((q.answered answer).queueDirectNeighbors dice
            (dice.shuffle q.position (q.position.neighbors 1))))) _ = _
        cases (q.answered answer).continueSearch dice q.fuel
            ((q.answered answer).queueDirectNeighbors dice
              (dice.shuffle q.position (q.position.neighbors 1))) with
        | none => rfl
        | some found => cases found <;> rfl
      · dsimp only
        rw [if_neg hwalk, if_neg hwalk]
        rfl
  · rw [if_neg hneighbors, if_neg hneighbors]
    rfl

/-- Where the tests only answer, the search is the one for their answers. -/
theorem findTileForThingNearPosition_run :
    (q.findTileForThingNearPosition dice).run flags =
      ((q.answered answer).findTileForThingNearPosition dice).map (·, flags) := by
  unfold findTileForThingNearPosition TileSearch.findTileForThingNearPosition
  by_cases htile : q.hasTile q.position = true
  · have htile' : (q.answered answer).hasTile (q.answered answer).position = true := htile
    rw [if_pos htile, if_pos htile', StateT.run_bind, h _ htile _ (.inl rfl)]
    change StateT.run (if answer q.position q.directFlags = .noError then _ else _) flags = _
    by_cases hresult : answer q.position q.directFlags = .noError
    · have hanswer : (q.answered answer).test (q.answered answer).position
          (q.answered answer).directFlags = .noError := hresult
      rw [if_pos hresult, if_pos hanswer]
      rfl
    · have hanswer : (q.answered answer).test (q.answered answer).position
          (q.answered answer).directFlags ≠ .noError := hresult
      rw [if_neg hresult, if_neg hanswer]
      exact searchNeighbors_run h _
  · have htile' : ¬ (q.answered answer).hasTile (q.answered answer).position = true := htile
    rw [if_neg htile, if_neg htile']
    exact searchNeighbors_run h _

/-- Such a search returns. -/
theorem findTileForThingNearPosition_returns (dice : Shuffles) :
    ∃ result, (q.findTileForThingNearPosition dice).run flags = some (result, flags) := by
  obtain ⟨result, hresult, -⟩ := (q.answered answer).findTileForThingNearPosition_spec dice
  rw [findTileForThingNearPosition_run h, hresult]
  exact ⟨result, rfl⟩

end Answered

end ForwardingSearch

end TyanoCore
