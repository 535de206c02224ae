import Mathlib.Algebra.Group.Nat.Defs
import Mathlib.Data.List.ProdSigma
import TyanoCore.LevelSearch
import TyanoCore.Position

/-!
# Finding a tile near a position

`World::findTileForThingNearPosition` tries the exact position, then its neighbours and then walks
over the tiles within a radius.  At every node the neighbours are shuffled to make the game less
predictable; which tile is found depends on the shuffles, whether one is found and how far away it
is does not.
-/

namespace TyanoCore

open LevelSearch

namespace Position

/-- The values of a loop from `-distance` to `distance` with the given increase. -/
def offsets (distance increase : ℕ) : List ℤ :=
  (List.range (2 * distance / increase + 1)).map fun i : ℕ => (i * increase : ℕ) - (distance : ℤ)

/-- `Position::neighbors`. -/
def neighbors (p : Position) (distance : ℕ) : List Position :=
  if distance = 0 then []
  else
    (offsets distance 1).flatMap fun xOffset =>
      -- on the left and the right border all y tiles, in between the top and the bottom tile only
      let yOffsetIncrease :=
        if xOffset = -(distance : ℤ) ∨ xOffset = distance then 1 else 2 * distance
      (offsets distance yOffsetIncrease).filterMap fun yOffset =>
        Position.of (p.x + xOffset) (p.y + yOffset) p.z

theorem mem_offsets_one {distance : ℕ} {i : ℤ} :
    i ∈ offsets distance 1 ↔ i.natAbs ≤ distance := by
  rw [offsets, List.mem_map]
  constructor
  · rintro ⟨k, hk, rfl⟩
    rw [List.mem_range] at hk
    omega
  · intro hi
    refine ⟨(i + distance).toNat, List.mem_range.mpr ?_, ?_⟩ <;> omega

theorem mem_offsets_border {distance : ℕ} (hdistance : 0 < distance) {i : ℤ} :
    i ∈ offsets distance (2 * distance) ↔ i.natAbs = distance := by
  have hlength : 2 * distance / (2 * distance) + 1 = 2 := by
    rw [Nat.div_self (by omega)]
  rw [offsets, hlength]
  simp only [List.range, List.range.loop, List.map_cons, List.map_nil, List.mem_cons,
    List.not_mem_nil, or_false]
  omega

/-- On the same floor the larger offset counts. -/
theorem distanceTo_of_offsets {p q : Position} {xOffset yOffset : ℤ} (hx : (q.x : ℤ) = p.x + xOffset)
    (hy : (q.y : ℤ) = p.y + yOffset) (hz : q.z = p.z) :
    q.distanceTo p = max xOffset.natAbs yOffset.natAbs := by
  have hx' : ((p.x : ℤ) - q.x).natAbs = xOffset.natAbs := by omega
  have hy' : ((p.y : ℤ) - q.y).natAbs = yOffset.natAbs := by omega
  have hz' : ((p.z : ℤ) - q.z).natAbs = 0 := by omega
  rw [distanceTo, hx', hy', hz', max_eq_left (Nat.zero_le _)]

/-- The neighbours at a distance are the positions of the same floor at that distance. -/
theorem mem_neighbors {p q : Position} {distance : ℕ} :
    q ∈ p.neighbors distance ↔ 0 < distance ∧ q.z = p.z ∧ q.distanceTo p = distance := by
  unfold neighbors
  split
  · next h => simp [h]
  · next h =>
    have hdistance : 0 < distance := Nat.pos_of_ne_zero h
    have hy (xOffset yOffset : ℤ) (hx : xOffset.natAbs ≤ distance) :
        yOffset ∈ offsets distance
          (if xOffset = -(distance : ℤ) ∨ xOffset = distance then 1 else 2 * distance) ↔
        max xOffset.natAbs yOffset.natAbs = distance := by
      split
      · next hborder =>
        have hleft : xOffset.natAbs = distance := by omega
        rw [mem_offsets_one, hleft, max_eq_left_iff]
      · rw [mem_offsets_border hdistance]
        omega
    simp only [List.mem_flatMap, List.mem_filterMap, of_eq_some, At]
    constructor
    · rintro ⟨xOffset, hx, yOffset, hyOffset, hqx, hqy, hqz⟩
      rw [mem_offsets_one] at hx
      rw [hy _ _ hx] at hyOffset
      have hz : q.z = p.z := by omega
      exact ⟨hdistance, hz, (distanceTo_of_offsets hqx hqy hz).trans hyOffset⟩
    · rintro ⟨-, hz, hd⟩
      have hmax : max ((q.x : ℤ) - p.x).natAbs ((q.y : ℤ) - p.y).natAbs = distance := by
        rw [← hd]
        exact (distanceTo_of_offsets (by omega) (by omega) hz).symm
      have hleft : ((q.x : ℤ) - p.x).natAbs ≤ distance := (le_max_left _ _).trans_eq hmax
      refine ⟨(q.x : ℤ) - p.x, ?_, (q.y : ℤ) - p.y, ?_, ?_⟩
      · rw [mem_offsets_one]
        exact hleft
      · rw [hy _ _ hleft]
        exact hmax
      · omega

theorem distanceTo_self (p : Position) : p.distanceTo p = 0 := by
  simp [distanceTo]

theorem not_mem_neighbors_self (p : Position) (distance : ℕ) : p ∉ p.neighbors distance := by
  intro h
  obtain ⟨hpos, -, hd⟩ := mem_neighbors.mp h
  rw [distanceTo_self] at hd
  omega

end Position

/-! ## The search -/

/-- The answers of an admission test that the search tells apart; the others have their code. -/
inductive PlacementReturn where
  | noError
  | notPossible
  | notEnoughRoom
  | tileIsFull
  | other (code : ℕ)
deriving DecidableEq

inductive FindTileResult where
  | found (tile : Position) (flags : BitVec 32)
  | failed (error : PlacementReturn)
deriving DecidableEq

def FLAG_IGNOREBLOCKCREATURE : BitVec 32 := 4
def FLAG_PATHFINDING : BitVec 32 := 16
def FLAG_IGNOREFIELDDAMAGE : BitVec 32 := 32

/-- What `std::random_shuffle` makes of the neighbours of a position.  A search shuffles the
neighbours of a position at most once, so these are all the outcomes that the dice can have. -/
structure Shuffles where
  shuffle : Position → List Position → List Position
  perm : ∀ p ps, (shuffle p ps).Perm ps

/-- Dice that leave the neighbours as they are. -/
instance : Inhabited Shuffles := ⟨⟨fun _ ps => ps, fun _ ps => .refl ps⟩⟩

/-- The map, the admission test and the arguments of a search. -/
structure TileSearch where
  hasTile : Position → Bool
  test : Position → BitVec 32 → PlacementReturn
  position : Position
  radius : ℕ
  directFlags : BitVec 32
  indirectFlags : BitVec 32

namespace TileSearch

variable (q : TileSearch) (dice : Shuffles)

def pathfindingFlags : BitVec 32 :=
  q.directFlags ||| q.indirectFlags ||| FLAG_IGNOREBLOCKCREATURE ||| FLAG_PATHFINDING

/-- Usually the tile can be used, it is just temporarily blocked. -/
def isPassable (p : Position) : Bool :=
  match q.test p q.pathfindingFlags with
  | .noError | .notEnoughRoom | .tileIsFull => true
  | _ => false

/-- The loop over the direct neighbours: a tile that passes, or the `finalResult` and
`hasDirectNeighborTiles` after the loop. -/
def tryDirectNeighbors : List Position → PlacementReturn → Bool →
    Except FindTileResult (PlacementReturn × Bool)
  | [], finalResult, hasDirectNeighborTiles => .ok (finalResult, hasDirectNeighborTiles)
  | p :: ps, finalResult, hasDirectNeighborTiles =>
    if q.hasTile p then
      if q.test p q.indirectFlags = .noError then .error (.found p q.indirectFlags)
      else
        tryDirectNeighbors ps (if finalResult = .noError then .notPossible else finalResult) true
    else tryDirectNeighbors ps finalResult hasDirectNeighborTiles

/-- The lambda `queueNeighbors`; the queue holds the `testablePositions` and marked are the
`testedPositions`. -/
def queueNeighbors (s : State Position) (tilePosition : Position) : State Position :=
  if q.isPassable tilePosition then
    (dice.shuffle tilePosition (tilePosition.neighbors 1)).foldl
      (fun s neighborPosition =>
        if neighborPosition.distanceTo q.position ≤ q.radius ∧ neighborPosition ∉ s.marked then
          ⟨s.queue ++ [neighborPosition], insert neighborPosition s.marked⟩
        else s)
      s
  else s

/-- The direct neighbours that are tiles are where the search starts. -/
def queueDirectNeighbors (directNeighborPositions : List Position) : State Position :=
  directNeighborPositions.foldl
    (fun s p => if q.hasTile p then q.queueNeighbors dice s p else s)
    ⟨[], insert q.position directNeighborPositions.toFinset⟩

/-- The loop that continues the search until it hits a wall, for at most `n` positions. -/
def continueSearch : ℕ → State Position → Option (Option Position)
  | _, ⟨[], _⟩ => some none
  | 0, ⟨_ :: _, _⟩ => none
  | n + 1, ⟨tilePosition :: testablePositions, testedPositions⟩ =>
    if q.hasTile tilePosition then
      if q.test tilePosition q.indirectFlags = .noError then some (some tilePosition)
      else continueSearch n (q.queueNeighbors dice ⟨testablePositions, testedPositions⟩ tilePosition)
    else continueSearch n ⟨testablePositions, testedPositions⟩

/-- The positions that a search can visit. -/
def fuel : ℕ := (2 * q.radius + 1) ^ 3

/-- `FindTileResult(finalResult)` at the end: without any tile it is not possible. -/
def failure (finalResult : PlacementReturn) : FindTileResult :=
  .failed (if finalResult = .noError then .notPossible else finalResult)

/-- The neighbours, once the exact position has not passed. -/
def searchNeighbors (finalResult : PlacementReturn) : Option FindTileResult :=
  let directNeighborPositions := q.position.neighbors 1
  if 1 ≤ q.radius ∧ directNeighborPositions ≠ [] then
    let directNeighborPositions := dice.shuffle q.position directNeighborPositions
    match q.tryDirectNeighbors directNeighborPositions finalResult false with
    | .error result => some result
    | .ok (finalResult, hasDirectNeighborTiles) =>
      if 2 ≤ q.radius ∧ hasDirectNeighborTiles = true then
        match q.continueSearch dice q.fuel
          (q.queueDirectNeighbors dice directNeighborPositions) with
        | none => none
        | some (some tile) => some (.found tile q.indirectFlags)
        | some none => some (failure finalResult)
      else some (failure finalResult)
  else some (failure finalResult)

/-- `World::findTileForThingNearPosition`. -/
def findTileForThingNearPosition : Option FindTileResult :=
  if q.hasTile q.position then
    if q.test q.position q.directFlags = .noError then some (.found q.position q.directFlags)
    else q.searchNeighbors dice (q.test q.position q.directFlags)
  else q.searchNeighbors dice .noError

/-! ## What a search is for -/

/-- The tile at the position lets the thing in. -/
def Passes (p : Position) (flags : BitVec 32) : Prop :=
  q.hasTile p = true ∧ q.test p flags = .noError

/-- A position that a walk from a direct neighbour reaches after `n` steps from the centre, over
passable tiles and within the radius. -/
inductive StepsAway : ℕ → Position → Prop where
  | direct {p : Position} : p ∈ q.position.neighbors 1 → StepsAway 1 p
  | step {n : ℕ} {p r : Position} : StepsAway n p → q.hasTile p = true → q.isPassable p = true →
    r ∈ p.neighbors 1 → r.distanceTo q.position ≤ q.radius → StepsAway (n + 1) r

/-- There is a place for the thing: the exact tile, a direct neighbour, or one of the targets that
a walk from a direct neighbour reaches. -/
def CanFind (target : Position → Prop) : Prop :=
  q.Passes q.position q.directFlags ∨
  (1 ≤ q.radius ∧ ∃ p ∈ q.position.neighbors 1, q.Passes p q.indirectFlags) ∨
  (2 ≤ q.radius ∧ (∃ p ∈ q.position.neighbors 1, q.hasTile p = true) ∧
    ∃ p n, target p ∧ q.StepsAway n p ∧ q.Passes p q.indirectFlags)

/-- A place for the thing that is `n` steps away, with the flags that let it in. -/
inductive Place : ℕ → Position → BitVec 32 → Prop where
  | exact : q.Passes q.position q.directFlags → Place 0 q.position q.directFlags
  | direct {p : Position} : 1 ≤ q.radius → p ∈ q.position.neighbors 1 →
    q.Passes p q.indirectFlags → Place 1 p q.indirectFlags
  | walk {n : ℕ} {p : Position} : 2 ≤ q.radius → q.StepsAway n p → p ≠ q.position →
    q.Passes p q.indirectFlags → Place n p q.indirectFlags

/-- A place for the thing such that no place is fewer steps away. -/
def IsNearestPlace (n : ℕ) (p : Position) (flags : BitVec 32) : Prop :=
  q.Place n p flags ∧ ∀ m p' flags', q.Place m p' flags' → n ≤ m

variable {q : TileSearch} {dice : Shuffles}

theorem StepsAway.pos {n : ℕ} {p : Position} (h : q.StepsAway n p) : 0 < n := by
  cases h with
  | direct _ => exact Nat.one_pos
  | step _ _ _ _ _ => exact Nat.succ_pos _

theorem Place.passes {n : ℕ} {p : Position} {flags : BitVec 32} (h : q.Place n p flags) :
    q.Passes p flags := by
  cases h with
  | exact h => exact h
  | direct _ _ h => exact h
  | walk _ _ _ h => exact h

/-- A walk that leads to a tile has begun on a direct neighbour that is a tile. -/
theorem StepsAway.exists_direct_tile {n : ℕ} {p : Position} (h : q.StepsAway n p)
    (hp : q.hasTile p = true) : ∃ r ∈ q.position.neighbors 1, q.hasTile r = true := by
  induction h with
  | direct hmem => exact ⟨_, hmem, hp⟩
  | step _ htile _ _ _ ih => exact ih htile

/-- What can be found are the places. -/
theorem canFind_iff : q.CanFind (· ≠ q.position) ↔ ∃ n p flags, q.Place n p flags := by
  constructor
  · rintro (h | ⟨hradius, p, hp, h⟩ | ⟨hradius, -, p, n, hne, hsteps, h⟩)
    · exact ⟨0, _, _, .exact h⟩
    · exact ⟨1, p, _, .direct hradius hp h⟩
    · exact ⟨n, p, _, .walk hradius hsteps hne h⟩
  · rintro ⟨n, p, flags, h⟩
    cases h with
    | exact h => exact .inl h
    | direct hradius hp h => exact .inr (.inl ⟨hradius, p, hp, h⟩)
    | walk hradius hsteps hne h =>
      exact .inr (.inr ⟨hradius, hsteps.exists_direct_tile h.1, p, n, hne, hsteps, h⟩)

/-! ## The search goes level by level -/

/-- The nodes that follow a position in the search. -/
def next (q : TileSearch) (dice : Shuffles) (p : Position) : List Position :=
  if q.hasTile p ∧ q.isPassable p then
    (dice.shuffle p (p.neighbors 1)).filter (·.distanceTo q.position ≤ q.radius)
  else []

/-- What the loop looks for. -/
def isGoal (q : TileSearch) (p : Position) : Bool :=
  q.hasTile p && q.test p q.indirectFlags = .noError

theorem isGoal_iff {p : Position} : q.isGoal p = true ↔ q.Passes p q.indirectFlags := by
  simp [isGoal, Passes]

theorem mem_next {p r : Position} : r ∈ q.next dice p ↔ q.hasTile p = true ∧
    q.isPassable p = true ∧ r ∈ p.neighbors 1 ∧ r.distanceTo q.position ≤ q.radius := by
  unfold next
  split
  · next h => simp [h, (dice.perm p _).mem_iff]
  · next h =>
    constructor
    · exact fun hr => absurd hr List.not_mem_nil
    · exact fun hr => absurd ⟨hr.1, hr.2.1⟩ h

/-- The positions that the search starts with are tested before. -/
def tested (q : TileSearch) : Finset Position :=
  insert q.position (q.position.neighbors 1).toFinset

theorem mem_tested {p : Position} :
    p ∈ q.tested ↔ p = q.position ∨ p ∈ q.position.neighbors 1 := by
  rw [tested, Finset.mem_insert, List.mem_toFinset]

theorem queueNeighbors_eq (s : State Position) {p : Position} (hp : q.hasTile p = true) :
    q.queueNeighbors dice s p = expand (q.next dice) s p := by
  unfold queueNeighbors expand next
  split
  · next h =>
    rw [if_pos ⟨hp, h⟩, List.foldl_filter]
    congr 1
    ext s r : 2
    unfold push
    by_cases hd : r.distanceTo q.position ≤ q.radius
    · by_cases hr : r ∈ s.marked <;> simp [hd, hr]
    · simp [hd]
  · next h => rw [if_neg fun hand => h hand.2]; rfl

theorem expand_of_not_tile (s : State Position) {p : Position} (hp : ¬ q.hasTile p = true) :
    expand (q.next dice) s p = s := by
  unfold expand next
  rw [if_neg fun h => hp h.1]
  rfl

/-- The loop of the search is a search of the library. -/
theorem continueSearch_eq (n : ℕ) (s : State Position) :
    q.continueSearch dice n s = run (q.next dice) q.isGoal n s := by
  induction n generalizing s with
  | zero => rcases s with ⟨_ | ⟨p, queue⟩, marked⟩ <;> rfl
  | succ n ih =>
    obtain ⟨queue, marked⟩ := s
    cases queue with
    | nil => rfl
    | cons p queue =>
      rw [continueSearch, run]
      by_cases hp : q.hasTile p = true
      · rw [if_pos hp, ih, queueNeighbors_eq _ hp]
        by_cases htest : q.test p q.indirectFlags = .noError <;> simp [isGoal, hp, htest]
      · rw [if_neg hp, ih, expand_of_not_tile _ hp, if_neg fun h => hp (isGoal_iff.mp h).1]

/-- The first nodes that are queued are the neighbours of the direct neighbours. -/
theorem queueDirectNeighbors_eq (ps : List Position) :
    q.queueDirectNeighbors dice ps =
      (ps.flatMap (q.next dice)).foldl push ⟨[], insert q.position ps.toFinset⟩ := by
  rw [← foldl_expand]
  unfold queueDirectNeighbors
  congr 1
  ext s p : 2
  by_cases hp : q.hasTile p = true
  · rw [if_pos hp, queueNeighbors_eq _ hp]
  · rw [if_neg hp, expand_of_not_tile _ hp]

section Start

variable (dice) {ps : List Position} (hps : ps.Perm (q.position.neighbors 1))

include hps

theorem queueDirectNeighbors_spec :
    (∀ p, p ∈ (q.queueDirectNeighbors dice ps).queue ↔
      (∃ r ∈ q.position.neighbors 1, p ∈ q.next dice r) ∧ p ∉ q.tested) ∧
    ∀ p, p ∈ (q.queueDirectNeighbors dice ps).marked ↔
      p ∈ q.tested ∨ p ∈ (q.queueDirectNeighbors dice ps).queue := by
  have htested : insert q.position ps.toFinset = q.tested := by
    rw [tested, List.toFinset_eq_of_perm _ _ hps]
  rw [queueDirectNeighbors_eq, htested]
  obtain ⟨new, hqueue, hnew, hmarked⟩ :=
    foldl_push_spec (ps.flatMap (q.next dice)) ⟨[], q.tested⟩
  have hmem (p : Position) : p ∈ ps.flatMap (q.next dice) ↔
      ∃ r ∈ q.position.neighbors 1, p ∈ q.next dice r := by
    simp only [List.mem_flatMap, hps.mem_iff]
  constructor
  · intro p
    rw [hqueue, List.nil_append, hnew, hmem]
  · intro p
    rw [hmarked, hqueue, List.nil_append, hnew]
    change p ∈ q.tested ∨ _ ↔ p ∈ q.tested ∨ _ ∧ p ∉ q.tested
    by_cases hp : p ∈ q.tested <;> simp [hp]

/-- A walk of the search is a walk from a direct neighbour, which takes two steps more. -/
theorem Walk.stepsAway {n : ℕ} {p : Position}
    (h : Walk (q.next dice) (q.queueDirectNeighbors dice ps).queue q.tested n p) :
    q.StepsAway (n + 2) p := by
  induction h with
  | source hp _ =>
    obtain ⟨⟨r, hr, hnext⟩, -⟩ := ((queueDirectNeighbors_spec dice hps).1 _).mp hp
    obtain ⟨htile, hpass, hneighbor, hd⟩ := mem_next.mp hnext
    exact .step (.direct hr) htile hpass hneighbor hd
  | step _ hnext _ ih =>
    obtain ⟨htile, hpass, hneighbor, hd⟩ := mem_next.mp hnext
    exact .step ih htile hpass hneighbor hd

/-- A walk from a direct neighbour to a position that is not tested yet is a walk of the search,
unless it passes a tested position: then the search has a shorter one. -/
theorem StepsAway.walk {n : ℕ} {p : Position} (h : q.StepsAway n p) (hp : p ∉ q.tested) :
    ∃ m, m + 2 ≤ n ∧
      Walk (q.next dice) (q.queueDirectNeighbors dice ps).queue q.tested m p := by
  induction h with
  | direct hmem => exact absurd (mem_tested.mpr (.inr hmem)) hp
  | @step n r p hsteps htile hpass hneighbor hd ih =>
    have hnext : p ∈ q.next dice r := mem_next.mpr ⟨htile, hpass, hneighbor, hd⟩
    by_cases hr : r ∈ q.tested
    · rcases mem_tested.mp hr with rfl | hr
      · -- the centre has no neighbours but those that are tested
        exact absurd (mem_tested.mpr (.inr hneighbor)) hp
      · have hpos := hsteps.pos
        have hsource := ((queueDirectNeighbors_spec dice hps).1 p).mpr ⟨⟨r, hr, hnext⟩, hp⟩
        exact ⟨0, by omega, .source hsource hp⟩
    · obtain ⟨m, hm, hwalk⟩ := ih hr
      exact ⟨m + 1, by omega, .step hwalk hnext hp⟩

/-- The loop finds one of the nearest goals that are not tested yet, or there is none. -/
theorem continueSearch_isAnswer {n : ℕ} {result : Option Position}
    (h : q.continueSearch dice n (q.queueDirectNeighbors dice ps) = some result) :
    IsAnswer (q.next dice) q.isGoal (q.queueDirectNeighbors dice ps).queue q.tested result := by
  obtain ⟨hqueue, hmarked⟩ := queueDirectNeighbors_spec dice hps
  have hlevel : OnLevel (q.next dice) q.isGoal (q.queueDirectNeighbors dice ps).queue q.tested 0
      (q.queueDirectNeighbors dice ps).queue [] (q.queueDirectNeighbors dice ps).marked :=
    onLevel_sources (fun p hp => ((hqueue p).mp hp).2) hmarked
  apply run_spec n hlevel
  rw [List.append_nil, ← continueSearch_eq]
  exact h

end Start

/-- The positions within the radius. -/
def nodes (q : TileSearch) : Finset Position :=
  let range := Position.offsets q.radius 1
  ((range ×ˢ range ×ˢ range).filterMap fun (x, y, z) =>
    Position.of (q.position.x + x) (q.position.y + y) (q.position.z + z)).toFinset

theorem card_nodes_le : q.nodes.card ≤ q.fuel := by
  calc q.nodes.card ≤ _ := List.toFinset_card_le _
    _ ≤ _ := List.length_filterMap_le _ _
    _ = q.fuel := by
      simp only [List.length_product, Position.offsets, List.length_map, List.length_range,
        Nat.div_one, fuel]
      exact (pow_three (2 * q.radius + 1)).symm

theorem mem_nodes {p : Position} (h : p.distanceTo q.position ≤ q.radius) : p ∈ q.nodes := by
  simp only [Position.distanceTo] at h
  rw [nodes, List.mem_toFinset, List.mem_filterMap]
  refine ⟨((p.x : ℤ) - q.position.x, (p.y : ℤ) - q.position.y, (p.z : ℤ) - q.position.z), ?_, ?_⟩
  · simp only [List.mem_product, Position.mem_offsets_one]
    omega
  · rw [Position.of_eq_some]
    refine ⟨?_, ?_, ?_⟩ <;> omega

/-- The loop ends: it visits no position twice and none beyond the radius. -/
theorem continueSearch_ne_none (q : TileSearch) (dice : Shuffles) (ps : List Position) :
    q.continueSearch dice q.fuel (q.queueDirectNeighbors dice ps) ≠ none := by
  have hclosed (p : Position) : ∀ r ∈ q.next dice p, r ∈ q.nodes :=
    fun r hr => mem_nodes (mem_next.mp hr).2.2.2
  rw [continueSearch_eq]
  apply run_ne_none hclosed
  rw [queueDirectNeighbors_eq, potential_foldl_push]
  · calc 0 + (q.nodes \ insert q.position ps.toFinset).card
        ≤ q.nodes.card := by
          rw [Nat.zero_add]
          exact Finset.card_le_card Finset.sdiff_subset
      _ ≤ q.fuel := card_nodes_le
  · intro r hr
    obtain ⟨p, -, hp⟩ := List.mem_flatMap.mp hr
    exact hclosed p r hp

/-! ## What is found -/

/-- How the loop over the direct neighbours ends: at one that passes, or with none that does and
the same error as before. -/
def DirectOutcome (q : TileSearch) (ps : List Position) (finalResult : PlacementReturn)
    (has : Bool) : Except FindTileResult (PlacementReturn × Bool) → Prop
  | .error result => ∃ p ∈ ps, q.Passes p q.indirectFlags ∧ result = .found p q.indirectFlags
  | .ok (finalResult', has') => (∀ p ∈ ps, ¬ q.Passes p q.indirectFlags) ∧
      (has' = true ↔ has = true ∨ ∃ p ∈ ps, q.hasTile p = true) ∧
      failure finalResult' = failure finalResult

/-- A neighbour that does not pass leaves the outcome to those after it. -/
theorem DirectOutcome.cons {p : Position} {ps : List Position}
    {finalResult₁ finalResult : PlacementReturn} {has₁ has : Bool}
    {outcome : Except FindTileResult (PlacementReturn × Bool)}
    (hp : ¬ q.Passes p q.indirectFlags) (hfailure : failure finalResult₁ = failure finalResult)
    (hhas : has₁ = true ↔ has = true ∨ q.hasTile p = true)
    (h : q.DirectOutcome ps finalResult₁ has₁ outcome) :
    q.DirectOutcome (p :: ps) finalResult has outcome := by
  cases outcome with
  | error result =>
    obtain ⟨r, hr, hpass⟩ := h
    exact ⟨r, List.mem_cons_of_mem p hr, hpass⟩
  | ok state =>
    obtain ⟨hps, hhas', hfailure'⟩ := h
    refine ⟨List.forall_mem_cons.mpr ⟨hp, hps⟩, ?_, hfailure'.trans hfailure⟩
    rw [hhas', hhas, List.exists_mem_cons_iff, or_assoc]

theorem tryDirectNeighbors_spec (q : TileSearch) (ps : List Position)
    (finalResult : PlacementReturn) (has : Bool) :
    q.DirectOutcome ps finalResult has (q.tryDirectNeighbors ps finalResult has) := by
  induction ps generalizing finalResult has with
  | nil => simp [tryDirectNeighbors, DirectOutcome]
  | cons p ps ih =>
    unfold tryDirectNeighbors
    by_cases htile : q.hasTile p = true
    · by_cases htest : q.test p q.indirectFlags = .noError
      · rw [if_pos htile, if_pos htest]
        exact ⟨p, List.mem_cons_self, ⟨htile, htest⟩, rfl⟩
      · -- a tile that refuses: the error is set, to what it would be in the end anyway
        have hfailure : failure (if finalResult = .noError then .notPossible else finalResult) =
            failure finalResult := by
          unfold failure
          by_cases h : finalResult = .noError <;> simp [h]
        rw [if_pos htile, if_neg htest]
        apply (ih _ true).cons (fun h => htest h.2) hfailure
        simp [htile]
    · rw [if_neg htile]
      apply (ih finalResult has).cons (fun h => htile h.1) rfl
      simp [htile]

/-- A search that ends as it should: with one of the nearest places, or with an error when there is
no place. -/
def IsResult (q : TileSearch) (error result : FindTileResult) : Prop :=
  (result = error ∧ ∀ n p flags, ¬ q.Place n p flags) ∨
  ∃ n p flags, result = .found p flags ∧ q.IsNearestPlace n p flags

/-- A direct neighbour that passes is one of the nearest places. -/
theorem isNearestPlace_direct {p : Position} (hexact : ¬ q.Passes q.position q.directFlags)
    (hradius : 1 ≤ q.radius) (hp : p ∈ q.position.neighbors 1)
    (hpass : q.Passes p q.indirectFlags) : q.IsNearestPlace 1 p q.indirectFlags := by
  refine ⟨.direct hradius hp hpass, fun m p' flags' h => ?_⟩
  cases h with
  | exact h => exact absurd h hexact
  | direct _ _ _ => exact le_rfl
  | walk _ hsteps _ _ => exact hsteps.pos

section Far

variable (hexact : ¬ q.Passes q.position q.directFlags)
  (hdirect : ∀ p ∈ q.position.neighbors 1, ¬ q.Passes p q.indirectFlags)

include hexact hdirect

/-- Without a place nearby, a place is a walk away and not tested yet. -/
theorem Place.far {n : ℕ} {p : Position} {flags : BitVec 32} (h : q.Place n p flags) :
    2 ≤ q.radius ∧ flags = q.indirectFlags ∧ q.StepsAway n p ∧ p ∉ q.tested ∧
      q.isGoal p = true := by
  cases h with
  | exact h => exact absurd h hexact
  | direct _ hp h => exact absurd h (hdirect p hp)
  | walk hradius hsteps hne h =>
    refine ⟨hradius, rfl, hsteps, fun hmem => ?_, isGoal_iff.mpr h⟩
    exact (mem_tested.mp hmem).elim hne fun hp => hdirect p hp h

/-- The answer of the loop is the result of the search. -/
theorem isResult_of_isAnswer {ps : List Position} (hps : ps.Perm (q.position.neighbors 1))
    (hradius : 2 ≤ q.radius) (error : FindTileResult) {result : Option Position}
    (h : IsAnswer (q.next dice) q.isGoal (q.queueDirectNeighbors dice ps).queue q.tested result) :
    q.IsResult error (match result with
      | some tile => .found tile q.indirectFlags
      | none => error) := by
  cases result with
  | none =>
    refine .inl ⟨rfl, fun n p flags hplace => ?_⟩
    obtain ⟨-, -, hsteps, hnot, hgoal⟩ := hplace.far hexact hdirect
    obtain ⟨m, -, hwalk⟩ := StepsAway.walk dice hps hsteps hnot
    have hno := h p m hwalk
    rw [hgoal] at hno
    exact Bool.noConfusion hno
  | some p =>
    -- a walk of the search takes two steps less than the walk from the centre
    obtain ⟨n, hgoal, hwalk, hleast⟩ := h
    have hnot : p ∉ q.tested := hwalk.not_blocked
    have hne : p ≠ q.position := fun heq => hnot (mem_tested.mpr (.inl heq))
    refine .inr ⟨n + 2, p, _, rfl,
      .walk hradius (Walk.stepsAway dice hps hwalk) hne (isGoal_iff.mp hgoal), ?_⟩
    intro m p' flags' hplace
    obtain ⟨-, -, hsteps, hnot', hgoal'⟩ := hplace.far hexact hdirect
    obtain ⟨k, hk, hwalk'⟩ := StepsAway.walk dice hps hsteps hnot'
    have := hleast p' k hwalk' hgoal'
    omega

end Far

/-- The neighbours have been searched. -/
theorem searchNeighbors_spec (hexact : ¬ q.Passes q.position q.directFlags)
    (finalResult : PlacementReturn) :
    ∃ result, q.searchNeighbors dice finalResult = some result ∧
      q.IsResult (failure finalResult) result := by
  have hps := dice.perm q.position (q.position.neighbors 1)
  have htry := tryDirectNeighbors_spec q
    (dice.shuffle q.position (q.position.neighbors 1)) finalResult false
  simp only [searchNeighbors]
  split
  · next hradius =>
    split
    · -- a direct neighbour has passed
      next result heq =>
      rw [heq] at htry
      obtain ⟨p, hp, hpass, rfl⟩ := htry
      exact ⟨_, rfl, .inr ⟨1, p, _, rfl,
        isNearestPlace_direct hexact hradius.1 (hps.mem_iff.mp hp) hpass⟩⟩
    · next finalResult' has heq =>
      rw [heq] at htry
      obtain ⟨hnone, hhas, hfailure⟩ := htry
      have hdirect : ∀ p ∈ q.position.neighbors 1, ¬ q.Passes p q.indirectFlags :=
        fun p hp => hnone p (hps.mem_iff.mpr hp)
      rw [hfailure]
      split
      · -- the loop ends, and with the answer
        next htwo =>
        have hends := continueSearch_ne_none q dice
          (dice.shuffle q.position (q.position.neighbors 1))
        obtain ⟨answer, hanswer⟩ := Option.ne_none_iff_exists'.mp hends
        have hresult := isResult_of_isAnswer hexact hdirect hps htwo.1
          (failure finalResult) (continueSearch_isAnswer dice hps hanswer)
        rw [hanswer]
        cases answer <;> exact ⟨_, rfl, hresult⟩
      · -- without a tile among the direct neighbours no walk leads anywhere
        next htwo =>
        refine ⟨_, rfl, .inl ⟨rfl, fun n p flags hplace => htwo ?_⟩⟩
        obtain ⟨hradius, -, hsteps, -, hgoal⟩ := hplace.far hexact hdirect
        obtain ⟨r, hr, htile⟩ := hsteps.exists_direct_tile (isGoal_iff.mp hgoal).1
        exact ⟨hradius, hhas.mpr (.inr ⟨r, hps.mem_iff.mpr hr, htile⟩)⟩
  · next hradius =>
    refine ⟨_, rfl, .inl ⟨rfl, fun n p flags hplace => hradius ?_⟩⟩
    have hneighbors {r : Position} (hr : r ∈ q.position.neighbors 1) :
        q.position.neighbors 1 ≠ [] := List.ne_nil_of_mem hr
    cases hplace with
    | exact h => exact absurd h hexact
    | direct hone hr _ => exact ⟨hone, hneighbors hr⟩
    | walk htwo hsteps _ h =>
      obtain ⟨r, hr, -⟩ := hsteps.exists_direct_tile h.1
      exact ⟨Nat.le_of_succ_le htwo, hneighbors hr⟩

/-- The error of a search that finds nothing: what the tile at the position says. -/
def error (q : TileSearch) : FindTileResult :=
  failure (if q.hasTile q.position then q.test q.position q.directFlags else .noError)

/-- A search ends, and as it should, whatever the dice. -/
theorem findTileForThingNearPosition_spec (q : TileSearch) (dice : Shuffles) :
    ∃ result, q.findTileForThingNearPosition dice = some result ∧ q.IsResult q.error result := by
  unfold findTileForThingNearPosition error
  by_cases htile : q.hasTile q.position = true
  · rw [if_pos htile, if_pos htile]
    by_cases htest : q.test q.position q.directFlags = .noError
    · rw [if_pos htest]
      exact ⟨_, rfl, .inr ⟨0, _, _, rfl, .exact ⟨htile, htest⟩, fun _ _ _ _ => Nat.zero_le _⟩⟩
    · rw [if_neg htest]
      exact searchNeighbors_spec (fun h => htest h.2) _
  · rw [if_neg htile, if_neg htile]
    exact searchNeighbors_spec (fun h => htile h.1) _

/-- Two searches with different dice: either both fail, with the same error and since there is no
place for the thing, or both find a place that lets the thing in and that is one of the nearest. -/
theorem findTileForThingNearPosition_dice (q : TileSearch) (dice₁ dice₂ : Shuffles) :
    (¬ q.CanFind (· ≠ q.position) ∧ ∃ error,
      q.findTileForThingNearPosition dice₁ = some (.failed error) ∧
      q.findTileForThingNearPosition dice₂ = some (.failed error)) ∨
    (q.CanFind (· ≠ q.position) ∧ ∃ n p₁ flags₁ p₂ flags₂,
      q.findTileForThingNearPosition dice₁ = some (.found p₁ flags₁) ∧
      q.findTileForThingNearPosition dice₂ = some (.found p₂ flags₂) ∧
      q.Passes p₁ flags₁ ∧ q.Passes p₂ flags₂ ∧
      q.IsNearestPlace n p₁ flags₁ ∧ q.IsNearestPlace n p₂ flags₂) := by
  obtain ⟨result₁, hfind₁, hresult₁⟩ := q.findTileForThingNearPosition_spec dice₁
  obtain ⟨result₂, hfind₂, hresult₂⟩ := q.findTileForThingNearPosition_spec dice₂
  rw [canFind_iff, hfind₁, hfind₂]
  rcases hresult₁ with ⟨rfl, hnone⟩ | ⟨n, p₁, flags₁, rfl, hnearest₁⟩
  · rcases hresult₂ with ⟨rfl, -⟩ | ⟨n, p₂, flags₂, -, hnearest₂⟩
    · left
      refine ⟨fun ⟨n, p, flags, h⟩ => hnone n p flags h, ?_⟩
      exact ⟨_, rfl, rfl⟩
    · exact absurd hnearest₂.1 (hnone n p₂ flags₂)
  · rcases hresult₂ with ⟨-, hnone⟩ | ⟨m, p₂, flags₂, rfl, hnearest₂⟩
    · exact absurd hnearest₁.1 (hnone n p₁ flags₁)
    · obtain rfl : n = m :=
        Nat.le_antisymm (hnearest₁.2 _ _ _ hnearest₂.1) (hnearest₂.2 _ _ _ hnearest₁.1)
      right
      exact ⟨⟨n, p₁, flags₁, hnearest₁.1⟩, n, p₁, flags₁, p₂, flags₂, rfl, rfl,
        hnearest₁.1.passes, hnearest₂.1.passes, hnearest₁, hnearest₂⟩

/-- A position with a field on it, in the midst of tiles with creatures on them. -/
def fieldAmongCreatures : TileSearch where
  hasTile _ := true
  test p flags :=
    if p.x = 100 ∧ p.y = 100 ∧ p.z = 7 then
      if flags = FLAG_PATHFINDING then .notPossible else .noError
    else if flags &&& FLAG_IGNOREBLOCKCREATURE = 0 then .notEnoughRoom
    else .noError
  position :=
    ⟨100, 100, 7, Position.hundred_le_maxX, Position.hundred_le_maxY, Position.ground_le_maxZ⟩
  radius := 2
  directFlags := FLAG_PATHFINDING
  indirectFlags := FLAG_IGNOREFIELDDAMAGE ||| FLAG_PATHFINDING

/-- The position itself is not tried with the indirect flags, although they would let the thing in
and a walk leads back to it. -/
theorem fieldAmongCreatures_not_found :
    fieldAmongCreatures.CanFind (fun _ => True) ∧
    ∀ dice, fieldAmongCreatures.findTileForThingNearPosition dice =
      some (.failed .notPossible) := by
  constructor
  · have hneighbor : (⟨101, 100, 7, by decide, by decide, by decide⟩ : Position) ∈
        fieldAmongCreatures.position.neighbors 1 := by decide
    refine .inr (.inr ⟨le_rfl, ⟨_, hneighbor, rfl⟩, fieldAmongCreatures.position, 2, trivial, ?_, ?_⟩)
    · apply StepsAway.step (.direct hneighbor)
      all_goals decide
    · exact ⟨rfl, by decide⟩
  · intro dice
    obtain ⟨result, hfind, hresult | ⟨n, p, flags, -, hplace, -⟩⟩ :=
      fieldAmongCreatures.findTileForThingNearPosition_spec dice
    · rw [hfind, hresult.1]
      decide
    · -- only the position itself lets the thing in
      have hcentre (p : Position) (h : fieldAmongCreatures.Passes p
          fieldAmongCreatures.indirectFlags) : p = fieldAmongCreatures.position := by
        by_cases hp : p.x = 100 ∧ p.y = 100 ∧ p.z = 7
        · obtain ⟨hx, hy, hz⟩ := hp
          refine Position.At.unique ⟨rfl, rfl, rfl⟩ ?_
          rw [hx, hy, hz]
          exact ⟨rfl, rfl, rfl⟩
        · have hblocked : fieldAmongCreatures.test p fieldAmongCreatures.indirectFlags =
              .notEnoughRoom := (if_neg hp).trans (if_pos (by decide))
          have htest := h.2
          rw [hblocked] at htest
          exact PlacementReturn.noConfusion htest
      cases hplace with
      | exact h => exact absurd h.2 (by decide)
      | direct _ hmem h =>
        rw [hcentre p h] at hmem
        exact absurd hmem (Position.not_mem_neighbors_self _ _)
      | walk _ _ hne h => exact absurd (hcentre p h) hne

end TileSearch

end TyanoCore
