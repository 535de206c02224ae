import Mathlib.Data.Finite.Prod
import TyanoCore.Chain
import TyanoCore.Forwarding

/-!
# Forwarders that lead in a circle

The test of a tile returns exactly if the forwarders that it follows come to no tile twice.  The
candidate tests of the search near a destination follow none.
-/

namespace TyanoCore

namespace EntryTest

variable (t : EntryTest) (flags : BitVec 32)

/-- The tile that the test goes on to from a tile, with the flags that it leaves. -/
def forwards (s : TileFlags × Position) : Option (TileFlags × Position) :=
  match t.tile s.2 with
  | none => none
  | some tile =>
    if (t.testGeneral s.1 s.2 tile flags).isSome then none
    else if hasBitSet FLAG_PATHFINDING flags && !hasBitSet FLAG_NOLIMIT flags then none
    else match t.getForwardingDestinationTile s.1 s.2 tile with
    | (_, none) => none
    | (m, some destination) => some (m, destination)

variable {t flags}

/-! ## Where a tile leads -/

theorem setFlag_of_ne {m : TileFlags} {p q : Position} (h : q ≠ p) (f : TileFlag) :
    setFlag m p f q = m q := by
  funext g
  unfold setFlag
  rw [decide_eq_false h, Bool.false_and, Bool.or_false]

theorem setFlag_of_ne_flag {m : TileFlags} {p : Position} {f g : TileFlag} (h : g ≠ f)
    (q : Position) : setFlag m p f q g = m q g := by
  unfold setFlag
  rw [decide_eq_false h, Bool.and_false, Bool.or_false]

theorem setFlag_self (m : TileFlags) (p : Position) (f : TileFlag) : setFlag m p f p f = true := by
  unfold setFlag
  rw [decide_eq_true rfl, decide_eq_true rfl, Bool.and_self, Bool.or_true]

/-- A flag that is neither a direction nor says that the direction is resolved. -/
def Lasting : TileFlag → Prop
  | .floorChangeTo _ => False
  | .floorChangeResolved => False
  | _ => True

theorem resolveDirection_eq (m : TileFlags) (p destination : Position) :
    t.resolveDirection m p destination = setFlag m p .floorChangeResolved ∨
      ∃ change, t.resolveDirection m p destination =
        setFlag (setFlag m p .floorChangeResolved) p (.floorChangeTo change) := by
  unfold resolveDirection
  dsimp only
  split
  · split
    · exact .inr ⟨_, rfl⟩
    · exact .inl rfl
  · exact .inl rfl

theorem resolveDirection_other {m : TileFlags} {p destination q : Position} (h : q ≠ p) :
    t.resolveDirection m p destination q = m q := by
  rcases resolveDirection_eq (t := t) m p destination with heq | ⟨change, heq⟩
  · rw [heq, setFlag_of_ne h]
  · rw [heq, setFlag_of_ne h, setFlag_of_ne h]

theorem resolveDirection_lasting {m : TileFlags} {p destination q : Position} {f : TileFlag}
    (h : Lasting f) : t.resolveDirection m p destination q f = m q f := by
  have hresolved : f ≠ .floorChangeResolved := by
    rintro rfl
    exact h
  have hdirection (change : FloorChange) : f ≠ .floorChangeTo change := by
    rintro rfl
    exact h
  rcases resolveDirection_eq (t := t) m p destination with heq | ⟨change, heq⟩
  · rw [heq, setFlag_of_ne_flag hresolved]
  · rw [heq, setFlag_of_ne_flag (hdirection change), setFlag_of_ne_flag hresolved]

theorem resolveDirection_resolved (m : TileFlags) (p destination : Position) :
    t.resolveDirection m p destination p .floorChangeResolved = true := by
  rcases resolveDirection_eq (t := t) m p destination with heq | ⟨change, heq⟩
  · rw [heq, setFlag_self]
  · have hne : TileFlag.floorChangeResolved ≠ .floorChangeTo change := nofun
    rw [heq, setFlag_of_ne_flag hne, setFlag_self]

/-- What a destination says again, and what is left, when a tile has been asked for it. -/
structure Leaves (t : EntryTest) (tile : EntryTile) (m m' : TileFlags) (p : Position)
    (destination : Option Position) : Prop where
  other : ∀ q, q ≠ p → m' q = m q
  lasting : ∀ q f, Lasting f → m' q f = m q f
  again : destination.isSome → ∀ m'', m'' p = m' p →
    t.getForwardingDestination m'' p tile = (m'', destination)

theorem getForwardingDestination_leaves (m : TileFlags) (p : Position) (tile : EntryTile) :
    Leaves t tile m (t.getForwardingDestination m p tile).1 p
      (t.getForwardingDestination m p tile).2 := by
  unfold getForwardingDestination
  by_cases hlocal : isLocalForwarder m p = true
  · rw [if_pos hlocal]
    by_cases hresolved :
        ((TileState.lateralChange (m p)).isSome || m p .floorChangeResolved) = true
    · -- the direction is known
      rw [if_pos hresolved]
      refine ⟨fun _ _ => rfl, fun _ _ _ => rfl, fun _ m'' hm => ?_⟩
      dsimp only at hm
      unfold getForwardingDestination isLocalForwarder floorDestination
      rw [hm]
      unfold isLocalForwarder at hlocal
      rw [if_pos hlocal, if_pos hresolved]
    · rw [if_neg hresolved]
      cases hdestination : floorDestination m p with
      | none => exact ⟨fun _ _ => rfl, fun _ _ _ => rfl, fun h => by cases h⟩
      | some destination =>
        -- the direction is resolved now
        refine ⟨fun q h => resolveDirection_other h, fun q f h => resolveDirection_lasting h,
          fun _ m'' hm => ?_⟩
        dsimp only at hm
        have hlocal' : isLocalForwarder m'' p = true := by
          unfold isLocalForwarder at hlocal ⊢
          rw [hm, resolveDirection_lasting (show Lasting .floorChange from trivial)]
          exact hlocal
        have hresolved' :
            ((TileState.lateralChange (m'' p)).isSome || m'' p .floorChangeResolved) = true := by
          rw [hm, resolveDirection_resolved, Bool.or_true]
        unfold getForwardingDestination
        rw [if_pos hlocal', if_pos hresolved']
        unfold floorDestination
        rw [hm]
  · rw [if_neg hlocal]
    refine ⟨fun _ _ => rfl, fun _ _ _ => rfl, fun _ m'' hm => ?_⟩
    dsimp only at hm
    have hlocal' : ¬ isLocalForwarder m'' p = true := by
      unfold isLocalForwarder at hlocal ⊢
      rw [hm]
      exact hlocal
    unfold getForwardingDestination
    rw [if_neg hlocal']

/-- What follows from a step to another tile: the flags of other tiles stay, no other flag of the
tile changes, and it leads to the same tile again, without a change. -/
structure Steps (t : EntryTest) (flags : BitVec 32) (m m' : TileFlags) (p destination : Position) :
    Prop where
  other : ∀ q, q ≠ p → m' q = m q
  again : ∀ m'', m'' p = m' p → t.forwards flags (m'', p) = some (m'', destination)

/-- The general checks look at flags that last. -/
theorem testGeneral_congr {m m' : TileFlags} {p : Position} {tile : EntryTile}
    (h : ∀ f, Lasting f → m' p f = m p f) :
    t.testGeneral m' p tile flags = t.testGeneral m p tile flags := by
  have hproperty (property : ItemProperty) : m' p (.property property) = m p (.property property) :=
    h _ trivial
  unfold testGeneral testMonster
  rw [hproperty, hproperty, hproperty, hproperty]

theorem getForwardingDestinationTile_eq_some {m m' : TileFlags} {p destination : Position}
    {tile : EntryTile} : t.getForwardingDestinationTile m p tile = (m', some destination) ↔
      isForwarder m p tile = true ∧
        t.getForwardingDestination m p tile = (m', some destination) ∧
        destination ≠ p ∧ (t.tile destination).isSome = true := by
  unfold getForwardingDestinationTile
  by_cases hforwarder : isForwarder m p tile = true
  · rw [hforwarder, Bool.not_true, if_neg Bool.false_ne_true]
    obtain ⟨m₁, found⟩ := t.getForwardingDestination m p tile
    cases found with
    | none => simp
    | some q =>
      dsimp only
      by_cases hself : q = p
      · rw [if_pos hself]
        constructor
        · intro h
          cases h
        · rintro ⟨-, h, hne, -⟩
          cases h
          exact absurd hself hne
      · rw [if_neg hself]
        cases htile : t.tile q with
        | none =>
          constructor
          · intro h
            cases h
          · rintro ⟨-, h, -, hsome⟩
            cases h
            rw [htile] at hsome
            cases hsome
        | some tile' =>
          constructor
          · intro h
            cases h
            exact ⟨rfl, rfl, hself, by rw [htile]; rfl⟩
          · rintro ⟨-, h, -, -⟩
            cases h
            rfl
  · rw [(Bool.not_eq_true _).mp hforwarder, Bool.not_false, if_pos rfl]
    constructor
    · intro h
      cases h
    · rintro ⟨h, -⟩
      cases h

theorem forwards_eq_some {m m' : TileFlags} {p destination : Position} :
    t.forwards flags (m, p) = some (m', destination) ↔ ∃ tile, t.tile p = some tile ∧
      t.testGeneral m p tile flags = none ∧
      (hasBitSet FLAG_PATHFINDING flags && !hasBitSet FLAG_NOLIMIT flags) = false ∧
      t.getForwardingDestinationTile m p tile = (m', some destination) := by
  unfold forwards
  dsimp only
  cases t.tile p with
  | none => simp
  | some tile =>
    simp only [Option.some.injEq, exists_eq_left']
    cases t.testGeneral m p tile flags with
    | some result => simp
    | none =>
      cases hasBitSet FLAG_PATHFINDING flags && !hasBitSet FLAG_NOLIMIT flags with
      | true => simp
      | false =>
        obtain ⟨m₁, found⟩ := t.getForwardingDestinationTile m p tile
        cases found <;> simp

theorem forwards_steps {m m' : TileFlags} {p destination : Position}
    (h : t.forwards flags (m, p) = some (m', destination)) :
    Steps t flags m m' p destination := by
  obtain ⟨tile, htile, hgeneral, hpathfinding, hdestination⟩ := forwards_eq_some.mp h
  obtain ⟨hforwarder, hfound, hne, hsome⟩ :=
    getForwardingDestinationTile_eq_some.mp hdestination
  have hleaves := getForwardingDestination_leaves (t := t) m p tile
  rw [hfound] at hleaves
  constructor
  · exact hleaves.other
  · intro m'' hm
    have hlasting (f : TileFlag) (hf : Lasting f) : m'' p f = m p f := by
      rw [hm]
      exact hleaves.lasting p f hf
    have hforwarder' : isForwarder m'' p tile = true := by
      unfold isForwarder isLocalForwarder at hforwarder ⊢
      rw [hlasting .floorChange trivial]
      exact hforwarder
    have hgeneral' : t.testGeneral m'' p tile flags = none :=
      (testGeneral_congr hlasting).trans hgeneral
    exact forwards_eq_some.mpr ⟨tile, htile, hgeneral', hpathfinding,
      getForwardingDestinationTile_eq_some.mpr
        ⟨hforwarder', hleaves.again rfl m'' hm, hne, hsome⟩⟩

/-- A tile that the chain has left keeps its flags, and is left for the same tile. -/
theorem retraces (s : TileFlags × Position) :
    Chain.Retraces (t.forwards flags) Prod.snd s := by
  rintro i j ⟨m, p⟩ ⟨m', destination⟩ ⟨m₂, p₂⟩ hij hi hnext hj rfl
  have hsteps := forwards_steps hnext
  -- from the step on, the flags of the tile stay as they were left
  have hkept (k : ℕ) (hk : i + 1 ≤ k) : ∀ m₁ q, Chain.after (t.forwards flags) k s =
      some (m₁, q) → m₁ p₂ = m' p₂ := by
    induction k, hk using Nat.le_induction with
    | base =>
      intro m₁ q hafter
      rw [Chain.after_succ, hi, Option.bind_some, hnext] at hafter
      cases hafter
      rfl
    | succ k hk ih =>
      intro m₁ q hafter
      rw [Chain.after_succ] at hafter
      obtain ⟨⟨m₀, q₀⟩, hbefore, hstep⟩ := Option.bind_eq_some_iff.mp hafter
      have hm₀ := ih m₀ q₀ hbefore
      by_cases hq : q₀ = p₂
      · subst hq
        rw [hsteps.again m₀ hm₀] at hstep
        cases hstep
        exact hm₀
      · rw [(forwards_steps hstep).other p₂ (Ne.symm hq), hm₀]
  exact ⟨(m₂, destination), hsteps.again m₂ (hkept j hij m₂ p₂ hj), rfl⟩

/-! ## Runs of the test -/

section Run

variable {m : TileFlags} {p : Position} {tile : EntryTile}
  {test : Position → BitVec 32 → Forwarding EntryReturn}

/-- A tile that does not forward the creature answers by itself; a path is not searched over
forwarders, and sets no flags. -/
theorem testTile_of_not_forwards (test : Position → BitVec 32 → Forwarding EntryReturn)
    (dice : Shuffles) (htile : t.tile p = some tile)
    (h : t.forwards flags (m, p) = none) :
    ∃ result m', (t.testTile p tile flags test dice).run m = some (result, m') ∧
      ((hasBitSet FLAG_PATHFINDING flags && !hasBitSet FLAG_NOLIMIT flags) = true → m' = m) := by
  unfold forwards at h
  dsimp only at h
  rw [htile] at h
  dsimp only at h
  unfold testTile
  rw [StateT.run_bind, StateT.run_get, pure_bind]
  dsimp only
  cases hgeneral : t.testGeneral m p tile flags with
  | some result => exact ⟨result, m, rfl, fun _ => rfl⟩
  | none =>
    rw [hgeneral, Option.isSome_none, if_neg Bool.false_ne_true] at h
    dsimp only
    by_cases hforwarder : isForwarder m p tile = true
    · rw [if_pos hforwarder]
      by_cases hpathfinding :
          (hasBitSet FLAG_PATHFINDING flags && !hasBitSet FLAG_NOLIMIT flags) = true
      · rw [if_pos hpathfinding]
        exact ⟨.notPossible, m, rfl, fun _ => rfl⟩
      · rw [if_neg hpathfinding] at h ⊢
        cases hdestination : t.getForwardingDestinationTile m p tile with
        | mk m₁ found =>
          rw [hdestination] at h
          cases found with
          | none => exact ⟨.notPossible, m₁, rfl, fun hp => absurd hp hpathfinding⟩
          | some destination => cases h
    · rw [if_neg hforwarder]
      exact ⟨t.testRoom m p tile flags, m, rfl, fun _ => rfl⟩

/-- A tile that forwards the creature asks the one that it leads to, and then looks around there. -/
theorem testTile_of_forwards {m' : TileFlags} {destination : Position} (dice : Shuffles)
    (htile : t.tile p = some tile) (h : t.forwards flags (m, p) = some (m', destination)) :
    (t.testTile p tile flags test dice).run m =
      ((test destination flags).run m').bind fun asked =>
        if asked.1 ≠ .noError ∧ asked.1 ≠ .notEnoughRoom then some (asked.1, asked.2)
        else
          ((t.getCreatureForwardingTile p tile test dice).run asked.2).map fun found =>
            match found.1 with
            | none => (.destinationOutOfReach, found.2)
            | some _ => (t.testRoom found.2 p tile flags, found.2) := by
  obtain ⟨tile', htile', hgeneral, hpathfinding, hdestination⟩ := forwards_eq_some.mp h
  obtain rfl : tile = tile' := Option.some.inj (htile.symm.trans htile')
  obtain ⟨hforwarder, -⟩ := getForwardingDestinationTile_eq_some.mp hdestination
  unfold testTile
  rw [StateT.run_bind, StateT.run_get, pure_bind]
  dsimp only
  rw [hgeneral]
  dsimp only
  rw [if_pos hforwarder, hpathfinding, if_neg Bool.false_ne_true, hdestination]
  dsimp only
  rw [StateT.run_bind, StateT.run_set, pure_bind, StateT.run_bind, Option.bind_eq_bind]
  congr 1
  funext asked
  obtain ⟨result, m''⟩ := asked
  dsimp only
  by_cases hresult : result ≠ .noError ∧ result ≠ .notEnoughRoom
  · rw [if_pos hresult, if_pos hresult]
    rfl
  · rw [if_neg hresult, if_neg hresult, StateT.run_bind]
    cases StateT.run (t.getCreatureForwardingTile p tile test dice) m'' with
    | none => rfl
    | some found =>
      obtain ⟨found, m₁⟩ := found
      cases found <;> rfl

/-- Creatures move without `FLAG_NOLIMIT`, and the search is always one for a path. -/
theorem forwardingFlags {moveFlags : BitVec 32} {destination : Position}
    (hmove : (if isLocalForwarder m p = true then
      t.creature.getMoveFlags ||| FLAG_IGNOREBLOCKCREATURE else t.creature.getMoveFlags) = moveFlags)
    (f : BitVec 32) (hf : f = (t.forwardingSearch test destination moveFlags).directFlags ∨
      f = (t.forwardingSearch test destination moveFlags).indirectFlags ∨
      f = (t.forwardingSearch test destination moveFlags).pathfindingFlags) :
    hasBitSet FLAG_PATHFINDING f = true ∧ hasBitSet FLAG_NOLIMIT f = false := by
  have hcreature : t.creature.getMoveFlags = 0 ∨ t.creature.getMoveFlags = FLAG_PATHFINDING ∨
      t.creature.getMoveFlags = FLAG_PATHFINDING ||| FLAG_IGNOREFIELDDAMAGE := by
    unfold EnteringCreature.getMoveFlags
    cases t.creature.kind with
    | monster monster =>
      dsimp only
      split
      · exact .inr (.inr rfl)
      · exact .inr (.inl rfl)
    | player isPzLocked => exact .inl rfl
    | npc => exact .inr (.inl rfl)
  unfold ForwardingSearch.pathfindingFlags forwardingSearch at hf
  dsimp only at hf
  subst hmove
  rcases hcreature with hmove | hmove | hmove <;> rw [hmove] at hf <;> split at hf <;>
    rcases hf with rfl | rfl | rfl <;> decide

/-- The search near a destination returns where the tests of paths do. -/
theorem getCreatureForwardingTile_returns (m : TileFlags) (p : Position) (tile : EntryTile)
    (dice : Shuffles)
    (htest : ∀ q, (t.tile q).isSome = true → ∀ f m, hasBitSet FLAG_PATHFINDING f = true →
      hasBitSet FLAG_NOLIMIT f = false → ∃ result, (test q f).run m = some (result, m)) :
    ∃ found m', (t.getCreatureForwardingTile p tile test dice).run m = some (found, m') := by
  unfold getCreatureForwardingTile
  rw [StateT.run_bind, StateT.run_get, pure_bind]
  obtain ⟨m₁, found⟩ := t.getForwardingDestinationTile m p tile
  dsimp only
  rw [StateT.run_bind, StateT.run_set, pure_bind]
  cases found with
  | none => exact ⟨none, m₁, rfl⟩
  | some destination =>
    dsimp only
    rw [StateT.run_bind]
    -- the flags of the search are those of the creature's moves, for paths
    generalize hflags : (if isLocalForwarder m₁ p = true then
      t.creature.getMoveFlags ||| FLAG_IGNOREBLOCKCREATURE else t.creature.getMoveFlags) = moveFlags
    have hanswer : ∀ q f, ∃ answer : PlacementReturn, (t.tile q).isSome = true →
        hasBitSet FLAG_PATHFINDING f = true ∧ hasBitSet FLAG_NOLIMIT f = false →
        ((t.forwardingSearch test destination moveFlags).test q f).run m₁ =
          some (answer, m₁) := by
      intro q f
      by_cases hboth : (t.tile q).isSome = true ∧
          hasBitSet FLAG_PATHFINDING f = true ∧ hasBitSet FLAG_NOLIMIT f = false
      · obtain ⟨result, hresult⟩ := htest q hboth.1 f m₁ hboth.2.1 hboth.2.2
        refine ⟨result.toPlacement, fun _ _ => ?_⟩
        change StateT.run (test q f >>= _) m₁ = _
        rw [StateT.run_bind, hresult]
        rfl
      · exact ⟨.noError, fun hq hf => absurd ⟨hq, hf⟩ hboth⟩
    choose answer hanswer using hanswer
    have hanswers : (t.forwardingSearch test destination moveFlags).Answers m₁ answer :=
      fun q hq f hf => hanswer q f hq (forwardingFlags hflags f hf)
    obtain ⟨result, hresult⟩ :=
      ForwardingSearch.findTileForThingNearPosition_returns hanswers dice
    rw [hresult]
    cases result with
    | found q f => exact ⟨some q, m₁, rfl⟩
    | failed error => exact ⟨none, m₁, rfl⟩

end Run

/-- The test of a tile for a path returns at once. -/
theorem testAddCreature_pathfinding (n : ℕ) {q : Position} (hq : (t.tile q).isSome = true)
    {f : BitVec 32} (m : TileFlags) (hpathfinding : hasBitSet FLAG_PATHFINDING f = true)
    (hlimit : hasBitSet FLAG_NOLIMIT f = false) :
    ∃ result, (t.testAddCreature (n + 1) q f).run m = some (result, m) := by
  obtain ⟨tile, htile⟩ := Option.isSome_iff_exists.mp hq
  have hboth : (hasBitSet FLAG_PATHFINDING f && !hasBitSet FLAG_NOLIMIT f) = true := by
    rw [hpathfinding, hlimit]
    rfl
  have hnone : t.forwards f (m, q) = none := by
    cases h : t.forwards f (m, q) with
    | none => rfl
    | some s =>
      obtain ⟨-, -, -, hneither, -⟩ := forwards_eq_some.mp h
      rw [hboth] at hneither
      cases hneither
  obtain ⟨result, m', hrun, hsame⟩ := testTile_of_not_forwards (t.testAddCreature n)
    (t.dice n) htile hnone
  obtain rfl := hsame hboth
  refine ⟨t.testHouse tile result, ?_⟩
  rw [testAddCreature, htile]
  dsimp only
  rw [StateT.run_bind, hrun]
  rfl

/-- A tile that does not forward the creature returns. -/
theorem testAddCreature_of_not_forwards (n : ℕ) {m : TileFlags} {p : Position}
    (h : t.forwards flags (m, p) = none) :
    ∃ result, (t.testAddCreature (n + 1) p flags).run m = some result := by
  rw [testAddCreature]
  cases htile : t.tile p with
  | none => exact ⟨(.notPossible, m), rfl⟩
  | some tile =>
    obtain ⟨result, m', hrun, -⟩ := testTile_of_not_forwards (t.testAddCreature n)
      (t.dice n) htile h
    dsimp only
    rw [StateT.run_bind, hrun]
    exact ⟨(t.testHouse tile result, m'), rfl⟩

/-- A tile that forwards the creature returns exactly if the test of the other tile does. -/
theorem testAddCreature_of_forwards (n : ℕ) {m m' : TileFlags} {p destination : Position}
    (h : t.forwards flags (m, p) = some (m', destination)) :
    (∃ result, (t.testAddCreature (n + 1) p flags).run m = some result) ↔
      ∃ result, (t.testAddCreature n destination flags).run m' = some result := by
  obtain ⟨tile, htile, -⟩ := forwards_eq_some.mp h
  rw [testAddCreature, htile]
  dsimp only
  rw [StateT.run_bind, testTile_of_forwards (t.dice n) htile h]
  constructor
  · rintro ⟨result, hresult⟩
    obtain ⟨tested, htested, -⟩ := Option.bind_eq_some_iff.mp hresult
    obtain ⟨asked, hasked, -⟩ := Option.bind_eq_some_iff.mp htested
    exact ⟨asked, hasked⟩
  · rintro ⟨asked, hasked⟩
    rw [hasked, Option.bind_some]
    split
    · exact ⟨_, rfl⟩
    · cases n with
      | zero => cases hasked
      | succ n =>
        obtain ⟨found, m₁, hfound⟩ := getCreatureForwardingTile_returns asked.2 p tile
          (t.dice (n + 1)) fun q hq f m => testAddCreature_pathfinding n hq m
        rw [hfound]
        exact ⟨_, rfl⟩

/-- The test returns exactly if the chain of forwarders ends. -/
theorem testAddCreature_returns_iff_ends {m : TileFlags} {p : Position} :
    (∃ n result, (t.testAddCreature n p flags).run m = some result) ↔
      Chain.Ends (t.forwards flags) (m, p) := by
  constructor
  · rintro ⟨n, hreturns⟩
    -- on the depth of the recursion
    induction n generalizing m p with
    | zero =>
      obtain ⟨result, h⟩ := hreturns
      cases h
    | succ n ih =>
      cases hnext : t.forwards flags (m, p) with
      | none => exact ⟨1, by rw [Chain.after, hnext]; rfl⟩
      | some s =>
        obtain ⟨m', destination⟩ := s
        obtain ⟨k, hk⟩ := ih ((testAddCreature_of_forwards n hnext).mp hreturns)
        exact ⟨k + 1, by rw [Chain.after, hnext]; exact hk⟩
  · rintro ⟨k, hk⟩
    -- on the length of the chain
    induction k generalizing m p with
    | zero => cases hk
    | succ k ih =>
      cases hnext : t.forwards flags (m, p) with
      | none => exact ⟨1, testAddCreature_of_not_forwards 0 hnext⟩
      | some s =>
        obtain ⟨m', destination⟩ := s
        rw [Chain.after, hnext] at hk
        obtain ⟨n, hreturns⟩ := ih hk
        exact ⟨n + 1, (testAddCreature_of_forwards n hnext).mpr hreturns⟩

instance : Finite Position := by
  let coordinates (p : Position) :
      Fin (Position.maxX + 1) × Fin (Position.maxY + 1) × Fin (Position.maxZ + 1) :=
    (⟨p.x, Nat.lt_succ_of_le p.x_le⟩, ⟨p.y, Nat.lt_succ_of_le p.y_le⟩,
      ⟨p.z, Nat.lt_succ_of_le p.z_le⟩)
  apply Finite.of_injective coordinates
  rintro ⟨x, y, z, _, _, _⟩ ⟨x', y', z', _, _, _⟩ h
  simp only [coordinates, Prod.mk.injEq, Fin.mk.injEq] at h
  obtain ⟨rfl, rfl, rfl⟩ := h
  rfl

/-- The test of a tile returns exactly if the forwarders that it follows come to no tile twice. -/
theorem testAddCreature_returns_iff (t : EntryTest) (flags : BitVec 32) (m : TileFlags)
    (p : Position) :
    (∃ n result, (t.testAddCreature n p flags).run m = some result) ↔
      ¬ Chain.Circles (t.forwards flags) Prod.snd (m, p) :=
  testAddCreature_returns_iff_ends.trans (Chain.ends_iff (retraces (m, p)))

/-- A place on the ground floor. -/
def meadow (x : ℕ) (h : x ≤ 200) : Position :=
  ⟨x, x, 7, h.trans (by decide), h.trans (by decide), Position.ground_le_maxZ⟩

/-- Two teleporters that lead to each other, and a player elsewhere. -/
def teleporterPair : EntryTest where
  tile p :=
    if p = meadow 100 (by decide) then
      some { ground := some {}, teleporter := some (meadow 200 (by decide)), thingCount := 2 }
    else if p = meadow 200 (by decide) then
      some { ground := some {}, teleporter := some (meadow 100 (by decide)), thingCount := 2 }
    else if p = meadow 50 (by decide) then
      some { ground := some {}, creatures := [{}], thingCount := 2 }
    else none
  creature := { kind := .player false, tile := meadow 50 (by decide) }
  dice _ := ⟨fun _ ps => ps, fun _ ps => .refl ps⟩

/-- The test of the first teleporter goes on to the second one, and from there back to the first. -/
theorem teleporterPair_never_returns :
    (∀ tile, teleporterPair.creature.tile.bind teleporterPair.tile = some tile →
      tile.teleporter = none) ∧
    ¬ ∃ n result, (teleporterPair.testAddCreature n (meadow 100 (by decide)) 0).run
      (fun _ _ => false) = some result := by
  constructor
  · rintro tile h
    cases h
    rfl
  · have hcircles : Chain.Circles (teleporterPair.forwards 0) Prod.snd
        (fun _ _ => false, meadow 100 (by decide)) :=
      ⟨0, 2, _, _, by decide, rfl, rfl, rfl⟩
    intro hreturns
    exact Chain.not_ends_of_circles (retraces _) hcircles
      (testAddCreature_returns_iff_ends.mp hreturns)

end EntryTest

end TyanoCore
