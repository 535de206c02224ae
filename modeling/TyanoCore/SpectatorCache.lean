import TyanoCore.SpectatorIndex

/-!
# Remembered spectators

What the cache holds is what a fresh query would find, as long as the callers whose results are
remembered begin with an empty list.
-/

namespace TyanoCore

open Transition

namespace Map

variable {m m' : Map}

/-! ## Queries -/

/-- What a query finds without the cache. -/
def freshSpectators (m : Map) (spectators : List CreatureId) (center : Position)
    (multiFloor : Bool) (ranges : Ranges) : List CreatureId :=
  m.collectSpectators spectators center true ranges.offsets (floors center.z multiFloor).1
    (floors center.z multiFloor).2

/-- What is remembered of a position. -/
def freshEntry (m : Map) (center : Position) : List CreatureId :=
  m.freshSpectators [] center true {}

def remember (m : Map) (center : Position) (entry : List CreatureId) : Map :=
  { m with spectatorCache := fun p => if p = center then some entry else m.spectatorCache p }

theorem freshSpectators_prefix (m : Map) (spectators : List CreatureId) (center : Position)
    (multiFloor : Bool) (ranges : Ranges) :
    spectators <+: m.freshSpectators spectators center multiFloor ranges := by
  unfold freshSpectators collectSpectators
  split
  · exact List.prefix_rfl
  · exact prefix_foldl_addSpectator true _ _

/-- A query whose result is remembered is about the viewport. -/
theorem freshSpectators_of_cacheable {check multiFloor : Bool} {ranges : Ranges}
    (h : cacheable check multiFloor ranges = true) (spectators : List CreatureId)
    (center : Position) :
    m.freshSpectators spectators center multiFloor ranges =
      m.freshSpectators spectators center true {} := by
  simp only [cacheable, Bool.and_eq_true, decide_eq_true_eq] at h
  obtain ⟨⟨hoffsets, rfl⟩, -⟩ := h
  unfold freshSpectators
  rw [hoffsets]
  rfl

/-- The entry is given instead of what the caller has. -/
theorem getSpectatorsInto_hit {spectators entry : List CreatureId} {center : Position}
    {check multiFloor : Bool} {ranges : Ranges} (h : cacheable check multiFloor ranges = true)
    (hentry : m.spectatorCache center = some entry) :
    m.getSpectatorsInto false spectators center check multiFloor ranges = (m, entry) := by
  have hz : ¬ maxZ < center.z := Nat.not_lt.mpr center.z_le
  simp only [getSpectatorsInto, if_neg hz, h, Bool.not_false, Bool.and_true, if_true, hentry]

theorem getSpectatorsInto_miss {isEntry : Bool} {spectators : List CreatureId}
    {center : Position} {check multiFloor : Bool} {ranges : Ranges}
    (h : isEntry = true ∨ cacheable check multiFloor ranges = false ∨
      m.spectatorCache center = none) :
    m.getSpectatorsInto isEntry spectators center check multiFloor ranges =
      (if cacheable check multiFloor ranges then
          m.remember center (m.freshSpectators spectators center multiFloor ranges)
        else m,
        m.freshSpectators spectators center multiFloor ranges) := by
  have hz : ¬ maxZ < center.z := Nat.not_lt.mpr center.z_le
  have hmiss : (if cacheable check multiFloor ranges && !isEntry then m.spectatorCache center
      else none) = none := by
    rcases h with h | h | h
    · simp [h]
    · simp [h]
    · rw [h, ite_self]
  unfold getSpectatorsInto
  simp only [if_neg hz, hmiss]
  split
  · rfl
  · rfl

theorem getSpectators_hit {entry : List CreatureId} {center : Position}
    (hentry : m.spectatorCache center = some entry) : m.getSpectators center = (m, entry) := by
  have hz : ¬ maxZ < center.z := Nat.not_lt.mpr center.z_le
  simp only [getSpectators, if_neg hz, hentry]

theorem getSpectators_miss {center : Position} (hnone : m.spectatorCache center = none) :
    m.getSpectators center = (m.remember center (m.freshEntry center), m.freshEntry center) := by
  have hz : ¬ maxZ < center.z := Nat.not_lt.mpr center.z_le
  simp only [getSpectators, if_neg hz, hnone, getSpectatorsInto_miss (.inl rfl)]
  rfl

/-! ## Runs -/

/-- What may happen on the map, in any order. -/
inductive MapAction where
  | addCreature (creature : CreatureId) (pos : Position) (admitted : Bool)
  | removeCreature (creature : CreatureId) (admitted : Bool)
  | getSpectators (center : Position)
  | getSpectatorsInto (spectators : List CreatureId) (center : Position)
      (checkForDuplicates multiFloor : Bool) (ranges : Ranges)

/-- The list that a query returns. -/
def MapAction.answer (m : Map) : MapAction → List CreatureId
  | .addCreature _ _ _ => []
  | .removeCreature _ _ => []
  | .getSpectators center => (m.getSpectators center).2
  | .getSpectatorsInto spectators center check multiFloor ranges =>
    (m.getSpectatorsInto false spectators center check multiFloor ranges).2

/-- What the caller of a query has in the list. -/
def MapAction.given : MapAction → List CreatureId
  | .getSpectatorsInto spectators _ _ _ _ => spectators
  | _ => []

def mapStep (m : Map) : MapAction → Option Map
  | .addCreature c pos admitted => m.addCreature c pos admitted
  | .removeCreature c admitted => m.removeCreature c admitted
  | .getSpectators center => some (m.getSpectators center).1
  | .getSpectatorsInto spectators center check multiFloor ranges =>
    some (m.getSpectatorsInto false spectators center check multiFloor ranges).1

/-- Creatures come to tiles of the map. -/
def MapAction.Valid (m : Map) : MapAction → Prop
  | .addCreature _ pos _ => m.Inside pos
  | _ => True

/-- The caller's list is empty where the result is remembered. -/
def MapAction.StartsEmpty : MapAction → Prop
  | .getSpectatorsInto spectators _ check multiFloor ranges =>
    cacheable check multiFloor ranges = true → spectators = []
  | _ => True

instance (m : Map) : (a : MapAction) → Decidable (a.Valid m)
  | .addCreature _ pos _ => inferInstanceAs (Decidable (m.Inside pos))
  | .removeCreature _ _ => .isTrue trivial
  | .getSpectators _ => .isTrue trivial
  | .getSpectatorsInto _ _ _ _ _ => .isTrue trivial

instance : (a : MapAction) → Decidable a.StartsEmpty
  | .addCreature _ _ _ => .isTrue trivial
  | .removeCreature _ _ => .isTrue trivial
  | .getSpectators _ => .isTrue trivial
  | .getSpectatorsInto spectators _ check multiFloor ranges =>
    inferInstanceAs (Decidable (cacheable check multiFloor ranges = true → spectators = []))

def mapSystem : System Map MapAction :=
  (System.ofStep IsEmpty mapStep).restrict MapAction.Valid

/-- A query returns what it would return with an empty cache: what the caller had, and then the
creatures that are found. -/
def MapAction.Transparent (m : Map) (a : MapAction) : Prop :=
  a.answer m = a.answer m.clearSpectatorCache ∧ a.given <+: a.answer m

/-! ## What a move leaves -/

theorem onCreatureMoved_cache {c : CreatureId} {fromTile toTile : Option Position}
    (h : m.onCreatureMoved c fromTile toTile = some m') : m'.spectatorCache = m.spectatorCache := by
  unfold onCreatureMoved at h
  dsimp only at h
  split at h
  · cases h
    rfl
  · obtain ⟨creatures, -, rfl⟩ := Option.map_eq_some_iff.mp h
    rfl

/-- The cache is empty after a creature has come, gone or moved. -/
theorem place_cache {c : CreatureId} {toTile : Option Position} {lastPosition : Position}
    (h : m.place c toTile lastPosition = some m') (p : Position) : m'.spectatorCache p = none :=
  congrFun (onCreatureMoved_cache h) p

/-- Queries of a tile before the move leave the blocks and the creatures as they are. -/
theorem getSpectatorsInto_fst (m : Map) (isEntry : Bool) (spectators : List CreatureId)
    (center : Position) (check multiFloor : Bool) (ranges : Ranges) :
    ∃ cache, (m.getSpectatorsInto isEntry spectators center check multiFloor ranges).1 =
      { m with spectatorCache := cache } := by
  unfold getSpectatorsInto
  dsimp only
  split
  · exact ⟨m.spectatorCache, rfl⟩
  · split
    · exact ⟨m.spectatorCache, rfl⟩
    · split
      · exact ⟨_, rfl⟩
      · exact ⟨m.spectatorCache, rfl⟩

theorem addCreature_cases {c : CreatureId} {pos : Position} {admitted : Bool}
    (h : m.addCreature c pos admitted = some m') :
    m' = m ∨ ∃ cache lastPosition,
      { m with spectatorCache := cache }.place c (some pos) lastPosition = some m' := by
  unfold addCreature at h
  split at h
  · exact .inl (Option.some.inj h).symm
  · right
    split at h
    · next previous _ =>
      dsimp only at h
      obtain ⟨cache, hcache⟩ := getSpectatorsInto_fst m false [] previous false true {}
      rw [hcache] at h
      generalize (m.getSpectatorsInto false [] previous false true {}).2 = spectators at h
      obtain ⟨cache', hcache'⟩ := getSpectatorsInto_fst { m with spectatorCache := cache } false
        spectators pos true true {}
      rw [hcache'] at h
      exact ⟨cache', previous, h⟩
    · dsimp only at h
      obtain ⟨cache, hcache⟩ := getSpectatorsInto_fst m false [c] pos true true {}
      rw [hcache] at h
      exact ⟨cache, pos, h⟩

theorem removeCreature_cases {c : CreatureId} {admitted : Bool}
    (h : m.removeCreature c admitted = some m') :
    m' = m ∨ ∃ cache lastPosition,
      { m with spectatorCache := cache }.place c none lastPosition = some m' := by
  unfold removeCreature at h
  split at h
  · exact .inl (Option.some.inj h).symm
  · next pos _ =>
    split at h
    · exact .inl (Option.some.inj h).symm
    · right
      dsimp only at h
      obtain ⟨cache, hcache⟩ := getSpectatorsInto_fst m false [] pos false true {}
      rw [hcache] at h
      exact ⟨cache, pos, h⟩

/-! ## The cache is fresh -/

/-- Every entry is what a query would find now. -/
def CacheFresh (m : Map) : Prop :=
  ∀ p entry, m.spectatorCache p = some entry → entry = m.freshEntry p

theorem CacheFresh.remember (h : m.CacheFresh) (center : Position) :
    (m.remember center (m.freshEntry center)).CacheFresh := by
  intro p entry hentry
  change (if p = center then some (m.freshEntry center) else m.spectatorCache p) = some entry
    at hentry
  -- an entry does not depend on the cache
  change entry = m.freshEntry p
  split at hentry
  · next hp =>
    rw [hp]
    exact (Option.some.inj hentry).symm
  · exact h p entry hentry

theorem cacheFresh_of_empty (h : ∀ p, m.spectatorCache p = none) : m.CacheFresh := by
  intro p entry hentry
  rw [h] at hentry
  cases hentry

/-- What a step does to the cache: moves clear it, a query may add what it leaves in the list. -/
theorem mapStep_cache {a : MapAction} (h : mapStep m a = some m') :
    m' = m ∨ (∀ p, m'.spectatorCache p = none) ∨
      ∃ center, (a.StartsEmpty → a.given = []) ∧
        m' = m.remember center (m.freshSpectators a.given center true {}) := by
  cases a with
  | addCreature c pos admitted =>
    obtain rfl | ⟨cache, lastPosition, hplace⟩ := addCreature_cases h
    · exact .inl rfl
    · exact .inr (.inl (place_cache hplace))
  | removeCreature c admitted =>
    obtain rfl | ⟨cache, lastPosition, hplace⟩ := removeCreature_cases h
    · exact .inl rfl
    · exact .inr (.inl (place_cache hplace))
  | getSpectators center =>
    obtain rfl := Option.some.inj h
    cases hentry : m.spectatorCache center with
    | some entry => exact .inl (by rw [getSpectators_hit hentry])
    | none =>
      rw [getSpectators_miss hentry]
      exact .inr (.inr ⟨center, fun _ => rfl, rfl⟩)
  | getSpectatorsInto spectators center check multiFloor ranges =>
    obtain rfl := Option.some.inj h
    cases hcacheable : cacheable check multiFloor ranges with
    | false =>
      rw [getSpectatorsInto_miss (.inr (.inl hcacheable)), hcacheable]
      exact .inl rfl
    | true =>
      cases hentry : m.spectatorCache center with
      | some entry => exact .inl (by rw [getSpectatorsInto_hit hcacheable hentry])
      | none =>
        rw [getSpectatorsInto_miss (.inr (.inr hentry)), hcacheable,
          freshSpectators_of_cacheable hcacheable]
        exact .inr (.inr ⟨center, fun ha => ha hcacheable, rfl⟩)

theorem CacheFresh.step (h : m.CacheFresh) {a : MapAction} (ha : a.StartsEmpty)
    (hstep : mapStep m a = some m') : m'.CacheFresh := by
  obtain rfl | hempty | ⟨center, hgiven, rfl⟩ := mapStep_cache hstep
  · exact h
  · exact cacheFresh_of_empty hempty
  · rw [hgiven ha]
    exact h.remember center

/-- A query of a map whose cache is fresh. -/
theorem CacheFresh.transparent (h : m.CacheFresh) {a : MapAction} (ha : a.StartsEmpty) :
    a.Transparent m := by
  cases a with
  | addCreature c pos admitted => exact ⟨rfl, List.prefix_rfl⟩
  | removeCreature c admitted => exact ⟨rfl, List.prefix_rfl⟩
  | getSpectators center =>
    refine ⟨?_, List.nil_prefix⟩
    have hfresh : (m.clearSpectatorCache.getSpectators center).2 = m.freshEntry center := by
      rw [getSpectators_miss rfl]
      rfl
    change (m.getSpectators center).2 = (m.clearSpectatorCache.getSpectators center).2
    rw [hfresh]
    cases hentry : m.spectatorCache center with
    | some entry =>
      rw [getSpectators_hit hentry]
      exact h center entry hentry
    | none => rw [getSpectators_miss hentry]
  | getSpectatorsInto spectators center check multiFloor ranges =>
    have hfresh : (m.clearSpectatorCache.getSpectatorsInto false spectators center check multiFloor
        ranges).2 = m.freshSpectators spectators center multiFloor ranges := by
      rw [getSpectatorsInto_miss (.inr (.inr rfl))]
      rfl
    have hsame : (m.getSpectatorsInto false spectators center check multiFloor ranges).2 =
        m.freshSpectators spectators center multiFloor ranges := by
      cases hcacheable : cacheable check multiFloor ranges with
      | false => rw [getSpectatorsInto_miss (.inr (.inl hcacheable))]
      | true =>
        obtain rfl := ha hcacheable
        cases hentry : m.spectatorCache center with
        | some entry =>
          rw [getSpectatorsInto_hit hcacheable hentry, freshSpectators_of_cacheable hcacheable]
          exact h center entry hentry
        | none => rw [getSpectatorsInto_miss (.inr (.inr hentry))]
    refine ⟨hsame.trans hfresh.symm, ?_⟩
    change spectators <+: (m.getSpectatorsInto false spectators center check multiFloor ranges).2
    rw [hsame]
    exact freshSpectators_prefix m spectators center multiFloor ranges

/-- Where every caller whose result is remembered gives an empty list. -/
def emptyListRuns : System Map MapAction :=
  (System.ofStep IsEmpty mapStep).restrict fun m a => a.Valid m ∧ a.StartsEmpty

theorem emptyListRuns_cacheFresh (h : emptyListRuns.Reachable m) : m.CacheFresh := by
  apply h.invariant
  · intro m hm
    exact cacheFresh_of_empty hm.2.2
  · intro m a m' hm hstep
    exact hm.step hstep.1.2 hstep.2

/-- In a run in which every list whose query is remembered begins empty, no query shows that there is
a cache. -/
theorem spectatorCache_transparent (h : emptyListRuns.Reachable m) (a : MapAction)
    (ha : a.StartsEmpty) : a.Transparent m :=
  (emptyListRuns_cacheFresh h).transparent ha

theorem isEmpty_field : SmallMap.field.IsEmpty := ⟨rfl, fun _ => rfl, fun _ => rfl⟩

namespace SmallMap

/-- Creature 1 appears, is looked for and moves. -/
def walk : List MapAction :=
  [.addCreature 1 (square 99 40 ninetyNine_le forty_le) true,
    .getSpectators (square 105 40 hundredFive_le forty_le),
    .addCreature 1 (square 100 40 hundred_le forty_le) true]

/-- Creature 1 appears and is looked for. -/
def lookedFor : List MapAction :=
  [.addCreature 1 (square 99 40 ninetyNine_le forty_le) true,
    .getSpectators (square 105 40 hundredFive_le forty_le)]

/-- The query that is remembered, by a caller who has creature 7 already. -/
def queryWithSeven : MapAction :=
  .getSpectatorsInto [7] (square 105 40 hundredFive_le forty_le) false true {}

end SmallMap

open SmallMap in
/-- After the walk the entry is made again. -/
theorem spectatorCache_transparent_walk : ∃ m, runActions mapStep field walk = some m ∧
    MapAction.answer m (.getSpectators (square 105 40)) = [1] ∧
    MapAction.Transparent m (.getSpectators (square 105 40)) := by
  have hfield : emptyListRuns.Reachable field := .init isEmpty_field
  refine ⟨_, rfl, by decide, spectatorCache_transparent ?_ _ trivial⟩
  exact reachable_restrict_of_runActions hfield walk rfl

open SmallMap in
/-- With an entry the caller's creature 7 is lost; without one it stays in the cache, and the next
query finds it. -/
theorem spectatorCache_not_transparent :
    (¬ ∀ m, mapSystem.Reachable m → ∀ a : MapAction, a.Transparent m) ∧
    (∃ m, runActions mapStep field lookedFor = some m ∧
      queryWithSeven.answer m = [1] ∧ queryWithSeven.answer m.clearSpectatorCache = [7, 1]) ∧
    ∃ m, runActions mapStep field [queryWithSeven] = some m ∧
      MapAction.answer m (.getSpectators (square 105 40)) = [7] ∧
      MapAction.answer m.clearSpectatorCache (.getSpectators (square 105 40)) = [] := by
  refine ⟨?_, ⟨_, rfl, by decide, by decide⟩, ⟨_, rfl, by decide, by decide⟩⟩
  intro hall
  obtain ⟨m, hrun, hhit, hfresh⟩ : ∃ m, runActions (guarded MapAction.Valid mapStep) field
      lookedFor = some m ∧ queryWithSeven.answer m = [1] ∧
      queryWithSeven.answer m.clearSpectatorCache = [7, 1] :=
    ⟨_, rfl, by decide, by decide⟩
  have hfield : mapSystem.Reachable field := .init isEmpty_field
  have hm := reachable_restrict_of_runActions hfield lookedFor hrun
  have := (hall m hm queryWithSeven).1
  rw [hhit, hfresh] at this
  cases this

end Map

end TyanoCore
