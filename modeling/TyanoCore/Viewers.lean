import TyanoCore.SpectatorCache

/-!
# Who sees and who is told

A creature sees a position from its own floor; the creatures that are told of an event are looked
for from the floor of the event.  The two windows agree, the floors do not: from below ground one
sees two floors up, and an event above ground is not told below.
-/

namespace TyanoCore

open Transition

/-- `Creature::canSee`; the borders are computed in 32 bits without a sign. -/
def Creature.canSee (myPos pos : Position) (viewRangeX viewRangeY : ℕ) : Bool :=
  let onFloor :=
    if myPos.z ≤ 7 then pos.z ≤ 7
    else ((myPos.z : ℤ) - pos.z).natAbs ≤ 2
  let offsetz : ℤ := myPos.z - pos.z
  onFloor && ((myPos.x : ℤ) - viewRangeX + offsetz) % 2 ^ 32 ≤ pos.x
    && pos.x ≤ ((myPos.x : ℤ) + viewRangeX + offsetz) % 2 ^ 32
    && ((myPos.y : ℤ) - viewRangeY + offsetz) % 2 ^ 32 ≤ pos.y
    && pos.y ≤ ((myPos.y : ℤ) + viewRangeY + offsetz) % 2 ^ 32

namespace Map

variable {m m' : Map}

/-- A creature at `myPos` sees `pos` with the ranges of the map. -/
def sees (myPos pos : Position) : Bool := Creature.canSee myPos pos maxViewportX maxViewportY

/-- A lower border below zero wraps to one beyond every position. -/
theorem lower_border {a : ℤ} {x : ℕ} (ha : a < 2 ^ 32) (h : a % 2 ^ 32 ≤ x) : a ≤ x := by
  omega

theorem upper_border {a : ℤ} {x : ℕ} (ha : 0 ≤ a) (h : (x : ℤ) ≤ a % 2 ^ 32) : (x : ℤ) ≤ a := by
  omega

/-- The floors on which a creature sees something. -/
def OnFloor (myPos pos : Position) : Prop :=
  if myPos.z ≤ 7 then pos.z ≤ 7 else ((myPos.z : ℤ) - pos.z).natAbs ≤ 2

/-- What a creature sees has the creature in its window. -/
theorem sees_window {myPos pos : Position} (h : sees myPos pos = true) :
    OnFloor myPos pos ∧ (window pos viewport myPos.z).Contains myPos := by
  simp only [sees, Creature.canSee, Bool.and_eq_true, decide_eq_true_eq] at h
  obtain ⟨⟨⟨⟨hfloor, hminX⟩, hmaxX⟩, hminY⟩, hmaxY⟩ := h
  have hx : myPos.x ≤ 60000 := myPos.x_le
  have hy : myPos.y ≤ 60000 := myPos.y_le
  have hz : myPos.z ≤ 15 := myPos.z_le
  have hz' : pos.z ≤ 15 := pos.z_le
  have hfloor : OnFloor myPos pos := hfloor
  -- on these floors the offset is at least -8, so no upper border is below zero
  have hoffset : -8 ≤ (myPos.z : ℤ) - pos.z := by
    unfold OnFloor at hfloor
    split at hfloor <;> omega
  simp only [maxViewportX, maxViewportY] at hminX hmaxX hminY hmaxY
  replace hminX := lower_border (by omega) hminX
  replace hmaxX := upper_border (by omega) hmaxX
  replace hminY := lower_border (by omega) hminY
  replace hmaxY := upper_border (by omega) hmaxY
  refine ⟨hfloor, ?_⟩
  simp only [Window.Contains, window, clamp, viewport, maxViewportX, maxViewportY, maxX, maxY]
  omega

/-! ## The index in runs -/

/-- The index does not look at the cache or at where creatures were last. -/
theorem Indexed.place (h : m.Indexed) {c : CreatureId} {toTile : Option Position}
    {lastPosition : Position} (hto : ∀ p ∈ toTile, m.Inside p)
    (hplace : m.place c toTile lastPosition = some m') : m'.Indexed := by
  have hcleared : Indexed
      { m with
        lastPosition := fun d => if d = c then lastPosition else m.lastPosition d
        spectatorCache := fun _ => none } := ⟨h.mem_blocks, h.nodup, h.inside⟩
  obtain ⟨m'', hmoved, hm'', -⟩ := hcleared.moveCreature (c := c) hto
  obtain rfl : m' = m'' := Option.some.inj (hplace.symm.trans hmoved)
  exact hm''

theorem Indexed.step (h : m.Indexed) {a : MapAction} (ha : a.Valid m)
    (hstep : mapStep m a = some m') : m'.Indexed := by
  have hcache (cache : Position → Option (List CreatureId)) :
      Indexed { m with spectatorCache := cache } := ⟨h.mem_blocks, h.nodup, h.inside⟩
  cases a with
  | addCreature c pos admitted =>
    obtain rfl | ⟨cache, lastPosition, hplace⟩ := addCreature_cases hstep
    · exact h
    · refine (hcache cache).place ?_ hplace
      rintro p ⟨⟩
      exact ha
  | removeCreature c admitted =>
    obtain rfl | ⟨cache, lastPosition, hplace⟩ := removeCreature_cases hstep
    · exact h
    · refine (hcache cache).place ?_ hplace
      rintro p ⟨⟩
  | getSpectators center =>
    obtain rfl := Option.some.inj hstep
    cases hentry : m.spectatorCache center with
    | some entry =>
      rw [getSpectators_hit hentry]
      exact h
    | none =>
      rw [getSpectators_miss hentry]
      exact hcache _
  | getSpectatorsInto spectators center check multiFloor ranges =>
    obtain rfl := Option.some.inj hstep
    obtain ⟨cache, hfst⟩ := getSpectatorsInto_fst m false spectators center check multiFloor ranges
    rw [hfst]
    exact hcache cache

theorem mapSystem_indexed (h : mapSystem.Reachable m) : m.Indexed := by
  apply h.invariant
  · intro m hm
    exact indexed_empty hm.1 hm.2.1
  · intro m a m' hm hstep
    exact hm.step hstep.1 hstep.2

/-! ## Nobody is missing from the cache -/

theorem floors_le (z : ℕ) (hz : z ≤ maxZ) (multiFloor : Bool) : (floors z multiFloor).2 ≤ maxZ := by
  unfold floors
  split
  · split
    · exact Nat.min_le_right _ _
    · decide
  · exact hz

/-- Every entry has the creatures that a query would find now; a caller may have added others. -/
def CacheCovers (m : Map) : Prop :=
  ∀ p entry, m.spectatorCache p = some entry → ∀ c ∈ m.freshEntry p, c ∈ entry

theorem CacheCovers.remember (h : m.CacheCovers) {center : Position} {entry : List CreatureId}
    (hentry : ∀ c ∈ m.freshEntry center, c ∈ entry) : (m.remember center entry).CacheCovers := by
  intro p entry' hp
  change (if p = center then some entry else m.spectatorCache p) = some entry' at hp
  change ∀ c ∈ m.freshEntry p, c ∈ entry'
  split at hp
  · next heq =>
    rw [heq, ← Option.some.inj hp]
    exact hentry
  · exact h p entry' hp

theorem cacheCovers_of_empty (h : ∀ p, m.spectatorCache p = none) : m.CacheCovers := by
  intro p entry hentry
  rw [h] at hentry
  cases hentry

/-- Whatever the caller has, the creatures that are found come behind it. -/
theorem mem_freshSpectators {spectators : List CreatureId} {center : Position} {multiFloor : Bool}
    {ranges : Ranges} (hindexed : m.Indexed) {c : CreatureId} :
    c ∈ m.freshSpectators spectators center multiFloor ranges ↔
      c ∈ spectators ∨ m.InWindow center ranges.offsets (floors center.z multiFloor).1
        (floors center.z multiFloor).2 c :=
  hindexed.mem_collectSpectators (floors_le center.z center.z_le multiFloor)

theorem CacheCovers.step (h : m.CacheCovers) (hindexed : m.Indexed) {a : MapAction}
    (hstep : mapStep m a = some m') : m'.CacheCovers := by
  obtain rfl | hempty | ⟨center, -, rfl⟩ := mapStep_cache hstep
  · exact h
  · exact cacheCovers_of_empty hempty
  · refine h.remember fun c hc => ?_
    have hc := (mem_freshSpectators hindexed).mp hc
    exact (mem_freshSpectators hindexed).mpr (.inr (hc.resolve_left List.not_mem_nil))

theorem mapSystem_cacheCovers (h : mapSystem.Reachable m) : m.CacheCovers := by
  have hboth : m.Indexed ∧ m.CacheCovers := by
    apply h.invariant
    · intro m hm
      exact ⟨indexed_empty hm.1 hm.2.1, cacheCovers_of_empty hm.2.2⟩
    · intro m a m' hm hstep
      exact ⟨hm.1.step hstep.1 hstep.2, hm.2.step hm.1 hstep.2⟩
  exact hboth.2

/-! ## Viewers are told -/

/-- A viewer that is found is told, whatever the cache holds. -/
theorem CacheCovers.mem_getSpectators (h : m.CacheCovers) {pos : Position} {c : CreatureId}
    (hc : c ∈ m.freshEntry pos) : c ∈ (m.getSpectators pos).2 := by
  cases hentry : m.spectatorCache pos with
  | some entry =>
    rw [getSpectators_hit hentry]
    exact h pos entry hentry c hc
  | none =>
    rw [getSpectators_miss hentry]
    exact hc

/-- The query at a position finds a creature that sees it if and only if the creature is not below
ground while the position is above. -/
theorem mem_freshEntry (hindexed : m.Indexed) {c : CreatureId} {myPos pos : Position}
    (hc : m.tile c = some myPos) (hsees : sees myPos pos = true) :
    c ∈ m.freshEntry pos ↔ myPos.z ≤ 7 ∨ 8 ≤ pos.z := by
  obtain ⟨hfloor, hcontains⟩ := sees_window hsees
  have hz : myPos.z ≤ 15 := myPos.z_le
  have hfind : c ∈ m.freshEntry pos ↔
      (floors pos.z true).1 ≤ myPos.z ∧ myPos.z ≤ (floors pos.z true).2 := by
    rw [freshEntry, mem_freshSpectators hindexed, or_iff_right List.not_mem_nil]
    constructor
    · rintro ⟨p, hp, hmin, hmax, -⟩
      obtain rfl : myPos = p := Option.some.inj (hc.symm.trans hp)
      exact ⟨hmin, hmax⟩
    · rintro ⟨hmin, hmax⟩
      exact ⟨myPos, hc, hmin, hmax, hcontains⟩
  rw [hfind]
  unfold OnFloor at hfloor
  by_cases hpos : 8 ≤ pos.z
  · have hfloors : floors pos.z true = (pos.z - 2, min (pos.z + 2) maxZ) := by
      simp [floors, isUnderground, hpos]
    rw [hfloors]
    simp only [maxZ]
    split at hfloor <;> omega
  · have hfloors : floors pos.z true = (0, 7) := by simp [floors, isUnderground, hpos]
    rw [hfloors]
    omega

/-- A viewer is told of what happens at a position that it sees, unless it is below ground while the
position is above: there the query does not look. -/
theorem viewers_told (h : mapSystem.Reachable m) {c : CreatureId} {myPos pos : Position}
    (hc : m.tile c = some myPos) (hsees : sees myPos pos = true) :
    (c ∈ (m.clearSpectatorCache.getSpectators pos).2 ↔ myPos.z ≤ 7 ∨ 8 ≤ pos.z) ∧
      (myPos.z ≤ 7 ∨ 8 ≤ pos.z → c ∈ (m.getSpectators pos).2) := by
  have hfind := mem_freshEntry (mapSystem_indexed h) hc hsees
  constructor
  · rw [getSpectators_miss rfl]
    exact hfind
  · intro hfloors
    exact (mapSystem_cacheCovers h).mem_getSpectators (hfind.mpr hfloors)

namespace SmallMap

/-- A square of the first floor below ground. -/
def cellar : Position := ⟨99, 40, 8, by decide, by decide, by decide⟩

end SmallMap

open SmallMap in
theorem viewers_told_neighbour : ∃ m, runActions mapStep field walk = some m ∧
    (1 ∈ (m.clearSpectatorCache.getSpectators (square 105 45)).2 ↔
      (square 100 40).z ≤ 7 ∨ 8 ≤ (square 105 45).z) ∧
    ((square 100 40).z ≤ 7 ∨ 8 ≤ (square 105 45).z →
      1 ∈ (m.getSpectators (square 105 45)).2) := by
  have hfield : mapSystem.Reachable field := .init isEmpty_field
  refine ⟨_, rfl, viewers_told ?_ ?_ (by decide)⟩
  · exact reachable_restrict_of_runActions hfield walk rfl
  · rfl

open SmallMap in
/-- A creature one floor below ground sees the floor above it, and is not told of what happens
there. -/
theorem viewers_not_told : ¬ ∀ m, mapSystem.Reachable m → ∀ c myPos pos,
    m.tile c = some myPos → sees myPos pos = true → c ∈ (m.getSpectators pos).2 := by
  intro hall
  obtain ⟨m, hrun, htile, hgone⟩ : ∃ m, runActions (guarded MapAction.Valid mapStep) field
      [.addCreature 1 cellar true] = some m ∧ m.tile 1 = some cellar ∧
      1 ∉ (m.getSpectators (square 99 40)).2 := ⟨_, rfl, rfl, by decide⟩
  have hfield : mapSystem.Reachable field := .init isEmpty_field
  have hm := reachable_restrict_of_runActions hfield _ hrun
  exact hgone (hall m hm 1 cellar (square 99 40) htile (by decide))

end Map

end TyanoCore
