import Mathlib.Data.List.Nodup
import TyanoCore.Run
import TyanoCore.Spectators

/-!
# A query is a filter

The blocks hold every creature once, where it stands.  A query that goes through the blocks of a
window, and through some others that share their indexes, finds the creatures in the window.
-/

namespace TyanoCore

open Transition

namespace Map

variable {m m' : Map}

/-! ## Spectators are added once -/

theorem mem_foldl_addSpectator {visited spectators : List CreatureId} {c : CreatureId} :
    c ∈ visited.foldl (addSpectator true) spectators ↔ c ∈ spectators ∨ c ∈ visited := by
  induction visited generalizing spectators with
  | nil => simp
  | cons d visited ih =>
    rw [List.foldl_cons, ih]
    by_cases hd : d ∈ spectators
    · have hsame : addSpectator true spectators d = spectators := by simp [addSpectator, hd]
      rw [hsame, List.mem_cons]
      constructor
      · rintro (hc | hc)
        · exact .inl hc
        · exact .inr (.inr hc)
      · rintro (hc | rfl | hc)
        · exact .inl hc
        · exact .inl hd
        · exact .inr hc
    · have hadd : addSpectator true spectators d = spectators ++ [d] := by simp [addSpectator, hd]
      rw [hadd, List.mem_append, List.mem_singleton, List.mem_cons, or_assoc]

theorem nodup_foldl_addSpectator {visited spectators : List CreatureId}
    (h : spectators.Nodup) : (visited.foldl (addSpectator true) spectators).Nodup := by
  induction visited generalizing spectators with
  | nil => exact h
  | cons d visited ih =>
    refine ih ?_
    by_cases hd : d ∈ spectators
    · simpa [addSpectator, hd] using h
    · simp only [addSpectator, Bool.not_true, hd, not_false_eq_true, decide_true, Bool.or_true,
        if_true]
      refine List.nodup_append.mpr ⟨h, List.nodup_cons.mpr ⟨List.not_mem_nil, List.nodup_nil⟩, ?_⟩
      rintro a ha b hb rfl
      rw [List.mem_singleton] at hb
      exact hd (hb ▸ ha)

/-- What the caller has in the list stays in front. -/
theorem prefix_foldl_addSpectator (check : Bool) (visited spectators : List CreatureId) :
    spectators <+: visited.foldl (addSpectator check) spectators := by
  induction visited generalizing spectators with
  | nil => exact List.prefix_rfl
  | cons d visited ih =>
    have hstep : spectators <+: addSpectator check spectators d := by
      unfold addSpectator
      split
      · exact List.prefix_append _ _
      · exact List.prefix_rfl
    exact hstep.trans (ih _)

/-! ## Blocks and windows -/

/-- The steps from one multiple to another. -/
theorem mem_indexes {a b step n : ℕ} (hstep : 0 < step) :
    n ∈ indexes (step * a) (step * b) step ↔ ∃ k, a ≤ k ∧ k ≤ b ∧ n = step * k := by
  unfold indexes
  split
  · next hlt =>
    have hba : b < a := Nat.lt_of_mul_lt_mul_left hlt
    simp only [List.not_mem_nil, false_iff, not_exists, not_and]
    intro k hak hkb
    omega
  · next hle =>
    have hab : a ≤ b := Nat.le_of_mul_le_mul_left (Nat.le_of_not_lt hle) hstep
    have hcount : (step * b - step * a) / step = b - a := by
      rw [← Nat.mul_sub, Nat.mul_div_cancel_left _ hstep]
    rw [List.mem_range', hcount]
    constructor
    · rintro ⟨i, hi, rfl⟩
      exact ⟨a + i, Nat.le_add_right a i, by omega, (Nat.mul_add step a i).symm⟩
    · rintro ⟨k, hak, hkb, rfl⟩
      refine ⟨k - a, by omega, ?_⟩
      rw [← Nat.mul_add, Nat.add_sub_cancel' hak]

/-- The indexes that a query looks at on a floor, by the columns and rows of the blocks. -/
theorem mem_blockIndexes {window : Window} {z index : ℕ} :
    index ∈ m.blockIndexes window z ↔ ∃ a b,
      (window.minX / creaturesBlockSize ≤ a ∧ a ≤ window.maxX / creaturesBlockSize) ∧
      (window.minY / creaturesBlockSize ≤ b ∧ b ≤ window.maxY / creaturesBlockSize) ∧
      index = creatureBlockCountZ * m.creatureBlockCountY * a + creatureBlockCountZ * b + z := by
  have hz : 0 < creatureBlockCountZ := by decide
  have hy : 0 < creatureBlockCountZ * m.creatureBlockCountY :=
    Nat.mul_pos hz (Nat.succ_pos _)
  simp only [blockIndexes, List.mem_flatMap, List.mem_map, mem_indexes hy, mem_indexes hz]
  constructor
  · rintro ⟨_, ⟨a, hmin, hmax, rfl⟩, _, ⟨b, hmin', hmax', rfl⟩, rfl⟩
    exact ⟨a, b, ⟨hmin, hmax⟩, ⟨hmin', hmax'⟩, rfl⟩
  · rintro ⟨a, b, ⟨hmin, hmax⟩, ⟨hmin', hmax'⟩, rfl⟩
    exact ⟨_, ⟨a, hmin, hmax, rfl⟩, _, ⟨b, hmin', hmax', rfl⟩, rfl⟩

/-- Blocks of one index are blocks of one floor. -/
theorem creaturesIndexForPosition_floor {p : Position} {a b z : ℕ} (hz : z ≤ maxZ)
    (h : m.creaturesIndexForPosition p =
      creatureBlockCountZ * m.creatureBlockCountY * a + creatureBlockCountZ * b + z) :
    p.z = z := by
  have hpz : p.z ≤ maxZ := p.z_le
  have hmod (n k : ℕ) (hk : k ≤ maxZ) : (creatureBlockCountZ * n + k) % creatureBlockCountZ = k := by
    rw [Nat.mul_add_mod, Nat.mod_eq_of_lt]
    exact Nat.lt_succ_of_le hk
  have hindex : creatureBlockCountZ * (m.creatureBlockCountY * (p.x / creaturesBlockSize) +
      p.y / creaturesBlockSize) + p.z =
      creatureBlockCountZ * (m.creatureBlockCountY * a + b) + z := by
    simpa only [creaturesIndexForPosition, Nat.mul_add, Nat.mul_assoc] using h
  have := congrArg (· % creatureBlockCountZ) hindex
  simpa only [hmod _ _ hpz, hmod _ _ hz] using this

/-! ## The creature index -/

/-- A tile of the map lies here. -/
def Inside (m : Map) (p : Position) : Prop := p.x < m.width ∧ p.y < m.height

instance (m : Map) (p : Position) : Decidable (m.Inside p) := inferInstanceAs (Decidable (_ ∧ _))

def blocks (m : Map) : ℕ → List CreatureId := m.creatures.getD fun _ => []

/-- Every creature on the map is once in the block of its position, and in no other. -/
structure Indexed (m : Map) : Prop where
  mem_blocks : ∀ i c, c ∈ m.blocks i ↔ ∃ p, m.tile c = some p ∧ m.creaturesIndexForPosition p = i
  nodup : ∀ i, (m.blocks i).Nodup
  inside : ∀ {c p}, m.tile c = some p → m.Inside p

/-- The block of a position on the map is one of the array. -/
theorem Inside.index_lt {p : Position} (h : m.Inside p) :
    m.creaturesIndexForPosition p <
      m.creatureBlockCountX * m.creatureBlockCountY * creatureBlockCountZ := by
  have hx : p.x / creaturesBlockSize < m.creatureBlockCountX :=
    Nat.lt_succ_of_le (Nat.div_le_div_right h.1.le)
  have hy : p.y / creaturesBlockSize < m.creatureBlockCountY :=
    Nat.lt_succ_of_le (Nat.div_le_div_right h.2.le)
  have hz : p.z < creatureBlockCountZ := Nat.lt_succ_of_le p.z_le
  unfold creaturesIndexForPosition
  generalize p.x / creaturesBlockSize = a at hx ⊢
  generalize p.y / creaturesBlockSize = b at hy ⊢
  calc creatureBlockCountZ * m.creatureBlockCountY * a + creatureBlockCountZ * b + p.z
      < creatureBlockCountZ * m.creatureBlockCountY * a + creatureBlockCountZ * (b + 1) := by
        rw [Nat.mul_succ]
        omega
    _ ≤ creatureBlockCountZ * m.creatureBlockCountY * a +
          creatureBlockCountZ * m.creatureBlockCountY :=
        Nat.add_le_add_left (Nat.mul_le_mul_left _ hy) _
    _ = creatureBlockCountZ * m.creatureBlockCountY * (a + 1) := (Nat.mul_succ _ _).symm
    _ ≤ creatureBlockCountZ * m.creatureBlockCountY * m.creatureBlockCountX :=
        Nat.mul_le_mul_left _ hx
    _ = m.creatureBlockCountX * m.creatureBlockCountY * creatureBlockCountZ := by
        rw [Nat.mul_comm, Nat.mul_comm creatureBlockCountZ, Nat.mul_assoc]

/-- What lies outside of the array is never read as anything but empty. -/
theorem Indexed.outside (h : m.Indexed) {i : ℕ}
    (hi : m.creatureBlockCountX * m.creatureBlockCountY * creatureBlockCountZ ≤ i) :
    m.blocks i = [] := by
  refine List.eq_nil_iff_forall_not_mem.mpr fun c hc => ?_
  obtain ⟨p, hp, rfl⟩ := (h.mem_blocks i c).mp hc
  exact absurd (h.inside hp).index_lt (Nat.not_lt.mpr hi)

theorem setBlock_apply (blocks : ℕ → List CreatureId) (index i : ℕ) (block : List CreatureId) :
    setBlock blocks index block i = if some index = some i then block else blocks i := by
  unfold setBlock
  by_cases h : i = index
  · simp [h]
  · simp [h, Ne.symm h]

theorem leaveBlock_spec {c : CreatureId} {fromIndex : Option ℕ}
    (hfrom : ∀ i, fromIndex = some i → c ∈ m.blocks i) :
    ∃ left, leaveBlock m.creatures c fromIndex = some left ∧
      ∀ i, left.getD (fun _ => []) i =
        if fromIndex = some i then (m.blocks i).erase c else m.blocks i := by
  cases fromIndex with
  | none => exact ⟨m.creatures, rfl, fun i => rfl⟩
  | some index =>
    have hc := hfrom index rfl
    unfold blocks at hc ⊢
    cases hcreatures : m.creatures with
    | none =>
      rw [hcreatures] at hc
      cases hc
    | some blocks =>
      rw [hcreatures] at hc
      refine ⟨_, if_pos hc, fun i => ?_⟩
      simp only [Option.getD_some, setBlock_apply]
      split
      · next h => rw [Option.some.inj h]
      · rfl

theorem enterBlock_spec (creatures : Option (ℕ → List CreatureId)) (c : CreatureId)
    (toIndex : Option ℕ) (i : ℕ) :
    (enterBlock creatures c toIndex).getD (fun _ => []) i =
      creatures.getD (fun _ => []) i ++ if toIndex = some i then [c] else [] := by
  cases toIndex with
  | none => exact (List.append_nil _).symm
  | some index =>
    simp only [enterBlock, Option.getD_some, setBlock_apply]
    split
    · next h => rw [Option.some.inj h]
    · rw [List.append_nil]

/-- What a notification does to the blocks: the creature leaves one and comes to the end of
another. -/
theorem onCreatureMoved_spec {c : CreatureId} {fromTile toTile : Option Position}
    (hfrom : ∀ p, fromTile = some p → c ∈ m.blocks (m.creaturesIndexForPosition p)) :
    ∃ creatures, m.onCreatureMoved c fromTile toTile = some { m with creatures := creatures } ∧
      ∀ i, creatures.getD (fun _ => []) i =
        if fromTile.map m.creaturesIndexForPosition = toTile.map m.creaturesIndexForPosition then
          m.blocks i
        else
          (if fromTile.map m.creaturesIndexForPosition = some i then (m.blocks i).erase c
            else m.blocks i) ++
          if toTile.map m.creaturesIndexForPosition = some i then [c] else [] := by
  unfold onCreatureMoved
  dsimp only
  split
  · exact ⟨m.creatures, rfl, fun i => rfl⟩
  · have hindex (i : ℕ) (hi : fromTile.map m.creaturesIndexForPosition = some i) :
        c ∈ m.blocks i := by
      obtain ⟨p, hp, rfl⟩ := Option.map_eq_some_iff.mp hi
      exact hfrom p hp
    obtain ⟨left, hleft, hblocks⟩ := leaveBlock_spec hindex
    rw [hleft]
    refine ⟨_, rfl, fun i => ?_⟩
    rw [enterBlock_spec, hblocks]

theorem indexed_empty (h : m.creatures = none) (htile : ∀ c, m.tile c = none) : m.Indexed := by
  refine ⟨fun i c => ?_, fun i => ?_, fun {c p} hp => ?_⟩
  · simp [blocks, h, htile]
  · simp [blocks, h]
  · rw [htile] at hp
    cases hp

/-- A creature that is notified leaves the block of the tile it was last notified on. -/
theorem Indexed.moveCreature (h : m.Indexed) {c : CreatureId} {toTile : Option Position}
    (hto : ∀ p ∈ toTile, m.Inside p) :
    ∃ m', m.moveCreature c (m.tile c) toTile = some m' ∧ m'.Indexed ∧
      m'.spectatorCache = m.spectatorCache ∧
      ∀ d, m'.tile d = if d = c then toTile else m.tile d := by
  have hfrom (p : Position) (hp : m.tile c = some p) :
      c ∈ m.blocks (m.creaturesIndexForPosition p) := (h.mem_blocks _ c).mpr ⟨p, hp, rfl⟩
  obtain ⟨creatures, hmoved, hblocks⟩ : ∃ creatures,
      m.moveCreature c (m.tile c) toTile = some
        { m with
          tile := fun d => if d = c then toTile else m.tile d
          creatures := creatures } ∧
      ∀ i, creatures.getD (fun _ => []) i =
        if (m.tile c).map m.creaturesIndexForPosition =
            toTile.map m.creaturesIndexForPosition then m.blocks i
        else
          (if (m.tile c).map m.creaturesIndexForPosition = some i then (m.blocks i).erase c
            else m.blocks i) ++
          if toTile.map m.creaturesIndexForPosition = some i then [c] else [] :=
    @onCreatureMoved_spec { m with tile := fun d => if d = c then toTile else m.tile d } c
      (m.tile c) toTile hfrom
  have hnot (i : ℕ) (hi : (m.tile c).map m.creaturesIndexForPosition ≠ some i) :
      c ∉ m.blocks i := by
    intro hc
    obtain ⟨p, hp, hpi⟩ := (h.mem_blocks i c).mp hc
    exact hi (by rw [hp, Option.map_some, hpi])
  refine ⟨_, hmoved, ⟨fun i d => ?_, fun i => ?_, fun {d p} hp => ?_⟩, rfl, fun d => rfl⟩
  · change d ∈ creatures.getD (fun _ => []) i ↔
      ∃ p, (if d = c then toTile else m.tile d) = some p ∧ m.creaturesIndexForPosition p = i
    rw [hblocks]
    by_cases hd : d = c
    · subst hd
      simp only [if_true]
      by_cases hsame : (m.tile d).map m.creaturesIndexForPosition =
          toTile.map m.creaturesIndexForPosition
      · rw [if_pos hsame, h.mem_blocks, ← Option.map_eq_some_iff, ← Option.map_eq_some_iff, hsame]
      · -- the creature is in its new block only, for its old one held it once
        rw [if_neg hsame, List.mem_append, ← Option.map_eq_some_iff]
        have hgone : d ∉ if (m.tile d).map m.creaturesIndexForPosition = some i then
            (m.blocks i).erase d else m.blocks i := by
          split
          · exact (h.nodup i).not_mem_erase
          · next hi => exact hnot i hi
        rw [or_iff_right hgone]
        split
        · next hi => simp [hi]
        · next hi => simp [hi]
    · rw [if_neg hd, ← h.mem_blocks]
      have hto' : d ∉ if toTile.map m.creaturesIndexForPosition = some i then [c] else [] := by
        split
        · simpa using hd
        · exact List.not_mem_nil
      split
      · rfl
      · rw [List.mem_append, or_iff_left hto']
        split
        · exact List.mem_erase_of_ne hd
        · rfl
  · change (creatures.getD (fun _ => []) i).Nodup
    rw [hblocks]
    split
    · exact h.nodup i
    · refine List.nodup_append.mpr ⟨?_, ?_, ?_⟩
      · split
        · exact (h.nodup i).erase c
        · exact h.nodup i
      · split
        · exact List.nodup_cons.mpr ⟨List.not_mem_nil, List.nodup_nil⟩
        · exact List.nodup_nil
      · rintro a ha b hb rfl
        split at hb
        · obtain rfl := List.mem_singleton.mp hb
          split at ha
          · exact (h.nodup i).not_mem_erase ha
          · next hi => exact hnot i hi ha
        · cases hb
  · change (if d = c then toTile else m.tile d) = some p at hp
    split at hp
    · exact hto p hp
    · exact h.inside hp

/-! ## What a query finds -/

theorem Indexed.getPosition (h : m.Indexed) {i : ℕ} {c : CreatureId} (hc : c ∈ m.blocks i) :
    m.tile c = some (m.getPosition c) ∧ m.creaturesIndexForPosition (m.getPosition c) = i := by
  obtain ⟨p, hp, hi⟩ := (h.mem_blocks i c).mp hc
  have hpos : m.getPosition c = p := by simp only [Map.getPosition, hp, Option.getD_some]
  rw [hpos]
  exact ⟨hp, hi⟩

/-- The blocks of a window hold the creatures in it, and none of another floor. -/
theorem Indexed.mem_floorSpectators (h : m.Indexed) {center : Position} {offsets : Offsets}
    {z : ℕ} (hz : z ≤ maxZ) {c : CreatureId} :
    c ∈ m.floorSpectators m.blocks center offsets z ↔
      ∃ p, m.tile c = some p ∧ p.z = z ∧ (window center offsets z).Contains p := by
  unfold floorSpectators
  dsimp only
  generalize window center offsets z = window
  constructor
  · intro hc
    split at hc
    · cases hc
    obtain ⟨i, hi, hc⟩ := List.mem_flatMap.mp hc
    obtain ⟨hc, hcontains⟩ := List.mem_filter.mp hc
    obtain ⟨htile, hindex⟩ := h.getPosition hc
    obtain ⟨a, b, -, -, hab⟩ := mem_blockIndexes.mp hi
    exact ⟨_, htile, creaturesIndexForPosition_floor hz (hindex.trans hab),
      of_decide_eq_true hcontains⟩
  · rintro ⟨p, hp, rfl, hcontains⟩
    obtain ⟨hminX, hmaxX, hminY, hmaxY⟩ := hcontains
    have hpos : m.getPosition c = p := by simp only [Map.getPosition, hp, Option.getD_some]
    rw [if_neg (by omega), List.mem_flatMap]
    refine ⟨m.creaturesIndexForPosition p, mem_blockIndexes.mpr ?_, List.mem_filter.mpr ⟨?_, ?_⟩⟩
    · exact ⟨_, _, ⟨Nat.div_le_div_right hminX, Nat.div_le_div_right hmaxX⟩,
        ⟨Nat.div_le_div_right hminY, Nat.div_le_div_right hmaxY⟩, rfl⟩
    · exact (h.mem_blocks _ c).mpr ⟨p, hp, rfl⟩
    · rw [hpos]
      exact decide_eq_true ⟨hminX, hmaxX, hminY, hmaxY⟩

/-- A creature that a query with these floors is about. -/
def InWindow (m : Map) (center : Position) (offsets : Offsets) (minZ maxZ : ℕ) (c : CreatureId) :
    Prop :=
  ∃ p, m.tile c = some p ∧ minZ ≤ p.z ∧ p.z ≤ maxZ ∧ (window center offsets p.z).Contains p

theorem Indexed.mem_collectSpectators (h : m.Indexed) {spectators : List CreatureId}
    {center : Position} {offsets : Offsets} {minZ maxZ : ℕ} (hz : maxZ ≤ Map.maxZ)
    {c : CreatureId} :
    c ∈ m.collectSpectators spectators center true offsets minZ maxZ ↔
      c ∈ spectators ∨ m.InWindow center offsets minZ maxZ c := by
  have hfloors (z : ℕ) : z ∈ List.range' minZ (maxZ + 1 - minZ) ↔ minZ ≤ z ∧ z ≤ maxZ := by
    rw [List.mem_range'_1]
    omega
  unfold collectSpectators
  cases hcreatures : m.creatures with
  | none =>
    -- nobody was ever on the map
    refine (or_iff_left ?_).symm
    rintro ⟨p, hp, -⟩
    have hc := (h.mem_blocks _ c).mpr ⟨p, hp, rfl⟩
    simp [blocks, hcreatures] at hc
  | some blocks =>
    have hblocks : blocks = m.blocks := by simp only [Map.blocks, hcreatures, Option.getD_some]
    dsimp only
    rw [mem_foldl_addSpectator, List.mem_flatMap, hblocks]
    apply or_congr_right
    constructor
    · rintro ⟨z, hrange, hc⟩
      obtain ⟨hmin, hmax⟩ := (hfloors z).mp hrange
      obtain ⟨p, hp, rfl, hcontains⟩ := (h.mem_floorSpectators (hmax.trans hz)).mp hc
      exact ⟨p, hp, hmin, hmax, hcontains⟩
    · rintro ⟨p, hp, hmin, hmax, hcontains⟩
      exact ⟨p.z, (hfloors p.z).mpr ⟨hmin, hmax⟩,
        (h.mem_floorSpectators (hmax.trans hz)).mpr ⟨p, hp, rfl, hcontains⟩⟩

/-! ## Runs of notifications -/

/-- A call of `Map::onCreatureMoved` by a tile. -/
structure Notification where
  creature : CreatureId
  fromTile : Option Position
  toTile : Option Position

/-- The tiles are those the creature leaves and comes to; they lie on the map. -/
def Notification.Valid (m : Map) (n : Notification) : Prop :=
  n.fromTile = m.tile n.creature ∧ ∀ p ∈ n.toTile, m.Inside p

instance (m : Map) (n : Notification) : Decidable (n.Valid m) :=
  inferInstanceAs (Decidable (_ ∧ _))

def notify (m : Map) (n : Notification) : Option Map :=
  m.moveCreature n.creature n.fromTile n.toTile

/-- A map of any size on which nobody stands. -/
def IsEmpty (m : Map) : Prop :=
  m.creatures = none ∧ (∀ c, m.tile c = none) ∧ ∀ p, m.spectatorCache p = none

/-- Maps under notifications. -/
def notified : System Map Notification :=
  (System.ofStep IsEmpty notify).restrict Notification.Valid

/-- The creature is found in the block it leaves: the assertion of the source holds. -/
theorem Indexed.notify (h : m.Indexed) {n : Notification} (hvalid : n.Valid m) :
    ∃ m', m.notify n = some m' ∧ m'.Indexed := by
  obtain ⟨hfrom, hto⟩ := hvalid
  obtain ⟨m', hmoved, hm', -⟩ := h.moveCreature (c := n.creature) hto
  rw [← hfrom] at hmoved
  exact ⟨m', hmoved, hm'⟩

theorem notified_indexed (h : notified.Reachable m) : m.Indexed := by
  apply h.invariant
  · rintro m ⟨hcreatures, htile, -⟩
    exact indexed_empty hcreatures htile
  · rintro m n m' hm ⟨hvalid, hstep⟩
    obtain ⟨m'', hmoved, hm''⟩ := hm.notify hvalid
    obtain rfl : m' = m'' := Option.some.inj (hstep.symm.trans hmoved)
    exact hm''

/-- A query finds exactly the creatures in its window, each of them once. -/
theorem spectators_exact (h : notified.Reachable m) (center : Position) (offsets : Offsets)
    (minZ maxZ : ℕ) (hz : maxZ ≤ Map.maxZ) :
    (m.collectSpectators [] center true offsets minZ maxZ).Nodup ∧
      ∀ c, c ∈ m.collectSpectators [] center true offsets minZ maxZ ↔
        m.InWindow center offsets minZ maxZ c := by
  constructor
  · unfold collectSpectators
    split
    · exact List.nodup_nil
    · exact nodup_foldl_addSpectator List.nodup_nil
  · intro c
    rw [(notified_indexed h).mem_collectSpectators hz]
    exact or_iff_right List.not_mem_nil

namespace SmallMap

/-- The places of the samples are within the limits. -/
theorem forty_le : 40 ≤ 60000 := by decide

theorem ninetyNine_le : 99 ≤ 60000 := by decide

theorem hundred_le : 100 ≤ 60000 := by decide

theorem hundredFive_le : 105 ≤ 60000 := by decide

/-- A square of the ground floor. -/
def square (x y : ℕ) (hx : x ≤ 60000 := by decide) (hy : y ≤ 60000 := by decide) : Position :=
  ⟨x, y, 7, hx, hy, Position.ground_le_maxZ⟩

/-- Two rows of three blocks. -/
def field : Map := { width := 250, height := 150, lastPosition := fun _ => square 0 0 }

/-- Creature 1 appears at the border of its block, creature 2 walks to the next block. -/
def twoCreatures : List Notification :=
  [⟨1, none, some (square 99 40)⟩, ⟨2, none, some (square 101 40)⟩,
    ⟨2, some (square 101 40), some (square 100 41)⟩]

end SmallMap

open SmallMap in
/-- The viewport around (105, 40) meets two columns of blocks. -/
theorem spectators_exact_pair : ∃ m, runActions notify field twoCreatures = some m ∧
    m.collectSpectators [] (square 105 40) true viewport 0 7 = [1, 2] ∧
    (m.collectSpectators [] (square 105 40) true viewport 0 7).Nodup ∧
      ∀ c, c ∈ m.collectSpectators [] (square 105 40) true viewport 0 7 ↔
        m.InWindow (square 105 40) viewport 0 7 c := by
  have hr : notified.Reachable field := .init ⟨rfl, fun _ => rfl, fun _ => rfl⟩
  refine ⟨_, rfl, by decide, spectators_exact ?_ _ _ 0 7 (by decide)⟩
  exact reachable_restrict_of_runActions hr twoCreatures rfl

end Map

end TyanoCore
