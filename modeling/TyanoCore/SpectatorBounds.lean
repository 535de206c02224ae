import TyanoCore.SpectatorIndex

/-!
# The blocks that a query reads

A query keeps its window on the largest possible map, not on the one that is loaded.  Near the
eastern and the southern border the window reaches beyond the blocks of the map, and on higher
floors it reaches further.
-/

namespace TyanoCore

namespace Map

variable (m : Map)

/-! ## What is read -/

/-- The blocks that the private `Map::getSpectators` reads, each with its floor. -/
def reads (center : Position) (offsets : Offsets) (minZ maxZ : ℕ) : List (ℕ × ℕ) :=
  if m.creatures = none then []
  else (List.range' minZ (maxZ + 1 - minZ)).flatMap fun z =>
    let window := window center offsets z
    if window.maxX < window.minX ∨ window.maxY < window.minY then []
    else (m.blockIndexes window z).map fun index => (z, index)

/-- What a query collects comes from the blocks that it reads. -/
theorem collectSpectators_eq {blocks : ℕ → List CreatureId} (h : m.creatures = some blocks)
    (spectators : List CreatureId) (center : Position) (checkForDuplicates : Bool)
    (offsets : Offsets) (minZ maxZ : ℕ) :
    m.collectSpectators spectators center checkForDuplicates offsets minZ maxZ =
      ((m.reads center offsets minZ maxZ).flatMap fun read =>
        (blocks read.2).filter fun c =>
          (window center offsets read.1).Contains (m.getPosition c)).foldl
        (addSpectator checkForDuplicates) spectators := by
  have hcreatures : m.creatures ≠ none := by rw [h]; exact Option.some_ne_none blocks
  unfold collectSpectators reads
  rw [if_neg hcreatures, h, List.flatMap_assoc]
  dsimp only
  congr 1
  apply List.flatMap_congr
  intro z _
  unfold floorSpectators
  dsimp only
  split
  · rfl
  · rw [List.flatMap_map]

/-! ## Inside and outside of the array -/

/-- The number of the blocks. -/
def blockCount : ℕ := m.creatureBlockCountX * m.creatureBlockCountY * creatureBlockCountZ

variable {m}

/-- A block is in the array when its place on the floor is. -/
theorem index_lt_iff {a b z : ℕ} (hz : z < creatureBlockCountZ) :
    creatureBlockCountZ * m.creatureBlockCountY * a + creatureBlockCountZ * b + z < m.blockCount ↔
      m.creatureBlockCountY * a + b < m.creatureBlockCountY * m.creatureBlockCountX := by
  have hindex : creatureBlockCountZ * m.creatureBlockCountY * a + creatureBlockCountZ * b + z =
      creatureBlockCountZ * (m.creatureBlockCountY * a + b) + z := by
    rw [Nat.mul_add, Nat.mul_assoc]
  have hcount : m.blockCount =
      creatureBlockCountZ * (m.creatureBlockCountY * m.creatureBlockCountX) := by
    rw [blockCount, Nat.mul_comm, Nat.mul_comm m.creatureBlockCountX]
  rw [hindex, hcount]
  generalize m.creatureBlockCountY * a + b = place
  generalize m.creatureBlockCountY * m.creatureBlockCountX = places
  unfold creatureBlockCountZ numZ maxZ at hz ⊢
  omega

/-- The place of a block that is at most one row beyond the map. -/
theorem place_lt_iff {a b : ℕ} (hb : b ≤ m.creatureBlockCountY) :
    m.creatureBlockCountY * a + b < m.creatureBlockCountY * m.creatureBlockCountX ↔
      a < m.creatureBlockCountX ∧ (a + 1 < m.creatureBlockCountX ∨ b < m.creatureBlockCountY) := by
  have hrows (n n' : ℕ) (hle : n ≤ n') :
      m.creatureBlockCountY * n ≤ m.creatureBlockCountY * n' := Nat.mul_le_mul_left _ hle
  have hsucc (n : ℕ) : m.creatureBlockCountY * (n + 1) =
      m.creatureBlockCountY * n + m.creatureBlockCountY := Nat.mul_succ _ n
  have hpos : 0 < m.creatureBlockCountY := Nat.succ_pos _
  rcases lt_trichotomy (a + 1) m.creatureBlockCountX with hlt | heq | hgt
  · have hbelow := hrows (a + 1 + 1) _ hlt
    rw [hsucc, hsucc] at hbelow
    constructor
    · exact fun _ => ⟨by omega, Or.inl hlt⟩
    · intro _
      omega
  · rw [← heq, hsucc]
    omega
  · have hbeyond := hrows m.creatureBlockCountX a (by omega)
    constructor
    · intro h
      omega
    · rintro ⟨h, -⟩
      omega

/-! ## The window of a client -/

/-- The floors between the centre and the highest one of the query. -/
def rise (center : Position) (multiFloor : Bool) : ℕ :=
  center.z - (floors center.z multiFloor).1

/-- The column of the blocks at the eastern border of the highest window. -/
def eastBlock (center : Position) (multiFloor : Bool) : ℕ :=
  min (center.x + maxViewportX + rise center multiFloor) maxX / creaturesBlockSize

/-- The row of the blocks at the southern border of the highest window. -/
def southBlock (center : Position) (multiFloor : Bool) : ℕ :=
  min (center.y + maxViewportY + rise center multiFloor) maxY / creaturesBlockSize

/-- The south-eastern corner of the highest window is in the array: its column is on the map, and is
not the last one when its row is beyond the map. -/
def CornerInArray (m : Map) (center : Position) (multiFloor : Bool) : Prop :=
  eastBlock center multiFloor < m.creatureBlockCountX ∧
    (eastBlock center multiFloor + 1 < m.creatureBlockCountX ∨
      southBlock center multiFloor < m.creatureBlockCountY)

instance (m : Map) (center : Position) (multiFloor : Bool) :
    Decidable (m.CornerInArray center multiFloor) := inferInstanceAs (Decidable (_ ∧ _))

/-- The blocks that a query with the default ranges reads. -/
def viewportReads (m : Map) (center : Position) (multiFloor : Bool) : List (ℕ × ℕ) :=
  m.reads center ({} : Ranges).offsets (floors center.z multiFloor).1
    (floors center.z multiFloor).2

/-- The window of a client is never empty. -/
theorem viewport_nonempty (center : Position) (z : ℕ) :
    ¬((window center viewport z).maxX < (window center viewport z).minX ∨
      (window center viewport z).maxY < (window center viewport z).minY) := by
  unfold window viewport clamp maxViewportX maxViewportY
  dsimp only
  omega

theorem mem_viewportReads {center : Position} {multiFloor : Bool} {z index : ℕ} :
    (z, index) ∈ m.viewportReads center multiFloor ↔ m.creatures ≠ none ∧
      ((floors center.z multiFloor).1 ≤ z ∧ z ≤ (floors center.z multiFloor).2) ∧
      index ∈ m.blockIndexes (window center viewport z) z := by
  have hoffsets : ({} : Ranges).offsets = viewport := by decide
  unfold viewportReads reads
  rw [hoffsets]
  split
  · next h => simp [h]
  · next h =>
    simp only [if_neg (viewport_nonempty center _), List.mem_flatMap, List.mem_range'_1,
      List.mem_map, Prod.mk.injEq, ne_eq, h, not_false_eq_true, true_and]
    constructor
    · rintro ⟨z', hz', index', hindex, rfl, rfl⟩
      exact ⟨by omega, hindex⟩
    · rintro ⟨hz, hindex⟩
      exact ⟨z, by omega, index, hindex, rfl, rfl⟩

/-- The floors of a query are floors of the map, the first of them at or above the centre. -/
theorem floors_spec (center : Position) (multiFloor : Bool) :
    (floors center.z multiFloor).1 ≤ center.z ∧
      (floors center.z multiFloor).1 ≤ (floors center.z multiFloor).2 ∧
      (floors center.z multiFloor).2 < creatureBlockCountZ ∧ rise center multiFloor ≤ 7 := by
  have hz : center.z ≤ 15 := center.z_le
  unfold rise floors isUnderground maxZ creatureBlockCountZ numZ maxZ
  split
  · split
    · next hunder =>
      rw [decide_eq_true_eq] at hunder
      dsimp only
      omega
    · next hunder =>
      rw [decide_eq_true_eq] at hunder
      dsimp only
      omega
  · dsimp only
    omega

/-- The borders of a window on a floor of the query lie within those of the highest one. -/
theorem border_le (center : Position) (multiFloor : Bool) {z : ℕ}
    (hz : (floors center.z multiFloor).1 ≤ z) :
    (window center viewport z).maxX / creaturesBlockSize ≤ eastBlock center multiFloor ∧
      (window center viewport z).maxY / creaturesBlockSize ≤ southBlock center multiFloor := by
  unfold window viewport clamp eastBlock southBlock rise
  dsimp only
  constructor
  · apply Nat.div_le_div_right
    omega
  · apply Nat.div_le_div_right
    omega

/-- The borders of the highest window. -/
theorem border_eq (center : Position) (multiFloor : Bool) :
    (window center viewport (floors center.z multiFloor).1).maxX / creaturesBlockSize =
        eastBlock center multiFloor ∧
      (window center viewport (floors center.z multiFloor).1).maxY / creaturesBlockSize =
        southBlock center multiFloor := by
  obtain ⟨hle, -⟩ := floors_spec center multiFloor
  unfold window viewport clamp eastBlock southBlock rise
  dsimp only
  constructor
  · congr 1
    omega
  · congr 1
    omega

/-- The southern border is at most one row of blocks beyond the map. -/
theorem southBlock_le (multiFloor : Bool) {center : Position} (hcenter : m.Inside center) :
    southBlock center multiFloor ≤ m.creatureBlockCountY := by
  obtain ⟨-, -, -, hrise⟩ := floors_spec center multiFloor
  have hheight := hcenter.2
  unfold southBlock creatureBlockCountY creaturesBlockSize maxViewportY maxY
  omega

/-- A query with the default ranges reads blocks of the array only, if and only if there is no
array yet or the south-eastern corner of its highest window is in it.  What it collects comes from the
blocks that it reads. -/
theorem viewportReads_lt_iff (m : Map) (center : Position) (multiFloor : Bool)
    (hcenter : m.Inside center) :
    ((∀ read ∈ m.viewportReads center multiFloor, read.2 < m.blockCount) ↔
      (m.creatures ≠ none → m.CornerInArray center multiFloor)) ∧
    ∀ blocks, m.creatures = some blocks → ∀ spectators checkForDuplicates,
      m.collectSpectators spectators center checkForDuplicates ({} : Ranges).offsets
          (floors center.z multiFloor).1 (floors center.z multiFloor).2 =
        ((m.viewportReads center multiFloor).flatMap fun read =>
          (blocks read.2).filter fun c =>
            (window center ({} : Ranges).offsets read.1).Contains (m.getPosition c)).foldl
          (addSpectator checkForDuplicates) spectators := by
  refine ⟨?_, fun blocks hblocks spectators checkForDuplicates =>
    m.collectSpectators_eq hblocks spectators center checkForDuplicates _ _ _⟩
  obtain ⟨-, hfloors, hbelow, -⟩ := floors_spec center multiFloor
  obtain ⟨heast, hsouth⟩ := border_eq center multiFloor
  have hrow := southBlock_le multiFloor hcenter
  obtain ⟨hx, hy⟩ := not_or.mp (viewport_nonempty center (floors center.z multiFloor).1)
  constructor
  · intro hreads hcreatures
    -- the corner block of the highest window is one of those that are read
    have hcorner := hreads ((floors center.z multiFloor).1, _)
      (mem_viewportReads.mpr ⟨hcreatures, ⟨le_rfl, hfloors⟩, mem_blockIndexes.mpr
        ⟨eastBlock center multiFloor, southBlock center multiFloor, ?_, ?_, rfl⟩⟩)
    · exact (place_lt_iff hrow).mp ((index_lt_iff (hfloors.trans_lt hbelow)).mp hcorner)
    · exact ⟨(Nat.div_le_div_right (not_lt.mp hx)).trans heast.le, heast.ge⟩
    · exact ⟨(Nat.div_le_div_right (not_lt.mp hy)).trans hsouth.le, hsouth.ge⟩
  · rintro hcorner ⟨z, index⟩ hread
    obtain ⟨hcreatures, ⟨hz, hz'⟩, hindex⟩ := mem_viewportReads.mp hread
    obtain ⟨a, b, ⟨-, ha⟩, ⟨-, hb⟩, rfl⟩ := mem_blockIndexes.mp hindex
    obtain ⟨hwest, hnorth⟩ := border_le center multiFloor hz
    obtain ⟨hcolumn, hrest⟩ := hcorner hcreatures
    have hb' : b ≤ southBlock center multiFloor := hb.trans hnorth
    have ha' : a ≤ eastBlock center multiFloor := ha.trans hwest
    apply (index_lt_iff (hz'.trans_lt hbelow)).mpr
    apply (place_lt_iff (hb'.trans hrow)).mpr
    omega

/-- A map just smaller than two blocks, and a square at its eastern border. -/
def borderPlace : Position where
  x := 190
  y := 100
  z := 7
  x_le := by decide
  y_le := Position.hundred_le_maxY
  z_le := Position.ground_le_maxZ

def twoBlocks : Map where
  width := 195
  height := 195
  creatures := some fun _ => []
  lastPosition := fun _ => borderPlace

theorem viewportReads_lt_borderPlace : twoBlocks.Inside borderPlace ∧
    ((∀ read ∈ twoBlocks.viewportReads borderPlace false, read.2 < twoBlocks.blockCount) ↔
      (twoBlocks.creatures ≠ none → twoBlocks.CornerInArray borderPlace false)) :=
  ⟨by decide, (viewportReads_lt_iff twoBlocks borderPlace false (by decide)).1⟩

/-- At the border the query reads a block of the third column of two. -/
theorem borderPlace_reads_beyond : twoBlocks.Inside borderPlace ∧
    ¬∀ read ∈ twoBlocks.viewportReads borderPlace false, read.2 < twoBlocks.blockCount := by
  decide

end Map

end TyanoCore
