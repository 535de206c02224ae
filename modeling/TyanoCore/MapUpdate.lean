import TyanoCore.MapDescription
import TyanoCore.Run

/-!
# What a client is told about the map when its player moves

A player that walks is only told the slices of the window that come into view.  A change of floor
shifts the window of every floor; the floors that come into view are told for the old position, and
the slices that follow make up for the shift.
-/

namespace TyanoCore

open SkipRuns Transition

namespace ProtocolGame

/-! ## Slices -/

/-- A part of the map that is sent with an opcode before it: a window, or some floors of the window
around a position, each with its offset. -/
inductive Slice where
  | map (opcode : ℤ) (x y z : ℤ) (width height : ℕ)
  | floorChange (opcode : ℤ) (x y : ℤ) (offsets : List (ℤ × ℤ))

/-- The coordinates that a slice describes. -/
def Slice.cells : Slice → List Cell
  | .map _ x y z width height => window x y z width height
  | .floorChange _ x y offsets => offsets.flatMap fun (nz, offset) => floorCells x y nz 18 14 offset

def MoveUpCreature (newPos oldPos : Position) : List Slice :=
  -- floor change up
  [.floorChange 0xBE (oldPos.x - 8) (oldPos.y - 6)
    (if newPos.z = 7 then
      -- going to surface: floor 7 and 6 already set
      [(5, 3), (4, 4), (3, 5), (2, 6), (1, 7), (0, 8)]
    else if newPos.z > 7 then
      -- underground, going one floor up (still underground)
      [(oldPos.z - 3, 3)]
    else []),
  -- moving up a floor up makes us out of sync: west, north
  .map 0x68 (oldPos.x - 8) (oldPos.y + 1 - 6) newPos.z 1 14,
  .map 0x65 (oldPos.x - 8) (oldPos.y - 6) newPos.z 18 1]

def MoveDownCreature (newPos oldPos : Position) : List Slice :=
  -- floor change down
  [.floorChange 0xBF (oldPos.x - 8) (oldPos.y - 6)
    (if newPos.z = 8 then
      -- going from surface to underground
      [(newPos.z, -1), (newPos.z + 1, -2), (newPos.z + 2, -3)]
    else if newPos.z > oldPos.z ∧ newPos.z > 8 ∧ newPos.z < 14 then
      -- going further down
      [(newPos.z + 2, -3)]
    else []),
  -- moving down a floor makes us out of sync: east, south
  .map 0x66 (oldPos.x + 9) (oldPos.y - 1 - 6) newPos.z 1 14,
  .map 0x67 (oldPos.x - 8) (oldPos.y + 7) newPos.z 18 1]

/-- The slices that `sendMoveCreature` sends to the player that has moved without teleporting. -/
def sendMoveCreature (newPosition oldPosition : Position) : List Slice :=
  (if newPosition.z > oldPosition.z then MoveDownCreature newPosition oldPosition
    else if newPosition.z < oldPosition.z then MoveUpCreature newPosition oldPosition
    else []) ++
  -- north or south, for old x
  (if oldPosition.y > newPosition.y then
      [.map 0x65 (oldPosition.x - 8) (newPosition.y - 6) newPosition.z 18 1]
    else if oldPosition.y < newPosition.y then
      [.map 0x67 (oldPosition.x - 8) (newPosition.y + 7) newPosition.z 18 1]
    else []) ++
  -- east or west, with new y
  if oldPosition.x < newPosition.x then
    [.map 0x66 (newPosition.x + 9) (newPosition.y - 6) newPosition.z 1 14]
  else if oldPosition.x > newPosition.x then
    [.map 0x68 (newPosition.x - 8) (newPosition.y - 6) newPosition.z 1 14]
  else []

/-- The window that is described in full at a position. -/
def playerWindow (pos : Position) : List Cell := window (pos.x - 8) (pos.y - 6) pos.z 18 14

/-! ## The slices cover what comes into view -/

/-- Positions that differ by at most one in each coordinate. -/
def Adjacent (p q : Position) : Prop :=
  (q.x : ℤ) - p.x ≤ 1 ∧ (p.x : ℤ) - q.x ≤ 1 ∧ (q.y : ℤ) - p.y ≤ 1 ∧ (p.y : ℤ) - q.y ≤ 1 ∧
    (q.z : ℤ) - p.z ≤ 1 ∧ (p.z : ℤ) - q.z ≤ 1

instance (p q : Position) : Decidable (Adjacent p q) :=
  inferInstanceAs (Decidable ((q.x : ℤ) - p.x ≤ 1 ∧ (p.x : ℤ) - q.x ≤ 1 ∧ (q.y : ℤ) - p.y ≤ 1 ∧
    (p.y : ℤ) - q.y ≤ 1 ∧ (q.z : ℤ) - p.z ≤ 1 ∧ (p.z : ℤ) - q.z ≤ 1))

/-- The coordinates are described by one of the slices. -/
def DescribedBy (slices : List Slice) (c : Cell) : Prop := ∃ slice ∈ slices, c ∈ slice.cells

theorem describedBy_nil {c : Cell} : DescribedBy [] c ↔ False := by simp [DescribedBy]

theorem describedBy_cons {slice : Slice} {slices : List Slice} {c : Cell} :
    DescribedBy (slice :: slices) c ↔ c ∈ slice.cells ∨ DescribedBy slices c := by
  simp [DescribedBy]

theorem describedBy_append {slices slices' : List Slice} {c : Cell} :
    DescribedBy (slices ++ slices') c ↔ DescribedBy slices c ∨ DescribedBy slices' c := by
  simp [DescribedBy, or_and_right, exists_or]

/-- The coordinates of a window at the floor of a position. -/
theorem mem_window_floor {x y : ℤ} {pos : Position} {width height : ℕ} {a b c : ℤ} :
    (a, b, c) ∈ window x y pos.z width height ↔
      ((7 < pos.z ∧ pos.z - 2 ≤ c ∧ c ≤ 15 ∧ c ≤ pos.z + 2) ∨ (pos.z ≤ 7 ∧ 0 ≤ c ∧ c ≤ 7)) ∧
      x + (pos.z - c) ≤ a ∧ a < x + (pos.z - c) + width ∧
        y + (pos.z - c) ≤ b ∧ b < y + (pos.z - c) + height := by
  have hz := pos.z_le
  rw [Position.maxZ] at hz
  rw [mem_window, mem_floors (by omega) (by omega)]
  split <;> omega

/-- A floor that is told with its offset. -/
theorem mem_floorChange {x y : ℤ} {offsets : List (ℤ × ℤ)} {a b c : ℤ} (offset : ℤ)
    (h : (c, offset) ∈ offsets) (ha₀ : x + offset ≤ a) (ha₁ : a < x + offset + 18)
    (hb₀ : y + offset ≤ b) (hb₁ : b < y + offset + 14) :
    (a, b, c) ∈ offsets.flatMap fun (nz, offset) => floorCells x y nz 18 14 offset := by
  apply List.mem_flatMap.mpr
  exact ⟨(c, offset), h, mem_floorCells.mpr ⟨rfl, ha₀, ha₁, hb₀, hb₁⟩⟩

/-- Going down: the floors that come into view, the column in the east and the row in the south. -/
theorem MoveDownCreature_covers {newPos oldPos : Position} (hz : newPos.z = oldPos.z + 1)
    {c : Cell} (hc : c ∈ window (oldPos.x - 8) (oldPos.y - 6) newPos.z 18 14) :
    c ∈ playerWindow oldPos ∨ DescribedBy (MoveDownCreature newPos oldPos) c := by
  obtain ⟨a, b, c⟩ := c
  have hmax := newPos.z_le
  rw [Position.maxZ] at hmax
  rw [MoveDownCreature, playerWindow, describedBy_cons, describedBy_cons, describedBy_cons,
    describedBy_nil]
  simp only [Slice.cells, mem_window_floor] at hc ⊢
  obtain ⟨hfloor, hx₀, hx₁, hy₀, hy₁⟩ := hc
  -- the window has moved by one: what was in it before, the column and the row
  have hshift : (a < oldPos.x - 8 + (oldPos.z - c) + 18 ∧ b < oldPos.y - 6 + (oldPos.z - c) + 14) ∨
      (a = oldPos.x + 9 + (newPos.z - c) ∧ b < oldPos.y + 7 + (newPos.z - c)) ∨
      b = oldPos.y + 7 + (newPos.z - c) := by omega
  rcases hshift with hold | heast | hsouth
  · by_cases hview : (7 < oldPos.z ∧ oldPos.z - 2 ≤ c ∧ c ≤ 15 ∧ c ≤ oldPos.z + 2) ∨
        (oldPos.z ≤ 7 ∧ 0 ≤ c ∧ c ≤ 7)
    · refine .inl ⟨hview, ?_⟩
      omega
    · -- the floor has come into view and is told for the old position
      right
      left
      apply mem_floorChange (oldPos.z - c)
      · split
        · simp only [List.mem_cons, Prod.mk.injEq]
          omega
        · rw [if_pos (by omega), List.mem_singleton, Prod.mk.injEq]
          omega
      all_goals omega
  · refine .inr (.inr (.inl ⟨hfloor, ?_⟩))
    omega
  · refine .inr (.inr (.inr (.inl ⟨hfloor, ?_⟩)))
    omega

/-- Going up: the floors that come into view, the column in the west and the row in the north. -/
theorem MoveUpCreature_covers {newPos oldPos : Position} (hz : oldPos.z = newPos.z + 1)
    {c : Cell} (hc : c ∈ window (oldPos.x - 8) (oldPos.y - 6) newPos.z 18 14) :
    c ∈ playerWindow oldPos ∨ DescribedBy (MoveUpCreature newPos oldPos) c := by
  obtain ⟨a, b, c⟩ := c
  have hmax := oldPos.z_le
  rw [Position.maxZ] at hmax
  rw [MoveUpCreature, playerWindow, describedBy_cons, describedBy_cons, describedBy_cons,
    describedBy_nil]
  simp only [Slice.cells, mem_window_floor] at hc ⊢
  obtain ⟨hfloor, hx₀, hx₁, hy₀, hy₁⟩ := hc
  -- the window has moved the other way: the column in the west and the row in the north are new
  have hshift : (oldPos.x - 8 + (oldPos.z - c) ≤ a ∧ oldPos.y - 6 + (oldPos.z - c) ≤ b) ∨
      (a = oldPos.x - 8 + (newPos.z - c) ∧ oldPos.y - 5 + (newPos.z - c) ≤ b) ∨
      b = oldPos.y - 6 + (newPos.z - c) := by omega
  rcases hshift with hold | hwest | hnorth
  · by_cases hview : (7 < oldPos.z ∧ oldPos.z - 2 ≤ c ∧ c ≤ 15 ∧ c ≤ oldPos.z + 2) ∨
        (oldPos.z ≤ 7 ∧ 0 ≤ c ∧ c ≤ 7)
    · refine .inl ⟨hview, ?_⟩
      omega
    · right
      left
      apply mem_floorChange (oldPos.z - c)
      · split
        · -- the surface is reached, and the floors above it are told
          have hsurface : (oldPos.z : ℤ) = 8 := by omega
          have hfloors : c = 5 ∨ c = 4 ∨ c = 3 ∨ c = 2 ∨ c = 1 ∨ c = 0 := by omega
          rw [hsurface]
          rcases hfloors with rfl | rfl | rfl | rfl | rfl | rfl <;> decide
        · rw [if_pos (by omega), List.mem_singleton, Prod.mk.injEq]
          omega
      all_goals omega
  · refine .inr (.inr (.inl ⟨hfloor, ?_⟩))
    omega
  · refine .inr (.inr (.inr (.inl ⟨hfloor, ?_⟩)))
    omega

/-- With the slices of a change of floor the client knows the window around the old column at the
new floor. -/
theorem floorChange_covers {newPos oldPos : Position} (hadjacent : Adjacent oldPos newPos)
    {c : Cell} (hc : c ∈ window (oldPos.x - 8) (oldPos.y - 6) newPos.z 18 14) :
    c ∈ playerWindow oldPos ∨
      DescribedBy (if newPos.z > oldPos.z then MoveDownCreature newPos oldPos
        else if newPos.z < oldPos.z then MoveUpCreature newPos oldPos else []) c := by
  obtain ⟨-, -, -, -, hz₀, hz₁⟩ := hadjacent
  split
  · apply MoveDownCreature_covers (by omega) hc
  · split
    · apply MoveUpCreature_covers (by omega) hc
    · have hz : newPos.z = oldPos.z := by omega
      rw [hz] at hc
      exact .inl hc

/-- The slices of a step within a floor: a row for the old x, then a column for the new y. -/
theorem directions_cover {newPos oldPos : Position} (hadjacent : Adjacent oldPos newPos)
    {c : Cell} (hc : c ∈ playerWindow newPos) :
    c ∈ window (oldPos.x - 8) (oldPos.y - 6) newPos.z 18 14 ∨
      DescribedBy (if oldPos.y > newPos.y then
          [.map 0x65 (oldPos.x - 8) (newPos.y - 6) newPos.z 18 1]
        else if oldPos.y < newPos.y then
          [.map 0x67 (oldPos.x - 8) (newPos.y + 7) newPos.z 18 1]
        else []) c ∨
      DescribedBy (if oldPos.x < newPos.x then
          [.map 0x66 (newPos.x + 9) (newPos.y - 6) newPos.z 1 14]
        else if oldPos.x > newPos.x then
          [.map 0x68 (newPos.x - 8) (newPos.y - 6) newPos.z 1 14]
        else []) c := by
  obtain ⟨hx₀, hx₁, hy₀, hy₁, -, -⟩ := hadjacent
  obtain ⟨a, b, c⟩ := c
  rw [playerWindow, mem_window_floor] at hc
  obtain ⟨hfloor, ha₀, ha₁, hb₀, hb₁⟩ := hc
  rw [mem_window_floor]
  -- the row that is new at most, and the column that is new at most
  have hrows : (oldPos.y - 6 + (newPos.z - c) ≤ b ∧ b < oldPos.y - 6 + (newPos.z - c) + 14) ∨
      (oldPos.y > newPos.y ∧ b = newPos.y - 6 + (newPos.z - c)) ∨
      (oldPos.y < newPos.y ∧ b = newPos.y + 7 + (newPos.z - c)) := by omega
  have hcolumns : (oldPos.x - 8 + (newPos.z - c) ≤ a ∧ a < oldPos.x - 8 + (newPos.z - c) + 18) ∨
      (oldPos.x < newPos.x ∧ a = newPos.x + 9 + (newPos.z - c)) ∨
      (oldPos.x > newPos.x ∧ a = newPos.x - 8 + (newPos.z - c)) := by omega
  rcases hcolumns with hcolumn | ⟨hlt, ha⟩ | ⟨hgt, ha⟩
  · rcases hrows with hrow | ⟨hgt, hb⟩ | ⟨hlt, hb⟩
    · refine .inl ⟨hfloor, ?_⟩
      omega
    · refine .inr (.inl ?_)
      rw [if_pos hgt, describedBy_cons, Slice.cells, mem_window_floor]
      exact .inl ⟨hfloor, by omega⟩
    · refine .inr (.inl ?_)
      rw [if_neg (by omega), if_pos hlt, describedBy_cons, Slice.cells, mem_window_floor]
      exact .inl ⟨hfloor, by omega⟩
  · refine .inr (.inr ?_)
    rw [if_pos hlt, describedBy_cons, Slice.cells, mem_window_floor]
    exact .inl ⟨hfloor, by omega⟩
  · refine .inr (.inr ?_)
    rw [if_neg (by omega), if_pos hgt, describedBy_cons, Slice.cells, mem_window_floor]
    exact .inl ⟨hfloor, by omega⟩

/-- What comes into view with a step is told with the step. -/
theorem sendMoveCreature_covers {newPos oldPos : Position} (hadjacent : Adjacent oldPos newPos)
    {c : Cell} (hc : c ∈ playerWindow newPos) :
    c ∈ playerWindow oldPos ∨ DescribedBy (sendMoveCreature newPos oldPos) c := by
  rw [sendMoveCreature, describedBy_append, describedBy_append]
  rcases directions_cover hadjacent hc with hcolumn | hdirection | hdirection
  · exact (floorChange_covers hadjacent hcolumn).imp_right fun h => .inl (.inl h)
  · exact .inr (.inl (.inr hdirection))
  · exact .inr (.inr hdirection)

/-! ## Slices can be read back -/

section Send

variable {Thing : Type*} (fmt : ThingFormat Thing) (getTile : Position → Option (List Thing))

/-- Writes the opcode and the description of a slice. -/
def Slice.send : Slice → NetworkMessage → NetworkMessage
  | .map opcode x y z width height, msg =>
    GetMapDescription fmt getTile x y z width height (msg.addByte opcode)
  | .floorChange opcode x y offsets, msg =>
    let s := offsets.foldl
      (fun s (nz, offset) => GetFloorDescription fmt getTile s x y nz 18 14 offset)
      (msg.addByte opcode, -1)
    if 0 ≤ s.2 then (s.1.addByte s.2).addByte 0xFF else s.1

def Slice.opcode : Slice → ℤ
  | .map opcode .. => opcode
  | .floorChange opcode .. => opcode

/-- After its opcode a slice is written as a description of its cells, which `decode_cells` reads. -/
theorem Slice.send_adds (slice : Slice) (msg : NetworkMessage) :
    msg.Adds ([UInt8.ofInt slice.opcode] ++
        encode fmt.toFormat (-1) (slice.cells.map (tileAt getTile)))
      (slice.send fmt getTile msg) := by
  have hopcode : msg.Adds [UInt8.ofInt slice.opcode] (msg.addByte slice.opcode) :=
    ⟨[[UInt8.ofInt slice.opcode]], rfl, rfl⟩
  apply hopcode.trans
  cases slice with
  | map opcode x y z width height =>
    exact GetMapDescription_adds fmt getTile x y z width height (msg.addByte opcode)
  | floorChange opcode x y offsets =>
    have h := finish_adds fmt getTile (Slice.floorChange opcode x y offsets).cells
      (msg.addByte opcode)
    simp only [Slice.cells, List.foldl_flatMap, ← GetFloorDescription_eq] at h
    exact h

end Send

/-! ## What the client has been told -/

/-- A player's position and the coordinates that the client has been told about. -/
structure ClientView where
  position : Position
  told : List Cell

inductive ViewAction where
  | step (newPosition : Position)
  | describe (position : Position)

/-- After a full description. -/
def ClientView.described (position : Position) (told : List Cell) : ClientView :=
  ⟨position, told ++ playerWindow position⟩

/-- A step to an adjacent position, or a full description at any position. -/
def viewStep (v : ClientView) : ViewAction → Option ClientView
  | .step newPosition =>
    if Adjacent v.position newPosition then
      some ⟨newPosition,
        v.told ++ (sendMoveCreature newPosition v.position).flatMap Slice.cells⟩
    else none
  | .describe position => some (.described position v.told)

/-- The client has been told about its window. -/
def ClientView.Complete (v : ClientView) : Prop := ∀ c ∈ playerWindow v.position, c ∈ v.told

theorem ClientView.complete_described (position : Position) (told : List Cell) :
    (ClientView.described position told).Complete :=
  fun _ hc => List.mem_append_right told hc

/-- A step keeps the client's view complete. -/
theorem ClientView.Complete.step {v w : ClientView} {action : ViewAction} (h : v.Complete)
    (hstep : viewStep v action = some w) : w.Complete := by
  cases action with
  | describe position =>
    obtain rfl := Option.some.inj hstep
    exact ClientView.complete_described position v.told
  | step newPosition =>
    rw [viewStep] at hstep
    split at hstep
    · next hadjacent =>
      obtain rfl := Option.some.inj hstep
      intro c hc
      apply List.mem_append.mpr
      rcases sendMoveCreature_covers hadjacent hc with hold | hslice
      · exact .inl (h c hold)
      · exact .inr (List.mem_flatMap.mpr hslice)
    · exact absurd hstep.symm (Option.some_ne_none _)

/-- After any steps and full descriptions the client has been told about every position that its
player can see, since what comes into the window with a step is told with the step.  A slice that is told
is written as a description of its cells. -/
theorem mapUpdates_complete {Thing : Type*} (fmt : ThingFormat Thing)
    (getTile : Position → Option (List Thing)) (start : Position) (actions : List ViewAction)
    {v : ClientView} (hrun : runActions viewStep (.described start []) actions = some v) :
    (∀ pos : Position, canSee v.position pos = true →
      ((pos.x : ℤ), (pos.y : ℤ), (pos.z : ℤ)) ∈ v.told) ∧
    (∀ oldPosition newPosition, Adjacent oldPosition newPosition → ∀ c ∈ playerWindow newPosition,
      c ∈ playerWindow oldPosition ∨
        DescribedBy (sendMoveCreature newPosition oldPosition) c) ∧
    ∀ (slice : Slice) (msg : NetworkMessage),
      msg.Adds ([UInt8.ofInt slice.opcode] ++
          encode fmt.toFormat (-1) (slice.cells.map (tileAt getTile)))
        (slice.send fmt getTile msg) := by
  refine ⟨?_, ?_, fun slice msg => slice.send_adds fmt getTile msg⟩
  · have hreach : (System.ofStep (· = ClientView.described start []) viewStep).Reachable v :=
      reachable_of_runActions (.init rfl) hrun
    have hcomplete : v.Complete := by
      apply hreach.invariant
      · rintro s rfl
        exact ClientView.complete_described start []
      · exact fun s a t hs hst => hs.step hst
    intro pos hsee
    exact hcomplete _ ((mem_window_iff_canSee v.position pos).mpr hsee)
  · exact fun _ _ hadjacent c hc => sendMoveCreature_covers hadjacent hc

/-- Down a stair to the north-west, from the surface. -/
theorem mapUpdates_complete_stair :
    ∃ v, runActions viewStep
        (.described ⟨100, 100, 7, by decide, by decide, by decide⟩ [])
        [.step ⟨99, 99, 8, by decide, by decide, by decide⟩] = some v ∧
      (∀ pos : Position, canSee v.position pos = true →
        ((pos.x : ℤ), (pos.y : ℤ), (pos.z : ℤ)) ∈ v.told) ∧
      ∀ oldPosition newPosition, Adjacent oldPosition newPosition →
        ∀ c ∈ playerWindow newPosition, c ∈ playerWindow oldPosition ∨
          DescribedBy (sendMoveCreature newPosition oldPosition) c := by
  obtain ⟨htold, hcovers, -⟩ := mapUpdates_complete stones (fun _ => none)
    ⟨100, 100, 7, by decide, by decide, by decide⟩
    [.step ⟨99, 99, 8, by decide, by decide, by decide⟩] rfl
  exact ⟨_, rfl, htold, hcovers⟩

end ProtocolGame

end TyanoCore
