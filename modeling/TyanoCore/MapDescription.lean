import Mathlib.Data.List.Nodup
import TyanoCore.Position
import TyanoCore.SkipRuns

/-!
# Describing the map to a client

`ProtocolGame::GetMapDescription` writes the tiles of a window of the map, floor by floor, with run
lengths for the positions that have no tile.  A client that knows the window reads them back.
-/

namespace TyanoCore

open SkipRuns

/-! ## Messages -/

def NETWORKMESSAGE_MAXSIZE : ℕ := 15360

/-- What has been added to an outgoing message and where the next byte goes. -/
structure NetworkMessage where
  body : List UInt8
  readPos : ℕ
deriving DecidableEq

namespace NetworkMessage

/-- `Reset`: an empty message leaves room for its headers. -/
def empty : NetworkMessage := ⟨[], 8⟩

def canAdd (msg : NetworkMessage) (size : ℕ) : Bool :=
  size + msg.readPos < NETWORKMESSAGE_MAXSIZE - 16

/-- `AddByte`, `AddU16` and so on: a value that has no room is not added. -/
def add (msg : NetworkMessage) (bytes : List UInt8) : NetworkMessage :=
  if msg.canAdd bytes.length then ⟨msg.body ++ bytes, msg.readPos + bytes.length⟩ else msg

def addByte (msg : NetworkMessage) (value : ℤ) : NetworkMessage := msg.add [UInt8.ofInt value]

/-- The bytes are added to a message value by value. -/
def Adds (msg : NetworkMessage) (bytes : List UInt8) (msg' : NetworkMessage) : Prop :=
  ∃ values : List (List UInt8), values.flatten = bytes ∧ values.foldl add msg = msg'

variable {msg msg₁ msg₂ : NetworkMessage} {bytes bytes₁ bytes₂ : List UInt8}

theorem Adds.refl (msg : NetworkMessage) : msg.Adds [] msg := ⟨[], rfl, rfl⟩

theorem Adds.trans (h₁ : msg.Adds bytes₁ msg₁) (h₂ : msg₁.Adds bytes₂ msg₂) :
    msg.Adds (bytes₁ ++ bytes₂) msg₂ := by
  obtain ⟨values₁, rfl, rfl⟩ := h₁
  obtain ⟨values₂, rfl, rfl⟩ := h₂
  exact ⟨values₁ ++ values₂, List.flatten_append, List.foldl_append⟩

theorem adds_values (msg : NetworkMessage) (values : List (List UInt8)) :
    msg.Adds values.flatten (values.foldl add msg) := ⟨values, rfl, rfl⟩

theorem adds_marker (msg : NetworkMessage) (skip : ℤ) :
    msg.Adds (marker skip) ((msg.addByte skip).addByte 0xFF) :=
  ⟨[[UInt8.ofInt skip], [0xFF]], rfl, rfl⟩

/-- Where the message has room, nothing is left out. -/
theorem Adds.body_eq (h : msg.Adds bytes msg₁)
    (hroom : bytes.length + msg.readPos < NETWORKMESSAGE_MAXSIZE - 16) :
    msg₁.body = msg.body ++ bytes := by
  obtain ⟨values, rfl, rfl⟩ := h
  induction values generalizing msg with
  | nil => exact (List.append_nil _).symm
  | cons value values ih =>
    rw [List.flatten_cons, List.length_append] at hroom
    have hadd : msg.add value = ⟨msg.body ++ value, msg.readPos + value.length⟩ := by
      apply if_pos
      rw [canAdd, decide_eq_true_eq]
      omega
    rw [List.foldl_cons, hadd, ih (by simp only; omega), List.flatten_cons, List.append_assoc]

/-- A message never gets longer than its buffer. -/
theorem Adds.length_lt (h : msg.Adds bytes msg₁)
    (hpos : msg.readPos < NETWORKMESSAGE_MAXSIZE - 16)
    (hbody : msg.body.length ≤ msg.readPos) :
    msg₁.body.length < NETWORKMESSAGE_MAXSIZE - 16 := by
  obtain ⟨values, rfl, rfl⟩ := h
  induction values generalizing msg with
  | nil => exact Nat.lt_of_le_of_lt hbody hpos
  | cons value values ih =>
    apply ih
    · unfold add
      split
      · next hcan =>
        rw [canAdd, decide_eq_true_eq] at hcan
        simp only
        omega
      · exact hpos
    · unfold add
      split
      · simp only [List.length_append]
        omega
      · exact hbody

end NetworkMessage

/-! ## Descriptions -/

/-- How the things of a tile are written, value by value. -/
structure ThingFormat (Thing : Type*) extends Format Thing where
  fields : Thing → List (List UInt8)
  flatten_fields : ∀ thing, (fields thing).flatten = bytes thing

namespace ProtocolGame

/-- Coordinates, valid or not. -/
abbrev Cell := ℤ × ℤ × ℤ

variable {Thing : Type*} (fmt : ThingFormat Thing) (getTile : Position → Option (List Thing))

/-- The things on the tile at coordinates, if they are valid and there is a tile. -/
def tileAt (c : Cell) : Option (List Thing) := (Position.of c.1 c.2.1 c.2.2).bind getTile

def GetTileDescription (tile : List Thing) (msg : NetworkMessage) : NetworkMessage :=
  (tile.flatMap fmt.fields).foldl NetworkMessage.add msg

/-- The body of the loops of `GetFloorDescription`; the state is the message and `skip`. -/
def describeCell (s : NetworkMessage × ℤ) (c : Cell) : NetworkMessage × ℤ :=
  match tileAt getTile c with
  | some tile =>
    let msg := if 0 ≤ s.2 then (s.1.addByte s.2).addByte 0xFF else s.1
    (GetTileDescription fmt tile msg, 0)
  | none =>
    let skip := s.2 + 1
    if skip = 0xFF then ((s.1.addByte 0xFF).addByte 0xFF, -1) else (s.1, skip)

def GetFloorDescription (s : NetworkMessage × ℤ) (x y z : ℤ) (width height : ℕ) (offset : ℤ) :
    NetworkMessage × ℤ :=
  (List.range width).foldl
    (fun s (nx : ℕ) => (List.range height).foldl
      (fun s (ny : ℕ) => describeCell fmt getTile s (x + nx + offset, y + ny + offset, z)) s)
    s

/-- The floors that a map description goes through, in its order. -/
def floors (z : ℤ) : List ℤ :=
  let startz := if z > 7 then z - 2 else 7
  let endz := if z > 7 then min 15 (z + 2) else 0
  let zstep := if z > 7 then 1 else -1
  (List.range ((endz + zstep - startz) / zstep).toNat).map fun i : ℕ => startz + i * zstep

def GetMapDescription (x y z : ℤ) (width height : ℕ) (msg : NetworkMessage) : NetworkMessage :=
  let s := (floors z).foldl
    (fun s nz => GetFloorDescription fmt getTile s x y nz width height (z - nz)) (msg, -1)
  if 0 ≤ s.2 then (s.1.addByte s.2).addByte 0xFF else s.1

/-- `ProtocolGame::canSee`, for a player at a position. -/
def canSee (myPos pos : Position) : Bool :=
  if myPos.z ≤ 7 ∧ pos.z > 7 then false
  else if myPos.z ≥ 8 ∧ ((myPos.z : ℤ) - pos.z).natAbs > 2 then false
  else
    let offsetz : ℤ := myPos.z - pos.z
    pos.x ≥ myPos.x - 8 + offsetz && pos.x ≤ myPos.x + 9 + offsetz &&
      pos.y ≥ myPos.y - 6 + offsetz && pos.y ≤ myPos.y + 7 + offsetz

/-! ## The window -/

/-- The coordinates of a floor in the order in which they are described. -/
def floorCells (x y z : ℤ) (width height : ℕ) (offset : ℤ) : List Cell :=
  (List.range width).flatMap fun nx : ℕ =>
    (List.range height).map fun ny : ℕ => (x + nx + offset, y + ny + offset, z)

/-- The coordinates of a window in the order in which they are described. -/
def window (x y z : ℤ) (width height : ℕ) : List Cell :=
  (floors z).flatMap fun nz => floorCells x y nz width height (z - nz)

/-- What a client can be told about coordinates: a tile with nothing on it looks like none. -/
def shownAt (c : Cell) : Option (List Thing) := shown (tileAt getTile c)

variable {fmt getTile}

theorem mem_floorCells {x y z offset : ℤ} {width height : ℕ} {a b c : ℤ} :
    (a, b, c) ∈ floorCells x y z width height offset ↔
      c = z ∧ x + offset ≤ a ∧ a < x + offset + width ∧
        y + offset ≤ b ∧ b < y + offset + height := by
  simp only [floorCells, List.mem_flatMap, List.mem_map, List.mem_range, Prod.mk.injEq]
  constructor
  · rintro ⟨nx, hnx, ny, hny, rfl, rfl, rfl⟩
    omega
  · rintro ⟨rfl, hx₀, hx₁, hy₀, hy₁⟩
    exact ⟨(a - x - offset).toNat, by omega, (b - y - offset).toNat, by omega,
      by omega, by omega, rfl⟩

theorem length_floorCells (x y z : ℤ) (width height : ℕ) (offset : ℤ) :
    (floorCells x y z width height offset).length = width * height := by
  simp [floorCells, List.length_flatMap]

theorem length_window (x y z : ℤ) (width height : ℕ) :
    (window x y z width height).length = (floors z).length * (width * height) := by
  simp [window, List.length_flatMap, length_floorCells]

/-- The floors are those that one can see from the floor. -/
theorem mem_floors {z c : ℤ} (h₀ : 0 ≤ z) (h₁ : z ≤ 15) :
    c ∈ floors z ↔ if z > 7 then z - 2 ≤ c ∧ c ≤ 15 ∧ c ≤ z + 2 else 0 ≤ c ∧ c ≤ 7 := by
  simp only [floors, List.mem_map, List.mem_range]
  split
  · constructor
    · rintro ⟨i, hi, rfl⟩
      omega
    · intro hc
      exact ⟨(c - (z - 2)).toNat, by omega, by omega⟩
  · constructor
    · rintro ⟨i, hi, rfl⟩
      omega
    · intro hc
      exact ⟨(7 - c).toNat, by omega, by omega⟩

theorem mem_window {x y z : ℤ} {width height : ℕ} {a b c : ℤ} :
    (a, b, c) ∈ window x y z width height ↔ c ∈ floors z ∧
      x + (z - c) ≤ a ∧ a < x + (z - c) + width ∧
        y + (z - c) ≤ b ∧ b < y + (z - c) + height := by
  simp only [window, List.mem_flatMap, mem_floorCells]
  constructor
  · rintro ⟨nz, hnz, rfl, h⟩
    exact ⟨hnz, h⟩
  · rintro ⟨hc, h⟩
    exact ⟨c, hc, rfl, h⟩

theorem nodup_floors (z : ℤ) : (floors z).Nodup := by
  apply List.nodup_range.map
  intro i j hij
  simp only at hij
  split at hij <;> omega

theorem nodup_floorCells (x y z : ℤ) (width height : ℕ) (offset : ℤ) :
    (floorCells x y z width height offset).Nodup := by
  apply List.nodup_flatMap.mpr
  constructor
  · intro nx _
    apply List.nodup_range.map
    intro i j hij
    simp only [Prod.mk.injEq] at hij
    omega
  · apply List.nodup_range.imp
    intro i j hij c hi hj
    obtain ⟨k, -, rfl⟩ := List.mem_map.mp hi
    obtain ⟨l, -, heq⟩ := List.mem_map.mp hj
    simp only [Prod.mk.injEq] at heq
    omega

/-- No coordinates are described twice. -/
theorem nodup_window (x y z : ℤ) (width height : ℕ) : (window x y z width height).Nodup := by
  apply List.nodup_flatMap.mpr
  constructor
  · exact fun nz _ => nodup_floorCells x y nz width height (z - nz)
  · apply (nodup_floors z).imp
    rintro i j hij ⟨a, b, c⟩ hi hj
    exact hij ((mem_floorCells.mp hi).1.symm.trans (mem_floorCells.mp hj).1)

/-- The positions of the window around a player are those that the player can see. -/
theorem mem_window_iff_canSee (myPos pos : Position) :
    ((pos.x : ℤ), (pos.y : ℤ), (pos.z : ℤ)) ∈ window (myPos.x - 8) (myPos.y - 6) myPos.z 18 14 ↔
      canSee myPos pos = true := by
  have hz := myPos.z_le
  have hz' := pos.z_le
  simp only [Position.maxZ] at hz hz'
  rw [mem_window, mem_floors (by omega) (by omega)]
  unfold canSee
  split
  · -- below the ground
    split
    · omega
    · split
      · simp only [Bool.false_eq_true, iff_false]
        omega
      · simp only [Bool.and_eq_true, decide_eq_true_eq]
        omega
  · split
    · simp only [Bool.false_eq_true, iff_false]
      omega
    · split
      · omega
      · simp only [Bool.and_eq_true, decide_eq_true_eq]
        omega

/-! ## What is written -/

variable (fmt getTile)

/-- A step of the loops writes what the run lengths say about the cell. -/
theorem describeCell_adds (s : NetworkMessage × ℤ) (c : Cell) :
    ∃ bytes, s.1.Adds bytes (describeCell fmt getTile s c).1 ∧
      ∀ cells, bytes ++ encode fmt.toFormat (describeCell fmt getTile s c).2 cells =
        encode fmt.toFormat s.2 (tileAt getTile c :: cells) := by
  unfold describeCell
  cases tileAt getTile c with
  | none =>
    simp only [encode]
    split
    · exact ⟨marker 0xFF, NetworkMessage.adds_marker _ _, fun _ => rfl⟩
    · exact ⟨[], NetworkMessage.Adds.refl _, fun _ => rfl⟩
  | some tile =>
    -- first the run length that is left, then the things
    have hpending : s.1.Adds (pending s.2)
        (if 0 ≤ s.2 then (s.1.addByte s.2).addByte 0xFF else s.1) := by
      unfold pending
      split
      · exact NetworkMessage.adds_marker _ _
      · exact NetworkMessage.Adds.refl _
    have hitems : (tile.flatMap fmt.fields).flatten = itemBytes fmt.toFormat tile := by
      rw [itemBytes, List.flatten_eq_flatMap, List.flatMap_assoc]
      simp only [List.flatMap_id, fmt.flatten_fields]
    have htile := NetworkMessage.adds_values
      (if 0 ≤ s.2 then (s.1.addByte s.2).addByte 0xFF else s.1) (tile.flatMap fmt.fields)
    rw [hitems] at htile
    exact ⟨_, hpending.trans htile, fun _ => rfl⟩

/-- A run of the loops. -/
theorem foldl_describeCell_adds (cs : List Cell) (s : NetworkMessage × ℤ) :
    ∃ bytes, s.1.Adds bytes (cs.foldl (describeCell fmt getTile) s).1 ∧
      bytes ++ pending (cs.foldl (describeCell fmt getTile) s).2 =
        encode fmt.toFormat s.2 (cs.map (tileAt getTile)) := by
  induction cs generalizing s with
  | nil => exact ⟨[], NetworkMessage.Adds.refl _, rfl⟩
  | cons c cs ih =>
    obtain ⟨bytes₁, hadds₁, hencode₁⟩ := describeCell_adds fmt getTile s c
    obtain ⟨bytes₂, hadds₂, hencode₂⟩ := ih (describeCell fmt getTile s c)
    refine ⟨bytes₁ ++ bytes₂, hadds₁.trans hadds₂, ?_⟩
    rw [List.foldl_cons, List.append_assoc, hencode₂, List.map_cons, hencode₁]

theorem GetFloorDescription_eq (s : NetworkMessage × ℤ) (x y z : ℤ) (width height : ℕ)
    (offset : ℤ) : GetFloorDescription fmt getTile s x y z width height offset =
      (floorCells x y z width height offset).foldl (describeCell fmt getTile) s := by
  simp only [GetFloorDescription, floorCells, List.foldl_flatMap, List.foldl_map]

/-- The end of a description: the run length that is left is written. -/
def finish (s : NetworkMessage × ℤ) : NetworkMessage :=
  if 0 ≤ s.2 then (s.1.addByte s.2).addByte 0xFF else s.1

/-- Cells that are described from the first one on. -/
theorem finish_adds (cs : List Cell) (msg : NetworkMessage) :
    msg.Adds (encode fmt.toFormat (-1) (cs.map (tileAt getTile)))
      (finish (cs.foldl (describeCell fmt getTile) (msg, -1))) := by
  obtain ⟨bytes, hadds, hencode⟩ := foldl_describeCell_adds fmt getTile cs (msg, -1)
  rw [← hencode]
  apply hadds.trans
  unfold pending finish
  split
  · exact NetworkMessage.adds_marker _ _
  · exact NetworkMessage.Adds.refl _

/-- The reader of a description gets the tile of each cell. -/
theorem decode_cells (cs : List Cell) (rest : List UInt8) :
    decode fmt.toFormat cs 0
        (encode fmt.toFormat (-1) (cs.map (tileAt getTile)) ++ rest) =
      some (cs.map fun c => (c, shownAt getTile c), rest) := by
  have h := decode_encode fmt.toFormat (cs.map fun c => (c, tileAt getTile c)) rest
  simp only [view, List.map_map, Function.comp_def, List.map_id'] at h
  exact h

/-- The bytes of a description, when there is room for them. -/
def descriptionBytes (x y z : ℤ) (width height : ℕ) : List UInt8 :=
  encode fmt.toFormat (-1) ((window x y z width height).map (tileAt getTile))

theorem GetMapDescription_adds (x y z : ℤ) (width height : ℕ) (msg : NetworkMessage) :
    msg.Adds (descriptionBytes fmt getTile x y z width height)
      (GetMapDescription fmt getTile x y z width height msg) := by
  have hfold : (floors z).foldl (fun s nz =>
      GetFloorDescription fmt getTile s x y nz width height (z - nz)) (msg, -1) =
      (window x y z width height).foldl (describeCell fmt getTile) (msg, -1) := by
    simp only [window, List.foldl_flatMap, GetFloorDescription_eq]
  have h := finish_adds fmt getTile (window x y z width height) msg
  rw [← hfold] at h
  exact h

/-- A map description that has room in the message can be read back: the reader gets the tile of
each position of the window and has read all that was written.  The window around a player is what
the player can see. -/
theorem GetMapDescription_decodable (x y z : ℤ) (width height : ℕ) (msg : NetworkMessage)
    (hroom : (descriptionBytes fmt getTile x y z width height).length + msg.readPos <
      NETWORKMESSAGE_MAXSIZE - 16) :
    (∃ bytes, (GetMapDescription fmt getTile x y z width height msg).body = msg.body ++ bytes ∧
      ∀ rest, decode fmt.toFormat (window x y z width height) 0 (bytes ++ rest) =
        some ((window x y z width height).map fun c => (c, shownAt getTile c), rest)) ∧
    (window x y z width height).Nodup ∧
    (∀ c ∈ window x y z width height,
      Position.isValid c.1 c.2.1 c.2.2 = false → shownAt getTile c = none) ∧
    (∀ pos : Position, shownAt getTile (pos.x, pos.y, pos.z) = shown (getTile pos)) ∧
    ∀ myPos : Position, x = myPos.x - 8 → y = myPos.y - 6 → z = myPos.z → width = 18 →
      height = 14 → ∀ pos : Position,
        ((pos.x : ℤ), (pos.y : ℤ), (pos.z : ℤ)) ∈ window x y z width height ↔
          canSee myPos pos = true := by
  refine ⟨⟨_, (GetMapDescription_adds fmt getTile x y z width height msg).body_eq hroom,
    decode_cells fmt getTile _⟩, nodup_window x y z width height,
    ?_, ?_, ?_⟩
  · intro c _ hvalid
    rw [shownAt, tileAt, Position.of, dif_neg (by rw [hvalid]; exact Bool.false_ne_true)]
    rfl
  · intro pos
    rw [shownAt, tileAt, Position.of_self]
    rfl
  · rintro myPos rfl rfl rfl rfl rfl pos
    exact mem_window_iff_canSee myPos pos

/-! ## Two maps that are not read back -/

/-- Things that are all alike and have the client's number 100. -/
def stones : ThingFormat Unit where
  bytes _ := [100, 0]
  read
    | 100 :: 0 :: rest => some ((), rest)
    | _ => none
  read_bytes _ _ := rfl
  not_marker _ rest n rest' h := by
    have hsecond : (0 : UInt8) = 0xFF := (List.cons.inj (List.cons.inj h).2).1
    exact absurd hsecond (by decide)
  fields _ := [[100, 0]]
  flatten_fields _ := rfl

/-- One stone on the first position of a small window. -/
theorem GetMapDescription_decodable_stone :
    ∃ bytes, (GetMapDescription stones
        (fun pos => if pos.x = 100 ∧ pos.z = 7 then some [()] else none)
        100 100 7 2 1 NetworkMessage.empty).body = [] ++ bytes ∧
      ∀ rest, decode stones.toFormat (window 100 100 7 2 1) 0 (bytes ++ rest) =
        some ((window 100 100 7 2 1).map fun c => (c, shownAt
          (fun pos => if pos.x = 100 ∧ pos.z = 7 then some [()] else none) c), rest) :=
  (GetMapDescription_decodable stones _ 100 100 7 2 1 NetworkMessage.empty (by decide)).1

/-- A tile without things is read as none, and where every tile is full of things the message has
no room for all of them. -/
theorem GetMapDescription_not_decodable :
    decode stones.toFormat (window 100 100 7 1 1) 0
        (GetMapDescription stones (fun _ => some []) 100 100 7 1 1 NetworkMessage.empty).body =
      some ((window 100 100 7 1 1).map fun c => (c, none), []) ∧
    ∀ rest, decode stones.toFormat (window 92 94 7 18 14) 0
        (GetMapDescription stones (fun _ => some (List.replicate 10 ())) 92 94 7 18 14
          NetworkMessage.empty).body ≠
      some ((window 92 94 7 18 14).map
        fun c => (c, tileAt (fun _ => some (List.replicate 10 ())) c), rest) := by
  constructor
  · rfl
  · intro rest h
    have hread : ∀ bytes item rest, stones.read bytes = some (item, rest) →
        (stones.bytes item).length + rest.length ≤ bytes.length := by
      intro bytes item rest hread
      simp only [stones] at hread ⊢
      split at hread
      · obtain ⟨-, rfl⟩ := Prod.mk.inj (Option.some.inj hread)
        simp only [List.length_cons, List.length_nil]
        omega
      · exact absurd hread.symm (Option.some_ne_none _)
    have hlength := decode_length hread h
    have hbody := (GetMapDescription_adds stones (fun _ => some (List.replicate 10 ())) 92 94 7 18
      14 NetworkMessage.empty).length_lt (by decide) (by decide)
    have hfull : readLength stones.toFormat ((window 92 94 7 18 14).map
        fun c => (c, tileAt (fun _ => some (List.replicate 10 ())) c)) = 40320 := by
      -- all positions of the window are valid, so each has its twenty bytes
      have htile : ∀ c ∈ window 92 94 7 18 14,
          (itemBytes stones.toFormat
            ((tileAt (fun _ => some (List.replicate 10 ())) c).getD [])).length = 20 := by
        rintro ⟨a, b, c⟩ hc
        rw [mem_window, mem_floors (by decide) (by decide), if_neg (by decide)] at hc
        have hvalid : Position.isValid a b c = true := by
          simp only [Position.isValid, Bool.and_eq_true, decide_eq_true_eq]
          simp only [Position.maxX, Position.maxY, Position.maxZ]
          omega
        rw [tileAt, Position.of, dif_pos hvalid]
        rfl
      have hlengths : (window 92 94 7 18 14).map (fun c => (itemBytes stones.toFormat
          ((tileAt (fun _ => some (List.replicate 10 ())) c).getD [])).length) =
          (window 92 94 7 18 14).map fun _ => 20 := List.map_congr_left htile
      rw [readLength, List.map_map]
      simp only [Function.comp_def]
      rw [hlengths, List.map_const', List.sum_replicate_nat, length_window]
      decide
    rw [hfull] at hlength
    rw [NETWORKMESSAGE_MAXSIZE] at hbody
    omega

end ProtocolGame

end TyanoCore
