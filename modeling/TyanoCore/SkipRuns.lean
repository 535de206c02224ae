import Mathlib.Algebra.Order.Ring.Int
import Mathlib.Data.List.Basic
import Mathlib.Data.Int.Notation

/-!
# Cells with run lengths of the empty ones

A row of cells is written cell by cell.  Each cell that is not empty is a sequence of items; runs of
empty cells are written as a marker, two bytes of which the second one is `0xFF`.  The writer counts
the empty cells from `-1` on where no cell has been written yet, and from `0` on after a cell, so
the reader has to know where it meets the marker.
-/

namespace SkipRuns

/-- How items are written and read.  No item looks like a marker. -/
structure Format (Item : Type*) where
  bytes : Item → List UInt8
  read : List UInt8 → Option (Item × List UInt8)
  read_bytes : ∀ item rest, read (bytes item ++ rest) = some (item, rest)
  not_marker : ∀ item rest n rest', bytes item ++ rest ≠ n :: 0xFF :: rest'

variable {Item K : Type*} (fmt : Format Item)

/-! ## Writing -/

def marker (n : ℤ) : List UInt8 := [UInt8.ofInt n, 0xFF]

/-- The marker for the cells that have been counted, if any. -/
def pending (skip : ℤ) : List UInt8 := if 0 ≤ skip then marker skip else []

def itemBytes (items : List Item) : List UInt8 := items.flatMap fmt.bytes

/-- What is written from a cell on, when `skip` empty cells have been counted. -/
def encode : ℤ → List (Option (List Item)) → List UInt8
  | skip, [] => pending skip
  | skip, some items :: cells => pending skip ++ itemBytes fmt items ++ encode 0 cells
  | skip, none :: cells =>
    if skip + 1 = 0xFF then marker 0xFF ++ encode (-1) cells else encode (skip + 1) cells

/-! ## Reading -/

def readMarker : List UInt8 → Option (ℕ × List UInt8)
  | n :: m :: rest => if m = 0xFF then some (n.toNat, rest) else none
  | _ => none

/-- The items up to a marker, and the marker; `none` when there are more than `fuel` items. -/
def readItems : ℕ → List UInt8 → Option (List Item × ℕ × List UInt8)
  | 0, _ => none
  | fuel + 1, bytes =>
    match readMarker bytes with
    | some (n, rest) => some ([], n, rest)
    | none =>
      match fmt.read bytes with
      | none => none
      | some (item, rest) =>
        (readItems fuel rest).map fun (items, after) => (item :: items, after)

/-- Gives the cells their items.  A marker right after the items of a cell leaves the next `n` cells
empty; a marker where a cell was expected leaves `n + 1` cells empty. -/
def decode : List K → ℕ → List UInt8 → Option (List (K × Option (List Item)) × List UInt8)
  | [], 0, bytes => some ([], bytes)
  | [], _ + 1, _ => none
  | k :: ks, skip + 1, bytes =>
    (decode ks skip bytes).map fun (seen, rest) => ((k, none) :: seen, rest)
  | k :: ks, 0, bytes =>
    match readMarker bytes with
    | some (n, rest) => (decode ks n rest).map fun (seen, rest) => ((k, none) :: seen, rest)
    | none =>
      match readItems fmt bytes.length bytes with
      | none => none
      | some (items, n, rest) =>
        (decode ks n rest).map fun (seen, rest) => ((k, some items) :: seen, rest)

/-- A cell without items is read as an empty one. -/
def shown : Option (List Item) → Option (List Item)
  | some (item :: items) => some (item :: items)
  | _ => none

variable {fmt}

/-! ## The markers -/

theorem readMarker_marker {n : ℤ} (h₀ : 0 ≤ n) (h₁ : n ≤ 0xFF) (rest : List UInt8) :
    readMarker (marker n ++ rest) = some (n.toNat, rest) := by
  have hn : (UInt8.ofInt n).toNat = n.toNat := by
    have hmod : (n % 2 ^ 8).toNat = n.toNat := by omega
    have hsize : n.toNat < UInt8.size := by
      change n.toNat < 256
      omega
    rw [UInt8.ofInt, hmod, UInt8.toNat_ofNat_of_lt' hsize]
  simp [readMarker, marker, hn]

theorem readMarker_item (item : Item) (rest : List UInt8) :
    readMarker (fmt.bytes item ++ rest) = none := by
  match h : fmt.bytes item ++ rest with
  | [] => rfl
  | [_] => rfl
  | n :: m :: rest' =>
    refine if_neg fun hm => fmt.not_marker item rest n rest' ?_
    rw [h, hm]

theorem bytes_ne_nil (fmt : Format Item) (item : Item) : fmt.bytes item ≠ [] := by
  intro h
  apply fmt.not_marker item [0, 0xFF] 0 []
  rw [h]
  rfl

/-! ## Round trip -/

/-- Items are read up to the marker that follows them. -/
theorem readItems_itemBytes (items : List Item) {n : ℕ} {bytes rest : List UInt8}
    (hmarker : readMarker bytes = some (n, rest)) (fuel : ℕ)
    (hfuel : items.length < fuel) :
    readItems fmt fuel (itemBytes fmt items ++ bytes) = some (items, n, rest) := by
  induction items generalizing fuel with
  | nil =>
    obtain ⟨fuel, rfl⟩ := Nat.exists_eq_add_one_of_ne_zero (Nat.ne_of_gt hfuel)
    simp [readItems, itemBytes, hmarker]
  | cons item items ih =>
    obtain ⟨fuel, rfl⟩ := Nat.exists_eq_add_one_of_ne_zero (Nat.ne_of_gt (Nat.zero_lt_of_lt hfuel))
    have hcons : itemBytes fmt (item :: items) ++ bytes =
        fmt.bytes item ++ (itemBytes fmt items ++ bytes) := by
      simp [itemBytes]
    rw [hcons, readItems, readMarker_item, fmt.read_bytes]
    simp only
    rw [ih fuel (Nat.lt_of_succ_lt_succ hfuel)]
    rfl

/-- There are at least as many bytes as items. -/
theorem length_le_itemBytes (fmt : Format Item) (items : List Item) :
    items.length ≤ (itemBytes fmt items).length := by
  induction items with
  | nil => exact Nat.zero_le _
  | cons item items ih =>
    have hpos := List.length_pos_iff.mpr (bytes_ne_nil fmt item)
    have hcons : itemBytes fmt (item :: items) = fmt.bytes item ++ itemBytes fmt items := rfl
    rw [hcons, List.length_append, List.length_cons]
    omega

/-- Cells that a marker leaves empty. -/
theorem decode_skip (fmt : Format Item) (ks ks' : List K) (skip : ℕ) (bytes : List UInt8) :
    decode fmt (ks ++ ks') (ks.length + skip) bytes =
      (decode fmt ks' skip bytes).map fun (seen, rest) => (ks.map (·, none) ++ seen, rest) := by
  induction ks with
  | nil => simp
  | cons k ks ih =>
    have hlength : (k :: ks).length + skip = (ks.length + skip) + 1 := by
      rw [List.length_cons]
      omega
    rw [hlength, List.cons_append, decode, ih, Option.map_map]
    rfl

theorem decode_marker {n : ℕ} {bytes rest : List UInt8} (h : readMarker bytes = some (n, rest))
    (k : K) (ks : List K) : decode fmt (k :: ks) 0 bytes =
      (decode fmt ks n rest).map fun (seen, rest) => ((k, none) :: seen, rest) := by
  rw [decode]
  simp only [h]

/-- What the reader makes of a row of cells. -/
def view (cells : List (K × Option (List Item))) : List (K × Option (List Item)) :=
  cells.map fun cell => (cell.1, shown cell.2)

/-- The row is read back where a cell is expected. -/
def ReadsRow (fmt : Format Item) (cells : List (K × Option (List Item))) : Prop :=
  ∀ rest, decode fmt (cells.map Prod.fst) 0 (encode fmt (-1) (cells.map Prod.snd) ++ rest) =
    some (view cells, rest)

/-- After a cell and the empty cells `ks`, which the writer has counted, the next thing is a marker
with which the row is read back. -/
def ReadsAfter (fmt : Format Item) (cells : List (K × Option (List Item))) : Prop :=
  ∀ (ks : List K) (rest : List UInt8), ks.length < 0xFF → ∃ n rest',
    readMarker (encode fmt ks.length (cells.map Prod.snd) ++ rest) = some (n, rest') ∧
    decode fmt (ks ++ cells.map Prod.fst) n rest' = some (ks.map (·, none) ++ view cells, rest)

variable {cells : List (K × Option (List Item))}

theorem ReadsAfter.start (h : ReadsAfter fmt cells) (rest : List UInt8) : ∃ n rest',
    readMarker (encode fmt 0 (cells.map Prod.snd) ++ rest) = some (n, rest') ∧
    decode fmt (cells.map Prod.fst) n rest' = some (view cells, rest) :=
  h [] rest (Nat.zero_lt_succ _)

theorem readMarker_length {n : ℕ} {bytes rest : List UInt8}
    (h : readMarker bytes = some (n, rest)) : 0 < bytes.length := by
  cases bytes with
  | nil => simp [readMarker] at h
  | cons _ _ => exact Nat.succ_pos _

theorem readsRow_some (h : ReadsAfter fmt cells) (k : K) (items : List Item) :
    ReadsRow fmt ((k, some items) :: cells) := by
  intro rest
  obtain ⟨n, rest', hmarker, hdecode⟩ := h.start rest
  have hencode : encode fmt (-1) (((k, some items) :: cells).map Prod.snd) ++ rest =
      itemBytes fmt items ++ (encode fmt 0 (cells.map Prod.snd) ++ rest) := by
    rw [List.map_cons, encode, List.append_assoc]
    rfl
  rw [hencode]
  cases items with
  | nil =>
    -- without items the marker that follows stands where the cell was expected
    rw [List.map_cons]
    change decode fmt _ 0 (encode fmt 0 (cells.map Prod.snd) ++ rest) = _
    rw [decode_marker hmarker, hdecode]
    rfl
  | cons item items =>
    -- an item does not look like a marker, so the items are read, up to the marker
    have hno : readMarker (itemBytes fmt (item :: items) ++
        (encode fmt 0 (cells.map Prod.snd) ++ rest)) = none := by
      rw [itemBytes, List.flatMap_cons, List.append_assoc]
      exact readMarker_item item _
    have hlength : (item :: items).length < (itemBytes fmt (item :: items) ++
        (encode fmt 0 (cells.map Prod.snd) ++ rest)).length := by
      rw [List.length_append]
      have hitems := length_le_itemBytes fmt (item :: items)
      have hpos := readMarker_length hmarker
      omega
    have hread : readItems fmt _ _ = _ := readItems_itemBytes (item :: items) hmarker _ hlength
    rw [List.map_cons, decode]
    simp only [hno, hread, hdecode]
    rfl

theorem readsRow_none (h : ReadsAfter fmt cells) (k : K) : ReadsRow fmt ((k, none) :: cells) := by
  intro rest
  obtain ⟨n, rest', hmarker, hdecode⟩ := h.start rest
  have hencode : encode fmt (-1) (((k, none) :: cells).map Prod.snd) =
      encode fmt 0 (cells.map Prod.snd) := by
    rw [List.map_cons, encode, if_neg (by decide)]
    rfl
  rw [hencode, List.map_cons, decode_marker hmarker, hdecode]
  rfl

theorem pending_natCast (n : ℕ) : pending n = marker n := if_pos (Int.natCast_nonneg n)

theorem readsAfter_nil : ReadsAfter fmt ([] : List (K × Option (List Item))) := by
  intro ks rest hks
  refine ⟨ks.length, rest, ?_, ?_⟩
  · rw [List.map_nil, encode, pending_natCast, readMarker_marker (by omega) (by omega)]
    rfl
  · have hskip := decode_skip fmt ks [] 0 rest
    rw [Nat.add_zero] at hskip
    rw [List.map_nil, hskip]
    rfl

theorem readsAfter_some {k : K} {items : List Item} (h : ReadsRow fmt ((k, some items) :: cells)) :
    ReadsAfter fmt ((k, some items) :: cells) := by
  intro ks rest hks
  refine ⟨ks.length, encode fmt (-1) (((k, some items) :: cells).map Prod.snd) ++ rest, ?_, ?_⟩
  · have hencode : encode fmt ks.length (((k, some items) :: cells).map Prod.snd) =
        marker ks.length ++ encode fmt (-1) (((k, some items) :: cells).map Prod.snd) := by
      rw [List.map_cons, encode, encode, pending_natCast, List.append_assoc, List.append_assoc]
      rfl
    rw [hencode, List.append_assoc, readMarker_marker (by omega) (by omega)]
    rfl
  · have hskip := decode_skip fmt ks (((k, some items) :: cells).map Prod.fst) 0
      (encode fmt (-1) (((k, some items) :: cells).map Prod.snd) ++ rest)
    rw [Nat.add_zero] at hskip
    rw [hskip, h rest]
    rfl

theorem readsAfter_none (hrow : ReadsRow fmt cells) (hafter : ReadsAfter fmt cells) (k : K) :
    ReadsAfter fmt ((k, none) :: cells) := by
  intro ks rest hks
  have happend : ks ++ ((k, none) :: cells).map Prod.fst = (ks ++ [k]) ++ cells.map Prod.fst := by
    rw [List.append_assoc]
    rfl
  have hview : ks.map (·, none) ++ view ((k, none) :: cells) =
      (ks ++ [k]).map (·, none) ++ view cells := by
    rw [List.map_append, List.append_assoc]
    rfl
  have hlength : (ks ++ [k]).length = ks.length + 1 := by simp
  rw [happend, hview, List.map_cons, encode]
  by_cases hfull : (ks.length : ℤ) + 1 = 0xFF
  · -- the marker is full: it is written at once and the count starts anew
    rw [if_pos hfull, List.append_assoc]
    refine ⟨_, _, readMarker_marker (by decide) (by decide) _, ?_⟩
    have hskip := decode_skip fmt (ks ++ [k]) (cells.map Prod.fst) 0
      (encode fmt (-1) (cells.map Prod.snd) ++ rest)
    have hcount : (ks ++ [k]).length + 0 = (0xFF : ℤ).toNat := by
      rw [hlength]
      omega
    rw [hcount] at hskip
    rw [hskip, hrow rest]
    rfl
  · rw [if_neg hfull]
    have := hafter (ks ++ [k]) rest (by omega)
    rw [hlength, Int.natCast_add] at this
    exact this

/-- Whatever the cells, the reader gets back what the writer has written, and no byte more. -/
theorem decode_encode (fmt : Format Item) (cells : List (K × Option (List Item)))
    (rest : List UInt8) :
    decode fmt (cells.map Prod.fst) 0 (encode fmt (-1) (cells.map Prod.snd) ++ rest) =
      some (view cells, rest) := by
  -- the writer is in one of two states, and the cell decides which one follows
  have hboth : ReadsRow fmt cells ∧ ReadsAfter fmt cells := by
    induction cells with
    | nil => exact ⟨fun rest => rfl, readsAfter_nil⟩
    | cons cell cells ih =>
      obtain ⟨k, cell⟩ := cell
      cases cell with
      | none => exact ⟨readsRow_none ih.2 k, readsAfter_none ih.1 ih.2 k⟩
      | some items =>
        have hrow := readsRow_some ih.2 k items
        exact ⟨hrow, readsAfter_some hrow⟩
  exact hboth.1 rest

/-! ## How much a reader needs -/

/-- The number of bytes of the items that have been read. -/
def readLength (fmt : Format Item) (seen : List (K × Option (List Item))) : ℕ :=
  (seen.map fun cell => (itemBytes fmt (cell.2.getD [])).length).sum

variable (hread : ∀ bytes item rest, fmt.read bytes = some (item, rest) →
  (fmt.bytes item).length + rest.length ≤ bytes.length)

theorem readMarker_length_le {n : ℕ} {bytes rest : List UInt8}
    (h : readMarker bytes = some (n, rest)) : rest.length ≤ bytes.length := by
  match bytes with
  | [] => simp [readMarker] at h
  | [_] => simp [readMarker] at h
  | _ :: m :: rest' =>
    simp only [readMarker] at h
    split at h
    · obtain ⟨-, rfl⟩ := Prod.mk.inj (Option.some.inj h)
      simp only [List.length_cons]
      omega
    · exact absurd h.symm (Option.some_ne_none _)

include hread

theorem readItems_length (fuel : ℕ) {bytes : List UInt8} {items : List Item} {n : ℕ}
    {rest : List UInt8} (h : readItems fmt fuel bytes = some (items, n, rest)) :
    (itemBytes fmt items).length + rest.length ≤ bytes.length := by
  induction fuel generalizing bytes items with
  | zero => simp [readItems] at h
  | succ fuel ih =>
    rw [readItems] at h
    split at h
    · next hmarker =>
      obtain ⟨rfl, rfl, rfl⟩ := by simpa using h
      have := readMarker_length_le hmarker
      simpa [itemBytes] using this
    · split at h
      · exact absurd h.symm (Option.some_ne_none _)
      · next item rest' hitem =>
        obtain ⟨⟨items', n', rest''⟩, hrest, heq⟩ := Option.map_eq_some_iff.mp h
        obtain ⟨rfl, rfl, rfl⟩ := by simpa using heq
        have hitems := ih hrest
        have hbytes := hread _ _ _ hitem
        rw [itemBytes] at hitems
        rw [itemBytes, List.flatMap_cons, List.length_append]
        omega

/-- A reader reads at least the bytes of the items. -/
theorem decode_length {ks : List K} {skip : ℕ} {bytes rest : List UInt8}
    {seen : List (K × Option (List Item))} (h : decode fmt ks skip bytes = some (seen, rest)) :
    readLength fmt seen + rest.length ≤ bytes.length := by
  induction ks generalizing skip bytes seen with
  | nil =>
    cases skip with
    | zero =>
      obtain ⟨rfl, rfl⟩ := Prod.mk.inj (Option.some.inj h)
      simp [readLength]
    | succ skip => exact absurd h.symm (Option.some_ne_none _)
  | cons k ks ih =>
    cases skip with
    | succ skip =>
      rw [decode] at h
      obtain ⟨⟨seen', rest'⟩, hrest, heq⟩ := Option.map_eq_some_iff.mp h
      obtain ⟨rfl, rfl⟩ := Prod.mk.inj heq
      simpa [readLength, itemBytes] using ih hrest
    | zero =>
      rw [decode] at h
      split at h
      · next hmarker =>
        obtain ⟨⟨seen', rest'⟩, hrest, heq⟩ := Option.map_eq_some_iff.mp h
        obtain ⟨rfl, rfl⟩ := Prod.mk.inj heq
        have hseen := ih hrest
        have := readMarker_length_le hmarker
        simp only [readLength, List.map_cons, List.sum_cons, Option.getD_none, itemBytes,
          List.flatMap_nil, List.length_nil] at hseen ⊢
        omega
      · split at h
        · exact absurd h.symm (Option.some_ne_none _)
        · next hitems =>
          obtain ⟨⟨seen', rest'⟩, hrest, heq⟩ := Option.map_eq_some_iff.mp h
          obtain ⟨rfl, rfl⟩ := Prod.mk.inj heq
          have hseen := ih hrest
          have := readItems_length hread _ hitems
          simp only [readLength, List.map_cons, List.sum_cons, Option.getD_some] at hseen ⊢
          omega

end SkipRuns
