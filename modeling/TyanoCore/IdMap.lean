import Mathlib.Data.List.AList
import Mathlib.Logic.Function.Basic
import TyanoCore.Run

/-!
# Identifiers for creatures

An `IdMap` gives every value that is inserted an identifier from a range, going round the range.
Its probe loop is to look for the next identifier that is not in use, but returns from within its
first round: with the next identifier in use the value is stored under `0`.
-/

namespace TyanoCore

open Transition

/-- The next identifier to try lies in the range, as the constructor asserts. -/
structure IdMap (T : Type*) where
  map : AList fun _ : ℕ => T
  maximumId : ℕ
  minimumId : ℕ
  nextId : ℕ
  minimum_le_next : minimumId ≤ nextId
  next_le_maximum : nextId ≤ maximumId

namespace IdMap

variable {T : Type*}

/-- The constructor of `IdMap`. -/
def new (T : Type*) (minimumId maximumId : ℕ) (h : minimumId ≤ maximumId) : IdMap T where
  map := ∅
  maximumId := maximumId
  minimumId := minimumId
  nextId := minimumId
  minimum_le_next := le_rfl
  next_le_maximum := h

def erase (m : IdMap T) (id : ℕ) : IdMap T := { m with map := m.map.erase id }

def get [Inhabited T] (m : IdMap T) (id : ℕ) : T := (m.map.lookup id).getD default

/-- The identifier after an identifier, from the maximum back to the minimum. -/
def after (m : IdMap T) (id : ℕ) : ℕ := if id ≥ m.maximumId then m.minimumId else id + 1

/-- Moves on to the identifier after the next one. -/
def advance (m : IdMap T) : IdMap T where
  map := m.map
  maximumId := m.maximumId
  minimumId := m.minimumId
  nextId := m.after m.nextId
  minimum_le_next := by
    have := m.minimum_le_next
    unfold after
    split <;> omega
  next_le_maximum := by
    have := m.minimum_le_next
    have := m.next_le_maximum
    unfold after
    split <;> omega

/-- `findNextId`; `none` when its assertion fails.  The loop over the identifiers in use ends with
`return 0` in its first round. -/
def findNextId (m : IdMap T) : Option (ℕ × IdMap T) :=
  if m.nextId ∈ m.map then
    if m.after m.nextId = m.nextId then none else some (0, m)
  else some (m.nextId, m.advance)

def insert (m : IdMap T) (value : T) : Option (ℕ × IdMap T) :=
  m.findNextId.map fun (id, m) => (id, { m with map := m.map.insert id value })

/-- The number of identifiers in use. -/
def live (m : IdMap T) : ℕ := m.map.keys.length

/-- The next identifier is not in use, or `0` is an identifier of the range and not in use. -/
def NextIsFree (m : IdMap T) : Prop := m.nextId ∉ m.map ∨ (m.minimumId = 0 ∧ 0 ∉ m.map)

instance (m : IdMap T) : Decidable m.NextIsFree :=
  inferInstanceAs (Decidable (m.nextId ∉ m.map ∨ (m.minimumId = 0 ∧ 0 ∉ m.map)))

/-- What an insertion should do: the identifier lies in the range and was not in use, it has the
value now, and no other identifier has changed. -/
structure InsertsFresh [Inhabited T] (m : IdMap T) (value : T) (id : ℕ) (m' : IdMap T) : Prop where
  minimum_le : m.minimumId ≤ id
  le_maximum : id ≤ m.maximumId
  not_live : id ∉ m.map
  get_id : m'.get id = value
  mem_iff : ∀ i ≠ id, i ∈ m'.map ↔ i ∈ m.map
  get_of_ne : ∀ i ≠ id, m'.get i = m.get i

variable {m : IdMap T}

/-- The assertion only fails when all identifiers are in use. -/
theorem after_ne_nextId (hlive : m.live < m.maximumId - m.minimumId + 1) (hmem : m.nextId ∈ m.map) :
    m.after m.nextId ≠ m.nextId := by
  intro hafter
  have hmin := m.minimum_le_next
  have hmax := m.next_le_maximum
  unfold after at hafter
  split at hafter
  · -- a range of one identifier, which is in use
    have hpos : 0 < m.live := List.length_pos_of_mem (AList.mem_keys.mp hmem)
    omega
  · omega

theorem insert_of_free (value : T) (h : m.nextId ∉ m.map) :
    m.insert value =
      some (m.nextId, { m.advance with map := m.map.insert m.nextId value }) := by
  rw [insert, findNextId, if_neg h]
  rfl

theorem insert_of_live (value : T) (hlive : m.live < m.maximumId - m.minimumId + 1)
    (hmem : m.nextId ∈ m.map) :
    m.insert value = some (0, { m with map := m.map.insert 0 value }) := by
  rw [insert, findNextId, if_pos hmem, if_neg (after_ne_nextId hlive hmem)]
  rfl

/-- To store a value under an identifier of the range that was not in use is what an insertion
should do. -/
theorem insertsFresh_of_map [Inhabited T] {value : T} {id : ℕ} {m' : IdMap T}
    (hmap : m'.map = m.map.insert id value) (hmin : m.minimumId ≤ id) (hmax : id ≤ m.maximumId)
    (hnot : id ∉ m.map) : m.InsertsFresh value id m' where
  minimum_le := hmin
  le_maximum := hmax
  not_live := hnot
  get_id := by rw [get, hmap, AList.lookup_insert, Option.getD_some]
  mem_iff i hi := by
    rw [hmap, AList.mem_insert]
    exact or_iff_right hi
  get_of_ne i hi := by rw [get, hmap, AList.lookup_insert_ne hi, get]

/-- While identifiers are left, an insertion does what it should exactly when the next identifier is
free. -/
theorem insert_fresh_iff [Inhabited T] (value : T)
    (hlive : m.live < m.maximumId - m.minimumId + 1) :
    ∃ id m', m.insert value = some (id, m') ∧
      (m.InsertsFresh value id m' ↔ m.NextIsFree) := by
  by_cases hmem : m.nextId ∈ m.map
  · -- the value is stored under `0`
    refine ⟨_, _, insert_of_live value hlive hmem, ?_⟩
    constructor
    · exact fun h => .inr ⟨Nat.le_zero.mp h.minimum_le, h.not_live⟩
    · rintro (hnot | ⟨hzero, hnot⟩)
      · exact absurd hmem hnot
      · exact insertsFresh_of_map rfl (Nat.le_of_eq hzero) (Nat.zero_le _) hnot
  · refine ⟨_, _, insert_of_free value hmem, ?_⟩
    constructor
    · exact fun _ => .inl hmem
    · exact fun _ => insertsFresh_of_map rfl m.minimum_le_next m.next_le_maximum hmem

end IdMap

/-! ## Runs -/

/-- A map and, for each identifier in use, the value that has been inserted under it. -/
structure IdBook (T : Type*) where
  ids : IdMap T
  book : ℕ → Option T

inductive IdAction (T : Type*) where
  | insert (value : T)
  | erase (id : ℕ)

namespace IdBook

variable {T : Type*}

def new (T : Type*) (minimumId maximumId : ℕ) (h : minimumId ≤ maximumId) : IdBook T :=
  ⟨.new T minimumId maximumId h, fun _ => none⟩

def step (s : IdBook T) : IdAction T → Option (IdBook T)
  | .insert value =>
    (s.ids.insert value).map fun (id, ids) => ⟨ids, Function.update s.book id (some value)⟩
  | .erase id => some ⟨s.ids.erase id, Function.update s.book id none⟩

/-- An insertion is made while identifiers are left and the next one is free. -/
def Allowed (s : IdBook T) : IdAction T → Prop
  | .insert _ => s.ids.live < s.ids.maximumId - s.ids.minimumId + 1 ∧ s.ids.NextIsFree
  | .erase _ => True

instance (s : IdBook T) (a : IdAction T) : Decidable (s.Allowed a) :=
  match a with
  | .insert _ => inferInstanceAs (Decidable (_ ∧ s.ids.NextIsFree))
  | .erase _ => inferInstanceAs (Decidable True)

/-- The map holds what the book says, and the range stays. -/
structure Kept (minimumId maximumId : ℕ) (s : IdBook T) : Prop where
  minimum : s.ids.minimumId = minimumId
  maximum : s.ids.maximumId = maximumId
  lookup : ∀ id, s.ids.map.lookup id = s.book id

theorem kept_new (T : Type*) {minimumId maximumId : ℕ} (h : minimumId ≤ maximumId) :
    Kept minimumId maximumId (.new T minimumId maximumId h) where
  minimum := rfl
  maximum := rfl
  lookup id := AList.lookup_empty id

/-- Every insertion stores its value under the identifier that it returns. -/
theorem insert_map {m m' : IdMap T} {value : T} {id : ℕ} (h : m.insert value = some (id, m')) :
    m'.map = m.map.insert id value ∧ m'.minimumId = m.minimumId ∧ m'.maximumId = m.maximumId := by
  rw [IdMap.insert, IdMap.findNextId] at h
  split at h
  · split at h
    · exact absurd h.symm (Option.some_ne_none _)
    · obtain ⟨rfl, rfl⟩ := Prod.mk.inj (Option.some.inj h)
      exact ⟨rfl, rfl, rfl⟩
  · obtain ⟨rfl, rfl⟩ := Prod.mk.inj (Option.some.inj h)
    exact ⟨rfl, rfl, rfl⟩

theorem Kept.step {minimumId maximumId : ℕ} {s t : IdBook T} {a : IdAction T}
    (h : Kept minimumId maximumId s) (hstep : s.step a = some t) : Kept minimumId maximumId t := by
  cases a with
  | insert value =>
    obtain ⟨⟨id, ids⟩, hinsert, rfl⟩ := Option.map_eq_some_iff.mp hstep
    obtain ⟨hmap, hmin, hmax⟩ := insert_map hinsert
    refine ⟨hmin.trans h.minimum, hmax.trans h.maximum, fun i => ?_⟩
    by_cases hi : i = id
    · subst hi
      simp only [hmap, AList.lookup_insert, Function.update_self]
    · simp only [hmap, AList.lookup_insert_ne hi, Function.update_of_ne hi, h.lookup]
  | erase id =>
    obtain rfl := Option.some.inj hstep
    refine ⟨h.minimum, h.maximum, fun i => ?_⟩
    by_cases hi : i = id
    · subst hi
      simp only [IdMap.erase, AList.lookup_erase, Function.update_self]
    · simp only [IdMap.erase, AList.lookup_erase_ne hi, Function.update_of_ne hi, h.lookup]

theorem kept_of_run {minimumId maximumId : ℕ} (h : minimumId ≤ maximumId)
    (actions : List (IdAction T)) {s : IdBook T}
    (hrun : runActions (guarded Allowed step) (.new T minimumId maximumId h) actions = some s) :
    Kept minimumId maximumId s := by
  have hreach : ((System.ofStep (· = IdBook.new T minimumId maximumId h) step).restrict
      Allowed).Reachable s := reachable_restrict_of_runActions (.init rfl) actions hrun
  apply hreach.of_restrict.invariant
  · rintro s rfl
    exact kept_new T h
  · exact fun s a t hs hst => hs.step hst

/-- In a run whose insertions are all made while the next identifier is free, every identifier in
use has the value that was inserted under it, and with identifiers left the next insertion does what
it should exactly when the next identifier is free. -/
theorem ids_unique [Inhabited T] {minimumId maximumId : ℕ} (h : minimumId ≤ maximumId)
    (actions : List (IdAction T)) {s : IdBook T}
    (hrun : runActions (guarded Allowed step) (.new T minimumId maximumId h) actions = some s) :
    (∀ id ∈ s.ids.map, s.book id = some (s.ids.get id)) ∧
    ∀ value, s.ids.live < maximumId - minimumId + 1 →
      ∃ id ids, s.ids.insert value = some (id, ids) ∧
        ((minimumId ≤ id ∧ id ≤ maximumId ∧ s.ids.InsertsFresh value id ids) ↔
          s.ids.NextIsFree) := by
  have hkept := kept_of_run h actions hrun
  constructor
  · intro id hid
    obtain ⟨value, hvalue⟩ := Option.isSome_iff_exists.mp (AList.lookup_isSome.mpr hid)
    rw [← hkept.lookup id, IdMap.get, hvalue]
    rfl
  · intro value hlive
    rw [← hkept.minimum, ← hkept.maximum] at hlive
    obtain ⟨id, ids, hinsert, hiff⟩ := s.ids.insert_fresh_iff value hlive
    refine ⟨id, ids, hinsert, ?_⟩
    rw [← hiff, ← hkept.minimum, ← hkept.maximum]
    exact ⟨fun hand => hand.2.2, fun hfresh => ⟨hfresh.minimum_le, hfresh.le_maximum, hfresh⟩⟩

/-- A round through a range of three identifiers, the first of which has been given back. -/
theorem ids_unique_round :
    ∃ s : IdBook ℕ, runActions (guarded Allowed step) (.new ℕ 1 3 (by decide))
        [.insert 10, .insert 20, .insert 30, .erase 1] = some s ∧
      (∀ id ∈ s.ids.map, s.book id = some (s.ids.get id)) ∧
      ∀ value, s.ids.live < 3 - 1 + 1 → ∃ id ids, s.ids.insert value = some (id, ids) ∧
        ((1 ≤ id ∧ id ≤ 3 ∧ s.ids.InsertsFresh value id ids) ↔ s.ids.NextIsFree) :=
  ⟨_, rfl, ids_unique (by decide) [.insert 10, .insert 20, .insert 30, .erase 1] rfl⟩

/-- After a round with the second of three identifiers given back, the next value is stored under
`0`, which is not in the range. -/
theorem ids_not_unique :
    ∃ s : IdBook ℕ, runActions step (.new ℕ 1 3 (by decide))
        [.insert 10, .insert 20, .insert 30, .erase 2] = some s ∧
      s.ids.live < 3 - 1 + 1 ∧ (s.ids.insert 40).map Prod.fst = some 0 :=
  ⟨_, rfl, by decide, rfl⟩

end IdBook

end TyanoCore
