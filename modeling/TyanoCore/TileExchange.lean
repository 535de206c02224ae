import TyanoCore.TileThings
import TyanoCore.Run
import Mathlib.Data.List.Nodup
import Mathlib.Data.List.Perm.Basic
import Mathlib.Tactic.SplitIfs

/-!
# What one operation on a tile exchanges

Seen from outside, an operation takes at most one thing from the tile and brings at most one, and
looks after the flags of these two.
-/

namespace TyanoCore

open Transition

variable {kinds : KindId → Option TileKind} {s s' : TileState}

namespace TileState

/-! ## The vector -/

theorem downItems_append_topItems (s : TileState) : s.downItems ++ s.topItems = s.items :=
  List.take_append_drop _ _

/-- The vector is as long as the count of the items that come first says. -/
def Split (s : TileState) : Prop := s.downItemCount ≤ s.items.length

theorem Split.length_downItems (h : s.Split) : s.downItems.length = s.downItemCount :=
  List.length_take_of_le h

/-- Two lists one after the other, with the length of the first. -/
theorem split_of_append {down top : List ItemId} (hitems : s.items = down ++ top)
    (hcount : s.downItemCount = down.length) :
    s.Split ∧ s.downItems = down ∧ s.topItems = top := by
  unfold Split downItems topItems
  rw [hitems, hcount]
  refine ⟨?_, List.take_left, List.drop_left⟩
  rw [List.length_append]
  exact Nat.le_add_right _ _

theorem mem_things_iff {i : ItemId} :
    i ∈ s.things ↔ s.ground = some i ∨ i ∈ s.downItems ∨ i ∈ s.topItems := by
  unfold things
  rw [List.mem_append, Option.mem_toList, ← List.mem_append, downItems_append_topItems]

/-! ## What holds between operations -/

/-- The tile is in order: it counts its things, has each of them once and is their parent. -/
structure Sound (s : TileState) : Prop where
  split : s.Split
  nodup : s.things.Nodup
  parent : ∀ i ∈ s.things, (s.item i).parent = .here
  counted : s.thingCount = s.things.length + s.creatures.length
  bounded : s.thingCount ≤ maxIndex

theorem Sound.not_mem (h : s.Sound) {i : ItemId} (hi : (s.item i).parent ≠ .here) :
    i ∉ s.things :=
  fun hmem => hi (h.parent i hmem)

/-- One of the things on the tile has a property. -/
def Has (s : TileState) (things : List ItemId) (p : ItemProperty) : Prop :=
  ∃ i ∈ things, (s.item i).hasProperty p = true

theorem has_iff_any {things : List ItemId} {p : ItemProperty} :
    s.Has things p ↔ (things.any fun i => (s.item i).hasProperty p) = true :=
  List.any_eq_true.symm

/-- The flags once an item has gone. -/
def lowered (flags : TileFlag → Bool) (others : ItemProperty → Bool) :
    Option TileItem → TileFlag → Bool
  | none => flags
  | some item => lowerFlags flags item others

/-- The flags once an item has come. -/
def raised (flags : TileFlag → Bool) : Option TileItem → TileFlag → Bool
  | none => flags
  | some item => raiseFlags flags item

/-- One thing goes and another comes, and the rest stays.  The properties that are looked for when
the one goes are those of the rest, and maybe of the other. -/
structure Exchange (s s' : TileState) (goes comes : Option ItemId) (rest : List ItemId) :
    Prop where
  split : s'.Split
  before : s.things.Perm (goes.toList ++ rest)
  after : s'.things.Perm (comes.toList ++ rest)
  item : ∀ i ∈ rest, s'.item i = s.item i
  parent : ∀ i, comes = some i → (s'.item i).parent = .here
  creatures : s'.creatures = s.creatures
  thingCount : s'.thingCount + goes.toList.length = s.thingCount + comes.toList.length
  room : goes = none → comes.isSome → s.thingCount < maxIndex
  flags : ∃ others : ItemProperty → Bool,
    (∀ p, s.Has rest p → others p = true) ∧
    (∀ p, others p = true → s.Has rest p ∨ s'.Has comes.toList p) ∧
    s'.flags = raised (lowered s.flags others (goes.map s.item)) (comes.map s'.item)

/-- An exchange leaves the tile in order, unless what comes is there already. -/
theorem Exchange.sound {goes comes : Option ItemId} {rest : List ItemId}
    (h : Exchange s s' goes comes rest) (hs : s.Sound) (hnew : ∀ i, comes = some i → i ∉ rest) :
    s'.Sound := by
  have hbefore := h.before.nodup_iff.mp hs.nodup
  have hrest : rest.Nodup := (List.nodup_append.mp hbefore).2.1
  have hlength := h.before.length_eq
  have hlength' := h.after.length_eq
  rw [List.length_append] at hlength hlength'
  -- what the exchange says of the counts, next to the lengths of the lists
  have hcount := h.thingCount
  constructor
  · exact h.split
  · rw [h.after.nodup_iff]
    cases comes with
    | none => exact hrest
    | some i => exact List.nodup_cons.mpr ⟨hnew i rfl, hrest⟩
  · intro i hi
    rcases List.mem_append.mp (h.after.mem_iff.mp hi) with hi | hi
    · exact h.parent i (Option.mem_toList.mp hi)
    · rw [h.item i hi]
      exact hs.parent i (h.before.mem_iff.mpr (List.mem_append_right _ hi))
  · rw [h.creatures]
    have hcounted := hs.counted
    omega
  · have hbounded := hs.bounded
    cases comes with
    | none =>
      simp only [Option.toList_none, List.length_nil, Nat.add_zero] at hcount
      omega
    | some i =>
      cases goes with
      | none =>
        have hroom := h.room rfl rfl
        simp only [Option.toList_none, Option.toList_some, List.length_nil,
          List.length_singleton] at hcount
        omega
      | some j =>
        simp only [Option.toList_some, List.length_singleton] at hcount
        omega

/-- Nothing happens. -/
theorem Exchange.refl (hs : s.Split) : Exchange s s none none s.things := by
  constructor
  · exact hs
  · exact .refl _
  · exact .refl _
  · exact fun _ _ => rfl
  · intro i hi
    cases hi
  · rfl
  · rfl
  · intro _ h
    cases h
  · refine ⟨fun p => s.things.any fun i => (s.item i).hasProperty p, ?_, ?_, rfl⟩
    · exact fun p => has_iff_any.mp
    · exact fun p hp => .inl (has_iff_any.mpr hp)

/-! ## Coming and going -/

theorem lowerFlags_congr {a b : TileItem} (h : a.shows = b.shows) (flags : TileFlag → Bool)
    (others : ItemProperty → Bool) : lowerFlags flags a others = lowerFlags flags b others := by
  have hproperty (p : ItemProperty) : a.hasProperty p = b.hasProperty p :=
    congrFun h (.property p)
  funext f
  unfold lowerFlags
  split
  · rw [hproperty]
  · rw [h]

/-- What an item shows depends neither on its parent nor on its count. -/
theorem shows_setParent (item : TileItem) (parent : ItemParent) :
    { item with parent := parent }.shows = item.shows := by
  funext f
  cases f with
  | property p => cases p <;> rfl
  | _ => rfl

theorem shows_setCount (item : TileItem) (count : ℕ) :
    { item with count := count }.shows = item.shows := by
  funext f
  cases f with
  | property p => cases p <;> rfl
  | _ => rfl

theorem setItem_self (i : ItemId) (item : TileItem) : (s.setItem i item).item i = item :=
  if_pos rfl

theorem setItem_other {i x : ItemId} (hx : x ≠ i) (item : TileItem) :
    (s.setItem i item).item x = s.item x :=
  if_neg hx

theorem hasProperty_iff {i : ItemId} {p : ItemProperty} :
    s.hasProperty i p = true ↔ ∃ x ∈ s.things, x ≠ i ∧ (s.item x).hasProperty p = true := by
  unfold hasProperty
  rw [List.any_eq_true]
  constructor
  · rintro ⟨x, hx, hp⟩
    obtain ⟨hxi, hp⟩ := Bool.and_eq_true_iff.mp hp
    exact ⟨x, hx, of_decide_eq_true hxi, hp⟩
  · rintro ⟨x, hx, hxi, hp⟩
    exact ⟨x, hx, Bool.and_eq_true_iff.mpr ⟨decide_eq_true hxi, hp⟩⟩

/-- A thing is put on the tile, and then the flags are raised. -/
theorem exchange_put {t : TileState} {i : ItemId} (hi : i ∉ s.things)
    (hroom : s.thingCount < maxIndex) (hsplit : t.Split) (hthings : t.things.Perm (i :: s.things))
    (hitem : ∀ x, x ≠ i → t.item x = s.item x) (hparent : (t.item i).parent = .here)
    (hcreatures : t.creatures = s.creatures) (hcount : t.thingCount = s.thingCount + 1)
    (hflags : t.flags = s.flags) :
    Exchange s (t.updateTileFlags i false) none (some i) s.things := by
  constructor
  · exact hsplit
  · exact .refl _
  · exact hthings
  · intro x hx
    exact hitem x fun heq => hi (heq ▸ hx)
  · intro x hx
    cases hx
    exact hparent
  · exact hcreatures
  · exact hcount
  · exact fun _ _ => hroom
  · refine ⟨fun p => s.things.any fun x => (s.item x).hasProperty p, ?_, ?_, ?_⟩
    · exact fun p => has_iff_any.mp
    · exact fun p hp => .inl (has_iff_any.mpr hp)
    · change raiseFlags t.flags (t.item i) = raiseFlags s.flags (t.item i)
      rw [hflags]

/-- A thing is taken from the tile, and then the flags are lowered. -/
theorem exchange_take {t : TileState} {i : ItemId} (hs : s.Sound) (hsplit : t.Split)
    (hthings : s.things.Perm (i :: t.things)) (hitem : ∀ x, x ≠ i → t.item x = s.item x)
    (hshows : (t.item i).shows = (s.item i).shows) (hcreatures : t.creatures = s.creatures)
    (hcount : t.thingCount = s.thingCount - 1) (hflags : t.flags = s.flags) :
    Exchange s (t.updateTileFlags i true) (some i) none t.things := by
  -- the thing lay there once
  have hnot : i ∉ t.things := (List.nodup_cons.mp (hthings.nodup_iff.mp hs.nodup)).1
  have hpos : 1 ≤ s.thingCount := by
    have hlength := hthings.length_eq
    have hcounted := hs.counted
    rw [List.length_cons] at hlength
    omega
  constructor
  · exact hsplit
  · exact hthings
  · exact .refl _
  · intro x hx
    exact hitem x fun heq => hnot (heq ▸ hx)
  · intro x hx
    cases hx
  · exact hcreatures
  · change t.thingCount + 1 = s.thingCount
    omega
  · intro h
    cases h
  · refine ⟨t.hasProperty i, ?_, ?_, ?_⟩
    · rintro p ⟨x, hx, hp⟩
      have hxi : x ≠ i := fun heq => hnot (heq ▸ hx)
      rw [← hitem x hxi] at hp
      exact hasProperty_iff.mpr ⟨x, hx, hxi, hp⟩
    · intro p hp
      obtain ⟨x, hx, hxi, hp⟩ := hasProperty_iff.mp hp
      rw [hitem x hxi] at hp
      exact .inl ⟨x, hx, hp⟩
    · change lowerFlags t.flags (t.item i) (t.hasProperty i) =
        lowerFlags s.flags (s.item i) (t.hasProperty i)
      rw [hflags, lowerFlags_congr hshows]

/-- A thing takes the place of another one; the flags are lowered when it is there already. -/
theorem exchange_swap {t : TileState} {o i : ItemId} {rest : List ItemId} (hs : s.Sound)
    (hi : i ∉ s.things) (hsplit : t.Split) (hbefore : s.things.Perm (o :: rest))
    (hafter : t.things.Perm (i :: rest)) (hitem : ∀ x, x ≠ i → x ≠ o → t.item x = s.item x)
    (hshows : (t.item o).shows = (s.item o).shows) (hparent : (t.item i).parent = .here)
    (hcreatures : t.creatures = s.creatures) (hcount : t.thingCount = s.thingCount)
    (hflags : t.flags = s.flags) :
    Exchange s ((t.updateTileFlags o true).updateTileFlags i false) (some o) (some i) rest := by
  have ho : o ∉ rest := (List.nodup_cons.mp (hbefore.nodup_iff.mp hs.nodup)).1
  have hmem (x : ItemId) (hx : x ∈ rest) : x ≠ i ∧ x ≠ o := by
    refine ⟨?_, fun heq => ho (heq ▸ hx)⟩
    intro heq
    exact hi (hbefore.mem_iff.mpr (List.mem_cons_of_mem o (heq ▸ hx)))
  have hio : i ≠ o := by
    intro heq
    exact hi (hbefore.mem_iff.mpr (heq ▸ List.mem_cons_self))
  constructor
  · exact hsplit
  · exact hbefore
  · exact hafter
  · intro x hx
    exact hitem x (hmem x hx).1 (hmem x hx).2
  · intro x hx
    cases hx
    exact hparent
  · exact hcreatures
  · exact congrArg (· + 1) hcount
  · intro h
    cases h
  · refine ⟨t.hasProperty o, ?_, ?_, ?_⟩
    · rintro p ⟨x, hx, hp⟩
      rw [← hitem x (hmem x hx).1 (hmem x hx).2] at hp
      have hxt : x ∈ t.things := hafter.mem_iff.mpr (List.mem_cons_of_mem i hx)
      exact hasProperty_iff.mpr ⟨x, hxt, (hmem x hx).2, hp⟩
    · intro p hp
      obtain ⟨x, hx, -, hp⟩ := hasProperty_iff.mp hp
      -- the property may be one of the thing that has come
      rcases List.mem_cons.mp (hafter.mem_iff.mp hx) with rfl | hx
      · exact .inr ⟨x, List.mem_singleton_self x, hp⟩
      · rw [hitem x (hmem x hx).1 (hmem x hx).2] at hp
        exact .inl ⟨x, hx, hp⟩
    · change raiseFlags (lowerFlags t.flags (t.item o) (t.hasProperty o)) (t.item i) =
        raiseFlags (lowerFlags s.flags (s.item o) (t.hasProperty o)) (t.item i)
      rw [hflags, lowerFlags_congr hshows]

/-- A thing on the tile becomes another one. -/
theorem exchange_change {i : ItemId} {rest : List ItemId} (hs : s.Sound)
    (hbefore : s.things.Perm (i :: rest)) {item : TileItem} (hparent : item.parent = .here) :
    Exchange s (((s.updateTileFlags i true).setItem i item).updateTileFlags i false) (some i)
      (some i) rest := by
  have hi : i ∉ rest := (List.nodup_cons.mp (hbefore.nodup_iff.mp hs.nodup)).1
  have hself : ((s.updateTileFlags i true).setItem i item).item i = item := setItem_self i item
  constructor
  · exact hs.split
  · exact hbefore
  · exact hbefore
  · intro x hx
    have hxi : x ≠ i := fun heq => hi (heq ▸ hx)
    exact setItem_other hxi item
  · intro x hx
    cases hx
    change (((s.updateTileFlags i true).setItem i item).item i).parent = .here
    rw [hself]
    exact hparent
  · rfl
  · rfl
  · intro h
    cases h
  · refine ⟨s.hasProperty i, ?_, ?_, rfl⟩
    · rintro p ⟨x, hx, hp⟩
      have hxi : x ≠ i := fun heq => hi (heq ▸ hx)
      have hxs : x ∈ s.things := hbefore.mem_iff.mpr (List.mem_cons_of_mem i hx)
      exact hasProperty_iff.mpr ⟨x, hxs, hxi, hp⟩
    · intro p hp
      obtain ⟨x, hx, hxi, hp⟩ := hasProperty_iff.mp hp
      exact .inl ⟨x, (List.mem_cons.mp (hbefore.mem_iff.mp hx)).resolve_left hxi, hp⟩

/-- First one thing goes, then the other one comes. -/
theorem Exchange.comp {t u : TileState} {goes : Option ItemId} {i : ItemId} {rest : List ItemId}
    (h : Exchange s t goes none rest) (h' : Exchange t u none (some i) t.things) :
    Exchange s u goes (some i) rest := by
  have hafter : t.things.Perm rest := h.after
  have hafter' : u.things.Perm (i :: t.things) := h'.after
  have hcount : t.thingCount + goes.toList.length = s.thingCount := h.thingCount
  have hcount' : u.thingCount = t.thingCount + 1 := h'.thingCount
  -- the flags were lowered on behalf of the rest, before anything came
  obtain ⟨others, hrest, hothers, hflags⟩ := h.flags
  obtain ⟨_, _, _, hflags'⟩ := h'.flags
  constructor
  · exact h'.split
  · exact h.before
  · exact hafter'.trans (hafter.cons i)
  · intro x hx
    rw [h'.item x (hafter.mem_iff.mpr hx), h.item x hx]
  · exact h'.parent
  · exact h'.creatures.trans h.creatures
  · change u.thingCount + goes.toList.length = s.thingCount + 1
    omega
  · intro heq _
    have hroom := h'.room rfl rfl
    rw [heq] at hcount
    change t.thingCount = s.thingCount at hcount
    omega
  · refine ⟨others, hrest, ?_, ?_⟩
    · intro p hp
      rcases hothers p hp with hp | ⟨x, hx, -⟩
      · exact .inl hp
      · cases hx
    · rw [hflags', hflags]
      rfl

/-- The parent of something that is not on the tile does not matter afterwards. -/
theorem Exchange.setParent {goes comes : Option ItemId} {rest : List ItemId}
    (h : Exchange s s' goes comes rest) {x : ItemId} (hx : x ∉ s'.things) (parent : ItemParent) :
    Exchange s (s'.setParent x parent) goes comes rest := by
  have hother (y : ItemId) (hy : y ∈ s'.things) : (s'.setParent x parent).item y = s'.item y := by
    have hyx : y ≠ x := fun heq => hx (heq ▸ hy)
    exact setItem_other hyx _
  have hcomes (i : ItemId) (hi : comes = some i) : i ∈ s'.things := by
    rw [h.after.mem_iff, hi]
    exact List.mem_cons_self
  constructor
  · exact h.split
  · exact h.before
  · exact h.after
  · intro i hi
    rw [hother i (h.after.mem_iff.mpr (List.mem_append_right _ hi))]
    exact h.item i hi
  · intro i hi
    rw [hother i (hcomes i hi)]
    exact h.parent i hi
  · exact h.creatures
  · exact h.thingCount
  · exact h.room
  · obtain ⟨others, hrest, hothers, hflags⟩ := h.flags
    have hsame : comes.map (s'.setParent x parent).item = comes.map s'.item := by
      cases comes with
      | none => rfl
      | some i => exact congrArg some (hother i (hcomes i rfl))
    refine ⟨others, hrest, ?_, ?_⟩
    · intro p hp
      refine (hothers p hp).imp_right ?_
      rintro ⟨i, hi, hp⟩
      refine ⟨i, hi, ?_⟩
      rw [hother i (hcomes i (Option.mem_toList.mp hi))]
      exact hp
    · rw [hsame]
      exact hflags

/-- Nor does it before. -/
theorem Exchange.of_setParent {goes comes : Option ItemId} {rest : List ItemId} {x : ItemId}
    {parent : ItemParent} (hx : x ∉ s.things)
    (h : Exchange (s.setParent x parent) s' goes comes rest) : Exchange s s' goes comes rest := by
  have hother (y : ItemId) (hy : y ∈ s.things) : (s.setParent x parent).item y = s.item y := by
    have hyx : y ≠ x := fun heq => hx (heq ▸ hy)
    exact setItem_other hyx _
  have hrest (y : ItemId) (hy : y ∈ rest) : y ∈ s.things :=
    h.before.mem_iff.mpr (List.mem_append_right _ hy)
  have hhas (p : ItemProperty) : (s.setParent x parent).Has rest p ↔ s.Has rest p := by
    unfold Has
    constructor
    · rintro ⟨i, hi, hp⟩
      rw [hother i (hrest i hi)] at hp
      exact ⟨i, hi, hp⟩
    · rintro ⟨i, hi, hp⟩
      rw [← hother i (hrest i hi)] at hp
      exact ⟨i, hi, hp⟩
  have hgoes : goes.map (s.setParent x parent).item = goes.map s.item := by
    cases goes with
    | none => rfl
    | some o => exact congrArg some (hother o (h.before.mem_iff.mpr List.mem_cons_self))
  obtain ⟨others, hfound, hothers, hflags⟩ := h.flags
  constructor
  · exact h.split
  · exact h.before
  · exact h.after
  · intro i hi
    rw [h.item i hi]
    exact hother i (hrest i hi)
  · exact h.parent
  · exact h.creatures
  · exact h.thingCount
  · exact h.room
  · refine ⟨others, fun p hp => hfound p ((hhas p).mpr hp), ?_, ?_⟩
    · exact fun p hp => (hothers p hp).imp_left (hhas p).mp
    · rw [hflags, hgoes]
      rfl

/-! ## Insertion and erasure -/

theorem insertTop_split (h : s.Split) (k : ℕ) (i : ItemId) :
    (s.insertTop k i).Split ∧ (s.insertTop k i).downItems = s.downItems ∧
      (s.insertTop k i).topItems = s.topItems.insertIdx k i :=
  split_of_append rfl h.length_downItems.symm

theorem eraseTop_split (h : s.Split) (i : ItemId) :
    (s.eraseTop i).Split ∧ (s.eraseTop i).downItems = s.downItems ∧
      (s.eraseTop i).topItems = s.topItems.erase i :=
  split_of_append rfl h.length_downItems.symm

theorem eraseDown_split (h : s.Split) {i : ItemId} (hi : i ∈ s.downItems) :
    (s.eraseDown i).Split ∧ (s.eraseDown i).downItems = s.downItems.erase i ∧
      (s.eraseDown i).topItems = s.topItems := by
  refine split_of_append rfl ?_
  rw [List.length_erase_of_mem hi, h.length_downItems]
  rfl

theorem insertTop_things {k : ℕ} (hk : k ≤ s.topItems.length) (i : ItemId) :
    (s.insertTop k i).things.Perm (i :: s.things) := by
  have hitems : (s.downItems ++ s.topItems.insertIdx k i).Perm (i :: s.items) := by
    calc (s.downItems ++ s.topItems.insertIdx k i).Perm (s.downItems ++ i :: s.topItems) :=
          (List.perm_insertIdx i _ hk).append_left _
      _ |>.Perm (i :: (s.downItems ++ s.topItems)) := List.perm_middle
      _ |>.Perm (i :: s.items) := by rw [downItems_append_topItems]
  exact (hitems.append_left _).trans List.perm_middle

theorem insertDown_things (i : ItemId) : (s.insertDown i).things.Perm (i :: s.things) :=
  List.perm_middle

theorem eraseTop_things {i : ItemId} (hi : i ∈ s.topItems) :
    s.things.Perm (i :: (s.eraseTop i).things) := by
  have hitems : s.items.Perm (i :: (s.downItems ++ s.topItems.erase i)) := by
    rw [← downItems_append_topItems]
    exact ((List.perm_cons_erase hi).append_left _).trans List.perm_middle
  exact (hitems.append_left _).trans List.perm_middle

theorem eraseDown_things {i : ItemId} (hi : i ∈ s.downItems) :
    s.things.Perm (i :: (s.eraseDown i).things) := by
  have hitems : s.items.Perm (i :: (s.downItems.erase i ++ s.topItems)) := by
    rw [← downItems_append_topItems]
    exact (List.perm_cons_erase hi).append_right _
  exact (hitems.append_left _).trans List.perm_middle

/-- What lies in a section of the vector lay there before, or belongs there. -/
structure Sections (s s' : TileState) : Prop where
  down : ∀ x ∈ s'.downItems,
    x ∈ s.downItems ∧ (s'.item x).isAlwaysOnTop = (s.item x).isAlwaysOnTop ∨
      (s'.item x).isAlwaysOnTop = false
  top : ∀ x ∈ s'.topItems,
    x ∈ s.topItems ∧ (s'.item x).isAlwaysOnTop = (s.item x).isAlwaysOnTop ∨
      (s'.item x).isAlwaysOnTop = true

/-- The sections are those of the items that are not always on top, and of those that are. -/
structure Sorted (s : TileState) : Prop where
  down : ∀ x ∈ s.downItems, (s.item x).isAlwaysOnTop = false
  top : ∀ x ∈ s.topItems, (s.item x).isAlwaysOnTop = true

theorem Sections.sorted (h : Sections s s') (hs : s.Sorted) : s'.Sorted := by
  constructor
  · intro x hx
    rcases h.down x hx with ⟨hx', hsame⟩ | htop
    · exact hsame.trans (hs.down x hx')
    · exact htop
  · intro x hx
    rcases h.top x hx with ⟨hx', hsame⟩ | htop
    · exact hsame.trans (hs.top x hx')
    · exact htop

theorem Sections.refl (s : TileState) : Sections s s :=
  ⟨fun _ hx => .inl ⟨hx, rfl⟩, fun _ hx => .inl ⟨hx, rfl⟩⟩

theorem Sections.trans {s'' : TileState} (h : Sections s s') (h' : Sections s' s'') :
    Sections s s'' := by
  constructor
  · intro x hx
    rcases h'.down x hx with ⟨hx', hsame⟩ | htop
    · rw [hsame]
      exact (h.down x hx').imp_left fun hx'' => ⟨hx''.1, hx''.2⟩
    · exact .inr htop
  · intro x hx
    rcases h'.top x hx with ⟨hx', hsame⟩ | htop
    · rw [hsame]
      exact (h.top x hx').imp_left fun hx'' => ⟨hx''.1, hx''.2⟩
    · exact .inr htop

/-- The vector with the same sections, and items that are as much on top as before. -/
theorem Sections.of_top (hdown : ∀ x ∈ s'.downItems, x ∈ s.downItems)
    (htop : ∀ x ∈ s'.topItems, x ∈ s.topItems)
    (hsame : ∀ x, (s'.item x).isAlwaysOnTop = (s.item x).isAlwaysOnTop) : Sections s s' :=
  ⟨fun x hx => .inl ⟨hdown x hx, hsame x⟩, fun x hx => .inl ⟨htop x hx, hsame x⟩⟩

theorem Sections.updateTileFlags (h : Sections s s') (i : ItemId) (removed : Bool) :
    Sections s (s'.updateTileFlags i removed) :=
  ⟨h.down, h.top⟩

/-- Something that is not on the tile is in neither section. -/
theorem Sections.setItem (h : Sections s s') {i : ItemId} (hi : i ∉ s'.things) (item : TileItem) :
    Sections s (s'.setItem i item) := by
  have hother (x : ItemId) (hx : x ∈ s'.things) : (s'.setItem i item).item x = s'.item x := by
    have hxi : x ≠ i := fun heq => hi (heq ▸ hx)
    exact setItem_other hxi item
  constructor
  · intro x hx
    rw [hother x (mem_things_iff.mpr (.inr (.inl hx)))]
    exact h.down x hx
  · intro x hx
    rw [hother x (mem_things_iff.mpr (.inr (.inr hx)))]
    exact h.top x hx

theorem isAlwaysOnTop_setItem {i : ItemId} (item : TileItem)
    (h : item.isAlwaysOnTop = (s.item i).isAlwaysOnTop) (x : ItemId) :
    ((s.setItem i item).item x).isAlwaysOnTop = (s.item x).isAlwaysOnTop := by
  by_cases hx : x = i
  · rw [hx, setItem_self, h]
  · rw [setItem_other hx]

theorem isAlwaysOnTop_setParent (i : ItemId) (parent : ItemParent) (x : ItemId) :
    ((s.setParent i parent).item x).isAlwaysOnTop = (s.item x).isAlwaysOnTop := by
  unfold TileState.setParent
  apply isAlwaysOnTop_setItem
  rfl

/-! ## Removing -/

/-- `Tile::__removeThing` finds the item, and takes the whole of it. -/
def Leaves (s : TileState) (i : ItemId) (count : ℕ) : Prop :=
  s.ground = some i ∨
    if (s.item i).isAlwaysOnTop then i ∈ s.topItems
    else i ∈ s.downItems ∧ ¬ ((s.item i).isStackable = true ∧ count ≠ (s.item i).count)

/-- `Tile::__removeThing` finds a stack, and takes some of it. -/
def Shrinks (s : TileState) (i : ItemId) (count : ℕ) : Prop :=
  s.ground ≠ some i ∧ (s.item i).isAlwaysOnTop = false ∧ i ∈ s.downItems ∧
    (s.item i).isStackable = true ∧ count ≠ (s.item i).count

instance (s : TileState) (i : ItemId) (count : ℕ) : Decidable (s.Leaves i count) := by
  unfold Leaves
  infer_instance

instance (s : TileState) (i : ItemId) (count : ℕ) : Decidable (s.Shrinks i count) := by
  unfold Shrinks
  infer_instance

theorem removeThing_leaves (hs : s.Sound) {i : ItemId} {count : ℕ} (h : s.Leaves i count) :
    (∃ rest, Exchange s (s.removeThing i count) (some i) none rest) ∧
      Sections s (s.removeThing i count) := by
  have hkind := isAlwaysOnTop_setParent (s := s) i .nowhere
  have hitem (x : ItemId) (hx : x ≠ i) : (s.setParent i .nowhere).item x = s.item x :=
    setItem_other hx _
  have hshows : ((s.setParent i .nowhere).item i).shows = (s.item i).shows := by
    unfold TileState.setParent
    rw [setItem_self]
    exact shows_setParent _ _
  unfold removeThing
  dsimp only
  by_cases hground : s.ground = some i
  · -- the ground
    rw [if_pos hground]
    constructor
    · refine ⟨_, exchange_take hs hs.split ?_ hitem hshows rfl rfl rfl⟩
      unfold things
      rw [hground]
      exact .refl _
    · exact .of_top (fun _ hx => hx) (fun _ hx => hx) hkind
  rw [if_neg hground]
  have hrest := h.resolve_left hground
  by_cases htop : (s.item i).isAlwaysOnTop = true
  · -- an item on top
    rw [if_pos htop] at hrest ⊢
    rw [if_pos hrest]
    have hsplit := eraseTop_split (s := s.setParent i .nowhere) hs.split i
    constructor
    · exact ⟨_, exchange_take hs hsplit.1 (eraseTop_things (s := s.setParent i .nowhere) hrest)
        hitem hshows rfl rfl rfl⟩
    · refine .of_top ?_ ?_ hkind
      · exact fun x hx => hsplit.2.1 ▸ hx
      · intro x hx
        have hx' : x ∈ s.topItems.erase i := hsplit.2.2 ▸ hx
        exact List.mem_of_mem_erase hx'
  · -- another item
    rw [if_neg htop] at hrest ⊢
    rw [if_pos hrest.1, if_neg hrest.2]
    have hsplit := eraseDown_split (s := s.setParent i .nowhere) hs.split hrest.1
    constructor
    · exact ⟨_, exchange_take hs hsplit.1 (eraseDown_things (s := s.setParent i .nowhere) hrest.1)
        hitem hshows rfl rfl rfl⟩
    · refine .of_top ?_ ?_ hkind
      · intro x hx
        have hx' : x ∈ s.downItems.erase i := hsplit.2.1 ▸ hx
        exact List.mem_of_mem_erase hx'
      · exact fun x hx => hsplit.2.2 ▸ hx

theorem removeThing_shrinks (hs : s.Sound) {i : ItemId} {count : ℕ} (h : s.Shrinks i count) :
    (∃ rest, Exchange s (s.removeThing i count) (some i) (some i) rest) ∧
      Sections s (s.removeThing i count) ∧
      ((s.removeThing i count).item i).shows = (s.item i).shows := by
  obtain ⟨hground, htop, hdown, hstack, hcount⟩ := h
  have hmem : i ∈ s.things := mem_things_iff.mpr (.inr (.inl hdown))
  unfold removeThing
  dsimp only
  rw [if_neg hground, if_neg (by rw [htop]; exact Bool.false_ne_true), if_pos hdown,
    if_pos ⟨hstack, hcount⟩]
  let item : TileItem := { s.item i with count := newCount (s.item i).count count }
  have hself : ((s.updateTileFlags i true).setItem i item).item i = item := setItem_self i item
  have hkind (x : ItemId) : (((s.updateTileFlags i true).setItem i item).item x).isAlwaysOnTop =
      (s.item x).isAlwaysOnTop := isAlwaysOnTop_setItem (s := s.updateTileFlags i true) item rfl x
  -- the stack stays where it is, with another count
  refine ⟨⟨_, exchange_change hs (List.perm_cons_erase hmem) (hs.parent i hmem)⟩, ?_, ?_⟩
  · exact .of_top (fun _ hx => hx) (fun _ hx => hx) hkind
  · change (((s.updateTileFlags i true).setItem i item).item i).shows = _
    rw [hself]
    exact shows_setCount _ _

theorem removeThing_other {i : ItemId} {count : ℕ} (hleaves : ¬ s.Leaves i count)
    (hshrinks : ¬ s.Shrinks i count) : s.removeThing i count = s := by
  unfold Leaves at hleaves
  unfold Shrinks at hshrinks
  rw [not_or] at hleaves
  unfold removeThing
  dsimp only
  rw [if_neg hleaves.1]
  by_cases htop : (s.item i).isAlwaysOnTop = true
  · rw [if_pos htop] at hleaves ⊢
    rw [if_neg hleaves.2]
  · rw [if_neg htop] at hleaves ⊢
    by_cases hdown : i ∈ s.downItems
    · -- an item in its section leaves or shrinks
      exfalso
      by_cases hstack : (s.item i).isStackable = true ∧ count ≠ (s.item i).count
      · exact hshrinks ⟨hleaves.1, (Bool.not_eq_true _).mp htop, hdown, hstack⟩
      · exact hleaves.2 ⟨hdown, hstack⟩
    · rw [if_neg hdown]

/-! ## Adding -/

/-- `Tile::__internalAddThing` does not return early. -/
def AdmitsInternal (s : TileState) (i : ItemId) : Prop :=
  s.hasRoomForItem = true ∧ s.items.length < 0xFFFF ∧
    ((s.item i).isGroundTile = true → s.ground = none)

instance (s : TileState) (i : ItemId) : Decidable (s.AdmitsInternal i) := by
  unfold AdmitsInternal
  infer_instance

theorem lt_maxIndex_of_room (h : s.hasRoomForItem = true) : s.thingCount < maxIndex := by
  unfold hasRoomForItem at h
  split at h
  · cases h
  · next hroom => exact Nat.lt_of_not_le hroom

/-- A new thing on the tile, whose parent is set and whose flags are raised last. -/
theorem exchange_insert {t : TileState} {i : ItemId} (hi : i ∉ s.things)
    (hroom : s.thingCount < maxIndex) (hsplit : t.Split) (hthings : t.things.Perm (i :: s.things))
    (hitem : t.item = s.item) (hcreatures : t.creatures = s.creatures)
    (hcount : t.thingCount = s.thingCount + 1) (hflags : t.flags = s.flags) :
    Exchange s ((t.setParent i .here).updateTileFlags i false) none (some i) s.things := by
  have hsame (x : ItemId) (hx : x ≠ i) : (t.setParent i .here).item x = s.item x :=
    (setItem_other hx _).trans (congrFun hitem x)
  have hparent : ((t.setParent i .here).item i).parent = .here := by
    unfold TileState.setParent
    rw [setItem_self]
  exact exchange_put hi hroom hsplit hthings hsame hparent hcreatures hcount hflags

theorem mem_insertIdx {l : List ItemId} {k : ℕ} {i x : ItemId} (hx : x ∈ l.insertIdx k i) :
    x = i ∨ x ∈ l := by
  by_cases hk : k ≤ l.length
  · exact List.mem_cons.mp ((List.perm_insertIdx i l hk).mem_iff.mp hx)
  -- an index behind the list inserts nothing
  · rw [List.insertIdx_of_length_lt (Nat.lt_of_not_le hk)] at hx
    exact .inr hx

theorem insertTop_sections (hs : s.Split) (k : ℕ) {i : ItemId}
    (htop : (s.item i).isAlwaysOnTop = true) : Sections s (s.insertTop k i) := by
  have hsplit := insertTop_split hs k i
  constructor
  · intro x hx
    rw [hsplit.2.1] at hx
    exact .inl ⟨hx, rfl⟩
  · intro x hx
    rw [hsplit.2.2] at hx
    rcases mem_insertIdx hx with rfl | hx
    · exact .inr htop
    · exact .inl ⟨hx, rfl⟩

theorem insertDown_sections {i : ItemId} (hdown : (s.item i).isAlwaysOnTop = false) :
    Sections s (s.insertDown i) := by
  constructor
  · intro x hx
    rcases List.mem_cons.mp hx with rfl | hx
    · exact .inr hdown
    · exact .inl ⟨hx, rfl⟩
  · exact fun x hx => .inl ⟨hx, rfl⟩

theorem setParent_sections (i : ItemId) (parent : ItemParent) : Sections s (s.setParent i parent) :=
  .of_top (fun _ hx => hx) (fun _ hx => hx) (isAlwaysOnTop_setParent i parent)

theorem internalAddThing_admits (hs : s.Sound) {i : ItemId} (hi : i ∉ s.things)
    (h : s.AdmitsInternal i) :
    Exchange s (s.internalAddThing i) none (some i) s.things ∧
      Sections s (s.internalAddThing i) ∧
      ((s.internalAddThing i).item i).shows = (s.item i).shows := by
  obtain ⟨hroom, hlength, hground⟩ := h
  have hlt := lt_maxIndex_of_room hroom
  have hshows (t : TileState) (ht : t.item = s.item) :
      (((t.setParent i .here).updateTileFlags i false).item i).shows = (s.item i).shows := by
    change ((t.setParent i .here).item i).shows = _
    unfold TileState.setParent
    rw [setItem_self, ht]
    exact shows_setParent _ _
  have hlater (t : TileState) (ht : Sections s t) :
      Sections s ((t.setParent i .here).updateTileFlags i false) :=
    (ht.trans (setParent_sections i .here)).updateTileFlags i false
  unfold internalAddThing
  dsimp only
  rw [if_neg (by rw [hroom]; decide), if_neg (Nat.not_le_of_lt hlength)]
  split
  · next hg =>
    have hnone := hground hg
    rw [if_neg (by rw [hnone]; exact Bool.false_ne_true)]
    have hsame := Sections.refl s
    refine ⟨exchange_insert hi hlt hs.split ?_ rfl rfl rfl rfl, hlater _ ⟨hsame.down, hsame.top⟩,
      hshows _ rfl⟩
    unfold things
    rw [hnone]
    exact .refl _
  split
  · next htop =>
    refine ⟨exchange_insert hi hlt (insertTop_split hs.split _ i).1 ?_ rfl rfl rfl rfl,
      hlater _ (insertTop_sections hs.split _ htop), hshows _ rfl⟩
    exact insertTop_things List.findIdx_le_length i
  · next htop =>
    have hdown := insertDown_sections ((Bool.not_eq_true _).mp htop)
    refine ⟨exchange_insert hi hlt ?_ (insertDown_things i) rfl rfl rfl rfl,
      hlater _ hdown, hshows _ rfl⟩
    exact Nat.succ_le_succ hs.split

theorem internalAddThing_refused {i : ItemId} (h : ¬ s.AdmitsInternal i) :
    s.internalAddThing i = s := by
  unfold AdmitsInternal at h
  unfold internalAddThing
  dsimp only
  by_cases hroom : s.hasRoomForItem = true
  · by_cases hlength : s.items.length < 0xFFFF
    · by_cases hground : (s.item i).isGroundTile = true
      · have hsome : s.ground.isSome = true := by
          rw [Option.isSome_iff_ne_none]
          exact fun hnone => h ⟨hroom, hlength, fun _ => hnone⟩
        rw [if_neg (by rw [hroom]; decide), if_neg (Nat.not_le_of_lt hlength), if_pos hground,
          if_pos hsome]
      · exact absurd ⟨hroom, hlength, fun hg => absurd hg hground⟩ h
    · rw [if_neg (by rw [hroom]; decide), if_pos (Nat.le_of_not_lt hlength)]
  · rw [if_pos (by rw [(Bool.not_eq_true _).mp hroom]; rfl)]

/-- The thing whose place an item takes. -/
def displaced (s : TileState) (i : ItemId) : Option ItemId :=
  if (s.item i).isGroundTile then s.ground else s.oldItem i

/-- `Tile::__addThing` does not send the item on and does not return early. -/
def Admits (s : TileState) (i : ItemId) : Prop :=
  s.isForwarder = false ∧ s.hasRoomForItem = true ∧ s.items.length < 0xFFFF ∧
    ((s.item i).isGroundTile = false → (s.item i).isAlwaysOnTop = false →
      (s.oldItem i).any (fun field => !(s.item field).isReplaceable) = false)

instance (s : TileState) (i : ItemId) : Decidable (s.Admits i) := by
  unfold Admits
  infer_instance

/-- The splash or the magic field that an item takes the place of leaves the tile as a whole. -/
def ReplacesWhole (s : TileState) (i : ItemId) : Prop :=
  s.Admits i → (s.item i).isGroundTile = false → ∀ old, s.oldItem i = some old → s.Leaves old 1

/-- The item turns into a waterball. -/
def BecomesWaterball (s : TileState) (i : ItemId) : Prop :=
  (s.item i).isGroundTile = false ∧ (s.item i).isAlwaysOnTop = false ∧
    (s.item i).kind.id = itemWaterballSplash ∧ s.flags .trashHolder = false

instance (s : TileState) (i : ItemId) : Decidable (s.BecomesWaterball i) := by
  unfold BecomesWaterball
  infer_instance

/-- The item as it will lie on the tile. -/
def arriving (kinds : KindId → Option TileKind) (s : TileState) (i : ItemId) : Option TileItem :=
  if s.BecomesWaterball i then (kinds itemWaterball).map fun kind => { s.item i with kind := kind }
  else some (s.item i)

theorem Sound.setParent (hs : s.Sound) {i : ItemId} (hi : i ∉ s.things) (parent : ItemParent) :
    (s.setParent i parent).Sound := by
  refine ⟨hs.split, hs.nodup, ?_, hs.counted, hs.bounded⟩
  intro x hx
  have hxi : x ≠ i := fun heq => hi (heq ▸ hx)
  rw [TileState.setParent, setItem_other hxi]
  exact hs.parent x hx

theorem Leaves.mem {i : ItemId} {count : ℕ} (h : s.Leaves i count) : i ∈ s.things := by
  rw [mem_things_iff]
  rcases h with hground | hrest
  · exact .inl hground
  · split at hrest
    · exact .inr (.inr hrest)
    · exact .inr (.inl hrest.1)

theorem removeThing_item_other {i x : ItemId} (hx : x ≠ i) (count : ℕ) :
    (s.removeThing i count).item x = s.item x := by
  have hset (item : TileItem) : (s.setItem i item).item x = s.item x := setItem_other hx item
  unfold removeThing
  dsimp only
  split
  · exact hset _
  split
  · split
    · exact hset _
    · rfl
  split
  · split
    · exact hset _
    · exact hset _
  · rfl

/-- The old splash or magic field goes; nothing that is not on the tile changes. -/
theorem removeOldItem_exchange (hs : s.Sound) {old : Option ItemId}
    (hold : ∀ o, old = some o → s.Leaves o 1) :
    (∃ rest, Exchange s (s.removeOldItem old) old none rest) ∧
      Sections s (s.removeOldItem old) ∧
      ∀ x, x ∉ s.things → (s.removeOldItem old).item x = s.item x := by
  cases old with
  | none => exact ⟨⟨_, .refl hs.split⟩, .refl s, fun _ _ => rfl⟩
  | some o =>
    have hleaves := hold o rfl
    obtain ⟨⟨rest, hexchange⟩, hsections⟩ := removeThing_leaves hs hleaves
    -- so its parent does not matter any more
    have hgone : o ∉ (s.removeThing o 1).things := by
      intro hmem
      have hnodup := hexchange.before.nodup_iff.mp hs.nodup
      exact (List.nodup_cons.mp hnodup).1 (hexchange.after.mem_iff.mp hmem)
    refine ⟨⟨rest, hexchange.setParent hgone .nowhere⟩,
      hsections.trans (setParent_sections o .nowhere), ?_⟩
    intro x hx
    have hxo : x ≠ o := fun heq => hx (heq ▸ hleaves.mem)
    change ((s.removeThing o 1).setParent o .nowhere).item x = s.item x
    rw [TileState.setParent, setItem_other hxo, removeThing_item_other hxo]

theorem Leaves.setParent {i o : ItemId} {count : ℕ} (h : s.Leaves o count) (hne : o ≠ i)
    (parent : ItemParent) : (s.setParent i parent).Leaves o count := by
  have hitem : (s.setParent i parent).item o = s.item o := setItem_other hne _
  unfold Leaves at h ⊢
  rw [hitem]
  exact h

/-- The old field is no trash holder. -/
theorem flags_trashHolder {goes : Option ItemId} {rest : List ItemId}
    (h : Exchange s s' goes none rest)
    (hgoes : ∀ o, goes = some o → (s.item o).itemClass = .magicField) :
    s'.flags .trashHolder = s.flags .trashHolder := by
  obtain ⟨others, -, -, hflags⟩ := h.flags
  rw [hflags]
  cases goes with
  | none => rfl
  | some o =>
    have hclass := hgoes o rfl
    change (s.flags .trashHolder && !decide ((s.item o).itemClass = .trashHolder)) = _
    rw [hclass]
    exact Bool.and_true _

theorem Exchange.not_mem {goes : Option ItemId} {rest : List ItemId}
    (h : Exchange s s' goes none rest) {i : ItemId} (hi : i ∉ s.things) : i ∉ s'.things := by
  intro hmem
  have hrest : i ∈ rest := h.after.mem_iff.mp hmem
  exact hi (h.before.mem_iff.mpr (List.mem_append_right _ hrest))

/-- The last steps of `Tile::__addThing` for an item that is not the ground: the old item goes, and
the new one is inserted. -/
theorem exchange_insertion {i : ItemId} {goes : Option ItemId} {rest : List ItemId}
    {t u : TileState} (hi : i ∉ s.things) (hroom : s.thingCount < maxIndex)
    (h : Exchange (s.setParent i .here) t goes none rest) (hparent : (u.item i).parent = .here)
    (hsplit : u.Split) (hthings : u.things.Perm (i :: t.things))
    (hitem : ∀ x, x ≠ i → u.item x = t.item x) (hcreatures : u.creatures = t.creatures)
    (hcount : u.thingCount = t.thingCount + 1) (hflags : u.flags = t.flags) :
    Exchange s (u.updateTileFlags i false) goes (some i) rest := by
  have hgone : i ∉ t.things := h.not_mem hi
  have hroom' : t.thingCount < maxIndex := by
    have hless : t.thingCount + goes.toList.length = s.thingCount := h.thingCount
    omega
  have hput := exchange_put hgone hroom' hsplit hthings hitem hparent hcreatures hcount hflags
  exact (h.comp hput).of_setParent hi

theorem oldItem_magicField {i o : ItemId} (hdown : (s.item i).isAlwaysOnTop = false)
    (h : s.oldItem i = some o) : (s.item o).itemClass = .magicField := by
  unfold oldItem at h
  dsimp only at h
  rw [if_neg (by rw [hdown]; exact Bool.false_ne_true)] at h
  split at h
  · have hclass := List.find?_some h
    exact of_decide_eq_true hclass
  · cases h

/-- One thing goes, the item comes and shows what it is expected to. -/
def Placed (s s' : TileState) (goes : Option ItemId) (i : ItemId) (item : TileItem) : Prop :=
  ∃ rest, Exchange s s' goes (some i) rest ∧ (s'.item i).shows = item.shows ∧
    (item.isAlwaysOnTop = (s.item i).isAlwaysOnTop → Sections s s')

theorem placed_ground (hs : s.Split) {i : ItemId} (hi : i ∉ s.things)
    (hroom : s.thingCount < maxIndex) (hground : s.ground = none) :
    Placed s ({ s.setParent i .here with
      ground := some i, thingCount := s.thingCount + 1 }.updateTileFlags i false)
      none i (s.item i) := by
  have hself : (s.setParent i .here).item i = { s.item i with parent := .here } := setItem_self _ _
  have hother (x : ItemId) (hx : x ≠ i) : (s.setParent i .here).item x = s.item x :=
    setItem_other hx _
  have hsections : Sections s (s.setParent i .here) := setParent_sections i .here
  refine ⟨s.things, ?_, ?_, fun _ => ⟨hsections.down, hsections.top⟩⟩
  · refine exchange_put hi hroom hs ?_ hother (by rw [hself]) rfl rfl rfl
    unfold things
    rw [hground]
    exact .refl _
  · change ((s.setParent i .here).item i).shows = (s.item i).shows
    rw [hself]
    exact shows_setParent _ _

theorem placed_ground_instead (hs : s.Sound) {i g : ItemId} (hi : i ∉ s.things)
    (hground : s.ground = some g) :
    Placed s (({ (s.setParent i .here).setParent g .nowhere with
      ground := some i }.updateTileFlags g true).updateTileFlags i false)
      (some g) i (s.item i) := by
  have hthings : s.things = g :: s.items := by
    unfold things
    rw [hground]
    rfl
  have hig : i ≠ g := by
    rintro rfl
    exact hi (hthings ▸ List.mem_cons_self)
  have hself : ((s.setParent i .here).setParent g .nowhere).item i =
      { s.item i with parent := .here } := by
    rw [TileState.setParent, setItem_other hig, TileState.setParent, setItem_self]
  have hsections : Sections s ((s.setParent i .here).setParent g .nowhere) :=
    (setParent_sections i .here).trans (setParent_sections g .nowhere)
  refine ⟨s.items, ?_, ?_, fun _ => ⟨hsections.down, hsections.top⟩⟩
  · refine exchange_swap hs hi hs.split (by rw [hthings]) (.refl _) ?_ ?_ (by rw [hself])
      rfl rfl rfl
    · intro x hx hxg
      change ((s.setParent i .here).setParent g .nowhere).item x = s.item x
      rw [TileState.setParent, setItem_other hxg, TileState.setParent, setItem_other hx]
    · change (((s.setParent i .here).setParent g .nowhere).item g).shows = _
      rw [TileState.setParent, setItem_self, TileState.setParent, setItem_other (Ne.symm hig)]
      exact shows_setParent _ _
  · change (((s.setParent i .here).setParent g .nowhere).item i).shows = _
    rw [hself]
    exact shows_setParent _ _

/-- The item has the tile as its parent, and the old splash or magic field is gone. -/
structure Cleared (s t : TileState) (i : ItemId) (old : Option ItemId) : Prop where
  exchange : ∃ rest, Exchange (s.setParent i .here) t old none rest
  sections : Sections s t
  self : t.item i = { s.item i with parent := .here }
  trashHolder : (s.item i).isAlwaysOnTop = false → t.flags .trashHolder = s.flags .trashHolder

theorem removeOldItem_cleared (hs : s.Sound) {i : ItemId} (hi : i ∉ s.things)
    (hleaves : ∀ o, s.oldItem i = some o → s.Leaves o 1) :
    Cleared s ((s.setParent i .here).removeOldItem (s.oldItem i)) i (s.oldItem i) := by
  have hself : (s.setParent i .here).item i = { s.item i with parent := .here } := setItem_self _ _
  have hne (o : ItemId) (ho : s.oldItem i = some o) : o ≠ i := by
    rintro rfl
    exact hi (hleaves o ho).mem
  -- the parent of the item is set first, which the tile does not see
  obtain ⟨⟨rest, hexchange⟩, hsections, hitem⟩ := removeOldItem_exchange (hs.setParent hi .here)
    fun o ho => (hleaves o ho).setParent (hne o ho) .here
  constructor
  · exact ⟨rest, hexchange⟩
  · exact (setParent_sections i .here).trans hsections
  · exact (hitem i hi).trans hself
  · intro hdown
    refine flags_trashHolder (s := s.setParent i .here) hexchange fun o ho => ?_
    rw [TileState.setParent, setItem_other (hne o ho)]
    exact oldItem_magicField hdown ho

section Cleared

variable {t : TileState} {i : ItemId} {old : Option ItemId}

theorem Cleared.shows_self (h : Cleared s t i old) : (t.item i).shows = (s.item i).shows := by
  rw [h.self]
  exact shows_setParent _ _

theorem Cleared.parent_self (h : Cleared s t i old) : (t.item i).parent = .here := by
  rw [h.self]

theorem Cleared.isAlwaysOnTop_self (h : Cleared s t i old) :
    (t.item i).isAlwaysOnTop = (s.item i).isAlwaysOnTop := by
  rw [h.self]
  rfl

theorem Cleared.placed_top (h : Cleared s t i old) (hi : i ∉ s.things)
    (hroom : s.thingCount < maxIndex) (htop : (s.item i).isAlwaysOnTop = true) {k : ℕ}
    (hk : k ≤ t.topItems.length) :
    Placed s ((t.insertTop k i).updateTileFlags i false) old i (s.item i) := by
  obtain ⟨rest, hexchange⟩ := h.exchange
  refine ⟨rest, ?_, h.shows_self, fun _ => ?_⟩
  · exact exchange_insertion hi hroom hexchange h.parent_self
      (insertTop_split hexchange.split k i).1 (insertTop_things hk i) (fun _ _ => rfl) rfl rfl rfl
  · have htop' := h.isAlwaysOnTop_self.trans htop
    exact (h.sections.trans (insertTop_sections hexchange.split k htop')).updateTileFlags i false

theorem Cleared.placed_down (h : Cleared s t i old) (hi : i ∉ s.things)
    (hroom : s.thingCount < maxIndex) (hdown : (s.item i).isAlwaysOnTop = false) :
    Placed s ((t.insertDown i).updateTileFlags i false) old i (s.item i) := by
  obtain ⟨rest, hexchange⟩ := h.exchange
  refine ⟨rest, ?_, h.shows_self, fun _ => ?_⟩
  · exact exchange_insertion hi hroom hexchange h.parent_self (Nat.succ_le_succ hexchange.split)
      (insertDown_things i) (fun _ _ => rfl) rfl rfl rfl
  · have hdown' := h.isAlwaysOnTop_self.trans hdown
    exact (h.sections.trans (insertDown_sections hdown')).updateTileFlags i false

theorem Cleared.placed_kind (h : Cleared s t i old) (hi : i ∉ s.things)
    (hroom : s.thingCount < maxIndex) (hdown : (s.item i).isAlwaysOnTop = false)
    (kind : TileKind) :
    Placed s (((t.setItem i { t.item i with kind := kind }).insertDown i).updateTileFlags i false)
      old i { s.item i with kind := kind } := by
  obtain ⟨rest, hexchange⟩ := h.exchange
  have hself : (t.setItem i { t.item i with kind := kind }).item i =
      { t.item i with kind := kind } := setItem_self _ _
  refine ⟨rest, ?_, ?_, fun hsame => ?_⟩
  · refine exchange_insertion hi hroom hexchange ?_ (Nat.succ_le_succ hexchange.split)
      (insertDown_things i) (fun x hx => setItem_other hx _) rfl rfl rfl
    change ((t.setItem i { t.item i with kind := kind }).item i).parent = _
    rw [hself]
    exact h.parent_self
  · change ((t.setItem i { t.item i with kind := kind }).item i).shows = _
    rw [hself, h.self]
    exact shows_setParent { s.item i with kind := kind } .here
  · have hset := h.sections.setItem (hexchange.not_mem hi) { t.item i with kind := kind }
    have hdown' : ((t.setItem i { t.item i with kind := kind }).item i).isAlwaysOnTop = false := by
      rw [hself]
      exact hsame.trans hdown
    exact (hset.trans (insertDown_sections hdown')).updateTileFlags i false

end Cleared

theorem addThing_admits (hs : s.Sound) {i : ItemId} (hi : i ∉ s.things) (hadmits : s.Admits i)
    (hwhole : s.ReplacesWhole i) {destination : Option (TileFlag → Bool)}
    (h : s.addThing kinds i destination = some s') :
    ∃ item, s.arriving kinds i = some item ∧ Placed s s' (s.displaced i) i item := by
  have hwhole := hwhole hadmits
  obtain ⟨hforwarder, hroom, hlength, hfield⟩ := hadmits
  have hlt := lt_maxIndex_of_room hroom
  have harrive (hnot : ¬ s.BecomesWaterball i) : s.arriving kinds i = some (s.item i) :=
    if_neg hnot
  unfold addThing at h
  dsimp only at h
  rw [if_neg (by rw [hforwarder]; decide), if_neg (by rw [hroom]; decide),
    if_neg (Nat.not_le_of_lt hlength)] at h
  by_cases hground : (s.item i).isGroundTile = true
  · -- the ground
    rw [if_pos hground] at h
    have hdisplaced : s.displaced i = s.ground := if_pos hground
    refine ⟨s.item i, harrive fun hb => ?_, ?_⟩
    · exact absurd (hground.symm.trans hb.1) Bool.false_ne_true.symm
    rw [hdisplaced]
    cases hold : s.ground with
    | none =>
      have hold' : (s.setParent i .here).ground = none := hold
      rw [hold'] at h
      cases h
      exact placed_ground hs.split hi hlt hold
    | some g =>
      have hold' : (s.setParent i .here).ground = some g := hold
      rw [hold'] at h
      cases h
      exact placed_ground_instead hs hi hold
  have hnot : (s.item i).isGroundTile = false := (Bool.not_eq_true _).mp hground
  have hdisplaced : s.displaced i = s.oldItem i := if_neg hground
  have hcleared := removeOldItem_cleared hs hi (hwhole hnot)
  rw [if_neg hground] at h
  rw [hdisplaced]
  by_cases htop : (s.item i).isAlwaysOnTop = true
  · -- on top
    rw [if_pos htop] at h
    cases h
    refine ⟨s.item i, harrive fun hb => ?_, hcleared.placed_top hi hlt htop List.findIdx_le_length⟩
    exact absurd (htop.symm.trans hb.2.1) Bool.false_ne_true.symm
  have hdown : (s.item i).isAlwaysOnTop = false := (Bool.not_eq_true _).mp htop
  -- the field that is in the way can be replaced
  have hreplaceable : (s.oldItem i).any
      (fun field => !((s.setParent i .here).item field).isReplaceable) = false := by
    have hfield := hfield hnot hdown
    cases hold : s.oldItem i with
    | none => rfl
    | some o =>
      have hoi : o ≠ i := by
        rintro rfl
        exact hi (hwhole hnot o hold).mem
      rw [hold] at hfield
      change (!((s.setParent i .here).item o).isReplaceable) = false
      rw [TileState.setParent, setItem_other hoi]
      exact hfield
  rw [if_neg htop, hreplaceable, if_neg Bool.false_ne_true] at h
  have htrash := hcleared.trashHolder hdown
  by_cases hwater : s.BecomesWaterball i
  · -- a waterball splash
    rw [if_pos ⟨hwater.2.2.1, htrash.trans hwater.2.2.2⟩] at h
    unfold arriving
    rw [if_pos hwater]
    cases hkind : kinds itemWaterball with
    | none =>
      rw [hkind] at h
      cases h
    | some waterball =>
      rw [hkind] at h
      cases h
      exact ⟨_, rfl, hcleared.placed_kind hi hlt hdown waterball⟩
  · -- any other item that is not on top
    rw [if_neg fun hb => hwater ⟨hnot, hdown, hb.1, htrash.symm.trans hb.2⟩] at h
    cases h
    exact ⟨s.item i, harrive hwater, hcleared.placed_down hi hlt hdown⟩

/-- An early return leaves at most the parent of the item changed. -/
theorem addThing_refused {i : ItemId} (hforwarder : s.isForwarder = false) (h : ¬ s.Admits i)
    {destination : Option (TileFlag → Bool)} (hadd : s.addThing kinds i destination = some s') :
    s' = s ∨ s' = (s.setParent i .here).setParent i .nowhere := by
  unfold addThing at hadd
  dsimp only at hadd
  rw [if_neg (by rw [hforwarder]; decide)] at hadd
  by_cases hroom : s.hasRoomForItem = true
  swap
  · rw [if_pos (by rw [(Bool.not_eq_true _).mp hroom]; rfl)] at hadd
    cases hadd
    exact .inl rfl
  by_cases hlength : s.items.length < 0xFFFF
  swap
  · rw [if_neg (by rw [hroom]; decide), if_pos (Nat.le_of_not_lt hlength)] at hadd
    cases hadd
    exact .inl rfl
  rw [if_neg (by rw [hroom]; decide), if_neg (Nat.not_le_of_lt hlength)] at hadd
  -- only a magic field that cannot be replaced is left
  by_cases hground : (s.item i).isGroundTile = true
  · exact absurd ⟨hforwarder, hroom, hlength, fun hg => by rw [hg] at hground; cases hground⟩ h
  by_cases htop : (s.item i).isAlwaysOnTop = true
  · exact absurd ⟨hforwarder, hroom, hlength, fun _ ht => by rw [ht] at htop; cases htop⟩ h
  rw [if_neg hground, if_neg htop] at hadd
  have hfield : (s.oldItem i).any (fun field => !(s.item field).isReplaceable) = true := by
    cases hany : (s.oldItem i).any fun field => !(s.item field).isReplaceable with
    | true => rfl
    | false => exact absurd ⟨hforwarder, hroom, hlength, fun _ _ => hany⟩ h
  have hreplaceable (x : ItemId) : ((s.setParent i .here).item x).isReplaceable =
      (s.item x).isReplaceable := by
    by_cases hx : x = i
    · rw [hx, TileState.setParent, setItem_self]
      rfl
    · rw [TileState.setParent, setItem_other hx]
  simp only [hreplaceable, hfield, if_true] at hadd
  cases hadd
  exact .inr rfl

/-! ## Updating and replacing -/

theorem setSubType_eq (item : TileItem) (n : ℕ) :
    item.setSubType n = item ∨ item.setSubType n = { item with count := n % 256 } := by
  unfold TileItem.setSubType
  split_ifs
  · exact .inl rfl
  · exact .inl rfl
  · exact .inr rfl

theorem update_parent (item : TileItem) (kind : TileKind) (n : ℕ) :
    (item.update kind n).parent = item.parent := by
  unfold TileItem.update
  rcases setSubType_eq { item with kind := kind } n with h | h <;> rw [h]

theorem update_kind (item : TileItem) (kind : TileKind) (n : ℕ) :
    (item.update kind n).kind = kind := by
  unfold TileItem.update
  rcases setSubType_eq { item with kind := kind } n with h | h <;> rw [h]

theorem updateThing_updates (hs : s.Sound) {i : ItemId} (hi : i ∈ s.things) {kindId : KindId}
    {kind : TileKind} (hkind : kinds kindId = some kind) (count : ℕ) :
    (∃ rest, Exchange s (s.updateThing kinds i kindId count) (some i) (some i) rest) ∧
      (s.updateThing kinds i kindId count).item i = (s.item i).update kind count ∧
      (kind.alwaysOnTop = (s.item i).isAlwaysOnTop →
        Sections s (s.updateThing kinds i kindId count)) := by
  have hparent : ((s.item i).update kind count).parent = .here := by
    rw [update_parent]
    exact hs.parent i hi
  unfold updateThing
  rw [if_neg (not_not_intro hi), hkind]
  refine ⟨⟨_, exchange_change hs (List.perm_cons_erase hi) hparent⟩, ?_, ?_⟩
  · exact setItem_self i _
  · intro hsame
    refine .of_top (fun _ hx => hx) (fun _ hx => hx) ?_
    apply isAlwaysOnTop_setItem (s := s.updateTileFlags i true)
    unfold TileItem.isAlwaysOnTop
    rw [update_kind]
    exact hsame

theorem updateThing_other {i : ItemId} {kindId : KindId} (count : ℕ)
    (h : i ∈ s.things → kinds kindId = none) : s.updateThing kinds i kindId count = s := by
  unfold updateThing
  by_cases hi : i ∈ s.things
  · rw [if_neg (not_not_intro hi), h hi]
  · rw [if_pos hi]

/-- The item that `Tile::__replaceThing` finds behind the ground. -/
def itemAt (s : TileState) (pos : ℕ) : Option ItemId :=
  match s.topItems[pos]? with
  | some top => some top
  | none =>
    let pos := pos - s.topItems.length
    if pos < s.creatures.length then none else s.downItems[pos - s.creatures.length]?

/-- The thing that `Tile::__replaceThing` finds at an index. -/
def atIndex (s : TileState) (index : ℕ) : Option ItemId :=
  match s.ground, index with
  | some ground, 0 => some ground
  | some _, pos + 1 => s.itemAt pos
  | none, pos => s.itemAt pos

/-- One entry of a list becomes another one. -/
theorem set_perm {l : List ItemId} {k : ℕ} {o : ItemId} (h : l[k]? = some o) (i : ItemId) :
    l.Perm (o :: l.eraseIdx k) ∧ (l.set k i).Perm (i :: l.eraseIdx k) := by
  obtain ⟨hk, rfl⟩ := List.getElem?_eq_some_iff.mp h
  exact ⟨(List.getElem_cons_eraseIdx_perm hk).symm, List.set_perm_cons_eraseIdx hk i⟩

/-- The second half of `Tile::__replaceThing`, once the one thing is in the place of the other. -/
theorem replaced_exchange {t : TileState} {o i : ItemId} {rest : List ItemId} (hs : s.Sound)
    (hi : i ∉ s.things) (hsplit : t.Split) (hbefore : s.things.Perm (o :: rest))
    (hafter : t.things.Perm (i :: rest)) (hitem : t.item = s.item)
    (hcreatures : t.creatures = s.creatures) (hcount : t.thingCount = s.thingCount)
    (hflags : t.flags = s.flags) :
    Exchange s (t.replaced o i) (some o) (some i) rest ∧
      ((t.replaced o i).item i).shows = (s.item i).shows := by
  have ho : o ∉ rest := (List.nodup_cons.mp (hbefore.nodup_iff.mp hs.nodup)).1
  have hoi : o ≠ i := by
    rintro rfl
    exact hi (hbefore.mem_iff.mpr List.mem_cons_self)
  have hself : (t.setParent i .here).item i = { s.item i with parent := .here } := by
    rw [← hitem]
    exact setItem_self i _
  have hother (x : ItemId) (hx : x ≠ i) : (t.setParent i .here).item x = s.item x := by
    rw [← hitem]
    exact setItem_other hx _
  -- the thing that is replaced is not on the tile any more when its parent is set
  have hgone : o ∉ t.things := by
    intro hmem
    rcases List.mem_cons.mp (hafter.mem_iff.mp hmem) with heq | hmem
    · exact hoi heq
    · exact ho hmem
  constructor
  · have hswap : Exchange s (((t.setParent i .here).updateTileFlags o true).updateTileFlags i false)
        (some o) (some i) rest := by
      apply exchange_swap (t := t.setParent i .here) hs hi hsplit hbefore hafter
      · exact fun x hx _ => hother x hx
      · rw [hother o hoi]
      · rw [hself]
      · exact hcreatures
      · exact hcount
      · exact hflags
    exact hswap.setParent hgone .nowhere
  · have hlast : (t.replaced o i).item i = (t.setParent i .here).item i := by
      unfold replaced
      exact setItem_other (Ne.symm hoi) _
    rw [hlast, hself]
    exact shows_setParent _ _

/-- The thing that is replaced was as much on top as the one that takes its place. -/
theorem replaced_sections {t : TileState} {o i : ItemId} (hitem : t.item = s.item)
    (hdown : ∀ x ∈ t.downItems, x ∈ s.downItems ∨ x = i ∧ (s.item i).isAlwaysOnTop = false)
    (htop : ∀ x ∈ t.topItems, x ∈ s.topItems ∨ x = i ∧ (s.item i).isAlwaysOnTop = true) :
    Sections s (t.replaced o i) := by
  have hsame (x : ItemId) : ((t.replaced o i).item x).isAlwaysOnTop =
      (s.item x).isAlwaysOnTop := by
    calc ((t.replaced o i).item x).isAlwaysOnTop
        = ((t.setParent i .here).item x).isAlwaysOnTop := isAlwaysOnTop_setParent o .nowhere x
      _ = (t.item x).isAlwaysOnTop := isAlwaysOnTop_setParent i .here x
      _ = (s.item x).isAlwaysOnTop := by rw [hitem]
  constructor
  · intro x hx
    rw [hsame]
    rcases hdown x hx with hx | ⟨rfl, hx⟩
    · exact .inl ⟨hx, rfl⟩
    · exact .inr hx
  · intro x hx
    rw [hsame]
    rcases htop x hx with hx | ⟨rfl, hx⟩
    · exact .inl ⟨hx, rfl⟩
    · exact .inr hx

theorem replaceItem_replaces (hs : s.Sound) {i : ItemId} (hi : i ∉ s.things) {pos : ℕ}
    {o : ItemId} (ho : s.itemAt pos = some o) :
    (∃ rest, Exchange s (s.replaceItem pos i) (some o) (some i) rest) ∧
      ((s.replaceItem pos i).item i).shows = (s.item i).shows ∧
      (s.Sorted → (s.item i).isAlwaysOnTop = (s.item o).isAlwaysOnTop →
        Sections s (s.replaceItem pos i)) := by
  -- the ground stays
  have hthings {l rest : List ItemId} (h : s.items.Perm (o :: rest)) (h' : l.Perm (i :: rest)) :
      s.things.Perm (o :: (s.ground.toList ++ rest)) ∧
        (s.ground.toList ++ l).Perm (i :: (s.ground.toList ++ rest)) :=
    ⟨(h.append_left _).trans List.perm_middle, (h'.append_left _).trans List.perm_middle⟩
  unfold itemAt at ho
  unfold replaceItem
  cases htop : s.topItems[pos]? with
  | some top =>
    -- an item on top
    rw [htop] at ho
    cases ho
    obtain ⟨hbefore, hafter⟩ := set_perm htop i
    have hold : s.items.Perm (o :: (s.downItems ++ s.topItems.eraseIdx pos)) := by
      rw [← downItems_append_topItems]
      exact (hbefore.append_left _).trans List.perm_middle
    have hnew : (s.downItems ++ s.topItems.set pos i).Perm
        (i :: (s.downItems ++ s.topItems.eraseIdx pos)) :=
      (hafter.append_left _).trans List.perm_middle
    obtain ⟨hsplit, hdown, htops⟩ := split_of_append
      (s := { s with items := s.downItems ++ s.topItems.set pos i }) rfl
      hs.split.length_downItems.symm
    have hexchange := replaced_exchange hs hi hsplit (hthings hold hnew).1 (hthings hold hnew).2
      rfl rfl rfl rfl
    refine ⟨⟨_, hexchange.1⟩, hexchange.2, fun hsorted hsame => ?_⟩
    refine replaced_sections (s := s) rfl ?_ ?_
    · intro x hx
      rw [hdown] at hx
      exact .inl hx
    · intro x hx
      rw [htops] at hx
      rcases List.mem_or_eq_of_mem_set hx with hx | hx
      · exact .inl hx
      · exact .inr ⟨hx, hsame.trans (hsorted.top o (List.mem_of_getElem? htop))⟩
  | none =>
    -- another item
    rw [htop] at ho
    dsimp only at ho ⊢
    by_cases hcreatures : pos - s.topItems.length < s.creatures.length
    · rw [if_pos hcreatures] at ho
      cases ho
    rw [if_neg hcreatures] at ho ⊢
    rw [ho]
    dsimp only
    generalize pos - s.topItems.length - s.creatures.length = pos at ho
    obtain ⟨hbefore, hafter⟩ := set_perm ho i
    have hold : s.items.Perm (o :: (s.downItems.eraseIdx pos ++ s.topItems)) := by
      rw [← downItems_append_topItems]
      exact hbefore.append_right _
    have hnew : (s.downItems.set pos i ++ s.topItems).Perm
        (i :: (s.downItems.eraseIdx pos ++ s.topItems)) :=
      hafter.append_right _
    obtain ⟨hsplit, hdown, htops⟩ := split_of_append
      (s := { s with items := s.downItems.set pos i ++ s.topItems }) rfl
      (hs.split.length_downItems.symm.trans List.length_set.symm)
    have hexchange := replaced_exchange hs hi hsplit (hthings hold hnew).1 (hthings hold hnew).2
      rfl rfl rfl rfl
    refine ⟨⟨_, hexchange.1⟩, hexchange.2, fun hsorted hsame => ?_⟩
    refine replaced_sections (s := s) rfl ?_ ?_
    · intro x hx
      rw [hdown] at hx
      rcases List.mem_or_eq_of_mem_set hx with hx | hx
      · exact .inl hx
      · exact .inr ⟨hx, hsame.trans (hsorted.down o (List.mem_of_getElem? ho))⟩
    · intro x hx
      rw [htops] at hx
      exact .inl hx

theorem replaceItem_other {pos : ℕ} (h : s.itemAt pos = none) (i : ItemId) :
    s.replaceItem pos i = s := by
  unfold itemAt at h
  unfold replaceItem
  cases htop : s.topItems[pos]? with
  | some top =>
    rw [htop] at h
    cases h
  | none =>
    rw [htop] at h
    dsimp only at h ⊢
    by_cases hcreatures : pos - s.topItems.length < s.creatures.length
    · rw [if_pos hcreatures]
    · rw [if_neg hcreatures] at h ⊢
      rw [h]

theorem replaceThing_replaces (hs : s.Sound) {i : ItemId} (hi : i ∉ s.things) {index : ℕ}
    {o : ItemId} (ho : s.atIndex index = some o) :
    (∃ rest, Exchange s (s.replaceThing index i) (some o) (some i) rest) ∧
      ((s.replaceThing index i).item i).shows = (s.item i).shows ∧
      (s.Sorted → (s.item i).isAlwaysOnTop = (s.item o).isAlwaysOnTop →
        Sections s (s.replaceThing index i)) := by
  -- the ground has index 0, if there is one
  unfold atIndex at ho
  unfold replaceThing
  cases hground : s.ground with
  | none =>
    rw [hground] at ho
    exact replaceItem_replaces hs hi ho
  | some g =>
    rw [hground] at ho
    cases index with
    | succ pos => exact replaceItem_replaces hs hi ho
    | zero =>
      cases ho
      have hbefore : s.things.Perm (o :: s.items) := by
        unfold things
        rw [hground]
        exact .refl _
      have hexchange := replaced_exchange (t := { s with ground := some i }) hs hi hs.split hbefore
        (.refl _) rfl rfl rfl rfl
      refine ⟨⟨_, hexchange.1⟩, hexchange.2, fun _ _ => ?_⟩
      exact replaced_sections rfl (fun _ hx => .inl hx) (fun _ hx => .inl hx)

theorem replaceThing_other {index : ℕ} (h : s.atIndex index = none) (i : ItemId) :
    s.replaceThing index i = s := by
  unfold atIndex at h
  unfold replaceThing
  cases hground : s.ground with
  | none =>
    rw [hground] at h
    exact replaceItem_other h i
  | some g =>
    rw [hground] at h
    cases index with
    | succ pos => exact replaceItem_other h i
    | zero => cases h

end TileState

end TyanoCore
