import TyanoCore.TileExchange

/-!
# Runs of a tile

Operations on one tile in any order.  Whatever the operation, at most one thing goes and at most one
comes, and both are known beforehand.
-/

namespace TyanoCore

open Transition

variable {kinds : KindId → Option TileKind} {s s' : TileState}

/-! ## Actions -/

inductive TileAction where
  | internalAddThing (i : ItemId)
  | addThing (i : ItemId) (destination : Option (TileFlag → Bool))
  | updateThing (i : ItemId) (kindId : KindId) (count : ℕ)
  | replaceThing (index : ℕ) (i : ItemId)
  | removeThing (i : ItemId) (count : ℕ)
  | addCreature (creature : ℕ) (admitted : Bool)
  | removeCreature (creature : ℕ)
  /-- Anything happens to an item that is not on the tile. -/
  | elsewhere (i : ItemId) (item : TileItem)

namespace TileAction

/-- What the operations assert about the parent of an item.  Only a new item replaces another one,
at an index that is a signed number, and a forwarder sends creatures to another tile. -/
def Asserts (s : TileState) : TileAction → Prop
  | internalAddThing i => (s.item i).parent = .nowhere
  | addThing i _ => (s.item i).parent = .nowhere ∨ (s.item i).parent = .virtualCylinder
  | replaceThing index i => index < 2 ^ 31 ∧ (s.item i).parent = .nowhere
  | removeThing i _ => (s.item i).parent = .here
  | addCreature _ _ => s.isForwarder = false
  | elsewhere i item => i ∉ s.things ∧ item.parent ≠ .here
  | _ => True

def run (kinds : KindId → Option TileKind) (s : TileState) : TileAction → Option TileState
  | internalAddThing i => some (s.internalAddThing i)
  | addThing i destination => s.addThing kinds i destination
  | updateThing i kindId count => some (s.updateThing kinds i kindId count)
  | replaceThing index i => some (s.replaceThing index i)
  | removeThing i count => some (s.removeThing i count)
  | addCreature creature admitted => some (s.addCreature creature admitted)
  | removeCreature creature => some (s.removeCreature creature)
  | elsewhere i item => some (s.setItem i item)

/-- The thing that leaves the tile, or changes there. -/
def goes (kinds : KindId → Option TileKind) (s : TileState) : TileAction → Option ItemId
  | addThing i _ => if s.Admits i then s.displaced i else none
  | updateThing i kindId _ => if i ∈ s.things ∧ (kinds kindId).isSome then some i else none
  | replaceThing index _ => s.atIndex index
  | removeThing i count => if s.Leaves i count ∨ s.Shrinks i count then some i else none
  | _ => none

/-- The thing that comes, or what the other one changes to. -/
def comes (kinds : KindId → Option TileKind) (s : TileState) : TileAction → Option TileItem
  | internalAddThing i => if s.AdmitsInternal i then some (s.item i) else none
  | addThing i _ => if s.Admits i then s.arriving kinds i else none
  | updateThing i kindId count =>
    if i ∈ s.things then (kinds kindId).map fun kind => (s.item i).update kind count else none
  | replaceThing index i => (s.atIndex index).map fun _ => s.item i
  | removeThing i count => if s.Shrinks i count then some (s.item i) else none
  | _ => none

/-- A tile with a floor change in no direction forwards an item to one that has a direction. -/
def LearnsDirection (s : TileState) : TileAction → Prop
  | addThing _ destination =>
    s.isLocalForwarder = true ∧ TileState.lateralChange s.flags = none ∧
      s.flags .floorChangeResolved = false ∧
      ∃ flags, destination = some flags ∧ flags .floorChange = true ∧
        (TileState.lateralChange flags).isSome
  | _ => False

/-- The old splash or magic field is taken from the tile as a whole. -/
def ReplacesWhole (s : TileState) : TileAction → Prop
  | addThing i _ => s.ReplacesWhole i
  | _ => True

/-- An item that comes, changes or takes the place of another one is as much on top as before. -/
def KeepsTop (kinds : KindId → Option TileKind) (s : TileState) : TileAction → Prop
  | addThing i _ => ∀ item, s.arriving kinds i = some item →
      item.isAlwaysOnTop = (s.item i).isAlwaysOnTop
  | updateThing i kindId _ => ∀ kind, kinds kindId = some kind →
      kind.alwaysOnTop = (s.item i).isAlwaysOnTop
  | replaceThing index i => ∀ o, s.atIndex index = some o →
      (s.item i).isAlwaysOnTop = (s.item o).isAlwaysOnTop
  | _ => True

end TileAction

def tileSystem (kinds : KindId → Option TileKind) : System TileState TileAction where
  init s := ∃ item : ItemId → TileItem, (∀ i, (item i).parent ≠ .here) ∧ s = { item }
  step s a s' := a.Asserts s ∧ a.run kinds s = some s'

namespace TileState

/-! ## Steps -/

/-- No thing comes or goes. -/
structure Still (s s' : TileState) : Prop where
  ground : s'.ground = s.ground
  items : s'.items = s.items
  downItemCount : s'.downItemCount = s.downItemCount
  item : ∀ i ∈ s.things, s'.item i = s.item i
  counted : s.thingCount = s.things.length + s.creatures.length →
    s'.thingCount = s.things.length + s'.creatures.length
  bounded : s.thingCount ≤ maxIndex → s'.thingCount ≤ maxIndex

theorem Still.things (h : Still s s') : s'.things = s.things := by
  unfold TileState.things
  rw [h.ground, h.items]

theorem Still.sound (h : Still s s') (hs : s.Sound) : s'.Sound := by
  constructor
  · unfold Split
    rw [h.downItemCount, h.items]
    exact hs.split
  · rw [h.things]
    exact hs.nodup
  · intro i hi
    rw [h.things] at hi
    rw [h.item i hi]
    exact hs.parent i hi
  · rw [h.things]
    exact h.counted hs.counted
  · exact h.bounded hs.bounded

theorem Still.sorted (h : Still s s') (hs : s.Sorted) : s'.Sorted := by
  have hdown : s'.downItems = s.downItems := by
    unfold downItems
    rw [h.items, h.downItemCount]
  have htop : s'.topItems = s.topItems := by
    unfold topItems
    rw [h.items, h.downItemCount]
  constructor
  · intro x hx
    rw [hdown] at hx
    rw [h.item x (mem_things_iff.mpr (.inr (.inl hx)))]
    exact hs.down x hx
  · intro x hx
    rw [htop] at hx
    rw [h.item x (mem_things_iff.mpr (.inr (.inr hx)))]
    exact hs.top x hx

theorem Still.refl (s : TileState) : Still s s :=
  ⟨rfl, rfl, rfl, fun _ _ => rfl, id, id⟩

theorem Still.setItem {i : ItemId} (hi : i ∉ s.things) (item : TileItem) :
    Still s (s.setItem i item) := by
  refine ⟨rfl, rfl, rfl, ?_, id, id⟩
  intro x hx
  have hxi : x ≠ i := fun heq => hi (heq ▸ hx)
  exact setItem_other hxi item

theorem Still.addCreature (creature : ℕ) (admitted : Bool) :
    Still s (s.addCreature creature admitted) := by
  unfold TileState.addCreature
  split
  · exact .refl s
  split
  · exact .refl s
  · next h =>
    have hroom : s.thingCount < maxIndex := Nat.lt_of_not_le fun hle => h (.inr (.inr hle))
    refine ⟨rfl, rfl, rfl, fun _ _ => rfl, ?_, fun _ => hroom⟩
    intro hcounted
    change s.thingCount + 1 = s.things.length + (s.creatures ++ [creature]).length
    rw [List.length_append, List.length_singleton]
    omega

theorem Still.removeCreature (creature : ℕ) : Still s (s.removeCreature creature) := by
  unfold TileState.removeCreature
  split
  · exact .refl s
  · next h =>
    have hmem : creature ∈ s.creatures := not_not.mp h
    have hpos := List.length_pos_of_mem hmem
    refine ⟨rfl, rfl, rfl, fun _ _ => rfl, ?_, fun hle => Nat.le_trans (Nat.sub_le _ _) hle⟩
    intro hcounted
    change s.thingCount - 1 = s.things.length + (s.creatures.erase creature).length
    rw [List.length_erase_of_mem hmem]
    omega

/-- What a step leaves: the thing that comes shows what it was expected to, or no thing comes or
goes and at most a direction is learnt. -/
structure Outcome (kinds : KindId → Option TileKind) (s : TileState) (a : TileAction)
    (s' : TileState) : Prop where
  moves : (∃ comes rest, Exchange s s' (a.goes kinds s) comes rest ∧
      (∀ i, comes = some i → i ∉ rest) ∧
      comes.map (fun i => (s'.item i).shows) = (a.comes kinds s).map TileItem.shows) ∨
    a.goes kinds s = none ∧ a.comes kinds s = none ∧ Still s s' ∧
      ∀ f, f ≠ .floorChangeResolved →
        (∀ change, f = .floorChangeTo change → ¬ a.LearnsDirection s) → s'.flags f = s.flags f
  sorted : a.KeepsTop kinds s → s.Sorted → s'.Sorted

theorem Outcome.sound {a : TileAction} (h : Outcome kinds s a s') (hs : s.Sound) : s'.Sound := by
  rcases h.moves with ⟨comes, rest, hexchange, hnew, -⟩ | ⟨-, -, hstill, -⟩
  · exact hexchange.sound hs hnew
  · exact hstill.sound hs

/-- Nothing comes, nothing goes and no flag changes. -/
theorem Outcome.of_still {a : TileAction} (hgoes : a.goes kinds s = none)
    (hcomes : a.comes kinds s = none) (h : Still s s') (hflags : s'.flags = s.flags) :
    Outcome kinds s a s' := by
  constructor
  · exact .inr ⟨hgoes, hcomes, h, fun f _ _ => congrFun hflags f⟩
  · exact fun _ hsorted => h.sorted hsorted

/-! ## The operations -/

theorem internalAddThing_outcome (hs : s.Sound) {i : ItemId} (hi : (s.item i).parent = .nowhere) :
    Outcome kinds s (.internalAddThing i) (s.internalAddThing i) := by
  have hnot : i ∉ s.things := by
    apply hs.not_mem
    rw [hi]
    decide
  by_cases h : s.AdmitsInternal i
  · have hcomes : TileAction.comes kinds s (.internalAddThing i) = some (s.item i) := if_pos h
    obtain ⟨hexchange, hsections, hshows⟩ := internalAddThing_admits hs hnot h
    constructor
    · refine .inl ⟨some i, s.things, hexchange, ?_, ?_⟩
      · rintro x hx
        cases hx
        exact hnot
      · rw [hcomes]
        exact congrArg some hshows
    · exact fun _ => hsections.sorted
  · rw [internalAddThing_refused h]
    -- the early returns leave everything as it is
    exact .of_still rfl (if_neg h) (.refl s) rfl

theorem resolveForwarding_eq (destination : Option (TileFlag → Bool)) :
    s.resolveForwarding destination = s ∨
      s.resolveForwarding destination = s.setFlag .floorChangeResolved ∨
      ∃ change, (∀ i, TileAction.LearnsDirection s (.addThing i destination)) ∧
        s.resolveForwarding destination =
          (s.setFlag .floorChangeResolved).setFlag (.floorChangeTo change) := by
  unfold resolveForwarding
  split
  · exact .inl rfl
  next hunresolved =>
  simp only [Bool.or_eq_true, Bool.not_eq_true', not_or, Bool.not_eq_true,
    Bool.not_eq_false, Option.isSome_eq_false_iff, Option.isNone_iff_eq_none] at hunresolved
  obtain ⟨⟨hforwarder, hdirection⟩, hresolved⟩ := hunresolved
  cases destination with
  | none => exact .inl rfl
  | some flags =>
    dsimp only
    -- the tile there has a direction only if it has a floor change
    cases hchange : if flags .floorChange = true then lateralChange flags else none with
    | none => exact .inr (.inl rfl)
    | some change =>
      refine .inr (.inr ⟨change.opposite, fun i => ?_, rfl⟩)
      refine ⟨hforwarder, hdirection, hresolved, flags, rfl, ?_⟩
      split at hchange
      · next hfloor => exact ⟨hfloor, Option.isSome_of_eq_some hchange⟩
      · cases hchange

theorem setFlag_other {f g : TileFlag} (h : g ≠ f) : (s.setFlag f).flags g = s.flags g := by
  change (decide (g = f) || s.flags g) = s.flags g
  rw [decide_eq_false h, Bool.false_or]

/-- Forwarding changes no more than the directions of the floor change. -/
theorem resolveForwarding_outcome (hforwarder : s.isForwarder = true) (i : ItemId)
    (destination : Option (TileFlag → Bool)) :
    Outcome kinds s (.addThing i destination) (s.resolveForwarding destination) := by
  have hrefused : ¬ s.Admits i := by
    intro h
    rw [h.1] at hforwarder
    cases hforwarder
  have hstill : Still s (s.resolveForwarding destination) := by
    rcases resolveForwarding_eq (s := s) destination with h | h | ⟨change, -, h⟩
    · rw [h]
      exact .refl s
    · rw [h]
      exact ⟨rfl, rfl, rfl, fun _ _ => rfl, id, id⟩
    · rw [h]
      exact ⟨rfl, rfl, rfl, fun _ _ => rfl, id, id⟩
  constructor
  · refine .inr ⟨if_neg hrefused, if_neg hrefused, hstill, ?_⟩
    intro f hresolved hdirection
    rcases resolveForwarding_eq (s := s) destination with h | h | ⟨change, hlearns, h⟩
    · rw [h]
    -- only `TILESTATE_FLOORCHANGE_RESOLVED` has been set
    · rw [h, setFlag_other hresolved]
    -- so has the direction that leads back
    · have hchange : f ≠ .floorChangeTo change := fun heq => hdirection change heq (hlearns i)
      rw [h, setFlag_other hchange, setFlag_other hresolved]
  · exact fun _ => hstill.sorted

theorem addThing_outcome (hs : s.Sound) {i : ItemId} (hi : (s.item i).parent ≠ .here)
    {destination : Option (TileFlag → Bool)} (hwhole : s.ReplacesWhole i)
    (h : s.addThing kinds i destination = some s') :
    Outcome kinds s (.addThing i destination) s' := by
  have hnot := hs.not_mem hi
  by_cases hforwarder : s.isForwarder = true
  · unfold addThing at h
    rw [if_pos hforwarder] at h
    cases h
    exact resolveForwarding_outcome hforwarder i destination
  by_cases hadmits : s.Admits i
  · have hgoes : TileAction.goes kinds s (.addThing i destination) = s.displaced i :=
      if_pos hadmits
    have hcomes : TileAction.comes kinds s (.addThing i destination) = s.arriving kinds i :=
      if_pos hadmits
    obtain ⟨item, harriving, rest, hexchange, hshows, hsections⟩ :=
      addThing_admits hs hnot hadmits hwhole h
    constructor
    · rw [hgoes, hcomes, harriving]
      refine .inl ⟨some i, rest, hexchange, ?_, congrArg some hshows⟩
      intro x hx
      cases hx
      exact fun hrest => hnot (hexchange.before.mem_iff.mpr (List.mem_append_right _ hrest))
    · exact fun hkeeps => (hsections (hkeeps item harriving)).sorted
  · rcases addThing_refused ((Bool.not_eq_true _).mp hforwarder) hadmits h with rfl | rfl
    · exact .of_still (if_neg hadmits) (if_neg hadmits) (.refl s') rfl
    · -- the parent of the item was set and taken back
      have hstill : Still s ((s.setParent i .here).setParent i .nowhere) := by
        refine ⟨rfl, rfl, rfl, ?_, id, id⟩
        intro x hx
        have hxi : x ≠ i := fun heq => hnot (heq ▸ hx)
        exact (setItem_other hxi _).trans (setItem_other hxi _)
      exact .of_still (if_neg hadmits) (if_neg hadmits) hstill rfl

theorem updateThing_outcome (hs : s.Sound) (i : ItemId) (kindId : KindId) (count : ℕ) :
    Outcome kinds s (.updateThing i kindId count) (s.updateThing kinds i kindId count) := by
  cases hkind : kinds kindId with
  | none =>
    rw [updateThing_other count fun _ => hkind]
    refine .of_still ?_ ?_ (.refl s) rfl
    · exact if_neg fun h => by rw [hkind] at h; cases h.2
    · change (if i ∈ s.things then (kinds kindId).map _ else none) = none
      rw [hkind, Option.map_none, ite_self]
  | some kind =>
    by_cases hi : i ∈ s.things
    · have hgoes : TileAction.goes kinds s (.updateThing i kindId count) = some i :=
        if_pos ⟨hi, by rw [hkind]; rfl⟩
      have hcomes : TileAction.comes kinds s (.updateThing i kindId count) =
          some ((s.item i).update kind count) := by
        change (if i ∈ s.things then (kinds kindId).map _ else none) = _
        rw [if_pos hi, hkind]
        rfl
      -- the item goes as it was and comes as it will be
      obtain ⟨⟨rest, hexchange⟩, hitem, hsections⟩ := updateThing_updates hs hi hkind count
      constructor
      · rw [hgoes, hcomes]
        refine .inl ⟨some i, rest, hexchange, ?_, congrArg some ?_⟩
        · intro x hx
          cases hx
          exact (List.nodup_cons.mp (hexchange.before.nodup_iff.mp hs.nodup)).1
        · exact congrArg TileItem.shows hitem
      · exact fun hkeeps => (hsections (hkeeps kind hkind)).sorted
    · rw [updateThing_other count fun hmem => absurd hmem hi]
      exact .of_still (if_neg fun h => hi h.1) (if_neg hi) (.refl s) rfl

theorem replaceThing_outcome (hs : s.Sound) {i : ItemId} (hi : (s.item i).parent = .nowhere)
    (index : ℕ) : Outcome kinds s (.replaceThing index i) (s.replaceThing index i) := by
  have hnot : i ∉ s.things := by
    apply hs.not_mem
    rw [hi]
    decide
  cases ho : s.atIndex index with
  | none =>
    rw [replaceThing_other ho]
    refine .of_still ho ?_ (.refl s) rfl
    change (s.atIndex index).map _ = none
    rw [ho]
    rfl
  | some o =>
    have hgoes : TileAction.goes kinds s (.replaceThing index i) = some o := ho
    have hcomes : TileAction.comes kinds s (.replaceThing index i) = some (s.item i) := by
      change (s.atIndex index).map _ = _
      rw [ho]
      rfl
    obtain ⟨⟨rest, hexchange⟩, hshows, hsections⟩ := replaceThing_replaces hs hnot ho
    constructor
    · rw [hgoes, hcomes]
      refine .inl ⟨some i, rest, hexchange, ?_, congrArg some hshows⟩
      intro x hx
      cases hx
      exact fun hrest => hnot (hexchange.before.mem_iff.mpr (List.mem_append_right _ hrest))
    · exact fun hkeeps hsorted => (hsections hsorted (hkeeps o ho)).sorted hsorted

theorem removeThing_outcome (hs : s.Sound) (i : ItemId) (count : ℕ) :
    Outcome kinds s (.removeThing i count) (s.removeThing i count) := by
  by_cases hleaves : s.Leaves i count
  · have hgoes : TileAction.goes kinds s (.removeThing i count) = some i := if_pos (.inl hleaves)
    -- what leaves as a whole does not stay as a part
    have hnot : ¬ s.Shrinks i count := by
      rintro ⟨hground, htop, -, hstack, hcount⟩
      rcases hleaves with h | h
      · exact hground h
      · rw [if_neg (by rw [htop]; decide)] at h
        exact h.2 ⟨hstack, hcount⟩
    have hcomes : TileAction.comes kinds s (.removeThing i count) = none := if_neg hnot
    obtain ⟨⟨rest, hexchange⟩, hsections⟩ := removeThing_leaves hs hleaves
    constructor
    · rw [hgoes, hcomes]
      refine .inl ⟨none, rest, hexchange, ?_, rfl⟩
      intro x hx
      cases hx
    · exact fun _ => hsections.sorted
  by_cases hshrinks : s.Shrinks i count
  · have hgoes : TileAction.goes kinds s (.removeThing i count) = some i := if_pos (.inr hshrinks)
    have hcomes : TileAction.comes kinds s (.removeThing i count) = some (s.item i) :=
      if_pos hshrinks
    obtain ⟨⟨rest, hexchange⟩, hsections, hshows⟩ := removeThing_shrinks hs hshrinks
    constructor
    · rw [hgoes, hcomes]
      refine .inl ⟨some i, rest, hexchange, ?_, congrArg some hshows⟩
      intro x hx
      cases hx
      exact (List.nodup_cons.mp (hexchange.before.nodup_iff.mp hs.nodup)).1
    · exact fun _ => hsections.sorted
  · rw [removeThing_other hleaves hshrinks]
    refine .of_still (if_neg ?_) (if_neg hshrinks) (.refl s) rfl
    exact not_or.mpr ⟨hleaves, hshrinks⟩

/-- Every operation, on a tile in order. -/
theorem step_outcome (hs : s.Sound) {a : TileAction} (hwhole : a.ReplacesWhole s)
    (h : (tileSystem kinds).step s a s') : Outcome kinds s a s' := by
  -- one lemma for each operation; creatures and other places touch no thing on the tile
  obtain ⟨hasserts, hrun⟩ := h
  cases a with
  | internalAddThing i =>
    cases hrun
    exact internalAddThing_outcome hs hasserts
  | addThing i destination =>
    refine addThing_outcome hs ?_ hwhole hrun
    rcases hasserts with h | h
    · rw [h]
      decide
    · rw [h]
      decide
  | updateThing i kindId count =>
    cases hrun
    exact updateThing_outcome hs i kindId count
  | replaceThing index i =>
    cases hrun
    exact replaceThing_outcome hs hasserts.2 index
  | removeThing i count =>
    cases hrun
    exact removeThing_outcome hs i count
  | addCreature creature admitted =>
    cases hrun
    refine .of_still rfl rfl (.addCreature creature admitted) ?_
    unfold addCreature
    split_ifs <;> rfl
  | removeCreature creature =>
    cases hrun
    refine .of_still rfl rfl (.removeCreature creature) ?_
    unfold removeCreature
    split_ifs <;> rfl
  | elsewhere i item =>
    cases hrun
    exact .of_still rfl rfl (.setItem hasserts.1 item) rfl

end TileState

end TyanoCore
