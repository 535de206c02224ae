import TyanoCore.TileRun

/-!
# The vector of a tile

The count of the things and the border between the two sections are kept apart from the vector.
They agree with it on every tile that only ever replaces a magic field as a whole; a stack that was
a magic field once is not, and then the same item can lie on the tile twice.
-/

namespace TyanoCore

open Transition

variable {kinds : KindId → Option TileKind} {s s' : TileState}

namespace TileState

/-- The counts of a tile agree with its ground, its vector and its creatures. -/
structure WellStacked (s : TileState) : Prop where
  thingCount : s.thingCount =
    (if s.ground.isSome then 1 else 0) + s.items.length + s.creatures.length
  bounded : s.thingCount ≤ maxIndex
  downItemCount : s.downItemCount ≤ s.items.length
  down : s.items.take s.downItemCount = s.items.filter fun i => !(s.item i).isAlwaysOnTop
  top : s.items.drop s.downItemCount = s.items.filter fun i => (s.item i).isAlwaysOnTop
  nodup : s.things.Nodup

theorem Sorted.filter_down (hs : s.Sorted) :
    (s.items.filter fun i => !(s.item i).isAlwaysOnTop) = s.downItems := by
  have hdown : (s.downItems.filter fun i => !(s.item i).isAlwaysOnTop) = s.downItems := by
    apply List.filter_eq_self.mpr
    intro x hx
    rw [hs.down x hx]
    rfl
  have htop : (s.topItems.filter fun i => !(s.item i).isAlwaysOnTop) = [] := by
    apply List.filter_eq_nil_iff.mpr
    intro x hx
    rw [hs.top x hx]
    exact Bool.false_ne_true
  calc (s.items.filter fun i => !(s.item i).isAlwaysOnTop)
      = (s.downItems ++ s.topItems).filter fun i => !(s.item i).isAlwaysOnTop := by
        rw [downItems_append_topItems]
    _ = s.downItems := by rw [List.filter_append, hdown, htop, List.append_nil]

theorem Sorted.filter_top (hs : s.Sorted) :
    (s.items.filter fun i => (s.item i).isAlwaysOnTop) = s.topItems := by
  have hdown : (s.downItems.filter fun i => (s.item i).isAlwaysOnTop) = [] := by
    apply List.filter_eq_nil_iff.mpr
    intro x hx
    rw [hs.down x hx]
    exact Bool.false_ne_true
  have htop : (s.topItems.filter fun i => (s.item i).isAlwaysOnTop) = s.topItems :=
    List.filter_eq_self.mpr hs.top
  calc (s.items.filter fun i => (s.item i).isAlwaysOnTop)
      = (s.downItems ++ s.topItems).filter fun i => (s.item i).isAlwaysOnTop := by
        rw [downItems_append_topItems]
    _ = s.topItems := by rw [List.filter_append, hdown, htop, List.nil_append]

theorem Sound.wellStacked (hs : s.Sound) (hsorted : s.Sorted) : s.WellStacked := by
  constructor
  · rw [hs.counted]
    unfold things
    rw [List.length_append]
    cases s.ground <;> rfl
  · exact hs.bounded
  · exact hs.split
  · exact hsorted.filter_down.symm
  · exact hsorted.filter_top.symm
  · exact hs.nodup

/-! ## Runs -/

theorem init_sound (h : (tileSystem kinds).init s) : s.Sound ∧ s.Sorted := by
  obtain ⟨item, -, rfl⟩ := h
  constructor
  · refine ⟨Nat.le_refl _, List.nodup_nil, ?_, rfl, Nat.zero_le _⟩
    intro i hi
    cases hi
  · constructor
    · intro x hx
      cases hx
    · intro x hx
      cases hx

end TileState

/-- An item changes to one, or is replaced by one, that is as much on top and as much a ground. -/
def TileAction.KeepsPlace (kinds : KindId → Option TileKind) (s : TileState) : TileAction → Prop
  | updateThing i kindId _ => ∀ kind, kinds kindId = some kind →
      kind.alwaysOnTop = (s.item i).isAlwaysOnTop
  | replaceThing index i => ∀ o, s.atIndex index = some o →
      (s.item i).isAlwaysOnTop = (s.item o).isAlwaysOnTop ∧
        (s.item i).isGroundTile = (s.item o).isGroundTile
  | _ => True

/-- An item is not put on top, or taken from there, by turning into a waterball. -/
def TileAction.KeepsWaterball (kinds : KindId → Option TileKind) (s : TileState) :
    TileAction → Prop
  | addThing i _ => ∀ item, s.arriving kinds i = some item →
      item.isAlwaysOnTop = (s.item i).isAlwaysOnTop
  | _ => True

theorem TileAction.KeepsPlace.keepsTop {a : TileAction} (h : a.KeepsPlace kinds s)
    (hwaterball : a.KeepsWaterball kinds s) : a.KeepsTop kinds s := by
  cases a with
  | addThing i destination => exact hwaterball
  | updateThing i kindId count => exact h
  | replaceThing index i => exact fun o ho => (h o ho).1
  | _ => trivial

/-- In every run that keeps each thing in its place, and replaces splashes and magic fields as a
whole. -/
theorem tile_wellStacked (h : ((tileSystem kinds).restrict fun s a =>
    a.KeepsPlace kinds s ∧ a.ReplacesWhole s ∧ a.KeepsWaterball kinds s).Reachable s) :
    s.WellStacked := by
  have hboth : s.Sound ∧ s.Sorted := by
    apply h.invariant
    · exact fun s (hinit : (tileSystem kinds).init s) => TileState.init_sound hinit
    -- being in order and being sorted are kept together, step by step
    · rintro s a t ⟨hs, hsorted⟩ ⟨⟨hplace, hwhole, hwaterball⟩, hstep⟩
      have houtcome := TileState.step_outcome hs hwhole hstep
      exact ⟨houtcome.sound hs, houtcome.sorted (hplace.keepsTop hwaterball) hsorted⟩
  exact hboth.1.wellStacked hboth.2

namespace SmallTile

def fireField : TileKind := { id := 1487, type := .magicField, moveable := false }
def goldCoin : TileKind := { id := 2148, stackable := true, pickupable := true }

def someKinds (id : KindId) : Option TileKind :=
  [fireField, goldCoin].find? fun kind => kind.id = id

def field : TileItem := { kind := fireField, itemClass := .magicField }

/-- An empty tile, and items that are all alike. -/
def empty (item : TileItem) : TileState := { item := fun _ => item }

def act (s : TileState) (a : TileAction) : TileState := (a.run someKinds s).getD s

theorem empty_reachable {item : TileItem} (hitem : item.parent ≠ .here)
    (ok : TileState → TileAction → Prop) :
    ((tileSystem someKinds).restrict ok).Reachable (empty item) :=
  .init ⟨_, fun _ => hitem, rfl⟩

theorem act_reachable {ok : TileState → TileAction → Prop}
    (h : ((tileSystem someKinds).restrict ok).Reachable s) (a : TileAction) (hok : ok s a)
    (hasserts : a.Asserts s) (hrun : (a.run someKinds s).isSome) :
    ((tileSystem someKinds).restrict ok).Reachable (act s a) := by
  obtain ⟨t, ht⟩ := Option.isSome_iff_exists.mp hrun
  have hact : act s a = t := by
    unfold act
    rw [ht]
    rfl
  exact h.step ⟨hok, hasserts, ht.trans (congrArg some hact.symm)⟩

/-- Item 0 lies on the tile. -/
def fieldLaid : TileState := act (empty field) (.addThing 0 none)

/-- It is fifty gold coins now. -/
def coinsLaid : TileState := act fieldLaid (.updateThing 0 2148 50)

/-- Item 1 takes its place, so one coin is gone and the others are nowhere. -/
def coinsLeft : TileState := act coinsLaid (.addThing 1 none)

/-- They are laid on the tile where they lie. -/
def coinsTwice : TileState := act coinsLeft (.addThing 0 none)

end SmallTile

open SmallTile in
theorem tile_wellStacked_field : fieldLaid.WellStacked ∧ fieldLaid.items = [0] := by
  have hreach : ((tileSystem someKinds).restrict fun s a => a.KeepsPlace someKinds s ∧
      a.ReplacesWhole s ∧ a.KeepsWaterball someKinds s).Reachable fieldLaid := by
    refine act_reachable (empty_reachable (by decide) _) (.addThing 0 none) ⟨trivial, ?_, ?_⟩
      (.inl rfl) rfl
    · intro _ _ old hold
      cases hold
    · intro item hitem
      cases hitem
      rfl
  exact ⟨tile_wellStacked hreach, rfl⟩

open SmallTile in
/-- An item lies on the tile twice. -/
theorem tile_not_wellStacked : ¬ ∀ s,
    ((tileSystem someKinds).restrict (TileAction.KeepsPlace someKinds)).Reachable s →
      s.WellStacked := by
  intro h
  have hfield : ((tileSystem someKinds).restrict (TileAction.KeepsPlace someKinds)).Reachable
      fieldLaid :=
    act_reachable (empty_reachable (by decide) _) (.addThing 0 none) trivial (.inl rfl) rfl
  -- the item is of class `MagicField` and stackable now
  have hcoins := act_reachable hfield (.updateThing 0 2148 50)
    (fun kind hkind => by cases hkind; rfl) trivial rfl
  -- one coin is removed in place of the field, but the parent is taken from all of them
  have hleft := act_reachable hcoins (.addThing 1 none) trivial (.inl rfl) rfl
  have htwice := act_reachable hleft (.addThing 0 none) trivial (.inl rfl) rfl
  have hnodup : ¬ coinsTwice.things.Nodup := by decide
  exact hnodup (h coinsTwice htwice).nodup

end TyanoCore
