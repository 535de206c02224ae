import Mathlib.Data.List.Basic
import TyanoCore.TileThings

/-!
# Where the client has a thing of a tile

`ProtocolGame::GetTileDescription` sends the things of a tile in an order of their own and without
the creatures that the player does not see; `Tile::getClientIndexOfThing` counts up to a thing on
the tile itself.
-/

namespace TyanoCore

/-- An item or a creature of a tile. -/
inductive TileThing where
  | item (i : ItemId)
  | creature (c : ℕ)
deriving DecidableEq

namespace TileState

variable (s : TileState) (canSeeCreature : ℕ → Bool)

/-! ## Describing the things -/

/-- Whether assertions are compiled in, and what has been sent and counted before. -/
structure Description where
  assertions : Bool
  sent : List TileThing := []
  count : ℕ := 0

namespace Description

/-- Sends a thing and counts it. -/
def send (d : Description) (thing : TileThing) : Description :=
  { d with sent := d.sent ++ [thing], count := d.count + 1 }

/-- The loops over items and creatures assert that there is room before each thing, also before one
that is not sent. -/
def sendThings (sends : TileThing → Bool) : List TileThing → Description → Option Description
  | [], d => some d
  | thing :: things, d =>
    if d.assertions ∧ ¬ d.count < 10 then none
    else sendThings sends things (if sends thing then d.send thing else d)

end Description

/-- Whether the player sees a thing; items are always seen. -/
def sees : TileThing → Bool
  | .item _ => true
  | .creature c => canSeeCreature c

/-- The things that are sent, in their order; `none` when an assertion fails. -/
def GetTileDescription (assertions : Bool) : Option (List TileThing) := do
  let d : Description := { assertions }
  let d := match s.ground with
    | some ground => d.send (.item ground)
    | none => d
  let d ← Description.sendThings (fun _ => true) (s.topItems.map .item) d
  let d ← Description.sendThings (sees canSeeCreature) (s.creatures.map .creature) d
  let d ← Description.sendThings (fun _ => true) (s.downItems.map .item) d
  pure d.sent

/-! ## Counting up to a thing -/

/-- A loop that counts up to a thing and returns its index from within the loop. -/
def countTo (counts : TileThing → Bool) (thing : TileThing) : List TileThing → ℤ → Except ℤ ℤ
  | [], n => .ok n
  | t :: ts, n =>
    if t = thing then .error (n + 1) else countTo counts thing ts (if counts t then n + 1 else n)

def getTopItemCount : ℕ := s.items.length - s.downItemCount

/-- Both indexes are counted in the same three loops, from another start and with other creatures. -/
def countFrom (counts : TileThing → Bool) (thing : TileThing) (n : ℤ) : Except ℤ ℤ := do
  let n ← match thing with
    | .item _ => countTo (fun _ => true) thing (s.topItems.map .item) n
    | .creature _ => .ok (n + s.getTopItemCount)
  let n ← countTo counts thing (s.creatures.map .creature) n
  match thing with
    | .item _ => countTo (fun _ => true) thing (s.downItems.map .item) n
    | .creature _ => .ok (n + s.downItemCount)

/-- The loops of `getClientIndexOfThing`; only items are looked for among the items. -/
def countThings (thing : TileThing) : Except ℤ ℤ := do
  let n : ℤ := if s.ground.isSome then 0 else -1
  let n ← match thing with
    | .item _ => countTo (fun _ => true) thing (s.topItems.map .item) n
    | .creature _ => .ok (n + s.getTopItemCount)
  let n ← countTo (sees canSeeCreature) thing (s.creatures.map .creature) n
  match thing with
    | .item _ => countTo (fun _ => true) thing (s.downItems.map .item) n
    | .creature _ => .ok (n + s.downItemCount)

/-- `Tile::getClientIndexOfThing`. -/
def getClientIndexOfThing (thing : TileThing) : ℤ :=
  if s.ground.map TileThing.item = some thing then 0
  else if (match thing with
      | .item i => (s.item i).isGroundTile
      | .creature _ => false) then 0
  else
    match s.countThings canSeeCreature thing with
    | .error n => n
    | .ok _ => -1

/-! ## Both agree -/

variable {s canSeeCreature}

/-- The things that a player sees on a tile, as they are sent. -/
def seenThings (s : TileState) (canSeeCreature : ℕ → Bool) : List TileThing :=
  (s.ground.map TileThing.item).toList ++ (s.topItems.map TileThing.item ++
    ((s.creatures.map TileThing.creature).filter (sees canSeeCreature) ++
      s.downItems.map TileThing.item))

/-- What is behind the ground, with the creatures that are counted. -/
def stacked (s : TileState) (counts : TileThing → Bool) : List TileThing :=
  s.topItems.map TileThing.item ++ ((s.creatures.map TileThing.creature).filter counts ++
    s.downItems.map TileThing.item)

theorem filter_always (ts : List TileThing) : ts.filter (fun _ => true) = ts :=
  List.filter_eq_self.mpr fun _ _ => rfl

theorem sendThings_eq {sends : TileThing → Bool} {things : List TileThing}
    {d d' : Description} (h : Description.sendThings sends things d = some d') :
    d'.sent = d.sent ++ things.filter sends := by
  induction things generalizing d with
  | nil =>
    obtain rfl := Option.some.inj h
    simp
  | cons thing things ih =>
    rw [Description.sendThings] at h
    split at h
    · exact absurd h.symm (Option.some_ne_none _)
    · rw [ih h]
      by_cases hsends : sends thing = true <;> simp [hsends, Description.send]

theorem GetTileDescription_eq {assertions : Bool} {sent : List TileThing}
    (h : s.GetTileDescription canSeeCreature assertions = some sent) :
    sent = s.seenThings canSeeCreature := by
  obtain ⟨d₁, h₁, h⟩ := Option.bind_eq_some_iff.mp h
  obtain ⟨d₂, h₂, h⟩ := Option.bind_eq_some_iff.mp h
  obtain ⟨d₃, h₃, h⟩ := Option.bind_eq_some_iff.mp h
  obtain rfl := Option.some.inj h
  rw [sendThings_eq h₃, sendThings_eq h₂, sendThings_eq h₁, filter_always, filter_always,
    seenThings]
  cases s.ground <;> simp [Description.send]

/-- A loop that meets the thing returns how many things it has counted before. -/
theorem countTo_of_mem {counts : TileThing → Bool} {thing : TileThing} {ts : List TileThing}
    (hcounts : counts thing = true) (h : thing ∈ ts) (n : ℤ) :
    countTo counts thing ts n = .error (n + ((ts.filter counts).idxOf thing : ℕ) + 1) := by
  induction ts generalizing n with
  | nil => exact absurd h List.not_mem_nil
  | cons t ts ih =>
    rw [countTo]
    by_cases ht : t = thing
    · subst ht
      rw [if_pos rfl, List.filter_cons_of_pos hcounts, List.idxOf_cons_self]
      simp
    · have hmem : thing ∈ ts := (List.mem_cons.mp h).resolve_left fun heq => ht heq.symm
      rw [if_neg ht, ih hmem]
      by_cases hct : counts t = true
      · rw [if_pos hct, List.filter_cons_of_pos hct, List.idxOf_cons_ne _ ht]
        congr 1
        push_cast
        omega
      · rw [if_neg hct, List.filter_cons_of_neg hct]

/-- A loop that does not meet the thing counts its things. -/
theorem countTo_of_not_mem {counts : TileThing → Bool} {thing : TileThing} {ts : List TileThing}
    (h : thing ∉ ts) (n : ℤ) :
    countTo counts thing ts n = .ok (n + ((ts.filter counts).length : ℕ)) := by
  induction ts generalizing n with
  | nil => simp [countTo]
  | cons t ts ih =>
    rw [List.mem_cons, not_or] at h
    obtain ⟨hne, hmem⟩ := h
    rw [countTo, if_neg fun heq => hne heq.symm, ih hmem]
    by_cases hct : counts t = true
    · rw [if_pos hct, List.filter_cons_of_pos hct, List.length_cons]
      congr 1
      push_cast
      omega
    · rw [if_neg hct, List.filter_cons_of_neg hct]

theorem length_topItems (s : TileState) : s.topItems.length = s.getTopItemCount :=
  List.length_drop

theorem countThings_eq_countFrom (thing : TileThing) :
    s.countThings canSeeCreature thing =
      s.countFrom (sees canSeeCreature) thing (if s.ground.isSome then 0 else -1) :=
  rfl

theorem item_not_mem_creatures (i : ItemId) (cs : List ℕ) :
    TileThing.item i ∉ cs.map TileThing.creature := by
  simp

theorem creature_not_mem_items (c : ℕ) (is : List ItemId) :
    TileThing.creature c ∉ is.map TileThing.item := by
  simp

/-- An item is found among the items, past the creatures, and a creature after the items on top. -/
theorem countFrom_eq {counts : TileThing → Bool} {thing : TileThing} (n : ℤ)
    (h : thing ∈ s.stacked counts) :
    s.countFrom counts thing n = .error (n + ((s.stacked counts).idxOf thing : ℕ) + 1) := by
  unfold countFrom
  cases thing with
  | item i =>
    unfold stacked at h ⊢
    by_cases htop : TileThing.item i ∈ s.topItems.map TileThing.item
    · rw [List.idxOf_append_of_mem htop]
      simp only
      rw [countTo_of_mem rfl htop, filter_always]
      rfl
    · -- the loop over the creatures counts those that are counted and goes on
      have hcreature := item_not_mem_creatures i s.creatures
      have hcounted : TileThing.item i ∉
          (s.creatures.map TileThing.creature).filter counts :=
        fun hmem => hcreature ((List.mem_filter.mp hmem).1)
      have hdown : TileThing.item i ∈ s.downItems.map TileThing.item :=
        ((List.mem_append.mp ((List.mem_append.mp h).resolve_left htop)).resolve_left hcounted)
      simp only
      rw [countTo_of_not_mem htop, filter_always, List.idxOf_append_of_notMem htop,
        List.idxOf_append_of_notMem hcounted]
      change (countTo counts (.item i) (s.creatures.map .creature) _).bind _ = _
      rw [countTo_of_not_mem hcreature]
      change countTo (fun _ => true) (.item i) (s.downItems.map .item) _ = _
      rw [countTo_of_mem rfl hdown, filter_always]
      congr 1
      push_cast
      omega
  | creature c =>
    have htop := creature_not_mem_items c s.topItems
    have hdown := creature_not_mem_items c s.downItems
    have hcounted := (List.mem_append.mp ((List.mem_append.mp h).resolve_left htop)).resolve_right
      hdown
    obtain ⟨hmem, hcounts⟩ := List.mem_filter.mp hcounted
    unfold stacked
    simp only
    rw [List.idxOf_append_of_notMem htop, List.idxOf_append_of_mem hcounted]
    change (countTo counts (.creature c) (s.creatures.map .creature) _).bind _ = _
    rw [countTo_of_mem hcounts hmem, ← length_topItems, List.length_map]
    change Except.error _ = _
    congr 1
    push_cast
    omega

/-- Where no item of the tile's list is a ground, everything that is sent has the index at which the
client has it. -/
theorem getClientIndexOfThing_eq (assertions : Bool) {sent : List TileThing}
    (hsent : s.GetTileDescription canSeeCreature assertions = some sent)
    (hitems : ∀ i ∈ s.items, (s.item i).isGroundTile = false) :
    ∀ thing ∈ sent, s.getClientIndexOfThing canSeeCreature thing = (sent.idxOf thing : ℕ) := by
  rw [GetTileDescription_eq hsent]
  intro thing hthing
  unfold getClientIndexOfThing
  by_cases hground : s.ground.map TileThing.item = some thing
  · rw [if_pos hground, seenThings, hground, Option.toList_some, List.singleton_append,
      List.idxOf_cons_self]
    rfl
  · have hnot : thing ∉ (s.ground.map TileThing.item).toList := by
      rw [Option.mem_toList]
      exact hground
    have hrest := (List.mem_append.mp hthing).resolve_left hnot
    -- the count starts one below the number of grounds
    have hlength : (((s.ground.map TileThing.item).toList.length : ℕ) : ℤ) =
        (if s.ground.isSome then 0 else -1) + 1 := by
      cases s.ground <;> rfl
    rw [if_neg hground, seenThings, List.idxOf_append_of_notMem hnot]
    cases thing with
    | item i =>
      have hitem : i ∈ s.items := by
        rcases List.mem_append.mp hrest with htop | hrest
        · obtain ⟨j, hj, heq⟩ := List.mem_map.mp htop
          obtain rfl := TileThing.item.inj heq
          exact List.mem_of_mem_drop hj
        · rcases List.mem_append.mp hrest with hseen | hdown
          · exact absurd (List.mem_filter.mp hseen).1 (item_not_mem_creatures i s.creatures)
          · obtain ⟨j, hj, heq⟩ := List.mem_map.mp hdown
            obtain rfl := TileThing.item.inj heq
            exact List.mem_of_mem_take hj
      simp only [hitems i hitem, Bool.false_eq_true, if_false]
      rw [countThings_eq_countFrom, countFrom_eq _ hrest, stacked]
      push_cast
      omega
    | creature c =>
      simp only [Bool.false_eq_true, if_false]
      rw [countThings_eq_countFrom, countFrom_eq _ hrest, stacked]
      push_cast
      omega

/-- A ground, an item on top and one below, and two creatures of which the first is not seen. -/
def crowdedTile : TileState :=
  { item := fun _ => { kind := { id := 1739 } }
    ground := some 0
    items := [3, 1]
    downItemCount := 1
    creatures := [5, 6] }

theorem getClientIndexOfThing_eq_crowded :
    crowdedTile.GetTileDescription (· = 6) true =
        some [.item 0, .item 1, .creature 6, .item 3] ∧
      crowdedTile.getClientIndexOfThing (· = 6) (.item 3) =
        ([TileThing.item 0, .item 1, .creature 6, .item 3].idxOf (.item 3) : ℕ) :=
  ⟨rfl, getClientIndexOfThing_eq true rfl (by decide) (.item 3) (by decide)⟩

end TileState

end TyanoCore
