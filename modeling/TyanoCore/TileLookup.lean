import TyanoCore.TileExchange
import TyanoCore.TileIndex

/-!
# Finding a thing of a tile again

`Tile::__getIndexOfThing`, `Tile::__getThing` and `Tile::__replaceThing` go through the ground, the
items on top, the creatures and the other items.  The first of them counts the ground whether there
is one or not.
-/

namespace TyanoCore

namespace TileState

variable (s : TileState)

/-! ## Indexes -/

/-- `Tile::__getIndexOfThing`. -/
def getIndexOfThing (thing : TileThing) : ℤ :=
  if s.ground.map TileThing.item = some thing then 0
  else
    -- the first thing behind the ground has index 1
    match s.countFrom (fun _ => true) thing 0 with
    | .error n => n
    | .ok _ => -1

/-- `Item::isRemoved` for an item of the tile. -/
def isRemoved (i : ItemId) : Bool := (s.item i).parent = .nowhere

/-- `Tile::__getThing` behind the ground; from the index of an item that is removed the sizes are
subtracted all the same, and nothing is found there. -/
def getThingBehind (pos : ℕ) : Option TileThing :=
  match s.topItems[pos]? with
  | some item => if s.isRemoved item then none else some (.item item)
  | none =>
    let pos := pos - s.topItems.length
    match s.creatures[pos]? with
    | some creature => some (.creature creature)
    | none =>
      match s.downItems[pos - s.creatures.length]? with
      | some item => if s.isRemoved item then none else some (.item item)
      | none => none

/-- `Tile::__getThing`. -/
def getThing (index : ℕ) : Option TileThing :=
  match s.ground, index with
  | some ground, 0 => some (.item ground)
  | some _, pos + 1 => s.getThingBehind pos
  | none, pos => s.getThingBehind pos

/-- The thing is on the tile. -/
def Holds : TileThing → Prop
  | .item i => i ∈ s.things
  | .creature c => c ∈ s.creatures

/-- The tile is in order, and no creature is there twice. -/
structure Represented (s : TileState) : Prop extends s.Sound where
  nodup_creatures : s.creatures.Nodup

/-! ## Replacing -/

/-- The one item has the place of the other, and nothing else has changed. -/
structure Replaces (s s' : TileState) (old new : ItemId) : Prop where
  ground : s'.ground = s.ground.map fun x => if x = old then new else x
  items : s'.items = s.items.map fun x => if x = old then new else x
  downItemCount : s'.downItemCount = s.downItemCount
  creatures : s'.creatures = s.creatures
  thingCount : s'.thingCount = s.thingCount
  item : ∀ j, j ≠ old → j ≠ new → s'.item j = s.item j
  parent_old : (s'.item old).parent = .nowhere
  parent_new : (s'.item new).parent = .here

variable {s}

theorem map_replace_of_not_mem {l : List ItemId} {old : ItemId} (h : old ∉ l) (new : ItemId) :
    (l.map fun x => if x = old then new else x) = l := by
  conv_rhs => rw [← List.map_id l]
  apply List.map_congr_left
  intro x hx
  have hne : x ≠ old := fun heq => h (heq ▸ hx)
  exact if_neg hne

/-- Where each item is once, an item becomes another one at the one index. -/
theorem set_eq_map_replace {l : List ItemId} (hnodup : l.Nodup) {k : ℕ} {old : ItemId}
    (hk : l[k]? = some old) (new : ItemId) :
    l.set k new = l.map fun x => if x = old then new else x := by
  induction l generalizing k with
  | nil => cases hk
  | cons x l ih =>
    obtain ⟨hx, hl⟩ := List.nodup_cons.mp hnodup
    cases k with
    | zero =>
      obtain rfl : x = old := Option.some.inj hk
      rw [List.set_cons_zero, List.map_cons, if_pos rfl, map_replace_of_not_mem hx]
    | succ k =>
      have hk : l[k]? = some old := hk
      have hne : x ≠ old := fun heq => hx (heq ▸ List.mem_of_getElem? hk)
      rw [List.set_cons_succ, List.map_cons, if_neg hne, ih hl hk]

/-- What `Tile::__replaceThing` does once the item is in the place of the other. -/
theorem replaced_replaces {t : TileState} {old new : ItemId} (hne : old ≠ new)
    (hground : t.ground = s.ground.map fun x => if x = old then new else x)
    (hitems : t.items = s.items.map fun x => if x = old then new else x)
    (hitem : t.item = s.item) (hdown : t.downItemCount = s.downItemCount)
    (hcreatures : t.creatures = s.creatures) (hcount : t.thingCount = s.thingCount) :
    Replaces s (t.replaced old new) old new := by
  constructor
  · exact hground
  · exact hitems
  · exact hdown
  · exact hcreatures
  · exact hcount
  · intro j hold hnew
    calc ((t.replaced old new).item j)
        = (t.setParent new .here).item j := setItem_other hold _
      _ = t.item j := setItem_other hnew _
      _ = s.item j := by rw [hitem]
  · have hself : (t.replaced old new).item old =
        { (t.setParent new .here).item old with parent := .nowhere } := setItem_self old _
    rw [hself]
  · have hlast : (t.replaced old new).item new = (t.setParent new .here).item new :=
      setItem_other hne.symm _
    have hself : (t.setParent new .here).item new = { t.item new with parent := .here } :=
      setItem_self new _
    rw [hlast, hself]

theorem Sound.nodup_sections (hs : s.Sound) :
    (∀ ground, s.ground = some ground → ground ∉ s.downItems ∧ ground ∉ s.topItems) ∧
      s.downItems.Nodup ∧ s.topItems.Nodup ∧ s.downItems.Disjoint s.topItems := by
  have hnodup := hs.nodup
  unfold things at hnodup
  rw [← downItems_append_topItems] at hnodup
  obtain ⟨-, hitems, hground⟩ := List.nodup_append'.mp hnodup
  obtain ⟨hdown, htop, hdisjoint⟩ := List.nodup_append'.mp hitems
  refine ⟨?_, hdown, htop, hdisjoint⟩
  intro ground hg
  have hnot : ground ∉ s.downItems ++ s.topItems :=
    hground (Option.mem_toList.mpr (Option.mem_def.mpr hg))
  rw [List.mem_append, not_or] at hnot
  exact hnot

/-- An item that is found at an index is the one that is replaced there. -/
theorem replaceThing_of_atIndex (hs : s.Sound) {index : ℕ} {old new : ItemId}
    (hnew : new ∉ s.things) (hold : s.atIndex index = some old) :
    Replaces s (s.replaceThing index new) old new := by
  obtain ⟨hground, hdown, htop, hdisjoint⟩ := hs.nodup_sections
  have hitems := downItems_append_topItems s
  -- behind the ground, where the old item is not the ground
  have hbehind {pos : ℕ} (hpos : s.itemAt pos = some old) :
      Replaces s (s.replaceItem pos new) old new := by
    have hne (hsection : old ∈ s.downItems ∨ old ∈ s.topItems) : old ≠ new := by
      rintro rfl
      exact hnew (mem_things_iff.mpr (.inr hsection))
    have hkept (hsection : old ∈ s.downItems ∨ old ∈ s.topItems) :
        s.ground = s.ground.map fun x => if x = old then new else x := by
      cases hg : s.ground with
      | none => rfl
      | some ground =>
        have hother : ground ≠ old := by
          rintro rfl
          obtain ⟨hnotDown, hnotTop⟩ := hground ground hg
          exact hsection.elim hnotDown hnotTop
        rw [Option.map_some, if_neg hother]
    unfold itemAt at hpos
    unfold replaceItem
    cases htopAt : s.topItems[pos]? with
    | some top =>
      rw [htopAt] at hpos
      obtain rfl : top = old := Option.some.inj hpos
      have hin : top ∈ s.topItems := List.mem_of_getElem? htopAt
      dsimp only
      refine replaced_replaces (hne (.inr hin)) (hkept (.inr hin)) ?_ rfl rfl rfl rfl
      rw [← hitems, List.map_append, map_replace_of_not_mem fun h => hdisjoint h hin,
        set_eq_map_replace htop htopAt]
    | none =>
      rw [htopAt] at hpos
      dsimp only at hpos ⊢
      by_cases hcreatures : pos - s.topItems.length < s.creatures.length
      · rw [if_pos hcreatures] at hpos
        cases hpos
      rw [if_neg hcreatures] at hpos ⊢
      rw [hpos]
      have hin : old ∈ s.downItems := List.mem_of_getElem? hpos
      dsimp only
      refine replaced_replaces (hne (.inl hin)) (hkept (.inl hin)) ?_ rfl rfl rfl rfl
      rw [← hitems, List.map_append, map_replace_of_not_mem fun h => hdisjoint hin h,
        set_eq_map_replace hdown hpos]
  unfold atIndex at hold
  unfold replaceThing
  cases hg : s.ground with
  | none =>
    rw [hg] at hold
    exact hbehind hold
  | some ground =>
    rw [hg] at hold
    cases index with
    | succ pos => exact hbehind hold
    | zero =>
      obtain rfl : ground = old := Option.some.inj hold
      obtain ⟨hnotDown, hnotTop⟩ := hground ground hg
      have hne : ground ≠ new := by
        rintro rfl
        exact hnew (mem_things_iff.mpr (.inl hg))
      have hnot : ground ∉ s.items := by
        rw [← hitems, List.mem_append, not_or]
        exact ⟨hnotDown, hnotTop⟩
      refine replaced_replaces hne ?_ (map_replace_of_not_mem hnot new).symm rfl rfl rfl rfl
      rw [hg, Option.map_some, if_pos rfl]

theorem Replaces.not_mem {s' : TileState} {old new : ItemId} (h : Replaces s s' old new)
    (hne : old ≠ new) : old ∉ s'.things := by
  have hgone (l : List ItemId) : old ∉ l.map fun x => if x = old then new else x := by
    intro hmem
    obtain ⟨x, -, hx⟩ := List.mem_map.mp hmem
    by_cases hxo : x = old
    · exact hne ((if_pos hxo).symm.trans hx).symm
    · exact hxo ((if_neg hxo).symm.trans hx)
  unfold things
  rw [h.ground, h.items, Option.toList_map, ← List.map_append]
  exact hgone _

theorem Replaces.mem {s' : TileState} {old new x : ItemId} (h : Replaces s s' old new)
    (hne : x ≠ old) (hx : x ∈ s.things) : x ∈ s'.things := by
  unfold things at hx ⊢
  rw [h.ground, h.items, Option.toList_map, ← List.map_append]
  exact List.mem_map.mpr ⟨x, hx, if_neg hne⟩

/-! ## Both agree -/

theorem Sound.isRemoved (hs : s.Sound) {i : ItemId} (hi : i ∈ s.things) :
    s.isRemoved i = false := by
  unfold TileState.isRemoved
  rw [hs.parent i hi]
  rfl

/-- Behind the ground the things are found where they are listed. -/
theorem getThingBehind_eq (hs : s.Sound) (pos : ℕ) :
    s.getThingBehind pos = (s.stacked fun _ => true)[pos]? := by
  have hremoved {i : ItemId} (hsection : i ∈ s.downItems ∨ i ∈ s.topItems) :
      s.isRemoved i = false := hs.isRemoved (mem_things_iff.mpr (.inr hsection))
  unfold getThingBehind stacked
  rw [filter_always]
  cases htop : s.topItems[pos]? with
  | some top =>
    have hin : top ∈ s.topItems := List.mem_of_getElem? htop
    have hlt : pos < (s.topItems.map TileThing.item).length := by
      rw [List.length_map]
      exact (List.getElem?_eq_some_iff.mp htop).1
    dsimp only
    rw [hremoved (.inr hin), List.getElem?_append_left hlt, List.getElem?_map, htop]
    rfl
  | none =>
    have hle : s.topItems.length ≤ pos := List.getElem?_eq_none_iff.mp htop
    have hle' : (s.topItems.map TileThing.item).length ≤ pos := by
      rw [List.length_map]
      exact hle
    dsimp only
    rw [List.getElem?_append_right hle', List.length_map]
    -- the index is counted from the first creature on
    generalize pos - s.topItems.length = pos
    cases hcreature : s.creatures[pos]? with
    | some creature =>
      have hlt : pos < (s.creatures.map TileThing.creature).length := by
        rw [List.length_map]
        exact (List.getElem?_eq_some_iff.mp hcreature).1
      rw [List.getElem?_append_left hlt, List.getElem?_map, hcreature]
      rfl
    | none =>
      have hle : (s.creatures.map TileThing.creature).length ≤ pos := by
        rw [List.length_map]
        exact List.getElem?_eq_none_iff.mp hcreature
      dsimp only
      rw [List.getElem?_append_right hle, List.length_map, List.getElem?_map]
      cases hdown : s.downItems[pos - s.creatures.length]? with
      | some item =>
        have hin : item ∈ s.downItems := List.mem_of_getElem? hdown
        dsimp only
        rw [hremoved (.inl hin)]
        rfl
      | none => rfl

/-- An item is replaced at the indexes at which it is found. -/
theorem getThing_eq_item_iff (hs : s.Sound) {index : ℕ} {i : ItemId} :
    s.getThing index = some (.item i) ↔ s.atIndex index = some i := by
  have hbehind (pos : ℕ) : s.getThingBehind pos = some (.item i) ↔ s.itemAt pos = some i := by
    unfold getThingBehind itemAt
    have hremoved {i : ItemId} (hsection : i ∈ s.downItems ∨ i ∈ s.topItems) :
        s.isRemoved i = false := hs.isRemoved (mem_things_iff.mpr (.inr hsection))
    cases htop : s.topItems[pos]? with
    | some top =>
      dsimp only
      rw [hremoved (.inr (List.mem_of_getElem? htop))]
      simp
    | none =>
      dsimp only
      generalize pos - s.topItems.length = pos
      cases hcreature : s.creatures[pos]? with
      | some creature =>
        have hlt := (List.getElem?_eq_some_iff.mp hcreature).1
        rw [if_pos hlt]
        simp
      | none =>
        have hle : s.creatures.length ≤ pos := List.getElem?_eq_none_iff.mp hcreature
        rw [if_neg (Nat.not_lt.mpr hle)]
        dsimp only
        cases hdown : s.downItems[pos - s.creatures.length]? with
        | some item =>
          dsimp only
          rw [hremoved (.inl (List.mem_of_getElem? hdown))]
          simp
        | none => simp
  unfold getThing atIndex
  cases s.ground with
  | none => exact hbehind index
  | some ground =>
    cases index with
    | zero => simp
    | succ pos => exact hbehind pos

/-- Every thing but the ground is listed behind it, once. -/
theorem Represented.nodup_stacked (hs : s.Represented) : (s.stacked fun _ => true).Nodup := by
  obtain ⟨-, hdown, htop, hdisjoint⟩ := hs.toSound.nodup_sections
  have hitem : Function.Injective TileThing.item := fun _ _ h => TileThing.item.inj h
  have hcreature : Function.Injective TileThing.creature := fun _ _ h => TileThing.creature.inj h
  unfold stacked
  rw [filter_always]
  refine List.nodup_append'.mpr ⟨htop.map hitem, List.nodup_append'.mpr
    ⟨hs.nodup_creatures.map hcreature, hdown.map hitem, ?_⟩, ?_⟩
  · intro thing hc hd
    obtain ⟨c, -, rfl⟩ := List.mem_map.mp hc
    exact creature_not_mem_items c _ hd
  · intro thing ht hrest
    obtain ⟨i, hi, rfl⟩ := List.mem_map.mp ht
    rcases List.mem_append.mp hrest with hc | hd
    · exact item_not_mem_creatures i _ hc
    · obtain ⟨j, hj, heq⟩ := List.mem_map.mp hd
      obtain rfl := TileThing.item.inj heq
      exact hdisjoint hj hi

theorem mem_stacked {thing : TileThing} (h : s.Holds thing)
    (hground : s.ground.map TileThing.item ≠ some thing) :
    thing ∈ s.stacked fun _ => true := by
  unfold stacked
  rw [filter_always]
  cases thing with
  | item i =>
    have hnot : s.ground ≠ some i := by
      intro heq
      rw [heq] at hground
      exact hground rfl
    rcases (mem_things_iff.mp h).resolve_left hnot with hdown | htop
    · have hin : TileThing.item i ∈ s.downItems.map TileThing.item :=
        List.mem_map.mpr ⟨i, hdown, rfl⟩
      exact List.mem_append_right _ (List.mem_append_right _ hin)
    · exact List.mem_append_left _ (List.mem_map.mpr ⟨i, htop, rfl⟩)
  | creature c =>
    have hin : TileThing.creature c ∈ s.creatures.map TileThing.creature :=
      List.mem_map.mpr ⟨c, h, rfl⟩
    exact List.mem_append_right _ (List.mem_append_left _ hin)

/-- With a ground the thing is found at its index. -/
theorem getThing_of_ground (hs : s.Sound) (hground : s.ground.isSome) {thing : TileThing}
    (h : s.Holds thing) : s.getThing (s.getIndexOfThing thing).toNat = some thing := by
  obtain ⟨ground, hg⟩ := Option.isSome_iff_exists.mp hground
  unfold getIndexOfThing
  by_cases heq : s.ground.map TileThing.item = some thing
  · rw [if_pos heq]
    unfold getThing
    rw [hg] at heq ⊢
    exact heq
  · have hmem := mem_stacked h heq
    have hindex : (0 + (((s.stacked fun _ => true).idxOf thing : ℕ) : ℤ) + 1).toNat =
        (s.stacked fun _ => true).idxOf thing + 1 := by omega
    rw [if_neg heq, countFrom_eq 0 hmem]
    dsimp only
    rw [hindex]
    unfold getThing
    rw [hg]
    dsimp only
    rw [getThingBehind_eq hs, List.getElem?_eq_getElem (List.idxOf_lt_length_iff.mpr hmem),
      List.getElem_idxOf]

/-- Without a ground the index is one too large, and another thing is found there or none. -/
theorem getThing_ne_of_no_ground (hs : s.Represented) (hground : s.ground = none)
    {thing : TileThing} (h : s.Holds thing) :
    s.getThing (s.getIndexOfThing thing).toNat ≠ some thing := by
  have hnot : s.ground.map TileThing.item ≠ some thing := by
    rw [hground]
    exact nofun
  have hmem := mem_stacked h hnot
  have hindex : (0 + (((s.stacked fun _ => true).idxOf thing : ℕ) : ℤ) + 1).toNat =
      (s.stacked fun _ => true).idxOf thing + 1 := by omega
  unfold getIndexOfThing
  rw [if_neg hnot, countFrom_eq 0 hmem]
  dsimp only
  rw [hindex]
  unfold getThing
  rw [hground]
  dsimp only
  rw [getThingBehind_eq hs.toSound]
  intro hfound
  -- the thing would be listed at two indexes
  obtain ⟨hlt, heq⟩ := List.getElem?_eq_some_iff.mp hfound
  have htwice := hs.nodup_stacked.idxOf_getElem _ hlt
  rw [heq] at htwice
  omega

/-- On a tile in order a thing is found at its index, and replaced there, exactly if the tile has a
ground. -/
theorem getThing_getIndexOfThing_iff (hs : s.Represented) {thing : TileThing}
    (h : s.Holds thing) :
    (s.getThing (s.getIndexOfThing thing).toNat = some thing ↔ s.ground.isSome = true) ∧
      ∀ item newItem, thing = .item item → newItem ∉ s.things →
        (Replaces s (s.replaceThing (s.getIndexOfThing thing).toNat newItem) item newItem ↔
          s.ground.isSome = true) := by
  constructor
  · constructor
    · intro hfound
      by_contra hground
      have hnone := Option.not_isSome_iff_eq_none.mp hground
      exact getThing_ne_of_no_ground hs hnone h hfound
    · exact fun hground => getThing_of_ground hs.toSound hground h
  · rintro item newItem rfl hnew
    have hne : item ≠ newItem := by
      rintro rfl
      exact hnew h
    constructor
    · intro hreplaces
      by_contra hground
      have hnone := Option.not_isSome_iff_eq_none.mp hground
      have hother := getThing_ne_of_no_ground hs hnone h
      have hgone := hreplaces.not_mem hne
      -- the item is still there: what is replaced is another thing or none
      apply hgone
      cases hat : s.atIndex (s.getIndexOfThing (.item item)).toNat with
      | none =>
        rw [replaceThing_other hat]
        exact h
      | some old =>
        have hold : item ≠ old := by
          rintro rfl
          exact hother ((getThing_eq_item_iff hs.toSound).mpr hat)
        exact (replaceThing_of_atIndex hs.toSound hnew hat).mem hold h
    · intro hground
      have hfound := getThing_of_ground hs.toSound hground h
      exact replaceThing_of_atIndex hs.toSound hnew ((getThing_eq_item_iff hs.toSound).mp hfound)

/-- An item on top and one below on a ground. -/
def groundTile : TileState :=
  { item := fun _ => { kind := { id := 1739 }, parent := .here }
    ground := some 0
    items := [2, 1]
    downItemCount := 1
    thingCount := 3 }

theorem getThing_getIndexOfThing_ground :
    groundTile.getThing (groundTile.getIndexOfThing (.item 1)).toNat = some (.item 1) :=
  (getThing_getIndexOfThing_iff (s := groundTile)
    ⟨⟨Nat.le_succ 1, by decide, fun _ _ => rfl, rfl, by decide⟩, by decide⟩
    (show groundTile.Holds (.item 1) from List.mem_cons_of_mem 0 (by decide))).1.mpr rfl

/-- The same items where there is no ground. -/
def groundlessTile : TileState := { groundTile with ground := none, thingCount := 2 }

/-- The new item takes the place of the one below instead of the one on top. -/
theorem groundlessTile_replaces_other :
    groundlessTile.Represented ∧ groundlessTile.Holds (.item 1) ∧
      groundlessTile.getThing (groundlessTile.getIndexOfThing (.item 1)).toNat =
        some (.item 2) ∧
      (groundlessTile.replaceThing (groundlessTile.getIndexOfThing (.item 1)).toNat 3).items =
        [3, 1] := by
  refine ⟨⟨⟨Nat.le_succ 1, ?_, fun _ _ => rfl, rfl, ?_⟩, ?_⟩, ?_, ?_, ?_⟩
  · decide
  · decide
  · decide
  · exact (by decide : (1 : ItemId) ∈ groundlessTile.things)
  · decide
  · decide

end TileState

end TyanoCore
