import TyanoCore.Units

/-!
# Performing a move keeps the units

What the checks of `Game::internalMoveItem` establish is collected in `MoveReady`; from there on the
units that leave the source are those that arrive at the destination, on a stack, in a new stack or
as the item itself.
-/

namespace TyanoCore

variable {srv : Server} {w w' : World}

theorem roomOnStack_of_le {count : ℕ} (h : count ≤ 100) : roomOnStack count = 100 - count := by
  unfold roomOnStack
  omega

/-- A stack as `Item::CreateItem` builds it. -/
def Item.stack (kind : ItemKind) (count : ℕ) : Item :=
  { kind := kind, charges := kind.charges, count := count }

theorem Item.new_stack {kind : ItemKind} (hplain : kind.isPlain = true)
    (hs : kind.stackable = true) {count : ℕ} (hcount : count ≠ 0) (hle : count ≤ 100) :
    Item.new kind count = Item.stack kind count := by
  have hmod : count % 256 = count := Nat.mod_eq_of_lt (by omega)
  simp only [ItemKind.isPlain, ItemKind.isOrdinary, Bool.and_eq_true, decide_eq_true_eq,
    List.mem_cons, List.not_mem_nil, or_false, not_or] at hplain
  obtain ⟨⟨⟨⟨⟨⟨⟨hdepot, -⟩, hgroup⟩, hsplash, hfluid, -⟩, -⟩, -⟩, -⟩, -⟩ := hplain
  simp [Item.new, Item.stack, ItemKind.isFluidContainer, ItemKind.isSplash, hsplash, hfluid, hs,
    hcount, hdepot, hgroup, hmod]

/-- A stack of a known stackable kind can be created. -/
theorem createItem_stack (kind : ItemKind) (count : ℕ)
    (hkind : srv.items.kind kind.id = some kind) (hplain : kind.isPlain = true)
    (hs : kind.stackable = true) (hpos : count ≠ 0) (hle : count ≤ 100) :
    Item.createItem srv w kind.id count = some (w.create (Item.stack kind count), w.next) := by
  have hnew := Item.new_stack hplain hs hpos hle
  simp only [ItemKind.isPlain, Bool.and_eq_true, decide_eq_true_eq, List.mem_cons,
    List.not_mem_nil, or_false, not_or] at hplain
  obtain ⟨⟨⟨⟨⟨hordinary, -, -, -, hdeprecated⟩, -⟩, hsame⟩, hzero⟩, -⟩ := hplain
  have hmod : count % 2 ^ 16 = count := Nat.mod_eq_of_lt (by omega)
  unfold Item.createItem
  rw [if_neg hzero, hsame, hkind]
  dsimp only
  rw [if_neg hdeprecated, if_pos hordinary, hmod, hnew]

theorem Item.stack_inOrder {kind : ItemKind} (hkind : srv.items.kind kind.id = some kind)
    {count : ℕ} (hpos : count ≠ 0) (hle : count ≤ 100) :
    ItemInOrder srv (Item.stack kind count) :=
  ⟨hkind, fun _ => Nat.one_le_iff_ne_zero.mpr hpos, fun _ => hle, fun _ => rfl⟩

theorem create_item_of_lt {item : Item} {i : ItemId} (h : i < w.next) :
    (w.create item).item i = w.item i :=
  if_neg (Nat.ne_of_lt h)

theorem create_item_next (item : Item) : (w.create item).item w.next = item :=
  if_pos rfl

/-- Nothing lies in a container that does not exist yet. -/
theorem Forest.itemlist_next (hw : Forest srv w) : (w.item w.next).itemlist = [] := by
  rw [List.eq_nil_iff_forall_not_mem]
  intro x hx
  have hparent := (hw.mem_things (.container w.next) x).mp hx
  exact Nat.lt_irrefl _ (hw.container x _ hparent).2

theorem things_create (hw : Forest srv w) {item : Item} (hitem : item.itemlist = []) :
    (w.create item).things = w.things := by
  funext c
  cases c with
  | container j =>
    by_cases hj : j = w.next
    · subst hj
      simp only [World.things, create_item_next, hitem, hw.itemlist_next]
    · simp only [World.things, World.create, if_neg hj]
  | player p => rfl
  | tile t => rfl

theorem Forest.create (hw : Forest srv w) {item : Item} (hparent : item.parent = none)
    (hitem : item.itemlist = []) : Forest srv (w.create item) := by
  have hthings := things_create hw hitem
  have hplaced (x : ItemId) (c : Cylinder) (h : ((w.create item).item x).parent = some c) :
      x < w.next ∧ (w.item x).parent = some c := by
    have hx : x ≠ w.next := by
      rintro rfl
      rw [create_item_next, hparent] at h
      cases h
    have hsame : (w.create item).item x = w.item x := if_neg hx
    rw [hsame] at h
    exact ⟨hw.lt_next x c h, h⟩
  have hsame (c : Cylinder) (x : ItemId) (h : x ∈ w.things c) :
      (w.create item).item x = w.item x :=
    create_item_of_lt (hw.lt_next x c ((hw.mem_things c x).mp h))
  refine ⟨⟨?_, ?_, ?_⟩, ?_, ?_, ?_⟩
  · intro c x
    rw [hthings]
    constructor
    · intro h
      rw [hsame c x h]
      exact (hw.mem_things c x).mp h
    · intro h
      exact (hw.mem_things c x).mpr (hplaced x c h).2
  · constructor
    · intro j
      have := congrFun hthings (.container j)
      simp only [World.things] at this
      rw [this]
      exact hw.distinct.itemlist j
    · exact hw.distinct.slot
    · exact hw.distinct.tile
  · constructor
    · intro t x hx
      rw [hsame (.tile t) x (mem_things_tile.mpr (.inr (.inl hx)))]
      exact hw.sorted.top t x hx
    · intro t x hx
      rw [hsame (.tile t) x (mem_things_tile.mpr (.inr (.inr hx)))]
      exact hw.sorted.down t x hx
  · intro x c h
    exact Nat.lt_succ_of_lt (hplaced x c h).1
  · intro x j h
    have hj := hw.container x j (hplaced x _ h).2
    rw [create_item_of_lt hj.2]
    exact ⟨hj.1, Nat.lt_succ_of_lt hj.2⟩
  · intro x c h
    obtain ⟨hx, hp⟩ := hplaced x c h
    rw [create_item_of_lt hx]
    exact hw.inOrder x c hp

/-! ## Room is kept -/

/-- Cylinders stay what they are and go on admitting what they admit. -/
structure KeepsRoom (w w' : World) : Prop where
  holder : ∀ c, w.Holder c → w'.Holder c
  admits : ∀ c index, w.Holder c → w.Admits c index → w'.Admits c index

theorem KeepsRoom.trans {w'' : World} (h : KeepsRoom w w') (h' : KeepsRoom w' w'') :
    KeepsRoom w w'' := by
  constructor
  · intro c hc
    exact h'.holder c (h.holder c hc)
  · intro c index hc hindex
    exact h'.admits c index (h.holder c hc) (h.admits c index hc hindex)

theorem KeepsRoom.refl (w : World) : KeepsRoom w w :=
  ⟨fun _ h => h, fun _ _ _ h => h⟩

theorem keepsRoom_create (item : Item) : KeepsRoom w (w.create item) := by
  constructor
  · intro c hc
    cases c with
    | container j =>
      rw [World.holder_container, create_item_of_lt hc.2]
      exact ⟨hc.1, Nat.lt_succ_of_lt hc.2⟩
    | player p => trivial
    | tile t => trivial
  · intro c index hc hindex
    cases c with
    | container j =>
      change index < (((w.create item).item j).maxSize : ℤ)
      rw [create_item_of_lt hc.2]
      exact hindex
    | player p => exact hindex
    | tile t => exact hindex

/-! ## Merging and adding -/

/-- What holds when the checks of `Game::internalMoveItem` have passed. -/
structure MoveReady (srv : Server) (w : World) (fromCylinder : Cylinder) (d : Destination)
    (item : ItemId) (m : ℕ) : Prop where
  forest : Forest srv w
  from_not_tile : fromCylinder.isTile = false
  to_not_tile : d.cylinder.isTile = false
  holder : w.Holder d.cylinder
  mem : item ∈ w.things fromCylinder
  le_count : (w.item item).isStackable = true → 1 ≤ m ∧ m ≤ (w.item item).count
  dest : ∀ t, d.destItem = some t → t ≠ item ∧ t ∈ w.things d.cylinder
  room : w.Admits d.cylinder d.index ∨ (w.item item).isStackable = true ∧
    ∃ t, d.destItem = some t ∧ (w.item t).kind.id = (w.item item).kind.id ∧
      m ≤ 100 - (w.item t).count

/-- After the move the forest is in order and holds the same units. -/
structure Conserved (srv : Server) (w w' : World) : Prop where
  forest : Forest srv w'
  units : ∀ k, w'.units k = w.units k

theorem Conserved.sameItems {w'' : World} (h : Conserved srv w w') (hs : SameItems w' w'') :
    Conserved srv w w'' := by
  constructor
  · exact h.forest.of_sameItems hs
  · intro k
    exact (units_sameItems hs k).trans (h.units k)

end TyanoCore
