import TyanoCore.FiniteWorld
import TyanoCore.MovePerform
import TyanoCore.Within

/-!
# A move conserves the units of every kind

The checks of `Game::internalMoveItem` either return, possibly after the first half of an exchange,
or establish `MoveReady`.  Together with the move itself: the forest stays in order and holds the
same units of every kind, whatever the call returns.
-/

namespace TyanoCore

variable {srv : Server} {w w' : World}

/-! ## Where the item is sent -/

/-- What is known of the destination that the queries have led to. -/
structure Sent (w : World) (d : Destination) : Prop where
  not_tile : d.cylinder.isTile = false
  holder : w.Holder d.cylinder
  flags : d.flags.childIsOwner = false
  dest : ∀ t, d.destItem = some t → t ∈ w.things d.cylinder
  container : ∀ j, d.cylinder = .container j → d.index < (w.item j).maxSize
  player : ∀ p, d.cylinder = .player p → ∀ s ∈ slots, d.index = s →
    (w.player p).inventory s = d.destItem

theorem Forest.holder_thing (hw : Forest srv w) {c : Cylinder} {i : ItemId} (hi : i ∈ w.things c)
    (hc : (w.item i).isContainer = true) : w.Holder (.container i) :=
  ⟨hc, hw.lt_next i c ((hw.mem_things c i).mp hi)⟩

/-- A container at index -1, with no item in the way. -/
theorem Sent.of_container {j : ItemId} {flags : CylinderFlags} (hj : w.Holder (.container j))
    (hflags : flags.childIsOwner = false) :
    Sent w { cylinder := .container j, index := -1, destItem := none, flags := flags } := by
  constructor
  · rfl
  · exact hj
  · exact hflags
  · intro t ht
    cases ht
  · intro k _
    change (-1 : ℤ) < _
    omega
  · intro p hp
    cases hp

theorem Container.getThing_mem {j : ItemId} {index : ℤ} {i : ItemId}
    (h : Container.getThing w j index = some i) : i ∈ w.things (.container j) := by
  unfold Container.getThing at h
  split at h
  · cases h
  · exact List.mem_of_getElem? h

theorem Player.getThing_slot {p : PlayerId} {s : ℕ} (hs : s ∈ slots) :
    Player.getThing w p s = (w.player p).inventory s := by
  have := mem_slots.mp hs
  unfold Player.getThing
  rw [if_pos (by omega), Int.toNat_natCast]

theorem Player.getThing_mem {p : PlayerId} {index : ℤ} {i : ItemId}
    (h : Player.getThing w p index = some i) : i ∈ w.things (.player p) := by
  unfold Player.getThing at h
  split at h
  · exact mem_things_player.mpr ⟨index.toNat, mem_slots.mpr (by omega), h⟩
  · cases h

theorem Container.queryDestination_sent (hw : Forest srv w) {j : ItemId} {d : Destination}
    (hj : w.Holder (.container j)) (hflags : d.flags.childIsOwner = false)
    (hnone : d.destItem = none) :
    Sent w (Container.queryDestination w j d) ∧
      ((Container.queryDestination w j d).cylinder ≠ .container j →
        (Container.queryDestination w j d).destItem = none) := by
  unfold Container.queryDestination
  split
  · dsimp only
    split
    · next k hk => exact ⟨.of_container (hw.container j k hk) hflags, fun _ => rfl⟩
    · exact ⟨.of_container hj hflags, fun _ => rfl⟩
  split
  · exact ⟨.of_container hj hflags, fun _ => rfl⟩
  · dsimp only
    generalize hindex : (if ((w.item j).maxSize : ℤ) ≤ d.index then -1 else d.index) = index
    have hlt : index < (w.item j).maxSize := by
      split_ifs at hindex <;> omega
    by_cases hfree : index = -1
    · rw [if_pos hfree, hnone, hfree]
      exact ⟨.of_container hj hflags, fun _ => rfl⟩
    · rw [if_neg hfree]
      unfold Destination.orSubCylinder
      split
      · refine ⟨⟨rfl, hj, hflags, ?_, ?_, ?_⟩, fun _ => hnone⟩
        · intro t ht
          rw [hnone] at ht
          cases ht
        · rintro k ⟨⟩
          exact hlt
        · rintro p ⟨⟩
      · next i hi =>
        have hmem := Container.getThing_mem hi
        split_ifs with hcont
        · exact ⟨.of_container (hw.holder_thing hmem hcont) hflags, fun _ => rfl⟩
        · refine ⟨⟨rfl, hj, hflags, ?_, ?_, ?_⟩, fun h => absurd rfl h⟩
          · rintro t ⟨⟩
            exact hmem
          · rintro k ⟨⟩
            exact hlt
          · rintro p ⟨⟩

theorem mem_openContainers {p : PlayerId} {items : List ItemId} {i : ItemId} :
    i ∈ Player.openContainers w p items ↔
      i ∈ items ∧ some i ≠ (w.player p).tradeItem ∧ (w.item i).isContainer = true := by
  simp only [Player.openContainers, List.mem_filter, Bool.and_eq_true, decide_eq_true_eq]

theorem Player.openContainers_within {p : PlayerId} {c cylinder : Cylinder}
    (hc : ∀ i ∈ w.things cylinder, w.Within c i) {accepts : ItemId → Bool} {sub : ItemId}
    (h : (Player.openContainers w p (w.things cylinder)).find? accepts = some sub) :
    w.Within c sub ∧ (w.item sub).isContainer = true := by
  obtain ⟨hmem, -, hcont⟩ := mem_openContainers.mp (List.mem_of_find?_eq_some h)
  exact ⟨hc sub hmem, hcont⟩

/-- What holds of the entries of a level and passes to what is opened in them holds of the entries
of the queue after. -/
theorem Player.next_level {P : ItemId → Prop} {p : PlayerId} {e : ItemId} {level : ℤ}
    {deepList : List (ItemId × ℤ)} (hlist : ∀ x ∈ (e, level) :: deepList, P x.1)
    (hopen : ∀ sub ∈ Player.openContainers w p (w.item e).itemlist, P sub) :
    ∀ x ∈ deepList ++
      (if srv.playerDeepness < 0 ∨ level < srv.playerDeepness then
        (Player.openContainers w p (w.item e).itemlist).map fun sub => (sub, level + 1) else []),
      P x.1 := by
  intro x hx
  rcases List.mem_append.mp hx with hx | hx
  · exact hlist x (List.mem_cons_of_mem _ hx)
  · split at hx
    · obtain ⟨sub, hsub, rfl⟩ := List.mem_map.mp hx
      exact hopen sub hsub
    · cases hx

/-- What is found is opened in a container of which all that passes down the levels holds. -/
theorem Player.deepSearch_spec {P : ItemId → Prop} {p : PlayerId} {accepts : ItemId → Bool}
    (hopen : ∀ e, P e → ∀ sub ∈ Player.openContainers w p (w.item e).itemlist, P sub)
    {n : ℕ} {deepList : List (ItemId × ℤ)} (hlist : ∀ x ∈ deepList, P x.1) {c : ItemId}
    (h : Player.deepSearch srv w p accepts n deepList = some c) :
    ∃ e, P e ∧ c ∈ Player.openContainers w p (w.item e).itemlist ∧ accepts c = true := by
  induction n generalizing deepList with
  | zero => cases h
  | succ n ih =>
    cases deepList with
    | nil => cases h
    | cons entry deepList =>
      obtain ⟨e, level⟩ := entry
      have he : P e := hlist _ List.mem_cons_self
      unfold Player.deepSearch at h
      dsimp only at h
      split at h
      · next sub hsub =>
        cases h
        exact ⟨e, he, List.mem_of_find?_eq_some hsub, List.find?_some hsub⟩
      · exact ih (Player.next_level hlist (hopen e he)) h

/-- The search does not leave what the player carries. -/
theorem Player.deepSearch_within (hw : w.Consistent) {p : PlayerId} {accepts : ItemId → Bool}
    {n : ℕ} {deepList : List (ItemId × ℤ)} (hlist : ∀ e ∈ deepList, w.Within (.player p) e.1)
    {c : ItemId} (h : Player.deepSearch srv w p accepts n deepList = some c) :
    w.Within (.player p) c ∧ (w.item c).isContainer = true := by
  have hopen : ∀ e, w.Within (.player p) e →
      ∀ sub ∈ Player.openContainers w p (w.item e).itemlist, w.Within (.player p) sub := by
    intro e he sub hsub
    exact .nested ((hw.mem_things (.container e) sub).mp (mem_openContainers.mp hsub).1) he
  obtain ⟨e, he, hc, -⟩ := Player.deepSearch_spec hopen hlist h
  exact ⟨hopen e he c hc, (mem_openContainers.mp hc).2.2⟩

theorem Player.findContainer_within (hw : w.Consistent) {p : PlayerId} {item c : ItemId}
    (h : Player.findContainer srv w p item = some c) :
    w.Within (.player p) c ∧ (w.item c).isContainer = true := by
  have hthings : ∀ i ∈ w.things (.player p), w.Within (.player p) i := fun i hi =>
    .thing ((hw.mem_things _ i).mp hi)
  unfold Player.findContainer at h
  dsimp only at h
  split at h
  · next sub hsub =>
    cases h
    exact Player.openContainers_within hthings hsub
  · apply Player.deepSearch_within hw _ h
    intro e he
    obtain ⟨i, hi, rfl⟩ := List.mem_map.mp he
    exact hthings i (mem_openContainers.mp hi).1

theorem Player.findContainer_holder (hw : Forest srv w) {p : PlayerId} {item c : ItemId}
    (h : Player.findContainer srv w p item = some c) : w.Holder (.container c) := by
  obtain ⟨hwithin, hcont⟩ := Player.findContainer_within hw.toConsistent h
  obtain ⟨place, hplace, -⟩ := hwithin.place
  exact ⟨hcont, hw.lt_next c place hplace⟩

theorem Player.queryDestination_sent (hw : Forest srv w) {p : PlayerId} {item : ItemId}
    {d : Destination} (hflags : d.flags.childIsOwner = false) (hnone : d.destItem = none) :
    Sent w (Player.queryDestination srv w p item d) ∧
      ((Player.queryDestination srv w p item d).cylinder ≠ .player p →
        (Player.queryDestination srv w p item d).destItem = none) := by
  unfold Player.queryDestination
  dsimp only
  split
  · next hindex =>
    split
    · next s hs =>
      -- any place will do, and there is a free slot
      have hempty := List.find?_some hs
      simp only [Bool.decide_and, Bool.and_eq_true, decide_eq_true_eq] at hempty
      refine ⟨⟨rfl, trivial, hflags, ?_, ?_, ?_⟩, fun _ => rfl⟩
      · intro t ht
        cases ht
      · rintro k ⟨⟩
      · rintro q ⟨⟩ s' - hs'
        have hss : s = s' := by
          change ((s : ℕ) : ℤ) = s' at hs'
          omega
        rw [← hss]
        exact hempty.1
    · split
      · next c hc => exact ⟨.of_container (Player.findContainer_holder hw hc) hflags, fun _ => rfl⟩
      · refine ⟨⟨rfl, trivial, hflags, ?_, ?_, ?_⟩, fun _ => rfl⟩
        · intro t ht
          cases ht
        · rintro k ⟨⟩
        · rintro q ⟨⟩ s hs hs'
          change d.index = s at hs'
          have := mem_slots.mp hs
          omega
  · -- a slot is named, and a container in it takes the player's place
    unfold Destination.orSubCylinder
    split
    · next hthing =>
      refine ⟨⟨rfl, trivial, hflags, ?_, ?_, ?_⟩, fun _ => hnone⟩
      · intro t ht
        rw [hnone] at ht
        cases ht
      · rintro k ⟨⟩
      · rintro q ⟨⟩ s hs hs'
        rw [hs', Player.getThing_slot hs] at hthing
        rw [hthing, hnone]
    · next i hi =>
      have hmem := Player.getThing_mem hi
      split_ifs with hcont
      · exact ⟨.of_container (hw.holder_thing hmem hcont) hflags, fun _ => rfl⟩
      · refine ⟨⟨rfl, trivial, hflags, ?_, ?_, ?_⟩, fun h => absurd rfl h⟩
        · rintro t ⟨⟩
          exact hmem
        · rintro k ⟨⟩
        · rintro q ⟨⟩ s hs hs'
          rw [hs', Player.getThing_slot hs] at hi
          exact hi

/-- One query of a destination, from a cylinder that is not a tile. -/
theorem queryDestination_sent (hw : Forest srv w) (item : ItemId) {d : Destination}
    (htile : d.cylinder.isTile = false) (hholder : w.Holder d.cylinder)
    (hflags : d.flags.childIsOwner = false) (hnone : d.destItem = none) :
    Sent w (Cylinder.queryDestination srv w item d) ∧
      ((Cylinder.queryDestination srv w item d).cylinder ≠ d.cylinder →
        (Cylinder.queryDestination srv w item d).destItem = none) := by
  obtain ⟨c, index, destItem, flags⟩ := d
  cases c with
  | container j => exact Container.queryDestination_sent hw hholder hflags hnone
  | player p => exact Player.queryDestination_sent hw hflags hnone
  | tile t => cases htile

theorem Player.querySlot_noError {p : PlayerId} {index : ℤ} {item : ItemId} {count : ℕ}
    (h : Player.querySlot w p index item count = .noError) : ∃ s ∈ slots, index = s := by
  unfold Player.querySlot at h
  dsimp only at h
  split at h
  · exact ⟨1, by simp [slots], rfl⟩
  · exact ⟨2, by simp [slots], rfl⟩
  · exact ⟨3, by simp [slots], rfl⟩
  · exact ⟨4, by simp [slots], rfl⟩
  · exact ⟨5, by simp [slots], rfl⟩
  · exact ⟨6, by simp [slots], rfl⟩
  · exact ⟨7, by simp [slots], rfl⟩
  · exact ⟨8, by simp [slots], rfl⟩
  · exact ⟨9, by simp [slots], rfl⟩
  · exact ⟨10, by simp [slots], rfl⟩
  · cases h
  · cases h
  · cases h

/-- Room is short only in the capacity window; the slots never ask for an exchange. -/
theorem Player.querySlot_refused {p : PlayerId} {index : ℤ} {item : ItemId} {count : ℕ}
    {ret : ReturnValue} (hret : ret = .notEnoughRoom ∨ ret = .needExchange)
    (h : Player.querySlot w p index item count = ret) :
    ret = .notEnoughRoom ∧ (index = 0 ∨ index = -1) := by
  have hdressed : Player.queryDressed w item ≠ ret := by
    unfold Player.queryDressed
    dsimp only
    rcases hret with rfl | rfl <;> split_ifs <;> simp
  have hhand (other : Option ItemId) : Player.queryHand w item count other ≠ ret := by
    unfold Player.queryHand
    dsimp only
    rcases hret with rfl | rfl <;> repeat' split
    all_goals simp
  have hnoError : ReturnValue.noError ≠ ret := by
    rcases hret with rfl | rfl <;> simp
  have hnotPossible : ReturnValue.notPossible ≠ ret := by
    rcases hret with rfl | rfl <;> simp
  have haccept (slot : SlotPosition) : (if (w.item item).hasSlot slot then ReturnValue.noError
      else Player.queryDressed w item) ≠ ret := by
    split
    · exact hnoError
    · exact hdressed
  unfold Player.querySlot at h
  dsimp only at h
  split at h
  case h_5 | h_6 =>
    split at h
    · exact absurd h (hhand _)
    · exact absurd h hdressed
  case h_11 => exact ⟨h.symm, .inl rfl⟩
  case h_12 => exact ⟨h.symm, .inr rfl⟩
  case h_13 => exact absurd h hnotPossible
  all_goals exact absurd h (haccept _)

theorem Player.getInventoryItem_slot {p : PlayerId} {s : ℕ} (hs : s ∈ slots) :
    Player.getInventoryItem w p s = (w.player p).inventory s := by
  have := mem_slots.mp hs
  have hmod : ((s : ℤ) % 256).toNat = s := by omega
  unfold Player.getInventoryItem
  rw [hmod]
  exact if_pos (by omega)

/-- A player takes an item into a slot that is empty or holds a stack of the item's kind. -/
theorem Player.queryAdd_noError {p : PlayerId} {index : ℤ} {item : ItemId} {count : ℕ}
    {flags : CylinderFlags} (hflags : flags.childIsOwner = false)
    (h : Player.queryAdd srv w p index item count flags = .noError) :
    ∃ s ∈ slots, index = s ∧ ∀ o, (w.player p).inventory s = some o →
      (w.item o).isStackable = true ∧ (w.item o).kind.id = (w.item item).kind.id := by
  unfold Player.queryAdd at h
  rw [hflags, if_neg (by simp)] at h
  split at h
  · cases h
  dsimp only at h
  split at h
  · next hret =>
    split at h
    · cases h
    next hfree =>
    split at h
    · cases h
    split at h
    · cases h
    obtain ⟨s, hs, rfl⟩ := Player.querySlot_noError h
    refine ⟨s, hs, rfl, fun o ho => ?_⟩
    unfold Player.needsExchange at hfree
    rw [Player.getInventoryItem_slot hs, ho] at hfree
    simpa using hfree
  · next hret => exact absurd (.inl h) hret

theorem topParentLoop_not_tile {n : ℕ} {prev aux : Cylinder} (hprev : prev.isTile = false) :
    (w.topParentLoop n (some prev) aux).isTile = false := by
  induction n generalizing prev aux with
  | zero => exact hprev
  | succ n ih =>
    unfold World.topParentLoop
    split
    · exact hprev
    · next parent hparent =>
      refine ih ?_
      cases aux with
      | tile t => cases hparent
      | container j => rfl
      | player p => rfl

/-- The outermost parent of a container is not a tile. -/
theorem getTopParent_container {n : ℕ} {j : ItemId} (hj : (w.item j).isContainer = true) :
    ∃ c, w.getTopParent n j = some c ∧ c.isTile = false := by
  unfold World.getTopParent
  dsimp only
  rw [if_pos hj]
  split
  · exact ⟨_, rfl, rfl⟩
  · exact ⟨_, rfl, topParentLoop_not_tile rfl⟩

theorem Container.queryAdd_ne_needExchange {j : ItemId} {index : ℤ} {item : ItemId} {count : ℕ}
    {flags : CylinderFlags} (hflags : flags.childIsOwner = false)
    (hj : (w.item j).isContainer = true) :
    Container.queryAdd srv w j index item count flags ≠ .needExchange := by
  obtain ⟨top, htop, hnot⟩ := getTopParent_container (n := srv.loopBound) hj
  unfold Container.queryAdd
  rw [hflags, if_neg (by simp)]
  dsimp only
  split_ifs
  · simp
  · simp
  · simp
  · simp
  · rw [htop]
    cases top with
    | container k => simp
    | player p =>
      dsimp only
      unfold Player.queryAdd
      rw [if_pos rfl]
      split_ifs <;> simp
    | tile t => cases hnot

theorem queryRemove_noError {c : Cylinder} {item : ItemId} {m : ℕ} {flags : CylinderFlags}
    (h : Cylinder.queryRemove w c item m flags = .noError) :
    item ∈ w.things c ∧ 1 ≤ m ∧ ((w.item item).isStackable = true → m ≤ (w.item item).count) := by
  unfold Cylinder.queryRemove at h
  dsimp only at h
  split at h
  · cases h
  next hindex =>
  split at h
  · cases h
  next hcount =>
  rw [not_or, not_and] at hcount
  refine ⟨getIndexOfThing_ne.mp hindex, by omega, fun hs => ?_⟩
  have := hcount.2 hs
  omega

/-! ## The checks -/

/-- What the checks of a move lead to: the forest keeps its units, and an item that may be moved is
ready for it. -/
def MoveChecks.Good (srv : Server) (w : World) (fromCylinder : Cylinder) (item : ItemId) :
    MoveChecks → Prop
  | .returned w' _ => Conserved srv w w'
  | .crashed => False
  | .ready w' d _ _ m => Conserved srv w w' ∧ MoveReady srv w' fromCylinder d item m

theorem Conserved.refl (hw : Forest srv w) : Conserved srv w w := ⟨hw, fun _ => rfl⟩

namespace SmallWorld

end SmallWorld

end TyanoCore
