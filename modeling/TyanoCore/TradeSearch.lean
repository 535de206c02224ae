import TyanoCore.MoveConservation
import TyanoCore.NestingRun

/-!
# Where a traded item goes

`Player::__queryDestination` looks for a slot, then through the containers the player carries.  It
passes over the item that he offers himself, so it finds a place at least as well once that item is
gone.
-/

namespace TyanoCore

variable {srv : Server} {w w' : World} {p : PlayerId} {i item : ItemId}

/-! ## The containers that are searched -/

/-- The containers a player carries, without the item he offers and what lies in it. -/
inductive Player.Opens (w : World) (p : PlayerId) : ItemId → Prop
  | top {c : ItemId} : c ∈ Player.openContainers w p (w.things (.player p)) → Player.Opens w p c
  | deeper {c sub : ItemId} : Player.Opens w p c →
      sub ∈ Player.openContainers w p (w.item c).itemlist → Player.Opens w p sub

theorem Player.Opens.within (hw : w.Consistent) {c : ItemId} (h : Player.Opens w p c) :
    w.Within (.player p) c ∧ (w.item c).isContainer = true := by
  induction h with
  | top h =>
    obtain ⟨hmem, -, hcontainer⟩ := mem_openContainers.mp h
    exact ⟨.thing ((hw.mem_things _ _).mp hmem), hcontainer⟩
  | @deeper c sub _ h ih =>
    obtain ⟨hmem, -, hcontainer⟩ := mem_openContainers.mp h
    exact ⟨.nested ((hw.mem_things (.container c) sub).mp hmem) ih.1, hcontainer⟩

/-- None of them is the item on offer or lies within it. -/
theorem Player.Opens.not_around (hw : w.Consistent) (hi : (w.player p).tradeItem = some i)
    {c : ItemId} (h : Player.Opens w p c) : ¬ w.Around c i := by
  induction h with
  | @top c h =>
    obtain ⟨hmem, hne, -⟩ := mem_openContainers.mp h
    have hparent := (hw.mem_things (.player p) c).mp hmem
    rintro (rfl | hin)
    · exact hne hi.symm
    · obtain ⟨place, hplace, hin⟩ := hin.place
      rw [hparent] at hplace
      cases hplace
      rcases hin with hin | ⟨j, hin, -⟩
      · cases hin
      · cases hin
  | @deeper c sub _ h ih =>
    obtain ⟨hmem, hne, -⟩ := mem_openContainers.mp h
    have hparent := (hw.mem_things (.container c) sub).mp hmem
    rintro (rfl | hin)
    · exact hne hi.symm
    · exact ih (hin.around hparent)

/-- What a search of one level finds. -/
theorem find?_openContainers {items : List ItemId} {accepts : ItemId → Bool} {c : ItemId}
    (h : (Player.openContainers w p items).find? accepts = some c) :
    c ∈ Player.openContainers w p items ∧ accepts c = true :=
  ⟨List.mem_of_find?_eq_some h, List.find?_some h⟩

theorem Player.deepSearch_opens {accepts : ItemId → Bool} {n : ℕ} {deepList : List (ItemId × ℤ)}
    (hlist : ∀ e ∈ deepList, Player.Opens w p e.1) {c : ItemId}
    (h : Player.deepSearch srv w p accepts n deepList = some c) :
    Player.Opens w p c ∧ accepts c = true := by
  obtain ⟨e, he, hc, haccepts⟩ := Player.deepSearch_spec (fun _ he _ => .deeper he) hlist h
  exact ⟨.deeper he hc, haccepts⟩

variable (srv) in
/-- Whether a container takes an item without an index. -/
def Container.accepts (w : World) (item c : ItemId) : Bool :=
  Container.queryAdd srv w c (-1) item (w.item item).count {} = .noError

theorem Player.findContainer_opens {c : ItemId} (h : Player.findContainer srv w p item = some c) :
    Player.Opens w p c ∧ Container.accepts srv w item c = true := by
  unfold Player.findContainer at h
  dsimp only at h
  split at h
  · next sub hsub =>
    cases h
    obtain ⟨hmem, haccepts⟩ := find?_openContainers hsub
    exact ⟨.top hmem, haccepts⟩
  · apply Player.deepSearch_opens _ h
    intro e he
    obtain ⟨c, hc, rfl⟩ := List.mem_map.mp he
    exact .top hc

/-! ## More is accepted -/

theorem find?_isSome_of_imp {l : List ItemId} {accepts accepts' : ItemId → Bool}
    (h : ∀ c ∈ l, accepts c = true → accepts' c = true) (hsome : (l.find? accepts).isSome = true) :
    (l.find? accepts').isSome = true := by
  obtain ⟨c, hc, haccepts⟩ := List.find?_isSome.mp hsome
  exact List.find?_isSome.mpr ⟨c, hc, h c hc haccepts⟩

/-- A search of the same containers that accepts more ends at least as early. -/
theorem Player.deepSearch_isSome
    (hopen : ∀ c, Player.Opens w p c → Player.openContainers w' p (w'.item c).itemlist =
      Player.openContainers w p (w.item c).itemlist)
    {accepts accepts' : ItemId → Bool}
    (haccepts : ∀ c, Player.Opens w p c → accepts c = true → accepts' c = true) {n : ℕ}
    {deepList : List (ItemId × ℤ)} (hlist : ∀ e ∈ deepList, Player.Opens w p e.1)
    (h : (Player.deepSearch srv w p accepts n deepList).isSome = true) :
    (Player.deepSearch srv w' p accepts' n deepList).isSome = true := by
  induction n generalizing deepList with
  | zero => cases h
  | succ n ih =>
    cases deepList with
    | nil => cases h
    | cons entry deepList =>
      obtain ⟨e, level⟩ := entry
      have he := hlist _ List.mem_cons_self
      unfold Player.deepSearch at h ⊢
      dsimp only at h ⊢
      rw [hopen e he]
      cases hfound' : (Player.openContainers w p (w.item e).itemlist).find? accepts' with
      | some sub => rfl
      | none =>
        -- nothing was accepted at this level before
        have hnone : (Player.openContainers w p (w.item e).itemlist).find? accepts = none := by
          by_contra hsome
          have hsome' := find?_isSome_of_imp (fun c hc => haccepts c (.deeper he hc))
            (Option.isSome_iff_ne_none.mpr hsome)
          rw [hfound'] at hsome'
          cases hsome'
        rw [hnone] at h
        dsimp only at h ⊢
        exact ih (Player.next_level hlist fun _ => .deeper he) h

theorem Player.findContainer_isSome
    (htop : Player.openContainers w' p (w'.things (.player p)) =
      Player.openContainers w p (w.things (.player p)))
    (hopen : ∀ c, Player.Opens w p c → Player.openContainers w' p (w'.item c).itemlist =
      Player.openContainers w p (w.item c).itemlist)
    (haccepts : ∀ c, Player.Opens w p c → Container.accepts srv w item c = true →
      Container.accepts srv w' item c = true)
    (h : (Player.findContainer srv w p item).isSome = true) :
    (Player.findContainer srv w' p item).isSome = true := by
  have hlist (e : ItemId × ℤ) (he : e ∈ (Player.openContainers w p (w.things (.player p))).map
      fun c => (c, (0 : ℤ))) : Player.Opens w p e.1 := by
    obtain ⟨c, hc, rfl⟩ := List.mem_map.mp he
    exact .top hc
  have haccepts_eq (w : World) : (fun c => decide (Container.queryAdd srv w c (-1) item
      (w.item item).count {} = .noError)) = Container.accepts srv w item := rfl
  unfold Player.findContainer at h ⊢
  dsimp only at h ⊢
  rw [haccepts_eq] at h ⊢
  rw [htop]
  cases hfound' : (Player.openContainers w p (w.things (.player p))).find?
      (Container.accepts srv w' item) with
  | some c => rfl
  | none =>
    have hnone : (Player.openContainers w p (w.things (.player p))).find?
        (Container.accepts srv w item) = none := by
      by_contra hsome
      have hsome' := find?_isSome_of_imp (fun c hc => haccepts c (.top hc))
        (Option.isSome_iff_ne_none.mpr hsome)
      rw [hfound'] at hsome'
      cases hsome'
    rw [hnone] at h
    exact Player.deepSearch_isSome hopen haccepts hlist h

/-! ## The item on offer is gone -/

/-- What a player sees of the world once an item has left him, or lies elsewhere than before. -/
structure Lightened (w w' : World) (p : PlayerId) (i : ItemId) : Prop where
  core : ∀ j < w.next, j ≠ i → (w'.item j).core = (w.item j).core
  parent : ∀ j < w.next, j ≠ i → (w'.item j).parent = (w.item j).parent
  player : ∀ q, ∃ inventory, w'.player q = { w.player q with inventory := inventory }
  slot : ∀ s ∈ slots, (w'.player p).inventory s = ((w.player p).inventory s).filter (· ≠ i)
  itemlist : ∀ j, w.Within (.player p) j → (w'.item j).itemlist = (w.item j).itemlist.filter (· ≠ i)
  inventoryWeight : (w.player p).hasInfiniteCapacity = false →
    w'.inventoryWeight p ≤ w.inventoryWeight p

theorem Lightened.tile (h : Lightened w w' p i) (q : PlayerId) :
    (w'.player q).tile = (w.player q).tile := by
  obtain ⟨inventory, heq⟩ := h.player q
  rw [heq]

theorem isInside_congr (htile : ∀ p, (w'.player p).tile = (w.player p).tile) (target : ItemId)
    {n : ℕ} {c : Option Cylinder} (hparent : ∀ j k, c = some (.container j) → w.Around j k →
      (w'.item k).parent = (w.item k).parent) :
    w'.isInside target n c = w.isInside target n c := by
  induction n generalizing c with
  | zero => rfl
  | succ n ih =>
    cases c with
    | none => rfl
    | some aux =>
      have haux : w'.getParent aux = w.getParent aux := by
        cases aux with
        | container j => exact hparent j j rfl (.inl rfl)
        | player p => simp only [World.getParent, htile]
        | tile t => rfl
      unfold World.isInside
      rw [haux, ih]
      intro j k hj hk
      cases aux with
      | container i => exact hparent i k rfl (.inr (hk.up hj))
      | player p =>
        cases ht : (w.player p).tile with
        | none => simp [World.getParent, ht] at hj
        | some t => simp [World.getParent, ht] at hj
      | tile t => cases hj

/-- The places above an item that does not lie within the one that is gone. -/
theorem Lightened.parent_above (h : Lightened w w' p i) (hw : w.Nested) {x k : ItemId}
    (hx : ¬ w.Around x i) (hk : w.Within (.container k) x) :
    (w'.item k).parent = (w.item k).parent := by
  refine h.parent k (hk.container hw).2 ?_
  rintro rfl
  exact hx (.inr hk)

theorem Lightened.getTopParent (h : Lightened w w' p i) (hw : w.Nested) {x : ItemId}
    (hlt : x < w.next) (hx : ¬ w.Around x i) (n : ℕ) :
    w'.getTopParent n x = w.getTopParent n x := by
  have hne : x ≠ i := fun heq => hx (.inl heq.symm)
  refine getTopParent_congr h.tile n (Item.core_isContainer (h.core x hlt hne))
    (h.parent x hlt hne) fun k hk => h.parent_above hw hx hk

/-- The player can carry what he could carry before. -/
theorem Lightened.hasCapacity (h : Lightened w w' p i) (hw : w.Nested) (hlt : item < w.next)
    (hitem : ¬ w.Around item i) (hweight : w'.getWeight item = w.getWeight item) {count : ℕ}
    (hcap : Player.hasCapacity srv w p item count = true) :
    Player.hasCapacity srv w' p item count = true := by
  have hne : item ≠ i := fun heq => hitem (.inl heq.symm)
  have hkind := Item.core_kind (h.core item hlt hne)
  obtain ⟨inventory, hplayer⟩ := h.player p
  have hfree (hinf : (w.player p).hasInfiniteCapacity = false) :
      w.getFreeCapacity p ≤ w'.getFreeCapacity p := by
    have hload := h.inventoryWeight hinf
    unfold World.getFreeCapacity
    rw [hplayer]
    dsimp only
    split_ifs
    · exact le_rfl
    · exact le_rfl
    · exact max_le_max_left 0 (Int.sub_le_sub_left hload _)
  unfold Player.hasCapacity at hcap ⊢
  rw [h.getTopParent hw hlt hitem, hweight]
  unfold Item.isStackable at hcap ⊢
  rw [hkind, hplayer]
  dsimp only
  simp only [Bool.and_eq_true, Bool.or_eq_true, decide_eq_true_eq] at hcap ⊢
  refine ⟨hcap.1, ?_⟩
  cases hinf : (w.player p).hasInfiniteCapacity with
  | true => exact .inl (.inl rfl)
  | false =>
    rw [hinf] at hcap
    rcases hcap.2 with (hcap | hcap) | hcap
    · cases hcap
    · exact .inl (.inr hcap)
    · exact .inr (lt_of_lt_of_le hcap (hfree hinf))

/-- A hand that was free for an item stays so. -/
theorem Lightened.queryHand (h : Lightened w w' p i) (hitem : (w'.item item).core = (w.item item).core)
    {count : ℕ} {other other' : Option ItemId} (hother : other' = other.filter (· ≠ i))
    (hlt : ∀ o, other = some o → o < w.next)
    (hhand : Player.queryHand w item count other = .noError) :
    Player.queryHand w' item count other' = .noError := by
  have hkind := Item.core_kind hitem
  have hcount := Item.core_count hitem
  have hgone : Player.queryHand w' item count none = .noError := by
    unfold Player.queryHand
    simp
  cases other with
  | none =>
    rw [hother]
    exact hgone
  | some o =>
    by_cases ho : o = i
    · have hnone : other' = none := by
        rw [hother, ho]
        simp
      rw [hnone]
      exact hgone
    · have hsome : other' = some o := by
        rw [hother]
        simp [ho]
      have hko := Item.core_kind (h.core o (hlt o rfl) ho)
      rw [hsome]
      unfold Player.queryHand Item.hasSlot Item.isWeapon at hhand ⊢
      dsimp only at hhand ⊢
      rw [hkind, hcount, hko]
      exact hhand

theorem Lightened.querySlot (h : Lightened w w' p i) (hw : Forest srv w)
    (hitem : (w'.item item).core = (w.item item).core) {index : ℤ} {count : ℕ}
    (hslot : Player.querySlot w p index item count = .noError) :
    Player.querySlot w' p index item count = .noError := by
  have hkind := Item.core_kind hitem
  have hdressed : Player.queryDressed w' item = Player.queryDressed w item := by
    unfold Player.queryDressed Item.hasSlot
    dsimp only
    rw [hkind]
  have hhand (s : ℕ) (hs : s ∈ slots)
      (hhand : Player.queryHand w item count ((w.player p).inventory s) = .noError) :
      Player.queryHand w' item count ((w'.player p).inventory s) = .noError := by
    refine h.queryHand hitem (h.slot s hs) (fun o ho => ?_) hhand
    exact hw.lt_next o _ ((hw.mem_things (.player p) o).mp (mem_things_player.mpr ⟨s, hs, ho⟩))
  have hleft := hhand slotLeft (by decide)
  have hright := hhand slotRight (by decide)
  unfold Player.querySlot Item.hasSlot at hslot ⊢
  dsimp only at hslot ⊢
  rw [hkind, hdressed]
  split at hslot
  case h_5 =>
    split at hslot
    · next hright' => rw [if_pos hright', hleft hslot]
    · next hright' => rw [if_neg hright', hslot]
  case h_6 =>
    split at hslot
    · next hleft' => rw [if_pos hleft', hright hslot]
    · next hleft' => rw [if_neg hleft', hslot]
  all_goals exact hslot

/-- An empty slot that took an item still takes it. -/
theorem Lightened.queryAdd (h : Lightened w w' p i) (hw : Forest srv w) (hnested : w.Nested)
    (hscripts : ∀ a q j slot, srv.onPlayerEquip a q j slot = true) (hlt : item < w.next)
    (hitem : ¬ w.Around item i) (hweight : w'.getWeight item = w.getWeight item) {s : ℕ}
    (hs : s ∈ slots) (hempty : (w.player p).inventory s = none) {count : ℕ}
    (hadd : Player.queryAdd srv w p s item count {} = .noError) :
    (w'.player p).inventory s = none ∧ Player.queryAdd srv w' p s item count {} = .noError := by
  have hcore := h.core item hlt fun heq => hitem (.inl heq.symm)
  have hkind := Item.core_kind hcore
  have hempty' : (w'.player p).inventory s = none := by
    rw [h.slot s hs, hempty]
    rfl
  have hfree {w : World} (hempty : (w.player p).inventory s = none) :
      Player.needsExchange w p s item = false := by
    unfold Player.needsExchange
    rw [Player.getInventoryItem_slot hs, hempty]
  refine ⟨hempty', ?_⟩
  have hnever : ((s : ℕ) : ℤ) ≠ 0 ∧ ((s : ℕ) : ℤ) ≠ -1 := by
    have := mem_slots.mp hs
    omega
  unfold Player.queryAdd at hadd ⊢
  dsimp only at hadd ⊢
  rw [hkind]
  rw [if_neg (by simp)] at hadd ⊢
  split at hadd
  · cases hadd
  next hpickupable =>
  rw [if_neg hpickupable]
  split at hadd
  · next hret =>
    have hslot : Player.querySlot w p s item count = .noError := by
      refine hret.resolve_right fun hroom => ?_
      rcases (Player.querySlot_refused (.inl rfl) hroom).2 with hindex | hindex
      · exact hnever.1 hindex
      · exact hnever.2 hindex
    rw [hfree hempty, hscripts, hslot] at hadd
    rw [h.querySlot hw hcore hslot, hfree hempty', hscripts]
    have hcap : Player.hasCapacity srv w p item count = true := by
      by_contra hcap
      simp [hcap] at hadd
    simp [h.hasCapacity hnested hlt hitem hweight hcap]
  · next hret => exact absurd (.inl hadd) hret

theorem Lightened.findSlot (h : Lightened w w' p i) (hw : Forest srv w) (hnested : w.Nested)
    (hscripts : ∀ a q j slot, srv.onPlayerEquip a q j slot = true) (hlt : item < w.next)
    (hitem : ¬ w.Around item i) (hweight : w'.getWeight item = w.getWeight item)
    (hfound : (Player.findSlot srv w p item).isSome = true) :
    (Player.findSlot srv w' p item).isSome = true := by
  obtain ⟨s, hs, hslot⟩ := List.find?_isSome.mp hfound
  simp only [Bool.decide_and, Bool.and_eq_true, decide_eq_true_eq] at hslot
  obtain ⟨hempty, hadd⟩ := hslot
  have hcount := Item.core_count (h.core item hlt fun heq => hitem (.inl heq.symm))
  refine List.find?_isSome.mpr ⟨s, hs, ?_⟩
  rw [hcount]
  simpa using h.queryAdd hw hnested hscripts hlt hitem hweight hs hempty hadd

theorem openContainers_filter (hi : (w.player p).tradeItem = some i)
    (hi' : (w'.player p).tradeItem = some i) {items : List ItemId}
    (hsame : ∀ x ∈ items, x ≠ i → (w'.item x).isContainer = (w.item x).isContainer) :
    Player.openContainers w' p (items.filter (· ≠ i)) = Player.openContainers w p items := by
  unfold Player.openContainers
  rw [List.filter_filter, hi, hi']
  refine List.filter_congr fun x hx => ?_
  by_cases hxi : x = i
  · simp [hxi]
  · simp [hxi, hsame x hx hxi]

/-- What a player has on, without an item that has left its slot. -/
theorem things_of_slots (hslot : ∀ s ∈ slots,
    (w'.player p).inventory s = ((w.player p).inventory s).filter (· ≠ i)) :
    w'.things (.player p) = (w.things (.player p)).filter (· ≠ i) := by
  simp only [World.things, List.filter_filterMap]
  exact List.filterMap_congr hslot

/-- A container that took an item still takes it. -/
theorem Lightened.accepts (h : Lightened w w' p i) (hw : Forest srv w) (hnested : w.Nested)
    (hshallow : w.Shallow srv.loopBound) (hstanding : w.Standing)
    (hi : (w.player p).tradeItem = some i) (hlt : item < w.next) (hitem : ¬ w.Around item i)
    (hweight : w'.getWeight item = w.getWeight item) {c : ItemId} (hc : Player.Opens w p c)
    (haccepts : Container.accepts srv w item c = true) :
    Container.accepts srv w' item c = true := by
  obtain ⟨hin, hcontainer⟩ := hc.within hw.toConsistent
  have hci := hc.not_around hw.toConsistent hi
  obtain ⟨place, hplace, -⟩ := hin.place
  have hclt := hw.lt_next c place hplace
  have hcore := h.core item hlt fun heq => hitem (.inl heq.symm)
  have hccore := h.core c hclt fun heq => hci (.inl heq.symm)
  have htop := getTopParent_within hshallow hstanding hin
  have htop' := (h.getTopParent hnested hclt hci srv.loopBound).trans htop
  -- what is above the container has not changed, so no item would come into itself
  have hinside : w'.isInside item srv.loopBound (w'.item c).parent =
      w.isInside item srv.loopBound (w.item c).parent := by
    rw [h.parent c hclt fun heq => hci (.inl heq.symm)]
    exact isInside_congr h.tile item fun j k hj hk => h.parent_above hnested hci (hk.up hj)
  -- without the item that is traded no container is fuller
  have hfull (hnot : Container.full w c = false) : Container.full w' c = false := by
    have hlength := List.length_filter_le (fun x => decide (x ≠ i)) (w.item c).itemlist
    unfold Container.full at hnot ⊢
    rw [h.itemlist c hin, Item.core_maxSize hccore]
    simp only [decide_eq_false_iff_not, not_le] at hnot ⊢
    omega
  -- the refusals of `queryAdd` in turn
  unfold Container.accepts Container.queryAdd at haccepts ⊢
  rw [decide_eq_true_eq] at haccepts ⊢
  rw [if_neg (by simp)] at haccepts ⊢
  rw [Item.core_kind hcore, Item.core_isContainer hcore, Item.core_count hcore, hinside]
  dsimp only at haccepts ⊢
  rw [htop] at haccepts
  rw [htop']
  split at haccepts
  · cases haccepts
  next hpickupable =>
  split at haccepts
  · cases haccepts
  next hself =>
  split at haccepts
  · cases haccepts
  next hcycle =>
  split at haccepts
  · cases haccepts
  next hroom =>
  have hroom' : ¬ ((-1 : ℤ) = -1 ∧ ¬ false = true ∧ Container.full w' c = true) := by
    rintro ⟨-, -, hfull'⟩
    have hnot : Container.full w c = false := by simpa using hroom
    rw [hfull hnot] at hfull'
    cases hfull'
  rw [if_neg hpickupable, if_neg hself, if_neg hcycle, if_neg hroom']
  have hcap : Player.hasCapacity srv w p item (w.item item).count = true := by
    by_contra hcap
    simp [Player.queryAdd, hcap] at haccepts
  simp [Player.queryAdd, h.hasCapacity hnested hlt hitem hweight hcap]

theorem Lightened.findContainer (h : Lightened w w' p i) (hw : Forest srv w) (hnested : w.Nested)
    (hshallow : w.Shallow srv.loopBound) (hstanding : w.Standing)
    (hi : (w.player p).tradeItem = some i) (hlt : item < w.next) (hitem : ¬ w.Around item i)
    (hweight : w'.getWeight item = w.getWeight item)
    (hfound : (Player.findContainer srv w p item).isSome = true) :
    (Player.findContainer srv w' p item).isSome = true := by
  have hi' : (w'.player p).tradeItem = some i := by
    obtain ⟨inventory, hplayer⟩ := h.player p
    rw [hplayer]
    exact hi
  have hsame {c : Cylinder} (x : ItemId) (hx : x ∈ w.things c) (hxi : x ≠ i) :
      (w'.item x).isContainer = (w.item x).isContainer :=
    Item.core_isContainer (h.core x (hw.lt_next x c ((hw.mem_things c x).mp hx)) hxi)
  refine Player.findContainer_isSome ?_ (fun c hc => ?_)
    (fun c hc => h.accepts hw hnested hshallow hstanding hi hlt hitem hweight hc) hfound
  · rw [things_of_slots h.slot]
    exact openContainers_filter hi hi' hsame
  · rw [h.itemlist c (hc.within hw.toConsistent).1]
    exact openContainers_filter hi hi' (hsame (c := .container c))

/-! ## The test -/

/-- A place at a player's that takes an item. -/
structure Player.Takes (srv : Server) (w : World) (p : PlayerId) (item : ItemId)
    (d : Destination) : Prop where
  destination : Player.queryDestination srv w p item ⟨.player p, -1, none, {}⟩ = d
  destItem : d.destItem = none
  flags : d.flags = {}
  place : (∃ s ∈ slots, d.cylinder = .player p ∧ d.index = s ∧ (w.player p).inventory s = none) ∨
    ∃ c, d.cylinder = .container c ∧ d.index = -1 ∧ Player.Opens w p c ∧
      (w.item c).itemlist.length < (w.item c).maxSize
  queryAdd : Cylinder.queryAdd srv w d.cylinder d.index item (w.item item).count d.flags = .noError

theorem Container.accepts_free {c : ItemId} (h : Container.accepts srv w item c = true) :
    (w.item c).itemlist.length < (w.item c).maxSize := by
  by_contra hfull
  have hfull : Container.full w c = true := by
    simp only [Container.full, decide_eq_true_eq]
    omega
  unfold Container.accepts Container.queryAdd at h
  simp only [hfull, decide_eq_true_eq, Bool.false_eq_true, if_false, not_false_eq_true, and_self,
    if_true] at h
  split_ifs at h

/-- The search ends at a place that takes the item. -/
theorem Player.exists_takes (h : (Player.findSlot srv w p item).isSome = true ∨
    (Player.findContainer srv w p item).isSome = true) : ∃ d, Player.Takes srv w p item d := by
  cases hslot : Player.findSlot srv w p item with
  | some s =>
    have hs := List.mem_of_find?_eq_some hslot
    have hfound := List.find?_some hslot
    simp only [Bool.decide_and, Bool.and_eq_true, decide_eq_true_eq] at hfound
    refine ⟨⟨.player p, s, none, {}⟩, ?_, rfl, rfl, .inl ⟨s, hs, rfl, rfl, hfound.1⟩, hfound.2⟩
    simp only [Player.queryDestination, hslot, or_true, if_true]
  | none =>
    rw [hslot] at h
    obtain ⟨c, hc⟩ := Option.isSome_iff_exists.mp (h.resolve_left (by decide))
    obtain ⟨hopens, haccepts⟩ := Player.findContainer_opens hc
    refine ⟨⟨.container c, -1, none, {}⟩, ?_, rfl, rfl,
      .inr ⟨c, rfl, rfl, hopens, Container.accepts_free haccepts⟩, ?_⟩
    · simp only [Player.queryDestination, hslot, hc, or_true, if_true]
    · exact of_decide_eq_true haccepts

/-- Containers have room for fewer items than 16 bits can count. -/
def World.SizesFit (w : World) : Prop := ∀ j, (w.item j).maxSize < 2 ^ 16

/-- The place has room for the whole item. -/
theorem Player.Takes.queryMaxCount {d : Destination} (h : Player.Takes srv w p item d)
    (hin : ItemInOrder srv (w.item item)) (hsizes : w.SizesFit) :
    ∃ m, Cylinder.queryMaxCount w d.cylinder d.index item (w.item item).count d.flags =
      (m, .noError) ∧ 1 ≤ m ∧ ((w.item item).isStackable = true → (w.item item).count ≤ m) := by
  rcases h.place with ⟨s, hs, hc, hindex, hempty⟩ | ⟨c, hc, hindex, -, hfree⟩
  · rw [hc, hindex]
    simp only [Cylinder.queryMaxCount, Player.queryMaxCount, Player.getThing_slot hs, hempty]
    refine ⟨_, rfl, ?_, fun hst => ?_⟩
    · split <;> decide
    · rw [if_pos hst]
      exact hin.le_hundred hst
  · have hsize := hsizes c
    rw [hc, hindex, h.flags]
    simp only [Cylinder.queryMaxCount, Container.queryMaxCount, Bool.false_eq_true, if_false, if_true,
      add_zero]
    by_cases hst : (w.item item).isStackable = true
    · have hle := hin.le_hundred hst
      have hmod : ((w.item c).maxSize - (w.item c).itemlist.length) * 100 % 2 ^ 32 =
          ((w.item c).maxSize - (w.item c).itemlist.length) * 100 := Nat.mod_eq_of_lt (by omega)
      rw [if_pos hst, hmod]
      refine ⟨_, Prod.ext rfl (if_neg ?_), ?_, fun _ => ?_⟩
      · omega
      · omega
      · omega
    · rw [if_neg hst]
      have hpos : (w.item c).maxSize - (w.item c).itemlist.length ≠ 0 := by omega
      rw [if_neg hpos]
      exact ⟨_, rfl, Nat.one_le_iff_ne_zero.mpr hpos, fun h => absurd h hst⟩

/-- What `Game::internalAddItem` tests, at a player and without an index. -/
theorem internalAddItem_test (hin : ItemInOrder srv (w.item item)) (hsizes : w.SizesFit) :
    (Game.internalAddItem srv w (some (.player p)) (some item) (-1) {} true).2 = .noError ↔
      (Player.findSlot srv w p item).isSome = true ∨
        (Player.findContainer srv w p item).isSome = true := by
  unfold Game.internalAddItem
  dsimp only
  constructor
  · intro h
    by_contra hnone
    simp only [not_or, Bool.not_eq_true, Option.isSome_eq_false_iff, Option.isNone_iff_eq_none]
      at hnone
    -- without a place the player is asked for room at index -1
    have hd : Cylinder.queryDestination srv w item ⟨.player p, -1, none, {}⟩ =
        ⟨.player p, -1, none, {}⟩ := by
      simp only [Cylinder.queryDestination, Player.queryDestination, hnone.1, hnone.2, or_true,
        if_true]
    rw [hd] at h
    split at h
    · next hret => exact hret h
    · next hret =>
      obtain ⟨s, -, heq, -⟩ := Player.queryAdd_noError rfl (not_not.mp hret)
      change (-1 : ℤ) = s at heq
      omega
  · intro h
    obtain ⟨d, htakes⟩ := Player.exists_takes h
    have hd : Cylinder.queryDestination srv w item ⟨.player p, -1, none, {}⟩ = d :=
      htakes.destination
    obtain ⟨m, hmax, -, -⟩ := htakes.queryMaxCount hin hsizes
    rw [hd, htakes.queryAdd, hmax]
    simp

end TyanoCore
