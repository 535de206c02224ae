import TyanoCore.RemoveLeaving
import Mathlib.Algebra.BigOperators.Group.Finset.Piecewise

/-!
# All or nothing

When the loops of `Game::removeItemOfType` end, what has left the inventory can be read off the deal.
It is what was asked for if and only if the items that the loops take are all plain and enough.
-/

namespace TyanoCore

open RemoveRequest

variable {srv : Server} {w w' w'' : World}

/-! ## Inventories -/

open Classical in
/-- The items that a player carries, at whatever depth. -/
noncomputable def World.carried (w : World) (p : PlayerId) : Finset ItemId :=
  (Finset.range w.next).filter fun i => w.Within (.player p) i

open Classical in
/-- How many units of the items a player carries. -/
noncomputable def World.unitsAmong (w : World) (p : PlayerId) (items : Finset ItemId) : ℕ :=
  ∑ i ∈ items, if w.Within (.player p) i then (w.item i).supply else 0

/-- The items among them that are asked for. -/
noncomputable def World.matching (w : World) (p : PlayerId) (itemId : KindId) (subType : ℤ) :
    Finset ItemId :=
  (w.carried p).filter fun i => (w.item i).isOf itemId subType = true

/-- As much is removed as is asked for and nothing else, or nothing is. -/
structure AllOrNothing (w w' : World) (p : PlayerId) (itemId : KindId) (subType : ℤ)
    (count counted : ℕ) (removed : Bool) : Prop where
  removed_iff : removed = true ↔ count ≤ counted
  units : removed = true → w'.unitsAmong p (w.matching p itemId subType) + count =
    w.unitsAmong p (w.matching p itemId subType)
  others : removed = true → ∀ i, w.Within (.player p) i →
    (w.item i).isOf itemId subType = false →
      w'.Within (.player p) i ∧ (w'.item i).core = (w.item i).core
  unchanged : removed = false → (w'.player p).inventory = (w.player p).inventory ∧
    ∀ i, w.Within (.player p) i → w'.item i = w.item i

/-- The items that lie somewhere are as the server makes them: an id has one kind, an item counts
at least one, and neither stacks nor beds are containers. -/
structure World.WellMade (w : World) : Prop where
  kind : ∀ i j, (w.item i).parent ≠ none → (w.item j).parent ≠ none →
    (w.item i).kind.id = (w.item j).kind.id → (w.item i).kind = (w.item j).kind
  count_pos : ∀ i, (w.item i).parent ≠ none → 0 < (w.item i).count
  stack : ∀ i, (w.item i).parent ≠ none → (w.item i).isStackable = true →
    (w.item i).isContainer = false
  bed : ∀ i, (w.item i).parent ≠ none → (w.item i).kind.isBed = true →
    (w.item i).isContainer = false

/-! ## What leaves -/

/-- An item that goes, or lies in one that does. -/
def World.Leaves (w : World) (gone : List ItemId) (i : ItemId) : Prop :=
  ∃ g ∈ gone, w.Around i g

theorem Emptied.within {gone : List ItemId} (h : Emptied w w' gone) {p : PlayerId} {i : ItemId} :
    w'.Within (.player p) i ↔ w.Within (.player p) i ∧ ¬ w.Leaves gone i := by
  have hlost (k : ItemId) (place : Cylinder) (hk : (w'.item k).parent = some place) :
      k ∉ gone ∧ (w.item k).parent = some place := by
    rw [h.parent] at hk
    split at hk
    · cases hk
    · next hgone => exact ⟨hgone, hk⟩
  constructor
  · intro hi
    refine ⟨hi.of_lost fun k place hk => (hlost k place hk).2, ?_⟩
    rintro ⟨g, hg, hig⟩
    induction hi with
    | @thing i hi =>
      obtain ⟨hgone, hparent⟩ := hlost i _ hi
      rcases hig with rfl | hig
      · exact hgone hg
      · cases hig with
        | thing hin => cases hparent.symm.trans hin
        | nested hin _ => cases hparent.symm.trans hin
    | @nested i j hi _ ih =>
      obtain ⟨hgone, hparent⟩ := hlost i _ hi
      rcases hig with rfl | hig
      · exact hgone hg
      · exact ih (hig.around hparent)
  · rintro ⟨hi, hleaves⟩
    have hkept {i : ItemId} (hleaves : ¬ w.Leaves gone i) :
        (w'.item i).parent = (w.item i).parent := by
      rw [h.parent, if_neg fun hi => hleaves ⟨i, hi, .inl rfl⟩]
    induction hi with
    | @thing i hi => exact .thing ((hkept hleaves).trans hi)
    | @nested i j hi _ ih =>
      refine .nested ((hkept hleaves).trans hi) (ih ?_)
      rintro ⟨g, hg, hjg⟩
      exact hleaves ⟨g, hg, .inr (hjg.up hi)⟩

/-- The world after a deal. -/
structure Paid (w w' : World) (d : Deal) : Prop where
  within : ∀ p i, w'.Within (.player p) i ↔ w.Within (.player p) i ∧ ¬ w.Leaves d.gone i
  whole : ∀ j, (∀ m, d.part ≠ some (j, m)) → (w'.item j).core = (w.item j).core
  part : ∀ j m, d.part = some (j, m) →
    (w'.item j).core = { (w.item j).core with count := (w.item j).count - m }

section

variable {r : RemoveRequest} {p : PlayerId} {count : ℕ} {d : Deal}

/-- A part is taken of a stack. -/
theorem RemoveRequest.Deals.part_stack {entries : List (Bool × ItemId)} (h : Deals r w count entries d)
    {x : ItemId} {m : ℕ} (hpart : d.part = some (x, m)) :
    0 < m ∧ m < (w.item x).count ∧ (w.item x).isStackable = true := by
  obtain ⟨hpos, hless⟩ := h.part_lt hpart
  unfold Item.supply at hless
  split at hless
  · next hstack => exact ⟨hpos, hless, hstack⟩
  · omega

theorem RemoveRequest.Deal.items_of_part {x : ItemId} {m : ℕ} (hpart : d.part = some (x, m)) :
    d.items = d.gone ++ [x] := by
  rw [Deal.items, hpart]
  rfl

/-- The stack of which a part is taken is none of the items that go. -/
theorem part_not_gone (hw : w.Consistent) (hnested : w.Nested)
    (hd : Deals r w count (r.scanned w) d) {x : ItemId} {m : ℕ} (hpart : d.part = some (x, m)) :
    x ∉ d.gone := by
  have hnodup := (scanned_nodup hw hnested r).sublist hd.sublist
  rw [Deal.items_of_part hpart, List.nodup_append] at hnodup
  exact fun hgone => hnodup.2.2 x hgone x List.mem_cons_self rfl

theorem mem_items_of_part {x : ItemId} {m : ℕ} (hpart : d.part = some (x, m)) : x ∈ d.items := by
  rw [Deal.items_of_part hpart]
  exact List.mem_append_right _ List.mem_cons_self

theorem paid_settle (hsrv : srv.Quiet) (hw : w.Consistent) (hnested : w.Nested)
    (hplayer : r.cylinder = .player p) (hd : Deals r w count (r.scanned w) d)
    (hempty : Emptied w w' d.gone) : Paid w (settle srv w' d.part) d := by
  cases hpart : d.part with
  | none =>
    refine ⟨fun p i => hempty.within, fun j _ => hempty.core j, ?_⟩
    intro j m h
    rw [hpart] at h
    cases h
  | some xm =>
    obtain ⟨x, m⟩ := xm
    obtain ⟨hpos, hless, hstack⟩ := hd.part_stack hpart
    obtain ⟨nested, hscan, -, hremove⟩ := hd.mem (mem_items_of_part hpart)
    have hplace : ∃ c : Cylinder, c.isTile = false ∧ (w.item x).parent = some c := by
      rcases parent_of_mem_scanned hw hscan with ⟨-, hparent⟩ | ⟨-, j, -, hparent⟩
      · exact ⟨.player p, rfl, hplayer ▸ hparent⟩
      · exact ⟨.container j, rfl, hparent⟩
    obtain ⟨c, hc, hparent⟩ := hplace
    -- the stack is still where it was when the items that go have gone
    have hparent' : (w'.item x).parent = some c := by
      rw [hempty.parent, if_neg (part_not_gone hw hnested hd hpart), hparent]
    have hthing := (hempty.consistent.mem_things c x).mpr hparent'
    have hcount : (w'.item x).count = (w.item x).count := Item.core_count (hempty.core x)
    have hstack' : (w'.item x).isStackable = true :=
      (Item.core_isStackable (hempty.core x)).trans hstack
    obtain ⟨index, isCompleteRemoval, heq⟩ := internalRemoveItem_eq srv hparent' hthing (some m)
      hpos.ne' (fun _ => by rw [hcount]; exact hless.le)
      ((Item.core_canRemove (hempty.core x)).trans (Item.canRemove_of_removable hremove))
    have hrecount : Recounted w' (settle srv w' (some (x, m))) x ((w.item x).count - m) := by
      rw [settle, heq, ← hcount]
      exact (removeThing_recounted hc hthing hstack' (by rw [hcount]; exact hless)).sameItems
        (sameItems_postRemoveNotification hsrv _ _ _ _ _)
    refine ⟨?_, ?_, ?_⟩
    · intro q i
      rw [← hempty.within]
      exact ⟨.of_parents fun k => (hrecount.parent k).symm, .of_parents hrecount.parent⟩
    · intro j hj
      have hne : j ≠ x := fun heq => hj m (by rw [hpart, heq])
      rw [hrecount.item_other j hne]
      exact hempty.core j
    · intro j m' h
      rw [hpart] at h
      cases h
      rw [hrecount.item_self]
      exact congrArg (fun item : Item => { item with count := (w.item x).count - m })
        (hempty.core x)

/-! ## Sums -/

open Classical in
/-- What an item of the inventory counts for less after a deal. -/
noncomputable def RemoveRequest.Deal.lost (d : Deal) (w : World) (i : ItemId) : ℕ :=
  if w.Leaves d.gone i then (w.item i).supply else (d.part.filter fun xm => xm.1 = i).elim 0 Prod.snd

theorem Paid.supply_add_lost (h : Paid w w' d) {entries : List (Bool × ItemId)}
    (hd : Deals r w count entries d) {i : ItemId} (hi : w.Within (.player p) i)
    [Decidable (w'.Within (.player p) i)] :
    (if w'.Within (.player p) i then (w'.item i).supply else 0) + d.lost w i =
      (w.item i).supply := by
  unfold Deal.lost
  by_cases hleaves : w.Leaves d.gone i
  · rw [if_pos hleaves, if_neg fun hi' => ((h.within p i).mp hi').2 hleaves, Nat.zero_add]
  rw [if_neg hleaves, if_pos ((h.within p i).mpr ⟨hi, hleaves⟩)]
  cases hpart : d.part with
  | none =>
    have hcore := h.whole i fun m hm => by rw [hpart] at hm; cases hm
    rw [supply_core hcore]
    rfl
  | some xm =>
    obtain ⟨x, m⟩ := xm
    by_cases hx : x = i
    · subst hx
      obtain ⟨-, hless, hstack⟩ := hd.part_stack hpart
      have hrest : (w'.item x).supply = (w.item x).count - m :=
        (congrArg Item.supply (h.part x m hpart) :).trans (if_pos hstack)
      have hwhole : (w.item x).supply = (w.item x).count := if_pos hstack
      rw [hrest, hwhole, Option.filter_some, if_pos (decide_eq_true rfl)]
      exact Nat.sub_add_cancel hless.le
    · have hcore := h.whole i fun m' hm => by
        rw [hpart] at hm
        exact hx (congrArg Prod.fst (Option.some.inj hm))
      rw [supply_core hcore, Option.filter_some, if_neg (by simpa using hx)]
      rfl

/-- What a deal takes out of the items that are asked for. -/
theorem Paid.unitsAmong (h : Paid w w' d) {entries : List (Bool × ItemId)}
    (hd : Deals r w count entries d) (items : Finset ItemId)
    (hitems : ∀ i ∈ items, w.Within (.player p) i) :
    w'.unitsAmong p items + ∑ i ∈ items, d.lost w i = w.unitsAmong p items := by
  classical
  unfold World.unitsAmong
  rw [← Finset.sum_add_distrib]
  refine Finset.sum_congr rfl fun i hi => ?_
  rw [h.supply_add_lost hd (hitems i hi), if_pos (hitems i hi)]

open Classical in
/-- What lies in the items that go. -/
noncomputable def World.inside (w : World) (p : PlayerId) (gone : List ItemId) : Finset ItemId :=
  (w.carried p).filter fun i => w.Leaves gone i ∧ i ∉ gone

theorem mem_carried (hnested : w.Nested) {i : ItemId} :
    i ∈ w.carried p ↔ w.Within (.player p) i := by
  classical
  rw [World.carried, Finset.mem_filter, Finset.mem_range, and_iff_right_iff_imp]
  intro hi
  obtain ⟨place, hplace, -⟩ := hi.place
  exact hnested.lt_next i place hplace

theorem mem_matching (hnested : w.Nested) {itemId : KindId} {subType : ℤ} {i : ItemId} :
    i ∈ w.matching p itemId subType ↔
      w.Within (.player p) i ∧ (w.item i).isOf itemId subType = true := by
  classical
  rw [World.matching, Finset.mem_filter, mem_carried hnested]

/-- What is taken has been in the inventory. -/
theorem RemoveRequest.Deals.within_of_mem (hd : Deals r w count (r.scanned w) d)
    (hw : w.Consistent) (hnested : w.Nested) (hplayer : r.cylinder = .player p) {x : ItemId}
    (hx : x ∈ d.items) : w.Within (.player p) x := by
  obtain ⟨nested, hscan, -⟩ := hd.mem hx
  exact within_of_mem_scanned hw hnested hplayer hscan

/-- A stack of which a part is taken stays. -/
theorem part_stays (hw : w.Consistent) (hnested : w.Nested) (hplayer : r.cylinder = .player p)
    (hd : Deals r w count (r.scanned w) d) {x : ItemId} {m : ℕ} (hpart : d.part = some (x, m)) :
    ¬ w.Leaves d.gone x := by
  obtain ⟨nested, hx, -⟩ := hd.mem (mem_items_of_part hpart)
  rintro ⟨g, hg, rfl | hin⟩
  · exact part_not_gone hw hnested hd hpart hg
  · obtain ⟨nested', hg', htakes, -⟩ := hd.mem (List.mem_append_left _ hg)
    have hasks := asks_of_takes htakes
    exact scanned_not_within hw hnested hplayer hg' hasks hx hin

open Classical in
/-- An item is lost as it goes itself, as a part of it is taken, or with one that it lies in. -/
theorem lost_eq (hw : w.Consistent) (hnested : w.Nested) (hplayer : r.cylinder = .player p)
    (hd : Deals r w count (r.scanned w) d) (i : ItemId) :
    d.lost w i = (if i ∈ d.gone.toFinset then (w.item i).supply else 0) +
      (d.part.filter fun xm => xm.1 = i).elim 0 Prod.snd +
        if w.Leaves d.gone i ∧ i ∉ d.gone then (w.item i).supply else 0 := by
  -- no part is taken of what leaves as a whole
  have hkept (hleaves : w.Leaves d.gone i) : d.part.filter (fun xm => xm.1 = i) = none := by
    rw [Option.filter_eq_none_iff]
    rintro ⟨x, m⟩ hxm heq
    obtain rfl : x = i := of_decide_eq_true heq
    exact part_stays hw hnested hplayer hd hxm hleaves
  unfold Deal.lost
  simp only [List.mem_toFinset]
  by_cases hi : i ∈ d.gone
  · have hleaves : w.Leaves d.gone i := ⟨i, hi, .inl rfl⟩
    rw [if_pos hleaves, if_pos hi, hkept hleaves, if_neg fun h => h.2 hi]
    rfl
  · rw [if_neg hi]
    by_cases hleaves : w.Leaves d.gone i
    · rw [if_pos hleaves, hkept hleaves, if_pos ⟨hleaves, hi⟩]
      exact (Nat.zero_add _).symm
    · rw [if_neg hleaves, if_neg fun h => hleaves h.1, Nat.zero_add, Nat.add_zero]

/-- The part that is taken is taken of one item. -/
theorem sum_part {items : Finset ItemId} (htaken : ∀ x ∈ d.items, x ∈ items) :
    ∑ i ∈ items, (d.part.filter fun xm => xm.1 = i).elim 0 Prod.snd = d.part.elim 0 Prod.snd := by
  cases hxm : d.part with
  | none => exact Finset.sum_const_zero
  | some xm =>
    have hx : xm.1 ∈ items := htaken xm.1 (mem_items_of_part hxm)
    have hterm (i : ItemId) : ((some xm).filter fun xm => xm.1 = i).elim 0 Prod.snd =
        if xm.1 = i then xm.2 else 0 := by
      rw [Option.filter_some]
      by_cases heq : xm.1 = i <;> simp [heq]
    rw [Finset.sum_congr rfl fun i _ => hterm i, Finset.sum_ite_eq, if_pos hx]
    rfl

/-- What is lost is what the deal counts and what lies in the items that go. -/
theorem sum_lost (hw : w.Consistent) (hnested : w.Nested) (hplayer : r.cylinder = .player p)
    (hd : Deals r w count (r.scanned w) d) {items : Finset ItemId}
    (hitems : items ⊆ w.carried p) (htaken : ∀ x ∈ d.items, x ∈ items)
    (hleaves : ∀ i, w.Within (.player p) i → w.Leaves d.gone i → i ∈ items) :
    ∑ i ∈ items, d.lost w i = d.total w + ∑ i ∈ w.inside p d.gone, (w.item i).supply := by
  classical
  have hgone : ∑ i ∈ items, (if i ∈ d.gone.toFinset then (w.item i).supply else 0) =
      (d.gone.map fun x => (w.item x).supply).sum := by
    have hsubset : d.gone.toFinset ⊆ items := fun i hi =>
      htaken i (List.mem_append_left _ (List.mem_toFinset.mp hi))
    have hnodup := (scanned_nodup hw hnested r).sublist
      ((List.sublist_append_left d.gone _).trans hd.sublist)
    rw [Finset.sum_ite_mem, Finset.inter_eq_right.mpr hsubset, List.sum_toFinset _ hnodup]
  have hinside : ∑ i ∈ items, (if w.Leaves d.gone i ∧ i ∉ d.gone then (w.item i).supply else 0) =
      ∑ i ∈ w.inside p d.gone, (w.item i).supply := by
    rw [← Finset.sum_filter, World.inside]
    refine Finset.sum_congr (Finset.ext fun i => ?_) fun _ _ => rfl
    rw [Finset.mem_filter, Finset.mem_filter]
    exact ⟨fun h => ⟨hitems h.1, h.2⟩,
      fun h => ⟨hleaves i ((mem_carried hnested).mp h.1) h.2.1, h.2⟩⟩
  calc ∑ i ∈ items, d.lost w i
      = ∑ i ∈ items, ((if i ∈ d.gone.toFinset then (w.item i).supply else 0) +
          (d.part.filter fun xm => xm.1 = i).elim 0 Prod.snd +
            if w.Leaves d.gone i ∧ i ∉ d.gone then (w.item i).supply else 0) :=
        Finset.sum_congr rfl fun i _ => lost_eq hw hnested hplayer hd i
    _ = (d.gone.map fun x => (w.item x).supply).sum + d.part.elim 0 Prod.snd +
          ∑ i ∈ w.inside p d.gone, (w.item i).supply := by
        rw [Finset.sum_add_distrib, Finset.sum_add_distrib, hgone, sum_part htaken, hinside]

end

/-! ## Deals that keep to what is asked for -/

theorem inside_eq_empty {p : PlayerId} {gone : List ItemId}
    (h : ∀ g ∈ gone, ∀ i, ¬ w.Within (.container g) i) : w.inside p gone = ∅ := by
  classical
  refine Finset.filter_eq_empty_iff.mpr fun i _ ⟨⟨g, hg, hig⟩, hi⟩ => ?_
  rcases hig with rfl | hin
  · exact hi hg
  · exact h g hg i hin

/-- Nothing lies in an item with an empty list. -/
theorem not_within_of_itemlist (hw : w.Consistent) {g : ItemId} (h : (w.item g).itemlist = [])
    (i : ItemId) : ¬ w.Within (.container g) i := by
  intro hin
  induction hin with
  | @thing i hi =>
    have hmem : i ∈ (w.item g).itemlist := (hw.mem_things (.container g) i).mpr hi
    rw [h] at hmem
    cases hmem
  | nested _ _ ih => exact ih

theorem itemlist_of_not_within (hw : w.Consistent) {g : ItemId}
    (h : ∀ i, ¬ w.Within (.container g) i) : (w.item g).itemlist = [] := by
  rw [List.eq_nil_iff_forall_not_mem]
  exact fun i hi => h i (.thing ((hw.mem_things (.container g) i).mp hi))

theorem World.WellMade.supply_pos (hmade : w.WellMade) {i : ItemId}
    (hi : (w.item i).parent ≠ none) : 0 < (w.item i).supply := by
  unfold Item.supply
  split
  · exact hmade.count_pos i hi
  · exact Nat.one_pos

theorem RemoveRequest.isOf_of_asks {r : RemoveRequest} {nested : Bool} {item : Item}
    (h : r.asks nested item = true) : item.isOf r.itemId r.subType = r.hasSubType item := by
  unfold Item.isOf
  rw [(Bool.and_eq_true_iff.mp h).1, Bool.true_and]
  rfl

theorem RemoveRequest.id_of_takes {r : RemoveRequest} {nested : Bool} {item : Item}
    (h : r.takes nested item = true) : item.kind.id = r.itemId :=
  of_decide_eq_true (Bool.and_eq_true_iff.mp (Bool.and_eq_true_iff.mp h).1).1

/-- Of one kind only beds may be removed in some cases and not in others. -/
theorem isBed_of_canRemove {a b : Item} (hkind : a.kind = b.kind) (ha : a.canRemove = true)
    (hb : b.canRemove = false) : a.kind.isBed = true := by
  unfold Item.canRemove at ha hb
  rw [← hkind, (Bool.and_eq_true_iff.mp ha).1, Bool.true_and, Bool.or_eq_false_iff] at hb
  simpa using hb.1

theorem RemoveRequest.Deal.exists_part_of_mem {d : Deal} {x : ItemId}
    (h : x ∈ (d.part.map Prod.fst).toList) : ∃ m, d.part = some (x, m) := by
  obtain ⟨⟨x', m⟩, hm, rfl⟩ := Option.map_eq_some_iff.mp (Option.mem_toList.mp h)
  exact ⟨m, hm⟩

section

variable (hw : w.Consistent) (hnested : w.Nested) {r : RemoveRequest} {p : PlayerId}
  (hplayer : r.cylinder = .player p) {count counted : ℕ} {d : Deal}
  (hd : Deals r w count (r.scanned w) d)

include hw hnested hplayer hd

/-- What lies in an item that goes is none of the items that go. -/
theorem mem_inside {x i : ItemId} (hx : x ∈ d.gone) (hin : w.Within (.container x) i) :
    i ∈ w.inside p d.gone := by
  classical
  obtain ⟨nested, hscan, htakes, -⟩ := hd.mem (List.mem_append_left _ hx)
  have hcarried := hd.within_of_mem hw hnested hplayer (List.mem_append_left _ hx)
  refine Finset.mem_filter.mpr ⟨?_, ⟨x, hx, .inr hin⟩, fun hi => ?_⟩
  · exact (mem_carried hnested).mpr (hin.trans hcarried)
  · obtain ⟨nested', hscan', -⟩ := hd.mem (List.mem_append_left _ hi)
    exact scanned_not_within hw hnested hplayer hscan (asks_of_takes htakes) hscan' hin

/-- Where a deal is refused an item of the kind, nothing lies in the items that go. -/
theorem inside_eq_empty_of_refused (hmade : w.WellMade) {e : Bool × ItemId}
    (he : e ∈ r.scanned w) (htakes : r.takes e.1 (w.item e.2) = true)
    (hremove : (w.item e.2).removable = false) : w.inside p d.gone = ∅ := by
  have hplaced := (within_of_mem_scanned hw hnested hplayer he).parent_ne
  have hrefused : (w.item e.2).canRemove = false := by
    rcases Bool.and_eq_false_iff.mp hremove with hrefused | hcount
    · exact hrefused
    · exact absurd (hmade.count_pos e.2 hplaced).ne' (of_decide_eq_false hcount)
  refine inside_eq_empty fun g hg i hin => ?_
  obtain ⟨nested, -, htakes', hremove'⟩ := hd.mem (List.mem_append_left _ hg)
  have hgplaced := (hd.within_of_mem hw hnested hplayer (List.mem_append_left _ hg)).parent_ne
  have hkind : (w.item g).kind = (w.item e.2).kind :=
    hmade.kind g e.2 hgplaced hplaced ((id_of_takes htakes').trans (id_of_takes htakes).symm)
  -- of this kind one item may be removed and another one may not, so it is a bed
  have hbed := isBed_of_canRemove hkind (Item.canRemove_of_removable hremove') hrefused
  have hnot := hmade.bed g hgplaced hbed
  rw [(hin.container hnested).1] at hnot
  cases hnot

variable (hpaid : Paid w w' d)

include hpaid

/-- What a deal takes out of the items that are asked for, when it takes no others. -/
theorem unitsAmong_matching
    (hleaves : ∀ i, w.Within (.player p) i → w.Leaves d.gone i →
      (w.item i).isOf r.itemId r.subType = true)
    (hisOf : ∀ x ∈ d.items, (w.item x).isOf r.itemId r.subType = true) :
    w'.unitsAmong p (w.matching p r.itemId r.subType) +
        (d.total w + ∑ i ∈ w.inside p d.gone, (w.item i).supply) =
      w.unitsAmong p (w.matching p r.itemId r.subType) := by
  have hunits := hpaid.unitsAmong hd (w.matching p r.itemId r.subType) fun i hi =>
    ((mem_matching hnested).mp hi).1
  rwa [sum_lost hw hnested hplayer hd] at hunits
  · exact fun i hi => (mem_carried hnested).mpr ((mem_matching hnested).mp hi).1
  · exact fun x hx => (mem_matching hnested).mpr
      ⟨hd.within_of_mem hw hnested hplayer hx, hisOf x hx⟩
  · exact fun i hi hgone => (mem_matching hnested).mpr ⟨hi, hleaves i hi hgone⟩

/-- A deal with plain items takes what is asked for. -/
theorem allOrNothing_of_plain (hcounted : count ≤ counted) (htotal : d.total w = count)
    (hplain : ∀ x ∈ d.items, r.Plain (w.item x)) :
    AllOrNothing w w' p r.itemId r.subType count counted true := by
  have hempty (g : ItemId) (hg : g ∈ d.gone) (i : ItemId) : ¬ w.Within (.container g) i :=
    not_within_of_itemlist hw (hplain g (List.mem_append_left _ hg)).2.2 i
  have hgone {i : ItemId} (hi : w.Leaves d.gone i) : i ∈ d.items := by
    obtain ⟨g, hg, rfl | hin⟩ := hi
    · exact List.mem_append_left _ hg
    · exact absurd hin (hempty g hg i)
  have hisOf (x : ItemId) (hx : x ∈ d.items) : (w.item x).isOf r.itemId r.subType = true := by
    obtain ⟨nested, -, htakes, -⟩ := hd.mem hx
    rw [isOf_of_asks (asks_of_takes htakes)]
    exact (hplain x hx).2.1
  constructor
  · exact iff_of_true rfl hcounted
  · intro _
    have hunits := unitsAmong_matching hw hnested hplayer hd hpaid
      (fun i _ hi => hisOf i (hgone hi)) hisOf
    rwa [inside_eq_empty hempty, Finset.sum_empty, Nat.add_zero, htotal] at hunits
  · intro _ i hi hnot
    have hstays : i ∉ d.items := fun hx => by
      rw [hisOf i hx] at hnot
      cases hnot
    refine ⟨(hpaid.within p i).mpr ⟨hi, fun hleaves => hstays (hgone hleaves)⟩, ?_⟩
    exact hpaid.whole i fun m hm => hstays (mem_items_of_part hm)
  · intro h
    cases h

/-- A deal that takes what is asked for has plain items. -/
theorem plain_of_allOrNothing (hmade : w.WellMade) (hleft : d.left = 0)
    (h : AllOrNothing w w' p r.itemId r.subType count counted true) :
    d.total w = count ∧ ∀ x ∈ d.items, r.Plain (w.item x) := by
  have hothers := h.others rfl
  have hcarried {x : ItemId} (hx : x ∈ d.items) : w.Within (.player p) x :=
    hd.within_of_mem hw hnested hplayer hx
  have hleaves (i : ItemId) (hi : w.Within (.player p) i) (hgone : w.Leaves d.gone i) :
      (w.item i).isOf r.itemId r.subType = true := by
    by_contra hnot
    have hstays := (hothers i hi (Bool.eq_false_iff.mpr hnot)).1
    exact ((hpaid.within p i).mp hstays).2 hgone
  have hisOf (x : ItemId) (hx : x ∈ d.items) : (w.item x).isOf r.itemId r.subType = true := by
    rcases List.mem_append.mp hx with hgone | hpart
    · exact hleaves x (hcarried hx) ⟨x, hgone, .inl rfl⟩
    -- a stack of another sub-type would count less than before
    · obtain ⟨m, hm⟩ := Deal.exists_part_of_mem hpart
      by_contra hnot
      obtain ⟨-, hcore⟩ := hothers x (hcarried hx) (Bool.eq_false_iff.mpr hnot)
      obtain ⟨hm', hless, -⟩ := hd.part_stack hm
      have hcount : (w.item x).count - m = (w.item x).count :=
        congrArg Item.count ((hpaid.part x m hm).symm.trans hcore)
      omega
  have hlost : d.total w + ∑ i ∈ w.inside p d.gone, (w.item i).supply = count := by
    have hunits := unitsAmong_matching hw hnested hplayer hd hpaid hleaves hisOf
    have hcount := h.units rfl
    omega
  rcases hd.total_add_left with htotal | ⟨-, -, hless, e, he, htakes, hremove⟩
  · have htotal : d.total w = count := by omega
    have hzero : ∑ i ∈ w.inside p d.gone, (w.item i).supply = 0 := by omega
    refine ⟨htotal, fun x hx => ?_⟩
    obtain ⟨nested, -, htakes, hremove⟩ := hd.mem hx
    refine ⟨hremove, isOf_of_asks (asks_of_takes htakes) ▸ hisOf x hx,
      itemlist_of_not_within hw fun i hin => ?_⟩
    rcases List.mem_append.mp hx with hgone | hpart
    -- what lies in an item that goes counts something, and no more than the items is lost
    · have hinside := mem_inside hw hnested hplayer hd hgone hin
      have hsupply := hmade.supply_pos hin.parent_ne
      rw [Finset.sum_eq_zero_iff.mp hzero i hinside] at hsupply
      exact Nat.lt_irrefl 0 hsupply
    · obtain ⟨m, hm⟩ := Deal.exists_part_of_mem hpart
      have hnot := hmade.stack x (hcarried hx).parent_ne (hd.part_stack hm).2.2
      rw [(hin.container hnested).1] at hnot
      cases hnot
  -- the rest of the count has been used up at an item that stays, so too little is lost
  · exfalso
    rw [inside_eq_empty_of_refused hw hnested hplayer hd hmade he htakes hremove,
      Finset.sum_empty] at hlost
    omega

end

/-! ## The whole function -/

namespace RemoveRequest

variable {r : RemoveRequest}

/-- The items that the loops come to first are enough and plain. -/
def Fits (r : RemoveRequest) (w : World) (count : ℕ) : Prop := r.FitsIn w count (r.scanned w)

/-- The loops either stick or give a result that is all or nothing if and only if the items fit. -/
theorem gives_allOrNothing (hsrv : srv.Quiet) (hw : w.Consistent) (hnested : w.Nested)
    (hmade : w.WellMade) {p : PlayerId} (hplayer : r.cylinder = .player p) {count counted : ℕ}
    (hcounted : count ≤ counted) :
    (∀ w' removed, Loop.Gives (r.round srv) (r.start w count) (w', removed) →
        AllOrNothing w w' p r.itemId r.subType count counted removed) ↔
      r.GetsStuck w count ∨ r.Fits w count := by
  have hdealt := dealt_start hsrv hw hnested r count
  rw [GetsStuck, ← deal_eq_none, Fits, fitsIn_iff]
  cases hdeal : r.deal w count (r.scanned w) with
  | none =>
    rw [hdeal] at hdealt
    exact iff_of_true (fun w' removed h => (hdealt _ h).elim) (.inl rfl)
  | some d =>
    rw [hdeal] at hdealt
    obtain ⟨w₁, hempty, hgives⟩ := hdealt
    have hd := deals_of_deal hdeal
    have hpaid := paid_settle hsrv hw hnested hplayer hd hempty
    constructor
    · intro h
      have hall := h _ _ hgives
      have hremoved := hall.removed_iff.mpr hcounted
      rw [hremoved] at hall
      have hleft := of_decide_eq_true hremoved
      exact .inr ⟨d, rfl, hleft,
        plain_of_allOrNothing hw hnested hplayer hd hpaid hmade hleft hall⟩
    · rintro (hnone | ⟨d', hd', hleft, htotal, hplain⟩) w' removed h
      · cases hnone
      · obtain rfl := Option.some.inj hd'
        have hresult := h.unique hgives
        rw [decide_eq_true hleft] at hresult
        obtain ⟨rfl, rfl⟩ := Prod.mk.inj hresult
        exact allOrNothing_of_plain hw hnested hplayer hd hpaid hcounted htotal hplain

end RemoveRequest

/-- What a count is as an `int32_t`. -/
theorem bmod_of_lt {n : ℕ} (hn : n < 2 ^ 32) :
    (n : ℤ).bmod (2 ^ 32) = if n < 2 ^ 31 then (n : ℤ) else n - 2 ^ 32 := by
  have hmod : (n : ℤ) % ((2 ^ 32 : ℕ) : ℤ) = n := Int.emod_eq_of_lt (by omega) (by omega)
  unfold Int.bmod
  dsimp only
  rw [hmod]
  split <;> split <;> omega

/-- `Game::removeItemOfType` removes all that is asked for and nothing else, or nothing, if and only
if too little is counted or the count is one of an `int32_t` and the loops do not end or come to
enough items first that are plain. -/
theorem removeItemOfType_allOrNothing_iff (hsrv : srv.Quiet) (hw : w.Consistent)
    (hnested : w.Nested) (hmade : w.WellMade) (p : PlayerId) (itemId : KindId) (subType : ℤ)
    (includeSlots : Bool) {count n counted : ℕ} (hpos : 0 < count)
    (hcounted : Player.getItemTypeCount w n p itemId subType includeSlots = some counted) :
    (∀ n w' removed,
      Game.removeItemOfType srv w n (some (.player p)) itemId count subType includeSlots =
        some (w', removed) → AllOrNothing w w' p itemId subType count counted removed) ↔
      counted < count ∨ counted < 2 ^ 31 ∧
        (RemoveRequest.GetsStuck ⟨.player p, itemId, subType, includeSlots⟩ w count ∨
          RemoveRequest.Fits ⟨.player p, itemId, subType, includeSlots⟩ w count) := by
  have hlt : counted < 2 ^ 32 := by
    obtain ⟨total, -, rfl⟩ := Option.map_eq_some_iff.mp hcounted
    exact Nat.mod_lt _ (by decide)
  have hc : Cylinder.getItemTypeCount w n (.player p) itemId subType includeSlots = some counted :=
    hcounted
  have hsigned := bmod_of_lt hlt
  by_cases hfew : counted < count
  · -- too little is counted, and nothing is taken
    refine iff_of_true (fun n' w' removed h => ?_) (.inl hfew)
    obtain ⟨counted', hc', -⟩ := removeItemOfType_result h
    rw [Cylinder.getItemTypeCount_unique hc' hc] at hc'
    rw [removeItemOfType_eq hc', if_pos (by rw [hsigned]; split <;> omega)] at h
    cases h
    constructor
    · exact iff_of_false Bool.false_ne_true (Nat.not_le_of_lt hfew)
    · exact fun h => absurd h Bool.false_ne_true
    · exact fun h => absurd h Bool.false_ne_true
    · exact fun _ => ⟨rfl, fun _ _ => rfl⟩
  have hle := Nat.le_of_not_lt hfew
  by_cases hbig : counted < 2 ^ 31
  · rw [if_pos hbig] at hsigned
    -- the loops begin for every bound that was enough to count
    have hrun (n' : ℕ) (hn' : n ≤ n') : Game.removeItemOfType srv w n' (some (.player p)) itemId
        count subType includeSlots =
          Loop.run (RemoveRequest.round srv ⟨.player p, itemId, subType, includeSlots⟩) n'
            (RemoveRequest.start ⟨.player p, itemId, subType, includeSlots⟩ w count) := by
      rw [removeItemOfType_eq (Cylinder.getItemTypeCount_mono hn' hc), if_neg (by omega),
        if_neg (by omega)]
    have hall := RemoveRequest.gives_allOrNothing hsrv hw hnested hmade
      (r := ⟨.player p, itemId, subType, includeSlots⟩) rfl hle
    rw [or_iff_right hfew, and_iff_right hbig, ← hall]
    constructor
    · rintro h w' removed ⟨m, hm⟩
      refine h (max m n) w' removed ?_
      rw [hrun _ (le_max_right m n)]
      exact Loop.run_mono (le_max_left m n) hm
    · intro h n' w' removed hresult
      obtain ⟨counted', hc', hgives⟩ := removeItemOfType_result hresult
      rw [Cylinder.getItemTypeCount_unique hc' hc, hsigned, Int.toNat_natCast] at hgives
      exact h w' removed (hgives (by omega) (by omega))
  · -- a count that is negative as an `int32_t` refuses what could be removed
    refine iff_of_false (fun h => ?_) (by omega)
    have hresult : Game.removeItemOfType srv w n (some (.player p)) itemId count subType
        includeSlots = some (w, false) := by
      rw [removeItemOfType_eq hc, if_pos (by rw [hsigned, if_neg hbig]; omega)]
    exact Bool.false_ne_true ((h n w false hresult).removed_iff.mpr hle)

namespace SmallWorld

/-- A player with a bag on his back, and in it five coins on top of three. -/
def stacksInBackpack : World :=
  World.ofLists [{ bagHolding [1, 2] with parent := some (.player 0) },
    { inBag gold with count := 5 }, { inBag gold with count := 3 }]
    [carrier fun s => if s = 3 then some 0 else none] []

theorem stacksInBackpack_forest : Forest (server [bag, gold]) stacksInBackpack :=
  forest_ofLists (by decide)

theorem stacksInBackpack_nested : stacksInBackpack.Nested :=
  stacksInBackpack_forest.nested_of_ordered (by decide)

theorem stacksInBackpack_wellMade : stacksInBackpack.WellMade := by
  have hlt {i : ItemId} (hi : (stacksInBackpack.item i).parent ≠ none) : i < 3 := by
    obtain ⟨c, hc⟩ := Option.ne_none_iff_exists'.mp hi
    exact stacksInBackpack_forest.lt_next i c hc
  have hkind : ∀ i < 3, ∀ j < 3, (stacksInBackpack.item i).kind.id =
      (stacksInBackpack.item j).kind.id →
        (stacksInBackpack.item i).kind = (stacksInBackpack.item j).kind := by decide
  have hitem : ∀ i < 3, 0 < (stacksInBackpack.item i).count ∧
      ((stacksInBackpack.item i).isStackable = true →
        (stacksInBackpack.item i).isContainer = false) ∧
      ((stacksInBackpack.item i).kind.isBed = true →
        (stacksInBackpack.item i).isContainer = false) := by decide
  constructor
  · exact fun i j hi hj => hkind i (hlt hi) j (hlt hj)
  · exact fun i hi => (hitem i (hlt hi)).1
  · exact fun i hi => (hitem i (hlt hi)).2.1
  · exact fun i hi => (hitem i (hlt hi)).2.2

/-- Removing the stack of three coins. -/
def stackRemoved : Option (World × Bool) :=
  Game.removeItemOfType (server [bag, gold]) stacksInBackpack 14 (some (.player 0)) 2148 3 3 true

end SmallWorld

open SmallWorld in
theorem removeItemOfType_allOrNothing_iff_stacks :
    (server [bag, gold]).Quiet ∧ stacksInBackpack.Consistent ∧ stacksInBackpack.Nested ∧
      stacksInBackpack.WellMade ∧
      Player.getItemTypeCount stacksInBackpack 6 0 2148 3 true = some 3 ∧
      ((∀ n w' removed,
        Game.removeItemOfType (server [bag, gold]) stacksInBackpack n (some (.player 0)) 2148
          (3 : ℕ) 3 true = some (w', removed) →
            AllOrNothing stacksInBackpack w' 0 2148 3 3 3 removed) ↔
        3 < 3 ∨ 3 < 2 ^ 31 ∧
          (RemoveRequest.GetsStuck ⟨.player 0, 2148, 3, true⟩ stacksInBackpack 3 ∨
            RemoveRequest.Fits ⟨.player 0, 2148, 3, true⟩ stacksInBackpack 3)) := by
  have hcounted : Player.getItemTypeCount stacksInBackpack 6 0 2148 3 true = some 3 := by decide
  exact ⟨server_quiet _, stacksInBackpack_forest.toConsistent, stacksInBackpack_nested,
    stacksInBackpack_wellMade, hcounted,
    removeItemOfType_allOrNothing_iff (server_quiet _) stacksInBackpack_forest.toConsistent
      stacksInBackpack_nested stacksInBackpack_wellMade 0 2148 3 true (by decide) hcounted⟩

open SmallWorld in
/-- Three coins go from the stack of five, which has another sub-type. -/
theorem removeItemOfType_takes_others :
    ¬ ∀ (srv : Server) (w : World) (p : PlayerId) (itemId : KindId) (subType : ℤ)
      (includeSlots : Bool) (count n counted : ℕ), srv.Quiet → w.Consistent → w.Nested →
        w.WellMade → 0 < count →
        Player.getItemTypeCount w n p itemId subType includeSlots = some counted →
        ∀ n w' removed,
          Game.removeItemOfType srv w n (some (.player p)) itemId count subType includeSlots =
            some (w', removed) →
          AllOrNothing w w' p itemId subType count counted removed := by
  intro h
  have hcounts : stackRemoved.map (fun r => ((r.1.item 1).count, r.2)) = some (2, true) := by decide
  obtain ⟨⟨w', removed⟩, hresult, hpair⟩ := Option.map_eq_some_iff.mp hcounts
  obtain ⟨hcount, rfl⟩ := Prod.mk.inj hpair
  have hall := h (server [bag, gold]) stacksInBackpack 0 2148 3 true 3 6 3 (server_quiet _)
    stacksInBackpack_forest.toConsistent stacksInBackpack_nested stacksInBackpack_wellMade
    (by decide) (by decide) 14 w' true hresult
  have hcarried : stacksInBackpack.Within (.player 0) 1 :=
    .nested (show (stacksInBackpack.item 1).parent = some (.container 0) from rfl) (.thing rfl)
  obtain ⟨-, hcore⟩ := hall.others rfl 1 hcarried (by decide)
  have hsame : (w'.item 1).count = 5 := congrArg Item.count hcore
  exact absurd (hcount.symm.trans hsame) (by decide)

end TyanoCore
