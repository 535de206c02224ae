import TyanoCore.Parents
import Mathlib.Data.Finset.Card
import Mathlib.Data.Finset.Filter
import Mathlib.Data.Finset.Range
import Mathlib.Data.List.Perm.Basic

/-!
# How containers are nested

The links between containers and the items in them, and nothing else of the forest: what an item is
or on whom it is carried does not matter.  Putting an item into a container that is not inside it and
taking it out again keep the links in order.
-/

namespace TyanoCore

variable {w w' : World}

/-- The links of the containers agree, and no container lies within itself. -/
structure World.Nested (w : World) : Prop where
  mem_itemlist : ∀ i j, i ∈ (w.item j).itemlist ↔ (w.item i).parent = some (.container j)
  nodup : ∀ j, (w.item j).itemlist.Nodup
  lt_next : ∀ i c, (w.item i).parent = some c → i < w.next
  container : ∀ i j, (w.item i).parent = some (.container j) →
    (w.item j).isContainer = true ∧ j < w.next
  acyclic : w.Acyclic

/-! ## Depth -/

theorem World.Within.container {j k : ItemId} (hw : w.Nested) (h : w.Within (.container k) j) :
    (w.item k).isContainer = true ∧ k < w.next := by
  induction h with
  | thing h => exact hw.container _ k h
  | nested _ _ ih => exact ih

open Classical in
/-- The number of containers an item lies within. -/
noncomputable def World.depth (w : World) (i : ItemId) : ℕ :=
  ((Finset.range w.next).filter fun k => w.Within (.container k) i).card

theorem World.Nested.depth_lt (hw : w.Nested) {i j : ItemId}
    (h : (w.item i).parent = some (.container j)) : w.depth j < w.depth i := by
  classical
  -- what is around `j` is around `i`, and so is `j` itself
  refine Finset.card_lt_card ⟨fun k hk => ?_, fun hsub => ?_⟩
  · rw [Finset.mem_filter] at hk ⊢
    exact ⟨hk.1, .nested h hk.2⟩
  · have hj : j ∈ (Finset.range w.next).filter fun k => w.Within (.container k) i := by
      rw [Finset.mem_filter, Finset.mem_range]
      exact ⟨(hw.container i j h).2, .thing h⟩
    exact hw.acyclic j (Finset.mem_filter.mp (hsub hj)).2

/-- No walk from parent to parent passes more containers than there are items. -/
theorem World.Nested.depth_lt_next (hw : w.Nested) {j : ItemId} (hj : j < w.next) :
    w.depth j < w.next := by
  classical
  have hcard : w.depth j < (Finset.range w.next).card := by
    refine Finset.card_lt_card ⟨Finset.filter_subset _ _, fun hsub => ?_⟩
    exact hw.acyclic j (Finset.mem_filter.mp (hsub (Finset.mem_range.mpr hj))).2
  rwa [Finset.card_range] at hcard

theorem World.Nested.shallow (hw : w.Nested) (hnext : 0 < w.next) : w.Shallow w.next := by
  refine ⟨w.depth, fun i j h => hw.depth_lt h, fun i => ?_⟩
  by_cases hi : i < w.next
  · exact hw.depth_lt_next hi
  · -- an item that does not exist lies nowhere
    have hnowhere (k : ItemId) : ¬ w.Within (.container k) i := by
      intro h
      obtain ⟨place, hplace, -⟩ := h.place
      exact hi (hw.lt_next i place hplace)
    have hzero : w.depth i = 0 := by
      classical
      rw [World.depth, Finset.card_eq_zero]
      exact Finset.filter_false_of_mem fun k _ => hnowhere k
    rw [hzero]
    exact hnext

/-! ## Changing a link -/

/-- Worlds with the same links. -/
structure SameLinks (w w' : World) : Prop where
  parent : ∀ k, (w'.item k).parent = (w.item k).parent
  itemlist : ∀ k, (w'.item k).itemlist = (w.item k).itemlist
  isContainer : ∀ k, (w'.item k).isContainer = (w.item k).isContainer
  next : w'.next = w.next

theorem SameLinks.refl (w : World) : SameLinks w w :=
  ⟨fun _ => rfl, fun _ => rfl, fun _ => rfl, rfl⟩

theorem SameLinks.trans {w'' : World} (h : SameLinks w w') (h' : SameLinks w' w'') :
    SameLinks w w'' :=
  ⟨fun k => (h'.parent k).trans (h.parent k), fun k => (h'.itemlist k).trans (h.itemlist k),
    fun k => (h'.isContainer k).trans (h.isContainer k), h'.next.trans h.next⟩

theorem SameItems.sameLinks (h : SameItems w w') : SameLinks w w' := by
  constructor
  · exact fun k => by rw [h.item]
  · exact fun k => by rw [h.item]
  · exact fun k => by rw [h.item]
  · exact h.next

theorem World.Within.of_sameLinks (h : SameLinks w w') {c : Cylinder} {i : ItemId} :
    w'.Within c i ↔ w.Within c i :=
  ⟨.of_parents fun k => (h.parent k).symm, .of_parents h.parent⟩

theorem World.Nested.of_sameLinks (hw : w.Nested) (h : SameLinks w w') : w'.Nested := by
  constructor
  · intro i j
    rw [h.itemlist, h.parent]
    exact hw.mem_itemlist i j
  · intro j
    rw [h.itemlist]
    exact hw.nodup j
  · intro i c hi
    rw [h.parent] at hi
    rw [h.next]
    exact hw.lt_next i c hi
  · intro i j hi
    rw [h.parent] at hi
    rw [h.isContainer, h.next]
    exact hw.container i j hi
  · exact fun j hj => hw.acyclic j ((World.Within.of_sameLinks h).mp hj)

/-- An item that lay nowhere has been put into a container. -/
structure LinkPut (i j : ItemId) (w w' : World) : Prop where
  parent : (w'.item i).parent = some (.container j)
  others : ∀ k, k ≠ i → (w'.item k).parent = (w.item k).parent
  itemlist : (w'.item j).itemlist.Perm (i :: (w.item j).itemlist)
  itemlists : ∀ k, k ≠ j → (w'.item k).itemlist = (w.item k).itemlist
  isContainer : ∀ k, (w'.item k).isContainer = (w.item k).isContainer
  next : w'.next = w.next

/-- An item has been taken out of a container and put nowhere, or on something else. -/
structure LinkTaken (i j : ItemId) (w w' : World) : Prop where
  parent : (w'.item i).parent = none
  others : ∀ k, k ≠ i → (w'.item k).parent = (w.item k).parent
  itemlist : (w'.item j).itemlist = (w.item j).itemlist.erase i
  itemlists : ∀ k, k ≠ j → (w'.item k).itemlist = (w.item k).itemlist
  isContainer : ∀ k, (w'.item k).isContainer = (w.item k).isContainer
  next : w'.next = w.next

theorem LinkPut.trans {i j : ItemId} {w'' : World} (h : LinkPut i j w w') (h' : SameLinks w' w'') :
    LinkPut i j w w'' := by
  constructor
  · rw [h'.parent, h.parent]
  · exact fun k hk => (h'.parent k).trans (h.others k hk)
  · rw [h'.itemlist]
    exact h.itemlist
  · exact fun k hk => (h'.itemlist k).trans (h.itemlists k hk)
  · exact fun k => (h'.isContainer k).trans (h.isContainer k)
  · exact h'.next.trans h.next

theorem LinkTaken.of_sameLinks {i j : ItemId} {w'' : World} (h : SameLinks w w')
    (h' : LinkTaken i j w' w'') : LinkTaken i j w w'' := by
  constructor
  · exact h'.parent
  · exact fun k hk => (h'.others k hk).trans (h.parent k)
  · rw [h'.itemlist, h.itemlist]
  · exact fun k hk => (h'.itemlists k hk).trans (h.itemlist k)
  · exact fun k => (h'.isContainer k).trans (h.isContainer k)
  · exact h'.next.trans h.next

/-- What lies above an item after it, or something around it, has got a new place. -/
theorem World.Within.of_linked {i : ItemId} {place : Cylinder}
    (hplace : (w'.item i).parent = some place)
    (hothers : ∀ k, k ≠ i → (w'.item k).parent = (w.item k).parent)
    (hnot : ∀ j, place = .container j → ¬ w.Around j i) {c : Cylinder} {x : ItemId}
    (hx : w'.Within c x) : w.Within c x ∨ w.Around x i ∧ w.Place c place := by
  -- only what is inside the item has anything new above it
  by_cases hxi : w.Around x i
  · induction hx with
    | @thing x hx =>
      by_cases heq : x = i
      · rw [heq, hplace] at hx
        exact .inr ⟨hxi, .inl (Option.some.inj hx)⟩
      · exact .inl (.thing ((hothers x heq).symm.trans hx))
    | @nested x y hx hy ih =>
      by_cases heq : x = i
      · rw [heq, hplace] at hx
        cases hx
        exact .inr ⟨hxi, .inr ⟨y, rfl, hy.of_moved hothers (hnot y rfl)⟩⟩
      · have hup := (hothers x heq).symm.trans hx
        have hyi : w.Around y i := by
          rcases hxi with hself | hin
          · exact absurd hself.symm heq
          · exact hin.around hup
        rcases ih hyi with hin | ⟨-, hin⟩
        · exact .inl (.nested hup hin)
        · exact .inr ⟨hxi, hin⟩
  · exact .inl (hx.of_moved hothers hxi)

/-- No cycle comes about when an item gets a place that is not inside it. -/
theorem World.Acyclic.linked (hacyclic : w.Acyclic) {i : ItemId} {place : Cylinder}
    (hplace : (w'.item i).parent = some place)
    (hothers : ∀ k, k ≠ i → (w'.item k).parent = (w.item k).parent)
    (hnot : ∀ j, place = .container j → ¬ w.Around j i) : w'.Acyclic := by
  intro k hk
  -- a new cycle would pass the new link, and the place would lie within the item
  rcases hk.of_linked hplace hothers hnot with hin | ⟨hki, hplaced | ⟨j, hplaced, hkj⟩⟩
  · exact hacyclic k hin
  · exact hnot k hplaced hki
  · apply hnot j hplaced
    rcases hki with rfl | hki
    · exact .inr hkj
    · exact .inr (hkj.trans hki)

/-- Nothing new lies above an item where parents are only lost. -/
theorem World.Within.of_lost
    (hlost : ∀ k place, (w'.item k).parent = some place → (w.item k).parent = some place)
    {c : Cylinder} {x : ItemId} (hx : w'.Within c x) : w.Within c x := by
  induction hx with
  | thing hx => exact .thing (hlost _ _ hx)
  | nested hx _ ih => exact .nested (hlost _ _ hx) ih

theorem LinkTaken.lost {i j : ItemId} (h : LinkTaken i j w w') (x : ItemId) (place : Cylinder)
    (hx : (w'.item x).parent = some place) : (w.item x).parent = some place := by
  by_cases heq : x = i
  · rw [heq, h.parent] at hx
    cases hx
  · exact (h.others x heq).symm.trans hx

/-- Putting an item into a container that does not lie within it. -/
theorem World.Nested.put (hw : w.Nested) {i j : ItemId} (h : LinkPut i j w w')
    (hnone : (w.item i).parent = none) (hi : i < w.next)
    (hj : (w.item j).isContainer = true ∧ j < w.next) (hinside : ¬ w.Around j i) :
    w'.Nested := by
  -- the item was in no list before
  have hnot (k : ItemId) : i ∉ (w.item k).itemlist := by
    intro hmem
    rw [hw.mem_itemlist, hnone] at hmem
    cases hmem
  constructor
  · intro x k
    have hlist : x ∈ (w'.item k).itemlist ↔ (k = j ∧ x = i) ∨ x ∈ (w.item k).itemlist := by
      by_cases hk : k = j
      · rw [hk, h.itemlist.mem_iff, List.mem_cons]
        tauto
      · rw [h.itemlists k hk]
        tauto
    rw [hlist]
    by_cases hx : x = i
    · rw [hx, h.parent]
      constructor
      · rintro (⟨hk, -⟩ | hmem)
        · rw [hk]
        · exact absurd hmem (hnot k)
      · intro hk
        cases hk
        exact .inl ⟨rfl, rfl⟩
    · rw [h.others x hx, ← hw.mem_itemlist]
      tauto
  · intro k
    by_cases hk : k = j
    · rw [hk, h.itemlist.nodup_iff]
      exact List.nodup_cons.mpr ⟨hnot j, hw.nodup j⟩
    · rw [h.itemlists k hk]
      exact hw.nodup k
  · intro x c hx
    rw [h.next]
    by_cases hxi : x = i
    · rw [hxi]
      exact hi
    · rw [h.others x hxi] at hx
      exact hw.lt_next x c hx
  · intro x k hx
    rw [h.isContainer, h.next]
    by_cases hxi : x = i
    · rw [hxi, h.parent] at hx
      cases hx
      exact hj
    · rw [h.others x hxi] at hx
      exact hw.container x k hx
  · refine hw.acyclic.linked h.parent h.others ?_
    rintro k ⟨⟩
    exact hinside

theorem World.Nested.take (hw : w.Nested) {i j : ItemId} (h : LinkTaken i j w w')
    (hi : (w.item i).parent = some (.container j)) : w'.Nested := by
  constructor
  · intro x k
    have hlist : x ∈ (w'.item k).itemlist ↔ x ∈ (w.item k).itemlist ∧ x ≠ i := by
      by_cases hk : k = j
      · rw [hk, h.itemlist, (hw.nodup j).mem_erase_iff]
        tauto
      · rw [h.itemlists k hk]
        refine ⟨fun hmem => ⟨hmem, ?_⟩, fun hmem => hmem.1⟩
        rintro rfl
        rw [hw.mem_itemlist, hi] at hmem
        cases hmem
        exact hk rfl
    rw [hlist, hw.mem_itemlist]
    by_cases hx : x = i
    · rw [hx, h.parent]
      simp
    · rw [h.others x hx]
      simp [hx]
  · intro k
    by_cases hk : k = j
    · rw [hk, h.itemlist]
      exact (hw.nodup j).erase i
    · rw [h.itemlists k hk]
      exact hw.nodup k
  · intro x c hx
    rw [h.next]
    by_cases hxi : x = i
    · rw [hxi, h.parent] at hx
      cases hx
    · rw [h.others x hxi] at hx
      exact hw.lt_next x c hx
  · intro x k hx
    rw [h.isContainer, h.next]
    by_cases hxi : x = i
    · rw [hxi, h.parent] at hx
      cases hx
    · rw [h.others x hxi] at hx
      exact hw.container x k hx
  · exact fun k hk => hw.acyclic k (hk.of_lost h.lost)

end TyanoCore
