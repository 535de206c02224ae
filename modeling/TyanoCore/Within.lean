import TyanoCore.Walk
import TyanoCore.Forest

/-!
# What lies within a cylinder

The items in a cylinder at any depth, and the cylinders that lie within another one.  As long as
no container lies within itself, the containers form a forest in the sense of `Walk`.
-/

namespace TyanoCore

variable {srv : Server} {w w' : World}

/-- The items in a cylinder, at any depth. -/
inductive World.Within (w : World) (c : Cylinder) : ItemId → Prop
  | thing {i : ItemId} : (w.item i).parent = some c → World.Within w c i
  | nested {i j : ItemId} :
      (w.item i).parent = some (.container j) → World.Within w c j → World.Within w c i

/-- No container lies within itself. -/
def World.Acyclic (w : World) : Prop :=
  ∀ j, ¬ w.Within (.container j) j

theorem World.Within.parent_ne {c : Cylinder} {i : ItemId} (h : w.Within c i) :
    (w.item i).parent ≠ none := by
  cases h with
  | thing h => simp only [h, ne_eq, reduceCtorEq, not_false_eq_true]
  | nested h _ => simp only [h, ne_eq, reduceCtorEq, not_false_eq_true]

theorem World.Within.trans {c : Cylinder} {i j : ItemId} (h : w.Within (.container j) i)
    (hj : w.Within c j) : w.Within c i := by
  induction h with
  | thing h => exact .nested h hj
  | nested h _ ih => exact .nested h ih

/-- Ranks that grow on the way down forbid cycles. -/
theorem World.Acyclic.of_rank (rank : ItemId → ℕ)
    (h : ∀ i j, (w.item i).parent = some (.container j) → rank j < rank i) : w.Acyclic := by
  have hlt {i j : ItemId} (hij : w.Within (.container j) i) : rank j < rank i := by
    induction hij with
    | thing hi => exact h _ _ hi
    | nested hi _ ih => exact lt_trans ih (h _ _ hi)
  intro j hj
  exact lt_irrefl _ (hlt hj)

/-- Two items with one parent lie within the same cylinders. -/
theorem World.Within.sibling {c : Cylinder} {i j : ItemId} (h : w.Within c i)
    (hparent : (w.item j).parent = (w.item i).parent) : w.Within c j := by
  cases h with
  | thing h => exact .thing (hparent.trans h)
  | nested h hj => exact .nested (hparent.trans h) hj

/-- The places within a cylinder. -/
def World.Place (w : World) (c place : Cylinder) : Prop :=
  place = c ∨ ∃ j, place = .container j ∧ w.Within c j

/-- The place of an item decides where it lies within. -/
theorem World.Within.place {c : Cylinder} {i : ItemId} (h : w.Within c i) :
    ∃ place, (w.item i).parent = some place ∧ w.Place c place := by
  cases h with
  | thing h => exact ⟨c, h, .inl rfl⟩
  | nested h hj => exact ⟨_, h, .inr ⟨_, rfl, hj⟩⟩

/-- Seen from above: an item lies in the cylinder itself or within a container that does. -/
theorem Forest.within_iff (hw : Forest srv w) {c : Cylinder} {i : ItemId} :
    w.Within c i ↔ i ∈ w.things c ∨
      ∃ j ∈ w.things c, (w.item j).isContainer = true ∧ w.Within (.container j) i := by
  constructor
  · intro h
    induction h with
    | thing h => exact .inl ((hw.mem_things c _).mpr h)
    | @nested i j h _ ih =>
      right
      rcases ih with hj | ⟨k, hk, hcontainer, hkj⟩
      · exact ⟨j, hj, (hw.container i j h).1, .thing h⟩
      · exact ⟨k, hk, hcontainer, .nested h hkj⟩
  · rintro (h | ⟨j, hj, -, h⟩)
    · exact .thing ((hw.mem_things c i).mp h)
    · exact h.trans (.thing ((hw.mem_things c j).mp hj))

/-! ## The containers -/

/-- The containers among some items. -/
def World.containersOf (w : World) (items : List ItemId) : List ItemId :=
  items.filter fun i => (w.item i).isContainer

/-- The containers that lie directly in a container. -/
def World.nested (w : World) (j : ItemId) : List ItemId :=
  w.containersOf (w.item j).itemlist

theorem mem_containersOf {items : List ItemId} {i : ItemId} :
    i ∈ w.containersOf items ↔ i ∈ items ∧ (w.item i).isContainer = true := by
  simp only [World.containersOf, List.mem_filter]

theorem World.Consistent.mem_nested (hw : w.Consistent) {i j : ItemId} :
    i ∈ w.nested j ↔ (w.item i).parent = some (.container j) ∧ (w.item i).isContainer = true := by
  rw [World.nested, mem_containersOf, ← hw.mem_things (.container j)]
  rfl

theorem World.Consistent.within_of_below (hw : w.Consistent) {i j : ItemId}
    (h : Walk.Below w.nested j i) : w.Within (.container j) i := by
  induction h with
  | single h => exact .thing (hw.mem_nested.mp h).1
  | tail _ h ih => exact .nested (hw.mem_nested.mp h).1 ih

theorem Forest.below_of_within (hw : Forest srv w) {i j : ItemId}
    (h : w.Within (.container j) i) (hcontainer : (w.item i).isContainer = true) :
    Walk.Below w.nested j i := by
  induction h with
  | thing h => exact .single (hw.mem_nested.mpr ⟨h, hcontainer⟩)
  | @nested i k h _ ih =>
    exact .tail (ih (hw.container i k h).1) (hw.mem_nested.mpr ⟨h, hcontainer⟩)

theorem Forest.isForest (hw : Forest srv w) (hacyclic : w.Acyclic) : Walk.IsForest w.nested := by
  constructor
  · intro j
    exact (hw.distinct.itemlist j).filter _
  · intro j k i hj hk
    have hparent := (hw.mem_nested.mp hj).1
    rw [(hw.mem_nested.mp hk).1] at hparent
    exact (Cylinder.container.inj (Option.some.inj hparent)).symm
  · intro j h
    exact hacyclic j (hw.within_of_below h)

theorem World.Consistent.things_nodup (hw : w.Consistent) (c : Cylinder) :
    (w.things c).Nodup := by
  cases c with
  | container j => exact hw.distinct.itemlist j
  | player p =>
    have hslots : slots.Pairwise fun s s' => s ∈ slots ∧ s' ∈ slots ∧ s ≠ s' := by decide
    refine List.Pairwise.filterMap _ ?_ hslots
    rintro s s' ⟨hs, hs', hne⟩ i hi i' hi' rfl
    exact hne (hw.distinct.slot p s s' i hs hs' hi hi')
  | tile t => exact hw.distinct.tile t

/-- The containers in a cylinder lie apart. -/
theorem Forest.apart (hw : Forest srv w) (hacyclic : w.Acyclic) (c : Cylinder) :
    Walk.Apart w.nested (w.containersOf (w.things c)) := by
  constructor
  · exact (hw.things_nodup c).filter _
  · intro i hi j hj h
    have hpi := (hw.mem_things c i).mp (mem_containersOf.mp hi).1
    have hpj := (hw.mem_things c j).mp (mem_containersOf.mp hj).1
    exact hacyclic i ((hw.within_of_below h).sibling (hpi.trans hpj.symm))

/-! ## Worlds with the same containers -/

/-- The containers lie where they lay, and so do the players; new items are no containers. -/
structure SameContainers (w w' : World) : Prop where
  next : w.next ≤ w'.next
  isContainer : ∀ j < w.next, (w'.item j).isContainer = (w.item j).isContainer
  parent : ∀ j < w.next, (w.item j).isContainer = true → (w'.item j).parent = (w.item j).parent
  new : ∀ j, w.next ≤ j → j < w'.next → (w'.item j).isContainer = false
  player : ∀ p, (w'.player p).tile = (w.player p).tile

theorem SameContainers.refl (w : World) : SameContainers w w :=
  ⟨le_rfl, fun _ _ => rfl, fun _ _ _ => rfl, fun _ h h' => absurd h' (not_lt.mpr h), fun _ => rfl⟩

theorem SameContainers.trans {w'' : World} (h : SameContainers w w') (h' : SameContainers w' w'') :
    SameContainers w w'' := by
  have hlt {j : ItemId} (hj : j < w.next) : j < w'.next := lt_of_lt_of_le hj h.next
  constructor
  · exact h.next.trans h'.next
  · intro j hj
    exact (h'.isContainer j (hlt hj)).trans (h.isContainer j hj)
  · intro j hj hcontainer
    rw [h'.parent j (hlt hj) ((h.isContainer j hj).trans hcontainer), h.parent j hj hcontainer]
  · intro j hj hj'
    by_cases hlt : j < w'.next
    · rw [h'.isContainer j hlt]
      exact h.new j hj hlt
    · exact h'.new j (not_lt.mp hlt) hj'
  · intro p
    exact (h'.player p).trans (h.player p)

theorem SameContainers.holder {c : Cylinder} (h : SameContainers w w') (hc : w.Holder c) :
    w'.Holder c := by
  cases c with
  | container j =>
    have hnext := h.next
    exact ⟨(h.isContainer j hc.2).trans hc.1, lt_of_lt_of_le hc.2 hnext⟩
  | player p => trivial
  | tile t => trivial

theorem within_iff_place {c : Cylinder} {i : ItemId} :
    w.Within c i ↔ ∃ place, (w.item i).parent = some place ∧ w.Place c place := by
  constructor
  · exact World.Within.place
  · rintro ⟨place, hparent, rfl | ⟨j, rfl, hj⟩⟩
    · exact .thing hparent
    · exact .nested hparent hj

theorem SameContainers.within (h : SameContainers w w') (hw : Forest srv w) {c : Cylinder}
    {j : ItemId} (hj : w.Within c j) (hcontainer : (w.item j).isContainer = true) :
    w'.Within c j := by
  induction hj with
  | @thing j hj =>
    have hlt := hw.lt_next j c hj
    exact .thing ((h.parent j hlt hcontainer).trans hj)
  | @nested j k hj _ ih =>
    have hlt := hw.lt_next j _ hj
    exact .nested ((h.parent j hlt hcontainer).trans hj) (ih (hw.container j k hj).1)

theorem SameContainers.within_of (h : SameContainers w w') (hw' : Forest srv w') {c : Cylinder}
    {j : ItemId} (hj : w'.Within c j) (hcontainer : (w'.item j).isContainer = true) :
    w.Within c j := by
  have hold {j : ItemId} {c : Cylinder} (hj : (w'.item j).parent = some c)
      (hcontainer : (w'.item j).isContainer = true) : (w.item j).parent = some c := by
    have hlt : j < w.next := by
      by_contra hge
      rw [h.new j (not_lt.mp hge) (hw'.lt_next j c hj)] at hcontainer
      cases hcontainer
    rw [← h.parent j hlt ((h.isContainer j hlt).symm.trans hcontainer)]
    exact hj
  induction hj with
  | thing hj => exact .thing (hold hj hcontainer)
  | @nested j k hj _ ih => exact .nested (hold hj hcontainer) (ih (hw'.container j k hj).1)

/-- The places within a cylinder, where items lie, stay the same. -/
theorem SameContainers.place (h : SameContainers w w') (hw : Forest srv w) (hw' : Forest srv w')
    {c place : Cylinder} {i : ItemId} (hi : (w'.item i).parent = some place) :
    w'.Place c place ↔ w.Place c place := by
  constructor
  · rintro (rfl | ⟨j, rfl, hj⟩)
    · exact .inl rfl
    · exact .inr ⟨j, rfl, h.within_of hw' hj (hw'.container i j hi).1⟩
  · rintro (rfl | ⟨j, rfl, hj⟩)
    · exact .inl rfl
    · obtain ⟨place, hparent, -⟩ := hj.place
      have hlt := hw.lt_next j place hparent
      have hcontainer := (h.isContainer j hlt).symm.trans (hw'.container i j hi).1
      exact .inr ⟨j, rfl, h.within hw hj hcontainer⟩

/-- Containers that lie nowhere within themselves go on doing so. -/
theorem SameContainers.acyclic (h : SameContainers w w') (hw' : Forest srv w')
    (hacyclic : w.Acyclic) : w'.Acyclic := by
  intro j hj
  have hcontainer : (w'.item j).isContainer = true := by
    have hiff := hw'.within_iff.mp hj
    rcases hiff with hmem | ⟨k, hk, -, -⟩
    · exact (hw'.container j j ((hw'.mem_things _ j).mp hmem)).1
    · exact (hw'.container k j ((hw'.mem_things _ k).mp hk)).1
  exact hacyclic j (h.within_of hw' hj hcontainer)

end TyanoCore
