import Mathlib.Algebra.BigOperators.Group.Finset.Basic
import TyanoCore.Money

/-!
# The coins of a cylinder

The loops of `Game::getMoney` and `Game::removeMoney` meet every coin that lies in the cylinder, at
any depth, exactly once.
-/

namespace TyanoCore

variable {srv : Server} {w : World}

theorem mem_coinsOf {items : List ItemId} {i : ItemId} :
    i ∈ w.coinsOf items ↔
      i ∈ items ∧ (w.item i).isContainer = false ∧ 0 < (w.item i).getWorth := by
  simp only [World.coinsOf, List.mem_filter, Bool.and_eq_true, Bool.not_eq_true',
    decide_eq_true_eq]

/-- The loop over `listContainer` walks through the nested containers. -/
theorem nestedCoins_eq (n : ℕ) (containers : List ItemId) :
    Game.nestedCoins w n containers =
      (Walk.visit w.nested n containers).flatMap fun j => w.coinsOf (w.item j).itemlist := by
  induction n generalizing containers with
  | zero => rfl
  | succ n ih =>
    cases containers with
    | nil => rfl
    | cons j containers =>
      simp only [Game.nestedCoins, Walk.visit, List.flatMap_cons]
      rw [ih]
      rfl

theorem mem_nestedCoins {n : ℕ} {containers : List ItemId} {i : ItemId} :
    i ∈ Game.nestedCoins w n containers ↔
      ∃ j ∈ Walk.visit w.nested n containers, i ∈ w.coinsOf (w.item j).itemlist := by
  rw [nestedCoins_eq, List.mem_flatMap]

/-- The loops meet only coins in the cylinder. -/
theorem World.Consistent.coins_within (hw : w.Consistent) {c : Cylinder} {i : ItemId}
    (hi : i ∈ Game.coins w c) :
    w.Within c i ∧ (w.item i).isContainer = false ∧ 0 < (w.item i).getWorth := by
  have hthing {j : ItemId} (hj : j ∈ w.things c) : w.Within c j :=
    .thing ((hw.mem_things c j).mp hj)
  rcases List.mem_append.mp hi with hi | hi
  · obtain ⟨hmem, hcoin⟩ := mem_coinsOf.mp hi
    exact ⟨hthing hmem, hcoin⟩
  · obtain ⟨j, hj, hi⟩ := mem_nestedCoins.mp hi
    obtain ⟨hmem, hcoin⟩ := mem_coinsOf.mp hi
    obtain ⟨k, hk, hkj⟩ := Walk.visit_below hj
    have hk := hthing (mem_containersOf.mp hk).1
    have hjc : w.Within c j := by
      rcases hkj with rfl | hkj
      · exact hk
      · exact (hw.within_of_below hkj).trans hk
    exact ⟨.nested ((hw.mem_things (.container j) i).mp hmem) hjc, hcoin⟩

/-- The loops meet every coin in the cylinder. -/
theorem Forest.mem_coins (hw : Forest srv w) (hacyclic : w.Acyclic) {c : Cylinder} {i : ItemId} :
    i ∈ Game.coins w c ↔
      w.Within c i ∧ (w.item i).isContainer = false ∧ 0 < (w.item i).getWorth := by
  refine ⟨hw.coins_within, ?_⟩
  rintro ⟨hi, hcoin⟩
  refine List.mem_append.mpr ?_
  rcases hw.within_iff.mp hi with hmem | ⟨j, hj, hcontainer, hi⟩
  · exact .inl (mem_coinsOf.mpr ⟨hmem, hcoin⟩)
  · right
    -- the last container on the way down
    obtain ⟨k, hparent, hjk⟩ : ∃ k, (w.item i).parent = some (.container k) ∧
        (k = j ∨ Walk.Below w.nested j k) := by
      cases hi with
      | thing h => exact ⟨j, h, .inl rfl⟩
      | @nested i k h hk => exact ⟨k, h, .inr (hw.below_of_within hk (hw.container i k h).1)⟩
    rw [mem_nestedCoins]
    refine ⟨k, ?_, mem_coinsOf.mpr ⟨(hw.mem_things (.container k) i).mpr hparent, hcoin⟩⟩
    have hbound : ∀ a ∈ w.containersOf (w.things c), ∀ b, b = a ∨ Walk.Below w.nested a b →
        b ∈ Finset.range w.next := by
      intro a ha b hab
      rw [Finset.mem_range]
      rcases hab with rfl | hab
      · exact hw.lt_next b c ((hw.mem_things c b).mp (mem_containersOf.mp ha).1)
      · obtain ⟨place, hplace, -⟩ := (hw.within_of_below hab).place
        exact hw.lt_next b place hplace
    exact Walk.visit_complete (hw.isForest hacyclic) (hw.apart hacyclic c) hbound
      (by rw [Finset.card_range]) (mem_containersOf.mpr ⟨hj, hcontainer⟩) hjk

/-- The loops meet no coin twice. -/
theorem Forest.coins_nodup (hw : Forest srv w) (hacyclic : w.Acyclic) (c : Cylinder) :
    (Game.coins w c).Nodup := by
  have hfilter (items : List ItemId) (h : items.Nodup) : (w.coinsOf items).Nodup := h.filter _
  refine List.nodup_append.mpr ⟨hfilter _ (hw.things_nodup c), ?_, ?_⟩
  · rw [nestedCoins_eq, List.nodup_flatMap]
    constructor
    · intro j _
      exact hfilter _ (hw.distinct.itemlist j)
    · refine (Walk.visit_nodup (hw.isForest hacyclic) (hw.apart hacyclic c)).imp ?_
      intro j k hjk i hj hk
      have hpj := (hw.mem_things (.container j) i).mp (mem_coinsOf.mp hj).1
      have hpk := (hw.mem_things (.container k) i).mp (mem_coinsOf.mp hk).1
      rw [hpj] at hpk
      exact hjk (Cylinder.container.inj (Option.some.inj hpk))
  · intro i hi i' hi' heq
    subst heq
    obtain ⟨j, hj, hi'⟩ := mem_nestedCoins.mp hi'
    have hparent := (hw.mem_things c i).mp (mem_coinsOf.mp hi).1
    rw [(hw.mem_things (.container j) i).mp (mem_coinsOf.mp hi').1] at hparent
    obtain ⟨k, hk, hkj⟩ := Walk.visit_below hj
    have hck := (hw.mem_things c k).mp (mem_containersOf.mp hk).1
    -- the container that holds the coin would be the cylinder and lie in it
    rw [← hparent] at hck
    rcases hkj with hkj | hkj
    · subst hkj
      exact hacyclic j (.thing hck)
    · exact hacyclic j (.trans (hw.within_of_below hkj) (.thing hck))

/-! ## What the coins are worth -/

/-- What the coins of a cylinder are worth, without overflow. -/
def World.totalWorth (w : World) (c : Cylinder) : ℕ :=
  ((Game.coins w c).map fun i => (w.item i).getWorth).sum

theorem getMoney_le (w : World) (c : Cylinder) :
    Game.getMoney w (some c) ≤ w.totalWorth c :=
  Nat.mod_le _ _

/-- What an item is worth as a coin. -/
def Item.coinWorth (item : Item) : ℕ := if item.isContainer then 0 else item.getWorth

open Classical in
theorem Forest.totalWorth_eq (hw : Forest srv w) (hacyclic : w.Acyclic) (c : Cylinder) :
    w.totalWorth c =
      ∑ i ∈ Finset.range w.next, if w.Within c i then (w.item i).coinWorth else 0 := by
  have hcoin {i : ItemId} (hi : i ∈ Game.coins w c) :
      (w.item i).coinWorth = (w.item i).getWorth := by
    unfold Item.coinWorth
    rw [((hw.mem_coins hacyclic).mp hi).2.1]
    rfl
  rw [World.totalWorth, ← List.sum_toFinset _ (hw.coins_nodup hacyclic c)]
  have hsubset : (Game.coins w c).toFinset ⊆ Finset.range w.next := by
    intro i hi
    obtain ⟨hwithin, -⟩ := (hw.mem_coins hacyclic).mp (List.mem_toFinset.mp hi)
    obtain ⟨place, hplace, -⟩ := hwithin.place
    exact Finset.mem_range.mpr (hw.lt_next i place hplace)
  calc ∑ i ∈ (Game.coins w c).toFinset, (w.item i).getWorth
      = ∑ i ∈ (Game.coins w c).toFinset, if w.Within c i then (w.item i).coinWorth else 0 := by
        refine Finset.sum_congr rfl fun i hi => ?_
        have hi := List.mem_toFinset.mp hi
        rw [if_pos ((hw.mem_coins hacyclic).mp hi).1, hcoin hi]
    _ = ∑ i ∈ Finset.range w.next, if w.Within c i then (w.item i).coinWorth else 0 := by
        refine Finset.sum_subset hsubset fun i _ hi => ?_
        rw [List.mem_toFinset, hw.mem_coins hacyclic] at hi
        split
        · next hwithin =>
          unfold Item.coinWorth
          split
          · rfl
          · next hcontainer =>
            by_contra hworth
            exact hi ⟨hwithin, by simpa using hcontainer, Nat.pos_of_ne_zero hworth⟩
        · rfl

end TyanoCore
