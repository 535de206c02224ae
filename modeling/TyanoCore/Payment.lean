import TyanoCore.FiniteWorld
import TyanoCore.Coins
import TyanoCore.ForestUpdate

/-!
# Paying in full

`Game::removeMoney` takes the coins of a cylinder, the cheapest first.  It compares the amount in
32 bits, and it gives change over a worth table that may contain zero; the main result says when
it nevertheless pays in full or takes nothing.
-/

namespace TyanoCore

variable {srv : Server} {w w' : World}

/-! ## Removing a coin -/

theorem removeThing_parent_none {c : Cylinder} {j : ItemId} {count : ℕ} {i : ItemId}
    (h : (w.item i).parent = none) :
    ((Cylinder.removeThing srv w c j count).item i).parent = none := by
  have hself (item : Item) (hitem : item.parent = (w.item j).parent ∨ item.parent = none) :
      ((w.setItem j item).item i).parent = none := by
    simp only [World.setItem]
    split
    · next hij =>
      subst hij
      rcases hitem with hitem | hitem
      · exact hitem.trans h
      · exact hitem
    · exact h
  have hnone : ((w.setParent j none).item i).parent = none := hself _ (.inr rfl)
  cases c with
  | container k =>
    simp only [Cylinder.removeThing, Container.removeThing]
    split
    · exact h
    · split
      · rw [(sameItems_updateItemWeight _ _ _ _).item]
        exact hself _ (.inl rfl)
      · simp only [World.setParent, World.setItemList, World.setItem,
          (sameItems_updateItemWeight _ _ _ _).item] at hnone ⊢
        split
        · next hik =>
          subst hik
          exact hnone
        · exact hnone
  | player p =>
    simp only [Cylinder.removeThing, Player.removeThing]
    split
    · exact h
    · split
      · exact hself _ (.inl rfl)
      · exact hnone
  | tile t =>
    simp only [Cylinder.removeThing, Tile.removeThing]
    split_ifs
    · exact h
    · exact hnone
    · exact hnone
    · exact h
    · exact hself _ (.inl rfl)
    · exact hnone
    · exact h

theorem removeThing_whole_parent (hw : w.Consistent) {c : Cylinder} {i : ItemId}
    (hi : i ∈ w.things c) :
    ((Cylinder.removeThing srv w c i (w.item i).count).item i).parent = none := by
  have hindex := getIndexOfThing_ne.mpr hi
  have hnone : ((w.setParent i none).item i).parent = none := by
    simp only [World.setParent, World.setItem, if_true]
  cases c with
  | container j =>
    change Container.getIndexOfThing w j i ≠ -1 at hindex
    simp only [Cylinder.removeThing, Container.removeThing]
    rw [if_neg hindex, if_neg (fun h => h.2 rfl)]
    simp only [World.setParent, World.setItemList, World.setItem, if_true]
    split
    · next hij => rw [← hij]; simp
    · rfl
  | player p =>
    change Player.getIndexOfThing w p i ≠ -1 at hindex
    simp only [Cylinder.removeThing, Player.removeThing]
    rw [if_neg hindex, if_neg (fun h => h.2 rfl)]
    exact hnone
  | tile t =>
    change Tile.getIndexOfThing w t i ≠ -1 at hindex
    simp only [Cylinder.removeThing, Tile.removeThing]
    rw [if_neg hindex]
    by_cases hg : (w.tile t).ground = some i
    · rw [if_pos hg]
      exact hnone
    · rw [if_neg hg]
      rcases mem_things_tile.mp hi with h | h | h
      · exact absurd h hg
      · rw [if_pos (hw.sorted.top t i h), if_pos h]
        exact hnone
      · rw [if_neg (by simp only [hw.sorted.down t i h, Bool.false_eq_true, not_false_eq_true]),
          if_pos h, if_neg (fun h => h.2 rfl)]
        exact hnone

theorem internalRemoveItem_parent_none (hsrv : srv.Quiet) {i j : ItemId} {count : Option ℕ}
    {flags : CylinderFlags} (h : (w.item i).parent = none) :
    ((Game.internalRemoveItem srv w j count false flags).1.item i).parent = none := by
  unfold Game.internalRemoveItem
  split
  · exact h
  · dsimp only
    split
    · exact h
    · split
      · exact h
      · rw [if_neg Bool.false_ne_true, (sameItems_postRemoveNotification hsrv _ _ _ _ _).item]
        exact removeThing_parent_none h

theorem Item.count_ne_zero_of_worth {item : Item} (h : 0 < item.getWorth) : item.count ≠ 0 := by
  intro hzero
  simp only [Item.getWorth, hzero, Nat.zero_mul, Nat.lt_irrefl] at h

/-- A coin that can be removed is, as a whole. -/
theorem internalRemoveItem_coin (hsrv : srv.Quiet) (hw : w.Consistent) {i : ItemId}
    (hplace : (w.item i).parent ≠ none) (hworth : 0 < (w.item i).getWorth)
    (hremove : (w.item i).canRemove = true) :
    ((Game.internalRemoveItem srv w i none false {}).1.item i).parent = none := by
  obtain ⟨c, hparent⟩ := Option.ne_none_iff_exists'.mp hplace
  obtain ⟨index, isCompleteRemoval, heq⟩ := internalRemoveItem_eq srv hparent
    ((hw.mem_things c i).mpr hparent) none (Item.count_ne_zero_of_worth hworth) (fun _ => le_rfl)
    hremove
  rw [heq, (sameItems_postRemoveNotification hsrv _ _ _ _ _).item]
  exact removeThing_whole_parent hw ((hw.mem_things c i).mpr hparent)

/-! ## What is left to pay -/

/-- The change due when coins of these worths are taken one after the other. -/
def changeDue : ℕ → List ℕ → Option ℕ
  | _, [] => none
  | money, worth :: worths =>
    if money = 0 then none
    else if money < worth then some (worth - money)
    else changeDue (money - worth) worths

theorem addCoins_eq_none {c : Cylinder} {flags : CylinderFlags} {moneyMap : List (ℕ × KindId)}
    {money : ℕ} : Game.addCoins srv c flags moneyMap w money = none ↔ ∃ e ∈ moneyMap, e.1 = 0 := by
  induction moneyMap generalizing w money with
  | nil => simp only [Game.addCoins, List.not_mem_nil, false_and, exists_false, reduceCtorEq]
  | cons e moneyMap ih =>
    obtain ⟨worth, kindId⟩ := e
    simp only [Game.addCoins, List.mem_cons, exists_eq_or_imp]
    by_cases h : worth = 0
    · simp only [h, if_true, true_or]
    · rw [if_neg h, ih]
      simp only [h, false_or]

theorem addMoney_eq_none {c : Cylinder} {flags : CylinderFlags} {money : ℕ} :
    Game.addMoney srv w c money flags = none ↔ ∃ e ∈ srv.items.worth, e.1 = 0 := by
  simp only [Game.addMoney, addCoins_eq_none, List.mem_reverse]

variable {c : Cylinder} {flags : CylinderFlags} {coins : List (ℕ × ItemId)} {money : ℕ}

/-- The payment gets stuck where change is due and a worth is zero. -/
theorem payCoins_eq_none :
    Game.payCoins srv c flags coins w money = none ↔
      (∃ e ∈ srv.items.worth, e.1 = 0) ∧ changeDue money (coins.map Prod.fst) ≠ none := by
  induction coins generalizing w money with
  | nil => simp [Game.payCoins, changeDue]
  | cons coin coins ih =>
    obtain ⟨worth, item⟩ := coin
    simp only [Game.payCoins, changeDue, List.map_cons]
    split
    · simp
    · split
      · simp [addMoney_eq_none]
      · exact ih

/-- One round of the loop: the payment ends here, or the whole coin goes and the others pay on. -/
theorem payCoins_cons {worth : ℕ} {i : ItemId} {rest : ℕ}
    (h : Game.payCoins srv c flags ((worth, i) :: coins) w money = some (w', rest)) :
    (rest = 0 ∧ (money = 0 ∨ money < worth)) ∨
      worth ≤ money ∧ Game.payCoins srv c flags coins
        (Game.internalRemoveItem srv w i none false {}).1 (money - worth) = some (w', rest) := by
  simp only [Game.payCoins] at h
  split at h
  case isTrue hmoney =>
    simp only [Option.some.injEq, Prod.mk.injEq] at h
    exact .inl ⟨h.2.symm, .inl hmoney⟩
  case isFalse =>
    split at h
    case isTrue hless =>
      obtain ⟨w₁, -, h⟩ := Option.map_eq_some_iff.mp h
      simp only [Prod.mk.injEq] at h
      exact .inl ⟨h.2.symm, .inr hless⟩
    case isFalse hless => exact .inr ⟨Nat.le_of_not_lt hless, h⟩

/-- Each coin pays its worth, up to what is left. -/
theorem payCoins_money {rest : ℕ}
    (h : Game.payCoins srv c flags coins w money = some (w', rest)) :
    rest = money - (coins.map Prod.fst).sum := by
  induction coins generalizing w money with
  | nil =>
    simp only [Game.payCoins, Option.some.injEq, Prod.mk.injEq] at h
    simp [h.2]
  | cons coin coins ih =>
    obtain ⟨worth, item⟩ := coin
    simp only [List.map_cons, List.sum_cons]
    obtain ⟨hrest, hmoney⟩ | ⟨-, h⟩ := payCoins_cons h
    · omega
    · rw [ih h]
      omega

/-- Where all coins do not pay the amount, items that lie nowhere stay there. -/
theorem payCoins_parent_none (hsrv : srv.Quiet) {rest : ℕ}
    (h : Game.payCoins srv c flags coins w money = some (w', rest)) (hrest : 0 < rest)
    {i : ItemId} (hi : (w.item i).parent = none) : (w'.item i).parent = none := by
  induction coins generalizing w money with
  | nil =>
    simp only [Game.payCoins, Option.some.injEq, Prod.mk.injEq] at h
    rw [← h.1]
    exact hi
  | cons coin coins ih =>
    obtain ⟨worth, item⟩ := coin
    obtain ⟨hzero, -⟩ | ⟨-, h⟩ := payCoins_cons h
    · exact absurd hzero hrest.ne'
    · exact ih h (internalRemoveItem_parent_none hsrv hi)

/-- Where all coins do not pay the amount, the first is lost. -/
theorem payCoins_loses (hsrv : srv.Quiet) (hw : w.Consistent) {worth : ℕ} {i : ItemId} {rest : ℕ}
    (h : Game.payCoins srv c flags ((worth, i) :: coins) w money = some (w', rest))
    (hrest : 0 < rest) (hplace : (w.item i).parent ≠ none) (hworth : 0 < (w.item i).getWorth)
    (hremove : (w.item i).canRemove = true) : (w'.item i).parent = none := by
  obtain ⟨hzero, -⟩ | ⟨-, h⟩ := payCoins_cons h
  · exact absurd hzero hrest.ne'
  · exact payCoins_parent_none hsrv h hrest (internalRemoveItem_coin hsrv hw hplace hworth hremove)

/-! ## The multimap -/

theorem moneyMap_perm (w : World) (c : Cylinder) :
    (Game.moneyMap w c).Perm ((Game.coins w c).map fun i => ((w.item i).getWorth, i)) :=
  List.perm_insertionSort _ _

theorem moneyMap_sum (w : World) (c : Cylinder) :
    ((Game.moneyMap w c).map Prod.fst).sum = w.totalWorth c := by
  rw [((moneyMap_perm w c).map Prod.fst).sum_eq, List.map_map]
  rfl

theorem mem_moneyMap {e : ℕ × ItemId} (h : e ∈ Game.moneyMap w c) :
    e.2 ∈ Game.coins w c ∧ e.1 = (w.item e.2).getWorth := by
  obtain ⟨i, hi, rfl⟩ := List.mem_map.mp ((moneyMap_perm w c).mem_iff.mp h)
  exact ⟨hi, rfl⟩

theorem moneyMap_ne_nil (h : Game.coins w c ≠ []) : Game.moneyMap w c ≠ [] := by
  intro hnil
  have hlength := (moneyMap_perm w c).length_eq
  rw [hnil, List.length_map, List.length_nil] at hlength
  exact h (List.length_eq_zero_iff.mp hlength.symm)

/-! ## Paid in full or not at all -/

/-- `Game::removeMoney` returns; it returns true just if the cylinder holds enough, and when it
returns false it has touched no item of the cylinder. -/
def PaidInFull (srv : Server) (w : World) (c : Cylinder) (money : ℕ) (flags : CylinderFlags) :
    Prop :=
  ∃ w' paid, Game.removeMoney srv w (some c) money flags = some (w', paid) ∧
    (paid = true ↔ money ≤ Game.getMoney w (some c)) ∧
    (paid = false → ∀ i, w.Within c i → w'.item i = w.item i)

/-- The amount passes the comparison in 32 bits, although the cylinder holds less, or change has
to be given over a worth of zero. -/
def Mispaid (srv : Server) (w : World) (c : Cylinder) (money : ℕ) : Prop :=
  money % 2 ^ 32 ≤ Game.getMoney w (some c) ∧
    (Game.getMoney w (some c) < money ∧ Game.coins w c ≠ [] ∨
      (∃ e ∈ srv.items.worth, e.1 = 0) ∧
        changeDue money ((Game.moneyMap w c).map Prod.fst) ≠ none)

theorem removeMoney_eq (hmoney : money ≠ 0)
    (henough : money % 2 ^ 32 ≤ Game.getMoney w (some c)) :
    Game.removeMoney srv w (some c) money flags =
      (Game.payCoins srv c flags (Game.moneyMap w c) w money).map
        fun (w, money) => (w, money = 0) := by
  have henough : ¬ Game.moneyCount w c < money % 2 ^ 32 := not_lt.mpr henough
  simp only [Game.removeMoney]
  rw [if_neg hmoney, if_neg henough]

/-- The coins do not suffice, and the amount has passed the comparison. -/
theorem not_paidInFull_of_lt (hsrv : srv.Quiet) (hw : w.Consistent)
    (hcoins : ∀ i ∈ Game.coins w c, (w.item i).canRemove = true)
    (henough : money % 2 ^ 32 ≤ Game.getMoney w (some c))
    (hlt : Game.getMoney w (some c) < money) (hne : Game.coins w c ≠ []) :
    ¬ PaidInFull srv w c money flags := by
  rintro ⟨w', paid, h, hpaid, hkeep⟩
  rw [removeMoney_eq (by omega) henough] at h
  obtain ⟨⟨w₁, rest⟩, hpay, heq⟩ := Option.map_eq_some_iff.mp h
  simp only [Prod.mk.injEq] at heq
  obtain ⟨rfl, rfl⟩ := heq
  have hrest : rest ≠ 0 := by
    intro h0
    have := hpaid.mp (by simp only [h0, decide_true])
    omega
  obtain ⟨⟨worth, i⟩, coins, hcons⟩ : ∃ e coins, Game.moneyMap w c = e :: coins :=
    List.exists_cons_of_ne_nil (moneyMap_ne_nil hne)
  have hmem : i ∈ Game.coins w c := (mem_moneyMap (hcons ▸ List.mem_cons_self)).1
  obtain ⟨hwithin, -, hworth⟩ := hw.coins_within hmem
  rw [hcons] at hpay
  -- the first coin is gone, so the cylinder does not look as before
  have hlost := payCoins_loses hsrv hw hpay (by omega) hwithin.parent_ne hworth (hcoins i hmem)
  rw [hkeep (by simp only [hrest, decide_false]) i hwithin] at hlost
  exact hwithin.parent_ne hlost

/-- Change is due, and a worth is zero. -/
theorem not_paidInFull_of_change (henough : money % 2 ^ 32 ≤ Game.getMoney w (some c))
    (hzero : ∃ e ∈ srv.items.worth, e.1 = 0)
    (hchange : changeDue money ((Game.moneyMap w c).map Prod.fst) ≠ none) :
    ¬ PaidInFull srv w c money flags := by
  rintro ⟨w', paid, h, -, -⟩
  have hmoney : money ≠ 0 := by
    rintro rfl
    cases hmap : (Game.moneyMap w c).map Prod.fst with
    | nil => simp only [hmap, changeDue, ne_eq, not_true_eq_false] at hchange
    | cons worth worths => simp only [hmap, changeDue, if_true, ne_eq, not_true_eq_false] at hchange
  rw [removeMoney_eq hmoney henough, payCoins_eq_none.mpr ⟨hzero, hchange⟩] at h
  cases h

theorem paidInFull_of_not_mispaid (h : ¬ Mispaid srv w c money) :
    PaidInFull srv w c money flags := by
  by_cases hmoney : money = 0
  · subst hmoney
    exact ⟨w, true, by simp [Game.removeMoney], by simp, by simp⟩
  by_cases henough : money % 2 ^ 32 ≤ Game.getMoney w (some c)
  · simp only [Mispaid, not_and, not_or, not_not] at h
    obtain ⟨hlt, hchange⟩ := h henough
    unfold PaidInFull
    rw [removeMoney_eq hmoney henough]
    by_cases hle : money ≤ Game.getMoney w (some c)
    · -- the coins suffice
      have hpay : Game.payCoins srv c flags (Game.moneyMap w c) w money ≠ none := by
        rw [ne_eq, payCoins_eq_none, not_and, not_not]
        exact hchange
      obtain ⟨⟨w', rest⟩, hpay⟩ := Option.ne_none_iff_exists'.mp hpay
      have hrest : rest = 0 := by
        have hsum := payCoins_money hpay
        have hworth := getMoney_le w c
        rw [moneyMap_sum] at hsum
        omega
      refine ⟨w', true, ?_, ?_, ?_⟩
      · rw [hpay, hrest]
        rfl
      · exact iff_of_true rfl hle
      · intro hfalse
        cases hfalse
    · -- no coins at all
      have hnil : Game.moneyMap w c = [] := by
        apply List.eq_nil_of_length_eq_zero
        rw [(moneyMap_perm w c).length_eq, hlt (by omega)]
        rfl
      refine ⟨w, false, ?_, ?_, fun _ _ _ => rfl⟩
      · simp only [hnil, Game.payCoins, Option.map_some, hmoney, decide_false]
      · simp only [Bool.false_eq_true, false_iff]
        exact hle
  · refine ⟨w, false, ?_, ?_, fun _ _ _ => rfl⟩
    · change ¬ _ ≤ Game.moneyCount w c at henough
      simp only [Game.removeMoney]
      rw [if_neg hmoney, if_pos (not_le.mp henough)]
    · have := Nat.mod_le money (2 ^ 32)
      simp only [Bool.false_eq_true, false_iff]
      omega

/-- Payments are made in full or refused unless the amount is cut to 32 bits or the worth table
contains zero.  That the failing payments do lose a coin is about movement events that decide
about slots and abilities only. -/
theorem removeMoney_paidInFull (hw : w.Consistent)
    (hcoins : ∀ i ∈ Game.coins w c, (w.item i).canRemove = true) :
    (¬ Mispaid srv w c money → PaidInFull srv w c money flags) ∧
      (srv.Quiet → (PaidInFull srv w c money flags ↔ ¬ Mispaid srv w c money)) := by
  refine ⟨paidInFull_of_not_mispaid, fun hsrv => ⟨?_, paidInFull_of_not_mispaid⟩⟩
  rintro hpaid ⟨henough, ⟨hlt, hne⟩ | ⟨hzero, hchange⟩⟩
  · exact not_paidInFull_of_lt hsrv hw hcoins henough hlt hne hpaid
  · exact not_paidInFull_of_change henough hzero hchange hpaid

/-! ## Paying with gold -/

open SmallWorld in
/-- A bag with a few coins. -/
def coinsInBag (count : ℕ) : World :=
  .ofLists [bagHolding [1], { inBag gold with count := count }] [] [tile]

open SmallWorld in
def goldServer : Server :=
  { server [bag, gold] with items := .ofKinds [bag, gold] [(1, 2148)] }

theorem removeMoney_paidInFull_gold :
    PaidInFull goldServer (coinsInBag 10) (.container 0) 7 {} ∧
      ¬ PaidInFull goldServer (coinsInBag 10) (.container 0) (2 ^ 32 + 7) {} := by
  have hforest : Forest goldServer (coinsInBag 10) := forest_ofLists (by decide)
  have hquiet : goldServer.Quiet := ⟨fun _ _ _ _ => rfl, fun _ _ _ _ _ => rfl⟩
  have hcoins : ∀ i ∈ Game.coins (coinsInBag 10) (.container 0),
      ((coinsInBag 10).item i).canRemove = true := by decide
  constructor
  · apply (removeMoney_paidInFull hforest.toConsistent hcoins).1
    unfold Mispaid
    decide
  · rw [(removeMoney_paidInFull hforest.toConsistent hcoins).2 hquiet]
    unfold Mispaid
    decide

/-- An amount of 2^32 + 1 takes the one coin there is and is not paid. -/
theorem removeMoney_not_paidInFull :
    ¬ PaidInFull goldServer (coinsInBag 1) (.container 0) (2 ^ 32 + 1) {} := by
  rintro ⟨w', paid, h, hpaid, hkeep⟩
  have hrun : (Game.removeMoney goldServer (coinsInBag 1) (some (.container 0)) (2 ^ 32 + 1)
      {}).map (fun r => (r.2, (r.1.item 1).parent)) = some (false, none) := by decide
  rw [h] at hrun
  simp only [Option.map_some, Option.some.injEq, Prod.mk.injEq] at hrun
  obtain ⟨rfl, hparent⟩ := hrun
  have hwithin : (coinsInBag 1).Within (.container 0) 1 := .thing rfl
  rw [hkeep rfl 1 hwithin] at hparent
  cases hparent

end TyanoCore
