import Mathlib.Algebra.Group.Pi.Lemmas
import Mathlib.Data.BitVec
import TyanoCore.Condition
import TyanoCore.Ledger
import TyanoCore.Run

/-!
# Bonuses of conditions

Conditions with attributes and conditions with a speed add to the skills, the stats and the speed of a
player as long as they last.  The parts that are a percentage or a random number are settled when a
condition begins or is renewed, and the condition keeps what it has added.
-/

namespace TyanoCore

/-- What is added to the skills, the stats and the speed. -/
abbrev Bonus := (Skill → BitVec 32) × (Stat → BitVec 32) × BitVec 32

structure Bonuses where
  varSkills : Skill → BitVec 32
  varStats : Stat → BitVec 32
  varSpeed : BitVec 32

/-- What the percentages come to, and the speed that is drawn. -/
structure BonusDraw where
  skills : Skill → BitVec 32
  stats : Stat → BitVec 32
  speed : BitVec 32

namespace Bonuses

def total (b : Bonuses) : Bonus := (b.varSkills, b.varStats, b.varSpeed)

/-- The loops over the skills and the stats; a zero is passed over. -/
def addEach {ι : Type} (values var : ι → BitVec 32) : ι → BitVec 32 :=
  fun i => if values i = 0 then var i else var i + values i

def removeEach {ι : Type} (values var : ι → BitVec 32) : ι → BitVec 32 :=
  fun i => if values i = 0 then var i else var i + -values i

def updateSkills (b : Bonuses) (skills : Skill → BitVec 32) : Bonuses :=
  { b with varSkills := addEach skills b.varSkills }

def updateStats (b : Bonuses) (stats : Stat → BitVec 32) : Bonuses :=
  { b with varStats := addEach stats b.varStats }

/-- `Game::changeSpeed`. -/
def changeSpeed (b : Bonuses) (varSpeedDelta : BitVec 32) : Bonuses :=
  { b with varSpeed := b.varSpeed + varSpeedDelta }

/-- The total has all of the bonuses. -/
theorem total_inj {b b' : Bonuses} (h : b.total = b'.total) : b = b' := by
  cases b
  cases b'
  obtain ⟨hskills, hrest⟩ := Prod.mk.inj h
  obtain ⟨hstats, hspeed⟩ := Prod.mk.inj hrest
  dsimp only at hskills hstats hspeed
  rw [hskills, hstats, hspeed]

theorem addEach_eq {ι : Type} (values var : ι → BitVec 32) : addEach values var = var + values := by
  funext i
  rw [addEach, Pi.add_apply]
  split
  · next hzero => rw [hzero, add_zero]
  · rfl

theorem removeEach_eq {ι : Type} (values var : ι → BitVec 32) :
    removeEach values var = var - values := by
  funext i
  rw [removeEach, Pi.sub_apply]
  split
  · next hzero => rw [hzero, sub_zero]
  · exact (sub_eq_add_neg _ _).symm

end Bonuses

/-! ## The conditions -/

namespace AttributesData

/-- `updatePercentSkills` and `updatePercentStats`. -/
def updatePercent (m : AttributesData) (draw : BonusDraw) : AttributesData :=
  { m with
    skills := fun i => if m.skillsPercent i ≠ 0 then m.skills i + draw.skills i else m.skills i
    stats := fun i => if m.statsPercent i ≠ 0 then m.stats i + draw.stats i else m.stats i }

end AttributesData

namespace SpeedData

/-- A speed of zero is drawn. -/
def drawSpeed (m : SpeedData) (draw : BonusDraw) : SpeedData :=
  if m.speedDelta = 0 then { m with speedDelta := draw.speed } else m

end SpeedData

namespace Condition

variable (b : Bonuses) (now : ℤ) (draw : BonusDraw) (c : Condition)

def updateCondition (addCondition : Condition) : Bool :=
  c.conditionType = addCondition.conditionType &&
    (c.ticks ≠ -1 || addCondition.ticks.toInt < 1) &&
      (addCondition.ticks.toInt < 0 || c.endTime ≤ now + addCondition.ticks.toInt)

def startCondition : Bonuses × Condition :=
  let c := { c with endTime := if 0 < c.ticks.toInt then now + c.ticks.toInt else c.endTime }
  match c.data with
  | .attributes members =>
    let members := members.updatePercent draw
    ((b.updateSkills members.skills).updateStats members.stats,
      { c with data := .attributes members })
  | .speed members =>
    let members := members.drawSpeed draw
    (b.changeSpeed members.speedDelta, { c with data := .speed members })
  | _ => (b, c)

def endCondition : Bonuses :=
  match c.data with
  | .attributes members =>
    { b with
      varSkills := Bonuses.removeEach members.skills b.varSkills
      varStats := Bonuses.removeEach members.stats b.varStats }
  | .speed members => b.changeSpeed (-members.speedDelta)
  | _ => b

/-- `addCondition` of a condition to one of the same class. -/
def addCondition (addCondition : Condition) : Bonuses × Condition :=
  match c.data, addCondition.data with
  | .attributes members, .attributes added =>
    if !c.updateCondition now addCondition then (b, c)
    else
      let members := { added with
        currentSkill := members.currentSkill, currentStat := members.currentStat }.updatePercent draw
      (((c.endCondition b).updateSkills members.skills).updateStats members.stats,
        { c.setTicks now addCondition.ticks with data := .attributes members })
  | .speed members, .speed added =>
    if c.conditionType ≠ addCondition.conditionType ∨
        c.ticks = -1 ∧ 0 < addCondition.ticks.toInt then (b, c)
    else
      let oldSpeedDelta := members.speedDelta
      let members := added.drawSpeed draw
      let newSpeedChange := members.speedDelta - oldSpeedDelta
      (if newSpeedChange ≠ 0 then b.changeSpeed newSpeedChange else b,
        { c.setTicks now addCondition.ticks with data := .speed members })
  | _, _ => (b, c)

/-- `executeCondition` with whether the condition lasts. -/
def executeCondition (interval : BitVec 32) : Condition × Bool :=
  if c.ticks = -1 then (c, true)
  else
    let ticks := c.ticks - interval
    ({ c with ticks := if ticks.toInt < 0 then 0 else ticks }, now ≤ c.endTime)

/-- What a condition has added. -/
def bonus : Bonus :=
  match c.data with
  | .attributes members => (members.skills, members.stats, 0)
  | .speed members => (0, 0, members.speedDelta)
  | _ => 0

end Condition

/-! ## The conditions of a player -/

/-- The bonuses of a player, and what has been withdrawn with items that were destroyed. -/
structure BonusAccount where
  bonuses : Bonuses
  withdrawn : Bonus

structure ConditionedPlayer where
  account : BonusAccount
  conditions : List Condition
  conditionSuppressions : BitVec 32
  oldConditionAccuracy : Bool
  pvpEnforced : Bool

/-- What a condition meets that is to be removed in combat: whether the player may act and else the
delay that is left, the item in the slot of the condition with the bonuses that go with it, and the
dice. -/
structure CombatRemoval where
  canDoAction : Bool
  delay : Option (BitVec 32)
  item : Option Bonus
  dice : ℤ

/-- Calls that change the conditions of a player. -/
inductive ConditionCall
  | addCondition (now : ℤ) (draw : BonusDraw) (condition : Condition)
  | removeConditionsOfType (type : BitVec 32)
  | removeConditionsOfId (type id : BitVec 32)
  | removeCondition (position : ℕ)
  | removeConditionsInCombat (type : BitVec 32) (now : ℕ → ℤ) (combat : ℕ → CombatRemoval)
  | removeConditions (onlyPersistent : Bool)
  | executeConditions (now : ℕ → ℤ) (interval : BitVec 32)

namespace BonusAccount

/-- Bonuses that are left and that were withdrawn. -/
def total (a : BonusAccount) : Bonus := a.bonuses.total + a.withdrawn

def endCondition (a : BonusAccount) (c : Condition) : BonusAccount :=
  { a with bonuses := c.endCondition a.bonuses }

/-- An item is destroyed, and its bonuses go with it. -/
def withdraw (a : BonusAccount) (bonus : Bonus) : BonusAccount where
  bonuses :=
    { varSkills := a.bonuses.varSkills - bonus.1
      varStats := a.bonuses.varStats - bonus.2.1
      varSpeed := a.bonuses.varSpeed - bonus.2.2 }
  withdrawn := a.withdrawn + bonus

/-- A condition that is to be removed, where it is one that a call is about. -/
def removeWhere (remove : ℕ → Condition → Bool) (n : ℕ) (a : BonusAccount) (c : Condition) :
    BonusAccount × Option Condition :=
  if remove n c then (a.endCondition c, none) else (a, some c)

/-- `onCombatRemoveCondition`; a condition with a positive id is from the item in the slot. -/
def onCombatRemoveCondition (pvpEnforced : Bool) (now : ℤ) (combat : CombatRemoval) (a : BonusAccount)
    (c : Condition) : BonusAccount × Option Condition :=
  if 0 < c.id.toInt then
    match combat.item with
    | some bonus => (if pvpEnforced ∧ combat.dice ≤ 25 then a.withdraw bonus else a, some c)
    | none => (a, some c)
  else if combat.canDoAction then (a.endCondition c, none)
  else
    match combat.delay with
    | none => (a.endCondition c, none)
    | some delay => (a, some (c.setTicks now delay))

/-- A round of `executeConditions`. -/
def executeRound (now : ℕ → ℤ) (interval : BitVec 32) (n : ℕ) (a : BonusAccount) (c : Condition) :
    BonusAccount × Option Condition :=
  let (c, lasts) := c.executeCondition (now n) interval
  if lasts then (a, some c) else (a.endCondition c, none)

end BonusAccount

namespace ConditionedPlayer

/-- A loop over the conditions. -/
def sweep (p : ConditionedPlayer)
    (visit : ℕ → BonusAccount → Condition → BonusAccount × Option Condition) : ConditionedPlayer :=
  let (account, conditions) := Ledger.sweep visit 0 p.account p.conditions
  { p with account := account, conditions := conditions }

def isSuppress (p : ConditionedPlayer) (type : BitVec 32) : Bool :=
  p.conditionSuppressions &&& type = type

/-- `hasCondition` of the sub-id 0. -/
def hasCondition (p : ConditionedPlayer) (now : ℤ) (type : BitVec 32) : Bool :=
  !p.isSuppress type && p.conditions.any fun c =>
    c.conditionType = type && c.subId = 0 &&
      (p.oldConditionAccuracy || c.endTime = 0 || now ≤ c.endTime)

def removeConditionsOfType (p : ConditionedPlayer) (type : BitVec 32) : ConditionedPlayer :=
  p.sweep (BonusAccount.removeWhere fun _ c => c.conditionType = type)

def removeConditionsOfId (p : ConditionedPlayer) (type id : BitVec 32) : ConditionedPlayer :=
  p.sweep (BonusAccount.removeWhere fun _ c => c.conditionType = type && c.id = id)

/-- `removeCondition` of a condition at a position; one that is not in the list is not found. -/
def removeCondition (p : ConditionedPlayer) (position : ℕ) : ConditionedPlayer :=
  p.sweep (BonusAccount.removeWhere fun n _ => n = position)

/-- `removeCondition` with an attacker. -/
def removeConditionsInCombat (p : ConditionedPlayer) (type : BitVec 32) (now : ℕ → ℤ)
    (combat : ℕ → CombatRemoval) : ConditionedPlayer :=
  p.sweep fun n a c =>
    if c.conditionType = type then a.onCombatRemoveCondition p.pvpEnforced (now n) (combat n) c
    else (a, some c)

def removeConditions (p : ConditionedPlayer) (onlyPersistent : Bool) : ConditionedPlayer :=
  p.sweep (BonusAccount.removeWhere fun _ c => !(onlyPersistent && !c.isPersistent))

def executeConditions (p : ConditionedPlayer) (now : ℕ → ℤ) (interval : BitVec 32) :
    ConditionedPlayer :=
  p.sweep (BonusAccount.executeRound now interval)

/-- A player who is paralyzed loses the haste, and the other way round. -/
def onAddCondition (p : ConditionedPlayer) (now : ℤ) (type : BitVec 32) : ConditionedPlayer :=
  if type = ConditionType.paralyze.code then
    if p.hasCondition now ConditionType.haste.code then
      p.removeConditionsOfType ConditionType.haste.code
    else p
  else if type = ConditionType.haste.code then
    if p.hasCondition now ConditionType.paralyze.code then
      p.removeConditionsOfType ConditionType.paralyze.code
    else p
  else p

/-- The first condition with the type, the id and the sub-id is renewed. -/
def renew (b : Bonuses) (now : ℤ) (draw : BonusDraw) (condition : Condition) :
    List Condition → Option (Bonuses × List Condition)
  | [] => none
  | previous :: rest =>
    if previous.conditionType = condition.conditionType ∧ previous.id = condition.id ∧
        previous.subId = condition.subId then
      let renewed := previous.addCondition b now draw condition
      some (renewed.1, renewed.2 :: rest)
    else (renew b now draw condition rest).map fun renewed => (renewed.1, previous :: renewed.2)

def addCondition (p : ConditionedPlayer) (now : ℤ) (draw : BonusDraw) (condition : Condition) :
    ConditionedPlayer :=
  if p.isSuppress condition.conditionType then p
  else
    match renew p.account.bonuses now draw condition p.conditions with
    | some (bonuses, conditions) =>
      { p with account := { p.account with bonuses := bonuses }, conditions := conditions }
    | none =>
      let (bonuses, condition) := condition.startCondition p.account.bonuses now draw
      { p with
        account := { p.account with bonuses := bonuses }
        conditions := p.conditions ++ [condition] }.onAddCondition now condition.conditionType

/-- Only conditions with attributes or a speed are added. -/
def step (p : ConditionedPlayer) : ConditionCall → Option ConditionedPlayer
  | .addCondition now draw condition =>
    if ConditionClass.ofType condition.conditionType = some condition.data.classOf ∧
        (condition.data.classOf = .attributes ∨ condition.data.classOf = .speed) then
      some (p.addCondition now draw condition)
    else none
  | .removeConditionsOfType type => some (p.removeConditionsOfType type)
  | .removeConditionsOfId type id => some (p.removeConditionsOfId type id)
  | .removeCondition position => some (p.removeCondition position)
  | .removeConditionsInCombat type now combat => some (p.removeConditionsInCombat type now combat)
  | .removeConditions onlyPersistent => some (p.removeConditions onlyPersistent)
  | .executeConditions now interval => some (p.executeConditions now interval)

/-- A player without conditions, with some bonuses. -/
structure Fresh (initial : Bonuses) (p : ConditionedPlayer) : Prop where
  bonuses_eq : p.account.bonuses = initial
  withdrawn_eq : p.account.withdrawn = 0
  conditions_eq : p.conditions = []

def system (initial : Bonuses) : Transition.System ConditionedPlayer ConditionCall :=
  .ofStep (Fresh initial) step

end ConditionedPlayer

/-! ## The balance -/

namespace Condition

variable {b : Bonuses} {now : ℤ} {draw : BonusDraw} {c : Condition}

theorem total_attributes (b : Bonuses) (members : AttributesData) :
    ((b.updateSkills members.skills).updateStats members.stats).total =
      b.total + (members.skills, members.stats, 0) := by
  rw [Bonuses.total, Bonuses.updateStats, Bonuses.updateSkills, Bonuses.addEach_eq,
    Bonuses.addEach_eq, Bonuses.total, Prod.mk_add_mk, Prod.mk_add_mk, add_zero]

theorem total_changeSpeed (b : Bonuses) (delta : BitVec 32) :
    (b.changeSpeed delta).total = b.total + (0, 0, delta) := by
  rw [Bonuses.total, Bonuses.changeSpeed, Bonuses.total, Prod.mk_add_mk, Prod.mk_add_mk, add_zero,
    add_zero]

/-- A condition that begins adds its bonus. -/
theorem total_startCondition : (c.startCondition b now draw).1.total =
    b.total + (c.startCondition b now draw).2.bonus := by
  rw [startCondition]
  cases hdata : c.data with
  | attributes members => exact total_attributes b _
  | speed members => exact total_changeSpeed b _
  | _ => exact (add_zero _).symm

/-- A condition that ends takes its bonus with it. -/
theorem total_endCondition : (c.endCondition b).total = b.total - c.bonus := by
  rw [endCondition, bonus]
  cases hdata : c.data with
  | attributes members =>
    dsimp only
    rw [Bonuses.total, Bonuses.removeEach_eq, Bonuses.removeEach_eq, Bonuses.total, Prod.mk_sub_mk,
      Prod.mk_sub_mk, sub_zero]
  | speed members =>
    dsimp only
    rw [total_changeSpeed, Bonuses.total, Prod.mk_add_mk, Prod.mk_add_mk, Prod.mk_sub_mk,
      Prod.mk_sub_mk, add_zero, add_zero, sub_zero, sub_zero, sub_eq_add_neg]
  | _ => exact (sub_zero _).symm

/-- A condition that is renewed changes the total as it changes itself, or not at all. -/
theorem total_addCondition (addCondition : Condition) :
    (c.addCondition b now draw addCondition).1.total -
        (c.addCondition b now draw addCondition).2.bonus = b.total - c.bonus := by
  rw [Condition.addCondition]
  cases hdata : c.data with
  | attributes members =>
    cases hadded : addCondition.data with
    | attributes added =>
      dsimp only
      split
      · rfl
      · rw [total_attributes, total_endCondition]
        exact add_sub_cancel_right _ _
    | _ => rfl
  | speed members =>
    cases hadded : addCondition.data with
    | speed added =>
      dsimp only
      split
      · rfl
      · have hbonus : c.bonus = (0, 0, members.speedDelta) := by
          rw [bonus, hdata]
        -- a change of zero is passed over
        have htotal : (if (added.drawSpeed draw).speedDelta - members.speedDelta ≠ 0 then
            b.changeSpeed ((added.drawSpeed draw).speedDelta - members.speedDelta) else b).total =
              b.total + (0, 0, (added.drawSpeed draw).speedDelta - members.speedDelta) := by
          split
          · exact total_changeSpeed b _
          · next hzero =>
            rw [not_not.mp hzero]
            exact (add_zero _).symm
        rw [htotal, hbonus]
        show b.total + (0, 0, (added.drawSpeed draw).speedDelta - members.speedDelta) -
          (0, 0, (added.drawSpeed draw).speedDelta) = _
        have hsplit : ((0, 0, (added.drawSpeed draw).speedDelta - members.speedDelta) : Bonus) =
            (0, 0, (added.drawSpeed draw).speedDelta) - (0, 0, members.speedDelta) := by
          rw [Prod.mk_sub_mk, Prod.mk_sub_mk, sub_zero, sub_zero]
        rw [hsplit]
        abel
    | _ => rfl
  | _ => rfl

theorem bonus_executeCondition (interval : BitVec 32) :
    (c.executeCondition now interval).1.bonus = c.bonus := by
  rw [executeCondition]
  split
  · rfl
  · rfl

end Condition

namespace BonusAccount

/-- What the account holds beyond conditions. -/
abbrev balance (a : BonusAccount) (conditions : List Condition) : Bonus :=
  Ledger.balance total Condition.bonus a conditions

theorem balance_nil (a : BonusAccount) : a.balance [] = a.total := sub_zero _

theorem balance_singleton (a : BonusAccount) (c : Condition) :
    a.balance [c] = a.total - c.bonus := by
  rw [balance, Ledger.balance, List.map_singleton, List.sum_singleton]

/-- A condition that ends leaves the balance of what it was in. -/
theorem balance_endCondition (a : BonusAccount) (c : Condition) :
    (a.endCondition c).balance [] = a.balance [c] := by
  rw [balance_nil, balance_singleton, total, total, endCondition, Condition.total_endCondition]
  abel

/-- What is withdrawn is still counted. -/
theorem total_withdraw (a : BonusAccount) (bonus : Bonus) : (a.withdraw bonus).total = a.total := by
  have hbonuses : (a.withdraw bonus).bonuses.total = a.bonuses.total - bonus := rfl
  have hwithdrawn : (a.withdraw bonus).withdrawn = a.withdrawn + bonus := rfl
  rw [total, total, hbonuses, hwithdrawn]
  abel

theorem balance_removeWhere (remove : ℕ → Condition → Bool) (n : ℕ) (a : BonusAccount)
    (c : Condition) : (removeWhere remove n a c).1.balance (removeWhere remove n a c).2.toList =
      a.balance [c] := by
  rw [removeWhere]
  split
  · exact a.balance_endCondition c
  · rfl

theorem balance_onCombatRemoveCondition (pvpEnforced : Bool) (now : ℤ) (combat : CombatRemoval)
    (a : BonusAccount) (c : Condition) :
    (a.onCombatRemoveCondition pvpEnforced now combat c).1.balance
      (a.onCombatRemoveCondition pvpEnforced now combat c).2.toList = a.balance [c] := by
  rw [onCombatRemoveCondition]
  split
  · split
    · next bonus _ =>
      have htotal : (if pvpEnforced = true ∧ combat.dice ≤ 25 then a.withdraw bonus else a).total =
          a.total := by
        split
        · exact a.total_withdraw bonus
        · rfl
      show balance _ [c] = a.balance [c]
      rw [balance_singleton, balance_singleton, htotal]
    · rfl
  · split
    · exact a.balance_endCondition c
    · split
      · exact a.balance_endCondition c
      · rfl

theorem balance_executeRound (now : ℕ → ℤ) (interval : BitVec 32) (n : ℕ) (a : BonusAccount)
    (c : Condition) : (executeRound now interval n a c).1.balance
      (executeRound now interval n a c).2.toList = a.balance [c] := by
  have hbonus := @Condition.bonus_executeCondition (now n) c interval
  have hsame : a.balance [(c.executeCondition (now n) interval).1] = a.balance [c] := by
    rw [balance_singleton, balance_singleton, hbonus]
  rw [executeRound]
  dsimp only
  split
  · exact hsame
  · exact (a.balance_endCondition _).trans hsame

end BonusAccount

namespace ConditionedPlayer

variable {p : ConditionedPlayer}

/-- What the bonuses hold beyond the conditions. -/
def balance (p : ConditionedPlayer) : Bonus := p.account.balance p.conditions

theorem balance_sweep {visit : ℕ → BonusAccount → Condition → BonusAccount × Option Condition}
    (h : ∀ n a c, (visit n a c).1.balance (visit n a c).2.toList = a.balance [c]) :
    (p.sweep visit).balance = p.balance :=
  Ledger.balance_sweep h 0 p.account p.conditions

theorem balance_removeConditionsOfType (type : BitVec 32) :
    (p.removeConditionsOfType type).balance = p.balance :=
  balance_sweep (BonusAccount.balance_removeWhere _)

theorem balance_onAddCondition (now : ℤ) (type : BitVec 32) :
    (p.onAddCondition now type).balance = p.balance := by
  rw [onAddCondition]
  split
  · split
    · exact balance_removeConditionsOfType _
    · rfl
  · split
    · split
      · exact balance_removeConditionsOfType _
      · rfl
    · rfl

/-- The condition that is renewed stays where it is. -/
theorem balance_renew {b b' : Bonuses} {now : ℤ} {draw : BonusDraw} {condition : Condition}
    {conditions conditions' : List Condition} (withdrawn : Bonus)
    (h : renew b now draw condition conditions = some (b', conditions')) :
    BonusAccount.balance ⟨b', withdrawn⟩ conditions' = BonusAccount.balance ⟨b, withdrawn⟩ conditions := by
  induction conditions generalizing conditions' with
  | nil => cases h
  | cons previous rest ih =>
    rw [renew] at h
    split at h
    · have heq : ((previous.addCondition b now draw condition).1,
          (previous.addCondition b now draw condition).2 :: rest) = (b', conditions') :=
        Option.some.inj h
      obtain ⟨hb, hconditions⟩ := Prod.mk.inj heq
      have htotal := @Condition.total_addCondition b now draw previous condition
      rw [hb] at htotal
      rw [← hconditions]
      have hround : (⟨b', withdrawn⟩ : BonusAccount).total -
          (previous.addCondition b now draw condition).2.bonus =
            (⟨b, withdrawn⟩ : BonusAccount).total - previous.bonus := by
        rw [BonusAccount.total, BonusAccount.total, add_sub_right_comm, htotal]
        exact (add_sub_right_comm _ _ _).symm
      exact Ledger.balance_replace hround [] rest
    · obtain ⟨⟨b₁, rest'⟩, hrest, heq⟩ := Option.map_eq_some_iff.mp h
      obtain ⟨hb, hconditions⟩ := Prod.mk.inj heq
      dsimp only at hb hconditions
      rw [hb] at hrest
      rw [← hconditions, BonusAccount.balance, BonusAccount.balance, Ledger.balance_cons,
        Ledger.balance_cons]
      exact congrArg (· - previous.bonus) (ih hrest)

theorem balance_addCondition (now : ℤ) (draw : BonusDraw) (condition : Condition) :
    (p.addCondition now draw condition).balance = p.balance := by
  rw [addCondition]
  split
  · rfl
  · split
    · next bonuses conditions hrenew => exact balance_renew p.account.withdrawn hrenew
    · rw [balance_onAddCondition]
      have htotal := @Condition.total_startCondition p.account.bonuses now draw condition
      show BonusAccount.balance _ (p.conditions ++ [_]) = _
      rw [BonusAccount.balance, Ledger.balance_append, List.map_singleton, List.sum_singleton]
      have hstart : BonusAccount.balance
          { p.account with bonuses := (condition.startCondition p.account.bonuses now draw).1 }
            p.conditions =
          p.balance + (condition.startCondition p.account.bonuses now draw).2.bonus := by
        apply Ledger.balance_eq_of_total
        rw [BonusAccount.total, BonusAccount.total, htotal]
        exact add_right_comm _ _ _
      rw [BonusAccount.balance] at hstart
      rw [hstart]
      exact add_sub_cancel_right _ _

/-- Every call keeps the balance. -/
theorem balance_step {call : ConditionCall} {q : ConditionedPlayer} (hstep : p.step call = some q) :
    q.balance = p.balance := by
  cases call with
  | addCondition now draw condition =>
    rw [step] at hstep
    split at hstep
    · rw [← Option.some.inj hstep]
      exact balance_addCondition now draw condition
    · cases hstep
  | removeConditionsOfType type =>
    rw [← Option.some.inj hstep]
    exact balance_removeConditionsOfType type
  | removeConditionsOfId type id =>
    rw [← Option.some.inj hstep]
    exact balance_sweep (BonusAccount.balance_removeWhere _)
  | removeCondition position =>
    rw [← Option.some.inj hstep]
    exact balance_sweep (BonusAccount.balance_removeWhere _)
  | removeConditionsInCombat type now combat =>
    rw [← Option.some.inj hstep]
    apply balance_sweep
    intro n a c
    split
    · exact BonusAccount.balance_onCombatRemoveCondition _ _ _ a c
    · rfl
  | removeConditions onlyPersistent =>
    rw [← Option.some.inj hstep]
    exact balance_sweep (BonusAccount.balance_removeWhere _)
  | executeConditions now interval =>
    rw [← Option.some.inj hstep]
    exact balance_sweep (BonusAccount.balance_executeRound now interval)

theorem balance_of_reachable {initial : Bonuses} (h : (system initial).Reachable p) :
    p.balance = initial.total := by
  apply h.invariant fun p => p.balance = initial.total
  · intro p hfresh
    rw [balance, hfresh.conditions_eq, BonusAccount.balance_nil, BonusAccount.total, hfresh.bonuses_eq,
      hfresh.withdrawn_eq, add_zero]
  · intro p call q hbalance hstep
    exact (balance_step hstep).trans hbalance

/-- A part of the bonuses is what the conditions have added of it, less what has been withdrawn. -/
theorem part_of_reachable {initial : Bonuses} (h : (system initial).Reachable p)
    (part : Bonus →+ BitVec 32) : part p.account.bonuses.total - part initial.total =
      (p.conditions.map fun c => part c.bonus).sum - part p.account.withdrawn := by
  have hbalance := balance_of_reachable h
  rw [balance, BonusAccount.balance, Ledger.balance, BonusAccount.total] at hbalance
  have hsum : part (p.conditions.map Condition.bonus).sum =
      (p.conditions.map fun c => part c.bonus).sum := by
    rw [map_list_sum, List.map_map]
    rfl
  rw [← hbalance, map_sub, map_add, hsum]
  abel

/-- The skills, the stats and the speed are above their initial values by what the conditions in the
list have added, less what went with destroyed items; without conditions nothing else is left. -/
theorem bonuses_of_reachable {initial : Bonuses} (h : (system initial).Reachable p) :
    (∀ i, p.account.bonuses.varSkills i - initial.varSkills i =
      (p.conditions.map fun c => c.bonus.1 i).sum - p.account.withdrawn.1 i) ∧
    (∀ i, p.account.bonuses.varStats i - initial.varStats i =
      (p.conditions.map fun c => c.bonus.2.1 i).sum - p.account.withdrawn.2.1 i) ∧
    p.account.bonuses.varSpeed - initial.varSpeed =
      (p.conditions.map fun c => c.bonus.2.2).sum - p.account.withdrawn.2.2 ∧
    (p.conditions = [] → p.account.withdrawn = 0 → p.account.bonuses = initial) := by
  refine ⟨?_, ?_, ?_, ?_⟩
  · intro i
    exact part_of_reachable h ((Pi.evalAddMonoidHom _ i).comp (AddMonoidHom.fst _ _))
  · intro i
    exact part_of_reachable h
      (((Pi.evalAddMonoidHom _ i).comp (AddMonoidHom.fst _ _)).comp (AddMonoidHom.snd _ _))
  · exact part_of_reachable h ((AddMonoidHom.snd _ _).comp (AddMonoidHom.snd _ _))
  · intro hnone hwithdrawn
    have hbalance := balance_of_reachable h
    rw [balance, hnone, BonusAccount.balance_nil, BonusAccount.total, hwithdrawn, add_zero] at hbalance
    exact Bonuses.total_inj hbalance

/-- The bonuses of an armor. -/
def armored : Bonuses := ⟨fun _ => 5, fun _ => 0, 0⟩

/-- A player in an enforced world, with the armor. -/
def novice : ConditionedPlayer where
  account := ⟨armored, 0⟩
  conditions := []
  conditionSuppressions := 0
  oldConditionAccuracy := false
  pvpEnforced := true

theorem novice_fresh : Fresh armored novice := ⟨rfl, rfl, rfl⟩

/-- A condition that adds 3 to every skill and a tenth of it, with the id of a slot or of combat. -/
def strengthened (id : BitVec 32) : Condition where
  id := id
  subId := 0
  ticks := 10000
  endTime := 0
  conditionType := ConditionType.attributes.code
  buff := true
  data := .attributes
    { skills := fun _ => 3, stats := fun _ => 0, skillsPercent := fun _ => 110,
      statsPercent := fun _ => 0, currentSkill := 0, currentStat := 0 }

/-- A tenth of a skill of 20, and no speed. -/
def aTenth : BonusDraw where
  skills := fun _ => 2
  stats := fun _ => 0
  speed := 0

/-- A condition of combat is renewed, a second one begins, and the first one is removed. -/
def strengthenedTwice : List ConditionCall :=
  [.addCondition 0 aTenth (strengthened 0), .addCondition 1000 aTenth (strengthened 0),
    .addCondition 2000 aTenth (strengthened 4), .removeCondition 0]

theorem bonuses_of_reachable_strengthened : ∃ p : ConditionedPlayer,
    ((∀ i, p.account.bonuses.varSkills i - armored.varSkills i =
      (p.conditions.map fun c => c.bonus.1 i).sum - p.account.withdrawn.1 i) ∧
    (∀ i, p.account.bonuses.varStats i - armored.varStats i =
      (p.conditions.map fun c => c.bonus.2.1 i).sum - p.account.withdrawn.2.1 i) ∧
    p.account.bonuses.varSpeed - armored.varSpeed =
      (p.conditions.map fun c => c.bonus.2.2).sum - p.account.withdrawn.2.2 ∧
    (p.conditions = [] → p.account.withdrawn = 0 → p.account.bonuses = armored)) ∧
    p.account.bonuses.varSkills 0 = 10 ∧ p.conditions.length = 1 := by
  have hrun : ((Transition.runActions step novice strengthenedTwice).map fun p =>
      (p.account.bonuses.varSkills 0, p.conditions.length)) = some (10, 1) := by
    decide
  obtain ⟨p, hreach, heq⟩ := Option.map_eq_some_iff.mp hrun
  obtain ⟨hskill, hlength⟩ := Prod.mk.inj heq
  have hnovice : (system armored).Reachable novice := .init novice_fresh
  exact ⟨p, bonuses_of_reachable (Transition.reachable_of_runActions hnovice hreach), hskill, hlength⟩

/-- The armor is destroyed with its bonus of 5, and the condition that is from its slot stays. -/
def armorDestroyed : List ConditionCall :=
  [.addCondition 0 aTenth (strengthened 4),
    .removeConditionsInCombat ConditionType.attributes.code (fun _ => 1000) fun _ =>
      { canDoAction := true, delay := none, item := some (fun _ => 5, fun _ => 0, 0), dice := 25 }]

/-- The bonuses are then less than what the conditions have added. -/
theorem bonuses_withdrawn_with_item :
    ¬ ∀ (initial : Bonuses) (p : ConditionedPlayer), (system initial).Reachable p →
      ∀ i, p.account.bonuses.varSkills i - initial.varSkills i =
        (p.conditions.map fun c => c.bonus.1 i).sum := by
  intro hclaim
  have hrun : ((Transition.runActions step novice armorDestroyed).map fun p =>
      (p.account.bonuses.varSkills 0, (p.conditions.map fun c => c.bonus.1 0).sum)) =
        some (5, 5) := by
    decide
  obtain ⟨p, hreach, heq⟩ := Option.map_eq_some_iff.mp hrun
  obtain ⟨hskill, hsum⟩ := Prod.mk.inj heq
  have hnovice : (system armored).Reachable novice := .init novice_fresh
  have hequal := hclaim _ p (Transition.reachable_of_runActions hnovice hreach) 0
  rw [hskill, hsum] at hequal
  exact absurd hequal (by decide)

end ConditionedPlayer

end TyanoCore
