import TyanoCore.ConditionBonuses

/-!
# Bonuses of equipment

An item that is put on adds its abilities to the player, and taking it off is to undo them.  The parts
that are a percentage are counted each time anew, from what the player has then.
-/

namespace TyanoCore

/-- The ten slots, from `HEAD` to `AMMO`. -/
abbrev Slot := Fin 10

/-- The abilities of an item kind. -/
structure KindAbilities where
  invisible : Bool
  manaShield : Bool
  regeneration : Bool
  healthGain : BitVec 32
  healthTicks : BitVec 32
  manaGain : BitVec 32
  manaTicks : BitVec 32
  speed : BitVec 32
  conditionSuppressions : BitVec 32
  skills : Skill → BitVec 32
  skillsPercent : Skill → BitVec 32
  stats : Stat → BitVec 32
  statsPercent : Stat → BitVec 32
  deriving DecidableEq

/-- An item that has been put on, with the levels that its percentages were taken of. -/
structure Worn where
  kind : KindAbilities
  skillLevels : Skill → BitVec 32
  statLevels : Stat → BitVec 32

/-- A player with the equipment; `worn` is remembered here only. -/
structure EquippedPlayer where
  skills : Skill → BitVec 32
  stats : Stat → BitVec 32
  bonuses : Bonuses
  conditionSuppressions : BitVec 32
  conditions : List Condition
  inventoryAbilities : Slot → Bool
  worn : Slot → Option Worn

namespace EquippedPlayer

/-! ## Levels -/

def atLeast (floor value : BitVec 32) : BitVec 32 := if value.toInt < floor.toInt then floor else value

/-- `getSkill` with a bonus. -/
def getSkill (p : EquippedPlayer) (i : Skill) (varSkill : BitVec 32) : BitVec 32 :=
  atLeast 0 (p.skills i + varSkill)

/-- `getDefaultStats` with a bonus; the stat 0 is the health, of at least 1, and 3 is the level. -/
def getDefaultStats (p : EquippedPlayer) (s : Stat) (varStat : BitVec 32) : BitVec 32 :=
  if s = 3 then 0 else atLeast (if s = 0 then 1 else 0) (p.stats s + varStat) - varStat

/-! ## Conditions of slots -/

/-- The id of the conditions of a slot. -/
def slotId (slot : Slot) : BitVec 32 := BitVec.ofNat 32 (slot + 1)

def invisibleCondition (slot : Slot) : Condition :=
  Condition.new .generic (slotId slot) ConditionType.invisible.code (-1) 0 false 0

def manaShieldCondition (slot : Slot) : Condition :=
  Condition.new .manaShield (slotId slot) ConditionType.manaShield.code (-1) 0 false 0

/-- The gains and the ticks of the kind, where it has any. -/
def regenerationCondition (slot : Slot) (kind : KindAbilities) : Condition :=
  { Condition.new .regeneration (slotId slot) ConditionType.regeneration.code (-1) 0 false 0 with
    data := .regeneration
      { internalHealthTicks := 0, internalManaTicks := 0
        healthTicks := if kind.healthTicks ≠ 0 then kind.healthTicks else 1000
        manaTicks := if kind.manaTicks ≠ 0 then kind.manaTicks else 1000
        healthGain := kind.healthGain
        manaGain := kind.manaGain } }

/-- `addCondition` to a condition of the same class, of the three that items have. -/
def renewSlotCondition (now : ℤ) (added previous : Condition) : Condition :=
  if !previous.updateCondition now added then previous
  else
    match previous.data, added.data with
    | .regeneration members, .regeneration added' =>
      { previous.setTicks now added.ticks with
        data := .regeneration { members with
          healthTicks := added'.healthTicks, manaTicks := added'.manaTicks
          healthGain := added'.healthGain, manaGain := added'.manaGain } }
    | _, _ => previous.setTicks now added.ticks

def isSameCondition (added previous : Condition) : Bool :=
  previous.conditionType = added.conditionType && previous.id = added.id &&
    previous.subId = added.subId

/-- `addCondition` of a condition that has no end. -/
def addSlotCondition (p : EquippedPlayer) (now : ℤ) (added : Condition) : EquippedPlayer :=
  if p.conditionSuppressions &&& added.conditionType = added.conditionType then p
  else if p.conditions.any (isSameCondition added) then
    { p with conditions :=
        p.conditions.modify (p.conditions.findIdx (isSameCondition added)) (renewSlotCondition now added) }
  else { p with conditions := p.conditions ++ [added] }

/-- `removeCondition` of a type and an id. -/
def removeSlotCondition (p : EquippedPlayer) (type : ConditionType) (slot : Slot) : EquippedPlayer :=
  { p with conditions :=
      p.conditions.filter fun c => !(c.conditionType = type.code && c.id = slotId slot) }

/-! ## Putting on and taking off -/

/-- The percentage of a level, cut off to an integer. -/
abbrev PercentOf := BitVec 32 → BitVec 32 → BitVec 32

variable (percentOf : PercentOf)

/-- A flat bonus is added. -/
def addFlat (flat var : BitVec 32) : BitVec 32 := if flat ≠ 0 then var + flat else var

def removeFlat (flat var : BitVec 32) : BitVec 32 := if flat ≠ 0 then var + -flat else var

/-- The loop over the skills or the stats in `EquipItem`: the percentage is of the level with the flat
bonus. -/
def addEach {ι : Type} (level : ι → BitVec 32 → BitVec 32) (flat percent var : ι → BitVec 32) :
    ι → BitVec 32 := fun i =>
  let var := addFlat (flat i) (var i)
  if percent i ≠ 0 then var + percentOf (level i var) (percent i) else var

/-- The loop in `DeEquipItem`: the percentage is of the level without the flat bonus. -/
def removeEach {ι : Type} (level : ι → BitVec 32 → BitVec 32) (flat percent var : ι → BitVec 32) :
    ι → BitVec 32 := fun i =>
  let var := removeFlat (flat i) (var i)
  if percent i ≠ 0 then var + -percentOf (level i var) (percent i) else var

def equipSkills (p : EquippedPlayer) (kind : KindAbilities) : EquippedPlayer :=
  { p with bonuses.varSkills :=
      addEach percentOf p.getSkill kind.skills kind.skillsPercent p.bonuses.varSkills }

def equipStats (p : EquippedPlayer) (kind : KindAbilities) : EquippedPlayer :=
  { p with bonuses.varStats :=
      addEach percentOf p.getDefaultStats kind.stats kind.statsPercent p.bonuses.varStats }

def deEquipSkills (p : EquippedPlayer) (kind : KindAbilities) : EquippedPlayer :=
  { p with bonuses.varSkills :=
      removeEach percentOf p.getSkill kind.skills kind.skillsPercent p.bonuses.varSkills }

def deEquipStats (p : EquippedPlayer) (kind : KindAbilities) : EquippedPlayer :=
  { p with bonuses.varStats :=
      removeEach percentOf p.getDefaultStats kind.stats kind.statsPercent p.bonuses.varStats }

/-- What the percentages are taken of when an item is put on. -/
def wear (p : EquippedPlayer) (kind : KindAbilities) : Worn where
  kind := kind
  skillLevels := fun i => p.getSkill i (addFlat (kind.skills i) (p.bonuses.varSkills i))
  statLevels := fun s => p.getDefaultStats s (addFlat (kind.stats s) (p.bonuses.varStats s))

def setItemAbility (p : EquippedPlayer) (slot : Slot) (worn : Option Worn) : EquippedPlayer :=
  { p with
    inventoryAbilities := Function.update p.inventoryAbilities slot worn.isSome
    worn := Function.update p.worn slot worn }

/-- An ability that is a condition, put on and taken off. -/
def equipCondition (p : EquippedPlayer) (has : Bool) (now : ℤ) (added : Condition) : EquippedPlayer :=
  if has then p.addSlotCondition now added else p

def deEquipCondition (p : EquippedPlayer) (has : Bool) (type : ConditionType) (slot : Slot) :
    EquippedPlayer :=
  if has then p.removeSlotCondition type slot else p

def equipSpeed (p : EquippedPlayer) (speed : BitVec 32) : EquippedPlayer :=
  if speed ≠ 0 then { p with bonuses := p.bonuses.changeSpeed speed } else p

def deEquipSpeed (p : EquippedPlayer) (speed : BitVec 32) : EquippedPlayer :=
  if speed ≠ 0 then { p with bonuses := p.bonuses.changeSpeed (-speed) } else p

/-- `setConditionSuppressions`, where there are any. -/
def setConditionSuppressions (p : EquippedPlayer) (conditions : BitVec 32) (remove : Bool) :
    EquippedPlayer :=
  if conditions ≠ 0 then
    { p with conditionSuppressions :=
        if !remove then p.conditionSuppressions ||| conditions
        else p.conditionSuppressions &&& ~~~conditions }
  else p

/-- `EquipItem` of a kind without a transformation, with whether the player may wield the item. -/
def EquipItem (p : EquippedPlayer) (now : ℤ) (kind : KindAbilities) (slot : Slot)
    (mayWield isCheck : Bool) : EquippedPlayer :=
  if p.inventoryAbilities slot then p
  else if !mayWield then p
  else if isCheck then p
  else
    let p := p.setItemAbility slot (some (p.wear kind))
    let p := p.equipCondition kind.invisible now (invisibleCondition slot)
    let p := p.equipCondition kind.manaShield now (manaShieldCondition slot)
    let p := p.equipSpeed kind.speed
    let p := p.setConditionSuppressions kind.conditionSuppressions false
    let p := p.equipCondition kind.regeneration now (regenerationCondition slot kind)
    (p.equipSkills percentOf kind).equipStats percentOf kind

/-- `DeEquipItem` of a kind without a transformation. -/
def DeEquipItem (p : EquippedPlayer) (kind : KindAbilities) (slot : Slot) : EquippedPlayer :=
  if !p.inventoryAbilities slot then p
  else
    let p := p.setItemAbility slot none
    let p := p.deEquipCondition kind.invisible .invisible slot
    let p := p.deEquipCondition kind.manaShield .manaShield slot
    let p := p.deEquipSpeed kind.speed
    let p := p.setConditionSuppressions kind.conditionSuppressions true
    let p := p.deEquipCondition kind.regeneration .regeneration slot
    (p.deEquipSkills percentOf kind).deEquipStats percentOf kind

end EquippedPlayer

/-- What happens to the equipment: an item is put on or taken off, or the player learns. -/
inductive EquipmentAction
  | equipItem (now : ℤ) (kind : KindAbilities) (slot : Slot) (mayWield isCheck : Bool)
  | deEquipItem (kind : KindAbilities) (slot : Slot)
  | learn (skills : Skill → BitVec 32) (stats : Stat → BitVec 32)

namespace EquippedPlayer

variable (percentOf : PercentOf)

/-- From a slot comes the item that was put on there. -/
def step (p : EquippedPlayer) : EquipmentAction → Option EquippedPlayer
  | .equipItem now kind slot mayWield isCheck =>
    some (p.EquipItem percentOf now kind slot mayWield isCheck)
  | .deEquipItem kind slot =>
    if (p.worn slot).all fun worn => worn.kind = kind then some (p.DeEquipItem percentOf kind slot)
    else none
  | .learn skills stats => some { p with skills := skills, stats := stats }

/-- The types of the conditions that items have. -/
def slotTypes : List ConditionType := [.invisible, .manaShield, .regeneration]

/-- No item is on, and no condition is from a slot. -/
structure Unequipped (p : EquippedPlayer) : Prop where
  inventoryAbilities_eq : ∀ slot, p.inventoryAbilities slot = false
  worn_eq : ∀ slot, p.worn slot = none
  conditions : ∀ c ∈ p.conditions, ∀ type ∈ slotTypes, ∀ slot,
    ¬ (c.conditionType = type.code ∧ c.id = slotId slot)

def system (start : EquippedPlayer) : Transition.System EquippedPlayer EquipmentAction :=
  .ofStep (fun p => p = start ∧ start.Unequipped) (step percentOf)

/-- Where an item is taken off, its percentages come to what they came to when it was put on, and what
it suppresses is suppressed by nothing else. -/
structure Undoes (start p : EquippedPlayer) (slot : Slot) (worn : Worn) : Prop where
  skills : ∀ i, worn.kind.skillsPercent i ≠ 0 →
    percentOf (p.getSkill i (removeFlat (worn.kind.skills i) (p.bonuses.varSkills i)))
      (worn.kind.skillsPercent i) = percentOf (worn.skillLevels i) (worn.kind.skillsPercent i)
  stats : ∀ s, worn.kind.statsPercent s ≠ 0 →
    percentOf (p.getDefaultStats s (removeFlat (worn.kind.stats s) (p.bonuses.varStats s)))
      (worn.kind.statsPercent s) = percentOf (worn.statLevels s) (worn.kind.statsPercent s)
  alone : ∀ i : ℕ, worn.kind.conditionSuppressions.getLsbD i = true →
    start.conditionSuppressions.getLsbD i = false ∧ ∀ other, other ≠ slot → ∀ worn',
      p.worn other = some worn' → worn'.kind.conditionSuppressions.getLsbD i = false

/-- Every item that is taken off is undone. -/
def Careful (start p : EquippedPlayer) : EquipmentAction → Prop
  | .deEquipItem _ slot => ∀ worn, p.worn slot = some worn → Undoes percentOf start p slot worn
  | _ => True

/-! ## What an item adds -/

/-- The bonus of an item that is on. -/
def granted (worn : Worn) : Bonus :=
  (fun i => worn.kind.skills i +
      if worn.kind.skillsPercent i ≠ 0 then percentOf (worn.skillLevels i) (worn.kind.skillsPercent i)
      else 0,
    fun s => worn.kind.stats s +
      if worn.kind.statsPercent s ≠ 0 then percentOf (worn.statLevels s) (worn.kind.statsPercent s)
      else 0,
    worn.kind.speed)

/-- The bonus of a slot. -/
def grantedAt (worn : Option Worn) : Bonus := worn.elim 0 (granted percentOf)

variable {percentOf} {start p : EquippedPlayer} {slot : Slot}

theorem addFlat_eq (flat var : BitVec 32) : addFlat flat var = var + flat := by
  rw [addFlat]
  split
  · rfl
  · next hzero => rw [not_not.mp hzero, add_zero]

theorem removeFlat_eq (flat var : BitVec 32) : removeFlat flat var = var - flat := by
  rw [removeFlat]
  split
  · exact (sub_eq_add_neg _ _).symm
  · next hzero => rw [not_not.mp hzero, sub_zero]

variable (percentOf) in
/-- What a loop of `EquipItem` adds. -/
theorem addEach_eq {ι : Type} (level : ι → BitVec 32 → BitVec 32) (flat percent var : ι → BitVec 32) :
    addEach percentOf level flat percent var = var + fun i => flat i +
      if percent i ≠ 0 then percentOf (level i (addFlat (flat i) (var i))) (percent i) else 0 := by
  ext i : 1
  rw [addEach, Pi.add_apply, addFlat_eq]
  split
  · exact add_assoc _ _ _
  · rw [add_zero]

variable (percentOf) in
/-- What a loop of `DeEquipItem` takes off, where the percentages come to the same. -/
theorem removeEach_eq {ι : Type} {level : ι → BitVec 32 → BitVec 32}
    {flat percent var levels : ι → BitVec 32}
    (h : ∀ i, percent i ≠ 0 → percentOf (level i (removeFlat (flat i) (var i))) (percent i) =
      percentOf (levels i) (percent i)) :
    removeEach percentOf level flat percent var = var - fun i => flat i +
      if percent i ≠ 0 then percentOf (levels i) (percent i) else 0 := by
  ext i : 1
  have hsame := h i
  rw [removeEach, Pi.sub_apply]
  rw [removeFlat_eq] at hsame ⊢
  split
  · next hpercent =>
    rw [hsame hpercent, ← sub_eq_add_neg]
    exact sub_sub _ _ _
  · rw [add_zero]

/-! ## What the steps of putting on and taking off do -/

theorem equipSpeed_eq (p : EquippedPlayer) (speed : BitVec 32) :
    p.equipSpeed speed = { p with bonuses := p.bonuses.changeSpeed speed } := by
  rw [equipSpeed]
  split
  · rfl
  · next hzero =>
    rw [not_not.mp hzero, Bonuses.changeSpeed, add_zero]

theorem deEquipSpeed_eq (p : EquippedPlayer) (speed : BitVec 32) :
    p.deEquipSpeed speed = { p with bonuses := p.bonuses.changeSpeed (-speed) } := by
  rw [deEquipSpeed]
  split
  · rfl
  · next hzero =>
    rw [not_not.mp hzero, Bonuses.changeSpeed, neg_zero, add_zero]

theorem setConditionSuppressions_add (p : EquippedPlayer) (conditions : BitVec 32) :
    p.setConditionSuppressions conditions false =
      { p with conditionSuppressions := p.conditionSuppressions ||| conditions } := by
  rw [setConditionSuppressions]
  split
  · rfl
  · next hzero =>
    have hsame : p.conditionSuppressions ||| (0 : BitVec 32) = p.conditionSuppressions :=
      BitVec.or_zero
    rw [not_not.mp hzero, hsame]

theorem setConditionSuppressions_remove (p : EquippedPlayer) (conditions : BitVec 32) :
    p.setConditionSuppressions conditions true =
      { p with conditionSuppressions := p.conditionSuppressions &&& ~~~conditions } := by
  rw [setConditionSuppressions]
  split
  · rfl
  · next hzero =>
    have hall : p.conditionSuppressions &&& ~~~(0 : BitVec 32) = p.conditionSuppressions :=
      BitVec.and_allOnes
    rw [not_not.mp hzero, hall]

/-- A condition that is new is added, or it is suppressed. -/
theorem equipCondition_spec (has : Bool) (now : ℤ) {added : Condition}
    (hnone : ∀ c ∈ p.conditions, ¬ (c.conditionType = added.conditionType ∧ c.id = added.id)) :
    ∃ extra, (∀ c ∈ extra, has = true ∧ c = added) ∧
      p.equipCondition has now added = { p with conditions := p.conditions ++ extra } := by
  have hnothing : ∃ extra : List Condition, (∀ c ∈ extra, has = true ∧ c = added) ∧
      p = { p with conditions := p.conditions ++ extra } := by
    refine ⟨[], ?_, ?_⟩
    · intro c hc
      cases hc
    · rw [List.append_nil]
  rw [equipCondition]
  split
  · next hhas =>
    rw [addSlotCondition]
    split
    · exact hnothing
    · have hnew : p.conditions.any (isSameCondition added) = false := by
        apply List.any_eq_false.mpr
        intro c hc hsame
        rw [isSameCondition, Bool.and_eq_true, Bool.and_eq_true, decide_eq_true_eq,
          decide_eq_true_eq] at hsame
        exact hnone c hc hsame.1
      rw [hnew, if_neg Bool.false_ne_true]
      refine ⟨[added], ?_, rfl⟩
      intro c hc
      exact ⟨hhas, List.mem_singleton.mp hc⟩
  · exact hnothing

theorem deEquipCondition_eq (has : Bool) (type : ConditionType) :
    p.deEquipCondition has type slot = { p with conditions := p.conditions.filter fun c =>
      !(has && c.conditionType = type.code && c.id = slotId slot) } := by
  rw [deEquipCondition]
  cases has with
  | true => rfl
  | false =>
    have hall : (p.conditions.filter fun c => !(false && decide (c.conditionType = type.code) &&
        decide (c.id = slotId slot))) = p.conditions :=
      List.filter_eq_self.mpr fun _ _ => rfl
    rw [hall]
    rfl

/-- Whether a kind has a condition of a type. -/
def grants (kind : KindAbilities) : ConditionType → Bool
  | .invisible => kind.invisible
  | .manaShield => kind.manaShield
  | .regeneration => kind.regeneration
  | _ => false

/-- A condition of an item in a slot. -/
def FromItem (kind : KindAbilities) (slot : Slot) (c : Condition) : Prop :=
  c.id = slotId slot ∧ ∃ type ∈ slotTypes, grants kind type = true ∧ c.conditionType = type.code

theorem code_ne : ConditionType.invisible.code ≠ ConditionType.manaShield.code ∧
    ConditionType.invisible.code ≠ ConditionType.regeneration.code ∧
      ConditionType.manaShield.code ≠ ConditionType.regeneration.code := by
  decide

variable (percentOf) in
/-- What putting an item on changes. -/
structure Equipped (kind : KindAbilities) (slot : Slot) (p q : EquippedPlayer) (worn : Worn) : Prop where
  total_eq : q.bonuses.total = p.bonuses.total + granted percentOf worn
  suppressions_eq :
    q.conditionSuppressions = p.conditionSuppressions ||| kind.conditionSuppressions
  conditions_eq : ∃ extra, q.conditions = p.conditions ++ extra ∧ ∀ c ∈ extra, FromItem kind slot c
  abilities_eq : q.inventoryAbilities = Function.update p.inventoryAbilities slot true
  worn_eq : q.worn = Function.update p.worn slot (some worn)

variable (percentOf) in
theorem equipItem_spec (now : ℤ) (kind : KindAbilities) (hnot : p.inventoryAbilities slot = false)
    (hnone : ∀ c ∈ p.conditions, ∀ type ∈ slotTypes,
      ¬ (c.conditionType = type.code ∧ c.id = slotId slot)) :
    Equipped percentOf kind slot p (p.EquipItem percentOf now kind slot true false)
      (p.wear kind) := by
  obtain ⟨hmana, hregeneration, hboth⟩ := code_ne
  let enabled := p.setItemAbility slot (some (p.wear kind))
  -- none of the three conditions is there before it is added
  have hnone₁ : ∀ c ∈ enabled.conditions, ¬ (c.conditionType = (invisibleCondition slot).conditionType ∧
      c.id = (invisibleCondition slot).id) :=
    fun c hc => hnone c hc .invisible (by decide)
  obtain ⟨first, hfirst, heq₁⟩ := equipCondition_spec kind.invisible now hnone₁
  have hnone₂ : ∀ c ∈ p.conditions ++ first,
      ¬ (c.conditionType = (manaShieldCondition slot).conditionType ∧
        c.id = (manaShieldCondition slot).id) := by
    intro c hc hsame
    apply (List.mem_append.mp hc).elim
    · intro hold
      exact hnone c hold .manaShield (by decide) hsame
    · intro hnew
      rw [(hfirst c hnew).2] at hsame
      exact hmana hsame.1
  let invisible : EquippedPlayer := { enabled with conditions := p.conditions ++ first }
  obtain ⟨second, hsecond, heq₂⟩ :=
    equipCondition_spec (p := invisible) kind.manaShield now hnone₂
  have hnone₃ : ∀ c ∈ p.conditions ++ first ++ second,
      ¬ (c.conditionType = (regenerationCondition slot kind).conditionType ∧
        c.id = (regenerationCondition slot kind).id) := by
    intro c hc hsame
    apply (List.mem_append.mp hc).elim
    · intro hbefore
      apply (List.mem_append.mp hbefore).elim
      · intro hold
        exact hnone c hold .regeneration (by decide) hsame
      · intro hnew
        rw [(hfirst c hnew).2] at hsame
        exact hregeneration hsame.1
    · intro hnew
      rw [(hsecond c hnew).2] at hsame
      exact hboth hsame.1
  let suppressing : EquippedPlayer := { enabled with
    conditions := p.conditions ++ first ++ second
    bonuses := p.bonuses.changeSpeed kind.speed
    conditionSuppressions := p.conditionSuppressions ||| kind.conditionSuppressions }
  obtain ⟨third, hthird, heq₃⟩ :=
    equipCondition_spec (p := suppressing) kind.regeneration now hnone₃
  have hequip : p.EquipItem percentOf now kind slot true false =
      (({ suppressing with conditions := p.conditions ++ first ++ second ++ third } :
        EquippedPlayer).equipSkills percentOf kind).equipStats percentOf kind := by
    rw [EquipItem, hnot, if_neg Bool.false_ne_true, Bool.not_true, if_neg Bool.false_ne_true,
      if_neg Bool.false_ne_true]
    show ((((((enabled.equipCondition kind.invisible now (invisibleCondition slot)).equipCondition
      kind.manaShield now (manaShieldCondition slot)).equipSpeed kind.speed).setConditionSuppressions
        kind.conditionSuppressions false).equipCondition kind.regeneration now
          (regenerationCondition slot kind)).equipSkills percentOf kind).equipStats percentOf kind = _
    rw [heq₁]
    show (((((invisible.equipCondition kind.manaShield now (manaShieldCondition slot)).equipSpeed
      kind.speed).setConditionSuppressions kind.conditionSuppressions false).equipCondition
        kind.regeneration now (regenerationCondition slot kind)).equipSkills percentOf kind).equipStats
          percentOf kind = _
    rw [heq₂, equipSpeed_eq, setConditionSuppressions_add]
    show ((suppressing.equipCondition kind.regeneration now
      (regenerationCondition slot kind)).equipSkills percentOf kind).equipStats percentOf kind = _
    rw [heq₃]
  have hskills := addEach_eq percentOf p.getSkill kind.skills kind.skillsPercent
    p.bonuses.varSkills
  have hstats := addEach_eq percentOf p.getDefaultStats kind.stats kind.statsPercent
    p.bonuses.varStats
  rw [hequip]
  refine ⟨?_, rfl, ?_, rfl, rfl⟩
  · show (addEach percentOf p.getSkill kind.skills kind.skillsPercent p.bonuses.varSkills,
      addEach percentOf p.getDefaultStats kind.stats kind.statsPercent p.bonuses.varStats,
      p.bonuses.varSpeed + kind.speed) = _
    rw [hskills, hstats]
    rfl
  · refine ⟨first ++ second ++ third, ?_, ?_⟩
    · show p.conditions ++ first ++ second ++ third = _
      rw [List.append_assoc, List.append_assoc, List.append_assoc]
    · intro c hc
      apply (List.mem_append.mp hc).elim
      · intro hbefore
        apply (List.mem_append.mp hbefore).elim
        · intro hnew
          obtain ⟨hhas, hc⟩ := hfirst c hnew
          rw [hc]
          exact ⟨rfl, .invisible, by decide, hhas, rfl⟩
        · intro hnew
          obtain ⟨hhas, hc⟩ := hsecond c hnew
          rw [hc]
          exact ⟨rfl, .manaShield, by decide, hhas, rfl⟩
      · intro hnew
        obtain ⟨hhas, hc⟩ := hthird c hnew
        rw [hc]
        exact ⟨rfl, .regeneration, by decide, hhas, rfl⟩

variable (percentOf) in
/-- What taking an item off changes, where it is undone. -/
structure DeEquipped (kind : KindAbilities) (slot : Slot) (p q : EquippedPlayer) (worn : Worn) : Prop where
  total_eq : q.bonuses.total = p.bonuses.total - granted percentOf worn
  suppressions_eq :
    q.conditionSuppressions = p.conditionSuppressions &&& ~~~kind.conditionSuppressions
  conditions_eq : ∃ keep : Condition → Bool, q.conditions = p.conditions.filter keep ∧
    ∀ c, keep c = true ↔ ¬ FromItem kind slot c
  abilities_eq : q.inventoryAbilities = Function.update p.inventoryAbilities slot false
  worn_eq : q.worn = Function.update p.worn slot none

variable (percentOf) in
theorem deEquipItem_spec {worn : Worn} (henabled : p.inventoryAbilities slot = true)
    (hskills : ∀ i, worn.kind.skillsPercent i ≠ 0 →
      percentOf (p.getSkill i (removeFlat (worn.kind.skills i) (p.bonuses.varSkills i)))
        (worn.kind.skillsPercent i) = percentOf (worn.skillLevels i) (worn.kind.skillsPercent i))
    (hstats : ∀ s, worn.kind.statsPercent s ≠ 0 →
      percentOf (p.getDefaultStats s (removeFlat (worn.kind.stats s) (p.bonuses.varStats s)))
        (worn.kind.statsPercent s) = percentOf (worn.statLevels s) (worn.kind.statsPercent s)) :
    DeEquipped percentOf worn.kind slot p (p.DeEquipItem percentOf worn.kind slot)
      worn := by
  have hskills' := removeEach_eq percentOf hskills
  have hstats' := removeEach_eq percentOf hstats
  rw [DeEquipItem, henabled, Bool.not_true, if_neg Bool.false_ne_true]
  dsimp only
  rw [deEquipCondition_eq, deEquipCondition_eq, deEquipCondition_eq, deEquipSpeed_eq,
    setConditionSuppressions_remove]
  refine ⟨?_, rfl, ?_, rfl, rfl⟩
  · show (removeEach percentOf p.getSkill worn.kind.skills worn.kind.skillsPercent p.bonuses.varSkills,
      removeEach percentOf p.getDefaultStats worn.kind.stats worn.kind.statsPercent
        p.bonuses.varStats, p.bonuses.varSpeed + -worn.kind.speed) = _
    rw [hskills', hstats', ← sub_eq_add_neg]
    rfl
  · let gone (has : Bool) (type : ConditionType) (c : Condition) : Bool :=
      has && c.conditionType = type.code && c.id = slotId slot
    refine ⟨fun c => (!gone worn.kind.regeneration .regeneration c &&
      !gone worn.kind.manaShield .manaShield c) && !gone worn.kind.invisible .invisible c, ?_, ?_⟩
    · show ((p.conditions.filter fun c => !gone worn.kind.invisible .invisible c).filter fun c =>
        !gone worn.kind.manaShield .manaShield c).filter (fun c =>
          !gone worn.kind.regeneration .regeneration c) = _
      rw [List.filter_filter, List.filter_filter]
    · intro c
      have hgone (type : ConditionType) (has : Bool) :
          gone has type c = true ↔ c.id = slotId slot ∧ has = true ∧ c.conditionType = type.code := by
        rw [Bool.and_eq_true, Bool.and_eq_true, decide_eq_true_eq, decide_eq_true_eq, and_comm]
      have hany : (∃ type ∈ slotTypes, grants worn.kind type = true ∧ c.conditionType = type.code) ↔
          (worn.kind.invisible = true ∧ c.conditionType = ConditionType.invisible.code) ∨
          (worn.kind.manaShield = true ∧ c.conditionType = ConditionType.manaShield.code) ∨
          (worn.kind.regeneration = true ∧ c.conditionType = ConditionType.regeneration.code) := by
        simp [slotTypes, grants]
      dsimp only
      rw [← Bool.not_or, ← Bool.not_or, Bool.not_eq_true', ← Bool.not_eq_true, Bool.or_eq_true,
        Bool.or_eq_true, hgone, hgone, hgone, FromItem, hany, ← and_or_left, ← and_or_left]
      apply not_congr
      apply and_congr_right
      intro _
      rw [or_comm, or_comm (a := worn.kind.regeneration = true ∧ _)]

/-! ## Runs -/

variable (percentOf start) in
/-- What holds in every run whose items are undone: beyond the start a player has what the items that are
on have added, and nothing else. -/
structure Kept (p : EquippedPlayer) : Prop where
  enabled_eq : ∀ slot, p.inventoryAbilities slot = (p.worn slot).isSome
  total_eq : p.bonuses.total = start.bonuses.total + ∑ slot, grantedAt percentOf (p.worn slot)
  suppressed_iff : ∀ i : ℕ, p.conditionSuppressions.getLsbD i = true ↔
    start.conditionSuppressions.getLsbD i = true ∨
      ∃ slot worn, p.worn slot = some worn ∧ worn.kind.conditionSuppressions.getLsbD i = true
  conditions_eq : ∃ extra, p.conditions = start.conditions ++ extra ∧
    ∀ c ∈ extra, ∃ slot worn, p.worn slot = some worn ∧ FromItem worn.kind slot c

theorem slotId_inj : ∀ {slot other : Slot}, slotId slot = slotId other → slot = other := by
  decide

theorem sum_granted_eq_zero (h : ∀ slot, p.worn slot = none) :
    ∑ slot, grantedAt percentOf (p.worn slot) = 0 := by
  apply Finset.sum_eq_zero
  intro slot _
  rw [h]
  rfl

theorem kept_start (h : start.Unequipped) : Kept percentOf start start := by
  refine ⟨?_, ?_, ?_, ⟨[], (List.append_nil _).symm, fun c hc => nomatch hc⟩⟩
  · intro slot
    rw [h.inventoryAbilities_eq, h.worn_eq]
    rfl
  · rw [sum_granted_eq_zero h.worn_eq, add_zero]
  · intro i
    apply (or_iff_left _).symm
    intro hsome
    obtain ⟨slot, worn, hworn, -⟩ := hsome
    rw [h.worn_eq] at hworn
    cases hworn

theorem Kept.worn_eq_none (h : Kept percentOf start p) (hoff : p.inventoryAbilities slot = false) :
    p.worn slot = none := by
  have hslot := h.enabled_eq slot
  rw [hoff] at hslot
  exact Option.isNone_iff_eq_none.mp (Option.isSome_eq_false_iff.mp hslot.symm)

/-- A slot with an item on has its ability enabled and the other way round, also after a change. -/
theorem Kept.enabled_update (h : Kept percentOf start p) {q : EquippedPlayer} {worn : Option Worn}
    (habilities : q.inventoryAbilities = Function.update p.inventoryAbilities slot worn.isSome)
    (hworn : q.worn = Function.update p.worn slot worn) :
    ∀ other, q.inventoryAbilities other = (q.worn other).isSome := by
  intro other
  rw [habilities, hworn]
  by_cases hsame : other = slot
  · rw [hsame, Function.update_self, Function.update_self]
  · rw [Function.update_of_ne hsame, Function.update_of_ne hsame]
    exact h.enabled_eq other

theorem Kept.equip (h : Kept percentOf start p) (hstart : start.Unequipped) (now : ℤ)
    (kind : KindAbilities) (hnot : p.inventoryAbilities slot = false) :
    Kept percentOf start (p.EquipItem percentOf now kind slot true false) := by
  have hempty := h.worn_eq_none hnot
  obtain ⟨extra, hconditions, hextra⟩ := h.conditions_eq
  have hnone : ∀ c ∈ p.conditions, ∀ type ∈ slotTypes,
      ¬ (c.conditionType = type.code ∧ c.id = slotId slot) := by
    intro c hc type htype hsame
    rw [hconditions] at hc
    apply (List.mem_append.mp hc).elim
    · intro hold
      exact hstart.conditions c hold type htype slot hsame
    · intro hnew
      obtain ⟨other, worn, hworn, hid, -⟩ := hextra c hnew
      rw [slotId_inj (hsame.2.symm.trans hid), hworn] at hempty
      cases hempty
  have hspec := equipItem_spec percentOf now kind hnot hnone
  generalize p.EquipItem percentOf now kind slot true false = q at *
  refine ⟨h.enabled_update hspec.abilities_eq hspec.worn_eq, ?_, ?_, ?_⟩
  · have hsum := Ledger.sum_update p.worn (grantedAt percentOf) slot (some (p.wear kind))
    have hzero : grantedAt percentOf (p.worn slot) = 0 := by
      rw [hempty]
      rfl
    rw [hspec.total_eq, h.total_eq, hspec.worn_eq, hsum, hzero, sub_zero, add_assoc]
    rfl
  · intro i
    rw [hspec.suppressions_eq, BitVec.getLsbD_or, Bool.or_eq_true, h.suppressed_iff, hspec.worn_eq,
      or_assoc]
    exact or_congr_right (Ledger.exists_update_some hempty (p.wear kind) fun _ worn =>
      worn.kind.conditionSuppressions.getLsbD i = true).symm
  · obtain ⟨added, hadded, hfrom⟩ := hspec.conditions_eq
    refine ⟨extra ++ added, ?_, ?_⟩
    · rw [hadded, hconditions, List.append_assoc]
    · intro c hc
      rw [hspec.worn_eq]
      apply (Ledger.exists_update_some hempty _ fun other worn => FromItem worn.kind other c).mpr
      exact (List.mem_append.mp hc).imp (hextra c) (hfrom c)

theorem Kept.deEquip (h : Kept percentOf start p) (hstart : start.Unequipped) {worn : Worn}
    (hworn : p.worn slot = some worn) (hundoes : Undoes percentOf start p slot worn) :
    Kept percentOf start (p.DeEquipItem percentOf worn.kind slot) := by
  have henabled : p.inventoryAbilities slot = true := by
    rw [h.enabled_eq, hworn]
    rfl
  obtain ⟨extra, hconditions, hextra⟩ := h.conditions_eq
  have hspec := deEquipItem_spec percentOf henabled hundoes.skills hundoes.stats
  generalize p.DeEquipItem percentOf worn.kind slot = q at *
  refine ⟨h.enabled_update hspec.abilities_eq hspec.worn_eq, ?_, ?_, ?_⟩
  · have hsum := Ledger.sum_update p.worn (grantedAt percentOf) slot none
    have hone : grantedAt percentOf (p.worn slot) = granted percentOf worn := by
      rw [hworn]
      rfl
    have hzero : grantedAt percentOf none = 0 := rfl
    rw [hspec.total_eq, h.total_eq, hspec.worn_eq, hsum, hone, hzero, add_zero]
    exact add_sub_assoc _ _ _
  · intro i
    rw [hspec.suppressions_eq, BitVec.getLsbD_and, BitVec.getLsbD_not, Bool.and_eq_true,
      h.suppressed_iff, hspec.worn_eq]
    by_cases hbit : worn.kind.conditionSuppressions.getLsbD i = true
    · -- what the item suppresses is suppressed by nothing else
      obtain ⟨hnot, halone⟩ := hundoes.alone i hbit
      rw [hbit, hnot, Bool.not_true, Bool.and_false]
      rw [Ledger.exists_update_none fun _ (worn' : Worn) =>
        worn'.kind.conditionSuppressions.getLsbD i = true]
      apply iff_of_false
      · intro hafter
        exact Bool.false_ne_true hafter.2
      · intro hafter
        cases hafter with
        | inl hold => exact Bool.false_ne_true hold
        | inr hother =>
          obtain ⟨other, hne, worn', hworn', hbit'⟩ := hother
          rw [halone other hne worn' hworn'] at hbit'
          exact Bool.false_ne_true hbit'
    · rw [Bool.not_eq_true] at hbit
      have hnot : ¬ worn.kind.conditionSuppressions.getLsbD i = true := by
        rw [hbit]
        exact Bool.false_ne_true
      rw [Ledger.exists_update_none_of_not (P := fun _ worn' =>
          worn'.kind.conditionSuppressions.getLsbD i = true) hworn hnot, hbit, Bool.not_false,
        Bool.and_true, decide_eq_true_eq]
      apply and_iff_left_of_imp
      intro hbefore
      cases hbefore with
      | inl hold => exact BitVec.lt_of_getLsbD hold
      | inr hother =>
        obtain ⟨other, worn', -, hbit'⟩ := hother
        exact BitVec.lt_of_getLsbD hbit'
  · obtain ⟨keep, hkeep, hiff⟩ := hspec.conditions_eq
    refine ⟨extra.filter keep, ?_, ?_⟩
    · have hold : start.conditions.filter keep = start.conditions := by
        apply List.filter_eq_self.mpr
        intro c hc
        apply (hiff c).mpr
        intro hitem
        obtain ⟨hid, type, htype, -, hcode⟩ := hitem
        exact hstart.conditions c hc type htype slot ⟨hcode, hid⟩
      rw [hkeep, hconditions, List.filter_append, hold]
    · intro c hc
      obtain ⟨hin, hkept⟩ := List.mem_filter.mp hc
      have hnot : ¬ FromItem worn.kind slot c := (hiff c).mp hkept
      rw [hspec.worn_eq]
      exact (Ledger.exists_update_none_of_not (P := fun other worn' => FromItem worn'.kind other c)
        hworn hnot).mpr (hextra c hin)

/-- The item in a slot can be taken off. -/
theorem step_deEquipItem {worn : Worn} (hworn : p.worn slot = some worn) :
    p.step percentOf (.deEquipItem worn.kind slot) =
      some (p.DeEquipItem percentOf worn.kind slot) := by
  rw [step, hworn, Option.all_some]
  exact if_pos (decide_eq_true rfl)

/-- A step keeps it where an item that is taken off is undone. -/
theorem Kept.step (h : Kept percentOf start p) (hstart : start.Unequipped) {action : EquipmentAction}
    {q : EquippedPlayer} (hcareful : Careful percentOf start p action)
    (hstep : p.step percentOf action = some q) : Kept percentOf start q := by
  cases action with
  | equipItem now kind slot mayWield isCheck =>
    rw [← Option.some.inj hstep]
    by_cases hon : p.inventoryAbilities slot = true
    · rw [EquipItem, if_pos hon]
      exact h
    · rw [Bool.not_eq_true] at hon
      cases mayWield with
      | false =>
        rw [EquipItem, hon, if_neg Bool.false_ne_true, if_pos Bool.not_false]
        exact h
      | true =>
        cases isCheck with
        | true =>
          rw [EquipItem, hon, if_neg Bool.false_ne_true, Bool.not_true, if_neg Bool.false_ne_true,
            if_pos rfl]
          exact h
        | false => exact h.equip hstart now kind hon
  | deEquipItem kind slot =>
    rw [EquippedPlayer.step] at hstep
    split at hstep
    · next hkind =>
      rw [← Option.some.inj hstep]
      cases hworn : p.worn slot with
      | none =>
        have hoff : p.inventoryAbilities slot = false := by
          rw [h.enabled_eq, hworn]
          rfl
        rw [DeEquipItem, hoff, if_pos Bool.not_false]
        exact h
      | some worn =>
        rw [hworn, Option.all_some, decide_eq_true_eq] at hkind
        rw [← hkind]
        exact h.deEquip hstart hworn (hcareful worn hworn)
    · cases hstep
  | learn skills stats =>
    rw [← Option.some.inj hstep]
    exact ⟨h.enabled_eq, h.total_eq, h.suppressed_iff, h.conditions_eq⟩

theorem kept_of_reachable
    (h : ((system percentOf start).restrict (Careful percentOf start)).Reachable p) :
    start.Unequipped ∧ Kept percentOf start p := by
  apply h.invariant fun p => start.Unequipped ∧ Kept percentOf start p
  · intro p hinit
    rw [hinit.1]
    exact ⟨hinit.2, kept_start hinit.2⟩
  · intro p action q hkept hstep
    exact ⟨hkept.1, hkept.2.step hkept.1 hstep.1 hstep.2⟩

/-- Where every item that is taken off is undone, a player without items has what there was at the start;
and beyond the start the conditions are suppressed that an item in an enabled slot suppresses. -/
theorem undone_of_reachable
    (h : ((system percentOf start).restrict (Careful percentOf start)).Reachable p) :
    ((∀ slot, p.inventoryAbilities slot = false) →
      p.bonuses = start.bonuses ∧ p.conditionSuppressions = start.conditionSuppressions ∧
        p.conditions = start.conditions) ∧
    ∀ i : ℕ, p.conditionSuppressions.getLsbD i = true ↔
      start.conditionSuppressions.getLsbD i = true ∨
        ∃ slot worn, p.inventoryAbilities slot = true ∧ p.worn slot = some worn ∧
          worn.kind.conditionSuppressions.getLsbD i = true := by
  obtain ⟨-, hkept⟩ := kept_of_reachable h
  apply And.intro
  · intro hoff
    have hnone : ∀ slot, p.worn slot = none := fun slot => hkept.worn_eq_none (hoff slot)
    refine ⟨?_, ?_, ?_⟩
    · apply Bonuses.total_inj
      rw [hkept.total_eq, sum_granted_eq_zero hnone, add_zero]
    · apply BitVec.eq_of_getLsbD_eq
      intro i _
      apply Bool.eq_iff_iff.mpr
      rw [hkept.suppressed_iff]
      apply or_iff_left
      intro hsome
      obtain ⟨slot, worn, hworn, -⟩ := hsome
      rw [hnone] at hworn
      cases hworn
    · obtain ⟨extra, hextra, hfrom⟩ := hkept.conditions_eq
      have hempty : extra = [] := by
        apply List.eq_nil_iff_forall_not_mem.mpr
        intro c hc
        obtain ⟨slot, worn, hworn, -⟩ := hfrom c hc
        rw [hnone] at hworn
        cases hworn
      rw [hextra, hempty, List.append_nil]
  · intro i
    rw [hkept.suppressed_iff]
    apply or_congr_right
    apply exists_congr
    intro slot
    apply exists_congr
    intro worn
    apply Iff.intro
    · intro hgrants
      refine ⟨?_, hgrants⟩
      rw [hkept.enabled_eq, hgrants.1]
      rfl
    · intro hgrants
      exact hgrants.2

/-- The percentage as it is computed. -/
def cutOff (level percent : BitVec 32) : BitVec 32 :=
  BitVec.ofInt 32 ((level.toInt * (percent.toInt - 100)).tdiv 100)

/-- A player with all skills at a level, without items. -/
def beginner (level : BitVec 32) : EquippedPlayer where
  skills := fun _ => level
  stats := fun _ => 150
  bonuses := ⟨fun _ => 0, fun _ => 0, 0⟩
  conditionSuppressions := 0
  conditions := []
  inventoryAbilities := fun _ => false
  worn := fun _ => none

theorem beginner_unequipped (level : BitVec 32) : (beginner level).Unequipped :=
  ⟨fun _ => rfl, fun _ => rfl, fun _ hc => nomatch hc⟩

/-- An item that raises the skills by a tenth, and suppresses some conditions. -/
def trinket (conditionSuppressions : BitVec 32) : KindAbilities where
  invisible := true
  manaShield := false
  regeneration := true
  healthGain := 1
  healthTicks := 3000
  manaGain := 1
  manaTicks := 3000
  speed := 20
  conditionSuppressions := conditionSuppressions
  skills := fun _ => 3
  skillsPercent := fun _ => 110
  stats := fun _ => 0
  statsPercent := fun _ => 0

/-- A ring is put on, and an amulet. -/
def ringOn (level mask : BitVec 32) : EquippedPlayer :=
  (beginner level).EquipItem cutOff 0 (trinket mask) 8 true false

def amuletOn (level mask mask' : BitVec 32) : EquippedPlayer :=
  (ringOn level mask).EquipItem cutOff 0 (trinket mask') 1 true false

/-- The player learns, and takes the ring off and then the amulet. -/
def learned : EquippedPlayer := { amuletOn 20 1 2 with skills := fun _ => 21 }

def ringOff : EquippedPlayer := learned.DeEquipItem cutOff (trinket 1) 8

def amuletOff : EquippedPlayer := ringOff.DeEquipItem cutOff (trinket 2) 1

/-- Bits of masks that have no bit in common. -/
theorem getLsbD_of_and_eq_zero {a b : BitVec 32} (h : a &&& b = 0) {i : ℕ}
    (ha : a.getLsbD i = true) : b.getLsbD i = false := by
  have hbit : (a &&& b).getLsbD i = false := by
    rw [h]
    exact BitVec.getLsbD_zero
  rw [BitVec.getLsbD_and, ha, Bool.true_and] at hbit
  exact hbit

theorem learned_worn : learned.worn = Function.update (Function.update (fun _ => none) 8
    (some ((beginner 20).wear (trinket 1)))) 1 (some ((ringOn 20 1).wear (trinket 2))) := rfl

theorem undoes_ring : Undoes cutOff (beginner 20) learned 8 ((beginner 20).wear (trinket 1)) := by
  refine ⟨by decide, by decide, ?_⟩
  intro i hbit
  refine ⟨BitVec.getLsbD_zero, ?_⟩
  intro other hne worn hworn
  rw [learned_worn] at hworn
  by_cases hamulet : other = 1
  · rw [hamulet, Function.update_self] at hworn
    rw [← Option.some.inj hworn]
    exact getLsbD_of_and_eq_zero (a := 1) (by decide) hbit
  · rw [Function.update_of_ne hamulet, Function.update_of_ne hne] at hworn
    cases hworn

theorem undoes_amulet : Undoes cutOff (beginner 20) ringOff 1 ((ringOn 20 1).wear (trinket 2)) := by
  refine ⟨by decide, by decide, ?_⟩
  intro i hbit
  refine ⟨BitVec.getLsbD_zero, ?_⟩
  intro other hne worn hworn
  have heq : ringOff.worn = Function.update learned.worn 8 none := rfl
  rw [heq, learned_worn] at hworn
  by_cases hring : other = 8
  · rw [hring, Function.update_self] at hworn
    cases hworn
  · rw [Function.update_of_ne hring, Function.update_of_ne hne, Function.update_of_ne hring] at hworn
    cases hworn

theorem undone_of_reachable_trinkets :
    (((∀ slot, amuletOff.inventoryAbilities slot = false) →
      amuletOff.bonuses = (beginner 20).bonuses ∧
        amuletOff.conditionSuppressions = (beginner 20).conditionSuppressions ∧
          amuletOff.conditions = (beginner 20).conditions) ∧
    ∀ i : ℕ, amuletOff.conditionSuppressions.getLsbD i = true ↔
      (beginner 20).conditionSuppressions.getLsbD i = true ∨
        ∃ slot worn, amuletOff.inventoryAbilities slot = true ∧ amuletOff.worn slot = some worn ∧
          worn.kind.conditionSuppressions.getLsbD i = true) ∧
    (∀ slot, amuletOff.inventoryAbilities slot = false) ∧ learned.bonuses.varSkills 0 = 10 := by
  have hinit : ((system cutOff (beginner 20)).restrict (Careful cutOff (beginner 20))).Reachable
      (beginner 20) := .init ⟨rfl, beginner_unequipped 20⟩
  have hring := Transition.reachable_restrict_step (t := ringOn 20 1) hinit
    (.equipItem 0 (trinket 1) 8 true false) trivial rfl
  have hamulet := Transition.reachable_restrict_step (t := amuletOn 20 1 2) hring
    (.equipItem 0 (trinket 2) 1 true false) trivial rfl
  have hlearned := Transition.reachable_restrict_step (t := learned) hamulet
    (.learn (fun _ => 21) fun _ => 150) trivial rfl
  have hworn : learned.worn 8 = some ((beginner 20).wear (trinket 1)) := rfl
  have hringOff := Transition.reachable_restrict_step (t := ringOff) hlearned
    (.deEquipItem (trinket 1) 8)
    (by
      intro worn hring
      rw [← Option.some.inj (hworn.symm.trans hring)]
      exact undoes_ring)
    (step_deEquipItem hworn)
  have hworn' : ringOff.worn 1 = some ((ringOn 20 1).wear (trinket 2)) := rfl
  have hamuletOff := Transition.reachable_restrict_step (t := amuletOff) hringOff
    (.deEquipItem (trinket 2) 1)
    (by
      intro worn hamulet
      rw [← Option.some.inj (hworn'.symm.trans hamulet)]
      exact undoes_amulet)
    (step_deEquipItem hworn')
  exact ⟨undone_of_reachable hamuletOff, by decide, by decide⟩

/-- A ring is put on and taken off. -/
def ringOnAndOff : List EquipmentAction :=
  [.equipItem 0 (trinket 4) 8 true false, .deEquipItem (trinket 4) 8]

/-- Of two items that suppress the same one is taken off. -/
def oneOfTwoOff : List EquipmentAction :=
  [.equipItem 0 (trinket 4) 8 true false, .equipItem 0 (trinket 4) 1 true false,
    .deEquipItem (trinket 4) 8]

/-- The ring leaves a player with less of every skill: the tenth is taken of a skill that has the tenth
already.  And what the amulet suppresses is no longer suppressed when the ring is off. -/
theorem ring_not_undone :
    (¬ ∀ start p : EquippedPlayer, (system cutOff start).Reachable p →
      (∀ slot, p.inventoryAbilities slot = false) →
        p.bonuses = start.bonuses ∧ p.conditionSuppressions = start.conditionSuppressions ∧
          p.conditions = start.conditions) ∧
    ¬ ∀ start p : EquippedPlayer, (system cutOff start).Reachable p →
      ∀ i : ℕ, p.conditionSuppressions.getLsbD i = true ↔
        start.conditionSuppressions.getLsbD i = true ∨
          ∃ slot worn, p.inventoryAbilities slot = true ∧ p.worn slot = some worn ∧
            worn.kind.conditionSuppressions.getLsbD i = true := by
  have hinit : (system cutOff (beginner 100)).Reachable (beginner 100) :=
    .init ⟨rfl, beginner_unequipped 100⟩
  apply And.intro
  · intro hclaim
    have hrun : ((Transition.runActions (step cutOff) (beginner 100) ringOnAndOff).map fun p =>
        (p.inventoryAbilities, p.bonuses.varSkills 0)) = some (fun _ => false, -1) := by
      decide
    obtain ⟨p, hreach, heq⟩ := Option.map_eq_some_iff.mp hrun
    obtain ⟨hoff, hskill⟩ := Prod.mk.inj heq
    have hsame := hclaim _ p (Transition.reachable_of_runActions hinit hreach)
      fun slot => congrFun hoff slot
    rw [hsame.1] at hskill
    exact absurd hskill (by decide)
  · intro hclaim
    have hrun : ((Transition.runActions (step cutOff) (beginner 100) oneOfTwoOff).map fun p =>
        (p.conditionSuppressions, p.inventoryAbilities 1,
          (p.worn 1).map fun worn => worn.kind.conditionSuppressions)) = some (0, true, some 4) := by
      decide
    obtain ⟨p, hreach, heq⟩ := Option.map_eq_some_iff.mp hrun
    obtain ⟨hnothing, hrest⟩ := Prod.mk.inj heq
    obtain ⟨hon, hmask⟩ := Prod.mk.inj hrest
    obtain ⟨worn, hworn, hfour⟩ := Option.map_eq_some_iff.mp hmask
    have hbit := (hclaim _ p (Transition.reachable_of_runActions hinit hreach) 2).mpr
      (.inr ⟨1, worn, hon, hworn, by rw [hfour]; decide⟩)
    rw [hnothing] at hbit
    exact absurd hbit (by decide)

end EquippedPlayer

end TyanoCore
