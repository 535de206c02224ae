import TyanoCore.Layout
import Mathlib.Data.Fintype.Pi

/-!
# Conditions

The classes of conditions of a creature, each with all its members.  An `int32_t` and a `uint32_t` are
32 bits, read as a signed number by `toInt`; a `float` is only carried around and stays its 32 bits.
-/

namespace TyanoCore

/-! ## Types and numbers -/

/-- `ConditionType_t`. -/
inductive ConditionType
  | none | poison | fire | energy | physical | haste | paralyze | outfit | invisible | light
  | manaShield | infight | drunk | exhaust | regeneration | soul | drown | muted | attributes
  | freezing | dazzled | cursed | pacified | gamemaster | hunting
  deriving DecidableEq

def ConditionType.code : ConditionType → BitVec 32
  | .none => 0
  | .poison => 1 <<< 0
  | .fire => 1 <<< 1
  | .energy => 1 <<< 2
  | .physical => 1 <<< 3
  | .haste => 1 <<< 4
  | .paralyze => 1 <<< 5
  | .outfit => 1 <<< 6
  | .invisible => 1 <<< 7
  | .light => 1 <<< 8
  | .manaShield => 1 <<< 9
  | .infight => 1 <<< 10
  | .drunk => 1 <<< 11
  | .exhaust => 1 <<< 12
  | .regeneration => 1 <<< 13
  | .soul => 1 <<< 14
  | .drown => 1 <<< 15
  | .muted => 1 <<< 16
  | .attributes => 1 <<< 17
  | .freezing => 1 <<< 18
  | .dazzled => 1 <<< 19
  | .cursed => 1 <<< 20
  | .pacified => 1 <<< 21
  | .gamemaster => 1 <<< 22
  | .hunting => 1 <<< 23

/-- `CONDITIONID_COMBAT`; the other numbers of `ConditionId_t` are only compared with each other. -/
def conditionIdCombat : BitVec 32 := 0

/-- `CONDITIONID_DEFAULT`. -/
def conditionIdDefault : BitVec 32 := -1

/-- The classes derived from `Condition`. -/
inductive ConditionClass
  | damage | speed | outfit | light | regeneration | soul | manaShield | attributes | generic
  deriving DecidableEq

/-- The class that `createCondition` makes for a type; `none` where it returns `nullptr`. -/
def ConditionClass.ofType (type : BitVec 32) : Option ConditionClass :=
  let isOneOf (types : List ConditionType) : Bool := types.any fun t => t.code = type
  if isOneOf [.fire, .energy, .poison, .freezing, .dazzled, .cursed, .drown, .physical] then
    some .damage
  else if isOneOf [.haste, .paralyze] then some .speed
  else if isOneOf [.outfit] then some .outfit
  else if isOneOf [.light] then some .light
  else if isOneOf [.regeneration] then some .regeneration
  else if isOneOf [.soul] then some .soul
  else if isOneOf [.manaShield] then some .manaShield
  else if isOneOf [.attributes] then some .attributes
  else if isOneOf [.invisible, .hunting, .infight, .muted, .exhaust, .drunk, .pacified, .gamemaster]
    then some .generic
  else none

/-! ## The members of the classes -/

structure IntervalInfo where
  timeLeft : BitVec 32
  value : BitVec 32
  interval : BitVec 32
  deriving DecidableEq

/-- `Outfit_t`, with the byte that fills up its ten bytes. -/
structure Outfit where
  lookType : BitVec 16
  lookTypeEx : BitVec 16
  lookHead : BitVec 8
  lookBody : BitVec 8
  lookLegs : BitVec 8
  lookFeet : BitVec 8
  lookAddons : BitVec 8
  padding : BitVec 8
  deriving DecidableEq

/-- The seven skills from `SKILL_FIRST` to `SKILL_LAST`. -/
abbrev Skill := Fin 7

/-- The five stats from `STAT_FIRST` to `STAT_LAST`. -/
abbrev Stat := Fin 5

structure AttributesData where
  skills : Skill → BitVec 32
  stats : Stat → BitVec 32
  skillsPercent : Skill → BitVec 32
  statsPercent : Stat → BitVec 32
  /-- Where the next skill that is read goes. -/
  currentSkill : ℕ
  currentStat : ℕ
  deriving DecidableEq

structure RegenerationData where
  internalHealthTicks : BitVec 32
  internalManaTicks : BitVec 32
  healthTicks : BitVec 32
  manaTicks : BitVec 32
  healthGain : BitVec 32
  manaGain : BitVec 32
  deriving DecidableEq

structure SoulData where
  internalSoulTicks : BitVec 32
  soulTicks : BitVec 32
  soulGain : BitVec 32
  deriving DecidableEq

structure DamageData where
  forceUpdate : Bool
  delayed : Bool
  maxDamage : BitVec 32
  minDamage : BitVec 32
  startDamage : BitVec 32
  periodDamage : BitVec 32
  periodDamageTick : BitVec 32
  tickInterval : BitVec 32
  owner : BitVec 32
  damageList : List IntervalInfo
  deriving DecidableEq

structure SpeedData where
  outfits : List Outfit
  speedDelta : BitVec 32
  mina : BitVec 32
  minb : BitVec 32
  maxa : BitVec 32
  maxb : BitVec 32
  deriving DecidableEq

/-- `LightInfo` and the two counters. -/
structure LightData where
  level : BitVec 32
  color : BitVec 32
  internalLightTicks : BitVec 32
  lightChangeInterval : BitVec 32
  deriving DecidableEq

/-- What a class adds to `Condition`. -/
inductive ConditionData
  | generic
  | manaShield
  | attributes (members : AttributesData)
  | regeneration (members : RegenerationData)
  | soul (members : SoulData)
  | damage (members : DamageData)
  | outfit (outfits : List Outfit)
  | speed (members : SpeedData)
  | light (members : LightData)
  deriving DecidableEq

/-- The class of an object. -/
def ConditionData.classOf : ConditionData → ConditionClass
  | .generic => .generic
  | .manaShield => .manaShield
  | .attributes _ => .attributes
  | .regeneration _ => .regeneration
  | .soul _ => .soul
  | .damage _ => .damage
  | .outfit _ => .outfit
  | .speed _ => .speed
  | .light _ => .light

/-- A condition.  What is read from a stream can put any number into `conditionType`. -/
structure Condition where
  id : BitVec 32
  subId : BitVec 32
  ticks : BitVec 32
  endTime : ℤ
  conditionType : BitVec 32
  buff : Bool
  data : ConditionData
  deriving DecidableEq

namespace Condition

/-! ## Construction -/

/-- The members as the constructors set them; `param` is the speed, or the level and the color. -/
def newData (param : BitVec 32) : ConditionClass → ConditionData
  | .generic => .generic
  | .manaShield => .manaShield
  | .attributes => .attributes
      { skills := fun _ => 0, stats := fun _ => 0, skillsPercent := fun _ => 0,
        statsPercent := fun _ => 0, currentSkill := 0, currentStat := 0 }
  | .regeneration => .regeneration
      { internalHealthTicks := 0, internalManaTicks := 0, healthTicks := 1000, manaTicks := 1000,
        healthGain := 0, manaGain := 0 }
  | .soul => .soul { internalSoulTicks := 0, soulTicks := 0, soulGain := 0 }
  | .damage => .damage
      { forceUpdate := false, delayed := false, maxDamage := 0, minDamage := 0, startDamage := 0,
        periodDamage := 0, periodDamageTick := 0, tickInterval := 2000, owner := 0,
        damageList := [] }
  | .outfit => .outfit []
  | .speed => .speed { outfits := [], speedDelta := param, mina := 0, minb := 0, maxa := 0, maxb := 0 }
  | .light => .light
      { level := param &&& 0xFF, color := (param &&& 0xFF00) >>> 8, internalLightTicks := 0,
        lightChangeInterval := 0 }

/-- A new object of a class.  The constructor of `ConditionDamage` takes no ticks. -/
def new (cls : ConditionClass) (id type ticks param : BitVec 32) (buff : Bool) (subId : BitVec 32) :
    Condition where
  id := id
  subId := subId
  ticks := if cls = .damage then 0 else ticks
  endTime := 0
  conditionType := type
  buff := buff
  data := newData param cls

/-- `createCondition`. -/
def create (id type ticks param : BitVec 32) (buff : Bool) (subId : BitVec 32) : Option Condition :=
  (ConditionClass.ofType type).map fun cls => new cls id type ticks param buff subId

/-! ## Members -/

def setTicks (c : Condition) (now : ℤ) (ticks : BitVec 32) : Condition :=
  { c with ticks := ticks, endTime := if 0 < ticks.toInt then now + ticks.toInt else c.endTime }

def isPersistent (c : Condition) : Bool :=
  0 < c.ticks.toInt && (c.id = conditionIdDefault || c.id ≠ conditionIdCombat)

@[simp] theorem newData_classOf (cls : ConditionClass) (param : BitVec 32) :
    (newData param cls).classOf = cls := by
  cases cls <;> rfl

@[simp] theorem setTicks_ticks (c : Condition) (now : ℤ) (ticks : BitVec 32) :
    (c.setTicks now ticks).ticks = ticks := rfl

@[simp] theorem setTicks_data (c : Condition) (now : ℤ) (ticks : BitVec 32) :
    (c.setTicks now ticks).data = c.data := rfl

end Condition

/-- A condition as the server makes it: its class is the one for its type. -/
structure TypedCondition extends Condition where
  class_eq : ConditionClass.ofType conditionType = some data.classOf

end TyanoCore
