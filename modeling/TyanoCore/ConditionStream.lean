import TyanoCore.Condition
import TyanoCore.Loop
import TyanoCore.PropStream

/-!
# Conditions saved and loaded

What `savePlayer` writes for the conditions of a player and what `loadPlayer` makes of it.  The duration
of a damage condition is not taken from its entry: it is counted up again from the intervals, which
gives the remaining ticks only where they are the sum of the intervals.
-/

namespace TyanoCore

open Bytes PropStream

/-! ## The attributes -/

/-- `ConditionAttr_t`. -/
inductive ConditionAttr
  | type | id | ticks | healthTicks | healthGain | manaTicks | manaGain | delayed | owner
  | intervalData | speedDelta | formulaMinA | formulaMinB | formulaMaxA | formulaMaxB | lightColor
  | lightLevel | lightTicks | lightInterval | soulTicks | soulGain | skills | stats | outfit
  | periodDamage | buff | subId | finish
  deriving DecidableEq

namespace ConditionAttr

/-- In the order of their numbers, from 1 on. -/
def numbered : List ConditionAttr :=
  [.type, .id, .ticks, .healthTicks, .healthGain, .manaTicks, .manaGain, .delayed, .owner,
    .intervalData, .speedDelta, .formulaMinA, .formulaMinB, .formulaMaxA, .formulaMaxB, .lightColor,
    .lightLevel, .lightTicks, .lightInterval, .soulTicks, .soulGain, .skills, .stats, .outfit,
    .periodDamage, .buff, .subId]

/-- `CONDITIONATTR_END` is far from the others. -/
def code : ConditionAttr → ℕ
  | .finish => 254
  | attr => numbered.idxOf attr + 1

/-- The attribute with a number, if there is one. -/
def ofCode (n : ℕ) : Option ConditionAttr :=
  if n = 254 then some .finish else if n = 0 then none else numbered[n - 1]?

theorem code_lt (attr : ConditionAttr) : attr.code < 256 := by
  cases attr <;> decide

/-- No two attributes share a number, the end marker among them. -/
theorem ofCode_code (attr : ConditionAttr) : ofCode attr.code = some attr := by
  cases attr <;> decide

end ConditionAttr

/-! ## Layouts -/

/-- An `int32_t`, a `uint32_t` or a `float`. -/
def word32 : Layout (BitVec 32) := Layout.word 4

def IntervalInfo.layout : Layout IntervalInfo :=
  Layout.fields (word32.pair (word32.pair word32))
    (fun info => (info.timeLeft, info.value, info.interval))
    (fun p => ⟨p.1, p.2.1, p.2.2⟩) (fun _ => rfl)

def Outfit.layout : Layout Outfit :=
  let short : Layout (BitVec 16) := Layout.word 2
  let char : Layout (BitVec 8) := Layout.word 1
  Layout.fields
    (short.pair (short.pair (char.pair (char.pair (char.pair (char.pair (char.pair char)))))))
    (fun o => (o.lookType, o.lookTypeEx, o.lookHead, o.lookBody, o.lookLegs, o.lookFeet,
      o.lookAddons, o.padding))
    (fun p => ⟨p.1, p.2.1, p.2.2.1, p.2.2.2.1, p.2.2.2.2.1, p.2.2.2.2.2.1, p.2.2.2.2.2.2.1,
      p.2.2.2.2.2.2.2⟩) (fun _ => rfl)

namespace Condition

/-! ## Saving -/

section Serialize

variable {α : Type}

/-- `ADD_UCHAR` of the attribute and `ADD_VALUE` of its value. -/
def attrBytes (attr : ConditionAttr) (layout : Layout α) (value : α) : List UInt8 :=
  addUChar attr.code ++ layout.bytes value

end Serialize

/-- `Condition::serialize`. -/
def baseBytes (c : Condition) : List UInt8 :=
  attrBytes .type word32 c.conditionType ++ (attrBytes .id word32 c.id ++
    (attrBytes .ticks word32 c.ticks ++ (attrBytes .buff word32 (if c.buff then 1 else 0) ++
      attrBytes .subId word32 c.subId)))

/-- What `ConditionOutfit` adds, and `ConditionSpeed` after it. -/
def outfitBytes (outfits : List Outfit) : List UInt8 :=
  outfits.flatMap fun outfit => attrBytes .outfit Outfit.layout outfit

/-- What the derived classes add. -/
def dataBytes : ConditionData → List UInt8
  | .generic => []
  | .manaShield => []
  | .attributes m =>
    (List.finRange 7).flatMap (fun i => attrBytes .skills word32 (m.skills i)) ++
      (List.finRange 5).flatMap (fun i => attrBytes .stats word32 (m.stats i))
  | .regeneration m =>
    attrBytes .healthTicks word32 m.healthTicks ++ (attrBytes .healthGain word32 m.healthGain ++
      (attrBytes .manaTicks word32 m.manaTicks ++ attrBytes .manaGain word32 m.manaGain))
  | .soul m =>
    attrBytes .soulGain word32 m.soulGain ++ attrBytes .soulTicks word32 m.soulTicks
  | .damage m =>
    attrBytes .delayed Layout.bool m.delayed ++
      (attrBytes .periodDamage word32 m.periodDamage ++ (attrBytes .owner word32 m.owner ++
        m.damageList.flatMap fun info => attrBytes .intervalData IntervalInfo.layout info))
  | .outfit outfits => outfitBytes outfits
  | .speed m =>
    outfitBytes m.outfits ++ (attrBytes .speedDelta word32 m.speedDelta ++
      (attrBytes .formulaMinA word32 m.mina ++ (attrBytes .formulaMinB word32 m.minb ++
        (attrBytes .formulaMaxA word32 m.maxa ++ attrBytes .formulaMaxB word32 m.maxb))))
  | .light m =>
    attrBytes .lightColor word32 m.color ++ (attrBytes .lightLevel word32 m.level ++
      (attrBytes .lightTicks word32 m.internalLightTicks ++
        attrBytes .lightInterval word32 m.lightChangeInterval))

/-- The virtual `serialize`. -/
def serialize (c : Condition) : List UInt8 := c.baseBytes ++ dataBytes c.data

/-- The entry of a condition, with the end marker behind it. -/
def entryBytes (c : Condition) : List UInt8 := c.serialize ++ addUChar ConditionAttr.finish.code

/-- `savePlayer` writes an entry. -/
def isSaved (c : Condition) : Bool :=
  c.isPersistent || c.conditionType = ConditionType.gamemaster.code

/-- The blob that `savePlayer` writes. -/
def saveConditions (conditions : List Condition) : List UInt8 :=
  (conditions.filter isSaved).flatMap entryBytes

/-! ## Loading -/

section Read

variable {α σ : Type}

/-- A value is read and stored somewhere; without a value nothing is. -/
def readAs (layout : Layout α) (s : PropStream) (change : α → σ) : Option σ × PropStream :=
  let read := getAs layout s
  (read.1.map change, read.2)

/-- With a value that has been read the reading goes on; without one it ends. -/
def andThen (read : Option α × PropStream) (next : α → PropStream → Option σ × PropStream) :
    Option σ × PropStream :=
  match read with
  | (none, s) => (none, s)
  | (some value, s) => next value s

end Read

/-- `Condition::unserializeProp`. -/
def baseProp (c : Condition) (attr : ConditionAttr) (s : PropStream) :
    Option Condition × PropStream :=
  match attr with
  | .type => readAs word32 s fun value => { c with conditionType := value }
  | .id => readAs word32 s fun value => { c with id := value }
  | .ticks => readAs word32 s fun value => { c with ticks := value }
  | .buff => readAs word32 s fun value => { c with buff := value ≠ 0 }
  | .subId => readAs word32 s fun value => { c with subId := value }
  | .finish => (some c, s)
  | _ => (none, s)

/-- The element with a number is set; there is none behind the end of the array. -/
def setAt {n : ℕ} (array : Fin n → BitVec 32) (index : ℕ) (value : BitVec 32) : Fin n → BitVec 32 :=
  fun i => if i.val = index then value else array i

/-- `skills[currentSkill++] = value`. -/
def pushSkill (m : AttributesData) (value : BitVec 32) : AttributesData :=
  { m with skills := setAt m.skills m.currentSkill value, currentSkill := m.currentSkill + 1 }

/-- `stats[currentStat++] = value`. -/
def pushStat (m : AttributesData) (value : BitVec 32) : AttributesData :=
  { m with stats := setAt m.stats m.currentStat value, currentStat := m.currentStat + 1 }

def attributesProp (c : Condition) (m : AttributesData) (attr : ConditionAttr) (s : PropStream) :
    Option Condition × PropStream :=
  match attr with
  | .skills => readAs word32 s fun value => { c with data := .attributes (pushSkill m value) }
  | .stats => readAs word32 s fun value => { c with data := .attributes (pushStat m value) }
  | _ => c.baseProp attr s

def regenerationProp (c : Condition) (m : RegenerationData) (attr : ConditionAttr)
    (s : PropStream) : Option Condition × PropStream :=
  match attr with
  | .healthTicks => readAs word32 s fun value =>
    { c with data := .regeneration { m with healthTicks := value } }
  | .healthGain => readAs word32 s fun value =>
    { c with data := .regeneration { m with healthGain := value } }
  | .manaTicks => readAs word32 s fun value =>
    { c with data := .regeneration { m with manaTicks := value } }
  | .manaGain => readAs word32 s fun value =>
    { c with data := .regeneration { m with manaGain := value } }
  | _ => c.baseProp attr s

def soulProp (c : Condition) (m : SoulData) (attr : ConditionAttr) (s : PropStream) :
    Option Condition × PropStream :=
  match attr with
  | .soulGain => readAs word32 s fun value => { c with data := .soul { m with soulGain := value } }
  | .soulTicks => readAs word32 s fun value => { c with data := .soul { m with soulTicks := value } }
  | _ => c.baseProp attr s

/-- A condition that ends lasts longer. -/
def lengthen (now : ℤ) (c : Condition) (interval : BitVec 32) : Condition :=
  if c.ticks ≠ -1 then c.setTicks now (c.ticks + interval) else c

/-- An interval is put behind the others. -/
def pushInterval (now : ℤ) (c : Condition) (m : DamageData) (info : IntervalInfo) : Condition :=
  lengthen now { c with data := .damage { m with damageList := m.damageList ++ [info] } }
    info.interval

def damageProp (now : ℤ) (c : Condition) (m : DamageData) (attr : ConditionAttr) (s : PropStream) :
    Option Condition × PropStream :=
  match attr with
  | .delayed => readAs Layout.bool s fun value =>
    { c with data := .damage { m with delayed := value } }
  | .periodDamage => readAs word32 s fun value =>
    { c with data := .damage { m with periodDamage := value } }
  | .owner => readAs word32 s fun value => { c with data := .damage { m with owner := value } }
  | .intervalData => readAs IntervalInfo.layout s fun info => pushInterval now c m info
  | _ => c.baseProp attr s

/-- `ConditionOutfit::unserializeProp`; the object that the outfits are put back into differs. -/
def outfitProp (c : Condition) (outfits : List Outfit) (put : List Outfit → ConditionData)
    (attr : ConditionAttr) (s : PropStream) : Option Condition × PropStream :=
  match attr with
  | .outfit => readAs Outfit.layout s fun outfit => { c with data := put (outfits ++ [outfit]) }
  | _ => c.baseProp attr s

def speedProp (c : Condition) (m : SpeedData) (attr : ConditionAttr) (s : PropStream) :
    Option Condition × PropStream :=
  match attr with
  | .speedDelta => readAs word32 s fun value =>
    { c with data := .speed { m with speedDelta := value } }
  | .formulaMinA => readAs word32 s fun value => { c with data := .speed { m with mina := value } }
  | .formulaMinB => readAs word32 s fun value => { c with data := .speed { m with minb := value } }
  | .formulaMaxA => readAs word32 s fun value => { c with data := .speed { m with maxa := value } }
  | .formulaMaxB => readAs word32 s fun value => { c with data := .speed { m with maxb := value } }
  | _ => c.outfitProp m.outfits (fun outfits => .speed { m with outfits := outfits }) attr s

def lightProp (c : Condition) (m : LightData) (attr : ConditionAttr) (s : PropStream) :
    Option Condition × PropStream :=
  match attr with
  | .lightColor => readAs word32 s fun value => { c with data := .light { m with color := value } }
  | .lightLevel => readAs word32 s fun value => { c with data := .light { m with level := value } }
  | .lightTicks => readAs word32 s fun value =>
    { c with data := .light { m with internalLightTicks := value } }
  | .lightInterval => readAs word32 s fun value =>
    { c with data := .light { m with lightChangeInterval := value } }
  | _ => c.baseProp attr s

/-- The virtual `unserializeProp`. -/
def unserializeProp (now : ℤ) (c : Condition) (attr : ConditionAttr) (s : PropStream) :
    Option Condition × PropStream :=
  match c.data with
  | .generic => c.baseProp attr s
  | .manaShield => c.baseProp attr s
  | .attributes m => c.attributesProp m attr s
  | .regeneration m => c.regenerationProp m attr s
  | .soul m => c.soulProp m attr s
  | .damage m => damageProp now c m attr s
  | .outfit outfits => c.outfitProp outfits .outfit attr s
  | .speed m => c.speedProp m attr s
  | .light m => c.lightProp m attr s

/-- One round of `unserialize`. -/
def unserializeRound (now : ℤ) : Condition × PropStream →
    (Condition × PropStream) ⊕ (Option Condition × PropStream)
  | (c, s) =>
    match getUChar s with
    | (none, s) => .inr (some c, s)
    | (some attrType, s) =>
      match ConditionAttr.ofCode attrType with
      | none => .inr (none, s)
      | some .finish => .inr (some c, s)
      | some attr =>
        match unserializeProp now c attr s with
        | (none, s) => .inr (none, s)
        | (some c, s) => .inl (c, s)

/-- `unserialize`; `none` where it returns `false`.  Every round takes a byte. -/
def unserialize (now : ℤ) (c : Condition) (s : PropStream) : Option Condition × PropStream :=
  (Loop.run (unserializeRound now) (s.length + 1) (c, s)).getD (none, s)

/-- An attribute of the header with its value. -/
def readHeader (attr : ConditionAttr) (s : PropStream) : Option (BitVec 32) × PropStream :=
  match getUChar s with
  | (none, s) => (none, s)
  | (some attrType, s) => if attrType = attr.code then getAs word32 s else (none, s)

/-- The header behind the type, and the object that is made of it all. -/
def createTyped (type : BitVec 32) (s : PropStream) : Option Condition × PropStream :=
  andThen (readHeader .id s) fun id s =>
  andThen (readHeader .ticks s) fun ticks s =>
  andThen (readHeader .buff s) fun buff s =>
  andThen (readHeader .subId s) fun subId s => (create id type ticks 0 (buff ≠ 0) subId, s)

/-- `createCondition` from a stream. -/
def createFrom (s : PropStream) : Option Condition × PropStream :=
  andThen (readHeader .type s) createTyped

/-- One round of the loop of `loadPlayer`. -/
def loadRound (now : ℤ) : List Condition × PropStream →
    (List Condition × PropStream) ⊕ (List Condition × PropStream)
  | (loaded, s) =>
    match createFrom s with
    | (none, s) => .inr (loaded, s)
    | (some c, s) =>
      match unserialize now c s with
      | (none, s) => .inl (loaded, s)
      | (some c, s) => .inl (loaded ++ [c], s)

/-- The loop of `loadPlayer`: the stored conditions and what is left of the stream. -/
def loadConditions (now : ℤ) (s : PropStream) : List Condition × PropStream :=
  (Loop.run (loadRound now) (s.length + 1) ([], s)).getD ([], s)

end Condition

end TyanoCore
