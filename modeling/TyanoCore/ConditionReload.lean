import TyanoCore.ConditionStream
import Mathlib.Data.BitVec
import Mathlib.Data.List.Infix

/-!
# Conditions that come back

Every entry is read to its end marker, and the condition that is made of it has the members of the
saved one, with what no entry holds as the constructors set it.  Only a damage condition can differ
in its ticks.
-/

namespace TyanoCore

open Bytes PropStream

namespace Condition

variable {α σ ι : Type} {now : ℤ} {c c' : Condition} {rest : PropStream}

/-! ## Reading single attributes -/

theorem readAs_bytes {layout : Layout α} {value : α} (h : Short (layout.bytes value ++ rest))
    (change : α → σ) : readAs layout (layout.bytes value ++ rest) change =
      (some (change value), rest) := by
  rw [readAs, getAs_bytes h]
  rfl

theorem getUChar_code (attr : ConditionAttr) (h : Short (addUChar attr.code ++ rest)) :
    getUChar (addUChar attr.code ++ rest) = (some attr.code, rest) :=
  getValue_leBytes attr.code_lt h

/-- The loop reads one attribute and goes on behind it. -/
theorem reaches_attr {attr : ConditionAttr} {layout : Layout α} {value : α}
    (change : α → Condition) (hattr : attr ≠ .finish)
    (hprop : ∀ s, unserializeProp now c attr s = readAs layout s change)
    (h : Short (attrBytes attr layout value ++ rest)) :
    Loop.Reaches (unserializeRound now) (c, attrBytes attr layout value ++ rest)
      (change value, rest) := by
  apply Relation.ReflTransGen.single
  rw [attrBytes, List.append_assoc] at h ⊢
  have hround : unserializeProp now c attr (layout.bytes value ++ rest) =
      (some (change value), rest) := (hprop _).trans (readAs_bytes h.right change)
  rw [unserializeRound, getUChar_code attr h]
  dsimp only
  rw [attr.ofCode_code]
  -- every attribute but the end marker is handed to the class
  cases attr with
  | finish => exact absurd rfl hattr
  | _ => dsimp only; rw [hround]

/-- The attributes that are written for the elements of a list, one by one.  `e` says which condition
the members read so far make. -/
theorem reaches_flatMap (now : ℤ) (e : σ → Condition) (put : σ → ι → σ) (bytes : ι → List UInt8)
    (hone : ∀ m x rest, Short (bytes x ++ rest) →
      Loop.Reaches (unserializeRound now) (e m, bytes x ++ rest) (e (put m x), rest))
    (xs : List ι) (m : σ) (h : Short (xs.flatMap bytes ++ rest)) :
    Loop.Reaches (unserializeRound now) (e m, xs.flatMap bytes ++ rest) (e (xs.foldl put m), rest) := by
  induction xs generalizing m with
  | nil => exact Relation.ReflTransGen.refl
  | cons x xs ih =>
    rw [List.flatMap_cons, List.append_assoc] at h ⊢
    exact (hone m x _ h).trans (ih (put m x) h.right)

/-! ## The members that come back -/

/-- The members with what no entry holds as in a new object that has read one. -/
def reloadedData : ConditionData → ConditionData
  | .attributes m => .attributes { m with
      skillsPercent := fun _ => 0, statsPercent := fun _ => 0, currentSkill := 7, currentStat := 5 }
  | .regeneration m => .regeneration { m with internalHealthTicks := 0, internalManaTicks := 0 }
  | .soul m => .soul { m with internalSoulTicks := 0 }
  | .damage m => .damage { m with
      forceUpdate := false, maxDamage := 0, minDamage := 0, startDamage := 0, periodDamageTick := 0,
      tickInterval := 2000 }
  | data => data

/-- The intervals make a condition longer, one by one. -/
def lengthenAll (now : ℤ) (c : Condition) (infos : List IntervalInfo) : Condition :=
  infos.foldl (fun c info => lengthen now c info.interval) c

/-- The condition that comes back. -/
def reloaded (now : ℤ) (c : Condition) : Condition :=
  let loaded := { c with endTime := 0, data := reloadedData c.data }
  match c.data with
  | .damage m => lengthenAll now { loaded with ticks := 0 } m.damageList
  | _ => loaded

theorem lengthen_data (c : Condition) (interval : BitVec 32) (data : ConditionData) :
    lengthen now { c with data := data } interval =
      { lengthen now c interval with data := data } := by
  rw [lengthen, lengthen]
  split <;> rfl

theorem lengthenAll_data (c : Condition) (infos : List IntervalInfo) (data : ConditionData) :
    lengthenAll now { c with data := data } infos =
      { lengthenAll now c infos with data := data } := by
  induction infos generalizing c with
  | nil => rfl
  | cons info infos ih =>
    rw [lengthenAll, List.foldl_cons, lengthen_data]
    exact ih (lengthen now c info.interval)

/-- Setting the elements of an array in their order, from the first one on. -/
theorem foldl_setAt {n : ℕ} (values array : Fin n → BitVec 32) :
    (List.finRange n).foldl (fun p i => (setAt p.1 p.2 (values i), p.2 + 1)) (array, 0) =
      (values, n) := by
  have hfirst (k : ℕ) (hk : k ≤ n) : ((List.finRange n).take k).foldl
      (fun p i => (setAt p.1 p.2 (values i), p.2 + 1)) (array, 0) =
        (fun i => if i.val < k then values i else array i, k) := by
    induction k with
    | zero => rfl
    | succ k ih =>
      have hlt : k < (List.finRange n).length := by
        rw [List.length_finRange]
        exact hk
      rw [List.take_succ_eq_append_getElem hlt, List.foldl_append, ih (Nat.le_of_succ_le hk),
        List.getElem_finRange]
      apply Prod.ext
      · funext i
        show (if i.val = k then values (Fin.cast _ ⟨k, hlt⟩) else if i.val < k then values i else array i) =
          if i.val < k + 1 then values i else array i
        by_cases heq : i.val = k
        · rw [if_pos heq, if_pos (by omega)]
          exact congrArg values (Fin.ext heq.symm)
        · rw [if_neg heq]
          exact if_congr (by omega) rfl rfl
      · rfl
  have hall := hfirst n (Nat.le_refl n)
  rw [List.take_of_length_le (by rw [List.length_finRange])] at hall
  rw [hall]
  apply Prod.ext
  · funext i
    exact if_pos i.isLt
  · rfl

/-- One skill behind the other is only read into the skills. -/
theorem foldl_pushSkill (values : Skill → BitVec 32) (xs : List Skill) (m : AttributesData) :
    xs.foldl (fun m i => pushSkill m (values i)) m =
      let p := xs.foldl (fun p i => (setAt p.1 p.2 (values i), p.2 + 1)) (m.skills, m.currentSkill)
      { m with skills := p.1, currentSkill := p.2 } := by
  induction xs generalizing m with
  | nil => rfl
  | cons x xs ih => exact ih (pushSkill m (values x))

theorem foldl_pushStat (values : Stat → BitVec 32) (xs : List Stat) (m : AttributesData) :
    xs.foldl (fun m i => pushStat m (values i)) m =
      let p := xs.foldl (fun p i => (setAt p.1 p.2 (values i), p.2 + 1)) (m.stats, m.currentStat)
      { m with stats := p.1, currentStat := p.2 } := by
  induction xs generalizing m with
  | nil => rfl
  | cons x xs ih => exact ih (pushStat m (values x))

/-! ## Reading what the classes write -/

section Classes

variable (now : ℤ) (c : Condition)

theorem reaches_attributes (m : AttributesData) (h : Short (dataBytes (.attributes m) ++ rest)) :
    Loop.Reaches (unserializeRound now)
      ({ c with data := newData 0 .attributes }, dataBytes (.attributes m) ++ rest)
      ({ c with data := reloadedData (.attributes m) }, rest) := by
  rw [dataBytes, List.append_assoc] at h ⊢
  let new : AttributesData :=
    { skills := fun _ => 0, stats := fun _ => 0, skillsPercent := fun _ => 0,
      statsPercent := fun _ => 0, currentSkill := 0, currentStat := 0 }
  have hskills := reaches_flatMap now (fun m => { c with data := .attributes m })
    (fun m' i => pushSkill m' (m.skills i)) _
    (fun m' _ _ h => reaches_attr (fun value => { c with data := .attributes (pushSkill m' value) })
      (by decide) (fun _ => rfl) h) (List.finRange 7) new h
  rw [foldl_pushSkill, foldl_setAt] at hskills
  apply hskills.trans
  -- the stats are those of a new object until the skills have been read
  have hstats := reaches_flatMap now (fun m => { c with data := .attributes m })
    (fun m' i => pushStat m' (m.stats i)) _
    (fun m' _ _ h => reaches_attr (fun value => { c with data := .attributes (pushStat m' value) })
      (by decide) (fun _ => rfl) h) (List.finRange 5)
    { new with skills := m.skills, currentSkill := 7 } h.right
  rw [foldl_pushStat, foldl_setAt] at hstats
  exact hstats

theorem reaches_regeneration (m : RegenerationData)
    (h : Short (dataBytes (.regeneration m) ++ rest)) :
    Loop.Reaches (unserializeRound now)
      ({ c with data := newData 0 .regeneration }, dataBytes (.regeneration m) ++ rest)
      ({ c with data := reloadedData (.regeneration m) }, rest) := by
  simp only [dataBytes, List.append_assoc] at h ⊢
  apply (reaches_attr _ (by decide) (fun _ => rfl) h).trans
  apply (reaches_attr _ (by decide) (fun _ => rfl) h.right).trans
  apply (reaches_attr _ (by decide) (fun _ => rfl) h.right.right).trans
  apply (reaches_attr _ (by decide) (fun _ => rfl) h.right.right.right).trans
  exact Relation.ReflTransGen.refl

theorem reaches_soul (m : SoulData) (h : Short (dataBytes (.soul m) ++ rest)) :
    Loop.Reaches (unserializeRound now)
      ({ c with data := newData 0 .soul }, dataBytes (.soul m) ++ rest)
      ({ c with data := reloadedData (.soul m) }, rest) := by
  simp only [dataBytes, List.append_assoc] at h ⊢
  apply (reaches_attr _ (by decide) (fun _ => rfl) h).trans
  apply (reaches_attr _ (by decide) (fun _ => rfl) h.right).trans
  exact Relation.ReflTransGen.refl

theorem reaches_light (m : LightData) (h : Short (dataBytes (.light m) ++ rest)) :
    Loop.Reaches (unserializeRound now)
      ({ c with data := newData 0 .light }, dataBytes (.light m) ++ rest)
      ({ c with data := reloadedData (.light m) }, rest) := by
  simp only [dataBytes, List.append_assoc] at h ⊢
  apply (reaches_attr _ (by decide) (fun _ => rfl) h).trans
  apply (reaches_attr _ (by decide) (fun _ => rfl) h.right).trans
  apply (reaches_attr _ (by decide) (fun _ => rfl) h.right.right).trans
  apply (reaches_attr _ (by decide) (fun _ => rfl) h.right.right.right).trans
  exact Relation.ReflTransGen.refl

/-- The outfits of a `ConditionOutfit`, or those that a `ConditionSpeed` begins with. -/
theorem reaches_outfits (put : List Outfit → ConditionData)
    (hput : ∀ outfits s, unserializeProp now { c with data := put outfits } .outfit s =
      readAs Outfit.layout s fun outfit => { c with data := put (outfits ++ [outfit]) })
    (outfits : List Outfit) (h : Short (outfitBytes outfits ++ rest)) :
    Loop.Reaches (unserializeRound now) ({ c with data := put [] }, outfitBytes outfits ++ rest)
      ({ c with data := put outfits }, rest) := by
  have hall := reaches_flatMap now (fun outfits => { c with data := put outfits })
    (fun outfits outfit => outfits ++ [outfit]) _
    (fun outfits _ _ h => reaches_attr _ (by decide) (hput outfits) h) outfits [] h
  have hlist : outfits.foldl (fun outfits outfit => outfits ++ [outfit]) [] = outfits := by
    rw [List.foldl_append_eq_append, List.nil_append, ← List.flatMap_def,
      List.flatMap_singleton']
  rw [hlist] at hall
  exact hall

theorem reaches_speed (m : SpeedData) (h : Short (dataBytes (.speed m) ++ rest)) :
    Loop.Reaches (unserializeRound now)
      ({ c with data := newData 0 .speed }, dataBytes (.speed m) ++ rest)
      ({ c with data := reloadedData (.speed m) }, rest) := by
  simp only [dataBytes, List.append_assoc] at h ⊢
  let new : SpeedData :=
    { outfits := [], speedDelta := 0, mina := 0, minb := 0, maxa := 0, maxb := 0 }
  have houtfits := reaches_outfits now c (fun outfits => .speed { new with outfits := outfits })
    (fun _ _ => rfl) m.outfits h
  apply houtfits.trans
  apply (reaches_attr _ (by decide) (fun _ => rfl) h.right).trans
  apply (reaches_attr _ (by decide) (fun _ => rfl) h.right.right).trans
  apply (reaches_attr _ (by decide) (fun _ => rfl) h.right.right.right).trans
  apply (reaches_attr _ (by decide) (fun _ => rfl) h.right.right.right.right).trans
  apply (reaches_attr _ (by decide) (fun _ => rfl) h.right.right.right.right.right).trans
  exact Relation.ReflTransGen.refl

/-- The intervals are put into the list as they are, and each makes the condition longer. -/
theorem foldl_pushInterval (infos : List IntervalInfo) (c : Condition) (m : DamageData) :
    infos.foldl (fun p info => (lengthen now p.1 info.interval,
      { p.2 with damageList := p.2.damageList ++ [info] })) (c, m) =
        (lengthenAll now c infos, { m with damageList := m.damageList ++ infos }) := by
  induction infos generalizing c m with
  | nil => rw [List.append_nil]; rfl
  | cons info infos ih =>
    rw [List.foldl_cons, ih, List.append_assoc]
    rfl

theorem reaches_damage (m : DamageData) (h : Short (dataBytes (.damage m) ++ rest)) :
    Loop.Reaches (unserializeRound now)
      ({ c with data := newData 0 .damage }, dataBytes (.damage m) ++ rest)
      (lengthenAll now { c with data := reloadedData (.damage m) } m.damageList, rest) := by
  simp only [dataBytes, List.append_assoc] at h ⊢
  apply (reaches_attr _ (by decide) (fun _ => rfl) h).trans
  apply (reaches_attr _ (by decide) (fun _ => rfl) h.right).trans
  apply (reaches_attr _ (by decide) (fun _ => rfl) h.right.right).trans
  -- the condition with the members read so far, the intervals among them
  let put (p : Condition × DamageData) : Condition := { p.1 with data := .damage p.2 }
  have hintervals := reaches_flatMap now put
    (fun p info => (lengthen now p.1 info.interval,
      { p.2 with damageList := p.2.damageList ++ [info] })) _
    (fun p info _ h => by
      have hprop (s : PropStream) : unserializeProp now (put p) .intervalData s =
          readAs IntervalInfo.layout s (pushInterval now (put p) p.2) := rfl
      have hread := reaches_attr _ (by decide) hprop h
      rw [pushInterval, lengthen_data, lengthen_data] at hread
      exact hread)
    m.damageList (c, { m with
      forceUpdate := false, maxDamage := 0, minDamage := 0, startDamage := 0, periodDamageTick := 0,
      tickInterval := 2000, damageList := [] }) h.right.right.right
  rw [foldl_pushInterval, List.nil_append] at hintervals
  rw [lengthenAll_data]
  exact hintervals

/-- A new object with the header of an entry. -/
theorem reaches_entry (h : Short (dataBytes c.data ++ rest)) :
    Loop.Reaches (unserializeRound now)
      (new c.data.classOf c.id c.conditionType c.ticks 0 c.buff c.subId, dataBytes c.data ++ rest)
      (reloaded now c, rest) := by
  obtain ⟨id, subId, ticks, endTime, type, buff, data⟩ := c
  cases data with
  | generic => exact Relation.ReflTransGen.refl
  | manaShield => exact Relation.ReflTransGen.refl
  | attributes m => exact reaches_attributes now ⟨id, subId, ticks, 0, type, buff, .generic⟩ m h
  | regeneration m => exact reaches_regeneration now ⟨id, subId, ticks, 0, type, buff, .generic⟩ m h
  | soul m => exact reaches_soul now ⟨id, subId, ticks, 0, type, buff, .generic⟩ m h
  | damage m => exact reaches_damage now ⟨id, subId, 0, 0, type, buff, .generic⟩ m h
  | outfit outfits =>
    exact reaches_outfits now ⟨id, subId, ticks, 0, type, buff, .generic⟩ .outfit (fun _ _ => rfl)
      outfits h
  | speed m => exact reaches_speed now ⟨id, subId, ticks, 0, type, buff, .generic⟩ m h
  | light m => exact reaches_light now ⟨id, subId, ticks, 0, type, buff, .generic⟩ m h

end Classes

/-! ## What is left of the stream -/

theorem readAs_left {layout : Layout α} (hsize : layout.size < 2 ^ 31) (change : α → σ)
    (s : PropStream) : Left s (readAs layout s change).2 := getAs_left hsize s

theorem baseProp_left (c : Condition) (attr : ConditionAttr) (s : PropStream) :
    Left s (c.baseProp attr s).2 := by
  cases attr with
  | type | id | ticks | buff | subId => exact readAs_left (by decide) _ s
  | _ => exact Left.refl s

theorem outfitProp_left (c : Condition) (outfits : List Outfit)
    (put : List Outfit → ConditionData) (attr : ConditionAttr) (s : PropStream) :
    Left s (c.outfitProp outfits put attr s).2 := by
  cases attr with
  | outfit => exact readAs_left (by decide) _ s
  | _ => exact baseProp_left c _ s

theorem unserializeProp_left (now : ℤ) (c : Condition) (attr : ConditionAttr) (s : PropStream) :
    Left s (unserializeProp now c attr s).2 := by
  rw [unserializeProp]
  cases c.data with
  | generic => exact baseProp_left c attr s
  | manaShield => exact baseProp_left c attr s
  | attributes m =>
    cases attr with
    | skills | stats => exact readAs_left (by decide) _ s
    | _ => exact baseProp_left c _ s
  | regeneration m =>
    cases attr with
    | healthTicks | healthGain | manaTicks | manaGain => exact readAs_left (by decide) _ s
    | _ => exact baseProp_left c _ s
  | soul m =>
    cases attr with
    | soulGain | soulTicks => exact readAs_left (by decide) _ s
    | _ => exact baseProp_left c _ s
  | damage m =>
    cases attr with
    | delayed | periodDamage | owner | intervalData => exact readAs_left (by decide) _ s
    | _ => exact baseProp_left c _ s
  | outfit outfits => exact outfitProp_left c outfits _ attr s
  | speed m =>
    cases attr with
    | speedDelta | formulaMinA | formulaMinB | formulaMaxA | formulaMaxB =>
      exact readAs_left (by decide) _ s
    | _ => exact outfitProp_left c m.outfits _ _ s
  | light m =>
    cases attr with
    | lightColor | lightLevel | lightTicks | lightInterval => exact readAs_left (by decide) _ s
    | _ => exact baseProp_left c _ s

/-- A round either ends the loop or has read an attribute, and it reads on from where that ends. -/
theorem unserializeRound_left (now : ℤ) (c : Condition) (s : PropStream) :
    (∀ p, unserializeRound now (c, s) = .inl p → Left s p.2 ∧ p.2.length < s.length) ∧
      ∀ p, unserializeRound now (c, s) = .inr p → Left s p.2 := by
  have hchar : Left s (getUChar s).2 := getValue_left (by decide) s
  rw [unserializeRound]
  cases hread : getUChar s with
  | mk attrType s₁ =>
  rw [hread] at hchar
  cases attrType with
  | none => exact ⟨fun p hp => absurd hp Sum.inr_ne_inl, fun p hp => Sum.inr.inj hp ▸ hchar⟩
  | some attrType =>
    have hless := getUChar_length_lt hread
    dsimp only
    split
    · exact ⟨fun p hp => absurd hp Sum.inr_ne_inl, fun p hp => Sum.inr.inj hp ▸ hchar⟩
    · exact ⟨fun p hp => absurd hp Sum.inr_ne_inl, fun p hp => Sum.inr.inj hp ▸ hchar⟩
    · next attr _ _ =>
      have hprop := unserializeProp_left now c attr s₁
      split
      · next heq =>
        rw [heq] at hprop
        exact ⟨fun p hp => absurd hp Sum.inr_ne_inl, fun p hp => Sum.inr.inj hp ▸ hchar.trans hprop⟩
      · next heq =>
        rw [heq] at hprop
        refine ⟨fun p hp => ?_, fun p hp => absurd hp Sum.inl_ne_inr⟩
        rw [← Sum.inl.inj hp]
        exact ⟨hchar.trans hprop, Nat.lt_of_le_of_lt hprop.length_le hless⟩

theorem unserializeRound_falls (now : ℤ) :
    Loop.Falls (unserializeRound now) fun p => p.2.length :=
  fun p p' h => ((unserializeRound_left now p.1 p.2).1 p' h).2

theorem unserialize_left (now : ℤ) (c : Condition) (s : PropStream) :
    Left s (unserialize now c s).2 := by
  have hends : (Loop.run (unserializeRound now) (s.length + 1) (c, s)).isSome :=
    (unserializeRound_falls now).run_isSome (Nat.lt_succ_self _)
  obtain ⟨p, hp⟩ := Option.isSome_iff_exists.mp hends
  rw [unserialize, hp]
  apply Loop.run_invariant (fun p => Left s p.2) (fun p => Left s p.2) _ _ (Left.refl s) hp
  · intro p p' hleft hround
    exact hleft.trans ((unserializeRound_left now p.1 p.2).1 p' hround).1
  · intro p p' hleft hround
    exact hleft.trans ((unserializeRound_left now p.1 p.2).2 p' hround)

theorem readHeader_left (attr : ConditionAttr) (s : PropStream) :
    Left s (readHeader attr s).2 := by
  have hchar : Left s (getUChar s).2 := getValue_left (by decide) s
  rw [readHeader]
  split
  · next heq => rw [heq] at hchar; exact hchar
  · next heq =>
    rw [heq] at hchar
    split
    · exact hchar.trans (getAs_left (by decide) _)
    · exact hchar

theorem andThen_some (value : α) (s : PropStream)
    (next : α → PropStream → Option σ × PropStream) :
    andThen (some value, s) next = next value s := rfl

theorem andThen_left {read : Option α × PropStream}
    {next : α → PropStream → Option σ × PropStream} {s : PropStream} (hread : Left s read.2)
    (hnext : ∀ value s', Left s' (next value s').2) : Left s (andThen read next).2 := by
  obtain ⟨value, s'⟩ := read
  cases value with
  | none => exact hread
  | some value => exact hread.trans (hnext value s')

theorem createTyped_left (type : BitVec 32) (s : PropStream) : Left s (createTyped type s).2 := by
  apply andThen_left (readHeader_left .id s)
  intro _ s
  apply andThen_left (readHeader_left .ticks s)
  intro _ s
  apply andThen_left (readHeader_left .buff s)
  intro _ s
  apply andThen_left (readHeader_left .subId s)
  intro _ s
  exact Left.refl s

theorem createFrom_left (s : PropStream) : Left s (createFrom s).2 :=
  andThen_left (readHeader_left .type s) createTyped_left

/-- A condition is only made of bytes. -/
theorem createFrom_length_lt {s s' : PropStream} (h : createFrom s = (some c, s')) :
    s'.length < s.length := by
  rw [createFrom, readHeader] at h
  have hchar : Left s (getUChar s).2 := getValue_left (by decide) s
  cases hread : getUChar s with
  | mk attrType s₁ =>
  rw [hread] at h hchar
  cases attrType with
  | none => exact absurd (congrArg Prod.fst h) (Option.some_ne_none c).symm
  | some attrType =>
    have hless := getUChar_length_lt hread
    dsimp only at h
    split at h
    · have hrest : Left s₁ (andThen (getAs word32 s₁) createTyped).2 :=
        andThen_left (getAs_left (by decide) s₁) createTyped_left
      rw [h] at hrest
      exact Nat.lt_of_le_of_lt hrest.length_le hless
    · exact absurd (congrArg Prod.fst h) (Option.some_ne_none c).symm

/-! ## Reading entries -/

theorem readHeader_bytes (attr : ConditionAttr) (value : BitVec 32)
    (h : Short (attrBytes attr word32 value ++ rest)) :
    readHeader attr (attrBytes attr word32 value ++ rest) = (some value, rest) := by
  rw [attrBytes, List.append_assoc] at h ⊢
  rw [readHeader, getUChar_code attr h]
  dsimp only
  rw [if_pos rfl]
  exact getAs_bytes h.right

theorem createFrom_serialize (htyped : ConditionClass.ofType c.conditionType = some c.data.classOf)
    (h : Short (c.serialize ++ rest)) : createFrom (c.serialize ++ rest) =
      (some (new c.data.classOf c.id c.conditionType c.ticks 0 c.buff c.subId),
        dataBytes c.data ++ rest) := by
  simp only [serialize, baseBytes, List.append_assoc] at h ⊢
  have hbuff : decide ((if c.buff then 1 else 0 : BitVec 32) ≠ 0) = c.buff := by
    cases c.buff <;> decide
  rw [createFrom, readHeader_bytes .type _ h, andThen_some, createTyped,
    readHeader_bytes .id _ h.right, andThen_some, readHeader_bytes .ticks _ h.right.right,
    andThen_some, readHeader_bytes .buff _ h.right.right.right, andThen_some,
    readHeader_bytes .subId _ h.right.right.right.right, andThen_some, create, htyped, hbuff]
  rfl

/-- An entry is read up to its end marker. -/
theorem unserialize_entry (now : ℤ) (c : Condition)
    (h : Short (dataBytes c.data ++ (addUChar ConditionAttr.finish.code ++ rest))) :
    unserialize now (new c.data.classOf c.id c.conditionType c.ticks 0 c.buff c.subId)
      (dataBytes c.data ++ (addUChar ConditionAttr.finish.code ++ rest)) =
        (some (reloaded now c), rest) := by
  have hend : unserializeRound now (reloaded now c, addUChar ConditionAttr.finish.code ++ rest) =
      .inr (some (reloaded now c), rest) := by
    rw [unserializeRound, getUChar_code .finish h.right]
    rfl
  rw [unserialize, (unserializeRound_falls now).run_eq (Nat.lt_succ_self _) (reaches_entry now c h) hend]
  rfl

theorem loadRound_falls (now : ℤ) : Loop.Falls (loadRound now) fun p => p.2.length := by
  intro p p' h
  obtain ⟨loaded, s⟩ := p
  rw [loadRound] at h
  cases hcreate : createFrom s with
  | mk created s₁ =>
  rw [hcreate] at h
  cases created with
  | none => exact absurd h Sum.inr_ne_inl
  | some c =>
    have hless := createFrom_length_lt hcreate
    have hleft := unserialize_left now c s₁
    dsimp only at h
    split at h
    · next heq =>
      rw [heq] at hleft
      rw [← Sum.inl.inj h]
      exact Nat.lt_of_le_of_lt hleft.length_le hless
    · next heq =>
      rw [heq] at hleft
      rw [← Sum.inl.inj h]
      exact Nat.lt_of_le_of_lt hleft.length_le hless

/-- The loop takes one entry after the other. -/
theorem reaches_entries (now : ℤ) (conditions loaded : List Condition)
    (htyped : ∀ c ∈ conditions, ConditionClass.ofType c.conditionType = some c.data.classOf)
    (h : Short (conditions.flatMap entryBytes ++ rest)) :
    Loop.Reaches (loadRound now) (loaded, conditions.flatMap entryBytes ++ rest)
      (loaded ++ conditions.map (reloaded now), rest) := by
  induction conditions generalizing loaded with
  | nil =>
    rw [List.map_nil, List.append_nil]
    exact Relation.ReflTransGen.refl
  | cons c conditions ih =>
    rw [List.flatMap_cons, entryBytes, List.append_assoc, List.append_assoc] at h ⊢
    have hcreate := createFrom_serialize (htyped c List.mem_cons_self) h
    have hdata : Short (dataBytes c.data ++
        (addUChar ConditionAttr.finish.code ++ (conditions.flatMap entryBytes ++ rest))) := by
      rw [serialize, List.append_assoc] at h
      exact h.right
    have hround : loadRound now (loaded, c.serialize ++
        (addUChar ConditionAttr.finish.code ++ (conditions.flatMap entryBytes ++ rest))) =
          .inl (loaded ++ [reloaded now c], conditions.flatMap entryBytes ++ rest) := by
      rw [loadRound, hcreate]
      dsimp only
      rw [unserialize_entry now c hdata]
    apply Loop.Reaches.head hround
    have hrest := ih (loaded ++ [reloaded now c])
      (fun c' hc' => htyped c' (List.mem_cons_of_mem c hc')) h.right.right
    rw [List.append_assoc] at hrest
    exact hrest

/-- What the loop makes of the entries of some conditions. -/
theorem loadConditions_entries (now : ℤ) (conditions : List Condition)
    (htyped : ∀ c ∈ conditions, ConditionClass.ofType c.conditionType = some c.data.classOf)
    (h : Short (conditions.flatMap entryBytes)) :
    loadConditions now (conditions.flatMap entryBytes) = (conditions.map (reloaded now), []) := by
  have hnil := List.append_nil (conditions.flatMap entryBytes)
  have hreaches := reaches_entries now conditions [] htyped (hnil.symm ▸ h)
  rw [hnil, List.nil_append] at hreaches
  have hend : loadRound now (conditions.map (reloaded now), []) =
      .inr (conditions.map (reloaded now), []) := rfl
  rw [loadConditions, (loadRound_falls now).run_eq (Nat.lt_succ_self _) hreaches hend]
  rfl

/-- The loop leaves nothing of a stream only if its size is counted right. -/
theorem loadConditions_left (now : ℤ) (s : PropStream) : Left s (loadConditions now s).2 := by
  have hends : (Loop.run (loadRound now) (s.length + 1) ([], s)).isSome :=
    (loadRound_falls now).run_isSome (Nat.lt_succ_self _)
  obtain ⟨p, hp⟩ := Option.isSome_iff_exists.mp hends
  rw [loadConditions, hp]
  have hround (loaded : List Condition) (s : PropStream) :
      (∀ p, loadRound now (loaded, s) = .inl p → Left s p.2) ∧
        ∀ p, loadRound now (loaded, s) = .inr p → Left s p.2 := by
    have hcreated := createFrom_left s
    rw [loadRound]
    split
    · next heq =>
      rw [heq] at hcreated
      exact ⟨fun p hp => absurd hp Sum.inr_ne_inl, fun p hp => Sum.inr.inj hp ▸ hcreated⟩
    · next c s₁ heq =>
      rw [heq] at hcreated
      have hleft := unserialize_left now c s₁
      split
      · next heq =>
        rw [heq] at hleft
        exact ⟨fun p hp => Sum.inl.inj hp ▸ hcreated.trans hleft,
          fun p hp => absurd hp Sum.inl_ne_inr⟩
      · next heq =>
        rw [heq] at hleft
        exact ⟨fun p hp => Sum.inl.inj hp ▸ hcreated.trans hleft,
          fun p hp => absurd hp Sum.inl_ne_inr⟩
  apply Loop.run_invariant (fun p => Left s p.2) (fun p => Left s p.2) _ _ (Left.refl s) hp
  · intro p p' hleft hnext
    exact hleft.trans ((hround p.1 p.2).1 p' hnext)
  · intro p p' hleft hexit
    exact hleft.trans ((hround p.1 p.2).2 p' hexit)

end Condition

end TyanoCore
