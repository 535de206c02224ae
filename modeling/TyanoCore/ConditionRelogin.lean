import TyanoCore.ConditionReload

/-!
# Conditions over a relogin

The conditions of a player that are saved come back as they were, exactly when each damage condition
among them has as many ticks left as its remaining intervals make together.
-/

namespace TyanoCore

open Bytes PropStream

namespace Condition

variable {c c' : Condition}

/-! ## The same condition -/

/-- The members that are of a class and that its entries hold are the same. -/
def SameData : ConditionData → ConditionData → Prop
  | .generic, .generic => True
  | .manaShield, .manaShield => True
  | .attributes m, .attributes m' => m'.skills = m.skills ∧ m'.stats = m.stats
  | .regeneration m, .regeneration m' =>
    m'.healthTicks = m.healthTicks ∧ m'.healthGain = m.healthGain ∧
      m'.manaTicks = m.manaTicks ∧ m'.manaGain = m.manaGain
  | .soul m, .soul m' => m'.soulGain = m.soulGain ∧ m'.soulTicks = m.soulTicks
  | .damage m, .damage m' =>
    m'.delayed = m.delayed ∧ m'.periodDamage = m.periodDamage ∧ m'.owner = m.owner ∧
      m'.damageList = m.damageList
  | .outfit outfits, .outfit outfits' => outfits' = outfits
  | .speed m, .speed m' => m' = m
  | .light m, .light m' => m' = m
  | _, _ => False

structure Same (c c' : Condition) : Prop where
  type_eq : c'.conditionType = c.conditionType
  id_eq : c'.id = c.id
  subId_eq : c'.subId = c.subId
  buff_eq : c'.buff = c.buff
  ticks_eq : c'.ticks = c.ticks
  data : SameData c.data c'.data

/-- The saved conditions come back: the whole blob is read, there is one condition for each that has
been saved, and they would be saved as the same bytes. -/
structure ComesBack (now : ℤ) (conditions : List Condition) : Prop where
  consumed : (loadConditions now (saveConditions conditions)).2 = []
  same : List.Forall₂ Same (conditions.filter isSaved)
    (loadConditions now (saveConditions conditions)).1
  again : saveConditions (loadConditions now (saveConditions conditions)).1 =
    saveConditions conditions

theorem dataBytes_congr {data data' : ConditionData} (h : SameData data data') :
    dataBytes data' = dataBytes data := by
  cases data <;> cases data' <;> simp_all [SameData, dataBytes]

theorem Same.entryBytes_eq (h : Same c c') : c'.entryBytes = c.entryBytes := by
  rw [entryBytes, entryBytes, serialize, serialize, baseBytes, baseBytes, h.type_eq, h.id_eq,
    h.subId_eq, h.buff_eq, h.ticks_eq, dataBytes_congr h.data]

theorem Same.isSaved_eq (h : Same c c') : c'.isSaved = c.isSaved := by
  rw [isSaved, isSaved, isPersistent, isPersistent, h.type_eq, h.id_eq, h.ticks_eq]

/-! ## The duration of damage conditions -/

/-- The remaining intervals of a damage condition make up its remaining ticks; while they are counted,
the sum never looks like that of a condition that does not end. -/
def DurationSummed (c : Condition) : Prop :=
  ∀ m, c.data = .damage m →
    (m.damageList.map IntervalInfo.interval).sum = c.ticks ∧
      ∀ infos, infos <+: m.damageList → (infos.map IntervalInfo.interval).sum ≠ -1

theorem lengthenAll_ticks_eq_iff (now : ℤ) (infos : List IntervalInfo) (c : Condition) {ticks : BitVec 32}
    (hticks : ticks ≠ -1) : (lengthenAll now c infos).ticks = ticks ↔
      c.ticks + (infos.map IntervalInfo.interval).sum = ticks ∧
        ∀ first, first <+: infos → c.ticks + (first.map IntervalInfo.interval).sum ≠ -1 := by
  induction infos generalizing c with
  | nil =>
    have hsum : c.ticks + (([] : List IntervalInfo).map IntervalInfo.interval).sum = c.ticks :=
      add_zero _
    rw [hsum]
    constructor
    · intro h
      refine ⟨h, fun first hfirst => ?_⟩
      rw [List.prefix_nil.mp hfirst, hsum]
      exact fun heq => hticks (h.symm.trans heq)
    · exact And.left
  | cons info infos ih =>
    show (lengthenAll now (lengthen now c info.interval) infos).ticks = ticks ↔ _
    rw [ih, lengthen]
    by_cases hforever : c.ticks = -1
    · -- a condition without an end stays without one, and the sum of no intervals shows it
      rw [if_neg (not_not.mpr hforever)]
      have hnil : c.ticks + (([] : List IntervalInfo).map IntervalInfo.interval).sum = -1 :=
        (add_zero _).trans hforever
      exact ⟨fun h => absurd hnil (h.2 [] (List.nil_prefix)),
        fun h => absurd hnil (h.2 [] (List.nil_prefix))⟩
    · rw [if_pos hforever, setTicks_ticks]
      have hsum (first : List IntervalInfo) :
          c.ticks + ((info :: first).map IntervalInfo.interval).sum =
            c.ticks + info.interval + (first.map IntervalInfo.interval).sum := by
        rw [List.map_cons, List.sum_cons, add_assoc]
      rw [hsum]
      apply and_congr_right
      intro _
      constructor
      · intro h first hfirst
        obtain rfl | ⟨tail, rfl, htail⟩ := List.prefix_cons_iff.mp hfirst
        · exact fun heq => hforever ((add_zero _).symm.trans heq)
        · rw [hsum]
          exact h tail htail
      · intro h first hfirst
        rw [← hsum]
        exact h (info :: first) (List.cons_prefix_cons.mpr ⟨rfl, hfirst⟩)

/-- A damage condition is saved because it is persistent. -/
theorem damage_ticks_ne {m : DamageData} (c : TypedCondition) (hsaved : c.isSaved)
    (hdata : c.data = .damage m) : c.ticks ≠ -1 := by
  have hclass := c.class_eq
  rw [hdata] at hclass
  have htype : c.conditionType ≠ ConditionType.gamemaster.code := by
    intro heq
    have hgeneric : ConditionClass.ofType c.conditionType = some .generic := by
      rw [heq]
      decide
    exact absurd (hgeneric.symm.trans hclass) (by simp [ConditionData.classOf])
  rw [isSaved, decide_eq_false htype, Bool.or_false, isPersistent, Bool.and_eq_true] at hsaved
  intro heq
  rw [heq] at hsaved
  exact absurd hsaved.1 (by decide)

theorem lengthenAll_eq (now : ℤ) (c : Condition) (infos : List IntervalInfo) : ∃ ticks endTime,
    lengthenAll now c infos = { c with ticks := ticks, endTime := endTime } := by
  induction infos generalizing c with
  | nil => exact ⟨c.ticks, c.endTime, rfl⟩
  | cons info infos ih =>
    obtain ⟨ticks, endTime, heq⟩ := ih (lengthen now c info.interval)
    refine ⟨ticks, endTime, heq.trans ?_⟩
    rw [lengthen]
    split <;> rfl

/-- Everything but the ticks comes back whatever the condition is. -/
theorem same_reloaded (now : ℤ) (c : Condition) (h : (reloaded now c).ticks = c.ticks) :
    Same c (reloaded now c) := by
  obtain ⟨id, subId, ticks, endTime, type, buff, data⟩ := c
  cases data with
  | damage m =>
    obtain ⟨ticks', endTime', heq⟩ := lengthenAll_eq now
      ⟨id, subId, 0, 0, type, buff, reloadedData (.damage m)⟩ m.damageList
    have hreloaded : reloaded now ⟨id, subId, ticks, endTime, type, buff, .damage m⟩ =
        ⟨id, subId, ticks', endTime', type, buff, reloadedData (.damage m)⟩ := heq
    rw [hreloaded] at h ⊢
    exact ⟨rfl, rfl, rfl, rfl, h, rfl, rfl, rfl, rfl⟩
  | generic | manaShield => exact ⟨rfl, rfl, rfl, rfl, h, trivial⟩
  | attributes m | soul m => exact ⟨rfl, rfl, rfl, rfl, h, rfl, rfl⟩
  | regeneration m => exact ⟨rfl, rfl, rfl, rfl, h, rfl, rfl, rfl, rfl⟩
  | outfit outfits => exact ⟨rfl, rfl, rfl, rfl, h, rfl⟩
  | speed m | light m => exact ⟨rfl, rfl, rfl, rfl, h, rfl⟩

/-- The ticks come back exactly when the remaining intervals make them up. -/
theorem same_reloaded_iff (now : ℤ) (c : TypedCondition) (hsaved : c.isSaved) :
    Same c.toCondition (reloaded now c.toCondition) ↔ DurationSummed c.toCondition := by
  have hticks : Same c.toCondition (reloaded now c.toCondition) ↔
      (reloaded now c.toCondition).ticks = c.ticks := ⟨Same.ticks_eq, same_reloaded now _⟩
  rw [hticks]
  cases hdata : c.data with
  | damage m =>
    have hreloaded : (reloaded now c.toCondition).ticks = (lengthenAll now
        { c.toCondition with ticks := 0, endTime := 0, data := reloadedData c.data }
          m.damageList).ticks := by
      rw [reloaded, hdata]
    have hiff := lengthenAll_ticks_eq_iff now m.damageList
      { c.toCondition with ticks := 0, endTime := 0, data := reloadedData c.data }
      (damage_ticks_ne c hsaved hdata)
    simp only [zero_add] at hiff
    rw [hreloaded, hiff]
    constructor
    · intro h m' hm'
      rw [hdata] at hm'
      exact ConditionData.damage.inj hm' ▸ h
    · intro h
      exact h m hdata
  | _ =>
    have heq : (reloaded now c.toCondition).ticks = c.ticks := by rw [reloaded, hdata]
    refine ⟨fun _ m hm => ?_, fun _ => heq⟩
    rw [hdata] at hm
    cases hm

/-! ## The conditions of a player -/

/-- What is loaded for the saved conditions is saved as they are. -/
theorem saveConditions_same {saved loaded : List Condition} (hsaved : ∀ c ∈ saved, c.isSaved)
    (h : List.Forall₂ Same saved loaded) :
    saveConditions loaded = saved.flatMap entryBytes := by
  rw [saveConditions]
  induction h with
  | nil => rfl
  | cons hhead _ ih =>
    have htrue := hhead.isSaved_eq.trans (hsaved _ List.mem_cons_self)
    rw [List.filter_cons_of_pos htrue, List.flatMap_cons, List.flatMap_cons, hhead.entryBytes_eq,
      ih fun c hc => hsaved c (List.mem_cons_of_mem _ hc)]

/-- The conditions of a player come back exactly when the blob is not too long for its size and each
saved damage condition has the ticks that its remaining intervals make. -/
theorem comesBack_iff (now : ℤ) (conditions : List TypedCondition) :
    ComesBack now (conditions.map TypedCondition.toCondition) ↔
      Short (saveConditions (conditions.map TypedCondition.toCondition)) ∧
        ∀ c ∈ conditions, c.isSaved → DurationSummed c.toCondition := by
  let conditions' := conditions.map TypedCondition.toCondition
  have htyped : ∀ c ∈ conditions'.filter isSaved,
      ConditionClass.ofType c.conditionType = some c.data.classOf := by
    intro c hc
    obtain ⟨c, _, rfl⟩ := List.mem_map.mp (List.mem_of_mem_filter hc)
    exact c.class_eq
  -- a blob that is not too long is read as the reloaded conditions
  have hload (hshort : Short (saveConditions conditions')) :
      loadConditions now (saveConditions conditions') =
        ((conditions'.filter isSaved).map (reloaded now), []) :=
    loadConditions_entries now _ htyped hshort
  have hsame : List.Forall₂ Same (conditions'.filter isSaved)
      ((conditions'.filter isSaved).map (reloaded now)) ↔
        ∀ c ∈ conditions, c.isSaved → DurationSummed c.toCondition := by
    rw [List.forall₂_map_right_iff, List.forall₂_same]
    constructor
    · intro h c hc hsaved
      apply (same_reloaded_iff now c hsaved).mp
      exact h _ (List.mem_filter.mpr ⟨List.mem_map_of_mem hc, hsaved⟩)
    · intro h c hc
      obtain ⟨hmem, hsaved⟩ := List.mem_filter.mp hc
      obtain ⟨c, hlist, rfl⟩ := List.mem_map.mp hmem
      exact (same_reloaded_iff now c hsaved).mpr (h c hlist hsaved)
  constructor
  · intro h
    -- nothing is left only of a stream whose size is counted right
    have hshort : Short (saveConditions conditions') := by
      have hleft := loadConditions_left now (saveConditions conditions')
      rw [h.consumed] at hleft
      exact short_iff_turns.mpr hleft.turns_eq.symm
    have hforall := h.same
    rw [hload hshort] at hforall
    exact ⟨hshort, hsame.mp hforall⟩
  · intro h
    have hforall := hsame.mpr h.2
    refine ⟨?_, ?_, ?_⟩
    · rw [hload h.1]
    · rw [hload h.1]
      exact hforall
    · rw [hload h.1]
      exact saveConditions_same (fun c hc => (List.mem_filter.mp hc).2) hforall

/-- A poison of two intervals of two seconds, a second after its start: the first damage has been
done, and three seconds are left. -/
def startedPoison : TypedCondition where
  id := conditionIdDefault
  subId := 0
  ticks := 3000
  endTime := 4000
  conditionType := ConditionType.poison.code
  buff := false
  data := .damage
    { forceUpdate := false, delayed := false, maxDamage := 0, minDamage := 0, startDamage := 0,
      periodDamage := 0, periodDamageTick := 0, tickInterval := 2000, owner := 0,
      damageList := [{ timeLeft := 1000, value := -5, interval := 2000 }] }
  class_eq := by decide

/-- The poison comes back with the two seconds of the interval that it has left. -/
theorem startedPoison_shortened : ¬ ComesBack 1000 [startedPoison.toCondition] := by
  intro h
  have hsame := h.same
  have hsaved : [startedPoison.toCondition].filter isSaved = [startedPoison.toCondition] := by decide
  have hload : (loadConditions 1000 (saveConditions [startedPoison.toCondition])).1.map ticks =
      [2000] := by decide
  rw [hsaved] at hsame
  generalize (loadConditions 1000 (saveConditions [startedPoison.toCondition])).1 = loaded at hsame hload
  cases hsame with
  | cons hhead htail =>
    have hticks := List.head_eq_of_cons_eq hload
    rw [hhead.ticks_eq] at hticks
    exact absurd hticks (by decide)

end Condition

end TyanoCore
