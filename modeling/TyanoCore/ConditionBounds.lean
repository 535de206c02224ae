import TyanoCore.ConditionReload

/-!
# The arrays of `ConditionAttributes`

Which elements of `skills` and `stats` are written when conditions are read.  The places come from two
counters that every record of a skill or of a stat moves on, so they depend on how many records of a
kind an entry has, and on nothing else.
-/

namespace TyanoCore

open Bytes PropStream

/-- An element of one of the two arrays. -/
inductive ArrayElement where
  | skill (index : ℕ)
  | stat (index : ℕ)
  deriving DecidableEq

/-- The arrays go up to `SKILL_LAST` and `STAT_LAST`. -/
def ArrayElement.Exists : ArrayElement → Prop
  | skill i => i ≤ 6
  | stat i => i ≤ 4

instance : DecidablePred ArrayElement.Exists := fun e => by
  cases e <;> exact Nat.decLe _ _

namespace Condition

/-! ## What is written -/

/-- The elements that `attributesProp` writes. -/
def attributesWrites (m : AttributesData) (attr : ConditionAttr) (s : PropStream) :
    List ArrayElement :=
  match attr with
  | .skills => ((getAs word32 s).1.map fun _ => ArrayElement.skill m.currentSkill).toList
  | .stats => ((getAs word32 s).1.map fun _ => ArrayElement.stat m.currentStat).toList
  | _ => []

/-- The elements that the virtual `unserializeProp` writes. -/
def propWrites (c : Condition) (attr : ConditionAttr) (s : PropStream) : List ArrayElement :=
  match c.data with
  | .attributes m => attributesWrites m attr s
  | _ => []

/-- The elements that a round of `unserialize` writes. -/
def roundWrites : Condition × PropStream → List ArrayElement
  | (c, s) =>
    match getUChar s with
    | (none, _) => []
    | (some attrType, s) =>
      match ConditionAttr.ofCode attrType with
      | none => []
      | some .finish => []
      | some attr => propWrites c attr s

/-- An element is written on the way of `loadPlayer` through a byte string. -/
def Writes (now : ℤ) (bytes : List UInt8) (e : ArrayElement) : Prop :=
  ∃ loaded s c s₁ p, Loop.Reaches (loadRound now) ([], bytes) (loaded, s) ∧
    createFrom s = (some c, s₁) ∧ Loop.Reaches (unserializeRound now) (c, s₁) p ∧ e ∈ roundWrites p

/-! ## The records of a byte string -/

/-- How many bytes the value of an attribute has in an entry of a class; `none` where the class has no
such attribute. -/
def valueSize : ConditionClass → ConditionAttr → Option ℕ
  | _, .type => some word32.size
  | _, .id => some word32.size
  | _, .ticks => some word32.size
  | _, .buff => some word32.size
  | _, .subId => some word32.size
  | .attributes, .skills => some word32.size
  | .attributes, .stats => some word32.size
  | .regeneration, .healthTicks => some word32.size
  | .regeneration, .healthGain => some word32.size
  | .regeneration, .manaTicks => some word32.size
  | .regeneration, .manaGain => some word32.size
  | .soul, .soulGain => some word32.size
  | .soul, .soulTicks => some word32.size
  | .damage, .delayed => some Layout.bool.size
  | .damage, .periodDamage => some word32.size
  | .damage, .owner => some word32.size
  | .damage, .intervalData => some IntervalInfo.layout.size
  | .outfit, .outfit => some Outfit.layout.size
  | .speed, .outfit => some Outfit.layout.size
  | .speed, .speedDelta => some word32.size
  | .speed, .formulaMinA => some word32.size
  | .speed, .formulaMinB => some word32.size
  | .speed, .formulaMaxA => some word32.size
  | .speed, .formulaMaxB => some word32.size
  | .light, .lightColor => some word32.size
  | .light, .lightLevel => some word32.size
  | .light, .lightTicks => some word32.size
  | .light, .lightInterval => some word32.size
  | _, _ => none

/-- The records of an entry up to its end or to the first that is none of its class, and what is left
of the stream. -/
def records (cls : ConditionClass) : ℕ → PropStream → List ConditionAttr × PropStream
  | 0, s => ([], s)
  | n + 1, s =>
    match getUChar s with
    | (none, s) => ([], s)
    | (some attrType, s) =>
      match ConditionAttr.ofCode attrType with
      | none => ([], s)
      | some .finish => ([], s)
      | some attr =>
        match valueSize cls attr with
        | none => ([], s)
        | some size =>
          if s.lacks size then ([], s)
          else
            let rest := records cls n (s.drop size)
            (attr :: rest.1, rest.2)

/-- The entries of a byte string, each with its class and its records. -/
def entries : ℕ → PropStream → List (ConditionClass × List ConditionAttr)
  | 0, _ => []
  | n + 1, s =>
    match createFrom s with
    | (none, _) => []
    | (some c, s) =>
      let entry := records c.data.classOf (s.length + 1) s
      (c.data.classOf, entry.1) :: entries n entry.2

/-- An entry has no more records of skills and of stats than there are elements. -/
def EntryFits (entry : ConditionClass × List ConditionAttr) : Prop :=
  entry.1 = .attributes → entry.2.count .skills ≤ 7 ∧ entry.2.count .stats ≤ 5

instance : DecidablePred EntryFits := fun _ => inferInstanceAs (Decidable (_ → _))

/-! ## The places -/

/-- The counters `currentSkill` and `currentStat`. -/
def cursors : ConditionData → ℕ × ℕ
  | .attributes m => (m.currentSkill, m.currentStat)
  | _ => (0, 0)

/-- What a record does to the counters. -/
def advance : ConditionAttr → ℕ × ℕ → ℕ × ℕ
  | .skills, (i, j) => (i + 1, j)
  | .stats, (i, j) => (i, j + 1)
  | _, p => p

/-- The elements that records write, from the counters on. -/
def places : ℕ × ℕ → List ConditionAttr → List ArrayElement
  | _, [] => []
  | (i, j), .skills :: l => .skill i :: places (i + 1, j) l
  | (i, j), .stats :: l => .stat j :: places (i, j + 1) l
  | p, _ :: l => places p l

theorem places_cons (p : ℕ × ℕ) (attr : ConditionAttr) (l : List ConditionAttr) :
    places p (attr :: l) = places p [attr] ++ places (advance attr p) l := by
  obtain ⟨i, j⟩ := p
  cases attr <;> rfl

theorem skill_mem_places {p : ℕ × ℕ} {l : List ConditionAttr} {k : ℕ} :
    .skill k ∈ places p l ↔ p.1 ≤ k ∧ k < p.1 + l.count .skills := by
  induction l generalizing p with
  | nil =>
    simp only [places, List.not_mem_nil, List.count_nil, Nat.add_zero, false_iff]
    omega
  | cons attr l ih =>
    obtain ⟨i, j⟩ := p
    rw [places_cons, List.mem_append, ih, List.count_cons]
    cases attr <;>
      simp only [places, advance, List.mem_singleton, List.not_mem_nil, false_or, beq_iff_eq,
        reduceCtorEq, if_false, if_true, Nat.add_zero, ArrayElement.skill.injEq]
    all_goals omega

theorem stat_mem_places {p : ℕ × ℕ} {l : List ConditionAttr} {k : ℕ} :
    .stat k ∈ places p l ↔ p.2 ≤ k ∧ k < p.2 + l.count .stats := by
  induction l generalizing p with
  | nil =>
    simp only [places, List.not_mem_nil, List.count_nil, Nat.add_zero, false_iff]
    omega
  | cons attr l ih =>
    obtain ⟨i, j⟩ := p
    rw [places_cons, List.mem_append, ih, List.count_cons]
    cases attr <;>
      simp only [places, advance, List.mem_singleton, List.not_mem_nil, false_or, beq_iff_eq,
        reduceCtorEq, if_false, if_true, Nat.add_zero, ArrayElement.stat.injEq]
    all_goals omega

/-- From the start of the arrays on, all places exist when there are no more records than elements. -/
theorem places_exist_iff (l : List ConditionAttr) :
    (∀ e ∈ places (0, 0) l, e.Exists) ↔ l.count .skills ≤ 7 ∧ l.count .stats ≤ 5 := by
  constructor
  · intro h
    constructor
    · by_contra hmore
      have hlast := h (.skill 7) (skill_mem_places.mpr (by omega))
      exact absurd hlast (by decide)
    · by_contra hmore
      have hlast := h (.stat 5) (stat_mem_places.mpr (by omega))
      exact absurd hlast (by decide)
  · intro h e he
    cases e with
    | skill k =>
      have hk := skill_mem_places.mp he
      show k ≤ 6
      omega
    | stat k =>
      have hk := stat_mem_places.mp he
      show k ≤ 4
      omega

/-! ## Reading a record -/

/-- What reading a value of so many bytes comes to: without the bytes nothing, with them a condition of
the same class that has moved on its counters. -/
def PropRead (c : Condition) (attr : ConditionAttr) (s : PropStream)
    (result : Option Condition × PropStream) : Option ℕ → Prop
  | none => result = (none, s)
  | some size =>
    if s.lacks size then result = (none, s)
    else ∃ c', result = (some c', s.drop size) ∧ c'.data.classOf = c.data.classOf ∧
      cursors c'.data = advance attr (cursors c.data)

variable {α : Type} {c : Condition} {attr : ConditionAttr} {s : PropStream}

theorem propRead_readAs (layout : Layout α) {change : α → Condition}
    (hclass : ∀ value, (change value).data.classOf = c.data.classOf)
    (hcursors : ∀ value, cursors (change value).data = advance attr (cursors c.data)) :
    PropRead c attr s (readAs layout s change) (some layout.size) := by
  rw [PropRead, readAs, getAs, getValue]
  split
  · rfl
  · exact ⟨_, rfl, hclass _, hcursors _⟩

/-- `unserializeProp` reads the value of an attribute of the class, and knows no other attribute. -/
theorem unserializeProp_propRead (now : ℤ) (c : Condition) (attr : ConditionAttr) (s : PropStream)
    (hend : attr ≠ .finish) :
    PropRead c attr s (unserializeProp now c attr s) (valueSize c.data.classOf attr) := by
  obtain ⟨id, subId, ticks, endTime, type, buff, data⟩ := c
  -- one case for each class, with the attributes that its `unserializeProp` names
  cases data with
  | generic | manaShield =>
    cases attr with
    | type | id | ticks | buff | subId =>
      exact propRead_readAs word32 (fun _ => rfl) (fun _ => rfl)
    | finish => exact absurd rfl hend
    | _ => rfl
  | attributes m =>
    cases attr with
    | type | id | ticks | buff | subId | skills | stats =>
      exact propRead_readAs word32 (fun _ => rfl) (fun _ => rfl)
    | finish => exact absurd rfl hend
    | _ => rfl
  | regeneration m =>
    cases attr with
    | type | id | ticks | buff | subId | healthTicks | healthGain | manaTicks | manaGain =>
      exact propRead_readAs word32 (fun _ => rfl) (fun _ => rfl)
    | finish => exact absurd rfl hend
    | _ => rfl
  | soul m =>
    cases attr with
    | type | id | ticks | buff | subId | soulGain | soulTicks =>
      exact propRead_readAs word32 (fun _ => rfl) (fun _ => rfl)
    | finish => exact absurd rfl hend
    | _ => rfl
  | damage m =>
    cases attr with
    | type | id | ticks | buff | subId | periodDamage | owner =>
      exact propRead_readAs word32 (fun _ => rfl) (fun _ => rfl)
    | delayed => exact propRead_readAs Layout.bool (fun _ => rfl) (fun _ => rfl)
    | intervalData =>
      -- the interval is listed, whatever becomes of the ticks
      have hdata (info : IntervalInfo) : (pushInterval now
          ⟨id, subId, ticks, endTime, type, buff, .damage m⟩ m info).data =
            .damage { m with damageList := m.damageList ++ [info] } := by
        rw [pushInterval, lengthen]
        split <;> rfl
      apply propRead_readAs IntervalInfo.layout
      · intro info
        rw [hdata]
        rfl
      · intro info
        rw [hdata]
        rfl
    | finish => exact absurd rfl hend
    | _ => rfl
  | outfit outfits =>
    cases attr with
    | type | id | ticks | buff | subId =>
      exact propRead_readAs word32 (fun _ => rfl) (fun _ => rfl)
    | outfit => exact propRead_readAs Outfit.layout (fun _ => rfl) (fun _ => rfl)
    | finish => exact absurd rfl hend
    | _ => rfl
  | speed m =>
    cases attr with
    | type | id | ticks | buff | subId | speedDelta | formulaMinA | formulaMinB | formulaMaxA
    | formulaMaxB =>
      exact propRead_readAs word32 (fun _ => rfl) (fun _ => rfl)
    | outfit => exact propRead_readAs Outfit.layout (fun _ => rfl) (fun _ => rfl)
    | finish => exact absurd rfl hend
    | _ => rfl
  | light m =>
    cases attr with
    | type | id | ticks | buff | subId | lightColor | lightLevel | lightTicks | lightInterval =>
      exact propRead_readAs word32 (fun _ => rfl) (fun _ => rfl)
    | finish => exact absurd rfl hend
    | _ => rfl

/-! ## Reading an entry -/

/-- The elements that the records of an entry write. -/
def entryPlaces (cls : ConditionClass) (p : ℕ × ℕ) (l : List ConditionAttr) : List ArrayElement :=
  if cls = .attributes then places p l else []

theorem entryPlaces_cons (cls : ConditionClass) (p : ℕ × ℕ) (attr : ConditionAttr)
    (l : List ConditionAttr) :
    entryPlaces cls p (attr :: l) =
      entryPlaces cls p [attr] ++ entryPlaces cls (advance attr p) l := by
  rw [entryPlaces, entryPlaces, entryPlaces]
  split
  · exact places_cons p attr l
  · rfl

theorem entryPlaces_nil (cls : ConditionClass) (p : ℕ × ℕ) : entryPlaces cls p [] = [] :=
  ite_self []

/-- A record writes where the counters are, if its value can be read. -/
theorem propWrites_eq (c : Condition) (attr : ConditionAttr) (s : PropStream) :
    propWrites c attr s =
      match valueSize c.data.classOf attr with
      | none => []
      | some size => if s.lacks size then [] else entryPlaces c.data.classOf (cursors c.data) [attr] := by
  obtain ⟨id, subId, ticks, endTime, type, buff, data⟩ := c
  cases data with
  | attributes m =>
    cases attr with
    | skills | stats =>
      show ((getAs word32 s).1.map _).toList = if s.lacks word32.size then [] else _
      rw [getAs, getValue]
      split <;> rfl
    | type | id | ticks | buff | subId =>
      show [] = if s.lacks word32.size then [] else _
      split <;> rfl
    | _ => rfl
  | _ =>
    show [] = _
    split
    · rfl
    · exact (ite_self _).symm

section Round

variable {s s₁ : PropStream} {attrType : ℕ} (hread : getUChar s = (some attrType, s₁))

include hread

/-- A byte that ends the entry, or that is no attribute. -/
theorem round_ends (now : ℤ) (c : Condition) (n : ℕ)
    (hcode : ∀ attr, ConditionAttr.ofCode attrType = some attr → attr = .finish) :
    (∃ result, unserializeRound now (c, s) = .inr (result, s₁)) ∧ roundWrites (c, s) = [] ∧
      records c.data.classOf (n + 1) s = ([], s₁) := by
  rw [unserializeRound, roundWrites, records, hread]
  dsimp only
  cases hof : ConditionAttr.ofCode attrType with
  | none => exact ⟨⟨none, rfl⟩, rfl, rfl⟩
  | some attr =>
    rw [hcode attr hof]
    exact ⟨⟨some c, rfl⟩, rfl, rfl⟩

/-- A byte that is an attribute. -/
theorem round_attr {attr : ConditionAttr} (hcode : ConditionAttr.ofCode attrType = some attr)
    (hend : attr ≠ .finish) (now : ℤ) (c : Condition) (n : ℕ) :
    (unserializeRound now (c, s) =
      match unserializeProp now c attr s₁ with
      | (none, s) => .inr (none, s)
      | (some c, s) => .inl (c, s)) ∧ roundWrites (c, s) = propWrites c attr s₁ ∧
      records c.data.classOf (n + 1) s =
        match valueSize c.data.classOf attr with
        | none => ([], s₁)
        | some size =>
          if s₁.lacks size then ([], s₁)
          else
            let rest := records c.data.classOf n (s₁.drop size)
            (attr :: rest.1, rest.2) := by
  rw [unserializeRound, roundWrites, records, hread]
  dsimp only
  rw [hcode]
  cases attr with
  | finish => exact absurd rfl hend
  | _ => exact ⟨rfl, rfl, rfl⟩

end Round

/-- The rounds of `unserialize` write what the records of the entry write, and leave what is behind
them. -/
theorem trace_unserialize (now : ℤ) (n : ℕ) (c : Condition) (s : PropStream) :
    Loop.trace (unserializeRound now) roundWrites n (c, s) =
        entryPlaces c.data.classOf (cursors c.data) (records c.data.classOf n s).1 ∧
      ∀ p, Loop.run (unserializeRound now) n (c, s) = some p →
        p.2 = (records c.data.classOf n s).2 := by
  induction n generalizing c s with
  | zero => exact ⟨(entryPlaces_nil _ _).symm, fun p hp => absurd hp (Option.not_mem_none p)⟩
  | succ n ih =>
    -- a round that is the last one and writes nothing
    have hlast (s' : PropStream) (hround : ∃ result, unserializeRound now (c, s) = .inr (result, s'))
        (hwrites : roundWrites (c, s) = [])
        (hrecords : records c.data.classOf (n + 1) s = ([], s')) :
        Loop.trace (unserializeRound now) roundWrites (n + 1) (c, s) =
            entryPlaces c.data.classOf (cursors c.data) (records c.data.classOf (n + 1) s).1 ∧
          ∀ p, Loop.run (unserializeRound now) (n + 1) (c, s) = some p →
            p.2 = (records c.data.classOf (n + 1) s).2 := by
      obtain ⟨result, hround⟩ := hround
      rw [Loop.trace_inr hround, hwrites, hrecords, Loop.run_inr hround]
      exact ⟨(entryPlaces_nil _ _).symm, fun p hp => by rw [← Option.some.inj hp]⟩
    cases hread : getUChar s with
    | mk attrType s₁ =>
    cases attrType with
    | none =>
      apply hlast s₁
      · exact ⟨some c, by rw [unserializeRound, hread]⟩
      · rw [roundWrites, hread]
      · rw [records, hread]
    | some attrType =>
      by_cases hcode : ∀ attr, ConditionAttr.ofCode attrType = some attr → attr = .finish
      · obtain ⟨hround, hwrites, hrecords⟩ := round_ends hread now c n hcode
        exact hlast _ hround hwrites hrecords
      obtain ⟨attr, hattr⟩ := not_forall.mp hcode
      obtain ⟨hof, hend⟩ := Classical.not_imp.mp hattr
      obtain ⟨hround, hwrites, hrecords⟩ := round_attr hread hof hend now c n
      have hprop := unserializeProp_propRead now c attr s₁ hend
      rw [propWrites_eq] at hwrites
      cases hsize : valueSize c.data.classOf attr with
      | none =>
        rw [hsize] at hprop hwrites hrecords
        rw [show unserializeProp now c attr s₁ = (none, s₁) from hprop] at hround
        exact hlast _ ⟨none, hround⟩ hwrites hrecords
      | some size =>
        rw [hsize] at hprop hwrites hrecords
        rw [PropRead] at hprop
        dsimp only at hwrites hrecords
        by_cases hlacks : s₁.lacks size
        · rw [if_pos hlacks] at hprop hwrites hrecords
          rw [hprop] at hround
          exact hlast _ ⟨none, hround⟩ hwrites hrecords
        · rw [if_neg hlacks] at hprop hwrites hrecords
          obtain ⟨c', hread', hclass, hcursors⟩ := hprop
          rw [hread'] at hround
          obtain ⟨hplaces, hrest⟩ := ih c' (s₁.drop size)
          rw [hclass] at hplaces hrest
          rw [hrecords, Loop.trace_inl hround, hwrites, hplaces, hcursors, Loop.run_inl hround]
          exact ⟨(entryPlaces_cons ..).symm, hrest⟩

/-! ## Reading all entries -/

theorem unserialize_rest (now : ℤ) (c : Condition) (s : PropStream) :
    (unserialize now c s).2 = (records c.data.classOf (s.length + 1) s).2 := by
  have hends : (Loop.run (unserializeRound now) (s.length + 1) (c, s)).isSome :=
    (unserializeRound_falls now).run_isSome (Nat.lt_succ_self _)
  obtain ⟨p, hp⟩ := Option.isSome_iff_exists.mp hends
  rw [unserialize, hp]
  exact (trace_unserialize now _ c s).2 p hp

/-- The elements that a round of `loadPlayer` writes. -/
def loadWrites (now : ℤ) (p : List Condition × PropStream) : List ArrayElement :=
  match createFrom p.2 with
  | (none, _) => []
  | (some c, s) => Loop.trace (unserializeRound now) roundWrites (s.length + 1) (c, s)

/-- A new object has its counters at the start. -/
theorem createFrom_cursors {s s' : PropStream} {c : Condition} (h : createFrom s = (some c, s')) :
    cursors c.data = (0, 0) := by
  have hnew (id type ticks param : BitVec 32) (buff : Bool) (subId : BitVec 32) {c : Condition}
      (hc : create id type ticks param buff subId = some c) : cursors c.data = (0, 0) := by
    obtain ⟨cls, -, rfl⟩ := Option.map_eq_some_iff.mp hc
    cases cls <;> rfl
  have hthen {α : Type} {read : Option α × PropStream}
      {next : α → PropStream → Option Condition × PropStream}
      (h : andThen read next = (some c, s')) : ∃ a t, next a t = (some c, s') := by
    obtain ⟨value, t⟩ := read
    cases value with
    | none => exact absurd (congrArg Prod.fst h) (Option.some_ne_none c).symm
    | some value => exact ⟨value, t, h⟩
  obtain ⟨type, t₁, h₁⟩ := hthen h
  obtain ⟨id, t₂, h₂⟩ := hthen h₁
  obtain ⟨ticks, t₃, h₃⟩ := hthen h₂
  obtain ⟨buff, t₄, h₄⟩ := hthen h₃
  obtain ⟨subId, t₅, h₅⟩ := hthen h₄
  exact hnew _ _ _ _ _ _ (congrArg Prod.fst h₅)

/-- The rounds of `loadPlayer` write what the entries write. -/
theorem trace_loadWrites (now : ℤ) (n : ℕ) (loaded : List Condition) (s : PropStream) :
    Loop.trace (loadRound now) (loadWrites now) n (loaded, s) =
      (entries n s).flatMap fun entry => entryPlaces entry.1 (0, 0) entry.2 := by
  induction n generalizing loaded s with
  | zero => rfl
  | succ n ih =>
    cases hcreate : createFrom s with
    | mk created s₁ =>
    cases created with
    | none =>
      have hround : loadRound now (loaded, s) = .inr (loaded, s₁) := by rw [loadRound, hcreate]
      rw [Loop.trace_inr hround, loadWrites, entries, hcreate]
      rfl
    | some c =>
      have hwrites : loadWrites now (loaded, s) = entryPlaces c.data.classOf (0, 0)
          (records c.data.classOf (s₁.length + 1) s₁).1 := by
        rw [loadWrites, hcreate, ← createFrom_cursors hcreate]
        exact (trace_unserialize now _ c s₁).1
      have hround : ∃ loaded', loadRound now (loaded, s) =
          .inl (loaded', (records c.data.classOf (s₁.length + 1) s₁).2) := by
        rw [← unserialize_rest now, loadRound, hcreate]
        dsimp only
        split
        · next heq => exact ⟨loaded, by rw [heq]⟩
        · next c' _ heq => exact ⟨loaded ++ [c'], by rw [heq]⟩
      obtain ⟨loaded', hround⟩ := hround
      rw [Loop.trace_inl hround, hwrites, ih, entries, hcreate]
      rfl

theorem writes_iff (now : ℤ) (bytes : List UInt8) (e : ArrayElement) :
    Writes now bytes e ↔
      e ∈ (entries (bytes.length + 1) bytes).flatMap fun entry => entryPlaces entry.1 (0, 0) entry.2 := by
  have hload : e ∈ Loop.trace (loadRound now) (loadWrites now) (bytes.length + 1) ([], bytes) ↔
      ∃ p, Loop.Reaches (loadRound now) ([], bytes) p ∧ e ∈ loadWrites now p :=
    (loadRound_falls now).mem_trace (Nat.lt_succ_self bytes.length)
  rw [← trace_loadWrites now _ [], hload]
  constructor
  · rintro ⟨loaded, s, c, s₁, p, hload, hcreate, hentry, he⟩
    refine ⟨(loaded, s), hload, ?_⟩
    rw [loadWrites, hcreate]
    exact ((unserializeRound_falls now).mem_trace (Nat.lt_succ_self _)).mpr ⟨p, hentry, he⟩
  · rintro ⟨⟨loaded, s⟩, hload, he⟩
    rw [loadWrites] at he
    split at he
    · exact absurd he List.not_mem_nil
    · next c s₁ hcreate =>
      obtain ⟨p, hentry, he⟩ :=
        ((unserializeRound_falls now).mem_trace (Nat.lt_succ_self _)).mp he
      exact ⟨loaded, s, c, s₁, p, hload, hcreate, hentry, he⟩

/-- Only elements of the arrays are written exactly when no entry for attributes has more than seven
records of skills or five of stats. -/
theorem writes_exist_iff (now : ℤ) (bytes : List UInt8) :
    (∀ e, Writes now bytes e → e.Exists) ↔ ∀ entry ∈ entries (bytes.length + 1) bytes, EntryFits entry := by
  have hentry (entry : ConditionClass × List ConditionAttr) :
      (∀ e ∈ entryPlaces entry.1 (0, 0) entry.2, e.Exists) ↔ EntryFits entry := by
    rw [entryPlaces, EntryFits]
    split
    · next hcls => exact (places_exist_iff entry.2).trans ⟨fun h _ => h, fun h => h hcls⟩
    · next hcls => exact iff_of_true (fun e he => absurd he List.not_mem_nil) (fun h => absurd h hcls)
  constructor
  · intro h entry hmem
    refine (hentry entry).mp fun e he => h e ?_
    exact (writes_iff now bytes e).mpr (List.mem_flatMap.mpr ⟨entry, hmem, he⟩)
  · intro h e hwrites
    obtain ⟨entry, hmem, he⟩ := List.mem_flatMap.mp ((writes_iff now bytes e).mp hwrites)
    exact (hentry entry).mpr (h entry hmem) e he

/-- The header of a condition for attributes, with as many records of skills as asked for. -/
def skillsEntry (n : ℕ) : List UInt8 :=
  [1, 0, 0, 2, 0, 2, 0, 0, 0, 0, 3, 0, 0, 0, 0, 26, 0, 0, 0, 0, 27, 0, 0, 0, 0] ++
    (List.replicate n [22, 1, 0, 0, 0]).flatten ++ [254]

/-- The eighth record goes behind the array. -/
theorem not_writes_exist : Writes 0 (skillsEntry 8) (.skill 7) ∧ ¬ (ArrayElement.skill 7).Exists := by
  constructor
  · exact (writes_iff 0 (skillsEntry 8) (.skill 7)).mpr (by decide +kernel)
  · decide

end Condition

end TyanoCore
