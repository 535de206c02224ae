import Mathlib.Algebra.Order.Ring.Rat
import Mathlib.Logic.Function.Iterate
import Mathlib.Tactic.Linarith
import Mathlib.Tactic.Ring

/-!
# Experience and levels

The experience of a player, the levels it is enough for, and what a player gains with each of them.
Experience is counted in 64 bits and levels in 32; the formula for a level wraps round, and the code
takes a falling value for the end of all levels.
-/

namespace TyanoCore

/-! ## The experience for a level -/

/-- `getExpForLevel`. -/
def getExpForLevel (lv : ℕ) : ℕ :=
  let lv := (lv + (2 ^ 32 - 1)) % 2 ^ 32
  ((50 * lv * lv * lv % 2 ^ 64 + (2 ^ 64 - 150 * lv * lv % 2 ^ 64) + 400 * lv) % 2 ^ 64) / 3

/-- The experience that is needed for so many levels above the first, as an exact number. -/
def expForGains : ℕ → ℕ
  | 0 => 0
  | n + 1 => expForGains n + 50 * (n * (n - 1) + 2)

theorem expForGains_lt_succ (n : ℕ) : expForGains n < expForGains (n + 1) := by
  rw [expForGains]
  omega

theorem expForGains_strictMono : StrictMono expForGains := strictMono_nat_of_lt_succ expForGains_lt_succ

theorem three_mul_expForGains (n : ℕ) : 3 * expForGains n + 150 * n ^ 2 = 50 * n ^ 3 + 400 * n := by
  induction n with
  | zero => rfl
  | succ n ih =>
    cases n with
    | zero => rfl
    | succ m =>
      rw [expForGains, Nat.add_sub_cancel]
      linarith [ih, show 150 * (m + 1 + 1) ^ 2 = 150 * (m + 1) ^ 2 + 150 * (2 * m + 3) by ring,
        show 50 * (m + 1 + 1) ^ 3 = 50 * (m + 1) ^ 3 + 50 * (3 * (m + 1) ^ 2 + 3 * (m + 1) + 1) by ring,
        show 3 * (m + 1) ^ 2 = 3 * ((m + 1) * m) + 3 * (m + 1) by ring]

theorem getExpForLevel_mod (lv : ℕ) : getExpForLevel (lv % 2 ^ 32) = getExpForLevel lv := by
  rw [getExpForLevel, getExpForLevel, Nat.mod_add_mod]

theorem lt_of_cube_lt {n : ℕ} (h : 50 * n ^ 3 < 2 ^ 64) : n < 2 ^ 20 := by
  by_contra hle
  have hcube : (2 ^ 20) ^ 3 ≤ n ^ 3 := Nat.pow_le_pow_left (Nat.le_of_not_lt hle) 3
  omega

theorem cube_lt_of_le {m n : ℕ} (hle : m ≤ n) (h : 50 * n ^ 3 < 2 ^ 64) : 50 * m ^ 3 < 2 ^ 64 :=
  Nat.lt_of_le_of_lt (Nat.mul_le_mul_left 50 (Nat.pow_le_pow_left hle 3)) h

/-- The formula is exact as long as its cubic term fits in 64 bits. -/
theorem getExpForLevel_succ {n : ℕ} (h : 50 * n ^ 3 < 2 ^ 64) :
    getExpForLevel (n + 1) = expForGains n := by
  have hn := lt_of_cube_lt h
  have hlv : (n + 1 + (2 ^ 32 - 1)) % 2 ^ 32 = n := by omega
  have hsquare : n ^ 2 < 2 ^ 40 := by
    calc
      n ^ 2 < (2 ^ 20) ^ 2 := Nat.pow_lt_pow_left hn (by decide)
      _ = 2 ^ 40 := rfl
  have hexact := three_mul_expForGains n
  have hfits : 3 * expForGains n < 2 ^ 64 := by
    by_cases hsmall : n ≤ 3
    · have hle : n ^ 3 ≤ 3 ^ 3 := Nat.pow_le_pow_left hsmall 3
      omega
    · have hmore : 400 * n ≤ 150 * n ^ 2 := by nlinarith
      omega
  have hcubic : 50 * n * n * n = 50 * n ^ 3 := by ring
  have hquadratic : 150 * n * n = 150 * n ^ 2 := by ring
  rw [getExpForLevel, hlv, hcubic, hquadratic]
  omega

/-! ## What levels give -/

/-- The gains of a vocation. -/
structure Gains where
  health : ℕ
  mana : ℕ
  capacity : ℤ

/-- What a player has from the levels. -/
@[ext] structure Growth where
  level : ℕ
  healthMax : ℤ
  manaMax : ℤ
  capacity : ℚ
  deriving DecidableEq

structure LevelPlayer where
  growth : Growth
  experience : ℕ
  health : ℤ
  mana : ℤ
  deriving DecidableEq

/-- A number as an `int32_t`. -/
def int32 (n : ℤ) : ℤ := n.bmod (2 ^ 32)

theorem int32_eq {n : ℤ} (hlow : -2 ^ 31 ≤ n) (hhigh : n < 2 ^ 31) : int32 n = n := by
  rw [int32, Int.bmod_eq_of_le] <;> omega

theorem int32_gain {n : ℤ} {k gain : ℕ} (hpos : 0 ≤ n) (h : n + (k + 1 : ℕ) * gain < 2 ^ 31) :
    int32 (n + k * gain + gain) = n + (k + 1 : ℕ) * gain := by
  have hsum : n + k * gain + gain = n + (k + 1 : ℕ) * gain := by
    push_cast
    ring
  have hnonneg : 0 ≤ n + (k + 1 : ℕ) * gain := by positivity
  rw [hsum]
  apply int32_eq <;> omega

theorem int32_loss {n : ℤ} {k gain : ℕ} (hpos : 0 ≤ n) (h : n + (k + 1 : ℕ) * gain < 2 ^ 31) :
    max 0 (int32 (n + (k + 1 : ℕ) * gain - int32 gain)) = n + k * gain := by
  have hsum : n + (k + 1 : ℕ) * gain = n + k * gain + gain := by
    push_cast
    ring
  have hnonneg : 0 ≤ n + k * gain := by positivity
  have hgain : int32 gain = gain := by
    apply int32_eq <;> omega
  have hless : int32 (n + k * gain) = n + k * gain := by
    apply int32_eq <;> omega
  rw [hgain, hsum, add_sub_cancel_right, hless]
  exact max_eq_right hnonneg

namespace Growth

/-- One level more. -/
def advance (gains : Gains) (g : Growth) : Growth where
  level := (g.level + 1) % 2 ^ 32
  healthMax := int32 (g.healthMax + gains.health)
  manaMax := int32 (g.manaMax + gains.mana)
  capacity := g.capacity + gains.capacity

/-- One level less. -/
def retreat (gains : Gains) (g : Growth) : Growth where
  level := g.level - 1
  healthMax := max 0 (int32 (g.healthMax - int32 gains.health))
  manaMax := max 0 (int32 (g.manaMax - int32 gains.mana))
  capacity := max 0 (g.capacity - gains.capacity)

/-- The loop of `removeExperience`; the level falls in every round. -/
def descend (gains : Gains) (experience : ℕ) : ℕ → Growth → Growth
  | 0, g => g
  | n + 1, g =>
    if 1 < g.level ∧ experience < getExpForLevel g.level then
      descend gains experience n (g.retreat gains)
    else g

end Growth

namespace LevelPlayer

def advance (gains : Gains) (p : LevelPlayer) : LevelPlayer where
  growth := p.growth.advance gains
  experience := p.experience
  health := int32 (p.health + gains.health)
  mana := int32 (p.mana + gains.mana)

/-- The loop of `addExperience`, for at most so many rounds. -/
def climb (gains : Gains) : ℕ → LevelPlayer → Option LevelPlayer
  | 0, _ => none
  | n + 1, p =>
    if p.experience < getExpForLevel (p.growth.level + 1) then some p
    else
      let p := p.advance gains
      if getExpForLevel (p.growth.level + 1) < getExpForLevel p.growth.level then some p
      else climb gains n p

/-- `addExperience`; the loop is over before the levels have wrapped round twice. -/
def addExperience (gains : Gains) (p : LevelPlayer) (exp : ℕ) : LevelPlayer :=
  if getExpForLevel (p.growth.level + 1) < getExpForLevel p.growth.level then p
  else (climb gains (2 ^ 33) { p with experience := (p.experience + exp) % 2 ^ 64 }).getD p

/-- `removeExperience`. -/
def removeExperience (gains : Gains) (p : LevelPlayer) (exp : ℕ) : LevelPlayer :=
  let experience := p.experience - min exp p.experience
  let growth := p.growth.descend gains experience p.growth.level
  { growth := growth, experience := experience,
    health := if growth.healthMax < p.health then growth.healthMax else p.health,
    mana := if growth.manaMax < p.mana then growth.manaMax else p.mana }

/-! ## The loops -/

variable {gains : Gains} {p : LevelPlayer}

/-- The loop of `addExperience` ends whatever the experience and the level are: the formula falls
before the levels have come round again. -/
theorem climb_isSome (gains : Gains) (p : LevelPlayer) : (climb gains (2 ^ 33) p).isSome := by
  -- as long as the loop goes on, the experience for the next level does not fall
  have hgoes (n : ℕ) (p : LevelPlayer) (h : climb gains n p = none) (i : ℕ) (hi : i < n) :
      getExpForLevel (p.growth.level + i + 1) ≤ getExpForLevel (p.growth.level + i + 2) := by
    induction n generalizing p i with
    | zero => exact absurd hi (Nat.not_lt_zero i)
    | succ n ih =>
      rw [climb] at h
      split at h
      · exact absurd h (Option.some_ne_none p)
      dsimp only at h
      split at h
      · exact absurd h (Option.some_ne_none _)
      · next hrises =>
        have hlevel (j : ℕ) : getExpForLevel ((p.advance gains).growth.level + j) =
            getExpForLevel (p.growth.level + 1 + j) := by
          show getExpForLevel ((p.growth.level + 1) % 2 ^ 32 + j) = _
          rw [← getExpForLevel_mod, Nat.mod_add_mod, getExpForLevel_mod]
        cases i with
        | zero =>
          rw [hlevel] at hrises
          have hnow := hlevel 0
          rw [Nat.add_zero, Nat.add_zero] at hnow
          rw [hnow] at hrises
          exact Nat.le_of_not_lt hrises
        | succ i =>
          have hnext : getExpForLevel ((p.advance gains).growth.level + (i + 1)) ≤
              getExpForLevel ((p.advance gains).growth.level + (i + 2)) :=
            ih (p.advance gains) h i (Nat.lt_of_succ_lt_succ hi)
          have hleft : p.growth.level + 1 + (i + 1) = p.growth.level + (i + 1) + 1 := by omega
          have hright : p.growth.level + 1 + (i + 2) = p.growth.level + (i + 1) + 2 := by omega
          rw [hlevel, hlevel, hleft, hright] at hnext
          exact hnext
  by_contra hnone
  rw [Option.not_isSome_iff_eq_none] at hnone
  have hmono (i d : ℕ) (hd : i + d < 2 ^ 33) : getExpForLevel (p.growth.level + i + 1) ≤
      getExpForLevel (p.growth.level + i + d + 1) := by
    induction d with
    | zero => exact Nat.le_refl _
    | succ d ih =>
      apply (ih (by omega)).trans
      have hstep := hgoes (2 ^ 33) p hnone (i + d) (by omega)
      rw [← Nat.add_assoc] at hstep
      exact hstep
  -- the level 2 comes up, and after it the level 1
  let i := (2 ^ 32 + 1 - p.growth.level % 2 ^ 32) % 2 ^ 32
  have hfalls := hmono i (2 ^ 32 - 1) (by omega)
  rw [← getExpForLevel_mod, ← getExpForLevel_mod (p.growth.level + i + (2 ^ 32 - 1) + 1)] at hfalls
  have htwo : (p.growth.level + i + 1) % 2 ^ 32 = 2 := by omega
  have hone : (p.growth.level + i + (2 ^ 32 - 1) + 1) % 2 ^ 32 = 1 := by omega
  rw [htwo, hone] at hfalls
  exact absurd hfalls (by decide)

/-- The loop goes up as many levels as the experience is enough for. -/
theorem climb_eq {m k n : ℕ} (p : LevelPlayer) (hlevel : p.growth.level = m + 1)
    (hcube : 50 * (m + k + 1) ^ 3 < 2 ^ 64) (henough : expForGains (m + k) ≤ p.experience)
    (hless : p.experience < expForGains (m + k + 1)) (hn : k < n) :
    climb gains n p = some ((advance gains)^[k] p) := by
  induction k generalizing p m n with
  | zero =>
    obtain ⟨n, rfl⟩ := Nat.exists_eq_add_of_lt hn
    rw [climb, hlevel, getExpForLevel_succ hcube, if_pos hless]
    rfl
  | succ k ih =>
    obtain ⟨n, rfl⟩ := Nat.exists_eq_add_of_lt hn
    have hcube' : 50 * (m + 1 + k + 1) ^ 3 < 2 ^ 64 := by
      have heq : m + 1 + k + 1 = m + (k + 1) + 1 := by omega
      rw [heq]
      exact hcube
    have hsmall := lt_of_cube_lt hcube'
    have hadvance : (p.advance gains).growth.level = m + 1 + 1 := by
      show (p.growth.level + 1) % 2 ^ 32 = m + 1 + 1
      rw [hlevel]
      omega
    have hreached : expForGains (m + 1) ≤ p.experience :=
      (expForGains_strictMono.monotone (by omega)).trans henough
    have hrises := expForGains_lt_succ (m + 1)
    rw [climb, hlevel, getExpForLevel_succ (cube_lt_of_le (by omega) hcube'),
      if_neg (Nat.not_lt_of_le hreached)]
    dsimp only
    rw [hadvance, getExpForLevel_succ (cube_lt_of_le (by omega) hcube'),
      getExpForLevel_succ (cube_lt_of_le (by omega) hcube'), if_neg (Nat.not_lt_of_lt hrises)]
    have hsum : m + 1 + k = m + (k + 1) := by omega
    rw [← hsum] at henough hless
    rw [Function.iterate_succ_apply]
    exact ih (p.advance gains) hadvance hcube' henough hless (by omega)

/-! ## The law of levels -/

/-- The experience of a player is that of the level. -/
structure Bounded (p : LevelPlayer) : Prop where
  level_pos : 1 ≤ p.growth.level
  enough : getExpForLevel p.growth.level ≤ p.experience
  less : p.experience < getExpForLevel (p.growth.level + 1)
  healthMax_nonneg : 0 ≤ p.growth.healthMax
  manaMax_nonneg : 0 ≤ p.growth.manaMax

/-- An amount takes a player to a level, and nothing overflows on the way. -/
structure Fits (gains : Gains) (p : LevelPlayer) (amount level : ℕ) : Prop where
  level_le : p.growth.level ≤ level
  enough : getExpForLevel level ≤ p.experience + amount
  less : p.experience + amount < getExpForLevel (level + 1)
  experience_lt : p.experience + amount < 2 ^ 64
  cube_lt : 50 * level ^ 3 < 2 ^ 64
  healthMax_lt : p.growth.healthMax + (level - p.growth.level : ℕ) * gains.health < 2 ^ 31
  manaMax_lt : p.growth.manaMax + (level - p.growth.level : ℕ) * gains.mana < 2 ^ 31

theorem addExperience_eq {amount level : ℕ} (hp : p.Bounded) (h : Fits gains p amount level) :
    p.addExperience gains amount =
      (advance gains)^[level - p.growth.level] { p with experience := p.experience + amount } := by
  obtain ⟨m, hm⟩ := Nat.exists_eq_add_of_le' hp.level_pos
  obtain ⟨k, rfl⟩ := Nat.exists_eq_add_of_le h.level_le
  have hcube := h.cube_lt
  have henough := h.enough
  have hless := h.less
  have hsum : m + 1 + k = m + k + 1 := Nat.add_right_comm m 1 k
  rw [hm, hsum] at hcube henough hless
  have hsmall := lt_of_cube_lt hcube
  rw [getExpForLevel_succ (cube_lt_of_le (Nat.le_succ _) hcube)] at henough
  rw [getExpForLevel_succ hcube] at hless
  have hrises := expForGains_lt_succ m
  have hclimb : climb gains (2 ^ 33) { p with experience := p.experience + amount } =
      some ((advance gains)^[k] { p with experience := p.experience + amount }) :=
    climb_eq _ hm hcube henough hless (by omega)
  rw [addExperience, hm, getExpForLevel_succ (cube_lt_of_le (by omega) hcube),
    getExpForLevel_succ (cube_lt_of_le (by omega) hcube), if_neg (Nat.not_lt_of_lt hrises),
    Nat.mod_eq_of_lt h.experience_lt, hclimb, Nat.add_sub_cancel_left]
  rfl

/-! ## Levels up -/

theorem advance_iterate_experience (k : ℕ) :
    ((advance gains)^[k] p).experience = p.experience := by
  induction k generalizing p with
  | zero => rfl
  | succ k ih =>
    rw [Function.iterate_succ_apply, ih]
    rfl

theorem advance_iterate_growth (k : ℕ) :
    ((advance gains)^[k] p).growth = (Growth.advance gains)^[k] p.growth := by
  induction k generalizing p with
  | zero => rfl
  | succ k ih =>
    rw [Function.iterate_succ_apply, Function.iterate_succ_apply, ih]
    rfl

/-- The experience has no part in what a level gives. -/
theorem advance_iterate_with (k experience : ℕ) :
    (advance gains)^[k] { p with experience := experience } =
      { (advance gains)^[k] p with experience := experience } := by
  induction k generalizing p with
  | zero => rfl
  | succ k ih => exact ih (p := p.advance gains)

end LevelPlayer

namespace Growth

variable {gains : Gains} {g : Growth}

/-- So many levels more, in exact numbers. -/
def raised (gains : Gains) (k : ℕ) (g : Growth) : Growth where
  level := g.level + k
  healthMax := g.healthMax + k * gains.health
  manaMax := g.manaMax + k * gains.mana
  capacity := g.capacity + k * gains.capacity

@[simp] theorem raised_zero (gains : Gains) (g : Growth) : g.raised gains 0 = g := by
  simp [raised]

/-- Nothing of the growth overflows over so many levels. -/
structure Room (gains : Gains) (k : ℕ) (g : Growth) : Prop where
  healthMax_nonneg : 0 ≤ g.healthMax
  manaMax_nonneg : 0 ≤ g.manaMax
  level_lt : g.level + k < 2 ^ 32
  healthMax_lt : g.healthMax + k * gains.health < 2 ^ 31
  manaMax_lt : g.manaMax + k * gains.mana < 2 ^ 31

theorem Room.pred {k : ℕ} (h : Room gains (k + 1) g) : Room gains k g where
  healthMax_nonneg := h.healthMax_nonneg
  manaMax_nonneg := h.manaMax_nonneg
  level_lt := by
    have := h.level_lt
    omega
  healthMax_lt := by
    have := h.healthMax_lt
    push_cast at this
    linarith
  manaMax_lt := by
    have := h.manaMax_lt
    push_cast at this
    linarith

/-- One level on top of the others. -/
theorem advance_raised {k : ℕ} (h : Room gains (k + 1) g) :
    (g.raised gains k).advance gains = g.raised gains (k + 1) := by
  ext
  · have hlevel := h.level_lt
    show (g.level + k + 1) % 2 ^ 32 = g.level + (k + 1)
    omega
  · exact int32_gain h.healthMax_nonneg h.healthMax_lt
  · exact int32_gain h.manaMax_nonneg h.manaMax_lt
  · show g.capacity + k * gains.capacity + gains.capacity = g.capacity + (k + 1 : ℕ) * gains.capacity
    push_cast
    ring

theorem advance_iterate {k : ℕ} (h : Room gains k g) :
    (advance gains)^[k] g = g.raised gains k := by
  induction k with
  | zero => exact (raised_zero gains g).symm
  | succ k ih => rw [Function.iterate_succ_apply', ih h.pred, advance_raised h]

/-- A level less, as the capacity has it. -/
def lighten (gains : Gains) (capacity : ℚ) : ℚ := max 0 (capacity - gains.capacity)

/-- The capacity of levels that are taken back is the one before them, unless that was negative
before one of them. -/
theorem lighten_iterate {k : ℕ} {capacity : ℚ}
    (hcap : ∀ i < k, 0 ≤ capacity + i * gains.capacity) :
    (lighten gains)^[k] (capacity + k * gains.capacity) = capacity := by
  induction k with
  | zero => simp
  | succ k ih =>
    have hback : capacity + (k + 1 : ℕ) * gains.capacity - gains.capacity =
        capacity + k * gains.capacity := by
      push_cast
      ring
    rw [Function.iterate_succ_apply, lighten, hback, max_eq_right (hcap k (Nat.lt_succ_self k))]
    exact ih fun i hi => hcap i (Nat.lt_succ_of_lt hi)

/-- The level on top is taken back, whatever the capacity is. -/
theorem retreat_raised {k : ℕ} (h : Room gains (k + 1) g) (capacity : ℚ) :
    ({ g.raised gains (k + 1) with capacity := capacity } : Growth).retreat gains =
      { g.raised gains k with capacity := lighten gains capacity } := by
  ext
  · rfl
  · exact int32_loss h.healthMax_nonneg h.healthMax_lt
  · exact int32_loss h.manaMax_nonneg h.manaMax_lt
  · rfl

/-- The loop goes down to the level whose experience the player has. -/
theorem descend_raised {experience n k : ℕ} (h : Room gains k g) (hn : k ≤ n)
    (hlevel : 1 ≤ g.level) (henough : getExpForLevel g.level ≤ experience)
    (hless : ∀ i < k, experience < getExpForLevel (g.level + i + 1)) (capacity : ℚ) :
    ({ g.raised gains k with capacity := capacity } : Growth).descend gains experience n =
      { g with capacity := (lighten gains)^[k] capacity } := by
  induction k generalizing n capacity with
  | zero =>
    rw [raised_zero]
    cases n with
    | zero => rfl
    | succ n =>
      rw [descend, if_neg]
      · rfl
      · exact fun hdown => absurd hdown.2 (Nat.not_lt_of_le henough)
  | succ k ih =>
    obtain ⟨n, rfl⟩ := Nat.exists_eq_add_of_le' (Nat.le_of_lt_succ (Nat.lt_succ_of_le hn))
    have hdown : 1 < (g.raised gains (k + 1)).level ∧
        experience < getExpForLevel (g.raised gains (k + 1)).level := by
      refine ⟨?_, hless k (Nat.lt_succ_self k)⟩
      show 1 < g.level + (k + 1)
      omega
    rw [show n + (k + 1) = n + k + 1 from rfl, descend, if_pos hdown, retreat_raised h,
      Function.iterate_succ_apply]
    exact ih h.pred (Nat.le_add_left k n) (fun i hi => hless i (Nat.lt_succ_of_lt hi))
      (lighten gains capacity)

/-- The loop stays at non-negative attributes, and ends at a level that the experience is enough for
or at the first one. -/
theorem descend_spec {experience n : ℕ} (hn : g.level ≤ n) (hlevel : 1 ≤ g.level)
    (hhealth : 0 ≤ g.healthMax) (hmana : 0 ≤ g.manaMax)
    (hless : experience < getExpForLevel (g.level + 1)) :
    1 ≤ (g.descend gains experience n).level ∧
    ((g.descend gains experience n).level = 1 ∨
      getExpForLevel (g.descend gains experience n).level ≤ experience) ∧
    experience < getExpForLevel ((g.descend gains experience n).level + 1) ∧
    0 ≤ (g.descend gains experience n).healthMax ∧ 0 ≤ (g.descend gains experience n).manaMax := by
  induction n generalizing g with
  | zero => exact absurd hlevel (by omega)
  | succ n ih =>
    rw [descend]
    split
    · next hdown =>
      have hlevel' : (g.retreat gains).level + 1 = g.level := Nat.sub_add_cancel hlevel
      apply ih
      · omega
      · omega
      · exact Int.le_max_left 0 _
      · exact Int.le_max_left 0 _
      · rw [hlevel']
        exact hdown.2
    · next hstop =>
      refine ⟨hlevel, ?_, hless, hhealth, hmana⟩
      by_cases hone : g.level = 1
      · exact Or.inl hone
      · refine Or.inr (Nat.le_of_not_lt fun hdown => hstop ⟨?_, hdown⟩)
        omega

end Growth

namespace LevelPlayer

variable {gains : Gains} {p : LevelPlayer}

theorem Fits.room {amount level : ℕ} (hp : p.Bounded) (h : Fits gains p amount level) :
    p.growth.Room gains (level - p.growth.level) where
  healthMax_nonneg := hp.healthMax_nonneg
  manaMax_nonneg := hp.manaMax_nonneg
  level_lt := by
    have hlevel := h.level_le
    have hsmall := lt_of_cube_lt h.cube_lt
    omega
  healthMax_lt := h.healthMax_lt
  manaMax_lt := h.manaMax_lt

theorem growth_addExperience {amount level : ℕ} (hp : p.Bounded) (h : Fits gains p amount level) :
    (p.addExperience gains amount).growth = p.growth.raised gains (level - p.growth.level) := by
  rw [addExperience_eq hp h, advance_iterate_growth]
  exact Growth.advance_iterate (h.room hp)

theorem experience_addExperience {amount level : ℕ} (hp : p.Bounded)
    (h : Fits gains p amount level) :
    (p.addExperience gains amount).experience = p.experience + amount := by
  rw [addExperience_eq hp h, advance_iterate_experience]

theorem level_addExperience {amount level : ℕ} (hp : p.Bounded) (h : Fits gains p amount level) :
    (p.addExperience gains amount).growth.level = level := by
  rw [growth_addExperience hp h]
  exact Nat.add_sub_cancel' h.level_le

/-- An amount keeps the experience that of the level. -/
theorem Bounded.addExperience {amount level : ℕ} (hp : p.Bounded) (h : Fits gains p amount level) :
    (p.addExperience gains amount).Bounded := by
  have hroom := h.room hp
  have hgrowth := growth_addExperience hp h
  have hlevel := level_addExperience hp h
  have hexperience := experience_addExperience hp h
  constructor
  · rw [hlevel]
    exact hp.level_pos.trans h.level_le
  · rw [hlevel, hexperience]
    exact h.enough
  · rw [hlevel, hexperience]
    exact h.less
  · have hnonneg := hroom.healthMax_nonneg
    rw [hgrowth, Growth.raised]
    positivity
  · have hnonneg := hroom.manaMax_nonneg
    rw [hgrowth, Growth.raised]
    positivity

/-- Losing experience keeps it that of the level, down to the first one. -/
theorem Bounded.removeExperience (hp : p.Bounded) (amount : ℕ) :
    (p.removeExperience gains amount).Bounded := by
  have hless : p.experience - min amount p.experience < getExpForLevel (p.growth.level + 1) :=
    (Nat.sub_le _ _).trans_lt hp.less
  obtain ⟨hpos, henough, hless', hhealth, hmana⟩ := @Growth.descend_spec gains p.growth _ _
    (Nat.le_refl _) hp.level_pos hp.healthMax_nonneg hp.manaMax_nonneg hless
  refine ⟨hpos, ?_, hless', hhealth, hmana⟩
  apply henough.elim
  · intro hone
    -- the first level asks for nothing
    show getExpForLevel (p.growth.descend gains _ p.growth.level).level ≤ _
    rw [hone]
    exact Nat.zero_le _
  · exact id

/-- The rest of an amount is enough for the level of the whole. -/
theorem Fits.rest {a b middle level : ℕ} (hp : p.Bounded) (h : Fits gains p (a + b) level)
    (hmiddle : Fits gains p a middle) (hle : middle ≤ level) :
    Fits gains (p.addExperience gains a) b level := by
  have hlevel := level_addExperience hp hmiddle
  have hexperience := experience_addExperience hp hmiddle
  have hsum : p.experience + a + b = p.experience + (a + b) := Nat.add_assoc _ _ _
  have hgrowth := growth_addExperience hp hmiddle
  have hsplit : ((level - p.growth.level : ℕ) : ℤ) =
      (middle - p.growth.level : ℕ) + (level - middle : ℕ) := by
    have := hmiddle.level_le
    omega
  have hhealth := h.healthMax_lt
  have hmana := h.manaMax_lt
  rw [hsplit] at hhealth hmana
  constructor
  · rw [hlevel]
    exact hle
  · rw [hexperience, hsum]
    exact h.enough
  · rw [hexperience, hsum]
    exact h.less
  · rw [hexperience, hsum]
    exact h.experience_lt
  · exact h.cube_lt
  · rw [hlevel, hgrowth, Growth.raised]
    linarith
  · rw [hlevel, hgrowth, Growth.raised]
    linarith

/-- Between two levels there is one whose experience the player has. -/
theorem exists_level {low high x : ℕ} (hle : low ≤ high) (henough : getExpForLevel low ≤ x)
    (hless : x < getExpForLevel (high + 1)) :
    ∃ middle, low ≤ middle ∧ middle ≤ high ∧
      getExpForLevel middle ≤ x ∧ x < getExpForLevel (middle + 1) := by
  induction high, hle using Nat.le_induction with
  | base => exact ⟨low, Nat.le_refl _, Nat.le_refl _, henough, hless⟩
  | succ high hle ih =>
    by_cases hnow : getExpForLevel (high + 1) ≤ x
    · exact ⟨high + 1, hle.trans (Nat.le_succ _), Nat.le_refl _, hnow, hless⟩
    · obtain ⟨middle, hlow, hhigh, h⟩ := ih (Nat.lt_of_not_le hnow)
      exact ⟨middle, hlow, hhigh.trans (Nat.le_succ _), h⟩

/-- A part of an amount fits where the whole does. -/
theorem Fits.part {a b level : ℕ} (hp : p.Bounded) (h : Fits gains p (a + b) level) :
    ∃ middle ≤ level, Fits gains p a middle := by
  have hpart : p.experience + a ≤ p.experience + (a + b) := by omega
  obtain ⟨middle, hlow, hhigh, henough, hless⟩ := exists_level h.level_le
    (hp.enough.trans (Nat.le_add_right _ a)) (hpart.trans_lt h.less)
  have hlevels : middle - p.growth.level ≤ level - p.growth.level := Nat.sub_le_sub_right hhigh _
  refine ⟨middle, hhigh, hlow, henough, hless, hpart.trans_lt h.experience_lt,
    cube_lt_of_le hhigh h.cube_lt, ?_, ?_⟩
  · apply lt_of_le_of_lt _ h.healthMax_lt
    gcongr
  · apply lt_of_le_of_lt _ h.manaMax_lt
    gcongr

/-- An amount may be given in two parts. -/
theorem addExperience_addExperience {a b level : ℕ} (hp : p.Bounded)
    (h : Fits gains p (a + b) level) :
    (p.addExperience gains a).addExperience gains b = p.addExperience gains (a + b) := by
  obtain ⟨middle, hle, hmiddle⟩ := h.part hp
  have hlevels : level - middle + (middle - p.growth.level) = level - p.growth.level := by
    have := hmiddle.level_le
    omega
  rw [addExperience_eq (hp.addExperience hmiddle) (h.rest hp hmiddle hle),
    level_addExperience hp hmiddle, experience_addExperience hp hmiddle, advance_iterate_with,
    addExperience_eq hp hmiddle, ← Function.iterate_add_apply, hlevels, ← advance_iterate_with,
    addExperience_eq hp h, Nat.add_assoc]

/-- Losing an amount that was just gained takes back the experience. -/
theorem experience_removeExperience_addExperience {amount level : ℕ} (hp : p.Bounded)
    (h : Fits gains p amount level) :
    ((p.addExperience gains amount).removeExperience gains amount).experience = p.experience := by
  show (p.addExperience gains amount).experience -
    min amount (p.addExperience gains amount).experience = p.experience
  rw [experience_addExperience hp h]
  omega

/-- And the levels it gave, with what they gave; the capacity is lowered level by level. -/
theorem growth_removeExperience_addExperience {amount level : ℕ} (hp : p.Bounded)
    (h : Fits gains p amount level) :
    ((p.addExperience gains amount).removeExperience gains amount).growth =
      { p.growth with
        capacity := (Growth.lighten gains)^[level - p.growth.level]
          (p.growth.capacity + (level - p.growth.level : ℕ) * gains.capacity) } := by
  have hback : (p.addExperience gains amount).experience -
      min amount (p.addExperience gains amount).experience = p.experience :=
    experience_removeExperience_addExperience hp h
  rw [removeExperience]
  dsimp only
  rw [hback, level_addExperience hp h, growth_addExperience hp h]
  apply Growth.descend_raised (h.room hp) (Nat.sub_le _ _) hp.level_pos hp.enough
  intro i hi
  -- the experience before the levels was not enough for any of them
  have hless := hp.less
  obtain ⟨m, hm⟩ := Nat.exists_eq_add_of_le' hp.level_pos
  have hcube := h.cube_lt
  rw [hm] at hi hless
  rw [hm, getExpForLevel_succ (cube_lt_of_le (by omega) hcube)]
  rw [getExpForLevel_succ (cube_lt_of_le (by omega) hcube)] at hless
  exact hless.trans_le (expForGains_strictMono.monotone (by omega))

/-- The law of levels: gaining and losing experience keep it that of the level, an amount may be
given in parts, and losing it takes back what it gave, the capacity where it was not negative before
one of the levels. -/
theorem level_law (gains : Gains) (p : LevelPlayer) (hp : p.Bounded) :
    (∀ amount level, Fits gains p amount level → (p.addExperience gains amount).Bounded) ∧
    (∀ amount, (p.removeExperience gains amount).Bounded) ∧
    (∀ a b level, Fits gains p (a + b) level →
      (p.addExperience gains a).addExperience gains b = p.addExperience gains (a + b)) ∧
    ∀ amount level, Fits gains p amount level →
      ((p.addExperience gains amount).removeExperience gains amount).experience = p.experience ∧
      ((p.addExperience gains amount).removeExperience gains amount).growth.level =
        p.growth.level ∧
      ((p.addExperience gains amount).removeExperience gains amount).growth.healthMax =
        p.growth.healthMax ∧
      ((p.addExperience gains amount).removeExperience gains amount).growth.manaMax =
        p.growth.manaMax ∧
      ((∀ i < level - p.growth.level, 0 ≤ p.growth.capacity + i * gains.capacity) →
        ((p.addExperience gains amount).removeExperience gains amount).growth = p.growth) := by
  refine ⟨fun _ _ h => hp.addExperience h, hp.removeExperience,
    fun _ _ _ h => addExperience_addExperience hp h, fun amount level h => ?_⟩
  have hgrowth := growth_removeExperience_addExperience hp h
  refine ⟨experience_removeExperience_addExperience hp h, ?_, ?_, ?_, fun hcap => ?_⟩
  · rw [hgrowth]
  · rw [hgrowth]
  · rw [hgrowth]
  · rw [hgrowth, Growth.lighten_iterate hcap]

/-- A sorcerer of level 8. -/
def sorcerer : LevelPlayer where
  growth := { level := 8, healthMax := 185, manaMax := 35, capacity := 470 }
  experience := 4200
  health := 185
  mana := 35

theorem sorcerer_bounded : sorcerer.Bounded := by
  constructor <;> decide

theorem sorcerer_fits : Fits ⟨5, 30, 10⟩ sorcerer 5100 10 := by
  constructor <;> decide

theorem level_law_sorcerer :
    sorcerer.Bounded ∧ Fits ⟨5, 30, 10⟩ sorcerer (2100 + 3000) 10 ∧
    (sorcerer.addExperience ⟨5, 30, 10⟩ 5100).Bounded ∧
    (sorcerer.addExperience ⟨5, 30, 10⟩ 2100).addExperience ⟨5, 30, 10⟩ 3000 =
      sorcerer.addExperience ⟨5, 30, 10⟩ 5100 ∧
    ((sorcerer.addExperience ⟨5, 30, 10⟩ 5100).removeExperience ⟨5, 30, 10⟩ 5100).growth =
      sorcerer.growth := by
  have hlaw := level_law ⟨5, 30, 10⟩ sorcerer sorcerer_bounded
  refine ⟨sorcerer_bounded, sorcerer_fits, hlaw.1 _ _ sorcerer_fits,
    hlaw.2.2.1 _ _ _ sorcerer_fits, (hlaw.2.2.2 _ _ sorcerer_fits).2.2.2.2 ?_⟩
  intro i _
  show (0 : ℚ) ≤ 470 + i * (10 : ℤ)
  positivity

/-- A player whose capacity was set below zero gets it back as nothing. -/
theorem negative_capacity_not_restored :
    ∃ p : LevelPlayer, p.Bounded ∧ Fits ⟨5, 30, 10⟩ p 5100 10 ∧ p.growth.capacity = -5 ∧
      ((p.addExperience ⟨5, 30, 10⟩ 5100).removeExperience ⟨5, 30, 10⟩ 5100).growth.capacity = 0 := by
  let p : LevelPlayer := { sorcerer with growth := { sorcerer.growth with capacity := -5 } }
  have hp : p.Bounded := by constructor <;> decide
  have hfits : Fits ⟨5, 30, 10⟩ p 5100 10 := by constructor <;> decide
  refine ⟨p, hp, hfits, rfl, ?_⟩
  rw [removeExperience, experience_addExperience hp hfits, growth_addExperience hp hfits]
  decide +kernel

end LevelPlayer

end TyanoCore
