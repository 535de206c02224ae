import TyanoCore.Condition
import TyanoCore.Ladder
import TyanoCore.Loop

/-!
# Training

The magic level and the skills of a player.  Points are counted towards the next level, which takes as
many of them as the vocation asks for; levels are 32-bit numbers, and a level that asks for less than
the one before it is taken for the end of all levels.
-/

namespace TyanoCore

/-! ## What a vocation asks for -/

/-- The points a vocation asks for by level: what its formulas come to, in floating point, when a
level is looked up for the first time. -/
structure Vocation where
  skillFormula : Skill → ℕ → ℕ
  manaFormula : ℕ → ℕ

namespace Vocation

variable (v : Vocation)

/-- `getReqSkillTries`; the answer comes from a cache of 32-bit numbers. -/
def getReqSkillTries (skill : Skill) (level : ℕ) : ℕ := v.skillFormula skill level % 2 ^ 32

/-- `getReqMana`; its cache is one of 32-bit numbers as well. -/
def getReqMana (magLevel : ℕ) : ℕ := v.manaFormula magLevel % 2 ^ 32

end Vocation

/-- `getPercentLevel`. -/
def getPercentLevel (count nextLevelCount : ℕ) : ℕ :=
  if 0 < nextLevelCount then min 100 (max 0 (count * 100 % 2 ^ 64 / nextLevelCount % 2 ^ 32))
  else 0

/-! ## Unsigned numbers -/

/-- A difference of unsigned numbers of so many bits. -/
def unsignedSub (w a b : ℕ) : ℕ := (a + (2 ^ w - b % 2 ^ w)) % 2 ^ w

theorem unsignedSub_eq {w a b : ℕ} (hle : b ≤ a) (hlt : a < 2 ^ w) : unsignedSub w a b = a - b := by
  have hb : b % 2 ^ w = b := Nat.mod_eq_of_lt (Nat.lt_of_le_of_lt hle hlt)
  have heq : a + (2 ^ w - b) = a - b + 2 ^ w := by omega
  rw [unsignedSub, hb, heq, Nat.add_mod_right]
  apply Nat.mod_eq_of_lt
  omega

/-- The number of the next level. -/
def nextLevel (level : ℕ) : ℕ := (level + 1) % 2 ^ 32

theorem nextLevel_eq {level : ℕ} (h : level + 1 < 2 ^ 32) : nextLevel level = level + 1 :=
  Nat.mod_eq_of_lt h

/-! ## Gaining points -/

/-- The magic level or a skill: the level, the points since it was reached (`manaSpent` or
`SKILL_TRIES`), and how far they are in percent. -/
structure Training where
  level : ℕ
  points : ℕ
  percent : ℕ
  deriving DecidableEq

/-- What can be trained. -/
inductive Discipline where
  | magLevel
  | skill (skill : Skill)

namespace Discipline

/-- The bits that points are counted in. -/
def width : Discipline → ℕ
  | magLevel => 64
  | skill _ => 32

/-- The points asked for. -/
def req (v : Vocation) : Discipline → ℕ → ℕ
  | magLevel => v.getReqMana
  | skill i => v.getReqSkillTries i

/-- The percent right after an advance: that of a skill is reset. -/
def advanced : Discipline → ℕ → ℕ
  | magLevel => fun percent => percent
  | skill _ => fun _ => 0

end Discipline

/-- The loop of `addManaSpent` and `addSkillAdvance`: what there is of the amount, the points that
the next level asks for, and the levels that the advance scripts were told, each with the one before. -/
structure Advancing where
  training : Training
  amount : ℕ
  next : ℕ
  advances : List (ℕ × ℕ)

/-- What a player hears of it: the advances, and whether the client is sent the new numbers. -/
structure Trained where
  training : Training
  advances : List (ℕ × ℕ)
  sent : Bool
  deriving DecidableEq

section Gain

variable (v : Vocation) (d : Discipline)

def advanceRound (a : Advancing) : Advancing ⊕ Advancing :=
  if (a.training.points + a.amount) % 2 ^ d.width < a.next then .inr a
  else
    let amount := unsignedSub d.width a.amount (unsignedSub d.width a.next a.training.points)
    let level := nextLevel a.training.level
    let training := ⟨level, 0, d.advanced a.training.percent⟩
    let advances := a.advances ++ [(unsignedSub 32 level 1, level)]
    let next := d.req v (nextLevel level)
    if next < a.next then .inr ⟨training, 0, next, advances⟩
    else .inl ⟨training, amount, next, advances⟩

/-- What follows the loop. -/
def Advancing.finish (a : Advancing) : Trained :=
  let points :=
    if a.amount = 0 then a.training.points else (a.training.points + a.amount) % 2 ^ d.width
  let newPercent := getPercentLevel points a.next
  { training := ⟨a.training.level, points, newPercent⟩
    advances := a.advances
    sent := a.training.percent != newPercent || !a.advances.isEmpty }

/-- The body of both functions, with at most `n` rounds of the loop; `rate` is the product with the
rates of the player and of the server, in floating point. -/
def addTraining (rate : ℕ → ℕ) (useMultiplier : Bool) (n amount : ℕ) (s : Training) :
    Option Trained :=
  if amount = 0 then some ⟨s, [], false⟩
  else
    let curr := d.req v s.level
    let next := d.req v (nextLevel s.level)
    if next < curr then some ⟨s, [], false⟩
    else
      let amount := if useMultiplier then rate amount % 2 ^ d.width else amount
      (Loop.run (advanceRound v d) n ⟨s, amount, next, []⟩).map (Advancing.finish d)

/-- `addManaSpent`. -/
def addManaSpent (rate : ℕ → ℕ) (useMultiplier : Bool) (n amount : ℕ) (s : Training) :
    Option Trained := addTraining v .magLevel rate useMultiplier n amount s

/-- `addSkillAdvance`, on the entry of the skill. -/
def addSkillAdvance (skill : Skill) (rate : ℕ → ℕ) (useMultiplier : Bool) (n count : ℕ)
    (s : Training) : Option Trained := addTraining v (.skill skill) rate useMultiplier n count s

/-- The function that adds to a discipline. -/
def Discipline.add : Discipline → (ℕ → ℕ) → Bool → ℕ → ℕ → Training → Option Trained
  | .magLevel => addManaSpent v
  | .skill i => addSkillAdvance v i

theorem Discipline.add_eq : d.add v = addTraining v d := by
  cases d <;> rfl

/-! ## The loop as a climb -/

/-- The level after this one asks for less. -/
abbrev Discipline.AtCap (level : ℕ) : Prop := d.req v (nextLevel level) < d.req v level

/-- The levels that an amount takes a player through. -/
abbrev Discipline.Climbs : ℕ → ℕ → List ℕ → ℕ → ℕ → Prop :=
  Ladder.Climbs nextLevel (d.req v) (d.AtCap v)

variable {v d}

theorem Discipline.req_lt (level : ℕ) : d.req v level < 2 ^ d.width := by
  cases d with
  | magLevel => exact (Nat.mod_lt _ (by decide)).trans (by decide)
  | skill i => exact Nat.mod_lt _ (by decide)

/-- What the scripts are told of a level. -/
def advanceTo (level : ℕ) : ℕ × ℕ := (unsignedSub 32 level 1, level)

/-- With an amount less than its rounds the loop ends as the climb does. -/
theorem run_advanceRound {a : Advancing} {n : ℕ}
    (hnext : a.next = d.req v (nextLevel a.training.level))
    (hless : a.training.points < a.next) (hfits : a.training.points + a.amount < 2 ^ d.width)
    (hn : a.amount < n) :
    ∃ b l, Loop.run (advanceRound v d) n a = some b ∧
      b.next = d.req v (nextLevel b.training.level) ∧
      b.training.points + b.amount < 2 ^ d.width ∧ b.advances = a.advances ++ l.map advanceTo ∧
      d.Climbs v a.training.level (a.training.points + a.amount) l
        b.training.level (b.training.points + b.amount) := by
  induction n generalizing a with
  | zero => exact absurd hn (Nat.not_lt_zero _)
  | succ n ih =>
    have hwidth : a.next < 2 ^ d.width := hnext ▸ Discipline.req_lt _
    by_cases hstays : a.training.points + a.amount < a.next
    · have hround : advanceRound v d a = .inr a := by
        rw [advanceRound, Nat.mod_eq_of_lt hfits, if_pos hstays]
      refine ⟨a, [], Loop.run_inr hround, hnext, hfits, (List.append_nil _).symm, ?_⟩
      exact .stays (hnext ▸ hstays)
    · have hreach := Nat.le_of_not_lt hstays
      have hmissing : unsignedSub d.width a.next a.training.points = a.next - a.training.points :=
        unsignedSub_eq hless.le hwidth
      have hleft : unsignedSub d.width a.amount (a.next - a.training.points) =
          a.training.points + a.amount - a.next := by
        rw [unsignedSub_eq (by omega) (by omega)]
        omega
      by_cases htop : d.AtCap v (nextLevel a.training.level)
      · have hround : advanceRound v d a = .inr
            ⟨⟨nextLevel a.training.level, 0, d.advanced a.training.percent⟩, 0,
              d.req v (nextLevel (nextLevel a.training.level)),
              a.advances ++ [advanceTo (nextLevel a.training.level)]⟩ := by
          rw [advanceRound, Nat.mod_eq_of_lt hfits, if_neg hstays]
          exact if_pos (hnext ▸ htop)
        refine ⟨_, [nextLevel a.training.level], Loop.run_inr hround, rfl, Nat.two_pow_pos _, rfl, ?_⟩
        exact .tops (hnext ▸ hreach) htop
      · have hround : advanceRound v d a = .inl
            ⟨⟨nextLevel a.training.level, 0, d.advanced a.training.percent⟩,
              a.training.points + a.amount - a.next,
              d.req v (nextLevel (nextLevel a.training.level)),
              a.advances ++ [advanceTo (nextLevel a.training.level)]⟩ := by
          rw [advanceRound, Nat.mod_eq_of_lt hfits, if_neg hstays, hmissing, hleft]
          exact if_neg (hnext ▸ htop)
        -- the entry for the level reached is not above the next one, and it is above the points
        have hpos : 0 < d.req v (nextLevel (nextLevel a.training.level)) :=
          Nat.lt_of_lt_of_le (Nat.zero_lt_of_lt (hnext ▸ hless)) (Nat.le_of_not_lt htop)
        obtain ⟨b, l, hrun, hbnext, hbfits, hadvances, hclimb⟩ := ih
          (a := ⟨⟨nextLevel a.training.level, 0, d.advanced a.training.percent⟩,
              a.training.points + a.amount - a.next,
              d.req v (nextLevel (nextLevel a.training.level)),
              a.advances ++ [advanceTo (nextLevel a.training.level)]⟩)
          rfl hpos (by dsimp only; omega) (by dsimp only; omega)
        refine ⟨b, nextLevel a.training.level :: l, (Loop.run_inl hround).trans hrun, hbnext, hbfits,
          ?_, ?_⟩
        · rw [hadvances, List.map_cons, List.append_assoc]
          rfl
        · apply Ladder.Climbs.rises (hnext ▸ hreach) htop
          rw [← hnext]
          rw [Nat.zero_add] at hclimb
          exact hclimb

/-! ## The law of training -/

/-- What an amount makes of a training: nothing at the cap, and a climb below it. -/
inductive Discipline.Trains (v : Vocation) (d : Discipline) (s : Training) (amount : ℕ) :
    List ℕ → Training → Prop
  | keeps : amount = 0 ∨ d.AtCap v s.level → Discipline.Trains v d s amount [] s
  | climbs {l : List ℕ} {level points : ℕ} : amount ≠ 0 → ¬ d.AtCap v s.level →
      d.Climbs v s.level (s.points + amount) l level points →
      Discipline.Trains v d s amount l
        ⟨level, points, getPercentLevel points (d.req v (nextLevel level))⟩

theorem addTraining_trains (rate : ℕ → ℕ) {s : Training} {amount : ℕ}
    (hs : s.points < d.req v (nextLevel s.level)) (hfits : s.points + amount < 2 ^ d.width) :
    ∃ l r, (∀ n, amount < n → addTraining v d rate false n amount s = some r) ∧
      r.advances = l.map advanceTo ∧ d.Trains v s amount l r.training := by
  by_cases hzero : amount = 0
  · refine ⟨[], ⟨s, [], false⟩, fun n _ => ?_, rfl, .keeps (.inl hzero)⟩
    rw [addTraining, if_pos hzero]
  by_cases htop : d.AtCap v s.level
  · refine ⟨[], ⟨s, [], false⟩, fun n _ => ?_, rfl, .keeps (.inr htop)⟩
    rw [addTraining, if_neg hzero]
    exact if_pos htop
  obtain ⟨b, l, hrun, hnext, hbfits, hadvances, hclimb⟩ := run_advanceRound
    (a := ⟨s, amount, d.req v (nextLevel s.level), []⟩) rfl hs hfits (Nat.lt_succ_self amount)
  have hpoints : (b.finish d).training.points = b.training.points + b.amount := by
    show (if b.amount = 0 then _ else _) = _
    split
    · next hb => rw [hb, Nat.add_zero]
    · exact Nat.mod_eq_of_lt hbfits
  refine ⟨l, b.finish d, fun n hn => ?_, hadvances, ?_⟩
  · rw [addTraining, if_neg hzero]
    apply (if_neg htop).trans
    show (Loop.run (advanceRound v d) n ⟨s, amount, _, []⟩).map _ = _
    rw [Loop.run_mono hn hrun, Option.map_some]
  · have htraining : (b.finish d).training = ⟨b.training.level, b.training.points + b.amount,
        getPercentLevel (b.training.points + b.amount)
          (d.req v (nextLevel b.training.level))⟩ := by
      rw [← hpoints, ← hnext]
      rfl
    rw [htraining]
    exact .climbs hzero htop hclimb

namespace Discipline.Trains

variable {s t t' : Training} {a b : ℕ} {l l' : List ℕ}

theorem lt_of_not_atCap (h : d.Trains v s a l t) (hs : s.points < d.req v (nextLevel s.level))
    (hnot : ¬ d.AtCap v t.level) : t.points < d.req v (nextLevel t.level) := by
  cases h with
  | keeps => exact hs
  | climbs _ _ hclimb => exact hclimb.lt_of_not_top hnot

theorem sum_of_not_atCap (h : d.Trains v s a l t) (hnot : ¬ d.AtCap v t.level) :
    (l.map (d.req v)).sum + t.points = s.points + a := by
  cases h with
  | keeps hkeeps =>
    cases hkeeps with
    | inl hzero =>
      rw [hzero]
      exact Nat.zero_add _
    | inr htop => exact absurd htop hnot
  | climbs _ _ hclimb => exact hclimb.sum_of_not_top hnot

/-- Two amounts, one after the other, make the same of a training as their sum. -/
theorem add (h : d.Trains v s a l t) (h' : d.Trains v t b l' t') :
    d.Trains v s (a + b) (l ++ l') t' := by
  cases h with
  | keeps hkeeps =>
    cases hkeeps with
    | inl hzero =>
      rw [hzero, Nat.zero_add]
      exact h'
    | inr htop =>
      cases h' with
      | keeps => exact .keeps (.inr htop)
      | climbs _ hnot => exact absurd htop hnot
  | @climbs l level points hpos hnot hclimb =>
    have hsum : s.points + (a + b) = s.points + a + b := (Nat.add_assoc ..).symm
    cases h' with
    | keeps hkeeps =>
      rw [List.append_nil]
      cases hkeeps with
      | inl hzero =>
        rw [hzero, Nat.add_zero]
        exact .climbs hpos hnot hclimb
      | inr htop =>
        apply climbs (by omega) hnot
        rw [hsum]
        exact hclimb.add_of_top hnot htop b
    | climbs _ hnot' hclimb' =>
      apply climbs (by omega) hnot
      rw [hsum]
      exact hclimb.add_of_not_top hnot' b hclimb'

theorem unique (h : d.Trains v s a l t) (h' : d.Trains v s a l' t') : l = l' ∧ t = t' := by
  cases h with
  | keeps hkeeps =>
    cases h' with
    | keeps => exact ⟨rfl, rfl⟩
    | climbs hpos hnot => exact absurd hkeeps (not_or.mpr ⟨hpos, hnot⟩)
  | climbs hpos hnot hclimb =>
    cases h' with
    | keeps hkeeps => exact absurd hkeeps (not_or.mpr ⟨hpos, hnot⟩)
    | climbs _ _ hclimb' =>
      obtain ⟨rfl, rfl, rfl⟩ := hclimb.unique hclimb'
      exact ⟨rfl, rfl⟩

end Discipline.Trains

/-- The table rises up to the cap, where it falls for the first time. -/
structure Discipline.FirstFall (v : Vocation) (d : Discipline) (cap : ℕ) : Prop where
  lt : cap < 2 ^ 32
  rises : ∀ k < cap, d.req v k ≤ d.req v (k + 1)
  falls : d.AtCap v cap

theorem Discipline.Trains.total_eq {cap : ℕ} (hcap : d.FirstFall v cap) {s t : Training} {a : ℕ}
    {l : List ℕ} (h : d.Trains v s a l t) (hle : s.level ≤ cap) :
    t.level = s.level + l.length ∧ t.level ≤ cap ∧ (¬ d.AtCap v t.level →
      Ladder.total (d.req v) t.level t.points = Ladder.total (d.req v) s.level s.points + a) := by
  cases h with
  | keeps hkeeps =>
    refine ⟨rfl, hle, fun hnot => ?_⟩
    rw [hkeeps.resolve_right hnot]
    rfl
  | climbs _ hnot hclimb =>
    have hup (k : ℕ) (hk : k < cap) : nextLevel k = k + 1 :=
      nextLevel_eq (Nat.lt_of_le_of_lt hk hcap.lt)
    have htotal := hclimb.total_eq hup hcap.falls hnot hle
    rw [Ladder.total_add] at htotal
    exact htotal

/-- Training ends for every table, and below the cap it loses no point: the levels reached have taken
what they ask for, and the rest does not reach to the next one.  Two amounts, one after the other, make
the same of a training as their sum. -/
theorem add_law (v : Vocation) (d : Discipline) (rate : ℕ → ℕ) {s : Training} {a b : ℕ}
    (hs : s.points < d.req v (nextLevel s.level)) (hfits : s.points + (a + b) < 2 ^ d.width) :
    ∃ r r' r'', (∀ n, a < n → d.add v rate false n a s = some r) ∧
      (∀ n, b < n → d.add v rate false n b r.training = some r') ∧
      (∀ n, a + b < n → d.add v rate false n (a + b) s = some r'') ∧
      (¬ d.AtCap v r.training.level →
        r.training.points < d.req v (nextLevel r.training.level) ∧
        (r.advances.map fun e => d.req v e.2).sum + r.training.points = s.points + a) ∧
      (∀ cap, d.FirstFall v cap → s.level ≤ cap →
        r.training.level = s.level + r.advances.length ∧ r.training.level ≤ cap ∧
        (¬ d.AtCap v r.training.level →
          Ladder.total (d.req v) r.training.level r.training.points =
            Ladder.total (d.req v) s.level s.points + a)) ∧
      r'.training = r''.training ∧ r.advances ++ r'.advances = r''.advances := by
  rw [Discipline.add_eq]
  obtain ⟨l, r, hrun, hadvances, htrains⟩ := addTraining_trains rate hs
    (Nat.lt_of_le_of_lt (Nat.add_le_add_left (Nat.le_add_right a b) _) hfits)
  obtain ⟨l'', r'', hrun'', hadvances'', htrains''⟩ := addTraining_trains rate hs hfits
  -- at the cap the second amount changes nothing; below it the points are short of the next level
  have hsecond : ∃ l' r', (∀ n, b < n → addTraining v d rate false n b r.training = some r') ∧
      r'.advances = l'.map advanceTo ∧ d.Trains v r.training b l' r'.training := by
    by_cases htop : d.AtCap v r.training.level
    · refine ⟨[], ⟨r.training, [], false⟩, fun n _ => ?_, rfl, .keeps (.inr htop)⟩
      rw [addTraining]
      by_cases hzero : b = 0
      · exact if_pos hzero
      · exact (if_neg hzero).trans (if_pos htop)
    · have hsum := htrains.sum_of_not_atCap htop
      exact addTraining_trains rate (htrains.lt_of_not_atCap hs htop) (by omega)
  obtain ⟨l', r', hrun', hadvances', htrains'⟩ := hsecond
  obtain ⟨hl, ht⟩ := (htrains.add htrains').unique htrains''
  have hmap : r.advances.map (fun e => d.req v e.2) = l.map (d.req v) := by
    rw [hadvances, List.map_map]
    rfl
  refine ⟨r, r', r'', hrun, hrun', hrun'', fun hnot => ?_, fun cap hcap hle => ?_, ht, ?_⟩
  · rw [hmap]
    exact ⟨htrains.lt_of_not_atCap hs hnot, htrains.sum_of_not_atCap hnot⟩
  · rw [hadvances, List.length_map]
    exact htrains.total_eq hcap hle
  · rw [hadvances, hadvances', hadvances'', ← List.map_append, hl]

/-- A vocation with a cap at the level 12. -/
def hill : Vocation where
  skillFormula _ level := if level ≤ 12 then 10 * level + 1 else 5
  manaFormula level := if level ≤ 12 then 1600 * level + 1600 else 5

theorem hill_firstFall : (Discipline.skill 0).FirstFall hill 12 :=
  ⟨by decide, by decide, by decide⟩

/-- The first amount is enough for a level below the cap, and the second one for the cap. -/
theorem add_law_hill :
    ∃ r r' r'', (∀ n, 115 < n → addSkillAdvance hill 0 id false n 115 ⟨10, 5, 4⟩ = some r) ∧
      (∀ n, 1000 < n → addSkillAdvance hill 0 id false n 1000 r.training = some r') ∧
      (∀ n, 1115 < n → addSkillAdvance hill 0 id false n 1115 ⟨10, 5, 4⟩ = some r'') ∧
      (r.training.points < hill.getReqSkillTries 0 12 ∧
        (r.advances.map fun e => hill.getReqSkillTries 0 e.2).sum + r.training.points = 120) ∧
      (r.training.level = 10 + r.advances.length ∧
        Ladder.total (hill.getReqSkillTries 0) 11 r.training.points =
          Ladder.total (hill.getReqSkillTries 0) 10 5 + 115) ∧
      r.training.level = 11 ∧ r'.training = r''.training := by
  obtain ⟨r, r', r'', hrun, hrun', hrun'', hbelow, htotal, heq, -⟩ := add_law hill (.skill 0) id
    (s := ⟨10, 5, 4⟩) (a := 115) (b := 1000) (by decide) (by decide)
  obtain ⟨hlevels, -, hsum⟩ := htotal 12 hill_firstFall (by decide)
  have hlevel : r.training.level = 11 := by
    have heval : ((Discipline.skill 0).add hill id false 116 115 ⟨10, 5, 4⟩).map
        (fun r => r.training.level) = some 11 := by decide
    rw [hrun 116 (by decide)] at heval
    exact Option.some.inj heval
  have hnot : ¬ (Discipline.skill 0).AtCap hill r.training.level := by
    rw [hlevel]
    decide
  have hpoints := hbelow hnot
  have htotal' := hsum hnot
  rw [hlevel] at hpoints htotal'
  exact ⟨r, r', r'', hrun, hrun', hrun'', hpoints, ⟨hlevels, htotal'⟩, hlevel, heq⟩

end Gain

end TyanoCore
