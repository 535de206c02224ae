import TyanoCore.Experience
import TyanoCore.Training

/-!
# The loss of training

What a death takes of the magic level and of the skills.  The points of a player are all those since
the first level that counts; of them a share is lost, and levels are given back until it is covered.
-/

namespace TyanoCore

/-! ## The points of a player -/

/-- The points that the levels up to one ask for and those since, as a 32-bit number; the sum begins
after the level `floor`. -/
def sumPoints (req : ℕ → ℕ) (floor level points : ℕ) : ℕ :=
  ((List.range' (floor + 1) (level - floor)).foldl (fun sum k => (sum + req k) % 2 ^ 32) 0 + points) %
    2 ^ 32

theorem foldl_req {req : ℕ → ℕ} {floor level : ℕ} (hfloor : floor ≤ level) :
    (List.range' (floor + 1) (level - floor)).foldl (fun sum k => (sum + req k) % 2 ^ 32) 0 =
      Ladder.above req floor level 0 % 2 ^ 32 := by
  induction level, hfloor using Nat.le_induction with
  | base => rw [Nat.sub_self, Ladder.above_self, List.range'_zero, List.foldl_nil, Nat.zero_mod]
  | succ level hle ih =>
    have hplace : floor + 1 + (level - floor) = level + 1 := by omega
    have habove : Ladder.above req floor (level + 1) 0 =
        Ladder.above req floor level 0 + req (level + 1) := by
      rw [Ladder.above_succ hle, Ladder.above, Ladder.above]
      omega
    rw [Nat.succ_sub hle, List.range'_1_concat, List.foldl_append, ih, hplace, habove,
      List.foldl_cons, List.foldl_nil, Nat.mod_add_mod]

/-- A sum that fits is exact. -/
theorem sumPoints_eq {req : ℕ → ℕ} {floor level points : ℕ} (hfloor : floor ≤ level)
    (hfits : Ladder.above req floor level points < 2 ^ 32) :
    sumPoints req floor level points = Ladder.above req floor level points := by
  have habove : Ladder.above req floor level points = Ladder.above req floor level 0 + points := by
    rw [Ladder.above, Ladder.above, Nat.add_zero]
  rw [sumPoints, foldl_req hfloor, Nat.mod_add_mod, ← habove]
  exact Nat.mod_eq_of_lt hfits

/-! ## The loops -/

/-- The loops of `onDeath`: a level and the points since, what of the loss is not covered yet, and the
unsigned differences that have been taken, each as the two numbers. -/
structure Unwinding where
  level : ℕ
  points : ℕ
  lost : ℕ
  differences : List (ℕ × ℕ)

structure Loss where
  training : Training
  differences : List (ℕ × ℕ)
  deriving DecidableEq

section Loops

variable (v : Vocation) (skill : Skill)

def manaRound (u : Unwinding) : Unwinding ⊕ Unwinding :=
  if u.points < u.lost ∧ 0 < u.level then
    .inl ⟨unsignedSub 32 u.level 1, v.getReqMana u.level, unsignedSub 64 u.lost u.points,
      u.differences ++ [(u.lost, u.points), (u.level, 1)]⟩
  else .inr u

/-- `onDeath`, the magic level; `share` is what of a sum is lost: the product with the percentage, in
floating point, rounded up. -/
def loseMana (share : ℕ → ℕ) (n : ℕ) (s : Training) : Option Loss :=
  let sumMana := sumPoints v.getReqMana 0 s.level s.points
  let lostMana := share sumMana % 2 ^ 64
  (Loop.run (manaRound v) n ⟨s.level, s.points, lostMana, []⟩).map fun u =>
    let taken := (max 0 (int32 u.lost)).toNat
    let manaSpent := unsignedSub 64 u.points taken
    let nextReqMana := v.getReqMana (nextLevel u.level)
    let percent :=
      if v.getReqMana u.level < nextReqMana then getPercentLevel manaSpent nextReqMana else 0
    ⟨⟨u.level, manaSpent, percent⟩, u.differences ++ [(u.points, taken)]⟩

def triesRound (u : Unwinding) : Unwinding ⊕ Unwinding :=
  if u.points < u.lost then
    if u.level < 11 then .inr ⟨10, 0, 0, u.differences ++ [(u.lost, u.points)]⟩
    else
      .inl ⟨unsignedSub 32 u.level 1, v.getReqSkillTries skill u.level,
        unsignedSub 32 u.lost u.points, u.differences ++ [(u.lost, u.points), (u.level, 1)]⟩
  else .inr u

/-- `onDeath`, one of the skills; the percent stays. -/
def loseTries (share : ℕ → ℕ) (n : ℕ) (s : Training) : Option Loss :=
  let sumSkillTries := sumPoints (v.getReqSkillTries skill) 10 s.level s.points
  let lostSkillTries := share sumSkillTries % 2 ^ 32
  (Loop.run (triesRound v skill) n ⟨s.level, s.points, lostSkillTries, []⟩).map fun u =>
    ⟨⟨u.level, (max 0 (int32 (unsignedSub 32 u.points u.lost))).toNat, s.percent⟩,
      u.differences ++ [(u.points, u.lost)]⟩

end Loops

/-- What a player is trained in. -/
structure PlayerTraining where
  magic : Training
  skills : Skill → Training

/-- The round of a skill in the loop over the skills. -/
def loseSkill (v : Vocation) (share : Discipline → ℕ → ℕ) (n : ℕ)
    (r : (Skill → Training) × List (ℕ × ℕ)) (i : Skill) :
    Option ((Skill → Training) × List (ℕ × ℕ)) :=
  (loseTries v i (share (.skill i)) n (r.1 i)).map fun lost =>
    (Function.update r.1 i lost.training, r.2 ++ lost.differences)

/-- `onDeath`, the loss of the magic level and, skill by skill, of the skills. -/
def loseTraining (v : Vocation) (share : Discipline → ℕ → ℕ) (n : ℕ) (p : PlayerTraining) :
    Option (PlayerTraining × List (ℕ × ℕ)) :=
  (loseMana v (share .magLevel) n p.magic).bind fun magic =>
    ((List.finRange 7).foldlM (loseSkill v share n) (p.skills, magic.differences)).map fun r =>
      (⟨magic.training, r.1⟩, r.2)

/-! ## What a round keeps -/

/-- The points that a loop leaves to a player: those there are, less what is not covered yet; and
nothing has gone below zero. -/
structure Unwinding.Covers (req : ℕ → ℕ) (floor kept : ℕ) (u : Unwinding) : Prop where
  floor_le : floor ≤ u.level
  above_eq : Ladder.above req floor u.level u.points = kept + u.lost
  above_lt : kept + u.lost < 2 ^ 31
  short : u.points < req (u.level + 1) ∨ u.points = req (u.level + 1) ∧ 0 < u.lost
  differences : ∀ e ∈ u.differences, e.2 ≤ e.1

namespace Unwinding.Covers

variable {req : ℕ → ℕ} {floor kept : ℕ} {u : Unwinding}

/-- On the floor the loss is covered. -/
theorem floor_lt (h : Covers req floor kept u) (hlost : u.points < u.lost) : floor < u.level := by
  apply Nat.lt_of_le_of_ne h.floor_le
  intro heq
  have hall := h.above_eq
  rw [← heq, Ladder.above_self] at hall
  omega

/-- One level is given back. -/
theorem down (h : Covers req floor kept u) (hlost : u.points < u.lost) :
    Covers req floor kept ⟨u.level - 1, req u.level, u.lost - u.points,
      u.differences ++ [(u.lost, u.points), (u.level, 1)]⟩ := by
  have hlevel := h.floor_lt hlost
  have hsucc : u.level - 1 + 1 = u.level := by omega
  have habove : Ladder.above req floor u.level u.points =
      Ladder.above req floor (u.level - 1) (req u.level + u.points) := by
    have hstep : Ladder.above req floor (u.level - 1 + 1) u.points =
        Ladder.above req floor (u.level - 1) (req (u.level - 1 + 1) + u.points) :=
      Ladder.above_succ (Nat.le_sub_one_of_lt hlevel) u.points
    rw [hsucc] at hstep
    exact hstep
  have hpoints : Ladder.above req floor (u.level - 1) (req u.level + u.points) =
      Ladder.above req floor (u.level - 1) (req u.level) + u.points := (Nat.add_assoc ..).symm
  have hall := h.above_eq
  have hfits := h.above_lt
  constructor
  · exact Nat.le_sub_one_of_lt hlevel
  · dsimp only
    omega
  · dsimp only
    omega
  · right
    dsimp only
    rw [hsucc]
    exact ⟨rfl, Nat.sub_pos_of_lt hlost⟩
  · intro e he
    rw [List.mem_append, List.mem_pair] at he
    rcases he with he | rfl | rfl
    · exact h.differences e he
    · exact hlost.le
    · exact Nat.one_le_of_lt hlevel

theorem bounds (h : Covers req floor kept u) (hpos : ∀ k, floor < k → 0 < req k) :
    u.points < 2 ^ 31 ∧ u.lost < 2 ^ 31 ∧ u.level < floor + 2 ^ 31 := by
  have hall := h.above_eq
  have hfits := h.above_lt
  have hpoints := Ladder.le_above req floor u.level u.points
  have hlevels : u.level - floor ≤ Ladder.above req floor u.level u.points :=
    Ladder.sub_le_above hpos
  omega

/-- When the loss is covered, the rest of it is taken from the points. -/
theorem done (h : Covers req floor kept u) (hlost : u.lost ≤ u.points) :
    Ladder.above req floor u.level (u.points - u.lost) = kept ∧
      u.points - u.lost < req (u.level + 1) := by
  have hall := h.above_eq
  have hsum : Ladder.above req floor u.level (u.points - u.lost) + u.lost =
      Ladder.above req floor u.level u.points := by
    rw [Ladder.above, Ladder.above, Nat.add_assoc, Nat.sub_add_cancel hlost]
  refine ⟨by omega, ?_⟩
  rcases h.short with hless | ⟨heq, hpos⟩ <;> omega

end Unwinding.Covers

/-- A loop that gives back a level as long as the loss is not covered ends with it covered. -/
theorem run_unwinding {req : ℕ → ℕ} {floor kept n : ℕ} {body : Unwinding → Unwinding ⊕ Unwinding}
    (hdown : ∀ u, u.Covers req floor kept → u.points < u.lost → body u =
      .inl ⟨u.level - 1, req u.level, u.lost - u.points,
        u.differences ++ [(u.lost, u.points), (u.level, 1)]⟩)
    (hdone : ∀ u : Unwinding, u.lost ≤ u.points → body u = .inr u)
    {u : Unwinding} (h : u.Covers req floor kept) (hn : u.level < n) :
    ∃ u', Loop.run body n u = some u' ∧ u'.Covers req floor kept ∧ u'.lost ≤ u'.points := by
  induction n generalizing u with
  | zero => exact absurd hn (Nat.not_lt_zero _)
  | succ n ih =>
    by_cases hlost : u.points < u.lost
    · have hlevel := h.floor_lt hlost
      rw [Loop.run_inl (hdown u h hlost)]
      exact ih (h.down hlost) (by dsimp only; omega)
    · have hcovered := Nat.le_of_not_lt hlost
      exact ⟨u, Loop.run_inr (hdone u hcovered), h, hcovered⟩

/-! ## The law of the loss -/

section Law

variable {v : Vocation} {d : Discipline} {s : Training} {share : ℕ → ℕ}

/-- The level that the sum of the points begins after. -/
def Discipline.floor : Discipline → ℕ
  | magLevel => 0
  | skill _ => 10

/-- The points of a player in a discipline. -/
def Discipline.points (v : Vocation) (d : Discipline) (s : Training) : ℕ :=
  Ladder.above (d.req v) d.floor s.level s.points

/-- What `onDeath` takes a loss from: the points are those of the level, and all of them together fit
in 31 bits. -/
structure Discipline.Stands (v : Vocation) (d : Discipline) (s : Training) : Prop where
  req_pos : ∀ k, d.floor < k → 0 < d.req v k
  floor_le : d.floor ≤ s.level
  points_lt : s.points < d.req v (nextLevel s.level)
  total_lt : d.points v s < 2 ^ 31

/-- A loss takes its share and no more, and no difference has gone below zero. -/
structure Discipline.Loses (v : Vocation) (d : Discipline) (share : ℕ → ℕ) (s : Training)
    (l : Loss) : Prop where
  floor_le : d.floor ≤ l.training.level
  points_eq : d.points v l.training = d.points v s - share (d.points v s)
  points_lt : l.training.points < d.req v (nextLevel l.training.level)
  differences : ∀ e ∈ l.differences, e.2 ≤ e.1

theorem Discipline.floor_le_ten (d : Discipline) : d.floor ≤ 10 := by
  cases d with
  | magLevel => exact Nat.zero_le 10
  | skill i => exact Nat.le_refl 10

/-- The start of the loops. -/
theorem Discipline.Stands.covers (h : d.Stands v s)
    (hshare : share (d.points v s) ≤ d.points v s) :
    Unwinding.Covers (d.req v) d.floor (d.points v s - share (d.points v s))
      ⟨s.level, s.points, share (d.points v s), []⟩ := by
  have hlt := h.total_lt
  have hlevels : s.level - d.floor ≤ d.points v s := Ladder.sub_le_above h.req_pos
  have hten := d.floor_le_ten
  constructor
  · exact h.floor_le
  · exact (Nat.sub_add_cancel hshare).symm
  · dsimp only
    omega
  · left
    have hnext := h.points_lt
    rw [nextLevel_eq (by omega)] at hnext
    exact hnext
  · exact fun e he => absurd he List.not_mem_nil

/-- The end of the loops. -/
theorem Unwinding.Covers.loses {u : Unwinding} {percent : ℕ} (h : d.Stands v s)
    (hu : u.Covers (d.req v) d.floor (d.points v s - share (d.points v s)))
    (hlost : u.lost ≤ u.points) :
    d.Loses v share s ⟨⟨u.level, u.points - u.lost, percent⟩,
      u.differences ++ [(u.points, u.lost)]⟩ := by
  obtain ⟨hpoints, hshort⟩ := hu.done hlost
  have hbounds := hu.bounds h.req_pos
  have hten := d.floor_le_ten
  constructor
  · exact hu.floor_le
  · exact hpoints
  · dsimp only
    rw [nextLevel_eq (by omega)]
    exact hshort
  · intro e he
    rw [List.mem_append, List.mem_singleton] at he
    rcases he with he | rfl
    · exact hu.differences e he
    · exact hlost

theorem loseMana_loses (h : Discipline.magLevel.Stands v s)
    (hshare : share (Discipline.magLevel.points v s) ≤ Discipline.magLevel.points v s) {n : ℕ}
    (hn : s.level < n) :
    ∃ l, loseMana v share n s = some l ∧ Discipline.magLevel.Loses v share s l := by
  have hlt := h.total_lt
  have hsum : sumPoints v.getReqMana 0 s.level s.points = Discipline.magLevel.points v s :=
    sumPoints_eq h.floor_le (hlt.trans (by decide))
  have hstart : share (Discipline.magLevel.points v s) % 2 ^ 64 =
      share (Discipline.magLevel.points v s) := Nat.mod_eq_of_lt (by omega)
  have hten := Discipline.floor_le_ten .magLevel
  have hdown : ∀ u, u.Covers (Discipline.magLevel.req v) Discipline.magLevel.floor
      (Discipline.magLevel.points v s - share (Discipline.magLevel.points v s)) →
      u.points < u.lost → manaRound v u =
        .inl ⟨u.level - 1, v.getReqMana u.level, u.lost - u.points,
          u.differences ++ [(u.lost, u.points), (u.level, 1)]⟩ := by
    intro u hu hlost
    have hbounds := hu.bounds h.req_pos
    have hlevel : 0 < u.level := hu.floor_lt hlost
    rw [manaRound, if_pos ⟨hlost, hlevel⟩, unsignedSub_eq hlevel (by omega),
      unsignedSub_eq hlost.le (by omega)]
  have hdone (u : Unwinding) (hlost : u.lost ≤ u.points) : manaRound v u = .inr u :=
    if_neg (fun h => Nat.not_lt_of_le hlost h.1)
  obtain ⟨u, hrun, hu, hlost⟩ := run_unwinding hdown hdone (h.covers hshare) hn
  have hbounds := hu.bounds h.req_pos
  have htaken : (max 0 (int32 u.lost)).toNat = u.lost := by
    rw [int32_eq (by omega) (by omega), max_eq_right (Int.natCast_nonneg _), Int.toNat_natCast]
  rw [loseMana, hsum]
  dsimp only
  rw [hstart, hrun, Option.map_some, htaken, unsignedSub_eq hlost (by omega)]
  exact ⟨_, rfl, hu.loses h hlost⟩

theorem loseTries_loses {i : Skill} (h : (Discipline.skill i).Stands v s)
    (hshare : share ((Discipline.skill i).points v s) ≤ (Discipline.skill i).points v s) {n : ℕ}
    (hn : s.level < n) :
    ∃ l, loseTries v i share n s = some l ∧ (Discipline.skill i).Loses v share s l := by
  have hlt := h.total_lt
  have hsum : sumPoints (v.getReqSkillTries i) 10 s.level s.points =
      (Discipline.skill i).points v s := sumPoints_eq h.floor_le (hlt.trans (by decide))
  have hstart : share ((Discipline.skill i).points v s) % 2 ^ 32 =
      share ((Discipline.skill i).points v s) := Nat.mod_eq_of_lt (by omega)
  have hten := Discipline.floor_le_ten (.skill i)
  have hdown : ∀ u, u.Covers ((Discipline.skill i).req v) (Discipline.skill i).floor
      ((Discipline.skill i).points v s - share ((Discipline.skill i).points v s)) →
      u.points < u.lost → triesRound v i u =
        .inl ⟨u.level - 1, v.getReqSkillTries i u.level, u.lost - u.points,
          u.differences ++ [(u.lost, u.points), (u.level, 1)]⟩ := by
    intro u hu hlost
    have hbounds := hu.bounds h.req_pos
    -- the way out at the levels below 11 is not taken
    have hlevel : 10 < u.level := hu.floor_lt hlost
    rw [triesRound, if_pos hlost, if_neg (Nat.not_lt_of_le hlevel),
      unsignedSub_eq (Nat.one_le_of_lt hlevel) (by omega), unsignedSub_eq hlost.le (by omega)]
  have hdone (u : Unwinding) (hlost : u.lost ≤ u.points) : triesRound v i u = .inr u :=
    if_neg (Nat.not_lt_of_le hlost)
  obtain ⟨u, hrun, hu, hlost⟩ := run_unwinding hdown hdone (h.covers hshare) hn
  have hbounds := hu.bounds h.req_pos
  have hrest : (max 0 (int32 (unsignedSub 32 u.points u.lost))).toNat = u.points - u.lost := by
    rw [unsignedSub_eq hlost (by omega), int32_eq (by omega) (by omega),
      max_eq_right (Int.natCast_nonneg _), Int.toNat_natCast]
  rw [loseTries, hsum, hstart, hrun, Option.map_some, hrest]
  exact ⟨_, rfl, hu.loses h hlost⟩

end Law

/-- The training of a player in a discipline. -/
def PlayerTraining.training (p : PlayerTraining) : Discipline → Training
  | .magLevel => p.magic
  | .skill i => p.skills i

/-- The loop over the skills takes each of them through its loss, and leaves the others. -/
theorem foldlM_loseSkill {v : Vocation} {share : Discipline → ℕ → ℕ} {n : ℕ} {l : List Skill}
    (hl : l.Nodup) {r : (Skill → Training) × List (ℕ × ℕ)}
    (hloses : ∀ i ∈ l, ∃ lost, loseTries v i (share (.skill i)) n (r.1 i) = some lost ∧
      (Discipline.skill i).Loses v (share (.skill i)) (r.1 i) lost)
    (hdifferences : ∀ e ∈ r.2, e.2 ≤ e.1) :
    ∃ r', l.foldlM (loseSkill v share n) r = some r' ∧ (∀ e ∈ r'.2, e.2 ≤ e.1) ∧
      (∀ i ∉ l, r'.1 i = r.1 i) ∧
      ∀ i ∈ l, ∃ lost, (Discipline.skill i).Loses v (share (.skill i)) (r.1 i) lost ∧
        lost.training = r'.1 i := by
  induction l generalizing r with
  | nil => exact ⟨r, rfl, hdifferences, fun _ _ => rfl, fun _ hi => absurd hi List.not_mem_nil⟩
  | cons i l ih =>
    obtain ⟨hnot, hnodup⟩ := List.nodup_cons.mp hl
    obtain ⟨lost, hrun, hlost⟩ := hloses i List.mem_cons_self
    have hother {j : Skill} (hj : j ∈ l) : Function.update r.1 i lost.training j = r.1 j := by
      apply Function.update_of_ne
      intro heq
      exact hnot (heq ▸ hj)
    obtain ⟨r', hfold, hbelow, hframe, hrest⟩ := ih hnodup
      (r := (Function.update r.1 i lost.training, r.2 ++ lost.differences))
      (fun j hj => by
        dsimp only
        rw [hother hj]
        exact hloses j (List.mem_cons_of_mem i hj))
      (fun e he => (List.mem_append.mp he).elim (hdifferences e) (hlost.differences e))
    refine ⟨r', ?_, hbelow, fun j hj => ?_, fun j hj => ?_⟩
    · rw [List.foldlM_cons, loseSkill, hrun]
      exact hfold
    · obtain ⟨hne, hjl⟩ := not_or.mp (List.mem_cons.not.mp hj)
      exact (hframe j hjl).trans (Function.update_of_ne hne _ _)
    · cases List.mem_cons.mp hj with
      | inl heq =>
        rw [heq, hframe i hnot]
        exact ⟨lost, hlost, (Function.update_self i lost.training r.1).symm⟩
      | inr hjl =>
        rw [← hother hjl]
        exact hrest j hjl

/-- A death takes the share of each of the totals, for every table of what levels ask for. -/
theorem loseTraining_law (v : Vocation) (share : Discipline → ℕ → ℕ) {p : PlayerTraining}
    (hp : ∀ d : Discipline, d.Stands v (p.training d))
    (hshare : ∀ d : Discipline, share d (d.points v (p.training d)) ≤ d.points v (p.training d))
    {n : ℕ} (hn : ∀ d, (p.training d).level < n) :
    ∃ p' differences, loseTraining v share n p = some (p', differences) ∧
      (∀ e ∈ differences, e.2 ≤ e.1) ∧
      ∀ d : Discipline, d.floor ≤ (p'.training d).level ∧
        d.points v (p'.training d) =
          d.points v (p.training d) - share d (d.points v (p.training d)) ∧
        (p'.training d).points < d.req v (nextLevel (p'.training d).level) := by
  obtain ⟨m, hmana, hm⟩ := loseMana_loses (hp .magLevel) (hshare .magLevel) (hn .magLevel)
  obtain ⟨r, hfold, hbelow, -, hskills⟩ := foldlM_loseSkill (r := (p.skills, m.differences))
    (List.nodup_finRange 7)
    (fun i _ => loseTries_loses (hp (.skill i)) (hshare (.skill i)) (hn (.skill i)))
    hm.differences
  refine ⟨⟨m.training, r.1⟩, r.2, ?_, hbelow, fun d => ?_⟩
  · have hmagic : loseMana v (share .magLevel) n p.magic = some m := hmana
    rw [loseTraining, hmagic, Option.bind_some, hfold, Option.map_some]
  · cases d with
    | magLevel => exact ⟨hm.floor_le, hm.points_eq, hm.points_lt⟩
    | skill i =>
      obtain ⟨lost, hlost, heq⟩ := hskills i (List.mem_finRange i)
      have hafter : lost.training = PlayerTraining.training ⟨m.training, r.1⟩ (.skill i) := heq
      rw [← hafter]
      exact ⟨hlost.floor_le, hlost.points_eq, hlost.points_lt⟩

theorem loseTraining_law_hill :
    ∃ p' differences, loseTraining hill (fun _ total => total / 2) 13
        ⟨⟨3, 50, 0⟩, fun _ => ⟨12, 4, 80⟩⟩ = some (p', differences) ∧
      (∀ e ∈ differences, e.2 ≤ e.1) ∧
      ∀ d : Discipline, d.floor ≤ (p'.training d).level ∧
        d.points hill (p'.training d) =
          d.points hill (PlayerTraining.training ⟨⟨3, 50, 0⟩, fun _ => ⟨12, 4, 80⟩⟩ d) -
            d.points hill (PlayerTraining.training ⟨⟨3, 50, 0⟩, fun _ => ⟨12, 4, 80⟩⟩ d) / 2 ∧
        (p'.training d).points < d.req hill (nextLevel (p'.training d).level) := by
  have hpos (d : Discipline) (k : ℕ) : 0 < d.req hill k := by
    cases d with
    | magLevel =>
      show 0 < (if k ≤ 12 then 1600 * k + 1600 else 5) % 2 ^ 32
      split <;> omega
    | skill i =>
      show 0 < (if k ≤ 12 then 10 * k + 1 else 5) % 2 ^ 32
      split <;> omega
  apply loseTraining_law hill (fun _ total => total / 2)
  · intro d
    cases d with
    | magLevel => exact ⟨fun k _ => hpos _ k, by decide, by decide, by decide⟩
    | skill i =>
      exact ⟨fun k _ => hpos _ k, by decide +revert, by decide +revert, by decide +revert⟩
  · exact fun d => Nat.div_le_self _ 2
  · intro d
    cases d with
    | magLevel => decide
    | skill i => exact (by decide : 12 < 13)

end TyanoCore
