import Mathlib.Algebra.BigOperators.Intervals
import Mathlib.Algebra.Order.BigOperators.Group.Finset
import Mathlib.Data.Nat.Notation

/-!
# Ladders

Each rung of a ladder is so many points above the one below.  Points carry a climber from rung to
rung until they do not reach to the next one, or until a top, where those that are left are dropped.
-/

namespace Ladder

/-- A climb from a rung with so many points: the rungs that are reached on the way, and the rung and
the points in the end. -/
inductive Climbs {ρ : Type*} (up : ρ → ρ) (height : ρ → ℕ) (Top : ρ → Prop) :
    ρ → ℕ → List ρ → ρ → ℕ → Prop
  | stays {r p} : p < height (up r) → Climbs up height Top r p [] r p
  | tops {r p} : height (up r) ≤ p → Top (up r) → Climbs up height Top r p [up r] (up r) 0
  | rises {r p l r' p'} : height (up r) ≤ p → ¬ Top (up r) →
      Climbs up height Top (up r) (p - height (up r)) l r' p' →
      Climbs up height Top r p (up r :: l) r' p'

namespace Climbs

variable {ρ : Type*} {up : ρ → ρ} {height : ρ → ℕ} {Top : ρ → Prop}
variable {r r' r'' : ρ} {p p' p'' : ℕ} {l l' : List ρ}

/-- There is only one climb. -/
theorem unique (h : Climbs up height Top r p l r' p') (h' : Climbs up height Top r p l' r'' p'') :
    l = l' ∧ r' = r'' ∧ p' = p'' := by
  induction h generalizing l' with
  | stays hless =>
    cases h' with
    | stays => exact ⟨rfl, rfl, rfl⟩
    | tops hle => exact absurd hless (Nat.not_lt_of_le hle)
    | rises hle => exact absurd hless (Nat.not_lt_of_le hle)
  | tops hle htop =>
    cases h' with
    | stays hless => exact absurd hless (Nat.not_lt_of_le hle)
    | tops => exact ⟨rfl, rfl, rfl⟩
    | rises _ hnot => exact absurd htop hnot
  | rises hle hnot _ ih =>
    cases h' with
    | stays hless => exact absurd hless (Nat.not_lt_of_le hle)
    | tops _ htop => exact absurd htop hnot
    | rises _ _ hrest =>
      obtain ⟨hl, hr, hp⟩ := ih hrest
      exact ⟨congrArg _ hl, hr, hp⟩

/-- Below the top a climb ends short of the next rung. -/
theorem lt_of_not_top (h : Climbs up height Top r p l r' p') (hnot : ¬ Top r') :
    p' < height (up r') := by
  induction h with
  | stays hless => exact hless
  | tops _ htop => exact absurd htop hnot
  | rises _ _ _ ih => exact ih hnot

/-- Below the top no point is lost. -/
theorem sum_of_not_top (h : Climbs up height Top r p l r' p') (hnot : ¬ Top r') :
    (l.map height).sum + p' = p := by
  induction h with
  | stays => exact Nat.zero_add _
  | tops _ htop => exact absurd htop hnot
  | rises hle _ _ ih =>
    rw [List.map_cons, List.sum_cons, Nat.add_assoc, ih hnot]
    exact Nat.add_sub_of_le hle

/-- Below the top a climb goes on with more points from where it ended. -/
theorem add_of_not_top (h : Climbs up height Top r p l r' p') (hnot : ¬ Top r') (b : ℕ)
    (h' : Climbs up height Top r' (p' + b) l' r'' p'') :
    Climbs up height Top r (p + b) (l ++ l') r'' p'' := by
  induction h with
  | stays => exact h'
  | tops _ htop => exact absurd htop hnot
  | @rises r p l r' p' hle hmid _ ih =>
    have hrest := ih hnot h'
    have heq : p - height (up r) + b = p + b - height (up r) := by omega
    rw [heq] at hrest
    exact rises (hle.trans (Nat.le_add_right p b)) hmid hrest

/-- At the top more points make no difference. -/
theorem add_of_top (h : Climbs up height Top r p l r' p') (hnot : ¬ Top r) (htop : Top r') (b : ℕ) :
    Climbs up height Top r (p + b) l r' p' := by
  induction h with
  | stays => exact absurd htop hnot
  | tops hle htop' => exact tops (hle.trans (Nat.le_add_right _ b)) htop'
  | @rises r p l r' p' hle hmid _ ih =>
    have hrest := ih hmid htop
    have heq : p - height (up r) + b = p + b - height (up r) := by omega
    rw [heq] at hrest
    exact rises (hle.trans (Nat.le_add_right p b)) hmid hrest

end Climbs

/-! ## Rungs with numbers -/

section Numbered

variable {up : ℕ → ℕ} {height : ℕ → ℕ} {Top : ℕ → Prop} {n n' p p' cap : ℕ} {l : List ℕ}

/-- The points below a rung and those on it. -/
def total (height : ℕ → ℕ) (n p : ℕ) : ℕ := ∑ k ∈ Finset.range (n + 1), height k + p

theorem total_succ (height : ℕ → ℕ) (n p : ℕ) :
    total height (n + 1) p = total height n (height (n + 1) + p) := by
  rw [total, total, Finset.sum_range_succ, Nat.add_assoc]

theorem total_add (height : ℕ → ℕ) (n p b : ℕ) : total height n (p + b) = total height n p + b := by
  rw [total, total, Nat.add_assoc]

/-- A climb to a top at most has the total that it started with, and the rung is as many up as there
are rungs on the way. -/
theorem Climbs.total_eq (hup : ∀ k < cap, up k = k + 1) (hcap : Top cap)
    (h : Climbs up height Top n p l n' p') (hnot : ¬ Top n) (hle : n ≤ cap) :
    n' = n + l.length ∧ n' ≤ cap ∧ (¬ Top n' → total height n' p' = total height n p) := by
  have hlt {k : ℕ} (hk : k ≤ cap) (htop : ¬ Top k) : k < cap := by
    apply Nat.lt_of_le_of_ne hk
    intro heq
    exact htop (heq ▸ hcap)
  induction h with
  | stays => exact ⟨rfl, hle, fun _ => rfl⟩
  | tops _ htop =>
    have hsucc := hup _ (hlt hle hnot)
    rw [hsucc] at htop ⊢
    exact ⟨rfl, hlt hle hnot, fun hnot' => absurd htop hnot'⟩
  | @rises r p l r' p' hneed hmid _ ih =>
    have hless := hlt hle hnot
    rw [hup r hless] at ih hneed hmid
    obtain ⟨hlength, hbelow, htotal⟩ := ih hmid hless
    refine ⟨?_, hbelow, ?_⟩
    · rw [hlength, List.length_cons]
      omega
    · intro hnot'
      rw [htotal hnot', total_succ, Nat.add_sub_of_le hneed]

end Numbered

/-! ## Above a floor -/

section Floor

variable {height : ℕ → ℕ} {floor n p : ℕ}

/-- The points of the rungs above a floor and those on the last of them. -/
def above (height : ℕ → ℕ) (floor n p : ℕ) : ℕ := ∑ k ∈ Finset.Ioc floor n, height k + p

theorem above_self (height : ℕ → ℕ) (floor p : ℕ) : above height floor floor p = p := by
  rw [above, Finset.Ioc_self, Finset.sum_empty, Nat.zero_add]

theorem above_succ (h : floor ≤ n) (p : ℕ) :
    above height floor (n + 1) p = above height floor n (height (n + 1) + p) := by
  rw [above, above, Finset.sum_Ioc_succ_top h, Nat.add_assoc]

theorem le_above (height : ℕ → ℕ) (floor n p : ℕ) : p ≤ above height floor n p :=
  Nat.le_add_left p _

/-- With a point on each of them there are no more rungs above the floor than points. -/
theorem sub_le_above (hpos : ∀ k, floor < k → 0 < height k) : n - floor ≤ above height floor n p := by
  have hcard : ∑ k ∈ Finset.Ioc floor n, 1 ≤ ∑ k ∈ Finset.Ioc floor n, height k := by
    apply Finset.sum_le_sum
    intro k hk
    exact hpos k (Finset.mem_Ioc.mp hk).1
  rw [← Finset.card_eq_sum_ones, Nat.card_Ioc] at hcard
  exact hcard.trans (Nat.le_add_right _ p)

end Floor

end Ladder
