import Mathlib.Algebra.Order.BigOperators.Group.List
import Mathlib.Algebra.Order.Ring.Int
import Mathlib.Data.Nat.ModEq
import Mathlib.Tactic.Ring

/-!
# Sums of sums

A pair of sums: every value is added to the first, and the first to the second.  How large both get
from values that are bounded, and that they may be reduced modulo a number at any time.
-/

namespace RunningSums

def add (s : ℕ × ℕ) (value : ℕ) : ℕ × ℕ :=
  let a := s.1 + value
  (a, s.2 + a)

/-- The pairs after each of the values. -/
def trace (s : ℕ × ℕ) : List ℕ → List (ℕ × ℕ)
  | [] => []
  | value :: values => add s value :: trace (add s value) values

variable {s t : ℕ × ℕ} {c m : ℕ} {values : List ℕ}

theorem foldl_add_fst (s : ℕ × ℕ) (values : List ℕ) : (values.foldl add s).1 = s.1 + values.sum := by
  induction values generalizing s with
  | nil => rfl
  | cons value values ih =>
    rw [List.foldl_cons, ih, List.sum_cons, ← Nat.add_assoc]
    rfl

/-- The second sum has the first one after each of the values. -/
theorem foldl_add_snd (s : ℕ × ℕ) (values : List ℕ) :
    (values.foldl add s).2 =
      s.2 + ((List.range values.length).map fun i => s.1 + (values.take (i + 1)).sum).sum := by
  induction values generalizing s with
  | nil => rfl
  | cons value values ih =>
    have hrest : ((fun i => s.1 + ((value :: values).take (i + 1)).sum) ∘ Nat.succ) =
        fun i => (add s value).1 + (values.take (i + 1)).sum := by
      funext i
      show s.1 + (value + (values.take (i + 1)).sum) = s.1 + value + (values.take (i + 1)).sum
      exact (Nat.add_assoc _ _ _).symm
    have hfirst : s.1 + ((value :: values).take (0 + 1)).sum = (add s value).1 := by
      show s.1 + (value + 0) = s.1 + value
      rw [Nat.add_zero]
    rw [List.foldl_cons, ih, List.length_cons, List.range_succ_eq_map, List.map_cons, List.sum_cons,
      List.map_map, hrest, hfirst, ← Nat.add_assoc]
    rfl

/-- Neither sum falls. -/
theorem le_foldl_add (s : ℕ × ℕ) (values : List ℕ) :
    s.1 ≤ (values.foldl add s).1 ∧ s.2 ≤ (values.foldl add s).2 := by
  rw [foldl_add_fst, foldl_add_snd]
  exact ⟨Nat.le_add_right _ _, Nat.le_add_right _ _⟩

theorem trace_le (hmem : t ∈ trace s values) :
    t.1 ≤ (values.foldl add s).1 ∧ t.2 ≤ (values.foldl add s).2 := by
  induction values generalizing s with
  | nil => exact absurd hmem List.not_mem_nil
  | cons value values ih =>
    rw [List.foldl_cons]
    rcases List.mem_cons.mp hmem with rfl | hmem
    · exact le_foldl_add _ values
    · exact ih hmem

/-! ## The worst case -/

/-- How far `n` values of at most `c` take the second sum. -/
theorem two_mul_foldl_add_snd_le (hvalues : ∀ value ∈ values, value ≤ c) :
    2 * (values.foldl add s).2 ≤
      2 * s.2 + 2 * values.length * s.1 + c * (values.length * (values.length + 1)) := by
  induction values generalizing s with
  | nil => exact Nat.le_add_right _ _
  | cons value values ih =>
    have hvalue := hvalues value List.mem_cons_self
    have hrest := ih (s := add s value) fun v hv => hvalues v (List.mem_cons_of_mem value hv)
    -- the first value goes into the second sum once for every value from it on
    have hscaled : 2 * (values.length + 1) * value ≤ 2 * (values.length + 1) * c :=
      Nat.mul_le_mul_left _ hvalue
    have hadd : add s value = (s.1 + value, s.2 + (s.1 + value)) := rfl
    rw [hadd] at hrest
    rw [List.foldl_cons, List.length_cons]
    calc
      2 * (values.foldl add (add s value)).2
          ≤ 2 * (s.2 + (s.1 + value)) + 2 * values.length * (s.1 + value) +
              c * (values.length * (values.length + 1)) := hrest
      _ = 2 * s.2 + 2 * (values.length + 1) * s.1 + 2 * (values.length + 1) * value +
              c * (values.length * (values.length + 1)) := by ring
      _ ≤ 2 * s.2 + 2 * (values.length + 1) * s.1 + 2 * (values.length + 1) * c +
              c * (values.length * (values.length + 1)) := by omega
      _ = 2 * s.2 + 2 * (values.length + 1) * s.1 +
              c * ((values.length + 1) * (values.length + 1 + 1)) := by ring

theorem foldl_add_fst_le (hvalues : ∀ value ∈ values, value ≤ c) :
    (values.foldl add s).1 ≤ s.1 + values.length * c := by
  rw [foldl_add_fst]
  exact Nat.add_le_add_left (List.sum_le_card_nsmul values c hvalues) _

/-! ## Residues -/

/-- Sums with the same residues keep the same residues. -/
theorem foldl_add_modEq (hfst : s.1 ≡ t.1 [MOD m]) (hsnd : s.2 ≡ t.2 [MOD m]) (values : List ℕ) :
    (values.foldl add s).1 ≡ (values.foldl add t).1 [MOD m] ∧
      (values.foldl add s).2 ≡ (values.foldl add t).2 [MOD m] := by
  induction values generalizing s t with
  | nil => exact ⟨hfst, hsnd⟩
  | cons value values ih =>
    have hvalue : (add s value).1 ≡ (add t value).1 [MOD m] := hfst.add_right value
    exact ih hvalue (hsnd.add hvalue)

end RunningSums
