import Mathlib.Algebra.Order.Ring.Int
import Mathlib.Data.List.Basic

/-!
# Loops that count

The values of the counter in `for (v = start; v <= stop; v += increase)`, with a bound on the rounds.
-/

namespace CountedLoop

def values (stop increase : ℤ) : ℕ → ℤ → List ℤ
  | 0, _ => []
  | n + 1, v => if v ≤ stop then v :: values stop increase n (v + increase) else []

variable {stop increase v : ℤ} {n k : ℕ}

/-- The loop makes `k` rounds where the counter passes the end in the one after them. -/
theorem values_eq_map_range (hk : k ≤ n) (hle : ∀ i : ℕ, i < k → v + i * increase ≤ stop)
    (hlt : stop < v + k * increase) :
    values stop increase n v = (List.range k).map fun i : ℕ => v + i * increase := by
  induction k generalizing n v with
  | zero =>
    rw [Nat.cast_zero, zero_mul, add_zero] at hlt
    cases n with
    | zero => rfl
    | succ n => rw [values, if_neg (Int.not_le.mpr hlt), List.range_zero, List.map_nil]
  | succ k ih =>
    obtain ⟨n, rfl⟩ := Nat.exists_eq_add_of_le' (Nat.one_le_of_lt hk)
    -- the rounds after the first begin at the next value
    have hnext (i : ℕ) : v + ((i + 1 : ℕ) : ℤ) * increase = v + increase + i * increase := by
      rw [Nat.cast_add, Nat.cast_one, add_mul, one_mul]
      omega
    have hfirst := hle 0 (Nat.succ_pos k)
    rw [Nat.cast_zero, zero_mul, add_zero] at hfirst
    have hrest := ih (n := n) (v := v + increase) (Nat.le_of_succ_le_succ hk)
      (fun i hi => (hnext i) ▸ hle (i + 1) (Nat.succ_lt_succ hi)) ((hnext k) ▸ hlt)
    rw [values, if_pos hfirst, hrest, List.range_succ_eq_map, List.map_cons, List.map_map,
      Nat.cast_zero, zero_mul, add_zero]
    congr 1
    apply List.map_congr_left
    intro i _
    exact (hnext i).symm

end CountedLoop
