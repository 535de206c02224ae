import Mathlib.Data.Nat.Notation
import Mathlib.Tactic.TypeStar

/-!
# Walks with costs

A search labels places with what it costs to get there and settles those whose steps it has followed.
Whatever the order it settles them in, each walk to a place that is not settled has a place on it that
waits to be followed, with a label no dearer than the walk up to it.
-/

namespace Frontier

variable {V : Type*} {step : V → V → ℕ → Prop} {s t u v w : V} {b c l : ℕ}

/-- A walk with the cost of its steps. -/
inductive Walk (step : V → V → ℕ → Prop) : V → V → ℕ → Prop
  | here (v : V) : Walk step v v 0
  | next {u v w : V} {b c : ℕ} : step u v b → Walk step v w c → Walk step u w (b + c)

theorem Walk.trans (h : Walk step u v b) (h' : Walk step v w c) : Walk step u w (b + c) := by
  induction h with
  | here v =>
    rw [Nat.zero_add]
    exact h'
  | next hstep _ ih =>
    rw [Nat.add_assoc]
    exact Walk.next hstep (ih h')

/-- A walk with a step after it. -/
theorem Walk.snoc (h : Walk step u v b) (hstep : step v w c) : Walk step u w (b + c) :=
  h.trans (Walk.next hstep (Walk.here w))

theorem Walk.map {W : Type*} {step' : W → W → ℕ → Prop} (f : V → W)
    (hstep : ∀ u v c, step u v c → step' (f u) (f v) c) (h : Walk step s t c) :
    Walk step' (f s) (f t) c := by
  induction h with
  | here v => exact Walk.here (f v)
  | next hfirst _ ih => exact Walk.next (hstep _ _ _ hfirst) ih

/-- What no step lowers by more than its cost, no walk does. -/
theorem Walk.potential_le (potential : V → ℕ)
    (hstep : ∀ u v c, step u v c → potential u ≤ c + potential v) (h : Walk step s t c) :
    potential s ≤ c + potential t := by
  induction h with
  | here v => exact Nat.le_add_left _ _
  | next hfirst _ ih =>
    have hlower := hstep _ _ _ hfirst
    omega

/-! ## Labels -/

variable {Settled Waiting : V → ℕ → Prop}

/-- From a settled place each step leads to a label that is no dearer. -/
def Followed (step : V → V → ℕ → Prop) (Settled Waiting : V → ℕ → Prop) : Prop :=
  ∀ u l, Settled u l → ∀ v c, step u v c → ∃ l' ≤ l + c, Settled v l' ∨ Waiting v l'

/-- A walk from a labelled place to one that is not settled passes a place that waits. -/
theorem Followed.exists_waiting (hfollowed : Followed step Settled Waiting) (hwalk : Walk step s t c)
    (hs : Settled s l ∨ Waiting s l) (ht : ∀ l, ¬ Settled t l) :
    ∃ u l' d, Waiting u l' ∧ Walk step u t d ∧ l' + d ≤ l + c := by
  induction hwalk generalizing l with
  | here v => exact ⟨v, l, 0, hs.resolve_left (ht l), Walk.here v, Nat.le_refl _⟩
  | @next u v w b c hstep hrest ih =>
    apply hs.elim
    · intro hsettled
      obtain ⟨l', hle, hl'⟩ := hfollowed u l hsettled v b hstep
      obtain ⟨x, m, d, hwaits, hx, hcost⟩ := ih hl' ht
      exact ⟨x, m, d, hwaits, hx, by omega⟩
    · intro hwaits
      exact ⟨u, l, b + c, hwaits, Walk.next hstep hrest, Nat.le_refl _⟩

end Frontier
