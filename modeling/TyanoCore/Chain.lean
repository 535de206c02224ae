import Mathlib.Data.Fintype.Pigeonhole
import Mathlib.Logic.Function.Basic

/-!
# Chains of steps

A partial step taken again and again, from place to place.  Where a place is always left for the
same place once it has been left, a chain through finitely many places ends exactly if it comes to no
place a second time.
-/

namespace Chain

variable {α β : Type*} (next : α → Option α) (place : α → β)

/-- What `n` steps lead to; `none` when the chain ends before. -/
def after : ℕ → α → Option α
  | 0, a => some a
  | n + 1, a => (next a).bind (after n)

/-- The chain ends. -/
def Ends (a : α) : Prop := ∃ n, after next n a = none

/-- The chain comes to a place twice. -/
def Circles (a : α) : Prop :=
  ∃ m n x y, m < n ∧ after next m a = some x ∧ after next n a = some y ∧ place x = place y

/-- A place that the chain has left is left for the same place later on. -/
def Retraces (a : α) : Prop :=
  ∀ m n x x' y, m < n → after next m a = some x → next x = some x' → after next n a = some y →
    place y = place x → ∃ y', next y = some y' ∧ place y' = place x'

variable {next place} {a b : α}

theorem after_succ (n : ℕ) (a : α) : after next (n + 1) a = (after next n a).bind next := by
  induction n generalizing a with
  | zero =>
    change (next a).bind some = next a
    cases next a <;> rfl
  | succ n ih =>
    rw [after]
    cases hnext : next a with
    | none =>
      rw [after, hnext]
      rfl
    | some b =>
      rw [Option.bind_some, ih b, after, hnext, Option.bind_some]

/-- A longer chain has been through what a shorter one leads to. -/
theorem after_of_le {m n : ℕ} (hmn : m ≤ n) {y : α} (h : after next n a = some y) :
    ∃ x, after next m a = some x := by
  induction hmn generalizing y with
  | refl => exact ⟨y, h⟩
  | step _ ih =>
    rw [after_succ] at h
    obtain ⟨x, hx, -⟩ := Option.bind_eq_some_iff.mp h
    exact ih hx

/-- A chain that has not ended has left each earlier place for the one after. -/
theorem next_of_after {m n : ℕ} (hmn : m < n) {x y : α} (hx : after next m a = some x)
    (hy : after next n a = some y) : ∃ x', next x = some x' ∧ after next (m + 1) a = some x' := by
  obtain ⟨x', hx'⟩ := after_of_le hmn hy
  have hstep := hx'
  rw [after_succ, hx, Option.bind_some] at hstep
  exact ⟨x', hstep, hx'⟩

/-- Through finitely many places, a chain that comes to none of them twice ends. -/
theorem ends_of_not_circles [Finite β] (h : ¬ Circles next place a) : Ends next a := by
  by_contra hends
  have hsome (n : ℕ) : ∃ x, after next n a = some x :=
    Option.ne_none_iff_exists'.mp fun hnone => hends ⟨n, hnone⟩
  choose x hx using hsome
  -- there are more steps than places
  obtain ⟨m, n, hne, hplace⟩ := Finite.exists_ne_map_eq_of_infinite fun n => place (x n)
  rcases Nat.lt_or_gt_of_ne hne with hlt | hlt
  · exact h ⟨m, n, x m, x n, hlt, hx m, hx n, hplace⟩
  · exact h ⟨n, m, x n, x m, hlt, hx n, hx m, hplace.symm⟩

/-- From the second time on that a place is met, the chain goes where it went before. -/
theorem not_ends_of_circles (hretraces : Retraces next place a) (h : Circles next place a) :
    ¬ Ends next a := by
  obtain ⟨m, n, x, y, hlt, hx, hy, hplace⟩ := h
  have hagain (k : ℕ) : ∃ x y, after next (m + k) a = some x ∧ after next (n + k) a = some y ∧
      place x = place y := by
    induction k with
    | zero => exact ⟨x, y, hx, hy, hplace⟩
    | succ k ih =>
      obtain ⟨x, y, hx, hy, hplace⟩ := ih
      obtain ⟨x', hnext, hx'⟩ := next_of_after (Nat.add_lt_add_right hlt k) hx hy
      obtain ⟨y', hnext', hplace'⟩ :=
        hretraces _ _ x x' y (Nat.add_lt_add_right hlt k) hx hnext hy hplace.symm
      refine ⟨x', y', hx', ?_, hplace'.symm⟩
      rw [← Nat.add_assoc, after_succ, hy]
      exact hnext'
  rintro ⟨k, hnone⟩
  obtain ⟨x, y, -, hy, -⟩ := hagain k
  obtain ⟨z, hz⟩ := after_of_le (Nat.le_add_left k n) hy
  rw [hnone] at hz
  cases hz

theorem ends_iff [Finite β] (hretraces : Retraces next place a) :
    Ends next a ↔ ¬ Circles next place a :=
  ⟨fun hends hcircles => not_ends_of_circles hretraces hcircles hends, ends_of_not_circles⟩

/-- A chain that ends at once has been nowhere else. -/
theorem eq_of_after (h : next a = none) {n : ℕ} (hn : after next n a = some b) : b = a := by
  cases n with
  | zero => exact (Option.some.inj hn).symm
  | succ n =>
    rw [after, h] at hn
    cases hn

/-! ## Another next place -/

variable {next' : α → Option α}

theorem ends_of_next_none (h : next a = none) : Ends next a := ⟨1, by rw [after, h, Option.bind_none]⟩

theorem ends_iff_of_next (h : next a = some b) : Ends next a ↔ Ends next b := by
  constructor
  · rintro ⟨n, hn⟩
    cases n with
    | zero => cases hn
    | succ n =>
      rw [after, h, Option.bind_some] at hn
      exact ⟨n, hn⟩
  · rintro ⟨n, hn⟩
    refine ⟨n + 1, ?_⟩
    rw [after, h, Option.bind_some, hn]

/-- Chains whose steps are some of the steps of chains that end. -/
theorem Ends.mono (h : Ends next a) (hfewer : ∀ a, next' a = next a ∨ next' a = none) :
    Ends next' a := by
  obtain ⟨n, hn⟩ := h
  induction n generalizing a with
  | zero => cases hn
  | succ n ih =>
    rcases hfewer a with hsame | hnone
    · cases hnext : next a with
      | none => exact ends_of_next_none (hsame.trans hnext)
      | some b =>
        rw [after, hnext, Option.bind_some] at hn
        exact (ends_iff_of_next (hsame.trans hnext)).mpr (ih hn)
    · exact ends_of_next_none hnone

variable [DecidableEq α]

/-- Chains that do not come to the place whose next place is changed go as before. -/
theorem after_update (c : Option α) (h : ∀ n, after next n a ≠ some b) (n : ℕ) :
    after (Function.update next b c) n a = after next n a := by
  induction n generalizing a with
  | zero => rfl
  | succ n ih =>
    have hab : a ≠ b := fun hab => h 0 (congrArg some hab)
    rw [after, after, Function.update_of_ne hab]
    cases hnext : next a with
    | none => rfl
    | some a' =>
      apply ih
      intro k hk
      apply h (k + 1)
      rw [after, hnext]
      exact hk

/-- Where all chains end, they still end after a place has been given another next place, exactly
if the chain from there does not come back. -/
theorem ends_update (h : ∀ a, Ends next a) {c : α} :
    (∀ a, Ends (Function.update next b (some c)) a) ↔ ∀ n, after next n c ≠ some b := by
  have hself : Function.update next b (some c) b = some c := Function.update_self ..
  constructor
  · intro hends n hback
    -- what comes to the changed place without it goes round with it
    have hround (k : ℕ) : ∀ a n, after next n a = some b →
        after (Function.update next b (some c)) k a ≠ none := by
      induction k with
      | zero => exact fun a _ _ => Option.some_ne_none a
      | succ k ih =>
        intro a n ha
        by_cases hab : a = b
        · rw [hab, after, hself]
          exact ih c _ hback
        · cases n with
          | zero => exact absurd (Option.some.inj ha) hab
          | succ n =>
            rw [after] at ha
            obtain ⟨a', hnext, ha'⟩ := Option.bind_eq_some_iff.mp ha
            rw [after, Function.update_of_ne hab, hnext]
            exact ih a' n ha'
    obtain ⟨k, hk⟩ := hends c
    exact hround k c n hback hk
  · intro hback
    have hc : Ends (Function.update next b (some c)) c := by
      obtain ⟨n, hn⟩ := h c
      exact ⟨n, (after_update _ hback n).trans hn⟩
    have hb : Ends (Function.update next b (some c)) b := (ends_iff_of_next hself).mpr hc
    intro a
    obtain ⟨n, hn⟩ := h a
    induction n generalizing a with
    | zero => cases hn
    | succ n ih =>
      by_cases hab : a = b
      · rw [hab]
        exact hb
      have hsame : Function.update next b (some c) a = next a := Function.update_of_ne hab ..
      cases hnext : next a with
      | none => exact ends_of_next_none (hsame.trans hnext)
      | some a' =>
        rw [after, hnext, Option.bind_some] at hn
        exact (ends_iff_of_next (hsame.trans hnext)).mpr (ih a' hn)

end Chain
