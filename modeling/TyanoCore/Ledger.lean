import Mathlib.Algebra.BigOperators.Group.Finset.Piecewise
import Mathlib.Algebra.BigOperators.Group.List.Basic
import Mathlib.Algebra.Group.Prod
import Mathlib.Tactic.Abel

/-!
# Ledgers

A state has a total to which the entries of a list contribute.  What the total holds beyond the entries
is the balance; a loop that changes the total by what it changes of each entry keeps it.
-/

namespace Ledger

variable {State Entry Value : Type*}

/-- A loop over a list that changes the state and replaces or drops each entry, with its number. -/
def sweep (visit : ℕ → State → Entry → State × Option Entry) :
    ℕ → State → List Entry → State × List Entry
  | _, s, [] => (s, [])
  | n, s, e :: rest =>
    let visited := visit n s e
    let swept := sweep visit (n + 1) visited.1 rest
    (swept.1, visited.2.toList ++ swept.2)

variable [AddCommGroup Value] (total : State → Value) (value : Entry → Value)

/-- What the total holds beyond the entries. -/
def balance (s : State) (entries : List Entry) : Value := total s - (entries.map value).sum

variable {total value}

theorem balance_append (s : State) (as bs : List Entry) :
    balance total value s (as ++ bs) = balance total value s as - (bs.map value).sum := by
  rw [balance, balance, List.map_append, List.sum_append]
  abel

/-- An entry in front counts before the others. -/
theorem balance_cons (s : State) (e : Entry) (rest : List Entry) :
    balance total value s (e :: rest) = balance total value s rest - value e := by
  rw [balance, balance, List.map_cons, List.sum_cons]
  abel

/-- Wherever the entries are, a change of the total shows in the balance. -/
theorem balance_eq_of_total {s t : State} {d : Value} (h : total t = total s + d)
    (entries : List Entry) : balance total value t entries = balance total value s entries + d := by
  rw [balance, balance, h]
  abel

/-- An entry may be replaced where the total changes by the difference. -/
theorem balance_replace {s t : State} {e e' : Entry} (h : total t - value e' = total s - value e)
    (as bs : List Entry) :
    balance total value t (as ++ e' :: bs) = balance total value s (as ++ e :: bs) := by
  have hdiff : total t = total s + (value e' - value e) := by
    calc
      total t = total t - value e' + value e' := (sub_add_cancel _ _).symm
      _ = total s - value e + value e' := by rw [h]
      _ = total s + (value e' - value e) := by abel
  have hentries : ((as ++ e' :: bs).map value).sum =
      ((as ++ e :: bs).map value).sum + (value e' - value e) := by
    rw [List.map_append, List.map_append, List.map_cons, List.map_cons, List.sum_append,
      List.sum_append, List.sum_cons, List.sum_cons]
    abel
  rw [balance, balance, hdiff, hentries]
  abel

/-- A loop keeps the balance where each of its rounds does. -/
theorem balance_sweep {visit : ℕ → State → Entry → State × Option Entry}
    (h : ∀ n s e, balance total value (visit n s e).1 (visit n s e).2.toList =
      balance total value s [e]) (n : ℕ) (s : State) (entries : List Entry) :
    balance total value (sweep visit n s entries).1 (sweep visit n s entries).2 =
      balance total value s entries := by
  induction entries generalizing n s with
  | nil => rfl
  | cons e rest ih =>
    have hround := h n s e
    have hrest := ih (n + 1) (visit n s e).1
    rw [balance, balance, List.map_singleton, List.sum_singleton] at hround
    rw [balance, balance] at hrest
    rw [sweep, balance, balance, List.map_append, List.sum_append, List.map_cons, List.sum_cons]
    dsimp only
    calc
      _ = total (sweep visit (n + 1) (visit n s e).1 rest).1 -
          ((sweep visit (n + 1) (visit n s e).1 rest).2.map value).sum -
            ((visit n s e).2.toList.map value).sum := by abel
      _ = total (visit n s e).1 - ((visit n s e).2.toList.map value).sum - (rest.map value).sum := by
        rw [hrest]
        abel
      _ = total s - (value e + (rest.map value).sum) := by
        rw [hround]
        abel

/-- A sum changes with one of its places by new minus old. -/
theorem sum_update {Place : Type*} [Fintype Place] [DecidableEq Place] (entries : Place → Entry)
    (value : Entry → Value) (place : Place) (e : Entry) :
    ∑ i, value (Function.update entries place e i) =
      ∑ i, value (entries i) - value (entries place) + value e := by
  have hcomp : (fun i => value (Function.update entries place e i)) =
      Function.update (fun i => value (entries i)) place (value e) := by
    ext i
    by_cases hi : i = place
    · rw [hi, Function.update_self, Function.update_self]
    · rw [Function.update_of_ne hi, Function.update_of_ne hi]
  have hbefore := Finset.add_sum_erase Finset.univ (fun i => value (entries i)) (Finset.mem_univ place)
  rw [hcomp, Finset.sum_update_of_mem (Finset.mem_univ place), Finset.sdiff_singleton_eq_erase,
    ← hbefore]
  abel

section Places

variable {Place : Type*} [DecidableEq Place] {entries : Place → Option Entry} {place : Place}
  {e : Entry}

/-- An entry that is put in an empty place is there besides the others. -/
theorem exists_update_some (hempty : entries place = none) (e : Entry) (P : Place → Entry → Prop) :
    (∃ i x, Function.update entries place (some e) i = some x ∧ P i x) ↔
      (∃ i x, entries i = some x ∧ P i x) ∨ P place e := by
  apply Iff.intro
  · intro h
    obtain ⟨i, x, hx, hP⟩ := h
    by_cases hi : i = place
    · rw [hi, Function.update_self] at hx
      rw [hi, ← Option.some.inj hx] at hP
      exact .inr hP
    · rw [Function.update_of_ne hi] at hx
      exact .inl ⟨i, x, hx, hP⟩
  · intro h
    cases h with
    | inl hother =>
      obtain ⟨i, x, hx, hP⟩ := hother
      have hi : i ≠ place := by
        intro hi
        rw [hi, hempty] at hx
        cases hx
      exact ⟨i, x, (Function.update_of_ne hi _ _).trans hx, hP⟩
    | inr hP => exact ⟨place, e, Function.update_self _ _ _, hP⟩

/-- An entry that is taken away leaves those of the other places. -/
theorem exists_update_none (P : Place → Entry → Prop) :
    (∃ i x, Function.update entries place none i = some x ∧ P i x) ↔
      ∃ i, i ≠ place ∧ ∃ x, entries i = some x ∧ P i x := by
  apply exists_congr
  intro i
  by_cases hi : i = place
  · rw [hi, Function.update_self]
    apply iff_of_false
    · intro h
      obtain ⟨x, hx, -⟩ := h
      cases hx
    · intro h
      exact h.1 rfl
  · rw [Function.update_of_ne hi]
    exact (and_iff_right hi).symm

/-- Where the entry does not count, nothing is lost with it. -/
theorem exists_update_none_of_not {P : Place → Entry → Prop} (he : entries place = some e)
    (hnot : ¬ P place e) :
    (∃ i x, Function.update entries place none i = some x ∧ P i x) ↔
      ∃ i x, entries i = some x ∧ P i x := by
  rw [exists_update_none]
  apply exists_congr
  intro i
  apply and_iff_right_of_imp
  intro h hi
  obtain ⟨x, hx, hP⟩ := h
  rw [hi, he] at hx
  rw [hi, ← Option.some.inj hx] at hP
  exact hnot hP

end Places

end Ledger
