import Mathlib.Data.List.Basic
import Mathlib.Data.Nat.Notation

/-!
# Scripts of reads

What a program does with a stream, as a tree: it takes so many units for a field, or learns that they
are not there, and goes on from what it got.  A gauge says what is there.  Run against the stream, a
read that the gauge allows and the stream does not have is foreign; evaluated, it gets what there is.
A bound on the rounds of a loop may be used up.
-/

inductive ReadScript (φ β α : Type) where
  | done (a : α)
  | out
  | more (next : Bool → ReadScript φ β α)
  | take (field : φ) (n : ℕ) (next : Option (List β) → ReadScript φ β α)

namespace ReadScript

variable {φ α β γ : Type}

/-- What a program is told of a stream: whether fewer units are left than it wants, and whether there
are any. -/
structure Gauge (β : Type) where
  lacks : List β → ℕ → Bool
  more : List β → Bool

inductive Outcome (β α : Type) where
  | done (a : α) (rest : List β)
  | out
  | foreign

def run (g : Gauge β) : ReadScript φ β α → List β → Outcome β α
  | .done a, s => .done a s
  | .out, _ => .out
  | .more next, s => run g (next (g.more s)) s
  | .take _ n next, s =>
    if g.lacks s n then run g (next none) s
    else if n ≤ s.length then run g (next (some (s.take n))) (s.drop n)
    else .foreign

/-- The value and the rest, where every read that the gauge allows gets what there is. -/
def eval (g : Gauge β) : ReadScript φ β α → List β → Option (α × List β)
  | .done a, s => some (a, s)
  | .out, _ => none
  | .more next, s => eval g (next (g.more s)) s
  | .take _ n next, s =>
    if g.lacks s n then eval g (next none) s else eval g (next (some (s.take n))) (s.drop n)

/-- The fields that the script gets, with the units that are read for each. -/
def fields (g : Gauge β) : ReadScript φ β α → List β → List (φ × List β)
  | .done _, _ => []
  | .out, _ => []
  | .more next, s => fields g (next (g.more s)) s
  | .take field n next, s =>
    if g.lacks s n then fields g (next none) s
    else if n ≤ s.length then (field, s.take n) :: fields g (next (some (s.take n))) (s.drop n)
    else []

/-- The next read wants so many units or more. -/
def WantsFrom (limit : ℕ) : ReadScript φ β α → Prop
  | .take _ n _ => limit ≤ n
  | _ => False

/-- Whatever is read, only lengths below the limit are wanted, but for the read after a bad field, which
wants more.  `out` tells whether bounds of loops may be used up. -/
def Bounded (out : Prop) (bad : φ → List β → Prop) (limit : ℕ) : ReadScript φ β α → Prop
  | .done _ => True
  | .out => out
  | .more next => ∀ b, Bounded out bad limit (next b)
  | .take field n next => n < limit ∧ Bounded out bad limit (next none) ∧
      ∀ units, units.length = n →
        (bad field units → WantsFrom limit (next (some units))) ∧
        (¬ bad field units → Bounded out bad limit (next (some units)))

/-- Some bound on the rounds is enough. -/
def Ends (g : Gauge β) (x : ℕ → ReadScript φ β α) (s : List β) : Prop := ∃ n, run g (x n) s ≠ .out

/-- The script ends and reads only units of the stream, so that what is left is an end of it. -/
def StaysInside (g : Gauge β) (x : ReadScript φ β α) (s : List β) : Prop :=
  ∃ a r, run g x s = .done a r ∧ r <:+ s

/-! ## Composition -/

def bind : ReadScript φ β α → (α → ReadScript φ β γ) → ReadScript φ β γ
  | .done a, f => f a
  | .out, _ => .out
  | .more next, f => .more fun b => bind (next b) f
  | .take field n next, f => .take field n fun units => bind (next units) f

def map (f : α → γ) (x : ReadScript φ β α) : ReadScript φ β γ := x.bind fun a => .done (f a)

variable {g : Gauge β} {x : ReadScript φ β α} {f : α → ReadScript φ β γ} {s r : List β} {a : α}

theorem Outcome.done_ne_out : Outcome.done a s ≠ .out := by
  intro h
  cases h

theorem Outcome.foreign_ne_out : (Outcome.foreign : Outcome β α) ≠ .out := by
  intro h
  cases h

theorem Outcome.foreign_ne_done : Outcome.foreign ≠ .done a s := by
  intro h
  cases h

theorem run_bind (g : Gauge β) (x : ReadScript φ β α) (f : α → ReadScript φ β γ) (s : List β) :
    run g (x.bind f) s = match run g x s with
      | .done a r => run g (f a) r
      | .out => .out
      | .foreign => .foreign := by
  induction x generalizing s with
  | done a => rfl
  | out => rfl
  | more next ih => exact ih (g.more s) s
  | take field n next ih =>
    rw [bind, run, run]
    by_cases hlacks : g.lacks s n = true
    · rw [if_pos hlacks, if_pos hlacks, ih]
    · rw [if_neg hlacks, if_neg hlacks]
      by_cases hlength : n ≤ s.length
      · rw [if_pos hlength, if_pos hlength, ih]
      · rw [if_neg hlength, if_neg hlength]

theorem eval_bind (g : Gauge β) (x : ReadScript φ β α) (f : α → ReadScript φ β γ) (s : List β) :
    eval g (x.bind f) s = (eval g x s).bind fun p => eval g (f p.1) p.2 := by
  induction x generalizing s with
  | done a => rfl
  | out => rfl
  | more next ih => exact ih (g.more s) s
  | take field n next ih =>
    rw [bind, eval, eval]
    split <;> exact ih _ _

section Bounded

variable {out : Prop} {bad : φ → List β → Prop} {limit : ℕ}

theorem WantsFrom.bind (hx : x.WantsFrom limit) (f : α → ReadScript φ β γ) :
    (x.bind f).WantsFrom limit := by
  cases x with
  | take field n next => exact hx
  | done a => exact hx.elim
  | out => exact hx.elim
  | more next => exact hx.elim

theorem Bounded.bind (hx : x.Bounded out bad limit) (hf : ∀ a, (f a).Bounded out bad limit) :
    (x.bind f).Bounded out bad limit := by
  induction x with
  | done a => exact hf a
  | out => exact hx
  | more next ih => exact fun b => ih b (hx b)
  | take field n next ih =>
    refine ⟨hx.1, ih none hx.2.1, fun units hunits => ⟨fun hbad => ?_, fun hgood => ?_⟩⟩
    · exact ((hx.2.2 units hunits).1 hbad).bind f
    · exact ih (some units) ((hx.2.2 units hunits).2 hgood)

theorem Bounded.map {f : α → γ} (hx : x.Bounded out bad limit) : (x.map f).Bounded out bad limit :=
  hx.bind fun _ => trivial

end Bounded

/-- A bound that is used up is one of the first script, or one of what follows it. -/
theorem run_bind_ne_out (hx : run g x s ≠ .out)
    (hf : ∀ a r, run g x s = .done a r → run g (f a) r ≠ .out) : run g (x.bind f) s ≠ .out := by
  rw [run_bind]
  cases hrun : run g x s with
  | done a r => exact hf a r hrun
  | out => exact absurd hrun hx
  | foreign => exact Outcome.foreign_ne_out

theorem run_map_ne_out {f : α → γ} (hx : run g x s ≠ .out) : run g (x.map f) s ≠ .out :=
  run_bind_ne_out hx fun _ _ _ => Outcome.done_ne_out

theorem run_bind_of_done (h : run g x s = .done a r) : run g (x.bind f) s = run g (f a) r := by
  rw [run_bind, h]

/-- A composition that ends is made of two runs that do. -/
theorem exists_of_run_bind {c : γ} (h : run g (x.bind f) s = .done c r) :
    ∃ a r₁, run g x s = .done a r₁ ∧ run g (f a) r₁ = .done c r := by
  rw [run_bind] at h
  cases hx : run g x s with
  | done a r₁ =>
    rw [hx] at h
    exact ⟨a, r₁, rfl, h⟩
  | out =>
    rw [hx] at h
    cases h
  | foreign =>
    rw [hx] at h
    cases h

theorem exists_of_run_map {f : α → γ} {c : γ} (h : run g (x.map f) s = .done c r) :
    ∃ a, run g x s = .done a r ∧ f a = c := by
  obtain ⟨a, r₁, hx, hf⟩ := exists_of_run_bind h
  obtain ⟨rfl, rfl⟩ := Outcome.done.inj hf
  exact ⟨a, hx, rfl⟩

/-- What is left is an end of the stream. -/
theorem run_suffix (h : run g x s = .done a r) : r <:+ s := by
  induction x generalizing s with
  | done b =>
    have heq := (Outcome.done.inj h).2
    exact heq ▸ List.suffix_refl s
  | out => cases h
  | more next ih => exact ih _ h
  | take field n next ih =>
    rw [run] at h
    split at h
    · exact ih _ h
    · split at h
      · exact (ih _ h).trans (List.drop_suffix n s)
      · exact absurd h Outcome.foreign_ne_done

theorem run_length_le (h : run g x s = .done a r) : r.length ≤ s.length :=
  (run_suffix h).length_le

theorem eval_suffix (h : eval g x s = some (a, r)) : r <:+ s := by
  induction x generalizing s with
  | done b =>
    have heq := (Prod.mk.inj (Option.some.inj h)).2
    exact heq ▸ List.suffix_refl s
  | out => cases h
  | more next ih => exact ih _ h
  | take field n next ih =>
    rw [eval] at h
    split at h
    · exact ih _ h
    · exact (ih _ h).trans (List.drop_suffix n s)

/-- A run that ends agrees with the evaluation. -/
theorem eval_of_run (h : run g x s = .done a r) : eval g x s = some (a, r) := by
  induction x generalizing s with
  | done b =>
    obtain ⟨rfl, rfl⟩ := Outcome.done.inj h
    rfl
  | out => cases h
  | more next ih => exact ih _ h
  | take field n next ih =>
    rw [run] at h
    rw [eval]
    split at h
    · next hlacks => rw [if_pos hlacks, ih _ h]
    · next hlacks =>
      split at h
      · rw [if_neg hlacks, ih _ h]
      · exact absurd h Outcome.foreign_ne_done

/-! ## Foreign reads -/

/-- The gauge is right about streams shorter than a limit and requests below it; a request beyond the
limit is always allowed. -/
def Gauge.Exact (g : Gauge β) (limit : ℕ) : Prop :=
  ∀ s n, s.length < limit → g.lacks s n = (decide (s.length < n) && decide (n < limit))

theorem Gauge.Exact.lacks_iff {limit n : ℕ} (hg : g.Exact limit) (hs : s.length < limit) :
    g.lacks s n = true ↔ s.length < n ∧ n < limit := by
  rw [hg s n hs, Bool.and_eq_true, decide_eq_true_eq, decide_eq_true_eq]

section Short

variable {out : Prop} {bad : φ → List β → Prop} {limit : ℕ}

theorem WantsFrom.run_eq_foreign (hg : g.Exact limit) (hs : s.length < limit)
    (hx : x.WantsFrom limit) : run g x s = .foreign := by
  cases x with
  | take field n next =>
    have hle : limit ≤ n := hx
    have hlacks : ¬ g.lacks s n = true := by
      rw [hg.lacks_iff hs]
      exact fun h => Nat.not_lt.mpr hle h.2
    rw [run, if_neg hlacks, if_neg (Nat.not_le.mpr (Nat.lt_of_lt_of_le hs hle))]
  | done a => exact hx.elim
  | out => exact hx.elim
  | more next => exact hx.elim

/-- What a bounded script does at a read of a short stream: the units are lacking or there. -/
theorem Bounded.run_take (hg : g.Exact limit) (hs : s.length < limit) {field : φ} {n : ℕ}
    {next : Option (List β) → ReadScript φ β α} (hx : (take field n next).Bounded out bad limit) :
    g.lacks s n = true ∨ g.lacks s n = false ∧ n ≤ s.length := by
  rw [Bool.eq_false_iff]
  by_cases hlacks : g.lacks s n = true
  · exact Or.inl hlacks
  · refine Or.inr ⟨hlacks, Nat.not_lt.mp fun hlt => hlacks ?_⟩
    exact (hg.lacks_iff hs).mpr ⟨hlt, hx.1⟩

/-- A script that uses up no bound of its own ends on every short stream. -/
theorem Bounded.run_ne_out (hg : g.Exact limit) (hs : s.length < limit)
    (hx : x.Bounded False bad limit) : run g x s ≠ .out := by
  induction x generalizing s with
  | done a => exact Outcome.done_ne_out
  | out => exact hx.elim
  | more next ih => exact ih _ hs (hx _)
  | take field n next ih =>
    rw [run]
    obtain hlacks | ⟨hlacks, hle⟩ := hx.run_take hg hs
    · rw [if_pos hlacks]
      exact ih none hs hx.2.1
    · have hunits := hx.2.2 (s.take n) (List.length_take_of_le hle)
      have hrest : (s.drop n).length < limit := by
        rw [List.length_drop]
        exact Nat.lt_of_le_of_lt (Nat.sub_le _ _) hs
      rw [hlacks, if_neg Bool.false_ne_true, if_pos hle]
      by_cases hbad : bad field (s.take n)
      · rw [(hunits.1 hbad).run_eq_foreign hg hrest]
        exact Outcome.foreign_ne_out
      · exact ih _ hrest (hunits.2 hbad)

/-- A read of a short stream is foreign exactly where a bad field has been read. -/
theorem Bounded.run_eq_foreign_iff (hg : g.Exact limit) (hs : s.length < limit)
    (hx : x.Bounded out bad limit) :
    run g x s = .foreign ↔ ∃ f ∈ fields g x s, bad f.1 f.2 := by
  induction x generalizing s with
  | done a => simp [run, fields]
  | out => simp [run, fields]
  | more next ih => exact ih _ hs (hx _)
  | take field n next ih =>
    rw [run, fields]
    obtain hlacks | ⟨hlacks, hle⟩ := hx.run_take hg hs
    · rw [if_pos hlacks, if_pos hlacks]
      exact ih none hs hx.2.1
    · have hunits := hx.2.2 (s.take n) (List.length_take_of_le hle)
      have hrest : (s.drop n).length < limit := by
        rw [List.length_drop]
        exact Nat.lt_of_le_of_lt (Nat.sub_le _ _) hs
      rw [hlacks, if_neg Bool.false_ne_true, if_neg Bool.false_ne_true, if_pos hle, if_pos hle,
        List.exists_mem_cons_iff]
      by_cases hbad : bad field (s.take n)
      · exact iff_of_true ((hunits.1 hbad).run_eq_foreign hg hrest) (Or.inl hbad)
      · rw [or_iff_right hbad]
        exact ih _ hrest (hunits.2 hbad)

/-- A run that uses up no bound ends inside the stream exactly where no field is bad. -/
theorem Bounded.staysInside_iff (hg : g.Exact limit) (hs : s.length < limit)
    (hx : x.Bounded out bad limit) (hout : run g x s ≠ .out) :
    StaysInside g x s ↔ ∀ f ∈ fields g x s, ¬ bad f.1 f.2 := by
  have hforeign := hx.run_eq_foreign_iff hg hs
  constructor
  · intro h f hf hbad
    obtain ⟨a, r, hrun, -⟩ := h
    have hends := hforeign.mpr ⟨f, hf, hbad⟩
    rw [hrun] at hends
    exact Outcome.foreign_ne_done hends.symm
  · intro h
    cases hrun : run g x s with
    | done a r => exact ⟨a, r, hrun, run_suffix hrun⟩
    | out => exact absurd hrun hout
    | foreign =>
      obtain ⟨f, hf, hbad⟩ := hforeign.mp hrun
      exact absurd hbad (h f hf)

end Short

end ReadScript
