import Mathlib.Logic.Relation
import Mathlib.Data.Nat.Notation

/-!
# Loops with an exit

A loop is a body that maps a state to the next state or to a result.  It is run with a bound on the
rounds; where a measure falls in every round, each bound above the measure of the first state gives
the result that the steps lead to.
-/

namespace Loop

variable {α β : Type*} {body : α → α ⊕ β} {a a' : α} {b : β} {n : ℕ}

/-- At most `n` rounds; `none` when there is no result after them. -/
def run (body : α → α ⊕ β) : ℕ → α → Option β
  | 0, _ => none
  | n + 1, a =>
    match body a with
    | .inl a' => run body n a'
    | .inr b => some b

/-- The loop gets from one state to another. -/
abbrev Reaches (body : α → α ⊕ β) : α → α → Prop :=
  Relation.ReflTransGen fun a a' => body a = .inl a'

theorem run_inl (h : body a = .inl a') : run body (n + 1) a = run body n a' := by
  rw [run, h]

theorem run_inr (h : body a = .inr b) : run body (n + 1) a = some b := by
  rw [run, h]

/-- More rounds give the same result. -/
theorem run_mono {m : ℕ} (hnm : n ≤ m) (h : run body n a = some b) : run body m a = some b := by
  induction n generalizing a m with
  | zero => exact absurd h (Option.not_mem_none b)
  | succ n ih =>
    obtain ⟨k, rfl⟩ := Nat.exists_eq_add_of_le' hnm
    cases hbody : body a with
    | inl a' =>
      rw [run_inl hbody] at h
      rw [← Nat.add_assoc, run_inl hbody]
      exact ih (Nat.le_add_left n k) h
    | inr b' =>
      rw [run_inr hbody] at h
      rw [← Nat.add_assoc, run_inr hbody, h]

/-- A loop that does the same to what states stand for has what the results stand for. -/
theorem run_map {α' β' : Type*} {body' : α' → α' ⊕ β'} (f : α → α') (f' : β → β')
    (h : ∀ a, body' (f a) = (body a).map f f') (n : ℕ) (a : α) :
    run body' n (f a) = (run body n a).map f' := by
  induction n generalizing a with
  | zero => rfl
  | succ n ih =>
    rw [run, run, h]
    cases body a with
    | inl a' => exact ih a'
    | inr b => rfl

/-- A round and what follows it. -/
theorem Reaches.head {a'' : α} (h : body a = .inl a') (hrest : Reaches body a' a'') :
    Reaches body a a'' := Relation.ReflTransGen.head h hrest

/-! ## Results -/

/-- The loop ends, with a result. -/
def Gives (body : α → α ⊕ β) (a : α) (b : β) : Prop := ∃ n, run body n a = some b

theorem gives_inl (h : body a = .inl a') : Gives body a b ↔ Gives body a' b := by
  constructor
  · rintro ⟨n, hn⟩
    cases n with
    | zero => exact absurd hn (Option.not_mem_none b)
    | succ n => exact ⟨n, (run_inl h).symm.trans hn⟩
  · rintro ⟨n, hn⟩
    exact ⟨n + 1, (run_inl h).trans hn⟩

theorem gives_inr {b' : β} (h : body a = .inr b) : Gives body a b' ↔ b' = b := by
  constructor
  · rintro ⟨n, hn⟩
    cases n with
    | zero => exact absurd hn (Option.not_mem_none b')
    | succ n => exact Option.some.inj (hn.symm.trans (run_inr h))
  · rintro rfl
    exact ⟨1, run_inr h⟩

theorem Gives.unique {b' : β} (h : Gives body a b) (h' : Gives body a b') : b = b' := by
  obtain ⟨n, hn⟩ := h
  obtain ⟨m, hm⟩ := h'
  have hleft := run_mono (Nat.le_max_left n m) hn
  have hright := run_mono (Nat.le_max_right n m) hm
  exact Option.some.inj (hleft.symm.trans hright)

/-- A round that changes nothing is followed by no other. -/
theorem not_gives_of_stays (h : body a = .inl a) : ¬ Gives body a b := by
  rintro ⟨n, hn⟩
  induction n with
  | zero => exact Option.not_mem_none b hn
  | succ n ih => exact ih ((run_inl h).symm.trans hn)

/-! ## Folds -/

section Fold

variable {γ δ : Type} {f g : δ → γ → Option δ}

/-- A fold over steps with results has one. -/
theorem foldlM_isSome (hf : ∀ d c, ∃ d', f d c = some d') (l : List γ) (d : δ) :
    ∃ d', l.foldlM f d = some d' := by
  induction l generalizing d with
  | nil => exact ⟨d, rfl⟩
  | cons c l ih =>
    obtain ⟨d', hd'⟩ := hf d c
    rw [List.foldlM_cons, hd']
    exact ih d'

/-- Steps with the same results, where they have any, make the same of a list. -/
theorem foldlM_mono (hfg : ∀ d c d', f d c = some d' → g d c = some d') {l : List γ} {d d' : δ}
    (h : l.foldlM f d = some d') : l.foldlM g d = some d' := by
  induction l generalizing d with
  | nil => exact h
  | cons c l ih =>
    rw [List.foldlM_cons] at h ⊢
    obtain ⟨d'', hf, hrest⟩ := Option.bind_eq_some_iff.mp h
    exact Option.bind_eq_some_iff.mpr ⟨d'', hfg d c d'' hf, ih hrest⟩

end Fold

/-! ## Termination -/

/-- The measure falls in every round that goes on. -/
def Falls (body : α → α ⊕ β) (measure : α → ℕ) : Prop :=
  ∀ a a', body a = .inl a' → measure a' < measure a

section Measure

variable {measure : α → ℕ} (hfalls : Falls body measure)

include hfalls

/-- The loop ends. -/
theorem Falls.run_isSome (hn : measure a < n) : (run body n a).isSome := by
  induction n generalizing a with
  | zero => exact absurd hn (Nat.not_lt_zero _)
  | succ n ih =>
    cases hbody : body a with
    | inl a' =>
      have hless := hfalls a a' hbody
      rw [run_inl hbody]
      exact ih (by omega)
    | inr b => exact (congrArg Option.isSome (run_inr hbody)).trans rfl

/-- The result is the one that the steps lead to. -/
theorem Falls.run_eq (hn : measure a < n) (hsteps : Reaches body a a') (hexit : body a' = .inr b) :
    run body n a = some b := by
  induction hsteps using Relation.ReflTransGen.head_induction_on generalizing n with
  | refl =>
    obtain ⟨m, rfl⟩ := Nat.exists_eq_add_of_lt hn
    exact run_inr hexit
  | head hstep _ ih =>
    have hless := hfalls _ _ hstep
    obtain ⟨m, rfl⟩ := Nat.exists_eq_add_of_lt hn
    rw [run_inl hstep]
    exact ih (by omega)

end Measure

/-! ## Traces -/

section Trace

variable {ε : Type*} {e : ε} {emit : α → List ε}

/-- What at most `n` rounds emit, each at its state. -/
def trace (body : α → α ⊕ β) (emit : α → List ε) : ℕ → α → List ε
  | 0, _ => []
  | n + 1, a =>
    emit a ++
      match body a with
      | .inl a' => trace body emit n a'
      | .inr _ => []

theorem trace_inl (h : body a = .inl a') :
    trace body emit (n + 1) a = emit a ++ trace body emit n a' := by
  rw [trace, h]

theorem trace_inr (h : body a = .inr b) : trace body emit (n + 1) a = emit a := by
  rw [trace, h]
  exact List.append_nil _

/-- With enough rounds it is what is emitted at the states that the loop gets to. -/
theorem Falls.mem_trace {measure : α → ℕ} (hfalls : Falls body measure) (hn : measure a < n) :
    e ∈ trace body emit n a ↔ ∃ a', Reaches body a a' ∧ e ∈ emit a' := by
  induction n generalizing a with
  | zero => exact absurd hn (Nat.not_lt_zero _)
  | succ n ih =>
    cases hbody : body a with
    | inl a₁ =>
      have hless := hfalls a a₁ hbody
      rw [trace_inl hbody, List.mem_append, ih (by omega)]
      constructor
      · intro h
        rcases h with hnow | ⟨a', hsteps, hlater⟩
        · exact ⟨a, .refl, hnow⟩
        · exact ⟨a', hsteps.head hbody, hlater⟩
      · rintro ⟨a', hsteps, he⟩
        rcases hsteps.cases_head with heq | ⟨a₂, hstep, hrest⟩
        · exact .inl (heq ▸ he)
        · have heq : a₁ = a₂ := Sum.inl.inj (hbody.symm.trans hstep)
          exact .inr ⟨a', heq ▸ hrest, he⟩
    | inr b =>
      rw [trace_inr hbody]
      constructor
      · exact fun he => ⟨a, .refl, he⟩
      · rintro ⟨a', hsteps, he⟩
        rcases hsteps.cases_head with heq | ⟨a₂, hstep, -⟩
        · exact heq ▸ he
        · exact absurd (hbody.symm.trans hstep) Sum.inr_ne_inl

end Trace

/-! ## Invariants -/

/-- What every round keeps, and what the rounds with a result make of it. -/
theorem run_invariant (inv : α → Prop) (post : β → Prop)
    (hnext : ∀ a a', inv a → body a = .inl a' → inv a')
    (hexit : ∀ a b, inv a → body a = .inr b → post b)
    (ha : inv a) (hrun : run body n a = some b) : post b := by
  induction n generalizing a with
  | zero => exact absurd hrun (Option.not_mem_none b)
  | succ n ih =>
    cases hbody : body a with
    | inl a' =>
      rw [run_inl hbody] at hrun
      exact ih (hnext a a' ha hbody) hrun
    | inr b' =>
      rw [run_inr hbody] at hrun
      exact Option.some.inj hrun ▸ hexit a b' ha hbody

/-- The loop ends where the measure falls in the rounds that keep the invariant. -/
theorem run_isSome_of_invariant (inv : α → Prop) (measure : α → ℕ)
    (hnext : ∀ a a', inv a → body a = .inl a' → inv a' ∧ measure a' < measure a)
    (ha : inv a) (hn : measure a < n) : (run body n a).isSome := by
  induction n generalizing a with
  | zero => exact absurd hn (Nat.not_lt_zero _)
  | succ n ih =>
    cases hbody : body a with
    | inl a' =>
      obtain ⟨ha', hless⟩ := hnext a a' ha hbody
      rw [run_inl hbody]
      exact ih ha' (by omega)
    | inr b => exact (congrArg Option.isSome (run_inr hbody)).trans rfl

/-- A loop over a list whose rounds all have results. -/
theorem mapM_some {α β : Type*} {f : α → Option β} {g : α → β} {l : List α}
    (h : ∀ a ∈ l, f a = some (g a)) : l.mapM f = some (l.map g) := by
  induction l with
  | nil => rfl
  | cons a l ih =>
    rw [List.mapM_cons, h a List.mem_cons_self, ih fun a ha => h a (List.mem_cons_of_mem _ ha)]
    rfl

end Loop
