import Mathlib.Data.Finset.Card
import Mathlib.Data.List.Basic

/-!
# Searching a graph level by level

A search with a queue marks every node that it queues.  Whatever the order in which the neighbours
of a node are queued, the nodes leave the queue level by level, so the first goal that is met is
one of the nearest.
-/

namespace LevelSearch

variable {α : Type*}

structure State (α : Type*) where
  queue : List α
  marked : Finset α

section Definitions

variable [DecidableEq α]

/-- Queues a node that is not marked. -/
def push (s : State α) (b : α) : State α :=
  if b ∈ s.marked then s else ⟨s.queue ++ [b], insert b s.marked⟩

/-- Queues the neighbours of a node. -/
def expand (next : α → List α) (s : State α) (a : α) : State α := (next a).foldl push s

/-- Searches for `n` nodes; `none` when there are more, `some none` when there is no goal. -/
def run (next : α → List α) (goal : α → Bool) : ℕ → State α → Option (Option α)
  | _, ⟨[], _⟩ => some none
  | 0, ⟨_ :: _, _⟩ => none
  | n + 1, ⟨a :: queue, marked⟩ =>
    if goal a then some (some a) else run next goal n (expand next ⟨queue, marked⟩ a)

end Definitions

/-- A node is `n` steps from a source, past the blocked nodes. -/
inductive Walk (next : α → List α) (sources : List α) (blocked : Finset α) : ℕ → α → Prop where
  | source {a : α} : a ∈ sources → a ∉ blocked → Walk next sources blocked 0 a
  | step {n : ℕ} {a b : α} : Walk next sources blocked n a → b ∈ next a → b ∉ blocked →
    Walk next sources blocked (n + 1) b

variable {next : α → List α} {goal : α → Bool} {sources : List α} {blocked : Finset α}

theorem Walk.not_blocked {n : ℕ} {a : α} (h : Walk next sources blocked n a) : a ∉ blocked := by
  cases h with
  | source _ h => exact h
  | step _ _ h => exact h

/-- The order of sources and neighbours does not matter. -/
theorem Walk.congr {next' : α → List α} {sources' : List α}
    (hnext : ∀ a b, b ∈ next a → b ∈ next' a) (hsources : ∀ a ∈ sources, a ∈ sources') {n : ℕ}
    {a : α} (h : Walk next sources blocked n a) : Walk next' sources' blocked n a := by
  induction h with
  | source ha hb => exact .source (hsources _ ha) hb
  | step _ hab hb ih => exact .step ih (hnext _ _ hab) hb

/-! ## What expanding a node does -/

section Push

variable [DecidableEq α]

/-- The nodes that come to the queue are those that were not marked. -/
theorem foldl_push_spec (bs : List α) (s : State α) :
    ∃ new, (bs.foldl push s).queue = s.queue ++ new ∧
      (∀ b, b ∈ new ↔ b ∈ bs ∧ b ∉ s.marked) ∧
      ∀ b, b ∈ (bs.foldl push s).marked ↔ b ∈ s.marked ∨ b ∈ bs := by
  induction bs generalizing s with
  | nil => exact ⟨[], by simp⟩
  | cons c bs ih =>
    rw [List.foldl_cons]
    by_cases hc : c ∈ s.marked
    · have hpush : push s c = s := if_pos hc
      obtain ⟨new, hqueue, hnew, hmarked⟩ := ih s
      rw [hpush]
      refine ⟨new, hqueue, fun b => ?_, fun b => ?_⟩
      · rw [hnew, List.mem_cons]
        constructor
        · exact fun h => ⟨.inr h.1, h.2⟩
        · rintro ⟨rfl | hb, hnot⟩
          · exact absurd hc hnot
          · exact ⟨hb, hnot⟩
      · rw [hmarked, List.mem_cons]
        constructor
        · exact Or.imp_right .inr
        · rintro (hb | rfl | hb)
          · exact .inl hb
          · exact .inl hc
          · exact .inr hb
    · have hpush : push s c = ⟨s.queue ++ [c], insert c s.marked⟩ := if_neg hc
      obtain ⟨new, hqueue, hnew, hmarked⟩ := ih (push s c)
      rw [hpush] at hqueue hnew hmarked ⊢
      refine ⟨c :: new, ?_, fun b => ?_, fun b => ?_⟩
      · rw [hqueue, List.append_assoc]
        rfl
      · rw [List.mem_cons, hnew, List.mem_cons, Finset.mem_insert, not_or]
        constructor
        · rintro (rfl | ⟨hb, -, hnot⟩)
          · exact ⟨.inl rfl, hc⟩
          · exact ⟨.inr hb, hnot⟩
        · rintro ⟨rfl | hb, hnot⟩
          · exact .inl rfl
          · by_cases hbc : b = c
            · exact .inl hbc
            · exact .inr ⟨hb, hbc, hnot⟩
      · rw [hmarked, List.mem_cons, Finset.mem_insert]
        tauto

/-- To expand several nodes is to queue the neighbours of all of them. -/
theorem foldl_expand (as : List α) (s : State α) :
    as.foldl (expand next) s = (as.flatMap next).foldl push s := by
  rw [List.foldl_flatMap]
  rfl

end Push

/-! ## Levels -/

/-- The search stands on a level: of the queue, `current` is what is left of it and `later` belongs
to the next one; all other nodes up to this level are done. -/
structure OnLevel (next : α → List α) (goal : α → Bool) (sources : List α) (blocked : Finset α)
    (level : ℕ) (current later : List α) (marked : Finset α) : Prop where
  mem_marked : ∀ a, a ∈ marked ↔
    a ∈ blocked ∨ (∃ n ≤ level, Walk next sources blocked n a) ∨ a ∈ later
  current_walk : ∀ a ∈ current, Walk next sources blocked level a
  current_least : ∀ a ∈ current, ∀ n < level, ¬ Walk next sources blocked n a
  later_walk : ∀ a ∈ later, Walk next sources blocked (level + 1) a
  later_least : ∀ a ∈ later, ∀ n ≤ level, ¬ Walk next sources blocked n a
  done : ∀ a n, n ≤ level → Walk next sources blocked n a → a ∉ current →
    goal a = false ∧ ∀ b ∈ next a, b ∈ marked

variable {level : ℕ} {current later : List α} {marked : Finset α}

/-- The search begins on the level of the sources. -/
theorem onLevel_sources (hsources : ∀ a ∈ sources, a ∉ blocked)
    (hmarked : ∀ a, a ∈ marked ↔ a ∈ blocked ∨ a ∈ sources) :
    OnLevel next goal sources blocked 0 sources [] marked := by
  have hzero (a : α) : (∃ n ≤ 0, Walk next sources blocked n a) ↔ a ∈ sources := by
    constructor
    · rintro ⟨n, hn, hwalk⟩
      obtain rfl := Nat.le_zero.mp hn
      cases hwalk with
      | source ha _ => exact ha
    · exact fun ha => ⟨0, le_rfl, .source ha (hsources a ha)⟩
  constructor
  · intro a
    rw [hmarked, hzero]
    simp only [List.not_mem_nil, or_false]
  · exact fun a ha => .source ha (hsources a ha)
  · exact fun a _ n hn => absurd hn (Nat.not_lt_zero n)
  · exact fun a ha => absurd ha List.not_mem_nil
  · exact fun a ha => absurd ha List.not_mem_nil
  · intro a n hn hwalk hnot
    exact absurd ((hzero a).mp ⟨n, hn, hwalk⟩) hnot

/-- A level is left for the next one. -/
theorem OnLevel.shift (h : OnLevel next goal sources blocked level [] later marked) :
    OnLevel next goal sources blocked (level + 1) later [] marked := by
  have hnext (a : α) : (∃ n ≤ level + 1, Walk next sources blocked n a) ↔
      (∃ n ≤ level, Walk next sources blocked n a) ∨ a ∈ later := by
    constructor
    · rintro ⟨n, hn, hwalk⟩
      rcases Nat.le_succ_iff.mp hn with hn | rfl
      · exact .inl ⟨n, hn, hwalk⟩
      · -- the step before is done, so its neighbours are marked
        cases hwalk with
        | @step _ b _ hb hab hblocked =>
          have hmem := (h.done b level le_rfl hb List.not_mem_nil).2 a hab
          exact ((h.mem_marked a).mp hmem).resolve_left hblocked
    · rintro (⟨n, hn, hwalk⟩ | ha)
      · exact ⟨n, Nat.le_succ_of_le hn, hwalk⟩
      · exact ⟨level + 1, le_rfl, h.later_walk a ha⟩
  constructor
  · intro a
    rw [h.mem_marked, hnext]
    simp only [List.not_mem_nil, or_false]
  · exact h.later_walk
  · exact fun a ha n hn => h.later_least a ha n (Nat.le_of_lt_succ hn)
  · exact fun a ha => absurd ha List.not_mem_nil
  · exact fun a ha => absurd ha List.not_mem_nil
  · intro a n hn hwalk hnot
    obtain ⟨m, hm, hwalk⟩ := ((hnext a).mp ⟨n, hn, hwalk⟩).resolve_right hnot
    exact h.done a m hm hwalk List.not_mem_nil

/-- With nothing left in the queue no goal can be reached. -/
theorem OnLevel.exhausted (h : OnLevel next goal sources blocked level [] [] marked) {n : ℕ} {a : α}
    (ha : Walk next sources blocked n a) : goal a = false := by
  obtain hn | hn := Nat.le_or_le n level
  · exact (h.done a n hn ha List.not_mem_nil).1
  · -- the levels that follow are empty as well
    obtain ⟨k, rfl⟩ := Nat.exists_eq_add_of_le hn
    have hlevel : OnLevel next goal sources blocked (level + k) [] [] marked := by
      clear ha hn
      induction k with
      | zero => exact h
      | succ k ih => exact ih.shift
    exact (hlevel.done a _ le_rfl ha List.not_mem_nil).1

/-! ## What a run finds -/

/-- A goal that no walk reaches in fewer steps. -/
def IsNearest (next : α → List α) (goal : α → Bool) (sources : List α) (blocked : Finset α)
    (a : α) (n : ℕ) : Prop :=
  goal a = true ∧ Walk next sources blocked n a ∧
    ∀ b m, Walk next sources blocked m b → goal b = true → n ≤ m

/-- What a search has to answer: one of the nearest goals, or nothing when there is none. -/
def IsAnswer (next : α → List α) (goal : α → Bool) (sources : List α) (blocked : Finset α) :
    Option α → Prop
  | some a => ∃ n, IsNearest next goal sources blocked a n
  | none => ∀ a n, Walk next sources blocked n a → goal a = false

/-- The node at the front of a level, when it is a goal, is one of the nearest. -/
theorem OnLevel.isNearest {a : α}
    (h : OnLevel next goal sources blocked level (a :: current) later marked)
    (ha : goal a = true) : IsNearest next goal sources blocked a level := by
  refine ⟨ha, h.current_walk a List.mem_cons_self, fun b m hb hgoal => ?_⟩
  by_contra hm
  have hlt : m < level := Nat.lt_of_not_le hm
  -- a node of an earlier level is done, so it is no goal
  have hcurrent : b ∉ a :: current := fun hmem => h.current_least b hmem m hlt hb
  have := (h.done b m hlt.le hb hcurrent).1
  rw [hgoal] at this
  exact Bool.noConfusion this

/-! ## One step and a run -/

variable [DecidableEq α]

/-- A node that is no goal is taken from the level and expanded. -/
theorem OnLevel.expand {a : α} (h : OnLevel next goal sources blocked level (a :: current) later
    marked) (ha : goal a = false) :
    ∃ later', (LevelSearch.expand next ⟨current ++ later, marked⟩ a).queue = current ++ later' ∧
      OnLevel next goal sources blocked level current later'
        (LevelSearch.expand next ⟨current ++ later, marked⟩ a).marked := by
  obtain ⟨new, hqueue, hnew, hmarked⟩ := foldl_push_spec (next a) ⟨current ++ later, marked⟩
  have hwalk := h.current_walk a List.mem_cons_self
  refine ⟨later ++ new, by rw [LevelSearch.expand, hqueue, List.append_assoc], ?_⟩
  change ∀ b, b ∈ new ↔ b ∈ next a ∧ b ∉ marked at hnew
  change ∀ b, b ∈ (LevelSearch.expand next ⟨current ++ later, marked⟩ a).marked ↔
    b ∈ marked ∨ b ∈ next a at hmarked
  have hfresh (b : α) (hb : b ∈ new) : b ∈ next a ∧ b ∉ marked := (hnew b).mp hb
  constructor
  · intro b
    have hold := h.mem_marked b
    rw [hmarked, List.mem_append, hnew]
    constructor
    · intro hb
      by_cases hmem : b ∈ marked
      · exact (hold.mp hmem).imp_right (Or.imp_right .inl)
      · exact .inr (.inr (.inr ⟨hb.resolve_left hmem, hmem⟩))
    · rintro (hb | hb | hb | ⟨hb, -⟩)
      · exact .inl (hold.mpr (.inl hb))
      · exact .inl (hold.mpr (.inr (.inl hb)))
      · exact .inl (hold.mpr (.inr (.inr hb)))
      · exact .inr hb
  · exact fun b hb => h.current_walk b (List.mem_cons_of_mem a hb)
  · exact fun b hb => h.current_least b (List.mem_cons_of_mem a hb)
  · intro b hb
    rcases List.mem_append.mp hb with hb | hb
    · exact h.later_walk b hb
    · obtain ⟨hab, hnot⟩ := hfresh b hb
      exact .step hwalk hab fun hblocked => hnot ((h.mem_marked b).mpr (.inl hblocked))
  · intro b hb
    rcases List.mem_append.mp hb with hb | hb
    · exact h.later_least b hb
    · intro n hn hn'
      exact (hfresh b hb).2 ((h.mem_marked b).mpr (.inr (.inl ⟨n, hn, hn'⟩)))
  · intro b n hn hb hnot
    by_cases hba : b = a
    · subst hba
      exact ⟨ha, fun c hc => (hmarked c).mpr (.inr hc)⟩
    · have hcons : b ∉ a :: current := by simp [hba, hnot]
      obtain ⟨hgoal, hdone⟩ := h.done b n hn hb hcons
      exact ⟨hgoal, fun c hc => (hmarked c).mpr (.inl (hdone c hc))⟩

/-- A run on an empty queue has found nothing, and there is nothing to find. -/
theorem OnLevel.isAnswer_nil (h : OnLevel next goal sources blocked level [] [] marked) (n : ℕ)
    {result : Option α} (hrun : run next goal n ⟨[], marked⟩ = some result) :
    IsAnswer next goal sources blocked result := by
  simp only [run] at hrun
  obtain rfl := Option.some.inj hrun
  exact fun a k ha => h.exhausted ha

/-- A run that ends has found the answer. -/
theorem run_spec (n : ℕ) (h : OnLevel next goal sources blocked level current later marked)
    {result : Option α} (hrun : run next goal n ⟨current ++ later, marked⟩ = some result) :
    IsAnswer next goal sources blocked result := by
  induction n generalizing level current later marked with
  | zero =>
    cases current with
    | nil =>
      cases later with
      | nil => exact h.isAnswer_nil 0 hrun
      | cons b later => simp [run] at hrun
    | cons a current => simp [run] at hrun
  | succ n ih =>
    -- a level that has ended is left first, so that the queue starts on its level
    have hcons {level : ℕ} {a : α} {current later : List α}
        (h : OnLevel next goal sources blocked level (a :: current) later marked)
        (hrun : run next goal (n + 1) ⟨a :: (current ++ later), marked⟩ = some result) :
        IsAnswer next goal sources blocked result := by
      rw [run] at hrun
      split at hrun
      · next ha =>
        obtain rfl := Option.some.inj hrun
        exact ⟨level, h.isNearest ha⟩
      · next ha =>
        obtain ⟨later', hqueue, hlevel⟩ := h.expand (Bool.eq_false_of_not_eq_true ha)
        apply ih hlevel
        rw [← hqueue]
        exact hrun
    cases current with
    | cons a current => exact hcons h hrun
    | nil =>
      cases later with
      | nil => exact h.isAnswer_nil (n + 1) hrun
      | cons b later =>
        apply hcons h.shift
        rw [List.append_nil]
        exact hrun

/-! ## A run ends -/

section Fuel

variable {nodes : Finset α}

/-- The steps that a search can still take among the given nodes. -/
def potential (nodes : Finset α) (s : State α) : ℕ := s.queue.length + (nodes \ s.marked).card

theorem potential_push (s : State α) {b : α} (hb : b ∈ nodes) :
    potential nodes (push s b) = potential nodes s := by
  unfold push
  split
  · rfl
  · next hnot =>
    have hmem : b ∈ nodes \ s.marked := Finset.mem_sdiff.mpr ⟨hb, hnot⟩
    have hcard := Finset.card_erase_add_one hmem
    have herase : nodes \ insert b s.marked = (nodes \ s.marked).erase b :=
      Finset.sdiff_insert nodes s.marked b
    unfold potential
    rw [herase, List.length_append, List.length_singleton]
    omega

theorem potential_foldl_push (bs : List α) (s : State α) (hbs : ∀ b ∈ bs, b ∈ nodes) :
    potential nodes (bs.foldl push s) = potential nodes s := by
  induction bs generalizing s with
  | nil => rfl
  | cons b bs ih =>
    rw [List.foldl_cons, ih _ fun c hc => hbs c (List.mem_cons_of_mem b hc)]
    exact potential_push s (hbs b List.mem_cons_self)

/-- Every step lowers the potential. -/
theorem run_ne_none (hclosed : ∀ a, ∀ b ∈ next a, b ∈ nodes) (n : ℕ) (s : State α)
    (hn : potential nodes s ≤ n) : run next goal n s ≠ none := by
  induction n generalizing s with
  | zero =>
    obtain ⟨queue, marked⟩ := s
    cases queue with
    | nil => simp [run]
    | cons a queue => simp [potential] at hn
  | succ n ih =>
    obtain ⟨queue, marked⟩ := s
    cases queue with
    | nil => simp [run]
    | cons a queue =>
      rw [run]
      split
      · exact Option.some_ne_none _
      · apply ih
        rw [expand, potential_foldl_push _ _ (hclosed a)]
        simp only [potential, List.length_cons] at hn ⊢
        omega

end Fuel

end LevelSearch
