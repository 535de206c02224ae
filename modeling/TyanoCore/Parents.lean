import TyanoCore.Within

/-!
# The loops over parents

`getTopParent`, the cycle check of containers and the update of the weights climb from parent to
parent.  What they see depends only on the containers around the place where they begin; in worlds
that are not too deep they reach the top.
-/

namespace TyanoCore

variable {srv : Server} {w w' : World}

/-- A container and those it lies within. -/
def World.Around (w : World) (j k : ItemId) : Prop := k = j ∨ w.Within (.container k) j

theorem World.Around.up {i j k : ItemId} (hi : (w.item i).parent = some (.container j))
    (h : w.Around j k) : w.Within (.container k) i := by
  rcases h with rfl | h
  · exact .thing hi
  · exact .nested hi h

theorem World.Within.around {i j k : ItemId} (hi : (w.item i).parent = some (.container j))
    (h : w.Within (.container k) i) : w.Around j k := by
  cases h with
  | thing h =>
    rw [hi] at h
    exact .inl (Cylinder.container.inj (Option.some.inj h)).symm
  | nested h hj =>
    rw [hi] at h
    cases h
    exact .inr hj

theorem World.Within.of_parents {c : Cylinder} {i : ItemId}
    (hparent : ∀ k, (w'.item k).parent = (w.item k).parent) (h : w.Within c i) :
    w'.Within c i := by
  induction h with
  | thing h => exact .thing ((hparent _).trans h)
  | nested h _ ih => exact .nested ((hparent _).trans h) ih

/-- Nothing above an item changes when another item is moved that is not around it. -/
theorem World.Within.of_moved {c : Cylinder} {i x : ItemId}
    (hparent : ∀ k, k ≠ i → (w'.item k).parent = (w.item k).parent) (hi : ¬ w.Around x i)
    (h : w'.Within c x) : w.Within c x := by
  induction h with
  | @thing x h =>
    have hx : x ≠ i := fun heq => hi (.inl heq.symm)
    exact .thing ((hparent x hx).symm.trans h)
  | @nested x y h _ ih =>
    have hx : x ≠ i := fun heq => hi (.inl heq.symm)
    have hup := (hparent x hx).symm.trans h
    exact .nested hup (ih fun hy => hi (.inr (hy.up hup)))

/-! ## Worlds that look the same from below -/

theorem topParentLoop_congr (htile : ∀ p, (w'.player p).tile = (w.player p).tile) {n : ℕ}
    {prev : Option Cylinder} {aux : Cylinder}
    (hparent : ∀ j k, aux = .container j → w.Around j k →
      (w'.item k).parent = (w.item k).parent) :
    w'.topParentLoop n prev aux = w.topParentLoop n prev aux := by
  induction n generalizing prev aux with
  | zero => rfl
  | succ n ih =>
    have haux : w'.getParent aux = w.getParent aux := by
      cases aux with
      | container j => exact hparent j j rfl (.inl rfl)
      | player p => simp only [World.getParent, htile]
      | tile t => rfl
    unfold World.topParentLoop
    rw [haux]
    split
    · rfl
    · next parent hup =>
      refine ih fun j k hj hk => ?_
      subst hj
      cases aux with
      | container i => exact hparent i k rfl (.inr (hk.up hup))
      | player p =>
        cases ht : (w.player p).tile with
        | none => simp [World.getParent, ht] at hup
        | some t => simp [World.getParent, ht] at hup
      | tile t => cases hup

/-- The top parent of an item depends on the containers around it. -/
theorem getTopParent_congr (htile : ∀ p, (w'.player p).tile = (w.player p).tile) (n : ℕ)
    {i : ItemId} (hcontainer : (w'.item i).isContainer = (w.item i).isContainer)
    (hself : (w'.item i).parent = (w.item i).parent)
    (hparent : ∀ k, w.Within (.container k) i → (w'.item k).parent = (w.item k).parent) :
    w'.getTopParent n i = w.getTopParent n i := by
  unfold World.getTopParent
  dsimp only
  rw [hcontainer, hself]
  split
  · rfl
  · next parent hi =>
    rw [topParentLoop_congr htile]
    rintro j k rfl hk
    exact hparent k (hk.up hi)

theorem getParentContainer_eq_some {j k : ItemId} :
    w.getParentContainer j = some k ↔ (w.item j).parent = some (.container k) := by
  unfold World.getParentContainer
  split
  · next k' hk' =>
    rw [hk', Option.some.injEq, Option.some.injEq, Cylinder.container.injEq]
  · next hnot =>
    constructor
    · intro h
      cases h
    · intro h
      exact absurd h (hnot k)

/-- The weights that are remembered change around the container only. -/
theorem updateItemWeight_totalWeight (n : ℕ) {j k : ItemId} (diff : ℤ) (h : ¬ w.Around j k) :
    (w.updateItemWeight n j diff).totalWeight k = w.totalWeight k := by
  induction n generalizing w j with
  | zero => rfl
  | succ n ih =>
    have hkj : k ≠ j := fun heq => h (.inl heq)
    unfold World.updateItemWeight
    dsimp only
    split
    · exact if_neg hkj
    · next parent hp =>
      have hup := getParentContainer_eq_some.mp hp
      refine (ih ?_).trans (if_neg hkj)
      rintro (rfl | hk)
      · exact h (.inr (.thing hup))
      · exact h (.inr (.nested hup (hk.of_parents fun _ => by rfl)))

/-! ## Worlds that are not too deep -/

/-- Containers are nested less than `n` deep. -/
def World.Shallow (w : World) (n : ℕ) : Prop :=
  ∃ rank : ItemId → ℕ, (∀ i j, (w.item i).parent = some (.container j) → rank j < rank i) ∧
    ∀ i, rank i < n

/-- Who carries something stands on a tile. -/
def World.Standing (w : World) : Prop :=
  ∀ p i, (w.item i).parent = some (.player p) → (w.player p).tile ≠ none

theorem World.Shallow.acyclic {n : ℕ} (h : w.Shallow n) : w.Acyclic := by
  obtain ⟨rank, hrank, -⟩ := h
  exact .of_rank rank hrank

/-- The loop ends below the tile on which the player stands. -/
theorem topParentLoop_player {p : PlayerId} (hp : (w.player p).tile ≠ none) {n : ℕ}
    (prev : Option Cylinder) : w.topParentLoop (n + 1) prev (.player p) = .player p := by
  obtain ⟨t, ht⟩ := Option.ne_none_iff_exists'.mp hp
  simp only [World.topParentLoop, World.getParent, ht, Option.map_some]
  cases n with
  | zero => rfl
  | succ n => rfl

theorem topParentLoop_within {p : PlayerId} (hp : (w.player p).tile ≠ none)
    {rank : ItemId → ℕ} (hrank : ∀ i j, (w.item i).parent = some (.container j) → rank j < rank i)
    {j : ItemId} (hj : w.Within (.player p) j) {n : ℕ} (hn : rank j + 2 ≤ n)
    (prev : Option Cylinder) : w.topParentLoop n prev (.container j) = .player p := by
  induction hj generalizing n prev with
  | @thing j hj =>
    obtain ⟨n, rfl⟩ : ∃ m, n = m + 2 := ⟨n - 2, by omega⟩
    have hup : w.getParent (.container j) = some (.player p) := hj
    unfold World.topParentLoop
    rw [hup]
    exact topParentLoop_player hp _
  | @nested j k hj _ ih =>
    obtain ⟨n, rfl⟩ : ∃ m, n = m + 1 := ⟨n - 1, by omega⟩
    have hup : w.getParent (.container j) = some (.container k) := hj
    have hlt := hrank j k hj
    unfold World.topParentLoop
    rw [hup]
    exact ih (by omega) _

/-- What a player carries has him as its top parent. -/
theorem getTopParent_within {n : ℕ} (hshallow : w.Shallow n) (hstanding : w.Standing)
    {p : PlayerId} {i : ItemId} (hi : w.Within (.player p) i) :
    w.getTopParent n i = some (.player p) := by
  obtain ⟨rank, hrank, hlt⟩ := hshallow
  have hp : (w.player p).tile ≠ none := by
    induction hi with
    | thing hi => exact hstanding p _ hi
    | nested _ _ ih => exact ih
  have hn := hlt i
  unfold World.getTopParent
  dsimp only
  cases hi with
  | thing hi =>
    obtain ⟨n, rfl⟩ : ∃ m, n = m + 1 := ⟨n - 1, by omega⟩
    rw [hi]
    exact congrArg some (topParentLoop_player hp _)
  | @nested _ j hi hj =>
    have hji := hrank i j hi
    rw [hi]
    exact congrArg some (topParentLoop_within hp hrank hj (by omega) _)

/-- The cycle check finds every container around. -/
theorem isInside_within {n : ℕ} (hshallow : w.Shallow n) {j k : ItemId}
    (h : w.Within (.container k) j) : w.isInside k n (w.item j).parent = true := by
  obtain ⟨rank, hrank, hlt⟩ := hshallow
  have hloop : ∀ m, rank j ≤ m → w.isInside k m (w.item j).parent = true := by
    induction h with
    | @thing j hj =>
      intro m hm
      have hkj := hrank j k hj
      obtain ⟨m, rfl⟩ : ∃ m', m = m' + 1 := ⟨m - 1, by omega⟩
      simp only [hj, World.isInside, decide_true, Bool.true_or]
    | @nested j y hj _ ih =>
      intro m hm
      have hyj := hrank j y hj
      obtain ⟨m, rfl⟩ : ∃ m', m = m' + 1 := ⟨m - 1, by omega⟩
      simp only [hj, World.isInside, World.getParent, ih m (by omega), Bool.or_true]
  exact hloop n (le_of_lt (hlt j))

end TyanoCore
