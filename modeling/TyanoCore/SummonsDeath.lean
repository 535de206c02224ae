import Mathlib.Data.Set.Card
import Mathlib.Order.CompletePartialOrder
import TyanoCore.Summons

/-!
# Killing summons

`killSummons` kills the summons of a creature, those of a summon that dies and leaves the world, and
so on, and nothing else; who is killed does not depend on the order of the lists.
-/

namespace TyanoCore.Summons

variable {C : Type*}

/-- What dies leaves the world. -/
def Surroundings.leaves {World : Type*} (env : Surroundings C World) (c : C) : Bool :=
  env.dies c && env.testRemoveCreature c

/-- The monsters on a list, the summons of those of them that are alive and leave the world when
they die, and so on. -/
inductive Reached (leaves : C → Bool) (w : World C) (list : List C) : C → Prop where
  | listed {m : C} : m ∈ list → Reached leaves w list m
  | summon {x m : C} : Reached leaves w list x → w.isAlive x = true → leaves x = true →
      m ∈ w.summons x → Reached leaves w list m

/-- Those that are reached. -/
def reached (leaves : C → Bool) (w : World C) (list : List C) : Set C :=
  {m | Reached leaves w list m}

open Classical in
/-- The world after some creatures have been killed and let go. -/
noncomputable def World.wiped (leaves : C → Bool) (w : World C) (gone : Set C) : World C where
  isInWorld c :=
    if c ∈ gone ∧ w.isAlive c = true ∧ leaves c = true then false else w.isInWorld c
  health c := if c ∈ gone ∧ w.isAlive c = true then 0 else w.health c
  _master c := if c ∈ gone then none else w._master c
  summons c := (w.summons c).filter (· ∉ gone)

variable {leaves : C → Bool} {w : World C} {gone gone' : Set C} {list list' : List C}

theorem isAlive_wiped {c : C} :
    (w.wiped leaves gone).isAlive c = true ↔ w.isAlive c = true ∧ c ∉ gone := by
  simp only [World.isAlive, World.wiped, Bool.and_eq_true, decide_eq_true_eq]
  by_cases hgone : c ∈ gone
  · by_cases halive : w.isInWorld c = true ∧ 0 < w.health c
    · simp [hgone, halive]
    · simp [hgone, halive]
  · simp [hgone]

theorem mem_summons_wiped {m c : C} :
    m ∈ (w.wiped leaves gone).summons c ↔ m ∈ w.summons c ∧ m ∉ gone := by
  simp only [World.wiped, List.mem_filter, decide_eq_true_eq]

open Classical in
theorem isInWorld_wiped (c : C) : (w.wiped leaves gone).isInWorld c =
    if c ∈ gone ∧ w.isAlive c = true ∧ leaves c = true then false else w.isInWorld c := rfl

open Classical in
theorem health_wiped (c : C) : (w.wiped leaves gone).health c =
    if c ∈ gone ∧ w.isAlive c = true then 0 else w.health c := rfl

open Classical in
theorem master_wiped (c : C) :
    (w.wiped leaves gone)._master c = if c ∈ gone then none else w._master c := rfl

open Classical in
theorem wiped_wiped :
    (w.wiped leaves gone).wiped leaves gone' = w.wiped leaves (gone ∪ gone') := by
  ext1
  · funext c
    rw [isInWorld_wiped, isInWorld_wiped, isInWorld_wiped]
    simp only [isAlive_wiped, Set.mem_union]
    by_cases hc : c ∈ gone
    · simp [hc]
    · simp [hc]
  · funext c
    rw [health_wiped, health_wiped, health_wiped]
    simp only [isAlive_wiped, Set.mem_union]
    by_cases hc : c ∈ gone
    · simp [hc]
    · simp [hc]
  · funext c
    rw [master_wiped, master_wiped, master_wiped]
    simp only [Set.mem_union]
    by_cases hc : c ∈ gone
    · simp [hc]
    · simp [hc]
  · funext c
    simp only [World.wiped, List.filter_filter, Set.mem_union, not_or, Bool.decide_and]
    exact List.filter_congr fun m _ => Bool.and_comm _ _

theorem wiped_empty : w.wiped leaves ∅ = w := by
  simp [World.wiped]

theorem Tidy.wiped {kinds : Kinds C} (h : Tidy kinds w) : Tidy kinds (w.wiped leaves gone) where
  isMonster hmem := h.isMonster (mem_summons_wiped.mp hmem).1
  master {m c} hmem := by
    obtain ⟨hmem, hgone⟩ := mem_summons_wiped.mp hmem
    exact (if_neg hgone).trans (h.master hmem)
  nodup c := (h.nodup c).filter _

theorem pending_wiped {m : C} (hm : Pending (w.wiped leaves gone) m) : Pending w m ∧ m ∉ gone := by
  obtain ⟨c, hmaster, hnot⟩ := hm
  simp only [World.wiped] at hmaster
  split_ifs at hmaster with hgone
  refine ⟨⟨c, hmaster, fun hmem => hnot ?_⟩, hgone⟩
  exact mem_summons_wiped.mpr ⟨hmem, hgone⟩

/-! ## Who is reached -/

theorem Reached.mono {w' : World C} (halive : ∀ c, w'.isAlive c = true → w.isAlive c = true)
    (hsummons : ∀ c, w'.summons c ⊆ w.summons c)
    (hlist : ∀ m ∈ list', Reached leaves w list m) {m : C} (h : Reached leaves w' list' m) :
    Reached leaves w list m := by
  induction h with
  | listed hm => exact hlist _ hm
  | summon _ hx hleaves hm ih => exact .summon ih (halive _ hx) hleaves (hsummons _ hm)

/-- Those reached from a list, after those reached from another one are gone. -/
theorem reached_append : reached leaves w (list ++ list') =
    reached leaves w list ∪
      reached leaves (w.wiped leaves (reached leaves w list)) list' := by
  ext m
  constructor
  · intro h
    induction h with
    | listed hm => exact (List.mem_append.mp hm).imp .listed .listed
    | @summon x m _ hx hleaves hm ih =>
      by_cases hmgone : Reached leaves w list m
      · exact .inl hmgone
      by_cases hxgone : Reached leaves w list x
      · exact .inl (.summon hxgone hx hleaves hm)
      · exact .inr (.summon (ih.resolve_left hxgone) (isAlive_wiped.mpr ⟨hx, hxgone⟩) hleaves
          (mem_summons_wiped.mpr ⟨hm, hmgone⟩))
  · rintro (h | h)
    · exact h.mono (fun _ hc => hc) (fun _ => List.Subset.refl _)
        fun m hm => .listed (List.mem_append_left _ hm)
    · exact h.mono (fun _ hc => (isAlive_wiped.mp hc).1)
        (fun _ _ hm => (mem_summons_wiped.mp hm).1)
        fun m hm => .listed (List.mem_append_right _ hm)

/-- A monster that dies and leaves, and those reached from its list after that. -/
theorem reached_singleton_of_leaves {x : C} (hx : w.isAlive x = true) (hleaves : leaves x = true) :
    reached leaves w [x] =
      {x} ∪ reached leaves (w.wiped leaves {x}) ((w.wiped leaves {x}).summons x) := by
  ext m
  constructor
  · intro h
    induction h with
    | listed hm => exact .inl (List.mem_singleton.mp hm)
    | @summon y m _ hy hleavesy hm ih =>
      by_cases hmx : m = x
      · exact .inl hmx
      have hlisted : m ∈ (w.wiped leaves {x}).summons y := mem_summons_wiped.mpr ⟨hm, hmx⟩
      by_cases hyx : y = x
      · rw [hyx] at hlisted
        exact .inr (.listed hlisted)
      · exact .inr (.summon (ih.resolve_left hyx) (isAlive_wiped.mpr ⟨hy, hyx⟩) hleavesy hlisted)
  · have hself : Reached leaves w [x] x := .listed (List.mem_singleton_self x)
    rintro (h | h)
    · rw [h]
      exact hself
    · exact h.mono (fun _ hc => (isAlive_wiped.mp hc).1)
        (fun _ _ hm => (mem_summons_wiped.mp hm).1)
        fun m hm => .summon hself hx hleaves (mem_summons_wiped.mp hm).1

/-- The summons of one that stays in the world are not reached from it. -/
theorem reached_singleton_of_stays {x : C} (hstays : ¬ (w.isAlive x = true ∧ leaves x = true)) :
    reached leaves w [x] = {x} := by
  ext m
  constructor
  · intro h
    induction h with
    | listed hm => exact List.mem_singleton.mp hm
    | summon _ hy hleaves _ ih =>
      rw [ih] at hy hleaves
      exact absurd ⟨hy, hleaves⟩ hstays
  · intro h
    exact .listed (List.mem_singleton.mpr h)

/-- Nobody is reached from an empty list. -/
theorem reached_nil : reached leaves w [] = ∅ := by
  ext m
  refine iff_of_false (fun h => ?_) (Set.notMem_empty m)
  induction h with
  | listed hm => cases hm
  | summon _ _ _ _ ih => exact ih

/-! ## One summon -/

variable [DecidableEq C] {kinds : Kinds C} {env : Surroundings C (World C)} {x : C}

/-- A monster that has been let go. -/
def World.released (w : World C) (x : C) : World C :=
  { w with
    _master := Function.update w._master x none
    summons := fun c => (w.summons c).filter (· ≠ x) }

variable (env) in
theorem release_eq (h : Tidy kinds w) : release env w x = w.released x := by
  have hsummons (c : C) : (w.summons c).filter (· ≠ x) =
      if w._master x = some c then (w.summons c).erase x else w.summons c := by
    split_ifs with hmaster
    · rw [(h.nodup c).erase_eq_filter]
      exact List.filter_congr fun m _ => decide_not
    · apply List.filter_eq_self.mpr
      intro m hm
      apply decide_eq_true
      rintro rfl
      exact hmaster (h.master hm)
  rw [release, setMaster_eq, World.released, funext hsummons]
  split_ifs with hnone
  · have hmaster (c : C) : ¬ w._master x = some c := by
      rw [← hnone]
      exact Option.some_ne_none c ∘ Eq.symm
    simp only [if_neg (hmaster _)]
    rw [hnone, Function.update_eq_self]
  · rfl

theorem wiped_singleton : w.wiped leaves {x} =
    { w.released x with
      isInWorld :=
        if w.isAlive x = true ∧ leaves x = true then Function.update w.isInWorld x false
        else w.isInWorld
      health := if w.isAlive x = true then Function.update w.health x 0 else w.health } := by
  ext1
  · funext c
    rw [isInWorld_wiped]
    by_cases hc : c = x
    · rw [hc]
      by_cases hx : w.isAlive x = true ∧ leaves x = true
      · rw [if_pos ⟨Set.mem_singleton x, hx⟩]
        simp only [if_pos hx, Function.update_self]
      · rw [if_neg fun h => hx h.2]
        simp only [if_neg hx]
    · rw [if_neg fun h => hc (Set.mem_singleton_iff.mp h.1)]
      dsimp only
      split_ifs
      · rw [Function.update_of_ne hc]
      · rfl
  · funext c
    rw [health_wiped]
    by_cases hc : c = x
    · rw [hc]
      by_cases hx : w.isAlive x = true
      · rw [if_pos ⟨Set.mem_singleton x, hx⟩]
        simp only [if_pos hx, Function.update_self]
      · rw [if_neg fun h => hx h.2]
        simp only [if_neg hx]
    · rw [if_neg fun h => hc (Set.mem_singleton_iff.mp h.1)]
      dsimp only
      split_ifs
      · rw [Function.update_of_ne hc]
      · rfl
  · funext c
    rw [master_wiped]
    change _ = Function.update w._master x none c
    by_cases hc : c = x
    · rw [hc, if_pos (Set.mem_singleton x), Function.update_self]
    · rw [if_neg fun h => hc (Set.mem_singleton_iff.mp h), Function.update_of_ne hc]
  · funext c
    apply List.filter_congr
    intro m _
    exact decide_eq_decide.mpr (not_congr Set.mem_singleton_iff)

/-- Whether a creature without health is in the world makes no difference to who is alive. -/
theorem isAlive_setInWorld (hhealth : w.health x = 0) (inWorld : Bool) :
    (w.setInWorld x inWorld).isAlive = w.isAlive := by
  funext c
  by_cases hc : c = x
  · have hzero : decide (0 < w.health c) = false := by
      rw [hc, hhealth]
      rfl
    change (_ && decide (0 < w.health c)) = (_ && decide (0 < w.health c))
    rw [hzero, Bool.and_false, Bool.and_false]
  · change (Function.update w.isInWorld x inWorld c && _) = _
    rw [Function.update_of_ne hc]
    rfl

open Classical in
theorem wiped_setInWorld (hhealth : w.health x = 0) :
    (w.setInWorld x false).wiped leaves gone = (w.wiped leaves gone).setInWorld x false := by
  have halive := isAlive_setInWorld hhealth false
  ext1
  · funext c
    rw [isInWorld_wiped, halive]
    simp only [World.setInWorld]
    by_cases hc : c = x
    · rw [hc, Function.update_self, Function.update_self, ite_self]
    · rw [Function.update_of_ne hc, Function.update_of_ne hc]
      rfl
  · funext c
    rw [health_wiped, halive]
    rfl
  · rfl
  · rfl

theorem reached_setInWorld (hhealth : w.health x = 0) :
    reached leaves (w.setInWorld x false) list = reached leaves w list := by
  have halive := isAlive_setInWorld hhealth false
  ext m
  constructor
  · exact Reached.mono (fun c hc => (congrFun halive c).symm.trans hc)
      (fun _ => List.Subset.refl _) fun _ => .listed
  · exact Reached.mono (fun c hc => (congrFun halive c).trans hc)
      (fun _ => List.Subset.refl _) fun _ => .listed

theorem changeHealth_neg (kill : World C → C → Option (World C)) (hx : w.isAlive x = true) :
    changeHealth env kinds kill w x (-w.health x) =
      onDeath env kinds kill (w.setHealth x 0) x := by
  have hpos : 0 < w.health x := of_decide_eq_true (Bool.and_eq_true_iff.mp hx).2
  have hneg : ¬ -w.health x > 0 := by omega
  have hzero : max 0 (w.health x + -w.health x) = 0 := by omega
  have hne : (0 : ℤ) ≠ w.health x := by omega
  have hnot : ¬ w.isAlive x = false := by
    rw [hx]
    exact Bool.noConfusion
  rw [changeHealth, if_neg hnot]
  simp only [if_neg hneg, hzero, if_neg hne, if_true]

/-- What `killSummons` does, given that it does this one level deeper. -/
def Kills (kinds : Kinds C) (leaves : C → Bool) (kill : World C → C → Option (World C)) : Prop :=
  ∀ {w u : World C} {c : C}, Tidy kinds w → kill w c = some u →
    u = w.wiped leaves (reached leaves w (w.summons c))

theorem Tidy.setHealth (h : Tidy kinds w) (x : C) (health : ℤ) : Tidy kinds (w.setHealth x health) :=
  ⟨h.isMonster, h.master, h.nodup⟩

/-- One summon is killed and let go. -/
theorem kill_summon {kill : World C → C → Option (World C)} (hkill : Kills kinds env.leaves kill)
    (h : Tidy kinds w) (hmonster : kinds.isMonster x = true) {u : World C}
    (hu : changeHealth env kinds kill w x (-w.health x) = some u) :
    release env u x = w.wiped env.leaves (reached env.leaves w [x]) := by
  by_cases hx : w.isAlive x = true
  · have h0 := h.setHealth x 0
    rw [changeHealth_neg kill hx, onDeath] at hu
    by_cases hleaves : env.leaves x = true
    · obtain ⟨hdies, htile⟩ := Bool.and_eq_true_iff.mp hleaves
      have hin : (w.setHealth x 0).isInWorld x = true := (Bool.and_eq_true_iff.mp hx).1
      have hexits : ¬ ((w.setHealth x 0).isInWorld x = false ∨ env.testRemoveCreature x = false) := by
        rw [hin, htile]
        rintro (hfalse | hfalse) <;> cases hfalse
      rw [if_pos hdies, exitWorld, if_neg hexits, if_pos hmonster, release_eq env h0] at hu
      obtain ⟨v, hv, rfl⟩ := Option.map_eq_some_iff.mp hu
      have hreleased : Tidy kinds ((w.setHealth x 0).released x) := by
        rw [← release_eq env h0]
        exact h0.setMaster env hmonster none
      have hhealth : ((w.setHealth x 0).released x).health x = 0 := Function.update_self ..
      -- leaving the world before or after its summons is the same
      have hsingle : w.wiped env.leaves {x} =
          ((w.setHealth x 0).released x).setInWorld x false := by
        rw [wiped_singleton, if_pos ⟨hx, hleaves⟩, if_pos hx]
        rfl
      have hdone : v.setInWorld x false = w.wiped env.leaves (reached env.leaves w [x]) := by
        rw [reached_singleton_of_leaves hx hleaves, ← wiped_wiped, hsingle,
          reached_setInWorld hhealth, wiped_setInWorld hhealth, hkill hreleased hv]
        rfl
      have hself : x ∈ reached env.leaves w [x] := .listed (List.mem_singleton_self x)
      rw [hdone, release, setMaster_eq, master_wiped, if_pos hself, if_pos rfl]
    · have hstays : w.setHealth x 0 = u := by
        split_ifs at hu with hdies
        · have htile : env.testRemoveCreature x = false := by
            rw [Surroundings.leaves, hdies, Bool.true_and] at hleaves
            exact Bool.eq_false_iff.mpr hleaves
          rw [exitWorld, if_pos (.inr htile)] at hu
          exact Option.some.inj hu
        · exact Option.some.inj hu
      rw [← hstays, release_eq env h0, reached_singleton_of_stays (fun h => hleaves h.2),
        wiped_singleton, if_neg (fun h => hleaves h.2), if_pos hx]
      rfl
  · rw [changeHealth, if_pos (Bool.eq_false_iff.mpr hx)] at hu
    cases hu
    rw [release_eq env h, reached_singleton_of_stays (fun h => hx h.1), wiped_singleton,
      if_neg (fun h => hx h.1), if_neg hx]
    rfl

/-- The loop of `killSummons`. -/
theorem foldlM_kill {kill : World C → C → Option (World C)} (hkill : Kills kinds env.leaves kill)
    {list : List C} (hmonster : ∀ m ∈ list, kinds.isMonster m = true) (h : Tidy kinds w)
    {u : World C} (hu : list.foldlM (fun w summon =>
      (changeHealth env kinds kill w summon (-w.health summon)).map (release env · summon)) w =
        some u) : u = w.wiped env.leaves (reached env.leaves w list) := by
  induction list generalizing w with
  | nil =>
    cases hu
    rw [reached_nil, wiped_empty]
  | cons x list ih =>
    rw [List.foldlM_cons] at hu
    obtain ⟨v, hv, hu⟩ := Option.bind_eq_some_iff.mp hu
    obtain ⟨v, hchange, rfl⟩ := Option.map_eq_some_iff.mp hv
    have hx := kill_summon hkill h (hmonster x List.mem_cons_self) hchange
    rw [hx] at hu
    rw [ih (fun m hm => hmonster m (List.mem_cons_of_mem x hm)) h.wiped hu, wiped_wiped,
      ← reached_append, List.singleton_append]

theorem mem_setSummons_nil {m x c : C} :
    m ∈ (w.setSummons c []).summons x ↔ m ∈ w.summons x ∧ x ≠ c := by
  simp only [World.setSummons]
  by_cases hx : x = c
  · rw [hx, Function.update_self]
    exact iff_of_false List.not_mem_nil fun h => h.2 rfl
  · rw [Function.update_of_ne hx]
    exact (and_iff_left hx).symm

/-- A list that is reached may as well be taken away first. -/
theorem reached_setSummons (w : World C) (c : C) :
    reached leaves (w.setSummons c []) (w.summons c) = reached leaves w (w.summons c) := by
  ext m
  constructor
  · intro (h : Reached leaves (w.setSummons c []) (w.summons c) m)
    change Reached leaves w (w.summons c) m
    refine Reached.mono ?_ ?_ (fun _ => .listed) h
    · exact fun _ hx => hx
    · exact fun _ _ hm => (mem_setSummons_nil.mp hm).1
  · intro h
    induction h with
    | listed hm => exact .listed hm
    | @summon x m _ hx hleaves hm ih =>
      by_cases hxc : x = c
      · rw [hxc] at hm
        exact .listed hm
      · exact .summon ih hx hleaves (mem_setSummons_nil.mpr ⟨hm, hxc⟩)

open Classical in
/-- A list whose monsters are all gone may as well be taken away first. -/
theorem wiped_setSummons {c : C} (hgone : ∀ m ∈ w.summons c, m ∈ gone) :
    (w.setSummons c []).wiped leaves gone = w.wiped leaves gone := by
  ext1
  · rfl
  · rfl
  · rfl
  · funext x
    simp only [World.wiped, World.setSummons]
    by_cases hx : x = c
    · rw [hx, Function.update_self, List.filter_nil]
      refine (List.filter_eq_nil_iff.mpr fun m hm hnot => ?_).symm
      exact of_decide_eq_true hnot (hgone m hm)
    · rw [Function.update_of_ne hx]

theorem Tidy.setSummons_nil (h : Tidy kinds w) (c : C) : Tidy kinds (w.setSummons c []) where
  isMonster hm := h.isMonster (mem_setSummons_nil.mp hm).1
  master hm := h.master (mem_setSummons_nil.mp hm).1
  nodup x := by
    simp only [World.setSummons]
    by_cases hx : x = c
    · rw [hx, Function.update_self]
      exact List.nodup_nil
    · rw [Function.update_of_ne hx]
      exact h.nodup x

/-- `killSummons` kills and lets go all those that are reached from the list, and nothing else. -/
theorem kills_killSummons (depth : ℕ) : Kills kinds env.leaves (killSummons env kinds depth) := by
  induction depth with
  | zero =>
    intro w u c h hu
    cases hu
  | succ depth ih =>
    intro w u c h hu
    rw [killSummons] at hu
    have hdone := foldlM_kill ih (fun m hm => h.isMonster hm) (h.setSummons_nil c) hu
    rw [hdone, reached_setSummons]
    exact wiped_setSummons fun m hm => .listed hm

/-! ## How deep it goes -/

/-- Who is alive. -/
def World.alive (w : World C) : Set C := {c | w.isAlive c = true}

omit [DecidableEq C] in
theorem alive_wiped_subset : (w.wiped leaves gone).alive ⊆ w.alive :=
  fun _ hc => (isAlive_wiped.mp hc).1

/-- A monster that dies is one creature less that can be killed. -/
theorem alive_released_ssubset (hx : w.isAlive x = true) :
    ((w.setHealth x 0).released x).alive ⊂ w.alive := by
  have hdead : x ∉ ((w.setHealth x 0).released x).alive := by
    intro h
    have hpos := of_decide_eq_true (Bool.and_eq_true_iff.mp h).2
    change 0 < Function.update w.health x 0 x at hpos
    rw [Function.update_self] at hpos
    exact lt_irrefl _ hpos
  refine (Set.ssubset_iff_of_subset fun c hc => ?_).mpr ⟨x, hx, hdead⟩
  have hcx : c ≠ x := fun hcx => hdead (hcx ▸ hc)
  change (w.isInWorld c && decide (0 < Function.update w.health x 0 c)) = true at hc
  rw [Function.update_of_ne hcx] at hc
  exact hc

variable (env) in
/-- Killing one summon ends if killing the summons of those who are fewer ends. -/
theorem changeHealth_isSome {kill : World C → C → Option (World C)}
    (hkill : ∀ v, Tidy kinds v → v.alive ⊂ w.alive → (kill v x).isSome = true)
    (h : Tidy kinds w) (hmonster : kinds.isMonster x = true) :
    (changeHealth env kinds kill w x (-w.health x)).isSome = true := by
  by_cases hx : w.isAlive x = true
  · have h0 := h.setHealth x 0
    rw [changeHealth_neg kill hx, onDeath]
    split_ifs
    · rw [exitWorld]
      split_ifs
      · rfl
      · rw [Option.isSome_map, release_eq env h0]
        apply hkill
        · rw [← release_eq env h0]
          exact h0.setMaster env hmonster none
        · exact alive_released_ssubset hx
    · rfl
  · rw [changeHealth, if_pos (Bool.eq_false_iff.mpr hx)]
    rfl

theorem foldlM_kill_isSome {kill : World C → C → Option (World C)}
    (hkill : Kills kinds env.leaves kill) {list : List C}
    (hmonster : ∀ m ∈ list, kinds.isMonster m = true) (h : Tidy kinds w)
    (hsome : ∀ v x, Tidy kinds v → v.alive ⊂ w.alive → (kill v x).isSome = true) :
    (list.foldlM (fun w summon => (changeHealth env kinds kill w summon (-w.health summon)).map
      (release env · summon)) w).isSome = true := by
  induction list generalizing w with
  | nil => rfl
  | cons x list ih =>
    have hx := hmonster x List.mem_cons_self
    obtain ⟨u, hu⟩ := Option.isSome_iff_exists.mp
      (changeHealth_isSome env (fun v => hsome v x) h hx)
    rw [List.foldlM_cons, hu, Option.map_some, Option.bind_eq_bind, Option.bind_some,
      kill_summon hkill h hx hu]
    apply ih (fun m hm => hmonster m (List.mem_cons_of_mem x hm)) h.wiped
    intro v y hv halive
    exact hsome v y hv (halive.trans_subset alive_wiped_subset)

variable (env) in
/-- Deeper than there are creatures alive the summons of summons do not go. -/
theorem killSummons_isSome (h : Tidy kinds w) (hfinite : w.alive.Finite) {depth : ℕ}
    (hdepth : w.alive.ncard < depth) (c : C) :
    (killSummons env kinds depth w c).isSome = true := by
  induction depth generalizing w c with
  | zero => exact absurd hdepth (Nat.not_lt_zero _)
  | succ depth ih =>
    rw [killSummons]
    apply foldlM_kill_isSome (kills_killSummons depth) (fun m hm => h.isMonster hm)
      (h.setSummons_nil c)
    intro v x hv halive
    have hlt : v.alive.ncard < w.alive.ncard := Set.ncard_lt_ncard halive hfinite
    exact ih hv (hfinite.subset halive.subset) (by omega) x

variable (env) in
theorem killSummons_eq_wiped (h : Tidy kinds w) (hfinite : w.alive.Finite) {depth : ℕ}
    (hdepth : w.alive.ncard < depth) (c : C) : killSummons env kinds depth w c =
      some (w.wiped env.leaves (reached env.leaves w (w.summons c))) := by
  obtain ⟨u, hu⟩ := Option.isSome_iff_exists.mp
    (killSummons_isSome env h hfinite hdepth c)
  rw [hu, kills_killSummons depth h hu]

end TyanoCore.Summons
