import TyanoCore.Chain
import TyanoCore.SummonsDeath

/-!
# Masters and summons over runs

In every run the list of a creature is exactly that of the monsters whose master it is.  The search
for the final owner of a creature ends as long as no monster is made to follow one that follows it
already; from such a step on it does not.
-/

namespace TyanoCore.Summons

open Transition

variable {C : Type*} [DecidableEq C] {kinds : Kinds C} {env : Surroundings C (World C)}
variable {w u : World C} {depth rounds : ℕ}

/-! ## The books over runs -/

omit [DecidableEq C] in
theorem Books.wiped (h : Books kinds w) (leaves : C → Bool) (gone : Set C) :
    Books kinds (w.wiped leaves gone) :=
  h.toTidy.wiped.books fun m hm => h.not_pending m (pending_wiped hm).1

theorem Books.killSummons (h : Books kinds w) {this : C}
    (hu : killSummons env kinds depth w this = some u) : Books kinds u := by
  rw [kills_killSummons depth h.toTidy hu]
  exact h.wiped _ _

omit [DecidableEq C] in
theorem Books.congr (h : Books kinds w) (hmaster : u._master = w._master)
    (hsummons : u.summons = w.summons) : Books kinds u := by
  obtain ⟨isInWorld, health, master, summons⟩ := u
  obtain rfl : master = w._master := hmaster
  obtain rfl : summons = w.summons := hsummons
  exact ⟨⟨h.isMonster, h.master, h.nodup⟩, h.listed⟩

theorem Books.exitWorld (h : Books kinds w) {this : C}
    (hu : exitWorld env kinds (Summons.killSummons env kinds depth) w this = some u) :
    Books kinds u := by
  rw [Summons.exitWorld] at hu
  split_ifs at hu with hrefused hmonster
  · cases hu
    exact h
  · obtain ⟨v, hv, rfl⟩ := Option.map_eq_some_iff.mp hu
    exact ((h.setMaster env hmonster none).killSummons hv).congr rfl rfl
  · obtain ⟨v, hv, rfl⟩ := Option.map_eq_some_iff.mp hu
    exact (h.killSummons hv).congr rfl rfl

theorem Books.changeHealth (h : Books kinds w) {this : C} {healthChange : ℤ}
    (hu : changeHealth env kinds (Summons.killSummons env kinds depth) w this healthChange =
      some u) : Books kinds u := by
  have hhealth (health : ℤ) : Books kinds (w.setHealth this health) := h.congr rfl rfl
  rw [Summons.changeHealth] at hu
  split_ifs at hu with hdead
  · cases hu
    exact h
  all_goals
    dsimp only at hu
    split_ifs at hu with hsame hzero
    · cases hu
      exact h
    · rw [onDeath] at hu
      split_ifs at hu with hdies
      · exact (hhealth _).exitWorld hu
      · cases hu
        exact hhealth _
    · cases hu
      exact hhealth _

variable (env) in
/-- Monsters that are let go one after another. -/
theorem foldl_release {list : List C} (hmonster : ∀ m ∈ list, kinds.isMonster m = true)
    (h : Tidy kinds w) : Tidy kinds (list.foldl (release env) w) ∧
      ∀ m, Pending (list.foldl (release env) w) m → Pending w m ∧ m ∉ list := by
  induction list generalizing w with
  | nil => exact ⟨h, fun m hm => ⟨hm, List.not_mem_nil⟩⟩
  | cons x list ih =>
    have hx := hmonster x List.mem_cons_self
    obtain ⟨htidy, hpending⟩ := ih (fun m hm => hmonster m (List.mem_cons_of_mem x hm))
      (h.setMaster env hx none)
    refine ⟨htidy, fun m hm => ?_⟩
    obtain ⟨hrest, hnot⟩ := hpending m hm
    refine ⟨pending_setMaster env h hrest, fun hmem => ?_⟩
    rcases List.mem_cons.mp hmem with rfl | hmem
    · -- one that has been let go has no master
      obtain ⟨c, hc, -⟩ := hrest
      rw [master_setMaster, Function.update_self] at hc
      cases hc
    · exact hnot hmem

theorem Books.releaseSummons (h : Books kinds w) (this : C) :
    Books kinds (releaseSummons env w this) := by
  obtain ⟨htidy, hpending⟩ := foldl_release env (fun m hm => h.isMonster hm)
    (h.toTidy.setSummons_nil this)
  apply htidy.books
  intro m hm
  obtain ⟨⟨c, hmaster, hnot⟩, hlist⟩ := hpending m hm
  have hlisted : m ∈ w.summons c := h.listed hmaster
  by_cases hc : c = this
  · rw [hc] at hlisted
    exact hlist hlisted
  · exact hnot (mem_setSummons_nil.mpr ⟨hlisted, hc⟩)

theorem convince_cases {this convincer : C} {forced convinced : Bool}
    (hu : convince env kinds rounds w this convincer forced = some (u, convinced)) :
    convincer ≠ this ∧ u = setMaster env w this (some convincer) ∧ convinced = true ∨
      u = w ∧ convinced = false := by
  obtain ⟨can, hcan, hu⟩ := Option.map_eq_some_iff.mp hu
  cases can with
  | false => exact .inr ⟨(Prod.mk.inj hu).1.symm, (Prod.mk.inj hu).2.symm⟩
  | true =>
    refine .inl ⟨fun hself => ?_, (Prod.mk.inj hu).1.symm, (Prod.mk.inj hu).2.symm⟩
    rw [canBeConvincedBy, if_pos hself] at hcan
    cases hcan

theorem Books.convince (h : Books kinds w) {this convincer : C} {forced convinced : Bool}
    (hmonster : kinds.isMonster this = true)
    (hu : convince env kinds rounds w this convincer forced = some (u, convinced)) :
    Books kinds u := by
  rcases convince_cases hu with ⟨-, rfl, -⟩ | ⟨rfl, -⟩
  · exact h.setMaster env hmonster _
  · exact h

theorem Books.enterWorld (h : Books kinds w) (this : C) (health : ℤ) :
    Books kinds (enterWorld w this health) := by
  rw [Summons.enterWorld]
  split_ifs
  · exact h
  · exact h.congr rfl rfl

theorem Books.placeSummon (h : Books kinds w) {creature monster : C} {health : ℤ}
    (hmonster : kinds.isMonster monster = true)
    (hu : placeSummon env kinds rounds w creature monster health = some u) : Books kinds u := by
  rw [Summons.placeSummon] at hu
  split_ifs at hu with hin
  · cases hu
    exact h
  · obtain ⟨⟨v, convinced⟩, hv, hu⟩ := Option.bind_eq_some_iff.mp hu
    have hbooks := (h.enterWorld monster health).convince hmonster hv
    cases convinced with
    | true =>
      cases hu
      exact hbooks
    | false => exact hbooks.exitWorld hu

theorem Books.step (h : Books kinds w) {a : ℕ × Surroundings C (World C) × Action C}
    (hu : step kinds w a = some u) : Books kinds u := by
  obtain ⟨rounds, env, action⟩ := a
  cases action with
  | enterWorld this health =>
    cases hu
    exact h.enterWorld this health
  | placeSummon creature monster health =>
    rw [Summons.step] at hu
    split_ifs at hu with hmonster
    exact h.placeSummon hmonster hu
  | convince this convincer forced =>
    rw [Summons.step] at hu
    split_ifs at hu with hmonster
    obtain ⟨⟨v, convinced⟩, hv, rfl⟩ := Option.map_eq_some_iff.mp hu
    exact h.convince hmonster hv
  | changeHealth this healthChange => exact h.changeHealth hu
  | killSummons this => exact h.killSummons hu
  | releaseSummons this =>
    cases hu
    exact h.releaseSummons this
  | exitWorld this => exact h.exitWorld hu

omit [DecidableEq C] in
theorem books_of_init (h : init w) : Books kinds w := by
  obtain ⟨hmaster, hsummons⟩ := h
  have hmem {m c : C} : m ∉ w.summons c := by
    rw [hsummons c]
    exact List.not_mem_nil
  refine ⟨⟨fun hm => absurd hm hmem, fun hm => absurd hm hmem, fun c => ?_⟩, fun {m c} hm => ?_⟩
  · rw [hsummons c]
    exact List.nodup_nil
  · rw [hmaster m] at hm
    cases hm

theorem reachable_books (h : (system kinds).Reachable w) : Books kinds w :=
  h.invariant (Books kinds) (fun _ => books_of_init) fun _ _ _ hbooks => hbooks.step

/-- The list of a creature is that of the monsters whose master it is, each once. -/
theorem summons_iff_master (h : (system kinds).Reachable w) (c : C) :
    (w.summons c).Nodup ∧ ∀ m, m ∈ w.summons c ↔ w._master m = some c :=
  have hbooks := reachable_books h
  ⟨hbooks.nodup c, fun _ => ⟨hbooks.master, hbooks.listed⟩⟩

/-! ### Three creatures -/

/-- A player and two monsters. -/
inductive Someone where
  | player
  | wolf
  | bear
  deriving DecidableEq

instance : Fintype Someone := ⟨{.player, .wolf, .bear}, fun c => by cases c <;> decide⟩

def three : Kinds Someone where
  isPlayer c := c == .player
  isMonster c := c != .player
  isConvinceable _ := true
  canConvinceAll _ := false

/-- Everybody is seen, and whoever dies leaves. -/
def plain : Surroundings Someone (World Someone) where
  around _ _ := [.player, .wolf, .bear]
  getMaxHealth _ := 100
  dies _ := true
  testRemoveCreature _ := true

def nobody : World Someone := ⟨fun _ => false, fun _ => 0, fun _ => none, fun _ => []⟩

theorem init_nobody : init nobody := ⟨fun _ => rfl, fun _ => rfl⟩

/-- A monster that summons another one. -/
def summoning : List (ℕ × Surroundings Someone (World Someone) × Action Someone) :=
  [(4, plain, .enterWorld .wolf 50), (4, plain, .placeSummon .wolf .bear 50)]

/-- The world after that. -/
def following : World Someone := (runActions (step three) nobody summoning).getD nobody

theorem runActions_summoning : runActions (step three) nobody summoning = some following := rfl

theorem reachable_following : (system three).Reachable following :=
  reachable_of_runActions (.init init_nobody) runActions_summoning

theorem ncard_alive_lt (w : World Someone) : w.alive.ncard < 4 := by
  have hle := Set.ncard_le_ncard (Set.subset_univ w.alive)
  rw [Set.ncard_univ, Nat.card_eq_fintype_card] at hle
  exact Nat.lt_succ_of_le hle

theorem summons_iff_master_following : following.summons .wolf = [.bear] ∧
    (following.summons .wolf).Nodup ∧
      ∀ m, m ∈ following.summons .wolf ↔ following._master m = some .wolf :=
  ⟨rfl, summons_iff_master reachable_following .wolf⟩

/-- `killSummons` ends, and it kills and lets go those who are reached from the list: nobody else
is touched. -/
theorem killSummons_eq (h : (system kinds).Reachable w) (hfinite : w.alive.Finite)
    (hdepth : w.alive.ncard < depth) (c : C) : killSummons env kinds depth w c =
      some (w.wiped env.leaves (reached env.leaves w (w.summons c))) :=
  killSummons_eq_wiped env (reachable_books h).toTidy hfinite hdepth c

omit [DecidableEq C] in
theorem Books.isMonster_of_master (h : Books kinds w) {m c : C} (hm : w._master m = some c) :
    kinds.isMonster m = true :=
  h.isMonster (h.listed hm)

theorem killSummons_eq_following :
    killSummons plain three 4 following .wolf =
        some (following.wiped plain.leaves (reached plain.leaves following [.bear])) ∧
      (killSummons plain three 4 following .wolf).map (fun w => (w.health .wolf, w.health .bear)) =
        some (50, 0) :=
  ⟨killSummons_eq reachable_following (Set.toFinite _) (ncard_alive_lt following) .wolf, rfl⟩

/-- Who leaves the world is forgotten by everybody who stays. -/
theorem exitWorld_forgotten (h : (system kinds).Reachable w) (hfinite : w.alive.Finite)
    (hdepth : w.alive.ncard < depth) {c : C} (hin : w.isInWorld c = true)
    (htile : env.testRemoveCreature c = true) :
    ∃ u, exitWorld env kinds (killSummons env kinds depth) w c = some u ∧
      u.isInWorld c = false ∧ u.summons c = [] ∧ u._master c = none ∧
      ∀ x, c ∉ u.summons x ∧ u._master x ≠ some c := by
  have hbooks := reachable_books h
  have hexits : ¬ (w.isInWorld c = false ∨ env.testRemoveCreature c = false) := by
    rw [hin, htile]
    rintro (hfalse | hfalse) <;> cases hfalse
  -- the state in which the creature has no master left
  obtain ⟨v, hv, hvbooks, halive, hnone⟩ : ∃ v,
      (if kinds.isMonster c = true then release env w c else w) = v ∧ Books kinds v ∧
        v.alive = w.alive ∧ v._master c = none := by
    by_cases hmonster : kinds.isMonster c = true
    · refine ⟨release env w c, if_pos hmonster, hbooks.setMaster env hmonster none, ?_, ?_⟩
      · rw [release_eq env hbooks.toTidy]
        rfl
      · rw [release, master_setMaster, Function.update_self]
    · refine ⟨w, if_neg hmonster, hbooks, rfl, ?_⟩
      by_contra hsome
      obtain ⟨x, hx⟩ := Option.ne_none_iff_exists'.mp hsome
      exact hmonster (hbooks.isMonster_of_master hx)
  have hkill := killSummons_eq_wiped env hvbooks.toTidy (halive ▸ hfinite)
    (halive ▸ hdepth) c
  have hgone := hvbooks.wiped env.leaves (reached env.leaves v (v.summons c))
  refine ⟨(v.wiped env.leaves (reached env.leaves v (v.summons c))).setInWorld c false, ?_,
    Function.update_self .., ?_⟩
  · rw [Summons.exitWorld, if_neg hexits, hv, hkill]
    rfl
  · have hmaster : (v.wiped env.leaves (reached env.leaves v (v.summons c)))._master c = none := by
      rw [master_wiped, hnone, ite_self]
    have hsummons : (v.wiped env.leaves (reached env.leaves v (v.summons c))).summons c = [] := by
      apply List.eq_nil_iff_forall_not_mem.mpr
      intro m hm
      obtain ⟨hlisted, hnot⟩ := mem_summons_wiped.mp hm
      exact hnot (.listed hlisted)
    refine ⟨hsummons, hmaster, fun x => ⟨fun hx => ?_, fun hx => ?_⟩⟩
    · rw [hgone.master hx] at hmaster
      cases hmaster
    · have hlisted := hgone.listed hx
      rw [hsummons] at hlisted
      cases hlisted

theorem exitWorld_forgotten_following :
    ∃ u, exitWorld plain three (killSummons plain three 4) following .wolf = some u ∧
      u.isInWorld .wolf = false ∧ u.summons .wolf = [] ∧ u._master .wolf = none ∧
      ∀ x, .wolf ∉ u.summons x ∧ u._master x ≠ some .wolf :=
  exitWorld_forgotten reachable_following (Set.toFinite _) (ncard_alive_lt following) rfl rfl

/-! ## The final owner -/

omit [DecidableEq C] in
theorem Books.getDirectOwner_eq (h : Books kinds w) : getDirectOwner kinds w = w._master := by
  funext c
  rw [getDirectOwner]
  split_ifs with hmonster
  · rfl
  · by_contra hsome
    obtain ⟨x, hx⟩ := Option.ne_none_iff_exists'.mp fun hnone => hsome hnone.symm
    exact hmonster (h.isMonster_of_master hx)

omit [DecidableEq C] in
theorem getFinalOwner_isSome_iff {c : C} : (getFinalOwner kinds w rounds c).isSome = true ↔
    Chain.after (getDirectOwner kinds w) rounds c = none := by
  induction rounds generalizing c with
  | zero => exact iff_of_false Bool.false_ne_true (Option.some_ne_none c)
  | succ rounds ih =>
    rw [getFinalOwner, Chain.after]
    cases getDirectOwner kinds w c with
    | none => exact iff_of_true rfl rfl
    | some owner => exact ih

/-- The search for the final owner ends. -/
def OwnersEnd (kinds : Kinds C) (w : World C) : Prop :=
  ∀ c, ∃ rounds, (getFinalOwner kinds w rounds c).isSome = true

omit [DecidableEq C] in
theorem ownersEnd_iff (h : Books kinds w) :
    OwnersEnd kinds w ↔ ∀ c, Chain.Ends w._master c := by
  rw [← h.getDirectOwner_eq]
  exact forall_congr' fun c => exists_congr fun rounds => getFinalOwner_isSome_iff

/-- Masters have only been lost. -/
def Fewer (w u : World C) : Prop := ∀ m, u._master m = w._master m ∨ u._master m = none

omit [DecidableEq C] in
theorem Fewer.trans {v : World C} (h : Fewer w u) (h' : Fewer u v) : Fewer w v := by
  intro m
  rcases h' m with hm | hm
  · rw [hm]
    exact h m
  · exact .inr hm

theorem fewer_release (w : World C) (m : C) : Fewer w (release env w m) := by
  intro x
  rw [release, master_setMaster]
  by_cases hx : x = m
  · rw [hx]
    exact .inr (Function.update_self ..)
  · exact .inl (Function.update_of_ne hx ..)

theorem fewer_killSummons (h : Tidy kinds w) {c : C}
    (hu : killSummons env kinds depth w c = some u) : Fewer w u := by
  rw [kills_killSummons depth h hu]
  intro m
  rw [master_wiped]
  split_ifs
  · exact .inr rfl
  · exact .inl rfl

theorem fewer_exitWorld (h : Tidy kinds w) {c : C}
    (hu : exitWorld env kinds (killSummons env kinds depth) w c = some u) : Fewer w u := by
  rw [exitWorld] at hu
  split_ifs at hu with hrefused hmonster
  · cases hu
    exact fun _ => .inl rfl
  · obtain ⟨v, hv, rfl⟩ := Option.map_eq_some_iff.mp hu
    have hfewer : Fewer (release env w c) v :=
      fewer_killSummons (h.setMaster env hmonster none) hv
    exact (fewer_release w c).trans hfewer
  · obtain ⟨v, hv, rfl⟩ := Option.map_eq_some_iff.mp hu
    have hfewer : Fewer w v := fewer_killSummons h hv
    exact hfewer

theorem fewer_changeHealth (h : Tidy kinds w) {c : C} {healthChange : ℤ}
    (hu : changeHealth env kinds (killSummons env kinds depth) w c healthChange = some u) :
    Fewer w u := by
  rw [changeHealth] at hu
  split_ifs at hu with hdead
  · cases hu
    exact fun _ => .inl rfl
  all_goals
    dsimp only at hu
    split_ifs at hu with hsame hzero
    · cases hu
      exact fun _ => .inl rfl
    · rw [onDeath] at hu
      split_ifs at hu with hdies
      · have hfewer := fewer_exitWorld (h.setHealth c _) hu
        exact hfewer
      · cases hu
        exact fun _ => .inl rfl
    · cases hu
      exact fun _ => .inl rfl

theorem fewer_foldl_release (list : List C) (w : World C) :
    Fewer w (list.foldl (release env) w) := by
  induction list generalizing w with
  | nil => exact fun _ => .inl rfl
  | cons m list ih => exact (fewer_release w m).trans (ih _)

/-- The monster that a call gives a master, with the master. -/
def Action.convinces : Action C → Option (C × C)
  | .convince this convincer _ => some (this, convincer)
  | .placeSummon creature monster _ => some (monster, creature)
  | _ => none

/-- What a step does to the masters. -/
theorem step_master (h : Books kinds w) {a : ℕ × Surroundings C (World C) × Action C}
    (hu : step kinds w a = some u) : Fewer w u ∨ ∃ this convincer,
      a.2.2.convinces = some (this, convincer) ∧
        u._master = Function.update w._master this (some convincer) := by
  obtain ⟨rounds, env, action⟩ := a
  cases action with
  | enterWorld this health =>
    cases hu
    rw [enterWorld]
    split_ifs
    · exact .inl fun _ => .inl rfl
    · exact .inl fun _ => .inl rfl
  | placeSummon creature monster health =>
    rw [step] at hu
    split_ifs at hu with hmonster
    rw [placeSummon] at hu
    split_ifs at hu with hin
    · cases hu
      exact .inl fun _ => .inl rfl
    have henter : (enterWorld w monster health)._master = w._master := by
      rw [enterWorld, if_neg hin]
      rfl
    obtain ⟨⟨v, convinced⟩, hv, hu⟩ := Option.bind_eq_some_iff.mp hu
    rcases convince_cases hv with ⟨-, rfl, rfl⟩ | ⟨rfl, rfl⟩
    · cases hu
      refine .inr ⟨monster, creature, rfl, ?_⟩
      rw [master_setMaster, henter]
    · have hfewer := fewer_exitWorld (h.enterWorld monster health).toTidy hu
      refine .inl fun m => ?_
      rw [← henter]
      exact hfewer m
  | convince this convincer forced =>
    rw [step] at hu
    split_ifs at hu with hmonster
    obtain ⟨⟨v, convinced⟩, hv, rfl⟩ := Option.map_eq_some_iff.mp hu
    rcases convince_cases hv with ⟨-, rfl, -⟩ | ⟨rfl, -⟩
    · exact .inr ⟨this, convincer, rfl, master_setMaster env w this _⟩
    · exact .inl fun _ => .inl rfl
  | changeHealth this healthChange => exact .inl (fewer_changeHealth h.toTidy hu)
  | killSummons this => exact .inl (fewer_killSummons h.toTidy hu)
  | releaseSummons this =>
    cases hu
    exact .inl (fewer_foldl_release _ _)
  | exitWorld this => exact .inl (fewer_exitWorld h.toTidy hu)

/-- Whoever is to be the new master does not follow the monster, directly or through others. -/
def Loyal (kinds : Kinds C) (w : World C) (a : ℕ × Surroundings C (World C) × Action C) : Prop :=
  ∀ this convincer, a.2.2.convinces = some (this, convincer) →
    ∀ n, Chain.after (getDirectOwner kinds w) n convincer ≠ some this

theorem OwnersEnd.step (hends : OwnersEnd kinds w) (h : Books kinds w)
    {a : ℕ × Surroundings C (World C) × Action C} (hloyal : Loyal kinds w a)
    (hu : step kinds w a = some u) : OwnersEnd kinds u := by
  rw [ownersEnd_iff (h.step hu)]
  rw [ownersEnd_iff h] at hends
  rcases step_master h hu with hfewer | ⟨this, convincer, ha, hmaster⟩
  · exact fun c => (hends c).mono hfewer
  · rw [hmaster, Chain.ends_update hends, ← h.getDirectOwner_eq]
    exact hloyal this convincer ha

/-- As long as no monster is given a master that follows it, every search for a final owner ends. -/
theorem ownersEnd_of_loyal (h : ((system kinds).restrict (Loyal kinds)).Reachable w) :
    OwnersEnd kinds w := by
  have hall : Books kinds w ∧ OwnersEnd kinds w := by
    refine h.invariant (fun w => Books kinds w ∧ OwnersEnd kinds w) ?_ ?_
    · intro w hinit
      have hbooks : Books kinds w := books_of_init hinit
      exact ⟨hbooks, (ownersEnd_iff hbooks).mpr fun c => Chain.ends_of_next_none (hinit.1 c)⟩
    · rintro w a u ⟨hbooks, hends⟩ ⟨hloyal, hu⟩
      exact ⟨hbooks.step hu, hends.step hbooks hloyal hu⟩
  exact hall.2

theorem ownersEnd_of_loyal_following : OwnersEnd three following := by
  have hentered : Loyal three nobody (4, plain, .enterWorld .wolf 50) :=
    fun this convincer h => by cases h
  have hplaced : Loyal three (enterWorld nobody .wolf 50) (4, plain, .placeSummon .wolf .bear 50) := by
    intro this convincer h n hn
    cases h
    have hroot : getDirectOwner three (enterWorld nobody .wolf 50) .wolf = none := rfl
    cases Chain.eq_of_after hroot hn
  have hinit : ((system three).restrict (Loyal three)).Reachable nobody := .init init_nobody
  have hfirst := reachable_restrict_step hinit _ hentered rfl
  exact ownersEnd_of_loyal (reachable_restrict_step hfirst _ hplaced rfl)

/-- When a monster has been convinced, the searches still end exactly if its new master did not
follow it. -/
theorem ownersEnd_convince_iff (h : (system kinds).Reachable w) (hends : OwnersEnd kinds w)
    {this convincer : C} {forced : Bool} (hmonster : kinds.isMonster this = true)
    (hu : convince env kinds rounds w this convincer forced = some (u, true)) :
    OwnersEnd kinds u ↔
      ∀ n, Chain.after (getDirectOwner kinds w) n convincer ≠ some this := by
  have hbooks := reachable_books h
  have hmaster : u._master = Function.update w._master this (some convincer) := by
    rcases convince_cases hu with ⟨-, rfl, -⟩ | ⟨-, hfalse⟩
    · exact master_setMaster env w this _
    · cases hfalse
  rw [ownersEnd_iff hbooks] at hends
  rw [ownersEnd_iff (hbooks.convince hmonster hu), hmaster, Chain.ends_update hends,
    hbooks.getDirectOwner_eq]

/-- A monster that its own summon convinces: nobody finds its final owner any more. -/
theorem ownersEnd_convince_iff_following :
    ∃ u, convince plain three 4 following .wolf .bear false = some (u, true) ∧
      ¬ OwnersEnd three u := by
  have hends : OwnersEnd three following := fun c => ⟨3, by revert c; decide⟩
  obtain ⟨⟨u, convinced⟩, hu⟩ : ∃ r, convince plain three 4 following .wolf .bear false = some r :=
    ⟨_, rfl⟩
  obtain rfl : convinced = true := (Prod.mk.inj (Option.some.inj hu)).2.symm
  refine ⟨u, hu, fun hcircle => ?_⟩
  exact (ownersEnd_convince_iff reachable_following hends rfl hu).mp hcircle 1 rfl

end TyanoCore.Summons
