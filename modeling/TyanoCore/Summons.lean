import Mathlib.Data.Int.Notation
import Mathlib.Data.List.Nodup
import Mathlib.Logic.Function.Basic
import TyanoCore.Run

/-!
# Summons

A monster refers to its master, and the master keeps a list of the monsters that refer to it.  The
list is not written where the reference is: `setMaster` tells every creature around, the old master
and the new one, and each looks for itself among them.  `killSummons` takes the list away before it
goes through it, kills every monster on it, which kills that monster's own summons when it leaves
the world, and lets it go.
-/

namespace TyanoCore.Summons

open Transition

variable {C : Type*} [DecidableEq C]

/-- What stays the same about creatures. -/
structure Kinds (C : Type*) where
  isPlayer : C → Bool
  isMonster : C → Bool
  /-- What a monster's type says. -/
  isConvinceable : C → Bool
  /-- The flag `PlayerFlag_CanConvinceAll` of a player. -/
  canConvinceAll : C → Bool

/-- What the rest of the server answers in the course of one call. -/
structure Surroundings (C : Type*) (World : Type*) where
  /-- The creatures that the map finds around the position of a creature. -/
  around : World → C → List C
  getMaxHealth : C → ℤ
  /-- A creature whose health has come to zero calls `exitWorld`: no event and no killer denies it. -/
  dies : C → Bool
  /-- The tile of a creature lets it go. -/
  testRemoveCreature : C → Bool

/-- What the functions below read and write of all creatures. -/
@[ext]
structure World (C : Type*) where
  isInWorld : C → Bool
  health : C → ℤ
  /-- `nullptr` for what is no monster. -/
  _master : C → Option C
  summons : C → List C

namespace World

variable (w : World C)

/-- A creature in the world stands on a tile. -/
def isAlive (c : C) : Bool := w.isInWorld c && decide (0 < w.health c)

def setInWorld (c : C) (inWorld : Bool) : World C :=
  { w with isInWorld := Function.update w.isInWorld c inWorld }

def setHealth (c : C) (health : ℤ) : World C :=
  { w with health := Function.update w.health c health }

def setSummons (c : C) (summons : List C) : World C :=
  { w with summons := Function.update w.summons c summons }

def addSummon (this creature : C) : World C := w.setSummons this (w.summons this ++ [creature])

def removeSummon (this creature : C) : World C := w.setSummons this ((w.summons this).erase creature)

/-- Without what it does to the thinking of the creature. -/
def onMonsterMasterChanged (this monster : C) (previousMaster : Option C) : World C :=
  if w._master monster = some this then
    w.addSummon this monster
  else if previousMaster = some this then
    w.removeSummon this monster
  else
    w

end World

/-! ## Changing the master -/

variable (env : Surroundings C (World C))

/-- One creature is appended unless it is there. -/
def addSpectator (spectators : List C) (creature : C) : List C :=
  if creature ∈ spectators then spectators else spectators ++ [creature]

/-- The creatures that `notifyMasterChanged` tells. -/
def spectatorsOf (w : World C) (monster : C) (previousMaster : Option C) : List C :=
  if w.isAlive monster then
    let spectators := (env.around w monster).foldl addSpectator []
    let spectators :=
      ((w._master monster).toList.flatMap (env.around w)).foldl addSpectator spectators
    let spectators := previousMaster.toList.foldl addSpectator spectators
    (w._master monster).toList.foldl addSpectator spectators
  else
    previousMaster.toList ++ (w._master monster).toList

def notifyMasterChanged (w : World C) (monster : C) (previousMaster : Option C) : World C :=
  (spectatorsOf env w monster previousMaster).foldl
    (fun w spectator => w.onMonsterMasterChanged spectator monster previousMaster) w

def setMaster (w : World C) (this : C) (master : Option C) : World C :=
  if master = w._master this then
    w
  else
    notifyMasterChanged env { w with _master := Function.update w._master this master } this
      (w._master this)

def release (w : World C) (this : C) : World C := setMaster env w this none

def releaseSummons (w : World C) (this : C) : World C :=
  (w.summons this).foldl (release env) (w.setSummons this [])

/-! ## Leaving the world -/

variable (kinds : Kinds C)

/-- `World::removeCreature` with the `willExitWorld` of the creature; `killSummons` is passed in. -/
def exitWorld (killSummons : World C → C → Option (World C)) (w : World C) (this : C) :
    Option (World C) :=
  if w.isInWorld this = false ∨ env.testRemoveCreature this = false then
    some w
  else
    (killSummons (if kinds.isMonster this then release env w this else w) this).map
      (World.setInWorld · this false)

def onDeath (killSummons : World C → C → Option (World C)) (w : World C) (this : C) :
    Option (World C) :=
  if env.dies this then exitWorld env kinds killSummons w this else some w

/-- Without what it tells the actor and the spectators. -/
def changeHealth (killSummons : World C → C → Option (World C)) (w : World C) (this : C)
    (healthChange : ℤ) : Option (World C) :=
  if w.isAlive this = false then
    some w
  else
    let previousHealth := w.health this
    let newHealth :=
      if healthChange > 0 then
        previousHealth + min healthChange (env.getMaxHealth this - previousHealth)
      else
        max 0 (previousHealth + healthChange)
    if newHealth = previousHealth then
      some w
    else if newHealth = 0 then
      onDeath env kinds killSummons (w.setHealth this newHealth) this
    else
      some (w.setHealth this newHealth)

/-- With a bound on how deep summons of summons are gone into; `none` when it does not suffice. -/
def killSummons : ℕ → World C → C → Option (World C)
  | 0, _, _ => none
  | depth + 1, w, this =>
    (w.summons this).foldlM
      (fun w summon => (changeHealth env kinds (killSummons depth) w summon (-w.health summon)).map
        (release env · summon))
      (w.setSummons this [])

/-! ## Convincing -/

def getDirectOwner (w : World C) (this : C) : Option C :=
  if kinds.isMonster this then w._master this else none

/-- The loop over the owners, with a bound on its rounds; `none` when it is still going then. -/
def getFinalOwner (w : World C) : ℕ → C → Option C
  | 0, _ => none
  | rounds + 1, nextOwner =>
    match getDirectOwner kinds w nextOwner with
    | none => some nextOwner
    | some owner => getFinalOwner w rounds owner

def hasController (rounds : ℕ) (w : World C) (this : C) : Option Bool :=
  (getFinalOwner kinds w rounds this).map kinds.isPlayer

def canBeConvincedBy (rounds : ℕ) (w : World C) (this convincer : C) (forced : Bool) :
    Option Bool :=
  if convincer = this then
    some false
  else if !forced && (kinds.isPlayer convincer && !kinds.isConvinceable this &&
      !kinds.canConvinceAll convincer) then
    some false
  else
    match w._master this with
    | none => some true
    | some master =>
      if forced then
        some (convincer != master)
      else
        (hasController kinds rounds w master).map fun controlled =>
          !controlled && convincer != master

def convince (rounds : ℕ) (w : World C) (this convincer : C) (forced : Bool) :
    Option (World C × Bool) :=
  (canBeConvincedBy kinds rounds w this convincer forced).map fun can =>
    if can then (setMaster env w this (some convincer), true) else (w, false)

/-- The creature is placed in the world with its health. -/
def enterWorld (w : World C) (this : C) (health : ℤ) : World C :=
  if w.isInWorld this then w else (w.setHealth this health).setInWorld this true

/-- `monster` is the one that has been created; `rounds` bounds every loop. -/
def placeSummon (rounds : ℕ) (w : World C) (creature monster : C) (health : ℤ) :
    Option (World C) :=
  if w.isInWorld monster then
    some w
  else
    (convince env kinds rounds (enterWorld w monster health) monster creature true).bind
      fun (w, convinced) =>
        if convinced then some w
        else exitWorld env kinds (killSummons env kinds rounds) w monster

/-! ## Runs -/

/-- The calls that change masters, with what the rest of the server answers to each. -/
inductive Action (C : Type*) where
  | enterWorld (this : C) (health : ℤ)
  | placeSummon (creature monster : C) (health : ℤ)
  | convince (this convincer : C) (forced : Bool)
  | changeHealth (this : C) (healthChange : ℤ)
  | killSummons (this : C)
  | releaseSummons (this : C)
  | exitWorld (this : C)

/-- A call with the answers it gets and a bound on its loops; `none` when a loop goes on beyond it
or when the call is made of a monster that is none. -/
def step (w : World C) : ℕ × Surroundings C (World C) × Action C → Option (World C)
  | (_, _, .enterWorld this health) => some (enterWorld w this health)
  | (rounds, env, .placeSummon creature monster health) =>
    if kinds.isMonster monster then placeSummon env kinds rounds w creature monster health else none
  | (rounds, env, .convince this convincer forced) =>
    if kinds.isMonster this then
      (convince env kinds rounds w this convincer forced).map Prod.fst
    else
      none
  | (rounds, env, .changeHealth this healthChange) =>
    changeHealth env kinds (killSummons env kinds rounds) w this healthChange
  | (rounds, env, .killSummons this) => killSummons env kinds rounds w this
  | (_, env, .releaseSummons this) => some (releaseSummons env w this)
  | (rounds, env, .exitWorld this) => exitWorld env kinds (killSummons env kinds rounds) w this

/-- Before anything has happened no monster has a master. -/
def init (w : World C) : Prop := (∀ m, w._master m = none) ∧ ∀ c, w.summons c = []

def system : System (World C) (ℕ × Surroundings C (World C) × Action C) :=
  System.ofStep init (step kinds)

/-! ## What a change of the master does to the lists -/

theorem mem_foldl_addSpectator {visited spectators : List C} {c : C} :
    c ∈ visited.foldl addSpectator spectators ↔ c ∈ spectators ∨ c ∈ visited := by
  induction visited generalizing spectators with
  | nil => exact (or_iff_left List.not_mem_nil).symm
  | cons creature visited ih =>
    rw [List.foldl_cons, ih, addSpectator, List.mem_cons]
    split_ifs with hmem
    · constructor
      · exact Or.imp_right .inr
      · rintro (hc | rfl | hc)
        · exact .inl hc
        · exact .inl hmem
        · exact .inr hc
    · rw [List.mem_append, List.mem_singleton, or_assoc]

theorem nodup_foldl_addSpectator {visited spectators : List C} (h : spectators.Nodup) :
    (visited.foldl addSpectator spectators).Nodup := by
  induction visited generalizing spectators with
  | nil => exact h
  | cons creature visited ih =>
    rw [List.foldl_cons]
    apply ih
    rw [addSpectator]
    split_ifs with hmem
    · exact h
    · exact h.append (List.nodup_singleton creature) (List.disjoint_singleton.mpr hmem)

/-- Both masters are told, and nobody is told twice. -/
theorem spectatorsOf_spec (w : World C) (monster : C) {previousMaster : Option C}
    (hne : w._master monster ≠ previousMaster) :
    (spectatorsOf env w monster previousMaster).Nodup ∧
      ∀ c, previousMaster = some c ∨ w._master monster = some c →
        c ∈ spectatorsOf env w monster previousMaster := by
  rw [spectatorsOf]
  split_ifs with halive
  · constructor
    · exact nodup_foldl_addSpectator (nodup_foldl_addSpectator (nodup_foldl_addSpectator
        (nodup_foldl_addSpectator List.nodup_nil)))
    · intro c hc
      rw [mem_foldl_addSpectator, mem_foldl_addSpectator, Option.mem_toList, Option.mem_toList]
      rcases hc with hc | hc
      · exact .inl (.inr hc)
      · exact .inr hc
  · constructor
    · cases hmaster : w._master monster with
      | none =>
        rw [Option.toList_none, List.append_nil]
        cases previousMaster with
        | none => exact List.nodup_nil
        | some previous => exact List.nodup_singleton previous
      | some master =>
        cases previousMaster with
        | none => exact List.nodup_singleton master
        | some previous =>
          apply List.nodup_cons.mpr
          refine ⟨fun hmem => hne ?_, List.nodup_singleton master⟩
          rw [hmaster, List.mem_singleton.mp hmem]
    · intro c hc
      rw [List.mem_append, Option.mem_toList, Option.mem_toList]
      exact hc

/-- The list of a creature that is told of a change. -/
def World.told (w : World C) (monster : C) (previousMaster : Option C) (this : C) : List C :=
  if w._master monster = some this then
    w.summons this ++ [monster]
  else if previousMaster = some this then
    (w.summons this).erase monster
  else
    w.summons this

theorem World.onMonsterMasterChanged_eq (w : World C) (this monster : C)
    (previousMaster : Option C) : w.onMonsterMasterChanged this monster previousMaster =
      w.setSummons this (w.told monster previousMaster this) := by
  rw [World.onMonsterMasterChanged, World.told]
  split_ifs
  · rfl
  · rfl
  · rw [World.setSummons, Function.update_eq_self]

theorem foldl_onMonsterMasterChanged {spectators : List C} (hnodup : spectators.Nodup)
    (w : World C) (monster : C) (previousMaster : Option C) :
    spectators.foldl
        (fun w spectator => w.onMonsterMasterChanged spectator monster previousMaster) w =
      { w with summons := fun c =>
          if c ∈ spectators then w.told monster previousMaster c else w.summons c } := by
  induction spectators generalizing w with
  | nil => rfl
  | cons spectator spectators ih =>
    obtain ⟨hnot, hnodup⟩ := List.nodup_cons.mp hnodup
    rw [List.foldl_cons, ih hnodup, World.onMonsterMasterChanged_eq, World.setSummons]
    congr 1
    funext c
    by_cases hc : c = spectator
    · rw [hc, if_neg hnot, if_pos List.mem_cons_self]
      exact Function.update_self ..
    · have hmem : c ∈ spectator :: spectators ↔ c ∈ spectators :=
        List.mem_cons.trans (or_iff_right hc)
      simp only [hmem, World.told, Function.update_of_ne hc]

/-- The monster has passed to another master, and both masters have written it down. -/
def World.passed (w : World C) (monster : C) (master : Option C) : World C :=
  { w with
    _master := Function.update w._master monster master
    summons := fun c =>
      if master = some c then w.summons c ++ [monster]
      else if w._master monster = some c then (w.summons c).erase monster
      else w.summons c }

theorem setMaster_eq (w : World C) (this : C) (master : Option C) :
    setMaster env w this master =
      if master = w._master this then w else w.passed this master := by
  rw [setMaster]
  split_ifs with hsame
  · rfl
  · have hmaster : Function.update w._master this master this = master :=
      Function.update_self ..
    obtain ⟨hnodup, hmem⟩ := spectatorsOf_spec env
      { w with _master := Function.update w._master this master } this
      (hmaster.trans_ne hsame)
    rw [notifyMasterChanged, foldl_onMonsterMasterChanged hnodup, World.passed]
    congr 1
    funext c
    simp only [World.told, hmaster]
    split_ifs with htold hnew hold hnew hold
    · rfl
    · rfl
    · rfl
    · exact absurd (hmem c (.inr (hmaster.trans hnew))) htold
    · exact absurd (hmem c (.inl hold)) htold
    · rfl

/-! ## The books -/

/-- What is on a list is a monster that refers to the creature that has the list, and is there
once. -/
structure Tidy (w : World C) : Prop where
  isMonster : ∀ {m c}, m ∈ w.summons c → kinds.isMonster m = true
  master : ∀ {m c}, m ∈ w.summons c → w._master m = some c
  nodup : ∀ c, (w.summons c).Nodup

/-- A monster that refers to a master who has not got it on the list. -/
def Pending (w : World C) (m : C) : Prop := ∃ c, w._master m = some c ∧ m ∉ w.summons c

/-- The lists are those of the monsters that refer to a creature. -/
structure Books (w : World C) : Prop extends Tidy kinds w where
  listed : ∀ {m c}, w._master m = some c → m ∈ w.summons c

variable {kinds} {w : World C}

omit [DecidableEq C] in
theorem Books.not_pending (h : Books kinds w) (m : C) : ¬ Pending w m := by
  rintro ⟨c, hmaster, hnot⟩
  exact hnot (h.listed hmaster)

omit [DecidableEq C] in
theorem Tidy.books (h : Tidy kinds w) (hpending : ∀ m, ¬ Pending w m) : Books kinds w where
  toTidy := h
  listed {m c} hmaster := by
    by_contra hnot
    exact hpending m ⟨c, hmaster, hnot⟩

section passed

variable {monster : C} {master : Option C}

theorem mem_summons_passed (h : Tidy kinds w) {m c : C} :
    m ∈ (w.passed monster master).summons c ↔
      if m = monster then master = some c else m ∈ w.summons c := by
  simp only [World.passed]
  split_ifs with hnew hm hold hm hm
  · rw [hm]
    exact iff_of_true (List.mem_append_right _ (List.mem_singleton_self monster)) hnew
  · rw [List.mem_append, List.mem_singleton]
    exact or_iff_left hm
  · rw [hm, (h.nodup c).mem_erase_iff]
    exact iff_of_false (fun hmem => hmem.1 rfl) hnew
  · rw [(h.nodup c).mem_erase_iff]
    exact and_iff_right hm
  · rw [hm]
    exact iff_of_false (fun hmem => hold (h.master hmem)) hnew
  · rfl

theorem Tidy.passed (h : Tidy kinds w) (hmonster : kinds.isMonster monster = true)
    (hne : master ≠ w._master monster) : Tidy kinds (w.passed monster master) where
  isMonster {m c} hmem := by
    rw [mem_summons_passed h] at hmem
    split_ifs at hmem with hm
    · rw [hm]
      exact hmonster
    · exact h.isMonster hmem
  master {m c} hmem := by
    rw [mem_summons_passed h] at hmem
    split_ifs at hmem with hm
    · rw [hm]
      exact (Function.update_self ..).trans hmem
    · exact (Function.update_of_ne hm ..).trans (h.master hmem)
  nodup c := by
    simp only [World.passed]
    split_ifs with hnew
    · have hnot : monster ∉ w.summons c := fun hmem => hne (hnew.trans (h.master hmem).symm)
      exact (h.nodup c).append (List.nodup_singleton monster) (List.disjoint_singleton.mpr hnot)
    · exact (h.nodup c).erase monster
    · exact h.nodup c

theorem pending_passed (h : Tidy kinds w) {m : C} (hm : Pending (w.passed monster master) m) :
    Pending w m := by
  obtain ⟨c, hmaster, hnot⟩ := hm
  rw [mem_summons_passed h] at hnot
  by_cases hm : m = monster
  · rw [if_pos hm] at hnot
    rw [hm] at hmaster
    exact absurd ((Function.update_self ..).symm.trans hmaster) hnot
  · rw [if_neg hm] at hnot
    exact ⟨c, (Function.update_of_ne hm ..).symm.trans hmaster, hnot⟩

end passed

theorem Tidy.setMaster (h : Tidy kinds w) {this : C} (hmonster : kinds.isMonster this = true)
    (master : Option C) : Tidy kinds (setMaster env w this master) := by
  rw [setMaster_eq]
  split_ifs with hsame
  · exact h
  · exact h.passed hmonster hsame

theorem pending_setMaster (h : Tidy kinds w) {this : C} {master : Option C} {m : C}
    (hm : Pending (setMaster env w this master) m) : Pending w m := by
  rw [setMaster_eq] at hm
  split_ifs at hm with hsame
  · exact hm
  · exact pending_passed h hm

theorem master_setMaster (w : World C) (this : C) (master : Option C) :
    (setMaster env w this master)._master = Function.update w._master this master := by
  rw [setMaster_eq]
  split_ifs with hsame
  · rw [hsame, Function.update_eq_self]
  · rfl

theorem Books.setMaster (h : Books kinds w) {this : C} (hmonster : kinds.isMonster this = true)
    (master : Option C) : Books kinds (setMaster env w this master) :=
  (h.toTidy.setMaster env hmonster master).books fun m hm =>
    h.not_pending m (pending_setMaster env h.toTidy hm)

end TyanoCore.Summons
