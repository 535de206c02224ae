import Mathlib.Data.Int.Notation
import Mathlib.Data.List.Nodup
import Mathlib.Data.List.Perm.Basic
import Mathlib.Logic.Function.Basic
import TyanoCore.Run

/-!
# Spawns

A spawn has blocks for monsters, the monsters it has spawned, and a task that looks after the blocks
without a monster.  The task is started when a monster leaves the spawn or does not get into the world,
and by the task itself as long as fewer monsters are spawned than there are blocks.
-/

namespace TyanoCore

structure SpawnBlock where
  interval : ℤ
  lastSpawn : ℤ

structure SpawnMonster where
  isAlive : Bool
  isInSpawnZone : Bool
  hasSpawn : Bool

/-- A spawn with its blocks 1 to `spawnCount`, its monsters and the tasks that wait in the scheduler. -/
structure Spawn where
  spawnCount : ℕ
  spawnMap : ℕ → SpawnBlock
  spawnedMap : List (ℕ × ℕ)
  checkSpawnEvent : ℕ
  pending : List ℕ
  nextTask : ℕ
  monsters : ℕ → SpawnMonster
  nextMonster : ℕ
  started : Bool

/-- What the world gives a check: the clock when the monsters and when the blocks are looked at, whether
a player is near a block, whether its monster enters the world, and the configured rate. -/
structure CheckInput where
  sweepClock : ℕ → ℤ
  clock : ℕ → ℤ
  findPlayer : ℕ → Bool
  entersWorld : ℕ → Bool
  rateSpawn : ℕ

namespace Spawn

/-- A task of the scheduler; its ids are not 0. -/
def addTask (s : Spawn) : Spawn :=
  { s with checkSpawnEvent := s.nextTask, pending := s.pending ++ [s.nextTask]
           nextTask := s.nextTask + 1 }

/-- `startEvent`. -/
def startEvent (s : Spawn) : Spawn :=
  if s.checkSpawnEvent = 0 then s.addTask else s

/-- `removeMonster`. -/
def removeMonster (s : Spawn) (monster : ℕ) : Spawn :=
  { s with spawnedMap := s.spawnedMap.eraseP fun entry => entry.2 = monster }

/-- `Monster::removeFromSpawn`. -/
def removeFromSpawn (s : Spawn) (monster : ℕ) : Spawn :=
  if !(s.monsters monster).hasSpawn then s
  else
    let s := (s.removeMonster monster).startEvent
    { s with monsters :=
        Function.update s.monsters monster { s.monsters monster with hasSpawn := false } }

def setLastSpawn (spawnMap : ℕ → SpawnBlock) (spawnId : ℕ) (time : ℤ) : ℕ → SpawnBlock :=
  Function.update spawnMap spawnId { spawnMap spawnId with lastSpawn := time }

/-- `spawnMonster`. -/
def spawnMonster (s : Spawn) (spawnId : ℕ) (time : ℤ) (entersWorld : Bool) : Spawn :=
  let monster := s.nextMonster
  let s := { s with
    spawnMap := setLastSpawn s.spawnMap spawnId time
    nextMonster := monster + 1
    monsters := Function.update s.monsters monster
      { isAlive := entersWorld, isInSpawnZone := true, hasSpawn := true } }
  if entersWorld then { s with spawnedMap := s.spawnedMap ++ [(spawnId, monster)] }
  else s.removeFromSpawn monster

def ids (s : Spawn) : List ℕ := List.range' 1 s.spawnCount

/-- `startup`. -/
def startup (s : Spawn) (clock : ℕ → ℤ) (entersWorld : ℕ → Bool) : Spawn :=
  { s.ids.foldl (fun s spawnId => s.spawnMonster spawnId (clock spawnId) (entersWorld spawnId)) s with
    started := true }

/-- The first loop of `checkSpawn`: dead monsters are dropped, and those out of the zone go to the key
0. -/
def sweep (monsters : ℕ → SpawnMonster) (clock : ℕ → ℤ) :
    List (ℕ × ℕ) → (ℕ → SpawnBlock) → List (ℕ × ℕ) × (ℕ → SpawnBlock)
  | [], spawnMap => ([], spawnMap)
  | (spawnId, monster) :: rest, spawnMap =>
    if !(monsters monster).isAlive then
      sweep monsters clock rest
        (if spawnId ≠ 0 then setLastSpawn spawnMap spawnId (clock spawnId) else spawnMap)
    else
      let (spawnedMap, spawnMap) := sweep monsters clock rest spawnMap
      if !(monsters monster).isInSpawnZone && spawnId ≠ 0 then ((0, monster) :: spawnedMap, spawnMap)
      else ((spawnId, monster) :: spawnedMap, spawnMap)

/-- Whether a monster is registered under an id. -/
def Registered (s : Spawn) (spawnId : ℕ) : Prop := spawnId ∈ s.spawnedMap.map Prod.fst

instance (s : Spawn) (spawnId : ℕ) : Decidable (s.Registered spawnId) :=
  inferInstanceAs (Decidable (_ ∈ _))

/-- The second loop of `checkSpawn`. -/
def fill (input : CheckInput) : List ℕ → ℕ → Spawn → Spawn
  | [], _, s => s
  | spawnId :: rest, spawnCount, s =>
    if s.Registered spawnId then fill input rest spawnCount s
    else if (s.spawnMap spawnId).lastSpawn + (s.spawnMap spawnId).interval ≤ input.clock spawnId then
      if input.findPlayer spawnId then
        fill input rest spawnCount
          { s with spawnMap := setLastSpawn s.spawnMap spawnId (input.clock spawnId) }
      else
        let s := s.spawnMonster spawnId (input.clock spawnId) (input.entersWorld spawnId)
        if input.rateSpawn ≤ spawnCount + 1 then s else fill input rest (spawnCount + 1) s
    else fill input rest spawnCount s

/-- `checkSpawn`. -/
def checkSpawn (s : Spawn) (input : CheckInput) : Spawn :=
  let (spawnedMap, spawnMap) := sweep s.monsters input.sweepClock s.spawnedMap s.spawnMap
  let s := { s with checkSpawnEvent := 0, spawnedMap := spawnedMap, spawnMap := spawnMap }
  let s := fill input s.ids 0 s
  if s.spawnedMap.length < s.spawnCount then s.addTask else s

end Spawn

/-- What happens to a spawn. -/
inductive SpawnAction
  | startup (clock : ℕ → ℤ) (entersWorld : ℕ → Bool)
  | checkSpawn (task : ℕ) (input : CheckInput)
  | die (monster : ℕ)
  | walk (monster : ℕ) (isInSpawnZone : Bool)
  | removeFromSpawn (monster : ℕ)

namespace Spawn

/-- A spawn starts up once, and a task runs once. -/
def step (s : Spawn) : SpawnAction → Option Spawn
  | .startup clock entersWorld => if s.started then none else some (s.startup clock entersWorld)
  | .checkSpawn task input =>
    if task ∈ s.pending then some ({ s with pending := s.pending.erase task }.checkSpawn input)
    else none
  | .die monster =>
    some { s with monsters :=
      Function.update s.monsters monster { s.monsters monster with isAlive := false } }
  | .walk monster isInSpawnZone =>
    some { s with monsters :=
      Function.update s.monsters monster { s.monsters monster with isInSpawnZone := isInSpawnZone } }
  | .removeFromSpawn monster => some (s.removeFromSpawn monster)

/-- A spawn as it is loaded. -/
structure Loaded (s : Spawn) : Prop where
  spawnedMap_eq : s.spawnedMap = []
  checkSpawnEvent_eq : s.checkSpawnEvent = 0
  pending_eq : s.pending = []
  nextTask_pos : 0 < s.nextTask
  hasSpawn_eq : ∀ monster, (s.monsters monster).hasSpawn = false
  not_started : s.started = false

def system : Transition.System Spawn SpawnAction := .ofStep Loaded step

/-! ## Before a check -/

/-- The ids that no living monster in the zone is registered under. -/
def emptyIds (s : Spawn) : List ℕ :=
  s.ids.filter fun spawnId => !s.spawnedMap.any fun entry =>
    entry.1 = spawnId && (s.monsters entry.2).isAlive && (s.monsters entry.2).isInSpawnZone

/-- The living monsters that have wandered off. -/
def wandered (s : Spawn) : ℕ :=
  s.spawnedMap.countP fun entry =>
    (s.monsters entry.2).isAlive && (entry.1 = 0 || !(s.monsters entry.2).isInSpawnZone)

/-- When a monster was last spawned or found dead. -/
def lastSpawn (s : Spawn) (input : CheckInput) (spawnId : ℕ) : ℤ :=
  if s.spawnedMap.any fun entry => entry.1 = spawnId && !(s.monsters entry.2).isAlive then
    input.sweepClock spawnId
  else (s.spawnMap spawnId).lastSpawn

/-- The ids that a check tries to spawn a monster for. -/
def triedIds (s : Spawn) (input : CheckInput) : List ℕ :=
  (s.emptyIds.filter fun spawnId =>
    s.lastSpawn input spawnId + (s.spawnMap spawnId).interval ≤ input.clock spawnId &&
      !input.findPlayer spawnId).take (max 1 input.rateSpawn)

/-- The ids without a monster that a check leaves. -/
def leftIds (s : Spawn) (input : CheckInput) : ℕ :=
  s.emptyIds.length - (s.triedIds input).countP input.entersWorld

/-- A check in which a monster does not get into the world leaves no more ids than monsters have
wandered off; a check in which all get there leaves more, or none. -/
def Settles (s : Spawn) (input : CheckInput) : Prop :=
  if (s.triedIds input).all input.entersWorld then
    s.leftIds input = 0 ∨ s.wandered < s.leftIds input
  else s.leftIds input ≤ s.wandered

/-! ## Keys and tasks -/

variable {s : Spawn} {input : CheckInput}

/-- The ids that monsters are registered under. -/
def keys (s : Spawn) : List ℕ := s.spawnedMap.map Prod.fst

/-- The event of the spawn, the tasks that wait and the next id. -/
def tasks (s : Spawn) : ℕ × List ℕ × ℕ := (s.checkSpawnEvent, s.pending, s.nextTask)

/-- What `startEvent` does to the tasks. -/
def startTask : ℕ × List ℕ × ℕ → ℕ × List ℕ × ℕ
  | (event, pending, next) =>
    if event = 0 then (next, pending ++ [next], next + 1) else (event, pending, next)

theorem tasks_startEvent (s : Spawn) : s.startEvent.tasks = startTask s.tasks := by
  rw [startEvent, tasks, tasks, startTask]
  split
  · rfl
  · rfl

/-- A task is started once. -/
theorem startTask_startTask {t : ℕ × List ℕ × ℕ} (h : 0 < t.2.2) :
    startTask (startTask t) = startTask t := by
  obtain ⟨event, pending, next⟩ := t
  by_cases hevent : event = 0
  · have hstart : startTask (event, pending, next) = (next, pending ++ [next], next + 1) :=
      if_pos hevent
    rw [hstart]
    exact if_neg (Nat.ne_of_gt h)
  · have hstart : startTask (event, pending, next) = (event, pending, next) := if_neg hevent
    rw [hstart, hstart]

theorem startTask_pos {t : ℕ × List ℕ × ℕ} (h : 0 < t.2.2) : 0 < (startTask t).2.2 := by
  obtain ⟨event, pending, next⟩ := t
  rw [startTask]
  split
  · exact Nat.succ_pos next
  · exact h

/-- Starting the task changes nothing else. -/
theorem startEvent_frame (s : Spawn) : s.startEvent.spawnedMap = s.spawnedMap ∧
    s.startEvent.spawnMap = s.spawnMap ∧ s.startEvent.spawnCount = s.spawnCount ∧
    s.startEvent.started = s.started ∧ s.startEvent.nextMonster = s.nextMonster := by
  rw [startEvent]
  split <;> exact ⟨rfl, rfl, rfl, rfl, rfl⟩

/-- The monsters that are registered have been created. -/
def Fresh (s : Spawn) : Prop := ∀ entry ∈ s.spawnedMap, entry.2 < s.nextMonster

/-- What spawning a monster for an id changes. -/
structure Tried (spawnId : ℕ) (entersWorld : Bool) (s s' : Spawn) : Prop where
  keys_eq : s'.keys = s.keys ++ if entersWorld then [spawnId] else []
  tasks_eq : s'.tasks = if entersWorld then s.tasks else startTask s.tasks
  spawnMap_eq : ∀ i, i ≠ spawnId → s'.spawnMap i = s.spawnMap i
  spawnCount_eq : s'.spawnCount = s.spawnCount
  started_eq : s'.started = s.started
  fresh : s'.Fresh

theorem spawnMonster_spec (h : s.Fresh) (spawnId : ℕ) (time : ℤ) (entersWorld : Bool) :
    Tried spawnId entersWorld s (s.spawnMonster spawnId time entersWorld) := by
  have hmap (i : ℕ) (hi : i ≠ spawnId) : setLastSpawn s.spawnMap spawnId time i = s.spawnMap i :=
    Function.update_of_ne hi _ _
  cases entersWorld with
  | true =>
    refine ⟨List.map_append, rfl, hmap, rfl, rfl, ?_⟩
    intro entry hentry
    show entry.2 < s.nextMonster + 1
    apply (List.mem_append.mp hentry).elim
    · intro hold
      exact Nat.lt_succ_of_lt (h entry hold)
    · intro hnew
      rw [List.mem_singleton.mp hnew]
      exact Nat.lt_succ_self _
  | false =>
    -- the monster was never registered
    have herase : s.spawnedMap.eraseP (fun entry => entry.2 = s.nextMonster) = s.spawnedMap := by
      apply List.eraseP_of_forall_not
      intro entry hentry
      rw [decide_eq_true_eq]
      exact Nat.ne_of_lt (h entry hentry)
    let created : Spawn := { s with
      spawnMap := setLastSpawn s.spawnMap spawnId time
      nextMonster := s.nextMonster + 1
      monsters := Function.update s.monsters s.nextMonster
        { isAlive := false, isInSpawnZone := true, hasSpawn := true } }
    have hspawn : s.spawnMonster spawnId time false = created.removeFromSpawn s.nextMonster := rfl
    have hhas : (created.monsters s.nextMonster).hasSpawn = true := by
      show (Function.update s.monsters s.nextMonster _ s.nextMonster).hasSpawn = true
      rw [Function.update_self]
    have hcreated : created.removeMonster s.nextMonster = created := by
      show ({ created with spawnedMap := s.spawnedMap.eraseP _ } : Spawn) = created
      rw [herase]
    obtain ⟨hspawned, hspawnMap, hcount, hstarted, hnext⟩ := created.startEvent_frame
    rw [hspawn, removeFromSpawn, hhas, Bool.not_true, if_neg Bool.false_ne_true, hcreated]
    refine ⟨?_, ?_, ?_, hcount, hstarted, ?_⟩
    · show created.startEvent.spawnedMap.map Prod.fst = s.keys ++ []
      rw [hspawned, List.append_nil]
      rfl
    · exact created.tasks_startEvent
    · intro i hi
      show created.startEvent.spawnMap i = _
      rw [hspawnMap]
      exact hmap i hi
    · intro entry hentry
      show entry.2 < created.startEvent.nextMonster
      have hold : entry ∈ created.startEvent.spawnedMap := hentry
      rw [hspawned] at hold
      rw [hnext]
      exact Nat.lt_succ_of_lt (h entry hold)

/-! ## The loops -/

/-- Whether a check tries to spawn a monster for an id. -/
def isDue (s : Spawn) (input : CheckInput) (spawnId : ℕ) : Bool :=
  !decide (s.Registered spawnId) &&
    ((s.spawnMap spawnId).lastSpawn + (s.spawnMap spawnId).interval ≤ input.clock spawnId &&
      !input.findPlayer spawnId)

/-- What the ids that are tried make of a spawn. -/
structure Filled (tried : List ℕ) (entersWorld : ℕ → Bool) (s s' : Spawn) : Prop where
  keys_eq : s'.keys = s.keys ++ tried.filter entersWorld
  tasks_eq : s'.tasks = if tried.all entersWorld then s.tasks else startTask s.tasks
  spawnCount_eq : s'.spawnCount = s.spawnCount
  started_eq : s'.started = s.started
  fresh : s'.Fresh

theorem Filled.refl (entersWorld : ℕ → Bool) (h : s.Fresh) : Filled [] entersWorld s s :=
  ⟨(List.append_nil _).symm, rfl, rfl, rfl, h⟩

/-- One id after the other. -/
theorem Tried.trans {spawnId : ℕ} {tried : List ℕ} {entersWorld : ℕ → Bool} {s' s'' : Spawn}
    (hnext : 0 < s.nextTask) (h : Tried spawnId (entersWorld spawnId) s s')
    (hrest : Filled tried entersWorld s' s'') : Filled (spawnId :: tried) entersWorld s s'' := by
  refine ⟨?_, ?_, hrest.spawnCount_eq.trans h.spawnCount_eq, hrest.started_eq.trans h.started_eq,
    hrest.fresh⟩
  · rw [hrest.keys_eq, h.keys_eq, List.append_assoc, List.filter_cons]
    cases entersWorld spawnId <;> rfl
  · have hpos : 0 < s.tasks.2.2 := hnext
    rw [hrest.tasks_eq, h.tasks_eq, List.all_cons]
    cases entersWorld spawnId with
    | true => rfl
    | false =>
      rw [Bool.false_and, if_neg Bool.false_ne_true, startTask_startTask hpos, ite_self]

theorem Tried.nextTask_pos {spawnId : ℕ} {entersWorld : Bool} {s' : Spawn}
    (h : Tried spawnId entersWorld s s') (hnext : 0 < s.nextTask) : 0 < s'.nextTask := by
  have hpos : 0 < s.tasks.2.2 := hnext
  show 0 < s'.tasks.2.2
  rw [h.tasks_eq]
  cases entersWorld with
  | true => exact hpos
  | false => exact startTask_pos hpos

/-- Other ids are as due as before. -/
theorem filter_isDue_congr {spawnId : ℕ} {rest : List ℕ} {s' : Spawn} (hnot : spawnId ∉ rest)
    (hkeys : ∀ i, i ≠ spawnId → (s'.Registered i ↔ s.Registered i))
    (hmap : ∀ i, i ≠ spawnId → s'.spawnMap i = s.spawnMap i) :
    rest.filter (s'.isDue input) = rest.filter (s.isDue input) := by
  apply List.filter_congr
  intro i hi
  have hne : i ≠ spawnId := by
    rintro rfl
    exact hnot hi
  rw [isDue, isDue, hmap i hne, decide_eq_decide.mpr (hkeys i hne)]

theorem Tried.registered_iff {spawnId : ℕ} {entersWorld : Bool} {s' : Spawn}
    (h : Tried spawnId entersWorld s s') {i : ℕ} (hi : i ≠ spawnId) :
    s'.Registered i ↔ s.Registered i := by
  have hkeys : i ∈ s'.keys ↔ i ∈ s.keys := by
    rw [h.keys_eq, List.mem_append]
    cases entersWorld with
    | true => exact or_iff_left fun hin => hi (List.mem_singleton.mp hin)
    | false => exact or_iff_left List.not_mem_nil
  exact hkeys

/-- The blocks that are due get a monster each, up to the rate. -/
theorem fill_spec (input : CheckInput) {ids : List ℕ} (hids : ids.Nodup) (spawnCount : ℕ)
    (h : s.Fresh) (hnext : 0 < s.nextTask) :
    Filled ((ids.filter (s.isDue input)).take (max 1 (input.rateSpawn - spawnCount)))
      input.entersWorld s (fill input ids spawnCount s) := by
  induction ids generalizing s spawnCount with
  | nil =>
    rw [List.filter_nil, List.take_nil]
    exact Filled.refl _ h
  | cons spawnId rest ih =>
    obtain ⟨hnot, hrest⟩ := List.nodup_cons.mp hids
    rw [fill, List.filter_cons]
    -- a block is due if it has no monster, its interval is over and no player is near
    by_cases hregistered : s.Registered spawnId
    · have hdue : s.isDue input spawnId = false := by
        rw [isDue, decide_eq_true hregistered, Bool.not_true, Bool.false_and]
      rw [if_pos hregistered, hdue]
      exact ih hrest spawnCount h hnext
    rw [if_neg hregistered]
    by_cases htime : (s.spawnMap spawnId).lastSpawn + (s.spawnMap spawnId).interval ≤
        input.clock spawnId
    · rw [if_pos htime]
      cases hplayer : input.findPlayer spawnId with
      | true =>
        have hdue : s.isDue input spawnId = false := by
          rw [isDue, hplayer, Bool.not_true, Bool.and_false, Bool.and_false]
        rw [if_pos rfl, hdue]
        have hlater := @ih { s with spawnMap := setLastSpawn s.spawnMap spawnId (input.clock spawnId) }
          hrest spawnCount h hnext
        have hcongr := @filter_isDue_congr s input spawnId rest
          { s with spawnMap := setLastSpawn s.spawnMap spawnId (input.clock spawnId) } hnot
          (fun i _ => Iff.rfl) (fun i hi => Function.update_of_ne hi _ _)
        rw [hcongr] at hlater
        exact ⟨hlater.keys_eq, hlater.tasks_eq, hlater.spawnCount_eq, hlater.started_eq,
          hlater.fresh⟩
      | false =>
        have hdue : s.isDue input spawnId = true := by
          rw [isDue, hplayer, decide_eq_false hregistered, decide_eq_true htime]
          rfl
        have htried := spawnMonster_spec h spawnId (input.clock spawnId) (input.entersWorld spawnId)
        have hcongr : rest.filter ((s.spawnMonster spawnId (input.clock spawnId)
            (input.entersWorld spawnId)).isDue input) = rest.filter (s.isDue input) :=
          filter_isDue_congr hnot (fun i hi => htried.registered_iff hi) htried.spawnMap_eq
        rw [if_neg Bool.false_ne_true, hdue, if_pos rfl]
        dsimp only
        split
        · next hrate =>
          -- the rate is reached, and the loop breaks off
          have hone : max 1 (input.rateSpawn - spawnCount) = 0 + 1 := by omega
          rw [hone, List.take_succ_cons, List.take_zero]
          exact htried.trans hnext (Filled.refl _ htried.fresh)
        · next hrate =>
          -- one less is to come
          have hmore : max 1 (input.rateSpawn - spawnCount) =
              max 1 (input.rateSpawn - (spawnCount + 1)) + 1 := by omega
          have hlater := ih hrest (spawnCount + 1) htried.fresh (htried.nextTask_pos hnext)
          rw [hcongr] at hlater
          rw [hmore, List.take_succ_cons]
          exact htried.trans hnext hlater
    · have hdue : s.isDue input spawnId = false := by
        rw [isDue, decide_eq_false htime, Bool.false_and, Bool.and_false]
      rw [if_neg htime, hdue]
      exact ih hrest spawnCount h hnext

/-- At startup a monster is spawned for every block. -/
theorem foldl_spawnMonster_spec (clock : ℕ → ℤ) (entersWorld : ℕ → Bool) (ids : List ℕ)
    (h : s.Fresh) (hnext : 0 < s.nextTask) :
    Filled ids entersWorld s (ids.foldl (fun s spawnId =>
      s.spawnMonster spawnId (clock spawnId) (entersWorld spawnId)) s) := by
  induction ids generalizing s with
  | nil => exact Filled.refl _ h
  | cons spawnId rest ih =>
    have htried := spawnMonster_spec h spawnId (clock spawnId) (entersWorld spawnId)
    exact htried.trans hnext (ih htried.fresh (htried.nextTask_pos hnext))

/-- Where the first loop of a check leaves a monster. -/
def sweepEntry (monsters : ℕ → SpawnMonster) (entry : ℕ × ℕ) : Option (ℕ × ℕ) :=
  if !(monsters entry.2).isAlive then none
  else if !(monsters entry.2).isInSpawnZone && entry.1 ≠ 0 then some (0, entry.2)
  else some entry

theorem sweep_fst (monsters : ℕ → SpawnMonster) (clock : ℕ → ℤ) (entries : List (ℕ × ℕ))
    (spawnMap : ℕ → SpawnBlock) :
    (sweep monsters clock entries spawnMap).1 = entries.filterMap (sweepEntry monsters) := by
  induction entries generalizing spawnMap with
  | nil => rfl
  | cons entry rest ih =>
    obtain ⟨spawnId, monster⟩ := entry
    rw [sweep, List.filterMap_cons, sweepEntry]
    dsimp only
    split
    · exact ih _
    · split
      · rw [ih]
      · rw [ih]

/-- The first loop of a check notes when monsters were found dead. -/
theorem sweep_snd (monsters : ℕ → SpawnMonster) (clock : ℕ → ℤ) (entries : List (ℕ × ℕ))
    (spawnMap : ℕ → SpawnBlock) {spawnId : ℕ} (hid : spawnId ≠ 0) :
    (sweep monsters clock entries spawnMap).2 spawnId =
      if entries.any fun entry => entry.1 = spawnId && !(monsters entry.2).isAlive then
        { spawnMap spawnId with lastSpawn := clock spawnId }
      else spawnMap spawnId := by
  induction entries generalizing spawnMap with
  | nil => rfl
  | cons entry rest ih =>
    obtain ⟨id, monster⟩ := entry
    rw [sweep, List.any_cons]
    dsimp only
    cases halive : (monsters monster).isAlive with
    | false =>
      rw [Bool.not_false, if_pos rfl, ih, Bool.and_true]
      by_cases hsame : id = spawnId
      · rw [hsame, if_pos hid, decide_eq_true rfl, Bool.true_or, if_pos rfl, setLastSpawn,
          Function.update_self]
        exact ite_self _
      · have hother : (if id ≠ 0 then setLastSpawn spawnMap id (clock id) else spawnMap) spawnId =
            spawnMap spawnId := by
          split
          · exact Function.update_of_ne (fun heq => hsame heq.symm) _ _
          · rfl
        rw [hother, decide_eq_false hsame, Bool.false_or]
    | true =>
      rw [Bool.not_true, if_neg Bool.false_ne_true, Bool.and_false, Bool.false_or, ← ih]
      split <;> rfl

/-! ## Counting -/

/-- The ids without a monster. -/
def unregistered (s : Spawn) : ℕ := s.ids.countP fun spawnId => !decide (s.Registered spawnId)

theorem mem_ids {spawnId : ℕ} : spawnId ∈ s.ids ↔ 1 ≤ spawnId ∧ spawnId ≤ s.spawnCount := by
  rw [ids, List.mem_range'_1]
  omega

theorem nodup_ids (s : Spawn) : s.ids.Nodup := List.nodup_range'

/-- The keys are ids, each but 0 at most once. -/
structure Keyed (s : Spawn) : Prop where
  le : ∀ k ∈ s.keys, k ≤ s.spawnCount
  once : (s.keys.filter fun k => k ≠ 0).Nodup

/-- There are as many entries as ids with a monster and monsters that have wandered off. -/
theorem Keyed.length_eq (h : s.Keyed) :
    s.spawnedMap.length + s.unregistered = s.keys.count 0 + s.spawnCount := by
  have hperm : (s.keys.filter fun k => k ≠ 0).Perm
      (s.ids.filter fun spawnId => decide (s.Registered spawnId)) := by
    apply (List.perm_ext_iff_of_nodup h.once (s.nodup_ids.filter _)).mpr
    intro k
    rw [List.mem_filter, List.mem_filter, mem_ids, decide_eq_true_eq, decide_eq_true_eq]
    apply Iff.intro
    · rintro ⟨hk, hzero⟩
      exact ⟨⟨Nat.pos_of_ne_zero hzero, h.le k hk⟩, hk⟩
    · rintro ⟨hk, hregistered⟩
      exact ⟨hregistered, Nat.ne_of_gt hk.1⟩
  have hkeys := s.keys.length_eq_countP_add_countP (fun k => k = 0)
  have hids := s.ids.length_eq_countP_add_countP fun spawnId => decide (s.Registered spawnId)
  have hlength := hperm.length_eq
  rw [← List.countP_eq_length_filter, ← List.countP_eq_length_filter] at hlength
  have hzero : s.keys.count 0 = s.keys.countP fun k => k = 0 := rfl
  have hall : s.spawnedMap.length = s.keys.length := (List.length_map _).symm
  have hcount : s.ids.length = s.spawnCount := List.length_range'
  simp only [decide_eq_true_eq, decide_not] at hkeys hids hlength
  rw [hall, hzero, unregistered]
  omega

/-! ## A check -/

/-- The spawn after the first loop of a check. -/
def swept (s : Spawn) (input : CheckInput) : Spawn :=
  { s with
    checkSpawnEvent := 0
    spawnedMap := (sweep s.monsters input.sweepClock s.spawnedMap s.spawnMap).1
    spawnMap := (sweep s.monsters input.sweepClock s.spawnedMap s.spawnMap).2 }

theorem mem_swept {entry : ℕ × ℕ} : entry ∈ (s.swept input).spawnedMap ↔
    ∃ old ∈ s.spawnedMap, sweepEntry s.monsters old = some entry := by
  show entry ∈ (sweep s.monsters input.sweepClock s.spawnedMap s.spawnMap).1 ↔ _
  rw [sweep_fst, List.mem_filterMap]

/-- Under an id other than 0 the first loop leaves the living monsters in the zone. -/
theorem registered_swept {spawnId : ℕ} (hid : spawnId ≠ 0) :
    (s.swept input).Registered spawnId ↔ (s.spawnedMap.any fun entry =>
      entry.1 = spawnId && (s.monsters entry.2).isAlive &&
        (s.monsters entry.2).isInSpawnZone) = true := by
  rw [Registered, List.mem_map, List.any_eq_true]
  apply Iff.intro
  · rintro ⟨entry, hentry, rfl⟩
    obtain ⟨old, hold, hsweep⟩ := mem_swept.mp hentry
    refine ⟨old, hold, ?_⟩
    rw [sweepEntry] at hsweep
    split at hsweep
    · exact absurd hsweep (Option.some_ne_none _).symm
    · next halive =>
      split at hsweep
      · obtain rfl := Option.some.inj hsweep
        exact absurd rfl hid
      · next hzone =>
        obtain rfl := Option.some.inj hsweep
        simp only [Bool.not_eq_true', Bool.not_eq_false] at halive
        simp only [Bool.and_eq_true, decide_eq_true_eq, Bool.not_eq_true', not_and,
          not_not] at hzone
        simp only [Bool.and_eq_true, decide_eq_true_eq]
        refine ⟨⟨trivial, halive⟩, ?_⟩
        by_contra hout
        exact hid (hzone (Bool.not_eq_true _ ▸ hout))
  · rintro ⟨old, hold, hliving⟩
    simp only [Bool.and_eq_true, decide_eq_true_eq] at hliving
    obtain ⟨⟨rfl, halive⟩, hzone⟩ := hliving
    refine ⟨old, mem_swept.mpr ⟨old, hold, ?_⟩, rfl⟩
    rw [sweepEntry, halive, hzone]
    rfl

theorem decide_registered_swept {spawnId : ℕ} (hid : spawnId ≠ 0) :
    decide ((s.swept input).Registered spawnId) = s.spawnedMap.any fun entry =>
      entry.1 = spawnId && (s.monsters entry.2).isAlive && (s.monsters entry.2).isInSpawnZone := by
  apply Bool.eq_iff_iff.mpr
  rw [decide_eq_true_eq]
  exact registered_swept hid

theorem unregistered_swept (s : Spawn) (input : CheckInput) :
    (s.swept input).unregistered = s.emptyIds.length := by
  rw [unregistered, emptyIds, ← List.countP_eq_length_filter]
  apply List.countP_congr
  intro spawnId hid
  have hpos : spawnId ≠ 0 := Nat.ne_of_gt (mem_ids.mp hid).1
  rw [decide_registered_swept hpos]

/-- What the second loop tries is what has been predicted. -/
theorem filter_isDue_swept (s : Spawn) (input : CheckInput) :
    ((s.swept input).ids.filter ((s.swept input).isDue input)).take
      (max 1 (input.rateSpawn - 0)) = s.triedIds input := by
  rw [Nat.sub_zero, triedIds, emptyIds, List.filter_filter]
  congr 1
  apply List.filter_congr
  intro spawnId hid
  have hpos : spawnId ≠ 0 := Nat.ne_of_gt (mem_ids.mp hid).1
  have hmap : (s.swept input).spawnMap spawnId = _ :=
    sweep_snd s.monsters input.sweepClock s.spawnedMap s.spawnMap hpos
  have htime : ((s.swept input).spawnMap spawnId).lastSpawn +
      ((s.swept input).spawnMap spawnId).interval =
        s.lastSpawn input spawnId + (s.spawnMap spawnId).interval := by
    rw [hmap, lastSpawn]
    split <;> rfl
  rw [isDue, htime, decide_registered_swept hpos, Bool.and_comm]

/-- Those under the key 0 have wandered off. -/
theorem count_zero_swept (s : Spawn) (input : CheckInput) :
    (s.swept input).keys.count 0 = s.wandered := by
  have hcount (entries : List (ℕ × ℕ)) :
      ((entries.filterMap (sweepEntry s.monsters)).map Prod.fst).count 0 =
        entries.countP fun entry => (s.monsters entry.2).isAlive &&
          (entry.1 = 0 || !(s.monsters entry.2).isInSpawnZone) := by
    induction entries with
    | nil => rfl
    | cons entry rest ih =>
      rw [List.filterMap_cons, List.countP_cons, sweepEntry]
      cases (s.monsters entry.2).isAlive with
      | false => exact ih
      | true =>
        cases (s.monsters entry.2).isInSpawnZone with
        | true =>
          by_cases hzero : entry.1 = 0
          · simp [hzero, ih]
          · simp [hzero, ih]
        | false =>
          by_cases hzero : entry.1 = 0
          · simp [hzero, ih]
          · simp [hzero, ih]
  rw [keys, wandered, ← hcount]
  show ((sweep s.monsters input.sweepClock s.spawnedMap s.spawnMap).1.map Prod.fst).count 0 = _
  rw [sweep_fst]

/-! ## Runs -/

/-- What holds of a spawn whose checks settle: at most its own event waits, and that does wherever an
id is without a monster. -/
structure Watched (s : Spawn) : Prop where
  fresh : s.Fresh
  nextTask_pos : 0 < s.nextTask
  keyed : s.Keyed
  pending_eq : s.pending = if s.checkSpawnEvent = 0 then [] else [s.checkSpawnEvent]
  waits : s.started = true → 0 < s.unregistered → s.checkSpawnEvent ≠ 0
  idle : s.started = false → s.spawnedMap = [] ∧ s.checkSpawnEvent = 0 ∧
    ∀ monster, (s.monsters monster).hasSpawn = false

theorem Filled.keyed {tried : List ℕ} {entersWorld : ℕ → Bool} {s' : Spawn}
    (h : Filled tried entersWorld s s') (hkeyed : s.Keyed) (hnodup : tried.Nodup)
    (hids : ∀ i ∈ tried, i ∈ s.ids ∧ ¬ s.Registered i) : s'.Keyed := by
  have hzero : (tried.filter entersWorld).filter (fun k => k ≠ 0) = tried.filter entersWorld := by
    apply List.filter_eq_self.mpr
    intro i hi
    exact decide_eq_true (Nat.ne_of_gt (mem_ids.mp (hids i (List.mem_filter.mp hi).1).1).1)
  refine ⟨?_, ?_⟩
  · intro k hk
    rw [h.keys_eq] at hk
    rw [h.spawnCount_eq]
    apply (List.mem_append.mp hk).elim (hkeyed.le k)
    intro hnew
    exact (mem_ids.mp (hids k (List.mem_filter.mp hnew).1).1).2
  · rw [h.keys_eq, List.filter_append, hzero]
    apply List.nodup_append.mpr
    refine ⟨hkeyed.once, hnodup.filter _, ?_⟩
    rintro k hk i hi rfl
    exact (hids k (List.mem_filter.mp hi).1).2 (List.mem_filter.mp hk).1

/-- Each monster that enters the world takes an id from those without one. -/
theorem Filled.unregistered_eq {tried : List ℕ} {entersWorld : ℕ → Bool} {s' : Spawn}
    (h : Filled tried entersWorld s s') (hkeyed : s.Keyed) (hnodup : tried.Nodup)
    (hids : ∀ i ∈ tried, i ∈ s.ids ∧ ¬ s.Registered i) :
    s'.unregistered = s.unregistered - tried.countP entersWorld ∧
      s'.spawnedMap.length + s'.unregistered = s.keys.count 0 + s.spawnCount ∧
      s'.unregistered ≤ s.spawnCount := by
  have hbefore := hkeyed.length_eq
  have hafter := (h.keyed hkeyed hnodup hids).length_eq
  have hzero : (tried.filter entersWorld).count 0 = 0 := by
    apply List.count_eq_zero.mpr
    intro hin
    exact absurd (mem_ids.mp (hids 0 (List.mem_filter.mp hin).1).1).1 (by decide)
  have hlength : s'.spawnedMap.length = s.spawnedMap.length + tried.countP entersWorld := by
    calc
      s'.spawnedMap.length = s'.keys.length := (List.length_map _).symm
      _ = s.keys.length + (tried.filter entersWorld).length := by
        rw [h.keys_eq, List.length_append]
      _ = s.spawnedMap.length + tried.countP entersWorld := by
        rw [keys, List.length_map, List.countP_eq_length_filter]
  rw [h.keys_eq, List.count_append, hzero, h.spawnCount_eq] at hafter
  have hle : s'.unregistered ≤ s'.ids.length := List.countP_le_length
  rw [ids, List.length_range', h.spawnCount_eq] at hle
  omega

theorem fresh_swept (h : s.Fresh) : (s.swept input).Fresh := by
  intro entry hentry
  obtain ⟨old, hold, hsweep⟩ := mem_swept.mp hentry
  have hsame : entry.2 = old.2 := by
    rw [sweepEntry] at hsweep
    split at hsweep
    · exact absurd hsweep (Option.some_ne_none _).symm
    · split at hsweep
      · rw [← Option.some.inj hsweep]
      · rw [← Option.some.inj hsweep]
  rw [hsame]
  exact h old hold

theorem keyed_swept (h : s.Keyed) : (s.swept input).Keyed := by
  have hkeys : (s.swept input).keys = (s.spawnedMap.filterMap (sweepEntry s.monsters)).map Prod.fst := by
    show (sweep s.monsters input.sweepClock s.spawnedMap s.spawnMap).1.map Prod.fst = _
    rw [sweep_fst]
  -- no key but 0 is new
  have hsub (entries : List (ℕ × ℕ)) :
      (((entries.filterMap (sweepEntry s.monsters)).map Prod.fst).filter fun k => k ≠ 0).Sublist
        ((entries.map Prod.fst).filter fun k => k ≠ 0) := by
    induction entries with
    | nil => exact List.Sublist.refl _
    | cons entry rest ih =>
      rw [List.filterMap_cons, sweepEntry]
      cases (s.monsters entry.2).isAlive with
      | false => exact ih.trans ((List.sublist_cons_self _ _).filter _)
      | true =>
        by_cases hout : (!(s.monsters entry.2).isInSpawnZone && entry.1 ≠ 0) = true
        · rw [Bool.not_true, if_neg Bool.false_ne_true, if_pos hout]
          exact ih.trans ((List.sublist_cons_self _ _).filter _)
        · rw [Bool.not_true, if_neg Bool.false_ne_true, if_neg hout]
          dsimp only
          rw [List.map_cons, List.map_cons, List.filter_cons, List.filter_cons]
          split
          · exact ih.cons_cons _
          · exact ih
  refine ⟨?_, ?_⟩
  · intro k hk
    by_cases hzero : k = 0
    · rw [hzero]
      exact Nat.zero_le _
    · have hin : k ∈ (s.swept input).keys.filter fun k => k ≠ 0 :=
        List.mem_filter.mpr ⟨hk, decide_eq_true hzero⟩
      rw [hkeys] at hin
      exact h.le k (List.mem_filter.mp ((hsub s.spawnedMap).subset hin)).1
  · rw [hkeys]
    exact (hsub s.spawnedMap).nodup h.once

theorem triedIds_spec (s : Spawn) (input : CheckInput) : (s.triedIds input).Nodup ∧
    ∀ i ∈ s.triedIds input, i ∈ (s.swept input).ids ∧ ¬ (s.swept input).Registered i := by
  refine ⟨(((s.nodup_ids.filter _).filter _).sublist (List.take_sublist _ _)), ?_⟩
  intro i hi
  have hempty := (List.mem_filter.mp (List.mem_of_mem_take hi)).1
  obtain ⟨hid, hnone⟩ := List.mem_filter.mp hempty
  refine ⟨hid, ?_⟩
  rw [registered_swept (Nat.ne_of_gt (mem_ids.mp hid).1)]
  rw [Bool.not_eq_true', ← Bool.not_eq_true] at hnone
  exact hnone

/-- A check that settles leaves its event waiting wherever an id is without a monster. -/
theorem watched_checkSpawn (hfresh : s.Fresh) (hnext : 0 < s.nextTask) (hkeyed : s.Keyed)
    (hstarted : s.started = true) (hpending : s.pending = []) (hsettles : s.Settles input) :
    (s.checkSpawn input).Watched := by
  have hswept_fresh : (s.swept input).Fresh := fresh_swept hfresh
  have hswept_keyed : (s.swept input).Keyed := keyed_swept hkeyed
  have hswept_next : 0 < (s.swept input).nextTask := hnext
  have hfill := fill_spec input (s.swept input).nodup_ids 0 hswept_fresh hswept_next
  rw [filter_isDue_swept] at hfill
  obtain ⟨hnodup, htried⟩ := s.triedIds_spec input
  have hkeyed' := hfill.keyed hswept_keyed hnodup htried
  obtain ⟨hleft, hlength, hle⟩ := hfill.unregistered_eq hswept_keyed hnodup htried
  have hcount : (fill input (s.swept input).ids 0 (s.swept input)).spawnCount = s.spawnCount :=
    hfill.spawnCount_eq
  have hstarted' : (fill input (s.swept input).ids 0 (s.swept input)).started = true :=
    hfill.started_eq.trans hstarted
  have htasks := hfill.tasks_eq
  have hfresh' := hfill.fresh
  have hcheck : s.checkSpawn input = (let s' := fill input (s.swept input).ids 0 (s.swept input)
      if s'.spawnedMap.length < s'.spawnCount then s'.addTask else s') := rfl
  have hswept : (s.swept input).tasks = (0, [], s.nextTask) := by
    show (0, s.pending, s.nextTask) = _
    rw [hpending]
  rw [unregistered_swept] at hleft
  rw [count_zero_swept] at hlength
  have hcount_swept : (s.swept input).spawnCount = s.spawnCount := rfl
  rw [hcount_swept] at hlength hle
  rw [hcheck]
  dsimp only
  generalize fill input (s.swept input).ids 0 (s.swept input) = s' at *
  have hleft' : s'.unregistered = s.leftIds input := hleft
  have hidle (h : s'.started = false) : s'.spawnedMap = [] ∧ s'.checkSpawnEvent = 0 ∧
      ∀ monster, (s'.monsters monster).hasSpawn = false := by
    rw [hstarted'] at h
    cases h
  rw [Settles] at hsettles
  rw [hswept] at htasks
  split at hsettles
  · next hall =>
    rw [if_pos hall] at htasks
    obtain ⟨hevent, hrest⟩ := Prod.mk.inj htasks
    obtain ⟨hnone, hnext'⟩ := Prod.mk.inj hrest
    split
    · refine ⟨hfresh', Nat.succ_pos _, ⟨hkeyed'.le, hkeyed'.once⟩, ?_, ?_, fun h => ?_⟩
      · show s'.pending ++ [s'.nextTask] = if s'.nextTask = 0 then [] else [s'.nextTask]
        rw [hnone, hnext', if_neg (Nat.ne_of_gt hnext)]
        rfl
      · intro _ _
        show s'.nextTask ≠ 0
        rw [hnext']
        exact Nat.ne_of_gt hnext
      · exact absurd (hstarted'.symm.trans h) (by decide)
    · next hfull =>
      refine ⟨hfresh', ?_, hkeyed', ?_, ?_, hidle⟩
      · rw [hnext']
        exact hnext
      · rw [hnone, hevent, if_pos rfl]
      · -- as many entries as blocks: no id is left
        intro _ hpos
        rw [hcount] at hfull
        omega
  · next hnot =>
    rw [if_neg hnot] at htasks
    have hstart : startTask (0, [], s.nextTask) =
        (s.nextTask, [s.nextTask], s.nextTask + 1) := rfl
    rw [hstart] at htasks
    obtain ⟨hevent, hrest⟩ := Prod.mk.inj htasks
    obtain ⟨hone, hnext'⟩ := Prod.mk.inj hrest
    -- the event already waits, and no second one is added
    have hfull : ¬ s'.spawnedMap.length < s'.spawnCount := by
      rw [hcount]
      omega
    rw [if_neg hfull]
    have hevent' : s'.checkSpawnEvent ≠ 0 := by
      rw [hevent]
      exact Nat.ne_of_gt hnext
    refine ⟨hfresh', ?_, hkeyed', ?_, fun _ _ => hevent', hidle⟩
    · rw [hnext']
      exact Nat.succ_pos _
    · rw [if_neg hevent', hone, hevent]

theorem watched_startup (h : s.Watched) (hnot : s.started = false) (clock : ℕ → ℤ)
    (entersWorld : ℕ → Bool) : (s.startup clock entersWorld).Watched := by
  obtain ⟨hempty, hevent, -⟩ := h.idle hnot
  have hnone (i : ℕ) : ¬ s.Registered i := by
    rw [Registered, hempty]
    exact List.not_mem_nil
  have hfilled := foldl_spawnMonster_spec clock entersWorld s.ids h.fresh h.nextTask_pos
  have hids : ∀ i ∈ s.ids, i ∈ s.ids ∧ ¬ s.Registered i := fun i hi => ⟨hi, hnone i⟩
  have hkeyed := hfilled.keyed h.keyed s.nodup_ids hids
  obtain ⟨hleft, -, -⟩ := hfilled.unregistered_eq h.keyed s.nodup_ids hids
  have hfresh := hfilled.fresh
  have htasks := hfilled.tasks_eq
  have hstarted : (s.startup clock entersWorld).started = true := rfl
  have hpending := h.pending_eq
  rw [if_pos hevent] at hpending
  have hbefore : s.tasks = (0, [], s.nextTask) := by
    rw [tasks, hevent, hpending]
  have hle : s.unregistered ≤ s.ids.length := List.countP_le_length
  rw [hbefore] at htasks
  rw [startup] at hstarted ⊢
  generalize s.ids.foldl (fun s spawnId =>
    s.spawnMonster spawnId (clock spawnId) (entersWorld spawnId)) s = s' at *
  have hidle (hfalse : true = false) : s'.spawnedMap = [] ∧ s'.checkSpawnEvent = 0 ∧
      ∀ monster, (s'.monsters monster).hasSpawn = false := by
    cases hfalse
  by_cases hall : s.ids.all entersWorld = true
  · rw [if_pos hall] at htasks
    obtain ⟨hevent', hrest⟩ := Prod.mk.inj htasks
    obtain ⟨hpending', hnext'⟩ := Prod.mk.inj hrest
    refine ⟨hfresh, ?_, ⟨hkeyed.le, hkeyed.once⟩, ?_, ?_, hidle⟩
    · show 0 < s'.nextTask
      rw [hnext']
      exact h.nextTask_pos
    · show s'.pending = if s'.checkSpawnEvent = 0 then [] else [s'.checkSpawnEvent]
      rw [hpending', hevent', if_pos rfl]
    · -- every id has its monster
      intro _ hpos
      have hcount : s.ids.countP entersWorld = s.ids.length :=
        List.countP_eq_length.mpr (List.all_eq_true.mp hall)
      have hpos' : 0 < s'.unregistered := hpos
      omega
  · have hstart : startTask (0, [], s.nextTask) =
        (s.nextTask, [s.nextTask], s.nextTask + 1) := rfl
    rw [if_neg hall, hstart] at htasks
    obtain ⟨hevent', hrest⟩ := Prod.mk.inj htasks
    obtain ⟨hpending', hnext'⟩ := Prod.mk.inj hrest
    have hwaits : s'.checkSpawnEvent ≠ 0 := by
      rw [hevent']
      exact Nat.ne_of_gt h.nextTask_pos
    refine ⟨hfresh, ?_, ⟨hkeyed.le, hkeyed.once⟩, ?_, fun _ _ => hwaits, hidle⟩
    · show 0 < s'.nextTask
      rw [hnext']
      exact Nat.succ_pos _
    · show s'.pending = if s'.checkSpawnEvent = 0 then [] else [s'.checkSpawnEvent]
      rw [if_neg hwaits, hpending', hevent']

/-- A monster that leaves the spawn starts the task. -/
theorem watched_removeFromSpawn (h : s.Watched) (monster : ℕ) :
    (s.removeFromSpawn monster).Watched := by
  rw [removeFromSpawn]
  split
  · exact h
  · next hhas =>
    have hstarted : s.started ≠ false := by
      intro hnot
      rw [(h.idle hnot).2.2 monster] at hhas
      exact hhas rfl
    have hsub : (s.removeMonster monster).spawnedMap.Sublist s.spawnedMap := List.eraseP_sublist
    have hkeys : (s.removeMonster monster).keys.Sublist s.keys := hsub.map _
    obtain ⟨hspawned, -, hcount, hstart, hnextMonster⟩ :=
      (s.removeMonster monster).startEvent_frame
    have htasks := (s.removeMonster monster).tasks_startEvent
    have hbefore : (s.removeMonster monster).tasks = (s.checkSpawnEvent, s.pending, s.nextTask) := rfl
    have hkeys' : (s.removeMonster monster).startEvent.keys = (s.removeMonster monster).keys := by
      rw [keys, hspawned]
      rfl
    have hpending := h.pending_eq
    -- the task is pending afterwards: it was so before, or it is started now
    have hevent : (s.removeMonster monster).startEvent.checkSpawnEvent ≠ 0 ∧
        (s.removeMonster monster).startEvent.pending =
          [(s.removeMonster monster).startEvent.checkSpawnEvent] ∧
        0 < (s.removeMonster monster).startEvent.nextTask := by
      rw [hbefore, startTask] at htasks
      split at htasks
      · next hzero =>
        rw [if_pos hzero] at hpending
        obtain ⟨hevent, hrest⟩ := Prod.mk.inj htasks
        obtain ⟨hone, hnext⟩ := Prod.mk.inj hrest
        rw [hevent, hone, hnext, hpending]
        exact ⟨Nat.ne_of_gt h.nextTask_pos, rfl, Nat.succ_pos _⟩
      · next hnonzero =>
        rw [if_neg hnonzero] at hpending
        obtain ⟨hevent, hrest⟩ := Prod.mk.inj htasks
        obtain ⟨hone, hnext⟩ := Prod.mk.inj hrest
        rw [hevent, hone, hnext, hpending]
        exact ⟨hnonzero, rfl, h.nextTask_pos⟩
    obtain ⟨hwaits, hone, hnext⟩ := hevent
    -- the ids in use are among those before, so each is still in use once at most
    have hkeyed : (s.removeMonster monster).startEvent.Keyed := by
      refine ⟨?_, ?_⟩
      · intro k hk
        rw [hkeys'] at hk
        rw [hcount]
        exact h.keyed.le k (hkeys.subset hk)
      · rw [hkeys']
        exact (hkeys.filter _).nodup h.keyed.once
    refine ⟨?_, hnext, ⟨hkeyed.le, hkeyed.once⟩, ?_, fun _ _ => hwaits, fun hnot => ?_⟩
    · intro entry hentry
      have hin : entry ∈ (s.removeMonster monster).startEvent.spawnedMap := hentry
      show entry.2 < (s.removeMonster monster).startEvent.nextMonster
      rw [hspawned] at hin
      rw [hnextMonster]
      exact h.fresh entry (hsub.subset hin)
    · show (s.removeMonster monster).startEvent.pending = if
        (s.removeMonster monster).startEvent.checkSpawnEvent = 0 then [] else
          [(s.removeMonster monster).startEvent.checkSpawnEvent]
      rw [if_neg hwaits, hone]
    · exact absurd (hstart.symm.trans hnot) hstarted

/-- What a monster does elsewhere leaves the spawn alone. -/
theorem watched_update (h : s.Watched) (monster : ℕ) (m : SpawnMonster)
    (hhas : m.hasSpawn = (s.monsters monster).hasSpawn) :
    ({ s with monsters := Function.update s.monsters monster m } : Spawn).Watched := by
  refine ⟨h.fresh, h.nextTask_pos, ⟨h.keyed.le, h.keyed.once⟩, h.pending_eq, h.waits, ?_⟩
  intro hnot
  obtain ⟨hempty, hevent, hnone⟩ := h.idle hnot
  refine ⟨hempty, hevent, ?_⟩
  intro other
  show (Function.update s.monsters monster m other).hasSpawn = false
  by_cases hsame : other = monster
  · rw [hsame, Function.update_self, hhas]
    exact hnone monster
  · rw [Function.update_of_ne hsame]
    exact hnone other

/-- Checks settle. -/
def Careful (s : Spawn) : SpawnAction → Prop
  | .checkSpawn _ input => s.Settles input
  | _ => True

theorem watched_step {a : SpawnAction} {t : Spawn} (h : s.Watched) (hcareful : s.Careful a)
    (hstep : s.step a = some t) : t.Watched := by
  cases a with
  | startup clock entersWorld =>
    rw [step] at hstep
    split at hstep
    · cases hstep
    · next hnot =>
      rw [← Option.some.inj hstep]
      exact watched_startup h (Bool.not_eq_true _ ▸ hnot) clock entersWorld
  | checkSpawn task input =>
    rw [step] at hstep
    split at hstep
    · next htask =>
      rw [← Option.some.inj hstep]
      have hpending := h.pending_eq
      have hstarted : s.started = true := by
        by_contra hnot
        obtain ⟨-, hevent, -⟩ := h.idle (Bool.not_eq_true _ ▸ hnot)
        rw [hpending, if_pos hevent] at htask
        cases htask
      have herase : s.pending.erase task = [] := by
        rw [hpending] at htask ⊢
        split at htask
        · cases htask
        · next hevent =>
          rw [if_neg hevent, List.mem_singleton.mp htask]
          exact List.erase_cons_head _ _
      exact @watched_checkSpawn { s with pending := s.pending.erase task } input h.fresh
        h.nextTask_pos ⟨h.keyed.le, h.keyed.once⟩ hstarted herase hcareful
    · cases hstep
  | die monster =>
    rw [← Option.some.inj hstep]
    exact watched_update h monster _ rfl
  | walk monster isInSpawnZone =>
    rw [← Option.some.inj hstep]
    exact watched_update h monster _ rfl
  | removeFromSpawn monster =>
    rw [← Option.some.inj hstep]
    exact watched_removeFromSpawn h monster

theorem watched_of_loaded (h : s.Loaded) : s.Watched := by
  have hkeys : s.keys = [] := by
    rw [keys, h.spawnedMap_eq]
    rfl
  refine ⟨?_, h.nextTask_pos, ⟨?_, ?_⟩, ?_, ?_, ?_⟩
  · intro entry hentry
    rw [h.spawnedMap_eq] at hentry
    cases hentry
  · intro k hk
    rw [hkeys] at hk
    cases hk
  · rw [hkeys]
    exact List.nodup_nil
  · rw [h.pending_eq, if_pos h.checkSpawnEvent_eq]
  · intro hstarted
    rw [h.not_started] at hstarted
    cases hstarted
  · intro _
    exact ⟨h.spawnedMap_eq, h.checkSpawnEvent_eq, h.hasSpawn_eq⟩

theorem Watched.of_reachable (h : (system.restrict Careful).Reachable s) : s.Watched := by
  apply h.invariant
  · intro s hloaded
    exact watched_of_loaded hloaded
  · intro s a t hwatched hstep
    exact watched_step hwatched hstep.1 hstep.2

/-- In a run whose checks settle, at most one check waits, the one of the event, and after startup one
does whenever an id has no monster. -/
theorem pending_of_reachable (h : (system.restrict Careful).Reachable s) :
    s.pending.length ≤ 1 ∧ (∀ task ∈ s.pending, task = s.checkSpawnEvent) ∧
      (s.started = true → (∃ spawnId ∈ s.ids, ¬ s.Registered spawnId) →
        s.pending = [s.checkSpawnEvent]) := by
  have hwatched := Watched.of_reachable h
  have hpending := hwatched.pending_eq
  refine ⟨?_, ?_, ?_⟩
  · rw [hpending]
    split
    · exact Nat.zero_le 1
    · exact Nat.le_refl 1
  · intro task htask
    rw [hpending] at htask
    split at htask
    · cases htask
    · exact List.mem_singleton.mp htask
  · rintro hstarted ⟨spawnId, hid, hnone⟩
    have hpos : 0 < s.unregistered := by
      apply List.countP_pos_iff.mpr
      refine ⟨spawnId, hid, ?_⟩
      rw [decide_eq_false hnone]
      rfl
    rw [hpending, if_neg (hwatched.waits hstarted hpos)]

/-- A spawn with two blocks. -/
def den : Spawn where
  spawnCount := 2
  spawnMap := fun _ => { interval := 1000, lastSpawn := 0 }
  spawnedMap := []
  checkSpawnEvent := 0
  pending := []
  nextTask := 1
  monsters := fun _ => { isAlive := false, isInSpawnZone := false, hasSpawn := false }
  nextMonster := 0
  started := false

theorem den_loaded : den.Loaded := ⟨rfl, rfl, rfl, Nat.one_pos, fun _ => rfl, rfl⟩

/-- A minute later no player is near, and a monster enters the world, or does not. -/
def aMinuteLater (entersWorld : ℕ → Bool) : CheckInput where
  sweepClock := fun _ => 60000
  clock := fun _ => 60000
  findPlayer := fun _ => false
  entersWorld := entersWorld
  rateSpawn := 1

/-- Both monsters enter the world. -/
def populated : Spawn := den.startup (fun _ => 0) fun _ => true

/-- One of the monsters leaves the spawn. -/
def hunted : Spawn := populated.removeFromSpawn 1

theorem populated_reachable : (system.restrict Careful).Reachable populated := by
  have hden : (system.restrict Careful).Reachable den := .init den_loaded
  exact hden.step (a := .startup (fun _ => 0) fun _ => true) ⟨True.intro, rfl⟩

theorem hunted_reachable : (system.restrict Careful).Reachable hunted :=
  populated_reachable.step (a := .removeFromSpawn 1) ⟨True.intro, rfl⟩

/-- A player is near when the block is looked at. -/
def watchedByPlayer : Spawn :=
  { hunted with pending := [] }.checkSpawn { aMinuteLater (fun _ => true) with
    findPlayer := fun _ => true }

theorem watchedByPlayer_reachable : (system.restrict Careful).Reachable watchedByPlayer := by
  have hsettles : hunted.Settles { aMinuteLater (fun _ => true) with
      findPlayer := fun _ => true } := by
    rw [Settles]
    decide
  exact hunted_reachable.step (a := .checkSpawn 1 _) ⟨hsettles, rfl⟩

theorem pending_of_reachable_watched : (watchedByPlayer.pending.length ≤ 1 ∧
    (∀ task ∈ watchedByPlayer.pending, task = watchedByPlayer.checkSpawnEvent) ∧
      (watchedByPlayer.started = true →
        (∃ spawnId ∈ watchedByPlayer.ids, ¬ watchedByPlayer.Registered spawnId) →
          watchedByPlayer.pending = [watchedByPlayer.checkSpawnEvent])) ∧
    watchedByPlayer.pending = [2] :=
  ⟨pending_of_reachable watchedByPlayer_reachable, rfl⟩

/-- The other monster has wandered off. -/
def wanderedOff : Spawn :=
  { populated with monsters :=
      Function.update populated.monsters 0 { populated.monsters 0 with isInSpawnZone := false } }

/-- The check spawns one monster for the two blocks. -/
def strayed : Spawn :=
  { wanderedOff.removeFromSpawn 1 with pending := [] }.checkSpawn (aMinuteLater fun _ => true)

theorem strayed_reachable : system.Reachable strayed := by
  have hwalked : system.Reachable wanderedOff :=
    populated_reachable.of_restrict.step (a := .walk 0 false) rfl
  have hleft : system.Reachable (wanderedOff.removeFromSpawn 1) :=
    hwalked.step (a := .removeFromSpawn 1) rfl
  exact hleft.step (a := .checkSpawn 1 (aMinuteLater fun _ => true)) rfl

/-- A monster that does not get into the world leaves two checks waiting; and a monster that has
wandered off stands for the block that is left without one, for which no check waits. -/
theorem checks_doubled_and_missed :
    (¬ ∀ s : Spawn, system.Reachable s →
      s.pending.length ≤ 1 ∧ ∀ task ∈ s.pending, task = s.checkSpawnEvent) ∧
    ¬ ∀ s : Spawn, system.Reachable s → s.started = true →
      (∃ spawnId ∈ s.ids, ¬ s.Registered spawnId) → s.pending = [s.checkSpawnEvent] := by
  refine ⟨?_, ?_⟩
  · intro hclaim
    have hdoubled : system.Reachable
        ({ hunted with pending := [] }.checkSpawn (aMinuteLater fun _ => false)) :=
      hunted_reachable.of_restrict.step (a := .checkSpawn 1 (aMinuteLater fun _ => false)) rfl
    exact absurd (hclaim _ hdoubled).1 (by decide)
  · intro hclaim
    have hmissed := hclaim strayed strayed_reachable rfl ⟨2, by decide, by decide⟩
    exact absurd hmissed (by decide)

end Spawn

end TyanoCore
