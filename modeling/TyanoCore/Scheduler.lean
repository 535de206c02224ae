import Mathlib.Algebra.Order.Ring.Int
import Mathlib.Data.List.Basic
import Mathlib.Data.List.Nodup
import Mathlib.Data.Int.Notation

/-!
# The scheduler

`addTask`, `cancelTask` and the loop of the scheduler's thread, for tasks with any kind of
callback.  A started scheduler only: tasks are neither refused nor dropped by a shutdown.
-/

namespace TyanoCore

/-- A task of the scheduler; `obj` tells the task objects apart. -/
structure SchedulerTask (Callback : Type) where
  obj : ℕ
  id : ℕ
  time : ℤ
  callback : Callback
deriving DecidableEq

/-- `std::numeric_limits<TaskId>::max()` for a 32-bit id. -/
def maxTaskId : ℕ := 2 ^ 32 - 1

structure Scheduler (Callback : Type) where
  lastUsedTaskId : ℕ
  pendingTaskIds : List ℕ
  tasks : List (SchedulerTask Callback)
deriving DecidableEq

namespace Scheduler

variable {Callback : Type}

def initial : Scheduler Callback where
  lastUsedTaskId := 0
  pendingTaskIds := []
  tasks := []

/-- The id that the next task without an id is given. -/
def nextTaskId (s : Scheduler Callback) : ℕ :=
  if s.lastUsedTaskId = maxTaskId then 1 else s.lastUsedTaskId + 1

def addTask (s : Scheduler Callback) (task : SchedulerTask Callback) : Scheduler Callback :=
  let taskId := if task.id = 0 then s.nextTaskId else task.id
  { lastUsedTaskId := if task.id = 0 then s.nextTaskId else s.lastUsedTaskId
    pendingTaskIds :=
      if taskId ∈ s.pendingTaskIds then s.pendingTaskIds else taskId :: s.pendingTaskIds
    tasks := { task with id := taskId } :: s.tasks }

def cancelTask (s : Scheduler Callback) (taskId : ℕ) : Scheduler Callback × Bool :=
  if taskId = 0 then (s, false)
  else if taskId ∈ s.pendingTaskIds then
    ({ s with pendingTaskIds := s.pendingTaskIds.erase taskId }, true)
  else (s, false)

/-- The task is held and was not cancelled. -/
def Pending (s : Scheduler Callback) (task : SchedulerTask Callback) : Prop :=
  task ∈ s.tasks ∧ task.id ∈ s.pendingTaskIds

instance [DecidableEq Callback] (s : Scheduler Callback) (task : SchedulerTask Callback) :
    Decidable (s.Pending task) :=
  inferInstanceAs (Decidable (_ ∧ _))

/-- A round of the thread's loop that finds the given task at the top of the queue.  A task that
is due leaves the queue; it goes to the dispatcher unless it was cancelled. -/
def thread [DecidableEq Callback] (s : Scheduler Callback) (task : SchedulerTask Callback)
    (now : ℤ) : Scheduler Callback × Option (SchedulerTask Callback) :=
  if task ∉ s.tasks ∨ (∃ other ∈ s.tasks, other.time < task.time) ∨ task.time > now then (s, none)
  else
    let s' := { s with tasks := s.tasks.erase task }
    if task.id ∈ s.pendingTaskIds then
      ({ s' with pendingTaskIds := s.pendingTaskIds.erase task.id }, some task)
    else (s', none)

/-- No task that is still held bears the id that the next task is given. -/
def FreshId (s : Scheduler Callback) : Prop :=
  ∀ task ∈ s.tasks, task.id ≠ s.nextTaskId

/-- Ids tell the held tasks apart, and only ids of held tasks are pending. -/
structure WellFormed (s : Scheduler Callback) : Prop where
  ids_ne_zero : ∀ task ∈ s.tasks, task.id ≠ 0
  ids_nodup : (s.tasks.map SchedulerTask.id).Nodup
  pending_nodup : s.pendingTaskIds.Nodup
  pending_held : ∀ id ∈ s.pendingTaskIds, ∃ task ∈ s.tasks, task.id = id

theorem initial_wellFormed : (initial : Scheduler Callback).WellFormed := by
  constructor <;> simp [initial]

theorem nextTaskId_ne_zero (s : Scheduler Callback) : s.nextTaskId ≠ 0 := by
  unfold nextTaskId
  split <;> simp

theorem WellFormed.eq_of_id {s : Scheduler Callback} (h : s.WellFormed)
    {a b : SchedulerTask Callback} (ha : a ∈ s.tasks) (hb : b ∈ s.tasks) (hid : a.id = b.id) :
    a = b :=
  List.inj_on_of_nodup_map h.ids_nodup ha hb hid

theorem WellFormed.next_not_pending {s : Scheduler Callback} (h : s.WellFormed)
    (hfresh : s.FreshId) : s.nextTaskId ∉ s.pendingTaskIds := by
  intro hmem
  obtain ⟨task, htask, hid⟩ := h.pending_held _ hmem
  exact hfresh task htask hid

/-- The id that a task without an id is given becomes pending, free or not. -/
theorem addTask_pendingTaskIds (s : Scheduler Callback) (task : SchedulerTask Callback)
    (hid : task.id = 0) : s.nextTaskId ∈ (s.addTask task).pendingTaskIds := by
  simp only [addTask, hid, if_true]
  split
  · assumption
  · exact List.mem_cons_self

theorem addTask_pending_nodup (s : Scheduler Callback) (h : s.pendingTaskIds.Nodup)
    (task : SchedulerTask Callback) : (s.addTask task).pendingTaskIds.Nodup := by
  simp only [addTask]
  split_ifs with _ hmem hmem
  · exact h
  · exact List.nodup_cons.mpr ⟨hmem, h⟩
  · exact h
  · exact List.nodup_cons.mpr ⟨hmem, h⟩

/-- Adding a task without an id, when the next id is free. -/
theorem addTask_eq {s : Scheduler Callback} (h : s.WellFormed) (hfresh : s.FreshId)
    {task : SchedulerTask Callback} (hid : task.id = 0) :
    s.addTask task = ⟨s.nextTaskId, s.nextTaskId :: s.pendingTaskIds,
      { task with id := s.nextTaskId } :: s.tasks⟩ := by
  simp [addTask, hid, h.next_not_pending hfresh]

theorem addTask_wellFormed {s : Scheduler Callback} (h : s.WellFormed) (hfresh : s.FreshId)
    {task : SchedulerTask Callback} (hid : task.id = 0) : (s.addTask task).WellFormed := by
  rw [addTask_eq h hfresh hid]
  refine ⟨?_, ?_, List.nodup_cons.mpr ⟨h.next_not_pending hfresh, h.pending_nodup⟩, ?_⟩
  · intro other hother
    rcases List.mem_cons.mp hother with rfl | hother
    · exact nextTaskId_ne_zero s
    · exact h.ids_ne_zero other hother
  · refine List.nodup_cons.mpr ⟨?_, h.ids_nodup⟩
    intro hmem
    obtain ⟨other, hother, heq⟩ := List.mem_map.mp hmem
    exact hfresh other hother heq
  · intro id hmem
    rcases List.mem_cons.mp hmem with rfl | hmem
    · exact ⟨_, List.mem_cons_self, rfl⟩
    · obtain ⟨other, hother, heq⟩ := h.pending_held id hmem
      exact ⟨other, List.mem_cons_of_mem _ hother, heq⟩

/-- The new task becomes pending and the others stay what they were. -/
theorem addTask_pending {s : Scheduler Callback} (h : s.WellFormed) (hfresh : s.FreshId)
    (task : SchedulerTask Callback) (hid : task.id = 0) (t : SchedulerTask Callback) :
    (s.addTask task).Pending t ↔ t = { task with id := s.nextTaskId } ∨ s.Pending t := by
  rw [addTask_eq h hfresh hid]
  simp only [Pending, List.mem_cons]
  constructor
  · rintro ⟨rfl | ht, hp⟩
    · exact .inl rfl
    · rcases hp with hp | hp
      · exact absurd hp (hfresh t ht)
      · exact .inr ⟨ht, hp⟩
  · rintro (rfl | ⟨ht, hp⟩)
    · exact ⟨.inl rfl, .inl rfl⟩
    · exact ⟨.inr ht, .inr hp⟩

@[simp] theorem cancelTask_tasks (s : Scheduler Callback) (taskId : ℕ) :
    (s.cancelTask taskId).1.tasks = s.tasks := by
  unfold cancelTask
  split_ifs <;> rfl

@[simp] theorem cancelTask_nextTaskId (s : Scheduler Callback) (taskId : ℕ) :
    (s.cancelTask taskId).1.nextTaskId = s.nextTaskId := by
  unfold cancelTask
  split_ifs <;> rfl

theorem cancelTask_freshId {s : Scheduler Callback} (h : s.FreshId) (taskId : ℕ) :
    (s.cancelTask taskId).1.FreshId := by
  intro task htask
  rw [cancelTask_nextTaskId]
  exact h task (by simpa using htask)

theorem cancelTask_wellFormed {s : Scheduler Callback} (h : s.WellFormed) (taskId : ℕ) :
    (s.cancelTask taskId).1.WellFormed := by
  unfold cancelTask
  split_ifs with h0 hp
  · exact h
  · exact ⟨h.ids_ne_zero, h.ids_nodup, h.pending_nodup.erase taskId,
      fun id hid => h.pending_held id (List.mem_of_mem_erase hid)⟩
  · exact h

/-- Cancelling the id of a held task takes exactly that task off the pending ones. -/
theorem cancelTask_pending {s : Scheduler Callback} (h : s.WellFormed)
    {task : SchedulerTask Callback} (htask : task ∈ s.tasks) (t : SchedulerTask Callback) :
    (s.cancelTask task.id).1.Pending t ↔ s.Pending t ∧ t ≠ task := by
  have hcancel : (s.cancelTask task.id).1.Pending t ↔ s.Pending t ∧ t.id ≠ task.id := by
    rw [cancelTask, if_neg (h.ids_ne_zero task htask)]
    split_ifs with hp
    · simp only [Pending, h.pending_nodup.mem_erase_iff]
      tauto
    · refine ⟨fun ht => ⟨ht, fun he => hp (he ▸ ht.2)⟩, And.left⟩
  rw [hcancel]
  refine and_congr_right fun ht => not_congr ⟨fun he => h.eq_of_id ht.1 htask he, fun he => ?_⟩
  rw [he]

/-! ## Pending ids -/

/-- Every pending id is borne by a task that is held; ids that were given twice included. -/
structure Backed (s : Scheduler Callback) : Prop where
  nodup : s.pendingTaskIds.Nodup
  held : ∀ id ∈ s.pendingTaskIds, ∃ task ∈ s.tasks, task.id = id

/-- The number of tasks that will be handed over if none is cancelled any more: a pending id takes
the first task that bears it to the dispatcher. -/
def awaited (s : Scheduler Callback) : ℕ :=
  (s.pendingTaskIds.filter fun id => ∃ task ∈ s.tasks, task.id = id).length

theorem Backed.awaited_eq {s : Scheduler Callback} (h : s.Backed) :
    s.awaited = s.pendingTaskIds.length := by
  have hall : s.pendingTaskIds.filter (fun id => ∃ task ∈ s.tasks, task.id = id) =
      s.pendingTaskIds := by
    rw [List.filter_eq_self]
    exact fun id hid => decide_eq_true (h.held id hid)
  rw [awaited, hall]

theorem initial_backed : (initial : Scheduler Callback).Backed := by
  constructor <;> simp [initial]

theorem Backed.addTask {s : Scheduler Callback} (h : s.Backed) {task : SchedulerTask Callback}
    (hid : task.id = 0) : (s.addTask task).Backed where
  nodup := s.addTask_pending_nodup h.nodup task
  held id hmem := by
    have hcases : id = s.nextTaskId ∨ id ∈ s.pendingTaskIds := by
      simp only [Scheduler.addTask, hid, if_true] at hmem
      split at hmem
      · exact .inr hmem
      · exact List.mem_cons.mp hmem
    obtain rfl | hold := hcases
    · exact ⟨_, List.mem_cons_self, by simp only [hid, if_true]⟩
    · obtain ⟨other, hother, heq⟩ := h.held id hold
      exact ⟨other, List.mem_cons_of_mem _ hother, heq⟩

theorem Backed.cancelTask {s : Scheduler Callback} (h : s.Backed) (taskId : ℕ) :
    (s.cancelTask taskId).1.Backed := by
  unfold Scheduler.cancelTask
  split_ifs
  · exact h
  · exact ⟨h.nodup.erase taskId, fun id hid => h.held id (List.mem_of_mem_erase hid)⟩
  · exact h

variable [DecidableEq Callback]

/-- What one round of the thread does. -/
theorem thread_cases (s : Scheduler Callback) (task : SchedulerTask Callback) (now : ℤ) :
    s.thread task now = (s, none) ∨
      (task ∈ s.tasks ∧ task.time ≤ now ∧
        ((task.id ∈ s.pendingTaskIds ∧ s.thread task now =
            (⟨s.lastUsedTaskId, s.pendingTaskIds.erase task.id, s.tasks.erase task⟩, some task)) ∨
          (task.id ∉ s.pendingTaskIds ∧ s.thread task now =
            (⟨s.lastUsedTaskId, s.pendingTaskIds, s.tasks.erase task⟩, none)))) := by
  unfold thread
  split_ifs with h1 h2
  · exact .inl rfl
  · push Not at h1
    exact .inr ⟨h1.1, by omega, .inl ⟨h2, rfl⟩⟩
  · push Not at h1
    exact .inr ⟨h1.1, by omega, .inr ⟨h2, rfl⟩⟩

theorem thread_wellFormed {s : Scheduler Callback} (h : s.WellFormed)
    (task : SchedulerTask Callback) (now : ℤ) : (s.thread task now).1.WellFormed := by
  have hids : ((s.tasks.erase task).map SchedulerTask.id).Nodup :=
    (List.erase_sublist.map _).nodup h.ids_nodup
  have hzero : ∀ t ∈ s.tasks.erase task, t.id ≠ 0 :=
    fun t ht => h.ids_ne_zero t (List.mem_of_mem_erase ht)
  have hheld : ∀ id ∈ s.pendingTaskIds, id ≠ task.id →
      ∃ t ∈ s.tasks.erase task, t.id = id := by
    intro id hid hne
    obtain ⟨t, ht, rfl⟩ := h.pending_held id hid
    exact ⟨t, (List.mem_erase_of_ne fun he => hne (congrArg _ he)).mpr ht, rfl⟩
  rcases thread_cases s task now with heq | ⟨-, -, ⟨-, heq⟩ | ⟨hp, heq⟩⟩
  · rw [heq]
    exact h
  · rw [heq]
    refine ⟨hzero, hids, h.pending_nodup.erase _, ?_⟩
    intro id hid
    obtain ⟨hne, hid⟩ := h.pending_nodup.mem_erase_iff.mp hid
    exact hheld id hid hne
  · rw [heq]
    refine ⟨hzero, hids, h.pending_nodup, ?_⟩
    intro id hid
    exact hheld id hid fun he => hp (he ▸ hid)

/-- Only the task that is looked at stops being pending. -/
theorem thread_pending {s : Scheduler Callback} (h : s.WellFormed)
    (task : SchedulerTask Callback) (now : ℤ) (t : SchedulerTask Callback) :
    (s.thread task now).1.Pending t ↔
      s.Pending t ∧ ((s.thread task now).2 = none ∨ t ≠ task) := by
  have hnodup : s.tasks.Nodup := h.ids_nodup.of_map _
  rcases thread_cases s task now with heq | ⟨hmem, -, ⟨hp, heq⟩ | ⟨hp, heq⟩⟩
  · rw [heq]
    simp
  · rw [heq]
    simp only [Pending, hnodup.mem_erase_iff, h.pending_nodup.mem_erase_iff]
    have hid : t ∈ s.tasks → t.id = task.id → t = task := fun ht he => h.eq_of_id ht hmem he
    grind
  · rw [heq]
    simp only [Pending, hnodup.mem_erase_iff]
    grind

theorem Backed.thread {s : Scheduler Callback} (h : s.Backed) (task : SchedulerTask Callback)
    (now : ℤ) : (s.thread task now).1.Backed := by
  -- only the id of the task that leaves the queue loses it
  have hheld (id) (hid : id ∈ s.pendingTaskIds) (hne : id ≠ task.id) :
      ∃ t ∈ s.tasks.erase task, t.id = id := by
    obtain ⟨t, ht, rfl⟩ := h.held id hid
    exact ⟨t, (List.mem_erase_of_ne fun he => hne (congrArg _ he)).mpr ht, rfl⟩
  rcases thread_cases s task now with heq | ⟨-, -, ⟨-, heq⟩ | ⟨hp, heq⟩⟩
  · rw [heq]
    exact h
  · rw [heq]
    refine ⟨h.nodup.erase _, fun id hid => ?_⟩
    obtain ⟨hne, hid⟩ := h.nodup.mem_erase_iff.mp hid
    exact hheld id hid hne
  · rw [heq]
    refine ⟨h.nodup, fun id hid => hheld id hid ?_⟩
    rintro rfl
    exact hp hid

end Scheduler

end TyanoCore
