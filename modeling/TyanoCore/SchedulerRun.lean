import TyanoCore.Run
import TyanoCore.Scheduler

/-!
# Runs of the scheduler

A started scheduler, the clock, and what has become of every task that was added.  The counter of
the identifiers wraps round without a look at the identifiers in use: while an old task is held, a
new one can be given the same identifier, and one of the two gets lost.
-/

namespace TyanoCore

open Transition

structure SchedulerBook (Callback : Type) where
  scheduler : Scheduler Callback
  now : ℤ
  /-- The tasks in the order of their additions, the latest first, with the identifiers given. -/
  added : List (SchedulerTask Callback)
  /-- The tasks for which `cancelTask` has returned true. -/
  cancelled : List ℕ
  /-- The tasks that the dispatcher was given, and when. -/
  handed : List (ℕ × ℤ)

inductive SchedulerAction (Callback : Type) where
  | add (time : ℤ) (callback : Callback)
  | cancel (obj : ℕ)
  | thread (task : SchedulerTask Callback)
  | tick (now : ℤ)

namespace SchedulerBook

variable {Callback : Type}

def initial (Callback : Type) (now : ℤ) : SchedulerBook Callback where
  scheduler := .initial
  now := now
  added := []
  cancelled := []
  handed := []

/-- `task->getId()`; zero for a task that was never added. -/
def getId (s : SchedulerBook Callback) (obj : ℕ) : ℕ :=
  ((s.added.find? fun task => task.obj = obj).map SchedulerTask.id).getD 0

/-- The tasks that have been handed over. -/
def handedTasks (s : SchedulerBook Callback) : List ℕ := s.handed.map Prod.fst

/-- The scheduler once `cancelTask` was called for a task. -/
def cancel (s : SchedulerBook Callback) (obj : ℕ) : Scheduler Callback × Bool :=
  s.scheduler.cancelTask (s.getId obj)

/-- A new task object, before it is added. -/
def newTask (s : SchedulerBook Callback) (time : ℤ) (callback : Callback) :
    SchedulerTask Callback := ⟨s.added.length, 0, time, callback⟩

/-- To cancel a task leaves every other task that is held as it is. -/
def KeepsOthers (s : SchedulerBook Callback) (obj : ℕ) : Prop :=
  ∀ task ∈ s.scheduler.tasks, task.obj ≠ obj →
    ((s.cancel obj).1.Pending task ↔ s.scheduler.Pending task)

section Steps

variable [DecidableEq Callback]

def step (s : SchedulerBook Callback) : SchedulerAction Callback → Option (SchedulerBook Callback)
  | .add time callback =>
    some { s with
      scheduler := s.scheduler.addTask (s.newTask time callback)
      added := { s.newTask time callback with id := s.scheduler.nextTaskId } :: s.added }
  | .cancel obj =>
    some { s with
      scheduler := (s.cancel obj).1
      cancelled := if (s.cancel obj).2 then obj :: s.cancelled else s.cancelled }
  | .thread task =>
    some { s with
      scheduler := (s.scheduler.thread task s.now).1
      handed := ((s.scheduler.thread task s.now).2.map fun t => (t.obj, s.now)).toList ++ s.handed }
  | .tick now => if s.now ≤ now then some { s with now := now } else none

end Steps

/-- No task that is held bears the identifier that is given next; the identifier that is cancelled
does not stand for a task other than the one meant. -/
def Allowed (s : SchedulerBook Callback) : SchedulerAction Callback → Prop
  | .add _ _ => s.scheduler.FreshId
  | .cancel obj => ∀ task ∈ s.scheduler.tasks, task.id ∈ s.scheduler.pendingTaskIds →
      task.id = s.getId obj → task.obj = obj
  | .thread _ => True
  | .tick _ => True

instance (s : SchedulerBook Callback) (a : SchedulerAction Callback) : Decidable (s.Allowed a) :=
  match a with
  | .add _ _ => inferInstanceAs (Decidable (∀ task ∈ s.scheduler.tasks, _))
  | .cancel _ => inferInstanceAs (Decidable (∀ task ∈ s.scheduler.tasks, _))
  | .thread _ => inferInstanceAs (Decidable True)
  | .tick _ => inferInstanceAs (Decidable True)

/-- Every task that was added is either still to be handed over, cancelled, or handed over at its
time or later. -/
structure Booked (s : SchedulerBook Callback) : Prop where
  wellFormed : s.scheduler.WellFormed
  obj_lt : ∀ task ∈ s.added, task.obj < s.added.length
  obj_nodup : (s.added.map SchedulerTask.obj).Nodup
  held_added : ∀ task ∈ s.scheduler.tasks, task ∈ s.added
  outcome : ∀ task ∈ s.added,
    s.scheduler.Pending task ∨ task.obj ∈ s.cancelled ∨ task.obj ∈ s.handedTasks
  cancelled_added : ∀ obj ∈ s.cancelled, ∃ task ∈ s.added, task.obj = obj
  pending_not_cancelled : ∀ task, s.scheduler.Pending task → task.obj ∉ s.cancelled
  handed_not_held : ∀ task ∈ s.scheduler.tasks, task.obj ∉ s.handedTasks
  handed_not_cancelled : ∀ obj ∈ s.cancelled, obj ∉ s.handedTasks
  handed_nodup : s.handedTasks.Nodup
  handed_added : ∀ obj ∈ s.handedTasks, ∃ task ∈ s.added, task.obj = obj
  handed_due : ∀ e ∈ s.handed, ∀ task ∈ s.added, task.obj = e.1 → task.time ≤ e.2

variable {s t : SchedulerBook Callback}

theorem booked_initial (now : ℤ) : (initial Callback now).Booked := by
  constructor
  · exact Scheduler.initial_wellFormed
  · simp [initial]
  · exact List.nodup_nil
  · simp [initial, Scheduler.initial]
  · simp [initial]
  · simp [initial]
  · simp [initial]
  · simp [initial, Scheduler.initial]
  · simp [initial]
  · exact List.nodup_nil
  · simp [initial, handedTasks]
  · simp [initial]

theorem Booked.eq_of_obj (h : s.Booked) {a b : SchedulerTask Callback} (ha : a ∈ s.added)
    (hb : b ∈ s.added) (hobj : a.obj = b.obj) : a = b :=
  List.inj_on_of_nodup_map h.obj_nodup ha hb hobj

/-- The identifier of a task that was added is found. -/
theorem Booked.getId_eq (h : s.Booked) {task : SchedulerTask Callback} (htask : task ∈ s.added) :
    s.getId task.obj = task.id := by
  have hsome : (s.added.find? fun a => a.obj = task.obj).isSome := by
    rw [List.find?_isSome]
    exact ⟨task, htask, by simp⟩
  obtain ⟨found, hfound⟩ := Option.isSome_iff_exists.mp hsome
  have hobj : found.obj = task.obj := by simpa using List.find?_some hfound
  have heq : found = task := h.eq_of_obj (List.mem_of_find?_eq_some hfound) htask hobj
  rw [getId, hfound, heq]
  rfl

/-- A call of `cancelTask` that changes something. -/
theorem cancel_cases (s : SchedulerBook Callback) (obj : ℕ) :
    s.cancel obj = (s.scheduler, false) ∨
      (s.getId obj ∈ s.scheduler.pendingTaskIds ∧ (s.cancel obj).2 = true) := by
  unfold cancel Scheduler.cancelTask
  split_ifs with hzero hpending
  · exact .inl rfl
  · exact .inr ⟨hpending, rfl⟩
  · exact .inl rfl

/-- To cancel a task leaves the others as they are exactly where its identifier stands for no other
task. -/
theorem Booked.keepsOthers_iff (h : s.Booked) (obj : ℕ) :
    s.KeepsOthers obj ↔ s.Allowed (.cancel obj) := by
  constructor
  · intro hkeeps task htask hpending hid
    by_contra hobj
    have hafter := (hkeeps task htask hobj).mpr ⟨htask, hpending⟩
    rw [cancel, ← hid, Scheduler.cancelTask_pending h.wellFormed htask] at hafter
    exact hafter.2 rfl
  · intro hallowed task htask hobj
    obtain hnone | ⟨hpending, -⟩ := s.cancel_cases obj
    · rw [hnone]
    · -- the identifier belongs to a task that is held, and that is the one meant
      obtain ⟨meant, hmeant, hid⟩ := h.wellFormed.pending_held _ hpending
      have hmeantObj : meant.obj = obj := hallowed meant hmeant (hid ▸ hpending) hid
      have hne : task ≠ meant := by
        rintro rfl
        exact hobj hmeantObj
      rw [cancel, ← hid, Scheduler.cancelTask_pending h.wellFormed hmeant]
      exact and_iff_left hne

/-! ## A step keeps the books -/

section Preserved

variable [DecidableEq Callback]

theorem Booked.add (h : s.Booked) (hfresh : s.scheduler.FreshId) {time : ℤ} {callback : Callback}
    (hstep : s.step (.add time callback) = some t) : t.Booked := by
  obtain rfl := Option.some.inj hstep
  have hid : (s.newTask time callback).id = 0 := rfl
  have hpending := Scheduler.addTask_pending h.wellFormed hfresh (s.newTask time callback) hid
  have htasks := congrArg Scheduler.tasks (Scheduler.addTask_eq h.wellFormed hfresh hid)
  -- the number of the new task is not in use
  have hnew (task) (htask : task ∈ s.added) : task.obj ≠ s.added.length :=
    Nat.ne_of_lt (h.obj_lt task htask)
  have hnot (obj) (hobj : ∃ task ∈ s.added, task.obj = obj) : obj ≠ s.added.length := by
    obtain ⟨task, htask, rfl⟩ := hobj
    exact hnew task htask
  constructor
  · exact Scheduler.addTask_wellFormed h.wellFormed hfresh rfl
  · intro task htask
    rw [List.length_cons]
    rcases List.mem_cons.mp htask with rfl | htask
    · exact Nat.lt_succ_self _
    · exact Nat.lt_succ_of_lt (h.obj_lt task htask)
  · rw [List.map_cons]
    refine List.nodup_cons.mpr ⟨?_, h.obj_nodup⟩
    intro hmem
    obtain ⟨task, htask, hobj⟩ := List.mem_map.mp hmem
    exact hnew task htask hobj
  · intro task htask
    rw [htasks] at htask
    rcases List.mem_cons.mp htask with rfl | htask
    · exact List.mem_cons_self
    · exact List.mem_cons_of_mem _ (h.held_added task htask)
  · intro task htask
    rw [hpending]
    rcases List.mem_cons.mp htask with rfl | htask
    · exact .inl (.inl rfl)
    · exact (h.outcome task htask).imp_left .inr
  · intro obj hobj
    obtain ⟨task, htask, heq⟩ := h.cancelled_added obj hobj
    exact ⟨task, List.mem_cons_of_mem _ htask, heq⟩
  · intro task htask hobj
    rw [hpending] at htask
    rcases htask with rfl | htask
    · exact hnot _ (h.cancelled_added _ hobj) rfl
    · exact h.pending_not_cancelled task htask hobj
  · intro task htask hobj
    rw [htasks] at htask
    rcases List.mem_cons.mp htask with rfl | htask
    · exact hnot _ (h.handed_added _ hobj) rfl
    · exact h.handed_not_held task htask hobj
  · exact h.handed_not_cancelled
  · exact h.handed_nodup
  · intro obj hobj
    obtain ⟨task, htask, heq⟩ := h.handed_added obj hobj
    exact ⟨task, List.mem_cons_of_mem _ htask, heq⟩
  · intro e he task htask hobj
    rcases List.mem_cons.mp htask with rfl | htask
    · exact absurd hobj.symm (hnot _ (h.handed_added _ (List.mem_map_of_mem he)))
    · exact h.handed_due e he task htask hobj

theorem Booked.cancel (h : s.Booked) {obj : ℕ} (hallowed : s.Allowed (.cancel obj))
    (hstep : s.step (.cancel obj) = some t) : t.Booked := by
  obtain rfl := Option.some.inj hstep
  obtain hnone | ⟨hpending, htrue⟩ := s.cancel_cases obj
  · -- the answer is false, and nothing changes
    rw [hnone]
    exact h
  · obtain ⟨meant, hmeant, hid⟩ := h.wellFormed.pending_held _ hpending
    have hobj : meant.obj = obj := hallowed meant hmeant (hid ▸ hpending) hid
    subst hobj
    have hiff (task) : (s.cancel meant.obj).1.Pending task ↔
        s.scheduler.Pending task ∧ task ≠ meant := by
      rw [SchedulerBook.cancel, ← hid]
      exact Scheduler.cancelTask_pending h.wellFormed hmeant task
    have htasks : (s.cancel meant.obj).1.tasks = s.scheduler.tasks :=
      Scheduler.cancelTask_tasks _ _
    rw [if_pos htrue]
    constructor
    · exact Scheduler.cancelTask_wellFormed h.wellFormed _
    · exact h.obj_lt
    · exact h.obj_nodup
    · intro task htask
      rw [htasks] at htask
      exact h.held_added task htask
    · intro task htask
      rw [hiff, List.mem_cons]
      by_cases heq : task = meant
      · exact .inr (.inl (.inl (congrArg _ heq)))
      · obtain hout | hout | hout := h.outcome task htask
        · exact .inl ⟨hout, heq⟩
        · exact .inr (.inl (.inr hout))
        · exact .inr (.inr hout)
    · intro o ho
      rcases List.mem_cons.mp ho with rfl | ho
      · exact ⟨meant, h.held_added meant hmeant, rfl⟩
      · exact h.cancelled_added o ho
    · intro task htask ho
      rw [hiff] at htask
      rcases List.mem_cons.mp ho with heq | ho
      · exact htask.2 (h.eq_of_obj (h.held_added task htask.1.1) (h.held_added meant hmeant) heq)
      · exact h.pending_not_cancelled task htask.1 ho
    · intro task htask
      rw [htasks] at htask
      exact h.handed_not_held task htask
    · intro o ho
      rcases List.mem_cons.mp ho with rfl | ho
      · exact h.handed_not_held meant hmeant
      · exact h.handed_not_cancelled o ho
    · exact h.handed_nodup
    · exact h.handed_added
    · exact h.handed_due

theorem Booked.thread (h : s.Booked) {task : SchedulerTask Callback}
    (hstep : s.step (.thread task) = some t) : t.Booked := by
  obtain rfl := Option.some.inj hstep
  have hwell := Scheduler.thread_wellFormed h.wellFormed task s.now
  have hiff := Scheduler.thread_pending h.wellFormed task s.now
  have hnodup : s.scheduler.tasks.Nodup := h.wellFormed.ids_nodup.of_map _
  obtain heq | ⟨hmem, htime, ⟨hp, heq⟩ | ⟨hp, heq⟩⟩ := s.scheduler.thread_cases task s.now
  · -- the task is not at the top or not due
    rw [heq]
    exact h
  · -- it is handed over
    rw [heq] at hwell hiff ⊢
    have hpending : s.scheduler.Pending task := ⟨hmem, hp⟩
    have hheld (a) (ha : a ∈ s.scheduler.tasks.erase task) : a ∈ s.scheduler.tasks ∧ a ≠ task :=
      ⟨List.mem_of_mem_erase ha, (hnodup.mem_erase_iff.mp ha).1⟩
    constructor
    · exact hwell
    · exact h.obj_lt
    · exact h.obj_nodup
    · exact fun a ha => h.held_added a (hheld a ha).1
    · intro a ha
      rw [hiff]
      simp only [reduceCtorEq, false_or, handedTasks, Option.map_some, Option.toList_some,
        List.singleton_append, List.map_cons, List.mem_cons]
      by_cases hat : a = task
      · exact .inr (.inr (.inl (congrArg _ hat)))
      · obtain hout | hout | hout := h.outcome a ha
        · exact .inl ⟨hout, hat⟩
        · exact .inr (.inl hout)
        · exact .inr (.inr (.inr hout))
    · exact h.cancelled_added
    · exact fun a ha => h.pending_not_cancelled a ((hiff a).mp ha).1
    · intro a ha hobj
      obtain ⟨hheldA, hne⟩ := hheld a ha
      rcases List.mem_cons.mp hobj with hobj | hobj
      · exact hne (h.eq_of_obj (h.held_added a hheldA) (h.held_added task hmem) hobj)
      · exact h.handed_not_held a hheldA hobj
    · intro obj hcancelled hobj
      rcases List.mem_cons.mp hobj with rfl | hobj
      · exact h.pending_not_cancelled task hpending hcancelled
      · exact h.handed_not_cancelled obj hcancelled hobj
    · exact List.nodup_cons.mpr ⟨h.handed_not_held task hmem, h.handed_nodup⟩
    · intro obj hobj
      rcases List.mem_cons.mp hobj with rfl | hobj
      · exact ⟨task, h.held_added task hmem, rfl⟩
      · exact h.handed_added obj hobj
    · intro e he a ha hobj
      rcases List.mem_cons.mp he with rfl | he
      · rw [h.eq_of_obj ha (h.held_added task hmem) hobj]
        exact htime
      · exact h.handed_due e he a ha hobj
  · -- it was cancelled
    rw [heq] at hwell hiff ⊢
    have hkept (a) : (⟨s.scheduler.lastUsedTaskId, s.scheduler.pendingTaskIds,
        s.scheduler.tasks.erase task⟩ : Scheduler Callback).Pending a ↔ s.scheduler.Pending a := by
      rw [hiff]
      exact and_iff_left (.inl rfl)
    constructor
    · exact hwell
    · exact h.obj_lt
    · exact h.obj_nodup
    · exact fun a ha => h.held_added a (List.mem_of_mem_erase ha)
    · intro a ha
      rw [hkept]
      exact h.outcome a ha
    · exact h.cancelled_added
    · exact fun a ha => h.pending_not_cancelled a ((hkept a).mp ha)
    · exact fun a ha => h.handed_not_held a (List.mem_of_mem_erase ha)
    · exact h.handed_not_cancelled
    · exact h.handed_nodup
    · exact h.handed_added
    · exact h.handed_due

theorem Booked.step {a : SchedulerAction Callback} (h : s.Booked) (hallowed : s.Allowed a)
    (hstep : s.step a = some t) : t.Booked := by
  cases a with
  | add time callback => exact h.add hallowed hstep
  | cancel obj => exact h.cancel hallowed hstep
  | thread task => exact h.thread hstep
  | tick now =>
    obtain ⟨-, hstep⟩ := Option.ite_none_right_eq_some.mp hstep
    obtain rfl := Option.some.inj hstep
    exact { h with }

theorem booked_of_run (now : ℤ) (actions : List (SchedulerAction Callback))
    (hrun : runActions (guarded Allowed SchedulerBook.step) (initial Callback now) actions = some s) :
    s.Booked := by
  have hreach : ((System.ofStep (· = initial Callback now) SchedulerBook.step).restrict
      Allowed).Reachable s := reachable_restrict_of_runActions (.init rfl) actions hrun
  apply hreach.invariant
  · rintro s rfl
    exact booked_initial now
  · exact fun s a t hs hst => hs.step hst.1 hst.2

/-! ## Tasks run once -/

/-- After an addition the held tasks are cancelled apart from each other exactly where the
identifier was free. -/
theorem Booked.add_keepsOthers_iff (h : s.Booked) {time : ℤ} {callback : Callback}
    (hstep : s.step (.add time callback) = some t) :
    (∀ task ∈ t.scheduler.tasks, t.KeepsOthers task.obj) ↔ s.Allowed (.add time callback) := by
  constructor
  · intro hkeeps old hold hid
    obtain rfl := Option.some.inj hstep
    -- the new task and an old one bear the same identifier
    have hobj : s.added.length ≠ old.obj := Nat.ne_of_gt (h.obj_lt old (h.held_added old hold))
    have hpending := s.scheduler.addTask_pendingTaskIds (s.newTask time callback) rfl
    have hnodup := s.scheduler.addTask_pending_nodup h.wellFormed.pending_nodup
      (s.newTask time callback)
    have hafter := (hkeeps old (List.mem_cons_of_mem _ hold)
      { s.newTask time callback with id := s.scheduler.nextTaskId } List.mem_cons_self hobj).mpr
      ⟨List.mem_cons_self, hpending⟩
    have hfind : getId { s with
        scheduler := s.scheduler.addTask (s.newTask time callback)
        added := { s.newTask time callback with id := s.scheduler.nextTaskId } :: s.added }
        old.obj = s.scheduler.nextTaskId := by
      simp only [getId, newTask, List.find?_cons, decide_eq_false hobj]
      rw [← hid]
      exact h.getId_eq (h.held_added old hold)
    rw [SchedulerBook.cancel, hfind, Scheduler.cancelTask, if_neg s.scheduler.nextTaskId_ne_zero,
      if_pos hpending] at hafter
    exact (hnodup.mem_erase_iff.mp hafter.2).1 rfl
  · intro hfresh task htask
    have ht := h.add hfresh hstep
    rw [ht.keepsOthers_iff]
    intro other hother _ hid
    rw [ht.getId_eq (ht.held_added task htask)] at hid
    rw [ht.wellFormed.eq_of_id hother htask hid]

/-- In a run whose additions are given identifiers that no held task bears, and whose cancellations
mean the task that bears the identifier, every task runs once: none is handed over early or twice or
after it was cancelled, to cancel one leaves the others that are held, and none is lost.  With an
identifier that a held task bears the held tasks are not cancelled apart from each other any more. -/
theorem tasks_run_once (now : ℤ) (actions : List (SchedulerAction Callback))
    (hrun : runActions (guarded Allowed SchedulerBook.step) (initial Callback now) actions = some s) :
    (∀ e ∈ s.handed, ∀ task ∈ s.added, task.obj = e.1 → task.time ≤ e.2) ∧
    s.handedTasks.Nodup ∧
    (∀ obj ∈ s.cancelled, obj ∉ s.handedTasks) ∧
    (∀ obj, s.KeepsOthers obj ↔ s.Allowed (.cancel obj)) ∧
    (s.scheduler.tasks = [] →
      ∀ task ∈ s.added, task.obj ∉ s.cancelled → task.obj ∈ s.handedTasks) ∧
    ∀ time callback t, s.step (.add time callback) = some t →
      ((∀ task ∈ t.scheduler.tasks, t.KeepsOthers task.obj) ↔ s.Allowed (.add time callback)) := by
  have h := booked_of_run now actions hrun
  refine ⟨h.handed_due, h.handed_nodup, h.handed_not_cancelled, h.keepsOthers_iff, ?_,
    fun _ _ _ hstep => h.add_keepsOthers_iff hstep⟩
  intro hempty task htask hnot
  obtain hpending | hcancelled | hhanded := h.outcome task htask
  · -- nothing is pending in an empty queue
    rw [Scheduler.Pending, hempty] at hpending
    exact absurd hpending.1 List.not_mem_nil
  · exact absurd hcancelled hnot
  · exact hhanded

end Preserved

/-- Two tasks, the first of which is cancelled; the second is handed over once it is due. -/
theorem tasks_run_once_pair :
    ∃ s : SchedulerBook ℕ, runActions (guarded Allowed SchedulerBook.step) (initial ℕ 0)
        [.add 5 10, .add 7 20, .cancel 0, .tick 8, .thread ⟨0, 1, 5, 10⟩, .thread ⟨1, 2, 7, 20⟩] =
          some s ∧
      (∀ e ∈ s.handed, ∀ task ∈ s.added, task.obj = e.1 → task.time ≤ e.2) ∧
      s.handedTasks.Nodup ∧
      (∀ obj ∈ s.cancelled, obj ∉ s.handedTasks) ∧
      (∀ obj, s.KeepsOthers obj ↔ s.Allowed (.cancel obj)) ∧
      (s.scheduler.tasks = [] →
        ∀ task ∈ s.added, task.obj ∉ s.cancelled → task.obj ∈ s.handedTasks) ∧
      ∀ time callback t, s.step (.add time callback) = some t →
        ((∀ task ∈ t.scheduler.tasks, t.KeepsOthers task.obj) ↔
          s.Allowed (.add time callback)) :=
  ⟨_, rfl, tasks_run_once 0 [.add 5 10, .add 7 20, .cancel 0, .tick 8, .thread ⟨0, 1, 5, 10⟩,
    .thread ⟨1, 2, 7, 20⟩] rfl⟩

/-! ## An identifier that comes round again -/

/-- Fewer tasks are held than there are identifiers. -/
def RoomForIds (s : SchedulerBook Unit) (_ : SchedulerAction Unit) : Prop :=
  s.scheduler.tasks.length < maxTaskId

instance (s : SchedulerBook Unit) (a : SchedulerAction Unit) : Decidable (RoomForIds s a) :=
  inferInstanceAs (Decidable (_ < _))

/-- One task is held for a later time, and `n` others have been added and handed over. -/
structure OneHeld (n : ℕ) (s : SchedulerBook Unit) : Prop where
  scheduler : s.scheduler = ⟨n + 1, [1], [⟨0, 1, 10, ()⟩]⟩
  now : s.now = 0
  first : ⟨0, 1, 10, ()⟩ ∈ s.added
  length : s.added.length = n + 1
  cancelled : s.cancelled = []
  handed : ∀ e ∈ s.handed, e.1 ≠ 0

/-- Another task comes and goes. -/
theorem OneHeld.round {n : ℕ} {s : SchedulerBook Unit} (h : OneHeld n s) (hn : n + 1 < maxTaskId) :
    ∃ t, runActions (guarded RoomForIds SchedulerBook.step) s
      [.add 0 (), .thread ⟨n + 1, n + 2, 0, ()⟩] = some t ∧ OneHeld (n + 1) t := by
  obtain ⟨sched, now, added, cancelled, handed⟩ := s
  obtain ⟨hsched, hnow, hfirst, hlength, hcancelled, hhanded⟩ := h
  simp only at hsched hnow hfirst hlength hcancelled hhanded
  subst hsched hnow hcancelled
  have hnext : n + 1 ≠ maxTaskId := Nat.ne_of_lt hn
  refine ⟨⟨⟨n + 2, [1], [⟨0, 1, 10, ()⟩]⟩, 0, ⟨n + 1, n + 2, 0, ()⟩ :: added, [],
    (n + 1, 0) :: handed⟩, ?_, ?_⟩
  · have hone : 1 < maxTaskId := by decide
    have htwo : 2 < maxTaskId := by decide
    simp [runActions, guarded, RoomForIds, hone, htwo, SchedulerBook.step, newTask,
      Scheduler.addTask, Scheduler.thread, Scheduler.nextTaskId, hnext, hlength]
  · constructor
    · rfl
    · rfl
    · exact List.mem_cons_of_mem _ hfirst
    · rw [List.length_cons, hlength]
    · rfl
    · intro e he
      rcases List.mem_cons.mp he with rfl | he
      · exact Nat.succ_ne_zero n
      · exact hhanded e he

/-- As many tasks as wanted come and go while the first one is held. -/
theorem oneHeld_of_rounds (n : ℕ) (hn : n < maxTaskId) :
    ∃ actions s, runActions (guarded RoomForIds SchedulerBook.step) (initial Unit 0) actions =
      some s ∧ OneHeld n s := by
  induction n with
  | zero =>
    have hroom : 0 < maxTaskId := hn
    refine ⟨[.add 10 ()], ⟨⟨1, [1], [⟨0, 1, 10, ()⟩]⟩, 0, [⟨0, 1, 10, ()⟩], [], []⟩, ?_, ?_⟩
    · simp [runActions, guarded, RoomForIds, hroom, SchedulerBook.step, newTask, initial,
        Scheduler.initial, Scheduler.addTask, Scheduler.nextTaskId, Nat.ne_of_lt hroom]
    · exact ⟨rfl, rfl, List.mem_cons_self, rfl, rfl, by simp⟩
  | succ n ih =>
    obtain ⟨actions, s, hrun, hs⟩ := ih (Nat.lt_of_succ_lt hn)
    obtain ⟨t, hround, ht⟩ := hs.round hn
    exact ⟨actions ++ [.add 0 (), .thread ⟨n + 1, n + 2, 0, ()⟩], t,
      (runActions_append hrun _).trans hround, ht⟩

/-- While a task is held the identifiers come round, and another task is given its identifier.  The
other task is handed over; the first one is then taken for cancelled and is never handed over. -/
theorem tasks_not_run_once :
    ∃ actions s, runActions (guarded RoomForIds SchedulerBook.step) (initial Unit 0) actions =
      some s ∧ s.scheduler.tasks = [] ∧
      ∃ task ∈ s.added, task.obj ∉ s.cancelled ∧ task.obj ∉ s.handedTasks := by
  obtain ⟨actions, ⟨sched, now, added, cancelled, handed⟩, hrun, hs⟩ :=
    oneHeld_of_rounds (maxTaskId - 1) (by decide)
  obtain ⟨hsched, hnow, hfirst, hlength, hcancelled, hhanded⟩ := hs
  simp only at hsched hnow hfirst hlength hcancelled hhanded
  subst hsched hnow hcancelled
  have hmax : maxTaskId - 1 + 1 = maxTaskId := by decide
  have hone : 1 < maxTaskId := by decide
  have htwo : 2 < maxTaskId := by decide
  rw [hmax] at hlength hrun
  refine ⟨actions ++ [.add 0 (), .thread ⟨maxTaskId, 1, 0, ()⟩, .tick 10, .thread ⟨0, 1, 10, ()⟩],
    ⟨⟨1, [], []⟩, 10, ⟨maxTaskId, 1, 0, ()⟩ :: added, [], (maxTaskId, 0) :: handed⟩,
    (runActions_append hrun _).trans ?_, rfl, ⟨0, 1, 10, ()⟩, List.mem_cons_of_mem _ hfirst,
    List.not_mem_nil, ?_⟩
  · simp [runActions, guarded, RoomForIds, hone, htwo, SchedulerBook.step, newTask,
      Scheduler.addTask, Scheduler.thread, Scheduler.nextTaskId, hlength]
  · intro hmem
    rcases List.mem_cons.mp hmem with heq | hmem
    · exact absurd heq (by decide)
    · obtain ⟨e, he, hzero⟩ := List.mem_map.mp hmem
      exact hhanded e he hzero

end SchedulerBook

end TyanoCore
