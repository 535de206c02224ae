import TyanoCore.QueueHistory
import TyanoCore.Run
import Mathlib.Algebra.Order.Ring.Int

/-!
# The dispatcher and its thread

Any number of threads add tasks to the dispatcher, start it and stop it; its own thread takes the
tasks and runs them.  A section under the mutex is one step, and so is each test of the state
without it.  The log says in which order tasks were accepted, taken and run.
-/

namespace TyanoCore.DispatcherThread

open QueueHistory Transition

inductive State where
  | STOPPED
  | STARTED
  | STOPPING
deriving DecidableEq

structure Task (Function : Type) where
  expiration : ℤ
  function : Function
deriving DecidableEq

/-- Where the thread is.  A call of `runTasks` has a frame: the tasks it has still to run; a task
that is running can make another call. -/
inductive Thread (Function : Type) where
  /-- There is no thread, or it has ended. -/
  | ended
  /-- Before the test of the state in the loop. -/
  | check
  /-- Before the lock. -/
  | lock
  | waiting (notified : Bool)
  | running (executing : Bool) (frames : List (List (Task Function))) (afterLoop : Bool)
  /-- After the loop, before the remaining tasks are moved. -/
  | collect
  /-- Before the state is set to `STOPPED`. -/
  | finish
deriving DecidableEq

structure Dispatcher (Function : Type) where
  _state : State
  _tasks : List (Task Function)
  thread : Thread Function
  joinable : Bool
  /-- The note of a task that is handled: whether it was executed. -/
  log : List (Event (Task Function) Bool)

namespace Dispatcher

variable {Function : Type}

def initial : Dispatcher Function where
  _state := .STOPPED
  _tasks := []
  thread := .ended
  joinable := false
  log := []

variable (s : Dispatcher Function)

/-- `_signal.notify_one()`. -/
def notify_one : Dispatcher Function :=
  match s.thread with
  | .waiting _ => { s with thread := .waiting true }
  | _ => s

def addTask (task : Task Function) (urgent : Bool) : Dispatcher Function :=
  match s._state with
  | .STOPPED | .STARTED =>
    let tasks := if urgent then task :: s._tasks else s._tasks ++ [task]
    let added := { s with _tasks := tasks, log := s.log ++ [.accepted urgent task] }
    if tasks.length = 1 then added.notify_one else added
  | .STOPPING => s

/-- The new thread takes the place of one that can still be joined: the program is terminated. -/
def start : Option (Dispatcher Function) :=
  match s._state with
  | .STOPPED =>
    if s.joinable then none
    else some { s with _state := .STARTED, thread := .check, joinable := true }
  | _ => some s

def stop : Dispatcher Function :=
  match s._state with
  | .STARTED =>
    let stopping := { s with _state := .STOPPING }
    if s._tasks = [] then stopping.notify_one else stopping
  | _ => s

/-- `waitUntilStopped` of another thread, once the thread has ended. -/
def join : Option (Dispatcher Function) :=
  match s.thread with
  | .ended => if s.joinable then some { s with joinable := false } else some s
  | _ => none

/-- `waitUntilStopped` called by the task that is running. -/
def waitUntilStopped : Option (Dispatcher Function) :=
  match s.thread with
  | .running true frames afterLoop =>
    if s._state = .STARTED then some s
    else
      some { s with
        _tasks := []
        thread := .running false (s._tasks :: frames) afterLoop
        log := s.log ++ [.took s._tasks] }
  | _ => none

/-- The rest of the section under the lock: the thread takes a task, or looks at the state again. -/
def takeTask : Dispatcher Function :=
  match s._state, s._tasks with
  | .STARTED, task :: tasks =>
    { s with
      _tasks := tasks
      thread := .running false [[task]] false
      log := s.log ++ [.took [task]] }
  | _, _ => { s with thread := .check }

/-- `runTask` of the next task of a frame, or the return from it. -/
def runNext (now : ℤ) (frames : List (List (Task Function))) (afterLoop : Bool) :
    Dispatcher Function :=
  match frames with
  | (task :: tasks) :: frames =>
    let executed := ¬ task.expiration < now
    { s with
      thread := .running executed (tasks :: frames) afterLoop
      log := s.log ++ [.handled task executed] }
  | [] :: frame :: frames => { s with thread := .running true (frame :: frames) afterLoop }
  | _ => { s with thread := if afterLoop then .finish else .check }

/-- The next step of the thread; a thread that sleeps has none. -/
def threadStep (now : ℤ) : Option (Dispatcher Function) :=
  match s.thread with
  | .ended => none
  | .check => some { s with thread := if s._state = .STARTED then .lock else .collect }
  | .lock => some (if s._tasks = [] then { s with thread := .waiting false } else s.takeTask)
  | .waiting true => some s.takeTask
  | .waiting false => none
  | .running true frames afterLoop => some { s with thread := .running false frames afterLoop }
  | .running false frames afterLoop => some (s.runNext now frames afterLoop)
  | .collect =>
    some { s with
      _tasks := []
      thread := .running false [s._tasks] true
      log := s.log ++ [.took s._tasks] }
  | .finish => some { s with _state := .STOPPED, thread := .ended, log := s.log ++ [.closed] }

inductive Action (Function : Type) where
  | addTask (task : Task Function) (urgent : Bool)
  | start
  | stop
  | join
  | waitUntilStopped
  | thread (now : ℤ)
  /-- The thread wakes up without a notification. -/
  | spurious

def step : Action Function → Option (Dispatcher Function)
  | .addTask task urgent => some (s.addTask task urgent)
  | .start => s.start
  | .stop => some s.stop
  | .join => s.join
  | .waitUntilStopped => s.waitUntilStopped
  | .thread now => s.threadStep now
  | .spurious =>
    match s.thread with
    | .waiting false => some s.takeTask
    | _ => none

def system (Function : Type) : System (Dispatcher Function) (Action Function) :=
  .ofStep (· = initial) step

/-! ## What is under way -/

/-- The frames of the calls of `runTasks`. -/
def frames : Thread Function → List (List (Task Function))
  | .running _ frames _ => frames
  | _ => []

/-- The tasks that were taken and are still to be run. -/
def taken (thread : Thread Function) : List (Task Function) := (frames thread).flatten

variable {s} {t : Dispatcher Function}

@[simp] theorem frames_notify_one : frames s.notify_one.thread = frames s.thread := by
  cases hthread : s.thread with
  | waiting notified => simp only [notify_one, hthread, frames]
  | _ => simp only [notify_one, hthread]

@[simp] theorem tasks_notify_one : s.notify_one._tasks = s._tasks := by
  cases hthread : s.thread <;> simp only [notify_one, hthread]

@[simp] theorem log_notify_one : s.notify_one.log = s.log := by
  cases hthread : s.thread <;> simp only [notify_one, hthread]

/-- While tasks of more than one frame, or more than one task, are still to be run, nothing is added
any more. -/
def Settled (s : Dispatcher Function) : Prop := s._state = .STOPPING ∧ s._tasks = []

/-- The thread and the state of the dispatcher. -/
def Consistent (s : Dispatcher Function) : Prop :=
  match s.thread with
  | .ended => s._state = .STOPPED
  | .check | .lock => s._state ≠ .STOPPED
  | .waiting notified => s._state ≠ .STOPPED ∧ (notified = false → s._tasks = [])
  | .running executing frames afterLoop =>
    s._state ≠ .STOPPED ∧ frames ≠ [] ∧ (afterLoop = true → s.Settled) ∧
      (s.Settled ∨ frames.tail.flatten = [] ∧ if executing then frames.flatten = []
        else (frames.head?.getD []).length ≤ 1)
  | .collect => s._state = .STOPPING
  | .finish => s.Settled

/-- The log is the history of a queue, and leaves in it what the dispatcher holds. -/
structure Invariant (s : Dispatcher Function) : Prop where
  legal : Legal s.log s._tasks (taken s.thread)
  consistent : s.Consistent

theorem invariant_initial : Invariant (initial : Dispatcher Function) where
  legal := .nil
  consistent := rfl

/-- A notification wakes the thread if it sleeps; nothing else changes. -/
theorem consistent_notify_one (h : (∀ notified, s.thread ≠ .waiting notified) → s.Consistent)
    (hstate : s._state ≠ .STOPPED ∨ ∀ notified, s.thread ≠ .waiting notified) :
    s.notify_one.Consistent := by
  cases hthread : s.thread with
  | waiting notified =>
    have hne : s._state ≠ .STOPPED := by
      rcases hstate with hstate | hstate
      · exact hstate
      · exact absurd hthread (hstate notified)
    rw [notify_one, hthread]
    exact ⟨hne, fun h => absurd h.symm Bool.false_ne_true⟩
  | _ =>
    have hsame : s.notify_one = s := by rw [notify_one, hthread]
    rw [hsame]
    apply h
    intro notified
    rw [hthread]
    exact fun hwaiting => by cases hwaiting

theorem Consistent.state_ne_stopped {notified : Bool} (h : s.Consistent)
    (hthread : s.thread = .waiting notified) : s._state ≠ .STOPPED := by
  rw [Consistent, hthread] at h
  exact h.1

/-- Tasks that are added while nothing has been settled leave the thread where it is. -/
theorem Consistent.with_tasks (h : s.Consistent) (hstate : s._state ≠ .STOPPING)
    (tasks : List (Task Function)) (log : List (Event (Task Function) Bool))
    (hthread : s.thread ≠ .waiting false) :
    ({ s with _tasks := tasks, log := log } : Dispatcher Function).Consistent := by
  cases hcase : s.thread with
  | waiting notified =>
    cases notified with
    | false => exact absurd hcase hthread
    | true =>
      simp only [Consistent, hcase] at h ⊢
      exact ⟨h.1, fun hfalse => absurd hfalse.symm Bool.false_ne_true⟩
  | running executing frames afterLoop =>
    simp only [Consistent, hcase] at h ⊢
    obtain ⟨hne, hframes, hafter, hsettled | hshape⟩ := h
    · exact absurd hsettled.1 hstate
    · exact ⟨hne, hframes, fun hloop => absurd (hafter hloop).1 hstate, .inr hshape⟩
  | finish =>
    simp only [Consistent, hcase] at h
    exact absurd h.1 hstate
  | collect =>
    simp only [Consistent, hcase] at h
    exact absurd h hstate
  | ended => simpa only [Consistent, hcase] using h
  | check => simpa only [Consistent, hcase] using h
  | lock => simpa only [Consistent, hcase] using h

theorem addTask_eq (hstate : s._state ≠ .STOPPING) (task : Task Function) (urgent : Bool) :
    s.addTask task urgent =
      let tasks := if urgent then task :: s._tasks else s._tasks ++ [task]
      let added : Dispatcher Function :=
        { s with _tasks := tasks, log := s.log ++ [.accepted urgent task] }
      if tasks.length = 1 then added.notify_one else added := by
  cases hcase : s._state with
  | STOPPING => exact absurd hcase hstate
  | _ => rw [addTask, hcase]

theorem Invariant.addTask (h : Invariant s) (task : Task Function) (urgent : Bool) :
    Invariant (s.addTask task urgent) := by
  by_cases hstate : s._state = .STOPPING
  · rw [Dispatcher.addTask, hstate]
    exact h
  have hlegal : Legal (s.log ++ [.accepted urgent task])
      (if urgent then task :: s._tasks else s._tasks ++ [task]) (taken s.thread) := by
    cases urgent with
    | true => exact h.legal.front task
    | false => exact h.legal.back task
  rw [addTask_eq hstate]
  have hempty : s._tasks = [] →
      (if urgent then task :: s._tasks else s._tasks ++ [task]).length = 1 := by
    intro hnil
    rw [hnil]
    cases urgent <;> rfl
  generalize (if urgent then task :: s._tasks else s._tasks ++ [task]) = tasks at hlegal hempty
  dsimp only
  split_ifs with hone
  · constructor
    · simpa only [log_notify_one, tasks_notify_one, taken, frames_notify_one] using hlegal
    · apply consistent_notify_one
      · intro hwaiting
        exact h.consistent.with_tasks hstate _ _ (hwaiting false)
      · by_cases hstopped : s._state = .STOPPED
        · exact .inr fun _ hthread => h.consistent.state_ne_stopped hthread hstopped
        · exact .inl hstopped
  · refine ⟨hlegal, h.consistent.with_tasks hstate _ _ ?_⟩
    -- a thread that sleeps without a notification has an empty queue, and is notified
    intro hthread
    have hconsistent := h.consistent
    rw [Consistent, hthread] at hconsistent
    exact hone (hempty (hconsistent.2 rfl))

/-- The state after a stop, before a notification. -/
theorem Consistent.stopping (h : s.Consistent) (hstate : s._state = .STARTED) :
    ({ s with _state := .STOPPING } : Dispatcher Function).Consistent := by
  cases hcase : s.thread with
  | running executing frames afterLoop =>
    simp only [Consistent, hcase] at h ⊢
    obtain ⟨_, hframes, hafter, hshape⟩ := h
    have hopen : ¬ s.Settled := fun hsettled => by
      rw [hsettled.1] at hstate
      cases hstate
    refine ⟨State.noConfusion, hframes, fun hloop => absurd (hafter hloop) hopen, .inr ?_⟩
    exact hshape.resolve_left hopen
  | waiting notified =>
    simp only [Consistent, hcase] at h ⊢
    exact ⟨State.noConfusion, h.2⟩
  | finish =>
    simp only [Consistent, hcase] at h
    rw [h.1] at hstate
    cases hstate
  | ended =>
    simp only [Consistent, hcase] at h
    rw [h] at hstate
    cases hstate
  | collect => simp only [Consistent]
  | check =>
    simp only [Consistent]
    exact State.noConfusion
  | lock =>
    simp only [Consistent]
    exact State.noConfusion

theorem Invariant.stop (h : Invariant s) : Invariant s.stop := by
  cases hstate : s._state with
  | STARTED =>
    rw [Dispatcher.stop, hstate]
    dsimp only
    split_ifs with hempty
    · constructor
      · simpa only [log_notify_one, tasks_notify_one, taken, frames_notify_one] using h.legal
      · exact consistent_notify_one (fun _ => h.consistent.stopping hstate) (.inl State.noConfusion)
    · exact ⟨h.legal, h.consistent.stopping hstate⟩
  | _ =>
    rw [Dispatcher.stop, hstate]
    exact h

theorem Consistent.ended (h : s.Consistent) (hstate : s._state = .STOPPED) : s.thread = .ended := by
  cases hcase : s.thread with
  | ended => rfl
  | collect =>
    simp only [Consistent, hcase, hstate] at h
    cases h
  | finish =>
    simp only [Consistent, hcase, Settled, hstate] at h
    cases h.1
  | running executing frames afterLoop =>
    simp only [Consistent, hcase] at h
    exact absurd hstate h.1
  | waiting notified => exact absurd hstate (h.state_ne_stopped hcase)
  | check =>
    simp only [Consistent, hcase] at h
    exact absurd hstate h
  | lock =>
    simp only [Consistent, hcase] at h
    exact absurd hstate h

theorem Invariant.start (h : Invariant s) (ht : s.start = some t) : Invariant t := by
  cases hstate : s._state with
  | STOPPED =>
    rw [Dispatcher.start, hstate] at ht
    dsimp only at ht
    split_ifs at ht
    cases ht
    have hlegal := h.legal
    rw [h.consistent.ended hstate] at hlegal
    exact ⟨hlegal, State.noConfusion⟩
  | _ =>
    rw [Dispatcher.start, hstate] at ht
    cases ht
    exact h

theorem Invariant.join (h : Invariant s) (ht : s.join = some t) : Invariant t := by
  rw [Dispatcher.join] at ht
  split at ht
  · split_ifs at ht
    · cases ht
      exact ⟨h.legal, h.consistent⟩
    · cases ht
      exact h
  · cases ht

theorem Invariant.waitUntilStopped (h : Invariant s) (ht : s.waitUntilStopped = some t) :
    Invariant t := by
  rw [Dispatcher.waitUntilStopped] at ht
  split at ht
  · next frames afterLoop hthread =>
    have hconsistent := h.consistent
    have hlegal := h.legal
    simp only [Consistent, hthread] at hconsistent
    rw [taken, hthread] at hlegal
    obtain ⟨hne, hframes, hafter, hshape⟩ := hconsistent
    split_ifs at ht with hstarted
    · cases ht
      exact h
    · cases ht
      have hstopping : s._state = .STOPPING := by
        cases hstate : s._state with
        | STARTED => exact absurd hstate hstarted
        | STOPPED => exact absurd hstate hne
        | STOPPING => rfl
      constructor
      · -- one of the two parts is empty, so that their order does not matter
        have horder : (s._tasks :: frames).flatten = frames.flatten ++ s._tasks := by
          rw [List.flatten_cons]
          rcases hshape with hsettled | hempty
          · rw [hsettled.2, List.append_nil, List.nil_append]
          · rw [if_pos trivial] at hempty
            rw [hempty.2, List.append_nil, List.nil_append]
        rw [taken, Dispatcher.frames, horder]
        apply Legal.took
        rw [List.append_nil]
        exact hlegal
      · exact ⟨hne, List.cons_ne_nil _ _, fun _ => ⟨hstopping, rfl⟩, .inl ⟨hstopping, rfl⟩⟩
  · cases ht

theorem Invariant.takeTask (h : Invariant s) (hstate : s._state ≠ .STOPPED)
    (htaken : taken s.thread = []) : Invariant s.takeTask := by
  have hlegal := h.legal
  rw [htaken] at hlegal
  rw [Dispatcher.takeTask]
  split
  · next task tasks hstarted htasks =>
    rw [htasks] at hlegal
    refine ⟨Legal.took [task] hlegal, hstate, List.cons_ne_nil _ _, ?_, .inr ⟨rfl, Nat.le_refl 1⟩⟩
    intro hloop
    cases hloop
  · exact ⟨hlegal, hstate⟩

theorem Invariant.runNext (h : Invariant s) {frames : List (List (Task Function))}
    {afterLoop : Bool} (hthread : s.thread = .running false frames afterLoop) (now : ℤ) :
    Invariant (s.runNext now frames afterLoop) := by
  have hlegal := h.legal
  have hconsistent := h.consistent
  simp only [Consistent, hthread] at hconsistent
  rw [taken, hthread] at hlegal
  obtain ⟨hne, hframes, hafter, hshape⟩ := hconsistent
  match frames with
  | (task :: tasks) :: frames =>
    refine ⟨Legal.handled task _ hlegal, hne, List.cons_ne_nil _ _, hafter, ?_⟩
    rcases hshape with hsettled | ⟨hrest, hone⟩
    · exact .inl hsettled
    · have hnil : tasks = [] := List.eq_nil_of_length_eq_zero (Nat.le_zero.mp
        (Nat.le_of_succ_le_succ hone))
      have hframes : frames.flatten = [] := hrest
      refine .inr ⟨hframes, ?_⟩
      rw [hnil, List.flatten_cons, hframes]
      split_ifs
      · rfl
      · exact Nat.zero_le 1
  | [] :: frame :: frames =>
    refine ⟨hlegal, hne, List.cons_ne_nil _ _, hafter, ?_⟩
    rcases hshape with hsettled | ⟨hrest, _⟩
    · exact .inl hsettled
    · exact .inr ⟨(List.append_eq_nil_iff.mp hrest).2, hrest⟩
  | [[]] =>
    cases afterLoop with
    | true => exact ⟨hlegal, hafter rfl⟩
    | false => exact ⟨hlegal, hne⟩
  | [] => exact absurd rfl hframes

theorem Invariant.threadStep (h : Invariant s) {now : ℤ} (ht : s.threadStep now = some t) :
    Invariant t := by
  have hlegal := h.legal
  have hconsistent := h.consistent
  rw [Dispatcher.threadStep] at ht
  split at ht
  · cases ht
  · next hthread =>
    simp only [Consistent, hthread] at hconsistent
    rw [hthread] at hlegal
    cases ht
    by_cases hstarted : s._state = .STARTED
    · rw [if_pos hstarted]
      exact ⟨hlegal, hconsistent⟩
    · rw [if_neg hstarted]
      refine ⟨hlegal, ?_⟩
      cases hstate : s._state with
      | STARTED => exact absurd hstate hstarted
      | STOPPED => exact absurd hstate hconsistent
      | STOPPING => rfl
  · next hthread =>
    simp only [Consistent, hthread] at hconsistent
    cases ht
    split_ifs with hempty
    · rw [hthread] at hlegal
      exact ⟨hlegal, hconsistent, fun _ => hempty⟩
    · exact h.takeTask hconsistent (by rw [hthread]; rfl)
  · next hthread =>
    cases ht
    exact h.takeTask (hconsistent.state_ne_stopped hthread) (by rw [hthread]; rfl)
  · cases ht
  · next frames afterLoop hthread =>
    simp only [Consistent, hthread] at hconsistent
    rw [hthread] at hlegal
    cases ht
    obtain ⟨hne, hframes, hafter, hshape⟩ := hconsistent
    refine ⟨hlegal, hne, hframes, hafter, hshape.imp_right fun ⟨hrest, hempty⟩ => ⟨hrest, ?_⟩⟩
    -- every frame is empty, the one in front of the others too
    cases frames with
    | nil => exact absurd rfl hframes
    | cons frame frames =>
      have hnil : frame = [] := (List.append_eq_nil_iff.mp hempty).1
      rw [hnil]
      exact Nat.zero_le 1
  · next frames afterLoop hthread =>
    cases ht
    exact h.runNext hthread now
  · next hthread =>
    simp only [Consistent, hthread] at hconsistent
    rw [hthread] at hlegal
    cases ht
    refine ⟨?_, by rw [hconsistent]; exact State.noConfusion, List.cons_ne_nil _ _,
      fun _ => ⟨hconsistent, rfl⟩, .inl ⟨hconsistent, rfl⟩⟩
    have hflatten : taken (.running false [s._tasks] true) = [] ++ s._tasks := List.append_nil _
    rw [hflatten]
    apply Legal.took
    rw [List.append_nil]
    exact hlegal
  · next hthread =>
    simp only [Consistent, hthread] at hconsistent
    rw [hthread, hconsistent.2] at hlegal
    cases ht
    refine ⟨?_, rfl⟩
    rw [hconsistent.2]
    exact Legal.closed hlegal

theorem Invariant.step (h : Invariant s) {a : Action Function} (ht : s.step a = some t) :
    Invariant t := by
  cases a with
  | addTask task urgent =>
    cases ht
    exact h.addTask task urgent
  | start => exact h.start ht
  | stop =>
    cases ht
    exact h.stop
  | join => exact h.join ht
  | waitUntilStopped => exact h.waitUntilStopped ht
  | thread now => exact h.threadStep ht
  | spurious =>
    rw [Dispatcher.step] at ht
    split at ht
    · next hthread =>
      cases ht
      exact h.takeTask (h.consistent.state_ne_stopped hthread) (by rw [hthread]; rfl)
    · cases ht

theorem reachable_invariant (h : (system Function).Reachable s) : Invariant s :=
  h.invariant Invariant (fun _ hs => hs ▸ invariant_initial) fun _ _ _ hs ht => hs.step ht

/-- **In every run the dispatcher is a queue.**  Each task that was accepted is handled once, is
about to be, or waits; with no urgent ones among them the tasks are handled in the order in which
they were accepted; and when the thread ends, every task accepted before has been handled. -/
theorem reachable_history [DecidableEq Function] (h : (system Function).Reachable s) :
    Legal s.log s._tasks (taken s.thread) ∧
      (∀ task, (acceptedIn s.log).count task = (handledIn s.log).count task +
        (taken s.thread).count task + s._tasks.count task) ∧
      ((∀ task, (Event.accepted true task) ∉ s.log) →
        acceptedIn s.log = handledIn s.log ++ taken s.thread ++ s._tasks) ∧
      ∀ before after, s.log = before ++ .closed :: after →
        ∀ task, (handledIn before).count task = (acceptedIn before).count task := by
  have hlegal := (reachable_invariant h).legal
  refine ⟨hlegal, hlegal.count_acceptedIn, hlegal.acceptedIn_eq, ?_⟩
  intro before after hlog
  rw [hlog] at hlegal
  exact hlegal.handled_before_closed

/-- Two tasks, of which the second one waits while the first one runs. -/
theorem reachable_history_two_tasks :
    ∃ s : Dispatcher ℕ, runActions step initial [.start, .addTask ⟨9, 1⟩ false, .thread 0,
        .addTask ⟨9, 2⟩ false, .thread 0, .thread 0] = some s ∧
      (acceptedIn s.log).count ⟨9, 2⟩ = (handledIn s.log).count ⟨9, 2⟩ +
        (taken s.thread).count ⟨9, 2⟩ + s._tasks.count ⟨9, 2⟩ := by
  refine ⟨_, rfl, ?_⟩
  have hrun : runActions step (initial : Dispatcher ℕ) [.start, .addTask ⟨9, 1⟩ false, .thread 0,
      .addTask ⟨9, 2⟩ false, .thread 0, .thread 0] = some _ := rfl
  exact (reachable_history (reachable_of_runActions (.init rfl) hrun)).2.1 _

/-! ## The end of the thread -/

/-- The dispatcher is not stopped with an empty queue while its thread is between the test of the
state and the lock. -/
def Allowed (s : Dispatcher Function) (a : Action Function) : Prop :=
  a = .stop → s._state = .STARTED → s.thread = .lock → s._tasks ≠ []

/-- A thread that goes to sleep has nothing to do. -/
def Awake (s : Dispatcher Function) : Prop :=
  (s.thread = .lock → s._state = .STOPPING → s._tasks ≠ []) ∧
    (s.thread = .waiting false → s._state = .STARTED)

theorem awake_of_ne (hlock : s.thread ≠ .lock) (hwaiting : s.thread ≠ .waiting false) : s.Awake :=
  ⟨fun h => absurd h hlock, fun h => absurd h hwaiting⟩

theorem awake_takeTask (s : Dispatcher Function) : s.takeTask.Awake := by
  rw [takeTask]
  split
  · exact awake_of_ne (fun h => by cases h) (fun h => by cases h)
  · exact awake_of_ne (fun h => by cases h) (fun h => by cases h)

theorem awake_runNext (s : Dispatcher Function) (now : ℤ) (frames : List (List (Task Function)))
    (afterLoop : Bool) : (s.runNext now frames afterLoop).Awake := by
  have hreturn : ({ s with thread := if afterLoop then .finish else .check } :
      Dispatcher Function).Awake := by
    cases afterLoop with
    | true => exact awake_of_ne (fun h => by cases h) (fun h => by cases h)
    | false => exact awake_of_ne (fun h => by cases h) (fun h => by cases h)
  match frames with
  | (task :: tasks) :: frames => exact awake_of_ne (fun h => by cases h) (fun h => by cases h)
  | [] :: frame :: frames => exact awake_of_ne (fun h => by cases h) (fun h => by cases h)
  | [[]] => exact hreturn
  | [] => exact hreturn

theorem awake_notify_one (h : s.thread = .lock → s._state = .STOPPING → s._tasks ≠ []) :
    s.notify_one.Awake := by
  cases hthread : s.thread with
  | waiting notified =>
    rw [notify_one, hthread]
    exact awake_of_ne (fun h => by cases h) (fun h => by cases h)
  | _ =>
    have hsame : s.notify_one = s := by rw [notify_one, hthread]
    rw [hsame]
    refine ⟨h, fun hwaiting => ?_⟩
    rw [hthread] at hwaiting
    cases hwaiting

theorem Awake.addTask (h : s.Awake) (hconsistent : s.Consistent) (task : Task Function)
    (urgent : Bool) : (s.addTask task urgent).Awake := by
  by_cases hstate : s._state = .STOPPING
  · rw [Dispatcher.addTask, hstate]
    exact h
  have hempty : s._tasks = [] →
      (if urgent then task :: s._tasks else s._tasks ++ [task]).length = 1 := by
    intro hnil
    rw [hnil]
    cases urgent <;> rfl
  rw [addTask_eq hstate]
  generalize (if urgent then task :: s._tasks else s._tasks ++ [task]) = tasks at hempty
  dsimp only
  split_ifs with hone
  · exact awake_notify_one fun _ hstopping => absurd hstopping hstate
  · refine ⟨fun _ hstopping => absurd hstopping hstate, fun hwaiting => ?_⟩
    have hsleeps : s.thread = .waiting false := hwaiting
    rw [Consistent, hsleeps] at hconsistent
    exact absurd (hempty (hconsistent.2 rfl)) hone

theorem Awake.stop (h : s.Awake) (hconsistent : s.Consistent) (hallowed : s.Allowed .stop) :
    s.stop.Awake := by
  cases hstate : s._state with
  | STARTED =>
    rw [Dispatcher.stop, hstate]
    dsimp only
    split_ifs with hempty
    · exact awake_notify_one fun hlock _ => hallowed rfl hstate hlock
    · refine ⟨fun hlock _ => hallowed rfl hstate hlock, fun hwaiting => ?_⟩
      have hsleeps : s.thread = .waiting false := hwaiting
      rw [Consistent, hsleeps] at hconsistent
      exact absurd (hconsistent.2 rfl) hempty
  | _ =>
    rw [Dispatcher.stop, hstate]
    exact h

theorem Awake.threadStep (h : s.Awake) (hconsistent : s.Consistent) {now : ℤ}
    (ht : s.threadStep now = some t) : t.Awake := by
  rw [Dispatcher.threadStep] at ht
  split at ht
  · cases ht
  · next hthread =>
    cases ht
    by_cases hstarted : s._state = .STARTED
    · rw [if_pos hstarted]
      refine ⟨fun _ hstopping => ?_, fun hwaiting => by cases hwaiting⟩
      rw [hstarted] at hstopping
      cases hstopping
    · rw [if_neg hstarted]
      exact awake_of_ne (fun h => by cases h) (fun h => by cases h)
  · next hthread =>
    cases ht
    split_ifs with hempty
    · refine ⟨fun hlock => (by cases hlock), fun _ => ?_⟩
      rw [Consistent, hthread] at hconsistent
      cases hstate : s._state with
      | STARTED => rfl
      | STOPPED => exact absurd hstate hconsistent
      | STOPPING => exact absurd hempty (h.1 hthread hstate)
    · exact awake_takeTask s
  · cases ht
    exact awake_takeTask s
  · cases ht
  · cases ht
    exact awake_of_ne (fun h => by cases h) (fun h => by cases h)
  · next frames afterLoop _ =>
    cases ht
    exact awake_runNext s now frames afterLoop
  · cases ht
    exact awake_of_ne (fun h => by cases h) (fun h => by cases h)
  · cases ht
    exact awake_of_ne (fun h => by cases h) (fun h => by cases h)

theorem Awake.step (h : s.Awake) (hinvariant : Invariant s) {a : Action Function}
    (hallowed : s.Allowed a) (ht : s.step a = some t) : t.Awake := by
  cases a with
  | addTask task urgent =>
    cases ht
    exact h.addTask hinvariant.consistent task urgent
  | start =>
    rw [Dispatcher.step, Dispatcher.start] at ht
    split at ht
    · split_ifs at ht
      cases ht
      exact awake_of_ne (fun h => by cases h) (fun h => by cases h)
    · cases ht
      exact h
  | stop =>
    cases ht
    exact h.stop hinvariant.consistent hallowed
  | join =>
    rw [Dispatcher.step, Dispatcher.join] at ht
    split at ht
    · next hthread =>
      split_ifs at ht
      · cases ht
        exact awake_of_ne (fun h => by rw [hthread] at h; cases h)
          (fun h => by rw [hthread] at h; cases h)
      · cases ht
        exact h
    · cases ht
  | waitUntilStopped =>
    rw [Dispatcher.step, Dispatcher.waitUntilStopped] at ht
    split at ht
    · split_ifs at ht
      · cases ht
        exact h
      · cases ht
        exact awake_of_ne (fun h => by cases h) (fun h => by cases h)
    · cases ht
  | thread now => exact h.threadStep hinvariant.consistent ht
  | spurious =>
    rw [Dispatcher.step] at ht
    split at ht
    · cases ht
      exact awake_takeTask s
    · cases ht

theorem reachable_awake (h : ((system Function).restrict Allowed).Reachable s) :
    Invariant s ∧ s.Awake := by
  apply h.invariant fun s => Invariant s ∧ s.Awake
  · rintro s rfl
    exact ⟨invariant_initial, awake_of_ne (fun h => by cases h) (fun h => by cases h)⟩
  · rintro s a t ⟨hinvariant, hawake⟩ ⟨hallowed, ht⟩
    exact ⟨hinvariant.step ht, hawake.step hinvariant hallowed ht⟩

/-- What the thread has still to do before it ends, once a stop was asked for. -/
def remaining (s : Dispatcher Function) : ℕ :=
  match s.thread with
  | .ended => 0
  | .finish => 1
  | .collect => 2 * s._tasks.length + 4
  | .check => 2 * s._tasks.length + 5
  | .lock | .waiting _ => 2 * s._tasks.length + 6
  | .running executing frames afterLoop =>
    2 * frames.flatten.length + 2 * frames.length + (if executing then 1 else 0) +
      if afterLoop then 0 else 2 * s._tasks.length + 5

theorem remaining_runNext {now : ℤ} {frames : List (List (Task Function))} {afterLoop : Bool}
    (hframes : frames ≠ [])
    (hthread : s.thread = .running false frames afterLoop) :
    (s.runNext now frames afterLoop).remaining < s.remaining := by
  match frames with
  | (task :: tasks) :: frames =>
    simp only [remaining, hthread, runNext, List.flatten_cons, List.cons_append, List.length_cons]
    split_ifs <;> omega
  | [] :: frame :: frames =>
    simp only [remaining, hthread, runNext, List.flatten_cons, List.nil_append, List.length_cons]
    split_ifs <;> omega
  | [[]] =>
    cases afterLoop with
    | true =>
      simp only [remaining, hthread, runNext, if_true, List.length_cons, List.length_nil]
      omega
    | false =>
      simp only [remaining, hthread, runNext, List.flatten_cons, List.nil_append,
        List.length_cons, List.flatten_nil, List.length_nil, Bool.false_eq_true, if_false]
      omega
  | [] => exact absurd rfl hframes

theorem remaining_takeTask (hstate : s._state = .STOPPING) :
    s.takeTask.remaining = 2 * s._tasks.length + 5 := by
  rw [takeTask, hstate]
  rfl

theorem remaining_threadStep (hinvariant : Invariant s) (hawake : s.Awake)
    (hstate : s._state = .STOPPING) {now : ℤ} (ht : s.threadStep now = some t) :
    t.remaining < s.remaining := by
  have hconsistent := hinvariant.consistent
  rw [threadStep] at ht
  split at ht
  · cases ht
  · next hthread =>
    cases ht
    simp only [remaining, hthread, hstate, reduceCtorEq, if_false]
    omega
  · next hthread =>
    cases ht
    rw [if_neg (hawake.1 hthread hstate), remaining_takeTask hstate]
    simp only [remaining, hthread]
    omega
  · next hthread =>
    cases ht
    rw [remaining_takeTask hstate]
    simp only [remaining, hthread]
    omega
  · cases ht
  · next frames afterLoop hthread =>
    cases ht
    simp only [remaining, hthread, if_true, Bool.false_eq_true, if_false]
    omega
  · next frames afterLoop hthread =>
    cases ht
    simp only [Consistent, hthread] at hconsistent
    exact remaining_runNext hconsistent.2.1 hthread
  · next hthread =>
    cases ht
    simp only [remaining, hthread, List.flatten_cons, List.flatten_nil, List.append_nil,
      List.length_cons, List.length_nil, if_true, Bool.false_eq_true, if_false]
    omega
  · next hthread =>
    cases ht
    simp only [remaining, hthread]
    decide

/-- **A stop that is asked for ends the thread.**  In a run in which no stop comes between the
test of the state and the lock while the queue is empty, a thread that sleeps has nothing to do;
once a stop is asked for the thread can always go on, each of its steps brings it nearer to its
end unless a task waits for the dispatcher itself, and no step of another thread changes anything. -/
theorem stopping_ends (h : ((system Function).restrict Allowed).Reachable s) :
    (s.thread = .waiting false → s._state = .STARTED ∧ s._tasks = []) ∧
      (s._state = .STOPPING →
        (∀ now, ∃ t, s.step (.thread now) = some t) ∧
        ∀ a t, s.step a = some t → t = s ∨ a = .waitUntilStopped ∨ t.remaining < s.remaining) := by
  obtain ⟨hinvariant, hawake⟩ := reachable_awake h
  have hconsistent := hinvariant.consistent
  refine ⟨fun hthread => ⟨hawake.2 hthread, ?_⟩, fun hstate => ⟨fun now => ?_, fun a t ht => ?_⟩⟩
  · rw [Consistent, hthread] at hconsistent
    exact hconsistent.2 rfl
  · cases hthread : s.thread with
    | ended =>
      rw [Consistent, hthread, hstate] at hconsistent
      cases hconsistent
    | waiting notified =>
      cases notified with
      | true => exact ⟨_, by rw [Dispatcher.step, threadStep, hthread]⟩
      | false =>
        have hstarted := hawake.2 hthread
        rw [hstate] at hstarted
        cases hstarted
    | running executing frames afterLoop =>
      cases executing with
      | true => exact ⟨_, by rw [Dispatcher.step, threadStep, hthread]⟩
      | false => exact ⟨_, by rw [Dispatcher.step, threadStep, hthread]⟩
    | _ => exact ⟨_, by rw [Dispatcher.step, threadStep, hthread]⟩
  · cases a with
    | addTask task urgent =>
      rw [Dispatcher.step, addTask, hstate] at ht
      cases ht
      exact .inl rfl
    | start =>
      rw [Dispatcher.step, start, hstate] at ht
      cases ht
      exact .inl rfl
    | stop =>
      rw [Dispatcher.step, stop, hstate] at ht
      cases ht
      exact .inl rfl
    | join =>
      rw [Dispatcher.step, join] at ht
      split at ht
      · next hthread =>
        rw [Consistent, hthread, hstate] at hconsistent
        cases hconsistent
      · cases ht
    | waitUntilStopped => exact .inr (.inl rfl)
    | thread now => exact .inr (.inr (remaining_threadStep hinvariant hawake hstate ht))
    | spurious =>
      rw [Dispatcher.step] at ht
      split at ht
      · next hthread =>
        have hstarted := hawake.2 hthread
        rw [hstate] at hstarted
        cases hstarted
      · cases ht

/-- A dispatcher that is stopped with a task in its queue. -/
theorem stopping_ends_task : ∃ s : Dispatcher ℕ,
    runActions step initial [.start, .addTask ⟨9, 1⟩ false, .stop] = some s ∧
      (s._state = .STOPPING → (∀ now, ∃ t, s.step (.thread now) = some t) ∧
        ∀ a t, s.step a = some t → t = s ∨ a = .waitUntilStopped ∨ t.remaining < s.remaining) := by
  have hstart : ((system ℕ).restrict Allowed).Reachable
      ((initial.start : Option (Dispatcher ℕ)).getD initial) :=
    reachable_restrict_step (.init rfl) .start (fun h => by cases h) rfl
  have hadd := reachable_restrict_step hstart (.addTask ⟨9, 1⟩ false) (fun h => by cases h) rfl
  have hstop := reachable_restrict_step hadd .stop (fun _ _ h => by cases h) rfl
  exact ⟨_, rfl, (stopping_ends hstop).2⟩

/-! ## The stop that nobody hears -/

/-- The stop was asked for, and the thread will sleep or sleeps. -/
def Stuck (s : Dispatcher Function) : Prop :=
  s._state = .STOPPING ∧ s._tasks = [] ∧ (s.thread = .lock ∨ s.thread = .waiting false)

theorem Stuck.step (h : s.Stuck) {a : Action Function} (ha : a ≠ .spurious)
    (ht : s.step a = some t) : t.Stuck ∧ t.log = s.log := by
  obtain ⟨hstate, htasks, hthread⟩ := h
  cases a with
  | addTask task urgent =>
    rw [Dispatcher.step, addTask, hstate] at ht
    cases ht
    exact ⟨⟨hstate, htasks, hthread⟩, rfl⟩
  | start =>
    rw [Dispatcher.step, start, hstate] at ht
    cases ht
    exact ⟨⟨hstate, htasks, hthread⟩, rfl⟩
  | stop =>
    rw [Dispatcher.step, stop, hstate] at ht
    cases ht
    exact ⟨⟨hstate, htasks, hthread⟩, rfl⟩
  | join =>
    rcases hthread with hthread | hthread
    · rw [Dispatcher.step, join, hthread] at ht
      cases ht
    · rw [Dispatcher.step, join, hthread] at ht
      cases ht
  | waitUntilStopped =>
    rcases hthread with hthread | hthread
    · rw [Dispatcher.step, waitUntilStopped, hthread] at ht
      cases ht
    · rw [Dispatcher.step, waitUntilStopped, hthread] at ht
      cases ht
  | thread now =>
    rcases hthread with hthread | hthread
    · rw [Dispatcher.step, threadStep, hthread] at ht
      dsimp only at ht
      rw [if_pos htasks] at ht
      cases ht
      exact ⟨⟨hstate, htasks, .inr rfl⟩, rfl⟩
    · rw [Dispatcher.step, threadStep, hthread] at ht
      cases ht
  | spurious => exact absurd rfl ha

/-- **A stop between the test of the state and the lock is not heard** when the queue is empty: the
notification finds no one, the thread goes to sleep, and the dispatcher never stops, unless the
thread wakes up on its own. -/
theorem stop_unheard (hstate : s._state = .STARTED) (hthread : s.thread = .lock)
    (htasks : s._tasks = []) (as : List (Action Function)) (has : .spurious ∉ as)
    (ht : runActions step s (.stop :: as) = some t) : t._state = .STOPPING ∧ t.log = s.log := by
  have hstuck : s.stop.Stuck ∧ s.stop.log = s.log := by
    rw [stop, hstate]
    dsimp only
    rw [if_pos htasks, notify_one, hthread]
    exact ⟨⟨rfl, htasks, .inl rfl⟩, rfl⟩
  have hrun : ∀ (as : List (Action Function)) (s t : Dispatcher Function), .spurious ∉ as →
      s.Stuck → runActions step s as = some t → t.Stuck ∧ t.log = s.log := by
    intro as
    induction as with
    | nil =>
      intro s t _ hs ht
      cases ht
      exact ⟨hs, rfl⟩
    | cons a as ih =>
      intro s t has hs ht
      obtain ⟨u, hu, hrest⟩ := Option.bind_eq_some_iff.mp ht
      obtain ⟨hu', hlog⟩ := hs.step (fun h => has (h ▸ List.mem_cons_self)) hu
      obtain ⟨ht', hlog'⟩ := ih u t (fun h => has (List.mem_cons_of_mem a h)) hu' hrest
      exact ⟨ht', hlog'.trans hlog⟩
  obtain ⟨hend, hlog⟩ := hrun as s.stop t has hstuck.1 ht
  exact ⟨hend.1, hlog.trans hstuck.2⟩

/-- A dispatcher that is started, and stopped before its thread has come to the lock. -/
theorem stop_unheard_started :
    ∃ s t : Dispatcher ℕ, runActions step initial [.start, .thread 0] = some s ∧
      runActions step s [.stop, .thread 0, .addTask ⟨9, 1⟩ false, .stop] = some t ∧
        t._state = .STOPPING ∧ t.log = s.log :=
  ⟨_, _, rfl, rfl, stop_unheard rfl rfl rfl [.thread 0, .addTask ⟨9, 1⟩ false, .stop]
    (by simp) rfl⟩

end Dispatcher

end TyanoCore.DispatcherThread
