import TyanoCore.Run
import TyanoCore.Scheduler

/-!
# The think tasks of a creature

A creature that thinks keeps one task on the way: in the queue of the dispatcher for the first time,
at the scheduler from then on.  Only the second one has an identifier by which it can be cancelled.
A creature that stops and starts while a task of its own is already with the dispatcher gets a
second chain of tasks.
-/

namespace TyanoCore

open Transition

/-- A task of the dispatcher: `Creature::think` of the creature, or something else. -/
inductive DispatcherTask where
  | think
  | other
deriving DecidableEq

/-- What the dispatcher's thread is in the middle of. -/
inductive RunningTask where
  | onThink (elapsedTime : ℤ)
  | other
deriving DecidableEq

/-- A creature, the queue of the dispatcher, the scheduler and the clock, in nanoseconds. -/
structure Thinker where
  dispatcher : List DispatcherTask
  scheduler : Scheduler Unit
  now : ℤ
  previousThinkTime : ℤ
  thinkDuration : ℤ
  thinkTaskId : ℕ
  running : Option RunningTask
  /-- The task objects made so far. -/
  taskCount : ℕ

namespace Thinker

def THINK_DURATION : ℤ := 1000000000

def THINK_INTERVAL : ℤ := 100000000

def initial (now : ℤ) : Thinker where
  dispatcher := []
  scheduler := .initial
  now := now
  previousThinkTime := now
  thinkDuration := 0
  thinkTaskId := 0
  running := none
  taskCount := 0

variable (s : Thinker)

def isThinking : Prop := s.thinkDuration > 0

instance : Decidable s.isThinking := inferInstanceAs (Decidable (_ > _))

def startThinking (forced alive hasSomethingToThinkAbout : Bool) : Thinker × Bool :=
  if s.isThinking then (s, true)
  else if alive = false then (s, false)
  else if forced = false ∧ hasSomethingToThinkAbout = false then (s, false)
  else
    ({ s with
      previousThinkTime := s.now
      thinkDuration := THINK_DURATION
      dispatcher := s.dispatcher ++ [.think] }, true)

def stopThinking : Thinker :=
  if ¬ s.isThinking then s
  else if s.thinkTaskId ≠ 0 then
    { s with
      scheduler := (s.scheduler.cancelTask s.thinkTaskId).1
      thinkTaskId := 0
      thinkDuration := 0 }
  else { s with thinkDuration := 0 }

/-- `Creature::think` up to the call of `onThink`, which can start and stop the thinking. -/
def think (alive : Bool) : Thinker :=
  if ¬ s.isThinking then s
  else
    let elapsedTime := s.now - s.previousThinkTime
    let s := { s with previousThinkTime := s.now, thinkTaskId := 0 }
    if alive = false then s.stopThinking
    else { s with running := some (.onThink elapsedTime) }

/-- The next task of the chain. -/
def addThinkTask : Thinker :=
  if s.thinkTaskId = 0 then
    { s with
      scheduler := s.scheduler.addTask ⟨s.taskCount, 0, s.now + THINK_INTERVAL, ()⟩
      thinkTaskId := s.scheduler.nextTaskId
      taskCount := s.taskCount + 1 }
  else s

/-- `Creature::think` from the return of `onThink` on. -/
def thinkAgain (elapsedTime : ℤ) (alive hasSomethingToThinkAbout : Bool) : Thinker :=
  if alive = false then s.stopThinking
  else if s.thinkDuration > elapsedTime then
    addThinkTask { s with thinkDuration := s.thinkDuration - elapsedTime }
  else if hasSomethingToThinkAbout then addThinkTask { s with thinkDuration := THINK_DURATION }
  else s.stopThinking

/-- The dispatcher's thread takes the next task; no task of these ever expires. -/
def runTask (alive : Bool) : Option Thinker :=
  match s.running, s.dispatcher with
  | none, .think :: tasks => some (think { s with dispatcher := tasks } alive)
  | none, .other :: tasks => some { s with dispatcher := tasks, running := some .other }
  | _, _ => none

/-- The task that is running ends. -/
def endTask (alive hasSomethingToThinkAbout : Bool) : Option Thinker :=
  match s.running with
  | none => none
  | some .other => some { s with running := none }
  | some (.onThink elapsedTime) =>
    some (thinkAgain { s with running := none } elapsedTime alive hasSomethingToThinkAbout)

/-- A round of the scheduler's thread; a task that is handed over goes to the dispatcher. -/
def handOver (task : SchedulerTask Unit) : Thinker :=
  { s with
    scheduler := (s.scheduler.thread task s.now).1
    dispatcher :=
      s.dispatcher ++ (s.scheduler.thread task s.now).2.toList.map fun _ => .think }

inductive Action where
  | startThinking (forced alive hasSomethingToThinkAbout : Bool)
  | stopThinking
  | addOther (urgent : Bool)
  | runTask (alive : Bool)
  | endTask (alive hasSomethingToThinkAbout : Bool)
  | handOver (task : SchedulerTask Unit)
  | tick (now : ℤ)

def step : Action → Option Thinker
  | .startThinking forced alive hasSomethingToThinkAbout =>
    some (s.startThinking forced alive hasSomethingToThinkAbout).1
  | .stopThinking => some s.stopThinking
  | .addOther urgent =>
    some { s with dispatcher := if urgent then .other :: s.dispatcher else s.dispatcher ++ [.other] }
  | .runTask alive => s.runTask alive
  | .endTask alive hasSomethingToThinkAbout => s.endTask alive hasSomethingToThinkAbout
  | .handOver task => some (s.handOver task)
  | .tick now => if s.now ≤ now then some { s with now := now } else none

/-- The think tasks that will run if the creature goes on thinking. -/
def outstanding : ℕ := s.dispatcher.count .think + s.scheduler.awaited

/-- A new chain begins. -/
def starts (forced alive hasSomethingToThinkAbout : Bool) : Bool :=
  ¬ s.isThinking ∧ alive ∧ (forced ∨ hasSomethingToThinkAbout)

/-- The think task that is running is followed by another one. -/
def continues (alive hasSomethingToThinkAbout : Bool) : Bool :=
  match s.running with
  | some (.onThink elapsedTime) =>
    alive ∧ (s.thinkDuration > elapsedTime ∨ hasSomethingToThinkAbout)
  | _ => false

/-- A chain begins or goes on with no think task in the queue of the dispatcher. -/
def Allowed : Action → Prop
  | .startThinking forced alive hasSomethingToThinkAbout =>
    s.starts forced alive hasSomethingToThinkAbout = true → .think ∉ s.dispatcher
  | .endTask alive hasSomethingToThinkAbout =>
    s.continues alive hasSomethingToThinkAbout = true → .think ∉ s.dispatcher
  | _ => True

instance (a : Action) : Decidable (s.Allowed a) :=
  match a with
  | .startThinking _ _ _ => inferInstanceAs (Decidable (_ → _))
  | .endTask _ _ => inferInstanceAs (Decidable (_ → _))
  | .stopThinking => inferInstanceAs (Decidable True)
  | .addOther _ => inferInstanceAs (Decidable True)
  | .runTask _ => inferInstanceAs (Decidable True)
  | .handOver _ => inferInstanceAs (Decidable True)
  | .tick _ => inferInstanceAs (Decidable True)

/-! ## What each function does to the chain -/

variable {s} {t : Thinker}

@[simp] theorem isThinking_iff : s.isThinking ↔ 0 < s.thinkDuration := Iff.rfl

theorem startThinking_eq (forced alive something : Bool) :
    (s.startThinking forced alive something).1 =
      if s.starts forced alive something then
        { s with
          previousThinkTime := s.now
          thinkDuration := THINK_DURATION
          dispatcher := s.dispatcher ++ [.think] }
      else s := by
  unfold startThinking starts
  split_ifs <;> simp_all

/-- The chain of a creature: at most one task is on its way, and exactly one unless the creature
does not think or is in the middle of it.  A task at the scheduler is the one that the creature
remembers. -/
structure OneChain (s : Thinker) : Prop where
  backed : s.scheduler.Backed
  count_le : s.dispatcher.count .think + s.scheduler.pendingTaskIds.length ≤ 1
  thinking : s.isThinking → (∀ e, s.running ≠ some (.onThink e)) →
    s.dispatcher.count .think + s.scheduler.pendingTaskIds.length = 1
  pending : ∀ id ∈ s.scheduler.pendingTaskIds, s.isThinking ∧ id = s.thinkTaskId ∧ id ≠ 0
  running : ∀ e, s.running = some (.onThink e) →
    s.scheduler.pendingTaskIds = [] ∧ s.thinkTaskId = 0

theorem OneChain.outstanding_eq (h : OneChain s) :
    s.outstanding = s.dispatcher.count .think + s.scheduler.pendingTaskIds.length := by
  rw [outstanding, h.backed.awaited_eq]

theorem oneChain_initial (now : ℤ) : OneChain (initial now) := by
  constructor
  · exact Scheduler.initial_backed
  · exact Nat.zero_le 1
  · intro hthinking
    exact absurd hthinking (Int.lt_irrefl 0)
  · intro id hid
    cases hid
  · intro e he
    cases he

/-- A creature that does not think has nothing at the scheduler. -/
theorem OneChain.pending_nil (h : OneChain s) (hnot : ¬ s.isThinking) :
    s.scheduler.pendingTaskIds = [] := by
  apply List.eq_nil_iff_forall_not_mem.mpr
  intro id hid
  exact hnot (h.pending id hid).1

theorem OneChain.startThinking (h : OneChain s) {forced alive something : Bool}
    (hallowed : s.Allowed (.startThinking forced alive something)) :
    OneChain (s.startThinking forced alive something).1 := by
  rw [startThinking_eq]
  split
  · next hstarts =>
    have hnot : ¬ s.isThinking := (of_decide_eq_true hstarts).1
    have hcount : s.dispatcher.count .think = 0 := List.count_eq_zero.mpr (hallowed hstarts)
    have hnil := h.pending_nil hnot
    constructor
    · exact h.backed
    · simp [hcount, hnil]
    · intro _ _
      simp [hcount, hnil]
    · intro id hid
      rw [hnil] at hid
      cases hid
    · exact h.running
  · exact h

theorem OneChain.pending_cases (h : OneChain s) :
    s.scheduler.pendingTaskIds = [] ∨
      (s.scheduler.pendingTaskIds = [s.thinkTaskId] ∧ s.thinkTaskId ≠ 0) := by
  have hlength : s.scheduler.pendingTaskIds.length ≤ 1 :=
    Nat.le_trans (Nat.le_add_left _ _) h.count_le
  cases hpending : s.scheduler.pendingTaskIds with
  | nil => exact .inl rfl
  | cons id ids =>
    rw [hpending, List.length_cons] at hlength
    have hids : ids = [] := List.length_eq_zero_iff.mp (by omega)
    obtain ⟨-, hid, hne⟩ := h.pending id (by rw [hpending]; exact List.mem_cons_self)
    exact .inr ⟨by rw [hids, hid], hid ▸ hne⟩

/-- Nothing at the scheduler and no task running: what is left of a chain is in the queue. -/
theorem OneChain.of_nil (hbacked : t.scheduler.Backed)
    (hnil : t.scheduler.pendingTaskIds = []) (hcount : t.dispatcher.count .think ≤ 1)
    (hthinking : t.isThinking → (∀ e, t.running ≠ some (.onThink e)) →
      t.dispatcher.count .think = 1)
    (hrunning : ∀ e, t.running = some (.onThink e) → t.thinkTaskId = 0) : OneChain t where
  backed := hbacked
  count_le := by rw [hnil, List.length_nil, Nat.add_zero]; exact hcount
  thinking := by rw [hnil, List.length_nil, Nat.add_zero]; exact hthinking
  pending id hid := by
    rw [hnil] at hid
    cases hid
  running e he := ⟨hnil, hrunning e he⟩

/-- To stop takes the task at the scheduler off, if there is one. -/
theorem oneChain_stopThinking (hbacked : s.scheduler.Backed)
    (hcount : s.dispatcher.count .think ≤ 1)
    (hpending : s.scheduler.pendingTaskIds = [] ∨
      (s.scheduler.pendingTaskIds = [s.thinkTaskId] ∧ s.thinkTaskId ≠ 0 ∧ s.isThinking))
    (hrunning : ∀ e, s.running = some (.onThink e) → s.thinkTaskId = 0) :
    OneChain s.stopThinking := by
  unfold stopThinking
  split
  · next hnot =>
    apply OneChain.of_nil
    · exact hbacked
    · exact hpending.resolve_right fun hand => hnot hand.2.2
    · exact hcount
    · exact fun hthinking => absurd hthinking hnot
    · exact hrunning
  · split
    · next hid =>
      -- the task at the scheduler is the one that the creature remembers
      have hnil : (s.scheduler.cancelTask s.thinkTaskId).1.pendingTaskIds = [] := by
        rw [Scheduler.cancelTask, if_neg hid]
        obtain hnil | ⟨hone, -⟩ := hpending
        · simp [hnil]
        · simp [hone]
      apply OneChain.of_nil
      · exact hbacked.cancelTask _
      · exact hnil
      · exact hcount
      · exact fun hthinking => absurd hthinking (Int.lt_irrefl 0)
      · exact fun e he => rfl
    · next hid =>
      apply OneChain.of_nil
      · exact hbacked
      · exact hpending.resolve_right fun hand => hid hand.2.1
      · exact hcount
      · exact fun hthinking => absurd hthinking (Int.lt_irrefl 0)
      · exact hrunning

theorem OneChain.stopThinking (h : OneChain s) : OneChain s.stopThinking := by
  apply oneChain_stopThinking h.backed
  · exact Nat.le_trans (Nat.le_add_right _ _) h.count_le
  · obtain hnil | ⟨hone, hne⟩ := h.pending_cases
    · exact .inl hnil
    · have hmem : s.thinkTaskId ∈ s.scheduler.pendingTaskIds := by
        rw [hone]
        exact List.mem_cons_self
      exact .inr ⟨hone, hne, (h.pending _ hmem).1⟩
  · exact fun e he => (h.running e he).2

@[simp] theorem stopThinking_dispatcher : s.stopThinking.dispatcher = s.dispatcher := by
  unfold Thinker.stopThinking
  split_ifs <;> rfl

/-- The task at the front of the queue is taken: it was the only one of the chain. -/
theorem OneChain.think {tasks : List DispatcherTask} (h : OneChain s)
    (htasks : s.dispatcher = .think :: tasks) (hnone : s.running = none) (alive : Bool) :
    OneChain (Thinker.think { s with dispatcher := tasks } alive) := by
  have hcount := h.count_le
  rw [htasks, List.count_cons_self] at hcount
  have hzero : tasks.count .think = 0 := by omega
  have hle : tasks.count .think ≤ 1 := by omega
  have hnil : s.scheduler.pendingTaskIds = [] := List.length_eq_zero_iff.mp (by omega)
  unfold Thinker.think
  split
  · next hnot =>
    -- the chain of a creature that has stopped ends
    apply OneChain.of_nil
    · exact h.backed
    · exact hnil
    · exact hle
    · exact fun hthinking => absurd hthinking hnot
    · intro e he
      rw [hnone] at he
      cases he
  · dsimp only
    split
    · apply oneChain_stopThinking
      · exact h.backed
      · exact hle
      · exact .inl hnil
      · exact fun e he => rfl
    · apply OneChain.of_nil
      · exact h.backed
      · exact hnil
      · exact hle
      · exact fun _ hnot => absurd rfl (hnot _)
      · exact fun e he => rfl

/-- The next task of a chain is the only one. -/
theorem oneChain_addThinkTask (hbacked : s.scheduler.Backed)
    (hnil : s.scheduler.pendingTaskIds = []) (hid : s.thinkTaskId = 0) (hnone : s.running = none)
    (hthinking : s.isThinking) (hcount : s.dispatcher.count .think = 0) :
    OneChain s.addThinkTask := by
  have hadded : (s.scheduler.addTask
      ⟨s.taskCount, 0, s.now + THINK_INTERVAL, ()⟩).pendingTaskIds = [s.scheduler.nextTaskId] := by
    simp [Scheduler.addTask, hnil]
  rw [addThinkTask, if_pos hid]
  constructor
  · exact hbacked.addTask rfl
  · simp [hadded, hcount]
  · intro _ _
    simp [hadded, hcount]
  · intro id hmem
    rw [hadded, List.mem_singleton] at hmem
    rw [hmem]
    exact ⟨hthinking, rfl, s.scheduler.nextTaskId_ne_zero⟩
  · intro e he
    rw [hnone] at he
    cases he

theorem outstanding_addThinkTask (hbacked : s.scheduler.Backed)
    (hnil : s.scheduler.pendingTaskIds = []) (hid : s.thinkTaskId = 0) :
    s.addThinkTask.outstanding = s.dispatcher.count .think + 1 := by
  have hadded : (s.scheduler.addTask
      ⟨s.taskCount, 0, s.now + THINK_INTERVAL, ()⟩).pendingTaskIds = [s.scheduler.nextTaskId] := by
    simp [Scheduler.addTask, hnil]
  rw [addThinkTask, if_pos hid, outstanding, (hbacked.addTask rfl).awaited_eq, hadded]
  rfl

/-! ## Steps -/

/-- What a chain consists of has not changed. -/
theorem OneChain.congr (h : OneChain s) (hbacked : t.scheduler.Backed)
    (hcount : t.dispatcher.count .think = s.dispatcher.count .think)
    (hpending : t.scheduler.pendingTaskIds = s.scheduler.pendingTaskIds)
    (hduration : t.thinkDuration = s.thinkDuration) (hid : t.thinkTaskId = s.thinkTaskId)
    (hrunning : ∀ e, t.running = some (.onThink e) ↔ s.running = some (.onThink e)) :
    OneChain t := by
  have hthinking : t.isThinking ↔ s.isThinking := by
    simp only [isThinking, hduration]
  constructor
  · exact hbacked
  · rw [hcount, hpending]
    exact h.count_le
  · intro ht hnot
    rw [hcount, hpending]
    exact h.thinking (hthinking.mp ht) fun e => mt (hrunning e).mpr (hnot e)
  · intro id hmem
    rw [hpending] at hmem
    rw [hthinking, hid]
    exact h.pending id hmem
  · intro e he
    rw [hpending, hid]
    exact h.running e ((hrunning e).mp he)

theorem OneChain.runTask (h : OneChain s) {alive : Bool} (hstep : s.runTask alive = some t) :
    OneChain t := by
  unfold Thinker.runTask at hstep
  split at hstep
  · next hnone htasks =>
    obtain rfl := Option.some.inj hstep
    exact h.think htasks hnone alive
  · next hnone htasks =>
    obtain rfl := Option.some.inj hstep
    apply h.congr
    · exact h.backed
    · rw [htasks]
      rfl
    · rfl
    · rfl
    · rfl
    · intro e
      simp [hnone]
  · cases hstep

/-- A think task that ends is followed by the next one of its chain, or its creature stops. -/
theorem OneChain.thinkAgain (h : OneChain s) {elapsedTime : ℤ}
    (hrunning : s.running = some (.onThink elapsedTime)) {alive something : Bool}
    (hallowed : s.Allowed (.endTask alive something)) :
    OneChain (Thinker.thinkAgain { s with running := none } elapsedTime alive something) := by
  obtain ⟨hnil, hid⟩ := h.running elapsedTime hrunning
  have hstop : OneChain (Thinker.stopThinking { s with running := none }) := by
    apply oneChain_stopThinking
    · exact h.backed
    · exact Nat.le_trans (Nat.le_add_right _ _) h.count_le
    · exact .inl hnil
    · intro e he
      cases he
  have hcount (hcontinues : s.continues alive something = true) :
      s.dispatcher.count .think = 0 := List.count_eq_zero.mpr (hallowed hcontinues)
  unfold Thinker.thinkAgain
  split
  · exact hstop
  · next halive =>
    rw [Bool.not_eq_false] at halive
    split
    · next hlonger =>
      apply oneChain_addThinkTask
      · exact h.backed
      · exact hnil
      · exact hid
      · rfl
      · exact Int.sub_pos_of_lt hlonger
      · exact hcount (by simp [continues, hrunning, halive, hlonger])
    · split
      · next hsomething =>
        apply oneChain_addThinkTask
        · exact h.backed
        · exact hnil
        · exact hid
        · rfl
        · exact (by decide : 0 < THINK_DURATION)
        · exact hcount (by simp [continues, hrunning, halive, hsomething])
      · exact hstop

theorem OneChain.endTask (h : OneChain s) {alive something : Bool}
    (hallowed : s.Allowed (.endTask alive something)) (hstep : s.endTask alive something = some t) :
    OneChain t := by
  unfold Thinker.endTask at hstep
  split at hstep
  · cases hstep
  · next hother =>
    obtain rfl := Option.some.inj hstep
    apply h.congr
    · exact h.backed
    · rfl
    · rfl
    · rfl
    · rfl
    · intro e
      simp [hother]
  · next elapsedTime hrunning =>
    obtain rfl := Option.some.inj hstep
    exact h.thinkAgain hrunning hallowed

/-- The task at the scheduler goes to the dispatcher. -/
theorem OneChain.handOver (h : OneChain s) (task : SchedulerTask Unit) :
    OneChain (s.handOver task) := by
  have hbacked := h.backed.thread task s.now
  unfold Thinker.handOver
  obtain heq | ⟨-, -, ⟨hp, heq⟩ | ⟨-, heq⟩⟩ := s.scheduler.thread_cases task s.now
  · rw [heq]
    exact h.congr h.backed (by simp) rfl rfl rfl fun e => Iff.rfl
  · rw [heq] at hbacked ⊢
    obtain hnil | ⟨hone, hne⟩ := h.pending_cases
    · rw [hnil] at hp
      cases hp
    · have hcount := h.count_le
      rw [hone, List.length_singleton] at hcount
      rw [hone, List.mem_singleton] at hp
      have hzero : s.dispatcher.count .think = 0 := by omega
      apply OneChain.of_nil
      · exact hbacked
      · simp [hone, hp]
      · simp [hzero]
      · simp [hzero]
      · intro e he
        exact (h.running e he).2
  · rw [heq] at hbacked ⊢
    exact h.congr hbacked (by simp) rfl rfl rfl fun e => Iff.rfl

theorem OneChain.step (h : OneChain s) {a : Action} (hallowed : s.Allowed a)
    (hstep : s.step a = some t) : OneChain t := by
  cases a with
  | startThinking forced alive something =>
    obtain rfl := Option.some.inj hstep
    exact h.startThinking hallowed
  | stopThinking =>
    obtain rfl := Option.some.inj hstep
    exact h.stopThinking
  | addOther urgent =>
    obtain rfl := Option.some.inj hstep
    apply h.congr
    · exact h.backed
    · cases urgent <;> simp
    · rfl
    · rfl
    · rfl
    · exact fun e => Iff.rfl
  | runTask alive => exact h.runTask hstep
  | endTask alive something => exact h.endTask hallowed hstep
  | handOver task =>
    obtain rfl := Option.some.inj hstep
    exact h.handOver task
  | tick now =>
    obtain ⟨-, hstep⟩ := Option.ite_none_right_eq_some.mp hstep
    obtain rfl := Option.some.inj hstep
    exact h.congr h.backed rfl rfl rfl rfl fun e => Iff.rfl

/-- A step leaves at most one task on the way exactly where it is allowed. -/
theorem OneChain.outstanding_le_iff (h : OneChain s) {a : Action} (hstep : s.step a = some t) :
    t.outstanding ≤ 1 ↔ s.Allowed a := by
  constructor
  · intro hle
    cases a with
    | startThinking forced alive something =>
      intro hstarts hmem
      obtain rfl := Option.some.inj hstep
      rw [startThinking_eq, if_pos hstarts, outstanding] at hle
      have hcount : 0 < s.dispatcher.count .think := List.count_pos_iff.mpr hmem
      simp only [List.count_append, List.count_singleton_self] at hle
      omega
    | endTask alive something =>
      intro hcontinues hmem
      have hcount : 0 < s.dispatcher.count .think := List.count_pos_iff.mpr hmem
      unfold continues at hcontinues
      split at hcontinues
      · next elapsedTime hrunning =>
        obtain ⟨hnil, hid⟩ := h.running elapsedTime hrunning
        obtain ⟨halive, hlonger⟩ := of_decide_eq_true hcontinues
        have hadd (duration : ℤ) : (addThinkTask { s with
            running := none, thinkDuration := duration }).outstanding =
              s.dispatcher.count .think + 1 :=
          outstanding_addThinkTask h.backed hnil hid
        have ht : t.outstanding = s.dispatcher.count .think + 1 := by
          simp only [Thinker.step, Thinker.endTask, hrunning, Option.some.injEq] at hstep
          rw [← hstep, Thinker.thinkAgain, if_neg (by simp [halive])]
          split
          · exact hadd _
          · next hnot => rw [if_pos (hlonger.resolve_left hnot), hadd]
        omega
      · cases hcontinues
    | _ => trivial
  · intro hallowed
    have ht := h.step hallowed hstep
    rw [ht.outstanding_eq]
    exact ht.count_le

/-- In a run in which a chain begins or goes on only where no think task is in the queue of the
dispatcher, at most one think task is ever on its way, and exactly one for a creature that thinks and
is not in the middle of it.  Every other step that begins or continues a chain makes it two. -/
theorem one_think_chain (now : ℤ) (actions : List Action)
    (hrun : runActions (guarded Allowed Thinker.step) (initial now) actions = some s) :
    s.outstanding ≤ 1 ∧
    ((∀ e, s.running ≠ some (.onThink e)) → s.isThinking → s.outstanding = 1) ∧
    ∀ a t, s.step a = some t → (t.outstanding ≤ 1 ↔ s.Allowed a) := by
  have hreach : ((System.ofStep (· = initial now) Thinker.step).restrict Allowed).Reachable s :=
    reachable_restrict_of_runActions (.init rfl) actions hrun
  have h : OneChain s := by
    apply hreach.invariant
    · rintro s rfl
      exact oneChain_initial now
    · exact fun s a t hs hst => hs.step hst.1 hst.2
  refine ⟨?_, ?_, fun a t => h.outstanding_le_iff⟩
  · rw [h.outstanding_eq]
    exact h.count_le
  · intro hnot hthinking
    rw [h.outstanding_eq]
    exact h.thinking hthinking hnot

/-- A creature that starts, thinks once and waits for its next task. -/
theorem one_think_chain_round :
    ∃ s, runActions (guarded Allowed Thinker.step) (initial 0)
        [.startThinking true true false, .runTask true, .endTask true false, .tick 100000000,
          .handOver ⟨0, 1, 100000000, ()⟩] = some s ∧
      s.outstanding ≤ 1 ∧
      ((∀ e, s.running ≠ some (.onThink e)) → s.isThinking → s.outstanding = 1) ∧
      ∀ a t, s.step a = some t → (t.outstanding ≤ 1 ↔ s.Allowed a) :=
  ⟨_, rfl, one_think_chain 0 [.startThinking true true false, .runTask true, .endTask true false,
    .tick 100000000, .handOver ⟨0, 1, 100000000, ()⟩] rfl⟩

/-- A creature that stops and starts again while its first task is in the queue has two chains; both
have a task at the scheduler once they have run. -/
theorem two_think_chains :
    ∃ s, runActions Thinker.step (initial 0)
        [.startThinking true true false, .stopThinking, .startThinking true true false,
          .runTask true, .endTask true false, .runTask true, .endTask true false] = some s ∧
      s.running = none ∧ s.isThinking ∧ s.outstanding = 2 ∧ s.dispatcher = [] :=
  ⟨_, rfl, rfl, by decide, by decide, rfl⟩

end Thinker

end TyanoCore
