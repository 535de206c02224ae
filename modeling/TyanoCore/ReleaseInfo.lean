import TyanoCore.Run
import TyanoCore.Scheduler

/-!
# Expiry of released items

`Item::release`, `Item::retain`, `Item::copyReleaseInfo` and the callback
`Item::testReleaseExpiration` for one item, together with the scheduler, the dispatcher's queue of
tasks that are already on their way and the clock.  A failed assertion ends the server: it has no
result, unless the build defines `NDEBUG`.
-/

namespace TyanoCore

/-- A task of the scheduler calls the item back or belongs to somebody else. -/
inductive ExpiryCallback where
  | testReleaseExpiration
  | other
deriving DecidableEq

abbrev ExpiryTask := SchedulerTask ExpiryCallback

/-- `Time::max()` -/
def expirationTimeNever : ℤ := 2 ^ 63 - 1

/-- `breakTime` is `none` for `BREAK_TIME_NEVER`; `task` is the weak pointer to the task object. -/
structure ReleaseInfo where
  breakTime : Option ℤ
  expirationDelay : ℤ
  expirationTime : ℤ
  task : Option ℕ
deriving DecidableEq

/-- `next` is the object that is allocated next. -/
structure Expiry where
  clock : ℤ
  scheduler : Scheduler ExpiryCallback
  dispatcher : List ExpiryTask
  releaseInfo : Option ReleaseInfo
  inWorld : Bool
  next : ℕ
deriving DecidableEq

/-- An item that was never released; nothing is scheduled for it. -/
def Expiry.initial : Expiry where
  clock := 0
  scheduler := .initial
  dispatcher := []
  releaseInfo := none
  inWorld := true
  next := 0

/-- The task objects that are alive: a weak pointer to another one is null. -/
def Expiry.alive (s : Expiry) : List ExpiryTask :=
  s.scheduler.tasks ++ s.dispatcher

namespace ReleaseInfo

def new : ReleaseInfo where
  breakTime := none
  expirationDelay := 0
  expirationTime := expirationTimeNever
  task := none

def isReleased (i : ReleaseInfo) : Bool := i.breakTime.isNone

def isRetained (i : ReleaseInfo) : Bool := i.breakTime.isSome

def isExpired (i : ReleaseInfo) (now : ℤ) : Bool := i.breakTime.isNone && i.expirationTime ≤ now

def getTask (i : ReleaseInfo) (s : Expiry) : Option ExpiryTask :=
  i.task.bind fun obj => s.alive.find? fun t => t.obj = obj

/-- The expiration time that `release` computes. -/
def newExpirationTime (i : ReleaseInfo) (now expirationDelay : ℤ) : ℤ :=
  if expirationDelay = i.expirationDelay then
    match i.breakTime with
    | none => i.expirationTime
    | some breakTime =>
      let continuationDuration := expirationDelay / 2
      let durationSinceBreak := now - breakTime
      if durationSinceBreak ≤ continuationDuration then i.expirationTime + durationSinceBreak
      else now + expirationDelay
  else now + expirationDelay

end ReleaseInfo

/-- `cancelTask(task->getId())` for a task that is not null. -/
def Expiry.cancel (s : Expiry) (task : Option ExpiryTask) : Expiry :=
  match task with
  | none => s
  | some t => { s with scheduler := (s.scheduler.cancelTask t.id).1 }

/-- Creates a task for the callback and adds it to the scheduler. -/
def Expiry.schedule (s : Expiry) (time : ℤ) (callback : ExpiryCallback) : Expiry :=
  { s with
    scheduler := s.scheduler.addTask ⟨s.next, 0, time, callback⟩
    next := s.next + 1 }

def ReleaseInfo.release (i : ReleaseInfo) (s : Expiry) (expirationDelay : ℤ) : Expiry :=
  let newExpirationTime := i.newExpirationTime s.clock expirationDelay
  let task := i.getTask s
  let isKept := task.isSome && i.expirationTime = newExpirationTime
  let info : ReleaseInfo :=
    { breakTime := none
      expirationDelay := expirationDelay
      expirationTime := newExpirationTime
      task := if isKept then i.task else some s.next }
  let s := if isKept then s
    else (s.cancel task).schedule newExpirationTime .testReleaseExpiration
  { s with releaseInfo := some info }

def ReleaseInfo.retain (i : ReleaseInfo) (now : ℤ) : ReleaseInfo :=
  if i.isRetained then i else { i with breakTime := some now }

def ReleaseInfo.copy (i source : ReleaseInfo) (s : Expiry) (ndebug : Bool) : Option Expiry :=
  let s := s.cancel (i.getTask s)
  if source.breakTime.isNone then
    if !ndebug && source.expirationTime < s.clock then none
    else
      let info := { source with task := some s.next }
      let s := s.schedule source.expirationTime .testReleaseExpiration
      some { s with releaseInfo := some info }
  else
    some { s with releaseInfo := some { source with task := i.task } }

/-- `isReleasable` for an item that is neither loaded from the map nor immovable nor protected by a
script, and the expiration delay of its kind. -/
def Item.isReleasable (unprotected : Bool) (expirationDelay : ℤ) : Bool :=
  unprotected && expirationDelay ≠ 0

def Item.release (s : Expiry) (unprotected : Bool) (expirationDelay : ℤ) : Expiry :=
  if Item.isReleasable unprotected expirationDelay then
    (s.releaseInfo.getD .new).release s expirationDelay
  else s

def Item.retain (s : Expiry) : Expiry :=
  { s with releaseInfo := s.releaseInfo.map fun i => i.retain s.clock }

/-- The release info of the item to copy from; the task it points to is not read. -/
def Item.copyReleaseInfo (s : Expiry) (source : Option ReleaseInfo) (ndebug : Bool) :
    Option Expiry :=
  match source with
  | none =>
    match s.releaseInfo with
    | none => some s
    | some i => some { s.cancel (i.getTask s) with releaseInfo := none }
  | some source => (s.releaseInfo.getD .new).copy source s ndebug

/-- `isReleasable` is the answer of `Item::isReleasable` at this moment; `refused` is whether
`Game::internalRemoveItem` declines to remove the item. -/
def Item.testReleaseExpiration (s : Expiry) (isReleasable refused ndebug : Bool) : Option Expiry :=
  match s.releaseInfo with
  | none => some s
  | some i =>
    if !i.isReleased || !isReleasable then some { s with releaseInfo := none }
    else if !ndebug && !i.isExpired s.clock then none
    else if s.inWorld && !refused then some { s with inWorld := false }
    else some s

/-- The dispatcher runs the task at the front of its queue. -/
def Dispatcher.runTask (s : Expiry) (isReleasable refused ndebug : Bool) : Option Expiry :=
  match s.dispatcher with
  | [] => some s
  | t :: rest =>
    let s := { s with dispatcher := rest }
    match t.callback with
    | .testReleaseExpiration => Item.testReleaseExpiration s isReleasable refused ndebug
    | .other => some s

inductive ExpiryAction where
  | tick (duration : ℕ)
  | release (unprotected : Bool) (expirationDelay : ℤ)
  | retain
  | copy (source : Option ReleaseInfo)
  | addOther (time : ℤ)
  | cancelOther (task : ExpiryTask)
  | dispatch (task : ExpiryTask)
  | run (isReleasable refused : Bool)
deriving DecidableEq

/-- One step: time passes, the item is used, others use the scheduler, the scheduler's thread finds
a task at the top of its queue, or the dispatcher runs a task. -/
def expiryStep (ndebug : Bool) (s : Expiry) : ExpiryAction → Option Expiry
  | .tick duration => some { s with clock := s.clock + duration }
  | .release unprotected expirationDelay => some (Item.release s unprotected expirationDelay)
  | .retain => some (Item.retain s)
  | .copy source => Item.copyReleaseInfo s source ndebug
  | .addOther time => some (s.schedule time .other)
  | .cancelOther task =>
    if task ∈ s.scheduler.tasks ∧ task.callback = .other then some (s.cancel (some task))
    else some s
  | .dispatch task =>
    let (scheduler, dispatched) := s.scheduler.thread task s.clock
    some { s with scheduler, dispatcher := s.dispatcher ++ dispatched.toList }
  | .run isReleasable refused => Dispatcher.runTask s isReleasable refused ndebug

def expirySystem (ndebug : Bool) : Transition.System Expiry ExpiryAction :=
  .ofStep (· = Expiry.initial) (expiryStep ndebug)

end TyanoCore
