import TyanoCore.ReleaseInfo

/-!
# The expiry invariant

A task that will still call the item back is the one its release info points to, and it is due at
the item's expiration time.  Object identity makes it the only one.
-/

namespace TyanoCore

open Scheduler

/-- The task will call the item back: it is pending in the scheduler or on its way. -/
def Expiry.Live (s : Expiry) (t : ExpiryTask) : Prop :=
  t.callback = .testReleaseExpiration ∧ (s.scheduler.Pending t ∨ t ∈ s.dispatcher)

/-- A callback of the item is in the dispatcher's queue. -/
def Expiry.CallbackInQueue (s : Expiry) : Prop :=
  ∃ t ∈ s.dispatcher, t.callback = .testReleaseExpiration

structure ExpiryInvariant (s : Expiry) : Prop where
  scheduler : s.scheduler.WellFormed
  objs_nodup : (s.alive.map SchedulerTask.obj).Nodup
  objs_lt : ∀ t ∈ s.alive, t.obj < s.next
  live : ∀ t, s.Live t → ∃ i, s.releaseInfo = some i ∧ i.task = some t.obj ∧
    i.expirationTime = t.time
  due : ∀ t ∈ s.dispatcher, t.time ≤ s.clock
  handle_lt : ∀ i obj, s.releaseInfo = some i → i.task = some obj → obj < s.next
  handle_own : ∀ i t, s.releaseInfo = some i → i.task = some t.obj → t ∈ s.alive →
    t.callback = .testReleaseExpiration

theorem initial_expiryInvariant : ExpiryInvariant .initial where
  scheduler := initial_wellFormed
  objs_nodup := by simp [Expiry.initial, Expiry.alive, Scheduler.initial]
  objs_lt := by simp [Expiry.initial, Expiry.alive, Scheduler.initial]
  live := by simp [Expiry.initial, Expiry.Live, Scheduler.initial, Pending]
  due := by simp [Expiry.initial]
  handle_lt := by simp [Expiry.initial]
  handle_own := by simp [Expiry.initial]

theorem Expiry.Live.alive {s : Expiry} {t : ExpiryTask} (h : s.Live t) : t ∈ s.alive := by
  rcases h.2 with hp | hq
  · exact List.mem_append_left _ hp.1
  · exact List.mem_append_right _ hq

theorem ExpiryInvariant.eq_of_obj {s : Expiry} (h : ExpiryInvariant s) {a b : ExpiryTask}
    (ha : a ∈ s.alive) (hb : b ∈ s.alive) (hobj : a.obj = b.obj) : a = b :=
  List.inj_on_of_nodup_map h.objs_nodup ha hb hobj

/-- At most one task will call the item back. -/
theorem ExpiryInvariant.live_unique {s : Expiry} (h : ExpiryInvariant s) {a b : ExpiryTask}
    (ha : s.Live a) (hb : s.Live b) : a = b := by
  obtain ⟨i, hi, hia, -⟩ := h.live a ha
  obtain ⟨j, hj, hjb, -⟩ := h.live b hb
  rw [hi] at hj
  cases hj
  exact h.eq_of_obj ha.alive hb.alive (Option.some.inj (hia.symm.trans hjb))

/-- A held task is not on its way as well. -/
theorem ExpiryInvariant.not_both {s : Expiry} (h : ExpiryInvariant s) {t : ExpiryTask}
    (ht : t ∈ s.scheduler.tasks) : t ∉ s.dispatcher := by
  intro hq
  have hnodup := h.objs_nodup
  simp only [Expiry.alive, List.map_append] at hnodup
  exact (List.nodup_append.mp hnodup).2.2 _ (List.mem_map_of_mem ht) _ (List.mem_map_of_mem hq) rfl

/-- The weak pointer finds the task object when it is alive. -/
theorem getTask_eq_some {s : Expiry} (h : ExpiryInvariant s) {i : ReleaseInfo} {t : ExpiryTask}
    (hi : i.task = some t.obj) (ht : t ∈ s.alive) : i.getTask s = some t := by
  simp only [ReleaseInfo.getTask, hi, Option.bind_some]
  have hsome : (s.alive.find? fun u => u.obj = t.obj).isSome := by
    rw [List.find?_isSome]
    exact ⟨t, ht, by simp⟩
  obtain ⟨u, hu⟩ := Option.isSome_iff_exists.mp hsome
  have hobj : u.obj = t.obj := by simpa using List.find?_some hu
  rw [hu, h.eq_of_obj (List.mem_of_find?_eq_some hu) ht hobj]

theorem getTask_some {s : Expiry} {i : ReleaseInfo} {t : ExpiryTask}
    (h : i.getTask s = some t) : i.task = some t.obj ∧ t ∈ s.alive := by
  obtain ⟨obj, hobj, hfind⟩ := Option.bind_eq_some_iff.mp h
  have hto : t.obj = obj := by simpa using List.find?_some hfind
  exact ⟨hto ▸ hobj, List.mem_of_find?_eq_some hfind⟩

/-! ## Steps that leave the item alone -/

theorem tick_expiryInvariant {s : Expiry} (h : ExpiryInvariant s) (duration : ℕ) :
    ExpiryInvariant { s with clock := s.clock + duration } := by
  refine ⟨h.scheduler, h.objs_nodup, h.objs_lt, h.live, ?_, h.handle_lt, h.handle_own⟩
  intro t ht
  have hdue := h.due t ht
  change t.time ≤ s.clock + duration
  omega

/-- The item's record may change as long as it keeps pointing to the same task with the same
expiration time. -/
theorem ExpiryInvariant.set_info {s : Expiry} (h : ExpiryInvariant s) {i : ReleaseInfo}
    (i' : ReleaseInfo) (hi : s.releaseInfo = some i) (htask : i'.task = i.task)
    (htime : i'.expirationTime = i.expirationTime) (inWorld : Bool) :
    ExpiryInvariant { s with releaseInfo := some i', inWorld := inWorld } where
  scheduler := h.scheduler
  objs_nodup := h.objs_nodup
  objs_lt := h.objs_lt
  live := by
    intro t ht
    obtain ⟨j, hj, hjt, hje⟩ := h.live t ht
    rw [hi] at hj
    cases hj
    exact ⟨i', rfl, htask.trans hjt, htime.trans hje⟩
  due := h.due
  handle_lt := by
    intro j obj hj hobj
    cases hj
    exact h.handle_lt i obj hi (htask ▸ hobj)
  handle_own := by
    intro j t hj hobj ht
    cases hj
    exact h.handle_own i t hi (htask ▸ hobj) ht

theorem retain_expiryInvariant {s : Expiry} (h : ExpiryInvariant s) :
    ExpiryInvariant (Item.retain s) := by
  cases hi : s.releaseInfo with
  | none =>
    have hsame : Item.retain s = s := by
      cases s
      simp_all [Item.retain]
    rw [hsame]
    exact h
  | some i =>
    have hset := h.set_info (i.retain s.clock) hi
      (by unfold ReleaseInfo.retain; split <;> rfl)
      (by unfold ReleaseInfo.retain; split <;> rfl) s.inWorld
    simpa [Item.retain, hi] using hset

/-! ## Adding and cancelling tasks -/

theorem schedule_alive (s : Expiry) (time : ℤ) (callback : ExpiryCallback) :
    (s.schedule time callback).alive =
      ⟨s.next, s.scheduler.nextTaskId, time, callback⟩ :: s.alive := by
  simp [Expiry.schedule, Expiry.alive, Scheduler.addTask]

theorem schedule_objs {s : Expiry} (h : ExpiryInvariant s) (time : ℤ)
    (callback : ExpiryCallback) :
    ((s.schedule time callback).alive.map SchedulerTask.obj).Nodup ∧
      ∀ t ∈ (s.schedule time callback).alive, t.obj < (s.schedule time callback).next := by
  rw [schedule_alive]
  constructor
  · refine List.nodup_cons.mpr ⟨?_, h.objs_nodup⟩
    intro hmem
    obtain ⟨t, ht, hobj⟩ := List.mem_map.mp hmem
    have hlt := h.objs_lt t ht
    simp only at hobj
    omega
  · intro t ht
    change t.obj < s.next + 1
    rcases List.mem_cons.mp ht with rfl | ht
    · exact Nat.lt_succ_self _
    · have hlt := h.objs_lt t ht
      omega

/-- The new task is live when it is the item's, and the live tasks stay live. -/
theorem schedule_live {s : Expiry} (h : ExpiryInvariant s) (hfresh : s.scheduler.FreshId)
    (time : ℤ) (callback : ExpiryCallback) (t : ExpiryTask) :
    (s.schedule time callback).Live t ↔
      (t = ⟨s.next, s.scheduler.nextTaskId, time, callback⟩ ∧
        callback = .testReleaseExpiration) ∨ s.Live t := by
  have hpending := addTask_pending h.scheduler hfresh ⟨s.next, 0, time, callback⟩ rfl t
  simp only [Expiry.Live, Expiry.schedule, hpending]
  grind

theorem addOther_expiryInvariant {s : Expiry} (h : ExpiryInvariant s)
    (hfresh : s.scheduler.FreshId) (time : ℤ) : ExpiryInvariant (s.schedule time .other) where
  scheduler := addTask_wellFormed h.scheduler hfresh rfl
  objs_nodup := (schedule_objs h time .other).1
  objs_lt := (schedule_objs h time .other).2
  live := by
    intro t ht
    rw [schedule_live h hfresh] at ht
    rcases ht with ⟨-, ht⟩ | ht
    · cases ht
    · exact h.live t ht
  due := h.due
  handle_lt i obj hi hobj := Nat.lt_succ_of_lt (h.handle_lt i obj hi hobj)
  handle_own := by
    intro i t hi hobj ht
    rw [schedule_alive] at ht
    rcases List.mem_cons.mp ht with rfl | ht
    · have hlt := h.handle_lt i _ hi hobj
      simp at hlt
    · exact h.handle_own i t hi hobj ht

@[simp] theorem cancel_alive (s : Expiry) (task : Option ExpiryTask) :
    (s.cancel task).alive = s.alive := by
  cases task <;> simp [Expiry.cancel, Expiry.alive]

@[simp] theorem cancel_dispatcher (s : Expiry) (task : Option ExpiryTask) :
    (s.cancel task).dispatcher = s.dispatcher := by
  cases task <;> rfl

@[simp] theorem cancel_releaseInfo (s : Expiry) (task : Option ExpiryTask) :
    (s.cancel task).releaseInfo = s.releaseInfo := by
  cases task <;> rfl

@[simp] theorem cancel_clock (s : Expiry) (task : Option ExpiryTask) :
    (s.cancel task).clock = s.clock := by
  cases task <;> rfl

@[simp] theorem cancel_next (s : Expiry) (task : Option ExpiryTask) :
    (s.cancel task).next = s.next := by
  cases task <;> rfl

@[simp] theorem cancel_inWorld (s : Expiry) (task : Option ExpiryTask) :
    (s.cancel task).inWorld = s.inWorld := by
  cases task <;> rfl

theorem cancel_freshId {s : Expiry} (h : s.scheduler.FreshId) (task : Option ExpiryTask) :
    (s.cancel task).scheduler.FreshId := by
  cases task with
  | none => exact h
  | some t => exact cancelTask_freshId h t.id

/-- Cancelling a task that is held makes exactly that one no longer live. -/
theorem cancel_live {s : Expiry} (h : ExpiryInvariant s) {task : ExpiryTask}
    (htask : task ∈ s.scheduler.tasks) (t : ExpiryTask) :
    (s.cancel (some task)).Live t ↔ s.Live t ∧ t ≠ task := by
  have hpending := cancelTask_pending h.scheduler htask t
  have hboth := h.not_both htask
  simp only [Expiry.Live, Expiry.cancel, hpending]
  grind

theorem cancel_expiryInvariant {s : Expiry} (h : ExpiryInvariant s) {task : ExpiryTask}
    (htask : task ∈ s.scheduler.tasks) : ExpiryInvariant (s.cancel (some task)) where
  scheduler := cancelTask_wellFormed h.scheduler task.id
  objs_nodup := by simpa using h.objs_nodup
  objs_lt := by simpa using h.objs_lt
  live t ht := by simpa using h.live t ((cancel_live h htask t).mp ht).1
  due := by simpa using h.due
  handle_lt := by simpa using h.handle_lt
  handle_own := by simpa using h.handle_own

/-! ## The operations of the item -/

/-- With no live task left, the record may be replaced or dropped. -/
theorem ExpiryInvariant.replace_info {s : Expiry} (h : ExpiryInvariant s)
    (hlive : ∀ t, ¬ s.Live t) (info : Option ReleaseInfo)
    (hinfo : ∀ i, info = some i → i.task = (s.releaseInfo.getD .new).task) :
    ExpiryInvariant { s with releaseInfo := info } where
  scheduler := h.scheduler
  objs_nodup := h.objs_nodup
  objs_lt := h.objs_lt
  live t ht := absurd ht (hlive t)
  due := h.due
  handle_lt := by
    intro i obj hi hobj
    rw [hinfo i hi] at hobj
    cases hr : s.releaseInfo with
    | none => simp [hr, ReleaseInfo.new] at hobj
    | some j => exact h.handle_lt j obj hr (by simpa [hr] using hobj)
  handle_own := by
    intro i t hi hobj ht
    rw [hinfo i hi] at hobj
    cases hr : s.releaseInfo with
    | none => simp [hr, ReleaseInfo.new] at hobj
    | some j => exact h.handle_own j t hr (by simpa [hr] using hobj) ht

/-- With no live task left, a new one may be scheduled for the item. -/
theorem ExpiryInvariant.install {s : Expiry} (h : ExpiryInvariant s)
    (hfresh : s.scheduler.FreshId) (hlive : ∀ t, ¬ s.Live t) {info : ReleaseInfo} {time : ℤ}
    (htask : info.task = some s.next) (htime : info.expirationTime = time) :
    ExpiryInvariant { s.schedule time .testReleaseExpiration with releaseInfo := some info } where
  scheduler := addTask_wellFormed h.scheduler hfresh rfl
  objs_nodup := (schedule_objs h time _).1
  objs_lt := (schedule_objs h time _).2
  live := by
    intro t ht
    rcases (schedule_live h hfresh time .testReleaseExpiration t).mp ht with ⟨rfl, -⟩ | ht
    · exact ⟨info, rfl, htask, htime⟩
    · exact absurd ht (hlive t)
  due := h.due
  handle_lt := by
    intro i obj hi hobj
    cases hi
    rw [htask] at hobj
    cases hobj
    exact Nat.lt_succ_self _
  handle_own := by
    intro i t hi hobj ht
    cases hi
    have ht' : t ∈ (s.schedule time .testReleaseExpiration).alive := ht
    rw [schedule_alive] at ht'
    rcases List.mem_cons.mp ht' with rfl | ht'
    · rfl
    · have hlt := h.objs_lt t ht'
      rw [htask] at hobj
      have heq := Option.some.inj hobj
      omega

/-- While no callback is on its way, cancelling the item's task leaves no live one. -/
theorem cancel_own {s : Expiry} (h : ExpiryInvariant s) (hquiet : ¬ s.CallbackInQueue) :
    let s' := s.cancel ((s.releaseInfo.getD .new).getTask s)
    ExpiryInvariant s' ∧ ∀ t, ¬ s'.Live t := by
  intro s'
  cases hr : s.releaseInfo with
  | none =>
    have hs' : s' = s := by simp [s', hr, ReleaseInfo.getTask, ReleaseInfo.new, Expiry.cancel]
    rw [hs']
    refine ⟨h, ?_⟩
    intro t ht
    obtain ⟨i, hi, -⟩ := h.live t ht
    simp [hr] at hi
  | some i =>
    have honly : ∀ t, s.Live t → i.getTask s = some t := by
      intro t ht
      obtain ⟨j, hj, htask, -⟩ := h.live t ht
      rw [hr] at hj
      cases hj
      exact getTask_eq_some h htask ht.alive
    cases htask : i.getTask s with
    | none =>
      have hs' : s' = s := by simp [s', hr, htask, Expiry.cancel]
      rw [hs']
      refine ⟨h, ?_⟩
      intro t ht
      simp [honly t ht] at htask
    | some u =>
      obtain ⟨hobj, hu⟩ := getTask_some htask
      have hown := h.handle_own i u hr hobj hu
      have hheld : u ∈ s.scheduler.tasks := by
        rcases List.mem_append.mp hu with hu | hu
        · exact hu
        · exact absurd ⟨u, hu, hown⟩ hquiet
      have hs' : s' = s.cancel (some u) := by simp [s', hr, htask]
      rw [hs']
      refine ⟨cancel_expiryInvariant h hheld, ?_⟩
      intro t ht
      rw [cancel_live h hheld] at ht
      have hsome := honly t ht.1
      rw [htask] at hsome
      exact ht.2 (Option.some.inj hsome).symm

/-- A release that does not move the expiration time while a callback is on its way. -/
theorem release_spec {s : Expiry} (h : ExpiryInvariant s) (hfresh : s.scheduler.FreshId)
    (delay : ℤ)
    (hmove : s.CallbackInQueue → ∀ i, s.releaseInfo = some i →
      i.newExpirationTime s.clock delay = i.expirationTime) :
    let s' := (s.releaseInfo.getD .new).release s delay
    ExpiryInvariant s' ∧
      ((∃ t, s'.Live t) ∨ ∃ i t, s.releaseInfo = some i ∧ i.getTask s = some t ∧
        i.newExpirationTime s.clock delay = i.expirationTime ∧ ∀ u, s'.Live u ↔ s.Live u) := by
  intro s'
  by_cases hkept : ((s.releaseInfo.getD .new).getTask s).isSome ∧
      (s.releaseInfo.getD .new).expirationTime =
        (s.releaseInfo.getD .new).newExpirationTime s.clock delay
  · cases hr : s.releaseInfo with
    | none => simp [hr, ReleaseInfo.getTask, ReleaseInfo.new] at hkept
    | some i =>
      simp only [hr, Option.getD_some] at hkept
      obtain ⟨t, ht⟩ := Option.isSome_iff_exists.mp hkept.1
      let info : ReleaseInfo := ⟨none, delay, i.newExpirationTime s.clock delay, i.task⟩
      have hs' : s' = { s with releaseInfo := some info } := by
        simp [s', hr, ReleaseInfo.release, ht, ← hkept.2, info]
      refine ⟨?_, .inr ⟨i, t, rfl, ht, hkept.2.symm, fun u => by rw [hs']; rfl⟩⟩
      rw [hs']
      exact h.set_info info hr rfl hkept.2.symm s.inWorld
  · have hquiet : ¬ s.CallbackInQueue := by
      rintro ⟨u, hu, hown⟩
      have hlive : s.Live u := ⟨hown, .inr hu⟩
      obtain ⟨i, hi, htask, -⟩ := h.live u hlive
      apply hkept
      rw [hi, Option.getD_some, getTask_eq_some h htask hlive.alive]
      exact ⟨rfl, (hmove ⟨u, hu, hown⟩ i hi).symm⟩
    obtain ⟨hinv, hlive⟩ := cancel_own h hquiet
    have hkept' : (((s.releaseInfo.getD .new).getTask s).isSome &&
        decide ((s.releaseInfo.getD .new).expirationTime =
          (s.releaseInfo.getD .new).newExpirationTime s.clock delay)) = false := by
      simpa using hkept
    have hfresh' := cancel_freshId hfresh ((s.releaseInfo.getD .new).getTask s)
    let s1 := s.cancel ((s.releaseInfo.getD .new).getTask s)
    let time := (s.releaseInfo.getD .new).newExpirationTime s.clock delay
    let info : ReleaseInfo := ⟨none, delay, time, some s.next⟩
    have hs' : s' = { s1.schedule time .testReleaseExpiration with releaseInfo := some info } := by
      simp only [s', ReleaseInfo.release, hkept', Bool.false_eq_true, if_false, s1, time, info]
    rw [hs']
    refine ⟨hinv.install hfresh' hlive (by simp [info]) rfl,
      .inl ⟨⟨s1.next, s1.scheduler.nextTaskId, time, .testReleaseExpiration⟩, ?_⟩⟩
    exact (schedule_live hinv hfresh' time _ _).mpr (.inl ⟨rfl, rfl⟩)

/-- A copy while no callback is on its way. -/
theorem copy_spec {s s' : Expiry} (h : ExpiryInvariant s) (hquiet : ¬ s.CallbackInQueue)
    {source : Option ReleaseInfo} (hfresh : source.isSome → s.scheduler.FreshId) {ndebug : Bool}
    (hs' : Item.copyReleaseInfo s source ndebug = some s') :
    ExpiryInvariant s' ∧ ∀ i, s'.releaseInfo = some i → i.isReleased → ∃ t, s'.Live t := by
  obtain ⟨hinv, hlive⟩ := cancel_own h hquiet
  cases source with
  | none =>
    cases hr : s.releaseInfo with
    | none =>
      simp only [Item.copyReleaseInfo, hr, Option.some.injEq] at hs'
      subst hs'
      exact ⟨h, by simp [hr]⟩
    | some i =>
      simp only [Item.copyReleaseInfo, hr, Option.some.injEq] at hs'
      simp only [hr, Option.getD_some] at hinv hlive
      subst hs'
      exact ⟨hinv.replace_info hlive none (by simp), by simp⟩
  | some source =>
    simp only [Item.copyReleaseInfo, ReleaseInfo.copy] at hs'
    split_ifs at hs' with hreleased hassert
    · cases hs'
      have hfresh' := cancel_freshId (hfresh rfl) ((s.releaseInfo.getD .new).getTask s)
      refine ⟨hinv.install hfresh' hlive (by simp) rfl, ?_⟩
      intro i _ _
      let s1 := s.cancel ((s.releaseInfo.getD .new).getTask s)
      refine ⟨⟨s1.next, s1.scheduler.nextTaskId, source.expirationTime, .testReleaseExpiration⟩, ?_⟩
      exact (schedule_live hinv hfresh' _ _ _).mpr (.inl ⟨rfl, rfl⟩)
    · cases hs'
      refine ⟨hinv.replace_info hlive _ ?_, ?_⟩
      · intro i hi
        cases hi
        simp
      · intro i hi hreleased'
        cases hi
        exact absurd hreleased' hreleased

/-! ## Dispatching and running tasks -/

/-- The task objects that are alive after a round of the thread are among those before it. -/
theorem dispatch_alive {s : Expiry} (h : ExpiryInvariant s) (task : ExpiryTask) :
    let alive := (s.scheduler.thread task s.clock).1.tasks ++
      (s.dispatcher ++ (s.scheduler.thread task s.clock).2.toList)
    (alive.map SchedulerTask.obj).Nodup ∧ ∀ t ∈ alive, t ∈ s.alive := by
  have hnodup := h.objs_nodup
  rcases thread_cases s.scheduler task s.clock with heq | ⟨hmem, -, ⟨-, heq⟩ | ⟨-, heq⟩⟩
  · rw [heq]
    simpa [Expiry.alive] using hnodup
  · rw [heq]
    have hperm : (s.scheduler.tasks.erase task ++ (s.dispatcher ++ [task])).Perm s.alive := by
      have h1 : (s.scheduler.tasks.erase task ++ (s.dispatcher ++ [task])).Perm
          (s.scheduler.tasks.erase task ++ (task :: s.dispatcher)) :=
        (List.perm_append_singleton task s.dispatcher).append_left _
      have h2 : (task :: s.scheduler.tasks.erase task ++ s.dispatcher).Perm s.alive :=
        (List.perm_cons_erase hmem).symm.append_right s.dispatcher
      exact (h1.trans List.perm_middle).trans h2
    exact ⟨(hperm.map _).nodup_iff.mpr hnodup, fun t ht => hperm.mem_iff.mp ht⟩
  · rw [heq]
    have hsub : (s.scheduler.tasks.erase task ++ (s.dispatcher ++ [])).Sublist s.alive := by
      simpa [Expiry.alive] using List.erase_sublist.append_right s.dispatcher
    exact ⟨(hsub.map _).nodup hnodup, fun t ht => hsub.subset ht⟩

theorem dispatch_live {s : Expiry} (h : ExpiryInvariant s) (task t : ExpiryTask) :
    Expiry.Live { s with
      scheduler := (s.scheduler.thread task s.clock).1
      dispatcher := s.dispatcher ++ (s.scheduler.thread task s.clock).2.toList } t ↔ s.Live t := by
  have hpending := thread_pending h.scheduler task s.clock t
  simp only [Expiry.Live, hpending, List.mem_append, Option.mem_toList]
  rcases thread_cases s.scheduler task s.clock with heq | ⟨hmem, -, ⟨hp, heq⟩ | ⟨hp, heq⟩⟩
  · simp [heq]
  · rw [heq]
    have hpend : s.scheduler.Pending task := ⟨hmem, hp⟩
    grind
  · simp [heq]

theorem dispatch_expiryInvariant {s : Expiry} (h : ExpiryInvariant s) (task : ExpiryTask) :
    ExpiryInvariant { s with
      scheduler := (s.scheduler.thread task s.clock).1
      dispatcher := s.dispatcher ++ (s.scheduler.thread task s.clock).2.toList } where
  scheduler := thread_wellFormed h.scheduler task s.clock
  objs_nodup := (dispatch_alive h task).1
  objs_lt t ht := h.objs_lt t ((dispatch_alive h task).2 t ht)
  live t ht := h.live t ((dispatch_live h task t).mp ht)
  due := by
    intro t ht
    rcases List.mem_append.mp ht with ht | ht
    · exact h.due t ht
    · rcases thread_cases s.scheduler task s.clock with heq | ⟨-, htime, ⟨-, heq⟩ | ⟨-, heq⟩⟩
      · simp [heq] at ht
      · simp only [heq, Option.toList_some, List.mem_singleton] at ht
        exact ht ▸ htime
      · simp [heq] at ht
  handle_lt := h.handle_lt
  handle_own i t hi hobj ht := h.handle_own i t hi hobj ((dispatch_alive h task).2 t ht)

/-- The front task leaves the dispatcher's queue. -/
theorem pop_expiryInvariant {s : Expiry} (h : ExpiryInvariant s) {t : ExpiryTask}
    {rest : List ExpiryTask} (hq : s.dispatcher = t :: rest) :
    ExpiryInvariant { s with dispatcher := rest } := by
  have hsub : (s.scheduler.tasks ++ rest).Sublist s.alive := by
    simp [Expiry.alive, hq]
  refine ⟨h.scheduler, (hsub.map _).nodup h.objs_nodup, fun u hu => h.objs_lt u (hsub.subset hu),
    ?_, ?_, h.handle_lt, fun i u hi hobj hu => h.handle_own i u hi hobj (hsub.subset hu)⟩
  · rintro u ⟨hown, hu⟩
    refine h.live u ⟨hown, hu.imp id ?_⟩
    intro hur
    rw [hq]
    exact List.mem_cons_of_mem t hur
  · intro u hu
    exact h.due u (by rw [hq]; exact List.mem_cons_of_mem t hu)

/-- After the item's callback left the queue no other task will call the item back. -/
theorem pop_not_live {s : Expiry} (h : ExpiryInvariant s) {t : ExpiryTask}
    {rest : List ExpiryTask} (hq : s.dispatcher = t :: rest)
    (hown : t.callback = .testReleaseExpiration) (u : ExpiryTask) :
    ¬ Expiry.Live { s with dispatcher := rest } u := by
  rintro ⟨huown, hu⟩
  have hmem : t ∈ s.dispatcher := by simp [hq]
  have hlive : s.Live u := ⟨huown, hu.imp id fun hur => by
    rw [hq]
    exact List.mem_cons_of_mem t hur⟩
  have heq := h.live_unique hlive ⟨hown, .inr hmem⟩
  subst heq
  rcases hu with hp | hr
  · exact h.not_both hp.1 hmem
  · have hnodup : s.alive.Nodup := h.objs_nodup.of_map _
    have hcons := (List.nodup_append.mp hnodup).2.1
    rw [hq] at hcons
    exact (List.nodup_cons.mp hcons).1 hr

/-- What the callback finds: its own task was due at the current expiration time. -/
theorem callback_due {s : Expiry} (h : ExpiryInvariant s) {t : ExpiryTask} {rest : List ExpiryTask}
    (hq : s.dispatcher = t :: rest) (hown : t.callback = .testReleaseExpiration) :
    ∃ i, s.releaseInfo = some i ∧ i.expirationTime ≤ s.clock := by
  have hmem : t ∈ s.dispatcher := by simp [hq]
  obtain ⟨i, hi, -, htime⟩ := h.live t ⟨hown, .inr hmem⟩
  exact ⟨i, hi, htime ▸ h.due t hmem⟩

end TyanoCore
