import TyanoCore.ReleaseInvariant

/-!
# Expiry over whole runs

When nothing moves the expiration time of the item while one of its callbacks is on its way, the
callback removes the item only once it has expired, and as long as no cancelled task is taken for
a pending one a released item always has its callback ahead.
-/

namespace TyanoCore

open Scheduler Transition

/-- New tasks get free ids, and while a callback of the item is on its way the item is not released
to another expiration time and copies no release info. -/
def Undisturbed (s : Expiry) : ExpiryAction → Prop
  | .release unprotected delay => Item.isReleasable unprotected delay →
      s.scheduler.FreshId ∧ (s.CallbackInQueue → ∀ i, s.releaseInfo = some i →
        i.newExpirationTime s.clock delay = i.expirationTime)
  | .copy source => ¬ s.CallbackInQueue ∧ (source.isSome → s.scheduler.FreshId)
  | .addOther _ => s.scheduler.FreshId
  | _ => True

/-- Nothing is on its way and no id is taken at the start. -/
theorem initial_undisturbed (a : ExpiryAction) : Undisturbed .initial a := by
  cases a <;>
    simp [Undisturbed, Expiry.initial, Expiry.CallbackInQueue, FreshId, Scheduler.initial]

/-- What the callback does with the item. -/
theorem testReleaseExpiration_cases (s : Expiry) (isReleasable refused ndebug : Bool) :
    (s.releaseInfo = none ∧
      Item.testReleaseExpiration s isReleasable refused ndebug = some s) ∨
    Item.testReleaseExpiration s isReleasable refused ndebug =
      some { s with releaseInfo := none } ∨
    ∃ i, s.releaseInfo = some i ∧ i.isReleased ∧
      ((¬ i.isExpired s.clock ∧ ndebug = false ∧
        Item.testReleaseExpiration s isReleasable refused ndebug = none) ∨
      ((i.isExpired s.clock ∨ ndebug = true) ∧
        Item.testReleaseExpiration s isReleasable refused ndebug =
          some { s with inWorld := s.inWorld && refused })) := by
  obtain ⟨clock, scheduler, dispatcher, releaseInfo, inWorld, next⟩ := s
  cases releaseInfo with
  | none => exact .inl ⟨rfl, rfl⟩
  | some i =>
    cases hreleased : i.isReleased with
    | false => exact .inr (.inl (by simp [Item.testReleaseExpiration, hreleased]))
    | true =>
      cases isReleasable with
      | false => exact .inr (.inl (by simp [Item.testReleaseExpiration]))
      | true =>
        refine .inr (.inr ⟨i, rfl, hreleased, ?_⟩)
        cases hexpired : i.isExpired clock with
        | false =>
          cases ndebug with
          | false => exact .inl (by simp [Item.testReleaseExpiration, hreleased, hexpired])
          | true =>
            right
            cases inWorld <;> cases refused <;> simp [Item.testReleaseExpiration, hreleased]
        | true =>
          right
          cases inWorld <;> cases refused <;>
            simp [Item.testReleaseExpiration, hreleased, hexpired]

theorem set_inWorld {s : Expiry} (h : ExpiryInvariant s) (inWorld : Bool) :
    ExpiryInvariant { s with inWorld := inWorld } :=
  ⟨h.scheduler, h.objs_nodup, h.objs_lt, h.live, h.due, h.handle_lt, h.handle_own⟩

/-- A run of the item's callback keeps the invariant. -/
theorem runTask_expiryInvariant {s t : Expiry} (h : ExpiryInvariant s)
    {isReleasable refused ndebug : Bool}
    (ht : Dispatcher.runTask s isReleasable refused ndebug = some t) : ExpiryInvariant t := by
  cases hq : s.dispatcher with
  | nil =>
    simp only [Dispatcher.runTask, hq, Option.some.injEq] at ht
    exact ht ▸ h
  | cons u rest =>
    have hpop := pop_expiryInvariant h hq
    cases hcb : u.callback with
    | other =>
      simp only [Dispatcher.runTask, hq, hcb, Option.some.injEq] at ht
      exact ht ▸ hpop
    | testReleaseExpiration =>
      have hlive := pop_not_live h hq hcb
      simp only [Dispatcher.runTask, hq, hcb] at ht
      rcases testReleaseExpiration_cases { s with dispatcher := rest } isReleasable refused ndebug
        with ⟨-, heq⟩ | heq | ⟨i, -, -, ⟨-, -, heq⟩ | ⟨-, heq⟩⟩
      · rw [heq] at ht
        cases ht
        exact hpop
      · rw [heq] at ht
        cases ht
        exact hpop.replace_info hlive none (by simp)
      · rw [heq] at ht
        cases ht
      · rw [heq] at ht
        cases ht
        exact set_inWorld hpop _

theorem expiryStep_expiryInvariant {ndebug : Bool} {s t : Expiry} (h : ExpiryInvariant s)
    {a : ExpiryAction} (ha : Undisturbed s a) (ht : expiryStep ndebug s a = some t) :
    ExpiryInvariant t := by
  cases a with
  | tick duration =>
    cases ht
    exact tick_expiryInvariant h duration
  | release unprotected delay =>
    cases ht
    unfold Item.release
    split
    · next hrel => exact (release_spec h (ha hrel).1 delay (ha hrel).2).1
    · exact h
  | retain =>
    cases ht
    exact retain_expiryInvariant h
  | copy source => exact (copy_spec h ha.1 ha.2 ht).1
  | addOther time =>
    cases ht
    exact addOther_expiryInvariant h ha time
  | cancelOther task =>
    simp only [expiryStep] at ht
    split at ht
    · next hother =>
      cases ht
      exact cancel_expiryInvariant h hother.1
    · cases ht
      exact h
  | dispatch task =>
    cases ht
    exact dispatch_expiryInvariant h task
  | run isReleasable refused => exact runTask_expiryInvariant h ht

theorem reachable_expiryInvariant {ndebug : Bool} {s : Expiry}
    (h : ((expirySystem ndebug).restrict Undisturbed).Reachable s) : ExpiryInvariant s := by
  refine h.invariant _ ?_ ?_
  · rintro s rfl
    exact initial_expiryInvariant
  · rintro s a t hs ⟨ha, ht⟩
    exact expiryStep_expiryInvariant hs ha ht

/-! ## The item never expires early -/

/-- Every step that removes the item finds it released and expired. -/
def NeverEarly (ndebug : Bool) (s : Expiry) : Prop :=
  ∀ a t, expiryStep ndebug s a = some t → s.inWorld = true → t.inWorld = false →
    ∃ i, s.releaseInfo = some i ∧ i.isReleased ∧ i.expirationTime ≤ s.clock

theorem release_inWorld (s : Expiry) (unprotected : Bool) (delay : ℤ) :
    (Item.release s unprotected delay).inWorld = s.inWorld := by
  simp only [Item.release, ReleaseInfo.release]
  split_ifs <;> simp [Expiry.schedule]

theorem copy_inWorld {s t : Expiry} {source : Option ReleaseInfo} {ndebug : Bool}
    (ht : Item.copyReleaseInfo s source ndebug = some t) : t.inWorld = s.inWorld := by
  cases source with
  | none =>
    cases hi : s.releaseInfo with
    | none =>
      simp only [Item.copyReleaseInfo, hi, Option.some.injEq] at ht
      exact ht ▸ rfl
    | some i =>
      simp only [Item.copyReleaseInfo, hi, Option.some.injEq] at ht
      subst ht
      simp
  | some source =>
    simp only [Item.copyReleaseInfo, ReleaseInfo.copy] at ht
    split_ifs at ht with h1 h2
    · cases ht
      simp [Expiry.schedule]
    · cases ht
      simp

/-- Only the item's callback removes it. -/
theorem removed_by_callback {ndebug : Bool} {s t : Expiry} {a : ExpiryAction}
    (ht : expiryStep ndebug s a = some t) (hs : s.inWorld = true) (hgone : t.inWorld = false) :
    ∃ isReleasable refused u rest i, a = .run isReleasable refused ∧ s.dispatcher = u :: rest ∧
      u.callback = .testReleaseExpiration ∧ s.releaseInfo = some i ∧ i.isReleased := by
  have hne : t.inWorld ≠ s.inWorld := by simp [hs, hgone]
  -- all but the callback leave the item where it is
  cases a with
  | tick duration =>
    cases ht
    exact absurd rfl hne
  | release unprotected delay =>
    cases ht
    exact absurd (release_inWorld s unprotected delay) hne
  | retain =>
    cases ht
    exact absurd rfl hne
  | copy source => exact absurd (copy_inWorld ht) hne
  | addOther time =>
    cases ht
    exact absurd rfl hne
  | cancelOther task =>
    simp only [expiryStep] at ht
    split at ht
    · cases ht
      exact absurd (cancel_inWorld s (some task)) hne
    · cases ht
      exact absurd rfl hne
  | dispatch task =>
    cases ht
    exact absurd rfl hne
  | run isReleasable refused =>
    cases hq : s.dispatcher with
    | nil =>
      simp only [expiryStep, Dispatcher.runTask, hq, Option.some.injEq] at ht
      exact absurd (ht ▸ rfl) hne
    | cons u rest =>
      cases hcb : u.callback with
      | other =>
        simp only [expiryStep, Dispatcher.runTask, hq, hcb, Option.some.injEq] at ht
        exact absurd (ht ▸ rfl) hne
      | testReleaseExpiration =>
        simp only [expiryStep, Dispatcher.runTask, hq, hcb] at ht
        rcases testReleaseExpiration_cases { s with dispatcher := rest } isReleasable refused ndebug
          with ⟨-, heq⟩ | heq | ⟨i, hi, hreleased, -⟩
        · rw [heq] at ht
          cases ht
          exact absurd rfl hne
        · rw [heq] at ht
          cases ht
          exact absurd rfl hne
        · exact ⟨isReleasable, refused, u, rest, i, rfl, rfl, hcb, hi, hreleased⟩

/-- In undisturbed runs the item is removed only when it is released and has expired, and the
callback's own assertion never fails. -/
theorem expiry_never_early (ndebug : Bool) (s : Expiry)
    (h : ((expirySystem ndebug).restrict Undisturbed).Reachable s) :
    NeverEarly ndebug s ∧
      ∀ isReleasable refused, ∃ t, expiryStep ndebug s (.run isReleasable refused) = some t := by
  have hinv := reachable_expiryInvariant h
  constructor
  · intro a t ht hs hgone
    obtain ⟨isReleasable, refused, u, rest, i, rfl, hq, hcb, hi, hreleased⟩ :=
      removed_by_callback ht hs hgone
    obtain ⟨j, hj, htime⟩ := callback_due hinv hq hcb
    rw [hi] at hj
    cases hj
    exact ⟨i, hi, hreleased, htime⟩
  · intro isReleasable refused
    cases hq : s.dispatcher with
    | nil => exact ⟨s, by simp [expiryStep, Dispatcher.runTask, hq]⟩
    | cons u rest =>
      cases hcb : u.callback with
      | other => exact ⟨_, by simp only [expiryStep, Dispatcher.runTask, hq, hcb]; rfl⟩
      | testReleaseExpiration =>
        obtain ⟨j, hj, htime⟩ := callback_due hinv hq hcb
        simp only [expiryStep, Dispatcher.runTask, hq, hcb]
        rcases testReleaseExpiration_cases { s with dispatcher := rest } isReleasable refused ndebug
          with ⟨-, heq⟩ | heq | ⟨i, hi, hreleased, ⟨hnot, -, -⟩ | ⟨-, heq⟩⟩
        · exact ⟨_, heq⟩
        · exact ⟨_, heq⟩
        · rw [hj] at hi
          cases hi
          exact absurd (by simp_all [ReleaseInfo.isExpired, ReleaseInfo.isReleased]) hnot
        · exact ⟨_, heq⟩

/-- An item whose callback is about to run. -/
theorem expiry_never_early_due :
    ∃ s : Expiry, s.CallbackInQueue ∧ s.clock = 10 ∧ NeverEarly true s := by
  have h0 : ((expirySystem true).restrict Undisturbed).Reachable .initial := .init rfl
  obtain ⟨s1, h1⟩ : ∃ s1, expiryStep true .initial (.release true 10) = some s1 := ⟨_, rfl⟩
  have hr1 := reachable_restrict_step h0 (.release true 10) (initial_undisturbed _) h1
  obtain ⟨s2, h2⟩ : ∃ s2, expiryStep true s1 (.tick 10) = some s2 := ⟨_, rfl⟩
  have hr2 := reachable_restrict_step hr1 (.tick 10) trivial h2
  obtain ⟨s3, h3, hqueue, hclock⟩ : ∃ s3,
      expiryStep true s2 (.dispatch ⟨0, 1, 10, .testReleaseExpiration⟩) = some s3 ∧
      s3.dispatcher = [⟨0, 1, 10, .testReleaseExpiration⟩] ∧ s3.clock = 10 := by
    cases h1
    cases h2
    exact ⟨_, rfl, rfl, rfl⟩
  have hr3 := reachable_restrict_step hr2 (.dispatch ⟨0, 1, 10, .testReleaseExpiration⟩) trivial h3
  exact ⟨s3, ⟨_, by rw [hqueue]; exact List.mem_singleton_self _, rfl⟩, hclock,
    (expiry_never_early true s3 hr3).1⟩

/-- The item is retained before its task is due and released again when the task is on its way. -/
def releasedInFlight : List ExpiryAction :=
  [.release true 10, .tick 8, .retain, .tick 2,
    .dispatch ⟨0, 1, 10, .testReleaseExpiration⟩, .release true 10]

/-- The callback then removes the item at 10 although it expires at 12; a build with assertions
ends there. -/
theorem expiry_early :
    (¬ ∀ s, (expirySystem true).Reachable s → NeverEarly true s) ∧
    runActions (expiryStep false) .initial (releasedInFlight ++ [.run true false]) = none := by
  refine ⟨?_, rfl⟩
  intro hall
  obtain ⟨s, hrun, hin, hclock, i, hi, htime⟩ : ∃ s,
      runActions (expiryStep true) .initial releasedInFlight = some s ∧ s.inWorld = true ∧
      s.clock = 10 ∧ ∃ i, s.releaseInfo = some i ∧ i.expirationTime = 12 :=
    ⟨_, rfl, rfl, rfl, _, rfl, rfl⟩
  obtain ⟨t, ht, hgone⟩ : ∃ t, expiryStep true s (.run true false) = some t ∧
      t.inWorld = false := by
    cases hrun
    exact ⟨_, rfl, rfl⟩
  obtain ⟨j, hj, -, hexpired⟩ :=
    hall s (reachable_of_runActions (.init rfl) hrun) _ t ht hin hgone
  rw [hi] at hj
  cases hj
  omega

/-! ## A released item has its callback ahead -/

/-- The tasks that wait in the scheduler to call the item back. -/
def Expiry.pendingTasks (s : Expiry) : List ExpiryTask :=
  s.scheduler.tasks.filter fun t =>
    t.callback = .testReleaseExpiration ∧ t.id ∈ s.scheduler.pendingTaskIds

/-- A released item that is still in the world has a callback on its way, or exactly one pending
task, due at its expiration time. -/
def ExpiryScheduled (s : Expiry) : Prop :=
  ∀ i, s.releaseInfo = some i → i.isReleased → s.inWorld = true →
    s.CallbackInQueue ∨ ∃ t, s.pendingTasks = [t] ∧ t.time = i.expirationTime

/-- The item is not released to the expiration time it already has while its task pointer still
finds a cancelled task, and the game does not refuse to remove it. -/
def Rescheduled (s : Expiry) : ExpiryAction → Prop
  | .release unprotected delay => Item.isReleasable unprotected delay →
      ∀ i t, s.releaseInfo = some i → i.task = some t.obj → t ∈ s.scheduler.tasks →
        t.id ∉ s.scheduler.pendingTaskIds →
        i.newExpirationTime s.clock delay ≠ i.expirationTime
  | .run _ refused => refused = false
  | _ => True

def HasLiveTask (s : Expiry) : Prop :=
  ∀ i, s.releaseInfo = some i → i.isReleased → s.inWorld = true → ∃ t, s.Live t

theorem release_hasLiveTask {s : Expiry} (h : ExpiryInvariant s) (hlive : HasLiveTask s)
    {unprotected : Bool} {delay : ℤ} (ha : Undisturbed s (.release unprotected delay))
    (hr : Rescheduled s (.release unprotected delay)) :
    HasLiveTask (Item.release s unprotected delay) := by
  unfold Item.release
  split
  swap
  · exact hlive
  next hrel =>
  intro _ _ _ _
  rcases (release_spec h (ha hrel).1 delay (ha hrel).2).2 with hnew | ⟨i, t, hi, ht, hsame, hkeep⟩
  · exact hnew
  · -- the task that is kept was not cancelled
    obtain ⟨hobj, hmem⟩ := getTask_some ht
    have hown := h.handle_own i t hi hobj hmem
    refine ⟨t, (hkeep t).mpr ⟨hown, ?_⟩⟩
    rcases List.mem_append.mp hmem with hheld | hqueue
    · by_cases hp : t.id ∈ s.scheduler.pendingTaskIds
      · exact .inl ⟨hheld, hp⟩
      · exact absurd hsame (hr hrel i t hi hobj hheld hp)
    · exact .inr hqueue

theorem runTask_hasLiveTask {s t : Expiry} (hlive : HasLiveTask s) {isReleasable ndebug : Bool}
    (ht : Dispatcher.runTask s isReleasable false ndebug = some t) : HasLiveTask t := by
  cases hq : s.dispatcher with
  | nil =>
    simp only [Dispatcher.runTask, hq, Option.some.injEq] at ht
    exact ht ▸ hlive
  | cons u rest =>
    cases hcb : u.callback with
    | other =>
      simp only [Dispatcher.runTask, hq, hcb, Option.some.injEq] at ht
      subst ht
      intro i hi hreleased hin
      obtain ⟨v, hown, hv⟩ := hlive i hi hreleased hin
      refine ⟨v, hown, hv.imp id ?_⟩
      intro hvq
      rw [hq] at hvq
      refine (List.mem_cons.mp hvq).resolve_left ?_
      rintro rfl
      rw [hcb] at hown
      cases hown
    | testReleaseExpiration =>
      simp only [Dispatcher.runTask, hq, hcb] at ht
      rcases testReleaseExpiration_cases { s with dispatcher := rest } isReleasable false ndebug
        with ⟨hnone, heq⟩ | heq | ⟨i, -, -, ⟨-, -, heq⟩ | ⟨-, heq⟩⟩
      · rw [heq] at ht
        cases ht
        intro i hi
        rw [hnone] at hi
        cases hi
      · rw [heq] at ht
        cases ht
        intro i hi
        cases hi
      · rw [heq] at ht
        cases ht
      · rw [heq] at ht
        cases ht
        intro i _ _ hin
        simp at hin

theorem expiryStep_hasLiveTask {ndebug : Bool} {s t : Expiry} (h : ExpiryInvariant s)
    (hlive : HasLiveTask s) {a : ExpiryAction} (ha : Undisturbed s a) (hr : Rescheduled s a)
    (ht : expiryStep ndebug s a = some t) : HasLiveTask t := by
  cases a with
  | tick duration =>
    cases ht
    exact hlive
  | release unprotected delay =>
    cases ht
    exact release_hasLiveTask h hlive ha hr
  | retain =>
    cases ht
    intro i hi hreleased
    obtain ⟨j, -, rfl⟩ := Option.map_eq_some_iff.mp hi
    exfalso
    cases hb : j.breakTime <;>
      simp [ReleaseInfo.retain, ReleaseInfo.isRetained, ReleaseInfo.isReleased, hb] at hreleased
  | copy source =>
    intro i hi hreleased _
    exact (copy_spec h ha.1 ha.2 ht).2 i hi hreleased
  | addOther time =>
    cases ht
    intro i hi hreleased hin
    obtain ⟨u, hu⟩ := hlive i hi hreleased hin
    exact ⟨u, (schedule_live h ha time .other u).mpr (.inr hu)⟩
  | cancelOther task =>
    simp only [expiryStep] at ht
    split at ht
    · next hother =>
      cases ht
      intro i hi hreleased hin
      obtain ⟨u, hu⟩ := hlive i (by simpa using hi) hreleased (by simpa using hin)
      refine ⟨u, (cancel_live h hother.1 u).mpr ⟨hu, ?_⟩⟩
      rintro rfl
      exact absurd (hu.1.symm.trans hother.2) (by decide)
    · cases ht
      exact hlive
  | dispatch task =>
    cases ht
    intro i hi hreleased hin
    obtain ⟨u, hu⟩ := hlive i hi hreleased hin
    exact ⟨u, (dispatch_live h task u).mpr hu⟩
  | run isReleasable refused =>
    cases hr
    exact runTask_hasLiveTask hlive ht

/-- A pending task of the item is the only one. -/
theorem pendingTasks_eq {s : Expiry} (h : ExpiryInvariant s) {t : ExpiryTask}
    (hown : t.callback = .testReleaseExpiration) (ht : s.scheduler.Pending t) :
    s.pendingTasks = [t] := by
  have hmem : ∀ u, u ∈ s.pendingTasks ↔
      s.scheduler.Pending u ∧ u.callback = .testReleaseExpiration := by
    intro u
    simp only [Expiry.pendingTasks, List.mem_filter, decide_eq_true_eq, Scheduler.Pending]
    tauto
  have hnodup : s.pendingTasks.Nodup :=
    (h.scheduler.ids_nodup.of_map _).filter _
  refine List.perm_singleton.mp ((List.perm_ext_iff_of_nodup hnodup (List.nodup_singleton t)).mpr ?_)
  intro u
  rw [hmem, List.mem_singleton]
  constructor
  · rintro ⟨hu, huown⟩
    exact h.live_unique ⟨huown, .inl hu⟩ ⟨hown, .inl ht⟩
  · rintro rfl
    exact ⟨ht, hown⟩

/-- In undisturbed runs that never take a cancelled task for a pending one, a released item in the
world always has exactly one pending task at its expiration time or its callback on its way. -/
theorem expiry_scheduled (ndebug : Bool) (s : Expiry)
    (h : ((expirySystem ndebug).restrict fun s a => Undisturbed s a ∧ Rescheduled s a).Reachable s) :
    ExpiryScheduled s := by
  have hboth : ExpiryInvariant s ∧ HasLiveTask s := by
    refine h.invariant (fun s => ExpiryInvariant s ∧ HasLiveTask s) ?_ ?_
    · rintro s rfl
      refine ⟨initial_expiryInvariant, ?_⟩
      intro i hi
      cases hi
    · rintro s a t ⟨hinv, hlive⟩ ⟨⟨ha, hr⟩, ht⟩
      exact ⟨expiryStep_expiryInvariant hinv ha ht, expiryStep_hasLiveTask hinv hlive ha hr ht⟩
  obtain ⟨hinv, hlive⟩ := hboth
  intro i hi hreleased hin
  obtain ⟨t, hown, hpending | hqueue⟩ := hlive i hi hreleased hin
  · obtain ⟨j, hj, -, htime⟩ := hinv.live t ⟨hown, .inl hpending⟩
    rw [hi] at hj
    cases hj
    exact .inr ⟨t, pendingTasks_eq hinv hown hpending, htime.symm⟩
  · exact .inl ⟨t, hqueue, hown⟩

/-- A released item whose task is pending. -/
theorem expiry_scheduled_pending :
    ∃ s, s.pendingTasks = [⟨0, 1, 10, .testReleaseExpiration⟩] ∧ ExpiryScheduled s := by
  have h0 : ((expirySystem true).restrict fun s a => Undisturbed s a ∧ Rescheduled s a).Reachable
    .initial := .init rfl
  obtain ⟨s1, h1, hpending⟩ : ∃ s1, expiryStep true .initial (.release true 10) = some s1 ∧
      s1.pendingTasks = [⟨0, 1, 10, .testReleaseExpiration⟩] := ⟨_, rfl, by decide⟩
  have hok : Undisturbed .initial (.release true 10) ∧ Rescheduled .initial (.release true 10) := by
    refine ⟨initial_undisturbed _, ?_⟩
    intro _ i t hi
    cases hi
  have hr1 := reachable_restrict_step h0 (.release true 10) hok h1
  exact ⟨s1, hpending, expiry_scheduled true s1 hr1⟩

/-- At time 8 a released item copies the info of one that was released at 5 and has just been
retained, and is released again.  The new expiration time is the copied one, so that the task that
the copy cancelled is kept. -/
def copiedFromRetained : List ExpiryAction :=
  [.tick 8, .release true 10, .copy (some ⟨some 8, 10, 15, none⟩), .release true 10]

/-- The item is released and nothing will ever remove it. -/
theorem expiry_not_scheduled :
    ¬ ∀ s, (expirySystem false).Reachable s → ExpiryScheduled s := by
  intro hall
  obtain ⟨s, hrun, hin, hqueue, hpending, i, hi, hreleased⟩ : ∃ s,
      runActions (expiryStep false) .initial copiedFromRetained = some s ∧ s.inWorld = true ∧
      s.dispatcher = [] ∧ s.pendingTasks = [] ∧ ∃ i, s.releaseInfo = some i ∧ i.isReleased :=
    ⟨_, rfl, rfl, rfl, by decide, _, rfl, rfl⟩
  rcases hall s (reachable_of_runActions (.init rfl) hrun) i hi hreleased hin with
    ⟨t, ht, -⟩ | ⟨t, ht, -⟩
  · simp [hqueue] at ht
  · simp [hpending] at ht

end TyanoCore
