import Mathlib.Algebra.Order.Ring.Int
import Mathlib.Data.Int.Notation
import Mathlib.Data.List.Nodup
import Mathlib.Logic.Function.Basic
import TyanoCore.Run

/-!
# Timed events of scripts

`addEvent` keeps a callback with its parameters in the registry of the Lua state, and a task of the
scheduler calls it later, unless `stopEvent` has taken it away.  The references are given back after
the call; the callback may do with the timed events what it likes in the meantime.
-/

namespace TyanoCore.LuaTimers

open Transition

variable {V : Type*}

/-! ## References into the registry -/

/-- The values that references stand for; a `nil` is no value. -/
abbrev Registry (V : Type*) := ℕ → Option V

/-- `luaL_ref` with the reference that it answers: `LUA_REFNIL` for a `nil`, otherwise one that is not
in use. -/
def luaL_ref (registry : Registry V) : Option ℕ → Option V → Option (Registry V)
  | none, none => some registry
  | some ref, some value =>
    if (registry ref).isNone then some (Function.update registry ref (some value)) else none
  | _, _ => none

def luaL_unref (registry : Registry V) : Option ℕ → Registry V
  | none => registry
  | some ref => Function.update registry ref none

def lua_rawgeti (registry : Registry V) : Option ℕ → Option V
  | none => none
  | some ref => registry ref

/-- One reference after another, each for the value that is on top of the stack then. -/
def refAll (registry : Registry V) : List (Option ℕ) → List (Option V) → Option (Registry V)
  | [], [] => some registry
  | ref :: refs, value :: values => (luaL_ref registry ref value).bind (refAll · refs values)
  | _, _ => none

/-! ## The timed events -/

structure LuaTimerEvent where
  scriptId : ℤ
  function : Option ℕ
  parameters : List (Option ℕ)

namespace LuaTimerEvent

/-- All its references, in the order in which they are given back. -/
def refs (event : LuaTimerEvent) : List (Option ℕ) := event.parameters ++ [event.function]

end LuaTimerEvent

/-- What a script has asked for, or what a script is called with. -/
structure Call (V : Type*) where
  scriptId : ℤ
  function : V
  parameters : List (Option V)

structure State (V : Type*) where
  registry : Registry V
  m_timerEvents : ℕ → Option LuaTimerEvent
  m_lastEventTimerId : ℕ
  /-- The scheduler has a task for each of these. -/
  tasks : List ℕ
  /-- The event whose callback is running. -/
  running : Option ℕ
  /-- What `addEvent` was given for an id. -/
  added : ℕ → Option (Call V)
  /-- The calls that have been made, the last one first. -/
  called : List (ℕ × Call V)
  /-- The ids for which `stopEvent` has answered `true`. -/
  stopped : List ℕ

namespace State

variable (s : State V)

/-- On the stack are the callback, the delay and the parameters, and the last parameter is on top. -/
def luaAddEvent (call : Call V) (function : Option ℕ) (parameters : List (Option ℕ)) :
    Option (State V) :=
  (refAll s.registry (parameters ++ [function])
    (call.parameters.reverse ++ [some call.function])).map fun registry =>
      let eventIndex := (s.m_lastEventTimerId + 1) % 2 ^ 32
      { s with
        registry := registry
        m_timerEvents :=
          Function.update s.m_timerEvents eventIndex (some ⟨call.scriptId, function, parameters⟩)
        m_lastEventTimerId := eventIndex
        tasks := eventIndex :: s.tasks
        added := Function.update s.added eventIndex (some call) }

/-- The references are given back and the event is erased. -/
def free (eventIndex : ℕ) (event : LuaTimerEvent) : State V :=
  { s with
    registry := event.refs.foldl luaL_unref s.registry
    m_timerEvents := Function.update s.m_timerEvents eventIndex none }

/-- `false` when there is no such event. -/
def luaStopEvent (eventId : ℕ) : State V × Bool :=
  match s.m_timerEvents eventId with
  | some event => ({ s.free eventId event with stopped := eventId :: s.stopped }, true)
  | none => (s, false)

/-- What is pushed for a call: the parameters from the last reference to the first. -/
def pushed (event : LuaTimerEvent) : Option (Call V) :=
  (lua_rawgeti s.registry event.function).map fun function =>
    ⟨event.scriptId, function, event.parameters.reverse.map (lua_rawgeti s.registry)⟩

/-- `executeTimer` up to the call.  When no script environment is left there is no call, and the
event is freed at once; `none` when what is pushed as a function is not there. -/
def executeTimer (eventIndex : ℕ) (reserved : Bool) : Option (State V) :=
  let s := { s with tasks := s.tasks.erase eventIndex }
  match s.m_timerEvents eventIndex with
  | none => some s
  | some event =>
    (s.pushed event).map fun call =>
      if reserved then
        { s with running := some eventIndex, called := (eventIndex, call) :: s.called }
      else
        s.free eventIndex event

/-- `executeTimer` after the call; `none` when the event that it still points to has been erased. -/
def finishTimer : Option (State V) :=
  s.running.bind fun eventIndex =>
    (s.m_timerEvents eventIndex).map fun event =>
      { s.free eventIndex event with running := none }

/-- The Lua state is closed with all that is in its registry, and a new one is made. -/
def closeState : State V :=
  { s with registry := fun _ => none, m_timerEvents := fun _ => none }

end State

/-! ## Runs -/

/-- What scripts and the scheduler do; one callback runs at a time. -/
inductive Action (V : Type*) where
  | addEvent (call : Call V) (function : Option ℕ) (parameters : List (Option ℕ))
  | stopEvent (eventId : ℕ)
  | executeTimer (eventIndex : ℕ) (reserved : Bool)
  | finishTimer
  | closeState

def step (s : State V) : Action V → Option (State V)
  | .addEvent call function parameters => s.luaAddEvent call function parameters
  | .stopEvent eventId => some (s.luaStopEvent eventId).1
  | .executeTimer eventIndex reserved =>
    if s.running.isNone && s.tasks.contains eventIndex then s.executeTimer eventIndex reserved
    else none
  | .finishTimer => s.finishTimer
  | .closeState => some s.closeState

def init (s : State V) : Prop :=
  s = ⟨fun _ => none, fun _ => none, 1000, [], none, fun _ => none, [], []⟩

def system : System (State V) (Action V) := System.ofStep init step

/-- No callback takes away its own event, and the ids have not run out. -/
def Safe (s : State V) : Action V → Prop
  | .addEvent .. => s.m_lastEventTimerId + 1 < 2 ^ 32
  | .stopEvent eventId => s.running ≠ some eventId
  | .closeState => s.running = none
  | _ => True

/-! ## What references do -/

theorem refAll_spec {registry registry' : Registry V} {refs : List (Option ℕ)}
    {values : List (Option V)} (h : refAll registry refs values = some registry') :
    (∀ ref, refs.count (some ref) ≤ 1) ∧
      (∀ ref, some ref ∈ refs → registry ref = none ∧ registry' ref ≠ none) ∧
      (∀ ref, some ref ∉ refs → registry' ref = registry ref) ∧
      refs.map (lua_rawgeti registry') = values := by
  induction refs generalizing registry values with
  | nil =>
    cases values with
    | nil =>
      cases h
      exact ⟨fun _ => Nat.zero_le _, fun _ h => absurd h List.not_mem_nil, fun _ _ => rfl, rfl⟩
    | cons value values => cases h
  | cons ref refs ih =>
    cases values with
    | nil => cases h
    | cons value values =>
      obtain ⟨registry₁, hfirst, hrest⟩ := Option.bind_eq_some_iff.mp h
      obtain ⟨hcount, hmem, hframe, hmap⟩ := ih hrest
      cases ref with
      | none =>
        cases value with
        | some value => cases hfirst
        | none =>
          cases hfirst
          refine ⟨fun r => ?_, fun r hr => ?_, fun r hr => ?_, ?_⟩
          · rw [List.count_cons_of_ne (Option.some_ne_none r).symm]
            exact hcount r
          · exact hmem r ((List.mem_cons.mp hr).resolve_left (Option.some_ne_none r))
          · exact hframe r fun h => hr (List.mem_cons_of_mem _ h)
          · rw [List.map_cons, hmap]
            rfl
      | some first =>
        cases value with
        | none => cases hfirst
        | some value =>
          rw [luaL_ref] at hfirst
          split_ifs at hfirst with hfree
          cases hfirst
          have hunused : registry first = none := Option.isNone_iff_eq_none.mp hfree
          -- a reference that is in use is not answered again
          have hnot : some first ∉ refs := by
            intro hagain
            have hnone := (hmem first hagain).1
            rw [Function.update_self] at hnone
            cases hnone
          have hkept : registry' first = some value := by
            rw [hframe first hnot, Function.update_self]
          refine ⟨fun r => ?_, fun r hr => ?_, fun r hr => ?_, ?_⟩
          · by_cases hr : r = first
            · have hone : (some first :: refs).count (some first) = 1 := by
                rw [List.count_cons_self, List.count_eq_zero.mpr hnot]
              rw [hr]
              exact Nat.le_of_eq hone
            · rw [List.count_cons_of_ne fun h => hr (Option.some.inj h).symm]
              exact hcount r
          · by_cases hrf : r = first
            · rw [hrf, hkept]
              exact ⟨hunused, Option.some_ne_none value⟩
            · have hr := (List.mem_cons.mp hr).resolve_left fun h => hrf (Option.some.inj h)
              obtain ⟨hnone, hsome⟩ := hmem r hr
              rw [Function.update_of_ne hrf] at hnone
              exact ⟨hnone, hsome⟩
          · obtain ⟨hne, hr⟩ := not_or.mp (List.mem_cons.not.mp hr)
            rw [hframe r hr, Function.update_of_ne fun h => hne (congrArg some h)]
          · rw [List.map_cons, hmap]
            exact congrArg (· :: values) hkept

theorem foldl_unref (registry : Registry V) (refs : List (Option ℕ)) (ref : ℕ) :
    refs.foldl luaL_unref registry ref = if some ref ∈ refs then none else registry ref := by
  induction refs generalizing registry with
  | nil => rfl
  | cons first refs ih =>
    rw [List.foldl_cons, ih]
    by_cases hmem : some ref ∈ refs
    · rw [if_pos hmem, if_pos (List.mem_cons_of_mem _ hmem)]
    · rw [if_neg hmem]
      by_cases hfirst : some ref = first
      · rw [← hfirst, if_pos List.mem_cons_self]
        exact Function.update_self ..
      · rw [if_neg fun h => hmem ((List.mem_cons.mp h).resolve_left hfirst)]
        cases first with
        | none => rfl
        | some r => exact Function.update_of_ne (fun h => hfirst (congrArg some h)) ..

/-! ## The invariant -/

variable {s t : State V}

/-- The references of an event stand for what `addEvent` was given. -/
structure Holds (registry : Registry V) (event : LuaTimerEvent) (call : Call V) : Prop where
  scriptId : event.scriptId = call.scriptId
  function : lua_rawgeti registry event.function = some call.function
  parameters : event.parameters.map (lua_rawgeti registry) = call.parameters.reverse

/-- Every event holds its references, and nobody else does. -/
structure Books (s : State V) : Prop where
  holds : ∀ {id event}, s.m_timerEvents id = some event →
    ∃ call, s.added id = some call ∧ Holds s.registry event call
  count : ∀ {id event}, s.m_timerEvents id = some event → ∀ ref, event.refs.count (some ref) ≤ 1
  used : ∀ {id event}, s.m_timerEvents id = some event → ∀ ref, some ref ∈ event.refs →
    s.registry ref ≠ none
  apart : ∀ {i j event event'}, s.m_timerEvents i = some event → s.m_timerEvents j = some event' →
    ∀ ref, some ref ∈ event.refs → some ref ∈ event'.refs → i = j
  owned : ∀ {ref}, s.registry ref ≠ none →
    ∃ id event, s.m_timerEvents id = some event ∧ some ref ∈ event.refs

/-- Every id is given once, and has a task until its callback is called. -/
structure Ids (s : State V) : Prop where
  le_of_event : ∀ {id event}, s.m_timerEvents id = some event → id ≤ s.m_lastEventTimerId
  le_of_task : ∀ {id}, id ∈ s.tasks → id ≤ s.m_lastEventTimerId
  le_of_called : ∀ {id}, id ∈ s.called.map Prod.fst → id ≤ s.m_lastEventTimerId
  le_of_stopped : ∀ {id}, id ∈ s.stopped → id ≤ s.m_lastEventTimerId
  tasks_nodup : s.tasks.Nodup
  called_nodup : (s.called.map Prod.fst).Nodup
  not_task : ∀ {id}, id ∈ s.called.map Prod.fst → id ∉ s.tasks
  task : ∀ {id event}, s.m_timerEvents id = some event → s.running ≠ some id → id ∈ s.tasks
  running : ∀ {id}, s.running = some id → (s.m_timerEvents id).isSome = true
  stopped : ∀ {id}, id ∈ s.stopped → s.m_timerEvents id = none ∧ id ∉ s.called.map Prod.fst
  called : ∀ {id call}, (id, call) ∈ s.called → s.added id = some call

/-! ## One step -/

theorem Holds.pushed {event : LuaTimerEvent} {call : Call V}
    (h : Holds s.registry event call) : s.pushed event = some call := by
  obtain ⟨scriptId, function, parameters⟩ := call
  rw [State.pushed, h.function, Option.map_some, h.scriptId, List.map_reverse, h.parameters,
    List.reverse_reverse]

theorem Books.free (h : Books s) {id : ℕ} {event : LuaTimerEvent}
    (hevent : s.m_timerEvents id = some event) : Books (s.free id event) := by
  have hregistry (ref : ℕ) : (s.free id event).registry ref =
      if some ref ∈ event.refs then none else s.registry ref := foldl_unref ..
  have hothers {i : ℕ} {event' : LuaTimerEvent}
      (hi : (s.free id event).m_timerEvents i = some event') :
      i ≠ id ∧ s.m_timerEvents i = some event' := by
    change Function.update s.m_timerEvents id none i = some event' at hi
    by_cases hid : i = id
    · rw [hid, Function.update_self] at hi
      cases hi
    · rw [Function.update_of_ne hid] at hi
      exact ⟨hid, hi⟩
  -- what another event refers to is still there
  have hkept {i : ℕ} {event' : LuaTimerEvent}
      (hi : (s.free id event).m_timerEvents i = some event') {ref : ℕ}
      (hmem : some ref ∈ event'.refs) : (s.free id event).registry ref = s.registry ref := by
    obtain ⟨hid, hi⟩ := hothers hi
    rw [hregistry, if_neg fun h' => hid (h.apart hi hevent ref hmem h')]
  refine ⟨fun {i event'} hi => ?_, fun hi => h.count (hothers hi).2, fun hi ref hmem => ?_,
    fun hi hj => h.apart (hothers hi).2 (hothers hj).2, fun {ref} hused => ?_⟩
  · obtain ⟨call, hadded, hholds⟩ := h.holds (hothers hi).2
    have hget (ref : Option ℕ) (hmem : ref ∈ event'.refs) :
        lua_rawgeti (s.free id event).registry ref = lua_rawgeti s.registry ref := by
      cases ref with
      | none => rfl
      | some ref => exact hkept hi hmem
    refine ⟨call, hadded, hholds.scriptId, ?_, ?_⟩
    · rw [hget _ (List.mem_append_right _ (List.mem_singleton_self _))]
      exact hholds.function
    · rw [← hholds.parameters]
      exact List.map_congr_left fun ref hmem => hget ref (List.mem_append_left _ hmem)
  · rw [hkept hi hmem]
    exact h.used (hothers hi).2 ref hmem
  · rw [hregistry] at hused
    split_ifs at hused with hmem
    · exact absurd rfl hused
    · obtain ⟨i, event', hi, hmem'⟩ := h.owned hused
      have hid : i ≠ id := by
        rintro rfl
        rw [hevent] at hi
        cases hi
        exact hmem hmem'
      exact ⟨i, event', (Function.update_of_ne hid ..).trans hi, hmem'⟩

theorem Books.addEvent (h : Books s) (hids : Ids s) (hlast : s.m_lastEventTimerId + 1 < 2 ^ 32)
    {call : Call V} {function : Option ℕ} {parameters : List (Option ℕ)}
    (ht : s.luaAddEvent call function parameters = some t) : Books t := by
  obtain ⟨registry, hrefs, rfl⟩ := Option.map_eq_some_iff.mp ht
  obtain ⟨hcount, hnew, hframe, hmap⟩ := refAll_spec hrefs
  rw [Nat.mod_eq_of_lt hlast]
  set id := s.m_lastEventTimerId + 1 with hid
  set event : LuaTimerEvent := ⟨call.scriptId, function, parameters⟩ with hevent
  have hcases {i : ℕ} {event' : LuaTimerEvent}
      (hi : Function.update s.m_timerEvents id (some event) i = some event') :
      i = id ∧ event' = event ∨ i ≠ id ∧ s.m_timerEvents i = some event' := by
    by_cases hiid : i = id
    · rw [hiid, Function.update_self] at hi
      exact .inl ⟨hiid, (Option.some.inj hi).symm⟩
    · rw [Function.update_of_ne hiid] at hi
      exact .inr ⟨hiid, hi⟩
  -- the references of an older event are not among the new ones
  have holder {i : ℕ} {event' : LuaTimerEvent} (hi : s.m_timerEvents i = some event') {ref : ℕ}
      (hmem : some ref ∈ event'.refs) : some ref ∉ event.refs := fun hmem' =>
    h.used hi ref hmem (hnew ref hmem').1
  have hnext {i : ℕ} {event' : LuaTimerEvent} (hi : s.m_timerEvents i = some event') : i ≠ id := by
    have := hids.le_of_event hi
    omega
  refine ⟨fun {i event'} hi => ?_, fun {i event'} hi => ?_, fun {i event'} hi ref hmem => ?_,
    fun {i j event₁ event₂} hi hj ref hmem hmem' => ?_, fun {ref} hused => ?_⟩
  · rcases hcases hi with ⟨rfl, rfl⟩ | ⟨hne, hi⟩
    · have hsplit : parameters.map (lua_rawgeti registry) = call.parameters.reverse ∧
          [function].map (lua_rawgeti registry) = [some call.function] := by
        rw [List.map_append] at hmap
        exact List.append_inj' hmap rfl
      exact ⟨call, Function.update_self .., rfl, List.singleton_inj.mp hsplit.2, hsplit.1⟩
    · obtain ⟨call', hadded, hholds⟩ := h.holds hi
      have hget (ref : Option ℕ) (hmem : ref ∈ event'.refs) :
          lua_rawgeti registry ref = lua_rawgeti s.registry ref := by
        cases ref with
        | none => rfl
        | some ref => exact hframe ref (holder hi hmem)
      refine ⟨call', (Function.update_of_ne hne ..).trans hadded, hholds.scriptId, ?_, ?_⟩
      · change lua_rawgeti registry event'.function = _
        rw [hget _ (List.mem_append_right _ (List.mem_singleton_self _))]
        exact hholds.function
      · rw [← hholds.parameters]
        exact List.map_congr_left fun ref hmem => hget ref (List.mem_append_left _ hmem)
  · rcases hcases hi with ⟨rfl, rfl⟩ | ⟨hne, hi⟩
    · exact hcount
    · exact h.count hi
  · rcases hcases hi with ⟨rfl, rfl⟩ | ⟨hne, hi⟩
    · exact (hnew ref hmem).2
    · change registry ref ≠ none
      rw [hframe ref (holder hi hmem)]
      exact h.used hi ref hmem
  · rcases hcases hi with ⟨rfl, rfl⟩ | ⟨hne, hi⟩
    · rcases hcases hj with ⟨hj, -⟩ | ⟨-, hj⟩
      · exact hj.symm
      · exact absurd hmem (holder hj hmem')
    · rcases hcases hj with ⟨-, rfl⟩ | ⟨-, hj⟩
      · exact absurd hmem' (holder hi hmem)
      · exact h.apart hi hj ref hmem hmem'
  · by_cases hmem : some ref ∈ event.refs
    · exact ⟨id, event, Function.update_self .., hmem⟩
    · change registry ref ≠ none at hused
      rw [hframe ref hmem] at hused
      obtain ⟨i, event', hi, hmem'⟩ := h.owned hused
      exact ⟨i, event', (Function.update_of_ne (hnext hi) ..).trans hi, hmem'⟩

theorem Books.congr (h : Books s) (hregistry : t.registry = s.registry)
    (hevents : t.m_timerEvents = s.m_timerEvents) (hadded : t.added = s.added) : Books t := by
  obtain ⟨registry, events, last, tasks, running, added, called, stopped⟩ := t
  obtain rfl : registry = s.registry := hregistry
  obtain rfl : events = s.m_timerEvents := hevents
  obtain rfl : added = s.added := hadded
  exact ⟨h.holds, h.count, h.used, h.apart, h.owned⟩

theorem books_closeState (s : State V) : Books s.closeState :=
  ⟨fun h => absurd h.symm (Option.some_ne_none _), fun h => absurd h.symm (Option.some_ne_none _),
    fun h => absurd h.symm (Option.some_ne_none _), fun h => absurd h.symm (Option.some_ne_none _),
    fun h => absurd rfl h⟩

theorem Ids.addEvent (h : Ids s) (hlast : s.m_lastEventTimerId + 1 < 2 ^ 32)
    {call : Call V} {function : Option ℕ} {parameters : List (Option ℕ)}
    (ht : s.luaAddEvent call function parameters = some t) : Ids t := by
  obtain ⟨registry, -, rfl⟩ := Option.map_eq_some_iff.mp ht
  rw [Nat.mod_eq_of_lt hlast]
  set id := s.m_lastEventTimerId + 1 with hid
  have hle {i : ℕ} (hi : i ≤ s.m_lastEventTimerId) : i ≤ id ∧ i ≠ id := by omega
  refine ⟨fun {i event} hi => ?_, fun {i} hi => ?_, fun hi => (hle (h.le_of_called hi)).1,
    fun hi => (hle (h.le_of_stopped hi)).1, ?_, h.called_nodup, fun {i} hi hmem => ?_,
    fun {i event} hi hne => ?_, fun {i} hi => ?_, fun {i} hi => ?_, fun {i call'} hi => ?_⟩
  · change Function.update s.m_timerEvents id _ i = some event at hi
    by_cases hiid : i = id
    · exact Nat.le_of_eq hiid
    · rw [Function.update_of_ne hiid] at hi
      exact (hle (h.le_of_event hi)).1
  · rcases List.mem_cons.mp hi with rfl | hi
    · exact Nat.le_refl _
    · exact (hle (h.le_of_task hi)).1
  · exact List.nodup_cons.mpr ⟨fun hmem => (hle (h.le_of_task hmem)).2 rfl, h.tasks_nodup⟩
  · rcases List.mem_cons.mp hmem with rfl | hmem
    · exact (hle (h.le_of_called hi)).2 rfl
    · exact h.not_task hi hmem
  · change Function.update s.m_timerEvents id _ i = some event at hi
    by_cases hiid : i = id
    · rw [hiid]
      exact List.mem_cons_self
    · rw [Function.update_of_ne hiid] at hi
      exact List.mem_cons_of_mem _ (h.task hi hne)
  · change (Function.update s.m_timerEvents id _ i).isSome = true
    by_cases hiid : i = id
    · rw [hiid, Function.update_self]
      rfl
    · rw [Function.update_of_ne hiid]
      exact h.running hi
  · obtain ⟨hnone, hnot⟩ := h.stopped hi
    exact ⟨(Function.update_of_ne (hle (h.le_of_stopped hi)).2 ..).trans hnone, hnot⟩
  · have hmem : i ∈ s.called.map Prod.fst := List.mem_map_of_mem (f := Prod.fst) hi
    exact (Function.update_of_ne (hle (h.le_of_called hmem)).2 ..).trans (h.called hi)

/-- An event that is not running goes. -/
theorem Ids.free (h : Ids s) {id : ℕ} (event : LuaTimerEvent) (hrunning : s.running ≠ some id) :
    Ids (s.free id event) := by
  have hothers {i : ℕ} {event' : LuaTimerEvent}
      (hi : Function.update s.m_timerEvents id none i = some event') :
      s.m_timerEvents i = some event' := by
    by_cases hid : i = id
    · rw [hid, Function.update_self] at hi
      cases hi
    · rwa [Function.update_of_ne hid] at hi
  refine ⟨fun hi => h.le_of_event (hothers hi), h.le_of_task, h.le_of_called, h.le_of_stopped,
    h.tasks_nodup, h.called_nodup, h.not_task, fun hi => h.task (hothers hi), fun {i} hi => ?_,
    fun {i} hi => ?_, h.called⟩
  · have hid : i ≠ id := by
      rintro rfl
      exact hrunning hi
    change (Function.update s.m_timerEvents id none i).isSome = true
    rw [Function.update_of_ne hid]
    exact h.running hi
  · obtain ⟨hnone, hnot⟩ := h.stopped hi
    refine ⟨?_, hnot⟩
    change Function.update s.m_timerEvents id none i = none
    rw [Function.update_apply, hnone, ite_self]

/-- The state of a run. -/
structure Good (s : State V) : Prop where
  books : Books s
  ids : Ids s

theorem good_init (h : init s) : Good s := by
  subst h
  have hnone {event : LuaTimerEvent} : (none : Option LuaTimerEvent) ≠ some event :=
    Option.some_ne_none event ∘ Eq.symm
  refine ⟨⟨fun h => absurd h hnone, fun h => absurd h hnone, fun h => absurd h hnone,
    fun h => absurd h hnone, fun h => absurd rfl h⟩, ?_⟩
  exact ⟨fun h => absurd h hnone, fun h => absurd h List.not_mem_nil,
    fun h => absurd h List.not_mem_nil, fun h => absurd h List.not_mem_nil, List.nodup_nil,
    List.nodup_nil, fun h => absurd h List.not_mem_nil, fun h => absurd h hnone,
    fun h => (by cases h), fun h => absurd h List.not_mem_nil, fun h => absurd h List.not_mem_nil⟩

theorem Good.stopEvent (h : Good s) {eventId : ℕ} (hrunning : s.running ≠ some eventId) :
    Good (s.luaStopEvent eventId).1 := by
  rw [State.luaStopEvent]
  cases hevent : s.m_timerEvents eventId with
  | none => exact h
  | some event =>
    have hfree := h.ids.free event hrunning
    refine ⟨(h.books.free hevent).congr rfl rfl rfl, ⟨hfree.le_of_event, hfree.le_of_task,
      hfree.le_of_called, fun {i} hi => ?_, hfree.tasks_nodup, hfree.called_nodup, hfree.not_task,
      hfree.task, hfree.running, fun {i} hi => ?_, hfree.called⟩⟩
    · rcases List.mem_cons.mp hi with rfl | hi
      · exact h.ids.le_of_event hevent
      · exact h.ids.le_of_stopped hi
    · rcases List.mem_cons.mp hi with rfl | hi
      · -- an event that has a task has not been called
        exact ⟨Function.update_self .., fun hcalled =>
          h.ids.not_task hcalled (h.ids.task hevent hrunning)⟩
      · exact hfree.stopped hi

theorem Good.executeTimer (h : Good s) {eventIndex : ℕ} {reserved : Bool}
    (hidle : s.running = none) (htask : eventIndex ∈ s.tasks)
    (ht : s.executeTimer eventIndex reserved = some t) : Good t := by
  have herase {i : ℕ} (hi : i ∈ s.tasks.erase eventIndex) : i ∈ s.tasks :=
    List.mem_of_mem_erase hi
  have hgone : eventIndex ∉ s.tasks.erase eventIndex := h.ids.tasks_nodup.not_mem_erase
  have hkeep {i : ℕ} (hi : i ∈ s.tasks) (hne : i ≠ eventIndex) : i ∈ s.tasks.erase eventIndex :=
    (List.mem_erase_of_ne hne).mpr hi
  have hnotcalled : eventIndex ∉ s.called.map Prod.fst := fun hmem => h.ids.not_task hmem htask
  rw [State.executeTimer] at ht
  dsimp only at ht
  cases hevent : s.m_timerEvents eventIndex with
  | none =>
    rw [hevent] at ht
    cases ht
    refine ⟨h.books.congr rfl rfl rfl, ⟨h.ids.le_of_event, fun hi => h.ids.le_of_task (herase hi),
      h.ids.le_of_called, h.ids.le_of_stopped, h.ids.tasks_nodup.erase _, h.ids.called_nodup,
      fun hi hmem => h.ids.not_task hi (herase hmem), fun {i event} hi hne => ?_, h.ids.running,
      h.ids.stopped, h.ids.called⟩⟩
    refine hkeep (h.ids.task hi hne) ?_
    rintro rfl
    rw [hevent] at hi
    cases hi
  | some event =>
    rw [hevent] at ht
    obtain ⟨call, hadded, hholds⟩ := h.books.holds hevent
    have hpushed : ({ s with tasks := s.tasks.erase eventIndex } : State V).pushed event =
        some call := hholds.pushed
    dsimp only at ht
    rw [hpushed, Option.map_some] at ht
    cases reserved with
    | true =>
      cases ht
      refine ⟨h.books.congr rfl rfl rfl, ⟨h.ids.le_of_event, fun hi => h.ids.le_of_task (herase hi),
        fun {i} hi => ?_, h.ids.le_of_stopped, h.ids.tasks_nodup.erase _,
        List.nodup_cons.mpr ⟨hnotcalled, h.ids.called_nodup⟩, fun {i} hi hmem => ?_,
        fun {i event'} hi hne => ?_, fun {i} hi => ?_, fun {i} hi => ?_, fun {i call'} hi => ?_⟩⟩
      · rcases List.mem_cons.mp hi with rfl | hi
        · exact h.ids.le_of_task htask
        · exact h.ids.le_of_called hi
      · rcases List.mem_cons.mp hi with rfl | hi
        · exact hgone hmem
        · exact h.ids.not_task hi (herase hmem)
      · refine hkeep (h.ids.task hi ?_) fun heq => hne (congrArg some heq.symm)
        rw [hidle]
        exact (Option.some_ne_none i).symm
      · cases hi
        change (s.m_timerEvents eventIndex).isSome = true
        rw [hevent]
        rfl
      · obtain ⟨hnone, hnot⟩ := h.ids.stopped hi
        refine ⟨hnone, fun hmem => ?_⟩
        rcases List.mem_cons.mp hmem with rfl | hmem
        · rw [hevent] at hnone
          cases hnone
        · exact hnot hmem
      · rcases List.mem_cons.mp hi with heq | hi
        · cases heq
          exact hadded
        · exact h.ids.called hi
    | false =>
      cases ht
      have hrunning : s.running ≠ some eventIndex := by
        rw [hidle]
        exact (Option.some_ne_none eventIndex).symm
      have hfree := h.ids.free event hrunning
      refine ⟨(h.books.free hevent).congr rfl rfl rfl, ⟨hfree.le_of_event,
        fun hi => h.ids.le_of_task (herase hi), hfree.le_of_called, hfree.le_of_stopped,
        h.ids.tasks_nodup.erase _, hfree.called_nodup, fun hi hmem => h.ids.not_task hi (herase hmem),
        fun {i event'} hi hne => ?_, hfree.running, hfree.stopped, hfree.called⟩⟩
      refine hkeep (hfree.task hi hne) ?_
      rintro rfl
      change Function.update s.m_timerEvents i none i = some event' at hi
      rw [Function.update_self] at hi
      cases hi

theorem Good.finishTimer (h : Good s) (ht : s.finishTimer = some t) : Good t := by
  obtain ⟨eventIndex, hrunning, ht⟩ := Option.bind_eq_some_iff.mp ht
  obtain ⟨event, hevent, rfl⟩ := Option.map_eq_some_iff.mp ht
  have hothers {i : ℕ} {event' : LuaTimerEvent}
      (hi : Function.update s.m_timerEvents eventIndex none i = some event') :
      i ≠ eventIndex ∧ s.m_timerEvents i = some event' := by
    by_cases hid : i = eventIndex
    · rw [hid, Function.update_self] at hi
      cases hi
    · rw [Function.update_of_ne hid] at hi
      exact ⟨hid, hi⟩
  refine ⟨(h.books.free hevent).congr rfl rfl rfl, ⟨fun hi => h.ids.le_of_event (hothers hi).2,
    h.ids.le_of_task, h.ids.le_of_called, h.ids.le_of_stopped, h.ids.tasks_nodup,
    h.ids.called_nodup, h.ids.not_task, fun {i event'} hi _ => ?_, fun hi => (by cases hi),
    fun {i} hi => ?_, h.ids.called⟩⟩
  · obtain ⟨hne, hi⟩ := hothers hi
    refine h.ids.task hi ?_
    rw [hrunning]
    exact fun heq => hne (Option.some.inj heq).symm
  · obtain ⟨hnone, hnot⟩ := h.ids.stopped hi
    refine ⟨?_, hnot⟩
    change Function.update s.m_timerEvents eventIndex none i = none
    rw [Function.update_apply, hnone, ite_self]

theorem Good.closeState (h : Good s) (hidle : s.running = none) : Good s.closeState := by
  have hnone {event : LuaTimerEvent} : (none : Option LuaTimerEvent) ≠ some event :=
    Option.some_ne_none event ∘ Eq.symm
  refine ⟨books_closeState s, ⟨fun hi => absurd hi hnone, h.ids.le_of_task, h.ids.le_of_called,
    h.ids.le_of_stopped, h.ids.tasks_nodup, h.ids.called_nodup, h.ids.not_task,
    fun hi => absurd hi hnone, fun {i} hi => ?_, fun hi => ⟨rfl, (h.ids.stopped hi).2⟩,
    h.ids.called⟩⟩
  change s.running = some i at hi
  rw [hidle] at hi
  cases hi

/-! ## All runs -/

theorem Good.step (h : Good s) {a : Action V} (hsafe : Safe s a) (ht : step s a = some t) :
    Good t := by
  cases a with
  | addEvent call function parameters =>
    exact ⟨h.books.addEvent h.ids hsafe ht, h.ids.addEvent hsafe ht⟩
  | stopEvent eventId =>
    cases ht
    exact h.stopEvent hsafe
  | executeTimer eventIndex reserved =>
    rw [LuaTimers.step] at ht
    split_ifs at ht with hready
    obtain ⟨hidle, htask⟩ := Bool.and_eq_true_iff.mp hready
    exact h.executeTimer (Option.isNone_iff_eq_none.mp hidle) (List.contains_iff_mem.mp htask) ht
  | finishTimer => exact h.finishTimer ht
  | closeState =>
    cases ht
    exact h.closeState hsafe

theorem reachable_good (h : (system.restrict Safe).Reachable s) : Good s := by
  refine h.invariant Good (fun _ => good_init) ?_
  rintro s a t hgood ⟨hsafe, ht⟩
  exact hgood.step hsafe ht

/-! ### Two events -/

def start : State String := ⟨fun _ => none, fun _ => none, 1000, [], none, fun _ => none, [], []⟩

/-- One event with two parameters, of which one is a `nil`, and one without. -/
def twoEvents : List (Action String) :=
  [.addEvent ⟨7, "spawn", [some "wolf", none]⟩ (some 1) [none, some 2],
    .addEvent ⟨8, "shout", []⟩ (some 3) [], .executeTimer 1001 true]

/-- The first event is running. -/
def running : State String := (runActions step start twoEvents).getD start

theorem reachable_running : (system.restrict Safe).Reachable running := by
  have hinit : (system.restrict Safe).Reachable start := .init rfl
  have hfirst : start.m_lastEventTimerId + 1 < 2 ^ 32 := by decide
  have hsecond : 1001 + 1 < 2 ^ 32 := by decide
  exact reachable_restrict_step (reachable_restrict_step (reachable_restrict_step hinit
    (.addEvent ⟨7, "spawn", [some "wolf", none]⟩ (some 1) [none, some 2]) hfirst rfl)
    (.addEvent ⟨8, "shout", []⟩ (some 3) []) hsecond rfl) (.executeTimer 1001 true) trivial rfl

/-- No event is called twice, none after `stopEvent` has taken it away, and each is called with the
callback and the parameters, in their order, that `addEvent` was given. -/
theorem called_spec (h : (system.restrict Safe).Reachable s) :
    (s.called.map Prod.fst).Nodup ∧
      ∀ id call, (id, call) ∈ s.called → s.added id = some call ∧ id ∉ s.stopped := by
  have hgood := reachable_good h
  refine ⟨hgood.ids.called_nodup, fun id call hmem => ⟨hgood.ids.called hmem, fun hstopped => ?_⟩⟩
  exact (hgood.ids.stopped hstopped).2 (List.mem_map_of_mem (f := Prod.fst) hmem)

theorem called_spec_running :
    running.called = [(1001, ⟨7, "spawn", [some "wolf", none]⟩)] ∧
      (running.called.map Prod.fst).Nodup ∧
        ∀ id call, (id, call) ∈ running.called →
          running.added id = some call ∧ id ∉ running.stopped :=
  ⟨rfl, called_spec reachable_running⟩

/-- The registry holds what the events that wait or run refer to, and nothing else: a reference is
given back once, and none is left behind. -/
theorem registry_spec (h : (system.restrict Safe).Reachable s) (ref : ℕ) :
    (s.registry ref ≠ none ↔
        ∃ id event, s.m_timerEvents id = some event ∧ some ref ∈ event.refs) ∧
      ∀ i j event event', s.m_timerEvents i = some event → s.m_timerEvents j = some event' →
        some ref ∈ event.refs → some ref ∈ event'.refs →
          i = j ∧ event.refs.count (some ref) = 1 := by
  have hbooks := (reachable_good h).books
  refine ⟨⟨hbooks.owned, fun ⟨id, event, hevent, hmem⟩ => hbooks.used hevent ref hmem⟩, ?_⟩
  intro i j event event' hi hj hmem hmem'
  have hpos := List.count_pos_iff.mpr hmem
  have hle := hbooks.count hi ref
  exact ⟨hbooks.apart hi hj ref hmem hmem', by omega⟩

theorem registry_spec_running : running.registry 2 = some "wolf" ∧
    (running.registry 2 ≠ none ↔
      ∃ id event, running.m_timerEvents id = some event ∧ some 2 ∈ event.refs) :=
  ⟨rfl, (registry_spec reachable_running 2).1⟩

/-- After the call of a callback the event is erased; it is no longer there to be erased exactly if
it is the one that the callback has stopped. -/
theorem finishTimer_stopEvent (h : (system.restrict Safe).Reachable s) {eventIndex : ℕ}
    (hrunning : s.running = some eventIndex) (eventId : ℕ) :
    (s.luaStopEvent eventId).1.finishTimer = none ↔ eventId = eventIndex := by
  have hsome := (reachable_good h).ids.running hrunning
  obtain ⟨event, hevent⟩ := Option.isSome_iff_exists.mp hsome
  rw [State.luaStopEvent]
  cases hstop : s.m_timerEvents eventId with
  | none =>
    rw [State.finishTimer, hrunning, Option.bind_some, hevent]
    refine iff_of_false (Option.some_ne_none _) ?_
    rintro rfl
    rw [hevent] at hstop
    cases hstop
  | some event' =>
    change (s.running.bind fun eventIndex =>
      (Function.update s.m_timerEvents eventId none eventIndex).map _) = none ↔ _
    rw [hrunning, Option.bind_some]
    by_cases hid : eventId = eventIndex
    · rw [hid, Function.update_self]
      exact iff_of_true rfl rfl
    · rw [Function.update_of_ne (Ne.symm hid), hevent]
      exact iff_of_false (Option.some_ne_none _) hid

/-- A callback that stops its own event, and one that stops the other one. -/
theorem finishTimer_stopEvent_running :
    (running.luaStopEvent 1001).1.finishTimer = none ∧
      (running.luaStopEvent 1002).1.finishTimer ≠ none := by
  have hrunning : running.running = some 1001 := rfl
  constructor
  · exact (finishTimer_stopEvent reachable_running hrunning 1001).mpr rfl
  · intro hnone
    cases (finishTimer_stopEvent reachable_running hrunning 1002).mp hnone

end TyanoCore.LuaTimers
