import Mathlib.Logic.Basic
import Mathlib.Data.List.Basic

/-!
# Runs of a transition system

A system is a set of initial states and a labelled step relation.  An invariant is proved once
for the initial states and once for a step; every reachable state then has it.
-/

namespace Transition

/-- Initial states and labelled steps. -/
structure System (State Action : Type*) where
  init : State → Prop
  step : State → Action → State → Prop

variable {State Action : Type*}

/-- The states that some finite run from an initial state ends in. -/
inductive System.Reachable (sys : System State Action) : State → Prop where
  | init {s : State} : sys.init s → sys.Reachable s
  | step {s t : State} {a : Action} : sys.Reachable s → sys.step s a t → sys.Reachable t

/-- A system whose steps are computed by a partial function; an undefined step is a crash. -/
def System.ofStep (init : State → Prop) (step : State → Action → Option State) :
    System State Action where
  init := init
  step s a t := step s a = some t

/-- The same system with only the steps that meet a condition on the state they start from. -/
def System.restrict (sys : System State Action) (ok : State → Action → Prop) :
    System State Action where
  init := sys.init
  step s a t := ok s a ∧ sys.step s a t

/-- An inductive invariant holds in every reachable state. -/
theorem System.Reachable.invariant {sys : System State Action} (inv : State → Prop)
    (hinit : ∀ s, sys.init s → inv s)
    (hstep : ∀ s a t, inv s → sys.step s a t → inv t)
    {s : State} (h : sys.Reachable s) : inv s := by
  induction h with
  | init hs => exact hinit _ hs
  | step _ hst ih => exact hstep _ _ _ ih hst

/-- A run of the restricted system is a run of the system. -/
theorem System.Reachable.of_restrict {sys : System State Action} {ok : State → Action → Prop}
    {s : State} (h : (sys.restrict ok).Reachable s) : sys.Reachable s := by
  induction h with
  | init hs => exact .init hs
  | step _ hst ih => exact .step ih hst.2

/-- One more permitted step of a computed system. -/
theorem reachable_restrict_step {init : State → Prop} {step : State → Action → Option State}
    {ok : State → Action → Prop} {s t : State}
    (h : ((System.ofStep init step).restrict ok).Reachable s) (a : Action) (hok : ok s a)
    (ht : step s a = some t) : ((System.ofStep init step).restrict ok).Reachable t :=
  h.step ⟨hok, ht⟩

/-- Executes a list of actions; `none` as soon as one of them crashes. -/
def runActions (step : State → Action → Option State) : State → List Action → Option State
  | s, [] => some s
  | s, a :: as => (step s a).bind fun t => runActions step t as

/-- A list of actions after another. -/
theorem runActions_append {step : State → Action → Option State} {s t : State}
    {as : List Action} (hrun : runActions step s as = some t) (bs : List Action) :
    runActions step s (as ++ bs) = runActions step t bs := by
  induction as generalizing s with
  | nil =>
    cases hrun
    rfl
  | cons a as ih =>
    obtain ⟨u, hu, hut⟩ := Option.bind_eq_some_iff.mp hrun
    rw [List.cons_append, runActions, hu]
    exact ih hut

/-- A computed step that also keeps a log of what the steps put out. -/
def logged {Output : Type*} (output : State → Action → List Output)
    (step : State → Action → Option State) (s : State × List Output) (a : Action) :
    Option (State × List Output) :=
  (step s.1 a).map fun t => (t, s.2 ++ output s.1 a)

/-- What a list of actions computes from an initial state is reachable. -/
theorem reachable_of_runActions {init : State → Prop} {step : State → Action → Option State}
    {s t : State} {as : List Action} (hs : (System.ofStep init step).Reachable s)
    (hrun : runActions step s as = some t) : (System.ofStep init step).Reachable t := by
  induction as generalizing s with
  | nil =>
    cases hrun
    exact hs
  | cons a as ih =>
    obtain ⟨u, hu, hut⟩ := Option.bind_eq_some_iff.mp hrun
    exact ih (.step hs hu) hut

/-- A step that is undefined where a condition is not met. -/
def guarded (ok : State → Action → Prop) [∀ s a, Decidable (ok s a)]
    (step : State → Action → Option State) (s : State) (a : Action) : Option State :=
  if ok s a then step s a else none

/-- What a list of actions computes is reachable where each action meets the condition. -/
theorem reachable_restrict_of_runActions {init : State → Prop}
    {step : State → Action → Option State} {ok : State → Action → Prop}
    [∀ s a, Decidable (ok s a)] {s t : State}
    (hs : ((System.ofStep init step).restrict ok).Reachable s) (as : List Action)
    (hrun : runActions (guarded ok step) s as = some t) :
    ((System.ofStep init step).restrict ok).Reachable t := by
  induction as generalizing s with
  | nil =>
    cases hrun
    exact hs
  | cons a as ih =>
    obtain ⟨u, hu, hut⟩ := Option.bind_eq_some_iff.mp hrun
    unfold guarded at hu
    split at hu
    · next hok => exact ih (.step hs ⟨hok, hu⟩) hut
    · cases hu

/-! ## Answers to calls -/

/-- What an object answers to a list of calls. -/
def answers {Call Answer : Type*} (call : State → Call → State × Answer) :
    State → List Call → List Answer
  | _, [] => []
  | s, c :: cs => (call s c).2 :: answers call (call s c).1 cs

/-- Objects in related states, whose calls answer the same and keep the relation, answer the same
to every list of calls. -/
theorem answers_eq {Call Answer State' : Type*} {call : State → Call → State × Answer}
    {call' : State' → Call → State' × Answer} (related : State → State' → Prop)
    (hcall : ∀ s t c, related s t →
      (call s c).2 = (call' t c).2 ∧ related (call s c).1 (call' t c).1)
    {s : State} {t : State'} (h : related s t) (cs : List Call) :
    answers call s cs = answers call' t cs := by
  induction cs generalizing s t with
  | nil => rfl
  | cons c cs ih =>
    obtain ⟨hanswer, hrelated⟩ := hcall s t c h
    rw [answers, answers, hanswer, ih hrelated]

end Transition
