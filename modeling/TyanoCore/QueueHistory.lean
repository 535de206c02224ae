import Mathlib.Data.List.Count
import Mathlib.Data.List.Induction
import Mathlib.Data.Nat.Notation

/-!
# Histories of a queue with two ends

What happened to a queue, the latest event last: an element was accepted at the front or at the
back, some elements were taken from the front, an element that was taken was handled, and the queue
was closed with nothing left in it.  A history is legal when one caller after another could have
done all of it; what waits and what is taken follow from it.
-/

namespace QueueHistory

/-- `note` is what is said about an element that is handled. -/
inductive Event (α Note : Type*) where
  | accepted (front : Bool) (a : α)
  | took (batch : List α)
  | handled (a : α) (note : Note)
  | closed

/-- The history is legal; it leaves the second list waiting and the third taken. -/
inductive Legal {α Note : Type*} : List (Event α Note) → List α → List α → Prop where
  | nil : Legal [] [] []
  | front {h w t} (a : α) : Legal h w t → Legal (h ++ [.accepted true a]) (a :: w) t
  | back {h w t} (a : α) : Legal h w t → Legal (h ++ [.accepted false a]) (w ++ [a]) t
  | took {h w t} (batch : List α) : Legal h (batch ++ w) t → Legal (h ++ [.took batch]) w (t ++ batch)
  | handled {h w t} (a : α) (note : Note) : Legal h w (a :: t) → Legal (h ++ [.handled a note]) w t
  | closed {h} : Legal h [] [] → Legal (h ++ [.closed]) [] []

variable {α Note : Type*} {h : List (Event α Note)} {w t : List α}

def acceptedOf : Event α Note → Option α
  | .accepted _ a => some a
  | _ => none

def handledOf : Event α Note → Option α
  | .handled a _ => some a
  | _ => none

/-- The elements that were accepted, in this order. -/
def acceptedIn (h : List (Event α Note)) : List α := h.filterMap acceptedOf

/-- The elements that were handled, in this order. -/
def handledIn (h : List (Event α Note)) : List α := h.filterMap handledOf

@[simp] theorem acceptedIn_append (h h' : List (Event α Note)) :
    acceptedIn (h ++ h') = acceptedIn h ++ acceptedIn h' := List.filterMap_append

@[simp] theorem handledIn_append (h h' : List (Event α Note)) :
    handledIn (h ++ h') = handledIn h ++ handledIn h' := List.filterMap_append

@[simp] theorem acceptedIn_singleton (e : Event α Note) :
    acceptedIn [e] = (acceptedOf e).toList := by
  cases e <;> rfl

@[simp] theorem handledIn_singleton (e : Event α Note) :
    handledIn [e] = (handledOf e).toList := by
  cases e <;> rfl

/-- Nothing is lost and nothing is handled twice: what was accepted was handled, is taken, or
waits. -/
theorem Legal.count_acceptedIn [DecidableEq α] (hlegal : Legal h w t) (a : α) :
    (acceptedIn h).count a = (handledIn h).count a + t.count a + w.count a := by
  induction hlegal with
  | nil => rfl
  | front b _ ih =>
    simp only [acceptedIn_append, handledIn_append, acceptedIn_singleton, handledIn_singleton,
      acceptedOf, handledOf, Option.toList, List.count_append, List.count_cons, List.count_nil, ih]
    omega
  | back b _ ih =>
    simp only [acceptedIn_append, handledIn_append, acceptedIn_singleton, handledIn_singleton,
      acceptedOf, handledOf, Option.toList, List.count_append, List.count_nil, ih]
    omega
  | took batch _ ih =>
    simp only [acceptedIn_append, handledIn_append, acceptedIn_singleton, handledIn_singleton,
      acceptedOf, handledOf, Option.toList, List.count_append, List.count_nil, ih]
    omega
  | handled b note _ ih =>
    simp only [acceptedIn_append, handledIn_append, acceptedIn_singleton, handledIn_singleton,
      acceptedOf, handledOf, Option.toList, List.count_append, List.count_cons, List.count_nil, ih]
    omega
  | closed _ ih =>
    simp only [acceptedIn_append, handledIn_append, acceptedIn_singleton, handledIn_singleton,
      acceptedOf, handledOf, Option.toList, List.append_nil, ih]

/-- Where nothing was accepted at the front, elements are handled in the order in which they were
accepted. -/
theorem Legal.acceptedIn_eq (hlegal : Legal h w t)
    (hback : ∀ a, (Event.accepted true a : Event α Note) ∉ h) :
    acceptedIn h = handledIn h ++ t ++ w := by
  have hbefore {h : List (Event α Note)} {e : Event α Note}
      (hall : ∀ a, (Event.accepted true a : Event α Note) ∉ h ++ [e]) :
      ∀ a, (Event.accepted true a : Event α Note) ∉ h :=
    fun a ha => hall a (List.mem_append_left [e] ha)
  induction hlegal with
  | nil => rfl
  | front b _ _ => exact absurd (List.mem_append_right _ List.mem_cons_self) (hback b)
  | back b _ ih =>
    rw [acceptedIn_append, handledIn_append, ih (hbefore hback)]
    simp [acceptedOf, handledOf]
  | took batch _ ih =>
    rw [acceptedIn_append, handledIn_append, ih (hbefore hback)]
    simp [acceptedOf, handledOf]
  | handled b note _ ih =>
    rw [acceptedIn_append, handledIn_append, ih (hbefore hback)]
    simp [acceptedOf, handledOf]
  | closed _ ih =>
    rw [acceptedIn_append, handledIn_append, ih (hbefore hback)]
    rfl

/-- The events before the last one. -/
theorem Legal.of_concat {e : Event α Note} (hlegal : Legal (h ++ [e]) w t) :
    ∃ w' t', Legal h w' t' ∧ (e = .closed → w' = [] ∧ t' = []) := by
  generalize hall : h ++ [e] = all at hlegal
  cases hlegal with
  | nil => exact absurd hall (List.append_ne_nil_of_right_ne_nil h (List.cons_ne_nil _ _))
  | front a hbefore =>
    obtain ⟨rfl, he⟩ := List.append_inj' hall rfl
    exact ⟨_, _, hbefore, fun h => by rw [h] at he; cases he⟩
  | back a hbefore =>
    obtain ⟨rfl, he⟩ := List.append_inj' hall rfl
    exact ⟨_, _, hbefore, fun h => by rw [h] at he; cases he⟩
  | took batch hbefore =>
    obtain ⟨rfl, he⟩ := List.append_inj' hall rfl
    exact ⟨_, _, hbefore, fun h => by rw [h] at he; cases he⟩
  | handled a note hbefore =>
    obtain ⟨rfl, he⟩ := List.append_inj' hall rfl
    exact ⟨_, _, hbefore, fun h => by rw [h] at he; cases he⟩
  | closed hbefore =>
    obtain ⟨rfl, _⟩ := List.append_inj' hall rfl
    exact ⟨_, _, hbefore, fun _ => ⟨rfl, rfl⟩⟩

/-- The queue was empty whenever it was closed. -/
theorem Legal.closed_before {h' : List (Event α Note)}
    (hlegal : Legal (h ++ .closed :: h') w t) : Legal h [] [] := by
  induction h' using List.reverseRecOn generalizing w t with
  | nil =>
    obtain ⟨w', t', hbefore, hempty⟩ := hlegal.of_concat
    obtain ⟨rfl, rfl⟩ := hempty rfl
    exact hbefore
  | append_singleton h' e ih =>
    have hsplit : h ++ Event.closed :: (h' ++ [e]) = (h ++ .closed :: h') ++ [e] := by
      rw [List.append_assoc, List.cons_append]
    rw [hsplit] at hlegal
    obtain ⟨w', t', hbefore, _⟩ := hlegal.of_concat
    exact ih hbefore

/-- Whatever was accepted before the queue was closed had been handled by then. -/
theorem Legal.handled_before_closed [DecidableEq α] {h' : List (Event α Note)}
    (hlegal : Legal (h ++ .closed :: h') w t) (a : α) :
    (handledIn h).count a = (acceptedIn h).count a := by
  rw [hlegal.closed_before.count_acceptedIn a]
  rfl

end QueueHistory
