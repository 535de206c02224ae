import TyanoCore.RemoveWhole

/-!
# The scan of a removal

What `Game::removeItemOfType` comes to, in its order, can be read off the world before it begins:
removing a whole item takes nothing out of the rest.  `deal` follows the count along these items; it
says which items go, and whether the loops end at all.
-/

namespace TyanoCore

variable {srv : Server} {w w' w'' : World}

/-! ## Items on the way -/

/-- What an item counts for when it is removed. -/
def Item.supply (item : Item) : ℕ := if item.isStackable then item.count else 1

/-- `Game::internalRemoveItem` removes an item that counts something and may be removed. -/
def Item.removable (item : Item) : Bool := item.canRemove && item.count ≠ 0

theorem Item.canRemove_of_removable {item : Item} (h : item.removable = true) :
    item.canRemove = true := (Bool.and_eq_true_iff.mp h).1

theorem Item.count_ne_zero_of_removable {item : Item} (h : item.removable = true) :
    item.count ≠ 0 := of_decide_eq_true (Bool.and_eq_true_iff.mp h).2

namespace RemoveRequest

variable (r : RemoveRequest)

/-- The loops try to remove the item. -/
def takes (nested : Bool) (item : Item) : Bool :=
  r.asks nested item && (item.isStackable || r.hasSubType item)

/-- The loops neither get anything from the item nor get past it. -/
def sticks (nested : Bool) (item : Item) : Bool :=
  r.asks nested item &&
    if item.isStackable then item.count = 0 else nested && !r.hasSubType item

variable {r} in
theorem asks_of_takes {nested : Bool} {item : Item} (h : r.takes nested item = true) :
    r.asks nested item = true := (Bool.and_eq_true_iff.mp h).1

section

variable {r} {a b : Item} (h : a.core = b.core) {nested : Bool}

include h

/-! All this is about the items without their links. -/

theorem asks_core : r.asks nested a = r.asks nested b :=
  (congrArg (r.asks nested) h : r.asks nested a.core = r.asks nested b.core)

theorem takes_core : r.takes nested a = r.takes nested b :=
  (congrArg (r.takes nested) h : r.takes nested a.core = r.takes nested b.core)

theorem sticks_core : r.sticks nested a = r.sticks nested b :=
  (congrArg (r.sticks nested) h : r.sticks nested a.core = r.sticks nested b.core)

theorem supply_core : a.supply = b.supply :=
  (congrArg Item.supply h : a.core.supply = b.core.supply)

theorem removable_core : a.removable = b.removable :=
  (congrArg Item.removable h : a.core.removable = b.core.removable)

end

/-! ## The order of the scan -/

/-- The items that are looked into, of those that the loops come to. -/
def opened (w : World) (nested : Bool) (items : List ItemId) : List ItemId :=
  items.filter fun i => (w.item i).isContainer && !r.asks nested (w.item i)

def openedIn (w : World) (j : ItemId) : List ItemId := r.opened w true (w.item j).itemlist

/-- The containers that the second loop goes through. -/
def entered (w : World) : List ItemId :=
  Walk.visit (r.openedIn w) w.next (r.opened w false (w.things r.cylinder))

/-- The items of a place and of containers, and for each of them whether it is in a container
that is looked into. -/
def entries (w : World) (nested : Bool) (items containers : List ItemId) :
    List (Bool × ItemId) :=
  items.map (nested, ·) ++ containers.flatMap fun j => (w.item j).itemlist.map (true, ·)

/-- All items that the loops come to when they go on to the end. -/
def scanned (w : World) : List (Bool × ItemId) :=
  entries w false (w.things r.cylinder) (r.entered w)

/-- What is taken: whole items, a part of a stack, and what is left of the count. -/
structure Deal where
  gone : List ItemId := []
  part : Option (ItemId × ℕ) := none
  left : ℕ

/-- The count along the scan; an item that may not be removed uses it up. -/
def deal (w : World) : ℕ → List (Bool × ItemId) → Option Deal
  | k, [] => some { left := k }
  | k, (nested, x) :: entries =>
    let item := w.item x
    if k = 0 then some { left := 0 }
    else if r.sticks nested item then none
    else if !r.takes nested item then deal w k entries
    -- the item is tried again and again, and the count falls each time
    else if !item.removable then some { left := 0 }
    else if k < item.supply then some { part := some (x, k), left := 0 }
    else (deal w (k - item.supply) entries).map fun d => { d with gone := x :: d.gone }

variable {r}

section

variable {k : ℕ} {e : Bool × ItemId} {entries : List (Bool × ItemId)}

theorem deal_zero (w : World) (entries : List (Bool × ItemId)) :
    r.deal w 0 entries = some { left := 0 } := by
  cases entries with
  | nil => rfl
  | cons e entries => rfl

/-! With something still to be removed, what becomes of the first item decides. -/

theorem deal_sticks (hpos : 0 < k) (hsticks : r.sticks e.1 (w.item e.2) = true) :
    r.deal w k (e :: entries) = none := by
  obtain ⟨nested, x⟩ := e
  rw [deal, if_neg hpos.ne', if_pos hsticks]

theorem deal_pass (hpos : 0 < k) (hsticks : r.sticks e.1 (w.item e.2) = false)
    (htakes : r.takes e.1 (w.item e.2) = false) :
    r.deal w k (e :: entries) = r.deal w k entries := by
  obtain ⟨nested, x⟩ := e
  simp only [deal, if_neg hpos.ne', hsticks, htakes, Bool.false_eq_true, if_false, Bool.not_false,
    if_true]

theorem deal_refused (hpos : 0 < k) (hsticks : r.sticks e.1 (w.item e.2) = false)
    (htakes : r.takes e.1 (w.item e.2) = true) (hremove : (w.item e.2).removable = false) :
    r.deal w k (e :: entries) = some { left := 0 } := by
  obtain ⟨nested, x⟩ := e
  simp only [deal, if_neg hpos.ne', hsticks, htakes, hremove, Bool.false_eq_true, if_false,
    Bool.not_false, Bool.not_true, if_true]

theorem deal_part (hpos : 0 < k) (hsticks : r.sticks e.1 (w.item e.2) = false)
    (htakes : r.takes e.1 (w.item e.2) = true) (hremove : (w.item e.2).removable = true)
    (hless : k < (w.item e.2).supply) :
    r.deal w k (e :: entries) = some { part := some (e.2, k), left := 0 } := by
  obtain ⟨nested, x⟩ := e
  simp only [deal, if_neg hpos.ne', hsticks, htakes, hremove, Bool.false_eq_true, if_false,
    Bool.not_true, if_pos hless]

theorem deal_whole (hpos : 0 < k) (hsticks : r.sticks e.1 (w.item e.2) = false)
    (htakes : r.takes e.1 (w.item e.2) = true) (hremove : (w.item e.2).removable = true)
    (hle : (w.item e.2).supply ≤ k) :
    r.deal w k (e :: entries) =
      (r.deal w (k - (w.item e.2).supply) entries).map fun d => { d with gone := e.2 :: d.gone } := by
  obtain ⟨nested, x⟩ := e
  simp only [deal, if_neg hpos.ne', hsticks, htakes, hremove, Bool.false_eq_true, if_false,
    Bool.not_true, if_neg hle.not_gt]

/-- The cases of the deal. -/
inductive Meets (r : RemoveRequest) (w : World) (k : ℕ) (e : Bool × ItemId) : Prop
  | sticks (hsticks : r.sticks e.1 (w.item e.2) = true)
  | pass (hsticks : r.sticks e.1 (w.item e.2) = false)
      (htakes : r.takes e.1 (w.item e.2) = false)
  | refused (hsticks : r.sticks e.1 (w.item e.2) = false)
      (htakes : r.takes e.1 (w.item e.2) = true) (hremove : (w.item e.2).removable = false)
  | part (hsticks : r.sticks e.1 (w.item e.2) = false)
      (htakes : r.takes e.1 (w.item e.2) = true) (hremove : (w.item e.2).removable = true)
      (hless : k < (w.item e.2).supply)
  | whole (hsticks : r.sticks e.1 (w.item e.2) = false)
      (htakes : r.takes e.1 (w.item e.2) = true) (hremove : (w.item e.2).removable = true)
      (hle : (w.item e.2).supply ≤ k)

theorem meets (r : RemoveRequest) (w : World) (k : ℕ) (e : Bool × ItemId) : Meets r w k e := by
  cases hsticks : r.sticks e.1 (w.item e.2) with
  | true => exact .sticks hsticks
  | false =>
    cases htakes : r.takes e.1 (w.item e.2) with
    | false => exact .pass hsticks htakes
    | true =>
      cases hremove : (w.item e.2).removable with
      | false => exact .refused hsticks htakes hremove
      | true =>
        rcases Nat.lt_or_ge k (w.item e.2).supply with hless | hle
        · exact .part hsticks htakes hremove hless
        · exact .whole hsticks htakes hremove hle

end

/-! ## Worlds with the same items -/

theorem deal_core (hcore : ∀ j, (w'.item j).core = (w.item j).core) (k : ℕ)
    (entries : List (Bool × ItemId)) : r.deal w' k entries = r.deal w k entries := by
  induction entries generalizing k with
  | nil => rfl
  | cons e entries ih =>
    obtain ⟨nested, x⟩ := e
    simp only [deal, sticks_core (hcore x), takes_core (hcore x), removable_core (hcore x),
      supply_core (hcore x), ih]

theorem opened_core (hcore : ∀ j, (w'.item j).core = (w.item j).core) (nested : Bool)
    (items : List ItemId) : r.opened w' nested items = r.opened w nested items := by
  refine List.filter_congr fun i _ => ?_
  rw [Item.core_isContainer (hcore i), asks_core (hcore i)]

end RemoveRequest

end TyanoCore
