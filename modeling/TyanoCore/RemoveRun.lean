import TyanoCore.RemoveScan

/-!
# The loops follow the scan

A round goes past an item, takes it or begins the next container; what is ahead of the loops stays
what the scan says.  So the loops end with what the deal says, or stick where it says nothing.
-/

namespace TyanoCore

open RemoveRequest

variable {srv : Server} {w w' w'' : World}

/-! ## Several items that are gone -/

/-- The items have been taken out of whatever held them. -/
structure Emptied (w w' : World) (gone : List ItemId) : Prop where
  core : ∀ j, (w'.item j).core = (w.item j).core
  parent : ∀ j, (w'.item j).parent = if j ∈ gone then none else (w.item j).parent
  next : w'.next = w.next
  consistent : w'.Consistent

theorem Emptied.refl (hw : w.Consistent) : Emptied w w [] :=
  ⟨fun _ => rfl, fun _ => (if_neg List.not_mem_nil).symm, rfl, hw⟩

theorem Emptied.cons {x : ItemId} {gone : List ItemId} (h : Erased w w' x)
    (hrest : Emptied w' w'' gone) : Emptied w w'' (x :: gone) := by
  refine ⟨fun j => (hrest.core j).trans (h.core j), fun j => ?_, hrest.next.trans h.next,
    hrest.consistent⟩
  rw [hrest.parent, h.parent]
  by_cases hj : j = x <;> simp [hj]

namespace RemoveRequest

variable {r : RemoveRequest} {s : RemoveScan}

/-! ## What is ahead -/

/-- The position in the cells of the place, and the containers that are still to be entered. -/
structure Ahead (r : RemoveRequest) (s : RemoveScan) (before after : List (Option ItemId))
    (containers : List ItemId) : Prop where
  consistent : s.world.Consistent
  cells : (r.place s).cells s.world = before ++ after
  index : s.i = (r.place s).getFirstIndex + before.length
  walk : Walk.Visits (r.openedIn s.world)
    (s.listContainer ++ r.opened s.world s.container.isSome after.reduceOption) containers
  nodup : containers.Nodup
  apart : ∀ j ∈ containers, r.place s ≠ .container j

/-- The items that are ahead. -/
def ahead (s : RemoveScan) (after : List (Option ItemId)) (containers : List ItemId) :
    List (Bool × ItemId) := entries s.world s.container.isSome after.reduceOption containers

variable {before after : List (Option ItemId)} {containers : List ItemId} {x : ItemId}

theorem Ahead.lt_getLastIndex {o : Option ItemId} (h : Ahead r s before (o :: after) containers) :
    s.i < Cylinder.getLastIndex s.world (r.place s) := by
  rw [h.index, Cylinder.length_cells, h.cells]
  simp only [List.length_append, List.length_cons]
  omega

theorem Ahead.not_lt_getLastIndex (h : Ahead r s before [] containers) :
    ¬ s.i < Cylinder.getLastIndex s.world (r.place s) := by
  rw [h.index, Cylinder.length_cells, h.cells, List.append_nil]
  omega

/-- At the end of a place only the listed containers are to be entered. -/
theorem Ahead.waiting (h : Ahead r s before [] containers) :
    Walk.Visits (r.openedIn s.world) s.listContainer containers := by
  have hwalk := h.walk
  rw [List.reduceOption_nil, opened, List.filter_nil, List.append_nil] at hwalk
  exact hwalk

theorem Ahead.getThing {o : Option ItemId} (h : Ahead r s before (o :: after) containers) :
    Cylinder.getThing s.world (r.place s) s.i = o := by
  rw [h.index, Cylinder.getThing_cells, h.cells]
  simp

theorem Ahead.mem_things (h : Ahead r s before (some x :: after) containers) :
    x ∈ s.world.things (r.place s) := by
  rw [← Cylinder.reduceOption_cells, h.cells, List.reduceOption_mem_iff]
  exact List.mem_append_right _ List.mem_cons_self

/-! ## Rounds -/

variable (srv) in
/-- When the count is used up, the loops end. -/
theorem round_paid (hcount : s.count = 0) : r.round srv s = .inr (s.world, true) := by
  unfold round
  rw [if_neg (by omega)]
  split
  · simp [hcount]
  · rw [if_neg (by omega)]
    simp [hcount]

variable (srv) in
/-- At an empty cell the index goes on. -/
theorem round_none (h : Ahead r s before (none :: after) containers) (hcount : 0 < s.count) :
    r.round srv s = .inl { s with i := s.i + 1 } := by
  unfold round
  rw [if_pos ⟨h.lt_getLastIndex, hcount⟩, h.getThing]

variable (srv) in
theorem round_some (h : Ahead r s before (some x :: after) containers) (hcount : 0 < s.count) :
    r.round srv s = .inl (if r.asks s.container.isSome (s.world.item x) then r.take srv s x
      else pass s x) := by
  unfold round
  rw [if_pos ⟨h.lt_getLastIndex, hcount⟩, h.getThing]
  dsimp only
  split <;> rfl

variable (srv) in
/-- At the end of a place the next container begins. -/
theorem round_next {j : ItemId} (h : Ahead r s before [] (j :: containers))
    (hcount : 0 < s.count) :
    ∃ s', r.round srv s = .inl s' ∧ s'.world = s.world ∧ s'.count = s.count ∧
      s'.container = some j ∧ Ahead r s' [] ((s.world.item j).itemlist.map some) containers := by
  have hwalk := h.waiting
  unfold round
  rw [if_neg fun hlt => h.not_lt_getLastIndex hlt.1]
  generalize hlist : s.listContainer = list at hwalk
  cases hwalk with
  | @cons _ queue _ hwalk =>
    dsimp only
    rw [if_pos hcount]
    refine ⟨_, rfl, rfl, rfl, rfl, h.consistent, rfl, rfl, ?_, ?_, ?_⟩
    · rw [reduceOption_map_some]
      exact hwalk
    · exact (List.nodup_cons.mp h.nodup).2
    · intro k hk heq
      cases heq
      exact (List.nodup_cons.mp h.nodup).1 hk

/-- Nothing is ahead any more. -/
theorem round_end (h : Ahead r s before [] []) :
    r.round srv s = .inr (s.world, decide (s.count = 0)) := by
  have hwalk := h.waiting
  unfold round
  rw [if_neg fun hlt => h.not_lt_getLastIndex hlt.1]
  generalize s.listContainer = list at hwalk
  cases hwalk
  rfl

/-! ## Going past an item -/

theorem Ahead.advance {o : Option ItemId} (h : Ahead r s before (o :: after) containers)
    {list : List ItemId}
    (hlist : list ++ r.opened s.world s.container.isSome after.reduceOption =
      s.listContainer ++ r.opened s.world s.container.isSome (o :: after).reduceOption) :
    Ahead r { s with i := s.i + 1, listContainer := list } (before ++ [o]) after containers := by
  refine ⟨h.consistent, ?_, ?_, ?_, h.nodup, h.apart⟩
  · exact h.cells.trans (List.append_cons before o after)
  · rw [List.length_append, List.length_singleton, ← Nat.add_assoc]
    exact congrArg (· + 1) h.index
  · exact hlist ▸ h.walk

theorem Ahead.pass (h : Ahead r s before (some x :: after) containers)
    (hasks : r.asks s.container.isSome (s.world.item x) = false) :
    Ahead r (pass s x) (before ++ [some x]) after containers := by
  refine h.advance ?_
  rw [List.reduceOption_cons_of_some, opened, opened, List.filter_cons, hasks, Bool.not_false,
    Bool.and_true]
  split
  · exact List.append_assoc _ _ _
  · rfl

/-- An item that is asked for is not looked into. -/
theorem opened_of_asks {nested : Bool} (hasks : r.asks nested (w.item x) = true)
    (items : List ItemId) : r.opened w nested (x :: items) = r.opened w nested items := by
  rw [opened, opened, List.filter_cons, hasks, Bool.not_true, Bool.and_false,
    if_neg Bool.false_ne_true]

theorem Ahead.skip (h : Ahead r s before (some x :: after) containers)
    (hasks : r.asks s.container.isSome (s.world.item x) = true) :
    Ahead r { s with i := s.i + 1 } (before ++ [some x]) after containers := by
  refine h.advance ?_
  rw [List.reduceOption_cons_of_some, opened_of_asks hasks]

/-- What is removed from the place lies in no container that is still to be entered. -/
theorem Ahead.itemlist (h : Ahead r s before (some x :: after) containers)
    (he : Erased s.world w' x) {j : ItemId} (hj : j ∈ containers) :
    (w'.item j).itemlist = (s.world.item j).itemlist := by
  rw [he.itemlist]
  exact (itemlist_lacks_self h.consistent h.mem_things (h.apart j hj).symm).symm

/-- A whole item has been taken. -/
theorem Ahead.erase (h : Ahead r s before (some x :: after) containers)
    (hasks : r.asks s.container.isSome (s.world.item x) = true) (he : Erased s.world w' x)
    (count : ℤ) :
    ∃ gap, (gap = [] ∨ gap = [none]) ∧
      Ahead r { s with world := w', count := count } before (gap ++ after) containers := by
  obtain ⟨gap, hgap, hcells⟩ := he.cells h.consistent h.cells
  have hreduce : (gap ++ after).reduceOption = after.reduceOption := by
    rcases hgap with rfl | rfl <;> rfl
  refine ⟨gap, hgap, he.consistent h.consistent, ?_, h.index, ?_, h.nodup, h.apart⟩
  · exact hcells.trans (List.append_assoc _ _ _)
  · have hwalk := h.walk
    rw [List.reduceOption_cons_of_some, opened_of_asks hasks] at hwalk
    dsimp only
    rw [hreduce, opened_core he.core]
    refine hwalk.congr fun j hj => ?_
    rw [openedIn, openedIn, opened_core he.core, h.itemlist he hj]

/-! ## Taking an item -/

variable (srv) in
theorem take_sticks (hcount : 0 < s.count)
    (hsticks : r.sticks s.container.isSome (s.world.item x) = true) : r.take srv s x = s := by
  unfold sticks at hsticks
  rw [Bool.and_eq_true] at hsticks
  obtain ⟨-, hsticks⟩ := hsticks
  unfold take
  dsimp only
  split at hsticks
  · next hstack =>
    have hzero := of_decide_eq_true hsticks
    have hsame : (Game.internalRemoveItem srv s.world x none false {}).1 = s.world :=
      internalRemoveItem_refused srv (.inl hzero)
    rw [if_pos hstack, if_neg (by omega), hsame, hzero, Int.natCast_zero, sub_zero]
  · next hstack =>
    rw [Bool.and_eq_true, Bool.not_eq_true'] at hsticks
    obtain ⟨hnested, hsub⟩ := hsticks
    rw [if_neg hstack, hsub, if_neg Bool.false_ne_true, if_neg]
    intro hnone
    rw [hnone] at hnested
    cases hnested

variable (srv) in
theorem take_skips (hasks : r.asks s.container.isSome (s.world.item x) = true)
    (htakes : r.takes s.container.isSome (s.world.item x) = false)
    (hsticks : r.sticks s.container.isSome (s.world.item x) = false) :
    r.take srv s x = { s with i := s.i + 1 } := by
  unfold takes at htakes
  unfold sticks at hsticks
  rw [hasks, Bool.true_and] at htakes hsticks
  rw [Bool.or_eq_false_iff] at htakes
  rw [htakes.1, htakes.2, if_neg Bool.false_ne_true, Bool.not_false, Bool.and_true] at hsticks
  unfold take
  dsimp only
  rw [htakes.1, htakes.2, if_neg Bool.false_ne_true, if_neg Bool.false_ne_true, if_pos]
  exact Option.not_isSome_iff_eq_none.mp (Bool.eq_false_iff.mp hsticks)

variable (srv) in
theorem take_whole (htakes : r.takes s.container.isSome (s.world.item x) = true)
    (hle : ((s.world.item x).supply : ℤ) ≤ s.count) :
    r.take srv s x = { s with
      world := (Game.internalRemoveItem srv s.world x none false {}).1
      count := s.count - (s.world.item x).supply } := by
  unfold takes at htakes
  rw [Bool.and_eq_true, Bool.or_eq_true] at htakes
  unfold Item.supply at hle ⊢
  unfold take
  dsimp only
  by_cases hstack : (s.world.item x).isStackable = true
  · rw [if_pos hstack] at hle ⊢
    rw [if_pos hstack, if_neg (by omega)]
  · rw [if_neg hstack] at hle ⊢
    rw [if_neg hstack, if_pos (htakes.2.resolve_left hstack)]
    rfl

variable (srv) in
theorem take_part (hcount : 0 < s.count) (hlt : s.count < (s.world.item x).supply) :
    r.take srv s x = { s with
      world := (Game.internalRemoveItem srv s.world x (some s.count.toNat) false {}).1
      count := 0 } := by
  unfold Item.supply at hlt
  split at hlt
  · next hstack =>
    unfold take
    dsimp only
    rw [if_pos hstack, if_pos hlt]
  · omega

/-! ## The loops -/

/-- The part that is taken from a stack in the end. -/
def settle (srv : Server) (w : World) : Option (ItemId × ℕ) → World
  | none => w
  | some (x, n) => (Game.internalRemoveItem srv w x (some n) false {}).1

/-- The loops do what the deal says. -/
def Dealt (srv : Server) (r : RemoveRequest) (s : RemoveScan) : Option Deal → Prop
  | none => ∀ b, ¬ Loop.Gives (r.round srv) s b
  | some d => ∃ w', Emptied s.world w' d.gone ∧
      Loop.Gives (r.round srv) s (settle srv w' d.part, decide (d.left = 0))

theorem Dealt.inl {s' : RemoveScan} {d : Option Deal} (hround : r.round srv s = .inl s')
    (hworld : s'.world = s.world) (h : Dealt srv r s' d) : Dealt srv r s d := by
  cases d with
  | none =>
    intro b hb
    exact h b ((Loop.gives_inl hround).mp hb)
  | some d =>
    obtain ⟨w', hw', hgives⟩ := h
    exact ⟨w', hworld ▸ hw', (Loop.gives_inl hround).mpr hgives⟩

theorem Dealt.erased {s' : RemoveScan} {d : Option Deal} (hround : r.round srv s = .inl s')
    (he : Erased s.world s'.world x) (h : Dealt srv r s' d) :
    Dealt srv r s (d.map fun d => { d with gone := x :: d.gone }) := by
  cases d with
  | none =>
    intro b hb
    exact h b ((Loop.gives_inl hround).mp hb)
  | some d =>
    obtain ⟨w', hw', hgives⟩ := h
    exact ⟨w', .cons he hw', (Loop.gives_inl hround).mpr hgives⟩

/-- From wherever this is ahead the loops do what the deal says. -/
def Follows (srv : Server) (r : RemoveRequest) (after : List (Option ItemId))
    (containers : List ItemId) : Prop :=
  ∀ (s : RemoveScan) (before : List (Option ItemId)) (k : ℕ),
    Ahead r s before after containers → s.count = k →
      Dealt srv r s (r.deal s.world k (ahead s after containers))

variable (srv) in
theorem dealt_zero (h : Ahead r s before after containers) (hcount : s.count = 0)
    (entries : List (Bool × ItemId)) : Dealt srv r s (r.deal s.world 0 entries) := by
  rw [deal_zero]
  exact ⟨s.world, .refl h.consistent, (Loop.gives_inr (round_paid srv hcount)).mpr rfl⟩

theorem follows_end : Follows srv r [] [] := by
  intro s before k h hcount
  refine ⟨s.world, .refl h.consistent, (Loop.gives_inr (round_end h)).mpr ?_⟩
  rw [hcount]
  simp [settle]

theorem follows_next {j : ItemId} (h : ∀ after, Follows srv r after containers) :
    Follows srv r [] (j :: containers) := by
  intro s before k ha hcount
  rcases Nat.eq_zero_or_pos k with rfl | hpos
  · exact dealt_zero srv ha hcount _
  obtain ⟨s', hround, hworld, hcount', hcontainer, ha'⟩ := round_next srv ha (by omega)
  refine .inl hround hworld ?_
  have hahead : ahead s' ((s.world.item j).itemlist.map some) containers =
      ahead s [] (j :: containers) := by
    rw [ahead, ahead, hworld, hcontainer, reduceOption_map_some]
    rfl
  have hdealt := h _ s' [] k ha' (hcount'.trans hcount)
  rwa [hahead, hworld] at hdealt

theorem follows_none (h : Follows srv r after containers) :
    Follows srv r (none :: after) containers := by
  intro s before k ha hcount
  rcases Nat.eq_zero_or_pos k with rfl | hpos
  · exact dealt_zero srv ha hcount _
  refine .inl (round_none srv ha (by omega)) rfl ?_
  exact h _ _ k (ha.advance rfl) hcount

theorem supply_pos {item : Item} {nested : Bool} (htakes : r.takes nested item = true)
    (hsticks : r.sticks nested item = false) : 0 < item.supply := by
  unfold sticks at hsticks
  rw [asks_of_takes htakes, Bool.true_and] at hsticks
  unfold Item.supply
  split
  · next hstack =>
    rw [if_pos hstack] at hsticks
    exact Nat.pos_of_ne_zero (of_decide_eq_false hsticks)
  · exact Nat.one_pos

/-- An item that may not be removed stays, whatever part of it is to go. -/
theorem internalRemoveItem_of_not_removable (srv : Server) {i : ItemId}
    (hremove : (w.item i).removable = false) {count : Option ℕ}
    (hcount : ∀ n ∈ count, 0 < (w.item i).count) :
    (Game.internalRemoveItem srv w i count false {}).1 = w := by
  unfold Item.removable at hremove
  rw [Bool.and_eq_false_iff] at hremove
  refine internalRemoveItem_refused srv ?_
  rcases hremove with hremove | hzero
  · exact .inr hremove
  · have hzero : (w.item i).count = 0 := of_decide_eq_true (by simpa using hzero)
    cases count with
    | none => exact .inl hzero
    | some n => exact absurd (hcount n rfl) (by omega)

/-- An item that may not be removed is tried until the count is used up. -/
theorem gives_refused (h : Ahead r s before (some x :: after) containers)
    (htakes : r.takes s.container.isSome (s.world.item x) = true)
    (hsticks : r.sticks s.container.isSome (s.world.item x) = false)
    (hremove : (s.world.item x).removable = false) {n : ℕ} (hcount : s.count = n) :
    Loop.Gives (r.round srv) s (s.world, true) := by
  have hasks := asks_of_takes htakes
  have hsupply := supply_pos htakes hsticks
  -- on the count, which every round reduces
  induction n using Nat.strong_induction_on generalizing s with
  | h n ih =>
  rcases Nat.eq_zero_or_pos n with rfl | hpos
  · exact (Loop.gives_inr (round_paid srv hcount)).mpr rfl
  have hround := round_some srv h (by omega)
  rw [if_pos hasks] at hround
  have hnext (m : ℕ) (hm : m < n) :
      Loop.Gives (r.round srv) { s with count := m } (s.world, true) :=
    ih m hm ⟨h.consistent, h.cells, h.index, h.walk, h.nodup, h.apart⟩ htakes hsticks hremove rfl
      hasks hsupply
  rw [Loop.gives_inl hround]
  by_cases hle : (s.world.item x).supply ≤ n
  · have hleft : s.count - (s.world.item x).supply = (n - (s.world.item x).supply : ℕ) := by
      omega
    rw [take_whole srv htakes (by omega),
      internalRemoveItem_of_not_removable srv hremove (by simp), hleft]
    exact hnext _ (by omega)
  · have hstack : 0 < (s.world.item x).count := by
      unfold Item.supply at hle
      split at hle <;> omega
    rw [take_part srv (by omega) (by omega),
      internalRemoveItem_of_not_removable srv hremove fun _ _ => hstack]
    exact hnext 0 hpos

/-- What is ahead after a whole item has been taken. -/
theorem Ahead.ahead_erase (h : Ahead r s before (some x :: after) containers)
    (he : Erased s.world w' x) {gap : List (Option ItemId)} (hgap : gap = [] ∨ gap = [none])
    {count : ℤ} :
    ahead { s with world := w', count := count } (gap ++ after) containers =
      entries s.world s.container.isSome after.reduceOption containers := by
  have hreduce : (gap ++ after).reduceOption = after.reduceOption := by
    rcases hgap with rfl | rfl <;> rfl
  rw [ahead, hreduce, entries, entries]
  congr 1
  exact List.flatMap_congr fun j hj => by rw [h.itemlist he hj]

theorem follows_gap (h : Follows srv r after containers) {gap : List (Option ItemId)}
    (hgap : gap = [] ∨ gap = [none]) : Follows srv r (gap ++ after) containers := by
  rcases hgap with rfl | rfl
  · exact h
  · exact follows_none h

theorem follows_some (hsrv : srv.Quiet) (h : Follows srv r after containers) :
    Follows srv r (some x :: after) containers := by
  intro s before k ha hcount
  rcases Nat.eq_zero_or_pos k with rfl | hpos
  · exact dealt_zero srv ha hcount _
  have hround := round_some srv ha (by omega)
  rw [ahead, List.reduceOption_cons_of_some, entries, List.map_cons, List.cons_append]
  cases meets r s.world k (s.container.isSome, x) with
  | sticks hsticks =>
    -- the loops stay where they are
    have hasks := (Bool.and_eq_true_iff.mp hsticks).1
    rw [if_pos hasks, take_sticks srv (by omega) hsticks] at hround
    rw [deal_sticks hpos hsticks]
    exact fun b => Loop.not_gives_of_stays hround
  | pass hsticks htakes =>
    rw [deal_pass hpos hsticks htakes]
    by_cases hasks : r.asks s.container.isSome (s.world.item x) = true
    · rw [if_pos hasks, take_skips srv hasks htakes hsticks] at hround
      exact .inl hround rfl (h _ _ k (ha.skip hasks) hcount)
    · rw [if_neg hasks] at hround
      exact .inl hround rfl (h _ _ k (ha.pass (Bool.eq_false_iff.mpr hasks)) hcount)
  | refused hsticks htakes hremove =>
    rw [deal_refused hpos hsticks htakes hremove]
    exact ⟨s.world, .refl ha.consistent, gives_refused ha htakes hsticks hremove hcount⟩
  | part hsticks htakes hremove hless =>
    -- a part of the stack is enough, and the round after this one is the last
    dsimp only at hless
    rw [if_pos (asks_of_takes htakes), take_part srv (x := x) (by omega) (by omega)] at hround
    rw [deal_part hpos hsticks htakes hremove hless]
    refine ⟨s.world, .refl ha.consistent, (Loop.gives_inl hround).mpr ?_⟩
    refine (Loop.gives_inr (round_paid srv rfl)).mpr ?_
    rw [settle, hcount]
    rfl
  | whole hsticks htakes hremove hle =>
    -- the place closes up behind the item, or a gap is left in a slot
    dsimp only at hle
    have hasks := asks_of_takes htakes
    rw [if_pos hasks, take_whole srv (x := x) htakes (by omega)] at hround
    rw [deal_whole hpos hsticks htakes hremove hle]
    have he := internalRemoveItem_erased hsrv ha.consistent ha.mem_things
      (Item.count_ne_zero_of_removable hremove) (Item.canRemove_of_removable hremove)
    obtain ⟨gap, hgap, ha'⟩ := ha.erase hasks he (s.count - (s.world.item x).supply)
    have hleft : s.count - (s.world.item x).supply = (k - (s.world.item x).supply : ℕ) := by
      omega
    have hdealt := follows_gap h hgap _ _ _ ha' hleft
    rw [ha.ahead_erase he hgap, deal_core he.core] at hdealt
    exact hdealt.erased hround he

/-- From wherever they are, the loops do what the deal says about the items ahead. -/
theorem follows (hsrv : srv.Quiet) (r : RemoveRequest) (after : List (Option ItemId))
    (containers : List ItemId) : Follows srv r after containers := by
  have hplace {containers : List ItemId} (hend : Follows srv r [] containers)
      (after : List (Option ItemId)) : Follows srv r after containers := by
    induction after with
    | nil => exact hend
    | cons o after ih =>
      cases o with
      | none => exact follows_none ih
      | some x => exact follows_some hsrv ih
  induction containers generalizing after with
  | nil => exact hplace follows_end after
  | cons j containers ih => exact hplace (follows_next ih) after

end RemoveRequest

end TyanoCore
