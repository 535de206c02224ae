import TyanoCore.RemoveRun

/-!
# When removing items of a kind ends

The loops of `Game::removeItemOfType` do not end when they come to an item that neither counts nor
is passed over while something is still to be removed.  Otherwise they do.
-/

namespace TyanoCore

variable {srv : Server} {w : World}

/-! ## Counting ends -/

theorem Player.countSlot_isSome (hw : w.Nested) {n : ℕ} (hn : w.next < n) (p : PlayerId)
    (itemId : KindId) (subType : ℤ) (includeSlots : Bool) (count slot : ℕ) :
    ∃ counted, Player.countSlot w n p itemId subType includeSlots count slot = some counted := by
  unfold Player.countSlot
  split
  · exact ⟨count, rfl⟩
  · next item _ =>
    dsimp only
    split
    · exact ⟨_, ContainerIterator.loop_eq hw item ((within_card_le w item).trans_lt hn) _ _ _⟩
    · exact ⟨_, rfl⟩

theorem Cylinder.getItemTypeCount_isSome (hw : w.Nested) {n : ℕ} (hn : w.next < n) (c : Cylinder)
    (itemId : KindId) (subType : ℤ) (includeSlots : Bool) :
    ∃ counted, Cylinder.getItemTypeCount w n c itemId subType includeSlots = some counted := by
  cases c with
  | container j => exact ⟨_, rfl⟩
  | player p =>
    obtain ⟨counted, hcounted⟩ :=
      Loop.foldlM_isSome (Player.countSlot_isSome hw hn p itemId subType includeSlots) slots 0
    refine ⟨counted % 2 ^ 32, ?_⟩
    rw [Cylinder.getItemTypeCount, Player.getItemTypeCount, hcounted]
    rfl
  | tile t => exact ⟨_, rfl⟩

/-! More rounds give the same count. -/

theorem Player.countSlot_mono {m n : ℕ} (hmn : m ≤ n) {p : PlayerId} {itemId : KindId}
    {subType : ℤ} {includeSlots : Bool} {count slot counted : ℕ}
    (h : Player.countSlot w m p itemId subType includeSlots count slot = some counted) :
    Player.countSlot w n p itemId subType includeSlots count slot = some counted := by
  unfold Player.countSlot at h ⊢
  split
  · next hslot =>
    rw [hslot] at h
    exact h
  · next item hslot =>
    rw [hslot] at h
    dsimp only at h ⊢
    split
    · next hcontainer =>
      rw [if_pos hcontainer] at h
      exact ContainerIterator.loop_mono hmn h
    · next hcontainer =>
      rw [if_neg hcontainer] at h
      exact h

theorem Cylinder.getItemTypeCount_mono {m n : ℕ} (hmn : m ≤ n) {c : Cylinder} {itemId : KindId}
    {subType : ℤ} {includeSlots : Bool} {counted : ℕ}
    (h : Cylinder.getItemTypeCount w m c itemId subType includeSlots = some counted) :
    Cylinder.getItemTypeCount w n c itemId subType includeSlots = some counted := by
  cases c with
  | container j => exact h
  | player p =>
    rw [Cylinder.getItemTypeCount, Player.getItemTypeCount, Option.map_eq_some_iff] at h ⊢
    obtain ⟨total, hfold, htotal⟩ := h
    exact ⟨total, Loop.foldlM_mono (fun _ _ _ hslot => Player.countSlot_mono hmn hslot) hfold, htotal⟩
  | tile t => exact h

theorem Cylinder.getItemTypeCount_unique {m n : ℕ} {c : Cylinder} {itemId : KindId} {subType : ℤ}
    {includeSlots : Bool} {counted counted' : ℕ}
    (h : Cylinder.getItemTypeCount w m c itemId subType includeSlots = some counted)
    (h' : Cylinder.getItemTypeCount w n c itemId subType includeSlots = some counted') :
    counted = counted' := by
  have hm := Cylinder.getItemTypeCount_mono (le_max_left m n) h
  have hn := Cylinder.getItemTypeCount_mono (le_max_right m n) h'
  exact Option.some.inj (hm.symm.trans hn)

/-! ## The beginning of the scan -/

/-- The things of a cylinder lie apart. -/
theorem World.Consistent.things_apart (hw : w.Consistent) (hnested : w.Nested) (c : Cylinder) :
    Walk.Apart w.contents (w.things c) := by
  constructor
  · exact hw.things_nodup c
  · intro a ha b hb h
    have hpa := (hw.mem_things c a).mp ha
    have hpb := (hw.mem_things c b).mp hb
    exact hnested.acyclic a ((hnested.below_iff.mp h).sibling (hpa.trans hpb.symm))

namespace RemoveRequest

variable {r : RemoveRequest}

/-- The variables before the first round. -/
def start (r : RemoveRequest) (w : World) (count : ℤ) : RemoveScan :=
  { world := w, i := r.cylinder.getFirstIndex, count := count }

theorem openedIn_sublist (r : RemoveRequest) (w : World) (j : ItemId) :
    (r.openedIn w j).Sublist (w.contents j) := List.filter_sublist

theorem openedIn_forest (hnested : w.Nested) (r : RemoveRequest) :
    Walk.IsForest (r.openedIn w) :=
  hnested.contents_forest.of_sublist (openedIn_sublist r w)

/-- A container does not lie within itself, so it is not entered when it is gone through. -/
theorem cylinder_ne_entered (hnested : w.Nested) {j : ItemId}
    (hj : j ∈ r.entered w) : r.cylinder ≠ .container j := by
  intro heq
  obtain ⟨a, ha, haj⟩ := Walk.visit_below hj
  have hmem := (List.mem_filter.mp ha).1
  rw [heq] at hmem
  exact hnested.contents_forest.acyclic j
    (.of_child hmem (haj.imp_right (·.of_sublist (openedIn_sublist r w))))

section

variable (hw : w.Consistent) (hnested : w.Nested) (r : RemoveRequest)

include hw hnested

theorem opened_apart : Walk.Apart (r.openedIn w) (r.opened w false (w.things r.cylinder)) :=
  (hw.things_apart hnested r.cylinder).of_sublist (openedIn_sublist r w) List.filter_sublist

/-- The containers that are entered are a walk to its end. -/
theorem visits_entered :
    Walk.Visits (r.openedIn w) (r.opened w false (w.things r.cylinder)) (r.entered w) := by
  refine Walk.visits_visit (openedIn_forest hnested r) (opened_apart hw hnested r)
    (s := Finset.range w.next) ?_ (Finset.card_range _).le
  intro a ha b hab
  rw [Finset.mem_range]
  rcases hab with rfl | hab
  · have hthing := (List.mem_filter.mp ha).1
    exact hnested.lt_next b _ ((hw.mem_things r.cylinder b).mp hthing)
  · have hwithin := hnested.below_iff.mp (hab.of_sublist (openedIn_sublist r w))
    obtain ⟨place, hplace, -⟩ := hwithin.place
    exact hnested.lt_next b place hplace

theorem entered_nodup : (r.entered w).Nodup :=
  Walk.visit_nodup (openedIn_forest hnested r) (opened_apart hw hnested r)

/-- Before the first round everything is ahead. -/
theorem ahead_start (count : ℤ) :
    Ahead r (r.start w count) [] (r.cylinder.cells w) (r.entered w) := by
  refine ⟨hw, rfl, (Nat.add_zero _).symm, ?_, entered_nodup hw hnested r,
    fun j hj => cylinder_ne_entered hnested hj⟩
  change Walk.Visits (r.openedIn w) (r.opened w false (r.cylinder.cells w).reduceOption) _
  rw [Cylinder.reduceOption_cells]
  exact visits_entered hw hnested r

end

/-- The loops do what the deal about the whole scan says. -/
theorem dealt_start (hsrv : srv.Quiet) (hw : w.Consistent) (hnested : w.Nested) (r : RemoveRequest)
    (count : ℕ) : Dealt srv r (r.start w count) (r.deal w count (r.scanned w)) := by
  have hfollows := follows hsrv r _ _ _ _ count (ahead_start hw hnested r count) rfl
  rw [ahead, Cylinder.reduceOption_cells] at hfollows
  exact hfollows

/-! ## Where the loops stick -/

/-- How much the loops get from the items that they take. -/
def taken (r : RemoveRequest) (w : World) (entries : List (Bool × ItemId)) : ℕ :=
  ((entries.filter fun e => r.takes e.1 (w.item e.2)).map fun e => (w.item e.2).supply).sum

/-- The loops come to an item that they stick at, with something still to be removed. -/
def SticksIn (r : RemoveRequest) (w : World) (count : ℕ) (entries : List (Bool × ItemId)) : Prop :=
  ∃ before e after, entries = before ++ e :: after ∧ r.sticks e.1 (w.item e.2) = true ∧
    (∀ e ∈ before, r.takes e.1 (w.item e.2) = true → (w.item e.2).removable = true) ∧
    r.taken w before < count

theorem taken_cons (e : Bool × ItemId) (entries : List (Bool × ItemId)) :
    r.taken w (e :: entries) =
      (if r.takes e.1 (w.item e.2) then (w.item e.2).supply else 0) + r.taken w entries := by
  unfold taken
  rw [List.filter_cons]
  split
  · rw [List.map_cons, List.sum_cons]
  · rw [Nat.zero_add]

/-- An item that the loops do not stick at is before the one that they stick at. -/
theorem sticksIn_cons {count : ℕ} {e : Bool × ItemId} {entries : List (Bool × ItemId)}
    (hsticks : r.sticks e.1 (w.item e.2) = false) :
    r.SticksIn w count (e :: entries) ↔
      (r.takes e.1 (w.item e.2) = true → (w.item e.2).removable = true) ∧
        r.SticksIn w (count - if r.takes e.1 (w.item e.2) then (w.item e.2).supply else 0)
          entries := by
  constructor
  · rintro ⟨before, stuck, after, heq, hstuck, hremove, hless⟩
    cases before with
    | nil =>
      obtain ⟨rfl, -⟩ := List.cons.inj heq
      rw [hsticks] at hstuck
      cases hstuck
    | cons first before =>
      obtain ⟨rfl, htail⟩ := List.cons.inj heq
      rw [List.forall_mem_cons] at hremove
      rw [taken_cons] at hless
      exact ⟨hremove.1, before, stuck, after, htail, hstuck, hremove.2, by omega⟩
  · rintro ⟨hfirst, before, stuck, after, heq, hstuck, hremove, hless⟩
    refine ⟨e :: before, stuck, after, congrArg (e :: ·) heq, hstuck, ?_, ?_⟩
    · exact List.forall_mem_cons.mpr ⟨hfirst, hremove⟩
    · rw [taken_cons]
      omega

theorem not_sticksIn_zero (entries : List (Bool × ItemId)) : ¬ r.SticksIn w 0 entries := by
  rintro ⟨before, stuck, after, -, -, -, hless⟩
  omega

/-- There is no deal where the loops stick. -/
theorem deal_eq_none (r : RemoveRequest) (w : World) (count : ℕ)
    (entries : List (Bool × ItemId)) :
    r.deal w count entries = none ↔ r.SticksIn w count entries := by
  induction entries generalizing count with
  | nil =>
    refine iff_of_false (by simp [deal]) ?_
    rintro ⟨before, e, after, heq, -⟩
    cases before <;> cases heq
  | cons e entries ih =>
    rcases Nat.eq_zero_or_pos count with rfl | hpos
    · rw [deal_zero]
      exact iff_of_false (by simp) (not_sticksIn_zero _)
    cases meets r w count e with
    | sticks hsticks =>
      rw [deal_sticks hpos hsticks]
      exact iff_of_true rfl ⟨[], e, entries, rfl, hsticks, by simp, hpos⟩
    | pass hsticks htakes =>
      rw [deal_pass hpos hsticks htakes, sticksIn_cons hsticks, ih]
      simp [htakes]
    | refused hsticks htakes hremove =>
      rw [deal_refused hpos hsticks htakes hremove, sticksIn_cons hsticks]
      refine iff_of_false (by simp) fun h => ?_
      exact Bool.false_ne_true (hremove.symm.trans (h.1 htakes))
    | part hsticks htakes hremove hless =>
      -- nothing is left for the items behind
      rw [deal_part hpos hsticks htakes hremove hless, sticksIn_cons hsticks, if_pos htakes,
        Nat.sub_eq_zero_of_le hless.le]
      exact iff_of_false (by simp) fun h => not_sticksIn_zero _ h.2
    | whole hsticks htakes hremove hle =>
      rw [deal_whole hpos hsticks htakes hremove hle, sticksIn_cons hsticks, if_pos htakes,
        Option.map_eq_none_iff, ih]
      simp [hremove]

/-- The loops come to an item that they do not get past. -/
def GetsStuck (r : RemoveRequest) (w : World) (count : ℕ) : Prop :=
  r.SticksIn w count (r.scanned w)

theorem gives_iff (hsrv : srv.Quiet) (hw : w.Consistent) (hnested : w.Nested) (r : RemoveRequest)
    (count : ℕ) :
    (∃ b, Loop.Gives (r.round srv) (r.start w count) b) ↔ ¬ r.GetsStuck w count := by
  have hdealt := dealt_start hsrv hw hnested r count
  rw [GetsStuck, ← deal_eq_none]
  cases hdeal : r.deal w count (r.scanned w) with
  | none =>
    rw [hdeal] at hdealt
    exact iff_of_false (fun ⟨b, hb⟩ => hdealt b hb) (not_not.mpr rfl)
  | some d =>
    rw [hdeal] at hdealt
    obtain ⟨w', -, hgives⟩ := hdealt
    exact iff_of_true ⟨_, hgives⟩ (by simp)

end RemoveRequest

/-! ## The whole function -/

/-- Less is counted than is to be removed; the count is compared as an `int32_t`. -/
def Cylinder.HasTooFew (w : World) (c : Cylinder) (itemId : KindId) (count : ℤ) (subType : ℤ)
    (includeSlots : Bool) : Prop :=
  ∃ n counted, Cylinder.getItemTypeCount w n c itemId subType includeSlots = some counted ∧
    (counted : ℤ).bmod (2 ^ 32) < count

section

variable {n counted : ℕ} {c : Cylinder} {itemId : KindId} {count subType : ℤ} {includeSlots : Bool}

theorem removeItemOfType_eq
    (hcounted : Cylinder.getItemTypeCount w n c itemId subType includeSlots = some counted) :
    Game.removeItemOfType srv w n (some c) itemId count subType includeSlots =
      if (counted : ℤ).bmod (2 ^ 32) < count then some (w, false)
      else if count ≤ 0 then some (w, true)
      else Loop.run (RemoveRequest.round srv ⟨c, itemId, subType, includeSlots⟩) n
        (RemoveRequest.start ⟨c, itemId, subType, includeSlots⟩ w count) := by
  simp only [Game.removeItemOfType, hcounted]
  rfl

/-- A result means that the count is known, and comes from the loops when there is enough. -/
theorem removeItemOfType_result {result : World × Bool}
    (h : Game.removeItemOfType srv w n (some c) itemId count subType includeSlots = some result) :
    ∃ counted, Cylinder.getItemTypeCount w n c itemId subType includeSlots = some counted ∧
      (count ≤ (counted : ℤ).bmod (2 ^ 32) → 0 < count →
        Loop.Gives (RemoveRequest.round srv ⟨c, itemId, subType, includeSlots⟩)
          (RemoveRequest.start ⟨c, itemId, subType, includeSlots⟩ w count.toNat) result) := by
  cases hcounted : Cylinder.getItemTypeCount w n c itemId subType includeSlots with
  | none => simp [Game.removeItemOfType, hcounted] at h
  | some counted =>
    refine ⟨counted, rfl, fun hle hpos => ⟨n, ?_⟩⟩
    rw [removeItemOfType_eq hcounted, if_neg (by omega), if_neg (by omega)] at h
    rwa [Int.toNat_of_nonneg hpos.le]

end

/-- `Game::removeItemOfType` returns if and only if too little is counted, nothing is to be removed
or the loops do not come to an item that they stick at. -/
theorem removeItemOfType_returns_iff (hsrv : srv.Quiet) (hw : w.Consistent) (hnested : w.Nested)
    (c : Cylinder) (itemId : KindId) (count subType : ℤ) (includeSlots : Bool) :
    (∃ n result, Game.removeItemOfType srv w n (some c) itemId count subType includeSlots =
        some result) ↔
      Cylinder.HasTooFew w c itemId count subType includeSlots ∨ count ≤ 0 ∨
        ¬ RemoveRequest.GetsStuck ⟨c, itemId, subType, includeSlots⟩ w count.toNat := by
  constructor
  · rintro ⟨n, result, hresult⟩
    obtain ⟨counted, hcounted, hgives⟩ := removeItemOfType_result hresult
    by_cases hfew : (counted : ℤ).bmod (2 ^ 32) < count
    · exact .inl ⟨n, counted, hcounted, hfew⟩
    by_cases hcount : count ≤ 0
    · exact .inr (.inl hcount)
    · have hgives := hgives (Int.not_lt.mp hfew) (Int.not_le.mp hcount)
      exact .inr (.inr ((RemoveRequest.gives_iff hsrv hw hnested _ _).mp ⟨result, hgives⟩))
  · have hcounts {n : ℕ} (hn : w.next < n) :=
      Cylinder.getItemTypeCount_isSome hnested hn c itemId subType includeSlots
    rintro (⟨n, counted, hcounted, hfew⟩ | hcount | hstuck)
    · exact ⟨n, (w, false), by rw [removeItemOfType_eq hcounted, if_pos hfew]⟩
    · obtain ⟨counted, hcounted⟩ := hcounts (Nat.lt_succ_self w.next)
      refine ⟨w.next + 1, ?_⟩
      rw [removeItemOfType_eq hcounted, if_pos hcount]
      split
      · exact ⟨_, rfl⟩
      · exact ⟨_, rfl⟩
    · obtain ⟨result, m, hrun⟩ := (RemoveRequest.gives_iff hsrv hw hnested _ _).mpr hstuck
      obtain ⟨counted, hcounted⟩ := hcounts (lt_max_of_lt_right (Nat.lt_succ_self w.next))
      refine ⟨max m (w.next + 1), ?_⟩
      rw [removeItemOfType_eq hcounted]
      split
      · exact ⟨_, rfl⟩
      split
      · exact ⟨_, rfl⟩
      · next hcount =>
        rw [Int.toNat_of_nonneg (by omega)] at hrun
        exact ⟨result, Loop.run_mono (le_max_left _ _) hrun⟩

namespace SmallWorld

/-- A fluid container; its sub-type is the fluid. -/
def vial : ItemKind := { id := 2006, group := .fluid, pickupable := true }

/-- A player with a bag on his back, and in it a vial of one fluid before a vial of another. -/
def vialsInBackpack : World :=
  World.ofLists [{ bagHolding [1, 2] with parent := some (.player 0) },
    { inBag vial with fluidType := 1 }, { inBag vial with fluidType := 2 }]
    [carrier fun s => if s = 3 then some 0 else none] []

theorem vialsInBackpack_forest : Forest (server [bag, vial]) vialsInBackpack :=
  forest_ofLists (by decide)

theorem vialsInBackpack_nested : vialsInBackpack.Nested :=
  vialsInBackpack_forest.nested_of_ordered (by decide)

theorem server_quiet (kinds : List ItemKind) : (server kinds).Quiet :=
  ⟨fun _ _ _ _ => rfl, fun _ _ _ _ _ => rfl⟩

end SmallWorld

open SmallWorld in
theorem removeItemOfType_returns_iff_vials :
    (server [bag, vial]).Quiet ∧ vialsInBackpack.Consistent ∧ vialsInBackpack.Nested ∧
      ((∃ n result, Game.removeItemOfType (server [bag, vial]) vialsInBackpack n (some (.player 0))
          2006 1 2 true = some result) ↔
        Cylinder.HasTooFew vialsInBackpack (.player 0) 2006 1 2 true ∨ (1 : ℤ) ≤ 0 ∨
          ¬ RemoveRequest.GetsStuck ⟨.player 0, 2006, 2, true⟩ vialsInBackpack 1) :=
  ⟨server_quiet _, vialsInBackpack_forest.toConsistent, vialsInBackpack_nested,
    removeItemOfType_returns_iff (server_quiet _) vialsInBackpack_forest.toConsistent
      vialsInBackpack_nested (.player 0) 2006 1 2 true⟩

open SmallWorld in
/-- The vial of the second fluid is never come to. -/
theorem removeItemOfType_never_returns :
    ¬ ∀ (srv : Server) (w : World) (c : Cylinder) (itemId : KindId) (count subType : ℤ)
      (includeSlots : Bool), srv.Quiet → w.Consistent → w.Nested →
        ∃ n result, Game.removeItemOfType srv w n (some c) itemId count subType includeSlots =
          some result := by
  intro h
  obtain ⟨n, result, hresult⟩ := h (server [bag, vial]) vialsInBackpack (.player 0) 2006 1 2 true
    (server_quiet _) vialsInBackpack_forest.toConsistent vialsInBackpack_nested
  have hcounted : Cylinder.getItemTypeCount vialsInBackpack 4 (.player 0) 2006 2 true = some 1 := by
    decide
  have hstuck : RemoveRequest.GetsStuck ⟨.player 0, 2006, 2, true⟩ vialsInBackpack 1 :=
    ⟨[(false, 0)], (true, 1), [(true, 2)], by decide, by decide, by decide, by decide⟩
  obtain ⟨counted, hcounted', hgives⟩ := removeItemOfType_result hresult
  rw [Cylinder.getItemTypeCount_unique hcounted' hcounted] at hgives
  have hgives := hgives (by decide) (by decide)
  exact (RemoveRequest.gives_iff (server_quiet _) vialsInBackpack_forest.toConsistent
    vialsInBackpack_nested _ _).mp ⟨result, hgives⟩ hstuck

end TyanoCore
