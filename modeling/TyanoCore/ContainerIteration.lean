import TyanoCore.ContainerWeight
import TyanoCore.Loop

/-!
# Iterating over a container

The iterator goes through the list of a container and remembers the containers it has passed that
hold anything; at the end of a list it goes on with the first of them.  It meets the items in the
order of a walk in breadth.
-/

namespace TyanoCore

/-- `over` is the queue of the containers, of which the first one is being gone through; `current`
is the position in its list. -/
structure ContainerIterator where
  base : ItemId
  «over» : List ItemId := []
  current : ℕ := 0

namespace Container

variable (w : World)

def empty (j : ItemId) : Bool := (w.item j).itemlist.isEmpty

/-- `Container::begin`. -/
def begin (j : ItemId) : ContainerIterator :=
  if empty w j then { base := j } else { base := j, «over» := [j], current := 0 }

/-- `Container::end`. -/
def finish (j : ItemId) : ContainerIterator := { base := j }

end Container

namespace ContainerIterator

variable (w : World)

/-- `operator!=`. -/
def differs (it rhs : ContainerIterator) : Bool :=
  if it.base ≠ rhs.base then true
  else
    match it.over, rhs.over with
    | [], [] => false
    | [], _ => true
    | _, [] => true
    | front :: _, front' :: _ => if front ≠ front' then true else it.current ≠ rhs.current

/-- `operator*`; `none` when there is no item at the position. -/
def deref (it : ContainerIterator) : Option ItemId :=
  it.over.head?.bind fun front => (w.item front).itemlist[it.current]?

/-- `operator++`. -/
def increment (it : ContainerIterator) : Option ContainerIterator :=
  match it.over with
  | [] => none
  | front :: rest =>
    (it.deref w).map fun item =>
      let passed := if (w.item item).isContainer ∧ !Container.empty w item then [item] else []
      if it.current + 1 = (w.item front).itemlist.length then
        match rest ++ passed with
        | [] => { it with «over» := [], current := it.current + 1 }
        | queue => { it with «over» := queue, current := 0 }
      else { it with «over» := front :: rest ++ passed, current := it.current + 1 }

/-- A round of a loop over all items in a container: what is done with an item either goes on or
ends the loop.  The result is `none` where an iterator is used at its end. -/
def round {β γ : Type} (j : ItemId) (step : β → ItemId → β ⊕ γ) (done : β → γ) :
    ContainerIterator × β → (ContainerIterator × β) ⊕ Option γ
  | (it, b) =>
    if it.differs (Container.finish j) then
      match it.deref w with
      | none => .inr none
      | some item =>
        match step b item with
        | .inr result => .inr (some result)
        | .inl b =>
          match it.increment w with
          | none => .inr none
          | some it => .inl (it, b)
    else .inr (some (done b))

/-- The loop from `begin` to `end`. -/
def loop {β γ : Type} (n : ℕ) (j : ItemId) (step : β → ItemId → β ⊕ γ) (done : β → γ) (b : β) :
    Option γ :=
  (Loop.run (round w j step done) n (Container.begin w j, b)).join

end ContainerIterator

namespace Container

variable (w : World)

/-- The items that the loop meets, in its order. -/
def visited (n : ℕ) (j : ItemId) : Option (List ItemId) :=
  ContainerIterator.loop w n j (fun items i => .inl (items ++ [i])) id []

/-- `Container::getItemHoldingCount`. -/
def getItemHoldingCount (n : ℕ) (j : ItemId) : Option ℕ :=
  ContainerIterator.loop w n j (fun counter _ => .inl (counter + 1)) id 0

/-- `Container::isHoldingItem`. -/
def isHoldingItem (n : ℕ) (j item : ItemId) : Option Bool :=
  ContainerIterator.loop w n j (fun _ i => if i = item then .inr true else .inl ())
    (fun _ => false) ()

end Container

variable {w : World}

/-! ## The walk -/

/-- What lies in an item. -/
def World.contents (w : World) (j : ItemId) : List ItemId := (w.item j).itemlist

/-- What lies below an item in the walk lies within it. -/
theorem World.Nested.below_iff (hw : w.Nested) {i j : ItemId} :
    Walk.Below w.contents j i ↔ w.Within (.container j) i := by
  constructor
  · intro h
    induction h with
    | single h => exact .thing ((hw.mem_itemlist _ j).mp h)
    | tail _ h ih => exact .nested ((hw.mem_itemlist _ _).mp h) ih
  · intro h
    induction h with
    | thing h => exact .single ((hw.mem_itemlist _ j).mpr h)
    | nested h _ ih => exact .tail ih ((hw.mem_itemlist _ _).mpr h)

theorem World.Nested.contents_forest (hw : w.Nested) : Walk.IsForest w.contents := by
  constructor
  · exact hw.nodup
  · intro j k i hj hk
    have hparent := (hw.mem_itemlist i j).mp hj
    rw [(hw.mem_itemlist i k).mp hk] at hparent
    exact (Cylinder.container.inj (Option.some.inj hparent)).symm
  · intro j h
    exact hw.acyclic j (hw.below_iff.mp h)

theorem World.Nested.contents_apart (hw : w.Nested) (j : ItemId) :
    Walk.Apart w.contents (w.contents j) := by
  constructor
  · exact hw.nodup j
  · intro a ha b hb h
    have hpa := (hw.mem_itemlist a j).mp ha
    have hpb := (hw.mem_itemlist b j).mp hb
    exact hw.acyclic a ((hw.below_iff.mp h).sibling (hpa.trans hpb.symm))

/-- The items in a container, at whatever depth, in the order of the walk. -/
noncomputable def World.walked (w : World) (j : ItemId) : List ItemId :=
  Walk.visit w.contents ((w.within j).card + 1) (w.contents j)

/-- The walk meets what is in the container, and each item once. -/
theorem World.Nested.mem_walked (hw : w.Nested) {i j : ItemId} :
    i ∈ w.walked j ↔ w.Within (.container j) i := by
  have hbelow {a b : ItemId} (ha : a ∈ w.contents j) (hab : b = a ∨ Walk.Below w.contents a b) :
      w.Within (.container j) b := hw.below_iff.mp (.of_child ha hab)
  constructor
  · intro hi
    obtain ⟨a, ha, hab⟩ := Walk.visit_below hi
    exact hbelow ha hab
  · intro hi
    obtain ⟨a, ha, hai⟩ := Relation.TransGen.head'_iff.mp (hw.below_iff.mpr hi)
    have hai' : i = a ∨ Walk.Below w.contents a i := by
      rcases Relation.reflTransGen_iff_eq_or_transGen.mp hai with rfl | hai
      · exact .inl rfl
      · exact .inr hai
    exact Walk.visit_complete hw.contents_forest (hw.contents_apart j)
      (fun a ha b hab => (mem_within hw).mpr (hbelow ha hab)) (Nat.le_succ _) ha hai'

theorem World.Nested.nodup_walked (hw : w.Nested) (j : ItemId) : (w.walked j).Nodup :=
  Walk.visit_nodup hw.contents_forest (hw.contents_apart j)

theorem World.Nested.walked_toFinset (hw : w.Nested) (j : ItemId) :
    (w.walked j).toFinset = w.within j := by
  ext i
  rw [List.mem_toFinset, hw.mem_walked, mem_within hw]

theorem World.Nested.length_walked (hw : w.Nested) (j : ItemId) :
    (w.walked j).length = (w.within j).card := by
  rw [← hw.walked_toFinset, List.toFinset_card_of_nodup (hw.nodup_walked j)]

/-! ## The iterator follows the walk -/

namespace ContainerIterator

/-- The items that the iterator has still to come to without entering another container. -/
def pending (w : World) (it : ContainerIterator) : List ItemId :=
  match it.over with
  | [] => []
  | front :: rest => (w.contents front).drop it.current ++ rest.flatMap w.contents

/-- The containers of the queue hold something, and the position is one in the first list. -/
structure Ready (w : World) (it : ContainerIterator) : Prop where
  filled : ∀ c ∈ it.over, w.contents c ≠ []
  inside : ∀ front ∈ it.over.head?, it.current < (w.contents front).length

theorem ready_begin (w : World) (j : ItemId) :
    Ready w (Container.begin w j) ∧ pending w (Container.begin w j) = w.contents j := by
  unfold Container.begin Container.empty
  split
  · next hempty =>
    refine ⟨⟨?_, ?_⟩, (List.isEmpty_iff.mp hempty).symm⟩
    · intro c hc
      cases hc
    · intro front hfront
      cases hfront
  · next hempty =>
    have hfilled : w.contents j ≠ [] := fun h => hempty (List.isEmpty_iff.mpr h)
    refine ⟨⟨List.forall_mem_singleton.mpr hfilled, ?_⟩, List.append_nil _⟩
    rintro front ⟨⟩
    exact List.length_pos_iff.mpr hfilled

/-- The loop is over when there is no container left. -/
theorem differs_finish {it : ContainerIterator} :
    it.differs (Container.finish it.base) = true ↔ it.over ≠ [] := by
  unfold differs Container.finish
  rw [if_neg (not_not.mpr rfl)]
  cases it.over with
  | nil => exact iff_of_false Bool.false_ne_true (not_not.mpr rfl)
  | cons front rest => exact iff_of_true rfl (List.cons_ne_nil front rest)

theorem Ready.over_eq_nil {it : ContainerIterator} (h : Ready w it) (hpending : pending w it = []) :
    it.over = [] := by
  unfold pending at hpending
  cases hover : it.over with
  | nil => rfl
  | cons front rest =>
    have hinside := h.inside front (by rw [hover]; rfl)
    rw [hover] at hpending
    have hdrop := (List.append_eq_nil_iff.mp hpending).1
    rw [List.drop_eq_nil_iff] at hdrop
    omega

/-- An item is appended to the walk with its contents, whether the container is remembered or
empty. -/
theorem passed_contents (hw : w.Nested) (item : ItemId) :
    (if (w.item item).isContainer ∧ !Container.empty w item then [item] else []).flatMap w.contents =
      w.contents item := by
  split
  · exact List.append_nil _
  · next hpassed =>
    by_contra hne
    obtain ⟨i, hi⟩ := List.exists_mem_of_ne_nil _ (Ne.symm hne)
    have hcontainer := (hw.container i item ((hw.mem_itemlist i item).mp hi)).1
    refine hpassed ⟨hcontainer, ?_⟩
    rw [Container.empty, Bool.not_eq_true', List.isEmpty_eq_false_iff]
    exact List.ne_nil_of_mem hi

/-- A step of the iterator is a step of the walk. -/
theorem Ready.increment (hw : w.Nested) {it : ContainerIterator} (h : Ready w it) {item : ItemId}
    {queue : List ItemId} (hpending : pending w it = item :: queue) :
    it.deref w = some item ∧ ∃ it', it.increment w = some it' ∧ Ready w it' ∧
      it'.base = it.base ∧ pending w it' = queue ++ w.contents item := by
  obtain ⟨base, containers, current⟩ := it
  cases containers with
  | nil => cases hpending
  | cons front rest =>
    have hinside : current < (w.contents front).length := h.inside front rfl
    have hpassed := passed_contents hw item
    have hcurrent : (w.contents front)[current]? = some item ∧
        (w.contents front).drop (current + 1) ++ rest.flatMap w.contents = queue := by
      unfold pending at hpending
      dsimp only at hpending
      rw [List.drop_eq_getElem_cons hinside, List.cons_append, List.cons.injEq] at hpending
      exact ⟨by rw [List.getElem?_eq_getElem hinside, hpending.1], hpending.2⟩
    obtain ⟨hitem, rfl⟩ := hcurrent
    have hderef : deref w { base, «over» := front :: rest, current } = some item := hitem
    refine ⟨hderef, ?_⟩
    unfold ContainerIterator.increment
    dsimp only
    rw [hderef, Option.map_some]
    set passed := if (w.item item).isContainer ∧ !Container.empty w item then [item] else []
      with hp
    have hlater : (rest ++ passed).flatMap w.contents = rest.flatMap w.contents ++ w.contents item := by
      rw [List.flatMap_append, hpassed]
    have hfilled : ∀ c ∈ rest ++ passed, w.contents c ≠ [] := by
      intro c hc
      rcases List.mem_append.mp hc with hc | hc
      · exact h.filled c (List.mem_cons_of_mem front hc)
      · rw [hp] at hc
        split at hc
        · next hholds =>
          obtain rfl := List.mem_singleton.mp hc
          have hnot := hholds.2
          rwa [Container.empty, Bool.not_eq_true', List.isEmpty_eq_false_iff] at hnot
        · cases hc
    refine ⟨_, rfl, ?_⟩
    split
    -- at the end of the list the next container begins, which may be the one just passed
    · next hend =>
      have hrest : (w.contents front).drop (current + 1) = [] :=
        List.drop_eq_nil_iff.mpr hend.ge
      rw [hrest, List.nil_append, ← hlater]
      split
      · next hnone =>
        rw [hnone]
        exact ⟨⟨List.forall_mem_nil _, fun front hfront => by cases hfront⟩, rfl, rfl⟩
      · next hsome =>
        refine ⟨⟨hfilled, ?_⟩, rfl, ?_⟩
        · intro next hnext
          exact List.length_pos_iff.mpr (hfilled next (List.mem_of_mem_head? hnext))
        · unfold pending
          dsimp only
          cases hover : rest ++ passed with
          | nil => exact absurd hover hsome
          | cons next later => rfl
    -- within the list the containers wait
    · next hmore =>
      refine ⟨⟨?_, ?_⟩, rfl, ?_⟩
      · intro c hc
        rcases List.mem_cons.mp hc with rfl | hc
        · exact h.filled c List.mem_cons_self
        · exact hfilled c hc
      · rintro next ⟨⟩
        have hlength : (w.contents front).length = (w.item front).itemlist.length := rfl
        show current + 1 < (w.contents front).length
        omega
      · show (w.contents front).drop (current + 1) ++ (rest ++ passed).flatMap w.contents = _
        rw [hlater, List.append_assoc]

variable {β γ : Type}

/-- What a loop makes of the items it meets. -/
def result (step : β → ItemId → β ⊕ γ) (done : β → γ) : β → List ItemId → γ
  | b, [] => done b
  | b, i :: items =>
    match step b i with
    | .inl b => result step done b items
    | .inr c => c

/-- The loop meets the items of the walk in their order. -/
theorem run_round (hw : w.Nested) (step : β → ItemId → β ⊕ γ) (done : β → γ) (n : ℕ) :
    ∀ (it : ContainerIterator) (b : β), Ready w it →
      (Walk.visit w.contents n (pending w it)).length < n →
      Loop.run (round w it.base step done) n (it, b) =
        some (some (result step done b (Walk.visit w.contents n (pending w it)))) := by
  -- on the rounds; what is pending is the queue of the walk
  induction n with
  | zero => exact fun it b _ hn => absurd hn (Nat.not_lt_zero _)
  | succ n ih =>
    intro it b hready hn
    cases hpending : pending w it with
    | nil =>
      have hover : it.over = [] := hready.over_eq_nil hpending
      apply Loop.run_inr
      rw [round, if_neg (fun h => differs_finish.mp h hover)]
      rfl
    | cons item queue =>
      have hover : it.over ≠ [] := by
        intro hnil
        rw [pending, hnil] at hpending
        cases hpending
      obtain ⟨hderef, it', hincrement, hready', hbase, hpending'⟩ := hready.increment hw hpending
      rw [hpending, Walk.visit, List.length_cons] at hn
      rw [Walk.visit, result]
      have hround : round w it.base step done (it, b) =
          match step b item with
          | .inr c => .inr (some c)
          | .inl b => .inl (it', b) := by
        rw [round, if_pos (differs_finish.mpr hover), hderef]
        dsimp only
        rw [hincrement]
      cases hstep : step b item with
      | inr c =>
        rw [hstep] at hround
        exact Loop.run_inr hround
      | inl b' =>
        rw [hstep] at hround
        have hrest := ih it' b' hready' (by rw [hpending']; omega)
        rw [hbase, hpending'] at hrest
        exact (Loop.run_inl hround).trans hrest

/-- A loop over the items in a container ends, and meets each of them once. -/
theorem loop_eq (hw : w.Nested) {n : ℕ} (j : ItemId) (hn : (w.within j).card < n)
    (step : β → ItemId → β ⊕ γ) (done : β → γ) (b : β) :
    loop w n j step done b = some (result step done b (w.walked j)) := by
  obtain ⟨hready, hpending⟩ := ready_begin w j
  have hbase : (Container.begin w j).base = j := by
    unfold Container.begin
    split <;> rfl
  have hlength : (Walk.visit w.contents ((w.within j).card + 1) (w.contents j)).length <
      (w.within j).card + 1 := by
    have hwalked := hw.length_walked j
    unfold World.walked at hwalked
    omega
  have hrun := run_round hw step done ((w.within j).card + 1) (Container.begin w j) b hready
    (by rw [hpending]; exact hlength)
  rw [hbase, hpending] at hrun
  unfold loop
  rw [Loop.run_mono hn hrun]
  rfl

/-- More rounds give the same result. -/
theorem loop_mono {m n : ℕ} (hmn : m ≤ n) {j : ItemId} {step : β → ItemId → β ⊕ γ} {done : β → γ}
    {b : β} {c : γ} (h : loop w m j step done b = some c) : loop w n j step done b = some c := by
  unfold loop at h ⊢
  rw [Option.join_eq_some_iff] at h ⊢
  exact Loop.run_mono hmn h

theorem result_visited (items before : List ItemId) :
    result (γ := List ItemId) (fun items i => .inl (items ++ [i])) id before items =
      before ++ items := by
  induction items generalizing before with
  | nil => exact (List.append_nil before).symm
  | cons i items ih =>
    rw [result]
    dsimp only
    rw [ih, List.append_assoc]
    rfl

theorem result_count (items : List ItemId) (counter : ℕ) :
    result (γ := ℕ) (fun counter _ => .inl (counter + 1)) id counter items =
      counter + items.length := by
  induction items generalizing counter with
  | nil => rfl
  | cons i items ih =>
    rw [result]
    dsimp only
    rw [ih, List.length_cons]
    omega

theorem result_find (items : List ItemId) (item : ItemId) :
    result (fun _ i => if i = item then .inr true else .inl ()) (fun _ => false) () items =
      decide (item ∈ items) := by
  induction items with
  | nil => rfl
  | cons i items ih =>
    rw [result]
    by_cases heq : i = item
    · rw [if_pos heq, heq]
      exact (decide_eq_true List.mem_cons_self).symm
    · rw [if_neg heq]
      have hmem : item ∈ i :: items ↔ item ∈ items := by
        rw [List.mem_cons, or_iff_right (Ne.symm heq)]
      exact ih.trans (decide_eq_decide.mpr hmem.symm)

end ContainerIterator

theorem within_card_le (w : World) (j : ItemId) : (w.within j).card ≤ w.next := by
  classical
  exact (Finset.card_filter_le _ _).trans (Finset.card_range w.next).le

/-- Iterating over a container visits every item in it, at whatever depth, exactly once; an item is
held if and only if it is one of them, and the holding count is their number. -/
theorem containerIteration_complete (w : World) (hw : w.Nested) (j : ItemId) (n : ℕ)
    (hn : w.next < n) :
    (∃ items, Container.visited w n j = some items ∧ items.Nodup ∧
      ∀ i, i ∈ items ↔ w.Within (.container j) i) ∧
    (∀ item, ∃ holds, Container.isHoldingItem w n j item = some holds ∧
      (holds = true ↔ w.Within (.container j) item)) ∧
    Container.getItemHoldingCount w n j = some (w.within j).card := by
  have hn : (w.within j).card < n := (within_card_le w j).trans_lt hn
  refine ⟨⟨w.walked j, ?_, hw.nodup_walked j, fun i => hw.mem_walked⟩, fun item => ?_, ?_⟩
  · unfold Container.visited
    rw [ContainerIterator.loop_eq hw j hn, ContainerIterator.result_visited]
    rfl
  · refine ⟨decide (item ∈ w.walked j), ?_, ?_⟩
    · unfold Container.isHoldingItem
      rw [ContainerIterator.loop_eq hw j hn, ContainerIterator.result_find]
    · rw [decide_eq_true_eq, hw.mem_walked]
  · unfold Container.getItemHoldingCount
    rw [ContainerIterator.loop_eq hw j hn, ContainerIterator.result_count, hw.length_walked,
      Nat.zero_add]

open SmallWorld in
theorem containerIteration_complete_bagInBag : bagInBag.Nested ∧ bagInBag.next < 4 ∧
    (∃ items, Container.visited bagInBag 4 0 = some items ∧ items.Nodup ∧
      ∀ i, i ∈ items ↔ bagInBag.Within (.container 0) i) ∧
    (∀ item, ∃ holds, Container.isHoldingItem bagInBag 4 0 item = some holds ∧
      (holds = true ↔ bagInBag.Within (.container 0) item)) ∧
    Container.getItemHoldingCount bagInBag 4 0 = some (bagInBag.within 0).card :=
  ⟨bagInBag_nested, by decide,
    containerIteration_complete bagInBag bagInBag_nested 0 4 (by decide)⟩

end TyanoCore
