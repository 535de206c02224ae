import Mathlib.Algebra.BigOperators.Group.Finset.Basic
import Mathlib.Algebra.BigOperators.Group.Finset.Piecewise
import TyanoCore.DecayTiming
import TyanoCore.Run

/-!
# The books of decaying items

The queue and the buckets as one bag of entries: no item has two of them, and an item in the state
`DECAYING_TRUE` has one.  The only record of an entry is that state, which `Item::setKind` resets.
-/

namespace TyanoCore

open Transition

variable {kinds : KindId → Option DecayKind} {s t : DecayState} {i j : ItemId}

/-- The entries of an item in the queue and the buckets. -/
def DecayState.entries (s : DecayState) (i : ItemId) : ℕ :=
  s.toDecayItems.count i + ∑ b ∈ Finset.range eventDecayBuckets, (s.decayItems b).count i

theorem entries_pushBucket {b : ℕ} (hb : b < eventDecayBuckets) (i j : ItemId) :
    (s.pushBucket b j).entries i = s.entries i + if i = j then 1 else 0 := by
  have hmem : b ∈ Finset.range eventDecayBuckets := Finset.mem_range.mpr hb
  have hbucket (b' : ℕ) : ((s.pushBucket b j).decayItems b').count i =
      (s.decayItems b').count i + if b' = b then (if i = j then 1 else 0) else 0 := by
    simp only [DecayState.pushBucket]
    by_cases hb' : b' = b
    · rw [if_pos hb', if_pos hb', List.count_append]
      by_cases hij : i = j
      · rw [if_pos hij, hij, List.count_singleton_self]
      · rw [if_neg hij, List.count_cons_of_ne (Ne.symm hij), List.count_nil]
    · rw [if_neg hb', if_neg hb', add_zero]
  unfold DecayState.entries
  rw [Finset.sum_congr rfl fun b' _ => hbucket b', Finset.sum_add_distrib,
    Finset.sum_ite_eq' _ b, if_pos hmem, ← add_assoc]
  rfl

theorem entries_emptied (i : ItemId) :
    s.emptied.entries i + (s.decayItems s.nextBucket).count i = s.entries i := by
  have hmem : s.nextBucket ∈ Finset.range eventDecayBuckets :=
    Finset.mem_range.mpr (Nat.mod_lt _ (by decide))
  have hempty : (s.emptied.decayItems s.nextBucket).count i = 0 := by
    simp only [DecayState.emptied, if_true, List.count_nil]
  -- only the bucket of this tick is emptied
  have hrest : ∀ b ∈ (Finset.range eventDecayBuckets).erase s.nextBucket,
      (s.emptied.decayItems b).count i = (s.decayItems b).count i := by
    intro b hb
    simp only [DecayState.emptied, if_neg (Finset.ne_of_mem_erase hb)]
  unfold DecayState.entries
  rw [← Finset.add_sum_erase _ _ hmem, ← Finset.add_sum_erase _ _ hmem, hempty,
    Finset.sum_congr rfl hrest]
  change s.toDecayItems.count i + _ + _ = _
  omega

/-- The item is in the world and in the state `DECAYING_TRUE`. -/
def DecayState.Aging (s : DecayState) (i : ItemId) : Prop :=
  (s.item i).isRemoved = false ∧ (s.item i).getDecaying = .decayingTrue

/-- The books are in order, counting the entries that are still to be put back; for an item that is
being dealt with, its state may be ahead of them. -/
structure Books (pending : List ItemId) (loose : Option ItemId) (s : DecayState) : Prop where
  once : ∀ i, s.entries i + pending.count i ≤ 1
  lt : ∀ i, 1 ≤ s.entries i + pending.count i → i < s.next
  aging : ∀ i, i < s.next → loose ≠ some i → s.Aging i → s.entries i + pending.count i = 1
  lastBucket : s.lastBucket < eventDecayBuckets

variable {pending : List ItemId} {loose : Option ItemId}

theorem Books.loosen (h : Books pending none s) (i : ItemId) : Books pending (some i) s :=
  ⟨h.once, h.lt, fun j hj _ => h.aging j hj (by simp), h.lastBucket⟩

/-- The item has been dealt with. -/
theorem Books.tighten (h : Books pending (some i) s)
    (hi : s.Aging i → s.entries i + pending.count i = 1) : Books pending none s := by
  refine ⟨h.once, h.lt, fun j hj _ haging => ?_, h.lastBucket⟩
  by_cases hji : j = i
  · rw [hji] at haging ⊢
    exact hi haging
  · exact h.aging j hj (fun heq => hji (Option.some.inj heq).symm) haging

/-- Entries go from the books to the pending ones or back. -/
theorem Books.moved {pending' : List ItemId} (h : Books pending loose s)
    (hsum : ∀ j, t.entries j + pending'.count j = s.entries j + pending.count j)
    (hitem : t.item = s.item) (hnext : t.next = s.next) (hlast : t.lastBucket < eventDecayBuckets) :
    Books pending' loose t := by
  refine ⟨?_, ?_, ?_, hlast⟩
  · intro j
    rw [hsum]
    exact h.once j
  · intro j hj
    rw [hsum] at hj
    rw [hnext]
    exact h.lt j hj
  · intro j hj hloose haging
    rw [hnext] at hj
    rw [DecayState.Aging, hitem] at haging
    rw [hsum]
    exact h.aging j hj hloose haging

theorem aging_setItem (hij : i ≠ j) (item : DecayItem) :
    (s.setItem i item).Aging j ↔ s.Aging j := by
  have hitem : (s.setItem i item).item j = s.item j := if_neg (Ne.symm hij)
  rw [DecayState.Aging, hitem]
  rfl

theorem Books.setItem (h : Books pending (some i) s) (item : DecayItem) :
    Books pending (some i) (s.setItem i item) := by
  refine ⟨h.once, h.lt, fun j hj hloose haging => ?_, h.lastBucket⟩
  have hij : i ≠ j := fun heq => hloose (congrArg some heq)
  exact h.aging j hj hloose ((aging_setItem hij item).mp haging)

theorem Books.create (h : Books pending loose s) {item : DecayItem}
    (hitem : item.getDecaying ≠ .decayingTrue) : Books pending loose (s.create item) := by
  refine ⟨h.once, fun j hj => Nat.lt_succ_of_lt (h.lt j hj), ?_, h.lastBucket⟩
  intro j hj hloose haging
  by_cases hnew : j = s.next
  · have hself : (s.create item).item j = item := if_pos hnew
    rw [DecayState.Aging, hself] at haging
    exact absurd haging.2 hitem
  · have hlt : j < s.next := lt_of_le_of_ne (Nat.lt_succ_iff.mp hj) hnew
    exact h.aging j hlt hloose ((aging_setItem (Ne.symm hnew) item).mp haging)

/-- An entry is taken up. -/
theorem Books.take (h : Books (i :: pending) none s) :
    Books pending (some i) s ∧ s.entries i + pending.count i = 0 ∧ i < s.next := by
  have hcount (j : ItemId) (hj : j ≠ i) : (i :: pending).count j = pending.count j :=
    List.count_cons_of_ne (Ne.symm hj)
  have hself : (i :: pending).count i = pending.count i + 1 := List.count_cons_self
  have honce := h.once i
  rw [hself] at honce
  -- it was the only one
  have hzero : s.entries i + pending.count i = 0 := by omega
  refine ⟨⟨?_, ?_, ?_, h.lastBucket⟩, hzero, h.lt i (by rw [hself]; omega)⟩
  · intro j
    by_cases hj : j = i
    · rw [hj]
      omega
    · rw [← hcount j hj]
      exact h.once j
  · intro j hentries
    by_cases hj : j = i
    · rw [hj] at hentries
      omega
    · rw [← hcount j hj] at hentries
      exact h.lt j hentries
  · intro j hjs hloose haging
    have hj : j ≠ i := fun heq => hloose (congrArg some heq.symm)
    rw [← hcount j hj]
    exact h.aging j hjs (by simp) haging

/-- The item gets an entry. -/
theorem Books.enter (h : Books pending (some i) s) (hzero : s.entries i + pending.count i = 0)
    (hi : i < s.next) (hentries : ∀ j, t.entries j = s.entries j + if j = i then 1 else 0)
    (hitem : t.item = s.item) (hnext : t.next = s.next) (hlast : t.lastBucket = s.lastBucket) :
    Books pending none t := by
  have hentered : Books pending (some i) t := by
    constructor
    · intro j
      rw [hentries]
      split
      · next hj =>
        rw [hj]
        omega
      · rw [add_zero]
        exact h.once j
    · intro j hj
      rw [hnext]
      by_cases hji : j = i
      · rw [hji]
        exact hi
      · rw [hentries, if_neg hji, add_zero] at hj
        exact h.lt j hj
    · intro j hjs hloose haging
      have hji : j ≠ i := fun heq => hloose (congrArg some heq.symm)
      rw [DecayState.Aging, hitem] at haging
      rw [hnext] at hjs
      rw [hentries, if_neg hji, add_zero]
      exact h.aging j hjs hloose haging
    · rw [hlast]
      exact h.lastBucket
  refine hentered.tighten fun _ => ?_
  rw [hentries, if_pos rfl]
  omega

theorem Books.push (h : Books pending (some i) s) (hzero : s.entries i + pending.count i = 0)
    (hi : i < s.next) {b : ℕ} (hb : b < eventDecayBuckets) :
    Books pending none (s.pushBucket b i) :=
  h.enter hzero hi (fun j => entries_pushBucket hb j i) rfl rfl rfl

/-! ## Transforming an item -/

/-- What `Game::transformItem` leaves of the books: no entry changes, and no item becomes
`DECAYING_TRUE`. -/
structure Transformed (i : ItemId) (s : DecayState) (r : DecayState × Option ItemId) : Prop where
  entries : ∀ j, r.1.entries j = s.entries j
  books : ∀ pending, Books pending (some i) s → Books pending (some i) r.1
  aging : r.1.Aging i → s.Aging i
  result : ∀ k, r.2 = some k → k < r.1.next ∧ (k = i ∨ s.next ≤ k ∧ ¬ r.1.Aging k)

theorem DecayItem.getDecaying_setKind (item : DecayItem) (kind : DecayKind)
    (h : (item.setKind kind).getDecaying = .decayingTrue) :
    item.getDecaying = .decayingTrue := by
  unfold DecayItem.setKind at h
  dsimp only at h
  split_ifs at h
  · cases h
  · cases h
  · cases h
  · exact h

theorem DecayItem.isRemoved_setKind (item : DecayItem) (kind : DecayKind) :
    (item.setKind kind).isRemoved = item.isRemoved := by
  unfold DecayItem.setKind
  dsimp only
  split_ifs <;> rfl

theorem DecayItem.getDecaying_setSubType (item : DecayItem) (n : ℕ) :
    (item.setSubType n).getDecaying = item.getDecaying := by
  unfold DecayItem.setSubType
  split_ifs <;> rfl

theorem DecayItem.isRemoved_setSubType (item : DecayItem) (n : ℕ) :
    (item.setSubType n).isRemoved = item.isRemoved := by
  unfold DecayItem.setSubType
  split_ifs <;> rfl

theorem DecayItem.getDecaying_createItem {kindId : KindId} {amount : Option ℕ} {item : DecayItem}
    (h : DecayItem.createItem kinds kindId amount = some item) :
    item.getDecaying ≠ .decayingTrue := by
  unfold DecayItem.createItem at h
  split at h
  · cases h
  split at h
  · cases h
  split at h
  · cases h
  · cases h
    simp [DecayItem.getDecaying]

theorem Transformed.unchanged (hi : i < s.next) : Transformed i s (s, some i) :=
  ⟨fun _ => rfl, fun _ h => h, fun h => h,
    fun _ hk => by cases hk; exact ⟨hi, .inl rfl⟩⟩

theorem Transformed.nothing : Transformed i s (s, none) :=
  ⟨fun _ => rfl, fun _ h => h, fun h => h, fun _ hk => by cases hk⟩

theorem not_aging_remove (i : ItemId) : ¬ (s.remove i).Aging i := by
  rintro ⟨hremoved, -⟩
  simp [DecayState.remove, DecayState.setItem] at hremoved

theorem Transformed.removed : Transformed i s (s.remove i, none) :=
  ⟨fun _ => rfl, fun _ h => h.setItem _, fun h => absurd h (not_aging_remove i),
    fun _ hk => by cases hk⟩

/-- What is created is not in the state `DECAYING_TRUE`. -/
theorem not_aging_create {item : DecayItem} (hitem : item.getDecaying ≠ .decayingTrue) :
    ¬ (s.create item).Aging s.next := by
  rintro ⟨-, hstate⟩
  have hself : (s.create item).item s.next = item := if_pos rfl
  rw [hself] at hstate
  exact hitem hstate

theorem transformItemBody_transformed {recurse : KindId → DecayState × Option ItemId}
    {a : CylinderAnswers} (hi : i < s.next) (hrec : ∀ tmpId, Transformed i s (recurse tmpId))
    (newId : KindId) (newCount : Option ℕ) :
    Transformed i s (Game.transformItemBody kinds recurse a s i newId newCount) := by
  unfold Game.transformItemBody
  dsimp only
  split
  · exact .unchanged hi
  split
  · exact .nothing
  split
  · exact .unchanged hi
  split
  · exact .unchanged hi
  next newKind hkind =>
  split
  · -- the item leaves the tile and a new one comes
    split
    · exact .unchanged hi
    split
    · exact .removed
    next newItem hnew =>
    let added : DecayItem := { newItem with
      charges := (s.item i).charges, fluidType := (s.item i).fluidType
      decaying := none, duration := none, hasParent := a.adds, isRemoved := !a.adds }
    have hadded : added.getDecaying ≠ .decayingTrue := by simp [added, DecayItem.getDecaying]
    refine ⟨fun _ => rfl, fun _ h => (h.setItem _).create hadded, fun h => ?_, ?_⟩
    · have hold : (s.remove i).next ≠ i := (ne_of_lt hi).symm
      exact absurd ((aging_setItem hold added).mp h) (not_aging_remove i)
    · intro k hk
      dsimp only at hk
      split at hk
      · cases hk
        exact ⟨Nat.lt_succ_self _, .inr ⟨le_rfl, not_aging_create (s := s.remove i) hadded⟩⟩
      · cases hk
  split
  · split
    -- the item is used up
    · generalize (if (s.item i).kind.id = _ then (s.item i).kind.decayTo else _) = tmpId
      split
      · exact hrec _
      · split
        · exact .removed
        · exact .nothing
    · -- the kind changes in place
      refine ⟨fun _ => rfl, fun _ h => h.setItem _, ?_, fun k hk => ?_⟩
      · rintro ⟨hremoved, hstate⟩
        simp only [DecayState.setItem, if_true, DecayItem.getDecaying_setSubType,
          DecayItem.isRemoved_setSubType, DecayItem.isRemoved_setKind] at hremoved hstate
        have hbefore := DecayItem.getDecaying_setKind _ _ hstate
        -- the default subtype touches neither
        split_ifs at hremoved hbefore
        · exact ⟨hremoved, hbefore⟩
        · exact ⟨hremoved, hbefore⟩
      · cases hk
        exact ⟨hi, .inl rfl⟩
  · -- a new item takes the place of the old one
    split
    · exact .nothing
    next newItem hnew =>
    have hnot := not_aging_create (s := s) (DecayItem.getDecaying_createItem hnew)
    refine ⟨fun _ => rfl, fun _ h => (h.create (DecayItem.getDecaying_createItem hnew)).setItem _,
      fun h => absurd h (not_aging_remove i), fun k hk => ?_⟩
    cases hk
    exact ⟨Nat.lt_succ_self _, .inr ⟨le_rfl, fun h => hnot ((aging_setItem (ne_of_lt hi) _).mp h)⟩⟩

theorem transformItem_transformed {a : CylinderAnswers} (hi : i < s.next) (newId : KindId)
    (newCount : Option ℕ) : Transformed i s (Game.transformItem kinds a s i newId newCount) :=
  transformItemBody_transformed hi
    (fun tmpId => transformItemBody_transformed hi (fun _ => .nothing) tmpId none) newId newCount

/-- As an action of its own, transforming an item keeps the books. -/
theorem Transformed.keeps {r : DecayState × Option ItemId} (h : Transformed i s r)
    (hi : i < s.next) (hbooks : Books pending none s) : Books pending none r.1 := by
  refine (h.books pending (hbooks.loosen i)).tighten fun haging => ?_
  rw [h.entries]
  exact hbooks.aging i hi (by simp) (h.aging haging)

/-- `Item::setKind` resets the state. -/
def DecayItem.Resets (item : DecayItem) (kind : DecayKind) : Prop :=
  kind.defaultDuration = 0 ∧ ¬ kind.stopTime ∧ kind.decayTo = -1 ∨
    0 < kind.defaultDuration ∧ (¬ item.kind.stopTime ∨ item.duration = none)

theorem DecayItem.setKind_resets {item : DecayItem} {kind : DecayKind}
    (hstate : item.getDecaying = .decayingTrue) :
    item.Resets kind ↔ (item.setKind kind).getDecaying ≠ .decayingTrue := by
  unfold DecayItem.Resets DecayItem.setKind
  dsimp only
  by_cases hplain : kind.defaultDuration = 0 ∧ ¬ kind.stopTime = true ∧ kind.decayTo = -1
  · have huntimed : ¬ (0 < kind.defaultDuration ∧
        (¬ item.kind.stopTime = true ∨ (none : Option ℤ) = none)) := by omega
    rw [if_pos hplain, if_neg huntimed]
    exact iff_of_true (.inl hplain) (by simp [DecayItem.getDecaying])
  · rw [if_neg hplain]
    by_cases htimed : 0 < kind.defaultDuration ∧ (¬ item.kind.stopTime = true ∨ item.duration = none)
    · rw [if_pos htimed]
      exact iff_of_true (.inr htimed) (by simp [DecayItem.getDecaying])
    · rw [if_neg htimed]
      exact iff_of_false (fun h => h.elim hplain htimed) (not_not.mpr hstate)

/-- An item that has changed its kind in place. -/
theorem aging_setKind (haging : s.Aging i) {item : DecayItem} {kind : DecayKind}
    (hitem : item = s.item i ∨ item = (s.item i).setDefaultSubtype) (n : ℕ) :
    (s.item i).Resets kind ↔ ¬ (s.setItem i ((item.setKind kind).setSubType n)).Aging i := by
  have hself : (s.setItem i ((item.setKind kind).setSubType n)).item i =
      (item.setKind kind).setSubType n := if_pos rfl
  have hremoved : item.isRemoved = false := by
    rcases hitem with rfl | rfl <;> exact haging.1
  have hstate : item.getDecaying = .decayingTrue := by
    rcases hitem with rfl | rfl <;> exact haging.2
  have hresets : (s.item i).Resets kind ↔ item.Resets kind := by
    rcases hitem with rfl | rfl <;> rfl
  rw [hresets, DecayItem.setKind_resets hstate, DecayState.Aging, hself,
    DecayItem.isRemoved_setSubType, DecayItem.isRemoved_setKind, DecayItem.getDecaying_setSubType]
  simp only [hremoved, true_and, ne_eq]

/-- Decaying takes the item out of the world or out of the state `DECAYING_TRUE`. -/
def DecayItem.LeavesState (kinds : KindId → Option DecayKind) (a : CylinderAnswers)
    (item : DecayItem) : Prop :=
  if item.kind.decayTo = 0 then a.removes = true
  else
    let newId := (item.kind.decayTo % 2 ^ 16).toNat
    item.kind.id ≠ newId ∧ item.hasParent = true ∧ a.finds = true ∧ a.canTransform = true ∧
      ∃ newKind, kinds newId = some newKind ∧
        if item.kind.alwaysOnTop ≠ newKind.alwaysOnTop then a.removes = true
        else if item.kind.type = newKind.type then item.Resets newKind
        else (DecayItem.createItem kinds newId none).isSome

/-- The transformation of an item that decays does what `LeavesState` says. -/
theorem leavesState_iff {a : CylinderAnswers} (hi : i < s.next) (haging : s.Aging i)
    (hdecayTo : (s.item i).kind.decayTo ≠ 0) :
    (s.item i).LeavesState kinds a ↔
      ¬ (Game.transformItem kinds a s i ((s.item i).kind.decayTo % 2 ^ 16).toNat none).1.Aging i := by
  unfold DecayItem.LeavesState
  rw [if_neg hdecayTo]
  dsimp only
  generalize ((s.item i).kind.decayTo % 2 ^ 16).toNat = newId
  unfold Game.transformItem Game.transformItemBody
  dsimp only
  by_cases hsame : (s.item i).kind.id = newId
  · rw [if_pos ⟨hsame, .inl rfl⟩]
    -- it decays to its own kind, and nothing happens
    exact iff_of_false (fun h => h.1 hsame) (not_not.mpr haging)
  rw [if_neg fun h => hsame h.1]
  cases hparent : (s.item i).hasParent with
  | false => exact iff_of_false (fun h => by cases h.2.1) (not_not.mpr haging)
  | true =>
  cases hfinds : a.finds with
  | false => exact iff_of_false (fun h => by cases h.2.2.1) (not_not.mpr haging)
  | true =>
  cases htransform : a.canTransform with
  | false => exact iff_of_false (fun h => by cases h.2.2.2.1) (not_not.mpr haging)
  | true =>
  cases hkind : kinds newId with
  | none =>
    refine iff_of_false ?_ (not_not.mpr haging)
    rintro ⟨-, -, -, -, newKind, hsome, -⟩
    cases hsome
  | some newKind =>
    simp only [ne_eq, hsame, not_false_eq_true, true_and, Option.some.injEq, exists_eq_left',
      Bool.not_true, Bool.or_self, Bool.false_eq_true, if_false, reduceCtorEq, false_and]
    by_cases htop : (s.item i).kind.alwaysOnTop = newKind.alwaysOnTop
    · rw [if_neg (not_not.mpr htop), if_neg (not_not.mpr htop)]
      by_cases htype : (s.item i).kind.type = newKind.type
      -- the kind changes in place, and `Item::setKind` decides
      · rw [if_pos htype, if_pos htype]
        refine aging_setKind haging ?_ _
        split
        · exact .inr rfl
        · exact .inl rfl
      · rw [if_neg htype, if_neg htype]
        cases hnew : DecayItem.createItem kinds newId none with
        | none => simpa using haging
        | some newItem =>
          exact iff_of_true rfl (not_aging_remove i)
    · rw [if_pos htop, if_pos htop]
      cases hremoves : a.removes with
      | false => simpa using haging
      | true =>
        refine iff_of_true rfl ?_
        simp only [Bool.not_true, Bool.false_eq_true, if_false]
        cases hnew : DecayItem.createItem kinds newId none with
        | none => exact not_aging_remove i
        | some newItem =>
          have hold : (s.remove i).next ≠ i := (ne_of_lt hi).symm
          exact fun h => not_aging_remove i ((aging_setItem hold _).mp h)

/-! ## Starting and ending a decay -/

/-- `Game::internalDecayItem` closes the books on an item without an entry. -/
theorem internalDecayItem_books {start : DecayState → ItemId → Option DecayState}
    {a : CylinderAnswers} (h : Books pending (some i) s)
    (hzero : s.entries i + pending.count i = 0) (hi : i < s.next)
    (hleaves : s.Aging i → (s.item i).LeavesState kinds a)
    (hstart : ∀ s' k t', Books pending none s' → k < s'.next →
      s'.entries k + pending.count k = 0 → start s' k = some t' → Books pending none t')
    (ht : Game.internalDecayItem kinds start a s i = some t) : Books pending none t := by
  unfold Game.internalDecayItem at ht
  dsimp only at ht
  by_cases hdecayTo : (s.item i).kind.decayTo = 0
  · rw [if_neg (not_not.mpr hdecayTo)] at ht
    cases ht
    split
    · exact (h.setItem _).tighten fun haging => absurd haging (not_aging_remove i)
    · next hremoves =>
      refine h.tighten fun haging => ?_
      have hleft := hleaves haging
      rw [DecayItem.LeavesState, if_pos hdecayTo] at hleft
      exact absurd hleft hremoves
  · rw [if_pos hdecayTo] at ht
    have htransformed : Transformed i s (Game.transformItem kinds a s i
        ((s.item i).kind.decayTo % 2 ^ 16).toNat none) := transformItem_transformed hi _ none
    have hleft : ¬ (Game.transformItem kinds a s i
        ((s.item i).kind.decayTo % 2 ^ 16).toNat none).1.Aging i := by
      intro haging
      have hbefore := htransformed.aging haging
      exact (leavesState_iff hi hbefore hdecayTo).mp (hleaves hbefore) haging
    generalize Game.transformItem kinds a s i ((s.item i).kind.decayTo % 2 ^ 16).toNat none = r
      at ht htransformed hleft
    have hbooks := (htransformed.books pending h).tighten fun haging => absurd haging hleft
    -- `Game::startDecay` goes on with what is left, if anything is
    obtain ⟨s', _ | newItem⟩ := r
    · cases ht
      exact hbooks
    · obtain ⟨hlt, hnew⟩ := htransformed.result newItem rfl
      refine hstart s' newItem t hbooks hlt ?_ ht
      have hentries := htransformed.entries newItem
      rcases hnew with rfl | ⟨hnew, -⟩
      · rw [hentries]
        exact hzero
      · -- a new item has no entries
        rw [hentries]
        by_contra hsome
        exact absurd (h.lt newItem (Nat.one_le_iff_ne_zero.mpr hsome)) (not_lt.mpr hnew)

theorem entries_queue (i j : ItemId) (item : DecayItem) :
    ({ s.setItem i item with toDecayItems := s.toDecayItems ++ [i] } : DecayState).entries j =
      s.entries j + if j = i then 1 else 0 := by
  simp only [DecayState.entries, DecayState.setItem, List.count_append]
  by_cases hji : j = i
  · rw [if_pos hji, hji, List.count_singleton_self]
    omega
  · rw [if_neg hji, List.count_cons_of_ne (Ne.symm hji), List.count_nil]
    omega

/-- `Game::startDecay` keeps the books when the item has no entry or is known to have one. -/
theorem startDecay_books {answers : ℕ → ItemId → CylinderAnswers} {n : ℕ}
    (h : Books pending none s) (hi : i < s.next)
    (hzero : (s.item i).canDecay = true → (s.item i).getDecaying ≠ .decayingTrue →
      s.entries i + pending.count i = 0)
    (ht : Game.startDecay kinds answers n s i = some t) : Books pending none t := by
  -- on the depth, as long as items decay at once into others without time left
  induction n generalizing s t i with
  | zero => cases ht
  | succ n ih =>
    unfold Game.startDecay at ht
    dsimp only at ht
    split at ht
    · cases ht
      exact h
    next hguard =>
    simp only [Bool.or_eq_true, Bool.not_eq_true', decide_eq_true_eq, not_or,
      Bool.not_eq_false] at hguard
    have hnone := hzero hguard.1 hguard.2
    split at ht
    · cases ht
      -- the state and the entry come together
      exact (h.loosen i |>.setItem _).enter hnone hi (fun j => entries_queue i j _) rfl rfl rfl
    · refine internalDecayItem_books (h.loosen i) hnone hi
        (fun haging => absurd haging.2 hguard.2) ?_ ht
      exact fun s' k t' hs' hk hnone' ht' => ih hs' hk (fun _ _ => hnone') ht'

/-! ## A tick -/

theorem DecayItem.visit_refile {item : DecayItem} {bucket b : ℕ}
    (h : item.visit bucket = .refile b) : b < eventDecayBuckets := by
  unfold DecayItem.visit at h
  dsimp only at h
  split_ifs at h
  cases h
  exact Nat.mod_lt _ (by decide)

/-- The entries that a tick visits can be dealt with. -/
def DecayState.Settles (kinds : KindId → Option DecayKind) (a : CylinderAnswers) (s : DecayState)
    (bucket : ℕ) (i : ItemId) : Prop :=
  (s.item i).visit bucket = .decay → s.Aging i → (s.item i).LeavesState kinds a

theorem leavesState_aged {a : CylinderAnswers} {item : DecayItem} :
    item.aged.LeavesState kinds a ↔ item.LeavesState kinds a := by
  have hnone : item.aged.duration = none ↔ item.duration = none := Option.map_eq_none_iff
  have hresets (kind : DecayKind) : item.aged.Resets kind ↔ item.Resets kind := by
    unfold DecayItem.Resets
    rw [hnone]
    rfl
  unfold DecayItem.LeavesState
  simp only [hresets]
  rfl

theorem visitEntry_books {answers : ℕ → ItemId → CylinderAnswers} {n : ℕ}
    (h : Books (i :: pending) none s) (hsettles : s.Settles kinds (answers n i) s.lastBucket i)
    (ht : Game.visitEntry kinds answers n s i = some t) : Books pending none t := by
  obtain ⟨hbooks, hzero, hi⟩ := h.take
  have haged := hbooks.setItem (s.item i).aged
  have hself : (s.setItem i (s.item i).aged).item i = (s.item i).aged := if_pos rfl
  unfold Game.visitEntry at ht
  dsimp only at ht
  split at ht
  · cases ht
    -- the entry is dropped together with the state
    refine (hbooks.setItem _).tighten fun haging => ?_
    have hstopped : (s.setItem i ((s.item i).aged.setDecaying .decayingFalse)).item i =
        (s.item i).aged.setDecaying .decayingFalse := if_pos rfl
    rw [DecayState.Aging, hstopped] at haging
    cases haging.2
  · next hvisit =>
    refine internalDecayItem_books haged hzero hi (fun haging => ?_) ?_ ht
    · rw [DecayState.Aging, hself] at haging
      rw [hself]
      exact leavesState_aged.mpr (hsettles hvisit haging)
    · exact fun s' k t' hs' hk hnone ht' => startDecay_books hs' hk (fun _ _ => hnone) ht'
  · next b hvisit =>
    cases ht
    exact haged.push hzero hi (DecayItem.visit_refile hvisit)
  · cases ht
    exact haged.push hzero hi h.lastBucket

theorem visitEntries_books {answers : ℕ → ItemId → CylinderAnswers} {n : ℕ}
    {entries : List ItemId} (h : Books entries none s)
    (hsettles : ∀ i ∈ entries, s.Settles kinds (answers n i) s.lastBucket i)
    (ht : entries.foldlM (Game.visitEntry kinds answers n) s = some t) : Books [] none t := by
  -- what has been visited is no longer pending
  induction entries generalizing s with
  | nil =>
    cases ht
    exact h
  | cons j entries ih =>
    rw [List.foldlM_cons] at ht
    obtain ⟨s', hvisit, hrest⟩ := Option.bind_eq_some_iff.mp ht
    refine ih (visitEntry_books h (hsettles j List.mem_cons_self) hvisit) ?_ hrest
    intro i hi
    -- the entries behind are those of other items
    have hij : i ≠ j := by
      rintro rfl
      have honce := h.once i
      have hpos := List.count_pos_iff.mpr hi
      rw [List.count_cons_self] at honce
      omega
    have hlt : i < s.next := by
      refine h.lt i ?_
      have hpos := List.count_pos_iff.mpr (List.mem_cons_of_mem j hi)
      omega
    have hframe := visitEntry_untouched hlt hij hvisit
    rw [DecayState.Settles, DecayState.Aging, hframe.item, hframe.lastBucket]
    exact hsettles i (List.mem_cons_of_mem j hi)

/-- What is filed was pending before. -/
theorem fileQueue_books {bucketFor : ItemId → ℕ} (hbucket : ∀ j, bucketFor j < eventDecayBuckets)
    {queue : List ItemId} (h : Books queue none s) :
    Books [] none (queue.foldl (fun (s' : DecayState) j => s'.pushBucket (bucketFor j) j) s) := by
  induction queue generalizing s with
  | nil => exact h
  | cons j queue ih =>
    obtain ⟨hbooks, hzero, hj⟩ := h.take
    exact ih (hbooks.push hzero hj (hbucket j))

/-- `Game::cleanup` keeps the books. -/
theorem cleanup_books (h : Books [] none s) : Books [] none (Game.cleanup s) := by
  -- the queue is taken up as a whole, then filed entry by entry
  have hpending : Books s.toDecayItems none { s with toDecayItems := [] } := by
    refine h.moved (fun j => ?_) rfl rfl h.lastBucket
    simp only [DecayState.entries, List.count_nil]
    omega
  rw [cleanup_eq]
  refine fileQueue_books (fun j => ?_) hpending
  unfold DecayState.bucketFor
  dsimp only
  split
  · exact h.lastBucket
  · simp only [eventDecayBuckets]
    omega

/-- `Game::checkDecay` keeps the books when the entries that decay can be dealt with. -/
theorem checkDecay_books {answers : ℕ → ItemId → CylinderAnswers} {n : ℕ} (h : Books [] none s)
    (hsettles : ∀ i ∈ s.decayItems s.nextBucket, s.Settles kinds (answers n i) s.nextBucket i)
    (ht : Game.checkDecay kinds answers n s = some t) : Books [] none t := by
  -- so is the bucket of this tick
  have hpending : Books (s.decayItems s.nextBucket) none s.emptied := by
    refine h.moved (fun j => ?_) rfl rfl (Nat.mod_lt _ (by decide))
    rw [entries_emptied, List.count_nil, add_zero]
  rw [checkDecay_eq] at ht
  obtain ⟨s', hfold, rfl⟩ := Option.map_eq_some_iff.mp ht
  exact cleanup_books (visitEntries_books hpending hsettles hfold)

/-! ## Runs -/

inductive DecayAction where
  /-- An item is created or loaded. -/
  | create (item : DecayItem)
  /-- An item leaves the world. -/
  | remove (i : ItemId)
  | startDecay (answers : ℕ → ItemId → CylinderAnswers) (n : ℕ) (i : ItemId)
  | transformItem (a : CylinderAnswers) (i : ItemId) (newId : KindId) (newCount : Option ℕ)
  | checkDecay (answers : ℕ → ItemId → CylinderAnswers) (n : ℕ)
  | cleanup

def decayStep (kinds : KindId → Option DecayKind) (s : DecayState) : DecayAction → Option DecayState
  | .create item => if item.getDecaying = .decayingTrue then none else some (s.create item)
  | .remove i => if i < s.next then some (s.remove i) else none
  | .startDecay answers n i =>
    if i < s.next then Game.startDecay kinds answers n s i else none
  | .transformItem a i newId newCount =>
    if i < s.next then some (Game.transformItem kinds a s i newId newCount).1 else none
  | .checkDecay answers n => Game.checkDecay kinds answers n s
  | .cleanup => some (Game.cleanup s)

/-- Nothing is queued yet. -/
structure DecayState.Initial (s : DecayState) : Prop where
  queue : s.toDecayItems = []
  bucket : ∀ b, s.decayItems b = []
  lastBucket : s.lastBucket < eventDecayBuckets
  state : ∀ i, i < s.next → (s.item i).getDecaying ≠ .decayingTrue

def decaySystem (kinds : KindId → Option DecayKind) : System DecayState DecayAction :=
  .ofStep DecayState.Initial (decayStep kinds)

/-- No item is started while it still has an entry from before, and every item that a tick lets decay
while it is `DECAYING_TRUE` leaves that state or the world. -/
def DecayState.Orderly (kinds : KindId → Option DecayKind) (s : DecayState) : DecayAction → Prop
  | .startDecay _ _ i => (s.item i).canDecay = true → (s.item i).getDecaying ≠ .decayingTrue →
      s.entries i = 0
  | .checkDecay answers n => ∀ i ∈ s.decayItems s.nextBucket,
      s.Settles kinds (answers n i) s.nextBucket i
  | _ => True

theorem DecayState.Initial.books (h : s.Initial) : Books [] none s := by
  have hentries (i : ItemId) : s.entries i = 0 := by
    unfold DecayState.entries
    rw [h.queue, Finset.sum_congr rfl fun b _ => by rw [h.bucket b]]
    simp only [List.count_nil, Finset.sum_const_zero, add_zero]
  constructor
  · intro i
    rw [hentries, List.count_nil]
    omega
  · intro i hi
    rw [hentries, List.count_nil] at hi
    omega
  · exact fun i hi _ haging => absurd haging.2 (h.state i hi)
  · exact h.lastBucket

theorem decayStep_books {a : DecayAction} (h : Books [] none s) (hok : s.Orderly kinds a)
    (ht : decayStep kinds s a = some t) : Books [] none t := by
  cases a with
  | create item =>
    simp only [decayStep] at ht
    split at ht
    · cases ht
    · next hstate =>
      cases ht
      exact h.create hstate
  | remove i =>
    simp only [decayStep] at ht
    split at ht
    · cases ht
      exact ((h.loosen i).setItem _).tighten fun haging => absurd haging (not_aging_remove i)
    · cases ht
  | startDecay answers n i =>
    simp only [decayStep] at ht
    split at ht
    · next hi =>
      refine startDecay_books h hi (fun hcan hstate => ?_) ht
      rw [List.count_nil, add_zero]
      exact hok hcan hstate
    · cases ht
  | transformItem a i newId newCount =>
    simp only [decayStep] at ht
    split at ht
    · next hi =>
      cases ht
      exact (transformItem_transformed hi newId newCount).keeps hi h
    · cases ht
  | checkDecay answers n => exact checkDecay_books h hok ht
  | cleanup =>
    cases ht
    exact cleanup_books h

/-- In an orderly run no item has two entries in the queue and the buckets, and an item in the state
`DECAYING_TRUE` has one. -/
theorem decay_bookkeeping (h : ((decaySystem kinds).restrict (DecayState.Orderly kinds)).Reachable s)
    (i : ItemId) : s.entries i ≤ 1 ∧ (i < s.next → s.Aging i → s.entries i = 1) := by
  have hbooks : Books [] none s := by
    -- between the actions nothing is pending and no item is loose
    refine h.invariant (Books [] none) (fun _ hinit => DecayState.Initial.books hinit) ?_
    exact fun _ _ _ hs hst => decayStep_books hs hst.1 hst.2
  have honce := hbooks.once i
  have haging := hbooks.aging i
  rw [List.count_nil, add_zero] at honce haging
  exact ⟨honce, fun hi => haging hi (by simp)⟩

namespace SmallWheel

/-- A kind of the same type as `torch`. -/
def brightTorch : DecayKind := { torch with id := 2051 }

/-- A kind that decays into itself within a second. -/
def ember : DecayKind := { id := 2052, decayTo := 2052, decayTime := 1 }

def fireKinds (id : KindId) : Option DecayKind :=
  if id = torch.id then some torch
  else if id = brightTorch.id then some brightTorch
  else if id = ember.id then some ember
  else none

/-- Nothing has been started yet; all items are like the given one. -/
def unlit (item : DecayItem) : DecayState where
  item _ := item
  next := 1

theorem unlit_initial {item : DecayItem} (h : item.getDecaying ≠ .decayingTrue) :
    (unlit item).Initial :=
  ⟨rfl, fun _ => rfl, Nat.succ_pos 15, fun _ _ => h⟩

end SmallWheel

open SmallWheel in
/-- A torch that is lit, filed, made a bright torch and lit again has two entries; an ember that is lit
and has decayed into an ember is in the state `DECAYING_TRUE` without any. -/
theorem decay_not_bookkeeping :
    (∃ s, (decaySystem fireKinds).Reachable s ∧ s.entries 0 = 2) ∧
    ∃ s, (decaySystem fireKinds).Reachable s ∧ 0 < s.next ∧ s.Aging 0 ∧ s.entries 0 = 0 := by
  constructor
  · let s0 := unlit { kind := torch, duration := some 60000 }
    have h0 : (decaySystem fireKinds).Reachable s0 := .init (unlit_initial (by decide))
    obtain ⟨s, hrun, hs⟩ : ∃ s, runActions (decayStep fireKinds) s0
        [.startDecay (fun _ _ => {}) 1 0, .cleanup, .transformItem {} 0 2051 none,
          .startDecay (fun _ _ => {}) 1 0] = some s ∧ s.entries 0 = 2 :=
      ⟨_, rfl, by decide⟩
    exact ⟨s, reachable_of_runActions h0 hrun, hs⟩
  · let s0 := unlit { kind := ember, duration := some 1000 }
    have h0 : (decaySystem fireKinds).Reachable s0 := .init (unlit_initial (by decide))
    obtain ⟨s, hrun, hs⟩ : ∃ s, runActions (decayStep fireKinds) s0
        [.startDecay (fun _ _ => {}) 1 0, .cleanup, .checkDecay (fun _ _ => {}) 1,
          .checkDecay (fun _ _ => {}) 1] = some s ∧
        0 < s.next ∧ s.Aging 0 ∧ s.entries 0 = 0 :=
      ⟨_, rfl, by decide, ⟨rfl, rfl⟩, by decide⟩
    exact ⟨s, reachable_of_runActions h0 hrun, hs⟩

open SmallWheel in
/-- A torch that is lit and filed. -/
theorem decay_bookkeeping_torch :
    ∃ s : DecayState, s.Aging 0 ∧ (s.entries 0 ≤ 1 ∧ (0 < s.next → s.Aging 0 → s.entries 0 = 1)) := by
  let s0 := unlit { kind := torch, duration := some 60000 }
  have h0 : ((decaySystem fireKinds).restrict (DecayState.Orderly fireKinds)).Reachable s0 :=
    .init (unlit_initial (by decide))
  obtain ⟨s1, h1⟩ : ∃ s1, decayStep fireKinds s0 (.startDecay (fun _ _ => {}) 1 0) = some s1 :=
    ⟨_, rfl⟩
  have hr1 := reachable_restrict_step h0 (.startDecay (fun _ _ => {}) 1 0)
    (fun _ _ => by decide) h1
  obtain ⟨s2, h2, haging⟩ : ∃ s2, decayStep fireKinds s1 .cleanup = some s2 ∧ s2.Aging 0 := by
    cases h1
    exact ⟨_, rfl, rfl, rfl⟩
  have hr2 := reachable_restrict_step hr1 .cleanup trivial h2
  exact ⟨s2, haging, decay_bookkeeping hr2 0⟩

end TyanoCore
