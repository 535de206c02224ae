import TyanoCore.Decay
import Mathlib.Data.List.Basic
import Mathlib.Algebra.Order.Ring.Nat
import Mathlib.Algebra.Order.Ring.Int

/-!
# When an item decays

An item that is only touched by `Game::checkDecay` waits in one bucket at a time.  Each tick brings
its bucket one step closer; a visit ages it by a turn of the wheel, files it anew or lets it decay.
-/

namespace TyanoCore

variable {kinds : KindId → Option DecayKind} {s t : DecayState} {i j : ItemId}

/-! ## What others leave alone -/

/-- Nothing about an item has changed: neither the item nor its entries. -/
structure Untouched (i : ItemId) (s t : DecayState) : Prop where
  item : t.item i = s.item i
  queue : t.toDecayItems.count i = s.toDecayItems.count i
  bucket : ∀ b, (t.decayItems b).count i = (s.decayItems b).count i
  lastBucket : t.lastBucket = s.lastBucket
  next : s.next ≤ t.next

theorem Untouched.refl (i : ItemId) (s : DecayState) : Untouched i s s :=
  ⟨rfl, rfl, fun _ => rfl, rfl, le_rfl⟩

theorem Untouched.trans {u : DecayState} (h : Untouched i s t) (h' : Untouched i t u) :
    Untouched i s u :=
  ⟨h'.item.trans h.item, h'.queue.trans h.queue, fun b => (h'.bucket b).trans (h.bucket b),
    h'.lastBucket.trans h.lastBucket, h.next.trans h'.next⟩

theorem untouched_setItem (hij : i ≠ j) (item : DecayItem) : Untouched i s (s.setItem j item) :=
  ⟨if_neg hij, rfl, fun _ => rfl, rfl, le_rfl⟩

theorem untouched_remove (hij : i ≠ j) : Untouched i s (s.remove j) := untouched_setItem hij _

theorem untouched_create (hi : i < s.next) (item : DecayItem) : Untouched i s (s.create item) :=
  ⟨if_neg (ne_of_lt hi), rfl, fun _ => rfl, rfl, Nat.le_succ _⟩

theorem untouched_pushBucket (hij : i ≠ j) (b : ℕ) : Untouched i s (s.pushBucket b j) := by
  refine ⟨rfl, rfl, fun b' => ?_, rfl, le_rfl⟩
  simp only [DecayState.pushBucket]
  split
  · rw [List.count_append, List.count_cons_of_ne (Ne.symm hij), List.count_nil, add_zero]
  · rfl

/-- Transforming an item leaves the others alone; what comes of it is the item or a new one. -/
theorem transformItemBody_untouched {recurse : KindId → DecayState × Option ItemId}
    {a : CylinderAnswers} (hi : i < s.next) (hij : i ≠ j)
    (hrec : ∀ tmpId, Untouched i s (recurse tmpId).1 ∧ (recurse tmpId).2 ≠ some i)
    (newId : KindId) (newCount : Option ℕ) :
    Untouched i s (Game.transformItemBody kinds recurse a s j newId newCount).1 ∧
      (Game.transformItemBody kinds recurse a s j newId newCount).2 ≠ some i := by
  -- every branch ends with the item, with nothing, or with an item of the next number
  have hsame : Untouched i s (s, some j).1 ∧ (s, some j).2 ≠ some i :=
    ⟨.refl i s, fun h => hij (Option.some.inj h).symm⟩
  have hnone {t : DecayState} (h : Untouched i s t) :
      Untouched i s (t, (none : Option ItemId)).1 ∧ (t, (none : Option ItemId)).2 ≠ some i :=
    ⟨h, by simp⟩
  have hnext : (some s.next : Option ItemId) ≠ some i := fun h =>
    ne_of_lt hi (Option.some.inj h).symm
  have hremove : Untouched i s (s.remove j) := untouched_remove hij
  unfold Game.transformItemBody
  dsimp only
  let unharmed (r : DecayState × Option ItemId) : Prop := Untouched i s r.1 ∧ r.2 ≠ some i
  apply iteInduction (motive := unharmed)
  · exact fun _ => hsame
  intro _
  apply iteInduction (motive := unharmed)
  · exact fun _ => hnone (.refl i s)
  intro _
  apply iteInduction (motive := unharmed)
  · exact fun _ => hsame
  intro _
  cases kinds newId with
  | none => exact hsame
  | some newKind =>
  dsimp only
  apply iteInduction (motive := unharmed)
  · intro _
    apply iteInduction (motive := unharmed)
    · exact fun _ => hsame
    · intro _
      dsimp only [unharmed]
      split
      · exact hnone hremove
      · refine ⟨hremove.trans (untouched_create (lt_of_lt_of_le hi hremove.next) _), ?_⟩
        dsimp only
        split
        · exact hnext
        · simp
  intro _
  dsimp only [unharmed]
  split
  · split
    · generalize (if (s.item j).kind.id = _ then (s.item j).kind.decayTo else _) = tmpId
      split
      · exact hrec _
      · refine hnone ?_
        split
        · exact hremove
        · exact .refl i s
    · exact ⟨untouched_setItem hij _, fun h => hij (Option.some.inj h).symm⟩
  · split
    · exact hnone (.refl i s)
    · exact ⟨(untouched_create hi _).trans (untouched_remove hij), hnext⟩

theorem transformItem_untouched (kinds : KindId → Option DecayKind) (a : CylinderAnswers)
    (hi : i < s.next) (hij : i ≠ j) (newId : KindId) (newCount : Option ℕ) :
    Untouched i s (Game.transformItem kinds a s j newId newCount).1 ∧
      (Game.transformItem kinds a s j newId newCount).2 ≠ some i := by
  refine transformItemBody_untouched hi hij (fun tmpId => ?_) newId newCount
  exact transformItemBody_untouched hi hij (fun _ => ⟨.refl i s, by simp⟩) tmpId none

theorem internalDecayItem_untouched {start : DecayState → ItemId → Option DecayState}
    {a : CylinderAnswers} (hi : i < s.next) (hij : i ≠ j)
    (hstart : ∀ s' j' t', i < s'.next → i ≠ j' → start s' j' = some t' → Untouched i s' t')
    (h : Game.internalDecayItem kinds start a s j = some t) : Untouched i s t := by
  unfold Game.internalDecayItem at h
  dsimp only at h
  split at h
  · obtain ⟨hframe, hnew⟩ := transformItem_untouched kinds a hi hij
      (((s.item j).kind.decayTo % 2 ^ 16).toNat) none
    split at h
    · next s' heq =>
      rw [heq] at hframe
      cases h
      exact hframe
    · next s' newItem heq =>
      rw [heq] at hframe hnew
      refine hframe.trans (hstart s' newItem t (lt_of_lt_of_le hi hframe.next) ?_ h)
      exact fun h => hnew (congrArg some h.symm)
  · cases h
    split
    · exact untouched_remove hij
    · exact .refl i s

theorem startDecay_untouched {answers : ℕ → ItemId → CylinderAnswers} {n : ℕ} (hi : i < s.next)
    (hij : i ≠ j) (h : Game.startDecay kinds answers n s j = some t) : Untouched i s t := by
  -- on the depth: an item without time left decays at once, into another one
  induction n generalizing s j t with
  | zero => cases h
  | succ n ih =>
    unfold Game.startDecay at h
    dsimp only at h
    split at h
    · cases h
      exact .refl i s
    split at h
    · cases h
      refine ⟨if_neg hij, ?_, fun _ => rfl, rfl, le_rfl⟩
      dsimp only
      rw [List.count_append, List.count_cons_of_ne (Ne.symm hij), List.count_nil, add_zero]
    · exact internalDecayItem_untouched hi hij (fun s' j' t' hi' hij' h' => ih hi' hij' h') h

theorem visitEntry_untouched {answers : ℕ → ItemId → CylinderAnswers} {n : ℕ} (hi : i < s.next)
    (hij : i ≠ j) (h : Game.visitEntry kinds answers n s j = some t) : Untouched i s t := by
  have haged : Untouched i s (s.setItem j (s.item j).aged) := untouched_setItem hij _
  unfold Game.visitEntry at h
  dsimp only at h
  split at h
  · cases h
    exact untouched_setItem hij _
  · exact haged.trans (internalDecayItem_untouched (lt_of_lt_of_le hi haged.next) hij
      (fun s' j' t' hi' hij' h' => startDecay_untouched hi' hij' h') h)
  · cases h
    exact haged.trans (untouched_pushBucket hij _)
  · cases h
    exact haged.trans (untouched_pushBucket hij _)

theorem visitEntries_untouched {answers : ℕ → ItemId → CylinderAnswers} {n : ℕ}
    {entries : List ItemId} (hi : i < s.next) (hnot : i ∉ entries)
    (h : entries.foldlM (Game.visitEntry kinds answers n) s = some t) : Untouched i s t := by
  -- on the entries, each of which is another item
  induction entries generalizing s with
  | nil =>
    cases h
    exact .refl i _
  | cons j entries ih =>
    rw [List.mem_cons, not_or] at hnot
    rw [List.foldlM_cons] at h
    obtain ⟨s', hvisit, hrest⟩ := Option.bind_eq_some_iff.mp h
    have hframe := visitEntry_untouched hi hnot.1 hvisit
    exact hframe.trans (ih (lt_of_lt_of_le hi hframe.next) hnot.2 hrest)

/-- Filing others. -/
theorem fileQueue_untouched (bucketFor : ItemId → ℕ) {queue : List ItemId} (hnot : i ∉ queue)
    (s : DecayState) :
    Untouched i s (queue.foldl (fun s' j => s'.pushBucket (bucketFor j) j) s) := by
  induction queue generalizing s with
  | nil => exact .refl i s
  | cons j queue ih =>
    rw [List.mem_cons, not_or] at hnot
    exact (untouched_pushBucket hnot.1 _).trans (ih hnot.2 _)

theorem cleanup_untouched (hnot : i ∉ s.toDecayItems) : Untouched i s (Game.cleanup s) := by
  have h := fileQueue_untouched s.bucketFor hnot s
  refine ⟨h.item, ?_, h.bucket, h.lastBucket, h.next⟩
  rw [List.count_eq_zero.mpr hnot]
  rfl

/-! ## Waiting in a bucket -/

/-- The bucket that the next tick visits. -/
def DecayState.nextBucket (s : DecayState) : ℕ := (s.lastBucket + 1) % eventDecayBuckets

/-- The state in which the next tick begins to visit its bucket. -/
def DecayState.emptied (s : DecayState) : DecayState :=
  { s with
    lastBucket := s.nextBucket
    decayItems := fun b => if b = s.nextBucket then [] else s.decayItems b }

/-- The next `Game::checkDecay` calls `internalDecayItem` for the item. -/
def Game.DecaysItem (kinds : KindId → Option DecayKind) (answers : ℕ → ItemId → CylinderAnswers)
    (n : ℕ) (s : DecayState) (i : ItemId) : Prop :=
  ∃ before after s', s.decayItems s.nextBucket = before ++ i :: after ∧
    before.foldlM (Game.visitEntry kinds answers n) s.emptied = some s' ∧
    (s'.item i).visit s'.lastBucket = .decay

/-- The item waits in one bucket, `m` ticks ahead, with a duration of `r` left. -/
structure Filed (i : ItemId) (m : ℕ) (r : ℤ) (s : DecayState) : Prop where
  lt : i < s.next
  lastBucket : s.lastBucket < eventDecayBuckets
  queue : i ∉ s.toDecayItems
  ahead : 1 ≤ m ∧ m ≤ eventDecayBuckets
  bucket : ∀ b, (s.decayItems b).count i =
    if b = (s.lastBucket + m) % eventDecayBuckets then 1 else 0
  duration : (s.item i).duration = some r
  canDecay : (s.item i).canDecay = true

theorem Filed.untouched {m : ℕ} {r : ℤ} (h : Filed i m r s) (hst : Untouched i s t) :
    Filed i m r t := by
  refine ⟨lt_of_lt_of_le h.lt hst.next, hst.lastBucket ▸ h.lastBucket, ?_, h.ahead, ?_, ?_, ?_⟩
  · rw [← List.count_eq_zero, hst.queue]
    exact List.count_eq_zero.mpr h.queue
  · intro b
    rw [hst.bucket, hst.lastBucket]
    exact h.bucket b
  · rw [hst.item]
    exact h.duration
  · rw [hst.item]
    exact h.canDecay

/-- The item waits nowhere. -/
structure Unfiled (i : ItemId) (s : DecayState) : Prop where
  lt : i < s.next
  lastBucket : s.lastBucket < eventDecayBuckets
  queue : i ∉ s.toDecayItems
  bucket : ∀ b, i ∉ s.decayItems b

theorem Unfiled.untouched (h : Unfiled i s) (hst : Untouched i s t) : Unfiled i t := by
  refine ⟨lt_of_lt_of_le h.lt hst.next, hst.lastBucket ▸ h.lastBucket, ?_, fun b => ?_⟩
  · rw [← List.count_eq_zero, hst.queue]
    exact List.count_eq_zero.mpr h.queue
  · rw [← List.count_eq_zero, hst.bucket]
    exact List.count_eq_zero.mpr (h.bucket b)

/-- The item, with a new duration, is put in a bucket. -/
theorem Unfiled.file (h : Unfiled i s) {item : DecayItem} {m b : ℕ} {r : ℤ}
    (hm : 1 ≤ m ∧ m ≤ eventDecayBuckets) (hb : b = (s.lastBucket + m) % eventDecayBuckets)
    (hduration : item.duration = some r) (hcan : item.canDecay = true) :
    Filed i m r ((s.setItem i item).pushBucket b i) := by
  refine ⟨h.lt, h.lastBucket, h.queue, hm, ?_, ?_, ?_⟩
  · intro b'
    have hcount := List.count_eq_zero.mpr (h.bucket b')
    simp only [DecayState.pushBucket, DecayState.setItem, ← hb]
    by_cases hb' : b' = b
    · rw [if_pos hb', if_pos hb', List.count_append, List.count_singleton_self, hcount]
    · rw [if_neg hb', if_neg hb']
      exact hcount
  · simp only [DecayState.pushBucket, DecayState.setItem, if_true]
    exact hduration
  · simp only [DecayState.pushBucket, DecayState.setItem, if_true]
    exact hcan

/-- The bucket is taken up. -/
theorem Filed.unfiled {r : ℤ} (h : Filed i 1 r s) : Unfiled i s.emptied := by
  refine ⟨h.lt, Nat.mod_lt _ (by decide), h.queue, fun b => ?_⟩
  simp only [DecayState.emptied]
  by_cases hb : b = s.nextBucket
  · rw [if_pos hb]
    exact List.not_mem_nil
  · rw [if_neg hb, ← List.count_eq_zero, h.bucket]
    exact if_neg hb

theorem checkDecay_eq {answers : ℕ → ItemId → CylinderAnswers} {n : ℕ} :
    Game.checkDecay kinds answers n s =
      ((s.decayItems s.nextBucket).foldlM (Game.visitEntry kinds answers n) s.emptied).map
        Game.cleanup := rfl

/-- A tick that visits another bucket. -/
theorem Filed.pass {answers : ℕ → ItemId → CylinderAnswers} {n m : ℕ} {r : ℤ}
    (h : Filed i (m + 1) r s) (hm : m ≠ 0) (htick : Game.checkDecay kinds answers n s = some t) :
    Filed i m r t ∧ ¬ Game.DecaysItem kinds answers n s i := by
  have hlast := h.lastBucket
  have hahead := h.ahead
  simp only [eventDecayBuckets] at hlast hahead
  have hne : s.nextBucket ≠ (s.lastBucket + (m + 1)) % eventDecayBuckets := by
    simp only [DecayState.nextBucket, eventDecayBuckets]
    omega
  have hnot : i ∉ s.decayItems s.nextBucket := by
    rw [← List.count_eq_zero, h.bucket, if_neg hne]
  -- the wheel has come one step closer
  have hemptied : Filed i m r s.emptied := by
    refine ⟨h.lt, Nat.mod_lt _ (by decide), h.queue, ⟨by omega, ?_⟩, ?_, h.duration, h.canDecay⟩
    · simp only [eventDecayBuckets]
      omega
    · intro b
      have hbucket := h.bucket b
      have hmod : (s.nextBucket + m) % eventDecayBuckets =
          (s.lastBucket + (m + 1)) % eventDecayBuckets := by
        simp only [DecayState.nextBucket, eventDecayBuckets]
        omega
      simp only [DecayState.emptied, hmod]
      by_cases hb : b = s.nextBucket
      · rw [if_pos hb, if_neg (hb ▸ hne), List.count_nil]
      · rw [if_neg hb]
        exact hbucket
  constructor
  · rw [checkDecay_eq] at htick
    obtain ⟨s', hfold, rfl⟩ := Option.map_eq_some_iff.mp htick
    have hfiled := hemptied.untouched (visitEntries_untouched hemptied.lt hnot hfold)
    exact hfiled.untouched (cleanup_untouched hfiled.queue)
  · rintro ⟨before, after, s', hsplit, -, -⟩
    rw [hsplit] at hnot
    exact hnot (List.mem_append_right _ List.mem_cons_self)

/-- What a visit of an item that can decay leads to. -/
theorem DecayItem.visit_eq {item : DecayItem} {r : ℤ} (hr : item.duration = some r)
    (hcan : item.canDecay = true) (bucket : ℕ) :
    item.aged.duration = some (if r < decayTurn then 0 else r - decayTurn) ∧
      item.visit bucket =
        if r ≤ decayTurn then .decay
        else if r < 2 * decayTurn then
          if (bucket + ((r - decayTurn + 500) / 1000).toNat) % eventDecayBuckets = bucket then .decay
          else .refile ((bucket + ((r - decayTurn + 500) / 1000).toNat) % eventDecayBuckets)
        else .keep := by
  have hduration : item.getDuration = r := by
    rw [DecayItem.getDuration, hr]
    rfl
  have haged : item.aged.duration = some (if r < decayTurn then 0 else r - decayTurn) := by
    simp only [DecayItem.aged, DecayItem.decreaseDuration, hduration, hr, Option.map_some,
      Option.some.injEq]
    split_ifs <;> omega
  have hcan' : item.aged.canDecay = true := hcan
  refine ⟨haged, ?_⟩
  -- less than a turn is used up whole
  have hleft : item.aged.getDuration = if r < decayTurn then 0 else r - decayTurn := by
    rw [DecayItem.getDuration, haged]
    rfl
  have hhalf : (1000 : ℤ) / 2 = 500 := rfl
  simp only [DecayItem.visit, hcan', hleft, eventDecayInterval, hhalf, Bool.not_true,
    Bool.false_eq_true, if_false]
  by_cases hturn : r ≤ decayTurn
  · rw [if_pos hturn, if_pos (by split_ifs <;> omega)]
  · rw [if_neg hturn, if_neg (by omega : ¬ r < decayTurn), if_neg (by omega)]
    by_cases hnear : r < 2 * decayTurn
    · rw [if_pos hnear, if_pos (by omega)]
    · rw [if_neg hnear, if_neg (by omega)]

/-- A tick that visits the item's bucket, entry by entry: the item is as it was when its own entry is
reached, and then the rest of the bucket and the queue leave it alone. -/
theorem Filed.visited {answers : ℕ → ItemId → CylinderAnswers} {n : ℕ} {r : ℤ}
    (h : Filed i 1 r s) (htick : Game.checkDecay kinds answers n s = some t) :
    ∃ s₁ s₂, Untouched i s.emptied s₁ ∧ Game.visitEntry kinds answers n s₁ i = some s₂ ∧
      (Game.DecaysItem kinds answers n s i ↔ (s₁.item i).visit s₁.lastBucket = .decay) ∧
      ∀ m r', Filed i m r' s₂ → Filed i m r' t := by
  have hcount : (s.decayItems s.nextBucket).count i = 1 := by
    rw [h.bucket]
    exact if_pos rfl
  have hmem : i ∈ s.decayItems s.nextBucket := by
    rw [← List.count_pos_iff, hcount]
    exact Nat.one_pos
  -- the entries before the one of the item, and those behind it
  obtain ⟨before, after, hsplit, hbefore⟩ := List.eq_append_cons_of_mem hmem
  have hafter : i ∉ after := by
    rw [hsplit, List.count_append, List.count_cons_self, List.count_eq_zero.mpr hbefore] at hcount
    exact List.count_eq_zero.mp (by omega)
  rw [checkDecay_eq, hsplit, List.foldlM_append] at htick
  obtain ⟨s', hfold, rfl⟩ := Option.map_eq_some_iff.mp htick
  obtain ⟨s₁, hfirst, hrest⟩ := Option.bind_eq_some_iff.mp hfold
  rw [List.foldlM_cons] at hrest
  obtain ⟨s₂, hvisit, hlater⟩ := Option.bind_eq_some_iff.mp hrest
  refine ⟨s₁, s₂, visitEntries_untouched h.lt hbefore hfirst, hvisit, ⟨?_, ?_⟩, ?_⟩
  · rintro ⟨before', after', s'', hsplit', hfirst', hdecay⟩
    rw [hsplit'] at hsplit
    -- the item has one entry, so there is one way to split
    obtain ⟨rfl, -, -⟩ := (List.append_cons_inj_of_notMem hbefore hafter).mp hsplit.symm
    rw [hfirst] at hfirst'
    cases hfirst'
    exact hdecay
  · exact fun hdecay => ⟨before, after, s₁, hsplit, hfirst, hdecay⟩
  · intro m r' hfiled
    have hs' := hfiled.untouched (visitEntries_untouched hfiled.lt hafter hlater)
    exact hs'.untouched (cleanup_untouched hs'.queue)

/-- A tick that visits the item's bucket: the item decays, or it waits in another bucket, or in the
same one for another turn. -/
theorem Filed.arrive {answers : ℕ → ItemId → CylinderAnswers} {n : ℕ} {r : ℤ}
    (h : Filed i 1 r s) (htick : Game.checkDecay kinds answers n s = some t) :
    if r ≤ decayTurn ∨ r < 2 * decayTurn ∧ (r - decayTurn + 500) / 1000 % 16 = 0 then
      Game.DecaysItem kinds answers n s i
    else ¬ Game.DecaysItem kinds answers n s i ∧
      Filed i (if r < 2 * decayTurn then ((r - decayTurn + 500) / 1000).toNat else 16)
        (r - decayTurn) t := by
  obtain ⟨s₁, s₂, hframe, hvisit, hdecays, hfiled⟩ := h.visited htick
  have hunfiled := h.unfiled.untouched hframe
  have hlast := hunfiled.lastBucket
  have hduration : (s₁.item i).duration = some r := by
    rw [hframe.item]
    exact h.duration
  have hcan : (s₁.item i).canDecay = true := by
    rw [hframe.item]
    exact h.canDecay
  obtain ⟨haged, hvisited⟩ := DecayItem.visit_eq hduration hcan s₁.lastBucket
  unfold Game.visitEntry at hvisit
  dsimp only at hvisit
  rw [hvisited] at hvisit hdecays
  have hturn : decayTurn = 16000 := rfl
  simp only [eventDecayBuckets] at hlast
  by_cases hnow : r ≤ decayTurn
  · rw [if_pos (.inl hnow), hdecays, if_pos hnow]
  rw [if_neg hnow] at hvisit hdecays
  rw [if_neg (by omega)] at haged
  by_cases hnear : r < 2 * decayTurn
  · rw [if_pos hnear] at hvisit hdecays
    -- a rest that rounds to a whole turn, or to nothing, leads back to the same bucket
    by_cases hsame : (r - decayTurn + 500) / 1000 % 16 = 0
    · have hback : (s₁.lastBucket + ((r - decayTurn + 500) / 1000).toNat) % eventDecayBuckets =
          s₁.lastBucket := by
        simp only [eventDecayBuckets]
        omega
      rw [if_pos (.inr ⟨hnear, hsame⟩), hdecays, if_pos hback]
    · have hother : (s₁.lastBucket + ((r - decayTurn + 500) / 1000).toNat) % eventDecayBuckets ≠
          s₁.lastBucket := by
        simp only [eventDecayBuckets]
        omega
      rw [if_neg hother] at hvisit hdecays
      rw [if_neg (by tauto), hdecays, if_pos hnear]
      refine ⟨by simp, hfiled _ _ ?_⟩
      cases hvisit
      exact hunfiled.file (by simp only [eventDecayBuckets]; omega) rfl haged hcan
  -- more than a turn is left: the item stays for another turn
  · rw [if_neg hnear] at hvisit hdecays
    rw [if_neg (by tauto), hdecays, if_neg hnear]
    refine ⟨by simp, hfiled _ _ ?_⟩
    cases hvisit
    exact hunfiled.file (by decide) (by simp only [eventDecayBuckets]; omega) haged hcan

/-! ## A run of ticks -/

/-- Ticks of `Game::checkDecay`; whatever the server does between them leaves the item alone. -/
structure DecayRun (kinds : KindId → Option DecayKind) (i : ItemId) where
  before : ℕ → DecayState
  after : ℕ → DecayState
  answers : ℕ → ℕ → ItemId → CylinderAnswers
  depth : ℕ → ℕ
  tick : ∀ k, Game.checkDecay kinds (answers k) (depth k) (before k) = some (after k)
  alone : ∀ k, Untouched i (after k) (before (k + 1))

/-- The tick of the given number, from 0, calls `internalDecayItem` for the item. -/
def DecayRun.Decays (run : DecayRun kinds i) (k : ℕ) : Prop :=
  Game.DecaysItem kinds (run.answers k) (run.depth k) (run.before k) i

/-- `internalDecayItem` is called for the item after `n` ticks, for the first time. -/
def DecayRun.DecaysAfter (run : DecayRun kinds i) (n : ℕ) : Prop :=
  ∃ k, n = k + 1 ∧ run.Decays k ∧ ∀ k' < k, ¬ run.Decays k'

theorem DecayRun.DecaysAfter.unique {run : DecayRun kinds i} {n n' : ℕ} (h : run.DecaysAfter n)
    (h' : run.DecaysAfter n') : n = n' := by
  obtain ⟨k, rfl, hk, hfirst⟩ := h
  obtain ⟨k', rfl, hk', hfirst'⟩ := h'
  have hle : ¬ k < k' := fun hlt => hfirst' k hlt hk
  have hge : ¬ k' < k := fun hlt => hfirst k' hlt hk'
  omega

/-- The item waits until its bucket comes up. -/
theorem DecayRun.waits (run : DecayRun kinds i) {m : ℕ} {r : ℤ} (k : ℕ)
    (h : Filed i (m + 1) r (run.before k)) :
    Filed i 1 r (run.before (k + m)) ∧ ∀ k', k ≤ k' → k' < k + m → ¬ run.Decays k' := by
  -- on the ticks until the bucket comes up
  induction m generalizing k with
  | zero => exact ⟨h, fun k' hle hlt => absurd hlt (not_lt.mpr hle)⟩
  | succ m ih =>
    obtain ⟨hpass, hnot⟩ := h.pass (by omega) (run.tick k)
    obtain ⟨hfiled, hwait⟩ := ih (k + 1) (hpass.untouched (run.alone k))
    have hindex : k + 1 + m = k + (m + 1) := by omega
    rw [hindex] at hfiled hwait
    refine ⟨hfiled, fun k' hle hlt => ?_⟩
    rcases Nat.eq_or_lt_of_le hle with rfl | hlater
    · exact hnot
    · exact hwait k' hlater hlt

/-- How many ticks after the first visit an item with more than a turn left decays: whole turns, then
the rest rounded to ticks, where a rest that rounds to a whole turn counts nothing. -/
def ticksAfterVisit (r : ℤ) : ℤ :=
  if r ≤ decayTurn then 0
  else 16 * ((r - decayTurn) / decayTurn) + ((r - decayTurn) % decayTurn + 500) / 1000 % 16

/-- The tick at which an item that waits in a bucket decays. -/
theorem DecayRun.decays (run : DecayRun kinds i) {m : ℕ} {r : ℤ} (k : ℕ) (hr : 0 < r)
    (h : Filed i m r (run.before k)) :
    ∃ k' : ℕ, (k' : ℤ) + 1 = k + m + ticksAfterVisit r ∧ run.Decays k' ∧
      ∀ k'', k ≤ k'' → k'' < k' → ¬ run.Decays k'' := by
  -- the duration shrinks by a turn with every visit
  obtain ⟨bound, hbound⟩ : ∃ bound : ℕ, r.toNat ≤ bound := ⟨_, le_rfl⟩
  induction bound generalizing r m k with
  | zero => omega
  | succ bound ih =>
    have hm := h.ahead.1
    obtain ⟨m, rfl⟩ : ∃ m', m = m' + 1 := ⟨m - 1, by omega⟩
    obtain ⟨hfiled, hwait⟩ := run.waits k h
    have harrive := hfiled.arrive (run.tick (k + m))
    have hturn : decayTurn = 16000 := rfl
    by_cases hdecays : r ≤ decayTurn ∨ r < 2 * decayTurn ∧ (r - decayTurn + 500) / 1000 % 16 = 0
    · rw [if_pos hdecays] at harrive
      refine ⟨k + m, ?_, harrive, hwait⟩
      have hzero : ticksAfterVisit r = 0 := by
        unfold ticksAfterVisit
        rw [hturn] at hdecays ⊢
        split
        · rfl
        · omega
      rw [hzero]
      push_cast
      omega
    · rw [if_neg hdecays] at harrive
      obtain ⟨hnot, hnext⟩ := harrive
      rw [hturn] at hdecays
      -- from the tick of the visit on, with a turn less
      obtain ⟨k', hk', hdecay, hfirst⟩ := ih (k + m + 1) (by omega)
        (hnext.untouched (run.alone (k + m))) (by omega)
      refine ⟨k', ?_, hdecay, fun k'' hle hlt => ?_⟩
      · unfold ticksAfterVisit at hk' ⊢
        rw [hturn] at hk' ⊢
        rw [if_neg (by omega)]
        push_cast at hk'
        split_ifs at hk' <;> omega
      · rcases lt_trichotomy k'' (k + m) with hlt' | rfl | hgt
        · exact hwait k'' hle hlt'
        · exact hnot
        · exact hfirst k'' hgt hlt

/-! ## From the queue to the bucket -/

/-- `Game::startDecay` queues an item that has time left. -/
theorem startDecay_queues {answers : ℕ → ItemId → CylinderAnswers} {n : ℕ} {d : ℤ}
    (hduration : (s.item i).duration = some d) (hd : 0 < d) (hcan : (s.item i).canDecay = true)
    (hstate : (s.item i).getDecaying ≠ .decayingTrue)
    (h : Game.startDecay kinds answers n s i = some t) :
    t = { s.setItem i ((s.item i).setDecaying .decayingTrue) with
      toDecayItems := s.toDecayItems ++ [i] } := by
  cases n with
  | zero => cases h
  | succ n =>
    have hleft : (s.item i).getDuration = d := by
      rw [DecayItem.getDuration, hduration]
      rfl
    simp only [Game.startDecay, hcan, hstate, hleft, hd, Bool.not_true, decide_false,
      Bool.or_false, Bool.false_eq_true, if_false, if_true, Option.some.injEq] at h
    exact h.symm

/-- The bucket that `Game::cleanup` chooses. -/
theorem bucketFor_eq {d : ℤ} (hduration : (s.item i).duration = some d) (hd : 0 < d)
    (hlast : s.lastBucket < eventDecayBuckets) :
    s.bucketFor i = (s.lastBucket + if decayTurn ≤ d then 16 else (1 + d / 1000).toNat) %
      eventDecayBuckets := by
  have hleft : (s.item i).getDuration = d := by
    rw [DecayItem.getDuration, hduration]
    rfl
  have hturn : decayTurn = 16000 := rfl
  unfold DecayState.bucketFor
  dsimp only
  rw [hleft, hturn, Int.tdiv_eq_ediv_of_nonneg (le_of_lt hd)]
  simp only [eventDecayBuckets] at hlast ⊢
  split
  · omega
  · omega

/-- `Game::cleanup` files what it finds in the queue from an empty queue on. -/
theorem cleanup_eq : Game.cleanup s =
    s.toDecayItems.foldl (fun (s' : DecayState) j => s'.pushBucket (s.bucketFor j) j)
      { s with toDecayItems := [] } :=
  (List.foldl_hom (fun s' : DecayState => { s' with toDecayItems := [] })
    (fun _ _ => rfl)).symm

/-- `Game::cleanup` files an item that is queued once. -/
theorem cleanup_files (hlt : i < s.next) (hlast : s.lastBucket < eventDecayBuckets)
    (hqueue : s.toDecayItems.count i = 1) (hbucket : ∀ b, (s.decayItems b).count i = 0) {d : ℤ}
    (hduration : (s.item i).duration = some d) (hd : 0 < d)
    (hcan : (s.item i).canDecay = true) :
    Filed i (if decayTurn ≤ d then 16 else (1 + d / 1000).toNat) d (Game.cleanup s) := by
  have hmem : i ∈ s.toDecayItems := by
    rw [← List.count_pos_iff, hqueue]
    exact Nat.one_pos
  obtain ⟨before, after, hsplit, hbefore⟩ := List.eq_append_cons_of_mem hmem
  have hafter : i ∉ after := by
    rw [hsplit, List.count_append, List.count_cons_self, List.count_eq_zero.mpr hbefore] at hqueue
    exact List.count_eq_zero.mp (by omega)
  -- while the queue is filed, only the entry of the item itself counts
  have hunfiled : Unfiled i { s with toDecayItems := [] } :=
    ⟨hlt, hlast, List.not_mem_nil, fun b => List.count_eq_zero.mp (hbucket b)⟩
  have hfirst := fileQueue_untouched s.bucketFor hbefore { s with toDecayItems := [] }
  rw [cleanup_eq, hsplit, List.foldl_append, List.foldl_cons]
  generalize before.foldl (fun (s' : DecayState) j => s'.pushBucket (s.bucketFor j) j)
    { s with toDecayItems := [] } = s₁ at hfirst ⊢
  have hitem : s₁.setItem i (s₁.item i) = s₁ := by
    unfold DecayState.setItem
    congr 1
    funext j
    split
    · next hj => rw [hj]
    · rfl
  have hturn : decayTurn = 16000 := rfl
  have hahead : 1 ≤ (if decayTurn ≤ d then 16 else (1 + d / 1000).toNat) ∧
      (if decayTurn ≤ d then 16 else (1 + d / 1000).toNat) ≤ eventDecayBuckets := by
    rw [hturn]
    simp only [eventDecayBuckets]
    split <;> omega
  have hbucketFor := bucketFor_eq hduration hd hlast
  have hlast₁ : s₁.lastBucket = s.lastBucket := hfirst.lastBucket
  rw [← hlast₁] at hbucketFor
  have hduration₁ : (s₁.item i).duration = some d := by
    rw [hfirst.item]
    exact hduration
  have hcan₁ : (s₁.item i).canDecay = true := by
    rw [hfirst.item]
    exact hcan
  have hfiled := (hunfiled.untouched hfirst).file hahead hbucketFor hduration₁ hcan₁
  rw [hitem] at hfiled
  exact hfiled.untouched (fileQueue_untouched s.bucketFor hafter _)

/-- The tick at which an item decays that is new to the buckets and entered by
`Game::startDecay`. -/
theorem DecayRun.decaysAfter {s s₀ s₁ : DecayState} {answers : ℕ → ItemId → CylinderAnswers}
    {depth : ℕ} {d : ℤ} (run : DecayRun kinds i) (hnew : Unfiled i s)
    (hduration : (s.item i).duration = some d) (hd : 0 < d)
    (hcan : (s.item i).canDecay = true) (hstate : (s.item i).getDecaying ≠ .decayingTrue)
    (hstart : Game.startDecay kinds answers depth s i = some s₀) (hqueued : Untouched i s₀ s₁)
    (hfiled : Untouched i (Game.cleanup s₁) (run.before 0)) :
    ∃ n : ℕ, run.DecaysAfter n ∧
      (n : ℤ) = (if decayTurn ≤ d then 16 else 1 + d / 1000) + ticksAfterVisit d := by
  have hqueue := startDecay_queues hduration hd hcan hstate hstart
  -- while it is queued the item keeps its duration, and it may still decay
  have hitem : s₀.item i = (s.item i).setDecaying .decayingTrue := by
    rw [hqueue]
    exact if_pos rfl
  have hfile : Filed i (if decayTurn ≤ d then 16 else (1 + d / 1000).toNat) d (Game.cleanup s₁) := by
    refine cleanup_files ?_ ?_ ?_ ?_ ?_ hd ?_
    · have hnext := hqueued.next
      rw [hqueue] at hnext
      exact lt_of_lt_of_le hnew.lt hnext
    · rw [hqueued.lastBucket, hqueue]
      exact hnew.lastBucket
    · rw [hqueued.queue, hqueue]
      simp only [List.count_append, List.count_eq_zero.mpr hnew.queue, List.count_singleton_self]
    · intro b
      rw [hqueued.bucket, hqueue]
      exact List.count_eq_zero.mpr (hnew.bucket b)
    · rw [hqueued.item, hitem]
      exact hduration
    · rw [hqueued.item, hitem]
      exact hcan
  obtain ⟨k, hk, hdecays, hfirst⟩ := run.decays 0 hd (hfile.untouched hfiled)
  refine ⟨k + 1, ⟨k, rfl, hdecays, fun k' hlt => hfirst k' (Nat.zero_le _) hlt⟩, ?_⟩
  have hturn : decayTurn = 16000 := rfl
  rw [hturn] at hk ⊢
  push_cast at hk ⊢
  split_ifs at hk ⊢ <;> omega

/-- An item that is new to the buckets and entered by `Game::startDecay` decays within a tick of its
duration unless the duration is longer than a turn and its rest rounds up to a whole turn. -/
theorem decay_timing {s s₀ s₁ : DecayState} {answers : ℕ → ItemId → CylinderAnswers} {depth : ℕ}
    {d : ℤ} (hnew : Unfiled i s) (hduration : (s.item i).duration = some d) (hd : 0 < d)
    (hcan : (s.item i).canDecay = true) (hstate : (s.item i).getDecaying ≠ .decayingTrue)
    (hstart : Game.startDecay kinds answers depth s i = some s₀) (hqueued : Untouched i s₀ s₁)
    (run : DecayRun kinds i) (hfiled : Untouched i (Game.cleanup s₁) (run.before 0)) :
    ∃ n, run.DecaysAfter n ∧
      (d - eventDecayInterval ≤ n * eventDecayInterval ∧
          n * eventDecayInterval ≤ d + eventDecayInterval ↔
        ¬ (decayTurn ≤ d ∧ decayTurn - eventDecayInterval / 2 ≤ d % decayTurn)) := by
  -- the number of ticks is known, so the rest is arithmetic
  obtain ⟨n, hafter, hn⟩ := run.decaysAfter hnew hduration hd hcan hstate hstart hqueued hfiled
  refine ⟨n, hafter, ?_⟩
  have hturn : decayTurn = 16000 := rfl
  unfold ticksAfterVisit at hn
  rw [hturn] at hn ⊢
  simp only [eventDecayInterval]
  split_ifs at hn <;> omega

namespace SmallWheel

/-- A kind whose items vanish when they have decayed. -/
def torch : DecayKind := { id := 2050, decayTo := 0, decayTime := 60 }

/-- Item 0 is a torch with some time left. -/
def torchLeft (d : ℤ) : DecayState where
  item _ := { kind := torch, duration := some d }
  next := 1

def torchKinds (id : KindId) : Option DecayKind := if id = torch.id then some torch else none

/-- Torches never fail to decay: they are removed. -/
def AllTorches (s : DecayState) : Prop := ∀ j, (s.item j).kind.decayTo = 0

theorem allTorches_setItem {s : DecayState} {j : ItemId} {item : DecayItem} (h : AllTorches s)
    (hitem : item.kind.decayTo = 0) : AllTorches (s.setItem j item) := by
  intro j'
  simp only [DecayState.setItem]
  split
  · exact hitem
  · exact h j'

theorem allTorches_visitEntry {s : DecayState} (h : AllTorches s) (j : ItemId) :
    ∃ t, Game.visitEntry torchKinds (fun _ _ => {}) 1 s j = some t ∧ AllTorches t := by
  have haged : AllTorches (s.setItem j (s.item j).aged) := allTorches_setItem h (h j)
  unfold Game.visitEntry
  dsimp only
  split
  · exact ⟨_, rfl, allTorches_setItem h (h j)⟩
  · have hdecayTo := haged j
    simp only [Game.internalDecayItem, hdecayTo]
    exact ⟨_, rfl, allTorches_setItem haged hdecayTo⟩
  · exact ⟨_, rfl, haged⟩
  · exact ⟨_, rfl, haged⟩

theorem allTorches_fileQueue (bucketFor : ItemId → ℕ) (queue : List ItemId) {s : DecayState}
    (h : AllTorches s) :
    AllTorches (queue.foldl (fun (s' : DecayState) j => s'.pushBucket (bucketFor j) j) s) := by
  induction queue generalizing s with
  | nil => exact h
  | cons j queue ih => exact ih h

theorem allTorches_checkDecay {s : DecayState} (h : AllTorches s) :
    ∃ t, Game.checkDecay torchKinds (fun _ _ => {}) 1 s = some t ∧ AllTorches t := by
  have hfold : ∀ (entries : List ItemId) (s : DecayState), AllTorches s →
      ∃ t, entries.foldlM (Game.visitEntry torchKinds (fun _ _ => {}) 1) s = some t ∧
        AllTorches t := by
    intro entries
    induction entries with
    | nil => exact fun s h => ⟨s, rfl, h⟩
    | cons j entries ih =>
      intro s h
      obtain ⟨s', hvisit, hs'⟩ := allTorches_visitEntry h j
      obtain ⟨t, hrest, ht⟩ := ih s' hs'
      refine ⟨t, ?_, ht⟩
      rw [List.foldlM_cons, hvisit]
      exact hrest
  obtain ⟨t, hvisits, ht⟩ := hfold (s.decayItems s.nextBucket) s.emptied h
  refine ⟨Game.cleanup t, ?_, allTorches_fileQueue t.bucketFor t.toDecayItems ht⟩
  rw [checkDecay_eq, hvisits]
  rfl

/-- The states between the ticks. -/
def torchTicks (s : DecayState) : ℕ → DecayState
  | 0 => s
  | k + 1 => (Game.checkDecay torchKinds (fun _ _ => {}) 1 (torchTicks s k)).getD s

theorem allTorches_torchTicks {s : DecayState} (h : AllTorches s) (k : ℕ) :
    AllTorches (torchTicks s k) := by
  induction k with
  | zero => exact h
  | succ k ih =>
    obtain ⟨t, htick, ht⟩ := allTorches_checkDecay ih
    simp only [torchTicks, htick, Option.getD_some]
    exact ht

def torchRun (s : DecayState) (h : AllTorches s) : DecayRun torchKinds 0 where
  before := torchTicks s
  after k := torchTicks s (k + 1)
  answers _ _ _ := {}
  depth _ := 1
  tick k := by
    obtain ⟨t, htick, -⟩ := allTorches_checkDecay (allTorches_torchTicks h k)
    simp only [torchTicks, htick, Option.getD_some]
  alone _ := .refl 0 _

/-- The torch once it is queued. -/
def torchQueued (d : ℤ) : DecayState :=
  { (torchLeft d).setItem 0 (((torchLeft d).item 0).setDecaying .decayingTrue) with
    toDecayItems := [0] }

theorem allTorches_queued (d : ℤ) : AllTorches (Game.cleanup (torchQueued d)) :=
  have hqueued : AllTorches (torchQueued d) := allTorches_setItem (fun _ => rfl) rfl
  allTorches_fileQueue (torchQueued d).bucketFor [0] hqueued

theorem torchLeft_unfiled (d : ℤ) : Unfiled 0 (torchLeft d) :=
  ⟨Nat.one_pos, Nat.succ_pos 15, List.not_mem_nil, fun _ => List.not_mem_nil⟩

end SmallWheel

open SmallWheel in
/-- A torch with 31.5 seconds left decays after 16 ticks, 15.5 seconds too early. -/
theorem decay_not_timely :
    ∃ run : DecayRun torchKinds 0,
      Game.startDecay torchKinds (fun _ _ => {}) 1 (torchLeft 31500) 0 =
        some (torchQueued 31500) ∧
      run.before 0 = Game.cleanup (torchQueued 31500) ∧ run.DecaysAfter 16 ∧
      ∀ n, run.DecaysAfter n → ¬ 31500 - eventDecayInterval ≤ n * eventDecayInterval := by
  have hstart : Game.startDecay torchKinds (fun _ _ => {}) 1 (torchLeft 31500) 0 =
      some (torchQueued 31500) := rfl
  -- 31500 is a turn and 15500, which rounds to a whole turn
  let run := torchRun (Game.cleanup (torchQueued 31500)) (allTorches_queued 31500)
  obtain ⟨n, hafter, hn⟩ := run.decaysAfter (torchLeft_unfiled 31500) rfl (by decide) (by decide)
    (by decide) hstart (.refl 0 _) (.refl 0 _)
  have hticks : ((if decayTurn ≤ 31500 then 16 else 1 + 31500 / 1000) + ticksAfterVisit 31500 : ℤ) =
      16 := by decide
  have hsixteen : n = 16 := by omega
  refine ⟨run, hstart, rfl, hsixteen ▸ hafter, fun n' hn' => ?_⟩
  rw [hn'.unique hafter, hsixteen]
  decide

open SmallWheel in
theorem decay_timing_torch :
    ∃ n, (torchRun (Game.cleanup (torchQueued 40000)) (allTorches_queued 40000)).DecaysAfter n ∧
      ((40000 : ℤ) - eventDecayInterval ≤ n * eventDecayInterval ∧
          n * eventDecayInterval ≤ 40000 + eventDecayInterval ↔
        ¬ (decayTurn ≤ 40000 ∧ decayTurn - eventDecayInterval / 2 ≤ 40000 % decayTurn)) := by
  have hstart : Game.startDecay torchKinds (fun _ _ => {}) 1 (torchLeft 40000) 0 =
      some (torchQueued 40000) := rfl
  exact decay_timing (torchLeft_unfiled 40000) rfl (by decide) (by decide) (by decide) hstart
    (.refl 0 _) _ (.refl 0 _)

end TyanoCore
