import TyanoCore.RemoveReturns

/-!
# What a removal takes out of an inventory

What leaves with a deal: the items that go, with all that lies in them, and a part of a stack.  No
item of the scan occurs in it twice, and what lies in an item that goes is not in the scan.
-/

namespace TyanoCore

open RemoveRequest

variable {srv : Server} {w w' w'' : World}

namespace RemoveRequest

variable {r : RemoveRequest}

/-! ## The places of the scan -/

theorem mem_entries {nested nested' : Bool} {items containers : List ItemId} {i : ItemId} :
    (nested', i) ∈ entries w nested items containers ↔
      (nested' = nested ∧ i ∈ items) ∨
        (nested' = true ∧ ∃ j ∈ containers, i ∈ (w.item j).itemlist) := by
  simp only [entries, List.mem_append, List.mem_map, List.mem_flatMap, Prod.mk.injEq]
  constructor
  · rintro (⟨_, hi, rfl, rfl⟩ | ⟨j, hj, _, hi, rfl, rfl⟩)
    · exact .inl ⟨rfl, hi⟩
    · exact .inr ⟨rfl, j, hj, hi⟩
  · rintro (⟨rfl, hi⟩ | ⟨rfl, j, hj, hi⟩)
    · exact .inl ⟨i, hi, rfl, rfl⟩
    · exact .inr ⟨j, hj, i, hi, rfl, rfl⟩

theorem parent_of_mem_scanned (hw : w.Consistent) {nested : Bool} {i : ItemId}
    (h : (nested, i) ∈ r.scanned w) :
    (nested = false ∧ (w.item i).parent = some r.cylinder) ∨
      (nested = true ∧ ∃ j ∈ r.entered w, (w.item i).parent = some (.container j)) := by
  rcases mem_entries.mp h with ⟨hnested, hi⟩ | ⟨hnested, j, hj, hi⟩
  · exact .inl ⟨hnested, (hw.mem_things r.cylinder i).mp hi⟩
  · exact .inr ⟨hnested, j, hj, (hw.mem_things (.container j) i).mp hi⟩

/-- Every item comes once. -/
theorem scanned_nodup (hw : w.Consistent) (hnested : w.Nested) (r : RemoveRequest) :
    ((r.scanned w).map Prod.snd).Nodup := by
  have heq : (r.scanned w).map Prod.snd =
      w.things r.cylinder ++ (r.entered w).flatMap fun j => (w.item j).itemlist := by
    have hsnd (nested : Bool) (items : List ItemId) :
        (items.map (nested, ·)).map Prod.snd = items := by
      rw [List.map_map]
      exact items.map_id
    rw [scanned, entries, List.map_append, hsnd, List.map_flatMap]
    simp only [hsnd]
  rw [heq, List.nodup_append, List.nodup_flatMap]
  -- no item has two parents, and the place is none of the containers
  refine ⟨hw.things_nodup _, ⟨fun j _ => hw.distinct.itemlist j, ?_⟩, ?_⟩
  · refine (entered_nodup hw hnested r).imp fun {j k} hjk i hj hk => hjk ?_
    have hpj := (hw.mem_things (.container j) i).mp hj
    rw [(hw.mem_things (.container k) i).mp hk] at hpj
    exact (Cylinder.container.inj (Option.some.inj hpj)).symm
  · intro i hi i' hi' heq
    subst heq
    obtain ⟨j, hj, hij⟩ := List.mem_flatMap.mp hi'
    have hparent := (hw.mem_things r.cylinder i).mp hi
    rw [(hw.mem_things (.container j) i).mp hij] at hparent
    exact cylinder_ne_entered hnested hj (Option.some.inj hparent).symm

/-- A container that is gone through has been come to, and was not asked for. -/
theorem entered_not_asked (hw : w.Consistent) (hnested : w.Nested) {j : ItemId}
    (hj : j ∈ r.entered w) :
    ∃ nested, (nested, j) ∈ r.scanned w ∧ r.asks nested (w.item j) = false := by
  have hopened {nested : Bool} {items : List ItemId} (h : j ∈ r.opened w nested items) :
      j ∈ items ∧ r.asks nested (w.item j) = false := by
    obtain ⟨hmem, hcond⟩ := List.mem_filter.mp h
    exact ⟨hmem, (Bool.not_eq_true' _).mp (Bool.and_eq_true_iff.mp hcond).2⟩
  rcases (visits_entered hw hnested r).mem_cases hj with hqueue | ⟨k, hk, hchild⟩
  · obtain ⟨hmem, hasks⟩ := hopened hqueue
    exact ⟨false, mem_entries.mpr (.inl ⟨rfl, hmem⟩), hasks⟩
  · obtain ⟨hmem, hasks⟩ := hopened hchild
    exact ⟨true, mem_entries.mpr (.inr ⟨rfl, k, hk, hmem⟩), hasks⟩

section

variable (hw : w.Consistent) (hnested : w.Nested) {p : PlayerId} (hplayer : r.cylinder = .player p)

include hw hnested hplayer

/-- What is around a container that is gone through is gone through, too. -/
theorem entered_of_within {g j : ItemId} (hj : j ∈ r.entered w)
    (h : w.Within (.container g) j) : g ∈ r.entered w := by
  have hup {j k : ItemId} (hj : j ∈ r.entered w)
      (hparent : (w.item j).parent = some (.container k)) : k ∈ r.entered w := by
    obtain ⟨nested, hscan, -⟩ := entered_not_asked hw hnested hj
    rcases parent_of_mem_scanned hw hscan with ⟨-, hparent'⟩ | ⟨-, k', hk', hparent'⟩
    · rw [hparent, hplayer] at hparent'
      cases hparent'
    · rw [hparent] at hparent'
      cases hparent'
      exact hk'
  induction h with
  | thing h => exact hup hj h
  | nested h _ ih => exact ih (hup hj h)

/-- What lies in an item that is asked for does not come. -/
theorem scanned_not_within {nested nested' : Bool} {g i : ItemId}
    (hg : (nested, g) ∈ r.scanned w) (hasks : r.asks nested (w.item g) = true)
    (hi : (nested', i) ∈ r.scanned w) : ¬ w.Within (.container g) i := by
  intro hin
  -- the item would be gone through, but what is asked for is not
  have hentered : g ∈ r.entered w := by
    rcases parent_of_mem_scanned hw hi with ⟨-, hparent⟩ | ⟨-, j, hj, hparent⟩
    · rw [hplayer] at hparent
      cases hin with
      | thing hin => cases hparent.symm.trans hin
      | nested hin _ => cases hparent.symm.trans hin
    · rcases hin.around hparent with rfl | hin
      · exact hj
      · exact entered_of_within hw hnested hplayer hj hin
  obtain ⟨nested'', hscan, hasks'⟩ := entered_not_asked hw hnested hentered
  have hsame : nested'' = nested :=
    congrArg Prod.fst (List.inj_on_of_nodup_map (scanned_nodup hw hnested r) hscan hg rfl)
  rw [hsame, hasks] at hasks'
  cases hasks'

/-- All that comes is in the inventory. -/
theorem within_of_mem_scanned {nested : Bool} {i : ItemId} (h : (nested, i) ∈ r.scanned w) :
    w.Within (.player p) i := by
  have hthing {a : ItemId} (ha : a ∈ w.things r.cylinder) : w.Within (.player p) a :=
    .thing (((hw.mem_things r.cylinder a).mp ha).trans (congrArg some hplayer))
  rcases mem_entries.mp h with ⟨-, hi⟩ | ⟨-, j, hj, hi⟩
  · exact hthing hi
  · obtain ⟨a, ha, haj⟩ := Walk.visit_below hj
    have ha := hthing (List.mem_filter.mp ha).1
    have hj : w.Within (.player p) j := by
      rcases haj with rfl | haj
      · exact ha
      · exact (hnested.below_iff.mp (haj.of_sublist (openedIn_sublist r w))).trans ha
    exact .nested ((hw.mem_things (.container j) i).mp hi) hj

end

/-! ## What a deal takes -/

/-- The deals, by what becomes of the first item. -/
inductive Deals (r : RemoveRequest) (w : World) : ℕ → List (Bool × ItemId) → Deal → Prop
  | paid {entries : List (Bool × ItemId)} : Deals r w 0 entries { left := 0 }
  | «over» {k : ℕ} : Deals r w k [] { left := k }
  | pass {k : ℕ} {e : Bool × ItemId} {entries : List (Bool × ItemId)} {d : Deal}
      (h : Deals r w k entries d) : Deals r w k (e :: entries) d
  | refused {k : ℕ} {e : Bool × ItemId} {entries : List (Bool × ItemId)} (hpos : 0 < k)
      (htakes : r.takes e.1 (w.item e.2) = true) (hremove : (w.item e.2).removable = false) :
      Deals r w k (e :: entries) { left := 0 }
  | part {k : ℕ} {e : Bool × ItemId} {entries : List (Bool × ItemId)} (hpos : 0 < k)
      (htakes : r.takes e.1 (w.item e.2) = true) (hremove : (w.item e.2).removable = true)
      (hless : k < (w.item e.2).supply) :
      Deals r w k (e :: entries) { part := some (e.2, k), left := 0 }
  | whole {k : ℕ} {e : Bool × ItemId} {entries : List (Bool × ItemId)} {d : Deal}
      (htakes : r.takes e.1 (w.item e.2) = true) (hremove : (w.item e.2).removable = true)
      (hle : (w.item e.2).supply ≤ k) (h : Deals r w (k - (w.item e.2).supply) entries d) :
      Deals r w k (e :: entries) { d with gone := e.2 :: d.gone }

theorem deals_of_deal {k : ℕ} {entries : List (Bool × ItemId)} {d : Deal}
    (h : r.deal w k entries = some d) : Deals r w k entries d := by
  induction entries generalizing k d with
  | nil =>
    cases h
    exact .«over»
  | cons e entries ih =>
    rcases Nat.eq_zero_or_pos k with rfl | hpos
    · rw [deal_zero] at h
      cases h
      exact .paid
    cases meets r w k e with
    | sticks hsticks =>
      rw [deal_sticks hpos hsticks] at h
      cases h
    | pass hsticks htakes =>
      rw [deal_pass hpos hsticks htakes] at h
      exact .pass (ih h)
    | refused hsticks htakes hremove =>
      rw [deal_refused hpos hsticks htakes hremove] at h
      cases h
      exact .refused hpos htakes hremove
    | part hsticks htakes hremove hless =>
      rw [deal_part hpos hsticks htakes hremove hless] at h
      cases h
      exact .part hpos htakes hremove hless
    | whole hsticks htakes hremove hle =>
      rw [deal_whole hpos hsticks htakes hremove hle] at h
      obtain ⟨d', hd', rfl⟩ := Option.map_eq_some_iff.mp h
      exact .whole htakes hremove hle (ih hd')

/-- The items that a deal takes; of the last one it may be a part. -/
def Deal.items (d : Deal) : List ItemId := d.gone ++ (d.part.map Prod.fst).toList

/-- What the items of a deal count for. -/
def Deal.total (d : Deal) (w : World) : ℕ :=
  (d.gone.map fun x => (w.item x).supply).sum + d.part.elim 0 Prod.snd

theorem Deal.total_cons (d : Deal) (x : ItemId) :
    Deal.total { d with gone := x :: d.gone } w = (w.item x).supply + d.total w := by
  rw [Deal.total, List.map_cons, List.sum_cons, Nat.add_assoc]
  rfl

namespace Deals

variable {k : ℕ} {entries : List (Bool × ItemId)} {d : Deal}

theorem sublist (h : Deals r w k entries d) : d.items.Sublist (entries.map Prod.snd) := by
  induction h with
  | paid => exact List.nil_sublist _
  | «over» => exact List.nil_sublist _
  | pass _ ih => exact ih.cons _
  | refused => exact List.nil_sublist _
  | part => exact (List.nil_sublist _).cons_cons _
  | whole _ _ _ _ ih => exact ih.cons_cons _

/-- What is taken has been come to and may be removed. -/
theorem mem (h : Deals r w k entries d) {x : ItemId} (hx : x ∈ d.items) :
    ∃ nested, (nested, x) ∈ entries ∧ r.takes nested (w.item x) = true ∧
      (w.item x).removable = true := by
  have hcons {e : Bool × ItemId} {entries : List (Bool × ItemId)}
      (h : ∃ nested, (nested, x) ∈ entries ∧ r.takes nested (w.item x) = true ∧
        (w.item x).removable = true) : ∃ nested, (nested, x) ∈ e :: entries ∧
        r.takes nested (w.item x) = true ∧ (w.item x).removable = true := by
    obtain ⟨nested, hmem, hrest⟩ := h
    exact ⟨nested, List.mem_cons_of_mem e hmem, hrest⟩
  induction h with
  | paid => cases hx
  | «over» => cases hx
  | pass _ ih => exact hcons (ih hx)
  | refused => cases hx
  | @part _ e _ _ htakes hremove _ =>
    obtain rfl : x = e.2 := List.mem_singleton.mp hx
    exact ⟨e.1, List.mem_cons_self, htakes, hremove⟩
  | @whole _ e _ d htakes hremove _ _ ih =>
    rcases List.mem_cons.mp hx with rfl | hx
    · exact ⟨e.1, List.mem_cons_self, htakes, hremove⟩
    · exact hcons (ih hx)

theorem part_lt (h : Deals r w k entries d) {x : ItemId} {m : ℕ} (hpart : d.part = some (x, m)) :
    0 < m ∧ m < (w.item x).supply := by
  induction h with
  | paid => cases hpart
  | «over» => cases hpart
  | pass _ ih => exact ih hpart
  | refused => cases hpart
  | part hpos _ _ hless =>
    cases hpart
    exact ⟨hpos, hless⟩
  | whole _ _ _ _ ih => exact ih hpart

/-- The count is what is taken and what is left, unless an item that may not be removed uses up
the rest. -/
theorem total_add_left (h : Deals r w k entries d) :
    d.total w + d.left = k ∨ d.left = 0 ∧ d.part = none ∧ d.total w < k ∧
      ∃ e ∈ entries, r.takes e.1 (w.item e.2) = true ∧ (w.item e.2).removable = false := by
  induction h with
  | paid => exact .inl rfl
  | «over» => exact .inl (Nat.zero_add _)
  | @pass _ e _ _ _ ih =>
    refine ih.imp_right fun ⟨hleft, hpart, hless, e', he', hrest⟩ => ?_
    exact ⟨hleft, hpart, hless, e', List.mem_cons_of_mem e he', hrest⟩
  | @refused _ e _ hpos htakes hremove =>
    exact .inr ⟨rfl, rfl, hpos, e, List.mem_cons_self, htakes, hremove⟩
  | part => exact .inl (Nat.zero_add _)
  | @whole k e _ d _ _ hle _ ih =>
    rcases ih with heq | ⟨hleft, hpart, hless, e', he', hrest⟩
    · left
      rw [Deal.total_cons]
      change (w.item e.2).supply + d.total w + d.left = k
      omega
    · right
      refine ⟨hleft, hpart, ?_, e', List.mem_cons_of_mem e he', hrest⟩
      rw [Deal.total_cons]
      omega

end Deals

/-! ## Deals without a remainder -/

/-- An item of the sub-type that is asked for can be removed and holds nothing. -/
def Plain (r : RemoveRequest) (item : Item) : Prop :=
  item.removable = true ∧ r.hasSubType item = true ∧ item.itemlist = []

/-- The items that the loops come to first are enough; the loops do not stick at any of them, and
those that they take are plain. -/
def FitsIn (r : RemoveRequest) (w : World) (count : ℕ) (entries : List (Bool × ItemId)) : Prop :=
  ∃ before after, entries = before ++ after ∧ count ≤ r.taken w before ∧
    ∀ e ∈ before, r.sticks e.1 (w.item e.2) = false ∧
      (r.takes e.1 (w.item e.2) = true → r.Plain (w.item e.2))

theorem fitsIn_zero (entries : List (Bool × ItemId)) : r.FitsIn w 0 entries :=
  ⟨[], entries, rfl, Nat.zero_le _, by simp⟩

theorem fitsIn_cons {k : ℕ} (hpos : 0 < k) {e : Bool × ItemId} {entries : List (Bool × ItemId)} :
    r.FitsIn w k (e :: entries) ↔ r.sticks e.1 (w.item e.2) = false ∧
      (r.takes e.1 (w.item e.2) = true → r.Plain (w.item e.2)) ∧
        r.FitsIn w (k - if r.takes e.1 (w.item e.2) then (w.item e.2).supply else 0) entries := by
  constructor
  · rintro ⟨before, after, heq, hle, hall⟩
    cases before with
    | nil => exact absurd hle (Nat.not_le_of_lt hpos)
    | cons first before =>
      obtain ⟨rfl, htail⟩ := List.cons.inj heq
      rw [taken_cons] at hle
      obtain ⟨hfirst, hrest⟩ := List.forall_mem_cons.mp hall
      exact ⟨hfirst.1, hfirst.2, before, after, htail, by omega, hrest⟩
  · rintro ⟨hsticks, hplain, before, after, heq, hle, hall⟩
    refine ⟨e :: before, after, congrArg (e :: ·) heq, ?_, ?_⟩
    · rw [taken_cons]
      omega
    · exact List.forall_mem_cons.mpr ⟨⟨hsticks, hplain⟩, hall⟩

/-- That is so if and only if the deal pays in full with plain items. -/
theorem fitsIn_iff (r : RemoveRequest) (w : World) (k : ℕ) (entries : List (Bool × ItemId)) :
    r.FitsIn w k entries ↔ ∃ d, r.deal w k entries = some d ∧ d.left = 0 ∧ d.total w = k ∧
      ∀ x ∈ d.items, r.Plain (w.item x) := by
  induction entries generalizing k with
  | nil =>
    constructor
    · rintro ⟨before, after, heq, hle, -⟩
      obtain ⟨rfl, rfl⟩ := List.append_eq_nil_iff.mp heq.symm
      obtain rfl : k = 0 := Nat.le_zero.mp hle
      exact ⟨_, rfl, rfl, rfl, by simp [Deal.items]⟩
    · rintro ⟨d, hd, hleft, -⟩
      cases hd
      change k = 0 at hleft
      exact hleft ▸ fitsIn_zero []
  | cons e entries ih =>
    rcases Nat.eq_zero_or_pos k with rfl | hpos
    · refine iff_of_true (fitsIn_zero _) ⟨_, deal_zero w _, rfl, rfl, by simp [Deal.items]⟩
    rw [fitsIn_cons hpos]
    cases meets r w k e with
    | sticks hsticks =>
      rw [deal_sticks hpos hsticks]
      refine iff_of_false (fun h => ?_) (by simp)
      exact Bool.false_ne_true (h.1.symm.trans hsticks)
    | pass hsticks htakes =>
      rw [deal_pass hpos hsticks htakes, htakes, if_neg Bool.false_ne_true, Nat.sub_zero, ih]
      simp [hsticks]
    | refused hsticks htakes hremove =>
      rw [deal_refused hpos hsticks htakes hremove]
      refine iff_of_false (fun h => ?_) ?_
      · exact Bool.false_ne_true (hremove.symm.trans (h.2.1 htakes).1)
      -- nothing is taken, so the deal does not add up to the count
      · rintro ⟨d, hd, -, htotal, -⟩
        cases hd
        exact hpos.ne htotal
    | part hsticks htakes hremove hless =>
      rw [deal_part hpos hsticks htakes hremove hless, if_pos htakes,
        Nat.sub_eq_zero_of_le hless.le]
      constructor
      · rintro ⟨-, hplain, -⟩
        exact ⟨_, rfl, rfl, Nat.zero_add k, List.forall_mem_singleton.mpr (hplain htakes)⟩
      · rintro ⟨d, hd, -, -, hplain⟩
        cases hd
        exact ⟨hsticks, fun _ => hplain e.2 List.mem_cons_self, fitsIn_zero entries⟩
    | whole hsticks htakes hremove hle =>
      rw [deal_whole hpos hsticks htakes hremove hle, if_pos htakes, ih]
      constructor
      · rintro ⟨-, hplain, d, hd, hleft, htotal, hrest⟩
        refine ⟨_, Option.map_eq_some_iff.mpr ⟨d, hd, rfl⟩, hleft, ?_, ?_⟩
        · rw [Deal.total_cons, htotal]
          omega
        · exact List.forall_mem_cons.mpr ⟨hplain htakes, hrest⟩
      · rintro ⟨d', hd', hleft, htotal, hplain⟩
        obtain ⟨d, hd, rfl⟩ := Option.map_eq_some_iff.mp hd'
        obtain ⟨hfirst, hrest⟩ := List.forall_mem_cons.mp hplain
        rw [Deal.total_cons] at htotal
        exact ⟨hsticks, fun _ => hfirst, d, hd, hleft, by omega, hrest⟩

end RemoveRequest

end TyanoCore
