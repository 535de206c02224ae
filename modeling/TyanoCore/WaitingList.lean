import Mathlib.Algebra.Order.Ring.Int
import Mathlib.Data.List.Sublists
import Mathlib.Data.Int.Notation
import Mathlib.Tactic.SplitIfs
import TyanoCore.Run

/-!
# The queue of players who wait for a login

A player who finds no room is queued, a premium player before all others without premium.  He is
admitted by a later login that finds his rank in the queue small enough.  Ranks and the number of
players online are added in 32 bits.
-/

namespace TyanoCore

open Transition

/-- An entry of the queue; `obj` tells the objects apart. -/
structure Wait where
  obj : ℕ
  ip : ℕ
  name : List Char
  premium : Bool
  timeout : ℤ
deriving DecidableEq

/-- What the queue asks of a player. -/
structure LoginPlayer where
  ip : ℕ
  name : List Char
  hasPremium : Bool
  canAlwaysLogin : Bool
  isAccountManager : Bool

structure WaitingList where
  waitList : List Wait
  /-- The entries made so far. -/
  count : ℕ
deriving DecidableEq

def asLowerCaseString (source : List Char) : List Char := source.map Char.toLower

/-- The address and the name by which an entry is found. -/
def Wait.key (w : Wait) : ℕ × List Char := (w.ip, asLowerCaseString w.name)

def LoginPlayer.key (player : LoginPlayer) : ℕ × List Char :=
  (player.ip, asLowerCaseString player.name)

/-- The players whom a login never queues. -/
def LoginPlayer.exempt (player : LoginPlayer) : Bool :=
  player.canAlwaysLogin || player.isAccountManager

namespace WaitingList

def new : WaitingList := ⟨[], 0⟩

/-- `find`: how many entries stand before the entry of the player, and the slot it counts. -/
def find (player : LoginPlayer) : List Wait → ℕ → Option ℕ × ℕ
  | [], slot => (none, slot)
  | w :: ws, slot =>
    if w.ip = player.ip ∧ asLowerCaseString w.name = asLowerCaseString player.name then
      (some 0, slot)
    else
      let r := find player ws ((slot + 1) % 2 ^ 32)
      (r.1.map (· + 1), r.2)

/-- The conversion from `uint32_t` to `int32_t`. -/
def toInt32 (n : ℕ) : ℤ := if n < 2 ^ 31 then n else n - 2 ^ 32

def getTime (slot : ℤ) : ℤ :=
  if slot < 5 then 5
  else if slot < 10 then 10
  else if slot < 20 then 20
  else if slot < 50 then 60
  else 120

def getTimeout (slot : ℕ) : ℤ := getTime (toInt32 slot) + 15

/-- `cleanup`; the clock is read once for each entry. -/
def cleanup (clock : ℕ → ℤ) : List Wait → List Wait
  | [] => []
  | w :: ws =>
    if w.timeout - clock 0 ≤ 0 then cleanup (fun i => clock (i + 1)) ws
    else w :: cleanup (fun i => clock (i + 1)) ws

/-- The loop of `login` over the entries with premium: how many there are in front, and the slot. -/
def premiumEnd : List Wait → ℕ → ℕ × ℕ
  | [], slot => (0, slot)
  | w :: ws, slot =>
    if w.premium = false then (0, slot)
    else
      let r := premiumEnd ws ((slot + 1) % 2 ^ 32)
      (r.1 + 1, r.2)

/-- A new entry for a player. -/
def newWait (s : WaitingList) (player : LoginPlayer) (timeout : ℤ) : Wait where
  obj := s.count
  ip := player.ip
  name := player.name
  premium := player.hasPremium
  timeout := timeout

def login (s : WaitingList) (player : LoginPlayer) (online max : ℕ) (clock : ℕ → ℤ) :
    WaitingList × Bool :=
  if player.exempt ∨ (s.waitList = [] ∧ online < max) then (s, true)
  else
    let waitList := cleanup clock s.waitList
    let now := clock s.waitList.length
    match find player waitList 1 with
    | (some i, slot) =>
      if (online + slot) % 2 ^ 32 > max then
        -- he waits a bit longer
        ({ s with waitList :=
            waitList.modify i fun w => { w with timeout := now + getTimeout slot * 1000 } }, false)
      else ({ s with waitList := waitList.eraseIdx i }, true)
    | (none, _) =>
      if player.hasPremium then
        let (i, slot) := premiumEnd waitList 1
        (⟨waitList.insertIdx i (s.newWait player (now + getTimeout slot * 1000)), s.count + 1⟩,
          false)
      else
        let slot := (waitList.length + 1) % 2 ^ 32
        (⟨waitList ++ [s.newWait player (now + getTimeout slot * 1000)], s.count + 1⟩, false)

/-- A call of `login`. -/
structure Login where
  player : LoginPlayer
  online : ℕ
  max : ℕ
  clock : ℕ → ℤ

def step (s : WaitingList) (a : Login) : Option WaitingList :=
  some (s.login a.player a.online a.max a.clock).1

/-! ## What the loops find -/

theorem find_cases (player : LoginPlayer) (ws : List Wait) (slot : ℕ) (hslot : slot < 2 ^ 32) :
    ((find player ws slot).1 = none ∧ ∀ w ∈ ws, w.key ≠ player.key) ∨
      ∃ before w after, ws = before ++ w :: after ∧ w.key = player.key ∧
        find player ws slot = (some before.length, (slot + before.length) % 2 ^ 32) := by
  induction ws generalizing slot with
  | nil => exact .inl ⟨rfl, fun w hw => absurd hw List.not_mem_nil⟩
  | cons w ws ih =>
    by_cases hkey : w.ip = player.ip ∧ asLowerCaseString w.name = asLowerCaseString player.name
    · refine .inr ⟨[], w, ws, rfl, Prod.ext hkey.1 hkey.2, ?_⟩
      rw [find, if_pos hkey, List.length_nil, Nat.add_zero, Nat.mod_eq_of_lt hslot]
    · rw [find, if_neg hkey]
      obtain ⟨hnone, hall⟩ | ⟨before, w', after, rfl, hw', heq⟩ :=
        ih ((slot + 1) % 2 ^ 32) (Nat.mod_lt _ (by decide))
      · left
        constructor
        · simp only [hnone, Option.map_none]
        intro a ha
        rcases List.mem_cons.mp ha with rfl | ha
        · exact fun heq => hkey (Prod.mk.inj heq)
        · exact hall a ha
      · right
        refine ⟨w :: before, w', after, rfl, hw', ?_⟩
        rw [heq]
        have hsum : ((slot + 1) % 2 ^ 32 + before.length) % 2 ^ 32 =
            (slot + (before.length + 1)) % 2 ^ 32 := by
          rw [Nat.mod_add_mod]
          congr 1
          omega
        rw [hsum]
        rfl

theorem premiumEnd_cases (ws : List Wait) (slot : ℕ) :
    ∃ before after, ws = before ++ after ∧ (premiumEnd ws slot).1 = before.length ∧
      ∀ w ∈ before, w.premium = true := by
  induction ws generalizing slot with
  | nil => exact ⟨[], [], rfl, rfl, by simp⟩
  | cons w ws ih =>
    by_cases hpremium : w.premium = false
    · exact ⟨[], w :: ws, rfl, by rw [premiumEnd, if_pos hpremium]; rfl, by simp⟩
    · obtain ⟨before, after, rfl, hlength, hbefore⟩ := ih ((slot + 1) % 2 ^ 32)
      refine ⟨w :: before, after, rfl, ?_, ?_⟩
      · rw [premiumEnd, if_neg hpremium, List.length_cons, ← hlength]
      · intro a ha
        rcases List.mem_cons.mp ha with rfl | ha
        · exact eq_true_of_ne_false hpremium
        · exact hbefore a ha

theorem cleanup_sublist (clock : ℕ → ℤ) (ws : List Wait) : (cleanup clock ws).Sublist ws := by
  induction ws generalizing clock with
  | nil => exact .slnil
  | cons w ws ih =>
    rw [cleanup]
    split
    · exact (ih _).cons w
    · exact (ih _).cons_cons w

theorem insertIdx_length (before after : List Wait) (w : Wait) :
    (before ++ after).insertIdx before.length w = before ++ w :: after := by
  induction before with
  | nil => rfl
  | cons a before ih =>
    rw [List.cons_append, List.length_cons, List.insertIdx_succ_cons, ih]
    rfl

theorem modify_length (before after : List Wait) (w : Wait) (f : Wait → Wait) :
    (before ++ w :: after).modify before.length f = before ++ f w :: after := by
  induction before with
  | nil => rfl
  | cons a before ih =>
    rw [List.cons_append, List.length_cons, List.modify_succ_cons, ih]
    rfl

theorem eraseIdx_length (before after : List Wait) (w : Wait) :
    (before ++ w :: after).eraseIdx before.length = before ++ after := by
  rw [List.eraseIdx_append_of_length_le le_rfl, Nat.sub_self]
  rfl

/-- What a call of `login` can do to the queue that has been cleaned. -/
inductive Outcome (s : WaitingList) (player : LoginPlayer) (online max : ℕ) (ws : List Wait) :
    WaitingList × Bool → Prop where
  | free : player.exempt = true ∨ (s.waitList = [] ∧ online < max) → Outcome s player online max ws (s, true)
  | enter {before after : List Wait} {w : Wait} : player.exempt = false →
    ws = before ++ w :: after → w.key = player.key →
    (online + (before.length + 1)) % 2 ^ 32 ≤ max →
    Outcome s player online max ws ({ s with waitList := before ++ after }, true)
  | wait {before after : List Wait} {w : Wait} (timeout : ℤ) : ws = before ++ w :: after →
    Outcome s player online max ws
      ({ s with waitList := before ++ { w with timeout := timeout } :: after }, false)
  | queue {before after : List Wait} (timeout : ℤ) : ws = before ++ after →
    (∀ w ∈ ws, w.key ≠ player.key) →
    (player.hasPremium = true → ∀ w ∈ before, w.premium = true) →
    (player.hasPremium = false → after = []) →
    Outcome s player online max ws (⟨before ++ s.newWait player timeout :: after, s.count + 1⟩, false)

theorem login_outcome (s : WaitingList) (player : LoginPlayer) (online max : ℕ) (clock : ℕ → ℤ) :
    Outcome s player online max (cleanup clock s.waitList) (s.login player online max clock) := by
  unfold login
  by_cases hfree : player.exempt = true ∨ (s.waitList = [] ∧ online < max)
  · rw [if_pos hfree]
    exact .free hfree
  · rw [if_neg hfree]
    have hexempt : player.exempt = false := eq_false_of_ne_true (not_or.mp hfree).1
    dsimp only
    obtain ⟨hnone, hall⟩ | ⟨before, w, after, heq, hkey, hfind⟩ :=
      find_cases player (cleanup clock s.waitList) 1 (by decide)
    · split
      · next i slot hfind =>
        rw [hfind] at hnone
        cases hnone
      · split
        · -- the new entry stands behind all premium entries in front
          obtain ⟨before, after, heq, hlength, hbefore⟩ :=
            premiumEnd_cases (cleanup clock s.waitList) 1
          rw [hlength]
          generalize (premiumEnd (cleanup clock s.waitList) 1).2 = slot
          rw [heq] at hall ⊢
          rw [insertIdx_length]
          apply Outcome.queue _ rfl hall
          · exact fun _ => hbefore
          · intro hnot
            simp_all
        · next hpremium =>
          apply Outcome.queue _ (List.append_nil _).symm hall
          · exact fun htrue => absurd htrue hpremium
          · exact fun _ => rfl
    · rw [hfind]
      dsimp only
      have hrank : (online + (1 + before.length) % 2 ^ 32) % 2 ^ 32 =
          (online + (before.length + 1)) % 2 ^ 32 := by
        rw [Nat.add_mod_mod, Nat.add_comm 1]
      rw [hrank, heq]
      split
      · rw [modify_length]
        exact .wait _ rfl
      · next hle =>
        rw [eraseIdx_length]
        exact .enter hexempt rfl hkey (Nat.le_of_not_lt hle)

/-! ## The order of the queue -/

/-- No two entries for one address and name, and premium entries first. -/
structure Ordered (s : WaitingList) : Prop where
  obj_lt : ∀ w ∈ s.waitList, w.obj < s.count
  obj_nodup : (s.waitList.map Wait.obj).Nodup
  key_nodup : (s.waitList.map Wait.key).Nodup
  premium_first : s.waitList.Pairwise fun a b => b.premium = true → a.premium = true

/-- The entries of a state that are left in a later one are left in their order. -/
structure Keeps (s t : WaitingList) : Prop where
  count_le : s.count ≤ t.count
  sublist : ((t.waitList.map Wait.obj).filter fun obj => obj < s.count).Sublist
    (s.waitList.map Wait.obj)

theorem Keeps.trans {s t u : WaitingList} (hst : Keeps s t) (htu : Keeps t u) : Keeps s u where
  count_le := hst.count_le.trans htu.count_le
  sublist := by
    have hfilter : (u.waitList.map Wait.obj).filter (fun obj => obj < s.count) =
        ((u.waitList.map Wait.obj).filter fun obj => obj < t.count).filter
          fun obj => obj < s.count := by
      rw [List.filter_filter]
      apply List.filter_congr
      intro obj _
      have := hst.count_le
      grind
    rw [hfilter]
    exact (htu.sublist.filter _).trans hst.sublist

variable {s : WaitingList} {ws : List Wait} {player : LoginPlayer} {online max : ℕ}

theorem Ordered.mono (h : s.Ordered) (hws : ws.Sublist s.waitList) :
    Ordered { s with waitList := ws } where
  obj_lt w hw := h.obj_lt w (hws.subset hw)
  obj_nodup := (hws.map _).nodup h.obj_nodup
  key_nodup := (hws.map _).nodup h.key_nodup
  premium_first := h.premium_first.sublist hws

theorem keeps_mono (hws : ws.Sublist s.waitList) :
    Keeps s { s with waitList := ws } where
  count_le := le_rfl
  sublist := List.filter_sublist.trans (hws.map _)

/-- To give an entry more time changes none of the things that the order is about. -/
theorem Ordered.of_map {t : WaitingList} (h : s.Ordered) (hcount : t.count = s.count)
    (hmap : t.waitList.map (fun w => (w.obj, w.key, w.premium)) =
      s.waitList.map fun w => (w.obj, w.key, w.premium)) : t.Ordered ∧ Keeps s t := by
  have hpart {β : Type} (f : ℕ × (ℕ × List Char) × Bool → β) :
      t.waitList.map (fun w => f (w.obj, w.key, w.premium)) =
        s.waitList.map fun w => f (w.obj, w.key, w.premium) := by
    have hf := congrArg (List.map f) hmap
    rw [List.map_map, List.map_map] at hf
    exact hf
  have hobj : t.waitList.map Wait.obj = s.waitList.map Wait.obj := hpart Prod.fst
  have hkey : t.waitList.map Wait.key = s.waitList.map Wait.key := hpart fun e => e.2.1
  have hpremium : t.waitList.map Wait.premium = s.waitList.map Wait.premium :=
    hpart fun e => e.2.2
  constructor
  · constructor
    · intro w hw
      have hmem : w.obj ∈ s.waitList.map Wait.obj := hobj ▸ List.mem_map_of_mem hw
      obtain ⟨w', hw', heq⟩ := List.mem_map.mp hmem
      rw [← heq, hcount]
      exact h.obj_lt w' hw'
    · rw [hobj]
      exact h.obj_nodup
    · rw [hkey]
      exact h.key_nodup
    · have hpairwise := h.premium_first
      rw [← List.pairwise_map (f := Wait.premium) (R := fun a b => b = true → a = true)]
        at hpairwise ⊢
      rw [hpremium]
      exact hpairwise
  · constructor
    · exact hcount.ge
    · rw [hobj]
      exact List.filter_sublist

/-- A new entry keeps the order. -/
theorem Ordered.queue {before after : List Wait} (h : Ordered { s with waitList := before ++ after })
    (timeout : ℤ) (hkey : ∀ w ∈ before ++ after, w.key ≠ player.key)
    (hpremium : player.hasPremium = true → ∀ w ∈ before, w.premium = true)
    (hlast : player.hasPremium = false → after = []) :
    Ordered ⟨before ++ s.newWait player timeout :: after, s.count + 1⟩ := by
  have hmap {β : Type} (f : Wait → β) : ((before ++ s.newWait player timeout :: after).map f).Nodup ↔
      f (s.newWait player timeout) ∉ (before ++ after).map f ∧ ((before ++ after).map f).Nodup := by
    rw [List.map_append, List.map_cons, List.nodup_middle, List.nodup_cons, List.map_append]
  constructor
  · intro w hw
    rcases List.mem_cons.mp (List.perm_middle.mem_iff.mp hw) with rfl | hw
    · exact Nat.lt_succ_self _
    · exact Nat.lt_succ_of_lt (h.obj_lt w hw)
  · rw [hmap]
    refine ⟨?_, h.obj_nodup⟩
    intro hmem
    obtain ⟨w, hw, heq⟩ := List.mem_map.mp hmem
    exact (h.obj_lt w hw).ne heq
  · rw [hmap]
    refine ⟨?_, h.key_nodup⟩
    intro hmem
    obtain ⟨w, hw, heq⟩ := List.mem_map.mp hmem
    exact hkey w hw heq
  · obtain ⟨hbefore, hafter, hacross⟩ := List.pairwise_append.mp h.premium_first
    refine List.pairwise_append.mpr ⟨hbefore, List.pairwise_cons.mpr ⟨?_, hafter⟩, ?_⟩
    · intro b hb hbpremium
      -- an entry behind the new one: the player has premium
      by_contra hnot
      rw [hlast (eq_false_of_ne_true hnot)] at hb
      cases hb
    · intro a ha b hb hbpremium
      rcases List.mem_cons.mp hb with rfl | hb
      · exact hpremium hbpremium a ha
      · exact hacross a ha b hb hbpremium

theorem Ordered.outcome (h : s.Ordered) (hws : ws.Sublist s.waitList) {r : WaitingList × Bool}
    (hr : Outcome s player online max ws r) : r.1.Ordered ∧ Keeps s r.1 := by
  cases hr with
  | free => exact ⟨h, le_rfl, List.filter_sublist⟩
  | @enter before after w _ heq _ _ =>
    have hsub : (before ++ after).Sublist s.waitList := by
      rw [heq] at hws
      exact ((List.sublist_cons_self w after).append_left before).trans hws
    exact ⟨h.mono hsub, keeps_mono hsub⟩
  | @wait before after w timeout heq =>
    have hmap := (h.mono hws).of_map (t := { s with
      waitList := before ++ { w with timeout := timeout } :: after }) rfl (by
        rw [heq, List.map_append, List.map_append]
        rfl)
    exact ⟨hmap.1, (keeps_mono hws).trans hmap.2⟩
  | @queue before after timeout heq hkey hpremium hlast =>
    subst heq
    refine ⟨(h.mono hws).queue timeout hkey hpremium hlast, Nat.le_succ _, ?_⟩
    have hfilter : ((before ++ s.newWait player timeout :: after).map Wait.obj).filter
        (fun obj => obj < s.count) =
          ((before ++ after).map Wait.obj).filter fun obj => obj < s.count := by
      simp [newWait]
    rw [hfilter]
    exact List.filter_sublist.trans (hws.map _)

theorem Ordered.login (h : s.Ordered) (player : LoginPlayer) (online max : ℕ) (clock : ℕ → ℤ) :
    (s.login player online max clock).1.Ordered ∧
      Keeps s (s.login player online max clock).1 :=
  h.outcome (cleanup_sublist clock s.waitList) (s.login_outcome player online max clock)

theorem ordered_new : new.Ordered := by
  constructor <;> simp [new]

/-- What every later state keeps. -/
theorem Ordered.run {t : WaitingList} (h : s.Ordered) (actions : List Login)
    (hrun : runActions step s actions = some t) : t.Ordered ∧ Keeps s t := by
  induction actions generalizing s with
  | nil =>
    cases hrun
    exact ⟨h, le_rfl, List.filter_sublist⟩
  | cons a actions ih =>
    have hlogin := h.login a.player a.online a.max a.clock
    obtain ⟨ht, hkeeps⟩ := ih hlogin.1 hrun
    exact ⟨ht, hlogin.2.trans hkeeps⟩

/-- In every run no two entries have the same address and case-folded name, premium entries stand in
front, entries that stay keep their order, and a player who is not exempt is admitted into an empty
queue with players online below the maximum, or from his place in the queue, and only he leaves.  The
sum of his rank and the number online is taken in 32 bits. -/
theorem login_queue_order (actions : List Login) (hrun : runActions step new actions = some s) :
    (s.waitList.map Wait.key).Nodup ∧
    (s.waitList.Pairwise fun a b => b.premium = true → a.premium = true) ∧
    (∀ more t, runActions step s more = some t →
      ((t.waitList.map Wait.obj).filter fun obj => obj ∈ s.waitList.map Wait.obj).Sublist
        (s.waitList.map Wait.obj)) ∧
    ∀ player online max clock, (s.login player online max clock).2 = true →
      ((player.exempt = true ∨ (s.waitList = [] ∧ online < max)) ∧
        (s.login player online max clock).1 = s) ∨
      ∃ before w after, cleanup clock s.waitList = before ++ w :: after ∧ w.key = player.key ∧
        (online + (before.length + 1)) % 2 ^ 32 ≤ max ∧
        (s.login player online max clock).1.waitList = before ++ after := by
  have h := (ordered_new.run actions hrun).1
  refine ⟨h.key_nodup, h.premium_first, ?_, ?_⟩
  · intro more t hmore
    have hkeeps := (h.run more hmore).2
    refine List.Sublist.trans ?_ hkeeps.sublist
    apply List.monotone_filter_right
    intro obj hobj
    obtain ⟨w, hw, rfl⟩ := List.mem_map.mp (of_decide_eq_true hobj)
    exact decide_eq_true (h.obj_lt w hw)
  · intro player online max clock htrue
    have houtcome := s.login_outcome player online max clock
    generalize s.login player online max clock = r at htrue houtcome
    cases houtcome with
    | free hfree => exact .inl ⟨hfree, rfl⟩
    | enter _ heq hkey hrank => exact .inr ⟨_, _, _, heq, hkey, hrank, rfl⟩
    | wait => cases htrue
    | queue => cases htrue

/-- A player without premium who logs in at one player online of at most one. -/
def refused : Login := ⟨⟨1, ['A'], false, false, false⟩, 1, 1, fun _ => 0⟩

theorem login_queue_order_refused :
    ([(⟨0, 1, ['A'], false, 20000⟩ : Wait)].map Wait.key).Nodup ∧
      (new.login ⟨2, ['B'], true, false, false⟩ 0 1 fun _ => 0).1 = new := by
  have h := login_queue_order [refused] (s := ⟨[⟨0, 1, ['A'], false, 20000⟩], 1⟩) rfl
  have hnew := login_queue_order [] (s := new) rfl
  refine ⟨h.1, ?_⟩
  rcases hnew.2.2.2 ⟨2, ['B'], true, false, false⟩ 0 1 (fun _ => 0) rfl with hfree | hrank
  · exact hfree.2
  · obtain ⟨before, w, after, heq, -⟩ := hrank
    cases before <;> cases heq

/-- With `2 ^ 32 - 1` players online the sum wraps and the first in the queue is admitted. -/
theorem login_rank_wraps : ∃ s, runActions step new [refused] = some s ∧
    ∃ player online max clock, player.exempt = false ∧ online < 2 ^ 32 ∧ max < 2 ^ 32 ∧
      s.waitList ≠ [] ∧ (s.login player online max clock).2 = true ∧
      ∀ before w after, cleanup clock s.waitList = before ++ w :: after →
        ¬ online + (before.length + 1) ≤ max := by
  refine ⟨_, rfl, refused.player, 2 ^ 32 - 1, 1, refused.clock, rfl, by decide, by decide,
    by decide, by decide, ?_⟩
  intro before w after _ hle
  omega

end WaitingList

end TyanoCore
