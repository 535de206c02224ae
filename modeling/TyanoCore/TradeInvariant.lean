import TyanoCore.Trade

/-!
# The trade invariant

Partners point to each other, a player without a trade has no partner and no item, and the map of
traded items lists exactly what the players offer.  During a transfer the two items have left the
map already: `busy` are the players whose items are changing hands.
-/

namespace TyanoCore

open Trades Transition

structure TradeConsistent (s : Trades) (busy : PlayerId → Prop) : Prop where
  partner_symm : ∀ p q, (s.player p).tradePartner = some q → (s.player q).tradePartner = some p
  partner_ne : ∀ p, (s.player p).tradePartner ≠ some p
  none_iff : ∀ p, (s.player p).tradeState = .none ↔ (s.player p).tradePartner = none
  items_iff : ∀ i p, (i, p) ∈ s.tradeItems ↔ (s.player p).tradeItem = some i ∧ ¬ busy p
  item_owner : ∀ i p q, (s.player p).tradeItem = some i → (s.player q).tradeItem = some i → p = q
  keys_nodup : (s.tradeItems.map Prod.fst).Nodup
  no_offer : ∀ p, (s.player p).tradeState = .none ∨ (s.player p).tradeState = .acknowledge →
    (s.player p).tradeItem = none
  busy_iff : ∀ p, (s.player p).tradeState = .transfer ↔ busy p
  busy_partner : ∀ p q, busy p → (s.player p).tradePartner = some q → busy q

/-- The invariant between two messages. -/
abbrev TradeInvariant (s : Trades) : Prop :=
  TradeConsistent s fun _ => False

theorem initial_tradeInvariant : TradeInvariant Trades.initial := by
  constructor <;> simp [Trades.initial]

theorem TradeConsistent.of_none {s : Trades} {busy : PlayerId → Prop}
    (h : TradeConsistent s busy) {p : PlayerId} (hp : (s.player p).tradePartner = none) :
    s.player p = ⟨.none, none, none⟩ := by
  have hstate := (h.none_iff p).mpr hp
  have hitem := h.no_offer p (.inl hstate)
  cases hs : s.player p
  simp_all

theorem map_fst_filter_nodup {s : Trades} (h : (s.tradeItems.map Prod.fst).Nodup)
    (f : ItemId × PlayerId → Bool) : ((s.tradeItems.filter f).map Prod.fst).Nodup :=
  (List.filter_sublist.map Prod.fst).nodup h

/-! ## Closing a trade -/

/-- The state after the trade between two partners is closed. -/
def Trades.closed (s : Trades) (p q : PlayerId) : Trades :=
  (((s.eraseItem (s.player p).tradeItem).clearPlayer p).eraseItem (s.player q).tradeItem).clearPlayer q

theorem closed_player (s : Trades) (p q r : PlayerId) :
    (s.closed p q).player r = if r = p ∨ r = q then ⟨.none, none, none⟩ else s.player r := by
  simp only [Trades.closed, clearPlayer_player, eraseItem_player]
  by_cases hp : r = p <;> by_cases hq : r = q <;> simp [hp, hq]

theorem mem_closed (s : Trades) (p q : PlayerId) (e : ItemId × PlayerId) :
    e ∈ (s.closed p q).tradeItems ↔
      e ∈ s.tradeItems ∧ some e.1 ≠ (s.player p).tradeItem ∧ some e.1 ≠ (s.player q).tradeItem := by
  simp only [Trades.closed, clearPlayer_tradeItems, mem_eraseItem, and_assoc]

theorem closed_nodup {s : Trades} (h : (s.tradeItems.map Prod.fst).Nodup) (p q : PlayerId) :
    ((s.closed p q).tradeItems.map Prod.fst).Nodup :=
  map_fst_filter_nodup (s := s.eraseItem (s.player p).tradeItem) (map_fst_filter_nodup h _) _

theorem closed_consistent {s : Trades} {busy : PlayerId → Prop} (h : TradeConsistent s busy)
    {p q : PlayerId} (hpq : (s.player p).tradePartner = some q) (hp : ¬ busy p) (hq : ¬ busy q) :
    TradeConsistent (s.closed p q) busy := by
  have hqp := h.partner_symm p q hpq
  -- the two have no partner and no offer any more, and nobody else trades with them
  refine ⟨?_, ?_, ?_, ?_, ?_, closed_nodup h.keys_nodup p q, ?_, ?_, ?_⟩
  · intro a b hab
    simp only [closed_player] at hab ⊢
    split at hab
    · cases hab
    · next ha =>
      have hba := h.partner_symm a b hab
      have hb : ¬ (b = p ∨ b = q) := by
        rintro (rfl | rfl)
        · exact ha (.inr (Option.some.inj (hba.symm.trans hpq)))
        · exact ha (.inl (Option.some.inj (hba.symm.trans hqp)))
      simpa [hb] using hba
  · intro a
    rw [closed_player]
    split
    · simp
    · exact h.partner_ne a
  · intro a
    rw [closed_player]
    split
    · simp
    · exact h.none_iff a
  · intro i a
    rw [mem_closed, h.items_iff, closed_player]
    split
    · next ha =>
      rcases ha with rfl | rfl
      · grind
      · grind
    · next ha =>
      have h1 := h.item_owner i a p
      have h2 := h.item_owner i a q
      grind
  · intro i a b ha hb
    simp only [closed_player] at ha hb
    split at ha
    · cases ha
    · split at hb
      · cases hb
      · exact h.item_owner i a b ha hb
  · intro a ha
    rw [closed_player] at ha ⊢
    split
    · rfl
    · next hne =>
      simp only [hne, if_false] at ha
      exact h.no_offer a ha
  · intro a
    rw [closed_player]
    split
    · next ha =>
      rcases ha with rfl | rfl <;> simpa
    · exact h.busy_iff a
  · intro a b ha hab
    rw [closed_player] at hab
    split at hab
    · cases hab
    · exact h.busy_partner a b ha hab

theorem internalCloseTrade_spec {s : Trades} {busy : PlayerId → Prop} (h : TradeConsistent s busy)
    (p : PlayerId) :
    ∃ s', Game.internalCloseTrade s p = some (s', true) ∧ TradeConsistent s' busy ∧
      ∀ r, busy r → s'.player r = s.player r := by
  cases hpartner : (s.player p).tradePartner with
  | none =>
    have hrec := h.of_none hpartner
    have hsame : (s.eraseItem none).clearPlayer p = s := by
      simp only [Trades.eraseItem, Trades.clearPlayer, Trades.setPlayer]
      rw [← hrec, Function.update_eq_self]
      simp
    refine ⟨s, ?_, h, fun r _ => rfl⟩
    simp [Game.internalCloseTrade, hrec, hsame]
  | some q =>
    by_cases hbusy : busy p
    · have hstate := (h.busy_iff p).mpr hbusy
      exact ⟨s, by simp [Game.internalCloseTrade, hpartner, hstate], h, fun r _ => rfl⟩
    · have hqp := h.partner_symm p q hpartner
      have hbq : ¬ busy q := fun hb => hbusy (h.busy_partner q p hb hqp)
      have hstate : ¬ ((s.player q).tradeState = .transfer ∨ (s.player p).tradeState = .transfer) := by
        rw [h.busy_iff, h.busy_iff]
        exact fun hor => hor.elim hbq hbusy
      refine ⟨s.closed p q, ?_, closed_consistent h hpartner hbusy hbq, ?_⟩
      · have hne : q ≠ p := fun he => h.partner_ne p (he ▸ hpartner)
        simp [Game.internalCloseTrade, hpartner, hstate, Trades.closed, clearPlayer_player, hne]
      · intro r hr
        have hrp : ¬ (r = p ∨ r = q) := by
          rintro (rfl | rfl)
          · exact hbusy hr
          · exact hbq hr
        simp [closed_player, hrp]

/-- The trades closed while two items move do not touch the two traders. -/
theorem disturbed_spec {s : Trades} {busy : PlayerId → Prop} (h : TradeConsistent s busy)
    (ps : List PlayerId) :
    ∃ s', ps.foldlM (fun s q => (Game.internalCloseTrade s q).map Prod.fst) s = some s' ∧
      TradeConsistent s' busy ∧ ∀ r, busy r → s'.player r = s.player r := by
  induction ps generalizing s with
  | nil => exact ⟨s, rfl, h, fun r _ => rfl⟩
  | cons p ps ih =>
    obtain ⟨s1, hs1, h1, hsame1⟩ := internalCloseTrade_spec h p
    obtain ⟨s', hs', h', hsame⟩ := ih h1
    refine ⟨s', by simp [hs1, hs'], h', ?_⟩
    intro r hr
    rw [hsame r hr, hsame1 r hr]

/-! ## Starting a trade -/

/-- The state after an offer of `p` to `q`. -/
def Trades.offered (s : Trades) (p q : PlayerId) (i : ItemId) : Trades :=
  let s' := (s.setPlayer p ⟨.initiated, some q, some i⟩).insertItem i p
  if (s.player q).tradeState = .none then
    s'.setPlayer q ⟨.acknowledge, some p, (s.player q).tradeItem⟩
  else s'

/-- An offer goes through when the player has not made one and neither deals with somebody else. -/
theorem internalStartTrade_eq (s : Trades) {p q : PlayerId} (hne : q ≠ p) (i : ItemId) :
    Game.internalStartTrade s p q i =
      if ((s.player p).tradeState = .none ∨
          ((s.player p).tradeState = .acknowledge ∧ (s.player p).tradePartner = some q)) ∧
          ((s.player q).tradeState = .none ∨ (s.player q).tradePartner = some p) then
        (s.offered p q i, true)
      else (s, false) := by
  have hq : (s.setPlayer p ⟨.initiated, some q, some i⟩).player q = s.player q := by
    rw [setPlayer_player, if_neg hne]
  simp only [Game.internalStartTrade, Trades.offered, insertItem_player, hq]
  split_ifs <;> first | rfl | tauto

theorem offered_player (s : Trades) {p q : PlayerId} (hne : q ≠ p) (i : ItemId) (r : PlayerId) :
    (s.offered p q i).player r =
      if r = p then ⟨.initiated, some q, some i⟩
      else if r = q ∧ (s.player q).tradeState = .none then
        ⟨.acknowledge, some p, (s.player q).tradeItem⟩
      else s.player r := by
  by_cases hstate : (s.player q).tradeState = .none
  · simp only [Trades.offered, hstate, if_true, setPlayer_player, insertItem_player, and_true]
    by_cases hr : r = q
    · subst hr
      simp [hne]
    · simp [hr]
  · simp [Trades.offered, hstate, setPlayer_player]

theorem offered_tradeItems (s : Trades) (p q : PlayerId) (i : ItemId) :
    (s.offered p q i).tradeItems = (i, p) :: s.tradeItems.filter fun e => e.1 ≠ i := by
  simp only [Trades.offered]
  split <;> rfl

theorem offered_consistent {s : Trades} (h : TradeInvariant s) {p q : PlayerId} (hne : q ≠ p)
    {i : ItemId} (hi : ∀ r, (i, r) ∉ s.tradeItems)
    (hp : (s.player p).tradeState = .none ∨
      ((s.player p).tradeState = .acknowledge ∧ (s.player p).tradePartner = some q))
    (hq : (s.player q).tradeState = .none ∨ (s.player q).tradePartner = some p) :
    TradeInvariant (s.offered p q i) := by
  have hfresh : ∀ r, (s.player r).tradeItem ≠ some i :=
    fun r hr => hi r ((h.items_iff i r).mpr ⟨hr, id⟩)
  have hpitem : (s.player p).tradeItem = none := h.no_offer p (hp.imp id And.left)
  -- neither of the two has another partner
  have hpq : ∀ r, (s.player p).tradePartner = some r → r = q := by
    intro r hr
    rcases hp with hp | hp
    · rw [h.none_iff, hr] at hp
      cases hp
    · exact Option.some.inj (hr.symm.trans hp.2)
  have hqp : ∀ r, (s.player q).tradePartner = some r → r = p := by
    intro r hr
    rcases hq with hq | hq
    · rw [h.none_iff, hr] at hq
      cases hq
    · exact Option.some.inj (hr.symm.trans hq)
  have hqnone := h.none_iff q
  have hplayer := offered_player s hne i
  refine ⟨?_, ?_, ?_, ?_, ?_, ?_, ?_, ?_, fun _ _ hb => hb.elim⟩
  · intro a b hab
    have hsymm := h.partner_symm a b
    have hback := h.partner_symm b a
    simp only [hplayer] at hab ⊢
    grind
  · intro a
    have hself := h.partner_ne a
    rw [hplayer]
    grind
  · intro a
    have hnone := h.none_iff a
    rw [hplayer]
    grind
  · intro j a
    have hitems := h.items_iff j a
    have hja := hfresh a
    rw [offered_tradeItems, hplayer]
    simp only [List.mem_cons, Prod.mk.injEq, List.mem_filter, decide_eq_true_eq, not_false_eq_true,
      and_true] at hitems ⊢
    grind
  · intro j a b ha hb
    have hown := h.item_owner j a b
    have hja := hfresh a
    have hjb := hfresh b
    rw [hplayer] at ha hb
    grind
  · rw [offered_tradeItems, List.map_cons]
    refine List.nodup_cons.mpr ⟨?_, map_fst_filter_nodup h.keys_nodup _⟩
    simp
  · intro a ha
    have hoffer := h.no_offer a
    have hqoffer := h.no_offer q
    rw [hplayer] at ha ⊢
    grind
  · intro a
    have hbusy := h.busy_iff a
    rw [hplayer]
    grind

theorem internalStartTrade_consistent {s : Trades} (h : TradeInvariant s) {p q : PlayerId}
    (hne : q ≠ p) {i : ItemId} (hi : ∀ r, (i, r) ∉ s.tradeItems) :
    TradeInvariant (Game.internalStartTrade s p q i).1 := by
  rw [internalStartTrade_eq s hne i]
  split
  · next hcond => exact offered_consistent h hne hi hcond.1 hcond.2
  · exact h

/-- A request changes nothing, or it offers an item that is not being traded to somebody else. -/
theorem playerRequestTrade_cases (s : Trades) (p q : PlayerId) (r : TradeRequest) :
    (Game.playerRequestTrade s p q r).1 = s ∨
      ∃ i, q ≠ p ∧ (∀ a, (i, a) ∉ s.tradeItems) ∧
        Game.playerRequestTrade s p q r = Game.internalStartTrade s p q i := by
  rw [Game.playerRequestTrade]
  by_cases habsent : (!r.playerPresent) = true
  · rw [if_pos habsent]
    exact .inl rfl
  by_cases hpartner : (!r.partnerPresent || decide (q = p)) = true
  · rw [if_neg habsent, if_pos hpartner]
    exact .inl rfl
  by_cases hfar : (!r.partnerInRange) = true
  · rw [if_neg habsent, if_neg hpartner, if_pos hfar]
    exact .inl rfl
  rw [if_neg habsent, if_neg hpartner, if_neg hfar]
  cases hitem : r.tradeItem with
  | none => exact .inl rfl
  | some i =>
    dsimp only
    split
    · exact .inl rfl
    split
    · exact .inl rfl
    split
    · exact .inl rfl
    by_cases hclash : (s.tradeItems.any fun e => r.clashes i e.1) = true
    · rw [if_pos hclash]
      exact .inl rfl
    rw [if_neg hclash]
    split
    · exact .inl rfl
    split
    · exact .inl rfl
    · refine .inr ⟨i, ?_, ?_, rfl⟩
      · intro hsame
        exact hpartner (Bool.or_eq_true_iff.mpr (.inr (decide_eq_true hsame)))
      · intro a ha
        have hself : r.clashes i i = true := by simp [TradeRequest.clashes]
        exact hclash (List.any_eq_true.mpr ⟨(i, a), ha, hself⟩)

theorem playerRequestTrade_consistent {s : Trades} (h : TradeInvariant s) (p q : PlayerId)
    (r : TradeRequest) : TradeInvariant (Game.playerRequestTrade s p q r).1 := by
  rcases playerRequestTrade_cases s p q r with hsame | ⟨i, hne, hi, heq⟩
  · rw [hsame]
    exact h
  · rw [heq]
    exact internalStartTrade_consistent h hne hi

/-! ## Accepting a trade -/

/-- Changing the state of a player who trades, to one that does not end or transfer the trade. -/
theorem setTradeState_accept_consistent {s : Trades} (h : TradeInvariant s) {p : PlayerId}
    (hp : (s.player p).tradeState = .acknowledge ∨ (s.player p).tradeState = .initiated) :
    TradeInvariant (s.setTradeState p .accept) := by
  have hplayer : ∀ r, (s.setTradeState p .accept).player r =
      if r = p then { s.player r with tradeState := .accept } else s.player r := by
    intro r
    rw [setTradeState_player]
    split <;> simp_all
  refine ⟨?_, ?_, ?_, ?_, ?_, h.keys_nodup, ?_, ?_, fun _ _ hb => hb.elim⟩
  · intro a b
    have hsymm := h.partner_symm a b
    simp only [hplayer]
    grind
  · intro a
    have hself := h.partner_ne a
    rw [hplayer]
    grind
  · intro a
    have hnone := h.none_iff a
    rw [hplayer]
    grind
  · intro i a
    have hitems := h.items_iff i a
    rw [hplayer, setTradeState_tradeItems]
    grind
  · intro i a b
    have hown := h.item_owner i a b
    simp only [hplayer]
    grind
  · intro a
    have hoffer := h.no_offer a
    rw [hplayer]
    grind
  · intro a
    have hbusy := h.busy_iff a
    rw [hplayer]
    grind

/-- Both traders are marked as transferring and their items leave the map. -/
theorem transfer_begin {s : Trades} (h : TradeInvariant s) {p q : PlayerId}
    (hpq : (s.player p).tradePartner = some q) :
    TradeConsistent
      ((((s.setTradeState p .transfer).setTradeState q .transfer).eraseItem
        (s.player p).tradeItem).eraseItem (s.player q).tradeItem)
      fun r => r = p ∨ r = q := by
  have hqp := h.partner_symm p q hpq
  have hplayer : ∀ r, ((s.setTradeState p .transfer).setTradeState q .transfer).player r =
      if r = p ∨ r = q then { s.player r with tradeState := .transfer } else s.player r := by
    intro r
    simp only [setTradeState_player]
    grind
  refine ⟨?_, ?_, ?_, ?_, ?_, map_fst_filter_nodup (s := Trades.eraseItem _ _)
    (map_fst_filter_nodup h.keys_nodup _) _, ?_, ?_, ?_⟩
  · intro a b
    have hsymm := h.partner_symm a b
    simp only [eraseItem_player, hplayer]
    grind
  · intro a
    have hself := h.partner_ne a
    rw [eraseItem_player, eraseItem_player, hplayer]
    grind
  · intro a
    have hnone := h.none_iff a
    rw [eraseItem_player, eraseItem_player, hplayer]
    grind
  · intro i a
    have hitems := h.items_iff i a
    have hp := h.item_owner i a p
    have hq := h.item_owner i a q
    rw [mem_eraseItem, mem_eraseItem, eraseItem_player, eraseItem_player, hplayer,
      setTradeState_tradeItems, setTradeState_tradeItems]
    grind
  · intro i a b
    have hown := h.item_owner i a b
    simp only [eraseItem_player, hplayer]
    grind
  · intro a
    have hoffer := h.no_offer a
    rw [eraseItem_player, eraseItem_player, hplayer]
    grind
  · intro a
    have hbusy := h.busy_iff a
    rw [eraseItem_player, eraseItem_player, hplayer]
    grind
  · intro a b
    rw [eraseItem_player, eraseItem_player, hplayer]
    grind

/-- Both traders are cleared and nobody transfers any more. -/
theorem transfer_end {s : Trades} {p q : PlayerId}
    (h : TradeConsistent s fun r => r = p ∨ r = q) :
    TradeInvariant ((s.clearPlayer p).clearPlayer q) := by
  have hplayer : ∀ r, ((s.clearPlayer p).clearPlayer q).player r =
      if r = p ∨ r = q then ⟨.none, none, none⟩ else s.player r := by
    intro r
    simp only [clearPlayer_player]
    grind
  refine ⟨?_, ?_, ?_, ?_, ?_, h.keys_nodup, ?_, ?_, fun _ _ hb => hb.elim⟩
  · intro a b hab
    have hsymm := h.partner_symm a b
    have hback := h.busy_partner b a
    simp only [hplayer] at hab ⊢
    grind
  · intro a
    have hself := h.partner_ne a
    rw [hplayer]
    grind
  · intro a
    have hnone := h.none_iff a
    rw [hplayer]
    grind
  · intro i a
    have hitems := h.items_iff i a
    rw [hplayer, clearPlayer_tradeItems, clearPlayer_tradeItems]
    grind
  · intro i a b
    have hown := h.item_owner i a b
    simp only [hplayer]
    grind
  · intro a
    have hoffer := h.no_offer a
    rw [hplayer]
    grind
  · intro a
    have hbusy := h.busy_iff a
    rw [hplayer]
    grind

/-- The transfer of two items that exist runs to its end. -/
theorem transferTradeItems_spec {s : Trades} (h : TradeInvariant s) {p q : PlayerId}
    (hpq : (s.player p).tradePartner = some q) {i j : ItemId}
    (hi : (s.player p).tradeItem = some i) (hj : (s.player q).tradeItem = some j)
    (r : TradeAcceptance) :
    ∃ s', Game.transferTradeItems s p q (some i) (some j) r = some (s', r.isSuccess) ∧
      TradeInvariant s' := by
  have hbegin := transfer_begin h hpq
  rw [hi, hj] at hbegin
  obtain ⟨s', hs', h', -⟩ := disturbed_spec hbegin (if r.isSuccess then r.disturbed else [])
  refine ⟨_, ?_, transfer_end h'⟩
  simp [Game.transferTradeItems, hs']

/-- The partner a player finds to have accepted as well, and the two items. -/
theorem acceptedItems_spec {s : Trades} (h : TradeInvariant s) {p q : PlayerId}
    {i j : Option ItemId} (hacc : Game.acceptedItems s p = some (q, i, j)) :
    ((s.player p).tradeState = .acknowledge ∨ (s.player p).tradeState = .initiated) ∧
      (s.player p).tradePartner = some q ∧ (s.player q).tradeState = .accept ∧
      i = (s.player p).tradeItem ∧ j = (s.player q).tradeItem := by
  simp only [Game.acceptedItems] at hacc
  split at hacc
  · next hstate =>
    cases hpartner : (s.player p).tradePartner with
    | none => simp [hpartner] at hacc
    | some q' =>
      have hne : q' ≠ p := fun he => h.partner_ne p (he ▸ hpartner)
      simp only [hpartner, setTradeState_player, hne, if_false, if_true] at hacc
      split at hacc
      · cases hacc
      · next hq =>
        simp only [Option.some.injEq, Prod.mk.injEq] at hacc
        obtain ⟨rfl, rfl, rfl⟩ := hacc
        exact ⟨hstate, rfl, not_not.mp hq, rfl, rfl⟩
  · cases hacc

/-- With both items at hand the transfer of an accepted trade runs to its end. -/
theorem acceptedItems_transfer {s : Trades} (h : TradeInvariant s) {p q : PlayerId} {i j : ItemId}
    (hacc : Game.acceptedItems s p = some (q, some i, some j)) (r : TradeAcceptance) :
    ∃ s', Game.transferTradeItems (s.setTradeState p .accept) p q (some i) (some j) r =
      some (s', r.isSuccess) ∧ TradeInvariant s' := by
  obtain ⟨hst, hpq, -, hi, hj⟩ := acceptedItems_spec h hacc
  have hne : q ≠ p := fun he => h.partner_ne p (he ▸ hpq)
  have haccept := setTradeState_accept_consistent h hst
  refine transferTradeItems_spec haccept ?_ ?_ ?_ r
  · simpa [setTradeState_player] using hpq
  · simpa [setTradeState_player] using hi.symm
  · simpa [setTradeState_player, hne] using hj.symm

/-- Accepting is ignored, or is noted while the partner or a script holds the trade back, or leads
to the transfer. -/
theorem playerAcceptTrade_cases (s : Trades) (p : PlayerId) (r : TradeAcceptance) :
    Game.playerAcceptTrade s p r = some (s, false) ∨
      (r.playerPresent ∧
        ((s.player p).tradeState = .acknowledge ∨ (s.player p).tradeState = .initiated) ∧
        (Game.playerAcceptTrade s p r = some (s.setTradeState p .accept, false) ∨
          ∃ q i j, Game.acceptedItems s p = some (q, i, j) ∧
            Game.playerAcceptTrade s p r =
              Game.transferTradeItems (s.setTradeState p .accept) p q i j r)) := by
  rw [Game.playerAcceptTrade]
  dsimp only
  cases hpresent : r.playerPresent with
  | false =>
    rw [if_pos Bool.not_false]
    exact .inl rfl
  | true =>
    rw [Bool.not_true, if_neg Bool.false_ne_true]
    by_cases hstate : (s.player p).tradeState = .acknowledge ∨ (s.player p).tradeState = .initiated
    · refine .inr ⟨rfl, hstate, ?_⟩
      rw [if_neg (not_not.mpr hstate)]
      cases hacc : Game.acceptedItems s p with
      | none => exact .inl rfl
      | some accepted =>
        obtain ⟨q, i, j⟩ := accepted
        cases hdeny : r.deny with
        | true =>
          dsimp only
          rw [if_pos rfl]
          exact .inl rfl
        | false =>
          dsimp only
          rw [if_neg Bool.false_ne_true]
          exact .inr ⟨q, i, j, rfl, rfl⟩
    · rw [if_pos hstate]
      exact .inl rfl

/-- Accepting keeps the invariant unless it uses an item that was never offered. -/
theorem playerAcceptTrade_consistent {s s' : Trades} {b : Bool} (h : TradeInvariant s)
    {p : PlayerId} {r : TradeAcceptance} (hs' : Game.playerAcceptTrade s p r = some (s', b)) :
    TradeInvariant s' := by
  rcases playerAcceptTrade_cases s p r with heq | ⟨-, hstate, hres⟩
  · rw [heq] at hs'
    cases hs'
    exact h
  rcases hres with heq | ⟨q, i, j, hacc, heq⟩
  · rw [heq] at hs'
    cases hs'
    exact setTradeState_accept_consistent h hstate
  · rw [heq] at hs'
    cases i with
    | none => simp [Game.transferTradeItems] at hs'
    | some i =>
      cases j with
      | none => simp [Game.transferTradeItems] at hs'
      | some j =>
        obtain ⟨t, ht, hinv⟩ := acceptedItems_transfer h hacc r
        rw [ht] at hs'
        cases hs'
        exact hinv

end TyanoCore
