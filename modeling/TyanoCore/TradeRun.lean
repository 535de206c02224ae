import TyanoCore.TradeInvariant

/-!
# Trades over whole runs

The trade invariant in every reachable state, and what an acceptance finds when nobody accepts
before he has offered an item himself.
-/

namespace TyanoCore

open Trades Transition

theorem tradeStep_consistent {s t : Trades} (h : TradeInvariant s) (a : TradeAction)
    (ht : tradeStep s a = some t) : TradeInvariant t := by
  cases a with
  | request p q r =>
    cases ht
    exact playerRequestTrade_consistent h p q r
  | accept p r =>
    obtain ⟨⟨t', b⟩, hs', rfl⟩ := Option.map_eq_some_iff.mp ht
    exact playerAcceptTrade_consistent h hs'
  | close p present =>
    obtain ⟨t', ht', h', -⟩ := internalCloseTrade_spec h p
    cases present with
    | false =>
      cases ht
      exact h
    | true =>
      simp only [tradeStep, Game.playerCloseTrade, Bool.not_true, Bool.false_eq_true, if_false, ht',
        Option.map_some, Option.some.injEq] at ht
      exact ht ▸ h'
  | disturb p =>
    obtain ⟨t', ht', h', -⟩ := internalCloseTrade_spec h p
    simp only [tradeStep, ht', Option.map_some, Option.some.injEq] at ht
    exact ht ▸ h'

theorem reachable_tradeInvariant {s : Trades} (h : tradeSystem.Reachable s) : TradeInvariant s := by
  refine h.invariant _ ?_ ?_
  · rintro s rfl
    exact initial_tradeInvariant
  · intro s a t hs ht
    exact tradeStep_consistent hs a ht

/-- What the players and the map of traded items promise each other. -/
structure TradeProtocol (s : Trades) : Prop where
  partner_iff : ∀ p q, (s.player p).tradePartner = some q ↔ (s.player q).tradePartner = some p
  none_iff : ∀ p, (s.player p).tradeState = .none ↔ (s.player p).tradePartner = none
  items_iff : ∀ i p, (i, p) ∈ s.tradeItems ↔ (s.player p).tradeItem = some i
  keys_nodup : (s.tradeItems.map Prod.fst).Nodup
  item_owner : ∀ i p q, (s.player p).tradeItem = some i → (s.player q).tradeItem = some i → p = q

/-- The protocol invariant holds in every state that any interleaving of messages reaches. -/
theorem trade_protocol (s : Trades) (h : tradeSystem.Reachable s) : TradeProtocol s := by
  have hinv := reachable_tradeInvariant h
  exact {
    partner_iff := fun p q => ⟨hinv.partner_symm p q, hinv.partner_symm q p⟩
    none_iff := hinv.none_iff
    items_iff := by simpa using hinv.items_iff
    keys_nodup := hinv.keys_nodup
    item_owner := hinv.item_owner }

/-- A request for an ordinary item that the player carries. -/
def TradeRequest.ofItem (item : ItemId) : TradeRequest where
  playerPresent := true
  partnerPresent := true
  partnerInRange := true
  tradeItem := some item
  wrongClientId := false
  isPickupable := true
  isLoadedFromMap := false
  uniqueId := 0
  actionId := 0
  itemHoldingCount := none
  hasPosition := false
  playerZ := 7
  itemZ := 7
  itemInRange := true
  canWalkToItem := false
  isHoldingItem _ _ := false
  deny := false

def TradeAcceptance.plain : TradeAcceptance where
  playerPresent := true
  deny := false
  isSuccess := true
  disturbed := []

/-- Two offers and one acceptance. -/
theorem trade_protocol_offers :
    ∃ s, (s.player 1).tradeState = .accept ∧ (s.player 2).tradeItem = some 8 ∧ TradeProtocol s := by
  obtain ⟨s, hrun, h1, h2⟩ : ∃ s, runActions tradeStep Trades.initial
      [.request 1 2 (.ofItem 7), .request 2 1 (.ofItem 8), .accept 1 .plain] = some s ∧
      (s.player 1).tradeState = .accept ∧ (s.player 2).tradeItem = some 8 :=
    ⟨_, rfl, rfl, rfl⟩
  exact ⟨s, h1, h2, trade_protocol s (reachable_of_runActions (.init rfl) hrun)⟩

/-! ## Accepting needs an offer -/

/-- No player accepts a trade before making an offer of his own. -/
def OfferBeforeAccept (s : Trades) : TradeAction → Prop
  | .accept p r => r.playerPresent → (s.player p).tradeState ≠ .acknowledge
  | _ => True

/-- Players who made an offer or accepted have something on offer. -/
def OffersMade (s : Trades) : Prop :=
  ∀ p, (s.player p).tradeState = .initiated ∨ (s.player p).tradeState = .accept →
    (s.player p).tradeItem.isSome

theorem internalCloseTrade_player {s s' : Trades} {p : PlayerId} {b : Bool}
    (h : Game.internalCloseTrade s p = some (s', b)) (r : PlayerId) :
    s'.player r = s.player r ∨ s'.player r = ⟨.none, none, none⟩ := by
  cases hpartner : (s.player p).tradePartner with
  | none =>
    simp only [Game.internalCloseTrade, hpartner] at h
    split at h
    · cases h
    · cases h
      simp only [clearPlayer_player, eraseItem_player]
      split <;> simp
  | some q =>
    simp only [Game.internalCloseTrade, hpartner] at h
    split at h
    · cases h
      exact .inl rfl
    · cases h
      simp only [clearPlayer_player, eraseItem_player]
      split
      · simp
      · split <;> simp

theorem disturbed_player {s s' : Trades} (ps : List PlayerId)
    (h : ps.foldlM (fun s q => (Game.internalCloseTrade s q).map Prod.fst) s = some s')
    (r : PlayerId) : s'.player r = s.player r ∨ s'.player r = ⟨.none, none, none⟩ := by
  induction ps generalizing s with
  | nil =>
    cases h
    exact .inl rfl
  | cons p ps ih =>
    simp only [List.foldlM_cons, Option.bind_eq_bind, Option.bind_eq_some_iff,
      Option.map_eq_some_iff] at h
    obtain ⟨s1, ⟨⟨s1, b⟩, h1, rfl⟩, h2⟩ := h
    rcases ih h2 with heq | heq
    · rw [heq]
      exact internalCloseTrade_player h1 r
    · exact .inr heq

theorem transferTradeItems_player {s s' : Trades} {p q : PlayerId} {i j : Option ItemId}
    {a : TradeAcceptance} {b : Bool} (h : Game.transferTradeItems s p q i j a = some (s', b))
    (r : PlayerId) : s'.player r = s.player r ∨ s'.player r = ⟨.none, none, none⟩ := by
  simp only [Game.transferTradeItems, Option.bind_eq_bind, Option.bind_eq_some_iff] at h
  obtain ⟨i, -, j, -, s1, h1, h2⟩ := h
  simp only [Option.pure_def, Option.some.injEq, Prod.mk.injEq] at h2
  obtain ⟨rfl, -⟩ := h2
  by_cases hr : r = p ∨ r = q
  · right
    simp only [clearPlayer_player]
    rcases hr with rfl | rfl <;> simp
  · have hrp : r ≠ p := fun he => hr (.inl he)
    have hrq : r ≠ q := fun he => hr (.inr he)
    simp only [clearPlayer_player, hrp, hrq, if_false]
    have hfold := disturbed_player _ h1 r
    simpa [setTradeState_player, hrp, hrq] using hfold

/-- What one step can do to the trade of a player. -/
theorem tradeStep_player {s t : Trades} {a : TradeAction} (ht : tradeStep s a = some t)
    (r : PlayerId) :
    t.player r = s.player r ∨ t.player r = ⟨.none, none, none⟩ ∨
      (t.player r).tradeState = .acknowledge ∨
      ((t.player r).tradeState = .initiated ∧ (t.player r).tradeItem.isSome) ∨
      (∃ acc, a = .accept r acc ∧ acc.playerPresent ∧
        ((s.player r).tradeState = .acknowledge ∨ (s.player r).tradeState = .initiated) ∧
        t.player r = { s.player r with tradeState := .accept }) := by
  cases a with
  | request p q req =>
    cases ht
    rcases playerRequestTrade_cases s p q req with hsame | ⟨i, hne, -, heq⟩
    · rw [hsame]
      exact .inl rfl
    · rw [heq, internalStartTrade_eq s hne i]
      split
      · rw [offered_player s hne i r]
        split
        · simp
        · split <;> simp
      · exact .inl rfl
  | accept p acc =>
    obtain ⟨⟨t', b⟩, hs', rfl⟩ := Option.map_eq_some_iff.mp ht
    rcases playerAcceptTrade_cases s p acc with heq | ⟨hpresent, hstate, hres⟩
    · rw [heq] at hs'
      cases hs'
      exact .inl rfl
    have hrecord : t'.player r = (s.setTradeState p .accept).player r ∨
        t'.player r = ⟨.none, none, none⟩ := by
      rcases hres with heq | ⟨q, i, j, -, heq⟩
      · rw [heq] at hs'
        cases hs'
        exact .inl rfl
      · rw [heq] at hs'
        exact transferTradeItems_player hs' r
    rcases hrecord with hrecord | hrecord
    · rw [setTradeState_player] at hrecord
      split at hrecord
      · next hr =>
        subst hr
        exact .inr (.inr (.inr (.inr ⟨acc, rfl, hpresent, hstate, hrecord⟩)))
      · exact .inl hrecord
    · exact .inr (.inl hrecord)
  | close p present =>
    obtain ⟨⟨t', b⟩, hs', rfl⟩ := Option.map_eq_some_iff.mp ht
    cases present with
    | false =>
      cases hs'
      exact .inl rfl
    | true =>
      have hplayer := internalCloseTrade_player (p := p) hs' r
      exact hplayer.imp id .inl
  | disturb p =>
    obtain ⟨⟨t', b⟩, hs', rfl⟩ := Option.map_eq_some_iff.mp ht
    exact (internalCloseTrade_player hs' r).imp id .inl

theorem tradeStep_offersMade {s t : Trades} (h : OffersMade s) {a : TradeAction}
    (ha : OfferBeforeAccept s a) (ht : tradeStep s a = some t) : OffersMade t := by
  intro r hr
  rcases tradeStep_player ht r with heq | heq | hack | ⟨-, hitem⟩ | ⟨acc, rfl, hpresent, hst, heq⟩
  · rw [heq] at hr ⊢
    exact h r hr
  · simp [heq] at hr
  · simp [hack] at hr
  · exact hitem
  · have hinit := hst.resolve_left (ha hpresent)
    rw [heq]
    exact h r (.inl hinit)

theorem reachable_offersMade {s : Trades}
    (h : (tradeSystem.restrict OfferBeforeAccept).Reachable s) : OffersMade s := by
  refine h.invariant _ ?_ ?_
  · rintro s rfl p hp
    simp [Trades.initial] at hp
  · rintro s a t hs ⟨ha, ht⟩
    exact tradeStep_offersMade hs ha ht

/-- When nobody accepts before offering, an acceptance that finds the partner's acceptance finds
two items, and no message uses a null item. -/
theorem acceptedItems_offered (s : Trades)
    (h : (tradeSystem.restrict OfferBeforeAccept).Reachable s) :
    (∀ p acc q i j, OfferBeforeAccept s (.accept p acc) → acc.playerPresent →
      Game.acceptedItems s p = some (q, i, j) → i.isSome ∧ j.isSome) ∧
    ∀ a, OfferBeforeAccept s a → ∃ t, tradeStep s a = some t := by
  have hinv := reachable_tradeInvariant h.of_restrict
  have hoffers := reachable_offersMade h
  have hitems : ∀ p acc q i j, OfferBeforeAccept s (.accept p acc) → acc.playerPresent →
      Game.acceptedItems s p = some (q, i, j) → i.isSome ∧ j.isSome := by
    intro p acc q i j hok hpresent hacc
    obtain ⟨hst, -, hq, rfl, rfl⟩ := acceptedItems_spec hinv hacc
    exact ⟨hoffers p (.inl (hst.resolve_left (hok hpresent))), hoffers q (.inr hq)⟩
  refine ⟨hitems, ?_⟩
  intro a ha
  cases a with
  | request p q r => exact ⟨_, rfl⟩
  | accept p acc =>
    rcases playerAcceptTrade_cases s p acc with heq | ⟨hpresent, hstate, heq | hres⟩
    · exact ⟨s, by simp [tradeStep, heq]⟩
    · exact ⟨s.setTradeState p .accept, by simp [tradeStep, heq]⟩
    · obtain ⟨q, i, j, hacc, heq⟩ := hres
      obtain ⟨hi, hj⟩ := hitems p acc q i j ha hpresent hacc
      obtain ⟨i, rfl⟩ := Option.isSome_iff_exists.mp hi
      obtain ⟨j, rfl⟩ := Option.isSome_iff_exists.mp hj
      obtain ⟨t, ht, -⟩ := acceptedItems_transfer hinv hacc acc
      exact ⟨t, by simp [tradeStep, heq, ht]⟩
  | close p present =>
    obtain ⟨t, ht, -⟩ := internalCloseTrade_spec hinv p
    cases present with
    | false => exact ⟨s, rfl⟩
    | true => exact ⟨t, by simp [tradeStep, Game.playerCloseTrade, ht]⟩
  | disturb p =>
    obtain ⟨t, ht, -⟩ := internalCloseTrade_spec hinv p
    exact ⟨t, by simp [tradeStep, ht]⟩

/-- Both players offer before the first of them accepts. -/
theorem acceptedItems_offered_both :
    ∃ s, Game.acceptedItems s 2 = some (1, some 8, some 7) ∧ (some 8 : Option ItemId).isSome ∧
      (some 7 : Option ItemId).isSome := by
  have h0 : (tradeSystem.restrict OfferBeforeAccept).Reachable Trades.initial := .init rfl
  obtain ⟨s1, h1⟩ : ∃ s1, tradeStep Trades.initial (.request 1 2 (.ofItem 7)) = some s1 := ⟨_, rfl⟩
  have hr1 := reachable_restrict_step h0 (.request 1 2 (.ofItem 7)) trivial h1
  obtain ⟨s2, h2⟩ : ∃ s2, tradeStep s1 (.request 2 1 (.ofItem 8)) = some s2 := ⟨_, rfl⟩
  have hr2 := reachable_restrict_step hr1 (.request 2 1 (.ofItem 8)) trivial h2
  have hst : (s2.player 1).tradeState ≠ .acknowledge ∧ (s2.player 2).tradeState ≠ .acknowledge := by
    cases h1
    cases h2
    decide
  obtain ⟨s3, h3, hacc, hst3⟩ : ∃ s3, tradeStep s2 (.accept 1 .plain) = some s3 ∧
      Game.acceptedItems s3 2 = some (1, some 8, some 7) ∧
      (s3.player 2).tradeState ≠ .acknowledge := by
    cases h1
    cases h2
    exact ⟨_, rfl, rfl, by decide⟩
  have hr3 := reachable_restrict_step hr2 (.accept 1 .plain) (fun _ => hst.1) h3
  exact ⟨s3, hacc, (acceptedItems_offered s3 hr3).1 2 .plain 1 _ _ (fun _ => hst3) rfl hacc⟩

/-- Player 1 asks player 2 to trade and accepts at once; player 2, who has offered nothing, accepts
as well.  The missing item is then used as an object. -/
theorem acceptedItems_not_offered :
    (¬ ∀ s, tradeSystem.Reachable s → ∀ p q i j, Game.acceptedItems s p = some (q, i, j) →
      i.isSome ∧ j.isSome) ∧
    runActions tradeStep Trades.initial
      [.request 1 2 (.ofItem 7), .accept 1 .plain, .accept 2 .plain] = none := by
  refine ⟨?_, rfl⟩
  intro hall
  obtain ⟨s, hrun, hacc⟩ : ∃ s, runActions tradeStep Trades.initial
      [.request 1 2 (.ofItem 7), .accept 1 .plain] = some s ∧
      Game.acceptedItems s 2 = some (1, none, some 7) :=
    ⟨_, rfl, rfl⟩
  have hboth := hall s (reachable_of_runActions (.init rfl) hrun) 2 1 none (some 7) hacc
  simp at hboth

end TyanoCore
