import Mathlib.Data.List.Basic
import Mathlib.Logic.Function.Basic
import TyanoCore.Basic
import TyanoCore.Run

/-!
# The trade protocol

Trade requests, acceptance and cancellation in `game.cpp`: the trade fields of the players and the
map of the items that are being traded.  What the handlers read from the rest of the server (who is
present, what lies where, what scripts answer) comes with each message.  Using a null trade item as
an object is undefined behaviour and has no result.
-/

namespace TyanoCore

inductive TradeState where
  | none
  | initiated
  | accept
  | acknowledge
  | transfer
deriving DecidableEq

/-- The trade fields of a player. -/
structure TradePlayer where
  tradeState : TradeState
  tradePartner : Option PlayerId
  tradeItem : Option ItemId
deriving DecidableEq

/-- `tradeItems` is a map with the traded items as keys and the ids of their traders as values. -/
structure Trades where
  player : PlayerId → TradePlayer
  tradeItems : List (ItemId × PlayerId)

namespace Trades

def initial : Trades where
  player _ := ⟨.none, none, none⟩
  tradeItems := []

def setPlayer (s : Trades) (p : PlayerId) (r : TradePlayer) : Trades :=
  { s with player := Function.update s.player p r }

def setTradeState (s : Trades) (p : PlayerId) (state : TradeState) : Trades :=
  s.setPlayer p { s.player p with tradeState := state }

/-- Forgets the trade of a player: no state, no partner and no item. -/
def clearPlayer (s : Trades) (p : PlayerId) : Trades :=
  s.setPlayer p ⟨.none, none, none⟩

/-- `tradeItems[item] = p`. -/
def insertItem (s : Trades) (item : ItemId) (p : PlayerId) : Trades :=
  { s with tradeItems := (item, p) :: s.tradeItems.filter fun e => e.1 ≠ item }

/-- Looks an item up and erases its entry; a null item has none. -/
def eraseItem (s : Trades) (item : Option ItemId) : Trades :=
  { s with tradeItems := s.tradeItems.filter fun e => some e.1 ≠ item }

theorem setPlayer_player (s : Trades) (p q : PlayerId) (r : TradePlayer) :
    (s.setPlayer p r).player q = if q = p then r else s.player q := by
  simp [setPlayer, Function.update_apply]

theorem setTradeState_player (s : Trades) (p q : PlayerId) (state : TradeState) :
    (s.setTradeState p state).player q =
      if q = p then { s.player p with tradeState := state } else s.player q :=
  s.setPlayer_player p q _

theorem clearPlayer_player (s : Trades) (p q : PlayerId) :
    (s.clearPlayer p).player q = if q = p then ⟨.none, none, none⟩ else s.player q :=
  s.setPlayer_player p q _

@[simp] theorem setPlayer_tradeItems (s : Trades) (p : PlayerId) (r : TradePlayer) :
    (s.setPlayer p r).tradeItems = s.tradeItems := rfl

@[simp] theorem setTradeState_tradeItems (s : Trades) (p : PlayerId) (state : TradeState) :
    (s.setTradeState p state).tradeItems = s.tradeItems := rfl

@[simp] theorem clearPlayer_tradeItems (s : Trades) (p : PlayerId) :
    (s.clearPlayer p).tradeItems = s.tradeItems := rfl

@[simp] theorem insertItem_player (s : Trades) (item : ItemId) (p : PlayerId) :
    (s.insertItem item p).player = s.player := rfl

@[simp] theorem eraseItem_player (s : Trades) (item : Option ItemId) :
    (s.eraseItem item).player = s.player := rfl

theorem mem_eraseItem (s : Trades) (item : Option ItemId) (e : ItemId × PlayerId) :
    e ∈ (s.eraseItem item).tradeItems ↔ e ∈ s.tradeItems ∧ some e.1 ≠ item := by
  simp [eraseItem]

end Trades

open Trades

/-- What `playerRequestTrade` finds out about the players and the item at the given position. -/
structure TradeRequest where
  playerPresent : Bool
  partnerPresent : Bool
  /-- The partner stands within two fields of the player. -/
  partnerInRange : Bool
  tradeItem : Option ItemId
  /-- A backpack search that found an item of another client id. -/
  wrongClientId : Bool
  isPickupable : Bool
  isLoadedFromMap : Bool
  uniqueId : ℕ
  actionId : ℕ
  /-- The number of items held, when the item is a container. -/
  itemHoldingCount : Option ℕ
  /-- The item lies on the map. -/
  hasPosition : Bool
  playerZ : ℕ
  itemZ : ℕ
  /-- The item lies within one field of the player. -/
  itemInRange : Bool
  /-- There is a way to the item; the player takes it and asks again later. -/
  canWalkToItem : Bool
  /-- `dynamic_cast<const Container*>(a)->isHoldingItem(b)`; false when `a` is no container. -/
  isHoldingItem : ItemId → ItemId → Bool
  /-- A script refused the request. -/
  deny : Bool

/-- What `playerAcceptTrade` finds out. -/
structure TradeAcceptance where
  playerPresent : Bool
  /-- A script refused the trade. -/
  deny : Bool
  /-- Both items can change hands. -/
  isSuccess : Bool
  /-- Players whose trades are closed because the moving items disturb them. -/
  disturbed : List PlayerId

/-- Two traded items clash when they are the same or one holds the other. -/
def TradeRequest.clashes (r : TradeRequest) (tradeItem other : ItemId) : Bool :=
  tradeItem = other || r.isHoldingItem tradeItem other || r.isHoldingItem other tradeItem

def Game.internalStartTrade (s : Trades) (player tradePartner : PlayerId) (tradeItem : ItemId) :
    Trades × Bool :=
  let p := s.player player
  let q := s.player tradePartner
  if p.tradeState ≠ .none ∧
      ¬ (p.tradeState = .acknowledge ∧ p.tradePartner = some tradePartner) then
    (s, false)
  else if q.tradeState ≠ .none ∧ q.tradePartner ≠ some player then
    (s, false)
  else
    let s := s.setPlayer player ⟨.initiated, some tradePartner, some tradeItem⟩
    let s := s.insertItem tradeItem player
    let q := s.player tradePartner
    if q.tradeState = .none then
      (s.setPlayer tradePartner ⟨.acknowledge, some player, q.tradeItem⟩, true)
    else
      (s, true)

def Game.playerRequestTrade (s : Trades) (playerId tradePlayerId : PlayerId) (r : TradeRequest) :
    Trades × Bool :=
  if !r.playerPresent then (s, false)
  else if !r.partnerPresent || tradePlayerId = playerId then (s, false)
  else if !r.partnerInRange then (s, false)
  else
    match r.tradeItem with
    | none => (s, false)
    | some tradeItem =>
      if r.wrongClientId || !r.isPickupable ||
          (r.isLoadedFromMap &&
            (r.uniqueId ≠ 0 || (r.actionId ≠ 0 && r.itemHoldingCount.isSome))) then
        (s, false)
      else if r.hasPosition && (r.playerZ > r.itemZ || r.playerZ < r.itemZ) then (s, false)
      else if r.hasPosition && !r.itemInRange then (s, r.canWalkToItem)
      else if s.tradeItems.any fun e => r.clashes tradeItem e.1 then (s, false)
      else if r.itemHoldingCount.any fun n => n + 1 > 100 then (s, false)
      else if r.deny then (s, false)
      else Game.internalStartTrade s playerId tradePlayerId tradeItem

def Game.internalCloseTrade (s : Trades) (player : PlayerId) : Option (Trades × Bool) :=
  let p := s.player player
  match p.tradePartner with
  | none =>
    -- the warning about a running transfer names the partner
    if p.tradeState = .transfer then none
    else some ((s.eraseItem p.tradeItem).clearPlayer player, true)
  | some tradePartner =>
    if (s.player tradePartner).tradeState = .transfer ∨ p.tradeState = .transfer then
      some (s, true)
    else
      let s := (s.eraseItem p.tradeItem).clearPlayer player
      some ((s.eraseItem (s.player tradePartner).tradeItem).clearPlayer tradePartner, true)

def Game.playerCloseTrade (s : Trades) (playerId : PlayerId) (playerPresent : Bool) :
    Option (Trades × Bool) :=
  if !playerPresent then some (s, false) else Game.internalCloseTrade s playerId

/-- The two trade items, once the partner is found to have accepted too. -/
def Game.acceptedItems (s : Trades) (playerId : PlayerId) :
    Option (PlayerId × Option ItemId × Option ItemId) :=
  let p := s.player playerId
  if p.tradeState = .acknowledge ∨ p.tradeState = .initiated then
    let s := s.setTradeState playerId .accept
    match p.tradePartner with
    | none => none
    | some tradePartner =>
      if (s.player tradePartner).tradeState ≠ .accept then none
      else some (tradePartner, (s.player playerId).tradeItem, (s.player tradePartner).tradeItem)
  else none

/-- The transfer of two offered items.  The moves may close the trades of other players. -/
def Game.transferTradeItems (s : Trades) (player tradePartner : PlayerId)
    (tradeItem1 tradeItem2 : Option ItemId) (r : TradeAcceptance) : Option (Trades × Bool) := do
  let s := (s.setTradeState player .transfer).setTradeState tradePartner .transfer
  let s := (s.eraseItem tradeItem1).eraseItem tradeItem2
  -- both outcomes call `onTradeEvent` on both items
  let _ ← tradeItem1
  let _ ← tradeItem2
  let disturbed := if r.isSuccess then r.disturbed else []
  let s ← disturbed.foldlM (fun s q => (Game.internalCloseTrade s q).map Prod.fst) s
  return ((s.clearPlayer player).clearPlayer tradePartner, r.isSuccess)

def Game.playerAcceptTrade (s : Trades) (playerId : PlayerId) (r : TradeAcceptance) :
    Option (Trades × Bool) :=
  let p := s.player playerId
  if !r.playerPresent then some (s, false)
  else if ¬ (p.tradeState = .acknowledge ∨ p.tradeState = .initiated) then some (s, false)
  else
    let accepted := s.setTradeState playerId .accept
    match Game.acceptedItems s playerId with
    | none => some (accepted, false)
    | some (tradePartner, tradeItem1, tradeItem2) =>
      if r.deny then some (accepted, false)
      else Game.transferTradeItems accepted playerId tradePartner tradeItem1 tradeItem2 r

/-- Messages of the clients; `disturb` is a trade closed by the server itself, because a player
moved away or disappeared or a traded item was touched. -/
inductive TradeAction where
  | request (player tradePartner : PlayerId) (r : TradeRequest)
  | accept (player : PlayerId) (r : TradeAcceptance)
  | close (player : PlayerId) (playerPresent : Bool)
  | disturb (player : PlayerId)

def tradeStep (s : Trades) : TradeAction → Option Trades
  | .request p q r => some (Game.playerRequestTrade s p q r).1
  | .accept p r => (Game.playerAcceptTrade s p r).map Prod.fst
  | .close p present => (Game.playerCloseTrade s p present).map Prod.fst
  | .disturb p => (Game.internalCloseTrade s p).map Prod.fst

def tradeSystem : Transition.System Trades TradeAction :=
  .ofStep (· = Trades.initial) tradeStep

end TyanoCore
