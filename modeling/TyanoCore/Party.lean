import Mathlib.Data.List.Basic
import Mathlib.Logic.Function.Basic
import TyanoCore.Basic
import TyanoCore.Run

/-!
# Parties

The party operations of `party.cpp`, the invitation list kept by each player and the game
commands that drive them.  A party pointer is the index of a party; following the pointer of a
deleted party is undefined behaviour and has no result.
-/

namespace TyanoCore

/-- The fields of a player that the party code reads and writes. -/
structure PartyPlayer where
  inWorld : Bool
  party : Option PartyId
  invitePartyList : List PartyId
deriving DecidableEq

structure Party where
  leader : PlayerId
  memberList : List PlayerId
  inviteList : List PlayerId
deriving DecidableEq

/-- `next` is the address of the next party to be allocated. -/
structure PartyState where
  player : PlayerId → PartyPlayer
  party : PartyId → Option Party
  next : PartyId

namespace PartyState

/-- The server before anybody logs in. -/
def initial : PartyState where
  player _ := ⟨false, none, []⟩
  party _ := none
  next := 0

def setPlayer (s : PartyState) (q : PlayerId) (f : PartyPlayer → PartyPlayer) : PartyState :=
  { s with player := Function.update s.player q (f (s.player q)) }

def setPartyAt (s : PartyState) (this : PartyId) (p : Option Party) : PartyState :=
  { s with party := Function.update s.party this p }

@[simp] theorem setPlayer_party (s : PartyState) (q : PlayerId) (f : PartyPlayer → PartyPlayer) :
    (s.setPlayer q f).party = s.party := rfl

@[simp] theorem setPlayer_next (s : PartyState) (q : PlayerId) (f : PartyPlayer → PartyPlayer) :
    (s.setPlayer q f).next = s.next := rfl

@[simp] theorem setPartyAt_player (s : PartyState) (this : PartyId) (p : Option Party) :
    (s.setPartyAt this p).player = s.player := rfl

@[simp] theorem setPartyAt_next (s : PartyState) (this : PartyId) (p : Option Party) :
    (s.setPartyAt this p).next = s.next := rfl

theorem setPlayer_player (s : PartyState) (q r : PlayerId) (f : PartyPlayer → PartyPlayer) :
    (s.setPlayer q f).player r = if r = q then f (s.player q) else s.player r := by
  simp [setPlayer, Function.update_apply]

theorem setPartyAt_party (s : PartyState) (this P : PartyId) (p : Option Party) :
    (s.setPartyAt this p).party P = if P = this then p else s.party P := by
  simp [setPartyAt, Function.update_apply]

end PartyState

open PartyState

/-! ## `Player` -/

def Player.setParty (s : PartyState) (player : PlayerId) (party : Option PartyId) : PartyState :=
  s.setPlayer player fun r => { r with party := party }

def Player.addPartyInvitation (s : PartyState) (player : PlayerId) (party : PartyId) :
    PartyState :=
  if party ∈ (s.player player).invitePartyList then s
  else s.setPlayer player fun r => { r with invitePartyList := r.invitePartyList ++ [party] }

def Player.removePartyInvitation (s : PartyState) (player : PlayerId) (party : PartyId) :
    PartyState :=
  s.setPlayer player fun r => { r with invitePartyList := r.invitePartyList.erase party }

/-! ## `Party` -/

def Party.canDisband (p : Party) : Bool :=
  p.memberList.isEmpty && p.inviteList.isEmpty

/-- `result` is what a player who already left the world is reported as. -/
def Party.isPlayerMember (s : PartyState) (p : Party) (player : PlayerId) (result : Bool) : Bool :=
  if (s.player player).inWorld then decide (player ∈ p.memberList) else result

def Party.isPlayerInvited (s : PartyState) (p : Party) (player : PlayerId) (result : Bool) : Bool :=
  if (s.player player).inWorld then decide (player ∈ p.inviteList) else result

def Party.disband (s : PartyState) (this : PartyId) : Option PartyState := do
  let p ← s.party this
  let s := Player.setParty s p.leader none
  let s := p.inviteList.foldl (fun s q => Player.removePartyInvitation s q this) s
  let s := p.memberList.foldl (fun s q => Player.setParty s q none) s
  return s.setPartyAt this none

def Party.passLeadership (s : PartyState) (this : PartyId) (player : PlayerId) :
    Option (PartyState × Bool) := do
  let p ← s.party this
  if !p.isPlayerMember s player false || player = p.leader then
    return (s, false)
  let p' : Party :=
    { p with leader := player, memberList := p.leader :: p.memberList.erase player }
  return (s.setPartyAt this (some p'), true)

/-- `leave` once the leadership has been passed on: the player is taken off both lists and a party
without a leader or without anybody else is disbanded. -/
def Party.leaveLists (s : PartyState) (this : PartyId) (player : PlayerId) (missingLeader : Bool) :
    Option (PartyState × Bool) := do
  let p ← s.party this
  let p' : Party :=
    { p with memberList := p.memberList.erase player, inviteList := p.inviteList.erase player }
  let s := Player.setParty (s.setPartyAt this (some p')) player none
  if missingLeader || p'.canDisband then
    return (← Party.disband s this, true)
  return (s, true)

def Party.leave (s : PartyState) (this : PartyId) (player : PlayerId) :
    Option (PartyState × Bool) := do
  let p ← s.party this
  if !p.isPlayerMember s player false && player ≠ p.leader then
    return (s, false)
  if p.leader = player then
    match p.memberList with
    | [] => Party.leaveLists s this player true
    | front :: rest =>
      if rest.isEmpty && p.inviteList.isEmpty then
        Party.leaveLists s this player true
      else
        let (s, _) ← Party.passLeadership s this front
        Party.leaveLists s this player false
  else
    Party.leaveLists s this player false

def Party.join (s : PartyState) (this : PartyId) (player : PlayerId) :
    Option (PartyState × Bool) := do
  let p ← s.party this
  if p.isPlayerMember s player false || !p.isPlayerInvited s player false then
    return (s, false)
  let s := Player.setParty s player (some this)
  let s := Player.removePartyInvitation s player this
  let p' : Party :=
    { p with memberList := p.memberList ++ [player], inviteList := p.inviteList.erase player }
  return (s.setPartyAt this (some p'), true)

def Party.removeInvite (s : PartyState) (this : PartyId) (player : PlayerId) :
    Option (PartyState × Bool) := do
  let p ← s.party this
  if !p.isPlayerInvited s player false then
    return (s, false)
  let p' : Party := { p with inviteList := p.inviteList.erase player }
  let s := Player.removePartyInvitation (s.setPartyAt this (some p')) player this
  if p'.canDisband then
    return (← Party.disband s this, true)
  return (s, true)

def Party.revokeInvitation (s : PartyState) (this : PartyId) (player : PlayerId) :
    Option PartyState :=
  if (s.player player).inWorld then
    (Party.removeInvite s this player).map Prod.fst
  else
    some s

def Party.invitePlayer (s : PartyState) (this : PartyId) (player : PlayerId) :
    Option (PartyState × Bool) := do
  let p ← s.party this
  if p.isPlayerInvited s player true then
    return (s, false)
  let p' : Party := { p with inviteList := p.inviteList ++ [player] }
  return (Player.addPartyInvitation (s.setPartyAt this (some p')) player this, true)

/-- `new Party(leader)`: the constructor makes the leader point to the new party. -/
def Party.new (s : PartyState) (leader : PlayerId) : PartyState × PartyId :=
  let s' := { s.setPartyAt s.next (some ⟨leader, [], []⟩) with next := s.next + 1 }
  (Player.setParty s' leader (some s.next), s.next)

/-! ## Commands of the clients -/

/-- The leader of the party that a player points to, if he points to one. -/
def Player.partyLeader (s : PartyState) (player : PlayerId) : Option (Option PlayerId) :=
  match (s.player player).party with
  | none => some none
  | some P => (s.party P).map fun p => some p.leader

def Player.isInviting (s : PartyState) (this player : PlayerId) : Option Bool :=
  match (s.player this).party with
  | none => some false
  | some P => (s.party P).map fun p =>
      if p.leader ≠ this then false else p.isPlayerInvited s player false

def Player.isPartner (s : PartyState) (this player : PlayerId) : Bool :=
  match (s.player this).party, (s.player player).party with
  | some P, some Q => P = Q
  | _, _ => false

def Game.playerInviteToParty (s : PartyState) (playerId invitedId : PlayerId) :
    Option (PartyState × Bool) := do
  if !(s.player playerId).inWorld then
    return (s, false)
  if !(s.player invitedId).inWorld then
    return (s, false)
  if ← Player.isInviting s invitedId playerId then
    return (s, false)
  if (s.player invitedId).party.isSome then
    return (s, false)
  match (s.player playerId).party with
  | none =>
    let (s, party) := Party.new s playerId
    Party.invitePlayer s party invitedId
  | some party =>
    if (← s.party party).leader ≠ playerId then
      return (s, false)
    Party.invitePlayer s party invitedId

def Game.playerJoinParty (s : PartyState) (playerId leaderId : PlayerId) :
    Option (PartyState × Bool) := do
  if !(s.player playerId).inWorld then
    return (s, false)
  if !(s.player leaderId).inWorld then
    return (s, false)
  if !(← Player.isInviting s leaderId playerId) then
    return (s, false)
  if (s.player playerId).party.isNone then
    Party.join s (← (s.player leaderId).party) playerId
  else
    return (s, false)

def Game.playerRevokePartyInvitation (s : PartyState) (playerId invitedId : PlayerId) :
    Option (PartyState × Bool) := do
  if !(s.player playerId).inWorld then
    return (s, false)
  if (← Player.partyLeader s playerId) ≠ some playerId then
    return (s, false)
  if !(s.player invitedId).inWorld then
    return (s, false)
  if !(← Player.isInviting s playerId invitedId) then
    return (s, false)
  return (← Party.revokeInvitation s (← (s.player playerId).party) invitedId, true)

def Game.playerPassPartyLeadership (s : PartyState) (playerId newLeaderId : PlayerId) :
    Option (PartyState × Bool) := do
  if !(s.player playerId).inWorld then
    return (s, false)
  if (← Player.partyLeader s playerId) ≠ some playerId then
    return (s, false)
  if !(s.player newLeaderId).inWorld || !Player.isPartner s playerId newLeaderId then
    return (s, false)
  Party.passLeadership s (← (s.player playerId).party) newLeaderId

/-- `infight` is whether the player has `CONDITION_INFIGHT`. -/
def Game.playerLeaveParty (s : PartyState) (playerId : PlayerId) (infight : Bool) :
    Option (PartyState × Bool) := do
  if !(s.player playerId).inWorld then
    return (s, false)
  match (s.player playerId).party with
  | none => return (s, false)
  | some P => if infight then return (s, false) else Party.leave s P playerId

def Player.clearPartyInvitations (s : PartyState) (player : PlayerId) : Option PartyState :=
  let list := (s.player player).invitePartyList
  let s := s.setPlayer player fun r => { r with invitePartyList := [] }
  list.foldlM (fun s P => (Party.removeInvite s P player).map Prod.fst) s

/-- The party part of `World::removeCreature`: `onCreatureDisappear` runs while the player still
counts as being in the world. -/
def Player.onCreatureDisappear (s : PartyState) (player : PlayerId) : Option PartyState := do
  let s ← Player.clearPartyInvitations s player
  let s ← match (s.player player).party with
    | none => pure s
    | some P => (Party.leave s P player).map Prod.fst
  return s.setPlayer player fun r => { r with inWorld := false }

inductive PartyAction where
  | appear (player : PlayerId)
  | inviteToParty (player invited : PlayerId)
  | joinParty (player leader : PlayerId)
  | revokePartyInvitation (player invited : PlayerId)
  | passPartyLeadership (player newLeader : PlayerId)
  | leaveParty (player : PlayerId) (infight : Bool)
  | disappear (player : PlayerId)
deriving DecidableEq

/-- One step of the server.  A player who enters the world is a newly constructed one; only a
player who is in the world disappears from it. -/
def partyStep (s : PartyState) : PartyAction → Option PartyState
  | .appear p =>
    if (s.player p).inWorld then some s else some (s.setPlayer p fun _ => ⟨true, none, []⟩)
  | .inviteToParty p q => (Game.playerInviteToParty s p q).map Prod.fst
  | .joinParty p q => (Game.playerJoinParty s p q).map Prod.fst
  | .revokePartyInvitation p q => (Game.playerRevokePartyInvitation s p q).map Prod.fst
  | .passPartyLeadership p q => (Game.playerPassPartyLeadership s p q).map Prod.fst
  | .leaveParty p infight => (Game.playerLeaveParty s p infight).map Prod.fst
  | .disappear p => if (s.player p).inWorld then Player.onCreatureDisappear s p else some s

def partySystem : Transition.System PartyState PartyAction :=
  .ofStep (· = PartyState.initial) partyStep

end TyanoCore
