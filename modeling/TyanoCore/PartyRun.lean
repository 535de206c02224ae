import TyanoCore.PartyInvariant

/-!
# Party membership over whole runs

Every command of a client, a player entering the world and a player disappearing from it keep the
membership invariant, as long as nobody without a party invites himself.
-/

namespace TyanoCore

open PartyState Transition

/-- What the two sides of the relation promise each other in a state of the server. -/
structure PartyMembership (s : PartyState) : Prop where
  party_iff : ∀ q P, (s.player q).party = some P ↔
    ∃ p, s.party P = some p ∧ (q = p.leader ∨ q ∈ p.memberList)
  leader_unlisted : ∀ P p, s.party P = some p → p.leader ∉ p.memberList ∧ p.leader ∉ p.inviteList
  lists_nodup : ∀ P p, s.party P = some p → p.memberList.Nodup ∧ p.inviteList.Nodup
  invited_iff : ∀ q P, P ∈ (s.player q).invitePartyList ↔
    ∃ p, s.party P = some p ∧ q ∈ p.inviteList
  nonempty : ∀ P p, s.party P = some p → p.memberList ≠ [] ∨ p.inviteList ≠ []
  no_dangling : ∀ q P, (s.player q).party = some P ∨ P ∈ (s.player q).invitePartyList →
    (s.party P).isSome

theorem PartyInvariant.membership {s : PartyState} (h : PartyInvariant s) :
    PartyMembership s where
  party_iff := h.consistent.party_iff
  leader_unlisted P p hp :=
    have hwf := h.consistent.wellFormed P p hp
    ⟨hwf.leader_not_member, hwf.leader_not_invited⟩
  lists_nodup P p hp :=
    have hwf := h.consistent.wellFormed P p hp
    ⟨hwf.members_nodup, hwf.invites_nodup⟩
  invited_iff := by simpa using h.consistent.invited_iff
  nonempty := by
    intro P p hp
    have hne := h.nonempty P p hp id
    by_contra hcon
    push Not at hcon
    simp [Party.canDisband_eq_true.mpr hcon] at hne
  no_dangling := by
    intro q P hq
    rcases hq with hq | hq
    · obtain ⟨p, hp, -⟩ := (h.consistent.party_iff q P).mp hq
      simp [hp]
    · obtain ⟨p, hp, -⟩ := (h.consistent.invited_iff q P).mp (.inl hq)
      simp [hp]

theorem initial_partyInvariant : PartyInvariant PartyState.initial where
  consistent := by
    constructor <;> simp [PartyState.initial]
  nonempty := by
    intro P p hp
    simp [PartyState.initial] at hp

/-! ## Commands -/

/-- A player who points to a party points to one that exists and lists him. -/
theorem PartyInvariant.party_of_some {s : PartyState} (h : PartyInvariant s) {q : PlayerId}
    {P : PartyId} (hq : (s.player q).party = some P) : ∃ p, s.party P = some p ∧ p.Belongs q :=
  (h.consistent.party_iff q P).mp hq

/-- `isInviting` never follows a dangling pointer, and says what it is named for. -/
theorem isInviting_spec {s : PartyState} (h : PartyInvariant s) (this player : PlayerId) :
    ∃ b, Player.isInviting s this player = some b ∧
      (b = true → ∃ P p, (s.player this).party = some P ∧ s.party P = some p ∧ p.leader = this ∧
        player ∈ p.inviteList) := by
  unfold Player.isInviting
  cases hparty : (s.player this).party with
  | none => exact ⟨false, rfl, by simp⟩
  | some P =>
    obtain ⟨p, hp, -⟩ := h.party_of_some hparty
    refine ⟨_, by simp only [hp, Option.map_some]; rfl, ?_⟩
    simp only [h.consistent.isPlayerInvited_eq hp]
    intro hb
    split at hb
    · cases hb
    · next hl => exact ⟨P, p, rfl, hp, not_not.mp hl, by simpa using hb⟩

theorem partyLeader_spec {s : PartyState} (h : PartyInvariant s) (q : PlayerId) :
    ∃ l, Player.partyLeader s q = some l ∧
      ∀ r, l = some r → ∃ P p, (s.player q).party = some P ∧ s.party P = some p ∧ p.leader = r := by
  unfold Player.partyLeader
  cases hparty : (s.player q).party with
  | none => exact ⟨none, rfl, by simp⟩
  | some P =>
    obtain ⟨p, hp, -⟩ := h.party_of_some hparty
    exact ⟨some p.leader, by simp [hp], fun r hr => ⟨P, p, rfl, hp, Option.some.inj hr⟩⟩

theorem playerInviteToParty_spec {s : PartyState} (h : PartyInvariant s)
    (playerId invitedId : PlayerId)
    (hself : playerId = invitedId → (s.player playerId).inWorld →
      (s.player playerId).party ≠ none) :
    ∃ s' b, Game.playerInviteToParty s playerId invitedId = some (s', b) ∧ PartyInvariant s' := by
  by_cases hw : (s.player playerId).inWorld
  swap
  · exact ⟨s, false, by simp [Game.playerInviteToParty, hw], h⟩
  by_cases hwi : (s.player invitedId).inWorld
  swap
  · exact ⟨s, false, by simp [Game.playerInviteToParty, hw, hwi], h⟩
  obtain ⟨b, hb, -⟩ := isInviting_spec h invitedId playerId
  cases b with
  | true => exact ⟨s, false, by simp [Game.playerInviteToParty, hw, hwi, hb], h⟩
  | false =>
    cases hparty : (s.player invitedId).party with
    | some P => exact ⟨s, false, by simp [Game.playerInviteToParty, hw, hwi, hb, hparty], h⟩
    | none =>
      have hout : ∀ P p, s.party P = some p → ¬ p.Belongs invitedId := by
        intro P p hp hbel
        have hsome := (h.consistent.party_iff invitedId P).mpr ⟨p, hp, hbel⟩
        simp [hparty] at hsome
      cases hown : (s.player playerId).party with
      | none =>
        -- the inviting player founds a party
        have hne : invitedId ≠ playerId := fun he => hself he.symm hw hown
        obtain ⟨hc, hempty, hp, hworld⟩ := new_spec h hw hown
        obtain ⟨s', b', hs', hinv⟩ := invitePlayer_spec hc hempty hp
          (show ((Party.new s playerId).1.player invitedId).inWorld by rw [hworld]; exact hwi)
          (by simp [Party.Belongs, hne])
        refine ⟨s', b', ?_, hinv⟩
        simpa [Game.playerInviteToParty, hw, hwi, hb, hparty, hown, Party.new] using hs'
      | some P =>
        obtain ⟨p, hp, -⟩ := h.party_of_some hown
        by_cases hl : p.leader = playerId
        · have hempty : s.NoneEmptyBut fun Q => Q = P := fun Q q hq _ => h.nonempty Q q hq id
          obtain ⟨s', b', hs', hinv⟩ :=
            invitePlayer_spec h.consistent hempty hp hwi (hout P p hp)
          refine ⟨s', b', ?_, hinv⟩
          simpa [Game.playerInviteToParty, hw, hwi, hb, hparty, hown, hp, hl] using hs'
        · refine ⟨s, false, ?_, h⟩
          simp [Game.playerInviteToParty, hw, hwi, hb, hparty, hown, hp, hl]

theorem playerJoinParty_spec {s : PartyState} (h : PartyInvariant s)
    (playerId leaderId : PlayerId) :
    ∃ s' b, Game.playerJoinParty s playerId leaderId = some (s', b) ∧ PartyInvariant s' := by
  by_cases hw : (s.player playerId).inWorld
  swap
  · exact ⟨s, false, by simp [Game.playerJoinParty, hw], h⟩
  by_cases hwl : (s.player leaderId).inWorld
  swap
  · exact ⟨s, false, by simp [Game.playerJoinParty, hw, hwl], h⟩
  obtain ⟨b, hb, hbt⟩ := isInviting_spec h leaderId playerId
  cases b with
  | false => exact ⟨s, false, by simp [Game.playerJoinParty, hw, hwl, hb], h⟩
  | true =>
    obtain ⟨P, p, hparty, hp, -, hi⟩ := hbt rfl
    cases hown : (s.player playerId).party with
    | some Q => exact ⟨s, false, by simp [Game.playerJoinParty, hw, hwl, hb, hown], h⟩
    | none =>
      obtain ⟨s', hs', hinv⟩ := join_spec h hp hi hown
      exact ⟨s', true, by simp [Game.playerJoinParty, hw, hwl, hb, hown, hparty, hs'], hinv⟩

theorem playerRevokePartyInvitation_spec {s : PartyState} (h : PartyInvariant s)
    (playerId invitedId : PlayerId) :
    ∃ s' b, Game.playerRevokePartyInvitation s playerId invitedId = some (s', b) ∧
      PartyInvariant s' := by
  by_cases hw : (s.player playerId).inWorld
  swap
  · exact ⟨s, false, by simp [Game.playerRevokePartyInvitation, hw], h⟩
  obtain ⟨l, hl, -⟩ := partyLeader_spec h playerId
  by_cases hlp : l = some playerId
  swap
  · exact ⟨s, false, by simp [Game.playerRevokePartyInvitation, hw, hl, hlp], h⟩
  by_cases hwi : (s.player invitedId).inWorld
  swap
  · exact ⟨s, false, by simp [Game.playerRevokePartyInvitation, hw, hl, hlp, hwi], h⟩
  obtain ⟨b, hb, hbt⟩ := isInviting_spec h playerId invitedId
  cases b with
  | false => exact ⟨s, false, by simp [Game.playerRevokePartyInvitation, hw, hl, hlp, hwi, hb], h⟩
  | true =>
    obtain ⟨P, p, hparty, hp, -, hi⟩ := hbt rfl
    have hmem := (h.consistent.nil invitedId).invited_iff invitedId P
    obtain ⟨s', hs', hcons, hne, -, -⟩ :=
      removeInvite_spec (h.consistent.nil invitedId) List.nodup_nil h.nonempty
        (hmem.mpr ⟨p, hp, hi⟩ |>.imp id And.right)
    refine ⟨s', true, ?_, (by simpa using hcons : PartyConsistent s' invitedId []).nil 0, hne⟩
    simp [Game.playerRevokePartyInvitation, hw, hl, hlp, hwi, hb, hparty, Party.revokeInvitation,
      hs']

theorem playerPassPartyLeadership_spec {s : PartyState} (h : PartyInvariant s)
    (playerId newLeaderId : PlayerId) :
    ∃ s' b, Game.playerPassPartyLeadership s playerId newLeaderId = some (s', b) ∧
      PartyInvariant s' := by
  by_cases hw : (s.player playerId).inWorld
  swap
  · exact ⟨s, false, by simp [Game.playerPassPartyLeadership, hw], h⟩
  obtain ⟨l, hl, hlt⟩ := partyLeader_spec h playerId
  by_cases hlp : l = some playerId
  swap
  · exact ⟨s, false, by simp [Game.playerPassPartyLeadership, hw, hl, hlp], h⟩
  by_cases hwn : (s.player newLeaderId).inWorld ∧ Player.isPartner s playerId newLeaderId
  swap
  · refine ⟨s, false, ?_, h⟩
    by_cases hwi : (s.player newLeaderId).inWorld
    · have hnp : Player.isPartner s playerId newLeaderId = false := by simpa [hwi] using hwn
      simp [Game.playerPassPartyLeadership, hw, hl, hlp, hwi, hnp]
    · simp [Game.playerPassPartyLeadership, hw, hl, hlp, hwi]
  obtain ⟨P, p, hparty, hp, -⟩ := hlt playerId hlp
  by_cases hm : newLeaderId ∈ p.memberList
  · obtain ⟨s', hs', hinv, -⟩ := passLeadership_spec h hp hm
    refine ⟨s', true, ?_, hinv⟩
    simp [Game.playerPassPartyLeadership, hw, hl, hlp, hwn, hparty, hs']
  · have hfail : Party.passLeadership s P newLeaderId = some (s, false) := by
      simp [Party.passLeadership, hp, h.consistent.isPlayerMember_eq hp, hm]
    refine ⟨s, false, ?_, h⟩
    simp [Game.playerPassPartyLeadership, hw, hl, hlp, hwn, hparty, hfail]

theorem playerLeaveParty_spec {s : PartyState} (h : PartyInvariant s) (playerId : PlayerId)
    (infight : Bool) :
    ∃ s' b, Game.playerLeaveParty s playerId infight = some (s', b) ∧ PartyInvariant s' := by
  by_cases hw : (s.player playerId).inWorld
  swap
  · exact ⟨s, false, by simp [Game.playerLeaveParty, hw], h⟩
  cases hparty : (s.player playerId).party with
  | none => exact ⟨s, false, by simp [Game.playerLeaveParty, hw, hparty], h⟩
  | some P =>
    cases infight with
    | true => exact ⟨s, false, by simp [Game.playerLeaveParty, hw, hparty], h⟩
    | false =>
      obtain ⟨s', hs', hleft⟩ := leave_spec h hparty
      exact ⟨s', true, by simp [Game.playerLeaveParty, hw, hparty, hs'], hleft.1⟩

/-! ## Players who enter and disappear -/

/-- The loop of `clearPartyInvitations` over what is left of the copied list. -/
theorem clear_loop_spec {player : PlayerId} (owed : List PartyId) (hnodup : owed.Nodup)
    (s : PartyState) (hc : PartyConsistent s player owed) (hne : s.NoneEmptyBut fun _ => False)
    (hnil : (s.player player).invitePartyList = []) :
    ∃ s', owed.foldlM (fun s P => (Party.removeInvite s P player).map Prod.fst) s = some s' ∧
      PartyInvariant s' ∧ (∀ q, (s'.player q).inWorld = (s.player q).inWorld) ∧
      (s'.player player).invitePartyList = [] := by
  induction owed generalizing s with
  | nil => exact ⟨s, rfl, ⟨hc.nil 0, hne⟩, fun q => rfl, hnil⟩
  | cons P owed ih =>
    obtain ⟨s1, hs1, hc1, hne1, hworld1, hnil1⟩ :=
      removeInvite_spec hc hnodup hne (.inr List.mem_cons_self)
    rw [List.erase_cons_head] at hc1
    obtain ⟨s', hs', hinv, hworld, hnil'⟩ :=
      ih (List.nodup_cons.mp hnodup).2 s1 hc1 hne1 (hnil1 hnil)
    refine ⟨s', by simp [hs1, hs'], hinv, ?_, hnil'⟩
    intro q
    rw [hworld, hworld1]

theorem clearPartyInvitations_spec {s : PartyState} (h : PartyInvariant s) (player : PlayerId) :
    ∃ s', Player.clearPartyInvitations s player = some s' ∧ PartyInvariant s' ∧
      (∀ q, (s'.player q).inWorld = (s.player q).inWorld) ∧
      (s'.player player).invitePartyList = [] := by
  have hc := h.consistent.nil player
  let s1 := s.setPlayer player fun r => { r with invitePartyList := [] }
  have hplayer : ∀ q, s1.player q = if q = player then
      { s.player q with invitePartyList := [] } else s.player q := by
    intro q
    simp only [s1, setPlayer_player]
    split <;> simp_all
  have hc1 : PartyConsistent s1 player (s.player player).invitePartyList :=
    { wellFormed := hc.wellFormed
      party_iff := by
        intro q P
        have hq := hc.party_iff q P
        rw [hplayer]
        simp only [s1, setPlayer_party, ← hq]
        split <;> simp
      invited_iff := by
        intro q P
        have hq := hc.invited_iff q P
        rw [hplayer]
        simp only [s1, setPlayer_party, ← hq]
        split <;> simp_all
      invitations_nodup := by
        intro q
        rw [hplayer]
        split
        · exact List.nodup_nil
        · exact hc.invitations_nodup q
      inWorld := by
        intro P p q hp hq
        have hw := hc.inWorld P p q hp hq
        rw [hplayer]
        split <;> exact hw
      allocated := hc.allocated }
  obtain ⟨s', hs', hinv, hworld, hnil⟩ :=
    clear_loop_spec _ (hc.invitations_nodup player) s1 hc1 h.nonempty (by simp [hplayer])
  refine ⟨s', hs', hinv, ?_, hnil⟩
  intro q
  rw [hworld, hplayer]
  split <;> rfl

/-- A player whom no party mentions may leave or enter the world as a fresh one. -/
theorem PartyInvariant.replace_unlisted {s : PartyState} (h : PartyInvariant s) {player : PlayerId}
    (hparty : (s.player player).party = none)
    (hlist : (s.player player).invitePartyList = []) (w : Bool) :
    PartyInvariant (s.setPlayer player fun _ => ⟨w, none, []⟩) := by
  have hc := h.consistent
  have hplayer : ∀ q, (s.setPlayer player fun _ => ⟨w, none, []⟩).player q =
      if q = player then ⟨w, none, []⟩ else s.player q := by
    intro q
    rw [setPlayer_player]
  refine ⟨⟨hc.wellFormed, ?_, ?_, ?_, ?_, hc.allocated⟩, h.nonempty⟩
  · intro q P
    rw [hplayer, setPlayer_party, ← hc.party_iff q P]
    split <;> simp_all
  · intro q P
    rw [hplayer, setPlayer_party, ← hc.invited_iff q P]
    split <;> simp_all
  · intro q
    rw [hplayer]
    split
    · exact List.nodup_nil
    · exact hc.invitations_nodup q
  · intro P p q hp hq
    rw [hplayer]
    split
    · next he =>
      subst he
      rcases hq with hq | hq
      · simp [(hc.party_iff q P).mpr ⟨p, hp, hq⟩] at hparty
      · have hmem := (hc.invited_iff q P).mpr ⟨p, hp, hq⟩
        simp [hlist] at hmem
    · exact hc.inWorld P p q hp hq

theorem PartyInvariant.exit {s : PartyState} (h : PartyInvariant s) {player : PlayerId}
    (hparty : (s.player player).party = none)
    (hlist : (s.player player).invitePartyList = []) :
    PartyInvariant (s.setPlayer player fun r => { r with inWorld := false }) := by
  have hrecord : (s.setPlayer player fun r => { r with inWorld := false }) =
      s.setPlayer player fun _ => ⟨false, none, []⟩ := by
    simp [PartyState.setPlayer, hparty, hlist]
  exact hrecord ▸ h.replace_unlisted hparty hlist false

theorem onCreatureDisappear_spec {s : PartyState} (h : PartyInvariant s) (player : PlayerId) :
    ∃ s', Player.onCreatureDisappear s player = some s' ∧ PartyInvariant s' := by
  obtain ⟨s1, hs1, hinv1, -, hnil1⟩ := clearPartyInvitations_spec h player
  cases hparty : (s1.player player).party with
  | none =>
    exact ⟨_, by simp [Player.onCreatureDisappear, hs1, hparty], hinv1.exit hparty hnil1⟩
  | some P =>
    obtain ⟨s2, hs2, hinv2, -, hnone, hnil⟩ := leave_spec hinv1 hparty
    exact ⟨_, by simp [Player.onCreatureDisappear, hs1, hparty, hs2],
      hinv2.exit hnone (hnil hnil1)⟩

/-- A player outside the world has no party and no invitation. -/
theorem PartyInvariant.unlisted {s : PartyState} (h : PartyInvariant s) {q : PlayerId}
    (hw : (s.player q).inWorld = false) :
    (s.player q).party = none ∧ (s.player q).invitePartyList = [] := by
  have hc := h.consistent
  constructor
  · by_contra hne
    obtain ⟨P, hP⟩ := Option.ne_none_iff_exists'.mp hne
    obtain ⟨p, hp, hb⟩ := h.party_of_some hP
    simp [hc.inWorld P p q hp (.inl hb)] at hw
  · apply List.eq_nil_iff_forall_not_mem.mpr
    intro P hP
    obtain ⟨p, hp, hi⟩ := (hc.invited_iff q P).mp (.inl hP)
    simp [hc.inWorld P p q hp (.inr hi)] at hw

/-! ## Runs -/

/-- Nobody who is in the world without a party invites himself. -/
def NoSelfInvitation (s : PartyState) : PartyAction → Prop
  | .inviteToParty p q => p = q → (s.player p).inWorld → (s.player p).party ≠ none
  | _ => True

/-- A step from a good state does not follow a dangling pointer and ends in a good state. -/
theorem partyStep_spec {s : PartyState} (h : PartyInvariant s)
    (a : PartyAction) (ha : NoSelfInvitation s a) :
    ∃ s', partyStep s a = some s' ∧ PartyInvariant s' := by
  have hpair : ∀ {o : Option (PartyState × Bool)}, (∃ s' b, o = some (s', b) ∧ PartyInvariant s') →
      ∃ s', o.map Prod.fst = some s' ∧ PartyInvariant s' := by
    rintro o ⟨s', b, rfl, hinv⟩
    exact ⟨s', rfl, hinv⟩
  cases a with
  | appear p =>
    by_cases hw : (s.player p).inWorld
    · exact ⟨s, by simp [partyStep, hw], h⟩
    · obtain ⟨hparty, hlist⟩ := h.unlisted (by simpa using hw)
      exact ⟨_, by simp [partyStep, hw], h.replace_unlisted hparty hlist true⟩
  | inviteToParty p q => exact hpair (playerInviteToParty_spec h p q ha)
  | joinParty p q => exact hpair (playerJoinParty_spec h p q)
  | revokePartyInvitation p q => exact hpair (playerRevokePartyInvitation_spec h p q)
  | passPartyLeadership p q => exact hpair (playerPassPartyLeadership_spec h p q)
  | leaveParty p infight => exact hpair (playerLeaveParty_spec h p infight)
  | disappear p =>
    by_cases hw : (s.player p).inWorld
    · simpa [partyStep, hw] using onCreatureDisappear_spec h p
    · exact ⟨s, by simp [partyStep, hw], h⟩

theorem reachable_partyInvariant {s : PartyState}
    (h : (partySystem.restrict NoSelfInvitation).Reachable s) : PartyInvariant s := by
  refine h.invariant _ ?_ ?_
  · rintro s rfl
    exact initial_partyInvariant
  · rintro s a t hs ⟨ha, ht⟩
    obtain ⟨s', hs', hinv⟩ := partyStep_spec hs a ha
    cases hs'.symm.trans ht
    exact hinv

/-- Without self-invitations of players who have no party, the membership relation holds in every
reachable state, and no step follows the pointer of a deleted party. -/
theorem party_membership_of_noSelfInvitation (s : PartyState)
    (h : (partySystem.restrict NoSelfInvitation).Reachable s) :
    PartyMembership s ∧ ∀ a, NoSelfInvitation s a → ∃ t, partyStep s a = some t := by
  have hinv := reachable_partyInvariant h
  refine ⟨hinv.membership, ?_⟩
  intro a ha
  obtain ⟨t, ht, -⟩ := partyStep_spec hinv a ha
  exact ⟨t, ht⟩

/-- A run of two players in which nobody invites himself. -/
theorem party_membership_of_invitation :
    ∃ s, (s.player 2).invitePartyList = [0] ∧ PartyMembership s := by
  have h0 : (partySystem.restrict NoSelfInvitation).Reachable PartyState.initial := .init rfl
  obtain ⟨s1, h1⟩ : ∃ s1, s1 = PartyState.initial.setPlayer 1 fun _ => ⟨true, none, []⟩ := ⟨_, rfl⟩
  obtain ⟨s2, h2⟩ : ∃ s2, s2 = s1.setPlayer 2 fun _ => ⟨true, none, []⟩ := ⟨_, rfl⟩
  have hr1 := reachable_restrict_step (t := s1) h0 (.appear 1) trivial (h1 ▸ rfl)
  have hr2 := reachable_restrict_step (t := s2) hr1 (.appear 2) trivial (by subst h1 h2; rfl)
  obtain ⟨s3, h3, hlist⟩ : ∃ s3, partyStep s2 (.inviteToParty 1 2) = some s3 ∧
      (s3.player 2).invitePartyList = [0] := by
    subst h1 h2
    exact ⟨_, rfl, by decide⟩
  have hr3 := reachable_restrict_step hr2 (.inviteToParty 1 2) (by intro h; cases h) h3
  exact ⟨s3, hlist, (party_membership_of_noSelfInvitation s3 hr3).1⟩

/-- A player without a party invites himself and leaves: the deleted party stays in his list of
invitations, and disappearing follows that pointer. -/
def selfInvitation : List PartyAction :=
  [.appear 1, .inviteToParty 1 1, .leaveParty 1 false]

theorem selfInvitation_not_membership :
    ¬ ∀ s, partySystem.Reachable s → PartyMembership s := by
  intro hall
  obtain ⟨t, ht, hmem, hgone⟩ : ∃ t, runActions partyStep PartyState.initial selfInvitation = some t ∧
      0 ∈ (t.player 1).invitePartyList ∧ t.party 0 = none :=
    ⟨_, rfl, by decide, rfl⟩
  have hm := hall t (reachable_of_runActions (.init rfl) ht)
  simpa [hgone] using hm.no_dangling 1 0 (.inr hmem)

end TyanoCore
