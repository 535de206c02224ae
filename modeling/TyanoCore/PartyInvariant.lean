import TyanoCore.Party
import Mathlib.Data.List.Nodup

/-!
# The party membership invariant

The relation between players and parties is stored on both sides.  `PartyConsistent` says that the
two sides agree; every operation of a party restores it, and with it every command does.
-/

namespace TyanoCore

open PartyState

/-- The player is the leader or one of the other members. -/
def Party.Belongs (p : Party) (q : PlayerId) : Prop :=
  q = p.leader ∨ q ∈ p.memberList

structure Party.WellFormed (p : Party) : Prop where
  leader_not_member : p.leader ∉ p.memberList
  leader_not_invited : p.leader ∉ p.inviteList
  members_nodup : p.memberList.Nodup
  invites_nodup : p.inviteList.Nodup
  members_not_invited : ∀ q ∈ p.memberList, q ∉ p.inviteList

/-- Both sides of the relation agree.  While `player` clears his invitations, those in `owed` have
already left his own list and are still in the lists of the parties. -/
structure PartyConsistent (s : PartyState) (player : PlayerId) (owed : List PartyId) : Prop where
  wellFormed : ∀ P p, s.party P = some p → p.WellFormed
  party_iff : ∀ q P, (s.player q).party = some P ↔ ∃ p, s.party P = some p ∧ p.Belongs q
  invited_iff : ∀ q P, (P ∈ (s.player q).invitePartyList ∨ (q = player ∧ P ∈ owed)) ↔
    ∃ p, s.party P = some p ∧ q ∈ p.inviteList
  invitations_nodup : ∀ q, (s.player q).invitePartyList.Nodup
  inWorld : ∀ P p q, s.party P = some p → p.Belongs q ∨ q ∈ p.inviteList → (s.player q).inWorld
  allocated : ∀ P p, s.party P = some p → P < s.next

/-- Every party other than those excepted has a member or an invitation. -/
def PartyState.NoneEmptyBut (s : PartyState) (except : PartyId → Prop) : Prop :=
  ∀ P p, s.party P = some p → ¬ except P → p.canDisband = false

/-- The invariant of the server between two commands. -/
structure PartyInvariant (s : PartyState) : Prop where
  consistent : PartyConsistent s 0 []
  nonempty : s.NoneEmptyBut fun _ => False

theorem Party.canDisband_eq_true {p : Party} :
    p.canDisband = true ↔ p.memberList = [] ∧ p.inviteList = [] := by
  simp [Party.canDisband]

/-- With nothing owed the player does not matter. -/
theorem PartyConsistent.nil {s : PartyState} {player : PlayerId}
    (h : PartyConsistent s player []) (player' : PlayerId) : PartyConsistent s player' [] where
  wellFormed := h.wellFormed
  party_iff := h.party_iff
  invited_iff := by simpa using h.invited_iff
  invitations_nodup := h.invitations_nodup
  inWorld := h.inWorld
  allocated := h.allocated

/-! ## Disbanding -/

/-- The state after `disband`, player by player. -/
def PartyState.disbanded (s : PartyState) (this : PartyId) (p : Party) : PartyState where
  player q :=
    { inWorld := (s.player q).inWorld
      party := if q = p.leader ∨ q ∈ p.memberList then none else (s.player q).party
      invitePartyList :=
        if q ∈ p.inviteList then (s.player q).invitePartyList.erase this
        else (s.player q).invitePartyList }
  party := Function.update s.party this none
  next := s.next

theorem foldl_removePartyInvitation (this : PartyId) (qs : List PlayerId) (hqs : qs.Nodup)
    (s : PartyState) :
    qs.foldl (fun s q => Player.removePartyInvitation s q this) s =
      { s with player := fun q =>
          if q ∈ qs then
            { s.player q with invitePartyList := (s.player q).invitePartyList.erase this }
          else s.player q } := by
  induction qs generalizing s with
  | nil => simp
  | cons r qs ih =>
    obtain ⟨hr, hqs⟩ := List.nodup_cons.mp hqs
    rw [List.foldl_cons, ih hqs]
    simp only [Player.removePartyInvitation, setPlayer_party, setPlayer_next, setPlayer_player,
      PartyState.mk.injEq, and_self, and_true]
    funext q
    by_cases hq : q = r
    · subst hq
      simp [hr]
    · simp [hq]

theorem foldl_setParty_none (qs : List PlayerId) (s : PartyState) :
    qs.foldl (fun s q => Player.setParty s q none) s =
      { s with player := fun q =>
          if q ∈ qs then { s.player q with party := none } else s.player q } := by
  induction qs generalizing s with
  | nil => simp
  | cons r qs ih =>
    rw [List.foldl_cons, ih]
    simp only [Player.setParty, setPlayer_party, setPlayer_next, setPlayer_player,
      PartyState.mk.injEq, and_self, and_true]
    funext q
    by_cases hq : q = r
    · subst hq
      simp
    · simp [hq]

theorem disband_eq {s : PartyState} {this : PartyId} {p : Party} (hp : s.party this = some p)
    (hnodup : p.inviteList.Nodup) :
    Party.disband s this = some (s.disbanded this p) := by
  simp only [Party.disband, hp, Option.bind_eq_bind, Option.bind_some,
    foldl_removePartyInvitation _ _ hnodup, foldl_setParty_none, Option.pure_def]
  simp only [PartyState.setPartyAt, PartyState.disbanded, Player.setParty, setPlayer_party,
    setPlayer_next, setPlayer_player, Option.some.injEq, PartyState.mk.injEq, and_true]
  funext q
  by_cases hl : q = p.leader
  · subst hl
    by_cases hi : p.leader ∈ p.inviteList <;> simp [hi]
  · by_cases hm : q ∈ p.memberList <;> by_cases hi : q ∈ p.inviteList <;> simp [hm, hi, hl]

/-- Disbanding a party removes every reference to it. -/
theorem disband_consistent {s : PartyState} {this : PartyId} {p : Party} {player : PlayerId}
    {owed : List PartyId} (h : PartyConsistent s player owed) (hp : s.party this = some p)
    (howed : this ∉ owed) :
    PartyConsistent (s.disbanded this p) player owed where
  wellFormed := by
    intro P p' hp'
    simp only [PartyState.disbanded, Function.update_apply] at hp'
    split at hp'
    · cases hp'
    · exact h.wellFormed P p' hp'
  party_iff := by
    intro q P
    have hq := h.party_iff q P
    have hthis := h.party_iff q this
    simp only [PartyState.disbanded, Function.update_apply]
    grind [Party.Belongs]
  invited_iff := by
    intro q P
    have hq := h.invited_iff q P
    have hthis := h.invited_iff q this
    have hnodup := h.invitations_nodup q
    simp only [PartyState.disbanded, Function.update_apply]
    have := hnodup.mem_erase_iff (a := P) (b := this)
    grind
  invitations_nodup := by
    intro q
    have hnodup := h.invitations_nodup q
    simp only [PartyState.disbanded]
    split
    · exact hnodup.erase this
    · exact hnodup
  inWorld := by
    intro P p' q hp' hq
    simp only [PartyState.disbanded, Function.update_apply] at hp' ⊢
    split at hp'
    · cases hp'
    · exact h.inWorld P p' q hp' hq
  allocated := by
    intro P p' hp'
    simp only [PartyState.disbanded, Function.update_apply] at hp' ⊢
    split at hp'
    · cases hp'
    · exact h.allocated P p' hp'

theorem disband_nonempty {s : PartyState} {this : PartyId} {p : Party} {except : PartyId → Prop}
    (h : s.NoneEmptyBut fun P => P = this ∨ except P) :
    (s.disbanded this p).NoneEmptyBut except := by
  intro P p' hp' hP
  simp only [PartyState.disbanded, Function.update_apply] at hp'
  split at hp'
  · cases hp'
  · next hne => exact h P p' hp' (by simp [hne, hP])

/-- A party about to be left with nobody is disbanded, and then no party is empty. -/
theorem disband_if_spec {s : PartyState} {this : PartyId} {p : Party} {player : PlayerId}
    {owed : List PartyId} (h : PartyConsistent s player owed)
    (hne : s.NoneEmptyBut fun P => P = this) (hp : s.party this = some p) (howed : this ∉ owed)
    (c : Bool) (hc : p.canDisband = true → c = true) :
    ∃ s', (if c then Party.disband s this else some s) = some s' ∧ PartyConsistent s' player owed ∧
      (s'.NoneEmptyBut fun _ => False) ∧
      (∀ q, (s'.player q).inWorld = (s.player q).inWorld) ∧
      (∀ q, (s.player q).party = none → (s'.player q).party = none) ∧
      ∀ q, (s.player q).invitePartyList = [] → (s'.player q).invitePartyList = [] := by
  cases c with
  | true =>
    refine ⟨s.disbanded this p, ?_, disband_consistent h hp howed, ?_, fun q => rfl, ?_, ?_⟩
    · simpa using disband_eq hp (h.wellFormed this p hp).invites_nodup
    · exact disband_nonempty (by simpa using hne)
    · intro q hq
      simp [PartyState.disbanded, hq]
    · intro q hq
      simp [PartyState.disbanded, hq]
  | false =>
    refine ⟨s, by simp, h, ?_, fun q => rfl, fun q hq => hq, fun q hq => hq⟩
    intro P p' hp' _
    by_cases hP : P = this
    · subst hP
      rw [hp] at hp'
      cases hp'
      exact Bool.eq_false_iff.mpr fun hd => Bool.false_ne_true (hc hd)
    · exact hne P p' hp' hP

/-! ## Changing one party and the players it mentions -/

/-- The two sides still agree when one party and the references to it change together. -/
theorem PartyConsistent.update {s : PartyState} {player : PlayerId} {owed owed' : List PartyId}
    (h : PartyConsistent s player owed) {this : PartyId} (p' : Party)
    {f : PlayerId → PartyPlayer} {n : PartyId} (hwf : p'.WellFormed)
    (hparty : ∀ q P, P ≠ this → ((f q).party = some P ↔ (s.player q).party = some P))
    (hthis : ∀ q, (f q).party = some this ↔ p'.Belongs q)
    (hinvited : ∀ q P, P ≠ this → ((P ∈ (f q).invitePartyList ∨ (q = player ∧ P ∈ owed')) ↔
      (P ∈ (s.player q).invitePartyList ∨ (q = player ∧ P ∈ owed))))
    (hthisInvited : ∀ q, (this ∈ (f q).invitePartyList ∨ (q = player ∧ this ∈ owed')) ↔
      q ∈ p'.inviteList)
    (hnodup : ∀ q, (f q).invitePartyList.Nodup)
    (hworld : ∀ q, (f q).inWorld = (s.player q).inWorld)
    (hlisted : ∀ q, p'.Belongs q ∨ q ∈ p'.inviteList → (s.player q).inWorld)
    (hn : this < n) (hnext : s.next ≤ n) :
    PartyConsistent ⟨f, Function.update s.party this (some p'), n⟩ player owed' where
  wellFormed := by
    intro P p hp
    simp only [Function.update_apply] at hp
    split at hp
    · cases hp
      exact hwf
    · exact h.wellFormed P p hp
  party_iff := by
    intro q P
    simp only [Function.update_apply]
    by_cases hP : P = this
    · subst hP
      simpa using hthis q
    · simpa [hP, hparty q P hP] using h.party_iff q P
  invited_iff := by
    intro q P
    simp only [Function.update_apply]
    by_cases hP : P = this
    · subst hP
      simpa using hthisInvited q
    · simpa [hP, hinvited q P hP] using h.invited_iff q P
  invitations_nodup := hnodup
  inWorld := by
    intro P p q hp hq
    simp only [Function.update_apply] at hp
    change (f q).inWorld = true
    rw [hworld]
    split at hp
    · cases hp
      exact hlisted q hq
    · exact h.inWorld P p q hp hq
  allocated := by
    intro P p hp
    simp only [Function.update_apply] at hp
    change P < n
    split at hp
    · next hP => exact hP ▸ hn
    · exact Nat.lt_of_lt_of_le (h.allocated P p hp) hnext

theorem PartyState.NoneEmptyBut.update {s : PartyState} {except : PartyId → Prop}
    (h : s.NoneEmptyBut except) (this : PartyId) (p' : Option Party) (f : PlayerId → PartyPlayer)
    (n : PartyId) :
    PartyState.NoneEmptyBut ⟨f, Function.update s.party this p', n⟩
      fun P => P = this ∨ except P := by
  intro P p hp hP
  have hne : P ≠ this := fun he => hP (.inl he)
  simp only [Function.update_apply, hne, if_false] at hp
  exact h P p hp fun he => hP (.inr he)

/-- A player whom a party lists as a member or an invited one is in the world. -/
theorem PartyConsistent.isPlayerMember_eq {s : PartyState} {player : PlayerId}
    {owed : List PartyId} (h : PartyConsistent s player owed) {P : PartyId} {p : Party}
    (hp : s.party P = some p) (q : PlayerId) :
    p.isPlayerMember s q false = decide (q ∈ p.memberList) := by
  unfold Party.isPlayerMember
  split
  · rfl
  · next hw =>
    by_cases hq : q ∈ p.memberList
    · exact absurd (h.inWorld P p q hp (.inl (.inr hq))) hw
    · simp [hq]

theorem PartyConsistent.isPlayerInvited_eq {s : PartyState} {player : PlayerId}
    {owed : List PartyId} (h : PartyConsistent s player owed) {P : PartyId} {p : Party}
    (hp : s.party P = some p) (q : PlayerId) :
    p.isPlayerInvited s q false = decide (q ∈ p.inviteList) := by
  unfold Party.isPlayerInvited
  split
  · rfl
  · next hw =>
    by_cases hq : q ∈ p.inviteList
    · exact absurd (h.inWorld P p q hp (.inr hq)) hw
    · simp [hq]

/-! ## The operations -/

/-- Withdrawing an invitation that stands, be it still in the player's own list or owed. -/
theorem removeInvite_spec {s : PartyState} {this : PartyId} {player : PlayerId}
    {owed : List PartyId} (h : PartyConsistent s player owed) (howed : owed.Nodup)
    (hne : s.NoneEmptyBut fun _ => False)
    (hthis : this ∈ (s.player player).invitePartyList ∨ this ∈ owed) :
    ∃ s', Party.removeInvite s this player = some (s', true) ∧
      PartyConsistent s' player (owed.erase this) ∧ (s'.NoneEmptyBut fun _ => False) ∧
      (∀ q, (s'.player q).inWorld = (s.player q).inWorld) ∧
      ((s.player player).invitePartyList = [] → (s'.player player).invitePartyList = []) := by
  obtain ⟨p, hp, hq⟩ := (h.invited_iff player this).mp (by simpa using hthis)
  have hwf := h.wellFormed this p hp
  let p' : Party := { p with inviteList := p.inviteList.erase player }
  let s1 := Player.removePartyInvitation (s.setPartyAt this (some p')) player this
  have hp' : s1.party this = some p' := by
    simp [s1, Player.removePartyInvitation, setPartyAt_party]
  -- the invitation goes on both sides, and what is owed goes with it
  have hs1 : PartyConsistent s1 player (owed.erase this) := by
    refine h.update p' (n := s.next) ?_ ?_ ?_ ?_ ?_ ?_ ?_ ?_ (h.allocated this p hp)
      (Nat.le_refl _)
    · exact ⟨hwf.leader_not_member, fun hl => hwf.leader_not_invited (List.mem_of_mem_erase hl),
        hwf.members_nodup, hwf.invites_nodup.erase player,
        fun q hm hi => hwf.members_not_invited q hm (List.mem_of_mem_erase hi)⟩
    · intro q P _
      simp only [Function.update_apply]
      split <;> simp_all
    · intro q
      have hq := h.party_iff q this
      simp only [hp, Option.some.injEq, exists_eq_left'] at hq
      simp only [Function.update_apply]
      split <;> simp_all [p', Party.Belongs]
    · intro q P hP
      have h1 := (h.invitations_nodup q).mem_erase_iff (a := P) (b := this)
      have h2 := howed.mem_erase_iff (a := P) (b := this)
      simp only [Function.update_apply]
      split <;> simp_all
    · intro q
      have hq := h.invited_iff q this
      have h1 := (h.invitations_nodup q).mem_erase_iff (a := this) (b := this)
      have h2 := howed.mem_erase_iff (a := this) (b := this)
      have h3 := hwf.invites_nodup.mem_erase_iff (a := q) (b := player)
      simp only [hp, Option.some.injEq, exists_eq_left'] at hq
      simp only [Function.update_apply]
      split <;> simp_all [p']
    · intro q
      have h1 := h.invitations_nodup q
      simp only [Function.update_apply]
      split
      · next he => exact he ▸ h1.erase this
      · exact h1
    · intro q
      simp only [Function.update_apply]
      split <;> simp_all
    · intro q hq
      exact h.inWorld this p q hp (hq.imp id List.mem_of_mem_erase)
  -- only this party may be left without anybody, and it is asked whether it can disband
  have hne1 : s1.NoneEmptyBut fun P => P = this := by
    have hu := hne.update this (some p') s1.player s1.next
    simp only [or_false] at hu
    exact hu
  obtain ⟨s', hs', hcons, hne', hworld, _, hlist⟩ :=
    disband_if_spec hs1 hne1 hp' howed.not_mem_erase p'.canDisband id
  refine ⟨s', ?_, hcons, hne', ?_, ?_⟩
  · have hinv := h.isPlayerInvited_eq hp player
    simp only [Party.removeInvite, hp, Option.bind_eq_bind, Option.bind_some, hinv, hq, decide_true,
      Bool.not_true, Bool.false_eq_true, if_false, Option.pure_def]
    change (if p'.canDisband then (Party.disband s1 this).bind fun s => some (s, true)
      else some (s1, true)) = _
    split at hs'
    · next hd => simp [hd, hs']
    · next hd => simp only [Option.some.injEq] at hs'; simp [hd, hs']
  · intro q
    rw [hworld]
    simp only [s1, Player.removePartyInvitation, setPlayer_player, setPartyAt_player]
    split <;> simp_all
  · intro hnil
    apply hlist
    simp [s1, Player.removePartyInvitation, setPlayer_player, hnil]

/-- The leadership goes to another member; the old leader becomes the first member. -/
theorem passLeadership_spec {s : PartyState} {this : PartyId} {p : Party} {player : PlayerId}
    (h : PartyInvariant s) (hp : s.party this = some p) (hm : player ∈ p.memberList) :
    ∃ s', Party.passLeadership s this player = some (s', true) ∧ PartyInvariant s' ∧
      s'.player = s.player ∧ s'.party this =
        some { p with leader := player, memberList := p.leader :: p.memberList.erase player } := by
  have hwf := h.consistent.wellFormed this p hp
  have hl : player ≠ p.leader := fun he => hwf.leader_not_member (he ▸ hm)
  have herase := fun q => hwf.members_nodup.mem_erase_iff (a := q) (b := player)
  let p' : Party := { p with leader := player, memberList := p.leader :: p.memberList.erase player }
  have hbelongs : ∀ q, p'.Belongs q ↔ p.Belongs q := by
    intro q
    simp only [p', Party.Belongs, List.mem_cons, herase]
    grind
  refine ⟨s.setPartyAt this (some p'), ?_, ⟨?_, ?_⟩, rfl, by simp [setPartyAt_party, p']⟩
  · simp [Party.passLeadership, hp, h.consistent.isPlayerMember_eq hp, hm, hl, p']
  · refine h.consistent.update p' (n := s.next) (f := s.player) ?_ (fun q P _ => Iff.rfl) ?_
      (fun q P _ => Iff.rfl) ?_ h.consistent.invitations_nodup (fun q => rfl) ?_
      (h.consistent.allocated this p hp) (Nat.le_refl _)
    · exact {
        leader_not_member := by simp [p', herase, hl]
        leader_not_invited := hwf.members_not_invited player hm
        members_nodup := by
          refine List.nodup_cons.mpr ⟨?_, hwf.members_nodup.erase player⟩
          exact fun he => hwf.leader_not_member (List.mem_of_mem_erase he)
        invites_nodup := hwf.invites_nodup
        members_not_invited := by
          intro q hq
          rcases List.mem_cons.mp hq with rfl | hq
          · exact hwf.leader_not_invited
          · exact hwf.members_not_invited q (List.mem_of_mem_erase hq) }
    · intro q
      simp [h.consistent.party_iff, hp, hbelongs]
    · intro q
      have hq := h.consistent.invited_iff q this
      simpa [hp] using hq
    · intro q hq
      exact h.consistent.inWorld this p q hp (hq.imp (hbelongs q).mp id)
  · intro P q hq _
    simp only [setPartyAt_party] at hq
    split at hq
    · cases hq
      rfl
    · exact h.nonempty P q hq id

/-- The leader's own pointer does not matter to `disband`. -/
theorem disband_setParty_leader {s : PartyState} {this : PartyId} {p : Party}
    (hp : s.party this = some p) (hnodup : p.inviteList.Nodup) :
    Party.disband (Player.setParty (s.setPartyAt this (some p)) p.leader none) this =
      Party.disband s this := by
  rw [disband_eq hp hnodup, disband_eq (p := p) (by simp [Player.setParty, setPartyAt_party]) hnodup]
  simp only [PartyState.disbanded, Player.setParty, setPlayer_party, setPlayer_next,
    setPlayer_player, setPartyAt_player, setPartyAt_next, Option.some.injEq, PartyState.mk.injEq,
    and_true]
  constructor
  · funext q
    by_cases hq : q = p.leader
    · subst hq
      simp
    · simp [hq]
  · simp [PartyState.setPartyAt]

/-- One member less. -/
theorem removeMember_consistent {s : PartyState} {this : PartyId} {p p' : Party}
    {player : PlayerId} (h : PartyConsistent s 0 []) (hp : s.party this = some p)
    (hwf : p'.WellFormed) (hb : p.Belongs player)
    (hbelongs : ∀ q, p'.Belongs q ↔ p.Belongs q ∧ q ≠ player)
    (hinvites : p'.inviteList = p.inviteList) :
    PartyConsistent (Player.setParty (s.setPartyAt this (some p')) player none) 0 [] := by
  have hplayer := (h.party_iff player this).mpr ⟨p, hp, hb⟩
  refine h.update p' (n := s.next) hwf ?_ ?_ ?_ ?_ ?_ ?_ ?_ (h.allocated this p hp)
    (Nat.le_refl _)
  · intro q P hP
    simp only [Function.update_apply, setPartyAt_player]
    split
    · next he =>
      subst he
      simp [hplayer, hP.symm]
    · rfl
  · intro q
    have hq := h.party_iff q this
    simp only [hp, Option.some.injEq, exists_eq_left'] at hq
    simp only [Function.update_apply, setPartyAt_player, hbelongs]
    split <;> simp_all
  · intro q P _
    simp only [Function.update_apply, setPartyAt_player]
    split <;> simp_all
  · intro q
    have hq := h.invited_iff q this
    simp only [hp, Option.some.injEq, exists_eq_left'] at hq
    simp only [Function.update_apply, setPartyAt_player, hinvites]
    split <;> simp_all
  · intro q
    have hq := h.invitations_nodup q
    simp only [Function.update_apply, setPartyAt_player]
    split <;> simp_all
  · intro q
    simp only [Function.update_apply, setPartyAt_player]
    split <;> simp_all
  · intro q hq
    rw [hinvites, hbelongs] at hq
    exact h.inWorld this p q hp (hq.imp And.left id)

/-- The party without a member who leaves it. -/
def Party.without (p : Party) (player : PlayerId) : Party :=
  { p with memberList := p.memberList.erase player, inviteList := p.inviteList.erase player }

/-- A leave of `player` went through: the invariant holds and he has no party any more. -/
def LeftParty (s s' : PartyState) (player : PlayerId) : Prop :=
  PartyInvariant s' ∧ (∀ q, (s'.player q).inWorld = (s.player q).inWorld) ∧
    (s'.player player).party = none ∧
    ((s.player player).invitePartyList = [] → (s'.player player).invitePartyList = [])

theorem leaveLists_member_spec {s : PartyState} {this : PartyId} {p : Party} {player : PlayerId}
    (h : PartyInvariant s) (hp : s.party this = some p) (hm : player ∈ p.memberList) :
    ∃ s', Party.leaveLists s this player false = some (s', true) ∧ LeftParty s s' player := by
  have hwf := h.consistent.wellFormed this p hp
  have hnot := hwf.members_not_invited player hm
  have herase := fun q => hwf.members_nodup.mem_erase_iff (a := q) (b := player)
  have hinvites : (p.without player).inviteList = p.inviteList := List.erase_of_not_mem hnot
  have hl : p.leader ≠ player := fun he => hwf.leader_not_member (he ▸ hm)
  let s1 := Player.setParty (s.setPartyAt this (some (p.without player))) player none
  have hs1 : PartyConsistent s1 0 [] := by
    refine removeMember_consistent h.consistent hp ?_ (.inr hm) ?_ hinvites
    · exact {
        leader_not_member := fun he => hwf.leader_not_member (List.mem_of_mem_erase he)
        leader_not_invited := fun he => hwf.leader_not_invited (List.mem_of_mem_erase he)
        members_nodup := hwf.members_nodup.erase player
        invites_nodup := hwf.invites_nodup.erase player
        members_not_invited := fun q hq hi =>
          hwf.members_not_invited q (List.mem_of_mem_erase hq) (List.mem_of_mem_erase hi) }
    · intro q
      simp only [Party.Belongs, Party.without, herase]
      grind
  have hne1 : s1.NoneEmptyBut fun P => P = this := by
    have hu := h.nonempty.update this (some (p.without player)) s1.player s1.next
    simp only [or_false] at hu
    exact hu
  have hp1 : s1.party this = some (p.without player) := by
    simp [s1, Player.setParty, setPartyAt_party]
  obtain ⟨s', hs', hcons, hne', hworld, hparty, hlist⟩ :=
    disband_if_spec hs1 hne1 hp1 (List.not_mem_nil) (p.without player).canDisband id
  refine ⟨s', ?_, ⟨hcons, hne'⟩, ?_, ?_, ?_⟩
  · simp only [Party.leaveLists, hp, Option.bind_eq_bind, Option.bind_some, Bool.false_or,
      Option.pure_def]
    change (if (p.without player).canDisband then
      (Party.disband s1 this).bind fun s => some (s, true) else some (s1, true)) = _
    split at hs'
    · next hd => simp [hd, hs']
    · next hd => simp only [Option.some.injEq] at hs'; simp [hd, hs']
  · intro q
    rw [hworld]
    simp only [s1, Player.setParty, setPlayer_player, setPartyAt_player]
    split <;> simp_all
  · exact hparty player (by simp [s1, Player.setParty, setPlayer_player])
  · intro hnil
    exact hlist player (by simp [s1, Player.setParty, setPlayer_player, hnil])

/-- A party whose leader leaves it without a successor is disbanded. -/
theorem leaveLists_missingLeader_spec {s : PartyState} {this : PartyId} {p : Party}
    (h : PartyInvariant s) (hp : s.party this = some p) :
    ∃ s', Party.leaveLists s this p.leader true = some (s', true) ∧ LeftParty s s' p.leader := by
  have hwf := h.consistent.wellFormed this p hp
  have hwithout : p.without p.leader = p := by
    simp [Party.without, List.erase_of_not_mem hwf.leader_not_member,
      List.erase_of_not_mem hwf.leader_not_invited]
  refine ⟨s.disbanded this p, ?_, ⟨disband_consistent h.consistent hp List.not_mem_nil, ?_⟩,
    fun q => rfl, by simp [PartyState.disbanded], fun hnil => by simp [PartyState.disbanded, hnil]⟩
  · simp only [Party.leaveLists, hp, Option.bind_eq_bind, Option.bind_some, Bool.true_or, if_true]
    change ((Party.disband (Player.setParty (s.setPartyAt this (some (p.without p.leader)))
      p.leader none) this).bind fun s => some (s, true)) = _
    rw [hwithout, disband_setParty_leader hp hwf.invites_nodup, disband_eq hp hwf.invites_nodup,
      Option.bind_some]
  · refine disband_nonempty ?_
    intro P q hq _
    exact h.nonempty P q hq id

/-- A player who leaves his party ends up without one. -/
theorem leave_spec {s : PartyState} {this : PartyId} {player : PlayerId} (h : PartyInvariant s)
    (hparty : (s.player player).party = some this) :
    ∃ s', Party.leave s this player = some (s', true) ∧ LeftParty s s' player := by
  obtain ⟨p, hp, hb⟩ := (h.consistent.party_iff player this).mp hparty
  by_cases hl : player = p.leader
  · subst hl
    have hmissing := leaveLists_missingLeader_spec h hp
    cases hms : p.memberList with
    | nil => simpa [Party.leave, hp, hms] using hmissing
    | cons front rest =>
      by_cases hrest : rest = [] ∧ p.inviteList = []
      · simpa [Party.leave, hp, hms, hrest] using hmissing
      · obtain ⟨s1, hs1, hinv1, hplayer1, hp1⟩ :=
          passLeadership_spec h hp (show front ∈ p.memberList by simp [hms])
        have hlast := leaveLists_member_spec hinv1 hp1 (show p.leader ∈ p.leader :: _ by simp)
        simp only [LeftParty, hplayer1] at hlast
        simpa [Party.leave, hp, hms, hrest, hs1, LeftParty] using hlast
  · have hm : player ∈ p.memberList := hb.resolve_left hl
    have hlast := leaveLists_member_spec h hp hm
    have hmem := h.consistent.isPlayerMember_eq hp player
    simpa [Party.leave, hp, hmem, hm, Ne.symm hl] using hlast

/-- An invited player without a party becomes a member. -/
theorem join_spec {s : PartyState} {this : PartyId} {p : Party} {player : PlayerId}
    (h : PartyInvariant s) (hp : s.party this = some p) (hi : player ∈ p.inviteList)
    (hnone : (s.player player).party = none) :
    ∃ s', Party.join s this player = some (s', true) ∧ PartyInvariant s' := by
  have hc := h.consistent
  have hwf := hc.wellFormed this p hp
  have hm : player ∉ p.memberList := fun hm => hwf.members_not_invited player hm hi
  have hl : player ≠ p.leader := fun he => hwf.leader_not_invited (he ▸ hi)
  have herase := fun q => hwf.invites_nodup.mem_erase_iff (a := q) (b := player)
  let p' : Party :=
    { p with memberList := p.memberList ++ [player], inviteList := p.inviteList.erase player }
  let s1 := Player.removePartyInvitation (Player.setParty s player (some this)) player this
  have hplayer : ∀ q, s1.player q = if q = player then
      ⟨(s.player q).inWorld, some this, (s.player q).invitePartyList.erase this⟩
      else s.player q := by
    intro q
    simp only [s1, Player.removePartyInvitation, Player.setParty, setPlayer_player, if_true]
    split <;> simp_all
  have hbelongs : ∀ q, p'.Belongs q ↔ p.Belongs q ∨ q = player := by
    intro q
    simp only [p', Party.Belongs, List.mem_append, List.mem_singleton, or_assoc]
  refine ⟨s1.setPartyAt this (some p'), ?_, ⟨?_, ?_⟩⟩
  · simp [Party.join, hp, hc.isPlayerMember_eq hp, hc.isPlayerInvited_eq hp, hm, hi, s1, p']
  · -- the player goes from the invited to the members and forgets the invitation
    refine hc.update p' (n := s.next) (f := s1.player) ?_ ?_ ?_ ?_ ?_ ?_ ?_ ?_
      (hc.allocated this p hp) (Nat.le_refl _)
    · exact {
        leader_not_member := by simp [p', hwf.leader_not_member, Ne.symm hl]
        leader_not_invited := fun he => hwf.leader_not_invited (List.mem_of_mem_erase he)
        members_nodup := by
          refine List.nodup_append.mpr ⟨hwf.members_nodup, List.nodup_singleton player, ?_⟩
          intro a ha b hb hab
          exact hm (List.mem_singleton.mp hb ▸ hab ▸ ha)
        invites_nodup := hwf.invites_nodup.erase player
        members_not_invited := by
          intro q hq
          simp only [p', List.mem_append, List.mem_singleton] at hq
          simp only [p', herase, not_and]
          intro hne hqi
          exact hwf.members_not_invited q (hq.resolve_right hne) hqi }
    · intro q P hP
      rw [hplayer]
      split
      · next he =>
        subst he
        simp [hnone, hP.symm]
      · rfl
    · intro q
      have hq := hc.party_iff q this
      simp only [hp, Option.some.injEq, exists_eq_left'] at hq
      rw [hplayer, hbelongs]
      split <;> simp_all
    · intro q P hP
      have h1 := (hc.invitations_nodup q).mem_erase_iff (a := P) (b := this)
      rw [hplayer]
      split <;> simp_all
    · intro q
      have hq := hc.invited_iff q this
      have h1 := (hc.invitations_nodup q).mem_erase_iff (a := this) (b := this)
      simp only [hp, Option.some.injEq, exists_eq_left'] at hq
      rw [hplayer]
      simp only [p', herase]
      split <;> simp_all
    · intro q
      have h1 := hc.invitations_nodup q
      rw [hplayer]
      split
      · exact h1.erase this
      · exact h1
    · intro q
      rw [hplayer]
      split <;> rfl
    · intro q hq
      rw [hbelongs] at hq
      rcases hq with (hq | rfl) | hq
      · exact hc.inWorld this p q hp (.inl hq)
      · exact hc.inWorld this p q hp (.inr hi)
      · exact hc.inWorld this p q hp (.inr (List.mem_of_mem_erase hq))
  · intro P q hq _
    simp only [setPartyAt_party] at hq
    split at hq
    · cases hq
      simp [Party.canDisband, p']
    · exact h.nonempty P q hq id

/-- Inviting somebody who is neither the leader nor a member.  The party may be a new one that
still has nobody else in it. -/
theorem invitePlayer_spec {s : PartyState} {this : PartyId} {p : Party} {player : PlayerId}
    (hc : PartyConsistent s 0 []) (hne : s.NoneEmptyBut fun P => P = this)
    (hp : s.party this = some p) (hw : (s.player player).inWorld) (hb : ¬ p.Belongs player) :
    ∃ s' b, Party.invitePlayer s this player = some (s', b) ∧ PartyInvariant s' := by
  have hwf := hc.wellFormed this p hp
  by_cases hi : player ∈ p.inviteList
  · -- who is invited already is not invited again, and that invitation keeps the party
    refine ⟨s, false, by simp [Party.invitePlayer, hp, Party.isPlayerInvited, hw, hi], hc, ?_⟩
    intro P q hq _
    by_cases hP : P = this
    · subst hP
      rw [hp] at hq
      cases hq
      simp [Party.canDisband, List.ne_nil_of_mem hi]
    · exact hne P q hq hP
  · let p' : Party := { p with inviteList := p.inviteList ++ [player] }
    -- the party and the player list each other, so the player's list lacks it too
    have hlist : this ∉ (s.player player).invitePartyList := by
      intro hmem
      obtain ⟨p1, hp1, hi1⟩ := (hc.invited_iff player this).mp (.inl hmem)
      rw [hp] at hp1
      cases hp1
      exact hi hi1
    let s1 := Player.addPartyInvitation (s.setPartyAt this (some p')) player this
    have hs1 : s1 = ⟨fun q => if q = player then
        { s.player q with invitePartyList := (s.player q).invitePartyList ++ [this] }
        else s.player q, Function.update s.party this (some p'), s.next⟩ := by
      simp only [s1, Player.addPartyInvitation, hlist, if_false,
        PartyState.setPlayer, PartyState.setPartyAt, PartyState.mk.injEq, and_true]
      funext q
      by_cases hq : q = player
      · subst hq
        simp
      · simp [hq]
    refine ⟨s1, true, ?_, ?_, ?_⟩
    · simp [Party.invitePlayer, hp, Party.isPlayerInvited, hw, hi, s1, p']
    · rw [hs1]
      -- first the lists of the party, then what the players' entries say of it
      refine hc.update p' ?_ ?_ ?_ ?_ ?_ ?_ ?_ ?_ (hc.allocated this p hp) (Nat.le_refl _)
      · exact {
          leader_not_member := hwf.leader_not_member
          leader_not_invited := by
            simp only [p', List.mem_append, List.mem_singleton, not_or]
            exact ⟨hwf.leader_not_invited, fun he => hb (.inl he.symm)⟩
          members_nodup := hwf.members_nodup
          invites_nodup := by
            refine List.nodup_append.mpr ⟨hwf.invites_nodup, List.nodup_singleton player, ?_⟩
            intro a ha b hb' hab
            exact hi (List.mem_singleton.mp hb' ▸ hab ▸ ha)
          members_not_invited := by
            intro q hq
            simp only [p', List.mem_append, List.mem_singleton, not_or]
            exact ⟨hwf.members_not_invited q hq, fun he => hb (.inr (he ▸ hq))⟩ }
      · intro q P _
        split <;> simp
      · intro q
        have hq := hc.party_iff q this
        simp only [hp, Option.some.injEq, exists_eq_left'] at hq
        simp only [p', Party.Belongs] at hq ⊢
        split <;> simpa using hq
      · intro q P hP
        split <;> simp [hP]
      · intro q
        have hq := hc.invited_iff q this
        simp only [hp, Option.some.injEq, exists_eq_left'] at hq
        simp only [p', List.mem_append, List.mem_singleton]
        split <;> simp_all
      · intro q
        have h1 := hc.invitations_nodup q
        split
        · next he =>
          subst he
          refine List.nodup_append.mpr ⟨h1, List.nodup_singleton this, ?_⟩
          intro a ha b hb' hab
          exact hlist (List.mem_singleton.mp hb' ▸ hab ▸ ha)
        · exact h1
      · intro q
        split <;> rfl
      · intro q hq
        simp only [p', Party.Belongs, List.mem_append, List.mem_singleton] at hq
        rcases hq with hq | hq | rfl
        · exact hc.inWorld this p q hp (.inl hq)
        · exact hc.inWorld this p q hp (.inr hq)
        · exact hw
    · rw [hs1]
      intro P q hq _
      simp only [Function.update_apply] at hq
      split at hq
      · cases hq
        simp [Party.canDisband, p']
      · next hP => exact hne P q hq hP

/-- A new party has its leader and nobody else. -/
theorem new_spec {s : PartyState} {leader : PlayerId} (h : PartyInvariant s)
    (hw : (s.player leader).inWorld) (hnone : (s.player leader).party = none) :
    let s' := (Party.new s leader).1
    PartyConsistent s' 0 [] ∧ (s'.NoneEmptyBut fun P => P = s.next) ∧
      s'.party s.next = some ⟨leader, [], []⟩ ∧
      ∀ q, (s'.player q).inWorld = (s.player q).inWorld := by
  have hc := h.consistent
  -- the identifier was never given to a party
  have hfree : s.party s.next = none := by
    by_contra hne
    obtain ⟨p, hp⟩ := Option.ne_none_iff_exists'.mp hne
    exact Nat.lt_irrefl _ (hc.allocated s.next p hp)
  have hs' : (Party.new s leader).1 = ⟨fun q => if q = leader then
      { s.player q with party := some s.next } else s.player q,
      Function.update s.party s.next (some ⟨leader, [], []⟩), s.next + 1⟩ := by
    simp only [Party.new, Player.setParty, PartyState.setPlayer, PartyState.setPartyAt,
      PartyState.mk.injEq, and_true]
    funext q
    by_cases hq : q = leader
    · subst hq
      simp
    · simp [hq]
  simp only [hs']
  refine ⟨?_, ?_, by simp, ?_⟩
  · refine hc.update ⟨leader, [], []⟩ ?_ ?_ ?_ ?_ ?_ ?_ ?_ ?_ (Nat.lt_succ_self _)
      (Nat.le_succ _)
    · exact ⟨List.not_mem_nil, List.not_mem_nil, List.nodup_nil, List.nodup_nil,
        fun q hq => (List.not_mem_nil hq).elim⟩
    · intro q P hP
      split
      · next he =>
        subst he
        simp [hnone, hP.symm]
      · rfl
    · intro q
      have hq := hc.party_iff q s.next
      simp only [hfree] at hq
      simp only [Party.Belongs, List.not_mem_nil, or_false]
      split <;> simp_all
    · intro q P _
      split <;> simp
    · intro q
      have hq := hc.invited_iff q s.next
      simp only [hfree] at hq
      split <;> simp_all
    · intro q
      have h1 := hc.invitations_nodup q
      split <;> simpa using h1
    · intro q
      split <;> rfl
    · intro q hq
      simp only [Party.Belongs, List.not_mem_nil, or_false] at hq
      exact hq ▸ hw
  · have hu := h.nonempty.update s.next (some ⟨leader, [], []⟩)
      (fun q => if q = leader then { s.player q with party := some s.next } else s.player q)
      (s.next + 1)
    simp only [or_false] at hu
    exact hu
  · intro q
    split <;> rfl

end TyanoCore
