import Mathlib.Data.List.Basic
import Mathlib.Data.List.Nodup
import Mathlib.Logic.Function.Basic
import TyanoCore.Run

/-!
# Private chat channels

A player opens a channel of his own, invites others to it and excludes them.  Whoever is invited may
join; the channel ends when its owner closes it.  The client of a player has a window for every channel
that the player has joined.  A client may go away while its player stays in the game, and another may
connect to him; it has no windows.

A character is logged in at most once here, so that a player stands for its GUID and for its creature
id.
-/

namespace TyanoCore.PrivateChannels

open Transition

structure PrivateChatChannel (P : Type*) where
  m_owner : P
  m_invites : List P
  m_users : List P

/-- The private channels, and whom the channels of the other maps, which are searched first, admit. -/
structure Chat (P : Type*) where
  m_privateChannels : ℕ → Option (PrivateChatChannel P)
  others : ℕ → Option (P → Bool)
  online : P → Bool
  /-- Whether a client is connected to a player. -/
  client : P → Bool
  /-- The windows for private channels. -/
  windows : P → ℕ → Bool

variable {P : Type*} [DecidableEq P]

def PrivateChatChannel.isInvited (channel : PrivateChatChannel P) (player : P) : Bool :=
  player = channel.m_owner ∨ player ∈ channel.m_invites

def CHANNEL_PRIVATE : ℕ := 0xFFFF

/-- The numbers that private channels get. -/
def privateIds : List ℕ := List.range' 100 9900

/-- What a search finds: a channel of one of the other maps, or a private one. -/
inductive Found (P : Type*) where
  | other
  | privateChannel (channel : PrivateChatChannel P)

namespace Chat

variable (s : Chat P)

def put (id : ℕ) (channel : Option (PrivateChatChannel P)) : Chat P :=
  { s with m_privateChannels := Function.update s.m_privateChannels id channel }

/-- The client opens a window or closes it. -/
def setWindow (player : P) (id : ℕ) (shown : Bool) : Chat P :=
  { s with
    windows := fun other j =>
      if other = player ∧ j = id then shown && s.client player else s.windows other j }

def getChannel (player : P) (channelId : ℕ) : Option (Found P) :=
  if s.online player = false then none
  else
    match s.others channelId with
    | some admits => if admits player then some .other else none
    | none =>
      ((s.m_privateChannels channelId).filter fun channel => channel.isInvited player).map
        .privateChannel

/-- The number of the first channel that the player owns, with the channel. -/
def getPrivateChannel (player : P) : Option (ℕ × PrivateChatChannel P) :=
  privateIds.findSome? fun id =>
    ((s.m_privateChannels id).filter fun channel => channel.m_owner = player).map fun channel =>
      (id, channel)

def deleteChannel (channelId : ℕ) : Chat P :=
  match s.m_privateChannels channelId with
  | none => s
  | some channel =>
    -- `closeChannel` tells the users
    { s.put channelId none with
      windows := fun player id =>
        if id = channelId ∧ player ∈ channel.m_users then false else s.windows player id }

def playerCreatePrivateChannel (player : P) : Chat P :=
  if s.online player = false ∨ (s.getChannel player CHANNEL_PRIVATE).isSome then s
  else
    match privateIds.find? fun id => (s.m_privateChannels id).isNone with
    | none => s
    | some id =>
      let created := s.put id (some ⟨player, [], []⟩)
      -- `addUser` looks the channel up again
      if (created.getChannel player id).isSome then
        (created.put id (some ⟨player, [], [player]⟩)).setWindow player id true
      else created

def playerChannelInvite (player invitePlayer : P) : Chat P :=
  if s.online player = false ∨ s.online invitePlayer = false then s
  else
    match s.getPrivateChannel player with
    | none => s
    | some (id, channel) =>
      if player = invitePlayer ∨ invitePlayer ∈ channel.m_invites then s
      else s.put id (some { channel with m_invites := channel.m_invites ++ [invitePlayer] })

def playerChannelExclude (player excludePlayer : P) : Chat P :=
  if s.online player = false ∨ s.online excludePlayer = false then s
  else
    match s.getPrivateChannel player with
    | none => s
    | some (id, channel) =>
      if player = excludePlayer ∨ excludePlayer ∉ channel.m_invites then s
      else
        (s.put id (some { channel with
          m_invites := channel.m_invites.erase excludePlayer
          m_users := channel.m_users.erase excludePlayer })).setWindow excludePlayer id false

def playerOpenChannel (player : P) (channelId : ℕ) : Chat P :=
  match s.getChannel player channelId with
  | some (.privateChannel channel) =>
    if player ∈ channel.m_users then s
    else
      (s.put channelId (some { channel with m_users := channel.m_users ++ [player] })).setWindow
        player channelId true
  | _ => s

/-- The client has closed its window. -/
def playerCloseChannel (player : P) (channelId : ℕ) : Chat P :=
  if s.online player = false then s
  else
    let s := s.setWindow player channelId false
    match s.getChannel player channelId with
    | some (.privateChannel channel) =>
      if player ∉ channel.m_users then s
      else
        let left := s.put channelId (some { channel with m_users := channel.m_users.erase player })
        if channel.m_owner = player then left.deleteChannel channelId else left
    | _ => s

/-- One round of the loop over the private channels.  It goes on from the channel that it is at, and
there is no going on once that has been deleted. -/
def leaveChannel (player : P) (id : ℕ) : Option (Chat P) :=
  match s.m_privateChannels id with
  | none => some s
  | some channel =>
    if channel.m_owner = player then none
    else some (s.put id (some { channel with m_users := channel.m_users.erase player }))

def removeUserFromAllChannels (player : P) : Option (Chat P) :=
  privateIds.foldlM (fun s id => s.leaveChannel player id) s

/-- The client goes away with its windows. -/
def disconnect (player : P) : Chat P :=
  { s with
    client := Function.update s.client player false
    windows := Function.update s.windows player fun _ => false }

def logout (player : P) : Option (Chat P) :=
  (s.removeUserFromAllChannels player).map fun s =>
    { s.disconnect player with online := Function.update s.online player false }

/-- `ProtocolGame::login` of a player who has a client, which is replaced. -/
def replaceClient (player : P) : Option (Chat P) :=
  (s.removeUserFromAllChannels player).map fun s => s.disconnect player

/-- Who hears what the player says.  Private channels are active; they ask for no level and mute
nobody. -/
def talkToChannel (player : P) (channelId : ℕ) : List P :=
  match s.getChannel player channelId with
  | some (.privateChannel channel) => if player ∈ channel.m_users then channel.m_users else []
  | _ => []

end Chat

inductive Action (P : Type*) where
  | create (player : P)
  | invite (player invitePlayer : P)
  | exclude (player excludePlayer : P)
  | openChannel (player : P) (channelId : ℕ)
  | closeChannel (player : P) (channelId : ℕ)
  /-- The player comes into the game, or a client connects to him. -/
  | login (player : P)
  | logout (player : P)
  | disconnect (player : P)
  | replaceClient (player : P)
  | change (others : ℕ → Option (P → Bool))
  | reload (others : ℕ → Option (P → Bool))

def Chat.step (s : Chat P) : Action P → Option (Chat P)
  | .create player => some (s.playerCreatePrivateChannel player)
  | .invite player invitePlayer => some (s.playerChannelInvite player invitePlayer)
  | .exclude player excludePlayer => some (s.playerChannelExclude player excludePlayer)
  | .openChannel player channelId => some (s.playerOpenChannel player channelId)
  | .closeChannel player channelId => some (s.playerCloseChannel player channelId)
  | .login player => some { s with
      online := Function.update s.online player true
      client := Function.update s.client player true }
  | .logout player => s.logout player
  | .disconnect player => some (s.disconnect player)
  | .replaceClient player => s.replaceClient player
  | .change others => some { s with others }
  -- the private channels are deleted, and nobody is told
  | .reload others => some { s with others, m_privateChannels := fun _ => none }

/-- Nobody is in the game, and there are no private channels. -/
def init (s : Chat P) : Prop :=
  (∀ id, s.m_privateChannels id = none) ∧ (∀ p, s.online p = false ∧ s.client p = false) ∧
    ∀ p id, s.windows p id = false

def system : System (Chat P) (Action P) := .ofStep init Chat.step

/-! ## A channel with a guest -/

inductive Person where
  | host
  | visitor
  deriving DecidableEq

def emptyChat : Chat Person where
  m_privateChannels := fun _ => none
  others := fun _ => none
  online := fun _ => false
  client := fun _ => false
  windows := fun _ _ => false

theorem init_emptyChat : init emptyChat :=
  ⟨fun _ => rfl, fun _ => ⟨rfl, rfl⟩, fun _ _ => rfl⟩

/-- The host opens a channel, and the visitor, who is invited, joins it. -/
def visit : List (Action Person) :=
  [.login .host, .login .visitor, .create .host, .invite .host .visitor, .openChannel .visitor 100]

def chatting : Chat Person :=
  (runActions Chat.step emptyChat visit).getD emptyChat

theorem runActions_visit : runActions Chat.step emptyChat visit = some chatting := rfl

theorem chatting_reachable : system.Reachable chatting :=
  reachable_of_runActions (.init init_emptyChat) runActions_visit

variable {s t : Chat P} {channel : PrivateChatChannel P} {id : ℕ} {player : P}

/-! ## What is looked up -/

theorem getChannel_privateChannel :
    s.getChannel player id = some (.privateChannel channel) ↔
      s.online player = true ∧ s.others id = none ∧ s.m_privateChannels id = some channel ∧
        channel.isInvited player = true := by
  unfold Chat.getChannel
  split
  next honline =>
    rw [honline]
    exact iff_of_false (Option.some_ne_none _).symm fun h => Bool.false_ne_true h.1
  next honline =>
  rw [Bool.not_eq_false] at honline
  split
  next admits hothers =>
    rw [hothers]
    refine iff_of_false ?_ fun h => Option.some_ne_none _ h.2.1
    split
    · exact fun h => by cases h
    · exact fun h => by cases h
  next hothers =>
  rw [Option.map_eq_some_iff]
  constructor
  · rintro ⟨found, hfound, heq⟩
    cases heq
    obtain ⟨hfound, hinvited⟩ := Option.filter_eq_some_iff.mp hfound
    exact ⟨honline, hothers, hfound, hinvited⟩
  · rintro ⟨-, -, hfound, hinvited⟩
    exact ⟨channel, Option.filter_eq_some_iff.mpr ⟨hfound, hinvited⟩, rfl⟩

theorem getPrivateChannel_spec (h : s.getPrivateChannel player = some (id, channel)) :
    id ∈ privateIds ∧ s.m_privateChannels id = some channel ∧ channel.m_owner = player := by
  obtain ⟨j, hj, hfound⟩ := List.exists_of_findSome?_eq_some h
  obtain ⟨found, hfilter, heq⟩ := Option.map_eq_some_iff.mp hfound
  cases heq
  obtain ⟨hfound, howner⟩ := Option.filter_eq_some_iff.mp hfilter
  exact ⟨hj, hfound, of_decide_eq_true howner⟩

/-! ## Who is in a channel -/

/-- Everybody in a channel owns it or is invited, and is in the game. -/
structure Admitted (online : P → Bool) (channel : PrivateChatChannel P) : Prop where
  invited : ∀ u ∈ channel.m_users, channel.isInvited u = true
  nodup : channel.m_users.Nodup
  online : ∀ u ∈ channel.m_users, online u = true

def Access (s : Chat P) : Prop :=
  ∀ id channel, s.m_privateChannels id = some channel → id ∈ privateIds ∧ Admitted s.online channel

theorem Access.put (h : Access s) (hid : id ∈ privateIds) (hchannel : Admitted s.online channel) :
    Access (s.put id (some channel)) := by
  intro j found hfound
  by_cases hj : j = id
  · subst hj
    dsimp only [Chat.put] at hfound
    rw [Function.update_self] at hfound
    cases hfound
    exact ⟨hid, hchannel⟩
  · dsimp only [Chat.put] at hfound
    rw [Function.update_of_ne hj] at hfound
    exact h j found hfound

/-- A player leaves a channel. -/
def PrivateChatChannel.without (channel : PrivateChatChannel P) (player : P) :
    PrivateChatChannel P :=
  { channel with m_users := channel.m_users.erase player }

theorem Admitted.without {online : P → Bool} (h : Admitted online channel) (player : P) :
    Admitted online (channel.without player) where
  invited u hu := h.invited u (List.mem_of_mem_erase hu)
  nodup := h.nodup.erase player
  online u hu := h.online u (List.mem_of_mem_erase hu)

theorem isInvited_iff : channel.isInvited player = true ↔
    player = channel.m_owner ∨ player ∈ channel.m_invites :=
  decide_eq_true_iff

theorem Access.create (h : Access s) (player : P) : Access (s.playerCreatePrivateChannel player) := by
  unfold Chat.playerCreatePrivateChannel
  split
  · exact h
  next hgame =>
  split
  · exact h
  next id hfree =>
  have hid := List.mem_of_find?_eq_some hfree
  have honline : s.online player = true := by
    by_contra hoff
    exact hgame (.inl (Bool.eq_false_iff.mpr hoff))
  have hcreated : Access (s.put id (some ⟨player, [], []⟩)) := by
    exact h.put hid ⟨nofun, .nil, nofun⟩
  dsimp only
  split
  · refine hcreated.put hid ⟨fun u hu => ?_, List.nodup_singleton player, fun u hu => ?_⟩
    · exact isInvited_iff.mpr (.inl (List.mem_singleton.mp hu))
    · rw [List.mem_singleton.mp hu]
      exact honline
  · exact hcreated

theorem Access.invite (h : Access s) (player invitePlayer : P) :
    Access (s.playerChannelInvite player invitePlayer) := by
  unfold Chat.playerChannelInvite
  split
  · exact h
  split
  · exact h
  next id channel hfound =>
  obtain ⟨hid, hchannel, -⟩ := getPrivateChannel_spec hfound
  have hadmitted := (h id channel hchannel).2
  split
  · exact h
  · refine h.put hid ⟨fun u hu => ?_, hadmitted.nodup, hadmitted.online⟩
    have hinvited := isInvited_iff.mp (hadmitted.invited u hu)
    exact isInvited_iff.mpr (hinvited.imp_right fun hu => List.mem_append_left _ hu)

theorem Access.exclude (h : Access s) (player excludePlayer : P) :
    Access (s.playerChannelExclude player excludePlayer) := by
  unfold Chat.playerChannelExclude
  split
  · exact h
  split
  · exact h
  next id channel hfound =>
  obtain ⟨hid, hchannel, -⟩ := getPrivateChannel_spec hfound
  have hadmitted := (h id channel hchannel).2
  split
  · exact h
  · have hleft := hadmitted.without excludePlayer
    refine Access.put h hid ⟨fun u hu => ?_, hleft.nodup, hleft.online⟩
    -- who stays is somebody else, and stays invited
    have hne : u ≠ excludePlayer := fun heq =>
      hadmitted.nodup.not_mem_erase (heq ▸ hu)
    have hinvited := isInvited_iff.mp (hleft.invited u hu)
    exact isInvited_iff.mpr (hinvited.imp_right fun hu => (List.mem_erase_of_ne hne).mpr hu)

theorem Access.openChannel (h : Access s) (player : P) (id : ℕ) :
    Access (s.playerOpenChannel player id) := by
  unfold Chat.playerOpenChannel
  split
  next channel hfound =>
    obtain ⟨honline, -, hchannel, hinvited⟩ := getChannel_privateChannel.mp hfound
    obtain ⟨hid, hadmitted⟩ := h id channel hchannel
    split
    · exact h
    next hnew =>
    refine Access.put h hid ⟨fun u hu => ?_, ?_, fun u hu => ?_⟩
    · rcases List.mem_append.mp hu with hu | hu
      · exact hadmitted.invited u hu
      · rw [List.mem_singleton.mp hu]
        exact hinvited
    · rw [← List.concat_eq_append]
      exact hadmitted.nodup.concat hnew
    · rcases List.mem_append.mp hu with hu | hu
      · exact hadmitted.online u hu
      · rw [List.mem_singleton.mp hu]
        exact honline
  · exact h

theorem Access.deleteChannel (h : Access s) (id : ℕ) : Access (s.deleteChannel id) := by
  unfold Chat.deleteChannel
  split
  · exact h
  · intro j found hfound
    dsimp only [Chat.put] at hfound
    by_cases hj : j = id
    · subst hj
      rw [Function.update_self] at hfound
      cases hfound
    · rw [Function.update_of_ne hj] at hfound
      exact h j found hfound

theorem Access.closeChannel (h : Access s) (player : P) (id : ℕ) :
    Access (s.playerCloseChannel player id) := by
  unfold Chat.playerCloseChannel
  split
  · exact h
  dsimp only
  split
  next channel hfound =>
    obtain ⟨-, -, hchannel, -⟩ := getChannel_privateChannel.mp hfound
    obtain ⟨hid, hadmitted⟩ := h id channel hchannel
    split
    · exact h
    have hleft : Access ((s.setWindow player id false).put id (some (channel.without player))) :=
      Access.put h hid (hadmitted.without player)
    split
    · exact hleft.deleteChannel id
    · exact hleft
  · exact h

/-! ## Leaving the game -/

/-- The channels after a player has left those with certain numbers. -/
def Chat.left (s : Chat P) (player : P) (ids : List ℕ) : Chat P :=
  { s with m_privateChannels := fun id =>
      if id ∈ ids then (s.m_privateChannels id).map fun channel => channel.without player
      else s.m_privateChannels id }

theorem leaveChannel_eq_some (player : P) (id : ℕ) : s.leaveChannel player id = some t ↔
    (∀ channel, s.m_privateChannels id = some channel → channel.m_owner ≠ player) ∧
      t = s.left player [id] := by
  have hleft : s.left player [id] = s.put id
      ((s.m_privateChannels id).map fun channel => channel.without player) := by
    have hmap : (s.left player [id]).m_privateChannels = Function.update s.m_privateChannels id
        ((s.m_privateChannels id).map fun channel => channel.without player) := by
      funext j
      dsimp only [Chat.left]
      by_cases hj : j = id
      · rw [hj, Function.update_self, if_pos List.mem_cons_self]
      · rw [Function.update_of_ne hj, if_neg fun h => hj (List.mem_singleton.mp h)]
    exact congrArg (fun m => { s with m_privateChannels := m }) hmap
  rw [Chat.leaveChannel, hleft]
  cases hchannel : s.m_privateChannels id with
  | none =>
    have hsame : s.put id none = s := by
      have hmap : Function.update s.m_privateChannels id none = s.m_privateChannels := by
        rw [← hchannel]
        exact Function.update_eq_self id _
      exact congrArg (fun m => { s with m_privateChannels := m }) hmap
    rw [Option.map_none, hsame]
    constructor
    · intro h
      cases h
      exact ⟨nofun, rfl⟩
    · rintro ⟨-, rfl⟩
      rfl
  | some channel =>
    dsimp only
    split
    next howner => exact iff_of_false (fun h => by cases h) fun h => h.1 channel rfl howner
    next howner =>
    constructor
    · intro h
      cases h
      refine ⟨fun found hfound => ?_, rfl⟩
      cases hfound
      exact howner
    · rintro ⟨-, rfl⟩
      rfl

/-- The rounds are well defined exactly if none of the channels is the player's own. -/
theorem foldlM_leaveChannel (player : P) {ids : List ℕ} (hids : ids.Nodup) :
    ids.foldlM (fun s id => s.leaveChannel player id) s = some t ↔
      (∀ id ∈ ids, ∀ channel, s.m_privateChannels id = some channel → channel.m_owner ≠ player) ∧
        t = s.left player ids := by
  induction ids generalizing s with
  | nil =>
    constructor
    · intro h
      cases h
      exact ⟨nofun, rfl⟩
    · rintro ⟨-, rfl⟩
      rfl
  | cons first ids ih =>
    obtain ⟨hfirst, hids⟩ := List.nodup_cons.mp hids
    have hother (id : ℕ) (hid : id ∈ ids) :
        (s.left player [first]).m_privateChannels id = s.m_privateChannels id := by
      apply if_neg
      intro hmem
      cases List.mem_singleton.mp hmem
      exact hfirst hid
    have hlater : (s.left player [first]).left player ids = s.left player (first :: ids) := by
      have hmap : ((s.left player [first]).left player ids).m_privateChannels =
          (s.left player (first :: ids)).m_privateChannels := by
        funext id
        dsimp only [Chat.left]
        by_cases hid : id ∈ ids
        · have hne : id ∉ [first] := fun hmem => by
            cases List.mem_singleton.mp hmem
            exact hfirst hid
          rw [if_pos hid, if_neg hne, if_pos (List.mem_cons_of_mem _ hid)]
        · rw [if_neg hid]
          by_cases hid' : id = first
          · rw [hid', if_pos List.mem_cons_self, if_pos List.mem_cons_self]
          · rw [if_neg fun h => hid' (List.mem_singleton.mp h),
              if_neg fun h => (List.mem_cons.mp h).elim hid' hid]
      exact congrArg (fun m => { s with m_privateChannels := m }) hmap
    rw [List.foldlM_cons, Option.bind_eq_bind, Option.bind_eq_some_iff]
    constructor
    · rintro ⟨u, hu, ht⟩
      obtain ⟨hown, rfl⟩ := (leaveChannel_eq_some player first).mp hu
      obtain ⟨hrest, rfl⟩ := (ih hids).mp ht
      refine ⟨fun id hid channel hchannel => ?_, hlater⟩
      rcases List.mem_cons.mp hid with rfl | hid
      · exact hown channel hchannel
      · exact hrest id hid channel ((hother id hid).trans hchannel)
    · rintro ⟨hall, rfl⟩
      refine ⟨s.left player [first], (leaveChannel_eq_some player first).mpr
        ⟨hall first List.mem_cons_self, rfl⟩, (ih hids).mpr ⟨fun id hid channel hchannel => ?_,
          hlater.symm⟩⟩
      exact hall id (List.mem_cons_of_mem _ hid) channel ((hother id hid).symm.trans hchannel)

theorem nodup_privateIds : privateIds.Nodup := List.nodup_range'

/-- Leaving all channels is well defined exactly for players who own none. -/
theorem removeUserFromAllChannels_eq_some (h : Access s) :
    s.removeUserFromAllChannels player = some t ↔
      (∀ id channel, s.m_privateChannels id = some channel → channel.m_owner ≠ player) ∧
        t = s.left player privateIds := by
  rw [Chat.removeUserFromAllChannels, foldlM_leaveChannel player nodup_privateIds]
  constructor
  · rintro ⟨hown, rfl⟩
    exact ⟨fun id channel hchannel => hown id (h id channel hchannel).1 channel hchannel, rfl⟩
  · rintro ⟨hown, rfl⟩
    exact ⟨fun id _ => hown id, rfl⟩

theorem left_m_privateChannels (h : Access s) (player : P) (id : ℕ) :
    (s.left player privateIds).m_privateChannels id =
      (s.m_privateChannels id).map fun channel => channel.without player := by
  dsimp only [Chat.left]
  split
  · rfl
  next hid =>
  cases hchannel : s.m_privateChannels id with
  | none => rfl
  | some channel => exact absurd (h id channel hchannel).1 hid

/-- Who has left is in no channel any more. -/
theorem Access.not_mem_left (h : Access s)
    (hchannel : (s.left player privateIds).m_privateChannels id = some channel) :
    player ∉ channel.m_users := by
  rw [left_m_privateChannels h] at hchannel
  obtain ⟨found, hfound, rfl⟩ := Option.map_eq_some_iff.mp hchannel
  exact (h id found hfound).2.nodup.not_mem_erase

theorem Access.left (h : Access s) (player : P) : Access (s.left player privateIds) := by
  intro id channel hchannel
  rw [left_m_privateChannels h] at hchannel
  obtain ⟨found, hfound, rfl⟩ := Option.map_eq_some_iff.mp hchannel
  exact ⟨(h id found hfound).1, (h id found hfound).2.without player⟩

theorem Access.logout (h : Access s) (ht : s.logout player = some t) : Access t := by
  obtain ⟨u, hu, rfl⟩ := Option.map_eq_some_iff.mp ht
  obtain ⟨-, rfl⟩ := (removeUserFromAllChannels_eq_some h).mp hu
  intro id channel hchannel
  obtain ⟨hid, hadmitted⟩ := h.left player id channel hchannel
  refine ⟨hid, hadmitted.invited, hadmitted.nodup, fun u hu => ?_⟩
  have hne : u ≠ player := fun heq => h.not_mem_left hchannel (heq ▸ hu)
  exact (Function.update_of_ne hne _ _).trans (hadmitted.online u hu)

theorem Access.replaceClient (h : Access s) (ht : s.replaceClient player = some t) : Access t := by
  obtain ⟨u, hu, rfl⟩ := Option.map_eq_some_iff.mp ht
  obtain ⟨-, rfl⟩ := (removeUserFromAllChannels_eq_some h).mp hu
  exact h.left player

theorem Access.step (h : Access s) {a : Action P} (ht : s.step a = some t) : Access t := by
  cases a with
  | create player =>
    cases ht
    exact h.create player
  | invite player invitePlayer =>
    cases ht
    exact h.invite player invitePlayer
  | exclude player excludePlayer =>
    cases ht
    exact h.exclude player excludePlayer
  | openChannel player id =>
    cases ht
    exact h.openChannel player id
  | closeChannel player id =>
    cases ht
    exact h.closeChannel player id
  | login player =>
    cases ht
    intro id channel hchannel
    obtain ⟨hid, hadmitted⟩ := h id channel hchannel
    refine ⟨hid, hadmitted.invited, hadmitted.nodup, fun u hu => ?_⟩
    by_cases heq : u = player
    · rw [heq]
      exact Function.update_self _ _ _
    · exact (Function.update_of_ne heq _ _).trans (hadmitted.online u hu)
  | logout player => exact h.logout ht
  | disconnect player =>
    cases ht
    exact h
  | replaceClient player => exact h.replaceClient ht
  | change others =>
    cases ht
    exact h
  | reload others =>
    cases ht
    intro id channel hchannel
    cases hchannel

theorem reachable_access (h : system.Reachable s) : Access s := by
  refine h.invariant Access ?_ fun s a t hs ht => hs.step ht
  rintro s ⟨hnone, -⟩ id channel hchannel
  rw [hnone] at hchannel
  cases hchannel

/-- Whatever the players do, who hears what is said in a private channel owns it or is invited to it,
and so does who says it. -/
theorem talk_invited (h : system.Reachable s) {speaker listener : P}
    (hhears : listener ∈ s.talkToChannel speaker id) :
    ∃ channel, s.m_privateChannels id = some channel ∧ channel.isInvited listener = true ∧
      channel.isInvited speaker = true := by
  unfold Chat.talkToChannel at hhears
  split at hhears
  next channel hfound =>
    obtain ⟨-, -, hchannel, hinvited⟩ := getChannel_privateChannel.mp hfound
    split at hhears
    · have hadmitted := (reachable_access h id channel hchannel).2
      exact ⟨channel, hchannel, hadmitted.invited listener hhears, hinvited⟩
    · cases hhears
  · cases hhears

theorem talk_invited_visit :
    ∃ channel, chatting.m_privateChannels 100 = some channel ∧
      channel.isInvited .visitor = true ∧ channel.isInvited .host = true :=
  talk_invited chatting_reachable (show _ ∈ _ by decide)

/-! ## Windows -/

/-- No channel of the other maps has a number that private channels get. -/
def Apart (others : ℕ → Option (P → Bool)) : Prop := ∀ id ∈ privateIds, others id = none

/-- The clients have a window for every private channel that they are in, and for no others; and the
owner of a channel is in it. -/
structure Mirror (s : Chat P) : Prop where
  access : Access s
  apart : Apart s.others
  window : ∀ p id, s.windows p id = true ↔
    ∃ channel, s.m_privateChannels id = some channel ∧ p ∈ channel.m_users
  owner : ∀ id channel, s.m_privateChannels id = some channel → channel.m_owner ∈ channel.m_users

/-- A step that concerns one channel, which exists afterwards. -/
theorem Mirror.of_put (h : Mirror s) (haccess : Access t) (hothers : t.others = s.others)
    (hmap : t.m_privateChannels = Function.update s.m_privateChannels id (some channel))
    (hwindow : ∀ p, t.windows p id = true ↔ p ∈ channel.m_users)
    (hother : ∀ p j, j ≠ id → t.windows p j = s.windows p j)
    (howner : channel.m_owner ∈ channel.m_users) : Mirror t where
  access := haccess
  apart := hothers ▸ h.apart
  window p j := by
    by_cases hj : j = id
    · rw [hj, hwindow, hmap, Function.update_self]
      exact ⟨fun hp => ⟨channel, rfl, hp⟩, fun ⟨_, heq, hp⟩ => by cases heq; exact hp⟩
    · rw [hother p j hj, hmap, Function.update_of_ne hj]
      exact h.window p j
  owner j found hfound := by
    by_cases hj : j = id
    · subst hj
      rw [hmap, Function.update_self] at hfound
      cases hfound
      exact howner
    · rw [hmap, Function.update_of_ne hj] at hfound
      exact h.owner j found hfound

/-- The windows of a channel that is there. -/
theorem Mirror.window_iff (h : Mirror s) (hchannel : s.m_privateChannels id = some channel) (p : P) :
    s.windows p id = true ↔ p ∈ channel.m_users := by
  rw [h.window, hchannel]
  exact ⟨fun ⟨_, heq, hp⟩ => by cases heq; exact hp, fun hp => ⟨channel, rfl, hp⟩⟩

theorem setWindow_self (s : Chat P) (player p : P) (id : ℕ) (shown : Bool) :
    (s.setWindow player id shown).windows p id =
      if p = player then shown && s.client player else s.windows p id := by
  dsimp only [Chat.setWindow]
  by_cases hp : p = player
  · rw [if_pos ⟨hp, rfl⟩, if_pos hp]
  · rw [if_neg fun h => hp h.1, if_neg hp]

theorem setWindow_of_ne (s : Chat P) (player p : P) {id j : ℕ} (shown : Bool) (hj : j ≠ id) :
    (s.setWindow player id shown).windows p j = s.windows p j :=
  if_neg fun h => hj h.2

/-- When a player leaves a channel and his window is closed, the windows are still right. -/
theorem Mirror.window_erase (h : Mirror s) (hchannel : s.m_privateChannels id = some channel)
    (player p : P) : (s.setWindow player id false).windows p id = true ↔
      p ∈ (channel.without player).m_users := by
  have hmem : p ∈ (channel.without player).m_users ↔ p ≠ player ∧ p ∈ channel.m_users :=
    (h.access id channel hchannel).2.nodup.mem_erase_iff
  rw [setWindow_self, hmem]
  split
  next hp => exact iff_of_false Bool.false_ne_true fun hleft => hleft.1 hp
  next hp => exact (h.window_iff hchannel p).trans (and_iff_right hp).symm

theorem Mirror.window_none (h : Mirror s) (hnone : s.m_privateChannels id = none) (p : P) :
    s.windows p id = false := by
  rw [Bool.eq_false_iff, Ne, h.window, hnone]
  rintro ⟨_, heq, -⟩
  cases heq

theorem Mirror.create (h : Mirror s) (hclient : s.client player = true) :
    Mirror (s.playerCreatePrivateChannel player) := by
  have haccess := h.access.create player
  unfold Chat.playerCreatePrivateChannel at haccess ⊢
  split
  · exact h
  next hgame =>
  split
  · exact h
  next id hfree =>
  have hid := List.mem_of_find?_eq_some hfree
  have hnone : s.m_privateChannels id = none := by
    have hfound := List.find?_some hfree
    exact Option.isNone_iff_eq_none.mp hfound
  have honline : s.online player = true := by
    by_contra hoff
    exact hgame (.inl (Bool.eq_false_iff.mpr hoff))
  have hfound : (s.put id (some ⟨player, [], []⟩)).getChannel player id =
      some (.privateChannel ⟨player, [], []⟩) := by
    refine getChannel_privateChannel.mpr ⟨honline, h.apart id hid, Function.update_self _ _ _, ?_⟩
    exact isInvited_iff.mpr (.inl rfl)
  dsimp only
  rw [if_neg hgame] at haccess
  rw [hfree] at haccess
  dsimp only at haccess
  rw [hfound, if_pos Option.isSome_some] at haccess ⊢
  refine h.of_put haccess rfl (Function.update_idem _ _ _) (fun p => ?_)
    (fun p j hj => setWindow_of_ne _ player p true hj) List.mem_cons_self
  rw [setWindow_self, List.mem_singleton]
  split
  next hp => exact iff_of_true hclient hp
  next hp =>
    refine iff_of_false (fun hshown => ?_) hp
    rw [show ((s.put id (some ⟨player, [], []⟩)).put id (some ⟨player, [], [player]⟩)).windows p id =
      s.windows p id from rfl, h.window_none hnone] at hshown
    cases hshown

theorem Mirror.invite (h : Mirror s) (player invitePlayer : P) :
    Mirror (s.playerChannelInvite player invitePlayer) := by
  have haccess := h.access.invite player invitePlayer
  unfold Chat.playerChannelInvite at haccess ⊢
  split
  · exact h
  next hgame =>
  rw [if_neg hgame] at haccess
  split
  · exact h
  next id channel hfound =>
  obtain ⟨-, hchannel, -⟩ := getPrivateChannel_spec hfound
  rw [hfound] at haccess
  dsimp only at haccess
  split
  · exact h
  next hnew =>
  rw [if_neg hnew] at haccess
  have hwindow := h.window_iff hchannel
  exact h.of_put haccess rfl rfl hwindow (fun _ _ _ => rfl) (h.owner id channel hchannel)

theorem Mirror.exclude (h : Mirror s) (player excludePlayer : P) :
    Mirror (s.playerChannelExclude player excludePlayer) := by
  have haccess := h.access.exclude player excludePlayer
  unfold Chat.playerChannelExclude at haccess ⊢
  split
  · exact h
  next hgame =>
  rw [if_neg hgame] at haccess
  split
  · exact h
  next id channel hfound =>
  obtain ⟨-, hchannel, howner⟩ := getPrivateChannel_spec hfound
  rw [hfound] at haccess
  dsimp only at haccess
  split
  · exact h
  next hnew =>
  rw [if_neg hnew] at haccess
  refine h.of_put haccess rfl rfl (h.window_erase hchannel excludePlayer)
    (fun p j hj => setWindow_of_ne _ excludePlayer p false hj) ?_
  · have hne : channel.m_owner ≠ excludePlayer := fun heq =>
      hnew (.inl (howner.symm.trans heq))
    exact (List.mem_erase_of_ne hne).mpr (h.owner id channel hchannel)

theorem Mirror.openChannel (h : Mirror s) (hclient : s.client player = true) (id : ℕ) :
    Mirror (s.playerOpenChannel player id) := by
  have haccess := h.access.openChannel player id
  unfold Chat.playerOpenChannel at haccess ⊢
  split
  next channel hfound =>
    obtain ⟨-, -, hchannel, -⟩ := getChannel_privateChannel.mp hfound
    rw [hfound] at haccess
    dsimp only at haccess
    split
    · exact h
    next hnew =>
    rw [if_neg hnew] at haccess
    refine h.of_put haccess rfl rfl (fun p => ?_)
      (fun p j hj => setWindow_of_ne _ player p true hj)
      (List.mem_append_left _ (h.owner id channel hchannel))
    rw [setWindow_self, List.mem_append, List.mem_singleton]
    split
    next hp => exact iff_of_true hclient (.inr hp)
    next hp =>
      exact (h.window_iff hchannel p).trans ⟨.inl, fun hmem => hmem.resolve_right hp⟩
  · exact h

/-- A window is closed that was not open. -/
theorem Mirror.setWindow_false (h : Mirror s) (hclosed : s.windows player id = false) :
    Mirror (s.setWindow player id false) := by
  have hsame : s.setWindow player id false = s := by
    have hwindows : (s.setWindow player id false).windows = s.windows := by
      funext p j
      by_cases hpj : p = player ∧ j = id
      · rw [hpj.1, hpj.2, hclosed]
        exact if_pos ⟨rfl, rfl⟩
      · exact if_neg hpj
    exact congrArg (fun windows => { s with windows }) hwindows
  rw [hsame]
  exact h

/-- A step that ends one channel. -/
theorem Mirror.of_end (h : Mirror s) (id : ℕ) (haccess : Access t) (hothers : t.others = s.others)
    (hmap : t.m_privateChannels = Function.update s.m_privateChannels id none)
    (hwindow : ∀ p, t.windows p id = false)
    (hother : ∀ p j, j ≠ id → t.windows p j = s.windows p j) : Mirror t where
  access := haccess
  apart := hothers ▸ h.apart
  window p j := by
    by_cases hj : j = id
    · rw [hj, hwindow, hmap, Function.update_self]
      exact iff_of_false Bool.false_ne_true fun ⟨_, heq, _⟩ => by cases heq
    · rw [hother p j hj, hmap, Function.update_of_ne hj]
      exact h.window p j
  owner j found hfound := by
    by_cases hj : j = id
    · subst hj
      rw [hmap, Function.update_self] at hfound
      cases hfound
    · rw [hmap, Function.update_of_ne hj] at hfound
      exact h.owner j found hfound

/-- Whoever has a window for a channel finds the channel. -/
theorem Mirror.getChannel_of_window (h : Mirror s) (hwindow : s.windows player id = true) :
    ∃ channel, s.getChannel player id = some (.privateChannel channel) := by
  obtain ⟨channel, hchannel, hmem⟩ := (h.window player id).mp hwindow
  obtain ⟨hid, hadmitted⟩ := h.access id channel hchannel
  refine ⟨channel, getChannel_privateChannel.mpr ⟨?_, h.apart id hid, hchannel, ?_⟩⟩
  · exact hadmitted.online player hmem
  · exact hadmitted.invited player hmem

theorem deleteChannel_eq (hchannel : s.m_privateChannels id = some channel) :
    s.deleteChannel id =
      { s.put id none with
        windows := fun player j =>
          if j = id ∧ player ∈ channel.m_users then false else s.windows player j } := by
  rw [Chat.deleteChannel, hchannel]

/-- The owner closes his window, leaves and takes the channel with him. -/
theorem Mirror.endChannel (h : Mirror s) (hchannel : s.m_privateChannels id = some channel)
    (haccess : Access (((s.setWindow player id false).put id
      (some (channel.without player))).deleteChannel id)) :
    Mirror (((s.setWindow player id false).put id
      (some (channel.without player))).deleteChannel id) := by
  have hmap : ((s.setWindow player id false).put id
      (some (channel.without player))).m_privateChannels id = some (channel.without player) :=
    Function.update_self _ _ _
  have hdelete := deleteChannel_eq hmap
  refine h.of_end id haccess ?_ ?_ (fun p => ?_) fun p j hj => ?_
  · exact (congrArg Chat.others hdelete).trans rfl
  · exact (congrArg Chat.m_privateChannels hdelete).trans (Function.update_idem _ _ _)
  · refine (congrFun (congrFun (congrArg Chat.windows hdelete) p) id).trans ?_
    dsimp only
    split
    · rfl
    next hout =>
      -- nobody else had a window
      rw [Bool.eq_false_iff, Ne]
      exact fun hopen => hout ⟨rfl, (h.window_erase hchannel player p).mp hopen⟩
  · refine (congrFun (congrFun (congrArg Chat.windows hdelete) p) j).trans ?_
    dsimp only
    rw [if_neg fun hmem => hj hmem.1]
    exact setWindow_of_ne s player p false hj

theorem Mirror.closeChannel (h : Mirror s) (player : P) (id : ℕ) :
    Mirror (s.playerCloseChannel player id) := by
  have haccess := h.access.closeChannel player id
  unfold Chat.playerCloseChannel at haccess ⊢
  split
  · exact h
  next honline =>
  rw [if_neg honline] at haccess
  dsimp only at haccess ⊢
  have hsearch : (s.setWindow player id false).getChannel player id = s.getChannel player id := rfl
  rw [hsearch] at haccess ⊢
  split
  next channel hfound =>
    obtain ⟨-, -, hchannel, -⟩ := getChannel_privateChannel.mp hfound
    rw [hfound] at haccess
    dsimp only at haccess
    split
    next hout =>
      apply h.setWindow_false
      rw [Bool.eq_false_iff, Ne, h.window_iff hchannel]
      exact hout
    next hin =>
    rw [if_neg hin] at haccess
    split
    next howner =>
      rw [if_pos howner] at haccess
      exact h.endChannel hchannel haccess
    next howner =>
      rw [if_neg howner] at haccess
      exact h.of_put haccess rfl rfl (h.window_erase hchannel player)
        (fun p j hj => setWindow_of_ne _ player p false hj)
        ((List.mem_erase_of_ne howner).mpr (h.owner id channel hchannel))
  next hnone =>
    -- whoever had a window would have found the channel
    apply h.setWindow_false
    by_contra hopen
    obtain ⟨channel, hfound⟩ := h.getChannel_of_window (Bool.not_eq_false _ ▸ hopen)
    exact hnone channel hfound

/-- The owner of no channel leaves them all, and his client goes away. -/
theorem Mirror.leave (h : Mirror s) (player : P)
    (hown : ∀ id channel, s.m_privateChannels id = some channel → channel.m_owner ≠ player) :
    Mirror ((s.left player privateIds).disconnect player) := by
  refine ⟨h.access.left player, h.apart, fun p id => ?_, fun id channel hchannel => ?_⟩
  · have hmap := left_m_privateChannels h.access player id
    dsimp only [Chat.disconnect]
    by_cases hp : p = player
    · rw [hp, Function.update_self]
      exact iff_of_false Bool.false_ne_true fun ⟨channel, hchannel, hmem⟩ =>
        h.access.not_mem_left hchannel hmem
    · rw [Function.update_of_ne hp, hmap]
      refine (h.window p id).trans ⟨?_, ?_⟩
      · rintro ⟨channel, hchannel, hmem⟩
        refine ⟨channel.without player, ?_, (List.mem_erase_of_ne hp).mpr hmem⟩
        exact Option.map_eq_some_iff.mpr ⟨channel, hchannel, rfl⟩
      · rintro ⟨found, hfound, hmem⟩
        obtain ⟨channel, hchannel, rfl⟩ := Option.map_eq_some_iff.mp hfound
        exact ⟨channel, hchannel, List.mem_of_mem_erase hmem⟩
  · have hmap := left_m_privateChannels h.access player id
    obtain ⟨found, hfound, rfl⟩ := Option.map_eq_some_iff.mp (hmap.symm.trans hchannel)
    exact (List.mem_erase_of_ne (hown id found hfound)).mpr (h.owner id found hfound)

theorem Mirror.logout (h : Mirror s) (ht : s.logout player = some t) : Mirror t := by
  have haccess := h.access.logout ht
  obtain ⟨u, hu, rfl⟩ := Option.map_eq_some_iff.mp ht
  obtain ⟨hown, rfl⟩ := (removeUserFromAllChannels_eq_some h.access).mp hu
  have hleft := h.leave player hown
  exact ⟨haccess, hleft.apart, hleft.window, hleft.owner⟩

theorem Mirror.replaceClient (h : Mirror s) (ht : s.replaceClient player = some t) : Mirror t := by
  obtain ⟨u, hu, rfl⟩ := Option.map_eq_some_iff.mp ht
  obtain ⟨hown, rfl⟩ := (removeUserFromAllChannels_eq_some h.access).mp hu
  exact h.leave player hown

/-- The client of a player who is in no private channel goes away. -/
theorem Mirror.disconnect (h : Mirror s)
    (hout : ∀ id channel, s.m_privateChannels id = some channel → player ∉ channel.m_users) :
    Mirror (s.disconnect player) := by
  refine ⟨h.access, h.apart, fun p id => ?_, h.owner⟩
  dsimp only [Chat.disconnect]
  by_cases hp : p = player
  · rw [hp, Function.update_self]
    exact iff_of_false Bool.false_ne_true fun ⟨channel, hchannel, hmem⟩ =>
      hout id channel hchannel hmem
  · rw [Function.update_of_ne hp]
    exact h.window p id

/-- Who asks for a channel has a client, and no client goes away from a player who is in one; only
numbers that private channels do not get are given to other channels, and the channels are not read
again. -/
def Orderly (s : Chat P) : Action P → Prop
  | .create player => s.client player = true
  | .openChannel player _ => s.client player = true
  | .disconnect player =>
    ∀ id channel, s.m_privateChannels id = some channel → player ∉ channel.m_users
  | .change others => Apart others
  | .reload _ => False
  | _ => True

theorem Mirror.step (h : Mirror s) {a : Action P} (ha : Orderly s a) (ht : s.step a = some t) :
    Mirror t := by
  cases a with
  | create player =>
    cases ht
    exact h.create ha
  | invite player invitePlayer =>
    cases ht
    exact h.invite player invitePlayer
  | exclude player excludePlayer =>
    cases ht
    exact h.exclude player excludePlayer
  | openChannel player id =>
    cases ht
    exact h.openChannel ha id
  | closeChannel player id =>
    cases ht
    exact h.closeChannel player id
  | login player =>
    have haccess := h.access.step ht
    cases ht
    exact ⟨haccess, h.apart, h.window, h.owner⟩
  | logout player => exact h.logout ht
  | disconnect player =>
    cases ht
    exact h.disconnect ha
  | replaceClient player => exact h.replaceClient ht
  | change others =>
    cases ht
    exact ⟨h.access, ha, h.window, h.owner⟩
  | reload others => exact ha.elim

def orderlySystem : System (Chat P) (Action P) :=
  (System.ofStep (fun s => init s ∧ Apart s.others) Chat.step).restrict Orderly

theorem reachable_mirror (h : orderlySystem.Reachable s) : Mirror s := by
  refine h.invariant Mirror ?_ ?_
  rotate_left
  · rintro s a t hs ⟨ha, ht⟩
    exact hs.step ha ht
  rintro s ⟨hinit, hapart⟩
  have hwindows := hinit.2.2
  have hnone := hinit.1
  refine ⟨reachable_access (.init hinit), hapart, fun p id => ?_, fun id channel hchannel => ?_⟩
  · rw [hwindows, hnone]
    exact iff_of_false Bool.false_ne_true fun ⟨_, heq, _⟩ => by cases heq
  · rw [hnone] at hchannel
    cases hchannel

/-- What is said in a private channel is heard by those who have a window for it, the owner among
them, and only they can say something there. -/
theorem talk_windows (h : orderlySystem.Reachable s) (id : ℕ) :
    (∀ speaker listener, listener ∈ s.talkToChannel speaker id ↔
      s.windows speaker id = true ∧ s.windows listener id = true) ∧
    ∀ channel, s.m_privateChannels id = some channel → s.windows channel.m_owner id = true := by
  have hmirror := reachable_mirror h
  constructor
  · intro speaker listener
    unfold Chat.talkToChannel
    split
    next channel hfound =>
      obtain ⟨-, -, hchannel, -⟩ := getChannel_privateChannel.mp hfound
      rw [hmirror.window_iff hchannel, hmirror.window_iff hchannel]
      split
      next hin => exact ⟨fun hmem => ⟨hin, hmem⟩, fun hmem => hmem.2⟩
      next hout => exact iff_of_false List.not_mem_nil fun hmem => hout hmem.1
    next hnone =>
      refine iff_of_false List.not_mem_nil fun hopen => ?_
      obtain ⟨channel, hfound⟩ := hmirror.getChannel_of_window hopen.1
      exact hnone channel hfound
  · intro channel hchannel
    exact (hmirror.window_iff hchannel _).mpr (hmirror.owner id channel hchannel)

theorem chatting_orderly : orderlySystem.Reachable chatting := by
  have hstart : orderlySystem.Reachable emptyChat := .init ⟨init_emptyChat, fun _ _ => rfl⟩
  have hhost := reachable_restrict_step hstart (.login .host) trivial rfl
  have hvisitor := reachable_restrict_step hhost (.login .visitor) trivial rfl
  have hcreated := reachable_restrict_step hvisitor (.create .host) rfl rfl
  have hinvited := reachable_restrict_step hcreated (.invite .host .visitor) trivial rfl
  exact reachable_restrict_step hinvited (.openChannel .visitor 100) rfl rfl

theorem talk_windows_visit :
    (∀ speaker listener, listener ∈ chatting.talkToChannel speaker 100 ↔
      chatting.windows speaker 100 = true ∧ chatting.windows listener 100 = true) ∧
    ∀ channel, chatting.m_privateChannels 100 = some channel →
      chatting.windows channel.m_owner 100 = true :=
  talk_windows chatting_orderly 100

/-- The loop over the channels of a player who leaves the game is well defined exactly if he owns none
of them, and then he is in none of them afterwards. -/
theorem logout_isSome_iff (h : system.Reachable s) (player : P) :
    ((s.logout player).isSome ↔
      ∀ id channel, s.m_privateChannels id = some channel → channel.m_owner ≠ player) ∧
    ∀ t, s.logout player = some t → ∀ id channel, t.m_privateChannels id = some channel →
      player ∉ channel.m_users := by
  have haccess := reachable_access h
  constructor
  · rw [Chat.logout, Option.isSome_map, Option.isSome_iff_exists]
    constructor
    · rintro ⟨t, ht⟩
      exact ((removeUserFromAllChannels_eq_some haccess).mp ht).1
    · exact fun hown => ⟨_, (removeUserFromAllChannels_eq_some haccess).mpr ⟨hown, rfl⟩⟩
  · intro t ht id channel hchannel
    obtain ⟨u, hu, rfl⟩ := Option.map_eq_some_iff.mp ht
    obtain ⟨-, rfl⟩ := (removeUserFromAllChannels_eq_some haccess).mp hu
    exact haccess.not_mem_left hchannel

theorem logout_isSome_iff_visit :
    ((chatting.logout .visitor).isSome ↔
      ∀ id channel, chatting.m_privateChannels id = some channel → channel.m_owner ≠ .visitor) ∧
    ∀ t, chatting.logout .visitor = some t → ∀ id channel, t.m_privateChannels id = some channel →
      Person.visitor ∉ channel.m_users :=
  logout_isSome_iff chatting_reachable .visitor

end TyanoCore.PrivateChannels
