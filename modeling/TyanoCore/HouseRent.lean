import Mathlib.Algebra.Order.Ring.Int
import Mathlib.Data.List.Basic
import Mathlib.Data.List.Chain
import Mathlib.Logic.Function.Basic
import TyanoCore.Run

/-!
# The rent of houses

From time to time all houses are checked.  An owner whose rent is due pays it from the bank or from
the depot; who cannot pay is warned, at most once a day, and loses the house when there have been
enough warnings.  An owner who is not in the game is loaded from the database for the check.
-/

namespace TyanoCore.HouseRent

open Transition

inductive RentPeriod_t where
  | RENTPERIOD_DAILY
  | RENTPERIOD_WEEKLY
  | RENTPERIOD_MONTHLY
  | RENTPERIOD_YEARLY
  | RENTPERIOD_NEVER
  deriving DecidableEq

namespace RentPeriod_t

def seconds : RentPeriod_t → ℕ
  | RENTPERIOD_DAILY => 86400
  | RENTPERIOD_WEEKLY => 7 * 86400
  | RENTPERIOD_MONTHLY => 30 * 86400
  | RENTPERIOD_YEARLY => 365 * 86400
  | RENTPERIOD_NEVER => 0

def warningsLimit : RentPeriod_t → ℕ
  | RENTPERIOD_DAILY => 1
  | RENTPERIOD_WEEKLY => 3
  | RENTPERIOD_MONTHLY => 7
  | RENTPERIOD_YEARLY => 14
  | RENTPERIOD_NEVER => 7

def name : RentPeriod_t → String
  | RENTPERIOD_DAILY => "daily"
  | RENTPERIOD_WEEKLY => "weekly"
  | RENTPERIOD_MONTHLY => "monthly"
  | RENTPERIOD_YEARLY => "annual"
  | RENTPERIOD_NEVER => ""

end RentPeriod_t

structure Config where
  rentPeriod : RentPeriod_t
  bankSystem : Bool
  houseCleanOld : ℕ

/-- A house; the owner of a guild hall is a guild, and 0 is nobody. -/
structure House where
  name : String
  guild : Bool
  town : Bool
  owner : ℕ
  rent : ℕ
  paidUntil : ℕ
  lastWarning : ℕ
  rentWarnings : ℕ

/-- What a check reads and writes of a character, whose depots are of any kind. -/
structure Account (D : Type*) where
  balance : ℕ
  depot : D
  lastLogin : ℕ
  ignoreHouseRent : Bool

/-- What the check uses of the game and of the database. -/
structure Surroundings (D : Type*) where
  removeMoney : D → ℕ → Option D
  addLetter : D → String → Option D
  swapGuildIdToOwner : ℕ → Option ℕ
  getGuildId : ℕ → Option ℕ
  hasName : ℕ → Bool

variable {D H : Type*}

/-- What becomes of a rent: it is still due, or it is paid, or there is nothing to pay. -/
inductive Payment (D : Type*) where
  | due
  | paid (account : Account D) (house : House)
  | free

/-- The money is taken from the bank if that is enough, and else from the depot. -/
def take (cfg : Config) (env : Surroundings D) (account : Account D) (amount : ℕ) :
    Option (Account D) :=
  if cfg.bankSystem = true ∧ amount ≤ account.balance then
    some { account with balance := account.balance - amount }
  else (env.removeMoney account.depot amount).map fun depot => { account with depot }

/-- `payRent` answers `false` where the rent is still due afterwards. -/
def payRent (cfg : Config) (env : Surroundings D) (now : ℕ) (account : Account D) (house : House)
    (bid time : ℕ) : Payment D :=
  if cfg.rentPeriod = .RENTPERIOD_NEVER ∨ house.owner = 0 ∨ house.paidUntil > time ∨
      house.rent = 0 ∨ account.ignoreHouseRent = true then .free
  else if house.town = false then .due
  else
    match take cfg env account ((house.rent + bid) % 2 ^ 32) with
    | none => .due
    | some account =>
      let time := if time = 0 then now else time
      .paid account { house with paidUntil := (time + cfg.rentPeriod.seconds) % 2 ^ 32 }

/-- The owner of a house, if there is such a character. -/
def ownerOf (env : Surroundings D) (house : House) : Option ℕ :=
  (if house.guild then env.swapGuildIdToOwner house.owner else some house.owner).filter env.hasName

/-- The text of a warning. -/
def warning (cfg : Config) (house : House) (warnings : ℕ) : String :=
  let kind := if house.guild then "guild hall" else "house"
  "Warning!\nThe " ++ cfg.rentPeriod.name ++ " rent of " ++ toString house.rent ++
    " gold for your " ++ kind ++ " \"" ++ house.name ++ "\" has to be paid. Have it within " ++
    toString (cfg.rentPeriod.warningsLimit - warnings) ++ " days or you will lose your " ++ kind ++
    "."

/-! ## Houses, characters in the game and characters in the database -/

/-- The houses and the characters, with what has been paid and warned of since the counters of a house
were set back, the last first, and the houses that were lost. -/
structure State (H D : Type*) where
  houses : H → House
  online : ℕ → Option (Account D)
  stored : ℕ → Option (Account D)
  paid : H → List ℕ
  warned : H → List ℕ
  lost : List (ℕ × List ℕ)

namespace State

variable [DecidableEq H] (cfg : Config) (env : Surroundings D) (s : State H D)

def setHouse (k : H) (house : House) : State H D :=
  { s with houses := Function.update s.houses k house }

/-- `House::setOwnerEx`. -/
def setOwnerEx (k : H) (guid now : ℕ) : State H D :=
  let house := s.houses k
  if house.owner = guid then s
  else
    match (if house.guild = true ∧ guid ≠ 0 then env.getGuildId guid else some guid) with
    | none => s
    | some guid =>
      let lastWarning := if guid ≠ 0 then now else 0
      if house.owner ≠ 0 then
        { s.setHouse k { house with owner := guid, lastWarning, rentWarnings := 0, paidUntil := 0 } with
          paid := Function.update s.paid k []
          warned := Function.update s.warned k [] }
      else s.setHouse k { house with owner := guid, lastWarning }

/-- The character in the game, or as the database has it: the latter is virtual. -/
def getPlayerByNameEx (guid : ℕ) : Option (Account D × Bool) :=
  match s.online guid with
  | some account => some (account, false)
  | none => (s.stored guid).map fun account => (account, true)

/-- A character in the game is changed in place. -/
def setOnline (guid : ℕ) (account : Account D) (isVirtual : Bool) : State H D :=
  if isVirtual then s else { s with online := Function.update s.online guid (some account) }

/-- A letter is put into the depot, and with it a virtual character is saved. -/
def sendWarning (guid : ℕ) (account : Account D) (isVirtual : Bool) (text : String) : State H D :=
  match env.addLetter account.depot text with
  | none => s
  | some depot =>
    if isVirtual then
      { s with stored := Function.update s.stored guid (some { account with depot }) }
    else s.setOnline guid { account with depot } false

/-- The owner has not paid. -/
def warnOwner (k : H) (guid : ℕ) (account : Account D) (isVirtual : Bool) (time : ℕ) : State H D :=
  let house := s.houses k
  if time < house.lastWarning + 86400 then s
  else if house.rentWarnings < cfg.rentPeriod.warningsLimit then
    let text := warning cfg house house.rentWarnings
    { (s.sendWarning env guid account isVirtual text).setHouse k
        { house with rentWarnings := house.rentWarnings + 1, lastWarning := time } with
      warned := Function.update s.warned k (time :: s.warned k) }
  else { s.setOwnerEx env k 0 time with lost := (time, s.warned k) :: s.lost }

/-- `Houses::payHouse`. -/
def payHouse (k : H) (time bid : ℕ) : State H D :=
  let house := s.houses k
  if house.owner = 0 ∨ house.town = false then s
  else
    match ownerOf env house with
    | none => s.setOwnerEx env k 0 time
    | some guid =>
      match s.getPlayerByNameEx guid with
      | none => s
      | some (account, isVirtual) =>
        if isVirtual = true ∧ cfg.houseCleanOld ≠ 0 ∧
            time ≥ account.lastLogin + cfg.houseCleanOld then s.setOwnerEx env k 0 time
        else if cfg.rentPeriod = .RENTPERIOD_NEVER ∨ house.paidUntil > time ∨ house.rent = 0 then s
        else
          match payRent cfg env time account house bid time with
          | .free => s
          | .due => s.warnOwner cfg env k guid account isVirtual time
          | .paid account house =>
            { (s.setOnline guid account isVirtual).setHouse k house with
              paid := Function.update s.paid k (time :: s.paid k) }

end State

inductive Action (H D : Type*) where
  | payHouse (k : H) (time : ℕ)
  | auction (k : H) (guid time bid : ℕ)
  | setOwnerEx (k : H) (guid now : ℕ)
  | preRent (k : H) (guid now : ℕ)
  | login (guid : ℕ)
  | play (guid : ℕ) (account : Account D)
  | save (guid : ℕ)
  | logout (guid : ℕ)

namespace State

variable [DecidableEq H] (cfg : Config) (env : Surroundings D) (s : State H D)

/-- Who offers a house pays the rent for it in advance. -/
def preRent (k : H) (guid now : ℕ) : State H D :=
  match s.online guid with
  | none => s
  | some account =>
    match payRent cfg env now account (s.houses k) 0 0 with
    | .paid account house =>
      { (s.setOnline guid account false).setHouse k house with
        paid := Function.update s.paid k (now :: s.paid k) }
    | _ => s

def step : Action H D → State H D
  | .payHouse k time => s.payHouse cfg env k time 0
  | .auction k guid time bid =>
    (s.setHouse k { s.houses k with owner := guid }).payHouse cfg env k time bid
  | .setOwnerEx k guid now => s.setOwnerEx env k guid now
  | .preRent k guid now => s.preRent cfg env k guid now
  | .login guid =>
    { s with online := Function.update s.online guid (s.online guid <|> s.stored guid) }
  | .play guid account =>
    { s with online := Function.update s.online guid ((s.online guid).map fun _ => account) }
  | .save guid =>
    { s with stored := Function.update s.stored guid (s.online guid <|> s.stored guid) }
  | .logout guid =>
    { s with
      stored := Function.update s.stored guid (s.online guid <|> s.stored guid)
      online := Function.update s.online guid none }

end State

/-! ## What a check does -/

variable {cfg : Config} {env : Surroundings D} {account account' : Account D} {house house' : House}
variable {now bid time guid : ℕ}

theorem payRent_paid (h : payRent cfg env now account house bid time = .paid account' house') :
    cfg.rentPeriod ≠ .RENTPERIOD_NEVER ∧ house.owner ≠ 0 ∧ house.paidUntil ≤ time ∧
      take cfg env account ((house.rent + bid) % 2 ^ 32) = some account' ∧
      house' = { house with
        paidUntil := ((if time = 0 then now else time) + cfg.rentPeriod.seconds) % 2 ^ 32 } := by
  unfold payRent at h
  split at h
  · cases h
  next hfree =>
  push Not at hfree
  split at h
  · cases h
  split at h
  · cases h
  next htake =>
  cases h
  exact ⟨hfree.1, hfree.2.1, hfree.2.2.1, htake, rfl⟩

theorem payRent_due (h : payRent cfg env now account house bid time = .due) :
    house.owner ≠ 0 ∧ (house.town = false ∨
      take cfg env account ((house.rent + bid) % 2 ^ 32) = none) := by
  unfold payRent at h
  split at h
  · cases h
  next hfree =>
  push Not at hfree
  split at h
  next htown => exact ⟨hfree.2.1, .inl htown⟩
  split at h
  next htake => exact ⟨hfree.2.1, .inr htake⟩
  · cases h

theorem payRent_free (h : payRent cfg env now account house bid time = .free) :
    cfg.rentPeriod = .RENTPERIOD_NEVER ∨ house.owner = 0 ∨ house.paidUntil > time ∨
      house.rent = 0 ∨ account.ignoreHouseRent = true := by
  unfold payRent at h
  split at h
  next hfree => exact hfree
  split at h
  · cases h
  split at h <;> cases h

variable [DecidableEq H] {s t : State H D} {k : H}

/-- A check leaves everything as it is, or the house is given up for another reason than its rent, or
the rent stays due, or it is paid. -/
inductive Checked (cfg : Config) (env : Surroundings D) (s : State H D) (k : H) (time bid : ℕ) :
    State H D → Prop where
  | idle :
    (s.houses k).owner = 0 ∨ (s.houses k).town = false ∨
      (∃ guid, ownerOf env (s.houses k) = some guid ∧ s.getPlayerByNameEx guid = none) ∨
      cfg.rentPeriod = .RENTPERIOD_NEVER ∨ (s.houses k).paidUntil > time ∨ (s.houses k).rent = 0 ∨
      (∃ guid account isVirtual, ownerOf env (s.houses k) = some guid ∧
        s.getPlayerByNameEx guid = some (account, isVirtual) ∧ account.ignoreHouseRent = true) →
    Checked cfg env s k time bid s
  | cleaned :
    ownerOf env (s.houses k) = none ∨ (∃ guid account, ownerOf env (s.houses k) = some guid ∧
      s.getPlayerByNameEx guid = some (account, true) ∧ cfg.houseCleanOld ≠ 0 ∧
      time ≥ account.lastLogin + cfg.houseCleanOld) →
    Checked cfg env s k time bid (s.setOwnerEx env k 0 time)
  | due {guid account isVirtual} : ownerOf env (s.houses k) = some guid →
    s.getPlayerByNameEx guid = some (account, isVirtual) →
    payRent cfg env time account (s.houses k) bid time = .due →
    Checked cfg env s k time bid (s.warnOwner cfg env k guid account isVirtual time)
  | paid {guid account isVirtual account' house} : ownerOf env (s.houses k) = some guid →
    s.getPlayerByNameEx guid = some (account, isVirtual) →
    payRent cfg env time account (s.houses k) bid time = .paid account' house →
    Checked cfg env s k time bid
      { (s.setOnline guid account' isVirtual).setHouse k house with
        paid := Function.update s.paid k (time :: s.paid k) }

theorem checked_payHouse (cfg : Config) (env : Surroundings D) (s : State H D) (k : H)
    (time bid : ℕ) : Checked cfg env s k time bid (s.payHouse cfg env k time bid) := by
  unfold State.payHouse
  dsimp only
  split
  next hnone => exact .idle (hnone.imp_right .inl)
  cases howner : ownerOf env (s.houses k) with
  | none => exact .cleaned (.inl howner)
  | some guid =>
    dsimp only
    cases hplayer : s.getPlayerByNameEx guid with
    | none => exact .idle (.inr (.inr (.inl ⟨guid, howner, hplayer⟩)))
    | some player =>
      obtain ⟨account, isVirtual⟩ := player
      dsimp only
      split
      next hclean =>
        obtain ⟨rfl, hclean, hold⟩ := hclean
        exact .cleaned (.inr ⟨guid, account, howner, hplayer, hclean, hold⟩)
      split
      next hnever =>
        refine .idle (.inr (.inr (.inr ?_)))
        exact hnever.imp_right fun hdue => hdue.imp_right .inl
      cases hpaid : payRent cfg env time account (s.houses k) bid time with
      | free =>
        refine .idle ?_
        rcases payRent_free hpaid with hfree | hfree | hfree | hfree | hfree
        · exact .inr (.inr (.inr (.inl hfree)))
        · exact .inl hfree
        · exact .inr (.inr (.inr (.inr (.inl hfree))))
        · exact .inr (.inr (.inr (.inr (.inr (.inl hfree)))))
        · exact .inr (.inr (.inr (.inr (.inr (.inr
            ⟨guid, account, isVirtual, howner, hplayer, hfree⟩)))))
      | due => exact .due howner hplayer hpaid
      | paid account' house => exact .paid howner hplayer hpaid

/-! ## The history of a house -/

/-- What the counters of a house say about what has been paid and warned of. -/
structure HouseBooks (cfg : Config) (house : House) (paid warned : List ℕ) : Prop where
  paid_spaced : paid.IsChain fun t u => u + cfg.rentPeriod.seconds ≤ t
  paidUntil : ∀ t ∈ paid.head?, house.paidUntil = t + cfg.rentPeriod.seconds
  warned_spaced : warned.IsChain fun t u => u + 86400 ≤ t
  lastWarning : ∀ t ∈ warned.head?, house.lastWarning = t
  count : house.rentWarnings = warned.length
  limit : warned.length ≤ cfg.rentPeriod.warningsLimit
  vacant : house.owner = 0 → paid = [] ∧ warned = []

/-- A house is lost for its rent after all the warnings there are, each of them at least a day after
the one before it, and at least a day after the last one. -/
def Warned (cfg : Config) (time : ℕ) (warned : List ℕ) : Prop :=
  warned.length = cfg.rentPeriod.warningsLimit ∧
    (time :: warned).IsChain fun t u => u + 86400 ≤ t

structure Books (cfg : Config) (s : State H D) : Prop where
  house : ∀ k, HouseBooks cfg (s.houses k) (s.paid k) (s.warned k)
  lost : ∀ e ∈ s.lost, Warned cfg e.1 e.2

/-- A step concerns one house. -/
theorem Books.of_house (h : Books cfg s)
    (hother : ∀ j, j ≠ k → t.houses j = s.houses j ∧ t.paid j = s.paid j ∧ t.warned j = s.warned j)
    (hk : HouseBooks cfg (t.houses k) (t.paid k) (t.warned k))
    (hlost : ∀ e ∈ t.lost, Warned cfg e.1 e.2) : Books cfg t where
  house j := by
    by_cases hj : j = k
    · rw [hj]
      exact hk
    · obtain ⟨hhouse, hpaid, hwarned⟩ := hother j hj
      rw [hhouse, hpaid, hwarned]
      exact h.house j
  lost := hlost

/-- What `setOwnerEx` leaves of a house: as it was, or with the counters set back, or given to
somebody when nobody had it. -/
theorem setOwnerEx_cases (env : Surroundings D) (s : State H D) (k : H) (guid now : ℕ) :
    s.setOwnerEx env k guid now = s ∨
      ∃ owner lastWarning, s.setOwnerEx env k guid now =
          { s.setHouse k { s.houses k with owner, lastWarning, rentWarnings := 0, paidUntil := 0 } with
            paid := Function.update s.paid k []
            warned := Function.update s.warned k [] } ∨
        ((s.houses k).owner = 0 ∧ s.setOwnerEx env k guid now =
          s.setHouse k { s.houses k with owner, lastWarning }) := by
  unfold State.setOwnerEx
  dsimp only
  split
  · exact .inl rfl
  split
  · exact .inl rfl
  next owner _ =>
  refine .inr ⟨owner, if owner ≠ 0 then now else 0, ?_⟩
  split
  · exact .inl rfl
  next howner => exact .inr ⟨not_not.mp howner, rfl⟩

/-- A house whose counters have been set back. -/
theorem houseBooks_nil (cfg : Config) {house : House} (h : house.rentWarnings = 0) :
    HouseBooks cfg house [] [] where
  paid_spaced := .nil
  paidUntil := nofun
  warned_spaced := .nil
  lastWarning := nofun
  count := h
  limit := Nat.zero_le _
  vacant _ := ⟨rfl, rfl⟩

theorem Books.setOwnerEx (h : Books cfg s) (k : H) (guid now : ℕ) :
    Books cfg (s.setOwnerEx env k guid now) := by
  have hk := h.house k
  rcases setOwnerEx_cases env s k guid now with heq | ⟨owner, lastWarning, heq | ⟨howner, heq⟩⟩
  · rw [heq]
    exact h
  · rw [heq]
    refine h.of_house (k := k) (fun j hj => ?_) ?_ h.lost
    · exact ⟨Function.update_of_ne hj _ _, Function.update_of_ne hj _ _,
        Function.update_of_ne hj _ _⟩
    · dsimp only [State.setHouse]
      rw [Function.update_self, Function.update_self, Function.update_self]
      exact houseBooks_nil cfg rfl
  · rw [heq]
    refine h.of_house (k := k) (fun j hj => ⟨Function.update_of_ne hj _ _, rfl, rfl⟩) ?_ h.lost
    obtain ⟨hpaid, hwarned⟩ := hk.vacant howner
    dsimp only [State.setHouse]
    rw [Function.update_self, hpaid, hwarned]
    apply houseBooks_nil
    have hcount := hk.count
    rw [hwarned] at hcount
    exact hcount

/-- The times for which the sums of the source do not overflow. -/
def InTime (time : ℕ) : Prop := time + 365 * 86400 < 2 ^ 32

theorem RentPeriod_t.seconds_le (period : RentPeriod_t) : period.seconds ≤ 365 * 86400 := by
  cases period <;> decide

theorem RentPeriod_t.seconds_pos {period : RentPeriod_t} (h : period ≠ .RENTPERIOD_NEVER) :
    0 < period.seconds := by
  cases period
  case RENTPERIOD_NEVER => exact absurd rfl h
  all_goals decide

/-- A payment is at least a period after the last one. -/
theorem HouseBooks.pay {paid warned : List ℕ} (h : HouseBooks cfg house paid warned)
    (howner : house.owner ≠ 0) (huntil : ∀ t ∈ paid.head?, t + cfg.rentPeriod.seconds ≤ time)
    (htime : InTime time) : HouseBooks cfg
      { house with paidUntil := (time + cfg.rentPeriod.seconds) % 2 ^ 32 } (time :: paid) warned where
  paid_spaced := List.isChain_cons.mpr ⟨huntil, h.paid_spaced⟩
  paidUntil := by
    intro t ht
    cases ht
    have hle := cfg.rentPeriod.seconds_le
    unfold InTime at htime
    exact Nat.mod_eq_of_lt (by omega)
  warned_spaced := h.warned_spaced
  lastWarning := h.lastWarning
  count := h.count
  limit := h.limit
  vacant hvacant := absurd hvacant howner

theorem HouseBooks.warn {paid warned : List ℕ} (h : HouseBooks cfg house paid warned)
    (howner : house.owner ≠ 0) (hday : house.lastWarning + 86400 ≤ time)
    (hlimit : house.rentWarnings < cfg.rentPeriod.warningsLimit) : HouseBooks cfg
      { house with rentWarnings := house.rentWarnings + 1, lastWarning := time } paid
      (time :: warned) where
  paid_spaced := h.paid_spaced
  paidUntil := h.paidUntil
  warned_spaced := by
    refine List.isChain_cons.mpr ⟨fun t ht => ?_, h.warned_spaced⟩
    rw [← h.lastWarning t ht]
    exact hday
  lastWarning := by
    intro t ht
    cases ht
    rfl
  count := congrArg (· + 1) h.count
  limit := by
    rw [h.count] at hlimit
    exact hlimit
  vacant hvacant := absurd hvacant howner

omit [DecidableEq H] in
theorem sendWarning_frame (env : Surroundings D) (s : State H D) (guid : ℕ)
    (account : Account D) (isVirtual : Bool) (text : String) :
    (s.sendWarning env guid account isVirtual text).houses = s.houses ∧
      (s.sendWarning env guid account isVirtual text).paid = s.paid ∧
      (s.sendWarning env guid account isVirtual text).warned = s.warned ∧
      (s.sendWarning env guid account isVirtual text).lost = s.lost := by
  unfold State.sendWarning State.setOnline
  split
  · exact ⟨rfl, rfl, rfl, rfl⟩
  split_ifs <;> exact ⟨rfl, rfl, rfl, rfl⟩

theorem Books.warnOwner (h : Books cfg s) (howner : (s.houses k).owner ≠ 0)
    (account : Account D) (isVirtual : Bool) :
    Books cfg (s.warnOwner cfg env k guid account isVirtual time) := by
  have hk := h.house k
  unfold State.warnOwner
  dsimp only
  split
  · exact h
  next hday =>
  split
  next hlimit =>
    obtain ⟨hhouses, hpaid, hwarned, hlost⟩ := sendWarning_frame env s guid account isVirtual
      (warning cfg (s.houses k) (s.houses k).rentWarnings)
    refine h.of_house (k := k) (fun j hj => ?_) ?_ ?_
    · dsimp only [State.setHouse]
      rw [hhouses, hpaid, Function.update_of_ne hj, Function.update_of_ne hj]
      exact ⟨rfl, rfl, rfl⟩
    · dsimp only [State.setHouse]
      rw [hpaid, Function.update_self, Function.update_self]
      exact hk.warn howner (Nat.le_of_not_lt hday) hlimit
    · dsimp only [State.setHouse]
      rw [hlost]
      exact h.lost
  next hlimit =>
    have hgiven : Books cfg (s.setOwnerEx env k 0 time) := h.setOwnerEx k 0 time
    refine ⟨hgiven.house, fun e he => ?_⟩
    rcases List.mem_cons.mp he with rfl | he
    · refine ⟨Nat.le_antisymm hk.limit ?_, ?_⟩
      · rw [← hk.count]
        exact Nat.le_of_not_lt hlimit
      · refine List.isChain_cons.mpr ⟨fun t ht => ?_, hk.warned_spaced⟩
        rw [← hk.lastWarning t ht]
        exact Nat.le_of_not_lt hday
    · exact h.lost e he

omit [DecidableEq H] in
theorem Books.setOnline (h : Books cfg s) (guid : ℕ) (account : Account D) (isVirtual : Bool) :
    Books cfg (s.setOnline guid account isVirtual) := by
  unfold State.setOnline
  split
  · exact h
  · exact ⟨h.house, h.lost⟩

/-- A payment is entered in the books of its house. -/
theorem Books.pay (h : Books cfg s) {house : House}
    (hk : HouseBooks cfg house (time :: s.paid k) (s.warned k)) :
    Books cfg { s.setHouse k house with paid := Function.update s.paid k (time :: s.paid k) } := by
  refine h.of_house (k := k) (fun j hj => ?_) ?_ h.lost
  · exact ⟨Function.update_of_ne hj _ _, Function.update_of_ne hj _ _, rfl⟩
  · dsimp only [State.setHouse]
    rw [Function.update_self, Function.update_self]
    exact hk

omit [DecidableEq H] in
theorem setOnline_frame (s : State H D) (guid : ℕ) (account : Account D) (isVirtual : Bool) :
    (s.setOnline guid account isVirtual).paid = s.paid ∧
      (s.setOnline guid account isVirtual).warned = s.warned := by
  unfold State.setOnline
  split <;> exact ⟨rfl, rfl⟩

theorem Books.payHouse (h : Books cfg s) (htime : InTime time) :
    Books cfg (s.payHouse cfg env k time bid) := by
  have hk := h.house k
  have hchecked := checked_payHouse cfg env s k time bid
  generalize s.payHouse cfg env k time bid = t at hchecked ⊢
  cases hchecked with
  | idle => exact h
  | cleaned => exact h.setOwnerEx k 0 time
  | due _ _ hdue => exact h.warnOwner (payRent_due hdue).1 _ _
  | @paid guid account isVirtual account' house _ _ hpaid =>
    obtain ⟨-, howner, huntil, -, rfl⟩ := payRent_paid hpaid
    obtain ⟨hsame, hwarned⟩ := setOnline_frame s guid account' isVirtual
    have hbooks := h.setOnline guid account' isVirtual
    rw [ite_self, ← hsame]
    apply hbooks.pay
    rw [hsame, hwarned]
    refine hk.pay howner (fun t ht => ?_) htime
    rw [← hk.paidUntil t ht]
    exact huntil

theorem Books.preRent (h : Books cfg s) (htime : InTime now) :
    Books cfg (s.preRent cfg env k guid now) := by
  have hk := h.house k
  unfold State.preRent
  split
  · exact h
  next account _ =>
  split
  next account' house hpaid =>
    obtain ⟨hperiod, howner, huntil, -, rfl⟩ := payRent_paid hpaid
    obtain ⟨hsame, hwarned⟩ := setOnline_frame s guid account' false
    have hbooks := h.setOnline guid account' false
    rw [if_pos rfl, ← hsame]
    apply hbooks.pay
    rw [hsame, hwarned]
    refine hk.pay howner (fun t ht => ?_) htime
    -- whoever has paid before is paid up to a time after the beginning of all times
    have hlast := hk.paidUntil t ht
    have hpos := RentPeriod_t.seconds_pos hperiod
    omega
  · exact h

/-- No sum of times overflows, and no house is auctioned to nobody. -/
def Allowed (_ : State H D) : Action H D → Prop
  | .payHouse _ time => InTime time
  | .auction _ guid time _ => guid ≠ 0 ∧ InTime time
  | .preRent _ _ now => InTime now
  | _ => True

theorem Books.step (h : Books cfg s) {a : Action H D} (ha : Allowed s a) :
    Books cfg (s.step cfg env a) := by
  cases a with
  | payHouse k time => exact h.payHouse ha
  | auction k guid time bid =>
    have hk := h.house k
    have hgiven : Books cfg (s.setHouse k { s.houses k with owner := guid }) := by
      refine h.of_house (k := k) (fun j hj => ⟨Function.update_of_ne hj _ _, rfl, rfl⟩) ?_ h.lost
      dsimp only [State.setHouse]
      rw [Function.update_self]
      exact { hk with vacant := fun hvacant => absurd hvacant ha.1 }
    exact hgiven.payHouse ha.2
  | setOwnerEx k guid now => exact h.setOwnerEx k guid now
  | preRent k guid now => exact h.preRent ha
  | login guid => exact ⟨h.house, h.lost⟩
  | play guid account => exact ⟨h.house, h.lost⟩
  | save guid => exact ⟨h.house, h.lost⟩
  | logout guid => exact ⟨h.house, h.lost⟩

/-- Nothing has been paid and nobody has been warned yet. -/
def init (s : State H D) : Prop :=
  s.lost = [] ∧ ∀ k, s.paid k = [] ∧ s.warned k = [] ∧ (s.houses k).rentWarnings = 0

def system (cfg : Config) (env : Surroundings D) : System (State H D) (Action H D) :=
  .ofStep init fun s a => some (s.step cfg env a)

theorem reachable_books (h : ((system cfg env).restrict Allowed).Reachable s) : Books cfg s := by
  refine h.invariant (Books cfg) ?_ ?_
  · rintro s ⟨hlost, hnone⟩
    refine ⟨fun k => ?_, fun e he => ?_⟩
    · obtain ⟨hpaid, hwarned, hzero⟩ := hnone k
      rw [hpaid, hwarned]
      exact houseBooks_nil cfg hzero
    · rw [hlost] at he
      cases he
  · rintro s a t hs ⟨ha, ht⟩
    cases ht
    exact hs.step ha

/-- The rent of a house is not taken twice within a period, however often and whenever the houses are
checked. -/
theorem paid_spaced (h : ((system cfg env).restrict Allowed).Reachable s) (k : H) :
    (s.paid k).IsChain fun later earlier => earlier + cfg.rentPeriod.seconds ≤ later :=
  ((reachable_books h).house k).paid_spaced

/-- A house is lost for its rent after all the warnings of its period, a day or more apart. -/
theorem lost_warned (h : ((system cfg env).restrict Allowed).Reachable s) {warned : List ℕ}
    (hlost : (time, warned) ∈ s.lost) : warned.length = cfg.rentPeriod.warningsLimit ∧
      (time :: warned).IsChain fun later earlier => earlier + 86400 ≤ later :=
  (reachable_books h).lost _ hlost

/-! ### A mill -/

def daily : Config := ⟨.RENTPERIOD_DAILY, true, 0⟩

/-- Depots that hold letters and no money. -/
def letters : Surroundings (List String) where
  removeMoney _ _ := none
  addLetter depot text := some (text :: depot)
  swapGuildIdToOwner := some
  getGuildId := some
  hasName _ := true

/-- The house of a character who is not in the game. -/
def mill (balance : ℕ) : State Unit (List String) where
  houses _ := ⟨"Mill", false, true, 5, 100, 0, 0, 0⟩
  online _ := none
  stored guid := if guid = 5 then some ⟨balance, [], 0, false⟩ else none
  paid _ := []
  warned _ := []
  lost := []

theorem reachable_mill (balance first second : ℕ) (hfirst : InTime first)
    (hsecond : InTime second) : ((system daily letters).restrict Allowed).Reachable
      (((mill balance).payHouse daily letters () first 0).payHouse daily letters () second 0) := by
  have hinit : ((system daily letters).restrict Allowed).Reachable (mill balance) :=
    .init ⟨rfl, fun _ => ⟨rfl, rfl, rfl⟩⟩
  have hpaid := reachable_restrict_step hinit (.payHouse () first) hfirst rfl
  exact reachable_restrict_step hpaid (.payHouse () second) hsecond rfl

theorem paid_spaced_mill :
    let s := ((mill 250).payHouse daily letters () 1000 0).payHouse daily letters () 90000 0
    s.paid () = [90000, 1000] ∧
      (s.paid ()).IsChain fun later earlier => earlier + daily.rentPeriod.seconds ≤ later :=
  ⟨rfl, paid_spaced (reachable_mill 250 1000 90000 (by unfold InTime; decide)
    (by unfold InTime; decide)) ()⟩

theorem lost_warned_mill :
    let s := ((mill 50).payHouse daily letters () 90000 0).payHouse daily letters () 180000 0
    s.lost = [(180000, [90000])] ∧ [90000].length = daily.rentPeriod.warningsLimit ∧
      [180000, 90000].IsChain fun later earlier => earlier + 86400 ≤ later :=
  ⟨rfl, lost_warned (reachable_mill 50 90000 180000 (by unfold InTime; decide)
    (by unfold InTime; decide)) List.mem_cons_self⟩

end TyanoCore.HouseRent
