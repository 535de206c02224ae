import Mathlib.Data.Int.Notation
import Mathlib.Data.List.Basic
import Mathlib.Logic.Function.Basic

/-!
# Counting login attempts

The manager of connections keeps for each address the amount of logins, the last of them and its
protocol.  It only turns an address down at a protocol other than the last one, so whoever keeps to the
login protocol is never turned down.
-/

namespace TyanoCore

structure LoginBlock where
  lastLogin : ℤ
  lastProtocol : ℤ
  loginsAmount : ℤ

/-- The numbers of the configuration; the timeouts are milliseconds. -/
structure LoginLimits where
  loginTries : ℤ
  retryTimeout : ℤ
  loginTimeout : ℤ

abbrev IpLoginMap := ℕ → Option LoginBlock

namespace IpLoginMap

/-- `isDisabled`. -/
def isDisabled (limits : LoginLimits) (ipLoginMap : IpLoginMap) (now : ℤ) (clientIp : ℕ)
    (protocolId : ℤ) : Bool :=
  if limits.loginTries = 0 ∨ clientIp = 0 then false
  else
    match ipLoginMap clientIp with
    | none => false
    | some block =>
      block.lastProtocol ≠ protocolId && limits.loginTries < block.loginsAmount &&
        now < block.lastLogin + limits.loginTimeout.tdiv 1000

/-- `addAttempt`. -/
def addAttempt (limits : LoginLimits) (ipLoginMap : IpLoginMap) (now : ℤ) (clientIp : ℕ)
    (protocolId : ℤ) (success : Bool) : IpLoginMap :=
  if clientIp = 0 then ipLoginMap
  else
    let block := (ipLoginMap clientIp).getD ⟨0, 0, 0⟩
    let loginsAmount := if limits.loginTries < block.loginsAmount then 0 else block.loginsAmount
    let counted := !success || now < block.lastLogin + limits.retryTimeout.tdiv 1000
    Function.update ipLoginMap clientIp <| some
      { lastLogin := now, lastProtocol := protocolId,
        loginsAmount := if counted then loginsAmount + 1 else 0 }

end IpLoginMap

/-- What becomes of an attempt that is not turned down: the name or the password is wrong, it ends
without being counted (a ban, no characters), or the characters are listed. -/
inductive LoginOutcome
  | wrong
  | ended
  | accepted

structure LoginAttempt where
  time : ℤ
  outcome : LoginOutcome

namespace ProtocolLogin

def protocolId : ℤ := 0x01

/-- The part of `parseFirstPacket` about attempts; whether the attempt gets past `isDisabled`. -/
def parseFirstPacket (limits : LoginLimits) (clientIp : ℕ) (ipLoginMap : IpLoginMap)
    (attempt : LoginAttempt) : IpLoginMap × Bool :=
  if ipLoginMap.isDisabled limits attempt.time clientIp protocolId then (ipLoginMap, false)
  else
    match attempt.outcome with
    | .wrong => (ipLoginMap.addAttempt limits attempt.time clientIp protocolId false, true)
    | .ended => (ipLoginMap, true)
    | .accepted => (ipLoginMap.addAttempt limits attempt.time clientIp protocolId true, true)

/-- The attempts that get past `isDisabled`. -/
def past (limits : LoginLimits) (clientIp : ℕ) : IpLoginMap → List LoginAttempt → List LoginAttempt
  | _, [] => []
  | ipLoginMap, attempt :: attempts =>
    match parseFirstPacket limits clientIp ipLoginMap attempt with
    | (ipLoginMap, true) => attempt :: past limits clientIp ipLoginMap attempts
    | (ipLoginMap, false) => past limits clientIp ipLoginMap attempts

/-- The attempts within the `LOGIN_TIMEOUT` that begins at a time. -/
def within (limits : LoginLimits) (start : ℤ) (attempts : List LoginAttempt) : List LoginAttempt :=
  attempts.filter fun attempt =>
    start ≤ attempt.time && attempt.time < start + limits.loginTimeout.tdiv 1000

/-- Of the attempts from an address nobody has tried before, few get past within any timeout. -/
def Throttled (limits : LoginLimits) (clientIp : ℕ) (others : IpLoginMap)
    (attempts : List LoginAttempt) : Prop :=
  ∀ start, ((within limits start
    (past limits clientIp (Function.update others clientIp none) attempts)).length : ℤ) ≤
      limits.loginTries + 1

variable {limits : LoginLimits} {clientIp : ℕ} {ipLoginMap : IpLoginMap}

/-- The address has only been seen at the login protocol. -/
def OnlyHere (ipLoginMap : IpLoginMap) (clientIp : ℕ) : Prop :=
  ∀ block, ipLoginMap clientIp = some block → block.lastProtocol = protocolId

theorem OnlyHere.not_disabled (h : OnlyHere ipLoginMap clientIp) (now : ℤ) :
    ipLoginMap.isDisabled limits now clientIp protocolId = false := by
  rw [IpLoginMap.isDisabled]
  split
  · rfl
  · cases hblock : ipLoginMap clientIp with
    | none => rfl
    | some block =>
      have hlast := h block hblock
      simp [hlast]

theorem onlyHere_addAttempt (h : OnlyHere ipLoginMap clientIp) (now : ℤ) (success : Bool) :
    OnlyHere (ipLoginMap.addAttempt limits now clientIp protocolId success) clientIp := by
  intro block hblock
  rw [IpLoginMap.addAttempt] at hblock
  split at hblock
  · exact h block hblock
  · rw [Function.update_self] at hblock
    exact (congrArg LoginBlock.lastProtocol (Option.some.inj hblock)).symm

/-- An attempt gets past and leaves the address with its protocol. -/
theorem OnlyHere.step (limits : LoginLimits) (h : OnlyHere ipLoginMap clientIp)
    (attempt : LoginAttempt) :
    ∃ ipLoginMap', parseFirstPacket limits clientIp ipLoginMap attempt = (ipLoginMap', true) ∧
      OnlyHere ipLoginMap' clientIp := by
  rw [parseFirstPacket, h.not_disabled]
  cases attempt.outcome with
  | wrong => exact ⟨_, rfl, onlyHere_addAttempt h _ _⟩
  | ended => exact ⟨_, rfl, h⟩
  | accepted => exact ⟨_, rfl, onlyHere_addAttempt h _ _⟩

theorem OnlyHere.past_eq (h : OnlyHere ipLoginMap clientIp) (attempts : List LoginAttempt) :
    past limits clientIp ipLoginMap attempts = attempts := by
  induction attempts generalizing ipLoginMap with
  | nil => rfl
  | cons attempt attempts ih =>
    obtain ⟨ipLoginMap', hstep, h'⟩ := h.step limits attempt
    rw [past, hstep]
    exact congrArg (List.cons attempt) (ih h')

/-- Nobody is ever turned down: the attempts that get past are few exactly where those made are. -/
theorem throttled_iff (limits : LoginLimits) (clientIp : ℕ) (others : IpLoginMap)
    (attempts : List LoginAttempt) : Throttled limits clientIp others attempts ↔
      ∀ start, ((within limits start attempts).length : ℤ) ≤ limits.loginTries + 1 := by
  have hnew : OnlyHere (Function.update others clientIp none) clientIp := by
    intro block hblock
    rw [Function.update_self] at hblock
    exact absurd hblock (Option.some_ne_none block).symm
  rw [Throttled, hnew.past_eq]

/-- Five wrong passwords in one second, with three tries allowed: all of them are checked. -/
theorem five_guesses_not_throttled :
    ¬ Throttled ⟨3, 30000, 5000⟩ 0x7F000001 (fun _ => none) (List.replicate 5 ⟨0, .wrong⟩) := by
  intro h
  exact absurd (h 0) (by decide)

end ProtocolLogin

end TyanoCore
