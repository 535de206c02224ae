import Mathlib.Data.Int.Notation
import TyanoCore.Run

/-!
# Taking a connection down

A connection is closed by a task of the dispatcher, which waits for a write that is in flight, and is
released when no message refers to it any more.  Its handlers run one at a time under its lock; a handler
of a timer that has expired may still be on its way when the timer is cancelled.
-/

namespace TyanoCore

inductive ConnectionState
  | stateOpen
  | requestClose
  | closing
  | closed
  deriving DecidableEq

/-- `m_socket` with what it answers to `is_open`; a deleted socket is null. -/
inductive SocketState
  | opened
  | closed
  | deleted
  deriving DecidableEq

/-- What a read in flight is for. -/
inductive ReadPhase
  | header
  | packet
  deriving DecidableEq

/-- The handlers tell an operation that was aborted from all other errors. -/
inductive IoError
  | operationAborted
  | other
  deriving DecidableEq

/-- A connection with its operations in flight, the handlers of its timers that are on their way, the
messages that refer to it, and the tasks about it. -/
structure Connection where
  connectionState : ConnectionState
  protocol : Bool
  receivedFirst : Bool
  socket : SocketState
  readError : Bool
  writeError : Bool
  pendingRead : ℤ
  pendingWrite : ℤ
  refCount : ℕ
  reading : Option ReadPhase
  writing : ℕ
  readWait : Bool
  writeWait : Bool
  readExpired : ℕ
  writeExpired : ℕ
  held : ℕ
  releasing : ℕ
  closeTasks : ℕ
  releaseTasks : ℕ
  stopTasks : ℕ
  deletions : ℕ
  nullDeref : Bool

/-- What a protocol and the pool do to a connection. -/
inductive ProtocolCall
  | getOutputMessage
  | send (forceCloseSlowConnection : Bool)
  | releaseMessage
  | close

namespace Connection

/-- `*m_socket`. -/
def touchSocket (c : Connection) : Connection :=
  if c.socket = .deleted then { c with nullDeref := true } else c

def close (c : Connection) : Connection :=
  if c.connectionState = .closed ∨ c.connectionState = .requestClose then c
  else { c with connectionState := .requestClose, closeTasks := c.closeTasks + 1 }

def closeSocket (c : Connection) : Connection :=
  let c := c.touchSocket
  if c.socket = .opened then { c with pendingRead := 0, pendingWrite := 0, socket := .closed } else c

/-- `deleteConnection`, which asks the service to run `onStop`. -/
def deleteConnection (c : Connection) : Connection :=
  { c with deletions := c.deletions + 1, stopTasks := c.stopTasks + 1 }

def releaseConnection (c : Connection) : Connection :=
  if 0 < c.refCount then { c with releaseTasks := c.releaseTasks + 1 } else c.deleteConnection

def closeConnection (c : Connection) : Connection :=
  if c.connectionState ≠ .requestClose then c
  else
    let c := { c with protocol := false, connectionState := .closing }
    if c.pendingWrite = 0 ∨ c.writeError then
      { c.closeSocket.releaseConnection with connectionState := .closed }
    else c

def onStop (c : Connection) : Connection :=
  { c.touchSocket with readWait := false, writeWait := false, socket := .deleted }

/-- The timer is set and the next read is started. -/
def startRead (c : Connection) (phase : ReadPhase) : Connection :=
  { c.touchSocket with pendingRead := c.pendingRead + 1, readWait := true, reading := some phase }

def accept (c : Connection) : Connection := c.startRead .header

def handleReadError (c : Connection) (error : Option IoError) : Connection :=
  { (if error = some .operationAborted then c else c.close) with readError := true }

def handleWriteError (c : Connection) (error : IoError) : Connection :=
  { (if error = .operationAborted then c else c.close) with writeError := true }

def internalSend (c : Connection) : Connection :=
  { c.touchSocket with
    pendingWrite := c.pendingWrite + 1, writeWait := true, held := c.held - 1, writing := c.writing + 1 }

/-- `send` of a message that is held; it stays held where it is not sent. -/
def send (c : Connection) (forceCloseSlowConnection : Bool) : Connection :=
  if c.connectionState ≠ .stateOpen ∨ c.writeError then c
  else if c.pendingWrite = 0 then c.internalSend
  else if 100 < c.pendingWrite ∧ forceCloseSlowConnection then c.close
  else c

/-- Messages are handed out as long as the protocol has the connection. -/
def call (c : Connection) : ProtocolCall → Connection
  | .getOutputMessage =>
    if c.protocol then { c with held := c.held + 1, refCount := c.refCount + 1 } else c
  | .send forceCloseSlowConnection => if 0 < c.held then c.send forceCloseSlowConnection else c
  | .releaseMessage =>
    if 0 < c.held then { c with held := c.held - 1, releasing := c.releasing + 1 } else c
  | .close => c.close

/-- `handle` with what the protocol does in `onConnect`. -/
def handle (c : Connection) (calls : List ProtocolCall) : Connection :=
  (calls.foldl call { c with protocol := true }).accept

def parseHeader (c : Connection) (error : Option IoError) (badSize : Bool) : Connection :=
  let c := { c with readWait := false, reading := none }
  let c := if error.isSome || badSize then c.handleReadError error else c
  if c.connectionState ≠ .stateOpen ∨ c.readError then c.close
  else { c with pendingRead := c.pendingRead - 1 }.startRead .packet

/-- `parsePacket` with whether a protocol is made and with what the protocol does. -/
def parsePacket (c : Connection) (error : Option IoError) (makeProtocol : Bool)
    (calls : List ProtocolCall) : Connection :=
  let c := { c with readWait := false, reading := none }
  let c := if error.isSome then c.handleReadError error else c
  if c.connectionState ≠ .stateOpen ∨ c.readError then c.close
  else
    let c := { c with pendingRead := c.pendingRead - 1 }
    if !c.receivedFirst && !c.protocol && !makeProtocol then { c with receivedFirst := true }.close
    else
      let c := if c.receivedFirst then c else { c with receivedFirst := true, protocol := true }
      (calls.foldl call c).startRead .header

/-- Afterwards the message is released. -/
def onWrite (c : Connection) (error : Option IoError) : Connection :=
  let c := { c with writeWait := false, writing := c.writing - 1, releasing := c.releasing + 1 }
  let c := match error with
    | some error => c.handleWriteError error
    | none => c
  if c.connectionState ≠ .stateOpen ∨ c.writeError then c.closeSocket.close
  else { c with pendingWrite := c.pendingWrite - 1 }

def onReadTimeout (c : Connection) : Connection :=
  if 0 < c.pendingRead ∨ c.readError then c.closeSocket.close else c

def onWriteTimeout (c : Connection) : Connection :=
  if 0 < c.pendingWrite ∨ c.writeError then c.closeSocket.close else c

/-- The manager, operations in flight, messages and the protocol keep the connection alive. -/
def Alive (c : Connection) : Prop :=
  c.socket ≠ .deleted ∨ c.reading ≠ none ∨ 0 < c.writing ∨ 0 < c.refCount ∨ c.protocol

instance (c : Connection) : Decidable c.Alive := inferInstanceAs (Decidable (_ ∨ _))

/-- The handlers of the timers have only weak pointers. -/
def handleReadTimeout (c : Connection) : Connection := if c.Alive then c.onReadTimeout else c

def handleWriteTimeout (c : Connection) : Connection := if c.Alive then c.onWriteTimeout else c

/-- `internalReleaseMessage` of a message of the connection. -/
def internalReleaseMessage (c : Connection) : Connection :=
  { c with refCount := c.refCount - 1, releasing := c.releasing - 1 }

end Connection

/-- What happens to a connection. -/
inductive ConnectionAction
  | parseHeader (error : Option IoError) (badSize : Bool)
  | parsePacket (error : Option IoError) (makeProtocol : Bool) (calls : List ProtocolCall)
  | onWrite (error : Option IoError)
  | readTimerExpires
  | writeTimerExpires
  | handleReadTimeout
  | handleWriteTimeout
  | call (call : ProtocolCall)
  | closeConnection
  | releaseConnection
  | internalReleaseMessage
  | onStop

namespace Connection

/-- An action where it is possible. -/
def act (c : Connection) : ConnectionAction → Option Connection
  | .parseHeader error badSize =>
    if c.reading = some .header then some (c.parseHeader error badSize) else none
  | .parsePacket error makeProtocol calls =>
    if c.reading = some .packet then some (c.parsePacket error makeProtocol calls) else none
  | .onWrite error => if 0 < c.writing then some (c.onWrite error) else none
  | .readTimerExpires =>
    if c.readWait then some { c with readWait := false, readExpired := c.readExpired + 1 } else none
  | .writeTimerExpires =>
    if c.writeWait then some { c with writeWait := false, writeExpired := c.writeExpired + 1 } else none
  | .handleReadTimeout =>
    if 0 < c.readExpired then some { c with readExpired := c.readExpired - 1 }.handleReadTimeout
    else none
  | .handleWriteTimeout =>
    if 0 < c.writeExpired then some { c with writeExpired := c.writeExpired - 1 }.handleWriteTimeout
    else none
  | .call call => some (c.call call)
  | .closeConnection =>
    if 0 < c.closeTasks then some { c with closeTasks := c.closeTasks - 1 }.closeConnection else none
  | .releaseConnection =>
    if 0 < c.releaseTasks then some { c with releaseTasks := c.releaseTasks - 1 }.releaseConnection
    else none
  | .internalReleaseMessage => if 0 < c.releasing then some c.internalReleaseMessage else none
  | .onStop => if 0 < c.stopTasks then some { c with stopTasks := c.stopTasks - 1 }.onStop else none

/-- Nothing happens after a null pointer was dereferenced. -/
def step (c : Connection) (a : ConnectionAction) : Option Connection :=
  if c.nullDeref then none else c.act a

/-- A connection that has been created. -/
def created : Connection where
  connectionState := .stateOpen
  protocol := false
  receivedFirst := false
  socket := .opened
  readError := false
  writeError := false
  pendingRead := 0
  pendingWrite := 0
  refCount := 0
  reading := none
  writing := 0
  readWait := false
  writeWait := false
  readExpired := 0
  writeExpired := 0
  held := 0
  releasing := 0
  closeTasks := 0
  releaseTasks := 0
  stopTasks := 0
  deletions := 0
  nullDeref := false

/-- A connection begins with a read, a game connection with what the protocol does first. -/
def Begun (c : Connection) : Prop := c = created.accept ∨ ∃ calls, c = created.handle calls

def system : Transition.System Connection ConnectionAction := .ofStep Begun step

/-! ## What holds in every run -/

/-- The task that closes waits when it has been requested; a connection that is not open has no pending
operation once its socket is closed; a message that refers to the connection keeps it from being
deleted, and after it was deleted once nothing is left that could delete it again. -/
structure Sound (c : Connection) : Prop where
  closeTasks_eq : c.closeTasks = if c.connectionState = .requestClose then 1 else 0
  shut : c.socket ≠ .opened →
    c.connectionState ≠ .stateOpen ∧ c.pendingRead = 0 ∧ c.pendingWrite = 0
  protocol : c.protocol = true → c.connectionState = .stateOpen ∨ c.connectionState = .requestClose
  readError : c.readError = true → c.reading = none
  closed : c.connectionState = .closed → c.socket ≠ .opened ∧ c.releaseTasks + c.deletions = 1
  unreleased : c.connectionState ≠ .closed → c.releaseTasks = 0 ∧ c.deletions = 0
  deletions_eq : c.deletions = c.stopTasks + if c.socket = .deleted then 1 else 0
  refCount_eq : c.refCount = c.held + c.writing + c.releasing
  released : 0 < c.deletions → c.refCount = 0

variable {c : Connection}

theorem sound_created : created.Sound := by
  refine ⟨rfl, ?_, ?_, ?_, ?_, fun _ => ⟨rfl, rfl⟩, rfl, rfl, fun _ => rfl⟩
  · intro h
    exact absurd rfl h
  · intro h
    cases h
  · intro h
    cases h
  · intro h
    cases h

/-- A socket is deleted only after the connection was. -/
theorem Sound.not_deleted (h : c.Sound) (hdeletions : c.deletions = 0) : c.socket ≠ .deleted := by
  intro hdeleted
  have heq := h.deletions_eq
  rw [hdeleted, if_pos rfl] at heq
  omega

theorem touchSocket_of_ne (h : c.socket ≠ .deleted) : c.touchSocket = c := if_neg h

theorem Sound.deletions_eq_zero (h : c.Sound) (href : 0 < c.refCount) : c.deletions = 0 := by
  by_contra hne
  have hzero := h.released (Nat.pos_of_ne_zero hne)
  omega

/-- Closing only asks for the task. -/
theorem Sound.close (h : c.Sound) : c.close.Sound := by
  rw [Connection.close]
  split
  · exact h
  · next hstate =>
    have hne : c.connectionState ≠ .closed ∧ c.connectionState ≠ .requestClose := not_or.mp hstate
    have hzero : c.closeTasks = 0 := by
      rw [h.closeTasks_eq, if_neg hne.2]
    refine ⟨?_, ?_, ?_, h.readError, ?_, ?_, h.deletions_eq, h.refCount_eq, h.released⟩
    · show c.closeTasks + 1 = 1
      rw [hzero]
    · intro hsocket
      obtain ⟨-, hpending⟩ := h.shut hsocket
      exact ⟨nofun, hpending⟩
    · intro _
      exact .inr rfl
    · intro hclosed
      cases hclosed
    · intro _
      exact h.unreleased hne.1

theorem closeSocket_of_deleted (h : c.socket = .deleted) :
    c.closeSocket = { c with nullDeref := true } := by
  rw [closeSocket, touchSocket, if_pos h]
  apply if_neg
  show ¬ c.socket = .opened
  rw [h]
  decide

/-- Of a socket that is there, what is left is closed. -/
theorem Sound.closeSocket_eq (h : c.Sound) (hnot : c.socket ≠ .deleted) :
    c.closeSocket = { c with pendingRead := 0, pendingWrite := 0, socket := .closed } := by
  rw [closeSocket, touchSocket_of_ne hnot]
  split
  · rfl
  · next hopen =>
    obtain ⟨-, hread, hwrite⟩ := h.shut hopen
    have hclosed : c.socket = .closed := by
      cases hsocket : c.socket with
      | opened => exact absurd hsocket hopen
      | closed => rfl
      | deleted => exact absurd hsocket hnot
    cases c
    dsimp only at hread hwrite hclosed
    rw [hread, hwrite, hclosed]

/-- The socket is closed and the connection with it; a deleted socket is missed. -/
theorem Sound.closeSocket_close (h : c.Sound) : c.closeSocket.close.Sound := by
  by_cases hdeleted : c.socket = .deleted
  · rw [closeSocket_of_deleted hdeleted]
    apply Sound.close
    exact ⟨h.closeTasks_eq, h.shut, h.protocol, h.readError, h.closed, h.unreleased, h.deletions_eq,
      h.refCount_eq, h.released⟩
  · rw [h.closeSocket_eq hdeleted]
    have hdeletions := h.deletions_eq
    rw [if_neg hdeleted] at hdeletions
    rw [Connection.close]
    split
    · next hstate =>
      refine ⟨h.closeTasks_eq, ?_, h.protocol, h.readError, ?_, h.unreleased, hdeletions,
        h.refCount_eq, h.released⟩
      · intro _
        refine ⟨?_, rfl, rfl⟩
        intro hopen
        rw [hopen] at hstate
        cases hstate with
        | inl hclosed => cases hclosed
        | inr hrequest => cases hrequest
      · intro hclosed
        exact ⟨nofun, (h.closed hclosed).2⟩
    · next hstate =>
      have hne : c.connectionState ≠ .closed ∧ c.connectionState ≠ .requestClose :=
        not_or.mp hstate
      refine ⟨?_, fun _ => ⟨nofun, rfl, rfl⟩, fun _ => .inr rfl, h.readError, nofun,
        fun _ => h.unreleased hne.1, hdeletions, h.refCount_eq, h.released⟩
      show c.closeTasks + 1 = 1
      rw [h.closeTasks_eq, if_neg hne.2]

/-- The task that closes runs; where nothing is written any more the connection is released. -/
theorem Sound.closeConnection (h : c.Sound) (htasks : 0 < c.closeTasks) :
    let t := ({ c with closeTasks := c.closeTasks - 1 } : Connection).closeConnection
    t.Sound ∧ t.nullDeref = c.nullDeref := by
  -- the task was sent when closing was requested, and only once
  have hstate : c.connectionState = .requestClose := by
    by_contra hne
    have heq := h.closeTasks_eq
    rw [if_neg hne] at heq
    omega
  have hone : c.closeTasks - 1 = 0 := by
    rw [h.closeTasks_eq, if_pos hstate]
  have hnot : c.connectionState ≠ .closed := by
    rw [hstate]
    decide
  obtain ⟨hrelease, hdeletions⟩ := h.unreleased hnot
  have hsocket := h.not_deleted hdeletions
  have hstop : c.stopTasks = 0 := by
    have heq := h.deletions_eq
    omega
  -- the protocol is let go first
  have hclosing : ({ c with
      closeTasks := c.closeTasks - 1, protocol := false, connectionState := .closing } :
        Connection).Sound := by
    refine ⟨hone, ?_, nofun, h.readError, nofun, fun _ => ⟨hrelease, hdeletions⟩, h.deletions_eq,
      h.refCount_eq, h.released⟩
    intro hshut
    exact ⟨nofun, (h.shut hshut).2⟩
  rw [Connection.closeConnection, if_neg (not_not_intro hstate)]
  dsimp only
  split
  · rw [hclosing.closeSocket_eq hsocket, Connection.releaseConnection]
    split
    · next href =>
      -- messages hold the connection, and its release is tried again
      refine ⟨?_, rfl⟩
      refine ⟨hone, fun _ => ⟨nofun, rfl, rfl⟩, nofun, h.readError, ?_, fun hne => absurd rfl hne,
        ?_, h.refCount_eq, h.released⟩
      · intro _
        refine ⟨nofun, ?_⟩
        show c.releaseTasks + 1 + c.deletions = 1
        rw [hrelease, hdeletions]
      · show c.deletions = c.stopTasks + 0
        rw [hdeletions, hstop]
    · next href =>
      -- nobody holds it, and it is deleted
      have hzero : c.refCount = 0 := Nat.eq_zero_of_not_pos href
      refine ⟨?_, rfl⟩
      refine ⟨hone, fun _ => ⟨nofun, rfl, rfl⟩, nofun, h.readError, ?_, fun hne => absurd rfl hne,
        ?_, h.refCount_eq, fun _ => hzero⟩
      · intro _
        refine ⟨nofun, ?_⟩
        show c.releaseTasks + (c.deletions + 1) = 1
        rw [hrelease, hdeletions]
      · show c.deletions + 1 = c.stopTasks + 1 + 0
        rw [hdeletions, hstop]
  · exact ⟨hclosing, rfl⟩

/-- A connection that waits for its messages asks again, or is deleted when there is none. -/
theorem Sound.releaseConnection (h : c.Sound) (htasks : 0 < c.releaseTasks) :
    ({ c with releaseTasks := c.releaseTasks - 1 } : Connection).releaseConnection.Sound := by
  have hclosed : c.connectionState = .closed := by
    by_contra hne
    have hzero := (h.unreleased hne).1
    omega
  obtain ⟨hsocket, hone⟩ := h.closed hclosed
  rw [Connection.releaseConnection]
  split
  · refine ⟨h.closeTasks_eq, h.shut, h.protocol, h.readError, ?_, fun hne => absurd hclosed hne,
      h.deletions_eq, h.refCount_eq, h.released⟩
    intro _
    refine ⟨hsocket, ?_⟩
    show c.releaseTasks - 1 + 1 + c.deletions = 1
    omega
  · next href =>
    have hzero : c.refCount = 0 := Nat.eq_zero_of_not_pos href
    refine ⟨h.closeTasks_eq, h.shut, h.protocol, h.readError, ?_, fun hne => absurd hclosed hne,
      ?_, h.refCount_eq, fun _ => hzero⟩
    · intro _
      refine ⟨hsocket, ?_⟩
      show c.releaseTasks - 1 + (c.deletions + 1) = 1
      omega
    · have heq := h.deletions_eq
      show c.deletions + 1 = c.stopTasks + 1 + _
      rw [heq]
      exact Nat.add_right_comm _ _ _

theorem Sound.onStop (h : c.Sound) (htasks : 0 < c.stopTasks) :
    let t := ({ c with stopTasks := c.stopTasks - 1 } : Connection).onStop
    t.Sound ∧ t.nullDeref = c.nullDeref := by
  have heq := h.deletions_eq
  have hclosed : c.connectionState = .closed := by
    by_contra hne
    have hzero := (h.unreleased hne).2
    omega
  obtain ⟨hsocket, hone⟩ := h.closed hclosed
  obtain ⟨hnot, hpending⟩ := h.shut hsocket
  have hdeletions : c.deletions = 1 ∧ c.stopTasks = 1 := by
    omega
  have hprotocol : c.protocol ≠ true := by
    intro htrue
    have hstate := h.protocol htrue
    rw [hclosed] at hstate
    cases hstate with
    | inl hopen => cases hopen
    | inr hrequest => cases hrequest
  have htouch : ({ c with stopTasks := c.stopTasks - 1 } : Connection).touchSocket =
      { c with stopTasks := c.stopTasks - 1 } := by
    apply touchSocket_of_ne
    intro hdeleted
    have hdeleted' : c.socket = .deleted := hdeleted
    rw [if_pos hdeleted', hdeletions.1, hdeletions.2] at heq
    cases heq
  rw [Connection.onStop, htouch]
  refine ⟨?_, rfl⟩
  refine ⟨h.closeTasks_eq, fun _ => ⟨hnot, hpending⟩, h.protocol, h.readError, fun _ => ⟨nofun, hone⟩,
    fun hne => absurd hclosed hne, ?_, h.refCount_eq, h.released⟩
  show c.deletions = c.stopTasks - 1 + 1
  omega

theorem Sound.opened (h : c.Sound) (hopen : c.connectionState = .stateOpen) : c.socket = .opened := by
  by_contra hne
  exact (h.shut hne).1 hopen

/-- A message that is held keeps the connection, and one is handed out only to a protocol that has it. -/
theorem Sound.call (h : c.Sound) (call : ProtocolCall) : (c.call call).Sound := by
  cases call with
  | getOutputMessage =>
    rw [Connection.call]
    split
    · next hprotocol =>
      -- a protocol has a connection that is not closed, and so not deleted
      have hnot : c.connectionState ≠ .closed := by
        intro hclosed
        have hstate := h.protocol hprotocol
        rw [hclosed] at hstate
        cases hstate with
        | inl hopen => cases hopen
        | inr hrequest => cases hrequest
      obtain ⟨-, hdeletions⟩ := h.unreleased hnot
      refine ⟨h.closeTasks_eq, h.shut, h.protocol, h.readError, h.closed, h.unreleased, h.deletions_eq,
        ?_, ?_⟩
      · have heq := h.refCount_eq
        show c.refCount + 1 = c.held + 1 + c.writing + c.releasing
        omega
      · intro hpos
        have hpos' : 0 < c.deletions := hpos
        omega
    · exact h
  | send forceCloseSlowConnection =>
    rw [Connection.call]
    split
    · next hheld =>
      rw [Connection.send]
      split
      · exact h
      · next hstate =>
        -- an open connection has its socket
        have hopen : c.connectionState = .stateOpen := not_not.mp (not_or.mp hstate).1
        have hsocket := h.opened hopen
        have hnot : c.socket ≠ .deleted := by
          rw [hsocket]
          decide
        split
        · rw [internalSend, touchSocket_of_ne hnot]
          refine ⟨h.closeTasks_eq, fun hshut => absurd hsocket hshut, h.protocol, h.readError, h.closed,
            h.unreleased, h.deletions_eq, ?_, h.released⟩
          have heq := h.refCount_eq
          show c.refCount = c.held - 1 + (c.writing + 1) + c.releasing
          omega
        · split
          · exact h.close
          · exact h
    · exact h
  | releaseMessage =>
    rw [Connection.call]
    split
    · next hheld =>
      refine ⟨h.closeTasks_eq, h.shut, h.protocol, h.readError, h.closed, h.unreleased, h.deletions_eq,
        ?_, h.released⟩
      have heq := h.refCount_eq
      show c.refCount = c.held - 1 + c.writing + (c.releasing + 1)
      omega
    · exact h
  | close => exact h.close

/-- What calls leave alone. -/
theorem close_frame (c : Connection) : c.close.socket = c.socket ∧ c.close.readError = c.readError ∧
    c.close.reading = c.reading ∧ c.close.nullDeref = c.nullDeref := by
  rw [Connection.close]
  split
  · exact ⟨rfl, rfl, rfl, rfl⟩
  · exact ⟨rfl, rfl, rfl, rfl⟩

theorem Sound.call_frame (h : c.Sound) (call : ProtocolCall) : (c.call call).socket = c.socket ∧
    (c.call call).readError = c.readError ∧ (c.call call).reading = c.reading ∧
      (c.call call).nullDeref = c.nullDeref := by
  cases call with
  | getOutputMessage =>
    rw [Connection.call]
    split
    · exact ⟨rfl, rfl, rfl, rfl⟩
    · exact ⟨rfl, rfl, rfl, rfl⟩
  | send forceCloseSlowConnection =>
    rw [Connection.call]
    split
    · rw [Connection.send]
      split
      · exact ⟨rfl, rfl, rfl, rfl⟩
      · next hstate =>
        have hnot : c.socket ≠ .deleted := by
          rw [h.opened (not_not.mp (not_or.mp hstate).1)]
          decide
        split
        · rw [internalSend, touchSocket_of_ne hnot]
          exact ⟨rfl, rfl, rfl, rfl⟩
        · split
          · exact c.close_frame
          · exact ⟨rfl, rfl, rfl, rfl⟩
    · exact ⟨rfl, rfl, rfl, rfl⟩
  | releaseMessage =>
    rw [Connection.call]
    split
    · exact ⟨rfl, rfl, rfl, rfl⟩
    · exact ⟨rfl, rfl, rfl, rfl⟩
  | close => exact c.close_frame

theorem Sound.calls (h : c.Sound) (calls : List ProtocolCall) :
    (calls.foldl Connection.call c).Sound ∧ (calls.foldl Connection.call c).socket = c.socket ∧
      (calls.foldl Connection.call c).readError = c.readError ∧
        (calls.foldl Connection.call c).nullDeref = c.nullDeref := by
  induction calls generalizing c with
  | nil => exact ⟨h, rfl, rfl, rfl⟩
  | cons call rest ih =>
    obtain ⟨hsocket, hread, -, hnull⟩ := h.call_frame call
    obtain ⟨hsound, hsocket', hread', hnull'⟩ := ih (h.call call)
    exact ⟨hsound, hsocket'.trans hsocket, hread'.trans hread, hnull'.trans hnull⟩

/-- A read is started on a socket that is open. -/
theorem Sound.startRead (h : c.Sound) (hsocket : c.socket = .opened) (hread : c.readError = false)
    (phase : ReadPhase) : (c.startRead phase).Sound ∧ (c.startRead phase).nullDeref = c.nullDeref := by
  have hnot : c.socket ≠ .deleted := by
    rw [hsocket]
    decide
  rw [Connection.startRead, touchSocket_of_ne hnot]
  refine ⟨⟨h.closeTasks_eq, fun hshut => absurd hsocket hshut, h.protocol, ?_, h.closed, h.unreleased,
    h.deletions_eq, h.refCount_eq, h.released⟩, rfl⟩
  intro herror
  have herror' : c.readError = true := herror
  rw [hread] at herror'
  cases herror'

/-- The read has completed; an error is noted. -/
theorem Sound.handleReadError (h : c.Sound) (hreading : c.reading = none) (error : Option IoError) :
    (c.handleReadError error).Sound ∧ (c.handleReadError error).nullDeref = c.nullDeref := by
  rw [Connection.handleReadError]
  split
  · exact ⟨⟨h.closeTasks_eq, h.shut, h.protocol, fun _ => hreading, h.closed, h.unreleased,
      h.deletions_eq, h.refCount_eq, h.released⟩, rfl⟩
  · obtain ⟨-, -, hframe, hnull⟩ := c.close_frame
    have hclose := h.close
    exact ⟨⟨hclose.closeTasks_eq, hclose.shut, hclose.protocol, fun _ => hframe.trans hreading,
      hclose.closed, hclose.unreleased, hclose.deletions_eq, hclose.refCount_eq, hclose.released⟩, hnull⟩

/-- What both reads do first. -/
theorem Sound.readDone (h : c.Sound) (failed : Bool) (error : Option IoError) :
    let c' := { c with readWait := false, reading := none }
    (if failed then c'.handleReadError error else c').Sound ∧
      (if failed then c'.handleReadError error else c').nullDeref = c.nullDeref := by
  have hdone : ({ c with readWait := false, reading := none } : Connection).Sound :=
    ⟨h.closeTasks_eq, h.shut, h.protocol, fun _ => rfl, h.closed, h.unreleased, h.deletions_eq,
      h.refCount_eq, h.released⟩
  dsimp only
  cases failed with
  | true => exact hdone.handleReadError rfl error
  | false => exact ⟨hdone, rfl⟩

theorem Sound.parseHeader (h : c.Sound) (error : Option IoError) (badSize : Bool) :
    (c.parseHeader error badSize).Sound ∧ (c.parseHeader error badSize).nullDeref = c.nullDeref := by
  obtain ⟨hdone, hnull⟩ := h.readDone (error.isSome || badSize) error
  rw [Connection.parseHeader]
  generalize (if (error.isSome || badSize) = true then _ else _ : Connection) = c' at *
  split
  · exact ⟨hdone.close, c'.close_frame.2.2.2.trans hnull⟩
  · next hstate =>
    obtain ⟨hopen, hread⟩ := not_or.mp hstate
    have hsocket := hdone.opened (not_not.mp hopen)
    have hcounted : ({ c' with pendingRead := c'.pendingRead - 1 } : Connection).Sound :=
      ⟨hdone.closeTasks_eq, fun hshut => absurd hsocket hshut, hdone.protocol, hdone.readError,
        hdone.closed, hdone.unreleased, hdone.deletions_eq, hdone.refCount_eq, hdone.released⟩
    obtain ⟨hstart, hnull'⟩ := hcounted.startRead hsocket (Bool.not_eq_true _ ▸ hread) .packet
    exact ⟨hstart, hnull'.trans hnull⟩

theorem Sound.parsePacket (h : c.Sound) (error : Option IoError) (makeProtocol : Bool)
    (calls : List ProtocolCall) : (c.parsePacket error makeProtocol calls).Sound ∧
      (c.parsePacket error makeProtocol calls).nullDeref = c.nullDeref := by
  obtain ⟨hdone, hnull⟩ := h.readDone error.isSome error
  rw [Connection.parsePacket]
  generalize (if error.isSome = true then _ else _ : Connection) = c' at *
  split
  · exact ⟨hdone.close, c'.close_frame.2.2.2.trans hnull⟩
  · next hstate =>
    obtain ⟨hopen, hread⟩ := not_or.mp hstate
    have hstate' : c'.connectionState = .stateOpen := not_not.mp hopen
    have hsocket := hdone.opened hstate'
    -- a protocol that is made has an open connection
    have hcounted (protocol receivedFirst : Bool) : ({ c' with
        pendingRead := c'.pendingRead - 1, protocol := protocol, receivedFirst := receivedFirst } :
          Connection).Sound :=
      ⟨hdone.closeTasks_eq, fun hshut => absurd hsocket hshut, fun _ => .inl hstate', hdone.readError,
        hdone.closed, hdone.unreleased, hdone.deletions_eq, hdone.refCount_eq, hdone.released⟩
    dsimp only
    split
    · refine ⟨(hcounted c'.protocol true).close, ?_⟩
      exact (close_frame _).2.2.2.trans hnull
    · have hread' : c'.readError = false := Bool.not_eq_true _ ▸ hread
      have hready : ∃ protocol receivedFirst, (if c'.receivedFirst = true then
          { c' with pendingRead := c'.pendingRead - 1 }
        else { c' with
          pendingRead := c'.pendingRead - 1, receivedFirst := true, protocol := true }) =
            { c' with
              pendingRead := c'.pendingRead - 1, protocol := protocol
              receivedFirst := receivedFirst } := by
        split
        · exact ⟨c'.protocol, c'.receivedFirst, rfl⟩
        · exact ⟨true, true, rfl⟩
      obtain ⟨protocol, receivedFirst, hready⟩ := hready
      rw [hready]
      obtain ⟨hcalls, hsocket', herror, hnull'⟩ := (hcounted protocol receivedFirst).calls calls
      obtain ⟨hstart, hnull''⟩ := hcalls.startRead (hsocket'.trans hsocket) (herror.trans hread') .header
      exact ⟨hstart, hnull''.trans (hnull'.trans hnull)⟩

/-- The message of a write that has completed is released. -/
theorem Sound.written (h : c.Sound) (hwriting : 0 < c.writing) : ({ c with
    writeWait := false, writing := c.writing - 1, releasing := c.releasing + 1 } : Connection).Sound := by
  refine ⟨h.closeTasks_eq, h.shut, h.protocol, h.readError, h.closed, h.unreleased, h.deletions_eq, ?_,
    h.released⟩
  have heq := h.refCount_eq
  show c.refCount = c.held + (c.writing - 1) + (c.releasing + 1)
  omega

theorem Sound.handleWriteError (h : c.Sound) (error : IoError) : (c.handleWriteError error).Sound ∧
    (c.handleWriteError error).socket = c.socket ∧
      (c.handleWriteError error).nullDeref = c.nullDeref := by
  rw [Connection.handleWriteError]
  split
  · exact ⟨⟨h.closeTasks_eq, h.shut, h.protocol, h.readError, h.closed, h.unreleased, h.deletions_eq,
      h.refCount_eq, h.released⟩, rfl, rfl⟩
  · obtain ⟨hsocket, -, -, hnull⟩ := c.close_frame
    have hclose := h.close
    exact ⟨⟨hclose.closeTasks_eq, hclose.shut, hclose.protocol, hclose.readError, hclose.closed,
      hclose.unreleased, hclose.deletions_eq, hclose.refCount_eq, hclose.released⟩, hsocket, hnull⟩

theorem Sound.closeSocket_nullDeref (h : c.Sound) (hnot : c.socket ≠ .deleted) :
    c.closeSocket.close.nullDeref = c.nullDeref := by
  rw [c.closeSocket.close_frame.2.2.2, h.closeSocket_eq hnot]

theorem Sound.onWrite (h : c.Sound) (hwriting : 0 < c.writing) (error : Option IoError) :
    (c.onWrite error).Sound ∧ (c.onWrite error).nullDeref = c.nullDeref := by
  have hwritten := h.written hwriting
  -- the message has kept the connection
  have hnot : c.socket ≠ .deleted := by
    apply h.not_deleted
    apply h.deletions_eq_zero
    rw [h.refCount_eq]
    omega
  have herror : ∃ c' : Connection, c'.Sound ∧ c'.socket = c.socket ∧ c'.nullDeref = c.nullDeref ∧
      c.onWrite error = if c'.connectionState ≠ .stateOpen ∨ c'.writeError then c'.closeSocket.close
        else { c' with pendingWrite := c'.pendingWrite - 1 } := by
    cases error with
    | none => exact ⟨_, hwritten, rfl, rfl, rfl⟩
    | some error =>
      obtain ⟨hsound, hsocket, hnull⟩ := hwritten.handleWriteError error
      exact ⟨_, hsound, hsocket, hnull, rfl⟩
  obtain ⟨c', hsound, hsocket, hnull, heq⟩ := herror
  rw [heq]
  split
  · refine ⟨hsound.closeSocket_close, ?_⟩
    rw [hsound.closeSocket_nullDeref (hsocket ▸ hnot), hnull]
  · next hstate =>
    have hopened := hsound.opened (not_not.mp (not_or.mp hstate).1)
    refine ⟨⟨hsound.closeTasks_eq, fun hshut => absurd hopened hshut, hsound.protocol, hsound.readError,
      hsound.closed, hsound.unreleased, hsound.deletions_eq, hsound.refCount_eq, hsound.released⟩, hnull⟩

/-- Only a read in flight keeps a deleted connection alive, and then no read has failed. -/
theorem Sound.reading_of_alive (h : c.Sound) (halive : c.Alive) (hdeleted : c.socket = .deleted) :
    c.readError = false ∧ c.pendingRead = 0 ∧ c.pendingWrite = 0 := by
  have hpos : 0 < c.deletions := by
    have heq := h.deletions_eq
    rw [if_pos hdeleted] at heq
    omega
  have href := h.released hpos
  have hclosed : c.connectionState = .closed := by
    by_contra hne
    have hzero := (h.unreleased hne).2
    omega
  have hreading : c.reading ≠ none := by
    have hwriting : ¬ 0 < c.writing := by
      have heq := h.refCount_eq
      omega
    have hprotocol : ¬ c.protocol = true := by
      intro htrue
      have hstate := h.protocol htrue
      rw [hclosed] at hstate
      cases hstate with
      | inl hopen => cases hopen
      | inr hrequest => cases hrequest
    rcases halive with hsocket | hreading | hwriting' | href' | hprotocol'
    · exact absurd hdeleted hsocket
    · exact hreading
    · exact absurd hwriting' hwriting
    · omega
    · exact absurd hprotocol' hprotocol
  have hsocket : c.socket ≠ .opened := by
    rw [hdeleted]
    decide
  refine ⟨?_, (h.shut hsocket).2⟩
  by_contra hread
  exact hreading (h.readError (Bool.not_eq_false _ ▸ hread))

theorem Sound.handleReadTimeout (h : c.Sound) :
    c.handleReadTimeout.Sound ∧ c.handleReadTimeout.nullDeref = c.nullDeref := by
  rw [Connection.handleReadTimeout]
  split
  · next halive =>
    rw [onReadTimeout]
    split
    · next hpending =>
      refine ⟨h.closeSocket_close, ?_⟩
      apply h.closeSocket_nullDeref
      intro hdeleted
      obtain ⟨hread, hzero, -⟩ := h.reading_of_alive halive hdeleted
      rw [hread, hzero] at hpending
      cases hpending with
      | inl hpos => exact absurd hpos (Int.lt_irrefl 0)
      | inr hfalse => cases hfalse
    · exact ⟨h, rfl⟩
  · exact ⟨h, rfl⟩

/-- A write that has failed is remembered, and its timer is what may miss the socket. -/
theorem Sound.handleWriteTimeout (h : c.Sound) : c.handleWriteTimeout.Sound ∧
    (¬ (c.Alive ∧ c.socket = .deleted ∧ c.writeError = true) →
      c.handleWriteTimeout.nullDeref = c.nullDeref) := by
  rw [Connection.handleWriteTimeout]
  split
  · next halive =>
    rw [onWriteTimeout]
    split
    · next hpending =>
      refine ⟨h.closeSocket_close, ?_⟩
      intro hcareful
      apply h.closeSocket_nullDeref
      intro hdeleted
      obtain ⟨-, -, hzero⟩ := h.reading_of_alive halive hdeleted
      rw [hzero] at hpending
      cases hpending with
      | inl hpos => exact absurd hpos (Int.lt_irrefl 0)
      | inr herror => exact hcareful ⟨halive, hdeleted, herror⟩
    · exact ⟨h, fun _ => rfl⟩
  · exact ⟨h, fun _ => rfl⟩

theorem sound_of_begun (h : c.Begun) : c.Sound ∧ c.nullDeref = false := by
  cases h with
  | inl haccept =>
    rw [haccept]
    exact sound_created.startRead rfl rfl .header
  | inr hhandle =>
    obtain ⟨calls, hcalls⟩ := hhandle
    have hprotocol : ({ created with protocol := true } : Connection).Sound :=
      ⟨rfl, sound_created.shut, fun _ => .inl rfl, sound_created.readError, sound_created.closed,
        sound_created.unreleased, rfl, rfl, sound_created.released⟩
    obtain ⟨hsound, hsocket, hread, hnull⟩ := hprotocol.calls calls
    obtain ⟨hstart, hnull'⟩ := hsound.startRead hsocket hread .header
    rw [hcalls]
    exact ⟨hstart, hnull'.trans hnull⟩

/-- The handler of the write timer does not find a connection of which a write has failed and the socket
is deleted. -/
def Careful (c : Connection) : ConnectionAction → Prop
  | .handleWriteTimeout => ¬ (c.Alive ∧ c.socket = .deleted ∧ c.writeError = true)
  | _ => True

instance (c : Connection) (a : ConnectionAction) : Decidable (c.Careful a) :=
  match a with
  | .handleWriteTimeout => inferInstanceAs (Decidable (¬ _))
  | .parseHeader _ _ | .parsePacket _ _ _ | .onWrite _ | .readTimerExpires | .writeTimerExpires
  | .handleReadTimeout | .call _ | .closeConnection | .releaseConnection | .internalReleaseMessage
  | .onStop => inferInstanceAs (Decidable True)

/-- One action. -/
theorem sound_act {a : ConnectionAction} {t : Connection} (h : c.Sound) (hact : c.act a = some t) :
    t.Sound ∧ (c.Careful a → t.nullDeref = c.nullDeref) := by
  -- one lemma for each handler; a timer that expires is only counted, its handler comes later
  cases a with
  | parseHeader error badSize =>
    rw [act] at hact
    split at hact
    · rw [← Option.some.inj hact]
      obtain ⟨hsound, hnull⟩ := h.parseHeader error badSize
      exact ⟨hsound, fun _ => hnull⟩
    · cases hact
  | parsePacket error makeProtocol calls =>
    rw [act] at hact
    split at hact
    · rw [← Option.some.inj hact]
      obtain ⟨hsound, hnull⟩ := h.parsePacket error makeProtocol calls
      exact ⟨hsound, fun _ => hnull⟩
    · cases hact
  | onWrite error =>
    rw [act] at hact
    split at hact
    · next hwriting =>
      rw [← Option.some.inj hact]
      obtain ⟨hsound, hnull⟩ := h.onWrite hwriting error
      exact ⟨hsound, fun _ => hnull⟩
    · cases hact
  | readTimerExpires =>
    rw [act] at hact
    split at hact
    · rw [← Option.some.inj hact]
      exact ⟨⟨h.closeTasks_eq, h.shut, h.protocol, h.readError, h.closed, h.unreleased, h.deletions_eq,
        h.refCount_eq, h.released⟩, fun _ => rfl⟩
    · cases hact
  | writeTimerExpires =>
    rw [act] at hact
    split at hact
    · rw [← Option.some.inj hact]
      exact ⟨⟨h.closeTasks_eq, h.shut, h.protocol, h.readError, h.closed, h.unreleased, h.deletions_eq,
        h.refCount_eq, h.released⟩, fun _ => rfl⟩
    · cases hact
  | handleReadTimeout =>
    rw [act] at hact
    split at hact
    · rw [← Option.some.inj hact]
      have hrun : ({ c with readExpired := c.readExpired - 1 } : Connection).Sound :=
        ⟨h.closeTasks_eq, h.shut, h.protocol, h.readError, h.closed, h.unreleased, h.deletions_eq,
          h.refCount_eq, h.released⟩
      exact ⟨hrun.handleReadTimeout.1, fun _ => hrun.handleReadTimeout.2⟩
    · cases hact
  | handleWriteTimeout =>
    rw [act] at hact
    split at hact
    · rw [← Option.some.inj hact]
      have hrun : ({ c with writeExpired := c.writeExpired - 1 } : Connection).Sound :=
        ⟨h.closeTasks_eq, h.shut, h.protocol, h.readError, h.closed, h.unreleased, h.deletions_eq,
          h.refCount_eq, h.released⟩
      exact hrun.handleWriteTimeout
    · cases hact
  | call call =>
    rw [← Option.some.inj hact]
    exact ⟨h.call call, fun _ => (h.call_frame call).2.2.2⟩
  | closeConnection =>
    rw [act] at hact
    split at hact
    · next htasks =>
      rw [← Option.some.inj hact]
      obtain ⟨hsound, hnull⟩ := h.closeConnection htasks
      exact ⟨hsound, fun _ => hnull⟩
    · cases hact
  | releaseConnection =>
    rw [act] at hact
    split at hact
    · next htasks =>
      rw [← Option.some.inj hact]
      refine ⟨h.releaseConnection htasks, fun _ => ?_⟩
      rw [Connection.releaseConnection]
      split <;> rfl
    · cases hact
  | internalReleaseMessage =>
    rw [act] at hact
    split at hact
    · next hreleasing =>
      rw [← Option.some.inj hact]
      refine ⟨⟨h.closeTasks_eq, h.shut, h.protocol, h.readError, h.closed, h.unreleased, h.deletions_eq,
        ?_, ?_⟩, fun _ => rfl⟩
      · -- the message was counted among those that are let go
        have heq := h.refCount_eq
        show c.refCount - 1 = c.held + c.writing + (c.releasing - 1)
        omega
      · intro hpos
        show c.refCount - 1 = 0
        rw [h.released hpos]
    · cases hact
  | onStop =>
    rw [act] at hact
    split at hact
    · next htasks =>
      rw [← Option.some.inj hact]
      obtain ⟨hsound, hnull⟩ := h.onStop htasks
      exact ⟨hsound, fun _ => hnull⟩
    · cases hact

theorem Sound.deletions_le (h : c.Sound) : c.deletions ≤ 1 := by
  by_cases hclosed : c.connectionState = .closed
  · have hone := (h.closed hclosed).2
    omega
  · rw [(h.unreleased hclosed).2]
    exact Nat.zero_le 1

theorem act_of_step {a : ConnectionAction} {t : Connection} (hstep : c.step a = some t) :
    c.nullDeref = false ∧ c.act a = some t := by
  rw [step] at hstep
  split at hstep
  · cases hstep
  · next hnull => exact ⟨Bool.not_eq_true _ ▸ hnull, hstep⟩

/-- In every run the connection is deleted at most once. -/
theorem Sound.of_reachable (h : system.Reachable c) : c.Sound := by
  apply h.invariant
  · intro c hbegun
    exact (sound_of_begun hbegun).1
  · intro c a t hsound hstep
    exact (sound_act hsound (act_of_step hstep).2).1

/-- In a run without a late handler of the write timer after a failed write, the connection is deleted
at most once, and its socket is not used once it is deleted. -/
theorem deleted_once_and_unused (h : (system.restrict Careful).Reachable c) :
    c.deletions ≤ 1 ∧ c.nullDeref = false := by
  refine ⟨(Sound.of_reachable h.of_restrict).deletions_le, ?_⟩
  have hboth : c.Sound ∧ c.nullDeref = false := by
    apply h.invariant fun c => c.Sound ∧ c.nullDeref = false
    · intro c hbegun
      exact sound_of_begun hbegun
    · intro c a t hsound hstep
      obtain ⟨hcareful, hstep⟩ := hstep
      obtain ⟨hnull, hact⟩ := act_of_step hstep
      obtain ⟨hsound', hnull'⟩ := sound_act hsound.1 hact
      exact ⟨hsound', (hnull' hcareful).trans hnull⟩
  exact hboth.2

/-- A protocol greets its peer, which does not take the greeting in time. -/
def greeting : Connection := created.handle [.getOutputMessage, .send false]

/-- The write fails after its timer has expired, the connection is closed and deleted, and the read that
was aborted has not been reported. -/
def failedWrite : List ConnectionAction :=
  [.writeTimerExpires, .onWrite (some .other), .closeConnection, .internalReleaseMessage,
    .releaseConnection, .onStop]

/-- What is left is reported in order. -/
theorem deleted_once_and_unused_failedWrite : ∃ c : Connection,
    (c.deletions ≤ 1 ∧ c.nullDeref = false) ∧ c.deletions = 1 ∧ c.socket = .deleted := by
  have hrun : ((Transition.runActions (Transition.guarded Careful step) greeting
      (failedWrite ++ [.parseHeader (some .operationAborted) false])).map
        fun c => (c.deletions, c.socket)) = some (1, .deleted) := by
    decide
  obtain ⟨c, hreach, heq⟩ := Option.map_eq_some_iff.mp hrun
  obtain ⟨hdeletions, hsocket⟩ := Prod.mk.inj heq
  have hbegun : (system.restrict Careful).Reachable greeting := .init (.inr ⟨_, rfl⟩)
  refine ⟨c, ?_, hdeletions, hsocket⟩
  exact deleted_once_and_unused
    (Transition.reachable_restrict_of_runActions hbegun _ hreach)

/-- The handler of the write timer finds that a write has failed, and uses the deleted socket. -/
theorem deleted_socket_used :
    ¬ ∀ c : Connection, system.Reachable c → c.deletions ≤ 1 ∧ c.nullDeref = false := by
  intro hclaim
  have hrun : ((Transition.runActions step greeting (failedWrite ++ [.handleWriteTimeout])).map
      fun c => c.nullDeref) = some true := by
    decide
  obtain ⟨c, hreach, hnull⟩ := Option.map_eq_some_iff.mp hrun
  have hbegun : system.Reachable greeting := .init (.inr ⟨_, rfl⟩)
  have hunused := (hclaim c (Transition.reachable_of_runActions hbegun hreach)).2
  rw [hnull] at hunused
  cases hunused

end Connection

end TyanoCore
