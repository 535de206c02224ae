import Mathlib.Logic.Function.Basic
import TyanoCore.Checksum
import TyanoCore.Run

/-!
# The pool of outgoing messages

A task of the dispatcher fills the output buffer of a protocol.  At the end of each task the pool looks
at the messages that wait: one that is long enough or old enough is sent, and one that meets a write that
is still in flight is queued for the next time.
-/

namespace TyanoCore

open Bytes

/-- The body of a message, behind the room for the headers. -/
def OutputMessage.bodyBytes (msg : OutputMessage) : List UInt8 :=
  bytesAt msg.msgBuf 8 (msg.readPos - 8)

def OutputMessage.addCall (msg : OutputMessage) (call : Add) : OutputMessage :=
  { msg with toBufferedMessage := msg.toBufferedMessage.add call }

/-- A message of the pool with the time of the frame it was taken in. -/
structure PooledMessage where
  message : OutputMessage
  frame : UInt64

/-- What is handed to `async_write`: the frame, and the body that it was made of. -/
structure SocketWrite where
  body : List UInt8
  frame : List UInt8

/-- The pool with the output buffer of one protocol and the writes of its connection.  `cursor` is where
`sendAll` is in `autoSend`. -/
structure OutputPool where
  autoSend : List ℕ
  addQueue : List ℕ
  frameTime : UInt64
  messages : ℕ → PooledMessage
  nextMessage : ℕ
  outputBuffer : Option ℕ
  pendingWrite : ℕ
  cursor : Option ℕ
  inFlight : ℕ
  writes : List SocketWrite

inductive OutputAction
  | startExecutionFrame (time : UInt64)
  | add (msgBuf : ℕ → UInt8) (call : Add)
  | sendAll (time : UInt64)
  | sendNext
  | onWrite

namespace OutputPool

variable (protocol : Protocol) (forceCloseSlowConnection : Bool) {s : OutputPool}

def setMessage (s : OutputPool) (msg : ℕ) (message : OutputMessage) : OutputPool :=
  { s with messages := Function.update s.messages msg { s.messages msg with message := message } }

/-- `getOutputBuffer` with a message from the pool and what an earlier one has left in it. -/
def getOutputBuffer (s : OutputPool) (msgBuf : ℕ → UInt8) : OutputPool × ℕ :=
  match s.outputBuffer with
  | some msg => (s, msg)
  | none =>
    let msg := s.nextMessage
    ({ s with
        autoSend := s.autoSend ++ [msg]
        messages := Function.update s.messages msg ⟨OutputMessage.fresh msgBuf, s.frameTime⟩
        nextMessage := msg + 1
        outputBuffer := some msg }, msg)

def add (s : OutputPool) (msgBuf : ℕ → UInt8) (call : Add) : OutputPool :=
  let (s, msg) := s.getOutputBuffer msgBuf
  s.setMessage msg ((s.messages msg).message.addCall call)

/-- `Protocol::onSendMessage` with the output buffer. -/
def onSendMessage (s : OutputPool) (msg : ℕ) : OutputPool :=
  { s.setMessage msg (protocol.onSendMessage (s.messages msg).message) with
    outputBuffer := if s.outputBuffer = some msg then none else s.outputBuffer }

/-- `Connection::internalSend` of a message with a body. -/
def internalSend (s : OutputPool) (msg : ℕ) (body : List UInt8) : OutputPool :=
  { s with
    pendingWrite := s.pendingWrite + 1
    inFlight := s.inFlight + 1
    writes := s.writes ++ [⟨body, (s.messages msg).message.frame⟩] }

/-- `Connection::send` while the connection is open; a slow connection may be closed instead. -/
def send (s : OutputPool) (msg : ℕ) : Option OutputPool :=
  if s.pendingWrite = 0 then
    some ((s.onSendMessage protocol msg).internalSend msg (s.messages msg).message.bodyBytes)
  else if 100 < s.pendingWrite ∧ forceCloseSlowConnection then none
  else some { s with addQueue := s.addQueue ++ [msg] }

/-- The first loop of `sendAll`. -/
def takeQueue (time : UInt64) : List ℕ → OutputPool → OutputPool
  | [], s => s
  | msg :: rest, s =>
    if 10000 < time - (s.messages msg).frame then takeQueue time rest (s.onSendMessage protocol msg)
    else takeQueue time rest { s with autoSend := s.autoSend ++ [msg] }

def sendAll (s : OutputPool) (time : UInt64) : OutputPool :=
  { takeQueue protocol time s.addQueue s with addQueue := [], cursor := some 0 }

/-- A round of the second loop of `sendAll`; the connection's lock is free between two rounds. -/
def sendNext (s : OutputPool) (position : ℕ) : Option OutputPool :=
  match s.autoSend[position]? with
  | none => some { s with cursor := none }
  | some msg =>
    if 1024 < (s.messages msg).message.msgSize ∨ 10 < s.frameTime - (s.messages msg).frame then
      (s.send protocol forceCloseSlowConnection msg).map fun s =>
        { s with autoSend := s.autoSend.eraseIdx position }
    else some { s with cursor := some (position + 1) }

/-- Tasks add between two `sendAll`, and a write completes at any time. -/
def step (s : OutputPool) : OutputAction → Option OutputPool
  | .startExecutionFrame time => if s.cursor = none then some { s with frameTime := time } else none
  | .add msgBuf call => if s.cursor = none then some (s.add msgBuf call) else none
  | .sendAll time => if s.cursor = none then some (s.sendAll protocol time) else none
  | .sendNext => s.cursor.bind (s.sendNext protocol forceCloseSlowConnection)
  | .onWrite =>
    if 0 < s.inFlight then
      some { s with inFlight := s.inFlight - 1, pendingWrite := s.pendingWrite - 1 }
    else none

/-- An empty pool on an open connection without a write. -/
structure Idle (s : OutputPool) : Prop where
  autoSend_eq : s.autoSend = []
  addQueue_eq : s.addQueue = []
  outputBuffer_eq : s.outputBuffer = none
  pendingWrite_eq : s.pendingWrite = 0
  inFlight_eq : s.inFlight = 0
  writes_eq : s.writes = []

end OutputPool

/-! ## What the tasks add -/

/-- The bytes that a call for one value asks to add. -/
def Part.bytesAsked : Part → List UInt8
  | .byte value => [value]
  | .u16 value => leBytes 2 value
  | .u32 value => leBytes 4 value
  | .string value => leBytes 2 value.bytes.length ++ value.bytes
  | .bytes data => data

/-- Strings and byte runs have a limit of their own. -/
def Part.fits : Part → Bool
  | .string value => value.bytes.length ≤ 8192
  | .bytes data => data.length ≤ 8192
  | _ => true

/-- The bytes of the calls that a message takes; the others are dropped whole. -/
def BufferedMessage.taken (b : BufferedMessage) : List Part → List UInt8
  | [] => []
  | part :: rest =>
    (if b.canAdd part.bytesAsked.length && part.fits then part.bytesAsked else []) ++
      (b.addPart part).taken rest

variable {b : BufferedMessage} {msg : NetworkMessage}

theorem NetworkMessage.body_add (msg : NetworkMessage) (bytes : List UInt8) :
    (msg.add bytes).body = msg.body ++ if msg.canAdd bytes.length then bytes else [] := by
  rw [NetworkMessage.add]
  split
  · rfl
  · exact (List.append_nil _).symm

theorem NetworkMessage.body_addPart (msg : NetworkMessage) (part : Part) :
    (msg.addPart part).body =
      msg.body ++ if msg.canAdd part.bytesAsked.length && part.fits then part.bytesAsked else [] := by
  -- a call over the limit adds nothing
  have hlimit (bytes : List UInt8) (small : Bool) :
      (if small then msg.add bytes else msg).body =
        msg.body ++ if msg.canAdd bytes.length && small then bytes else [] := by
    cases small with
    | true =>
      rw [if_pos rfl, Bool.and_true]
      exact msg.body_add bytes
    | false =>
      rw [if_neg Bool.false_ne_true, Bool.and_false, if_neg Bool.false_ne_true, List.append_nil]
  cases part with
  | byte value => exact hlimit [value] true
  | u16 value => exact hlimit (leBytes 2 value) true
  | u32 value => exact hlimit (leBytes 4 value) true
  | string value =>
    rw [NetworkMessage.addPart]
    have hsmall := hlimit (leBytes 2 value.bytes.length ++ value.bytes)
      (decide (value.bytes.length ≤ 8192))
    simp only [decide_eq_true_eq] at hsmall
    exact hsmall
  | bytes bytes =>
    have hsmall := hlimit bytes (decide (bytes.length ≤ 8192))
    simp only [decide_eq_true_eq] at hsmall
    exact hsmall

/-- A buffer takes what the message it holds takes. -/
theorem Holds.taken (h : Holds b msg) (parts : List Part) :
    (parts.foldl NetworkMessage.addPart msg).body = msg.body ++ b.taken parts := by
  induction parts generalizing b msg with
  | nil => exact (List.append_nil _).symm
  | cons part rest ih =>
    rw [List.foldl_cons, ih (h.addPart part), NetworkMessage.body_addPart, BufferedMessage.taken,
      h.canAdd, List.append_assoc]

theorem Holds.bodyBytes {message : OutputMessage} (h : Holds message.toBufferedMessage msg) :
    message.bodyBytes = msg.body := by
  have hlength : message.readPos - 8 = msg.body.length := by
    rw [h.readPos_eq, h.body_end, Nat.add_sub_cancel_left]
  rw [OutputMessage.bodyBytes, hlength]
  exact h.body_eq

theorem Holds.fresh (msgBuf : ℕ → UInt8) :
    Holds (OutputMessage.fresh msgBuf).toBufferedMessage NetworkMessage.empty :=
  ⟨rfl, rfl, rfl, rfl, by decide⟩

namespace OutputPool

variable (protocol : Protocol) (forceCloseSlowConnection : Bool) {s : OutputPool}

/-- The bytes that an action asks to add. -/
def askedBy (_ : OutputPool) : OutputAction → List UInt8
  | .add _ call => call.parts.flatMap Part.bytesAsked
  | _ => []

/-- The bytes that an action adds. -/
def addedBy (s : OutputPool) : OutputAction → List UInt8
  | .add msgBuf call =>
    let (s, msg) := s.getOutputBuffer msgBuf
    (s.messages msg).message.taken call.parts
  | _ => []

/-- No message has waited for more than ten seconds. -/
def Punctual (s : OutputPool) : OutputAction → Prop
  | .sendAll time => ∀ msg ∈ s.addQueue, ¬ 10000 < time - (s.messages msg).frame
  | _ => True

instance (s : OutputPool) (a : OutputAction) : Decidable (s.Punctual a) :=
  match a with
  | .sendAll time =>
    inferInstanceAs (Decidable (∀ msg ∈ s.addQueue, ¬ 10000 < time - (s.messages msg).frame))
  | .startExecutionFrame _ => inferInstanceAs (Decidable True)
  | .add _ _ => inferInstanceAs (Decidable True)
  | .sendNext => inferInstanceAs (Decidable True)
  | .onWrite => inferInstanceAs (Decidable True)

/-- The pool with the bytes that have been put out by its actions. -/
def system (output : OutputPool → OutputAction → List UInt8) :
    Transition.System (OutputPool × List UInt8) OutputAction :=
  (Transition.System.ofStep (fun s => s.1.Idle ∧ s.2 = [])
    (Transition.logged output (step protocol forceCloseSlowConnection))).restrict
      fun s a => s.1.Punctual a

/-! ## Order -/

/-- The bodies that have been handed over. -/
def written (s : OutputPool) : List UInt8 := (s.writes.map SocketWrite.body).flatten

/-- The body that has not been handed over. -/
def unsent (s : OutputPool) : List UInt8 :=
  match s.outputBuffer with
  | none => []
  | some msg => (s.messages msg).message.bodyBytes

theorem written_internalSend (s : OutputPool) (msg : ℕ) (body : List UInt8) :
    (s.internalSend msg body).written = s.written ++ body := by
  show ((s.writes ++ [_]).map SocketWrite.body).flatten = _
  rw [List.map_append, List.flatten_append, List.map_cons, List.map_nil, List.flatten_singleton,
    written]

/-- What holds in every run: the output buffer is the only message that waits, and it holds what has
been added since the last write. -/
structure Ordered (s : OutputPool) (added : List UInt8) : Prop where
  pendingWrite_eq : s.pendingWrite = s.inFlight
  inFlight_le : s.inFlight ≤ 1
  waiting_eq : s.autoSend ++ s.addQueue = s.outputBuffer.toList
  holds : ∀ msg, s.outputBuffer = some msg → ∃ net, Holds (s.messages msg).message.toBufferedMessage net
  added_eq : added = s.written ++ s.unsent

variable {added : List UInt8}

theorem ordered_of_idle (h : s.Idle) : s.Ordered [] := by
  refine ⟨?_, ?_, ?_, ?_, ?_⟩
  · rw [h.pendingWrite_eq, h.inFlight_eq]
  · rw [h.inFlight_eq]
    exact Nat.zero_le 1
  · rw [h.autoSend_eq, h.addQueue_eq, h.outputBuffer_eq]
    rfl
  · intro msg hmsg
    rw [h.outputBuffer_eq] at hmsg
    cases hmsg
  · rw [written, unsent, h.writes_eq, h.outputBuffer_eq]
    rfl

/-- Afterwards there is an output buffer, and it is as full as before. -/
theorem ordered_getOutputBuffer (h : s.Ordered added) (msgBuf : ℕ → UInt8) :
    (s.getOutputBuffer msgBuf).1.Ordered added ∧
      (s.getOutputBuffer msgBuf).1.outputBuffer = some (s.getOutputBuffer msgBuf).2 := by
  rw [getOutputBuffer]
  split
  · next msg hmsg => exact ⟨h, hmsg⟩
  · next hnone =>
    have hmessage : Function.update s.messages s.nextMessage
        ⟨OutputMessage.fresh msgBuf, s.frameTime⟩ s.nextMessage =
          ⟨OutputMessage.fresh msgBuf, s.frameTime⟩ := Function.update_self _ _ _
    have hwaiting := h.waiting_eq
    rw [hnone] at hwaiting
    obtain ⟨hauto, hqueue⟩ := List.append_eq_nil_iff.mp hwaiting
    refine ⟨⟨h.pendingWrite_eq, h.inFlight_le, ?_, ?_, ?_⟩, rfl⟩
    · show s.autoSend ++ [s.nextMessage] ++ s.addQueue = [s.nextMessage]
      rw [hauto, hqueue]
      rfl
    · intro msg hmsg
      obtain rfl := Option.some.inj hmsg
      refine ⟨NetworkMessage.empty, ?_⟩
      show Holds (Function.update s.messages s.nextMessage
        ⟨OutputMessage.fresh msgBuf, s.frameTime⟩ s.nextMessage).message.toBufferedMessage _
      rw [hmessage]
      exact Holds.fresh msgBuf
    · have hadded := h.added_eq
      rw [unsent, hnone] at hadded
      rw [unsent]
      show added = s.written ++ (Function.update s.messages s.nextMessage
        ⟨OutputMessage.fresh msgBuf, s.frameTime⟩ s.nextMessage).message.bodyBytes
      rw [hmessage, (Holds.fresh msgBuf).bodyBytes]
      exact hadded

theorem ordered_add (h : s.Ordered added) (msgBuf : ℕ → UInt8) (call : Add) :
    (s.add msgBuf call).Ordered (added ++ s.addedBy (.add msgBuf call)) := by
  obtain ⟨hordered, hbuffer⟩ := ordered_getOutputBuffer h msgBuf
  rw [add, addedBy]
  generalize s.getOutputBuffer msgBuf = buffer at *
  obtain ⟨s', msg⟩ := buffer
  dsimp only at *
  obtain ⟨net, hnet⟩ := hordered.holds msg hbuffer
  have hparts : Holds ((s'.messages msg).message.addCall call).toBufferedMessage
      (call.parts.foldl NetworkMessage.addPart net) := by
    show Holds ((s'.messages msg).message.toBufferedMessage.add call) _
    rw [add_parts]
    exact hnet.parts call.parts
  have hself : (s'.setMessage msg ((s'.messages msg).message.addCall call)).messages msg =
      { s'.messages msg with message := (s'.messages msg).message.addCall call } :=
    Function.update_self _ _ _
  refine ⟨hordered.pendingWrite_eq, hordered.inFlight_le, hordered.waiting_eq, ?_, ?_⟩
  · intro other hother
    obtain rfl := Option.some.inj (hbuffer.symm.trans hother)
    refine ⟨call.parts.foldl NetworkMessage.addPart net, ?_⟩
    rw [hself]
    exact hparts
  · have hadded := hordered.added_eq
    have hunsent : s'.unsent = net.body := by
      rw [unsent, hbuffer]
      exact hnet.bodyBytes
    have hunsent' : (s'.setMessage msg ((s'.messages msg).message.addCall call)).unsent =
        net.body ++ (s'.messages msg).message.taken call.parts := by
      have hbuffer' : (s'.setMessage msg
          ((s'.messages msg).message.addCall call)).outputBuffer = some msg := hbuffer
      rw [unsent, hbuffer']
      dsimp only
      rw [hself, ← hnet.taken]
      exact Holds.bodyBytes hparts
    rw [hunsent', ← List.append_assoc, hadded, hunsent]
    rfl

/-- Where no message is late, the first loop of `sendAll` moves the queue. -/
theorem takeQueue_eq {time : UInt64} {queue : List ℕ}
    (h : ∀ msg ∈ queue, ¬ 10000 < time - (s.messages msg).frame) :
    takeQueue protocol time queue s = { s with autoSend := s.autoSend ++ queue } := by
  induction queue generalizing s with
  | nil =>
    rw [takeQueue, List.append_nil]
  | cons msg rest ih =>
    rw [takeQueue, if_neg (h msg List.mem_cons_self)]
    have hrest := @ih { s with autoSend := s.autoSend ++ [msg] }
      fun other hother => h other (List.mem_cons_of_mem _ hother)
    rw [hrest, List.append_assoc]
    rfl

theorem ordered_sendAll (h : s.Ordered added) {time : UInt64} (hpunctual : s.Punctual (.sendAll time)) :
    (s.sendAll protocol time).Ordered added := by
  rw [sendAll, takeQueue_eq protocol hpunctual]
  refine ⟨h.pendingWrite_eq, h.inFlight_le, ?_, h.holds, h.added_eq⟩
  show (s.autoSend ++ s.addQueue) ++ [] = s.outputBuffer.toList
  rw [List.append_nil]
  exact h.waiting_eq

/-- What a round of the second loop leaves: the message is sent and is the output buffer no more, or it
waits for the next time. -/
theorem ordered_sendNext (h : s.Ordered added) {position : ℕ} {t : OutputPool}
    (hnext : s.sendNext protocol forceCloseSlowConnection position = some t) : t.Ordered added := by
  have hwaiting := h.waiting_eq
  rw [sendNext] at hnext
  split at hnext
  · rw [← Option.some.inj hnext]
    exact ⟨h.pendingWrite_eq, h.inFlight_le, hwaiting, h.holds, h.added_eq⟩
  · next msg hmsg =>
    split at hnext
    · -- there is only one message
      have hin : msg ∈ s.outputBuffer.toList := by
        rw [← hwaiting]
        exact List.mem_append_left _ (List.mem_of_getElem? hmsg)
      have hbuffer : s.outputBuffer = some msg := Option.mem_toList.mp hin
      rw [hbuffer] at hwaiting
      have hauto : s.autoSend = [msg] ∧ s.addQueue = [] := by
        cases hlist : s.autoSend with
        | nil =>
          rw [hlist] at hmsg
          cases hmsg
        | cons first rest =>
          rw [hlist] at hwaiting
          obtain ⟨hfirst, hrest⟩ := List.cons.inj hwaiting
          obtain ⟨hnil, hqueue⟩ := List.append_eq_nil_iff.mp hrest
          rw [hfirst, hnil]
          exact ⟨rfl, hqueue⟩
      obtain ⟨hauto, hqueue⟩ := hauto
      have hposition : position = 0 := by
        rw [hauto] at hmsg
        have hlt := (List.getElem?_eq_some_iff.mp hmsg).1
        exact Nat.lt_one_iff.mp hlt
      obtain ⟨sent, hsent, ht⟩ := Option.map_eq_some_iff.mp hnext
      rw [send] at hsent
      split at hsent
      · next hidle =>
        rw [← ht, ← Option.some.inj hsent]
        have hflight := h.pendingWrite_eq
        rw [hidle] at hflight
        have hunsent : s.unsent = (s.messages msg).message.bodyBytes := by
          rw [unsent, hbuffer]
        have hnone : (if s.outputBuffer = some msg then none else s.outputBuffer) = none :=
          if_pos hbuffer
        refine ⟨?_, ?_, ?_, ?_, ?_⟩
        · show s.pendingWrite + 1 = s.inFlight + 1
          rw [hidle, hflight]
        · show s.inFlight + 1 ≤ 1
          rw [← hflight]
        · show s.autoSend.eraseIdx position ++ s.addQueue =
            (if s.outputBuffer = some msg then none else s.outputBuffer).toList
          rw [hnone, hauto, hposition, hqueue]
          rfl
        · intro other hother
          have hnone' : (if s.outputBuffer = some msg then none else s.outputBuffer) =
            some other := hother
          rw [hnone] at hnone'
          cases hnone'
        · have hwritten := (s.onSendMessage protocol msg).written_internalSend msg
            (s.messages msg).message.bodyBytes
          rw [h.added_eq, hunsent, unsent]
          show s.written ++ (s.messages msg).message.bodyBytes =
            ((s.onSendMessage protocol msg).internalSend msg _).written ++
              match (if s.outputBuffer = some msg then none else s.outputBuffer) with
              | none => []
              | some msg => _
          rw [hnone, hwritten, List.append_nil]
          rfl
      · split at hsent
        · cases hsent
        · rw [← ht, ← Option.some.inj hsent]
          refine ⟨h.pendingWrite_eq, h.inFlight_le, ?_, h.holds, h.added_eq⟩
          show s.autoSend.eraseIdx position ++ (s.addQueue ++ [msg]) = s.outputBuffer.toList
          rw [hauto, hposition, hqueue, hbuffer]
          rfl
    · rw [← Option.some.inj hnext]
      exact ⟨h.pendingWrite_eq, h.inFlight_le, hwaiting, h.holds, h.added_eq⟩

theorem ordered_step (h : s.Ordered added) {a : OutputAction} {t : OutputPool}
    (hpunctual : s.Punctual a) (hstep : s.step protocol forceCloseSlowConnection a = some t) :
    t.Ordered (added ++ s.addedBy a) := by
  have hnothing (hnone : s.addedBy a = []) : added ++ s.addedBy a = added := by
    rw [hnone, List.append_nil]
  cases a with
  | startExecutionFrame time =>
    rw [step] at hstep
    split at hstep
    · rw [← Option.some.inj hstep, hnothing rfl]
      exact ⟨h.pendingWrite_eq, h.inFlight_le, h.waiting_eq, h.holds, h.added_eq⟩
    · cases hstep
  | add msgBuf call =>
    rw [step] at hstep
    split at hstep
    · rw [← Option.some.inj hstep]
      exact ordered_add h msgBuf call
    · cases hstep
  | sendAll time =>
    rw [step] at hstep
    split at hstep
    · rw [← Option.some.inj hstep, hnothing rfl]
      exact ordered_sendAll protocol h hpunctual
    · cases hstep
  | sendNext =>
    obtain ⟨position, -, hnext⟩ := Option.bind_eq_some_iff.mp hstep
    rw [hnothing rfl]
    exact ordered_sendNext protocol forceCloseSlowConnection h hnext
  | onWrite =>
    rw [step] at hstep
    split at hstep
    · rw [← Option.some.inj hstep, hnothing rfl]
      refine ⟨?_, ?_, h.waiting_eq, h.holds, h.added_eq⟩
      · show s.pendingWrite - 1 = s.inFlight - 1
        rw [h.pendingWrite_eq]
      · exact (Nat.sub_le _ _).trans h.inFlight_le
    · cases hstep

theorem reachable_step {output : OutputPool → OutputAction → List UInt8}
    (h : (system protocol forceCloseSlowConnection output).Reachable (s, added)) (a : OutputAction)
    (hpunctual : s.Punctual a) {t : OutputPool}
    (hstep : s.step protocol forceCloseSlowConnection a = some t) :
    (system protocol forceCloseSlowConnection output).Reachable (t, added ++ output s a) := by
  apply Transition.reachable_restrict_step h a hpunctual
  rw [Transition.logged, hstep]
  rfl

theorem Ordered.of_reachable
    (h : (system protocol forceCloseSlowConnection addedBy).Reachable (s, added)) :
    s.Ordered added := by
  apply h.invariant fun state => state.1.Ordered state.2
  · rintro ⟨s, added⟩ ⟨hidle, hnil⟩
    dsimp only at hnil ⊢
    rw [hnil]
    exact ordered_of_idle hidle
  · rintro ⟨s, added⟩ a ⟨t, added'⟩ hordered ⟨hpunctual, hstep⟩
    obtain ⟨next, hnext, heq⟩ := Option.map_eq_some_iff.mp hstep
    obtain ⟨hnext_eq, hadded⟩ := Prod.mk.inj heq
    dsimp only
    rw [← hnext_eq, ← hadded]
    exact ordered_step protocol forceCloseSlowConnection hordered hpunctual hnext

/-- At most one write is in flight, and the bodies handed over are a prefix of what the calls with room
have added.  What a peer reads from the frames that they were made into is said in `carries_writes`. -/
theorem written_prefix
    (h : (system protocol forceCloseSlowConnection addedBy).Reachable (s, added)) :
    s.inFlight ≤ 1 ∧ s.written <+: added := by
  have hordered := Ordered.of_reachable protocol forceCloseSlowConnection h
  refine ⟨hordered.inFlight_le, s.unsent, ?_⟩
  exact hordered.added_eq.symm

end OutputPool

/-! ## What a write carries -/

/-- The frame of a write is its body, or what a peer reads the body from, behind the length of the
rest and its Adler-32 value where the checksum is on.  A body of the greatest length is not
enciphered as a whole. -/
def Protocol.Carries (p : Protocol) (write : SocketWrite) : Prop :=
  if p.rawMessages then write.frame = write.body
  else ∃ rest,
    (write.frame = if p.checksumEnabled then
      leBytes 2 (rest.length + 4) ++ (leBytes 4 (adler32 rest) ++ rest) else rest) ∧
    if p.encryptionEnabled then
      write.body.length ≠ NETWORKMESSAGE_MAXSIZE - 25 → Framed p.key rest write.body
    else rest = leBytes 2 write.body.length ++ write.body

theorem Protocol.msgSize_xteaEncrypt_le (p : Protocol) {m : OutputMessage} {body : List UInt8}
    (h : Headed m body) : (p.xteaEncrypt m).msgSize ≤ NETWORKMESSAGE_MAXSIZE := by
  have hmax : NETWORKMESSAGE_MAXSIZE = 15360 := rfl
  have hlt := h.body_lt
  have hsize := h.size_eq
  unfold xteaEncrypt BufferedMessage.addPaddingBytes
  dsimp only
  split_ifs
  · show m.msgSize + (8 - m.msgSize % 8) ≤ _
    omega
  · show m.msgSize ≤ _
    omega
  · show m.msgSize ≤ _
    omega

theorem Protocol.carries_onSendMessage (p : Protocol) {message : OutputMessage}
    (hstart : message.outputBufferStart = 8) (h : Holds message.toBufferedMessage msg) :
    p.Carries ⟨message.bodyBytes, (p.onSendMessage message).frame⟩ := by
  obtain ⟨b, start⟩ := message
  dsimp only at hstart h
  subst hstart
  have hheaded := h.headed
  rw [Carries, onSendMessage, h.bodyBytes]
  split
  · rw [OutputMessage.frame, h.msgSize_eq]
    exact h.body_eq
  dsimp only
  generalize (OutputMessage.mk b 8).writeMessageLength = m at hheaded
  -- what stands behind the checksum
  have hrest : (if p.encryptionEnabled then p.xteaEncrypt m else m).outputBufferStart = 6 ∧
      (if p.encryptionEnabled then p.xteaEncrypt m else m).msgSize ≤ NETWORKMESSAGE_MAXSIZE ∧
      if p.encryptionEnabled then
        msg.body.length ≠ NETWORKMESSAGE_MAXSIZE - 25 →
          Framed p.key (if p.encryptionEnabled then p.xteaEncrypt m else m).frame msg.body
      else (if p.encryptionEnabled then p.xteaEncrypt m else m).frame =
        leBytes 2 msg.body.length ++ msg.body := by
    split
    · exact ⟨(p.xteaEncrypt_start m).trans hheaded.start_eq, p.msgSize_xteaEncrypt_le hheaded,
        p.framed_xteaEncrypt hheaded⟩
    · have hmax : NETWORKMESSAGE_MAXSIZE = 15360 := rfl
      have hlt := hheaded.body_lt
      have hsize := hheaded.size_eq
      exact ⟨hheaded.start_eq, by omega, hheaded.frame_eq⟩
  generalize (if p.encryptionEnabled then p.xteaEncrypt m else m) = sent at hrest
  obtain ⟨hstart, hsize, hbody⟩ := hrest
  refine ⟨sent.frame, ?_, hbody⟩
  split
  · next hchecksum =>
    have hlength : sent.frame.length = sent.msgSize := bytesAt_length _ _ _
    rw [hchecksum, hlength]
    exact OutputMessage.frame_addCryptoHeader (by rw [hstart]) hsize
  · rfl

namespace OutputPool

variable (protocol : Protocol) (forceCloseSlowConnection : Bool) {s : OutputPool}
variable {added : List UInt8}

/-- The output buffer begins behind the room for the headers, and every write carries its body. -/
structure Carrying (protocol : Protocol) (s : OutputPool) : Prop where
  start_eq : ∀ msg, s.outputBuffer = some msg → (s.messages msg).message.outputBufferStart = 8
  writes : ∀ write ∈ s.writes, protocol.Carries write

theorem carrying_add (h : Carrying protocol s) (msgBuf : ℕ → UInt8) (call : Add) :
    Carrying protocol (s.add msgBuf call) := by
  have hbuffer : Carrying protocol (s.getOutputBuffer msgBuf).1 := by
    rw [getOutputBuffer]
    split
    · exact h
    · refine ⟨?_, h.writes⟩
      intro msg hmsg
      obtain rfl := Option.some.inj hmsg
      show (Function.update s.messages s.nextMessage
        ⟨OutputMessage.fresh msgBuf, s.frameTime⟩ s.nextMessage).message.outputBufferStart = 8
      rw [Function.update_self]
      rfl
  rw [add]
  generalize s.getOutputBuffer msgBuf = buffer at hbuffer ⊢
  obtain ⟨s', msg⟩ := buffer
  refine ⟨?_, hbuffer.writes⟩
  intro other hother
  have hstart := hbuffer.start_eq other hother
  show (Function.update s'.messages msg { s'.messages msg with
    message := (s'.messages msg).message.addCall call } other).message.outputBufferStart = 8
  by_cases heq : other = msg
  · subst heq
    rw [Function.update_self]
    exact hstart
  · rw [Function.update_of_ne heq]
    exact hstart

theorem carrying_sendNext (hordered : s.Ordered added) (h : Carrying protocol s) {position : ℕ}
    {t : OutputPool} (hnext : s.sendNext protocol forceCloseSlowConnection position = some t) :
    Carrying protocol t := by
  rw [sendNext] at hnext
  split at hnext
  · rw [← Option.some.inj hnext]
    exact ⟨h.start_eq, h.writes⟩
  · next msg hmsg =>
    split at hnext
    · -- there is only one message
      have hin : msg ∈ s.outputBuffer.toList := by
        rw [← hordered.waiting_eq]
        exact List.mem_append_left _ (List.mem_of_getElem? hmsg)
      have hbuffer : s.outputBuffer = some msg := Option.mem_toList.mp hin
      obtain ⟨sent, hsent, ht⟩ := Option.map_eq_some_iff.mp hnext
      rw [send] at hsent
      split at hsent
      · rw [← ht, ← Option.some.inj hsent]
        refine ⟨?_, ?_⟩
        · intro other hother
          have hnone : (if s.outputBuffer = some msg then none else s.outputBuffer) = some other :=
            hother
          rw [if_pos hbuffer] at hnone
          cases hnone
        · intro write hwrite
          rcases List.mem_append.mp hwrite with hbefore | hnew
          · exact h.writes write hbefore
          · obtain ⟨net, hnet⟩ := hordered.holds msg hbuffer
            rw [List.mem_singleton.mp hnew]
            have hself : ((s.onSendMessage protocol msg).messages msg).message =
                protocol.onSendMessage (s.messages msg).message :=
              congrArg PooledMessage.message
                (Function.update_self msg _ s.messages : Function.update s.messages msg _ msg = _)
            rw [hself]
            exact protocol.carries_onSendMessage (h.start_eq msg hbuffer) hnet
      · split at hsent
        · cases hsent
        · rw [← ht, ← Option.some.inj hsent]
          exact ⟨h.start_eq, h.writes⟩
    · rw [← Option.some.inj hnext]
      exact ⟨h.start_eq, h.writes⟩

theorem carrying_step (hordered : s.Ordered added) (h : Carrying protocol s) {a : OutputAction}
    {t : OutputPool} (hpunctual : s.Punctual a)
    (hstep : s.step protocol forceCloseSlowConnection a = some t) : Carrying protocol t := by
  cases a with
  | startExecutionFrame time =>
    rw [step] at hstep
    split at hstep
    · rw [← Option.some.inj hstep]
      exact ⟨h.start_eq, h.writes⟩
    · cases hstep
  | add msgBuf call =>
    rw [step] at hstep
    split at hstep
    · rw [← Option.some.inj hstep]
      exact carrying_add protocol h msgBuf call
    · cases hstep
  | sendAll time =>
    rw [step] at hstep
    split at hstep
    · rw [← Option.some.inj hstep, sendAll, takeQueue_eq protocol hpunctual]
      exact ⟨h.start_eq, h.writes⟩
    · cases hstep
  | sendNext =>
    obtain ⟨position, -, hnext⟩ := Option.bind_eq_some_iff.mp hstep
    exact carrying_sendNext protocol forceCloseSlowConnection hordered h hnext
  | onWrite =>
    rw [step] at hstep
    split at hstep
    · rw [← Option.some.inj hstep]
      exact ⟨h.start_eq, h.writes⟩
    · cases hstep

/-- Every frame that has been written carries its body. -/
theorem carries_writes
    (h : (system protocol forceCloseSlowConnection addedBy).Reachable (s, added)) :
    ∀ write ∈ s.writes, protocol.Carries write := by
  have hboth := h.invariant (fun state => state.1.Ordered state.2 ∧ Carrying protocol state.1) ?_ ?_
  · exact hboth.2.writes
  · rintro ⟨s, added⟩ ⟨hidle, hnil⟩
    dsimp only at hidle hnil ⊢
    rw [hnil]
    refine ⟨ordered_of_idle hidle, ?_, ?_⟩
    · intro msg hmsg
      rw [hidle.outputBuffer_eq] at hmsg
      cases hmsg
    · intro write hwrite
      rw [hidle.writes_eq] at hwrite
      cases hwrite
  · rintro ⟨s, added⟩ a ⟨t, added'⟩ ⟨hordered, hcarrying⟩ ⟨hpunctual, hstep⟩
    obtain ⟨next, hnext, heq⟩ := Option.map_eq_some_iff.mp hstep
    obtain ⟨hnext_eq, hadded⟩ := Prod.mk.inj heq
    dsimp only
    rw [← hnext_eq, ← hadded]
    exact ⟨ordered_step protocol forceCloseSlowConnection hordered hpunctual hnext,
      carrying_step protocol forceCloseSlowConnection hordered hcarrying hpunctual hnext⟩

/-- A pool at the start, with a protocol that sends its messages as they are. -/
def calm : OutputPool where
  autoSend := []
  addQueue := []
  frameTime := 0
  messages := fun _ => ⟨OutputMessage.fresh fun _ => 0, 0⟩
  nextMessage := 0
  outputBuffer := none
  pendingWrite := 0
  cursor := none
  inFlight := 0
  writes := []

theorem calm_idle : calm.Idle := ⟨rfl, rfl, rfl, rfl, rfl, rfl⟩

def rawProtocol : Protocol where
  rawMessages := true
  encryptionEnabled := false
  checksumEnabled := false
  key := fun _ => 0

/-- Two tasks; the second one finds the first one's message still waiting, and the message goes out. -/
def twoTasks : List OutputAction :=
  [.add (fun _ => 0) (.part (.byte 1)), .sendAll 0, .sendNext, .sendNext,
    .startExecutionFrame 20, .add (fun _ => 0) (.part (.byte 2)), .sendAll 20, .sendNext, .sendNext,
    .add (fun _ => 0) (.part (.byte 3))]

theorem written_prefix_twoTasks : ∃ (s : OutputPool) (added : List UInt8),
    (s.inFlight ≤ 1 ∧ s.written <+: added) ∧ s.written = [1, 2] ∧ added = [1, 2, 3] := by
  have hrun : ((Transition.runActions (Transition.guarded
      (fun (s : OutputPool × List UInt8) a => s.1.Punctual a)
      (Transition.logged addedBy (step rawProtocol false))) (calm, []) twoTasks).map
        fun s => (s.1.written, s.2)) = some ([1, 2], [1, 2, 3]) := by
    decide
  obtain ⟨⟨s, added⟩, hreach, heq⟩ := Option.map_eq_some_iff.mp hrun
  obtain ⟨hwritten, hadded⟩ := Prod.mk.inj heq
  have hinit : (system rawProtocol false addedBy).Reachable (calm, []) := .init ⟨calm_idle, rfl⟩
  refine ⟨s, added, ?_, hwritten, hadded⟩
  exact written_prefix rawProtocol false
    (Transition.reachable_restrict_of_runActions hinit twoTasks hreach)

/-- A run of bytes that fits into a message once. -/
@[irreducible] def bulk : List UInt8 := List.replicate 8000 0

theorem bulk_eq : bulk = 0 :: List.replicate 7999 0 := by
  rw [bulk]
  exact List.replicate_succ

theorem length_bulk : bulk.length = 8000 := by
  rw [bulk, List.length_replicate]

/-- The second run of bytes has no room and is dropped, and what follows it is added. -/
theorem body_bulk : (([Part.bytes bulk, .bytes bulk, .byte 1].foldl NetworkMessage.addPart
    NetworkMessage.empty)).body = bulk ++ [1] := by
  have hlimit : bulk.length ≤ 8192 := by
    rw [length_bulk]
    decide
  have hfirst : NetworkMessage.empty.addPart (.bytes bulk) = ⟨bulk, 8008⟩ := by
    rw [NetworkMessage.addPart, if_pos hlimit, NetworkMessage.add, length_bulk]
    rfl
  have hsecond : (⟨bulk, 8008⟩ : NetworkMessage).addPart (.bytes bulk) = ⟨bulk, 8008⟩ := by
    rw [NetworkMessage.addPart, if_pos hlimit, NetworkMessage.add, length_bulk]
    rfl
  rw [List.foldl_cons, List.foldl_cons, List.foldl_cons, List.foldl_nil, hfirst, hsecond]
  rfl

/-- A task adds the first run, -/
def filling : OutputPool := calm.add (fun _ => 0) (.part (.bytes bulk))

/-- then the second one, -/
def full : OutputPool := filling.add (fun _ => 0) (.part (.bytes bulk))

/-- and a byte. -/
def overfull : OutputPool := full.add (fun _ => 0) (.part (.byte 1))

/-- The next task looks at what waits. -/
def looking : OutputPool := ({ overfull with frameTime := 100 } : OutputPool).sendAll rawProtocol 100

/-- The message has been sent. -/
def bulkSent : OutputPool :=
  let sent := (looking.onSendMessage rawProtocol 0).internalSend 0
    (looking.messages 0).message.bodyBytes
  { sent with autoSend := sent.autoSend.eraseIdx 0 }

theorem sendNext_looking : looking.sendNext rawProtocol false 0 = some bulkSent := by
  have hold : 1024 < (looking.messages 0).message.msgSize ∨
      10 < looking.frameTime - (looking.messages 0).frame := .inr (by decide)
  have hsend : looking.send rawProtocol false 0 =
      some ((looking.onSendMessage rawProtocol 0).internalSend 0
        (looking.messages 0).message.bodyBytes) := if_pos rfl
  have hfirst : looking.autoSend[0]? = some 0 := rfl
  rw [sendNext, hfirst]
  dsimp only
  rw [if_pos hold, hsend]
  rfl

theorem bodyBytes_looking : (looking.messages 0).message.bodyBytes = bulk ++ [1] := by
  have hholds := (Holds.fresh fun _ => 0).parts [.bytes bulk, .bytes bulk, .byte 1]
  have hmessage : Holds (looking.messages 0).message.toBufferedMessage
      ([Part.bytes bulk, .bytes bulk, .byte 1].foldl NetworkMessage.addPart NetworkMessage.empty) :=
    hholds
  rw [hmessage.bodyBytes, body_bulk]

theorem bulkSent_reachable :
    (system rawProtocol false askedBy).Reachable (bulkSent, bulk ++ bulk ++ [1]) := by
  have hcalm : (system rawProtocol false askedBy).Reachable (calm, []) := .init ⟨calm_idle, rfl⟩
  have hfilling := reachable_step (t := filling) _ _ hcalm (.add (fun _ => 0) (.part (.bytes bulk)))
    True.intro rfl
  have hfull := reachable_step (t := full) _ _ hfilling (.add (fun _ => 0) (.part (.bytes bulk)))
    True.intro rfl
  have hoverfull := reachable_step (t := overfull) _ _ hfull (.add (fun _ => 0) (.part (.byte 1)))
    True.intro rfl
  have hlate := reachable_step (t := { overfull with frameTime := 100 }) _ _ hoverfull
    (.startExecutionFrame 100) True.intro rfl
  have hlooking := reachable_step (t := looking) _ _ hlate (.sendAll 100) (fun _ h => nomatch h) rfl
  have hsent := reachable_step _ _ hlooking .sendNext True.intro sendNext_looking
  have hasked : [] ++ (bulk ++ []) ++ (bulk ++ []) ++ [1] ++ [] ++ [] ++ [] = bulk ++ bulk ++ [1] := by
    simp only [List.append_nil, List.nil_append]
  rw [← hasked]
  exact hsent

/-- The bytes of a call without room are skipped. -/
theorem written_not_prefix :
    ¬ ∀ (s : OutputPool) (asked : List UInt8),
      (system rawProtocol false askedBy).Reachable (s, asked) →
        s.inFlight ≤ 1 ∧ s.written <+: asked := by
  intro hclaim
  obtain ⟨-, hprefix⟩ := hclaim bulkSent _ bulkSent_reachable
  have hwritten : bulkSent.written = bulk ++ [1] := by
    have hsent := (looking.onSendMessage rawProtocol 0).written_internalSend 0
      (looking.messages 0).message.bodyBytes
    have hbefore : (looking.onSendMessage rawProtocol 0).written = [] := rfl
    rw [bodyBytes_looking, hbefore, List.nil_append] at hsent
    show ((looking.onSendMessage rawProtocol 0).internalSend 0
      (looking.messages 0).message.bodyBytes).written = _
    rw [bodyBytes_looking, hsent]
  rw [hwritten, List.append_assoc] at hprefix
  have hone := (List.prefix_append_right_inj bulk).mp hprefix
  rw [bulk_eq, List.cons_append, List.cons_prefix_cons] at hone
  exact absurd hone.1 (by decide)

end OutputPool

end TyanoCore
