import Mathlib.Tactic.SplitIfs
import TyanoCore.MapDescription
import TyanoCore.Xtea

/-!
# Messages on their way out

A message is filled behind eight bytes of its buffer that are kept for the headers.  When it is sent,
the length of the body is put in front, the whole is padded to blocks of eight bytes and enciphered,
and a checksum with the length of everything goes in front again.
-/

namespace TyanoCore

open Bytes Xtea

/-- A `NetworkMessage` with its buffer. -/
structure BufferedMessage where
  msgBuf : ℕ → UInt8
  msgSize : ℕ
  readPos : ℕ

/-- What `strlen` measures in a `uint32_t`. -/
structure CString where
  bytes : List UInt8
  no_nul : 0 ∉ bytes
  length_lt : bytes.length < 2 ^ 32

instance : Inhabited CString := ⟨⟨[], List.not_mem_nil, by decide⟩⟩

/-- What a message holds of an item. -/
structure ItemView where
  clientId : UInt16
  stackable : Bool
  isRune : Bool
  isSplash : Bool
  isFluidContainer : Bool
  subType : UInt16

def fluidMap : List UInt8 := [0x00, 0x01, 0x05, 0x03, 0x06, 0x08, 0x09, 0x02]

namespace BufferedMessage

def canAdd (msg : BufferedMessage) (size : ℕ) : Bool :=
  size + msg.readPos < NETWORKMESSAGE_MAXSIZE - 16

/-- Bytes at the position, which moves behind them. -/
def put (msg : BufferedMessage) (bytes : List UInt8) : BufferedMessage where
  msgBuf := write msg.msgBuf msg.readPos bytes
  msgSize := msg.msgSize + bytes.length
  readPos := msg.readPos + bytes.length

/-- A value of a fixed size. -/
def addValue (msg : BufferedMessage) (bytes : List UInt8) : BufferedMessage :=
  if msg.canAdd bytes.length then msg.put bytes else msg

def addByte (msg : BufferedMessage) (value : UInt8) : BufferedMessage := msg.addValue [value]

def addU16 (msg : BufferedMessage) (value : ℕ) : BufferedMessage := msg.addValue (leBytes 2 value)

def addU32 (msg : BufferedMessage) (value : ℕ) : BufferedMessage := msg.addValue (leBytes 4 value)

def addString (msg : BufferedMessage) (value : CString) : BufferedMessage :=
  let stringLen := value.bytes.length
  if ¬ msg.canAdd (stringLen + 2) ∨ stringLen > 8192 then msg
  else
    let msg := msg.addU16 stringLen
    -- `strcpy` copies the zero at the end as well
    { msgBuf := write msg.msgBuf msg.readPos (value.bytes ++ [0])
      msgSize := msg.msgSize + stringLen
      readPos := msg.readPos + stringLen }

def addBytes (msg : BufferedMessage) (bytes : List UInt8) : BufferedMessage :=
  if ¬ msg.canAdd bytes.length ∨ bytes.length > 8192 then msg else msg.put bytes

/-- The position stays before the padding. -/
def addPaddingBytes (msg : BufferedMessage) (n : ℕ) : BufferedMessage :=
  if ¬ msg.canAdd n then msg
  else
    { msg with
      msgBuf := write msg.msgBuf msg.readPos (List.replicate n 0x33)
      msgSize := msg.msgSize + n }

def addPosition (msg : BufferedMessage) (x y : UInt16) (z : UInt8) : BufferedMessage :=
  ((msg.addU16 x.toNat).addU16 y.toNat).addByte z

def addPositionEx (msg : BufferedMessage) (x y : UInt16) (z index : UInt8) : BufferedMessage :=
  (((msg.addU16 x.toNat).addU16 y.toNat).addByte z).addByte index

def addItem (msg : BufferedMessage) (item : ItemView) : BufferedMessage :=
  let msg := msg.addU16 item.clientId.toNat
  if item.stackable ∨ item.isRune then msg.addByte item.subType.toUInt8
  else if item.isSplash ∨ item.isFluidContainer then
    msg.addByte (fluidMap.getD (item.subType.toNat % 8) 0)
  else msg

/-- `AddItemId` with the client's number of the kind, if there is one. -/
def addItemId (msg : BufferedMessage) (clientId : Option UInt16) : BufferedMessage :=
  msg.addU16 ((clientId.map UInt16.toNat).getD 0)

end BufferedMessage

/-- The calls that write one value. -/
inductive Part where
  | byte (value : UInt8)
  | u16 (value : ℕ)
  | u32 (value : ℕ)
  | string (value : CString)
  | bytes (bytes : List UInt8)

/-- The calls that fill a message. -/
inductive Add where
  | part (part : Part)
  | position (x y : UInt16) (z : UInt8)
  | positionEx (x y : UInt16) (z index : UInt8)
  | item (item : ItemView)
  | itemId (clientId : Option UInt16)

def BufferedMessage.addPart (msg : BufferedMessage) : Part → BufferedMessage
  | .byte value => msg.addByte value
  | .u16 value => msg.addU16 value
  | .u32 value => msg.addU32 value
  | .string value => msg.addString value
  | .bytes bytes => msg.addBytes bytes

def BufferedMessage.add (msg : BufferedMessage) : Add → BufferedMessage
  | .part part => msg.addPart part
  | .position x y z => msg.addPosition x y z
  | .positionEx x y z index => msg.addPositionEx x y z index
  | .item item => msg.addItem item
  | .itemId clientId => msg.addItemId clientId

/-! ## Sending -/

structure OutputMessage extends BufferedMessage where
  outputBufferStart : ℕ

/-- A message from the pool; its buffer holds what an earlier message has left. -/
def OutputMessage.fresh (msgBuf : ℕ → UInt8) : OutputMessage where
  msgBuf := msgBuf
  msgSize := 0
  readPos := 8
  outputBufferStart := 8

def adlerStep (s : UInt32 × UInt32) (byte : UInt8) : UInt32 × UInt32 :=
  let a := s.1 + byte.toUInt32
  (a, s.2 + a)

def adlerFrom (data : List UInt8) (a b : UInt32) : UInt32 :=
  if data = [] then b <<< 16 ||| a
  else
    let s := (data.take 5552).foldl adlerStep (a, b)
    adlerFrom (data.drop 5552) (s.1 % 65521) (s.2 % 65521)
termination_by data.length
decreasing_by
  have := List.length_pos_of_ne_nil ‹_›
  rw [List.length_drop]
  omega

def adlerChecksum (data : List UInt8) : UInt32 :=
  if data.length > NETWORKMESSAGE_MAXSIZE then 0 else adlerFrom data 1 0

namespace OutputMessage

/-- The bytes from `getOutputBuffer()` on, `getMessageLength()` of them. -/
def frame (msg : OutputMessage) : List UInt8 :=
  bytesAt msg.msgBuf msg.outputBufferStart msg.msgSize

/-- `addHeader` of a value of `size` bytes. -/
def addHeader (msg : OutputMessage) (size value : ℕ) : OutputMessage :=
  if msg.outputBufferStart < size then msg
  else
    { msg with
      outputBufferStart := msg.outputBufferStart - size
      msgBuf := write msg.msgBuf (msg.outputBufferStart - size) (leBytes size value)
      msgSize := msg.msgSize + size }

def writeMessageLength (msg : OutputMessage) : OutputMessage := msg.addHeader 2 msg.msgSize

def addCryptoHeader (msg : OutputMessage) (addChecksum : Bool) : OutputMessage :=
  let msg := if addChecksum then msg.addHeader 4 (adlerChecksum msg.frame).toNat else msg
  msg.addHeader 2 msg.msgSize

end OutputMessage

structure Protocol where
  rawMessages : Bool
  encryptionEnabled : Bool
  checksumEnabled : Bool
  key : Key

namespace Protocol

/-- The length that is enciphered is counted here and not taken from the message. -/
def xteaEncrypt (p : Protocol) (msg : OutputMessage) : OutputMessage :=
  let n := 8 - msg.msgSize % 8
  let padded := msg.msgSize % 8 ≠ 0
  let messageLength := if padded then msg.msgSize + n else msg.msgSize
  let msg := if padded then { msg with toBufferedMessage := msg.addPaddingBytes n } else msg
  { msg with msgBuf := encryptFrom p.key msg.outputBufferStart messageLength 0 msg.msgBuf }

def onSendMessage (p : Protocol) (msg : OutputMessage) : OutputMessage :=
  if p.rawMessages then msg
  else
    let msg := msg.writeMessageLength
    let msg := if p.encryptionEnabled then p.xteaEncrypt msg else msg
    if p.checksumEnabled then msg.addCryptoHeader p.checksumEnabled else msg

end Protocol

/-! ## What a message holds -/

/-- The calls for one value that a call consists of. -/
def Add.parts : Add → List Part
  | .part single => [single]
  | .position x y z => [.u16 x.toNat, .u16 y.toNat, .byte z]
  | .positionEx x y z index => [.u16 x.toNat, .u16 y.toNat, .byte z, .byte index]
  | .item view =>
    .u16 view.clientId.toNat ::
      if view.stackable ∨ view.isRune then [.byte view.subType.toUInt8]
      else if view.isSplash ∨ view.isFluidContainer then
        [.byte (fluidMap.getD (view.subType.toNat % 8) 0)]
      else []
  | .itemId clientId => [.u16 ((clientId.map UInt16.toNat).getD 0)]

/-- A value is added whole where it has room, strings and byte runs of at most 8192 bytes. -/
def NetworkMessage.addPart (msg : NetworkMessage) : Part → NetworkMessage
  | .byte value => msg.add [value]
  | .u16 value => msg.add (leBytes 2 value)
  | .u32 value => msg.add (leBytes 4 value)
  | .string value =>
    if value.bytes.length ≤ 8192 then msg.add (leBytes 2 value.bytes.length ++ value.bytes) else msg
  | .bytes bytes => if bytes.length ≤ 8192 then msg.add bytes else msg

/-- The body that calls add to an empty message. -/
def body (calls : List Add) : List UInt8 :=
  ((calls.flatMap Add.parts).foldl NetworkMessage.addPart NetworkMessage.empty).body

/-- A buffer holds a message: the body stands behind the room for the headers. -/
structure Holds (b : BufferedMessage) (msg : NetworkMessage) : Prop where
  readPos_eq : b.readPos = msg.readPos
  msgSize_eq : b.msgSize = msg.body.length
  body_end : msg.readPos = 8 + msg.body.length
  body_eq : bytesAt b.msgBuf 8 msg.body.length = msg.body
  body_lt : msg.readPos < NETWORKMESSAGE_MAXSIZE - 16

variable {b : BufferedMessage} {msg : NetworkMessage}

theorem Holds.canAdd (h : Holds b msg) (size : ℕ) : b.canAdd size = msg.canAdd size := by
  rw [BufferedMessage.canAdd, NetworkMessage.canAdd, h.readPos_eq]

/-- Bytes for which there is room, written at the position; what stands behind them is open. -/
theorem Holds.write (h : Holds b msg) {bytes : List UInt8} (rest : List UInt8)
    (hroom : bytes.length + msg.readPos < NETWORKMESSAGE_MAXSIZE - 16) :
    Holds ⟨write b.msgBuf b.readPos (bytes ++ rest), b.msgSize + bytes.length,
      b.readPos + bytes.length⟩ ⟨msg.body ++ bytes, msg.readPos + bytes.length⟩ := by
  have hlength : (msg.body ++ bytes).length = msg.body.length + bytes.length :=
    List.length_append
  constructor
  · exact congrArg (· + bytes.length) h.readPos_eq
  · rw [hlength, h.msgSize_eq]
  · rw [hlength, h.body_end, Nat.add_assoc]
  · have hbefore : bytesAt (Bytes.write b.msgBuf b.readPos (bytes ++ rest)) 8 msg.body.length =
        msg.body := by
      apply Eq.trans _ h.body_eq
      apply bytesAt_write_before
      rw [h.readPos_eq, h.body_end]
    have hwritten : bytesAt (Bytes.write b.msgBuf b.readPos (bytes ++ rest)) (8 + msg.body.length)
        bytes.length = bytes := by
      have hall := bytesAt_write b.msgBuf b.readPos (bytes ++ rest)
      rw [List.length_append, bytesAt_add] at hall
      rw [← h.body_end, ← h.readPos_eq]
      exact (List.append_inj hall (bytesAt_length _ _ _)).1
    rw [hlength, bytesAt_add, hbefore, hwritten]
  · rw [Nat.add_comm]
    exact hroom

theorem Holds.addValue (h : Holds b msg) (bytes : List UInt8) :
    Holds (b.addValue bytes) (msg.add bytes) := by
  rw [BufferedMessage.addValue, NetworkMessage.add, h.canAdd]
  split
  · next hroom =>
    have hwrite := h.write [] (of_decide_eq_true hroom)
    rw [List.append_nil] at hwrite
    exact hwrite
  · exact h

theorem Holds.addString (h : Holds b msg) (value : CString) :
    Holds (b.addString value) (msg.addPart (.string value)) := by
  have hlength : (leBytes 2 value.bytes.length ++ value.bytes).length =
      value.bytes.length + 2 := by
    rw [List.length_append, leBytes_length, Nat.add_comm]
  rw [BufferedMessage.addString, NetworkMessage.addPart, NetworkMessage.add, h.canAdd, hlength]
  by_cases hlimit : value.bytes.length ≤ 8192
  · rw [if_pos hlimit]
    by_cases hroom : msg.canAdd (value.bytes.length + 2) = true
    · have hnot : ¬ (¬ msg.canAdd (value.bytes.length + 2) = true ∨ value.bytes.length > 8192) := by
        simp [hroom, hlimit]
      have hsum := of_decide_eq_true hroom
      have htwo : msg.canAdd (leBytes 2 value.bytes.length).length = true := by
        apply decide_eq_true
        rw [leBytes_length]
        omega
      have hlength' := h.addValue (leBytes 2 value.bytes.length)
      rw [NetworkMessage.add, if_pos htwo] at hlength'
      rw [if_neg hnot, if_pos hroom]
      have hroom' : value.bytes.length + (msg.readPos + (leBytes 2 value.bytes.length).length) <
          NETWORKMESSAGE_MAXSIZE - 16 := by
        rw [leBytes_length]
        omega
      have hbytes := hlength'.write [0] hroom'
      rw [List.append_assoc, Nat.add_assoc, ← List.length_append, hlength] at hbytes
      exact hbytes
    · rw [if_pos (.inl hroom), if_neg hroom]
      exact h
  · rw [if_pos (.inr (Nat.lt_of_not_le hlimit)), if_neg hlimit]
    exact h

theorem Holds.addBytes (h : Holds b msg) (bytes : List UInt8) :
    Holds (b.addBytes bytes) (msg.addPart (.bytes bytes)) := by
  have hvalue := h.addValue bytes
  rw [BufferedMessage.addValue] at hvalue
  rw [BufferedMessage.addBytes, NetworkMessage.addPart]
  by_cases hlimit : bytes.length ≤ 8192
  · rw [if_pos hlimit]
    by_cases hroom : b.canAdd bytes.length = true
    · rw [if_pos hroom] at hvalue
      rw [if_neg (by simp [hroom, hlimit])]
      exact hvalue
    · rw [if_neg hroom] at hvalue
      rw [if_pos (.inl hroom)]
      exact hvalue
  · rw [if_pos (.inr (Nat.lt_of_not_le hlimit)), if_neg hlimit]
    exact h

theorem Holds.addPart (h : Holds b msg) (part : Part) :
    Holds (b.addPart part) (msg.addPart part) := by
  cases part with
  | byte value => exact h.addValue _
  | u16 value => exact h.addValue _
  | u32 value => exact h.addValue _
  | string value => exact h.addString value
  | bytes bytes => exact h.addBytes bytes

theorem add_parts (b : BufferedMessage) (call : Add) :
    b.add call = call.parts.foldl BufferedMessage.addPart b := by
  cases call with
  | item item =>
    rw [BufferedMessage.add, BufferedMessage.addItem, Add.parts, List.foldl_cons]
    split
    · rfl
    · split <;> rfl
  | _ => rfl

theorem Holds.parts (h : Holds b msg) (parts : List Part) :
    Holds (parts.foldl BufferedMessage.addPart b) (parts.foldl NetworkMessage.addPart msg) := by
  induction parts generalizing b msg with
  | nil => exact h
  | cons part parts ih => exact ih (h.addPart part)

/-- After any calls a fresh message holds their body. -/
theorem holds_calls (msgBuf : ℕ → UInt8) (calls : List Add) :
    ∃ msg, msg.body = body calls ∧
      Holds (calls.foldl BufferedMessage.add (OutputMessage.fresh msgBuf).toBufferedMessage) msg := by
  refine ⟨_, rfl, ?_⟩
  have hfresh : Holds (OutputMessage.fresh msgBuf).toBufferedMessage NetworkMessage.empty :=
    ⟨rfl, rfl, rfl, rfl, by decide⟩
  have hparts (b : BufferedMessage) : calls.foldl BufferedMessage.add b =
      (calls.flatMap Add.parts).foldl BufferedMessage.addPart b := by
    induction calls generalizing b with
    | nil => rfl
    | cons call calls ih =>
      rw [List.foldl_cons, List.flatMap_cons, List.foldl_append, ih, add_parts]
  rw [hparts]
  exact hfresh.parts _

/-! ## What is sent -/

/-- The message before the checksum header. -/
def Protocol.sentFrame (p : Protocol) (msg : OutputMessage) : List UInt8 :=
  msg.frame.drop (if p.checksumEnabled then 6 else 0)

/-- Whole blocks, from which a peer with the key reads the length of the body and the body. -/
def Framed (key : Key) (frame body : List UInt8) : Prop :=
  8 ∣ frame.length ∧ leBytes 2 body.length ++ body <+: decryptFrame key frame

namespace OutputMessage

theorem addHeader_frame {msg : OutputMessage} {size value : ℕ}
    (h : size ≤ msg.outputBufferStart) :
    (msg.addHeader size value).frame = leBytes size value ++ msg.frame := by
  have hend : msg.outputBufferStart - size + size = msg.outputBufferStart := Nat.sub_add_cancel h
  have hwritten := bytesAt_write msg.msgBuf (msg.outputBufferStart - size) (leBytes size value)
  have hafter : bytesAt (write msg.msgBuf (msg.outputBufferStart - size) (leBytes size value))
      msg.outputBufferStart msg.msgSize = bytesAt msg.msgBuf msg.outputBufferStart msg.msgSize := by
    apply bytesAt_write_after
    rw [leBytes_length, hend]
  rw [leBytes_length] at hwritten
  rw [addHeader, if_neg (Nat.not_lt_of_le h), frame]
  dsimp only
  rw [Nat.add_comm, bytesAt_add, hwritten, hend, hafter]
  rfl

theorem addHeader_start {msg : OutputMessage} {size value : ℕ}
    (h : size ≤ msg.outputBufferStart) :
    (msg.addHeader size value).outputBufferStart = msg.outputBufferStart - size := by
  rw [addHeader, if_neg (Nat.not_lt_of_le h)]

/-- The checksum header goes in front of the frame. -/
theorem addCryptoHeader_frame {msg : OutputMessage} (h : 6 ≤ msg.outputBufferStart) :
    (msg.addCryptoHeader true).frame.drop 6 = msg.frame := by
  have hchecksum : 4 ≤ msg.outputBufferStart := Nat.le_trans (by decide) h
  rw [addCryptoHeader, if_pos rfl]
  rw [addHeader_frame, addHeader_frame hchecksum, ← List.append_assoc]
  · apply List.drop_left'
    rw [List.length_append, leBytes_length, leBytes_length]
  · rw [addHeader_start hchecksum]
    omega

end OutputMessage

/-- A message with the length of its body in front. -/
structure Headed (m : OutputMessage) (body : List UInt8) : Prop where
  start_eq : m.outputBufferStart = 6
  size_eq : m.msgSize = body.length + 2
  readPos_eq : m.readPos = body.length + 8
  body_lt : body.length < NETWORKMESSAGE_MAXSIZE - 24
  frame_eq : m.frame = leBytes 2 body.length ++ body

theorem Holds.headed (h : Holds b msg) :
    Headed (OutputMessage.mk b 8).writeMessageLength msg.body := by
  have hstart : 2 ≤ (OutputMessage.mk b 8).outputBufferStart := (by decide : 2 ≤ 8)
  have hframe : (OutputMessage.mk b 8).frame = msg.body := by
    rw [OutputMessage.frame, h.msgSize_eq]
    exact h.body_eq
  have hend := h.body_end
  constructor
  · exact OutputMessage.addHeader_start hstart
  · exact congrArg (· + 2) h.msgSize_eq
  · rw [Nat.add_comm, ← hend, ← h.readPos_eq]
    rfl
  · have := h.body_lt
    omega
  · rw [OutputMessage.writeMessageLength, OutputMessage.addHeader_frame hstart, hframe,
      h.msgSize_eq]

namespace Protocol

variable {m : OutputMessage} {body : List UInt8}

theorem xteaEncrypt_start (p : Protocol) (m : OutputMessage) :
    (p.xteaEncrypt m).outputBufferStart = m.outputBufferStart := by
  unfold xteaEncrypt
  dsimp only
  split_ifs <;> rfl

theorem framed_encryptFrom {key : Key} {mem : ℕ → UInt8} {start q : ℕ}
    (hpre : leBytes 2 body.length ++ body <+: bytesAt mem start (8 * q)) :
    Framed key (bytesAt (encryptFrom key start (8 * q) 0 mem) start (8 * q)) body := by
  have hinverse := decryptFrame_encryptFrom key start q 0 mem
  rw [Nat.mul_zero, Nat.zero_add, Nat.add_zero] at hinverse
  constructor
  · rw [bytesAt_length]
    exact Nat.dvd_mul_right 8 q
  · rw [hinverse]
    exact hpre

/-- A message whose padding has room is enciphered in whole blocks. -/
theorem framed_xteaEncrypt (p : Protocol) (h : Headed m body)
    (hroom : body.length ≠ NETWORKMESSAGE_MAXSIZE - 25) :
    Framed p.key (p.xteaEncrypt m).frame body := by
  have hlt := h.body_lt
  have hmax : NETWORKMESSAGE_MAXSIZE = 15360 := rfl
  have hframe := h.frame_eq
  have hsize := h.size_eq
  rw [OutputMessage.frame, hsize] at hframe
  unfold xteaEncrypt OutputMessage.frame
  dsimp only
  rw [hsize]
  by_cases hpadded : (body.length + 2) % 8 ≠ 0
  · rw [if_pos hpadded, if_pos hpadded]
    have hcan : m.canAdd (8 - (body.length + 2) % 8) = true := by
      apply decide_eq_true
      rw [h.readPos_eq]
      omega
    obtain ⟨q, hq⟩ : ∃ q, body.length + 2 + (8 - (body.length + 2) % 8) = 8 * q :=
      ⟨(body.length + 2) / 8 + 1, by omega⟩
    rw [BufferedMessage.addPaddingBytes, if_neg (not_not.mpr hcan)]
    dsimp only
    rw [hsize, hq]
    apply framed_encryptFrom
    -- the padding stands behind the body
    rw [← hq, bytesAt_add, bytesAt_write_before, hframe]
    · exact List.prefix_append _ _
    · rw [h.start_eq, h.readPos_eq]
      omega
  · rw [if_neg hpadded, if_neg hpadded]
    obtain ⟨q, hq⟩ : ∃ q, body.length + 2 = 8 * q := ⟨(body.length + 2) / 8, by omega⟩
    rw [hsize, hq]
    apply framed_encryptFrom
    rw [← hq, hframe]

/-- At the brim the padding is dropped, and the frame ends within a block. -/
theorem not_framed_xteaEncrypt (p : Protocol) (h : Headed m body)
    (hbrim : body.length = NETWORKMESSAGE_MAXSIZE - 25) :
    ¬ Framed p.key (p.xteaEncrypt m).frame body := by
  intro hframed
  have hmax : NETWORKMESSAGE_MAXSIZE = 15360 := rfl
  have hfull : m.canAdd (8 - m.msgSize % 8) = false := by
    apply decide_eq_false
    rw [h.readPos_eq, h.size_eq]
    omega
  have hlength : (p.xteaEncrypt m).frame.length = m.msgSize := by
    rw [OutputMessage.frame, bytesAt_length]
    unfold xteaEncrypt BufferedMessage.addPaddingBytes
    dsimp only
    rw [hfull]
    split_ifs <;> simp_all
  have hwhole := hframed.1
  rw [hlength, h.size_eq] at hwhole
  omega

end Protocol

/-- A fresh message after calls. -/
def OutputMessage.filled (msgBuf : ℕ → UInt8) (calls : List Add) : OutputMessage where
  toBufferedMessage := calls.foldl BufferedMessage.add (fresh msgBuf).toBufferedMessage
  outputBufferStart := (fresh msgBuf).outputBufferStart

theorem headed_filled (msgBuf : ℕ → UInt8) (calls : List Add) :
    Headed (OutputMessage.filled msgBuf calls).writeMessageLength (body calls) ∧
      (OutputMessage.filled msgBuf calls).msgSize = (body calls).length := by
  obtain ⟨msg, hbody, hholds⟩ := holds_calls msgBuf calls
  rw [← hbody]
  exact ⟨hholds.headed, hholds.msgSize_eq⟩

/-- The checksum does not change what it is computed from. -/
theorem sentFrame_onSendMessage (checksumEnabled : Bool) (key : Key) (msg : OutputMessage)
    (hstart : msg.writeMessageLength.outputBufferStart = 6) :
    let p : Protocol := ⟨false, true, checksumEnabled, key⟩
    p.sentFrame (p.onSendMessage msg) = (p.xteaEncrypt msg.writeMessageLength).frame := by
  intro p
  cases checksumEnabled with
  | false => rfl
  | true =>
    have hroom : 6 ≤ (p.xteaEncrypt msg.writeMessageLength).outputBufferStart := by
      rw [Protocol.xteaEncrypt_start, hstart]
    exact OutputMessage.addCryptoHeader_frame hroom

/-- The bytes that are sent are whole blocks from which a peer reads the length of the body and the
body, for every body but the longest one that fits. -/
theorem onSendMessage_framed_iff (checksumEnabled : Bool) (key : Key) (msgBuf : ℕ → UInt8)
    (calls : List Add) :
    let p : Protocol := ⟨false, true, checksumEnabled, key⟩
    let msg := OutputMessage.filled msgBuf calls
    Framed key (p.sentFrame (p.onSendMessage msg)) (body calls) ↔
      msg.msgSize ≠ NETWORKMESSAGE_MAXSIZE - 25 := by
  intro p msg
  obtain ⟨hheaded, hsize⟩ := headed_filled msgBuf calls
  rw [sentFrame_onSendMessage checksumEnabled key msg hheaded.start_eq, hsize]
  constructor
  · intro hframed hbrim
    exact p.not_framed_xteaEncrypt hheaded hbrim hframed
  · exact p.framed_xteaEncrypt hheaded

theorem body_bytes {xs ys : List UInt8} (hxs : xs.length ≤ 8192) (hys : ys.length ≤ 8192)
    (hroom : xs.length + ys.length < NETWORKMESSAGE_MAXSIZE - 24) :
    body [.part (.bytes xs), .part (.bytes ys)] = xs ++ ys := by
  have hmax : NETWORKMESSAGE_MAXSIZE = 15360 := rfl
  have hx : NetworkMessage.empty.addPart (.bytes xs) = ⟨xs, 8 + xs.length⟩ := by
    have hcan : NetworkMessage.empty.canAdd xs.length = true := by
      apply decide_eq_true
      dsimp only [NetworkMessage.empty]
      omega
    rw [NetworkMessage.addPart, if_pos hxs, NetworkMessage.add, if_pos hcan]
    rfl
  have hy : NetworkMessage.addPart ⟨xs, 8 + xs.length⟩ (.bytes ys) =
      ⟨xs ++ ys, 8 + xs.length + ys.length⟩ := by
    have hcan : NetworkMessage.canAdd ⟨xs, 8 + xs.length⟩ ys.length = true := by
      apply decide_eq_true
      dsimp only
      omega
    rw [NetworkMessage.addPart, if_pos hys, NetworkMessage.add, if_pos hcan]
  have hparts : [Add.part (.bytes xs), .part (.bytes ys)].flatMap Add.parts =
      [.bytes xs, .bytes ys] := rfl
  rw [body, hparts, List.foldl_cons, List.foldl_cons, List.foldl_nil, hx, hy]

/-- Two runs of bytes that fill a message to the brim. -/
def brim : List Add := [.part (.bytes (List.replicate 8192 0)), .part (.bytes (List.replicate 7143 0))]

theorem brim_not_framed :
    let p : Protocol := ⟨false, true, false, fun _ => 0⟩
    ¬ Framed p.key (p.sentFrame (p.onSendMessage (OutputMessage.filled (fun _ => 0) brim)))
      (body brim) := by
  intro p
  obtain ⟨hheaded, -⟩ := headed_filled (fun _ => 0) brim
  have hlength : (body brim).length = NETWORKMESSAGE_MAXSIZE - 25 := by
    rw [brim, body_bytes, List.length_append, List.length_replicate, List.length_replicate]
    · rfl
    · rw [List.length_replicate]
    · rw [List.length_replicate]
      decide
    · rw [List.length_replicate, List.length_replicate]
      decide
  exact p.not_framed_xteaEncrypt hheaded hlength

end TyanoCore
