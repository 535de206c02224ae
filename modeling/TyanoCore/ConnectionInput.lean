import Mathlib.Data.Int.Notation
import TyanoCore.Framing
import TyanoCore.Run

/-!
# Messages on their way in

A connection reads two bytes with the size of a packet and then as many bytes as they say.  A packet
that begins with the checksum of its rest loses it, and what is left is deciphered in place and
handed to the protocol.  Whether the deciphering succeeded is not looked at.

The bytes of a peer arrive in pieces of any length, whenever the network brings them; a read that is
pending completes once it has its bytes, at any time after that.
-/

namespace TyanoCore.ConnectionInput

open Bytes Xtea Transition

/-! ## What happens to a packet -/

/-- A value that is kept in a `uint32_t`. -/
def uint32 (value : ℤ) : ℕ := (value % 2 ^ 32).toNat

/-- `adlerChecksum` of `length` bytes from a position on; of too many it reads none. -/
def adlerChecksumAt (mem : ℕ → UInt8) (pos length : ℕ) : UInt32 :=
  if length > NETWORKMESSAGE_MAXSIZE then 0 else adlerFrom (bytesAt mem pos length) 1 0

/-- The message with the size that its first two bytes say, and that size. -/
def decodeHeader (msg : BufferedMessage) : BufferedMessage × ℕ :=
  let size := (msg.msgBuf 0).toNat ||| (msg.msgBuf 1).toNat <<< 8
  ({ msg with msgSize := size }, size)

def XTEA_decrypt (key : Key) (msg : BufferedMessage) : BufferedMessage × Bool :=
  if ((msg.msgSize : ℤ) - 6).tmod 8 ≠ 0 then (msg, false)
  else
    let messageLength := (msg.msgSize : ℤ) - 6
    let msg := { msg with msgBuf := decryptFrom key msg.readPos messageLength.toNat 0 msg.msgBuf }
    let tmp := leNat (bytesAt msg.msgBuf msg.readPos 2)
    let msg := { msg with readPos := msg.readPos + 2 }
    if (tmp : ℤ) > msg.msgSize - 8 then (msg, false) else ({ msg with msgSize := tmp }, true)

/-- The message that `Protocol::onRecvMessage` hands to `parsePacket`. -/
def onRecvMessage (p : Protocol) (msg : BufferedMessage) : BufferedMessage :=
  if p.encryptionEnabled then (XTEA_decrypt p.key msg).1 else msg

/-- The message that `Connection::parsePacket` hands to its protocol, after the first one. -/
def parsePacket (msg : BufferedMessage) : BufferedMessage :=
  let length := uint32 (msg.msgSize - msg.readPos - 4)
  let checksumReceived := leNat (bytesAt msg.msgBuf msg.readPos 4)
  let checksum := if length > 0 then adlerChecksumAt msg.msgBuf (msg.readPos + 4) length else 0
  if checksumReceived = checksum.toNat then { msg with readPos := msg.readPos + 4 } else msg

/-! ## The connection and its peer -/

/-- What a connection waits for. -/
inductive Reading where
  | header
  | body (size : ℕ)
  | closed

/-- A connection, the bytes that are under way to it, and what has happened so far. -/
structure State where
  sent : List (List UInt8)
  onWire : List UInt8
  arrived : List UInt8
  reading : Reading
  msg : BufferedMessage
  handed : List BufferedMessage

inductive Action where
  | send (bytes : List UInt8)
  | arrive (n : ℕ)
  | complete

namespace State

/-- `Connection::parseHeader`, when two bytes have been read into the buffer. -/
def parseHeader (s : State) (bytes : List UInt8) : State :=
  let (msg, size) := decodeHeader { s.msg with msgBuf := write s.msg.msgBuf 0 bytes }
  if size = 0 ∨ size ≥ NETWORKMESSAGE_MAXSIZE - 16 then { s with msg, reading := .closed }
  else
    -- the position is set when the body is about to be read
    { s with msg := { msg with msgSize := size + 2, readPos := 2 }, reading := .body size }

/-- `Connection::parsePacket`, when the body has been read into the buffer. -/
def parseBody (p : Protocol) (s : State) (bytes : List UInt8) : State :=
  let msg := onRecvMessage p (parsePacket { s.msg with msgBuf := write s.msg.msgBuf 2 bytes })
  { s with msg, reading := .header, handed := s.handed ++ [msg] }

def step (p : Protocol) (s : State) : Action → Option State
  | .send bytes => some { s with sent := s.sent ++ [bytes], onWire := s.onWire ++ bytes }
  | .arrive n =>
    some { s with onWire := s.onWire.drop n, arrived := s.arrived ++ s.onWire.take n }
  | .complete =>
    match s.reading with
    | .header =>
      if s.arrived.length < 2 then none
      else some ({ s with arrived := s.arrived.drop 2 }.parseHeader (s.arrived.take 2))
    | .body size =>
      if s.arrived.length < size then none
      else some ({ s with arrived := s.arrived.drop size }.parseBody p (s.arrived.take size))
    | .closed => none

end State

/-- A connection of a protocol, from its second message on; its buffer holds what the first one has
left. -/
def system (p : Protocol) (msgBuf : ℕ → UInt8) : System State Action :=
  .ofStep (fun s => s.sent = [] ∧ s.onWire = [] ∧ s.arrived = [] ∧ s.reading = .header ∧
    s.msg.msgBuf = msgBuf ∧ s.handed = []) (State.step p)

variable {p : Protocol} {msgBuf : ℕ → UInt8} {s t : State} {a : Action}

/-! ## A packet and what becomes of it -/

/-- A packet with its size and its checksum in front. -/
def packet (frame : List UInt8) : List UInt8 :=
  leBytes 2 (frame.length + 4) ++ (leBytes 4 (adlerChecksum frame).toNat ++ frame)

/-- What a packet may hold. -/
structure Sendable (frame : List UInt8) : Prop where
  pos : 0 < frame.length
  room : frame.length + 20 < NETWORKMESSAGE_MAXSIZE

/-- The protocol is handed what is left of a packet.  It is deciphered if it consists of whole blocks,
and the length that stands in it becomes the message's if it can be right. -/
def Hands (p : Protocol) (frame : List UInt8) (msg : BufferedMessage) : Prop :=
  Sendable frame ∧
  if p.encryptionEnabled = true ∧ 8 ∣ frame.length then
    let plain := decryptFrame p.key frame
    let announced := leNat (plain.take 2)
    msg.readPos = 8 ∧ bytesAt msg.msgBuf 6 frame.length = plain ∧
      msg.msgSize = if announced ≤ frame.length - 2 then announced else frame.length + 6
  else msg.readPos = 6 ∧ msg.msgSize = frame.length + 6 ∧ bytesAt msg.msgBuf 6 frame.length = frame

theorem packet_inj {frame frame' : List UInt8} (h : packet frame = packet frame') :
    frame = frame' := by
  have hsize := List.append_inj h ((leBytes_length 2 _).trans (leBytes_length 2 _).symm)
  exact (List.append_inj hsize.2 ((leBytes_length 4 _).trans (leBytes_length 4 _).symm)).2

theorem decodeHeader_write (msg : BufferedMessage) {bytes : List UInt8} (h : bytes.length = 2) :
    decodeHeader { msg with msgBuf := write msg.msgBuf 0 bytes } =
      ({ msg with msgBuf := write msg.msgBuf 0 bytes, msgSize := leNat bytes }, leNat bytes) := by
  obtain ⟨low, high, rfl⟩ := List.length_eq_two.mp h
  have hsize : low.toNat ||| high.toNat <<< 8 = leNat [low, high] := by
    rw [Nat.or_comm, Nat.shiftLeft_eq, Nat.mul_comm, ← Nat.two_pow_add_eq_or_of_lt low.toNat_lt]
    exact Nat.add_comm _ _
  rw [decodeHeader, ← hsize]
  rfl

theorem adlerChecksumAt_eq (mem : ℕ → UInt8) (pos length : ℕ) :
    adlerChecksumAt mem pos length = adlerChecksum (bytesAt mem pos length) := by
  rw [adlerChecksumAt, adlerChecksum, bytesAt_length]

/-- The checksum is found in front of what it has been computed from, and is skipped. -/
theorem parsePacket_checksum {msg : BufferedMessage} {frame : List UInt8} (hframe : Sendable frame)
    (hpos : msg.readPos = 2) (hsize : msg.msgSize = frame.length + 6)
    (hbytes : bytesAt msg.msgBuf 2 (frame.length + 4) =
      leBytes 4 (adlerChecksum frame).toNat ++ frame) :
    parsePacket msg = { msg with readPos := 6 } ∧ bytesAt msg.msgBuf 6 frame.length = frame := by
  rw [Nat.add_comm, bytesAt_add] at hbytes
  obtain ⟨hchecksum, hrest⟩ :=
    List.append_inj hbytes ((bytesAt_length _ _ _).trans (leBytes_length 4 _).symm)
  have hmax : NETWORKMESSAGE_MAXSIZE = 15360 := rfl
  have hroom := hframe.room
  have hlength : uint32 (msg.msgSize - msg.readPos - 4) = frame.length := by
    rw [uint32, hpos, hsize]
    omega
  have hreceived : leNat (bytesAt msg.msgBuf 2 4) = (adlerChecksum frame).toNat := by
    rw [hchecksum]
    exact leNat_leBytes_of_lt (UInt32.toNat_lt _)
  refine ⟨?_, hrest⟩
  unfold parsePacket
  dsimp only
  rw [hlength, if_pos hframe.pos, hpos, adlerChecksumAt_eq, hrest, if_pos hreceived]

/-- What the protocol is handed of a message whose position is behind the checksum. -/
theorem hands_onRecvMessage {msg : BufferedMessage} {frame : List UInt8} (hframe : Sendable frame)
    (hpos : msg.readPos = 6) (hsize : msg.msgSize = frame.length + 6)
    (hbytes : bytesAt msg.msgBuf 6 frame.length = frame) :
    Hands p frame (onRecvMessage p msg) := by
  have hlength : (msg.msgSize : ℤ) - 6 = frame.length := by
    rw [hsize]
    omega
  have htmod : (frame.length : ℤ).tmod 8 = 0 ↔ 8 ∣ frame.length := by
    rw [← Int.dvd_iff_tmod_eq_zero]
    exact Int.natCast_dvd_natCast (m := 8)
  refine ⟨hframe, ?_⟩
  rw [onRecvMessage]
  by_cases henc : p.encryptionEnabled = true
  · rw [if_pos henc, XTEA_decrypt, hlength]
    by_cases hdvd : 8 ∣ frame.length
    · have hmod : ¬ ((frame.length : ℤ).tmod 8 ≠ 0) := not_not.mpr (htmod.mpr hdvd)
      rw [if_neg hmod, if_pos ⟨henc, hdvd⟩]
      obtain ⟨n, hn⟩ := hdvd
      have hplain := bytesAt_decryptFrom p.key 6 n 0 msg.msgBuf
      rw [Nat.mul_zero, Nat.zero_add, Nat.add_zero, ← hn, hbytes] at hplain
      have hpos' := hframe.pos
      have htwo : bytesAt (decryptFrom p.key 6 frame.length 0 msg.msgBuf) 6 2 =
          (decryptFrame p.key frame).take 2 := by
        rw [← hplain]
        obtain ⟨m, hm⟩ := Nat.exists_eq_add_of_le (show 2 ≤ frame.length by omega)
        rw [hm, bytesAt_add, List.take_left' (bytesAt_length _ _ _)]
      dsimp only
      rw [Int.toNat_natCast, hpos, htwo, hsize]
      by_cases hannounced : leNat ((decryptFrame p.key frame).take 2) ≤ frame.length - 2
      · rw [if_neg (by omega), if_pos hannounced]
        exact ⟨rfl, hplain, rfl⟩
      · rw [if_pos (by omega), if_neg hannounced]
        exact ⟨rfl, hplain, rfl⟩
    · have hmod : (frame.length : ℤ).tmod 8 ≠ 0 := fun h => hdvd (htmod.mp h)
      rw [if_pos hmod, if_neg fun h => hdvd h.2]
      exact ⟨hpos, hsize, hbytes⟩
  · rw [if_neg henc, if_neg fun h => henc h.1]
    exact ⟨hpos, hsize, hbytes⟩

/-! ## Runs -/

/-- The peer sends whole packets. -/
def Packets (_ : State) : Action → Prop
  | .send bytes => ∃ frame, Sendable frame ∧ bytes = packet frame
  | _ => True

/-- What is still to be read, of what has not been handed over. -/
def Pending (s : State) (rest : List (List UInt8)) : Prop :=
  match s.reading with
  | .header => s.arrived ++ s.onWire = rest.flatMap packet
  | .body size => ∃ frame rest', rest = frame :: rest' ∧ size = frame.length + 4 ∧
      s.msg.readPos = 2 ∧ s.msg.msgSize = frame.length + 6 ∧
      s.arrived ++ s.onWire =
        (leBytes 4 (adlerChecksum frame).toNat ++ frame) ++ rest'.flatMap packet
  | .closed => False

/-- The packets up to some point have been handed over, each one once and in order. -/
structure Delivered (p : Protocol) (s : State) (done rest : List (List UInt8)) : Prop where
  sent : s.sent = (done ++ rest).map packet
  sendable : ∀ frame ∈ rest, Sendable frame
  handed : List.Forall₂ (Hands p) done s.handed
  pending : Pending s rest

/-- A read that completes takes the first bytes of what is to be read. -/
theorem split_read {arrived onWire first rest : List UInt8} (h : arrived ++ onWire = first ++ rest)
    (hlength : first.length ≤ arrived.length) :
    arrived.take first.length = first ∧ arrived.drop first.length ++ onWire = rest := by
  have htake := congrArg (List.take first.length) h
  have hdrop := congrArg (List.drop first.length) h
  rw [List.take_append_of_le_length hlength, List.take_left' rfl] at htake
  rw [List.drop_append_of_le_length hlength, List.drop_left' rfl] at hdrop
  exact ⟨htake, hdrop⟩

theorem packet_size {frame : List UInt8} (h : Sendable frame) :
    leNat (leBytes 2 (frame.length + 4)) = frame.length + 4 := by
  have hmax : NETWORKMESSAGE_MAXSIZE = 15360 := rfl
  have hroom := h.room
  exact leNat_leBytes_of_lt (by omega)

variable {done rest : List (List UInt8)}

theorem Delivered.send (h : Delivered p s done rest) {frame : List UInt8} (hframe : Sendable frame) :
    Delivered p { s with sent := s.sent ++ [packet frame], onWire := s.onWire ++ packet frame } done
      (rest ++ [frame]) where
  sent := by
    change s.sent ++ [frame].map packet = (done ++ (rest ++ [frame])).map packet
    rw [h.sent, ← List.append_assoc, ← List.map_append]
  sendable := by
    intro other hother
    rcases List.mem_append.mp hother with hother | hother
    · exact h.sendable other hother
    · cases List.mem_singleton.mp hother
      exact hframe
  handed := h.handed
  pending := by
    have hpending := h.pending
    have hmore : (rest ++ [frame]).flatMap packet = rest.flatMap packet ++ packet frame := by
      rw [List.flatMap_append, List.flatMap_singleton]
    unfold Pending at hpending ⊢
    dsimp only
    cases hreading : s.reading with
    | header =>
      rw [hreading] at hpending
      dsimp only at hpending ⊢
      rw [← List.append_assoc, hpending, hmore]
    | body size =>
      rw [hreading] at hpending
      obtain ⟨next, rest', hrest, hsize, hpos, hmsg, hbytes⟩ := hpending
      refine ⟨next, rest' ++ [frame], ?_, hsize, hpos, hmsg, ?_⟩
      · rw [hrest]
        rfl
      · rw [← List.append_assoc, hbytes, List.append_assoc, List.flatMap_append,
          List.flatMap_singleton]
    | closed =>
      rw [hreading] at hpending
      exact hpending.elim

theorem Delivered.arrive (h : Delivered p s done rest) (n : ℕ) :
    Delivered p { s with onWire := s.onWire.drop n, arrived := s.arrived ++ s.onWire.take n } done
      rest where
  sent := h.sent
  sendable := h.sendable
  handed := h.handed
  pending := by
    have hbytes : s.arrived ++ s.onWire.take n ++ s.onWire.drop n = s.arrived ++ s.onWire := by
      rw [List.append_assoc, List.take_append_drop]
    have hpending := h.pending
    unfold Pending at hpending ⊢
    dsimp only
    rw [hbytes]
    exact hpending

/-- The size of a packet has been read, and its body is awaited. -/
theorem Delivered.parseHeader (h : Delivered p s done rest) (hreading : s.reading = .header)
    (hlength : 2 ≤ s.arrived.length) :
    Delivered p ({ s with arrived := s.arrived.drop 2 }.parseHeader (s.arrived.take 2)) done rest := by
  have hpending := h.pending
  rw [Pending, hreading] at hpending
  dsimp only at hpending
  cases rest with
  | nil =>
    have hnone := congrArg List.length hpending
    rw [List.length_append, List.flatMap_nil, List.length_nil] at hnone
    omega
  | cons frame rest =>
    have hframe := h.sendable frame List.mem_cons_self
    have hroom := hframe.room
    have hmax : NETWORKMESSAGE_MAXSIZE = 15360 := rfl
    rw [List.flatMap_cons, packet, List.append_assoc] at hpending
    have hread := split_read hpending (by rw [leBytes_length]; exact hlength)
    rw [leBytes_length] at hread
    have hsize : ¬ (frame.length + 4 = 0 ∨ frame.length + 4 ≥ NETWORKMESSAGE_MAXSIZE - 16) := by
      omega
    unfold State.parseHeader
    dsimp only
    rw [hread.1, decodeHeader_write s.msg (leBytes_length 2 _), packet_size hframe]
    dsimp only
    rw [if_neg hsize]
    exact ⟨h.sent, h.sendable, h.handed, frame, rest, rfl, rfl, rfl, rfl, hread.2⟩

/-- The body of a packet has been read, and what is left of it is handed over. -/
theorem Delivered.parseBody (h : Delivered p s done rest) {size : ℕ}
    (hreading : s.reading = .body size) (hlength : size ≤ s.arrived.length) :
    ∃ frame rest', rest = frame :: rest' ∧
      Delivered p ({ s with arrived := s.arrived.drop size }.parseBody p (s.arrived.take size))
        (done ++ [frame]) rest' := by
  have hpending := h.pending
  rw [Pending, hreading] at hpending
  obtain ⟨frame, rest', rfl, rfl, hpos, hmsg, hbytes⟩ := hpending
  have hbody : (leBytes 4 (adlerChecksum frame).toNat ++ frame).length = frame.length + 4 := by
    rw [List.length_append, leBytes_length, Nat.add_comm]
  have hread := split_read hbytes (by rw [hbody]; exact hlength)
  rw [hbody] at hread
  have hframe := h.sendable frame List.mem_cons_self
  have hwritten := bytesAt_write s.msg.msgBuf 2 (leBytes 4 (adlerChecksum frame).toNat ++ frame)
  rw [hbody] at hwritten
  refine ⟨frame, rest', rfl, ?_, fun other hother => h.sendable other (List.mem_cons_of_mem _ hother),
    ?_, hread.2⟩
  · rw [List.append_assoc]
    exact h.sent
  · rw [State.parseBody, hread.1]
    dsimp only
    generalize write s.msg.msgBuf 2 (leBytes 4 (adlerChecksum frame).toNat ++ frame) = mem
      at hwritten ⊢
    obtain ⟨hparsed, hrest⟩ :=
      @parsePacket_checksum { s.msg with msgBuf := mem } frame hframe hpos hmsg hwritten
    rw [hparsed]
    exact List.rel_append h.handed (.cons (hands_onRecvMessage hframe rfl hmsg hrest) .nil)

theorem Delivered.step (h : Delivered p s done rest) (ha : Packets s a)
    (ht : s.step p a = some t) : ∃ done' rest', Delivered p t done' rest' := by
  cases a with
  | send bytes =>
    obtain ⟨frame, hframe, rfl⟩ := ha
    cases ht
    exact ⟨_, _, h.send hframe⟩
  | arrive n =>
    cases ht
    exact ⟨_, _, h.arrive n⟩
  | complete =>
    rw [State.step] at ht
    cases hreading : s.reading with
    | header =>
      rw [hreading] at ht
      dsimp only at ht
      split_ifs at ht with hlength
      cases ht
      exact ⟨_, _, h.parseHeader hreading (Nat.le_of_not_lt hlength)⟩
    | body size =>
      rw [hreading] at ht
      dsimp only at ht
      split_ifs at ht with hlength
      cases ht
      obtain ⟨frame, rest', -, hdelivered⟩ := h.parseBody hreading (Nat.le_of_not_lt hlength)
      exact ⟨_, _, hdelivered⟩
    | closed =>
      rw [hreading] at ht
      cases ht

theorem reachable_delivered (h : ((system p msgBuf).restrict Packets).Reachable s) :
    ∃ done rest, Delivered p s done rest := by
  refine h.invariant (fun s => ∃ done rest, Delivered p s done rest) ?_ ?_
  · rintro s ⟨hsent, hwire, harrived, hreading, -, hhanded⟩
    refine ⟨[], [], hsent, fun _ h => absurd h List.not_mem_nil, ?_, ?_⟩
    · rw [hhanded]
      exact .nil
    · rw [Pending, hreading, hwire, harrived]
      rfl
  · rintro s a t ⟨done, rest, hdelivered⟩ ⟨ha, ht⟩
    exact hdelivered.step ha ht

/-- Once everything has arrived and no read can complete, nothing is left to hand over. -/
theorem Delivered.rest_eq_nil (h : Delivered p s done rest) (hwire : s.onWire = [])
    (hidle : s.step p .complete = none) : rest = [] := by
  have hpending := h.pending
  rw [State.step] at hidle
  rw [Pending, hwire, List.append_nil] at hpending
  cases hreading : s.reading with
  | header =>
    rw [hreading] at hpending hidle
    dsimp only at hpending hidle
    split_ifs at hidle with hlength
    cases rest with
    | nil => rfl
    | cons frame rest =>
      rw [hpending, List.flatMap_cons, packet, List.append_assoc, List.length_append,
        leBytes_length] at hlength
      omega
  | body size =>
    rw [hreading] at hpending hidle
    dsimp only at hidle
    split_ifs at hidle with hlength
    obtain ⟨frame, rest', -, rfl, -, -, hbytes⟩ := hpending
    rw [hbytes, List.length_append, List.length_append, leBytes_length] at hlength
    omega
  | closed =>
    rw [hreading] at hpending
    exact hpending.elim

theorem State.parseHeader_rest (s : State) (bytes : List UInt8) :
    (s.parseHeader bytes).sent = s.sent ∧ (s.parseHeader bytes).onWire = s.onWire ∧
      (s.parseHeader bytes).arrived = s.arrived := by
  unfold State.parseHeader
  dsimp only
  split_ifs <;> exact ⟨rfl, rfl, rfl⟩

/-- A read that completes uses up bytes. -/
theorem Delivered.complete (h : Delivered p s done rest) (ht : s.step p .complete = some t) :
    t.sent = s.sent ∧ t.onWire = s.onWire ∧ t.arrived.length < s.arrived.length := by
  rw [State.step] at ht
  cases hreading : s.reading with
  | header =>
    rw [hreading] at ht
    dsimp only at ht
    split_ifs at ht with hlength
    cases ht
    obtain ⟨hsent, hwire, harrived⟩ := State.parseHeader_rest
      { s with arrived := s.arrived.drop 2, reading := .header } (s.arrived.take 2)
    refine ⟨hsent, hwire, ?_⟩
    rw [harrived, List.length_drop]
    omega
  | body size =>
    have hpending := h.pending
    rw [Pending, hreading] at hpending
    obtain ⟨frame, -, -, rfl, -⟩ := hpending
    rw [hreading] at ht
    dsimp only at ht
    split_ifs at ht with hlength
    cases ht
    refine ⟨rfl, rfl, ?_⟩
    dsimp only [State.parseBody]
    rw [List.length_drop]
    omega
  | closed =>
    rw [hreading] at ht
    cases ht

/-- From every state the network and the reads that are pending come to an end by themselves. -/
theorem exists_idle (h : ((system p msgBuf).restrict Packets).Reachable s) :
    ∃ t, ((system p msgBuf).restrict Packets).Reachable t ∧
      (∃ n, runActions (State.step p) s (.arrive s.onWire.length :: .replicate n .complete) =
        some t) ∧ t.sent = s.sent ∧ t.onWire = [] ∧ t.step p .complete = none := by
  have hreads : ∀ m u, ((system p msgBuf).restrict Packets).Reachable u → u.onWire = [] →
      u.arrived.length = m → ∃ t, ((system p msgBuf).restrict Packets).Reachable t ∧
        (∃ n, runActions (State.step p) u (.replicate n .complete) = some t) ∧
          t.sent = u.sent ∧ t.onWire = [] ∧ t.step p .complete = none := by
    intro m
    induction m using Nat.strong_induction_on with
    | h m ih =>
      intro u hu hwire hm
      cases hstep : u.step p .complete with
      | none => exact ⟨u, hu, ⟨0, rfl⟩, rfl, hwire, hstep⟩
      | some v =>
        obtain ⟨done, rest, hdelivered⟩ := reachable_delivered hu
        obtain ⟨hsent, hwire', hless⟩ := hdelivered.complete hstep
        obtain ⟨t, ht, ⟨n, hn⟩, hsame, hrest⟩ := ih v.arrived.length (hm ▸ hless) v
          (hu.step (a := .complete) ⟨trivial, hstep⟩) (hwire'.trans hwire) rfl
        refine ⟨t, ht, ⟨n + 1, ?_⟩, hsame.trans hsent, hrest⟩
        rw [List.replicate_succ, runActions, hstep]
        exact hn
  obtain ⟨t, ht, ⟨n, hn⟩, hrest⟩ := hreads _ _
    (h.step (a := .arrive s.onWire.length) ⟨trivial, rfl⟩) (List.drop_length) rfl
  exact ⟨t, ht, ⟨n, hn⟩, hrest⟩

/-- What is read off a list that belongs to the first part of another one. -/
theorem map_prefix_of_forall₂ {α β γ : Type*} {R : α → β → Prop} {f : β → γ} {xs rest : List α}
    {ys : List β} {zs : List γ} (h : List.Forall₂ R xs ys)
    (hf : List.Forall₂ (fun x z => ∀ y, R x y → f y = z) (xs ++ rest) zs) : ys.map f <+: zs := by
  induction h generalizing zs with
  | nil => exact List.nil_prefix
  | cons hxy _ ih =>
    cases hf with
    | cons hz hzs =>
      rw [List.map_cons, hz _ hxy]
      exact List.cons_prefix_cons.mpr ⟨rfl, ih hzs⟩

/-- What is read off the messages that the protocol has been handed is what has been sent, as far as
it has come. -/
theorem handed_map {frames : List (List UInt8)} {view : BufferedMessage → List UInt8}
    {contents : List (List UInt8)} (h : ((system p msgBuf).restrict Packets).Reachable s)
    (hsent : s.sent = frames.map packet)
    (hview : List.Forall₂ (fun frame content => ∀ msg, Hands p frame msg → view msg = content)
      frames contents) :
    s.handed.map view <+: contents ∧
      (s.onWire = [] → s.step p .complete = none → s.handed.map view = contents) := by
  obtain ⟨done, rest, hdelivered⟩ := reachable_delivered h
  have hframes : frames = done ++ rest := by
    apply List.map_injective_iff.mpr fun _ _ => packet_inj
    rw [← hsent, hdelivered.sent]
  subst hframes
  have hpre := map_prefix_of_forall₂ hdelivered.handed hview
  refine ⟨hpre, fun hwire hidle => hpre.eq_of_length ?_⟩
  rw [List.length_map, ← hdelivered.handed.length_eq, ← hview.length_eq,
    hdelivered.rest_eq_nil hwire hidle, List.append_nil]

/-! ## Peers with the key and without it -/

/-- The body of a message that has been deciphered. -/
def content (msg : BufferedMessage) : List UInt8 := bytesAt msg.msgBuf msg.readPos msg.msgSize

/-- What a message holds from its position to its end. -/
def unread (msg : BufferedMessage) : List UInt8 :=
  bytesAt msg.msgBuf msg.readPos (msg.msgSize - msg.readPos)

/-- The body in a frame that a peer with the key has made is the message that is handed over. -/
theorem Hands.content_eq {frame body : List UInt8} {msg : BufferedMessage}
    (h : Hands p frame msg) (henc : p.encryptionEnabled = true) (hframed : Framed p.key frame body) :
    content msg = body := by
  obtain ⟨hdvd, after, hafter⟩ := hframed
  obtain ⟨⟨-, hroom⟩, h⟩ := h
  have hmax : NETWORKMESSAGE_MAXSIZE = 15360 := rfl
  rw [if_pos ⟨henc, hdvd⟩, ← hafter, List.append_assoc] at h
  obtain ⟨hpos, hplain, hsize⟩ := h
  rw [List.take_left' (leBytes_length 2 _)] at hsize
  have hlength := congrArg List.length hplain
  rw [bytesAt_length, List.length_append, leBytes_length, List.length_append] at hlength
  rw [leNat_leBytes_of_lt (by omega), if_pos (by omega)] at hsize
  rw [hlength, bytesAt_add] at hplain
  have hbody := (List.append_inj hplain ((bytesAt_length _ _ _).trans (leBytes_length 2 _).symm)).2
  rw [bytesAt_add] at hbody
  rw [content, hpos, hsize]
  exact (List.append_inj hbody (bytesAt_length _ _ _)).1

/-- A frame that does not consist of whole blocks is handed over as it is. -/
theorem Hands.unread_eq {frame : List UInt8} {msg : BufferedMessage} (h : Hands p frame msg)
    (hplain : ¬ (p.encryptionEnabled = true ∧ 8 ∣ frame.length)) : unread msg = frame := by
  have hleft := h.2
  rw [if_neg hplain] at hleft
  obtain ⟨hpos, hsize, hbytes⟩ := hleft
  rw [unread, hpos, hsize, Nat.add_sub_cancel]
  exact hbytes

/-- Whatever pieces the bytes of a peer with the key arrive in, the protocol is handed the bodies of
its messages in their order, each one once; and all of them, once they have arrived and no read can
complete. -/
theorem bodies_delivered (h : ((system p msgBuf).restrict Packets).Reachable s)
    (henc : p.encryptionEnabled = true) {frames bodies : List (List UInt8)}
    (hsent : s.sent = frames.map packet) (hframed : List.Forall₂ (Framed p.key) frames bodies) :
    s.handed.map content <+: bodies ∧
      (s.onWire = [] → s.step p .complete = none → s.handed.map content = bodies) :=
  handed_map h hsent (hframed.imp fun _ _ hbody _ hhands => hhands.content_eq henc hbody)

/-- A body of three bytes, as a peer with the key zero enciphers it. -/
def greeting : List UInt8 := [254, 208, 213, 134, 123, 231, 218, 51]

def keyed : Protocol := ⟨false, true, true, fun _ => 0⟩

theorem framed_greeting : Framed keyed.key greeting [104, 101, 121] := by
  refine ⟨by decide, ?_⟩
  rw [decryptFrame, if_pos (by decide), decryptFrame, if_neg (by decide)]
  exact ⟨[0x33, 0x33, 0x33], by decide +kernel⟩

/-- A message of the peer is under way. -/
def posted (frame : List UInt8) : State where
  sent := [packet frame]
  onWire := packet frame
  arrived := []
  reading := .header
  msg := ⟨fun _ => 0, 0, 8⟩
  handed := []

theorem reachable_posted {frame : List UInt8} (h : Sendable frame) :
    ((system p fun _ => 0).restrict Packets).Reachable (posted frame) :=
  reachable_restrict_step (s := { posted frame with sent := [], onWire := [] })
    (.init ⟨rfl, rfl, rfl, rfl, rfl, rfl⟩) (.send (packet frame)) ⟨frame, h, rfl⟩ rfl

theorem bodies_delivered_greeting :
    ∃ s, ((system keyed fun _ => 0).restrict Packets).Reachable s ∧
      s.handed.map content = [[104, 101, 121]] := by
  obtain ⟨t, ht, -, hsame, hwire, hidle⟩ :=
    exists_idle (reachable_posted ⟨by decide, by decide⟩ :
      ((system keyed fun _ => 0).restrict Packets).Reachable (posted greeting))
  have hall := bodies_delivered ht rfl (show t.sent = [greeting].map packet from hsame)
    (.cons framed_greeting .nil)
  exact ⟨t, ht, hall.2 hwire hidle⟩

/-- A peer without the key needs none: what does not consist of whole blocks is handed over as it has
been sent, whatever the key is. -/
theorem frames_delivered (h : ((system p msgBuf).restrict Packets).Reachable s)
    {frames : List (List UInt8)} (hsent : s.sent = frames.map packet)
    (hplain : ∀ frame ∈ frames, ¬ (p.encryptionEnabled = true ∧ 8 ∣ frame.length)) :
    s.handed.map unread <+: frames ∧
      (s.onWire = [] → s.step p .complete = none → s.handed.map unread = frames) := by
  apply handed_map h hsent
  rw [List.forall₂_same]
  exact fun frame hframe msg hhands => hhands.unread_eq (hplain frame hframe)

/-- Three bytes that nobody has enciphered. -/
theorem frames_delivered_three :
    ∃ s, ((system keyed fun _ => 0).restrict Packets).Reachable s ∧
      s.handed.map unread = [[1, 2, 3]] := by
  obtain ⟨t, ht, -, hsame, hwire, hidle⟩ :=
    exists_idle (reachable_posted ⟨by decide, by decide⟩ :
      ((system keyed fun _ => 0).restrict Packets).Reachable (posted [1, 2, 3]))
  have hall := frames_delivered ht (show t.sent = [[1, 2, 3]].map packet from hsame) (by decide)
  exact ⟨t, ht, hall.2 hwire hidle⟩

/-! ## What the server's own messages look like -/

namespace Sending

/-- The loop adds less than a block. -/
theorem xteaEncrypt_size (p : Protocol) (msg : OutputMessage) :
    msg.msgSize ≤ (p.xteaEncrypt msg).msgSize ∧ (p.xteaEncrypt msg).msgSize < msg.msgSize + 8 := by
  unfold Protocol.xteaEncrypt BufferedMessage.addPaddingBytes
  dsimp only
  by_cases hpadded : msg.msgSize % 8 ≠ 0
  · rw [if_pos hpadded]
    split_ifs <;> dsimp only <;> omega
  · rw [if_neg hpadded]
    omega

theorem addCryptoHeader_packet {msg : OutputMessage} (h : msg.outputBufferStart = 6) :
    (msg.addCryptoHeader true).frame = packet msg.frame := by
  have hchecksum : 4 ≤ msg.outputBufferStart := by
    rw [h]
    decide
  have hsize : (msg.addHeader 4 (adlerChecksum msg.frame).toNat).msgSize = msg.frame.length + 4 := by
    rw [OutputMessage.addHeader, if_neg (Nat.not_lt_of_le hchecksum), OutputMessage.frame,
      bytesAt_length]
  rw [OutputMessage.addCryptoHeader, if_pos rfl, OutputMessage.addHeader_frame,
    OutputMessage.addHeader_frame hchecksum, hsize, packet]
  rw [OutputMessage.addHeader_start hchecksum, h]

/-- A message as it is enciphered, before its checksum is put in front. -/
def enciphered (key : Key) (message : (ℕ → UInt8) × List Add) : List UInt8 :=
  (Protocol.xteaEncrypt ⟨false, true, true, key⟩
    (OutputMessage.filled message.1 message.2).writeMessageLength).frame

/-- The bytes that `onSendMessage` puts on the wire. -/
def written (key : Key) (message : (ℕ → UInt8) × List Add) : List UInt8 :=
  (Protocol.onSendMessage ⟨false, true, true, key⟩ (OutputMessage.filled message.1 message.2)).frame

theorem written_eq (key : Key) (message : (ℕ → UInt8) × List Add) :
    written key message = packet (enciphered key message) := by
  obtain ⟨hheaded, -⟩ := headed_filled message.1 message.2
  have hstart := Protocol.xteaEncrypt_start ⟨false, true, true, key⟩
    (OutputMessage.filled message.1 message.2).writeMessageLength
  exact addCryptoHeader_packet (hstart.trans hheaded.start_eq)

/-- What is sent with a checksum is a packet, but for the longest body. -/
theorem sendable_enciphered (key : Key) {message : (ℕ → UInt8) × List Add}
    (hroom : (body message.2).length ≠ NETWORKMESSAGE_MAXSIZE - 25) :
    Sendable (enciphered key message) ∧ Framed key (enciphered key message) (body message.2) := by
  obtain ⟨hheaded, -⟩ := headed_filled message.1 message.2
  have hframed := Protocol.framed_xteaEncrypt ⟨false, true, true, key⟩ hheaded hroom
  have hsize := xteaEncrypt_size ⟨false, true, true, key⟩
    (OutputMessage.filled message.1 message.2).writeMessageLength
  have hlt := hheaded.body_lt
  have hmax : NETWORKMESSAGE_MAXSIZE = 15360 := rfl
  have hdvd := hframed.1
  rw [OutputMessage.frame, bytesAt_length] at hdvd
  rw [hheaded.size_eq] at hsize
  have hlength : (enciphered key message).length = (Protocol.xteaEncrypt ⟨false, true, true, key⟩
      (OutputMessage.filled message.1 message.2).writeMessageLength).msgSize := bytesAt_length _ _ _
  exact ⟨⟨by omega, by omega⟩, hframed⟩

end Sending

/-- The receiving side reads back what the sending side writes. -/
theorem messages_delivered (h : ((system p msgBuf).restrict Packets).Reachable s)
    (henc : p.encryptionEnabled = true) {messages : List ((ℕ → UInt8) × List Add)}
    (hroom : ∀ message ∈ messages, (body message.2).length ≠ NETWORKMESSAGE_MAXSIZE - 25)
    (hsent : s.sent = messages.map (Sending.written p.key)) :
    s.handed.map content <+: messages.map (fun message => body message.2) ∧
      (s.onWire = [] → s.step p .complete = none →
        s.handed.map content = messages.map fun message => body message.2) := by
  have hpackets : s.sent = (messages.map (Sending.enciphered p.key)).map packet := by
    rw [hsent, List.map_map]
    exact List.map_congr_left fun message _ => Sending.written_eq p.key message
  apply handed_map h hpackets
  rw [List.forall₂_map_left_iff, List.forall₂_map_right_iff, List.forall₂_same]
  intro message hmessage msg hhands
  exact hhands.content_eq henc (Sending.sendable_enciphered p.key (hroom message hmessage)).2

/-! ## What a peer cannot do -/

theorem parsePacket_eq (msg : BufferedMessage) :
    parsePacket msg = msg ∨ parsePacket msg = { msg with readPos := msg.readPos + 4 } :=
  (ite_eq_or_eq _ _ _).symm

/-- Deciphering stays within the message, which begins at most six bytes before its blocks. -/
theorem XTEA_decrypt_inside (key : Key) (msg : BufferedMessage) (hpos : msg.readPos ≤ 6) :
    (∀ i, msg.msgSize ≤ i → (XTEA_decrypt key msg).1.msgBuf i = msg.msgBuf i) ∧
      (XTEA_decrypt key msg).1.readPos ≤ msg.readPos + 2 ∧
      (XTEA_decrypt key msg).1.msgSize ≤ msg.msgSize := by
  have hloop : ((msg.msgSize : ℤ) - 6).tmod 8 = 0 → ∀ i, msg.msgSize ≤ i →
      decryptFrom key msg.readPos ((msg.msgSize : ℤ) - 6).toNat 0 msg.msgBuf i = msg.msgBuf i := by
    intro hmod i hi
    obtain ⟨n, hn⟩ : ∃ n, ((msg.msgSize : ℤ) - 6).toNat = 8 * n := by
      obtain ⟨k, hk⟩ := Int.dvd_iff_tmod_eq_zero.mpr hmod
      exact ⟨k.toNat, by omega⟩
    have houtside := decryptFrom_outside key msg.readPos n 0 msg.msgBuf (i := i) (by omega)
    rw [Nat.mul_zero, Nat.zero_add] at houtside
    rw [hn]
    exact houtside
  unfold XTEA_decrypt
  dsimp only
  by_cases hmod : ((msg.msgSize : ℤ) - 6).tmod 8 = 0
  · rw [if_neg (not_not.mpr hmod)]
    split_ifs with hlong
    · exact ⟨hloop hmod, Nat.le_refl _, Nat.le_refl _⟩
    · refine ⟨hloop hmod, Nat.le_refl _, ?_⟩
      dsimp only
      omega
  · rw [if_pos hmod]
    exact ⟨fun _ _ => rfl, Nat.le_add_right _ _, Nat.le_refl _⟩

/-- Behind the buffer nothing is written, and no message that has been handed over ends there. -/
structure Inside (msgBuf : ℕ → UInt8) (s : State) : Prop where
  memory : ∀ i, NETWORKMESSAGE_MAXSIZE ≤ i → s.msg.msgBuf i = msgBuf i
  handed : ∀ msg ∈ s.handed, msg.readPos + msg.msgSize < NETWORKMESSAGE_MAXSIZE
  reading : ∀ size, s.reading = .body size → size < NETWORKMESSAGE_MAXSIZE - 16 ∧
    s.msg.readPos = 2 ∧ s.msg.msgSize = size + 2

theorem Inside.parseHeader (h : Inside msgBuf s) {bytes : List UInt8} (hbytes : bytes.length = 2)
    (arrived : List UInt8) : Inside msgBuf ({ s with arrived }.parseHeader bytes) := by
  have hmax : NETWORKMESSAGE_MAXSIZE = 15360 := rfl
  have hmemory (i : ℕ) (hi : NETWORKMESSAGE_MAXSIZE ≤ i) :
      write s.msg.msgBuf 0 bytes i = msgBuf i := by
    rw [write_of_ge (by omega)]
    exact h.memory i hi
  unfold State.parseHeader
  dsimp only
  rw [decodeHeader_write s.msg hbytes]
  dsimp only
  split_ifs with hclose
  · exact ⟨hmemory, h.handed, fun size hsize => by cases hsize⟩
  · refine ⟨hmemory, h.handed, fun size hsize => ?_⟩
    cases hsize
    exact ⟨Nat.lt_of_not_le fun hle => hclose (.inr hle), rfl, rfl⟩

theorem Inside.parseBody (h : Inside msgBuf s) {size : ℕ} (hreading : s.reading = .body size)
    {bytes : List UInt8} (hbytes : bytes.length = size) (arrived : List UInt8) :
    Inside msgBuf ({ s with arrived }.parseBody p bytes) := by
  obtain ⟨hsize, hpos, hmsg⟩ := h.reading size hreading
  have hmax : NETWORKMESSAGE_MAXSIZE = 15360 := rfl
  have hmemory (i : ℕ) (hi : NETWORKMESSAGE_MAXSIZE ≤ i) :
      write s.msg.msgBuf 2 bytes i = msgBuf i := by
    rw [write_of_ge (by omega)]
    exact h.memory i hi
  obtain ⟨msg, hparsed, hbuf, hposition, hlength⟩ : ∃ msg,
      parsePacket { s.msg with msgBuf := write s.msg.msgBuf 2 bytes } = msg ∧
        msg.msgBuf = write s.msg.msgBuf 2 bytes ∧ msg.readPos ≤ 6 ∧ msg.msgSize = size + 2 := by
    refine ⟨_, rfl, ?_⟩
    rcases parsePacket_eq { s.msg with msgBuf := write s.msg.msgBuf 2 bytes } with heq | heq
    · rw [heq]
      exact ⟨rfl, hpos.trans_le (by decide), hmsg⟩
    · rw [heq]
      exact ⟨rfl, Nat.le_of_eq (congrArg (· + 4) hpos), hmsg⟩
  have hrecv : (∀ i, NETWORKMESSAGE_MAXSIZE ≤ i → (onRecvMessage p msg).msgBuf i = msgBuf i) ∧
      (onRecvMessage p msg).readPos + (onRecvMessage p msg).msgSize < NETWORKMESSAGE_MAXSIZE := by
    rw [onRecvMessage]
    split_ifs
    · obtain ⟨hsame, hposition', hlength'⟩ := XTEA_decrypt_inside p.key msg hposition
      refine ⟨fun i hi => ?_, by omega⟩
      rw [hsame i (by omega), hbuf]
      exact hmemory i hi
    · refine ⟨fun i hi => ?_, by omega⟩
      rw [hbuf]
      exact hmemory i hi
  unfold State.parseBody
  dsimp only
  rw [hparsed]
  refine ⟨hrecv.1, fun other hother => ?_, fun size hsize => by cases hsize⟩
  rcases List.mem_append.mp hother with hother | hother
  · exact h.handed other hother
  · cases List.mem_singleton.mp hother
    exact hrecv.2

theorem Inside.step (h : Inside msgBuf s) (ht : s.step p a = some t) : Inside msgBuf t := by
  cases a with
  | send bytes =>
    cases ht
    exact ⟨h.memory, h.handed, h.reading⟩
  | arrive n =>
    cases ht
    exact ⟨h.memory, h.handed, h.reading⟩
  | complete =>
    rw [State.step] at ht
    cases hreading : s.reading with
    | header =>
      rw [hreading] at ht
      dsimp only at ht
      split_ifs at ht with hlength
      cases ht
      exact h.parseHeader (List.length_take_of_le (Nat.le_of_not_lt hlength)) _
    | body size =>
      rw [hreading] at ht
      dsimp only at ht
      split_ifs at ht with hlength
      cases ht
      exact h.parseBody hreading (List.length_take_of_le (Nat.le_of_not_lt hlength)) _
    | closed =>
      rw [hreading] at ht
      cases ht

/-- Whatever bytes a peer sends, nothing is written behind the buffer of the connection, and no
message that is handed over ends behind it. -/
theorem reachable_inside (h : (system p msgBuf).Reachable s) : Inside msgBuf s := by
  refine h.invariant (Inside msgBuf) ?_ fun s a t hs ht => hs.step ht
  rintro s ⟨-, -, -, hreading, hbuf, hhanded⟩
  refine ⟨fun i _ => congrFun hbuf i, ?_, ?_⟩
  · rw [hhanded]
    exact fun _ h => absurd h List.not_mem_nil
  · rw [hreading]
    exact fun _ h => by cases h

/-- A peer that announces more bytes than the buffer has. -/
theorem reachable_inside_long : ∃ s, (system keyed fun _ => 0).Reachable s ∧
    s.sent = [[255, 255, 7]] ∧ Inside (fun _ => 0) s := by
  have hread : ∃ s, runActions (State.step keyed) ⟨[], [], [], .header, ⟨fun _ => 0, 0, 8⟩, []⟩
      [.send [255, 255, 7], .arrive 3, .complete] = some s ∧ s.sent = [[255, 255, 7]] :=
    ⟨_, rfl, rfl⟩
  obtain ⟨s, hrun, hsent⟩ := hread
  have hs : (system keyed fun _ => 0).Reachable s :=
    reachable_of_runActions (.init ⟨rfl, rfl, rfl, rfl, rfl, rfl⟩) hrun
  exact ⟨s, hs, hsent, reachable_inside hs⟩

end TyanoCore.ConnectionInput
