import TyanoCore.BlockHash
import TyanoCore.Run

/-!
# The SHA-1 digest

An object of the class is fed with portions of a message and asked for the digest, in any order of
calls.  It is compared with an object that keeps the whole message and computes the digest at once.
-/

namespace TyanoCore.Sha1

open Bytes BlockHash

/-! ## The source -/

/-- The digest buffers, and the word buffers of a block. -/
structure Words where
  A : UInt32
  B : UInt32
  C : UInt32
  D : UInt32
  E : UInt32
deriving DecidableEq

structure SHA1 where
  H : Words
  Length_Low : UInt32
  Length_High : UInt32
  Message_Block : ℕ → UInt8
  Message_Block_Index : ℕ
  Computed : Bool
  Corrupted : Bool

def initial : Words := ⟨0x67452301, 0xEFCDAB89, 0x98BADCFE, 0x10325476, 0xC3D2E1F0⟩

/-- The message block is whatever the memory holds. -/
def SHA1.Reset (s : SHA1) : SHA1 where
  Length_Low := 0
  Length_High := 0
  Message_Block := s.Message_Block
  Message_Block_Index := 0
  H := initial
  Computed := false
  Corrupted := false

def CircularShift (bits : ℕ) (word : UInt32) : UInt32 :=
  ((word <<< UInt32.ofNat bits) &&& 0xFFFFFFFF) |||
    ((word &&& 0xFFFFFFFF) >>> UInt32.ofNat (32 - bits))

/-- The word of the block whose most significant byte is at `4 * t`. -/
def blockWord (Message_Block : ℕ → UInt8) (t : ℕ) : UInt32 :=
  (Message_Block (4 * t)).toUInt32 <<< 24 ||| (Message_Block (4 * t + 1)).toUInt32 <<< 16 |||
    (Message_Block (4 * t + 2)).toUInt32 <<< 8 ||| (Message_Block (4 * t + 3)).toUInt32

/-- The word sequence: the block, and the words that the loop from the sixteenth on stores. -/
def wordSequence (Message_Block : ℕ → UInt8) : ℕ → UInt32 :=
  let W := (List.range 16).foldl (fun W t => Function.update W t (blockWord Message_Block t))
    fun _ => 0
  (List.range' 16 64).foldl (fun W t => Function.update W t
    (CircularShift 1 (W (t - 3) ^^^ W (t - 8) ^^^ W (t - 14) ^^^ W (t - 16)))) W

/-- The body of the four loops over the word sequence. -/
def loopBody (f : UInt32 → UInt32 → UInt32 → UInt32) (K : UInt32) (W : ℕ → UInt32) (s : Words)
    (t : ℕ) : Words :=
  let temp := (CircularShift 5 s.A + f s.B s.C s.D + s.E + W t + K) &&& 0xFFFFFFFF
  ⟨temp, s.A, CircularShift 30 s.B, s.C, s.D⟩

def ch (B C D : UInt32) : UInt32 := (B &&& C) ||| (~~~B &&& D)

def parity (B C D : UInt32) : UInt32 := B ^^^ C ^^^ D

def maj (B C D : UInt32) : UInt32 := (B &&& C) ||| (B &&& D) ||| (C &&& D)

def SHA1.ProcessMessageBlock (s : SHA1) : SHA1 :=
  let W := wordSequence s.Message_Block
  let w := (List.range' 0 20).foldl (loopBody ch 0x5A827999 W) s.H
  let w := (List.range' 20 20).foldl (loopBody parity 0x6ED9EBA1 W) w
  let w := (List.range' 40 20).foldl (loopBody maj 0x8F1BBCDC W) w
  let w := (List.range' 60 20).foldl (loopBody parity 0xCA62C1D6 W) w
  { s with
    H := ⟨(s.H.A + w.A) &&& 0xFFFFFFFF, (s.H.B + w.B) &&& 0xFFFFFFFF, (s.H.C + w.C) &&& 0xFFFFFFFF,
      (s.H.D + w.D) &&& 0xFFFFFFFF, (s.H.E + w.E) &&& 0xFFFFFFFF⟩
    Message_Block_Index := 0 }

/-- `Message_Block[Message_Block_Index++] = byte`. -/
def SHA1.store (s : SHA1) (byte : UInt8) : SHA1 :=
  { s with
    Message_Block := write s.Message_Block s.Message_Block_Index [byte]
    Message_Block_Index := s.Message_Block_Index + 1 }

/-- Eight more bits; the message is too long when both halves are zero again. -/
def SHA1.count (s : SHA1) : SHA1 :=
  let low := (s.Length_Low + 8) &&& 0xFFFFFFFF
  if low = 0 then
    let high := (s.Length_High + 1) &&& 0xFFFFFFFF
    if high = 0 then { s with Length_Low := low, Length_High := high, Corrupted := true }
    else { s with Length_Low := low, Length_High := high }
  else { s with Length_Low := low }

/-- A round of the loop of `Input`, which ends when the message is corrupted. -/
def SHA1.inputByte (s : SHA1) (byte : UInt8) : SHA1 :=
  if s.Corrupted then s
  else
    let counted := (s.store (byte &&& 0xFF)).count
    if counted.Message_Block_Index = 64 then counted.ProcessMessageBlock else counted

/-- The length of the portion is an unsigned number of 32 bits. -/
def SHA1.Input (s : SHA1) (message_array : List UInt8) : SHA1 :=
  let length := UInt32.ofNat message_array.length
  if length = 0 then s
  else if s.Computed ∨ s.Corrupted then { s with Corrupted := true }
  else (message_array.take length.toNat).foldl SHA1.inputByte s

/-- `while(Message_Block_Index < n)`: a round for each byte that is missing. -/
def SHA1.storeZeros (s : SHA1) (n : ℕ) : SHA1 :=
  (List.replicate (n - s.Message_Block_Index) 0).foldl SHA1.store s

/-- The message length as the last eight octets. -/
def SHA1.storeLength (s : SHA1) : SHA1 :=
  { s with
    Message_Block := write s.Message_Block 56
      ((wordBytes s.Length_High).reverse ++ (wordBytes s.Length_Low).reverse) }

def SHA1.PadMessage (s : SHA1) : SHA1 :=
  let padded :=
    if s.Message_Block_Index > 55 then
      (((s.store 0x80).storeZeros 64).ProcessMessageBlock).storeZeros 56
    else (s.store 0x80).storeZeros 56
  padded.storeLength.ProcessMessageBlock

/-- The digest, unless the message is corrupted. -/
def SHA1.Result (s : SHA1) : SHA1 × Option Words :=
  if s.Corrupted then (s, none)
  else
    let computed := if ¬ s.Computed then { s.PadMessage with Computed := true } else s
    (computed, some computed.H)

/-! ## The digest of a message -/

def word (block : List UInt8) (t : ℕ) : UInt32 :=
  UInt32.ofNat (leNat ((block.drop (4 * t)).take 4).reverse)

/-- The words of the message schedule up to the word `n + 15`, the latest one first. -/
def schedules (block : List UInt8) : ℕ → List UInt32
  | 0 => (List.range 16).reverse.map (word block)
  | n + 1 =>
    let W := schedules block n
    rotateLeft (W[2]! ^^^ W[7]! ^^^ W[13]! ^^^ W[15]!) 1 :: W

def schedule (block : List UInt8) (t : ℕ) : UInt32 := (schedules block t)[15]!

def roundFunction (t : ℕ) : UInt32 → UInt32 → UInt32 → UInt32 :=
  if t < 20 then ch else if t < 40 then parity else if t < 60 then maj else parity

def roundConstant (t : ℕ) : UInt32 :=
  if t < 20 then 0x5A827999 else if t < 40 then 0x6ED9EBA1 else if t < 60 then 0x8F1BBCDC
  else 0xCA62C1D6

def operation (W : ℕ → UInt32) (s : Words) (t : ℕ) : Words :=
  ⟨rotateLeft s.A 5 + roundFunction t s.B s.C s.D + s.E + W t + roundConstant t, s.A,
    rotateLeft s.B 30, s.C, s.D⟩

def compress (s : Words) (block : List UInt8) : Words :=
  let w := (List.range 80).foldl (operation (schedule block)) s
  ⟨s.A + w.A, s.B + w.B, s.C + w.C, s.D + w.D, s.E + w.E⟩

def bitLength (n : ℕ) : List UInt8 := (leBytes 8 (8 * n)).reverse

def sha1 (message : List UInt8) : Words :=
  hash compress 64 initial (pad 64 8 bitLength message)

example : sha1 [97, 98, 99] =
    ⟨0xA9993E36, 0x4706816A, 0xBA3E2571, 0x7850C26C, 0x9CD0D89D⟩ := by
  decide +kernel

/-! ## The blocks -/

theorem schedules_add (block : List UInt8) (n k i : ℕ) :
    (schedules block (n + k))[i + k]! = (schedules block n)[i]! := by
  induction k with
  | zero => rfl
  | succ k ih => exact ih

theorem schedules_eq (block : List UInt8) {n i : ℕ} (hi : i ≤ 15) :
    (schedules block n)[i]! = schedule block (n + 15 - i) := by
  have hshift := schedules_add block n (15 - i) i
  rw [Nat.add_sub_cancel' hi, ← Nat.add_sub_assoc hi] at hshift
  exact hshift.symm

theorem schedule_of_lt {block : List UInt8} {t : ℕ} (ht : t < 16) :
    schedule block t = word block t := by
  have hshift := schedules_add block 0 t (15 - t)
  rw [Nat.sub_add_cancel (by omega), Nat.zero_add] at hshift
  have hget : ((List.range 16).reverse.map (word block))[15 - t]! = word block t := by
    have hreverse : (List.range 16).reverse[15 - t]? = some t := by
      rw [List.getElem?_reverse (by rw [List.length_range]; omega), List.length_range,
        List.getElem?_range (by omega)]
      congr 1
      omega
    rw [List.getElem!_eq_getElem?_getD, List.getElem?_map, hreverse]
    rfl
  exact hshift.trans hget

theorem schedule_of_le {block : List UInt8} {t : ℕ} (ht : 16 ≤ t) :
    schedule block t = rotateLeft (schedule block (t - 3) ^^^ schedule block (t - 8) ^^^
      schedule block (t - 14) ^^^ schedule block (t - 16)) 1 := by
  obtain ⟨n, rfl⟩ := Nat.exists_eq_add_of_le' ht
  have h3 := schedules_eq block (n := n) (show 2 ≤ 15 by decide)
  have h8 := schedules_eq block (n := n) (show 7 ≤ 15 by decide)
  have h14 := schedules_eq block (n := n) (show 13 ≤ 15 by decide)
  have h16 := schedules_eq block (n := n) (show 15 ≤ 15 by decide)
  have hlatest := schedules_add block (n + 1) 15 0
  rw [Nat.zero_add, Nat.add_right_comm] at hlatest
  have hword : schedule block (n + 15 + 1) = rotateLeft ((schedules block n)[2]! ^^^
      (schedules block n)[7]! ^^^ (schedules block n)[13]! ^^^ (schedules block n)[15]!) 1 := hlatest
  rw [h3, h8, h14, h16] at hword
  exact hword

/-- The mask keeps a word of 32 bits as it is. -/
theorem and_mask (v : UInt32) : v &&& 0xFFFFFFFF = v := by
  apply UInt32.toBitVec_inj.mp
  exact BitVec.and_allOnes

theorem CircularShift_eq {bits : ℕ} (hpos : 0 < bits) (hlt : bits < 32) (word : UInt32) :
    CircularShift bits word = rotateLeft word bits := by
  rw [CircularShift, and_mask, and_mask, shiftLeft_or_shiftRight word hpos hlt]

theorem blockWord_eq (Message_Block : ℕ → UInt8) {t : ℕ} (ht : t < 16) :
    blockWord Message_Block t = word (bytesAt Message_Block 0 64) t := by
  have hlt := leNat_lt (bytesAt Message_Block (4 * t) 4).reverse
  rw [List.length_reverse, bytesAt_length] at hlt
  rw [word, bytesAt_drop_take Message_Block (by omega)]
  apply UInt32.toNat_inj.mp
  rw [UInt32.toNat_ofNat_of_lt' hlt]
  exact toNat_or_shifts _ _ _ _

/-- A loop that stores the values of a function in turn. -/
theorem foldl_update {β : Type*} (f : ℕ → β) (W : ℕ → β) (n t : ℕ) :
    (List.range n).foldl (fun W t => Function.update W t (f t)) W t = if t < n then f t else W t := by
  induction n with
  | zero => rfl
  | succ n ih =>
    rw [List.range_succ, List.foldl_append, List.foldl_cons, List.foldl_nil]
    by_cases ht : t = n
    · rw [ht, Function.update_self, if_pos (Nat.lt_succ_self n)]
    · rw [Function.update_of_ne ht, ih]
      have hlt : t < n + 1 ↔ t < n := by omega
      simp only [hlt]

/-- The second loop stores the rest of the schedule. -/
theorem foldl_schedule {W : ℕ → UInt32} {block : List UInt8} (hW : ∀ t < 16, W t = schedule block t)
    (n : ℕ) : ∀ t < 16 + n, (List.range' 16 n).foldl (fun W t => Function.update W t
      (CircularShift 1 (W (t - 3) ^^^ W (t - 8) ^^^ W (t - 14) ^^^ W (t - 16)))) W t =
        schedule block t := by
  induction n with
  | zero => exact hW
  | succ n ih =>
    intro t ht
    rw [List.range'_concat, List.foldl_append, List.foldl_cons, List.foldl_nil, Nat.one_mul]
    by_cases hlast : t = 16 + n
    · rw [hlast, Function.update_self, ih _ (by omega), ih _ (by omega), ih _ (by omega),
        ih _ (by omega), CircularShift_eq (by decide) (by decide)]
      exact (schedule_of_le (Nat.le_add_right 16 n)).symm
    · rw [Function.update_of_ne hlast]
      exact ih t (by omega)

theorem wordSequence_eq (Message_Block : ℕ → UInt8) :
    ∀ t < 80, wordSequence Message_Block t = schedule (bytesAt Message_Block 0 64) t := by
  have hfirst : ∀ t < 16, (List.range 16).foldl
      (fun W t => Function.update W t (blockWord Message_Block t)) 0 t =
        schedule (bytesAt Message_Block 0 64) t := by
    intro t ht
    rw [foldl_update, if_pos ht, blockWord_eq Message_Block ht, schedule_of_lt ht]
  exact foldl_schedule hfirst 64

/-- The body of each loop does the operation of its twenty rounds. -/
theorem loopBody_eq {f : UInt32 → UInt32 → UInt32 → UInt32} {K : UInt32} {W W' : ℕ → UInt32}
    {t : ℕ} (hf : f = roundFunction t) (hK : K = roundConstant t) (hW : W t = W' t) (s : Words) :
    loopBody f K W s t = operation W' s t := by
  rw [loopBody, and_mask, CircularShift_eq (by decide) (by decide),
    CircularShift_eq (by decide) (by decide), hf, hK, hW]
  rfl

theorem foldl_loopBody {f : UInt32 → UInt32 → UInt32 → UInt32} {K : UInt32} {W W' : ℕ → UInt32}
    {first : ℕ} (hf : ∀ t, first ≤ t → t < first + 20 → f = roundFunction t ∧ K = roundConstant t)
    (hW : ∀ t < first + 20, W t = W' t) (s : Words) :
    (List.range' first 20).foldl (loopBody f K W) s =
      (List.range' first 20).foldl (operation W') s := by
  apply List.foldl_ext
  intro w t ht
  obtain ⟨hle, hlt⟩ := List.mem_range'_1.mp ht
  obtain ⟨hft, hKt⟩ := hf t hle hlt
  exact loopBody_eq hft hKt (hW t hlt) w

/-- What the processing of a block leaves. -/
def SHA1.processed (s : SHA1) (H : Words) : SHA1 := { s with H := H, Message_Block_Index := 0 }

theorem ProcessMessageBlock_eq (s : SHA1) :
    s.ProcessMessageBlock = s.processed (compress s.H (bytesAt s.Message_Block 0 64)) := by
  let W' := schedule (bytesAt s.Message_Block 0 64)
  have hW : ∀ t < 80, wordSequence s.Message_Block t = W' t := wordSequence_eq s.Message_Block
  have hrange : List.range 80 =
      List.range' 0 20 ++ List.range' 20 20 ++ List.range' 40 20 ++ List.range' 60 20 := by decide
  have h1 : ∀ t, 0 ≤ t → t < 0 + 20 → ch = roundFunction t ∧ 0x5A827999 = roundConstant t := by
    intro t _ hlt
    rw [roundFunction, roundConstant, if_pos hlt, if_pos hlt]
    exact ⟨rfl, rfl⟩
  have h2 : ∀ t, 20 ≤ t → t < 20 + 20 →
      parity = roundFunction t ∧ 0x6ED9EBA1 = roundConstant t := by
    intro t hle hlt
    have h20 : ¬ t < 20 := Nat.not_lt.mpr hle
    rw [roundFunction, roundConstant, if_neg h20, if_neg h20, if_pos hlt, if_pos hlt]
    exact ⟨rfl, rfl⟩
  have h3 : ∀ t, 40 ≤ t → t < 40 + 20 → maj = roundFunction t ∧ 0x8F1BBCDC = roundConstant t := by
    intro t hle hlt
    have h20 : ¬ t < 20 := by omega
    have h40 : ¬ t < 40 := Nat.not_lt.mpr hle
    rw [roundFunction, roundConstant, if_neg h20, if_neg h20, if_neg h40, if_neg h40, if_pos hlt,
      if_pos hlt]
    exact ⟨rfl, rfl⟩
  have h4 : ∀ t, 60 ≤ t → t < 60 + 20 →
      parity = roundFunction t ∧ 0xCA62C1D6 = roundConstant t := by
    intro t hle _
    have h20 : ¬ t < 20 := by omega
    have h40 : ¬ t < 40 := by omega
    have h60 : ¬ t < 60 := Nat.not_lt.mpr hle
    rw [roundFunction, roundConstant, if_neg h20, if_neg h20, if_neg h40, if_neg h40, if_neg h60,
      if_neg h60]
    exact ⟨rfl, rfl⟩
  simp only [SHA1.ProcessMessageBlock, SHA1.processed, compress, and_mask, hrange,
    List.foldl_append]
  rw [foldl_loopBody h1 (fun t ht => hW t (by omega)),
    foldl_loopBody h2 (fun t ht => hW t (by omega)),
    foldl_loopBody h3 (fun t ht => hW t (by omega)), foldl_loopBody h4 hW]

/-! ## The portions of a message -/

def toBuffer (s : SHA1) : Buffer Words := ⟨s.H, s.Message_Block, s.Message_Block_Index⟩

def bits (s : SHA1) : ℕ := s.Length_Low.toNat + UInt32.size * s.Length_High.toNat

/-- The object has taken a message in, and has not been asked for the digest. -/
structure Stands (message : List UInt8) (s : SHA1) : Prop where
  holds : (toBuffer s).Holds compress 64 initial message
  bits_eq : bits s = 8 * message.length
  computed : s.Computed = false
  corrupted : s.Corrupted = false

variable {message : List UInt8} {s : SHA1}

theorem stands_Reset (s : SHA1) : Stands [] s.Reset where
  holds := Buffer.holds_nil s.Message_Block
  bits_eq := rfl
  computed := rfl
  corrupted := rfl

theorem bits_lt (s : SHA1) : bits s < 2 ^ 64 := by
  have hlow : s.Length_Low.toNat < 2 ^ 32 := s.Length_Low.toNat_lt
  have hhigh : s.Length_High.toNat < 2 ^ 32 := s.Length_High.toNat_lt
  have hsize : UInt32.size = 2 ^ 32 := by decide
  rw [bits, hsize]
  omega

@[simp] theorem toBuffer_processed (s : SHA1) (H : Words) :
    toBuffer (s.processed H) = ⟨H, s.Message_Block, 0⟩ := rfl

@[simp] theorem bits_processed (s : SHA1) (H : Words) : bits (s.processed H) = bits s := rfl

@[simp] theorem Computed_processed (s : SHA1) (H : Words) :
    (s.processed H).Computed = s.Computed := rfl

@[simp] theorem Corrupted_processed (s : SHA1) (H : Words) :
    (s.processed H).Corrupted = s.Corrupted := rfl

/-- Counting changes nothing that is hashed. -/
theorem toBuffer_count (s : SHA1) : toBuffer s.count = toBuffer s := by
  simp only [SHA1.count]
  split_ifs <;> rfl

theorem Computed_count (s : SHA1) : s.count.Computed = s.Computed := by
  simp only [SHA1.count]
  split_ifs <;> rfl

/-- Both halves are zero again only after `2 ^ 64` bits. -/
theorem bits_count (s : SHA1) (hbits : bits s % 8 = 0) :
    bits s.count = (bits s + 8) % 2 ^ 64 ∧
      s.count.Corrupted = (s.Corrupted || decide (bits s + 8 = 2 ^ 64)) := by
  obtain ⟨H, low, high, block, index, computed, corrupted⟩ := s
  have hlow : low.toNat < 2 ^ 32 := low.toNat_lt
  have hhigh : high.toNat < 2 ^ 32 := high.toNat_lt
  have hsize : UInt32.size = 2 ^ 32 := by decide
  have hlow' : (low + 8).toNat = (low.toNat + 8) % 2 ^ 32 := UInt32.toNat_add low 8
  have hhigh' : (high + 1).toNat = (high.toNat + 1) % 2 ^ 32 := UInt32.toNat_add high 1
  have hzero (v : UInt32) : v = 0 ↔ v.toNat = 0 := UInt32.toNat_inj.symm
  simp only [bits, hsize] at hbits ⊢
  simp only [SHA1.count, and_mask]
  by_cases hwrap : low + 8 = 0
  · have hw := (hzero _).mp hwrap
    rw [hlow'] at hw
    by_cases hover : high + 1 = 0
    · have ho := (hzero _).mp hover
      rw [hhigh'] at ho
      have hfull : low.toNat + 2 ^ 32 * high.toNat + 8 = 2 ^ 64 := by omega
      rw [if_pos hwrap, if_pos hover, decide_eq_true hfull, Bool.or_true]
      exact ⟨by dsimp only; omega, rfl⟩
    · have ho := mt (hzero _).mpr hover
      rw [hhigh'] at ho
      have hroom : low.toNat + 2 ^ 32 * high.toNat + 8 ≠ 2 ^ 64 := by omega
      rw [if_pos hwrap, if_neg hover, decide_eq_false hroom, Bool.or_false]
      exact ⟨by dsimp only; omega, rfl⟩
  · have hw := mt (hzero _).mpr hwrap
    rw [hlow'] at hw
    have hroom : low.toNat + 2 ^ 32 * high.toNat + 8 ≠ 2 ^ 64 := by omega
    rw [if_neg hwrap, decide_eq_false hroom, Bool.or_false]
    exact ⟨by dsimp only; omega, rfl⟩

/-- A byte that is stored, counted and, as the last one of its block, processed. -/
theorem inputByte_eq (hcorrupted : s.Corrupted = false) (byte : UInt8) :
    s.inputByte byte =
      if s.Message_Block_Index + 1 = 64 then (s.store byte).count.ProcessMessageBlock
      else (s.store byte).count := by
  have hbyte : byte &&& 0xFF = byte := by
    apply UInt8.toBitVec_inj.mp
    exact BitVec.and_allOnes
  have hindex : (s.store byte).count.Message_Block_Index = s.Message_Block_Index + 1 :=
    congrArg Buffer.index (toBuffer_count (s.store byte))
  rw [SHA1.inputByte, hcorrupted, hbyte]
  simp only [hindex]
  rfl

theorem toBuffer_inputByte (hcorrupted : s.Corrupted = false) (byte : UInt8) :
    toBuffer (s.inputByte byte) = (toBuffer s).put compress 64 byte := by
  have hcount := toBuffer_count (s.store byte)
  have hH : (s.store byte).count.H = s.H := congrArg Buffer.chain hcount
  have hblock : (s.store byte).count.Message_Block =
      write s.Message_Block s.Message_Block_Index [byte] := congrArg Buffer.block hcount
  rw [inputByte_eq hcorrupted]
  dsimp only [Buffer.put, toBuffer]
  by_cases hfull : s.Message_Block_Index + 1 = 64
  · rw [if_pos hfull, if_pos hfull, ProcessMessageBlock_eq, hH, hblock]
    exact (toBuffer_processed _ _).trans (by rw [hblock])
  · rw [if_neg hfull, if_neg hfull]
    exact hcount

theorem fields_inputByte (hcorrupted : s.Corrupted = false) (hbits : bits s % 8 = 0)
    (byte : UInt8) :
    bits (s.inputByte byte) = (bits s + 8) % 2 ^ 64 ∧ (s.inputByte byte).Computed = s.Computed ∧
      (s.inputByte byte).Corrupted = decide (bits s + 8 = 2 ^ 64) := by
  obtain ⟨hsum, hcorrupt⟩ := bits_count (s.store byte) hbits
  have hstored : (s.store byte).Corrupted = false := hcorrupted
  rw [hstored, Bool.false_or] at hcorrupt
  have hcomputed : (s.store byte).count.Computed = s.Computed := Computed_count _
  rw [inputByte_eq hcorrupted]
  split_ifs
  · rw [ProcessMessageBlock_eq, bits_processed, Computed_processed, Corrupted_processed]
    exact ⟨hsum, hcomputed, hcorrupt⟩
  · exact ⟨hsum, hcomputed, hcorrupt⟩

/-- A byte of the message. -/
theorem Stands.inputByte (h : Stands message s) (byte : UInt8)
    (hlength : 8 * (message.length + 1) < 2 ^ 64) :
    Stands (message ++ [byte]) (s.inputByte byte) := by
  have hmod : bits s % 8 = 0 := by rw [h.bits_eq, Nat.mul_mod_right]
  have hroom : bits s + 8 ≠ 2 ^ 64 := by rw [h.bits_eq]; omega
  obtain ⟨hbits, hcomputed, hcorrupted⟩ := fields_inputByte h.corrupted hmod byte
  constructor
  · rw [toBuffer_inputByte h.corrupted]
    exact h.holds.put (by decide) byte
  · rw [hbits, h.bits_eq, List.length_append, List.length_singleton]
    omega
  · rw [hcomputed, h.computed]
  · rw [hcorrupted, decide_eq_false hroom]

/-- The byte with which the message is too long. -/
theorem Stands.inputByte_corrupted (h : Stands message s) (byte : UInt8)
    (hlength : 8 * (message.length + 1) = 2 ^ 64) :
    (s.inputByte byte).Computed = false ∧ (s.inputByte byte).Corrupted = true := by
  have hmod : bits s % 8 = 0 := by rw [h.bits_eq, Nat.mul_mod_right]
  have hfull : bits s + 8 = 2 ^ 64 := by rw [h.bits_eq]; omega
  obtain ⟨_, hcomputed, hcorrupted⟩ := fields_inputByte h.corrupted hmod byte
  exact ⟨hcomputed.trans h.computed, hcorrupted.trans (decide_eq_true hfull)⟩

theorem foldl_inputByte_of_corrupted (hcorrupted : s.Corrupted = true) (bytes : List UInt8) :
    bytes.foldl SHA1.inputByte s = s := by
  induction bytes with
  | nil => rfl
  | cons byte bytes ih =>
    rw [List.foldl_cons, SHA1.inputByte, hcorrupted]
    exact ih

/-- A portion of the message: it is taken in, or the message is too long with it. -/
theorem Stands.foldl_inputByte (h : Stands message s) (bytes : List UInt8) :
    if 8 * (message.length + bytes.length) < 2 ^ 64 then
      Stands (message ++ bytes) (bytes.foldl SHA1.inputByte s)
    else (bytes.foldl SHA1.inputByte s).Computed = false ∧
      (bytes.foldl SHA1.inputByte s).Corrupted = true := by
  induction bytes generalizing message s with
  | nil =>
    have hlt := bits_lt s
    rw [h.bits_eq] at hlt
    rw [List.append_nil, List.length_nil, Nat.add_zero, if_pos hlt]
    exact h
  | cons byte bytes ih =>
    have hlt := bits_lt s
    rw [h.bits_eq] at hlt
    by_cases hroom : 8 * (message.length + 1) < 2 ^ 64
    · have hrest := ih (h.inputByte byte hroom)
      have hlength : (message ++ [byte]).length + bytes.length =
          message.length + (byte :: bytes).length := by
        simp only [List.length_append, List.length_cons, List.length_nil]
        omega
      rw [hlength, List.append_assoc] at hrest
      exact hrest
    · have hfull : 8 * (message.length + 1) = 2 ^ 64 := by omega
      have hover : ¬ 8 * (message.length + (byte :: bytes).length) < 2 ^ 64 := by
        rw [List.length_cons]
        omega
      have hbyte := h.inputByte_corrupted byte hfull
      rw [if_neg hover, List.foldl_cons, foldl_inputByte_of_corrupted hbyte.2]
      exact hbyte

/-! ## The padding -/

theorem foldl_store (s : SHA1) (bytes : List UInt8) : bytes.foldl SHA1.store s =
    { s with
      Message_Block := write s.Message_Block s.Message_Block_Index bytes
      Message_Block_Index := s.Message_Block_Index + bytes.length } := by
  induction bytes generalizing s with
  | nil =>
    have hnone : write s.Message_Block s.Message_Block_Index [] = s.Message_Block := by
      funext i
      rcases Nat.lt_or_ge i s.Message_Block_Index with h | h
      · exact write_of_lt h
      · exact write_of_ge h
    rw [hnone]
    rfl
  | cons byte bytes ih =>
    rw [List.foldl_cons, ih, Bytes.write_cons, List.length_cons, Nat.add_comm bytes.length 1,
      ← Nat.add_assoc]
    rfl

theorem storeZeros_eq (s : SHA1) {n : ℕ} (hn : s.Message_Block_Index ≤ n) : s.storeZeros n =
    { s with
      Message_Block := write s.Message_Block s.Message_Block_Index
        (List.replicate (n - s.Message_Block_Index) 0)
      Message_Block_Index := n } := by
  rw [SHA1.storeZeros, foldl_store, List.length_replicate, Nat.add_sub_cancel' hn]

/-- The one bit and the zeros up to a place of the block. -/
theorem store_storeZeros_eq (s : SHA1) {n : ℕ} (hn : s.Message_Block_Index < n) :
    (s.store 0x80).storeZeros n =
      { s with
        Message_Block := write s.Message_Block s.Message_Block_Index
          (0x80 :: List.replicate (n - 1 - s.Message_Block_Index) 0)
        Message_Block_Index := n } := by
  have hindex : (s.store 0x80).Message_Block_Index = s.Message_Block_Index + 1 := rfl
  rw [storeZeros_eq _ (by rw [hindex]; omega), Bytes.write_cons, hindex, Nat.sub_sub, Nat.add_comm 1]
  rfl

/-- The length closes the last block. -/
theorem H_storeLength (s : SHA1) (hbits : bits s = 8 * message.length) :
    s.storeLength.ProcessMessageBlock.H =
      compress s.H (bytesAt s.Message_Block 0 56 ++ bitLength message.length) := by
  have hsize : UInt32.size = 256 ^ 4 := by decide
  have hlow : s.Length_Low.toNat < 256 ^ 4 := s.Length_Low.toNat_lt
  have hencode : (wordBytes s.Length_High).reverse ++ (wordBytes s.Length_Low).reverse =
      bitLength message.length := by
    have hmod : bits s % 256 ^ 4 = s.Length_Low.toNat := by
      rw [bits, hsize, Nat.add_mul_mod_self_left, Nat.mod_eq_of_lt hlow]
    have hdiv : bits s / 256 ^ 4 = s.Length_High.toNat := by
      rw [bits, hsize, Nat.add_mul_div_left _ _ (by decide), Nat.div_eq_of_lt hlow, Nat.zero_add]
    rw [bitLength, ← hbits, leBytes_append 4 4, List.reverse_append, hdiv, ← leBytes_mod 4 (bits s),
      hmod, wordBytes_eq, wordBytes_eq]
  have hlast : bytesAt s.storeLength.Message_Block 0 64 =
      bytesAt s.Message_Block 0 56 ++ bitLength message.length := by
    have hlength : (bitLength message.length).length = 8 := by
      rw [bitLength, List.length_reverse, leBytes_length]
    have happend := bytesAt_write_append s.Message_Block 56 (bitLength message.length)
    rw [hlength, ← hencode] at happend
    exact happend.trans (by rw [hencode])
  rw [ProcessMessageBlock_eq, hlast]
  rfl

/-- The bytes of the block up to the place that the zeros reach. -/
theorem bytesAt_store_storeZeros (s : SHA1) {n : ℕ} (hn : s.Message_Block_Index < n) :
    bytesAt ((s.store 0x80).storeZeros n).Message_Block 0 n =
      bytesAt s.Message_Block 0 s.Message_Block_Index ++
        (0x80 :: List.replicate (n - 1 - s.Message_Block_Index) 0) := by
  have happend := bytesAt_write_append s.Message_Block s.Message_Block_Index
    (0x80 :: List.replicate (n - 1 - s.Message_Block_Index) 0)
  have hlength : s.Message_Block_Index +
      (0x80 :: List.replicate (n - 1 - s.Message_Block_Index) (0 : UInt8)).length = n := by
    rw [List.length_cons, List.length_replicate]
    omega
  rw [hlength] at happend
  rw [store_storeZeros_eq s hn]
  exact happend

/-- When the block is too small for the length, the bit and the zeros fill it. -/
theorem Stands.filled (h : Stands message s) (hindex : s.Message_Block_Index < 64) :
    (toBuffer ((s.store 0x80).storeZeros 64).ProcessMessageBlock).chain =
        BlockHash.hash compress 64 initial
          (message ++ (0x80 :: List.replicate (63 - s.Message_Block_Index) 0)) ∧
      (toBuffer ((s.store 0x80).storeZeros 64).ProcessMessageBlock).index = 0 ∧
      bits ((s.store 0x80).storeZeros 64).ProcessMessageBlock = 8 * message.length := by
  have hrest : s.Message_Block_Index +
      (0x80 :: List.replicate (63 - s.Message_Block_Index) (0 : UInt8)).length = 64 := by
    rw [List.length_cons, List.length_replicate]
    omega
  have hstore := store_storeZeros_eq s hindex
  have hH : ((s.store 0x80).storeZeros 64).H = s.H := by rw [hstore]
  rw [ProcessMessageBlock_eq, toBuffer_processed, bits_processed,
    bytesAt_store_storeZeros s hindex, hH, h.holds.hash_last (by decide) hrest]
  refine ⟨rfl, rfl, ?_⟩
  rw [hstore]
  exact h.bits_eq

theorem Stands.PadMessage_H (h : Stands message s) : s.PadMessage.H = sha1 message := by
  have hindex : s.Message_Block_Index = message.length % 64 := h.holds.index_eq
  have hlt : message.length % 64 < 64 := Nat.mod_lt _ (by decide)
  have hlength : (bitLength message.length).length = 8 := by
    rw [bitLength, List.length_reverse, leBytes_length]
  by_cases hlate : s.Message_Block_Index > 55
  · -- the bit and the zeros fill the block, and fifty-six more zeros begin the last one
    have hzeros : zeros 64 8 message.length = 63 - s.Message_Block_Index + 56 := by
      rw [zeros, hindex]
      omega
    obtain ⟨first, hfirst⟩ :
        ∃ first, first = ((s.store 0x80).storeZeros 64).ProcessMessageBlock := ⟨_, rfl⟩
    obtain ⟨hchain, hempty, hbits⟩ := h.filled (show s.Message_Block_Index < 64 by omega)
    rw [← hfirst] at hchain hempty hbits
    have hstore := storeZeros_eq first (n := 56) (by
      rw [show first.Message_Block_Index = 0 from hempty]
      exact Nat.zero_le 56)
    have hblock : bytesAt (first.storeZeros 56).Message_Block 0 56 = List.replicate 56 0 := by
      have hwrite := bytesAt_write first.Message_Block 0 (List.replicate 56 0)
      rw [List.length_replicate] at hwrite
      rw [hstore, show first.Message_Block_Index = 0 from hempty]
      exact hwrite
    have hdvd : 64 ∣ (message ++
        (0x80 :: List.replicate (63 - s.Message_Block_Index) 0)).length := by
      rw [List.length_append, List.length_cons, List.length_replicate]
      omega
    have hlast : (List.replicate 56 0 ++ bitLength message.length).length = 64 := by
      rw [List.length_append, List.length_replicate, hlength]
    have hbits' : bits (first.storeZeros 56) = 8 * message.length := by
      rw [hstore]
      exact hbits
    have hH : (first.storeZeros 56).H = first.H := by rw [hstore]
    have hpad : pad 64 8 bitLength message =
        message ++ (0x80 :: List.replicate (63 - s.Message_Block_Index) 0) ++
          (List.replicate 56 0 ++ bitLength message.length) := by
      rw [pad, hzeros, List.replicate_add]
      simp only [List.append_assoc, List.cons_append]
    rw [SHA1.PadMessage, if_pos hlate, ← hfirst, H_storeLength _ hbits', hblock, hH, sha1, hpad,
      hash_append (by decide) hdvd, ← hchain, BlockHash.hash,
      blocks_of_length_eq (by decide) hlast]
    rfl
  · have hzeros : zeros 64 8 message.length = 55 - s.Message_Block_Index := by
      rw [zeros, hindex]
      omega
    have hstore := store_storeZeros_eq s (show s.Message_Block_Index < 56 by omega)
    have hblock := bytesAt_store_storeZeros s (show s.Message_Block_Index < 56 by omega)
    have hbits : bits ((s.store 0x80).storeZeros 56) = 8 * message.length := by
      rw [hstore]
      exact h.bits_eq
    have hH : ((s.store 0x80).storeZeros 56).H = s.H := by rw [hstore]
    have hrest : s.Message_Block_Index +
        ((0x80 :: List.replicate (55 - s.Message_Block_Index) 0) ++
          bitLength message.length).length = 64 := by
      rw [List.length_append, List.length_cons, List.length_replicate, hlength]
      omega
    have hlast := h.holds.hash_last (by decide) hrest
    rw [SHA1.PadMessage, if_neg hlate, H_storeLength _ hbits, hblock, hH, sha1, pad, hzeros,
      List.append_assoc message, hlast, List.append_assoc]
    rfl

/-! ## Any order of calls -/

inductive Call where
  | Reset
  | Input (message_array : List UInt8)
  | Result

/-- Only `Result` answers anything. -/
def SHA1.call (s : SHA1) : Call → SHA1 × Option (Option Words)
  | .Reset => (s.Reset, none)
  | .Input message_array => (s.Input message_array, none)
  | .Result => (s.Result.1, some s.Result.2)

/-- An object that keeps the message since the last reset, whether its digest has been asked for,
and whether the message is corrupted. -/
structure Hasher where
  message : List UInt8
  computed : Bool
  corrupted : Bool

def Hasher.fresh : Hasher := ⟨[], false, false⟩

/-- A message may not go on after its digest has been asked for, and may not be too long. -/
def Hasher.input (h : Hasher) (portion : List UInt8) : Hasher :=
  if portion = [] then h
  else if h.computed = false ∧ h.corrupted = false ∧
      8 * (h.message.length + portion.length) < 2 ^ 64 then
    { h with message := h.message ++ portion }
  else { h with corrupted := true }

def Hasher.call (h : Hasher) : Call → Hasher × Option (Option Words)
  | .Reset => (.fresh, none)
  | .Input message_array => (h.input (message_array.take (message_array.length % 2 ^ 32)), none)
  | .Result =>
    if h.corrupted then (h, some none) else ({ h with computed := true }, some (sha1 h.message))

/-- The object has, or has computed, what is asked for. -/
structure Simulates (s : SHA1) (h : Hasher) : Prop where
  computed_eq : s.Computed = h.computed
  corrupted_eq : s.Corrupted = h.corrupted
  stands : h.computed = false → h.corrupted = false → Stands h.message s
  digest : h.computed = true → h.corrupted = false → s.H = sha1 h.message

variable {h : Hasher}

theorem simulates_Reset (s : SHA1) : Simulates s.Reset .fresh where
  computed_eq := rfl
  corrupted_eq := rfl
  stands _ _ := stands_Reset s
  digest hcomputed _ := absurd hcomputed Bool.false_ne_true

/-- An object whose message is corrupted says nothing more. -/
theorem simulates_of_corrupted (hcomputed : s.Computed = h.computed)
    (hcorrupted : s.Corrupted = h.corrupted) (htrue : h.corrupted = true) : Simulates s h where
  computed_eq := hcomputed
  corrupted_eq := hcorrupted
  stands _ hfalse := absurd (htrue.symm.trans hfalse) (by decide)
  digest _ hfalse := absurd (htrue.symm.trans hfalse) (by decide)

theorem Simulates.input (hs : Simulates s h) (message_array : List UInt8) :
    Simulates (s.Input message_array)
      (h.input (message_array.take (message_array.length % 2 ^ 32))) := by
  have hcount : (UInt32.ofNat message_array.length).toNat = message_array.length % 2 ^ 32 :=
    UInt32.toNat_ofNat'
  have hempty : UInt32.ofNat message_array.length = 0 ↔
      message_array.take (message_array.length % 2 ^ 32) = [] := by
    rw [← UInt32.toNat_inj, hcount, List.take_eq_nil_iff]
    constructor
    · intro hzero
      exact .inl hzero
    · rintro (hzero | rfl)
      · exact hzero
      · rfl
  simp only [SHA1.Input, Hasher.input, hcount, hempty]
  by_cases hnil : message_array.take (message_array.length % 2 ^ 32) = []
  · rw [if_pos hnil, if_pos hnil]
    exact hs
  rw [if_neg hnil, if_neg hnil]
  by_cases hopen : h.computed = false ∧ h.corrupted = false
  · have hopen' : ¬ (s.Computed = true ∨ s.Corrupted = true) := by
      rw [hs.computed_eq, hs.corrupted_eq, hopen.1, hopen.2]
      decide
    have hportion := (hs.stands hopen.1 hopen.2).foldl_inputByte
      (message_array.take (message_array.length % 2 ^ 32))
    rw [if_neg hopen']
    by_cases hlength : 8 * (h.message.length +
        (message_array.take (message_array.length % 2 ^ 32)).length) < 2 ^ 64
    · rw [if_pos hlength] at hportion
      rw [if_pos ⟨hopen.1, hopen.2, hlength⟩]
      refine ⟨hportion.computed.trans hopen.1.symm, hportion.corrupted.trans hopen.2.symm,
        fun _ _ => hportion, ?_⟩
      intro hcomputed
      exact absurd (hopen.1.symm.trans hcomputed) Bool.false_ne_true
    · rw [if_neg hlength] at hportion
      rw [if_neg fun hall => hlength hall.2.2]
      exact simulates_of_corrupted (hportion.1.trans hopen.1.symm) hportion.2 rfl
  · have hclosed : s.Computed = true ∨ s.Corrupted = true := by
      rw [hs.computed_eq, hs.corrupted_eq]
      cases hcomputed : h.computed with
      | true => exact .inl rfl
      | false =>
        cases hcorrupted : h.corrupted with
        | true => exact .inr rfl
        | false => exact absurd ⟨hcomputed, hcorrupted⟩ hopen
    rw [if_pos hclosed, if_neg fun hall => hopen ⟨hall.1, hall.2.1⟩]
    exact simulates_of_corrupted hs.computed_eq rfl rfl

theorem Corrupted_storeZeros (s : SHA1) (n : ℕ) : (s.storeZeros n).Corrupted = s.Corrupted := by
  rw [SHA1.storeZeros, foldl_store]

theorem Corrupted_PadMessage (s : SHA1) : s.PadMessage.Corrupted = s.Corrupted := by
  have hstored : (s.store 0x80).Corrupted = s.Corrupted := rfl
  have hlength (t : SHA1) : t.storeLength.Corrupted = t.Corrupted := rfl
  rw [SHA1.PadMessage]
  split_ifs
  · rw [ProcessMessageBlock_eq, Corrupted_processed, hlength, Corrupted_storeZeros,
      ProcessMessageBlock_eq, Corrupted_processed, Corrupted_storeZeros, hstored]
  · rw [ProcessMessageBlock_eq, Corrupted_processed, hlength, Corrupted_storeZeros, hstored]

/-- The digest is computed once, and answered from then on. -/
theorem Simulates.result (hs : Simulates s h) (hcorrupted : h.corrupted = false) :
    s.Result.2 = some (sha1 h.message) ∧ Simulates s.Result.1 { h with computed := true } := by
  have hcorrupted' := hs.corrupted_eq.trans hcorrupted
  cases hcomputed : h.computed with
  | true =>
    have hcomputed' := hs.computed_eq.trans hcomputed
    have hresult : s.Result = (s, some s.H) := by
      rw [SHA1.Result, hcorrupted', hcomputed']
      rfl
    rw [hresult, hs.digest hcomputed hcorrupted]
    refine ⟨rfl, hcomputed', hs.corrupted_eq, ?_, fun _ => hs.digest hcomputed⟩
    intro hfalse
    exact absurd hfalse.symm Bool.false_ne_true
  | false =>
    have hcomputed' := hs.computed_eq.trans hcomputed
    have hpadded := (hs.stands hcomputed hcorrupted).PadMessage_H
    have hresult : s.Result =
        ({ s.PadMessage with Computed := true }, some s.PadMessage.H) := by
      rw [SHA1.Result, hcorrupted', hcomputed']
      rfl
    rw [hresult, hpadded]
    refine ⟨rfl, rfl, (Corrupted_PadMessage s).trans hs.corrupted_eq, ?_, fun _ _ => hpadded⟩
    intro hfalse
    exact absurd hfalse.symm Bool.false_ne_true

theorem Simulates.call (hs : Simulates s h) (c : Call) :
    (s.call c).2 = (h.call c).2 ∧ Simulates (s.call c).1 (h.call c).1 := by
  cases c with
  | Reset => exact ⟨rfl, simulates_Reset s⟩
  | Input message_array => exact ⟨rfl, hs.input message_array⟩
  | Result =>
    rw [SHA1.call, Hasher.call]
    by_cases hcorrupted : h.corrupted = true
    · have hresult : s.Result = (s, none) := by
        rw [SHA1.Result, hs.corrupted_eq, if_pos hcorrupted]
      rw [hresult, if_pos hcorrupted]
      exact ⟨rfl, hs⟩
    · obtain ⟨hdigest, hnext⟩ := hs.result (Bool.not_eq_true _ ▸ hcorrupted)
      rw [if_neg hcorrupted]
      exact ⟨congrArg some hdigest, hnext⟩

/-- **The object answers every list of calls as the one that keeps the whole message.** -/
theorem answers_SHA1 (s : SHA1) (calls : List Call) :
    Transition.answers SHA1.call s.Reset calls = Transition.answers Hasher.call .fresh calls :=
  Transition.answers_eq Simulates (fun _ _ c hs => hs.call c) (simulates_Reset s) calls

end TyanoCore.Sha1
