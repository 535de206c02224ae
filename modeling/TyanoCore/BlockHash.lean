import Mathlib.Data.BitVec
import TyanoCore.Bytes

/-!
# Hash functions over blocks

A message is cut into blocks of one size, and a compression function folds the blocks into a
chaining value.  A message of any length is first padded: a one bit, zeros, and its length in the
last bytes of the last block.  A hash function that is fed piece by piece keeps the chaining value
of the blocks it has seen whole and the bytes of the block that is not whole yet.
-/

namespace BlockHash

open Bytes

variable {Chain : Type*}

/-! ## Messages at once -/

/-- The whole blocks of a message. -/
def blocks (size : ℕ) (message : List UInt8) : List (List UInt8) :=
  (List.range (message.length / size)).map fun i => (message.drop (i * size)).take size

def hash (compress : Chain → List UInt8 → Chain) (size : ℕ) (chain : Chain)
    (message : List UInt8) : Chain :=
  (blocks size message).foldl compress chain

/-- The zeros between the one bit and the length, when the length takes `width` bytes. -/
def zeros (size width n : ℕ) : ℕ := (2 * size - width - 1 - n % size) % size

def pad (size width : ℕ) (encode : ℕ → List UInt8) (message : List UInt8) : List UInt8 :=
  message ++ (0x80 :: List.replicate (zeros size width message.length) 0) ++ encode message.length

variable {size width : ℕ} {message rest : List UInt8} {compress : Chain → List UInt8 → Chain}
  {chain : Chain}

theorem blocks_of_length_lt (h : message.length < size) : blocks size message = [] := by
  rw [blocks, Nat.div_eq_of_lt h]
  rfl

/-- Blocks of whole blocks and of what follows. -/
theorem blocks_append (hsize : 0 < size) (h : size ∣ message.length) :
    blocks size (message ++ rest) = blocks size message ++ blocks size rest := by
  obtain ⟨k, hk⟩ := h
  have hcount : (message ++ rest).length / size = k + rest.length / size := by
    rw [List.length_append, hk, Nat.add_comm, Nat.add_mul_div_left _ _ hsize, Nat.add_comm]
  rw [blocks, hcount, List.range_add, List.map_append, List.map_map, blocks, hk,
    Nat.mul_div_cancel_left k hsize]
  congr 1
  · apply List.map_congr_left
    intro i hi
    -- a block of the first part ends before the second part begins
    have hlt : (i + 1) * size ≤ k * size :=
      Nat.mul_le_mul_right size (List.mem_range.mp hi)
    have hle : i * size + size ≤ message.length := by
      rw [hk, Nat.mul_comm size k, ← Nat.succ_mul]
      exact hlt
    rw [List.drop_append_of_le_length (by omega), List.take_append_of_le_length]
    rw [List.length_drop]
    omega
  · apply List.map_congr_left
    intro i _
    have hdrop : (k + i) * size = message.length + i * size := by
      rw [hk, Nat.add_mul, Nat.mul_comm size k]
    rw [Function.comp_apply, hdrop, List.drop_length_add_append]

theorem blocks_of_length_eq (hsize : 0 < size) (h : message.length = size) :
    blocks size message = [message] := by
  rw [blocks, h, Nat.div_self hsize, List.range_one, List.map_singleton, Nat.zero_mul,
    List.drop_zero, ← h, List.take_length]

theorem hash_append (hsize : 0 < size) (h : size ∣ message.length) :
    hash compress size chain (message ++ rest) =
      hash compress size (hash compress size chain message) rest := by
  rw [hash, blocks_append hsize h, List.foldl_append]
  rfl

/-! ## Messages piece by piece -/

/-- A chaining value, and the memory of the block that is being filled. -/
structure Buffer (Chain : Type*) where
  chain : Chain
  block : ℕ → UInt8
  index : ℕ

/-- Stores a byte; a block that is whole is compressed. -/
def Buffer.put (compress : Chain → List UInt8 → Chain) (size : ℕ) (s : Buffer Chain)
    (byte : UInt8) : Buffer Chain :=
  let block := write s.block s.index [byte]
  if s.index + 1 = size then ⟨compress s.chain (bytesAt block 0 size), block, 0⟩
  else ⟨s.chain, block, s.index + 1⟩

/-- What is stored after a message: its whole blocks are in the chaining value, and the bytes after
them in the block. -/
structure Buffer.Holds (compress : Chain → List UInt8 → Chain) (size : ℕ) (chain : Chain)
    (message : List UInt8) (s : Buffer Chain) : Prop where
  chain_eq : s.chain = hash compress size chain message
  index_eq : s.index = message.length % size
  block_eq : bytesAt s.block 0 s.index = message.drop (message.length / size * size)

theorem Buffer.holds_nil (block : ℕ → UInt8) :
    Holds compress size chain [] ⟨chain, block, 0⟩ where
  chain_eq := by
    rw [hash, blocks, List.length_nil, Nat.zero_div]
    rfl
  index_eq := (Nat.zero_mod size).symm
  block_eq := List.drop_nil.symm

variable {s : Buffer Chain}

/-- What is stored and what follows it are hashed from the chaining value on. -/
theorem Buffer.Holds.hash_append (h : s.Holds compress size chain message) (hsize : 0 < size) :
    hash compress size chain (message ++ rest) =
      hash compress size s.chain (bytesAt s.block 0 s.index ++ rest) := by
  have hmod : message.length % size < size := Nat.mod_lt _ hsize
  have hdiv : message.length / size * size + message.length % size = message.length :=
    Nat.div_add_mod' _ _
  have hdvd : size ∣ (message.take (message.length / size * size)).length := by
    rw [List.length_take, Nat.min_eq_left (by omega)]
    exact Nat.dvd_mul_left size _
  have hstored : (message.drop (message.length / size * size)).length < size := by
    rw [List.length_drop]
    omega
  have hchain : s.chain =
      hash compress size chain (message.take (message.length / size * size)) := by
    have happend : hash compress size chain message =
        hash compress size (hash compress size chain (message.take (message.length / size * size)))
          (message.drop (message.length / size * size)) := by
      rw [← BlockHash.hash_append hsize hdvd, List.take_append_drop]
    rw [h.chain_eq, happend, hash, blocks_of_length_lt hstored]
    rfl
  rw [hchain, h.block_eq, ← BlockHash.hash_append hsize hdvd, ← List.append_assoc,
    List.take_append_drop]

theorem Buffer.Holds.index_lt (h : s.Holds compress size chain message) (hsize : 0 < size) :
    s.index < size := by
  rw [h.index_eq]
  exact Nat.mod_lt _ hsize

/-- One more byte. -/
theorem Buffer.Holds.put (h : s.Holds compress size chain message) (hsize : 0 < size)
    (byte : UInt8) : (s.put compress size byte).Holds compress size chain (message ++ [byte]) := by
  have hindex := h.index_eq
  have hlt := h.index_lt hsize
  have hdiv : message.length / size * size + message.length % size = message.length :=
    Nat.div_add_mod' _ _
  have hlength : (message ++ [byte]).length = message.length + 1 := List.length_append
  have hstored : bytesAt (write s.block s.index [byte]) 0 (s.index + 1) =
      bytesAt s.block 0 s.index ++ [byte] := bytesAt_write_append s.block s.index [byte]
  have hstoredlength : (bytesAt s.block 0 s.index ++ [byte]).length = s.index + 1 := by
    rw [List.length_append, bytesAt_length, List.length_singleton]
  by_cases hfull : s.index + 1 = size
  · rw [hfull] at hstored hstoredlength
    have hwhole : message.length + 1 = (message.length / size + 1) * size := by
      rw [Nat.add_mul, Nat.one_mul]
      omega
    rw [Buffer.put, if_pos hfull]
    constructor
    · rw [h.hash_append hsize, hash, blocks_of_length_eq hsize hstoredlength, hstored]
      rfl
    · rw [hlength, hwhole, Nat.mul_mod_left]
    · rw [hlength, hwhole, Nat.mul_div_cancel _ hsize, ← hwhole, ← hlength, List.drop_length]
      rfl
  · have hsum : message.length + 1 =
        (message.length % size + 1) + message.length / size * size := by omega
    have hmod : (message.length + 1) % size = message.length % size + 1 := by
      rw [hsum, Nat.add_mul_mod_self_right, Nat.mod_eq_of_lt (by omega)]
    have hquot : (message.length + 1) / size = message.length / size := by
      rw [hsum, Nat.add_mul_div_right _ _ hsize, Nat.div_eq_of_lt (by omega), Nat.zero_add]
    rw [Buffer.put, if_neg hfull]
    constructor
    · rw [h.hash_append hsize, hash, blocks_of_length_lt (by omega)]
      rfl
    · rw [hlength, hmod, ← hindex]
    · rw [hlength, hquot, List.drop_append_of_le_length (by omega), ← h.block_eq]
      exact hstored

/-- A piece of the message. -/
theorem Buffer.Holds.foldl_put (h : s.Holds compress size chain message) (hsize : 0 < size)
    (piece : List UInt8) :
    (piece.foldl (Buffer.put compress size) s).Holds compress size chain (message ++ piece) := by
  induction piece generalizing s message with
  | nil =>
    rw [List.append_nil]
    exact h
  | cons byte piece ih =>
    rw [List.append_cons]
    exact ih (h.put hsize byte)

/-- What follows makes the stored bytes a whole block: the last one. -/
theorem Buffer.Holds.hash_last (h : s.Holds compress size chain message) (hsize : 0 < size)
    (hlast : s.index + rest.length = size) :
    hash compress size chain (message ++ rest) =
      compress s.chain (bytesAt s.block 0 s.index ++ rest) := by
  have hlength : (bytesAt s.block 0 s.index ++ rest).length = size := by
    rw [List.length_append, bytesAt_length, hlast]
  rw [h.hash_append hsize, hash, blocks_of_length_eq hsize hlength]
  rfl

/-! ## Words of 32 bits -/

/-- Numbers shifted next to each other. -/
theorem shiftLeft_or_shiftLeft {a b m : ℕ} (n : ℕ) (hb : b < 2 ^ m) :
    a <<< (m + n) ||| b <<< n = (a * 2 ^ m + b) <<< n := by
  rw [Nat.shiftLeft_add, ← Nat.shiftLeft_or_distrib, ← Nat.shiftLeft_add_eq_or_of_lt hb,
    Nat.shiftLeft_eq a m]

theorem toNat_shiftLeft_byte (b : UInt8) {n : ℕ} (hn : n ≤ 24) :
    (b.toUInt32 <<< UInt32.ofNat n).toNat = b.toNat <<< n := by
  have hb : b.toNat < 2 ^ 8 := b.toNat_lt
  have hpow : 2 ^ n ≤ 2 ^ 24 := Nat.pow_le_pow_right (by decide) hn
  have hlt : b.toNat <<< n < 2 ^ 32 := by
    rw [Nat.shiftLeft_eq]
    calc
      b.toNat * 2 ^ n < 2 ^ 8 * 2 ^ n := Nat.mul_lt_mul_of_pos_right hb (Nat.two_pow_pos n)
      _ ≤ 2 ^ 8 * 2 ^ 24 := Nat.mul_le_mul_left _ hpow
  have hshift : (UInt32.ofNat n).toNat % 32 = n := by
    rw [UInt32.toNat_ofNat_of_lt' (show n < 2 ^ 32 by omega), Nat.mod_eq_of_lt (by omega)]
  rw [UInt32.toNat_shiftLeft, UInt8.toNat_toUInt32, hshift, Nat.mod_eq_of_lt hlt]

/-- Four bytes shifted next to each other. -/
theorem toNat_or_shifts (b3 b2 b1 b0 : UInt8) :
    (b3.toUInt32 <<< 24 ||| b2.toUInt32 <<< 16 ||| b1.toUInt32 <<< 8 ||| b0.toUInt32).toNat =
      leNat [b0, b1, b2, b3] := by
  have h2 : b2.toNat < 2 ^ 8 := b2.toNat_lt
  have h1 : b1.toNat < 2 ^ 8 := b1.toNat_lt
  have h0 : b0.toNat < 2 ^ 8 := b0.toNat_lt
  have e3 := toNat_shiftLeft_byte b3 (Nat.le_refl 24)
  have e2 := toNat_shiftLeft_byte b2 (show 16 ≤ 24 by decide)
  have e1 := toNat_shiftLeft_byte b1 (show 8 ≤ 24 by decide)
  have e0 : b0.toNat <<< 0 = b0.toNat := rfl
  rw [UInt32.toNat_or, UInt32.toNat_or, UInt32.toNat_or, UInt8.toNat_toUInt32]
  calc
    _ = b3.toNat <<< (8 + 16) ||| b2.toNat <<< 16 ||| b1.toNat <<< 8 ||| b0.toNat :=
      congrArg (· ||| b0.toNat) (congrArg₂ (· ||| ·) (congrArg₂ (· ||| ·) e3 e2) e1)
    _ = (b3.toNat * 2 ^ 8 + b2.toNat) <<< (8 + 8) ||| b1.toNat <<< 8 ||| b0.toNat := by
      rw [shiftLeft_or_shiftLeft 16 h2]
    _ = ((b3.toNat * 2 ^ 8 + b2.toNat) * 2 ^ 8 + b1.toNat) <<< (8 + 0) ||| b0.toNat <<< 0 := by
      rw [shiftLeft_or_shiftLeft 8 h1, e0]
    _ = leNat [b0, b1, b2, b3] := by
      rw [shiftLeft_or_shiftLeft 0 h0, Nat.shiftLeft_zero]
      simp only [leNat]
      omega

def rotateLeft (x : UInt32) (n : ℕ) : UInt32 := ⟨x.toBitVec.rotateLeft n⟩

theorem shiftLeft_or_shiftRight (x : UInt32) {n : ℕ} (hpos : 0 < n) (hn : n < 32) :
    (x <<< UInt32.ofNat n ||| x >>> UInt32.ofNat (32 - n)) = rotateLeft x n := by
  have hmod : (32 - n) % 32 = 32 - n := Nat.mod_eq_of_lt (by omega)
  apply UInt32.toBitVec_inj.mp
  simp [rotateLeft, UInt32.toBitVec_shiftRight, UInt32.toBitVec_shiftLeft,
    BitVec.rotateLeft_def, Nat.mod_eq_of_lt hn, hmod]

/-- The bytes of a word, the least significant one first. -/
def wordBytes (word : UInt32) : List UInt8 :=
  [(word &&& 0xFF).toUInt8, ((word >>> 8) &&& 0xFF).toUInt8, ((word >>> 16) &&& 0xFF).toUInt8,
    ((word >>> 24) &&& 0xFF).toUInt8]

theorem wordBytes_eq (word : UInt32) : wordBytes word = leBytes 4 word.toNat := by
  have hbyte (v : UInt32) (n : ℕ) (hv : v.toNat = n) : (v &&& 0xFF).toUInt8 = UInt8.ofNat n := by
    have hmask : UInt32.toNat 0xFF = 2 ^ 8 - 1 := rfl
    apply UInt8.toNat_inj.mp
    rw [UInt32.toNat_toUInt8, UInt32.toNat_and, hmask, Nat.and_two_pow_sub_one_eq_mod, hv,
      UInt8.toNat_ofNat']
    omega
  have hshift (m : UInt32) (hm : m.toNat < 32) :
      (word >>> m).toNat = word.toNat / 2 ^ m.toNat := by
    rw [UInt32.toNat_shiftRight, Nat.mod_eq_of_lt hm, Nat.shiftRight_eq_div_pow]
  have h1 : (word >>> 8).toNat = word.toNat / 256 := hshift 8 (by decide)
  have h2 : (word >>> 16).toNat = word.toNat / 256 / 256 :=
    (hshift 16 (by decide)).trans (Nat.div_div_eq_div_mul _ 256 256).symm
  have h3 : (word >>> 24).toNat = word.toNat / 256 / 256 / 256 := by
    rw [Nat.div_div_eq_div_mul, Nat.div_div_eq_div_mul]
    exact hshift 24 (by decide)
  rw [wordBytes, hbyte word _ rfl, hbyte _ _ h1, hbyte _ _ h2, hbyte _ _ h3]
  rfl

end BlockHash
