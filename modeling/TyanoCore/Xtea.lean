import Mathlib.Data.BitVec
import TyanoCore.Bytes
import TyanoCore.RoundCipher

/-!
# The cipher of the protocol

`Protocol::XTEA_encrypt` enciphers the blocks of eight bytes of a message one by one, in place.  A
peer with the same key takes the blocks of what arrives and undoes it.
-/

namespace TyanoCore

open Bytes

namespace Xtea

abbrev Word := BitVec 32

abbrev Key := Fin 4 → Word

def delta : Word := 0x61C88647

/-- What a half of a block becomes on its way into the other half. -/
def mix (v : Word) : Word := (v <<< 4 ^^^ v >>> 5) + v

def subkey (k : Key) (bits : Word) : Word := k (Fin.ofNat 4 (bits &&& 3).toNat)

def encryptBlock (k : Key) : Word × Word → Word × Word :=
  RoundCipher.encrypt (fun v1 sum => mix v1 ^^^ (sum + subkey k sum))
    (fun v0 sum => mix v0 ^^^ (sum + subkey k (sum >>> 11))) delta 32 0

def decryptBlock (k : Key) : Word × Word → Word × Word :=
  RoundCipher.decrypt (fun v1 sum => mix v1 ^^^ (sum + subkey k sum))
    (fun v0 sum => mix v0 ^^^ (sum + subkey k (sum >>> 11))) delta 32 0xC6EF3720

theorem decryptBlock_encryptBlock (k : Key) (v : Word × Word) :
    decryptBlock k (encryptBlock k v) = v :=
  RoundCipher.decrypt_encrypt _ _ delta 32 (by decide) v

theorem encryptBlock_decryptBlock (k : Key) (v : Word × Word) :
    encryptBlock k (decryptBlock k v) = v :=
  RoundCipher.encrypt_decrypt _ _ delta 32 (by decide) v

/-! ## Buffers of words -/

/-- The loop of `XTEA_encrypt` over the words of a message. -/
def encryptWords (k : Key) (messageLength : ℕ) (buffer : List Word) : List Word :=
  RoundCipher.blockLoop (encryptBlock k) (messageLength / 4) 0 buffer

/-- The loop of `XTEA_decrypt`. -/
def decryptWords (k : Key) (messageLength : ℕ) (buffer : List Word) : List Word :=
  RoundCipher.blockLoop (decryptBlock k) (messageLength / 4) 0 buffer

theorem encryptWords_eq (k : Key) {buffer : List Word} (h : Even buffer.length) :
    encryptWords k (4 * buffer.length) buffer = RoundCipher.mapBlocks (encryptBlock k) buffer := by
  rw [encryptWords, Nat.mul_div_cancel_left _ (by decide), RoundCipher.blockLoop_eq _ h]

theorem decryptWords_eq (k : Key) {buffer : List Word} (h : Even buffer.length) :
    decryptWords k (4 * buffer.length) buffer = RoundCipher.mapBlocks (decryptBlock k) buffer := by
  rw [decryptWords, Nat.mul_div_cancel_left _ (by decide), RoundCipher.blockLoop_eq _ h]

/-- The two loops undo each other, on a buffer of whole blocks. -/
theorem words_inverse (k : Key) {buffer : List Word} (h : Even buffer.length) :
    decryptWords k (4 * buffer.length) (encryptWords k (4 * buffer.length) buffer) = buffer ∧
      encryptWords k (4 * buffer.length) (decryptWords k (4 * buffer.length) buffer) = buffer := by
  have hlength := RoundCipher.mapBlocks_length (encryptBlock k) buffer
  have hlength' := RoundCipher.mapBlocks_length (decryptBlock k) buffer
  constructor
  · rw [encryptWords_eq k h, ← hlength, decryptWords_eq k (by rw [hlength]; exact h)]
    exact RoundCipher.mapBlocks_mapBlocks (decryptBlock_encryptBlock k) buffer
  · rw [decryptWords_eq k h, ← hlength', encryptWords_eq k (by rw [hlength']; exact h)]
    exact RoundCipher.mapBlocks_mapBlocks (encryptBlock_decryptBlock k) buffer

theorem words_inverse_four :
    decryptWords (fun i => BitVec.ofNat 32 i) (4 * [1, 2, 3, 4].length)
        (encryptWords (fun i => BitVec.ofNat 32 i) (4 * [1, 2, 3, 4].length) [1, 2, 3, 4]) =
        [1, 2, 3, 4] ∧
      encryptWords (fun i => BitVec.ofNat 32 i) (4 * [1, 2, 3, 4].length)
        (decryptWords (fun i => BitVec.ofNat 32 i) (4 * [1, 2, 3, 4].length) [1, 2, 3, 4]) =
        [1, 2, 3, 4] :=
  @words_inverse (fun i => BitVec.ofNat 32 i) [1, 2, 3, 4] (by decide)

/-! ## Blocks of bytes -/

def word (bytes : List UInt8) : Word := BitVec.ofNat 32 (leNat bytes)

def wordBytes (v : Word) : List UInt8 := leBytes 4 v.toNat

theorem word_wordBytes (v : Word) : word (wordBytes v) = v := by
  apply BitVec.eq_of_toNat_eq
  have hlt : v.toNat < 256 ^ 4 := v.isLt
  rw [word, wordBytes, leNat_leBytes_of_lt hlt, BitVec.toNat_ofNat, Nat.mod_eq_of_lt v.isLt]

theorem wordBytes_word {bytes : List UInt8} (h : bytes.length = 4) :
    wordBytes (word bytes) = bytes := by
  have hlt : leNat bytes < 2 ^ 32 := by
    have := leNat_lt bytes
    rwa [h] at this
  rw [wordBytes, word, BitVec.toNat_ofNat, Nat.mod_eq_of_lt hlt, ← h, leBytes_leNat]

@[simp] theorem wordBytes_length (v : Word) : (wordBytes v).length = 4 := leBytes_length 4 _

def block (bytes : List UInt8) : Word × Word := (word (bytes.take 4), word (bytes.drop 4))

def blockBytes (v : Word × Word) : List UInt8 := wordBytes v.1 ++ wordBytes v.2

@[simp] theorem blockBytes_length (v : Word × Word) : (blockBytes v).length = 8 := by
  rw [blockBytes, List.length_append, wordBytes_length, wordBytes_length]

theorem block_blockBytes (v : Word × Word) : block (blockBytes v) = v := by
  have htake : (blockBytes v).take 4 = wordBytes v.1 := List.take_left' (wordBytes_length v.1)
  have hdrop : (blockBytes v).drop 4 = wordBytes v.2 := List.drop_left' (wordBytes_length v.1)
  rw [block, htake, hdrop, word_wordBytes, word_wordBytes]

theorem blockBytes_block {bytes : List UInt8} (h : bytes.length = 8) :
    blockBytes (block bytes) = bytes := by
  have htake : (bytes.take 4).length = 4 := by rw [List.length_take, h]; rfl
  have hdrop : (bytes.drop 4).length = 4 := by rw [List.length_drop, h]
  rw [blockBytes, block, wordBytes_word htake, wordBytes_word hdrop, List.take_append_drop]

/-! ## The loop over a message -/

/-- The loop of `XTEA_encrypt`; the buffer begins at `start`, positions in it are counted in words. -/
def encryptFrom (k : Key) (start messageLength readPos : ℕ) (mem : ℕ → UInt8) : ℕ → UInt8 :=
  if readPos < messageLength / 4 then
    let pos := start + 4 * readPos
    let v := encryptBlock k (block (bytesAt mem pos 8))
    encryptFrom k start messageLength (readPos + 2) (write mem pos (blockBytes v))
  else mem
termination_by messageLength / 4 - readPos

/-- What a peer with the key makes of the bytes that arrive. -/
def decryptFrame (k : Key) (bytes : List UInt8) : List UInt8 :=
  if 8 ≤ bytes.length then
    blockBytes (decryptBlock k (block (bytes.take 8))) ++ decryptFrame k (bytes.drop 8)
  else bytes
termination_by bytes.length

/-- The loop leaves alone what stands before the block it has come to. -/
theorem encryptFrom_before (k : Key) (start n readPos pos m : ℕ) (mem : ℕ → UInt8)
    (hpos : pos + m ≤ start + 4 * readPos) :
    bytesAt (encryptFrom k start (4 * readPos + 8 * n) readPos mem) pos m = bytesAt mem pos m := by
  induction n generalizing readPos mem with
  | zero =>
    have hend : ¬ readPos < (4 * readPos + 8 * 0) / 4 := by omega
    rw [encryptFrom, if_neg hend]
  | succ n ih =>
    have hlt : readPos < (4 * readPos + 8 * (n + 1)) / 4 := by omega
    have hlength : 4 * readPos + 8 * (n + 1) = 4 * (readPos + 2) + 8 * n := by omega
    rw [encryptFrom, if_pos hlt, hlength]
    dsimp only
    rw [ih (readPos + 2) _ (by omega), bytesAt_write_before hpos]

theorem bytesAt_blocks (mem : ℕ → UInt8) (start readPos n : ℕ) :
    bytesAt mem (start + 4 * readPos) (8 * (n + 1)) =
      bytesAt mem (start + 4 * readPos) 8 ++ bytesAt mem (start + 4 * (readPos + 2)) (8 * n) := by
  have hnext : start + 4 * readPos + 8 = start + 4 * (readPos + 2) := by omega
  rw [Nat.mul_succ, Nat.add_comm (8 * n), bytesAt_add, hnext]

theorem bytesAt_write_block (mem : ℕ → UInt8) (start readPos n : ℕ) (v : Word × Word) :
    bytesAt (write mem (start + 4 * readPos) (blockBytes v)) (start + 4 * (readPos + 2)) n =
      bytesAt mem (start + 4 * (readPos + 2)) n := by
  apply bytesAt_write_after
  rw [blockBytes_length]
  omega

theorem decryptFrame_encryptFrom (k : Key) (start n readPos : ℕ) (mem : ℕ → UInt8) :
    decryptFrame k (bytesAt (encryptFrom k start (4 * readPos + 8 * n) readPos mem)
      (start + 4 * readPos) (8 * n)) = bytesAt mem (start + 4 * readPos) (8 * n) := by
  induction n generalizing readPos mem with
  | zero => rw [decryptFrame, bytesAt_length, if_neg (by decide)]; rfl
  | succ n ih =>
    have hlt : readPos < (4 * readPos + 8 * (n + 1)) / 4 := by omega
    have hlength : 4 * readPos + 8 * (n + 1) = 4 * (readPos + 2) + 8 * n := by omega
    rw [encryptFrom, if_pos hlt, hlength]
    dsimp only
    generalize hv : encryptBlock k (block (bytesAt mem (start + 4 * readPos) 8)) = v
    -- the first block is the one that has been written, the others are left to the loop
    have hwritten := bytesAt_write mem (start + 4 * readPos) (blockBytes v)
    rw [blockBytes_length] at hwritten
    have hfirst := encryptFrom_before k start n (readPos + 2)
      (start + 4 * readPos) 8 (write mem (start + 4 * readPos) (blockBytes v)) (by omega)
    have hlong : 8 ≤ (blockBytes v ++ bytesAt (encryptFrom k start (4 * (readPos + 2) + 8 * n)
        (readPos + 2) (write mem (start + 4 * readPos) (blockBytes v)))
        (start + 4 * (readPos + 2)) (8 * n)).length := by
      rw [List.length_append, blockBytes_length]
      exact Nat.le_add_right 8 _
    rw [bytesAt_blocks, bytesAt_blocks, hfirst, hwritten, decryptFrame, if_pos hlong,
      List.take_left' (blockBytes_length v), List.drop_left' (blockBytes_length v), ih,
      bytesAt_write_block,
      block_blockBytes, ← hv, decryptBlock_encryptBlock, blockBytes_block (bytesAt_length _ _ _)]

/-- The words of a buffer of bytes. -/
def words : List UInt8 → List Word
  | a :: b :: c :: d :: bytes => word [a, b, c, d] :: words bytes
  | _ => []

theorem words_append {bytes : List UInt8} (h : bytes.length = 8) (rest : List UInt8) :
    words (bytes ++ rest) = (block bytes).1 :: (block bytes).2 :: words rest := by
  match bytes, h with
  | [_, _, _, _, _, _, _, _], _ => rfl

/-- The loop over the bytes does to them what the one over the words does to the words. -/
theorem bytesAt_encryptFrom (k : Key) (start n readPos : ℕ) (mem : ℕ → UInt8) :
    bytesAt (encryptFrom k start (4 * readPos + 8 * n) readPos mem) (start + 4 * readPos) (8 * n) =
      (RoundCipher.mapBlocks (encryptBlock k)
        (words (bytesAt mem (start + 4 * readPos) (8 * n)))).flatMap wordBytes := by
  induction n generalizing readPos mem with
  | zero => rfl
  | succ n ih =>
    have hlt : readPos < (4 * readPos + 8 * (n + 1)) / 4 := by omega
    have hlength : 4 * readPos + 8 * (n + 1) = 4 * (readPos + 2) + 8 * n := by omega
    rw [bytesAt_blocks, bytesAt_blocks, words_append (bytesAt_length _ _ _), encryptFrom,
      if_pos hlt, hlength]
    dsimp only
    generalize hv : encryptBlock k (block (bytesAt mem (start + 4 * readPos) 8)) = v
    have hwritten := bytesAt_write mem (start + 4 * readPos) (blockBytes v)
    rw [blockBytes_length] at hwritten
    have hfirst := encryptFrom_before k start n (readPos + 2)
      (start + 4 * readPos) 8 (write mem (start + 4 * readPos) (blockBytes v)) (by omega)
    rw [hfirst, hwritten, ih, bytesAt_write_block, RoundCipher.mapBlocks, Prod.mk.eta, hv,
      List.flatMap_cons, List.flatMap_cons, ← List.append_assoc]
    rfl

/-! ## The loop over a message that arrives -/

/-- The loop of `XTEA_decrypt`; the buffer begins at `start`, positions in it are counted in words. -/
def decryptFrom (k : Key) (start messageLength readPos : ℕ) (mem : ℕ → UInt8) : ℕ → UInt8 :=
  if readPos < messageLength / 4 then
    let pos := start + 4 * readPos
    let v := decryptBlock k (block (bytesAt mem pos 8))
    decryptFrom k start messageLength (readPos + 2) (write mem pos (blockBytes v))
  else mem
termination_by messageLength / 4 - readPos

/-- The loop changes nothing but the blocks that it has still to come to. -/
theorem decryptFrom_outside (k : Key) (start n readPos : ℕ) (mem : ℕ → UInt8) {i : ℕ}
    (hi : i < start + 4 * readPos ∨ start + 4 * readPos + 8 * n ≤ i) :
    decryptFrom k start (4 * readPos + 8 * n) readPos mem i = mem i := by
  induction n generalizing readPos mem with
  | zero =>
    have hend : ¬ readPos < (4 * readPos + 8 * 0) / 4 := by omega
    rw [decryptFrom, if_neg hend]
  | succ n ih =>
    have hlt : readPos < (4 * readPos + 8 * (n + 1)) / 4 := by omega
    have hlength : 4 * readPos + 8 * (n + 1) = 4 * (readPos + 2) + 8 * n := by omega
    rw [decryptFrom, if_pos hlt, hlength, ih (readPos + 2) _ (by omega)]
    rcases hi with hi | hi
    · exact write_of_lt hi
    · apply write_of_ge
      rw [blockBytes_length]
      omega

/-- The loop leaves behind what a peer with the key makes of the bytes. -/
theorem bytesAt_decryptFrom (k : Key) (start n readPos : ℕ) (mem : ℕ → UInt8) :
    bytesAt (decryptFrom k start (4 * readPos + 8 * n) readPos mem) (start + 4 * readPos) (8 * n) =
      decryptFrame k (bytesAt mem (start + 4 * readPos) (8 * n)) := by
  induction n generalizing readPos mem with
  | zero => rw [decryptFrame, bytesAt_length, if_neg (by decide)]; rfl
  | succ n ih =>
    have hlt : readPos < (4 * readPos + 8 * (n + 1)) / 4 := by omega
    have hlength : 4 * readPos + 8 * (n + 1) = 4 * (readPos + 2) + 8 * n := by omega
    have hlong : 8 ≤ (bytesAt mem (start + 4 * readPos) 8 ++
        bytesAt mem (start + 4 * (readPos + 2)) (8 * n)).length := by
      rw [List.length_append, bytesAt_length]
      exact Nat.le_add_right 8 _
    rw [bytesAt_blocks, bytesAt_blocks, decryptFrame, if_pos hlong,
      List.take_left' (bytesAt_length _ _ _), List.drop_left' (bytesAt_length _ _ _), decryptFrom,
      if_pos hlt, hlength]
    dsimp only
    generalize decryptBlock k (block (bytesAt mem (start + 4 * readPos) 8)) = v
    -- the block that has been written is behind the loop
    have hfirst : bytesAt (decryptFrom k start (4 * (readPos + 2) + 8 * n) (readPos + 2)
        (write mem (start + 4 * readPos) (blockBytes v))) (start + 4 * readPos) 8 = blockBytes v := by
      have hwritten := bytesAt_write mem (start + 4 * readPos) (blockBytes v)
      rw [blockBytes_length] at hwritten
      apply Eq.trans _ hwritten
      apply bytesAt_congr
      intro i _ hi
      exact decryptFrom_outside k start n (readPos + 2) _ (.inl (by omega))
    rw [hfirst, ih, bytesAt_write_block]

end Xtea

end TyanoCore
