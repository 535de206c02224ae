import Mathlib.Algebra.Order.Ring.Int
import Mathlib.Data.List.Basic
import Mathlib.Data.Nat.Notation

/-!
# Little-endian numbers and memories of bytes

Numbers as byte lists of a fixed length, least significant byte first, and memories that are
functions from positions to bytes, read and written at a position.
-/

namespace Bytes

/-! ## Numbers -/

def leBytes : ℕ → ℕ → List UInt8
  | 0, _ => []
  | n + 1, value => UInt8.ofNat value :: leBytes n (value / 256)

def leNat : List UInt8 → ℕ
  | [] => 0
  | byte :: bytes => byte.toNat + 256 * leNat bytes

@[simp] theorem leBytes_length (n value : ℕ) : (leBytes n value).length = n := by
  induction n generalizing value with
  | zero => rfl
  | succ n ih => rw [leBytes, List.length_cons, ih]

theorem leNat_leBytes (n value : ℕ) : leNat (leBytes n value) = value % 256 ^ n := by
  induction n generalizing value with
  | zero => rw [Nat.pow_zero, Nat.mod_one]; rfl
  | succ n ih =>
    have hbyte : (UInt8.ofNat value).toNat = value % 256 := rfl
    rw [leBytes, leNat, ih, hbyte, Nat.pow_succ', Nat.mod_mul]

theorem leNat_leBytes_of_lt {n value : ℕ} (h : value < 256 ^ n) :
    leNat (leBytes n value) = value := by
  rw [leNat_leBytes, Nat.mod_eq_of_lt h]

theorem leNat_lt (bytes : List UInt8) : leNat bytes < 256 ^ bytes.length := by
  induction bytes with
  | nil => exact Nat.one_pos
  | cons byte bytes ih =>
    have hbyte : byte.toNat < 256 := byte.toNat_lt
    rw [leNat, List.length_cons, Nat.pow_succ']
    omega

theorem leBytes_leNat (bytes : List UInt8) : leBytes bytes.length (leNat bytes) = bytes := by
  induction bytes with
  | nil => rfl
  | cons byte bytes ih =>
    have hbyte : byte.toNat < 256 := byte.toNat_lt
    have hhead : UInt8.ofNat (byte.toNat + 256 * leNat bytes) = byte := by
      apply UInt8.toNat_inj.mp
      have hmod : (UInt8.ofNat (byte.toNat + 256 * leNat bytes)).toNat =
          (byte.toNat + 256 * leNat bytes) % 256 := rfl
      rw [hmod]
      omega
    have htail : (byte.toNat + 256 * leNat bytes) / 256 = leNat bytes := by omega
    rw [leNat, List.length_cons, leBytes, hhead, htail, ih]

theorem leBytes_append (m n value : ℕ) :
    leBytes (m + n) value = leBytes m value ++ leBytes n (value / 256 ^ m) := by
  induction m generalizing value with
  | zero => rw [Nat.zero_add, Nat.pow_zero, Nat.div_one]; rfl
  | succ m ih =>
    rw [Nat.succ_add, leBytes, ih, Nat.div_div_eq_div_mul, ← Nat.pow_succ']
    rfl

theorem leBytes_mod (n value : ℕ) : leBytes n (value % 256 ^ n) = leBytes n value := by
  have hself := leBytes_leNat (leBytes n value)
  rw [leBytes_length, leNat_leBytes] at hself
  exact hself

/-! ## Memories -/

/-- The `n` bytes from a position on. -/
def bytesAt (mem : ℕ → UInt8) (pos n : ℕ) : List UInt8 := (List.range n).map fun i => mem (pos + i)

def write (mem : ℕ → UInt8) (pos : ℕ) (bytes : List UInt8) : ℕ → UInt8 := fun i =>
  if pos ≤ i then (bytes[i - pos]?).getD (mem i) else mem i

variable {mem mem' : ℕ → UInt8} {pos pos' n : ℕ} {bytes : List UInt8}

@[simp] theorem bytesAt_length (mem : ℕ → UInt8) (pos n : ℕ) : (bytesAt mem pos n).length = n := by
  rw [bytesAt, List.length_map, List.length_range]

theorem bytesAt_add (mem : ℕ → UInt8) (pos m n : ℕ) :
    bytesAt mem pos (m + n) = bytesAt mem pos m ++ bytesAt mem (pos + m) n := by
  rw [bytesAt, List.range_add, List.map_append, List.map_map]
  apply congrArg
  apply List.map_congr_left
  intro i _
  exact congrArg mem (Nat.add_assoc pos m i).symm

/-- Some bytes of a part of a memory. -/
theorem bytesAt_drop_take (mem : ℕ → UInt8) {i m n : ℕ} (h : i + m ≤ n) :
    ((bytesAt mem 0 n).drop i).take m = bytesAt mem i m := by
  obtain ⟨k, rfl⟩ := Nat.exists_eq_add_of_le h
  rw [bytesAt_add, bytesAt_add, List.append_assoc, List.drop_left' (bytesAt_length mem 0 i),
    List.take_left' (bytesAt_length mem _ m), Nat.zero_add]

theorem bytesAt_congr (h : ∀ i, pos ≤ i → i < pos + n → mem i = mem' i) :
    bytesAt mem pos n = bytesAt mem' pos n := by
  apply List.map_congr_left
  intro i hi
  have hlt := List.mem_range.mp hi
  exact h (pos + i) (Nat.le_add_right pos i) (Nat.add_lt_add_left hlt pos)

theorem write_of_lt {i : ℕ} (h : i < pos) : write mem pos bytes i = mem i := by
  rw [write, if_neg (Nat.not_le_of_lt h)]

theorem write_of_ge {i : ℕ} (h : pos + bytes.length ≤ i) : write mem pos bytes i = mem i := by
  have hnone : bytes[i - pos]? = none := List.getElem?_eq_none (by omega)
  rw [write, hnone]
  exact ite_self _

theorem bytesAt_write (mem : ℕ → UInt8) (pos : ℕ) (bytes : List UInt8) :
    bytesAt (write mem pos bytes) pos bytes.length = bytes := by
  apply List.ext_getElem
  · exact bytesAt_length _ _ _
  intro i hi hi'
  have hsome : bytes[pos + i - pos]? = some bytes[i] := by
    rw [Nat.add_sub_cancel_left, List.getElem?_eq_getElem hi']
  simp only [bytesAt, List.getElem_map, List.getElem_range]
  rw [write, if_pos (Nat.le_add_right pos i), hsome]
  rfl

/-- Bytes written after the bytes that are there. -/
theorem bytesAt_write_append (mem : ℕ → UInt8) (n : ℕ) (bytes : List UInt8) :
    bytesAt (write mem n bytes) 0 (n + bytes.length) = bytesAt mem 0 n ++ bytes := by
  have hbefore : bytesAt (write mem n bytes) 0 n = bytesAt mem 0 n :=
    bytesAt_congr fun _ _ hi => write_of_lt (by omega)
  rw [bytesAt_add, hbefore, Nat.zero_add, bytesAt_write]

/-- The bytes are written one after the other. -/
theorem write_cons (mem : ℕ → UInt8) (pos : ℕ) (byte : UInt8) (bytes : List UInt8) :
    write mem pos (byte :: bytes) = write (write mem pos [byte]) (pos + 1) bytes := by
  funext i
  rcases Nat.lt_trichotomy i pos with h | rfl | h
  · rw [write_of_lt h, write_of_lt (Nat.lt_succ_of_lt h), write_of_lt h]
  · rw [write_of_lt (Nat.lt_succ_self i), write, write, if_pos (Nat.le_refl i),
      if_pos (Nat.le_refl i), Nat.sub_self]
    rfl
  · obtain ⟨k, rfl⟩ := Nat.exists_eq_add_of_le h
    have hk : pos + 1 + k - pos = k + 1 := by omega
    have hone : write mem pos [byte] (pos + 1 + k) = mem (pos + 1 + k) :=
      write_of_ge (Nat.le_add_right (pos + 1) k)
    rw [write, write, if_pos (by omega), if_pos (by omega), hone, hk, Nat.add_sub_cancel_left,
      List.getElem?_cons_succ]

theorem bytesAt_write_before (h : pos + n ≤ pos') :
    bytesAt (write mem pos' bytes) pos n = bytesAt mem pos n :=
  bytesAt_congr fun _ _ hi => write_of_lt (Nat.lt_of_lt_of_le hi h)

theorem bytesAt_write_after (h : pos' + bytes.length ≤ pos) :
    bytesAt (write mem pos' bytes) pos n = bytesAt mem pos n :=
  bytesAt_congr fun _ hi _ => write_of_ge (Nat.le_trans h hi)

end Bytes
