import TyanoCore.Framing
import TyanoCore.RunningSums

/-!
# The checksum of a message

`adlerChecksum` reduces its sums only after 5552 bytes.  Within a block the sums do not wrap, so the result
is the Adler-32 value of the bytes.
-/

namespace TyanoCore

open RunningSums

/-- The Adler-32 value: both sums over unbounded integers, and reduced at the end. -/
def adler32 (data : List UInt8) : ℕ :=
  let bytes := data.map UInt8.toNat
  let a := 1 + bytes.sum
  let b := ((List.range bytes.length).map fun i => 1 + (bytes.take (i + 1)).sum).sum
  b % 65521 * 2 ^ 16 + a % 65521

/-- The sums of `adlerChecksum` after each byte, over unbounded integers. -/
def adlerSums (data : List UInt8) (s : ℕ × ℕ) : List (ℕ × ℕ) :=
  if data = [] then []
  else
    let block := (data.take 5552).map UInt8.toNat
    let s' := block.foldl add s
    trace s block ++ adlerSums (data.drop 5552) (s'.1 % 65521, s'.2 % 65521)
termination_by data.length
decreasing_by
  have := List.length_pos_of_ne_nil ‹_›
  rw [List.length_drop]
  omega

variable {data : List UInt8} {a b : UInt32}

theorem byte_le (data : List UInt8) : ∀ byte ∈ data.map UInt8.toNat, byte ≤ 255 := by
  intro byte hbyte
  obtain ⟨u, -, rfl⟩ := List.mem_map.mp hbyte
  exact Nat.le_of_lt_succ u.toNat_lt

/-! ## Blocks -/

/-- A block of 5552 bytes keeps both sums below the limit, whatever the residues before it are. -/
theorem block_lt {s : ℕ × ℕ} (data : List UInt8) (hlength : data.length ≤ 5552) (hfst : s.1 < 65521)
    (hsnd : s.2 < 65521) :
    ((data.map UInt8.toNat).foldl add s).1 < 2 ^ 32 ∧
      ((data.map UInt8.toNat).foldl add s).2 < 2 ^ 32 := by
  have hbytes := byte_le data
  have ha := foldl_add_fst_le (s := s) hbytes
  have hb := two_mul_foldl_add_snd_le (s := s) hbytes
  rw [List.length_map] at ha hb
  have hsquare : data.length * (data.length + 1) ≤ 5552 * 5553 :=
    Nat.mul_le_mul hlength (Nat.succ_le_succ hlength)
  have hproduct : data.length * s.1 ≤ 5552 * 65520 :=
    Nat.mul_le_mul hlength (Nat.le_of_lt_succ hfst)
  rw [Nat.mul_assoc] at hb
  constructor
  · omega
  · omega

/-- Sums that stay below the limit are the machine's. -/
theorem foldl_adlerStep (hfst : ((data.map UInt8.toNat).foldl add (a.toNat, b.toNat)).1 < 2 ^ 32)
    (hsnd : ((data.map UInt8.toNat).foldl add (a.toNat, b.toNat)).2 < 2 ^ 32) :
    ((data.foldl adlerStep (a, b)).1.toNat, (data.foldl adlerStep (a, b)).2.toNat) =
      (data.map UInt8.toNat).foldl add (a.toNat, b.toNat) := by
  induction data generalizing a b with
  | nil => rfl
  | cons byte data ih =>
    rw [List.map_cons, List.foldl_cons] at hfst hsnd ⊢
    rw [List.foldl_cons]
    -- the sums only grow, so this one is below the limit if the last one is
    have hle := le_foldl_add (add (a.toNat, b.toNat) byte.toNat) (data.map UInt8.toNat)
    have ha : (a + byte.toUInt32).toNat = (add (a.toNat, b.toNat) byte.toNat).1 := by
      rw [UInt32.toNat_add, UInt8.toNat_toUInt32]
      exact Nat.mod_eq_of_lt (Nat.lt_of_le_of_lt hle.1 hfst)
    have hb : (b + (a + byte.toUInt32)).toNat = (add (a.toNat, b.toNat) byte.toNat).2 := by
      rw [UInt32.toNat_add, ha]
      exact Nat.mod_eq_of_lt (Nat.lt_of_le_of_lt hle.2 hsnd)
    have hstep : ((a + byte.toUInt32).toNat, (b + (a + byte.toUInt32)).toNat) =
        add (a.toNat, b.toNat) byte.toNat := Prod.ext ha hb
    rw [← hstep] at hfst hsnd ⊢
    exact ih hfst hsnd

/-! ## All blocks -/

theorem adlerSums_lt (data : List UInt8) (s : ℕ × ℕ) (hfst : s.1 < 65521) (hsnd : s.2 < 65521) :
    ∀ t ∈ adlerSums data s, t.1 < 2 ^ 32 ∧ t.2 < 2 ^ 32 := by
  induction data, s using adlerSums.induct with
  | case1 s =>
    rw [adlerSums, if_pos rfl]
    exact fun t ht => absurd ht List.not_mem_nil
  | case2 data s hdata block s' ih =>
    rw [adlerSums, if_neg hdata]
    intro t ht
    rcases List.mem_append.mp ht with ht | ht
    · have hblock := block_lt (data.take 5552) (List.length_take_le 5552 data) hfst hsnd
      have hle := trace_le ht
      exact ⟨Nat.lt_of_le_of_lt hle.1 hblock.1, Nat.lt_of_le_of_lt hle.2 hblock.2⟩
    · exact ih (Nat.mod_lt _ (by decide)) (Nat.mod_lt _ (by decide)) t ht

/-- The two residues next to each other. -/
theorem toNat_shiftLeft_or (ha : a.toNat < 65521) (hb : b.toNat < 65521) :
    (b <<< 16 ||| a).toNat = b.toNat * 2 ^ 16 + a.toNat := by
  have hshift : (b <<< 16).toNat = b.toNat <<< 16 := by
    rw [UInt32.toNat_shiftLeft]
    show b.toNat <<< 16 % 2 ^ 32 = b.toNat <<< 16
    apply Nat.mod_eq_of_lt
    rw [Nat.shiftLeft_eq]
    omega
  rw [UInt32.toNat_or, hshift, ← Nat.shiftLeft_add_eq_or_of_lt (by omega : a.toNat < 2 ^ 16),
    Nat.shiftLeft_eq]

/-- From residues on, the result is that of the unbounded sums. -/
theorem adlerFrom_toNat (data : List UInt8) (a b : UInt32) (ha : a.toNat < 65521)
    (hb : b.toNat < 65521) :
    (adlerFrom data a b).toNat =
      ((data.map UInt8.toNat).foldl add (a.toNat, b.toNat)).2 % 65521 * 2 ^ 16 +
        ((data.map UInt8.toNat).foldl add (a.toNat, b.toNat)).1 % 65521 := by
  induction data, a, b using adlerFrom.induct with
  | case1 a b =>
    rw [adlerFrom, if_pos rfl, toNat_shiftLeft_or ha hb]
    show _ = b.toNat % 65521 * 2 ^ 16 + a.toNat % 65521
    rw [Nat.mod_eq_of_lt ha, Nat.mod_eq_of_lt hb]
  | case2 data a b hdata s ih =>
    -- within a block nothing wraps, so its sums are exact
    have hblock := block_lt (s := (a.toNat, b.toNat)) (data.take 5552)
      (List.length_take_le 5552 data) ha hb
    have hexact := foldl_adlerStep hblock.1 hblock.2
    have hfst : (s.1 % 65521).toNat =
        (((data.take 5552).map UInt8.toNat).foldl add (a.toNat, b.toNat)).1 % 65521 := by
      rw [← hexact]
      exact UInt32.toNat_mod _ _
    have hsnd : (s.2 % 65521).toNat =
        (((data.take 5552).map UInt8.toNat).foldl add (a.toNat, b.toNat)).2 % 65521 := by
      rw [← hexact]
      exact UInt32.toNat_mod _ _
    have hrest := ih (by rw [hfst]; exact Nat.mod_lt _ (by decide))
      (by rw [hsnd]; exact Nat.mod_lt _ (by decide))
    have hsplit : (data.map UInt8.toNat).foldl add (a.toNat, b.toNat) =
        ((data.drop 5552).map UInt8.toNat).foldl add
          (((data.take 5552).map UInt8.toNat).foldl add (a.toNat, b.toNat)) := by
      rw [← List.foldl_append, ← List.map_append, List.take_append_drop]
    -- to take the residues between the blocks does not change those at the end
    have hmod := foldl_add_modEq (m := 65521)
      (s := ((s.1 % 65521).toNat, (s.2 % 65521).toNat))
      (t := ((data.take 5552).map UInt8.toNat).foldl add (a.toNat, b.toNat))
      (by rw [hfst]; exact Nat.mod_modEq _ _) (by rw [hsnd]; exact Nat.mod_modEq _ _)
      ((data.drop 5552).map UInt8.toNat)
    rw [adlerFrom, if_neg hdata, hsplit]
    show (adlerFrom (data.drop 5552) (s.1 % 65521) (s.2 % 65521)).toNat = _
    rw [hrest, hmod.1, hmod.2]

theorem adlerChecksum_toNat (hlength : data.length ≤ NETWORKMESSAGE_MAXSIZE) :
    (adlerChecksum data).toNat = adler32 data := by
  have hfrom := adlerFrom_toNat data 1 0 (by decide) (by decide)
  rw [adlerChecksum, if_neg (Nat.not_lt.mpr hlength), hfrom, foldl_add_fst, foldl_add_snd]
  show (0 + _) % 65521 * 2 ^ 16 + _ = _
  rw [Nat.zero_add]
  rfl

/-- The checksum of a buffer is its Adler-32 value, and on the way to it no sum wraps. -/
theorem adlerChecksum_eq_adler32 (hlength : data.length ≤ NETWORKMESSAGE_MAXSIZE) :
    (adlerChecksum data).toNat = adler32 data ∧
      ∀ s ∈ adlerSums data (1, 0), s.1 < 2 ^ 32 ∧ s.2 < 2 ^ 32 :=
  ⟨adlerChecksum_toNat hlength, adlerSums_lt data (1, 0) (by decide) (by decide)⟩

def letters : List UInt8 := [87, 105, 107, 105]

theorem adlerChecksum_eq_adler32_letters :
    letters.length ≤ NETWORKMESSAGE_MAXSIZE ∧
      (adlerChecksum letters).toNat = 986 * 2 ^ 16 + 405 ∧
      ∀ s ∈ adlerSums letters (1, 0), s.1 < 2 ^ 32 ∧ s.2 < 2 ^ 32 := by
  have hlength : letters.length ≤ NETWORKMESSAGE_MAXSIZE := by decide
  have h := adlerChecksum_eq_adler32 hlength
  exact ⟨hlength, h.1, h.2⟩

/-! ## The header -/

/-- The header is the length of what follows it, and the Adler-32 value of the frame. -/
theorem OutputMessage.frame_addCryptoHeader {msg : OutputMessage} (h : 6 ≤ msg.outputBufferStart)
    (hlength : msg.msgSize ≤ NETWORKMESSAGE_MAXSIZE) :
    (msg.addCryptoHeader true).frame =
      Bytes.leBytes 2 (msg.msgSize + 4) ++ (Bytes.leBytes 4 (adler32 msg.frame) ++ msg.frame) := by
  have hchecksum : 4 ≤ msg.outputBufferStart := Nat.le_trans (by decide) h
  have hframe : msg.frame.length ≤ NETWORKMESSAGE_MAXSIZE := by
    rw [frame, Bytes.bytesAt_length]
    exact hlength
  have hsize : (msg.addHeader 4 (adlerChecksum msg.frame).toNat).msgSize = msg.msgSize + 4 := by
    rw [addHeader, if_neg (Nat.not_lt_of_le hchecksum)]
  rw [addCryptoHeader, if_pos rfl]
  rw [addHeader_frame, addHeader_frame hchecksum, hsize, adlerChecksum_toNat hframe]
  rw [addHeader_start hchecksum]
  omega

end TyanoCore
