import TyanoCore.Bytes
import TyanoCore.Residues

/-!
# The private-key operation

A block of 128 bytes is a number, most significant byte first, and `decrypt` puts a power of it in its
place.  The power is taken modulo both primes of the key and put together from the two residues.
-/

namespace TyanoCore

open Bytes

/-! ## Exact integers -/

namespace Gmp

/-- `mpz_mod`. -/
def mod (n d : ℤ) : ℤ := n % d

/-- `mpz_powm`. -/
def powm (base exp mod : ℤ) : ℤ := base ^ exp.toNat % mod

/-- `mpz_invert`. -/
def invert (n m : ℤ) : ℤ := Residues.inverse n m

/-- `mpz_sizeinbase` for the base two; zero has one digit. -/
def sizeinbase (n : ℤ) : ℕ := n.natAbs.log2 + 1

/-- `mpz_import`, most significant byte first. -/
def importBytes (bytes : List UInt8) : ℤ := leNat bytes.reverse

/-- `mpz_export`, most significant byte first; zero has no bytes. -/
def exportBytes (n : ℤ) : List UInt8 :=
  if n = 0 then [] else (leBytes ((sizeinbase n + 7) / 8) n.natAbs).reverse

end Gmp

/-! ## The key -/

structure Rsa where
  p : ℤ
  q : ℤ
  d : ℤ
  u : ℤ
  dp : ℤ
  dq : ℤ
  mod : ℤ

namespace Rsa

/-- `setKey`, from the numbers that the decimal texts stand for. -/
def setKey (p q d : ℤ) : Rsa :=
  let pm1 := p - 1
  let qm1 := q - 1
  { p := p
    q := q
    d := d
    u := Gmp.invert p q
    dp := Gmp.mod d pm1
    dq := Gmp.mod d qm1
    mod := p * q }

/-- The arithmetic of `decrypt`. -/
def power (k : Rsa) (c : ℤ) : ℤ :=
  let tmp := Gmp.mod c k.p
  let v1 := Gmp.powm tmp k.dp k.p
  let tmp := Gmp.mod c k.q
  let v2 := Gmp.powm tmp k.dq k.q
  let u2 := v2 - v1
  let tmp := u2 * k.u
  let u2 := Gmp.mod tmp k.q
  let u2 := if u2 < 0 then u2 + k.q else u2
  let tmp := u2 * k.p
  v1 + tmp

/-- `decrypt`, on the block at a position; a key has no more than 1024 bits. -/
def decrypt (k : Rsa) (mem : ℕ → UInt8) (msg : ℕ) : ℕ → UInt8 :=
  let c := k.power (Gmp.importBytes (bytesAt mem msg 128))
  let count := (Gmp.sizeinbase c + 7) / 8
  let mem := write mem msg (List.replicate (128 - count) 0)
  write mem (msg + (128 - count)) (Gmp.exportBytes c)

end Rsa

/-- A number in so many bytes, most significant byte first. -/
def bigEndian (n : ℕ) (value : ℤ) : List UInt8 := (leBytes n value.toNat).reverse

theorem leBytes_zero (n : ℕ) : leBytes n 0 = List.replicate n 0 := by
  induction n with
  | zero => rfl
  | succ n ih =>
    rw [leBytes, Nat.zero_div, ih]
    rfl

theorem leBytes_add {m value : ℕ} (n : ℕ) (h : value < 256 ^ m) :
    leBytes (m + n) value = leBytes m value ++ List.replicate n 0 := by
  induction m generalizing value with
  | zero =>
    have hzero : value = 0 := Nat.lt_one_iff.mp h
    rw [hzero, Nat.zero_add, leBytes_zero]
    rfl
  | succ m ih =>
    rw [Nat.add_right_comm, leBytes, leBytes, List.cons_append]
    rw [ih (by rw [Nat.pow_succ] at h; omega)]

/-- The number of bytes is enough. -/
theorem natAbs_lt_pow (n : ℤ) : n.natAbs < 256 ^ ((Gmp.sizeinbase n + 7) / 8) := by
  have hbytes : 256 ^ ((Gmp.sizeinbase n + 7) / 8) = 2 ^ (8 * ((Gmp.sizeinbase n + 7) / 8)) := by
    rw [Nat.pow_mul]
  calc
    n.natAbs < 2 ^ Gmp.sizeinbase n := Nat.lt_log2_self
    _ ≤ 2 ^ (8 * ((Gmp.sizeinbase n + 7) / 8)) := Nat.pow_le_pow_right (by decide) (by omega)
    _ = 256 ^ ((Gmp.sizeinbase n + 7) / 8) := hbytes.symm

theorem sizeinbase_le {n : ℤ} {k : ℕ} (hk : 0 < k) (h : n.natAbs < 2 ^ k) :
    Gmp.sizeinbase n ≤ k := by
  by_cases hzero : n.natAbs = 0
  · rw [Gmp.sizeinbase, hzero]
    exact hk
  · exact (Nat.log2_lt hzero).mpr h

theorem bigEndian_inj {a b : ℤ} (ha : 0 ≤ a) (hb : 0 ≤ b) (ha' : a < 2 ^ 1024) (hb' : b < 2 ^ 1024)
    (h : bigEndian 128 a = bigEndian 128 b) : a = b := by
  have hpow : (256 : ℕ) ^ 128 = 2 ^ 1024 := by
    rw [show (256 : ℕ) = 2 ^ 8 from rfl, ← Nat.pow_mul]
  have hnat : a.toNat = b.toNat := by
    have hvalue := congrArg leNat (List.reverse_injective h)
    rw [leNat_leBytes_of_lt (by rw [hpow]; omega), leNat_leBytes_of_lt (by rw [hpow]; omega)]
      at hvalue
    exact hvalue
  omega

theorem bigEndian_zero : bigEndian 128 0 = List.replicate 127 0 ++ [0] := by
  rw [bigEndian, Int.toNat_zero, leBytes_zero, List.reverse_replicate]
  rfl

namespace Rsa

variable {k : Rsa} {mem : ℕ → UInt8} {msg : ℕ}

/-- The block as a number. -/
def blockValue (mem : ℕ → UInt8) (msg : ℕ) : ℤ := Gmp.importBytes (bytesAt mem msg 128)

/-! ## The block -/

/-- Outside the block nothing changes. -/
theorem decrypt_frame (hlt : (k.power (Gmp.importBytes (bytesAt mem msg 128))).natAbs < 2 ^ 1024)
    {i : ℕ} (hi : i < msg ∨ msg + 128 ≤ i) : k.decrypt mem msg i = mem i := by
  have hsize := sizeinbase_le (by decide) hlt
  have hlength (c : ℤ) : (Gmp.exportBytes c).length ≤ (Gmp.sizeinbase c + 7) / 8 := by
    rw [Gmp.exportBytes]
    split
    · exact Nat.zero_le _
    · rw [List.length_reverse, leBytes_length]
  have hexport := hlength (k.power (Gmp.importBytes (bytesAt mem msg 128)))
  rw [decrypt]
  cases hi with
  | inl hbefore => rw [write_of_lt (by omega), write_of_lt hbefore]
  | inr hafter =>
    rw [write_of_ge (by omega), write_of_ge (by rw [List.length_replicate]; omega)]

/-- The block is the number, most significant byte first, padded with zeros. -/
theorem bytesAt_decrypt {c : ℤ} (hc : k.power (Gmp.importBytes (bytesAt mem msg 128)) = c)
    (hpos : 0 < c) (hlt : c < 2 ^ 1024) :
    bytesAt (k.decrypt mem msg) msg 128 = bigEndian 128 c := by
  obtain ⟨n, rfl⟩ := Int.eq_ofNat_of_zero_le hpos.le
  have hsize : Gmp.sizeinbase (n : ℤ) ≤ 1024 := by
    apply sizeinbase_le (by decide)
    rw [Int.natAbs_natCast]
    exact_mod_cast hlt
  have hvalue := natAbs_lt_pow (n : ℤ)
  rw [decrypt, hc]
  generalize hcount : (Gmp.sizeinbase (n : ℤ) + 7) / 8 = count at hvalue
  have hle : count ≤ 128 := by omega
  have hexport : Gmp.exportBytes (n : ℤ) = (leBytes count n).reverse := by
    rw [Gmp.exportBytes, if_neg hpos.ne', hcount, Int.natAbs_natCast]
  have hsplit : (128 : ℕ) = 128 - count + count := (Nat.sub_add_cancel hle).symm
  have hzeros : bytesAt (write (write mem msg (List.replicate (128 - count) 0))
      (msg + (128 - count)) (leBytes count n).reverse) msg (128 - count) =
        List.replicate (128 - count) 0 := by
    rw [bytesAt_write_before (Nat.le_refl _)]
    have hwrite := bytesAt_write mem msg (List.replicate (128 - count) (0 : UInt8))
    rw [List.length_replicate] at hwrite
    exact hwrite
  have hnumber : bytesAt (write (write mem msg (List.replicate (128 - count) 0))
      (msg + (128 - count)) (leBytes count n).reverse) (msg + (128 - count)) count =
        (leBytes count n).reverse := by
    have hwrite := bytesAt_write (write mem msg (List.replicate (128 - count) 0))
      (msg + (128 - count)) (leBytes count n).reverse
    rw [List.length_reverse, leBytes_length] at hwrite
    exact hwrite
  have hencode : leBytes 128 n = leBytes count n ++ List.replicate (128 - count) 0 := by
    rw [Int.natAbs_natCast] at hvalue
    rw [← leBytes_add _ hvalue, Nat.add_sub_cancel' hle]
  rw [hexport, bigEndian, Int.toNat_natCast, hencode, List.reverse_append, List.reverse_replicate]
  calc
    bytesAt _ msg 128 = bytesAt _ msg (128 - count + count) := by rw [← hsplit]
    _ = _ := by rw [bytesAt_add, hzeros, hnumber]

/-- Of zero no byte is written, and the last one of the block stays. -/
theorem bytesAt_decrypt_zero (hc : k.power (Gmp.importBytes (bytesAt mem msg 128)) = 0) :
    bytesAt (k.decrypt mem msg) msg 128 = List.replicate 127 0 ++ [mem (msg + 127)] := by
  have hexport : Gmp.exportBytes 0 = [] := rfl
  have hcount : (Gmp.sizeinbase 0 + 7) / 8 = 1 := rfl
  have hnothing (mem : ℕ → UInt8) (pos : ℕ) : write mem pos [] = mem := by
    funext i
    rw [write]
    split <;> rfl
  rw [decrypt, hc]
  rw [hexport, hcount, hnothing]
  have hwrite := bytesAt_write mem msg (List.replicate 127 (0 : UInt8))
  rw [List.length_replicate] at hwrite
  have hlast : bytesAt (write mem msg (List.replicate 127 0)) (msg + 127) 1 = [mem (msg + 127)] := by
    rw [bytesAt_write_after (by rw [List.length_replicate])]
    rfl
  calc
    bytesAt _ msg 128 = bytesAt _ msg (127 + 1) := rfl
    _ = _ := by rw [bytesAt_add, hwrite, hlast]

/-! ## The power -/

section Power

variable {p q d : ℕ} (hp : p.Prime) (hq : q.Prime)

theorem toNat_mod_sub_one {p : ℕ} (hp : p.Prime) (d : ℕ) :
    (Gmp.mod d ((p : ℤ) - 1)).toNat = d % (p - 1) := by
  have hpred : (p : ℤ) - 1 = (p - 1 : ℕ) := by
    rw [Nat.cast_sub hp.one_lt.le, Nat.cast_one]
  rw [Gmp.mod, hpred]
  exact_mod_cast Int.toNat_natCast (d % (p - 1))

/-- A residue of the power: the code reduces the number and the exponent first. -/
theorem powm_modEq_iff {p : ℕ} (hp : p.Prime) (c : ℤ) (d : ℕ) :
    Gmp.powm (Gmp.mod c p) (Gmp.mod d ((p : ℤ) - 1)) p ≡ c ^ d [ZMOD p] ↔
      ¬ ((p : ℤ) ∣ c ∧ 0 < d ∧ p - 1 ∣ d) := by
  rw [← Residues.pow_mod_modEq_iff hp, Gmp.powm, toNat_mod_sub_one hp, Gmp.mod]
  have hreduced : (c % p) ^ (d % (p - 1)) % p ≡ c ^ (d % (p - 1)) [ZMOD p] :=
    (Int.mod_modEq _ _).trans ((Int.mod_modEq c p).pow _)
  exact ⟨fun h => hreduced.symm.trans h, fun h => hreduced.trans h⟩

include hq in
theorem power_setKey (c : ℤ) :
    (setKey p q d).power c = Residues.combine p q (Residues.inverse p q)
      (Gmp.powm (Gmp.mod c p) (Gmp.mod d ((p : ℤ) - 1)) p)
      (Gmp.powm (Gmp.mod c q) (Gmp.mod d ((q : ℤ) - 1)) q) := by
  -- a remainder is never negative
  have hnonneg (n : ℤ) : ¬ Gmp.mod n (setKey p q d).q < 0 :=
    Int.not_lt.mpr (Int.emod_nonneg n (Int.natCast_ne_zero.mpr hq.ne_zero))
  rw [power, if_neg (hnonneg _)]
  rfl

include hp hq

theorem power_nonneg (c : ℤ) : 0 ≤ (setKey p q d).power c := by
  have hpos : (0 : ℤ) < p := Int.natCast_pos.mpr hp.pos
  rw [power_setKey hq]
  apply Residues.combine_nonneg hpos (Int.natCast_pos.mpr hq.pos)
  exact Int.emod_nonneg _ hpos.ne'

theorem power_lt (c : ℤ) : (setKey p q d).power c < p * q := by
  have hpos : (0 : ℤ) < p := Int.natCast_pos.mpr hp.pos
  rw [power_setKey hq]
  apply Residues.combine_lt hpos (Int.natCast_pos.mpr hq.pos)
  exact Int.emod_lt_of_pos _ hpos

variable (hne : p ≠ q)

include hne

theorem gcd_primes : Int.gcd p q = 1 := by
  rw [Int.gcd_natCast_natCast]
  exact (Nat.coprime_primes hp hq).mpr hne

/-- The power is right unless a reduced exponent is zero on a multiple of its prime. -/
theorem power_eq_iff (c : ℤ) :
    (setKey p q d).power c = c ^ d % (p * q) ↔
      ¬ ((p : ℤ) ∣ c ∧ 0 < d ∧ p - 1 ∣ d) ∧ ¬ ((q : ℤ) ∣ c ∧ 0 < d ∧ q - 1 ∣ d) := by
  have hpos : (0 : ℤ) < p := Int.natCast_pos.mpr hp.pos
  have hcoprime := gcd_primes hp hq hne
  rw [power_setKey hq, ← powm_modEq_iff hp, ← powm_modEq_iff hq]
  exact Residues.combine_eq_iff hpos (Int.natCast_pos.mpr hq.pos) hcoprime
    (Int.emod_nonneg _ hpos.ne') (Int.emod_lt_of_pos _ hpos) (Residues.mul_inverse_modEq hcoprime) _

/-- Where the result is zero it is right, and the number is a multiple of both primes. -/
theorem power_eq_zero {c : ℤ} (hzero : (setKey p q d).power c = 0) :
    c ^ d % (p * q) = 0 ∧ (p : ℤ) * q ∣ c ∧ 0 < d := by
  have hcoprime := gcd_primes hp hq hne
  -- zero modulo a prime, the power is one of a multiple of it with an exponent above zero
  have hprime {r : ℕ} (hr : r.Prime)
      (h : 0 ≡ Gmp.powm (Gmp.mod c r) (Gmp.mod d ((r : ℤ) - 1)) r [ZMOD r]) :
      (r : ℤ) ∣ c ∧ d % (r - 1) ≠ 0 := by
    rw [Gmp.powm, toNat_mod_sub_one hr, Gmp.mod] at h
    have hpow : c ^ (d % (r - 1)) ≡ 0 [ZMOD r] :=
      ((h.trans (Int.mod_modEq _ _)).trans ((Int.mod_modEq c r).pow _)).symm
    have hexp : d % (r - 1) ≠ 0 := by
      intro hexp
      rw [hexp, pow_zero] at hpow
      exact Residues.not_zero_modEq_one hr hpow.symm
    have hprime := Nat.prime_iff_prime_int.mp hr
    exact ⟨hprime.dvd_of_dvd_pow (Int.modEq_zero_iff_dvd.mp hpow), hexp⟩
  rw [power_setKey hq] at hzero
  have hleft := Residues.combine_modEq_left (p := (p : ℤ)) (q := q) (u := Residues.inverse p q)
    (a := Gmp.powm (Gmp.mod c p) (Gmp.mod d ((p : ℤ) - 1)) p)
    (b := Gmp.powm (Gmp.mod c q) (Gmp.mod d ((q : ℤ) - 1)) q)
  have hright := Residues.combine_modEq_right (Residues.mul_inverse_modEq hcoprime)
    (a := Gmp.powm (Gmp.mod c p) (Gmp.mod d ((p : ℤ) - 1)) p)
    (b := Gmp.powm (Gmp.mod c q) (Gmp.mod d ((q : ℤ) - 1)) q)
  rw [hzero] at hleft hright
  obtain ⟨hpc, hexp⟩ := hprime hp hleft
  obtain ⟨hqc, -⟩ := hprime hq hright
  have hdvd : (p : ℤ) * q ∣ c :=
    (Int.isCoprime_iff_gcd_eq_one.mpr hcoprime).mul_dvd hpc hqc
  have hpos : 0 < d := by
    apply Nat.pos_of_ne_zero
    intro hd
    rw [hd, Nat.zero_mod] at hexp
    exact hexp rfl
  exact ⟨Int.emod_eq_zero_of_dvd (hdvd.trans (dvd_pow_self c hpos.ne')), hdvd, hpos⟩

/-! ## The operation -/

/-- The block is replaced by the power of its number, unless one of the reduced exponents is zero on a
multiple of its prime, or the power is zero and the last byte of the block is not. -/
theorem decrypt_iff (hlt : p * q < 2 ^ 1024) (d : ℕ) (mem : ℕ → UInt8) (msg : ℕ) :
    bytesAt ((setKey p q d).decrypt mem msg) msg 128 =
        bigEndian 128 (blockValue mem msg ^ d % (p * q)) ↔
      ¬ ((p : ℤ) ∣ blockValue mem msg ∧ 0 < d ∧ p - 1 ∣ d) ∧
      ¬ ((q : ℤ) ∣ blockValue mem msg ∧ 0 < d ∧ q - 1 ∣ d) ∧
      ¬ ((p : ℤ) * q ∣ blockValue mem msg ∧ 0 < d ∧ mem (msg + 127) ≠ 0) := by
  have hmodulus : (0 : ℤ) < p * q := by exact_mod_cast Nat.mul_pos hp.pos hq.pos
  have hbound : (p : ℤ) * q < 2 ^ 1024 := by exact_mod_cast hlt
  have hright := power_eq_iff (d := d) hp hq hne (blockValue mem msg)
  have hnonneg := power_nonneg (d := d) hp hq (blockValue mem msg)
  have hless := power_lt (d := d) hp hq (blockValue mem msg)
  have hresult := Int.emod_nonneg (blockValue mem msg ^ d) hmodulus.ne'
  have hresult' := Int.emod_lt_of_pos (blockValue mem msg ^ d) hmodulus
  by_cases hzero : (setKey p q d).power (blockValue mem msg) = 0
  · obtain ⟨hpower, hdvd, hpos⟩ := power_eq_zero hp hq hne hzero
    obtain ⟨hleft, hmid⟩ := hright.mp (hzero.trans hpower.symm)
    rw [bytesAt_decrypt_zero hzero, hpower, bigEndian_zero]
    constructor
    · intro h
      have hlast : mem (msg + 127) = 0 := List.singleton_inj.mp (List.append_cancel_left h)
      exact ⟨hleft, hmid, fun h => h.2.2 hlast⟩
    · intro h
      have hlast : mem (msg + 127) = 0 := by
        by_contra hlast
        exact h.2.2 ⟨hdvd, hpos, hlast⟩
      rw [hlast]
  · rw [bytesAt_decrypt rfl (lt_of_le_of_ne hnonneg (Ne.symm hzero)) (hless.trans hbound)]
    constructor
    · intro h
      have heq := bigEndian_inj hnonneg hresult (hless.trans hbound) (hresult'.trans hbound) h
      obtain ⟨hleft, hmid⟩ := hright.mp heq
      refine ⟨hleft, hmid, fun h => hzero ?_⟩
      exact heq.trans (Int.emod_eq_zero_of_dvd (h.1.trans (dvd_pow_self _ h.2.1.ne')))
    · intro h
      exact congrArg (bigEndian 128) (hright.mpr ⟨h.1, h.2.1⟩)

end Power

/-- A block that is no multiple of a prime of the key. -/
theorem decrypt_iff_two :
    bytesAt ((setKey 3 5 3).decrypt (fun i => if i = 127 then 2 else 0) 0) 0 128 =
        bigEndian 128 (blockValue (fun i => if i = 127 then 2 else 0) 0 ^ 3 % (3 * 5)) ↔
      ¬ (3 ∣ blockValue (fun i => if i = 127 then 2 else 0) 0 ∧ 0 < 3 ∧ 3 - 1 ∣ 3) ∧
      ¬ (5 ∣ blockValue (fun i => if i = 127 then 2 else 0) 0 ∧ 0 < 3 ∧ 5 - 1 ∣ 3) ∧
      ¬ (3 * 5 ∣ blockValue (fun i => if i = 127 then 2 else 0) 0 ∧ 0 < 3 ∧ (2 : UInt8) ≠ 0) :=
  decrypt_iff (p := 3) (q := 5) Nat.prime_three Nat.prime_five (by decide)
    (Nat.lt_of_lt_of_le (by decide : 3 * 5 < 2 ^ 4) (Nat.pow_le_pow_right (by decide) (by decide))) 3
    _ 0

/-- The block with the product of the primes as its number stays as it is, and its power is zero. -/
theorem not_decrypt_fifteen :
    ¬ bytesAt ((setKey 3 5 3).decrypt (fun i => if i = 127 then 15 else 0) 0) 0 128 =
      bigEndian 128 (blockValue (fun i => if i = 127 then 15 else 0) 0 ^ 3 % (3 * 5)) := by
  have hvalue : blockValue (fun i => if i = 127 then 15 else 0) 0 = 15 := by decide +kernel
  have hzero : (setKey 3 5 3).power (blockValue (fun i => if i = 127 then 15 else 0) 0) = 0 := by
    have hright := (power_eq_iff (p := 3) (q := 5) (d := 3) Nat.prime_three Nat.prime_five
      (by decide) (blockValue (fun i => if i = 127 then 15 else 0) 0)).mpr (by rw [hvalue]; decide)
    rw [hvalue] at hright ⊢
    exact hright
  have hpower : blockValue (fun i => if i = 127 then 15 else 0) 0 ^ 3 % (3 * 5) = 0 := by
    rw [hvalue]
    rfl
  rw [bytesAt_decrypt_zero hzero, hpower, bigEndian_zero]
  intro h
  exact absurd (List.singleton_inj.mp (List.append_cancel_left h)) (by decide)

end Rsa

end TyanoCore
