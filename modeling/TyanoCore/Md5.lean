import TyanoCore.BlockHash

/-!
# The MD5 digest

The transformation of a block is sixty-four lines of macros that take the four registers in turn.
The context is fed with pieces of a message of any lengths; the digest is that of the whole message,
also for other initialization constants than the standard's.
-/

namespace TyanoCore.Md5

open Bytes BlockHash

/-! ## The source -/

/-- The scratch buffer. -/
structure Buf where
  a : UInt32
  b : UInt32
  c : UInt32
  d : UInt32
deriving DecidableEq

def MD5_F (x y z : UInt32) : UInt32 := (x &&& y) ||| (~~~x &&& z)

def MD5_G (x y z : UInt32) : UInt32 := (x &&& z) ||| (y &&& ~~~z)

def MD5_H (x y z : UInt32) : UInt32 := x ^^^ y ^^^ z

def MD5_I (x y z : UInt32) : UInt32 := y ^^^ (x ||| ~~~z)

def ROTATE_LEFT (x : UInt32) (n : ℕ) : UInt32 :=
  ((x <<< UInt32.ofNat n) &&& 0xffffffff) ||| (x >>> UInt32.ofNat (32 - n))

/-- The macros `MD5_FF`, `MD5_GG`, `MD5_HH` and `MD5_II`, with the function of their round. -/
def macroLine (f : UInt32 → UInt32 → UInt32 → UInt32) (a b c d x : UInt32) (s : ℕ) (ac : UInt32) :
    UInt32 :=
  ROTATE_LEFT (a + (f b c d + x + ac)) s + b

/-- The shifts of a round. -/
structure Shifts where
  s1 : ℕ
  s2 : ℕ
  s3 : ℕ
  s4 : ℕ

def MD5_S1 : Shifts := ⟨7, 12, 17, 22⟩

def MD5_S2 : Shifts := ⟨5, 9, 14, 20⟩

def MD5_S3 : Shifts := ⟨4, 11, 16, 23⟩

def MD5_S4 : Shifts := ⟨6, 10, 15, 21⟩

/-- Four lines of a round: they set `a`, `d`, `c` and `b`. -/
def fourLines (f : UInt32 → UInt32 → UInt32 → UInt32) (s : Shifts)
    (x1 ac1 x2 ac2 x3 ac3 x4 ac4 : UInt32) (buf : Buf) : Buf :=
  let a := macroLine f buf.a buf.b buf.c buf.d x1 s.s1 ac1
  let d := macroLine f buf.d a buf.b buf.c x2 s.s2 ac2
  let c := macroLine f buf.c d a buf.b x3 s.s3 ac3
  let b := macroLine f buf.b c d a x4 s.s4 ac4
  ⟨a, b, c, d⟩

def MD5_Transform (buf : Buf) (x : Fin 16 → UInt32) : Buf :=
  let lines := buf
    |> fourLines MD5_F MD5_S1
      (x 0) 3614090360 (x 1) 3905402710 (x 2) 606105819 (x 3) 3250441966
    |> fourLines MD5_F MD5_S1
      (x 4) 4118548399 (x 5) 1200080426 (x 6) 2821735955 (x 7) 4249261313
    |> fourLines MD5_F MD5_S1
      (x 8) 1770035416 (x 9) 2336552879 (x 10) 4294925233 (x 11) 2304563134
    |> fourLines MD5_F MD5_S1
      (x 12) 1804603682 (x 13) 4254626195 (x 14) 2792965006 (x 15) 1236535329
    |> fourLines MD5_G MD5_S2
      (x 1) 4129170786 (x 6) 3225465664 (x 11) 643717713 (x 0) 3921069994
    |> fourLines MD5_G MD5_S2
      (x 5) 3593408605 (x 10) 38016083 (x 15) 3634488961 (x 4) 3889429448
    |> fourLines MD5_G MD5_S2
      (x 9) 568446438 (x 14) 3275163606 (x 3) 4107603335 (x 8) 1163531501
    |> fourLines MD5_G MD5_S2
      (x 13) 2850285829 (x 2) 4243563512 (x 7) 1735328473 (x 12) 2368359562
    |> fourLines MD5_H MD5_S3
      (x 5) 4294588738 (x 8) 2272392833 (x 11) 1839030562 (x 14) 4259657740
    |> fourLines MD5_H MD5_S3
      (x 1) 2763975236 (x 4) 1272893353 (x 7) 4139469664 (x 10) 3200236656
    |> fourLines MD5_H MD5_S3
      (x 13) 681279174 (x 0) 3936430074 (x 3) 3572445317 (x 6) 76029189
    |> fourLines MD5_H MD5_S3
      (x 9) 3654602809 (x 12) 3873151461 (x 15) 530742520 (x 2) 3299628645
    |> fourLines MD5_I MD5_S4
      (x 0) 4096336452 (x 7) 1126891415 (x 14) 2878612391 (x 5) 4237533241
    |> fourLines MD5_I MD5_S4
      (x 12) 1700485571 (x 3) 2399980690 (x 10) 4293915773 (x 1) 2240044497
    |> fourLines MD5_I MD5_S4
      (x 8) 1873313359 (x 15) 4264355552 (x 6) 2734768916 (x 13) 1309151649
    |> fourLines MD5_I MD5_S4
      (x 4) 4149444226 (x 11) 3174756917 (x 2) 718787259 (x 9) 3951481745
  ⟨buf.a + lines.a, buf.b + lines.b, buf.c + lines.c, buf.d + lines.d⟩

/-- The context: the number of bits in two halves, the scratch buffer, the input and the digest. -/
structure MD5_CTX where
  i0 : UInt32
  i1 : UInt32
  buf : Buf
  input : ℕ → UInt8
  digest : List UInt8

/-- The constants that the context begins with. -/
def magic (pseudoRandomNumber : UInt64) : Buf where
  a := ((0x67452301 : UInt64) + pseudoRandomNumber * 11).toUInt32
  b := ((0xefcdab89 : UInt64) + pseudoRandomNumber * 71).toUInt32
  c := ((0x98badcfe : UInt64) + pseudoRandomNumber * 37).toUInt32
  d := ((0x10325476 : UInt64) + pseudoRandomNumber * 97).toUInt32

/-- The input and the digest are whatever the memory holds. -/
def MD5Init (mdContext : MD5_CTX) (pseudoRandomNumber : UInt64) : MD5_CTX :=
  { mdContext with i0 := 0, i1 := 0, buf := magic pseudoRandomNumber }

/-- A word of the input, its least significant byte first. -/
def inputWord (input : ℕ → UInt8) (i : ℕ) : UInt32 :=
  let ii := 4 * i
  (input (ii + 3)).toUInt32 <<< 24 ||| (input (ii + 2)).toUInt32 <<< 16 |||
    (input (ii + 1)).toUInt32 <<< 8 ||| (input ii).toUInt32

/-- The bytes in the input, modulo sixty-four. -/
def mdi (mdContext : MD5_CTX) : ℕ := ((mdContext.i0 >>> 3) &&& 0x3F).toNat

/-- A round of the loop of `MD5Update`; `n` is its `mdi`. -/
def updateByte (s : MD5_CTX × ℕ) (byte : UInt8) : MD5_CTX × ℕ :=
  let input := write s.1.input s.2 [byte]
  if s.2 + 1 = 0x40 then
    ({ s.1 with
      input := input
      buf := MD5_Transform s.1.buf fun i => inputWord input i }, 0)
  else ({ s.1 with input := input }, s.2 + 1)

/-- The length of the piece is an unsigned number of 32 bits. -/
def MD5Update (mdContext : MD5_CTX) (inBuf : List UInt8) : MD5_CTX :=
  let inLen := UInt32.ofNat inBuf.length
  let n := mdi mdContext
  let i1 := if mdContext.i0 + inLen <<< 3 < mdContext.i0 then mdContext.i1 + 1 else mdContext.i1
  let counted := { mdContext with i0 := mdContext.i0 + inLen <<< 3, i1 := i1 + inLen >>> 29 }
  ((inBuf.take inLen.toNat).foldl updateByte (counted, n)).1

def MD5_PADDING : List UInt8 := 0x80 :: List.replicate 63 0

def MD5Final (mdContext : MD5_CTX) : MD5_CTX :=
  let n := mdi mdContext
  let padLen := if n < 56 then 56 - n else 120 - n
  let padded := MD5Update mdContext (MD5_PADDING.take padLen)
  let buf := MD5_Transform padded.buf fun i =>
    if i = 14 then mdContext.i0 else if i = 15 then mdContext.i1 else inputWord padded.input i
  { padded with
    buf := buf
    digest := wordBytes buf.a ++ wordBytes buf.b ++ wordBytes buf.c ++ wordBytes buf.d }

/-! ## The digest of a message -/

def roundFunction (i : ℕ) : UInt32 → UInt32 → UInt32 → UInt32 :=
  if i < 16 then MD5_F else if i < 32 then MD5_G else if i < 48 then MD5_H else MD5_I

/-- The word of the block that an operation adds. -/
def wordIndex (i : ℕ) : Fin 16 :=
  if i < 16 then Fin.ofNat 16 i
  else if i < 32 then Fin.ofNat 16 (5 * i + 1)
  else if i < 48 then Fin.ofNat 16 (3 * i + 5)
  else Fin.ofNat 16 (7 * i)

def shift (i : ℕ) : ℕ :=
  ([[7, 12, 17, 22], [5, 9, 14, 20], [4, 11, 16, 23], [6, 10, 15, 21]].getD (i / 16) []).getD
    (i % 4) 0

/-- The constants of the operations. -/
def sine : List UInt32 :=
  [0xd76aa478, 0xe8c7b756, 0x242070db, 0xc1bdceee, 0xf57c0faf, 0x4787c62a, 0xa8304613, 0xfd469501,
    0x698098d8, 0x8b44f7af, 0xffff5bb1, 0x895cd7be, 0x6b901122, 0xfd987193, 0xa679438e, 0x49b40821,
    0xf61e2562, 0xc040b340, 0x265e5a51, 0xe9b6c7aa, 0xd62f105d, 0x02441453, 0xd8a1e681, 0xe7d3fbc8,
    0x21e1cde6, 0xc33707d6, 0xf4d50d87, 0x455a14ed, 0xa9e3e905, 0xfcefa3f8, 0x676f02d9, 0x8d2a4c8a,
    0xfffa3942, 0x8771f681, 0x6d9d6122, 0xfde5380c, 0xa4beea44, 0x4bdecfa9, 0xf6bb4b60, 0xbebfbc70,
    0x289b7ec6, 0xeaa127fa, 0xd4ef3085, 0x04881d05, 0xd9d4d039, 0xe6db99e5, 0x1fa27cf8, 0xc4ac5665,
    0xf4292244, 0x432aff97, 0xab9423a7, 0xfc93a039, 0x655b59c3, 0x8f0ccc92, 0xffeff47d, 0x85845dd1,
    0x6fa87e4f, 0xfe2ce6e0, 0xa3014314, 0x4e0811a1, 0xf7537e82, 0xbd3af235, 0x2ad7d2bb, 0xeb86d391]

/-- An operation: one register is computed, and each register takes the place of the next one. -/
def operation (x : Fin 16 → UInt32) (i : ℕ) (s : Buf) : Buf :=
  ⟨s.d, s.b + rotateLeft (s.a + roundFunction i s.b s.c s.d + x (wordIndex i) + sine[i]!) (shift i),
    s.b, s.c⟩

def compress (s : Buf) (block : List UInt8) : Buf :=
  let x (i : Fin 16) : UInt32 := UInt32.ofNat (leNat ((block.drop (4 * i)).take 4))
  let t := (List.range 64).foldl (fun t i => operation x i t) s
  ⟨s.a + t.a, s.b + t.b, s.c + t.c, s.d + t.d⟩

/-- The number of bits, modulo `2 ^ 64`. -/
def bitLength (n : ℕ) : List UInt8 := leBytes 8 (8 * n)

def md5 (start : Buf) (message : List UInt8) : List UInt8 :=
  let s := hash compress 64 start (pad 64 8 bitLength message)
  [s.a, s.b, s.c, s.d].flatMap fun word => leBytes 4 word.toNat

/-! ## The transformation -/

theorem ROTATE_LEFT_eq (x : UInt32) {n : ℕ} (hpos : 0 < n) (hn : n < 32) :
    ROTATE_LEFT x n = rotateLeft x n := by
  have hmask : x <<< UInt32.ofNat n &&& 0xffffffff = x <<< UInt32.ofNat n := by
    apply UInt32.toBitVec_inj.mp
    exact BitVec.and_allOnes
  rw [ROTATE_LEFT, hmask, shiftLeft_or_shiftRight x hpos hn]

theorem shift_bounds : ∀ i < 64, 0 < shift i ∧ shift i < 32 := by
  decide

/-- An operation is one line of the macros. -/
theorem operation_eq (x : Fin 16 → UInt32) {i : ℕ} (hi : i < 64) (s : Buf) :
    operation x i s = ⟨s.d, macroLine (roundFunction i) s.a s.b s.c s.d (x (wordIndex i)) (shift i)
      sine[i]!, s.b, s.c⟩ := by
  obtain ⟨hpos, hlt⟩ := shift_bounds i hi
  rw [operation, macroLine, ROTATE_LEFT_eq _ hpos hlt, UInt32.add_comm s.b]
  simp only [UInt32.add_assoc]

/-- The round of four operations. -/
theorem roundFunction_four (k : ℕ) {j : ℕ} (hj : j < 4) :
    roundFunction (4 * k + j) = roundFunction (4 * k) := by
  have h16 : 4 * k + j < 16 ↔ 4 * k < 16 := by omega
  have h32 : 4 * k + j < 32 ↔ 4 * k < 32 := by omega
  have h48 : 4 * k + j < 48 ↔ 4 * k < 48 := by omega
  simp only [roundFunction, h16, h32, h48]

/-- Four operations bring each register back to its place. -/
theorem four_operations (x : Fin 16 → UInt32) {k : ℕ} (hk : k < 16) (s : Buf) :
    operation x (4 * k + 3) (operation x (4 * k + 2) (operation x (4 * k + 1)
        (operation x (4 * k) s))) =
      fourLines (roundFunction (4 * k))
        ⟨shift (4 * k), shift (4 * k + 1), shift (4 * k + 2), shift (4 * k + 3)⟩
        (x (wordIndex (4 * k))) sine[4 * k]! (x (wordIndex (4 * k + 1))) sine[4 * k + 1]!
        (x (wordIndex (4 * k + 2))) sine[4 * k + 2]! (x (wordIndex (4 * k + 3))) sine[4 * k + 3]!
        s := by
  rw [operation_eq x (show 4 * k < 64 by omega), operation_eq x (show 4 * k + 1 < 64 by omega),
    operation_eq x (show 4 * k + 2 < 64 by omega), operation_eq x (show 4 * k + 3 < 64 by omega),
    roundFunction_four k (show 1 < 4 by decide), roundFunction_four k (show 2 < 4 by decide),
    roundFunction_four k (show 3 < 4 by decide)]
  rfl

/-- The sixty-four operations, four at a time. -/
theorem foldl_operation (x : Fin 16 → UInt32) (s : Buf) :
    (List.range 64).foldl (fun t i => operation x i t) s =
      (List.range 16).foldl (fun t k => operation x (4 * k + 3) (operation x (4 * k + 2)
        (operation x (4 * k + 1) (operation x (4 * k) t)))) s := by
  rfl

theorem MD5_Transform_eq (buf : Buf) (x : Fin 16 → UInt32) :
    MD5_Transform buf x =
      let t := (List.range 64).foldl (fun t i => operation x i t) buf
      ⟨buf.a + t.a, buf.b + t.b, buf.c + t.c, buf.d + t.d⟩ := by
  rw [foldl_operation, List.foldl_ext _ _ buf fun t k hk =>
    four_operations x (List.mem_range.mp hk) t]
  rfl

/-! ## The input -/

theorem inputWord_eq (input : ℕ → UInt8) (i : ℕ) :
    inputWord input i = UInt32.ofNat (leNat (bytesAt input (4 * i) 4)) := by
  have hlt := leNat_lt (bytesAt input (4 * i) 4)
  rw [bytesAt_length] at hlt
  apply UInt32.toNat_inj.mp
  rw [UInt32.toNat_ofNat_of_lt' hlt]
  exact toNat_or_shifts _ _ _ _

theorem compress_bytesAt (s : Buf) (input : ℕ → UInt8) :
    compress s (bytesAt input 0 64) = MD5_Transform s fun i => inputWord input i := by
  have hwords : (fun i : Fin 16 =>
      UInt32.ofNat (leNat (((bytesAt input 0 64).drop (4 * i)).take 4))) =
      fun i : Fin 16 => inputWord input i := by
    funext i
    rw [inputWord_eq, bytesAt_drop_take input (show 4 * i.val + 4 ≤ 64 by omega)]
  rw [MD5_Transform_eq, compress, hwords]

/-- The buffer of the context. -/
def toBuffer (s : MD5_CTX × ℕ) : Buffer Buf := ⟨s.1.buf, s.1.input, s.2⟩

theorem toBuffer_updateByte (s : MD5_CTX × ℕ) (byte : UInt8) :
    toBuffer (updateByte s byte) = (toBuffer s).put compress 64 byte := by
  by_cases hfull : s.2 + 1 = 0x40
  · have hput : (toBuffer s).index + 1 = 64 := hfull
    dsimp only [Buffer.put]
    rw [updateByte, if_pos hfull, if_pos hput, compress_bytesAt]
    rfl
  · have hput : (toBuffer s).index + 1 ≠ 64 := hfull
    dsimp only [Buffer.put]
    rw [updateByte, if_neg hfull, if_neg hput]
    rfl

theorem toBuffer_foldl_updateByte (s : MD5_CTX × ℕ) (inBuf : List UInt8) :
    toBuffer (inBuf.foldl updateByte s) = inBuf.foldl (Buffer.put compress 64) (toBuffer s) := by
  induction inBuf generalizing s with
  | nil => rfl
  | cons byte inBuf ih =>
    rw [List.foldl_cons, List.foldl_cons, ih, toBuffer_updateByte]

/-! ## The number of bits -/

def bits (mdContext : MD5_CTX) : ℕ :=
  mdContext.i0.toNat + UInt32.size * mdContext.i1.toNat

theorem bits_updateByte (s : MD5_CTX × ℕ) (byte : UInt8) :
    bits (updateByte s byte).1 = bits s.1 := by
  obtain ⟨⟨i0, i1, buf, input, digest⟩, n⟩ := s
  by_cases hfull : n + 1 = 0x40
  · rw [updateByte, if_pos hfull, bits, bits]
  · rw [updateByte, if_neg hfull, bits, bits]

theorem bits_foldl_updateByte (s : MD5_CTX × ℕ) (inBuf : List UInt8) :
    bits (inBuf.foldl updateByte s).1 = bits s.1 := by
  induction inBuf generalizing s with
  | nil => rfl
  | cons byte inBuf ih =>
    rw [List.foldl_cons, ih, bits_updateByte]

/-- The carry into the upper half. -/
theorem bits_add (i0 i1 : UInt32) {n : ℕ} (hn : n < 2 ^ 32) :
    (i0 + UInt32.ofNat n <<< 3).toNat + UInt32.size *
        ((if i0 + UInt32.ofNat n <<< 3 < i0 then i1 + 1 else i1) + UInt32.ofNat n >>> 29).toNat =
      (i0.toNat + UInt32.size * i1.toNat + 8 * n) % 2 ^ 64 := by
  have hsize : UInt32.size = 2 ^ 32 := by decide
  have h0 : i0.toNat < 2 ^ 32 := i0.toNat_lt
  have h1 : i1.toNat < 2 ^ 32 := i1.toNat_lt
  have hlow : (i0 + UInt32.ofNat n <<< 3).toNat = (i0.toNat + 8 * n) % 2 ^ 32 := by
    rw [UInt32.toNat_add, UInt32.toNat_shiftLeft, UInt32.toNat_ofNat_of_lt' hn]
    have hthree : UInt32.toNat 3 % 32 = 3 := rfl
    rw [hthree, Nat.shiftLeft_eq]
    omega
  have hhigh : (UInt32.ofNat n >>> 29).toNat = n / 2 ^ 29 := by
    rw [UInt32.toNat_shiftRight, UInt32.toNat_ofNat_of_lt' hn]
    exact Nat.shiftRight_eq_div_pow n 29
  have hcarry : i0 + UInt32.ofNat n <<< 3 < i0 ↔ (i0.toNat + 8 * n) % 2 ^ 32 < i0.toNat := by
    rw [UInt32.lt_iff_toNat_lt, hlow]
  have hone : (i1 + 1).toNat = (i1.toNat + 1) % 2 ^ 32 := UInt32.toNat_add i1 1
  rw [UInt32.toNat_add _ (UInt32.ofNat n >>> 29), hhigh, hlow, hsize]
  split_ifs with hless
  · have hwrap := hcarry.mp hless
    rw [hone]
    omega
  · have hstay : ¬ (i0.toNat + 8 * n) % 2 ^ 32 < i0.toNat := fun h => hless (hcarry.mpr h)
    omega

theorem bits_MD5Update (mdContext : MD5_CTX) {inBuf : List UInt8} (h : inBuf.length < 2 ^ 32) :
    bits (MD5Update mdContext inBuf) = (bits mdContext + 8 * inBuf.length) % 2 ^ 64 := by
  rw [MD5Update, bits_foldl_updateByte]
  exact bits_add mdContext.i0 mdContext.i1 h

theorem mdi_eq (mdContext : MD5_CTX) : mdi mdContext = bits mdContext / 8 % 64 := by
  have h0 : mdContext.i0.toNat < 2 ^ 32 := mdContext.i0.toNat_lt
  have hshift : (mdContext.i0 >>> 3).toNat = mdContext.i0.toNat / 2 ^ 3 :=
    (UInt32.toNat_shiftRight _ _).trans (Nat.shiftRight_eq_div_pow _ 3)
  have hmask : UInt32.toNat 0x3F = 2 ^ 6 - 1 := rfl
  have hsize : UInt32.size = 8 * 64 * 2 ^ 23 := by decide
  rw [mdi, UInt32.toNat_and, hshift, hmask, Nat.and_two_pow_sub_one_eq_mod, bits, hsize]
  omega

/-! ## The context after a message -/

/-- The context stands for a message. -/
structure Stands (start : Buf) (message : List UInt8) (mdContext : MD5_CTX) : Prop where
  holds : (toBuffer (mdContext, mdi mdContext)).Holds compress 64 start message
  bits_eq : bits mdContext = 8 * message.length % 2 ^ 64

variable {start : Buf} {message inBuf : List UInt8} {mdContext : MD5_CTX}

theorem stands_MD5Init (mdContext : MD5_CTX) (pseudoRandomNumber : UInt64) :
    Stands (magic pseudoRandomNumber) [] (MD5Init mdContext pseudoRandomNumber) where
  holds := by
    have hmdi : mdi (MD5Init mdContext pseudoRandomNumber) = 0 := by
      show ((0 : UInt32) >>> 3 &&& 0x3F).toNat = 0
      decide
    rw [hmdi]
    exact Buffer.holds_nil mdContext.input
  bits_eq := rfl

theorem Stands.mdi_eq (h : Stands start message mdContext) :
    mdi mdContext = message.length % 64 := by
  rw [TyanoCore.Md5.mdi_eq, h.bits_eq]
  omega

theorem Stands.update (h : Stands start message mdContext) (hlength : inBuf.length < 2 ^ 32) :
    Stands start (message ++ inBuf) (MD5Update mdContext inBuf) := by
  have hbits : bits (MD5Update mdContext inBuf) =
      8 * (message ++ inBuf).length % 2 ^ 64 := by
    rw [bits_MD5Update mdContext hlength, h.bits_eq, List.length_append]
    omega
  have hmdi : mdi (MD5Update mdContext inBuf) = (message ++ inBuf).length % 64 := by
    rw [TyanoCore.Md5.mdi_eq, hbits]
    omega
  have hall : inBuf.take (UInt32.ofNat inBuf.length).toNat = inBuf := by
    rw [UInt32.toNat_ofNat_of_lt' hlength, List.take_length]
  let counted : MD5_CTX := { mdContext with
    i0 := mdContext.i0 + UInt32.ofNat inBuf.length <<< 3
    i1 := (if mdContext.i0 + UInt32.ofNat inBuf.length <<< 3 < mdContext.i0 then mdContext.i1 + 1
      else mdContext.i1) + UInt32.ofNat inBuf.length >>> 29 }
  have hupdate : MD5Update mdContext inBuf =
      (inBuf.foldl updateByte (counted, mdi mdContext)).1 := by
    rw [MD5Update, hall]
  have hbuffer := toBuffer_foldl_updateByte (counted, mdi mdContext) inBuf
  have hholds : (toBuffer (inBuf.foldl updateByte (counted, mdi mdContext))).Holds compress 64
      start (message ++ inBuf) := by
    rw [hbuffer]
    exact h.holds.foldl_put (by decide) inBuf
  -- the position in the input is not stored: it is read off the number of bits again
  refine ⟨?_, hbits⟩
  have hindex : (inBuf.foldl updateByte (counted, mdi mdContext)).2 =
      (message ++ inBuf).length % 64 := hholds.index_eq
  rw [hmdi, ← hindex, hupdate]
  exact hholds

/-! ## The digest -/

/-- The words of the last block: the input, and the number of bits in two halves. -/
theorem lastWord_eq (input : ℕ → UInt8) {i0 i1 : UInt32} {n : ℕ}
    (hbits : i0.toNat + UInt32.size * i1.toNat = 8 * n % 2 ^ 64) (i : Fin 16) :
    UInt32.ofNat (leNat (((bytesAt input 0 56 ++ bitLength n).drop (4 * i)).take 4)) =
      if i = 14 then i0 else if i = 15 then i1 else inputWord input i := by
  have hsize : UInt32.size = 2 ^ 32 := by decide
  have h0 : i0.toNat < 2 ^ 32 := i0.toNat_lt
  have h1 : i1.toNat < 2 ^ 32 := i1.toNat_lt
  rw [hsize] at hbits
  have hlength : (bytesAt input 0 56).length = 56 := bytesAt_length _ _ _
  have hhalves : bitLength n = leBytes 4 (8 * n) ++ leBytes 4 (8 * n / 256 ^ 4) :=
    leBytes_append 4 4 (8 * n)
  have hfour (v : ℕ) : (leBytes 4 v).length = 4 := leBytes_length 4 v
  by_cases h14 : i = 14
  · have hdrop : 4 * i.val = 56 := by rw [h14]; rfl
    rw [if_pos h14, hdrop, List.drop_left' hlength, hhalves, List.take_left' (hfour _),
      leNat_leBytes]
    apply UInt32.toNat_inj.mp
    rw [UInt32.toNat_ofNat']
    omega
  by_cases h15 : i = 15
  · have hdrop : 4 * i.val = 56 + 4 := by rw [h15]; rfl
    have hrest : (leBytes 4 (8 * n / 256 ^ 4)).take 4 = leBytes 4 (8 * n / 256 ^ 4) :=
      List.take_of_length_le (hfour _).le
    rw [if_neg h14, if_pos h15, hdrop, ← List.drop_drop, List.drop_left' hlength, hhalves,
      List.drop_left' (hfour _), hrest, leNat_leBytes]
    apply UInt32.toNat_inj.mp
    rw [UInt32.toNat_ofNat']
    omega
  · have hle : 4 * i.val + 4 ≤ 56 := by
      have hne14 : i.val ≠ 14 := fun h => h14 (Fin.ext h)
      have hne15 : i.val ≠ 15 := fun h => h15 (Fin.ext h)
      omega
    rw [if_neg h14, if_neg h15, inputWord_eq, List.drop_append_of_le_length (by omega),
      List.take_append_of_le_length (by rw [List.length_drop]; omega), bytesAt_drop_take input hle]

theorem take_MD5_PADDING {n : ℕ} (hn : n < 64) :
    MD5_PADDING.take (n + 1) = 0x80 :: List.replicate n 0 := by
  rw [MD5_PADDING, List.take_succ_cons, List.take_replicate, Nat.min_eq_left (by omega)]

theorem Stands.final (h : Stands start message mdContext) :
    (MD5Final mdContext).digest = md5 start message := by
  have hmdi := h.mdi_eq
  have hlt : message.length % 64 < 64 := Nat.mod_lt _ (by decide)
  let n := zeros 64 8 message.length
  have hn : n = (119 - message.length % 64) % 64 := rfl
  have hpadLen : (if mdi mdContext < 56 then 56 - mdi mdContext else 120 - mdi mdContext) =
      n + 1 := by
    rw [hmdi]
    split_ifs <;> omega
  let padding : List UInt8 := 0x80 :: List.replicate n 0
  have hlength : padding.length = n + 1 := by
    rw [List.length_cons, List.length_replicate]
  have hpadding : MD5_PADDING.take (n + 1) = padding := take_MD5_PADDING (by omega)
  have hpadded : Stands start (message ++ padding) (MD5Update mdContext padding) :=
    h.update (by omega)
  have hindex : mdi (MD5Update mdContext padding) = 56 := by
    rw [hpadded.mdi_eq, List.length_append, hlength]
    omega
  have hlast : (toBuffer (MD5Update mdContext padding, mdi (MD5Update mdContext padding))).index +
      (bitLength message.length).length = 64 := by
    rw [bitLength, leBytes_length]
    exact congrArg (· + 8) hindex
  have hhash := hpadded.holds.hash_last (by decide) hlast
  have hwords : compress (MD5Update mdContext padding).buf
      (bytesAt (MD5Update mdContext padding).input 0 56 ++ bitLength message.length) =
      MD5_Transform (MD5Update mdContext padding).buf fun i =>
        if i = 14 then mdContext.i0 else if i = 15 then mdContext.i1
        else inputWord (MD5Update mdContext padding).input i := by
    rw [MD5_Transform_eq, compress, funext (lastWord_eq _ h.bits_eq)]
  have hdigest : hash compress 64 start (pad 64 8 bitLength message) =
      (MD5Final mdContext).buf := by
    rw [pad, hhash, MD5Final, hpadLen, hpadding, ← hwords, ← hindex]
    rfl
  rw [md5, hdigest]
  simp only [List.flatMap_cons, List.flatMap_nil, List.append_nil, ← wordBytes_eq]
  rw [← List.append_assoc, ← List.append_assoc]
  rfl

theorem Stands.foldl_update (h : Stands start message mdContext) {pieces : List (List UInt8)}
    (hlength : ∀ inBuf ∈ pieces, inBuf.length < 2 ^ 32) :
    Stands start (message ++ pieces.flatten) (pieces.foldl MD5Update mdContext) := by
  induction pieces generalizing message mdContext with
  | nil =>
    rw [List.flatten_nil, List.append_nil]
    exact h
  | cons inBuf pieces ih =>
    have hhead := h.update (hlength inBuf List.mem_cons_self)
    rw [List.flatten_cons, ← List.append_assoc, List.foldl_cons]
    exact ih hhead fun p hp => hlength p (List.mem_cons_of_mem inBuf hp)

/-- **The digest of the pieces of a message is the digest of the message**, whatever the context
held before, and whatever constants it begins with. -/
theorem MD5Final_MD5Update (mdContext : MD5_CTX) (pseudoRandomNumber : UInt64)
    (pieces : List (List UInt8)) (hlength : ∀ inBuf ∈ pieces, inBuf.length < 2 ^ 32) :
    (MD5Final (pieces.foldl MD5Update (MD5Init mdContext pseudoRandomNumber))).digest =
      md5 (magic pseudoRandomNumber) pieces.flatten :=
  ((stands_MD5Init mdContext pseudoRandomNumber).foldl_update hlength).final

/-- A message of three bytes in two pieces. -/
theorem MD5Final_MD5Update_two_pieces :
    (MD5Final ([[97], [98, 99]].foldl MD5Update
      (MD5Init ⟨1, 2, ⟨3, 4, 5, 6⟩, fun _ => 7, []⟩ 0))).digest =
      [0x90, 0x01, 0x50, 0x98, 0x3c, 0xd2, 0x4f, 0xb0,
        0xd6, 0x96, 0x3f, 0x7d, 0x28, 0xe1, 0x7f, 0x72] :=
  (MD5Final_MD5Update ⟨1, 2, ⟨3, 4, 5, 6⟩, fun _ => 7, []⟩ 0 [[97], [98, 99]] (by decide)).trans
    (by decide +kernel)

end TyanoCore.Md5
