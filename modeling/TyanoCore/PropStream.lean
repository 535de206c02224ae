import TyanoCore.Layout

/-!
# Streams of properties

`PropStream`, from which numbers and strings are read, and what `PropWriteStream` writes for them.  The
size that is left is an `int32_t`, and both kinds of strings are written with lengths of 16 bits.
-/

namespace TyanoCore

open Bytes

/-- The bytes that have not been read. -/
abbrev PropStream := List UInt8

namespace PropStream

/-- Fewer than `n` bytes are left: `size()` and `n` are compared as `int32_t`s. -/
def lacks (s : PropStream) (n : ℕ) : Bool :=
  let size := s.length % 2 ^ 32
  if size < 2 ^ 31 then size < n && n < 2 ^ 31 else size < n || n < 2 ^ 31

/-- `GET_VALUE` of a type of `n` bytes. -/
def getValue (n : ℕ) (s : PropStream) : Option ℕ × PropStream :=
  if s.lacks n then (none, s) else (some (leNat (s.take n)), s.drop n)

def getUChar : PropStream → Option ℕ × PropStream := getValue 1
def getUShort : PropStream → Option ℕ × PropStream := getValue 2
def getULong : PropStream → Option ℕ × PropStream := getValue 4

/-- A string behind its length, which has `n` bytes. -/
def getStringOf (n : ℕ) (s : PropStream) : Option (List UInt8) × PropStream :=
  match getValue n s with
  | (none, s) => (none, s)
  | (some strLen, s) =>
    if s.lacks strLen then (none, s) else (some (s.take strLen), s.drop strLen)

def getString : PropStream → Option (List UInt8) × PropStream := getStringOf 2
def getLString : PropStream → Option (List UInt8) × PropStream := getStringOf 4

/-- `GET_VALUE` of a type that is laid out in some way. -/
def getAs {α : Type*} (layout : Layout α) (s : PropStream) : Option α × PropStream :=
  let read := getValue layout.size s
  (read.1.map layout.ofNat, read.2)

/-- `SKIP_N`. -/
def skip (n : ℕ) (s : PropStream) : PropStream := if s.lacks n then s else s.drop n

/-! ## Writing -/

def addUChar (value : ℕ) : List UInt8 := leBytes 1 value
def addUShort (value : ℕ) : List UInt8 := leBytes 2 value
def addULong (value : ℕ) : List UInt8 := leBytes 4 value

def addString (add : List UInt8) : List UInt8 :=
  let strLen := add.length % 2 ^ 16
  addUShort strLen ++ add.take strLen

/-- The length is kept in 16 bits and written in 32. -/
def addLString (add : List UInt8) : List UInt8 :=
  let strLen := add.length % 2 ^ 16
  addULong strLen ++ add.take strLen

/-! ## What is read back -/

/-- The stream is so short that its size is counted right. -/
def Short (s : PropStream) : Prop := s.length < 2 ^ 31

theorem Short.left {s t : PropStream} (h : Short (s ++ t)) : s.Short := by
  unfold Short at h
  rw [List.length_append] at h
  exact Nat.lt_of_le_of_lt (Nat.le_add_right _ _) h

theorem Short.right {s t : PropStream} (h : Short (s ++ t)) : t.Short := by
  unfold Short at h
  rw [List.length_append] at h
  exact Nat.lt_of_le_of_lt (Nat.le_add_left _ _) h

theorem Short.lacks_eq {s : PropStream} {n : ℕ} (h : s.Short) (hn : n < 2 ^ 31) :
    s.lacks n = decide (s.length < n) := by
  unfold Short at h
  have hsize : s.length % 2 ^ 32 = s.length := Nat.mod_eq_of_lt (by omega)
  unfold lacks
  rw [hsize, if_pos h, decide_eq_true hn, Bool.and_true]

theorem Short.not_lacks {s t : PropStream} (h : Short (s ++ t)) :
    lacks (s ++ t) s.length = false := by
  rw [h.lacks_eq h.left, List.length_append]
  exact decide_eq_false (Nat.not_lt_of_le (Nat.le_add_right _ _))

theorem getValue_append {bytes rest : List UInt8} (h : Short (bytes ++ rest)) :
    getValue bytes.length (bytes ++ rest) = (some (leNat bytes), rest) := by
  rw [getValue, h.not_lacks, List.take_left, List.drop_left]
  rfl

theorem getValue_leBytes {n value : ℕ} {rest : List UInt8} (hvalue : value < 256 ^ n)
    (h : Short (leBytes n value ++ rest)) :
    getValue n (leBytes n value ++ rest) = (some value, rest) := by
  have hread := getValue_append h
  rw [leBytes_length, leNat_leBytes_of_lt hvalue] at hread
  exact hread

theorem getAs_bytes {α : Type*} {layout : Layout α} {value : α} {rest : List UInt8}
    (h : Short (layout.bytes value ++ rest)) :
    getAs layout (layout.bytes value ++ rest) = (some value, rest) := by
  have hread := getValue_leBytes (layout.toNat_lt value) h
  rw [getAs, Layout.bytes, hread]
  exact congrArg (fun v => (some v, rest)) (layout.ofNat_toNat value)

theorem getStringOf_append {n : ℕ} {value rest : List UInt8} (hn : value.length < 256 ^ n)
    (h : Short (leBytes n value.length ++ (value ++ rest))) :
    getStringOf n (leBytes n value.length ++ (value ++ rest)) = (some value, rest) := by
  rw [getStringOf, getValue_leBytes hn h]
  dsimp only
  rw [h.right.not_lacks, List.take_left, List.drop_left]
  rfl

theorem getString_addString {value rest : List UInt8} (hlength : value.length < 2 ^ 16)
    (h : Short (addString value ++ rest)) :
    getString (addString value ++ rest) = (some value, rest) := by
  unfold addString addUShort at h ⊢
  dsimp only at h ⊢
  rw [Nat.mod_eq_of_lt hlength, List.take_length, List.append_assoc] at h ⊢
  exact getStringOf_append hlength h

theorem getLString_addLString {value rest : List UInt8} (hlength : value.length < 2 ^ 16)
    (h : Short (addLString value ++ rest)) :
    getLString (addLString value ++ rest) = (some value, rest) := by
  unfold addLString addULong at h ⊢
  dsimp only at h ⊢
  rw [Nat.mod_eq_of_lt hlength, List.take_length, List.append_assoc] at h ⊢
  exact getStringOf_append (Nat.lt_trans hlength (by decide)) h

/-! ## What is left -/

/-- How many times a stream is too long for its size. -/
def turns (s : PropStream) : ℕ := s.length / 2 ^ 31

theorem short_iff_turns {s : PropStream} : s.Short ↔ s.turns = 0 := by
  rw [Short, turns, Nat.div_eq_zero_iff]
  exact ⟨Or.inr, fun h => h.resolve_left (by decide)⟩

/-- What reading numbers can leave of a stream.  It stays too long where it was too long: there is
nothing to read where the size is negative, and the reading stops where it is zero. -/
structure Left (s s' : PropStream) : Prop where
  length_le : s'.length ≤ s.length
  turns_eq : s'.turns = s.turns

theorem Left.refl (s : PropStream) : Left s s := ⟨Nat.le_refl _, rfl⟩

theorem Left.trans {s₁ s₂ s₃ : PropStream} (h₁ : Left s₁ s₂) (h₂ : Left s₂ s₃) : Left s₁ s₃ :=
  ⟨Nat.le_trans h₂.length_le h₁.length_le, h₂.turns_eq.trans h₁.turns_eq⟩

theorem getValue_left {n : ℕ} (hn : n < 2 ^ 31) (s : PropStream) : Left s (getValue n s).2 := by
  rw [getValue]
  cases hlacks : s.lacks n with
  | true => exact .refl s
  | false =>
    rw [lacks] at hlacks
    split at hlacks
    · next hsize =>
      rw [decide_eq_true hn, Bool.and_true] at hlacks
      have henough := of_decide_eq_false hlacks
      constructor
      · exact (List.drop_sublist n s).length_le
      · show (s.drop n).length / 2 ^ 31 = s.length / 2 ^ 31
        rw [List.length_drop]
        omega
    · rw [decide_eq_true hn, Bool.or_true] at hlacks
      exact absurd hlacks (by decide)

theorem getUChar_length_lt {s s' : PropStream} {value : ℕ} (h : getUChar s = (some value, s')) :
    s'.length < s.length := by
  rw [getUChar, getValue] at h
  split at h
  · exact absurd (congrArg Prod.fst h) (Option.some_ne_none value).symm
  · next hlacks =>
    have hdrop : s.drop 1 = s' := congrArg Prod.snd h
    have hpos : s.length ≠ 0 := by
      intro hzero
      apply hlacks
      rw [List.length_eq_zero_iff.mp hzero]
      decide
    rw [← hdrop, List.length_drop]
    omega

theorem getAs_left {α : Type*} {layout : Layout α} (hsize : layout.size < 2 ^ 31)
    (s : PropStream) : Left s (getAs layout s).2 := getValue_left hsize s

end PropStream

end TyanoCore
