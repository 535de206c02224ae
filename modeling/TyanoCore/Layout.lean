import TyanoCore.Bytes

/-!
# Layouts of fixed size

How a value of a type lies in memory: as a number of so many bytes, the least significant byte first.
Structures are laid out field behind field.
-/

namespace Bytes

/-- A layout of a type; what has been laid out can be told from its number. -/
structure Layout (α : Type*) where
  size : ℕ
  toNat : α → ℕ
  ofNat : ℕ → α
  toNat_lt : ∀ a, toNat a < 256 ^ size
  ofNat_toNat : ∀ a, ofNat (toNat a) = a

namespace Layout

variable {α β : Type*}

/-- A number of `n` bytes. -/
def word (n : ℕ) : Layout (BitVec (8 * n)) where
  size := n
  toNat := BitVec.toNat
  ofNat := BitVec.ofNat (8 * n)
  toNat_lt a := by
    have hlt := a.isLt
    rw [Nat.pow_mul] at hlt
    exact hlt
  ofNat_toNat a := by rw [BitVec.ofNat_toNat, BitVec.setWidth_eq]

/-- A byte that is zero or not. -/
def bool : Layout Bool where
  size := 1
  toNat b := b.toNat
  ofNat n := n ≠ 0
  toNat_lt b := Nat.lt_of_le_of_lt (Bool.toNat_le b) (by decide)
  ofNat_toNat b := by cases b <;> decide

/-- One value behind another. -/
def pair (first : Layout α) (second : Layout β) : Layout (α × β) where
  size := first.size + second.size
  toNat p := first.toNat p.1 + 256 ^ first.size * second.toNat p.2
  ofNat n := (first.ofNat (n % 256 ^ first.size), second.ofNat (n / 256 ^ first.size))
  toNat_lt p := by
    have hfirst := first.toNat_lt p.1
    have hsecond := second.toNat_lt p.2
    calc
      first.toNat p.1 + 256 ^ first.size * second.toNat p.2
          < 256 ^ first.size + 256 ^ first.size * second.toNat p.2 := by
            apply Nat.add_lt_add_right hfirst
      _ = 256 ^ first.size * (second.toNat p.2 + 1) := by rw [Nat.mul_add, Nat.mul_one, Nat.add_comm]
      _ ≤ 256 ^ first.size * 256 ^ second.size := Nat.mul_le_mul_left _ hsecond
      _ = 256 ^ (first.size + second.size) := (Nat.pow_add _ _ _).symm
  ofNat_toNat p := by
    have hfirst := first.toNat_lt p.1
    have hpos : 0 < 256 ^ first.size := Nat.pow_pos (by decide)
    have hmod : (first.toNat p.1 + 256 ^ first.size * second.toNat p.2) % 256 ^ first.size =
        first.toNat p.1 := by
      rw [Nat.add_mul_mod_self_left, Nat.mod_eq_of_lt hfirst]
    have hdiv : (first.toNat p.1 + 256 ^ first.size * second.toNat p.2) / 256 ^ first.size =
        second.toNat p.2 := by
      rw [Nat.add_mul_div_left _ _ hpos, Nat.div_eq_of_lt hfirst, Nat.zero_add]
    rw [hmod, hdiv, first.ofNat_toNat, second.ofNat_toNat]

/-- The layout of a structure is that of its fields. -/
def fields (layout : Layout β) (f : α → β) (g : β → α) (h : ∀ a, g (f a) = a) : Layout α where
  size := layout.size
  toNat a := layout.toNat (f a)
  ofNat n := g (layout.ofNat n)
  toNat_lt a := layout.toNat_lt (f a)
  ofNat_toNat a := by rw [layout.ofNat_toNat, h]

/-- The bytes of a value. -/
def bytes (layout : Layout α) (a : α) : List UInt8 := leBytes layout.size (layout.toNat a)

@[simp] theorem bytes_length (layout : Layout α) (a : α) :
    (layout.bytes a).length = layout.size := leBytes_length _ _

end Layout

end Bytes
