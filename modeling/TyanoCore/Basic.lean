import Mathlib.Algebra.Order.Ring.Int

/-!
# Identifiers

Objects of the server are referred to by number: a number stands for the pointer to the object.
-/

namespace TyanoCore

abbrev PlayerId := ℕ
abbrev PartyId := ℕ
abbrev ItemId := ℕ
abbrev CreatureId := ℕ

end TyanoCore
