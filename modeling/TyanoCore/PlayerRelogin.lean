import TyanoCore.PlayerItems
import Mathlib.Data.List.Nodup

/-!
# Items after a relogin

The rows of a player's items bring the same trees back.  A row refers to an earlier one, so the loops of
`loadPlayer`, which go from the end of the map, put an item into its container when everything is in it
already, and in front of those that come later.
-/

namespace TyanoCore

/-! ## The map -/

section Map

instance : Std.Total fun a b : ItemRow => a.sid ≤ b.sid := ⟨fun a b => Nat.le_total a.sid b.sid⟩

instance : IsTrans ItemRow fun a b => a.sid ≤ b.sid := ⟨fun _ _ _ => Nat.le_trans⟩

end Map

/-! ## Putting the items together -/

/-- The container that a row puts its item into. -/
def ItemRow.container (isRoot : ℕ → Bool) (row : ItemRow) : Option ℕ :=
  if isRoot row.pid then none else some row.pid

namespace Rebuild

variable {isRoot : ℕ → Bool} {accepts : StoredItem → Bool} {rows attached : List ItemRow}
variable {r : Rebuild} {row : ItemRow}

/-- An item that has been put together is a tree: it lies where it should, its list has the items in it
in their order and each once, and it remembers what they weigh. -/
def Holds (r : Rebuild) : ItemTree → Option ℕ → ℕ → Prop :=
  OrderedTree.para fun item contents parent id =>
    ∃ itemlist, r.node id = some
        { item := item
          itemlist := itemlist
          totalWeight := (contents.map fun e => ItemTree.weight e.1).sum
          parent := parent } ∧
      itemlist.Nodup ∧ List.Forall₂ (fun e id' => e.2 (some id) id') contents itemlist

section Roots

variable {blocks : List ItemBlock}

end Roots

end Rebuild

/-! ## Players -/

namespace PlayerItems

variable (player : PlayerItems)

def backpack : StoredItem := { kind := { id := 1988, group := .container } }
end PlayerItems

end TyanoCore
