import Mathlib.Data.List.Sort
import TyanoCore.Within

/-!
# Money

`Game::getMoney`, `Game::removeMoney` and `Game::addMoney`.  A coin is an item that is no container
and is worth something.  A worth is a number of 64 bits; the division by a worth of zero is `none`.
-/

namespace TyanoCore

variable (srv : Server) (w : World)

/-! ## Gathering the coins -/

def World.coinsOf (items : List ItemId) : List ItemId :=
  items.filter fun i => !(w.item i).isContainer && 0 < (w.item i).getWorth

/-- The loop over `listContainer`. -/
def Game.nestedCoins : ℕ → List ItemId → List ItemId
  | 0, _ => []
  | _, [] => []
  | n + 1, container :: listContainer =>
    let items := (w.item container).itemlist
    w.coinsOf items ++ Game.nestedCoins n (listContainer ++ w.containersOf items)

/-- The coins in a cylinder, in the order in which the two loops meet them. -/
def Game.coins (cylinder : Cylinder) : List ItemId :=
  let things := w.things cylinder
  w.coinsOf things ++ Game.nestedCoins w w.next (w.containersOf things)

def Game.moneyCount (cylinder : Cylinder) : ℕ :=
  ((Game.coins w cylinder).map fun i => (w.item i).getWorth).sum % 2 ^ 64

def Game.getMoney (cylinder : Option Cylinder) : ℕ :=
  match cylinder with
  | none => 0
  | some cylinder => Game.moneyCount w cylinder

/-! ## Handing out money -/

/-- One round of the inner loop of `Game::addMoney`. -/
def Game.addStack (cylinder : Cylinder) (kindId : KindId) (flags : CylinderFlags) (count : ℕ) :
    World :=
  match Item.createItem srv w kindId count with
  | none => w
  | some (w, remaindItem) =>
    let (w, ret) :=
      Game.internalAddItem srv w (some cylinder) (some remaindItem) (-1) flags false
    if ret = .noError then w
    else
      let tile := (w.getTile srv.loopBound cylinder).map Cylinder.tile
      (Game.internalAddItem srv w tile (some remaindItem) (-1) { noLimit := true } false).1

/-- The inner loop of `Game::addMoney`, `tmp` coins of one kind; every round takes some. -/
def Game.addStacks (cylinder : Cylinder) (kindId : KindId) (flags : CylinderFlags) :
    ℕ → World → ℕ → World
  | 0, w, _ => w
  | n + 1, w, tmp =>
    if tmp = 0 then w
    else
      let count := min 100 tmp
      Game.addStacks cylinder kindId flags n (Game.addStack srv w cylinder kindId flags count)
        (tmp - count)

/-- The outer loop of `Game::addMoney`. -/
def Game.addCoins (cylinder : Cylinder) (flags : CylinderFlags) :
    List (ℕ × KindId) → World → ℕ → Option World
  | [], w, _ => some w
  | (worth, kindId) :: moneyMap, w, money =>
    if worth = 0 then none
    else
      let tmp := money / worth
      Game.addCoins cylinder flags moneyMap (Game.addStacks srv cylinder kindId flags tmp w tmp)
        (money - tmp * worth)

def Game.addMoney (cylinder : Cylinder) (money : ℕ) (flags : CylinderFlags) : Option World :=
  Game.addCoins srv cylinder flags srv.items.worth.reverse w money

/-! ## Taking money -/

/-- The multimap of the coins by their worth; equal worths stay in the order of insertion. -/
def Game.moneyMap (cylinder : Cylinder) : List (ℕ × ItemId) :=
  ((Game.coins w cylinder).map fun i => ((w.item i).getWorth, i)).insertionSort
    fun a b => a.1 ≤ b.1

/-- The loop of `Game::removeMoney` over the multimap; also what is left to pay. -/
def Game.payCoins (cylinder : Cylinder) (flags : CylinderFlags) :
    List (ℕ × ItemId) → World → ℕ → Option (World × ℕ)
  | [], w, money => some (w, money)
  | (worth, item) :: moneyMap, w, money =>
    if money = 0 then some (w, 0)
    else
      let w := (Game.internalRemoveItem srv w item none false {}).1
      if money < worth then
        (Game.addMoney srv w cylinder (worth - money) flags).map fun w => (w, 0)
      else Game.payCoins cylinder flags moneyMap w (money - worth)

/-- `Game::removeMoney`; the amount is compared in 32 bits. -/
def Game.removeMoney (cylinder : Option Cylinder) (money : ℕ) (flags : CylinderFlags) :
    Option (World × Bool) :=
  match cylinder with
  | none => some (w, false)
  | some cylinder =>
    if money = 0 then some (w, true)
    else if Game.moneyCount w cylinder < money % 2 ^ 32 then some (w, false)
    else
      (Game.payCoins srv cylinder flags (Game.moneyMap w cylinder) w money).map
        fun (w, money) => (w, money = 0)

end TyanoCore
