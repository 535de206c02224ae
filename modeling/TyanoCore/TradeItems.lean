import TyanoCore.TradeMove

/-!
# Traded items change hands

The end of `Game::playerAcceptTrade`: four tests, and if they agree two moves.  The tests leave out
whether the items may be moved at all, which the moves do ask.
-/

namespace TyanoCore

section

variable (srv : Server) (w : World)

def World.setTradeItem (p : PlayerId) (i : Option ItemId) : World :=
  w.setPlayer p { w.player p with tradeItem := i }

/-- Whether both players have room for what they get, and both items can be removed. -/
def Game.testTrade (player tradePartner : PlayerId) (tradeItem1 tradeItem2 : ItemId) : Bool :=
  (Game.internalAddItem srv w (some (.player tradePartner)) (some tradeItem1) (-1) {} true).2 =
      .noError
    && (Game.internalAddItem srv w (some (.player player)) (some tradeItem2) (-1) {} true).2 =
      .noError
    && (Game.internalRemoveItem srv w tradeItem1 (some (w.item tradeItem1).count) true {}).2 =
      .noError
    && (Game.internalRemoveItem srv w tradeItem2 (some (w.item tradeItem2).count) true {}).2 =
      .noError

/-- The two moves; what they return is not looked at. -/
def Game.moveTradeItems (player tradePartner : PlayerId) (tradeItem1 tradeItem2 : ItemId) :
    Option World := do
  let cylinder1 ← (w.item tradeItem1).parent
  let cylinder2 ← (w.item tradeItem2).parent
  let (w, _) ← Game.internalMoveItem srv w cylinder1 (some (.player tradePartner)) (-1) tradeItem1
    (w.item tradeItem1).count {}
  let (w, _) ← Game.internalMoveItem srv w cylinder2 (some (.player player)) (-1) tradeItem2
    (w.item tradeItem2).count {}
  return w

/-- What `Game::playerAcceptTrade` does with the items once both players have accepted, and whether
it was a success.  Null trade items are used as objects by both outcomes. -/
def Game.acceptTradeItems (player tradePartner : PlayerId) : Option (World × Bool) := do
  let tradeItem1 ← (w.player player).tradeItem
  let tradeItem2 ← (w.player tradePartner).tradeItem
  let isSuccess := Game.testTrade srv w player tradePartner tradeItem1 tradeItem2
  let w ← if isSuccess then Game.moveTradeItems srv w player tradePartner tradeItem1 tradeItem2
    else some w
  return ((w.setTradeItem player none).setTradeItem tradePartner none, isSuccess)

end

/-! ## What the players can expect -/

/-- An item has left its place and has come, as a whole, to a player. -/
structure World.ChangedHands (w w' : World) (i : ItemId) (q : PlayerId) : Prop where
  left : (w'.item i).parent ≠ (w.item i).parent
  arrived : ∃ y, (y = i ∨ (w.item i).isStackable = true ∧ w.next ≤ y) ∧ w'.Within (.player q) y ∧
    (w'.item y).kind = (w.item i).kind ∧ (w'.item y).count = (w.item i).count

/-- An item is where it was. -/
structure World.Untouched (w w' : World) (i : ItemId) : Prop where
  parent : (w'.item i).parent = (w.item i).parent
  core : (w'.item i).core = (w.item i).core

/-- Both items have changed hands, or both are where they were. -/
def World.TradeAtomic (w w' : World) (p q : PlayerId) (i₁ i₂ : ItemId) : Prop :=
  w.ChangedHands w' i₁ q ∧ w.ChangedHands w' i₂ p ∨ w.Untouched w' i₁ ∧ w.Untouched w' i₂

/-- A player carries an item, or it lies on a tile. -/
def World.HeldBy (w : World) (p : PlayerId) (i : ItemId) : Prop :=
  w.Within (.player p) i ∨ ∃ t, w.Within (.tile t) i

/-- Two players in the middle of a trade. -/
structure Trading (srv : Server) (w : World) (p q : PlayerId) (i₁ i₂ : ItemId) : Prop where
  forest : Forest srv w
  acyclic : w.Acyclic
  /-- The loops over parents are followed to their ends, also once a new stack is there. -/
  bound : w.next + 1 < srv.loopBound
  sizes : w.SizesFit
  standing : w.Standing
  players : p ≠ q
  offer₁ : (w.player p).tradeItem = some i₁
  offer₂ : (w.player q).tradeItem = some i₂
  distinct : i₁ ≠ i₂
  apart₁ : ¬ w.Within (.container i₁) i₂
  apart₂ : ¬ w.Within (.container i₂) i₁
  held₁ : w.HeldBy p i₁
  held₂ : w.HeldBy q i₂
  weight : 0 ≤ w.getWeight i₁
  load : w.inventoryWeight p = w.carriedWeight p

variable {srv : Server} {w w' : World} {p q : PlayerId} {i i₁ i₂ : ItemId}

/-! ## Who carries what -/

/-- An item lies within one outermost cylinder only. -/
theorem World.Within.outermost_unique {c c' : Cylinder} (hc : ∀ j, c ≠ .container j)
    (hc' : ∀ j, c' ≠ .container j) (h : w.Within c i) (h' : w.Within c' i) : c = c' := by
  induction h with
  | thing h =>
    cases h' with
    | thing h' => exact Option.some.inj (h.symm.trans h')
    | nested h' _ => exact absurd (Option.some.inj (h.symm.trans h')) (hc _)
  | nested h _ ih =>
    cases h' with
    | thing h' => exact absurd (Option.some.inj (h'.symm.trans h)) (hc' _)
    | nested h' hj =>
      rw [h] at h'
      cases h'
      exact ih hj

theorem World.HeldBy.eq (h : w.HeldBy p i) (hq : w.Within (.player q) i) : p = q := by
  rcases h with h | ⟨t, h⟩
  · exact Cylinder.player.inj (h.outermost_unique (by simp) (by simp) hq)
  · cases h.outermost_unique (by simp) (by simp) hq

theorem World.HeldBy.parent (h : w.HeldBy p i) : ∃ c, (w.item i).parent = some c := by
  rcases h with h | ⟨t, h⟩
  · exact Option.ne_none_iff_exists'.mp h.parent_ne
  · exact Option.ne_none_iff_exists'.mp h.parent_ne

/-- What is not around the item lies within the same cylinders as before. -/
theorem Handed.within_iff (hw : Forest srv w) {place : Option Cylinder}
    (h : Handed w w' i place) {c : Cylinder} {x : ItemId} (hlt : x < w.next) (hx : ¬ w.Around x i) :
    w'.Within c x ↔ w.Within c x := by
  have hstep {x : ItemId} (hlt : x < w.next) (hx : ¬ w.Around x i) :
      (w'.item x).parent = (w.item x).parent := h.parent x hlt fun heq => hx (.inl heq.symm)
  have hup {x y : ItemId} (hx : ¬ w.Around x i) (hy : (w.item x).parent = some (.container y)) :
      ¬ w.Around y i := fun haround => hx (.inr (haround.up hy))
  constructor
  · intro hin
    induction hin with
    | thing hin => exact .thing ((hstep hlt hx).symm.trans hin)
    | nested hin _ ih =>
      have hy := (hstep hlt hx).symm.trans hin
      exact .nested hy (ih (hw.container _ _ hy).2 (hup hx hy))
  · intro hin
    induction hin with
    | thing hin => exact .thing ((hstep hlt hx).trans hin)
    | nested hin _ ih =>
      exact .nested ((hstep hlt hx).trans hin) (ih (hw.container _ _ hin).2 (hup hx hin))

/-! ## One item changes hands -/

/-- The place a player has for an item is his, and what comes there is his too. -/
theorem Transferred.place (hw : Forest srv w) (hacyclic : w.Acyclic)
    (hbound : w.next < srv.loopBound) {d : Destination} (htakes : Player.Takes srv w q i d)
    (h : Transferred srv w w' i d.cylinder) : w.Place (.player q) d.cylinder ∧
      ∀ y, (w'.item y).parent = some d.cylinder → w'.Within (.player q) y := by
  cases hc : d.cylinder with
  | container k =>
    obtain ⟨hopens, hk, hnot⟩ := htakes.container hw hacyclic hbound hc
    have hin := (hopens.within hw.toConsistent).1
    have hin' : w'.Within (.player q) k := (h.handed.within_iff hw hk.2 hnot).mpr hin
    exact ⟨.inr ⟨k, rfl, hin⟩, fun y hy => .nested hy hin'⟩
  | player r =>
    rcases htakes.place with ⟨s, -, hr, -, -⟩ | ⟨k, hk, -, -, -⟩
    · rw [hc] at hr
      cases hr
      exact ⟨.inl rfl, fun y hy => .thing hy⟩
    · rw [hc] at hk
      cases hk
  | tile t =>
    rcases htakes.place with ⟨s, -, hr, -, -⟩ | ⟨k, hk, -, -, -⟩
    · rw [hc] at hr
      cases hr
    · rw [hc] at hk
      cases hk

theorem Transferred.parent_ne (hw : Forest srv w) (hacyclic : w.Acyclic)
    (hbound : w.next < srv.loopBound) {d : Destination} (htakes : Player.Takes srv w q i d)
    (h : Transferred srv w w' i d.cylinder) (hi : (w.item i).parent ≠ none)
    (hforeign : ¬ w.Within (.player q) i) : (w'.item i).parent ≠ (w.item i).parent := by
  intro heq
  rcases h.left with hleft | hleft
  · exact hi (heq.symm.trans hleft)
  · have hplace := (h.place hw hacyclic hbound htakes).1
    exact hforeign (within_iff_place.mpr ⟨d.cylinder, heq.symm.trans hleft, hplace⟩)

/-- A player has what has come to the place he had for it. -/
theorem Transferred.changedHands (hw : Forest srv w) (hacyclic : w.Acyclic)
    (hbound : w.next < srv.loopBound) {d : Destination} (htakes : Player.Takes srv w q i d)
    (h : Transferred srv w w' i d.cylinder) (hi : (w.item i).parent ≠ none)
    (hforeign : ¬ w.Within (.player q) i) : w.ChangedHands w' i q := by
  obtain ⟨y, hy, hparent, hkind, hcount⟩ := h.arrived
  have hin := (h.place hw hacyclic hbound htakes).2 y hparent
  exact ⟨h.parent_ne hw hacyclic hbound htakes hi hforeign, y, hy, hin, hkind, hcount⟩

/-- Another item that is moved afterwards, which is not around the place, does not take it away. -/
theorem Transferred.changedHands_after (hw : Forest srv w) (hacyclic : w.Acyclic)
    (hbound : w.next < srv.loopBound) {d : Destination} (htakes : Player.Takes srv w q i d)
    (h : Transferred srv w w' i d.cylinder) (hi : (w.item i).parent ≠ none)
    (hforeign : ¬ w.Within (.player q) i) {j : ItemId} (hij : i ≠ j) (hlt : i < w.next)
    (hj : j < w.next) (hopens : ∀ k, Player.Opens w q k → ¬ w.Around k j) {w'' : World}
    {place : Option Cylinder} (hhanded : Handed w' w'' j place) : w.ChangedHands w'' i q := by
  obtain ⟨y, hy, hparent, hkind, hcount⟩ := h.arrived
  have hin := (h.place hw hacyclic hbound htakes).2 y hparent
  have hylt := h.forest.lt_next y _ hparent
  have hyj : y ≠ j := by
    rcases hy with rfl | ⟨-, hy⟩
    · exact hij
    · exact (lt_of_lt_of_le hj hy).ne'
  have hnot : ¬ w'.Around y j := by
    rintro (heq | hwithin)
    · exact hyj heq.symm
    -- above the item comes the place, which the other item is not around
    cases hwithin with
    | thing hj' =>
      rw [hparent] at hj'
      obtain ⟨hk, -, -⟩ := htakes.container hw hacyclic hbound (Option.some.inj hj')
      exact hopens j hk (.inl rfl)
    | @nested _ k hk hjk =>
      rw [hparent] at hk
      obtain ⟨hk', hkc, hki⟩ := htakes.container hw hacyclic hbound (Option.some.inj hk)
      exact hopens k hk' (.inr ((h.handed.within_iff hw hkc.2 hki).mp hjk))
  have hcore := hhanded.core y hylt
  refine ⟨?_, y, hy, (hhanded.within_iff h.forest hylt hnot).mpr hin,
    (Item.core_kind hcore).trans hkind, (Item.core_count hcore).trans hcount⟩
  rw [hhanded.parent i (lt_of_lt_of_le hlt h.handed.next) hij]
  exact h.parent_ne hw hacyclic hbound htakes hi hforeign

/-! ## What the first move leaves to the second -/

theorem sum_filter_le {l : List ItemId} {f g : ItemId → ℤ} (hi : 0 ≤ f i)
    (h : ∀ x ∈ l, x ≠ i → g x ≤ f x) : ((l.filter (· ≠ i)).map g).sum ≤ (l.map f).sum := by
  induction l with
  | nil => exact le_rfl
  | cons x l ih =>
    have hrest := ih fun x hx => h x (List.mem_cons_of_mem _ hx)
    by_cases hx : x = i
    · subst hx
      rw [List.filter_cons_of_neg (by simp), List.map_cons, List.sum_cons]
      omega
    · have hself := h x List.mem_cons_self hx
      rw [List.filter_cons_of_pos (by simpa using hx), List.map_cons, List.map_cons, List.sum_cons,
        List.sum_cons]
      omega

/-- The player who gives an item away has no less room for another one. -/
theorem Trading.lightened (h : Trading srv w p q i₁ i₂) {d : Destination}
    (htakes : Player.Takes srv w q i₁ d) (hmoved : Transferred srv w w' i₁ d.cylinder) :
    Lightened w w' p i₁ := by
  have hbound := Nat.lt_of_succ_lt h.bound
  have hforest := h.forest
  have hcontainer {k : ItemId} (hk : d.cylinder = .container k) :
      w.Within (.player q) k ∧ Player.Opens w q k := by
    obtain ⟨hopens, -, -⟩ := htakes.container hforest h.acyclic hbound hk
    exact ⟨(hopens.within hforest.toConsistent).1, hopens⟩
  have hother {k : ItemId} (hk : w.Within (.player p) k) : d.cylinder ≠ .container k := by
    intro heq
    exact h.players (Cylinder.player.inj (hk.outermost_unique (by simp) (by simp)
      (hcontainer heq).1))
  have hslot : ∀ s ∈ slots, (w'.player p).inventory s =
      ((w.player p).inventory s).filter (· ≠ i₁) := by
    refine hmoved.handed.slot p fun heq => ?_
    have hplace := (hmoved.place hforest h.acyclic hbound htakes).1
    rw [Option.some.inj heq] at hplace
    rcases hplace with hpq | ⟨k, hk, -⟩
    · exact h.players (Cylinder.player.inj hpq)
    · cases hk
  refine ⟨fun j hj _ => hmoved.handed.core j hj, hmoved.handed.parent, hmoved.handed.player, hslot,
    fun j hj => ?_, fun hinf => ?_⟩
  · obtain ⟨place, hplace, -⟩ := hj.place
    exact hmoved.handed.itemlist j (hforest.lt_next j place hplace) fun heq =>
      hother hj (Option.some.inj heq)
  · rcases hmoved.inventoryWeight p with hsame | hcounted
    · exact hsame.le
    -- what is counted anew is no more than what was remembered
    obtain ⟨inventory, hplayer⟩ := hmoved.handed.player p
    have hinf' : (w'.player p).hasInfiniteCapacity = false := by
      rw [hplayer]
      exact hinf
    rw [hcounted, h.load, carriedWeight_eq, carriedWeight_eq, hinf, hinf', things_of_slots hslot]
    refine sum_filter_le h.weight fun x hx _ => ?_
    have hparent := (hforest.mem_things (.player p) x).mp hx
    have hlt := hforest.lt_next x _ hparent
    have hcore := hmoved.handed.core x hlt
    have htotal : w'.totalWeight x ≤ w.totalWeight x := by
      refine hmoved.lighter h.weight x hlt fun k hk haround => ?_
      rcases haround with rfl | hin
      · exact hother (.thing hparent) hk
      · exact hother (hin.trans (.thing hparent)) hk
    unfold World.getWeight Item.isStackable
    rw [Item.core_kind hcore, Item.core_count hcore, Item.core_isContainer hcore]
    refine Int.add_le_add_left ?_ _
    split
    · exact htotal
    · exact le_rfl

/-- The other item weighs what it weighed. -/
theorem Trading.getWeight (h : Trading srv w p q i₁ i₂) {d : Destination}
    (htakes : Player.Takes srv w q i₁ d) (hmoved : Transferred srv w w' i₁ d.cylinder) :
    w'.getWeight i₂ = w.getWeight i₂ := by
  have hbound := Nat.lt_of_succ_lt h.bound
  obtain ⟨c, hc⟩ := h.held₂.parent
  have hlt := h.forest.lt_next i₂ c hc
  have hcore := hmoved.handed.core i₂ hlt
  have htotal : w'.totalWeight i₂ = w.totalWeight i₂ := by
    refine hmoved.kept i₂ hlt (fun k hk haround => h.apart₂ (haround.up hk)) fun k hk => ?_
    obtain ⟨hopens, -, -⟩ := htakes.container h.forest h.acyclic hbound hk
    exact hopens.not_around h.forest.toConsistent h.offer₂
  unfold World.getWeight Item.isStackable
  rw [Item.core_kind hcore, Item.core_count hcore, Item.core_isContainer hcore, htotal]

/-- What the test promised the first player he gets also after the first move. -/
theorem Trading.takes (h : Trading srv w p q i₁ i₂)
    (hscripts : ∀ a r j slot, srv.onPlayerEquip a r j slot = true) {d : Destination}
    (htakes : Player.Takes srv w q i₁ d) (hmoved : Transferred srv w w' i₁ d.cylinder)
    (htest : (Player.findSlot srv w p i₂).isSome = true ∨
      (Player.findContainer srv w p i₂).isSome = true) : ∃ d', Player.Takes srv w' p i₂ d' := by
  have hnested := h.forest.nested h.acyclic
  have hlight := h.lightened htakes hmoved
  have hweight := h.getWeight htakes hmoved
  obtain ⟨c, hc⟩ := h.held₂.parent
  have hlt := h.forest.lt_next i₂ c hc
  have hshallow : w.Shallow srv.loopBound := by
    obtain ⟨rank, hrank, hless⟩ := hnested.shallow (Nat.zero_lt_of_lt hlt)
    exact ⟨rank, hrank, fun x => (hless x).trans (Nat.lt_of_succ_lt h.bound)⟩
  have hitem : ¬ w.Around i₂ i₁ := by
    rintro (heq | hin)
    · exact h.distinct heq
    · exact h.apart₁ hin
  apply Player.exists_takes
  rcases htest with hslot | hcontainer
  · exact .inl (hlight.findSlot h.forest hnested hscripts hlt hitem hweight hslot)
  · exact .inr (hlight.findContainer h.forest hnested hshallow h.standing h.offer₁ hlt hitem
      hweight hcontainer)

/-! ## The trade -/

theorem testTrade_eq_true (h : Trading srv w p q i₁ i₂)
    (htest : Game.testTrade srv w p q i₁ i₂ = true) :
    (∃ d, Player.Takes srv w q i₁ d) ∧ ((Player.findSlot srv w p i₂).isSome = true ∨
      (Player.findContainer srv w p i₂).isSome = true) := by
  obtain ⟨c₁, hc₁⟩ := h.held₁.parent
  obtain ⟨c₂, hc₂⟩ := h.held₂.parent
  simp only [Game.testTrade, Bool.and_eq_true, decide_eq_true_eq] at htest
  obtain ⟨⟨⟨hadd₁, hadd₂⟩, -⟩, -⟩ := htest
  rw [internalAddItem_test (h.forest.inOrder i₁ c₁ hc₁) h.sizes] at hadd₁
  rw [internalAddItem_test (h.forest.inOrder i₂ c₂ hc₂) h.sizes] at hadd₂
  exact ⟨Player.exists_takes hadd₁, hadd₂⟩

theorem World.TradeAtomic.congr {w'' : World} (hitem : w''.item = w'.item)
    (h : w.TradeAtomic w' p q i₁ i₂) : w.TradeAtomic w'' p q i₁ i₂ := by
  have hchanged {i : ItemId} {r : PlayerId} (h : w.ChangedHands w' i r) :
      w.ChangedHands w'' i r := by
    obtain ⟨y, hy, hin, hkind, hcount⟩ := h.arrived
    refine ⟨?_, y, hy, hin.of_parents fun k => by rw [hitem], ?_, ?_⟩
    · rw [hitem]
      exact h.left
    · rw [hitem]
      exact hkind
    · rw [hitem]
      exact hcount
  have huntouched {i : ItemId} (h : w.Untouched w' i) : w.Untouched w'' i := by
    constructor
    · rw [hitem]
      exact h.parent
    · rw [hitem]
      exact h.core
  exact h.imp (fun h => ⟨hchanged h.1, hchanged h.2⟩) fun h => ⟨huntouched h.1, huntouched h.2⟩

/-- If all tests agree, the moves are atomic if both items may be moved, or neither. -/
theorem moveTradeItems_atomic_iff (hsrv : srv.Ordinary)
    (hscripts : ∀ a r j slot, srv.onPlayerEquip a r j slot = true)
    (h : Trading srv w p q i₁ i₂) (htest : Game.testTrade srv w p q i₁ i₂ = true) :
    ∃ w', Game.moveTradeItems srv w p q i₁ i₂ = some w' ∧
      (w.TradeAtomic w' p q i₁ i₂ ↔ (w.item i₁).kind.moveable = (w.item i₂).kind.moveable) := by
  obtain ⟨⟨d₁, htakes₁⟩, hfound₂⟩ := testTrade_eq_true h htest
  obtain ⟨d₂, htakes₂⟩ := Player.exists_takes hfound₂
  obtain ⟨c₁, hc₁⟩ := h.held₁.parent
  obtain ⟨c₂, hc₂⟩ := h.held₂.parent
  have hbound := Nat.lt_of_succ_lt h.bound
  have hlt₁ := h.forest.lt_next i₁ c₁ hc₁
  have hlt₂ := h.forest.lt_next i₂ c₂ hc₂
  have hplaced₁ : (w.item i₁).parent ≠ none := by simp [hc₁]
  have hplaced₂ : (w.item i₂).parent ≠ none := by simp [hc₂]
  have hforeign₁ : ¬ w.Within (.player q) i₁ := fun hin => h.players (h.held₁.eq hin)
  have hforeign₂ : ¬ w.Within (.player p) i₂ := fun hin => h.players (h.held₂.eq hin).symm
  obtain ⟨hmoves₁, hrefuses₁⟩ := internalMoveItem_takes hsrv h.forest h.acyclic hbound h.sizes hc₁
    htakes₁
  have huntouched {i : ItemId} {r : PlayerId} {w' : World} (hc : w.ChangedHands w' i r) :
      ¬ w.Untouched w' i := fun hu => hc.left hu.parent
  unfold Game.moveTradeItems
  simp only [hc₁, hc₂, Option.bind_eq_bind, Option.bind_some, Option.pure_def]
  cases hmoveable₁ : (w.item i₁).kind.moveable with
  | false =>
    obtain ⟨ret, hret⟩ := hrefuses₁ hmoveable₁
    obtain ⟨hmoves₂, hrefuses₂⟩ := internalMoveItem_takes hsrv h.forest h.acyclic hbound h.sizes
      hc₂ htakes₂
    simp only [hret, Option.bind_some]
    have hstays : w.Untouched w i₁ := ⟨rfl, rfl⟩
    cases hmoveable₂ : (w.item i₂).kind.moveable with
    | false =>
      obtain ⟨ret₂, hret₂⟩ := hrefuses₂ hmoveable₂
      rw [hret₂]
      exact ⟨w, rfl, iff_of_true (.inr ⟨hstays, rfl, rfl⟩) rfl⟩
    | true =>
      -- the first item stays and the second one goes
      obtain ⟨w', hw', hmoved⟩ := hmoves₂ hmoveable₂
      have hchanged := hmoved.changedHands h.forest h.acyclic hbound htakes₂ hplaced₂ hforeign₂
      have hstays' : (w'.item i₁).parent = (w.item i₁).parent :=
        hmoved.handed.parent i₁ hlt₁ h.distinct
      rw [hw']
      refine ⟨w', rfl, iff_of_false ?_ (by simp)⟩
      rintro (⟨hchanged₁, -⟩ | ⟨-, hstays₂⟩)
      · exact hchanged₁.left hstays'
      · exact huntouched hchanged hstays₂
  | true =>
    obtain ⟨w₁, hw₁, hmoved₁⟩ := hmoves₁ hmoveable₁
    have hcore₂ := hmoved₁.handed.core i₂ hlt₂
    have hparent₂ := hmoved₁.handed.parent i₂ hlt₂ h.distinct.symm
    obtain ⟨d₂', htakes₂'⟩ := h.takes hscripts htakes₁ hmoved₁ hfound₂
    have hbound₁ : w₁.next < srv.loopBound := lt_of_le_of_lt hmoved₁.next h.bound
    obtain ⟨hmoves₂, hrefuses₂⟩ := internalMoveItem_takes hsrv hmoved₁.forest hmoved₁.acyclic hbound₁
      (hmoved₁.sizes h.sizes) (hparent₂.trans hc₂) htakes₂'
    rw [Item.core_kind hcore₂] at hmoves₂ hrefuses₂
    simp only [hw₁, Option.bind_some]
    cases hmoveable₂ : (w.item i₂).kind.moveable with
    | false =>
      -- the first item is gone and the second one stays
      obtain ⟨ret₂, hret₂⟩ := hrefuses₂ hmoveable₂
      have hchanged := hmoved₁.changedHands h.forest h.acyclic hbound htakes₁ hplaced₁ hforeign₁
      rw [hret₂]
      refine ⟨w₁, rfl, iff_of_false ?_ (by simp)⟩
      rintro (⟨-, hchanged₂⟩ | ⟨hstays₁, -⟩)
      · exact hchanged₂.left hparent₂
      · exact huntouched hchanged hstays₁
    | true =>
      obtain ⟨w₂, hw₂, hmoved₂⟩ := hmoves₂ hmoveable₂
      have hopens (k : ItemId) (hk : Player.Opens w q k) : ¬ w.Around k i₂ :=
        hk.not_around h.forest.toConsistent h.offer₂
      have hchanged₁ := hmoved₁.changedHands_after h.forest h.acyclic hbound htakes₁ hplaced₁
        hforeign₁ h.distinct hlt₁ hlt₂ hopens hmoved₂.handed
      have happart : ¬ w.Around i₂ i₁ := by
        rintro (heq | hin)
        · exact h.distinct heq
        · exact h.apart₁ hin
      have hforeign₂' : ¬ w₁.Within (.player p) i₂ := fun hin =>
        hforeign₂ ((hmoved₁.handed.within_iff h.forest hlt₂ happart).mp hin)
      have hchanged₂ := hmoved₂.changedHands hmoved₁.forest hmoved₁.acyclic hbound₁ htakes₂'
        (by rw [hparent₂]; exact hplaced₂) hforeign₂'
      obtain ⟨y, hy, hin, hkind, hcount⟩ := hchanged₂.arrived
      rw [hw₂]
      refine ⟨w₂, rfl, iff_of_true (.inl ⟨hchanged₁, ?_, y, ?_, hin, ?_, ?_⟩) rfl⟩
      · rw [← hparent₂]
        exact hchanged₂.left
      · refine hy.imp_right fun hy => ⟨?_, hmoved₁.handed.next.trans hy.2⟩
        rw [← Item.core_isStackable hcore₂]
        exact hy.1
      · exact hkind.trans (Item.core_kind hcore₂)
      · exact hcount.trans (Item.core_count hcore₂)

/-- A trade moves both items or neither, unless all tests agree and exactly one of the items may not
be moved. -/
theorem acceptTradeItems_atomic_iff (hsrv : srv.Ordinary)
    (hscripts : ∀ a r j slot, srv.onPlayerEquip a r j slot = true)
    (h : Trading srv w p q i₁ i₂) :
    ∃ w' isSuccess, Game.acceptTradeItems srv w p q = some (w', isSuccess) ∧
      (w.TradeAtomic w' p q i₁ i₂ ↔ (Game.testTrade srv w p q i₁ i₂ = true →
        (w.item i₁).kind.moveable = (w.item i₂).kind.moveable)) := by
  unfold Game.acceptTradeItems
  simp only [h.offer₁, h.offer₂, Option.bind_eq_bind, Option.bind_some, Option.pure_def]
  by_cases htest : Game.testTrade srv w p q i₁ i₂ = true
  · obtain ⟨w', hw', hiff⟩ := moveTradeItems_atomic_iff hsrv hscripts h htest
    rw [if_pos htest, hw']
    refine ⟨_, _, rfl, ?_⟩
    rw [forall_prop_of_true htest, ← hiff]
    -- forgetting the trade items moves nothing
    constructor
    · exact World.TradeAtomic.congr rfl
    · exact World.TradeAtomic.congr rfl
  · rw [if_neg htest]
    refine ⟨_, _, rfl, iff_of_true (.inr ⟨⟨rfl, rfl⟩, rfl, rfl⟩) fun h => absurd h htest⟩

namespace SmallWorld

/-- Something that can be picked up but not moved. -/
def nailed : ItemKind := { id := 2360, pickupable := true, moveable := false }

/-- Player 0 offers a ring, and player 1 five pieces of something in his left hand. -/
def dealers (kind : ItemKind) : World :=
  World.ofLists [inSlot ring, { kind := kind, count := 5, parent := some (.player 1) }]
    [{ carrier (fun s => if s = 9 then some 0 else none) with tradeItem := some 0 },
      { carrier (fun s => if s = slotLeft then some 1 else none) with tradeItem := some 1 }] [{}]

theorem dealers_trading {kind : ItemKind} (hw : Forest (server [ring, kind]) (dealers kind)) :
    Trading (server [ring, kind]) (dealers kind) 0 1 0 1 := by
  have houtside (i j : ItemId) : ((dealers kind).item i).parent ≠ some (.container j) := by
    rcases i with _ | _ | i
    · simp [dealers, World.ofLists, inSlot]
    · simp [dealers, World.ofLists]
    · simp [dealers, World.ofLists, blankItem]
  have hwithin (i j : ItemId) : ¬ (dealers kind).Within (.container j) i := by
    intro h
    cases h with
    | thing h => exact houtside i j h
    | nested h _ => exact houtside i _ h
  have hsizes (j : ItemId) : ((dealers kind).item j).maxSize = 0 := by
    rcases j with _ | _ | j
    · rfl
    · rfl
    · simp [dealers, World.ofLists, blankItem]
  refine ⟨hw, fun j => hwithin j j, (by decide : 2 + 1 < 8), fun j => ?_, ?_, by decide, rfl, rfl,
    by decide, hwithin 1 0, hwithin 0 1, .inl (.thing rfl), .inl (.thing rfl), le_refl (0 : ℤ), rfl⟩
  · rw [hsizes]
    decide
  · intro p i h
    rcases i with _ | _ | i
    · cases h
      exact Option.some_ne_none 0
    · cases h
      exact Option.some_ne_none 0
    · simp [dealers, World.ofLists, blankItem] at h

end SmallWorld

open SmallWorld in
/-- The ring is traded for five gold. -/
theorem acceptTradeItems_atomic_iff_gold : ∃ w' isSuccess,
    Game.acceptTradeItems (server [ring, gold]) (dealers gold) 0 1 = some (w', isSuccess) ∧
      ((dealers gold).TradeAtomic w' 0 1 0 1 ↔
        (Game.testTrade (server [ring, gold]) (dealers gold) 0 1 0 1 = true →
          ((dealers gold).item 0).kind.moveable = ((dealers gold).item 1).kind.moveable)) :=
  acceptTradeItems_atomic_iff (server_ordinary (by decide)) (fun _ _ _ _ => rfl)
    (dealers_trading (forest_ofLists (by decide)))

open SmallWorld in
/-- The ring goes to player 1, who keeps what may not be moved. -/
theorem trade_half_done : ¬ ∀ (srv : Server) (w w' : World) (p q : PlayerId) (i₁ i₂ : ItemId)
    (isSuccess : Bool), srv.Ordinary → (∀ a r j slot, srv.onPlayerEquip a r j slot = true) →
      Trading srv w p q i₁ i₂ → Game.acceptTradeItems srv w p q = some (w', isSuccess) →
        w.TradeAtomic w' p q i₁ i₂ := by
  intro hclaim
  have hforest : Forest (server [ring, nailed]) (dealers nailed) := forest_ofLists (by decide)
  have hparents : (Game.acceptTradeItems (server [ring, nailed]) (dealers nailed) 0 1).map
      (fun r => ((r.1.item 0).parent, (r.1.item 1).parent)) =
        some (some (.player 1), some (.player 1)) := by decide
  obtain ⟨⟨w', isSuccess⟩, haccept, hparents⟩ := Option.map_eq_some_iff.mp hparents
  obtain ⟨hring, hnailed⟩ := Prod.mk.inj hparents
  rcases hclaim _ _ w' 0 1 0 1 isSuccess (server_ordinary (by decide)) (fun _ _ _ _ => rfl)
    (dealers_trading hforest) haccept with ⟨-, hchanged⟩ | ⟨hstays, -⟩
  · exact hchanged.left hnailed
  · have hstill := hstays.parent
    rw [hring] at hstill
    exact absurd hstill (by decide)

end TyanoCore
