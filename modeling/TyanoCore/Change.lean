import TyanoCore.Handout
import TyanoCore.Payment

/-!
# Exact change

`Game::addMoney` hands out exactly the change that is due, as long as the tile accepts what the
cylinder refuses and keeps it, and every worth of the table is that of a plain stackable kind.  So
the payment takes exactly the amount.
-/

namespace TyanoCore

variable {srv : Server} {w w' : World}

/-! ## The cylinder's tile -/

/-- Every worth is that of a plain stackable kind. -/
def Server.ExactWorths (srv : Server) : Prop :=
  ∀ e ∈ srv.items.worth, 0 < e.1 ∧ ∃ kind, srv.items.kind e.2 = some kind ∧
    kind.stackable = true ∧ kind.isPlain = true ∧ kind.worth = e.1

theorem Forest.holder_parent (hw : Forest srv w) {c parent : Cylinder}
    (h : w.getParent c = some parent) : w.Holder parent := by
  cases parent with
  | container k =>
    cases c with
    | container j => exact hw.container j k h
    | player p =>
      simp only [World.getParent, Option.map_eq_some_iff, reduceCtorEq, and_false,
        exists_false] at h
    | tile t => cases h
  | player p => trivial
  | tile t => trivial

theorem SameContainers.getParent (h : SameContainers w w') {c : Cylinder} (hc : w.Holder c) :
    w'.getParent c = w.getParent c := by
  cases c with
  | container j => exact h.parent j hc.2 hc.1
  | player p => simp only [World.getParent, h.player p]
  | tile t => rfl

theorem SameContainers.topParentLoop (h : SameContainers w w') (hw : Forest srv w) (n : ℕ)
    {prev : Option Cylinder} {aux : Cylinder} (hprev : ∀ c, prev = some c → w.Holder c)
    (haux : w.Holder aux) :
    w'.topParentLoop n prev aux = w.topParentLoop n prev aux ∧
      w.Holder (w.topParentLoop n prev aux) := by
  have hend : w.Holder (prev.getD aux) := by
    cases prev with
    | none => exact haux
    | some c => exact hprev c rfl
  induction n generalizing prev aux with
  | zero => exact ⟨rfl, hend⟩
  | succ n ih =>
    unfold World.topParentLoop
    rw [h.getParent haux]
    split
    · exact ⟨rfl, hend⟩
    · next parent hparent =>
      have hsome : ∀ c, some aux = some c → w.Holder c := by
        rintro c ⟨⟩
        exact haux
      exact ih hsome (hw.holder_parent hparent) haux

theorem SameContainers.getTopParent (h : SameContainers w w') (hw : Forest srv w) (n : ℕ)
    {j : ItemId} (hj : w.Holder (.container j)) :
    w'.getTopParent n j = w.getTopParent n j ∧
      ∀ top, w.getTopParent n j = some top → w.Holder top := by
  have hthis : ∀ c, some (Cylinder.container j) = some c → w.Holder c := by
    rintro c ⟨⟩
    exact hj
  unfold World.getTopParent
  rw [h.isContainer j hj.2, h.parent j hj.2 hj.1, if_pos hj.1]
  cases hparent : (w.item j).parent with
  | none => exact ⟨rfl, hthis⟩
  | some parent =>
    have hholder : w.Holder parent := hw.holder_parent (c := .container j) hparent
    obtain ⟨heq, hloop⟩ := h.topParentLoop hw n hthis hholder
    refine ⟨congrArg some heq, ?_⟩
    rintro top ⟨⟩
    exact hloop

/-- A cylinder stays on its tile. -/
theorem SameContainers.getTile (h : SameContainers w w') (hw : Forest srv w) (n : ℕ)
    {c : Cylinder} (hc : w.Holder c) : w'.getTile n c = w.getTile n c := by
  cases c with
  | tile t => rfl
  | player p => exact h.player p
  | container j =>
    obtain ⟨heq, htop⟩ := h.getTopParent hw n hc
    unfold World.getTile
    dsimp only
    rw [heq]
    cases hj : w.getTopParent n j with
    | none => rfl
    | some top =>
      dsimp only
      rw [h.getParent (htop top hj)]

/-! ## What the tile has to accept -/

variable (srv) (w) in
/-- Whether the tile takes a new stack that the cylinder refuses. -/
def Game.acceptsStack (cylinder : Cylinder) (kindId : KindId) (flags : CylinderFlags)
    (count : ℕ) : Bool :=
  match Item.createItem srv w kindId count with
  | none => true
  | some (w, item) =>
    (Game.internalAddItem srv w (some cylinder) (some item) (-1) flags false).2 = .noError
      || (Game.internalAddItem srv w ((w.getTile srv.loopBound cylinder).map Cylinder.tile)
        (some item) (-1) { noLimit := true } false).2 = .noError

variable (srv) in
/-- Along the run of `Game.addStacks`. -/
def Game.acceptsStacks (cylinder : Cylinder) (kindId : KindId) (flags : CylinderFlags) :
    ℕ → World → ℕ → Bool
  | 0, _, _ => true
  | n + 1, w, tmp =>
    tmp = 0 ||
      Game.acceptsStack srv w cylinder kindId flags (min 100 tmp)
        && Game.acceptsStacks cylinder kindId flags n
          (Game.addStack srv w cylinder kindId flags (min 100 tmp)) (tmp - min 100 tmp)

variable (srv) in
/-- Along the run of `Game.addCoins`. -/
def Game.acceptsCoins (cylinder : Cylinder) (flags : CylinderFlags) :
    List (ℕ × KindId) → World → ℕ → Bool
  | [], _, _ => true
  | (worth, kindId) :: moneyMap, w, money =>
    let tmp := money / worth
    Game.acceptsStacks srv cylinder kindId flags tmp w tmp
      && Game.acceptsCoins cylinder flags moneyMap
        (Game.addStacks srv cylinder kindId flags tmp w tmp) (money - tmp * worth)

variable (srv) in
/-- Along the run of `Game.payCoins`: the tile accepts every stack of the change that the
cylinder refuses. -/
def Game.acceptsChange (cylinder : Cylinder) (flags : CylinderFlags) :
    List (ℕ × ItemId) → World → ℕ → Bool
  | [], _, _ => true
  | (worth, item) :: moneyMap, w, money =>
    let w := (Game.internalRemoveItem srv w item none false {}).1
    money = 0 ||
      if money < worth then
        Game.acceptsCoins srv cylinder flags srv.items.worth.reverse w (worth - money)
      else Game.acceptsChange cylinder flags moneyMap w (money - worth)

/-! ## Handing out the change -/

/-- The places on which things handed to the cylinder's tile end up. -/
def World.Handed (srv : Server) (w : World) (c place : Cylinder) : Prop :=
  ∃ t u, w.getTile srv.loopBound c = some t ∧ srv.Lands t u ∧ place = .tile u

/-- The places in a cylinder, and those of what is handed to its tile. -/
def World.Near (srv : Server) (w : World) (c place : Cylinder) : Prop :=
  w.Place c place ∨ w.Handed srv c place

variable {w₀ : World} {c : Cylinder} {flags : CylinderFlags}

/-- What is fixed while money is handed out to a cylinder: the world it began in. -/
structure Paying (srv : Server) (w₀ : World) (c : Cylinder) (flags : CylinderFlags) : Prop where
  quiet : srv.Quiet
  forwarding : srv.Forwarding
  forest : Forest srv w₀
  holder : w₀.Holder c
  flags : flags.childIsOwner = false
  keeps : ∀ t, w₀.getTile srv.loopBound c = some t → w₀.KeepsAdded (srv.destTile t)

/-- What stays while money is handed out. -/
structure Since (w₀ w : World) : Prop where
  same : SameContainers w₀ w
  keeps : ∀ t, w₀.KeepsAdded t → w.KeepsAdded t

theorem Since.refl (w : World) : Since w w := ⟨.refl w, fun _ h => h⟩

theorem Since.booked {places : Cylinder → Prop} {taken given : ℕ} (h : Since w₀ w)
    (hb : Booked srv places w w' taken given) : Since w₀ w' :=
  ⟨h.same.trans hb.same, fun t ht => hb.keeps t (h.keeps t ht)⟩

theorem Paying.addStack (hp : Paying srv w₀ c flags) (hsince : Since w₀ w)
    (hw : Forest srv w) {kind : ItemKind} {count : ℕ}
    (hknown : srv.items.kind kind.id = some kind) (hplain : kind.isPlain = true)
    (hs : kind.stackable = true) (hpos : count ≠ 0) (hle : count ≤ 100)
    (haccept : Game.acceptsStack srv w c kind.id flags count = true) :
    Booked srv (w₀.Near srv c) w (Game.addStack srv w c kind.id flags count) 0
      (count * kind.worth) := by
  have hcreate := createItem_stack (w := w) kind count hknown hplain hs hpos hle
  have hcreated : Booked srv (w₀.Near srv c) w (w.create (.stack kind count)) 0 0 :=
    .create hw rfl rfl rfl ⟨Nat.one_le_iff_ne_zero.mpr hpos, hle⟩
  have hnew : NewStack srv (w.create (.stack kind count)) w.next kind count :=
    ⟨create_item_next _, Nat.lt_succ_self _, hknown, hplain, hs, hpos, hle⟩
  have hsince' := hsince.booked hcreated
  have hsame' := hsince'.same
  have hholder := hsame'.holder hp.holder
  have htile := hsame'.getTile hp.forest srv.loopBound hp.holder
  simp only [Game.acceptsStack, hcreate, Bool.or_eq_true, decide_eq_true_eq] at haccept
  simp only [Game.addStack, hcreate]
  generalize w.create (.stack kind count) = w₁ at *
  have hkeeps {t : TileId} (ht : w₁.getTile srv.loopBound c = some t) :
      w₁.KeepsAdded (srv.destTile t) := hsince'.keeps _ (hp.keeps t (htile ▸ ht))
  have hlands {t u : TileId} (ht : w₁.getTile srv.loopBound c = some t) (hu : srv.Lands t u) :
      w₀.Near srv c (.tile u) := .inr ⟨t, u, htile ▸ ht, hu, rfl⟩
  split
  · next hret =>
    have hadded : Booked srv (w₀.Near srv c) w₁
        (Game.internalAddItem srv w₁ (some c) (some w.next) (-1) flags false).1 0
        (count * kind.worth) := by
      by_cases htile : c.isTile = false
      · refine internalAddItem_carried hp.quiet hcreated.forest htile hholder hnew hp.flags ?_ hret
        rintro place (rfl | ⟨j, rfl, hj⟩) hplace
        · exact .inl (.inl rfl)
        · exact .inl (.inr ⟨j, rfl, hsame'.within_of hcreated.forest hj hplace.1⟩)
      · cases c with
        | container j => exact absurd rfl htile
        | player p => exact absurd rfl htile
        | tile t =>
          exact internalAddItem_tile hp.quiet hp.forwarding hcreated.forest (hkeeps rfl) hnew
            (fun u hu => hlands rfl hu) hret
    simpa only [Nat.zero_add] using hcreated.trans hadded
  · next hret =>
    -- the cylinder has refused the stack, so it goes to the tile
    have hret' := haccept.resolve_left hret
    rw [internalAddItem_refused hret]
    cases ht : w₁.getTile srv.loopBound c with
    | none =>
      rw [ht] at hret'
      cases hret'
    | some t =>
      rw [ht] at hret'
      rw [Option.map_some]
      have hadded := internalAddItem_tile hp.quiet hp.forwarding hcreated.forest (hkeeps ht)
        hnew (fun u hu => hlands ht hu) hret'
      simpa only [Nat.zero_add] using hcreated.trans hadded

/-- The inner loop hands out all coins of the kind. -/
theorem Paying.addStacks (hp : Paying srv w₀ c flags) {kind : ItemKind}
    (hknown : srv.items.kind kind.id = some kind) (hplain : kind.isPlain = true)
    (hs : kind.stackable = true) {n tmp : ℕ} (hn : tmp ≤ n) (hsince : Since w₀ w)
    (hw : Forest srv w) (haccept : Game.acceptsStacks srv c kind.id flags n w tmp = true) :
    Booked srv (w₀.Near srv c) w (Game.addStacks srv c kind.id flags n w tmp) 0
      (tmp * kind.worth) := by
  induction n generalizing w tmp with
  | zero =>
    have htmp : tmp = 0 := by omega
    rw [htmp, Nat.zero_mul]
    exact .refl hw
  | succ n ih =>
    simp only [Game.addStacks]
    split
    · next htmp =>
      rw [htmp, Nat.zero_mul]
      exact .refl hw
    · next htmp =>
      simp only [Game.acceptsStacks, htmp, decide_false, Bool.false_or, Bool.and_eq_true] at haccept
      have hstack := hp.addStack hsince hw hknown hplain hs (by omega) (Nat.min_le_left 100 tmp)
        haccept.1
      have hrest := ih (by omega) (hsince.booked hstack) hstack.forest haccept.2
      have hsum : min 100 tmp * kind.worth + (tmp - min 100 tmp) * kind.worth
          = tmp * kind.worth := by
        rw [← Nat.add_mul, Nat.add_sub_cancel' (Nat.min_le_right 100 tmp)]
      rw [← hsum]
      exact hstack.trans hrest

/-- The outer loop hands out everything once it has come to the worth of one. -/
theorem Paying.addCoins (hp : Paying srv w₀ c flags) {moneyMap : List (ℕ × KindId)}
    (hworths : ∀ e ∈ moneyMap, 0 < e.1 ∧ ∃ kind, srv.items.kind e.2 = some kind ∧
      kind.stackable = true ∧ kind.isPlain = true ∧ kind.worth = e.1)
    {money : ℕ} (hone : money = 0 ∨ ∃ e ∈ moneyMap, e.1 = 1) (hsince : Since w₀ w)
    (hw : Forest srv w) (haccept : Game.acceptsCoins srv c flags moneyMap w money = true) :
    ∃ w', Game.addCoins srv c flags moneyMap w money = some w' ∧
      Booked srv (w₀.Near srv c) w w' 0 money := by
  induction moneyMap generalizing w money with
  | nil =>
    have hmoney : money = 0 := by
      rcases hone with hmoney | ⟨e, he, -⟩
      · exact hmoney
      · cases he
    rw [hmoney]
    exact ⟨w, rfl, .refl hw⟩
  | cons e moneyMap ih =>
    obtain ⟨worth, kindId⟩ := e
    obtain ⟨hpos, kind, hkind, hs, hplain, rfl⟩ := hworths _ List.mem_cons_self
    have hid : kind.id = kindId := srv.items.kind_id hkind
    subst hid
    simp only [Game.acceptsCoins, Bool.and_eq_true] at haccept
    simp only [Game.addCoins]
    rw [if_neg (by omega)]
    have hstacks := hp.addStacks hkind hplain hs le_rfl hsince hw haccept.1
    have hle : money / kind.worth * kind.worth ≤ money := Nat.div_mul_le_self _ _
    have hone' : money - money / kind.worth * kind.worth = 0 ∨ ∃ e ∈ moneyMap, e.1 = 1 := by
      rcases hone with hmoney | ⟨e, he, heq⟩
      · exact .inl (by omega)
      · rcases List.mem_cons.mp he with rfl | he
        · left
          change kind.worth = 1 at heq
          rw [heq, Nat.div_one, Nat.mul_one, Nat.sub_self]
        · exact .inr ⟨e, he, heq⟩
    obtain ⟨w', heq, hrest⟩ := ih (fun e he => hworths e (List.mem_cons_of_mem _ he)) hone'
      (hsince.booked hstacks) hstacks.forest haccept.2
    refine ⟨w', heq, ?_⟩
    have hsum : money / kind.worth * kind.worth + (money - money / kind.worth * kind.worth)
        = money := by omega
    rw [← hsum]
    exact hstacks.trans hrest

/-! ## Taking the coins -/

/-- An entry of the multimap whose coin lies at one of the places and can be removed. -/
structure CoinAt (w : World) (places : Cylinder → Prop) (e : ℕ × ItemId) : Prop where
  place : ∃ place, (w.item e.2).parent = some place ∧ places place
  not_container : (w.item e.2).isContainer = false
  worth : (w.item e.2).getWorth = e.1
  pos : 0 < e.1
  canRemove : (w.item e.2).canRemove = true

variable {places : Cylinder → Prop}

theorem CoinAt.moved {e : ℕ × ItemId} (h : CoinAt w places e) {i : ItemId}
    {parent : Option Cylinder} (hm : Moved w w' i parent) (hne : e.2 ≠ i) :
    CoinAt w' places e := by
  have hcore := hm.core e.2
  constructor
  · rw [hm.parent_other e.2 hne]
    exact h.place
  · rw [Item.core_isContainer hcore]
    exact h.not_container
  · unfold Item.getWorth
    rw [Item.core_count hcore, Item.core_kind hcore]
    exact h.worth
  · exact h.pos
  · rw [Item.core_canRemove hcore]
    exact h.canRemove

theorem removeThing_tile (j : Cylinder) (i : ItemId) (count : ℕ) (p : PlayerId) :
    ((Cylinder.removeThing srv w j i count).player p).tile = (w.player p).tile := by
  cases j with
  | container k =>
    simp only [Cylinder.removeThing, Container.removeThing]
    split
    · rfl
    · split
      · rw [(sameItems_updateItemWeight _ _ _ _).player]
        rfl
      · change ((World.updateItemWeight srv.loopBound w k _).player p).tile = _
        rw [(sameItems_updateItemWeight _ _ _ _).player]
  | player q =>
    simp only [Cylinder.removeThing, Player.removeThing]
    split_ifs
    · rfl
    · rfl
    · simp only [World.setParent, World.setInventory, World.setItem, World.setPlayer]
      split
      · next hq => rw [hq]
      · rfl
  | tile t =>
    simp only [Cylinder.removeThing]
    rw [Tile.removeThing_player]

/-- A coin is taken. -/
theorem CoinAt.take (hsrv : srv.Quiet) (hw : Forest srv w) {worth : ℕ} {i : ItemId}
    (h : CoinAt w places (worth, i)) :
    Booked srv places w (Game.internalRemoveItem srv w i none false {}).1 worth 0 ∧
      Moved w (Game.internalRemoveItem srv w i none false {}).1 i none := by
  obtain ⟨place, hparent, hplace⟩ := h.place
  have hworth : (w.item i).getWorth = worth := h.worth
  have hpos : 0 < worth := h.pos
  obtain ⟨index, isCompleteRemoval, heq⟩ :=
    internalRemoveItem_eq srv hparent ((hw.mem_things place i).mpr hparent) none
      (Item.count_ne_zero_of_worth (by rw [hworth]; exact hpos)) (fun _ => le_rfl) h.canRemove
  obtain ⟨hw', hm⟩ := removeThing_whole hw ((hw.mem_things place i).mpr hparent) fun _ => rfl
  have hcoin : (w.item i).coinWorth = worth := by
    unfold Item.coinWorth
    rw [h.not_container]
    exact hworth
  have hsame := sameItems_postRemoveNotification hsrv
    (Cylinder.removeThing srv w place i (w.item i).count) place i index isCompleteRemoval
  rw [heq, ← hcoin]
  refine ⟨Booked.sameItems ?_ hsame, hm.sameItems hsame⟩
  exact .detach hw hw' hm hplace hparent h.not_container (hw.lt_next i place hparent)
    (removeThing_tile place i _)

theorem Paying.payCoins (hp : Paying srv w₀ c flags) (hworths : srv.ExactWorths)
    (hone : ∃ e ∈ srv.items.worth, e.1 = 1) {coins : List (ℕ × ItemId)}
    (hcoins : ∀ e ∈ coins, CoinAt w (w₀.Near srv c) e) (hnodup : (coins.map Prod.snd).Nodup)
    {money : ℕ} (henough : money ≤ (coins.map Prod.fst).sum) (hsince : Since w₀ w)
    (hw : Forest srv w) (haccept : Game.acceptsChange srv c flags coins w money = true) :
    ∃ w', Game.payCoins srv c flags coins w money = some (w', 0) ∧
      Booked srv (w₀.Near srv c) w w' money 0 := by
  induction coins generalizing w money with
  | nil =>
    have hmoney : money = 0 := by simpa using henough
    rw [hmoney]
    exact ⟨w, rfl, .refl hw⟩
  | cons e coins ih =>
    obtain ⟨worth, i⟩ := e
    simp only [List.map_cons, List.sum_cons, List.nodup_cons] at henough hnodup
    simp only [Game.payCoins]
    split
    · next hmoney =>
      rw [hmoney]
      exact ⟨w, rfl, .refl hw⟩
    next hmoney =>
    simp only [Game.acceptsChange, hmoney, decide_false, Bool.false_or] at haccept
    obtain ⟨htaken, hmoved⟩ := (hcoins _ List.mem_cons_self).take hp.quiet hw
    split
    · next hlt =>
      -- the coin is worth more than what is left to pay
      rw [if_pos hlt] at haccept
      have hone' : worth - money = 0 ∨ ∃ e ∈ srv.items.worth.reverse, e.1 = 1 := by
        right
        simpa only [List.mem_reverse] using hone
      obtain ⟨w', heq, hchange⟩ := hp.addCoins (fun e he => hworths e (List.mem_reverse.mp he))
        hone' (hsince.booked htaken) htaken.forest haccept
      refine ⟨w', ?_, ?_⟩
      · rw [Game.addMoney, heq]
        rfl
      · have hbooked := htaken.trans hchange
        refine ⟨hbooked.forest, hbooked.same, hbooked.keeps, ?_, hbooked.bounds⟩
        have := hbooked.worth
        omega
    · next hge =>
      rw [if_neg hge] at haccept
      have hrest : ∀ e ∈ coins, CoinAt (Game.internalRemoveItem srv w i none false {}).1
          (w₀.Near srv c) e := by
        intro e he
        refine (hcoins e (List.mem_cons_of_mem _ he)).moved hmoved ?_
        rintro rfl
        exact hnodup.1 (List.mem_map_of_mem he)
      obtain ⟨w', heq, hbooked⟩ := ih hrest hnodup.2 (by omega) (hsince.booked htaken)
        htaken.forest haccept
      refine ⟨w', heq, ?_⟩
      have hsum : worth + (money - worth) = money := by omega
      rw [← hsum]
      exact htaken.trans hbooked

/-! ## The account of a payment -/

/-- The worth of the coins that lie where things handed to a cylinder's tile end up, outside the
cylinder. -/
noncomputable def World.handedWorth (srv : Server) (w₀ : World) (c : Cylinder) (w : World) : ℕ :=
  w.worthAt fun place => w₀.Handed srv c place ∧ place ≠ c

theorem worthAt_near (hw : Forest srv w) (hw' : Forest srv w') (hacyclic : w.Acyclic)
    (hsame : SameContainers w w') (c : Cylinder) :
    w'.worthAt (w.Near srv c) = w'.totalWorth c + w.handedWorth srv c w' := by
  rw [hw'.totalWorth_eq (hsame.acyclic hw' hacyclic) c]
  unfold World.handedWorth World.worthAt World.tally
  rw [← Finset.sum_add_distrib]
  refine Finset.sum_congr rfl fun i _ => ?_
  cases hparent : (w'.item i).parent with
  | none =>
    rw [Item.worthAt_nowhere hparent, Item.worthAt_nowhere hparent, if_neg]
    exact fun h => h.parent_ne hparent
  | some place =>
    have hwithin : w'.Within c i ↔ w.Place c place := by
      rw [within_iff_place, hparent]
      constructor
      · rintro ⟨place', heq, hplace⟩
        cases heq
        exact (hsame.place hw hw' hparent).mp hplace
      · intro hplace
        exact ⟨place, rfl, (hsame.place hw hw' hparent).mpr hplace⟩
    have hdisjoint : w.Place c place → ¬ (w.Handed srv c place ∧ place ≠ c) := by
      rintro (rfl | ⟨j, rfl, -⟩) ⟨⟨t, u, -, -, heq⟩, hne⟩
      · exact hne rfl
      · cases heq
    by_cases hplace : w.Place c place
    · rw [Item.worthAt_place hparent (.inl hplace), if_pos (hwithin.mpr hplace),
        Item.worthAt_elsewhere hparent (hdisjoint hplace), Nat.add_zero]
    · rw [if_neg (fun h => hplace (hwithin.mp h)), Nat.zero_add]
      by_cases hhanded : w.Handed srv c place
      · have hne : place ≠ c := fun heq => hplace (.inl heq)
        rw [Item.worthAt_place hparent (.inr hhanded), Item.worthAt_place hparent ⟨hhanded, hne⟩]
      · rw [Item.worthAt_elsewhere hparent (fun h => hhanded (h.resolve_left hplace)),
          Item.worthAt_elsewhere hparent (fun h => hhanded h.1)]

/-- A payment takes exactly the amount out of the cylinder and of what is handed to its tile, where
there is neither a trash holder nor a mailbox, and the stacks it creates are within their bounds. -/
theorem removeMoney_exactChange (hsrv : srv.Quiet) (hfwd : srv.Forwarding)
    (hworths : srv.ExactWorths) (hone : ∃ e ∈ srv.items.worth, e.1 = 1) (hw : Forest srv w)
    (hacyclic : w.Acyclic) (hc : w.Holder c)
    (hcoins : ∀ i ∈ Game.coins w c, (w.item i).canRemove = true)
    (hflags : flags.childIsOwner = false)
    (hkeeps : ∀ t, w.getTile srv.loopBound c = some t → w.KeepsAdded (srv.destTile t))
    {money : ℕ} (hmoney : 0 < money) (henough : money ≤ Game.getMoney w (some c))
    (haccept : Game.acceptsChange srv c flags (Game.moneyMap w c) w money = true) :
    ∃ w', Game.removeMoney srv w (some c) money flags = some (w', true) ∧
      w'.totalWorth c + w.handedWorth srv c w' + money = w.totalWorth c + w.handedWorth srv c w ∧
      Forest srv w' ∧ ∀ i, w.next ≤ i → i < w'.next → (w'.item i).InBounds := by
  have hp : Paying srv w c flags := ⟨hsrv, hfwd, hw, hc, hflags, hkeeps⟩
  have hat : ∀ e ∈ Game.moneyMap w c, CoinAt w (w.Near srv c) e := by
    intro e he
    obtain ⟨hmem, heq⟩ := mem_moneyMap he
    obtain ⟨hwithin, hcontainer, hpos⟩ := hw.coins_within hmem
    obtain ⟨place, hparent, hplace⟩ := hwithin.place
    exact ⟨⟨place, hparent, .inl hplace⟩, hcontainer, heq.symm, heq ▸ hpos, hcoins _ hmem⟩
  have hnodup : ((Game.moneyMap w c).map Prod.snd).Nodup := by
    have hsnd : Prod.snd ∘ (fun i => ((w.item i).getWorth, i)) = id := rfl
    rw [((moneyMap_perm w c).map Prod.snd).nodup_iff, List.map_map, hsnd, List.map_id]
    exact hw.coins_nodup hacyclic c
  have hsum : money ≤ ((Game.moneyMap w c).map Prod.fst).sum := by
    rw [moneyMap_sum]
    exact henough.trans (getMoney_le w c)
  obtain ⟨w', heq, hbooked⟩ := hp.payCoins hworths hone hat hnodup hsum (.refl w) hw haccept
  refine ⟨w', ?_, ?_, hbooked.forest, ?_⟩
  · rw [removeMoney_eq (by omega) ((Nat.mod_le money _).trans henough), heq]
    rfl
  · have hafter := worthAt_near hw hbooked.forest hacyclic hbooked.same c
    have hbefore := worthAt_near hw hw hacyclic (.refl w) c
    have := hbooked.worth
    omega
  · intro i hi hi'
    exact hbooked.bounds i hi' fun hlt => absurd hlt (not_lt.mpr hi)

/-! ## Change for a crystal coin -/

namespace SmallWorld

def platinum : ItemKind := { gold with id := 2152, worth := 100 }
def crystal : ItemKind := { gold with id := 2160, worth := 10000 }

def coinServer : Server :=
  { server [bag, gold] with
    items := .ofKinds [bag, gold, platinum, crystal] [(1, 2148), (100, 2152), (10000, 2160)] }

/-- A crystal coin in a bag that has no room for more. -/
def crystalInBag : World :=
  .ofLists [{ bagHolding [1] with maxSize := 1 }, inBag crystal] [] [tile]

end SmallWorld

open SmallWorld in
/-- Of the change for 1 the platinum coins go to the bag and the gold coins to the tile. -/
theorem removeMoney_exactChange_crystal :
    ∃ w', Game.removeMoney coinServer crystalInBag (some (.container 0)) 1 {} = some (w', true) ∧
      w'.totalWorth (.container 0) + crystalInBag.handedWorth coinServer (.container 0) w' + 1 =
        crystalInBag.totalWorth (.container 0) +
          crystalInBag.handedWorth coinServer (.container 0) crystalInBag ∧
      Forest coinServer w' ∧
      ∀ i, crystalInBag.next ≤ i → i < w'.next → (w'.item i).InBounds := by
  have hquiet : coinServer.Quiet := ⟨fun _ _ _ _ => rfl, fun _ _ _ _ _ => rfl⟩
  have hfwd : coinServer.Forwarding := by
    constructor
    · rintro w t i u ⟨⟩
    · intro w w' t i i' _ _ _ h
      exact absurd rfl h
  have hworths : coinServer.ExactWorths := by
    intro e he
    simp only [coinServer, Items.ofKinds, List.mem_cons, List.not_mem_nil, or_false] at he
    rcases he with rfl | rfl | rfl
    · exact ⟨by decide, gold, by decide, by decide, by decide, rfl⟩
    · exact ⟨by decide, platinum, by decide, by decide, by decide, rfl⟩
    · exact ⟨by decide, crystal, by decide, by decide, by decide, rfl⟩
  have hacyclic : crystalInBag.Acyclic := by
    refine .of_rank id ?_
    rintro (_ | _ | i) j h
    · cases h
    · cases h
      decide
    · cases h
  have hkeeps : ∀ t, crystalInBag.getTile coinServer.loopBound (.container 0) = some t →
      crystalInBag.KeepsAdded (coinServer.destTile t) := by
    intro t ht
    have htile : crystalInBag.getTile coinServer.loopBound (.container 0) = some 0 := by decide
    rw [htile] at ht
    cases ht
    unfold World.KeepsAdded
    decide
  exact removeMoney_exactChange hquiet hfwd hworths ⟨(1, 2148), by decide, rfl⟩
    (forest_ofLists (by decide)) hacyclic (by decide) (by decide) rfl hkeeps (by decide)
    (by decide) (by decide)

/-- The cylinder can pay, and the tile accepts all change that is handed to it. -/
def Payable (srv : Server) (w : World) (c : Cylinder) (money : ℕ) (flags : CylinderFlags) : Prop :=
  (∃ e ∈ srv.items.worth, e.1 = 1) ∧ 0 < money ∧ money < 2 ^ 32 ∧
    money ≤ Game.getMoney w (some c) ∧ (∀ i ∈ Game.coins w c, (w.item i).canRemove = true) ∧
    Game.acceptsChange srv c flags (Game.moneyMap w c) w money = true

/-- The worth in a cylinder and on the tile below it. -/
def World.account (w : World) (c : Cylinder) : ℕ :=
  w.totalWorth c +
    if c = .tile 0 then 0 else ((w.things (.tile 0)).map fun i => (w.item i).coinWorth).sum

/-- The account after a payment. -/
def accountAfter (srv : Server) (w : World) (c : Cylinder) (money : ℕ) (flags : CylinderFlags) :
    Option ℕ :=
  (Game.removeMoney srv w (some c) money flags).map fun r => r.1.account c

namespace SmallWorld

def medal : ItemKind := { platinum with stackable := false }
def chargedGold : ItemKind := { gold with charges := 3 }

/-- A server whose platinum coins are medals, which cannot be stacked. -/
def medalServer : Server :=
  { coinServer with
    items := .ofKinds [bag, gold, medal, crystal] [(1, 2148), (100, 2152), (10000, 2160)] }

def chargedServer : Server :=
  { coinServer with
    items := .ofKinds [bag, chargedGold, platinum, crystal]
      [(1, 2148), (100, 2152), (10000, 2160)] }

/-- Besides the bag, a stack with charges lies on the tile. -/
def chargedGoldOnTile : World :=
  .ofLists [{ bagHolding [1] with maxSize := 1 }, inBag crystal,
    { kind := chargedGold, parent := some (.tile 0) }] [] [{ tile with downItems := [2, 0] }]

/-- A player with a crystal coin in his right hand and statues where other coins would go. -/
def crystalInHand : World :=
  .ofLists [{ bagHolding [] with parent := none }, inSlot crystal, inSlot statue, inSlot statue]
    [carrier fun s =>
      if s = slotRight then some 1 else if s = slotLeft then some 2
      else if s = 10 then some 3 else none] [{ tile with downItems := [] }]

def statueServer : Server :=
  { coinServer with
    items := .ofKinds [bag, gold, platinum, crystal, statue]
      [(1, 2148), (100, 2152), (10000, 2160)] }

/-- A server whose coins become statues when they are put into a slot. -/
def transformServer : Server :=
  { statueServer with
    transformEquipped := fun w _ i _ => w.setItem i { w.item i with kind := statue } }

def dustbin : ItemKind := { id := 1777, type := .trashHolder, moveable := false }

/-- A server whose tiles have the flag of a trash holder as long as one is on them. -/
def dustbinServer : Server :=
  { coinServer with
    items := .ofKinds [bag, gold, platinum, crystal, dustbin]
      [(1, 2148), (100, 2152), (10000, 2160)]
    trashHolderFlag := fun w t => (Tile.findType w t .trashHolder).isSome }

/-- A crystal coin on a tile with a dustbin. -/
def crystalAtDustbin : World :=
  .ofLists [{ kind := crystal, parent := some (.tile 0) },
    { kind := dustbin, parent := some (.tile 0) }] [] [{ tile with downItems := [0, 1] }]

end SmallWorld

open SmallWorld in
/-- More than the amount is lost when a worth is that of a kind that cannot be stacked or has
charges, when the caller passes `FLAG_CHILDISOWNER`, when a movement event transforms coins, and
when the change comes to a tile with a trash holder. -/
theorem removeMoney_not_exactChange :
    (Forest medalServer crystalInBag ∧ Payable medalServer crystalInBag (.container 0) 1 {} ∧
      crystalInBag.account (.container 0) = 10000 ∧
      accountAfter medalServer crystalInBag (.container 0) 1 {} = some 199) ∧
    (Forest chargedServer chargedGoldOnTile ∧
      Payable chargedServer chargedGoldOnTile (.container 0) 1 {} ∧
      chargedGoldOnTile.account (.container 0) = 10001 ∧
      accountAfter chargedServer chargedGoldOnTile (.container 0) 1 {} = some 9901) ∧
    (Forest statueServer crystalInHand ∧
      Payable statueServer crystalInHand (.player 0) 1 { childIsOwner := true } ∧
      crystalInHand.account (.player 0) = 10000 ∧
      accountAfter statueServer crystalInHand (.player 0) 1 { childIsOwner := true } =
        some 9900) ∧
    (Forest transformServer crystalInHand ∧
      Payable transformServer crystalInHand (.player 0) 1 {} ∧
      crystalInHand.account (.player 0) = 10000 ∧
      accountAfter transformServer crystalInHand (.player 0) 1 {} = some 99) ∧
    (Forest dustbinServer crystalAtDustbin ∧
      Payable dustbinServer crystalAtDustbin (.tile 0) 1 {} ∧
      crystalAtDustbin.account (.tile 0) = 10000 ∧
      accountAfter dustbinServer crystalAtDustbin (.tile 0) 1 {} = some 0) := by
  unfold Payable
  exact ⟨⟨forest_ofLists (by decide), by decide, by decide, by decide⟩,
    ⟨forest_ofLists (by decide), by decide, by decide, by decide⟩,
    ⟨forest_ofLists (by decide), by decide, by decide, by decide⟩,
    ⟨forest_ofLists (by decide), by decide, by decide, by decide⟩,
    ⟨forest_ofLists (by decide), by decide, by decide, by decide⟩⟩

end TyanoCore
