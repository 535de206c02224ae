import TyanoCore.BlobReading
import TyanoCore.HouseTile

/-!
# Houses from blobs

`loadItem`, `loadContainer` and the loop of `loadMapBinary` over the data of a house, as scripts of reads.
A script says what is read and what the world is asked to do then; the world itself may be any.
-/

namespace TyanoCore

open StoredItem

/-! ## The world -/

/-- A parent of items that are loaded. -/
structure HouseParent (W : Type) where
  /-- The items among the things of a tile, as `__getThing` finds them. -/
  things : Option (W → List ItemId)
  /-- `__internalAddThing`, and `__startDecaying` of the item. -/
  add : W → LoadedItem → W
  /-- `__addThing`. -/
  addThing : W → ItemTree → W

/-- What loading items asks of the world. -/
structure HouseWorld (W : Type) where
  kinds : KindId → Option StoredKind
  getNameByGuid : ℕ → Option (List UInt8)
  item : W → ItemId → StoredItem
  setItem : W → ItemId → StoredItem → W
  /-- `__internalAddThing` of a container, and `__startDecaying` of the item that it gets. -/
  addInside : W → ItemId → LoadedItem → W
  transformItem : W → ItemId → KindId → W

/-- What `loadMapBinary` asks about a house besides. -/
structure HouseSource (W : Type) extends HouseWorld W where
  /-- There is a house, and it has a pending transfer. -/
  pending : Bool
  /-- The depot of the owner, where he is known. -/
  depot : Option (HouseParent W)
  /-- `savePlayer`, of an owner who is not online. -/
  savePlayer : W → W
  getTile : Position → Option (HouseParent W)

/-- A container that is out of the world gets an item, which does not start to decay there. -/
def ContainerState.put (c : ContainerState) (item : LoadedItem) : ContainerState where
  contents := item.1 :: c.contents
  totalWeight := c.totalWeight + item.2

theorem ContainerState.add_removed (c : ContainerState) (item : Option LoadedItem) :
    c.add true item = some (item.elim c c.put) := by
  cases item with
  | none => rfl
  | some item =>
    rw [ContainerState.add, startDecaying_removed]
    rfl

namespace Blob

/-- What `loadItem` reads; nothing where it returns false. -/
abbrev ItemScript := BlobScript (Option (Option LoadedItem))

/-! ## Containers -/

/-- The loop of `loadContainer`, with the `serializationCount` that is left. -/
def loadContents {C : Type} (load : ItemScript) (add : C → LoadedItem → C) :
    ℕ → C → BlobScript (Bool × ℕ × C)
  | 0, c => .done (true, 0, c)
  | n + 1, c =>
    load.bind fun item =>
      match item with
      | none => .done (false, n + 1, c)
      | some item => loadContents load add n (item.elim c (add c))

/-- `IOMapSerialize::loadContainer`. -/
def loadContainer {C : Type} (load : ItemScript) (add : C → LoadedItem → C)
    (serializationCount : ℕ) (c : C) : BlobScript (Bool × ℕ × C) :=
  (loadContents load add serializationCount c).bind fun (ok, count, c) =>
    if ok then getUChar.map fun endAttr => (decide (endAttr.getD 0 = 0), count, c)
    else .done (false, count, c)

/-! ## Items -/

section Load

variable (kinds : KindId → Option StoredKind) (getNameByGuid : ℕ → Option (List UInt8))

/-- A new item of a kind, with what is in it. -/
def loadCreated (n : ℕ) (load : ItemScript) (id : KindId) : ItemScript :=
  match createItem kinds id 1 with
  | none => .done (some none)
  | some item =>
    (unserializeAttr getNameByGuid n item).bind fun (ok, item) =>
      if ok then
        if item.isContainer then
          (loadContainer load ContainerState.put item.serializationCount {}).map fun (ok, _, c) =>
            if ok then
              some (some (.node { item with serializationCount := 0 } c.contents,
                item.getWeight + c.totalWeight))
            else none
        else .done (some (some (.node item [], item.getWeight)))
      else .done none

/-- `IOMapSerialize::loadItem` up to the container that gets the item; the bound is one on the items
inside each other. -/
def loadItemIn : ℕ → ItemScript
  | 0 => .out
  | n + 1 =>
    getUShort.bind fun id =>
      match kinds (id.getD 0) with
      | none => .done (some none)
      | some _ => loadCreated kinds getNameByGuid n (loadItemIn n) (id.getD 0)

end Load

section World

variable {W : Type} (world : HouseWorld W)

/-- The loop that looks for a stationary item. -/
def findItem (parent : HouseParent W) (kind : StoredKind) (id : KindId) (w : W) : Option ItemId :=
  parent.things.bind fun things =>
    (things w).find? fun i => HouseTile.isMeant kind id (.node (world.item w i) [])

/-- `loadContainer` for an item of the world. -/
def loadInside (n : ℕ) (w : W) (i : ItemId) : BlobScript (Bool × W) :=
  (loadContainer (loadItemIn world.kinds world.getNameByGuid n) (world.addInside · i)
    (world.item w i).serializationCount w).map fun (ok, count, w) =>
      (ok, world.setItem w i { world.item w i with serializationCount := count })

/-- A stationary item gets the properties that were saved. -/
def loadStationary (n : ℕ) (w : W) (i : ItemId) (id : KindId) : BlobScript (Bool × W) :=
  (unserializeAttr world.getNameByGuid n (world.item w i)).bind fun (ok, item) =>
    let w := world.setItem w i item
    if ok then
      if item.isContainer then
        (loadInside world n w i).map fun (ok, w) =>
          if ok then (true, world.transformItem w i id) else (false, w)
      else .done (true, world.transformItem w i id)
    else .done (true, w)

/-- The properties of an item that is not there any more; a depot gets what was in it. -/
def loadMissing (n : ℕ) (parent : HouseParent W) (depotTransfer : Bool) (id : KindId) (w : W) :
    BlobScript (Bool × W) :=
  match createItem world.kinds id 1 with
  | none => .done (true, w)
  | some item =>
    (unserializeAttr world.getNameByGuid n item).bind fun (_, item) =>
      if item.isContainer then
        (loadContainer (loadItemIn world.kinds world.getNameByGuid n) ContainerState.put
          item.serializationCount {}).map fun (ok, _, c) =>
            if ok then (true, if depotTransfer then c.contents.foldl parent.addThing w else w)
            else (false, w)
      else .done (true, w)

/-- `IOMapSerialize::loadItem`. -/
def loadItem (n : ℕ) (parent : HouseParent W) (depotTransfer : Bool) (w : W) :
    BlobScript (Bool × W) :=
  getUShort.bind fun id =>
    match world.kinds (id.getD 0) with
    | none => .done (true, w)
    | some kind =>
      if kind.moveable ∨ kind.forceSerialize ∨ (!depotTransfer && parent.things.isNone) then
        (loadCreated world.kinds world.getNameByGuid n (loadItemIn world.kinds world.getNameByGuid n)
          (id.getD 0)).map fun item =>
            match item with
            | none => (false, w)
            | some item => (true, item.elim w (parent.add w))
      else match findItem world parent kind (id.getD 0) w with
      | some i => loadStationary world n w i (id.getD 0)
      | none => loadMissing world n parent depotTransfer (id.getD 0) w

/-- The loop over the items of a tile; what `loadItem` returns is ignored. -/
def loadItems (n : ℕ) (parent : HouseParent W) (depotTransfer : Bool) : ℕ → W → BlobScript W
  | 0, w => .done w
  | itemCount + 1, w =>
    (loadItem world n parent depotTransfer w).bind fun (_, w) =>
      loadItems n parent depotTransfer itemCount w

end World

/-! ## Houses -/

section House

variable {W : Type} (src : HouseSource W)

/-- The items of one position, and whether the loop goes on. -/
def loadPosition (n : ℕ) (x y z itemCount : ℕ) (w : W) : BlobScript (Bool × W) :=
  match Position.of x y z with
  -- the constructor asserts that the position is valid
  | none => .done (false, w)
  | some pos =>
    if src.pending then
      match src.depot with
      | some depot =>
        (loadItems src.toHouseWorld n depot true itemCount w).map fun w => (true, src.savePlayer w)
      | none => .done (true, w)
    else
      match src.getTile pos with
      | some tile => (loadItems src.toHouseWorld n tile false itemCount w).map fun w => (true, w)
      | none => .done (false, w)

/-- The loop of `loadMapBinary` over the data of a house, with a bound on its rounds. -/
def loadHouse : ℕ → W → BlobScript W
  | 0, _ => .out
  | n + 1, w =>
    .more fun left =>
      if left then
        getUShort.bind fun x => getUShort.bind fun y => getUChar.bind fun z =>
          getULong.bind fun itemCount =>
            (loadPosition src n (x.getD 0) (y.getD 0) (z.getD 0) (itemCount.getD 0) w).bind
              fun (goesOn, w) => if goesOn then loadHouse n w else .done w
      else .done w

end House

/-- `PropStream::init`, which takes the size as an `uint32_t`. -/
def init (blob : List UInt8) : PropStream := blob.take (blob.length % 2 ^ 32)

/-! ## Every script ends -/

open ReadScript

section Load

variable {kinds : KindId → Option StoredKind} {getNameByGuid : ℕ → Option (List UInt8)}
variable {n m : ℕ} {s r : PropStream}

theorem loadContents_ne_out {C : Type} {load : ItemScript} (add : C → LoadedItem → C)
    (hload : ∀ s, s.length < m → run propGauge load s ≠ .out) (count : ℕ) (c : C)
    (hs : s.length < m) : run propGauge (loadContents load add count c) s ≠ .out := by
  induction count generalizing c s with
  | zero => exact Outcome.done_ne_out
  | succ count ih =>
    apply run_bind_ne_out (hload s hs)
    intro item r hitem
    cases item with
    | none => exact Outcome.done_ne_out
    | some item => exact ih _ (Nat.lt_of_le_of_lt (run_length_le hitem) hs)

theorem loadContainer_ne_out {C : Type} {load : ItemScript} (add : C → LoadedItem → C)
    (hload : ∀ s, s.length < m → run propGauge load s ≠ .out) (count : ℕ) (c : C)
    (hs : s.length < m) : run propGauge (loadContainer load add count c) s ≠ .out := by
  apply run_bind_ne_out (loadContents_ne_out add hload count c hs)
  intro p r _
  dsimp only
  split
  · exact run_map_ne_out (run_getValue_ne_out 1 r)
  · exact Outcome.done_ne_out

theorem loadCreated_ne_out {load : ItemScript} (hn : n ≤ 2 ^ 31)
    (hload : ∀ s, s.length < n → run propGauge load s ≠ .out) (id : KindId) (hs : s.length < n) :
    run propGauge (loadCreated kinds getNameByGuid n load id) s ≠ .out := by
  rw [loadCreated]
  cases createItem kinds id 1 with
  | none => exact Outcome.done_ne_out
  | some item =>
    apply run_bind_ne_out (unserializeAttr_ne_out getNameByGuid n item s hs (by omega))
    intro p r hattr
    have hr := Nat.lt_of_le_of_lt (run_length_le hattr) hs
    dsimp only
    split
    · split
      · exact run_map_ne_out (loadContainer_ne_out _ hload _ _ hr)
      · exact Outcome.done_ne_out
    · exact Outcome.done_ne_out

/-- Each item inside another one takes two bytes. -/
theorem loadItemIn_ne_out (hn : n ≤ 2 ^ 31) (hs : s.length < n) :
    run propGauge (loadItemIn kinds getNameByGuid n) s ≠ .out := by
  induction n generalizing s with
  | zero => exact absurd hs (Nat.not_lt_zero _)
  | succ n ih =>
    apply run_bind_ne_out (run_getValue_ne_out 2 s)
    intro id r hid
    cases kinds (id.getD 0) with
    | none => exact Outcome.done_ne_out
    | some kind =>
      cases id with
      | none => exact Outcome.done_ne_out
      | some id =>
        have hbytes := run_getValue_some hid
        have hr : r.length < n := by omega
        exact loadCreated_ne_out (Nat.le_of_succ_le hn) (fun s hs => ih (Nat.le_of_succ_le hn) hs)
          id hr

/-! ## Only a string of a map can be too long -/

theorem bounded_loadContents {C : Type} {load : ItemScript}
    (hload : load.Bounded True LongString (2 ^ 31)) (add : C → LoadedItem → C) (count : ℕ) (c : C) :
    (loadContents load add count c).Bounded True LongString (2 ^ 31) := by
  induction count generalizing c with
  | zero => trivial
  | succ count ih =>
    apply hload.bind
    intro item
    cases item with
    | none => trivial
    | some item => exact ih _

theorem bounded_loadContainer {C : Type} {load : ItemScript}
    (hload : load.Bounded True LongString (2 ^ 31)) (add : C → LoadedItem → C) (count : ℕ) (c : C) :
    (loadContainer load add count c).Bounded True LongString (2 ^ 31) := by
  apply (bounded_loadContents hload add count c).bind
  intro p
  dsimp only
  split
  · exact (bounded_getValue (fun _ _ => LongString.field) (by decide)).map
  · trivial

theorem bounded_loadCreated {load : ItemScript} (hload : load.Bounded True LongString (2 ^ 31))
    (n : ℕ) (id : KindId) :
    (loadCreated kinds getNameByGuid n load id).Bounded True LongString (2 ^ 31) := by
  rw [loadCreated]
  cases createItem kinds id 1 with
  | none => trivial
  | some item =>
    apply (bounded_unserializeAttr getNameByGuid n item).bind
    intro p
    dsimp only
    split
    · split
      · exact (bounded_loadContainer hload _ _ _).map
      · trivial
    · trivial

theorem bounded_loadItemIn (n : ℕ) :
    (loadItemIn kinds getNameByGuid n).Bounded True LongString (2 ^ 31) := by
  induction n with
  | zero => trivial
  | succ n ih =>
    apply (bounded_getValue (fun _ _ => LongString.field) (by decide)).bind
    intro id
    cases kinds (id.getD 0) with
    | none => trivial
    | some kind => exact bounded_loadCreated ih n _

end Load

/-! ## What the scripts do -/

section Load

variable {kinds : KindId → Option StoredKind} {getNameByGuid : ℕ → Option (List UInt8)}
variable {n m : ℕ} {s r : PropStream}

/-- On streams that are short enough a script does what the reading of an item does. -/
def Performs (m : ℕ) (x : ItemScript) (load : Load) : Prop :=
  ∀ s item r, s.length < m → run propGauge x s = .done item r → load s = item.map fun i => (i, r)

theorem run_loadContents {x : ItemScript} {load : Load} (hload : Performs m x load) {count : ℕ}
    {c : ContainerState} {p : Bool × ℕ × ContainerState} (hs : s.length < m)
    (h : run propGauge (loadContents x ContainerState.put count c) s = .done p r) :
    TyanoCore.loadContents load true count c s = if p.1 then some (p.2.2, r) else none := by
  induction count generalizing c s with
  | zero =>
    obtain ⟨rfl, rfl⟩ := Outcome.done.inj h
    rfl
  | succ count ih =>
    obtain ⟨item, r₁, hitem, hrest⟩ := exists_of_run_bind h
    have hr := Nat.lt_of_le_of_lt (run_length_le hitem) hs
    rw [TyanoCore.loadContents, hload s item r₁ hs hitem]
    cases item with
    | none =>
      obtain ⟨rfl, rfl⟩ := Outcome.done.inj hrest
      rfl
    | some item =>
      have hadd := c.add_removed item
      rw [Option.map_some, Option.bind_eq_bind, Option.bind_some]
      dsimp only
      rw [hadd, Option.bind_eq_bind, Option.bind_some]
      exact ih hr hrest

theorem run_loadContainer {x : ItemScript} {load : Load} (hload : Performs m x load) {count : ℕ}
    {c : ContainerState} {p : Bool × ℕ × ContainerState} (hs : s.length < m)
    (h : run propGauge (loadContainer x ContainerState.put count c) s = .done p r) :
    TyanoCore.loadContainer load true count c s = if p.1 then some (p.2.2, r) else none := by
  obtain ⟨q, r₁, hitems, hend⟩ := exists_of_run_bind h
  rw [TyanoCore.loadContainer, run_loadContents hload hs hitems]
  dsimp only at hend
  split at hend
  · next hok =>
    have heval := eval_of_run hend
    rw [eval_map, getUChar, eval_getValue, Option.map_some] at heval
    obtain ⟨rfl, rfl⟩ := Prod.mk.inj (Option.some.inj heval)
    rw [if_pos hok]
    dsimp only
    by_cases hmark : (PropStream.getValue 1 r₁).1.getD 0 = 0
    · rw [decide_eq_true hmark, if_pos rfl]
      exact if_pos hmark
    · rw [decide_eq_false hmark]
      exact if_neg hmark
  · next hok =>
    obtain ⟨rfl, rfl⟩ := Outcome.done.inj hend
    rw [if_neg hok]
    rfl

theorem performs_loadCreated {x : ItemScript} {load : Load} (hload : Performs n x load) {id : KindId}
    {item : StoredItem} (hitem : createItem kinds id 1 = some item) :
    Performs n (loadCreated kinds getNameByGuid n x id)
      (TyanoCore.loadCreated getNameByGuid load item) := by
  intro s loaded r hs h
  rw [loadCreated, hitem] at h
  obtain ⟨p, r₁, hattr, hrest⟩ := exists_of_run_bind h
  have hr := Nat.lt_of_le_of_lt (run_length_le hattr) hs
  rw [TyanoCore.loadCreated, run_unserializeAttr_enough getNameByGuid hs hattr]
  cases p with
  | mk ok item =>
  cases ok with
  | false =>
    obtain ⟨rfl, rfl⟩ := Outcome.done.inj hrest
    rfl
  | true =>
    dsimp only at hrest ⊢
    rw [if_pos rfl] at hrest
    split at hrest
    · next hcontainer =>
      obtain ⟨q, hitems, rfl⟩ := exists_of_run_map hrest
      rw [if_pos hcontainer, run_loadContainer hload hr hitems]
      cases q with
      | mk ok c => cases ok <;> rfl
    · next hcontainer =>
      obtain ⟨rfl, rfl⟩ := Outcome.done.inj hrest
      rw [if_neg hcontainer]
      rfl

/-- Where no read is foreign, the script does what `loadItem` does on the stream. -/
theorem performs_loadItemIn (n : ℕ) :
    Performs n (loadItemIn kinds getNameByGuid n) (TyanoCore.loadItemIn kinds getNameByGuid n) := by
  induction n with
  | zero => exact fun s item r hs => absurd hs (Nat.not_lt_zero _)
  | succ n ih =>
    intro s item r hs h
    obtain ⟨id, r₁, hid, hrest⟩ := exists_of_run_bind h
    have hread : PropStream.getUShort s = (id, r₁) := by
      have heval := eval_of_run hid
      rw [getUShort, eval_getValue] at heval
      exact Option.some.inj heval
    rw [TyanoCore.loadItemIn, hread]
    dsimp only at hrest ⊢
    cases hkind : kinds (id.getD 0) with
    | none =>
      rw [hkind] at hrest
      obtain ⟨rfl, rfl⟩ := Outcome.done.inj hrest
      rfl
    | some kind =>
      rw [hkind] at hrest
      dsimp only at hrest ⊢
      cases hcreate : createItem kinds (id.getD 0) 1 with
      | none =>
        rw [loadCreated, hcreate] at hrest
        obtain ⟨rfl, rfl⟩ := Outcome.done.inj hrest
        rfl
      | some item =>
        cases id with
        | none => cases hcreate
        | some id =>
          have hbytes := run_getValue_some hid
          exact performs_loadCreated ih hcreate r₁ _ r (by omega) hrest

end Load

section World

variable {W : Type} (world : HouseWorld W) {n : ℕ} {s r : PropStream}

theorem loadInside_ne_out (w : W) (i : ItemId) (hn : n ≤ 2 ^ 31) (hs : s.length < n) :
    run propGauge (loadInside world n w i) s ≠ .out :=
  run_map_ne_out (loadContainer_ne_out _ (fun _ hs => loadItemIn_ne_out hn hs) _ _ hs)

theorem loadStationary_ne_out (w : W) (i : ItemId) (id : KindId) (hn : n ≤ 2 ^ 31)
    (hs : s.length < n) : run propGauge (loadStationary world n w i id) s ≠ .out := by
  apply run_bind_ne_out (unserializeAttr_ne_out _ n _ s hs (by omega))
  intro p r hattr
  have hr := Nat.lt_of_le_of_lt (run_length_le hattr) hs
  dsimp only
  split
  · split
    · exact run_map_ne_out (loadInside_ne_out world _ i hn hr)
    · exact Outcome.done_ne_out
  · exact Outcome.done_ne_out

theorem loadMissing_ne_out (parent : HouseParent W) (depotTransfer : Bool) (id : KindId) (w : W)
    (hn : n ≤ 2 ^ 31) (hs : s.length < n) :
    run propGauge (loadMissing world n parent depotTransfer id w) s ≠ .out := by
  rw [loadMissing]
  cases createItem world.kinds id 1 with
  | none => exact Outcome.done_ne_out
  | some item =>
    apply run_bind_ne_out (unserializeAttr_ne_out _ n _ s hs (by omega))
    intro p r hattr
    have hr := Nat.lt_of_le_of_lt (run_length_le hattr) hs
    dsimp only
    split
    · exact run_map_ne_out (loadContainer_ne_out _ (fun _ hs => loadItemIn_ne_out hn hs) _ _ hr)
    · exact Outcome.done_ne_out

theorem loadItem_ne_out (parent : HouseParent W) (depotTransfer : Bool) (w : W) (hn : n ≤ 2 ^ 31)
    (hs : s.length < n) : run propGauge (loadItem world n parent depotTransfer w) s ≠ .out := by
  apply run_bind_ne_out (run_getValue_ne_out 2 s)
  intro id r hid
  have hr := Nat.lt_of_le_of_lt (run_length_le hid) hs
  cases world.kinds (id.getD 0) with
  | none => exact Outcome.done_ne_out
  | some kind =>
    dsimp only
    split
    · exact run_map_ne_out (loadCreated_ne_out hn (fun _ hs => loadItemIn_ne_out hn hs) _ hr)
    · split
      · exact loadStationary_ne_out world w _ _ hn hr
      · exact loadMissing_ne_out world parent depotTransfer _ w hn hr

theorem loadItems_ne_out (parent : HouseParent W) (depotTransfer : Bool) (itemCount : ℕ) (w : W)
    (hn : n ≤ 2 ^ 31) (hs : s.length < n) :
    run propGauge (loadItems world n parent depotTransfer itemCount w) s ≠ .out := by
  induction itemCount generalizing w s with
  | zero => exact Outcome.done_ne_out
  | succ itemCount ih =>
    apply run_bind_ne_out (loadItem_ne_out world parent depotTransfer w hn hs)
    intro p r hitem
    exact ih p.2 (Nat.lt_of_le_of_lt (run_length_le hitem) hs)

theorem bounded_loadInside (n : ℕ) (w : W) (i : ItemId) :
    (loadInside world n w i).Bounded True LongString (2 ^ 31) :=
  (bounded_loadContainer (bounded_loadItemIn n) _ _ _).map

theorem bounded_loadStationary (n : ℕ) (w : W) (i : ItemId) (id : KindId) :
    (loadStationary world n w i id).Bounded True LongString (2 ^ 31) := by
  apply (bounded_unserializeAttr _ n _).bind
  intro p
  dsimp only
  split
  · split
    · exact (bounded_loadInside world n _ i).map
    · trivial
  · trivial

theorem bounded_loadMissing (n : ℕ) (parent : HouseParent W) (depotTransfer : Bool) (id : KindId)
    (w : W) : (loadMissing world n parent depotTransfer id w).Bounded True LongString (2 ^ 31) := by
  rw [loadMissing]
  cases createItem world.kinds id 1 with
  | none => trivial
  | some item =>
    apply (bounded_unserializeAttr _ n item).bind
    intro p
    dsimp only
    split
    · exact (bounded_loadContainer (bounded_loadItemIn n) _ _ _).map
    · trivial

theorem bounded_loadItem (n : ℕ) (parent : HouseParent W) (depotTransfer : Bool) (w : W) :
    (loadItem world n parent depotTransfer w).Bounded True LongString (2 ^ 31) := by
  apply (bounded_getValue (fun _ _ => LongString.field) (by decide)).bind
  intro id
  cases world.kinds (id.getD 0) with
  | none => trivial
  | some kind =>
    dsimp only
    split
    · exact (bounded_loadCreated (bounded_loadItemIn n) n _).map
    · split
      · exact bounded_loadStationary world n w _ _
      · exact bounded_loadMissing world n parent depotTransfer _ w

end World

/-! ## Reads inside the blob -/

section Inside

variable {W : Type} (world : HouseWorld W)

/-- Attributes, items and containers are read from a blob of less than 2^31 bytes without a foreign read
exactly if the lengths that the blob tells for the strings of maps fit; no attribute but a map is read
beyond the end, and where an item is read, it is the one that the loading of items makes of the blob. -/
theorem blob_staysInside_iff (blob : List UInt8) (hblob : blob.length < 2 ^ 31) :
    (∀ item, StaysInside propGauge (unserializeAttr world.getNameByGuid (blob.length + 1) item) blob ↔
      StringsFit (unserializeAttr world.getNameByGuid (blob.length + 1) item) blob) ∧
    (∀ parent depotTransfer w,
      StaysInside propGauge (loadItem world (blob.length + 1) parent depotTransfer w) blob ↔
        StringsFit (loadItem world (blob.length + 1) parent depotTransfer w) blob) ∧
    (∀ (C : Type) (add : C → LoadedItem → C) (serializationCount : ℕ) (c : C),
      let load := loadItemIn world.kinds world.getNameByGuid (blob.length + 1)
      StaysInside propGauge (loadContainer load add serializationCount c) blob ↔
        StringsFit (loadContainer load add serializationCount c) blob) ∧
    (∀ attr ≠ 128, ∀ item, StaysInside propGauge (readAttr world.getNameByGuid attr item) blob) ∧
    ∀ item r, run propGauge (loadItemIn world.kinds world.getNameByGuid (blob.length + 1)) blob =
        .done item r →
      TyanoCore.loadItemIn world.kinds world.getNameByGuid (blob.length + 1) blob =
        item.map fun i => (i, r) := by
  have henough : blob.length < blob.length + 1 := Nat.lt_succ_self _
  refine ⟨fun item => ?_, fun parent depotTransfer w => ?_, fun C add serializationCount c => ?_,
    fun attr hattr item => ?_, fun item r => ?_⟩
  · apply staysInside_iff_stringsFit (bounded_unserializeAttr _ _ item) hblob
    exact unserializeAttr_ne_out _ _ item blob henough hblob
  · apply staysInside_iff_stringsFit (bounded_loadItem world _ parent depotTransfer w) hblob
    exact loadItem_ne_out world parent depotTransfer w hblob henough
  · apply staysInside_iff_stringsFit (bounded_loadContainer (bounded_loadItemIn _) _ _ c) hblob
    exact loadContainer_ne_out add (fun _ hs => loadItemIn_ne_out hblob hs) serializationCount c
      henough
  · exact staysInside_readAttr world.getNameByGuid hattr item hblob
  · exact performs_loadItemIn _ blob item r henough

end Inside

/-- A tile with nothing on it, which gets its items in a list. -/
def emptyTile : HouseParent (List ItemTree) where
  things := some fun _ => []
  add w item := item.1 :: w
  addThing w t := t :: w

def emptyWorld : HouseWorld (List ItemTree) where
  kinds := bagKinds
  getNameByGuid := fun _ => none
  item := fun _ _ => { kind := { id := 2160 } }
  setItem w _ _ := w
  addInside w _ _ := w
  transformItem w _ _ := w

theorem blob_staysInside_coinBag :
    StaysInside propGauge (loadItem emptyWorld ((saveItem coinBag).length + 1) emptyTile false [])
      (saveItem coinBag) :=
  ((blob_staysInside_iff emptyWorld (saveItem coinBag) (by decide)).2.1 emptyTile false []).mpr
    (by decide)

/-- A map with one string, which is said to have 2^32 - 1 bytes. -/
def longString : List UInt8 := [128, 1, 0, 1, 0, 97, 1, 255, 255, 255, 255]

theorem longString_not_staysInside : longString.length < 2 ^ 31 ∧
    ¬ StaysInside propGauge
      (unserializeAttr (fun _ => none) (longString.length + 1) { kind := { id := 2160 } })
      longString := by
  have hforeign : run propGauge
      (unserializeAttr (fun _ => none) (longString.length + 1) { kind := { id := 2160 } }) longString =
        .foreign := rfl
  refine ⟨by decide, fun h => ?_⟩
  obtain ⟨p, r, hrun, -⟩ := h
  rw [hforeign] at hrun
  exact Outcome.foreign_ne_done hrun

/-! ## The loop over a blob -/

section House

variable {W : Type} (src : HouseSource W) {n : ℕ} {s : PropStream}

theorem loadPosition_ne_out (x y z itemCount : ℕ) (w : W) (hn : n ≤ 2 ^ 31) (hs : s.length < n) :
    run propGauge (loadPosition src n x y z itemCount w) s ≠ .out := by
  rw [loadPosition]
  cases Position.of x y z with
  | none => exact Outcome.done_ne_out
  | some pos =>
    dsimp only
    split
    · cases src.depot with
      | none => exact Outcome.done_ne_out
      | some depot => exact run_map_ne_out (loadItems_ne_out _ depot true itemCount w hn hs)
    · cases src.getTile pos with
      | none => exact Outcome.done_ne_out
      | some tile => exact run_map_ne_out (loadItems_ne_out _ tile false itemCount w hn hs)

/-- Each round takes a byte of a blob that is not too long: the third coordinate is read wherever there
is one. -/
theorem loadHouse_ne_out (w : W) (hn : n ≤ 2 ^ 31) (hs : s.length < n) :
    run propGauge (loadHouse src n w) s ≠ .out := by
  induction n generalizing s w with
  | zero => exact absurd hs (Nat.not_lt_zero _)
  | succ n ih =>
    have hsize : s.length % 2 ^ 32 = s.length := Nat.mod_eq_of_lt (by omega)
    rw [loadHouse, run]
    by_cases hleft : s.length = 0
    · have hmore : propGauge.more s = false := decide_eq_false (by rw [hsize]; exact not_not.mpr hleft)
      rw [hmore]
      exact Outcome.done_ne_out
    have hmore : propGauge.more s = true := decide_eq_true (by rw [hsize]; exact hleft)
    rw [hmore, if_pos rfl]
    apply run_bind_ne_out (run_getValue_ne_out 2 s)
    intro x r₁ hx
    have hx := run_length_le hx
    apply run_bind_ne_out (run_getValue_ne_out 2 r₁)
    intro y r₂ hy
    have hy := run_length_le hy
    apply run_bind_ne_out (run_getValue_ne_out 1 r₂)
    intro z r₃ hz
    have hz := run_getUChar_length (by omega) hz
    apply run_bind_ne_out (run_getValue_ne_out 4 r₃)
    intro itemCount r₄ hcount
    have hcount := run_length_le hcount
    apply run_bind_ne_out (loadPosition_ne_out src _ _ _ _ w (Nat.le_of_succ_le hn) (by omega))
    intro p r₅ hitems
    have hitems := run_length_le hitems
    dsimp only
    split
    · exact ih p.2 (by omega) (by omega)
    · exact Outcome.done_ne_out

/-- Where the reads fail, the loop stays at this position. -/
def zero : Position :=
  ⟨0, 0, 0, Nat.zero_le Position.maxX, Nat.zero_le Position.maxY, Nat.zero_le Position.maxZ⟩

/-- The loop does not stop at the position that it gets from reads that fail. -/
def GoesOn : Prop := src.pending = true ∨ (src.getTile zero).isSome

theorem loadPosition_zero (n : ℕ) (w : W) :
    ∃ goesOn w', loadPosition src n 0 0 0 0 w = .done (goesOn, w') ∧
      (goesOn = true ↔ GoesOn src) := by
  have hpos : Position.of (0 : ℕ) (0 : ℕ) (0 : ℕ) = some zero := rfl
  rw [loadPosition, hpos]
  dsimp only
  by_cases hpending : src.pending = true
  · rw [if_pos hpending]
    have hgoes : GoesOn src := Or.inl hpending
    cases src.depot with
    | none => exact ⟨true, w, rfl, iff_of_true rfl hgoes⟩
    | some depot => exact ⟨true, src.savePlayer w, rfl, iff_of_true rfl hgoes⟩
  · rw [if_neg hpending, GoesOn, or_iff_right hpending]
    cases src.getTile zero with
    | none => exact ⟨false, w, rfl, iff_of_false Bool.false_ne_true Bool.false_ne_true⟩
    | some tile => exact ⟨true, w, rfl, iff_of_true rfl rfl⟩

/-- On a blob from 2^31 bytes on every read fails, and a round leaves the stream as it was. -/
theorem run_loadHouse_long (hs : 2 ^ 31 ≤ s.length) (hs' : s.length < 2 ^ 32) (n : ℕ) (w : W) :
    ∃ w', run propGauge (loadHouse src (n + 1) w) s = .done w' s ∧ ¬ GoesOn src ∨
      run propGauge (loadHouse src (n + 1) w) s = run propGauge (loadHouse src n w') s ∧
        GoesOn src := by
  have hmore : propGauge.more s = true := decide_eq_true (by rw [Nat.mod_eq_of_lt hs']; omega)
  have hushort : run propGauge getUShort s = .done none s := run_getValue_long (by decide) hs hs'
  have huchar : run propGauge getUChar s = .done none s := run_getValue_long (by decide) hs hs'
  have hulong : run propGauge getULong s = .done none s := run_getValue_long (by decide) hs hs'
  obtain ⟨goesOn, w', hround, hiff⟩ := loadPosition_zero src n w
  have hrun : run propGauge (loadHouse src (n + 1) w) s =
      run propGauge (if goesOn then loadHouse src n w' else .done w') s := by
    rw [loadHouse, run, hmore, if_pos rfl, run_bind_of_done hushort, run_bind_of_done hushort,
      run_bind_of_done huchar, run_bind_of_done hulong]
    dsimp only [Option.getD_none]
    rw [hround]
    rfl
  refine ⟨w', ?_⟩
  cases goesOn with
  | false => exact Or.inl ⟨hrun, fun h => Bool.false_ne_true (hiff.mpr h)⟩
  | true => exact Or.inr ⟨hrun, hiff.mp rfl⟩

theorem not_ends_long (hgoes : GoesOn src) (hs : 2 ^ 31 ≤ s.length) (hs' : s.length < 2 ^ 32)
    (w : W) : ¬ Ends propGauge (fun n => loadHouse src n w) s := by
  intro h
  obtain ⟨n, hn⟩ := h
  apply hn
  clear hn
  -- no round makes the stream shorter, so that every bound is used up
  induction n generalizing w with
  | zero => rfl
  | succ n ih =>
    obtain ⟨w', hround⟩ := run_loadHouse_long src hs hs' n w
    cases hround with
    | inl h => exact absurd hgoes h.2
    | inr h => exact h.1.trans (ih w')

/-- The loop over the data of a house performs finitely many steps exactly if the size of the data is not
negative as an `int32_t`, or the first round is the last one. -/
theorem loadHouse_ends_iff (w : W) (blob : List UInt8) :
    Ends propGauge (fun n => loadHouse src n w) (init blob) ↔
      blob.length % 2 ^ 32 < 2 ^ 31 ∨ src.pending = false ∧ src.getTile zero = none := by
  have hlength : (init blob).length = blob.length % 2 ^ 32 :=
    List.length_take_of_le (Nat.mod_le _ _)
  have hstop : ¬ GoesOn src ↔ src.pending = false ∧ src.getTile zero = none := by
    rw [GoesOn, not_or, Bool.not_eq_true, Bool.not_eq_true, Option.isSome_eq_false_iff,
      Option.isNone_iff_eq_none]
  rw [← hstop, ← hlength]
  constructor
  · intro h
    by_contra hnot
    rw [not_or, not_not, Nat.not_lt] at hnot
    have hlt : (init blob).length < 2 ^ 32 := by
      rw [hlength]
      exact Nat.mod_lt _ (by decide)
    exact not_ends_long src hnot.2 hnot.1 hlt w h
  · intro h
    by_cases hshort : (init blob).length < 2 ^ 31
    · exact ⟨(init blob).length + 1, loadHouse_ne_out src w hshort (Nat.lt_succ_self _)⟩
    · have hgoes := h.resolve_left hshort
      have hlt : (init blob).length < 2 ^ 32 := by
        rw [hlength]
        exact Nat.mod_lt _ (by decide)
      obtain ⟨w', hround⟩ := run_loadHouse_long src (Nat.not_lt.mp hshort) hlt 0 w
      refine ⟨1, ?_⟩
      cases hround with
      | inl hdone =>
        rw [hdone.1]
        exact Outcome.done_ne_out
      | inr hnext => exact absurd hnext.2 hgoes

end House

/-- A house that is to be transferred to a player with an empty depot. -/
def pendingHouse : HouseSource (List ItemTree) where
  toHouseWorld := emptyWorld
  pending := true
  depot := some { emptyTile with things := none }
  savePlayer w := w
  getTile := fun _ => none

theorem longBlob_not_ends :
    ¬ Ends propGauge (fun n => loadHouse pendingHouse n []) (init (List.replicate (2 ^ 31) 0)) := by
  have hlength : (init (List.replicate (2 ^ 31) 0)).length = 2 ^ 31 := by
    rw [init, List.length_replicate, List.length_take, List.length_replicate]
    decide
  exact not_ends_long pendingHouse (Or.inl rfl) hlength.ge (by rw [hlength]; decide) []

end Blob

end TyanoCore
