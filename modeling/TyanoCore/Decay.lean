import TyanoCore.MoveItem

/-!
# Decaying items

`Item::setKind`, `Game::transformItem`, `Game::startDecay`, `Game::checkDecay` and `Game::cleanup` with
the queue and the sixteen buckets they keep.  What the cylinders around an item answer is a choice of
the environment; of an item only what these functions look at is modelled.
-/

namespace TyanoCore

/-- `EVENT_DECAYINTERVAL`, in milliseconds. -/
def eventDecayInterval : ℤ := 1000

def eventDecayBuckets : ℕ := 16

/-- A full turn of the buckets. -/
def decayTurn : ℤ := eventDecayInterval * eventDecayBuckets

inductive ItemDecayState where
  | decayingFalse
  | decayingTrue
  | decayingPending
deriving DecidableEq

structure DecayKind extends ItemKind where
  decayTo : ℤ := -1
  /-- In seconds. -/
  decayTime : ℕ := 0
  stopTime : Bool := false

def DecayKind.hasSubType (k : DecayKind) : Bool :=
  k.isFluidContainer || k.isSplash || k.stackable || k.charges ≠ 0

/-- `kind->decayTime * 1000`, in 32 bits. -/
def DecayKind.defaultDuration (k : DecayKind) : ℕ := k.decayTime * 1000 % 2 ^ 32

/-- A number of 32 bits as `int32_t`. -/
def asInt32 (n : ℕ) : ℤ := (n : ℤ).bmod (2 ^ 32)

/-- An item with its attributes `decaying` and `duration`. -/
structure DecayItem where
  kind : DecayKind
  count : ℕ := 1
  charges : ℕ := 0
  fluidType : ℕ := 0
  decaying : Option ItemDecayState := none
  duration : Option ℤ := none
  hasParent : Bool := true
  /-- Whether the item, or a container around it, has been taken out of the world. -/
  isRemoved : Bool := false
  /-- Loaded from the map with a unique id, or as a container with an action id. -/
  isFixed : Bool := false

namespace DecayItem

variable (item : DecayItem)

def getDecaying : ItemDecayState := item.decaying.getD .decayingFalse
def getDuration : ℤ := item.duration.getD 0

def setDecaying (state : ItemDecayState) : DecayItem := { item with decaying := some state }

def decreaseDuration (time : ℤ) : DecayItem :=
  { item with duration := item.duration.map fun v => v - time }

def canDecay : Bool :=
  !item.isRemoved && !item.isFixed && 0 ≤ item.kind.decayTo && item.kind.decayTime ≠ 0

def getSubType : ℕ :=
  if item.kind.isFluidContainer || item.kind.isSplash then item.fluidType
  else if item.kind.charges ≠ 0 then item.charges
  else item.count

def setSubType (n : ℕ) : DecayItem :=
  if item.kind.isFluidContainer || item.kind.isSplash then { item with fluidType := n }
  else if item.kind.charges ≠ 0 then { item with charges := n }
  else { item with count := n }

def setDefaultSubtype : DecayItem :=
  { item with
    count := 1
    charges := if item.kind.charges ≠ 0 then item.kind.charges else item.charges }

def setKind (kind : DecayKind) : DecayItem :=
  let previousStopTime := item.kind.stopTime
  let newDuration := kind.defaultDuration
  let item :=
    -- a kind that neither decays nor counts takes both attributes away
    if newDuration = 0 ∧ ¬ kind.stopTime ∧ kind.decayTo = -1 then
      { item with kind := kind, decaying := none, duration := none }
    else { item with kind := kind }
  if 0 < newDuration ∧ (¬ previousStopTime ∨ item.duration = none) then
    { item with decaying := some .decayingFalse, duration := some (asInt32 newDuration) }
  else item

end DecayItem

/-- `Item::CreateItem` for an item that is put somewhere. -/
def DecayItem.createItem (kinds : KindId → Option DecayKind) (kindId : KindId)
    (amount : Option ℕ) : Option DecayItem :=
  if kindId = 0 then none
  else match kinds (createdKindId kindId) with
  | none => none
  | some kind =>
    if kind.group = .deprecated then none
    else
      let new := Item.new kind.toItemKind (amount.getD 1)
      let duration := kind.defaultDuration
      some { kind := kind, count := new.count, charges := new.charges, fluidType := new.fluidType
             duration := if duration = 0 then none else some (asInt32 duration) }

structure DecayState where
  item : ItemId → DecayItem
  toDecayItems : List ItemId := []
  decayItems : ℕ → List ItemId := fun _ => []
  lastBucket : ℕ := 0
  /-- The number the next created item gets. -/
  next : ItemId

namespace DecayState

variable (s : DecayState)

def setItem (i : ItemId) (item : DecayItem) : DecayState :=
  { s with item := fun j => if j = i then item else s.item j }

/-- The item leaves the world. -/
def remove (i : ItemId) : DecayState :=
  s.setItem i { s.item i with hasParent := false, isRemoved := true }

def create (item : DecayItem) : DecayState :=
  { s.setItem s.next item with next := s.next + 1 }

def pushBucket (bucket : ℕ) (i : ItemId) : DecayState :=
  { s with decayItems := fun b => if b = bucket then s.decayItems b ++ [i] else s.decayItems b }

end DecayState

/-- What the cylinder of an item answers while the item is transformed or removed. -/
structure CylinderAnswers where
  /-- `__getIndexOfThing` finds the item. -/
  finds : Bool := true
  canTransform : Bool := true
  /-- `internalRemoveItem` returns `RET_NOERROR`. -/
  removes : Bool := true
  /-- `internalAddItem` returns `RET_NOERROR`. -/
  adds : Bool := true

variable (kinds : KindId → Option DecayKind)

/-- The body of `Game::transformItem`, with the call it makes of itself as an argument. -/
def Game.transformItemBody (recurse : KindId → DecayState × Option ItemId) (a : CylinderAnswers)
    (s : DecayState) (i : ItemId) (newId : KindId) (newCount : Option ℕ) :
    DecayState × Option ItemId :=
  let item := s.item i
  let oldKind := item.kind
  if oldKind.id = newId ∧
      (newCount = none ∨ newCount = some item.getSubType ∧ newCount ≠ some 0) then (s, some i)
  else if !item.hasParent then (s, none)
  else if !a.finds || !a.canTransform then (s, some i)
  else match kinds newId with
  | none => (s, some i)
  | some newKind =>
    -- "from a downItem to a topItem (or vice versa)"
    if oldKind.alwaysOnTop ≠ newKind.alwaysOnTop then
      if !a.removes then (s, some i)
      else
        let s := s.remove i
        match DecayItem.createItem kinds newId newCount with
        | none => (s, none)
        | some newItem =>
          -- the attributes are copied, but neither the state nor the duration
          let s' := s.create { newItem with
            charges := item.charges, fluidType := item.fluidType
            decaying := none, duration := none, hasParent := a.adds, isRemoved := !a.adds }
          (s', if a.adds then some s.next else none)
    else if oldKind.type = newKind.type then
      -- the item is used up: it becomes what it decays to, or it is removed
      if newCount = some 0 ∧ (oldKind.stackable ∨ oldKind.charges ≠ 0) then
        let tmpId : ℤ := if oldKind.id = newKind.id then oldKind.decayTo else newId
        if ¬ oldKind.stackable ∧ (oldKind.defaultDuration = 0 ∨ item.getDuration ≤ 0)
            ∧ tmpId ≠ -1 then recurse (tmpId % 2 ^ 16).toNat
        else (if a.removes then s.remove i else s, none)
      else
        let count := item.getSubType
        let item :=
          if oldKind.id ≠ newKind.id ∧ oldKind.group ≠ newKind.group then item.setDefaultSubtype
          else item
        let count := if newKind.hasSubType then newCount.getD count else count
        (s.setItem i ((item.setKind newKind).setSubType (count % 2 ^ 16)), some i)
    else
      match DecayItem.createItem kinds newId newCount with
      | none => (s, none)
      | some newItem => ((s.create newItem).remove i, some s.next)

/-- `Game::transformItem`; the call it makes of itself gives no count and so makes no further
one. -/
def Game.transformItem (a : CylinderAnswers) (s : DecayState) (i : ItemId) (newId : KindId)
    (newCount : Option ℕ) : DecayState × Option ItemId :=
  Game.transformItemBody kinds
    (fun tmpId => Game.transformItemBody kinds (fun _ => (s, none)) a s i tmpId none)
    a s i newId newCount

def Game.internalDecayItem (startDecay : DecayState → ItemId → Option DecayState)
    (a : CylinderAnswers) (s : DecayState) (i : ItemId) : Option DecayState :=
  let decayTo := (s.item i).kind.decayTo
  if decayTo ≠ 0 then
    match Game.transformItem kinds a s i (decayTo % 2 ^ 16).toNat none with
    | (s, none) => some s
    | (s, some newItem) => startDecay s newItem
  else some (if a.removes then s.remove i else s)

/-- `Game::startDecay`; `none` when the items decay into each other without end. -/
def Game.startDecay (answers : ℕ → ItemId → CylinderAnswers) :
    ℕ → DecayState → ItemId → Option DecayState
  | 0, _, _ => none
  | n + 1, s, i =>
    let item := s.item i
    -- an item that is queued already is not queued twice
    if !item.canDecay || item.getDecaying = .decayingTrue then some s
    else if 0 < item.getDuration then
      some { s.setItem i (item.setDecaying .decayingTrue) with
        toDecayItems := s.toDecayItems ++ [i] }
    else Game.internalDecayItem kinds (Game.startDecay answers n) (answers n i) s i

/-! ## The buckets -/

/-- The bucket in which `Game::cleanup` files an item. -/
def DecayState.bucketFor (s : DecayState) (i : ItemId) : ℕ :=
  let dur := (s.item i).getDuration
  if decayTurn ≤ dur then s.lastBucket
  else ((s.lastBucket + 1 + dur.tdiv 1000) % eventDecayBuckets).toNat

def Game.cleanup (s : DecayState) : DecayState :=
  { s.toDecayItems.foldl (fun s' i => s'.pushBucket (s.bucketFor i) i) s with toDecayItems := [] }

/-- What `Game::checkDecay` does with an entry of the bucket. -/
inductive DecayVisit where
  | stop
  | decay
  | refile (bucket : ℕ)
  | keep
deriving DecidableEq

/-- The item with the duration that a visit leaves it. -/
def DecayItem.aged (item : DecayItem) : DecayItem :=
  item.decreaseDuration
    (if item.getDuration - decayTurn < 0 then item.getDuration else decayTurn)

def DecayItem.visit (item : DecayItem) (bucket : ℕ) : DecayVisit :=
  if !item.aged.canDecay then .stop
  else
    -- the rest is rounded to the nearest tick
    let dur := item.aged.getDuration
    if dur ≤ 0 then .decay
    else if dur < decayTurn then
      let newBucket := (bucket + ((dur + eventDecayInterval / 2) / 1000).toNat) % eventDecayBuckets
      if newBucket = bucket then .decay else .refile newBucket
    else .keep

/-- One round of the loop of `Game::checkDecay`; the entries that stay are put back in order. -/
def Game.visitEntry (answers : ℕ → ItemId → CylinderAnswers) (n : ℕ) (s : DecayState)
    (i : ItemId) : Option DecayState :=
  let item := s.item i
  let aged := s.setItem i item.aged
  match item.visit s.lastBucket with
  -- an item that cannot decay here leaves the buckets
  | .stop => some (s.setItem i (item.aged.setDecaying .decayingFalse))
  | .decay => Game.internalDecayItem kinds (Game.startDecay kinds answers n) (answers n i) aged i
  | .refile bucket => some (aged.pushBucket bucket i)
  | .keep => some (aged.pushBucket s.lastBucket i)

def Game.checkDecay (answers : ℕ → ItemId → CylinderAnswers) (n : ℕ) (s : DecayState) :
    Option DecayState :=
  let bucket := (s.lastBucket + 1) % eventDecayBuckets
  let emptied : DecayState :=
    { s with
      lastBucket := bucket
      decayItems := fun b => if b = bucket then [] else s.decayItems b }
  ((s.decayItems bucket).foldlM (Game.visitEntry kinds answers n) emptied).map Game.cleanup

end TyanoCore
