import TyanoCore.PropStream
import TyanoCore.Position
import TyanoCore.OrderedTree
import TyanoCore.Decay

/-!
# Items in streams

Items as they are saved and loaded: their attributes by name, what `readAttr` makes of each attribute
number in the classes of items, what `serializeAttr` writes, and `Item::CreateItem`.  Unique ids are not
registered and messages not logged.
-/

namespace TyanoCore

open PropStream

/-! ## Attributes -/

/-- A `std::string`. -/
abbrev AttributeName := List UInt8

def attributeName (s : String) : AttributeName := s.toList.map fun c => UInt8.ofNat c.toNat

inductive AttributeType where
  | boolean
  | integer
  | float
  | string
deriving DecidableEq

/-- The value of an attribute; integers and floats are kept as the bits that are saved. -/
inductive AttributeValue where
  | boolean (value : Bool)
  | integer (bits : BitVec 32)
  | float (bits : BitVec 32)
  | string (value : List UInt8)
deriving DecidableEq

def AttributeValue.type : AttributeValue → AttributeType
  | .boolean _ => .boolean
  | .integer _ => .integer
  | .float _ => .float
  | .string _ => .string

/-- `Values`: each name has at most one entry. -/
structure Values where
  entries : List (AttributeName × AttributeValue) := []
  nodup : (entries.map Prod.fst).Nodup := by simp
deriving DecidableEq

namespace Values

theorem nodup_nil : ((List.nil : List (AttributeName × AttributeValue)).map Prod.fst).Nodup :=
  List.nodup_nil

def get (v : Values) (name : AttributeName) : Option AttributeValue := v.entries.lookup name

def put (v : Values) (name : AttributeName) (value : AttributeValue) : Values where
  entries := (name, value) :: v.entries.filter fun e => e.1 ≠ name
  nodup := by
    rw [List.map_cons, List.nodup_cons]
    constructor
    · intro hmem
      obtain ⟨e, he, heq⟩ := List.mem_map.mp hmem
      exact of_decide_eq_true (List.mem_filter.mp he).2 heq
    · exact (List.filter_sublist.map _).nodup v.nodup

end Values

def itemAttributes : List (AttributeName × AttributeType) :=
  [(attributeName "aid", .integer), (attributeName "armor", .integer),
    (attributeName "article", .string), (attributeName "attack", .integer),
    (attributeName "attackspeed", .integer), (attributeName "charges", .integer),
    (attributeName "corpseowner", .integer), (attributeName "date", .integer),
    (attributeName "decaying", .integer), (attributeName "defense", .integer),
    (attributeName "description", .string), (attributeName "duration", .integer),
    (attributeName "extraattack", .integer), (attributeName "extradefense", .integer),
    (attributeName "fluidtype", .integer), (attributeName "hitchance", .integer),
    (attributeName "name", .string), (attributeName "owner", .integer),
    (attributeName "pluralname", .string), (attributeName "scriptprotected", .boolean),
    (attributeName "shootrange", .integer), (attributeName "text", .string),
    (attributeName "uid", .integer), (attributeName "writer", .string)]

/-- `getClassAttributes` of the class that belongs to a type. -/
def classAttributes : ItemType → List (AttributeName × AttributeType)
  | .bed => (attributeName "sleepstart", .integer) :: itemAttributes
  | .depot => (attributeName "depotid", .integer) :: itemAttributes
  | .door => (attributeName "doorid", .integer) :: itemAttributes
  | _ => itemAttributes

/-! ## Items -/

deriving instance DecidableEq for DecayKind

structure StoredKind extends DecayKind where
  forceSerialize : Bool := false
  canWriteText : Bool := false
deriving DecidableEq

def StoredKind.isContainer (kind : StoredKind) : Bool := kind.group = .container

/-- The classes of items. -/
inductive CreatedClass where
  | item
  | depot
  | container
  | teleporter
  | magicField
  | door
  | trashHolder
  | mailbox
  | bed
deriving DecidableEq

/-- The class of which `CreateItem` makes the items of a kind. -/
def StoredKind.createdClass (kind : StoredKind) : CreatedClass :=
  if kind.type = .depot then .depot
  else if kind.isContainer then .container
  else if kind.type = .teleporter then .teleporter
  else if kind.type = .magicField then .magicField
  else if kind.type = .door then .door
  else if kind.type = .trashHolder then .trashHolder
  else if kind.type = .mailbox then .mailbox
  else if kind.type = .bed then .bed
  else .item

/-- An item without what it contains; the last three fields are those of a teleporter, a bed and a
container. -/
structure StoredItem where
  kind : StoredKind
  count : ℕ := 1
  attributes : Values := { nodup := Values.nodup_nil }
  destination : Position :=
    ⟨0, 0, 0, Nat.zero_le Position.maxX, Nat.zero_le Position.maxY, Nat.zero_le Position.maxZ⟩
  sleeper : ℕ := 0
  serializationCount : ℕ := 0
deriving DecidableEq

/-- An item with what it contains, in the order of the item lists. -/
abbrev ItemTree := OrderedTree StoredItem

namespace StoredItem

variable (item : StoredItem)

/-- `getContainer()` is not null. -/
def isContainer : Bool :=
  item.kind.createdClass = .container || item.kind.createdClass = .depot

/-- `Values::set`: only attributes of the class, and only with values of their type. -/
def set (name : AttributeName) (value : AttributeValue) : StoredItem :=
  if (classAttributes item.kind.type).lookup name = some value.type then
    { item with attributes := item.attributes.put name value }
  else item

def getInteger (name : AttributeName) : Option (BitVec 32) :=
  match item.attributes.get name with
  | some (.integer bits) => some bits
  | _ => none

/-- An attribute as `uint16_t`; negative values count as zero. -/
def getUnsigned (name : AttributeName) : ℕ :=
  match item.getInteger name with
  | some bits => if bits.toNat < 2 ^ 31 then bits.toNat % 2 ^ 16 else 0
  | none => 0

def getCharges : ℕ := item.getUnsigned (attributeName "charges")
def getFluidType : ℕ := item.getUnsigned (attributeName "fluidtype")

def setInteger (name : AttributeName) (n : ℕ) : StoredItem :=
  item.set name (.integer (BitVec.ofNat 32 n))

/-- The sub-type is the fluid. -/
def holdsFluid : Bool := item.kind.isFluidContainer || item.kind.isSplash

def getSubType : ℕ :=
  if item.holdsFluid then item.getFluidType
  else if item.kind.charges ≠ 0 then item.getCharges
  else item.count

def setSubType (n : ℕ) : StoredItem :=
  let n := n % 2 ^ 16
  if item.holdsFluid then item.setInteger (attributeName "fluidtype") n
  else if item.kind.charges ≠ 0 then item.setInteger (attributeName "charges") n
  else { item with count := n % 256 }

def setUniqueId (n : ℕ) : StoredItem :=
  if (item.getInteger (attributeName "uid")).any fun bits => bits ≠ 0 then item
  else item.setInteger (attributeName "uid") n

/-- `getDecaying() != DECAYING_FALSE`. -/
def isDecaying : Bool := (item.getInteger (attributeName "decaying")).any fun bits => bits ≠ 0

/-- `DECAYING_PENDING`. -/
def setDecayingPending : StoredItem := item.setInteger (attributeName "decaying") 2

def setDescription (text : List UInt8) : StoredItem :=
  item.set (attributeName "description") (.string text)

/-- `Item::Item`. -/
def new (kind : StoredKind) (amount : ℕ) : StoredItem :=
  let item : StoredItem := { kind := kind }
  let item :=
    if kind.charges ≠ 0 then item.setInteger (attributeName "charges") kind.charges else item
  let item :=
    if kind.defaultDuration ≠ 0 then
      item.setInteger (attributeName "duration") kind.defaultDuration
    else item
  if item.holdsFluid then item.setInteger (attributeName "fluidtype") amount
  else if kind.stackable ∧ amount ≠ 0 then { item with count := amount % 256 }
  else if kind.charges ≠ 0 ∧ amount ≠ 0 then item.setInteger (attributeName "charges") amount
  else item

/-- The constructors of the classes. -/
def construct (kind : StoredKind) (amount : ℕ) : StoredItem :=
  match kind.createdClass with
  | .item => new kind amount
  | .bed => (new kind 0).setDescription (attributeName "Nobody is sleeping there.")
  | _ => new kind 0

/-- `Item::CreateItem`. -/
def createItem (kinds : KindId → Option StoredKind) (kindId amount : ℕ) : Option StoredItem :=
  if kindId = 0 then none
  else match kinds (createdKindId kindId) with
  | none => none
  | some kind => if kind.group = .deprecated then none else some (construct kind amount)

def getWeight : ℤ :=
  if item.kind.stackable then item.kind.weight * max 1 (item.count : ℤ) else item.kind.weight

end StoredItem

/-! ## Reading attributes -/

inductive ReadValue where
  | continue
  | error
  | end
deriving DecidableEq

/-- The attributes whose numbers are read as integers, with their sizes. -/
def integerAttributes : List (ℕ × ℕ × AttributeName) :=
  [(4, 2, attributeName "aid"), (33, 4, attributeName "attack"),
    (34, 4, attributeName "extraattack"), (35, 4, attributeName "defense"),
    (36, 4, attributeName "extradefense"), (37, 4, attributeName "armor"),
    (38, 4, attributeName "attackspeed"), (39, 4, attributeName "hitchance"),
    (18, 4, attributeName "date"), (16, 4, attributeName "duration")]

def stringAttributes : List (ℕ × AttributeName) :=
  [(30, attributeName "name"), (31, attributeName "pluralname"), (41, attributeName "article"),
    (6, attributeName "text"), (19, attributeName "writer"), (7, attributeName "description")]

/-- The numbers that set the sub-type: `ATTR_COUNT`, `ATTR_RUNE_CHARGES`, `ATTR_CHARGES`. -/
def subTypeAttributes : List (ℕ × ℕ) := [(15, 1), (12, 1), (22, 2)]

/-- The numbers that other classes handle: `ATTR_DEPOT_ID`, `ATTR_HOUSEDOORID`, `ATTR_SLEEPERGUID`,
`ATTR_SLEEPSTART`. -/
def foreignAttributes : List (ℕ × ℕ) := [(10, 2), (14, 1), (20, 4), (21, 4)]

namespace StoredItem

abbrev Read := ReadValue × StoredItem × PropStream

/-- A number of `n` bytes changes the item, or is missing. -/
def readNumber (n : ℕ) (item : StoredItem) (s : PropStream) (change : ℕ → StoredItem) : Read :=
  match getValue n s with
  | (none, s) => (.error, item, s)
  | (some value, s) => (.continue, change value, s)

def readString (item : StoredItem) (s : PropStream) (change : List UInt8 → StoredItem) : Read :=
  match getString s with
  | (none, s) => (.error, item, s)
  | (some value, s) => (.continue, change value, s)

/-- The value of an entry of the attribute map, by `SerializedType`; `none` at a missing one. -/
def readEntry (type : ℕ) (key : AttributeName) (item : StoredItem) (s : PropStream) :
    Option StoredItem × PropStream :=
  match type with
  | 1 => match getLString s with
    | (none, s) => (none, s)
    | (some v, s) => (some (item.set key (.string v)), s)
  | 2 => match getULong s with
    | (none, s) => (none, s)
    | (some v, s) => (some (item.set key (.integer (BitVec.ofNat 32 v))), s)
  | 3 => match getULong s with
    | (none, s) => (none, s)
    | (some v, s) => (some (item.set key (.float (BitVec.ofNat 32 v))), s)
  | 4 => match getUChar s with
    | (none, s) => (none, s)
    | (some v, s) => (some (item.set key (.boolean (v ≠ 0))), s)
  | _ => (some item, s)

/-- The loop of `unserializeMap`. -/
def readEntries : ℕ → StoredItem → PropStream → Bool × StoredItem × PropStream
  | 0, item, s => (true, item, s)
  | n + 1, item, s =>
    match getString s with
    | (none, s) => (false, item, s)
    | (some key, s) =>
      let type := getUChar s
      match readEntry (type.1.getD 0) key item type.2 with
      | (none, s) => (false, item, s)
      | (some item, s) => readEntries n item s

def unserializeMap (item : StoredItem) (s : PropStream) : Bool × StoredItem × PropStream :=
  match getUShort s with
  | (none, s) => (true, item, s)
  | (some n, s) => readEntries n item s

/-- `ATTR_ATTRIBUTE_MAP`. -/
def readMap (item : StoredItem) (s : PropStream) : Read :=
  let (ret, item, s) := item.unserializeMap s
  let item := if item.isDecaying then item.setDecayingPending else item
  (if ret then .continue else .error, item, s)

/-- `Item::readAttr`. -/
def itemReadAttr (attr : ℕ) (item : StoredItem) (s : PropStream) : Read :=
  match integerAttributes.lookup attr with
  | some (n, name) => item.readNumber n s (item.setInteger name)
  | none =>
  match stringAttributes.lookup attr with
  | some name => item.readString s fun text => item.set name (.string text)
  | none =>
  match subTypeAttributes.lookup attr with
  | some n => item.readNumber n s item.setSubType
  | none =>
  match foreignAttributes.lookup attr with
  | some n => item.readNumber n s fun _ => item
  | none =>
  match attr with
  | 5 => item.readNumber 2 s item.setUniqueId
  | 42 => item.readNumber 1 s fun n => item.set (attributeName "scriptprotected") (.boolean (n ≠ 0))
  | 17 => item.readNumber 1 s fun n => if n ≠ 0 then item.setDecayingPending else item
  | 23 => (.error, item, (getULong s).2)
  | 128 => item.readMap s
  | 8 => (.continue, item, skip 5 s)
  | _ => (.error, item, s)

/-- `Container::readAttr`. -/
def containerReadAttr (attr : ℕ) (item : StoredItem) (s : PropStream) : Read :=
  if attr = 23 then
    match getULong s with
    | (none, s) => (.error, item, s)
    | (some count, s) => (.end, { item with serializationCount := count }, s)
  else itemReadAttr attr item s

/-- `Depot::readAttr`, which leaves out that of its base class. -/
def depotReadAttr (attr : ℕ) (item : StoredItem) (s : PropStream) : Read :=
  if attr = 10 then item.readNumber 2 s (item.setInteger (attributeName "depotid"))
  else itemReadAttr attr item s

def doorReadAttr (attr : ℕ) (item : StoredItem) (s : PropStream) : Read :=
  if attr = 14 then item.readNumber 1 s (item.setInteger (attributeName "doorid"))
  else itemReadAttr attr item s

/-- `Teleporter::readAttr`. -/
def teleporterReadAttr (attr : ℕ) (item : StoredItem) (s : PropStream) : Read :=
  if attr = 8 then
    match getUShort s with
    | (none, s) => (.error, item, s)
    | (some x, s) =>
      match getUShort s with
      | (none, s) => (.error, item, s)
      | (some y, s) =>
        match getUChar s with
        | (none, s) => (.error, item, s)
        | (some z, s) =>
          match Position.of x y z with
          | none => (.error, item, s)
          | some destination => (.continue, { item with destination := destination }, s)
  else itemReadAttr attr item s

/-- The description of a bed follows its sleeper, whose name is looked up in the database. -/
def withSleeper (getNameByGuid : ℕ → Option (List UInt8)) (item : StoredItem) (sleeper : ℕ) :
    StoredItem :=
  let item :=
    if sleeper = 0 then item
    else match getNameByGuid sleeper with
      | none => item
      | some name => item.setDescription (name ++ attributeName " is sleeping there.")
  { item with sleeper := sleeper }

/-- `BedItem::readAttr`. -/
def bedReadAttr (getNameByGuid : ℕ → Option (List UInt8)) (attr : ℕ) (item : StoredItem)
    (s : PropStream) : Read :=
  match attr with
  | 20 => item.readNumber 4 s (item.withSleeper getNameByGuid)
  | 21 => item.readNumber 4 s (item.setInteger (attributeName "sleepstart"))
  | _ => itemReadAttr attr item s

/-- The virtual `readAttr`. -/
def readAttr (getNameByGuid : ℕ → Option (List UInt8)) (attr : ℕ) (item : StoredItem)
    (s : PropStream) : Read :=
  match item.kind.createdClass with
  | .container => containerReadAttr attr item s
  | .depot => depotReadAttr attr item s
  | .door => doorReadAttr attr item s
  | .teleporter => teleporterReadAttr attr item s
  | .bed => bedReadAttr getNameByGuid attr item s
  | _ => itemReadAttr attr item s

/-- `unserializeAttr`; each round takes a byte, so the length of the stream bounds the rounds. -/
def unserializeAttrIn (getNameByGuid : ℕ → Option (List UInt8)) :
    ℕ → StoredItem → PropStream → Bool × StoredItem × PropStream
  | 0, item, s => (true, item, s)
  | n + 1, item, s =>
    match getUChar s with
    | (none, s) => (true, item, s)
    | (some attrType, s) =>
      if attrType = 0 then (true, item, s)
      else match readAttr getNameByGuid attrType item s with
      | (.error, item, s) => (false, item, s)
      | (.end, item, s) => (true, item, s)
      | (.continue, item, s) => unserializeAttrIn getNameByGuid n item s

def unserializeAttr (getNameByGuid : ℕ → Option (List UInt8)) (item : StoredItem)
    (s : PropStream) : Bool × StoredItem × PropStream :=
  unserializeAttrIn getNameByGuid (s.length + 1) item s

end StoredItem

end TyanoCore
