import TyanoCore.StoredItem

/-!
# Attributes written and read back

What `serializeAttr` writes for an item, and what `unserializeAttr` makes of it in a new item of the
same kind.  The attributes of the new item that are not in the saved map stay.
-/

namespace TyanoCore

open Bytes PropStream

namespace StoredItem

/-! ## Writing -/

/-- `SerializedType`. -/
def serializedType : AttributeValue → ℕ
  | .string _ => 1
  | .integer _ => 2
  | .float _ => 3
  | .boolean _ => 4

def valueBytes : AttributeValue → List UInt8
  | .boolean value => addUChar (if value then 1 else 0)
  | .float bits => addULong bits.toNat
  | .integer bits => addULong bits.toNat
  | .string value => addLString value

/-- An entry of the attribute map. -/
def entryBytes (e : AttributeName × AttributeValue) : List UInt8 :=
  addString e.1 ++ (addUChar (serializedType e.2) ++ valueBytes e.2)

/-- The sub-type is saved. -/
def countSaved (item : StoredItem) : Bool := item.kind.stackable || item.holdsFluid

def countBytes (item : StoredItem) : List UInt8 :=
  if item.countSaved then addUChar 15 ++ addUChar item.getSubType else []

def mapBytes (item : StoredItem) : List UInt8 :=
  let entries := item.attributes.entries
  if entries = [] then []
  else addUChar 128 ++ (addUShort (min 0xFFFF entries.length) ++ entries.flatMap entryBytes)

/-- What the classes write after `Item::serializeAttr`. -/
def classBytes (item : StoredItem) : List UInt8 :=
  match item.kind.createdClass with
  | .bed => if item.sleeper = 0 then [] else addUChar 20 ++ addULong item.sleeper
  | .teleporter =>
    addUChar 8 ++ (addUShort item.destination.x ++
      (addUShort item.destination.y ++ addUChar item.destination.z))
  | _ => []

/-- The virtual `serializeAttr`. -/
def serializeAttr (item : StoredItem) : List UInt8 :=
  item.countBytes ++ (item.mapBytes ++ item.classBytes)

/-! ## The items that come back -/

def afterCount (item new : StoredItem) : StoredItem :=
  if item.countSaved then new.setSubType (item.getSubType % 256) else new

def setEntry (item : StoredItem) (e : AttributeName × AttributeValue) : StoredItem :=
  item.set e.1 e.2

/-- An item that is decaying waits for the decay to start. -/
def pendingAgain (item : StoredItem) : StoredItem :=
  if item.isDecaying then item.setDecayingPending else item

def afterMap (item new : StoredItem) : StoredItem :=
  if item.attributes.entries = [] then new
  else (item.attributes.entries.foldl setEntry new).pendingAgain

def afterClass (getNameByGuid : ℕ → Option (List UInt8)) (item new : StoredItem) : StoredItem :=
  match item.kind.createdClass with
  | .bed => if item.sleeper = 0 then new else new.withSleeper getNameByGuid item.sleeper
  | .teleporter => { new with destination := item.destination }
  | _ => new

/-- A saved item as it comes back in a new one. -/
def restoredIn (getNameByGuid : ℕ → Option (List UInt8)) (item new : StoredItem) : StoredItem :=
  item.afterClass getNameByGuid (item.afterMap (item.afterCount new))

/-- What an item has to be like for its attributes to be read back: they are those of its class, few,
and the strings shorter than their saved length can tell; and it is no depot. -/
structure Storable (item : StoredItem) : Prop where
  typed : ∀ e ∈ item.attributes.entries,
    (classAttributes item.kind.type).lookup e.1 = some e.2.type
  few : item.attributes.entries.length < 2 ^ 16
  strings : ∀ name value, (name, AttributeValue.string value) ∈ item.attributes.entries →
    value.length < 2 ^ 16
  not_depot : item.kind.createdClass ≠ .depot
  sleeper_lt : item.sleeper < 2 ^ 32

/-! ## What stays -/

section Kind

variable (item : StoredItem)

/-- Only attributes are set. -/
theorem set_eq (name : AttributeName) (value : AttributeValue) :
    item.set name value = { item with attributes := (item.set name value).attributes } := by
  unfold set
  split <;> rfl

@[simp] theorem set_kind (name : AttributeName) (value : AttributeValue) :
    (item.set name value).kind = item.kind := by rw [set_eq]

@[simp] theorem set_count (name : AttributeName) (value : AttributeValue) :
    (item.set name value).count = item.count := by rw [set_eq]

@[simp] theorem set_sleeper (name : AttributeName) (value : AttributeValue) :
    (item.set name value).sleeper = item.sleeper := by rw [set_eq]

@[simp] theorem setInteger_kind (name : AttributeName) (n : ℕ) :
    (item.setInteger name n).kind = item.kind := set_kind item name _

@[simp] theorem setSubType_kind (n : ℕ) : (item.setSubType n).kind = item.kind := by
  unfold setSubType
  dsimp only
  split
  · exact setInteger_kind item _ _
  split
  · exact setInteger_kind item _ _
  · rfl

@[simp] theorem afterCount_kind (new : StoredItem) : (item.afterCount new).kind = new.kind := by
  unfold afterCount
  split
  · exact setSubType_kind new _
  · rfl

theorem afterMap_eq (new : StoredItem) :
    item.afterMap new = { new with attributes := (item.afterMap new).attributes } := by
  have hfold (entries : List (AttributeName × AttributeValue)) (new : StoredItem) :
      entries.foldl setEntry new =
        { new with attributes := (entries.foldl setEntry new).attributes } := by
    induction entries generalizing new with
    | nil => rfl
    | cons e entries ih =>
      rw [List.foldl_cons, ih, setEntry, set_eq]
  unfold afterMap pendingAgain
  split
  · rfl
  · split
    · rw [setDecayingPending, setInteger, set_eq, hfold]
    · exact hfold _ _

@[simp] theorem afterMap_kind (new : StoredItem) : (item.afterMap new).kind = new.kind := by
  rw [afterMap_eq]

@[simp] theorem withSleeper_kind (getNameByGuid : ℕ → Option (List UInt8)) (n : ℕ) :
    (item.withSleeper getNameByGuid n).kind = item.kind := by
  unfold withSleeper
  dsimp only
  split
  · rfl
  · split
    · rfl
    · exact set_kind item _ _

@[simp] theorem afterClass_kind (getNameByGuid : ℕ → Option (List UInt8)) (new : StoredItem) :
    (item.afterClass getNameByGuid new).kind = new.kind := by
  unfold afterClass
  split
  · split
    · rfl
    · exact withSleeper_kind new _ _
  · rfl
  · rfl

@[simp] theorem afterClass_count (getNameByGuid : ℕ → Option (List UInt8)) (new : StoredItem) :
    (item.afterClass getNameByGuid new).count = new.count := by
  unfold afterClass withSleeper setDescription
  dsimp only
  split
  · split_ifs
    · rfl
    · split
      · rfl
      · exact set_count new _ _
  · rfl
  · rfl

theorem afterCount_sleeper (new : StoredItem) : (item.afterCount new).sleeper = new.sleeper := by
  unfold afterCount setSubType setInteger
  dsimp only
  split_ifs
  · exact set_sleeper new _ _
  · exact set_sleeper new _ _
  · rfl
  · rfl

@[simp] theorem new_kind (kind : StoredKind) (amount : ℕ) : (new kind amount).kind = kind := by
  unfold new
  dsimp only
  split_ifs <;> simp

@[simp] theorem construct_kind (kind : StoredKind) (amount : ℕ) :
    (construct kind amount).kind = kind := by
  unfold construct
  split
  · exact new_kind kind _
  · exact (set_kind _ _ _).trans (new_kind kind _)
  · exact new_kind kind _

/-- Nobody sleeps in a new bed. -/
theorem construct_sleeper (kind : StoredKind) (amount : ℕ) :
    (construct kind amount).sleeper = 0 := by
  have hset (item : StoredItem) (name : AttributeName) (n : ℕ) :
      (item.setInteger name n).sleeper = item.sleeper := set_sleeper item name _
  have hnew (amount : ℕ) : (new kind amount).sleeper = 0 := by
    unfold new
    dsimp only
    split_ifs <;> simp [hset]
  unfold construct
  split
  · exact hnew _
  · exact (set_sleeper _ _ _).trans (hnew _)
  · exact hnew _

end Kind

/-! ## Reading single attributes -/

theorem classAttributes_short {type : ItemType} {name : AttributeName} {t : AttributeType}
    (h : (classAttributes type).lookup name = some t) : name.length < 2 ^ 16 := by
  have hshort : ∀ e ∈ classAttributes type, e.1.length < 2 ^ 16 := by
    cases type <;> decide
  obtain ⟨l₁, l₂, heq, -⟩ := List.lookup_eq_some_iff.mp h
  have hmem : (name, t) ∈ classAttributes type := by
    rw [heq]
    exact List.mem_append_right l₁ List.mem_cons_self
  exact hshort _ hmem

theorem readNumber_leBytes {n value : ℕ} {item : StoredItem} {rest : PropStream}
    {change : ℕ → StoredItem} (hvalue : value < 256 ^ n) (h : Short (leBytes n value ++ rest)) :
    item.readNumber n (leBytes n value ++ rest) change = (.continue, change value, rest) := by
  rw [readNumber, getValue_leBytes hvalue h]

theorem readEntry_valueBytes (item : StoredItem) (key : AttributeName) {value : AttributeValue}
    {rest : PropStream} (hstring : ∀ v, value = .string v → v.length < 2 ^ 16)
    (h : Short (valueBytes value ++ rest)) :
    readEntry (serializedType value) key item (valueBytes value ++ rest) =
      (some (item.set key value), rest) := by
  cases value with
  | boolean v =>
    have hread : getUChar (addUChar (if v then 1 else 0) ++ rest) =
        (some (if v then 1 else 0), rest) := by
      apply getValue_leBytes _ h
      cases v <;> decide
    have hvalue : decide ((if v then 1 else 0) ≠ 0) = v := by
      cases v <;> rfl
    simp only [readEntry, serializedType, valueBytes, hread, hvalue]
  | integer bits =>
    have hread : getULong (addULong bits.toNat ++ rest) = (some bits.toNat, rest) :=
      getValue_leBytes bits.isLt h
    simp only [readEntry, serializedType, valueBytes, hread, BitVec.ofNat_toNat, BitVec.setWidth_eq]
  | float bits =>
    have hread : getULong (addULong bits.toNat ++ rest) = (some bits.toNat, rest) :=
      getValue_leBytes bits.isLt h
    simp only [readEntry, serializedType, valueBytes, hread, BitVec.ofNat_toNat, BitVec.setWidth_eq]
  | string v =>
    have hread := getLString_addLString (hstring v rfl) h
    simp only [readEntry, serializedType, valueBytes, hread]

theorem serializedType_lt (value : AttributeValue) : serializedType value < 256 ^ 1 := by
  cases value <;> simp [serializedType]

theorem readEntries_entryBytes (entries : List (AttributeName × AttributeValue)) (item : StoredItem)
    {rest : PropStream} (hname : ∀ e ∈ entries, e.1.length < 2 ^ 16)
    (hstring : ∀ e ∈ entries, ∀ v, e.2 = .string v → v.length < 2 ^ 16)
    (h : Short (entries.flatMap entryBytes ++ rest)) :
    readEntries entries.length item (entries.flatMap entryBytes ++ rest) =
      (true, entries.foldl setEntry item, rest) := by
  induction entries generalizing item with
  | nil => rfl
  | cons e entries ih =>
    have hbytes : (e :: entries).flatMap entryBytes ++ rest =
        addString e.1 ++ (addUChar (serializedType e.2) ++
          (valueBytes e.2 ++ (entries.flatMap entryBytes ++ rest))) := by
      rw [List.flatMap_cons, entryBytes]
      simp only [List.append_assoc]
    rw [hbytes] at h ⊢
    have hkey := getString_addString (hname e List.mem_cons_self) h
    have htype : getUChar (addUChar (serializedType e.2) ++
        (valueBytes e.2 ++ (entries.flatMap entryBytes ++ rest))) =
          (some (serializedType e.2), valueBytes e.2 ++ (entries.flatMap entryBytes ++ rest)) :=
      getValue_leBytes (serializedType_lt e.2) h.right
    have hvalue := readEntry_valueBytes item e.1 (hstring e List.mem_cons_self) h.right.right
    rw [List.length_cons, readEntries, hkey]
    dsimp only
    rw [htype, Option.getD_some, hvalue]
    exact ih _ (fun e he => hname e (List.mem_cons_of_mem _ he))
      (fun e he => hstring e (List.mem_cons_of_mem _ he)) h.right.right.right

/-- The numbers that some class other than `Item` handles. -/
def classNumbers : List ℕ := [8, 10, 14, 20, 21, 23]

variable {getNameByGuid : ℕ → Option (List UInt8)} {item new : StoredItem} {rest : PropStream}

theorem readAttr_common {attr : ℕ} (h : attr ∉ classNumbers) (s : PropStream) :
    readAttr getNameByGuid attr new s = itemReadAttr attr new s := by
  simp only [classNumbers, List.mem_cons, List.not_mem_nil, or_false, not_or] at h
  obtain ⟨h8, h10, h14, h20, h21, h23⟩ := h
  unfold readAttr
  split
  · exact if_neg h23
  · exact if_neg h10
  · exact if_neg h14
  · exact if_neg h8
  · unfold bedReadAttr
    split
    · exact absurd rfl h20
    · exact absurd rfl h21
    · rfl
  · rfl

/-- From one item and stream the reading of attributes gets to another. -/
def Continues (getNameByGuid : ℕ → Option (List UInt8)) (item : StoredItem) (s : PropStream)
    (item' : StoredItem) (s' : PropStream) : Prop :=
  ∀ n, s.length < n → ∃ n', s'.length < n' ∧
    unserializeAttrIn getNameByGuid n item s = unserializeAttrIn getNameByGuid n' item' s'

theorem Continues.refl (item : StoredItem) (s : PropStream) :
    Continues getNameByGuid item s item s := fun n hn => ⟨n, hn, rfl⟩

theorem Continues.trans {i₁ i₂ i₃ : StoredItem} {s₁ s₂ s₃ : PropStream}
    (h₁ : Continues getNameByGuid i₁ s₁ i₂ s₂) (h₂ : Continues getNameByGuid i₂ s₂ i₃ s₃) :
    Continues getNameByGuid i₁ s₁ i₃ s₃ := by
  intro n hn
  obtain ⟨n₂, hn₂, heq₂⟩ := h₁ n hn
  obtain ⟨n₃, hn₃, heq₃⟩ := h₂ n₂ hn₂
  exact ⟨n₃, hn₃, heq₂.trans heq₃⟩

theorem getUChar_addUChar {value : ℕ} (hvalue : value < 256) (h : Short (addUChar value ++ rest)) :
    getUChar (addUChar value ++ rest) = (some value, rest) := getValue_leBytes hvalue h

/-- One attribute is read and the reading goes on. -/
theorem continues_attr {attr : ℕ} {item' : StoredItem} {s s' : PropStream} (hlt : attr < 256)
    (hend : attr ≠ 0) (h : Short (addUChar attr ++ s))
    (hread : readAttr getNameByGuid attr item s = (.continue, item', s'))
    (hlength : s'.length ≤ s.length) :
    Continues getNameByGuid item (addUChar attr ++ s) item' s' := by
  intro n hn
  rw [List.length_append, addUChar, leBytes_length] at hn
  cases n with
  | zero => exact absurd hn (Nat.not_lt_zero _)
  | succ n =>
    refine ⟨n, by omega, ?_⟩
    rw [unserializeAttrIn, getUChar_addUChar hlt h]
    dsimp only
    rw [if_neg hend, hread]

theorem continues_count (h : Short (item.countBytes ++ rest)) :
    Continues getNameByGuid new (item.countBytes ++ rest) (item.afterCount new) rest := by
  unfold countBytes afterCount at *
  split
  · next hsaved =>
    rw [if_pos hsaved, List.append_assoc] at h
    rw [List.append_assoc]
    -- the sub-type is written in one byte
    have hbyte : addUChar item.getSubType = addUChar (item.getSubType % 256) := by
      have hsize : UInt8.ofNat item.getSubType = UInt8.ofNat (item.getSubType % 256) :=
        (UInt8.ofNat_mod_size).symm
      rw [addUChar, addUChar, leBytes, leBytes, hsize]
      rfl
    rw [hbyte] at h ⊢
    apply continues_attr (by decide) (by decide) h
    · rw [readAttr_common (by decide)]
      exact readNumber_leBytes (Nat.mod_lt _ (by decide)) h.right
    · rw [List.length_append]
      exact Nat.le_add_left _ _
  · exact .refl _ _

theorem continues_map (hitem : item.Storable) (h : Short (item.mapBytes ++ rest)) :
    Continues getNameByGuid new (item.mapBytes ++ rest) (item.afterMap new) rest := by
  unfold mapBytes afterMap at *
  dsimp only at h ⊢
  split
  · exact .refl _ _
  · next hentries =>
    rw [if_neg hentries] at h
    simp only [List.append_assoc] at h ⊢
    have hmin : min 0xFFFF item.attributes.entries.length = item.attributes.entries.length := by
      have := hitem.few
      omega
    rw [hmin] at h ⊢
    have hcount : getUShort (addUShort item.attributes.entries.length ++
        (item.attributes.entries.flatMap entryBytes ++ rest)) =
          (some item.attributes.entries.length,
            item.attributes.entries.flatMap entryBytes ++ rest) :=
      getValue_leBytes hitem.few h.right
    have hread := readEntries_entryBytes item.attributes.entries new
      (fun e he => classAttributes_short (hitem.typed e he))
      (fun e he v hv => hitem.strings e.1 v (hv ▸ he)) h.right.right
    apply continues_attr (by decide) (by decide) h
    · rw [readAttr_common (by decide)]
      have hmap : itemReadAttr 128 new = new.readMap := rfl
      rw [hmap]
      unfold readMap unserializeMap
      rw [hcount]
      dsimp only
      rw [hread]
      rfl
    · rw [List.length_append, List.length_append]
      omega

theorem continues_class (hitem : item.Storable) (hkind : new.kind = item.kind)
    (h : Short (item.classBytes ++ rest)) :
    Continues getNameByGuid new (item.classBytes ++ rest) (item.afterClass getNameByGuid new)
      rest := by
  unfold classBytes afterClass at *
  split
  · next hclass =>
    simp only [hclass] at h
    split
    · exact .refl _ _
    · next hsleeper =>
      rw [if_neg hsleeper, List.append_assoc] at h
      rw [List.append_assoc]
      apply continues_attr (by decide) (by decide) h
      · unfold readAttr
        rw [hkind, hclass]
        exact readNumber_leBytes hitem.sleeper_lt h.right
      · rw [List.length_append]
        exact Nat.le_add_left _ _
  · next hclass =>
    simp only [hclass, List.append_assoc] at h ⊢
    have hx : getUShort (addUShort item.destination.x ++ (addUShort item.destination.y ++
        (addUChar item.destination.z ++ rest))) = (some item.destination.x,
          addUShort item.destination.y ++ (addUChar item.destination.z ++ rest)) :=
      getValue_leBytes (Nat.lt_of_le_of_lt item.destination.x_le (by decide)) h.right
    have hy : getUShort (addUShort item.destination.y ++ (addUChar item.destination.z ++ rest)) =
        (some item.destination.y, addUChar item.destination.z ++ rest) :=
      getValue_leBytes (Nat.lt_of_le_of_lt item.destination.y_le (by decide)) h.right.right
    have hz : getUChar (addUChar item.destination.z ++ rest) = (some item.destination.z, rest) :=
      getUChar_addUChar (Nat.lt_of_le_of_lt item.destination.z_le (by decide)) h.right.right.right
    have hposition : Position.of item.destination.x item.destination.y item.destination.z =
        some item.destination := Position.of_eq_some.mpr ⟨rfl, rfl, rfl⟩
    apply continues_attr (by decide) (by decide) h
    · unfold readAttr
      rw [hkind, hclass]
      dsimp only
      rw [teleporterReadAttr, if_pos rfl, hx]
      dsimp only
      rw [hy]
      dsimp only
      rw [hz]
      dsimp only
      rw [hposition, ← hkind]
    · simp only [List.length_append]
      omega
  · next hbed hteleporter =>
    split at h
    · next hclass => exact absurd hclass hbed
    · next hclass => exact absurd hclass hteleporter
    · exact .refl _ _

/-- What `serializeAttr` writes is read, up to what stands behind it. -/
theorem continues_serializeAttr (hitem : item.Storable) (hkind : new.kind = item.kind)
    (h : Short (item.serializeAttr ++ rest)) :
    Continues getNameByGuid new (item.serializeAttr ++ rest) (item.restoredIn getNameByGuid new)
      rest := by
  have hkind' : (item.afterMap (item.afterCount new)).kind = item.kind := by
    rw [afterMap_kind, afterCount_kind, hkind]
  unfold serializeAttr at h ⊢
  simp only [List.append_assoc] at h ⊢
  apply (continues_count h).trans
  apply (continues_map hitem h.right).trans
  exact continues_class hitem hkind' h.right.right

/-- The attributes end with `ATTR_END`. -/
theorem unserializeAttr_end (hitem : item.Storable) (hkind : new.kind = item.kind)
    (h : Short (item.serializeAttr ++ (addUChar 0 ++ rest))) :
    new.unserializeAttr getNameByGuid (item.serializeAttr ++ (addUChar 0 ++ rest)) =
      (true, item.restoredIn getNameByGuid new, rest) := by
  obtain ⟨n, hn, heq⟩ := @continues_serializeAttr getNameByGuid item new _ hitem hkind h _
    (Nat.lt_succ_self _)
  rw [unserializeAttr, heq]
  cases n with
  | zero => exact absurd hn (Nat.not_lt_zero _)
  | succ n => rw [unserializeAttrIn, getUChar_addUChar (by decide) h.right]; rfl

/-- The attributes of a container end with the number of items in it. -/
theorem unserializeAttr_items (hitem : item.Storable) (hkind : new.kind = item.kind)
    (hcontainer : item.kind.createdClass = .container) {count : ℕ} (hcount : count < 2 ^ 32)
    (h : Short (item.serializeAttr ++ (addUChar 23 ++ (addULong count ++ rest)))) :
    new.unserializeAttr getNameByGuid
        (item.serializeAttr ++ (addUChar 23 ++ (addULong count ++ rest))) =
      (true, { item.restoredIn getNameByGuid new with serializationCount := count }, rest) := by
  obtain ⟨n, hn, heq⟩ := @continues_serializeAttr getNameByGuid item new _ hitem hkind h _
    (Nat.lt_succ_self _)
  have hclass : (item.restoredIn getNameByGuid new).kind.createdClass = .container := by
    rw [restoredIn, afterClass_kind, afterMap_kind, afterCount_kind, hkind, hcontainer]
  have hread : getULong (addULong count ++ rest) = (some count, rest) :=
    getValue_leBytes hcount h.right.right
  rw [unserializeAttr, heq]
  cases n with
  | zero => exact absurd hn (Nat.not_lt_zero _)
  | succ n =>
    rw [unserializeAttrIn, getUChar_addUChar (by decide) h.right]
    dsimp only
    rw [if_neg (by decide), readAttr, hclass]
    dsimp only
    rw [containerReadAttr, if_pos rfl, hread]

/-! ## What a restored item is like -/

/-- An attribute of an item, or the one that a new item of its kind has.  The fluid in an item is its
sub-type, which is saved even if the item does not have it as an attribute. -/
def valueOf (item : StoredItem) (name : AttributeName) : Option AttributeValue :=
  (item.attributes.get name).or
    (if item.holdsFluid ∧ name = attributeName "fluidtype" then some (.integer 0)
    else (construct item.kind 1).attributes.get name)

/-- An item has come back: what is stacked, the attributes apart from the state of decay, and what its
class adds.  The description of a bed in which somebody sleeps is made anew. -/
structure Restored (item item' : StoredItem) : Prop where
  kind : item'.kind = item.kind
  count : item.kind.stackable = true → item'.count = item.count
  attributes : ∀ name, name ≠ attributeName "decaying" →
    (name = attributeName "description" → item.kind.createdClass = .bed → item.sleeper = 0) →
      item'.attributes.get name = item.valueOf name
  destination : item.kind.createdClass = .teleporter → item'.destination = item.destination
  sleeper : item.kind.createdClass = .bed → item'.sleeper = item.sleeper

section Attributes

theorem get_put (v : Values) (name name' : AttributeName) (value : AttributeValue) :
    (v.put name value).get name' = if name' = name then some value else v.get name' := by
  unfold Values.get Values.put
  dsimp only
  split
  · next heq => rw [heq, List.lookup_cons_self]
  · next hne =>
    rw [List.lookup_cons, beq_false_of_ne hne]
    dsimp only
    -- what is filtered out has the other name
    induction v.entries with
    | nil => rfl
    | cons e entries ih =>
      rw [List.filter_cons, List.lookup_cons]
      by_cases he : e.1 = name
      · have hkeep : ¬ decide (e.1 ≠ name) = true := by simp [he]
        have hother : (name' == e.1) = false := beq_false_of_ne fun h => hne (h.trans he)
        rw [if_neg hkeep, ih, hother]
      · have hkeep : decide (e.1 ≠ name) = true := by simp [he]
        rw [if_pos hkeep, List.lookup_cons, ih]

theorem get_set {name : AttributeName} {value : AttributeValue} {item : StoredItem}
    (h : (classAttributes item.kind.type).lookup name = some value.type) (name' : AttributeName) :
    (item.set name value).attributes.get name' =
      if name' = name then some value else item.attributes.get name' := by
  unfold set
  rw [if_pos h]
  exact get_put _ _ _ _

theorem get_set_of_ne {name name' : AttributeName} (value : AttributeValue) (item : StoredItem)
    (h : name' ≠ name) : (item.set name value).attributes.get name' = item.attributes.get name' := by
  unfold set
  split
  · exact (get_put _ _ _ _).trans (if_neg h)
  · rfl

/-- Entries with different names are found again, and those of the item that got them stay. -/
theorem get_foldl_setEntry (entries : List (AttributeName × AttributeValue)) (item : StoredItem)
    (hnodup : (entries.map Prod.fst).Nodup)
    (htyped : ∀ e ∈ entries, (classAttributes item.kind.type).lookup e.1 = some e.2.type)
    (name : AttributeName) :
    (entries.foldl setEntry item).attributes.get name =
      (entries.lookup name).or (item.attributes.get name) := by
  induction entries generalizing item with
  | nil => rfl
  | cons e entries ih =>
    rw [List.map_cons, List.nodup_cons] at hnodup
    have htyped' : ∀ e' ∈ entries,
        (classAttributes (item.setEntry e).kind.type).lookup e'.1 = some e'.2.type := by
      intro e' he'
      rw [setEntry, set_kind]
      exact htyped e' (List.mem_cons_of_mem _ he')
    rw [List.foldl_cons, ih _ hnodup.2 htyped', setEntry, get_set (htyped e List.mem_cons_self),
      List.lookup_cons]
    by_cases hname : name = e.1
    · have hnone : entries.lookup name = none := by
        rw [List.lookup_eq_none_iff]
        intro e' he'
        apply bne_iff_ne.mpr
        intro heq
        exact hnodup.1 (hname ▸ heq ▸ List.mem_map_of_mem he')
      rw [hnone, if_pos hname, hname, beq_self_eq_true]
      rfl
    · rw [if_neg hname, beq_false_of_ne hname]

variable {item new : StoredItem}

theorem get_afterMap (hitem : item.Storable) (hkind : new.kind = item.kind) {name : AttributeName}
    (hname : name ≠ attributeName "decaying") :
    (item.afterMap new).attributes.get name =
      (item.attributes.get name).or (new.attributes.get name) := by
  unfold afterMap
  split
  · next hentries =>
    have hnone : item.attributes.get name = none := by
      rw [Values.get, hentries, List.lookup_nil]
    rw [hnone, Option.none_or]
  · have htyped : ∀ e ∈ item.attributes.entries,
        (classAttributes new.kind.type).lookup e.1 = some e.2.type := by
      rw [hkind]
      exact hitem.typed
    have hfold := get_foldl_setEntry item.attributes.entries new item.attributes.nodup htyped name
    unfold pendingAgain
    split
    · exact (get_set_of_ne _ _ hname).trans hfold
    · exact hfold

theorem holdsFluid_congr {item item' : StoredItem} (h : item.kind = item'.kind) :
    item.holdsFluid = item'.holdsFluid := by
  rw [holdsFluid, holdsFluid, h]

/-- The sub-type that is read is that of the item, and adds no other attribute. -/
theorem get_afterCount (hstack : item.kind.stackable = true →
      item.kind.charges = 0 ∧ item.holdsFluid = false) (name : AttributeName) :
    (item.attributes.get name).or
        ((item.afterCount (construct item.kind 1)).attributes.get name) = item.valueOf name := by
  have hconstruct : (construct item.kind 1).holdsFluid = item.holdsFluid :=
    holdsFluid_congr (construct_kind item.kind 1)
  unfold afterCount valueOf
  split
  · next hsaved =>
    unfold setSubType
    dsimp only
    rw [hconstruct]
    split
    · next hfluid =>
      by_cases hname : name = attributeName "fluidtype"
      · rw [hname, if_pos ⟨hfluid, rfl⟩]
        cases hvalue : item.attributes.get (attributeName "fluidtype") with
        | some value => rfl
        | none =>
          have hsub : item.getSubType = 0 := by
            rw [getSubType, if_pos hfluid, getFluidType, getUnsigned, getInteger, hvalue]
          have hlookup : (classAttributes (construct item.kind 1).kind.type).lookup
              (attributeName "fluidtype") = some .integer := by
            cases (construct item.kind 1).kind.type <;> rfl
          rw [hsub, Option.none_or, Option.none_or]
          exact (get_set hlookup _).trans (if_pos rfl)
      · rw [setInteger, get_set_of_ne _ _ hname, if_neg fun h => hname h.2]
    · next hfluid =>
      have hstackable : item.kind.stackable = true := by
        rw [countSaved, Bool.or_eq_true] at hsaved
        exact hsaved.resolve_right hfluid
      rw [construct_kind, if_neg (fun hne => hne (hstack hstackable).1),
        if_neg fun h => hfluid h.1]
  · next hsaved =>
    have hfluid : ¬ item.holdsFluid = true := by
      rw [countSaved, Bool.or_eq_true] at hsaved
      exact fun h => hsaved (.inr h)
    rw [if_neg fun h => hfluid h.1]

/-- What `restoredIn` makes of a new item of the kind is the item again. -/
theorem restored_restoredIn (getNameByGuid : ℕ → Option (List UInt8)) (hitem : item.Storable)
    (hstack : item.kind.stackable = true →
      item.kind.charges = 0 ∧ item.holdsFluid = false ∧ item.count < 256) :
    item.Restored (item.restoredIn getNameByGuid (construct item.kind 1)) where
  kind := by rw [restoredIn, afterClass_kind, afterMap_kind, afterCount_kind, construct_kind]
  count := by
    intro hstackable
    obtain ⟨hcharges, hfluid, hlt⟩ := hstack hstackable
    have hsub : item.getSubType = item.count := by
      rw [getSubType, hfluid, hcharges]
      rfl
    have hsaved : item.countSaved = true := by rw [countSaved, hstackable, Bool.true_or]
    have hnew : (construct item.kind 1).holdsFluid = false :=
      (holdsFluid_congr (construct_kind item.kind 1)).trans hfluid
    rw [restoredIn, afterClass_count, afterMap_eq, afterCount, if_pos hsaved, hsub, setSubType]
    dsimp only
    rw [hnew, construct_kind, hcharges, Nat.mod_eq_of_lt hlt]
    change item.count % 2 ^ 16 % 256 = item.count
    omega
  attributes := by
    intro name hname hdescription
    have hmap : (item.afterMap (item.afterCount (construct item.kind 1))).attributes.get name =
        item.valueOf name := by
      rw [get_afterMap hitem ((afterCount_kind item _).trans (construct_kind item.kind 1)) hname]
      exact get_afterCount (fun h => ⟨(hstack h).1, (hstack h).2.1⟩) name
    rw [restoredIn, ← hmap]
    -- only a bed sets an attribute of its own, the description with the name of who sleeps in it
    unfold afterClass
    split
    · next hclass =>
      split
      · rfl
      · next hsleeper =>
        have hother : name ≠ attributeName "description" := fun h => hsleeper (hdescription h hclass)
        unfold withSleeper
        dsimp only
        split
        · rfl
        · split
          · rfl
          · exact get_set_of_ne _ _ hother
    · rfl
    · rfl
  destination := by
    intro hclass
    rw [restoredIn, afterClass, hclass]
  sleeper := by
    intro hclass
    have hnew : (item.afterMap (item.afterCount (construct item.kind 1))).sleeper = 0 := by
      rw [afterMap_eq]
      dsimp only
      rw [afterCount_sleeper, construct_sleeper]
    rw [restoredIn, afterClass, hclass]
    dsimp only
    split
    · next hzero => rw [hnew, hzero]
    · rfl

end Attributes

end StoredItem

end TyanoCore
