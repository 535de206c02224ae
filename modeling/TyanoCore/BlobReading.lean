import TyanoCore.ReadScript
import TyanoCore.StoredItem

/-!
# Attributes in a blob

`readAttr` and `unserializeAttr` as scripts of reads.  A length that does not fit in an `int32_t` is
compared as a negative number, so that a stream never lacks it, and then the read is foreign.  Where
no read is, a script does what the functions on streams do.
-/

namespace TyanoCore

open StoredItem

/-- What a `PropStream` tells of its rest. -/
def propGauge : ReadScript.Gauge UInt8 where
  lacks := PropStream.lacks
  more s := decide (s.length % 2 ^ 32 ≠ 0)

namespace Blob

/-- What is read with a call of `PropStream`: a value, the length of a string in so many bytes, or the
bytes of a string. -/
inductive Field where
  | value
  | length (bytes : ℕ)
  | text
deriving DecidableEq

end Blob

abbrev BlobScript := ReadScript Blob.Field UInt8

namespace Blob

/-! ## The readers of `PropStream` -/

def getField (field : Field) (n : ℕ) : BlobScript (Option ℕ) :=
  .take field n fun bytes => .done (bytes.map Bytes.leNat)

def getValue (n : ℕ) : BlobScript (Option ℕ) := getField .value n

def getUChar : BlobScript (Option ℕ) := getValue 1
def getUShort : BlobScript (Option ℕ) := getValue 2
def getULong : BlobScript (Option ℕ) := getValue 4

def getStringOf (n : ℕ) : BlobScript (Option (List UInt8)) :=
  (getField (.length n) n).bind fun strLen =>
    match strLen with
    | none => .done none
    | some strLen => .take .text strLen .done

def getString : BlobScript (Option (List UInt8)) := getStringOf 2
def getLString : BlobScript (Option (List UInt8)) := getStringOf 4

def skip (n : ℕ) : BlobScript Unit := .take .value n fun _ => .done ()

/-! ## Attributes -/

def readNumber (n : ℕ) (item : StoredItem) (change : ℕ → StoredItem) :
    BlobScript (ReadValue × StoredItem) :=
  (getValue n).map fun value =>
    match value with
    | none => (.error, item)
    | some value => (.continue, change value)

def readString (item : StoredItem) (change : List UInt8 → StoredItem) :
    BlobScript (ReadValue × StoredItem) :=
  getString.map fun value =>
    match value with
    | none => (.error, item)
    | some value => (.continue, change value)

def readEntry (type : ℕ) (key : AttributeName) (item : StoredItem) :
    BlobScript (Option StoredItem) :=
  match type with
  | 1 => getLString.map fun v => v.map fun v => item.set key (.string v)
  | 2 => getULong.map fun v => v.map fun v => item.set key (.integer (BitVec.ofNat 32 v))
  | 3 => getULong.map fun v => v.map fun v => item.set key (.float (BitVec.ofNat 32 v))
  | 4 => getUChar.map fun v => v.map fun v => item.set key (.boolean (v ≠ 0))
  | _ => .done (some item)

/-- The loop of `unserializeMap`. -/
def readEntries : ℕ → StoredItem → BlobScript (Bool × StoredItem)
  | 0, item => .done (true, item)
  | n + 1, item =>
    getString.bind fun key =>
      match key with
      | none => .done (false, item)
      | some key =>
        getUChar.bind fun type => (readEntry (type.getD 0) key item).bind fun entry =>
          match entry with
          | none => .done (false, item)
          | some item => readEntries n item

def unserializeMap (item : StoredItem) : BlobScript (Bool × StoredItem) :=
  getUShort.bind fun n =>
    match n with
    | none => .done (true, item)
    | some n => readEntries n item

def readMap (item : StoredItem) : BlobScript (ReadValue × StoredItem) :=
  (unserializeMap item).map fun (ret, item) =>
    (if ret then .continue else .error,
      if item.isDecaying then item.setDecayingPending else item)

/-- `Item::readAttr`. -/
def itemReadAttr (attr : ℕ) (item : StoredItem) : BlobScript (ReadValue × StoredItem) :=
  match integerAttributes.lookup attr with
  | some (n, name) => readNumber n item (item.setInteger name)
  | none =>
  match stringAttributes.lookup attr with
  | some name => readString item fun text => item.set name (.string text)
  | none =>
  match subTypeAttributes.lookup attr with
  | some n => readNumber n item item.setSubType
  | none =>
  match foreignAttributes.lookup attr with
  | some n => readNumber n item fun _ => item
  | none =>
  match attr with
  | 5 => readNumber 2 item item.setUniqueId
  | 42 => readNumber 1 item fun n => item.set (attributeName "scriptprotected") (.boolean (n ≠ 0))
  | 17 => readNumber 1 item fun n => if n ≠ 0 then item.setDecayingPending else item
  | 23 => getULong.map fun _ => (.error, item)
  | 128 => readMap item
  | 8 => (skip 5).map fun _ => (.continue, item)
  | _ => .done (.error, item)

def containerReadAttr (attr : ℕ) (item : StoredItem) : BlobScript (ReadValue × StoredItem) :=
  if attr = 23 then
    getULong.map fun count =>
      match count with
      | none => (.error, item)
      | some count => (.end, { item with serializationCount := count })
  else itemReadAttr attr item

def depotReadAttr (attr : ℕ) (item : StoredItem) : BlobScript (ReadValue × StoredItem) :=
  if attr = 10 then readNumber 2 item (item.setInteger (attributeName "depotid"))
  else itemReadAttr attr item

def doorReadAttr (attr : ℕ) (item : StoredItem) : BlobScript (ReadValue × StoredItem) :=
  if attr = 14 then readNumber 1 item (item.setInteger (attributeName "doorid"))
  else itemReadAttr attr item

def teleporterReadAttr (attr : ℕ) (item : StoredItem) : BlobScript (ReadValue × StoredItem) :=
  if attr = 8 then
    getUShort.bind fun x =>
      match x with
      | none => .done (.error, item)
      | some x =>
        getUShort.bind fun y =>
          match y with
          | none => .done (.error, item)
          | some y =>
            getUChar.map fun z =>
              match z with
              | none => (.error, item)
              | some z =>
                match Position.of x y z with
                | none => (.error, item)
                | some destination => (.continue, { item with destination := destination })
  else itemReadAttr attr item

section Bed

variable (getNameByGuid : ℕ → Option (List UInt8))

def bedReadAttr (attr : ℕ) (item : StoredItem) : BlobScript (ReadValue × StoredItem) :=
  match attr with
  | 20 => readNumber 4 item (item.withSleeper getNameByGuid)
  | 21 => readNumber 4 item (item.setInteger (attributeName "sleepstart"))
  | _ => itemReadAttr attr item

/-- The virtual `readAttr`. -/
def readAttr (attr : ℕ) (item : StoredItem) : BlobScript (ReadValue × StoredItem) :=
  match item.kind.createdClass with
  | .container => containerReadAttr attr item
  | .depot => depotReadAttr attr item
  | .door => doorReadAttr attr item
  | .teleporter => teleporterReadAttr attr item
  | .bed => bedReadAttr getNameByGuid attr item
  | _ => itemReadAttr attr item

/-- `unserializeAttr`, with a bound on its rounds. -/
def unserializeAttr : ℕ → StoredItem → BlobScript (Bool × StoredItem)
  | 0, _ => .out
  | n + 1, item =>
    getUChar.bind fun attrType =>
      match attrType with
      | none => .done (true, item)
      | some attrType =>
        if attrType = 0 then .done (true, item)
        else (readAttr getNameByGuid attrType item).bind fun (value, item) =>
          match value with
          | .error => .done (false, item)
          | .end => .done (true, item)
          | .continue => unserializeAttr n item

end Bed

/-! ## What the scripts evaluate to -/

open ReadScript

theorem eval_take {α : Type} (field : Field) (n : ℕ) (next : Option (List UInt8) → BlobScript α)
    (s : PropStream) : eval propGauge (.take field n next) s =
      if s.lacks n then eval propGauge (next none) s
      else eval propGauge (next (some (s.take n))) (s.drop n) := rfl

theorem eval_getField (field : Field) (n : ℕ) (s : PropStream) :
    eval propGauge (getField field n) s = some (PropStream.getValue n s) := by
  rw [getField, eval_take, PropStream.getValue]
  by_cases hlacks : s.lacks n = true
  · rw [if_pos hlacks, if_pos hlacks]
    rfl
  · rw [if_neg hlacks, if_neg hlacks]
    rfl

theorem eval_getValue (n : ℕ) (s : PropStream) :
    eval propGauge (getValue n) s = some (PropStream.getValue n s) := eval_getField .value n s

theorem eval_getStringOf (n : ℕ) (s : PropStream) :
    eval propGauge (getStringOf n) s = some (PropStream.getStringOf n s) := by
  rw [getStringOf, eval_bind, eval_getField, Option.bind_some, PropStream.getStringOf]
  cases PropStream.getValue n s with
  | mk strLen s =>
    cases strLen with
    | none => rfl
    | some strLen =>
      dsimp only
      rw [eval_take]
      by_cases hlacks : s.lacks strLen = true
      · rw [if_pos hlacks, if_pos hlacks]
        rfl
      · rw [if_neg hlacks, if_neg hlacks]
        rfl

theorem eval_map {α β : Type} (x : BlobScript α) (f : α → β) (s : PropStream) :
    eval propGauge (x.map f) s = (eval propGauge x s).map fun p => (f p.1, p.2) := by
  rw [ReadScript.map, eval_bind]
  cases eval propGauge x s with
  | none => rfl
  | some p => rfl

/-- A script does to a stream what a reader of items does. -/
def Reads {α : Type} (x : BlobScript (α × StoredItem)) (r : PropStream → α × StoredItem × PropStream) :
    Prop :=
  ∀ s, eval propGauge x s = some (((r s).1, (r s).2.1), (r s).2.2)

theorem reads_readNumber (n : ℕ) (item : StoredItem) (change : ℕ → StoredItem) :
    Reads (readNumber n item change) fun s => item.readNumber n s change := by
  intro s
  dsimp only
  rw [readNumber, eval_map, eval_getValue, StoredItem.readNumber]
  cases PropStream.getValue n s with
  | mk value s => cases value <;> rfl

theorem reads_readString (item : StoredItem) (change : List UInt8 → StoredItem) :
    Reads (readString item change) fun s => item.readString s change := by
  intro s
  dsimp only
  rw [readString, eval_map, getString, eval_getStringOf, StoredItem.readString,
    PropStream.getString]
  cases PropStream.getStringOf 2 s with
  | mk value s => cases value <;> rfl

theorem eval_readEntry (type : ℕ) (key : AttributeName) (item : StoredItem) (s : PropStream) :
    eval propGauge (readEntry type key item) s = some (item.readEntry type key s) := by
  rw [readEntry.eq_def, StoredItem.readEntry.eq_def]
  split
  · rw [eval_map, getLString, eval_getStringOf, PropStream.getLString]
    cases PropStream.getStringOf 4 s with
    | mk v s => cases v <;> rfl
  · rw [eval_map, getULong, eval_getValue, PropStream.getULong]
    cases PropStream.getValue 4 s with
    | mk v s => cases v <;> rfl
  · rw [eval_map, getULong, eval_getValue, PropStream.getULong]
    cases PropStream.getValue 4 s with
    | mk v s => cases v <;> rfl
  · rw [eval_map, getUChar, eval_getValue, PropStream.getUChar]
    cases PropStream.getValue 1 s with
    | mk v s => cases v <;> rfl
  · simp [eval, *]

theorem reads_readEntries (n : ℕ) (item : StoredItem) :
    Reads (readEntries n item) fun s => item.readEntries n s := by
  induction n generalizing item with
  | zero => exact fun s => rfl
  | succ n ih =>
    intro s
    dsimp only
    rw [readEntries, eval_bind, getString, eval_getStringOf, Option.bind_some,
      StoredItem.readEntries, PropStream.getString]
    cases PropStream.getStringOf 2 s with
    | mk key s =>
      cases key with
      | none => rfl
      | some key =>
        dsimp only
        rw [eval_bind, getUChar, eval_getValue, Option.bind_some, eval_bind, eval_readEntry,
          Option.bind_some, PropStream.getUChar]
        cases item.readEntry ((PropStream.getValue 1 s).1.getD 0) key (PropStream.getValue 1 s).2 with
        | mk entry s =>
          cases entry with
          | none => rfl
          | some item => exact ih item s

theorem reads_unserializeMap (item : StoredItem) :
    Reads (unserializeMap item) item.unserializeMap := by
  intro s
  rw [unserializeMap, eval_bind, getUShort, eval_getValue, Option.bind_some,
    StoredItem.unserializeMap, PropStream.getUShort]
  cases PropStream.getValue 2 s with
  | mk n s =>
    cases n with
    | none => rfl
    | some n => exact reads_readEntries n item s

theorem reads_readMap (item : StoredItem) : Reads (readMap item) item.readMap := by
  intro s
  rw [readMap, eval_map, reads_unserializeMap, StoredItem.readMap]
  rfl

theorem reads_itemReadAttr (attr : ℕ) (item : StoredItem) :
    Reads (itemReadAttr attr item) (item.itemReadAttr attr) := by
  intro s
  rw [itemReadAttr.eq_def, StoredItem.itemReadAttr.eq_def]
  cases integerAttributes.lookup attr with
  | some entry => exact reads_readNumber _ item _ s
  | none =>
  cases stringAttributes.lookup attr with
  | some name => exact reads_readString item _ s
  | none =>
  cases subTypeAttributes.lookup attr with
  | some n => exact reads_readNumber n item _ s
  | none =>
  cases foreignAttributes.lookup attr with
  | some n => exact reads_readNumber n item _ s
  | none =>
  dsimp only
  split
  · exact reads_readNumber 2 item _ s
  · exact reads_readNumber 1 item _ s
  · exact reads_readNumber 1 item _ s
  · rw [eval_map, getULong, eval_getValue]
    rfl
  · exact reads_readMap item s
  · rw [eval_map, skip, eval_take, PropStream.skip]
    split <;> rfl
  · simp [eval, *]

theorem reads_containerReadAttr (attr : ℕ) (item : StoredItem) :
    Reads (containerReadAttr attr item) (item.containerReadAttr attr) := by
  intro s
  rw [containerReadAttr, StoredItem.containerReadAttr]
  split
  · rw [eval_map, getULong, eval_getValue, PropStream.getULong]
    cases PropStream.getValue 4 s with
    | mk count s => cases count <;> rfl
  · exact reads_itemReadAttr attr item s

theorem reads_depotReadAttr (attr : ℕ) (item : StoredItem) :
    Reads (depotReadAttr attr item) (item.depotReadAttr attr) := by
  intro s
  rw [depotReadAttr, StoredItem.depotReadAttr]
  split
  · exact reads_readNumber 2 item _ s
  · exact reads_itemReadAttr attr item s

theorem reads_doorReadAttr (attr : ℕ) (item : StoredItem) :
    Reads (doorReadAttr attr item) (item.doorReadAttr attr) := by
  intro s
  rw [doorReadAttr, StoredItem.doorReadAttr]
  split
  · exact reads_readNumber 1 item _ s
  · exact reads_itemReadAttr attr item s

theorem reads_teleporterReadAttr (attr : ℕ) (item : StoredItem) :
    Reads (teleporterReadAttr attr item) (item.teleporterReadAttr attr) := by
  intro s
  rw [teleporterReadAttr, StoredItem.teleporterReadAttr]
  split
  · rw [eval_bind, getUShort, eval_getValue, Option.bind_some, PropStream.getUShort]
    cases PropStream.getValue 2 s with
    | mk x s =>
    cases x with
    | none => rfl
    | some x =>
    dsimp only
    rw [eval_bind, eval_getValue, Option.bind_some]
    cases PropStream.getValue 2 s with
    | mk y s =>
    cases y with
    | none => rfl
    | some y =>
    dsimp only
    rw [eval_map, getUChar, eval_getValue, PropStream.getUChar]
    cases PropStream.getValue 1 s with
    | mk z s =>
    cases z with
    | none => rfl
    | some z =>
    dsimp only
    rw [Option.map_some]
    dsimp only
    cases Position.of x y z <;> rfl
  · exact reads_itemReadAttr attr item s

variable (getNameByGuid : ℕ → Option (List UInt8))

theorem reads_bedReadAttr (attr : ℕ) (item : StoredItem) :
    Reads (bedReadAttr getNameByGuid attr item) (item.bedReadAttr getNameByGuid attr) := by
  intro s
  rw [bedReadAttr.eq_def, StoredItem.bedReadAttr.eq_def]
  split
  · exact reads_readNumber 4 item _ s
  · exact reads_readNumber 4 item _ s
  · have hitem := reads_itemReadAttr attr item s
    simp [*]

theorem reads_readAttr (attr : ℕ) (item : StoredItem) :
    Reads (readAttr getNameByGuid attr item) (item.readAttr getNameByGuid attr) := by
  intro s
  rw [readAttr, StoredItem.readAttr]
  cases item.kind.createdClass with
  | container => exact reads_containerReadAttr attr item s
  | depot => exact reads_depotReadAttr attr item s
  | door => exact reads_doorReadAttr attr item s
  | teleporter => exact reads_teleporterReadAttr attr item s
  | bed => exact reads_bedReadAttr getNameByGuid attr item s
  | item => exact reads_itemReadAttr attr item s
  | magicField => exact reads_itemReadAttr attr item s
  | trashHolder => exact reads_itemReadAttr attr item s
  | mailbox => exact reads_itemReadAttr attr item s

/-! ## What the scripts want -/

section Bounded

variable {out : Prop} {bad : Field → List UInt8 → Prop}

theorem of_lookup {β : Type} (P : β → Prop) {table : List (ℕ × β)} {attr : ℕ} {b : β}
    (htable : ∀ entry ∈ table, P entry.2) (hb : table.lookup attr = some b) : P b := by
  obtain ⟨before, after, rfl, -⟩ := List.lookup_eq_some_iff.mp hb
  exact htable (attr, b) (List.mem_append_right _ List.mem_cons_self)

variable (h : ∀ field units, bad field units → field = .length 4)

include h

theorem bounded_take {α : Type} {field : Field} (hfield : field ≠ .length 4) {n : ℕ}
    (hn : n < 2 ^ 31) {next : Option (List UInt8) → BlobScript α}
    (hnext : ∀ units, (next units).Bounded out bad (2 ^ 31)) :
    (ReadScript.take field n next).Bounded out bad (2 ^ 31) :=
  ⟨hn, hnext none, fun units _ =>
    ⟨fun hbad => absurd (h field units hbad) hfield, fun _ => hnext (some units)⟩⟩

theorem bounded_getValue {n : ℕ} (hn : n < 2 ^ 31) : (getValue n).Bounded out bad (2 ^ 31) := by
  rw [getValue, getField]
  exact bounded_take h (by decide) hn fun _ => trivial

theorem bounded_text {n : ℕ} (hn : n < 2 ^ 31) :
    (ReadScript.take .text n .done).Bounded out bad (2 ^ 31) :=
  bounded_take h (by decide) hn fun _ => trivial

/-- A string is as long as a number of two bytes can say. -/
theorem bounded_getString : getString.Bounded out bad (2 ^ 31) := by
  refine ⟨by decide, trivial, fun bytes hbytes => ⟨fun hbad => ?_, fun _ => ?_⟩⟩
  · exact absurd (h _ bytes hbad) (by decide)
  · have hlt : Bytes.leNat bytes < 256 ^ bytes.length := Bytes.leNat_lt bytes
    rw [hbytes] at hlt
    exact bounded_text h (hlt.trans (by decide))

/-- The length of a string of a map is the only one that may be too large. -/
theorem bounded_getLString
    (hbad : ∀ units, units.length = 4 → (bad (.length 4) units ↔ 2 ^ 31 ≤ Bytes.leNat units)) :
    getLString.Bounded out bad (2 ^ 31) := by
  refine ⟨by decide, trivial, fun bytes hbytes => ⟨fun hlong => ?_, fun hshort => ?_⟩⟩
  · exact (hbad bytes hbytes).mp hlong
  · rw [hbad bytes hbytes, Nat.not_le] at hshort
    exact bounded_text h hshort

theorem bounded_readNumber {n : ℕ} (hn : n < 2 ^ 31) (item : StoredItem)
    (change : ℕ → StoredItem) : (readNumber n item change).Bounded out bad (2 ^ 31) :=
  (bounded_getValue h hn).map

theorem bounded_readString (item : StoredItem) (change : List UInt8 → StoredItem) :
    (readString item change).Bounded out bad (2 ^ 31) := (bounded_getString h).map

section Map

variable (hbad : ∀ units, units.length = 4 → (bad (.length 4) units ↔ 2 ^ 31 ≤ Bytes.leNat units))

include hbad

theorem bounded_readEntry (type : ℕ) (key : AttributeName) (item : StoredItem) :
    (readEntry type key item).Bounded out bad (2 ^ 31) := by
  rw [readEntry.eq_def]
  split
  · exact (bounded_getLString h hbad).map
  · exact (bounded_getValue h (by decide)).map
  · exact (bounded_getValue h (by decide)).map
  · exact (bounded_getValue h (by decide)).map
  · trivial

theorem bounded_readEntries (n : ℕ) (item : StoredItem) :
    (readEntries n item).Bounded out bad (2 ^ 31) := by
  induction n generalizing item with
  | zero => trivial
  | succ n ih =>
    apply (bounded_getString h).bind
    intro key
    cases key with
    | none => trivial
    | some key =>
      apply (bounded_getValue h (by decide)).bind
      intro type
      apply (bounded_readEntry h hbad _ key item).bind
      intro entry
      cases entry with
      | none => trivial
      | some item => exact ih item

theorem bounded_readMap (item : StoredItem) : (readMap item).Bounded out bad (2 ^ 31) := by
  apply Bounded.map
  apply (bounded_getValue h (by decide)).bind
  intro n
  cases n with
  | none => trivial
  | some n => exact bounded_readEntries h hbad n item

end Map

theorem bounded_itemReadAttr (attr : ℕ) (item : StoredItem)
    (hmap : attr = 128 → ∀ units, units.length = 4 →
      (bad (.length 4) units ↔ 2 ^ 31 ≤ Bytes.leNat units)) :
    (itemReadAttr attr item).Bounded out bad (2 ^ 31) := by
  have hintegers : ∀ entry ∈ integerAttributes, entry.2.1 < 2 ^ 31 := by decide
  have hsubTypes : ∀ entry ∈ subTypeAttributes, entry.2 < 2 ^ 31 := by decide
  have hforeigns : ∀ entry ∈ foreignAttributes, entry.2 < 2 ^ 31 := by decide
  rw [itemReadAttr.eq_def]
  cases hinteger : integerAttributes.lookup attr with
  | some entry =>
    exact bounded_readNumber h (of_lookup (fun e => e.1 < 2 ^ 31) hintegers hinteger) item _
  | none =>
  cases stringAttributes.lookup attr with
  | some name => exact bounded_readString h item _
  | none =>
  cases hsubType : subTypeAttributes.lookup attr with
  | some n => exact bounded_readNumber h (of_lookup (· < 2 ^ 31) hsubTypes hsubType) item _
  | none =>
  cases hforeign : foreignAttributes.lookup attr with
  | some n => exact bounded_readNumber h (of_lookup (· < 2 ^ 31) hforeigns hforeign) item _
  | none =>
  dsimp only
  split
  · exact bounded_readNumber h (by decide) item _
  · exact bounded_readNumber h (by decide) item _
  · exact bounded_readNumber h (by decide) item _
  · exact (bounded_getValue h (by decide)).map
  · exact bounded_readMap h (hmap rfl) item
  · have hskip : (skip 5).Bounded out bad (2 ^ 31) := by
      rw [skip]
      exact bounded_take h (by decide) (by decide) fun _ => trivial
    exact hskip.map
  · trivial

/-- No attribute is read without end, and only a map can have too long a string. -/
theorem bounded_readAttr (attr : ℕ) (item : StoredItem)
    (hmap : attr = 128 → ∀ units, units.length = 4 →
      (bad (.length 4) units ↔ 2 ^ 31 ≤ Bytes.leNat units)) :
    (readAttr getNameByGuid attr item).Bounded out bad (2 ^ 31) := by
  have hitem : (itemReadAttr attr item).Bounded out bad (2 ^ 31) :=
    bounded_itemReadAttr h attr item hmap
  rw [readAttr]
  cases item.kind.createdClass with
  | container =>
    dsimp only [containerReadAttr]
    split
    · exact (bounded_getValue h (by decide)).map
    · exact hitem
  | depot =>
    dsimp only [depotReadAttr]
    split
    · exact bounded_readNumber h (by decide) item _
    · exact hitem
  | door =>
    dsimp only [doorReadAttr]
    split
    · exact bounded_readNumber h (by decide) item _
    · exact hitem
  | teleporter =>
    dsimp only [teleporterReadAttr]
    split
    · apply (bounded_getValue h (by decide)).bind
      intro x
      cases x with
      | none => trivial
      | some x =>
        apply (bounded_getValue h (by decide)).bind
        intro y
        cases y with
        | none => trivial
        | some y => exact (bounded_getValue h (by decide)).map
    · exact hitem
  | bed =>
    dsimp only
    rw [bedReadAttr.eq_def]
    split
    · exact bounded_readNumber h (by decide) item _
    · exact bounded_readNumber h (by decide) item _
    · exact hitem
  | item => exact hitem
  | magicField => exact hitem
  | trashHolder => exact hitem
  | mailbox => exact hitem

end Bounded

/-- The length of a string of a map is negative as an `int32_t`. -/
def LongString (field : Field) (units : List UInt8) : Prop :=
  field = .length 4 ∧ 2 ^ 31 ≤ Bytes.leNat units

theorem LongString.field {field : Field} {units : List UInt8} (h : LongString field units) :
    field = .length 4 := h.1

theorem longString_iff (units : List UInt8) :
    LongString (.length 4) units ↔ 2 ^ 31 ≤ Bytes.leNat units := and_iff_right rfl

/-- Wherever the script comes to a string of a map, the four bytes there tell a length that is positive
as an `int32_t`. -/
def StringsFit {α : Type} (x : BlobScript α) (blob : List UInt8) : Prop :=
  ∀ f ∈ fields propGauge x blob, f.1 = .length 4 → Bytes.leNat f.2 < 2 ^ 31

instance {α : Type} (x : BlobScript α) (blob : List UInt8) : Decidable (StringsFit x blob) :=
  inferInstanceAs (Decidable (∀ f ∈ fields propGauge x blob, _))

theorem stringsFit_iff {α : Type} (x : BlobScript α) (blob : List UInt8) :
    StringsFit x blob ↔ ∀ f ∈ fields propGauge x blob, ¬ LongString f.1 f.2 := by
  apply forall₂_congr
  intro f _
  rw [LongString, not_and, Nat.not_le]

/-! ## Streams and their sizes -/

/-- The size of a stream of less than 2^31 bytes is right, and a length from 2^31 on is negative. -/
theorem propGauge_exact : propGauge.Exact (2 ^ 31) := by
  intro s n hs
  have hsize : s.length % 2 ^ 32 = s.length := Nat.mod_eq_of_lt (by omega)
  dsimp only [propGauge, PropStream.lacks]
  rw [hsize, if_pos hs]

/-- A script whose bounds are not used up reads inside a short blob exactly if no string is too long. -/
theorem staysInside_iff_stringsFit {α : Type} {x : BlobScript α}
    (hx : x.Bounded True LongString (2 ^ 31)) {blob : List UInt8} (hblob : blob.length < 2 ^ 31)
    (hout : run propGauge x blob ≠ .out) : StaysInside propGauge x blob ↔ StringsFit x blob := by
  rw [stringsFit_iff]
  exact hx.staysInside_iff propGauge_exact hblob hout

theorem run_getValue_ne_out (n : ℕ) (s : PropStream) : run propGauge (getValue n) s ≠ .out := by
  rw [getValue, getField, run]
  split
  · exact Outcome.done_ne_out
  · split
    · exact Outcome.done_ne_out
    · exact Outcome.foreign_ne_out

theorem run_readAttr_ne_out (attr : ℕ) (item : StoredItem) {s : PropStream}
    (hs : s.length < 2 ^ 31) : run propGauge (readAttr getNameByGuid attr item) s ≠ .out := by
  have hbounded : (readAttr getNameByGuid attr item).Bounded False LongString (2 ^ 31) :=
    bounded_readAttr getNameByGuid (fun _ _ => LongString.field) attr item
      fun _ units _ => longString_iff units
  exact hbounded.run_ne_out propGauge_exact hs

/-- Whatever the stream, only a map is read beyond the end of it. -/
theorem staysInside_readAttr {attr : ℕ} (hattr : attr ≠ 128) (item : StoredItem) {s : PropStream}
    (hs : s.length < 2 ^ 31) : StaysInside propGauge (readAttr getNameByGuid attr item) s := by
  have hbounded : (readAttr getNameByGuid attr item).Bounded False (fun _ _ => False) (2 ^ 31) :=
    bounded_readAttr getNameByGuid (fun _ _ h => h.elim) attr item fun h => absurd h hattr
  exact (hbounded.staysInside_iff propGauge_exact hs (hbounded.run_ne_out propGauge_exact hs)).mpr
    fun _ _ h => h

/-- The size of a longer stream is negative, and nothing is read from it. -/
theorem run_getValue_long {n : ℕ} {s : PropStream} (hn : n < 2 ^ 31) (hs : 2 ^ 31 ≤ s.length)
    (hs' : s.length < 2 ^ 32) : run propGauge (getValue n) s = .done none s := by
  have hlacks : propGauge.lacks s n = true := by
    dsimp only [propGauge, PropStream.lacks]
    rw [Nat.mod_eq_of_lt hs', if_neg (Nat.not_lt.mpr hs), decide_eq_true hn, Bool.or_true]
  rw [getValue, getField, run, if_pos hlacks]
  rfl

/-- A byte is read where there is one. -/
theorem run_getUChar_length {s r : PropStream} {v : Option ℕ} (hs : s.length < 2 ^ 31)
    (h : run propGauge getUChar s = .done v r) : r.length = s.length - 1 := by
  rw [getUChar, getValue, getField, run] at h
  split at h
  · next hlacks =>
    have hshort := (propGauge_exact.lacks_iff hs).mp hlacks
    rw [← (Outcome.done.inj h).2]
    omega
  · split at h
    · rw [← (Outcome.done.inj h).2, List.length_drop]
    · exact absurd h Outcome.foreign_ne_done

/-- A value that is there takes its bytes. -/
theorem run_getValue_some {n v : ℕ} {s r : PropStream}
    (h : run propGauge (getValue n) s = .done (some v) r) : r.length + n = s.length := by
  rw [getValue, getField, run] at h
  split at h
  · cases (Outcome.done.inj h).1
  · split at h
    · next hlength =>
      rw [← (Outcome.done.inj h).2, List.length_drop]
      exact Nat.sub_add_cancel hlength
    · exact absurd h Outcome.foreign_ne_done

/-- Each round of `unserializeAttr` takes a byte. -/
theorem unserializeAttr_ne_out (n : ℕ) (item : StoredItem) (s : PropStream) (h : s.length < n)
    (hs : s.length < 2 ^ 31) : run propGauge (unserializeAttr getNameByGuid n item) s ≠ .out := by
  induction n generalizing item s with
  | zero => exact absurd h (Nat.not_lt_zero _)
  | succ n ih =>
    apply run_bind_ne_out (run_getValue_ne_out 1 s)
    intro attrType r hread
    cases attrType with
    | none => exact Outcome.done_ne_out
    | some attrType =>
      have hbyte := run_getValue_some hread
      dsimp only
      split
      · exact Outcome.done_ne_out
      · apply run_bind_ne_out (run_readAttr_ne_out getNameByGuid attrType item (by omega))
        intro p r' hattr
        have hle := run_length_le hattr
        cases p with
        | mk value item =>
          cases value with
          | error => exact Outcome.done_ne_out
          | «end» => exact Outcome.done_ne_out
          | «continue» => exact ih item r' (by omega) (by omega)

/-- Whatever the attributes are, only a string of a map can be too long. -/
theorem bounded_unserializeAttr (n : ℕ) (item : StoredItem) :
    (unserializeAttr getNameByGuid n item).Bounded True LongString (2 ^ 31) := by
  induction n generalizing item with
  | zero => trivial
  | succ n ih =>
    apply (bounded_getValue (fun _ _ => LongString.field) (by decide)).bind
    intro attrType
    cases attrType with
    | none => trivial
    | some attrType =>
      dsimp only
      split
      · trivial
      · apply (bounded_readAttr getNameByGuid (fun _ _ => LongString.field) attrType item
          fun _ units _ => longString_iff units).bind
        intro p
        cases p with
        | mk value item =>
          cases value with
          | error => trivial
          | «end» => trivial
          | «continue» => exact ih item

/-- Where no read is foreign, the script does what `unserializeAttr` does on the stream. -/
theorem run_unserializeAttr {n : ℕ} {item : StoredItem} {s r : PropStream} {p : Bool × StoredItem}
    (h : run propGauge (unserializeAttr getNameByGuid n item) s = .done p r) :
    StoredItem.unserializeAttrIn getNameByGuid n item s = (p.1, p.2, r) := by
  have heval := eval_of_run h
  clear h
  induction n generalizing item s with
  | zero => cases heval
  | succ n ih =>
    rw [unserializeAttr, eval_bind, getUChar, eval_getValue, Option.bind_some] at heval
    rw [StoredItem.unserializeAttrIn, PropStream.getUChar]
    cases hread : PropStream.getValue 1 s with
    | mk attrType s₁ =>
    rw [hread] at heval
    cases attrType with
    | none =>
      obtain ⟨rfl, rfl⟩ := Prod.mk.inj (Option.some.inj heval)
      rfl
    | some attrType =>
      dsimp only at heval ⊢
      split at heval
      · next hend =>
        obtain ⟨rfl, rfl⟩ := Prod.mk.inj (Option.some.inj heval)
        rw [if_pos hend]
      · next hend =>
        rw [if_neg hend]
        rw [eval_bind, reads_readAttr, Option.bind_some] at heval
        cases hattr : item.readAttr getNameByGuid attrType s₁ with
        | mk value rest =>
        cases rest with
        | mk item s₂ =>
        rw [hattr] at heval
        cases value with
        | error =>
          obtain ⟨rfl, rfl⟩ := Prod.mk.inj (Option.some.inj heval)
          rfl
        | «end» =>
          obtain ⟨rfl, rfl⟩ := Prod.mk.inj (Option.some.inj heval)
          rfl
        | «continue» => exact ih heval

/-- Any two bounds that the stream does not reach give the same. -/
theorem unserializeAttrIn_congr {n m : ℕ} (item : StoredItem) {s : PropStream} (hn : s.length < n)
    (hm : s.length < m) :
    StoredItem.unserializeAttrIn getNameByGuid n item s =
      StoredItem.unserializeAttrIn getNameByGuid m item s := by
  induction n generalizing m item s with
  | zero => exact absurd hn (Nat.not_lt_zero _)
  | succ n ih =>
  cases m with
  | zero => exact absurd hm (Nat.not_lt_zero _)
  | succ m =>
    rw [StoredItem.unserializeAttrIn, StoredItem.unserializeAttrIn]
    cases hread : PropStream.getUChar s with
    | mk attrType s₁ =>
    cases attrType with
    | none => rfl
    | some attrType =>
      have hlength := PropStream.getUChar_length_lt hread
      dsimp only
      split
      · rfl
      · have hsuffix := eval_suffix (reads_readAttr getNameByGuid attrType item s₁)
        cases hattr : item.readAttr getNameByGuid attrType s₁ with
        | mk value rest =>
        cases rest with
        | mk item s₂ =>
        rw [hattr] at hsuffix
        have hle : s₂.length ≤ s₁.length := hsuffix.length_le
        cases value with
        | error => rfl
        | «end» => rfl
        | «continue» => exact ih item (by omega) (by omega)

/-- With a bound that the stream does not reach, the script does what `unserializeAttr` does. -/
theorem run_unserializeAttr_enough {n : ℕ} {item : StoredItem} {s r : PropStream}
    {p : Bool × StoredItem} (hn : s.length < n)
    (h : run propGauge (unserializeAttr getNameByGuid n item) s = .done p r) :
    StoredItem.unserializeAttr getNameByGuid item s = (p.1, p.2, r) := by
  rw [StoredItem.unserializeAttr, unserializeAttrIn_congr getNameByGuid item (Nat.lt_succ_self _) hn]
  exact run_unserializeAttr getNameByGuid h

end Blob

end TyanoCore
