import TyanoCore.AttributeStream
import TyanoCore.Loop
import TyanoCore.MapItems

/-!
# Items of houses

`saveItem` and `loadItem` of `IOMapSerialize`, the latter for a container that gets the item.  What lies
in an item is written from the back and put in front of what has been read, so that it keeps its order.
-/

namespace TyanoCore

open PropStream StoredItem

/-! ## Saving -/

/-- `IOMapSerialize::saveItem`. -/
def saveItem : ItemTree → List UInt8 :=
  OrderedTree.fold fun item contents =>
    addUShort item.kind.id ++ (item.serializeAttr ++
      ((if item.isContainer then
          addUChar 23 ++ (addULong contents.length ++ contents.reverse.flatten)
        else []) ++ addUChar 0))

/-! ## Loading -/

/-- `Game::startDecay` for an item that has just been created; `none` where it decays at once. -/
def startDecay (removed : Bool) (item : StoredItem) : Option StoredItem :=
  if removed ∨ item.kind.decayTo < 0 ∨ item.kind.decayTime = 0 ∨
      item.getInteger (attributeName "decaying") = some 1 then some item
  else if ((item.getInteger (attributeName "duration")).getD 0).toInt ≤ 0 then none
  else some (item.setInteger (attributeName "decaying") 1)

/-- `Item::__startDecaying`, which `Container` overrides. -/
def itemStartDecaying (removed : Bool) (item : StoredItem) : Option StoredItem :=
  if item.isContainer then some item else startDecay removed item

/-- `__startDecaying`, of an item or of what is in a container. -/
def startDecaying (removed : Bool) : ItemTree → Option ItemTree :=
  OrderedTree.fold fun item contents => do
    let contents ← contents.mapM id
    let item ← itemStartDecaying removed item
    return .node item contents

/-- A container that items are put into. -/
structure ContainerState where
  contents : List ItemTree := []
  totalWeight : ℤ := 0

/-- `Container::__internalAddThing` and `__startDecaying`; `removed` tells whether the container is out
of the world. -/
def ContainerState.add (c : ContainerState) (removed : Bool) : Option LoadedItem →
    Option ContainerState
  | none => some c
  | some (t, weight) => do
    let t ← startDecaying removed t
    return { contents := t :: c.contents, totalWeight := c.totalWeight + weight }

/-- What `loadItem` makes of a stream; `none` where it returns false. -/
abbrev Load := PropStream → Option (Option LoadedItem × PropStream)

/-- The loop of `loadContainer`. -/
def loadContents (load : Load) (removed : Bool) : ℕ → ContainerState → PropStream →
    Option (ContainerState × PropStream)
  | 0, c, s => some (c, s)
  | n + 1, c, s => do
    let (item, s) ← load s
    let c ← c.add removed item
    loadContents load removed n c s

/-- `IOMapSerialize::loadContainer`. -/
def loadContainer (load : Load) (removed : Bool) (serializationCount : ℕ) (c : ContainerState)
    (s : PropStream) : Option (ContainerState × PropStream) := do
  let (c, s) ← loadContents load removed serializationCount c s
  let endAttr := getUChar s
  if endAttr.1.getD 0 = 0 then return (c, endAttr.2) else none

section Load

variable (kinds : KindId → Option StoredKind) (getNameByGuid : ℕ → Option (List UInt8))

/-- An item with what is in it from a stream.  It has no parent yet. -/
def loadCreated (load : Load) (item : StoredItem) (s : PropStream) :
    Option (Option LoadedItem × PropStream) :=
  match item.unserializeAttr getNameByGuid s with
  | (false, _, _) => none
  | (true, item, s) =>
    if item.isContainer then do
      let (c, s) ← loadContainer load true item.serializationCount {} s
      return (some (.node { item with serializationCount := 0 } c.contents,
        item.getWeight + c.totalWeight), s)
    else some (some (.node item [], item.getWeight), s)

/-- `IOMapSerialize::loadItem` up to the container that gets the item; there are at most as many items
inside each other as the stream has bytes. -/
def loadItemIn : ℕ → Load
  | 0, _ => none
  | n + 1, s =>
    let id := getUShort s
    match kinds (id.1.getD 0) with
    | none => some (none, id.2)
    | some _ =>
      match createItem kinds (id.1.getD 0) 1 with
      | none => some (none, id.2)
      | some item => loadCreated getNameByGuid (loadItemIn n) item id.2

/-- `IOMapSerialize::loadItem` into a container. -/
def loadItem (removed : Bool) (c : ContainerState) (s : PropStream) :
    Option (ContainerState × PropStream) := do
  let (item, s) ← loadItemIn kinds getNameByGuid (s.length + 1) s
  let c ← c.add removed item
  return (c, s)

end Load

/-! ## What comes back -/

/-- An item that can be created again: its kind is known and not replaced by another one, it is stacked
at most if it is neither charged nor filled, and only containers have something in them. -/
structure Restorable (kinds : KindId → Option StoredKind) (item : StoredItem)
    (contents : List ItemTree) : Prop where
  storable : item.Storable
  known : kinds item.kind.id = some item.kind
  id_ne : item.kind.id ≠ 0
  id_lt : item.kind.id < 2 ^ 16
  created : createdKindId item.kind.id = item.kind.id
  valid : item.kind.group ≠ .deprecated
  stack : item.kind.stackable = true →
    item.kind.charges = 0 ∧ item.holdsFluid = false ∧ 1 ≤ item.count ∧ item.count ≤ 100
  empty : item.isContainer = false → contents = []

/-- An item does not decay as soon as it is in the world. -/
def Lasting (item : StoredItem) : Prop :=
  item.isContainer = false → 0 ≤ item.kind.decayTo → item.kind.decayTime ≠ 0 →
    ∃ bits : BitVec 32,
      item.valueOf (attributeName "duration") = some (.integer bits) ∧ 0 < bits.toInt

section Restored

variable {getNameByGuid : ℕ → Option (List UInt8)} {kinds : KindId → Option StoredKind}
variable {item item' : StoredItem} {contents : List ItemTree}

/-- The item that comes back, before its decay starts. -/
def rebuilt (getNameByGuid : ℕ → Option (List UInt8)) (item : StoredItem) : StoredItem :=
  let item' := item.restoredIn getNameByGuid (construct item.kind 1)
  if item.isContainer then { item' with serializationCount := 0 } else item'

theorem Restorable.restored_rebuilt (h : Restorable kinds item contents) :
    item.Restored (rebuilt getNameByGuid item) := by
  have hrestored := restored_restoredIn getNameByGuid h.storable fun hstackable => by
    obtain ⟨hcharges, hfluid, -, hle⟩ := h.stack hstackable
    exact ⟨hcharges, hfluid, by omega⟩
  unfold rebuilt
  dsimp only
  split
  · exact ⟨hrestored.kind, hrestored.count, hrestored.attributes, hrestored.destination,
      hrestored.sleeper⟩
  · exact hrestored

theorem isContainer_congr (h : item'.kind = item.kind) : item'.isContainer = item.isContainer := by
  rw [isContainer, isContainer, h]

theorem StoredItem.Restored.setDecaying (h : item.Restored item') :
    item.Restored (item'.setInteger (attributeName "decaying") 1) where
  kind := (set_kind item' _ _).trans h.kind
  count hstackable := (set_count item' _ _).trans (h.count hstackable)
  attributes name hname hdescription :=
    (get_set_of_ne _ _ hname).trans (h.attributes name hname hdescription)
  destination hclass := by
    rw [setInteger, set_eq]
    exact h.destination hclass
  sleeper hclass := (set_sleeper item' _ _).trans (h.sleeper hclass)

theorem StoredItem.Restored.getWeight_eq (h : item.Restored item') :
    item'.getWeight = item.getWeight := by
  unfold getWeight
  rw [h.kind]
  split
  · next hstackable => rw [h.count hstackable]
  · rfl

/-- The decay of an item that comes back starts, unless it is a container. -/
theorem Restorable.startDecay_rebuilt (h : Restorable kinds item contents) {removed : Bool}
    (hlasting : removed = false → Lasting item) :
    ∃ item', itemStartDecaying removed (rebuilt getNameByGuid item) = some item' ∧
      item.Restored item' := by
  have hrestored : item.Restored (rebuilt getNameByGuid item) := h.restored_rebuilt
  unfold itemStartDecaying
  split
  · exact ⟨_, rfl, hrestored⟩
  · next hcontainer =>
    unfold startDecay
    split
    · exact ⟨_, rfl, hrestored⟩
    · next hstart =>
      simp only [not_or, Bool.not_eq_true, not_lt] at hstart
      obtain ⟨hremoved, hdecayTo, hdecayTime, -⟩ := hstart
      rw [isContainer_congr hrestored.kind, Bool.not_eq_true] at hcontainer
      rw [hrestored.kind] at hdecayTo hdecayTime
      obtain ⟨bits, hbits, hpos⟩ := hlasting hremoved hcontainer hdecayTo hdecayTime
      have hduration : (rebuilt getNameByGuid item).getInteger (attributeName "duration") =
          some bits := by
        rw [getInteger, hrestored.attributes _ (by decide) (fun h => absurd h (by decide)), hbits]
      rw [hduration, Option.getD_some, if_neg (not_le.mpr hpos)]
      exact ⟨_, rfl, hrestored.setDecaying⟩

end Restored

/-! ## Starting the decay -/

theorem mapM_id_map {α β : Type} {f : α → Option β} {g : α → β} {l : List α}
    (h : ∀ a ∈ l, f a = some (g a)) : (l.map f).mapM id = some (l.map g) :=
  List.mapM_map.trans (Loop.mapM_some h)

theorem startDecaying_map {removed : Bool} {f g : StoredItem → StoredItem} {t : ItemTree}
    (h : t.All fun item _ => itemStartDecaying removed (f item) = some (g item)) :
    startDecaying removed (t.map f) = some (t.map g) := by
  induction t using OrderedTree.induct with
  | h item contents ih =>
    have hcontents := mapM_id_map (f := fun t => startDecaying removed (t.map f))
      fun t ht => ih t ht (h.under t ht)
    rw [OrderedTree.map_node, OrderedTree.map_node, startDecaying, OrderedTree.fold_node,
      List.map_map]
    exact Option.bind_eq_some_iff.mpr
      ⟨_, hcontents, Option.bind_eq_some_iff.mpr ⟨_, h.root, rfl⟩⟩

/-- Nothing happens to what is out of the world. -/
theorem startDecaying_removed (t : ItemTree) : startDecaying true t = some t := by
  induction t using OrderedTree.induct with
  | h item contents ih =>
    have hcontents := mapM_id_map (g := id) ih
    rw [startDecaying, OrderedTree.fold_node]
    rw [List.map_id] at hcontents
    apply Option.bind_eq_some_iff.mpr
    have hitem : itemStartDecaying true item = some item := by
      unfold itemStartDecaying
      split
      · rfl
      · exact if_pos (.inl rfl)
    exact ⟨_, hcontents, Option.bind_eq_some_iff.mpr ⟨item, hitem, rfl⟩⟩

section Started

variable {getNameByGuid : ℕ → Option (List UInt8)} {kinds : KindId → Option StoredKind}
variable {removed : Bool} {t : ItemTree}

/-- The item that comes back, when its decay has started. -/
def started (getNameByGuid : ℕ → Option (List UInt8)) (removed : Bool) (item : StoredItem) :
    StoredItem :=
  (itemStartDecaying removed (rebuilt getNameByGuid item)).getD item

theorem itemStartDecaying_rebuilt (ht : t.All (Restorable kinds))
    (hlasting : t.All fun item _ => removed = false → Lasting item) :
    t.All fun item _ => itemStartDecaying removed (rebuilt getNameByGuid item) =
      some (started getNameByGuid removed item) ∧
        item.Restored (started getNameByGuid removed item) := by
  apply (ht.and hlasting).imp
  intro item contents hitem
  obtain ⟨item', heq, hrestored⟩ := hitem.1.startDecay_rebuilt hitem.2
  have hvalue : started getNameByGuid removed item = item' := by
    rw [started, heq, Option.getD_some]
  rw [hvalue]
  exact ⟨heq, hrestored⟩

theorem startDecaying_rebuilt (ht : t.All (Restorable kinds))
    (hlasting : t.All fun item _ => removed = false → Lasting item) :
    startDecaying removed (t.map (rebuilt getNameByGuid)) =
      some (t.map (started getNameByGuid removed)) := by
  apply startDecaying_map
  exact (itemStartDecaying_rebuilt ht hlasting).imp fun item contents h => h.1

theorem restored_started (ht : t.All (Restorable kinds))
    (hlasting : t.All fun item _ => removed = false → Lasting item) :
    t.All fun item _ => item.Restored (started getNameByGuid removed item) :=
  (itemStartDecaying_rebuilt ht hlasting).imp fun _ _ h => h.2

end Started

/-! ## Reading what has been written -/

theorem saveItem_node (item : StoredItem) (contents : List ItemTree) :
    saveItem (.node item contents) = addUShort item.kind.id ++ (item.serializeAttr ++
      ((if item.isContainer then
          addUChar 23 ++ (addULong contents.length ++ contents.reverse.flatMap saveItem)
        else []) ++ addUChar 0)) := by
  rw [saveItem, OrderedTree.fold_node, List.length_map, ← List.map_reverse, List.flatMap_def]

/-- An item takes at least the two bytes of its kind. -/
theorem two_le_length_saveItem (t : ItemTree) : 2 ≤ (saveItem t).length := by
  obtain ⟨item, contents⟩ := t
  rw [saveItem_node, List.length_append, addUShort, Bytes.leBytes_length]
  exact Nat.le_add_right _ _

theorem length_le_flatMap_saveItem (ts : List ItemTree) :
    ts.length ≤ (ts.flatMap saveItem).length := by
  induction ts with
  | nil => exact le_rfl
  | cons t ts ih =>
    have ht := two_le_length_saveItem t
    rw [List.length_cons, List.flatMap_cons, List.length_append]
    omega

/-- Where `load` reads single items, the loop reads a list of them and turns it round. -/
theorem loadContents_flatMap {load : Load} {n : ℕ} {f : StoredItem → StoredItem}
    (items : List ItemTree) (c : ContainerState) {rest : PropStream}
    (hload : ∀ t ∈ items, ∀ rest, (saveItem t ++ rest).length < n →
      load (saveItem t ++ rest) = some (some (t.map f, ItemTree.weight t), rest))
    (hlt : (items.flatMap saveItem ++ rest).length < n) :
    loadContents load true items.length c (items.flatMap saveItem ++ rest) =
      some ({ contents := (items.map (OrderedTree.map f)).reverse ++ c.contents
              totalWeight := c.totalWeight + (items.map ItemTree.weight).sum }, rest) := by
  induction items generalizing c with
  | nil =>
    have hweight : c.totalWeight + ([] : List ℤ).sum = c.totalWeight := Int.add_zero _
    simp only [List.flatMap_nil, List.nil_append, List.length_nil, loadContents, List.map_nil,
      List.reverse_nil, hweight]
  | cons t items ih =>
    rw [List.flatMap_cons, List.append_assoc] at hlt ⊢
    have hrest : (items.flatMap saveItem ++ rest).length < n := by
      rw [List.length_append] at hlt
      omega
    have hfirst := hload t List.mem_cons_self _ hlt
    have hadd : c.add true (some (t.map f, ItemTree.weight t)) =
        some { contents := t.map f :: c.contents
               totalWeight := c.totalWeight + ItemTree.weight t } := by
      rw [ContainerState.add, startDecaying_removed]
      rfl
    rw [List.length_cons, loadContents, hfirst, Option.bind_eq_bind, Option.bind_some]
    dsimp only
    rw [hadd, Option.bind_eq_bind, Option.bind_some,
      ih _ (fun t ht => hload t (List.mem_cons_of_mem _ ht)) hrest, List.map_cons,
      List.reverse_cons, List.append_assoc, List.map_cons, List.sum_cons, Int.add_assoc]
    rfl

theorem loadContainer_flatMap {load : Load} {n : ℕ} {f : StoredItem → StoredItem}
    (items : List ItemTree) {rest : PropStream} (hn : n ≤ 2 ^ 31)
    (hload : ∀ t ∈ items, ∀ rest, (saveItem t ++ rest).length < n →
      load (saveItem t ++ rest) = some (some (t.map f, ItemTree.weight t), rest))
    (hlt : (items.flatMap saveItem ++ (addUChar 0 ++ rest)).length < n) :
    loadContainer load true items.length {} (items.flatMap saveItem ++ (addUChar 0 ++ rest)) =
      some ({ contents := (items.map (OrderedTree.map f)).reverse
              totalWeight := (items.map ItemTree.weight).sum }, rest) := by
  have hshort : Short (items.flatMap saveItem ++ (addUChar 0 ++ rest)) := lt_of_lt_of_le hlt hn
  have hend : getUChar (addUChar 0 ++ rest) = (some 0, rest) :=
    getUChar_addUChar (by decide) hshort.right
  rw [loadContainer, loadContents_flatMap items {} hload hlt, Option.bind_eq_bind,
    Option.bind_some]
  dsimp only
  rw [hend, Option.getD_some, if_pos rfl, List.append_nil, Int.zero_add]
  rfl

section Load

variable {kinds : KindId → Option StoredKind} {getNameByGuid : ℕ → Option (List UInt8)}

/-- The kind of a saved item is read and an item of it created. -/
theorem loadItemIn_kind {item : StoredItem} {contents : List ItemTree}
    (hitem : Restorable kinds item contents) {n : ℕ} {s : PropStream}
    (h : Short (addUShort item.kind.id ++ s)) :
    loadItemIn kinds getNameByGuid (n + 1) (addUShort item.kind.id ++ s) =
      loadCreated getNameByGuid (loadItemIn kinds getNameByGuid n) (construct item.kind 1) s := by
  have hid : getUShort (addUShort item.kind.id ++ s) = (some item.kind.id, s) :=
    getValue_leBytes hitem.id_lt h
  have hcreate : createItem kinds item.kind.id 1 = some (construct item.kind 1) := by
    rw [createItem, if_neg hitem.id_ne, hitem.created, hitem.known]
    exact if_neg hitem.valid
  rw [loadItemIn, hid]
  dsimp only
  rw [Option.getD_some, hitem.known]
  dsimp only
  rw [hcreate]

/-- An item with nothing in it is read. -/
theorem loadCreated_item {item : StoredItem} {contents : List ItemTree}
    (hitem : Restorable kinds item contents) (hcontainer : item.isContainer = false) (load : Load)
    {rest : PropStream} (hshort : Short (item.serializeAttr ++ (addUChar 0 ++ rest))) :
    loadCreated getNameByGuid load (construct item.kind 1)
        (item.serializeAttr ++ (addUChar 0 ++ rest)) =
      some (some (.node (rebuilt getNameByGuid item) [], item.getWeight), rest) := by
  have hkind : (construct item.kind 1).kind = item.kind := construct_kind item.kind 1
  have hrestored : item.Restored (rebuilt getNameByGuid item) := hitem.restored_rebuilt
  have hsame : (rebuilt getNameByGuid item).isContainer = item.isContainer :=
    isContainer_congr hrestored.kind
  have hrebuilt : rebuilt getNameByGuid item =
      item.restoredIn getNameByGuid (construct item.kind 1) := by
    rw [rebuilt, hcontainer]
    rfl
  unfold loadCreated
  rw [unserializeAttr_end hitem.storable hkind hshort, ← hrebuilt]
  dsimp only
  rw [hsame, hcontainer, hrestored.getWeight_eq]
  rfl

/-- A container is read if what is in it is. -/
theorem loadCreated_container {item : StoredItem} {contents : List ItemTree}
    (hitem : Restorable kinds item contents) (hcontainer : item.isContainer = true) {load : Load}
    {count : ℕ} (hcount : count < 2 ^ 32) {c : ContainerState} {s rest : PropStream}
    (hcontents : loadContainer load true count {} s = some (c, rest))
    (hshort : Short (item.serializeAttr ++ (addUChar 23 ++ (addULong count ++ s)))) :
    loadCreated getNameByGuid load (construct item.kind 1)
        (item.serializeAttr ++ (addUChar 23 ++ (addULong count ++ s))) =
      some (some (.node (rebuilt getNameByGuid item) c.contents, item.getWeight + c.totalWeight),
        rest) := by
  have hclass : item.kind.createdClass = .container := by
    have hnot := hitem.storable.not_depot
    simpa [isContainer, hnot] using hcontainer
  have hkind : (construct item.kind 1).kind = item.kind := construct_kind item.kind 1
  have hrestored : item.Restored (rebuilt getNameByGuid item) := hitem.restored_rebuilt
  have hrebuilt : rebuilt getNameByGuid item =
      { item.restoredIn getNameByGuid (construct item.kind 1) with serializationCount := 0 } :=
    if_pos hcontainer
  have hsame : (item.restoredIn getNameByGuid (construct item.kind 1)).isContainer = true := by
    rw [← hcontainer, ← isContainer_congr hrestored.kind, hrebuilt]
    rfl
  have hweight : (item.restoredIn getNameByGuid (construct item.kind 1)).getWeight =
      item.getWeight := by
    rw [← hrestored.getWeight_eq, hrebuilt]
    rfl
  unfold loadCreated
  rw [unserializeAttr_items hitem.storable hkind hclass hcount hshort]
  dsimp only
  rw [hcontents, hrebuilt, ← hweight]
  exact if_pos hsame

theorem loadItemIn_saveItem {t : ItemTree} (ht : t.All (Restorable kinds)) {n : ℕ}
    (hn : n ≤ 2 ^ 31) {rest : PropStream} (hlt : (saveItem t ++ rest).length < n) :
    loadItemIn kinds getNameByGuid n (saveItem t ++ rest) =
      some (some (t.map (rebuilt getNameByGuid), ItemTree.weight t), rest) := by
  -- by induction on the tree: what is in an item is read by the same function with less fuel
  induction t using OrderedTree.induct generalizing n rest with
  | h item contents ih =>
    have hitem := ht.root
    have hshort : Short (saveItem (.node item contents) ++ rest) := lt_of_lt_of_le hlt hn
    have hweight : ItemTree.weight (.node item contents) =
        item.getWeight + (contents.map ItemTree.weight).sum := OrderedTree.fold_node _ _ _
    rw [saveItem_node, List.append_assoc] at hshort hlt ⊢
    obtain ⟨n, rfl⟩ : ∃ m, n = m + 1 := Nat.exists_eq_succ_of_ne_zero (by omega)
    rw [loadItemIn_kind hitem hshort, OrderedTree.map_node, hweight]
    by_cases hcontainer : item.isContainer = true
    · rw [if_pos hcontainer] at hshort hlt ⊢
      simp only [List.append_assoc] at hshort hlt ⊢
      have hcount : contents.length < 2 ^ 32 := by
        have hle := length_le_flatMap_saveItem contents.reverse
        have hbytes := hshort.right.right.right.right.left
        unfold Short at hbytes
        rw [List.length_reverse] at hle
        omega
      have hlt' : (contents.reverse.flatMap saveItem ++ (addUChar 0 ++ rest)).length < n := by
        simp only [List.length_append, addUShort, Bytes.leBytes_length] at hlt ⊢
        omega
      have hload : ∀ t ∈ contents.reverse, ∀ rest, (saveItem t ++ rest).length < n →
          loadItemIn kinds getNameByGuid n (saveItem t ++ rest) =
            some (some (t.map (rebuilt getNameByGuid), ItemTree.weight t), rest) := by
        intro t hmem rest hlt
        have hmem := List.mem_reverse.mp hmem
        exact ih t hmem (ht.under t hmem) (Nat.le_of_succ_le hn) hlt
      have hcontents := loadContainer_flatMap contents.reverse (Nat.le_of_succ_le hn) hload hlt'
      -- the contents were turned round twice
      rw [List.length_reverse, List.map_reverse, List.reverse_reverse, List.map_reverse,
        List.sum_reverse] at hcontents
      exact loadCreated_container hitem hcontainer hcount hcontents hshort.right
    · rw [Bool.not_eq_true] at hcontainer
      have hsum : (([] : List ItemTree).map ItemTree.weight).sum = 0 := rfl
      rw [hcontainer, hitem.empty hcontainer, hsum, Int.add_zero, List.map_nil]
      rw [hcontainer] at hshort
      simp only [Bool.false_eq_true, if_false, List.nil_append, List.append_assoc] at hshort ⊢
      exact loadCreated_item hitem hcontainer _ hshort.right

/-- A saved item comes back into a container: what was written is read, the item and what is in it are
as they were and as they lay, and the container gets as much heavier as they weigh. -/
theorem loadItem_saveItem {removed : Bool} {t : ItemTree} {c : ContainerState} {rest : PropStream}
    (ht : t.All (Restorable kinds)) (hlasting : t.All fun item _ => removed = false → Lasting item)
    (hshort : Short (saveItem t ++ rest)) :
    ∃ f : StoredItem → StoredItem, (t.All fun item _ => item.Restored (f item)) ∧
      loadItem kinds getNameByGuid removed c (saveItem t ++ rest) =
        some ({ contents := t.map f :: c.contents
                totalWeight := c.totalWeight + ItemTree.weight t }, rest) := by
  have hload := @loadItemIn_saveItem kinds getNameByGuid t ht ((saveItem t ++ rest).length + 1)
    hshort rest (Nat.lt_succ_self _)
  refine ⟨started getNameByGuid removed, restored_started ht hlasting, ?_⟩
  rw [loadItem, hload, Option.bind_eq_bind, Option.bind_some]
  dsimp only
  rw [ContainerState.add, startDecaying_rebuilt ht hlasting]
  rfl

end Load

def bagKinds : KindId → Option StoredKind
  | 1987 => some { id := 1987, group := .container, weight := 800 }
  | 2148 => some { id := 2148, stackable := true, weight := 10 }
  | 2207 => some { id := 2207 }
  | 2210 => some { id := 2210 }
  | _ => none

/-- A bag with a stack of coins in it. -/
def coinBag : ItemTree :=
  .node { kind := { id := 1987, group := .container, weight := 800 } }
    [.node { kind := { id := 2148, stackable := true, weight := 10 }, count := 100 } []]

theorem loadItem_saveItem_coinBag :
    ∃ f : StoredItem → StoredItem, (coinBag.All fun item _ => item.Restored (f item)) ∧
      loadItem bagKinds (fun _ => none) false {} (saveItem coinBag ++ []) =
        some ({ contents := [coinBag.map f], totalWeight := 0 + 1800 }, []) := by
  have hitems : coinBag.All (Restorable bagKinds) := by
    refine .node ?_ fun t ht => ?_
    · constructor
      · constructor <;> simp [StoredKind.createdClass, StoredKind.isContainer]
      all_goals decide
    · rw [List.mem_singleton.mp ht]
      refine .node ?_ fun t ht => absurd ht List.not_mem_nil
      constructor
      · constructor <;> simp [StoredKind.createdClass, StoredKind.isContainer]
      all_goals decide
  have hlasting : coinBag.All fun item _ => false = false → Lasting item := by
    refine .node ?_ fun t ht => ?_
    · intro _ hcontainer
      exact absurd hcontainer (by decide)
    · rw [List.mem_singleton.mp ht]
      refine .node ?_ fun t ht => absurd ht List.not_mem_nil
      intro _ _ hdecayTo
      exact absurd hdecayTo (by decide)
  have hshort : (saveItem coinBag ++ []).length < 2 ^ 31 := by decide
  exact loadItem_saveItem hitems hlasting hshort

/-- The kind of a ring that has been put on is not created again. -/
theorem worn_ring_replaced : bagKinds 2210 = some { id := 2210 } ∧
    ∃ c, loadItem bagKinds (fun _ => none) true {} (saveItem (.node { kind := { id := 2210 } } [])) =
        some (c, []) ∧
      c.contents.map (fun t => t.label.kind.id) = [2207] :=
  ⟨rfl, _, rfl, rfl⟩

end TyanoCore
