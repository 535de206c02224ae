import TyanoCore.IdMap
import TyanoCore.TileSearch

/-!
# The creatures of the world

The world keeps its creatures in a list and in a map by identifier, and again in a list and an
`IdMap` for each kind of creature.  Creatures enter and leave, get a new identifier each time they
enter, and all of these have to describe the same set.
-/

namespace TyanoCore

open Transition

/-- A pointer to a creature. -/
abbrev CreatureP := ℕ

inductive CreatureKind where
  | monster
  | player
  | npc
deriving DecidableEq

/-- The `MINIMUM_…_ID` of a kind. -/
def CreatureKind.minimumId : CreatureKind → ℕ
  | .monster => 0x40000000
  | .player => 0x10000000
  | .npc => 0x80000000

/-- The `MAXIMUM_…_ID` of a kind. -/
def CreatureKind.maximumId : CreatureKind → ℕ
  | .monster => 0x4FFFFFFF
  | .player => 0x1FFFFFFF
  | .npc => 0x8FFFFFFF

theorem CreatureKind.range (k : CreatureKind) : k.maximumId = k.minimumId + (2 ^ 28 - 1) := by
  cases k <;> rfl

/-- The ranges of two kinds have no identifier in common. -/
theorem CreatureKind.eq_of_mem_range {k l : CreatureKind} {id : ℕ} (hk : k.minimumId ≤ id)
    (hk' : id ≤ k.maximumId) (hl : l.minimumId ≤ id) (hl' : id ≤ l.maximumId) : k = l := by
  cases k <;> cases l <;> simp only [minimumId, maximumId] at * <;> first | rfl | omega

/-- The list and the `IdMap` of a kind, such as `_monsters` and `_monstersById`. -/
structure KindRegistry where
  list : List CreatureP
  byId : IdMap (Option CreatureP)

/-- The registers of the world, and of each creature whether it is in the world and its `_id`. -/
structure CreatureWorld where
  creatures : List CreatureP
  creaturesById : AList fun _ : ℕ => CreatureP
  registry : CreatureKind → KindRegistry
  inWorld : CreatureP → Bool
  id : CreatureP → ℕ

namespace CreatureWorld

/-- The world before any creature has entered. -/
def empty : CreatureWorld where
  creatures := []
  creaturesById := ∅
  registry k := ⟨[], .new _ k.minimumId k.maximumId (by rw [k.range]; exact Nat.le_add_right _ _)⟩
  inWorld _ := false
  id _ := 0

def getCreatureById (w : CreatureWorld) (id : ℕ) : Option CreatureP := w.creaturesById.lookup id

/-- `getMonsterById`, `getPlayerById` and `getNpcById`. -/
def getKindById (w : CreatureWorld) (k : CreatureKind) (id : ℕ) : Option CreatureP :=
  (w.registry k).byId.get id

/-- Whether assertions are compiled in, and of which kind creatures are, if of any. -/
structure Setting where
  assertions : Bool
  kind : CreatureP → Option CreatureKind

variable (env : Setting)

/-- `Creature::setId` with its assertion. -/
def setId (w : CreatureWorld) (c : CreatureP) (id : ℕ) : Option CreatureWorld :=
  if env.assertions ∧ (decide (id ≠ 0)) = (decide (w.id c ≠ 0)) then none
  else some { w with id := Function.update w.id c id }

/-- `World::addCreature`; `found` is how the search for a tile ends and `placed` whether the tile
takes the creature.  `none` when an assertion fails. -/
def addCreature (w : CreatureWorld) (c : CreatureP) (found : PlacementReturn) (placed : Bool) :
    Option (CreatureWorld × PlacementReturn) :=
  if w.inWorld c then some (w, .notPossible)
  else if found ≠ .noError then some (w, found)
  else
    match env.kind c with
    | none => some (w, .notPossible)
    | some k => do
      let (id, byId) ← (w.registry k).byId.insert (some c)
      let w := { w with
        registry := Function.update w.registry k ⟨(w.registry k).list ++ [c], byId⟩
        creaturesById := w.creaturesById.insert id c
        creatures := w.creatures ++ [c] }
      let w ← setId env w c id
      let w := { w with inWorld := Function.update w.inWorld c true }
      if env.assertions ∧ ¬ placed then none else some (w, .noError)

/-- What `removeCreature` does to the registers once the creature may leave. -/
def unregister (w : CreatureWorld) (c : CreatureP) (k : CreatureKind) : CreatureWorld where
  creatures := w.creatures.erase c
  creaturesById := w.creaturesById.erase (w.id c)
  registry := Function.update w.registry k
    ⟨(w.registry k).list.erase c, (w.registry k).byId.erase (w.id c)⟩
  inWorld := Function.update w.inWorld c false
  id := w.id

/-- `World::removeCreature`; `tile` is what the creature's tile, if it has one, says to the removal
and `removed` whether it lets go of the creature then. -/
def removeCreature (w : CreatureWorld) (c : CreatureP) (tile : Option PlacementReturn)
    (removed : Bool) : Option (CreatureWorld × PlacementReturn) :=
  if ¬ w.inWorld c then some (w, .notPossible)
  else if tile.getD .noError ≠ .noError then some (w, tile.getD .noError)
  else if env.assertions ∧ tile.isSome ∧ ¬ removed then none
  else
    match env.kind c with
    | none => some (w, .notPossible)
    | some k => some (w.unregister c k, .noError)

end CreatureWorld

/-- A call of the world, with what the map says to it. -/
inductive WorldAction where
  | add (c : CreatureP) (found : PlacementReturn) (placed : Bool)
  | remove (c : CreatureP) (tile : Option PlacementReturn) (removed : Bool)

namespace CreatureWorld

variable (env : Setting)

def call (w : CreatureWorld) : WorldAction → Option (CreatureWorld × PlacementReturn)
  | .add c found placed => w.addCreature env c found placed
  | .remove c tile removed => w.removeCreature env c tile removed

def step (w : CreatureWorld) (a : WorldAction) : Option CreatureWorld :=
  (w.call env a).map Prod.fst

/-- Whether a call adds a creature of a kind. -/
def adds (k : CreatureKind) (a : WorldAction) (result : PlacementReturn) : Bool :=
  match a with
  | .add c _ _ => env.kind c = some k && result = .noError
  | .remove _ _ _ => false

/-- The number of creatures of a kind that are added in a run. -/
def additions (k : CreatureKind) : CreatureWorld → List WorldAction → ℕ
  | _, [] => 0
  | w, a :: as =>
    match w.call env a with
    | none => 0
    | some (w', result) => (if adds env k a result then 1 else 0) + additions k w' as

/-! ## One set in all registers -/

/-- The registers describe the same set of creatures under the same identifiers. -/
structure DescribesOneSet (w : CreatureWorld) : Prop where
  count_creatures : ∀ c, w.creatures.count c = if w.inWorld c then 1 else 0
  count_list : ∀ k c, (w.registry k).list.count c =
    if w.inWorld c ∧ env.kind c = some k then 1 else 0
  kind_isSome : ∀ c, w.inWorld c = true → (env.kind c).isSome
  getCreatureById_iff : ∀ i c, w.getCreatureById i = some c ↔ w.inWorld c = true ∧ i = w.id c
  getKindById_iff : ∀ k i c, w.getKindById k i = some c ↔
    w.inWorld c = true ∧ env.kind c = some k ∧ i = w.id c
  id_injective : ∀ c d, w.inWorld c = true → w.inWorld d = true → w.id c = w.id d → c = d

/-- The registers agree, and the identifiers of a kind are those that its `IdMap` has given out. -/
structure Consistent (w : CreatureWorld) : Prop where
  creatures_nodup : w.creatures.Nodup
  mem_creatures : ∀ c, c ∈ w.creatures ↔ w.inWorld c = true
  list_nodup : ∀ k, (w.registry k).list.Nodup
  mem_list : ∀ k c, c ∈ (w.registry k).list ↔ w.inWorld c = true ∧ env.kind c = some k
  kind_isSome : ∀ c, w.inWorld c = true → (env.kind c).isSome
  lookup_iff : ∀ i c, w.creaturesById.lookup i = some c ↔ w.inWorld c = true ∧ i = w.id c
  lookup_kind_iff : ∀ k i v, (w.registry k).byId.map.lookup i = some v ↔
    ∃ c, v = some c ∧ w.inWorld c = true ∧ env.kind c = some k ∧ i = w.id c
  minimumId_eq : ∀ k, (w.registry k).byId.minimumId = k.minimumId
  maximumId_eq : ∀ k, (w.registry k).byId.maximumId = k.maximumId
  id_mem : ∀ k c, w.inWorld c = true → env.kind c = some k →
    k.minimumId ≤ w.id c ∧ w.id c < (w.registry k).byId.nextId

variable {env} {w w' : CreatureWorld} {c : CreatureP} {k : CreatureKind}

theorem consistent_empty : Consistent env empty where
  creatures_nodup := List.nodup_nil
  mem_creatures c := by simp [empty]
  list_nodup k := List.nodup_nil
  mem_list k c := by simp [empty]
  kind_isSome c h := absurd h Bool.false_ne_true
  lookup_iff i c := by simp [empty]
  lookup_kind_iff k i v := by simp [empty, IdMap.new]
  minimumId_eq k := rfl
  maximumId_eq k := rfl
  id_mem k c h := absurd h Bool.false_ne_true

/-- Registers that agree describe one set. -/
theorem Consistent.describesOneSet (h : Consistent env w) : DescribesOneSet env w where
  count_creatures c := by
    split
    · next hin => exact List.count_eq_one_of_mem h.creatures_nodup ((h.mem_creatures c).mpr hin)
    · next hin => exact List.count_eq_zero.mpr fun hc => hin ((h.mem_creatures c).mp hc)
  count_list k c := by
    split
    · next hin => exact List.count_eq_one_of_mem (h.list_nodup k) ((h.mem_list k c).mpr hin)
    · next hin => exact List.count_eq_zero.mpr fun hc => hin ((h.mem_list k c).mp hc)
  kind_isSome := h.kind_isSome
  getCreatureById_iff := h.lookup_iff
  getKindById_iff k i c := by
    have hget : w.getKindById k i = some c ↔
        (w.registry k).byId.map.lookup i = some (some c) := by
      unfold getKindById IdMap.get
      cases (w.registry k).byId.map.lookup i <;> simp
    rw [hget, h.lookup_kind_iff]
    simp only [Option.some.injEq, exists_eq_left']
  id_injective c d hc hd hid := by
    have hlookup := (h.lookup_iff (w.id c) c).mpr ⟨hc, rfl⟩
    rw [(h.lookup_iff (w.id c) d).mpr ⟨hd, hid⟩] at hlookup
    exact (Option.some.inj hlookup).symm

/-! ## What a call does -/

/-- The world with a creature registered under an identifier. -/
def register (w : CreatureWorld) (c : CreatureP) (k : CreatureKind) (id : ℕ)
    (byId : IdMap (Option CreatureP)) : CreatureWorld where
  creatures := w.creatures ++ [c]
  creaturesById := w.creaturesById.insert id c
  registry := Function.update w.registry k ⟨(w.registry k).list ++ [c], byId⟩
  inWorld := Function.update w.inWorld c true
  id := Function.update w.id c id

theorem addCreature_cases {found : PlacementReturn} {placed : Bool} {result : PlacementReturn}
    (h : w.addCreature env c found placed = some (w', result)) :
    (w' = w ∧ result ≠ .noError) ∨
    (result = .noError ∧ w.inWorld c = false ∧ ∃ k id byId, env.kind c = some k ∧
      (w.registry k).byId.insert (some c) = some (id, byId) ∧ w' = w.register c k id byId) := by
  unfold addCreature at h
  split at h
  · obtain ⟨rfl, rfl⟩ := Prod.mk.inj (Option.some.inj h)
    exact .inl ⟨rfl, by decide⟩
  · next hin =>
    split at h
    · next hfound =>
      obtain ⟨rfl, rfl⟩ := Prod.mk.inj (Option.some.inj h)
      exact .inl ⟨rfl, hfound⟩
    · split at h
      · obtain ⟨rfl, rfl⟩ := Prod.mk.inj (Option.some.inj h)
        exact .inl ⟨rfl, by decide⟩
      · next k hkind =>
        obtain ⟨⟨id, byId⟩, hinsert, h⟩ := Option.bind_eq_some_iff.mp h
        obtain ⟨w₁, hset, h⟩ := Option.bind_eq_some_iff.mp h
        unfold setId at hset
        split at hset
        · exact absurd hset.symm (Option.some_ne_none _)
        · obtain rfl := Option.some.inj hset
          split at h
          · exact absurd h.symm (Option.some_ne_none _)
          · obtain ⟨rfl, rfl⟩ := Prod.mk.inj (Option.some.inj h)
            exact .inr ⟨rfl, Bool.eq_false_of_not_eq_true hin, k, id, byId, hkind, hinsert, rfl⟩

theorem removeCreature_cases {tile : Option PlacementReturn} {removed : Bool}
    {result : PlacementReturn} (h : w.removeCreature env c tile removed = some (w', result)) :
    (w' = w ∧ result ≠ .noError) ∨
    (result = .noError ∧ w.inWorld c = true ∧ ∃ k, env.kind c = some k ∧
      w' = w.unregister c k) := by
  unfold removeCreature at h
  split at h
  · obtain ⟨rfl, rfl⟩ := Prod.mk.inj (Option.some.inj h)
    exact .inl ⟨rfl, by decide⟩
  · next hin =>
    split at h
    · next htile =>
      obtain ⟨rfl, rfl⟩ := Prod.mk.inj (Option.some.inj h)
      exact .inl ⟨rfl, htile⟩
    · split at h
      · exact absurd h.symm (Option.some_ne_none _)
      · split at h
        · obtain ⟨rfl, rfl⟩ := Prod.mk.inj (Option.some.inj h)
          exact .inl ⟨rfl, by decide⟩
        · next k hkind =>
          obtain ⟨rfl, rfl⟩ := Prod.mk.inj (Option.some.inj h)
          exact .inr ⟨rfl, not_not.mp hin, k, hkind, rfl⟩

/-- A call that returns an error has changed nothing. -/
theorem call_error {a : WorldAction} {result : PlacementReturn}
    (h : w.call env a = some (w', result)) (herror : result ≠ .noError) : w' = w := by
  cases a with
  | add c found placed =>
    rcases addCreature_cases h with hsame | hadded
    · exact hsame.1
    · exact absurd hadded.1 herror
  | remove c tile removed =>
    rcases removeCreature_cases h with hsame | hremoved
    · exact hsame.1
    · exact absurd hremoved.1 herror

/-! ## Entering -/

/-- While a kind has not used up its range, its next identifier has never been given out. -/
theorem Consistent.nextId_not_mem (h : Consistent env w) (k : CreatureKind) :
    (w.registry k).byId.nextId ∉ (w.registry k).byId.map := by
  intro hmem
  obtain ⟨v, hv⟩ := Option.isSome_iff_exists.mp (AList.lookup_isSome.mpr hmem)
  obtain ⟨d, -, hin, hkind, hid⟩ := (h.lookup_kind_iff k _ v).mp hv
  have hlt := (h.id_mem k d hin hkind).2
  omega

/-- No creature of the world has the identifier that a kind gives out next. -/
theorem Consistent.id_ne_nextId (h : Consistent env w) (k : CreatureKind) (d : CreatureP)
    (hd : w.inWorld d = true) : w.id d ≠ (w.registry k).byId.nextId := by
  intro hid
  obtain ⟨l, hl⟩ := Option.isSome_iff_exists.mp (h.kind_isSome d hd)
  obtain ⟨hmin, hlt⟩ := h.id_mem l d hd hl
  have hmin' := (w.registry k).byId.minimum_le_next
  have hmax := (w.registry k).byId.next_le_maximum
  have hmax' := (w.registry l).byId.next_le_maximum
  rw [h.minimumId_eq] at hmin'
  rw [h.maximumId_eq] at hmax hmax'
  -- the ranges of the kinds are disjoint, so it is the same kind
  obtain rfl : l = k := CreatureKind.eq_of_mem_range hmin (by omega) (by omega) (by omega)
  omega

theorem Consistent.not_in_world (h : Consistent env w) (hc : w.inWorld c = false) :
    c ∉ w.creatures ∧ ∀ k, c ∉ (w.registry k).list := by
  constructor
  · intro hmem
    rw [(h.mem_creatures c).mp hmem] at hc
    exact Bool.noConfusion hc
  · intro k hmem
    rw [((h.mem_list k c).mp hmem).1] at hc
    exact Bool.noConfusion hc

/-- What the `IdMap` of a kind does when one more creature of the kind enters. -/
theorem Consistent.insert_eq (h : Consistent env w) {id : ℕ} {byId : IdMap (Option CreatureP)}
    (hroom : (w.registry k).byId.nextId < k.maximumId)
    (hinsert : (w.registry k).byId.insert (some c) = some (id, byId)) :
    id = (w.registry k).byId.nextId ∧ byId.nextId = id + 1 ∧
      byId.minimumId = k.minimumId ∧ byId.maximumId = k.maximumId ∧
      byId.map = (w.registry k).byId.map.insert id (some c) := by
  rw [IdMap.insert_of_free _ (h.nextId_not_mem k)] at hinsert
  obtain ⟨rfl, rfl⟩ := Prod.mk.inj (Option.some.inj hinsert)
  refine ⟨rfl, ?_, h.minimumId_eq k, h.maximumId_eq k, rfl⟩
  rw [← h.maximumId_eq k] at hroom
  exact if_neg (Nat.not_le.mpr hroom)

section Register

variable {id : ℕ} {byId : IdMap (Option CreatureP)}

theorem registry_register_self : (w.register c k id byId).registry k =
    ⟨(w.registry k).list ++ [c], byId⟩ := Function.update_self _ _ _

theorem registry_register_of_ne {l : CreatureKind} (hl : l ≠ k) :
    (w.register c k id byId).registry l = w.registry l := Function.update_of_ne hl _ _

theorem inWorld_register (d : CreatureP) :
    (w.register c k id byId).inWorld d = true ↔ d = c ∨ w.inWorld d = true := by
  by_cases hd : d = c
  · subst hd
    simp [register]
  · simp [register, hd]

theorem id_register_self : (w.register c k id byId).id c = id := Function.update_self _ _ _

theorem id_register_of_ne {d : CreatureP} (hd : d ≠ c) :
    (w.register c k id byId).id d = w.id d := Function.update_of_ne hd _ _

/-- A creature enters: it comes to the registers of its kind and no other entry changes. -/
theorem Consistent.register (h : Consistent env w) (hc : w.inWorld c = false)
    (hkind : env.kind c = some k) (hroom : (w.registry k).byId.nextId < k.maximumId)
    (hinsert : (w.registry k).byId.insert (some c) = some (id, byId)) :
    Consistent env (w.register c k id byId) := by
  obtain ⟨hid, hnext, hmin, hmax, hmap⟩ := h.insert_eq hroom hinsert
  obtain ⟨hnot, hnotList⟩ := h.not_in_world hc
  -- a creature that is in the world is another one, and keeps its identifier
  have hne (d : CreatureP) (hd : w.inWorld d = true) : d ≠ c := by
    rintro rfl
    rw [hd] at hc
    exact Bool.noConfusion hc
  constructor
  case creatures_nodup =>
    exact h.creatures_nodup.append (List.nodup_singleton c) (by simpa using hnot)
  case mem_creatures =>
    intro d
    rw [inWorld_register, ← h.mem_creatures]
    simp [CreatureWorld.register, or_comm]
  case list_nodup =>
    apply (Function.forall_update_iff w.registry fun _ r => r.list.Nodup).mpr
    refine ⟨?_, fun l _ => h.list_nodup l⟩
    exact (h.list_nodup k).append (List.nodup_singleton c) (by simpa using hnotList k)
  case mem_list =>
    intro l d
    rw [inWorld_register]
    by_cases hl : l = k
    · subst hl
      rw [registry_register_self, List.mem_append, h.mem_list, List.mem_singleton]
      constructor
      · rintro (⟨hin, hd⟩ | rfl)
        · exact ⟨.inr hin, hd⟩
        · exact ⟨.inl rfl, hkind⟩
      · rintro ⟨rfl | hin, hd⟩
        · exact .inr rfl
        · exact .inl ⟨hin, hd⟩
    · rw [registry_register_of_ne hl, h.mem_list]
      constructor
      · exact fun hd => ⟨.inr hd.1, hd.2⟩
      · rintro ⟨rfl | hin, hd⟩
        · exact absurd (Option.some.inj (hd.symm.trans hkind)) hl
        · exact ⟨hin, hd⟩
  case kind_isSome =>
    intro d hd
    rcases (inWorld_register d).mp hd with rfl | hd
    · rw [hkind]
      rfl
    · exact h.kind_isSome d hd
  case lookup_iff =>
    intro i d
    change (w.creaturesById.insert id c).lookup i = some d ↔ _
    rw [inWorld_register]
    by_cases hi : i = id
    · subst hi
      rw [AList.lookup_insert, Option.some.injEq]
      constructor
      · rintro rfl
        exact ⟨.inl rfl, id_register_self.symm⟩
      · rintro ⟨rfl | hin, heq⟩
        · rfl
        · -- no other creature has the new identifier
          rw [id_register_of_ne (hne d hin)] at heq
          exact absurd (heq.symm.trans hid) (h.id_ne_nextId k d hin)
    · -- the other identifiers are those of the creatures that were there
      rw [AList.lookup_insert_ne hi, h.lookup_iff]
      constructor
      · rintro ⟨hin, heq⟩
        exact ⟨.inr hin, by rw [id_register_of_ne (hne d hin)]; exact heq⟩
      · rintro ⟨rfl | hin, heq⟩
        · exact absurd (heq.trans id_register_self) hi
        · rw [id_register_of_ne (hne d hin)] at heq
          exact ⟨hin, heq⟩
  case lookup_kind_iff =>
    intro l i v
    -- under an identifier that the new creature does not bear everything is as before
    have hothers (i : ℕ) (v : Option CreatureP)
        (hself : ¬ (env.kind c = some l ∧ i = (w.register c k id byId).id c)) :
        (∃ d, v = some d ∧ w.inWorld d = true ∧ env.kind d = some l ∧ i = w.id d) ↔
          ∃ d, v = some d ∧ (w.register c k id byId).inWorld d = true ∧ env.kind d = some l ∧
            i = (w.register c k id byId).id d := by
      constructor
      · rintro ⟨d, rfl, hin, hkd, heq⟩
        refine ⟨d, rfl, (inWorld_register d).mpr (.inr hin), hkd, ?_⟩
        rw [id_register_of_ne (hne d hin)]
        exact heq
      · rintro ⟨d, rfl, hd, hkd, heq⟩
        rcases (inWorld_register d).mp hd with rfl | hin
        · exact absurd ⟨hkd, heq⟩ hself
        · rw [id_register_of_ne (hne d hin)] at heq
          exact ⟨d, rfl, hin, hkd, heq⟩
    by_cases hl : l = k
    · subst hl
      rw [registry_register_self, hmap]
      by_cases hi : i = id
      · subst hi
        rw [AList.lookup_insert]
        constructor
        · intro hv
          exact ⟨c, (Option.some.inj hv).symm, (inWorld_register c).mpr (.inl rfl), hkind,
            id_register_self.symm⟩
        · rintro ⟨d, rfl, hd, -, heq⟩
          rcases (inWorld_register d).mp hd with rfl | hin
          · rfl
          · rw [id_register_of_ne (hne d hin)] at heq
            exact absurd (heq.symm.trans hid) (h.id_ne_nextId l d hin)
      · rw [AList.lookup_insert_ne hi, h.lookup_kind_iff]
        exact hothers i v fun hself => hi (hself.2.trans id_register_self)
    · rw [registry_register_of_ne hl, h.lookup_kind_iff]
      exact hothers i v fun hself => hl (Option.some.inj (hself.1.symm.trans hkind))
  case minimumId_eq =>
    apply (Function.forall_update_iff w.registry fun l r => r.byId.minimumId = l.minimumId).mpr
    exact ⟨hmin, fun l _ => h.minimumId_eq l⟩
  case maximumId_eq =>
    apply (Function.forall_update_iff w.registry fun l r => r.byId.maximumId = l.maximumId).mpr
    exact ⟨hmax, fun l _ => h.maximumId_eq l⟩
  case id_mem =>
    intro l d hd hkd
    rcases (inWorld_register d).mp hd with rfl | hin
    · -- the identifier given out lies just below the next one
      obtain rfl : l = k := Option.some.inj (hkd.symm.trans hkind)
      have hge := (w.registry l).byId.minimum_le_next
      rw [h.minimumId_eq, ← hid] at hge
      rw [id_register_self, registry_register_self]
      exact ⟨hge, by simp only; omega⟩
    · obtain ⟨hge, hlt⟩ := h.id_mem l d hin hkd
      rw [id_register_of_ne (hne d hin)]
      by_cases hl : l = k
      · subst hl
        rw [registry_register_self]
        exact ⟨hge, by simp only; omega⟩
      · rw [registry_register_of_ne hl]
        exact ⟨hge, hlt⟩

end Register

/-! ## Leaving -/

theorem registry_unregister_self : (w.unregister c k).registry k =
    ⟨(w.registry k).list.erase c, (w.registry k).byId.erase (w.id c)⟩ := Function.update_self _ _ _

theorem registry_unregister_of_ne {l : CreatureKind} (hl : l ≠ k) :
    (w.unregister c k).registry l = w.registry l := Function.update_of_ne hl _ _

theorem inWorld_unregister (d : CreatureP) :
    (w.unregister c k).inWorld d = true ↔ d ≠ c ∧ w.inWorld d = true := by
  by_cases hd : d = c
  · subst hd
    simp [unregister]
  · simp [unregister, hd]

/-- A creature leaves: its entries go and no other entry changes. -/
theorem Consistent.unregister (h : Consistent env w) (hc : w.inWorld c = true)
    (hkind : env.kind c = some k) : Consistent env (w.unregister c k) := by
  have hinjective (d : CreatureP) (hd : w.inWorld d = true) (hid : w.id d = w.id c) : d = c :=
    h.describesOneSet.id_injective d c hd hc hid
  constructor
  case creatures_nodup => exact h.creatures_nodup.erase c
  case mem_creatures =>
    intro d
    rw [inWorld_unregister, ← h.mem_creatures]
    exact h.creatures_nodup.mem_erase_iff
  case list_nodup =>
    apply (Function.forall_update_iff w.registry fun _ r => r.list.Nodup).mpr
    exact ⟨(h.list_nodup k).erase c, fun l _ => h.list_nodup l⟩
  case mem_list =>
    intro l d
    rw [inWorld_unregister, and_assoc, ← h.mem_list]
    by_cases hl : l = k
    · subst hl
      rw [registry_unregister_self]
      exact (h.list_nodup l).mem_erase_iff
    · rw [registry_unregister_of_ne hl]
      constructor
      · -- the creature that leaves is of another kind
        refine fun hd => ⟨?_, hd⟩
        rintro rfl
        exact hl (Option.some.inj (((h.mem_list l d).mp hd).2.symm.trans hkind))
      · exact fun hd => hd.2
  case kind_isSome => exact fun d hd => h.kind_isSome d ((inWorld_unregister d).mp hd).2
  case lookup_iff =>
    intro i d
    change (w.creaturesById.erase (w.id c)).lookup i = some d ↔ _ ∧ i = w.id d
    rw [inWorld_unregister]
    by_cases hi : i = w.id c
    · subst hi
      rw [AList.lookup_erase]
      constructor
      · exact fun hnone => absurd hnone.symm (Option.some_ne_none _)
      · -- identifiers are different, so no other creature has had it
        rintro ⟨⟨hd, hin⟩, heq⟩
        exact absurd (hinjective d hin heq.symm) hd
    · rw [AList.lookup_erase_ne hi, h.lookup_iff]
      constructor
      · rintro ⟨hin, heq⟩
        refine ⟨⟨?_, hin⟩, heq⟩
        rintro rfl
        exact hi heq
      · exact fun hd => ⟨hd.1.2, hd.2⟩
  case lookup_kind_iff =>
    intro l i v
    change _ ↔ ∃ d, v = some d ∧ _ ∧ _ ∧ i = w.id d
    simp only [inWorld_unregister]
    by_cases hl : l = k
    · subst hl
      rw [registry_unregister_self]
      change ((w.registry l).byId.map.erase (w.id c)).lookup i = some v ↔ _
      by_cases hi : i = w.id c
      · subst hi
        rw [AList.lookup_erase]
        constructor
        · exact fun hnone => absurd hnone.symm (Option.some_ne_none _)
        · rintro ⟨d, -, ⟨hd, hin⟩, -, heq⟩
          exact absurd (hinjective d hin heq.symm) hd
      · rw [AList.lookup_erase_ne hi, h.lookup_kind_iff]
        constructor
        · rintro ⟨d, rfl, hin, hkd, heq⟩
          refine ⟨d, rfl, ⟨?_, hin⟩, hkd, heq⟩
          rintro rfl
          exact hi heq
        · rintro ⟨d, rfl, ⟨-, hin⟩, hkd, heq⟩
          exact ⟨d, rfl, hin, hkd, heq⟩
    · rw [registry_unregister_of_ne hl, h.lookup_kind_iff]
      constructor
      · rintro ⟨d, rfl, hin, hkd, heq⟩
        refine ⟨d, rfl, ⟨?_, hin⟩, hkd, heq⟩
        rintro rfl
        exact hl (Option.some.inj (hkd.symm.trans hkind))
      · rintro ⟨d, rfl, ⟨-, hin⟩, hkd, heq⟩
        exact ⟨d, rfl, hin, hkd, heq⟩
  case minimumId_eq =>
    apply (Function.forall_update_iff w.registry fun l r => r.byId.minimumId = l.minimumId).mpr
    exact ⟨h.minimumId_eq k, fun l _ => h.minimumId_eq l⟩
  case maximumId_eq =>
    apply (Function.forall_update_iff w.registry fun l r => r.byId.maximumId = l.maximumId).mpr
    exact ⟨h.maximumId_eq k, fun l _ => h.maximumId_eq l⟩
  case id_mem =>
    intro l d hd hkd
    have hin := ((inWorld_unregister d).mp hd).2
    by_cases hl : l = k
    · subst hl
      rw [registry_unregister_self]
      exact h.id_mem l d hin hkd
    · rw [registry_unregister_of_ne hl]
      exact h.id_mem l d hin hkd

/-! ## Runs -/

theorem Consistent.call (h : Consistent env w) {a : WorldAction} {result : PlacementReturn}
    (hroom : ∀ k, (w.registry k).byId.nextId + (if adds env k a result then 1 else 0) ≤
      k.maximumId)
    (hcall : w.call env a = some (w', result)) :
    Consistent env w' ∧ ∀ k, (w'.registry k).byId.nextId ≤
      (w.registry k).byId.nextId + (if adds env k a result then 1 else 0) := by
  cases a with
  | add c found placed =>
    rcases addCreature_cases hcall with ⟨rfl, -⟩ | ⟨rfl, hc, k, id, byId, hkind, hinsert, rfl⟩
    · exact ⟨h, fun k => Nat.le_add_right _ _⟩
    · have hadds : adds env k (.add c found placed) .noError = true := by simp [adds, hkind]
      have hnext := hroom k
      rw [if_pos hadds] at hnext
      refine ⟨h.register hc hkind hnext hinsert, fun l => ?_⟩
      by_cases hl : l = k
      · subst hl
        obtain ⟨hid, hafter, -⟩ := h.insert_eq hnext hinsert
        rw [registry_register_self, if_pos hadds, ← hid]
        exact hafter.le
      · rw [registry_register_of_ne hl]
        exact Nat.le_add_right _ _
  | remove c tile removed =>
    rcases removeCreature_cases hcall with ⟨rfl, -⟩ | ⟨rfl, hc, k, hkind, rfl⟩
    · exact ⟨h, fun k => Nat.le_add_right _ _⟩
    · refine ⟨h.unregister hc hkind, fun l => ?_⟩
      by_cases hl : l = k
      · subst hl
        rw [registry_unregister_self]
        exact Nat.le_add_right _ _
      · rw [registry_unregister_of_ne hl]
        exact Nat.le_add_right _ _

theorem Consistent.run (h : Consistent env w) (actions : List WorldAction)
    (hroom : ∀ k, (w.registry k).byId.nextId + additions env k w actions ≤ k.maximumId)
    (hrun : runActions (step env) w actions = some w') : Consistent env w' := by
  induction actions generalizing w with
  | nil =>
    obtain rfl := Option.some.inj hrun
    exact h
  | cons a actions ih =>
    obtain ⟨w₁, hstep, hrun⟩ := Option.bind_eq_some_iff.mp hrun
    obtain ⟨⟨w₂, result⟩, hcall, rfl⟩ := Option.map_eq_some_iff.mp hstep
    -- the room that the first call uses up is what the rest of the run has less
    have hadditions (k : CreatureKind) : additions env k w (a :: actions) =
        (if adds env k a result then 1 else 0) + additions env k w₂ actions := by
      rw [additions]
      simp only [hcall]
    obtain ⟨hconsistent, hnext⟩ := h.call (fun k => by
      have := hroom k
      rw [hadditions] at this
      omega) hcall
    apply ih hconsistent _ hrun
    intro k
    have hk := hroom k
    have hk' := hnext k
    rw [hadditions] at hk
    omega

/-- In every run with fewer than `2 ^ 28` additions of each kind the registers describe one set, and
a call that returns an error changes nothing. -/
theorem registers_describe_one_set (env : Setting) (actions : List WorldAction) {w : CreatureWorld}
    (hfew : ∀ k, additions env k empty actions < 2 ^ 28)
    (hrun : runActions (step env) empty actions = some w) :
    DescribesOneSet env w ∧
    ∀ a w' result, w.call env a = some (w', result) → result ≠ .noError → w' = w := by
  constructor
  · apply Consistent.describesOneSet
    apply consistent_empty.run actions _ hrun
    intro k
    have hk := hfew k
    rw [k.range]
    change k.minimumId + _ ≤ _
    omega
  · exact fun a w' result hcall herror => call_error hcall herror

/-- A player enters, a monster enters, the player leaves and enters again under a new identifier. -/
theorem registers_describe_one_set_reentry :
    ∃ w, runActions
        (step ⟨false, fun c => if c = 1 then some .player else some .monster⟩) empty
        [.add 1 .noError true, .add 2 .noError true, .remove 1 (some .noError) true,
          .add 1 .noError true] = some w ∧
      DescribesOneSet ⟨false, fun c => if c = 1 then some .player else some .monster⟩ w :=
  ⟨_, rfl, (registers_describe_one_set
    ⟨false, fun c => if c = 1 then some .player else some .monster⟩
    [.add 1 .noError true, .add 2 .noError true, .remove 1 (some .noError) true,
      .add 1 .noError true]
    (fun k => by cases k <;> decide) rfl).1⟩

end CreatureWorld

end TyanoCore
