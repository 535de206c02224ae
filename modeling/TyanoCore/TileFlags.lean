import TyanoCore.TileStack

/-!
# The flags of a tile

A flag stands for something that one of the things on the tile has.  When a thing goes, only the
flags for its properties are kept up if another thing has the property too.
-/

namespace TyanoCore

open Transition

variable {kinds : KindId → Option TileKind} {s s' : TileState}

/-- What an item shows, if there is one. -/
def shown (item : Option TileItem) (f : TileFlag) : Bool := item.any fun item => item.shows f

namespace TileState

/-! ## Flags and things -/

/-- One of the things has what the flag stands for. -/
def Shows (s : TileState) (things : List ItemId) (f : TileFlag) : Prop :=
  ∃ i ∈ things, (s.item i).shows f = true

/-- The flag is set if and only if the ground or an item has what it stands for. -/
def FlagExact (s : TileState) (f : TileFlag) : Prop :=
  s.flags f = true ↔ s.Shows s.things f

theorem shows_append {l l' : List ItemId} {f : TileFlag} :
    s.Shows (l ++ l') f ↔ s.Shows l f ∨ s.Shows l' f := by
  unfold Shows
  constructor
  · rintro ⟨i, hi, hf⟩
    exact (List.mem_append.mp hi).imp (fun hi => ⟨i, hi, hf⟩) fun hi => ⟨i, hi, hf⟩
  · rintro (⟨i, hi, hf⟩ | ⟨i, hi, hf⟩)
    · exact ⟨i, List.mem_append_left _ hi, hf⟩
    · exact ⟨i, List.mem_append_right _ hi, hf⟩

theorem shows_congr {l l' : List ItemId} (hmem : ∀ i, i ∈ l ↔ i ∈ l')
    (hitem : ∀ i ∈ l, s'.item i = s.item i) (f : TileFlag) : s'.Shows l f ↔ s.Shows l' f := by
  unfold Shows
  constructor
  · rintro ⟨i, hi, hf⟩
    rw [hitem i hi] at hf
    exact ⟨i, (hmem i).mp hi, hf⟩
  · rintro ⟨i, hi, hf⟩
    rw [← hitem i ((hmem i).mpr hi)] at hf
    exact ⟨i, (hmem i).mpr hi, hf⟩

theorem shows_toList (i : Option ItemId) (f : TileFlag) :
    s.Shows i.toList f ↔ shown (i.map s.item) f = true := by
  unfold Shows
  cases i with
  | none =>
    constructor
    · rintro ⟨i, hi, -⟩
      cases hi
    · intro h
      cases h
  | some i =>
    constructor
    · rintro ⟨x, hx, hf⟩
      rw [← List.mem_singleton.mp hx]
      exact hf
    · exact fun hf => ⟨i, List.mem_singleton_self i, hf⟩

theorem shown_eq (item : Option TileItem) (f : TileFlag) :
    shown item f = (item.map TileItem.shows).any fun shows => shows f := by
  cases item <;> rfl

/-! ## Raising and lowering -/

section Flags

variable (flags : TileFlag → Bool) (item : Option TileItem)

theorem lowered_property (others : ItemProperty → Bool) (p : ItemProperty) :
    lowered flags others item (.property p) =
      (flags (.property p) && !(shown item (.property p) && !others p)) := by
  cases item with
  | none => exact (Bool.and_true _).symm
  | some item => rfl

theorem lowered_other (others : ItemProperty → Bool) {f : TileFlag} (hf : ∀ p, f ≠ .property p) :
    lowered flags others item f = (flags f && !shown item f) := by
  cases item with
  | none => exact (Bool.and_true _).symm
  | some item =>
    cases f with
    | property p => exact absurd rfl (hf p)
    | _ => rfl

theorem raised_floorChangeTo (change : FloorChange) :
    raised flags item (.floorChangeTo change) =
      (flags (.floorChangeTo change) ||
        (!flags .floorChange && shown item (.floorChangeTo change))) := by
  cases item with
  | none =>
    change flags (.floorChangeTo change) = (_ || (_ && false))
    rw [Bool.and_false, Bool.or_false]
  | some item => rfl

theorem raised_immovableBlockPath :
    raised flags item (.property .immovableBlockPath) = flags (.property .immovableBlockPath) := by
  cases item <;> rfl

theorem raised_other {f : TileFlag} (hchange : ∀ change, f ≠ .floorChangeTo change)
    (hproperty : f ≠ .property .immovableBlockPath) :
    raised flags item f = (flags f || shown item f) := by
  cases item with
  | none => exact (Bool.or_false _).symm
  | some item =>
    cases f with
    | floorChangeTo change => exact absurd rfl (hchange change)
    | property p =>
      cases p with
      | immovableBlockPath => exact absurd rfl hproperty
      | _ => rfl
    | _ => rfl

end Flags

/-! ## Steps -/

section Step

variable {goes i : Option ItemId} {comes : Option TileItem} {rest : List ItemId}

theorem Exchange.shows_before (h : Exchange s s' goes i rest) (f : TileFlag) :
    s.Shows s.things f ↔ shown (goes.map s.item) f = true ∨ s.Shows rest f := by
  calc s.Shows s.things f ↔ s.Shows (goes.toList ++ rest) f :=
        shows_congr (fun _ => h.before.mem_iff) (fun _ _ => rfl) f
    _ ↔ s.Shows goes.toList f ∨ s.Shows rest f := shows_append
    _ ↔ shown (goes.map s.item) f = true ∨ s.Shows rest f := or_congr_left (shows_toList goes f)

theorem shown_comes (hshows : i.map (fun i => (s'.item i).shows) = comes.map TileItem.shows)
    (f : TileFlag) : shown (i.map s'.item) f = shown comes f := by
  rw [shown_eq, shown_eq, ← hshows, Option.map_map]
  rfl

theorem Exchange.shows_after (h : Exchange s s' goes i rest)
    (hshows : i.map (fun i => (s'.item i).shows) = comes.map TileItem.shows) (f : TileFlag) :
    s'.Shows s'.things f ↔ shown comes f = true ∨ s.Shows rest f := by
  calc s'.Shows s'.things f ↔ s'.Shows (i.toList ++ rest) f :=
        shows_congr (fun _ => h.after.mem_iff) (fun _ _ => rfl) f
    _ ↔ s'.Shows i.toList f ∨ s'.Shows rest f := shows_append
    _ ↔ shown comes f = true ∨ s.Shows rest f := by
        rw [shows_toList, shown_comes hshows, shows_congr (fun _ => Iff.rfl) h.item f]

/-- The flag for a property that is raised stays exact. -/
theorem Exchange.property_exact (h : Exchange s s' goes i rest)
    (hshows : i.map (fun i => (s'.item i).shows) = comes.map TileItem.shows) {p : ItemProperty}
    (hp : p ≠ .immovableBlockPath) (hexact : s.FlagExact (.property p)) :
    s'.FlagExact (.property p) := by
  obtain ⟨others, hrest, hothers, hflags⟩ := h.flags
  have hbefore := hexact.trans (h.shows_before (.property p))
  have hfound : others p = true →
      shown comes (.property p) = true ∨ s.Shows rest (.property p) := by
    intro hp
    -- the other item that was found may be the one that comes
    rcases hothers p hp with hrest | hcomes
    · exact .inr hrest
    · have hcomes' := (shows_toList (s := s') i (.property p)).mp hcomes
      rw [shown_comes hshows] at hcomes'
      exact .inl hcomes'
  have hrest : s.Shows rest (.property p) → others p = true := hrest p
  have hafter : s'.flags (.property p) =
      (s.flags (.property p) && !(shown (goes.map s.item) (.property p) && !others p) ||
        shown comes (.property p)) := by
    rw [hflags, raised_other _ _ (fun _ => by exact TileFlag.noConfusion)
      (fun heq => hp (TileFlag.property.inj heq)), lowered_property, shown_comes hshows]
  unfold FlagExact
  rw [hafter, h.shows_after hshows, Bool.or_eq_true, Bool.and_eq_true, Bool.not_eq_true',
    Bool.and_eq_false_iff, Bool.not_eq_false']
  -- the flag is kept for the rest, or raised for what comes
  constructor
  · rintro (⟨hset, hgone | hother⟩ | hcomes)
    · rw [hgone] at hbefore
      exact .inr ((hbefore.mp hset).resolve_left Bool.false_ne_true)
    · exact hfound hother
    · exact .inl hcomes
  · rintro (hcomes | hstays)
    · exact .inr hcomes
    · exact .inl ⟨hbefore.mpr (.inr hstays), .inr (hrest hstays)⟩

/-- That for items that are immovable and block the path is never raised. -/
theorem Exchange.immovableBlockPath_unset (h : Exchange s s' goes i rest)
    (hunset : s.flags (.property .immovableBlockPath) = false) :
    s'.flags (.property .immovableBlockPath) = false := by
  obtain ⟨others, -, -, hflags⟩ := h.flags
  rw [hflags, raised_immovableBlockPath, lowered_property, hunset, Bool.false_and]

end Step

/-! ## Blocking -/

theorem Still.flagExact (h : Still s s') {f : TileFlag} (hflag : s'.flags f = s.flags f)
    (hexact : s.FlagExact f) : s'.FlagExact f := by
  have hshows : s'.Shows s'.things f ↔ s.Shows s.things f := by
    rw [h.things]
    exact shows_congr (fun _ => Iff.rfl) h.item f
  unfold FlagExact
  rw [hflag, hshows]
  exact hexact

theorem init_flagExact (h : (tileSystem kinds).init s) (f : TileFlag) : s.FlagExact f := by
  obtain ⟨item, -, rfl⟩ := h
  constructor
  · intro hf
    cases hf
  · rintro ⟨i, hi, -⟩
    cases hi

theorem property_ne_floorChangeTo (p : ItemProperty) (change : FloorChange) :
    TileFlag.property p ≠ .floorChangeTo change := by
  intro h
  cases h

theorem property_ne_floorChangeResolved (p : ItemProperty) :
    TileFlag.property p ≠ .floorChangeResolved := by
  intro h
  cases h

theorem Outcome.property_exact {a : TileAction} (h : Outcome kinds s a s') {p : ItemProperty}
    (hp : p ≠ .immovableBlockPath) (hexact : s.FlagExact (.property p)) :
    s'.FlagExact (.property p) := by
  rcases h.moves with ⟨i, rest, hexchange, -, hshows⟩ | ⟨-, -, hstill, hflags⟩
  · exact hexchange.property_exact hshows hp hexact
  · refine hstill.flagExact (hflags _ (property_ne_floorChangeResolved p) ?_) hexact
    exact fun change heq => absurd heq (property_ne_floorChangeTo p change)

/-- The flag that is never raised is exact as long as no such item comes. -/
theorem Outcome.immovableBlockPath_exact {a : TileAction} (h : Outcome kinds s a s')
    (hbrings : shown (a.comes kinds s) (.property .immovableBlockPath) = false)
    (hunset : s.flags (.property .immovableBlockPath) = false)
    (hexact : s.FlagExact (.property .immovableBlockPath)) :
    s'.flags (.property .immovableBlockPath) = false ∧
      s'.FlagExact (.property .immovableBlockPath) := by
  rcases h.moves with ⟨i, rest, hexchange, -, hshows⟩ | ⟨-, -, hstill, hflags⟩
  · have hunset' := hexchange.immovableBlockPath_unset hunset
    refine ⟨hunset', ?_⟩
    unfold FlagExact at hexact ⊢
    rw [hunset, hexchange.shows_before] at hexact
    rw [hunset', hexchange.shows_after hshows, hbrings]
    refine ⟨fun hf => absurd hf Bool.false_ne_true, ?_⟩
    rintro (hcomes | hstays)
    · exact hcomes
    · exact hexact.mpr (.inr hstays)
  · have hflag := hflags (.property .immovableBlockPath) (property_ne_floorChangeResolved _)
      fun change heq => absurd heq (property_ne_floorChangeTo _ change)
    exact ⟨hflag.trans hunset, hstill.flagExact hflag hexact⟩

end TileState

/-- No item that is immovable and blocks the path comes. -/
def TileAction.BringsNoObstacle (kinds : KindId → Option TileKind) (s : TileState)
    (a : TileAction) : Prop :=
  ∀ item, a.comes kinds s = some item → item.hasProperty .immovableBlockPath = false

theorem TileAction.BringsNoObstacle.shown {a : TileAction} (h : a.BringsNoObstacle kinds s) :
    shown (a.comes kinds s) (.property .immovableBlockPath) = false := by
  cases hcomes : a.comes kinds s with
  | none => rfl
  | some item => exact h item hcomes

/-- In every run without immovable items that block the path, and with magic fields that go as a
whole. -/
theorem blockingFlags_exact (h : ((tileSystem kinds).restrict fun s a =>
    a.ReplacesWhole s ∧ a.BringsNoObstacle kinds s).Reachable s) (p : ItemProperty) :
    s.flags (.property p) = true ↔ ∃ i ∈ s.things, (s.item i).hasProperty p = true := by
  have hinv : s.Sound ∧ s.flags (.property .immovableBlockPath) = false ∧
      ∀ p, s.FlagExact (.property p) := by
    apply h.invariant
    · rintro s (hinit : (tileSystem kinds).init s)
      have hexact := TileState.init_flagExact hinit
      refine ⟨(TileState.init_sound hinit).1, ?_, fun p => hexact (.property p)⟩
      obtain ⟨item, -, rfl⟩ := hinit
      rfl
    · rintro s a t ⟨hs, hunset, hexact⟩ ⟨⟨hwhole, hbrings⟩, hstep⟩
      have houtcome := TileState.step_outcome hs hwhole hstep
      have hpath := houtcome.immovableBlockPath_exact hbrings.shown hunset (hexact _)
      refine ⟨houtcome.sound hs, hpath.1, fun p => ?_⟩
      by_cases hp : p = .immovableBlockPath
      -- `IMMOVABLEBLOCKPATH` is the one that is never raised
      · rw [hp]
        exact hpath.2
      · exact houtcome.property_exact hp (hexact p)
  exact hinv.2.2 p

namespace SmallTile

def crate : TileItem := { kind := { id := 1739, blockSolid := true, blockPathFind := true } }

def statue : TileItem :=
  { kind := { id := 1442, moveable := false, blockSolid := true, blockPathFind := true } }

def crateLaid : TileState := act (empty crate) (.internalAddThing 0)
def statueLaid : TileState := act (empty statue) (.internalAddThing 0)

end SmallTile

open SmallTile in
theorem blockingFlags_exact_crate :
    (crateLaid.flags (.property .blockPath) = true ↔
      ∃ i ∈ crateLaid.things, (crateLaid.item i).hasProperty .blockPath = true) ∧
      crateLaid.flags (.property .blockPath) = true := by
  have hreach : ((tileSystem someKinds).restrict fun s a =>
      a.ReplacesWhole s ∧ a.BringsNoObstacle someKinds s).Reachable crateLaid := by
    refine act_reachable (empty_reachable (by decide) _) (.internalAddThing 0) ⟨trivial, ?_⟩ rfl rfl
    intro item hitem
    cases hitem
    rfl
  exact ⟨blockingFlags_exact hreach .blockPath, rfl⟩

open SmallTile in
/-- The flag for the path is not set where a statue stands. -/
theorem blockingFlags_not_exact : ¬ ∀ s, (tileSystem someKinds).Reachable s →
    ∀ p, s.flags (.property p) = true ↔ ∃ i ∈ s.things, (s.item i).hasProperty p = true := by
  intro h
  have hreach : ((tileSystem someKinds).restrict fun _ _ => True).Reachable statueLaid :=
    act_reachable (empty_reachable (by decide) _) (.internalAddThing 0) trivial rfl rfl
  have hflag := (h statueLaid hreach.of_restrict .immovableBlockPath).mpr
    ⟨0, List.mem_singleton_self 0, rfl⟩
  cases hflag

/-! ## Features -/

/-- The flag stands for what an item is, or for where it leads to. -/
def TileFlag.IsFeature : TileFlag → Prop
  | floorChangeResolved => False
  | property _ => False
  | _ => True

/-- The things that neither leave the tile nor change. -/
def TileAction.stays (kinds : KindId → Option TileKind) (s : TileState) (a : TileAction) :
    List ItemId :=
  s.things.filter fun i => a.goes kinds s ≠ some i

/-- What goes takes no feature with it that another thing has too, unless the thing that comes has
it again; and no direction is added to a floor change that is there already. -/
structure TileAction.KeepsFeatures (kinds : KindId → Option TileKind) (s : TileState)
    (a : TileAction) : Prop where
  leaves : ∀ f : TileFlag, f.IsFeature → shown ((a.goes kinds s).map s.item) f = true →
    s.Shows (a.stays kinds s) f → shown (a.comes kinds s) f = true
  brings : shown ((a.goes kinds s).map s.item) .floorChange = false →
    s.Shows (a.stays kinds s) .floorChange →
    ∀ change, shown (a.comes kinds s) (.floorChangeTo change) = true →
      s.Shows (a.stays kinds s) (.floorChangeTo change)
  learns : ¬ a.LearnsDirection s

namespace TileState

theorem shows_floorChange {item : TileItem} {change : FloorChange}
    (h : item.shows (.floorChangeTo change) = true) : item.shows .floorChange = true := by
  have hmem : change ∈ item.kind.floorChange := List.contains_iff_mem.mp h
  change (!item.kind.floorChange.isEmpty) = true
  rw [List.isEmpty_eq_false_iff_exists_mem.mpr ⟨change, hmem⟩]
  rfl

theorem shown_floorChange {item : Option TileItem} {change : FloorChange}
    (h : shown item (.floorChangeTo change) = true) : shown item .floorChange = true := by
  cases item with
  | none => cases h
  | some item => exact shows_floorChange h

section Features

variable {goes i : Option ItemId} {comes : Option TileItem} {rest : List ItemId}

theorem Exchange.mem_rest (h : Exchange s s' goes i rest) (hs : s.Sound) (x : ItemId) :
    x ∈ rest ↔ x ∈ s.things.filter fun x => goes ≠ some x := by
  have hnodup := h.before.nodup_iff.mp hs.nodup
  rw [List.mem_filter, h.before.mem_iff, List.mem_append, Option.mem_toList, decide_eq_true_iff]
  constructor
  · intro hx
    refine ⟨.inr hx, fun heq => ?_⟩
    rw [heq] at hnodup
    exact (List.nodup_cons.mp hnodup).1 hx
  · exact fun hx => hx.1.resolve_left hx.2

/-- The flag for what an item is, or for a floor change as such. -/
theorem Exchange.class_exact (h : Exchange s s' goes i rest)
    (hshows : i.map (fun i => (s'.item i).shows) = comes.map TileItem.shows) {f : TileFlag}
    (hproperty : ∀ p, f ≠ .property p) (hchange : ∀ change, f ≠ .floorChangeTo change)
    (hleaves : shown (goes.map s.item) f = true → s.Shows rest f → shown comes f = true)
    (hexact : s.FlagExact f) : s'.FlagExact f := by
  obtain ⟨others, -, -, hflags⟩ := h.flags
  have hbefore := hexact.trans (h.shows_before f)
  have hafter : s'.flags f = (s.flags f && !shown (goes.map s.item) f || shown comes f) := by
    rw [hflags, raised_other _ _ hchange (hproperty _), lowered_other _ _ _ hproperty,
      shown_comes hshows]
  unfold FlagExact
  rw [hafter, h.shows_after hshows, Bool.or_eq_true, Bool.and_eq_true, Bool.not_eq_true']
  -- lowered without a look at the rest, and raised again by what comes
  constructor
  · rintro (⟨hset, hgoes⟩ | hcomes)
    · rw [hgoes] at hbefore
      exact .inr ((hbefore.mp hset).resolve_left Bool.false_ne_true)
    · exact .inl hcomes
  · rintro (hcomes | hstays)
    · exact .inr hcomes
    · cases hgoes : shown (goes.map s.item) f with
      | true => exact .inr (hleaves hgoes hstays)
      | false => exact .inl ⟨hbefore.mpr (.inr hstays), rfl⟩

/-- The flag for a direction; the thing that goes takes the floor change as such with it. -/
theorem Exchange.floorChangeTo_exact (h : Exchange s s' goes i rest)
    (hshows : i.map (fun i => (s'.item i).shows) = comes.map TileItem.shows)
    {change : FloorChange}
    (hleaves : shown (goes.map s.item) (.floorChangeTo change) = true →
      s.Shows rest (.floorChangeTo change) → shown comes (.floorChangeTo change) = true)
    (hbrings : shown (goes.map s.item) .floorChange = false → s.Shows rest .floorChange →
      shown comes (.floorChangeTo change) = true → s.Shows rest (.floorChangeTo change))
    (hfloor : s.FlagExact .floorChange) (hexact : s.FlagExact (.floorChangeTo change)) :
    s'.FlagExact (.floorChangeTo change) := by
  obtain ⟨others, -, -, hflags⟩ := h.flags
  have hbefore := hexact.trans (h.shows_before (.floorChangeTo change))
  have hfloor := hfloor.trans (h.shows_before .floorChange)
  have hafter : s'.flags (.floorChangeTo change) =
      (s.flags (.floorChangeTo change) && !shown (goes.map s.item) (.floorChangeTo change) ||
        (!(s.flags .floorChange && !shown (goes.map s.item) .floorChange) &&
          shown comes (.floorChangeTo change))) := by
    rw [hflags, raised_floorChangeTo, lowered_other _ _ _ (fun p => by exact TileFlag.noConfusion),
      lowered_other _ _ _ (fun p => by exact TileFlag.noConfusion), shown_comes hshows]
  unfold FlagExact
  rw [hafter, h.shows_after hshows, Bool.or_eq_true, Bool.and_eq_true, Bool.and_eq_true,
    Bool.not_eq_true', Bool.not_eq_true', Bool.and_eq_false_iff, Bool.not_eq_false']
  constructor
  · rintro (⟨hset, hgoes⟩ | ⟨-, hcomes⟩)
    · rw [hgoes] at hbefore
      exact .inr ((hbefore.mp hset).resolve_left Bool.false_ne_true)
    · exact .inl hcomes
  · -- the direction of the thing that comes counts unless a floor change is left
    intro hshown
    by_cases hstays : s.Shows rest (.floorChangeTo change)
    · cases hgoes : shown (goes.map s.item) (.floorChangeTo change) with
      | true => exact .inr ⟨.inr (shown_floorChange hgoes), hleaves hgoes hstays⟩
      | false => exact .inl ⟨hbefore.mpr (.inr hstays), rfl⟩
    · have hcomes := hshown.resolve_right hstays
      refine .inr ⟨?_, hcomes⟩
      -- with a floor change left, the direction of what comes is not looked at
      cases hgoes : shown (goes.map s.item) .floorChange with
      | true => exact .inr rfl
      | false =>
        refine .inl ((Bool.not_eq_true _).mp fun hset => hstays ?_)
        rw [hgoes] at hfloor
        exact hbrings hgoes ((hfloor.mp hset).resolve_left Bool.false_ne_true) hcomes

end Features

theorem Outcome.feature_exact {a : TileAction} (hs : s.Sound) (h : Outcome kinds s a s')
    (hkeeps : a.KeepsFeatures kinds s) (hexact : ∀ f, f.IsFeature → s.FlagExact f) {f : TileFlag}
    (hf : f.IsFeature) : s'.FlagExact f := by
  rcases h.moves with ⟨i, rest, hexchange, -, hshows⟩ | ⟨-, -, hstill, hflags⟩
  · have hstays (g : TileFlag) : s.Shows rest g ↔ s.Shows (a.stays kinds s) g :=
      shows_congr (hexchange.mem_rest hs) (fun _ _ => rfl) g
    have hleaves := hkeeps.leaves f hf
    rw [← hstays] at hleaves
    -- directions depend on the floor change as such, the others on themselves
    cases f with
    | floorChangeTo change =>
      have hbrings := hkeeps.brings
      rw [← hstays] at hbrings
      refine hexchange.floorChangeTo_exact hshows hleaves ?_ (hexact .floorChange trivial)
        (hexact _ hf)
      intro hgoes hfloor hcomes
      exact (hstays _).mpr (hbrings hgoes hfloor change hcomes)
    | floorChangeResolved => exact hf.elim
    | property p => exact hf.elim
    | _ =>
      refine hexchange.class_exact hshows ?_ ?_ hleaves (hexact _ hf)
      · exact fun p => TileFlag.noConfusion
      · exact fun change => TileFlag.noConfusion
  · refine hstill.flagExact (hflags f ?_ fun _ _ => hkeeps.learns) (hexact f hf)
    rintro rfl
    exact hf

end TileState

/-- In every run in which no feature is lost that another thing has. -/
theorem featureFlags_exact (h : ((tileSystem kinds).restrict fun s a =>
    a.ReplacesWhole s ∧ a.KeepsFeatures kinds s).Reachable s) {f : TileFlag} (hf : f.IsFeature) :
    s.flags f = true ↔ ∃ i ∈ s.things, (s.item i).shows f = true := by
  have hinv : s.Sound ∧ ∀ f : TileFlag, f.IsFeature → s.FlagExact f := by
    apply h.invariant
    · rintro s (hinit : (tileSystem kinds).init s)
      exact ⟨(TileState.init_sound hinit).1, fun f _ => TileState.init_flagExact hinit f⟩
    · rintro s a t ⟨hs, hexact⟩ ⟨⟨hwhole, hkeeps⟩, hstep⟩
      have houtcome := TileState.step_outcome hs hwhole hstep
      exact ⟨houtcome.sound hs, fun f => houtcome.feature_exact hs hkeeps hexact⟩
  exact hinv.2 f hf

namespace SmallTile

def mailbox : TileItem := { kind := { id := 2593, moveable := false }, itemClass := .mailbox }

def mailboxLaid : TileState := act (empty mailbox) (.internalAddThing 0)
def twoMailboxes : TileState := act mailboxLaid (.internalAddThing 1)
def oneMailbox : TileState := act twoMailboxes (.removeThing 0 1)

end SmallTile

open SmallTile in
theorem featureFlags_exact_mailbox :
    (mailboxLaid.flags .mailbox = true ↔
      ∃ i ∈ mailboxLaid.things, (mailboxLaid.item i).shows .mailbox = true) ∧
      mailboxLaid.flags .mailbox = true := by
  have hreach : ((tileSystem someKinds).restrict fun s a =>
      a.ReplacesWhole s ∧ a.KeepsFeatures someKinds s).Reachable mailboxLaid := by
    refine act_reachable (empty_reachable (by decide) _) (.internalAddThing 0) ⟨trivial, ?_⟩ rfl rfl
    refine ⟨fun f _ hgoes => ?_, fun _ hstays => ?_, id⟩
    · cases hgoes
    · obtain ⟨i, hi, -⟩ := hstays
      cases hi
  exact ⟨featureFlags_exact hreach (f := .mailbox) trivial, rfl⟩

open SmallTile in
/-- One of two mailboxes is removed, and the other one is not found any more. -/
theorem featureFlags_not_exact : ¬ ∀ s, (tileSystem someKinds).Reachable s →
    ∀ f : TileFlag, f.IsFeature →
      (s.flags f = true ↔ ∃ i ∈ s.things, (s.item i).shows f = true) := by
  intro h
  have hmailbox : ((tileSystem someKinds).restrict fun _ _ => True).Reachable mailboxLaid :=
    act_reachable (empty_reachable (by decide) _) (.internalAddThing 0) trivial rfl rfl
  have htwo := act_reachable hmailbox (.internalAddThing 1) trivial rfl rfl
  -- the flag goes with the first mailbox
  have hone := act_reachable htwo (.removeThing 0 1) trivial rfl rfl
  have hflag := (h oneMailbox hone.of_restrict .mailbox trivial).mpr
    ⟨1, List.mem_singleton_self 1, rfl⟩
  cases hflag

end TyanoCore
