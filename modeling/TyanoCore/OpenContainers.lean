import Mathlib.Data.List.Nodup
import Mathlib.Logic.Function.Basic
import TyanoCore.Run

/-!
# Open containers

A player has at most sixteen containers open, each under an id that the client chose.  The client is
told what is in them once, when they are opened, and from then on only what changes.  Here the
windows of a client are what it has been told; the question is whether they show what the server has
open, with what is in it.
-/

namespace TyanoCore.OpenContainers

open Transition

variable {C I : Type*} [DecidableEq C]

/-- What the client is told about its windows. -/
inductive Message (C I : Type*) where
  | container (cid : ℕ) (container : C) (hasParent : Bool) (items : List I)
  | closeContainer (cid : ℕ)
  | addContainerItem (cid : ℕ) (item : I)
  | updateContainerItem (cid slot : ℕ) (item : I)
  | removeContainerItem (cid slot : ℕ)

/-- A window of the client. -/
structure Window (C I : Type*) where
  container : C
  hasParent : Bool
  items : List I

namespace Message

def cid : Message C I → ℕ
  | container cid _ _ _ => cid
  | closeContainer cid => cid
  | addContainerItem cid _ => cid
  | updateContainerItem cid _ _ => cid
  | removeContainerItem cid _ => cid

/-- What becomes of the window that a message is about. -/
def change : Message C I → Option (Window C I) → Option (Window C I)
  | container _ c hasParent items, _ => some ⟨c, hasParent, items⟩
  | closeContainer _, _ => none
  | addContainerItem _ item, window =>
    window.map fun w => { w with items := item :: w.items }
  | updateContainerItem _ slot item, window =>
    window.map fun w => { w with items := w.items.set slot item }
  | removeContainerItem _ slot, window =>
    window.map fun w => { w with items := w.items.eraseIdx slot }

end Message

/-- What the functions below read and write, with what the client has been sent. -/
structure State (C I : Type*) where
  /-- Of the player: the ids of the open containers. -/
  containerVec : List (ℕ × C)
  /-- The container that a container is in. -/
  parent : C → Option C
  isRemoved : C → Bool
  itemlist : C → List I
  sent : List (Message C I)

namespace State

variable (s : State C I)

def send (message : Message C I) : State C I := { s with sent := s.sent ++ [message] }

/-- The windows of a client that has got all messages. -/
def windows : ℕ → Option (Window C I) :=
  s.sent.foldl
    (fun windows message =>
      Function.update windows message.cid (message.change (windows message.cid)))
    fun _ => none

/-! ## The functions of the player -/

def getContainer (cid : ℕ) : Option C := s.containerVec.lookup cid

def getContainerID (container : C) : Option ℕ :=
  (s.containerVec.find? (·.2 == container)).map Prod.fst

/-- The first entry with the id is given the container; a new entry is appended if there is none. -/
def putContainer (cid : ℕ) (container : C) : List (ℕ × C) → List (ℕ × C)
  | [] => [(cid, container)]
  | (first, second) :: rest =>
    if first = cid then (first, container) :: rest
    else (first, second) :: putContainer cid container rest

def addContainer (cid : ℕ) (container : C) : State C I :=
  if 0xF < cid then s
  else { s with containerVec := putContainer cid container s.containerVec }

def closeContainer (cid : ℕ) : State C I :=
  { s with containerVec := s.containerVec.eraseP (·.1 == cid) }

/-- The loop that sends a message for each id under which a container is open. -/
def sendForContainer (container : C) (message : ℕ → Message C I) : State C I :=
  s.containerVec.foldl (fun s entry => if entry.2 = container then s.send (message entry.1) else s) s

def hasParent (container : C) : Bool := (s.parent container).isSome

/-- `ProtocolGame::sendContainer`. -/
def containerMessage (container : C) (cid : ℕ) : Message C I :=
  .container cid container (s.hasParent container) ((s.itemlist container).take 255)

def sendContainer (cid : ℕ) (container : C) : State C I :=
  s.send (s.containerMessage container cid)

def onSendContainer (container : C) : State C I :=
  s.sendForContainer container (s.containerMessage container)

def onCloseContainer (container : C) : State C I := s.sendForContainer container .closeContainer

def sendAddContainerItem (container : C) (item : I) : State C I :=
  s.sendForContainer container (.addContainerItem · item)

/-- The slot is a `uint8_t`. -/
def sendUpdateContainerItem (container : C) (index : ℕ) (item : I) : State C I :=
  s.sendForContainer container (.updateContainerItem · (index % 256) item)

def sendRemoveContainerItem (container : C) (index : ℕ) : State C I :=
  s.sendForContainer container (.removeContainerItem · (index % 256))

/-- The loop of `autoCloseContainers` from a container outwards, with a bound on its rounds; `none`
when it is still going then. -/
def closesWith (container : C) : ℕ → C → Option Bool
  | 0, _ => none
  | rounds + 1, tmp =>
    if s.isRemoved tmp || tmp = container then some true
    else
      match s.parent tmp with
      | none => some false
      | some parent => closesWith container rounds parent

/-- The list of the ids to close. -/
def closeList (container : C) (rounds : ℕ) : Option (List ℕ) :=
  s.containerVec.foldrM
    (fun entry ids => (s.closesWith container rounds entry.2).map fun closes =>
      if closes then entry.1 :: ids else ids)
    []

def autoCloseContainers (container : C) (rounds : ℕ) : Option (State C I) :=
  (s.closeList container rounds).map fun ids =>
    ids.foldl (fun s cid => (s.closeContainer cid).send (.closeContainer cid)) s

/-- What `postAddNotification` does when the player has moved itself; `isInRange` tells which
containers are next to it now. -/
def closeFarContainers (isInRange : C → Bool) (rounds : ℕ) : Option (State C I) :=
  ((s.containerVec.map Prod.snd).filter (!isInRange ·)).foldlM
    (fun s container => s.autoCloseContainers container rounds) s

/-! ## What the client asks for -/

/-- `Actions::openContainer`. -/
def useContainer (openContainerId : ℕ) (container : C) : State C I :=
  match s.getContainerID container with
  | some oldId => (s.onCloseContainer container).closeContainer oldId
  | none => (s.addContainer openContainerId container).onSendContainer container

def playerCloseContainer (cid : ℕ) : State C I :=
  (s.closeContainer cid).send (.closeContainer cid)

def playerMoveUpContainer (cid : ℕ) : State C I :=
  match s.getContainer cid with
  | none => s
  | some container =>
    match s.parent container with
    | none => s
    | some parentContainer =>
      (s.addContainer cid parentContainer).sendContainer cid parentContainer

def playerUpdateContainer (cid : ℕ) : State C I :=
  match s.getContainer cid with
  | none => s
  | some container => s.sendContainer cid container

/-! ## What happens to the containers -/

def setItems (container : C) (items : List I) : State C I :=
  { s with itemlist := Function.update s.itemlist container items }

/-- `Container::__addThing`; the player is told if it is among the spectators. -/
def addThing (container : C) (item : I) (isSpectator : Bool) : State C I :=
  let s := s.setItems container (item :: s.itemlist container)
  if isSpectator then s.sendAddContainerItem container item else s

/-- `Container::__updateThing` and `Container::__replaceThing`. -/
def updateThing (container : C) (index : ℕ) (item : I) (isSpectator : Bool) : State C I :=
  let s := s.setItems container ((s.itemlist container).set index item)
  if isSpectator then s.sendUpdateContainerItem container index item else s

/-- `Container::__removeThing`. -/
def removeThing (container : C) (index : ℕ) (isSpectator : Bool) : State C I :=
  let s := if isSpectator then s.sendRemoveContainerItem container index else s
  s.setItems container ((s.itemlist container).eraseIdx index)

end State

/-! ## Runs -/

/-- What happens to the open containers of a player. -/
inductive Action (C I : Type*) where
  | useContainer (openContainerId : ℕ) (container : C)
  | closeContainer (cid : ℕ)
  | moveUpContainer (cid : ℕ)
  | updateContainer (cid : ℕ)
  | addThing (container : C) (item : I) (isSpectator : Bool)
  | updateThing (container : C) (index : ℕ) (item : I) (isSpectator : Bool)
  | removeThing (container : C) (index : ℕ) (isSpectator : Bool)
  /-- The container is put somewhere else, perhaps out of the world. -/
  | moveThing (container : C) (parent : Option C) (isRemoved : Bool)
  /-- The notifications after that. -/
  | sendContainer (container : C)
  | autoCloseContainers (container : C) (rounds : ℕ)
  | closeFarContainers (isInRange : C → Bool) (rounds : ℕ)
  /-- The client has gone away, and another one connects to the player. -/
  | connect

def step (s : State C I) : Action C I → Option (State C I)
  | .useContainer openContainerId container => some (s.useContainer openContainerId container)
  | .closeContainer cid => some (s.playerCloseContainer cid)
  | .moveUpContainer cid => some (s.playerMoveUpContainer cid)
  | .updateContainer cid => some (s.playerUpdateContainer cid)
  | .addThing container item isSpectator => some (s.addThing container item isSpectator)
  | .updateThing container index item isSpectator =>
    some (s.updateThing container index item isSpectator)
  | .removeThing container index isSpectator => some (s.removeThing container index isSpectator)
  | .moveThing container parent isRemoved =>
    some { s with
      parent := Function.update s.parent container parent
      isRemoved := Function.update s.isRemoved container isRemoved }
  | .sendContainer container => some (s.onSendContainer container)
  | .autoCloseContainers container rounds => s.autoCloseContainers container rounds
  | .closeFarContainers isInRange rounds => s.closeFarContainers isInRange rounds
  -- it is not told what is open
  | .connect => some { s with sent := [] }

/-- A player that has just logged in. -/
def init (s : State C I) : Prop := s.containerVec = [] ∧ s.sent = []

def system : System (State C I) (Action C I) := System.ofStep init step

/-! ## The ids -/

section entries

variable {container : C} {cid cid' : ℕ} {entries : List (ℕ × C)}

omit [DecidableEq C] in
theorem lookup_cons_of_eq {entry : ℕ × C} (h : entry.1 = cid) :
    (entry :: entries).lookup cid = some entry.2 := by
  rw [List.lookup_cons, beq_iff_eq.mpr h.symm]

omit [DecidableEq C] in
theorem lookup_cons_of_ne {entry : ℕ × C} (h : entry.1 ≠ cid) :
    (entry :: entries).lookup cid = entries.lookup cid := by
  rw [List.lookup_cons, beq_eq_false_iff_ne.mpr h.symm]

omit [DecidableEq C] in
theorem lookup_putContainer (entries : List (ℕ × C)) :
    (State.putContainer cid container entries).lookup cid' =
      if cid' = cid then some container else entries.lookup cid' := by
  induction entries with
  | nil =>
    rw [State.putContainer]
    split_ifs with hcid
    · exact lookup_cons_of_eq hcid.symm
    · exact lookup_cons_of_ne (Ne.symm hcid)
  | cons entry entries ih =>
    rw [State.putContainer]
    by_cases hfirst : entry.1 = cid
    · rw [if_pos hfirst]
      split_ifs with hcid
      · exact lookup_cons_of_eq (hfirst.trans hcid.symm)
      · have hne : entry.1 ≠ cid' := fun h => hcid (h.symm.trans hfirst)
        have hrest (second : C) : ((entry.1, second) :: entries).lookup cid' =
            entries.lookup cid' := lookup_cons_of_ne hne
        exact (hrest container).trans (hrest entry.2).symm
    · rw [if_neg hfirst]
      by_cases hcid : entry.1 = cid'
      · rw [lookup_cons_of_eq hcid, lookup_cons_of_eq hcid, if_neg (hcid ▸ hfirst)]
      · rw [lookup_cons_of_ne hcid, lookup_cons_of_ne hcid]
        exact ih

omit [DecidableEq C] in
theorem fst_putContainer (entries : List (ℕ × C)) :
    (State.putContainer cid container entries).map Prod.fst =
      if cid ∈ entries.map Prod.fst then entries.map Prod.fst
      else entries.map Prod.fst ++ [cid] := by
  induction entries with
  | nil => rfl
  | cons entry entries ih =>
    rw [State.putContainer, List.map_cons]
    by_cases hfirst : entry.1 = cid
    · rw [if_pos hfirst, if_pos (List.mem_cons.mpr (.inl hfirst.symm)), List.map_cons]
    · have hmem : cid ∈ entry.1 :: entries.map Prod.fst ↔ cid ∈ entries.map Prod.fst :=
        List.mem_cons.trans (or_iff_right (Ne.symm hfirst))
      rw [if_neg hfirst, List.map_cons, ih, if_congr hmem rfl rfl]
      split_ifs <;> rfl

omit [DecidableEq C] in
theorem lookup_eq_none_of_not_mem (h : cid ∉ entries.map Prod.fst) :
    entries.lookup cid = none := by
  induction entries with
  | nil => rfl
  | cons entry entries ih =>
    obtain ⟨hne, hnot⟩ := not_or.mp (List.mem_cons.not.mp h)
    rw [lookup_cons_of_ne (Ne.symm hne)]
    exact ih hnot

omit [DecidableEq C] in
theorem mem_iff_lookup (h : (entries.map Prod.fst).Nodup) :
    (cid, container) ∈ entries ↔ entries.lookup cid = some container := by
  induction entries with
  | nil => exact iff_of_false List.not_mem_nil (Option.some_ne_none container ∘ Eq.symm)
  | cons entry entries ih =>
    obtain ⟨hnot, hnodup⟩ := List.nodup_cons.mp h
    rw [List.mem_cons]
    by_cases hfirst : entry.1 = cid
    · rw [lookup_cons_of_eq hfirst, Option.some.injEq]
      have hrest : (cid, container) ∉ entries := fun hmem =>
        hnot (hfirst ▸ List.mem_map_of_mem (f := Prod.fst) hmem)
      rw [or_iff_left hrest]
      constructor
      · intro heq
        rw [← heq]
      · intro hsecond
        rw [← hfirst, ← hsecond]
    · rw [lookup_cons_of_ne hfirst, ← ih hnodup]
      exact or_iff_right fun heq => hfirst (congrArg Prod.fst heq).symm

omit [DecidableEq C] in
theorem lookup_eraseP (h : (entries.map Prod.fst).Nodup) :
    (entries.eraseP (·.1 == cid)).lookup cid' =
      if cid' = cid then none else entries.lookup cid' := by
  induction entries with
  | nil => exact (ite_self none).symm
  | cons entry entries ih =>
    obtain ⟨hnot, hnodup⟩ := List.nodup_cons.mp h
    by_cases hfirst : entry.1 = cid
    · simp only [List.eraseP_cons, beq_iff_eq.mpr hfirst, cond_true]
      split_ifs with hcid
      · rw [hfirst, ← hcid] at hnot
        exact lookup_eq_none_of_not_mem hnot
      · rw [lookup_cons_of_ne fun heq => hcid (heq.symm.trans hfirst)]
    · simp only [List.eraseP_cons, beq_eq_false_iff_ne.mpr hfirst, cond_false]
      by_cases hcid : entry.1 = cid'
      · rw [lookup_cons_of_eq hcid, lookup_cons_of_eq hcid, if_neg (hcid ▸ hfirst)]
      · rw [lookup_cons_of_ne hcid, lookup_cons_of_ne hcid]
        exact ih hnodup

end entries

namespace State

variable {s : State C I} {container : C} {cid cid' : ℕ}

/-- An id is used once, and sixteen of them can be used. -/
structure Keys (s : State C I) : Prop where
  nodup : (s.containerVec.map Prod.fst).Nodup
  le : ∀ cid ∈ s.containerVec.map Prod.fst, cid ≤ 0xF

omit [DecidableEq C] in
theorem Keys.addContainer (h : Keys s) (cid : ℕ) (container : C) :
    Keys (s.addContainer cid container) := by
  rw [State.addContainer]
  split_ifs with hlarge
  · exact h
  constructor
  · change ((putContainer cid container s.containerVec).map Prod.fst).Nodup
    rw [fst_putContainer]
    split_ifs with hmem
    · exact h.nodup
    · exact h.nodup.append (List.nodup_singleton cid) (List.disjoint_singleton.mpr hmem)
  · change ∀ k ∈ (putContainer cid container s.containerVec).map Prod.fst, k ≤ 0xF
    rw [fst_putContainer]
    intro k hk
    split_ifs at hk with hmem
    · exact h.le k hk
    · rcases List.mem_append.mp hk with hk | hk
      · exact h.le k hk
      · rw [List.mem_singleton.mp hk]
        exact Nat.not_lt.mp hlarge

omit [DecidableEq C] in
theorem Keys.closeContainer (h : Keys s) (cid : ℕ) : Keys (s.closeContainer cid) := by
  have hsublist : ((s.closeContainer cid).containerVec.map Prod.fst).Sublist
      (s.containerVec.map Prod.fst) := List.eraseP_sublist.map Prod.fst
  exact ⟨h.nodup.sublist hsublist, fun k hk => h.le k (hsublist.subset hk)⟩

omit [DecidableEq C] in
theorem getContainer_addContainer (hcid : cid ≤ 0xF) :
    (s.addContainer cid container).getContainer cid' =
      if cid' = cid then some container else s.getContainer cid' := by
  rw [addContainer, if_neg (Nat.not_lt.mpr hcid)]
  exact lookup_putContainer s.containerVec

omit [DecidableEq C] in
theorem getContainer_closeContainer (h : Keys s) :
    (s.closeContainer cid).getContainer cid' =
      if cid' = cid then none else s.getContainer cid' :=
  lookup_eraseP h.nodup

omit [DecidableEq C] in
theorem mem_iff_getContainer (h : Keys s) :
    (cid, container) ∈ s.containerVec ↔ s.getContainer cid = some container :=
  mem_iff_lookup h.nodup

/-! ## The windows -/

omit [DecidableEq C] in
theorem windows_send (message : Message C I) : (s.send message).windows =
    Function.update s.windows message.cid (message.change (s.windows message.cid)) := by
  rw [windows, send, List.foldl_append]
  rfl

/-- The loop over the open containers says nothing but messages. -/
theorem foldl_send_eq (entries : List (ℕ × C)) (s : State C I) (container : C)
    (message : ℕ → Message C I) :
    ∃ more, entries.foldl
      (fun s entry => if entry.2 = container then s.send (message entry.1) else s) s =
        { s with sent := s.sent ++ more } := by
  induction entries generalizing s with
  | nil => exact ⟨[], by rw [List.append_nil]; rfl⟩
  | cons entry entries ih =>
    rw [List.foldl_cons]
    split_ifs with hentry
    · obtain ⟨more, hmore⟩ := ih (s.send (message entry.1))
      refine ⟨message entry.1 :: more, hmore.trans ?_⟩
      simp only [send, List.append_assoc, List.singleton_append]
    · exact ih s

theorem windows_foldl_send {entries : List (ℕ × C)} (h : (entries.map Prod.fst).Nodup)
    (s : State C I) {message : ℕ → Message C I} (hcid : ∀ k, (message k).cid = k) (k : ℕ) :
    (entries.foldl
      (fun s entry => if entry.2 = container then s.send (message entry.1) else s) s).windows k =
        if (k, container) ∈ entries then (message k).change (s.windows k) else s.windows k := by
  induction entries generalizing s with
  | nil => rw [if_neg List.not_mem_nil]; rfl
  | cons entry entries ih =>
    obtain ⟨hnot, hnodup⟩ := List.nodup_cons.mp h
    have hfirst (hk : k = entry.1) : (k, container) ∉ entries := fun hmem =>
      hnot (hk ▸ List.mem_map_of_mem (f := Prod.fst) hmem)
    have hmem : (k, container) ∈ entry :: entries ↔ (k, container) = entry ∨
      (k, container) ∈ entries := List.mem_cons
    rw [List.foldl_cons, ih hnodup]
    by_cases hentry : entry.2 = container
    · rw [if_pos hentry, windows_send, hcid]
      by_cases hk : k = entry.1
      · rw [if_neg (hfirst hk), if_pos (hmem.mpr (.inl (by rw [hk, ← hentry]))), hk,
          Function.update_self]
      · rw [Function.update_of_ne hk]
        exact if_congr (hmem.trans (or_iff_right fun heq => hk (congrArg Prod.fst heq))).symm
          rfl rfl
    · rw [if_neg hentry]
      exact if_congr (hmem.trans (or_iff_right fun heq => hentry (congrArg Prod.snd heq).symm)).symm
        rfl rfl

theorem windows_sendForContainer (h : Keys s) (container : C) (message : ℕ → Message C I)
    (hcid : ∀ k, (message k).cid = k) (k : ℕ) :
    (s.sendForContainer container message).windows k =
      if s.getContainer k = some container then (message k).change (s.windows k)
      else s.windows k := by
  rw [sendForContainer, windows_foldl_send h.nodup s hcid]
  exact if_congr (mem_iff_getContainer h) rfl rfl

omit [DecidableEq C] in
theorem windows_congr {s t : State C I} (h : t.sent = s.sent) : t.windows = s.windows := by
  rw [windows, windows, h]

/-- What a loop that sends messages leaves as it is. -/
theorem sendForContainer_frame (s : State C I) (container : C) (message : ℕ → Message C I) :
    (s.sendForContainer container message).containerVec = s.containerVec ∧
      (s.sendForContainer container message).itemlist = s.itemlist := by
  obtain ⟨more, hmore⟩ := foldl_send_eq s.containerVec s container message
  rw [sendForContainer, hmore]
  exact ⟨rfl, rfl⟩

/-! ## What the windows show -/

/-- What a window shows. -/
def shown (s : State C I) (cid : ℕ) : Option (C × List I) :=
  (s.windows cid).map fun window => (window.container, window.items)

/-- What it should show. -/
def contents (s : State C I) (cid : ℕ) : Option (C × List I) :=
  (s.getContainer cid).map fun container => (container, s.itemlist container)

/-- The windows of the client are the open containers, with what is in them. -/
structure Mirrors (s : State C I) : Prop extends Keys s where
  shown_eq : ∀ cid, s.shown cid = s.contents cid

/-- A container is shown as a whole. -/
def Fits (s : State C I) (container : C) : Prop := (s.itemlist container).length ≤ 255

instance (s : State C I) (container : C) : Decidable (Fits s container) :=
  inferInstanceAs (Decidable (_ ≤ 255))

/-- One window at most shows a container. -/
def OpenOnce (s : State C I) (container : C) : Prop :=
  ∀ cid cid', s.getContainer cid = some container → s.getContainer cid' = some container →
    cid = cid'

omit [DecidableEq C] in
theorem Keys.congr {t : State C I} (h : Keys s) (ht : t.containerVec = s.containerVec) :
    Keys t := by
  constructor
  · rw [ht]
    exact h.nodup
  · rw [ht]
    exact h.le

omit [DecidableEq C] in
theorem getContainer_congr {t : State C I} (ht : t.containerVec = s.containerVec) :
    t.getContainer cid = s.getContainer cid := by
  rw [getContainer, getContainer, ht]

omit [DecidableEq C] in
theorem contents_congr {t : State C I} (hvec : t.containerVec = s.containerVec)
    (hitems : t.itemlist = s.itemlist) : t.contents cid = s.contents cid := by
  rw [contents, contents, getContainer_congr hvec, hitems]

/-- The id of a container that is open. -/
theorem getContainer_of_getContainerID (h : Keys s) (hid : s.getContainerID container = some cid) :
    s.getContainer cid = some container := by
  obtain ⟨entry, hfind, rfl⟩ := Option.map_eq_some_iff.mp hid
  have hfound := List.find?_some hfind
  rw [beq_iff_eq] at hfound
  rw [← mem_iff_getContainer h, ← hfound]
  exact List.mem_of_find?_eq_some hfind

omit [DecidableEq C] in
theorem shown_containerMessage (hfits : Fits s container) (window : Option (Window C I)) :
    (((s.containerMessage container cid).change window).map
      fun window => (window.container, window.items)) =
        some (container, s.itemlist container) := by
  rw [containerMessage, Message.change, Option.map_some, List.take_of_length_le hfits]

/-- A container that is sent under all its ids. -/
theorem mirrors_onSendContainer (hkeys : Keys s) (hfits : Fits s container)
    (hshown : ∀ cid, s.getContainer cid ≠ some container → s.shown cid = s.contents cid) :
    Mirrors (s.onSendContainer container) := by
  obtain ⟨hvec, hitems⟩ := sendForContainer_frame s container (s.containerMessage container)
  refine ⟨hkeys.congr hvec, fun cid => (?_ : _ = _).trans (contents_congr hvec hitems).symm⟩
  rw [shown, onSendContainer, windows_sendForContainer hkeys container _ fun _ => rfl]
  split_ifs with hopen
  · rw [shown_containerMessage hfits, contents, hopen]
    rfl
  · exact hshown cid hopen

omit [DecidableEq C] in
theorem sent_addContainer : (s.addContainer cid container).sent = s.sent := by
  rw [addContainer]
  split_ifs <;> rfl

omit [DecidableEq C] in
theorem itemlist_addContainer : (s.addContainer cid container).itemlist = s.itemlist := by
  rw [addContainer]
  split_ifs <;> rfl

omit [DecidableEq C] in
/-- Under every other id the client is shown what it was shown. -/
theorem shown_addContainer : (s.addContainer cid container).shown = s.shown := by
  funext cid'
  rw [shown, shown, windows_congr sent_addContainer]

omit [DecidableEq C] in
theorem contents_addContainer (hcid : cid ≤ 0xF) : (s.addContainer cid container).contents cid' =
    if cid' = cid then some (container, s.itemlist container) else s.contents cid' := by
  rw [contents, getContainer_addContainer hcid, itemlist_addContainer]
  split_ifs <;> rfl

omit [DecidableEq C] in
/-- A container that is sent under one id. -/
theorem Mirrors.sendContainer (h : Keys s) (hfits : Fits s container)
    (hopen : s.getContainer cid = some container)
    (hshown : ∀ cid', cid' ≠ cid → s.shown cid' = s.contents cid') :
    Mirrors (s.sendContainer cid container) := by
  refine ⟨h.congr rfl, fun cid' => ?_⟩
  change (_ : Option (C × List I)) = s.contents cid'
  rw [shown, State.sendContainer, windows_send]
  change Option.map _ (Function.update s.windows cid _ cid') = _
  by_cases hcid : cid' = cid
  · rw [hcid, Function.update_self, shown_containerMessage hfits, contents, hopen]
    rfl
  · rw [Function.update_of_ne hcid]
    exact hshown cid' hcid

/-- The items of a container are changed on both sides. -/
theorem Mirrors.edit (h : Mirrors s) {t : State C I} (hvec : t.containerVec = s.containerVec)
    (edit : List I → List I)
    (hitems : t.itemlist =
      Function.update s.itemlist container (edit (s.itemlist container)))
    (hwindows : ∀ cid, t.windows cid =
      if s.getContainer cid = some container then
        (s.windows cid).map fun w => { w with items := edit w.items }
      else s.windows cid) : Mirrors t := by
  refine ⟨h.toKeys.congr hvec, fun cid => ?_⟩
  have hshown := h.shown_eq cid
  rw [shown, contents] at hshown ⊢
  rw [hwindows, getContainer_congr hvec, hitems]
  split_ifs with hopen
  · rw [hopen, Option.map_some, Option.map_eq_some_iff] at hshown
    obtain ⟨window, hwindow, heq⟩ := hshown
    obtain ⟨hcontainer, hwindowItems⟩ := Prod.mk.inj heq
    rw [hopen, hwindow, Option.map_some, Option.map_some, Option.map_some, Function.update_self,
      hcontainer, hwindowItems]
  · rw [hshown]
    cases hget : s.getContainer cid with
    | none => rfl
    | some other =>
      rw [hget] at hopen
      rw [Option.map_some, Option.map_some,
        Function.update_of_ne fun heq => hopen (congrArg some heq)]

omit [DecidableEq C] in
/-- A window is closed on both sides. -/
theorem Mirrors.close (h : Mirrors s) (cid : ℕ) : Mirrors (s.playerCloseContainer cid) := by
  refine ⟨(h.toKeys.closeContainer cid).congr rfl, fun cid' => ?_⟩
  have hcontents : (s.playerCloseContainer cid).contents cid' =
      if cid' = cid then none else s.contents cid' := by
    change Option.map _ ((s.closeContainer cid).getContainer cid') = _
    rw [getContainer_closeContainer h.toKeys]
    split_ifs <;> rfl
  rw [hcontents, shown, playerCloseContainer, windows_send]
  change Option.map _ (Function.update s.windows cid none cid') = _
  split_ifs with hcid
  · rw [hcid, Function.update_self]
    rfl
  · rw [Function.update_of_ne hcid]
    exact h.shown_eq cid'

/-! ## Using a container -/

/-- Using a container that is not open opens it. -/
theorem Mirrors.useContainer_of_closed (h : Mirrors s) (hfits : Fits s container)
    (hid : s.getContainerID container = none) (cid : ℕ) :
    Mirrors (s.useContainer cid container) := by
  rw [useContainer, hid]
  have hkeys := h.toKeys.addContainer cid container
  apply mirrors_onSendContainer hkeys
  · rw [Fits, itemlist_addContainer]
    exact hfits
  · intro cid' hne
    rw [shown_addContainer, h.shown_eq]
    by_cases hcid : cid ≤ 0xF
    · rw [getContainer_addContainer hcid] at hne
      rw [contents_addContainer hcid, if_neg]
      intro heq
      exact hne (if_pos heq)
    · rw [addContainer, if_pos (Nat.not_le.mp hcid)]

/-- Using a container that is open closes all its windows, and the server closes one. -/
theorem Mirrors.useContainer_of_open (h : Mirrors s) {oldId : ℕ}
    (hid : s.getContainerID container = some oldId) (cid : ℕ) :
    Mirrors (s.useContainer cid container) ↔ OpenOnce s container := by
  have hopen := getContainer_of_getContainerID h.toKeys hid
  obtain ⟨hvec, hitems⟩ : (s.onCloseContainer container).containerVec = s.containerVec ∧
      (s.onCloseContainer container).itemlist = s.itemlist :=
    sendForContainer_frame s container .closeContainer
  have hclosed : Keys (s.onCloseContainer container) := h.toKeys.congr hvec
  have hkeys : Keys (s.useContainer cid container) := by
    rw [useContainer, hid]
    exact hclosed.closeContainer oldId
  have hshown (k : ℕ) : (s.useContainer cid container).shown k =
      if s.getContainer k = some container then none else s.shown k := by
    rw [useContainer, hid, shown]
    change Option.map _ ((s.onCloseContainer container).windows k) = _
    rw [onCloseContainer, windows_sendForContainer h.toKeys container _ fun _ => rfl]
    split_ifs <;> rfl
  have hcontents (k : ℕ) : (s.useContainer cid container).contents k =
      if k = oldId then none else s.contents k := by
    rw [useContainer, hid, contents]
    change Option.map (fun c => (c, (s.onCloseContainer container).itemlist c))
      (((s.onCloseContainer container).closeContainer oldId).getContainer k) = _
    rw [getContainer_closeContainer hclosed, getContainer_congr hvec, hitems]
    split_ifs <;> rfl
  constructor
  · intro hmirrors k k' hk hk'
    have hone (j : ℕ) (hj : s.getContainer j = some container) : j = oldId := by
      by_contra hne
      have heq := hmirrors.shown_eq j
      rw [hshown, hcontents, if_pos hj, if_neg hne, contents, hj] at heq
      cases heq
    rw [hone k hk, hone k' hk']
  · intro honce
    refine ⟨hkeys, fun k => ?_⟩
    rw [hshown, hcontents]
    by_cases hk : k = oldId
    · rw [if_pos hk, if_pos (hk ▸ hopen)]
    · rw [if_neg hk, if_neg fun hopenk => hk (honce k oldId hopenk hopen)]
      exact h.shown_eq k

/-! ## The other steps -/

theorem Mirrors.addThing (h : Mirrors s) (container : C) (item : I) :
    Mirrors (s.addThing container item true) := by
  have hkeys : Keys (s.setItems container (item :: s.itemlist container)) := h.toKeys.congr rfl
  obtain ⟨hvec, hitems⟩ := sendForContainer_frame
    (s.setItems container (item :: s.itemlist container)) container (.addContainerItem · item)
  exact h.edit hvec (item :: ·) hitems
    (windows_sendForContainer hkeys container (.addContainerItem · item) fun _ => rfl)

theorem Mirrors.updateThing (h : Mirrors s) (container : C) {index : ℕ} (hindex : index < 256)
    (item : I) : Mirrors (s.updateThing container index item true) := by
  have hslot : index % 256 = index := Nat.mod_eq_of_lt hindex
  have hkeys : Keys (s.setItems container ((s.itemlist container).set index item)) :=
    h.toKeys.congr rfl
  obtain ⟨hvec, hitems⟩ := sendForContainer_frame
    (s.setItems container ((s.itemlist container).set index item)) container
    (.updateContainerItem · (index % 256) item)
  refine h.edit hvec (·.set index item) hitems fun cid => ?_
  have hwindows := windows_sendForContainer hkeys container
    (.updateContainerItem · (index % 256) item) (fun _ => rfl) cid
  rw [State.updateThing, if_pos rfl, State.sendUpdateContainerItem, hwindows, hslot]
  rfl

theorem Mirrors.removeThing (h : Mirrors s) (container : C) {index : ℕ} (hindex : index < 256) :
    Mirrors (s.removeThing container index true) := by
  have hslot : index % 256 = index := Nat.mod_eq_of_lt hindex
  obtain ⟨hvec, hitems⟩ := sendForContainer_frame s container
    (.removeContainerItem · (index % 256))
  refine h.edit hvec (·.eraseIdx index) (congrArg₂ (Function.update · container ·) hitems
    (congrArg (fun itemlist => (itemlist container).eraseIdx index) hitems)) fun cid => ?_
  have hwindows := windows_sendForContainer h.toKeys container
    (.removeContainerItem · (index % 256)) (fun _ => rfl) cid
  rw [State.removeThing, if_pos rfl]
  refine Eq.trans ?_ (hwindows.trans ?_)
  · rfl
  · rw [hslot]
    rfl

omit [DecidableEq C] in
theorem Mirrors.playerMoveUpContainer (h : Mirrors s)
    (hfits : ∀ container parent, s.getContainer cid = some container →
      s.parent container = some parent → Fits s parent) :
    Mirrors (s.playerMoveUpContainer cid) := by
  rw [State.playerMoveUpContainer]
  cases hget : s.getContainer cid with
  | none => exact h
  | some container =>
    dsimp only
    cases hparent : s.parent container with
    | none => exact h
    | some parent =>
      have hmem : (cid, container) ∈ s.containerVec := (mem_iff_getContainer h.toKeys).mpr hget
      have hcid : cid ≤ 0xF := h.le cid (List.mem_map_of_mem (f := Prod.fst) hmem)
      apply Mirrors.sendContainer (h.toKeys.addContainer cid parent)
      · rw [Fits, itemlist_addContainer]
        exact hfits container parent hget hparent
      · rw [getContainer_addContainer hcid, if_pos rfl]
      · intro cid' hne
        rw [shown_addContainer, contents_addContainer hcid, if_neg hne]
        exact h.shown_eq cid'

omit [DecidableEq C] in
theorem Mirrors.playerUpdateContainer (h : Mirrors s)
    (hfits : ∀ container, s.getContainer cid = some container → Fits s container) :
    Mirrors (s.playerUpdateContainer cid) := by
  rw [State.playerUpdateContainer]
  cases hget : s.getContainer cid with
  | none => exact h
  | some container =>
    exact .sendContainer h.toKeys (hfits container hget) hget fun cid' _ => h.shown_eq cid'

omit [DecidableEq C] in
theorem Mirrors.foldl_close (h : Mirrors s) (ids : List ℕ) :
    Mirrors (ids.foldl (fun s cid => (s.closeContainer cid).send (.closeContainer cid)) s) := by
  induction ids generalizing s with
  | nil => exact h
  | cons cid ids ih => exact ih (h.close cid)

theorem Mirrors.autoCloseContainers (h : Mirrors s) {rounds : ℕ} {t : State C I}
    (ht : s.autoCloseContainers container rounds = some t) : Mirrors t := by
  obtain ⟨ids, -, rfl⟩ := Option.map_eq_some_iff.mp ht
  exact h.foldl_close ids

theorem Mirrors.closeFarContainers (h : Mirrors s) {isInRange : C → Bool} {rounds : ℕ}
    {t : State C I} (ht : s.closeFarContainers isInRange rounds = some t) : Mirrors t := by
  rw [State.closeFarContainers] at ht
  generalize (s.containerVec.map Prod.snd).filter (!isInRange ·) = containers at ht
  induction containers generalizing s with
  | nil =>
    cases ht
    exact h
  | cons container containers ih =>
    rw [List.foldlM_cons] at ht
    obtain ⟨u, hu, ht⟩ := Option.bind_eq_some_iff.mp ht
    exact ih (h.autoCloseContainers hu) ht

end State

/-! ## All runs -/

open State

/-- The steps after which the windows are right if they were before: a container that is used is
not open twice, what is sent fits into a message, a slot fits into a byte, the player is among those
who are told, and nothing is open when a client connects. -/
def Safe (s : State C I) : Action C I → Prop
  | .useContainer _ container => OpenOnce s container ∧ Fits s container
  | .moveUpContainer cid =>
    ∀ container parent, s.getContainer cid = some container → s.parent container = some parent →
      Fits s parent
  | .updateContainer cid => ∀ container, s.getContainer cid = some container → Fits s container
  | .addThing _ _ isSpectator => isSpectator = true
  | .updateThing _ index _ isSpectator => isSpectator = true ∧ index < 256
  | .removeThing _ index isSpectator => isSpectator = true ∧ index < 256
  | .sendContainer container => Fits s container
  | .connect => s.containerVec = []
  | _ => True

variable {s t : State C I}

theorem mirrors_step (h : Mirrors s) {a : Action C I} (hsafe : Safe s a) (ht : step s a = some t) :
    Mirrors t := by
  cases a with
  | useContainer openContainerId container =>
    cases ht
    cases hid : s.getContainerID container with
    | none => exact h.useContainer_of_closed hsafe.2 hid openContainerId
    | some oldId => exact (h.useContainer_of_open hid openContainerId).mpr hsafe.1
  | closeContainer cid =>
    cases ht
    exact h.close cid
  | moveUpContainer cid =>
    cases ht
    exact h.playerMoveUpContainer hsafe
  | updateContainer cid =>
    cases ht
    exact h.playerUpdateContainer hsafe
  | addThing container item isSpectator =>
    obtain rfl : isSpectator = true := hsafe
    cases ht
    exact h.addThing container item
  | updateThing container index item isSpectator =>
    obtain ⟨rfl, hindex⟩ := hsafe
    cases ht
    exact h.updateThing container hindex item
  | removeThing container index isSpectator =>
    obtain ⟨rfl, hindex⟩ := hsafe
    cases ht
    exact h.removeThing container hindex
  | moveThing container parent isRemoved =>
    cases ht
    exact ⟨h.toKeys.congr rfl, h.shown_eq⟩
  | sendContainer container =>
    cases ht
    exact mirrors_onSendContainer h.toKeys hsafe fun cid _ => h.shown_eq cid
  | autoCloseContainers container rounds => exact h.autoCloseContainers ht
  | closeFarContainers isInRange rounds => exact h.closeFarContainers ht
  | connect =>
    cases ht
    refine ⟨h.toKeys.congr rfl, fun cid => ?_⟩
    have hclosed : s.getContainer cid = none := by
      rw [getContainer, show s.containerVec = [] from hsafe]
      rfl
    exact (congrArg (Option.map fun container => (container, s.itemlist container)) hclosed).symm

omit [DecidableEq C] in
theorem mirrors_init (h : init s) : Mirrors s := by
  obtain ⟨containerVec, parent, isRemoved, itemlist, sent⟩ := s
  obtain ⟨rfl, rfl⟩ : containerVec = [] ∧ sent = [] := h
  exact ⟨⟨List.nodup_nil, fun _ hk => absurd hk List.not_mem_nil⟩, fun _ => rfl⟩

theorem reachable_mirrors (h : (system.restrict Safe).Reachable s) : Mirrors s := by
  refine h.invariant Mirrors (fun _ => mirrors_init) ?_
  rintro s a t hmirrors ⟨hsafe, ht⟩
  exact mirrors_step hmirrors hsafe ht

/-- In every run of such steps the client has the windows that the server has, and each shows what
is in its container. -/
theorem shown_eq_contents (h : (system.restrict Safe).Reachable s) (cid : ℕ) :
    s.shown cid = s.contents cid :=
  (reachable_mirrors h).shown_eq cid

/-! ### A bag in a bag -/

/-- Bag 1 is in bag 0, and nothing is open. -/
def bags : State (Fin 2) ℕ where
  containerVec := []
  parent c := if c = 1 then some 0 else none
  isRemoved _ := false
  itemlist c := if c = 0 then [5, 7] else [9]
  sent := []

/-- Both bags are opened, and then the window of the inner one moves up. -/
def openBoth : List (Action (Fin 2) ℕ) :=
  [.useContainer 0 0, .useContainer 1 1, .moveUpContainer 1]

/-- The state after that. -/
def twice : State (Fin 2) ℕ := (runActions step bags openBoth).getD bags

theorem reachable_twice : (system.restrict Safe).Reachable twice := by
  have hinit : (system.restrict Safe).Reachable bags := .init ⟨rfl, rfl⟩
  have hclosed (s : State (Fin 2) ℕ) (c : Fin 2) (h : ∀ cid, s.getContainer cid ≠ some c) :
      OpenOnce s c := fun cid _ hopen _ => absurd hopen (h cid)
  have hfirst : Safe bags (.useContainer 0 0) :=
    ⟨hclosed bags 0 fun _ hopen => (Option.some_ne_none _ hopen.symm).elim, by decide⟩
  have hsecond : Safe (bags.useContainer 0 0) (.useContainer 1 1) := by
    refine ⟨hclosed _ 1 fun cid hopen => ?_, by decide⟩
    have hmem : (cid, (1 : Fin 2)) ∈ [(0, (0 : Fin 2))] := (mem_iff_lookup (by decide)).mpr hopen
    cases (Prod.mk.inj (List.mem_singleton.mp hmem)).2
  have hthird : Safe ((bags.useContainer 0 0).useContainer 1 1) (.moveUpContainer 1) := by
    intro container parent hopen hparent
    revert container parent
    decide
  exact reachable_restrict_step (reachable_restrict_step (reachable_restrict_step hinit _ hfirst rfl)
    _ hsecond rfl) _ hthird rfl

theorem shown_eq_contents_twice :
    twice.shown 1 = some (0, [5, 7]) ∧ twice.shown 1 = twice.contents 1 :=
  ⟨rfl, shown_eq_contents reachable_twice 1⟩

/-- Using a container that is open keeps the windows right exactly if it is open once. -/
theorem mirrors_useContainer_iff (h : (system.restrict Safe).Reachable s) {container : C}
    {oldId : ℕ} (hid : s.getContainerID container = some oldId) (cid : ℕ) :
    Mirrors (s.useContainer cid container) ↔ OpenOnce s container :=
  (reachable_mirrors h).useContainer_of_open hid cid

/-- The outer bag is used while two windows show it: the server keeps one of them open. -/
theorem mirrors_useContainer_iff_twice :
    ¬ Mirrors (twice.useContainer 0 0) ∧ (twice.useContainer 0 0).shown 1 = none ∧
      (twice.useContainer 0 0).contents 1 = some (0, [5, 7]) := by
  refine ⟨fun hmirrors => ?_, rfl, rfl⟩
  have hid : twice.getContainerID 0 = some 0 := rfl
  have honce := (mirrors_useContainer_iff reachable_twice hid 0).mp hmirrors
  cases honce 0 1 rfl rfl

/-! ## Walking away -/

omit [DecidableEq C] in
theorem mem_containerVec_foldl_close (ids : List ℕ) (hkeys : Keys s) {cid : ℕ} {c : C} :
    (cid, c) ∈ (ids.foldl
      (fun s cid => (s.closeContainer cid).send (.closeContainer cid)) s).containerVec ↔
        (cid, c) ∈ s.containerVec ∧ cid ∉ ids := by
  induction ids generalizing s with
  | nil => exact (and_iff_left List.not_mem_nil).symm
  | cons id ids ih =>
    have hclose : Keys ((s.closeContainer id).send (.closeContainer id)) :=
      (hkeys.closeContainer id).congr rfl
    have hmem : (cid, c) ∈ ((s.closeContainer id).send (.closeContainer id)).containerVec ↔
        (cid, c) ∈ s.containerVec ∧ cid ≠ id := by
      rw [mem_iff_getContainer hclose, mem_iff_getContainer hkeys]
      change (s.closeContainer id).getContainer cid = some c ↔ _
      rw [getContainer_closeContainer hkeys]
      by_cases hid : cid = id
      · rw [if_pos hid]
        exact iff_of_false (Option.some_ne_none c ∘ Eq.symm) fun h => h.2 hid
      · rw [if_neg hid]
        exact (and_iff_left hid).symm
    rw [List.foldl_cons, ih hclose, hmem, List.mem_cons, not_or, and_assoc]

/-- The window of a container is on the list when the container itself is to be closed. -/
theorem mem_closeList {ids : List ℕ} {rounds : ℕ} {container : C}
    (hids : s.closeList container rounds = some ids) {cid : ℕ}
    (hmem : (cid, container) ∈ s.containerVec) : cid ∈ ids := by
  rw [closeList] at hids
  generalize s.containerVec = entries at hids hmem
  induction entries generalizing ids with
  | nil => cases hmem
  | cons entry entries ih =>
    rw [List.foldrM_cons] at hids
    obtain ⟨rest, hrest, hids⟩ := Option.bind_eq_some_iff.mp hids
    obtain ⟨closes, hcloses, rfl⟩ := Option.map_eq_some_iff.mp hids
    rcases List.mem_cons.mp hmem with rfl | hmem
    · cases rounds with
      | zero => cases hcloses
      | succ rounds =>
        rw [closesWith, decide_eq_true rfl, Bool.or_true, if_pos rfl] at hcloses
        cases hcloses
        exact List.mem_cons_self
    · have htail := ih hrest hmem
      split_ifs
      · exact List.mem_cons_of_mem _ htail
      · exact htail

theorem autoCloseContainers_spec {rounds : ℕ} {container : C} (hkeys : Keys s)
    (ht : s.autoCloseContainers container rounds = some t) :
    Keys t ∧ ∀ cid c, (cid, c) ∈ t.containerVec → (cid, c) ∈ s.containerVec ∧ c ≠ container := by
  obtain ⟨ids, hids, rfl⟩ := Option.map_eq_some_iff.mp ht
  have hkeysFold (ids : List ℕ) : ∀ {s : State C I}, Keys s → Keys (ids.foldl
      (fun s cid => (s.closeContainer cid).send (.closeContainer cid)) s) := by
    induction ids with
    | nil => exact fun h => h
    | cons id ids ih => exact fun h => ih ((h.closeContainer id).congr rfl)
  refine ⟨hkeysFold ids hkeys, fun cid c hmem => ?_⟩
  obtain ⟨hmem, hnot⟩ := (mem_containerVec_foldl_close ids hkeys).mp hmem
  refine ⟨hmem, ?_⟩
  rintro rfl
  exact hnot (mem_closeList hids hmem)

/-- A player that has walked has only containers open that are next to it. -/
theorem closeFarContainers_inRange {isInRange : C → Bool} {rounds : ℕ} (hkeys : Keys s)
    (ht : s.closeFarContainers isInRange rounds = some t) {cid : ℕ} {c : C}
    (hmem : (cid, c) ∈ t.containerVec) : isInRange c = true := by
  have hall (far : List C) {s : State C I} (hkeys : Keys s)
      (ht : far.foldlM (fun s container => s.autoCloseContainers container rounds) s = some t) :
      (cid, c) ∈ s.containerVec ∧ c ∉ far := by
    induction far generalizing s with
    | nil =>
      cases ht
      exact ⟨hmem, List.not_mem_nil⟩
    | cons container far ih =>
      rw [List.foldlM_cons] at ht
      obtain ⟨u, hu, ht⟩ := Option.bind_eq_some_iff.mp ht
      obtain ⟨hkeysu, hsub⟩ := autoCloseContainers_spec hkeys hu
      obtain ⟨hmemu, hnot⟩ := ih hkeysu ht
      obtain ⟨hmems, hne⟩ := hsub cid c hmemu
      exact ⟨hmems, fun h => (List.mem_cons.mp h).elim hne hnot⟩
  obtain ⟨hmems, hnot⟩ := hall _ hkeys ht
  by_contra hfar
  apply hnot
  rw [List.mem_filter, Bool.eq_false_iff.mpr hfar]
  exact ⟨List.mem_map_of_mem (f := Prod.snd) hmems, rfl⟩

/-- Every window that the client still has after a step shows a container that is next to it. -/
theorem shown_inRange (h : (system.restrict Safe).Reachable s) {isInRange : C → Bool} {rounds : ℕ}
    (ht : s.closeFarContainers isInRange rounds = some t) {cid : ℕ} {c : C} {items : List I}
    (hshown : t.shown cid = some (c, items)) : isInRange c = true := by
  have hmirrors := reachable_mirrors h
  have ht' := hmirrors.closeFarContainers ht
  rw [ht'.shown_eq, contents] at hshown
  obtain ⟨container, hopen, heq⟩ := Option.map_eq_some_iff.mp hshown
  cases heq
  exact closeFarContainers_inRange hmirrors.toKeys ht ((mem_iff_getContainer ht'.toKeys).mpr hopen)

theorem shown_inRange_twice : ∃ t, twice.closeFarContainers (· = 0) 3 = some t ∧
    t.shown 1 = some (0, [5, 7]) ∧ decide ((0 : Fin 2) = 0) = true := by
  obtain ⟨t, ht⟩ : ∃ t, twice.closeFarContainers (· = 0) 3 = some t := ⟨_, rfl⟩
  have hshown : t.shown 1 = some (0, [5, 7]) := by
    cases ht
    rfl
  exact ⟨t, ht, hshown, shown_inRange reachable_twice ht hshown⟩

end TyanoCore.OpenContainers
