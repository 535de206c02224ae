import TyanoCore.CachedReading

/-!
# The property buffer

The places of `m_buffer` that `getProps` writes and looks at, and when they are all inside the buffer.
The buffer grows by 1024 bytes at most in a call, whatever the size of the node.
-/

namespace TyanoCore

open FileLoader

variable {σ : Type}

/-! ## The places -/

/-- What a file is read with, and how many bytes `readBytes` writes into the buffer, also when it
fails. -/
structure FileAccess (σ : Type) where
  reader : FileReader σ
  written : ℕ → ℕ → σ → ℕ

def FileAccess.plain (file : List UInt8) : FileAccess ℕ where
  reader := .plain file
  written size pos _ :=
    if 2 ^ 31 ≤ pos then 0
    else
      let wanted := if size < 2 ^ 31 then size else size + (2 ^ 64 - 2 ^ 32)
      ((file.drop pos).take wanted).length

/-- The bytes that the rounds of `readBlocks` copy. -/
def FileCache.blocksWritten (file : List UInt8) (cacheSize : ℕ) : ℕ → ℕ → ℕ → FileCache → ℕ
  | 0, _, _, _ => 0
  | n + 1, remain, pos, c =>
    match getCacheBlock file cacheSize c pos with
    | (none, _) => 0
    | (some i, c) =>
      let c := c.seekIn i pos
      let reading := min remain (uint32Sub (c.block i).data.length c.offset)
      let c := { c with offset := (c.offset + reading) % 2 ^ 32 }
      if remain - reading = 0 then reading
      else reading +
        blocksWritten file cacheSize n (remain - reading) ((pos + reading) % 2 ^ 32) c

def FileAccess.cached (file : List UInt8) (cacheSize : ℕ) : FileAccess FileCache where
  reader := .cached file cacheSize
  written size pos c := FileCache.blocksWritten file cacheSize (size + 1) size pos c

namespace FileLoader

/-- The places that the loop of `unescape` looks at and writes. -/
def unescapePlaces (propsSize : ℕ) : ℕ → List UInt8 → ℕ → ℕ → Bool → List ℕ
  | 0, _, _, _, _ => []
  | n + 1, buffer, i, j, escaped =>
    if i < propsSize then
      if buffer.getD i 0 = escapeChar then
        i :: (i + 1) :: j :: unescapePlaces propsSize n (buffer.set j (buffer.getD (i + 1) 0))
          (i + 2) (j + 1) true
      else if escaped then
        i :: j :: unescapePlaces propsSize n (buffer.set j (buffer.getD i 0)) (i + 1) (j + 1) true
      else i :: unescapePlaces propsSize n buffer (i + 1) (j + 1) false
    else []

/-- `m_buffer_size` after a call. -/
def grownSize (size propsSize : ℕ) : ℕ := if size ≤ propsSize then size + 1024 else size

/-- The places of `m_buffer` in a call of `getProps`. -/
def getPropsPlaces (f : FileAccess σ) (l : Loader σ) (start propsSize : ℕ) : List ℕ :=
  let buffer :=
    if l.buffer.length ≤ propsSize then List.replicate (l.buffer.length + 1024) 0 else l.buffer
  let pos := (start + 2) % 2 ^ 32
  List.range (f.written propsSize pos l.reader) ++
    match (f.reader.readBytes propsSize pos l.reader).1 with
    | .read bytes => unescapePlaces propsSize propsSize (bytes ++ buffer.drop bytes.length) 0 0 false
    | .failed => []
    | .endless => []

/-- All places of a call are inside the buffer. -/
def InBounds (f : FileAccess σ) (l : Loader σ) (start propsSize : ℕ) : Prop :=
  ∀ i ∈ getPropsPlaces f l start propsSize, i < grownSize l.buffer.length propsSize

/-- The same for calls one after the other. -/
def AllInBounds (f : FileAccess σ) : Loader σ → List (ℕ × ℕ) → Prop
  | _, [] => True
  | l, (start, propsSize) :: requests =>
    InBounds f l start propsSize ∧
      AllInBounds f (getProps f.reader l start propsSize).2 requests

/-! ## The size of the buffer -/

theorem unescape_length (propsSize n : ℕ) (buffer : List UInt8) (i j : ℕ) (escaped : Bool) :
    (unescape propsSize n buffer i j escaped).1.length = buffer.length := by
  induction n generalizing buffer i j escaped with
  | zero => rfl
  | succ n ih =>
    rw [unescape]
    split
    · split
      · rw [ih, List.length_set]
      · split
        · rw [ih, List.length_set]
        · exact ih buffer (i + 1) (j + 1) false
    · rfl

/-- A call leaves a buffer of the size that it has chosen. -/
theorem getProps_size (r : FileReader σ) (l : Loader σ) (start propsSize : ℕ) :
    (getProps r l start propsSize).2.buffer.length = grownSize l.buffer.length propsSize := by
  have hgrown : (if l.buffer.length ≤ propsSize then
      List.replicate (l.buffer.length + 1024) (0 : UInt8) else l.buffer).length =
        grownSize l.buffer.length propsSize := by
    rw [grownSize]
    split
    · exact List.length_replicate
    · rfl
  rw [← hgrown, getProps]
  generalize (if l.buffer.length ≤ propsSize then _ else _) = buffer
  dsimp only
  split
  · next bytes s _ =>
    split
    · rfl
    · next hle =>
      have hlength : (bytes ++ buffer.drop bytes.length).length = buffer.length := by
        rw [List.length_append, List.length_drop]
        omega
      exact (unescape_length ..).trans hlength
  · rfl
  · rfl

/-! ## The places of the loop -/

/-- The loop looks at one place behind the properties at most. -/
theorem unescapePlaces_le {propsSize n : ℕ} {buffer : List UInt8} {i j : ℕ} {escaped : Bool}
    (hj : j ≤ i) : ∀ k ∈ unescapePlaces propsSize n buffer i j escaped, k ≤ propsSize := by
  induction n generalizing buffer i j escaped with
  | zero => exact fun k hk => absurd hk List.not_mem_nil
  | succ n ih =>
    intro k hk
    rw [unescapePlaces] at hk
    split at hk
    · split at hk
      · rcases List.mem_cons.mp hk with rfl | hk
        · omega
        rcases List.mem_cons.mp hk with rfl | hk
        · omega
        rcases List.mem_cons.mp hk with rfl | hk
        · omega
        exact ih (by omega) k hk
      · split at hk
        · rcases List.mem_cons.mp hk with rfl | hk
          · omega
          rcases List.mem_cons.mp hk with rfl | hk
          · omega
          exact ih (by omega) k hk
        · rcases List.mem_cons.mp hk with rfl | hk
          · omega
          exact ih (by omega) k hk
    · exact absurd hk List.not_mem_nil

/-- Behind properties with no escape left open it looks at none. -/
theorem unescapePlaces_lt {propsSize n : ℕ} {raw tail buffer : List UInt8} {i j : ℕ}
    {escaped : Bool} (hraw : IsProps raw) (hsize : i + raw.length = propsSize)
    (hdrop : buffer.drop i = raw ++ tail) (hj : j ≤ i) :
    ∀ k ∈ unescapePlaces propsSize n buffer i j escaped, k < propsSize := by
  induction n generalizing raw buffer i j escaped with
  | zero => exact fun k hk => absurd hk List.not_mem_nil
  | succ n ih =>
    intro k hk
    rw [unescapePlaces] at hk
    have hget (b : UInt8) (w : List UInt8) (hw : raw = b :: w) : buffer.getD i 0 = b := by
      rw [List.getD_eq_getElem?_getD, ← List.head?_drop, hdrop, hw]
      rfl
    cases hraw with
    | nil =>
      rw [List.length_nil] at hsize
      rw [if_neg (by omega)] at hk
      exact absurd hk List.not_mem_nil
    | @plain b w hescape _ _ hw =>
      rw [List.length_cons] at hsize
      have hrest : buffer.drop (i + 1) = w ++ tail := by
        rw [← List.drop_drop, hdrop]
        rfl
      rw [if_pos (by omega), hget b w rfl, if_neg hescape] at hk
      split at hk
      · rcases List.mem_cons.mp hk with rfl | hk
        · omega
        rcases List.mem_cons.mp hk with rfl | hk
        · omega
        refine ih hw (by omega) ?_ (by omega) k hk
        rw [List.drop_set_of_lt (by omega), hrest]
      · rcases List.mem_cons.mp hk with rfl | hk
        · omega
        exact ih hw (by omega) hrest (by omega) k hk
    | @escaped b w hw =>
      rw [List.length_cons, List.length_cons] at hsize
      have hrest : buffer.drop (i + 2) = w ++ tail := by
        rw [← List.drop_drop, hdrop]
        rfl
      rw [if_pos (by omega), hget escapeChar (b :: w) rfl, if_pos rfl] at hk
      rcases List.mem_cons.mp hk with rfl | hk
      · omega
      rcases List.mem_cons.mp hk with rfl | hk
      · omega
      rcases List.mem_cons.mp hk with rfl | hk
      · omega
      refine ih hw (by omega) ?_ (by omega) k hk
      rw [List.drop_set_of_lt (by omega), hrest]

end FileLoader

/-! ## The bytes that are read -/

/-- What the bounds need of the way a file is read: no more bytes are written than asked for, all of
them when the call succeeds, and inside a file with positions below 2 ^ 31 it succeeds. -/
structure FileAccess.Sound (f : FileAccess σ) (file : List UInt8) (inv : σ → Prop) : Prop where
  written_le : ∀ size pos s, size < 2 ^ 31 → f.written size pos s ≤ size
  written_eq : ∀ size pos s bytes, (f.reader.readBytes size pos s).1 = .read bytes →
    f.written size pos s = size
  reads : file.length < 2 ^ 31 → ∀ size pos s, inv s → pos + size ≤ file.length →
    (f.reader.readBytes size pos s).1 = .read ((file.drop pos).take size) ∧
      inv (f.reader.readBytes size pos s).2

theorem FileAccess.plain_sound (file : List UInt8) :
    (FileAccess.plain file).Sound file (fun _ => True) where
  written_le size pos s hsize := by
    simp only [FileAccess.plain, if_pos hsize]
    split
    · exact Nat.zero_le size
    · exact List.length_take_le _ _
  written_eq size pos s bytes hread := by
    simp only [FileAccess.plain, FileReader.plain] at hread ⊢
    split
    · next hpos =>
      rw [if_pos hpos] at hread
      cases hread
    · next hpos =>
      rw [if_neg hpos] at hread
      dsimp only at hread
      by_contra hlength
      rw [if_neg hlength] at hread
      cases hread
  reads hlen size pos s _ hpos := by
    have hempty : FileCache.Holds file 1 {} := fun i hi => by cases hi
    exact ⟨(readBytes_alike Nat.one_pos (by decide) hlen hempty hpos s).1, trivial⟩

section Cache

variable {file : List UInt8} {cacheSize : ℕ}

theorem FileCache.blocksWritten_le (n remain pos : ℕ) (c : FileCache) :
    FileCache.blocksWritten file cacheSize n remain pos c ≤ remain := by
  induction n generalizing remain pos c with
  | zero => exact Nat.zero_le remain
  | succ n ih =>
    rw [blocksWritten]
    split
    · exact Nat.zero_le remain
    · next i c' _ =>
      dsimp only
      generalize hreading : min remain _ = reading
      have hle : reading ≤ remain := hreading ▸ Nat.min_le_left _ _
      split
      · exact hle
      · calc
          reading + blocksWritten file cacheSize n (remain - reading) _ _
              ≤ reading + (remain - reading) := Nat.add_le_add_left (ih _ _ _) reading
          _ = remain := Nat.add_sub_of_le hle

theorem FileCache.blocksWritten_eq {n remain pos : ℕ} {c : FileCache} {buffer bytes : List UInt8}
    (h : (FileCache.readBlocks file cacheSize n buffer remain pos c).1 = .read bytes) :
    FileCache.blocksWritten file cacheSize n remain pos c = remain := by
  induction n generalizing remain pos c buffer with
  | zero => cases h
  | succ n ih =>
    rw [readBlocks] at h
    rw [blocksWritten]
    cases hget : getCacheBlock file cacheSize c pos with
    | mk found c' =>
      rw [hget] at h
      cases found with
      | none => cases h
      | some i =>
        dsimp only at h ⊢
        generalize hreading : min remain _ = reading at h ⊢
        have hle : reading ≤ remain := hreading ▸ Nat.min_le_left _ _
        split at h
        · next hdone =>
          rw [if_pos hdone]
          omega
        · next hmore =>
          rw [if_neg hmore, ih h]
          exact Nat.add_sub_of_le hle

theorem FileAccess.cached_sound (hsize : 0 < cacheSize) (hsize' : cacheSize ≤ 2 ^ 32) :
    (FileAccess.cached file cacheSize).Sound file (FileCache.Holds file cacheSize) where
  written_le size pos c _ := FileCache.blocksWritten_le (size + 1) size pos c
  written_eq _ _ _ _ hread := FileCache.blocksWritten_eq hread
  reads hlen _ _ _ hc hpos := (readBytes_alike hsize hsize' hlen hc hpos 0).2

end Cache

namespace FileLoader

section Calls

variable {f : FileAccess σ} {file : List UInt8} {inv : σ → Prop} (hf : f.Sound file inv)

include hf

/-- A call for a node that the buffer holds when it has grown, with a byte to spare. -/
theorem inBounds_of_lt {l : Loader σ} {start propsSize : ℕ} (hsmall : propsSize < 2 ^ 31)
    (hfits : propsSize < l.buffer.length + 1024) : InBounds f l start propsSize := by
  have hgrown : propsSize < grownSize l.buffer.length propsSize := by
    rw [grownSize]
    split <;> omega
  intro k hk
  rw [getPropsPlaces, List.mem_append] at hk
  have hle : k ≤ propsSize := by
    cases hk with
    | inl hk =>
      have hwritten := hf.written_le propsSize ((start + 2) % 2 ^ 32) l.reader hsmall
      exact (List.mem_range.mp hk).le.trans hwritten
    | inr hk =>
      split at hk
      · exact unescapePlaces_le (Nat.le_refl 0) k hk
      · exact absurd hk List.not_mem_nil
      · exact absurd hk List.not_mem_nil
  exact Nat.lt_of_le_of_lt hle hgrown

/-- A call for properties that are in the file. -/
theorem inBounds_iff (hlen : file.length < 2 ^ 31) {l : Loader σ} (hl : inv l.reader)
    {start : ℕ} {props tail : List UInt8} (hfile : file.drop (start + 2) = props ++ tail)
    (hprops : IsProps props) (hinside : start + 2 + props.length ≤ file.length) :
    InBounds f l start props.length ↔ props.length ≤ l.buffer.length + 1024 := by
  have hpos : (start + 2) % 2 ^ 32 = start + 2 := Nat.mod_eq_of_lt (by omega)
  obtain ⟨hread, -⟩ := hf.reads hlen props.length (start + 2) l.reader hl hinside
  rw [hfile, List.take_left] at hread
  have hwritten := hf.written_eq _ _ _ _ hread
  rw [InBounds, getPropsPlaces]
  rw [hpos, hread, hwritten]
  dsimp only
  constructor
  · intro h
    by_contra hmore
    have hlast := h (props.length - 1)
      (List.mem_append_left _ (List.mem_range.mpr (by omega)))
    rw [grownSize, if_pos (by omega)] at hlast
    omega
  · intro hfits k hk
    have hlt : k < props.length := by
      cases List.mem_append.mp hk with
      | inl hk => exact List.mem_range.mp hk
      | inr hk => exact unescapePlaces_lt hprops (Nat.zero_add _) rfl (Nat.le_refl 0) k hk
    rw [grownSize]
    split <;> omega

end Calls

/-! ## Sequences of calls -/

/-- What holds of the buffer size before each call and the size of its node. -/
def AllCalls (P : ℕ → ℕ → Prop) : ℕ → List (ℕ × ℕ) → Prop
  | _, [] => True
  | size, (_, propsSize) :: requests =>
    P size propsSize ∧ AllCalls P (grownSize size propsSize) requests

theorem getProps_reader (r : FileReader σ) (l : Loader σ) (start propsSize : ℕ) :
    (getProps r l start propsSize).2.reader =
      (r.readBytes propsSize ((start + 2) % 2 ^ 32) l.reader).2 := by
  rw [getProps]
  generalize (if l.buffer.length ≤ propsSize then _ else _) = buffer
  dsimp only
  split
  · next bytes s hread =>
    rw [hread]
    split <;> rfl
  · next s hread => rw [hread]
  · next s hread => rw [hread]

end FileLoader

/-- A file that has been opened, directly or through the cache, with the root node. -/
inductive FileLoader.Opened (file : List UInt8) :
    {σ : Type} → FileAccess σ → Loader σ → NodeStruct → Prop where
  | plain {p : ℕ} (buffer : List UInt8)
      (hends : (openFile (.plain file) file p).ends = .returned true) :
      Opened file (.plain file) ⟨(openFile (.plain file) file p).reader, buffer⟩
        (openFile (.plain file) file p).node
  | cached {cacheSize : ℕ} (buffer : List UInt8)
      (hsize : cacheSize ∈ [8192, 16384, 24576, 32768])
      (hends : (openFile (.cached file cacheSize) file {}).ends = .returned true) :
      Opened file (.cached file cacheSize) ⟨(openFile (.cached file cacheSize) file {}).reader, buffer⟩
        (openFile (.cached file cacheSize) file {}).node

namespace FileLoader

/-- The node has its properties in the file, with another byte behind them. -/
def HasProps (file : List UInt8) (q : ℕ × ℕ) : Prop :=
  ∃ props tail, file.drop (q.1 + 2) = props ++ tail ∧ tail ≠ [] ∧ IsProps props ∧
    props.length = q.2

section Runs

variable {f : FileAccess σ} {file : List UInt8} {inv : σ → Prop} (hf : f.Sound file inv)

include hf

theorem allInBounds_iff (hlen : file.length < 2 ^ 31) {requests : List (ℕ × ℕ)}
    (hprops : ∀ q ∈ requests, HasProps file q) {l : Loader σ} (hl : inv l.reader) :
    AllInBounds f l requests ↔
      AllCalls (fun size propsSize => propsSize ≤ size + 1024) l.buffer.length requests := by
  induction requests generalizing l with
  | nil => rfl
  | cons q requests ih =>
    obtain ⟨start, propsSize⟩ := q
    obtain ⟨props, tail, hfile, htail, hisprops, rfl⟩ := hprops _ List.mem_cons_self
    have hinside : start + 2 + props.length ≤ file.length := by
      have hlength := congrArg List.length hfile
      have hpos : 0 < tail.length := List.length_pos_of_ne_nil htail
      rw [List.length_drop, List.length_append] at hlength
      omega
    have hpos : (start + 2) % 2 ^ 32 = start + 2 := Nat.mod_eq_of_lt (by omega)
    have hreader := getProps_reader f.reader l start props.length
    rw [hpos] at hreader
    have hnext := ih (fun q hq => hprops q (List.mem_cons_of_mem _ hq))
      (hreader ▸ (hf.reads hlen _ _ _ hl hinside).2)
    rw [getProps_size] at hnext
    exact and_congr (inBounds_iff hf hlen hl hfile hisprops hinside) hnext

theorem allInBounds_of_lt {requests : List (ℕ × ℕ)} {l : Loader σ}
    (h : AllCalls (fun size propsSize => propsSize < 2 ^ 31 ∧ propsSize < size + 1024)
      l.buffer.length requests) : AllInBounds f l requests := by
  induction requests generalizing l with
  | nil => exact trivial
  | cons q requests ih =>
    obtain ⟨start, propsSize⟩ := q
    obtain ⟨⟨hsmall, hfits⟩, hrest⟩ := h
    refine ⟨inBounds_of_lt hf hsmall hfits, ih ?_⟩
    rw [getProps_size]
    exact hrest

end Runs

/-- How an open file is read, and where its nodes have their properties. -/
theorem Opened.sound {file : List UInt8} {f : FileAccess σ} {l : Loader σ} {root : NodeStruct}
    (h : Opened file f l root) : ∃ inv, f.Sound file inv ∧
      (file.length < 2 ^ 31 → inv l.reader ∧ ∀ q ∈ root.nodes, HasProps file q) := by
  cases h with
  | plain buffer hends =>
    refine ⟨_, FileAccess.plain_sound file, fun hlen => ⟨trivial, fun q hq => ?_⟩⟩
    exact nodes_props (by omega) hends hq
  | @cached cacheSize buffer hsize hends =>
    have hbounds : 0 < cacheSize ∧ cacheSize ≤ 2 ^ 32 := by
      simp only [List.mem_cons, List.not_mem_nil, or_false] at hsize
      omega
    refine ⟨_, FileAccess.cached_sound hbounds.1 hbounds.2, fun hlen => ?_⟩
    obtain ⟨hsame, hnode, hholds⟩ := openFile_cached hbounds.1 hbounds.2
      (by omega : file.length < 2 ^ 32 - 1) 0
    refine ⟨hholds, fun q hq => ?_⟩
    rw [← hnode] at hq
    exact nodes_props (by omega) (hsame.trans hends) hq

/-- The calls of `getProps` stay inside the buffer as long as no node needs more than the 1024 bytes by
which it grows, and in a file with positions below 2 ^ 31 only as long. -/
theorem getProps_inBounds {file : List UInt8} {f : FileAccess σ} {l : Loader σ} {root : NodeStruct}
    (h : Opened file f l root) {requests : List (ℕ × ℕ)}
    (hrequests : ∀ q ∈ requests, q ∈ root.nodes) :
    (file.length < 2 ^ 31 → (AllInBounds f l requests ↔
      AllCalls (fun size propsSize => propsSize ≤ size + 1024) l.buffer.length requests)) ∧
    (AllCalls (fun size propsSize => propsSize < 2 ^ 31 ∧ propsSize < size + 1024)
      l.buffer.length requests → AllInBounds f l requests) := by
  obtain ⟨inv, hf, hfile⟩ := h.sound
  refine ⟨fun hlen => ?_, allInBounds_of_lt hf⟩
  obtain ⟨hl, hprops⟩ := hfile hlen
  exact allInBounds_iff hf hlen (fun q hq => hprops q (hrequests q hq)) hl

/-- Two nodes of a small file, one after the other. -/
theorem getProps_inBounds_small :
    let file := versioned [nodeStart, 1, 65, escapeChar, nodeEnd, nodeStart, 2, nodeEnd, nodeEnd]
    AllInBounds (.plain file) ⟨(openFile (.plain file) file 4).reader, List.replicate 1024 0⟩
      [(9, 0), (4, 3)] := by
  intro file
  have hends : (openFile (.plain file) file 4).ends = .returned true := by decide
  have hnodes : ∀ q ∈ [(9, 0), (4, 3)], q ∈ (openFile (.plain file) file 4).node.nodes := by decide
  apply (getProps_inBounds (.plain (List.replicate 1024 0) hends) hnodes).2
  show AllCalls _ (List.replicate 1024 (0 : UInt8)).length _
  rw [List.length_replicate]
  exact ⟨⟨by decide, by decide⟩, ⟨by decide, by decide⟩, trivial⟩

/-- A node with 2049 bytes of properties, for a buffer that grows to 2048. -/
theorem not_getProps_inBounds :
    let file := versioned (nodeStart :: 1 :: (List.replicate 2049 0 ++ [nodeEnd]))
    Opened file (.plain file) ⟨(openFile (.plain file) file 4).reader, List.replicate 1024 0⟩
        (openFile (.plain file) file 4).node ∧
      (4, 2049) ∈ (openFile (.plain file) file 4).node.nodes ∧
      ¬ AllInBounds (.plain file)
        ⟨(openFile (.plain file) file 4).reader, List.replicate 1024 0⟩ [(4, 2049)] := by
  intro file
  have hprops := isProps_replicate 2049
  have hlength : file.length = 2056 := by
    simp only [file, versioned, List.length_cons, List.length_append, List.length_replicate,
      List.length_nil]
  have hlen : file.length < 2 ^ 31 := by
    rw [hlength]
    decide
  have hlen' : file.length < 2 ^ 32 - 1 := hlen.trans (by decide)
  have hdescribes : Describes 4 (.node 4 2049 1 .null .null)
      (nodeStart :: 1 :: (List.replicate 2049 0 ++ ([] ++ nodeEnd :: []))) := by
    have hnode := @Describes.cons 4 1 _ _ _ _ _ hprops .nil .nil
    rw [List.length_replicate] at hnode
    exact hnode
  have hopen : openFile (.plain file) file 4 = ⟨.returned true, .node 4 2049 1 .null .null, _⟩ :=
    (openFile_start 4 rfl).trans (parseNode_complete hdescribes (List.cons_ne_nil _ _)
      (List.append_nil _).symm (.inl rfl) hlen' (by
        rw [hlength, List.length_cons, List.length_cons, List.length_append, List.length_replicate]
        decide))
  have hfile : file.drop (4 + 2) = List.replicate 2049 0 ++ [nodeEnd] := rfl
  have hcall := inBounds_iff (FileAccess.plain_sound file) hlen
    (l := ⟨(openFile (.plain file) file 4).reader, List.replicate 1024 0⟩) trivial hfile hprops
    (by rw [List.length_replicate, hlength]; decide)
  rw [List.length_replicate] at hcall
  refine ⟨.plain _ (by rw [hopen]), by rw [hopen]; exact List.mem_cons_self, fun h => ?_⟩
  have hfits := hcall.mp h.1
  rw [List.length_replicate] at hfits
  exact absurd hfits (by decide)

end FileLoader

end TyanoCore
