import TyanoCore.NodeGrammar
import Mathlib.Data.List.FinRange

/-!
# Reading through the cache

The parser asks a reader for nothing but bytes, positions and steps back, so two readers that agree
on these parse alike.  The cache agrees with the file: every loaded block holds the bytes behind its base.
-/

namespace TyanoCore

open FileLoader

/-! ## Readers that agree -/

section Simulation

variable {σ τ : Type} {r₁ : FileReader σ} {r₂ : FileReader τ} {R : σ → τ → Prop}

/-- The readers tell the same position and can both go back to it. -/
def FileReader.TellAlike (r₁ : FileReader σ) (r₂ : FileReader τ) (R : σ → τ → Prop) (s : σ)
    (t : τ) : Prop :=
  r₁.safeTell s = r₂.safeTell t ∧ ∀ pos, r₁.safeTell s = some pos →
    (r₁.safeSeek pos s).1 = (r₂.safeSeek pos t).1 ∧
      R (r₁.safeSeek pos s).2 (r₂.safeSeek pos t).2

/-- Related states read the same byte; positions only matter behind a byte that has been read. -/
structure FileReader.Simulates (r₁ : FileReader σ) (r₂ : FileReader τ) (R : σ → τ → Prop) :
    Prop where
  readByte : ∀ {s t}, R s t → (r₁.readByte s).1 = (r₂.readByte t).1 ∧
    R (r₁.readByte s).2 (r₂.readByte t).2
  tell : ∀ {s t} {byte : UInt8}, R s t → (r₁.readByte s).1 = some byte →
    r₁.TellAlike r₂ R (r₁.readByte s).2 (r₂.readByte t).2

/-- Two parses with one outcome. -/
structure ParsedAlike (R : σ → τ → Prop) (a : Parsed σ) (b : Parsed τ) : Prop where
  ends : a.ends = b.ends
  node : a.node = b.node
  reader : R a.reader b.reader

theorem FileReader.Simulates.cases (sim : r₁.Simulates r₂ R) {s : σ} {t : τ} (h : R s t) :
    (∃ s' t', r₁.readByte s = (none, s') ∧ r₂.readByte t = (none, t') ∧ R s' t') ∨
      ∃ byte s' t', r₁.readByte s = (some byte, s') ∧ r₂.readByte t = (some byte, t') ∧
        R s' t' ∧ r₁.TellAlike r₂ R s' t' := by
  obtain ⟨hbyte, hstate⟩ := sim.readByte h
  have htell (byte : UInt8) (hread : (r₁.readByte s).1 = some byte) := sim.tell h hread
  generalize r₁.readByte s = read₁ at hbyte hstate htell ⊢
  generalize r₂.readByte t = read₂ at hbyte hstate htell ⊢
  obtain ⟨o₁, s'⟩ := read₁
  obtain ⟨o₂, t'⟩ := read₂
  cases hbyte
  cases o₁ with
  | none => exact .inl ⟨s', t', rfl, rfl, hstate⟩
  | some byte => exact .inr ⟨byte, s', t', rfl, rfl, hstate, htell byte rfl⟩

theorem parseNodeWith_alike (sim : r₁.Simulates r₂ R)
    {inner₁ : σ → CurrentNode → Bool → Parsed σ}
    {inner₂ : τ → CurrentNode → Bool → Parsed τ}
    (hinner : ∀ s t node b, R s t → ParsedAlike R (inner₁ s node b) (inner₂ t node b))
    {s : σ} {t : τ} (h : R s t) (node : CurrentNode) :
    ParsedAlike R (parseNodeWith r₁ inner₁ s node) (parseNodeWith r₂ inner₂ t node) := by
  unfold parseNodeWith
  obtain ⟨s', t', hread₁, hread₂, h'⟩ | ⟨byte, s', t', hread₁, hread₂, h', -⟩ := sim.cases h
  · rw [hread₁, hread₂]
    exact ⟨rfl, rfl, h'⟩
  · rw [hread₁, hread₂]
    exact hinner s' t' _ false h'

theorem parseChild_alike (sim : r₁.Simulates r₂ R)
    {inner₁ : σ → CurrentNode → Bool → Parsed σ}
    {inner₂ : τ → CurrentNode → Bool → Parsed τ}
    (hinner : ∀ s t node b, R s t → ParsedAlike R (inner₁ s node b) (inner₂ t node b))
    {s : σ} {t : τ} (h : R s t) (htell : r₁.TellAlike r₂ R s t) (node : CurrentNode) :
    ParsedAlike R (parseChild r₁ inner₁ s node) (parseChild r₂ inner₂ t node) := by
  unfold parseChild
  rw [← htell.1]
  cases r₁.safeTell s with
  | none => exact ⟨rfl, rfl, h⟩
  | some pos =>
    dsimp only
    by_cases hchild : node.child ≠ .null
    · rw [if_pos hchild, if_pos hchild]
      exact ⟨rfl, rfl, h⟩
    · rw [if_neg hchild, if_neg hchild]
      -- both parse the same child and go on from related states
      obtain ⟨hends, hnode, hreader⟩ := parseNodeWith_alike sim hinner h { start := pos }
      rw [hends, hnode]
      split
      · exact hinner _ _ _ true hreader
      · exact ⟨rfl, rfl, hreader⟩

theorem parseNext_alike (sim : r₁.Simulates r₂ R)
    {inner₁ : σ → CurrentNode → Bool → Parsed σ}
    {inner₂ : τ → CurrentNode → Bool → Parsed τ}
    (hinner : ∀ s t node b, R s t → ParsedAlike R (inner₁ s node b) (inner₂ t node b))
    {s : σ} {t : τ} (h : R s t) (node : CurrentNode) :
    ParsedAlike R (parseNext r₁ inner₁ s node) (parseNext r₂ inner₂ t node) := by
  unfold parseNext
  obtain ⟨s', t', hread₁, hread₂, h'⟩ | ⟨byte, s', t', hread₁, hread₂, h', htell, hseek⟩ :=
    sim.cases h
  · rw [hread₁, hread₂]
    exact ⟨rfl, rfl, h'⟩
  · rw [hread₁, hread₂]
    dsimp only
    rw [← htell]
    split
    · cases r₁.safeTell s' with
      | none => exact ⟨rfl, rfl, h'⟩
      | some pos =>
        dsimp only
        split
        · exact ⟨rfl, rfl, h'⟩
        · obtain ⟨hends, hnode, hreader⟩ := parseNodeWith_alike sim hinner h' { start := pos }
          rw [hends, hnode]
          exact ⟨rfl, rfl, hreader⟩
    split
    -- `NODE_END`: both go back by the same byte
    · cases hpos : r₁.safeTell s' with
      | none => exact ⟨rfl, rfl, h'⟩
      | some pos =>
        obtain ⟨hsuccess, hstate⟩ := hseek pos hpos
        exact ⟨congrArg ParseEnd.returned hsuccess, rfl, hstate⟩
    · exact ⟨rfl, rfl, h'⟩

theorem parseNodeLoop_alike (sim : r₁.Simulates r₂ R) (n : ℕ) {s : σ} {t : τ} (h : R s t)
    (node : CurrentNode) (setPropsSize : Bool) :
    ParsedAlike R (parseNodeLoop r₁ n s node setPropsSize)
      (parseNodeLoop r₂ n t node setPropsSize) := by
  -- on the fuel; related states read the same byte, so both take the same branch
  induction n generalizing s t node setPropsSize with
  | zero => exact ⟨rfl, rfl, h⟩
  | succ n ih =>
    unfold parseNodeLoop
    obtain ⟨s', t', hread₁, hread₂, h'⟩ | ⟨byte, s', t', hread₁, hread₂, h', htell⟩ :=
      sim.cases h
    · rw [hread₁, hread₂]
      exact ⟨rfl, rfl, h'⟩
    · rw [hread₁, hread₂]
      dsimp only
      split
      · exact parseChild_alike sim (fun _ _ node b hst => ih hst node b) h' htell node
      split
      · rw [← htell.1]
        split
        · exact ⟨rfl, rfl, h'⟩
        · exact parseNext_alike sim (fun _ _ node b hst => ih hst node b) h' _
      split
      · obtain ⟨s'', t'', hread₁, hread₂, h''⟩ | ⟨byte, s'', t'', hread₁, hread₂, h'', -⟩ :=
          sim.cases h'
        · rw [hread₁, hread₂]
          exact ⟨rfl, rfl, h''⟩
        · rw [hread₁, hread₂]
          exact ih h'' node setPropsSize
      · exact ih h' node setPropsSize

/-- Related readers parse alike. -/
theorem parseNode_alike (sim : r₁.Simulates r₂ R) (n : ℕ) {s : σ} {t : τ} (h : R s t)
    (node : CurrentNode) :
    ParsedAlike R (parseNode r₁ n s node) (parseNode r₂ n t node) :=
  parseNodeWith_alike sim (fun _ _ node b hst => parseNodeLoop_alike sim n hst node b) h node

/-- Opening a file once both readers stand behind the version. -/
theorem openFile_alike (sim : r₁.Simulates r₂ R) (file : List UInt8) {s s₁ s₂ : σ} {t t₁ t₂ : τ}
    (hs₁ : r₁.safeSeek 4 s = (true, s₁)) (hs₂ : r₁.safeSeek 4 s₁ = (true, s₂))
    (ht₁ : r₂.safeSeek 4 t = (true, t₁)) (ht₂ : r₂.safeSeek 4 t₁ = (true, t₂)) (h : R s₂ t₂) :
    (openFile r₁ file s).ends = (openFile r₂ file t).ends ∧
      (openFile r₁ file s).node = (openFile r₂ file t).node ∧
      (R (openFile r₁ file s).reader (openFile r₂ file t).reader ∨
        (openFile r₂ file t).reader = t) := by
  unfold openFile
  split
  · split
    · exact ⟨rfl, rfl, .inr rfl⟩
    · simp only [hs₁, hs₂, ht₁, ht₂]
      obtain ⟨s', t', hread₁, hread₂, h'⟩ | ⟨byte, s', t', hread₁, hread₂, h', -⟩ := sim.cases h
      · simp only [hread₁, hread₂]
        exact ⟨trivial, trivial, .inl h'⟩
      · simp only [hread₁, hread₂]
        split
        · obtain ⟨hends, hnode, hreader⟩ := parseNode_alike sim _ h' { start := 4 }
          exact ⟨hends, hnode, .inl hreader⟩
        · exact ⟨rfl, rfl, .inl h'⟩
  · exact ⟨rfl, rfl, .inr rfl⟩

end Simulation

/-! ## The cache agrees with the file -/

section Cache

variable {file : List UInt8} {cacheSize : ℕ}

/-- A position lies in its block, whether or not the size of the blocks is a power of two. -/
theorem basePos_spec (hsize : 0 < cacheSize) (hsize' : cacheSize ≤ 2 ^ 32) {pos : ℕ}
    (hpos : pos < 2 ^ 32) : FileCache.basePos cacheSize pos ≤ pos ∧
      pos < FileCache.basePos cacheSize pos + cacheSize := by
  let x := BitVec.ofNat 32 pos
  let m := BitVec.ofNat 32 (cacheSize - 1)
  have hx : x.toNat = pos := by
    rw [BitVec.toNat_ofNat]
    exact Nat.mod_eq_of_lt hpos
  have hm : m.toNat = cacheSize - 1 := by
    rw [BitVec.toNat_ofNat]
    exact Nat.mod_eq_of_lt (by omega)
  -- `pos` is the sum of its bits outside the mask and its bits inside it
  have hdisjoint : (x &&& ~~~m) &&& (x &&& m) = 0#32 := by
    ext i hi
    simp only [BitVec.getElem_and, BitVec.getElem_not, BitVec.getElem_zero]
    cases x[i] <;> cases m[i] <;> rfl
  have hsum : (x &&& ~~~m) + (x &&& m) = x := by
    rw [BitVec.add_eq_or_of_and_eq_zero _ _ hdisjoint]
    ext i hi
    simp only [BitVec.getElem_or, BitVec.getElem_and, BitVec.getElem_not]
    cases x[i] <;> cases m[i] <;> rfl
  have hnat := BitVec.toNat_add_of_and_eq_zero hdisjoint
  rw [hsum, hx] at hnat
  have hle : (x &&& m).toNat ≤ cacheSize - 1 := by
    rw [BitVec.toNat_and, ← hm]
    exact Nat.and_le_right
  have hbase : FileCache.basePos cacheSize pos = (x &&& ~~~m).toNat := rfl
  rw [hbase]
  omega

/-- Every loaded block holds the bytes of the file from its base on. -/
def FileCache.Holds (file : List UInt8) (cacheSize : ℕ) (c : FileCache) : Prop :=
  ∀ i, (c.block i).loaded = true → (c.block i).data = (file.drop (c.block i).base).take cacheSize

/-- The cache is at a position of the file. -/
structure FileCache.At (file : List UInt8) (cacheSize : ℕ) (p : ℕ) (c : FileCache) : Prop where
  holds : c.Holds file cacheSize
  le : p ≤ file.length
  index : ∃ i, c.index = some i ∧ (c.block i).loaded = true ∧ (c.block i).base + c.offset = p ∧
    c.offset ≤ (c.block i).data.length

/-- The cache has, or loads, the block of any position up to the end of the file. -/
theorem getCacheBlock_spec (hsize : 0 < cacheSize) (hsize' : cacheSize ≤ 2 ^ 32)
    (hlen : file.length < 2 ^ 32) {c : FileCache} (h : c.Holds file cacheSize) {pos : ℕ}
    (hpos : pos ≤ file.length) :
    ∃ i c', c.getCacheBlock file cacheSize pos = (some i, c') ∧ c'.Holds file cacheSize ∧
      (c'.block i).loaded = true ∧ (c'.block i).base = FileCache.basePos cacheSize pos := by
  obtain ⟨hbase, hbase'⟩ := basePos_spec hsize hsize' (by omega : pos < 2 ^ 32)
  unfold FileCache.getCacheBlock
  -- the block is in the cache, or it is loaded in place of another one
  split
  · next i hfind =>
    have hfound := List.find?_some hfind
    simp only [Bool.and_eq_true, beq_iff_eq] at hfound
    exact ⟨i, c, rfl, h, hfound.1, hfound.2⟩
  · unfold FileCache.loadCacheBlock
    dsimp only
    generalize c.loadingCache cacheSize (FileCache.basePos cacheSize pos) = loading
    -- `fread` reaches the position, which lies in the file
    have hshort : ¬ ((file.drop (FileCache.basePos cacheSize pos)).take cacheSize).length <
        pos - FileCache.basePos cacheSize pos := by
      rw [List.length_take, List.length_drop]
      omega
    rw [if_neg hshort]
    refine ⟨loading, _, rfl, fun i hi => ?_, ?_, ?_⟩
    · dsimp only at hi ⊢
      by_cases hloading : i = loading
      · rw [if_pos hloading]
      · rw [if_neg hloading] at hi ⊢
        exact h i hi
    · dsimp only
      rw [if_pos rfl]
    · dsimp only
      rw [if_pos rfl]

/-- Going to a position in its block. -/
theorem seekIn_at (hsize : 0 < cacheSize) (hsize' : cacheSize ≤ 2 ^ 32)
    (hlen : file.length < 2 ^ 32) {c : FileCache} (h : c.Holds file cacheSize) {pos : ℕ}
    (hpos : pos ≤ file.length) {i : Fin cacheBlocks} (hloaded : (c.block i).loaded = true)
    (hbase : (c.block i).base = FileCache.basePos cacheSize pos) :
    (c.seekIn i pos).At file cacheSize pos ∧ (c.seekIn i pos).offset < cacheSize ∧
      (c.seekIn i pos).offset = pos - (c.block i).base := by
  obtain ⟨hle, hlt⟩ := basePos_spec hsize hsize' (by omega : pos < 2 ^ 32)
  rw [← hbase] at hle hlt
  have hoffset : (c.seekIn i pos).offset = pos - (c.block i).base :=
    uint32Sub_of_le hle (by omega)
  refine ⟨⟨h, hpos, i, rfl, hloaded, ?_, ?_⟩, by omega, hoffset⟩
  · rw [hoffset]
    exact Nat.add_sub_of_le hle
  · rw [hoffset]
    change pos - (c.block i).base ≤ (c.block i).data.length
    rw [h i hloaded, List.length_take, List.length_drop]
    omega

/-- `safeSeek` succeeds up to the end of the file. -/
theorem cached_safeSeek (hsize : 0 < cacheSize) (hsize' : cacheSize ≤ 2 ^ 32)
    (hlen : file.length < 2 ^ 32) {c : FileCache} (h : c.Holds file cacheSize) {pos : ℕ}
    (hpos : pos ≤ file.length) :
    ∃ c', (FileReader.cached file cacheSize).safeSeek pos c = (true, c') ∧
      c'.At file cacheSize pos := by
  obtain ⟨i, c', hget, hholds, hloaded, hbase⟩ := getCacheBlock_spec hsize hsize' hlen h hpos
  refine ⟨c'.seekIn i pos, ?_, (seekIn_at hsize hsize' hlen hholds hpos hloaded hbase).1⟩
  simp only [FileReader.cached, FileCache.safeSeek, hget]

/-- The byte at the offset of a block is the byte of the file. -/
theorem byteAt_spec {c : FileCache} {p : ℕ} (h : c.Holds file cacheSize) (hp : p ≤ file.length)
    {i : Fin cacheBlocks} (hindex : c.index = some i) (hloaded : (c.block i).loaded = true)
    (hpos : (c.block i).base + c.offset = p) (hoffset : c.offset ≤ (c.block i).data.length)
    (hlt : c.offset < cacheSize) :
    (c.byteAt i).1 = file[p]? ∧
      (c.byteAt i).2.At file cacheSize (if p < file.length then p + 1 else p) := by
  have hbyte : (c.block i).data[c.offset]? = file[p]? := by
    rw [h i hloaded, List.getElem?_take_of_lt hlt, List.getElem?_drop, hpos]
  unfold FileCache.byteAt
  rw [hbyte]
  -- at the end of the file the offset stays
  cases hget : file[p]? with
  | none =>
    have hend : ¬ p < file.length := Nat.not_lt.mpr (List.getElem?_eq_none_iff.mp hget)
    rw [if_neg hend]
    exact ⟨rfl, h, hp, i, hindex, hloaded, hpos, hoffset⟩
  | some byte =>
    have hlt' : p < file.length := (List.getElem?_eq_some_iff.mp hget).1
    rw [hget] at hbyte
    have hoffset' : c.offset < (c.block i).data.length := (List.getElem?_eq_some_iff.mp hbyte).1
    rw [if_pos hlt']
    refine ⟨rfl, h, hlt', i, hindex, hloaded, ?_, hoffset'⟩
    dsimp only
    omega

theorem cached_readByte (hsize : 0 < cacheSize) (hsize' : cacheSize ≤ 2 ^ 32)
    (hlen : file.length < 2 ^ 32) {c : FileCache} {p : ℕ} (h : c.At file cacheSize p) :
    ((FileReader.cached file cacheSize).readByte c).1 = file[p]? ∧
      ((FileReader.cached file cacheSize).readByte c).2.At file cacheSize
        (if p < file.length then p + 1 else p) := by
  obtain ⟨i, hindex, hloaded, hpos, hoffset⟩ := h.index
  have hp := h.le
  change (c.readByte file cacheSize).1 = _ ∧ (c.readByte file cacheSize).2.At file cacheSize _
  unfold FileCache.readByte
  rw [hindex]
  dsimp only
  split
  · -- the block is used up
    have hpos' : (c.offset + (c.block i).base) % 2 ^ 32 = p := by
      rw [Nat.add_comm, hpos]
      exact Nat.mod_eq_of_lt (by omega)
    rw [hpos']
    obtain ⟨i', c', hget, hholds, hloaded', hbase⟩ :=
      getCacheBlock_spec hsize hsize' hlen h.holds hp
    rw [hget]
    obtain ⟨hat, hlt, hoffset'⟩ := seekIn_at hsize hsize' hlen hholds hp hloaded' hbase
    obtain ⟨i'', hindex', hloaded'', hpos'', hle⟩ := hat.index
    cases hindex'
    exact byteAt_spec hat.holds hp rfl hloaded'' hpos'' hle hlt
  -- the offset lies in the block
  · next hlt =>
    refine byteAt_spec h.holds hp hindex hloaded hpos hoffset ?_
    have hsize := congrArg List.length (h.holds i hloaded)
    rw [List.length_take] at hsize
    omega

/-- The cache agrees with the file. -/
theorem plain_simulates_cached (hsize : 0 < cacheSize) (hsize' : cacheSize ≤ 2 ^ 32)
    (hlen : file.length < 2 ^ 32 - 1) :
    (FileReader.plain file).Simulates (.cached file cacheSize)
      (fun p c => c.At file cacheSize p) := by
  have hlen' : file.length < 2 ^ 32 := by omega
  have hplain (p : ℕ) : (FileReader.plain file).readByte p =
      (file[p]?, if p < file.length then p + 1 else p) := by
    simp only [FileReader.plain]
    cases hget : file[p]? with
    | none => rw [if_neg (Nat.not_lt.mpr (List.getElem?_eq_none_iff.mp hget))]
    | some byte => rw [if_pos (List.getElem?_eq_some_iff.mp hget).1]
  constructor
  · intro p c h
    obtain ⟨hbyte, hat⟩ := cached_readByte hsize hsize' hlen' h
    rw [hplain]
    exact ⟨hbyte.symm, hat⟩
  -- behind a byte both tell its position, and both can go back to it
  · intro p c byte h hread
    rw [hplain] at hread ⊢
    have hlt : p < file.length := (List.getElem?_eq_some_iff.mp hread).1
    obtain ⟨-, hat⟩ := cached_readByte hsize hsize' hlen' h
    rw [if_pos hlt] at hat ⊢
    have htell : (FileReader.plain file).safeTell (p + 1) = some p := plain_safeTell (by omega)
    obtain ⟨i, hindex, -, hpos, -⟩ := hat.index
    have htell' : (FileReader.cached file cacheSize).safeTell
        ((FileReader.cached file cacheSize).readByte c).2 = some p := by
      change FileCache.safeTell _ = _
      unfold FileCache.safeTell
      rw [hindex, Option.map_some, hpos, uint32Sub_of_le (by omega) (by omega)]
      rfl
    rw [FileReader.TellAlike, htell, htell']
    refine ⟨rfl, fun pos hpos => ?_⟩
    cases hpos
    obtain ⟨c', hseek, hat'⟩ := cached_safeSeek hsize hsize' hlen' hat.holds (by omega : p ≤ _)
    rw [hseek]
    exact ⟨rfl, hat'⟩

end Cache

/-! ## Properties -/

/-- The positions and sizes of the nodes. -/
def NodeStruct.nodes : NodeStruct → List (ℕ × ℕ)
  | .null => []
  | .node start propsSize _ next child => (start, propsSize) :: (child.nodes ++ next.nodes)

/-- The properties of the nodes are where the nodes say. -/
theorem Describes.props {file : List UInt8} {pos : ℕ} {node : NodeStruct} {w rest : List UInt8}
    (h : Describes pos node w) (hfile : file.drop pos = w ++ rest) {start propsSize : ℕ}
    (hmem : (start, propsSize) ∈ node.nodes) :
    ∃ props tail, file.drop (start + 2) = props ++ tail ∧ tail ≠ [] ∧ IsProps props ∧
      props.length = propsSize := by
  -- along the derivation, with the bytes behind each part of the node
  induction h generalizing rest with
  | nil => cases hmem
  | @cons pos type props children siblings next child hprops _ _ ihchild ihnext =>
    have hafter : file.drop (pos + 2) =
        props ++ (children ++ nodeEnd :: (siblings ++ rest)) := by
      rw [← List.drop_drop, hfile]
      simp only [List.cons_append, List.append_assoc, List.drop_succ_cons, List.drop_zero]
    have hchildren : file.drop (pos + 2 + props.length) =
        children ++ nodeEnd :: (siblings ++ rest) := by
      rw [← List.drop_drop, hafter, List.drop_left]
    have hsiblings : file.drop (pos + 2 + props.length + children.length + 1) =
        siblings ++ rest := by
      rw [← List.drop_drop, ← List.drop_drop, hchildren, List.drop_left]
      rfl
    simp only [NodeStruct.nodes, List.mem_cons, List.mem_append, Prod.mk.injEq] at hmem
    rcases hmem with ⟨rfl, rfl⟩ | hmem | hmem
    · exact ⟨props, _, hafter, by simp, hprops, rfl⟩
    · exact ihchild hchildren hmem
    · exact ihnext hsiblings hmem

section Cache

variable {file : List UInt8} {cacheSize : ℕ}

/-- `readBytes` through the cache, block by block. -/
theorem readBlocks_spec (hsize : 0 < cacheSize) (hsize' : cacheSize ≤ 2 ^ 32)
    (hlen : file.length < 2 ^ 32) {n remain pos : ℕ} (buffer : List UInt8) {c : FileCache}
    (h : c.Holds file cacheSize) (hn : remain < n) (hpos : pos + remain ≤ file.length) :
    ∃ c', FileCache.readBlocks file cacheSize n buffer remain pos c =
      (.read (buffer ++ (file.drop pos).take remain), c') ∧ c'.Holds file cacheSize := by
  -- every round reads up to the end of its block, at least one byte
  induction n generalizing remain pos buffer c with
  | zero => omega
  | succ n ih =>
    obtain ⟨i, c', hget, hholds, hloaded, hbase⟩ :=
      getCacheBlock_spec hsize hsize' hlen h (by omega : pos ≤ file.length)
    obtain ⟨hat, hlt, hoffset⟩ :=
      seekIn_at hsize hsize' hlen hholds (by omega : pos ≤ file.length) hloaded hbase
    unfold FileCache.readBlocks
    rw [hget]
    dsimp only
    have hblock : ((c'.seekIn i pos).block i).data = (file.drop (c'.block i).base).take cacheSize :=
      hholds i hloaded
    obtain ⟨hle, -⟩ := basePos_spec hsize hsize' (by omega : pos < 2 ^ 32)
    rw [← hbase] at hle
    have hlength : (c'.seekIn i pos).offset ≤ ((c'.seekIn i pos).block i).data.length ∧
        ((c'.seekIn i pos).block i).data.length < 2 ^ 32 ∧
        (0 < remain → (c'.seekIn i pos).offset < ((c'.seekIn i pos).block i).data.length) := by
      rw [hblock, List.length_take, List.length_drop, hoffset]
      omega
    rw [uint32Sub_of_le hlength.1 hlength.2.1]
    generalize hreading : min remain (((c'.seekIn i pos).block i).data.length -
      (c'.seekIn i pos).offset) = reading
    -- what is read of the block is read of the file
    have hbytes : (((c'.seekIn i pos).block i).data.drop (c'.seekIn i pos).offset).take reading =
        (file.drop pos).take reading := by
      have hfits : reading ≤ cacheSize - (c'.seekIn i pos).offset := by
        rw [hblock, List.length_take] at hreading
        omega
      rw [hblock, List.drop_take, List.drop_drop, List.take_take, hoffset,
        Nat.add_sub_of_le hle, Nat.min_eq_left (hoffset ▸ hfits)]
    rw [hbytes]
    by_cases hdone : remain - reading = 0
    · rw [if_pos hdone]
      have hall : reading = remain := by omega
      rw [hall]
      exact ⟨_, rfl, hholds⟩
    · rw [if_neg hdone]
      have hpos' : (pos + reading) % 2 ^ 32 = pos + reading := Nat.mod_eq_of_lt (by omega)
      rw [hpos']
      obtain ⟨c'', hrest, hholds'⟩ := ih (buffer ++ (file.drop pos).take reading)
        (c := { c'.seekIn i pos with offset := ((c'.seekIn i pos).offset + reading) % 2 ^ 32 })
        hholds (by omega : remain - reading < n) (by omega : pos + reading + (remain - reading) ≤ _)
      refine ⟨c'', ?_, hholds'⟩
      -- the rest is read from the next block on
      have hsplit : (file.drop pos).take remain =
          (file.drop pos).take reading ++ (file.drop (pos + reading)).take (remain - reading) := by
        rw [← List.drop_drop, ← List.take_add, Nat.add_sub_of_le (by omega)]
      rw [hrest, hsplit, List.append_assoc]

/-- Both readers read the same bytes of a file shorter than 2 ^ 31. -/
theorem readBytes_alike (hsize : 0 < cacheSize) (hsize' : cacheSize ≤ 2 ^ 32)
    (hlen : file.length < 2 ^ 31) {c : FileCache} (h : c.Holds file cacheSize) {size pos : ℕ}
    (hpos : pos + size ≤ file.length) (p : ℕ) :
    ((FileReader.plain file).readBytes size pos p).1 = .read ((file.drop pos).take size) ∧
    ((FileReader.cached file cacheSize).readBytes size pos c).1 =
      .read ((file.drop pos).take size) ∧
    ((FileReader.cached file cacheSize).readBytes size pos c).2.Holds file cacheSize := by
  constructor
  · have hfits : ¬ 2 ^ 31 ≤ pos := by omega
    have hsmall : size < 2 ^ 31 := by omega
    have hall : ((file.drop pos).take size).length = size := by
      rw [List.length_take, List.length_drop]
      omega
    simp only [FileReader.plain, if_neg hfits, if_pos hsmall, hall, if_true]
  · obtain ⟨c', hread, hholds⟩ := readBlocks_spec hsize hsize' (by omega) [] h
      (Nat.lt_succ_self size) hpos
    have hcached : (FileReader.cached file cacheSize).readBytes size pos c =
        (.read ([] ++ (file.drop pos).take size), c') := hread
    rw [hcached]
    exact ⟨rfl, hholds⟩

/-- `getProps` of a node in the file. -/
theorem getProps_alike (hsize : 0 < cacheSize) (hsize' : cacheSize ≤ 2 ^ 32)
    (hlen : file.length < 2 ^ 31) {p : ℕ} {c : FileCache} (h : c.Holds file cacheSize)
    {start propsSize : ℕ} (hpos : start + 2 + propsSize ≤ file.length) (buffer : List UInt8) :
    let plain := getProps (.plain file) ⟨p, buffer⟩ start propsSize
    let cached := getProps (.cached file cacheSize) ⟨c, buffer⟩ start propsSize
    cached.1 = plain.1 ∧ cached.2.buffer = plain.2.buffer ∧
      cached.2.reader.Holds file cacheSize := by
  obtain ⟨hplain, hcached, hholds⟩ := readBytes_alike hsize hsize' hlen h hpos p
  have hstart : (start + 2) % 2 ^ 32 = start + 2 := Nat.mod_eq_of_lt (by omega)
  unfold getProps
  dsimp only
  rw [hstart]
  generalize (FileReader.plain file).readBytes propsSize (start + 2) p = read₁ at hplain ⊢
  generalize (FileReader.cached file cacheSize).readBytes propsSize (start + 2) c = read₂
    at hcached hholds ⊢
  obtain ⟨o₁, p'⟩ := read₁
  obtain ⟨o₂, c'⟩ := read₂
  dsimp only at hplain hcached hholds
  rw [hplain, hcached]
  dsimp only
  -- `m_buffer` grows alike in both
  generalize (if buffer.length ≤ propsSize then _ else buffer) = buffer
  split
  · exact ⟨rfl, rfl, hholds⟩
  · exact ⟨rfl, rfl, hholds⟩

end Cache

/-- The results of a sequence of calls of `getProps`. -/
def FileLoader.getPropsAll {σ : Type} (r : FileReader σ) :
    Loader σ → List (ℕ × ℕ) → List PropsRead
  | _, [] => []
  | l, (start, propsSize) :: requests =>
    let result := getProps r l start propsSize
    result.1 :: getPropsAll r result.2 requests

/-- Calls of `getProps` for nodes in the file, in any order. -/
theorem getPropsAll_alike {file : List UInt8} {cacheSize : ℕ} (hsize : 0 < cacheSize)
    (hsize' : cacheSize ≤ 2 ^ 32) (hlen : file.length < 2 ^ 31) {requests : List (ℕ × ℕ)}
    (hpos : ∀ q ∈ requests, q.1 + 2 + q.2 ≤ file.length) {p : ℕ} {c : FileCache}
    (h : c.Holds file cacheSize) (buffer : List UInt8) :
    getPropsAll (.cached file cacheSize) ⟨c, buffer⟩ requests =
      getPropsAll (.plain file) ⟨p, buffer⟩ requests := by
  -- a call leaves some position, some valid cache and the same buffer behind
  induction requests generalizing p c buffer with
  | nil => rfl
  | cons q requests ih =>
    obtain ⟨start, propsSize⟩ := q
    obtain ⟨hprops, hbuffer, hholds⟩ := getProps_alike hsize hsize' hlen h
      (hpos _ List.mem_cons_self) (p := p) buffer
    simp only [getPropsAll]
    rw [hprops]
    congr 1
    have hrest := ih (fun q hq => hpos q (List.mem_cons_of_mem _ hq)) hholds
      (p := (getProps (.plain file) ⟨p, buffer⟩ start propsSize).2.reader)
      (getProps (.cached file cacheSize) ⟨c, buffer⟩ start propsSize).2.buffer
    rw [hbuffer] at hrest
    rw [← hrest, ← hbuffer]

/-! ## Opening a file -/

/-- Opening a file with the cache and without it. -/
theorem openFile_cached {file : List UInt8} {cacheSize : ℕ} (hsize : 0 < cacheSize)
    (hsize' : cacheSize ≤ 2 ^ 32) (hlen : file.length < 2 ^ 32 - 1) (p : ℕ) :
    (openFile (.plain file) file p).ends = (openFile (.cached file cacheSize) file {}).ends ∧
      (openFile (.plain file) file p).node = (openFile (.cached file cacheSize) file {}).node ∧
      (openFile (.cached file cacheSize) file {}).reader.Holds file cacheSize := by
  have hempty : FileCache.Holds file cacheSize {} := fun i hi => by cases hi
  have hlen' : file.length < 2 ^ 32 := by omega
  by_cases hversion : 4 ≤ file.length
  · obtain ⟨c₁, hseek₁, hat₁⟩ := cached_safeSeek hsize hsize' hlen' hempty hversion
    obtain ⟨c₂, hseek₂, hat₂⟩ := cached_safeSeek hsize hsize' hlen' hat₁.holds hversion
    have hplain (p : ℕ) : (FileReader.plain file).safeSeek 4 p = (true, 4) := rfl
    obtain ⟨hends, hnode, hreader⟩ := openFile_alike (plain_simulates_cached hsize hsize' hlen)
      file (hplain p) (hplain 4) hseek₁ hseek₂ hat₂
    refine ⟨hends, hnode, ?_⟩
    rcases hreader with hat | hinit
    · exact hat.holds
    · rw [hinit]
      exact hempty
  · -- there is no version to read
    match file, hversion with
    | [], _ => exact ⟨rfl, rfl, hempty⟩
    | [_], _ => exact ⟨rfl, rfl, hempty⟩
    | [_, _], _ => exact ⟨rfl, rfl, hempty⟩
    | [_, _, _], _ => exact ⟨rfl, rfl, hempty⟩
    | _ :: _ :: _ :: _ :: file, hversion =>
      simp only [List.length_cons] at hversion
      omega

/-- A file that is accepted begins with a version of zero. -/
theorem openFile_versioned {file : List UInt8} {p : ℕ}
    (hends : (openFile (.plain file) file p).ends = .returned true) :
    ∃ body, file = versioned body := by
  unfold openFile at hends
  split at hends
  · split at hends
    · simp at hends
    · next v₀ v₁ v₂ v₃ body hzero =>
      simp only [not_or, not_not] at hzero
      obtain ⟨rfl, rfl, rfl, rfl⟩ := hzero
      exact ⟨body, rfl⟩
  · simp at hends

/-- The nodes of a file that is accepted have their properties in it, with another byte behind them. -/
theorem nodes_props {file : List UInt8} (hlen : file.length < 2 ^ 32 - 1) {p : ℕ}
    (hends : (openFile (.plain file) file p).ends = .returned true) {q : ℕ × ℕ}
    (hq : q ∈ (openFile (.plain file) file p).node.nodes) :
    ∃ props tail, file.drop (q.1 + 2) = props ++ tail ∧ tail ≠ [] ∧ IsProps props ∧
      props.length = q.2 := by
  obtain ⟨body, rfl⟩ := openFile_versioned hends
  by_cases hstart : ∃ w, body = nodeStart :: w
  · obtain ⟨w, hw⟩ := hstart
    rw [openFile_start p hw] at hends hq
    have hdrop : (versioned body).drop 4 = nodeStart :: w := hw
    obtain ⟨w', rest, -, hbytes, hdescribes, -⟩ := parseNode_sound hlen _ hdrop hends
    exact hdescribes.props hbytes hq
  · rw [openFile_no_start p fun w hw => hstart ⟨w, hw⟩] at hends
    cases hends

/-- The nodes of a file that is accepted lie inside it. -/
theorem nodes_in_file {file : List UInt8} (hlen : file.length < 2 ^ 32 - 1) {p : ℕ}
    (hends : (openFile (.plain file) file p).ends = .returned true) :
    ∀ q ∈ (openFile (.plain file) file p).node.nodes, q.1 + 2 + q.2 ≤ file.length := by
  intro q hq
  obtain ⟨props, tail, hprops, htail, -, hsize⟩ := nodes_props hlen hends hq
  have hlength := congrArg List.length hprops
  have hpos : 0 < tail.length := List.length_pos_of_ne_nil htail
  rw [List.length_drop, List.length_append] at hlength
  omega

/-- Reading through the cache gives the same nodes and the same properties as reading directly. -/
theorem cachedReading_refines (file : List UInt8) (hlen : file.length < 2 ^ 31) (cacheSize : ℕ)
    (hsize : cacheSize ∈ [8192, 16384, 24576, 32768]) (p : ℕ) :
    let plain := openFile (.plain file) file p
    let cached := openFile (.cached file cacheSize) file {}
    cached.ends = plain.ends ∧ cached.node = plain.node ∧
      (plain.ends = .returned true → ∀ requests : List (ℕ × ℕ),
        (∀ q ∈ requests, q ∈ plain.node.nodes) → ∀ buffer,
          getPropsAll (.cached file cacheSize) ⟨cached.reader, buffer⟩ requests =
            getPropsAll (.plain file) ⟨plain.reader, buffer⟩ requests) := by
  intro plain cached
  have hbounds : 0 < cacheSize ∧ cacheSize ≤ 2 ^ 32 := by
    simp only [List.mem_cons, List.not_mem_nil, or_false] at hsize
    omega
  obtain ⟨hends, hnode, hholds⟩ :=
    openFile_cached hbounds.1 hbounds.2 (by omega : file.length < 2 ^ 32 - 1) p
  refine ⟨hends.symm, hnode.symm, fun hok requests hrequests buffer => ?_⟩
  -- only positions of the file are asked for
  have hinside := nodes_in_file (by omega : file.length < 2 ^ 32 - 1) hok
  exact getPropsAll_alike hbounds.1 hbounds.2 hlen (fun q hq => hinside q (hrequests q hq)) hholds
    buffer

/-- A small file, with its two nodes asked for in turn. -/
theorem cachedReading_refines_small :
    let file := versioned [nodeStart, 1, 65, escapeChar, nodeEnd, nodeStart, 2, nodeEnd, nodeEnd]
    (openFile (.plain file) file 4).ends = .returned true ∧
      getPropsAll (.cached file 8192) ⟨(openFile (.cached file 8192) file {}).reader,
          List.replicate 1024 0⟩ [(9, 0), (4, 3)] =
        getPropsAll (.plain file) ⟨(openFile (.plain file) file 4).reader,
          List.replicate 1024 0⟩ [(9, 0), (4, 3)] := by
  intro file
  have hok : (openFile (.plain file) file 4).ends = .returned true := by decide
  have hnodes : ∀ q ∈ [(9, 0), (4, 3)], q ∈ (openFile (.plain file) file 4).node.nodes := by decide
  have hmem := FileLoader.cacheSize_mem file.length
  have hsize : FileLoader.cacheSize file.length = 8192 := by decide
  rw [hsize] at hmem
  have hrefines := cachedReading_refines file (by decide) 8192 hmem 4
  exact ⟨hok, hrefines.2.2 hok _ hnodes _⟩

end TyanoCore
