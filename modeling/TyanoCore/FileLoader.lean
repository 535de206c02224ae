import Mathlib.Algebra.Order.Ring.Int
import Mathlib.Data.Int.Notation
import Mathlib.Data.Nat.Notation
import Mathlib.Data.List.Basic

/-!
# Node files

`FileLoader`: a file of nested nodes with escaped properties, written byte by byte, parsed into
`NodeStruct`s that remember positions, and read again for the properties.  The file is read directly or
through three cached blocks.  Error codes are left out.
-/

namespace TyanoCore

namespace FileLoader

def nodeStart : UInt8 := 0xFE
def nodeEnd : UInt8 := 0xFF
def escapeChar : UInt8 := 0xFD

/-- A difference of two `uint32_t`. -/
def uint32Sub (a b : ℕ) : ℕ := (a + (2 ^ 32 - b % 2 ^ 32)) % 2 ^ 32

end FileLoader

inductive NodeStruct where
  | null
  | node (start propsSize type : ℕ) (next child : NodeStruct)
deriving DecidableEq

/-- What reading a number of bytes comes to. -/
inductive BytesRead where
  | read (bytes : List UInt8)
  | failed
  | endless
deriving DecidableEq

/-- The functions through which `FileLoader` reads; a position is a `uint32_t`. -/
structure FileReader (σ : Type) where
  readByte : σ → Option UInt8 × σ
  safeTell : σ → Option ℕ
  safeSeek : ℕ → σ → Bool × σ
  readBytes : ℕ → ℕ → σ → BytesRead × σ

namespace FileLoader

/-! ## Parsing -/

/-- The node that `parseNode` is filling. -/
structure CurrentNode where
  start : ℕ
  propsSize : ℕ := 0
  type : ℕ := 0
  next : NodeStruct := .null
  child : NodeStruct := .null

def CurrentNode.struct (node : CurrentNode) : NodeStruct :=
  .node node.start node.propsSize node.type node.next node.child

/-- The properties end before the byte at `pos`. -/
def CurrentNode.setPropsSize (node : CurrentNode) (pos : ℕ) : CurrentNode :=
  { node with propsSize := uint32Sub (uint32Sub pos node.start) 2 }

@[simp] theorem CurrentNode.setPropsSize_next (node : CurrentNode) (pos : ℕ) :
    (node.setPropsSize pos).next = node.next := by
  unfold CurrentNode.setPropsSize
  rfl

inductive ParseEnd where
  | returned (success : Bool)
  | assertion
  | outOfFuel
deriving DecidableEq

/-- The outcome of `parseNode` with the node it leaves, also when it fails. -/
structure Parsed (σ : Type) where
  ends : ParseEnd
  node : NodeStruct
  reader : σ

variable {σ : Type} (r : FileReader σ)

/-- The start of a round of the outer loop of `parseNode`; the inner loop is an argument. -/
def parseNodeWith (inner : σ → CurrentNode → Bool → Parsed σ) (s : σ) (node : CurrentNode) :
    Parsed σ :=
  match r.readByte s with
  | (none, s) => ⟨.returned false, node.struct, s⟩
  | (some byte, s) => inner s { node with type := byte.toNat } false

/-- The inner loop at `NODE_START`: a child node starts. -/
def parseChild (inner : σ → CurrentNode → Bool → Parsed σ) (s : σ) (node : CurrentNode) :
    Parsed σ :=
  match r.safeTell s with
  | none => ⟨.returned false, node.struct, s⟩
  | some pos =>
    if node.child ≠ .null then ⟨.assertion, node.struct, s⟩
    else
      let node := node.setPropsSize pos
      let child := parseNodeWith r inner s { start := pos }
      let node := { node with child := child.node }
      if child.ends = .returned true then inner child.reader node true
      else ⟨child.ends, node.struct, child.reader⟩

/-- The inner loop after `NODE_END`: the next node starts, or the list ends. -/
def parseNext (inner : σ → CurrentNode → Bool → Parsed σ) (s : σ) (node : CurrentNode) :
    Parsed σ :=
  match r.readByte s with
  | (none, s) => ⟨.returned true, node.struct, s⟩
  | (some byte, s) =>
    if byte = nodeStart then
      match r.safeTell s with
      | none => ⟨.returned false, node.struct, s⟩
      | some pos =>
        if node.next ≠ .null then ⟨.assertion, node.struct, s⟩
        else
          let next := parseNodeWith r inner s { start := pos }
          ⟨next.ends, { node with next := next.node }.struct, next.reader⟩
    else if byte = nodeEnd then
      -- the parent is to read this byte again
      match r.safeTell s with
      | none => ⟨.returned false, node.struct, s⟩
      | some pos => ⟨.returned (r.safeSeek pos s).1, node.struct, (r.safeSeek pos s).2⟩
    else ⟨.returned false, node.struct, s⟩

/-- The inner loop of `parseNode`; the next round of the outer loop is a call. -/
def parseNodeLoop : ℕ → σ → CurrentNode → Bool → Parsed σ
  | 0, s, node, _ => ⟨.outOfFuel, node.struct, s⟩
  | n + 1, s, node, setPropsSize =>
    match r.readByte s with
    | (none, s) => ⟨.returned false, node.struct, s⟩
    | (some byte, s) =>
      if byte = nodeStart then parseChild r (parseNodeLoop n) s node
      else if byte = nodeEnd then
        match if setPropsSize then some node else (r.safeTell s).map node.setPropsSize with
        | none => ⟨.returned false, node.struct, s⟩
        | some node => parseNext r (parseNodeLoop n) s node
      else if byte = escapeChar then
        match r.readByte s with
        | (none, s) => ⟨.returned false, node.struct, s⟩
        | (some _, s) => parseNodeLoop n s node setPropsSize
      else parseNodeLoop n s node setPropsSize

def parseNode (n : ℕ) : σ → CurrentNode → Parsed σ := parseNodeWith r (parseNodeLoop r n)

/-- `openFile` for reading. -/
def openFile (file : List UInt8) (s : σ) : Parsed σ :=
  match file with
  | v₀ :: v₁ :: v₂ :: v₃ :: _ =>
    if v₀ ≠ 0 ∨ v₁ ≠ 0 ∨ v₂ ≠ 0 ∨ v₃ ≠ 0 then ⟨.returned false, .null, s⟩
    else match r.safeSeek 4 s with
    | (false, s) => ⟨.returned false, .null, s⟩
    | (true, s) =>
      let root : CurrentNode := { start := 4 }
      match r.safeSeek 4 s with
      | (false, s) => ⟨.returned false, root.struct, s⟩
      | (true, s) =>
        match r.readByte s with
        | (none, s) => ⟨.returned false, root.struct, s⟩
        | (some byte, s) =>
          if byte = nodeStart then parseNode r file.length s root
          else ⟨.returned false, root.struct, s⟩
  | _ => ⟨.returned false, .null, s⟩

/-! ## Properties -/

inductive PropsRead where
  | props (bytes : List UInt8)
  | nothing
  /-- More bytes are read than `m_buffer` holds. -/
  | overflow
  | endless
deriving DecidableEq

/-- What `getProps` uses of the loader: the reader and `m_buffer`. -/
structure Loader (σ : Type) where
  reader : σ
  buffer : List UInt8

/-- The loop that takes the escapes out of `m_buffer`, in place. -/
def unescape (propsSize : ℕ) : ℕ → List UInt8 → ℕ → ℕ → Bool → List UInt8 × ℕ
  | 0, buffer, _, j, _ => (buffer, j)
  | n + 1, buffer, i, j, escaped =>
    if i < propsSize then
      if buffer.getD i 0 = escapeChar then
        unescape propsSize n (buffer.set j (buffer.getD (i + 1) 0)) (i + 2) (j + 1) true
      else if escaped then
        unescape propsSize n (buffer.set j (buffer.getD i 0)) (i + 1) (j + 1) true
      else unescape propsSize n buffer (i + 1) (j + 1) false
    else (buffer, j)

def getProps (l : Loader σ) (start propsSize : ℕ) : PropsRead × Loader σ :=
  let buffer :=
    if l.buffer.length ≤ propsSize then List.replicate (l.buffer.length + 1024) 0 else l.buffer
  match r.readBytes propsSize ((start + 2) % 2 ^ 32) l.reader with
  | (.read bytes, s) =>
    if buffer.length < bytes.length then (.overflow, ⟨s, buffer⟩)
    else
      let (buffer, j) := unescape propsSize propsSize (bytes ++ buffer.drop bytes.length) 0 0 false
      (.props (buffer.take j), ⟨s, buffer⟩)
  | (.failed, s) => (.nothing, ⟨s, buffer⟩)
  | (.endless, s) => (.endless, ⟨s, buffer⟩)

end FileLoader

open FileLoader

/-! ## Reading directly -/

/-- `ftell` as `int32_t`, less one; the error value is -1. -/
def FileLoader.tellBefore (pos : ℕ) : Option ℕ :=
  if pos % 2 ^ 32 = 2 ^ 32 - 1 then none else some (uint32Sub pos 1)

/-- The file with its position. -/
def FileReader.plain (file : List UInt8) : FileReader ℕ where
  readByte p := match file[p]? with
    | some byte => (some byte, p + 1)
    | none => (none, p)
  safeTell := tellBefore
  safeSeek pos _ := (true, pos)
  readBytes size pos p :=
    -- position and size are `int32_t`; `fread` takes the size as `size_t`
    if 2 ^ 31 ≤ pos then (.failed, p)
    else
      let wanted := if size < 2 ^ 31 then size else size + (2 ^ 64 - 2 ^ 32)
      let bytes := (file.drop pos).take wanted
      (if bytes.length = size then .read bytes else .failed, pos + bytes.length)

/-! ## Reading through the cache -/

abbrev cacheBlocks : ℕ := 3

/-- `_cache`; the size is that of the data. -/
structure CacheBlock where
  loaded : Bool := false
  base : ℕ := 0
  data : List UInt8 := []

structure FileCache where
  block : Fin cacheBlocks → CacheBlock := fun _ => {}
  /-- `none` is `NO_VALID_CACHE`. -/
  index : Option (Fin cacheBlocks) := none
  offset : ℕ := 0

namespace FileCache

variable (file : List UInt8) (cacheSize : ℕ)

/-- The first byte of the block of a position, `pos & ~(m_cache_size - 1)`. -/
def basePos (cacheSize pos : ℕ) : ℕ :=
  (BitVec.ofNat 32 pos &&& ~~~ BitVec.ofNat 32 (cacheSize - 1)).toNat

/-- The block to load into: one that is not loaded, or one far away, or the first. -/
def loadingCache (c : FileCache) (base : ℕ) : Fin cacheBlocks :=
  match (List.finRange cacheBlocks).find? fun i => !(c.block i).loaded with
  | some i => i
  | none =>
    ((List.finRange cacheBlocks).find? fun i =>
      2 * cacheSize < (((c.block i).base : ℤ) - base).natAbs).getD 0

def loadCacheBlock (c : FileCache) (pos : ℕ) : Option (Fin cacheBlocks) × FileCache :=
  let base := basePos cacheSize pos
  let loading := c.loadingCache cacheSize base
  let data := (file.drop base).take cacheSize
  let fill (loaded : Bool) : FileCache :=
    { c with block := fun i => if i = loading then ⟨loaded, base, data⟩ else c.block i }
  if data.length < pos - base then (none, fill (c.block loading).loaded)
  else (some loading, fill true)

def getCacheBlock (c : FileCache) (pos : ℕ) : Option (Fin cacheBlocks) × FileCache :=
  match (List.finRange cacheBlocks).find? fun i =>
    (c.block i).loaded && (c.block i).base == basePos cacheSize pos with
  | some i => (some i, c)
  | none => loadCacheBlock file cacheSize c pos

/-- `m_cache_index` and `m_cache_offset` are set to a position. -/
def seekIn (c : FileCache) (i : Fin cacheBlocks) (pos : ℕ) : FileCache :=
  { c with index := some i, offset := uint32Sub pos (c.block i).base }

/-- The byte at `m_cache_offset` of a block. -/
def byteAt (c : FileCache) (i : Fin cacheBlocks) : Option UInt8 × FileCache :=
  match (c.block i).data[c.offset]? with
  | none => (none, c)
  | some byte => (some byte, { c with offset := c.offset + 1 })

def readByte (c : FileCache) : Option UInt8 × FileCache :=
  match c.index with
  | none => (none, c)
  | some i =>
    if (c.block i).data.length ≤ c.offset then
      let pos := (c.offset + (c.block i).base) % 2 ^ 32
      match getCacheBlock file cacheSize c pos with
      | (none, c) => (none, c)
      | (some i, c) => (c.seekIn i pos).byteAt i
    else c.byteAt i

def safeSeek (pos : ℕ) (c : FileCache) : Bool × FileCache :=
  match getCacheBlock file cacheSize c pos with
  | (none, c) => (false, c)
  | (some i, c) => (true, c.seekIn i pos)

def safeTell (c : FileCache) : Option ℕ :=
  c.index.map fun i => uint32Sub ((c.block i).base + c.offset) 1

/-- The loop of `readBytes`; a round that reads nothing repeats itself without end. -/
def readBlocks : ℕ → List UInt8 → ℕ → ℕ → FileCache → BytesRead × FileCache
  | 0, _, _, _, c => (.endless, c)
  | n + 1, buffer, remain, pos, c =>
    match getCacheBlock file cacheSize c pos with
    | (none, c) => (.failed, c)
    | (some i, c) =>
      let c := c.seekIn i pos
      let reading := min remain (uint32Sub (c.block i).data.length c.offset)
      let bytes := ((c.block i).data.drop c.offset).take reading
      let c := { c with offset := (c.offset + reading) % 2 ^ 32 }
      if remain - reading = 0 then (.read (buffer ++ bytes), c)
      else readBlocks n (buffer ++ bytes) (remain - reading) ((pos + reading) % 2 ^ 32) c

end FileCache

/-- The file through the cache. -/
def FileReader.cached (file : List UInt8) (cacheSize : ℕ) : FileReader FileCache where
  readByte := FileCache.readByte file cacheSize
  safeTell := FileCache.safeTell
  safeSeek := FileCache.safeSeek file cacheSize
  readBytes size pos c := FileCache.readBlocks file cacheSize (size + 1) [] size pos c

/-- The cache size that `openFile` chooses, with `& ~0x1FFF`. -/
def FileLoader.cacheSize (fileSize : ℕ) : ℕ :=
  let size := min 32768 (max (fileSize / 20) 8192)
  size - size % 0x2000

theorem FileLoader.cacheSize_mem (fileSize : ℕ) :
    FileLoader.cacheSize fileSize ∈ [8192, 16384, 24576, 32768] := by
  have hlow : 8192 ≤ min 32768 (max (fileSize / 20) 8192) := by omega
  have hhigh : min 32768 (max (fileSize / 20) 8192) ≤ 32768 := Nat.min_le_left _ _
  rw [FileLoader.cacheSize]
  generalize min 32768 (max (fileSize / 20) 8192) = size at hlow hhigh
  simp only [List.mem_cons, List.not_mem_nil, or_false]
  omega

/-! ## Writing -/

namespace FileLoader

def writeData (data : List UInt8) (unescape : Bool) : List UInt8 :=
  data.flatMap fun c =>
    if unescape && (c = nodeStart || c = nodeEnd || c = escapeChar) then [escapeChar, c] else [c]

def startNode (type : UInt8) : List UInt8 := writeData [nodeStart] false ++ writeData [type] true

def setProps (data : List UInt8) (size : UInt16) : List UInt8 :=
  writeData (data.take size.toNat) true

def endNode : List UInt8 := writeData [nodeEnd] false

/-- `openFile` for writing. -/
def openFileWrite : List UInt8 := writeData [0, 0, 0, 0] false

end FileLoader

end TyanoCore
