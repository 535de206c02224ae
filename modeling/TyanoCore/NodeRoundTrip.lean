import TyanoCore.CachedReading

/-!
# Writing and reading a node file

What `startNode`, `setProps` and `endNode` write is a list of nodes of the grammar; reading it gives
back the nodes, and `getProps` takes the escapes out again.
-/

namespace TyanoCore

open FileLoader

/-! ## Escapes -/

/-- The bytes that escaped properties stand for. -/
def unescaped : List UInt8 → List UInt8
  | [] => []
  | [b] => [b]
  | b :: b' :: w => if b = escapeChar then b' :: unescaped w else b :: unescaped (b' :: w)

theorem unescaped_plain {b : UInt8} (hb : b ≠ escapeChar) (w : List UInt8) :
    unescaped (b :: w) = b :: unescaped w := by
  cases w with
  | nil => rfl
  | cons b' w => rw [unescaped, if_neg hb]

theorem unescaped_escaped (b : UInt8) (w : List UInt8) :
    unescaped (escapeChar :: b :: w) = b :: unescaped w := by
  rw [unescaped, if_pos rfl]

theorem writeData_cons (b : UInt8) (w : List UInt8) (escape : Bool) :
    writeData (b :: w) escape =
      (if escape && (b = nodeStart || b = nodeEnd || b = escapeChar) then [escapeChar, b] else [b]) ++
        writeData w escape := by
  unfold writeData
  rw [List.flatMap_cons]

theorem writeData_append (v w : List UInt8) (escape : Bool) :
    writeData (v ++ w) escape = writeData v escape ++ writeData w escape := by
  unfold writeData
  rw [List.flatMap_append]

/-- Properties are written as the grammar wants them. -/
theorem isProps_writeData (data : List UInt8) : IsProps (writeData data true) := by
  induction data with
  | nil => exact .nil
  | cons b data ih =>
    rw [writeData_cons]
    by_cases hspecial : b = nodeStart ∨ b = nodeEnd ∨ b = escapeChar
    · have hescape : (true && (b = nodeStart || b = nodeEnd || b = escapeChar)) = true := by
        simpa [or_assoc] using hspecial
      rw [if_pos hescape]
      exact .escaped ih
    · have hplain : ¬ (true && (b = nodeStart || b = nodeEnd || b = escapeChar)) = true := by
        simpa [or_assoc] using hspecial
      rw [if_neg hplain]
      simp only [not_or] at hspecial
      exact .plain hspecial.2.2 hspecial.1 hspecial.2.1 ih

theorem unescaped_writeData (data : List UInt8) : unescaped (writeData data true) = data := by
  induction data with
  | nil => rfl
  | cons b data ih =>
    rw [writeData_cons]
    by_cases hspecial : b = nodeStart ∨ b = nodeEnd ∨ b = escapeChar
    · have hescape : (true && (b = nodeStart || b = nodeEnd || b = escapeChar)) = true := by
        simpa [or_assoc] using hspecial
      rw [if_pos hescape, List.cons_append, List.cons_append, List.nil_append, unescaped_escaped, ih]
    · have hplain : ¬ (true && (b = nodeStart || b = nodeEnd || b = escapeChar)) = true := by
        simpa [or_assoc] using hspecial
      simp only [not_or] at hspecial
      rw [if_neg hplain, List.cons_append, List.nil_append, unescaped_plain hspecial.2.2, ih]

/-- Writing the byte behind those that are done. -/
theorem take_set_succ {buffer : List UInt8} {j : ℕ} (hj : j < buffer.length) (b : UInt8) :
    (buffer.set j b).take (j + 1) = buffer.take j ++ [b] := by
  rw [List.take_add_one, List.take_set_of_le (Nat.le_refl j), List.getElem?_set_self hj]
  rfl

/-- The loop of `getProps`: the bytes before `j` are done, those from `i` on are not yet looked at, and
as long as there was no escape the two are the same. -/
theorem unescape_spec {propsSize : ℕ} {raw tail done buffer : List UInt8} {n i j : ℕ}
    {escaped : Bool} (hraw : IsProps raw) (hsize : i + raw.length = propsSize)
    (hn : raw.length ≤ n) (hdrop : buffer.drop i = raw ++ tail) (hdone : buffer.take j = done)
    (hj : j ≤ i) (hescaped : escaped = false → i = j) (hlen : i + raw.length ≤ buffer.length) :
    (unescape propsSize n buffer i j escaped).1.take
      (unescape propsSize n buffer i j escaped).2 = done ++ unescaped raw := by
  -- along the escaped properties that are left, a byte or an escape pair at a time
  induction hraw generalizing done buffer n i j escaped with
  | nil =>
    have hend : ¬ i < propsSize := by
      rw [List.length_nil] at hsize
      omega
    have hstop : unescape propsSize n buffer i j escaped = (buffer, j) := by
      cases n with
      | zero => rfl
      | succ n => rw [unescape, if_neg hend]
    rw [hstop, hdone, unescaped, List.append_nil]
  | @plain b w hescape _ _ _ ih =>
    rw [List.length_cons] at hsize hn hlen
    obtain ⟨n, rfl⟩ : ∃ n', n = n' + 1 := ⟨n - 1, by omega⟩
    have hlt : i < propsSize := by omega
    have hget : buffer[i]? = some b := by
      rw [← List.head?_drop, hdrop]
      rfl
    have hgetD : buffer.getD i 0 = b := by
      rw [List.getD_eq_getElem?_getD, hget]
      rfl
    have hrest : buffer.drop (i + 1) = w ++ tail := by
      rw [← List.drop_drop, hdrop]
      rfl
    rw [unescaped_plain hescape, List.append_cons, unescape, if_pos hlt, hgetD, if_neg hescape]
    cases escaped with
    -- the byte is moved down, to a place that has been looked at
    | true =>
      rw [if_pos rfl]
      refine ih (by omega) (by omega) ?_ ?_ (by omega) (by simp) ?_
      · rw [List.drop_set_of_lt (by omega), hrest]
      · rw [take_set_succ (by omega), hdone]
      · rw [List.length_set]
        omega
    | false =>
      -- the byte is already in its place
      have hij : i = j := hescaped rfl
      rw [if_neg Bool.false_ne_true]
      refine ih (by omega) (by omega) hrest ?_ (by omega) (fun _ => congrArg (· + 1) hij) (by omega)
      rw [List.take_add_one, ← hij, hget, hij, hdone]
      rfl
  | @escaped b w _ ih =>
    simp only [List.length_cons] at hsize hn hlen
    obtain ⟨n, rfl⟩ : ∃ n', n = n' + 1 := ⟨n - 1, by omega⟩
    have hlt : i < propsSize := by omega
    have hget : buffer.getD i 0 = escapeChar := by
      rw [List.getD_eq_getElem?_getD, ← List.head?_drop, hdrop]
      rfl
    have hnext : buffer.getD (i + 1) 0 = b := by
      rw [List.getD_eq_getElem?_getD, ← List.head?_drop, ← List.drop_drop, hdrop]
      rfl
    have hrest : buffer.drop (i + 2) = w ++ tail := by
      rw [← List.drop_drop, hdrop]
      rfl
    rw [unescaped_escaped, List.append_cons, unescape, if_pos hlt, hget, if_pos rfl, hnext]
    refine ih (by omega) (by omega) ?_ ?_ (by omega) (by simp) ?_
    · rw [List.drop_set_of_lt (by omega), hrest]
    · rw [take_set_succ (by omega), hdone]
    · rw [List.length_set]
      omega

/-- `getProps` of a node whose properties lie below 2 ^ 31, with a buffer that holds them. -/
theorem getProps_spec {file props tail : List UInt8} {start p : ℕ} {buffer : List UInt8}
    (hfile : file.drop (start + 2) = props ++ tail) (hprops : IsProps props)
    (hpos : start + 2 < 2 ^ 31) (hsize : props.length < 2 ^ 31)
    (hbuffer : props.length ≤ buffer.length + 1024) :
    (getProps (.plain file) ⟨p, buffer⟩ start props.length).1 = .props (unescaped props) := by
  have hstart : (start + 2) % 2 ^ 32 = start + 2 := Nat.mod_eq_of_lt (by omega)
  have hread : (FileReader.plain file).readBytes props.length (start + 2) p =
      (.read props, start + 2 + props.length) := by
    have hfits : ¬ 2 ^ 31 ≤ start + 2 := by omega
    simp only [FileReader.plain, if_neg hfits, if_pos hsize, hfile, List.take_left, if_true]
  unfold getProps
  dsimp only
  rw [hstart, hread]
  dsimp only
  generalize hlarge : (if buffer.length ≤ props.length then List.replicate (buffer.length + 1024) 0
    else buffer) = large
  -- `m_buffer` is enlarged once, by 1024 bytes
  have hfits : ¬ large.length < props.length := by
    rw [← hlarge]
    split
    · rw [List.length_replicate]
      omega
    · omega
  rw [if_neg hfits]
  have hlarge : 0 + props.length ≤ (props ++ large.drop props.length).length := by
    rw [List.length_append]
    omega
  have hunescape := unescape_spec hprops (Nat.zero_add _) (Nat.le_refl _) rfl rfl (Nat.le_refl 0)
    (fun _ : false = false => rfl) hlarge
  exact congrArg PropsRead.props hunescape

/-! ## Writing a forest -/

/-- What one call of `setProps` can write. -/
structure PropsPiece where
  data : List UInt8
  small : data.length < 2 ^ 16

/-- Nodes to be written: types that are no special bytes, and the properties in the pieces that
`setProps` is called with. -/
inductive NodeForest where
  | nil
  | cons (type : {type : UInt8 // type < 0xFD}) (pieces : List PropsPiece)
      (children siblings : NodeForest)

def NodeForest.write : NodeForest → List UInt8
  | .nil => []
  | .cons type pieces children siblings =>
    startNode type ++
      (pieces.flatMap fun piece => setProps piece.data (.ofNat piece.data.length)) ++
        children.write ++ endNode ++ siblings.write

/-- The nodes that have been read are those of the forest. -/
def NodeForest.ReadsBack (propsOf : ℕ → ℕ → List UInt8 → Prop) : NodeForest → NodeStruct → Prop
  | .nil, .null => True
  | .cons type pieces children siblings, .node start propsSize type' next child =>
    type' = type.1.toNat ∧ propsOf start propsSize (pieces.flatMap PropsPiece.data) ∧
      children.ReadsBack propsOf child ∧ siblings.ReadsBack propsOf next
  | _, _ => False

theorem setProps_piece (piece : PropsPiece) :
    setProps piece.data (.ofNat piece.data.length) = writeData piece.data true := by
  have hsize : (UInt16.ofNat piece.data.length).toNat = piece.data.length := by
    rw [UInt16.toNat_ofNat']
    exact Nat.mod_eq_of_lt piece.small
  rw [setProps, hsize, List.take_length]

/-- Written in pieces or at once, the properties are the same. -/
theorem write_pieces (pieces : List PropsPiece) :
    (pieces.flatMap fun piece => setProps piece.data (.ofNat piece.data.length)) =
      writeData (pieces.flatMap PropsPiece.data) true := by
  induction pieces with
  | nil => rfl
  | cons piece pieces ih =>
    rw [List.flatMap_cons, List.flatMap_cons, ih, writeData_append, setProps_piece]

theorem write_cons (type : {type : UInt8 // type < 0xFD}) (pieces : List PropsPiece)
    (children siblings : NodeForest) :
    (NodeForest.cons type pieces children siblings).write =
      nodeStart :: type.1 :: (writeData (pieces.flatMap PropsPiece.data) true ++
        (children.write ++ nodeEnd :: siblings.write)) := by
  -- the type is written without an escape
  have htype : ¬ (true && (type.1 = nodeStart || type.1 = nodeEnd || type.1 = escapeChar)) = true := by
    have hlt : type.1.toNat < 0xFD := type.2
    simp only [Bool.true_and, Bool.or_eq_true, decide_eq_true_eq, not_or, ← UInt8.toNat_inj,
      nodeStart, nodeEnd, escapeChar]
    refine ⟨⟨?_, ?_⟩, ?_⟩
    · intro h
      simp at h
      omega
    · intro h
      simp at h
      omega
    · intro h
      simp at h
      omega
  have hstart : startNode type.1 = [nodeStart, type.1] := by
    rw [startNode, writeData_cons type.1, if_neg htype]
    rfl
  have hend : endNode = [nodeEnd] := rfl
  rw [NodeForest.write, write_pieces, hstart, hend]
  simp only [List.cons_append, List.nil_append, List.append_assoc]

/-- What is written is a list of nodes; the nodes that describe it are those that were written, as
far as their properties are read. -/
theorem write_describes {propsOf : ℕ → ℕ → List UInt8 → Prop} {file : List UInt8}
    (hprops : ∀ start props tail, file.drop (start + 2) = props ++ tail → tail ≠ [] →
      IsProps props → propsOf start props.length (unescaped props)) (f : NodeForest) {pos : ℕ}
    {rest : List UInt8} (hfile : file.drop pos = f.write ++ rest) :
    ∃ node, Describes pos node f.write ∧ f.ReadsBack propsOf node := by
  induction f generalizing pos rest with
  | nil => exact ⟨.null, .nil, trivial⟩
  | cons type pieces children siblings ihchild ihnext =>
    rw [write_cons] at hfile ⊢
    generalize hdata : pieces.flatMap PropsPiece.data = data at hfile ⊢
    have hafter : file.drop (pos + 2) =
        writeData data true ++ (children.write ++ nodeEnd :: (siblings.write ++ rest)) := by
      rw [← List.drop_drop, hfile]
      simp only [List.cons_append, List.append_assoc, List.drop_succ_cons, List.drop_zero]
    have hchildren : file.drop (pos + 2 + (writeData data true).length) =
        children.write ++ nodeEnd :: (siblings.write ++ rest) := by
      rw [← List.drop_drop, hafter, List.drop_left]
    have hsiblings : file.drop (pos + 2 + (writeData data true).length +
        children.write.length + 1) = siblings.write ++ rest := by
      rw [← List.drop_drop, ← List.drop_drop, hchildren, List.drop_left]
      rfl
    obtain ⟨child, hchild, hchild'⟩ := ihchild hchildren
    obtain ⟨next, hnext, hnext'⟩ := ihnext hsiblings
    refine ⟨_, .cons (isProps_writeData data) hchild hnext, rfl, ?_, hchild', hnext'⟩
    -- taking out the escapes gives back what was written
    have hread := hprops pos _ _ hafter (by simp) (isProps_writeData data)
    rw [unescaped_writeData, ← hdata] at hread
    rw [← hdata]
    exact hread

/-- `getProps` gives the bytes at any time, with a buffer that is large enough. -/
def PropsOf (file : List UInt8) (start propsSize : ℕ) (bytes : List UInt8) : Prop :=
  ∀ p buffer, propsSize ≤ buffer.length + 1024 →
    (getProps (.plain file) ⟨p, buffer⟩ start propsSize).1 = .props bytes

theorem propsOf_drop {file : List UInt8} (hlen : file.length < 2 ^ 31) (start : ℕ)
    (props tail : List UInt8) (hprops : file.drop (start + 2) = props ++ tail) (htail : tail ≠ [])
    (hisProps : IsProps props) : PropsOf file start props.length (unescaped props) := by
  intro p buffer hbuffer
  have hlength := congrArg List.length hprops
  have hpos : 0 < tail.length := List.length_pos_of_ne_nil htail
  rw [List.length_drop, List.length_append] at hlength
  exact getProps_spec hprops hisProps (by omega) (by omega) hbuffer

/-- A forest that is not empty and is written to a file shorter than 2 ^ 31 bytes is read back. -/
theorem nodeFile_roundTrip (f : NodeForest) (hne : f ≠ .nil)
    (hlen : (openFileWrite ++ f.write).length < 2 ^ 31) :
    let file := openFileWrite ++ f.write
    let result := openFile (.plain file) file 0
    result.ends = .returned true ∧ f.ReadsBack (PropsOf file) result.node := by
  intro file result
  have hversion : file = versioned f.write := rfl
  have hdrop : file.drop 4 = f.write ++ [] := (List.append_nil _).symm
  have hlen' : file.length < 2 ^ 31 := hlen
  -- the nodes that describe what was written are the ones that `parseNode` leaves
  obtain ⟨node, hdescribes, hback⟩ := write_describes (propsOf_drop hlen') f hdrop
  cases f with
  | nil => exact absurd rfl hne
  | cons type pieces children siblings =>
    have hnonempty : (NodeForest.cons type pieces children siblings).write ≠ [] := by
      rw [write_cons]
      simp
    have hn : (NodeForest.cons type pieces children siblings).write.length ≤ file.length := by
      rw [hversion, versioned]
      simp only [List.length_cons]
      omega
    have hcomplete := parseNode_complete hdescribes hnonempty hdrop (.inl rfl)
      (by omega : file.length < 2 ^ 32 - 1) hn
    have hresult : result = parseNode (.plain file) file.length 5 { start := 4 } :=
      openFile_start 0 (write_cons type pieces children siblings)
    rw [hresult, hcomplete]
    exact ⟨rfl, hback⟩

def PropsPiece.zeros (k : ℕ) (hk : k < 2 ^ 16) : PropsPiece :=
  ⟨List.replicate k 0, by rwa [List.length_replicate]⟩

/-- A node with many zero bytes of properties, and one behind it. -/
def NodeForest.farNode (n k : ℕ) (hk : k < 2 ^ 16) : NodeForest :=
  .cons ⟨0, by decide⟩ (List.replicate n (PropsPiece.zeros k hk))
    .nil (.cons ⟨0, by decide⟩ [] .nil .nil)

theorem farNode_write {n k : ℕ} (hk : k < 2 ^ 16) :
    (NodeForest.farNode n k hk).write = nodeStart :: 0 ::
      (List.replicate (n * k) 0 ++ ([] ++ nodeEnd :: nodeStart :: 0 :: ([] ++ ([] ++ [nodeEnd])))) := by
  -- zeros are no special bytes, so nothing is escaped
  have hpieces (n : ℕ) : (List.replicate n (PropsPiece.zeros k hk)).flatMap PropsPiece.data =
      List.replicate (n * k) 0 := by
    induction n with
    | zero => rw [Nat.zero_mul]; rfl
    | succ n ih =>
      have hzeros : (PropsPiece.zeros k hk).data = List.replicate k 0 := rfl
      rw [List.replicate_succ, List.flatMap_cons, ih, hzeros, Nat.succ_mul, Nat.add_comm,
        List.replicate_add]
  have hzeros (m : ℕ) : writeData (List.replicate m 0) true = List.replicate m 0 := by
    induction m with
    | zero => rfl
    | succ m ih =>
      rw [List.replicate_succ, writeData_cons, ih]
      rfl
  rw [NodeForest.farNode, write_cons, write_cons, hpieces, hzeros]
  rfl

/-- Behind 2 ^ 31 bytes `fseek` is given a negative position. -/
theorem far_not_propsOf {file : List UInt8} {start : ℕ} (hfar : 2 ^ 31 ≤ start + 2)
    (hstart : start + 2 < 2 ^ 32) : ¬ PropsOf file start 0 [] := by
  intro hprops
  have hread := hprops 0 [] (Nat.zero_le _)
  have hpos : (start + 2) % 2 ^ 32 = start + 2 := Nat.mod_eq_of_lt hstart
  have hfails : (FileReader.plain file).readBytes 0 (start + 2) 0 = (.failed, 0) := by
    simp only [FileReader.plain, if_pos hfar]
  simp only [getProps, hpos, hfails] at hread
  cases hread

/-- The node behind the large one is parsed, but its properties cannot be read. -/
theorem farNode_not_read {n k : ℕ} (hk : k < 2 ^ 16) (hfar : 2 ^ 31 ≤ n * k)
    (hfar' : n * k < 2 ^ 31 + 2 ^ 30) {file : List UInt8}
    (hfile : file = versioned (NodeForest.farNode n k hk).write) :
    ¬ (NodeForest.farNode n k hk).ReadsBack (PropsOf file) (openFile (.plain file) file 0).node := by
  have hwrite := farNode_write (n := n) hk
  have hlength : (NodeForest.farNode n k hk).write.length = n * k + 6 := by
    rw [hwrite]
    simp only [List.length_cons, List.length_append, List.length_replicate, List.length_nil]
  have hdescribes : Describes 4 (.node 4 (List.replicate (n * k) (0 : UInt8)).length (0 : UInt8).toNat
      (.node (4 + 2 + (List.replicate (n * k) (0 : UInt8)).length + ([] : List UInt8).length + 1)
        ([] : List UInt8).length (0 : UInt8).toNat .null .null) .null)
      (NodeForest.farNode n k hk).write := by
    rw [hwrite]
    exact .cons (isProps_replicate (n * k)) .nil (.cons .nil .nil .nil)
  have hdrop : file.drop 4 = (NodeForest.farNode n k hk).write ++ [] := by
    rw [hfile, List.append_nil]
    rfl
  have hlen : file.length = n * k + 10 := by
    rw [hfile, versioned]
    simp only [List.length_cons, hlength]
  have hnonempty : (NodeForest.farNode n k hk).write ≠ [] := by
    rw [hwrite]
    exact List.cons_ne_nil _ _
  have hcomplete := parseNode_complete hdescribes hnonempty hdrop (.inl rfl)
    (by omega : file.length < 2 ^ 32 - 1)
    (by omega : (NodeForest.farNode n k hk).write.length ≤ file.length)
  have hopen : openFile (.plain file) file 0 =
      parseNode (.plain file) file.length 5 { start := 4 } := by
    rw [hfile]
    exact openFile_start 0 hwrite
  rw [hopen, hcomplete]
  -- the second node starts behind 2 ^ 31 bytes of zeros
  rintro ⟨-, -, -, -, hprops, -⟩
  rw [List.length_replicate, List.length_nil] at hprops
  exact far_not_propsOf (by omega) (by omega) hprops

/-- Neither the empty forest nor every larger one is read back. -/
theorem nodeFile_not_roundTrip :
    (openFile (.plain (openFileWrite ++ NodeForest.nil.write))
      (openFileWrite ++ NodeForest.nil.write) 0).ends = .returned false ∧
    ¬ ∀ f : NodeForest, f ≠ .nil → f.ReadsBack (PropsOf (openFileWrite ++ f.write))
      (openFile (.plain (openFileWrite ++ f.write)) (openFileWrite ++ f.write) 0).node := by
  refine ⟨by decide, fun hall => ?_⟩
  obtain ⟨n, k, hk, hfar, hfar'⟩ : ∃ n k : ℕ, k < 2 ^ 16 ∧ 2 ^ 31 ≤ n * k ∧
      n * k < 2 ^ 31 + 2 ^ 30 := ⟨65536, 32768, by omega, by omega, by omega⟩
  have hne : NodeForest.farNode n k hk ≠ .nil := by simp [NodeForest.farNode]
  exact farNode_not_read hk hfar hfar' rfl (hall _ hne)

/-- Two siblings and a child; the properties hold every special byte. -/
theorem nodeFile_roundTrip_small :
    let f : NodeForest :=
      .cons ⟨1, by decide⟩ [⟨[nodeStart, 65], by decide⟩, ⟨[nodeEnd], by decide⟩]
        (.cons ⟨2, by decide⟩ [⟨[escapeChar], by decide⟩] .nil .nil)
        (.cons ⟨3, by decide⟩ [] .nil .nil)
    let file := openFileWrite ++ f.write
    (openFile (.plain file) file 0).ends = .returned true ∧
      f.ReadsBack (PropsOf file) (openFile (.plain file) file 0).node :=
  nodeFile_roundTrip _ (by simp) (by decide)

end TyanoCore
