import TyanoCore.FileLoader

/-!
# The grammar of node files

`parseNode` accepts exactly the lists of nodes that the grammar generates, and the positions it
remembers are those of the properties, as long as the positions fit in 32 bits.
-/

namespace TyanoCore

open FileLoader

/-! ## The grammar -/

/-- Escaped properties: plain bytes and escape pairs. -/
inductive IsProps : List UInt8 → Prop where
  | nil : IsProps []
  | plain {b : UInt8} {w : List UInt8} (hescape : b ≠ escapeChar) (hstart : b ≠ nodeStart)
      (hend : b ≠ nodeEnd) : IsProps w → IsProps (b :: w)
  | escaped {b : UInt8} {w : List UInt8} : IsProps w → IsProps (escapeChar :: b :: w)

/-- Any number of nodes: a type, properties, the children and an end mark each. -/
inductive IsForest : List UInt8 → Prop where
  | nil : IsForest []
  | cons {type : UInt8} {props children siblings : List UInt8} :
      IsProps props → IsForest children → IsForest siblings →
      IsForest (nodeStart :: type :: (props ++ (children ++ nodeEnd :: siblings)))

/-- `Nodes`: a list of nodes that is not empty. -/
def IsNodes (w : List UInt8) : Prop := IsForest w ∧ w ≠ []

/-- What may follow the root nodes. -/
def Terminated (rest : List UInt8) : Prop := rest = [] ∨ ∃ w, rest = nodeEnd :: w

/-- The nodes have the types, positions and sizes of the bytes of a list of nodes at a position. -/
inductive Describes : ℕ → NodeStruct → List UInt8 → Prop where
  | nil {pos : ℕ} : Describes pos .null []
  | cons {pos : ℕ} {type : UInt8} {props children siblings : List UInt8} {next child : NodeStruct} :
      IsProps props → Describes (pos + 2 + props.length) child children →
      Describes (pos + 2 + props.length + children.length + 1) next siblings →
      Describes pos (.node pos props.length type.toNat next child)
        (nodeStart :: type :: (props ++ (children ++ nodeEnd :: siblings)))

theorem Describes.isForest {pos : ℕ} {node : NodeStruct} {w : List UInt8}
    (h : Describes pos node w) : IsForest w := by
  induction h with
  | nil => exact .nil
  | cons hprops _ _ hchildren hsiblings => exact .cons hprops hchildren hsiblings

theorem IsForest.describes {w : List UInt8} (h : IsForest w) (pos : ℕ) :
    ∃ node, Describes pos node w := by
  induction h generalizing pos with
  | nil => exact ⟨.null, .nil⟩
  | @cons type props children siblings hprops _ _ hchildren hsiblings =>
    obtain ⟨child, hchild⟩ := hchildren (pos + 2 + props.length)
    obtain ⟨next, hnext⟩ := hsiblings (pos + 2 + props.length + children.length + 1)
    exact ⟨_, .cons hprops hchild hnext⟩

theorem Describes.head {pos : ℕ} {node : NodeStruct} {w : List UInt8} (h : Describes pos node w) :
    node = .null ∧ w = [] ∨ ∃ w', w = nodeStart :: w' := by
  cases h with
  | nil => exact .inl ⟨rfl, rfl⟩
  | cons => exact .inr ⟨_, rfl⟩

/-! ## Reading the file directly -/

variable {file : List UInt8}

theorem plain_readByte_cons {p : ℕ} {b : UInt8} {w : List UInt8} (h : file.drop p = b :: w) :
    (FileReader.plain file).readByte p = (some b, p + 1) ∧ file.drop (p + 1) = w ∧
      p + 1 ≤ file.length := by
  have hget : file[p]? = some b := by
    rw [← List.head?_drop, h]
    rfl
  have hlt : p < file.length := by
    by_contra hge
    rw [List.drop_eq_nil_of_le (Nat.le_of_not_lt hge)] at h
    cases h
  refine ⟨?_, ?_, hlt⟩
  · simp only [FileReader.plain, hget]
  · rw [← List.drop_drop, h]
    rfl

theorem plain_readByte_nil {p : ℕ} (h : file.drop p = []) :
    (FileReader.plain file).readByte p = (none, p) := by
  have hget : file[p]? = none := by
    rw [← List.head?_drop, h]
    rfl
  simp only [FileReader.plain, hget]

theorem uint32Sub_of_le {a b : ℕ} (hb : b ≤ a) (ha : a < 2 ^ 32) : uint32Sub a b = a - b := by
  unfold uint32Sub
  omega

/-- The position before the byte just read. -/
theorem plain_safeTell {p : ℕ} (h : p + 1 < 2 ^ 32 - 1) :
    (FileReader.plain file).safeTell (p + 1) = some p := by
  have hne : ¬ (p + 1) % 2 ^ 32 = 2 ^ 32 - 1 := by omega
  have hsub : uint32Sub (p + 1) 1 = p := uint32Sub_of_le (Nat.le_add_left 1 p) (by omega)
  simp only [FileReader.plain, tellBefore, if_neg hne, hsub]

theorem setPropsSize_eq {node : CurrentNode} {p : ℕ} (hstart : node.start + 2 ≤ p)
    (hp : p < 2 ^ 32) :
    node.setPropsSize p = { node with propsSize := p - node.start - 2 } := by
  unfold CurrentNode.setPropsSize
  rw [uint32Sub_of_le (by omega) hp, uint32Sub_of_le (by omega) (by omega)]

/-! ## Every list of nodes is accepted -/

/-- The inner loop passes over properties. -/
theorem parseNodeLoop_props {props tail : List UInt8} (hprops : IsProps props) {p m n : ℕ}
    (node : CurrentNode) (h : file.drop p = props ++ tail) (hn : props.length + m ≤ n) :
    file.drop (p + props.length) = tail ∧ ∃ n', m ≤ n' ∧
      parseNodeLoop (.plain file) n p node false =
        parseNodeLoop (.plain file) n' (p + props.length) node false := by
  induction hprops generalizing p n with
  | nil => exact ⟨h, n, by simpa using hn, rfl⟩
  | @plain b w hescape hstart hend _ ih =>
    rw [List.length_cons] at hn
    obtain ⟨n, rfl⟩ : ∃ n', n = n' + 1 := ⟨n - 1, by omega⟩
    obtain ⟨hread, hdrop, -⟩ := plain_readByte_cons h
    obtain ⟨htail, n', hm, hloop⟩ := ih hdrop (n := n) (by omega)
    have hend' : p + 1 + w.length = p + (b :: w).length := by
      rw [List.length_cons]
      omega
    rw [hend'] at htail hloop
    refine ⟨htail, n', hm, ?_⟩
    rw [← hloop]
    simp only [parseNodeLoop, hread, if_neg hstart, if_neg hend, if_neg hescape]
  | @escaped b w _ ih =>
    simp only [List.length_cons] at hn
    obtain ⟨n, rfl⟩ : ∃ n', n = n' + 1 := ⟨n - 1, by omega⟩
    obtain ⟨hread, hdrop, -⟩ := plain_readByte_cons h
    obtain ⟨hread', hdrop', -⟩ := plain_readByte_cons hdrop
    obtain ⟨htail, n', hm, hloop⟩ := ih hdrop' (n := n) (by omega)
    have hend' : p + 1 + 1 + w.length = p + (escapeChar :: b :: w).length := by
      simp only [List.length_cons]
      omega
    have hmark : escapeChar ≠ nodeStart ∧ escapeChar ≠ nodeEnd := by decide
    rw [hend'] at htail hloop
    refine ⟨htail, n', hm, ?_⟩
    rw [← hloop]
    simp only [parseNodeLoop, hread, hread', if_neg hmark.1, if_neg hmark.2, if_true]

theorem nodeEnd_ne_nodeStart : nodeEnd ≠ nodeStart := by decide

/-- A list of nodes that ends where the file or its parent ends. -/
theorem parseNext_end {rest : List UInt8} {p n : ℕ} (node : CurrentNode)
    (h : file.drop (p + 1) = rest) (hrest : Terminated rest) (hlen : file.length < 2 ^ 32 - 1) :
    parseNext (.plain file) (parseNodeLoop (.plain file) n) (p + 1) node =
      ⟨.returned true, node.struct, p + 1⟩ := by
  unfold parseNext
  rcases hrest with rfl | ⟨w, rfl⟩
  · rw [plain_readByte_nil h]
  · obtain ⟨hread, -, hle⟩ := plain_readByte_cons h
    have htell : (FileReader.plain file).safeTell (p + 1 + 1) = some (p + 1) :=
      plain_safeTell (by omega)
    simp only [hread, if_neg nodeEnd_ne_nodeStart, if_true, htell]
    rfl

/-- The siblings behind the end mark of a node. -/
theorem parseNext_complete {siblings rest : List UInt8} {p n : ℕ} {next : NodeStruct}
    (node : CurrentNode) (hnode : node.next = .null) (hnext : Describes (p + 1) next siblings)
    (h : file.drop (p + 1) = siblings ++ rest) (hrest : Terminated rest)
    (hlen : file.length < 2 ^ 32 - 1)
    (hparse : siblings ≠ [] → parseNode (.plain file) n (p + 2) { start := p + 1 } =
      ⟨.returned true, next, p + 1 + siblings.length⟩) :
    parseNext (.plain file) (parseNodeLoop (.plain file) n) (p + 1) node =
      ⟨.returned true, { node with next := next }.struct, p + 1 + siblings.length⟩ := by
  rcases hnext.head with ⟨rfl, rfl⟩ | ⟨w, hw⟩
  · rw [parseNext_end node h hrest hlen, ← hnode]
    rfl
  · have hnodes := hparse (by simp [hw])
    rw [hw] at h
    obtain ⟨hread, -, hle⟩ := plain_readByte_cons h
    have htell : (FileReader.plain file).safeTell (p + 1 + 1) = some (p + 1) :=
      plain_safeTell (by omega)
    have hnull : ¬ node.next ≠ .null := not_not_intro hnode
    rw [parseNode] at hnodes
    simp only [parseNext, hread, if_true, htell, if_neg hnull, hnodes]

/-- An end mark where a list of children has ended. -/
theorem parseNodeLoop_endMark {p n : ℕ} {w : List UInt8} (node : CurrentNode)
    (h : file.drop p = nodeEnd :: w) :
    parseNodeLoop (.plain file) (n + 1) p node true =
      parseNext (.plain file) (parseNodeLoop (.plain file) n) (p + 1) node := by
  obtain ⟨hread, -, -⟩ := plain_readByte_cons h
  simp only [parseNodeLoop, hread, if_neg nodeEnd_ne_nodeStart, if_true]

/-- An end mark right behind the properties. -/
theorem parseNodeLoop_leaf {p n : ℕ} {w : List UInt8} (node : CurrentNode)
    (h : file.drop p = nodeEnd :: w) (hlen : file.length < 2 ^ 32 - 1) :
    parseNodeLoop (.plain file) (n + 1) p node false =
      parseNext (.plain file) (parseNodeLoop (.plain file) n) (p + 1) (node.setPropsSize p) := by
  obtain ⟨hread, -, hle⟩ := plain_readByte_cons h
  have htell : (FileReader.plain file).safeTell (p + 1) = some p := plain_safeTell (by omega)
  simp only [parseNodeLoop, hread, if_neg nodeEnd_ne_nodeStart, if_true, Bool.false_eq_true,
    if_false, htell, Option.map_some]

/-- The first child right behind the properties. -/
theorem parseNodeLoop_child {p q n : ℕ} {w : List UInt8} {child : NodeStruct} (node : CurrentNode)
    (hnode : node.child = .null) (h : file.drop p = nodeStart :: w)
    (hlen : file.length < 2 ^ 32 - 1)
    (hparse : parseNode (.plain file) n (p + 1) { start := p } = ⟨.returned true, child, q⟩) :
    parseNodeLoop (.plain file) (n + 1) p node false =
      parseNodeLoop (.plain file) n q { node.setPropsSize p with child := child } true := by
  obtain ⟨hread, -, hle⟩ := plain_readByte_cons h
  have htell : (FileReader.plain file).safeTell (p + 1) = some p := plain_safeTell (by omega)
  have hnull : ¬ node.child ≠ .null := not_not_intro hnode
  rw [parseNode] at hparse
  rw [parseNodeLoop]
  simp only [hread, if_true, parseChild, htell, if_neg hnull, hparse]

/-- Every list of nodes is accepted, with the nodes that describe it. -/
theorem parseNode_complete {start : ℕ} {node : NodeStruct} {w rest : List UInt8} {n : ℕ}
    (hw : Describes start node w) (hne : w ≠ []) (h : file.drop start = w ++ rest)
    (hrest : Terminated rest) (hlen : file.length < 2 ^ 32 - 1) (hn : w.length ≤ n) :
    parseNode (.plain file) n (start + 1) { start := start } =
      ⟨.returned true, node, start + w.length⟩ := by
  -- along the derivation: the children and the siblings are lists of nodes of their own
  induction hw generalizing rest n with
  | nil => exact absurd rfl hne
  | @cons start type props children siblings next child hprops hchild hnext ihchild ihnext =>
    simp only [List.length_cons, List.length_append] at hn
    rw [List.cons_append, List.cons_append, List.append_assoc] at h
    obtain ⟨-, hdrop, -⟩ := plain_readByte_cons h
    obtain ⟨hread, hdrop, -⟩ := plain_readByte_cons hdrop
    have htwo : start + 1 + 1 = start + 2 := rfl
    rw [htwo] at hread hdrop
    obtain ⟨hdrop, m, hm, hloop⟩ := parseNodeLoop_props hprops
      { start := start, type := type.toNat } hdrop
      (by omega : props.length + (children.length + siblings.length + 3) ≤ n)
    have hparse : parseNode (.plain file) n (start + 1) { start := start } =
        parseNodeLoop (.plain file) m (start + 2 + props.length)
          { start := start, type := type.toNat } false := by
      rw [← hloop]
      simp only [parseNode, parseNodeWith, hread]
    -- the loop stands right behind the properties
    rw [hparse]
    -- what comes after the end mark
    have hafter (node : CurrentNode) (hnode : node.next = .null) (n : ℕ)
        (hn : siblings.length ≤ n)
        (hdrop : file.drop (start + 2 + props.length + children.length + 1) = siblings ++ rest) :=
      parseNext_complete node hnode hnext hdrop hrest hlen
        fun hne => ihnext hne hdrop hrest hn
    obtain ⟨m, rfl⟩ : ∃ m', m = m' + 1 := ⟨m - 1, by omega⟩
    have hlength :
        start + (nodeStart :: type :: (props ++ (children ++ nodeEnd :: siblings))).length =
          start + 2 + props.length + children.length + 1 + siblings.length := by
      simp only [List.length_cons, List.length_append]
      omega
    rw [hlength]
    -- `pos - start - 2` does not wrap around
    have hsize (node : CurrentNode) (hstart : node.start = start)
        (hp : start + 2 + props.length < 2 ^ 32) :
        node.setPropsSize (start + 2 + props.length) = { node with propsSize := props.length } := by
      rw [setPropsSize_eq (by omega) hp, hstart]
      congr 1
      omega
    rcases hchild.head with ⟨rfl, rfl⟩ | ⟨w, hw⟩
    · -- no children
      rw [List.length_nil, Nat.add_zero] at hafter ⊢
      obtain ⟨-, hdropEnd, hle⟩ := plain_readByte_cons hdrop
      rw [parseNodeLoop_leaf _ hdrop hlen, hsize _ rfl (by omega),
        hafter _ rfl m (by omega) hdropEnd]
      rfl
    · obtain ⟨m, rfl⟩ : ∃ m', m = m' + 1 := ⟨m - 1, by omega⟩
      rw [List.append_assoc] at hdrop
      have hchildren := ihchild (by simp [hw]) hdrop (.inr ⟨_, rfl⟩)
        (by omega : children.length ≤ m + 1)
      -- the child gives the end mark back
      have hback : file.drop (start + 2 + props.length + children.length) =
          nodeEnd :: (siblings ++ rest) := by
        rw [← List.drop_drop, hdrop, List.drop_left]
        rfl
      obtain ⟨-, hdropEnd, -⟩ := plain_readByte_cons hback
      rw [hw] at hdrop
      obtain ⟨-, -, hle⟩ := plain_readByte_cons hdrop
      rw [parseNodeLoop_child _ rfl hdrop hlen hchildren, hsize _ rfl (by omega),
        parseNodeLoop_endMark _ hback, hafter _ rfl m (by omega) hdropEnd]
      rfl

/-! ## Only lists of nodes are accepted -/

/-- What `parseNode` has read from a position on when it returns true. -/
def Accepted (file : List UInt8) (start : ℕ) (result : Parsed ℕ) : Prop :=
  ∃ w rest, w ≠ [] ∧ file.drop start = w ++ rest ∧ Describes start result.node w ∧
    Terminated rest ∧ result.reader = start + w.length

/-- What its inner loop has read when it returns true. -/
def LoopAccepted (file : List UInt8) (p : ℕ) (node : CurrentNode) (result : Parsed ℕ) : Prop :=
  ∃ props children siblings rest next child,
    file.drop p = props ++ (children ++ nodeEnd :: (siblings ++ rest)) ∧ IsProps props ∧
    Describes (p + props.length) child children ∧
    Describes (p + props.length + children.length + 1) next siblings ∧ Terminated rest ∧
    result.node = .node node.start (p + props.length - node.start - 2) node.type next child ∧
    result.reader = p + props.length + children.length + 1 + siblings.length

theorem LoopAccepted.extend {p : ℕ} {node : CurrentNode} {result : Parsed ℕ} (first : List UInt8)
    (h : LoopAccepted file (p + first.length) node result)
    (hbytes : file.drop p = first ++ file.drop (p + first.length))
    (hfirst : ∀ w, IsProps w → IsProps (first ++ w)) : LoopAccepted file p node result := by
  obtain ⟨props, children, siblings, rest, next, child, hprops, hrest⟩ := h
  rw [hprops, ← List.append_assoc] at hbytes
  refine ⟨first ++ props, children, siblings, rest, next, child, hbytes, ?_⟩
  rw [List.length_append, ← Nat.add_assoc]
  exact ⟨hfirst props hrest.1, hrest.2⟩

theorem parseNode_accepted {start n : ℕ} {w : List UInt8} (h : file.drop start = nodeStart :: w)
    (hloop : ∀ type, (parseNodeLoop (.plain file) n (start + 2)
        { start := start, type := type } false).ends = .returned true →
      LoopAccepted file (start + 2) { start := start, type := type }
        (parseNodeLoop (.plain file) n (start + 2) { start := start, type := type } false))
    (hends : (parseNode (.plain file) n (start + 1) { start := start }).ends = .returned true) :
    Accepted file start (parseNode (.plain file) n (start + 1) { start := start }) := by
  obtain ⟨-, hdrop, -⟩ := plain_readByte_cons h
  -- the type of the node, which may be missing
  cases hw : w with
  | nil =>
    rw [hw] at hdrop
    simp [parseNode, parseNodeWith, plain_readByte_nil hdrop] at hends
  | cons type w' =>
    rw [hw] at hdrop h
    obtain ⟨hread, hdrop, -⟩ := plain_readByte_cons hdrop
    have hparse : parseNode (.plain file) n (start + 1) { start := start } =
        parseNodeLoop (.plain file) n (start + 2) { start := start, type := type.toNat } false := by
      simp only [parseNode, parseNodeWith, hread]
    rw [hparse] at hends ⊢
    obtain ⟨props, children, siblings, rest, next, child, hbytes, hprops, hchild, hnext, hrest,
      hnode, hreader⟩ := hloop type.toNat hends
    have hw' : w' = props ++ (children ++ nodeEnd :: (siblings ++ rest)) := hdrop.symm.trans hbytes
    refine ⟨nodeStart :: type :: (props ++ (children ++ nodeEnd :: siblings)), rest, by simp, ?_,
      ?_, hrest, ?_⟩
    · rw [h, hw']
      simp only [List.cons_append, List.append_assoc]
    · have hsize : start + 2 + props.length - start - 2 = props.length := by omega
      rw [hnode, hsize]
      exact .cons hprops hchild hnext
    · rw [hreader]
      simp only [List.length_cons, List.length_append]
      omega

/-- After the end mark: the siblings that have been read. -/
theorem parseNext_accepted {p n : ℕ} (node : CurrentNode) (hnull : node.next = .null)
    (hlen : file.length < 2 ^ 32 - 1)
    (hparse : ∀ start w, file.drop start = nodeStart :: w →
      (parseNode (.plain file) n (start + 1) { start := start }).ends = .returned true →
      Accepted file start (parseNode (.plain file) n (start + 1) { start := start }))
    (hends : (parseNext (.plain file) (parseNodeLoop (.plain file) n) p node).ends =
      .returned true) :
    ∃ siblings rest next, file.drop p = siblings ++ rest ∧ Describes p next siblings ∧
      Terminated rest ∧
      (parseNext (.plain file) (parseNodeLoop (.plain file) n) p node).node =
        { node with next := next }.struct ∧
      (parseNext (.plain file) (parseNodeLoop (.plain file) n) p node).reader =
        p + siblings.length := by
  -- the byte behind the end mark: none, the start of a sibling, or the end mark of the parent
  unfold parseNext at hends ⊢
  cases hdrop : file.drop p with
  | nil =>
    rw [plain_readByte_nil hdrop]
    refine ⟨[], [], .null, rfl, .nil, .inl rfl, ?_, rfl⟩
    rw [← hnull]
  | cons byte w =>
    obtain ⟨hread, -, hle⟩ := plain_readByte_cons hdrop
    have htell : (FileReader.plain file).safeTell (p + 1) = some p := plain_safeTell (by omega)
    have hfresh : ¬ node.next ≠ .null := not_not_intro hnull
    by_cases hstart : byte = nodeStart
    · rw [hstart] at hdrop
      simp only [hread, if_pos hstart, htell, if_neg hfresh] at hends ⊢
      obtain ⟨siblings, rest, hne, hbytes, hnext, hrest, hreader⟩ := hparse p w hdrop hends
      exact ⟨siblings, rest, _, by rw [← hstart] at hdrop; rw [← hdrop, hbytes], hnext, hrest, rfl,
        hreader⟩
    · by_cases hend : byte = nodeEnd
      · simp only [hread, if_neg hstart, if_pos hend, htell]
        refine ⟨[], byte :: w, .null, rfl, .nil, .inr ⟨w, by rw [hend]⟩, ?_, rfl⟩
        rw [← hnull]
      · simp [hread, if_neg hstart, if_neg hend] at hends

/-- The loop stops at the end of a list of children; only an end mark lets it go on. -/
theorem parseNodeLoop_closing {p : ℕ} {rest : List UInt8} (n : ℕ) (node : CurrentNode)
    (h : file.drop p = rest) (hrest : Terminated rest) :
    parseNodeLoop (.plain file) (n + 1) p node true = ⟨.returned false, node.struct, p⟩ ∨
      ∃ w, file.drop p = nodeEnd :: w ∧ parseNodeLoop (.plain file) (n + 1) p node true =
        parseNext (.plain file) (parseNodeLoop (.plain file) n) (p + 1) node := by
  rcases hrest with rfl | ⟨w, rfl⟩
  · left
    simp only [parseNodeLoop, plain_readByte_nil h]
  · right
    exact ⟨w, h, parseNodeLoop_endMark node h⟩

/-- The inner loop, by strong induction on the fuel. -/
theorem parseNodeLoop_accepted (hlen : file.length < 2 ^ 32 - 1) {n p : ℕ} {node : CurrentNode}
    (hchild : node.child = .null) (hnext : node.next = .null) (hstart : node.start + 2 ≤ p)
    (hends : (parseNodeLoop (.plain file) n p node false).ends = .returned true) :
    LoopAccepted file p node (parseNodeLoop (.plain file) n p node false) := by
  induction n using Nat.strongRecOn generalizing p node with
  | ind n ih =>
  -- children and siblings are read by `parseNode` with less fuel
  have hparse (m : ℕ) (hm : m < n) (start : ℕ) (w : List UInt8)
      (h : file.drop start = nodeStart :: w)
      (hends : (parseNode (.plain file) m (start + 1) { start := start }).ends = .returned true) :
      Accepted file start (parseNode (.plain file) m (start + 1) { start := start }) :=
    parseNode_accepted h (fun _ hends => ih m hm rfl rfl (Nat.le_refl _) hends) hends
  cases n with
  | zero => simp [parseNodeLoop] at hends
  | succ n =>
    rw [parseNodeLoop] at hends ⊢
    cases hdrop : file.drop p with
    | nil => simp [plain_readByte_nil hdrop] at hends
    | cons byte w =>
      obtain ⟨hread, hdrop', hle⟩ := plain_readByte_cons hdrop
      have htell : (FileReader.plain file).safeTell (p + 1) = some p := plain_safeTell (by omega)
      have hsize : node.setPropsSize p = { node with propsSize := p - node.start - 2 } :=
        setPropsSize_eq hstart (by omega)
      by_cases hbyte : byte = nodeStart
      · -- a child: it has no properties before it that have not been passed
        rw [hbyte] at hdrop
        have hfresh : ¬ node.child ≠ .null := not_not_intro hchild
        simp only [hread, if_pos hbyte, parseChild, htell, if_neg hfresh, hsize] at hends ⊢
        have hchildren := hparse n (Nat.lt_succ_self n) p w hdrop
        rw [parseNode] at hchildren
        generalize parseNodeWith (.plain file) (parseNodeLoop (.plain file) n) (p + 1)
          { start := p } = child at hends hchildren ⊢
        by_cases hok : child.ends = .returned true
        · rw [if_pos hok] at hends ⊢
          obtain ⟨children, rest, hne, hbytes, hdescribes, hrest, hreader⟩ := hchildren hok
          have hback : file.drop (p + children.length) = rest := by
            rw [← List.drop_drop, hbytes, List.drop_left]
          rw [hreader] at hends ⊢
          cases n with
          | zero => simp [parseNodeLoop] at hends
          | succ n =>
            -- what the child gave back is an end mark, or the file is over
            rcases parseNodeLoop_closing n
              { node with propsSize := p - node.start - 2, child := child.node }
              hback hrest with hfail | ⟨w', hmark, hloop⟩
            · rw [hfail] at hends
              simp at hends
            · rw [hloop] at hends ⊢
              obtain ⟨hreadEnd, hdropEnd, -⟩ := plain_readByte_cons hmark
              obtain ⟨siblings, rest', next, hw', hsiblings, hrest', hnode, hreader'⟩ :=
                parseNext_accepted
                  { node with propsSize := p - node.start - 2, child := child.node }
                  hnext hlen (hparse n (by omega)) hends
              refine ⟨[], children, siblings, rest', next, child.node, ?_, .nil, hdescribes,
                hsiblings, hrest', hnode, hreader'⟩
              rw [List.nil_append, hbytes, ← hback, hmark, ← hdropEnd, hw']
        · rw [if_neg hok] at hends
          exact absurd hends hok
      · by_cases hend : byte = nodeEnd
        · simp only [hread, if_neg hbyte, if_pos hend, Bool.false_eq_true, if_false, htell,
            Option.map_some, hsize] at hends ⊢
          obtain ⟨siblings, rest, next, hw, hsiblings, hrest, hnode, hreader⟩ :=
            parseNext_accepted { node with propsSize := p - node.start - 2 } hnext hlen
              (hparse n (Nat.lt_succ_self n)) hends
          refine ⟨[], [], siblings, rest, next, .null, ?_, .nil, .nil, hsiblings, hrest, ?_,
            hreader⟩
          · rw [hdrop, hend, ← hdrop', hw]
            rfl
          · rw [hnode, ← hchild]
            rfl
        · by_cases hescape : byte = escapeChar
          · -- an escape pair belongs to the properties
            simp only [hread, if_neg hbyte, if_neg hend, if_pos hescape] at hends ⊢
            cases hw : w with
            | nil =>
              rw [hw] at hdrop'
              simp [plain_readByte_nil hdrop'] at hends
            | cons byte' w' =>
              rw [hw] at hdrop'
              obtain ⟨hread', hdrop'', -⟩ := plain_readByte_cons hdrop'
              simp only [hread'] at hends ⊢
              refine .extend [byte, byte'] (ih n (Nat.lt_succ_self n) hchild hnext ?_ hends) ?_ ?_
              · omega
              · exact hdrop.trans (by rw [hw, ← hdrop'']; rfl)
              · intro w hw
                rw [hescape]
                exact .escaped hw
          · simp only [hread, if_neg hbyte, if_neg hend, if_neg hescape] at hends ⊢
            refine .extend [byte] (ih n (Nat.lt_succ_self n) hchild hnext ?_ hends) ?_ ?_
            · omega
            · exact hdrop.trans (by rw [← hdrop']; rfl)
            · exact fun w hw => .plain hescape hbyte hend hw

/-- What `parseNode` accepts is a list of nodes, followed by the end of the file or by an end
mark. -/
theorem parseNode_sound (hlen : file.length < 2 ^ 32 - 1) {start : ℕ} (n : ℕ) {w : List UInt8}
    (h : file.drop start = nodeStart :: w)
    (hends : (parseNode (.plain file) n (start + 1) { start := start }).ends = .returned true) :
    Accepted file start (parseNode (.plain file) n (start + 1) { start := start }) :=
  parseNode_accepted h
    (fun _ hends => parseNodeLoop_accepted hlen rfl rfl (Nat.le_refl _) hends) hends

/-! ## Termination -/

/-- The type of a node and what its inner loop reads. -/
theorem parseNode_returns_of {n start : ℕ}
    (hloop : ∀ type, start + 2 ≤ file.length → ∃ b, (parseNodeLoop (.plain file) n (start + 2)
      { start := start, type := type } false).ends = .returned b) :
    ∃ b, (parseNode (.plain file) n (start + 1) { start := start }).ends = .returned b := by
  unfold parseNode parseNodeWith
  cases hdrop : file.drop (start + 1) with
  | nil =>
    rw [plain_readByte_nil hdrop]
    exact ⟨false, rfl⟩
  | cons type w =>
    obtain ⟨hread, -, hle⟩ := plain_readByte_cons hdrop
    rw [hread]
    exact hloop type.toNat hle

theorem parseNext_returns {n p : ℕ} {node : CurrentNode} (hlen : file.length < 2 ^ 32 - 1)
    (hnull : node.next = .null)
    (hparse : ∃ b, (parseNode (.plain file) n (p + 1) { start := p }).ends = .returned b) :
    ∃ b, (parseNext (.plain file) (parseNodeLoop (.plain file) n) p node).ends = .returned b := by
  unfold parseNext
  cases hdrop : file.drop p with
  | nil =>
    rw [plain_readByte_nil hdrop]
    exact ⟨true, rfl⟩
  | cons byte w =>
    obtain ⟨hread, -, hle⟩ := plain_readByte_cons hdrop
    have htell : (FileReader.plain file).safeTell (p + 1) = some p := plain_safeTell (by omega)
    have hfresh : ¬ node.next ≠ .null := not_not_intro hnull
    simp only [hread, htell, if_neg hfresh]
    split
    · exact hparse
    split
    · exact ⟨true, rfl⟩
    · exact ⟨false, rfl⟩

/-- With fuel for every byte that is left the parser returns. -/
theorem parseNodeLoop_returns (hlen : file.length < 2 ^ 32 - 1) {n p : ℕ} {node : CurrentNode}
    {setPropsSize : Bool} (hp : p ≤ file.length) (hn : file.length < p + n)
    (hnext : node.next = .null) (hchild : setPropsSize = false → node.child = .null)
    (hset : setPropsSize = true → Terminated (file.drop p)) :
    ∃ b, (parseNodeLoop (.plain file) n p node setPropsSize).ends = .returned b := by
  induction n using Nat.strongRecOn generalizing p node setPropsSize with
  | ind n ih =>
  -- the fuel exceeds the bytes that are left, and every call passes a byte
  have hparse (m : ℕ) (hm : m < n) (start : ℕ) (hstart : file.length < start + 1 + m) :
      ∃ b, (parseNode (.plain file) m (start + 1) { start := start }).ends = .returned b :=
    parseNode_returns_of fun _ hle => ih m hm hle (by omega) rfl (fun _ => rfl) (by simp)
  have hafter (m : ℕ) (hm : m < n) (p : ℕ) (node : CurrentNode) (hnull : node.next = .null)
      (hp : file.length < p + 1 + m) :
      ∃ b, (parseNext (.plain file) (parseNodeLoop (.plain file) m) p node).ends = .returned b :=
    parseNext_returns hlen hnull (hparse m hm p hp)
  obtain ⟨n, rfl⟩ : ∃ m, n = m + 1 := ⟨n - 1, by omega⟩
  rw [parseNodeLoop]
  cases hdrop : file.drop p with
  | nil =>
    rw [plain_readByte_nil hdrop]
    exact ⟨false, rfl⟩
  | cons byte w =>
    obtain ⟨hread, hdrop', hle⟩ := plain_readByte_cons hdrop
    have htell : (FileReader.plain file).safeTell (p + 1) = some p := plain_safeTell (by omega)
    simp only [hread]
    by_cases hbyte : byte = nodeStart
    · rw [if_pos hbyte]
      cases hflag : setPropsSize with
      | true =>
        -- a child list has ended, so the byte is an end mark
        obtain hnil | ⟨w', hmark⟩ := hset hflag
        · rw [hdrop] at hnil
          cases hnil
        · rw [hdrop, List.cons.injEq] at hmark
          exact absurd (hmark.1.symm.trans hbyte) nodeEnd_ne_nodeStart
      | false =>
        have hfresh : ¬ node.child ≠ .null := not_not_intro (hchild hflag)
        simp only [parseChild, htell, if_neg hfresh]
        obtain ⟨b, hb⟩ := hparse n (Nat.lt_succ_self n) p (by omega)
        rw [hbyte] at hdrop
        have haccepted := parseNode_sound hlen n hdrop
        rw [parseNode] at hb haccepted
        generalize parseNodeWith (.plain file) (parseNodeLoop (.plain file) n) (p + 1)
          { start := p } = child at hb haccepted ⊢
        cases b with
        | false =>
          rw [if_neg (by simp [hb])]
          exact ⟨false, hb⟩
        | true =>
          rw [if_pos hb]
          obtain ⟨children, rest, hne, hbytes, -, hrest, hreader⟩ := haccepted hb
          have hback : file.drop (p + children.length) = rest := by
            rw [← List.drop_drop, hbytes, List.drop_left]
          have hlength : p + children.length ≤ file.length := by
            have hsum := congrArg List.length hbytes
            rw [List.length_drop, List.length_append] at hsum
            omega
          -- the child has read something, so that the fuel still suffices
          have hpos : 0 < children.length := List.length_pos_of_ne_nil hne
          rw [hreader]
          refine ih n (Nat.lt_succ_self n) hlength (by omega) ?_ (by simp) (fun _ => ?_)
          · rw [← hnext, ← node.setPropsSize_next p]
          · rw [hback]
            exact hrest
    · rw [if_neg hbyte]
      split
      · cases setPropsSize with
        | true => exact hafter n (Nat.lt_succ_self n) (p + 1) node hnext (by omega)
        | false =>
          simp only [Bool.false_eq_true, if_false, htell, Option.map_some]
          refine hafter n (Nat.lt_succ_self n) (p + 1) _ ?_ (by omega)
          rw [node.setPropsSize_next, hnext]
      · next hend =>
        -- other bytes come before the children only
        have hgoes : setPropsSize = false := by
          cases hflag : setPropsSize with
          | false => rfl
          | true =>
            obtain hnil | ⟨w', hmark⟩ := hset hflag
            · rw [hdrop] at hnil
              cases hnil
            · rw [hdrop, List.cons.injEq] at hmark
              exact absurd hmark.1 hend
        rw [hgoes] at hchild ⊢
        split
        · cases hdrop'' : file.drop (p + 1) with
          | nil =>
            rw [plain_readByte_nil hdrop'']
            exact ⟨false, rfl⟩
          | cons byte' w' =>
            obtain ⟨hread', -, hle'⟩ := plain_readByte_cons hdrop''
            simp only [hread']
            exact ih n (Nat.lt_succ_self n) hle' (by omega) hnext hchild (by simp)
        · exact ih n (Nat.lt_succ_self n) hle (by omega) hnext hchild (by simp)

theorem parseNode_returns (hlen : file.length < 2 ^ 32 - 1) {start n : ℕ}
    (hn : file.length < start + 2 + n) :
    ∃ b, (parseNode (.plain file) n (start + 1) { start := start }).ends = .returned b :=
  parseNode_returns_of fun _ hle =>
    parseNodeLoop_returns hlen hle (by omega) rfl (fun _ => rfl) (by simp)

/-- A file that begins with a version of zero. -/
def versioned (body : List UInt8) : List UInt8 := 0 :: 0 :: 0 :: 0 :: body

/-- `openFile` goes on to `parseNode` when the root node starts. -/
theorem openFile_start {body : List UInt8} (p : ℕ) {w : List UInt8} (h : body = nodeStart :: w) :
    openFile (.plain (versioned body)) (versioned body) p =
      parseNode (.plain (versioned body)) (versioned body).length 5 { start := 4 } := by
  have hdrop : (versioned body).drop 4 = nodeStart :: w := h
  obtain ⟨hread, -, -⟩ := plain_readByte_cons hdrop
  have hzero : ¬ ((0 : UInt8) ≠ 0 ∨ (0 : UInt8) ≠ 0 ∨ (0 : UInt8) ≠ 0 ∨ (0 : UInt8) ≠ 0) := by
    decide
  have hseek (p : ℕ) : (FileReader.plain (versioned body)).safeSeek 4 p = (true, 4) := rfl
  rw [versioned] at hread hseek ⊢
  simp only [openFile, if_neg hzero, hseek, hread, if_true]

theorem openFile_no_start {body : List UInt8} (p : ℕ) (h : ∀ w, body ≠ nodeStart :: w) :
    (openFile (.plain (versioned body)) (versioned body) p).ends = .returned false := by
  have hzero : ¬ ((0 : UInt8) ≠ 0 ∨ (0 : UInt8) ≠ 0 ∨ (0 : UInt8) ≠ 0 ∨ (0 : UInt8) ≠ 0) := by
    decide
  have hseek (p : ℕ) : (FileReader.plain (versioned body)).safeSeek 4 p = (true, 4) := rfl
  have hdrop : (versioned body).drop 4 = body := rfl
  cases hbody : body with
  | nil =>
    rw [hbody] at hdrop hseek
    have hread := plain_readByte_nil hdrop
    rw [versioned] at hread hseek ⊢
    simp only [openFile, if_neg hzero, hseek, hread]
  | cons byte w =>
    have hne : byte ≠ nodeStart := fun heq => h w (by rw [hbody, heq])
    rw [hbody] at hdrop hseek
    obtain ⟨hread, -, -⟩ := plain_readByte_cons hdrop
    rw [versioned] at hread hseek ⊢
    simp only [openFile, if_neg hzero, hseek, hread, if_neg hne]

/-- With a version of zero and positions below 2 ^ 32 - 1, `parseNode` returns, and it returns true
exactly for files that begin with a list of nodes, ended by the file or an end mark; the nodes
then have the positions of their properties. -/
theorem parseNode_exact (body : List UInt8) (hlen : (versioned body).length < 2 ^ 32 - 1) :
    let result := openFile (.plain (versioned body)) (versioned body) 4
    (∃ b, result.ends = .returned b) ∧
    (result.ends = .returned true ↔ ∃ w rest, body = w ++ rest ∧ IsNodes w ∧ Terminated rest) ∧
    (result.ends = .returned true → ∃ w rest, body = w ++ rest ∧ IsNodes w ∧ Terminated rest ∧
      Describes 4 result.node w) := by
  intro result
  have hbody : (versioned body).drop 4 = body := rfl
  by_cases hstart : ∃ w, body = nodeStart :: w
  · obtain ⟨w, hw⟩ := hstart
    have hresult : result = parseNode (.plain (versioned body)) (versioned body).length 5
        { start := 4 } := openFile_start 4 hw
    have hsound : result.ends = .returned true → ∃ w rest, body = w ++ rest ∧ IsNodes w ∧
        Terminated rest ∧ Describes 4 result.node w := by
      intro hends
      rw [hresult] at hends
      obtain ⟨w', rest, hne, hbytes, hdescribes, hrest, -⟩ :=
        parseNode_sound hlen _ (hbody.trans hw) hends
      rw [← hresult] at hdescribes
      exact ⟨w', rest, hbytes, ⟨hdescribes.isForest, hne⟩, hrest, hdescribes⟩
    refine ⟨?_, ⟨?_, ?_⟩, hsound⟩
    · rw [hresult]
      exact parseNode_returns hlen (by omega)
    · intro hends
      obtain ⟨w', rest, hbytes, hnodes, hrest, -⟩ := hsound hends
      exact ⟨w', rest, hbytes, hnodes, hrest⟩
    · rintro ⟨w', rest, hbytes, ⟨hforest, hne⟩, hrest⟩
      -- the nodes of the grammar are the nodes that are read
      obtain ⟨node, hdescribes⟩ := hforest.describes 4
      have hn : w'.length ≤ (versioned body).length := by
        rw [versioned, hbytes]
        simp only [List.length_cons, List.length_append]
        omega
      have hcomplete := parseNode_complete hdescribes hne (hbody.trans hbytes) hrest hlen hn
      rw [hresult, hcomplete]
  · have hno : ∀ w, body ≠ nodeStart :: w := fun w hw => hstart ⟨w, hw⟩
    have hfails : result.ends = .returned false := openFile_no_start 4 hno
    rw [hfails]
    refine ⟨⟨false, rfl⟩, iff_of_false (by simp) ?_, by simp⟩
    rintro ⟨w, rest, hbytes, ⟨hforest, hne⟩, -⟩
    cases hforest with
    | nil => exact hne rfl
    | cons => exact hno _ hbytes

theorem isProps_replicate (k : ℕ) : IsProps (List.replicate k 0) := by
  induction k with
  | zero => exact .nil
  | succ k ih => exact .plain (by decide) (by decide) (by decide) ih

/-- A single node of a file of 2 ^ 32 - 1 bytes. -/
theorem openFile_tell_error {k : ℕ} (hk : k + 8 = 2 ^ 32) :
    (openFile (.plain (versioned (nodeStart :: 0 :: (List.replicate k 0 ++ [nodeEnd]))))
      (versioned (nodeStart :: 0 :: (List.replicate k 0 ++ [nodeEnd]))) 4).ends =
        .returned false := by
  rw [openFile_start 4 rfl]
  generalize hfile : versioned (nodeStart :: 0 :: (List.replicate k 0 ++ [nodeEnd])) = file
  have hdrop : file.drop 5 = 0 :: (List.replicate k 0 ++ [nodeEnd]) := by
    rw [← hfile]
    rfl
  have hlength : file.length = k + 7 := by
    rw [← hfile]
    simp only [versioned, List.length_cons, List.length_append, List.length_replicate,
      List.length_nil]
  obtain ⟨hread, hdrop, -⟩ := plain_readByte_cons hdrop
  obtain ⟨hmark, n, hn, hloop⟩ := parseNodeLoop_props (isProps_replicate k)
    { start := 4, type := 0 } hdrop
    (by rw [hlength, List.length_replicate]; omega :
      (List.replicate k (0 : UInt8)).length + 1 ≤ file.length)
  obtain ⟨n, rfl⟩ : ∃ m, n = m + 1 := ⟨n - 1, by omega⟩
  obtain ⟨hreadEnd, -, -⟩ := plain_readByte_cons hmark
  -- the position behind the end mark looks like the error value of `ftell`
  have htell : (FileReader.plain file).safeTell
      (5 + 1 + (List.replicate k (0 : UInt8)).length + 1) = none := by
    rw [List.length_replicate]
    have hpos : (5 + 1 + k + 1) % 2 ^ 32 = 2 ^ 32 - 1 := by omega
    simp only [FileReader.plain, tellBefore, if_pos hpos]
  have hparse : parseNode (.plain file) file.length 5 { start := 4 } =
      parseNodeLoop (.plain file) file.length (5 + 1) { start := 4, type := 0 } false := by
    simp only [parseNode, parseNodeWith, hread]
    rfl
  rw [hparse, hloop]
  simp only [parseNodeLoop, hreadEnd, if_neg nodeEnd_ne_nodeStart, if_true, Bool.false_eq_true,
    if_false, htell, Option.map_none]

theorem parseNode_not_exact :
    ¬ ∀ body : List UInt8,
      (openFile (.plain (versioned body)) (versioned body) 4).ends = .returned true ↔
        ∃ w rest, body = w ++ rest ∧ IsNodes w ∧ Terminated rest := by
  intro hall
  obtain ⟨k, hk⟩ : ∃ k, k + 8 = 2 ^ 32 := ⟨2 ^ 32 - 8, by omega⟩
  have hforest : IsForest (nodeStart :: 0 :: (List.replicate k 0 ++ [nodeEnd])) :=
    .cons (isProps_replicate k) .nil .nil
  have haccepts := (hall _).mpr ⟨_, [], (List.append_nil _).symm, ⟨hforest, by simp⟩, .inl rfl⟩
  rw [openFile_tell_error hk] at haccepts
  cases haccepts

/-- A node with an escaped end mark among its properties. -/
theorem parseNode_exact_escape :
    let body := [nodeStart, 1, 65, escapeChar, nodeEnd, nodeEnd]
    let result := openFile (.plain (versioned body)) (versioned body) 4
    (∃ b, result.ends = .returned b) ∧
    (result.ends = .returned true ↔ ∃ w rest, body = w ++ rest ∧ IsNodes w ∧ Terminated rest) ∧
    (result.ends = .returned true → ∃ w rest, body = w ++ rest ∧ IsNodes w ∧ Terminated rest ∧
      Describes 4 result.node w) :=
  parseNode_exact [nodeStart, 1, 65, escapeChar, nodeEnd, nodeEnd] (by decide)

end TyanoCore
