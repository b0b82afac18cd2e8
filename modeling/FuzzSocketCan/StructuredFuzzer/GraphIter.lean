import FuzzSocketCan.Lib.Iter
import FuzzSocketCan.StructuredFuzzer.Spec

/-! # Reading a graph: node and operation iterators

* **`nodeIter`** — splits the ops and the data of a graph into nodes.
* **`opIter`** — gives each op its meaning.
* **`nodeIter_chunks`**, **`opIter_node`** — both read a concatenation of nodes
  (`GraphNode.IsNode`) one by one. -/

namespace FuzzSocketCan

open Lib List

structure GraphNode where
  id : NodeTypeID
  opI : ℕ
  ops : List UInt16
  data : List UInt8
  deriving DecidableEq, Repr

/-! ## The node iterator -/

def vecHeader (lo hi : UInt8) : ℕ := lo.toNat ||| hi.toNat <<< 8

theorem vecHeader_eq (lo hi : UInt8) : vecHeader lo hi = lo.toNat + 256 * hi.toNat := by
  have h := Nat.shiftLeft_add_eq_or_of_lt (b := lo.toNat) (i := 8) lo.toNat_lt hi.toNat
  rw [vecHeader, Nat.or_comm, ← h, Nat.shiftLeft_eq]
  omega

structure NodeIter where
  opI : ℕ
  opFrag : List UInt16
  dataFrag : List UInt8

def nodeDataLen (spec : GraphSpec) (nType : NodeSpec) (dataFrag : List UInt8) : Except Panic ℕ :=
  match nType.data with
  | none => .ok 0
  | some did =>
    match spec.getData did with
    | none => .error .unwrapNone
    | some dType =>
      match dType.atomicType.size with
      | .fixed x => .ok x
      | .dynamic =>
        match dataFrag with
        | lo :: hi :: _ => .ok (vecHeader lo hi + 2)
        | _ => .error .indexOutOfBounds

def NodeIter.next (spec : GraphSpec) (it : NodeIter) : Except Panic (Option (GraphNode × NodeIter)) :=
  match it.opFrag with
  | [] => .ok none
  | id :: _ =>
    match spec.getNode id with
    | none => .error .unwrapNone
    | some nType =>
      let opsLen := 1 + nType.size
      if it.opFrag.length < opsLen then .error .indexOutOfBounds
      else
        match nodeDataLen spec nType it.dataFrag with
        | .error e => .error e
        | .ok dataLen =>
          if it.dataFrag.length < dataLen then .error .assertionFailed
          else
            .ok (some (⟨id, it.opI, it.opFrag.take opsLen, it.dataFrag.take dataLen⟩,
              ⟨it.opI + opsLen, it.opFrag.drop opsLen, it.dataFrag.drop dataLen⟩))

def nodeIterFrom (spec : GraphSpec) : ℕ → NodeIter → Iter Panic GraphNode
  | 0, _ => .ofList []
  | fuel + 1, it =>
    match it.next spec with
    | .error e => .panicking e
    | .ok none => .ofList []
    | .ok (some (node, it')) => .cons node (nodeIterFrom spec fuel it')

/-- All nodes, until the ops end or `next` panics. -/
def nodeIter (spec : GraphSpec) (ops : List UInt16) (data : List UInt8) : Iter Panic GraphNode :=
  nodeIterFrom spec (ops.length + 1) ⟨0, ops, data⟩

def AtomicDataType.Encodes (t : AtomicDataType) (data : List UInt8) : Prop :=
  match t.size with
  | .fixed x => data.length = x
  | .dynamic => ∃ lo hi body, data = lo :: hi :: body ∧ body.length = vecHeader lo hi

/-- `data` is what a node of the type carries. -/
def NodeSpec.Encodes (spec : GraphSpec) (nType : NodeSpec) (data : List UInt8) : Prop :=
  match nType.data with
  | none => data = []
  | some did => ∃ s, spec.getData did = some s ∧ s.atomicType.Encodes data

/-- A whole node: its ops and data are those of its type. -/
def GraphNode.IsNode (spec : GraphSpec) (node : GraphNode) : Prop :=
  ∃ nType operands, spec.getNode node.id = some nType ∧ node.ops = node.id :: operands ∧
    operands.length = nType.size ∧ nType.Encodes spec node.data

variable {spec : GraphSpec} {nType : NodeSpec} {node : GraphNode}

variable {data : List UInt8}

theorem nodeDataLen_append {rest : List UInt8} (h : nType.Encodes spec data) :
    nodeDataLen spec nType (data ++ rest) = .ok data.length := by
  unfold NodeSpec.Encodes at h
  unfold nodeDataLen
  split at h
  · next hd => rw [h]; rfl
  · next did hd =>
      obtain ⟨s, hs, henc⟩ := h
      simp only [hs]
      unfold AtomicDataType.Encodes at henc
      split at henc
      · next hsize => rw [henc]
      · next hsize =>
          obtain ⟨lo, hi, body, rfl, hbody⟩ := henc
          simp [hbody]

theorem encodes_of_nodeDataLen {n : ℕ} (h : nodeDataLen spec nType data = .ok n)
    (hn : n ≤ data.length) : nType.Encodes spec (data.take n) := by
  unfold nodeDataLen at h
  unfold NodeSpec.Encodes
  split at h
  · next hd => obtain rfl := Except.ok.inj h; rfl
  · next did hd =>
      split at h
      · cases h
      · next s hs =>
          refine ⟨s, hs, ?_⟩
          unfold AtomicDataType.Encodes
          split at h
          · next hsize =>
              obtain rfl := Except.ok.inj h
              rw [length_take, min_eq_left hn]
          · next hsize =>
              split at h
              · next lo hi body =>
                  obtain rfl := Except.ok.inj h
                  refine ⟨lo, hi, body.take (vecHeader lo hi), rfl, ?_⟩
                  simp only [length_cons] at hn
                  rw [length_take, min_eq_left (by omega)]
              · cases h

theorem GraphNode.IsNode.ops_length (h : node.IsNode spec) (hn : spec.getNode node.id = some nType) :
    node.ops.length = 1 + nType.size := by
  obtain ⟨nType', operands, hn', hops, hlen, -⟩ := h
  obtain rfl := Option.some.inj (hn'.symm.trans hn)
  rw [hops, length_cons, hlen, add_comm]

/-- **`next` reads one whole node off the front.** -/
theorem NodeIter.next_append (h : node.IsNode spec) (i : ℕ) (ops : List UInt16)
    (data : List UInt8) :
    NodeIter.next spec ⟨i, node.ops ++ ops, node.data ++ data⟩ =
      .ok (some ({ node with opI := i }, ⟨i + node.ops.length, ops, data⟩)) := by
  obtain ⟨nType, operands, hn, hops, hlen, hdata⟩ := id h
  have hopsLen := h.ops_length hn
  have hcons : node.ops ++ ops = node.id :: (operands ++ ops) := by rw [hops, cons_append]
  unfold NodeIter.next
  simp only [hcons, hn]
  rw [← hcons, ← hopsLen, if_neg (by rw [length_append]; omega), nodeDataLen_append hdata]
  simp [Nat.not_lt.2 (Nat.le_add_right _ _)]

variable {it : NodeIter}

theorem NodeIter.next_eq_some {it' : NodeIter} (h : it.next spec = .ok (some (node, it'))) :
    node.IsNode spec ∧ it.opFrag = node.ops ++ it'.opFrag ∧
      it.dataFrag = node.data ++ it'.dataFrag := by
  unfold NodeIter.next at h
  split at h
  · cases h
  · next id ops hops =>
    split at h
    · cases h
    · next nType hn =>
      dsimp only at h
      split at h
      · cases h
      · next hlen =>
        split at h
        · cases h
        · next n hdata =>
          split at h
          · cases h
          · next hlen' =>
            obtain ⟨rfl, rfl⟩ := h
            refine ⟨⟨nType, ops.take nType.size, hn, ?_, ?_, ?_⟩, ?_, ?_⟩
            · rw [hops, add_comm, take_succ_cons]
            · rw [hops, length_cons] at hlen
              rw [length_take]; omega
            · exact encodes_of_nodeDataLen hdata (not_lt.1 hlen')
            · exact (take_append_drop _ _).symm
            · exact (take_append_drop _ _).symm

/-! ### Graphs made of whole nodes -/

def opsOf (nodes : List GraphNode) : List UInt16 := nodes.flatMap GraphNode.ops

def dataOf (nodes : List GraphNode) : List UInt8 := nodes.flatMap GraphNode.data

@[simp] theorem opsOf_nil : opsOf [] = [] := rfl

@[simp] theorem dataOf_nil : dataOf [] = [] := rfl

@[simp] theorem opsOf_cons (n : GraphNode) (ns : List GraphNode) : opsOf (n :: ns) = n.ops ++ opsOf ns :=
  rfl

@[simp] theorem dataOf_cons (n : GraphNode) (ns : List GraphNode) :
    dataOf (n :: ns) = n.data ++ dataOf ns := rfl

@[simp] theorem opsOf_append (ns ms : List GraphNode) : opsOf (ns ++ ms) = opsOf ns ++ opsOf ms :=
  flatMap_append

@[simp] theorem dataOf_append (ns ms : List GraphNode) : dataOf (ns ++ ms) = dataOf ns ++ dataOf ms :=
  flatMap_append

def place : ℕ → List GraphNode → List GraphNode
  | _, [] => []
  | i, n :: ns => { n with opI := i } :: place (i + n.ops.length) ns

theorem opsOf_place (i : ℕ) (nodes : List GraphNode) : opsOf (place i nodes) = opsOf nodes := by
  induction nodes generalizing i with
  | nil => rfl
  | cons n ns ih => rw [place, opsOf_cons, opsOf_cons, ih]

theorem dataOf_place (i : ℕ) (nodes : List GraphNode) : dataOf (place i nodes) = dataOf nodes := by
  induction nodes generalizing i with
  | nil => rfl
  | cons n ns ih => rw [place, dataOf_cons, dataOf_cons, ih]

theorem GraphNode.IsNode.ops_pos (h : node.IsNode spec) : 0 < node.ops.length := by
  obtain ⟨nType, operands, -, hops, -⟩ := h
  rw [hops]; exact Nat.succ_pos _

variable {nodes : List GraphNode}

theorem length_le_length_opsOf (h : ∀ n ∈ nodes, n.IsNode spec) :
    nodes.length ≤ (opsOf nodes).length := by
  induction nodes with
  | nil => exact Nat.zero_le _
  | cons n ns ih =>
    have hpos := (h n mem_cons_self).ops_pos
    have := ih fun m hm => h m (mem_cons_of_mem _ hm)
    rw [length_cons, opsOf_cons, length_append]
    omega

theorem nodeIterFrom_chunks (h : ∀ n ∈ nodes, n.IsNode spec) (fuel i : ℕ) (data : List UInt8)
    (hfuel : (opsOf nodes).length < fuel) :
    nodeIterFrom spec fuel ⟨i, opsOf nodes, dataOf nodes ++ data⟩ = .ofList (place i nodes) := by
  induction nodes generalizing fuel i with
  | nil =>
    cases fuel with
    | zero => rfl
    | succ fuel => rfl
  | cons n ns ih =>
    have hn := h n mem_cons_self
    have hpos := hn.ops_pos
    rw [opsOf_cons, length_append] at hfuel
    obtain ⟨fuel, rfl⟩ : ∃ f, fuel = f + 1 := ⟨fuel - 1, by omega⟩
    rw [nodeIterFrom, opsOf_cons, dataOf_cons, append_assoc, NodeIter.next_append hn]
    simp only
    rw [ih (fun m hm => h m (mem_cons_of_mem _ hm)) fuel _ (by omega)]
    rfl

/-- **Whole nodes are read back.** -/
theorem nodeIter_chunks (h : ∀ n ∈ nodes, n.IsNode spec) :
    nodeIter spec (opsOf nodes) (dataOf nodes) = .ofList (place 0 nodes) := by
  have := nodeIterFrom_chunks h ((opsOf nodes).length + 1) 0 [] (Nat.lt_succ_self _)
  rwa [append_nil] at this

theorem nodeIterFrom_items {fuel : ℕ} : ∀ n ∈ (nodeIterFrom spec fuel it).items, n.IsNode spec := by
  induction fuel generalizing it with
  | zero => intro n hn; cases hn
  | succ fuel ih =>
    intro n hn
    rw [nodeIterFrom] at hn
    split at hn
    · cases hn
    · cases hn
    · next node it' hnext =>
        obtain rfl | hn := mem_cons.1 hn
        · exact (NodeIter.next_eq_some hnext).1
        · exact ih n hn

variable {ops : List UInt16}

theorem isNode_of_mem_nodeIter {n : GraphNode} (h : n ∈ (nodeIter spec ops data).items) :
    n.IsNode spec := nodeIterFrom_items n h

theorem NodeIter.next_eq_none (h : it.next spec = .ok none) : it.opFrag = [] := by
  unfold NodeIter.next at h
  split at h
  · next hops => exact hops
  · split at h
    · cases h
    · dsimp only at h
      split at h
      · cases h
      · split at h
        · cases h
        · split at h <;> cases h

theorem nodeIterFrom_whole {fuel : ℕ} (hfuel : it.opFrag.length < fuel)
    (h : (nodeIterFrom spec fuel it).stop = none) :
    it.opFrag = opsOf (nodeIterFrom spec fuel it).items ∧
      ∃ rest, it.dataFrag = dataOf (nodeIterFrom spec fuel it).items ++ rest := by
  induction fuel generalizing it with
  | zero => omega
  | succ fuel ih =>
    rw [nodeIterFrom] at h ⊢
    cases hnext : it.next spec with
    | error e => rw [hnext] at h; cases h
    | ok next =>
      rw [hnext] at h
      cases next with
      | none => exact ⟨NodeIter.next_eq_none hnext, _, rfl⟩
      | some p =>
        obtain ⟨node, it'⟩ := p
        obtain ⟨hnode, hops, hdata⟩ := NodeIter.next_eq_some hnext
        have hpos := hnode.ops_pos
        have hlen : it'.opFrag.length < fuel := by
          rw [hops, length_append] at hfuel; omega
        obtain ⟨hops', rest, hdata'⟩ := ih hlen h
        refine ⟨?_, rest, ?_⟩
        · rw [hops]; exact congrArg _ hops'
        · rw [hdata, hdata', ← append_assoc]; rfl

/-- **What is read without a panic is whole nodes.** -/
theorem nodeIter_whole (h : (nodeIter spec ops data).stop = none) :
    ops = opsOf (nodeIter spec ops data).items ∧
      ∃ rest, data = dataOf (nodeIter spec ops data).items ++ rest :=
  nodeIterFrom_whole (Nat.lt_succ_self _) h

theorem nodeIter_place (h : (nodeIter spec ops data).stop = none) :
    place 0 (nodeIter spec ops data).items = (nodeIter spec ops data).items := by
  obtain ⟨hops, rest, hdata⟩ := nodeIter_whole h
  have hchunks := nodeIterFrom_chunks (fun n hn => isNode_of_mem_nodeIter hn)
    ((opsOf (nodeIter spec ops data).items).length + 1) 0 rest (Nat.lt_succ_self _)
  rw [← hops, ← hdata] at hchunks
  exact (congrArg Iter.items hchunks).symm

/-! ## The operation iterator -/

inductive GraphOp
  | get (vType : ValueTypeID) (id : ConnectorID)
  | pass (vType : ValueTypeID) (id : ConnectorID)
  | set (vType : ValueTypeID) (id : ConnectorID)
  | node (nType : NodeTypeID)
  deriving DecidableEq, Repr

structure OpIter where
  nodeSpec : Option NodeTypeID
  inputs : ℕ
  passthroughs : ℕ
  outputs : ℕ
  deriving DecidableEq, Repr

namespace OpIter

def new : OpIter := ⟨none, 0, 0, 0⟩

def getNode (spec : GraphSpec) (it : OpIter) : Except Panic NodeSpec :=
  match it.nodeSpec with
  | none => .error .unwrapNone
  | some n =>
    match spec.getNode n with
    | some node => .ok node
    | none => .error .unwrapNone

def operandType (types : List ValueTypeID) (left : ℕ) : Except Panic ValueTypeID :=
  match types[types.length - left]? with
  | some v => .ok v
  | none => .error .indexOutOfBounds

/-- `OpIter::next` at the op `x`. -/
def next (spec : GraphSpec) (it : OpIter) (x : UInt16) : Except Panic (GraphOp × OpIter) :=
  if it.inputs > 0 then do
    let node ← it.getNode spec
    let v ← operandType node.inputs it.inputs
    .ok (.get v x, { it with inputs := it.inputs - 1 })
  else if it.passthroughs > 0 then do
    let node ← it.getNode spec
    let v ← operandType node.passthroughs it.passthroughs
    .ok (.pass v x, { it with passthroughs := it.passthroughs - 1 })
  else if it.outputs > 0 then do
    let node ← it.getNode spec
    let v ← operandType node.outputs it.outputs
    .ok (.set v x, { it with outputs := it.outputs - 1 })
  else
    match spec.getNode x with
    | none => .error .unwrapNone
    | some node =>
      .ok (.node x,
        ⟨some node.id, node.inputs.length, node.passthroughs.length, node.outputs.length⟩)

end OpIter

def opIterFrom (spec : GraphSpec) : OpIter → List UInt16 → Iter Panic GraphOp
  | _, [] => .ofList []
  | it, x :: xs =>
    match it.next spec x with
    | .error e => .panicking e
    | .ok (op, it') => .cons op (opIterFrom spec it' xs)

def opIter (spec : GraphSpec) (frag : List UInt16) : Iter Panic GraphOp :=
  opIterFrom spec OpIter.new frag

@[simp] theorem opIter_nil (spec : GraphSpec) : opIter spec [] = .ofList [] := rfl

def NodeSpec.operands (nType : NodeSpec) : List (ConnectorID → GraphOp) :=
  nType.inputs.map GraphOp.get ++ nType.passthroughs.map GraphOp.pass ++
    nType.outputs.map GraphOp.set

def NodeSpec.operations (nType : NodeSpec) (ids : List ConnectorID) : List GraphOp :=
  .node nType.id :: List.zipWith (fun f c => f c) nType.operands ids

def OpIter.remaining (nType : NodeSpec) (it : OpIter) : List (ConnectorID → GraphOp) :=
  (nType.inputs.drop (nType.inputs.length - it.inputs)).map GraphOp.get ++
    (nType.passthroughs.drop (nType.passthroughs.length - it.passthroughs)).map GraphOp.pass ++
      (nType.outputs.drop (nType.outputs.length - it.outputs)).map GraphOp.set

structure OpIter.Inside (spec : GraphSpec) (nType : NodeSpec) (it : OpIter) : Prop where
  node : it.getNode spec = .ok nType
  inputs : it.inputs ≤ nType.inputs.length
  passthroughs : it.passthroughs ≤ nType.passthroughs.length
  outputs : it.outputs ≤ nType.outputs.length

theorem drop_operandType {types : List ValueTypeID} {left : ℕ} (h0 : 0 < left)
    (h : left ≤ types.length) : ∃ v, OpIter.operandType types left = .ok v ∧
      types.drop (types.length - left) = v :: types.drop (types.length - (left - 1)) := by
  have hlt : types.length - left < types.length := by omega
  refine ⟨types.get ⟨_, hlt⟩, ?_, ?_⟩
  · rw [OpIter.operandType, getElem?_eq_getElem hlt]; rfl
  · rw [drop_eq_getElem_cons hlt]
    congr 2
    omega

theorem OpIter.next_inside {it : OpIter} (h : it.Inside spec nType) {f : ConnectorID → GraphOp}
    {fs : List (ConnectorID → GraphOp)} (hrem : it.remaining nType = f :: fs) (x : UInt16) :
    ∃ it', it.next spec x = .ok (f x, it') ∧ it'.Inside spec nType ∧ it'.remaining nType = fs := by
  unfold OpIter.next
  unfold OpIter.remaining at hrem
  by_cases hi : it.inputs > 0
  · obtain ⟨v, hv, hdrop⟩ := drop_operandType hi h.inputs
    rw [hdrop, map_cons, cons_append, cons_append, cons.injEq] at hrem
    rw [if_pos hi, h.node]
    simp only [bind, Except.bind, hv]
    refine ⟨{ it with inputs := it.inputs - 1 }, by rw [← hrem.1],
      ⟨h.node, ?_, h.passthroughs, h.outputs⟩, hrem.2⟩
    exact le_trans (Nat.sub_le _ _) h.inputs
  · rw [if_neg hi]
    have hi0 : it.inputs = 0 := by omega
    rw [hi0, Nat.sub_zero, drop_length, map_nil, nil_append] at hrem
    by_cases hp : it.passthroughs > 0
    · obtain ⟨v, hv, hdrop⟩ := drop_operandType hp h.passthroughs
      rw [hdrop, map_cons, cons_append, cons.injEq] at hrem
      rw [if_pos hp, h.node]
      simp only [bind, Except.bind, hv]
      refine ⟨{ it with passthroughs := it.passthroughs - 1 }, by rw [← hrem.1],
        ⟨h.node, h.inputs, ?_, h.outputs⟩, ?_⟩
      · exact le_trans (Nat.sub_le _ _) h.passthroughs
      · simpa [OpIter.remaining, hi0] using hrem.2
    · rw [if_neg hp]
      have hp0 : it.passthroughs = 0 := by omega
      rw [hp0, Nat.sub_zero, drop_length, map_nil, nil_append] at hrem
      by_cases ho : it.outputs > 0
      · obtain ⟨v, hv, hdrop⟩ := drop_operandType ho h.outputs
        rw [hdrop, map_cons, cons.injEq] at hrem
        rw [if_pos ho, h.node]
        simp only [bind, Except.bind, hv]
        refine ⟨{ it with outputs := it.outputs - 1 }, by rw [← hrem.1],
          ⟨h.node, h.inputs, h.passthroughs, ?_⟩, ?_⟩
        · exact le_trans (Nat.sub_le _ _) h.outputs
        · simpa [OpIter.remaining, hi0, hp0] using hrem.2
      · have ho0 : it.outputs = 0 := by omega
        rw [ho0, Nat.sub_zero, drop_length] at hrem
        cases hrem

theorem opIterFrom_of_done {it : OpIter} (hi : it.inputs = 0) (hp : it.passthroughs = 0)
    (ho : it.outputs = 0) (frag : List UInt16) : opIterFrom spec it frag = opIter spec frag := by
  cases frag with
  | nil => rfl
  | cons x xs =>
    have hnext : it.next spec x = OpIter.new.next spec x := by
      simp [OpIter.next, OpIter.new, hi, hp, ho]
    rw [opIter, opIterFrom, opIterFrom, hnext]

/-- The operands of a node are read to its end. -/
theorem opIterFrom_inside {it : OpIter} (h : it.Inside spec nType) (ids rest : List UInt16)
    (hlen : ids.length = (it.remaining nType).length) :
    opIterFrom spec it (ids ++ rest) =
      .prepend (List.zipWith (fun f c => f c) (it.remaining nType) ids) (opIter spec rest) := by
  induction ids generalizing it with
  | nil =>
    have hrem : it.remaining nType = [] := eq_nil_of_length_eq_zero hlen.symm
    rw [hrem, zipWith_nil_left, Iter.prepend_nil, nil_append]
    simp only [OpIter.remaining, append_eq_nil_iff, map_eq_nil_iff,
      drop_eq_nil_iff] at hrem
    have := h.inputs
    have := h.passthroughs
    have := h.outputs
    exact opIterFrom_of_done (by omega) (by omega) (by omega) rest
  | cons x xs ih =>
    cases hrem : it.remaining nType with
    | nil => rw [hrem] at hlen; cases hlen
    | cons f fs =>
      obtain ⟨it', hnext, hinside, hrem'⟩ := OpIter.next_inside h hrem x
      rw [hrem, length_cons, length_cons] at hlen
      rw [cons_append, opIterFrom, hnext]
      simp only
      rw [ih hinside (by rw [hrem']; omega), hrem']
      rfl

theorem opIter_node {id : NodeTypeID} (hn : spec.getNode id = some nType) {ids : List UInt16}
    (hlen : ids.length = nType.size) (rest : List UInt16) :
    opIter spec (id :: ids ++ rest) = .prepend (nType.operations ids) (opIter spec rest) := by
  have hid := GraphSpec.getNode_id hn
  rw [cons_append, opIter, opIterFrom]
  have hnext : OpIter.new.next spec id = .ok (.node id,
      ⟨some nType.id, nType.inputs.length, nType.passthroughs.length, nType.outputs.length⟩) := by
    simp [OpIter.next, OpIter.new, hn]
  rw [hnext]
  simp only
  have hinside : OpIter.Inside spec nType
      ⟨some nType.id, nType.inputs.length, nType.passthroughs.length, nType.outputs.length⟩ := by
    refine ⟨?_, le_refl _, le_refl _, le_refl _⟩
    simp [OpIter.getNode, hid, hn]
  have hrem : OpIter.remaining nType
      ⟨some nType.id, nType.inputs.length, nType.passthroughs.length, nType.outputs.length⟩ =
        nType.operands := by
    simp [OpIter.remaining, NodeSpec.operands]
  rw [opIterFrom_inside hinside ids rest
    (by rw [hrem, hlen]; simp [NodeSpec.operands, NodeSpec.size, add_assoc]), hrem,
    NodeSpec.operations, hid]
  rfl

end FuzzSocketCan
