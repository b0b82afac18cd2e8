import Mathlib.Data.List.Enum
import FuzzSocketCan.StructuredFuzzer.CopyEdges

/-! # The edges of a graph are type correct

`calc_edges` numbers the ports of each node and remembers which output created a connector. `to_dot`
looks the types of the ports up again.

* **`calcEdges_typeCorrect`** — the edges lead from the output that created a connector last to its
  uses, and the types at the two ends agree, as long as 16 bits tell the ports of a node apart. -/

namespace FuzzSocketCan

open Lib List Option Function

/-! ## Ports -/

structure PlacedOp where
  op : GraphOp
  node : ℕ
  port : ℕ
  deriving DecidableEq, Repr

variable {u d : PlacedOp} {k : Connector}

namespace PlacedOp

def Uses (u : PlacedOp) (k : Connector) : Prop := u.op = .get k.1 k.2 ∨ u.op = .pass k.1 k.2

def isUse (u : PlacedOp) : Bool :=
  match u.op with
  | .get _ _ | .pass _ _ => true
  | .set _ _ | .node _ => false

theorem Uses.isUse (h : u.Uses k) : u.isUse = true := by
  rcases h with h | h <;> rw [PlacedOp.isUse, h]

theorem Uses.unique {k' : Connector} (h : u.Uses k) (h' : u.Uses k') : k = k' := by
  rcases h with h | h <;> rcases h' with h' | h' <;> simp_all [Prod.ext_iff]

def Creates (pre : List PlacedOp) (k : Connector) (d : PlacedOp) : Prop :=
  ∃ a b, pre = a ++ d :: b ∧ d.op = .set k.1 k.2 ∧
    ∀ x ∈ b, x.op ≠ .set k.1 k.2 ∧ x.op ≠ .get k.1 k.2

theorem Creates.snoc {pre : List PlacedOp} (h : Creates pre k d) {x : PlacedOp}
    (hset : x.op ≠ .set k.1 k.2) (hget : x.op ≠ .get k.1 k.2) : Creates (pre ++ [x]) k d := by
  obtain ⟨a, b, rfl, hd, hb⟩ := h
  refine ⟨a, b ++ [x], by simp, hd, ?_⟩
  intro y hy
  rcases mem_append.1 hy with hy | hy
  · exact hb y hy
  · rw [mem_singleton.1 hy]
    exact ⟨hset, hget⟩

end PlacedOp

open PlacedOp

def NodeSpec.portList (nType : NodeSpec) : List (Operand × ℕ) :=
  (nType.inputs.map Operand.get).zipIdx ++ (nType.passthroughs.map Operand.pass).zipIdx ++
    (nType.outputs.map Operand.set).zipIdx

def placedOperations (spec : GraphSpec) (node : GraphNode) : List PlacedOp :=
  match spec.getNode node.id with
  | some nType => ⟨.node nType.id, node.opI, 0⟩ ::
      zipWith (fun p c => ⟨p.1.op c, node.opI, p.2⟩) nType.portList node.ops.tail
  | none => []

def placedOf {S : Type} [GraphStorage S] (spec : GraphSpec) (g : S) : List PlacedOp :=
  (nodesOf spec g).items.flatMap (placedOperations spec)

/-! ## Counting ports -/

structure Cursor where
  node : ℕ
  inPort : ℕ
  passPort : ℕ
  outPort : ℕ

variable {nodes : List GraphNode}

namespace Cursor

def port (c : Cursor) : Operand → ℕ
  | .get _ => c.inPort
  | .pass _ => c.passPort
  | .set _ => c.outPort

def bump (c : Cursor) : Operand → Cursor
  | .get _ => { c with inPort := c.inPort + 1 }
  | .pass _ => { c with passPort := c.passPort + 1 }
  | .set _ => { c with outPort := c.outPort + 1 }

def portsOf (c : Cursor) : List Operand → List (Operand × ℕ)
  | [] => []
  | o :: os => (o, c.port o) :: (c.bump o).portsOf os

theorem portsOf_append (c : Cursor) (os os' : List Operand) :
    c.portsOf (os ++ os') = c.portsOf os ++ (os.foldl bump c).portsOf os' := by
  induction os generalizing c with
  | nil => rfl
  | cons o os ih => rw [cons_append, portsOf, portsOf, ih, cons_append]; rfl

theorem portsOf_get (c : Cursor) (ts : List ValueTypeID) :
    c.portsOf (ts.map .get) = (ts.map Operand.get).zipIdx c.inPort ∧
      (ts.map Operand.get).foldl bump c = { c with inPort := c.inPort + ts.length } := by
  induction ts generalizing c with
  | nil => exact ⟨rfl, rfl⟩
  | cons t ts ih =>
    obtain ⟨hports, hfold⟩ := ih (c.bump (.get t))
    refine ⟨by rw [map_cons, portsOf, hports]; rfl, ?_⟩
    rw [map_cons, foldl_cons, hfold]
    simp [bump, add_comm, add_left_comm]

theorem portsOf_pass (c : Cursor) (ts : List ValueTypeID) :
    c.portsOf (ts.map .pass) = (ts.map Operand.pass).zipIdx c.passPort ∧
      (ts.map Operand.pass).foldl bump c = { c with passPort := c.passPort + ts.length } := by
  induction ts generalizing c with
  | nil => exact ⟨rfl, rfl⟩
  | cons t ts ih =>
    obtain ⟨hports, hfold⟩ := ih (c.bump (.pass t))
    refine ⟨by rw [map_cons, portsOf, hports]; rfl, ?_⟩
    rw [map_cons, foldl_cons, hfold]
    simp [bump, add_comm, add_left_comm]

theorem portsOf_set (c : Cursor) (ts : List ValueTypeID) :
    c.portsOf (ts.map .set) = (ts.map Operand.set).zipIdx c.outPort := by
  induction ts generalizing c with
  | nil => rfl
  | cons t ts ih => rw [map_cons, portsOf, ih]; rfl

theorem portsOf_operandList (nType : NodeSpec) (n : ℕ) :
    portsOf ⟨n, 0, 0, 0⟩ nType.operandList = nType.portList := by
  rw [NodeSpec.operandList, portsOf_append, portsOf_append, foldl_append, portsOf_set,
    (portsOf_get _ _).1, (portsOf_get _ _).2, (portsOf_pass _ _).1, (portsOf_pass _ _).2]
  rfl

def next (c : Cursor) (i : ℕ) : GraphOp → PlacedOp × Cursor
  | .node n => (⟨.node n, i, 0⟩, ⟨i, 0, 0, 0⟩)
  | .get v id => (⟨.get v id, c.node, c.inPort⟩, c.bump (.get v))
  | .pass v id => (⟨.pass v id, c.node, c.passPort⟩, c.bump (.pass v))
  | .set v id => (⟨.set v id, c.node, c.outPort⟩, c.bump (.set v))

@[simp] theorem next_fst_op (c : Cursor) (i : ℕ) (op : GraphOp) : (c.next i op).1.op = op := by
  cases op <;> rfl

def number (c : Cursor) (i : ℕ) : List GraphOp → List PlacedOp
  | [] => []
  | op :: ops => (c.next i op).1 :: (c.next i op).2.number (i + 1) ops

theorem number_operands (c : Cursor) (i : ℕ) {os : List Operand} {ids : List ConnectorID}
    (hlen : ids.length = os.length) (rest : List GraphOp) :
    c.number i (zipWith Operand.op os ids ++ rest) =
      zipWith (fun p id => ⟨p.1.op id, c.node, p.2⟩) (c.portsOf os) ids ++
        (os.foldl bump c).number (i + os.length) rest := by
  induction os generalizing c i ids with
  | nil => rfl
  | cons o os ih =>
    obtain ⟨id, ids, rfl⟩ := exists_cons_of_length_eq_add_one hlen
    have hnext : c.next i (o.op id) = (⟨o.op id, c.node, c.port o⟩, c.bump o) := by
      cases o <;> rfl
    have hnode : (c.bump o).node = c.node := by cases o <;> rfl
    rw [zipWith_cons_cons, cons_append, number, hnext,
      ih (c.bump o) (i + 1) (Nat.succ_injective hlen), hnode, portsOf, zipWith_cons_cons,
      foldl_cons, length_cons, cons_append,
      show i + 1 + os.length = i + (os.length + 1) by omega]

theorem number_place {spec : GraphSpec} (h : ∀ n ∈ nodes, n.HasOps spec) (c : Cursor) (i : ℕ) :
    c.number i (nodes.flatMap (nodeOperations spec)) =
      (place i nodes).flatMap (placedOperations spec) := by
  induction nodes generalizing c i with
  | nil => rfl
  | cons n ns ih =>
    obtain ⟨nType, ids, hn, hops, hlen⟩ := h n mem_cons_self
    have hplaced : placedOperations spec { n with opI := i } = ⟨.node nType.id, i, 0⟩ ::
        zipWith (fun p id => ⟨p.1.op id, i, p.2⟩) nType.portList ids := by
      simp [placedOperations, hn, hops]
    have hlen' : ids.length = nType.operandList.length := by
      rw [hlen, NodeSpec.length_operandList]
    rw [place, flatMap_cons, flatMap_cons, hplaced, nodeOperations_eq hn hops,
      NodeSpec.operations_eq, cons_append, number]
    show _ :: number ⟨i, 0, 0, 0⟩ (i + 1) _ = _
    rw [number_operands _ _ hlen', portsOf_operandList, NodeSpec.length_operandList,
      ih fun m hm => h m (mem_cons_of_mem _ hm), hops, length_cons, hlen,
      show i + 1 + nType.size = i + (nType.size + 1) by omega]
    rfl

end Cursor

def PlacedOp.OutputsDiffer (x y : PlacedOp) : Prop :=
  ∀ v id v' id', x.op = .set v id → y.op = .set v' id' → ¬(x.node = y.node ∧ x.port = y.port)

variable {ops : List GraphOp}

namespace Cursor

theorem number_outputs {c : Cursor} {i : ℕ} (hi : c.node < i) :
    ∀ x ∈ c.number i ops, ∀ v id, x.op = .set v id →
      x.node = c.node ∧ c.outPort ≤ x.port ∨ i ≤ x.node := by
  induction ops generalizing c i with
  | nil => intro x hx; cases hx
  | cons op ops ih =>
    intro x hx v id hop
    rw [number, mem_cons] at hx
    cases op with
    | node n =>
      rcases hx with rfl | hx
      · cases hop
      · rcases ih (Nat.lt_succ_self i) x hx v id hop with ⟨hnode, -⟩ | hle
        · exact Or.inr hnode.ge
        · exact Or.inr (by omega)
    | get u k =>
      rcases hx with rfl | hx
      · cases hop
      · have hlater := ih (c := c.bump (.get u)) (Nat.lt_succ_of_lt hi) x hx v id hop
        exact hlater.imp_right Nat.le_of_succ_le
    | pass u k =>
      rcases hx with rfl | hx
      · cases hop
      · have hlater := ih (c := c.bump (.pass u)) (Nat.lt_succ_of_lt hi) x hx v id hop
        exact hlater.imp_right Nat.le_of_succ_le
    | set u k =>
      rcases hx with rfl | hx
      · exact Or.inl ⟨rfl, le_refl _⟩
      · have hlater := ih (c := c.bump (.set u)) (Nat.lt_succ_of_lt hi) x hx v id hop
        rcases hlater with ⟨hnode, hport⟩ | hle
        · exact Or.inl ⟨hnode, Nat.le_of_succ_le hport⟩
        · exact Or.inr (Nat.le_of_succ_le hle)

theorem number_outputsDiffer {c : Cursor} {i : ℕ}
    (hhead : c.node < i ∨ ∀ op ∈ ops.head?, ∃ n, op = .node n) :
    (c.number i ops).Pairwise PlacedOp.OutputsDiffer := by
  induction ops generalizing c i with
  | nil => exact .nil
  | cons op ops ih =>
    cases op with
    | node n => exact .cons (fun _ _ _ _ _ _ hx => nomatch hx) (ih (Or.inl (Nat.lt_succ_self i)))
    | get u k =>
      have hi := hhead.resolve_right (by simp)
      exact .cons (fun _ _ _ _ _ _ hx => nomatch hx) (ih (Or.inl (Nat.lt_succ_of_lt hi)))
    | pass u k =>
      have hi := hhead.resolve_right (by simp)
      exact .cons (fun _ _ _ _ _ _ hx => nomatch hx) (ih (Or.inl (Nat.lt_succ_of_lt hi)))
    | set u k =>
      have hi : c.node < i := hhead.resolve_right (by simp)
      refine .cons ?_ (ih (Or.inl (Nat.lt_succ_of_lt hi)))
      rintro y hy v id v' id' - hop ⟨hnode, hport⟩
      have hafter := number_outputs (c := c.bump (.set u)) (Nat.lt_succ_of_lt hi) y hy v' id' hop
      simp only [next, bump] at hnode hport hafter
      omega

end Cursor

/-! ## Types at ports -/

section Types

variable {S : Type} [GraphStorage S] {spec : GraphSpec} {nType : NodeSpec}

def outputTypeAt (spec : GraphSpec) (g : S) (src : SrcVal) : Except Panic ValueTypeID :=
  match (opsAsSlice g)[src.id]? with
  | none => .error .indexOutOfBounds
  | some nodeType =>
    match spec.getNode nodeType with
    | none => .error .unwrapNone
    | some nType =>
      match nType.outputs[src.port.toNat]? with
      | none => .error .indexOutOfBounds
      | some valueType => .ok valueType

def usedTypeAt (spec : GraphSpec) (g : S) (op : GraphOp) (dst : DstVal) : Option ValueTypeID := do
  let nodeType ← (opsAsSlice g)[dst.id]?
  let nType ← spec.getNode nodeType
  match op with
  | .get _ _ => nType.inputs[dst.port.toNat]?
  | .pass _ _ => nType.passthroughs[dst.port.toNat]?
  | .set _ _ | .node _ => none

theorem NodeSpec.mem_portList {o : Operand} {i : ℕ} (h : (o, i) ∈ nType.portList) :
    match o with
    | .get v => nType.inputs[i]? = some v
    | .pass v => nType.passthroughs[i]? = some v
    | .set v => nType.outputs[i]? = some v := by
  rw [portList, mem_append, mem_append] at h
  rcases h with (h | h) | h <;> rw [mk_mem_zipIdx_iff_getElem?, getElem?_map,
    map_eq_some_iff] at h <;> obtain ⟨v, hv, rfl⟩ := h <;> exact hv

theorem getElem?_opI (h : ∀ n ∈ nodes, n.HasOps spec) (pre : List UInt16) {n : GraphNode}
    (hn : n ∈ place pre.length nodes) : (pre ++ opsOf nodes)[n.opI]? = some n.id := by
  induction nodes generalizing pre with
  | nil => cases hn
  | cons m ms ih =>
    obtain ⟨nType, ids, -, hops, -⟩ := h m mem_cons_self
    rw [place, mem_cons] at hn
    rcases hn with rfl | hn
    · simp [opsOf_cons, hops]
    · rw [opsOf_cons, ← append_assoc]
      refine ih (fun k hk => h k (mem_cons_of_mem _ hk)) (pre ++ m.ops) ?_
      rwa [length_append]

theorem mem_placedOf {g : S} (h : (nodesOf spec g).stop = none) {x : PlacedOp}
    (hx : x ∈ placedOf spec g) :
    ∃ nodeType nType, (opsAsSlice g)[x.node]? = some nodeType ∧
      spec.getNode nodeType = some nType ∧
        (x.op = .node nType.id ∨ ∃ o c, x.op = Operand.op o c ∧ (o, x.port) ∈ nType.portList) := by
  obtain ⟨node, hnode, hx⟩ := mem_flatMap.1 hx
  have hvec : (nodesOf spec (asVecGraph g)).stop = none := h
  obtain ⟨hplace, hops⟩ := nodesOf_items_eq_place hvec
  have hall : ∀ n ∈ (nodesOf spec g).items, n.HasOps spec := fun n hn =>
    (isNode_of_mem_nodeIter hn).hasOps
  obtain ⟨nType, ids, hn, hnodeOps, hlen⟩ := hall node hnode
  have hslice : (opsAsSlice g)[node.opI]? = some node.id := by
    have hmem : node ∈ place ([] : List UInt16).length (nodesOf spec g).items := hplace ▸ hnode
    have := getElem?_opI hall [] hmem
    rwa [nil_append, ← show opsAsSlice g = opsOf (nodesOf spec g).items from hops] at this
  simp only [placedOperations, hn, hnodeOps, tail_cons, mem_cons] at hx
  rcases hx with rfl | hx
  · exact ⟨node.id, nType, hslice, hn, Or.inl rfl⟩
  · rw [← map_uncurry_zip_eq_zipWith] at hx
    obtain ⟨⟨p, c⟩, hpc, rfl⟩ := mem_map.1 hx
    exact ⟨node.id, nType, hslice, hn, Or.inr ⟨p.1, c, rfl, (of_mem_zip hpc).1⟩⟩

end Types

/-! ## The loop of `calc_edges` -/

def PlacedOp.asSource (d : PlacedOp) : SrcVal := ⟨d.node, .ofNat d.port⟩

def PlacedOp.edgeFrom (u d : PlacedOp) : SrcVal × DstVal := (d.asSource, ⟨u.node, .ofNat u.port⟩)

def placedEvents (P : List PlacedOp) : List (Event Connector) := P.map fun x => x.op.event

@[simp] theorem placedEvents_snoc (P : List PlacedOp) (x : PlacedOp) :
    placedEvents (P ++ [x]) = placedEvents P ++ [x.op.event] := by
  simp [placedEvents]

structure MapsSources (P : List PlacedOp) (m : Connector → Option SrcVal) : Prop where
  live : ∀ k ∈ liveAfter (placedEvents P), (m k).isSome
  source : ∀ k s, m k = some s → ∃ d, Creates P k d ∧ s = d.asSource

namespace MapsSources

variable {P : List PlacedOp} {m : Connector → Option SrcVal} {v : ValueTypeID} {id : ConnectorID}
  {n p : ℕ}

theorem snoc (h : MapsSources P m) {x : PlacedOp} (hset : ∀ v id, x.op ≠ .set v id)
    (hget : ∀ v id, x.op ≠ .get v id) : MapsSources (P ++ [x]) m := by
  constructor
  · rw [placedEvents_snoc, liveAfter_snoc]
    cases hop : x.op with
    | set v id => exact absurd hop (hset v id)
    | get v id => exact absurd hop (hget v id)
    | pass v id => exact h.live
    | node n => exact h.live
  · intro k s hs
    obtain ⟨d, hd, rfl⟩ := h.source k s hs
    exact ⟨d, hd.snoc (hset _ _) (hget _ _), rfl⟩

theorem set (h : MapsSources P m) : MapsSources (P ++ [⟨.set v id, n, p⟩])
    (update m (v, id) (some ⟨n, .ofNat p⟩)) := by
  constructor
  · rw [placedEvents_snoc, liveAfter_snoc]
    intro k hk
    by_cases hkv : k = (v, id)
    · rw [hkv, update_self]
      rfl
    · rw [update_of_ne hkv]
      exact h.live k (hk.resolve_left hkv)
  · intro k s hs
    by_cases hkv : k = (v, id)
    · rw [hkv, update_self] at hs
      rw [hkv, ← some.inj hs]
      exact ⟨_, ⟨P, [], rfl, rfl, by simp⟩, rfl⟩
    · rw [update_of_ne hkv] at hs
      obtain ⟨d, hd, rfl⟩ := h.source k s hs
      refine ⟨d, hd.snoc ?_ (by simp), rfl⟩
      intro heq
      injection heq with h1 h2
      exact hkv (Prod.ext h1.symm h2.symm)

theorem get (h : MapsSources P m) :
    MapsSources (P ++ [⟨.get v id, n, p⟩]) (update m (v, id) none) := by
  constructor
  · rw [placedEvents_snoc, liveAfter_snoc]
    intro k hk
    rw [update_of_ne hk.2]
    exact h.live k hk.1
  · intro k s hs
    by_cases hkv : k = (v, id)
    · rw [hkv, update_self] at hs
      cases hs
    · rw [update_of_ne hkv] at hs
      obtain ⟨d, hd, rfl⟩ := h.source k s hs
      refine ⟨d, hd.snoc (by simp) ?_, rfl⟩
      intro heq
      injection heq with h1 h2
      exact hkv (Prod.ext h1.symm h2.symm)

theorem exists_source (h : MapsSources P m) (hlive : (v, id) ∈ liveAfter (placedEvents P)) :
    ∃ d, Creates P (v, id) d ∧ m (v, id) = some d.asSource := by
  obtain ⟨s, hs⟩ := isSome_iff_exists.1 (h.live _ hlive)
  obtain ⟨d, hd, rfl⟩ := h.source _ s hs
  exact ⟨d, hd, hs⟩

end MapsSources

structure ListsEdges (P : List PlacedOp) (res : List (SrcVal × DstVal)) : Prop where
  count : res.length = P.countP PlacedOp.isUse
  edge : ∀ pre u post k, P = pre ++ u :: post → u.Uses k →
    ∃ d, Creates pre k d ∧ res[pre.countP PlacedOp.isUse]? = some (u.edgeFrom d)

namespace ListsEdges

variable {P : List PlacedOp} {res : List (SrcVal × DstVal)} {x : PlacedOp}

theorem snoc (h : ListsEdges P res) (hx : x.isUse = false) : ListsEdges (P ++ [x]) res := by
  refine ⟨by simpa [hx] using h.count, ?_⟩
  intro pre u post k heq hu
  rcases snoc_eq_append_cons heq with ⟨rfl, rfl, rfl⟩ | ⟨post', rfl, rfl⟩
  · rw [hu.isUse] at hx
    cases hx
  · exact h.edge pre u post' k rfl hu

theorem snoc_use (h : ListsEdges P res) (hx : x.Uses k) (hd : Creates P k d) :
    ListsEdges (P ++ [x]) (res ++ [x.edgeFrom d]) := by
  refine ⟨by simpa [hx.isUse] using h.count, ?_⟩
  intro pre u post k' heq hu
  rcases snoc_eq_append_cons heq with ⟨rfl, rfl, rfl⟩ | ⟨post', rfl, rfl⟩
  · have hk : k = k' := hx.unique hu
    refine ⟨d, hk ▸ hd, ?_⟩
    rw [← h.count, getElem?_concat_length]
  · obtain ⟨d', hd', hedge⟩ := h.edge pre u post' k' rfl hu
    refine ⟨d', hd', ?_⟩
    rw [List.getElem?_append_left (List.getElem?_eq_some_iff.1 hedge).1, hedge]

end ListsEdges

namespace EdgeState

structure Follows (P : List PlacedOp) (c : Cursor) (st : EdgeState) : Prop where
  inPort : st.lastInPort = .ofNat c.inPort
  passPort : st.lastPassPort = .ofNat c.passPort
  outPort : st.lastOutPort = .ofNat c.outPort
  sources : MapsSources P st.idToSrc
  edges : ListsEdges P st.res

variable {P : List PlacedOp} {c : Cursor} {st : EdgeState} {i : ℕ}

theorem follows_new (n : ℕ) : Follows [] ⟨n, 0, 0, 0⟩ .new := by
  refine ⟨rfl, rfl, rfl, ⟨fun k hk => ?_, fun k s hs => ?_⟩, rfl, ?_⟩
  · cases hk
  · cases hs
  · intro pre u post k heq
    exact absurd heq.symm (by simp)

theorem Follows.step (h : Follows P c st) {op : GraphOp}
    (hnode : st.lastNode = some c.node ∨ ∃ n, op = .node n)
    (hok : reusingOk (placedEvents P) op.event) :
    ∃ st', st.step i op = .ok st' ∧ Follows (P ++ [(c.next i op).1]) (c.next i op).2 st' ∧
      st'.lastNode = some (c.next i op).2.node := by
  have hport : ∀ k, UInt16.ofNat (k + 1) = UInt16.ofNat k + 1 := fun k => by
    rw [UInt16.ofNat_add]; rfl
  cases op with
  | node n =>
    refine ⟨_, rfl, ⟨rfl, rfl, rfl, ?_, ?_⟩, rfl⟩
    · exact h.sources.snoc (by simp) (by simp)
    · exact h.edges.snoc rfl
  | set v id =>
    have hlast := hnode.resolve_right (by simp)
    refine ⟨{ st with
      idToSrc := update st.idToSrc (v, id) (some ⟨c.node, st.lastOutPort⟩)
      lastOutPort := st.lastOutPort + 1 }, by simp [EdgeState.step, hlast],
      ⟨h.inPort, h.passPort, ?_, ?_, h.edges.snoc rfl⟩, hlast⟩
    · rw [h.outPort]
      exact (hport _).symm
    · rw [h.outPort]
      exact h.sources.set
  | get v id =>
    have hlast := hnode.resolve_right (by simp)
    obtain ⟨d, hd, hsrc⟩ := h.sources.exists_source hok
    refine ⟨{ st with
      res := st.res ++ [(d.asSource, ⟨c.node, st.lastInPort⟩)]
      idToSrc := update st.idToSrc (v, id) none
      lastInPort := st.lastInPort + 1 }, by simp [EdgeState.step, hlast, hsrc],
      ⟨?_, h.passPort, h.outPort, h.sources.get, ?_⟩, hlast⟩
    · rw [h.inPort]
      exact (hport _).symm
    · rw [h.inPort]
      exact h.edges.snoc_use (Or.inl rfl) hd
  | pass v id =>
    have hlast := hnode.resolve_right (by simp)
    obtain ⟨d, hd, hsrc⟩ := h.sources.exists_source hok
    refine ⟨{ st with
      res := st.res ++ [(d.asSource, ⟨c.node, st.lastPassPort⟩)]
      lastPassPort := st.lastPassPort + 1 }, by simp [EdgeState.step, hlast, hsrc],
      ⟨h.inPort, ?_, h.outPort, h.sources.snoc (by simp [Cursor.next]) (by simp [Cursor.next]),
        ?_⟩, hlast⟩
    · rw [h.passPort]
      exact (hport _).symm
    · rw [h.passPort]
      exact h.edges.snoc_use (Or.inr rfl) hd

theorem Follows.edgesFrom (h : Follows P c st)
    (hnode : st.lastNode = some c.node ∨ ∀ op ∈ ops.head?, ∃ n, op = .node n)
    (hok : Reusing (placedEvents P ++ ops.map GraphOp.event)) :
    ∃ st' c', FuzzSocketCan.edgesFrom st i ops = .ok st' ∧ Follows (P ++ c.number i ops) c' st' := by
  induction ops generalizing P c st i with
  | nil => exact ⟨st, c, rfl, by simpa [Cursor.number] using h⟩
  | cons op ops ih =>
    have hnow := hok _ op.event (ops.map GraphOp.event) rfl
    obtain ⟨st1, hst1, hfollows, hlast⟩ :=
      h.step (i := i) (hnode.imp_right fun hop => hop op (by simp)) hnow
    have hrest := ih (i := i + 1) hfollows (Or.inl hlast) (by simpa using hok)
    obtain ⟨st', c', hst', hfollows'⟩ := hrest
    refine ⟨st', c', ?_, by simpa [Cursor.number] using hfollows'⟩
    rw [FuzzSocketCan.edgesFrom, hst1]
    exact hst'

end EdgeState

/-! ## The edges of a well-formed graph -/

section Edges

variable {S : Type} [GraphStorage S] {spec : GraphSpec} {g : S}

theorem calcEdges_listsEdges (h : WellFormedSource spec (asVecGraph g)) :
    ∃ edges, calcEdges spec g = .ok edges ∧ ListsEdges (placedOf spec g) edges := by
  have hnodes : ∀ n ∈ (nodesOf spec (asVecGraph g)).items, n.HasOps spec := fun n hn =>
    (isNode_of_mem_nodeIter hn).hasOps
  have hlive := h.live
  rw [h.operations] at hlive
  obtain ⟨st, c, hst, hfollows⟩ := (EdgeState.follows_new 0).edgesFrom (i := 0)
    (Or.inr (head_operations hnodes)) hlive
  refine ⟨st.res, ?_, ?_⟩
  · have hops : operationsOf spec g = _ := h.operations
    simp only [calcEdges, hops, Iter.ofList_items, Iter.ofList_stop, hst]
    rfl
  · have hplaced := Cursor.number_place hnodes ⟨0, 0, 0, 0⟩ 0
    rw [← (nodesOf_items_eq_place h.parses).1] at hplaced
    have hedges := hfollows.edges
    rwa [nil_append, hplaced] at hedges

theorem placedOf_outputsDiffer (h : WellFormedSource spec (asVecGraph g)) :
    (placedOf spec g).Pairwise PlacedOp.OutputsDiffer := by
  have hnodes : ∀ n ∈ (nodesOf spec (asVecGraph g)).items, n.HasOps spec := fun n hn =>
    (isNode_of_mem_nodeIter hn).hasOps
  have hplaced := Cursor.number_place hnodes ⟨0, 0, 0, 0⟩ 0
  rw [← (nodesOf_items_eq_place h.parses).1] at hplaced
  have hdiffer := Cursor.number_outputsDiffer (c := ⟨0, 0, 0, 0⟩) (i := 0)
    (Or.inr (head_operations hnodes))
  rwa [hplaced] at hdiffer

def GraphSpec.PortsFit (spec : GraphSpec) : Prop :=
  ∀ n ∈ spec.nodeSpecs,
    n.inputs.length ≤ 65535 ∧ n.passthroughs.length ≤ 65535 ∧ n.outputs.length ≤ 65535

theorem toNat_ofNat_port {types : List ValueTypeID} {v : ValueTypeID} {port : ℕ}
    (h : types[port]? = some v) (hfits : types.length ≤ 65535) :
    (UInt16.ofNat port).toNat = port := by
  have hlt := (List.getElem?_eq_some_iff.1 h).1
  rw [UInt16.toNat_ofNat', Nat.mod_eq_of_lt (by omega)]

theorem outputTypeAt_asSource (h : (nodesOf spec g).stop = none)
    (hports : ∀ n ∈ spec.nodeSpecs, n.outputs.length ≤ 65535) (hd : d ∈ placedOf spec g)
    (hset : d.op = .set k.1 k.2) :
    d.asSource.port.toNat = d.port ∧ outputTypeAt spec g d.asSource = .ok k.1 := by
  obtain ⟨nodeType, nType, hslice, hn, hop⟩ := mem_placedOf h hd
  rw [hset] at hop
  rcases hop with hop | ⟨o, c, hop, ho⟩
  · cases hop
  · have htype := NodeSpec.mem_portList ho
    cases o <;> cases hop
    have hport := toNat_ofNat_port htype (hports nType (GraphSpec.mem_of_getNode hn))
    refine ⟨hport, ?_⟩
    simp [outputTypeAt, PlacedOp.asSource, hslice, hn, hport, htype]

theorem usedTypeAt_edgeFrom (h : (nodesOf spec g).stop = none) (hports : spec.PortsFit)
    (hu : u ∈ placedOf spec g) (hk : u.Uses k) :
    (u.edgeFrom d).2.port.toNat = u.port ∧ usedTypeAt spec g u.op (u.edgeFrom d).2 = some k.1 := by
  obtain ⟨nodeType, nType, hslice, hn, hop⟩ := mem_placedOf h hu
  have hfits := hports nType (GraphSpec.mem_of_getNode hn)
  rcases hk with hk | hk <;> rw [hk] at hop ⊢ <;> rcases hop with hop | ⟨o, c, hop, ho⟩
  · cases hop
  · have htype := NodeSpec.mem_portList ho
    cases o <;> cases hop
    have hport := toNat_ofNat_port htype hfits.1
    exact ⟨hport, by simp [usedTypeAt, PlacedOp.edgeFrom, hslice, hn, hport, htype]⟩
  · cases hop
  · have htype := NodeSpec.mem_portList ho
    cases o <;> cases hop
    have hport := toNat_ofNat_port htype hfits.2.1
    exact ⟨hport, by simp [usedTypeAt, PlacedOp.edgeFrom, hslice, hn, hport, htype]⟩

/-- An edge to the operation `u`, which uses `k` after `pre`: it leads from the output that created
the connector last, and both ends have its type. -/
structure EdgeCorrect (spec : GraphSpec) (g : S) (pre : List PlacedOp) (u : PlacedOp) (k : Connector)
    (e : SrcVal × DstVal) : Prop where
  source : ∃ d, Creates pre k d ∧ e.1.id = d.node ∧ e.1.port.toNat = d.port
  node : e.2.id = u.node
  port : e.2.port.toNat = u.port
  outputType : outputTypeAt spec g e.1 = .ok k.1
  usedType : usedTypeAt spec g u.op e.2 = some k.1

theorem PlacedOp.Creates.ne_place {P pre mid post : List PlacedOp} {u' d' : PlacedOp}
    {k' : Connector} (hP : P.Pairwise PlacedOp.OutputsDiffer)
    (heq : P = pre ++ u :: (mid ++ u' :: post)) (hu : u.op = .get k.1 k.2) (hd : Creates pre k d)
    (hd' : Creates (pre ++ u :: mid) k' d') : ¬(d.node = d'.node ∧ d.port = d'.port) := by
  intro hsame
  obtain ⟨a, b, rfl, hset, -⟩ := hd
  obtain ⟨a', b', hsplit, hset', hb'⟩ := hd'
  have heq1 : P = a ++ d :: (b ++ u :: (mid ++ u' :: post)) := by rw [heq]; simp
  have heq2 : P = a' ++ d' :: (b' ++ u' :: post) := by
    calc P = (a ++ d :: b ++ u :: mid) ++ u' :: post := by rw [heq]; simp
      _ = a' ++ d' :: (b' ++ u' :: post) := by rw [hsplit]; simp
  obtain ⟨-, rfl, hrest⟩ := split_unique hP heq1 heq2 (fun h => h _ _ _ _ hset hset' hsame)
    (fun h => h _ _ _ _ hset' hset ⟨hsame.1.symm, hsame.2.symm⟩)
  -- the operation `u` is among those after the output, none of which takes the connector
  have hcut : b' ++ u' :: post = (b ++ u :: mid) ++ u' :: post := by
    rw [← hrest]
    simp
  have hb : b' = b ++ u :: mid := append_cancel_right hcut
  have hk : k = k' := by
    rw [hset] at hset'
    injection hset' with h1 h2
    exact Prod.ext h1 h2
  exact (hb' u (by rw [hb]; simp)).2 (hk ▸ hu)

/-- **The edges of a well-formed graph are type correct.** -/
theorem calcEdges_typeCorrect (spec : GraphSpec) (g : S)
    (h : WellFormedSource spec (asVecGraph g)) (hports : spec.PortsFit) :
    ∃ edges, calcEdges spec g = .ok edges ∧
      edges.length = (placedOf spec g).countP PlacedOp.isUse ∧
      (∀ pre u post k, placedOf spec g = pre ++ u :: post → u.Uses k →
        ∃ e, edges[pre.countP PlacedOp.isUse]? = some e ∧ EdgeCorrect spec g pre u k e) ∧
      (∀ pre u mid u' post (k k' : Connector), placedOf spec g = pre ++ u :: (mid ++ u' :: post) →
        u.op = .get k.1 k.2 → u'.op = .get k'.1 k'.2 →
          ∀ e e', edges[pre.countP PlacedOp.isUse]? = some e →
            edges[(pre ++ u :: mid).countP PlacedOp.isUse]? = some e' → e.1 ≠ e'.1) := by
  obtain ⟨edges, hedges, hlists⟩ := calcEdges_listsEdges h
  have hsourcePort : ∀ {pre : List PlacedOp} {k : Connector} {d : PlacedOp}, Creates pre k d →
      pre ⊆ placedOf spec g →
        d.asSource.port.toNat = d.port ∧ outputTypeAt spec g d.asSource = .ok k.1 := by
    rintro _ k d ⟨a, b, rfl, hset, -⟩ hsub
    exact outputTypeAt_asSource h.parses (fun n hn => (hports n hn).2.2) (hsub (by simp)) hset
  refine ⟨edges, hedges, hlists.count, ?_, ?_⟩
  · intro pre u post k heq hu
    obtain ⟨d, hd, hedge⟩ := hlists.edge pre u post k heq hu
    have humem : u ∈ placedOf spec g := by rw [heq]; simp
    obtain ⟨hport, htype⟩ := hsourcePort hd (by rw [heq]; simp)
    obtain ⟨huport, hutype⟩ := usedTypeAt_edgeFrom (d := d) h.parses hports humem hu
    exact ⟨_, hedge, ⟨d, hd, rfl, hport⟩, rfl, huport, htype, hutype⟩
  · intro pre u mid u' post k k' heq hu hu' e e' he he' hsame
    obtain ⟨d, hd, hedge⟩ := hlists.edge pre u _ k heq (Or.inl hu)
    have heq' : placedOf spec g = (pre ++ u :: mid) ++ u' :: post := by simpa using heq
    obtain ⟨d', hd', hedge'⟩ := hlists.edge _ u' post k' heq' (Or.inl hu')
    obtain rfl := some.inj (he.symm.trans hedge)
    obtain rfl := some.inj (he'.symm.trans hedge')
    apply hd.ne_place (placedOf_outputsDiffer h) heq hu hd'
    have hdport := (hsourcePort hd (by rw [heq]; simp)).1
    have hdport' := (hsourcePort hd' (by rw [heq']; exact subset_append_left _ _)).1
    have hsrc : d.asSource = d'.asSource := hsame
    refine ⟨congrArg SrcVal.id hsrc, ?_⟩
    rw [← hdport, ← hdport', hsrc]

end Edges

theorem calcEdges_typeCorrect_openSend :
    placedOf connectionSpec openSend =
      [⟨.node 0, 0, 0⟩, ⟨.set 0 7, 0, 0⟩, ⟨.node 1, 2, 0⟩, ⟨.pass 0 7, 2, 0⟩] ∧
    ∃ edges, calcEdges connectionSpec openSend = .ok edges ∧
      edges.length = (placedOf connectionSpec openSend).countP PlacedOp.isUse ∧
      (∀ pre u post k, placedOf connectionSpec openSend = pre ++ u :: post → u.Uses k →
        ∃ e, edges[pre.countP PlacedOp.isUse]? = some e ∧
          EdgeCorrect connectionSpec openSend pre u k e) ∧
      (∀ pre u mid u' post (k k' : Connector),
        placedOf connectionSpec openSend = pre ++ u :: (mid ++ u' :: post) →
          u.op = .get k.1 k.2 → u'.op = .get k'.1 k'.2 →
            ∀ e e', edges[pre.countP PlacedOp.isUse]? = some e →
              edges[(pre ++ u :: mid).countP PlacedOp.isUse]? = some e' → e.1 ≠ e'.1) :=
  ⟨by decide +kernel, calcEdges_typeCorrect connectionSpec openSend openSend_wellFormed
    (by unfold GraphSpec.PortsFit; decide +kernel)⟩

/-! ## Ports beyond 16 bits -/

def borrowsNodes (n : ℕ) : List NodeSpec :=
  [.new "first" 0 none [] [] [0], .new "second" 1 none [] [] [1],
    .new "borrows" 2 none [] (0 :: List.replicate n 1) []]

theorem borrowsNodes_ok (n i : ℕ) (h : i < (borrowsNodes n).length) :
    (borrowsNodes n)[i].Ok i (n + 2) := by
  obtain rfl | rfl | rfl : i = 0 ∨ i = 1 ∨ i = 2 := by
    simp only [borrowsNodes, length_cons, length_nil] at h
    omega
  · exact ⟨rfl, rfl, rfl, show 0 + 0 + 1 < n + 2 by omega⟩
  · exact ⟨rfl, rfl, rfl, show 0 + 0 + 1 < n + 2 by omega⟩
  · refine ⟨rfl, rfl, rfl, ?_⟩
    simp [borrowsNodes, NodeSpec.size, NodeSpec.new]

def borrowsSpec (n : ℕ) : GraphSpec :=
  { GraphSpec.new with
    nodeSpecs := borrowsNodes n
    valueSpecs := [⟨0, "first"⟩, ⟨1, "second"⟩]
    maxOps := n + 2
    node_ok := borrowsNodes_ok n
    nodes_le := show 3 ≤ 65535 by decide
    snapshot_ok := fun id h => absurd h (not_mem_none id) }

def borrowsGraph (n : ℕ) : VecGraph := ⟨[0, 5, 1, 5, 2, 5] ++ List.replicate n 5, []⟩

def borrowsGraphNodes (n : ℕ) : List GraphNode :=
  [⟨0, 0, [0, 5], []⟩, ⟨1, 2, [1, 5], []⟩, ⟨2, 4, 2 :: 5 :: List.replicate n 5, []⟩]

theorem borrowsGraphNodes_isNode (n : ℕ) : ∀ m ∈ borrowsGraphNodes n, m.IsNode (borrowsSpec n) := by
  intro m hm
  simp only [borrowsGraphNodes, mem_cons, not_mem_nil, or_false] at hm
  rcases hm with rfl | rfl | rfl
  · exact ⟨_, [5], rfl, rfl, rfl, rfl⟩
  · exact ⟨_, [5], rfl, rfl, rfl, rfl⟩
  · refine ⟨_, 5 :: replicate n 5, rfl, rfl, ?_, rfl⟩
    simp [NodeSpec.size, NodeSpec.new]

theorem ops_borrowsGraph (n : ℕ) : (borrowsGraph n).ops = opsOf (borrowsGraphNodes n) := by
  simp [borrowsGraph, borrowsGraphNodes, opsOf]

theorem nodesOf_borrowsGraph (n : ℕ) :
    nodesOf (borrowsSpec n) (borrowsGraph n) = .ofList (borrowsGraphNodes n) := by
  show nodeIter _ (borrowsGraph n).ops (dataOf (borrowsGraphNodes n)) = _
  rw [ops_borrowsGraph]
  exact nodeIter_chunks (borrowsGraphNodes_isNode n)

theorem events_borrowsGraph (n : ℕ) :
    (operationsOf (borrowsSpec n) (borrowsGraph n)).items.map GraphOp.event =
      [.tick, .create (0, 5), .tick, .create (1, 5), .tick, .borrow (0, 5)] ++
        List.replicate n (.borrow (1, 5)) := by
  have hops : operationsOf (borrowsSpec n) (borrowsGraph n) =
      .ofList ((borrowsGraphNodes n).flatMap (nodeOperations (borrowsSpec n))) := by
    show opIter _ (borrowsGraph n).ops = _
    rw [ops_borrowsGraph]
    exact opIter_chunks fun m hm => (borrowsGraphNodes_isNode n m hm).hasOps
  have hmany : nodeOperations (borrowsSpec n) ⟨2, 4, 2 :: 5 :: replicate n 5, []⟩ =
      .node 2 :: .pass 0 5 :: replicate n (.pass 1 5) := by
    have hborrows : (borrowsSpec n).getNode 2 =
        some (.new "borrows" 2 none [] (0 :: List.replicate n 1) []) := rfl
    rw [nodeOperations_eq hborrows rfl, NodeSpec.operations_eq]
    simp [NodeSpec.operandList, NodeSpec.new, Operand.op]
  rw [hops, Iter.ofList_items, borrowsGraphNodes, flatMap_cons, flatMap_cons,
    flatMap_singleton, hmany, map_append, map_append, map_cons, map_cons,
    map_replicate]
  rfl

theorem borrowsGraph_wellFormed (n : ℕ) : WellFormedSource (borrowsSpec n) (borrowsGraph n) := by
  refine ⟨by rw [nodesOf_borrowsGraph, Iter.ofList_stop], ?_, ?_⟩
  · rw [events_borrowsGraph]
    have hsplit : ([.tick, .create (0, 5), .tick, .create (1, 5), .tick, .borrow (0, 5)] :
        List (Event Connector)) = [] ++ [.tick] ++ [.create (0, 5)] ++ [.tick] ++
          [.create (1, 5)] ++ [.tick] ++ [.borrow (0, 5)] := rfl
    rw [hsplit]
    apply Reusing.borrows
    · simp only [Reusing, disciplined_snoc, disciplined_nil, reusingOk, liveAfter_snoc,
        liveAfter_nil, Event.after]
      simp
    · simp only [liveAfter_snoc, liveAfter_nil, Event.after]
      simp
  · intro v
    rw [events_borrowsGraph]
    have hborrows : created v (replicate n (.borrow (1, 5))) = 0 := by
      apply countP_eq_zero.2
      intro e he
      rw [eq_of_mem_replicate he]
      simp
    rw [created_append, hborrows]
    exact lt_of_le_of_lt countP_le_length (by simp)

theorem mem_placedOf_borrowsGraph {n : ℕ} (hn : 0 < n) :
    ⟨.pass 1 5, 4, n⟩ ∈ placedOf (borrowsSpec n) (borrowsGraph n) := by
  obtain ⟨m, rfl⟩ := Nat.exists_eq_add_one_of_ne_zero hn.ne'
  rw [placedOf, nodesOf_borrowsGraph]
  refine mem_flatMap.2 ⟨⟨2, 4, 2 :: 5 :: replicate (m + 1) 5, []⟩,
    by simp [borrowsGraphNodes], ?_⟩
  have htype : (borrowsSpec (m + 1)).getNode 2 =
      some (.new "borrows" 2 none [] (0 :: List.replicate (m + 1) 1) []) := rfl
  simp only [placedOperations, htype, tail_cons, mem_cons]
  refine Or.inr (mem_of_getElem? (i := m + 1) ?_)
  simp [NodeSpec.portList, NodeSpec.new, Operand.op, add_comm]

/-- **Ports of more than 16 bits wrap around.** -/
theorem passthrough_port_wraps :
    WellFormedSource (borrowsSpec 65536) (borrowsGraph 65536) ∧
    ∃ edges pre u post e, calcEdges (borrowsSpec 65536) (borrowsGraph 65536) = .ok edges ∧
      placedOf (borrowsSpec 65536) (borrowsGraph 65536) = pre ++ u :: post ∧ u.op = .pass 1 5 ∧
        edges[pre.countP PlacedOp.isUse]? = some e ∧
          outputTypeAt (borrowsSpec 65536) (borrowsGraph 65536) e.1 = .ok 1 ∧
            usedTypeAt (borrowsSpec 65536) (borrowsGraph 65536) u.op e.2 = some 0 := by
  generalize hn : 65536 = n
  have hwf := borrowsGraph_wellFormed n
  obtain ⟨edges, hedges, hlists⟩ := calcEdges_listsEdges (g := borrowsGraph n) hwf
  obtain ⟨pre, post, hsplit⟩ :=
    append_of_mem (mem_placedOf_borrowsGraph (show 0 < n by rw [← hn]; decide))
  obtain ⟨d, ⟨a, b, rfl, hset, -⟩, hedge⟩ := hlists.edge pre _ post (1, 5) hsplit (Or.inr rfl)
  have hd : d ∈ placedOf (borrowsSpec n) (borrowsGraph n) := by rw [hsplit]; simp
  have houtputs : ∀ m ∈ (borrowsSpec n).nodeSpecs, m.outputs.length ≤ 65535 := by
    simp [borrowsSpec, borrowsNodes, NodeSpec.new]
  have htype := (outputTypeAt_asSource hwf.parses houtputs hd hset).2
  refine ⟨hwf, edges, _, _, post, _, hedges, hsplit, rfl, hedge, htype, ?_⟩
  have hport : UInt16.ofNat n = 0 := by rw [← hn]; rfl
  show usedTypeAt (borrowsSpec n) (borrowsGraph n) (.pass 1 5) ⟨4, .ofNat n⟩ = some 0
  rw [hport]
  rfl

end FuzzSocketCan
