import FuzzSocketCan.StructuredFuzzer.BuilderInvariant

/-! # The two iterators agree

`NodeIter` jumps from node to node, `OpIter` counts down the operands of the node it is in.

* **`nodeIter_opIter_agree`** — on a graph that the first splits into whole nodes, the second
  yields their operations, one node after the other. -/

namespace FuzzSocketCan

open Lib List NodeSpec

variable {spec : GraphSpec} {nType : NodeSpec}

/-! ## What the node iterator leaves -/

def nodeIterEnd (spec : GraphSpec) : ℕ → NodeIter → NodeIter
  | 0, it => it
  | fuel + 1, it =>
    match it.next spec with
    | .ok (some (_, it')) => nodeIterEnd spec fuel it'
    | _ => it

theorem nodeIterEnd_dataFrag (spec : GraphSpec) (fuel : ℕ) (it : NodeIter) :
    it.dataFrag = dataOf (nodeIterFrom spec fuel it).items ++ (nodeIterEnd spec fuel it).dataFrag := by
  induction fuel generalizing it with
  | zero => rfl
  | succ fuel ih =>
    rw [nodeIterFrom, nodeIterEnd]
    cases hnext : it.next spec with
    | error e => rfl
    | ok next =>
      cases next with
      | none => rfl
      | some p =>
        obtain ⟨node, it'⟩ := p
        obtain ⟨-, -, hdata⟩ := NodeIter.next_eq_some hnext
        simp only [Iter.cons, dataOf_cons, append_assoc]
        rw [hdata, ← ih it']

/-! ## Places -/

theorem NodeSpec.operand_ne_node {f : ConnectorID → GraphOp} (hf : f ∈ nType.operands)
    (c : ConnectorID) (id : NodeTypeID) : f c ≠ .node id := by
  simp only [operands, mem_append, mem_map] at hf
  rcases hf with (⟨v, -, rfl⟩ | ⟨v, -, rfl⟩) | ⟨v, -, rfl⟩ <;> exact GraphOp.noConfusion

theorem NodeSpec.operations_eq_node_iff (nType : NodeSpec) (ids : List ConnectorID) (j : ℕ)
    (id : NodeTypeID) : (nType.operations ids)[j]? = some (.node id) ↔ j = 0 ∧ nType.id = id := by
  cases j with
  | zero => simp [operations]
  | succ j =>
    refine iff_of_false (fun h => ?_) fun h => Nat.succ_ne_zero j h.1
    rw [operations, getElem?_cons_succ, getElem?_zipWith] at h
    split at h
    · next f c hf hc =>
        exact operand_ne_node (mem_of_getElem? hf) c id (Option.some.inj h)
    · cases h

variable {node : GraphNode} {nodes : List GraphNode}

theorem nodeOperations_eq_node_iff (h : node.HasOps spec) (j : ℕ) (id : NodeTypeID) :
    (nodeOperations spec node)[j]? = some (.node id) ↔ j = 0 ∧ node.id = id := by
  obtain ⟨nType, operands, hn, hops, -⟩ := h
  rw [nodeOperations_eq hn hops, operations_eq_node_iff, GraphSpec.getNode_id hn]

theorem le_opI_of_mem_place {i : ℕ} {m : GraphNode} (h : m ∈ place i nodes) : i ≤ m.opI := by
  induction nodes generalizing i with
  | nil => cases h
  | cons n ns ih =>
    rcases mem_cons.1 h with rfl | h
    · exact le_refl _
    · exact le_trans (Nat.le_add_right _ _) (ih h)

theorem operations_at_place (h : ∀ n ∈ nodes, n.HasOps spec) (i : ℕ) {m : GraphNode}
    (hm : m ∈ place i nodes) :
    ((nodes.flatMap (nodeOperations spec)).drop (m.opI - i)).take m.ops.length =
      nodeOperations spec m := by
  induction nodes generalizing i with
  | nil => cases hm
  | cons n ns ih =>
    have hlen := length_nodeOperations (h n mem_cons_self)
    rcases mem_cons.1 hm with rfl | hm
    · show ((nodeOperations spec n ++ _).drop (i - i)).take n.ops.length = nodeOperations spec n
      rw [Nat.sub_self, drop_zero, ← hlen, take_left]
    · have hle := le_opI_of_mem_place hm
      rw [flatMap_cons, drop_append, drop_eq_nil_of_le (by omega), nil_append,
        hlen, Nat.sub_sub]
      exact ih (fun k hk => h k (mem_cons_of_mem _ hk)) _ hm

theorem operations_eq_node_iff (h : ∀ n ∈ nodes, n.HasOps spec) (i j : ℕ) (id : NodeTypeID) :
    (nodes.flatMap (nodeOperations spec))[j]? = some (.node id) ↔
      ∃ m ∈ place i nodes, m.opI = i + j ∧ m.id = id := by
  induction nodes generalizing i j with
  | nil => simp [place]
  | cons n ns ih =>
    have hn := h n mem_cons_self
    have hlen := length_nodeOperations hn
    have hpos : 0 < n.ops.length := by
      obtain ⟨nType, operands, -, hops, -⟩ := hn
      rw [hops]
      exact Nat.succ_pos _
    have hrest := fun k hk => h k (mem_cons_of_mem _ hk)
    rw [flatMap_cons, place]
    simp only [mem_cons, or_and_right, exists_or, exists_eq_left]
    by_cases hj : j < n.ops.length
    · -- inside the first node; the others stand behind it
      rw [getElem?_append_left (by omega), nodeOperations_eq_node_iff hn]
      constructor
      · rintro ⟨rfl, hid⟩
        exact .inl ⟨rfl, hid⟩
      · rintro (⟨heq, hid⟩ | ⟨m, hm, heq, -⟩)
        · exact ⟨by omega, hid⟩
        · have := le_opI_of_mem_place hm
          omega
    · rw [getElem?_append_right (by omega), ih hrest (i + n.ops.length)]
      constructor
      · rintro ⟨m, hm, heq, hid⟩
        exact .inr ⟨m, hm, by omega, hid⟩
      · rintro (⟨heq, -⟩ | ⟨m, hm, heq, hid⟩)
        · omega
        · exact ⟨m, hm, by omega, hid⟩

/-- **The two iterators agree** on every graph that `NodeIter` splits into whole nodes. -/
theorem nodeIter_opIter_agree (spec : GraphSpec) (ops : List UInt16) (data : List UInt8)
    (h : (nodeIter spec ops data).stop = none) :
    ∃ nodes, nodeIter spec ops data = .ofList nodes ∧
      ∃ operations, opIter spec ops = .ofList operations ∧
        operations.length = ops.length ∧
        (∀ i id, operations[i]? = some (.node id) ↔ ∃ n ∈ nodes, n.opI = i ∧ n.id = id) ∧
        (∀ n ∈ nodes, ∃ nType operands, spec.getNode n.id = some nType ∧
          n.ops = n.id :: operands ∧ operands.length = nType.size ∧
          (operations.drop n.opI).take n.ops.length = nType.operations operands) ∧
        opsOf nodes = ops ∧
        data = dataOf nodes ++
          (nodeIterEnd spec (ops.length + 1) ⟨0, ops, data⟩).dataFrag := by
  obtain ⟨nodes, hnodes⟩ : ∃ nodes, nodeIter spec ops data = .ofList nodes :=
    ⟨(nodeIter spec ops data).items, by rw [Iter.ofList, ← h]⟩
  have hwhole : ∀ n ∈ nodes, n.HasOps spec := by
    intro n hn
    have hmem : n ∈ (nodeIter spec ops data).items := by rwa [hnodes]
    exact (isNode_of_mem_nodeIter hmem).hasOps
  obtain ⟨hops, -⟩ := nodeIter_whole h
  have hplace := nodeIter_place h
  rw [hnodes, Iter.ofList_items] at hops hplace
  refine ⟨nodes, hnodes, nodes.flatMap (nodeOperations spec), ?_, ?_, ?_, ?_, hops.symm, ?_⟩
  · rw [hops]
    exact opIter_chunks hwhole
  · rw [hops, opsOf, length_flatMap, length_flatMap]
    congr 1
    exact map_congr_left fun n hn => length_nodeOperations (hwhole n hn)
  · intro i id
    rw [operations_eq_node_iff hwhole 0 i id, hplace, zero_add]
  · intro n hn
    obtain ⟨nType, operands, htype, hopsn, hlen⟩ := hwhole n hn
    have hat := operations_at_place hwhole 0 (hplace.symm ▸ hn)
    rw [Nat.sub_zero, nodeOperations_eq htype hopsn] at hat
    exact ⟨nType, operands, htype, hopsn, hlen, hat⟩
  · have hdata := nodeIterEnd_dataFrag spec (ops.length + 1) ⟨0, ops, data⟩
    rwa [← nodeIter, hnodes] at hdata

theorem nodeIter_opIter_agree_connection :
    (nodeIter connectionSpec [0, 7, 1, 7, 2, 7] [2, 0, 65, 66, 9]).stop = none ∧
      ∃ nodes, nodeIter connectionSpec [0, 7, 1, 7, 2, 7] [2, 0, 65, 66, 9] = .ofList nodes ∧
        ∃ operations, opIter connectionSpec [0, 7, 1, 7, 2, 7] = .ofList operations ∧
          operations.length = 6 ∧
          (∀ i id, operations[i]? = some (.node id) ↔ ∃ n ∈ nodes, n.opI = i ∧ n.id = id) ∧
          (∀ n ∈ nodes, ∃ nType operands, connectionSpec.getNode n.id = some nType ∧
            n.ops = n.id :: operands ∧ operands.length = nType.size ∧
            (operations.drop n.opI).take n.ops.length = nType.operations operands) ∧
          opsOf nodes = [0, 7, 1, 7, 2, 7] ∧ [2, 0, 65, 66, 9] = dataOf nodes ++ [9] := by
  have hstop : (nodeIter connectionSpec [0, 7, 1, 7, 2, 7] [2, 0, 65, 66, 9]).stop = none := by
    decide +kernel
  have hend : (nodeIterEnd connectionSpec 7 ⟨0, [0, 7, 1, 7, 2, 7], [2, 0, 65, 66, 9]⟩).dataFrag =
      [9] := by
    decide +kernel
  have hagree := nodeIter_opIter_agree connectionSpec [0, 7, 1, 7, 2, 7] [2, 0, 65, 66, 9] hstop
  exact ⟨hstop, hend ▸ hagree⟩

end FuzzSocketCan
