import FuzzSocketCan.StructuredFuzzer.Mutate

/-! # Graphs without snapshot ops

A node type named `create_tmp_snapshot` is never generated, so a graph has a node of it only if it
is copied, or if `prepare_snapshot` appends one. A bounded storage that refuses an op stays full for
the rest of the strategy.

* **`PlainOps`** — otherwise its ops are made of plain nodes.
* **`Holding`** — as long as it is not full, every strategy leaves plain ops behind, and the ops of
  its snapshot alone. -/

namespace FuzzSocketCan

open Lib List Option NodeSpec RefGraph

variable {spec : GraphSpec}

/-! ## Ops that take a snapshot -/

/-- The node type is the one that takes a snapshot. -/
def NodeSpec.takesSnapshot (n : NodeSpec) : Bool := n.name == "create_tmp_snapshot"

/-- The op begins a node that takes a snapshot. -/
def GraphOp.takesSnapshot (spec : GraphSpec) : GraphOp → Bool
  | .node nType => (spec.getNode nType).any NodeSpec.takesSnapshot
  | .get _ _ | .pass _ _ | .set _ _ => false

/-- No op that can be read takes a snapshot. -/
def SnapshotFree (spec : GraphSpec) (ops : List UInt16) : Prop :=
  ∀ op ∈ (opIter spec ops).items, op.takesSnapshot spec = false

/-- The ops of one node that takes no snapshot. -/
def PlainNode (spec : GraphSpec) (c : List UInt16) : Prop :=
  ∃ nType ids, spec.getNode nType.id = some nType ∧ nType.takesSnapshot = false ∧
    ids.length = nType.size ∧ c = nType.id :: ids

/-- Ops of whole nodes that take no snapshot. -/
def PlainOps (spec : GraphSpec) (xs : List UInt16) : Prop :=
  ∃ chunks : List (List UInt16), xs = chunks.flatten ∧ ∀ c ∈ chunks, PlainNode spec c

theorem PlainOps.append {xs c : List UInt16} (h : PlainOps spec xs) (hc : PlainNode spec c) :
    PlainOps spec (xs ++ c) := by
  obtain ⟨chunks, rfl, hchunks⟩ := h
  refine ⟨chunks ++ [c], by simp, ?_⟩
  intro c' hc'
  rcases mem_append.1 hc' with hc' | hc'
  · exact hchunks c' hc'
  · rw [mem_singleton.1 hc']
    exact hc

theorem forall_mem_zipWith {α β γ : Type} {f : α → β → γ} {P : γ → Prop} {l : List α}
    (h : ∀ a ∈ l, ∀ b, P (f a b)) (l' : List β) : ∀ c ∈ List.zipWith f l l', P c := by
  induction l generalizing l' with
  | nil => simp
  | cons a l ih =>
    cases l' with
    | nil => simp
    | cons b l' =>
      intro c hc
      rcases mem_cons.1 hc with rfl | hc
      · exact h a mem_cons_self b
      · exact ih (fun a' ha' => h a' (mem_cons_of_mem _ ha')) l' c hc

theorem takesSnapshot_of_mem_operations {nType : NodeSpec} {ids : List ConnectorID} {op : GraphOp}
    (hn : spec.getNode nType.id = some nType) (h : op ∈ nType.operations ids)
    (hplain : nType.takesSnapshot = false) : op.takesSnapshot spec = false := by
  rw [operations, mem_cons] at h
  rcases h with rfl | h
  · rw [GraphOp.takesSnapshot, hn, any_some, hplain]
  · refine forall_mem_zipWith (P := fun op => op.takesSnapshot spec = false) ?_ ids op h
    intro f hf c
    simp only [NodeSpec.operands, List.mem_append, List.mem_map] at hf
    rcases hf with (⟨v, -, rfl⟩ | ⟨v, -, rfl⟩) | ⟨v, -, rfl⟩ <;> rfl

/-- **Plain ops are read to their end**, and none of them takes a snapshot. -/
theorem PlainOps.opIter_append {xs : List UInt16} (h : PlainOps spec xs) :
    ∃ items, (∀ op ∈ items, op.takesSnapshot spec = false) ∧
      ∀ rest, opIter spec (xs ++ rest) = .prepend items (opIter spec rest) := by
  obtain ⟨chunks, rfl, hchunks⟩ := h
  induction chunks with
  | nil => exact ⟨[], by simp, fun rest => rfl⟩
  | cons c chunks ih =>
    obtain ⟨items, hitems, hread⟩ := ih fun c' hc' => hchunks c' (mem_cons_of_mem _ hc')
    obtain ⟨nType, ids, hn, hplain, hlen, rfl⟩ := hchunks c mem_cons_self
    refine ⟨nType.operations ids ++ items, ?_, ?_⟩
    · intro op hop
      rcases mem_append.1 hop with hop | hop
      · exact takesSnapshot_of_mem_operations hn hop hplain
      · exact hitems op hop
    · intro rest
      rw [flatten_cons, append_assoc, opIter_node hn hlen, hread]
      simp [Iter.prepend]

theorem PlainOps.opIter_eq {xs : List UInt16} (h : PlainOps spec xs) :
    ∃ items, opIter spec xs = .ofList items ∧ ∀ op ∈ items, op.takesSnapshot spec = false := by
  obtain ⟨items, hitems, hread⟩ := h.opIter_append
  refine ⟨items, ?_, hitems⟩
  have := hread []
  rwa [append_nil, opIter_nil, Iter.prepend_ofList, append_nil] at this

/-! ## Nodes of such graphs -/

/-- A whole node that takes no snapshot. -/
structure GraphNode.Plain (spec : GraphSpec) (node : GraphNode) : Prop where
  isNode : node.IsNode spec
  plain : ∀ nType ∈ spec.getNode node.id, nType.takesSnapshot = false

theorem node_mem_opIter_of_mem_nodeIterFrom {fuel : ℕ} {it : NodeIter} {n : GraphNode}
    (h : n ∈ (nodeIterFrom spec fuel it).items) : .node n.id ∈ (opIter spec it.opFrag).items := by
  induction fuel generalizing it with
  | zero => cases h
  | succ fuel ih =>
    rw [nodeIterFrom] at h
    split at h
    · cases h
    · cases h
    · next node it' hnext =>
        obtain ⟨hnode, hops, -⟩ := NodeIter.next_eq_some hnext
        obtain ⟨nType, ids, hn, hnodeOps, hlen, -⟩ := hnode
        rw [hops, hnodeOps, opIter_node hn hlen]
        rcases mem_cons.1 h with rfl | h
        · have hid := GraphSpec.getNode_id hn
          exact mem_append_left _ (by rw [operations, hid]; exact mem_cons_self)
        · exact mem_append_right _ (ih h)

/-- The nodes of a graph without snapshot ops are plain. -/
theorem SnapshotFree.plain {g : VecGraph} (h : SnapshotFree spec g.ops) :
    ∀ n ∈ (nodesOf spec g).items, n.Plain spec := by
  intro n hn
  refine ⟨isNode_of_mem_nodeIter hn, ?_⟩
  intro nType hnType
  have hop := h _ (@node_mem_opIter_of_mem_nodeIterFrom spec _ ⟨0, g.ops, g.data⟩ n hn)
  rwa [GraphOp.takesSnapshot, hnType, any_some] at hop

/-! ## Code that writes data -/

/-- The code leaves the ops alone. -/
abbrev DataOnly {α : Type} (ops : List UInt16) (opsI : ℕ) (m : Gen RefGraph α) : Prop :=
  Preserves (fun t => t.storage.ops = ops ∧ t.storage.opsI = opsI) mayPanic m

namespace DataOnly

variable {α : Type} {ops : List UInt16} {opsI : ℕ}

theorem throw (e : Panic) : DataOnly ops opsI (MonadExcept.throw e : Gen RefGraph α) :=
  fun _ _ => trivial

theorem get_bind {f : Target RefGraph → Gen RefGraph α} (hf : ∀ t, DataOnly ops opsI (f t)) :
    DataOnly ops opsI (get >>= f) := .bind (fun _ ht => ht) hf

theorem random (m : Dist α) : DataOnly ops opsI (FuzzSocketCan.random m) := by
  intro t ht
  rw [ends_random]
  exact ends_mayPanic fun _ _ _ => ht

theorem storeData (d : List UInt8) : DataOnly ops opsI (FuzzSocketCan.storeData d) := by
  intro t ht
  rw [FuzzSocketCan.storeData, ends_bind, ends_get]
  split
  · next g hg =>
      obtain ⟨-, rfl⟩ := appendData_eq_some.1 hg
      exact ht
  · trivial

theorem tryStoreData (d : List UInt8) : DataOnly ops opsI (FuzzSocketCan.tryStoreData d) := by
  intro t ht
  rw [FuzzSocketCan.tryStoreData, ends_modify]
  split
  · next g hg =>
      obtain ⟨-, rfl⟩ := appendData_eq_some.1 hg
      exact ht
  · exact ht

theorem reserveData (size : ℕ) : DataOnly ops opsI (FuzzSocketCan.reserveData size) := by
  intro t ht
  rw [FuzzSocketCan.reserveData, ends_bind, ends_get]
  split
  · next d g hg =>
      simp only [GraphStorage.getData, ite_none_right_eq_some, some.injEq,
        Prod.mk.injEq] at hg
      obtain ⟨-, -, rfl⟩ := hg
      exact ht
  · trivial

theorem writeSlice (d : List UInt8) : DataOnly ops opsI (FuzzSocketCan.writeSlice d) :=
  fun _ ht => ht

theorem recordVec (n : ℕ) : DataOnly ops opsI (FuzzSocketCan.recordVec n) := fun _ ht => ht

theorem appendGenerateInt (size : ℕ) (generators : List IntGenerator) :
    DataOnly ops opsI (FuzzSocketCan.appendGenerateInt size generators) :=
  .bind (random _) fun _ => .bind (storeData _) fun _ =>
    .ite (.bind (random _) fun _ => .bind (random _) fun _ => writeSlice _) (.pure _)

theorem generateRawVec (sizeRange : ℕ × ℕ) (primitiveSize : ℕ) :
    DataOnly ops opsI (FuzzSocketCan.generateRawVec sizeRange primitiveSize) :=
  get_bind fun _ => .bind (.check anyPanic) fun _ => .bind (random _) fun _ =>
    .bind (.check anyPanic) fun _ => .bind (reserveData _) fun _ => .bind (recordVec _) fun _ =>
      .ite (.bind (random _) fun _ => writeSlice _) (writeSlice _)

theorem generateVec (sizeRange : ℕ × ℕ) (primitiveSize : ℕ) (generators : List VecGenerator) :
    DataOnly ops opsI (FuzzSocketCan.generateVec sizeRange primitiveSize generators) := by
  apply Preserves.ite (generateRawVec _ _)
  -- a generator, the checks of what it returns, and the vector
  refine .bind (random _) fun gen => get_bind fun t => .bind (.check anyPanic) fun _ =>
    .bind (random _) fun vec => .bind (.check anyPanic) fun _ => .bind (.check anyPanic) fun _ =>
      .bind (.check anyPanic) fun _ => ?_
  exact .bind (reserveData _) fun _ => .bind (recordVec _) fun _ => .bind (writeSlice _) fun _ =>
    tryStoreData _

theorem appendGenerate (spec : GraphSpec) (fuel : ℕ) (ty : AtomicDataType) :
    DataOnly ops opsI (FuzzSocketCan.appendGenerate spec fuel ty) := by
  induction fuel generalizing ty with
  | zero =>
    cases ty with
    | int size generators => exact appendGenerateInt _ _
    | vec sizeRange primitiveSize _ generators => exact generateVec _ _ _
    | struct => exact throw _
  | succ fuel ih =>
    cases ty with
    | int size generators => exact appendGenerateInt _ _
    | vec sizeRange primitiveSize _ generators => exact generateVec _ _ _
    | struct _ fields =>
      refine .forEach fun field _ => ?_
      split
      · exact throw _
      · exact ih _

theorem appendMutatedVec (generators : List VecGenerator) (data : List UInt8) (dict : CustomDict) :
    DataOnly ops opsI (FuzzSocketCan.appendMutatedVec generators data dict) := by
  unfold FuzzSocketCan.appendMutatedVec
  split
  · refine .bind (.check anyPanic) fun _ => .bind (storeData _) fun _ => .ite ?_ ?_
    · exact .bind (.pure false) fun _ => .ite (.bind (random _) fun _ => writeSlice _)
        (.bind (random _) fun _ => writeSlice _)
    · exact .bind (random _) fun _ => .ite (.bind (random _) fun _ => writeSlice _)
        (.bind (random _) fun _ => writeSlice _)
  · exact throw _

theorem appendMutated (ty : AtomicDataType) (data : List UInt8) (dict : CustomDict) :
    DataOnly ops opsI (FuzzSocketCan.appendMutated ty data dict) := by
  have hfixed : DataOnly ops opsI (appendMutatedFixed data dict) :=
    .bind (storeData _) fun _ => .bind (random _) fun _ => writeSlice _
  cases ty with
  | int => exact hfixed
  | struct => exact hfixed
  | vec _ _ _ generators => exact appendMutatedVec generators data dict

end DataOnly

/-! ## Storage that is not full -/

/-- The storage begins with `front`, has at least `k` ops, and unless full, they are as `P` says. -/
structure Holding (k : ℕ) (front : List UInt16) (P : List UInt16 → Prop) (w : World RefGraph) :
    Prop where
  le : k ≤ w.target.storage.opsI
  front : w.target.storage.ops.take k = front
  ops : w.target.storage.opsI < w.target.storage.ops.length → P w.ops

/-- `n` more ops. -/
def After (P : List UInt16 → Prop) (n : ℕ) (xs : List UInt16) : Prop :=
  ∃ base ids, P base ∧ ids.length = n ∧ xs = base ++ ids

/-- The code appends `n` ops, some of which may be refused. -/
def Appends {α : Type} (n : ℕ) (m : Build RefGraph α) : Prop :=
  ∀ k front P w, Holding k front P w → Ends m w (fun _ w' => Holding k front (After P n) w') mayPanic

section Appends

variable {α β : Type} {k n n' : ℕ} {front : List UInt16} {P Q : List UInt16 → Prop}
  {w w' : World RefGraph}

theorem Holding.mono (h : Holding k front P w) (hPQ : ∀ xs, P xs → Q xs) : Holding k front Q w :=
  ⟨h.le, h.front, fun hroom => hPQ _ (h.ops hroom)⟩

theorem Holding.congr (h : Holding k front P w)
    (hops : w'.target.storage.ops = w.target.storage.ops)
    (hopsI : w'.target.storage.opsI = w.target.storage.opsI) : Holding k front P w' := by
  refine ⟨by rw [hopsI]; exact h.le, by rw [hops]; exact h.front, fun hroom => ?_⟩
  rw [hops, hopsI] at hroom
  have hw := h.ops hroom
  rw [World.ops, opsAsSlice_eq] at hw ⊢
  rwa [hops, hopsI]

/-- **An op is appended, or the storage is full afterwards.** -/
theorem Holding.emit (h : Holding k front P w) (x : UInt16) :
    Holding k front (fun xs => ∃ base, P base ∧ xs = base ++ [x])
      { w with target := { w.target with storage := emit w.target.storage x } } := by
  by_cases hlt : w.target.storage.opsI < w.target.storage.ops.length
  · rw [emit_of_lt hlt]
    refine ⟨Nat.le_succ_of_le h.le, ?_, fun _ => ⟨w.ops, h.ops hlt, ?_⟩⟩
    · show (w.target.storage.ops.set w.target.storage.opsI x).take k = front
      rw [take_set_of_le h.le, h.front]
    · exact take_set_succ x hlt
  · rw [emit_of_full hlt]
    exact ⟨h.le, h.front, fun hroom => absurd hroom hlt⟩

theorem appends_appendOp (x : UInt16) : Appends 1 (appendOp x) := by
  intro k front P w h
  rw [ends_appendOp]
  apply (h.emit x).mono
  rintro _ ⟨base, hbase, rfl⟩
  exact ⟨base, [x], hbase, rfl, rfl⟩

/-- What keeps the ops appends none. -/
theorem appends_of_kept {m : Build RefGraph α}
    (hm : ∀ w, Ends m w (fun _ w' => w'.target.storage.ops = w.target.storage.ops ∧
      w'.target.storage.opsI = w.target.storage.opsI) mayPanic) : Appends 0 m := by
  intro k front P w h
  refine (hm w).weaken fun _ w' hw' => ?_
  exact (h.congr hw'.1 hw'.2).mono fun xs hxs => ⟨xs, [], hxs, rfl, (append_nil xs).symm⟩

theorem appends_inTarget {m : Gen RefGraph α} (hm : ∀ {ops opsI}, DataOnly ops opsI m) :
    Appends 0 (inTarget m) := by
  apply appends_of_kept
  intro w
  rw [ends_inTarget]
  exact hm w.target ⟨rfl, rfl⟩

theorem appends_withState (v : ValueTypeID) (f : ValueState → Dist (α × ValueState)) :
    Appends 0 (withState v f : Build RefGraph α) := by
  apply appends_of_kept
  intro w
  rw [ends_withState]
  exact ends_mayPanic fun _ _ _ => ⟨rfl, rfl⟩

theorem appends_pure (a : α) : Appends 0 (pure a : Build RefGraph α) :=
  appends_of_kept fun _ => ⟨rfl, rfl⟩

/-- The numbers of ops add up. -/
theorem Appends.bind {m : Build RefGraph α} {f : α → Build RefGraph β} (hm : Appends n m)
    (hf : ∀ a, Appends n' (f a)) : Appends (n + n') (m >>= f) := by
  intro k front P w h
  refine (hm k front P w h).bind fun a w1 hw1 => ?_
  refine (hf a k front _ w1 hw1).weaken fun _ w2 hw2 => hw2.mono ?_
  rintro _ ⟨_, ids', ⟨base, ids, hbase, rfl, rfl⟩, rfl, rfl⟩
  exact ⟨base, ids ++ ids', hbase, length_append, append_assoc _ _ _⟩

theorem Appends.forEach {l : List β} {f : β → Build RefGraph PUnit}
    (hf : ∀ b ∈ l, Appends 1 (f b)) : Appends l.length (forEach l f) := by
  induction l with
  | nil => exact appends_pure _
  | cons b l ih =>
    rw [length_cons, add_comm]
    exact (hf b mem_cons_self).bind fun _ => ih fun b' hb' => hf b' (mem_cons_of_mem _ hb')

end Appends

/-! ## Appending nodes -/

/-- Plain ops stay plain. -/
abbrev KeepsPlain {α : Type} (spec : GraphSpec) (k : ℕ) (front : List UInt16)
    (m : Build RefGraph α) : Prop :=
  Preserves (Holding k front (PlainOps spec)) mayPanic m

section Nodes

variable {α : Type} {k : ℕ} {front : List UInt16} {nType : NodeSpec} {node : GraphNode}

theorem Appends.keepsPlain {m : Build RefGraph α} (hm : Appends 0 m) : KeepsPlain spec k front m := by
  intro w hw
  refine (hm k front _ w hw).weaken fun _ w' hw' => hw'.mono ?_
  rintro _ ⟨base, ids, hbase, hlen, rfl⟩
  rwa [eq_nil_of_length_eq_zero hlen, append_nil]

/-- **A node's id and its operands** are a plain node. -/
theorem keepsPlain_nodeOps (hn : spec.getNode nType.id = some nType)
    (hplain : nType.takesSnapshot = false) {m : PUnit → Build RefGraph α}
    (hm : ∀ u, Appends nType.size (m u)) : KeepsPlain spec k front (appendOp nType.id >>= m) := by
  intro w hw
  rw [ends_bind, ends_appendOp]
  refine (hm _ k front _ _ (hw.emit nType.id)).weaken fun _ w' hw' => hw'.mono ?_
  rintro _ ⟨_, ids, ⟨base, hbase, rfl⟩, hlen, rfl⟩
  rw [append_assoc, singleton_append]
  exact hbase.append ⟨nType, ids, hn, hplain, hlen, rfl⟩

theorem appends_renameAndRelinkOpVal (op : GraphOp) :
    Appends 0 (renameAndRelinkOpVal op : Build RefGraph UInt16) := by
  cases op with
  | get => exact appends_withState _ _
  | set =>
    rw [renameAndRelinkOpVal]
    exact appends_withState _ _
  | pass =>
    rw [renameAndRelinkOpVal]
    exact appends_withState _ _
  | node nType => exact appends_pure _

theorem keepsPlain_appendSlice (h : node.Plain spec) :
    KeepsPlain spec k front (appendSlice spec node.ops) := by
  obtain ⟨nType, ids, hn, hops, hlen, -⟩ := h.isNode
  have hid := GraphSpec.getNode_id hn
  have hread : opIter spec node.ops = .ofList (nType.operations ids) := by
    have := opIter_node hn hlen []
    rwa [append_nil, ← hops, opIter_nil, Iter.prepend_ofList, append_nil] at this
  have hoperands : (zipWith (fun f c => f c) nType.operands ids).length = nType.size := by
    rw [length_zipWith, hlen]
    simp [operands, size, add_assoc]
  have hstep : ∀ op, Appends 1 (do
      let newVal ← renameAndRelinkOpVal op
      appendOp newVal : Build RefGraph PUnit) :=
    fun op => (appends_renameAndRelinkOpVal op).bind fun _ => appends_appendOp _
  rw [appendSlice, forIter, hread]
  apply Preserves.bind
  · -- the first op is the node, and each of the others is an operand
    apply keepsPlain_nodeOps (by rw [hid]; exact hn) (h.plain nType hn)
    intro _
    rw [← hoperands]
    exact Appends.forEach fun op _ => hstep op
  · exact fun _ => Preserves.pure _

/-- Copying a plain node. -/
theorem keepsPlain_appendNode (h : node.Plain spec) :
    KeepsPlain spec k front (appendNode spec node) := by
  intro w hw
  refine ends_ite (fun _ => ?_) fun _ => hw
  exact Preserves.bind (keepsPlain_appendSlice h)
    (fun _ => (appends_inTarget (DataOnly.storeData _)).keepsPlain) w hw

theorem keepsPlain_throw (e : Panic) : KeepsPlain spec k front (throw e : Build RefGraph α) :=
  fun _ _ => trivial

theorem keepsPlain_appendNodeMutated (h : node.Plain spec) (dict : CustomDict) :
    KeepsPlain spec k front (appendNodeMutated spec node dict) := by
  intro w hw
  refine ends_ite (fun _ => ?_) fun _ => hw
  refine Preserves.bind (keepsPlain_appendSlice h) (fun _ => ?_) w hw
  split
  · exact keepsPlain_throw _
  · split
    · exact Preserves.pure _
    · split
      · exact (appends_inTarget (DataOnly.appendMutated _ _ _)).keepsPlain
      · exact keepsPlain_throw _

/-! ### Random nodes -/

theorem appends_appendRandomOperands (nType : NodeSpec) :
    Appends nType.size (appendRandomOperands nType : Build RefGraph PUnit) := by
  have hstep : ∀ (v : ValueTypeID) (f : ValueState → Dist (UInt16 × ValueState)),
      Appends 1 (do
        let id ← withState v f
        appendOp id : Build RefGraph PUnit) :=
    fun v f => (appends_withState v f).bind fun _ => appends_appendOp _
  rw [size, add_assoc]
  apply Appends.bind
  · exact Appends.forEach fun v _ => hstep v _
  · intro _
    apply Appends.bind
    · exact Appends.forEach fun v _ => hstep v _
    · intro _
      exact Appends.forEach fun v _ => hstep v _

/-- Generating a node. -/
theorem keepsPlain_appendRandomNode {id : NodeTypeID}
    (hplain : ∀ nType ∈ spec.getNode id, nType.takesSnapshot = false) :
    KeepsPlain spec k front (appendRandomNode spec id) := by
  intro w hw
  unfold appendRandomNode
  split
  · exact hw
  · next nType hn =>
      rw [ends_bind, ends_get, ends_bind]
      refine ends_orPanic_mayPanic fun can _ => ends_ite (fun _ => ?_) fun _ => hw
      obtain rfl : nType.id = id := GraphSpec.getNode_id hn
      refine keepsPlain_nodeOps hn (hplain nType hn) (fun _ => ?_) w hw
      show Appends (nType.size + 0) _
      apply (appends_appendRandomOperands nType).bind
      intro _
      split
      · exact appends_pure _
      · split
        · exact (appends_inTarget (DataOnly.appendGenerate _ _ _)).bind fun _ => appends_pure _
        · exact appends_of_kept fun _ => trivial

theorem ends_pickAvailableType_plain {w : World RefGraph} (hw : Holding k front (PlainOps spec) w) :
    Ends (pickAvailableType spec) w (fun r w' => Holding k front (PlainOps spec) w' ∧
      ∀ id, r = .ok id → ∀ nType ∈ spec.getNode id, nType.takesSnapshot = false) mayPanic := by
  simp only [pickAvailableType, ends_bind, ends_get, ends_inTarget, ends_random]
  refine ends_chooseFromIter (fun _ x => ?_) fun id x hid => ?_
  · exact ⟨hw.congr rfl rfl, fun id hid => absurd hid (by simp)⟩
  · refine ⟨hw.congr rfl rfl, ?_⟩
    rintro _ ⟨⟩ nType hnType
    obtain ⟨n, hn, rfl⟩ := mem_map.1 hid
    obtain ⟨hmem, hgen⟩ := mem_filter.1 hn
    obtain rfl := some.inj (hnType.symm.trans (GraphSpec.getNode_of_mem hmem))
    obtain ⟨i, hi, rfl⟩ := getElem_of_mem hmem
    rw [Bool.and_eq_true, (spec.node_ok i hi).generatable_eq] at hgen
    simpa [takesSnapshot] using hgen.2

theorem keepsPlain_appendRandom (n : ℕ) : KeepsPlain spec k front (appendRandom spec n) := by
  induction n with
  | zero => exact Preserves.pure _
  | succ n ih =>
    intro w hw
    refine ends_ite (fun _ => hw) fun _ => ?_
    refine (ends_pickAvailableType_plain hw).bind fun r w1 hr => ?_
    obtain ⟨hw1, hplain⟩ := hr
    cases r with
    | error e => exact hw1
    | ok id =>
      refine Preserves.bind (keepsPlain_appendRandomNode (hplain id rfl)) (fun r => ?_) w1 hw1
      cases r with
      | error e => exact Preserves.pure _
      | ok _ => exact ih

theorem keepsPlain_appendRandomUnwrap (n : ℕ) :
    KeepsPlain spec k front (appendRandomUnwrap spec n) := by
  apply Preserves.bind (keepsPlain_appendRandom n)
  intro r
  cases r with
  | error e => exact keepsPlain_throw _
  | ok _ => exact Preserves.pure _

end Nodes

/-! ## The strategies -/

/-- The nodes of the graph take no snapshot. -/
def PlainGraph (spec : GraphSpec) (g : VecGraph) : Prop := ∀ n ∈ (nodesOf spec g).items, n.Plain spec

/-- The queue hands out plain graphs. -/
def PlainQueue (spec : GraphSpec) (queue : Dist VecGraph) : Prop :=
  ∀ x, Ends queue x (fun g _ => PlainGraph spec g) mayPanic

section Strategies

variable {k : ℕ} {front : List UInt16} {w : World RefGraph} {snapshot : MutatorSnapshotState}
  {orig : VecGraph} {opsUsed : ℕ} {dict : CustomDict} {queue : Dist VecGraph}

/-- The ops below the snapshot are plain. -/
def PlainFront (spec : GraphSpec) (snapshot : MutatorSnapshotState) (w : World RefGraph) : Prop :=
  PlainOps spec (w.target.storage.ops.take snapshot.skipOps)

/-- `start` leaves the ops of the snapshot. -/
theorem ends_start_plain (h : PlainFront spec snapshot w) :
    Ends (start snapshot) w (fun _ w' => Holding snapshot.skipOps
      (w.target.storage.ops.take snapshot.skipOps) (PlainOps spec) w') mayPanic := by
  rw [start, ends_bind, ends_get, ends_bind]
  refine ends_orPanic_mayPanic fun g hg => ?_
  have hg' : g = { w.target.storage with opsI := snapshot.skipOps, dataI := snapshot.skipData } := by
    simp only [GraphStorage.truncateTo] at hg
    split at hg
    · exact (Except.ok.inj hg).symm
    · cases hg
  subst hg'
  rw [ends_bind, ends_set]
  have hstarted : ∀ st, Holding snapshot.skipOps (w.target.storage.ops.take snapshot.skipOps)
      (PlainOps spec) ⟨st, { w.target with storage := { w.target.storage with
        opsI := snapshot.skipOps, dataI := snapshot.skipData } }⟩ :=
    fun st => ⟨le_refl _, rfl, fun _ => h⟩
  split
  · next state _ =>
      rw [ends_bind]
      cases w.state.resetTo state with
      | error e => trivial
      | ok st =>
        exact hstarted st
  · rw [ends_modify]
    exact hstarted w.state.clear

theorem ends_started {m : PUnit → Build RefGraph PUnit} (h : PlainFront spec snapshot w)
    (hm : ∀ u, KeepsPlain spec snapshot.skipOps (w.target.storage.ops.take snapshot.skipOps) (m u)) :
    Ends (start snapshot >>= m) w (fun _ w' => Holding snapshot.skipOps
      (w.target.storage.ops.take snapshot.skipOps) (PlainOps spec) w') mayPanic := by
  exact (ends_start_plain h).bind fun u w' hw' => hm u w' hw'

/-- What a strategy leaves behind that starts on top of a snapshot. -/
abbrev EndsPlain (spec : GraphSpec) (snapshot : MutatorSnapshotState) (w : World RefGraph)
    {α : Type} (m : Build RefGraph α) : Prop :=
  Ends m w (fun _ w' => Holding snapshot.skipOps (w.target.storage.ops.take snapshot.skipOps)
    (PlainOps spec) w') mayPanic

theorem endsPlain_generate (h : PlainFront spec snapshot w) (n : ℕ) :
    EndsPlain spec snapshot w (generate spec n snapshot) :=
  ends_started h fun _ => keepsPlain_appendRandomUnwrap n

/-- **A mutation leaves plain ops behind**, unless it fills the storage, below which the snapshot
stays. -/
theorem endsPlain_mutate (h : PlainFront spec snapshot w) (horig : PlainGraph spec orig)
    (hqueue : PlainQueue spec queue) :
    EndsPlain spec snapshot w (mutate spec orig opsUsed dict snapshot queue) :=
  ends_mutate_of (fun _ _ hw => hw.congr rfl rfl) anyPanic
    (fun n hn => keepsPlain_appendNode (horig n hn))
    (fun n hn => keepsPlain_appendNodeMutated (horig n hn) dict) keepsPlain_appendRandomUnwrap
    (fun x => (hqueue x).mono
      (fun _ _ hother => ⟨fun n hn => keepsPlain_appendNode (hother n hn), anyPanic⟩)
      fun _ _ _ _ => trivial) anyPanic fun _ => ends_start_plain h

theorem plainFront_none (spec : GraphSpec) (w : World RefGraph) : PlainFront spec .none w :=
  ⟨[], rfl, forall_mem_nil _⟩

theorem endsPlain_copyAll (horig : PlainGraph spec orig) :
    EndsPlain spec .none w (copyAll spec orig) :=
  ends_started (plainFront_none spec w) fun _ =>
    Preserves.forIter anyPanic fun n hn => keepsPlain_appendNode (horig n hn)

theorem endsPlain_dropRange (horig : PlainGraph spec orig) (first last : ℕ) :
    EndsPlain spec .none w (dropRange spec orig first last) := by
  refine ends_started (plainFront_none spec w) fun _ => Preserves.forIter anyPanic fun item hitem => ?_
  apply Preserves.ite (Preserves.pure _)
  obtain ⟨-, -, heq⟩ := mem_zipIdx hitem
  rw [heq]
  exact keepsPlain_appendNode (horig _ (getElem_mem _))

/-- **What `prepare_snapshot` leaves behind**, unless it fills the storage: plain ops, whose number
is remembered, and the op that takes the snapshot. -/
theorem ends_prepareSnapshot_plain (horig : PlainGraph spec orig) (cutoff : ℕ) :
    Ends (prepareSnapshot spec cutoff orig) w (fun snapshot w' =>
      snapshot.prefixGraphState.isSome ∧
        (w'.target.storage.opsI < w'.target.storage.ops.length →
          PlainFront spec snapshot w' ∧ ∃ id, spec.snapshotNodeId = some id ∧
            w'.ops = w'.target.storage.ops.take snapshot.skipOps ++ [id])) mayPanic := by
  have hcopied : EndsPlain spec .none w (do
      start .none
      forIter ((nodesOf spec orig).take cutoff) (appendNode spec)) :=
    ends_started (plainFront_none spec w) fun _ =>
      Preserves.forIter anyPanic fun n hn => keepsPlain_appendNode (horig n (Iter.take_items_subset hn))
  unfold EndsPlain at hcopied
  rw [ends_bind] at hcopied
  rw [prepareSnapshot]
  refine hcopied.bind fun _ w1 hw1 => ?_
  refine hw1.bind fun _ w2 hw2 => ?_
  cases hid : spec.snapshotNodeId with
  | none => trivial
  | some id =>
    simp only [ends_bind, ends_appendOp, ends_pure]
    refine ⟨rfl, fun hroom => ?_⟩
    -- the ops that were copied are those in front of the op that is appended
    have hfront : Holding w2.target.storage.opsI
        (w2.target.storage.ops.take w2.target.storage.opsI)
        (fun xs => PlainOps spec xs ∧
          xs = w2.target.storage.ops.take w2.target.storage.opsI) w2 :=
      ⟨le_refl _, rfl, fun hroom2 => ⟨hw2.ops hroom2, opsAsSlice_eq _⟩⟩
    have hemitted := hfront.emit id
    obtain ⟨_, ⟨hplain, rfl⟩, hops⟩ := hemitted.ops hroom
    have htake := hemitted.front
    refine ⟨?_, id, rfl, ?_⟩
    · rw [PlainFront]
      exact htake ▸ hplain
    · rw [hops]
      exact congrArg (· ++ [id]) htake.symm

end Strategies

end FuzzSocketCan
