import FuzzSocketCan.StructuredFuzzer.Dataflow
import FuzzSocketCan.StructuredFuzzer.GraphBuilder

/-! # What the builder keeps

* **`Building spec w nodes`** — the storage holds exactly the whole nodes `nodes`, and the
  builder's state tracks their dataflow.
* **`ends_appendNode`**, **`ends_appendRandomNode`** — the functions of the builder keep it when
  the storage has room, and none panics as long as the connector ids last. -/

namespace FuzzSocketCan

open Lib List Option GraphStorage LawfulGraphStorage NodeSpec ValueState
open LawfulGraphStorage (Room)

variable {S : Type}

/-- No type has used up its connector ids. -/
def World.Bounded (w : World S) : Prop := ∀ v, (w.state.stateOf v).curId.toNat < 65535

def outOfIds (_ : Panic) (w : World S) : Prop := ¬w.Bounded

variable [GraphStorage S]

def World.ops (w : World S) : List UInt16 := opsAsSlice w.target.storage

def World.data (w : World S) : List UInt8 := dataAsSlice w.target.storage

/-- `append_op`, whose result no caller looks at. -/
def emit (g : S) (x : UInt16) : S := (GraphStorage.appendOp g x).getD g

def emitAll (g : S) (xs : List UInt16) : S := xs.foldl emit g

theorem RefGraph.emit_of_lt {g : RefGraph} (h : g.opsI < g.ops.length) (x : UInt16) :
    emit g x = { g with ops := g.ops.set g.opsI x, opsI := g.opsI + 1 } := by
  rw [emit, show GraphStorage.appendOp g x = some _ from if_pos h]
  rfl

theorem RefGraph.emit_of_full {g : RefGraph} (h : ¬g.opsI < g.ops.length) (x : UInt16) :
    emit g x = g := by
  rw [emit, show GraphStorage.appendOp g x = none from if_neg h]
  rfl

variable {Q : PUnit → World S → Prop} {E : Panic → World S → Prop}

theorem ends_appendOp {w : World S} (x : UInt16) : Ends (appendOp x) w Q E ↔
      Q ⟨⟩ { w with target := { w.target with storage := emit w.target.storage x } } := by
  rw [appendOp, ends_modify, emit]
  cases GraphStorage.appendOp w.target.storage x <;> rfl

theorem appendOp_run (x : UInt16) (w : World S) : appendOp x w =
    .ok ⟨⟩ { w with target := { w.target with storage := emit w.target.storage x } } := by
  have : Ends (appendOp x) w (fun _ w' => w' = _) never := (ends_appendOp x).2 rfl
  obtain ⟨_, w', hrun, rfl⟩ := this.result
  exact hrun

variable {w w' : World S} {es : List (Event Connector)} {todo : List Operand} {n m : ℕ}

/-! ## Operands -/

/-- The state follows the events, and the operands still to come are there. -/
structure Good (st : GraphState) (es : List (Event Connector)) (todo : List Operand) : Prop where
  tracks : Tracks st es
  enough : Enough todo st

/-- Only these ops were handed to the storage. -/
structure Handed (w w' : World S) (xs : List UInt16) : Prop where
  storage : w'.target.storage = emitAll w.target.storage xs
  lens : w'.target.vecLens = w.target.vecLens

variable {w1 : World S} {xs : List UInt16}

theorem Handed.trans {ys : List UInt16} (h : Handed w w1 xs) (h' : Handed w1 w' ys) :
    Handed w w' (xs ++ ys) :=
  ⟨by rw [h'.storage, h.storage, emitAll, emitAll, emitAll, foldl_append],
    h'.lens.trans h.lens⟩

def OperandStep (o : Operand) (f : Build S PUnit) : Prop :=
  ∀ w es todo, Good w.state es (o :: todo) → Ends f w (fun _ w' =>
    ∃ c, Good w'.state (es ++ [(o.op c).event]) todo ∧ Handed w w' [c]) outOfIds

variable {v : ValueTypeID}

theorem operandStep_get {f : ValueState → Dist (ConnectorID × ValueState)}
    (hf : ∀ {s : ValueState} {x : Distributions}
      {Q : ConnectorID × ValueState → Distributions → Prop} {E : Panic → Distributions → Prop},
      s.Ok → 0 < s.numAvailable → (∀ c s' x', ValueState.Took s c s' → Q (c, s') x') →
        Ends (f s) x Q E) :
    OperandStep (S := S) (.get v) (do let id ← withState v f; appendOp id) := by
  intro w es todo h
  simp only [ends_bind, ends_withState, ends_appendOp]
  refine hf (h.tracks.ok v) h.enough.get_pos fun c s' x htook => ?_
  exact ⟨c, ⟨h.tracks.consume htook, h.enough.get htook.numAvailable⟩, rfl, rfl⟩

theorem operandStep_pass {f : ValueState → Dist ConnectorID}
    (hf : ∀ {s : ValueState} {x : Distributions} {Q : ConnectorID → Distributions → Prop}
      {E : Panic → Distributions → Prop}, s.Ok → 0 < s.numAvailable →
        (∀ c x', c ∈ s.newIdsForSampling → Q c x') → Ends (f s) x Q E) :
    OperandStep (S := S) (.pass v)
      (do let id ← withState v fun s => do { let id ← f s; pure (id, s) }; appendOp id) := by
  intro w es todo h
  simp only [ends_bind, ends_withState, ends_pure, ends_appendOp]
  refine hf (h.tracks.ok v) h.enough.pass_pos fun c x hc => ?_
  exact ⟨c, ⟨h.tracks.borrow hc, h.enough.mono (fun _ => by simp) (le_refl _)⟩, rfl, rfl⟩

theorem operandStep_set {f : ValueState → Except Panic (ConnectorID × ValueState)}
    (hf : ∀ {s : ValueState}, s.Ok → s.curId.toNat < 65535 →
      ∃ c s', f s = .ok (c, s') ∧ ValueState.Created s c s')
    (hover : ∀ {s : ValueState}, ¬s.curId.toNat < 65535 → ∃ e, f s = .error e) :
    OperandStep (S := S) (.set v)
      (do let id ← withState v fun s => orPanic (f s); appendOp id) := by
  intro w es todo h
  simp only [ends_bind, ends_withState, ends_appendOp]
  by_cases hcur : (w.state.stateOf v).curId.toNat < 65535
  · obtain ⟨c, s', hs', hcreated⟩ := hf (h.tracks.ok v) hcur
    rw [hs', ends_orPanic_ok]
    refine ⟨c, ⟨h.tracks.create hcreated, h.enough.mono (fun _ => by simp) ?_⟩, rfl, rfl⟩
    rw [hcreated.numAvailable]
    exact Nat.le_succ _
  · obtain ⟨e, he⟩ := hover hcur
    rw [he, ends_orPanic_error]
    intro hbounded
    have := hbounded v
    rw [GraphState.stateOf_insert_self] at this
    exact hcur this

theorem operandStep_rename (o : Operand) (old : ConnectorID) :
    OperandStep (S := S) o (do let newVal ← renameAndRelinkOpVal (o.op old); appendOp newVal) := by
  cases o with
  | get v => exact operandStep_get ends_takeOldAvailableInput
  | pass v => exact operandStep_pass ends_getOldAvailableInput
  | set v =>
    refine operandStep_set (fun hok hcur => ?_) fun hcur =>
      ⟨_, insertOldId_overflow hcur old⟩
    obtain ⟨c, s', hs', hcreated, -⟩ := insertOldId_spec hok hcur old
    exact ⟨c, s', hs', hcreated⟩

theorem ends_forOperands {β : Type} {bs : List β} {op : β → Operand} {f : β → Build S PUnit}
    (hf : ∀ b, OperandStep (op b) (f b)) (h : Good w.state es (bs.map op ++ todo)) :
    Ends (forEach bs f) w (fun _ w' => ∃ ids, ids.length = bs.length ∧ Handed w w' ids ∧
      Good w'.state (es ++ (List.zipWith Operand.op (bs.map op) ids).map GraphOp.event) todo)
      outOfIds := by
  induction bs generalizing w es with
  | nil => exact ⟨[], rfl, ⟨rfl, rfl⟩, by simpa using h⟩
  | cons b bs ih =>
    rw [forEach]
    refine (hf b w es _ h).bind fun _ w1 hw1 => ?_
    obtain ⟨c, hgood, hhanded⟩ := hw1
    refine (ih hgood).weaken fun _ w2 hw2 => ?_
    obtain ⟨ids, hlen, hhanded2, hgood2⟩ := hw2
    refine ⟨c :: ids, by rw [length_cons, hlen, length_cons],
      hhanded.trans hhanded2, ?_⟩
    rwa [append_assoc] at hgood2

/-! ## Nodes -/

variable {spec : GraphSpec} {nType : NodeSpec} {node : GraphNode}

/-- The ops of one node were handed over, and its events happened. -/
def OpsWritten (w w' : World S) (es : List (Event Connector)) (nType : NodeSpec) : Prop :=
  ∃ ids, ids.length = nType.size ∧ Handed w w' (nType.id :: ids) ∧
    Tracks w'.state (es ++ (nType.operations ids).map GraphOp.event)

theorem opsWritten_of_operands {ids : List ConnectorID} (hhanded : Handed w w1 [nType.id])
    (hlen : ids.length = nType.size) (hhanded' : Handed w1 w' ids)
    (hgood : Good w'.state (es ++ [.tick] ++
      (List.zipWith Operand.op nType.operandList ids).map GraphOp.event) []) :
    OpsWritten w w' es nType := by
  refine ⟨ids, hlen, hhanded.trans hhanded', ?_⟩
  rw [operations_eq, map_cons]
  have := hgood.tracks
  rwa [append_assoc] at this

variable {operands : List ConnectorID}

theorem ends_appendSlice_iff (hn : spec.getNode node.id = some nType)
    (hops : node.ops = node.id :: operands) (hlen : operands.length = nType.size) :
    Ends (appendSlice spec node.ops) w Q E ↔
      Ends (forEach (nType.operandList.zip operands) fun p => do
          let newVal ← renameAndRelinkOpVal (p.1.op p.2)
          appendOp newVal)
        ⟨w.state, { w.target with storage := emit w.target.storage nType.id }⟩ Q E := by
  have hiter : opIter spec node.ops = .ofList (nType.operations operands) := by
    have := opIter_node hn hlen []
    rwa [append_nil, opIter_nil, Iter.prepend_ofList, append_nil, ← hops] at this
  have hzip : zipWith Operand.op nType.operandList operands =
      (nType.operandList.zip operands).map fun p => p.1.op p.2 := by
    rw [zip, map_zipWith]
  rw [appendSlice, hiter, forIter, Iter.ofList_items, Iter.ofList_stop, operations_eq,
    forEach, hzip, forEach_map]
  simp [ends_bind, renameAndRelinkOpVal, ends_appendOp, raise]

theorem ends_appendSlice (hnode : node.IsNode spec) (hn : spec.getNode node.id = some nType)
    (htracks : Tracks w.state es)
    (hneed : ∀ v, need nType.passthroughs nType.inputs v ≤ (w.state.stateOf v).numAvailable) :
    Ends (appendSlice spec node.ops) w (fun _ w' => OpsWritten w w' es nType) outOfIds := by
  obtain ⟨nType', ids, hn', hops, hlen, -⟩ := hnode
  obtain rfl := some.inj (hn'.symm.trans hn)
  rw [ends_appendSlice_iff hn hops hlen]
  have hfst : (nType'.operandList.zip ids).map Prod.fst = nType'.operandList :=
    map_fst_zip (by rw [length_operandList, hlen])
  have hziplen : (nType'.operandList.zip ids).length = nType'.size := by
    rw [length_zip, length_operandList, hlen, min_self]
  let w1 : World S := ⟨w.state, { w.target with storage := emit w.target.storage nType'.id }⟩
  have hgood : Good w1.state (es ++ [.tick]) ((nType'.operandList.zip ids).map Prod.fst ++ []) := by
    rw [hfst, append_nil]
    exact ⟨htracks.tick, enough_operandList.2 hneed⟩
  refine (ends_forOperands (fun p : Operand × ConnectorID => operandStep_rename p.1 p.2)
    hgood).weaken fun _ w2 hw2 => ?_
  obtain ⟨newIds, hlen2, hhanded2, hgood2⟩ := hw2
  rw [hfst] at hgood2
  have hhanded1 : Handed w w1 [nType'.id] := ⟨rfl, rfl⟩
  exact opsWritten_of_operands hhanded1 (hlen2.trans hziplen) hhanded2 hgood2

theorem ends_appendRandomOperands (hgood : Good w.state es nType.operandList) :
    Ends (appendRandomOperands nType) w (fun _ w' => ∃ ids, ids.length = nType.size ∧
      Handed w w' ids ∧ Good w'.state (es ++
        (List.zipWith Operand.op nType.operandList ids).map GraphOp.event) []) outOfIds := by
  have h0 : Good w.state es (nType.inputs.map .get ++
      (nType.passthroughs.map .pass ++ (nType.outputs.map .set ++ []))) := by
    rw [append_nil, ← append_assoc]
    exact hgood
  simp only [appendRandomOperands, ends_bind]
  refine (ends_forOperands (fun v => operandStep_get ends_takeRandomInput) h0).weaken
    fun _ w1 hw1 => ?_
  obtain ⟨ids1, hlen1, hhanded1, h1⟩ := hw1
  refine (ends_forOperands (fun v => operandStep_pass fun _ => ends_getRandomInput)
    h1).weaken fun _ w2 hw2 => ?_
  obtain ⟨ids2, hlen2, hhanded2, h2⟩ := hw2
  refine (ends_forOperands (fun v => operandStep_set (fun hok hcur => ?_) fun hcur =>
    ⟨_, insertNewId_overflow hcur⟩) h2).weaken fun _ w3 hw3 => ?_
  · obtain ⟨c, s', hs', hcreated, -⟩ := insertNewId_spec hok hcur
    exact ⟨c, s', hs', hcreated⟩
  obtain ⟨ids3, hlen3, hhanded3, h3⟩ := hw3
  refine ⟨ids1 ++ ids2 ++ ids3, ?_, (hhanded1.trans hhanded2).trans hhanded3, ?_⟩
  · rw [length_append, length_append, hlen1, hlen2, hlen3]; rfl
  · rw [operandList, zipWith_append (by simp [hlen1, hlen2]),
      zipWith_append (by simp [hlen1]), map_append, map_append]
    rwa [append_assoc, append_assoc, ← append_assoc (map _ _)] at h3

/-! ## Room for ops -/

variable [LawfulGraphStorage S]

/-- The ops are there, with room left. -/
structure Emitted (g g' : S) (xs : List UInt16) (n m : ℕ) : Prop where
  ops : opsAsSlice g' = opsAsSlice g ++ xs
  data : dataAsSlice g' = dataAsSlice g
  available : GraphStorage.dataAvailable g' = GraphStorage.dataAvailable g
  room : Room g' n m

variable {g : S}

theorem emitted_emit (x : UInt16) (h : Room g (n + 1) m) : Emitted g (emit g x) [x] n m := by
  obtain ⟨g', hg', hops, hdata, havail, hroom⟩ := appendOp_spec x h
  rw [emit, hg']
  exact ⟨hops, hdata, havail, hroom⟩

theorem emitted_emitAll (h : Room g (xs.length + n) m) : Emitted g (emitAll g xs) xs n m := by
  induction xs generalizing g with
  | nil =>
    rw [length_nil, zero_add] at h
    exact ⟨(append_nil _).symm, rfl, rfl, h⟩
  | cons x xs ih =>
    rw [length_cons, add_right_comm] at h
    have h1 := emitted_emit x h
    have h2 := ih h1.room
    refine ⟨?_, h2.data.trans h1.data, h2.available.trans h1.available, h2.room⟩
    rw [emitAll, foldl_cons, ← emitAll, h2.ops, h1.ops, append_assoc,
      singleton_append]

theorem Handed.emitted (h : Handed w w' xs) (hroom : Room w.target.storage (xs.length + n) m) :
    Emitted w.target.storage w'.target.storage xs n m := by
  rw [h.storage]
  exact emitted_emitAll hroom

/-! ## Graphs -/

def World.VecsFit (w : World S) : Prop := ∀ n ∈ w.target.vecLens, n < 65536

def nodeOperations (spec : GraphSpec) (node : GraphNode) : List GraphOp :=
  match spec.getNode node.id with
  | some nType => nType.operations node.ops.tail
  | none => []

def GraphNode.HasOps (spec : GraphSpec) (node : GraphNode) : Prop :=
  ∃ nType operands, spec.getNode node.id = some nType ∧ node.ops = node.id :: operands ∧
    operands.length = nType.size

theorem GraphNode.IsNode.hasOps (h : node.IsNode spec) : node.HasOps spec := by
  obtain ⟨nType, operands, hn, hops, hlen, -⟩ := h
  exact ⟨nType, operands, hn, hops, hlen⟩

theorem nodeOperations_eq (hn : spec.getNode node.id = some nType)
    (hops : node.ops = node.id :: operands) :
    nodeOperations spec node = nType.operations operands := by
  simp [nodeOperations, hn, hops]

/-- The events of the nodes of a graph. -/
def eventsOf (spec : GraphSpec) (nodes : List GraphNode) : List (Event Connector) :=
  (nodes.flatMap (nodeOperations spec)).map GraphOp.event

@[simp] theorem eventsOf_append (spec : GraphSpec) (ns ms : List GraphNode) :
    eventsOf spec (ns ++ ms) = eventsOf spec ns ++ eventsOf spec ms := by
  rw [eventsOf, flatMap_append, map_append]; rfl

/-- **The invariant**: the storage holds the nodes, and the state is theirs. -/
structure Building (spec : GraphSpec) (w : World S) (nodes : List GraphNode) : Prop where
  ops : w.ops = opsOf nodes
  data : w.data = dataOf nodes
  shape : ∀ node ∈ nodes, node.HasOps spec
  whole : w.VecsFit → ∀ node ∈ nodes, node.IsNode spec
  tracks : Tracks w.state (eventsOf spec nodes)
  room : Room w.target.storage 0 0

variable {nodes : List GraphNode} {id : NodeTypeID}

/-- One more node. -/
theorem Building.extend {t : Target S} {d : List UInt8} {new : List ℕ} (h : Building spec w nodes)
    (hn : spec.getNode id = some nType) (hroom : Room w.target.storage (nType.size + 1) 0)
    (hops : OpsWritten w w1 (eventsOf spec nodes) nType) (hdata : Wrote w1.target t d 0 new)
    (henc : (∀ n ∈ new, n < 65536) → nType.Encodes spec d) :
    ∃ node, node.id = id ∧ node.data = d ∧
      Building spec { w1 with target := t } (nodes ++ [node]) := by
  obtain ⟨ids, hlen, hhanded, htracks⟩ := hops
  have hid := GraphSpec.getNode_id hn
  have hemit := hhanded.emitted (n := 0) (m := 0) (by rw [length_cons, hlen]; exact hroom)
  refine ⟨⟨id, 0, id :: ids, d⟩, rfl, rfl, ?_, ?_, ?_, ?_, ?_, hdata.room⟩
  · rw [opsOf_append, ← h.ops]
    refine hdata.ops.trans ?_
    rw [← hid]
    exact hemit.ops.trans (by simp [World.ops])
  · rw [dataOf_append, ← h.data]
    refine hdata.data.trans ?_
    rw [show dataAsSlice w1.target.storage = w.data from hemit.data]
    simp
  · intro node hnode
    rw [mem_append, mem_singleton] at hnode
    obtain hnode | rfl := hnode
    · exact h.shape node hnode
    · exact ⟨nType, ids, hn, rfl, hlen⟩
  · intro hfit node hnode
    have hlens : t.vecLens = new ++ w.target.vecLens := by rw [hdata.lens, hhanded.lens]
    have hfit' : ∀ n ∈ new ++ w.target.vecLens, n < 65536 := fun n hn' => hfit n (hlens ▸ hn')
    rw [mem_append, mem_singleton] at hnode
    obtain hnode | rfl := hnode
    · exact h.whole (fun n hn' => hfit' n (mem_append_right _ hn')) node hnode
    · exact ⟨nType, ids, hn, rfl, hlen, henc fun n hn' => hfit' n (mem_append_left _ hn')⟩
  · rw [eventsOf_append]
    have hnode : eventsOf spec [⟨id, 0, id :: ids, d⟩] =
        (nType.operations ids).map GraphOp.event := by
      rw [eventsOf, flatMap_singleton, nodeOperations_eq hn rfl]
    rw [hnode]
    exact htracks

/-- More nodes were added. -/
def Extended (spec : GraphSpec) (nodes : List GraphNode) (w : World S) : Prop :=
  ∃ added, Building spec w (nodes ++ added)

theorem Building.extended (h : Building spec w nodes) :
    Extended spec nodes w := ⟨[], by rwa [append_nil]⟩

omit [LawfulGraphStorage S] in
theorem canAppendNode_iff : canAppendNode spec node w = true ↔
    (∃ nType, spec.getNode node.id = some nType ∧
      ∀ v, need nType.passthroughs nType.inputs v ≤ (w.state.stateOf v).numAvailable) ∧
        GraphStorage.canAppend w.target.storage node = true := by
  rw [canAppendNode, Bool.and_eq_true, GraphState.isAvailable_iff]

def Copied (spec : GraphSpec) (nodes : List GraphNode) (node : GraphNode)
    (P : List UInt8 → Prop) (w w' : World S) : Prop :=
  w' = w ∨ ∃ node', node'.id = node.id ∧ P node'.data ∧ Building spec w' (nodes ++ [node']) ∧
    w'.target.vecLens = w.target.vecLens

variable {P : List UInt8 → Prop}

theorem Copied.extended (h : Building spec w nodes) (hc : Copied spec nodes node P w w') :
    Extended spec nodes w' := by
  obtain rfl | ⟨node', -, -, hnode', -⟩ := hc
  · exact h.extended
  · exact ⟨[node'], hnode'⟩

theorem ends_appendWith {writeData : Build S PUnit} (h : Building spec w nodes)
    (hnode : node.IsNode spec) (hroom : Room w.target.storage (node.ops.length + n) 0)
    (hcan : canAppendNode spec node w = true)
    (hwrite : ∀ w1 nType, spec.getNode node.id = some nType →
      Room w1.target.storage 0 (0 + node.data.length) →
        Ends writeData w1 (fun _ w2 => ∃ t d, w2 = { w1 with target := t } ∧
          Wrote w1.target t d 0 [] ∧ nType.Encodes spec d ∧ P d) outOfIds) :
    Ends (do appendSlice spec node.ops; writeData) w
      (fun _ w' => Copied spec nodes node P w w' ∧ Room w'.target.storage n 0) outOfIds := by
  obtain ⟨⟨nType, hn, hneed⟩, hdata⟩ := canAppendNode_iff.1 hcan
  have hroom' : Room w.target.storage (node.ops.length + n) (0 + node.data.length) := by
    rw [Nat.zero_add]
    exact room_and hroom (room_of_canAppend h.room hdata)
  refine (ends_appendSlice hnode hn h.tracks hneed).bind fun _ w1 hw1 => ?_
  obtain ⟨ids, hlen, hhanded, -⟩ := id hw1
  have hopsLen : (nType.id :: ids).length = node.ops.length := by
    rw [length_cons, hlen, hnode.ops_length hn, Nat.add_comm]
  rw [← hopsLen] at hroom'
  have hroom1 := (hhanded.emitted hroom').room
  have hdataRoom := room_mono hroom1 (Nat.zero_le _) (le_refl _)
  refine (hwrite w1 nType hn hdataRoom).weaken fun _ w2 hw2 => ?_
  obtain ⟨t, d, rfl, hd, henc, hP⟩ := hw2
  have hroom0 : Room w.target.storage (nType.size + 1) 0 :=
    room_mono hroom (by rw [← hopsLen, length_cons, hlen]; omega) (le_refl _)
  obtain ⟨node', hid, rfl, hnode'⟩ := h.extend hn hroom0 hw1 hd fun _ => henc
  refine ⟨.inr ⟨node', hid, hP, hnode', hd.lens.trans hhanded.lens⟩, hd.opsRoom n ?_⟩
  exact room_mono hroom1 (le_refl _) (Nat.zero_le _)

theorem GraphNode.IsNode.encodes (h : node.IsNode spec) (hn : spec.getNode node.id = some nType) :
    nType.Encodes spec node.data := by
  obtain ⟨nType', operands, hn', -, -, henc⟩ := h
  obtain rfl := some.inj (hn'.symm.trans hn)
  exact henc

/-- **`append_node` copies the node or leaves it out.** -/
theorem ends_appendNode (h : Building spec w nodes) (hnode : node.IsNode spec)
    (hroom : Room w.target.storage (node.ops.length + n) 0) :
    Ends (appendNode spec node) w (fun _ w' =>
      Copied spec nodes node (· = node.data) w w' ∧ Room w'.target.storage n 0) outOfIds := by
  refine ends_ite (fun hcan => ?_) fun _ =>
    ⟨.inl rfl, room_mono hroom (Nat.le_add_left _ _) (le_refl _)⟩
  refine ends_appendWith h hnode hroom hcan fun w1 nType hn hroom1 => ?_
  rw [ends_inTarget]
  exact ends_storeData hroom1 fun t ht => ⟨t, node.data, rfl, ht, hnode.encodes hn, rfl⟩

theorem ends_appendNodeMutated {dict : CustomDict} (hspec : spec.Usable) (hdict : dict.Valid)
    (h : Building spec w nodes) (hnode : node.IsNode spec)
    (hroom : Room w.target.storage (node.ops.length + n) 0) :
    Ends (appendNodeMutated spec node dict) w (fun _ w' =>
      Copied spec nodes node (fun d => d.length = node.data.length) w w' ∧
        Room w'.target.storage n 0) outOfIds := by
  refine ends_ite (fun hcan => ?_) fun _ =>
    ⟨.inl rfl, room_mono hroom (Nat.le_add_left _ _) (le_refl _)⟩
  refine ends_appendWith h hnode hroom hcan fun w1 nType hn hroom1 => ?_
  have henc := hnode.encodes hn
  simp only [hn]
  unfold NodeSpec.Encodes at henc ⊢
  cases hd : nType.data with
  | none =>
    rw [hd] at henc
    refine ⟨w1.target, [], rfl, Wrote.nil ?_, rfl, by rw [henc]⟩
    exact room_mono hroom1 (le_refl _) (Nat.zero_le _)
  | some dType =>
    rw [hd] at henc
    obtain ⟨s, hs, henc⟩ := henc
    simp only [hs]
    rw [ends_inTarget]
    have husable := hspec.data s (mem_of_getElem? hs)
    refine ends_appendMutated husable.vecGenerators hdict henc hroom1 fun t d' hlayout hw => ?_
    exact ⟨t, d', rfl, hw, ⟨s, rfl, hlayout.encodes henc⟩, hlayout.length⟩

theorem ends_dropNodeAtStep (index : ℕ) {item : GraphNode × ℕ} (h : Building spec w nodes)
    (hnode : item.1.IsNode spec) (hroom : Room w.target.storage item.1.ops.length 0) :
    Ends (dropNodeAtStep spec index item) w (fun _ w' =>
      Copied spec nodes item.1 (· = item.1.data) w w') outOfIds := by
  refine ends_ite (fun _ => ?_) fun _ => .inl rfl
  refine ends_ite (fun hcan => ?_) fun _ => .inl rfl
  refine (ends_appendWith (n := 0) h hnode hroom hcan fun w1 nType hn hroom1 => ?_).weaken
    fun _ _ hc => hc.1
  rw [ends_inTarget]
  exact ends_tryStoreData hroom1 fun t ht => ⟨t, item.1.data, rfl, ht, hnode.encodes hn, rfl⟩

omit [LawfulGraphStorage S] in
theorem start_none_run (hg : GraphStorage.truncateTo w.target.storage 0 0 = .ok g) :
    start .none w = .ok ⟨⟩ ⟨w.state.clear, { w.target with storage := g }⟩ := by
  have hg' : truncateTo w.target.storage MutatorSnapshotState.none.skipOps
      MutatorSnapshotState.none.skipData = .ok g := hg
  have : Ends (start .none) w
      (fun _ w' => w' = ⟨w.state.clear, { w.target with storage := g }⟩) never := by
    simp only [start, ends_bind, ends_get, hg', ends_orPanic_ok, ends_set]
    exact rfl
  obtain ⟨_, w', hrun, rfl⟩ := this.result
  exact hrun

theorem ends_start_none (spec : GraphSpec) (w : World S) (E : Panic → World S → Prop) :
    Ends (start .none) w (fun _ w' => Building spec w' [] ∧ w'.target.vecLens = w.target.vecLens)
      E := by
  obtain ⟨g, hg, hops, hdata, hroom⟩ := truncateTo_zero_spec w.target.storage
  exact ends_of_ok (start_none_run hg) ⟨⟨hops, hdata, fun n hn => absurd hn not_mem_nil,
    fun _ n hn => absurd hn not_mem_nil, Tracks.clear _, hroom⟩, rfl⟩

/-! ## Random nodes -/

theorem GraphSpec.Usable.getData (hspec : spec.Usable) (hn : spec.getNode id = some nType)
    (hgen : nType.generatable = true) {dType : AtomicTypeID} (hd : nType.data = some dType) :
    ∃ s, spec.getData dType = some s ∧ s.atomicType.SizedElems :=
  hspec.nodes nType (GraphSpec.mem_of_getNode hn) hgen dType hd

omit [LawfulGraphStorage S] in
theorem canGenerateNode_spec (hspec : spec.Usable) (hn : spec.getNode id = some nType)
    (hgen : nType.generatable = true) (w : World S) :
    ∃ can, canGenerateNode spec nType w = .ok can ∧
      (can = true → nType.size + 1 ≤ GraphStorage.opsAvailable w.target.storage) := by
  unfold canGenerateNode
  by_cases hlt : nType.size + 1 > opsAvailable w.target.storage
  · exact ⟨false, if_pos hlt, fun h => nomatch h⟩
  · rw [if_neg hlt]
    unfold GraphSpec.minDataSize
    cases hd : nType.data with
    | none => exact ⟨_, rfl, fun _ => not_lt.1 hlt⟩
    | some dType =>
      obtain ⟨s, hs, -⟩ := hspec.getData hn hgen hd
      simp only [hs]
      exact ⟨_, rfl, fun _ => not_lt.1 hlt⟩

omit [LawfulGraphStorage S] in
theorem minDataSize_lt_of_not_full (hfull : isFull spec w = false) {dType : AtomicTypeID}
    {s : AtomicSpec} (hs : spec.getData dType = some s) :
    s.atomicType.minDataSize < GraphStorage.dataAvailable w.target.storage := by
  simp only [isFull, Bool.or_eq_false_iff, decide_eq_false_iff_not] at hfull
  exact lt_of_le_of_lt (spec.le_maxData s (mem_of_getElem? hs)) (not_le.1 hfull.1)

/-- **A node is generated** of a type that is available. -/
theorem ends_appendRandomNode (hspec : spec.Usable) (h : Building spec w nodes)
    (havail : w.state.isAvailable spec id = true)
    (hgen : ∀ nType, spec.getNode id = some nType → nType.generatable = true)
    (hfull : isFull spec w = false) :
    Ends (appendRandomNode spec id) w (fun r w' => r = .ok ⟨⟩ ∧ Extended spec nodes w')
      outOfIds := by
  obtain ⟨nType, hn, hneed⟩ := GraphState.isAvailable_iff.1 havail
  obtain rfl := GraphSpec.getNode_id hn
  obtain ⟨can, hcan, hfits⟩ := canGenerateNode_spec hspec hn (hgen nType hn) w
  simp only [appendRandomNode, hn, ends_bind, ends_get, hcan, ends_orPanic_ok]
  refine ends_ite (fun htrue => ?_) fun _ => ⟨rfl, h.extended⟩
  have hroom := room_of_available h.room (hfits htrue) (Nat.zero_le _)
  simp only [ends_bind, ends_appendOp]
  let w1 : World S := ⟨w.state, { w.target with storage := emit w.target.storage nType.id }⟩
  have hgood : Good w1.state (eventsOf spec nodes ++ [.tick]) nType.operandList :=
    ⟨h.tracks.tick, enough_operandList.2 hneed⟩
  refine (ends_appendRandomOperands hgood).weaken fun _ w2 hw2 => ?_
  obtain ⟨ids, hlen, hhanded, hgood2⟩ := hw2
  have hhanded1 : Handed w w1 [nType.id] := ⟨rfl, rfl⟩
  have hwritten := opsWritten_of_operands hhanded1 hlen hhanded hgood2
  have hemit : Emitted w.target.storage w2.target.storage (nType.id :: ids) 0 0 :=
    (hhanded1.trans hhanded).emitted (by
      rw [singleton_append, length_cons, hlen]; exact hroom)
  cases hd : nType.data with
  | none =>
    obtain ⟨node, -, -, hnode⟩ := h.extend hn hroom hwritten (Wrote.nil hemit.room)
      fun _ => show nType.Encodes spec [] by unfold NodeSpec.Encodes; rw [hd]
    exact ⟨rfl, [node], hnode⟩
  | some dType =>
    obtain ⟨s, hs, hsized⟩ := hspec.getData hn (hgen nType hn) hd
    simp only [ends_bind, ends_inTarget, hs]
    refine ends_appendGenerate hspec hs hsized hemit.room ?_ ?_
    · rw [hemit.available]; exact minDataSize_lt_of_not_full hfull hs
    · intro t d new hw henc
      obtain ⟨node, -, -, hnode⟩ := h.extend hn hroom hwritten hw fun hnew =>
        show nType.Encodes spec d by
          unfold NodeSpec.Encodes; rw [hd]; exact ⟨s, hs, henc hnew⟩
      exact ⟨rfl, [node], hnode⟩

/-- Some node type needs no values. -/
def GraphSpec.HasSource (spec : GraphSpec) : Prop :=
  ∃ n ∈ spec.nodeSpecs, n.generatable = true ∧ n.inputs = [] ∧ n.passthroughs = []

omit [GraphStorage S] [LawfulGraphStorage S] in
theorem ends_pickAvailableType (hsource : spec.HasSource) (w : World S)
    {Q : Except GraphError NodeTypeID → World S → Prop}
    (hQ : ∀ id x, w.state.isAvailable spec id = true →
      (∀ nType, spec.getNode id = some nType → nType.generatable = true) →
        Q (.ok id) { w with target := { w.target with dist := x } }) :
    Ends (pickAvailableType spec) w Q E := by
  simp only [pickAvailableType, ends_bind, ends_get, ends_inTarget, ends_random]
  refine ends_chooseFromIter (fun hnil => ?_) fun id x hid => ?_
  · obtain ⟨n, hmem, hgen, hin, hpass⟩ := hsource
    have havail : w.state.isAvailable spec n.id = true :=
      GraphState.isAvailable_iff.2 ⟨n, GraphSpec.getNode_of_mem hmem, fun v => by
        rw [hin, hpass]; exact Nat.zero_le _⟩
    have : n.id ∈ ([] : List NodeTypeID) := by
      rw [← hnil]
      exact mem_map_of_mem (mem_filter.2 ⟨hmem, by rw [havail, hgen]; rfl⟩)
    exact absurd this not_mem_nil
  · obtain ⟨n, hmem, rfl⟩ := mem_map.1 hid
    obtain ⟨hmem, hkept⟩ := mem_filter.1 hmem
    rw [Bool.and_eq_true] at hkept
    refine hQ _ _ hkept.1 fun nType hn => ?_
    obtain rfl := Option.some.inj ((GraphSpec.getNode_of_mem hmem).symm.trans hn)
    exact hkept.2

theorem Building.setDist (h : Building spec w nodes) (x : Distributions) :
    Building spec { w with target := { w.target with dist := x } } nodes :=
  ⟨h.ops, h.data, h.shape, h.whole, h.tracks, h.room⟩

theorem Extended.trans {added : List GraphNode} (h : Extended spec (nodes ++ added) w) :
    Extended spec nodes w := by
  obtain ⟨more, hmore⟩ := h
  exact ⟨added ++ more, by rwa [← append_assoc]⟩

theorem ends_appendRandom (hspec : spec.Usable) (hsource : spec.HasSource) (n : ℕ)
    (h : Building spec w nodes) :
    Ends (appendRandom spec n) w (fun r w' => r = .ok ⟨⟩ ∧ Extended spec nodes w') outOfIds := by
  induction n generalizing w nodes with
  | zero => exact ⟨rfl, h.extended⟩
  | succ n ih =>
    refine ends_ite (fun _ => ⟨rfl, h.extended⟩) fun hfull => ?_
    rw [ends_bind]
    refine ends_pickAvailableType hsource w fun id x havail hgen => ?_
    simp only [ends_bind]
    refine (ends_appendRandomNode hspec (h.setDist x) havail hgen
      (Bool.eq_false_iff.2 hfull)).weaken fun r w1 hr => ?_
    obtain ⟨rfl, added, hadded⟩ := hr
    exact (ih hadded).weaken fun r w2 hr => ⟨hr.1, hr.2.trans⟩

theorem ends_appendRandomUnwrap (hspec : spec.Usable) (hsource : spec.HasSource) (n : ℕ)
    (h : Building spec w nodes) :
    Ends (appendRandomUnwrap spec n) w (fun _ w' => Extended spec nodes w') outOfIds := by
  rw [appendRandomUnwrap]
  refine (ends_appendRandom hspec hsource n h).bind fun r w' hr => ?_
  obtain ⟨rfl, hw'⟩ := hr
  exact hw'

theorem ends_dropNodeAt {frag : VecGraph} {index : ℕ} (hfrag : (nodesOf spec frag).stop = none)
    (hroom : ∀ (g : S) n, Room g 0 0 → Room g n 0) :
    Ends (dropNodeAt spec frag index) w (fun _ w' => Extended spec [] w') outOfIds := by
  rw [dropNodeAt]
  refine (ends_start_none spec w outOfIds).bind fun _ w1 hw1 => ?_
  let I : List (GraphNode × ℕ) → World S → Prop := fun rest w' =>
    (∀ item ∈ rest, item.1.IsNode spec) ∧ Extended spec [] w'
  refine (ends_forIter (I := I) hfrag ⟨fun item hitem => ?_, hw1.1.extended⟩ ?_).weaken
    fun _ _ h => h.2
  · obtain ⟨-, hlt, heq⟩ := mem_zipIdx hitem
    rw [heq]
    exact isNode_of_mem_nodeIter (getElem_mem _)
  · rintro item rest w2 ⟨hrest, added, hadded⟩
    have hstep := ends_dropNodeAtStep index hadded (hrest item mem_cons_self)
      (hroom _ _ hadded.room)
    exact hstep.weaken fun _ w3 hw3 =>
      ⟨fun i hi => hrest i (mem_cons_of_mem _ hi), (hw3.extended hadded).trans⟩

/-! ## Reading the graph back -/

theorem opIter_chunks (h : ∀ node ∈ nodes, node.HasOps spec) :
    opIter spec (opsOf nodes) = .ofList (nodes.flatMap (nodeOperations spec)) := by
  induction nodes with
  | nil => rfl
  | cons n ns ih =>
    obtain ⟨nType, operands, hn, hops, hlen⟩ := h n mem_cons_self
    rw [opsOf_cons, hops, opIter_node hn hlen, ih fun m hm => h m (mem_cons_of_mem _ hm),
      Iter.prepend_ofList, flatMap_cons, nodeOperations_eq hn hops]

theorem length_nodeOperations (h : node.HasOps spec) :
    (nodeOperations spec node).length = node.ops.length := by
  obtain ⟨nType, operands, hn, hops, hlen⟩ := h
  rw [nodeOperations_eq hn hops, hops, operations_eq, length_cons,
    length_zipWith, length_operandList, hlen, min_self, length_cons, hlen]

theorem Building.curId_le (h : Building spec w nodes) (v : ValueTypeID) :
    (w.state.stateOf v).curId.toNat ≤ w.ops.length := by
  have hlen : (eventsOf spec nodes).length = w.ops.length := by
    rw [h.ops, eventsOf, length_map, opsOf, length_flatMap, length_flatMap]
    exact congrArg _ (map_congr_left fun node hnode => length_nodeOperations (h.shape node hnode))
  rw [h.tracks.curId v, ← hlen]
  exact countP_le_length

theorem bounded_of_ends {α : Type} {m : Build S α}
    (h : Ends m w (fun _ w' => Extended spec nodes w') E) (hpanic : panicOf (m w) = none)
    (hlen : (lastState (m w)).ops.length < 65535) : (lastState (m w)).Bounded := by
  obtain ⟨_, -, added, hadded⟩ := h.of_panicOf hpanic
  exact fun v => lt_of_le_of_lt (hadded.curId_le v) hlen

/-- **What is built is well formed.** -/
theorem Building.wellFormed (h : Building spec w nodes) :
    WellFormed (nodes.flatMap (nodeOperations spec)) := by
  refine wellFormed_of_linear (fun ops hops => ?_) h.tracks.linear
  obtain ⟨node, hnode, rfl⟩ := mem_map.1 hops
  obtain ⟨nType, operands, hn, hops, hlen⟩ := h.shape node hnode
  rw [nodeOperations_eq hn hops]
  exact nType.isBlock_operations hlen

theorem Building.readBack (h : Building spec w nodes) (hfit : w.VecsFit) :
    ∃ nodes ops, nodesOf spec w.target.storage = .ofList nodes ∧ opsOf nodes = w.ops ∧
      dataOf nodes = w.data ∧ operationsOf spec w.target.storage = .ofList ops ∧ WellFormed ops := by
  refine ⟨place 0 nodes, _, ?_, ?_, ?_, ?_, h.wellFormed⟩
  · show nodeIter spec w.ops w.data = _
    rw [h.ops, h.data]
    exact nodeIter_chunks (h.whole hfit)
  · rw [opsOf_place, h.ops]
  · rw [dataOf_place, h.data]
  · show opIter spec w.ops = _
    rw [h.ops]
    exact opIter_chunks h.shape

end FuzzSocketCan
