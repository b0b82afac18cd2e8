import Mathlib.Data.List.TakeDrop
import FuzzSocketCan.StructuredFuzzer.BoundedStorage
import FuzzSocketCan.StructuredFuzzer.Snapshot

/-! # Copying nodes into bounded storage

`can_append_node` asks whether the data of a node fits, not its ops; `append_op` refuses an op
that does not fit, and no caller looks at its result. So a node for whose ops there is no room is
cut. `splice`, `copy_all`, `drop_range` and `prepare_snapshot` do not test first whether the
storage is full.

* **`Writes`** — what they write is a sequence of calls.
* **`Writes.allOrNothing_iff`** — each stores all or nothing exactly when it finds room.
* **`copying_allOrNothing`** — so it is for each of the four. -/

namespace FuzzSocketCan

open Lib List RefGraph

/-! ## Ops that may not fit -/

structure Squeezed (g g' : RefGraph) (xs : List UInt16) : Prop where
  ops : opsAsSlice g' = opsAsSlice g ++ xs.take (g.ops.length - g.opsI)
  data : g'.data = g.data
  dataI : g'.dataI = g.dataI
  full : g.opsI = g.ops.length → g' = g

theorem squeezed_emitAll {g : RefGraph} (h : g.opsI ≤ g.ops.length) (xs : List UInt16) :
    Squeezed g (emitAll g xs) xs := by
  induction xs generalizing g with
  | nil => exact ⟨by rw [take_nil, append_nil]; rfl, rfl, rfl, fun _ => rfl⟩
  | cons x xs ih =>
    rw [emitAll, foldl_cons, ← emitAll]
    by_cases hlt : g.opsI < g.ops.length
    · -- the op is stored
      have hemit := emit_of_lt hlt x
      have hlen : (g.ops.set g.opsI x).length = g.ops.length := length_set
      have hle : (emit g x).opsI ≤ (emit g x).ops.length := by
        rw [hemit]; show g.opsI + 1 ≤ (g.ops.set g.opsI x).length; omega
      have ih := ih hle
      rw [hemit] at ih ⊢
      refine ⟨?_, ih.data, ih.dataI, fun hfull => absurd hfull (by omega)⟩
      have hk : g.ops.length - g.opsI = (g.ops.length - (g.opsI + 1)) + 1 := by omega
      rw [ih.ops, hk, take_succ_cons]
      simp [opsAsSlice_eq, hlen, take_set_succ x hlt]
    · -- the op is refused, and so is every op behind it
      have ih := ih h
      have hk : g.ops.length - g.opsI = 0 := by omega
      rw [emit_of_full hlt]
      exact ⟨by rw [ih.ops, hk, take_zero, take_zero], ih.data, ih.dataI, ih.full⟩

variable {spec : GraphSpec} {nType : NodeSpec} {node : GraphNode} {nodes : List GraphNode}
  {w w' : World RefGraph}

structure Squashed (spec : GraphSpec) (es : List (Event Connector)) (node : GraphNode)
    (nType : NodeSpec) (ids : List ConnectorID) (w w' : World RefGraph) : Prop where
  type : spec.getNode node.id = some nType
  length : ids.length = nType.size
  stored : ∃ g, Squeezed w.target.storage g (node.id :: ids) ∧
    GraphStorage.appendData g node.data = some w'.target.storage
  tracks : Tracks w'.state (es ++ (nType.operations ids).map GraphOp.event)
  lens : w'.target.vecLens = w.target.vecLens

theorem ends_appendNode_squashed {es : List (Event Connector)} (hnode : node.IsNode spec)
    (htracks : Tracks w.state es) (hroom : w.target.storage.HasRoom 0 0) :
    Ends (appendNode spec node) w (fun _ w' =>
      (canAppendNode spec node w = false ∧ w' = w) ∨
        (canAppendNode spec node w = true ∧
          ∃ nType ids, Squashed spec es node nType ids w w')) outOfIds := by
  refine ends_ite (fun hcan => ?_) fun hcan => .inl ⟨by simpa using hcan, rfl⟩
  obtain ⟨⟨nType, hn, hneed⟩, hdata⟩ := canAppendNode_iff.1 hcan
  refine (ends_appendSlice hnode hn htracks hneed).bind fun _ w1 hw1 => ?_
  obtain ⟨ids, hlen, hhanded, htracks1⟩ := hw1
  have hsqueezed := squeezed_emitAll hroom.1 (nType.id :: ids)
  rw [← hhanded.storage, GraphSpec.getNode_id hn] at hsqueezed
  have hfits : w1.target.storage.dataI + node.data.length ≤ w1.target.storage.data.length := by
    rw [hsqueezed.dataI, hsqueezed.data]
    exact le_of_lt (of_decide_eq_true hdata)
  have happend : GraphStorage.appendData w1.target.storage node.data = some _ := if_pos hfits
  simp only [ends_inTarget, storeData, ends_bind, ends_get, happend, ends_set]
  exact .inr ⟨hcan, nType, ids, hn, hlen, ⟨_, hsqueezed, happend⟩, htracks1, hhanded.lens⟩

/-! ## Calls -/

inductive Write
  | node (n : GraphNode)
  | snapshotOp (id : NodeTypeID)

structure Written where
  write : Write
  before : World RefGraph
  after : World RefGraph

def Stored (node : GraphNode) (w w' : World RefGraph) : Prop :=
  ∃ ids, ids.length + 1 = node.ops.length ∧ w'.ops = w.ops ++ node.id :: ids ∧
    w'.data = w.data ++ node.data

def Unchanged (w w' : World RefGraph) : Prop :=
  w'.target.storage = w.target.storage ∧ SameValues w.state w'.state

/-- **All or nothing.** The snapshot op has to be stored. -/
def Written.AllOrNothing (c : Written) : Prop :=
  match c.write with
  | .node n => Stored n c.before c.after ∨ Unchanged c.before c.after
  | .snapshotOp id => c.after.ops = c.before.ops ++ [id] ∧ c.after.data = c.before.data

/-- There is room for `n` more ops. -/
def OpsFit (n : ℕ) (w : World RefGraph) : Prop :=
  w.target.storage.opsI + n ≤ w.target.storage.ops.length

/-- **The condition on a call.** The node is refused, or its ops have room; or no op has room, and
the node has no data, inputs or outputs. -/
def Written.Fits (spec : GraphSpec) (c : Written) : Prop :=
  match c.write with
  | .node n => canAppendNode spec n c.before = false ∨ OpsFit n.ops.length c.before ∨
      (¬OpsFit 1 c.before ∧ n.data = [] ∧
        ∀ nType ∈ spec.getNode n.id, nType.inputs = [] ∧ nType.outputs = [])
  | .snapshotOp _ => OpsFit 1 c.before

section

variable {es : List (Event Connector)} {ids : List ConnectorID}

theorem Squashed.ops_eq (h : Squashed spec es node nType ids w w') :
    w'.ops = w.ops ++ (node.id :: ids).take
      (w.target.storage.ops.length - w.target.storage.opsI) := by
  obtain ⟨g, hg, happend⟩ := h.stored
  obtain ⟨-, hstorage⟩ := appendData_eq_some.1 happend
  rw [World.ops, World.ops, ← hg.ops, hstorage]
  rfl

theorem Squashed.data_eq (h : Squashed spec es node nType ids w w') :
    w'.data = w.data ++ node.data := by
  obtain ⟨g, hg, happend⟩ := h.stored
  obtain ⟨hle, hstorage⟩ := appendData_eq_some.1 happend
  rw [World.data, World.data, hstorage, dataAsSlice_eq, dataAsSlice_eq,
    ← hg.data, ← hg.dataI]
  exact RefGraph.take_overwrite node.data (by omega)

theorem Squashed.stored_iff (h : Squashed spec es node nType ids w w') (hnode : node.IsNode spec) :
    Stored node w w' ↔ OpsFit node.ops.length w := by
  have hlen : node.ops.length = (node.id :: ids).length := by
    rw [hnode.ops_length h.type, length_cons, h.length, add_comm]
  rw [hlen]
  constructor
  · rintro ⟨ids', hlen', hops, -⟩
    have heq := congrArg List.length (append_cancel_left (hops.symm.trans h.ops_eq))
    rw [length_take, length_cons, hlen', hlen] at heq
    simp only [OpsFit, length_cons] at heq ⊢
    omega
  · intro hfit
    refine ⟨ids, hlen.symm, ?_, h.data_eq⟩
    rw [h.ops_eq, take_of_length_le (by unfold OpsFit at hfit; omega)]

theorem Squashed.unchanged_iff (h : Squashed spec es node nType ids w w')
    (htracks : Tracks w.state es) (hroom : w.target.storage.HasRoom 0 0) :
    Unchanged w w' ↔ ¬OpsFit 1 w ∧ node.data = [] ∧ nType.inputs = [] ∧ nType.outputs = [] := by
  rw [Unchanged, htracks.sameValues_iff h.tracks h.length, ← and_assoc (a := ¬OpsFit 1 w)]
  refine and_congr_left fun _ => ?_
  obtain ⟨g, hg, happend⟩ := h.stored
  obtain ⟨hle, hstorage⟩ := appendData_eq_some.1 happend
  have hcap := hroom.1
  constructor
  · intro hsame
    refine ⟨fun hfit => ?_, ?_⟩
    · -- an op that fits is stored
      have hops := h.ops_eq
      rw [World.ops, hsame, World.ops, self_eq_append_right, take_eq_nil_iff] at hops
      unfold OpsFit at hfit
      obtain hops | hops := hops
      · omega
      · cases hops
    · have hdata := h.data_eq
      rw [World.data, hsame, World.data, self_eq_append_right] at hdata
      exact hdata
  · rintro ⟨hfull, hdata⟩
    unfold OpsFit at hfull
    rw [hg.full (by omega), hdata] at hstorage
    rw [hstorage]
    simp [overwrite]

end

theorem appendNode_allOrNothing_iff (h : Building spec w nodes) (hnode : node.IsNode spec)
    (hrun : appendNode spec node w = .ok ⟨⟩ w') :
    (Written.mk (.node node) w w').AllOrNothing ↔ (Written.mk (.node node) w w').Fits spec := by
  simp only [Written.AllOrNothing, Written.Fits]
  obtain ⟨hcan, rfl⟩ | ⟨hcan, nType, ids, hsquashed⟩ :=
    (ends_appendNode_squashed hnode h.tracks h.room).of_ok hrun
  · exact iff_of_true (.inr ⟨rfl, fun _ _ => Iff.rfl⟩) (.inl hcan)
  · rw [hsquashed.stored_iff hnode, hsquashed.unchanged_iff h.tracks h.room, hcan, hsquashed.type]
    simp

theorem Building.appendNode_of_fits (h : Building spec w nodes) (hnode : node.IsNode spec)
    (hrun : appendNode spec node w = .ok ⟨⟩ w') (hfits : (Written.mk (.node node) w w').Fits spec) :
    Extended spec nodes w' ∧ w'.target.vecLens = w.target.vecLens := by
  obtain ⟨hcan, rfl⟩ | ⟨hcan, nType, ids, hsquashed⟩ :=
    (ends_appendNode_squashed hnode h.tracks h.room).of_ok hrun
  · exact ⟨h.extended, rfl⟩
  · refine ⟨?_, hsquashed.lens⟩
    simp only [Written.Fits, hcan, hsquashed.type, Bool.true_eq_false, false_or] at hfits
    obtain hfit | ⟨hfull, hdata, htype⟩ := hfits
    · exact ((ends_appendNode (n := 0) h hnode ⟨hfit, h.room.2⟩).of_ok hrun).1.extended h
    · -- nothing was stored, and the node only borrows
      obtain ⟨hin, hout⟩ := htype nType rfl
      obtain ⟨hsame, -⟩ := (hsquashed.unchanged_iff h.tracks h.room).2 ⟨hfull, hdata, hin, hout⟩
      refine Building.extended ⟨?_, ?_, h.shape, ?_, ?_, ?_⟩
      · rw [World.ops, hsame]; exact h.ops
      · rw [World.data, hsame]; exact h.data
      · intro hfit
        exact h.whole (by rwa [World.VecsFit, ← hsquashed.lens])
      · exact hsquashed.tracks.of_borrows ((NodeSpec.consumes_nothing_iff hsquashed.length).2 hin)
          ((NodeSpec.creates_nothing_iff hsquashed.length).2 hout)
      · rw [hsame]; exact h.room

def GraphSpec.BareSnapshot (spec : GraphSpec) : Prop :=
  ∀ n ∈ spec.nodeSpecs, spec.snapshotNodeId = some n.id → n.data = none

variable {id : NodeTypeID}

theorem appendOp_allOrNothing_iff (hroom : w.target.storage.HasRoom 0 0)
    (hrun : appendOp id w = .ok ⟨⟩ w') :
    (Written.mk (.snapshotOp id) w w').AllOrNothing ↔
      (Written.mk (.snapshotOp id) w w').Fits spec := by
  rw [appendOp_run, EStateM.Result.ok.injEq] at hrun
  obtain ⟨-, rfl⟩ := hrun
  have hsqueezed : Squeezed w.target.storage (emit w.target.storage id) [id] :=
    squeezed_emitAll hroom.1 [id]
  simp only [Written.AllOrNothing, Written.Fits, World.ops, World.data, hsqueezed.ops,
    dataAsSlice_eq, hsqueezed.data, hsqueezed.dataI, and_true, OpsFit,
    append_cancel_left_eq]
  rw [take_eq_self_iff, length_singleton]
  omega

theorem Building.appendOp_of_fits (hsnap : spec.BareSnapshot) (h : Building spec w nodes)
    (hid : spec.snapshotNodeId = some id) (hrun : appendOp id w = .ok ⟨⟩ w')
    (hfits : (Written.mk (.snapshotOp id) w w').Fits spec) :
    Extended spec nodes w' ∧ w'.target.vecLens = w.target.vecLens := by
  rw [appendOp_run, EStateM.Result.ok.injEq] at hrun
  obtain ⟨-, rfl⟩ := hrun
  obtain ⟨nType, hmem, rfl, -, hsize⟩ := spec.snapshot_ok id hid
  have hdata : nType.Encodes spec [] := by
    unfold NodeSpec.Encodes; rw [hsnap nType hmem hid]
  have hroom : LawfulGraphStorage.Room w.target.storage (0 + 1) 0 := ⟨hfits, h.room.2⟩
  have hemit := emitted_emit nType.id hroom
  let w1 : World RefGraph := ⟨w.state, { w.target with storage := emit w.target.storage nType.id }⟩
  have hwritten : OpsWritten w w1 (eventsOf spec nodes) nType := by
    refine ⟨[], hsize.symm, ⟨rfl, rfl⟩, ?_⟩
    rw [NodeSpec.operations_eq, zipWith_nil_right]
    exact h.tracks.tick
  obtain ⟨node, -, -, hnode⟩ := h.extend (GraphSpec.getNode_of_mem hmem)
    (by rw [hsize]; exact hroom) hwritten (Wrote.nil hemit.room) fun _ => hdata
  exact ⟨⟨[node], hnode⟩, rfl⟩

/-! ## Runs -/

inductive Writes (spec : GraphSpec) : World RefGraph → List Written → World RefGraph → Prop
  | done (w : World RefGraph) : Writes spec w [] w
  | draw {w w' : World RefGraph} {calls : List Written} (x : Distributions) :
      Writes spec { w with target := { w.target with dist := x } } calls w' → Writes spec w calls w'
  | node {w w1 w' : World RefGraph} {calls : List Written} {n : GraphNode} :
      n.IsNode spec → appendNode spec n w = .ok ⟨⟩ w1 → Writes spec w1 calls w' →
        Writes spec w (⟨.node n, w, w1⟩ :: calls) w'
  | snapshotOp {w w1 w' : World RefGraph} {calls : List Written} {id : NodeTypeID} :
      spec.snapshotNodeId = some id → appendOp id w = .ok ⟨⟩ w1 → Writes spec w1 calls w' →
        Writes spec w (⟨.snapshotOp id, w, w1⟩ :: calls) w'

variable {calls : List Written}

theorem Writes.building (hsnap : spec.BareSnapshot) (hw : Writes spec w calls w')
    (h : Building spec w nodes) (hfits : ∀ c ∈ calls, c.Fits spec) :
    ∃ nodes', Building spec w' nodes' ∧ w'.target.vecLens = w.target.vecLens := by
  induction hw generalizing nodes with
  | done w => exact ⟨nodes, h, rfl⟩
  | draw x _ ih => exact ih (h.setDist x) hfits
  | node hn hrun _ ih =>
    obtain ⟨⟨added, hadded⟩, hlens⟩ :=
      h.appendNode_of_fits hn hrun (hfits _ mem_cons_self)
    obtain ⟨nodes', hnodes', hlens'⟩ := ih hadded fun c hc => hfits c (mem_cons_of_mem _ hc)
    exact ⟨nodes', hnodes', hlens'.trans hlens⟩
  | snapshotOp hid hrun _ ih =>
    obtain ⟨⟨added, hadded⟩, hlens⟩ :=
      h.appendOp_of_fits hsnap hid hrun (hfits _ mem_cons_self)
    obtain ⟨nodes', hnodes', hlens'⟩ := ih hadded fun c hc => hfits c (mem_cons_of_mem _ hc)
    exact ⟨nodes', hnodes', hlens'.trans hlens⟩

theorem Writes.allOrNothing_iff (hsnap : spec.BareSnapshot) (hw : Writes spec w calls w')
    (h : Building spec w nodes) : (∀ c ∈ calls, c.AllOrNothing) ↔ ∀ c ∈ calls, c.Fits spec := by
  induction hw generalizing nodes with
  | done w => simp
  | draw x _ ih => exact ih (h.setDist x)
  | node hn hrun _ ih =>
    rw [forall_mem_cons, forall_mem_cons, appendNode_allOrNothing_iff h hn hrun]
    refine and_congr_right fun hfits => ?_
    obtain ⟨⟨added, hadded⟩, -⟩ := h.appendNode_of_fits hn hrun hfits
    exact ih hadded
  | snapshotOp hid hrun _ ih =>
    rw [forall_mem_cons, forall_mem_cons, appendOp_allOrNothing_iff h.room hrun]
    refine and_congr_right fun hfits => ?_
    obtain ⟨⟨added, hadded⟩, -⟩ := h.appendOp_of_fits hsnap hid hrun hfits
    exact ih hadded

theorem Writes.append {w1 : World RefGraph} {calls' : List Written} (h : Writes spec w calls w1)
    (h' : Writes spec w1 calls' w') : Writes spec w (calls ++ calls') w' := by
  induction h with
  | done w => exact h'
  | draw x _ ih => exact .draw x (ih h')
  | node hn hrun _ ih => exact .node hn hrun (ih h')
  | snapshotOp hid hrun _ ih => exact .snapshotOp hid hrun (ih h')

/-! ## The strategies -/

def Makes {α : Type} (spec : GraphSpec) (P : List Write → Prop) (m : Build RefGraph α) : Prop :=
  ∀ w, Ends m w (fun _ w' => ∃ calls, Writes spec w calls w' ∧ P (calls.map Written.write)) mayPanic

section Makes

variable {α β : Type} {P Q R : List Write → Prop} {m : Build RefGraph α}

theorem Makes.pure (hP : P []) (a : α) : Makes spec P (Pure.pure a : Build RefGraph α) :=
  fun w => ⟨[], .done w, hP⟩

theorem Makes.raise (hP : P []) (stop : Option Panic) :
    Makes spec P (raise stop : Build RefGraph PUnit) := by
  cases stop with
  | none => exact Makes.pure hP _
  | some e => exact fun w => trivial

theorem Makes.bind {f : α → Build RefGraph β} (hm : Makes spec P m) (hf : ∀ a, Makes spec Q (f a))
    (happend : ∀ ws ws', P ws → Q ws' → R (ws ++ ws')) : Makes spec R (m >>= f) := by
  intro w
  refine (hm w).bind fun a w1 hw1 => ?_
  obtain ⟨calls, hcalls, hP⟩ := hw1
  refine (hf a w1).weaken fun b w2 hw2 => ?_
  obtain ⟨calls', hcalls', hQ⟩ := hw2
  exact ⟨calls ++ calls', hcalls.append hcalls', by rw [map_append]; exact happend _ _ hP hQ⟩

theorem Makes.mono (hm : Makes spec P m) (h : ∀ ws, P ws → Q ws) : Makes spec Q m :=
  fun w => (hm w).weaken fun _ _ ⟨calls, hcalls, hP⟩ => ⟨calls, hcalls, h _ hP⟩

theorem Makes.appendNode {n : GraphNode} (hn : n.IsNode spec) :
    Makes spec (· = [.node n]) (appendNode spec n) :=
  fun _ => ends_mayPanic fun _ w' hrun => ⟨_, .node hn hrun (.done w'), rfl⟩

theorem Makes.snapshotOp (hid : spec.snapshotNodeId = some id) :
    Makes spec (· = [.snapshotOp id]) (appendOp id) :=
  fun _ => ends_mayPanic fun _ w' hrun => ⟨_, .snapshotOp hid hrun (.done w'), rfl⟩

variable {f : β → Build RefGraph PUnit}

theorem Makes.forEach {l : List β} {ws : β → List Write} (hf : ∀ b ∈ l, Makes spec (· = ws b) (f b)) :
    Makes spec (· = l.flatMap ws) (forEach l f) := by
  induction l with
  | nil => exact Makes.pure (P := (· = [])) rfl _
  | cons b l ih =>
    refine Makes.bind (hf b mem_cons_self) (fun _ => ih fun b' hb' =>
      hf b' (mem_cons_of_mem _ hb')) ?_
    rintro _ _ rfl rfl
    exact flatMap_cons.symm

theorem Makes.forIter {it : Iter Panic β} (ws : β → List Write)
    (hf : ∀ b ∈ it.items, Makes spec (· = ws b) (f b)) :
    Makes spec (· = it.items.flatMap ws) (forIter it f) := by
  refine Makes.bind (Makes.forEach hf) (fun _ => Makes.raise (P := (· = [])) rfl it.stop) ?_
  rintro _ _ rfl rfl
  exact append_nil _

end Makes

def onlyNodes (ws : List Write) : Prop := ∀ x ∈ ws, ∃ n, x = .node n

theorem onlyNodes_append {ws ws' : List Write} (h : onlyNodes ws) (h' : onlyNodes ws') :
    onlyNodes (ws ++ ws') := by
  intro x hx
  obtain hx | hx := mem_append.1 hx
  · exact h x hx
  · exact h' x hx

theorem makes_dropRange (orig : VecGraph) (first last : ℕ) :
    Makes spec (· = ((nodesOf spec orig).items.zipIdx.filter fun item =>
        ¬(first ≤ item.2 ∧ item.2 < last)).map fun item => .node item.1)
      (forIter (nodesOf spec orig).enumerate fun item =>
        if first ≤ item.2 ∧ item.2 < last then pure ⟨⟩ else appendNode spec item.1) := by
  refine (Makes.forIter (fun item : GraphNode × ℕ =>
    if first ≤ item.2 ∧ item.2 < last then [] else [.node item.1]) fun item hitem => ?_).mono ?_
  · by_cases hin : first ≤ item.2 ∧ item.2 < last
    · simp only [if_pos hin]
      exact Makes.pure (P := (· = [])) rfl _
    · simp only [if_neg hin]
      obtain ⟨-, -, heq⟩ := mem_zipIdx hitem
      rw [heq]
      exact Makes.appendNode (isNode_of_mem_nodeIter (getElem_mem _))
  · rintro _ rfl
    show (nodesOf spec orig).items.zipIdx.flatMap _ = _
    induction (nodesOf spec orig).items.zipIdx with
    | nil => rfl
    | cons item items ih =>
      by_cases hin : first ≤ item.2 ∧ item.2 < last
      · rw [flatMap_cons, ih, if_pos hin, filter_cons_of_neg (by simpa using hin)]
        rfl
      · rw [flatMap_cons, ih, if_neg hin, filter_cons, if_pos (decide_eq_true hin)]
        rfl

inductive Copying
  | splice (orig : VecGraph) (opsUsed : ℕ) (snapshot : MutatorSnapshotState) (queue : Dist VecGraph)
  | copyAll (orig : VecGraph)
  | dropRange (orig : VecGraph) (first last : ℕ)
  | prepareSnapshot (cutoff : ℕ) (data : VecGraph)

namespace Copying

def run (spec : GraphSpec) : Copying → Build RefGraph PUnit
  | splice orig opsUsed snapshot queue => FuzzSocketCan.splice spec orig opsUsed snapshot queue
  | copyAll orig => FuzzSocketCan.copyAll spec orig
  | dropRange orig first last => FuzzSocketCan.dropRange spec orig first last
  | prepareSnapshot cutoff data => do
      let _ ← FuzzSocketCan.prepareSnapshot spec cutoff data
      pure ⟨⟩

def snapshot : Copying → MutatorSnapshotState
  | splice _ _ snapshot _ => snapshot
  | copyAll _ | dropRange _ _ _ | prepareSnapshot _ _ => .none

def Plan (spec : GraphSpec) : Copying → List Write → Prop
  | splice _ _ _ _, ws => onlyNodes ws
  | copyAll orig, ws => ws = (nodesOf spec orig).items.map .node
  | dropRange orig first last, ws =>
    ws = ((nodesOf spec orig).items.zipIdx.filter fun item =>
      ¬(first ≤ item.2 ∧ item.2 < last)).map fun item => .node item.1
  | prepareSnapshot cutoff data, ws => ∃ id, spec.snapshotNodeId = some id ∧
      ws = ((nodesOf spec data).items.take cutoff).map .node ++ [.snapshotOp id]

def StartsWhole (spec : GraphSpec) (s : Copying) (w : World RefGraph) : Prop :=
  s.snapshot = .none ∨ ∃ (w0 : World RefGraph) (pre : List GraphNode),
    Prepared spec s.snapshot w0 pre ∧ OnTop pre w ∧ Restorable w0.state w.state

variable {s : Copying}

theorem StartsWhole.building (h : s.StartsWhole spec w) {x : Distributions} {w1 : World RefGraph}
    (hstart : start s.snapshot (w.reseed x) = .ok ⟨⟩ w1) :
    ∃ nodes, Building spec w1 nodes ∧ w1.target.vecLens = [] := by
  obtain hnone | ⟨w0, pre, hprepared, hontop, hres⟩ := h
  · rw [hnone] at hstart
    exact ⟨[], (ends_start_none spec (w.reseed x) never).of_ok hstart⟩
  · obtain ⟨g, -, hstart', hbuilding⟩ := hprepared.start_restorable hontop hres x
    rw [hstart', EStateM.Result.ok.injEq] at hstart
    obtain ⟨-, rfl⟩ := hstart
    exact ⟨pre, hbuilding, rfl⟩

theorem ends_run (s : Copying) (w : World RefGraph) :
    Ends (s.run spec) w (fun _ w' => ∃ x w1 calls,
      start s.snapshot { w with target := { w.target with dist := x } } = .ok ⟨⟩ w1 ∧
        Writes spec w1 calls w' ∧ s.Plan spec (calls.map Written.write)) mayPanic := by
  -- what follows `start`, and the calls it makes
  have hrest : ∀ {w : World RefGraph} {m : Build RefGraph PUnit}, Makes spec (s.Plan spec) m →
      Ends (do start s.snapshot; m) w (fun _ w' => ∃ x w1 calls,
        start s.snapshot { w with target := { w.target with dist := x } } = .ok ⟨⟩ w1 ∧
          Writes spec w1 calls w' ∧ s.Plan spec (calls.map Written.write)) mayPanic := by
    intro w m hm
    rw [ends_bind]
    refine ends_mayPanic fun _ w1 hstart => (hm w1).weaken fun _ w' hw' => ?_
    obtain ⟨calls, hcalls, hplan⟩ := hw'
    exact ⟨w.target.dist, w1, calls, hstart, hcalls, hplan⟩
  cases s with
  | copyAll orig =>
    refine hrest ((Makes.forIter _ fun n hn => Makes.appendNode (isNode_of_mem_nodeIter hn)).mono ?_)
    rintro _ rfl
    exact map_eq_flatMap.symm
  | dropRange orig first last =>
    refine hrest ((makes_dropRange orig first last).mono ?_)
    rintro _ rfl
    rfl
  | splice orig opsUsed snapshot queue =>
    have hcopy : ∀ n : GraphNode, n.IsNode spec → Preserves (fun w' => ∃ x w1 calls,
        start snapshot { w with target := { w.target with dist := x } } = .ok ⟨⟩ w1 ∧
          Writes spec w1 calls w' ∧ onlyNodes (calls.map Written.write)) mayPanic
        (appendNode spec n) := by
      rintro n hn w2 ⟨x, w1, calls, hstart, hcalls, hnodes⟩
      refine ends_mayPanic fun _ w3 hrun => ⟨x, w1, _, hstart,
        hcalls.append (.node hn hrun (.done w3)), ?_⟩
      rw [map_append]
      refine onlyNodes_append hnodes fun y hy => ⟨n, ?_⟩
      exact mem_singleton.1 hy
    have hqueue : ∀ x, Ends queue x (fun _ _ => True) mayPanic :=
      fun _ => ends_mayPanic fun _ _ _ => trivial
    refine ends_splice_of ?_ (fun x => (hqueue x).mono (fun other _ _ => ?_) fun _ _ _ _ => trivial)
      (.inl fun _ _ => trivial) (fun n hn => hcopy n (isNode_of_mem_nodeIter hn))
      (.inl fun _ _ => trivial) fun x => ?_
    · rintro w2 x ⟨x', w1, calls, hstart, hcalls, hnodes⟩
      refine ⟨x', w1, _, hstart, hcalls.append (.draw x (.done _)), ?_⟩
      rwa [append_nil]
    · exact ⟨fun n hn => hcopy n (isNode_of_mem_nodeIter hn), .inl fun _ _ => trivial⟩
    · exact ends_mayPanic fun _ w1 hstart => ⟨x, w1, [], hstart, .done w1,
        fun y hy => absurd hy not_mem_nil⟩
  | prepareSnapshot cutoff data =>
    rw [run, ends_bind, FuzzSocketCan.prepareSnapshot, ends_bind]
    refine ends_mayPanic fun _ w1 hstart => ?_
    refine (Makes.forIter _ (fun n hn => Makes.appendNode (isNode_of_mem_nodeIter
      (Iter.take_items_subset hn))) w1).bind fun _ w2 hw2 => ?_
    obtain ⟨calls, hcalls, hplan⟩ := hw2
    rw [ends_bind, ends_get]
    cases hid : spec.snapshotNodeId with
    | none => trivial
    | some id =>
      simp only [ends_bind, ends_pure]
      refine (Makes.snapshotOp hid w2).weaken fun _ w3 hw3 => ?_
      obtain ⟨calls', hcalls', hplan'⟩ := hw3
      refine ⟨w.target.dist, w1, calls ++ calls', hstart, hcalls.append hcalls', id, hid, ?_⟩
      rw [map_append, hplan, hplan', map_eq_flatMap]
      rfl

end Copying

def World.ParsesWhole (spec : GraphSpec) (w : World RefGraph) : Prop :=
  ∃ nodes, nodesOf spec w.target.storage = .ofList nodes ∧ opsOf nodes = w.ops ∧
    dataOf nodes = w.data

/-- **Copying into bounded storage is all or nothing** exactly when every call finds room. -/
theorem copying_allOrNothing (hsnap : spec.BareSnapshot) {s : Copying} {x : Distributions}
    (hs : s.StartsWhole spec w) (hrun : s.run spec (w.reseed x) = .ok ⟨⟩ w') :
    ∃ x' w₁, start s.snapshot (w.reseed x') = .ok ⟨⟩ w₁ ∧
      (∃ calls, Writes spec w₁ calls w' ∧ s.Plan spec (calls.map Written.write)) ∧
        ∀ calls, Writes spec w₁ calls w' →
          ((∀ c ∈ calls, c.AllOrNothing) ↔ ∀ c ∈ calls, c.Fits spec) ∧
            ((∀ c ∈ calls, c.Fits spec) → w'.ParsesWhole spec) := by
  obtain ⟨x', w₁, calls, hstart, hcalls, hplan⟩ := (s.ends_run (w.reseed x)).of_ok hrun
  have hstart' : start s.snapshot (w.reseed x') = .ok ⟨⟩ w₁ := hstart
  obtain ⟨nodes, hnodes, hlens⟩ := hs.building hstart'
  refine ⟨x', w₁, hstart', ⟨calls, hcalls, hplan⟩, fun calls hcalls => ⟨?_, fun hfits => ?_⟩⟩
  · exact hcalls.allOrNothing_iff hsnap hnodes
  · obtain ⟨nodes', hnodes', hlens'⟩ := hcalls.building hsnap hnodes hfits
    have hfit : w'.VecsFit := by
      intro n hn
      rw [hlens', hlens] at hn
      exact absurd hn not_mem_nil
    obtain ⟨read, ops, hread, hops, hdata, -⟩ := hnodes'.readBack hfit
    exact ⟨read, hread, hops, hdata⟩

theorem connectionSpec_bareSnapshot : connectionSpec.BareSnapshot := by
  unfold GraphSpec.BareSnapshot
  decide +kernel

def openSnapshot : Copying := .prepareSnapshot 1 openSend

def openSnapshotEnd : World RefGraph :=
  lastState (openSnapshot.run connectionSpec ((World.buffers 8 8 []).reseed (.ofList [])))

theorem copying_allOrNothing_open :
    openSnapshotEnd.target.storage = ⟨[0, 1, 3, 0, 0, 0, 0, 0], 3, List.replicate 8 0, 0⟩ ∧
    ∃ x' w₁, start openSnapshot.snapshot ((World.buffers 8 8 []).reseed x') = .ok ⟨⟩ w₁ ∧
      (∃ calls, Writes connectionSpec w₁ calls openSnapshotEnd ∧
        openSnapshot.Plan connectionSpec (calls.map Written.write)) ∧
          ∀ calls, Writes connectionSpec w₁ calls openSnapshotEnd →
            ((∀ c ∈ calls, c.AllOrNothing) ↔ ∀ c ∈ calls, c.Fits connectionSpec) ∧
              ((∀ c ∈ calls, c.Fits connectionSpec) →
                openSnapshotEnd.ParsesWhole connectionSpec) :=
  ⟨by decide +kernel, copying_allOrNothing (x := .ofList []) connectionSpec_bareSnapshot
    (.inl rfl) (eq_ok_of_panicOf (by decide +kernel))⟩

def oneOp : World RefGraph := lastState (start .none (World.buffers 1 8 []))

def openNode : GraphNode := ⟨0, 0, [0, 7], []⟩

/-- **A node is cut when its ops do not fit.** -/
theorem copyAll_cuts_node :
    copyAll connectionSpec ⟨[0, 7], []⟩ (World.buffers 1 8 []) =
        .ok ⟨⟩ (lastState (appendNode connectionSpec openNode oneOp)) ∧
      ¬(Written.mk (.node openNode) oneOp
          (lastState (appendNode connectionSpec openNode oneOp))).AllOrNothing ∧
        ¬(lastState (appendNode connectionSpec openNode oneOp)).ParsesWhole connectionSpec ∧
          panicOf (prepareSnapshot connectionSpec 1 openSend (World.buffers 2 8 [])) = none ∧
            (lastState (prepareSnapshot connectionSpec 1 openSend (World.buffers 2 8 []))).ops =
              [0, 1] := by
  have hops : (lastState (appendNode connectionSpec openNode oneOp)).ops = [0] := by decide +kernel
  have hbefore : oneOp.ops = [] := by decide +kernel
  refine ⟨rfl, ?_, ?_, by decide +kernel, by decide +kernel⟩
  · rintro (⟨ids, hlen, hstored, -⟩ | ⟨hsame, -⟩)
    · rw [hops, hbefore] at hstored
      obtain ⟨-, rfl⟩ := cons.inj hstored
      cases hlen
    · have hne : (lastState (appendNode connectionSpec openNode oneOp)).target.storage ≠
          oneOp.target.storage := by decide +kernel
      exact hne hsame
  · rintro ⟨nodes, hnodes, -⟩
    have hstop : (nodesOf connectionSpec (lastState (appendNode connectionSpec openNode
      oneOp)).target.storage).stop ≠ none := by decide +kernel
    exact hstop (by rw [hnodes]; rfl)

end FuzzSocketCan
