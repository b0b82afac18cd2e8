import FuzzSocketCan.StructuredFuzzer.AtomicData
import FuzzSocketCan.StructuredFuzzer.ValueState

/-! # The graph builder

The builder writes a graph node by node: it renames the connectors of a source node to available
values, or generates a node at random. The `World` is its state, the storage and the random
choices.
-/

namespace FuzzSocketCan

open Lib

structure World (S : Type) where
  state : GraphState
  target : Target S

abbrev Build (S : Type) := EStateM Panic (World S)

inductive GraphError
  | unknownNodeType (n : NodeTypeID)
  | invalidSpecs
  deriving DecidableEq, Repr

structure MutatorSnapshotState where
  skipNodes : ℕ
  skipOps : ℕ
  skipData : ℕ
  prefixGraphState : Option GraphState

def MutatorSnapshotState.none : MutatorSnapshotState := ⟨0, 0, 0, .none⟩

variable {S : Type}

def inTarget {α : Type} (m : Gen S α) : Build S α :=
  focus World.target (fun t w => { w with target := t }) m

def withState {α : Type} (v : ValueTypeID) (f : ValueState → Dist (α × ValueState)) : Build S α :=
  fun w =>
    match f (w.state.stateOf v) w.target.dist with
    | .ok (a, vs) d => .ok a ⟨w.state.insert v vs, { w.target with dist := d }⟩
    | .error e d => .error e ⟨w.state.insert v (w.state.stateOf v), { w.target with dist := d }⟩

variable {E : Panic → World S → Prop}

theorem ends_inTarget {α : Type} {m : Gen S α} {w : World S} {Q : α → World S → Prop} :
    Ends (inTarget m) w Q E ↔
      Ends m w.target (fun a t => Q a { w with target := t })
        (fun e t => E e { w with target := t }) :=
  ends_focus _ _ _

theorem ends_withState {α : Type} {v : ValueTypeID} {f : ValueState → Dist (α × ValueState)}
    {w : World S} {Q : α → World S → Prop} :
    Ends (withState v f) w Q E ↔
      Ends (f (w.state.stateOf v)) w.target.dist
        (fun r d => Q r.1 ⟨w.state.insert v r.2, { w.target with dist := d }⟩)
        (fun e d => E e
          ⟨w.state.insert v (w.state.stateOf v), { w.target with dist := d }⟩) := by
  unfold Ends withState
  cases f (w.state.stateOf v) w.target.dist <;> rfl

section

variable [GraphStorage S]

def appendOp (op : UInt16) : Build S PUnit :=
  modify fun w =>
    match GraphStorage.appendOp w.target.storage op with
    | some g => { w with target := { w.target with storage := g } }
    | none => w

def start (snapshot : MutatorSnapshotState) : Build S PUnit := do
  let w ← get
  let g ← orPanic (GraphStorage.truncateTo w.target.storage snapshot.skipOps snapshot.skipData)
  set { w with target := { w.target with storage := g } }
  match snapshot.prefixGraphState with
  | some state => do
      let state ← orPanic (w.state.resetTo state)
      modify fun w => { w with state := state }
  | none => modify fun w => { w with state := w.state.clear }

def pickAvailableType (spec : GraphSpec) : Build S (Except GraphError NodeTypeID) := do
  let w ← get
  let types := (spec.nodeSpecs.filter fun n => w.state.isAvailable spec n.id && n.generatable).map
    NodeSpec.id
  match ← inTarget (random (chooseFromIter types)) with
  | some n => pure (.ok n)
  | none => pure (.error .invalidSpecs)

def renameAndRelinkOpVal : GraphOp → Build S UInt16
  | .get vType inputId => withState vType (ValueState.takeOldAvailableInput inputId)
  | .set vType con => withState vType fun s => orPanic (s.insertOldId con)
  | .pass vType inputId => withState vType fun s => do
      let id ← s.getOldAvailableInput inputId
      pure (id, s)
  | .node nt => pure nt

def appendSlice (spec : GraphSpec) (frag : List UInt16) : Build S PUnit :=
  forIter (opIter spec frag) fun op => do
    let newVal ← renameAndRelinkOpVal op
    appendOp newVal

def canAppendNode (spec : GraphSpec) (node : GraphNode) (w : World S) : Bool :=
  w.state.isAvailable spec node.id && GraphStorage.canAppend w.target.storage node

def appendNode (spec : GraphSpec) (node : GraphNode) : Build S PUnit := do
  if canAppendNode spec node (← get) then do
    appendSlice spec node.ops
    inTarget (storeData node.data)

def appendNodeMutated (spec : GraphSpec) (node : GraphNode) (dict : CustomDict) : Build S PUnit := do
  if canAppendNode spec node (← get) then do
    appendSlice spec node.ops
    match spec.getNode node.id with
    | none => throw .unwrapNone
    | some nType =>
      match nType.data with
      | none => pure ⟨⟩
      | some dType =>
        match spec.getData dType with
        | some dat => inTarget (appendMutated dat.atomicType node.data dict)
        | none => throw .invalidDataType

def dropNodeAtStep (spec : GraphSpec) (index : ℕ) (item : GraphNode × ℕ) : Build S PUnit := do
  if item.2 ≠ index then
    if canAppendNode spec item.1 (← get) then do
      appendSlice spec item.1.ops
      inTarget (tryStoreData item.1.data)

/-- Copy a graph without the node at `index`. -/
def dropNodeAt (spec : GraphSpec) (frag : VecGraph) (index : ℕ) : Build S PUnit := do
  start .none
  forIter (nodesOf spec frag).enumerate (dropNodeAtStep spec index)

/-- Not even the biggest node is certain to fit. -/
def isFull (spec : GraphSpec) (w : World S) : Bool :=
  spec.biggestData ≥ GraphStorage.dataAvailable w.target.storage ||
    spec.biggestOps ≥ GraphStorage.opsAvailable w.target.storage

def canGenerateNode (spec : GraphSpec) (nType : NodeSpec) (w : World S) : Except Panic Bool :=
  if nType.size + 1 > GraphStorage.opsAvailable w.target.storage then .ok false
  else
    match spec.minDataSize nType with
    | .ok n => .ok (!decide (n > GraphStorage.dataAvailable w.target.storage))
    | .error e => .error e

def appendRandomOperands (nType : NodeSpec) : Build S PUnit := do
  forEach nType.inputs fun vType => do
    let id ← withState vType ValueState.takeRandomInput
    appendOp id
  forEach nType.passthroughs fun vType => do
    let id ← withState vType fun s => do
      let id ← s.getRandomInput
      pure (id, s)
    appendOp id
  forEach nType.outputs fun vType => do
    let id ← withState vType fun s => orPanic s.insertNewId
    appendOp id

def appendRandomNode (spec : GraphSpec) (node : NodeTypeID) : Build S (Except GraphError PUnit) :=
  match spec.getNode node with
  | none => pure (.error (.unknownNodeType node))
  | some nType => do
      let can ← orPanic (canGenerateNode spec nType (← get))
      if can then do
        appendOp node
        appendRandomOperands nType
        match nType.data with
        | none => pure (.ok ⟨⟩)
        | some dType =>
          match spec.getData dType with
          | some dat => do
              inTarget (appendGenerate spec (spec.dataSpecs.length + 1) dat.atomicType)
              pure (.ok ⟨⟩)
          | none => throw .invalidDataType
      else pure (.ok ⟨⟩)

def appendRandom (spec : GraphSpec) : ℕ → Build S (Except GraphError PUnit)
  | 0 => pure (.ok ⟨⟩)
  | n + 1 => do
      if isFull spec (← get) then pure (.ok ⟨⟩)
      else
        match ← pickAvailableType spec with
        | .error e => pure (.error e)
        | .ok nType =>
          match ← appendRandomNode spec nType with
          | .error e => pure (.error e)
          | .ok _ => appendRandom spec n

/-- `append_random(n).unwrap()`. -/
def appendRandomUnwrap (spec : GraphSpec) (n : ℕ) : Build S PUnit := do
  match ← appendRandom spec n with
  | .ok _ => pure ⟨⟩
  | .error _ => throw .unwrapNone

end

end FuzzSocketCan
