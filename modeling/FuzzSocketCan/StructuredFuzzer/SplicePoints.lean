import FuzzSocketCan.StructuredFuzzer.CopyEdges
import Mathlib.Data.List.Flatten

/-! # Where fragments are spliced in

The loop of `splice` compares the number of a node with the last one of its places and then
removes it, as if they were in descending order; but `pick_splice_points` sorts them in ascending
order. So a fragment is inserted at the largest place only. And `append_node` leaves a node out
whose values are not available.

* **`splice_eq`** — `spliceTraced` is `splice` with a record of its calls of `append_node`.
* **`ends_spliceLoopTraced`** — where the loop puts fragments, and what it adds to the graph.
* **`splice_everyPoint_iff`** — when a fragment is inserted at every place. -/

namespace FuzzSocketCan

open Lib LawfulGraphStorage

variable {S : Type}

/-- A call of `append_node`: the node, whether the storage was full (`is_full`, or `can_append`
refuses the node), and whether `can_append_node` let the node pass. -/
structure AppendCall where
  node : GraphNode
  full : Bool
  taken : Bool

structure SpliceRound where
  fragment : Option (List AppendCall)
  node : AppendCall

/-- The calls of a round, in order. -/
def SpliceRound.calls (round : SpliceRound) : List AppendCall :=
  round.fragment.getD [] ++ [round.node]

/-- The nodes of a round's fragment. -/
def SpliceRound.drawn (round : SpliceRound) : List GraphNode :=
  (round.fragment.getD []).map AppendCall.node

/-! ## What splicing is for -/

def fragmentPlaces : ℕ → List SpliceRound → List ℕ
  | _, [] => []
  | k, round :: rounds =>
    if round.fragment.isSome then k :: fragmentPlaces (k + 1) rounds
    else fragmentPlaces (k + 1) rounds

/-- Neighbouring nodes of a graph of the queue. -/
def FragmentOf (spec : GraphSpec) (queue : Dist VecGraph) (fragment : List GraphNode) : Prop :=
  fragment ≠ [] ∧ ∃ other, (∃ x x', queue x = .ok other x') ∧
    fragment <:+: (nodesOf spec other).items

def GrewBy [GraphStorage S] (w w' : World S) (nodes : List GraphNode) : Prop :=
  ∃ made, List.Forall₂ Twin nodes made ∧ w'.ops = w.ops ++ opsOf made ∧
    w'.data = w.data ++ dataOf made

/-- **Splicing as it is meant.** The resulting graph is the prefix that is kept, in `w`, and the
nodes of the source in order, with a fragment of a graph of the queue right before the nodes with
the given numbers. -/
structure SplicedAt [GraphStorage S] (spec : GraphSpec) (queue : Dist VecGraph) (points : List ℕ)
    (source : List GraphNode) (rounds : List SpliceRound) (w w' : World S) : Prop where
  copied : rounds.map (·.node.node) = source
  places : fragmentPlaces 0 rounds = points
  fragments : ∀ round ∈ rounds, ∀ calls ∈ round.fragment,
    FragmentOf spec queue (calls.map AppendCall.node)
  graph : GrewBy w w' ((rounds.flatMap SpliceRound.calls).map AppendCall.node)

def World.available (w : World S) (v : ValueTypeID) : ℕ := (w.state.stateOf v).numAvailable

def GraphSpec.leaves (spec : GraphSpec) (avail : ValueTypeID → ℕ) (node : GraphNode)
    (v : ValueTypeID) : ℕ :=
  match spec.getNode node.id with
  | some nType => avail v - nType.inputs.count v + nType.outputs.count v
  | none => avail v

/-- **Every node is supplied**: it finds the values it needs among those available at first and
those that the nodes before it leave. -/
def Supplied (spec : GraphSpec) : (ValueTypeID → ℕ) → List GraphNode → Prop
  | _, [] => True
  | avail, node :: nodes =>
    (∃ nType, spec.getNode node.id = some nType ∧
      ∀ v, need nType.passthroughs nType.inputs v ≤ avail v) ∧
    Supplied spec (spec.leaves avail node) nodes

theorem supplied_append {spec : GraphSpec} {avail : ValueTypeID → ℕ} {ns ms : List GraphNode} :
    Supplied spec avail (ns ++ ms) ↔
      Supplied spec avail ns ∧ Supplied spec (ns.foldl spec.leaves avail) ms := by
  induction ns generalizing avail with
  | nil => simp [Supplied]
  | cons n ns ih =>
    rw [List.cons_append, Supplied, Supplied, ih, List.foldl_cons, and_assoc]

/-! ## The record -/

section Record

variable [GraphStorage S] (spec : GraphSpec) (queue : Dist VecGraph)

/-- `append_node` with a record of the call. -/
def appendNodeTraced (node : GraphNode) : Build S AppendCall := do
  let w ← get
  appendNode spec node
  pure ⟨node, isFull spec w || !GraphStorage.canAppend w.target.storage node,
    canAppendNode spec node w⟩

def appendNodesTraced : List GraphNode → Build S (List AppendCall)
  | [] => pure []
  | node :: nodes => do
      let call ← appendNodeTraced spec node
      let calls ← appendNodesTraced nodes
      pure (call :: calls)

/-- `spliceFragment`, with its calls. -/
def spliceFragmentTraced : Build S (List AppendCall) := do
  let other ← randomly queue
  let nodes := nodesOf spec other
  raise nodes.stop
  let otherLen := nodes.items.length
  let start ← randomly (genRange 0 otherLen)
  let len ← randomly (genRange 1 16)
  let len := if len > otherLen - start then otherLen - start else len
  check (len > 0) Panic.assertionFailed
  let calls ← appendNodesTraced spec ((nodes.skip start).take len).items
  raise ((nodes.skip start).take len).stop
  pure calls

/-- `spliceLoop`, with its rounds, or `none` if it is left because the storage is full. -/
def spliceLoopTraced : List (GraphNode × ℕ) → List ℕ → Build S (Option (List SpliceRound))
  | [], _ => pure (some [])
  | (n, i) :: items, splicePoints => do
      if isFull spec (← get) then pure none
      else if splicePoints.getLast? = some i then do
        let fragment ← spliceFragmentTraced spec queue
        let node ← appendNodeTraced spec n
        let rounds ← spliceLoopTraced items splicePoints.dropLast
        pure (rounds.map (⟨some fragment, node⟩ :: ·))
      else do
        let node ← appendNodeTraced spec n
        let rounds ← spliceLoopTraced items splicePoints
        pure (rounds.map (⟨none, node⟩ :: ·))

/-- The value of `spliced` after some rounds. -/
def anySpliced (rounds : List SpliceRound) : Bool := rounds.any (·.fragment.isSome)

/-- `splice`, with its rounds. -/
def spliceTraced (orig : VecGraph) (opsUsed : ℕ) (snapshot : MutatorSnapshotState) :
    Build S (Option (List SpliceRound)) := do
  check (snapshot.skipNodes ≤ opsUsed) Panic.subtractWithOverflow
  let splicePoints ← randomly (pickSplicePoints (opsUsed - snapshot.skipNodes))
  start snapshot
  let nodes := ((nodesOf spec orig).skip snapshot.skipNodes).enumerate
  match ← spliceLoopTraced spec queue nodes.items splicePoints with
  | none => pure none
  | some rounds => do
      raise nodes.stop
      check (anySpliced rounds = true) Panic.assertionFailed
      pure (some rounds)

end Record

section Same

variable [GraphStorage S] {spec : GraphSpec} {queue : Dist VecGraph}

theorem appendNode_eq (node : GraphNode) :
    (appendNode spec node : Build S PUnit) = (fun _ => ⟨⟩) <$> appendNodeTraced spec node := by
  simp only [appendNodeTraced, map_bind, map_pure, bind_pure_unit]
  rfl

theorem forEach_appendNode_eq (nodes : List GraphNode) :
    (forEach nodes (appendNode spec) : Build S PUnit) =
      (fun _ => ⟨⟩) <$> appendNodesTraced spec nodes := by
  induction nodes with
  | nil => rfl
  | cons node nodes ih => simp [forEach, appendNodesTraced, ih, appendNode_eq]

theorem spliceFragment_eq :
    (spliceFragment spec queue : Build S PUnit) =
      (fun _ => ⟨⟩) <$> spliceFragmentTraced spec queue := by
  simp [spliceFragment, spliceFragmentTraced, forIter, forEach_appendNode_eq]

theorem spliceLoop_eq (items : List (GraphNode × ℕ)) (splicePoints : List ℕ) (spliced : Bool) :
    (spliceLoop spec queue items splicePoints spliced : Build S (Option Bool)) =
      Option.map (fun rounds => spliced || anySpliced rounds) <$>
        spliceLoopTraced spec queue items splicePoints := by
  induction items generalizing splicePoints spliced with
  | nil => simp [spliceLoop, spliceLoopTraced, anySpliced]
  | cons item items ih =>
    simp only [spliceLoop, spliceLoopTraced, map_bind, ih, spliceFragment_eq, appendNode_eq]
    refine bind_congr fun w => ?_
    split
    · rfl
    · split
      · simp [anySpliced, Function.comp_def]
      · simp [anySpliced, Function.comp_def]

theorem splice_eq (orig : VecGraph) (opsUsed : ℕ) (snapshot : MutatorSnapshotState) :
    (splice spec orig opsUsed snapshot queue : Build S PUnit) =
      (fun _ => ⟨⟩) <$> spliceTraced spec queue orig opsUsed snapshot := by
  simp only [splice, spliceTraced, map_bind, spliceLoop_eq, bind_map_left]
  refine bind_congr fun _ => bind_congr fun points => bind_congr fun _ =>
    bind_congr fun rounds => ?_
  cases rounds with
  | none => rfl
  | some rounds => simp

end Same

/-! ## The places -/

theorem ends_pickSplicePoints_sorted (len : ℕ) (x : Distributions) :
    Ends (pickSplicePoints len) x (fun points _ => points.Pairwise (· < ·)) mayPanic := by
  have hsorted : ∀ l : List ℕ,
      ((l.insertionSort (· ≤ ·)).destutter (· ≠ ·)).Pairwise (· < ·) := by
    intro l
    have hle : ((l.insertionSort (· ≤ ·)).destutter (· ≠ ·)).Pairwise (· ≤ ·) :=
      (List.pairwise_insertionSort _ l).sublist (List.destutter_sublist _ _)
    have hne := List.isChain_destutter (R := (· ≠ ·)) (l.insertionSort (· ≤ ·))
    -- neighbours are ordered and differ
    rw [← List.isChain_iff_pairwise, List.isChain_iff_getElem] at hle ⊢
    rw [List.isChain_iff_getElem] at hne
    exact fun i hi => lt_of_le_of_ne (hle i hi) (hne i hi)
  unfold pickSplicePoints
  split
  · trivial
  · split_ifs
    all_goals
      rw [ends_bind]
      refine ends_mayPanic fun num x1 _ => ?_
      rw [ends_bind]
      exact ends_mayPanic fun res x2 _ => hsorted res

def reached (points : List ℕ) (k n : ℕ) : List ℕ :=
  match points.getLast? with
  | some p => if k ≤ p ∧ p < k + n then [p] else []
  | none => []

theorem reached_zero (points : List ℕ) (k : ℕ) : reached points k 0 = [] := by
  unfold reached
  split
  · exact if_neg (by omega)
  · rfl

variable {points : List ℕ} {k : ℕ}

theorem reached_of_getLast (n : ℕ) (hsorted : points.Pairwise (· < ·))
    (hlast : points.getLast? = some k) :
    reached points k (n + 1) = k :: reached points.dropLast (k + 1) n := by
  obtain ⟨rest, rfl⟩ := List.getLast?_eq_some_iff.1 hlast
  have hbefore : ∀ q ∈ rest, q < k := fun q hq =>
    (List.pairwise_append.1 hsorted).2.2 q hq k List.mem_cons_self
  unfold reached
  rw [hlast, List.dropLast_concat]
  dsimp only
  rw [if_pos (by omega)]
  split
  case h_1 q hq =>
    have := hbefore q (List.mem_of_getLast? hq)
    rw [if_neg (by omega)]
  case h_2 => rfl

theorem reached_of_getLast_ne (n : ℕ) (hlast : points.getLast? ≠ some k) :
    reached points k (n + 1) = reached points (k + 1) n := by
  unfold reached
  split
  case h_1 p hp =>
    have hne : p ≠ k := fun h => hlast (h ▸ hp)
    exact if_congr (by omega) rfl rfl
  case h_2 => rfl

theorem reached_eq_singleton {n : ℕ} (h : reached points k n ≠ []) :
    ∃ p, points.getLast? = some p ∧ reached points k n = [p] := by
  unfold reached at h ⊢
  split at h
  case h_1 p hp =>
    split at h
    case isTrue hin => exact ⟨p, hp, if_pos hin⟩
    case isFalse => exact absurd rfl h
  case h_2 => exact absurd rfl h

/-! ## What a call does -/

section Calls

variable [GraphStorage S] {spec : GraphSpec} {w w1 w' : World S}

omit [GraphStorage S] in
theorem ends_renameOperand (o : Operand) (old : ConnectorID) (w : World S) :
    Ends (renameAndRelinkOpVal (o.op old)) w (fun _ w' => w'.target.storage = w.target.storage ∧
      ∀ v, w'.available v + [o].count (.get v) = w.available v + [o].count (.set v)) mayPanic := by
  have hinsert : ∀ u (vs : ValueState) (t : Target S) v,
      World.available ⟨w.state.insert u vs, t⟩ v =
        if v = u then vs.numAvailable else w.available v := by
    intro u vs t v
    unfold World.available
    split
    case isTrue h => rw [h, GraphState.stateOf_insert_self]
    case isFalse h => rw [GraphState.stateOf_insert_of_ne vs h]
  cases o with
  | get u =>
    rw [Operand.op, renameAndRelinkOpVal, ends_withState, ValueState.takeOldAvailableInput,
      ends_bind]
    refine ends_mayPanic fun id x _ => ends_orPanic_mayPanic fun r hr => ⟨rfl, fun v => ?_⟩
    have hr := ValueState.numAvailable_takeNewInput hr
    rw [hinsert]
    split
    case isTrue h => simpa [h, World.available] using hr
    case isFalse h => simp [Ne.symm h]
  | pass u =>
    rw [Operand.op, renameAndRelinkOpVal, ends_withState, ends_bind]
    refine ends_mayPanic fun id x _ => ⟨rfl, fun v => ?_⟩
    rw [hinsert]
    split
    case isTrue h => simp [h, World.available]
    case isFalse h => simp
  | set u =>
    rw [Operand.op, renameAndRelinkOpVal, ends_withState]
    refine ends_orPanic_mayPanic fun r hr => ⟨rfl, fun v => ?_⟩
    have hr := ValueState.numAvailable_insertOldId hr
    rw [hinsert]
    split
    case isTrue h => simpa [h, World.available] using hr
    case isFalse h => simp [Ne.symm h]

theorem ends_renameOperands (ps : List (Operand × ConnectorID)) (w : World S) :
    Ends (forEach ps fun p => do
        let newVal ← renameAndRelinkOpVal (p.1.op p.2)
        appendOp newVal) w (fun _ w' => ∃ ids : List ConnectorID, ids.length = ps.length ∧
      w'.target.storage = emitAll w.target.storage ids ∧ ∀ v,
        w'.available v + (ps.map Prod.fst).count (.get v) =
          w.available v + (ps.map Prod.fst).count (.set v)) mayPanic := by
  induction ps generalizing w with
  | nil => exact ⟨[], rfl, rfl, fun v => rfl⟩
  | cons p ps ih =>
    simp only [forEach, ends_bind, ends_appendOp]
    refine (ends_renameOperand p.1 p.2 w).weaken fun id w1 hw1 => ?_
    obtain ⟨hstorage, hfirst⟩ := hw1
    refine (ih _).weaken fun _ w' hw' => ?_
    obtain ⟨ids, hlen, hids, hrest⟩ := hw'
    refine ⟨id :: ids, congrArg (· + 1) hlen, ?_, fun v => ?_⟩
    · rw [hids, hstorage]
      rfl
    · have hfirst := hfirst v
      have hrest := hrest v
      -- the op does not change what is available
      change w'.available v + _ = w1.available v + _ at hrest
      rw [← List.singleton_append, List.map_append, List.map_singleton, List.count_append,
        List.count_append]
      omega

theorem GrewBy.refl (w : World S) : GrewBy w w [] :=
  ⟨[], .nil, (List.append_nil _).symm, (List.append_nil _).symm⟩

theorem GrewBy.trans {ns ms : List GraphNode} (h : GrewBy w w1 ns) (h' : GrewBy w1 w' ms) :
    GrewBy w w' (ns ++ ms) := by
  obtain ⟨made, htwins, hops, hdata⟩ := h
  obtain ⟨made', htwins', hops', hdata'⟩ := h'
  refine ⟨made ++ made', List.rel_append htwins htwins', ?_, ?_⟩
  · rw [hops', hops, opsOf_append, List.append_assoc]
  · rw [hdata', hdata, dataOf_append, List.append_assoc]

variable [LawfulGraphStorage S]

structure Appended (spec : GraphSpec) (calls : List AppendCall) (w w' : World S) : Prop where
  graph : GrewBy w w' ((calls.filter AppendCall.taken).map AppendCall.node)
  room : Room w'.target.storage 0 0
  supplied : Supplied spec w.available (calls.map AppendCall.node) ↔
    ∀ call ∈ calls, call.taken = true
  left : (∀ call ∈ calls, call.taken = true) →
    w'.available = (calls.map AppendCall.node).foldl spec.leaves w.available

def Traced (spec : GraphSpec) (calls : List AppendCall) (w w' : World S) : Prop :=
  Room w.target.storage 0 0 → (∀ call ∈ calls, call.full = false) → Appended spec calls w w'

theorem traced_nil (w : World S) : Traced spec [] w w := fun hroom _ =>
  ⟨.refl w, hroom, by simp [Supplied], fun _ => rfl⟩

variable {calls calls' : List AppendCall}

theorem Appended.trans (h : Appended spec calls w w1) (h' : Appended spec calls' w1 w') :
    Appended spec (calls ++ calls') w w' where
  graph := by
    rw [List.filter_append, List.map_append]
    exact h.graph.trans h'.graph
  room := h'.room
  supplied := by
    rw [List.map_append, supplied_append, List.forall_mem_append, h.supplied]
    refine and_congr_right fun htaken => ?_
    rw [← h.left htaken, h'.supplied]
  left := by
    intro htaken
    rw [List.forall_mem_append] at htaken
    rw [List.map_append, List.foldl_append, ← h.left htaken.1, h'.left htaken.2]

theorem Traced.append (h : Traced spec calls w w1) (h' : Traced spec calls' w1 w') :
    Traced spec (calls ++ calls') w w' := by
  intro hroom hfull
  rw [List.forall_mem_append] at hfull
  have happended := h hroom hfull.1
  exact happended.trans (h' happended.room hfull.2)

theorem Traced.setDist {x : Distributions}
    (h : Traced spec calls { w with target := { w.target with dist := x } } w') :
    Traced spec calls w w' := by
  intro hroom hfull
  have happended := h hroom hfull
  exact ⟨happended.graph, happended.room, happended.supplied, happended.left⟩

variable {node : GraphNode}

theorem ends_appendNode_taken (hnode : node.IsNode spec) (hroom : Room w.target.storage 0 0)
    (hfull : isFull spec w = false) (hcan : canAppendNode spec node w = true) :
    Ends (appendNode spec node) w (fun _ w' => GrewBy w w' [node] ∧
      Room w'.target.storage 0 0 ∧ w'.available = spec.leaves w.available node) mayPanic := by
  obtain ⟨⟨nType, hn, hneed⟩, hdata⟩ := canAppendNode_iff.1 hcan
  obtain ⟨nType', operands, hn', hops, hlen, -⟩ := id hnode
  obtain rfl := Option.some.inj (hn'.symm.trans hn)
  have hid := GraphSpec.getNode_id hn
  have hfst : (nType'.operandList.zip operands).map Prod.fst = nType'.operandList :=
    List.map_fst_zip (by rw [NodeSpec.length_operandList, hlen])
  have hziplen : (nType'.operandList.zip operands).length = nType'.size := by
    rw [List.length_zip, NodeSpec.length_operandList, hlen, min_self]
  simp only [appendNode, ends_bind, ends_get, hcan, if_true]
  rw [ends_appendSlice_iff hn hops hlen]
  refine (ends_renameOperands _ _).weaken fun _ w1 hw1 => ?_
  obtain ⟨ids, hids, hstorage, havail⟩ := hw1
  rw [hziplen] at hids
  rw [hfst] at havail
  -- the storage takes the ops and the data
  have hroom' : Room w.target.storage ((nType'.id :: ids).length + 0) (0 + node.data.length) := by
    rw [List.length_cons, hids, zero_add, ← hlen, ← List.length_cons (a := node.id), ← hops]
    exact room_and (room_of_not_full hroom hfull hnode) (room_of_canAppend hroom hdata)
  have hemit := emitted_emitAll hroom'
  rw [show emitAll w.target.storage (nType'.id :: ids) = w1.target.storage from hstorage.symm]
    at hemit
  rw [ends_inTarget]
  refine ends_storeData hemit.room fun t ht =>
    ⟨⟨[⟨node.id, 0, node.id :: ids, node.data⟩], ?_, ?_, ?_⟩, ht.room, ?_⟩
  · refine .cons ⟨rfl, rfl, by rw [hops]; rfl, ?_⟩ .nil
    rw [hops, List.length_cons, List.length_cons, hids, hlen]
  · refine ht.ops.trans (hemit.ops.trans ?_)
    rw [hid]
    simp [World.ops]
  · refine ht.data.trans ?_
    rw [hemit.data]
    simp [World.data]
  · funext v
    have havail := havail v
    have hneed := hneed v
    rw [NodeSpec.count_get_operandList, NodeSpec.count_set_operandList] at havail
    rw [GraphSpec.leaves, hn]
    unfold World.available need at *
    dsimp only at havail ⊢
    omega

theorem ends_appendNodeTraced (hnode : node.IsNode spec) (w : World S) :
    Ends (appendNodeTraced spec node) w (fun call w' => call.node = node ∧
      Traced spec [call] w w') mayPanic := by
  rw [appendNodeTraced, ends_bind, ends_get, ends_bind]
  by_cases hroom : Room w.target.storage 0 0
  case neg => exact ends_mayPanic fun _ w' _ => ⟨rfl, fun h => absurd h hroom⟩
  cases hfull : isFull spec w || !GraphStorage.canAppend w.target.storage node with
  | true =>
    refine ends_mayPanic fun _ w' _ => ⟨rfl, fun _ h => ?_⟩
    cases h _ List.mem_cons_self
  | false =>
    rw [Bool.or_eq_false_iff, Bool.not_eq_false'] at hfull
    have havail : canAppendNode spec node w = true ↔ ∃ nType, spec.getNode node.id = some nType ∧
        ∀ v, need nType.passthroughs nType.inputs v ≤ w.available v := by
      rw [canAppendNode_iff, hfull.2]
      exact and_iff_left rfl
    have hsupplied : Supplied spec w.available [node] ↔ canAppendNode spec node w = true := by
      rw [Supplied, Supplied, and_iff_left trivial, havail]
    cases hcan : canAppendNode spec node w with
    | true =>
      refine (ends_appendNode_taken hnode hroom hfull.1 hcan).weaken fun _ w' hw' => ⟨rfl, ?_⟩
      exact fun _ _ => ⟨hw'.1, hw'.2.1, by simp [hsupplied, hcan], fun _ => hw'.2.2⟩
    | false =>
      simp only [appendNode, ends_bind, ends_get, hcan]
      exact ⟨rfl, fun _ _ => ⟨.refl w, hroom, by simp [hsupplied, hcan], by simp⟩⟩

theorem ends_appendNodesTraced {nodes : List GraphNode} (hnodes : ∀ n ∈ nodes, n.IsNode spec)
    (w : World S) :
    Ends (appendNodesTraced spec nodes) w (fun calls w' => calls.map AppendCall.node = nodes ∧
      Traced spec calls w w') mayPanic := by
  induction nodes generalizing w with
  | nil => exact ⟨rfl, traced_nil w⟩
  | cons n ns ih =>
    rw [List.forall_mem_cons] at hnodes
    simp only [appendNodesTraced, ends_bind, ends_pure]
    refine (ends_appendNodeTraced hnodes.1 w).weaken fun call w1 hcall => ?_
    refine (ih hnodes.2 w1).weaken fun calls w' hcalls => ⟨?_, hcall.2.append hcalls.2⟩
    rw [List.map_cons, hcall.1, hcalls.1]

end Calls

/-! ## What the loop does -/

section Loop

variable [GraphStorage S] [LawfulGraphStorage S] {spec : GraphSpec} {queue : Dist VecGraph}

theorem ends_spliceFragmentTraced (w : World S) :
    Ends (spliceFragmentTraced spec queue) w (fun calls w' =>
      FragmentOf spec queue (calls.map AppendCall.node) ∧ Traced spec calls w w') mayPanic := by
  rw [spliceFragmentTraced, ends_bind, ends_randomly]
  refine ends_mayPanic fun other x1 hother => ?_
  rw [ends_bind]
  refine ends_raise_mayPanic fun _ => ?_
  rw [ends_bind, ends_randomly]
  refine (ends_genRange_mem 0 _ _).weaken fun start x2 hstart => ?_
  rw [ends_bind, ends_randomly]
  refine ends_mayPanic fun len x3 _ => ?_
  rw [ends_bind]
  refine ends_check (fun hpos => ?_) fun _ => trivial
  have hpart : ((((nodesOf spec other).skip start).take
      (if len > (nodesOf spec other).items.length - start
        then (nodesOf spec other).items.length - start else len)).items) <:+:
      (nodesOf spec other).items :=
    (List.take_prefix _ _).isInfix.trans (List.drop_suffix _ _).isInfix
  refine (ends_appendNodesTraced (fun n hn => isNode_of_mem_nodeIter (hpart.subset hn)) _).bind
    fun calls w1 hcalls => ?_
  rw [ends_bind]
  refine ends_raise_mayPanic fun _ => ⟨?_, hcalls.2.setDist.setDist.setDist⟩
  rw [hcalls.1]
  refine ⟨?_, other, ⟨_, _, hother⟩, hpart⟩
  rw [← List.length_pos_iff, Iter.take, Iter.skip, List.length_take, List.length_drop]
  omega

theorem ends_spliceLoopTraced {nodes : List GraphNode} (hnodes : ∀ n ∈ nodes, n.IsNode spec)
    (k : ℕ) (hsorted : points.Pairwise (· < ·)) (w : World S) :
    Ends (spliceLoopTraced spec queue (nodes.zipIdx k) points) w
      (fun res w' => ∀ rounds ∈ res, rounds.map (·.node.node) = nodes ∧
        fragmentPlaces k rounds = reached points k nodes.length ∧
        (∀ round ∈ rounds, ∀ calls ∈ round.fragment,
          FragmentOf spec queue (calls.map AppendCall.node)) ∧
        Traced spec (rounds.flatMap SpliceRound.calls) w w')
      mayPanic := by
  induction nodes generalizing k points w with
  | nil =>
    rintro rounds ⟨⟩
    exact ⟨rfl, (reached_zero points k).symm, fun round h => absurd h List.not_mem_nil,
      traced_nil w⟩
  | cons n nodes ih =>
    rw [List.forall_mem_cons] at hnodes
    refine ends_ite (fun _ => ?_) fun _ => ends_ite (fun hlast => ?_) fun hlast => ?_
    · rintro rounds ⟨⟩
    · -- the fragment, the node, and the rest
      refine (ends_spliceFragmentTraced w).bind fun fragment w1 hfragment => ?_
      refine (ends_appendNodeTraced hnodes.1 w1).bind fun node w2 hnode => ?_
      rw [ends_bind]
      have hrest := hsorted.sublist (List.dropLast_sublist points)
      refine (ih hnodes.2 (k + 1) hrest w2).weaken fun res w3 hres => ?_
      rintro _ hrounds
      obtain ⟨rounds, hmem, rfl⟩ := Option.map_eq_some_iff.1 hrounds
      obtain ⟨hcopied, hplaces, hfragments, htraced⟩ := hres rounds hmem
      refine ⟨?_, ?_, ?_, (hfragment.2.append hnode.2).append htraced⟩
      · rw [List.map_cons, hcopied, hnode.1]
      · rw [fragmentPlaces, hplaces, List.length_cons, reached_of_getLast _ hsorted hlast]
        rfl
      · refine List.forall_mem_cons.2 ⟨?_, hfragments⟩
        rintro _ ⟨⟩
        exact hfragment.1
    · refine (ends_appendNodeTraced hnodes.1 w).bind fun node w2 hnode => ?_
      refine (ih hnodes.2 (k + 1) hsorted w2).bind fun res w3 hres => ?_
      rintro _ hrounds
      obtain ⟨rounds, hmem, rfl⟩ := Option.map_eq_some_iff.1 hrounds
      obtain ⟨hcopied, hplaces, hfragments, htraced⟩ := hres rounds hmem
      refine ⟨?_, ?_, ?_, hnode.2.append htraced⟩
      · rw [List.map_cons, hcopied, hnode.1]
      · rw [fragmentPlaces, hplaces, List.length_cons, reached_of_getLast_ne _ hlast]
        rfl
      · refine List.forall_mem_cons.2 ⟨?_, hfragments⟩
        rintro _ ⟨⟩

end Loop

/-! ## Every place -/

theorem fragmentPlaces_ne_nil {rounds : List SpliceRound} (h : anySpliced rounds = true) (k : ℕ) :
    fragmentPlaces k rounds ≠ [] := by
  induction rounds generalizing k with
  | nil => cases h
  | cons round rounds ih =>
    rw [fragmentPlaces]
    split
    case isTrue => exact List.cons_ne_nil _ _
    case isFalse hnone =>
      rw [anySpliced, List.any_cons, Bool.or_eq_true] at h
      exact ih (h.resolve_left hnone) _

theorem calls_of_no_place {rounds : List SpliceRound} {k : ℕ} (h : fragmentPlaces k rounds = []) :
    (rounds.flatMap SpliceRound.calls).map AppendCall.node = rounds.map (·.node.node) ∧
      rounds.flatMap SpliceRound.drawn = [] := by
  induction rounds generalizing k with
  | nil => exact ⟨rfl, rfl⟩
  | cons round rounds ih =>
    rw [fragmentPlaces] at h
    split at h
    case isTrue => cases h
    case isFalse hnone =>
      obtain ⟨hcalls, hdrawn⟩ := ih h
      rw [Option.not_isSome_iff_eq_none] at hnone
      simp [SpliceRound.calls, SpliceRound.drawn, hnone, hcalls, hdrawn]

theorem calls_of_place {rounds : List SpliceRound} {k p : ℕ} (h : fragmentPlaces k rounds = [p]) :
    k ≤ p ∧ (rounds.flatMap SpliceRound.calls).map AppendCall.node =
      (rounds.map (·.node.node)).take (p - k) ++ rounds.flatMap SpliceRound.drawn ++
        (rounds.map (·.node.node)).drop (p - k) := by
  induction rounds generalizing k with
  | nil => cases h
  | cons round rounds ih =>
    rw [fragmentPlaces] at h
    split at h
    case isTrue =>
      obtain ⟨rfl, hrest⟩ := List.cons.inj h
      obtain ⟨hcalls, hdrawn⟩ := calls_of_no_place hrest
      rw [Nat.sub_self]
      simp [SpliceRound.calls, SpliceRound.drawn, hcalls, hdrawn]
    case isFalse hnone =>
      obtain ⟨hle, hcalls⟩ := ih h
      rw [Option.not_isSome_iff_eq_none] at hnone
      obtain ⟨d, rfl⟩ := Nat.exists_eq_add_of_le hle
      rw [show k + 1 + d - (k + 1) = d by omega] at hcalls
      rw [show k + 1 + d - k = d + 1 by omega]
      refine ⟨by omega, ?_⟩
      simp [SpliceRound.calls, SpliceRound.drawn, hnone, hcalls]

theorem GrewBy.length_ops [GraphStorage S] {w w' : World S} {nodes : List GraphNode}
    (h : GrewBy w w' nodes) : w'.ops.length = w.ops.length + (opsOf nodes).length := by
  obtain ⟨made, htwins, hops, -⟩ := h
  have hsame : (opsOf made).length = (opsOf nodes).length := by
    clear hops
    induction htwins with
    | nil => rfl
    | cons htwin _ ih =>
      rw [opsOf_cons, opsOf_cons, List.length_append, List.length_append, ih, htwin.length]
  rw [hops, List.length_append, hsame]

theorem taken_of_grewBy [GraphStorage S] {spec : GraphSpec} {calls : List AppendCall}
    {w w' : World S} (hnodes : ∀ call ∈ calls, call.node.IsNode spec)
    (h : GrewBy w w' ((calls.filter AppendCall.taken).map AppendCall.node))
    (hall : GrewBy w w' (calls.map AppendCall.node)) : ∀ call ∈ calls, call.taken = true := by
  have heq := h.length_ops.symm.trans hall.length_ops
  by_contra hnot
  push Not at hnot
  obtain ⟨call, hmem, htaken⟩ := hnot
  -- a call that was not let pass makes the graph shorter
  have hlt : (opsOf ((calls.filter AppendCall.taken).map AppendCall.node)).length <
      (opsOf (calls.map AppendCall.node)).length := by
    obtain ⟨cs, ds, rfl⟩ := List.append_of_mem hmem
    have hsub : ∀ l : List AppendCall, (opsOf ((l.filter AppendCall.taken).map
        AppendCall.node)).length ≤ (opsOf (l.map AppendCall.node)).length := fun l =>
      ((List.filter_sublist.map _).flatMap _).length_le
    obtain ⟨nType, operands, -, hops, -⟩ := hnodes call (by simp)
    have hcs := hsub cs
    have hds := hsub ds
    simp only [List.filter_append, List.filter_cons, htaken, List.map_append, List.map_cons,
      opsOf_append, opsOf_cons, List.length_append, hops, List.length_cons, Bool.false_eq_true,
      if_false]
    omega
  omega

/-- **When a fragment is inserted at every place.** -/
theorem splice_everyPoint_iff [GraphStorage S] [LawfulGraphStorage S] {spec : GraphSpec}
    {queue : Dist VecGraph} {orig : VecGraph} {opsUsed : ℕ} {snapshot : MutatorSnapshotState}
    {w w₀ w' : World S} {points : List ℕ} {x : Distributions} {rounds : List SpliceRound}
    (hpoints : pickSplicePoints (opsUsed - snapshot.skipNodes) w.target.dist = .ok points x)
    (hstart : start snapshot { w with target := { w.target with dist := x } } = .ok ⟨⟩ w₀)
    (hroom : Room w₀.target.storage 0 0)
    (hrun : spliceTraced spec queue orig opsUsed snapshot w = .ok (some rounds) w')
    (hfull : ∀ call ∈ rounds.flatMap SpliceRound.calls, call.full = false) :
    splice spec orig opsUsed snapshot queue w = .ok ⟨⟩ w' ∧
      (SplicedAt spec queue points ((nodesOf spec orig).items.drop snapshot.skipNodes) rounds
          w₀ w' ↔
        ∃ p, points = [p] ∧ Supplied spec w₀.available
          (((nodesOf spec orig).items.drop snapshot.skipNodes).take p ++
            rounds.flatMap SpliceRound.drawn ++
              ((nodesOf spec orig).items.drop snapshot.skipNodes).drop p)) := by
  refine ⟨?_, ?_⟩
  · rw [splice_eq]
    exact map_run_ok hrun
  have hsorted := (ends_pickSplicePoints_sorted _ _).of_ok hpoints
  have hnodes : ∀ n ∈ (nodesOf spec orig).items.drop snapshot.skipNodes, n.IsNode spec :=
    fun n hn => isNode_of_mem_nodeIter (List.mem_of_mem_drop hn)
  -- the record of a run that passes the assertion
  have hrecord : Ends (spliceTraced spec queue orig opsUsed snapshot) w
      (fun res w' => ∀ rounds ∈ res, anySpliced rounds = true ∧
        rounds.map (·.node.node) = (nodesOf spec orig).items.drop snapshot.skipNodes ∧
        fragmentPlaces 0 rounds =
          reached points 0 ((nodesOf spec orig).items.drop snapshot.skipNodes).length ∧
        (∀ round ∈ rounds, ∀ calls ∈ round.fragment,
          FragmentOf spec queue (calls.map AppendCall.node)) ∧
        Traced spec (rounds.flatMap SpliceRound.calls) w₀ w')
      mayPanic := by
    rw [spliceTraced, ends_bind]
    refine ends_check (fun _ => ?_) fun _ => trivial
    rw [ends_bind, ends_randomly]
    refine ends_of_ok hpoints ?_
    rw [ends_bind]
    refine ends_of_ok hstart ?_
    refine (ends_spliceLoopTraced hnodes 0 hsorted w₀).bind fun res w₂ hres => ?_
    cases res with
    | none => exact fun rounds h => absurd h (Option.not_mem_none _)
    | some rounds =>
      rw [ends_bind]
      refine ends_raise_mayPanic fun _ => ?_
      rw [ends_bind]
      refine ends_check (fun hspliced => ?_) fun _ => trivial
      rintro _ ⟨⟩
      exact ⟨hspliced, hres rounds rfl⟩
  obtain ⟨hspliced, hcopied, hplaces, hfragments, htraced⟩ := hrecord.of_ok hrun rounds rfl
  have happended := htraced hroom hfull
  -- so the only place with a fragment is the last one
  have hne := fragmentPlaces_ne_nil hspliced 0
  rw [hplaces] at hne
  obtain ⟨p, hlast, hreached⟩ := reached_eq_singleton hne
  rw [hreached] at hplaces
  have hcalls := (calls_of_place hplaces).2
  rw [hcopied, Nat.sub_zero] at hcalls
  have hisNode : ∀ call ∈ rounds.flatMap SpliceRound.calls, call.node.IsNode spec := by
    intro call hcall
    obtain ⟨round, hround, hcall⟩ := List.mem_flatMap.1 hcall
    rcases List.mem_append.1 hcall with hcall | hcall
    · cases hfragment : round.fragment with
      | none =>
        rw [hfragment] at hcall
        cases hcall
      | some calls =>
        obtain ⟨-, other, -, hpart⟩ := hfragments round hround calls hfragment
        rw [hfragment] at hcall
        exact isNode_of_mem_nodeIter (hpart.subset (List.mem_map_of_mem hcall))
    · rw [List.mem_singleton.1 hcall]
      exact hnodes _ (hcopied ▸ List.mem_map_of_mem hround)
  constructor
  · intro h
    refine ⟨p, h.places.symm.trans hplaces, ?_⟩
    rw [← hcalls, happended.supplied]
    exact taken_of_grewBy hisNode happended.graph h.graph
  · rintro ⟨q, rfl, hsupplied⟩
    obtain rfl : q = p := Option.some.inj hlast
    rw [← hcalls] at hsupplied
    have hgraph := happended.graph
    rw [List.filter_eq_self.2 (happended.supplied.1 hsupplied)] at hgraph
    exact ⟨hcopied, hplaces, hfragments, hgraph⟩

/-! ### Runs -/

/-- Three connections are opened. -/
def opensThree : VecGraph := ⟨[0, 7, 0, 8, 0, 9], []⟩

def spliceOpens (other : VecGraph) (draws : List ℕ) :
    EStateM.Result Panic (World RefGraph) (Option (List SpliceRound)) :=
  spliceTraced connectionSpec (pure other) opensThree 3 .none (World.buffers 32 32 draws)

def roundsOf (r : EStateM.Result Panic (World RefGraph) (Option (List SpliceRound))) :
    List SpliceRound := ((resultOf r).getD none).getD []

theorem eq_ok_roundsOf {r : EStateM.Result Panic (World RefGraph) (Option (List SpliceRound))}
    (h : ((resultOf r).getD none).isSome = true) : r = .ok (some (roundsOf r)) (lastState r) := by
  cases r with
  | error e w => cases h
  | ok res w =>
    cases res with
    | none => cases h
    | some rounds => rfl

/-- Its state when the places are picked. -/
def opensPicked (draws : List ℕ) : World RefGraph :=
  let w : World RefGraph := World.buffers 32 32 draws
  { w with target := { w.target with dist := lastState (pickSplicePoints 3 w.target.dist) } }

/-- Its state when the loop starts. -/
def opensStarted (draws : List ℕ) : World RefGraph := lastState (start .none (opensPicked draws))

theorem supplied_opens {nodes : List GraphNode} (h : ∀ n ∈ nodes, n.id = 0)
    (avail : ValueTypeID → ℕ) : Supplied connectionSpec avail nodes := by
  induction nodes generalizing avail with
  | nil => trivial
  | cons n ns ih =>
    rw [List.forall_mem_cons] at h
    exact ⟨⟨_, by rw [h.1]; rfl, fun v => Nat.zero_le _⟩, ih h.2 _⟩

theorem splice_everyPoint_iff_onePoint :
    resultOf (pickSplicePoints 3 (.ofList [0, 1])) = some [1] ∧
      splice connectionSpec opensThree 3 .none (pure ⟨[0, 7], []⟩) (World.buffers 32 32 [0, 1]) =
        .ok ⟨⟩ (lastState (spliceOpens ⟨[0, 7], []⟩ [0, 1])) ∧
      SplicedAt connectionSpec (pure ⟨[0, 7], []⟩) [1] (nodesOf connectionSpec opensThree).items
        (roundsOf (spliceOpens ⟨[0, 7], []⟩ [0, 1])) (opensStarted [0, 1])
          (lastState (spliceOpens ⟨[0, 7], []⟩ [0, 1])) := by
  have hpoints : resultOf (pickSplicePoints 3 (.ofList [0, 1])) = some [1] := by decide +kernel
  have hstart : start .none (opensPicked [0, 1]) = .ok ⟨⟩ (opensStarted [0, 1]) :=
    eq_ok_of_panicOf rfl
  have hroom : (opensStarted [0, 1]).target.storage.HasRoom 0 0 :=
    ⟨by decide +kernel, by decide +kernel⟩
  have hsplice := splice_everyPoint_iff (eq_ok_of_resultOf hpoints) hstart hroom
    (eq_ok_roundsOf (r := spliceOpens ⟨[0, 7], []⟩ [0, 1]) (by decide +kernel)) (by decide +kernel)
  exact ⟨hpoints, hsplice.1, hsplice.2.2 ⟨1, rfl, supplied_opens (by decide +kernel) _⟩⟩

/-- **Fragments that are not inserted.** -/
theorem splice_misses_point :
    (resultOf (pickSplicePoints 3 (.ofList [1, 0, 2])) = some [0, 2] ∧
      splice connectionSpec opensThree 3 .none (pure ⟨[0, 7], []⟩) (World.buffers 32 32 [1, 0, 2]) =
        .ok ⟨⟩ (lastState (spliceOpens ⟨[0, 7], []⟩ [1, 0, 2])) ∧
      (lastState (spliceOpens ⟨[0, 7], []⟩ [1, 0, 2])).ops = [0, 1, 0, 2, 0, 3, 0, 4] ∧
      ¬SplicedAt connectionSpec (pure ⟨[0, 7], []⟩) [0, 2] (nodesOf connectionSpec opensThree).items
        (roundsOf (spliceOpens ⟨[0, 7], []⟩ [1, 0, 2])) (opensStarted [1, 0, 2])
          (lastState (spliceOpens ⟨[0, 7], []⟩ [1, 0, 2]))) ∧
    resultOf (pickSplicePoints 3 (.ofList [0, 0])) = some [0] ∧
      splice connectionSpec opensThree 3 .none (pure openSend) (World.buffers 32 32 [0, 0, 1]) =
        .ok ⟨⟩ (lastState (spliceOpens openSend [0, 0, 1])) ∧
      (lastState (spliceOpens openSend [0, 0, 1])).ops = [0, 1, 0, 2, 0, 3] ∧
      ¬SplicedAt connectionSpec (pure openSend) [0] (nodesOf connectionSpec opensThree).items
        (roundsOf (spliceOpens openSend [0, 0, 1])) (opensStarted [0, 0, 1])
          (lastState (spliceOpens openSend [0, 0, 1])) := by
  have hsplice : ∀ other draws,
      ((resultOf (spliceOpens other draws)).getD none).isSome = true →
        splice connectionSpec opensThree 3 .none (pure other) (World.buffers 32 32 draws) =
          .ok ⟨⟩ (lastState (spliceOpens other draws)) := by
    intro other draws hrun
    rw [splice_eq]
    exact map_run_ok (eq_ok_roundsOf hrun)
  refine ⟨⟨by decide +kernel, hsplice _ _ (by decide +kernel), by decide +kernel, fun h => ?_⟩,
    by decide +kernel, hsplice _ _ (by decide +kernel), by decide +kernel, fun h => ?_⟩
  · have hplaces : fragmentPlaces 0 (roundsOf (spliceOpens ⟨[0, 7], []⟩ [1, 0, 2])) = [2] := by
      decide +kernel
    rw [h.places] at hplaces
    cases hplaces
  · -- four nodes were handed over, and the graph grew by three
    exact absurd h.graph.length_ops (by decide +kernel)

end FuzzSocketCan
