import FuzzSocketCan.Lib.LinearUse
import FuzzSocketCan.StructuredFuzzer.GraphIter
import FuzzSocketCan.StructuredFuzzer.ValueState
import Mathlib.Data.List.Count

/-! # Dataflow of a graph

* **`WellFormed`** — a `set` creates a connector, a `pass` borrows it and a `get` consumes it, and
  each node is a step.
* **`Tracks`** — relates the builder's state to the operations so far: the available values are
  the live connectors, and the id counter is above every connector created. -/

namespace FuzzSocketCan

open Lib List NodeSpec GraphState

abbrev Connector := ValueTypeID × ConnectorID

/-- What an op does to its connector. -/
def GraphOp.event : GraphOp → Event Connector
  | .get v c => .consume (v, c)
  | .pass v c => .borrow (v, c)
  | .set v c => .create (v, c)
  | .node _ => .tick

/-- **A well-formed dataflow.** -/
structure WellFormed (ops : List GraphOp) : Prop where
  /-- What is consumed or borrowed was created by an earlier node and not consumed since. -/
  live : ∀ pre op post v c, ops = pre ++ op :: post → (op = .get v c ∨ op = .pass v c) →
    ∃ a b, pre = a ++ .set v c :: b ∧ (∃ n, .node n ∈ b) ∧ .get v c ∉ b
  /-- A value is consumed at most once. -/
  once : ∀ pre post v c, ops = pre ++ .get v c :: post → .get v c ∉ pre
  /-- A created id is new for its type. -/
  fresh : ∀ pre post v c, ops = pre ++ .set v c :: post → .set v c ∉ pre

theorem event_eq_consume {op : GraphOp} {v : ValueTypeID} {c : ConnectorID} :
    op.event = .consume (v, c) ↔ op = .get v c := by
  cases op <;> simp [GraphOp.event]

theorem event_eq_borrow {op : GraphOp} {v : ValueTypeID} {c : ConnectorID} :
    op.event = .borrow (v, c) ↔ op = .pass v c := by
  cases op <;> simp [GraphOp.event]

theorem event_eq_create {op : GraphOp} {v : ValueTypeID} {c : ConnectorID} :
    op.event = .create (v, c) ↔ op = .set v c := by
  cases op <;> simp [GraphOp.event]

theorem event_eq_tick {op : GraphOp} : op.event = .tick ↔ ∃ n, op = .node n := by
  cases op <;> simp [GraphOp.event]

theorem consume_mem_map_event {ops : List GraphOp} {v : ValueTypeID} {c : ConnectorID} :
    .consume (v, c) ∈ ops.map GraphOp.event ↔ .get v c ∈ ops := by
  simp [mem_map, event_eq_consume]

theorem create_mem_map_event {ops : List GraphOp} {v : ValueTypeID} {c : ConnectorID} :
    .create (v, c) ∈ ops.map GraphOp.event ↔ .set v c ∈ ops := by
  simp [mem_map, event_eq_create]

theorem tick_mem_map_event {ops : List GraphOp} :
    .tick ∈ ops.map GraphOp.event ↔ ∃ n, .node n ∈ ops := by
  simp only [mem_map, event_eq_tick]
  constructor
  · rintro ⟨op, hop, n, rfl⟩; exact ⟨n, hop⟩
  · rintro ⟨n, hn⟩; exact ⟨_, hn, n, rfl⟩

/-- **A linear trace of nodes is well formed.** -/
theorem wellFormed_of_linear {nodes : List (List GraphOp)}
    (hblocks : ∀ ops ∈ nodes, IsBlock (ops.map GraphOp.event))
    (hlinear : Linear (nodes.flatten.map GraphOp.event)) : WellFormed nodes.flatten := by
  refine ⟨fun pre op post v c heq hop => ?_, fun pre post v c heq => ?_, fun pre post v c heq => ?_⟩
  · -- the events of the graph are the concatenation of the blocks of its nodes
    have hflat : (nodes.map (map GraphOp.event)).flatten =
        pre.map GraphOp.event ++ op.event :: post.map GraphOp.event := by
      rw [← map_flatten, heq, map_append, map_cons]
    have huses : op.event.Uses (v, c) := by
      obtain rfl | rfl := hop
      · exact .inl rfl
      · exact .inr rfl
    have hlive : (v, c) ∈ liveAfter (pre.map GraphOp.event) := by
      have := hlinear (pre.map GraphOp.event) op.event (post.map GraphOp.event)
        (by rw [heq, map_append, map_cons])
      obtain rfl | rfl := hop <;> exact this
    obtain ⟨a, b, hpre, htick, hb⟩ := created_in_earlier_block
      (by simpa [mem_map] using hblocks) huses hflat hlive
    obtain ⟨a', rest, rfl, rfl, hrest⟩ := map_eq_append_iff.1 hpre
    obtain ⟨s, b', rfl, hs, rfl⟩ := map_eq_cons_iff.1 hrest
    obtain rfl := event_eq_create.1 hs
    exact ⟨a', b', rfl, tick_mem_map_event.1 htick, mt consume_mem_map_event.2 hb⟩
  · have hevents : nodes.flatten.map GraphOp.event = pre.map GraphOp.event ++ .consume (v, c) ::
        post.map GraphOp.event := by
      rw [heq, map_append, map_cons]; rfl
    exact mt consume_mem_map_event.2 (hlinear.consume_once hevents)
  · have := hlinear (pre.map GraphOp.event) (.create (v, c)) (post.map GraphOp.event)
      (by rw [heq, map_append, map_cons]; rfl)
    exact mt create_mem_map_event.2 this

/-! ## Operands -/

/-- What an operand of a node does, and its type. -/
inductive Operand
  | get (vType : ValueTypeID)
  | pass (vType : ValueTypeID)
  | set (vType : ValueTypeID)
  deriving DecidableEq, Repr

def Operand.op : Operand → ConnectorID → GraphOp
  | get v => .get v
  | pass v => .pass v
  | set v => .set v

def NodeSpec.operandList (nType : NodeSpec) : List Operand :=
  nType.inputs.map .get ++ nType.passthroughs.map .pass ++ nType.outputs.map .set

@[simp] theorem NodeSpec.length_operandList (nType : NodeSpec) :
    nType.operandList.length = nType.size := by
  simp [operandList, size, add_assoc]

theorem count_map_eq_zero {f : ValueTypeID → Operand} {o : Operand} (vs : List ValueTypeID)
    (h : ∀ v, f v ≠ o) : (vs.map f).count o = 0 :=
  count_eq_zero.2 (by simpa using fun v _ => h v)

theorem NodeSpec.count_get_operandList (nType : NodeSpec) (v : ValueTypeID) :
    nType.operandList.count (.get v) = nType.inputs.count v := by
  have hget := count_map_of_injective nType.inputs Operand.get (fun _ _ => Operand.get.inj) v
  have hpass : (nType.passthroughs.map Operand.pass).count (.get v) = 0 :=
    count_map_eq_zero _ fun _ => Operand.noConfusion
  have hset : (nType.outputs.map Operand.set).count (.get v) = 0 :=
    count_map_eq_zero _ fun _ => Operand.noConfusion
  rw [operandList, count_append, count_append, hget, hpass, hset]
  rfl

theorem NodeSpec.count_set_operandList (nType : NodeSpec) (v : ValueTypeID) :
    nType.operandList.count (.set v) = nType.outputs.count v := by
  have hset := count_map_of_injective nType.outputs Operand.set (fun _ _ => Operand.set.inj) v
  have hget : (nType.inputs.map Operand.get).count (.set v) = 0 :=
    count_map_eq_zero _ fun _ => Operand.noConfusion
  have hpass : (nType.passthroughs.map Operand.pass).count (.set v) = 0 :=
    count_map_eq_zero _ fun _ => Operand.noConfusion
  rw [operandList, count_append, count_append, hget, hpass, hset, Nat.zero_add]

theorem NodeSpec.operands_eq (nType : NodeSpec) : nType.operands = nType.operandList.map Operand.op := by
  simp [operands, operandList, Function.comp_def, Operand.op]

theorem NodeSpec.operations_eq (nType : NodeSpec) (ids : List ConnectorID) :
    nType.operations ids = .node nType.id :: List.zipWith Operand.op nType.operandList ids := by
  rw [operations, operands_eq, zipWith_map_left]

def consumed (todo : List Operand) : List ValueTypeID :=
  todo.filterMap fun | .get v => some v | _ => none

def borrowed (todo : List Operand) : List ValueTypeID :=
  todo.filterMap fun | .pass v => some v | _ => none

/-- The values for the operands still to come are available. -/
def Enough (todo : List Operand) (st : GraphState) : Prop :=
  ∀ v, need (borrowed todo) (consumed todo) v ≤ (st.stateOf v).numAvailable

theorem enough_operandList {nType : NodeSpec} {st : GraphState} :
    Enough nType.operandList st ↔
      ∀ v, need nType.passthroughs nType.inputs v ≤ (st.stateOf v).numAvailable := by
  have hb : borrowed nType.operandList = nType.passthroughs := by
    simp [borrowed, operandList, filterMap_append, filterMap_map,
      filterMap_some, filterMap_none]
  have hc : consumed nType.operandList = nType.inputs := by
    simp [consumed, operandList, filterMap_append, filterMap_map,
      filterMap_some, filterMap_none]
  rw [Enough, hb, hc]

section Enough

variable {st : GraphState} {v : ValueTypeID} {todo : List Operand} {vs : ValueState}

theorem need_get (w : ValueTypeID) : need (borrowed (.get v :: todo)) (consumed (.get v :: todo)) w =
    need (borrowed todo) (consumed todo) w + if w = v then 1 else 0 := by
  show (if w ∈ borrowed todo then 1 else 0) + (v :: consumed todo).count w = _
  rw [count_cons, need]
  by_cases hw : w = v
  · subst hw; simp [add_assoc]
  · have hvw : ¬v = w := fun h => hw h.symm
    simp [hw, hvw]

theorem need_pass_ge (w : ValueTypeID) : need (borrowed todo) (consumed todo) w ≤
    need (borrowed (.pass v :: todo)) (consumed (.pass v :: todo)) w := by
  show _ ≤ (if w ∈ v :: borrowed todo then 1 else 0) + (consumed todo).count w
  rw [need]
  by_cases hw : w ∈ borrowed todo
  · rw [if_pos hw, if_pos (mem_cons_of_mem _ hw)]
  · rw [if_neg hw]; omega

theorem Enough.get_pos (h : Enough (.get v :: todo) st) : 0 < (st.stateOf v).numAvailable := by
  have := h v
  rw [need_get, if_pos rfl] at this
  omega

theorem Enough.pass_pos (h : Enough (.pass v :: todo) st) : 0 < (st.stateOf v).numAvailable := by
  have := h v
  have hmem : v ∈ borrowed (.pass v :: todo) := mem_cons_self
  rw [need, if_pos hmem] at this
  omega

theorem Enough.get (h : Enough (.get v :: todo) st)
    (hvs : vs.numAvailable + 1 = (st.stateOf v).numAvailable) : Enough todo (st.insert v vs) := by
  intro w
  have := h w
  rw [need_get] at this
  by_cases hw : w = v
  · subst hw
    rw [stateOf_insert_self]
    rw [if_pos rfl] at this
    omega
  · rw [stateOf_insert_of_ne vs hw]
    omega

theorem Enough.mono {o : Operand} (h : Enough (o :: todo) st) (ho : ∀ v, o ≠ .get v)
    (hvs : (st.stateOf v).numAvailable ≤ vs.numAvailable) : Enough todo (st.insert v vs) := by
  intro w
  have hle : need (borrowed todo) (consumed todo) w ≤
      need (borrowed (o :: todo)) (consumed (o :: todo)) w := by
    cases o with
    | get v' => exact absurd rfl (ho v')
    | set v' => exact le_refl _
    | pass v' => exact need_pass_ge w
  refine le_trans hle (le_trans (h w) ?_)
  by_cases hw : w = v
  · subst hw; rw [stateOf_insert_self]; exact hvs
  · rw [stateOf_insert_of_ne vs hw]

end Enough

/-! ## The state and the trace -/

def created (v : ValueTypeID) (es : List (Event Connector)) : ℕ :=
  es.countP fun | .create r => r.1 == v | _ => false

@[simp] theorem created_append (v : ValueTypeID) (es fs : List (Event Connector)) :
    created v (es ++ fs) = created v es + created v fs := countP_append

/-- The next id of a type counts the values created. -/
def CountsIds (st : GraphState) (es : List (Event Connector)) : Prop :=
  ∀ v, (st.stateOf v).curId.toNat = created v es

section

variable {st : GraphState} {es : List (Event Connector)} {v : ValueTypeID} {c : ConnectorID}
  {vs : ValueState}

theorem CountsIds.clear (st : GraphState) : CountsIds st.clear [] := by
  intro v
  unfold GraphState.stateOf GraphState.clear
  cases st v <;> rfl

theorem CountsIds.consume (h : CountsIds st es) (htook : ValueState.Took (st.stateOf v) c vs)
    (r : Connector) : CountsIds (st.insert v vs) (es ++ [.consume r]) := by
  intro u
  rw [created_append]
  by_cases hu : u = v
  · subst hu; rw [stateOf_insert_self, htook.curId]; exact h u
  · rw [stateOf_insert_of_ne vs hu]; exact h u

theorem CountsIds.create (h : CountsIds st es) (hcreated : ValueState.Created (st.stateOf v) c vs)
    (old : ConnectorID) : CountsIds (st.insert v vs) (es ++ [.create (v, old)]) := by
  intro u
  have hnew : created u [.create (v, old)] = if v = u then 1 else 0 := by
    simp [created, countP_cons]
  rw [created_append, hnew, ← h u]
  by_cases hu : u = v
  · subst hu
    rw [stateOf_insert_self, hcreated.curId, if_pos rfl, hcreated.next]
  · rw [stateOf_insert_of_ne vs hu, if_neg (Ne.symm hu), add_zero]

end

structure Tracks (st : GraphState) (es : List (Event Connector)) : Prop where
  ok : st.Ok
  live : ∀ v c, c ∈ (st.stateOf v).newIdsForSampling ↔ (v, c) ∈ liveAfter es
  used : ∀ v c, .create (v, c) ∈ es → c.toNat ≤ (st.stateOf v).curId.toNat
  curId : CountsIds st es
  linear : Linear es

namespace Tracks

variable {st : GraphState} {es : List (Event Connector)} {v : ValueTypeID} {c : ConnectorID}
  {vs : ValueState}

theorem clear (st : GraphState) : Tracks st.clear [] := by
  refine ⟨st.clear_ok, fun v c => ?_, fun v c h => absurd h not_mem_nil, .clear st,
    disciplined_nil _⟩
  simp only [liveAfter_nil, Set.mem_empty_iff_false, iff_false]
  unfold GraphState.stateOf GraphState.clear
  cases st v <;> exact not_mem_nil

theorem tick (h : Tracks st es) : Tracks st (es ++ [.tick]) where
  ok := h.ok
  live v c := by rw [liveAfter_snoc]; exact h.live v c
  used v c hc := h.used v c (by simpa using hc)
  curId v := by rw [created_append]; exact h.curId v
  linear := disciplined_snoc.2 ⟨h.linear, trivial⟩

theorem consume (h : Tracks st es) (htook : ValueState.Took (st.stateOf v) c vs) :
    Tracks (st.insert v vs) (es ++ [.consume (v, c)]) where
  ok := h.ok.insert htook.ok
  live w x := by
    rw [liveAfter_snoc]
    by_cases hw : w = v
    · subst hw
      rw [GraphState.stateOf_insert_self, htook.mem_iff, h.live]
      simp [Event.after]
    · rw [GraphState.stateOf_insert_of_ne vs hw, h.live]
      simp [Event.after, hw]
  used w x hx := by
    have := h.used w x (by simpa using hx)
    by_cases hw : w = v
    · subst hw; rw [GraphState.stateOf_insert_self, htook.curId]; exact this
    · rw [GraphState.stateOf_insert_of_ne vs hw]; exact this
  curId := h.curId.consume htook _
  linear := disciplined_snoc.2 ⟨h.linear, (h.live v c).1 htook.mem⟩

theorem borrow (h : Tracks st es) (hc : c ∈ (st.stateOf v).newIdsForSampling) :
    Tracks (st.insert v (st.stateOf v)) (es ++ [.borrow (v, c)]) := by
  have hsame := st.stateOf_insert_stateOf v
  refine ⟨fun w => ?_, fun w x => ?_, fun w x hx => ?_, fun w => ?_, ?_⟩
  · rw [hsame]; exact h.ok w
  · rw [hsame, liveAfter_snoc]; exact h.live w x
  · rw [hsame]; exact h.used w x (by simpa using hx)
  · rw [hsame, created_append]; exact h.curId w
  · exact disciplined_snoc.2 ⟨h.linear, (h.live v c).1 hc⟩

theorem of_borrows {fs : List (Event Connector)} (h : Tracks st (es ++ fs))
    (hconsume : ∀ r, .consume r ∉ fs) (hcreate : ∀ r, .create r ∉ fs) : Tracks st es where
  ok := h.ok
  live v c := by rw [h.live, liveAfter_append_of_borrows hconsume hcreate]
  used v c hc := h.used v c (mem_append_left _ hc)
  curId v := by
    have hnone : created v fs = 0 := by
      refine countP_eq_zero.2 fun e he => ?_
      cases e with
      | create r => exact absurd he (hcreate r)
      | consume r => simp
      | borrow r => simp
      | tick => simp
    rw [h.curId, created_append, hnone, add_zero]
  linear := Disciplined.of_append h.linear

theorem create (h : Tracks st es) (hcreated : ValueState.Created (st.stateOf v) c vs) :
    Tracks (st.insert v vs) (es ++ [.create (v, c)]) where
  ok := h.ok.insert hcreated.ok
  live w x := by
    rw [liveAfter_snoc]
    by_cases hw : w = v
    · subst hw
      rw [GraphState.stateOf_insert_self, hcreated.mem_iff, h.live]
      simp [Event.after, or_comm]
    · rw [GraphState.stateOf_insert_of_ne vs hw, h.live]
      simp [Event.after, hw]
  used w x hx := by
    rw [mem_append, mem_singleton, Event.create.injEq, Prod.mk.injEq] at hx
    have hnext := hcreated.next
    by_cases hw : w = v
    · subst hw
      rw [GraphState.stateOf_insert_self, hcreated.curId]
      obtain hx | ⟨-, rfl⟩ := hx
      · have := h.used w x hx; omega
      · exact le_refl _
    · rw [GraphState.stateOf_insert_of_ne vs hw]
      obtain hx | ⟨hwv, -⟩ := hx
      · exact h.used w x hx
      · exact absurd hwv hw
  curId := h.curId.create hcreated c
  linear := by
    refine disciplined_snoc.2 ⟨h.linear, fun hmem => ?_⟩
    have := h.used v c hmem
    have := hcreated.next
    omega

end Tracks

theorem NodeSpec.isBlock_operations (nType : NodeSpec) {ids : List ConnectorID}
    (hlen : ids.length = nType.size) : IsBlock ((nType.operations ids).map GraphOp.event) := by
  set k := nType.inputs.length + nType.passthroughs.length with hk
  have hlen1 : (nType.inputs.map Operand.get ++ nType.passthroughs.map Operand.pass).length =
      (ids.take k).length := by
    simp only [length_append, length_map, length_take, hlen, size]
    omega
  refine ⟨(zipWith Operand.op (nType.inputs.map .get ++ nType.passthroughs.map .pass)
      (ids.take k)).map GraphOp.event,
    (zipWith Operand.op (nType.outputs.map .set) (ids.drop k)).map GraphOp.event, ?_, ?_, ?_⟩
  · conv_lhs => rw [operations_eq, operandList, ← take_append_drop k ids]
    rw [zipWith_append hlen1, map_cons, map_append]
    rfl
  · intro e he
    obtain ⟨op, hop, rfl⟩ := mem_map.1 he
    obtain ⟨i, hi, rfl⟩ := mem_iff_getElem.1 hop
    rw [length_zipWith, ← hlen1, min_self] at hi
    rw [getElem_zipWith]
    have hmem := getElem_mem hi
    simp only [mem_append, mem_map] at hmem
    obtain ⟨v, -, hv⟩ | ⟨v, -, hv⟩ := hmem
    · rw [← hv]; exact ⟨_, .inl rfl⟩
    · rw [← hv]; exact ⟨_, .inr rfl⟩
  · intro e he
    obtain ⟨op, hop, rfl⟩ := mem_map.1 he
    obtain ⟨i, hi, rfl⟩ := mem_iff_getElem.1 hop
    rw [getElem_zipWith, getElem_map]
    exact ⟨_, rfl⟩

/-! ## What a node changes -/

theorem exists_op_mem {l : List Operand} {ids : List ConnectorID} (hlen : ids.length = l.length)
    {o : Operand} (ho : o ∈ l) : ∃ c, o.op c ∈ List.zipWith Operand.op l ids := by
  obtain ⟨i, hi, rfl⟩ := mem_iff_getElem.1 ho
  refine ⟨ids[i], mem_iff_getElem.2 ⟨i, ?_, getElem_zipWith⟩⟩
  rw [length_zipWith, hlen, min_self]
  exact hi

theorem exists_operand_of_mem {l : List Operand} {ids : List ConnectorID} {op : GraphOp}
    (h : op ∈ List.zipWith Operand.op l ids) : ∃ o ∈ l, ∃ c, op = o.op c := by
  obtain ⟨i, hi, rfl⟩ := mem_iff_getElem.1 h
  rw [getElem_zipWith]
  exact ⟨_, getElem_mem _, _, rfl⟩

section

variable {nType : NodeSpec} {ids : List ConnectorID}

theorem NodeSpec.consumes_nothing_iff (hlen : ids.length = nType.size) :
    (∀ r, .consume r ∉ (nType.operations ids).map GraphOp.event) ↔ nType.inputs = [] := by
  rw [operations_eq]
  constructor
  · intro h
    refine eq_nil_iff_forall_not_mem.2 fun v hv => ?_
    obtain ⟨c, hc⟩ := exists_op_mem (l := nType.operandList) (o := .get v)
      (by rw [hlen, nType.length_operandList]) (by simp [operandList, hv])
    exact h (v, c) (consume_mem_map_event.2 (mem_cons_of_mem _ hc))
  · intro hin r hr
    have hmem := (mem_cons.1 (consume_mem_map_event.1 hr)).resolve_left (by simp)
    obtain ⟨o, ho, c, hop⟩ := exists_operand_of_mem hmem
    cases o <;> simp_all [operandList, Operand.op]

theorem NodeSpec.creates_nothing_iff (hlen : ids.length = nType.size) :
    (∀ r, .create r ∉ (nType.operations ids).map GraphOp.event) ↔ nType.outputs = [] := by
  rw [operations_eq]
  constructor
  · intro h
    refine eq_nil_iff_forall_not_mem.2 fun v hv => ?_
    obtain ⟨c, hc⟩ := exists_op_mem (l := nType.operandList) (o := .set v)
      (by rw [hlen, nType.length_operandList]) (by simp [operandList, hv])
    exact h (v, c) (create_mem_map_event.2 (mem_cons_of_mem _ hc))
  · intro hin r hr
    have hmem := (mem_cons.1 (create_mem_map_event.1 hr)).resolve_left (by simp)
    obtain ⟨o, ho, c, hop⟩ := exists_operand_of_mem hmem
    cases o <;> simp_all [operandList, Operand.op]

def SameValues (st st' : GraphState) : Prop :=
  ∀ v c, c ∈ (st'.stateOf v).newIdsForSampling ↔ c ∈ (st.stateOf v).newIdsForSampling

theorem Tracks.sameValues_iff {st st' : GraphState} {es : List (Event Connector)}
    (h : Tracks st es) (h' : Tracks st' (es ++ (nType.operations ids).map GraphOp.event))
    (hlen : ids.length = nType.size) :
    SameValues st st' ↔ nType.inputs = [] ∧ nType.outputs = [] := by
  rw [← consumes_nothing_iff hlen, ← creates_nothing_iff hlen,
    ← liveAfter_append_block_iff (nType.isBlock_operations hlen) h'.linear, Set.ext_iff]
  refine ⟨fun hsame r => ?_, fun hlive v c => ?_⟩
  · rw [← h.live, ← h'.live]
    exact hsame r.1 r.2
  · rw [h.live, h'.live]
    exact hlive (v, c)

end

end FuzzSocketCan
