import FuzzSocketCan.Lib.Renaming
import FuzzSocketCan.StructuredFuzzer.BoundedStorage

/-! # Copying keeps the dataflow graph

`calc_edges` follows the connectors of a graph from the output that creates them to their uses.

* **`ends_copyNode`** — the renaming of `copy_all` is a bijection between the live connectors of
  the source and of the copy, so their operations correspond (`Renames`).
* **`edgesFrom_of_renames`**, **`copyAll_keeps_edges`** — and the edges are the same. -/

namespace FuzzSocketCan

open Lib List Option Function LawfulGraphStorage
open LawfulGraphStorage (Room)

/-! ## Edges -/

structure SrcVal where
  id : ℕ
  port : UInt16
  deriving DecidableEq, Repr

structure DstVal where
  id : ℕ
  port : UInt16
  deriving DecidableEq, Repr

/-- The variables of `calc_edges`. -/
structure EdgeState where
  res : List (SrcVal × DstVal)
  idToSrc : Connector → Option SrcVal
  lastNode : Option ℕ
  lastOutPort : UInt16
  lastInPort : UInt16
  lastPassPort : UInt16

def EdgeState.new : EdgeState := ⟨[], fun _ => none, none, 0, 0, 0⟩

def EdgeState.step (st : EdgeState) (i : ℕ) : GraphOp → Except Panic EdgeState
  | .node _ =>
    .ok { st with lastNode := some i, lastInPort := 0, lastPassPort := 0, lastOutPort := 0 }
  | .set vt id =>
    match st.lastNode with
    | some n => .ok { st with
        idToSrc := update st.idToSrc (vt, id) (some ⟨n, st.lastOutPort⟩)
        lastOutPort := st.lastOutPort + 1 }
    | none => .error .unwrapNone
  | .get vt id =>
    match st.idToSrc (vt, id), st.lastNode with
    | some src, some n => .ok { st with
        res := st.res ++ [(src, ⟨n, st.lastInPort⟩)]
        idToSrc := update st.idToSrc (vt, id) none
        lastInPort := st.lastInPort + 1 }
    | _, _ => .error .unwrapNone
  | .pass vt id =>
    match st.idToSrc (vt, id), st.lastNode with
    | some src, some n => .ok { st with
        res := st.res ++ [(src, ⟨n, st.lastPassPort⟩)]
        lastPassPort := st.lastPassPort + 1 }
    | _, _ => .error .unwrapNone

/-- The loop of `calc_edges` from place `i` on. -/
def edgesFrom (st : EdgeState) (i : ℕ) : List GraphOp → Except Panic EdgeState
  | [] => .ok st
  | op :: ops => do
      let st ← st.step i op
      edgesFrom st (i + 1) ops

def calcEdges {S : Type} [GraphStorage S] (spec : GraphSpec) (g : S) :
    Except Panic (List (SrcVal × DstVal)) := do
  let ops := operationsOf spec g
  let st ← edgesFrom .new 0 ops.items
  match ops.stop with
  | none => .ok st.res
  | some e => .error e

structure EdgeState.Alike (ρ : Connector → Option Connector) (st st' : EdgeState) : Prop where
  res : st'.res = st.res
  lastNode : st'.lastNode = st.lastNode
  lastOutPort : st'.lastOutPort = st.lastOutPort
  lastInPort : st'.lastInPort = st.lastInPort
  lastPassPort : st'.lastPassPort = st.lastPassPort
  idToSrc : Agree ρ st.idToSrc st'.idToSrc

namespace EdgeState

def Together (ρ : Connector → Option Connector) (r r' : Except Panic EdgeState) : Prop :=
  ∃ e e', r = .ok e ∧ r' = .ok e' ∧ e.Alike ρ e' ∧ e.lastNode ≠ none

variable {ρ : Connector → Option Connector} {st st' : EdgeState} {v v' : ValueTypeID}
  {c c' : ConnectorID} {m : ℕ}

theorem Alike.node (h : st.Alike ρ st') (i : ℕ) (n n' : NodeTypeID) :
    Together ρ (st.step i (.node n)) (st'.step i (.node n')) :=
  ⟨_, _, rfl, rfl, ⟨h.res, rfl, rfl, rfl, rfl, h.idToSrc⟩, some_ne_none i⟩

theorem Alike.get (h : st.Alike ρ st') (hρ : OneToOne ρ) (hr : ρ (v, c) = some (v', c'))
    (hm : st.lastNode = some m) (i : ℕ) :
    Together (update ρ (v, c) none) (st.step i (.get v c)) (st'.step i (.get v' c')) := by
  obtain ⟨src, hsrc, hsrc'⟩ := h.idToSrc _ _ hr
  simp only [step, hsrc, hsrc', hm, h.lastNode.trans hm, h.res, h.lastInPort]
  exact ⟨_, _, rfl, rfl, ⟨rfl, rfl, h.lastOutPort, rfl, h.lastPassPort, h.idToSrc.remove hρ hr⟩,
    some_ne_none m⟩

theorem Alike.pass (h : st.Alike ρ st') (hr : ρ (v, c) = some (v', c')) (hm : st.lastNode = some m)
    (i : ℕ) : Together ρ (st.step i (.pass v c)) (st'.step i (.pass v' c')) := by
  obtain ⟨src, hsrc, hsrc'⟩ := h.idToSrc _ _ hr
  simp only [step, hsrc, hsrc', hm, h.lastNode.trans hm, h.res, h.lastPassPort]
  exact ⟨_, _, rfl, rfl, ⟨rfl, rfl, h.lastOutPort, h.lastInPort, rfl, h.idToSrc⟩,
    some_ne_none m⟩

theorem Alike.set (h : st.Alike ρ st') (hfresh : ∀ q, ρ q ≠ some (v', c'))
    (hm : st.lastNode = some m) (i : ℕ) :
    Together (update ρ (v, c) (some (v', c'))) (st.step i (.set v c))
      (st'.step i (.set v' c')) := by
  simp only [step, hm, h.lastNode.trans hm, h.lastOutPort]
  exact ⟨_, _, rfl, rfl, ⟨h.res, rfl, rfl, h.lastInPort, h.lastPassPort,
    h.idToSrc.insert hfresh _ _⟩, some_ne_none m⟩

end EdgeState

theorem edgesFrom_of_renames {ρ ρ' : Connector → Option Connector} {ops ops' : List GraphOp}
    (hren : Renames ρ (ops.map GraphOp.event) (ops'.map GraphOp.event) ρ') (hρ : OneToOne ρ)
    {st st' : EdgeState} (h : st.Alike ρ st')
    (hstart : st.lastNode = none → ∀ op ∈ ops.head?, ∃ n, op = .node n) (i : ℕ) :
    ∃ e e', edgesFrom st i ops = .ok e ∧ edgesFrom st' i ops' = .ok e' ∧ e.Alike ρ' e' := by
  induction ops generalizing ops' ρ st st' i with
  | nil =>
    cases ops' with
    | nil => cases hren; exact ⟨st, st', rfl, rfl, h⟩
    | cons op' ops' => cases hren
  | cons op ops ih =>
    -- what remains after a round in which both go through
    have hrest : ∀ {ρ1 : Connector → Option Connector} {op' : GraphOp} {ops'' : List GraphOp},
        EdgeState.Together ρ1 (st.step i op) (st'.step i op') → OneToOne ρ1 →
          Renames ρ1 (ops.map GraphOp.event) (ops''.map GraphOp.event) ρ' →
            ∃ e e', edgesFrom st i (op :: ops) = .ok e ∧
              edgesFrom st' i (op' :: ops'') = .ok e' ∧ e.Alike ρ' e' := by
      rintro ρ1 op' ops'' ⟨e, e', he, he', halike, hnode⟩ hρ1 hren1
      rw [edgesFrom, edgesFrom, he, he']
      exact ih hren1 hρ1 halike (fun hnone => absurd hnone hnode) _
    have hnode : (∀ n, op ≠ .node n) → ∃ m, st.lastNode = some m := fun hop =>
      ne_none_iff_exists'.1 fun hnone =>
        let ⟨n, hn⟩ := hstart hnone op rfl
        hop n hn
    cases op with
    | node n =>
      obtain ⟨fs, hfs, hren'⟩ := hren.of_tick
      obtain ⟨op', ops', rfl, hop', rfl⟩ := map_eq_cons_iff.1 hfs
      obtain ⟨n', rfl⟩ := event_eq_tick.1 hop'
      exact hrest (h.node i n n') hρ hren'
    | get v c =>
      obtain ⟨⟨v', c'⟩, fs, hfs, hr, hren'⟩ := hren.of_consume
      obtain ⟨op', ops', rfl, hop', rfl⟩ := map_eq_cons_iff.1 hfs
      obtain rfl := event_eq_consume.1 hop'
      obtain ⟨m, hm⟩ := hnode (by simp)
      exact hrest (h.get hρ hr hm i) (hρ.remove _) hren'
    | pass v c =>
      obtain ⟨⟨v', c'⟩, fs, hfs, hr, hren'⟩ := hren.of_borrow
      obtain ⟨op', ops', rfl, hop', rfl⟩ := map_eq_cons_iff.1 hfs
      obtain rfl := event_eq_borrow.1 hop'
      obtain ⟨m, hm⟩ := hnode (by simp)
      exact hrest (h.pass hr hm i) hρ hren'
    | set v c =>
      obtain ⟨⟨v', c'⟩, fs, hfs, hfresh, hren'⟩ := hren.of_create
      obtain ⟨op', ops', rfl, hop', rfl⟩ := map_eq_cons_iff.1 hfs
      obtain rfl := event_eq_create.1 hop'
      obtain ⟨m, hm⟩ := hnode (by simp)
      exact hrest (h.set hfresh hm i) (hρ.insert hfresh _) hren'

/-! ## The renaming of the builder -/

structure Follows (st : GraphState) (es : List (Event Connector)) : Prop where
  ok : st.Ok
  live : ∀ v c, ((st.stateOf v).oldIdToNewId c).isSome ↔ (v, c) ∈ liveAfter es
  curId : CountsIds st es

def renamingOf (st : GraphState) : Connector → Option Connector := fun r =>
  ((st.stateOf r.1).oldIdToNewId r.2).map (Prod.mk r.1)

variable {st : GraphState} {es : List (Event Connector)} {v : ValueTypeID} {c c' : ConnectorID}
  {vs : ValueState}

theorem renamingOf_eq_some {r r' : Connector} : renamingOf st r = some r' ↔
    r'.1 = r.1 ∧ (st.stateOf r.1).oldIdToNewId r.2 = some r'.2 := by
  obtain ⟨v', c'⟩ := r'
  simp only [renamingOf, map_eq_some_iff, Prod.mk.injEq]
  constructor
  · rintro ⟨x, hx, rfl, rfl⟩; exact ⟨rfl, hx⟩
  · rintro ⟨rfl, hx⟩; exact ⟨c', hx, rfl, rfl⟩

theorem renamingOf_insert {o : Option ConnectorID}
    (hvs : vs.oldIdToNewId = update (st.stateOf v).oldIdToNewId c o) :
    renamingOf (st.insert v vs) = update (renamingOf st) (v, c) (o.map (Prod.mk v)) := by
  funext r
  obtain ⟨u, d⟩ := r
  by_cases hu : u = v
  · subst hu
    by_cases hd : d = c
    · subst hd
      simp [renamingOf, GraphState.stateOf_insert_self, hvs]
    · have hne : (u, d) ≠ (u, c) := fun heq => hd (Prod.mk.inj heq).2
      simp [renamingOf, GraphState.stateOf_insert_self, hvs, update_of_ne hd, update_of_ne hne]
  · have hne : (u, d) ≠ (v, c) := fun heq => hu (Prod.mk.inj heq).1
    simp [renamingOf, GraphState.stateOf_insert_of_ne vs hu, update_of_ne hne]

namespace Follows

theorem clear (st : GraphState) : Follows st.clear [] := by
  refine ⟨st.clear_ok, fun v c => ?_, .clear st⟩
  simp only [liveAfter_nil, Set.mem_empty_iff_false, iff_false]
  unfold GraphState.stateOf GraphState.clear
  cases st v <;> exact Bool.false_ne_true

theorem tick (h : Follows st es) : Follows st (es ++ [.tick]) where
  ok := h.ok
  live v c := by rw [liveAfter_snoc]; exact h.live v c
  curId v := by rw [created_append]; exact h.curId v

theorem borrow (h : Follows st es) (r : Connector) (v : ValueTypeID) :
    Follows (st.insert v (st.stateOf v)) (es ++ [.borrow r]) where
  ok := h.ok.insert (h.ok v)
  live u c := by rw [liveAfter_snoc, st.stateOf_insert_stateOf]; exact h.live u c
  curId u := by rw [created_append, st.stateOf_insert_stateOf]; exact h.curId u

theorem renamed (h : Follows st es) (hlive : (v, c) ∈ liveAfter es) :
    ∃ c', (st.stateOf v).oldIdToNewId c = some c' ∧ c' ∈ (st.stateOf v).newIdsForSampling := by
  obtain ⟨c', hc'⟩ := isSome_iff_exists.1 ((h.live v c).2 hlive)
  exact ⟨c', hc', ((h.ok v).renamed c c' hc').1⟩

theorem consume (h : Follows st es) (hc : (st.stateOf v).oldIdToNewId c = some c') :
    ∃ vs, (st.stateOf v).takeNewInput c' = .ok (c', vs) ∧
      vs.numAvailable + 1 = (st.stateOf v).numAvailable ∧
        Follows (st.insert v vs) (es ++ [.consume (v, c)]) ∧
          renamingOf (st.insert v vs) = update (renamingOf st) (v, c) none := by
  obtain ⟨hmem, hback⟩ := (h.ok v).renamed c c' hc
  obtain ⟨vs, hvs, htook, hold⟩ := ValueState.takeNewInput_spec (h.ok v) hmem
  have hold := hold c hback
  refine ⟨vs, hvs, htook.numAvailable, ⟨h.ok.insert htook.ok, fun u d => ?_,
    h.curId.consume htook _⟩, renamingOf_insert hold⟩
  by_cases hu : u = v
  · subst hu
    rw [GraphState.stateOf_insert_self, hold]
    by_cases hd : d = c
    · subst hd; simp [Event.after]
    · rw [update_of_ne hd, h.live]; simp [Event.after, hd]
  · rw [GraphState.stateOf_insert_of_ne vs hu, h.live]
    simp [Event.after, hu]

theorem create (h : Follows st es) (hcur : created v es < 65535) (c : ConnectorID) :
    ∃ c' vs, (st.stateOf v).insertOldId c = .ok (c', vs) ∧
      Follows (st.insert v vs) (es ++ [.create (v, c)]) ∧
        renamingOf (st.insert v vs) = update (renamingOf st) (v, c) (some (v, c')) ∧
          ∀ q, renamingOf st q ≠ some (v, c') := by
  rw [← h.curId] at hcur
  obtain ⟨c', vs, hvs, hcreated, hold, -⟩ := ValueState.insertOldId_spec (h.ok v) hcur c
  refine ⟨c', vs, hvs, ⟨h.ok.insert hcreated.ok, fun u d => ?_, h.curId.create hcreated c⟩,
    renamingOf_insert hold, fun q hq => ?_⟩
  · rw [liveAfter_snoc]
    by_cases hu : u = v
    · subst hu
      rw [GraphState.stateOf_insert_self, hold]
      by_cases hd : d = c
      · subst hd; simp [Event.after]
      · rw [update_of_ne hd, h.live]; simp [Event.after, hd]
    · rw [GraphState.stateOf_insert_of_ne vs hu, h.live]
      simp [Event.after, hu]
  · -- every connector in use has an id below the new one
    obtain ⟨hv, hq⟩ := renamingOf_eq_some.1 hq
    have hv' : q.1 = v := hv.symm
    rw [hv'] at hq
    have hle := (h.ok v).le_curId c' ((h.ok v).renamed _ _ hq).1
    have := hcreated.next
    omega

end Follows

/-! ## Copying a node -/

section

variable {S : Type} [GraphStorage S] {w w' : World S}

def operandEvent (p : Operand × ConnectorID) : Event Connector := (p.1.op p.2).event

theorem ends_copyOperand (p : Operand × ConnectorID) (h : Follows w.state es)
    (hok : reusingOk es (operandEvent p))
    (hfew : ∀ v, created v (es ++ [operandEvent p]) < 65535) :
    Ends (do let newVal ← renameAndRelinkOpVal (p.1.op p.2); appendOp newVal) w (fun _ w' =>
      ∃ c', Handed w w' [c'] ∧ Follows w'.state (es ++ [operandEvent p]) ∧
        Renames (renamingOf w.state) [operandEvent p] [operandEvent (p.1, c')]
          (renamingOf w'.state)) never := by
  obtain ⟨o, c⟩ := p
  cases o with
  | get v =>
    obtain ⟨c', hc', -⟩ := h.renamed hok
    obtain ⟨vs, hvs, -, hfollows, hren⟩ := h.consume hc'
    simp only [Operand.op, renameAndRelinkOpVal, ends_bind, ends_withState,
      ValueState.takeOldAvailableInput, ValueState.getOldAvailableInput,
      ValueState.getRenamedOldInput, hc', hvs, ends_pure, ends_orPanic_ok, ends_appendOp]
    exact ⟨c', ⟨rfl, rfl⟩, hfollows,
      .consume (renamingOf_eq_some.2 ⟨rfl, hc'⟩) (by rw [hren]; exact .done _)⟩
  | pass v =>
    obtain ⟨c', hc', -⟩ := h.renamed hok
    have hren : renamingOf (w.state.insert v (w.state.stateOf v)) = renamingOf w.state := by
      funext r; simp only [renamingOf, GraphState.stateOf_insert_stateOf]
    simp only [Operand.op, renameAndRelinkOpVal, ends_bind, ends_withState,
      ValueState.getOldAvailableInput, ValueState.getRenamedOldInput, hc', ends_pure,
      ends_appendOp]
    exact ⟨c', ⟨rfl, rfl⟩, h.borrow _ v,
      .borrow (renamingOf_eq_some.2 ⟨rfl, hc'⟩) (by rw [hren]; exact .done _)⟩
  | set v =>
    have hcur : created v es < 65535 := by
      have := hfew v
      rw [created_append] at this
      omega
    obtain ⟨c', vs, hvs, hfollows, hren, hfresh⟩ := h.create hcur c
    simp only [Operand.op, renameAndRelinkOpVal, ends_bind, ends_withState, hvs,
      ends_orPanic_ok, ends_appendOp]
    exact ⟨c', ⟨rfl, rfl⟩, hfollows, .create hfresh (by rw [hren]; exact .done _)⟩

theorem ends_copyOperands {ps : List (Operand × ConnectorID)} (h : Follows w.state es)
    (hok : Reusing (es ++ ps.map operandEvent))
    (hfew : ∀ v, created v (es ++ ps.map operandEvent) < 65535) :
    Ends (forEach ps fun p => do
        let newVal ← renameAndRelinkOpVal (p.1.op p.2)
        appendOp newVal) w (fun _ w' =>
      ∃ ids, ids.length = ps.length ∧ Handed w w' ids ∧
        Follows w'.state (es ++ ps.map operandEvent) ∧
          Renames (renamingOf w.state) (ps.map operandEvent)
            (((ps.map Prod.fst).zip ids).map operandEvent) (renamingOf w'.state)) never := by
  induction ps generalizing w es with
  | nil => exact ⟨[], rfl, ⟨rfl, rfl⟩, by simpa using h, .done _⟩
  | cons p ps ih =>
    have hsplit : es ++ (p :: ps).map operandEvent = es ++ [operandEvent p] ++ ps.map operandEvent := by
      simp
    rw [hsplit] at hok hfew ⊢
    rw [forEach, ends_bind]
    have hfirst : ∀ v, created v (es ++ [operandEvent p]) < 65535 := fun v => by
      have := hfew v
      rw [created_append] at this
      omega
    refine (ends_copyOperand p h ((disciplined_snoc.1 hok.of_append).2) hfirst).weaken
      fun _ w1 hw1 => ?_
    obtain ⟨c', hhanded, hfollows, hren⟩ := hw1
    refine (ih hfollows hok hfew).weaken fun _ w2 hw2 => ?_
    obtain ⟨ids, hlen, hhanded2, hfollows2, hren2⟩ := hw2
    exact ⟨c' :: ids, by rw [length_cons, hlen, length_cons], hhanded.trans hhanded2,
      hfollows2, hren.append hren2⟩

end

variable {passthroughs : List ValueTypeID} {ids : List ConnectorID}

theorem Follows.pass_available {rest : List Operand} (h : Follows st es)
    (hlen : passthroughs.length ≤ ids.length)
    (hok : Reusing (es ++ ((passthroughs.map Operand.pass ++ rest).zip ids).map operandEvent))
    (hv : v ∈ passthroughs) : 0 < (st.stateOf v).numAvailable := by
  induction passthroughs generalizing es st ids with
  | nil => exact absurd hv not_mem_nil
  | cons u us ih =>
    obtain ⟨c, ids, rfl⟩ : ∃ c ids', ids = c :: ids' := by
      cases ids with
      | nil => simp at hlen
      | cons c ids => exact ⟨c, ids, rfl⟩
    have hsplit : es ++ (((u :: us).map Operand.pass ++ rest).zip (c :: ids)).map operandEvent =
        es ++ [.borrow (u, c)] ++ ((us.map Operand.pass ++ rest).zip ids).map operandEvent := by
      simp [operandEvent, Operand.op, GraphOp.event]
    rw [hsplit] at hok
    have hlive : (u, c) ∈ liveAfter es := (disciplined_snoc.1 hok.of_append).2
    obtain rfl | hv := mem_cons.1 hv
    · obtain ⟨c', -, hmem⟩ := h.renamed hlive
      exact length_pos_of_mem hmem
    · have := ih (h.borrow (u, c) v) (by simpa using hlen) hok hv
      rwa [st.stateOf_insert_stateOf] at this

theorem Follows.need_le {inputs : List ValueTypeID} {rest : List Operand} (h : Follows st es)
    (hlen : inputs.length + passthroughs.length ≤ ids.length)
    (hok : Reusing (es ++ ((inputs.map Operand.get ++ (passthroughs.map Operand.pass ++ rest)).zip
      ids).map operandEvent)) (v : ValueTypeID) :
    need passthroughs inputs v ≤ (st.stateOf v).numAvailable := by
  induction inputs generalizing es st ids with
  | nil =>
    rw [need, count_nil, add_zero]
    split
    · next hv => exact h.pass_available (by simpa using hlen) hok hv
    · exact Nat.zero_le _
  | cons u us ih =>
    obtain ⟨c, ids, rfl⟩ : ∃ c ids', ids = c :: ids' := by
      cases ids with
      | nil => simp at hlen
      | cons c ids => exact ⟨c, ids, rfl⟩
    have hsplit : es ++ (((u :: us).map Operand.get ++ (passthroughs.map Operand.pass ++ rest)).zip
        (c :: ids)).map operandEvent = es ++ [.consume (u, c)] ++
          ((us.map Operand.get ++ (passthroughs.map Operand.pass ++ rest)).zip ids).map
            operandEvent := by
      simp [operandEvent, Operand.op, GraphOp.event]
    rw [hsplit] at hok
    have hlive : (u, c) ∈ liveAfter es := (disciplined_snoc.1 hok.of_append).2
    obtain ⟨c', hc', -⟩ := h.renamed hlive
    obtain ⟨vs, -, hnum, hfollows, -⟩ := h.consume hc'
    have ih := ih hfollows (by simp only [length_cons] at hlen; omega) hok
    -- one more value of type `u` is needed, and one more is there
    rw [need, count_cons] at *
    by_cases hv : v = u
    · subst hv
      rw [GraphState.stateOf_insert_self] at ih
      simp only [beq_self_eq_true, if_true]
      omega
    · rw [GraphState.stateOf_insert_of_ne vs hv] at ih
      have hne : ¬(u == v) = true := by simpa using Ne.symm hv
      rw [if_neg hne]
      omega

/-! ## Copying a graph -/

section

variable {S : Type} [GraphStorage S] [LawfulGraphStorage S] {spec : GraphSpec} {w : World S}
  {node : GraphNode} {nType : NodeSpec} {done made : List GraphNode} {n m : ℕ}

structure Twin (n n' : GraphNode) : Prop where
  id : n'.id = n.id
  data : n'.data = n.data
  head : n'.ops.head? = n.ops.head?
  length : n'.ops.length = n.ops.length

structure CopiedSoFar (spec : GraphSpec) (w : World S) (done made : List GraphNode) (n m : ℕ) :
    Prop where
  ops : w.ops = opsOf made
  data : w.data = dataOf made
  twins : List.Forall₂ Twin done made
  whole : ∀ node ∈ made, node.IsNode spec
  follows : Follows w.state (eventsOf spec done)
  renames : Renames (fun _ => none) (eventsOf spec done) (eventsOf spec made) (renamingOf w.state)
  room : Room w.target.storage n m

theorem eventsOf_node {operands : List ConnectorID} (hn : spec.getNode node.id = some nType)
    (hops : node.ops = node.id :: operands) :
    eventsOf spec [node] = .tick :: (nType.operandList.zip operands).map operandEvent := by
  rw [eventsOf, flatMap_singleton, nodeOperations_eq hn hops, NodeSpec.operations_eq,
    map_cons, map_zipWith, zip, map_zipWith]
  rfl

theorem ends_copyNode
    (h : CopiedSoFar spec w done made (node.ops.length + n) (m + 1 + node.data.length))
    (hnode : node.IsNode spec) (hok : Reusing (eventsOf spec (done ++ [node])))
    (hfew : ∀ v, created v (eventsOf spec (done ++ [node])) < 65535) :
    Ends (appendNode spec node) w (fun _ w' => ∃ node',
      CopiedSoFar spec w' (done ++ [node]) (made ++ [node']) n (m + 1)) never := by
  obtain ⟨nType, operands, hn, hops, hlen, henc⟩ := id hnode
  have hevents : eventsOf spec (done ++ [node]) = eventsOf spec done ++ [.tick] ++
      (nType.operandList.zip operands).map operandEvent := by
    rw [eventsOf_append, eventsOf_node hn hops, append_assoc, singleton_append]
  rw [hevents] at hok hfew
  have htick := h.follows.tick
  have hok' : Reusing (eventsOf spec done ++ [.tick] ++ ((nType.inputs.map Operand.get ++
      (nType.passthroughs.map Operand.pass ++ nType.outputs.map Operand.set)).zip operands).map
        operandEvent) := by
    rw [← append_assoc (nType.inputs.map _)]; exact hok
  have hneed : ∀ v, need nType.passthroughs nType.inputs v ≤ (w.state.stateOf v).numAvailable :=
    htick.need_le (by rw [hlen, NodeSpec.size]; omega) hok'
  have hcan : canAppendNode spec node w = true := canAppendNode_iff.2 ⟨⟨nType, hn, hneed⟩,
    canAppend_of_room (room_mono h.room (Nat.zero_le _)
      (by omega))⟩
  simp only [appendNode, ends_bind, ends_get]
  rw [if_pos hcan, ends_bind, ends_appendSlice_iff hn hops hlen]
  let w1 : World S := ⟨w.state, { w.target with storage := emit w.target.storage nType.id }⟩
  refine (ends_copyOperands (w := w1) htick hok hfew).weaken fun _ w2 hw2 => ?_
  obtain ⟨ids, hidsLen, hhanded, hfollows, hren⟩ := hw2
  rw [length_zip, NodeSpec.length_operandList, hlen, min_self] at hidsLen
  have hzip : (nType.operandList.zip operands).map Prod.fst = nType.operandList :=
    map_fst_zip (by rw [NodeSpec.length_operandList, hlen])
  rw [hzip] at hren
  have hopsLen : (nType.id :: ids).length = node.ops.length := by
    rw [length_cons, hidsLen, hnode.ops_length hn, add_comm]
  have hhanded1 : Handed w w1 [nType.id] := ⟨rfl, rfl⟩
  have hemit := (hhanded1.trans hhanded).emitted (n := n) (m := m + 1 + node.data.length)
    (by rw [singleton_append, hopsLen]; exact h.room)
  rw [singleton_append, GraphSpec.getNode_id hn] at hemit
  rw [ends_inTarget]
  refine ends_storeData (room_mono hemit.room (Nat.zero_le _) (le_refl _))
    fun t ht => ?_
  refine ⟨⟨node.id, 0, node.id :: ids, node.data⟩, ?_, ?_, ?_, ?_, ?_, ?_, ?_⟩
  · rw [opsOf_append, ← h.ops]
    exact ht.ops.trans (hemit.ops.trans (by simp [World.ops]))
  · rw [dataOf_append, ← h.data]
    exact ht.data.trans (by rw [hemit.data]; simp [World.data])
  · refine rel_append h.twins (.cons ⟨rfl, rfl, by rw [hops]; rfl, ?_⟩ .nil)
    exact (congrArg (· + 1) hidsLen).trans (by rw [hnode.ops_length hn, add_comm])
  · intro node' hmem
    obtain hmem | hmem := mem_append.1 hmem
    · exact h.whole node' hmem
    · rw [mem_singleton.1 hmem]
      exact ⟨nType, ids, hn, rfl, hidsLen, henc⟩
  · rw [hevents]; exact hfollows
  · rw [eventsOf_append, eventsOf_append, eventsOf_node hn hops,
      eventsOf_node (show spec.getNode (⟨node.id, 0, node.id :: ids, node.data⟩ : GraphNode).id =
        some nType from hn) rfl]
    exact h.renames.append (.tick hren)
  · exact room_and
      (ht.opsRoom n (room_mono hemit.room (le_refl _) (Nat.zero_le _))) ht.room

theorem ends_copyNodes {rest : List GraphNode}
    (h : CopiedSoFar spec w done made (opsOf rest).length ((dataOf rest).length + 1))
    (hrest : ∀ node ∈ rest, node.IsNode spec) (hok : Reusing (eventsOf spec (done ++ rest)))
    (hfew : ∀ v, created v (eventsOf spec (done ++ rest)) < 65535) :
    Ends (forEach rest (appendNode spec)) w (fun _ w' => ∃ made',
      CopiedSoFar spec w' (done ++ rest) made' 0 1) never := by
  induction rest generalizing w done made with
  | nil => exact ⟨made, by simpa using h⟩
  | cons node rest ih =>
    have hsplit : done ++ node :: rest = done ++ [node] ++ rest := by simp
    rw [hsplit] at hok hfew ⊢
    have hok1 : Reusing (eventsOf spec (done ++ [node])) := by
      rw [eventsOf_append _ (done ++ [node])] at hok
      exact Disciplined.of_append hok
    have hfew1 : ∀ v, created v (eventsOf spec (done ++ [node])) < 65535 := fun v => by
      have := hfew v
      rw [eventsOf_append _ (done ++ [node]), created_append] at this
      omega
    have h1 : CopiedSoFar spec w done made (node.ops.length + (opsOf rest).length)
        ((dataOf rest).length + 1 + node.data.length) := by
      have hlen : (dataOf (node :: rest)).length + 1 =
          (dataOf rest).length + 1 + node.data.length := by
        rw [dataOf_cons, length_append]; omega
      rwa [opsOf_cons, length_append, hlen] at h
    rw [forEach]
    refine (ends_copyNode h1 (hrest node mem_cons_self) hok1 hfew1).bind ?_
    rintro _ w1 ⟨node', hw1⟩
    exact ih hw1 (fun n hn => hrest n (mem_cons_of_mem _ hn)) hok hfew

structure SameButIds (n n' : GraphNode) : Prop extends Twin n n' where
  opI : n'.opI = n.opI

theorem sameButIds_place {ns ns' : List GraphNode} (h : List.Forall₂ Twin ns ns') (i : ℕ) :
    List.Forall₂ SameButIds (place i ns) (place i ns') := by
  induction h generalizing i with
  | nil => exact .nil
  | cons htwin _ ih =>
    refine .cons ⟨⟨htwin.id, htwin.data, htwin.head, htwin.length⟩, rfl⟩ ?_
    rw [htwin.length]
    exact ih _

/-- **A well-formed source graph** parses; what it uses is live, no live connector is created again,
and no type has 65535 values. -/
structure WellFormedSource (spec : GraphSpec) (orig : VecGraph) : Prop where
  parses : (nodesOf spec orig).stop = none
  live : Reusing ((operationsOf spec orig).items.map GraphOp.event)
  few : ∀ v, created v ((operationsOf spec orig).items.map GraphOp.event) < 65535

def LargeEnough (g : S) (n m : ℕ) : Prop :=
  ∃ g', GraphStorage.truncateTo g 0 0 = .ok g' ∧ Room g' n m

theorem largeEnough_vecGraph (g : VecGraph) (n m : ℕ) : LargeEnough g n m := by
  obtain ⟨g', hg', -⟩ := truncateTo_zero_spec g
  exact ⟨g', hg', trivial⟩

theorem largeEnough_refGraph {g : RefGraph} :
    LargeEnough g n m ↔ n ≤ g.ops.length ∧ m ≤ g.data.length := by
  have hg : GraphStorage.truncateTo g 0 0 = .ok { g with opsI := 0, dataI := 0 } :=
    if_pos ⟨Nat.zero_le _, Nat.zero_le _⟩
  constructor
  · rintro ⟨g', hg', hroom⟩
    obtain rfl := Except.ok.inj hg'
    exact ⟨by simpa using hroom.1, by simpa using hroom.2⟩
  · rintro ⟨hn, hm⟩
    exact ⟨_, hg, by simpa using hn, by simpa using hm⟩

variable {orig : VecGraph}

theorem nodesOf_items_eq_place (h : (nodesOf spec orig).stop = none) :
    (nodesOf spec orig).items = place 0 (nodesOf spec orig).items ∧
      orig.ops = opsOf (nodesOf spec orig).items := by
  exact ⟨(nodeIter_place h).symm, (nodeIter_whole h).1⟩

theorem head_operations {nodes : List GraphNode} (h : ∀ node ∈ nodes, node.HasOps spec) :
    ∀ op ∈ (nodes.flatMap (nodeOperations spec)).head?, ∃ n, op = .node n := by
  cases nodes with
  | nil => intro op hop; cases hop
  | cons node nodes =>
    obtain ⟨nType, operands, hn, hops, -⟩ := h node mem_cons_self
    intro op hop
    rw [flatMap_cons, nodeOperations_eq hn hops, NodeSpec.operations_eq, cons_append,
      head?_cons] at hop
    exact ⟨_, (some.inj hop).symm⟩

theorem copiedSoFar_start (spec : GraphSpec) {g : S}
    (hg : GraphStorage.truncateTo w.target.storage 0 0 = .ok g) (hroom : Room g n m) :
    CopiedSoFar spec ⟨w.state.clear, { w.target with storage := g }⟩ [] [] n m := by
  obtain ⟨g', hg', hops, hdata, -⟩ := truncateTo_zero_spec w.target.storage
  obtain rfl := Except.ok.inj (hg'.symm.trans hg)
  have hnone : renamingOf w.state.clear = fun _ => none := by
    funext r
    unfold renamingOf GraphState.stateOf GraphState.clear
    cases w.state r.1 <;> rfl
  refine ⟨hops, hdata, .nil, fun n hn => absurd hn not_mem_nil, .clear _, ?_, hroom⟩
  rw [hnone]
  exact .done _

theorem WellFormedSource.operations (h : WellFormedSource spec orig) :
    operationsOf spec orig = .ofList ((nodesOf spec orig).items.flatMap (nodeOperations spec)) := by
  show opIter spec orig.ops = _
  rw [(nodesOf_items_eq_place h.parses).2]
  exact opIter_chunks fun n hn => (isNode_of_mem_nodeIter hn).hasOps

theorem ends_copyAll (horig : WellFormedSource spec orig)
    (hlarge : LargeEnough w.target.storage orig.ops.length
      ((dataOf (nodesOf spec orig).items).length + 1)) :
    Ends (copyAll spec orig) w (fun _ w' => ∃ made,
      CopiedSoFar spec w' (nodesOf spec orig).items made 0 1) never := by
  have hlive := horig.live
  have hfew := horig.few
  rw [horig.operations] at hlive hfew
  obtain ⟨g, hg, hroom⟩ := hlarge
  rw [(nodesOf_items_eq_place horig.parses).2] at hroom
  rw [copyAll, ends_bind]
  refine ends_of_ok (start_none_run hg) ?_
  rw [forIter, horig.parses]
  exact (ends_copyNodes (copiedSoFar_start spec hg hroom) (fun n hn => isNode_of_mem_nodeIter hn)
    hlive hfew).bind fun _ _ hw => hw

/-- **Copying keeps the dataflow graph.** -/
theorem copyAll_keeps_edges {orig : VecGraph} (horig : WellFormedSource spec orig) (w : World S)
    (hlarge : LargeEnough w.target.storage orig.ops.length
      ((dataOf (nodesOf spec orig).items).length + 1)) :
    ∃ w' nodes edges, copyAll spec orig w = .ok ⟨⟩ w' ∧
      nodesOf spec w'.target.storage = .ofList nodes ∧
        List.Forall₂ SameButIds (nodesOf spec orig).items nodes ∧
          calcEdges spec orig = .ok edges ∧ calcEdges spec w'.target.storage = .ok edges := by
  obtain ⟨_, w', hw', made, hmade⟩ := (ends_copyAll horig hlarge).result
  have hcopy : operationsOf spec w'.target.storage =
      .ofList (made.flatMap (nodeOperations spec)) := by
    show opIter spec w'.ops = _
    rw [hmade.ops]
    exact opIter_chunks fun n hn => (hmade.whole n hn).hasOps
  obtain ⟨e, e', he, he', halike⟩ := edgesFrom_of_renames hmade.renames
    (fun _ _ _ h => nomatch h)
    (show EdgeState.new.Alike _ .new from ⟨rfl, rfl, rfl, rfl, rfl, fun _ _ h => nomatch h⟩)
    (fun _ => head_operations fun n hn => (isNode_of_mem_nodeIter hn).hasOps) 0
  refine ⟨w', place 0 made, e.res, hw', ?_, ?_, ?_, ?_⟩
  · show nodeIter spec w'.ops w'.data = _
    rw [hmade.ops, hmade.data]
    exact nodeIter_chunks hmade.whole
  · rw [(nodesOf_items_eq_place horig.parses).1]
    exact sameButIds_place hmade.twins 0
  · simp only [calcEdges, horig.operations, Iter.ofList_items, Iter.ofList_stop, he]; rfl
  · simp only [calcEdges, hcopy, Iter.ofList_items, Iter.ofList_stop, he', ← halike.res]; rfl

end

theorem openSend_wellFormed : WellFormedSource connectionSpec openSend := by
  have hevents : (operationsOf connectionSpec openSend).items.map GraphOp.event =
      [] ++ [.tick] ++ [.create (0, 7)] ++ [.tick] ++ [.borrow (0, 7)] := by decide +kernel
  refine ⟨by decide +kernel, ?_, fun v => ?_⟩
  · rw [hevents]
    simp only [Reusing, disciplined_snoc, disciplined_nil, reusingOk, liveAfter_snoc, liveAfter_nil,
      Event.after, true_and, Set.mem_insert, and_true]
    exact Set.notMem_empty _
  · rw [hevents]
    exact lt_of_le_of_lt countP_le_length (by decide)

theorem copyAll_keeps_edges_openSend :
    calcEdges connectionSpec openSend = .ok [(⟨0, 0⟩, ⟨2, 0⟩)] ∧
    ∃ w' nodes edges, copyAll connectionSpec openSend (World.buffers 4 4 []) = .ok ⟨⟩ w' ∧
      nodesOf connectionSpec w'.target.storage = .ofList nodes ∧
        List.Forall₂ SameButIds (nodesOf connectionSpec openSend).items nodes ∧
          calcEdges connectionSpec openSend = .ok edges ∧
            calcEdges connectionSpec w'.target.storage = .ok edges :=
  ⟨by decide +kernel, copyAll_keeps_edges openSend_wellFormed _
    (largeEnough_refGraph.2 (by decide +kernel))⟩

/-- **A node is dropped when the data buffer has exactly the size of the data.** -/
theorem copyAll_drops_node :
    WellFormedSource connectionSpec openSend ∧
      LargeEnough (World.buffers 4 3 []).target.storage openSend.ops.length openSend.data.length ∧
        (nodesOf connectionSpec openSend).items.length = 2 ∧
          panicOf (copyAll connectionSpec openSend (World.buffers 4 3 [])) = none ∧
            (lastState (copyAll connectionSpec openSend (World.buffers 4 3 []))).ops = [0, 1] ∧
              (lastState (copyAll connectionSpec openSend (World.buffers 4 3 []))).data = [] :=
  ⟨openSend_wellFormed, largeEnough_refGraph.2 (by decide +kernel), by decide +kernel,
    by decide +kernel, by decide +kernel, by decide +kernel⟩

end FuzzSocketCan
