import Mathlib.Algebra.Order.BigOperators.Group.List
import FuzzSocketCan.StructuredFuzzer.CopyEdges

/-! # Minimizing a graph node by node

`drop_node_at` rebuilds a graph without one node; nodes that need a missing value are dropped with
it, the others are relinked. `GraphBuilder::minimize` tries this for each node, the last one
first, and a tester decides.

* **`ends_dropNodeAt_dropped`** — what one attempt leaves.
* **`minimize_wellFormed`** — whatever the tester says, the graph stays well formed, and its nodes
  are nodes of the first graph, in their order. -/

namespace FuzzSocketCan

open Lib List
open LawfulGraphStorage (Room)

/-! ## The loop -/

def nodeLen {S : Type} [GraphStorage S] (spec : GraphSpec) (g : S) : Except Panic ℕ :=
  match (nodesOf spec g).stop with
  | none => .ok (nodesOf spec g).items.length
  | some e => .error e

/-- The smallest graph so far and the tester, with the graphs it was shown and its answers. -/
structure Minimizing (τ : Type) where
  minGraph : VecGraph
  tester : τ
  shown : List (VecGraph × Bool)

section Definitions

variable {S S₁ τ : Type} [GraphStorage S] [GraphStorage S₁]

/-- Try to drop the node at `idx`. -/
def minimizeStep (spec : GraphSpec) (tester : τ → S → Bool × τ) (m : Minimizing τ) (idx : ℕ) :
    Build S (Minimizing τ) := do
  dropNodeAt spec m.minGraph idx
  let storage := (← get).target.storage
  let (accepted, t) := tester m.tester storage
  pure ⟨if accepted then asVecGraph storage else m.minGraph, t,
    m.shown ++ [(asVecGraph storage, accepted)]⟩

/-- `minimize`, with a tester that has a state. -/
def minimize (spec : GraphSpec) (frag : S₁) (tester : τ → S → Bool × τ) (t : τ) :
    Build S (Minimizing τ) := do
  let numNodes ← orPanic (nodeLen spec frag)
  (List.range numNodes).reverse.foldlM (minimizeStep spec tester) ⟨asVecGraph frag, t, []⟩

end Definitions

/-! ## Storage that is used again -/

class ReusableStorage (S : Type) [GraphStorage S] [LawfulGraphStorage S] : Prop where
  room_of_largeEnough {g : S} {n k : ℕ} : LargeEnough g n 0 → Room g 0 0 →
    (opsAsSlice g).length + k ≤ n → Room g k 0
  appendOp {g g' : S} {n : ℕ} {x : UInt16} : GraphStorage.appendOp g x = some g' →
    LargeEnough g n 0 → LargeEnough g' n 0
  appendData {g g' : S} {n : ℕ} {d : List UInt8} : GraphStorage.appendData g d = some g' →
    LargeEnough g n 0 → LargeEnough g' n 0
  truncateTo {g g' : S} {n : ℕ} : GraphStorage.truncateTo g 0 0 = .ok g' →
    LargeEnough g n 0 → LargeEnough g' n 0

instance : ReusableStorage VecGraph where
  room_of_largeEnough _ _ _ := trivial
  appendOp _ _ := largeEnough_vecGraph _ _ _
  appendData _ _ := largeEnough_vecGraph _ _ _
  truncateTo _ _ := largeEnough_vecGraph _ _ _

instance : ReusableStorage RefGraph where
  room_of_largeEnough := by
    intro g n k hlarge hroom hlen
    have hcap := (largeEnough_refGraph.1 hlarge).1
    rw [RefGraph.length_opsAsSlice hroom] at hlen
    exact ⟨by omega, hroom.2⟩
  appendOp := by
    intro g g' n x hg hlarge
    rw [largeEnough_refGraph] at hlarge ⊢
    simp only [GraphStorage.appendOp] at hg
    split at hg
    · obtain rfl := Option.some.inj hg
      simpa using hlarge
    · cases hg
  appendData := by
    intro g g' n d hg hlarge
    obtain ⟨hle, rfl⟩ := RefGraph.appendData_eq_some.1 hg
    rw [largeEnough_refGraph] at hlarge ⊢
    exact ⟨hlarge.1, Nat.zero_le _⟩
  truncateTo := by
    intro g g' n hg hlarge
    simp only [GraphStorage.truncateTo] at hg
    split at hg
    · obtain rfl := Except.ok.inj hg
      rw [largeEnough_refGraph] at hlarge ⊢
      exact hlarge
    · cases hg

/-! ## What building uses up

The builder panics only when it has no ids left. How many ids a run can use is bounded by the values
that the copied ops create, whether the run panics or not; and no step takes capacity away. -/

section CreatesAtMost

variable {S : Type} [GraphStorage S] [LawfulGraphStorage S] {α β : Type} {w w' : World S}
  {k k' : ValueTypeID → ℕ}

def World.lastId (w : World S) (v : ValueTypeID) : ℕ := (w.state.stateOf v).curId.toNat

structure CreatedAtMost (k : ValueTypeID → ℕ) (w w' : World S) : Prop where
  large : ∀ n, LargeEnough w.target.storage n 0 → LargeEnough w'.target.storage n 0
  ids : ∀ v, w'.lastId v ≤ w.lastId v + k v

theorem CreatedAtMost.refl (k : ValueTypeID → ℕ) (w : World S) : CreatedAtMost k w w :=
  ⟨fun _ h => h, fun _ => Nat.le_add_right _ _⟩

theorem CreatedAtMost.trans {w'' : World S} (h : CreatedAtMost k w w') (h' : CreatedAtMost k' w' w'') :
    CreatedAtMost (fun v => k v + k' v) w w'' := by
  refine ⟨fun n hn => h'.large n (h.large n hn), fun v => ?_⟩
  have := h.ids v
  have := h'.ids v
  omega

theorem CreatedAtMost.mono (h : CreatedAtMost k w w') (hle : ∀ v, k v ≤ k' v) : CreatedAtMost k' w w' :=
  ⟨h.large, fun v => le_trans (h.ids v) (Nat.add_le_add_left (hle v) _)⟩

def CreatesAtMost (k : ValueTypeID → ℕ) (m : Build S α) : Prop :=
  ∀ w, Ends m w (fun _ w' => CreatedAtMost k w w') fun _ w' => CreatedAtMost k w w'

namespace CreatesAtMost

variable {m : Build S α}

theorem bind {f : α → Build S β} (h : CreatesAtMost k m) (h' : ∀ a, CreatesAtMost k' (f a)) :
    CreatesAtMost (fun v => k v + k' v) (m >>= f) := by
  intro w
  rw [ends_bind]
  refine (h w).mono (fun a w1 h1 => ?_) fun _ w1 h1 => h1.mono fun v => Nat.le_add_right _ _
  exact (h' a w1).mono (fun _ _ h2 => h1.trans h2) fun _ _ h2 => h1.trans h2

theorem pure (a : α) : CreatesAtMost k (Pure.pure a : Build S α) := fun w => CreatedAtMost.refl k w

theorem ite {c : Prop} [Decidable c] {m' : Build S α} (h : CreatesAtMost k m)
    (h' : CreatesAtMost k m') : CreatesAtMost k (if c then m else m') :=
  fun w => ends_ite (fun _ => h w) fun _ => h' w

theorem mono (h : CreatesAtMost k m) (hle : ∀ v, k v ≤ k' v) : CreatesAtMost k' m :=
  fun w => (h w).mono (fun _ _ h => h.mono hle) fun _ _ h => h.mono hle

theorem withState {v : ValueTypeID} {f : ValueState → Dist (α × ValueState)} {n : ℕ}
    (hf : ∀ s x, Ends (f s) x (fun r _ => r.2.curId.toNat ≤ s.curId.toNat + n) mayPanic) :
    CreatesAtMost (fun u => if u = v then n else 0) (withState v f : Build S α) := by
  intro w
  rw [ends_withState]
  refine (hf _ _).mono ?_ ?_
  · intro r x hr
    refine ⟨fun _ h => h, fun u => ?_⟩
    rcases eq_or_ne u v with rfl | hne
    · rw [World.lastId, GraphState.stateOf_insert_self, if_pos rfl]
      exact hr
    · rw [World.lastId, GraphState.stateOf_insert_of_ne _ hne]
      exact Nat.le_add_right _ _
  · intro e x _
    refine ⟨fun _ h => h, fun u => ?_⟩
    rw [World.lastId, GraphState.stateOf_insert_stateOf]
    exact Nat.le_add_right _ _

theorem appendOp [ReusableStorage S] (x : UInt16) :
    CreatesAtMost k (FuzzSocketCan.appendOp x : Build S PUnit) := by
  intro w
  rw [ends_appendOp]
  refine ⟨fun n hn => ?_, fun v => Nat.le_add_right _ _⟩
  rw [emit]
  cases hg : GraphStorage.appendOp w.target.storage x with
  | none => exact hn
  | some g => exact ReusableStorage.appendOp hg hn

theorem tryStoreData [ReusableStorage S] (d : List UInt8) :
    CreatesAtMost k (inTarget (FuzzSocketCan.tryStoreData d) : Build S PUnit) := by
  intro w
  refine ⟨fun n hn => ?_, fun v => Nat.le_add_right _ _⟩
  dsimp only
  cases hg : GraphStorage.appendData w.target.storage d with
  | none => exact hn
  | some g => exact ReusableStorage.appendData hg hn

variable {f : β → Build S PUnit}

theorem forEach {bs : List β} {k : β → ValueTypeID → ℕ} (hf : ∀ b, CreatesAtMost (k b) (f b)) :
    CreatesAtMost (fun v => (bs.map fun b => k b v).sum) (FuzzSocketCan.Lib.forEach bs f) := by
  induction bs with
  | nil => exact pure _
  | cons b bs ih => exact (hf b).bind fun _ => ih

theorem forIter {it : Iter Panic β} {k : β → ValueTypeID → ℕ} (hf : ∀ b, CreatesAtMost (k b) (f b)) :
    CreatesAtMost (fun v => (it.items.map fun b => k b v).sum) (FuzzSocketCan.Lib.forIter it f) := by
  have hraise : CreatesAtMost (fun _ => 0) (raise it.stop : Build S PUnit) := by
    intro w
    cases it.stop <;> exact CreatedAtMost.refl _ w
  exact ((forEach hf).bind fun _ => hraise).mono fun v => le_refl _

theorem rename (op : GraphOp) :
    CreatesAtMost (fun v => created v [op.event]) (renameAndRelinkOpVal op : Build S UInt16) := by
  unfold renameAndRelinkOpVal
  cases op with
  | get u c =>
    refine (withState (S := S) (n := 0) fun s x => ?_).mono fun v => ?_
    · simp only [ValueState.takeOldAvailableInput, ends_bind]
      refine ends_mayPanic fun id x' _ => ends_orPanic_mayPanic fun r hr => ?_
      rw [ValueState.curId_takeNewInput hr]
      exact le_refl _
    · split <;> exact Nat.zero_le _
  | pass u c =>
    refine (withState (S := S) (n := 0) fun s x => ?_).mono fun v => ?_
    · simp only [ends_bind, ends_pure]
      exact ends_mayPanic fun id x' _ => le_refl _
    · split <;> exact Nat.zero_le _
  | set u c =>
    refine (withState (S := S) (n := 1) fun s x => ?_).mono fun v => ?_
    · exact ends_orPanic_mayPanic fun r hr => ValueState.curId_insertOldId hr
    · rcases eq_or_ne v u with rfl | hne
      · simp [created, GraphOp.event]
      · simp [hne]
  | node nt => exact pure _

variable [ReusableStorage S] {spec : GraphSpec}

theorem appendSlice (frag : List UInt16) :
    CreatesAtMost (fun v => created v ((opIter spec frag).items.map GraphOp.event))
      (FuzzSocketCan.appendSlice spec frag : Build S PUnit) := by
  refine (forIter fun op => (rename op).bind fun x => appendOp (k := fun _ => 0) x).mono fun v => ?_
  induction (opIter spec frag).items with
  | nil => exact le_refl _
  | cons op ops ih =>
    have hcons : created v (op.event :: ops.map GraphOp.event) =
        created v [op.event] + created v (ops.map GraphOp.event) :=
      created_append v [op.event] _
    rw [map_cons, sum_cons, map_cons, hcons]
    exact Nat.add_le_add_left ih _

theorem dropNodeAtStep (index : ℕ) (item : GraphNode × ℕ) :
    CreatesAtMost (fun v => created v ((opIter spec item.1.ops).items.map GraphOp.event))
      (FuzzSocketCan.dropNodeAtStep spec index item : Build S PUnit) := by
  refine ite ?_ (pure _)
  intro w
  refine (ite ?_ (pure _)) w
  exact ((appendSlice item.1.ops).bind fun _ => tryStoreData (k := fun _ => 0) item.1.data).mono
    fun v => le_refl _

end CreatesAtMost

end CreatesAtMost

/-! ## Dropping a node -/

section Dropping

variable {S : Type} [GraphStorage S] [LawfulGraphStorage S] [ReusableStorage S] {spec : GraphSpec}
  {w w' : World S} {frag : VecGraph}

def signature (spec : GraphSpec) (g : VecGraph) : List (NodeTypeID × List UInt8) :=
  (nodesOf spec g).items.map fun n => (n.id, n.data)

variable {node : GraphNode}

theorem GraphNode.HasOps.opIter_eq (h : node.HasOps spec) :
    opIter spec node.ops = .ofList (nodeOperations spec node) := by
  have hnodes : ∀ m ∈ [node], m.HasOps spec := by
    intro m hm
    rwa [mem_singleton.1 hm]
  simpa [opsOf] using opIter_chunks hnodes

def GraphSpec.creates (spec : GraphSpec) (v : ValueTypeID) (id : NodeTypeID) : ℕ :=
  match spec.getNode id with
  | some nType => nType.outputs.count v
  | none => 0

def GraphSpec.opCount (spec : GraphSpec) (id : NodeTypeID) : ℕ :=
  match spec.getNode id with
  | some nType => nType.size + 1
  | none => 0

theorem created_operands (v : ValueTypeID) {os : List Operand} {ids : List ConnectorID}
    (hlen : ids.length = os.length) :
    created v ((List.zipWith Operand.op os ids).map GraphOp.event) = os.count (.set v) := by
  induction os generalizing ids with
  | nil => rfl
  | cons o os ih =>
    obtain ⟨c, ids, rfl⟩ := exists_cons_of_length_eq_add_one hlen
    have ih := ih (Nat.succ_injective hlen)
    rw [zipWith_cons_cons, map_cons, count_cons, ← ih]
    cases o <;> simp [created, Operand.op, GraphOp.event, countP_cons]

theorem GraphNode.HasOps.created_eq (h : node.HasOps spec) (v : ValueTypeID) :
    created v ((nodeOperations spec node).map GraphOp.event) = spec.creates v node.id := by
  obtain ⟨nType, operands, hn, hops, hlen⟩ := h
  have hoperands := created_operands v (hlen.trans nType.length_operandList.symm)
  rw [NodeSpec.count_set_operandList] at hoperands
  rw [nodeOperations_eq hn hops, NodeSpec.operations_eq, map_cons, GraphSpec.creates, hn]
  exact hoperands

theorem GraphNode.HasOps.length_eq (h : node.HasOps spec) :
    node.ops.length = spec.opCount node.id := by
  obtain ⟨nType, operands, hn, hops, hlen⟩ := h
  rw [hops, length_cons, hlen, GraphSpec.opCount, hn]

variable {nodes : List GraphNode}

theorem created_eventsOf (h : ∀ n ∈ nodes, n.HasOps spec) (v : ValueTypeID) :
    created v (eventsOf spec nodes) = (nodes.map fun n => spec.creates v n.id).sum := by
  induction nodes with
  | nil => rfl
  | cons n ns ih =>
    have hsplit : eventsOf spec (n :: ns) = eventsOf spec [n] ++ eventsOf spec ns :=
      eventsOf_append spec [n] ns
    rw [hsplit, created_append, map_cons, sum_cons,
      ih fun m hm => h m (mem_cons_of_mem _ hm), eventsOf, flatMap_singleton,
      (h n mem_cons_self).created_eq]

theorem length_opsOf (h : ∀ n ∈ nodes, n.HasOps spec) :
    (opsOf nodes).length = (nodes.map fun n => spec.opCount n.id).sum := by
  rw [opsOf, length_flatMap]
  congr 1
  exact map_congr_left fun n hn => (h n hn).length_eq

theorem map_place (i : ℕ) (nodes : List GraphNode) :
    ((place i nodes).map fun n => (n.id, n.data)) = nodes.map fun n => (n.id, n.data) := by
  induction nodes generalizing i with
  | nil => rfl
  | cons n ns ih => rw [place, map_cons, map_cons, ih]

theorem sum_le_of_sublist (f : NodeTypeID → ℕ) {ns ms : List GraphNode}
    (h : (ns.map fun n => (n.id, n.data)).Sublist (ms.map fun n => (n.id, n.data))) :
    (ns.map fun n => f n.id).sum ≤ (ms.map fun n => f n.id).sum := by
  have hsub := h.map fun p => f p.1
  rw [map_map, map_map] at hsub
  exact hsub.sum_le_sum fun _ _ => Nat.zero_le _

structure Dropped (spec : GraphSpec) (w : World S) (done made : List GraphNode) : Prop where
  building : Building spec w made
  whole : ∀ n ∈ made, n.IsNode spec
  sublist : (made.map fun n => (n.id, n.data)).Sublist (done.map fun n => (n.id, n.data))

variable {done made : List GraphNode}

omit [ReusableStorage S] in
theorem Dropped.copied (h : Dropped spec w done made) (hnode : node.IsNode spec)
    (hc : Copied spec made node (· = node.data) w w') :
    ∃ made', Dropped spec w' (done ++ [node]) made' := by
  rcases hc with rfl | ⟨node', hid, hdata, hbuilding, -⟩
  · refine ⟨made, h.building, h.whole, h.sublist.trans ?_⟩
    rw [map_append]
    exact sublist_append_left _ _
  · refine ⟨made ++ [node'], hbuilding, ?_, ?_⟩
    · intro n hn
      rcases mem_append.1 hn with hn | hn
      · exact h.whole n hn
      · rw [mem_singleton.1 hn]
        obtain ⟨nType, operands, htype, hops, hlen⟩ := hbuilding.shape node' (by simp)
        exact ⟨nType, operands, htype, hops, hlen, hdata ▸ hnode.encodes (hid ▸ htype)⟩
    · rw [map_append, map_append, map_singleton, map_singleton, hid, hdata]
      exact h.sublist.append_right _

variable {n : ℕ}

theorem Dropped.room {rest : List GraphNode} (h : Dropped spec w done made)
    (hnodes : ∀ m ∈ done ++ node :: rest, m.IsNode spec)
    (hfits : (opsOf (done ++ node :: rest)).length ≤ n) (hlarge : LargeEnough w.target.storage n 0) :
    Room w.target.storage node.ops.length 0 := by
  refine ReusableStorage.room_of_largeEnough hlarge h.building.room ?_
  have hmade : (opsOf made).length ≤ (opsOf done).length := by
    rw [length_opsOf fun m hm => (h.whole m hm).hasOps,
      length_opsOf fun m hm => (hnodes m (mem_append_left _ hm)).hasOps]
    exact sum_le_of_sublist _ h.sublist
  rw [show opsAsSlice w.target.storage = opsOf made from h.building.ops]
  rw [opsOf_append, opsOf_cons, length_append, length_append] at hfits
  omega

variable {index : ℕ}

theorem ends_dropNodeAt_dropped (hfrag : (nodesOf spec frag).stop = none)
    (hfits : frag.ops.length ≤ n) (hlarge : LargeEnough w.target.storage n 0) :
    Ends (dropNodeAt spec frag index) w
      (fun _ w' => ∃ made, Dropped spec w' (nodesOf spec frag).items made) outOfIds := by
  obtain ⟨g, hg, hroom⟩ := id hlarge
  have hnodes : ∀ m ∈ (nodesOf spec frag).items, m.IsNode spec := fun m hm =>
    isNode_of_mem_nodeIter hm
  rw [(nodesOf_items_eq_place hfrag).2] at hfits
  rw [dropNodeAt, ends_bind]
  have hstart := (ends_start_none spec w outOfIds).of_ok (start_none_run hg)
  refine ends_of_ok (start_none_run hg) ?_
  -- `done` are the nodes the loop has seen, `rest` those still to come
  let I : List (GraphNode × ℕ) → World S → Prop := fun rest w' =>
    ∃ done made, done ++ rest.map Prod.fst = (nodesOf spec frag).items ∧
      Dropped spec w' done made ∧ LargeEnough w'.target.storage n 0
  refine (ends_forIter (I := I) hfrag ⟨[], [], ?_, ⟨hstart.1, by simp, by simp⟩,
    ReusableStorage.truncateTo hg hlarge⟩ ?_).weaken ?_
  · simp [Iter.enumerate]
  · rintro ⟨node, i⟩ rest w1 ⟨done, made, hsplit, hdropped, hlarge1⟩
    rw [← hsplit] at hnodes hfits
    have hnode : node.IsNode spec := hnodes node (by simp)
    have hstep : Ends (dropNodeAtStep spec index (node, i)) w1 _ _ :=
      ends_dropNodeAtStep index hdropped.building hnode (hdropped.room hnodes hfits hlarge1)
    refine (hstep.and (CreatesAtMost.dropNodeAtStep index (node, i) w1)).mono ?_ fun _ _ h => h.1
    rintro _ w2 ⟨hcopied, hcreated⟩
    obtain ⟨made', hmade'⟩ := hdropped.copied hnode hcopied
    exact ⟨done ++ [node], made', by simpa using hsplit, hmade', hcreated.large n hlarge1⟩
  · rintro _ w2 ⟨done, made, hsplit, hdropped, -⟩
    rw [map_nil, append_nil] at hsplit
    exact ⟨made, hsplit ▸ hdropped⟩

theorem ends_dropNodeAt_createdAtMost :
    Ends (dropNodeAt spec frag index) w
      (fun _ w' => (∀ n, LargeEnough w.target.storage n 0 → LargeEnough w'.target.storage n 0) ∧
        ∀ v, w'.lastId v ≤ created v (eventsOf spec (nodesOf spec frag).items))
      (fun _ w' => ∀ v, w'.lastId v ≤ created v (eventsOf spec (nodesOf spec frag).items)) := by
  obtain ⟨g, hg, -⟩ := LawfulGraphStorage.truncateTo_zero_spec w.target.storage
  rw [dropNodeAt, ends_bind]
  refine ends_of_ok (start_none_run hg) ?_
  have hzero : ∀ v, World.lastId (S := S) ⟨w.state.clear, { w.target with storage := g }⟩ v = 0 :=
    fun v => (Tracks.clear w.state).curId v
  have hsum : ∀ v, ((nodesOf spec frag).enumerate.items.map fun item : GraphNode × ℕ =>
      created v ((opIter spec item.1.ops).items.map GraphOp.event)).sum =
        created v (eventsOf spec (nodesOf spec frag).items) := by
    intro v
    have hops : ∀ m ∈ (nodesOf spec frag).items, m.HasOps spec := fun m hm =>
      (isNode_of_mem_nodeIter hm).hasOps
    have hfst : (nodesOf spec frag).enumerate.items.map Prod.fst = (nodesOf spec frag).items := by
      simp [Iter.enumerate]
    rw [created_eventsOf hops, ← hfst, map_map]
    congr 1
    refine map_congr_left fun item hitem => ?_
    have hmem : item.1 ∈ (nodesOf spec frag).items := hfst ▸ mem_map_of_mem hitem
    rw [(hops _ hmem).opIter_eq]
    exact (hops _ hmem).created_eq v
  have hloop : CreatesAtMost (fun v => created v (eventsOf spec (nodesOf spec frag).items))
      (forIter (nodesOf spec frag).enumerate (dropNodeAtStep spec index) : Build S PUnit) :=
    (CreatesAtMost.forIter fun item => CreatesAtMost.dropNodeAtStep index item).mono fun v => (hsum v).le
  have hids : ∀ {w' : World S},
      CreatedAtMost (fun v => created v (eventsOf spec (nodesOf spec frag).items))
      ⟨w.state.clear, { w.target with storage := g }⟩ w' →
        ∀ v, w'.lastId v ≤ created v (eventsOf spec (nodesOf spec frag).items) := by
    intro w' h v
    have := h.ids v
    rwa [hzero, zero_add] at this
  refine (hloop _).mono (fun _ w' h => ⟨fun n hn => ?_, hids h⟩) fun _ w' h => hids h
  exact h.large n (ReusableStorage.truncateTo hg hn)

theorem ends_dropNodeAt_wellFormed (hfrag : WellFormedSource spec frag)
    (hfits : frag.ops.length ≤ n) (hlarge : LargeEnough w.target.storage n 0) :
    Ends (dropNodeAt spec frag index) w
      (fun _ w' => (∃ made, Dropped spec w' (nodesOf spec frag).items made) ∧
        LargeEnough w'.target.storage n 0) never := by
  refine ((ends_dropNodeAt_dropped hfrag.parses hfits hlarge).and
    ends_dropNodeAt_createdAtMost).mono ?_ ?_
  · rintro _ w' ⟨hdropped, hkept, -⟩
    exact ⟨hdropped, hkept n hlarge⟩
  · rintro _ w' ⟨houtOfIds, hids⟩
    refine absurd (fun v => lt_of_le_of_lt (hids v) ?_) houtOfIds
    have hfew := hfrag.few v
    rwa [hfrag.operations] at hfew

omit [ReusableStorage S] in
theorem Dropped.wellFormedSource (hfrag : WellFormedSource spec frag)
    (h : Dropped spec w (nodesOf spec frag).items made) :
    WellFormedSource spec (asVecGraph w.target.storage) ∧
      signature spec (asVecGraph w.target.storage) = made.map fun n => (n.id, n.data) := by
  have hgraph : asVecGraph w.target.storage = ⟨opsOf made, dataOf made⟩ := by
    rw [asVecGraph, show opsAsSlice w.target.storage = opsOf made from h.building.ops,
      show dataAsSlice w.target.storage = dataOf made from h.building.data]
  have hnodes : nodesOf spec (⟨opsOf made, dataOf made⟩ : VecGraph) = .ofList (place 0 made) :=
    nodeIter_chunks h.whole
  have hops : operationsOf spec (⟨opsOf made, dataOf made⟩ : VecGraph) =
      .ofList (made.flatMap (nodeOperations spec)) := opIter_chunks h.building.shape
  rw [hgraph]
  refine ⟨⟨by rw [hnodes]; rfl, ?_, ?_⟩, ?_⟩
  · rw [hops]
    exact h.building.tracks.linear.reusing
  · intro v
    have hfew := hfrag.few v
    rw [hfrag.operations] at hfew
    rw [hops]
    refine lt_of_le_of_lt ?_ hfew
    show created v (eventsOf spec made) ≤ created v (eventsOf spec (nodesOf spec frag).items)
    have hsource : ∀ m ∈ (nodesOf spec frag).items, m.HasOps spec := fun m hm =>
      (isNode_of_mem_nodeIter hm).hasOps
    rw [created_eventsOf h.building.shape, created_eventsOf hsource]
    exact sum_le_of_sublist _ h.sublist
  · rw [signature, hnodes]
    exact map_place 0 made

omit [ReusableStorage S] in
theorem Dropped.length_ops_le (hfrag : WellFormedSource spec frag)
    (h : Dropped spec w (nodesOf spec frag).items made) :
    (asVecGraph w.target.storage).ops.length ≤ frag.ops.length := by
  have hsource : ∀ m ∈ (nodesOf spec frag).items, m.HasOps spec := fun m hm =>
    (isNode_of_mem_nodeIter hm).hasOps
  have hops : frag.ops = opsOf (nodesOf spec frag).items :=
    (nodesOf_items_eq_place hfrag.parses).2
  calc (asVecGraph w.target.storage).ops.length
      = (opsOf made).length := congrArg length h.building.ops
    _ = (made.map fun n => spec.opCount n.id).sum := length_opsOf h.building.shape
    _ ≤ ((nodesOf spec frag).items.map fun n => spec.opCount n.id).sum :=
        sum_le_of_sublist _ h.sublist
    _ = frag.ops.length := by rw [hops, length_opsOf hsource]

end Dropping

/-! ## The whole loop -/

section Loop

variable {S S₁ τ : Type} [GraphStorage S] [LawfulGraphStorage S] [ReusableStorage S]
  [GraphStorage S₁] {spec : GraphSpec} {frag : VecGraph} {w : World S} {n : ℕ}

structure MinimizedFrom (spec : GraphSpec) (frag : VecGraph) (m : Minimizing τ) : Prop where
  accepted : m.minGraph = frag ∨ (m.minGraph, true) ∈ m.shown
  wellFormed : WellFormedSource spec m.minGraph
  sublist : (signature spec m.minGraph).Sublist (signature spec frag)
  fits : m.minGraph.ops.length ≤ frag.ops.length

variable {tester : τ → S → Bool × τ}

theorem ends_minimizeStep {m : Minimizing τ} {idx : ℕ} (hm : MinimizedFrom spec frag m)
    (hfits : frag.ops.length ≤ n) (hlarge : LargeEnough w.target.storage n 0) :
    Ends (minimizeStep spec tester m idx) w
      (fun m' w' => MinimizedFrom spec frag m' ∧ LargeEnough w'.target.storage n 0) never := by
  rw [minimizeStep]
  refine (ends_dropNodeAt_wellFormed hm.wellFormed (hm.fits.trans hfits) hlarge).bind ?_
  rintro _ w' ⟨⟨made, hmade⟩, hlarge'⟩
  refine ⟨?_, hlarge'⟩
  have hsmaller := hmade.wellFormedSource hm.wellFormed
  -- the tester's answer decides which of the two graphs is kept
  cases hanswer : (tester m.tester w'.target.storage).1 with
  | false =>
    refine ⟨?_, hm.wellFormed, hm.sublist, hm.fits⟩
    exact hm.accepted.imp_right fun h => mem_append_left _ h
  | true =>
    refine ⟨Or.inr (by simp), hsmaller.1, ?_, (hmade.length_ops_le hm.wellFormed).trans hm.fits⟩
    rw [if_pos rfl, hsmaller.2]
    exact hmade.sublist.trans hm.sublist

theorem ends_minimizeSteps (indices : List ℕ) {m : Minimizing τ} (hm : MinimizedFrom spec frag m)
    (hfits : frag.ops.length ≤ n) (hlarge : LargeEnough w.target.storage n 0) :
    Ends (indices.foldlM (minimizeStep spec tester) m) w
      (fun m' _ => MinimizedFrom spec frag m') never := by
  induction indices generalizing m w with
  | nil => exact hm
  | cons idx indices ih =>
    rw [foldlM_cons]
    refine (ends_minimizeStep hm hfits hlarge).bind ?_
    rintro m' w' ⟨hm', hlarge'⟩
    exact ih hm' hlarge'

/-- **`minimize` shrinks a graph by whole nodes**, for every tester. -/
theorem minimize_wellFormed (spec : GraphSpec) (source : S₁) (tester : τ → S → Bool × τ) (t : τ)
    (w : World S) (hsource : WellFormedSource spec (asVecGraph source))
    (hlarge : LargeEnough w.target.storage (opsAsSlice source).length 0) :
    ∃ res w', minimize spec source tester t w = .ok res w' ∧
      (res.minGraph = asVecGraph source ∨ (res.minGraph, true) ∈ res.shown) ∧
      WellFormedSource spec res.minGraph ∧
      (signature spec res.minGraph).Sublist (signature spec (asVecGraph source)) := by
  have hcount : nodeLen spec source = .ok (nodesOf spec source).items.length := by
    have hstop : (nodesOf spec source).stop = none := hsource.parses
    rw [nodeLen, hstop]
  have hstart : MinimizedFrom spec (asVecGraph source) (⟨asVecGraph source, t, []⟩ : Minimizing τ) :=
    ⟨Or.inl rfl, hsource, List.Sublist.refl _, le_refl _⟩
  have hends : Ends (minimize spec source tester t) w
      (fun m' _ => MinimizedFrom spec (asVecGraph source) m') never := by
    rw [minimize, ends_bind, hcount, ends_orPanic_ok]
    exact ends_minimizeSteps _ hstart (le_refl _) hlarge
  obtain ⟨res, w', hrun, hres⟩ := hends.result
  exact ⟨res, w', hrun, hres.accepted, hres.wellFormed, hres.sublist⟩

def smaller (best : ℕ) (g : RefGraph) : Bool × ℕ :=
  if (opsAsSlice g).length < best then (true, (opsAsSlice g).length) else (false, best)

theorem minimize_wellFormed_openSend :
    (resultOf (minimize connectionSpec openSend smaller 4 (World.buffers 4 4 []))).map
        (fun res => (res.minGraph, res.shown.length)) = some (⟨[], []⟩, 2) ∧
    ∃ res w', minimize connectionSpec openSend smaller 4 (World.buffers 4 4 []) = .ok res w' ∧
      (res.minGraph = asVecGraph openSend ∨ (res.minGraph, true) ∈ res.shown) ∧
      WellFormedSource connectionSpec res.minGraph ∧
      (signature connectionSpec res.minGraph).Sublist
        (signature connectionSpec (asVecGraph openSend)) :=
  ⟨by decide +kernel, minimize_wellFormed connectionSpec openSend smaller 4 _ openSend_wellFormed
    (largeEnough_refGraph.2 (by decide +kernel))⟩

end Loop

end FuzzSocketCan
