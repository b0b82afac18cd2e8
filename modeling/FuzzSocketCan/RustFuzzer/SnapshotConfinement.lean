import FuzzSocketCan.RustFuzzer.SnapshotCutoffs
import FuzzSocketCan.StructuredFuzzer.SnapshotOps

/-! # Where snapshot ops are

The payload memory of a thread carries the op that takes a snapshot from `prepare_snapshot` into
the runs that follow.

* **`FuzzSystem.Plain`** — as long as the imported graphs have no snapshot ops and no payload fills
  the storage, the inputs have none either, and a thread that mutates on top of a snapshot has
  plain ops below it.
* **`snapshotOps_confined`** — snapshot ops occur only at the end of the payloads of
  `run_create_snapshot`. -/

namespace FuzzSocketCan

open Lib List Option Function GraphStorage FuzzSystem RefGraph Fuzzer

variable {spec : GraphSpec}

/-! ## Runs of the target -/

inductive RunKind
  | test
  | cfg
  | redqueen
  | createSnapshot
  deriving DecidableEq, Repr

structure Payload where
  kind : RunKind
  storage : RefGraph
  deriving DecidableEq, Repr

def Payload.NotFull (p : Payload) : Prop := GraphStorage.opsAvailable p.storage ≠ 0

instance : DecidablePred Payload.NotFull := fun p =>
  inferInstanceAs (Decidable (GraphStorage.opsAvailable p.storage ≠ 0))

/-- **What a payload may contain**: to create a snapshot, one op that takes it, at the end;
otherwise none. All ops can be read. -/
def Payload.Confined (spec : GraphSpec) (p : Payload) : Prop :=
  ∃ ops, (∀ op ∈ ops, op.takesSnapshot spec = false) ∧
    match p.kind with
    | .createSnapshot => ∃ last, last.takesSnapshot spec = true ∧
        operationsOf spec p.storage = .ofList (ops ++ [last])
    | .test | .cfg | .redqueen => operationsOf spec p.storage = .ofList ops

namespace Fuzzer

def runPayloads (f : Build RefGraph MutationStrategy) (run : RunOutcome) (s : Fuzzer) :
    List Payload :=
  match f (s.setSeed run.seed).world with
  | .ok _ w => [⟨.test, w.target.storage⟩]
  | .error _ _ => []

def schedulePayloads (spec : GraphSpec) (placement : SnapshotPlacement) (id : InputID)
    (s : Fuzzer) : List Payload :=
  match beginIter spec placement id true s with
  | .ok (.havoc h) s' =>
    if h.snapshot.prefixGraphState.isSome then [⟨.createSnapshot, s'.world.target.storage⟩] else []
  | _ => []

def storePayloads (spec : GraphSpec) (g : MinInput) (s : Fuzzer) : List Payload :=
  match addInput spec g .havoc s with
  | .ok (some _) s' =>
    let cfg := copyFrom s'.world.target.storage g.data
    [⟨.cfg, cfg⟩, ⟨.redqueen, copyFrom cfg g.data⟩]
  | _ => []

end Fuzzer

/-- **The runs of the target in a step.** -/
def FuzzSystem.payloads {T : Type} (spec : GraphSpec) (placement : T → SnapshotPlacement)
    (s : FuzzSystem T) : FuzzAction T → List Payload
  | .generate t run =>
    match s.phase t, s.inputs with
    | .idle, [] =>
      Fuzzer.runPayloads (do generate spec 15 .none; pure .generate) run (s.fuzzer t)
    | _, _ => []
  | .importFile t orig seedImport run =>
    match s.phase t with
    | .idle => Fuzzer.runPayloads (do
        copyAll spec orig
        pure (if seedImport then .seedImport else .import')) run (s.fuzzer t)
    | _ => []
  | .schedule t id _ =>
    match s.phase t with
    | .idle => Fuzzer.schedulePayloads spec (placement t) id (s.fuzzer t)
    | _ => []
  | .minimizeRun t i first last _ run =>
    match s.phase t with
    | .minimizing _ _ graphs =>
      match graphs[i]? with
      | some g => Fuzzer.runPayloads (do dropRange spec g.data first last; pure .minimize) run
          (s.fuzzer t)
      | none => []
    | _ => []
  | .endMinimize _ => []
  | .storeMinimized t _ =>
    match s.phase t with
    | .storing _ (g :: _) => Fuzzer.storePayloads spec g (s.fuzzer t)
    | _ => []
  | .havocRun t run =>
    match s.phase t with
    | .havoc h => Fuzzer.runPayloads ((h.nextCall s.inputs).run spec) run (s.fuzzer t)
    | _ => []

def FuzzAction.ImportsPlain {T : Type} (spec : GraphSpec) : FuzzAction T → Prop
  | .importFile _ orig _ _ => SnapshotFree spec orig.ops
  | _ => True

instance {T : Type} : ∀ a : FuzzAction T, Decidable (a.ImportsPlain spec)
  | .importFile _ orig _ _ =>
    inferInstanceAs (Decidable (∀ op ∈ (opIter spec orig.ops).items, op.takesSnapshot spec = false))
  | .generate .. => isTrue trivial
  | .schedule .. => isTrue trivial
  | .minimizeRun .. => isTrue trivial
  | .endMinimize _ => isTrue trivial
  | .storeMinimized .. => isTrue trivial
  | .havocRun .. => isTrue trivial

/-! ## Payloads of plain ops -/

theorem Payload.NotFull.lt {p : Payload} (h : p.NotFull) :
    p.storage.opsI < p.storage.ops.length := Nat.lt_of_sub_ne_zero h

theorem confined_of_plainOps {p : Payload} (hkind : p.kind ≠ .createSnapshot)
    (h : PlainOps spec (opsAsSlice p.storage)) : p.Confined spec := by
  obtain ⟨ops, hread, hops⟩ := h.opIter_eq
  refine ⟨ops, hops, ?_⟩
  split
  · contradiction
  all_goals exact hread

variable {g : RefGraph}

theorem confined_createSnapshot {xs : List UInt16} {id : NodeTypeID} (h : PlainOps spec xs)
    (hid : spec.snapshotNodeId = some id) (hops : opsAsSlice g = xs ++ [id]) :
    Payload.Confined spec ⟨.createSnapshot, g⟩ := by
  obtain ⟨nType, hmem, rfl, hname, hsize⟩ := spec.snapshot_ok id hid
  obtain ⟨ops, hplain, hread⟩ := h.opIter_append
  have hn : spec.getNode nType.id = some nType := spec.getNode_of_mem hmem
  refine ⟨ops, hplain, .node nType.id, ?_, ?_⟩
  · rw [GraphOp.takesSnapshot, hn, any_some, NodeSpec.takesSnapshot, hname]
    rfl
  · have hlast : opIter spec [nType.id] = .ofList [.node nType.id] := by
      have hlen : ([] : List UInt16).length = nType.size := hsize.symm
      have := opIter_node hn hlen []
      rwa [append_nil, opIter_nil, Iter.prepend_ofList, append_nil,
        NodeSpec.operations, zipWith_nil_right] at this
    rw [operationsOf, hops, hread, hlast, Iter.prepend_ofList]

theorem opsAsSlice_emitAll {xs : List UInt16} (h : (emitAll g xs).opsI < (emitAll g xs).ops.length) :
    opsAsSlice (emitAll g xs) = opsAsSlice g ++ xs := by
  -- from the last op, since the storage was not full before it either
  induction xs using reverseRecOn with
  | nil => exact (append_nil _).symm
  | append_singleton xs x ih =>
    have hsnoc : emitAll g (xs ++ [x]) = emit (emitAll g xs) x := foldl_append
    rw [hsnoc] at h ⊢
    by_cases hlt : (emitAll g xs).opsI < (emitAll g xs).ops.length
    · rw [emit_of_lt hlt, ← append_assoc, ← ih hlt]
      exact take_set_succ x hlt
    · rw [emit_of_full hlt] at h
      exact absurd h hlt

theorem opsAsSlice_copyFrom {graph : VecGraph}
    (h : (copyFrom g graph).opsI < (copyFrom g graph).ops.length) :
    opsAsSlice (copyFrom g graph) = graph.ops := by
  -- the data does not touch the ops
  have hdata : ∀ (g : RefGraph) (d : List UInt8),
      ((appendData g d).getD g).ops = g.ops ∧
        ((appendData g d).getD g).opsI = g.opsI := by
    intro g d
    cases hd : appendData g d with
    | none => exact ⟨rfl, rfl⟩
    | some g' =>
      obtain ⟨-, rfl⟩ := appendData_eq_some.1 hd
      exact ⟨rfl, rfl⟩
  have hcopy : (copyFrom g graph).ops = (emitAll (clear g) graph.ops).ops ∧
      (copyFrom g graph).opsI = (emitAll (clear g) graph.ops).opsI := hdata _ _
  rw [hcopy.1, hcopy.2] at h
  rw [opsAsSlice_eq, hcopy.1, hcopy.2]
  exact opsAsSlice_emitAll h

/-! ## What a thread works on -/

def PlainInputs (spec : GraphSpec) (inputs : List QueueEntry) : Prop :=
  ∀ e ∈ inputs, PlainOps spec e.input.data.ops

def FuzzPhase.Plain (spec : GraphSpec) (w : World RefGraph) : FuzzPhase → Prop
  | .idle | .panicked => True
  | .minimizing _ _ graphs | .storing _ graphs => ∀ g ∈ graphs, PlainOps spec g.data.ops
  | .havoc h => PlainOps spec h.entry.input.data.ops ∧ PlainFront spec h.snapshot w

def EntersPlain (spec : GraphSpec) (p : FuzzPhase) (s : Fuzzer) : Prop :=
  PlainInputs spec s.inputs ∧ p.Plain spec s.world

theorem PlainOps.graph {g : VecGraph} (h : PlainOps spec g.ops) : PlainGraph spec g := by
  obtain ⟨items, hread, hitems⟩ := h.opIter_eq
  refine SnapshotFree.plain ?_
  rw [SnapshotFree, hread]
  exact hitems

variable {inputs : List QueueEntry}

theorem PlainInputs.modify (h : PlainInputs spec inputs) (id : InputID)
    {f : QueueEntry → QueueEntry} (hf : ∀ e, (f e).input = e.input) :
    PlainInputs spec (inputs.modify id f) := by
  intro e he
  obtain ⟨k, hk⟩ := List.mem_iff_getElem?.1 he
  rw [List.getElem?_modify, Option.map_eq_map, Option.map_eq_some_iff] at hk
  obtain ⟨e0, he0, rfl⟩ := hk
  have hplain := h e0 (List.mem_of_getElem? he0)
  split
  · rw [hf]
    exact hplain
  · exact hplain

theorem PlainInputs.queue (h : PlainInputs spec inputs) :
    PlainQueue spec (sampleForSplicing inputs) := by
  intro x
  rw [sampleForSplicing, ends_bind]
  refine ends_mayPanic fun i x' _ => ?_
  rw [ends_bind]
  refine ends_unwrap_mayPanic fun entry hentry => ?_
  exact (h entry (mem_of_getElem? hentry)).graph

namespace Fuzzer

variable {s : Fuzzer} {h : Havoc} {entry : QueueEntry} {f : Build RefGraph MutationStrategy}
  {run : RunOutcome} {k : ℕ} {front : List UInt16}

/-! ## One run -/

def LeavesPlain (spec : GraphSpec) (k : ℕ) (front : List UInt16)
    (f : Build RefGraph MutationStrategy) (run : RunOutcome) (s : Fuzzer) : Prop :=
  Ends f (s.setSeed run.seed).world (fun _ w => Holding k front (PlainOps spec) w) mayPanic

theorem LeavesPlain.payloads (hf : LeavesPlain spec k front f run s)
    (hroom : ∀ p ∈ runPayloads f run s, p.NotFull) :
    ∀ p ∈ runPayloads f run s, p.Confined spec := by
  intro p hp
  have hlt := (hroom p hp).lt
  rw [runPayloads] at hp
  split at hp
  case h_1 strategy w hrun =>
    obtain rfl := mem_singleton.1 hp
    exact confined_of_plainOps (by simp) ((hf.of_ok hrun).ops hlt)
  case h_2 => cases hp

theorem plainInputs_addInput (hs : PlainInputs spec s.inputs) {input : MinInput}
    (hinput : PlainOps spec input.data.ops) (state : InputState) :
    Ends (addInput spec input state) s
      (fun _ s' => PlainInputs spec s'.inputs ∧ s'.world = s.world)
      (fun _ s' => PlainInputs spec s'.inputs) := by
  rw [addInput, ends_bind]
  refine ends_check (fun _ => ?_) fun _ => hs
  rw [ends_bind]
  cases input.data.nodeLen spec with
  | error e => exact hs
  | ok n =>
    refine ends_ite (fun _ => ⟨hs, rfl⟩) fun _ => ends_ite (fun _ => ?_) fun _ => ⟨hs, rfl⟩
    refine ⟨fun e he => ?_, rfl⟩
    rcases mem_append.1 he with he | he
    · exact hs e he
    · obtain rfl := mem_singleton.1 he
      exact hinput

theorem plainInputs_storeFind (hs : PlainInputs spec s.inputs) (hw : PlainOps spec s.world.ops)
    (strategy : MutationStrategy) (info : TestInfo) (reasons : List StorageReason) :
    Ends (storeFind spec strategy info run reasons) s
      (fun _ s' => PlainInputs spec s'.inputs ∧ s'.world = s.world)
      (fun _ s' => PlainInputs spec s'.inputs) := by
  rw [storeFind, ends_bind, ends_get, ends_bind]
  cases (asVecGraph s.world.target.storage).nodeLen spec with
  | error e => exact hs
  | ok n =>
    refine ends_ite (fun _ => ⟨hs, rfl⟩) fun _ => ?_
    refine (plainInputs_addInput hs ?_ .minimize).bind ?_
    · exact hw
    · rintro (_ | newId) s1 hs1
      · exact hs1
      · exact hs1

theorem plainInputs_performRun (hs : PlainInputs spec s.inputs)
    (hf : LeavesPlain spec k front f run s) (hroom : ∀ p ∈ runPayloads f run s, p.NotFull) :
    Ends (performRun spec f run) s
      (fun _ s' => PlainInputs spec s'.inputs ∧ s'.world.target.storage.ops.take k = front ∧
        PlainOps spec s'.world.ops)
      (fun _ s' => PlainInputs spec s'.inputs) := by
  -- the storage is the one that was observed
  have hpayload : Ends f (s.setSeed run.seed).world (fun _ w =>
      w.target.storage.ops.take k = front ∧ PlainOps spec w.ops) mayPanic := by
    refine ends_mayPanic fun strategy w hrun => ?_
    have hw := hf.of_ok hrun
    have hmem : ⟨.test, w.target.storage⟩ ∈ runPayloads f run s := by
      rw [runPayloads, hrun]
      exact mem_singleton.2 rfl
    exact ⟨hw.front, hw.ops (hroom _ hmem).lt⟩
  rw [performRun, ends_bind, ends_modify, ends_bind, withMutator, ends_focus]
  refine hpayload.mono (fun strategy w hw => ?_) fun _ _ _ => hs
  split
  · exact ⟨hs, hw⟩
  · exact ⟨hs, hw⟩
  · refine (plainInputs_storeFind (s := { s.setSeed run.seed with world := w }) hs hw.2 strategy
      _ _).bind fun _ s' hs' => ?_
    refine ⟨hs'.1, ?_⟩
    rw [hs'.2]
    exact hw

/-! ## Mutations -/

theorem plainInputs_updateItersNoFinds (hs : PlainInputs spec s.inputs) (id : InputID)
    (hasNewFinds : Bool) :
    Ends (updateItersNoFinds id hasNewFinds) s (fun _ s' => PlainInputs spec s'.inputs)
      (fun _ s' => PlainInputs spec s'.inputs) := by
  rw [updateItersNoFinds, ends_bind, ends_get, ends_bind]
  cases s.inputs[id]? with
  | none => exact hs
  | some e =>
    exact hs.modify id fun _ => rfl

theorem plainInputs_finishHavoc (hs : PlainInputs spec s.inputs) (h : Havoc) :
    Ends (finishHavoc h) s (fun p s' => PlainInputs spec s'.inputs ∧ p = .idle)
      (fun _ s' => PlainInputs spec s'.inputs) := by
  unfold finishHavoc
  cases h.cutoffs with
  | none => exact ⟨hs, rfl⟩
  | some c =>
    refine (plainInputs_updateItersNoFinds hs _ _).bind fun n s1 hs1 => ?_
    exact ends_ite (fun _ => ⟨hs1, rfl⟩) fun _ => ⟨hs1, rfl⟩

theorem leavesPlain_nextCall (hs : PlainInputs spec s.inputs)
    (hh : (FuzzPhase.havoc h).Plain spec s.world) :
    LeavesPlain spec h.snapshot.skipOps (s.world.target.storage.ops.take h.snapshot.skipOps)
      ((h.nextCall s.inputs).run spec) run s :=
  endsPlain_mutate (w := (s.setSeed run.seed).world) hh.2 hh.1.graph hs.queue

theorem entersPlain_havocRun (hs : PlainInputs spec s.inputs)
    (hh : (FuzzPhase.havoc h).Plain spec s.world)
    (hroom : ∀ p ∈ runPayloads ((h.nextCall s.inputs).run spec) run s, p.NotFull) :
    Ends (havocRun spec h run) s (EntersPlain spec) (fun _ s' => PlainInputs spec s'.inputs) := by
  have hrun := plainInputs_performRun (s := { s with calls := s.calls ++ [h.nextCall s.inputs] })
    hs (leavesPlain_nextCall hs hh) hroom
  rw [havocRun, ends_bind, performHavoc, ends_bind, ends_get, ends_bind, ends_set]
  refine hrun.bind fun res s1 hs1 => ?_
  refine ends_ite (fun _ => ?_) fun _ => ⟨hs1.1, hh.1, ?_⟩
  · apply (plainInputs_finishHavoc hs1.1 _).weaken
    rintro _ s2 ⟨hs2, rfl⟩
    exact ⟨hs2, trivial⟩
  · rw [PlainFront, hs1.2.1]
    exact hh.2

end Fuzzer

/-! ## Snapshots -/

def FuzzPhase.Prepared (spec : GraphSpec) (created : Bool) (w : World RefGraph) : FuzzPhase → Prop
  | .havoc h => PlainOps spec h.entry.input.data.ops ∧ (h.snapshot = .none ∨ created = true ∧
      h.snapshot.prefixGraphState.isSome ∧
        (w.target.storage.opsI < w.target.storage.ops.length →
          PlainFront spec h.snapshot w ∧ ∃ id, spec.snapshotNodeId = some id ∧
            w.ops = w.target.storage.ops.take h.snapshot.skipOps ++ [id]))
  | p => p.Plain spec w

def EntersPrepared (spec : GraphSpec) (created : Bool) (p : FuzzPhase) (s : Fuzzer) : Prop :=
  PlainInputs spec s.inputs ∧ p.Prepared spec created s.world

namespace Fuzzer

variable {s : Fuzzer} {entry : QueueEntry} {placement : SnapshotPlacement} {id : InputID}

theorem entersPrepared_havocNoSnap (hs : PlainInputs spec s.inputs)
    (hentry : PlainOps spec entry.input.data.ops) (created : Bool) :
    EntersPrepared spec created (havocNoSnap entry) s := ⟨hs, hentry, .inl rfl⟩

theorem entersPrepared_havocWithSnap (hs : PlainInputs spec s.inputs)
    (hentry : PlainOps spec entry.input.data.ops) (cutoff : ℕ) (created : Bool)
    (cutoffs : Option (ℕ × ℕ)) :
    Ends (havocWithSnap spec entry cutoff created cutoffs) s (EntersPrepared spec created)
      (fun _ s' => PlainInputs spec s'.inputs) := by
  rw [havocWithSnap, ends_bind, withMutator, ends_focus]
  refine (ends_prepareSnapshot_plain hentry.graph cutoff).mono (fun snapshot w hw => ?_)
    fun _ _ _ => hs
  refine ends_ite (fun hcreated => ⟨hs, hentry, .inr ⟨hcreated, hw⟩⟩) fun _ => ?_
  -- without a snapshot there is nothing to do
  apply (plainInputs_finishHavoc (s := { s with world := w }) hs _).weaken
  rintro _ s2 ⟨hs2, rfl⟩
  exact ⟨hs2, trivial⟩

theorem entersPrepared_havocSnapBalanced (hs : PlainInputs spec s.inputs)
    (hentry : PlainOps spec entry.input.data.ops) (created : Bool) :
    Ends (havocSnapBalanced spec entry created) s (EntersPrepared spec created)
      (fun _ s' => PlainInputs spec s'.inputs) := by
  rw [havocSnapBalanced, ends_bind]
  cases entry.input.data.nodeLen spec with
  | error e => exact hs
  | ok n =>
    rw [ends_orPanic_ok, ends_bind, withMutator, ends_focus]
    refine Ends.mono (ends_mayPanic fun cutoff w _ => ?_) (fun _ _ h => h) fun _ _ _ => hs
    have hs1 : PlainInputs spec { s with world := w }.inputs := hs
    cases cutoff with
    | none => exact entersPrepared_havocNoSnap hs1 hentry created
    | some cutoff => exact entersPrepared_havocWithSnap hs1 hentry cutoff created none

theorem entersPrepared_havocSnapAggressive (hs : PlainInputs spec s.inputs)
    (hentry : PlainOps spec entry.input.data.ops) (created : Bool) :
    Ends (havocSnapAggressive spec entry created) s (EntersPrepared spec created)
      (fun _ s' => PlainInputs spec s'.inputs) := by
  rw [havocSnapAggressive, ends_bind]
  cases entry.input.data.nodeLen spec with
  | error e => exact hs
  | ok n =>
    have hs1 : ∀ cutoff, PlainInputs spec (s.insertCutoff entry.input.id cutoff).inputs :=
      fun _ => hs
    refine ends_ite (fun _ => ?_) fun _ => ?_
    · exact entersPrepared_havocNoSnap (hs1 _) hentry created
    · exact entersPrepared_havocWithSnap (hs1 _) hentry _ created _

theorem entersPrepared_beginMin (hs : PlainInputs spec s.inputs)
    (hentry : PlainOps spec entry.input.data.ops) (created : Bool) :
    Ends (beginMin entry) s (EntersPrepared spec created)
      (fun _ s' => PlainInputs spec s'.inputs) := by
  rw [beginMin, ends_bind, ends_get, ends_bind]
  refine ends_check (fun _ => ?_) fun _ => hs
  have hs1 : PlainInputs spec (s.modifyEntry entry.input.id fun e =>
      { e with state := .havoc }).inputs := hs.modify _ fun _ => rfl
  refine ends_ite (fun _ => ⟨hs1, ?_⟩) fun _ => ⟨hs1, trivial⟩
  intro g hg
  obtain ⟨-, -, rfl⟩ := mem_map.1 hg
  exact hentry

theorem entersPrepared_beginIter (hs : PlainInputs spec s.inputs) (placement : SnapshotPlacement)
    (id : InputID) (created : Bool) :
    Ends (beginIter spec placement id created) s (EntersPrepared spec created)
      (fun _ s' => PlainInputs spec s'.inputs) := by
  rw [beginIter, ends_bind, ends_get, ends_bind]
  cases he : s.inputs[id]? with
  | none => exact hs
  | some entry =>
    have hentry := hs entry (mem_of_getElem? he)
    rw [ends_unwrap_some]
    split
    · exact entersPrepared_beginMin hs hentry created
    · exact entersPrepared_havocNoSnap hs hentry created
    · exact entersPrepared_havocSnapBalanced hs hentry created
    · exact entersPrepared_havocSnapAggressive hs hentry created

theorem confined_schedulePayloads (hs : PlainInputs spec s.inputs)
    (hroom : ∀ p ∈ schedulePayloads spec placement id s, p.NotFull) :
    ∀ p ∈ schedulePayloads spec placement id s, p.Confined spec := by
  intro p hp
  have hlt := (hroom p hp).lt
  rw [schedulePayloads] at hp
  split at hp
  case h_1 h s' hrun =>
    split at hp
    case isTrue hsome =>
      obtain rfl := mem_singleton.1 hp
      obtain ⟨-, -, hnone | ⟨-, -, hprepared⟩⟩ :=
        (entersPrepared_beginIter hs placement id true).of_ok hrun
      · rw [hnone] at hsome
        cases hsome
      · obtain ⟨hfront, k, hk, hops⟩ := hprepared hlt
        exact confined_createSnapshot hfront hk hops
    case isFalse => cases hp
  case h_2 => cases hp

theorem entersPlain_beginIter (hs : PlainInputs spec s.inputs)
    (hroom : ∀ p ∈ schedulePayloads spec placement id s, p.NotFull) (created : Bool) :
    Ends (beginIter spec placement id created) s (EntersPlain spec)
      (fun _ s' => PlainInputs spec s'.inputs) := by
  have hbegin := entersPrepared_beginIter hs placement id created
  unfold Ends at hbegin ⊢
  split at hbegin
  case h_2 => exact hbegin
  case h_1 p s' hrun =>
    obtain ⟨hs', hp⟩ := hbegin
    refine ⟨hs', ?_⟩
    cases p with
    | havoc h =>
      obtain ⟨hentry, hnone | ⟨rfl, hsome, hprepared⟩⟩ := hp
      · refine ⟨hentry, ?_⟩
        rw [hnone]
        exact plainFront_none spec s'.world
      · have hmem : ⟨.createSnapshot, s'.world.target.storage⟩ ∈
            schedulePayloads spec placement id s := by
          rw [schedulePayloads, hrun]
          simp [hsome]
        exact ⟨hentry, (hprepared (hroom _ hmem).lt).1⟩
    | _ => exact hp

/-! ## Minimizations -/

theorem leavesPlain_dropRange {g : MinInput} (hg : PlainOps spec g.data.ops) (first last : ℕ)
    (run : RunOutcome) :
    LeavesPlain spec 0 [] (do dropRange spec g.data first last; pure .minimize) run s := by
  unfold LeavesPlain
  rw [ends_bind]
  exact endsPlain_dropRange hg.graph first last

theorem plain_minimizeRun (hs : PlainInputs spec s.inputs) {newBytes : List StorageReason}
    {graphs : List MinInput} (hgraphs : ∀ g ∈ graphs, PlainOps spec g.data.ops)
    {i first last : ℕ} {run : RunOutcome}
    (hroom : ∀ g ∈ graphs[i]?, ∀ p ∈ runPayloads
      (do dropRange spec g.data first last; pure .minimize) run s, p.NotFull) (update : Bool) :
    Ends (minimizeRun spec newBytes graphs i first last update run) s
      (fun graphs' s' => PlainInputs spec s'.inputs ∧ ∀ g ∈ graphs', PlainOps spec g.data.ops)
      (fun _ s' => PlainInputs spec s'.inputs) := by
  rw [minimizeRun, ends_bind]
  cases hg : graphs[i]? with
  | none => exact hs
  | some g =>
    have hplain := hgraphs g (mem_of_getElem? hg)
    rw [ends_unwrap_some]
    refine (plainInputs_performRun hs (leavesPlain_dropRange hplain first last run)
      (hroom g hg)).bind fun res s1 hs1 => ?_
    split
    · rename_i info _
      rw [ends_bind, ends_get, ends_bind]
      cases hupdate : updateMinGraphs spec newBytes graphs
          ⟨asVecGraph s1.world.target.storage, info, run.bitmap, run.ijonMax⟩ with
      | error e => exact hs1.1
      | ok r =>
        refine ⟨hs1.1, fun g' hg' => ?_⟩
        rcases mem_updateMinGraphs hupdate hg' with hold | ⟨newLen, reasons, -, rfl⟩
        · exact hgraphs g' hold
        · -- the new input is what the run has left in the storage
          exact hs1.2.2
    · exact ⟨hs1.1, hgraphs⟩

theorem plainInputs_storeMinimized (hs : PlainInputs spec s.inputs) {g : MinInput}
    (hg : PlainOps spec g.data.ops) (id : InputID) (dict : CustomDict) :
    Ends (storeMinimized spec id g dict) s (fun _ s' => PlainInputs spec s'.inputs)
      (fun _ s' => PlainInputs spec s'.inputs) := by
  rw [storeMinimized]
  refine (plainInputs_addInput hs hg .havoc).bind ?_
  rintro (_ | k) s1 ⟨hs1, -⟩
  · exact hs1
  · exact hs1.modify id fun _ => rfl

theorem confined_storePayloads {g : MinInput} (hg : PlainOps spec g.data.ops)
    (hroom : ∀ p ∈ storePayloads spec g s, p.NotFull) :
    ∀ p ∈ storePayloads spec g s, p.Confined spec := by
  have hcopy : ∀ (kind : RunKind) (r : RefGraph), kind ≠ .createSnapshot →
      Payload.NotFull ⟨kind, copyFrom r g.data⟩ →
        Payload.Confined spec ⟨kind, copyFrom r g.data⟩ := by
    intro kind r hkind hfull
    apply confined_of_plainOps hkind
    rw [opsAsSlice_copyFrom hfull.lt]
    exact hg
  intro p hp
  have hfull := hroom p hp
  rw [storePayloads] at hp
  split at hp
  case h_1 k s' hrun =>
    rcases mem_cons.1 hp with rfl | hp
    · exact hcopy .cfg _ (by simp) hfull
    · obtain rfl := mem_singleton.1 hp
      exact hcopy .redqueen _ (by simp) hfull
  case h_2 => cases hp

end Fuzzer

/-! ## All threads -/

namespace FuzzSystem

variable {T : Type} [DecidableEq T] {s s' : FuzzSystem T} {placement : T → SnapshotPlacement} {t : T}

structure Plain (spec : GraphSpec) (s : FuzzSystem T) : Prop where
  inputs : PlainInputs spec s.inputs
  phase : ∀ t, (s.phase t).Plain spec (s.world t)

theorem Plain.put (h : s.Plain spec) {f : Fuzzer} {p : FuzzPhase} (hf : EntersPlain spec p f) :
    (s.put t f p).Plain spec := by
  refine ⟨hf.1, fun t' => ?_⟩
  change (update s.phase t p t').Plain spec (update s.world t f.world t')
  by_cases ht : t' = t
  · subst ht
    rw [update_self, update_self]
    exact hf.2
  · rw [update_of_ne ht, update_of_ne ht]
    exact h.phase t'

theorem Plain.runThread (h : s.Plain spec) {m : FuzzM FuzzPhase}
    (hm : Ends m (s.fuzzer t) (EntersPlain spec) (fun _ f => PlainInputs spec f.inputs)) :
    (s.runThread t m).Plain spec := by
  refine runThread_of_ends (J := FuzzSystem.Plain spec) (hm.mono (fun p f hf => ?_) fun _ f hf => ?_)
  · exact h.put hf
  · exact h.put ⟨hf, trivial⟩

theorem Plain.runIdle (h : s.Plain spec) {f : Build RefGraph MutationStrategy} {run : RunOutcome}
    {k : ℕ} {front : List UInt16} (hf : Fuzzer.LeavesPlain spec k front f run (s.fuzzer t))
    (hroom : ∀ p ∈ Fuzzer.runPayloads f run (s.fuzzer t), p.NotFull) :
    (s.runThread t do
      let _ ← Fuzzer.performRun spec f run
      pure .idle).Plain spec := by
  apply h.runThread
  exact (plainInputs_performRun h.inputs hf hroom).bind fun _ _ hs' => ⟨hs'.1, trivial⟩

omit [DecidableEq T] in
theorem leavesPlain_generate (spec : GraphSpec) (s : FuzzSystem T) (t : T) (run : RunOutcome) :
    Fuzzer.LeavesPlain spec 0 [] (do generate spec 15 .none; pure .generate) run (s.fuzzer t) := by
  unfold Fuzzer.LeavesPlain
  rw [ends_bind]
  exact endsPlain_generate (plainFront_none spec _) 15

omit [DecidableEq T] in
theorem leavesPlain_copyAll {orig : VecGraph} (horig : SnapshotFree spec orig.ops)
    (s : FuzzSystem T) (t : T) (strategy : MutationStrategy) (run : RunOutcome) :
    Fuzzer.LeavesPlain spec 0 [] (do copyAll spec orig; pure strategy) run (s.fuzzer t) := by
  unfold Fuzzer.LeavesPlain
  rw [ends_bind]
  exact endsPlain_copyAll horig.plain

omit [DecidableEq T] in
theorem Plain.of_phase (h : s.Plain spec) {p : FuzzPhase} (hp : s.phase t = p) :
    p.Plain spec (s.world t) := hp ▸ h.phase t

omit [DecidableEq T] in
theorem Plain.payloads (h : s.Plain spec) {a : FuzzAction T} (ha : a.ImportsPlain spec)
    (hroom : ∀ p ∈ s.payloads spec placement a, p.NotFull) :
    ∀ p ∈ s.payloads spec placement a, p.Confined spec := by
  cases a with
  | generate t run =>
    rw [FuzzSystem.payloads] at hroom ⊢
    split at hroom
    · exact (leavesPlain_generate spec s t run).payloads hroom
    · exact forall_mem_nil _
  | importFile t orig seedImport run =>
    rw [FuzzSystem.payloads] at hroom ⊢
    split at hroom
    · exact (leavesPlain_copyAll ha s t _ run).payloads hroom
    · exact forall_mem_nil _
  | schedule t id created =>
    rw [FuzzSystem.payloads] at hroom ⊢
    split at hroom
    · exact confined_schedulePayloads h.inputs hroom
    · exact forall_mem_nil _
  | minimizeRun t i first last update run =>
    rw [FuzzSystem.payloads] at hroom ⊢
    split at hroom
    case h_1 id newBytes graphs hphase =>
      split at hroom
      case h_1 g hg =>
        exact (leavesPlain_dropRange (h.of_phase hphase g (mem_of_getElem? hg)) first last
          run).payloads hroom
      case h_2 => exact forall_mem_nil _
    case h_2 => exact forall_mem_nil _
  | endMinimize t => exact forall_mem_nil _
  | storeMinimized t dict =>
    rw [FuzzSystem.payloads] at hroom ⊢
    split at hroom
    case h_1 id g graphs hphase =>
      exact confined_storePayloads (h.of_phase hphase g mem_cons_self) hroom
    case h_2 => exact forall_mem_nil _
  | havocRun t run =>
    rw [FuzzSystem.payloads] at hroom ⊢
    split at hroom
    case h_1 hv hphase =>
      exact (leavesPlain_nextCall (s := s.fuzzer t) h.inputs (h.of_phase hphase)).payloads hroom
    case h_2 => exact forall_mem_nil _

theorem Plain.step (h : s.Plain spec) {a : FuzzAction T} (ha : a.ImportsPlain spec)
    (hroom : ∀ p ∈ s.payloads spec placement a, p.NotFull)
    (hstep : step spec placement s a = some s') : s'.Plain spec := by
  cases a with
  | generate t run =>
    rw [FuzzSystem.step] at hstep
    split at hstep <;> cases hstep
    rename_i hphase hinputs
    rw [FuzzSystem.payloads, hphase, hinputs] at hroom
    exact h.runIdle (leavesPlain_generate spec s t run) hroom
  | importFile t orig seedImport run =>
    rw [FuzzSystem.step] at hstep
    split at hstep <;> cases hstep
    rename_i hphase
    rw [FuzzSystem.payloads, hphase] at hroom
    exact h.runIdle (leavesPlain_copyAll ha s t _ run) hroom
  | schedule t id created =>
    rw [FuzzSystem.step] at hstep
    split at hstep <;> cases hstep
    rename_i hphase
    rw [FuzzSystem.payloads, hphase] at hroom
    exact h.runThread (entersPlain_beginIter h.inputs hroom created)
  | minimizeRun t i first last update run =>
    rw [FuzzSystem.step] at hstep
    split at hstep <;> cases hstep
    rename_i id newBytes graphs hphase
    rw [FuzzSystem.payloads, hphase] at hroom
    apply h.runThread
    refine (plain_minimizeRun (s := s.fuzzer t) h.inputs (h.of_phase hphase) (fun g hg => ?_)
      update).bind fun graphs' f hf => hf
    dsimp only at hroom
    rw [hg] at hroom
    exact hroom
  | endMinimize t =>
    rw [FuzzSystem.step] at hstep
    split at hstep <;> cases hstep
    rename_i id newBytes graphs hphase
    exact h.runThread ⟨h.inputs, (h.of_phase hphase :)⟩
  | storeMinimized t dict =>
    rw [FuzzSystem.step] at hstep
    split at hstep <;> cases hstep
    · rename_i id g graphs hphase
      obtain ⟨hg, hgraphs⟩ := forall_mem_cons.1 (h.of_phase hphase)
      apply h.runThread
      exact (plainInputs_storeMinimized (s := s.fuzzer t) h.inputs hg id dict).bind
        fun _ f hf => ⟨hf, hgraphs⟩
    · exact h.runThread ⟨h.inputs, trivial⟩
  | havocRun t run =>
    rw [FuzzSystem.step] at hstep
    split at hstep <;> cases hstep
    rename_i hv hphase
    rw [FuzzSystem.payloads, hphase] at hroom
    exact h.runThread (entersPlain_havocRun (s := s.fuzzer t) h.inputs (h.of_phase hphase) hroom)

omit [DecidableEq T] in
theorem plain_new (spec : GraphSpec) (world : T → World RefGraph) : (new world).Plain spec :=
  ⟨fun _ he => absurd he not_mem_nil, fun _ => trivial⟩

end FuzzSystem

/-- **Snapshot ops are confined** to the end of the payloads of `run_create_snapshot`. -/
theorem snapshotOps_confined {T : Type} [DecidableEq T] {placement : T → SnapshotPlacement}
    {world : T → World RefGraph} {actions : List (FuzzAction T)} {s : FuzzSystem T}
    (hrun : exec (FuzzSystem.step spec placement) (.new world) actions = some s)
    (himports : ∀ a ∈ actions, a.ImportsPlain spec)
    (hroom : EachStep (FuzzSystem.step spec placement)
      (fun s a => ∀ p ∈ s.payloads spec placement a, p.NotFull) (.new world) actions) :
    (∀ e ∈ s.inputs, ∃ ops, operationsOf spec e.input.data = .ofList ops ∧
        ∀ op ∈ ops, op.takesSnapshot spec = false) ∧
      EachStep (FuzzSystem.step spec placement)
        (fun s a => ∀ p ∈ s.payloads spec placement a, p.Confined spec) (.new world) actions := by
  have hsteps := (eachStep_of_forall_mem (fun a ha _ => himports a ha) _).and hroom
  have hnew := plain_new spec world
  constructor
  · have hplain : s.Plain spec := exec_invariant_of_eachStep
      (fun _ _ _ h ha hstep => h.step ha.1 ha.2 hstep) hsteps hnew hrun
    exact fun e he => (hplain.inputs e he).opIter_eq
  · exact hsteps.of_invariant (I := FuzzSystem.Plain spec)
      (fun _ _ _ h ha hstep => h.step ha.1 ha.2 hstep) (fun _ _ h ha => h.payloads ha.1 ha.2) hnew

def twoPlacements : Bool → SnapshotPlacement
  | true => .aggressive
  | false => .none

/-- The first thread imports six nodes, minimizes them to five, traces the result and creates a
snapshot with it. Meanwhile the second thread mutates it. -/
def importMinimizeAndMutate : List (FuzzAction Bool) :=
  [.importFile true ⟨[0, 1, 0, 2, 0, 3, 0, 4, 0, 5, 0, 6], []⟩ true
      ⟨.ofList [], some ⟨6, .normal 0⟩, [1], [], some [.bitmap ⟨0, 0, 1⟩]⟩,
    .schedule true 0 true,
    .minimizeRun true 0 5 6 true ⟨.ofList [], some ⟨5, .normal 0⟩, [1], [], none⟩,
    .endMinimize true, .storeMinimized true ⟨[]⟩, .storeMinimized true ⟨[]⟩,
    .schedule false 1 true, .schedule true 1 true,
    .havocRun false ⟨.ofList [4], some ⟨5, .normal 0⟩, [1], [], none⟩]

def twoBuffers : Bool → World RefGraph := fun _ => .buffers 14 4 []

theorem snapshotOps_confined_twoThreads : ∃ s,
    exec (FuzzSystem.step connectionSpec twoPlacements) (.new twoBuffers)
      importMinimizeAndMutate = some s ∧ s.inputs.length = 2 ∧
      (∀ e ∈ s.inputs, ∃ ops, operationsOf connectionSpec e.input.data = .ofList ops ∧
        ∀ op ∈ ops, op.takesSnapshot connectionSpec = false) ∧
      EachStep (FuzzSystem.step connectionSpec twoPlacements)
        (fun s a => ∀ p ∈ s.payloads connectionSpec twoPlacements a, p.Confined connectionSpec)
        (.new twoBuffers) importMinimizeAndMutate := by
  have hinputs : (exec (step connectionSpec twoPlacements) (.new twoBuffers)
      importMinimizeAndMutate).map (fun s => s.inputs.length) = some 2 := by decide +kernel
  have hroom : decide (EachStep (step connectionSpec twoPlacements)
      (fun s a => ∀ p ∈ s.payloads connectionSpec twoPlacements a, p.NotFull)
      (.new twoBuffers) importMinimizeAndMutate) = true := by decide +kernel
  have himports : ∀ a ∈ importMinimizeAndMutate, a.ImportsPlain connectionSpec := by
    decide +kernel
  obtain ⟨s, hs, hlen⟩ := map_eq_some_iff.1 hinputs
  exact ⟨s, hs, hlen, snapshotOps_confined hs himports (of_decide_eq_true hroom)⟩

end FuzzSocketCan
