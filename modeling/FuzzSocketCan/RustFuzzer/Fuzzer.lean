import FuzzSocketCan.RustFuzzer.Minimize
import FuzzSocketCan.StructuredFuzzer.Mutate

/-! # The fuzzing threads

A thread schedules an input of the shared queue and minimizes or mutates it. What it does between
two runs of the target is one step, and the threads take their steps in any order. The answers of
the target, what the coverage maps say about them, the scheduled input and the order of
minimization are left open; the graphs that are run are those that the mutator makes. The calls of
`mutate` are recorded.
-/

namespace FuzzSocketCan

open Lib

inductive SnapshotPlacement
  | none
  | balanced
  | aggressive
  deriving DecidableEq, Repr

inductive InputState
  | minimize
  | havoc
  deriving DecidableEq, Repr

structure QueueEntry where
  input : MinInput
  state : InputState
  customDict : CustomDict
  itersNoFinds : ℕ

/-- What comes from outside during one `perform_run`: the random seed, how the run ends (`none` for
an error), the buffers, and the confirmed storage reasons, if there are any. -/
structure RunOutcome where
  seed : Distributions
  info : Option TestInfo
  bitmap : List UInt8
  ijonMax : List UInt64
  reasons : Option (List StorageReason)

/-! ## The calls of `mutate` -/

def sampleForSplicing (inputs : List QueueEntry) : Dist VecGraph := do
  let i ← genRange 0 inputs.length
  let entry ← unwrap inputs[i]? .indexOutOfBounds
  pure entry.input.data

/-- The arguments of a call of `mutate`. -/
structure MutateCall where
  orig : VecGraph
  opsUsed : ℕ
  dict : CustomDict
  snapshot : MutatorSnapshotState
  queue : List QueueEntry

def MutateCall.run (spec : GraphSpec) (c : MutateCall) : Build RefGraph MutationStrategy :=
  mutate spec c.orig c.opsUsed c.dict c.snapshot (sampleForSplicing c.queue)

/-! ## One thread -/

/-- The queue, the mutator and storage, the table of cutoffs, and a record of the calls of
`mutate`. -/
structure Fuzzer where
  inputs : List QueueEntry
  world : World RefGraph
  snapshotCutoffs : InputID → Option ℕ
  calls : List MutateCall

abbrev FuzzM := EStateM Panic Fuzzer

/-- The runs of `havoc_with_snap` or `havoc_no_snap` that are left, and what `havoc_snap_aggressive`
uses after those it has begun. -/
structure Havoc where
  entry : QueueEntry
  snapshot : MutatorSnapshotState
  remaining : ℕ
  hasNewFinds : Bool
  cutoffs : Option (ℕ × ℕ)

/-- Where a thread is in `iter`. -/
inductive FuzzPhase
  | idle
  /-- In `minimize_new_bytes`. -/
  | minimizing (id : InputID) (newBytes : List StorageReason) (graphs : List MinInput)
  /-- In `perform_min`, with inputs that are still to be stored. -/
  | storing (id : InputID) (graphs : List MinInput)
  | havoc (h : Havoc)
  | panicked

namespace Fuzzer

def withMutator {α : Type} (m : Build RefGraph α) : FuzzM α :=
  focus Fuzzer.world (fun w s => { s with world := w }) m

def setSeed (x : Distributions) (s : Fuzzer) : Fuzzer :=
  { s with world := { s.world with target := { s.world.target with dist := x } } }

def insertCutoff (id : InputID) (cutoff : ℕ) (s : Fuzzer) : Fuzzer :=
  { s with snapshotCutoffs := Function.update s.snapshotCutoffs id (some cutoff) }

def push (input : MinInput) (state : InputState) (s : Fuzzer) : Fuzzer :=
  { s with inputs := s.inputs ++ [⟨{ input with id := s.inputs.length }, state, ⟨[]⟩, 0⟩] }

def modifyEntry (id : InputID) (f : QueueEntry → QueueEntry) (s : Fuzzer) : Fuzzer :=
  { s with inputs := s.inputs.modify id f }

def addInput (spec : GraphSpec) (input : MinInput) (state : InputState) :
    FuzzM (Option InputID) := do
  check (input.id = InputID.invalid) .assertionFailed
  let nodeLen ← orPanic (input.data.nodeLen spec)
  if nodeLen = 0 then pure none
  else if input.exitReason.isStored then do
    let s ← get
    set (s.push input state)
    pure (some s.inputs.length)
  else pure none

/-- The part of `perform_run` that stores a find. -/
def storeFind (spec : GraphSpec) (strategy : MutationStrategy) (info : TestInfo) (run : RunOutcome)
    (reasons : List StorageReason) : FuzzM Bool := do
  let s ← get
  let data := asVecGraph s.world.target.storage
  let nodeLen ← orPanic (data.nodeLen spec)
  if reasons.isEmpty then pure false
  else do
    let newId ← addInput spec {
      id := InputID.invalid
      data := data
      bitmap := .newFromBuffer run.bitmap run.ijonMax
      exitReason := info.exitreason
      storageReasons := reasons
      foundBy := strategy
      opsUsed := min info.opsUsed nodeLen } .minimize
    match newId with
    | some newId => do
        modify (insertCutoff newId (nodeLen - 1))
        pure true
    | none => pure false

def performRun (spec : GraphSpec) (f : Build RefGraph MutationStrategy) (run : RunOutcome) :
    FuzzM (Option (TestInfo × Bool)) := do
  modify (setSeed run.seed)
  let strategy ← withMutator f
  match run.info, run.reasons with
  | none, _ => pure none
  | some info, none => pure (some (info, false))
  | some info, some reasons => do
      let hasNewFinds ← storeFind spec strategy info run reasons
      pure (some (info, hasNewFinds))

def performHavoc (spec : GraphSpec) (entry : QueueEntry) (snapshot : MutatorSnapshotState)
    (run : RunOutcome) : FuzzM Bool := do
  let s ← get
  let call : MutateCall :=
    ⟨entry.input.data, entry.input.opsUsed, entry.customDict, snapshot, s.inputs⟩
  set { s with calls := s.calls ++ [call] }
  let res ← performRun spec (call.run spec) run
  pure (res.elim false Prod.snd)

def updateItersNoFinds (id : InputID) (hasNewFinds : Bool) : FuzzM ℕ := do
  let s ← get
  let entry ← unwrap s.inputs[id]? .indexOutOfBounds
  let value := if hasNewFinds then 0 else entry.itersNoFinds + 1
  set (s.modifyEntry id fun e => { e with itersNoFinds := value })
  pure value

def minCutoff : ℕ := 4

def finishHavoc (h : Havoc) : FuzzM FuzzPhase :=
  match h.cutoffs with
  | none => pure .idle
  | some (cutoff, maxCutoff) => do
      let n ← updateItersNoFinds h.entry.input.id h.hasNewFinds
      if n > 50 then do
        modify (insertCutoff h.entry.input.id (if cutoff = minCutoff then maxCutoff else cutoff - 1))
        pure .idle
      else pure .idle

def havocNoSnap (entry : QueueEntry) : FuzzPhase := .havoc ⟨entry, .none, 10, false, none⟩

/-- `havoc_with_snap` up to its first run. -/
def havocWithSnap (spec : GraphSpec) (entry : QueueEntry) (snapshotCutoff : ℕ) (created : Bool)
    (cutoffs : Option (ℕ × ℕ)) : FuzzM FuzzPhase := do
  let snapshot ← withMutator (prepareSnapshot spec snapshotCutoff entry.input.data)
  if created then pure (.havoc ⟨entry, snapshot, 50, false, cutoffs⟩)
  else finishHavoc ⟨entry, snapshot, 0, false, cutoffs⟩

/-- The cutoff that `havoc_snap_balanced` draws. In the source the lower bound of the first range is
`num_nodes*0.5 as usize`, where the conversion comes first. -/
def genBalancedCutoff (numNodes : ℕ) : Dist (Option ℕ) :=
  if numNodes > 4 then do
    let n ← genRange 0 25
    if n < 24 then do
      let m ← genRange 0 100
      if m < 50 then some <$> genRange (numNodes * 0) numNodes
      else some <$> genRange 0 numNodes
    else pure none
  else pure none

def havocSnapBalanced (spec : GraphSpec) (entry : QueueEntry) (created : Bool) :
    FuzzM FuzzPhase := do
  let nodeLen ← orPanic (entry.input.data.nodeLen spec)
  let numNodes := if nodeLen < entry.input.opsUsed then nodeLen else entry.input.opsUsed
  match ← withMutator (randomly (genBalancedCutoff numNodes)) with
  | some snapshotCutoff => havocWithSnap spec entry snapshotCutoff created none
  | none => pure (havocNoSnap entry)

def havocSnapAggressive (spec : GraphSpec) (entry : QueueEntry) (created : Bool) :
    FuzzM FuzzPhase := do
  let nodeLen ← orPanic (entry.input.data.nodeLen spec)
  let maxCutoff := nodeLen - 1
  let s ← get
  let cutoff := (s.snapshotCutoffs entry.input.id).getD maxCutoff
  set (s.insertCutoff entry.input.id cutoff)
  if cutoff < minCutoff then pure (havocNoSnap entry)
  else havocWithSnap spec entry cutoff created (some (cutoff, maxCutoff))

/-- `perform_min` up to its first run. -/
def beginMin (entry : QueueEntry) : FuzzM FuzzPhase := do
  let s ← get
  check (entry.input.id < s.inputs.length) .assertionFailed
  set (s.modifyEntry entry.input.id fun e => { e with state := .havoc })
  if entry.input.newBytes.length > 0 then
    pure (.minimizing entry.input.id entry.input.newBytes entry.input.copies)
  else pure .idle

def beginIter (spec : GraphSpec) (placement : SnapshotPlacement) (id : InputID) (created : Bool) :
    FuzzM FuzzPhase := do
  let s ← get
  let entry ← unwrap s.inputs[id]? .indexOutOfBounds
  match entry.state, placement with
  | .minimize, _ => beginMin entry
  | .havoc, .none => pure (havocNoSnap entry)
  | .havoc, .balanced => havocSnapBalanced spec entry created
  | .havoc, .aggressive => havocSnapAggressive spec entry created

def minimizeRun (spec : GraphSpec) (newBytes : List StorageReason) (graphs : List MinInput)
    (i first last : ℕ) (update : Bool) (run : RunOutcome) : FuzzM (List MinInput) := do
  let g ← unwrap graphs[i]? .indexOutOfBounds
  let res ← performRun spec (do dropRange spec g.data first last; pure .minimize) run
  match res, update with
  | some (info, _), true => do
      let s ← get
      let data := asVecGraph s.world.target.storage
      let r ← orPanic
        (updateMinGraphs spec newBytes graphs ⟨data, info, run.bitmap, run.ijonMax⟩)
      pure r.1
  | _, _ => pure graphs

def storeMinimized (spec : GraphSpec) (id : InputID) (g : MinInput) (dict : CustomDict) :
    FuzzM PUnit := do
  match ← addInput spec g .havoc with
  | some _ => modify (modifyEntry id fun e => { e with customDict := dict })
  | none => pure ⟨⟩

def havocRun (spec : GraphSpec) (h : Havoc) (run : RunOutcome) : FuzzM FuzzPhase := do
  let found ← performHavoc spec h.entry h.snapshot run
  let h := { h with remaining := h.remaining - 1, hasNewFinds := h.hasNewFinds || found }
  if h.remaining = 0 then finishHavoc h else pure (.havoc h)

end Fuzzer

/-! ## All threads -/

structure FuzzSystem (T : Type) where
  inputs : List QueueEntry
  world : T → World RefGraph
  snapshotCutoffs : T → InputID → Option ℕ
  phase : T → FuzzPhase
  calls : List MutateCall

inductive FuzzAction (T : Type)
  /-- `perform_gen` -/
  | generate (t : T) (run : RunOutcome)
  /-- `perform_import` of one file -/
  | importFile (t : T) (orig : VecGraph) (seedImport : Bool) (run : RunOutcome)
  | schedule (t : T) (id : InputID) (created : Bool)
  | minimizeRun (t : T) (i first last : ℕ) (update : Bool) (run : RunOutcome)
  | endMinimize (t : T)
  | storeMinimized (t : T) (dict : CustomDict)
  | havocRun (t : T) (run : RunOutcome)

namespace FuzzSystem

variable {T : Type} [DecidableEq T]

def new (world : T → World RefGraph) : FuzzSystem T := ⟨[], world, fun _ _ => none, fun _ => .idle, []⟩

def fuzzer (s : FuzzSystem T) (t : T) : Fuzzer :=
  ⟨s.inputs, s.world t, s.snapshotCutoffs t, s.calls⟩

def put (s : FuzzSystem T) (t : T) (f : Fuzzer) (p : FuzzPhase) : FuzzSystem T where
  inputs := f.inputs
  world := Function.update s.world t f.world
  snapshotCutoffs := Function.update s.snapshotCutoffs t f.snapshotCutoffs
  phase := Function.update s.phase t p
  calls := f.calls

def runThread (s : FuzzSystem T) (t : T) (m : FuzzM FuzzPhase) : FuzzSystem T :=
  match m (s.fuzzer t) with
  | .ok p f => s.put t f p
  | .error _ f => s.put t f .panicked

def step (spec : GraphSpec) (placement : T → SnapshotPlacement) (s : FuzzSystem T) :
    FuzzAction T → Option (FuzzSystem T)
  | .generate t run =>
    match s.phase t, s.inputs with
    | .idle, [] => some (s.runThread t do
        let _ ← Fuzzer.performRun spec (do generate spec 15 .none; pure .generate) run
        pure .idle)
    | _, _ => none
  | .importFile t orig seedImport run =>
    match s.phase t with
    | .idle => some (s.runThread t do
        let _ ← Fuzzer.performRun spec (do
          copyAll spec orig
          pure (if seedImport then .seedImport else .import')) run
        pure .idle)
    | _ => none
  | .schedule t id created =>
    match s.phase t with
    | .idle => some (s.runThread t (Fuzzer.beginIter spec (placement t) id created))
    | _ => none
  | .minimizeRun t i first last update run =>
    match s.phase t with
    | .minimizing id newBytes graphs => some (s.runThread t do
        let graphs ← Fuzzer.minimizeRun spec newBytes graphs i first last update run
        pure (.minimizing id newBytes graphs))
    | _ => none
  | .endMinimize t =>
    match s.phase t with
    | .minimizing id _ graphs => some (s.runThread t (pure (.storing id graphs)))
    | _ => none
  | .storeMinimized t dict =>
    match s.phase t with
    | .storing id (g :: graphs) => some (s.runThread t do
        Fuzzer.storeMinimized spec id g dict
        pure (.storing id graphs))
    | .storing _ [] => some (s.runThread t (pure .idle))
    | _ => none
  | .havocRun t run =>
    match s.phase t with
    | .havoc h => some (s.runThread t (Fuzzer.havocRun spec h run))
    | _ => none

end FuzzSystem

end FuzzSocketCan
