import FuzzSocketCan.RustFuzzer.Queue
import FuzzSocketCan.StructuredFuzzer.Mutator

/-! # Minimizing an input

`minimize_new_bytes` keeps a vector `graphs` with an input for each new byte. It drops nodes, runs
what is left, and `update_min_graphs` replaces every input that is longer than what was run and
whose byte the run has still seen.

* **`updateStep`** — the replacements as a transition system.
* **`minimizeNewBytes_witnesses`** — whatever the runner answers, each input has seen its byte. -/

namespace FuzzSocketCan

open Lib List Option

/-! ## Replacing the inputs -/

def StorageReason.stillValid (bitmap : List UInt8) (ijonMax : List UInt64) :
    StorageReason → Except Panic Bool
  | .bitmap r =>
    match bitmap[r.index]? with
    | some v => .ok (v > r.old)
    | none => .error .indexOutOfBounds
  | .ijonMax r =>
    match ijonMax[r.index]? with
    | some v => .ok (v > r.old)
    | none => .error .indexOutOfBounds
  | .imported => .ok true

structure TestInfo where
  opsUsed : ℕ
  exitreason : ExitReason
  deriving DecidableEq, Repr

structure MinInput extends Input where
  opsUsed : ℕ

/-- What `update_min_graphs` reads. -/
structure MinUpdate where
  graph : VecGraph
  info : TestInfo
  bitmap : List UInt8
  ijonMax : List UInt64

namespace MinUpdate

variable (spec : GraphSpec) (u : MinUpdate) (newLen : ℕ)

def accepts (graphs : List MinInput) (item : StorageReason × ℕ) : Except Panic Bool := do
  if ← item.1.stillValid u.bitmap u.ijonMax then
    match graphs[item.2]? with
    | some kept =>
      let len ← kept.data.nodeLen spec
      pure (len > newLen)
    | none => .error .indexOutOfBounds
  else pure false

def collect (graphs : List MinInput) : List (StorageReason × ℕ) → Except Panic (List StorageReason)
  | [] => .ok []
  | item :: items => do
      let ok ← u.accepts spec newLen graphs item
      let reasons ← collect graphs items
      pure (if ok then item.1 :: reasons else reasons)

def install (input : MinInput) :
    List (StorageReason × ℕ) → List MinInput → Except Panic (List MinInput)
  | [], graphs => .ok graphs
  | item :: items, graphs => do
      if ← u.accepts spec newLen graphs item then install input items (graphs.set item.2 input)
      else install input items graphs

def input (reasons : List StorageReason) : MinInput where
  id := InputID.invalid
  data := u.graph
  bitmap := .newFromBuffer u.bitmap u.ijonMax
  exitReason := u.info.exitreason
  storageReasons := reasons
  foundBy := .minimizeSplit
  opsUsed := if u.info.opsUsed > newLen then newLen else u.info.opsUsed

end MinUpdate

def updateMinGraphs (spec : GraphSpec) (newBytes : List StorageReason) (graphs : List MinInput)
    (u : MinUpdate) : Except Panic (List MinInput × Bool) := do
  let newLen ← u.graph.nodeLen spec
  let reasons ← u.collect spec newLen graphs newBytes.zipIdx
  let graphs ← u.install spec newLen (u.input newLen reasons) newBytes.zipIdx graphs
  pure (graphs, !reasons.isEmpty)

/-! ## The loops -/

structure RunnerAnswer where
  seed : Distributions
  outcome : Except Panic (Option TestInfo)
  bitmap : List UInt8
  ijonMax : List UInt64

structure Minimizer where
  world : World RefGraph
  runner : ℕ → RunnerAnswer
  runs : ℕ
  bitmap : List UInt8
  ijonMax : List UInt64
  graphs : List MinInput
  updates : List MinUpdate

abbrev MinM := EStateM Panic Minimizer

namespace Minimizer

def reseed (s : Minimizer) : Minimizer :=
  { s with world :=
      { s.world with target := { s.world.target with dist := (s.runner s.runs).seed } } }

def finishRun (s : Minimizer) : Minimizer :=
  { s with
    runs := s.runs + 1
    bitmap := (s.runner s.runs).bitmap
    ijonMax := (s.runner s.runs).ijonMax }

/-- What `update_min_graphs` would read now. -/
def update (s : Minimizer) (info : TestInfo) : MinUpdate :=
  ⟨asVecGraph s.world.target.storage, info, s.bitmap, s.ijonMax⟩

end Minimizer

def performRun (f : Build RefGraph PUnit) : MinM (Option TestInfo) := do
  modify Minimizer.reseed
  focus Minimizer.world (fun w s => { s with world := w }) f
  let s ← get
  set s.finishRun
  orPanic (s.runner s.runs).outcome

/-- A call of `update_min_graphs`. -/
def callUpdate (spec : GraphSpec) (newBytes : List StorageReason) (info : TestInfo) : MinM Bool := do
  let s ← get
  let (graphs, updated) ← orPanic (updateMinGraphs spec newBytes s.graphs (s.update info))
  set { s with graphs := graphs, updates := s.updates ++ [s.update info] }
  pure updated

/-- `graphs[i]` -/
def graphAt (i : ℕ) : MinM MinInput := do
  unwrap (← get).graphs[i]? .indexOutOfBounds

/-- `graphs[i].data.node_len()` -/
def nodeLenAt (spec : GraphSpec) (i : ℕ) : MinM ℕ := do
  let g ← graphAt i
  orPanic (g.data.nodeLen spec)

def genMinimizationBlockSize (i maxI graphLen : ℕ) : Dist (ℕ × ℕ) := do
  let len ← genRange 0 (graphLen / 2)
  let len := if i > maxI / 4 then len / 2 else len
  let len := if i > maxI / 2 then len / 2 else len
  let len := if i > 3 * (maxI / 4) then len / 4 else len
  let len := if len < 1 then 1 else len
  if graphLen = len then pure (0, len)
  else do
    check (len ≤ graphLen) Panic.subtractWithOverflow
    let start ← genRange 0 (graphLen - len)
    pure (start, start + len)

def numIters : ℕ := 1000

def minimizeRandom (spec : GraphSpec) (i : ℕ) (newBytes : List StorageReason) :
    ℕ → ℕ → Bool → MinM (ℕ × Bool)
  | 0, _, updated => pure (0, updated)
  | remaining + 1, randomFailures, updated => do
      let len ← nodeLenAt spec i
      if len > remaining + 1 ∧ randomFailures < 10 then do
        let g ← graphAt i
        let res ← performRun (do
          let len ← orPanic (g.data.nodeLen spec)
          let range ← randomly (genMinimizationBlockSize remaining numIters len)
          dropRange spec g.data range.1 range.2)
        match res with
        | some info =>
          if ← callUpdate spec newBytes info then minimizeRandom spec i newBytes remaining 0 true
          else minimizeRandom spec i newBytes remaining (randomFailures + 1) updated
        | none => throw .unreachable
      else pure (remaining + 1, updated)

/-- The body of the stepwise phase. The update is joined to the flag by `||`, so that none is made
when the flag is set. -/
def dropNode (spec : GraphSpec) (i : ℕ) (newBytes : List StorageReason) (idx : ℕ) (updated : Bool) :
    MinM Bool := do
  let g ← graphAt i
  match ← performRun (dropRange spec g.data idx (idx + 1)) with
  | some info => if updated then pure true else callUpdate spec newBytes info
  | none => pure updated

def minimizeStepwise (spec : GraphSpec) (i : ℕ) (newBytes : List StorageReason) :
    ℕ → ℕ → Bool → MinM Bool
  | 0, _, updated => pure updated
  | _ + 1, 0, updated => pure updated
  | idx + 1, remaining + 1, updated => do
      let updated ← dropNode spec i newBytes idx updated
      minimizeStepwise spec i newBytes idx remaining updated

def minimizeOneByte (spec : GraphSpec) (i : ℕ) (newBytes : List StorageReason) : MinM Bool := do
  let (remaining, updated) ← minimizeRandom spec i newBytes numIters 0 false
  let len ← nodeLenAt spec i
  minimizeStepwise spec i newBytes len remaining updated

def minimizeBytes (spec : GraphSpec) (newBytes : List StorageReason) : List ℕ → MinM PUnit
  | [] => pure ⟨⟩
  | i :: is => do
      if ← minimizeOneByte spec i newBytes then minimizeBytes spec newBytes is else pure ⟨⟩

def MinInput.newBytes (input : MinInput) : List StorageReason :=
  input.storageReasons.filter StorageReason.hasNewByte

def MinInput.copies (input : MinInput) : List MinInput :=
  input.newBytes.map fun _ => { input with id := InputID.invalid }

def dropUnused (spec : GraphSpec) (input : MinInput) : MinM PUnit := do
  let res ← performRun (do
    let len ← orPanic (input.data.nodeLen spec)
    dropRange spec input.data input.opsUsed len)
  match res with
  | some info => do
      let _ ← callUpdate spec input.newBytes info
      pure ⟨⟩
  | none => pure ⟨⟩

/-- The set that is returned is a list here. -/
def minimizeNewBytes (spec : GraphSpec) (input : MinInput) : MinM (List MinInput) := do
  modify fun s => { s with graphs := input.copies, updates := [] }
  dropUnused spec input
  minimizeBytes spec input.newBytes (List.range input.copies.length)
  let s ← get
  pure s.graphs

/-! ## One update -/

variable {r : StorageReason} {i : ℕ}

namespace MinUpdate

variable {spec : GraphSpec} {u : MinUpdate} {newLen : ℕ} {graphs graphs' : List MinInput}
  {newBytes : List StorageReason} {new : MinInput}

theorem of_accepts (h : u.accepts spec newLen graphs (r, i) = .ok true) :
    r.stillValid u.bitmap u.ijonMax = .ok true ∧
      ∃ kept len, graphs[i]? = some kept ∧ kept.data.nodeLen spec = .ok len ∧ newLen < len := by
  obtain ⟨valid, hvalid, h⟩ := except_bind_eq_ok.1 h
  cases valid with
  | false => cases h
  | true =>
    refine ⟨hvalid, ?_⟩
    rw [if_pos rfl] at h
    split at h
    case h_1 kept hkept =>
      obtain ⟨len, hlen, h⟩ := except_bind_eq_ok.1 h
      exact ⟨kept, len, hkept, hlen, of_decide_eq_true (Except.ok.inj h)⟩
    case h_2 => cases h

theorem accepts_of {len : ℕ} {kept : MinInput} (hvalid : r.stillValid u.bitmap u.ijonMax = .ok true)
    (hkept : graphs[i]? = some kept) (hlen : kept.data.nodeLen spec = .ok len) (hlt : newLen < len) :
    u.accepts spec newLen graphs (r, i) = .ok true := by
  unfold accepts
  rw [hvalid, hkept]
  simp [bind, Except.bind, hlen, pure, Except.pure, hlt]

theorem accepts_set_of_ne {k : ℕ} (h : i ≠ k) :
    u.accepts spec newLen (graphs.set k new) (r, i) = u.accepts spec newLen graphs (r, i) := by
  unfold accepts
  rw [getElem?_set_ne h.symm]

theorem mem_collect {items : List (StorageReason × ℕ)} {reasons : List StorageReason}
    (h : u.collect spec newLen graphs items = .ok reasons) (r : StorageReason) :
    r ∈ reasons ↔ ∃ i, (r, i) ∈ items ∧ u.accepts spec newLen graphs (r, i) = .ok true := by
  induction items generalizing reasons with
  | nil =>
    cases h
    simp
  | cons item items ih =>
    obtain ⟨ok, hok, h⟩ := except_bind_eq_ok.1 h
    obtain ⟨rest, hrest, h⟩ := except_bind_eq_ok.1 h
    obtain rfl := Except.ok.inj h
    obtain ⟨r', i'⟩ := item
    have ih := ih hrest
    cases ok with
    | false =>
      rw [if_neg Bool.false_ne_true, ih]
      constructor
      · rintro ⟨i, hi, haccept⟩
        exact ⟨i, mem_cons_of_mem _ hi, haccept⟩
      · rintro ⟨i, hi, haccept⟩
        rcases mem_cons.1 hi with heq | hi
        · rw [heq, hok] at haccept
          cases haccept
        · exact ⟨i, hi, haccept⟩
    | true =>
      rw [if_pos rfl, mem_cons, ih]
      constructor
      · rintro (rfl | ⟨i, hi, haccept⟩)
        · exact ⟨i', mem_cons_self, hok⟩
        · exact ⟨i, mem_cons_of_mem _ hi, haccept⟩
      · rintro ⟨i, hi, haccept⟩
        rcases mem_cons.1 hi with heq | hi
        · exact .inl (Prod.mk.inj heq).1
        · exact .inr ⟨i, hi, haccept⟩

theorem getElem?_install {k : ℕ}
    (h : u.install spec newLen new (newBytes.zipIdx k) graphs = .ok graphs') :
    graphs'.length = graphs.length ∧ ∀ i,
      (graphs'[i]? = graphs[i]? ∧ ∀ r, (r, i) ∈ newBytes.zipIdx k →
        u.accepts spec newLen graphs (r, i) = .ok false) ∨
      (graphs'[i]? = some new ∧ ∃ r, (r, i) ∈ newBytes.zipIdx k ∧
        u.accepts spec newLen graphs (r, i) = .ok true) := by
  induction newBytes generalizing k graphs with
  | nil =>
    cases h
    exact ⟨rfl, fun i => .inl ⟨rfl, fun r hr => absurd hr not_mem_nil⟩⟩
  | cons r0 newBytes ih =>
    rw [zipIdx_cons] at h ⊢
    obtain ⟨ok, hok, h⟩ := except_bind_eq_ok.1 h
    -- later items have larger indices
    have hlater : ∀ r, (r, k) ∉ newBytes.zipIdx (k + 1) := by
      intro r hr
      have := (mk_mem_zipIdx_iff_le_and_getElem?_sub.1 hr).1
      omega
    have hitem : ∀ {r : StorageReason} {i : ℕ}, i ≠ k →
        ((r, i) ∈ (r0, k) :: newBytes.zipIdx (k + 1) ↔ (r, i) ∈ newBytes.zipIdx (k + 1)) := by
      intro r i hne
      simp [hne]
    cases ok with
    | false =>
      obtain ⟨hlen, hget⟩ := ih h
      refine ⟨hlen, fun i => ?_⟩
      rcases eq_or_ne i k with rfl | hne
      · rcases hget i with ⟨hsame, -⟩ | ⟨-, r, hr, -⟩
        · refine .inl ⟨hsame, fun r hr => ?_⟩
          rcases mem_cons.1 hr with heq | hr
          · rw [heq, hok]
          · exact absurd hr (hlater r)
        · exact absurd hr (hlater r)
      · simp only [hitem hne]
        exact hget i
    | true =>
      obtain ⟨hlen, hget⟩ := ih h
      rw [length_set] at hlen
      refine ⟨hlen, fun i => ?_⟩
      rcases eq_or_ne i k with rfl | hne
      · rcases hget i with ⟨hsame, -⟩ | ⟨-, r, hr, -⟩
        · obtain ⟨-, kept, -, hkept, -⟩ := of_accepts hok
          obtain ⟨hlt, -⟩ := List.getElem?_eq_some_iff.1 hkept
          rw [List.getElem?_set_self hlt] at hsame
          exact .inr ⟨hsame, r0, List.mem_cons_self, hok⟩
        · exact absurd hr (hlater r)
      · simp only [hitem hne]
        have hi := hget i
        rw [getElem?_set_ne hne.symm] at hi
        simpa only [accepts_set_of_ne hne] using hi

end MinUpdate

section Update

variable {spec : GraphSpec} {u : MinUpdate} {newBytes : List StorageReason}
  {graphs graphs' : List MinInput} {updated : Bool}

theorem updateMinGraphs_eq_ok (h : updateMinGraphs spec newBytes graphs u = .ok (graphs', updated)) :
    ∃ newLen reasons, u.graph.nodeLen spec = .ok newLen ∧ graphs'.length = graphs.length ∧
      ∀ i r, newBytes[i]? = some r →
        (graphs'[i]? = graphs[i]? ∧ u.accepts spec newLen graphs (r, i) = .ok false) ∨
        (graphs'[i]? = some (u.input newLen reasons) ∧ r ∈ reasons ∧
          u.accepts spec newLen graphs (r, i) = .ok true) := by
  obtain ⟨newLen, hnewLen, h⟩ := except_bind_eq_ok.1 h
  obtain ⟨reasons, hreasons, h⟩ := except_bind_eq_ok.1 h
  obtain ⟨graphs1, hinstall, h⟩ := except_bind_eq_ok.1 h
  obtain ⟨rfl, -⟩ := Prod.mk.inj (Except.ok.inj h)
  obtain ⟨hlen, hget⟩ := MinUpdate.getElem?_install hinstall
  refine ⟨newLen, reasons, hnewLen, hlen, fun i r hr => ?_⟩
  have hmem := mk_mem_zipIdx_iff_getElem?.2 hr
  rcases hget i with ⟨hsame, hfalse⟩ | ⟨hnew, r', hr', haccept⟩
  · exact .inl ⟨hsame, hfalse r hmem⟩
  · obtain rfl : r = r' :=
      some.inj (hr.symm.trans (mk_mem_zipIdx_iff_getElem?.1 hr'))
    exact .inr ⟨hnew, (MinUpdate.mem_collect hreasons r).2 ⟨i, hmem, haccept⟩, haccept⟩

theorem mem_updateMinGraphs (h : updateMinGraphs spec newBytes graphs u = .ok (graphs', updated))
    {g : MinInput} (hg : g ∈ graphs') :
    g ∈ graphs ∨ ∃ newLen reasons, u.graph.nodeLen spec = .ok newLen ∧ g = u.input newLen reasons := by
  obtain ⟨newLen, hnewLen, h⟩ := except_bind_eq_ok.1 h
  obtain ⟨reasons, -, h⟩ := except_bind_eq_ok.1 h
  obtain ⟨graphs1, hinstall, h⟩ := except_bind_eq_ok.1 h
  obtain ⟨rfl, -⟩ := Prod.mk.inj (Except.ok.inj h)
  obtain ⟨i, hi⟩ := mem_iff_getElem?.1 hg
  rcases (MinUpdate.getElem?_install hinstall).2 i with ⟨hsame, -⟩ | ⟨hnew, -⟩
  · exact .inl (mem_of_getElem? (hsame.symm.trans hi))
  · exact .inr ⟨newLen, reasons, hnewLen, some.inj (hi.symm.trans hnew)⟩

def updateStep (spec : GraphSpec) (newBytes : List StorageReason) (graphs : List MinInput)
    (u : MinUpdate) : Option (List MinInput) :=
  match updateMinGraphs spec newBytes graphs u with
  | .ok (graphs, _) => some graphs
  | .error _ => none

theorem updateStep_eq_some (h : updateStep spec newBytes graphs u = some graphs') :
    ∃ updated, updateMinGraphs spec newBytes graphs u = .ok (graphs', updated) := by
  unfold updateStep at h
  split at h
  case h_1 gs b heq =>
    cases h
    exact ⟨b, heq⟩
  case h_2 => cases h

def Covered (Q : StorageReason → MinInput → Prop) (newBytes : List StorageReason)
    (graphs : List MinInput) : Prop :=
  graphs.length = newBytes.length ∧
    ∀ (i : ℕ) (r : StorageReason) (g : MinInput), newBytes[i]? = some r → graphs[i]? = some g → Q r g

variable {Q : StorageReason → MinInput → Prop}

theorem Covered.step (h : Covered Q newBytes graphs)
    (hstep : updateStep spec newBytes graphs u = some graphs')
    (hnew : ∀ newLen reasons i r, u.graph.nodeLen spec = .ok newLen → r ∈ reasons →
      newBytes[i]? = some r → u.accepts spec newLen graphs (r, i) = .ok true →
      Q r (u.input newLen reasons)) : Covered Q newBytes graphs' := by
  obtain ⟨updated, hupdate⟩ := updateStep_eq_some hstep
  obtain ⟨newLen, reasons, hnewLen, hlen, hget⟩ := updateMinGraphs_eq_ok hupdate
  refine ⟨hlen.trans h.1, fun i r g hr hg => ?_⟩
  rcases hget i r hr with ⟨hsame, -⟩ | ⟨hinput, hmem, haccept⟩
  · exact h.2 i r g hr (hsame ▸ hg)
  · obtain rfl := some.inj (hinput.symm.trans hg)
    exact hnew newLen reasons i r hnewLen hmem hr haccept

theorem Covered.exists_mem (h : Covered Q newBytes graphs) (hr : r ∈ newBytes) :
    ∃ g ∈ graphs, Q r g := by
  obtain ⟨i, hi, rfl⟩ := mem_iff_getElem.1 hr
  have hi' : i < graphs.length := h.1 ▸ hi
  exact ⟨graphs[i], getElem_mem hi',
    h.2 i _ _ (getElem?_eq_getElem hi) (getElem?_eq_getElem hi')⟩

theorem Covered.exists_byte (h : Covered Q newBytes graphs) {g : MinInput}
    (hg : graphs[i]? = some g) : ∃ r, newBytes[i]? = some r ∧ Q r g := by
  obtain ⟨hi, -⟩ := List.getElem?_eq_some_iff.1 hg
  rw [h.1] at hi
  exact ⟨_, List.getElem?_eq_getElem hi, h.2 i _ g (List.getElem?_eq_getElem hi) hg⟩

theorem covered_copies {input : MinInput}
    (h : ∀ r ∈ input.storageReasons, Q r { input with id := InputID.invalid }) :
    Covered Q input.newBytes input.copies := by
  refine ⟨length_map _, fun i r g hr hg => ?_⟩
  obtain ⟨-, -, rfl⟩ := mem_map.1 (mem_of_getElem? hg)
  exact h r (mem_of_mem_filter (mem_of_getElem? hr))

def MinInput.Witness (g : MinInput) (r : StorageReason) : Prop :=
  r ∈ g.storageReasons ∧ r.stillValid g.bitmap.bits g.bitmap.ijonMax = .ok true

def Witnesses : List StorageReason → List MinInput → Prop := Covered fun r g => g.Witness r

theorem Witnesses.step (h : Witnesses newBytes graphs)
    (hstep : updateStep spec newBytes graphs u = some graphs') : Witnesses newBytes graphs' :=
  Covered.step h hstep fun _ _ _ _ _ hmem _ haccept =>
    ⟨hmem, (MinUpdate.of_accepts haccept).1⟩

def Shrinks (spec : GraphSpec) (graphs graphs' : List MinInput) : Prop :=
  graphs'.length = graphs.length ∧
    ∀ (i : ℕ) (g g' : MinInput), graphs[i]? = some g → graphs'[i]? = some g' →
      g' = g ∨ ∃ n n', g.data.nodeLen spec = .ok n ∧ g'.data.nodeLen spec = .ok n' ∧ n' < n

theorem Witnesses.shrinks (h : Witnesses newBytes graphs)
    (hstep : updateStep spec newBytes graphs u = some graphs') : Shrinks spec graphs graphs' := by
  obtain ⟨updated, hupdate⟩ := updateStep_eq_some hstep
  obtain ⟨newLen, reasons, hnewLen, hlen, hget⟩ := updateMinGraphs_eq_ok hupdate
  refine ⟨hlen, fun i g g' hg hg' => ?_⟩
  obtain ⟨r, hr, -⟩ := Covered.exists_byte h hg
  rcases hget i r hr with ⟨hsame, -⟩ | ⟨hnew, -, haccept⟩
  · exact .inl (some.inj ((hg'.symm.trans hsame).trans hg))
  · obtain rfl := some.inj (hnew.symm.trans hg')
    obtain ⟨-, kept, len, hkept, hkeptLen, hlt⟩ := MinUpdate.of_accepts haccept
    obtain rfl := some.inj (hkept.symm.trans hg)
    exact .inr ⟨len, newLen, hkeptLen, hnewLen, hlt⟩

end Update

/-! ## A whole minimization -/

section Run

variable {spec : GraphSpec} {input : MinInput} {newBytes : List StorageReason} {s : Minimizer}

def Minimizer.Traced (spec : GraphSpec) (input : MinInput) (s : Minimizer) : Prop :=
  exec (updateStep spec input.newBytes) input.copies s.updates = some s.graphs

abbrev OnlyUpdates {α : Type} (spec : GraphSpec) (input : MinInput) (m : MinM α) : Prop :=
  Preserves (Minimizer.Traced spec input) (fun _ s => s.Traced spec input) m

namespace OnlyUpdates

open Preserves

variable {α : Type}

theorem throw (e : Panic) : OnlyUpdates spec input (MonadExcept.throw e : MinM α) := fun _ hs => hs

theorem orPanic (x : Except Panic α) : OnlyUpdates spec input (Lib.orPanic x) := by
  cases x with
  | ok a => exact .pure a
  | error e => exact throw e

theorem get : OnlyUpdates spec input (MonadState.get : MinM Minimizer) := fun _ hs => hs

theorem graphAt (i : ℕ) : OnlyUpdates spec input (FuzzSocketCan.graphAt i) := by
  refine bind get fun s => ?_
  cases s.graphs[i]? with
  | some g => exact .pure g
  | none => exact throw _

theorem nodeLenAt (i : ℕ) : OnlyUpdates spec input (FuzzSocketCan.nodeLenAt spec i) :=
  bind (graphAt i) fun _ => orPanic _

theorem performRun (f : Build RefGraph PUnit) :
    OnlyUpdates spec input (FuzzSocketCan.performRun f) := by
  intro s hs
  unfold FuzzSocketCan.performRun
  rw [ends_bind, ends_modify, ends_bind, ends_focus]
  unfold Ends
  cases f s.reseed.world with
  | error e w => exact hs
  | ok _ w =>
    have hanswer : OnlyUpdates spec input (Lib.orPanic (s.runner s.runs).outcome) := orPanic _
    exact hanswer _ hs

theorem callUpdate (info : TestInfo) :
    OnlyUpdates spec input (FuzzSocketCan.callUpdate spec input.newBytes info) := by
  intro s hs
  unfold FuzzSocketCan.callUpdate
  rw [ends_bind, ends_get, ends_bind]
  cases hupdate : updateMinGraphs spec input.newBytes s.graphs (s.update info) with
  | error e => exact hs
  | ok r =>
    rw [ends_orPanic_ok, ends_bind, ends_set, ends_pure]
    unfold Minimizer.Traced at hs ⊢
    rw [exec_append, hs, bind_some, exec_cons_eq_some]
    refine ⟨r.1, ?_, rfl⟩
    rw [updateStep, hupdate]

theorem minimizeRandom (i remaining randomFailures : ℕ) (updated : Bool) :
    OnlyUpdates spec input
      (FuzzSocketCan.minimizeRandom spec i input.newBytes remaining randomFailures updated) := by
  induction remaining generalizing randomFailures updated with
  | zero => exact .pure _
  | succ remaining ih =>
    refine (nodeLenAt i).bind fun len => ite ?_ (.pure _)
    refine (graphAt i).bind fun g => (performRun _).bind fun res => ?_
    cases res with
    | none => exact throw _
    | some info => exact (callUpdate info).bind fun b => ite (ih _ _) (ih _ _)

theorem dropNode (i idx : ℕ) (updated : Bool) :
    OnlyUpdates spec input (FuzzSocketCan.dropNode spec i input.newBytes idx updated) := by
  refine (graphAt i).bind fun g => (performRun _).bind fun res => ?_
  cases res with
  | none => exact .pure _
  | some info => exact ite (.pure _) (callUpdate info)

theorem minimizeStepwise (i idx remaining : ℕ) (updated : Bool) :
    OnlyUpdates spec input
      (FuzzSocketCan.minimizeStepwise spec i input.newBytes idx remaining updated) := by
  induction idx generalizing remaining updated with
  | zero => exact .pure _
  | succ idx ih =>
    cases remaining with
    | zero => exact .pure _
    | succ remaining => exact (dropNode i idx updated).bind fun b => ih remaining b

theorem minimizeBytes (is : List ℕ) :
    OnlyUpdates spec input (FuzzSocketCan.minimizeBytes spec input.newBytes is) := by
  induction is with
  | nil => exact .pure _
  | cons i is ih =>
    refine bind ?_ fun b => ite ih (.pure _)
    exact (minimizeRandom i _ _ _).bind fun r => (nodeLenAt i).bind fun len =>
      minimizeStepwise i len r.1 r.2

end OnlyUpdates

theorem OnlyUpdates.dropUnused : OnlyUpdates spec input (FuzzSocketCan.dropUnused spec input) := by
  refine (performRun _).bind fun res => ?_
  cases res with
  | none => exact .pure _
  | some info => exact (callUpdate info).bind fun _ => .pure _

theorem ends_minimizeNewBytes (spec : GraphSpec) (input : MinInput) (s : Minimizer) :
    Ends (minimizeNewBytes spec input) s
      (fun returned s' => s'.Traced spec input ∧ returned = s'.graphs)
      (fun _ s' => s'.Traced spec input) := by
  have hstart : Minimizer.Traced spec input { s with graphs := input.copies, updates := [] } := rfl
  unfold minimizeNewBytes
  rw [ends_bind, ends_modify]
  refine (OnlyUpdates.dropUnused _ hstart).bind fun _ s1 hs1 => ?_
  refine (OnlyUpdates.minimizeBytes _ s1 hs1).bind fun _ s2 hs2 => ?_
  exact ⟨hs2, rfl⟩

/-- The updates have led from copies of the input to the present inputs, with an input for each byte
that has seen it in every state, and no input gets longer. -/
structure Minimizer.Sound (spec : GraphSpec) (input : MinInput) (s : Minimizer) : Prop where
  run : exec (updateStep spec input.newBytes) input.copies s.updates = some s.graphs
  witnesses : Throughout (updateStep spec input.newBytes) (Witnesses input.newBytes) input.copies
    s.updates
  shrinks : EachStep (updateStep spec input.newBytes) (fun graphs u => ∀ graphs',
    updateStep spec input.newBytes graphs u = some graphs' → Shrinks spec graphs graphs')
    input.copies s.updates

end Run

/-- **Every byte keeps a witness**, for all answers of the runner. -/
theorem minimizeNewBytes_witnesses {spec : GraphSpec} {input : MinInput}
    (h : ∀ r ∈ input.storageReasons, r.stillValid input.bitmap.bits input.bitmap.ijonMax = .ok true)
    (s : Minimizer) :
    Ends (minimizeNewBytes spec input) s
      (fun returned s' => s'.Sound spec input ∧
        ∀ r ∈ input.newBytes, ∃ g ∈ returned, g.Witness r)
      (fun _ s' => s'.Sound spec input) := by
  have hstep : ∀ graphs u graphs', Witnesses input.newBytes graphs →
      updateStep spec input.newBytes graphs u = some graphs' → Witnesses input.newBytes graphs' :=
    fun _ _ _ hw hs => hw.step hs
  have hstart : Witnesses input.newBytes input.copies := covered_copies fun r hr => ⟨hr, h r hr⟩
  have hsound : ∀ s' : Minimizer, s'.Traced spec input → s'.Sound spec input := fun s' hs' =>
    ⟨hs', throughout_of_step hstep hstart _,
      eachStep_of_invariant hstep (fun _ _ hw _ hs => hw.shrinks hs) hstart _⟩
  refine (ends_minimizeNewBytes spec input s).mono ?_ fun _ s' hs' => hsound s' hs'
  rintro _ s' ⟨hs', rfl⟩
  refine ⟨hsound s' hs', fun r hr => ?_⟩
  exact Covered.exists_mem (exec_invariant hstep hstart hs') hr

def threeOpens : MinInput where
  id := 0
  data := ⟨[0, 7, 0, 8, 0, 9], []⟩
  bitmap := ⟨[0, 5], []⟩
  exitReason := .normal 0
  storageReasons := [.bitmap ⟨1, 0, 5⟩]
  foundBy := .splice
  opsUsed := 3

theorem threeOpens_satisfied : ∀ r ∈ threeOpens.storageReasons,
    r.stillValid threeOpens.bitmap.bits threeOpens.bitmap.ijonMax = .ok true := by
  intro r hr
  obtain rfl := mem_singleton.1 hr
  rfl

theorem minimizeNewBytes_witnesses_threeOpens :
    threeOpens.newBytes = [.bitmap ⟨1, 0, 5⟩] ∧ ∀ s,
      Ends (minimizeNewBytes connectionSpec threeOpens) s
        (fun returned s' => s'.Sound connectionSpec threeOpens ∧
          ∀ r ∈ threeOpens.newBytes, ∃ g ∈ returned, g.Witness r)
        (fun _ s' => s'.Sound connectionSpec threeOpens) :=
  ⟨rfl, minimizeNewBytes_witnesses threeOpens_satisfied⟩

end FuzzSocketCan
