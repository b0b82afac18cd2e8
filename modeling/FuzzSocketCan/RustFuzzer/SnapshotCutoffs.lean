import FuzzSocketCan.RustFuzzer.Fuzzer
import FuzzSocketCan.StructuredFuzzer.BoundedStorage

/-! # Snapshot cutoffs

`mutate` subtracts the number of skipped nodes from that of the nodes that were used.
`havoc_snap_balanced` draws the cutoff from the used nodes, but `havoc_snap_aggressive` starts
from the number of all nodes.

* **`Fuzzer.Ok`** — a cutoff never exceeds the number of nodes without the last one.
* **`mutateCalls_within`** — when all calls of `mutate` are within the bounds. -/

namespace FuzzSocketCan

open Lib List Option Function FuzzSystem Fuzzer

variable {spec : GraphSpec}

/-! ## The calls of `mutate` -/

/-- **What a call of `mutate` needs**: not more nodes are skipped than were used, nor more used than
there are; then all panics come from the builder. -/
structure MutateCall.Within (spec : GraphSpec) (c : MutateCall) : Prop where
  skip_le : c.snapshot.skipNodes ≤ c.opsUsed
  used_le : ∃ n, c.orig.nodeLen spec = .ok n ∧ c.opsUsed ≤ n
  asserts : ∀ w, Ends (c.run spec) w (fun _ _ => True) (BuilderPanic spec c.dict)

/-- No more nodes were executed than there are. -/
def MinInput.Measured (spec : GraphSpec) (g : MinInput) : Prop :=
  ∃ n, g.data.nodeLen spec = .ok n ∧ g.opsUsed ≤ n

structure StoredAt (spec : GraphSpec) (id : InputID) (e : QueueEntry) : Prop where
  id_eq : e.input.id = id
  measured : e.input.Measured spec
  nonempty : e.input.data.nodeLen spec ≠ .ok 0

def InputsOk (spec : GraphSpec) (inputs : List QueueEntry) : Prop :=
  ∀ (id : InputID) (e : QueueEntry), inputs[id]? = some e → StoredAt spec id e

/-- The cutoff is the number of a node of the input. -/
def CutoffOk (spec : GraphSpec) (inputs : List QueueEntry) (id : InputID) (cutoff : ℕ) : Prop :=
  ∃ e n, inputs[id]? = some e ∧ e.input.data.nodeLen spec = .ok n ∧ cutoff < n

variable {inputs : List QueueEntry}

theorem queueReturns_of_inputsOk (h : InputsOk spec inputs) (hne : inputs ≠ []) :
    QueueReturns spec (sampleForSplicing inputs) := by
  intro x
  rw [sampleForSplicing, ends_bind]
  refine ends_genRange (length_pos_iff.2 hne) fun i x' _ hi => ?_
  rw [getElem?_eq_getElem hi, ends_bind, ends_unwrap_some, ends_pure]
  have hstored := h i _ (getElem?_eq_getElem hi)
  obtain ⟨n, hn, -⟩ := hstored.measured
  have hstop := VecGraph.stop_of_nodeLen hn
  refine ⟨hstop, pos_of_ne_zero fun hzero => hstored.nonempty ?_⟩
  rw [VecGraph.nodeLen_eq_ok hstop, hzero]

theorem MutateCall.within {c : MutateCall} (hskip : c.snapshot.skipNodes ≤ c.opsUsed) {n : ℕ}
    (hn : c.orig.nodeLen spec = .ok n) (hused : c.opsUsed ≤ n) (hqueue : InputsOk spec c.queue)
    (hne : c.queue ≠ []) : c.Within spec := by
  refine ⟨hskip, ⟨n, hn, hused⟩, ?_⟩
  have hstop := VecGraph.stop_of_nodeLen hn
  rw [VecGraph.nodeLen_eq_ok hstop] at hn
  obtain rfl := Except.ok.inj hn
  exact ends_mutate hstop hskip hused (queueReturns_of_inputsOk hqueue hne)

/-! ## The queue grows -/

def Grows (inputs inputs' : List QueueEntry) : Prop :=
  ∀ (id : InputID) (e : QueueEntry), inputs[id]? = some e →
    ∃ e' : QueueEntry, inputs'[id]? = some e' ∧ e'.input = e.input

theorem Grows.refl (inputs : List QueueEntry) : Grows inputs inputs := fun _ e he => ⟨e, he, rfl⟩

variable {l1 l2 : List QueueEntry}

theorem Grows.trans {l3 : List QueueEntry} (h : Grows l1 l2) (h' : Grows l2 l3) : Grows l1 l3 := by
  intro id e he
  obtain ⟨e2, he2, heq2⟩ := h id e he
  obtain ⟨e3, he3, heq3⟩ := h' id e2 he2
  exact ⟨e3, he3, heq3.trans heq2⟩

theorem Grows.ne_nil (h : Grows l1 l2) (hne : l1 ≠ []) : l2 ≠ [] := by
  obtain ⟨e, l, rfl⟩ := exists_cons_of_ne_nil hne
  obtain ⟨e', he', -⟩ := h 0 e rfl
  rintro rfl
  cases he'

variable {id : InputID} {cutoff : ℕ}

theorem CutoffOk.mono (h : CutoffOk spec l1 id cutoff) (hg : Grows l1 l2) :
    CutoffOk spec l2 id cutoff := by
  obtain ⟨e, n, he, hn, hlt⟩ := h
  obtain ⟨e', he', heq⟩ := hg id e he
  exact ⟨e', n, he', by rw [heq]; exact hn, hlt⟩

theorem StoredAt.congr {e e' : QueueEntry} (h : StoredAt spec id e) (heq : e'.input = e.input) :
    StoredAt spec id e' := by
  obtain ⟨hid, hmeasured, hne⟩ := h
  exact ⟨by rw [heq]; exact hid, by rw [heq]; exact hmeasured, by rw [heq]; exact hne⟩

variable {f : QueueEntry → QueueEntry}

theorem modify_entry (h : InputsOk spec inputs) (id : InputID) (hf : ∀ e, (f e).input = e.input) :
    InputsOk spec (inputs.modify id f) ∧ Grows inputs (inputs.modify id f) := by
  constructor
  · intro k e he
    rw [List.getElem?_modify, Option.map_eq_map, Option.map_eq_some_iff] at he
    obtain ⟨e0, he0, rfl⟩ := he
    refine (h k e0 he0).congr ?_
    split
    · exact hf e0
    · rfl
  · intro k e he
    rw [getElem?_modify, he]
    refine ⟨_, rfl, ?_⟩
    split
    · exact hf e
    · rfl

/-! ## One thread -/

structure Fuzzer.Ok (spec : GraphSpec) (s : Fuzzer) : Prop where
  inputs : InputsOk spec s.inputs
  cutoffs : ∀ id cutoff, s.snapshotCutoffs id = some cutoff → CutoffOk spec s.inputs id cutoff
  calls : ∀ c ∈ s.calls, c.Within spec

/-- The invariant holds, the inputs grow, and calls of `mutate` are added. -/
structure Advance (spec : GraphSpec) (s s' : Fuzzer) : Prop where
  ok : s'.Ok spec
  grows : Grows s.inputs s'.inputs
  calls : s.calls <+: s'.calls

theorem Advance.trans {s1 s2 s3 : Fuzzer} (h : Advance spec s1 s2) (h' : Advance spec s2 s3) :
    Advance spec s1 s3 := ⟨h'.ok, h.grows.trans h'.grows, h.calls.trans h'.calls⟩

namespace Fuzzer

variable {s : Fuzzer}

theorem Ok.refl (h : s.Ok spec) : Advance spec s s := ⟨h, Grows.refl _, prefix_rfl⟩

theorem Ok.modifyEntry (h : s.Ok spec) (id : InputID) (hf : ∀ e, (f e).input = e.input) :
    Advance spec s (s.modifyEntry id f) := by
  obtain ⟨hinputs, hgrows⟩ := modify_entry h.inputs id hf
  exact ⟨⟨hinputs, fun k cutoff hk => (h.cutoffs k cutoff hk).mono hgrows, h.calls⟩, hgrows,
    prefix_rfl⟩

theorem Ok.insertCutoff (h : s.Ok spec) (hcutoff : CutoffOk spec s.inputs id cutoff) :
    Advance spec s (s.insertCutoff id cutoff) := by
  refine ⟨⟨h.inputs, fun k c hk => ?_, h.calls⟩, Grows.refl _, prefix_rfl⟩
  change update s.snapshotCutoffs id (some cutoff) k = some c at hk
  by_cases hid : k = id
  · subst hid
    rw [update_self] at hk
    obtain rfl := some.inj hk
    exact hcutoff
  · rw [update_of_ne hid] at hk
    exact h.cutoffs k c hk

theorem Ok.push (h : s.Ok spec) {input : MinInput} (hinput : input.Measured spec)
    (hne : input.data.nodeLen spec ≠ .ok 0) (state : InputState) :
    Advance spec s (s.push input state) := by
  have hgrows : Grows s.inputs (s.push input state).inputs := by
    intro id e he
    obtain ⟨hlt, -⟩ := List.getElem?_eq_some_iff.1 he
    exact ⟨e, by rw [Fuzzer.push, List.getElem?_append_left hlt, he], rfl⟩
  refine ⟨⟨?_, fun k cutoff hk => (h.cutoffs k cutoff hk).mono hgrows, h.calls⟩, hgrows,
    prefix_rfl⟩
  intro id e he
  rw [Fuzzer.push] at he
  rcases Nat.lt_or_ge id s.inputs.length with hlt | hge
  · rw [getElem?_append_left hlt] at he
    exact h.inputs id e he
  · -- the new entry is the last one
    rw [getElem?_append_right hge, getElem?_singleton] at he
    obtain ⟨hzero, heq⟩ := ite_none_right_eq_some.1 he
    obtain rfl := some.inj heq
    exact ⟨by show s.inputs.length = id; omega, hinput, hne⟩

theorem ends_addInput (h : s.Ok spec) {input : MinInput} (hinput : input.Measured spec)
    (state : InputState) :
    Ends (addInput spec input state) s
      (fun id s' => Advance spec s s' ∧ ∀ k ∈ id, ∃ e, s'.inputs[k]? = some e ∧
        e.input.data = input.data ∧ input.data.nodeLen spec ≠ .ok 0)
      (fun _ s' => Advance spec s s') := by
  obtain ⟨n, hn, hused⟩ := id hinput
  rw [addInput, ends_bind]
  refine ends_check (fun _ => ?_) fun _ => h.refl
  have hlen : orPanic (input.data.nodeLen spec) s = .ok n s := by
    rw [hn]
    rfl
  rw [ends_bind]
  refine ends_of_ok hlen (ends_ite (fun _ => ?_) fun hne => ends_ite (fun _ => ?_) fun _ => ?_)
  · exact ⟨h.refl, fun k hk => absurd hk (not_mem_none k)⟩
  · have hzero : input.data.nodeLen spec ≠ .ok 0 := by
      rw [hn]
      exact fun heq => hne (Except.ok.inj heq)
    refine ⟨h.push hinput hzero state, ?_⟩
    rintro k ⟨⟩
    exact ⟨_, getElem?_concat_length, rfl, hzero⟩
  · exact ⟨h.refl, fun k hk => absurd hk (not_mem_none k)⟩

theorem ends_storeFind (h : s.Ok spec) (strategy : MutationStrategy) (info : TestInfo)
    (run : RunOutcome) (reasons : List StorageReason) :
    Ends (storeFind spec strategy info run reasons) s (fun _ s' => Advance spec s s')
      (fun _ s' => Advance spec s s') := by
  rw [storeFind, ends_bind, ends_get, ends_bind]
  cases hn : (asVecGraph s.world.target.storage).nodeLen spec with
  | error e => exact h.refl
  | ok n =>
    refine ends_ite (fun _ => h.refl) fun _ => ?_
    refine (ends_addInput h ⟨n, hn, min_le_right _ _⟩ .minimize).bind ?_
    rintro (_ | newId) s1 ⟨hs1, hstored⟩
    · exact hs1
    · obtain ⟨e, he, hdata, hne⟩ := hstored newId rfl
      have hpos : n ≠ 0 := fun hzero => hne (by rw [hn, hzero])
      refine hs1.trans (hs1.ok.insertCutoff ⟨e, n, he, by rw [hdata]; exact hn, ?_⟩)
      exact Nat.sub_lt (pos_of_ne_zero hpos) one_pos

theorem Ok.setWorld (h : s.Ok spec) (w : World RefGraph) : Advance spec s { s with world := w } :=
  ⟨⟨h.inputs, h.cutoffs, h.calls⟩, Grows.refl _, prefix_rfl⟩

theorem ends_withMutator {α : Type} (h : s.Ok spec) {m : Build RefGraph α}
    {Q : α → World RefGraph → Prop} (hm : Ends m s.world Q mayPanic) :
    Ends (withMutator m) s (fun a s' => ∃ w, s' = { s with world := w } ∧ Q a w)
      (fun _ s' => Advance spec s s') := by
  rw [withMutator, ends_focus]
  exact hm.mono (fun a w hQ => ⟨w, rfl, hQ⟩) fun _ w _ => h.setWorld w

theorem ends_performRun (h : s.Ok spec) (f : Build RefGraph MutationStrategy) (run : RunOutcome) :
    Ends (performRun spec f run) s (fun _ s' => Advance spec s s')
      (fun _ s' => Advance spec s s') := by
  have hseed : Advance spec s (s.setSeed run.seed) := h.setWorld _
  rw [performRun, ends_bind, ends_modify, ends_bind]
  have hf : Ends f (s.setSeed run.seed).world (fun _ _ => True) mayPanic :=
    ends_mayPanic fun _ _ _ => trivial
  refine (ends_withMutator hseed.ok hf).mono ?_ fun _ s' hs' => hseed.trans hs'
  rintro strategy _ ⟨w, rfl, -⟩
  have hs1 := hseed.trans (hseed.ok.setWorld w)
  split
  · exact hs1
  · exact hs1
  · rw [ends_bind]
    refine (ends_storeFind hs1.ok strategy _ run _).mono ?_ fun _ s' hs' => hs1.trans hs'
    exact fun _ s' hs' => hs1.trans hs'

end Fuzzer

/-! ## The phases of a thread -/

structure Havoc.Ok (spec : GraphSpec) (inputs : List QueueEntry) (h : Havoc) : Prop where
  queue : inputs ≠ []
  skip_le : h.snapshot.skipNodes ≤ h.entry.input.opsUsed
  measured : h.entry.input.Measured spec
  cutoffs : ∀ c ∈ h.cutoffs, CutoffOk spec inputs h.entry.input.id c.1 ∧
    CutoffOk spec inputs h.entry.input.id c.2

def Havoc.nextCall (h : Havoc) (inputs : List QueueEntry) : MutateCall :=
  ⟨h.entry.input.data, h.entry.input.opsUsed, h.entry.customDict, h.snapshot, inputs⟩

def FuzzPhase.Ok (spec : GraphSpec) (inputs : List QueueEntry) : FuzzPhase → Prop
  | .idle | .panicked => True
  | .minimizing _ _ graphs | .storing _ graphs => ∀ g ∈ graphs, g.Measured spec
  | .havoc h => h.Ok spec inputs

variable {p : FuzzPhase}

theorem FuzzPhase.Ok.mono (h : p.Ok spec l1) (hg : Grows l1 l2) : p.Ok spec l2 := by
  cases p with
  | havoc h' =>
    refine ⟨hg.ne_nil h.queue, h.skip_le, h.measured, fun c hc => ?_⟩
    exact ⟨(h.cutoffs c hc).1.mono hg, (h.cutoffs c hc).2.mono hg⟩
  | _ => exact h

structure Enters (spec : GraphSpec) (s : Fuzzer) (p : FuzzPhase) (s' : Fuzzer) : Prop where
  advance : Advance spec s s'
  phase : p.Ok spec s'.inputs

namespace Fuzzer

variable {s : Fuzzer} {h : Havoc} {entry : QueueEntry}

theorem ends_updateItersNoFinds (hs : s.Ok spec) (id : InputID) (hasNewFinds : Bool) :
    Ends (updateItersNoFinds id hasNewFinds) s (fun _ s' => Advance spec s s')
      (fun _ s' => Advance spec s s') := by
  rw [updateItersNoFinds, ends_bind, ends_get, ends_bind]
  cases s.inputs[id]? with
  | none => exact hs.refl
  | some e =>
    exact hs.modifyEntry id fun _ => rfl

theorem ends_finishHavoc (hs : s.Ok spec)
    (hcutoffs : ∀ c ∈ h.cutoffs, CutoffOk spec s.inputs h.entry.input.id c.1 ∧
      CutoffOk spec s.inputs h.entry.input.id c.2) :
    Ends (finishHavoc h) s (Enters spec s) (fun _ s' => Advance spec s s') := by
  unfold finishHavoc
  cases hc : h.cutoffs with
  | none => exact ⟨hs.refl, trivial⟩
  | some c =>
    obtain ⟨hcutoff, hmax⟩ := hcutoffs c hc
    refine (ends_updateItersNoFinds hs _ _).bind fun n s1 hs1 => ?_
    refine ends_ite (fun _ => ?_) fun _ => ⟨hs1, trivial⟩
    refine ⟨hs1.trans (hs1.ok.insertCutoff ?_), trivial⟩
    split
    · exact hmax.mono hs1.grows
    · obtain ⟨e, n, he, hn, hlt⟩ := hcutoff.mono hs1.grows
      exact ⟨e, n, he, hn, lt_of_le_of_lt (Nat.sub_le _ _) hlt⟩

theorem Ok.record (hs : s.Ok spec) {c : MutateCall} (hc : c.Within spec) :
    Advance spec s { s with calls := s.calls ++ [c] } := by
  refine ⟨⟨hs.inputs, hs.cutoffs, fun c' hc' => ?_⟩, Grows.refl _, prefix_append _ _⟩
  rcases mem_append.1 hc' with hc' | hc'
  · exact hs.calls c' hc'
  · obtain rfl := mem_singleton.1 hc'
    exact hc

theorem ends_performHavoc (hs : s.Ok spec) (hh : h.Ok spec s.inputs) (run : RunOutcome) :
    Ends (performHavoc spec h.entry h.snapshot run) s
      (fun _ s' => Advance spec s s' ∧ h.nextCall s.inputs ∈ s'.calls)
      (fun _ s' => Advance spec s s' ∧ h.nextCall s.inputs ∈ s'.calls) := by
  obtain ⟨n, hn, hused⟩ := hh.measured
  have hcall : (h.nextCall s.inputs).Within spec :=
    MutateCall.within hh.skip_le hn hused hs.inputs hh.queue
  have hrecord := hs.record hcall
  have hmem : h.nextCall s.inputs ∈ s.calls ++ [h.nextCall s.inputs] :=
    mem_append_right _ mem_cons_self
  rw [performHavoc, ends_bind, ends_get, ends_bind, ends_set, ends_bind]
  refine (ends_performRun hrecord.ok _ run).mono (fun _ s' hs' => ?_) fun _ s' hs' => ?_
  · exact ⟨hrecord.trans hs', hs'.calls.subset hmem⟩
  · exact ⟨hrecord.trans hs', hs'.calls.subset hmem⟩

theorem ends_havocRun (hs : s.Ok spec) (hh : h.Ok spec s.inputs) (run : RunOutcome) :
    Ends (havocRun spec h run) s
      (fun p s' => Enters spec s p s' ∧ h.nextCall s.inputs ∈ s'.calls)
      (fun _ s' => Advance spec s s' ∧ h.nextCall s.inputs ∈ s'.calls) := by
  rw [havocRun]
  refine (ends_performHavoc hs hh run).bind fun found s1 hrun => ?_
  obtain ⟨hs1, hcall⟩ := hrun
  obtain ⟨hqueue, hskip, hmeasured, hcutoffs⟩ := FuzzPhase.Ok.mono (p := .havoc h) hh hs1.grows
  refine ends_ite (fun _ => ?_) fun _ => ⟨⟨hs1, hqueue, hskip, hmeasured, hcutoffs⟩, hcall⟩
  have hfinish := ends_finishHavoc (h := ⟨h.entry, h.snapshot, h.remaining - 1,
    h.hasNewFinds || found, h.cutoffs⟩) hs1.ok hcutoffs
  refine hfinish.mono (fun p s2 hs2 => ?_) fun _ s2 hs2 => ?_
  · exact ⟨⟨hs1.trans hs2.advance, hs2.phase⟩, hs2.advance.calls.subset hcall⟩
  · exact ⟨hs1.trans hs2, hs2.calls.subset hcall⟩

theorem enters_havocNoSnap (hs : s.Ok spec) (he : s.inputs[id]? = some entry) :
    Enters spec s (havocNoSnap entry) s := by
  refine ⟨hs.refl, ?_, Nat.zero_le _, (hs.inputs id entry he).measured, fun c hc => ?_⟩
  · rintro hnil
    rw [hnil] at he
    cases he
  · cases hc

theorem ends_prepareSnapshot_skipNodes {S : Type} [GraphStorage S] (cutoff : ℕ) (data : VecGraph)
    (w : World S) :
    Ends (prepareSnapshot spec cutoff data) w (fun snapshot _ => snapshot.skipNodes = cutoff)
      mayPanic := by
  rw [prepareSnapshot, ends_bind]
  refine ends_mayPanic fun _ w1 _ => ?_
  rw [ends_bind]
  refine ends_mayPanic fun _ w2 _ => ?_
  cases spec.snapshotNodeId with
  | none => trivial
  | some id => rfl

theorem ends_havocWithSnap (hs : s.Ok spec) (he : s.inputs[id]? = some entry)
    (hcutoff : cutoff ≤ entry.input.opsUsed) (created : Bool) {cutoffs : Option (ℕ × ℕ)}
    (hcutoffs : ∀ c ∈ cutoffs, CutoffOk spec s.inputs entry.input.id c.1 ∧
      CutoffOk spec s.inputs entry.input.id c.2) :
    Ends (havocWithSnap spec entry cutoff created cutoffs) s (Enters spec s)
      (fun _ s' => Advance spec s s') := by
  rw [havocWithSnap]
  refine (ends_withMutator hs (ends_prepareSnapshot_skipNodes cutoff _ _)).bind ?_
  rintro snapshot _ ⟨w, rfl, hskip⟩
  have hs1 := hs.setWorld w
  obtain ⟨hqueue, -, hmeasured, -⟩ := (enters_havocNoSnap hs he).phase
  refine ends_ite (fun _ => ?_) fun _ => ?_
  · exact ⟨hs1, hqueue, hskip ▸ hcutoff, hmeasured, hcutoffs⟩
  · refine (ends_finishHavoc (h := ⟨entry, snapshot, 0, false, cutoffs⟩) hs1.ok hcutoffs).mono
      (fun p s2 hs2 => ?_) fun _ s2 hs2 => hs1.trans hs2
    exact ⟨hs1.trans hs2.advance, hs2.phase⟩

theorem ends_genBalancedCutoff (numNodes : ℕ) (x : Distributions) :
    Ends (genBalancedCutoff numNodes) x (fun cutoff _ => ∀ c ∈ cutoff, c < numNodes) mayPanic := by
  have hsome : ∀ low x', Ends (some <$> genRange low numNodes) x'
      (fun cutoff _ => ∀ c ∈ cutoff, c < numNodes) mayPanic := by
    intro low x'
    rw [ends_map]
    refine (ends_genRange_mem low numNodes x').weaken fun n x'' hn => ?_
    rintro c ⟨⟩
    exact hn.2
  have hnone : ∀ c ∈ (none : Option ℕ), c < numNodes := fun c hc => absurd hc (not_mem_none c)
  refine ends_ite (fun _ => ?_) fun _ => hnone
  rw [ends_bind]
  refine ends_mayPanic fun n x1 _ => ends_ite (fun _ => ?_) fun _ => hnone
  rw [ends_bind]
  exact ends_mayPanic fun m x2 _ => ends_ite (fun _ => hsome _ x2) fun _ => hsome _ x2

theorem ends_havocSnapBalanced (hs : s.Ok spec) (he : s.inputs[id]? = some entry) (created : Bool) :
    Ends (havocSnapBalanced spec entry created) s (Enters spec s)
      (fun _ s' => Advance spec s s') := by
  obtain ⟨n, hn, hused⟩ := (hs.inputs id entry he).measured
  rw [havocSnapBalanced, hn, ends_bind, ends_orPanic_ok]
  refine (ends_withMutator hs (Q := fun cutoff _ => ∀ c ∈ cutoff, c ≤ entry.input.opsUsed)
    ?_).bind ?_
  · rw [ends_randomly]
    refine (ends_genBalancedCutoff _ _).weaken fun cutoff x hcutoff c hc => ?_
    have := hcutoff c hc
    split at this
    · omega
    · omega
  · rintro (_ | cutoff) _ ⟨w, rfl, hcutoff⟩
    · have hs1 := hs.setWorld w
      exact ⟨hs1, (enters_havocNoSnap hs he).phase⟩
    · have hs1 := hs.setWorld w
      refine (ends_havocWithSnap hs1.ok he (hcutoff cutoff rfl) created ?_).mono
        (fun p s2 hs2 => ?_) fun _ s2 hs2 => hs1.trans hs2
      · exact fun c hc => absurd hc (not_mem_none c)
      · exact ⟨hs1.trans hs2.advance, hs2.phase⟩

end Fuzzer

def QueueEntry.nearlyAllUsed (spec : GraphSpec) (e : QueueEntry) : Bool :=
  match e.input.data.nodeLen spec with
  | .ok n => decide (n ≤ Fuzzer.minCutoff ∨ n ≤ e.input.opsUsed + 1)
  | .error _ => true

namespace Fuzzer

variable {s : Fuzzer} {entry : QueueEntry}

theorem ends_havocSnapAggressive (hs : s.Ok spec) (he : s.inputs[id]? = some entry)
    (hused : entry.nearlyAllUsed spec = true) (created : Bool) :
    Ends (havocSnapAggressive spec entry created) s (Enters spec s)
      (fun _ s' => Advance spec s s') := by
  have hstored := hs.inputs id entry he
  obtain ⟨n, hn, -⟩ := hstored.measured
  have hpos : n ≠ 0 := fun hzero => hstored.nonempty (by rw [hn, hzero])
  rw [QueueEntry.nearlyAllUsed, hn, decide_eq_true_iff] at hused
  rw [havocSnapAggressive, hn, ends_bind, ends_orPanic_ok, ends_bind, ends_get, ends_bind, ends_set]
  have hmax : CutoffOk spec s.inputs entry.input.id (n - 1) := by
    rw [hstored.id_eq]
    exact ⟨entry, n, he, hn, Nat.sub_lt (pos_of_ne_zero hpos) one_pos⟩
  have hcutoff : CutoffOk spec s.inputs entry.input.id
      ((s.snapshotCutoffs entry.input.id).getD (n - 1)) := by
    cases hc : s.snapshotCutoffs entry.input.id with
    | none => exact hmax
    | some cutoff => exact hs.cutoffs _ cutoff hc
  generalize (s.snapshotCutoffs entry.input.id).getD (n - 1) = cutoff at hcutoff ⊢
  have hs1 := hs.insertCutoff hcutoff
  refine ends_ite (fun _ => ?_) fun hlarge => ?_
  · exact ⟨hs1, (enters_havocNoSnap hs1.ok he).phase⟩
  · -- the cutoff is below the number of nodes
    have hbelow := hcutoff
    obtain ⟨e, n', he', hn', hlt⟩ := hbelow
    rw [hstored.id_eq] at he'
    obtain rfl := some.inj (he.symm.trans he')
    obtain rfl := Except.ok.inj (hn.symm.trans hn')
    have hle : cutoff ≤ entry.input.opsUsed := by omega
    refine (ends_havocWithSnap hs1.ok he hle created ?_).mono (fun p s2 hs2 => ?_)
      fun _ s2 hs2 => hs1.trans hs2
    · rintro c ⟨⟩
      exact ⟨hcutoff, hmax⟩
    · exact ⟨hs1.trans hs2.advance, hs2.phase⟩

theorem ends_beginMin (hs : s.Ok spec) (hentry : entry.input.Measured spec) :
    Ends (beginMin entry) s (Enters spec s) (fun _ s' => Advance spec s s') := by
  rw [beginMin, ends_bind, ends_get, ends_bind]
  refine ends_check (fun _ => ?_) fun _ => hs.refl
  have hs1 := hs.modifyEntry entry.input.id (f := fun e => { e with state := .havoc }) fun _ => rfl
  refine ends_ite (fun _ => ⟨hs1, ?_⟩) fun _ => ⟨hs1, trivial⟩
  intro g hg
  obtain ⟨-, -, rfl⟩ := mem_map.1 hg
  exact hentry

theorem ends_beginIter (hs : s.Ok spec) (placement : SnapshotPlacement) (id : InputID)
    (created : Bool)
    (hused : placement = .aggressive → ∀ e ∈ s.inputs[id]?, e.state = .havoc →
      e.nearlyAllUsed spec = true) :
    Ends (beginIter spec placement id created) s (Enters spec s)
      (fun _ s' => Advance spec s s') := by
  rw [beginIter, ends_bind, ends_get, ends_bind]
  cases he : s.inputs[id]? with
  | none => exact hs.refl
  | some entry =>
    rw [ends_unwrap_some]
    split
    · exact ends_beginMin hs (hs.inputs id entry he).measured
    · exact enters_havocNoSnap hs he
    · exact ends_havocSnapBalanced hs he created
    case h_4 hstate => exact ends_havocSnapAggressive hs he (hused rfl entry he hstate) created

theorem ends_minimizeRun (hs : s.Ok spec) {newBytes : List StorageReason} {graphs : List MinInput}
    (hgraphs : ∀ g ∈ graphs, g.Measured spec) (i first last : ℕ) (update : Bool)
    (run : RunOutcome) :
    Ends (minimizeRun spec newBytes graphs i first last update run) s
      (fun graphs' s' => Advance spec s s' ∧ ∀ g ∈ graphs', g.Measured spec)
      (fun _ s' => Advance spec s s') := by
  rw [minimizeRun, ends_bind]
  cases graphs[i]? with
  | none => exact hs.refl
  | some g =>
    rw [ends_unwrap_some]
    refine (ends_performRun hs _ run).bind fun res s1 hs1 => ?_
    split
    · rename_i info _
      rw [ends_bind, ends_get, ends_bind]
      cases hupdate : updateMinGraphs spec newBytes graphs
          ⟨asVecGraph s1.world.target.storage, info, run.bitmap, run.ijonMax⟩ with
      | error e => exact hs1
      | ok r =>
        refine ⟨hs1, fun g' hg' => ?_⟩
        rcases mem_updateMinGraphs hupdate hg' with hold | ⟨newLen, reasons, hlen, rfl⟩
        · exact hgraphs g' hold
        · refine ⟨newLen, hlen, ?_⟩
          show (if info.opsUsed > newLen then newLen else info.opsUsed) ≤ newLen
          split <;> omega
    · exact ⟨hs1, hgraphs⟩

theorem ends_storeMinimized (hs : s.Ok spec) {g : MinInput} (hg : g.Measured spec) (id : InputID)
    (dict : CustomDict) :
    Ends (storeMinimized spec id g dict) s (fun _ s' => Advance spec s s')
      (fun _ s' => Advance spec s s') := by
  rw [storeMinimized]
  refine (ends_addInput hs hg .havoc).bind ?_
  rintro (_ | k) s1 ⟨hs1, -⟩
  · exact hs1
  · exact hs1.trans (hs1.ok.modifyEntry id fun _ => rfl)

end Fuzzer

/-! ## All threads -/

namespace FuzzSystem

variable {T : Type} [DecidableEq T]

structure Ok (spec : GraphSpec) (s : FuzzSystem T) : Prop where
  inputs : InputsOk spec s.inputs
  cutoffs : ∀ t id cutoff, s.snapshotCutoffs t id = some cutoff → CutoffOk spec s.inputs id cutoff
  calls : ∀ c ∈ s.calls, c.Within spec
  phase : ∀ t, (s.phase t).Ok spec s.inputs

def SchedulesUsed (spec : GraphSpec) (placement : T → SnapshotPlacement) (s : FuzzSystem T) :
    FuzzAction T → Prop
  | .schedule t id _ => placement t = .aggressive → ∀ e ∈ s.inputs[id]?, e.state = .havoc →
      e.nearlyAllUsed spec = true
  | _ => True

instance (placement : T → SnapshotPlacement) (s : FuzzSystem T) :
    ∀ a, Decidable (SchedulesUsed spec placement s a)
  | .schedule t id _ => inferInstanceAs (Decidable (placement t = .aggressive →
      ∀ e ∈ s.inputs[id]?, e.state = .havoc → e.nearlyAllUsed spec = true))
  | .generate .. => isTrue trivial
  | .importFile .. => isTrue trivial
  | .minimizeRun .. => isTrue trivial
  | .endMinimize _ => isTrue trivial
  | .storeMinimized .. => isTrue trivial
  | .havocRun .. => isTrue trivial

variable {s s' : FuzzSystem T} {placement : T → SnapshotPlacement}

omit [DecidableEq T] in
theorem Ok.thread (h : s.Ok spec) (t : T) : (s.fuzzer t).Ok spec := ⟨h.inputs, h.cutoffs t, h.calls⟩

variable {t : T}

omit [DecidableEq T] in
theorem Ok.of_phase (h : s.Ok spec) (hp : s.phase t = p) : p.Ok spec s.inputs := hp ▸ h.phase t

theorem Ok.put (h : s.Ok spec) {f : Fuzzer} (hf : Advance spec (s.fuzzer t) f)
    (hp : p.Ok spec f.inputs) : (s.put t f p).Ok spec := by
  refine ⟨hf.ok.inputs, ?_, hf.ok.calls, ?_⟩
  · intro t' id cutoff hid
    change update s.snapshotCutoffs t f.snapshotCutoffs t' id = some cutoff at hid
    by_cases ht : t' = t
    · subst ht
      rw [update_self] at hid
      exact hf.ok.cutoffs id cutoff hid
    · rw [update_of_ne ht] at hid
      exact (h.cutoffs t' id cutoff hid).mono hf.grows
  · intro t'
    change (update s.phase t p t').Ok spec f.inputs
    by_cases ht : t' = t
    · subst ht
      rw [update_self]
      exact hp
    · rw [update_of_ne ht]
      exact (h.phase t').mono hf.grows

theorem runThread_of_ends {J : FuzzSystem T → Prop} {m : FuzzM FuzzPhase}
    (hm : Ends m (s.fuzzer t) (fun p f => J (s.put t f p)) (fun _ f => J (s.put t f .panicked))) :
    J (s.runThread t m) := by
  unfold Ends at hm
  unfold runThread
  split at hm
  case h_1 p f heq =>
    rw [heq]
    exact hm
  case h_2 e f heq =>
    rw [heq]
    exact hm

theorem Ok.runThread (h : s.Ok spec) {m : FuzzM FuzzPhase}
    (hm : Ends m (s.fuzzer t) (Enters spec (s.fuzzer t)) (fun _ f => Advance spec (s.fuzzer t) f)) :
    (s.runThread t m).Ok spec := by
  refine runThread_of_ends (J := FuzzSystem.Ok spec) (hm.mono (fun p f hf => ?_) fun _ f hf => ?_)
  · exact h.put hf.advance hf.phase
  · exact h.put hf trivial

theorem Ok.runIdle (h : s.Ok spec) (f : Build RefGraph MutationStrategy) (run : RunOutcome) :
    (s.runThread t do
      let _ ← Fuzzer.performRun spec f run
      pure .idle).Ok spec := by
  apply h.runThread
  exact (Fuzzer.ends_performRun (h.thread t) f run).bind fun _ _ hs' => ⟨hs', trivial⟩

/-- **Every step keeps the invariant.** -/
theorem Ok.step (h : s.Ok spec) {a : FuzzAction T} (ha : SchedulesUsed spec placement s a)
    (hstep : step spec placement s a = some s') : s'.Ok spec := by
  cases a with
  | generate t run =>
    rw [FuzzSystem.step] at hstep
    split at hstep <;> cases hstep
    exact h.runIdle _ run
  | importFile t orig seedImport run =>
    rw [FuzzSystem.step] at hstep
    split at hstep <;> cases hstep
    exact h.runIdle _ run
  | schedule t id created =>
    rw [FuzzSystem.step] at hstep
    split at hstep <;> cases hstep
    exact h.runThread (ends_beginIter (h.thread t) _ id created ha)
  | minimizeRun t i first last update run =>
    rw [FuzzSystem.step] at hstep
    split at hstep <;> cases hstep
    rename_i id newBytes graphs hphase
    apply h.runThread
    exact (ends_minimizeRun (h.thread t) (h.of_phase hphase) i first last update run).bind
      fun graphs' f hf => ⟨hf.1, hf.2⟩
  | endMinimize t =>
    rw [FuzzSystem.step] at hstep
    split at hstep <;> cases hstep
    rename_i id newBytes graphs hphase
    exact h.runThread ⟨(h.thread t).refl, (h.of_phase hphase :)⟩
  | storeMinimized t dict =>
    rw [FuzzSystem.step] at hstep
    split at hstep <;> cases hstep
    · rename_i id g graphs hphase
      obtain ⟨hg, hgraphs⟩ := forall_mem_cons.1 (h.of_phase hphase)
      apply h.runThread
      exact (ends_storeMinimized (h.thread t) hg id dict).bind fun _ f hf => ⟨hf, hgraphs⟩
    · exact h.runThread ⟨(h.thread t).refl, trivial⟩
  | havocRun t run =>
    rw [FuzzSystem.step] at hstep
    split at hstep <;> cases hstep
    rename_i hv hphase
    exact h.runThread ((ends_havocRun (h.thread t) (h.of_phase hphase) run).mono
      (fun _ _ hf => hf.1) fun _ _ hf => hf.1)

end FuzzSystem

end FuzzSocketCan
