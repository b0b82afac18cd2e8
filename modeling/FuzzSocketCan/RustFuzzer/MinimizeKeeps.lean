import FuzzSocketCan.RustFuzzer.Minimize
import FuzzSocketCan.StructuredFuzzer.BoundedStorage

/-! # What minimization keeps, and what it loses

`update_min_graphs` does not look at the exit reason of a run: an input is replaced by a shorter
one that timed out, which the queue then drops. In the stepwise phase the update is the right
operand of `||`: once an input was replaced, what later runs have found is lost.

* **`minimizeNewBytes_normal`** — when the exit class is kept.
* **`dropNode_keeps_iff`** — when a success is kept. -/

namespace FuzzSocketCan

open Lib

/-! ## The exit class -/

def ExitReason.isNormal : ExitReason → Bool
  | normal _ => true
  | _ => false

/-- The queue keeps the input. -/
structure MinInput.Storable (spec : GraphSpec) (g : MinInput) : Prop where
  id_eq : g.id = InputID.invalid
  normal : g.exitReason.isNormal = true
  nodes : ∃ n, g.data.nodeLen spec = .ok n ∧ n ≠ 0

def MinUpdate.OnlyNormal (spec : GraphSpec) (newBytes : List StorageReason) (graphs : List MinInput)
    (u : MinUpdate) : Prop :=
  ∀ newLen i r, u.graph.nodeLen spec = .ok newLen → newBytes[i]? = some r →
    u.accepts spec newLen graphs (r, i) = .ok true → u.info.exitreason.isNormal = true ∧ newLen ≠ 0

section Add

variable {spec : GraphSpec} {input : Input} {n : ℕ}

theorem ExitReason.isStored_of_isNormal {e : ExitReason} (h : e.isNormal = true) :
    e.isStored = true := by
  cases e with
  | normal c => rfl
  | _ => cases h

theorem add_of_not_stored (hid : input.id = InputID.invalid) (hlen : input.data.nodeLen spec = .ok n)
    (hexit : input.exitReason.isStored = false) (order : IterOrder) (d : QueueData) :
    add spec order input d = .ok none d := by
  have hbegin : beginAdd spec input d = .ok none d := by
    unfold beginAdd
    rw [check_bind_run hid, hlen, orPanic_bind_run, hexit, if_neg Bool.false_ne_true, ite_self]
    rfl
  unfold add
  rw [bind_run_ok hbegin]
  rfl

theorem MinInput.Storable.add_ne_none {g : MinInput} (h : g.Storable spec) (order : IterOrder)
    (d d' : QueueData) : add spec order g.toInput d ≠ .ok none d' := by
  obtain ⟨n, hn, hpos⟩ := h.nodes
  have hadd : Ends (add spec order g.toInput) d (fun id _ => id ≠ none) mayPanic := by
    unfold add beginAdd
    rw [ends_bind, ends_bind, ends_check_of h.id_eq, ends_bind, hn, ends_orPanic_ok, if_neg hpos,
      if_pos (ExitReason.isStored_of_isNormal h.normal), ends_map]
    refine ends_mayPanic fun id d1 _ => ?_
    unfold endAdd
    rw [ends_bind]
    exact ends_mayPanic fun _ _ _ => Option.some_ne_none id
  exact fun hnone => hadd.of_ok hnone rfl

end Add

def StorableFor (spec : GraphSpec) : List StorageReason → List MinInput → Prop :=
  Covered fun r g => r ∈ g.storageReasons ∧ g.Storable spec

theorem StorableFor.step {spec : GraphSpec} {newBytes : List StorageReason}
    {graphs graphs' : List MinInput} {u : MinUpdate} (h : StorableFor spec newBytes graphs)
    (hu : u.OnlyNormal spec newBytes graphs)
    (hstep : updateStep spec newBytes graphs u = some graphs') :
    StorableFor spec newBytes graphs' := by
  refine Covered.step h hstep fun newLen reasons i r hlen hmem hr haccept => ⟨hmem, ?_⟩
  obtain ⟨hnormal, hne⟩ := hu newLen i r hlen hr haccept
  exact ⟨rfl, hnormal, newLen, hlen, hne⟩

/-- **The exit class is kept**, under a condition on the updates. -/
theorem minimizeNewBytes_normal {spec : GraphSpec} {input : MinInput} {n : ℕ}
    (hnormal : input.exitReason.isNormal = true) (hlen : input.data.nodeLen spec = .ok n)
    (hne : n ≠ 0) {s s' : Minimizer} {returned : List MinInput}
    (hrun : minimizeNewBytes spec input s = .ok returned s')
    (hupdates : EachStep (updateStep spec input.newBytes)
      (MinUpdate.OnlyNormal spec input.newBytes) input.copies s'.updates) :
    (∀ g ∈ returned, g.exitReason.isNormal = true ∧
      ∀ order d d', add spec order g.toInput d ≠ .ok none d') ∧
    ∀ r ∈ input.newBytes, ∃ g ∈ returned, r ∈ g.storageReasons := by
  obtain ⟨htraced, rfl⟩ := (ends_minimizeNewBytes spec input s).of_ok hrun
  have hstart : StorableFor spec input.newBytes input.copies :=
    covered_copies fun r hr => ⟨hr, rfl, hnormal, n, hlen, hne⟩
  have hend : StorableFor spec input.newBytes s'.graphs :=
    exec_invariant_of_eachStep (fun _ _ _ h hu hstep => h.step hu hstep) hupdates hstart htraced
  refine ⟨fun g hg => ?_, fun r hr => ?_⟩
  · obtain ⟨i, hi⟩ := List.mem_iff_getElem?.1 hg
    obtain ⟨r, -, -, hstorable⟩ := Covered.exists_byte hend hi
    exact ⟨hstorable.normal, hstorable.add_ne_none⟩
  · obtain ⟨g, hg, hreason, -⟩ := Covered.exists_mem hend hr
    exact ⟨g, hg, hreason⟩

def Minimizer.constant (answer : RunnerAnswer) : Minimizer where
  world := .buffers 16 16 []
  runner _ := answer
  runs := 0
  bitmap := []
  ijonMax := []
  graphs := []
  updates := []

def seesByte (exitreason : ExitReason) : RunnerAnswer :=
  ⟨.ofList [], .ok (some ⟨3, exitreason⟩), [0, 1], []⟩

def MinUpdate.isNormal (spec : GraphSpec) (u : MinUpdate) : Bool :=
  u.info.exitreason.isNormal && match u.graph.nodeLen spec with
    | .ok n => decide (n ≠ 0)
    | .error _ => false

theorem MinUpdate.onlyNormal_of_isNormal {spec : GraphSpec} {u : MinUpdate}
    (h : u.isNormal spec = true) (newBytes : List StorageReason) (graphs : List MinInput) :
    u.OnlyNormal spec newBytes graphs := by
  intro newLen i r hlen _ _
  unfold MinUpdate.isNormal at h
  rw [hlen, Bool.and_eq_true, decide_eq_true_iff] at h
  exact h

def minimized (exitreason : ExitReason) : Minimizer :=
  lastState (minimizeNewBytes connectionSpec threeOpens (.constant (seesByte exitreason)))

theorem minimizeNewBytes_eq_ok {spec : GraphSpec} {input : MinInput} {s : Minimizer}
    (h : panicOf (minimizeNewBytes spec input s) = none) :
    minimizeNewBytes spec input s = .ok (lastState (minimizeNewBytes spec input s)).graphs
      (lastState (minimizeNewBytes spec input s)) := by
  obtain ⟨returned, hrun, -, rfl⟩ := (ends_minimizeNewBytes spec input s).of_panicOf h
  exact hrun

theorem minimizeNewBytes_normal_threeOpens :
    minimizeNewBytes connectionSpec threeOpens (.constant (seesByte (.normal 0))) =
        .ok (minimized (.normal 0)).graphs (minimized (.normal 0)) ∧
      (minimized (.normal 0)).updates.all (MinUpdate.isNormal connectionSpec) = true ∧
      (∀ g ∈ (minimized (.normal 0)).graphs, g.exitReason.isNormal = true ∧
        ∀ order d d', add connectionSpec order g.toInput d ≠ .ok none d') ∧
      ∀ r ∈ threeOpens.newBytes, ∃ g ∈ (minimized (.normal 0)).graphs, r ∈ g.storageReasons := by
  have hrun : minimizeNewBytes connectionSpec threeOpens (.constant (seesByte (.normal 0))) =
      .ok (minimized (.normal 0)).graphs (minimized (.normal 0)) :=
    minimizeNewBytes_eq_ok (by decide +kernel)
  have hall : (minimized (.normal 0)).updates.all (MinUpdate.isNormal connectionSpec) = true := by
    decide +kernel
  have hnormal : threeOpens.exitReason.isNormal = true := rfl
  have hlen : threeOpens.data.nodeLen connectionSpec = .ok 3 := by decide +kernel
  -- only these facts about the last state are used
  generalize minimized (.normal 0) = s' at hrun hall ⊢
  have hupdates := fun u hu =>
    MinUpdate.onlyNormal_of_isNormal (List.all_eq_true.1 hall u hu) threeOpens.newBytes
  exact ⟨hrun, hall, minimizeNewBytes_normal hnormal hlen (by decide) hrun
    (eachStep_of_forall_mem hupdates _)⟩

theorem minimizeNewBytes_timeout :
    threeOpens.exitReason.isNormal = true ∧
      minimizeNewBytes connectionSpec threeOpens (.constant (seesByte .timeout)) =
        .ok (minimized .timeout).graphs (minimized .timeout) ∧
      ∃ g, (minimized .timeout).graphs = [g] ∧ g.exitReason = .timeout ∧
        ∀ order d, add connectionSpec order g.toInput d = .ok none d := by
  refine ⟨rfl, minimizeNewBytes_eq_ok (by decide +kernel), ?_⟩
  have hgraphs : (minimized .timeout).graphs.map (fun g => (g.id, g.data, g.exitReason)) =
      [(InputID.invalid, ⟨[0, 1, 0, 2], []⟩, .timeout)] := by
    decide +kernel
  obtain ⟨g, hg, hfields⟩ := List.map_eq_singleton_iff.1 hgraphs
  obtain ⟨hid, hfields⟩ := Prod.mk.inj hfields
  obtain ⟨hdata, hexit⟩ := Prod.mk.inj hfields
  refine ⟨g, hg, hexit, add_of_not_stored (n := 2) hid ?_ ?_⟩
  · rw [hdata]
    decide +kernel
  · rw [hexit]
    rfl

/-! ## The stepwise phase -/

section Stepwise

variable {spec : GraphSpec} {newBytes : List StorageReason} {s s' : Minimizer} {i : ℕ}

theorem ends_performRun (f : Build RefGraph PUnit) (s : Minimizer) :
    Ends (performRun f) s
      (fun res s' => s'.graphs = s.graphs ∧ (s.runner s.runs).outcome = .ok res)
      (fun _ s' => s'.graphs = s.graphs) := by
  unfold performRun
  rw [ends_bind, ends_modify, ends_bind, ends_focus]
  unfold Ends
  cases f s.reseed.world with
  | error e w => rfl
  | ok _ w =>
    show Ends (orPanic (s.runner s.runs).outcome) _ _ _
    cases (s.runner s.runs).outcome with
    | ok res => exact ⟨rfl, rfl⟩
    | error e => rfl

theorem ends_graphAt (s : Minimizer) (i : ℕ) :
    Ends (graphAt i) s (fun g s' => s' = s ∧ s.graphs[i]? = some g) (fun _ s' => s' = s) := by
  unfold graphAt
  rw [ends_bind, ends_get]
  cases s.graphs[i]? with
  | some g => exact ⟨rfl, rfl⟩
  | none => rfl

theorem ends_dropNode_of_updated (idx : ℕ) (s : Minimizer) :
    Ends (dropNode spec i newBytes idx true) s
      (fun updated s' => updated = true ∧ s'.graphs = s.graphs)
      (fun _ s' => s'.graphs = s.graphs) := by
  unfold dropNode
  rw [ends_bind]
  refine (ends_graphAt s i).mono ?_ (fun _ _ h => congrArg _ h)
  rintro g _ ⟨rfl, -⟩
  refine (ends_performRun _ _).bind ?_
  rintro (_ | info) s' ⟨hgraphs, -⟩
  · exact ⟨rfl, hgraphs⟩
  · exact ⟨rfl, hgraphs⟩

theorem ends_dropNode_of_not_updated (idx : ℕ) {info : TestInfo}
    (hinfo : (s.runner s.runs).outcome = .ok (some info)) :
    Ends (dropNode spec i newBytes idx false) s
      (fun updated s' =>
        updateMinGraphs spec newBytes s.graphs (s'.update info) = .ok (s'.graphs, updated))
      mayPanic := by
  unfold dropNode
  rw [ends_bind]
  refine (ends_graphAt s i).mono ?_ fun _ _ _ => trivial
  rintro g _ ⟨rfl, -⟩
  rw [ends_bind]
  refine (ends_performRun _ _).mono ?_ fun _ _ _ => trivial
  rintro res s1 ⟨hgraphs, hres⟩
  obtain rfl := Except.ok.inj (hres.symm.trans hinfo)
  show Ends (callUpdate spec newBytes info) s1 _ _
  unfold callUpdate
  rw [ends_bind, ends_get, ends_bind, hgraphs]
  cases hupdate : updateMinGraphs spec newBytes _ (s1.update info) with
  | error e => trivial
  | ok r => exact hupdate

/-- **A success is kept if and only if it is the first** in this call of `minimize_one_byte`. -/
theorem dropNode_keeps_iff {idx len newLen : ℕ} {updated updated' : Bool} {r : StorageReason}
    {kept : MinInput} {info : TestInfo}
    (hrun : dropNode spec i newBytes idx updated s = .ok updated' s') (hr : newBytes[i]? = some r)
    (hkept : s.graphs[i]? = some kept) (hinfo : (s.runner s.runs).outcome = .ok (some info))
    (hvalid : r.stillValid s'.bitmap s'.ijonMax = .ok true)
    (hlen : kept.data.nodeLen spec = .ok len)
    (hnew : (asVecGraph s'.world.target.storage).nodeLen spec = .ok newLen) (hlt : newLen < len) :
    (∃ g, s'.graphs[i]? = some g ∧ g.data = asVecGraph s'.world.target.storage) ↔
      updated = false := by
  cases updated with
  | true =>
    obtain ⟨-, hgraphs⟩ := (ends_dropNode_of_updated idx s).of_ok hrun
    -- the input is still the one with more nodes
    refine iff_of_false ?_ (Ne.symm Bool.false_ne_true)
    rintro ⟨g, hg, hdata⟩
    rw [hgraphs, hkept] at hg
    obtain rfl := Option.some.inj hg
    rw [hdata, hnew] at hlen
    exact absurd (Except.ok.inj hlen) hlt.ne
  | false =>
    refine iff_of_true ?_ rfl
    have hupdate := (ends_dropNode_of_not_updated idx hinfo).of_ok hrun
    obtain ⟨newLen', reasons, hnew', -, hget⟩ := updateMinGraphs_eq_ok hupdate
    obtain rfl := Except.ok.inj (hnew.symm.trans hnew')
    have haccept : (s'.update info).accepts spec newLen s.graphs (r, i) = .ok true :=
      MinUpdate.accepts_of hvalid hkept hlen hlt
    rcases hget i r hr with ⟨-, hfalse⟩ | ⟨hinput, -, -⟩
    · rw [haccept] at hfalse
      cases hfalse
    · exact ⟨_, hinput, rfl⟩

end Stepwise

def beforeDrops : Minimizer :=
  { Minimizer.constant (seesByte (.normal 0)) with graphs := threeOpens.copies }

def afterDrop : Minimizer :=
  lastState (dropNode connectionSpec 0 threeOpens.newBytes 2 false beforeDrops)

def afterDrops : Minimizer :=
  lastState (dropNode connectionSpec 0 threeOpens.newBytes 1 true afterDrop)

theorem dropNode_beforeDrops :
    dropNode connectionSpec 0 threeOpens.newBytes 2 false beforeDrops = .ok true afterDrop :=
  eq_ok_of_resultOf (by decide +kernel)

theorem dropNode_afterDrop :
    dropNode connectionSpec 0 threeOpens.newBytes 1 true afterDrop = .ok true afterDrops :=
  eq_ok_of_resultOf (by decide +kernel)

theorem dropNode_keeps_afterDrop :
    dropNode connectionSpec 0 threeOpens.newBytes 2 false beforeDrops = .ok true afterDrop ∧
      ((∃ g, afterDrop.graphs[0]? = some g ∧
        g.data = asVecGraph afterDrop.world.target.storage) ↔ false = false) :=
  ⟨dropNode_beforeDrops, dropNode_keeps_iff dropNode_beforeDrops rfl rfl rfl (by decide +kernel)
    (by decide +kernel) (by decide +kernel) (by decide : 2 < 3)⟩

theorem second_drop_lost :
    minimizeStepwise connectionSpec 0 threeOpens.newBytes 3 numIters false beforeDrops =
        minimizeStepwise connectionSpec 0 threeOpens.newBytes 1 (numIters - 2) true afterDrops ∧
      (StorageReason.bitmap ⟨1, 0, 5⟩).stillValid afterDrops.bitmap afterDrops.ijonMax = .ok true ∧
      asVecGraph afterDrops.world.target.storage = ⟨[0, 1], []⟩ ∧
      afterDrops.graphs.map (·.data) = [⟨[0, 1, 0, 2], []⟩] := by
  refine ⟨?_, by decide +kernel, by decide +kernel, by decide +kernel⟩
  rw [numIters, minimizeStepwise, bind_run_ok dropNode_beforeDrops, minimizeStepwise,
    bind_run_ok dropNode_afterDrop]

end FuzzSocketCan
