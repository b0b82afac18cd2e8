import FuzzSocketCan.StructuredFuzzer.BuilderWellFormed
import FuzzSocketCan.StructuredFuzzer.Mutator

/-! # Restarting from a snapshot

`prepare_snapshot` copies a prefix of a graph and captures the builder's state; each mutation from
the snapshot cuts the storage back and resets the builder. `reset_to` goes through the value types
the builder has *now*, and leaves `new_id_to_old_id` as it is.

* **`resetTo_eq_ok_iff`** — it restores the captured state exactly when no value type was first
  seen after the snapshot and the renaming maps have not changed.
* **`snapshot_restart`** — what a mutation does from there. -/

namespace FuzzSocketCan

open Lib List Option LawfulGraphStorage GraphState
open LawfulGraphStorage (Room)

/-! ## Resetting the builder's state -/

structure Restorable (captured current : GraphState) : Prop where
  /-- The value types are those of the snapshot. -/
  types : ∀ v, (current v).isSome = (captured v).isSome
  /-- The renaming of new ids to old ids is that of the snapshot. -/
  renamed : ∀ v, (current.stateOf v).newIdToOldId = (captured.stateOf v).newIdToOldId

theorem Restorable.refl (st : GraphState) : Restorable st st := ⟨fun _ => rfl, fun _ => rfl⟩

theorem resetTo_eq_ok_iff {captured current : GraphState} :
    current.resetTo captured = .ok captured ↔ Restorable captured current := by
  unfold resetTo
  constructor
  · intro h
    split at h
    · cases h
    · have hat : ∀ v, (current v).map (fun vs => vs.resetTo (captured.stateOf v)) = captured v :=
        fun v => congrFun (Except.ok.inj h) v
      refine ⟨fun v => ?_, fun v => ?_⟩
      · rw [← hat v, isSome_map]
      · have := hat v
        unfold stateOf at this ⊢
        cases hcur : current v with
        | none => rw [hcur] at this; rw [← this]; rfl
        | some vs =>
          rw [hcur] at this
          cases hcap : captured v with
          | none => rw [hcap] at this; cases this
          | some vs' =>
            rw [hcap] at this
            have heq : vs.resetTo vs' = vs' := some.inj this
            show (vs.resetTo vs').newIdToOldId = vs'.newIdToOldId
            rw [heq]
  · intro h
    have hkeys : ¬current.missingKey captured = true := by
      rw [missingKey_iff]
      rintro ⟨v, hsome, hnone⟩
      rw [h.types v, hnone] at hsome
      cases hsome
    rw [if_neg hkeys]
    refine congrArg Except.ok (funext fun v => ?_)
    have htypes := h.types v
    have hren := h.renamed v
    unfold stateOf at hren ⊢
    cases hcur : current v with
    | none =>
      cases hcap : captured v with
      | none => rfl
      | some vs' => rw [hcur, hcap] at htypes; cases htypes
    | some vs =>
      cases hcap : captured v with
      | none => rw [hcur, hcap] at htypes; cases htypes
      | some vs' =>
        rw [hcur, hcap] at hren
        have hren' : vs.newIdToOldId = vs'.newIdToOldId := hren
        simp [ValueState.resetTo, hren']

/-! ## Restarting -/

section

variable {S : Type} [GraphStorage S] [LawfulGraphStorage S] {spec : GraphSpec}
  {pre : List GraphNode} {w w₀ : World S} {snapshot : MutatorSnapshotState}

structure OnTop (pre : List GraphNode) (w : World S) : Prop where
  ops : ∃ xs, w.ops = opsOf pre ++ xs
  data : ∃ ys, w.data = dataOf pre ++ ys
  room : Room w.target.storage 0 0

theorem Extended.onTop (h : Extended spec pre w) : OnTop pre w := by
  obtain ⟨added, hadded⟩ := h
  exact ⟨⟨opsOf added, by rw [hadded.ops, opsOf_append]⟩,
    ⟨dataOf added, by rw [hadded.data, dataOf_append]⟩, hadded.room⟩

structure Prepared (spec : GraphSpec) (snapshot : MutatorSnapshotState) (w₀ : World S)
    (pre : List GraphNode) : Prop where
  skipOps : snapshot.skipOps = (opsOf pre).length
  skipData : snapshot.skipData = (dataOf pre).length
  state : snapshot.prefixGraphState = some w₀.state
  whole : ∀ node ∈ pre, node.IsNode spec
  tracks : Tracks w₀.state (eventsOf spec pre)
  onTop : OnTop pre w₀

theorem Prepared.start_eq (h : Prepared spec snapshot w₀ pre) (hw : OnTop pre w) :
    ∃ g, GraphStorage.truncateTo w.target.storage snapshot.skipOps snapshot.skipData = .ok g ∧
      opsAsSlice g = opsOf pre ∧ dataAsSlice g = dataOf pre ∧ Room g 0 0 ∧
        start snapshot w =
          match w.state.resetTo w₀.state with
          | .ok st => .ok ⟨⟩ ⟨st, { w.target with storage := g }⟩
          | .error e => .error e { w with target := { w.target with storage := g } } := by
  obtain ⟨xs, hops⟩ := hw.ops
  obtain ⟨ys, hdata⟩ := hw.data
  obtain ⟨g, hg, hops', hdata', hroom⟩ := truncateTo_spec hw.room hops hdata
  rw [← h.skipOps, ← h.skipData] at hg
  refine ⟨g, hg, hops', hdata', hroom, ?_⟩
  simp only [start, bind_run, get_run, hg, orPanic,
    pure_run, set_run, h.state]
  cases w.state.resetTo w₀.state with
  | ok st => rfl
  | error e => rfl

def World.reseed (w : World S) (x : Distributions) : World S :=
  { w with target := { w.target with dist := x, vecLens := [] } }

theorem OnTop.reseed (h : OnTop pre w) (x : Distributions) : OnTop pre (w.reseed x) :=
  ⟨h.ops, h.data, h.room⟩

theorem Prepared.start_restorable (h : Prepared spec snapshot w₀ pre) (hw : OnTop pre w)
    (hres : Restorable w₀.state w.state) (x : Distributions) :
    ∃ g, GraphStorage.truncateTo w.target.storage snapshot.skipOps snapshot.skipData = .ok g ∧
      start snapshot (w.reseed x) = .ok ⟨⟩ ⟨w₀.state, ⟨g, x, []⟩⟩ ∧
        Building spec ⟨w₀.state, ⟨g, x, []⟩⟩ pre := by
  obtain ⟨g, hg, hops, hdata, hroom, hstart⟩ := h.start_eq (hw.reseed x)
  refine ⟨g, hg, ?_, hops, hdata, ?_, fun _ => h.whole, h.tracks, hroom⟩
  · have hreset : (w.reseed x).state.resetTo w₀.state = .ok w₀.state := resetTo_eq_ok_iff.2 hres
    rw [hstart, hreset]
    rfl
  · intro node hnode
    obtain ⟨nType, operands, hn, hops, hlen, -⟩ := h.whole node hnode
    exact ⟨nType, operands, hn, hops, hlen⟩

/-! ## Preparing a snapshot -/

/-- `start` leaves room for `n` ops. -/
def StartsWithRoom (w : World S) (n : ℕ) : Prop :=
  ∀ w₁, start .none w = .ok ⟨⟩ w₁ → Room w₁.target.storage n 0

theorem ends_copyList {nodes : List GraphNode} {src : Iter Panic GraphNode} {n : ℕ}
    (hstop : src.stop = none) (hsrc : ∀ node ∈ src.items, node.IsNode spec)
    (h : Building spec w nodes) (hroom : Room w.target.storage ((opsOf src.items).length + n) 0) :
    Ends (forIter src (appendNode spec)) w (fun _ w' => Extended spec nodes w' ∧
      w'.target.vecLens = w.target.vecLens ∧ Room w'.target.storage n 0) outOfIds := by
  let I : List GraphNode → World S → Prop := fun rest w' => (∀ node ∈ rest, node.IsNode spec) ∧
    Extended spec nodes w' ∧ w'.target.vecLens = w.target.vecLens ∧
      Room w'.target.storage ((opsOf rest).length + n) 0
  refine (ends_forIter (I := I) hstop ⟨hsrc, h.extended, rfl, hroom⟩ ?_).weaken fun _ w' hw' => ?_
  · rintro node rest w₁ ⟨hrest, ⟨added, hadded⟩, hlens, hroom₁⟩
    rw [opsOf_cons, length_append, Nat.add_assoc] at hroom₁
    refine (ends_appendNode hadded (hrest node mem_cons_self) hroom₁).weaken
      fun _ w₂ hw₂ => ?_
    refine ⟨fun m hm => hrest m (mem_cons_of_mem _ hm), (hw₂.1.extended hadded).trans, ?_,
      hw₂.2⟩
    obtain rfl | ⟨-, -, -, -, hlens₂⟩ := hw₂.1
    · exact hlens
    · exact hlens₂.trans hlens
  · obtain ⟨-, hext, hlens, hroom'⟩ := hw'
    rw [opsOf_nil, length_nil, Nat.zero_add] at hroom'
    exact ⟨hext, hlens, hroom'⟩

theorem ends_prepareSnapshot {data : VecGraph} {cutoff : ℕ} {x : Distributions}
    (hdata : ((nodesOf spec data).take cutoff).stop = none)
    (hroom : StartsWithRoom (w.reseed x)
      ((opsOf ((nodesOf spec data).items.take cutoff)).length + 1)) :
    Ends (prepareSnapshot spec cutoff data) (w.reseed x) (fun snapshot w₀ =>
      snapshot.skipNodes = cutoff ∧ ∃ pre id, Prepared spec snapshot w₀ pre ∧
        spec.snapshotNodeId = some id ∧ w₀.ops = opsOf pre ++ [id] ∧ w₀.data = dataOf pre)
      fun _ _ => True := by
  obtain ⟨_, w₁, hstart, hw₁, hlens⟩ := (ends_start_none spec (w.reseed x) never).result
  rw [prepareSnapshot, ends_bind]
  refine ends_of_ok hstart ?_
  rw [ends_bind]
  refine (ends_copyList hdata (fun node hnode => isNode_of_mem_nodeIter
    (Iter.take_items_subset hnode)) hw₁ (hroom w₁ hstart)).mono (fun _ w₂ hw₂ => ?_)
    fun _ _ _ => trivial
  obtain ⟨⟨pre, hpre⟩, hlens₂, hroom₂⟩ := hw₂
  rw [nil_append] at hpre
  have hfit : w₂.VecsFit := by
    intro n hn
    rw [hlens₂, hlens] at hn
    exact absurd hn not_mem_nil
  cases hid : spec.snapshotNodeId with
  | none => trivial
  | some id =>
    simp only [ends_bind, ends_appendOp, ends_pure]
    have hemit := emitted_emit (n := 0) (m := 0) id hroom₂
    have hops : opsAsSlice (emit w₂.target.storage id) = opsOf pre ++ [id] := by
      rw [← hpre.ops]; exact hemit.ops
    have hdata : dataAsSlice (emit w₂.target.storage id) = dataOf pre := by
      rw [← hpre.data]; exact hemit.data
    refine ⟨trivial, pre, id, ⟨?_, ?_, rfl, hpre.whole hfit, hpre.tracks, ⟨[id], hops⟩,
      ⟨[], ?_⟩, hemit.room⟩, rfl, hops, hdata⟩
    · rw [← hpre.ops]; exact opLen_eq hpre.room
    · rw [← hpre.data]; exact dataLen_eq hpre.room
    · rw [append_nil]; exact hdata

omit [LawfulGraphStorage S] in
theorem stop_of_prepareSnapshot {data : VecGraph} {cutoff : ℕ} :
    Ends (prepareSnapshot spec cutoff data) w
      (fun _ _ => ((nodesOf spec data).take cutoff).stop = none) mayPanic := by
  rw [prepareSnapshot, ends_bind]
  refine ends_mayPanic fun _ w₁ _ => ?_
  refine (ends_forIter_stop _ _).bind fun _ w₂ hstop => ?_
  exact ends_mayPanic fun _ _ _ => hstop

/-! ## Runs from a snapshot -/

/-- The worlds reached from a snapshot by mutations, if every restart finds a restorable state. -/
inductive SnapshotRun (spec : GraphSpec) (snapshot : MutatorSnapshotState) (w₀ : World S) :
    World S → Prop
  | refl : SnapshotRun spec snapshot w₀ w₀
  | step {w w' : World S} (m : Mutation) (x : Distributions) :
      SnapshotRun spec snapshot w₀ w → m.Allowed S spec snapshot.skipNodes →
        Restorable w₀.state w.state → m.run spec snapshot (w.reseed x) = .ok ⟨⟩ w' →
          SnapshotRun spec snapshot w₀ w'

theorem Prepared.ends_mutation (hspec : spec.Usable) (h : Prepared spec snapshot w₀ pre)
    (hw : OnTop pre w) (hres : Restorable w₀.state w.state) {m : Mutation}
    (hm : m.Allowed S spec snapshot.skipNodes) (x : Distributions) :
    Ends (m.run spec snapshot) (w.reseed x) (fun _ w' => Extended spec pre w') outOfIds := by
  refine Mutation.ends_run hspec hm fun x' => ?_
  obtain ⟨g, -, hstart, hbuilding⟩ := h.start_restorable hw hres x'
  exact ends_of_ok hstart hbuilding.extended

theorem SnapshotRun.onTop (hspec : spec.Usable) (h : Prepared spec snapshot w₀ pre)
    (hrun : SnapshotRun spec snapshot w₀ w) : OnTop pre w := by
  induction hrun with
  | refl => exact h.onTop
  | step m x _ hm hres hstep ih => exact ((h.ends_mutation hspec ih hres hm x).of_ok hstep).onTop

end

end FuzzSocketCan
