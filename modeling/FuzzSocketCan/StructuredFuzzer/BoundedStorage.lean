import FuzzSocketCan.StructuredFuzzer.BuilderWellFormed
import FuzzSocketCan.StructuredFuzzer.Mutator

/-! # The guarded strategies in bounded storage

All strategies but `splice` test before each node whether the storage is full, so the graph that a
guarded strategy leaves in a `RefGraph` of any capacity consists of whole nodes
(**`guarded_run_bounded`**). Invalid dictionaries, missing data types and more values than ids make
a strategy panic (**`guarded_run_refuted`**). -/

namespace FuzzSocketCan

open Lib List

variable {spec : GraphSpec}

theorem Mutation.ends_run_none {S : Type} [GraphStorage S] [LawfulGraphStorage S]
    (hspec : spec.Usable) {m : Mutation} (hm : m.Allowed S spec 0) (w : World S) :
    Ends (m.run spec .none) w (fun _ w' => Extended spec [] w') outOfIds :=
  Mutation.ends_run hspec (show m.Allowed S spec MutatorSnapshotState.none.skipNodes from hm) fun _ =>
    (ends_start_none spec _ outOfIds).weaken fun _ _ hw => hw.1.extended

/-- **The guarded strategies respect bounded storage.** -/
theorem guarded_run_bounded (hspec : spec.Usable) {m : Mutation} (hm : m.Allowed RefGraph spec 0)
    (w : World RefGraph) (hids : (lastState (m.run spec .none w)).Bounded)
    (hvecs : (lastState (m.run spec .none w)).VecsFit) :
    ∃ w' nodes, m.run spec .none w = .ok ⟨⟩ w' ∧
      w'.target.storage.opsI ≤ w'.target.storage.ops.length ∧
        w'.target.storage.dataI ≤ w'.target.storage.data.length ∧
          nodesOf spec w'.target.storage = .ofList nodes ∧
            opsOf nodes = w'.target.storage.ops.take w'.target.storage.opsI ∧
              dataOf nodes = w'.target.storage.data.take w'.target.storage.dataI := by
  obtain ⟨_, w', hrun, hlast, nodes, hw'⟩ :=
    (Mutation.ends_run_none hspec hm w).result_of fun _ hout => hout hids
  rw [← hlast] at hvecs
  obtain ⟨nodes', ops, hnodes, hops, hdata, -⟩ := hw'.readBack hvecs
  exact ⟨w', nodes', hrun, hw'.room.1, hw'.room.2, hnodes, hops, hdata⟩

theorem bounded_of_run_none (hspec : spec.Usable) {m : Mutation} (hm : m.Allowed RefGraph spec 0)
    {w : World RefGraph} (hpanic : panicOf (m.run spec .none w) = none)
    (hlen : (lastState (m.run spec .none w)).ops.length < 65535) :
    (lastState (m.run spec .none w)).Bounded :=
  bounded_of_ends (Mutation.ends_run_none hspec hm w) hpanic hlen

def World.buffers (n m : ℕ) (draws : List ℕ) : World RefGraph :=
  ⟨GraphState.new, ⟨⟨List.replicate n 0, 0, List.replicate m 0, 0⟩, .ofList draws, []⟩⟩

def openTail : Mutation := .generateTail ⟨[0, 7], []⟩ 1 ⟨0, 1⟩

theorem openTail_allowed : openTail.Allowed RefGraph connectionSpec 0 :=
  ⟨by decide +kernel, connectionSpec_hasSource, by decide, by decide⟩

theorem guarded_run_bounded_open :
    (lastState (openTail.run connectionSpec .none (.buffers 8 8 [2]))).target.storage =
      ⟨[0, 1, 2, 1, 0, 0, 0, 0], 4, List.replicate 8 0, 0⟩ ∧
    ∃ w' nodes, openTail.run connectionSpec .none (.buffers 8 8 [2]) = .ok ⟨⟩ w' ∧
      w'.target.storage.opsI ≤ w'.target.storage.ops.length ∧
        w'.target.storage.dataI ≤ w'.target.storage.data.length ∧
          nodesOf connectionSpec w'.target.storage = .ofList nodes ∧
            opsOf nodes = w'.target.storage.ops.take w'.target.storage.opsI ∧
              dataOf nodes = w'.target.storage.data.take w'.target.storage.dataI := by
  refine ⟨by decide +kernel, guarded_run_bounded connectionSpec_usable openTail_allowed _ ?_ ?_⟩
  · exact bounded_of_run_none connectionSpec_usable openTail_allowed (by decide +kernel)
      (by decide +kernel)
  · have hlens : (lastState (openTail.run connectionSpec .none (.buffers 8 8 [2]))).target.vecLens =
        [] := by decide +kernel
    intro n hn
    rw [hlens] at hn
    exact absurd hn not_mem_nil

def openSend : VecGraph := ⟨[0, 7, 1, 7], [1, 0, 5]⟩

/-! ## What the conditions leave out -/

/-- The strategy panics, although sizes, generators and headers are as they should be and some node
type needs no values. -/
structure Mutation.Refutes (spec : GraphSpec) (m : Mutation) (w : World RefGraph) : Prop where
  data : ∀ s ∈ spec.dataSpecs, s.atomicType.Usable ∧ s.atomicType.SizedElems
  source : spec.HasSource
  vecs : (lastState (m.run spec .none w)).VecsFit
  panics : (panicOf (m.run spec .none w)).isSome

theorem Mutation.Refutes.of_nil {m : Mutation} {w : World RefGraph}
    (hdata : ∀ s ∈ spec.dataSpecs, s.atomicType.Usable ∧ s.atomicType.SizedElems)
    (hsource : spec.HasSource) (hlens : (lastState (m.run spec .none w)).target.vecLens = [])
    (hpanics : (panicOf (m.run spec .none w)).isSome) : m.Refutes spec w := by
  refine ⟨hdata, hsource, fun n hn => ?_, hpanics⟩
  rw [hlens] at hn
  exact absurd hn not_mem_nil

def oneWord : VecGraph := ⟨[0], [2, 0, 8, 0]⟩

def mutateWords (dict : CustomDict) : Mutation := .mutateData oneWord 1 dict

theorem refutes_mutateWords {dict : CustomDict} {draws : List ℕ}
    (hlens : (lastState ((mutateWords dict).run wordsSpec .none
      (.buffers 8 8 draws))).target.vecLens = [])
    (hpanics : (panicOf ((mutateWords dict).run wordsSpec .none (.buffers 8 8 draws))).isSome) :
    (mutateWords dict).Refutes wordsSpec (.buffers 8 8 draws) := by
  refine .of_nil wordsSpec_data ?_ hlens hpanics
  exact ⟨wordsSpec.nodeSpecs.head (by decide), head_mem _, by decide, by decide, by decide⟩

theorem opensSpec_hasSource : opensSpec.HasSource :=
  ⟨opensSpec.nodeSpecs.head (by decide), head_mem _, by decide, by decide, by decide⟩

theorem ends_opens {n : ℕ} {w : World RefGraph}
    (hroom : LawfulGraphStorage.Room w.target.storage (2 * n + 2) 1)
    (hlens : w.target.vecLens = []) :
    Ends (appendRandom opensSpec n) w (fun r w' => r = .ok ⟨⟩ ∧
      (w'.state.stateOf 0).curId.toNat = (w.state.stateOf 0).curId.toNat + n)
      (fun _ w' => w'.target.vecLens = []) := by
  induction n generalizing w with
  | zero => exact ⟨rfl, rfl⟩
  | succ n ih =>
    obtain ⟨hops, hdata⟩ := id hroom
    have hopsAvail : 2 < GraphStorage.opsAvailable w.target.storage := by
      show 2 < w.target.storage.ops.length - w.target.storage.opsI
      omega
    have hdataAvail : 0 < GraphStorage.dataAvailable w.target.storage := by
      show 0 < w.target.storage.data.length - w.target.storage.dataI
      omega
    refine ends_ite (fun hfull => ?_) fun _ => ?_
    · exact absurd hfull (by
        simp only [isFull, Bool.or_eq_true, decide_eq_true_eq, not_or]
        exact ⟨not_le.2 hdataAvail, not_le.2 hopsAvail⟩)
    rw [ends_bind]
    refine ends_pickAvailableType opensSpec_hasSource w fun id x havail _ => ?_
    obtain ⟨nType, hn, -⟩ := GraphState.isAvailable_iff.1 havail
    obtain rfl : nType = NodeSpec.new "open" 0 none [] [] [0] :=
      mem_singleton.1 (GraphSpec.mem_of_getNode hn)
    have hcan : canGenerateNode opensSpec (NodeSpec.new "open" 0 none [] [] [0])
        { w with target := { w.target with dist := x } } = .ok true := by
      have hfits : ¬2 > GraphStorage.opsAvailable w.target.storage := by omega
      exact if_neg hfits
    simp only [appendRandomNode, hn, ends_bind, ends_get, hcan, ends_orPanic_ok, if_true]
    simp only [ends_appendOp, appendRandomOperands, NodeSpec.new, forEach, ends_bind, ends_pure,
      ends_withState]
    by_cases hcur : (w.state.stateOf 0).curId.toNat < 65535
    · obtain ⟨c, hc, hnext⟩ := nextConnector_ok hcur
      simp only [ValueState.insertNewId, hc, bind, Except.bind, ends_orPanic_ok]
      have hroom₁ := (emitted_emit (n := 2 * n + 3) id hroom).room
      have hrest := fun vs => ih (w := ⟨w.state.insert 0 vs, ⟨_, x, w.target.vecLens⟩⟩)
        (emitted_emit c hroom₁).room hlens
      refine (hrest _).weaken fun r w' hw' => ⟨hw'.1, ?_⟩
      rw [hw'.2, GraphState.stateOf_insert_self, hnext]
      omega
    · rw [ValueState.insertNewId_overflow hcur]
      exact hlens

theorem refutes_opens {n m : ℕ} (hn : 2 * 65536 + 2 ≤ n) (hm : 1 ≤ m) :
    (Mutation.generate 65536).Refutes opensSpec (.buffers n m []) := by
  let w : World RefGraph := .buffers n m []
  have hstart : start .none w = .ok ⟨⟩ ⟨w.state.clear, w.target⟩ :=
    start_none_run (if_pos ⟨Nat.zero_le _, Nat.zero_le _⟩)
  have hroom : LawfulGraphStorage.Room w.target.storage (2 * 65536 + 2) 1 := by
    show 0 + _ ≤ (List.replicate n (0 : UInt16)).length ∧ 0 + 1 ≤ (List.replicate m (0 : UInt8)).length
    rw [length_replicate, length_replicate, zero_add]
    exact ⟨hn, hm⟩
  have hends := ends_opens (w := ⟨w.state.clear, w.target⟩) hroom rfl
  have hrun : (Mutation.generate 65536).run opensSpec .none w =
      appendRandomUnwrap opensSpec 65536 ⟨w.state.clear, w.target⟩ := bind_run_ok hstart
  cases hres : appendRandom opensSpec 65536 (⟨w.state.clear, w.target⟩ : World RefGraph) with
  | ok r w' =>
    have hids := (hends.of_ok hres).2
    have hlt := (w'.state.stateOf 0).curId.toNat_lt
    have hzero : (w.state.clear.stateOf 0).curId.toNat = 0 := rfl
    omega
  | error e w' =>
    have herror : (Mutation.generate 65536).run opensSpec .none w = .error e w' := by
      rw [hrun, appendRandomUnwrap, bind_run, hres]
    refine .of_nil (forall_mem_nil _) opensSpec_hasSource ?_ ?_
    · rw [herror]
      exact hends.of_error hres
    · rw [herror]
      rfl

/-- **Every condition that is added is needed.** -/
theorem guarded_run_refuted :
    nodesOf wordsSpec oneWord = .ofList [⟨0, 0, [0], [2, 0, 8, 0]⟩] ∧
      (mutateWords ⟨[[]]⟩).Refutes wordsSpec (.buffers 8 8 [0, 0, 0]) ∧
      (mutateWords ⟨[[⟨[], []⟩]]⟩).Refutes wordsSpec (.buffers 8 8 [0, 0, 0]) ∧
        (mutateWords ⟨[[⟨[8], [9, 9, 9]⟩]]⟩).Refutes wordsSpec (.buffers 8 8 [0, 0, 0]) ∧
          (Mutation.generate 1).Refutes danglingSpec (.buffers 8 8 []) ∧
            (Mutation.generate 65536).Refutes opensSpec (.buffers 131074 1 []) := by
  refine ⟨rfl, refutes_mutateWords (by decide +kernel) (by decide +kernel),
    refutes_mutateWords (by decide +kernel) (by decide +kernel),
    refutes_mutateWords (by decide +kernel) (by decide +kernel),
    .of_nil (forall_mem_nil _) ?_ (by decide +kernel) (by decide +kernel), ?_⟩
  · exact ⟨danglingSpec.nodeSpecs.head (by decide), head_mem _, by decide, by decide, by decide⟩
  · exact refutes_opens (by decide) (by decide)

end FuzzSocketCan
