import FuzzSocketCan.StructuredFuzzer.BuilderInvariant
import FuzzSocketCan.StructuredFuzzer.RegexTotality

/-! # Well-formedness of what the builder writes

Whatever the builder was used for before, no sequence of calls in a growing storage panics, and
the graph that results splits into whole nodes with a well-formed dataflow
(**`runCalls_wellFormed`**). Five kinds of input make a call panic and are excluded by `Usable` and
`Allowed` (**`runCalls_refuted`**). -/

namespace FuzzSocketCan

open Lib List

inductive Call
  | appendNode (node : GraphNode)
  | appendNodeMutated (node : GraphNode) (dict : CustomDict)
  | appendRandom (n : ℕ)
  | dropNodeAt (frag : VecGraph) (index : ℕ)

namespace Call

def run (spec : GraphSpec) : Call → Build VecGraph PUnit
  | appendNode node => FuzzSocketCan.appendNode spec node
  | appendNodeMutated node dict => FuzzSocketCan.appendNodeMutated spec node dict
  | appendRandom n => appendRandomUnwrap spec n
  | dropNodeAt frag index => FuzzSocketCan.dropNodeAt spec frag index

def Parseable (spec : GraphSpec) (node : GraphNode) : Prop :=
  ∃ ops data, node ∈ (nodeIter spec ops data).items

def Sourced (spec : GraphSpec) : Call → Prop
  | appendNode node | appendNodeMutated node _ => Parseable spec node
  | appendRandom _ => spec.HasSource
  | dropNodeAt frag _ => (nodesOf spec frag).stop = none

def dicts : Call → List CustomDict
  | appendNodeMutated _ dict => [dict]
  | appendNode _ | appendRandom _ | dropNodeAt _ _ => []

def Allowed (spec : GraphSpec) (call : Call) : Prop :=
  call.Sourced spec ∧ ∀ dict ∈ call.dicts, dict.Valid

theorem Parseable.isNode {spec : GraphSpec} {node : GraphNode} (h : Parseable spec node) :
    node.IsNode spec := by
  obtain ⟨ops, data, h⟩ := h
  exact isNode_of_mem_nodeIter h

end Call

def runCalls (spec : GraphSpec) (calls : List Call) : Build VecGraph PUnit := do
  start .none
  forEach calls (Call.run spec)

variable {spec : GraphSpec} {w : World VecGraph}

theorem ends_call (hspec : spec.Usable) {call : Call} (hcall : call.Allowed spec)
    (h : Extended spec [] w) :
    Ends (call.run spec) w (fun _ w' => Extended spec [] w') outOfIds := by
  obtain ⟨nodes, hnodes⟩ := h
  obtain ⟨hsource, hdict⟩ := hcall
  cases call with
  | appendNode node =>
    exact (ends_appendNode (n := 0) hnodes hsource.isNode trivial).weaken
      fun _ _ h => (h.1.extended hnodes).trans
  | appendNodeMutated node dict =>
    refine (ends_appendNodeMutated (n := 0) hspec (hdict dict (mem_singleton_self _)) hnodes
      hsource.isNode trivial).weaken ?_
    exact fun _ _ h => (h.1.extended hnodes).trans
  | appendRandom n =>
    exact (ends_appendRandomUnwrap hspec hsource n hnodes).weaken fun _ _ h => h.trans
  | dropNodeAt frag index => exact ends_dropNodeAt hsource fun _ _ _ => trivial

theorem ends_runCalls (hspec : spec.Usable) {calls : List Call}
    (hcalls : ∀ call ∈ calls, call.Allowed spec) (w : World VecGraph) :
    Ends (runCalls spec calls) w (fun _ w' => Extended spec [] w') outOfIds := by
  rw [runCalls]
  refine (ends_start_none spec w outOfIds).bind fun _ w₁ hw₁ => ?_
  let I : List Call → World VecGraph → Prop := fun rest w' =>
    (∀ call ∈ rest, call.Allowed spec) ∧ Extended spec [] w'
  refine (ends_forEach (I := I) ⟨hcalls, hw₁.1.extended⟩ ?_).weaken fun _ _ h => h.2
  rintro call rest w₂ ⟨hrest, hw₂⟩
  refine (ends_call hspec (hrest call mem_cons_self) hw₂).weaken fun _ w₃ hw₃ => ?_
  exact ⟨fun c hc => hrest c (mem_cons_of_mem _ hc), hw₃⟩

/-- **No sequence of calls panics, and the graph it builds is well formed.** -/
theorem runCalls_wellFormed (hspec : spec.Usable) {calls : List Call}
    (hcalls : ∀ call ∈ calls, call.Allowed spec) (w : World VecGraph)
    (hids : (lastState (runCalls spec calls w)).Bounded)
    (hvecs : (lastState (runCalls spec calls w)).VecsFit) :
    ∃ w' nodes ops, runCalls spec calls w = .ok ⟨⟩ w' ∧
      nodesOf spec w'.target.storage = .ofList nodes ∧ opsOf nodes = w'.target.storage.ops ∧
        dataOf nodes = w'.target.storage.data ∧
          operationsOf spec w'.target.storage = .ofList ops ∧ WellFormed ops := by
  obtain ⟨_, w', hrun, hlast, nodes, hw'⟩ :=
    (ends_runCalls hspec hcalls w).result_of fun _ hout => hout hids
  rw [← hlast] at hvecs
  obtain ⟨nodes', ops, hread⟩ := hw'.readBack hvecs
  exact ⟨w', nodes', ops, hrun, hread⟩

def World.fresh (draws : List ℕ) : World VecGraph :=
  ⟨GraphState.new, ⟨.empty, .ofList draws, []⟩⟩

theorem connectionSpec_usable : connectionSpec.Usable := by
  have hdata : connectionSpec.dataSpecs =
      [⟨"byte", 0, .int 1 []⟩, ⟨"bytes", 1, .vec (0, 4) 1 0 []⟩] := rfl
  refine ⟨fun s hs => ?_, fun n hn _ id hid => ?_⟩
  · rw [hdata] at hs
    simp only [mem_cons, not_mem_nil, or_false] at hs
    obtain rfl | rfl := hs
    · exact fun g hg => absurd hg not_mem_nil
    · exact ⟨by decide, fun g hg => absurd hg not_mem_nil⟩
  · have hids : ∀ n ∈ connectionSpec.nodeSpecs, ∀ id ∈ n.data, id = 1 := by decide
    obtain rfl := hids n hn id hid
    exact ⟨_, rfl, one_ne_zero⟩

theorem connectionSpec_hasSource : connectionSpec.HasSource :=
  ⟨connectionSpec.nodeSpecs.head (by decide), List.head_mem _, by decide, by decide, by decide⟩

def openCalls : List Call := [.appendNode ⟨0, 0, [0, 7], []⟩, .appendRandom 1]

theorem greetingSpec_usable : greetingSpec.Usable := by
  have hdata : greetingSpec.dataSpecs =
      [⟨"byte", 0, .int 1 []⟩,
        ⟨"greeting", 1, .vec (0, 4) 1 0 [RegexGenerator.regex RegexGenerator.abc]⟩] := rfl
  refine ⟨fun s hs => ?_, fun n hn _ id hid => ?_⟩
  · rw [hdata] at hs
    simp only [mem_cons, not_mem_nil, or_false] at hs
    obtain rfl | rfl := hs
    · exact nofun
    · refine ⟨by decide, fun g hg => ?_⟩
      rw [mem_singleton.1 hg]
      exact RegexGenerator.abc_returns
  · have hids : ∀ n ∈ greetingSpec.nodeSpecs, ∀ id ∈ n.data, id = 1 := by decide
    obtain rfl := hids n hn id hid
    exact ⟨_, rfl, one_ne_zero⟩

theorem openCalls_allowed : ∀ call ∈ openCalls, call.Allowed greetingSpec := by
  simp only [openCalls, mem_cons, not_mem_nil, or_false, forall_eq_or_imp, forall_eq]
  exact ⟨⟨⟨[0, 7], [], by decide⟩, nofun⟩,
    ⟨greetingSpec.nodeSpecs.head (by decide), head_mem _, by decide, by decide, by decide⟩, nofun⟩

theorem bounded_of_runCalls (hspec : spec.Usable) {calls : List Call}
    (hcalls : ∀ call ∈ calls, call.Allowed spec) (hpanic : panicOf (runCalls spec calls w) = none)
    (hlen : (lastState (runCalls spec calls w)).ops.length < 65535) :
    (lastState (runCalls spec calls w)).Bounded :=
  bounded_of_ends (ends_runCalls hspec hcalls w) hpanic hlen

theorem runCalls_wellFormed_open :
    (lastState (runCalls greetingSpec openCalls (.fresh [1]))).target.storage =
      ⟨[0, 1, 1, 1], [3, 0, 97, 98, 99]⟩ ∧
    ∃ w' nodes ops, runCalls greetingSpec openCalls (.fresh [1]) = .ok ⟨⟩ w' ∧
      nodesOf greetingSpec w'.target.storage = .ofList nodes ∧
        opsOf nodes = w'.target.storage.ops ∧ dataOf nodes = w'.target.storage.data ∧
          operationsOf greetingSpec w'.target.storage = .ofList ops ∧ WellFormed ops := by
  refine ⟨by decide +kernel, runCalls_wellFormed greetingSpec_usable openCalls_allowed _ ?_ ?_⟩
  · exact bounded_of_runCalls greetingSpec_usable openCalls_allowed (by decide +kernel)
      (by decide +kernel)
  · have hlens : (lastState (runCalls greetingSpec openCalls (.fresh [1]))).target.vecLens = [3] := by
      decide +kernel
    intro n hn
    rw [hlens, mem_singleton] at hn
    omega

/-! ## What the conditions leave out -/

/-- The run panics, although size ranges, generators, sources, ids and headers are as they should
be. -/
structure Refutes (spec : GraphSpec) (calls : List Call) (draws : List ℕ) : Prop where
  data : ∀ s ∈ spec.dataSpecs, s.atomicType.Usable
  sourced : ∀ call ∈ calls, call.Sourced spec
  ids : (lastState (runCalls spec calls (.fresh draws))).Bounded
  vecs : (lastState (runCalls spec calls (.fresh draws))).VecsFit
  panics : (panicOf (runCalls spec calls (.fresh draws))).isSome

theorem Refutes.of_new {calls : List Call} {draws : List ℕ}
    (hdata : ∀ s ∈ spec.dataSpecs, s.atomicType.Usable)
    (hsourced : ∀ call ∈ calls, call.Sourced spec)
    (hstate : (lastState (runCalls spec calls (.fresh draws))).state = GraphState.new)
    (hlens : (lastState (runCalls spec calls (.fresh draws))).target.vecLens = [])
    (hpanics : (panicOf (runCalls spec calls (.fresh draws))).isSome) :
    Refutes spec calls draws := by
  refine ⟨hdata, hsourced, fun v => ?_, fun n hn => ?_, hpanics⟩
  · rw [hstate]
    exact (by decide : (0 : UInt16).toNat < 65535)
  · rw [hlens] at hn
    exact absurd hn not_mem_nil

/-- Mutate a node with one word by a dictionary. -/
def mutateWord (dict : CustomDict) : List Call := [.appendNodeMutated ⟨0, 0, [0], [2, 0, 8, 0]⟩ dict]

theorem wordsSpec_data : ∀ s ∈ wordsSpec.dataSpecs,
    s.atomicType.Usable ∧ s.atomicType.SizedElems := by
  have hdata : wordsSpec.dataSpecs =
      [⟨"word", 0, .int 2 []⟩, ⟨"words", 1, .vec (0, 4) 2 0 []⟩] := rfl
  rw [hdata]
  simp only [mem_cons, not_mem_nil, or_false, forall_eq_or_imp, forall_eq]
  exact ⟨⟨nofun, trivial⟩, ⟨by decide, nofun⟩, two_ne_zero⟩

theorem mutateWord_sourced (dict : CustomDict) :
    ∀ call ∈ mutateWord dict, call.Sourced wordsSpec := by
  simp only [mutateWord, mem_singleton, forall_eq]
  exact ⟨[0], [2, 0, 8, 0], by decide⟩

/-- **Every condition that is added is needed.** -/
theorem runCalls_refuted :
    Refutes emptiesSpec [.appendRandom 1] [] ∧ Refutes danglingSpec [.appendRandom 1] [] ∧
      Refutes wordsSpec (mutateWord ⟨[[]]⟩) [0, 0, 0] ∧
        Refutes wordsSpec (mutateWord ⟨[[⟨[], []⟩]]⟩) [0, 0, 0] ∧
          Refutes wordsSpec (mutateWord ⟨[[⟨[8], [9, 9, 9]⟩]]⟩) [0, 0, 0] := by
  have hsource : ∀ spec : GraphSpec, spec.HasSource →
      ∀ call ∈ [Call.appendRandom 1], call.Sourced spec := by
    intro spec hspec call hcall
    rw [mem_singleton.1 hcall]
    exact hspec
  refine ⟨.of_new ?_ (hsource _ ?_) rfl (by decide +kernel) (by decide +kernel),
    .of_new ?_ (hsource _ ?_) rfl (by decide +kernel) (by decide +kernel),
    .of_new (fun s hs => (wordsSpec_data s hs).1) (mutateWord_sourced _) rfl (by decide +kernel)
      (by decide +kernel),
    .of_new (fun s hs => (wordsSpec_data s hs).1) (mutateWord_sourced _) rfl (by decide +kernel)
      (by decide +kernel),
    .of_new (fun s hs => (wordsSpec_data s hs).1) (mutateWord_sourced _) rfl (by decide +kernel)
      (by decide +kernel)⟩
  · have hdata : emptiesSpec.dataSpecs =
        [⟨"empty", 0, .struct 0 []⟩, ⟨"empties", 1, .vec (0, 1) 0 0 []⟩] := rfl
    rw [hdata]
    simp only [mem_cons, not_mem_nil, or_false, forall_eq_or_imp, forall_eq]
    exact ⟨trivial, by decide, nofun⟩
  · exact ⟨emptiesSpec.nodeSpecs.head (by decide), head_mem _, by decide, by decide, by decide⟩
  · exact nofun
  · exact ⟨danglingSpec.nodeSpecs.head (by decide), head_mem _, by decide, by decide, by decide⟩

end FuzzSocketCan
