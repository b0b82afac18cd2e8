import FuzzSocketCan.StructuredFuzzer.Mutator

/-! # Mutating an input

`mutate` draws a strategy and runs it on the nodes of an input that were used, behind a snapshot.

* **`ends_mutate`** — if not more nodes are skipped than used, and not more used than there are,
  every panic of a mutation was raised inside the builder. -/

namespace FuzzSocketCan

open Lib

variable {S : Type}

def genMutationStrategy (oldSize : ℕ) : Dist MutationStrategy := do
  let n ← genRange 0 15
  if n = 0 then do
    let args ← genTailGenerationStrategy oldSize
    pure (.generateTail args.dropLast args.generate)
  else if n ≤ 2 then pure .splice
  else if n = 3 then pure .spliceRandom
  else if n ≤ 12 then pure .dataOnly
  else if n ≤ 14 then pure .repeat'
  else throw .unreachable

def runStrategy [GraphStorage S] (spec : GraphSpec) (orig : VecGraph) (opsUsed : ℕ)
    (dict : CustomDict) (snapshot : MutatorSnapshotState) (queue : Dist VecGraph) :
    MutationStrategy → Build S PUnit
  | .generateTail dropLast n => generateTail spec orig opsUsed snapshot ⟨dropLast, n⟩
  | .spliceRandom => spliceRandom spec orig opsUsed snapshot dict
  | .splice => splice spec orig opsUsed snapshot queue
  | .dataOnly => mutateData spec orig opsUsed snapshot dict
  | .generate => generate spec 50 snapshot
  | .repeat' => repeatNodes spec orig opsUsed snapshot dict
  | .minimize | .minimizeSplit | .import' | .seedImport => throw .unreachable

def mutate [GraphStorage S] (spec : GraphSpec) (orig : VecGraph) (opsUsed : ℕ) (dict : CustomDict)
    (snapshot : MutatorSnapshotState) (queue : Dist VecGraph) : Build S MutationStrategy := do
  check (snapshot.skipNodes ≤ opsUsed) Panic.subtractWithOverflow
  let origLen := opsUsed - snapshot.skipNodes
  if orig.ops.length = 0 ∨ origLen = 0 ∨ opsUsed = 0 then do
    generate spec 50 snapshot
    pure .generate
  else do
    let strategy ← randomly (genMutationStrategy origLen)
    runStrategy spec orig opsUsed dict snapshot queue strategy
    pure strategy

/-! ## The panics of the builder -/

inductive StrategyCall [GraphStorage S] (spec : GraphSpec) (dict : CustomDict) :
    Build S PUnit → Prop
  | start (snapshot : MutatorSnapshotState) : StrategyCall spec dict (start snapshot)
  | appendNode (node : GraphNode) : StrategyCall spec dict (appendNode spec node)
  | appendNodeMutated (node : GraphNode) :
      StrategyCall spec dict (appendNodeMutated spec node dict)
  | appendRandom (n : ℕ) : StrategyCall spec dict (appendRandomUnwrap spec n)

def BuilderPanic [GraphStorage S] (spec : GraphSpec) (dict : CustomDict) (e : Panic)
    (w' : World S) : Prop :=
  ∃ m w, StrategyCall spec dict m ∧ m w = .error e w'

section Results

variable [GraphStorage S] {spec : GraphSpec} {dict : CustomDict}

theorem StrategyCall.ends {m : Build S PUnit} (h : StrategyCall spec dict m) (w : World S) :
    Ends m w (fun _ _ => True) (BuilderPanic spec dict) := by
  unfold Ends
  cases hm : m w with
  | ok a w' => trivial
  | error e w' => exact ⟨m, w, h, hm⟩

omit [GraphStorage S] in
theorem ends_genMutationStrategy {Q : MutationStrategy → Distributions → Prop}
    {E : Panic → Distributions → Prop} {oldSize : ℕ} {x : Distributions}
    (htail : ∀ dropLast n x', dropLast ≤ oldSize → Q (.generateTail dropLast n) x')
    (hsplice : ∀ x', Q .splice x') (hspliceRandom : ∀ x', Q .spliceRandom x')
    (hdataOnly : ∀ x', Q .dataOnly x') (hrepeat : ∀ x', Q .repeat' x') :
    Ends (genMutationStrategy oldSize) x Q E := by
  rw [genMutationStrategy, ends_bind]
  refine ends_genRange (by decide) fun n x1 _ hn => ?_
  refine ends_ite (fun _ => ?_) fun _ => ?_
  · rw [ends_bind]
    exact ends_genTailGenerationStrategy fun args x2 hdrop => htail _ _ x2 hdrop
  · refine ends_ite (fun _ => hsplice x1) fun _ => ends_ite (fun _ => hspliceRandom x1) fun _ => ?_
    refine ends_ite (fun _ => hdataOnly x1) fun _ => ends_ite (fun _ => hrepeat x1) fun h => ?_
    exact absurd (Nat.le_of_lt_succ hn) h

section Rules

variable {I : World S → Prop} {E : Panic → World S → Prop} {orig : VecGraph} {opsUsed : ℕ}
  {snapshot : MutatorSnapshotState} {queue : Dist VecGraph} {w : World S}

theorem ends_mutate_of (hdist : ∀ w x, I w → I { w with target := { w.target with dist := x } })
    (horig : AnyPanic E ∨ (nodesOf spec orig).stop = none)
    (hcopy : ∀ n ∈ (nodesOf spec orig).items, Preserves I E (appendNode spec n))
    (hmutated : ∀ n ∈ (nodesOf spec orig).items, Preserves I E (appendNodeMutated spec n dict))
    (hrandom : ∀ n, Preserves I E (appendRandomUnwrap spec n))
    (hqueue : ∀ x, Ends queue x (fun other _ =>
      (∀ n ∈ (nodesOf spec other).items, Preserves I E (appendNode spec n)) ∧ (AnyPanic E ∨
        (nodesOf spec other).stop = none ∧ 0 < (nodesOf spec other).items.length))
      fun e _ => ∀ w, E e w)
    (hargs : AnyPanic E ∨ snapshot.skipNodes ≤ opsUsed ∧
      opsUsed ≤ (nodesOf spec orig).items.length)
    (hstart : ∀ x, Ends (start snapshot) { w with target := { w.target with dist := x } }
      (fun _ w' => I w') E) :
    Ends (mutate spec orig opsUsed dict snapshot queue) w (fun _ w' => I w') E := by
  rw [mutate, ends_bind]
  refine ends_check_or (hargs.imp_right And.left) ?_
  refine ends_ite (fun _ => ?_) fun hsome => ?_
  · rw [ends_bind]
    exact ends_generate_of hrandom (hstart w.target.dist) 50
  · -- some node is left to mutate
    have hsome' : AnyPanic E ∨ snapshot.skipNodes + 1 ≤ opsUsed ∧
        opsUsed ≤ (nodesOf spec orig).items.length := hargs.imp_right fun h => by omega
    rw [ends_bind, ends_randomly]
    refine ends_genMutationStrategy (fun dropLast n x hdrop => ?_) (fun x => ?_) (fun x => ?_)
      (fun x => ?_) fun x => ?_
    all_goals rw [ends_bind]
    · exact ends_generateTail_of horig (fun n hn w h _ => hcopy n hn w h) hrandom (hstart x)
        (hargs.imp_right fun h => ⟨h.1, hdrop⟩)
    · exact ends_splice_of hdist hqueue horig hcopy hsome' hstart
    · exact ends_spliceRandom_of hdist horig (fun n hn w h _ => hcopy n hn w h)
        (fun n hn w h _ => hmutated n hn w h) hrandom (hstart x)
    · exact ends_mutateData_of hdist horig (fun n hn w h _ => hcopy n hn w h)
        (fun n hn w h _ => hmutated n hn w h) (hstart x) (hargs.imp_right And.left)
    · exact ends_repeatNodes_of hdist horig (fun n hn w h _ => hcopy n hn w h)
        (fun n hn w h _ => hmutated n hn w h) (hstart x) hsome'

theorem ends_mutate (horig : (nodesOf spec orig).stop = none)
    (hskip : snapshot.skipNodes ≤ opsUsed) (hused : opsUsed ≤ (nodesOf spec orig).items.length)
    (hqueue : QueueReturns spec queue) (w : World S) :
    Ends (mutate spec orig opsUsed dict snapshot queue) w (fun _ _ => True)
      (BuilderPanic spec dict) := by
  have hcopy : ∀ n, Preserves (σ := World S) (fun _ => True) (BuilderPanic spec dict)
      (appendNode spec n) :=
    fun n w _ => (StrategyCall.appendNode n).ends w
  exact ends_mutate_of (fun _ _ h => h) (.inr horig) (fun n _ => hcopy n)
    (fun n _ w _ => (StrategyCall.appendNodeMutated n).ends w)
    (fun n w _ => (StrategyCall.appendRandom n).ends w) (hqueue.ends fun n _ => hcopy n)
    (.inr ⟨hskip, hused⟩) fun _ => (StrategyCall.start snapshot).ends _

end Rules

end Results

end FuzzSocketCan
