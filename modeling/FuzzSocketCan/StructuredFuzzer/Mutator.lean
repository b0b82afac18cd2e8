import Mathlib.Data.List.Sort
import Mathlib.Data.List.Destutter
import FuzzSocketCan.StructuredFuzzer.BuilderInvariant

/-! # The mutation strategies

Each strategy starts a graph, on top of a snapshot if there is one, and goes through the nodes of
source graphs while it copies, mutates, drops or generates nodes.

* **`repeatNodes`**, **`mutateData`**, **`splice`**, **`spliceRandom`**, **`generateTail`** — the
  strategies.
* **`Mutation.ends_run`** — one that is guarded extends the graph by whole nodes. -/

namespace FuzzSocketCan

open Lib List Iter
open LawfulGraphStorage (Room)

variable {S : Type}

/-- How an input was made. -/
inductive MutationStrategy
  | generateTail (dropLast generate : ℕ)
  | spliceRandom
  | splice
  | dataOnly
  | generate
  | repeat'
  | minimize
  | minimizeSplit
  | import'
  | seedImport
  deriving DecidableEq, Repr

def randomly {α : Type} (m : Dist α) : Build S α := inTarget (random m)

theorem ends_randomly {α : Type} {m : Dist α} {w : World S} {Q : α → World S → Prop}
    {E : Panic → World S → Prop} :
    Ends (randomly m) w Q E ↔
      Ends m w.target.dist (fun a d => Q a { w with target := { w.target with dist := d } })
        (fun e d => E e { w with target := { w.target with dist := d } }) := by
  rw [randomly, ends_inTarget, ends_random]

section Definitions

variable [GraphStorage S] (spec : GraphSpec)

def unlessFull (m : Build S PUnit) : Build S Bool := do
  if isFull spec (← get) then pure false
  else do
    m
    pure true

def prepareSnapshot (snapshotCutoff : ℕ) (data : VecGraph) : Build S MutatorSnapshotState := do
  start .none
  forIter ((nodesOf spec data).take snapshotCutoff) (appendNode spec)
  let w ← get
  match spec.snapshotNodeId with
  | none => throw .unwrapNone
  | some id => do
      appendOp id
      pure {
        skipNodes := snapshotCutoff
        skipOps := GraphStorage.opLen w.target.storage
        skipData := GraphStorage.dataLen w.target.storage
        prefixGraphState := some w.state }

def genInsertPos (last : ℕ) : Dist ℕ := if last > 0 then genRange 0 last else pure 0

def repeatNodes (orig : VecGraph) (opsUsed : ℕ) (snapshot : MutatorSnapshotState)
    (dict : CustomDict) : Build S PUnit := do
  start snapshot
  let fragmentNodes ← randomly (genRange 2 16)
  let repeats ← randomly (genRange 2 6)
  check (snapshot.skipNodes + 1 ≤ opsUsed) Panic.subtractWithOverflow
  let insertPos ← randomly (genInsertPos (opsUsed - snapshot.skipNodes - 1))
  let nodes := nodesOf spec orig
  if ← forIterWhile ((nodes.skip snapshot.skipNodes).take insertPos)
      (fun n => unlessFull spec (appendNode spec n)) then do
    let origs := (nodes.skip (snapshot.skipNodes + insertPos)).take fragmentNodes
    raise origs.stop
    check (origs.items.length > 0) Panic.assertionFailed
    check (repeats > 1) Panic.assertionFailed
    if ← forEachWhile (List.replicate repeats ()) (fun _ =>
        forEachWhile origs.items fun n => unlessFull spec (appendNodeMutated spec n dict)) then do
      let _ ← forIterWhile (nodes.skip (snapshot.skipNodes + insertPos))
        fun n => unlessFull spec (appendNode spec n)
      pure ⟨⟩

def generateTail (orig : VecGraph) (opsUsed : ℕ) (snapshot : MutatorSnapshotState)
    (args : GenerateTail) : Build S PUnit := do
  check (snapshot.skipNodes ≤ opsUsed) Panic.subtractWithOverflow
  let origLen := opsUsed - snapshot.skipNodes
  start snapshot
  check (args.dropLast ≤ origLen) Panic.subtractWithOverflow
  if ← forIterWhile (((nodesOf spec orig).skip snapshot.skipNodes).take (origLen - args.dropLast))
      (fun n => unlessFull spec (appendNode spec n)) then
    appendRandomUnwrap spec args.generate

def mutateData (orig : VecGraph) (opsUsed : ℕ) (snapshot : MutatorSnapshotState)
    (dict : CustomDict) : Build S PUnit := do
  start snapshot
  let _ ← forIterWhile ((nodesOf spec orig).skip snapshot.skipNodes) fun n =>
    unlessFull spec (do
      check (snapshot.skipNodes ≤ opsUsed) Panic.subtractWithOverflow
      if ← randomly (shouldMutateData (opsUsed - snapshot.skipNodes)) then
        appendNodeMutated spec n dict
      else appendNode spec n)
  pure ⟨⟩

def applyGraphNode (op : NodeMutationType) (n : GraphNode) (dict : CustomDict) : Build S PUnit :=
  match op with
  | .copyNode => appendNode spec n
  | .mutateNodeData => appendNodeMutated spec n dict
  | .dropNode => pure ⟨⟩
  | .skipAndGenerate => do
      let len ← randomly genNumberOfRandomNodes
      appendRandomUnwrap spec len

def spliceRandom (orig : VecGraph) (opsUsed : ℕ) (snapshot : MutatorSnapshotState)
    (dict : CustomDict) : Build S PUnit := do
  start snapshot
  let _ ← forIterWhile (((nodesOf spec orig).skip snapshot.skipNodes).take opsUsed) fun n =>
    unlessFull spec (do
      let mutation ← randomly genGraphMutationType
      applyGraphNode spec mutation n dict)
  pure ⟨⟩

end Definitions

def genRanges (low high : ℕ) : ℕ → Dist (List ℕ)
  | 0 => pure []
  | n + 1 => do
      let x ← genRange low high
      let xs ← genRanges low high n
      pure (x :: xs)

def pickSplicePoints (len : ℕ) : Dist (List ℕ) := do
  let num ←
    if len = 0 then throw .unreachable
    else if len ≤ 3 then genRange 1 3
    else if len ≤ 15 then genRange 1 5
    else genRange 4 16
  let res ← genRanges 0 len num
  pure ((res.insertionSort (· ≤ ·)).destutter (· ≠ ·))

section Definitions

variable [GraphStorage S] (spec : GraphSpec)

def spliceFragment (queue : Dist VecGraph) : Build S PUnit := do
  let other ← randomly queue
  let nodes := nodesOf spec other
  raise nodes.stop
  let otherLen := nodes.items.length
  let start ← randomly (genRange 0 otherLen)
  let len ← randomly (genRange 1 16)
  let len := if len > otherLen - start then otherLen - start else len
  check (len > 0) Panic.assertionFailed
  forIter ((nodes.skip start).take len) (appendNode spec)

/-- The loop of `splice`: `none` when it is left early, or whether something was spliced in. -/
def spliceLoop (queue : Dist VecGraph) : List (GraphNode × ℕ) → List ℕ → Bool → Build S (Option Bool)
  | [], _, spliced => pure (some spliced)
  | (n, i) :: items, splicePoints, spliced => do
      if isFull spec (← get) then pure none
      else if splicePoints.getLast? = some i then do
        spliceFragment spec queue
        appendNode spec n
        spliceLoop queue items splicePoints.dropLast true
      else do
        appendNode spec n
        spliceLoop queue items splicePoints spliced

/-- The queue is that of `sample_for_splicing`. -/
def splice (orig : VecGraph) (opsUsed : ℕ) (snapshot : MutatorSnapshotState)
    (queue : Dist VecGraph) : Build S PUnit := do
  check (snapshot.skipNodes ≤ opsUsed) Panic.subtractWithOverflow
  let splicePoints ← randomly (pickSplicePoints (opsUsed - snapshot.skipNodes))
  start snapshot
  let nodes := ((nodesOf spec orig).skip snapshot.skipNodes).enumerate
  match ← spliceLoop spec queue nodes.items splicePoints false with
  | none => pure ⟨⟩
  | some spliced => do
      raise nodes.stop
      check (spliced = true) Panic.assertionFailed

def copyAll (orig : VecGraph) : Build S PUnit := do
  start .none
  forIter (nodesOf spec orig) (appendNode spec)

def generate (n : ℕ) (snapshot : MutatorSnapshotState) : Build S PUnit := do
  start snapshot
  appendRandomUnwrap spec n

def dropRange (orig : VecGraph) (first last : ℕ) : Build S PUnit := do
  start .none
  forIter (nodesOf spec orig).enumerate fun item =>
    if first ≤ item.2 ∧ item.2 < last then pure ⟨⟩ else appendNode spec item.1

end Definitions

/-! ## Rules for the strategies

The strategies are put together from steps that keep an invariant `I` and panic only as `E` says
(`Preserves`): it is enough to know what `start` does, and what appending does to a graph for which
`I` holds. The random choices and the assertions of the strategies are
dealt with here: either `E` allows every panic, or the arguments are such that there is none. -/

variable {x : Distributions}

section Rules

variable {I : World S → Prop} {E : Panic → World S → Prop}

theorem Preserves.unlessFull [GraphStorage S] {spec : GraphSpec} {m : Build S PUnit}
    (hm : ∀ w, I w → isFull spec w = false → Ends m w (fun _ w' => I w') E) :
    Preserves I E (unlessFull spec m) := by
  intro w hw
  refine ends_ite (fun _ => hw) fun hfull => ?_
  exact (hm w hw (by simpa using hfull)).bind fun _ w' hw' => hw'

theorem ends_genInsertPos {last : ℕ} {Q : ℕ → Distributions → Prop}
    {E : Panic → Distributions → Prop} (hQ : ∀ n x', n ≤ last → Q n x') :
    Ends (genInsertPos last) x Q E :=
  ends_ite (fun hpos => ends_genRange hpos fun n x' _ hn => hQ n x' (le_of_lt hn))
    fun _ => hQ 0 x (Nat.zero_le _)

variable [GraphStorage S] {spec : GraphSpec} {orig : VecGraph} {opsUsed : ℕ}
  {snapshot : MutatorSnapshotState} {dict : CustomDict} {w : World S}
  (hdist : ∀ w x, I w → I { w with target := { w.target with dist := x } })
  (horig : AnyPanic E ∨ (nodesOf spec orig).stop = none)
  (hcopy : ∀ n ∈ (nodesOf spec orig).items, ∀ w, I w → isFull spec w = false →
    Ends (appendNode spec n) w (fun _ w' => I w') E)
  (hmutated : ∀ n ∈ (nodesOf spec orig).items, ∀ w, I w → isFull spec w = false →
    Ends (appendNodeMutated spec n dict) w (fun _ w' => I w') E)
  (hrandom : ∀ n, Preserves I E (appendRandomUnwrap spec n))
  (hstart : Ends (start snapshot) w (fun _ w' => I w') E)

include hcopy in
theorem preserves_copyNodes {it : Iter Panic GraphNode} (hstop : AnyPanic E ∨ it.stop = none)
    (hit : ∀ n ∈ it.items, n ∈ (nodesOf spec orig).items) :
    Preserves I E (forIterWhile it fun n => unlessFull spec (appendNode spec n)) :=
  Preserves.forIterWhile hstop fun n hn => Preserves.unlessFull (hcopy n (hit n hn))

include hrandom hstart in
theorem ends_generate_of (n : ℕ) : Ends (generate spec n snapshot) w (fun _ w' => I w') E := by
  rw [generate]
  exact hstart.bind fun _ w' hw' => hrandom n w' hw'

include horig hcopy hrandom hstart in
theorem ends_generateTail_of {args : GenerateTail} (hargs : AnyPanic E ∨
    snapshot.skipNodes ≤ opsUsed ∧ args.dropLast ≤ opsUsed - snapshot.skipNodes) :
    Ends (generateTail spec orig opsUsed snapshot args) w (fun _ w' => I w') E := by
  rw [generateTail, ends_bind]
  refine ends_check_or (hargs.imp_right And.left) ?_
  refine hstart.bind fun _ w1 hw1 => ?_
  refine Preserves.bind (Preserves.check (hargs.imp_right And.right)) (fun _ => ?_) w1 hw1
  refine Preserves.bind (preserves_copyNodes hcopy (horig.imp_right fun h => take_stop
    (skip_stop h)) fun n hn => skip_items_subset (take_items_subset hn)) fun go => ?_
  exact Preserves.ite (hrandom _) (Preserves.pure _)

include hdist horig hcopy hmutated hstart in
theorem ends_mutateData_of (hskip : AnyPanic E ∨ snapshot.skipNodes ≤ opsUsed) :
    Ends (mutateData spec orig opsUsed snapshot dict) w (fun _ w' => I w') E := by
  rw [mutateData]
  refine hstart.bind fun _ w1 hw1 => ?_
  refine Preserves.bind (Preserves.forIterWhile (horig.imp_right skip_stop) fun n hn =>
    Preserves.unlessFull fun w2 hw2 hfull => ?_) (fun _ => Preserves.pure _) w1 hw1
  have hmem := skip_items_subset hn
  rw [ends_bind]
  refine ends_check_or hskip ?_
  rw [ends_bind, ends_randomly]
  refine ends_shouldMutateData fun b x => ends_ite (fun _ => ?_) fun _ => ?_
  · exact hmutated n hmem _ (hdist w2 x hw2) hfull
  · exact hcopy n hmem _ (hdist w2 x hw2) hfull

include hdist horig hcopy hmutated hrandom hstart in
theorem ends_spliceRandom_of :
    Ends (spliceRandom spec orig opsUsed snapshot dict) w (fun _ w' => I w') E := by
  rw [spliceRandom]
  refine hstart.bind fun _ w1 hw1 => ?_
  refine Preserves.bind (Preserves.forIterWhile (horig.imp_right fun h => take_stop
    (skip_stop h)) fun n hn => Preserves.unlessFull fun w2 hw2 hfull => ?_)
    (fun _ => Preserves.pure _) w1 hw1
  have hmem := skip_items_subset (take_items_subset hn)
  rw [ends_bind, ends_randomly]
  refine ends_genPick (by simp) fun op x _ => ?_
  have hw₂' := hdist w2 x hw2
  cases op with
  | copyNode => exact hcopy n hmem _ hw₂' hfull
  | mutateNodeData => exact hmutated n hmem _ hw₂' hfull
  | dropNode => exact hw₂'
  | skipAndGenerate =>
    rw [applyGraphNode, ends_bind, ends_randomly]
    exact ends_genRange (by decide) fun len x' _ _ => hrandom len _ (hdist _ x' hw₂')

include hdist horig hcopy hmutated hstart in
theorem ends_repeatNodes_of (hargs : AnyPanic E ∨ snapshot.skipNodes + 1 ≤ opsUsed ∧
    opsUsed ≤ (nodesOf spec orig).items.length) :
    Ends (repeatNodes spec orig opsUsed snapshot dict) w (fun _ w' => I w') E := by
  rw [repeatNodes]
  refine hstart.bind fun _ w1 hw1 => ?_
  rw [ends_bind, ends_randomly]
  refine ends_genRange (by decide) fun fragmentNodes x1 hfragment _ => ?_
  rw [ends_bind, ends_randomly]
  refine ends_genRange (by decide) fun repeats x2 hrepeats _ => ?_
  rw [ends_bind]
  refine ends_check_or (hargs.imp_right And.left) ?_
  rw [ends_bind, ends_randomly]
  refine ends_genInsertPos fun insertPos x3 hpos => ?_
  have hw2 := hdist _ x3 (hdist _ x2 (hdist _ x1 hw1))
  refine Preserves.bind (preserves_copyNodes hcopy (horig.imp_right fun h => take_stop
    (skip_stop h)) fun n hn => skip_items_subset (take_items_subset hn))
    (fun go => ?_) _ hw2
  have hfrag : AnyPanic E ∨ 0 < (((nodesOf spec orig).skip (snapshot.skipNodes + insertPos)).take
      fragmentNodes).items.length := by
    refine hargs.imp_right fun h => ?_
    simp only [Iter.take, Iter.skip, length_take, length_drop]
    omega
  have hrepeat : repeats > 1 := by omega
  refine Preserves.ite ?_ (Preserves.pure _)
  refine Preserves.bind (Preserves.raise (horig.imp_right fun h => Iter.take_stop
    (skip_stop h))) fun _ => Preserves.bind (Preserves.check hfrag) fun _ =>
      Preserves.bind (Preserves.check (.inr hrepeat)) fun _ => Preserves.bind
        (Preserves.forEachWhile fun _ _ => Preserves.forEachWhile fun n hn =>
          Preserves.unlessFull ?_) fun go => ?_
  · exact hmutated n (skip_items_subset (take_items_subset hn))
  · exact Preserves.ite (Preserves.bind (preserves_copyNodes hcopy (horig.imp_right skip_stop)
      fun n hn => skip_items_subset hn) fun _ => Preserves.pure _) (Preserves.pure _)

end Rules

/-! ### Splicing

Inside the loop over the fragment the storage is not tested. -/

section SpliceRules

variable {I : World S → Prop} {E : Panic → World S → Prop}

def QueueReturns (spec : GraphSpec) (queue : Dist VecGraph) : Prop :=
  ∀ x, Ends queue x (fun other _ => (nodesOf spec other).stop = none ∧
    0 < (nodesOf spec other).items.length) never

variable {Q : List ℕ → Distributions → Prop}

theorem ends_genRanges {low high n : ℕ} {E : Panic → Distributions → Prop} (h : low < high)
    (hQ : ∀ l x', l.length = n → (∀ k ∈ l, k < high) → Q l x') :
    Ends (genRanges low high n) x Q E := by
  induction n generalizing x Q with
  | zero => exact hQ [] x rfl fun k hk => absurd hk not_mem_nil
  | succ n ih =>
    rw [genRanges, ends_bind]
    refine ends_genRange h fun k x1 _ hk => ?_
    rw [ends_bind]
    refine ih fun l x2 hlen hl => hQ _ _ (by rw [length_cons, hlen]) fun k' hk' => ?_
    obtain rfl | hk' := mem_cons.1 hk'
    · exact hk
    · exact hl k' hk'

theorem ends_pickSplicePoints {len : ℕ} {E : Panic → Distributions → Prop}
    (hlen : (∀ e x, E e x) ∨ len ≠ 0) (hQ : ∀ l x', (∃ p, l.getLast? = some p ∧ p < len) → Q l x') :
    Ends (pickSplicePoints len) x Q E := by
  have hpoints : ∀ l : List ℕ, 1 ≤ l.length → (∀ k ∈ l, k < len) →
      ∃ p, ((l.insertionSort (· ≤ ·)).destutter (· ≠ ·)).getLast? = some p ∧ p < len := by
    intro l hl hlt
    have hne : (l.insertionSort (· ≤ ·)).destutter (· ≠ ·) ≠ [] := by
      rw [Ne, destutter_eq_nil, ← length_eq_zero_iff, length_insertionSort]
      omega
    refine ⟨_, getLast?_eq_getLast_of_ne_nil hne, hlt _ ?_⟩
    have := (destutter_sublist _ _).subset (getLast_mem hne)
    rwa [mem_insertionSort] at this
  by_cases hzero : len = 0
  · subst hzero
    exact hlen.resolve_right (fun h => h rfl) _ _
  have hnum : ∀ num x', 1 ≤ num → Ends (do
      let res ← genRanges 0 len num
      pure ((res.insertionSort (· ≤ ·)).destutter (· ≠ ·))) x' Q E := by
    intro num x' hnum
    rw [ends_bind]
    refine ends_genRanges (pos_of_ne_zero hzero) fun l x'' hl hlt => ?_
    exact hQ _ _ (hpoints l (by omega) hlt)
  rw [pickSplicePoints, if_neg hzero]
  refine ends_ite (fun _ => ?_) fun _ => ends_ite (fun _ => ?_) fun _ => ?_
  all_goals
    rw [ends_bind]
    exact ends_genRange (by decide) fun num x' h1 _ => hnum num x' (by omega)

variable [GraphStorage S] {spec : GraphSpec} {queue : Dist VecGraph} {orig : VecGraph} {opsUsed : ℕ}
  {snapshot : MutatorSnapshotState} {w : World S}
  (hdist : ∀ w x, I w → I { w with target := { w.target with dist := x } })
  (hqueue : ∀ x, Ends queue x (fun other _ =>
    (∀ n ∈ (nodesOf spec other).items, Preserves I E (appendNode spec n)) ∧ (AnyPanic E ∨
      (nodesOf spec other).stop = none ∧ 0 < (nodesOf spec other).items.length))
    fun e _ => ∀ w, E e w)

omit [GraphStorage S] in
theorem QueueReturns.ends (h : QueueReturns spec queue)
    {C : GraphNode → Prop} (hC : ∀ n, n.IsNode spec → C n) (x : Distributions) :
    Ends queue x (fun other _ => (∀ n ∈ (nodesOf spec other).items, C n) ∧ (AnyPanic E ∨
      (nodesOf spec other).stop = none ∧ 0 < (nodesOf spec other).items.length))
      fun e _ => ∀ w, E e w :=
  (h x).mono (fun _ _ hother => ⟨fun n hn => hC n (isNode_of_mem_nodeIter hn), .inr hother⟩)
    fun _ _ h => never_elim h

include hdist hqueue in
theorem preserves_spliceFragment : Preserves I E (spliceFragment spec queue) := by
  intro w hw
  rw [spliceFragment, ends_bind, ends_randomly]
  refine (hqueue _).mono (fun other x1 hother => ?_) fun _ _ he => he _
  obtain ⟨hcopy, hother⟩ := hother
  refine Preserves.bind (Preserves.raise (hother.imp_right And.left)) (fun _ w1 hw1 => ?_) _
    (hdist w x1 hw)
  rw [ends_bind, ends_randomly]
  refine ends_genRange_or (hother.imp (fun h e _ => h e _) And.right) fun first x2 _ hfirst => ?_
  rw [ends_bind, ends_randomly]
  refine ends_genRange (by decide) fun len x3 hlen _ => ?_
  refine Preserves.bind (Preserves.check (.inr (by split <;> omega))) (fun _ => ?_) _
    (hdist _ x3 (hdist _ x2 hw1))
  exact Preserves.forIter (hother.imp_right fun h => take_stop (skip_stop h.1))
    fun n hn => hcopy n (skip_items_subset (take_items_subset hn))

include hdist hqueue in
theorem ends_spliceLoop_of {items : List (GraphNode × ℕ)} {splicePoints : List ℕ} {spliced : Bool}
    (hitems : ∀ item ∈ items, Preserves I E (appendNode spec item.1))
    (hpoints : AnyPanic E ∨ spliced = true ∨
      ∃ p, splicePoints.getLast? = some p ∧ p ∈ items.map Prod.snd) (hw : I w) :
    Ends (spliceLoop spec queue items splicePoints spliced) w
      (fun r w' => (AnyPanic E ∨ r ≠ some false) ∧ I w') E := by
  induction items generalizing w splicePoints spliced with
  | nil =>
    refine ⟨hpoints.imp_right ?_, hw⟩
    rintro (rfl | ⟨p, -, hp⟩)
    · simp
    · exact absurd hp not_mem_nil
  | cons item items ih =>
    obtain ⟨n, i⟩ := item
    have hrest := fun item hitem => hitems item (mem_cons_of_mem _ hitem)
    have hnode := hitems (n, i) mem_cons_self
    refine ends_ite (fun _ => ⟨.inr (by simp), hw⟩) fun _ => ends_ite (fun _ => ?_) fun hlast => ?_
    · refine (preserves_spliceFragment hdist hqueue w hw).bind fun _ w1 hw1 => ?_
      exact (hnode w1 hw1).bind fun _ w2 hw2 => ih hrest (.inr (.inl rfl)) hw2
    · refine (hnode w hw).bind fun _ w1 hw1 => ih hrest ?_ hw1
      -- the last splice point is not this place, so it is a later one
      refine hpoints.imp_right (Or.imp_right ?_)
      rintro ⟨p, hp, hmem⟩
      refine ⟨p, hp, (mem_cons.1 hmem).resolve_left ?_⟩
      rintro rfl
      exact hlast hp

include hdist hqueue in
theorem ends_splice_of (horig : AnyPanic E ∨ (nodesOf spec orig).stop = none)
    (hcopy : ∀ n ∈ (nodesOf spec orig).items, Preserves I E (appendNode spec n))
    (hargs : AnyPanic E ∨ snapshot.skipNodes + 1 ≤ opsUsed ∧
      opsUsed ≤ (nodesOf spec orig).items.length)
    (hstart : ∀ x, Ends (start snapshot) { w with target := { w.target with dist := x } }
      (fun _ w' => I w') E) :
    Ends (splice spec orig opsUsed snapshot queue) w (fun _ w' => I w') E := by
  rw [splice, ends_bind]
  refine ends_check_or (hargs.imp_right fun h => by omega) ?_
  rw [ends_bind, ends_randomly]
  refine ends_pickSplicePoints (hargs.imp (fun h e _ => h e _) fun h => by omega)
    fun splicePoints x hpoints => ?_
  obtain ⟨p, hlast, hp⟩ := hpoints
  refine (hstart x).bind fun _ w1 hw1 => ?_
  refine (ends_spliceLoop_of hdist hqueue (fun item hitem => ?_)
    (hargs.imp_right fun h => .inr ⟨p, hlast, ?_⟩) hw1).bind fun r w2 hr => ?_
  · obtain ⟨-, -, heq⟩ := mem_zipIdx hitem
    rw [heq]
    exact hcopy _ (skip_items_subset (getElem_mem _))
  · rw [enumerate, zipIdx_map_snd, mem_range'_1, skip, length_drop]
    omega
  · obtain ⟨hr, hw2⟩ := hr
    cases r with
    | none => exact hw2
    | some spliced =>
      refine Preserves.bind (Preserves.raise horig) (fun _ => Preserves.check ?_) w2 hw2
      exact hr.imp_right fun hne => by simpa using hne

end SpliceRules

/-! ## The strategies keep a graph whole

From here on the storage is lawful. `Keeps spec nodes m` says that `m` goes from a graph that
extends `nodes` to such a graph. -/

section Results

variable [GraphStorage S] [LawfulGraphStorage S] {spec : GraphSpec} {nodes : List GraphNode}
  {w : World S} {node : GraphNode} {dict : CustomDict}

/-- The code only adds nodes, or runs out of ids. -/
def Keeps {α : Type} (spec : GraphSpec) (nodes : List GraphNode) (m : Build S α) : Prop :=
  ∀ w, Extended spec nodes w → Ends m w (fun _ w' => Extended spec nodes w') outOfIds

theorem Extended.setDist (h : Extended spec nodes w) (x : Distributions) :
    Extended spec nodes { w with target := { w.target with dist := x } } := by
  obtain ⟨added, hadded⟩ := h
  exact ⟨added, hadded.setDist x⟩

theorem room_of_not_full (hroom : Room w.target.storage 0 0) (hfull : isFull spec w = false)
    (hnode : node.IsNode spec) : Room w.target.storage (node.ops.length + 0) 0 := by
  obtain ⟨nType, -, hn, -⟩ := id hnode
  have hlen := hnode.ops_length hn
  have hsize := (GraphSpec.getNode_ok hn).size_lt
  simp only [isFull, Bool.or_eq_false_iff, decide_eq_false_iff_not] at hfull
  have hlt : spec.maxOps < GraphStorage.opsAvailable w.target.storage := not_le.1 hfull.2
  exact LawfulGraphStorage.room_of_available hroom (by omega) (Nat.zero_le _)

theorem ends_appendNode_of_not_full (hnode : node.IsNode spec) (hw : Extended spec nodes w)
    (hfull : isFull spec w = false) :
    Ends (appendNode spec node) w (fun _ w' => Extended spec nodes w') outOfIds := by
  obtain ⟨added, hadded⟩ := hw
  refine (ends_appendNode hadded hnode (room_of_not_full hadded.room hfull hnode)).weaken ?_
  exact fun _ w' hw' => (hw'.1.extended hadded).trans

theorem ends_appendNodeMutated_of_not_full (hspec : spec.Usable) (hdict : dict.Valid)
    (hnode : node.IsNode spec) (hw : Extended spec nodes w) (hfull : isFull spec w = false) :
    Ends (appendNodeMutated spec node dict) w (fun _ w' => Extended spec nodes w') outOfIds := by
  obtain ⟨added, hadded⟩ := hw
  refine (ends_appendNodeMutated hspec hdict hadded hnode
    (room_of_not_full hadded.room hfull hnode)).weaken ?_
  exact fun _ w' hw' => (hw'.1.extended hadded).trans

theorem keeps_appendRandomUnwrap (hspec : spec.Usable) (hsource : spec.HasSource) (n : ℕ) :
    Keeps (S := S) spec nodes (appendRandomUnwrap spec n) := by
  rintro w ⟨added, hadded⟩
  exact (ends_appendRandomUnwrap hspec hsource n hadded).weaken fun _ w' hw' => hw'.trans

def Unbounded (S : Type) [GraphStorage S] [LawfulGraphStorage S] : Prop :=
  ∀ (g : S) n, Room g 0 0 → Room g n 0

theorem keeps_appendNode (hS : Unbounded S) (hnode : node.IsNode spec) :
    Keeps (S := S) spec nodes (appendNode spec node) := by
  rintro w ⟨added, hadded⟩
  refine (ends_appendNode (n := 0) hadded hnode (hS _ _ hadded.room)).weaken ?_
  exact fun _ w' hw' => (hw'.1.extended hadded).trans

/-! ### Any strategy -/

/-- The strategies with their arguments. -/
inductive Mutation
  | generate (n : ℕ)
  | generateTail (orig : VecGraph) (opsUsed : ℕ) (args : GenerateTail)
  | repeatNodes (orig : VecGraph) (opsUsed : ℕ) (dict : CustomDict)
  | mutateData (orig : VecGraph) (opsUsed : ℕ) (dict : CustomDict)
  | spliceRandom (orig : VecGraph) (opsUsed : ℕ) (dict : CustomDict)
  | splice (orig : VecGraph) (opsUsed : ℕ) (queue : Dist VecGraph)

namespace Mutation

omit [LawfulGraphStorage S] in
def run (spec : GraphSpec) (snapshot : MutatorSnapshotState) : Mutation → Build S PUnit
  | generate n => FuzzSocketCan.generate spec n snapshot
  | generateTail orig opsUsed args => FuzzSocketCan.generateTail spec orig opsUsed snapshot args
  | repeatNodes orig opsUsed dict => FuzzSocketCan.repeatNodes spec orig opsUsed snapshot dict
  | mutateData orig opsUsed dict => FuzzSocketCan.mutateData spec orig opsUsed snapshot dict
  | spliceRandom orig opsUsed dict => FuzzSocketCan.spliceRandom spec orig opsUsed snapshot dict
  | splice orig opsUsed queue => FuzzSocketCan.splice spec orig opsUsed snapshot queue

def Allowed (S : Type) [GraphStorage S] [LawfulGraphStorage S] (spec : GraphSpec) (skip : ℕ) :
    Mutation → Prop
  | generate _ => spec.HasSource
  | generateTail orig opsUsed args => (nodesOf spec orig).stop = none ∧ spec.HasSource ∧
      skip ≤ opsUsed ∧ args.dropLast ≤ opsUsed - skip
  | repeatNodes orig opsUsed dict => (nodesOf spec orig).stop = none ∧ dict.Valid ∧
      skip + 1 ≤ opsUsed ∧ opsUsed ≤ (nodesOf spec orig).items.length
  | mutateData orig opsUsed dict => (nodesOf spec orig).stop = none ∧ dict.Valid ∧ skip ≤ opsUsed
  | spliceRandom orig _ dict => (nodesOf spec orig).stop = none ∧ spec.HasSource ∧ dict.Valid
  | splice orig opsUsed queue => (nodesOf spec orig).stop = none ∧ QueueReturns spec queue ∧
      skip + 1 ≤ opsUsed ∧ opsUsed ≤ (nodesOf spec orig).items.length ∧ Unbounded S

/-- **A mutation keeps a graph whole** that `start` leaves whole. -/
theorem ends_run {m : Mutation} {snapshot : MutatorSnapshotState} (hspec : spec.Usable)
    (hm : m.Allowed S spec snapshot.skipNodes)
    (hstart : ∀ x, Ends (start snapshot) { w with target := { w.target with dist := x } }
      (fun _ w' => Extended spec nodes w') outOfIds) :
    Ends (m.run spec snapshot) w (fun _ w' => Extended spec nodes w') outOfIds := by
  have hstart' := hstart w.target.dist
  have hdist : ∀ (w : World S) x, Extended spec nodes w → Extended spec nodes _ :=
    fun _ x hw => hw.setDist x
  have hcopy : ∀ {orig : VecGraph}, ∀ n ∈ (nodesOf spec orig).items, ∀ w : World S,
      Extended spec nodes w → isFull spec w = false → Ends (appendNode spec n) w
        (fun _ w' => Extended spec nodes w') outOfIds :=
    fun n hn _ hw => ends_appendNode_of_not_full (isNode_of_mem_nodeIter hn) hw
  have hmutated : ∀ {orig : VecGraph} {dict : CustomDict}, dict.Valid →
      ∀ n ∈ (nodesOf spec orig).items, ∀ w : World S, Extended spec nodes w →
        isFull spec w = false → Ends (appendNodeMutated spec n dict) w
          (fun _ w' => Extended spec nodes w') outOfIds :=
    fun hdict n hn _ hw =>
      ends_appendNodeMutated_of_not_full hspec hdict (isNode_of_mem_nodeIter hn) hw
  have hrandom : spec.HasSource → ∀ n, Keeps (S := S) spec nodes (appendRandomUnwrap spec n) :=
    fun hsource => keeps_appendRandomUnwrap hspec hsource
  cases m with
  | generate n => exact ends_generate_of (hrandom hm) hstart' n
  | generateTail orig opsUsed args =>
    obtain ⟨horig, hsource, hskip, hdrop⟩ := hm
    exact ends_generateTail_of (.inr horig) hcopy (hrandom hsource) hstart' (.inr ⟨hskip, hdrop⟩)
  | repeatNodes orig opsUsed dict =>
    obtain ⟨horig, hdict, hargs⟩ := hm
    exact ends_repeatNodes_of hdist (.inr horig) hcopy (hmutated hdict) hstart' (.inr hargs)
  | mutateData orig opsUsed dict =>
    obtain ⟨horig, hdict, hskip⟩ := hm
    exact ends_mutateData_of hdist (.inr horig) hcopy (hmutated hdict) hstart' (.inr hskip)
  | spliceRandom orig opsUsed dict =>
    obtain ⟨horig, hsource, hdict⟩ := hm
    exact ends_spliceRandom_of hdist (.inr horig) hcopy (hmutated hdict) (hrandom hsource) hstart'
  | splice orig opsUsed queue =>
    obtain ⟨horig, hqueue, hskip, hused, hS⟩ := hm
    have hnode : ∀ n : GraphNode, n.IsNode spec → Keeps (S := S) spec nodes (appendNode spec n) :=
      fun n hn => keeps_appendNode hS hn
    exact ends_splice_of hdist (hqueue.ends hnode) (.inr horig)
      (fun n hn => hnode n (isNode_of_mem_nodeIter hn)) (.inr ⟨hskip, hused⟩) hstart

end Mutation

end Results

end FuzzSocketCan
