import FuzzSocketCan.RustFuzzer.Minimize

/-! # The blocks that minimization drops

The random phase of `minimize_one_byte` draws a block of nodes to drop. The graph is longer than
the number of iterations that remain, so the draws do not panic. The first node of a block is
drawn from `0..graph_len - len`, without its end.

* **`minimizeOneByteWith_handled`** — a handler behind the calls never runs.
* **`minimizationBlock_reaches_iff`** — no block reaches the last node, every other one is reached.
-/

namespace FuzzSocketCan

open Lib

/-! ## One call -/

def IsBlock (graphLen : ℕ) (range : ℕ × ℕ) : Prop :=
  range.1 < range.2 ∧ range.2 ≤ graphLen

instance (graphLen : ℕ) (range : ℕ × ℕ) : Decidable (IsBlock graphLen range) :=
  inferInstanceAs (Decidable (_ ∧ _))

def divideIf (c : Prop) [Decidable c] (k len : ℕ) : ℕ := if c then len / k else len

def divided (i maxI len : ℕ) : ℕ :=
  divideIf (i > 3 * (maxI / 4)) 4 (divideIf (i > maxI / 2) 2 (divideIf (i > maxI / 4) 2 len))

def blockLen (i maxI len : ℕ) : ℕ := if divided i maxI len < 1 then 1 else divided i maxI len

theorem genMinimizationBlockSize_eq (i maxI graphLen : ℕ) :
    genMinimizationBlockSize i maxI graphLen = (do
      let len ← genRange 0 (graphLen / 2)
      if graphLen = blockLen i maxI len then pure (0, blockLen i maxI len)
      else do
        check (blockLen i maxI len ≤ graphLen) Panic.subtractWithOverflow
        let start ← genRange 0 (graphLen - blockLen i maxI len)
        pure (start, start + blockLen i maxI len)) := rfl

theorem divideIf_le (c : Prop) [Decidable c] (k len : ℕ) : divideIf c k len ≤ len := by
  unfold divideIf
  split
  · exact Nat.div_le_self len k
  · exact le_refl len

theorem divided_le (i maxI len : ℕ) : divided i maxI len ≤ len :=
  (divideIf_le _ _ _).trans ((divideIf_le _ _ _).trans (divideIf_le _ _ _))

theorem one_le_blockLen (i maxI len : ℕ) : 1 ≤ blockLen i maxI len := by
  unfold blockLen
  split <;> omega

theorem blockLen_le (i maxI len : ℕ) : blockLen i maxI len ≤ max 1 len := by
  have := divided_le i maxI len
  unfold blockLen
  split <;> omega

theorem blockLen_zero (i maxI : ℕ) : blockLen i maxI 0 = 1 :=
  le_antisymm (blockLen_le i maxI 0) (one_le_blockLen i maxI 0)

section Call

variable (i maxI : ℕ) {graphLen : ℕ}

theorem ends_genMinimizationBlockSize (hlen : 2 ≤ graphLen) (d : Distributions) :
    Ends (genMinimizationBlockSize i maxI graphLen) d
      (fun range _ => range.1 < range.2 ∧ range.2 < graphLen) never := by
  rw [genMinimizationBlockSize_eq, ends_bind]
  refine ends_genRange (by omega) fun len d1 _ hdrawn => ?_
  have hpos := one_le_blockLen i maxI len
  have hle := blockLen_le i maxI len
  have hshort : blockLen i maxI len < graphLen := by omega
  rw [if_neg (by omega), ends_bind, ends_check_of hshort.le, ends_bind]
  refine ends_genRange (by omega) fun start d2 _ hstart => ?_
  exact ⟨by dsimp only; omega, by dsimp only; omega⟩

theorem exists_genMinimizationBlockSize {idx : ℕ} (hidx : idx + 1 < graphLen) :
    ∃ d', genMinimizationBlockSize i maxI graphLen (.ofList [0, idx]) = .ok (idx, idx + 1) d' := by
  refine ⟨{ Distributions.ofList [0, idx] with pos := 2 }, ?_⟩
  have hdrawn : genRange 0 (graphLen / 2) (.ofList [0, idx]) =
      .ok 0 { Distributions.ofList [0, idx] with pos := 1 } := by
    rw [genRange, check_bind_run (by omega)]
    show EStateM.Result.ok (0 + 0 % (graphLen / 2 - 0)) _ = _
    rfl
  have hdrawn' : genRange 0 (graphLen - 1) { Distributions.ofList [0, idx] with pos := 1 } =
      .ok idx { Distributions.ofList [0, idx] with pos := 2 } := by
    rw [genRange, check_bind_run (by omega)]
    show EStateM.Result.ok (0 + idx % (graphLen - 1 - 0)) _ = _
    rw [Nat.sub_zero, Nat.mod_eq_of_lt (by omega), Nat.zero_add]
  rw [genMinimizationBlockSize_eq, bind_run_ok hdrawn, blockLen_zero, if_neg (by omega),
    check_bind_run (by omega), bind_run_ok hdrawn']
  rfl

end Call

/-! ## The calls of the random phase -/

def handled (onFailure : Dist (ℕ × ℕ)) (i maxI graphLen : ℕ) : Dist (ℕ × ℕ) := fun d =>
  match genMinimizationBlockSize i maxI graphLen d with
  | .ok range d' => if IsBlock graphLen range then .ok range d' else onFailure d'
  | .error _ d' => onFailure d'

theorem handled_eq {graphLen : ℕ} (hlen : 2 ≤ graphLen) (onFailure : Dist (ℕ × ℕ)) (i maxI : ℕ) :
    handled onFailure i maxI graphLen = genMinimizationBlockSize i maxI graphLen := by
  funext d
  obtain ⟨range, d', hcall, hrange⟩ :=
    (ends_genMinimizationBlockSize i maxI hlen d).result
  simp only [handled, hcall]
  exact if_pos ⟨hrange.1, hrange.2.le⟩

def minimizeRandomWith (block : ℕ → ℕ → ℕ → Dist (ℕ × ℕ)) (spec : GraphSpec) (i : ℕ)
    (newBytes : List StorageReason) : ℕ → ℕ → Bool → MinM (ℕ × Bool)
  | 0, _, updated => pure (0, updated)
  | remaining + 1, randomFailures, updated => do
      let len ← nodeLenAt spec i
      if len > remaining + 1 ∧ randomFailures < 10 then do
        let g ← graphAt i
        let res ← performRun (do
          let len ← orPanic (g.data.nodeLen spec)
          let range ← randomly (block remaining numIters len)
          dropRange spec g.data range.1 range.2)
        match res with
        | some info =>
          if ← callUpdate spec newBytes info then
            minimizeRandomWith block spec i newBytes remaining 0 true
          else minimizeRandomWith block spec i newBytes remaining (randomFailures + 1) updated
        | none => throw .unreachable
      else pure (remaining + 1, updated)

def minimizeOneByteWith (block : ℕ → ℕ → ℕ → Dist (ℕ × ℕ)) (spec : GraphSpec) (i : ℕ)
    (newBytes : List StorageReason) : MinM Bool := do
  let (remaining, updated) ← minimizeRandomWith block spec i newBytes numIters 0 false
  let len ← nodeLenAt spec i
  minimizeStepwise spec i newBytes len remaining updated

section Phase

variable {spec : GraphSpec} {i : ℕ} {newBytes : List StorageReason}

theorem nodeLenAt_eq_ok {s s' : Minimizer} {len : ℕ} (h : nodeLenAt spec i s = .ok len s') :
    s' = s ∧ ∃ g, graphAt i s = .ok g s ∧ g.data.nodeLen spec = .ok len := by
  have hgraph : graphAt i s = unwrap s.graphs[i]? Panic.indexOutOfBounds s := rfl
  rw [nodeLenAt, bind_run, hgraph] at h
  cases hget : s.graphs[i]? with
  | none =>
    rw [hget] at h
    cases h
  | some g =>
    rw [hget] at h hgraph
    change orPanic (g.data.nodeLen spec) s = _ at h
    cases hlen : g.data.nodeLen spec with
    | error e =>
      rw [hlen] at h
      cases h
    | ok n =>
      rw [hlen] at h
      cases h
      exact ⟨rfl, g, hgraph, hlen⟩

theorem minimizeRandomWith_handled (onFailure : Dist (ℕ × ℕ)) (remaining randomFailures : ℕ)
    (updated : Bool) :
    minimizeRandomWith (handled onFailure) spec i newBytes remaining randomFailures updated =
      minimizeRandom spec i newBytes remaining randomFailures updated := by
  induction remaining generalizing randomFailures updated with
  | zero => rfl
  | succ remaining ih =>
    funext s
    rw [minimizeRandomWith, minimizeRandom, bind_run, bind_run]
    cases hlen : nodeLenAt spec i s with
    | error e s' => rfl
    | ok len s' =>
      obtain ⟨rfl, g, hgraph, hnodes⟩ := nodeLenAt_eq_ok hlen
      dsimp only
      by_cases hloop : len > remaining + 1 ∧ randomFailures < 10
      · have hcall := handled_eq (by omega : 2 ≤ len) onFailure remaining numIters
        rw [if_pos hloop, if_pos hloop, bind_run_ok hgraph, bind_run_ok hgraph, hnodes]
        change (performRun (do
          let range ← randomly (handled onFailure remaining numIters len)
          dropRange spec g.data range.1 range.2) >>= _) s' = _
        rw [hcall]
        simp only [ih]
        rfl
      · rw [if_neg hloop, if_neg hloop]

theorem minimizeOneByteWith_handled (onFailure : Dist (ℕ × ℕ)) (spec : GraphSpec) (i : ℕ)
    (newBytes : List StorageReason) :
    minimizeOneByteWith (handled onFailure) spec i newBytes = minimizeOneByte spec i newBytes := by
  rw [minimizeOneByteWith, minimizeOneByte, minimizeRandomWith_handled]

end Phase

/-! ## The nodes that are reached -/

/-- **Which nodes are reached**: all but the last one. -/
theorem minimizationBlock_reaches_iff (i maxI idx : ℕ) {graphLen : ℕ} (hlen : 2 ≤ graphLen) :
    (∀ onFailure spec k newBytes,
      minimizeOneByteWith (handled onFailure) spec k newBytes = minimizeOneByte spec k newBytes) ∧
    (∀ d, Ends (genMinimizationBlockSize i maxI graphLen) d
      (fun range _ => IsBlock graphLen range) never) ∧
    ((∃ d range d', genMinimizationBlockSize i maxI graphLen d = .ok range d' ∧
      range.1 ≤ idx ∧ idx < range.2) ↔ idx + 1 < graphLen) := by
  refine ⟨minimizeOneByteWith_handled, fun d => ?_, ?_⟩
  · exact (ends_genMinimizationBlockSize i maxI hlen d).weaken fun range _ h => ⟨h.1, h.2.le⟩
  · constructor
    · rintro ⟨d, range, d', hcall, -, hlt⟩
      have := ((ends_genMinimizationBlockSize i maxI hlen d).of_ok hcall).2
      omega
    · intro hlt
      obtain ⟨d', hcall⟩ := exists_genMinimizationBlockSize i maxI hlt
      exact ⟨_, _, d', hcall, le_refl idx, Nat.lt_succ_self idx⟩

theorem minimizationBlock_reaches_middle :
    2 ≤ 3 ∧ ∃ d range d', genMinimizationBlockSize 0 numIters 3 d = .ok range d' ∧
      range.1 ≤ 1 ∧ 1 < range.2 :=
  ⟨by decide, (minimizationBlock_reaches_iff 0 numIters 1 (by decide)).2.2.2 (by decide)⟩

theorem minimizationBlock_misses_last :
    ¬∃ d range d', genMinimizationBlockSize 0 numIters 2 d = .ok range d' ∧
      range.1 ≤ 1 ∧ 1 < range.2 := by
  rintro ⟨d, range, d', hcall, -, hlt⟩
  have := ((ends_genMinimizationBlockSize 0 numIters (by decide) d).of_ok hcall).2
  omega

end FuzzSocketCan
