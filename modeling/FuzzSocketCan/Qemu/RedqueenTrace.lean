import FuzzSocketCan.Lib.Execution
import FuzzSocketCan.Lib.Hex
import Mathlib.Data.List.Count

/-! # The trace of edge transitions

`redqueen_trace.c` counts the transitions of the target in a hash table and keeps their keys in
the order in which they were first seen.

* **`TraceState.Records`** — which transitions a state stands for.
* **`redqueenTraceWrite_transitions`** — the trace has a line for each transition since the last
  reset. -/

namespace FuzzSocketCan.Qemu

open Lib List

/-! ## The code -/

abbrev Transition := BitVec 64 × BitVec 64

/-- The two addresses as a `uint128_t`. -/
def transitionKey (t : Transition) : BitVec 128 := t.1.setWidth 128 <<< 64 ||| t.2.setWidth 128

/-- `(uint64_t)(key >> 64)` and `(uint64_t)key` -/
def keyTransition (key : BitVec 128) : Transition := ((key >>> 64).setWidth 64, key.setWidth 64)

/-- `INIT_NUM_OF_STORED_TRANSITIONS` -/
def maxOrderedTransitions : ℕ := 0xfffff

def exitIp : BitVec 64 := 0xffffffffffffffff

structure TraceState where
  /-- `redqueen_trace_enabled` -/
  enabled : Bool
  /-- `trace_mode` of the global state. -/
  traceMode : Bool
  altBitmap : Option (List UInt8)
  lookup : BitVec 128 → Option (BitVec 64)
  /-- `ordered_transitions` up to `num_ordered_transitions` -/
  orderedTransitions : List (BitVec 128)
  /-- What is written to `trace_fd`. -/
  traceFile : List Char

def mixBits (v : BitVec 64) : BitVec 64 := (v ^^^ v >>> 31) * 0x7fb5d329728ea185

/-- The line that `dprintf` writes. -/
def traceLine (t : Transition) (count : BitVec 64) : List Char :=
  Hex.stripped Hex.lower 16 t.1.toNat ++ ',' :: Hex.stripped Hex.lower 16 t.2.toNat ++
    ',' :: Hex.stripped Hex.lower 16 count.toNat ++ ['\n']

namespace TraceState

def new (traceMode : Bool) (altBitmap : Option (List UInt8)) : TraceState :=
  ⟨true, traceMode, altBitmap, fun _ => none, [], []⟩

def altBitmapAdd (s : TraceState) (t : Transition) : TraceState :=
  if s.traceMode then
    { s with altBitmap := s.altBitmap.map fun bitmap =>
      let transitionValue := mixBits t.2 ^^^ mixBits t.1 >>> 1
      bitmap.modify (transitionValue.toNat &&& (bitmap.length - 1)) (· + 1) }
  else s

/-- Nothing if the assertion fails. -/
def redqueenTraceRegisterTransition (s : TraceState) (t : Transition) : Option TraceState :=
  let s := if t.1 ≠ exitIp ∧ t.2 ≠ exitIp then s.altBitmapAdd t else s
  let key := transitionKey t
  match s.lookup key with
  | some n => some { s with lookup := Function.update s.lookup key (some (n + 1)) }
  | none =>
    if s.orderedTransitions.length + 1 < maxOrderedTransitions then
      some { s with
        lookup := Function.update s.lookup key (some 1)
        orderedTransitions := s.orderedTransitions ++ [key] }
    else none

/-- Nothing if the assertion fails. -/
def redqueenTraceWrite (s : TraceState) : Option TraceState := do
  let lines ← s.orderedTransitions.mapM fun key =>
    (s.lookup key).map (traceLine (keyTransition key))
  some { s with traceFile := s.traceFile ++ lines.flatten }

def redqueenTraceReset (s : TraceState) : TraceState :=
  if s.enabled then { s with lookup := fun _ => none, orderedTransitions := [], traceFile := [] }
  else s

def redqueenTraceFlush (s : TraceState) : Option TraceState :=
  if s.enabled then s.redqueenTraceWrite else some s

end TraceState

inductive TraceOp
  | register (t : Transition)
  | reset
  | flush

def TraceState.step (s : TraceState) : TraceOp → Option TraceState
  | .register t => s.redqueenTraceRegisterTransition t
  | .reset => some s.redqueenTraceReset
  | .flush => s.redqueenTraceFlush

/-! ## What the trace says -/

def sinceReset (ts : List Transition) : TraceOp → List Transition
  | .register t => ts ++ [t]
  | .reset => []
  | .flush => ts

def transitionsSince (ops : List TraceOp) : List Transition := ops.foldl sinceReset []

def traceText (ts : List Transition) : List Char :=
  ts.eraseDups.flatMap fun t => traceLine t (BitVec.ofNat 64 (ts.count t))

/-! ## Keys -/

@[simp] theorem keyTransition_transitionKey (t : Transition) :
    keyTransition (transitionKey t) = t := by
  apply Prod.ext
  · apply BitVec.eq_of_getLsbD_eq
    intro i hi
    have hlow : ¬64 + i < 64 := by omega
    have hword : 64 + i < 128 ∧ i < 128 := by omega
    simp [keyTransition, transitionKey, hi, hlow, hword]
  · apply BitVec.eq_of_getLsbD_eq
    intro i hi
    simp [keyTransition, transitionKey, hi]

theorem transitionKey_injective : Function.Injective transitionKey :=
  Function.LeftInverse.injective keyTransition_transitionKey

theorem eraseDups_snoc (ts : List Transition) (t : Transition) :
    (ts ++ [t]).eraseDups = if t ∈ ts then ts.eraseDups else ts.eraseDups ++ [t] := by
  rw [eraseDups_append]
  by_cases h : t ∈ ts
  · simp [h, removeAll]
  · simp [h, removeAll, eraseDups_cons]

/-! ## The table describes the transitions -/

namespace TraceState

structure Records (s : TraceState) (ts : List Transition) : Prop where
  enabled : s.enabled = true
  ordered : s.orderedTransitions = ts.eraseDups.map transitionKey
  lookup : ∀ t, s.lookup (transitionKey t) =
    if t ∈ ts then some (BitVec.ofNat 64 (ts.count t)) else none

variable {s s' : TraceState} {ts : List Transition}

theorem records_new (traceMode : Bool) (altBitmap : Option (List UInt8)) :
    (new traceMode altBitmap).Records [] :=
  ⟨rfl, rfl, fun _ => rfl⟩

theorem Records.altBitmapAdd (h : s.Records ts) (t : Transition) :
    (s.altBitmapAdd t).Records ts ∧ (s.altBitmapAdd t).traceFile = s.traceFile := by
  unfold TraceState.altBitmapAdd
  split
  · exact ⟨⟨h.enabled, h.ordered, h.lookup⟩, rfl⟩
  · exact ⟨h, rfl⟩

theorem Records.lookup_update (h : s.Records ts) (t u : Transition) :
    Function.update s.lookup (transitionKey t) (some (BitVec.ofNat 64 (ts.count t + 1)))
        (transitionKey u) =
      if u ∈ ts ++ [t] then some (BitVec.ofNat 64 ((ts ++ [t]).count u)) else none := by
  rcases eq_or_ne u t with rfl | hne
  · rw [Function.update_self, if_pos (mem_append_right _ (mem_singleton_self u)),
      count_append, count_singleton_self]
  · rw [Function.update_of_ne (transitionKey_injective.ne hne), h.lookup]
    simp [hne, hne.symm, count_append]

theorem Records.register (h : s.Records ts) (t : Transition) :
    (s.redqueenTraceRegisterTransition t = none ∧
      maxOrderedTransitions ≤ (ts ++ [t]).eraseDups.length) ∨
    ∃ s', s.redqueenTraceRegisterTransition t = some s' ∧ s'.traceFile = s.traceFile ∧
      s'.Records (ts ++ [t]) := by
  have hstart : (if t.1 ≠ exitIp ∧ t.2 ≠ exitIp then s.altBitmapAdd t else s).Records ts ∧
      (if t.1 ≠ exitIp ∧ t.2 ≠ exitIp then s.altBitmapAdd t else s).traceFile = s.traceFile := by
    split
    · exact h.altBitmapAdd t
    · exact ⟨h, rfl⟩
  unfold redqueenTraceRegisterTransition
  generalize (if t.1 ≠ exitIp ∧ t.2 ≠ exitIp then s.altBitmapAdd t else s) = s1 at hstart
  obtain ⟨hs1, hfile⟩ := hstart
  by_cases hmem : t ∈ ts
  · have hold := hs1.lookup t
    rw [if_pos hmem] at hold
    simp only [hold]
    have hcount : BitVec.ofNat 64 (ts.count t) + 1 = BitVec.ofNat 64 (ts.count t + 1) :=
      (BitVec.ofNat_add _ _).symm
    refine .inr ⟨_, rfl, hfile, hs1.enabled, ?_, ?_⟩
    · rw [eraseDups_snoc, if_pos hmem]
      exact hs1.ordered
    · dsimp only
      rw [hcount]
      exact hs1.lookup_update t
  · have hnew := hs1.lookup t
    rw [if_neg hmem] at hnew
    simp only [hnew]
    have hordered : s1.orderedTransitions ++ [transitionKey t] =
        (ts ++ [t]).eraseDups.map transitionKey := by
      rw [eraseDups_snoc, if_neg hmem, map_append, hs1.ordered]
      rfl
    have hlength := congrArg length hordered
    rw [length_append, length_map, length_singleton] at hlength
    split
    case isTrue =>
      have hcount : (1 : BitVec 64) = BitVec.ofNat 64 (ts.count t + 1) := by
        rw [count_eq_zero.2 hmem]
        rfl
      refine .inr ⟨_, rfl, hfile, hs1.enabled, hordered, ?_⟩
      rw [hcount]
      exact hs1.lookup_update t
    case isFalse hfull => exact .inl ⟨rfl, by omega⟩

theorem Records.write (h : s.Records ts) :
    s.redqueenTraceWrite = some { s with traceFile := s.traceFile ++ traceText ts } := by
  have hlines : ∀ us : List Transition, (∀ u ∈ us, u ∈ ts) →
      (us.map transitionKey).mapM
          (fun key => (s.lookup key).map (traceLine (keyTransition key))) =
        some (us.map fun t => traceLine t (BitVec.ofNat 64 (ts.count t))) := by
    intro us hus
    induction us with
    | nil => rfl
    | cons u us ih =>
      rw [forall_mem_cons] at hus
      rw [map_cons, mapM_cons, ih hus.2, h.lookup, if_pos hus.1]
      simp
  rw [redqueenTraceWrite, h.ordered, hlines _ fun u hu => mem_eraseDups.1 hu]
  rfl

theorem Records.step {op : TraceOp} (h : s.Records ts) (hstep : s.step op = some s') :
    s'.Records (sinceReset ts op) := by
  cases op with
  | register t =>
    rcases h.register t with ⟨hnone, -⟩ | ⟨s1, hsome, -, hs1⟩
    · exact absurd (hstep.symm.trans hnone) (by simp)
    · cases hstep.symm.trans hsome
      exact hs1
  | reset =>
    cases hstep
    rw [redqueenTraceReset, if_pos h.enabled]
    exact ⟨h.enabled, rfl, fun _ => rfl⟩
  | flush =>
    rw [TraceState.step, redqueenTraceFlush, if_pos h.enabled, h.write] at hstep
    cases hstep
    exact ⟨h.enabled, h.ordered, h.lookup⟩

theorem Records.run {ops : List TraceOp} (h : s.Records ts)
    (hrun : exec TraceState.step s ops = some s') : s'.Records (ops.foldl sinceReset ts) := by
  induction ops generalizing s ts with
  | nil =>
    cases hrun
    exact h
  | cons op ops ih =>
    obtain ⟨s1, hstep, hrun⟩ := exec_cons_eq_some.1 hrun
    exact ih (h.step hstep) hrun

theorem length_eraseDups_le (ts us : List Transition) :
    ts.eraseDups.length ≤ (ts ++ us).eraseDups.length := by
  rw [eraseDups_append, length_append]
  exact Nat.le_add_right _ _

theorem Records.registers {us : List Transition} (h : s.Records ts)
    (hlimit : (ts ++ us).eraseDups.length < maxOrderedTransitions) :
    ∃ s', exec TraceState.step s (us.map .register) = some s' ∧
      s'.traceFile = s.traceFile ∧ s'.Records (ts ++ us) := by
  induction us generalizing s ts with
  | nil =>
    rw [append_nil]
    exact ⟨s, rfl, rfl, h⟩
  | cons u us ih =>
    rw [append_cons] at hlimit ⊢
    rcases h.register u with ⟨-, hfull⟩ | ⟨s1, hsome, hfile1, hs1⟩
    · have hle := length_eraseDups_le (ts ++ [u]) us
      omega
    · obtain ⟨s', hrun, hfile, hs'⟩ := ih hs1 hlimit
      exact ⟨s', exec_cons_eq_some.2 ⟨s1, hsome, hrun⟩, hfile.trans hfile1, hs'⟩

/-- **The trace says which transitions were made and how often**, modulo 2^64. -/
theorem redqueenTraceWrite_transitions {traceMode : Bool} {altBitmap : Option (List UInt8)}
    {ops : List TraceOp} (hrun : exec TraceState.step (new traceMode altBitmap) ops = some s) :
    (∀ us, (transitionsSince ops ++ us).eraseDups.length < maxOrderedTransitions →
      ∃ s', exec TraceState.step s (us.map .register) = some s' ∧ s'.redqueenTraceWrite =
        some { s' with traceFile := s.traceFile ++ traceText (transitionsSince ops ++ us) }) ∧
    ∀ us, us.eraseDups.length < maxOrderedTransitions →
      ∃ s', exec TraceState.step s (.reset :: us.map .register) = some s' ∧
        s'.redqueenTraceWrite = some { s' with traceFile := traceText us } := by
  have hs := (records_new traceMode altBitmap).run hrun
  constructor
  · intro us hlimit
    obtain ⟨s', hregisters, hfile, hs'⟩ := hs.registers hlimit
    rw [← hfile]
    exact ⟨s', hregisters, hs'.write⟩
  · intro us hlimit
    have hreset : s.redqueenTraceReset.Records [] := @Records.step _ _ _ .reset hs rfl
    obtain ⟨s', hregisters, hfile, hs'⟩ := hreset.registers hlimit
    rw [redqueenTraceReset, if_pos hs.enabled] at hfile
    refine ⟨s', exec_cons_eq_some.2 ⟨_, rfl, hregisters⟩, ?_⟩
    rw [hs'.write, hfile]
    rfl

theorem redqueenTraceWrite_transitions_threeBehindReset :
    ∃ s, exec TraceState.step (new false none) [.register (1, 2), .reset, .register (3, 4),
        .register (5, 6), .register (3, 4)] = some s ∧
      s.redqueenTraceWrite = some { s with traceFile := traceText [(3, 4), (5, 6), (3, 4)] } := by
  obtain ⟨s, hfirst⟩ : ∃ s, exec TraceState.step (new false none) [.register (1, 2)] = some s :=
    ⟨_, rfl⟩
  have hlimit : ([(3, 4), (5, 6), (3, 4)] : List Transition).eraseDups.length <
      maxOrderedTransitions := by decide
  obtain ⟨s', hrun, hwrite⟩ := (redqueenTraceWrite_transitions hfirst).2 _ hlimit
  refine ⟨s', ?_, hwrite⟩
  rw [← singleton_append, exec_append, hfirst]
  exact hrun

theorem traceText_replicate (n : ℕ) (t : Transition) :
    (List.replicate (n + 1) t).eraseDups = [t] ∧
      traceText (List.replicate (n + 1) t) = traceLine t (BitVec.ofNat 64 (n + 1)) := by
  have herase : (replicate (n + 1) t).eraseDups = [t] := by
    simp [replicate_succ, eraseDups_cons]
  refine ⟨herase, ?_⟩
  rw [traceText, herase, flatMap_singleton, count_replicate_self]

/-- **A transition that is registered 2^64 times.** -/
theorem redqueenTraceWrite_wraps :
    ∃ s, exec TraceState.step (new false none) (List.replicate (2 ^ 64) (.register (1, 2))) =
        some s ∧
      s.redqueenTraceWrite = some { s with traceFile := ['1', ',', '2', ',', '0', '\n'] } := by
  obtain ⟨n, hn⟩ : ∃ n, 2 ^ 64 = n + 1 := ⟨2 ^ 64 - 1, rfl⟩
  have hline : traceLine (1, 2) (BitVec.ofNat 64 (n + 1)) = ['1', ',', '2', ',', '0', '\n'] := by
    rw [← hn]
    decide
  obtain ⟨herase, htext⟩ := traceText_replicate n (1, 2)
  have hlimit : ([] ++ replicate (n + 1) (1, 2) : List Transition).eraseDups.length <
      maxOrderedTransitions := by
    rw [nil_append, herase]
    decide
  obtain ⟨s, hrun, hfile, hs⟩ := (records_new false none).registers hlimit
  rw [map_replicate] at hrun
  rw [hn]
  refine ⟨s, hrun, ?_⟩
  rw [hs.write, hfile, nil_append, htext, hline]
  rfl

end TraceState

end FuzzSocketCan.Qemu
