import FuzzSocketCan.Lib.Execution
import Mathlib.Data.Int.Notation
import Mathlib.Data.Nat.Notation

/-! # The timeout of a run

QEMU arms a timer for each stay in the guest and takes back what is left of it. A run begins with
`reset_timeout_detector`, and times out when the guest has used up the time that the host has set
with `update_itimer`. A time of zero switches the detection off, but the time set before stays in
`config`, so that the next reset switches it on again.

* **`kvmRuns_expirations`** — the timeouts of every run. -/

namespace FuzzSocketCan.Qemu

open Lib

/-! ## The code -/

/-- `struct timeval` -/
structure TimeVal where
  sec : ℕ
  usec : ℕ
  deriving DecidableEq, Repr

namespace TimeVal

def toUsec (v : TimeVal) : ℕ := v.sec * 1000000 + v.usec

def ofUsec (n : ℕ) : TimeVal := ⟨n / 1000000, n % 1000000⟩

theorem toUsec_eq_zero (v : TimeVal) : v.usec = 0 ∧ v.sec = 0 ↔ v.toUsec = 0 := by
  unfold toUsec
  omega

theorem toUsec_ofUsec (n : ℕ) : (ofUsec n).toUsec = n := by
  rw [toUsec, ofUsec, Nat.div_add_mod']

end TimeVal

structure TimeoutDetector where
  detectionEnabled : Bool
  config : TimeVal
  alarm : TimeVal
  deriving DecidableEq, Repr

namespace TimeoutDetector

/-- `init_timeout_detector` -/
def init : TimeoutDetector := ⟨false, ⟨0, 0⟩, ⟨0, 0⟩⟩

/-- `reset_timeout_detector` -/
def reset (d : TimeoutDetector) : TimeoutDetector :=
  if d.config.sec ≠ 0 ∨ d.config.usec ≠ 0 then
    { d with alarm := d.config, detectionEnabled := true }
  else { d with detectionEnabled := false }

def updateItimer (d : TimeoutDetector) (sec : UInt8) (usec : UInt32) : TimeoutDetector :=
  if sec ≠ 0 ∨ usec ≠ 0 then
    { d with config := ⟨sec.toNat, usec.toNat⟩, detectionEnabled := true }
  else { d with detectionEnabled := false }

/-- `none` where `setitimer` refuses the microseconds of `alarm`. -/
def armSigprofTimer (d : TimeoutDetector) : Option TimeoutDetector :=
  if d.detectionEnabled then
    let d := if d.alarm.usec = 0 ∧ d.alarm.sec = 0 then d.reset else d
    if d.alarm.usec < 1000000 then some d else none
  else some d

def disarmSigprofTimer (d : TimeoutDetector) (left : ℕ) : Bool × TimeoutDetector :=
  if d.detectionEnabled then
    let d := { d with alarm := .ofUsec left }
    if d.alarm.usec = 0 ∧ d.alarm.sec = 0 then (true, d.reset) else (false, d)
  else (false, d)

def kvmRun (d : TimeoutDetector) (t : ℕ) : Option (Bool × TimeoutDetector) :=
  d.armSigprofTimer.map fun d => d.disarmSigprofTimer (d.alarm.toUsec - t)

def kvmRuns (d : TimeoutDetector) : List ℕ → Option (List Bool × TimeoutDetector)
  | [] => some ([], d)
  | t :: ts => do
    let (expired, d) ← d.kvmRun t
    let (rest, d) ← d.kvmRuns ts
    some (expired :: rest, d)

def runtime (d : TimeoutDetector) : ℤ × ℤ :=
  let sec : ℤ := d.config.sec - d.alarm.sec
  let usec : ℤ := d.config.usec - d.alarm.usec
  if usec < 0 then (sec - 1, usec + 1000000) else (sec, usec)

inductive Op
  | update (sec : UInt8) (usec : UInt32)
  | reset
  | run (t : ℕ)
  deriving DecidableEq, Repr

def step (d : TimeoutDetector) : Op → Option TimeoutDetector
  | .update sec usec => some (d.updateItimer sec usec)
  | .reset => some d.reset
  | .run t => (d.kvmRun t).map Prod.snd

/-! ## What is to be detected -/

def limitAfter (l : ℕ) : List Op → ℕ
  | [] => l
  | .update sec usec :: ops =>
    limitAfter (if sec ≠ 0 ∨ usec ≠ 0 then TimeVal.toUsec ⟨sec.toNat, usec.toNat⟩ else l) ops
  | _ :: ops => limitAfter l ops

def usedAfter (l used t : ℕ) : ℕ := if used + t < l then used + t else 0

/-- **The stays at whose end the time used has reached the limit.** -/
def expirations (l : ℕ) : ℕ → List ℕ → List Bool
  | _, [] => []
  | used, t :: ts => decide (0 < l ∧ l ≤ used + t) :: expirations l (usedAfter l used t) ts

/-! ## The detector as a stopwatch -/

variable {d d' : TimeoutDetector} {l used : ℕ} {ops : List Op}

structure Configured (l : ℕ) (d : TimeoutDetector) : Prop where
  limit : d.config.toUsec = l
  config_lt : d.config.usec < 1000000
  alarm_lt : d.alarm.usec < 1000000

structure Counting (l used : ℕ) (d : TimeoutDetector) : Prop extends Configured l d where
  enabled : d.detectionEnabled
  used_lt : used < l
  left : d.alarm.toUsec + used = l

theorem configured_init : Configured 0 init := ⟨rfl, by decide, by decide⟩

theorem Configured.reset_of_pos (h : Configured l d) (hl : 0 < l) : Counting l 0 d.reset := by
  have hlimit := h.limit
  unfold TimeVal.toUsec at hlimit
  rw [TimeoutDetector.reset, if_pos (by omega)]
  exact ⟨⟨h.limit, h.config_lt, h.config_lt⟩, rfl, hl, (Nat.add_zero _).trans h.limit⟩

theorem Configured.reset_of_zero (h : Configured 0 d) :
    d.reset = { d with detectionEnabled := false } := by
  have hlimit := h.limit
  unfold TimeVal.toUsec at hlimit
  rw [TimeoutDetector.reset, if_neg (by omega)]

theorem Configured.reset (h : Configured l d) : Configured l d.reset := by
  rcases Nat.eq_zero_or_pos l with rfl | hl
  · rw [h.reset_of_zero]
    exact ⟨h.limit, h.config_lt, h.alarm_lt⟩
  · exact (h.reset_of_pos hl).toConfigured

theorem Configured.withAlarm (h : Configured l d) (n : ℕ) :
    Configured l { d with alarm := .ofUsec n } :=
  ⟨h.limit, h.config_lt, Nat.mod_lt _ (by decide)⟩

theorem Configured.disarm (h : Configured l d) (n : ℕ) :
    Configured l (d.disarmSigprofTimer n).2 := by
  unfold disarmSigprofTimer
  split
  · dsimp only
    split
    exacts [(h.withAlarm n).reset, h.withAlarm n]
  · exact h

theorem Configured.kvmRun (h : Configured l d) (t : ℕ) :
    ∃ p, d.kvmRun t = some p ∧ Configured l p.2 := by
  obtain ⟨d1, harm, h1⟩ : ∃ d1, d.armSigprofTimer = some d1 ∧ Configured l d1 := by
    unfold armSigprofTimer
    split
    · have hd : Configured l (if d.alarm.usec = 0 ∧ d.alarm.sec = 0 then d.reset else d) := by
        split
        exacts [h.reset, h]
      exact ⟨_, if_pos hd.alarm_lt, hd⟩
    · exact ⟨d, rfl, h⟩
  exact ⟨_, by rw [TimeoutDetector.kvmRun, harm, Option.map_some], h1.disarm _⟩

theorem configured_exec (hops : ∀ sec usec, .update sec usec ∈ ops → usec.toNat < 1000000)
    (h : Configured l d) : ∃ d', exec step d ops = some d' ∧ Configured (limitAfter l ops) d' := by
  induction ops generalizing d l with
  | nil => exact ⟨d, rfl, h⟩
  | cons op ops ih =>
    have hrest : ∀ sec usec, .update sec usec ∈ ops → usec.toNat < 1000000 :=
      fun sec usec hmem => hops sec usec (.tail _ hmem)
    cases op with
    | update sec usec =>
      refine ih hrest ?_
      unfold updateItimer
      split
      · exact ⟨rfl, hops sec usec (.head _), h.alarm_lt⟩
      · exact ⟨h.limit, h.config_lt, h.alarm_lt⟩
    | reset => exact ih hrest h.reset
    | run t =>
      obtain ⟨p, hp, hconf⟩ := h.kvmRun t
      obtain ⟨d', hd', hlim⟩ := ih hrest hconf
      exact ⟨d', exec_cons_eq_some.2 ⟨p.2, by rw [step, hp]; rfl, hd'⟩, hlim⟩

theorem Counting.kvmRun (h : Counting l used d) (t : ℕ) : ∃ d',
    d.kvmRun t = some (decide (0 < l ∧ l ≤ used + t), d') ∧ Counting l (usedAfter l used t) d' := by
  have hleft := h.left
  have hlt := h.used_lt
  have harm : d.armSigprofTimer = some d := by
    have hpos : ¬(d.alarm.usec = 0 ∧ d.alarm.sec = 0) := by
      rw [TimeVal.toUsec_eq_zero]
      omega
    simp [armSigprofTimer, h.enabled, hpos, h.alarm_lt]
  have hconf := h.withAlarm (d.alarm.toUsec - t)
  rw [TimeoutDetector.kvmRun, harm, Option.map_some, disarmSigprofTimer, if_pos h.enabled]
  simp only [TimeVal.toUsec_eq_zero, TimeVal.toUsec_ofUsec, usedAfter]
  by_cases hexp : used + t < l
  · rw [if_neg (by omega), if_pos hexp, decide_eq_false (by omega)]
    refine ⟨_, rfl, hconf, h.enabled, hexp, ?_⟩
    rw [TimeVal.toUsec_ofUsec]
    omega
  · rw [if_pos (by omega), if_neg hexp, decide_eq_true (by omega)]
    exact ⟨_, rfl, hconf.reset_of_pos (by omega)⟩

theorem Counting.kvmRuns (h : Counting l used d) (ts : List ℕ) : ∃ d',
    d.kvmRuns ts = some (expirations l used ts, d') ∧
      Counting l (ts.foldl (usedAfter l) used) d' := by
  induction ts generalizing d used with
  | nil => exact ⟨d, rfl, h⟩
  | cons t ts ih =>
    obtain ⟨d1, hrun, h1⟩ := h.kvmRun t
    obtain ⟨d', hruns, h'⟩ := ih h1
    exact ⟨d', by rw [TimeoutDetector.kvmRuns, hrun]; simp [hruns, expirations], h'⟩

theorem kvmRuns_of_disabled (h : d.detectionEnabled = false) (ts : List ℕ) :
    d.kvmRuns ts = some (expirations 0 used ts, d) := by
  induction ts generalizing used with
  | nil => rfl
  | cons t ts ih =>
    have hrun : d.kvmRun t = some (false, d) := by
      simp [TimeoutDetector.kvmRun, armSigprofTimer, disarmSigprofTimer, h]
    rw [TimeoutDetector.kvmRuns, hrun]
    simp [@ih (usedAfter 0 used t), expirations]

theorem Counting.runtime_eq (h : Counting l used d) :
    d.runtime = ((used / 1000000 : ℤ), (used % 1000000 : ℤ)) := by
  have hlimit := h.limit
  have hleft := h.left
  have hconfig := h.config_lt
  have halarm := h.alarm_lt
  unfold TimeVal.toUsec at hlimit hleft
  simp only [runtime]
  split <;> simp only [Prod.mk.injEq] <;> omega

/-- **Which stays in the guest end with a timeout**, and the time used since. -/
theorem kvmRuns_expirations (hops : ∀ sec usec, .update sec usec ∈ ops → usec.toNat < 1000000)
    (ts : List ℕ) : ∃ d d', exec step init ops = some d ∧
      d.reset.kvmRuns ts = some (expirations (limitAfter 0 ops) 0 ts, d') ∧
        (0 < limitAfter 0 ops →
          let used := ts.foldl (usedAfter (limitAfter 0 ops)) 0
          d'.runtime = ((used / 1000000 : ℤ), (used % 1000000 : ℤ))) := by
  obtain ⟨d, hd, hconf⟩ := configured_exec hops configured_init
  rcases Nat.eq_zero_or_pos (limitAfter 0 ops) with hzero | hpos
  · rw [hzero] at hconf ⊢
    have hoff : d.reset.detectionEnabled = false := by rw [hconf.reset_of_zero]
    exact ⟨d, _, hd, kvmRuns_of_disabled hoff ts, fun h => absurd h (Nat.lt_irrefl 0)⟩
  · obtain ⟨d', hruns, hcount⟩ := (hconf.reset_of_pos hpos).kvmRuns ts
    exact ⟨d, d', hd, hruns, fun _ => hcount.runtime_eq⟩

theorem kvmRuns_expirations_halfSecond :
    let ops : List Op := [.update 0 500000, .reset, .run 100, .update 0 0]
    (∀ sec usec, .update sec usec ∈ ops → usec.toNat < 1000000) ∧
      ∃ d d', exec step init ops = some d ∧
        d.reset.kvmRuns [400000, 200000, 300000] = some ([false, true, false], d') ∧
          d'.runtime = (0, 300000) := by
  have hops : ∀ sec usec, Op.update sec usec ∈
      [Op.update 0 500000, .reset, .run 100, .update 0 0] → usec.toNat < 1000000 := by
    simp only [List.mem_cons, Op.update.injEq]
    rintro sec usec (⟨-, rfl⟩ | h | h | ⟨-, rfl⟩ | h) <;> first | decide | cases h
  obtain ⟨d, d', hd, hruns, hruntime⟩ := kvmRuns_expirations hops [400000, 200000, 300000]
  refine ⟨hops, d, d', hd, ?_⟩
  simpa [limitAfter, TimeVal.toUsec, expirations, usedAfter] using And.intro hruns hruntime

end TimeoutDetector

end FuzzSocketCan.Qemu
