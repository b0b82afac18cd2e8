import FuzzSocketCan.Lib.Execution
import Mathlib.Data.Nat.Notation

/-! # The handshake of fuzzer and guest

The fuzzer writes a byte and waits for one (`run_qemu`). The thread of the guest writes a byte and
waits for a condition (`synchronization_lock`), which the I/O thread signals for each byte it reads
(`synchronization_unlock`). The first byte of the fuzzer is not an answer, so two tokens are under
way until a signal finds nobody waiting. As the guest does not wait in a loop, a
`pthread_cond_wait` that returns without a signal adds another token.

* **`Handshake.Inv.step`** — what every step keeps: the tokens and the lost signals are counted.
* **`Handshake.handshake_alternates`** — fuzzer and guest take turns once one signal more has been
  lost than waits have returned without one. -/

namespace FuzzSocketCan.Qemu

open Lib

/-- The fuzzer, in `run_qemu` or outside. -/
inductive HostPhase
  | working
  | waiting
  deriving DecidableEq, Repr

/-- Outside `synchronization_lock`, with the mutex, after the byte, and in `pthread_cond_wait`
before a signal, after it, and about to return without one. -/
inductive VcpuPhase
  | running
  | locked
  | pinged
  | waiting
  | signalled
  | roused
  deriving DecidableEq, Repr

inductive IoPhase
  | idle
  | unlocking
  | locked
  | signalled
  deriving DecidableEq, Repr

/-- The threads, the bytes on their way, and how many bytes the fuzzer has sent, how many signals
have woken the guest, how many have found nobody waiting, and how many waits have ended without
one. -/
structure Handshake where
  host : HostPhase
  vcpu : VcpuPhase
  io : IoPhase
  toQemu : ℕ
  toHost : ℕ
  sent : ℕ
  woken : ℕ
  lost : ℕ
  spurious : ℕ
  deriving DecidableEq, Repr

inductive HandshakeStep
  | executeQemu
  | waitQemu
  | lock
  | sendChar
  | condWait
  | spuriousWakeup
  | wake
  | receive
  | ioLock
  | condSignal
  | ioUnlock
  deriving DecidableEq, Repr

namespace Handshake

def start : Handshake := ⟨.working, .running, .idle, 0, 0, 0, 0, 0, 0⟩

/-- Nobody holds `synchronization_lock_mutex`. -/
abbrev MutexFree (s : Handshake) : Prop :=
  s.vcpu ≠ .locked ∧ s.vcpu ≠ .pinged ∧ s.io ≠ .locked ∧ s.io ≠ .signalled

def step (s : Handshake) : HandshakeStep → Option Handshake
  | .executeQemu =>
    if s.host = .working then
      some { s with host := .waiting, toQemu := s.toQemu + 1, sent := s.sent + 1 }
    else none
  | .waitQemu =>
    if s.host = .waiting ∧ 0 < s.toHost then
      some { s with host := .working, toHost := s.toHost - 1 }
    else none
  | .lock => if s.vcpu = .running ∧ s.MutexFree then some { s with vcpu := .locked } else none
  | .sendChar =>
    if s.vcpu = .locked then some { s with vcpu := .pinged, toHost := s.toHost + 1 } else none
  | .condWait => if s.vcpu = .pinged then some { s with vcpu := .waiting } else none
  | .spuriousWakeup =>
    if s.vcpu = .waiting then some { s with vcpu := .roused, spurious := s.spurious + 1 } else none
  | .wake =>
    if (s.vcpu = .signalled ∨ s.vcpu = .roused) ∧ s.MutexFree then
      some { s with vcpu := .running, woken := s.woken + if s.vcpu = .signalled then 1 else 0 }
    else none
  | .receive =>
    if s.io = .idle ∧ 0 < s.toQemu then
      some { s with io := .unlocking, toQemu := s.toQemu - 1 }
    else none
  | .ioLock => if s.io = .unlocking ∧ s.MutexFree then some { s with io := .locked } else none
  | .condSignal =>
    if s.io = .locked then
      some (if s.vcpu = .waiting then { s with io := .signalled, vcpu := .signalled }
        else { s with io := .signalled, lost := s.lost + 1 })
    else none
  | .ioUnlock => if s.io = .signalled then some { s with io := .idle } else none

/-! ## Tokens -/

def inFlight (s : Handshake) : ℕ :=
  s.toQemu + (if s.io = .unlocking ∨ s.io = .locked then 1 else 0) +
    (if s.vcpu = .signalled then 1 else 0)

def tokens (s : Handshake) : ℕ :=
  (if s.host = .working then 1 else 0) + s.inFlight +
    (if s.vcpu = .running ∨ s.vcpu = .locked ∨ s.vcpu = .roused then 1 else 0) + s.toHost

structure Inv (s : Handshake) : Prop where
  tokens_eq : s.tokens + s.lost = 2 + s.spurious
  lost_le : s.lost ≤ 1 + s.spurious
  sent_eq : s.sent = s.woken + s.inFlight + s.lost
  mutex : (s.vcpu = .locked ∨ s.vcpu = .pinged) → s.io ≠ .locked ∧ s.io ≠ .signalled

variable {s s' : Handshake} {steps : List HandshakeStep}

theorem inv_start : start.Inv := by
  constructor <;> decide

theorem Inv.step (h : s.Inv) (a : HandshakeStep) (hs : s.step a = some s') : s'.Inv := by
  obtain ⟨htokens, hlost, hsent, hmutex⟩ := h
  unfold tokens inFlight at htokens
  unfold inFlight at hsent
  cases a <;> simp only [Handshake.step, Option.ite_none_right_eq_some, Option.some.injEq] at hs <;>
    obtain ⟨hc, rfl⟩ := hs
  case condSignal =>
    -- a guest that does not wait has a token besides that of the signal
    cases hvcpu : s.vcpu <;> constructor <;> grind [tokens, inFlight]
  all_goals constructor <;> grind [tokens, inFlight]

theorem Inv.progress (h : s.Inv) : ∃ a ≠ .spuriousWakeup, (s.step a).isSome := by
  have htokens := h.tokens_eq
  have hlost := h.lost_le
  unfold tokens inFlight at htokens
  by_cases hholds : s.vcpu = .locked ∨ s.vcpu = .pinged
  · obtain hvcpu | hvcpu := hholds
    · exact ⟨.sendChar, by simp, by simp [Handshake.step, hvcpu]⟩
    · exact ⟨.condWait, by simp, by simp [Handshake.step, hvcpu]⟩
  rw [not_or] at hholds
  cases hio : s.io with
  | locked => exact ⟨.condSignal, by simp, by simp [Handshake.step, hio]⟩
  | signalled => exact ⟨.ioUnlock, by simp, by simp [Handshake.step, hio]⟩
  | unlocking => exact ⟨.ioLock, by simp, by simp [Handshake.step, MutexFree, hholds, hio]⟩
  | idle =>
    cases hvcpu : s.vcpu with
    | running => exact ⟨.lock, by simp, by simp [Handshake.step, MutexFree, hvcpu, hio]⟩
    | signalled => exact ⟨.wake, by simp, by simp [Handshake.step, MutexFree, hvcpu, hio]⟩
    | roused => exact ⟨.wake, by simp, by simp [Handshake.step, MutexFree, hvcpu, hio]⟩
    | waiting =>
      cases hhost : s.host with
      | working => exact ⟨.executeQemu, by simp, by simp [Handshake.step, hhost]⟩
      | waiting =>
        simp only [hio, hvcpu, hhost, reduceCtorEq, or_self, if_false] at htokens
        rcases Nat.eq_zero_or_pos s.toQemu with hzero | hpos
        · exact ⟨.waitQemu, by simp, by simp [Handshake.step, hhost]; omega⟩
        · exact ⟨.receive, by simp, by simp [Handshake.step, hio, hpos]⟩
    | _ => simp_all

/-- **Fuzzer and guest take turns**, however the threads are interleaved. -/
theorem handshake_alternates (h : exec step start steps = some s) :
    (∃ a ≠ .spuriousWakeup, (s.step a).isSome) ∧ s.lost ≤ 1 + s.spurious ∧
      s.sent = s.woken + s.inFlight + s.lost ∧
      (s.lost = 1 + s.spurious →
        (s.host = .working → s.inFlight = 0 ∧ (s.vcpu = .pinged ∨ s.vcpu = .waiting)) ∧
        (s.vcpu = .running → s.host = .waiting ∧ s.inFlight = 0 ∧ s.toHost = 0)) := by
  have hinv := exec_invariant (fun _ a _ h hs => h.step a hs) inv_start h
  have htokens := hinv.tokens_eq
  unfold tokens at htokens
  refine ⟨hinv.progress, hinv.lost_le, hinv.sent_eq, fun hlost => ⟨fun hhost => ?_, fun hrun => ?_⟩⟩
  · cases hvcpu : s.vcpu <;> grind [inFlight]
  · cases hhost : s.host <;> grind

def oneRound : List HandshakeStep :=
  [.executeQemu, .receive, .ioLock, .condSignal, .ioUnlock, .lock, .sendChar, .condWait,
    .spuriousWakeup, .waitQemu, .executeQemu, .receive, .ioLock, .condSignal, .ioUnlock, .wake]

theorem handshake_alternates_oneRound : ∃ s, exec step start oneRound = some s ∧ s.lost = 2 ∧
    s.spurious = 1 ∧ s.vcpu = .running ∧ s.host = .waiting ∧ s.inFlight = 0 ∧ s.toHost = 0 := by
  have hround : exec step start oneRound = some ⟨.waiting, .running, .idle, 0, 0, 2, 0, 2, 1⟩ := rfl
  obtain ⟨-, -, -, hturns⟩ := handshake_alternates hround
  exact ⟨_, hround, rfl, rfl, rfl, (hturns rfl).2 rfl⟩

example : exec step start
      [.executeQemu, .lock, .sendChar, .condWait, .receive, .ioLock, .condSignal, .ioUnlock, .wake,
        .waitQemu] = some ⟨.working, .running, .idle, 0, 0, 1, 1, 0, 0⟩ := rfl

end Handshake

end FuzzSocketCan.Qemu
