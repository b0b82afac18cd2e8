import FuzzSocketCan.Harness.CallVmCan

/-! # Reading from an emulated CAN socket

The wrappers of `read`, `recv` and `recvfrom` pass the buffer on to `call_vm_can` without its
length: every frame is copied whole.

* **`staysWithin_iff`** — when a read stays within the caller's buffer. -/

namespace FuzzSocketCan

open Lib

/-! ## The wrappers -/

structure CanResult where
  written : List UInt8
  ret : ℤ
  deriving DecidableEq, Repr

def handleNextPacketCan (l : SpecLoader) (clientSocket : ℤ) (len : ℕ) (returnPktSize : Bool)
    (opts : SockOpts) (leftover : Leftover) : Harness CanResult :=
  if clientSocket ≠ -1 then do
    match ← callVmCan l len returnPktSize opts leftover with
    | none => pure ⟨[], -1⟩
    | some frame => pure ⟨frame, frame.length⟩
  else pure ⟨[], -1⟩

def msgTrunc : ℕ := 0x20

namespace CanSocket

variable (l : SpecLoader) (fd : ℤ) (opts : SockOpts) (leftover : Leftover)

def read (_count : ℕ) : Harness CanResult := handleNextPacketCan l fd 8 false opts leftover

def recv (_len _flags : ℕ) : Harness CanResult := handleNextPacketCan l fd 8 false opts leftover

def recvfrom (_len flags : ℕ) : Harness CanResult :=
  handleNextPacketCan l fd 8 (flags &&& msgTrunc != 0) opts leftover

end CanSocket

inductive CanRead
  | read (count : ℕ)
  | recv (len flags : ℕ)
  | recvfrom (len flags : ℕ)
  deriving DecidableEq, Repr

namespace CanRead

def requested : CanRead → ℕ
  | read count => count
  | recv len _ => len
  | recvfrom len _ => len

def run (l : SpecLoader) (fd : ℤ) (opts : SockOpts) (leftover : Leftover) :
    CanRead → Harness CanResult
  | read count => CanSocket.read l fd opts leftover count
  | recv len flags => CanSocket.recv l fd opts leftover len flags
  | recvfrom len flags => CanSocket.recvfrom l fd opts leftover len flags

/-- **The call stays within the caller's buffer.** -/
def StaysWithin (l : SpecLoader) (fd : ℤ) (opts : SockOpts) (leftover : Leftover) (st : StreamState)
    (call : CanRead) : Prop :=
  ∃ r st', call.run l fd opts leftover st = .ok r st' ∧ r.written.length ≤ call.requested ∧
    r.ret ≤ call.requested

end CanRead

def StreamState.Exhausted (st : StreamState) : Prop :=
  st.availableData = 0 ∧ st.guest.vm.opsI = st.guest.opsLen

/-! ## What the wrappers write -/

section

variable {checksum dataOffset : ℕ} {st : StreamState} {s : PacketStream UInt8}

theorem exhausted_iff (h : Streams checksum dataOffset st s) :
    st.Exhausted ↔ s.cur = [] ∧ s.rest = [] := by
  obtain ⟨nodes, hahead, hrest⟩ := h.rest
  have hlen := length_le_length_opsOf fun node hnode => (hahead.packets node hnode).1
  have hopsLen := hahead.opsLen
  unfold StreamState.Exhausted
  rw [← h.length_cur, List.length_eq_zero_iff, hrest, List.map_eq_nil_iff]
  refine and_congr_right fun _ => ?_
  constructor
  · intro heq
    exact List.length_eq_zero_iff.1 (by omega)
  · rintro rfl
    rw [hopsLen]
    rfl

theorem callVmCan_streams (h : Streams checksum dataOffset st s) (opts : SockOpts) (len : ℕ)
    (flag : Bool) (leftover : Leftover) :
    ∃ out st' s', callVmCan (canvehicleLoader checksum) len flag opts leftover st = .ok out st' ∧
      Streams checksum dataOffset st' s' := by
  by_cases hopts : opts.Readable
  · obtain ⟨st', hcall, hst'⟩ := callVmCan_eq h hopts len flag leftover
    exact ⟨_, st', _, hcall, hst'⟩
  · obtain ⟨st', hcall, hst'⟩ := callVmCan_of_not_readable h hopts len flag leftover
    exact ⟨_, st', _, hcall, hst'⟩

theorem callVmCans_streams {reads : List (SockOpts × Leftover)}
    (h : Streams checksum dataOffset st s) {outs : List (Option (List UInt8))} {st' : StreamState}
    (hrun : callVmCans (canvehicleLoader checksum) reads st = .ok outs st') :
    ∃ s', Streams checksum dataOffset st' s' := by
  induction reads generalizing st s outs with
  | nil =>
    obtain ⟨-, rfl⟩ := EStateM.Result.ok.inj hrun
    exact ⟨s, h⟩
  | cons r reads ih =>
    obtain ⟨out, st1, s1, hcall, hst1⟩ := callVmCan_streams h r.1 8 false r.2
    rw [callVmCans, bind_run_ok hcall] at hrun
    cases hrest : callVmCans (canvehicleLoader checksum) reads st1 with
    | error e st2 =>
      simp only [bind_run, hrest] at hrun
      cases hrun
    | ok outs' st2 =>
      rw [bind_run_ok hrest] at hrun
      obtain ⟨-, rfl⟩ := EStateM.Result.ok.inj hrun
      exact ih hst1 hrest

theorem CanRead.run_eq (l : SpecLoader) (fd : ℤ) (opts : SockOpts) (leftover : Leftover)
    (call : CanRead) :
    ∃ flag, call.run l fd opts leftover = handleNextPacketCan l fd 8 flag opts leftover := by
  cases call with
  | read count => exact ⟨_, rfl⟩
  | recv len flags => exact ⟨_, rfl⟩
  | recvfrom len flags => exact ⟨_, rfl⟩

theorem staysWithin_of_none {l : SpecLoader} {fd : ℤ} {opts : SockOpts} {leftover : Leftover}
    {call : CanRead}
    (h : ∀ flag, fd ≠ -1 → ∃ st', callVmCan l 8 flag opts leftover st = .ok none st') :
    call.StaysWithin l fd opts leftover st := by
  obtain ⟨flag, hrun⟩ := call.run_eq l fd opts leftover
  unfold CanRead.StaysWithin
  rw [hrun, handleNextPacketCan]
  have hbound : (-1 : ℤ) ≤ call.requested := by omega
  by_cases hfd : fd ≠ -1
  · obtain ⟨st', hcall⟩ := h flag hfd
    rw [if_pos hfd, bind_run_ok hcall]
    exact ⟨_, _, rfl, Nat.zero_le _, hbound⟩
  · rw [if_neg hfd]
    exact ⟨_, _, rfl, Nat.zero_le _, hbound⟩

theorem staysWithin_of_some {l : SpecLoader} {fd : ℤ} {opts : SockOpts} {leftover : Leftover}
    {call : CanRead} {frame : List UInt8} (hfd : fd ≠ -1)
    (h : ∀ flag, ∃ st', callVmCan l 8 flag opts leftover st = .ok (some frame) st') :
    call.StaysWithin l fd opts leftover st ↔ frame.length ≤ call.requested := by
  obtain ⟨flag, hrun⟩ := call.run_eq l fd opts leftover
  obtain ⟨st', hcall⟩ := h flag
  unfold CanRead.StaysWithin
  rw [hrun, handleNextPacketCan, if_pos hfd, bind_run_ok hcall]
  constructor
  · rintro ⟨r, st'', hr, hle, -⟩
    obtain ⟨rfl, -⟩ := EStateM.Result.ok.inj hr
    exact hle
  · intro hle
    exact ⟨_, _, rfl, hle, Int.ofNat_le.2 hle⟩

/-- **CAN reads stay within the buffer exactly if it has room for a whole frame**, or none is
delivered. -/
theorem staysWithin_iff {mem : Mem} {nodes : List GraphNode} {st₀ : StreamState}
    (hview : GuestView mem checksum dataOffset (opsOf nodes) (dataOf nodes))
    (hnodes : ∀ node ∈ nodes, node.IsPacket checksum) (hst₀ : st₀.Fresh mem dataOffset)
    {reads : List (SockOpts × Leftover)} {outs : List (Option (List UInt8))}
    (hreads : callVmCans (canvehicleLoader checksum) reads st₀ = .ok outs st)
    (fd : ℤ) (opts : SockOpts) (leftover : Leftover) (call : CanRead) :
    call.StaysWithin (canvehicleLoader checksum) fd opts leftover st ↔
      fd = -1 ∨ st.Exhausted ∨ ¬opts.Readable ∨ opts.mode.frameSize ≤ call.requested := by
  obtain ⟨s, hs⟩ := callVmCans_streams (streams_fresh hview hnodes hst₀) hreads
  rw [exhausted_iff hs]
  by_cases hfd : fd = -1
  · exact iff_of_true (staysWithin_of_none fun _ hne => absurd hfd hne) (.inl hfd)
  by_cases hopts : opts.Readable
  · obtain ⟨hread, hcur, hrest⟩ | ⟨n, data, s', hread, hpiece⟩ := s.read_cases opts.mode.maxSize
    · refine iff_of_true (staysWithin_of_none fun flag _ => ?_) (.inr (.inl ⟨hcur, hrest⟩))
      obtain ⟨st', hcall, -⟩ := callVmCan_eq hs hopts 8 flag leftover
      rw [hread] at hcall
      exact ⟨st', hcall⟩
    · have hsome : ∀ flag, ∃ st', callVmCan (canvehicleLoader checksum) 8 flag opts leftover st =
          .ok (some (opts.frame leftover data)) st' := fun flag => by
        obtain ⟨st', hcall, -⟩ := callVmCan_eq hs hopts 8 flag leftover
        rw [hread] at hcall
        exact ⟨st', hcall⟩
      rw [staysWithin_of_some hfd hsome, SockOpts.frame, length_buildFrame _ _ hpiece.length_le]
      refine ⟨fun hle => .inr (.inr (.inr hle)), ?_⟩
      rintro (h | ⟨hcur, hrest⟩ | h | hle)
      · exact absurd h hfd
      · -- at the end of the packets there is no piece
        obtain ⟨begun, cur, rest⟩ := s
        subst hcur hrest
        cases hread
      · exact absurd hopts h
      · exact hle
  · refine iff_of_true (staysWithin_of_none fun flag _ => ?_) (.inr (.inr (.inl hopts)))
    obtain ⟨st', hcall, -⟩ := callVmCan_of_not_readable hs hopts 8 flag leftover
    exact ⟨st', hcall⟩

end

theorem staysWithin_sixteen :
    (CanRead.read 16).StaysWithin (canvehicleLoader 0) 3 ⟨some 0, some (some 5)⟩ ⟨fun _ => 0, 0⟩
      twoPacketsState :=
  have hnone : callVmCans (canvehicleLoader 0) [] twoPacketsState = .ok [] twoPacketsState := rfl
  (staysWithin_iff guestView_twoPackets (twoPackets_isPacket 0) fresh_twoPacketsState hnone 3 _ _ _).2
    (.inr (.inr (.inr (by decide))))

/-- **A read of eight bytes gets a classic frame of sixteen.** -/
theorem not_staysWithin_eight :
    ¬(CanRead.read 8).StaysWithin (canvehicleLoader 0) 3 ⟨some 0, some (some 5)⟩ ⟨fun _ => 0, 0⟩
      twoPacketsState := by
  have hs := streams_fresh guestView_twoPackets (twoPackets_isPacket 0) fresh_twoPacketsState
  have hsome : ∀ flag, ∃ st', callVmCan (canvehicleLoader 0) 8 flag ⟨some 0, some (some 5)⟩
      ⟨fun _ => 0, 0⟩ twoPacketsState =
        .ok (some (buildFrame .classic ⟨fun _ => 0, 0⟩ (some 5) [7, 8, 9])) st' := fun flag => by
    have hopts : (⟨some 0, some (some 5)⟩ : SockOpts).Readable := by decide
    obtain ⟨st', hcall, -⟩ := callVmCan_eq hs hopts 8 flag ⟨fun _ => 0, 0⟩
    exact ⟨st', hcall⟩
  rw [staysWithin_of_some (by decide) hsome, length_buildFrame _ _ (by decide)]
  decide

end FuzzSocketCan
