import FuzzSocketCan.Harness.CanReads
import FuzzSocketCan.Harness.SocketCache
import FuzzSocketCan.Lib.Patches

/-! # Scatter reads from an emulated stream

`readv` asks `call_vm` for as many bytes as its buffers have together, into a buffer of its own,
and copies them from there.

* **`copyBack_eq`** — this is writing the bytes one by one to the places of the buffers.
* **`readv_scatters`** — the buffers are filled in order. -/

namespace FuzzSocketCan

open Lib List

/-! ## The code -/

/-- `struct iovec` -/
structure IoVec where
  base : ℕ
  len : ℕ

structure ReadvState where
  mem : Mem
  dataBuffer : List UInt8

def iovTotal (iov : List IoVec) : ℕ := (iov.map IoVec.len).sum

/-- The second loop of `handle_next_packet_iovec`. -/
def copyBack (dataBuffer : List UInt8) : List IoVec → ℕ → ℕ → Mem → Mem
  | [], _, _, mem => mem
  | v :: iov, remainingBytes, offset, mem =>
    if remainingBytes ≤ v.len then
      storeAt mem v.base ((dataBuffer.drop offset).take remainingBytes)
    else
      copyBack dataBuffer iov (remainingBytes - v.len) (offset + v.len)
        (storeAt mem v.base ((dataBuffer.drop offset).take v.len))

/-- At the end of the data the target is released. -/
def handleNextPacketIovec (l : SpecLoader) (clientSocket : ℤ) (iov : List IoVec) (t : ReadvState) :
    Harness (Option (ReadvState × ℤ)) :=
  let len := iovTotal iov % 2 ^ 64
  if clientSocket ≠ -1 then do
    match ← callVm l len with
    | none => pure none
    | some data =>
      let dataBuffer := overwrite t.dataBuffer 0 data
      pure (some (⟨copyBack dataBuffer iov data.length 0 t.mem, dataBuffer⟩, data.length))
  else pure (some (t, -1))

def readv (l : SpecLoader) (cache : SocketCache)
    (realReadv : ReadvState → Harness (Option (ReadvState × ℤ))) (fd : ℤ) (iov : List IoVec)
    (t : ReadvState) : Harness (Option (ReadvState × ℤ)) :=
  if cache.serverSocketExists fd then handleNextPacketIovec l fd iov t else realReadv t

/-! ## One call -/

def iovPlaces (iov : List IoVec) : List ℕ := iov.flatMap fun v => List.range' v.base v.len

theorem length_iovPlaces (iov : List IoVec) : (iovPlaces iov).length = iovTotal iov := by
  simp [iovPlaces, iovTotal, length_flatMap]

theorem copyBack_eq (dataBuffer : List UInt8) (iov : List IoVec) (n offset : ℕ) (mem : Mem) :
    copyBack dataBuffer iov n offset mem =
      scatter mem (iovPlaces iov) ((dataBuffer.drop offset).take n) := by
  induction iov generalizing n offset mem with
  | nil => rfl
  | cons v iov ih =>
    rw [copyBack, iovPlaces, flatMap_cons, scatter_block, take_take, drop_take,
      drop_drop]
    split
    case isTrue hle =>
      -- the buffer takes all that remains
      rw [min_eq_right hle, Nat.sub_eq_zero_of_le hle, take_zero, scatter_nil]
    case isFalse hgt => rw [ih, min_eq_left (Nat.le_of_not_le hgt), iovPlaces]

section

variable {checksum dataOffset : ℕ} {st st0 : StreamState}

theorem handleNextPacketIovec_eq {l : SpecLoader} {st' : StreamState} {data : List UInt8}
    {fd : ℤ} (hfd : fd ≠ -1) {iov : List IoVec} (hlen : iovTotal iov < 2 ^ 64)
    (hcall : callVm l (iovTotal iov) st = .ok (some data) st') (t : ReadvState) :
    handleNextPacketIovec l fd iov t st =
      .ok (some (⟨scatter t.mem (iovPlaces iov) data, overwrite t.dataBuffer 0 data⟩,
        data.length)) st' := by
  have hdata : ((overwrite t.dataBuffer 0 data).drop 0).take data.length = data := by
    simp [overwrite]
  rw [handleNextPacketIovec, Nat.mod_eq_of_lt hlen, if_pos hfd, bind_run_ok hcall]
  dsimp only
  rw [copyBack_eq, hdata]
  rfl

/-- **A scatter read fills the buffers in order**, and writes nothing behind them. -/
theorem readv_scatters {payload : Mem} {nodes : List GraphNode}
    (hview : GuestView payload checksum dataOffset (opsOf nodes) (dataOf nodes))
    (hnodes : ∀ node ∈ nodes, node.IsPacket checksum) (hst₀ : st₀.Fresh payload dataOffset)
    {sizes : List ℕ} {outs : List (Option (List UInt8))}
    (hcalls : callVms (canvehicleLoader checksum) sizes st₀ = .ok outs st) (hleft : ¬st.Exhausted)
    {cache : SocketCache} {fd : ℕ} (hfd : cache.serverSocketExists fd = true)
    (realReadv : ReadvState → Harness (Option (ReadvState × ℤ)))
    {iov : List IoVec} (hiov : iovTotal iov ≤ packetBufferSize) (t : ReadvState) :
    ∃ data st' t', callVm (canvehicleLoader checksum) (iovTotal iov) st = .ok (some data) st' ∧
      data.length ≤ iovTotal iov ∧
      readv (canvehicleLoader checksum) cache realReadv fd iov t st =
        .ok (some (t', data.length)) st' ∧
      t'.mem = scatter t.mem (iovPlaces iov) data ∧
      (∀ a ∉ (iovPlaces iov).take data.length, t'.mem a = t.mem a) ∧
      ((iovPlaces iov).Nodup → ((iovPlaces iov).take data.length).map t'.mem = data) := by
  obtain ⟨st₁, hcalls', hst⟩ := callVms_eq (streams_fresh hview hnodes hst₀) sizes
  cases hcalls.symm.trans hcalls'
  rw [exhausted_iff hst] at hleft
  obtain ⟨st', hcall, -⟩ := callVm_eq hst (iovTotal iov)
  obtain ⟨-, hcur, hrest⟩ | ⟨n, data, s', hread, hpiece⟩ :=
    (PacketStream.reads sizes (.start (nodes.map GraphNode.packet))).2.read_cases (iovTotal iov)
  · exact absurd ⟨hcur, hrest⟩ hleft
  · rw [hread] at hcall
    have hlen : iovTotal iov < 2 ^ 64 := lt_of_le_of_lt hiov (by decide)
    have hdata : data.length ≤ (iovPlaces iov).length := by
      rw [length_iovPlaces]
      exact hpiece.length_le
    have hfd' : (fd : ℤ) ≠ -1 := by omega
    have hreadv := handleNextPacketIovec_eq hfd' hlen hcall t
    refine ⟨data, st', ⟨scatter t.mem (iovPlaces iov) data, overwrite t.dataBuffer 0 data⟩, hcall,
      hpiece.length_le, ?_, rfl, fun a ha => scatter_of_notMem ha,
      fun hnodup => map_scatter hnodup hdata⟩
    rw [readv, if_pos hfd]
    exact hreadv

end

def oneSocket : SocketCache :=
  ⟨1, fun _ => { Interfaces.unused with serverSockets := fun _ => 3, serverSocketsNum := 1 }, 0,
    false⟩

theorem readv_scatters_threeBuffers :
    ∃ data st' t', callVm (canvehicleLoader 0) 7 twoPacketsState = .ok (some data) st' ∧
      readv (canvehicleLoader 0) oneSocket (fun t => pure (some (t, -1))) 3
          [⟨100, 2⟩, ⟨200, 0⟩, ⟨300, 5⟩] ⟨memOf [], []⟩ twoPacketsState =
        .ok (some (t', data.length)) st' ∧
      ([100, 101, 300, 301, 302, 303, 304].take data.length).map t'.mem = data := by
  have hcalls : callVms (canvehicleLoader 0) [] twoPacketsState = .ok [] twoPacketsState := rfl
  have hleft : ¬twoPacketsState.Exhausted := fun h => absurd h.2 (by decide)
  have hfd : oneSocket.serverSocketExists (3 : ℕ) = true := by decide
  have hiov : iovTotal [⟨100, 2⟩, ⟨200, 0⟩, ⟨300, 5⟩] ≤ packetBufferSize := by decide
  obtain ⟨data, st', t', hcall, -, hread, -, -, hplaces⟩ :=
    readv_scatters guestView_twoPackets (twoPackets_isPacket 0) fresh_twoPacketsState hcalls hleft
      hfd (fun t => pure (some (t, -1))) hiov ⟨memOf [], []⟩
  exact ⟨data, st', t', hcall, hread, hplaces (by decide)⟩

end FuzzSocketCan
