import FuzzSocketCan.Harness.CallVm

/-! # Emulated CAN sockets

`call_vm_can` fills its buffer as `call_vm` does and hands out a frame: at most 8 bytes in a
`can_frame` or 64 in a `canfd_frame`, as the socket is set up. The frame is not initialised: what
the code does not assign keeps what was on the stack.

* **`callVmCan_eq`** — a call is a read of the stream.
* **`callVmCans_delivers`** — the frames deliver the packets. -/

namespace FuzzSocketCan

open Lib List Option

/-! ## Frames -/

inductive CanMode
  | classic
  | fd
  deriving DecidableEq, Repr

namespace CanMode

def maxSize : CanMode → ℕ
  | classic => 8
  | fd => 64

def frameSize : CanMode → ℕ
  | classic => 16
  | fd => 72

end CanMode

/-- What `getsockopt` gives for the two options, nothing if it fails. Without filters the list is
empty, and nothing is written. -/
structure SockOpts where
  enableFd : Option ℤ
  filter : Option (Option UInt32)
  deriving DecidableEq, Repr

def SockOpts.Readable (opts : SockOpts) : Prop :=
  opts.enableFd.isSome = true ∧ opts.filter.isSome = true

instance (opts : SockOpts) : Decidable opts.Readable := inferInstanceAs (Decidable (_ ∧ _))

def SockOpts.mode (opts : SockOpts) : CanMode := if opts.enableFd = some 1 then .fd else .classic

structure Leftover where
  frame : ℕ → UInt8
  usedCanFilter : UInt32

def buildFrame (mode : CanMode) (leftover : Leftover) (filter : Option UInt32)
    (data : List UInt8) : List UInt8 :=
  let frame := (List.range mode.frameSize).map leftover.frame
  let frame := overwrite frame 0 (toLe 4 (filter.getD leftover.usedCanFilter).toNat)
  let frame := overwrite frame 4 [UInt8.ofNat data.length]
  overwrite frame 8 data

/-- `frame.len`. -/
def frameLen (frame : List UInt8) : ℕ := (frame.getD 4 0).toNat

/-- `frame.data[0..len)`. -/
def frameData (frame : List UInt8) : List UInt8 := (frame.drop 8).take (frameLen frame)

def callVmCan (l : SpecLoader) (_maxSize : ℕ) (_returnPktSize : Bool) (opts : SockOpts)
    (leftover : Leftover) : Harness (Option (List UInt8)) := do
  if ← refill l then
    match opts.enableFd, opts.filter with
    | some _, some filter => do
        -- `max_size` is assigned before it is read
        let maxSize := opts.mode.maxSize
        let data ← takeData maxSize
        pure (some (buildFrame opts.mode leftover filter data))
    | _, _ => pure none
  else pure none

def callVmCans (l : SpecLoader) : List (SockOpts × Leftover) → Harness (List (Option (List UInt8)))
  | [] => pure []
  | r :: reads => do
      let out ← callVmCan l 8 false r.1 r.2
      let outs ← callVmCans l reads
      pure (out :: outs)

/-! ## What a frame holds -/

section

variable {mode : CanMode} {data : List UInt8}

theorem CanMode.maxSize_add (mode : CanMode) : 8 + mode.maxSize = mode.frameSize := by
  cases mode <;> rfl

theorem CanMode.maxSize_le (mode : CanMode) : mode.maxSize ≤ 64 := by
  cases mode <;> decide

variable (leftover : Leftover) (filter : Option UInt32)

theorem length_header (mode : CanMode) (n : ℕ) :
    (overwrite (overwrite ((List.range mode.frameSize).map leftover.frame) 0 (toLe 4 n)) 4
      [UInt8.ofNat data.length]).length = mode.frameSize := by
  have hsize := mode.maxSize_add
  have hrange : ((range mode.frameSize).map leftover.frame).length = mode.frameSize := by
    rw [length_map, length_range]
  have hid : (overwrite ((range mode.frameSize).map leftover.frame) 0 (toLe 4 n)).length =
      mode.frameSize := by
    rw [length_overwrite (by rw [length_toLe]; omega), hrange]
  rw [length_overwrite (by rw [length_singleton]; omega), hid]

theorem length_buildFrame (h : data.length ≤ mode.maxSize) :
    (buildFrame mode leftover filter data).length = mode.frameSize := by
  have hsize := mode.maxSize_add
  rw [buildFrame, length_overwrite (by rw [length_header]; omega), length_header]

theorem frameLen_buildFrame (h : data.length ≤ mode.maxSize) :
    frameLen (buildFrame mode leftover filter data) = data.length := by
  have hsize := mode.maxSize_add
  have hmax := mode.maxSize_le
  have hrange : ((range mode.frameSize).map leftover.frame).length = mode.frameSize := by
    rw [length_map, length_range]
  have hfour : ∀ n, ((overwrite ((range mode.frameSize).map leftover.frame) 0
      (toLe 4 n)).take 4).length = 4 := fun n => by
    rw [length_take, length_overwrite (by rw [length_toLe]; omega), hrange]
    omega
  have hbyte : (buildFrame mode leftover filter data)[4]? = some (UInt8.ofNat data.length) := by
    rw [buildFrame, getElem?_overwrite_of_outside (by rw [length_header]; omega)
      (.inl (by decide)), overwrite, append_assoc, getElem?_append_right
      (Nat.le_of_eq (hfour _)), hfour]
    rfl
  rw [frameLen, getD_eq_getElem?_getD, hbyte, getD_some, UInt8.toNat_ofNat']
  exact Nat.mod_eq_of_lt (by omega)

theorem frameData_buildFrame (h : data.length ≤ mode.maxSize) :
    frameData (buildFrame mode leftover filter data) = data := by
  have hsize := mode.maxSize_add
  have height : ∀ n, ((overwrite (overwrite ((range mode.frameSize).map leftover.frame) 0
      (toLe 4 n)) 4 [UInt8.ofNat data.length]).take 8).length = 8 := fun n => by
    rw [length_take, length_header]
    omega
  rw [frameData, frameLen_buildFrame leftover filter h, buildFrame, overwrite, append_assoc,
    drop_left' (height _), take_left]

theorem getElem?_buildFrame_five (h : data.length ≤ mode.maxSize) :
    (buildFrame mode leftover filter data)[5]? = some (leftover.frame 5) := by
  have hsize := mode.maxSize_add
  have hrange : ((range mode.frameSize).map leftover.frame).length = mode.frameSize := by
    rw [length_map, length_range]
  have hid : ∀ n, (overwrite ((range mode.frameSize).map leftover.frame) 0 (toLe 4 n))[5]? =
      some (leftover.frame 5) := fun n => by
    rw [getElem?_overwrite_of_outside (by rw [length_toLe]; omega)
      (.inr (by rw [length_toLe]; omega)), getElem?_map, getElem?_range (by omega)]
    rfl
  have hlen : ∀ (frame : List UInt8) (x : UInt8), frame.length = mode.frameSize →
      (overwrite frame 4 [x])[5]? = frame[5]? := fun frame x hframe =>
    getElem?_overwrite_of_outside (by rw [length_singleton]; omega) (.inr (Nat.le_refl 5))
  rw [buildFrame, getElem?_overwrite_of_outside (by rw [length_header]; omega) (.inl (by decide)),
    hlen, hid]
  rw [length_overwrite (by rw [length_toLe]; omega), hrange]

end

/-! ## Reads -/

section

variable {checksum dataOffset : ℕ} {st : StreamState} {s : PacketStream UInt8} {opts : SockOpts}

theorem SockOpts.Readable.exists (h : opts.Readable) :
    ∃ fd filter, opts.enableFd = some fd ∧ opts.filter = some filter := by
  obtain ⟨fd, hfd⟩ := isSome_iff_exists.1 h.1
  obtain ⟨filter, hfilter⟩ := isSome_iff_exists.1 h.2
  exact ⟨fd, filter, hfd, hfilter⟩

def SockOpts.frame (opts : SockOpts) (leftover : Leftover) (data : List UInt8) : List UInt8 :=
  buildFrame opts.mode leftover (opts.filter.getD none) data

theorem callVmCan_eq (h : Streams checksum dataOffset st s) (hopts : opts.Readable) (len : ℕ)
    (flag : Bool) (leftover : Leftover) :
    ∃ st', callVmCan (canvehicleLoader checksum) len flag opts leftover st =
        .ok ((s.read opts.mode.maxSize).1.map fun x => opts.frame leftover x.2) st' ∧
      Streams checksum dataOffset st' (s.read opts.mode.maxSize).2 := by
  obtain ⟨fd, filter, hfd, hfilter⟩ := hopts.exists
  have hframe : ∀ data, opts.frame leftover data = buildFrame opts.mode leftover filter data :=
    fun data => by rw [SockOpts.frame, hfilter, getD_some]
  obtain ⟨-, -, hread, st1, hrefill, hst1⟩ | ⟨n, data, st1, st2, hread, hrefill, htake, hst2⟩ :=
    refill_takeData h opts.mode.maxSize
  · rw [hread]
    exact ⟨st1, by rw [callVmCan, bind_run_ok hrefill]; rfl, hst1⟩
  · refine ⟨st2, ?_, hst2⟩
    rw [callVmCan, bind_run_ok hrefill, hread]
    simp only [if_true, hfd, hfilter]
    rw [bind_run_ok htake, map_some, hframe]
    rfl

theorem callVmCan_of_not_readable (h : Streams checksum dataOffset st s) (hopts : ¬opts.Readable)
    (len : ℕ) (flag : Bool) (leftover : Leftover) :
    ∃ st', callVmCan (canvehicleLoader checksum) len flag opts leftover st = .ok none st' ∧
      Streams checksum dataOffset st' s.next := by
  have hmatch : ∀ st1 : StreamState, (match opts.enableFd, opts.filter with
      | some _, some filter => do
          let data ← takeData opts.mode.maxSize
          pure (some (buildFrame opts.mode leftover filter data))
      | _, _ => pure none : Harness (Option (List UInt8))) st1 = .ok none st1 := by
    intro st1
    obtain ⟨enableFd, filter⟩ := opts
    cases enableFd with
    | none => rfl
    | some fd =>
      cases filter with
      | none => rfl
      | some f => exact absurd ⟨rfl, rfl⟩ hopts
  obtain ⟨begun, cur, rest⟩ := s
  obtain ⟨hcur, hrest, st1, hrefill, hst1⟩ | ⟨hcur, p, ps, st1, hrest, hrefill, hst1⟩ |
    ⟨hcur, hrefill⟩ := refill_cases h
  · simp only at hcur hrest
    subst hcur hrest
    exact ⟨st1, by rw [callVmCan, bind_run_ok hrefill]; rfl, hst1⟩
  · simp only at hcur hrest
    subst hcur hrest
    exact ⟨st1, by rw [callVmCan, bind_run_ok hrefill]; exact hmatch st1, hst1⟩
  · simp only at hcur
    obtain ⟨c, cs, rfl⟩ := exists_cons_of_ne_nil hcur
    exact ⟨st, by rw [callVmCan, bind_run_ok hrefill]; exact hmatch st, h⟩

def framesOf : List (SockOpts × Leftover) → List (Option (ℕ × List UInt8)) →
    List (Option (List UInt8))
  | r :: reads, out :: outs => out.map (fun x => r.1.frame r.2 x.2) :: framesOf reads outs
  | _, _ => []

variable {reads : List (SockOpts × Leftover)}

theorem callVmCans_eq (h : Streams checksum dataOffset st s) (hreads : ∀ r ∈ reads, r.1.Readable) :
    ∃ st', callVmCans (canvehicleLoader checksum) reads st =
        .ok (framesOf reads (PacketStream.reads (reads.map fun r => r.1.mode.maxSize) s).1) st' ∧
      Streams checksum dataOffset st'
        (PacketStream.reads (reads.map fun r => r.1.mode.maxSize) s).2 := by
  induction reads generalizing st s with
  | nil => exact ⟨st, rfl, h⟩
  | cons r reads ih =>
    obtain ⟨hr, hreads⟩ := forall_mem_cons.1 hreads
    obtain ⟨st1, hcall, hst1⟩ := callVmCan_eq h hr 8 false r.2
    obtain ⟨st2, hcalls, hst2⟩ := ih hst1 hreads
    refine ⟨st2, ?_, hst2⟩
    rw [callVmCans, bind_run_ok hcall, bind_run_ok hcalls]
    rfl

def SockOpts.Fits (opts : SockOpts) (frame : List UInt8) : Prop :=
  frame.length = opts.mode.frameSize ∧ frameLen frame ≤ opts.mode.maxSize ∧
    frameLen frame = (frameData frame).length

theorem framesOf_hold {outs : List (Option (ℕ × List UInt8))}
    (h : List.Forall₂ (fun max out => ∀ x ∈ out, x.2.length ≤ max)
      (reads.map fun r => r.1.mode.maxSize) outs) :
    (framesOf reads outs).map (Option.map frameData) = outs.map (Option.map Prod.snd) ∧
      List.Forall₂ (fun r frame => ∀ f ∈ frame, r.1.Fits f) reads (framesOf reads outs) := by
  induction reads generalizing outs with
  | nil =>
    cases h
    exact ⟨rfl, .nil⟩
  | cons r reads ih =>
    cases h with
    | @cons _ out _ outs hout houts =>
      obtain ⟨hmap, hall⟩ := ih houts
      rw [framesOf, map_cons, map_cons, hmap]
      cases out with
      | none => exact ⟨rfl, .cons (fun f hf => nomatch hf) hall⟩
      | some x =>
        have hlen := hout x rfl
        have hdata : frameData (r.1.frame r.2 x.2) = x.2 := frameData_buildFrame _ _ hlen
        have hframeLen : frameLen (r.1.frame r.2 x.2) = x.2.length :=
          frameLen_buildFrame _ _ hlen
        refine ⟨by simp only [map_some, hdata], .cons ?_ hall⟩
        intro f hf
        obtain rfl := some.inj hf
        exact ⟨length_buildFrame _ _ hlen, by rw [hframeLen]; exact hlen,
          by rw [hframeLen, hdata]⟩

/-- **CAN emulation frames the packets**, in order and piece by piece. -/
theorem callVmCans_delivers {mem : Mem} {nodes : List GraphNode}
    (hview : GuestView mem checksum dataOffset (opsOf nodes) (dataOf nodes))
    (hnodes : ∀ node ∈ nodes, node.IsPacket checksum) (hst : st.Fresh mem dataOffset)
    {reads : List (SockOpts × Leftover)} (hreads : ∀ r ∈ reads, r.1.Readable) :
    ∃ outs frames st', callVmCans (canvehicleLoader checksum) reads st = .ok frames st' ∧
      PacketStream.Delivered (nodes.map GraphNode.packet)
        (reads.map fun r => r.1.mode.maxSize) outs ∧
      frames.map (Option.map frameData) = outs.map (Option.map Prod.snd) ∧
        List.Forall₂ (fun r frame => ∀ f ∈ frame, r.1.Fits f) reads frames := by
  obtain ⟨st', hcalls, -⟩ := callVmCans_eq (streams_fresh hview hnodes hst) hreads
  have hdelivered := PacketStream.reads_delivered (nodes.map GraphNode.packet)
    (reads.map fun r => r.1.mode.maxSize)
  obtain ⟨hmap, hfits⟩ := framesOf_hold hdelivered.sizes_le
  exact ⟨_, _, st', hcalls, hdelivered, hmap, hfits⟩

def twoReads : List (SockOpts × Leftover) :=
  [(⟨some 0, some (some 5)⟩, ⟨fun _ => 0, 0⟩), (⟨some 1, some none⟩, ⟨fun _ => 1, 1⟩)]

theorem callVmCans_delivers_twoPackets :
    ∃ outs frames st', callVmCans (canvehicleLoader 0) twoReads twoPacketsState =
        .ok frames st' ∧
      PacketStream.Delivered (twoPackets.map GraphNode.packet)
        (twoReads.map fun r => r.1.mode.maxSize) outs ∧
      frames.map (Option.map frameData) = outs.map (Option.map Prod.snd) ∧
        List.Forall₂ (fun r frame => ∀ f ∈ frame, r.1.Fits f) twoReads frames :=
  callVmCans_delivers guestView_twoPackets (twoPackets_isPacket 0) fresh_twoPacketsState
    (by decide)

end

end FuzzSocketCan
