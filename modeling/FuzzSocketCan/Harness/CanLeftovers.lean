import FuzzSocketCan.Harness.CallVmCan

/-! # What frames are made of

A frame is copied whole to the target, with the bytes that were never assigned, so two runs on the
same packets hand out different frames if the stack held something else before.

* **`framesDetermined_iff`** — the input determines the frames only if there are none. -/

namespace FuzzSocketCan

open Lib List

/-- **The frames are determined by the input**, whatever buffer and stack held before. -/
def FramesDetermined (checksum dataOffset : ℕ) (mem : Mem) (opts : List SockOpts) : Prop :=
  ∀ (st1 st2 : StreamState) (reads1 reads2 : List (SockOpts × Leftover)),
    st1.Fresh mem dataOffset → st2.Fresh mem dataOffset → reads1.map Prod.fst = opts →
      reads2.map Prod.fst = opts →
        ∃ outs st₁' st₂', callVmCans (canvehicleLoader checksum) reads1 st1 = .ok outs st₁' ∧
          callVmCans (canvehicleLoader checksum) reads2 st2 = .ok outs st₂'

def NoFrames (s : PacketStream UInt8) (opts : List SockOpts) : Prop :=
  ∀ (j : ℕ) (o : SockOpts), opts[j]? = some o → o.Readable →
    s.cur = [] ∧ s.rest.length ≤ j ∧ ∀ p ∈ s.rest, p = []

section

variable {checksum dataOffset : ℕ} {s : PacketStream UInt8} {o : SockOpts} {opts : List SockOpts}

theorem noFrames_cons_of_readable (ho : o.Readable) :
    NoFrames s (o :: opts) ↔ s.cur = [] ∧ s.rest = [] := by
  constructor
  · intro h
    obtain ⟨hcur, hlen, -⟩ := h 0 o rfl ho
    exact ⟨hcur, length_eq_zero_iff.1 (Nat.le_zero.1 hlen)⟩
  · rintro ⟨hcur, hrest⟩ j o' - -
    rw [hrest]
    exact ⟨hcur, Nat.zero_le _, fun p hp => nomatch hp⟩

theorem noFrames_cons_of_not_readable (ho : ¬o.Readable) :
    NoFrames s (o :: opts) ↔ NoFrames s.next opts := by
  obtain ⟨begun, cur, rest⟩ := s
  have hshift : NoFrames ⟨begun, cur, rest⟩ (o :: opts) ↔ ∀ (j : ℕ) (o' : SockOpts),
      opts[j]? = some o' → o'.Readable →
        cur = [] ∧ rest.length ≤ j + 1 ∧ ∀ p ∈ rest, p = [] := by
    constructor
    · intro h j o' ho' hread
      exact h (j + 1) o' ho' hread
    · intro h j o' ho' hread
      cases j with
      | zero => exact absurd hread (Option.some.inj ho' ▸ ho)
      | succ j => exact h j o' ho' hread
  rw [hshift]
  refine forall₄_congr fun j o' _ _ => ?_
  cases cur with
  | cons c cs => exact iff_of_false (fun h => nomatch h.1) (fun h => nomatch h.1)
  | nil =>
    cases rest with
    | nil => simp [PacketStream.next]
    | cons p ps => simp [PacketStream.next, and_left_comm]

variable {st1 st2 : StreamState}

variable {reads : List (SockOpts × Leftover)}

theorem callVmCans_of_noFrames {st : StreamState} (hs : Streams checksum dataOffset st s)
    (h : NoFrames s (reads.map Prod.fst)) :
    ∃ st', callVmCans (canvehicleLoader checksum) reads st = .ok (reads.map fun _ => none) st' := by
  induction reads generalizing st s with
  | nil => exact ⟨st, rfl⟩
  | cons r reads ih =>
    have hstep : ∃ st1 s1, callVmCan (canvehicleLoader checksum) 8 false r.1 r.2 st =
        .ok none st1 ∧ Streams checksum dataOffset st1 s1 ∧
          NoFrames s1 (reads.map Prod.fst) := by
      by_cases ho : r.1.Readable
      · obtain ⟨hcur, hrest⟩ := (noFrames_cons_of_readable ho).1 h
        obtain ⟨st1, hcall, hst1⟩ := callVmCan_eq hs ho 8 false r.2
        obtain ⟨begun, cur, rest⟩ := s
        subst hcur hrest
        refine ⟨st1, _, hcall, hst1, ?_⟩
        intro j o' _ _
        exact ⟨rfl, Nat.zero_le _, fun p hp => nomatch hp⟩
      · obtain ⟨st1, hcall, hst1⟩ := callVmCan_of_not_readable hs ho 8 false r.2
        exact ⟨st1, _, hcall, hst1, (noFrames_cons_of_not_readable ho).1 h⟩
    obtain ⟨st1, s1, hcall, hst1, hno⟩ := hstep
    obtain ⟨st2, hcalls⟩ := ih hst1 hno
    exact ⟨st2, by rw [callVmCans, bind_run_ok hcall, bind_run_ok hcalls]; rfl⟩

def readsOn (b : UInt8) (opts : List SockOpts) : List (SockOpts × Leftover) :=
  opts.map fun o => (o, ⟨fun _ => b, 0⟩)

theorem map_fst_readsOn (b : UInt8) (opts : List SockOpts) :
    (readsOn b opts).map Prod.fst = opts := by
  rw [readsOn, map_map]
  exact map_id opts

variable {outs : List (Option (List UInt8))}

theorem callVmCans_cons_eq_ok {l : SpecLoader} {r : SockOpts × Leftover} {st st' : StreamState}
    (h : callVmCans l (r :: reads) st = .ok outs st') {out : Option (List UInt8)}
    (hcall : callVmCan l 8 false r.1 r.2 st = .ok out st1) :
    ∃ rest, outs = out :: rest ∧ callVmCans l reads st1 = .ok rest st' := by
  rw [callVmCans, bind_run_ok hcall] at h
  cases hrest : callVmCans l reads st1 with
  | error e st2 =>
    simp only [bind_run, hrest] at h
    cases h
  | ok rest st2 =>
    rw [bind_run_ok hrest] at h
    obtain ⟨rfl, rfl⟩ := EStateM.Result.ok.inj h
    exact ⟨rest, rfl, rfl⟩

theorem noFrames_of_agree (h1 : Streams checksum dataOffset st1 s)
    (h2 : Streams checksum dataOffset st2 s) {st₁' st₂' : StreamState}
    (hrun1 : callVmCans (canvehicleLoader checksum) (readsOn 0 opts) st1 = .ok outs st₁')
    (hrun2 : callVmCans (canvehicleLoader checksum) (readsOn 1 opts) st2 = .ok outs st₂') :
    NoFrames s opts := by
  induction opts generalizing s st1 st2 outs with
  | nil =>
    intro j o ho
    cases ho
  | cons o opts ih =>
    by_cases ho : o.Readable
    · rw [noFrames_cons_of_readable ho]
      obtain ⟨st3, hcall1, -⟩ := callVmCan_eq h1 ho 8 false ⟨fun _ => 0, 0⟩
      obtain ⟨st4, hcall2, -⟩ := callVmCan_eq h2 ho 8 false ⟨fun _ => 1, 0⟩
      obtain ⟨rest1, rfl, -⟩ := callVmCans_cons_eq_ok hrun1 hcall1
      obtain ⟨rest2, heq, -⟩ := callVmCans_cons_eq_ok hrun2 hcall2
      obtain ⟨-, hcur, hrest⟩ | ⟨n, data, s', hread, hpiece⟩ := s.read_cases o.mode.maxSize
      · exact ⟨hcur, hrest⟩
      · -- the sixth byte of the frame is the one on the stack
        rw [hread] at heq
        have hframe := Option.some.inj (cons.inj heq).1
        have hfive := congrArg (fun frame : List UInt8 => frame[5]?) hframe
        simp only [SockOpts.frame, getElem?_buildFrame_five _ _ hpiece.length_le] at hfive
        cases hfive
    · rw [noFrames_cons_of_not_readable ho]
      obtain ⟨st3, hcall1, hst3⟩ := callVmCan_of_not_readable h1 ho 8 false ⟨fun _ => 0, 0⟩
      obtain ⟨st4, hcall2, hst4⟩ := callVmCan_of_not_readable h2 ho 8 false ⟨fun _ => 1, 0⟩
      obtain ⟨rest1, rfl, hrest1⟩ := callVmCans_cons_eq_ok hrun1 hcall1
      obtain ⟨rest2, heq, hrest2⟩ := callVmCans_cons_eq_ok hrun2 hcall2
      rw [(cons.inj heq).2] at hrest1
      exact ih hst3 hst4 hrest1 hrest2

theorem fresh_zero (mem : Mem) (dataOffset : ℕ) :
    StreamState.Fresh mem dataOffset
      ⟨GuestState.ready mem dataOffset, 0, List.replicate packetBufferSize 0, 0, 0⟩ :=
  ⟨rfl, length_replicate, rfl, rfl⟩

/-- **The frames are determined by the input exactly if there are none.** -/
theorem framesDetermined_iff {mem : Mem} {nodes : List GraphNode}
    (hview : GuestView mem checksum dataOffset (opsOf nodes) (dataOf nodes))
    (hnodes : ∀ node ∈ nodes, node.IsPacket checksum) :
    FramesDetermined checksum dataOffset mem opts ↔
      ∀ (j : ℕ) (o : SockOpts), opts[j]? = some o → o.Readable →
        nodes.length ≤ j ∧ ∀ node ∈ nodes, node.packet = [] := by
  have hno : NoFrames (.start (nodes.map GraphNode.packet)) opts ↔
      ∀ (j : ℕ) (o : SockOpts), opts[j]? = some o → o.Readable →
        nodes.length ≤ j ∧ ∀ node ∈ nodes, node.packet = [] := by
    refine forall₄_congr fun j o _ _ => ?_
    simp [PacketStream.start]
  rw [← hno]
  constructor
  · intro h
    have hfresh := fresh_zero mem dataOffset
    have hs := streams_fresh hview hnodes hfresh
    obtain ⟨outs, st₁', st₂', hrun₁, hrun₂⟩ := h _ _ _ _ hfresh hfresh (map_fst_readsOn 0 opts)
      (map_fst_readsOn 1 opts)
    exact noFrames_of_agree hs hs hrun₁ hrun₂
  · rintro h st₁ st₂ reads₁ reads₂ hst₁ hst₂ rfl hopts
    obtain ⟨st₁', hrun₁⟩ := callVmCans_of_noFrames (streams_fresh hview hnodes hst₁) h
    rw [← hopts] at h
    obtain ⟨st₂', hrun₂⟩ := callVmCans_of_noFrames (streams_fresh hview hnodes hst₂) h
    have hlen : reads₁.length = reads₂.length := by
      rw [← length_map (f := Prod.fst), ← hopts, length_map]
    refine ⟨_, st₁', st₂', hrun₁, ?_⟩
    rw [map_const', hlen, ← map_const']
    exact hrun₂

end

theorem framesDetermined_unreadable :
    FramesDetermined 0 44 twoPacketsMem [⟨none, some none⟩, ⟨some 1, none⟩] :=
  (framesDetermined_iff guestView_twoPackets (twoPackets_isPacket 0)).2 (by
    intro j o ho hread
    have hmem := mem_of_getElem? ho
    simp only [mem_cons, not_mem_nil, or_false] at hmem
    rcases hmem with rfl | rfl
    · cases hread.1
    · cases hread.2)

/-- **Two reads of the same packet on different stacks get different frames.** -/
theorem not_framesDetermined_classic :
    ¬FramesDetermined 0 44 twoPacketsMem [⟨some 0, some (some 5)⟩] := by
  intro h
  have hfresh := fresh_zero twoPacketsMem 44
  have hs := streams_fresh guestView_twoPackets (twoPackets_isPacket 0) hfresh
  obtain ⟨outs, st₁', st₂', hrun₁, hrun₂⟩ := h _ _ _ _ hfresh hfresh
    (map_fst_readsOn 0 [⟨some 0, some (some 5)⟩]) (map_fst_readsOn 1 [⟨some 0, some (some 5)⟩])
  have hno := noFrames_of_agree hs hs hrun₁ hrun₂ 0 ⟨some 0, some (some 5)⟩ rfl (by decide)
  exact absurd hno.2.1 (by decide)

end FuzzSocketCan
