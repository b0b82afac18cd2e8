import FuzzSocketCan.Qemu.DiskRollback

/-! # Requests of sectors

The guest may ask for any sectors. The cache drops a write that is not made of whole chunks, finds
a chunk only under the offset of the request that wrote it, and does not look for chunks in a read
that is not made of whole ones.

* **`CowSession.Coherent`** — a run that avoids this.
* **`cowSession_sees_writes`** — it sees every write. -/

namespace FuzzSocketCan.Qemu

open Lib List CowSession

theorem Shows.step_of_some {disk : Mem} {s s' : CowSession} {d : DiskLog} {op : DiskOp}
    (h : Shows s d) (hop : s.Coherent op) (hs : s.step disk op = some s') :
    ∃ d', d.step disk op = some d' ∧ Shows s' d' := by
  have hroom : s.HasRoom op := by
    cases op with
    | write offset data =>
      by_contra hfull
      rw [CowSession.step, s.cache.write_eq_none hop hfull] at hs
      cases hs
    | _ => trivial
  have hrel := @step op disk s d h hop hroom
  rw [hs] at hrel
  generalize d.step disk op = o at hrel ⊢
  cases hrel with
  | some hshows => exact ⟨_, rfl, hshows⟩

/-- **No write is lost in a coherent run.** -/
theorem cowSession_sees_writes (disk : Mem) (ops : List DiskOp) {s : CowSession}
    (hops : EachStep (CowSession.step disk) CowSession.Coherent .start ops)
    (hrun : exec (CowSession.step disk) .start ops = some s) :
    ∃ d, exec (DiskLog.step disk) .start ops = some d ∧ s.reads = d.reads := by
  obtain ⟨d, hd, hshows⟩ := exec_simulates_of_eachStep
    (fun _ _ _ _ hshows hop hs => hshows.step_of_some hop hs) hops Shows.start hrun
  exact ⟨d, hd, hshows.reads_eq⟩

theorem cowSession_sees_secondSector : ∃ s,
    exec (CowSession.step fun _ => 0) .start
      [.write 0x200 (List.replicate 0x1000 1), .read 0x200 0x1000] = some s ∧
      s.reads = [List.replicate 0x1000 1] := by
  have hlen : (replicate 0x1000 (1 : UInt8)).length = 0x1000 := length_replicate
  generalize replicate 0x1000 (1 : UInt8) = data at hlen ⊢
  have hwhole : data.length % 0x1000 = 0 := by rw [hlen]
  have hroom : start.cache.HasRoom (data.length / 0x1000) 0x200
      start.cache.top.next := by
    rw [hlen]
    decide +kernel
  have hwrite := CowCache.write_eq_some _ hwhole hroom
  obtain ⟨s, hs⟩ : ∃ s, exec (step fun _ => 0) .start
      [.write 0x200 data, .read 0x200 0x1000] = some s :=
    ⟨_, exec_cons_eq_some.2 ⟨_, congrArg (Option.map _) hwrite, rfl⟩⟩
  refine ⟨s, hs, ?_⟩
  -- the only chunk in the cache is the one that was written
  have hops : EachStep (step fun _ => 0) CowSession.Coherent .start
      [.write 0x200 data, .read 0x200 0x1000] := by
    refine ⟨hwhole, fun s₁ hs₁ => ⟨?_, fun _ _ => trivial⟩⟩
    rw [step, hwrite] at hs₁
    cases hs₁
    intro k hk _ _
    refine ⟨rfl, ?_⟩
    rcases CowCache.hasChunk_setTop hk with hnew | hold
    · rcases CowLayer.isSome_get_writeChunks _ _ _ hnew with htop | hmod
      · cases htop
      · exact hmod
    · rcases hold with hnone | hnone | hnone <;> cases hnone
  obtain ⟨d, hd, hreads⟩ := cowSession_sees_writes _ _ hops hs
  cases hd
  rw [hreads]
  exact congrArg (fun bs => [bs]) (bytesAt_storeAt (fun _ => 0) 0x200 hlen)

/-- **A write of one sector is lost.** -/
theorem sector_write_lost :
    (exec (CowSession.step fun _ => 0) .start
      [.write 0 (List.replicate 512 1), .read 0 512]).map CowSession.reads =
        some [List.replicate 512 0] ∧
    (exec (DiskLog.step fun _ => 0) .start
      [.write 0 (List.replicate 512 1), .read 0 512]).map DiskLog.reads =
        some [List.replicate 512 1] := by
  have hlen : (replicate 512 (1 : UInt8)).length = 512 := length_replicate
  constructor
  · decide +kernel
  · -- evaluating the log would look up each byte among all of them
    generalize replicate 512 (1 : UInt8) = data at hlen ⊢
    exact congrArg (fun bs => some [bs]) (bytesAt_storeAt (fun _ => 0) 0 hlen)

end FuzzSocketCan.Qemu
