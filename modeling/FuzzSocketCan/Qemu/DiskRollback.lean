import FuzzSocketCan.Lib.Execution
import FuzzSocketCan.Qemu.BlockCow

/-! # Disk snapshots

What the layers of a disk are for, as a log of the writes in force. A reset drops the writes of the
present mode. Each layer holds one part of the log, and every request keeps that.

* **`DiskLog`** — the writes in force, before fuzz mode, since then, and in tmp mode.
* **`DiskLog.contents_tmpMode`** — leaving tmp mode returns to what the disk was before it.
* **`Shows.step`** — one request on the cache and on the log.
* **`cowSession_reads_eq`** — the guest reads the disk with the writes in force. -/

namespace FuzzSocketCan.Qemu

open Lib Option List

/-! ## Requests -/

inductive DiskOp
  | read (offset bytes : ℕ)
  | write (offset : ℕ) (data : List UInt8)
  | switchToFuzzMode
  | reset
  | enableTmpMode
  | disableTmpMode

def CowCache.HasChunk (self : CowCache) (k : ℕ) : Prop :=
  (self.primary.get k).isSome ∨ (self.secondary.get k).isSome ∨ (self.secondaryTmp.get k).isSome

structure CowSession where
  cache : CowCache
  reads : List (List UInt8)

namespace CowSession

def start : CowSession := ⟨.new, []⟩

/-- One request, `none` where the process is aborted. -/
def step (disk : Mem) (s : CowSession) : DiskOp → Option CowSession
  | .read offset bytes => some { s with reads := s.reads ++ [s.cache.read disk offset bytes] }
  | .write offset data => (s.cache.write offset data).map fun cache => { s with cache := cache }
  | .switchToFuzzMode => some { s with cache := s.cache.switchToFuzzMode }
  | .reset => some { s with cache := s.cache.reset }
  | .enableTmpMode => s.cache.enableTmpMode.map fun cache => { s with cache := cache }
  | .disableTmpMode => s.cache.disableTmpMode.map fun cache => { s with cache := cache }

def HasRoom (s : CowSession) : DiskOp → Prop
  | .write offset data => s.cache.HasRoom (data.length / 0x1000) offset s.cache.top.next
  | _ => True

def Coherent (s : CowSession) : DiskOp → Prop
  | .read offset bytes => ∀ k, s.cache.HasChunk k → k < offset + bytes → offset < k + 0x1000 →
      bytes % 0x1000 = 0 ∧ k % 0x1000 = offset % 0x1000
  | .write _ data => data.length % 0x1000 = 0
  | _ => True

def Admits (s : CowSession) : DiskOp → Prop
  | .read offset bytes => offset % 0x1000 = 0 ∧ bytes % 0x1000 = 0
  | .write offset data => offset % 0x1000 = 0 ∧ data.length % 0x1000 = 0 ∧
      s.cache.HasRoom (data.length / 0x1000) offset s.cache.top.next
  | _ => True

instance (s : CowSession) (op : DiskOp) : Decidable (s.Admits op) := by
  cases op <;> unfold Admits <;> infer_instance

end CowSession

/-! ## The writes in force -/

structure DiskWrite where
  offset : ℕ
  data : List UInt8

def applyWrites (disk : Mem) (ws : List DiskWrite) : Mem :=
  ws.foldl (fun mem w => storeAt mem w.offset w.data) disk

theorem applyWrites_append (disk : Mem) (ws us : List DiskWrite) :
    applyWrites disk (ws ++ us) = applyWrites (applyWrites disk ws) us := foldl_append

structure DiskLog where
  boot : List DiskWrite
  fuzz : Option (List DiskWrite)
  tmp : Option (List DiskWrite)
  reads : List (List UInt8)

variable {op : DiskOp}

namespace DiskLog

def start : DiskLog := ⟨[], none, none, []⟩

def contents (d : DiskLog) (disk : Mem) : Mem :=
  applyWrites disk (d.boot ++ d.fuzz.getD [] ++ d.tmp.getD [])

def write (d : DiskLog) (w : DiskWrite) : DiskLog :=
  match d.tmp, d.fuzz with
  | some ws, _ => { d with tmp := some (ws ++ [w]) }
  | none, some ws => { d with fuzz := some (ws ++ [w]) }
  | none, none => { d with boot := d.boot ++ [w] }

def reset (d : DiskLog) : DiskLog :=
  match d.tmp, d.fuzz with
  | some _, _ => { d with tmp := some [] }
  | none, some _ => { d with fuzz := some [] }
  | none, none => d

def step (disk : Mem) (d : DiskLog) : DiskOp → Option DiskLog
  | .read offset bytes =>
    some { d with reads := d.reads ++ [bytesAt (d.contents disk) offset bytes] }
  | .write offset data => some (d.write ⟨offset, data⟩)
  | .switchToFuzzMode => some { d with fuzz := some (d.fuzz.getD []) }
  | .reset => some d.reset
  | .enableTmpMode => if d.fuzz.isSome then some { d with tmp := some (d.tmp.getD []) } else none
  | .disableTmpMode => if d.tmp.isSome then some { d with tmp := none } else none

theorem step_of_tmp {disk : Mem} {d d' : DiskLog} (htmp : d.tmp.isSome) (hfuzz : d.fuzz.isSome)
    (hop : op ≠ .disableTmpMode) (h : d.step disk op = some d') :
    d'.boot = d.boot ∧ d'.fuzz = d.fuzz ∧ d'.tmp.isSome := by
  obtain ⟨boot, fuzz, tmp, reads⟩ := d
  obtain ⟨us, rfl⟩ := isSome_iff_exists.1 htmp
  obtain ⟨ws, rfl⟩ := isSome_iff_exists.1 hfuzz
  cases op with
  | disableTmpMode => exact absurd rfl hop
  | _ =>
    cases h
    exact ⟨rfl, rfl, rfl⟩

theorem contents_tmpMode {disk : Mem} {d d' : DiskLog} {ops : List DiskOp} (htmp : d.tmp = none)
    (hops : EachStep (step disk) (fun _ op => op ≠ .disableTmpMode) d (.enableTmpMode :: ops))
    (h : exec (step disk) d (.enableTmpMode :: ops ++ [.disableTmpMode]) = some d') :
    d'.contents disk = d.contents disk := by
  rw [cons_append] at h
  obtain ⟨d1, henable, h⟩ := exec_cons_eq_some.1 h
  rw [exec_append] at h
  obtain ⟨d2, hrun, hdisable⟩ := bind_eq_some_iff.1 h
  obtain ⟨hfuzz, henable⟩ := ite_none_right_eq_some.1 henable
  cases henable
  -- from then on only the writes of tmp mode change
  have hinv : d2.boot = d.boot ∧ d2.fuzz = d.fuzz ∧ d2.tmp.isSome := by
    refine exec_invariant_of_eachStep
      (I := fun e => e.boot = d.boot ∧ e.fuzz = d.fuzz ∧ e.tmp.isSome) ?_ (hops.2 _ (if_pos hfuzz))
      ⟨rfl, rfl, rfl⟩ hrun
    rintro e op e' ⟨hboot, hfuzz', htmp'⟩ hop hstep
    have hkeeps := step_of_tmp htmp' (hfuzz' ▸ hfuzz) hop hstep
    exact ⟨hkeeps.1.trans hboot, hkeeps.2.1.trans hfuzz', hkeeps.2.2⟩
  obtain ⟨d3, hdisable, hend⟩ := exec_cons_eq_some.1 hdisable
  obtain ⟨-, hdisable⟩ := ite_none_right_eq_some.1 hdisable
  cases hdisable
  cases hend
  unfold contents
  rw [hinv.1, hinv.2.1, htmp]

end DiskLog

/-! ## The layers hold the writes -/

def CowLayer.Holds (layer : CowLayer) (ws : List DiskWrite) : Prop :=
  layer.Keeps fun below => applyWrites below ws

theorem CowLayer.holds_clear (layer : CowLayer) : CowLayer.Holds layer.clear [] :=
  ChunkBuffer.keeps_new layer.data

theorem CowLayer.Holds.writeChunks {layer : CowLayer} {ws : List DiskWrite} (h : layer.Holds ws)
    (offset : ℕ) {data : List UInt8} (hlen : data.length % 0x1000 = 0) :
    (CowLayer.writeChunks data (data.length / 0x1000) layer offset 0).Holds
      (ws ++ [⟨offset, data⟩]) := by
  have hall : 0 + data.length / 0x1000 * 0x1000 = data.length := by omega
  have hkeeps := @CowLayer.keeps_writeChunks layer _ offset data (data.length / 0x1000) 0 h hall
  unfold CowLayer.Holds
  simp only [applyWrites_append]
  exact hkeeps

inductive Shows : CowSession → DiskLog → Prop
  | boot {primary secondary secondaryTmp size reads ws} (hprim : CowLayer.Holds primary ws)
      (hsec : CowLayer.Holds secondary []) (htmp : CowLayer.Holds secondaryTmp []) :
      Shows ⟨⟨primary, secondary, secondaryTmp, size, false, false⟩, reads⟩ ⟨ws, none, none, reads⟩
  | fuzz {primary secondary secondaryTmp size reads ws us} (hprim : CowLayer.Holds primary ws)
      (hsec : CowLayer.Holds secondary us) (htmp : CowLayer.Holds secondaryTmp []) :
      Shows ⟨⟨primary, secondary, secondaryTmp, size, true, false⟩, reads⟩
        ⟨ws, some us, none, reads⟩
  | tmp {primary secondary secondaryTmp size reads ws us vs} (hprim : CowLayer.Holds primary ws)
      (hsec : CowLayer.Holds secondary us) (htmp : CowLayer.Holds secondaryTmp vs) :
      Shows ⟨⟨primary, secondary, secondaryTmp, size, true, true⟩, reads⟩
        ⟨ws, some us, some vs, reads⟩

namespace Shows

variable {disk : Mem} {s : CowSession} {d : DiskLog}

theorem start : Shows .start .start :=
  .boot (ChunkBuffer.keeps_new _) (ChunkBuffer.keeps_new _) (ChunkBuffer.keeps_new _)

theorem seenChunk_eq (h : Shows s d) {c : ℕ} (honly : ∀ k a, s.cache.HasChunk k →
    ChunkBuffer.InChunk 0x1000 k a → ChunkBuffer.InChunk 0x1000 c a → k = c) :
    s.cache.seenChunk c (bytesAt disk c 0x1000) = bytesAt (d.contents disk) c 0x1000 := by
  unfold DiskLog.contents
  rw [applyWrites_append, applyWrites_append]
  cases h with
  | boot hprim hsec htmp => exact hprim.getD_get disk fun k a hk => honly k a (.inl hk)
  | @fuzz _ _ _ _ _ ws us hprim hsec htmp =>
    have hbelow := hprim.getD_get disk fun k a hk => honly k a (.inl hk)
    have htop := hsec.getD_get (applyWrites disk ws) fun k a hk => honly k a (.inr (.inl hk))
    rw [← hbelow] at htop
    exact htop
  | @tmp _ _ _ _ _ ws us vs hprim hsec htmp =>
    have hbelow := hprim.getD_get disk fun k a hk => honly k a (.inl hk)
    have hmid := hsec.getD_get (applyWrites disk ws) fun k a hk => honly k a (.inr (.inl hk))
    have htop := htmp.getD_get (applyWrites (applyWrites disk ws) us)
      fun k a hk => honly k a (.inr (.inr hk))
    rw [← hmid, ← hbelow] at htop
    exact htop

theorem contents_eq (h : Shows s d) {a : ℕ}
    (hnone : ∀ k, s.cache.HasChunk k → ¬ChunkBuffer.InChunk 0x1000 k a) :
    d.contents disk a = disk a := by
  unfold DiskLog.contents
  rw [applyWrites_append, applyWrites_append]
  cases h with
  | boot hprim hsec htmp => exact hprim.rest (fun k hk => hnone k (.inl hk)) disk
  | fuzz hprim hsec htmp =>
    have hbelow := hprim.rest (fun k hk => hnone k (.inl hk)) disk
    exact (hsec.rest (fun k hk => hnone k (.inr (.inl hk))) _).trans hbelow
  | @tmp _ _ _ _ _ ws us vs hprim hsec htmp =>
    have hbelow := hprim.rest (fun k hk => hnone k (.inl hk)) disk
    have hmid := hsec.rest (fun k hk => hnone k (.inr (.inl hk))) (applyWrites disk ws)
    exact ((htmp.rest (fun k hk => hnone k (.inr (.inr hk))) _).trans hmid).trans hbelow

theorem read_eq (h : Shows s d) {offset bytes : ℕ} (hop : s.Coherent (.read offset bytes)) :
    s.cache.read disk offset bytes = bytesAt (d.contents disk) offset bytes := by
  by_cases hbytes : bytes % 0x1000 = 0
  · refine CowCache.read_eq_bytesAt _ hbytes fun i hi => h.seenChunk_eq ?_
    intro k a hk hka hca
    unfold ChunkBuffer.InChunk at hka hca
    have hmod := (hop k hk (by omega) (by omega)).2
    omega
  · -- the disk is read as it is
    unfold CowCache.read
    rw [if_pos hbytes]
    refine bytesAt_congr fun i hi => (h.contents_eq ?_).symm
    rintro k hk ⟨hle, hlt⟩
    exact hbytes (hop k hk (by omega) (by omega)).1

theorem read (h : Shows s d) (out : List UInt8) :
    Shows { s with reads := s.reads ++ [out] } { d with reads := d.reads ++ [out] } := by
  cases h with
  | boot hprim hsec htmp => exact .boot hprim hsec htmp
  | fuzz hprim hsec htmp => exact .fuzz hprim hsec htmp
  | tmp hprim hsec htmp => exact .tmp hprim hsec htmp

theorem write (h : Shows s d) (offset : ℕ) {data : List UInt8} (hlen : data.length % 0x1000 = 0) :
    Shows ⟨s.cache.setTop
      (CowLayer.writeChunks data (data.length / 0x1000) s.cache.top offset 0), s.reads⟩
      (d.write ⟨offset, data⟩) := by
  cases h with
  | boot hprim hsec htmp => exact .boot (hprim.writeChunks offset hlen) hsec htmp
  | fuzz hprim hsec htmp => exact .fuzz hprim (hsec.writeChunks offset hlen) htmp
  | tmp hprim hsec htmp => exact .tmp hprim hsec (htmp.writeChunks offset hlen)

theorem switchToFuzzMode (h : Shows s d) :
    Shows { s with cache := s.cache.switchToFuzzMode } { d with fuzz := some (d.fuzz.getD []) } := by
  cases h with
  | boot hprim hsec htmp => exact .fuzz hprim hsec htmp
  | fuzz hprim hsec htmp => exact .fuzz hprim hsec htmp
  | tmp hprim hsec htmp => exact .tmp hprim hsec htmp

theorem reset (h : Shows s d) : Shows { s with cache := s.cache.reset } d.reset := by
  cases h with
  | boot hprim hsec htmp => exact .boot hprim hsec htmp
  | fuzz hprim hsec htmp => exact .fuzz hprim (CowLayer.holds_clear _) htmp
  | tmp hprim hsec htmp => exact .tmp hprim hsec (CowLayer.holds_clear _)

theorem step (h : Shows s d) (hop : s.Coherent op) (hroom : s.HasRoom op) :
    Option.Rel Shows (s.step disk op) (d.step disk op) := by
  cases op with
  | read offset bytes =>
    refine .some ?_
    rw [h.read_eq hop]
    exact h.read _
  | write offset data =>
    rw [CowSession.step, s.cache.write_eq_some hop hroom]
    exact .some (h.write offset hop)
  | switchToFuzzMode => exact .some h.switchToFuzzMode
  | reset => exact .some h.reset
  | enableTmpMode =>
    cases h with
    | boot hprim hsec htmp => exact .none
    | fuzz hprim hsec htmp => exact .some (.tmp hprim hsec htmp)
    | tmp hprim hsec htmp => exact .some (.tmp hprim hsec htmp)
  | disableTmpMode =>
    cases h with
    | boot hprim hsec htmp => exact .none
    | fuzz hprim hsec htmp => exact .none
    | tmp hprim hsec htmp => exact .some (.fuzz hprim hsec (CowLayer.holds_clear _))

theorem reads_eq (h : Shows s d) : s.reads = d.reads := by
  cases h <;> rfl

end Shows

/-! ## Requests of whole chunks -/

def CowSession.Aligned (s : CowSession) : Prop := ∀ k, s.cache.HasChunk k → k % 0x1000 = 0

variable {self : CowCache} {k : ℕ}

theorem CowCache.hasChunk_setTop {layer : CowLayer} (h : (self.setTop layer).HasChunk k) :
    (layer.get k).isSome ∨ self.HasChunk k := by
  unfold CowCache.setTop at h
  split_ifs at h
  · rcases h with hprim | hsec | htmp
    · exact .inr (.inl hprim)
    · exact .inr (.inr (.inl hsec))
    · exact .inl htmp
  · rcases h with hprim | hsec | htmp
    · exact .inr (.inl hprim)
    · exact .inl hsec
    · exact .inr (.inr (.inr htmp))
  · rcases h with hprim | hsec | htmp
    · exact .inl hprim
    · exact .inr (.inr (.inl hsec))
    · exact .inr (.inr (.inr htmp))

theorem CowCache.hasChunk_top (h : (self.top.get k).isSome) : self.HasChunk k := by
  unfold CowCache.top at h
  split_ifs at h
  · exact .inr (.inr h)
  · exact .inr (.inl h)
  · exact .inl h

theorem CowCache.hasChunk_reset (h : self.reset.HasChunk k) : self.HasChunk k := by
  unfold CowCache.reset at h
  split_ifs at h
  · rcases h with hprim | hsec | htmp
    · exact .inl hprim
    · exact .inr (.inl hsec)
    · cases htmp
  · rcases h with hprim | hsec | htmp
    · exact .inl hprim
    · cases hsec
    · exact .inr (.inr htmp)
  · exact h

theorem CowSession.Aligned.step {disk : Mem} {s s' : CowSession} (h : s.Aligned) (hop : s.Admits op)
    (hs : s.step disk op = some s') : s'.Aligned := by
  intro k hk
  cases op with
  | read offset bytes =>
    cases hs
    exact h k hk
  | write offset data =>
    rw [CowSession.step, s.cache.write_eq_some hop.2.1 hop.2.2] at hs
    cases hs
    rcases CowCache.hasChunk_setTop hk with hnew | hold
    · rcases CowLayer.isSome_get_writeChunks _ _ _ hnew with htop | hmod
      · exact h k (CowCache.hasChunk_top htop)
      · exact hmod.trans hop.1
    · exact h k hold
  | switchToFuzzMode =>
    cases hs
    exact h k hk
  | reset =>
    cases hs
    exact h k (CowCache.hasChunk_reset hk)
  | enableTmpMode =>
    obtain ⟨cache, henable, rfl⟩ := map_eq_some_iff.1 hs
    obtain ⟨-, henable⟩ := ite_none_right_eq_some.1 henable
    cases henable
    exact h k hk
  | disableTmpMode =>
    obtain ⟨cache, hdisable, rfl⟩ := map_eq_some_iff.1 hs
    obtain ⟨-, hdisable⟩ := ite_none_right_eq_some.1 hdisable
    cases hdisable
    exact h k (CowCache.hasChunk_reset hk)

theorem CowSession.Aligned.coherent {s : CowSession} (h : s.Aligned) (hop : s.Admits op) :
    s.Coherent op ∧ s.HasRoom op := by
  cases op with
  | read offset bytes => exact ⟨fun k hk _ _ => ⟨hop.2, (h k hk).trans hop.1.symm⟩, trivial⟩
  | write offset data => exact hop.2
  | _ => exact ⟨trivial, trivial⟩

/-- **The copy-on-write layers roll back**: a reset drops exactly the writes of the present mode. -/
theorem cowSession_reads_eq (disk : Mem) (ops : List DiskOp)
    (hops : EachStep (CowSession.step disk) CowSession.Admits .start ops) :
    (exec (CowSession.step disk) .start ops).map CowSession.reads =
      (exec (DiskLog.step disk) .start ops).map DiskLog.reads := by
  have haligned : CowSession.start.Aligned := by
    rintro k (⟨⟨⟩⟩ | ⟨⟨⟩⟩ | ⟨⟨⟩⟩)
  have hrel : Option.Rel (fun s d => Shows s d ∧ s.Aligned) (exec (CowSession.step disk) .start ops)
      (exec (DiskLog.step disk) .start ops) := by
    refine exec_rel_of_eachStep ?_ hops ⟨.start, haligned⟩
    rintro s d op ⟨hshows, hal⟩ hop
    obtain ⟨hcoherent, hroom⟩ := hal.coherent hop
    exact rel_and_of_forall (hshows.step hcoherent hroom) fun s' hs => hal.step hop hs
  generalize exec (CowSession.step disk) .start ops = s, exec (DiskLog.step disk) .start ops = d
    at hrel
  cases hrel with
  | none => rfl
  | some h => exact congrArg some h.1.reads_eq

theorem cowSession_reads_threeModes :
    let chunk (b : UInt8) := List.replicate 0x1000 b
    (exec (CowSession.step fun _ => 0) .start
      [.write 0 (chunk 1), .switchToFuzzMode, .write 0 (chunk 2), .enableTmpMode, .write 0 (chunk 3),
        .read 0 0x1000, .disableTmpMode, .read 0 0x1000, .reset, .read 0 0x1000]).map
      CowSession.reads = some [chunk 3, chunk 2, chunk 1] := by
  intro chunk
  have hchunk : ∀ (mem : Mem) (b : UInt8), bytesAt (storeAt mem 0 (chunk b)) 0 0x1000 = chunk b :=
    fun mem b => bytesAt_storeAt mem 0 length_replicate
  rw [cowSession_reads_eq _ _ (by decide +kernel)]
  exact congrArg some (congrArg₂ List.cons (hchunk _ _)
    (congrArg₂ List.cons (hchunk _ _) (congrArg₂ List.cons (hchunk _ _) rfl)))

end FuzzSocketCan.Qemu
