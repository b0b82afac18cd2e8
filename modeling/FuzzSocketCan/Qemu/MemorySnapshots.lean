import FuzzSocketCan.Qemu.SlotLogs

/-! # The law of the snapshots

Every restore brings back the memory of the active snapshot, and discarding a tmp snapshot brings
back the root, on all pages that are not blocklisted (`Watched`). The law needs one thing: the
bits of the last pages of a slot, which `nyx_dirty_ring_init` does not clear, must not be set.

* **`SnapInv.step`** — what every operation keeps.
* **`keepsSnapshots_iff`** — when the law holds. -/

namespace FuzzSocketCan.Qemu

open Lib List Option Function ShadowMemory FdlUser FastReload

variable {α : Type}

structure Watched (α : Type) where
  vm : FastReload α
  root : GuestMemory α
  tmp : Option (GuestMemory α)

namespace Watched

def taken (w : Watched α) : GuestMemory α := w.tmp.getD w.root

def tmpAfter (w : Watched α) : SnapshotOp α → Option (GuestMemory α)
  | .createTmp => some w.vm.shadow.host
  | .discardTmp => none
  | _ => w.tmp

def step (c : Machine) (w : Watched α) (op : SnapshotOp α) : Option (Watched α) :=
  (w.vm.step c op).map fun vm => { w with vm := vm, tmp := w.tmpAfter op }

end Watched

/-- Restoring succeeds and brings back the active snapshot; discarding succeeds and brings back the
root, also in the incremental copy, which differs from the root on tracked pages only. -/
structure RollsBack (c : Machine) (w : Watched α) : Prop where
  restore : ∃ w', w.step c .restore = some w' ∧
    ∀ p, c.Restores p → w'.vm.shadow.host p = w'.taken p
  discard : w.vm.incrementalSnapshotEnabled = true → ∃ w', w.step c .discardTmp = some w' ∧
    ∀ p, c.Restores p → w'.vm.shadow.host p = w'.root p ∧ w'.vm.shadow.incremental p = w'.root p
  tracked : ∀ p, w.vm.shadow.incremental p ≠ w.vm.shadow.snapshot p → p ∈ w.vm.shadow.trackedPages

def Machine.KeepsSnapshots (c : Machine) (α : Type) : Prop :=
  ∀ (mem : GuestMemory α) (vm : FastReload α), FastReload.init c mem = some vm →
    ∀ (ops : List (SnapshotOp α)) (w : Watched α),
      exec (Watched.step c) ⟨vm, mem, none⟩ ops = some w → RollsBack c w

/-! ## The invariant -/

def FastReload.Pending (s : FastReload α) (p : PageId) : Prop :=
  (∃ e ∈ s.ring, ∃ slot, s.slots[e.slot]? = some slot ∧ slot.page e.offset = p) ∨
    ∃ slot ∈ s.slots, slot.enabled = true ∧ ∃ gfn ∈ slot.log.stack, slot.page gfn = p

structure SnapInv (c : Machine) (w : Watched α) : Prop where
  count : w.vm.slots.length < 0x100
  blocklist : w.vm.blocklist = c.blocklist
  /-- The ring reports pages of enabled slots. -/
  ring : ∀ e ∈ w.vm.ring, ∃ slot, w.vm.slots[e.slot]? = some slot ∧ slot.enabled = true ∧
    e.offset < c.pages e.slot
  /-- No page of a slot is lost that has to be restored. -/
  marks : ∀ i slot, w.vm.slots[i]? = some slot → slot.enabled = true → ∀ gfn < c.pages i,
    slot.log.Lost id gfn → ¬ c.Restores (slot.page gfn)
  /-- Nothing was written by QEMU. -/
  fdl : ∀ log ∈ w.vm.fdlUser.entry, log.stack = []
  /-- What is not pending is as in the active snapshot. -/
  clean : ∀ p, c.Restores p → ¬ w.vm.Pending p → w.vm.shadow.host p = w.vm.shadow.active p
  taken : ∀ p, c.Restores p → w.vm.shadow.active p = w.taken p
  root : w.vm.shadow.snapshot = w.root
  tracked : ∀ p, w.vm.shadow.incremental p ≠ w.vm.shadow.snapshot p → p ∈ w.vm.shadow.trackedPages
  untracked : w.vm.shadow.incrementalEnabled = false → w.vm.shadow.rootTrackPages = []
  flag : w.vm.shadow.incrementalEnabled = w.vm.incrementalSnapshotEnabled

namespace SnapInv

variable {c : Machine} {w : Watched α}

theorem stack_init (ram : RamLayout) (bitmap : ℕ → ℕ → Bool) :
    ∀ log ∈ (FdlUser.init ram bitmap).enable.entry, log.stack = [] := by
  intro log hlog
  simp only [FdlUser.enable, FdlUser.init, List.mem_map] at hlog
  obtain ⟨i, -, rfl⟩ := hlog
  rfl

theorem logInv (h : SnapInv c w) : LogInv c.toRingMachine w.vm.slots w.vm.ring := by
  refine ⟨h.count, fun e he => ?_, h.marks⟩
  rcases h.ring e he with ⟨slot, hslot, -, hoffset⟩
  exact ⟨(List.getElem?_eq_some_iff.1 hslot).1, hoffset⟩

theorem init {mem : GuestMemory α} {vm : FastReload α} (htail : c.TailClear)
    (h : FastReload.init c mem = some vm) : SnapInv c ⟨vm, mem, none⟩ := by
  rcases map_eq_some_iff.1 h with ⟨slots, hslots, rfl⟩
  have hlogs := LogInv.init htail hslots
  refine ⟨hlogs.count, rfl, ?_, hlogs.marks, stack_init c.ram c.fdlBitmap, fun p _ _ => rfl,
    fun p _ => rfl, rfl, fun p hp => absurd rfl hp, fun _ => rfl, rfl⟩
  intro e he
  cases he

theorem dirtyPlaces_eq (h : SnapInv c w) (slots : List Slot) :
    w.vm.dirtyPlaces c.ram slots = slots.flatMap (Slot.places c.ram c.blocklist) := by
  rw [dirtyPlaces, placesFrom_eq_nil h.fdl, append_nil, h.blocklist]

variable {p : PageId}

theorem mem_collected_of_pending (h : SnapInv c w) (hp : c.Restores p) (hpend : w.vm.Pending p) :
    ∃ slot ∈ collected w.vm.slots w.vm.ring, slot.enabled = true ∧
      ∃ gfn ∈ slot.log.stack, slot.page gfn = p := by
  refine h.logInv.mem_collected hp (hpend.imp_left ?_)
  rintro ⟨e, he, slot, hslot, hpage⟩
  rcases h.ring e he with ⟨slot', hslot', hen, -⟩
  obtain rfl := some_inj.1 (hslot'.symm.trans hslot)
  exact ⟨e, he, slot', hslot, hen, hpage⟩

def copied (c : Machine) (w : Watched α) : List PageId :=
  ShadowMemory.pagesAt ((collected w.vm.slots w.vm.ring).flatMap (Slot.places c.ram c.blocklist))

theorem mem_copied_of_pending (h : SnapInv c w) (hp : c.Restores p) (hpend : w.vm.Pending p) :
    p ∈ copied c w := by
  obtain ⟨slot, hslot, hen, gfn, hgfn, rfl⟩ := h.mem_collected_of_pending hp hpend
  exact (mem_pagesAt_places c.ram c.blocklist).2 ⟨slot, hslot, hen, gfn, hgfn, hp, rfl⟩

theorem host_eq_of_notMem (h : SnapInv c w) (hp : c.Restores p) (hno : p ∉ copied c w) :
    w.vm.shadow.host p = w.vm.shadow.active p :=
  h.clean p hp fun hpend => hno (h.mem_copied_of_pending hp hpend)

variable {w' : Watched α}

theorem of_swept (h : SnapInv c w) (hring : w'.vm.ring = [])
    (hslots : w'.vm.slots = (collected w.vm.slots w.vm.ring).map (Slot.swept c.ram c.blocklist))
    (hfdl : w'.vm.fdlUser = w.vm.fdlUser) (hbl : w'.vm.blocklist = w.vm.blocklist)
    (hclean : ∀ p, c.Restores p → w'.vm.shadow.host p = w'.vm.shadow.active p)
    (htaken : ∀ p, c.Restores p → w'.vm.shadow.active p = w'.taken p)
    (hroot : w'.vm.shadow.snapshot = w'.root)
    (htracked : ∀ p, w'.vm.shadow.incremental p ≠ w'.vm.shadow.snapshot p →
      p ∈ w'.vm.shadow.trackedPages)
    (huntracked : w'.vm.shadow.incrementalEnabled = false → w'.vm.shadow.rootTrackPages = [])
    (hflag : w'.vm.shadow.incrementalEnabled = w'.vm.incrementalSnapshotEnabled) :
    SnapInv c w' := by
  have hlogs : LogInv c.toRingMachine w'.vm.slots [] := by
    rw [hslots]
    exact h.logInv.collected.swept
  refine ⟨hlogs.count, hbl.trans h.blocklist, ?_, hlogs.marks, ?_, fun p hp _ => hclean p hp, htaken,
    hroot, htracked, huntracked, hflag⟩
  · intro e he
    rw [hring] at he
    cases he
  · rw [hfdl]
    exact h.fdl

/-! ## One operation -/

theorem restoreOperation_eq (h : SnapInv c w) : w.vm.restoreOperation c.ram = some { w.vm with
    shadow := { w.vm.shadow with
      host := fun p => if p ∈ copied c w then w.vm.shadow.active p else w.vm.shadow.host p }
    ring := []
    slots := (collected w.vm.slots w.vm.ring).map (Slot.swept c.ram c.blocklist)
    numDirtyPages :=
      ((collected w.vm.slots w.vm.ring).flatMap (Slot.places c.ram c.blocklist)).length } := by
  rw [FastReload.restoreOperation_eq h.logInv.flush_eq]
  simp only [h.dirtyPlaces_eq, FdlUser.sweptFrom_eq_self h.fdl, h.blocklist]
  rfl

theorem host_restored (h : SnapInv c w) (hp : c.Restores p) :
    (if p ∈ copied c w then w.vm.shadow.active p else w.vm.shadow.host p) = w.vm.shadow.active p := by
  split
  · rfl
  · exact h.host_eq_of_notMem hp ‹_›

theorem restore (h : SnapInv c w) : ∃ w', w.step c .restore = some w' ∧ SnapInv c w' ∧
    ∀ p, c.Restores p → w'.vm.shadow.host p = w'.taken p := by
  refine ⟨_, congrArg (Option.map _) h.restoreOperation_eq, ?_, ?_⟩
  · exact h.of_swept rfl rfl rfl rfl (fun p hp => h.host_restored hp) h.taken h.root h.tracked
      h.untracked h.flag
  · exact fun p hp => (h.host_restored hp).trans (h.taken p hp)

theorem incremental_eq (h : SnapInv c w) (hoff : w.vm.shadow.incrementalEnabled = false) :
    w.vm.shadow.incremental = w.vm.shadow.snapshot := by
  funext p
  by_contra hne
  have hp := h.tracked p hne
  rw [trackedPages, h.untracked hoff] at hp
  cases hp

theorem createTmpSnapshot_eq (h : SnapInv c w) (hoff : w.vm.incrementalSnapshotEnabled = false) :
    ∃ count, w.vm.createTmpSnapshot c.ram = some { w.vm with
      shadow :=
        { w.vm.shadow with
          incremental := fun p => if p ∈ copied c w then w.vm.shadow.host p else w.vm.shadow.snapshot p
          rootTrackPages := w.vm.shadow.rootTrackPages ++ ((collected w.vm.slots w.vm.ring).flatMap
            (Slot.places c.ram c.blocklist)).map fun v => ShadowMemory.trackEntry v.2 v.1
          incrementalEnabled := true
          count := count }
      ring := []
      slots := (collected w.vm.slots w.vm.ring).map (Slot.swept c.ram c.blocklist)
      incrementalSnapshotEnabled := true } := by
  have hprepare : ∃ count, w.vm.shadow.prepareIncremental =
      { w.vm.shadow with incremental := w.vm.shadow.snapshot, count := count } := by
    -- mapped anew or not, the incremental copy is the root
    rw [← h.incremental_eq (h.flag.trans hoff)]
    unfold prepareIncremental
    split
    · exact ⟨1, by rw [h.incremental_eq (h.flag.trans hoff)]⟩
    · exact ⟨_, rfl⟩
  obtain ⟨count, hprepare⟩ := hprepare
  refine ⟨count, ?_⟩
  rw [FastReload.createTmpSnapshot_eq h.logInv.flush_eq]
  simp only [h.dirtyPlaces_eq, FdlUser.sweptFrom_eq_self h.fdl, h.blocklist, hprepare]
  rfl

theorem createTmp (h : SnapInv c w) (hoff : w.vm.incrementalSnapshotEnabled = false) :
    ∃ w', w.step c .createTmp = some w' ∧ SnapInv c w' := by
  obtain ⟨count, hcreate⟩ := h.createTmpSnapshot_eq hoff
  have hstep : w.vm.step c .createTmp = w.vm.createTmpSnapshot c.ram := by
    rw [step, if_neg (by simp [hoff])]
  have hactive : w.vm.shadow.active = w.vm.shadow.snapshot := by
    rw [active, if_neg (by simp [h.flag, hoff])]
  -- the saved copy is the guest's memory
  have hsaved : ∀ p, c.Restores p → w.vm.shadow.host p =
      if p ∈ copied c w then w.vm.shadow.host p else w.vm.shadow.snapshot p := by
    intro p hp
    split
    · rfl
    · rw [← hactive]
      exact h.host_eq_of_notMem hp ‹_›
  refine ⟨_, congrArg (Option.map _) (hstep.trans hcreate), ?_⟩
  refine h.of_swept rfl rfl rfl rfl hsaved (fun p hp => (hsaved p hp).symm) h.root ?_
    (fun hfalse => nomatch hfalse) rfl
  intro p hp
  have hcopied : p ∈ copied c w := by
    by_contra hno
    exact hp (if_neg hno)
  obtain ⟨v, hv, rfl⟩ := mem_map.1 hcopied
  refine mem_map.2 ⟨trackEntry v.2 v.1, ?_, ?_⟩
  · exact mem_append_right _ (mem_map.2 ⟨v, hv, rfl⟩)
  · exact trackedPage_trackEntry (region_lt_of_mem_places c.ram c.blocklist hv)

theorem discardTmp (h : SnapInv c w) (hon : w.vm.incrementalSnapshotEnabled = true) :
    ∃ w', w.step c .discardTmp = some w' ∧ SnapInv c w' ∧ ∀ p, c.Restores p →
      w'.vm.shadow.host p = w'.root p ∧ w'.vm.shadow.incremental p = w'.root p := by
  have hdiscard := congrArg (Option.map fun s : FastReload α => { s with
    shadow := s.shadow.restoreMemory.switchSnapshot false, incrementalSnapshotEnabled := false })
    h.restoreOperation_eq
  have hstep : w.vm.step c .discardTmp = (w.vm.restoreOperation c.ram).map fun s => { s with
      shadow := s.shadow.restoreMemory.switchSnapshot false, incrementalSnapshotEnabled := false } := by
    rw [FastReload.step, FastReload.discardTmpSnapshot, if_pos hon]
  have hactive : w.vm.shadow.active = w.vm.shadow.incremental := by
    rw [active, if_pos (h.flag.trans hon)]
  rw [map_some, restoreMemory_eq] at hdiscard
  -- off the track list the incremental copy is the root, and the guest's memory is that copy
  have hinc : ∀ p, (if p ∈ w.vm.shadow.trackedPages then w.vm.shadow.snapshot p
      else w.vm.shadow.incremental p) = w.vm.shadow.snapshot p := by
    intro p
    split
    · rfl
    · exact not_not.1 fun hne => ‹¬ _› (h.tracked p hne)
  have hhost : ∀ p, c.Restores p → (if p ∈ w.vm.shadow.trackedPages then w.vm.shadow.snapshot p
      else if p ∈ copied c w then w.vm.shadow.active p else w.vm.shadow.host p) =
        w.vm.shadow.snapshot p := by
    intro p hp
    rw [h.host_restored hp, hactive]
    exact hinc p
  refine ⟨_, congrArg (Option.map _) (hstep.trans hdiscard), ?_, ?_⟩
  · refine h.of_swept rfl rfl rfl rfl hhost (fun p _ => congrFun h.root p) h.root ?_ (fun _ => rfl) rfl
    exact fun p hp => absurd (hinc p) hp
  · intro p hp
    exact ⟨(hhost p hp).trans (congrFun h.root p), (hinc p).trans (congrFun h.root p)⟩

theorem guestWrite (h : SnapInv c w) {i gfn : ℕ} {data : α}
    (hw : w.step c (.guestWrite i gfn data) = some w') : SnapInv c w' := by
  obtain ⟨vm, hvm, rfl⟩ := map_eq_some_iff.1 hw
  obtain ⟨slot, hslot, hen, hgfn, rfl⟩ := guestWrite_eq_some.1 hvm
  refine ⟨h.count, h.blocklist, ?_, h.marks, h.fdl, ?_, h.taken, h.root, h.tracked, h.untracked,
    h.flag⟩
  · intro e he
    rcases mem_append.1 he with he | he
    · exact h.ring e he
    · obtain rfl := mem_singleton.1 he
      exact ⟨slot, hslot, hen, hgfn⟩
  · intro p hp hno
    have hne : p ≠ slot.page gfn := by
      rintro rfl
      exact hno (.inl ⟨⟨i, gfn⟩, mem_append_right _ mem_cons_self, slot, hslot, rfl⟩)
    refine (update_of_ne hne data w.vm.shadow.host).trans (h.clean p hp ?_)
    rintro (⟨e, he, hpage⟩ | hlog)
    · exact hno (.inl ⟨e, mem_append_left _ he, hpage⟩)
    · exact hno (.inr hlog)

theorem dirtyRingFull (h : SnapInv c w) (hw : w.step c .dirtyRingFull = some w') :
    SnapInv c w' := by
  have hfull : w.vm.step c .dirtyRingFull =
      some { w.vm with ring := [], slots := collected w.vm.slots w.vm.ring } := by
    rw [FastReload.step, FastReload.handleDirtyRingFull, h.logInv.flush_eq]
    rfl
  obtain rfl := some_inj.1 ((congrArg (Option.map _) hfull).symm.trans hw)
  have hlogs := h.logInv.collected
  refine ⟨hlogs.count, h.blocklist, ?_, hlogs.marks, h.fdl, ?_, h.taken, h.root, h.tracked,
    h.untracked, h.flag⟩
  · intro e he
    cases he
  · exact fun p hp hno => h.clean p hp fun hpend => hno (.inr (h.mem_collected_of_pending hp hpend))

theorem step (h : SnapInv c w) {op : SnapshotOp α} (hw : w.step c op = some w') : SnapInv c w' := by
  cases op with
  | guestWrite i gfn data => exact h.guestWrite hw
  | dirtyRingFull => exact h.dirtyRingFull hw
  | restore =>
    obtain ⟨w1, hw1, hinv, -⟩ := h.restore
    obtain rfl := some_inj.1 (hw1.symm.trans hw)
    exact hinv
  | createTmp =>
    cases hoff : w.vm.incrementalSnapshotEnabled with
    | true => simp [Watched.step, FastReload.step, hoff] at hw
    | false =>
      obtain ⟨w1, hw1, hinv⟩ := h.createTmp hoff
      obtain rfl := some_inj.1 (hw1.symm.trans hw)
      exact hinv
  | discardTmp =>
    cases hon : w.vm.incrementalSnapshotEnabled with
    | false => simp [Watched.step, FastReload.step, FastReload.discardTmpSnapshot, hon] at hw
    | true =>
      obtain ⟨w1, hw1, hinv, -⟩ := h.discardTmp hon
      obtain rfl := some_inj.1 (hw1.symm.trans hw)
      exact hinv

theorem rollsBack (h : SnapInv c w) : RollsBack c w := by
  refine ⟨?_, fun hon => ?_, h.tracked⟩
  · obtain ⟨w', hw', -, hhost⟩ := h.restore
    exact ⟨w', hw', hhost⟩
  · obtain ⟨w', hw', -, hroot⟩ := h.discardTmp hon
    exact ⟨w', hw', hroot⟩

end SnapInv

theorem RingMachine.TailClear.keepsSnapshots {c : Machine} (h : c.TailClear) : c.KeepsSnapshots α := by
  intro mem vm hinit ops w hw
  have hinv : SnapInv c w := exec_invariant (I := SnapInv c) (fun _ _ _ hI hs => hI.step hs)
    (SnapInv.init h hinit) hw
  exact hinv.rollsBack

/-! ## A page whose bit was set -/

theorem FastReload.restoreOperation_host {c : Machine} {s : FastReload α} {slots : List Slot}
    (hflush : dirtyRingFlushAndCollect s.slots s.ring = some slots)
    (hslots : ∀ slot ∈ slots, slot.log.stack = []) (hfdl : ∀ log ∈ s.fdlUser.entry, log.stack = []) :
    ∃ s', s.restoreOperation c.ram = some s' ∧ s'.shadow.host = s.shadow.host := by
  refine ⟨_, restoreOperation_eq hflush, funext fun p => if_neg ?_⟩
  rw [dirtyPlaces, placesFrom_eq_nil hfdl, append_nil, mem_pagesAt_places]
  rintro ⟨slot, hslot, -, gfn, hgfn, -⟩
  rw [hslots slot hslot] at hgfn
  cases hgfn

theorem Machine.KeepsSnapshots.tailClear [Nontrivial α] {c : Machine}
    (hboot : (nyxDirtyRingInit c.ram c.kvmSlots c.heap).isSome) (h : c.KeepsSnapshots α) :
    c.TailClear := by
  intro i mem hmem hro gfn hgfn htail hheap
  by_contra hblock
  obtain ⟨slots, hslots⟩ := isSome_iff_exists.1 hboot
  rcases exists_marked_slot hslots hmem hro htail hheap with ⟨slot, hslot, hen, hmarked, hphys⟩
  obtain ⟨x, y, hxy⟩ := exists_pair_ne α
  -- the guest writes the page once
  let s : FastReload α := { FastReload.started c (fun _ => x) slots with
    shadow := { ShadowMemory.init fun _ => x with
      host := update (fun _ => x) (slot.page gfn) y }
    ring := [⟨i, gfn⟩] }
  have hrun : exec (Watched.step c) ⟨.started c (fun _ => x) slots, fun _ => x, none⟩
      [.guestWrite i gfn y] = some ⟨s, fun _ => x, none⟩ :=
    exec_cons_eq_some.2 ⟨_, congrArg (Option.map _) (FastReload.guestWrite_eq_some.2
      ⟨slot, hslot, hen, pages_eq hmem ▸ hgfn, rfl⟩), rfl⟩
  obtain ⟨w', hw', hhost⟩ := (h _ _ (congrArg (Option.map _) hslots) _ _ hrun).restore
  -- the page is reported, but its bit is set
  have hring : ∀ e ∈ [(⟨i, gfn⟩ : KvmDirtyGfn)], e.slot < slots.length := by
    intro e he
    obtain rfl := mem_singleton.1 he
    exact (List.getElem?_eq_some_iff.1 hslot).1
  have hflush := dirtyRingFlushAndCollect_eq (nyxDirtyRingInit_eq_some hslots).1 hring
  have hempty := stack_collected_of_marked (stack_of_init hslots) hslot hmarked
  obtain ⟨s', hs', hsame⟩ := FastReload.restoreOperation_host (c := c) (s := s) hflush hempty
    (SnapInv.stack_init c.ram c.fdlBitmap)
  obtain rfl := some_inj.1 ((congrArg (Option.map _) hs').symm.trans hw')
  have hp : c.Restores (slot.page gfn) := by
    rw [RingMachine.Restores, Blocklist.Blocks, hphys]
    exact hblock
  have hy : update (fun _ => x) (slot.page gfn) y (slot.page gfn) = x :=
    (congrFun hsame (slot.page gfn)).symm.trans (hhost (slot.page gfn) hp)
  rw [update_self] at hy
  exact hxy hy.symm

/-- **When the snapshots are kept**, in every run. -/
theorem keepsSnapshots_iff [Nontrivial α] {c : Machine}
    (hboot : (nyxDirtyRingInit c.ram c.kvmSlots c.heap).isSome) :
    c.KeepsSnapshots α ↔ c.TailClear :=
  ⟨fun h => h.tailClear hboot, fun h => h.keepsSnapshots⟩

def lowMemory (heap : ℕ → ℕ → Bool) : Machine where
  ram := .single 0x8000
  kvmSlots := [.ofPages 0 0xa0 false, .ofPages 0xc0 0xb true, .ofPages 0xcb 3 false]
  blocklist := ⟨0x8000000, fun _ => false⟩
  heap := heap
  fdlBitmap := fun _ _ => false
  fits := RamLayout.single_length_le 0x8000

theorem keepsSnapshots_lowMemory :
    (lowMemory fun _ _ => false).TailClear ∧ (lowMemory fun _ _ => false).KeepsSnapshots Bool := by
  have htail : (lowMemory fun _ _ => false).TailClear := fun _ _ _ _ _ _ _ hheap => nomatch hheap
  exact ⟨htail, (keepsSnapshots_iff (by decide +kernel)).2 htail⟩

/-- **A page is not restored.** -/
theorem lowMemory_not_restored : ∃ vm w,
    FastReload.init (lowMemory fun i gfn => i == 2 && gfn == 0) (fun _ => false) = some vm ∧
    exec (Watched.step (lowMemory fun i gfn => i == 2 && gfn == 0)) ⟨vm, fun _ => false, none⟩
      [.guestWrite 2 0 true, .restore] = some w ∧
    (lowMemory fun i gfn => i == 2 && gfn == 0).Restores (0, 0xcb) ∧
    w.vm.shadow.host (0, 0xcb) = true ∧ w.taken (0, 0xcb) = false := by
  have hrun : ((init (lowMemory fun i gfn => i == 2 && gfn == 0) fun _ => false).bind
      fun vm => (exec (Watched.step (lowMemory fun i gfn => i == 2 && gfn == 0))
        ⟨vm, fun _ => false, none⟩ [.guestWrite 2 0 true, .restore]).map
          fun w => (w.vm.shadow.host (0, 0xcb), w.taken (0, 0xcb))) = some (true, false) := by
    decide +kernel
  obtain ⟨vm, hvm, hw⟩ := bind_eq_some_iff.1 hrun
  obtain ⟨w, hw, heq⟩ := map_eq_some_iff.1 hw
  obtain ⟨hhost, htaken⟩ := Prod.mk.inj heq
  exact ⟨vm, w, hvm, hw, by decide +kernel, hhost, htaken⟩

end FuzzSocketCan.Qemu
