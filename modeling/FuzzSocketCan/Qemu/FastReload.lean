import FuzzSocketCan.Lib.Execution
import FuzzSocketCan.Qemu.DirtyRing
import FuzzSocketCan.Qemu.FdlUser

/-! # Taking and restoring snapshots

The memory part of `fast_vm_reload.c` in the mode `RELOAD_MEMORY_MODE_DIRTY_RING`.
-/

namespace FuzzSocketCan.Qemu

open Lib List Option ShadowMemory

/-- RAM regions, memory slots, blocklist, and what the allocator returns, `heap i` for the bitmap of
slot `i`. -/
structure RingMachine where
  ram : RamLayout
  kvmSlots : List KvmSlot
  blocklist : Blocklist
  heap : ℕ → ℕ → Bool

structure Machine extends RingMachine where
  fdlBitmap : ℕ → ℕ → Bool
  fits : ram.regions.length ≤ 8

def RingMachine.pages (c : RingMachine) (i : ℕ) : ℕ :=
  ((usedSlots c.kvmSlots)[i]?.map KvmSlot.pages).getD 0

structure FastReload (α : Type) where
  shadow : ShadowMemory α
  ring : List KvmDirtyGfn
  slots : List Slot
  fdlUser : FdlUser
  blocklist : Blocklist
  incrementalSnapshotEnabled : Bool
  numDirtyPages : ℕ

namespace FastReload

variable {α : Type}

def started (c : Machine) (mem : GuestMemory α) (slots : List Slot) : FastReload α :=
  ⟨.init mem, [], slots, (FdlUser.init c.ram c.fdlBitmap).enable, c.blocklist, false, 0⟩

/-- `fast_snapshot_init_operation` -/
def init (c : Machine) (mem : GuestMemory α) : Option (FastReload α) :=
  (nyxDirtyRingInit c.ram c.kvmSlots c.heap).map (started c mem)

/-- `fast_snapshot_restore_operation` -/
def restoreOperation (ram : RamLayout) (s : FastReload α) : Option (FastReload α) :=
  (dirtyRingFlushAndCollect s.slots s.ring).map fun slots =>
    let (slots, sh, n) := dirtyRingRestoreMemory ram s.blocklist slots s.shadow
    let (fdlUser, sh, m) := s.fdlUser.restore ram s.blocklist sh
    { s with shadow := sh, ring := [], slots := slots, fdlUser := fdlUser, numDirtyPages := n + m }

/-- `fast_reload_create_tmp_snapshot` -/
def createTmpSnapshot (ram : RamLayout) (s : FastReload α) : Option (FastReload α) :=
  (dirtyRingFlushAndCollect s.slots s.ring).map fun slots =>
    let (slots, sh) := dirtyRingSaveRootPages ram s.blocklist slots s.shadow.prepareIncremental
    let (fdlUser, sh) := s.fdlUser.saveRootPages ram s.blocklist sh
    { s with
      shadow := sh.switchSnapshot true, ring := [], slots := slots, fdlUser := fdlUser,
      incrementalSnapshotEnabled := true }

def discardTmpSnapshot (ram : RamLayout) (s : FastReload α) : Option (FastReload α) :=
  if s.incrementalSnapshotEnabled then
    (s.restoreOperation ram).map fun s =>
      { s with
        shadow := s.shadow.restoreMemory.switchSnapshot false, incrementalSnapshotEnabled := false }
  else none

/-- `fast_reload_handle_dirty_ring_full` -/
def handleDirtyRingFull (s : FastReload α) : Option (FastReload α) :=
  (dirtyRingFlushAndCollect s.slots s.ring).map fun slots => { s with ring := [], slots := slots }

def guestWrite (c : Machine) (s : FastReload α) (i gfn : ℕ) (data : α) : Option (FastReload α) :=
  match s.slots[i]? with
  | none => none
  | some slot =>
    if slot.enabled = true ∧ gfn < c.pages i then
      some { s with
        shadow := { s.shadow with host := Function.update s.shadow.host (slot.page gfn) data }
        ring := s.ring ++ [⟨i, gfn⟩] }
    else none

theorem guestWrite_eq_some {c : Machine} {s s' : FastReload α} {i gfn : ℕ} {data : α} :
    s.guestWrite c i gfn data = some s' ↔ ∃ slot, s.slots[i]? = some slot ∧ slot.enabled = true ∧
      gfn < c.pages i ∧ { s with
        shadow := { s.shadow with host := Function.update s.shadow.host (slot.page gfn) data }
        ring := s.ring ++ [⟨i, gfn⟩] } = s' := by
  unfold guestWrite
  cases s.slots[i]? with
  | none => simp
  | some slot => simp [and_assoc]

end FastReload

inductive SnapshotOp (α : Type)
  | guestWrite (slot gfn : ℕ) (data : α)
  | dirtyRingFull
  | restore
  | createTmp
  | discardTmp

def FastReload.step {α : Type} (c : Machine) (s : FastReload α) : SnapshotOp α → Option (FastReload α)
  | .guestWrite slot gfn data => s.guestWrite c slot gfn data
  | .dirtyRingFull => s.handleDirtyRingFull
  | .restore => s.restoreOperation c.ram
  | .createTmp => if s.incrementalSnapshotEnabled then none else s.createTmpSnapshot c.ram
  | .discardTmp => s.discardTmpSnapshot c.ram

/-! ## Collecting -/

def offsetsOf (i : ℕ) (ring : List KvmDirtyGfn) : List ℕ :=
  (ring.filter fun e => e.slot = i).map KvmDirtyGfn.offset

def Slot.collectAll (slot : Slot) (gfns : List ℕ) : Slot :=
  { slot with log := slot.log.recordAll id gfns }

theorem dirtyRingFlushAndCollect_eq {ring : List KvmDirtyGfn} {slots : List Slot}
    (hcount : slots.length < 0x100) (hring : ∀ e ∈ ring, e.slot < slots.length) :
    dirtyRingFlushAndCollect slots ring =
      some (slots.mapIdx fun i slot => slot.collectAll (offsetsOf i ring)) := by
  induction ring generalizing slots with
  | nil =>
    show some slots = _
    rw [some_inj]
    refine ext_getElem? fun i => ?_
    rw [getElem?_mapIdx]
    exact (map_id' (x := slots[i]?)).symm
  | cons e ring ih =>
    have hslot := hring e mem_cons_self
    have hcollect : dirtyRingCollect slots e = some (slots.modify e.slot (·.collect e.offset)) := by
      have hlow : e.slot % 0x10000 = e.slot := Nat.mod_eq_of_lt (by omega)
      rw [dirtyRingCollect, hlow, if_pos ⟨by omega, hslot⟩]
    have hlength : (slots.modify e.slot (·.collect e.offset)).length = slots.length :=
      length_modify _ _ _
    rw [dirtyRingFlushAndCollect, foldlM_cons, hcollect]
    refine (ih (by omega) fun e' he' => ?_).trans ?_
    · rw [hlength]
      exact hring e' (mem_cons_of_mem _ he')
    · rw [some_inj]
      refine ext_getElem? fun i => ?_
      rw [getElem?_mapIdx, getElem?_mapIdx, getElem?_modify]
      -- the slot of the entry has one page more to log, the others are as before
      by_cases hi : e.slot = i
      · subst hi
        cases slots[e.slot]? with
        | none => rfl
        | some slot => simp [offsetsOf, Slot.collectAll, Slot.collect, DirtyLog.recordAll]
      · simp [hi, offsetsOf]

/-! ## Restoring and saving -/

namespace FastReload

variable {α : Type} {s : FastReload α} {slots : List Slot}

def dirtyPlaces (ram : RamLayout) (s : FastReload α) (slots : List Slot) : List (ℕ × ℕ) :=
  slots.flatMap (Slot.places ram s.blocklist) ++ FdlUser.placesFrom ram s.blocklist 0 s.fdlUser.entry

theorem restoreOperation_eq {ram : RamLayout}
    (hflush : dirtyRingFlushAndCollect s.slots s.ring = some slots) :
    s.restoreOperation ram = some { s with
      shadow := { s.shadow with
        host := fun p => if p ∈ ShadowMemory.pagesAt (s.dirtyPlaces ram slots) then s.shadow.active p
          else s.shadow.host p }
      ring := []
      slots := slots.map (Slot.swept ram s.blocklist)
      fdlUser := { s.fdlUser with entry := FdlUser.sweptFrom ram s.blocklist 0 s.fdlUser.entry }
      numDirtyPages := (s.dirtyPlaces ram slots).length } := by
  rw [restoreOperation, hflush]
  simp only [map_some, dirtyRingRestoreMemory, sweepSlots_eq, FdlUser.restore, FdlUser.sweep_eq,
    ← foldl_append, ← length_append]
  rw [foldl_restorePage]
  rfl

theorem createTmpSnapshot_eq {ram : RamLayout}
    (hflush : dirtyRingFlushAndCollect s.slots s.ring = some slots) :
    s.createTmpSnapshot ram = some { s with
      shadow := { s.shadow.prepareIncremental with
        incremental := fun p => if p ∈ ShadowMemory.pagesAt (s.dirtyPlaces ram slots)
          then s.shadow.host p else s.shadow.prepareIncremental.incremental p
        rootTrackPages := s.shadow.rootTrackPages ++
          (s.dirtyPlaces ram slots).map fun v => ShadowMemory.trackEntry v.2 v.1
        incrementalEnabled := true }
      ring := []
      slots := slots.map (Slot.swept ram s.blocklist)
      fdlUser := { s.fdlUser with entry := FdlUser.sweptFrom ram s.blocklist 0 s.fdlUser.entry }
      incrementalSnapshotEnabled := true } := by
  have hhost : s.shadow.prepareIncremental.host = s.shadow.host := by
    unfold prepareIncremental
    split <;> rfl
  have htrack : s.shadow.prepareIncremental.rootTrackPages = s.shadow.rootTrackPages := by
    unfold prepareIncremental
    split <;> rfl
  rw [createTmpSnapshot, hflush]
  simp only [map_some, dirtyRingSaveRootPages, sweepSlots_eq, FdlUser.saveRootPages,
    FdlUser.sweep_eq, ← foldl_append]
  rw [foldl_saveRootPage, hhost, htrack]
  rfl

end FastReload

end FuzzSocketCan.Qemu
