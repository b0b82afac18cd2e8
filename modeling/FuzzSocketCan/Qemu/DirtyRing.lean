import FuzzSocketCan.Qemu.ShadowMemory

/-! # The dirty ring backend

`nyx_dirty_ring.c` collects KVM's ring of written pages into one dirty log per memory slot, and
restores or saves the logged pages.

* **`initSlot`** — the bitmap of a slot is rounded down to whole bytes: the bits of the last pages
  can lie behind it, with whatever the heap holds there. -/

namespace FuzzSocketCan.Qemu

open Lib List

/-! ## Slots -/

structure KvmSlot where
  startAddr : ℕ
  memorySize : ℕ
  readonly : Bool
  start_aligned : startAddr % 0x1000 = 0
  size_aligned : memorySize % 0x1000 = 0

def KvmSlot.ofPages (start size : ℕ) (readonly : Bool) : KvmSlot :=
  ⟨start * 0x1000, size * 0x1000, readonly, pages_aligned start, pages_aligned size⟩

def KvmSlot.pages (mem : KvmSlot) : ℕ := mem.memorySize / 0x1000

def bitmapSize (size : ℕ) : ℕ := size / 0x1000 / 8

structure Slot where
  enabled : Bool
  regionId : ℕ
  regionOffset : ℕ
  log : DirtyLog ℕ ℕ
  /-- `region_id` is a `uint8_t`. -/
  region_lt : regionId < 0x100
  offset_aligned : regionOffset % 0x1000 = 0

def RamLayout.findRegion (ram : RamLayout) (addr : ℕ) : Option ℕ :=
  (List.range ram.regions.length).find? fun j =>
    fastInRange addr (ram.base j) (ram.base j + ram.size j)

theorem RamLayout.findRegion_eq_some {ram : RamLayout} {addr j : ℕ} (h : ram.findRegion addr = some j) :
    j < 0x100 ∧ ram.base j ≤ addr := by
  have hj := mem_range.1 (mem_of_find?_eq_some h)
  have hrange := find?_some h
  have hlt := ram.length_lt
  simp only [fastInRange, Bool.and_eq_true, decide_eq_true_eq] at hrange
  omega

/-- `heap` is what the bits held, of which `memset` clears those of the `BITMAP_SIZE` bytes. The
bits behind are taken to be used by nobody else. -/
def initSlot (ram : RamLayout) (mem : KvmSlot) (heap : ℕ → Bool) : Option Slot :=
  let bitmap := fun gfn => decide (8 * bitmapSize mem.memorySize ≤ gfn) && heap gfn
  if mem.readonly then some ⟨false, 0, 0, ⟨bitmap, []⟩, by decide, rfl⟩
  else
    match h : ram.findRegion mem.startAddr with
    | none => none
    | some j =>
      if fastInRange (mem.startAddr + mem.memorySize - 1) (ram.base j) (ram.base j + ram.size j) then
        some ⟨true, j, mem.startAddr - ram.base j, ⟨bitmap, []⟩, (ram.findRegion_eq_some h).1, by
          have hbase := (ram.findRegion_eq_some h).2
          have hstart := mem.start_aligned
          have haligned := ram.base_mod j
          omega⟩
      else none

def usedSlots (kvmSlots : List KvmSlot) : List KvmSlot :=
  kvmSlots.takeWhile fun mem => !(mem.startAddr == 0 && mem.memorySize == 0)

/-- The loop of `nyx_dirty_ring_init`. -/
def initSlots (ram : RamLayout) (heap : ℕ → ℕ → Bool) : ℕ → List KvmSlot → Option (List Slot)
  | _, [] => some []
  | i, mem :: mems =>
    (initSlot ram mem (heap i)).bind fun slot =>
      (initSlots ram heap (i + 1) mems).map fun slots => slot :: slots

/-- The slots are counted in a `uint8_t`. -/
def nyxDirtyRingInit (ram : RamLayout) (kvmSlots : List KvmSlot) (heap : ℕ → ℕ → Bool) :
    Option (List Slot) :=
  if (usedSlots kvmSlots).length < 0x100 then initSlots ram heap 0 (usedSlots kvmSlots) else none

namespace Slot

def entryOffsetAddr (slot : Slot) (gfn : ℕ) : ℕ := slot.regionOffset + gfn * 0x1000

def physicalAddr (ram : RamLayout) (slot : Slot) (gfn : ℕ) : ℕ :=
  ram.base slot.regionId + slot.entryOffsetAddr gfn

def page (slot : Slot) (gfn : ℕ) : PageId := pageAt slot.regionId (slot.entryOffsetAddr gfn)

/-- Whether a page is passed over. -/
def skips (ram : RamLayout) (bl : Blocklist) (slot : Slot) (gfn : ℕ) : Bool :=
  bl.checkPhysAddr (slot.physicalAddr ram gfn)

theorem physAddr_page (ram : RamLayout) (slot : Slot) (gfn : ℕ) :
    ram.physAddr (slot.page gfn) = slot.physicalAddr ram gfn := by
  have := slot.offset_aligned
  simp only [RamLayout.physAddr, page, pageAt, physicalAddr, entryOffsetAddr]
  omega

theorem skips_iff {ram : RamLayout} {bl : Blocklist} {slot : Slot} {gfn : ℕ} :
    slot.skips ram bl gfn = true ↔ bl.Blocks ram (slot.page gfn) := by
  rw [skips, Blocklist.Blocks, physAddr_page]

theorem skips_eq_false_iff {ram : RamLayout} {bl : Blocklist} {slot : Slot} {gfn : ℕ} :
    slot.skips ram bl gfn = false ↔ ¬ bl.Blocks ram (slot.page gfn) := by
  rw [← skips_iff, Bool.not_eq_true]

end Slot

/-! ## Collecting the ring -/

structure KvmDirtyGfn where
  slot : ℕ
  offset : ℕ
  deriving DecidableEq, Repr

def Slot.collect (slot : Slot) (gfn : ℕ) : Slot := { slot with log := slot.log.record gfn gfn }

/-- The upper half of the slot number must be 0. -/
def dirtyRingCollect (slots : List Slot) (entry : KvmDirtyGfn) : Option (List Slot) :=
  if entry.slot / 0x10000 = 0 ∧ entry.slot % 0x10000 < slots.length then
    some (slots.modify (entry.slot % 0x10000) (·.collect entry.offset))
  else none

/-- All published entries in ring order. -/
def dirtyRingFlushAndCollect (slots : List Slot) (ring : List KvmDirtyGfn) : Option (List Slot) :=
  ring.foldlM dirtyRingCollect slots

/-! ## Restoring and saving -/

section Sweep

variable {α : Type} (ram : RamLayout) (bl : Blocklist)
  (act : ShadowMemory α → ℕ → ℕ → ShadowMemory α)

def Slot.sweep (slot : Slot) (sh : ShadowMemory α) : Slot × ShadowMemory α × ℕ :=
  if slot.enabled && !slot.log.stack.isEmpty then
    let (log, sh, n) := slot.log.drain (slot.skips ram bl) id
      (fun sh gfn => act sh slot.regionId (slot.entryOffsetAddr gfn)) sh
    ({ slot with log := log }, sh, n)
  else (slot, sh, 0)

def sweepSlots : List Slot → ShadowMemory α → List Slot × ShadowMemory α × ℕ
  | [], sh => ([], sh, 0)
  | slot :: slots, sh =>
    let (slot, sh, n) := slot.sweep ram bl act sh
    let (slots, sh, m) := sweepSlots slots sh
    (slot :: slots, sh, n + m)

def dirtyRingRestoreMemory (slots : List Slot) (sh : ShadowMemory α) :
    List Slot × ShadowMemory α × ℕ :=
  sweepSlots ram bl ShadowMemory.restorePage slots sh

/-- `save_root_pages` of the dirty ring. -/
def dirtyRingSaveRootPages (slots : List Slot) (sh : ShadowMemory α) : List Slot × ShadowMemory α :=
  let (slots, sh, _) := sweepSlots ram bl ShadowMemory.saveRootPage slots sh
  (slots, sh)

def Slot.swept (slot : Slot) : Slot :=
  if slot.enabled then { slot with log := slot.log.drained (slot.skips ram bl) id } else slot

def Slot.places (slot : Slot) : List (ℕ × ℕ) :=
  if slot.enabled then
    (slot.log.kept (slot.skips ram bl)).map fun gfn => (slot.regionId, slot.entryOffsetAddr gfn)
  else []

theorem Slot.sweep_eq (slot : Slot) (sh : ShadowMemory α) : slot.sweep ram bl act sh =
    (slot.swept ram bl, (slot.places ram bl).foldl (fun sh v => act sh v.1 v.2) sh,
      (slot.places ram bl).length) := by
  unfold sweep
  by_cases henabled : slot.enabled = true
  · have hswept : slot.swept ram bl = { slot with log := slot.log.drained (slot.skips ram bl) id } :=
      if_pos henabled
    have hplaces : slot.places ram bl =
        (slot.log.kept (slot.skips ram bl)).map fun gfn => (slot.regionId, slot.entryOffsetAddr gfn) :=
      if_pos henabled
    rw [hswept, hplaces, foldl_map, length_map]
    by_cases hnil : slot.log.stack = []
    · have hkept : slot.log.kept (slot.skips ram bl) = [] := by simp [DirtyLog.kept, hnil]
      rw [if_neg (by simp [hnil]), DirtyLog.drained_of_stack_eq_nil hnil, hkept]
      rfl
    · rw [if_pos (by simp [henabled, hnil]), DirtyLog.drain_eq]
  · rw [if_neg (by simp [henabled]), swept, places, if_neg henabled, if_neg henabled]
    rfl

theorem sweepSlots_eq (slots : List Slot) (sh : ShadowMemory α) : sweepSlots ram bl act slots sh =
    (slots.map (Slot.swept ram bl),
      (slots.flatMap (Slot.places ram bl)).foldl (fun sh v => act sh v.1 v.2) sh,
      (slots.flatMap (Slot.places ram bl)).length) := by
  induction slots generalizing sh with
  | nil => rfl
  | cons slot slots ih =>
    simp [sweepSlots, Slot.sweep_eq, ih]

theorem mem_pagesAt_places {slots : List Slot} {p : PageId} :
    p ∈ ShadowMemory.pagesAt (slots.flatMap (Slot.places ram bl)) ↔
      ∃ slot ∈ slots, slot.enabled = true ∧ ∃ gfn ∈ slot.log.stack,
        ¬ bl.Blocks ram (slot.page gfn) ∧ slot.page gfn = p := by
  have hplaces : ∀ slot : Slot, (∃ v ∈ slot.places ram bl, pageAt v.1 v.2 = p) ↔
      slot.enabled = true ∧ ∃ gfn ∈ slot.log.stack,
        ¬ bl.Blocks ram (slot.page gfn) ∧ slot.page gfn = p := by
    intro slot
    unfold Slot.places
    cases henabled : slot.enabled with
    | false => simp
    | true => simp [Slot.skips_eq_false_iff, Slot.page, and_assoc]
  simp only [ShadowMemory.pagesAt, mem_map, mem_flatMap, ← hplaces]
  constructor
  · rintro ⟨v, ⟨slot, hslot, hv⟩, hp⟩
    exact ⟨slot, hslot, v, hv, hp⟩
  · rintro ⟨slot, hslot, v, hv, hp⟩
    exact ⟨v, ⟨slot, hslot, hv⟩, hp⟩

theorem region_lt_of_mem_places {slots : List Slot} {v : ℕ × ℕ}
    (hv : v ∈ slots.flatMap (Slot.places ram bl)) : v.1 < 0x100 := by
  obtain ⟨slot, -, hv⟩ := mem_flatMap.1 hv
  unfold Slot.places at hv
  split at hv
  · obtain ⟨gfn, -, rfl⟩ := mem_map.1 hv
    exact slot.region_lt
  · cases hv

end Sweep

end FuzzSocketCan.Qemu
