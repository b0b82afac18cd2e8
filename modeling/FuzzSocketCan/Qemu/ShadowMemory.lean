import FuzzSocketCan.Lib.DirtyLog
import Mathlib.Data.Nat.Bitwise

/-! # The shadow memory

`shadow_memory.c` keeps two copies of the guest's memory: the root snapshot and the incremental
one. `root_track_pages_stack` lists the pages of the latter saved since it was equal to the root.
A page is a value of an arbitrary type.
-/

namespace FuzzSocketCan.Qemu

open Lib Function

/-! ## Guest memory -/

structure RamRegion where
  base : ℕ
  size : ℕ
  base_aligned : base % 0x1000 = 0
  size_aligned : size % 0x1000 = 0

theorem pages_aligned (n : ℕ) : n * 0x1000 % 0x1000 = 0 := Nat.mul_mod_left n 0x1000

theorem zero_aligned : 0 % 0x1000 = 0 := rfl

def RamRegion.ofPages (base size : ℕ) : RamRegion :=
  ⟨base * 0x1000, size * 0x1000, pages_aligned base, pages_aligned size⟩

/-- The RAM regions, counted in a `uint8_t`, and `mem_mapping_low` and `mem_mapping_high`, the
latter -/
structure RamLayout where
  regions : List RamRegion
  length_lt : regions.length < 0x100
  memMappingLow : ℕ
  memMappingHigh : ℕ
  low_aligned : memMappingLow % 0x1000 = 0
  high_aligned : memMappingHigh % 0x1000 = 0

theorem length_single_lt (size : ℕ) : [RamRegion.ofPages 0 size].length < 0x100 :=
  Nat.le_add_left 2 0xfe

def RamLayout.single (size : ℕ) : RamLayout where
  regions := [.ofPages 0 size]
  length_lt := length_single_lt size
  memMappingLow := size * 0x1000
  memMappingHigh := 0
  low_aligned := pages_aligned size
  high_aligned := zero_aligned

theorem RamLayout.single_length_le (size : ℕ) : (single size).regions.length ≤ 8 :=
  Nat.le_add_left 1 7

/-- `ram_regions[i].base` -/
def RamLayout.base (ram : RamLayout) (i : ℕ) : ℕ := (ram.regions[i]?.map RamRegion.base).getD 0

/-- `ram_regions[i].size` -/
def RamLayout.size (ram : RamLayout) (i : ℕ) : ℕ := (ram.regions[i]?.map RamRegion.size).getD 0

abbrev PageId := ℕ × ℕ

abbrev GuestMemory (α : Type) := PageId → α

def pageAt (region addr : ℕ) : PageId := (region, addr / 0x1000)

def RamLayout.physAddr (ram : RamLayout) (p : PageId) : ℕ := ram.base p.1 + p.2 * 0x1000

theorem RamLayout.base_mod (ram : RamLayout) (i : ℕ) : ram.base i % 0x1000 = 0 := by
  unfold base
  cases h : ram.regions[i]? with
  | none => rfl
  | some r => exact r.base_aligned

def fastInRange (address start stop : ℕ) : Bool := decide (address < stop) && decide (start ≤ address)

/-! ## The blocklist -/

structure Blocklist where
  physAreaSize : ℕ
  physBitmap : ℕ → Bool

/-- `snapshot_page_blocklist_check_phys_addr` -/
def Blocklist.checkPhysAddr (bl : Blocklist) (physAddr : ℕ) : Bool :=
  decide (physAddr < bl.physAreaSize) && bl.physBitmap (physAddr / 0x1000)

def Blocklist.Blocks (bl : Blocklist) (ram : RamLayout) (p : PageId) : Prop :=
  bl.checkPhysAddr (ram.physAddr p) = true

instance (bl : Blocklist) (ram : RamLayout) (p : PageId) : Decidable (bl.Blocks ram p) :=
  inferInstanceAs (Decidable (_ = _))

/-! ## The copies -/

structure ShadowMemory (α : Type) where
  /-- The guest's memory, `host_region_ptr`. -/
  host : GuestMemory α
  /-- The root snapshot, `snapshot_region_ptr`. -/
  snapshot : GuestMemory α
  /-- The incremental snapshot, `incremental_region_ptr`. -/
  incremental : GuestMemory α
  /-- `root_track_pages_stack` up to `root_track_pages_num` -/
  rootTrackPages : List ℕ
  incrementalEnabled : Bool
  /-- The static `count` of `shadow_memory_prepare_incremental`. -/
  count : ℕ

namespace ShadowMemory

variable {α : Type}

def init (mem : GuestMemory α) : ShadowMemory α := ⟨mem, mem, mem, [], false, 0⟩

def prepareIncremental (sh : ShadowMemory α) : ShadowMemory α :=
  if 2000 ≤ sh.count then { sh with incremental := sh.snapshot, count := 1 }
  else { sh with count := sh.count + 1 }

/-- `shadow_memory_switch_snapshot` -/
def switchSnapshot (sh : ShadowMemory α) (incremental : Bool) : ShadowMemory α :=
  { sh with incrementalEnabled := incremental }

def trackEntry (address slot : ℕ) : ℕ := address / 0x1000 * 0x1000 ||| slot

def trackedPage (entry : ℕ) : PageId := pageAt (entry % 0x1000 % 0x100) (entry / 0x1000 * 0x1000)

def trackedPages (sh : ShadowMemory α) : List PageId := sh.rootTrackPages.map trackedPage

def restoreRootPage (sh : ShadowMemory α) (p : PageId) : ShadowMemory α :=
  { sh with
    host := update sh.host p (sh.snapshot p)
    incremental := update sh.incremental p (sh.snapshot p) }

/-- `shadow_memory_restore_memory` -/
def restoreMemory (sh : ShadowMemory α) : ShadowMemory α :=
  { sh.trackedPages.foldl restoreRootPage sh with rootTrackPages := [] }

def active (sh : ShadowMemory α) : GuestMemory α :=
  if sh.incrementalEnabled then sh.incremental else sh.snapshot

def restorePage (sh : ShadowMemory α) (region addr : ℕ) : ShadowMemory α :=
  { sh with host := update sh.host (pageAt region addr) (sh.active (pageAt region addr)) }

def saveRootPage (sh : ShadowMemory α) (region addr : ℕ) : ShadowMemory α :=
  { sh with
    rootTrackPages := sh.rootTrackPages ++ [trackEntry addr region]
    incremental := update sh.incremental (pageAt region addr) (sh.host (pageAt region addr)) }

/-! ## What the loops do -/

theorem trackedPage_trackEntry {address slot : ℕ} (hslot : slot < 0x100) :
    trackedPage (trackEntry address slot) = pageAt slot address := by
  have hor : trackEntry address slot = 0x1000 * (address / 0x1000) + slot := by
    have := Nat.two_pow_add_eq_or_of_lt (i := 12) (b := slot) (by omega) (address / 0x1000)
    rw [trackEntry, mul_comm]
    exact this.symm
  refine Prod.ext ?_ ?_
  · show trackEntry address slot % 0x1000 % 0x100 = slot
    omega
  · show trackEntry address slot / 0x1000 * 0x1000 / 0x1000 = address / 0x1000
    omega

def pagesAt (places : List (ℕ × ℕ)) : List PageId := places.map fun v => pageAt v.1 v.2

theorem foldl_restorePage (sh : ShadowMemory α) (places : List (ℕ × ℕ)) :
    places.foldl (fun sh v => sh.restorePage v.1 v.2) sh = { sh with
      host := fun p => if p ∈ pagesAt places then sh.active p else sh.host p } := by
  have hfold : ∀ h, places.foldl (fun sh v => restorePage sh v.1 v.2) { sh with host := h } = { sh with
      host := (pagesAt places).foldl (fun m p => update m p (sh.active p)) h } := by
    induction places with
    | nil => exact fun h => rfl
    | cons v places ih => exact fun h => ih _
  rw [hfold sh.host, foldl_update_eq]

theorem foldl_saveRootPage (sh : ShadowMemory α) (places : List (ℕ × ℕ)) :
    places.foldl (fun sh v => sh.saveRootPage v.1 v.2) sh = { sh with
      incremental := fun p => if p ∈ pagesAt places then sh.host p else sh.incremental p
      rootTrackPages := sh.rootTrackPages ++ places.map fun v => trackEntry v.2 v.1 } := by
  have hfold : ∀ m t, places.foldl (fun sh v => saveRootPage sh v.1 v.2)
      { sh with incremental := m, rootTrackPages := t } = { sh with
        incremental := (pagesAt places).foldl (fun m p => update m p (sh.host p)) m
        rootTrackPages := t ++ places.map fun v => trackEntry v.2 v.1 } := by
    induction places with
    | nil => exact fun m t => by simp [pagesAt]
    | cons v places ih =>
      intro m t
      refine (ih _ _).trans ?_
      simp [pagesAt]
  rw [hfold sh.incremental sh.rootTrackPages, foldl_update_eq]

theorem restoreMemory_eq (sh : ShadowMemory α) : sh.restoreMemory = { sh with
    host := fun p => if p ∈ sh.trackedPages then sh.snapshot p else sh.host p
    incremental := fun p => if p ∈ sh.trackedPages then sh.snapshot p else sh.incremental p
    rootTrackPages := [] } := by
  have hfold : ∀ (ps : List PageId) h m,
      ps.foldl restoreRootPage { sh with host := h, incremental := m } =
      { sh with
        host := ps.foldl (fun m p => update m p (sh.snapshot p)) h
        incremental := ps.foldl (fun m p => update m p (sh.snapshot p)) m } := by
    intro ps
    induction ps with
    | nil => exact fun h m => rfl
    | cons p ps ih => exact fun h m => ih _ _
  rw [restoreMemory, hfold sh.trackedPages sh.host sh.incremental, foldl_update_eq, foldl_update_eq]

end ShadowMemory

end FuzzSocketCan.Qemu
