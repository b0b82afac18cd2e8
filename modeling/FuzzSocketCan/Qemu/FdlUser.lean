import FuzzSocketCan.Qemu.ShadowMemory
import Mathlib.Data.List.Enum

/-! # Pages written by QEMU

Device emulation writes the guest's memory from QEMU and notifies `nyx_fdl_user_set`, which
records the pages in one dirty log per RAM region, with bitmaps that are not cleared
(`FdlUser.init`).
-/

namespace FuzzSocketCan.Qemu

open Lib List

/-! ## Addresses -/

/-- `none` where its assertion fails. -/
def RamLayout.ramOffsetToAddress (ram : RamLayout) (offset : ℕ) : Option ℕ :=
  if ram.memMappingHigh = 0 then if offset ≤ ram.memMappingLow then some offset else none
  else if ram.memMappingLow ≤ offset then some (offset - ram.memMappingLow + ram.memMappingHigh)
  else some offset

def RamLayout.ramArea (ram : RamLayout) (addr : ℕ) : Option ℕ :=
  [7, 6, 5, 4, 3, 2, 1, 0].foldl (fun area i =>
    if i < ram.regions.length ∧ fastInRange addr (ram.base i) (ram.base i + (ram.size i - 1)) = true
    then some i else area) none

/-- The number of a page in its region. -/
def RamLayout.pfn (ram : RamLayout) (area addr : ℕ) : ℕ := (addr - ram.base area) / 0x1000

/-! ## The logs -/

structure FdlUser where
  entry : List (DirtyLog ℕ ℕ)
  enabled : Bool

namespace FdlUser

def init (ram : RamLayout) (bitmap : ℕ → ℕ → Bool) : FdlUser :=
  ⟨(List.range ram.regions.length).map fun i => ⟨bitmap i, []⟩, false⟩

/-- `nyx_fdl_user_enable` -/
def enable (fdl : FdlUser) : FdlUser := { fdl with enabled := true }

def currentAddr (addr k : ℕ) : ℕ := (addr + k * 0x1000) / 0x1000 * 0x1000

def setPages (ram : RamLayout) (area addr length : ℕ) (log : DirtyLog ℕ ℕ) : DirtyLog ℕ ℕ :=
  (List.range ((length + 0xfff) / 0x1000)).foldl
    (fun log k => log.record (ram.pfn area (currentAddr addr k)) (currentAddr addr k)) log

/-- `nyx_fdl_user_set`, `none` where it aborts. -/
def set (ram : RamLayout) (fdl : FdlUser) (addr length : ℕ) : Option FdlUser :=
  if fdl.enabled then
    (ram.ramOffsetToAddress addr).bind fun addr =>
      (ram.ramArea addr).map fun area =>
        { fdl with entry := fdl.entry.modify area (setPages ram area addr (max length 0x1000)) }
  else some fdl

section Sweep

variable {α : Type} (ram : RamLayout) (bl : Blocklist)
  (act : ShadowMemory α → ℕ → ℕ → ShadowMemory α)

def sweep : ℕ → List (DirtyLog ℕ ℕ) → ShadowMemory α → List (DirtyLog ℕ ℕ) × ShadowMemory α × ℕ
  | _, [], sh => ([], sh, 0)
  | i, log :: logs, sh =>
    let (log, sh, n) := log.drain bl.checkPhysAddr (ram.pfn i)
      (fun sh addr => act sh i (addr - ram.base i)) sh
    let (logs, sh, m) := sweep (i + 1) logs sh
    (log :: logs, sh, n + m)

def restore (fdl : FdlUser) (sh : ShadowMemory α) : FdlUser × ShadowMemory α × ℕ :=
  let (entry, sh, n) := sweep ram bl ShadowMemory.restorePage 0 fdl.entry sh
  ({ fdl with entry := entry }, sh, n)

/-- `nyx_snapshot_nyx_fdl_user_save_root_pages` -/
def saveRootPages (fdl : FdlUser) (sh : ShadowMemory α) : FdlUser × ShadowMemory α :=
  let (entry, sh, _) := sweep ram bl ShadowMemory.saveRootPage 0 fdl.entry sh
  ({ fdl with entry := entry }, sh)

def sweptFrom (i : ℕ) (logs : List (DirtyLog ℕ ℕ)) : List (DirtyLog ℕ ℕ) :=
  (logs.zipIdx i).map fun l => l.1.drained bl.checkPhysAddr (ram.pfn l.2)

def placesFrom (i : ℕ) (logs : List (DirtyLog ℕ ℕ)) : List (ℕ × ℕ) :=
  (logs.zipIdx i).flatMap fun l =>
    (l.1.kept bl.checkPhysAddr).map fun addr => (l.2, addr - ram.base l.2)

theorem sweep_eq (i : ℕ) (logs : List (DirtyLog ℕ ℕ)) (sh : ShadowMemory α) :
    sweep ram bl act i logs sh = (sweptFrom ram bl i logs,
      (placesFrom ram bl i logs).foldl (fun sh v => act sh v.1 v.2) sh,
      (placesFrom ram bl i logs).length) := by
  induction logs generalizing i sh with
  | nil => rfl
  | cons log logs ih =>
    simp only [sweep, DirtyLog.drain_eq, ih, sweptFrom, placesFrom, zipIdx_cons, map_cons,
      flatMap_cons, foldl_append, foldl_map, length_append, length_map]

variable {ram bl}

variable {logs : List (DirtyLog ℕ ℕ)}

theorem mem_pagesAt_placesFrom {p : PageId} :
    p ∈ ShadowMemory.pagesAt (placesFrom ram bl 0 logs) ↔
      ∃ log, logs[p.1]? = some log ∧ ∃ addr ∈ log.stack,
        bl.checkPhysAddr addr = false ∧ ram.pfn p.1 addr = p.2 := by
  simp only [ShadowMemory.pagesAt, placesFrom, mem_map, mem_flatMap, Prod.exists,
    mem_zipIdx_iff_getElem?, DirtyLog.mem_kept]
  constructor
  · rintro ⟨r, o, ⟨log, j, hlog, addr, ⟨haddr, hbl⟩, hro⟩, rfl⟩
    obtain ⟨rfl, rfl⟩ := Prod.mk.inj hro
    exact ⟨log, hlog, addr, haddr, hbl, rfl⟩
  · rintro ⟨log, hlog, addr, haddr, hbl, hp⟩
    exact ⟨p.1, addr - ram.base p.1, ⟨log, p.1, hlog, addr, ⟨haddr, hbl⟩, rfl⟩,
      Prod.ext rfl hp⟩

theorem getElem?_sweptFrom (logs : List (DirtyLog ℕ ℕ)) (i : ℕ) :
    (sweptFrom ram bl 0 logs)[i]? = logs[i]?.map fun log =>
      log.drained bl.checkPhysAddr (ram.pfn i) := by
  simp [sweptFrom, Function.comp_def]

theorem placesFrom_eq_nil (h : ∀ log ∈ logs, log.stack = []) (i : ℕ) :
    placesFrom ram bl i logs = [] := by
  refine flatMap_eq_nil_iff.2 fun l hl => ?_
  have hnil := h l.1 (fst_mem_of_mem_zipIdx hl)
  rw [DirtyLog.kept, hnil]
  rfl

theorem sweptFrom_eq_self (h : ∀ log ∈ logs, log.stack = []) (i : ℕ) :
    sweptFrom ram bl i logs = logs := by
  induction logs generalizing i with
  | nil => rfl
  | cons log logs ih =>
    rw [sweptFrom, zipIdx_cons, map_cons, ← sweptFrom,
      ih (fun l hl => h l (mem_cons_of_mem _ hl)),
      DirtyLog.drained_of_stack_eq_nil (h log mem_cons_self)]

end Sweep

end FdlUser

end FuzzSocketCan.Qemu
