import FuzzSocketCan.Qemu.SlotLogs
import Mathlib.Data.List.Perm.Subperm

/-! # The dirty ring against the full comparison

`nyx_debug.c` restores and saves the memory by comparing every page with the active snapshot, the
dirty ring looks at the reported pages only. If every page that differs was reported, both leave
the same memory, as long as the bits that `nyx_dirty_ring_init` does not clear are not set.

* **`RingState.Inv.step`** — what every operation keeps.
* **`agreesWithCompare_iff`** — when both agree in every run. -/

namespace FuzzSocketCan.Qemu

open Lib List Option Function ShadowMemory RamLayout

variable {α : Type}

/-! ## The full comparison -/

def RamLayout.places (ram : RamLayout) : List (ℕ × ℕ) :=
  (List.range ram.regions.length).flatMap fun i =>
    (List.range (ram.size i / 0x1000)).map fun k => (i, k * 0x1000)

def RamLayout.Has (ram : RamLayout) (p : PageId) : Prop :=
  p.1 < ram.regions.length ∧ p.2 < ram.size p.1 / 0x1000

instance (ram : RamLayout) (p : PageId) : Decidable (ram.Has p) :=
  inferInstanceAs (Decidable (_ ∧ _))

section Compare

variable [DecidableEq α] (ram : RamLayout) (bl : Blocklist)

def differs (sh : ShadowMemory α) (i addr : ℕ) : Bool :=
  sh.host (pageAt i addr) ≠ sh.active (pageAt i addr) && !bl.checkPhysAddr (addr + ram.base i)

/-- The memory and the number of restored pages. -/
def nyxSnapshotDebugRestore (sh : ShadowMemory α) : ShadowMemory α × ℕ :=
  (List.range ram.regions.length).foldl
    (fun acc i =>
      (List.range (ram.size i / 0x1000)).foldl
        (fun (sh, numDirtyPages) k =>
          if differs ram bl sh i (k * 0x1000) then
            (sh.restorePage i (k * 0x1000), numDirtyPages + 1)
          else (sh, numDirtyPages))
        acc)
    (sh, 0)

def nyxSnapshotDebugSaveRootPages (sh : ShadowMemory α) : ShadowMemory α :=
  (List.range ram.regions.length).foldl
    (fun sh i =>
      (List.range (ram.size i / 0x1000)).foldl
        (fun sh k =>
          if differs ram bl sh i (k * 0x1000) then sh.saveRootPage i (k * 0x1000) else sh)
        sh)
    sh

end Compare

/-! ## The dirty ring -/

def nyxSnapshotNyxDirtyRingRestore (c : RingMachine) (slots : List Slot) (ring : List KvmDirtyGfn)
    (sh : ShadowMemory α) : Option (List Slot × ShadowMemory α × ℕ) :=
  (dirtyRingFlushAndCollect slots ring).map fun slots =>
    dirtyRingRestoreMemory c.ram c.blocklist slots sh

def nyxSnapshotNyxDirtyRingSaveRootPages (c : RingMachine) (slots : List Slot)
    (ring : List KvmDirtyGfn) (sh : ShadowMemory α) : Option (List Slot × ShadowMemory α) :=
  (dirtyRingFlushAndCollect slots ring).map fun slots =>
    dirtyRingSaveRootPages c.ram c.blocklist slots sh

structure RingState (α : Type) where
  shadow : ShadowMemory α
  slots : List Slot
  ring : List KvmDirtyGfn
  reported : List KvmDirtyGfn

inductive RingOp (α : Type) where
  /-- The guest runs: its memory changes, and KVM publishes entries. -/
  | guest (mem : GuestMemory α) (entries : List KvmDirtyGfn)
  /-- `nyx_snapshot_nyx_dirty_ring_flush_and_collect` -/
  | flushAndCollect
  | restore
  | saveRootPages
  /-- `shadow_memory_switch_snapshot` -/
  | switchSnapshot (incremental : Bool)

namespace RingState

def step (c : RingMachine) (s : RingState α) : RingOp α → Option (RingState α)
  | .guest mem entries =>
    some { s with
      shadow := { s.shadow with host := mem }
      ring := s.ring ++ entries
      reported := s.reported ++ entries }
  | .flushAndCollect =>
    (dirtyRingFlushAndCollect s.slots s.ring).map fun slots =>
      { s with slots := slots, ring := [] }
  | .restore =>
    (nyxSnapshotNyxDirtyRingRestore c s.slots s.ring s.shadow).map fun (slots, sh, _) =>
      ⟨sh, slots, [], []⟩
  | .saveRootPages =>
    (nyxSnapshotNyxDirtyRingSaveRootPages c s.slots s.ring s.shadow).map fun (slots, sh) =>
      ⟨sh, slots, [], []⟩
  | .switchSnapshot incremental => some { s with shadow := s.shadow.switchSnapshot incremental }

/-- Every page that differs from the active snapshot, and is not blocklisted, was reported on an
enabled slot. -/
def DirtyReported (c : RingMachine) (s : RingState α) : Prop :=
  ∀ p, c.ram.Has p → c.Restores p → s.shadow.host p ≠ s.shadow.active p →
    ∃ e ∈ s.reported, ∃ slot, s.slots[e.slot]? = some slot ∧ slot.enabled = true ∧
      slot.page e.offset = p

def Meets (c : RingMachine) (s : RingState α) : RingOp α → Prop
  | .guest _ entries => ∀ e ∈ entries, e.slot < s.slots.length ∧ e.offset < c.pages e.slot
  | .restore | .saveRootPages => s.DirtyReported c
  | .flushAndCollect | .switchSnapshot _ => True

/-- **A page is on the stack of its slot once at most.** -/
def StacksFit (c : RingMachine) (s : RingState α) : Prop :=
  ∀ i slot, s.slots[i]? = some slot →
    slot.log.stack.Nodup ∧ slot.log.stack.length ≤ c.pages i

/-- **The dirty ring does what the full comparison does.** -/
def Agrees [DecidableEq α] (c : RingMachine) (s : RingState α) : RingOp α → Prop
  | .restore => ∃ s', s.step c .restore = some s' ∧
      s'.shadow.host = (nyxSnapshotDebugRestore c.ram c.blocklist s.shadow).1.host
  | .saveRootPages =>
    s.shadow.incrementalEnabled = false → s.shadow.incremental = s.shadow.snapshot →
      ∃ s', s.step c .saveRootPages = some s' ∧
        s'.shadow.incremental =
          (nyxSnapshotDebugSaveRootPages c.ram c.blocklist s.shadow).incremental ∧
        ∀ p ∈ (nyxSnapshotDebugSaveRootPages c.ram c.blocklist s.shadow).trackedPages,
          p ∈ s'.shadow.trackedPages
  | .guest _ _ | .flushAndCollect | .switchSnapshot _ => True

end RingState

/-- In every run in which all that differs is reported, the stacks fit, and every restore and every
save agrees with the full comparison. -/
def RingMachine.AgreesWithCompare (c : RingMachine) (α : Type) [DecidableEq α] : Prop :=
  ∀ (sh : ShadowMemory α) (slots : List Slot),
    nyxDirtyRingInit c.ram c.kvmSlots c.heap = some slots →
      ∀ ops : List (RingOp α),
        EachStep (RingState.step c) (RingState.Meets c) ⟨sh, slots, [], []⟩ ops →
          Throughout (RingState.step c) (RingState.StacksFit c) ⟨sh, slots, [], []⟩ ops ∧
            EachStep (RingState.step c) (RingState.Agrees c) ⟨sh, slots, [], []⟩ ops

/-! ## What the comparison does -/

section Compare

variable {ram : RamLayout} {bl : Blocklist} {sh : ShadowMemory α} {places : List (ℕ × ℕ)}

theorem RamLayout.foldl_places {β : Type} (ram : RamLayout) (f : β → ℕ → ℕ → β) (b : β) :
    (List.range ram.regions.length).foldl
        (fun b i => (List.range (ram.size i / 0x1000)).foldl (fun b k => f b i (k * 0x1000)) b) b =
      ram.places.foldl (fun b v => f b v.1 v.2) b := by
  rw [places, foldl_flatMap]
  simp only [foldl_map]

theorem RamLayout.mem_places {v : ℕ × ℕ} :
    v ∈ ram.places ↔ ram.Has (pageAt v.1 v.2) ∧ v.2 % 0x1000 = 0 := by
  rcases v with ⟨i, addr⟩
  simp only [places, Has, pageAt, List.mem_flatMap, List.mem_map, List.mem_range, Prod.mk.injEq]
  constructor
  · rintro ⟨j, hj, k, hk, rfl, rfl⟩
    exact ⟨⟨hj, by omega⟩, by omega⟩
  · rintro ⟨⟨hi, hk⟩, haligned⟩
    exact ⟨i, hi, addr / 0x1000, hk, rfl, by omega⟩

theorem RamLayout.mem_pagesAt {p : PageId} : p ∈ ShadowMemory.pagesAt ram.places ↔ ram.Has p := by
  rw [ShadowMemory.pagesAt, List.mem_map]
  constructor
  · rintro ⟨v, hv, rfl⟩
    exact (mem_places.1 hv).1
  · intro hp
    have hpage : pageAt p.1 (p.2 * 0x1000) = p :=
      Prod.ext rfl (Nat.mul_div_cancel _ (by decide))
    refine ⟨(p.1, p.2 * 0x1000), mem_places.2 ⟨?_, Nat.mul_mod_left _ _⟩, hpage⟩
    rw [hpage]
    exact hp

variable [DecidableEq α]

theorem differs_iff {i addr : ℕ} (haligned : addr % 0x1000 = 0) :
    differs ram bl sh i addr = true ↔
      sh.host (pageAt i addr) ≠ sh.active (pageAt i addr) ∧ ¬ bl.Blocks ram (pageAt i addr) := by
  have haddr : addr + ram.base i = ram.physAddr (pageAt i addr) := by
    simp only [physAddr, pageAt]
    omega
  rw [differs, haddr, Bool.and_eq_true, decide_eq_true_iff, Bool.not_eq_true', Blocklist.Blocks,
    Bool.not_eq_true]

theorem foldl_restore_differs (ram : RamLayout) (bl : Blocklist) (sh : ShadowMemory α)
    (hplaces : ∀ v ∈ places, v.2 % 0x1000 = 0) (h : GuestMemory α) (n : ℕ) :
    (places.foldl
        (fun (acc : ShadowMemory α × ℕ) v =>
          if differs ram bl acc.1 v.1 v.2 then (acc.1.restorePage v.1 v.2, acc.2 + 1) else acc)
        ({ sh with host := h }, n)).1 =
      { sh with
        host := fun p =>
          if p ∈ ShadowMemory.pagesAt places ∧ ¬ bl.Blocks ram p then sh.active p else h p } := by
  induction places generalizing h n with
  | nil => simp [pagesAt]
  | cons v places ih =>
    rw [forall_mem_cons] at hplaces
    have hdiffers : differs ram bl { sh with host := h } v.1 v.2 = true ↔
        h (pageAt v.1 v.2) ≠ sh.active (pageAt v.1 v.2) ∧ ¬ bl.Blocks ram (pageAt v.1 v.2) :=
      differs_iff hplaces.1
    have hmem : ∀ p, p ∈ pagesAt (v :: places) ↔
        p = pageAt v.1 v.2 ∨ p ∈ pagesAt places := fun p => mem_cons
    rw [foldl_cons]
    by_cases hd : differs ram bl { sh with host := h } v.1 v.2 = true
    · rw [if_pos hd]
      refine (ih hplaces.2 _ _).trans ?_
      congr 1
      funext p
      rcases eq_or_ne p (pageAt v.1 v.2) with rfl | hne
      · rw [if_pos (c := _ ∈ pagesAt (v :: places) ∧ _)
          ⟨(hmem _).2 (Or.inl rfl), (hdiffers.1 hd).2⟩, update_self]
        exact ite_self _
      · rw [update_of_ne hne]
        simp [hmem, hne]
    · rw [if_neg hd]
      refine (ih hplaces.2 _ _).trans ?_
      congr 1
      funext p
      rcases eq_or_ne p (pageAt v.1 v.2) with rfl | hne
      · -- it is the same, or it is blocklisted
        by_cases hblocks : bl.Blocks ram (pageAt v.1 v.2)
        · rw [if_neg fun hand => hand.2 hblocks, if_neg fun hand => hand.2 hblocks]
        · have hsame : h (pageAt v.1 v.2) = sh.active (pageAt v.1 v.2) := by
            by_contra hne
            exact hd (hdiffers.2 ⟨hne, hblocks⟩)
          rw [hsame, ite_self, ite_self]
      · simp [hmem, hne]

theorem nyxSnapshotDebugRestore_eq :
    (nyxSnapshotDebugRestore ram bl sh).1 =
      { sh with
        host := fun p => if ram.Has p ∧ ¬ bl.Blocks ram p then sh.active p else sh.host p } := by
  have haligned : ∀ v ∈ ram.places, v.2 % 0x1000 = 0 := fun v hv => (mem_places.1 hv).2
  have hfold := foldl_restore_differs ram bl sh haligned sh.host 0
  simp only [mem_pagesAt] at hfold
  rw [← hfold, ← ram.foldl_places fun (acc : ShadowMemory α × ℕ) i addr =>
    if differs ram bl acc.1 i addr then (acc.1.restorePage i addr, acc.2 + 1) else acc]
  rfl

theorem foldl_save_differs (hdisabled : sh.incrementalEnabled = false) :
    places.foldl
        (fun sh v => if differs ram bl sh v.1 v.2 then sh.saveRootPage v.1 v.2 else sh) sh =
      (places.filter fun v => differs ram bl sh v.1 v.2).foldl
        (fun sh v => sh.saveRootPage v.1 v.2) sh := by
  induction places generalizing sh with
  | nil => rfl
  | cons v places ih =>
    rw [foldl_cons]
    by_cases hd : differs ram bl sh v.1 v.2 = true
    · have hsame : ∀ w : ℕ × ℕ, differs ram bl (sh.saveRootPage v.1 v.2) w.1 w.2 =
          differs ram bl sh w.1 w.2 := by
        intro w
        simp only [differs, active, saveRootPage, hdisabled]
        rfl
      have hdisabled' : (sh.saveRootPage v.1 v.2).incrementalEnabled = false := hdisabled
      rw [if_pos hd,
        filter_cons_of_pos (p := fun (w : ℕ × ℕ) => differs ram bl sh w.1 w.2) hd,
        foldl_cons, ih hdisabled']
      simp [hsame]
    · rw [if_neg hd,
        filter_cons_of_neg (p := fun (w : ℕ × ℕ) => differs ram bl sh w.1 w.2) hd,
        ih hdisabled]

def savedPlaces (ram : RamLayout) (bl : Blocklist) (sh : ShadowMemory α) : List (ℕ × ℕ) :=
  ram.places.filter fun v => differs ram bl sh v.1 v.2

theorem mem_pagesAt_savedPlaces {p : PageId} :
    p ∈ ShadowMemory.pagesAt (savedPlaces ram bl sh) ↔
      ram.Has p ∧ ¬ bl.Blocks ram p ∧ sh.host p ≠ sh.active p := by
  rw [ShadowMemory.pagesAt, List.mem_map]
  constructor
  · rintro ⟨v, hv, rfl⟩
    rcases mem_filter.1 hv with ⟨hmem, hd⟩
    rcases mem_places.1 hmem with ⟨hhas, haligned⟩
    have hd := (differs_iff haligned).1 hd
    exact ⟨hhas, hd.2, hd.1⟩
  · rintro ⟨hhas, hblocks, hne⟩
    rcases mem_map.1 (mem_pagesAt.2 hhas) with ⟨v, hv, rfl⟩
    refine ⟨v, mem_filter.2 ⟨hv, ?_⟩, rfl⟩
    exact (differs_iff (mem_places.1 hv).2).2 ⟨hne, hblocks⟩

theorem nyxSnapshotDebugSaveRootPages_eq (hdisabled : sh.incrementalEnabled = false) :
    nyxSnapshotDebugSaveRootPages ram bl sh =
      { sh with
        incremental := fun p =>
          if p ∈ ShadowMemory.pagesAt (savedPlaces ram bl sh) then sh.host p
          else sh.incremental p
        rootTrackPages := sh.rootTrackPages ++
          (savedPlaces ram bl sh).map fun v => ShadowMemory.trackEntry v.2 v.1 } := by
  rw [← foldl_saveRootPage, savedPlaces, ← foldl_save_differs hdisabled,
    ← ram.foldl_places fun (sh : ShadowMemory α) i addr =>
      if differs ram bl sh i addr then sh.saveRootPage i addr else sh]
  rfl

end Compare

/-! ## The slots -/

theorem initSlot_has {ram : RamLayout} {mem : KvmSlot} {heap : ℕ → Bool} {slot : Slot} {gfn : ℕ}
    (h : initSlot ram mem heap = some slot) (hen : slot.enabled = true) (hgfn : gfn < mem.pages) :
    ram.Has (slot.page gfn) := by
  unfold initSlot at h
  cases hro : mem.readonly with
  | true =>
    rw [hro, if_pos rfl] at h
    rw [← some_inj.1 h] at hen
    cases hen
  | false =>
    simp only [hro, Bool.false_eq_true, if_false] at h
    split at h
    · cases h
    case h_2 j hj =>
      rcases ite_none_right_eq_some.1 h with ⟨hend, h⟩
      rw [← some_inj.1 h]
      have hlt := mem_range.1 (mem_of_find?_eq_some hj)
      have hbase := (ram.findRegion_eq_some hj).2
      simp only [fastInRange, Bool.and_eq_true, decide_eq_true_eq] at hend
      simp only [KvmSlot.pages] at hgfn
      refine ⟨hlt, ?_⟩
      simp only [Slot.page, pageAt, Slot.entryOffsetAddr]
      omega

structure SlotsInv (c : RingMachine) (slots : List Slot) (ring : List KvmDirtyGfn) : Prop
    extends LogInv c slots ring where
  once : ∀ i slot, slots[i]? = some slot →
    slot.log.Once id ∧ ∀ gfn ∈ slot.log.stack, gfn < c.pages i
  inside : ∀ i slot, slots[i]? = some slot → slot.enabled = true → ∀ gfn < c.pages i,
    c.ram.Has (slot.page gfn)

variable {entries : List KvmDirtyGfn}

namespace SlotsInv

variable {c : RingMachine} {slots : List Slot} {ring : List KvmDirtyGfn}

theorem init (htail : c.TailClear) (h : nyxDirtyRingInit c.ram c.kvmSlots c.heap = some slots) :
    SlotsInv c slots [] := by
  refine ⟨LogInv.init htail h, fun i slot hi => ?_, fun i slot hi hen gfn hgfn => ?_⟩
  · have hnil := stack_of_init h slot (mem_of_getElem? hi)
    refine ⟨DirtyLog.once_of_stack_eq_nil hnil, fun gfn hgfn => ?_⟩
    rw [hnil] at hgfn
    cases hgfn
  · rcases (nyxDirtyRingInit_eq_some h).2.2 i slot hi with ⟨mem, hmem, hinit⟩
    exact initSlot_has hinit hen (pages_eq hmem ▸ hgfn)

theorem collected (h : SlotsInv c slots ring) : SlotsInv c (Qemu.collected slots ring) [] := by
  refine ⟨h.toLogInv.collected, fun i slot hi => ?_, fun i slot hi hen gfn hgfn => ?_⟩
  · rcases getElem?_collected hi with ⟨slot0, hslot0, rfl⟩
    rcases h.once i slot0 hslot0 with ⟨honce, hlt⟩
    refine ⟨honce.recordAll _, fun gfn hgfn => ?_⟩
    rcases DirtyLog.mem_stack_recordAll hgfn with hold | hnew
    · exact hlt gfn hold
    · exact (h.ring _ (mem_offsetsOf.1 hnew)).2
  · rcases getElem?_collected hi with ⟨slot0, hslot0, rfl⟩
    exact h.inside i slot0 hslot0 hen gfn hgfn

theorem swept (h : SlotsInv c slots []) :
    SlotsInv c (slots.map (Slot.swept c.ram c.blocklist)) [] := by
  refine ⟨h.toLogInv.swept, fun i slot hi => ?_, fun i slot hi hen gfn hgfn => ?_⟩
  · rw [getElem?_map] at hi
    rcases map_eq_some_iff.1 hi with ⟨slot0, hslot0, rfl⟩
    unfold Slot.swept
    split
    · refine ⟨DirtyLog.once_drained, fun gfn hgfn => ?_⟩
      cases hgfn
    · exact h.once i slot0 hslot0
  · rw [getElem?_map] at hi
    rcases map_eq_some_iff.1 hi with ⟨slot0, hslot0, rfl⟩
    unfold Slot.swept at hen ⊢
    split at hen
    case isTrue henabled =>
      rw [if_pos henabled]
      exact h.inside i slot0 hslot0 henabled gfn hgfn
    case isFalse henabled => exact absurd hen henabled

theorem stacksFit (h : SlotsInv c slots ring) {i : ℕ} {slot : Slot} (hi : slots[i]? = some slot) :
    slot.log.stack.Nodup ∧ slot.log.stack.length ≤ c.pages i := by
  rcases h.once i slot hi with ⟨honce, hlt⟩
  have hnodup : slot.log.stack.Nodup := by
    have hmap := honce.nodup
    rwa [List.map_id] at hmap
  have hsub : slot.log.stack ⊆ List.range (c.pages i) :=
    fun gfn hgfn => mem_range.2 (hlt gfn hgfn)
  refine ⟨hnodup, ?_⟩
  rw [← length_range (n := c.pages i)]
  exact (subperm_of_subset hnodup hsub).length_le

end SlotsInv

/-! ## One operation -/

def copiedPages (c : RingMachine) (slots : List Slot) (ring : List KvmDirtyGfn) : List PageId :=
  ShadowMemory.pagesAt ((collected slots ring).flatMap (Slot.places c.ram c.blocklist))

section Copied

variable {c : RingMachine} {slots : List Slot} {ring : List KvmDirtyGfn} {p : PageId}

theorem SlotsInv.of_mem_copiedPages (h : SlotsInv c slots ring)
    (hp : p ∈ copiedPages c slots ring) : c.ram.Has p ∧ c.Restores p := by
  rcases (mem_pagesAt_places c.ram c.blocklist).1 hp with ⟨slot, hslot, hen, gfn, hgfn, hres, rfl⟩
  rcases mem_iff_getElem?.1 hslot with ⟨i, hi⟩
  have hinv := h.collected
  exact ⟨hinv.inside i slot hi hen gfn ((hinv.once i slot hi).2 gfn hgfn), hres⟩

theorem SlotsInv.mem_copiedPages (h : SlotsInv c slots ring) (hp : c.Restores p)
    (hpend : PendingIn slots ring p) : p ∈ copiedPages c slots ring := by
  rcases h.toLogInv.mem_collected hp hpend with ⟨slot, hslot, hen, gfn, hgfn, rfl⟩
  exact (mem_pagesAt_places c.ram c.blocklist).2 ⟨slot, hslot, hen, gfn, hgfn, hp, rfl⟩

end Copied

namespace RingState

variable {c : RingMachine} {s s' : RingState α}

theorem step_restore (h : LogInv c s.slots s.ring) :
    s.step c .restore = some
      { shadow := { s.shadow with
          host := fun p => if p ∈ copiedPages c s.slots s.ring then s.shadow.active p
            else s.shadow.host p }
        slots := (collected s.slots s.ring).map (Slot.swept c.ram c.blocklist)
        ring := []
        reported := [] } := by
  rw [step, nyxSnapshotNyxDirtyRingRestore, h.flush_eq, map_some, map_some,
    dirtyRingRestoreMemory, sweepSlots_eq, foldl_restorePage]
  rfl

theorem step_saveRootPages (h : LogInv c s.slots s.ring) :
    s.step c .saveRootPages = some
      { shadow := { s.shadow with
          incremental := fun p => if p ∈ copiedPages c s.slots s.ring then s.shadow.host p
            else s.shadow.incremental p
          rootTrackPages := s.shadow.rootTrackPages ++ ((collected s.slots s.ring).flatMap
            (Slot.places c.ram c.blocklist)).map fun v => ShadowMemory.trackEntry v.2 v.1 }
        slots := (collected s.slots s.ring).map (Slot.swept c.ram c.blocklist)
        ring := []
        reported := [] } := by
  rw [step, nyxSnapshotNyxDirtyRingSaveRootPages, h.flush_eq, map_some, map_some,
    dirtyRingSaveRootPages, sweepSlots_eq, foldl_saveRootPage]
  rfl

structure Inv (c : RingMachine) (s : RingState α) : Prop where
  slots : SlotsInv c s.slots s.ring
  pending : ∀ e ∈ s.reported, ∀ slot, s.slots[e.slot]? = some slot → slot.enabled = true →
    c.Restores (slot.page e.offset) → PendingIn s.slots s.ring (slot.page e.offset)

theorem Inv.mem_copiedPages (h : s.Inv c) (hreported : s.DirtyReported c) {p : PageId}
    (hhas : c.ram.Has p) (hres : c.Restores p) (hne : s.shadow.host p ≠ s.shadow.active p) :
    p ∈ copiedPages c s.slots s.ring := by
  rcases hreported p hhas hres hne with ⟨e, he, slot, hslot, hen, rfl⟩
  exact h.slots.mem_copiedPages hres (h.pending e he slot hslot hen hres)

/-! ### The invariant -/

theorem Inv.guest (h : s.Inv c) {mem : GuestMemory α}
    (hentries : ∀ e ∈ entries, e.slot < s.slots.length ∧ e.offset < c.pages e.slot) :
    Inv c { s with
      shadow := { s.shadow with host := mem }
      ring := s.ring ++ entries
      reported := s.reported ++ entries } := by
  refine ⟨⟨h.slots.toLogInv.append hentries, h.slots.once, h.slots.inside⟩, fun e he slot hslot hen hres => ?_⟩
  rcases mem_append.1 he with he | he
  · -- what was in the ring is still there
    refine (h.pending e he slot hslot hen hres).imp_left ?_
    rintro ⟨e', he', hpage⟩
    exact ⟨e', mem_append_left _ he', hpage⟩
  · exact Or.inl ⟨e, mem_append_right _ he, slot, hslot, hen, rfl⟩

theorem Inv.flushAndCollect (h : s.Inv c) :
    Inv c { s with slots := collected s.slots s.ring, ring := [] } := by
  refine ⟨h.slots.collected, fun e he slot hslot hen hres => ?_⟩
  rcases getElem?_collected hslot with ⟨slot0, hslot0, rfl⟩
  exact Or.inr (h.slots.toLogInv.mem_collected hres (h.pending e he slot0 hslot0 hen hres))

theorem Inv.of_swept (h : s.Inv c) {shadow : ShadowMemory α} :
    Inv c ⟨shadow, (collected s.slots s.ring).map (Slot.swept c.ram c.blocklist), [], []⟩ := by
  refine ⟨h.slots.collected.swept, fun e he => ?_⟩
  cases he

theorem Inv.step (h : s.Inv c) {op : RingOp α} (hmeets : s.Meets c op)
    (hstep : s.step c op = some s') : s'.Inv c := by
  cases op with
  | guest mem entries =>
    cases hstep
    exact h.guest hmeets
  | flushAndCollect =>
    rw [RingState.step, h.slots.toLogInv.flush_eq] at hstep
    cases hstep
    exact h.flushAndCollect
  | restore =>
    rw [step_restore h.slots.toLogInv] at hstep
    cases hstep
    exact h.of_swept
  | saveRootPages =>
    rw [step_saveRootPages h.slots.toLogInv] at hstep
    cases hstep
    exact h.of_swept
  | switchSnapshot incremental =>
    cases hstep
    exact ⟨h.slots, h.pending⟩

/-! ### Agreement -/

variable [DecidableEq α]

theorem Inv.restore_agrees (h : s.Inv c) (hreported : s.DirtyReported c) : s.Agrees c .restore := by
  refine ⟨_, step_restore h.slots.toLogInv, ?_⟩
  rw [nyxSnapshotDebugRestore_eq]
  funext p
  dsimp only
  by_cases hcopied : p ∈ copiedPages c s.slots s.ring
  · rw [if_pos hcopied]
    exact (if_pos (h.slots.of_mem_copiedPages hcopied)).symm
  · rw [if_neg hcopied]
    split
    case isTrue hp =>
      -- it was not copied, so it does not differ
      by_contra hne
      exact hcopied (h.mem_copiedPages hreported hp.1 hp.2 hne)
    case isFalse => rfl

theorem Inv.saveRootPages_agrees (h : s.Inv c) (hreported : s.DirtyReported c) :
    s.Agrees c .saveRootPages := by
  intro hdisabled hincremental
  have hactive : s.shadow.active = s.shadow.snapshot := by
    rw [active, hdisabled]
    rfl
  -- what the comparison saves is copied
  have hsaved : ∀ p ∈ pagesAt (savedPlaces c.ram c.blocklist s.shadow),
      p ∈ copiedPages c s.slots s.ring := by
    intro p hp
    rcases mem_pagesAt_savedPlaces.1 hp with ⟨hhas, hres, hne⟩
    exact h.mem_copiedPages hreported hhas hres hne
  refine ⟨_, step_saveRootPages h.slots.toLogInv, ?_, ?_⟩
  · rw [nyxSnapshotDebugSaveRootPages_eq hdisabled]
    funext p
    dsimp only
    by_cases hp : p ∈ pagesAt (savedPlaces c.ram c.blocklist s.shadow)
    · rw [if_pos hp, if_pos (hsaved p hp)]
    · rw [if_neg hp]
      split
      case isTrue hcopied =>
        -- it was copied although it does not differ from the root
        rcases h.slots.of_mem_copiedPages hcopied with ⟨hhas, hres⟩
        rw [hincremental, ← hactive]
        by_contra hne
        exact hp (mem_pagesAt_savedPlaces.2 ⟨hhas, hres, hne⟩)
      case isFalse => rfl
  · intro p hp
    rw [nyxSnapshotDebugSaveRootPages_eq hdisabled, trackedPages, map_append,
      mem_append] at hp
    rw [trackedPages, map_append, mem_append]
    refine hp.imp_right fun hp => ?_
    have hregion : ∀ v ∈ savedPlaces c.ram c.blocklist s.shadow, v.1 < 0x100 := by
      intro v hv
      have hplace := RamLayout.mem_places.1 (mem_filter.1 hv).1
      exact lt_trans hplace.1.1 c.ram.length_lt
    rw [List.map_map] at hp ⊢
    rcases mem_map.1 hp with ⟨v, hv, rfl⟩
    rcases mem_map.1 (hsaved _ (mem_map_of_mem hv)) with ⟨v', hv', hpage⟩
    refine mem_map.2 ⟨v', hv', ?_⟩
    have hregion' := region_lt_of_mem_places c.ram c.blocklist hv'
    exact (trackedPage_trackEntry hregion').trans
      (hpage.trans (trackedPage_trackEntry (hregion v hv)).symm)

theorem Inv.agrees (h : s.Inv c) {op : RingOp α} (hmeets : s.Meets c op) : s.Agrees c op := by
  cases op with
  | restore => exact h.restore_agrees hmeets
  | saveRootPages => exact h.saveRootPages_agrees hmeets
  | guest mem entries => trivial
  | flushAndCollect => trivial
  | switchSnapshot incremental => trivial

end RingState

/-! ## Whole runs -/

theorem RingMachine.TailClear.agreesWithCompare [DecidableEq α] {c : RingMachine}
    (h : c.TailClear) : c.AgreesWithCompare α := by
  intro sh slots hslots ops hmeets
  have hstart : RingState.Inv c (⟨sh, slots, [], []⟩ : RingState α) := by
    refine ⟨SlotsInv.init h hslots, fun e he => ?_⟩
    cases he
  have hkeeps : ∀ (s : RingState α) op s', s.Inv c → s.Meets c op → s.step c op = some s' →
      s'.Inv c := fun _ _ _ hinv hop hs => hinv.step hop hs
  exact ⟨throughout_of_eachStep hkeeps (fun _ hinv _ _ hi => hinv.slots.stacksFit hi) hmeets hstart,
    hmeets.of_invariant hkeeps (fun _ _ hinv hop => hinv.agrees hop) hstart⟩

theorem RingMachine.AgreesWithCompare.tailClear [DecidableEq α] [Nontrivial α] {c : RingMachine}
    (hboot : (nyxDirtyRingInit c.ram c.kvmSlots c.heap).isSome) (h : c.AgreesWithCompare α) :
    c.TailClear := by
  intro i mem hmem hro gfn hgfn htail hheap
  by_contra hblock
  rcases isSome_iff_exists.1 hboot with ⟨slots, hslots⟩
  rcases exists_marked_slot hslots hmem hro htail hheap with ⟨slot, hslot, hen, hmarked, hphys⟩
  rcases nyxDirtyRingInit_eq_some hslots with ⟨hcount, -, hget⟩
  rcases hget i slot hslot with ⟨mem', hmem', hinit⟩
  obtain rfl := some_inj.1 (hmem'.symm.trans hmem)
  have hhas := initSlot_has hinit hen hgfn
  have hres : c.Restores (slot.page gfn) := by
    rw [RingMachine.Restores, Blocklist.Blocks, hphys]
    exact hblock
  rcases exists_pair_ne α with ⟨x, y, hxy⟩
  -- the guest writes the page, and it is reported
  have hentry : ∀ e ∈ [(⟨i, gfn⟩ : KvmDirtyGfn)], e.slot < slots.length ∧
      e.offset < c.pages e.slot := by
    intro e he
    rw [mem_singleton.1 he]
    exact ⟨(List.getElem?_eq_some_iff.1 hslot).1, pages_eq hmem ▸ hgfn⟩
  have hreported : ∀ p, c.ram.Has p → c.Restores p →
      update (fun _ => x) (slot.page gfn) y p ≠ x →
        ∃ e ∈ [(⟨i, gfn⟩ : KvmDirtyGfn)], ∃ slot, slots[e.slot]? = some slot ∧
          slot.enabled = true ∧ slot.page e.offset = p := by
    intro p _ _ hne
    rcases eq_or_ne p (slot.page gfn) with rfl | hother
    · exact ⟨_, mem_singleton_self _, slot, hslot, hen, rfl⟩
    · exact absurd (update_of_ne hother _ _) hne
  have hruns := h (.init fun _ => x) slots hslots
    [.guest (update (fun _ => x) (slot.page gfn) y) [⟨i, gfn⟩], .restore]
    ⟨hentry, fun s' hs' => by
      cases hs'
      exact ⟨hreported, fun _ _ => trivial⟩⟩
  rcases (hruns.2.2 _ rfl).1 with ⟨s', hs', hhost⟩
  -- but it is not in the log
  have hflush := dirtyRingFlushAndCollect_eq hcount fun e he => (hentry e he).1
  have hempty := stack_collected_of_marked (stack_of_init hslots) hslot hmarked
  have hkept : s'.shadow.host (slot.page gfn) = y := by
    rw [RingState.step, nyxSnapshotNyxDirtyRingRestore, nil_append, hflush, map_some,
      map_some, dirtyRingRestoreMemory, sweepSlots_eq, foldl_restorePage] at hs'
    rw [← some_inj.1 hs']
    have hwritten : update (fun _ => x) (slot.page gfn) y (slot.page gfn) = y :=
      update_self _ _ _
    refine (if_neg fun hmem => ?_).trans hwritten
    rcases (mem_pagesAt_places c.ram c.blocklist).1 hmem with ⟨slot', hslot', -, gfn', hgfn', -⟩
    rw [hempty slot' hslot'] at hgfn'
    cases hgfn'
  rw [hhost, nyxSnapshotDebugRestore_eq] at hkept
  exact hxy ((if_pos ⟨hhas, hres⟩).symm.trans hkept)

/-- **When the dirty ring agrees with the full comparison.** -/
theorem agreesWithCompare_iff [DecidableEq α] [Nontrivial α] {c : RingMachine}
    (hboot : (nyxDirtyRingInit c.ram c.kvmSlots c.heap).isSome) :
    c.AgreesWithCompare α ↔ c.TailClear :=
  ⟨fun h => h.tailClear hboot, fun h => h.agreesWithCompare⟩

def elevenPages (heap : ℕ → ℕ → Bool) : RingMachine where
  ram := .single 0xb
  kvmSlots := [.ofPages 0 0xb false]
  blocklist := ⟨0xb000, fun _ => false⟩
  heap := heap

theorem agreesWithCompare_elevenPages :
    (elevenPages fun _ _ => false).TailClear ∧
      (elevenPages fun _ _ => false).AgreesWithCompare Bool := by
  have htail : (elevenPages fun _ _ => false).TailClear := by
    intro i mem _ _ gfn _ _ hheap
    cases hheap
  exact ⟨htail, (agreesWithCompare_iff (by decide +kernel)).2 htail⟩

def writesNine : List (RingOp Bool) := [.guest (fun p => p = (0, 9)) [⟨0, 9⟩]]

/-- **A page is not restored.** -/
theorem elevenPages_not_restored :
    ¬(elevenPages fun _ gfn => gfn == 9).AgreesWithCompare Bool ∧
      ∃ slots s s', nyxDirtyRingInit (elevenPages fun _ gfn => gfn == 9).ram
          (elevenPages fun _ gfn => gfn == 9).kvmSlots (fun _ gfn => gfn == 9) = some slots ∧
        exec (RingState.step (elevenPages fun _ gfn => gfn == 9))
          ⟨.init fun _ => false, slots, [], []⟩ writesNine = some s ∧
        s.step (elevenPages fun _ gfn => gfn == 9) .restore = some s' ∧
        s'.shadow.host (0, 9) = true ∧
        (nyxSnapshotDebugRestore (elevenPages fun _ gfn => gfn == 9).ram
          (elevenPages fun _ gfn => gfn == 9).blocklist s.shadow).1.host (0, 9) = false := by
  constructor
  · intro h
    have htail := h.tailClear (by decide +kernel)
    have hblocked := htail 0 (.ofPages 0 0xb false) rfl rfl 9 (by decide) (by decide) rfl
    revert hblocked
    decide
  · refine ⟨_, _, _, rfl, rfl, rfl, ?_, ?_⟩
    · decide +kernel
    · decide +kernel

end FuzzSocketCan.Qemu
