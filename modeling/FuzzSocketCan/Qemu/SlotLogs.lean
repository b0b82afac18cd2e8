import FuzzSocketCan.Qemu.FastReload

/-! # The logs of the slots

* **`LogInv`** — a page that has to be restored is not lost. It holds after `nyx_dirty_ring_init`
  if the bits that it does not clear are not set (`RingMachine.TailClear`), and collecting and
  sweeping keep it.
* **`LogInv.mem_collected`** — so a page that was reported is in the collected logs. -/

namespace FuzzSocketCan.Qemu

open Lib List Option DirtyLog

def RingMachine.Restores (c : RingMachine) (p : PageId) : Prop := ¬ c.blocklist.Blocks c.ram p

instance (c : RingMachine) (p : PageId) : Decidable (c.Restores p) := inferInstanceAs (Decidable (¬ _))

def RingMachine.TailClear (c : RingMachine) : Prop :=
  ∀ i mem, (usedSlots c.kvmSlots)[i]? = some mem → mem.readonly = false →
    ∀ gfn < mem.pages, 8 * bitmapSize mem.memorySize ≤ gfn → c.heap i gfn = true →
      c.blocklist.checkPhysAddr (mem.startAddr + gfn * 0x1000) = true

/-! ## The slots after initialisation -/

variable {mem : KvmSlot}

theorem initSlot_eq_some {ram : RamLayout} {heap : ℕ → Bool} {slot : Slot}
    (h : initSlot ram mem heap = some slot) :
    slot.log = ⟨fun gfn => decide (8 * bitmapSize mem.memorySize ≤ gfn) && heap gfn, []⟩ ∧
      slot.enabled = !mem.readonly ∧
      (slot.enabled = true → ∀ gfn,
        ram.physAddr (slot.page gfn) = mem.startAddr + gfn * 0x1000) := by
  unfold initSlot at h
  cases hro : mem.readonly with
  | true =>
    simp only [hro, if_true, some_inj] at h
    subst h
    refine ⟨rfl, rfl, ?_⟩
    rintro ⟨⟩
  | false =>
    simp only [hro, Bool.false_eq_true, if_false] at h
    split at h
    · cases h
    · rename_i j hj
      rw [ite_none_right_eq_some] at h
      obtain ⟨-, h⟩ := h
      rw [some_inj] at h
      subst h
      refine ⟨rfl, rfl, fun _ gfn => ?_⟩
      have hbase := (ram.findRegion_eq_some hj).2
      rw [Slot.physAddr_page]
      simp only [Slot.physicalAddr, Slot.entryOffsetAddr]
      omega

theorem initSlots_eq_some {ram : RamLayout} {heap : ℕ → ℕ → Bool} {i : ℕ} {mems : List KvmSlot}
    {slots : List Slot} (h : initSlots ram heap i mems = some slots) :
    slots.length = mems.length ∧ ∀ k slot, slots[k]? = some slot →
      ∃ mem, mems[k]? = some mem ∧ initSlot ram mem (heap (i + k)) = some slot := by
  induction mems generalizing i slots with
  | nil =>
    obtain rfl : [] = slots := some_inj.1 h
    exact ⟨rfl, fun k slot hk => by simp at hk⟩
  | cons mem mems ih =>
    obtain ⟨slot, hslot, hrest⟩ := bind_eq_some_iff.1 h
    obtain ⟨slots', hslots', rfl⟩ := map_eq_some_iff.1 hrest
    obtain ⟨hlength, hget⟩ := ih hslots'
    refine ⟨by rw [length_cons, length_cons, hlength], ?_⟩
    rintro (_ | k) slot' hk
    · obtain rfl : slot = slot' := by simpa using hk
      exact ⟨mem, rfl, hslot⟩
    · obtain ⟨mem', hmem', hinit⟩ := hget k slot' (by simpa using hk)
      refine ⟨mem', by simpa using hmem', ?_⟩
      rwa [add_right_comm, add_assoc] at hinit

theorem nyxDirtyRingInit_eq_some {c : RingMachine} {slots : List Slot}
    (h : nyxDirtyRingInit c.ram c.kvmSlots c.heap = some slots) :
    slots.length < 0x100 ∧ slots.length = (usedSlots c.kvmSlots).length ∧
      ∀ i slot, slots[i]? = some slot →
        ∃ mem, (usedSlots c.kvmSlots)[i]? = some mem ∧
          initSlot c.ram mem (c.heap i) = some slot := by
  unfold nyxDirtyRingInit at h
  rw [ite_none_right_eq_some] at h
  obtain ⟨hcount, h⟩ := h
  obtain ⟨hlength, hget⟩ := initSlots_eq_some h
  refine ⟨by omega, hlength, fun i slot hi => ?_⟩
  simpa using hget i slot hi

theorem pages_eq {c : RingMachine} {i : ℕ} (h : (usedSlots c.kvmSlots)[i]? = some mem) :
    c.pages i = mem.pages := by
  rw [RingMachine.pages, h]
  rfl

variable {gfn : ℕ}

theorem exists_marked_slot {c : RingMachine} {slots : List Slot} {i : ℕ}
    (h : nyxDirtyRingInit c.ram c.kvmSlots c.heap = some slots)
    (hmem : (usedSlots c.kvmSlots)[i]? = some mem) (hwritable : mem.readonly = false)
    (htail : 8 * bitmapSize mem.memorySize ≤ gfn) (hheap : c.heap i gfn = true) :
    ∃ slot, slots[i]? = some slot ∧ slot.enabled = true ∧ slot.log.marked gfn = true ∧
      c.ram.physAddr (slot.page gfn) = mem.startAddr + gfn * 0x1000 := by
  rcases nyxDirtyRingInit_eq_some h with ⟨-, hlength, hget⟩
  have hi : i < slots.length := hlength ▸ (List.getElem?_eq_some_iff.1 hmem).1
  have hslot := List.getElem?_eq_getElem hi
  rcases hget i _ hslot with ⟨mem', hmem', hinit⟩
  obtain rfl := some_inj.1 (hmem'.symm.trans hmem)
  rcases initSlot_eq_some hinit with ⟨hlog, henabled, hphys⟩
  have hen : slots[i].enabled = true := by
    rw [henabled, hwritable]
    rfl
  refine ⟨_, hslot, hen, ?_, hphys hen gfn⟩
  rw [hlog]
  simp [htail, hheap]

/-! ## Pending pages -/

def collected (slots : List Slot) (ring : List KvmDirtyGfn) : List Slot :=
  slots.mapIdx fun i slot => slot.collectAll (offsetsOf i ring)

def PendingIn (slots : List Slot) (ring : List KvmDirtyGfn) (p : PageId) : Prop :=
  (∃ e ∈ ring, ∃ slot, slots[e.slot]? = some slot ∧ slot.enabled = true ∧
    slot.page e.offset = p) ∨
  ∃ slot ∈ slots, slot.enabled = true ∧ ∃ gfn ∈ slot.log.stack, slot.page gfn = p

structure LogInv (c : RingMachine) (slots : List Slot) (ring : List KvmDirtyGfn) : Prop where
  count : slots.length < 0x100
  /-- The ring reports pages of the slots. -/
  ring : ∀ e ∈ ring, e.slot < slots.length ∧ e.offset < c.pages e.slot
  /-- No page of a slot is lost that has to be restored. -/
  marks : ∀ i slot, slots[i]? = some slot → slot.enabled = true → ∀ gfn < c.pages i,
    slot.log.Lost id gfn → ¬ c.Restores (slot.page gfn)

section Collect

variable {c : RingMachine} {slots : List Slot} {ring : List KvmDirtyGfn} {i : ℕ} {slot : Slot}
  {p : PageId}

theorem getElem?_collected (hi : (collected slots ring)[i]? = some slot) :
    ∃ slot0, slots[i]? = some slot0 ∧ slot = slot0.collectAll (offsetsOf i ring) := by
  rw [collected, getElem?_mapIdx] at hi
  rcases map_eq_some_iff.1 hi with ⟨slot0, hslot0, rfl⟩
  exact ⟨slot0, hslot0, rfl⟩

theorem mem_offsetsOf : gfn ∈ offsetsOf i ring ↔ (⟨i, gfn⟩ : KvmDirtyGfn) ∈ ring := by
  simp only [offsetsOf, List.mem_map, List.mem_filter, decide_eq_true_eq]
  constructor
  · rintro ⟨⟨slot, offset⟩, ⟨he, rfl⟩, rfl⟩
    exact he
  · intro he
    exact ⟨_, ⟨he, rfl⟩, rfl⟩

theorem stack_collected_of_marked (hempty : ∀ slot ∈ slots, slot.log.stack = [])
    (hi : slots[i]? = some slot) (hmarked : slot.log.marked gfn = true) :
    ∀ slot' ∈ collected slots [⟨i, gfn⟩], slot'.log.stack = [] := by
  intro slot' hslot'
  rcases mem_iff_getElem?.1 hslot' with ⟨k, hk⟩
  rcases getElem?_collected hk with ⟨slot0, hslot0, rfl⟩
  have hnil := hempty slot0 (mem_of_getElem? hslot0)
  by_cases hik : i = k
  · subst hik
    obtain rfl := some_inj.1 (hi.symm.trans hslot0)
    simpa [Slot.collectAll, offsetsOf, recordAll, record, hmarked] using hnil
  · simpa [Slot.collectAll, offsetsOf, recordAll, hik] using hnil

theorem stack_of_init (h : nyxDirtyRingInit c.ram c.kvmSlots c.heap = some slots) :
    ∀ slot ∈ slots, slot.log.stack = [] := by
  intro slot hslot
  rcases mem_iff_getElem?.1 hslot with ⟨i, hi⟩
  rcases (nyxDirtyRingInit_eq_some h).2.2 i slot hi with ⟨mem, -, hinit⟩
  rw [(initSlot_eq_some hinit).1]

namespace LogInv

theorem init (htail : c.TailClear) (h : nyxDirtyRingInit c.ram c.kvmSlots c.heap = some slots) :
    LogInv c slots [] := by
  rcases nyxDirtyRingInit_eq_some h with ⟨hcount, -, hget⟩
  refine ⟨hcount, by simp, ?_⟩
  intro i slot hi hen gfn hgfn hlost hres
  rcases hget i slot hi with ⟨kvm, hkvm, hinit⟩
  rcases initSlot_eq_some hinit with ⟨hlog, henabled, hphys⟩
  have hmarked := hlost.1
  rw [hlog] at hmarked
  simp only [Bool.and_eq_true, decide_eq_true_eq] at hmarked
  apply hres
  rw [Blocklist.Blocks, hphys hen]
  refine htail i kvm hkvm ?_ gfn (pages_eq hkvm ▸ hgfn) hmarked.1 hmarked.2
  rw [hen] at henabled
  simpa using henabled.symm

theorem flush_eq (h : LogInv c slots ring) :
    dirtyRingFlushAndCollect slots ring = some (collected slots ring) :=
  dirtyRingFlushAndCollect_eq h.count fun e he => (h.ring e he).1

theorem append (h : LogInv c slots ring) {entries : List KvmDirtyGfn}
    (hentries : ∀ e ∈ entries, e.slot < slots.length ∧ e.offset < c.pages e.slot) :
    LogInv c slots (ring ++ entries) := by
  refine ⟨h.count, fun e he => ?_, h.marks⟩
  rcases mem_append.1 he with he | he
  · exact h.ring e he
  · exact hentries e he

theorem mem_collected (h : LogInv c slots ring) (hp : c.Restores p)
    (hpend : PendingIn slots ring p) :
    ∃ slot ∈ collected slots ring, slot.enabled = true ∧ ∃ gfn ∈ slot.log.stack,
      slot.page gfn = p := by
  have hslots : ∃ (i : ℕ) (slot : Slot) (gfn : ℕ), slots[i]? = some slot ∧ slot.enabled = true ∧
      slot.page gfn = p ∧ (slot.log.recordAll id (offsetsOf i ring)).Has id gfn := by
    rcases hpend with ⟨e, he, slot, hslot, hen, rfl⟩ | ⟨slot, hslot, hen, gfn, hgfn, rfl⟩
    · -- a reported page is recorded, because it is not lost
      refine ⟨e.slot, slot, e.offset, hslot, hen, rfl, ?_⟩
      refine DirtyLog.has_recordAll_of_mem ?_ fun hlost =>
        h.marks e.slot slot hslot hen e.offset (h.ring e he).2 hlost hp
      rw [List.map_id]
      exact mem_offsetsOf.2 he
    · rcases mem_iff_getElem?.1 hslot with ⟨i, hi⟩
      exact ⟨i, slot, gfn, hi, hen, rfl, DirtyLog.has_recordAll.2 (.inl ⟨gfn, hgfn, rfl⟩)⟩
  rcases hslots with ⟨i, slot, gfn, hi, hen, hpage, gfn', hgfn', rfl⟩
  refine ⟨slot.collectAll (offsetsOf i ring), ?_, hen, gfn', hgfn', hpage⟩
  refine mem_iff_getElem?.2 ⟨i, ?_⟩
  rw [collected, getElem?_mapIdx, hi]
  rfl

theorem collected (h : LogInv c slots ring) : LogInv c (Qemu.collected slots ring) [] := by
  refine ⟨length_mapIdx.trans_lt h.count, by simp, ?_⟩
  intro i slot hi hen gfn hgfn hlost
  rcases getElem?_collected hi with ⟨slot0, hslot0, rfl⟩
  exact h.marks i slot0 hslot0 hen gfn hgfn (lost_recordAll.1 hlost)

theorem swept (h : LogInv c slots []) : LogInv c (slots.map (Slot.swept c.ram c.blocklist)) [] := by
  refine ⟨(length_map _).trans_lt h.count, by simp, ?_⟩
  intro i slot' hi hen gfn hgfn hlost
  rw [getElem?_map] at hi
  rcases map_eq_some_iff.1 hi with ⟨slot, hslot, rfl⟩
  have hen0 : slot.enabled = true := by
    unfold Slot.swept at hen
    split at hen <;> exact hen
  have hswept : slot.swept c.ram c.blocklist =
      { slot with log := slot.log.drained (slot.skips c.ram c.blocklist) id } := if_pos hen0
  rw [hswept] at hlost ⊢
  rcases lost_or_skipped_of_drained hlost with hlost | ⟨gfn', -, rfl, hskip⟩
  · exact h.marks i slot hslot hen0 gfn hgfn hlost
  · exact fun hres => hres (Slot.skips_iff.1 hskip)

end LogInv

end Collect

end FuzzSocketCan.Qemu
