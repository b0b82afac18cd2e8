import FuzzSocketCan.Qemu.FastReload

/-! # Device writes

When device emulation writes the guest's memory, QEMU hands the region, the offset and the length
to `nyx_fdl_user_set`.

* **`rolledBack_iff`** — which writes are recorded and rolled back. The callers clear the low bits
  of the offset and leave the length as it is, so that the last page of a range can be missed; the
  bitmap holds what `malloc` returned, and a page whose bit was set is never recorded; and the
  offset is taken as one of `pc.ram` whatever the region is.
* **`sixteenPages_not_rolledBack`** — a write for each of the three. -/

namespace FuzzSocketCan.Qemu

open Lib List Option Function FdlUser DirtyLog FastReload

variable {α : Type}

/-! ## Notifications -/

def Blocklist.add (bl : Blocklist) (physAddr : ℕ) : Option Blocklist :=
  if physAddr = 2 ^ 64 - 1 then some bl
  else if physAddr < bl.physAreaSize ∧ bl.physBitmap (physAddr / 0x1000) = false then
    some { bl with physBitmap := update bl.physBitmap (physAddr / 0x1000) true }
  else none

def RamLayout.Overlaps (ram : RamLayout) (r a length pfn : ℕ) : Prop :=
  0 < length ∧ ram.base r + pfn * 0x1000 < a + length ∧ a < ram.base r + (pfn + 1) * 0x1000

instance (ram : RamLayout) (r a length pfn : ℕ) : Decidable (ram.Overlaps r a length pfn) :=
  inferInstanceAs (Decidable (_ ∧ _))

/-- The bytes from `a` on lie in region `r`. -/
def RamLayout.InRegion (ram : RamLayout) (r a length : ℕ) : Prop :=
  r < ram.regions.length ∧ ram.base r ≤ a ∧ a + length ≤ ram.base r + ram.size r

instance (ram : RamLayout) (r a length : ℕ) : Decidable (ram.InRegion r a length) :=
  inferInstanceAs (Decidable (_ ∧ _))

/-- The offset of address `a` of region `r` in its RAM block. `shadow_memory_init` makes one region
of a block, except of a split `pc.ram`, which it makes regions 0 and 1 of. -/
def RamLayout.blockOffset (ram : RamLayout) (r a : ℕ) : ℕ :=
  a - ram.base r + if r = 1 ∧ ram.memMappingHigh ≠ 0 then ram.size 0 else 0

def RamLayout.notified (ram : RamLayout) (addr : ℕ) : Option (ℕ × ℕ) :=
  (ram.ramOffsetToAddress (addr / 0x1000 * 0x1000)).bind fun b => (ram.ramArea b).map (·, b)

structure MemoryRegion where
  region : ℕ
  aliasOffset : ℕ

namespace FastReload

/-- `fast_reload_qemu_user_fdl_set_dirty`, as `invalidate_and_set_dirty` and
`memory_region_set_dirty` call it. The assertion does not tell `pc.ram` from other regions. -/
def setDirty (ram : RamLayout) (s : FastReload α) (mr : MemoryRegion) (addr length : ℕ) :
    Option (FastReload α) :=
  if mr.aliasOffset = 0 then
    (s.fdlUser.set ram (addr / 0x1000 * 0x1000) length).map fun fdlUser =>
      { s with fdlUser := fdlUser }
  else none

def overwritten (ram : RamLayout) (s : FastReload α) (r a length : ℕ) (contents : GuestMemory α) :
    FastReload α :=
  { s with shadow := { s.shadow with
      host := fun p => if p.1 = r ∧ ram.Overlaps r a length p.2 then contents p
        else s.shadow.host p } }

def deviceWrite (ram : RamLayout) (s : FastReload α) (mr : MemoryRegion) (a length : ℕ)
    (contents : GuestMemory α) : Option (FastReload α) :=
  if ram.InRegion mr.region a length then
    setDirty ram (s.overwritten ram mr.region a length contents) mr (ram.blockOffset mr.region a)
      length
  else none

def userFdlRestored (ram : RamLayout) (s : FastReload α) : GuestMemory α :=
  (s.fdlUser.restore ram s.blocklist s.shadow).2.1.host

/-- Page `pfn` of region `r` is on the stack. -/
def Recorded (ram : RamLayout) (s : FastReload α) (r pfn : ℕ) : Prop :=
  ∃ log, s.fdlUser.entry[r]? = some log ∧ log.Has (ram.pfn r) pfn

def RolledBack (ram : RamLayout) (s : FastReload α) (mr : MemoryRegion) (a length : ℕ) : Prop :=
  ∀ contents : GuestMemory α, ∃ s', s.deviceWrite ram mr a length contents = some s' ∧
    (∀ pfn, ram.Overlaps mr.region a length pfn → s'.Recorded ram mr.region pfn) ∧
    ∀ pfn, ram.Overlaps mr.region a length pfn → ¬ s.blocklist.Blocks ram (mr.region, pfn) →
      s'.userFdlRestored ram (mr.region, pfn) = s'.shadow.active (mr.region, pfn)

end FastReload

inductive ReloadEvent (α : Type)
  | op (op : SnapshotOp α)
  | deviceWrite (mr : MemoryRegion) (a length : ℕ) (contents : GuestMemory α)
  | blacklistPage (physaddr : ℕ)

def FastReload.next (c : Machine) (s : FastReload α) : ReloadEvent α → Option (FastReload α)
  | .op op => s.step c op
  | .deviceWrite mr a length contents => s.deviceWrite c.ram mr a length contents
  | .blacklistPage physaddr => (s.blocklist.add physaddr).map fun bl => { s with blocklist := bl }

/-! ## Setting pages -/

variable {addr : ℕ}

namespace FdlUser

def addrs (addr length : ℕ) : List ℕ :=
  (List.range ((length + 0xfff) / 0x1000)).map (currentAddr addr)

theorem setPages_eq (ram : RamLayout) (area addr length : ℕ) (log : DirtyLog ℕ ℕ) :
    setPages ram area addr length log = log.recordAll (ram.pfn area) (addrs addr length) := by
  rw [setPages, recordAll, addrs, foldl_map]

theorem mod_currentAddr (addr k : ℕ) : currentAddr addr k % 0x1000 = 0 := by
  unfold currentAddr
  omega

theorem le_currentAddr {base : ℕ} (hbase : base % 0x1000 = 0) (h : base ≤ addr) (k : ℕ) :
    base ≤ currentAddr addr k := by
  unfold currentAddr
  omega

end FdlUser

variable {ram : RamLayout} {r : ℕ}

theorem RamLayout.eq_of_pfn (hbase : ram.base r ≤ addr) (hmod : addr % 0x1000 = 0) :
    addr = ram.physAddr (r, ram.pfn r addr) := by
  have := ram.base_mod r
  simp only [physAddr, pfn]
  omega

/-! ## Finding the region -/

theorem foldl_match_eq_find? {β : Type} (P : β → Bool) (bs : List β) (b : Option β) :
    bs.foldl (fun b x => if P x = true then some x else b) b = (bs.reverse.find? P).or b := by
  induction bs generalizing b with
  | nil => rfl
  | cons x bs ih =>
    rw [List.foldl_cons, ih, List.reverse_cons, List.find?_append, Option.or_assoc]
    congr 1
    cases hx : P x <;> simp [hx]

theorem RamLayout.ramArea_eq (ram : RamLayout) (addr : ℕ) : ram.ramArea addr =
    (List.range 8).find? fun i => decide (i < ram.regions.length) &&
      fastInRange addr (ram.base i) (ram.base i + (ram.size i - 1)) := by
  have hfold := foldl_match_eq_find? (fun i => decide (i < ram.regions.length) &&
    fastInRange addr (ram.base i) (ram.base i + (ram.size i - 1))) [7, 6, 5, 4, 3, 2, 1, 0] none
  simp only [Bool.and_eq_true, decide_eq_true_eq, or_none] at hfold
  exact hfold

theorem RamLayout.base_le_of_ramArea (h : ram.ramArea addr = some r) : ram.base r ≤ addr := by
  rw [ramArea_eq] at h
  have := find?_some h
  simp only [fastInRange, Bool.and_eq_true, decide_eq_true_eq] at this
  omega

variable {a b q length : ℕ}

theorem RamLayout.ramOffsetToAddress_page (h : ram.ramOffsetToAddress addr = some a) :
    ram.ramOffsetToAddress (addr / 0x1000 * 0x1000) = some (a / 0x1000 * 0x1000) := by
  have hlow := ram.low_aligned
  have hhigh := ram.high_aligned
  unfold ramOffsetToAddress at h ⊢
  by_cases hsplit : ram.memMappingHigh = 0
  · rw [if_pos hsplit] at h ⊢
    rw [ite_none_right_eq_some] at h ⊢
    obtain ⟨hle, h⟩ := h
    obtain rfl := some_inj.1 h
    exact ⟨by omega, rfl⟩
  · rw [if_neg hsplit] at h ⊢
    by_cases hle : ram.memMappingLow ≤ addr
    · rw [if_pos hle] at h
      obtain rfl := some_inj.1 h
      rw [if_pos (by omega)]
      congr 1
      omega
    · rw [if_neg hle] at h
      obtain rfl := some_inj.1 h
      rw [if_neg (by omega)]

theorem RamLayout.notified_spec (h : ram.notified addr = some (q, b)) :
    ram.base q ≤ b ∧ b % 0x1000 = 0 := by
  obtain ⟨b', hb, h⟩ := bind_eq_some_iff.1 h
  obtain ⟨q', hq, h⟩ := map_eq_some_iff.1 h
  obtain ⟨rfl, rfl⟩ := Prod.mk.inj h
  have hpage := ramOffsetToAddress_page hb
  rw [Nat.mul_div_cancel _ (by decide : 0 < 0x1000), hb, some_inj] at hpage
  exact ⟨base_le_of_ramArea hq, by omega⟩

/-! ## The bookkeeping in every reachable state -/

structure FdlInv (c : Machine) (s : FastReload α) : Prop where
  enabled : s.fdlUser.enabled = true
  length : s.fdlUser.entry.length = c.ram.regions.length
  stack : ∀ r log, s.fdlUser.entry[r]? = some log → ∀ addr ∈ log.stack,
    c.ram.base r ≤ addr ∧ addr % 0x1000 = 0
  lost : ∀ r log, s.fdlUser.entry[r]? = some log → ∀ pfn, c.fdlBitmap r pfn = true →
    log.Lost (c.ram.pfn r) pfn
  kept : ∀ r log, s.fdlUser.entry[r]? = some log → ∀ pfn, log.Lost (c.ram.pfn r) pfn →
    c.fdlBitmap r pfn = true ∨ s.blocklist.Blocks c.ram (r, pfn)

theorem FastReload.fdlUser_step {c : Machine} {s s' : FastReload α} {op : SnapshotOp α}
    (h : s.step c op = some s') : s'.blocklist = s.blocklist ∧ (s'.fdlUser = s.fdlUser ∨
      s'.fdlUser = { s.fdlUser with
        entry := FdlUser.sweptFrom c.ram s.blocklist 0 s.fdlUser.entry }) := by
  have hrestore : ∀ {s1}, s.restoreOperation c.ram = some s1 → s1.blocklist = s.blocklist ∧
      s1.fdlUser = { s.fdlUser with entry := sweptFrom c.ram s.blocklist 0 s.fdlUser.entry } := by
    intro s1 hs1
    obtain ⟨slots, hflush, -⟩ := map_eq_some_iff.1 hs1
    rw [restoreOperation_eq hflush, some_inj] at hs1
    subst hs1
    exact ⟨rfl, rfl⟩
  cases op with
  | guestWrite i gfn data =>
    obtain ⟨slot, -, -, -, rfl⟩ := guestWrite_eq_some.1 h
    exact ⟨rfl, .inl rfl⟩
  | dirtyRingFull =>
    obtain ⟨slots, -, rfl⟩ := map_eq_some_iff.1 h
    exact ⟨rfl, .inl rfl⟩
  | restore => exact (hrestore h).imp id .inr
  | createTmp =>
    simp only [step, ite_none_left_eq_some] at h
    obtain ⟨slots, hflush, -⟩ := map_eq_some_iff.1 h.2
    have hs' := h.2
    rw [createTmpSnapshot_eq hflush, some_inj] at hs'
    subst hs'
    exact ⟨rfl, .inr rfl⟩
  | discardTmp =>
    simp only [step, discardTmpSnapshot, ite_none_right_eq_some] at h
    obtain ⟨s1, hs1, rfl⟩ := map_eq_some_iff.1 h.2
    exact (hrestore hs1).imp id .inr

theorem FastReload.setDirty_eq {s : FastReload α} (hen : s.fdlUser.enabled = true)
    (mr : MemoryRegion) (addr length : ℕ) :
    s.setDirty ram mr addr length = if mr.aliasOffset = 0 then (ram.notified addr).map fun n =>
      { s with fdlUser := { s.fdlUser with
        entry := s.fdlUser.entry.modify n.1 fun log =>
          log.recordAll (ram.pfn n.1) (FdlUser.addrs n.2 (max length 0x1000)) } } else none := by
  have hset : ∀ area b, setPages ram area b (max length 0x1000) =
      fun log => log.recordAll (ram.pfn area) (addrs b (max length 0x1000)) :=
    fun area b => funext fun log => setPages_eq ram area b _ log
  rw [setDirty, FdlUser.set, if_pos hen, RamLayout.notified]
  congr 1
  cases ram.ramOffsetToAddress (addr / 0x1000 * 0x1000) with
  | none => rfl
  | some b =>
    simp only [bind_some, hset]
    cases ram.ramArea b <;> rfl

namespace FdlInv

variable {c : Machine} {s s' : FastReload α}

theorem started (mem : GuestMemory α) (slots : List Slot) : FdlInv c (.started c mem slots) := by
  have hget : ∀ (r : ℕ) (log : DirtyLog ℕ ℕ),
      (FastReload.started c mem slots).fdlUser.entry[r]? = some log → log = ⟨c.fdlBitmap r, []⟩ := by
    intro r log hr
    simp only [FastReload.started, FdlUser.enable, FdlUser.init, getElem?_map] at hr
    obtain ⟨i, hi, rfl⟩ := map_eq_some_iff.1 hr
    obtain ⟨_, hri⟩ := List.getElem?_eq_some_iff.1 hi
    rw [getElem_range] at hri
    rw [hri]
  refine ⟨rfl, by simp [FastReload.started, FdlUser.enable, FdlUser.init], ?_, ?_, ?_⟩
  · intro r log hr addr haddr
    rw [hget r log hr] at haddr
    cases haddr
  · intro r log hr pfn hpfn
    rw [hget r log hr]
    exact ⟨hpfn, fun ⟨_, he, _⟩ => nomatch he⟩
  · intro r log hr pfn hlost
    rw [hget r log hr] at hlost
    exact .inl hlost.1

theorem of_eq (h : FdlInv c s) (hfdl : s'.fdlUser = s.fdlUser)
    (hbl : ∀ p, s.blocklist.Blocks c.ram p → s'.blocklist.Blocks c.ram p) : FdlInv c s' := by
  refine ⟨hfdl ▸ h.enabled, hfdl ▸ h.length, hfdl ▸ h.stack, hfdl ▸ h.lost, ?_⟩
  intro r log hr pfn hlost
  exact (h.kept r log (hfdl ▸ hr) pfn hlost).imp id (hbl _)

theorem swept (h : FdlInv c s) (hbl : s'.blocklist = s.blocklist) (hfdl : s'.fdlUser =
    { s.fdlUser with entry := FdlUser.sweptFrom c.ram s.blocklist 0 s.fdlUser.entry }) :
    FdlInv c s' := by
  have hget : ∀ (r : ℕ) (log' : DirtyLog ℕ ℕ), s'.fdlUser.entry[r]? = some log' →
      ∃ log, s.fdlUser.entry[r]? = some log ∧
        log' = log.drained s.blocklist.checkPhysAddr (c.ram.pfn r) := by
    intro r log' hr
    rw [hfdl, getElem?_sweptFrom] at hr
    obtain ⟨log, hlog, rfl⟩ := map_eq_some_iff.1 hr
    exact ⟨log, hlog, rfl⟩
  refine ⟨by rw [hfdl]; exact h.enabled, ?_, ?_, ?_, ?_⟩
  · rw [hfdl, ← h.length]
    simp [sweptFrom]
  · intro r log' hr addr haddr
    obtain ⟨log, -, rfl⟩ := hget r log' hr
    cases haddr
  · intro r log' hr pfn hpfn
    obtain ⟨log, hlog, rfl⟩ := hget r log' hr
    exact (h.lost r log hlog pfn hpfn).drained
  · intro r log' hr pfn hlost
    obtain ⟨log, hlog, rfl⟩ := hget r log' hr
    rcases lost_or_skipped_of_drained hlost with hlost | ⟨addr, haddr, rfl, hskip⟩
    · rw [hbl]
      exact h.kept r log hlog pfn hlost
    · obtain ⟨hbase, hmod⟩ := h.stack r log hlog addr haddr
      refine .inr ?_
      rw [hbl, Blocklist.Blocks, ← RamLayout.eq_of_pfn hbase hmod]
      exact hskip

theorem recorded (h : FdlInv c s) (hbase : c.ram.base r ≤ a) (hbl : s'.blocklist = s.blocklist)
    (hfdl : s'.fdlUser = { s.fdlUser with
      entry := s.fdlUser.entry.modify r fun log =>
        log.recordAll (c.ram.pfn r) (FdlUser.addrs a length) }) : FdlInv c s' := by
  have hget : ∀ (r' : ℕ) (log' : DirtyLog ℕ ℕ), s'.fdlUser.entry[r']? = some log' →
      ∃ log, s.fdlUser.entry[r']? = some log ∧
        (log' = log ∨ r' = r ∧ log' = log.recordAll (c.ram.pfn r) (addrs a length)) := by
    intro r' log' hr'
    rw [hfdl, getElem?_modify] at hr'
    obtain ⟨log, hlog, rfl⟩ := map_eq_some_iff.1 hr'
    refine ⟨log, hlog, ?_⟩
    by_cases hrr : r = r'
    · exact .inr ⟨hrr.symm, if_pos hrr⟩
    · exact .inl (if_neg hrr)
  refine ⟨by rw [hfdl]; exact h.enabled, ?_, ?_, ?_, ?_⟩
  · rw [hfdl, ← h.length]
    exact length_modify _ _ _
  · intro r' log' hr' addr haddr
    obtain ⟨log, hlog, rfl | ⟨rfl, rfl⟩⟩ := hget r' log' hr'
    · exact h.stack r' log' hlog addr haddr
    · rcases mem_stack_recordAll haddr with haddr | haddr
      · exact h.stack r' log hlog addr haddr
      · obtain ⟨k, -, rfl⟩ := mem_map.1 haddr
        exact ⟨le_currentAddr (c.ram.base_mod r') hbase k, mod_currentAddr a k⟩
  · intro r' log' hr' pfn hpfn
    obtain ⟨log, hlog, rfl | ⟨rfl, rfl⟩⟩ := hget r' log' hr'
    · exact h.lost r' log' hlog pfn hpfn
    · exact lost_recordAll.2 (h.lost r' log hlog pfn hpfn)
  · intro r' log' hr' pfn hlost
    rw [hbl]
    obtain ⟨log, hlog, rfl | ⟨rfl, rfl⟩⟩ := hget r' log' hr'
    · exact h.kept r' log' hlog pfn hlost
    · exact h.kept r' log hlog pfn (lost_recordAll.1 hlost)

theorem setDirty (h : FdlInv c s) {mr : MemoryRegion}
    (hs : s.setDirty c.ram mr addr length = some s') : FdlInv c s' := by
  rw [setDirty_eq h.enabled, ite_none_right_eq_some] at hs
  obtain ⟨⟨q, b⟩, hn, rfl⟩ := map_eq_some_iff.1 hs.2
  exact h.recorded (RamLayout.notified_spec hn).1 rfl rfl

theorem deviceWrite (h : FdlInv c s) {mr : MemoryRegion} {contents : GuestMemory α}
    (hs : s.deviceWrite c.ram mr a length contents = some s') : FdlInv c s' := by
  have hover : FdlInv c (s.overwritten c.ram mr.region a length contents) :=
    h.of_eq rfl fun p hp => hp
  exact hover.setDirty (ite_none_right_eq_some.1 hs).2

theorem blocks_add {bl bl' : Blocklist} {physaddr : ℕ} (h : bl.add physaddr = some bl') {p : PageId}
    (hp : bl.Blocks ram p) : bl'.Blocks ram p := by
  unfold Blocklist.add at h
  split at h
  · obtain rfl := some_inj.1 h
    exact hp
  · rw [ite_none_right_eq_some] at h
    obtain rfl := some_inj.1 h.2
    simp only [Blocklist.Blocks, Blocklist.checkPhysAddr, Bool.and_eq_true, decide_eq_true_eq] at hp ⊢
    refine ⟨hp.1, ?_⟩
    by_cases hpage : ram.physAddr p / 0x1000 = physaddr / 0x1000
    · rw [hpage, update_self]
    · rw [update_of_ne hpage]
      exact hp.2

theorem next (h : FdlInv c s) {e : ReloadEvent α} (hs : s.next c e = some s') : FdlInv c s' := by
  cases e with
  | op op =>
    obtain ⟨hbl, hfdl | hfdl⟩ := fdlUser_step hs
    · exact h.of_eq hfdl fun p hp => hbl ▸ hp
    · exact h.swept hbl hfdl
  | deviceWrite mr a length contents => exact h.deviceWrite hs
  | blacklistPage physaddr =>
    obtain ⟨bl, hbl, rfl⟩ := map_eq_some_iff.1 hs
    exact h.of_eq rfl fun p hp => blocks_add hbl hp

end FdlInv

/-! ## Which writes are rolled back -/

variable {pfn : ℕ}

theorem FdlUser.mem_map_addrs (hbase : ram.base r ≤ b) (hb : b % 0x1000 = 0) :
    pfn ∈ (addrs b length).map (ram.pfn r) ↔
      b ≤ ram.base r + pfn * 0x1000 ∧ ram.base r + pfn * 0x1000 < b + length := by
  have hmod := ram.base_mod r
  have hpfn : ∀ k, ram.pfn r (currentAddr b k) = (b - ram.base r) / 0x1000 + k := by
    intro k
    unfold RamLayout.pfn currentAddr
    omega
  simp only [addrs, List.map_map, List.mem_map, List.mem_range, Function.comp_apply, hpfn]
  constructor
  · rintro ⟨k, hk, rfl⟩
    omega
  · intro h
    exact ⟨pfn - (b - ram.base r) / 0x1000, by omega, by omega⟩

namespace FdlInv

variable {c : Machine} {s : FastReload α}

theorem recorded_iff (h : FdlInv c s) {s' : FastReload α} (hr : r < c.ram.regions.length)
    (hn : c.ram.notified addr = some (q, b))
    (hs' : s'.fdlUser.entry = s.fdlUser.entry.modify q fun log =>
      log.recordAll (c.ram.pfn q) (FdlUser.addrs b length)) :
    s'.Recorded c.ram r pfn ↔ s.Recorded c.ram r pfn ∨ q = r ∧
      b ≤ c.ram.base r + pfn * 0x1000 ∧ c.ram.base r + pfn * 0x1000 < b + length ∧
      c.fdlBitmap r pfn = false ∧
      (s.blocklist.Blocks c.ram (r, pfn) →
        ∀ log, s.fdlUser.entry[r]? = some log → log.marked pfn = false) := by
  obtain ⟨hbase, hb⟩ := RamLayout.notified_spec hn
  obtain ⟨log, hlog⟩ : ∃ log, s.fdlUser.entry[r]? = some log :=
    ⟨_, getElem?_eq_getElem (h.length ▸ hr)⟩
  have hbefore : s.Recorded c.ram r pfn ↔ log.Has (c.ram.pfn r) pfn := by
    rw [FastReload.Recorded, hlog]
    simp
  by_cases hq : q = r
  case neg =>
    have hsame : s'.Recorded c.ram r pfn ↔ s.Recorded c.ram r pfn := by
      rw [FastReload.Recorded, hs', getElem?_modify_ne _ _ hq]
      rfl
    simp [hsame, hq]
  subst hq
  have hafter : s'.Recorded c.ram q pfn ↔
      (log.recordAll (c.ram.pfn q) (addrs b length)).Has (c.ram.pfn q) pfn := by
    rw [FastReload.Recorded, hs', getElem?_modify, hlog]
    simp
  rw [hafter, hbefore, has_recordAll, mem_map_addrs hbase hb]
  simp only [true_and, and_assoc]
  refine or_congr_right' fun hno => and_congr_right fun _ => and_congr_right fun _ => ?_
  simp only [hlog, some_inj, forall_eq']
  constructor
  · intro hm
    refine ⟨?_, fun _ => hm⟩
    by_contra hset
    have := (h.lost q log hlog pfn (by simpa using hset)).1
    rw [hm] at this
    cases this
  · rintro ⟨hclear, hblocked⟩
    by_contra hm
    -- the bit is set and the page has no entry
    rcases h.kept q log hlog pfn ⟨by simpa using hm, hno⟩ with hset | hblock
    · rw [hclear] at hset
      cases hset
    · exact hm (hblocked hblock)

theorem userFdlRestored_eq (h : FdlInv c s) (hrec : s.Recorded c.ram r pfn)
    (hblock : ¬ s.blocklist.Blocks c.ram (r, pfn)) :
    s.userFdlRestored c.ram (r, pfn) = s.shadow.active (r, pfn) := by
  obtain ⟨log, hlog, addr, haddr, rfl⟩ := hrec
  obtain ⟨hbase, hmod⟩ := h.stack r log hlog addr haddr
  rw [userFdlRestored, restore, sweep_eq]
  simp only [ShadowMemory.foldl_restorePage]
  refine if_pos (mem_pagesAt_placesFrom.2 ⟨log, hlog, addr, haddr, ?_, rfl⟩)
  rw [Blocklist.Blocks, ← RamLayout.eq_of_pfn hbase hmod] at hblock
  simpa using hblock

end FdlInv

/-- **Which device writes are rolled back**, in every reachable state. -/
theorem rolledBack_iff {c : Machine} {mem : GuestMemory α} {vm s : FastReload α}
    {events : List (ReloadEvent α)} {mr : MemoryRegion} {a length : ℕ}
    (hinit : FastReload.init c mem = some vm) (hrun : exec (FastReload.next c) vm events = some s)
    (hin : c.ram.InRegion mr.region a length) :
    s.RolledBack c.ram mr a length ↔ mr.aliasOffset = 0 ∧
      ∃ q b, c.ram.notified (c.ram.blockOffset mr.region a) = some (q, b) ∧
        ∀ pfn, c.ram.Overlaps mr.region a length pfn → s.Recorded c.ram mr.region pfn ∨
          q = mr.region ∧ b ≤ c.ram.base mr.region + pfn * 0x1000 ∧
          c.ram.base mr.region + pfn * 0x1000 < b + max length 0x1000 ∧
          c.fdlBitmap mr.region pfn = false ∧
          (s.blocklist.Blocks c.ram (mr.region, pfn) →
            ∀ log, s.fdlUser.entry[mr.region]? = some log → log.marked pfn = false) := by
  obtain ⟨slots, -, rfl⟩ := map_eq_some_iff.1 hinit
  have hinv : FdlInv c s := exec_invariant (I := FdlInv c) (fun _ _ _ hI hs => hI.next hs)
    (FdlInv.started mem slots) hrun
  have hwrite : ∀ contents, s.deviceWrite c.ram mr a length contents = if mr.aliasOffset = 0 then
      (c.ram.notified (c.ram.blockOffset mr.region a)).map fun n =>
        { s.overwritten c.ram mr.region a length contents with fdlUser := { s.fdlUser with
          entry := s.fdlUser.entry.modify n.1 fun log => log.recordAll (c.ram.pfn n.1)
            (addrs n.2 (max length 0x1000)) } } else none := by
    intro contents
    rw [deviceWrite, if_pos hin]
    exact setDirty_eq (s := s.overwritten c.ram mr.region a length contents) hinv.enabled mr _ _
  constructor
  · intro h
    obtain ⟨s', hs', hrec, -⟩ := h s.shadow.host
    rw [hwrite, ite_none_right_eq_some] at hs'
    obtain ⟨hmr, hs'⟩ := hs'
    obtain ⟨⟨q, b⟩, hn, rfl⟩ := map_eq_some_iff.1 hs'
    exact ⟨hmr, q, b, hn, fun pfn hover => (hinv.recorded_iff hin.1 hn rfl).1 (hrec pfn hover)⟩
  · rintro ⟨hmr, q, b, hn, h⟩ contents
    have hs' := hwrite contents
    rw [if_pos hmr, hn, map_some] at hs'
    refine ⟨_, hs', fun pfn hover => (hinv.recorded_iff hin.1 hn rfl).2 (h pfn hover),
      fun pfn hover hblock => (hinv.deviceWrite hs').userFdlRestored_eq ?_ hblock⟩
    exact (hinv.recorded_iff hin.1 hn rfl).2 (h pfn hover)

def sixteenPages (fdlBitmap : ℕ → ℕ → Bool) : Machine where
  ram := {
    regions := [.ofPages 0 0x10, .ofPages 0x100 0x10]
    length_lt := Nat.le_add_left 3 0xfd
    memMappingLow := 0x10 * 0x1000
    memMappingHigh := 0
    low_aligned := pages_aligned 0x10
    high_aligned := zero_aligned }
  kvmSlots := [.ofPages 0 0x10 false, .ofPages 0x100 0x10 false]
  blocklist := ⟨0x10000, fun _ => false⟩
  heap := fun _ _ => false
  fdlBitmap := fdlBitmap
  fits := Nat.le_add_left 2 6

theorem rolledBack_sixteenPages : ∃ vm,
    FastReload.init (sixteenPages fun _ _ => false) (fun _ => false) = some vm ∧
      vm.RolledBack (sixteenPages fun _ _ => false).ram ⟨0, 0⟩ 0x2000 0x1800 := by
  have hboot : (init (sixteenPages fun _ _ => false) fun _ => false).isSome = true := by
    decide +kernel
  obtain ⟨vm, hvm⟩ := isSome_iff_exists.1 hboot
  have hbase : (sixteenPages fun _ _ => false).ram.base (MemoryRegion.mk 0 0).region = 0 := rfl
  refine ⟨vm, hvm, (rolledBack_iff hvm (exec_nil vm) (by decide +kernel)).2
    ⟨rfl, 0, 0x2000, by decide +kernel, fun pfn hover => ?_⟩⟩
  obtain ⟨-, hend, hstart⟩ := hover
  refine .inr ⟨rfl, by omega, by omega, rfl, ?_⟩
  -- nothing is blocklisted
  obtain ⟨slots, -, rfl⟩ := map_eq_some_iff.1 hvm
  intro hblock
  simp [Blocklist.Blocks, Blocklist.checkPhysAddr, started, sixteenPages] at hblock

/-- A page that a device overwrites is not blocklisted and differs from the snapshot after the
restore. -/
def KeepsWrite (bit : Bool) (mr : MemoryRegion) (a pfn : ℕ) : Prop :=
  ∃ vm s', FastReload.init (sixteenPages fun _ _ => bit) (fun _ => false) = some vm ∧
    vm.deviceWrite (sixteenPages fun _ _ => bit).ram mr a 4 (fun _ => true) = some s' ∧
    (sixteenPages fun _ _ => bit).ram.Overlaps mr.region a 4 pfn ∧
    ¬ vm.blocklist.Blocks (sixteenPages fun _ _ => bit).ram (mr.region, pfn) ∧
    s'.userFdlRestored (sixteenPages fun _ _ => bit).ram (mr.region, pfn) = true ∧
    s'.shadow.active (mr.region, pfn) = false

theorem keepsWrite_of_run {bit : Bool} {mr : MemoryRegion} {a pfn : ℕ}
    (h : ((init (sixteenPages fun _ _ => bit) fun _ => false).bind fun vm =>
      (vm.deviceWrite (sixteenPages fun _ _ => bit).ram mr a 4 fun _ => true).map fun s' =>
        (decide (vm.blocklist.Blocks (sixteenPages fun _ _ => bit).ram (mr.region, pfn)),
          s'.userFdlRestored (sixteenPages fun _ _ => bit).ram (mr.region, pfn),
          s'.shadow.active (mr.region, pfn))) = some (false, true, false))
    (hover : (sixteenPages fun _ _ => bit).ram.Overlaps mr.region a 4 pfn) :
    KeepsWrite bit mr a pfn := by
  obtain ⟨vm, hvm, h⟩ := bind_eq_some_iff.1 h
  obtain ⟨s', hs', h⟩ := map_eq_some_iff.1 h
  obtain ⟨hblock, h⟩ := Prod.mk.inj h
  obtain ⟨hhost, hactive⟩ := Prod.mk.inj h
  exact ⟨vm, s', hvm, hs', hover, of_decide_eq_false hblock, hhost, hactive⟩

/-- **Device writes that are not rolled back.** -/
theorem sixteenPages_not_rolledBack :
    KeepsWrite false ⟨0, 0⟩ 0x1ffe 2 ∧ KeepsWrite true ⟨0, 0⟩ 0x2000 2 ∧
      KeepsWrite false ⟨1, 0⟩ 0x102000 2 :=
  ⟨keepsWrite_of_run (by decide +kernel) (by decide +kernel),
    keepsWrite_of_run (by decide +kernel) (by decide +kernel),
    keepsWrite_of_run (by decide +kernel) (by decide +kernel)⟩

end FuzzSocketCan.Qemu
