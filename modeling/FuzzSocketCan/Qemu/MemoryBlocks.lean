import FuzzSocketCan.Lib.Execution
import FuzzSocketCan.Lib.Patches
import FuzzSocketCan.Qemu.StateReallocation
import Mathlib.Data.List.Pairwise

/-! # The memory blocks of the devices

`add_mblock` keeps the saved blocks in three arrays, and their contents in one block of memory. A
range that begins where the last one ends is joined to it, whose contents are next to it
(`MblockTable.Inv.last`).

* **`addMblock_refines`** — the arrays stand for a list of blocks.
* **`fdlFastReload_restores`** — a reload brings back every registered byte. -/

namespace FuzzSocketCan.Qemu

open Lib List Function StateReallocation

/-! ## The arrays -/

def preAllocBlockSize : ℕ := 0x8000000

def reallocSize : ℕ := 0x8000

/-- The part of `state_reallocation_t` that `add_mblock` uses. The arrays have `fastStateSize`
elements; one of `copy` is an offset in `preAllocBlock`. -/
structure MblockTable where
  ptr : ℕ → ℕ
  copy : ℕ → ℕ
  size : ℕ → ℕ
  fastStatePos : ℕ
  fastStateSize : ℕ
  preAllocBlock : Mem
  preAllocBlockOffset : ℕ

namespace MblockTable

/-- The start of `state_reallocation_new`. -/
def new (ptr copy size : ℕ → ℕ) (preAllocBlock : Mem) : MblockTable :=
  ⟨ptr, copy, size, 0, reallocSize, preAllocBlock, 0⟩

/-- `none` where it writes behind the block or behind an array. -/
def addMblock (self : MblockTable) (mem : Mem) (start size : ℕ) : Option MblockTable :=
  if preAllocBlockSize < self.preAllocBlockOffset + size then none
  else
    let self' := { self with
      preAllocBlock := storeAt self.preAllocBlock self.preAllocBlockOffset (bytesAt mem start size)
      preAllocBlockOffset := self.preAllocBlockOffset + size }
    if self.fastStatePos ≠ 0 ∧
        self.ptr (self.fastStatePos - 1) + self.size (self.fastStatePos - 1) = start then
      some { self' with
        size := update self.size (self.fastStatePos - 1)
          (size + self.size (self.fastStatePos - 1)) }
    else if self.fastStatePos < self.fastStateSize then
      some { self' with
        ptr := update self.ptr self.fastStatePos start
        copy := update self.copy self.fastStatePos self.preAllocBlockOffset
        size := update self.size self.fastStatePos size
        fastStatePos := self.fastStatePos + 1
        fastStateSize :=
          if self.fastStateSize ≤ self.fastStatePos + 1 then self.fastStateSize + reallocSize
          else self.fastStateSize }
    else none

def block (self : MblockTable) (i : ℕ) : SavedBlock :=
  ⟨self.ptr i, bytesAt self.preAllocBlock (self.copy i) (self.size i)⟩

def blocks (self : MblockTable) : List SavedBlock := (List.range self.fastStatePos).map self.block

structure Inv (t : MblockTable) : Prop where
  pos_lt : t.fastStatePos < t.fastStateSize
  copied : ∀ i < t.fastStatePos, t.copy i + t.size i ≤ t.preAllocBlockOffset
  last : ∀ i, i + 1 = t.fastStatePos → t.copy i + t.size i = t.preAllocBlockOffset

theorem inv_new (ptr copy size : ℕ → ℕ) (preAllocBlock : Mem) :
    (new ptr copy size preAllocBlock).Inv := by
  refine ⟨Nat.zero_lt_succ _, ?_, ?_⟩
  · intro i hi
    exact absurd hi (Nat.not_lt_zero i)
  · intro i hi
    exact absurd hi (Nat.succ_ne_zero i)

theorem bytesAt_storeAt_of_le {pre : Mem} {offset a n : ℕ} (bs : List UInt8)
    (h : a + n ≤ offset) : bytesAt (storeAt pre offset bs) a n = bytesAt pre a n := by
  apply bytesAt_congr
  intro i hi
  exact storeAt_of_lt (by omega)

variable {t : MblockTable} {size : ℕ}

theorem addMblock_joined {start k : ℕ} (h : t.Inv) (hpos : t.fastStatePos = k + 1)
    (hfits : t.preAllocBlockOffset + size ≤ preAllocBlockSize) (dev : Devices)
    (hjoined : t.ptr k + t.size k = start) :
    ∃ t', t.addMblock dev.mem start size = some t' ∧ t'.Inv ∧
      t'.preAllocBlockOffset = t.preAllocBlockOffset + size ∧
      t'.blocks = (List.range k).map t.block ++
        [⟨t.ptr k, (t.block k).copy ++ bytesAt dev.mem start size⟩] := by
  have hlast := h.last k hpos.symm
  rw [addMblock, if_neg (Nat.not_lt.2 hfits), hpos, Nat.add_sub_cancel,
    if_pos ⟨Nat.succ_ne_zero k, hjoined⟩]
  refine ⟨_, rfl, ⟨hpos ▸ h.pos_lt, ?_, ?_⟩, rfl, ?_⟩
  · intro i hi
    dsimp only at hi ⊢
    rcases eq_or_ne i k with rfl | hne
    · rw [update_self]
      omega
    · rw [update_of_ne hne]
      have hcopied := h.copied i (by omega)
      omega
  · intro i hi
    dsimp only at hi ⊢
    obtain rfl : i = k := Nat.succ.inj hi
    rw [update_self]
    omega
  · rw [blocks]
    rw [range_succ, map_append, map_singleton]
    congr 1
    · -- the other blocks
      apply map_congr_left
      intro i hi
      have hik := mem_range.1 hi
      rw [block, block]
      dsimp only
      rw [update_of_ne (ne_of_lt hik),
        bytesAt_storeAt_of_le _ (h.copied i (by omega))]
    · rw [block, block]
      dsimp only
      rw [update_self, add_comm size, bytesAt_add,
        bytesAt_storeAt_of_le _ (le_of_eq hlast), hlast, bytesAt_storeAt _ _ (length_bytesAt _ _ _)]

theorem addMblock_new {start : ℕ} (h : t.Inv)
    (hfits : t.preAllocBlockOffset + size ≤ preAllocBlockSize) (dev : Devices)
    (hnew : ¬(t.fastStatePos ≠ 0 ∧
      t.ptr (t.fastStatePos - 1) + t.size (t.fastStatePos - 1) = start)) :
    ∃ t', t.addMblock dev.mem start size = some t' ∧ t'.Inv ∧
      t'.preAllocBlockOffset = t.preAllocBlockOffset + size ∧
      t'.blocks = t.blocks ++ [⟨start, bytesAt dev.mem start size⟩] := by
  rw [addMblock, if_neg (not_lt.2 hfits), if_neg hnew, if_pos h.pos_lt]
  refine ⟨_, rfl, ⟨?_, ?_, ?_⟩, rfl, ?_⟩
  · dsimp only
    have hpos := h.pos_lt
    unfold reallocSize
    split <;> omega
  · intro i hi
    dsimp only at hi ⊢
    rcases eq_or_ne i t.fastStatePos with rfl | hne
    · rw [update_self, update_self]
    · rw [update_of_ne hne, update_of_ne hne]
      have hcopied := h.copied i (by omega)
      omega
  · intro i hi
    dsimp only at hi ⊢
    obtain rfl : i = t.fastStatePos := Nat.succ.inj hi
    rw [update_self, update_self]
  · rw [blocks, blocks]
    rw [range_succ, map_append, map_singleton]
    congr 1
    · apply map_congr_left
      intro i hi
      have hik := mem_range.1 hi
      have hne := ne_of_lt hik
      rw [block, block]
      dsimp only
      rw [update_of_ne hne, update_of_ne hne, update_of_ne hne,
        bytesAt_storeAt_of_le _ (h.copied i hik)]
    · rw [block]
      dsimp only
      rw [update_self, update_self, update_self,
        bytesAt_storeAt _ _ (length_bytesAt _ _ _)]

theorem addMblock_refines (h : t.Inv) (hfits : t.preAllocBlockOffset + size ≤ preAllocBlockSize)
    (st : StateReallocation) (hst : st.blocks = t.blocks) (dev : Devices) (start : ℕ) :
    ∃ t', t.addMblock dev.mem start size = some t' ∧ t'.Inv ∧
      t'.preAllocBlockOffset = t.preAllocBlockOffset + size ∧
      (st.addMblock dev start size).blocks = t'.blocks := by
  cases hpos : t.fastStatePos with
  | zero =>
    have hnil : t.blocks = [] := by
      rw [blocks, hpos]
      rfl
    rcases addMblock_new h hfits dev fun hand => hand.1 hpos with
      ⟨t', hadd, hinv, hoffset, hblocks⟩
    refine ⟨t', hadd, hinv, hoffset, ?_⟩
    rw [StateReallocation.addMblock, hst, hblocks, hnil]
    rfl
  | succ k =>
    have hconcat : t.blocks = (List.range k).map t.block ++ [t.block k] := by
      rw [blocks, hpos, range_succ, map_append, map_singleton]
    have hlast : st.blocks.getLast? = some (t.block k) := by
      rw [hst, hconcat, getLast?_concat]
    have hend : (t.block k).ptr + (t.block k).copy.length = t.ptr k + t.size k := by
      rw [block, length_bytesAt]
    rw [StateReallocation.addMblock, hlast]
    dsimp only
    rw [hend]
    by_cases hjoined : t.ptr k + t.size k = start
    · rcases addMblock_joined h hpos hfits dev hjoined with
        ⟨t', hadd, hinv, hoffset, hblocks⟩
      refine ⟨t', hadd, hinv, hoffset, ?_⟩
      rw [if_pos hjoined, hblocks, hst, hconcat, dropLast_concat]
      rfl
    · have hnew : ¬(t.fastStatePos ≠ 0 ∧
          t.ptr (t.fastStatePos - 1) + t.size (t.fastStatePos - 1) = start) := by
        rw [hpos, Nat.add_sub_cancel]
        exact fun hand => hjoined hand.2
      rcases addMblock_new h hfits dev hnew with ⟨t', hadd, hinv, hoffset, hblocks⟩
      refine ⟨t', hadd, hinv, hoffset, ?_⟩
      rw [if_neg hjoined, hblocks, hst]

end MblockTable

/-! ## Registering -/

structure Registration where
  mem : Mem
  start : ℕ
  size : ℕ

def Registration.Covers (r : Registration) (i : ℕ) : Prop := r.start ≤ i ∧ i < r.start + r.size

def Registration.Disjoint (r r' : Registration) : Prop := ∀ i, r.Covers i → ¬r'.Covers i

instance : Std.Symm Registration.Disjoint := ⟨fun _ _ h i hi hi' => h i hi' hi⟩

theorem Registration.disjoint_iff {r r' : Registration} :
    r.Disjoint r' ↔ r.size = 0 ∨ r'.size = 0 ∨ r.start + r.size ≤ r'.start ∨
      r'.start + r'.size ≤ r.start := by
  unfold Disjoint Covers
  constructor
  · intro h
    have hlater := h (max r.start r'.start)
    omega
  · intro h i hi hi'
    omega

instance (r r' : Registration) : Decidable (r.Disjoint r') :=
  decidable_of_iff _ Registration.disjoint_iff.symm

def MblockTable.registerAll (self : MblockTable) (regs : List Registration) : Option MblockTable :=
  regs.foldlM (fun t r => t.addMblock r.mem r.start r.size) self

def Saves (blocks : List SavedBlock) (i : ℕ) (v : UInt8) : Prop :=
  ∃ b ∈ blocks, Gives b.ptr b.copy i v

theorem saves_append {xs ys : List SavedBlock} {i : ℕ} {v : UInt8} :
    Saves (xs ++ ys) i v ↔ Saves xs i v ∨ Saves ys i v := by
  simp only [Saves, mem_append, or_and_right, exists_or]

theorem saves_singleton {b : SavedBlock} {i : ℕ} {v : UInt8} :
    Saves [b] i v ↔ Gives b.ptr b.copy i v := by
  simp only [Saves, mem_singleton, exists_eq_left]

theorem saves_addMblock (st : StateReallocation) (dev : Devices) (start size : ℕ) {i : ℕ}
    {v : UInt8} :
    Saves (st.addMblock dev start size).blocks i v ↔
      Saves st.blocks i v ∨ start ≤ i ∧ i < start + size ∧ v = dev.mem i := by
  have hrange : Gives start (bytesAt dev.mem start size) i v ↔
      start ≤ i ∧ i < start + size ∧ v = dev.mem i := by
    rw [gives_bytesAt]
    refine and_congr_right fun hle => ?_
    rw [Nat.add_sub_cancel' hle]
  have hnew : Saves (st.blocks ++ [⟨start, bytesAt dev.mem start size⟩]) i v ↔
      Saves st.blocks i v ∨ start ≤ i ∧ i < start + size ∧ v = dev.mem i := by
    rw [saves_append, saves_singleton, hrange]
  rw [← hnew]
  unfold addMblock
  split
  case h_1 last hlast =>
    split
    case isTrue hjoined =>
      have hconcat := dropLast_append_getLast? last hlast
      rw [← hconcat, dropLast_concat]
      simp only [saves_append, saves_singleton, gives_append, hjoined, or_assoc]
    case isFalse => rfl
  case h_2 => rfl

theorem MblockTable.registerAll_spec {t : MblockTable} {regs : List Registration} (h : t.Inv)
    (hfits : t.preAllocBlockOffset + (regs.map Registration.size).sum ≤ preAllocBlockSize) :
    ∃ t', t.registerAll regs = some t' ∧ ∀ i v, Saves t'.blocks i v ↔
      Saves t.blocks i v ∨ ∃ r ∈ regs, r.Covers i ∧ v = r.mem i := by
  induction regs generalizing t with
  | nil => exact ⟨t, rfl, fun i v => by simp⟩
  | cons r regs ih =>
    rw [map_cons, sum_cons] at hfits
    have hroom : t.preAllocBlockOffset + r.size ≤ preAllocBlockSize := by omega
    rcases addMblock_refines h hroom ⟨t.blocks, [], [], [], false⟩ rfl ⟨r.mem, fun _ => []⟩
      r.start with ⟨t1, hadd, hinv, hoffset, hblocks⟩
    rcases ih hinv (by omega) with ⟨t', hrest, hsaves⟩
    refine ⟨t', ?_, fun i v => ?_⟩
    · rw [registerAll, foldlM_cons]
      exact (congrArg (· >>= _) hadd).trans hrest
    · rw [hsaves, ← hblocks, saves_addMblock, or_assoc]
      refine or_congr_right ?_
      simp only [mem_cons, exists_eq_or_imp, Registration.Covers, and_assoc]

/-! ## Reloading -/

structure FastState where
  table : MblockTable
  fptrs : List RecordedCallback
  tmpCopy : ℕ → Mem
  tmpEnabled : Bool

namespace FastState

def toStateReallocation (self : FastState) : StateReallocation where
  blocks := self.table.blocks
  fptrs := self.fptrs
  gets := []
  tmpCopy := (List.range self.table.fastStatePos).map fun i =>
    bytesAt (self.tmpCopy i) 0 (self.table.size i)
  tmpEnabled := self.tmpEnabled

def callAll (self : FastState) (pre : Bool) (dev : Devices) : Devices :=
  self.toStateReallocation.callAll pre dev

def memcpyAll (self : FastState) (src : ℕ → List UInt8) (dev : Devices) : Devices :=
  (List.range self.table.fastStatePos).foldl
    (fun dev i => { dev with mem := storeAt dev.mem (self.table.ptr i) (src i) }) dev

def fdlFastReload (self : FastState) (dev : Devices) : Devices :=
  let dev := self.callAll true dev
  let dev :=
    if !self.tmpEnabled then
      self.memcpyAll
        (fun i => bytesAt self.table.preAllocBlock (self.table.copy i) (self.table.size i)) dev
    else self.memcpyAll (fun i => bytesAt (self.tmpCopy i) 0 (self.table.size i)) dev
  self.callAll false dev

def fdlFastCreateTmp (self : FastState) (dev : Devices) : FastState × Devices :=
  let dev := self.callAll true dev
  let tmpCopy := fun i =>
    if i < self.table.fastStatePos then
      storeAt (self.tmpCopy i) 0 (bytesAt dev.mem (self.table.ptr i) (self.table.size i))
    else self.tmpCopy i
  ({ self with tmpCopy := tmpCopy }, self.callAll false dev)

def fdlFastEnableTmp (self : FastState) : FastState := { self with tmpEnabled := true }

def fdlFastDisableTmp (self : FastState) : FastState := { self with tmpEnabled := false }

variable {st : FastState} {dev : Devices}

theorem memcpyAll_eq (src : ℕ → List UInt8) (dev : Devices) :
    st.memcpyAll src dev = st.toStateReallocation.copyBack
      ((List.range st.table.fastStatePos).map src) dev := by
  rw [copyBack, toStateReallocation, MblockTable.blocks, zip_map',
    foldl_map]
  rfl

theorem fdlFastReload_eq (st : FastState) (dev : Devices) :
    st.fdlFastReload dev = st.toStateReallocation.fdlFastReload dev := by
  have hcopies : st.toStateReallocation.blocks.map SavedBlock.copy =
      (range st.table.fastStatePos).map fun i =>
        bytesAt st.table.preAllocBlock (st.table.copy i) (st.table.size i) := by
    rw [toStateReallocation, MblockTable.blocks, map_map]
    rfl
  rw [fdlFastReload, StateReallocation.fdlFastReload, hcopies, memcpyAll_eq, memcpyAll_eq]
  cases hen : st.tmpEnabled with
  | false =>
    rw [show st.toStateReallocation.tmpEnabled = false from hen]
    rfl
  | true =>
    rw [show st.toStateReallocation.tmpEnabled = true from hen]
    rfl

theorem fdlFastCreateTmp_eq (st : FastState) (dev : Devices) :
    (st.fdlFastCreateTmp dev).1.toStateReallocation =
      (st.toStateReallocation.fdlFastCreateTmp dev).1 := by
  rw [fdlFastCreateTmp, StateReallocation.fdlFastCreateTmp]
  rw [toStateReallocation]
  dsimp only
  congr 1
  rw [toStateReallocation, MblockTable.blocks, map_map]
  apply map_congr_left
  intro i hi
  rw [if_pos (mem_range.1 hi), bytesAt_storeAt _ _ (length_bytesAt _ _ _)]
  simp only [comp_apply, MblockTable.block, length_bytesAt]
  rfl

end FastState

/-! ## What is copied back -/

def patches (blocks : List SavedBlock) (copies : List (List UInt8)) : List (ℕ × List UInt8) :=
  (blocks.zip copies).map fun b => (b.1.ptr, b.2)

theorem patches_map (f : SavedBlock → List UInt8) (blocks : List SavedBlock) :
    patches blocks (blocks.map f) = blocks.map fun b => (b.ptr, f b) := by
  induction blocks with
  | nil => rfl
  | cons b bs ih => exact congrArg ((b.ptr, f b) :: ·) ih

namespace StateReallocation

variable {self : StateReallocation} {i : ℕ} {v : UInt8}

theorem mem_copyBack (copies : List (List UInt8)) (dev : Devices) :
    (self.copyBack copies dev).mem = storeAll dev.mem (patches self.blocks copies) := by
  rw [copyBack, storeAll, patches, foldl_map]
  induction self.blocks.zip copies generalizing dev with
  | nil => rfl
  | cons b bs ih => exact ih _

def copies (self : StateReallocation) : List (List UInt8) :=
  if self.tmpEnabled then self.tmpCopy else self.blocks.map SavedBlock.copy

theorem mem_fdlFastReload (hfptrs : ∀ f ∈ self.fptrs, ∀ dev, (f.run dev).1.mem i = dev.mem i)
    (h : Supplies (patches self.blocks self.copies) i v) (dev : Devices) :
    (self.fdlFastReload dev).mem i = v := by
  have hcall := fun pre dev => callAll_eq (·.mem i) hfptrs pre dev
  unfold copies at h
  unfold fdlFastReload
  rw [hcall]
  split at h
  case isTrue hen => rw [if_pos hen, mem_copyBack, h.storeAll_eq]
  case isFalse hen => rw [if_neg hen, mem_copyBack, h.storeAll_eq]

theorem supplies_copy (hsaves : Saves self.blocks i v) (hone : ∀ w, Saves self.blocks i w → w = v) :
    Supplies (patches self.blocks (self.blocks.map SavedBlock.copy)) i v := by
  rw [patches_map]
  constructor
  · intro p hp w hw
    rcases mem_map.1 hp with ⟨b, hb, rfl⟩
    exact hone w ⟨b, hb, hw⟩
  · rcases hsaves with ⟨b, hb, hgives⟩
    exact ⟨_, mem_map_of_mem hb, hgives⟩

theorem supplies_bytesAt (mem : Mem) (hsaves : Saves self.blocks i v) :
    Supplies (patches self.blocks (self.blocks.map fun b => bytesAt mem b.ptr b.copy.length)) i
      (mem i) := by
  rw [patches_map]
  constructor
  · intro p hp w hw
    rcases mem_map.1 hp with ⟨b, hb, rfl⟩
    rcases gives_bytesAt.1 hw with ⟨hle, -, rfl⟩
    rw [Nat.add_sub_cancel' hle]
  · rcases hsaves with ⟨b, hb, hle, hgives⟩
    have hlt := (List.getElem?_eq_some_iff.1 hgives).1
    refine ⟨_, mem_map_of_mem hb, gives_bytesAt.2 ⟨hle, by omega, ?_⟩⟩
    rw [Nat.add_sub_cancel' hle]

end StateReallocation

/-! ## Whole runs -/

structure DeviceRun where
  state : FastState
  dev : Devices
  tmp : Option Mem

inductive DeviceOp where
  /-- The devices change. -/
  | change (dev : Devices)
  | createTmp
  | enableTmp
  | disableTmp
  | reload

namespace DeviceRun

def step (s : DeviceRun) : DeviceOp → Option DeviceRun
  | .change dev => some { s with dev := dev }
  | .createTmp =>
    let (state, dev) := s.state.fdlFastCreateTmp s.dev
    some ⟨state, dev, some s.dev.mem⟩
  | .enableTmp => some { s with state := s.state.fdlFastEnableTmp }
  | .disableTmp => some { s with state := s.state.fdlFastDisableTmp }
  | .reload => some { s with dev := s.state.fdlFastReload s.dev }

def Meets (s : DeviceRun) : DeviceOp → Prop
  | .enableTmp => s.tmp.isSome = true
  | _ => True

/-- **A reload brings back the registered bytes** of the registration, or of the last tmp snapshot
if it is enabled. -/
def Restores (regs : List Registration) (s : DeviceRun) : DeviceOp → Prop
  | .reload => ∀ r ∈ regs, ∀ i, r.Covers i →
      (s.state.tmpEnabled = false → (s.state.fdlFastReload s.dev).mem i = r.mem i) ∧
      (s.state.tmpEnabled = true →
        ∃ mem, s.tmp = some mem ∧ (s.state.fdlFastReload s.dev).mem i = mem i)
  | _ => True

structure Inv (regs : List Registration) (s : DeviceRun) : Prop where
  fptrs : ∀ f ∈ s.state.fptrs, ∀ r ∈ regs, ∀ i, r.Covers i → ∀ dev,
    (f.run dev).1.mem i = dev.mem i
  saves : ∀ i v, Saves s.state.toStateReallocation.blocks i v ↔
    ∃ r ∈ regs, r.Covers i ∧ v = r.mem i
  tmp : ∀ mem, s.tmp = some mem → ∀ r ∈ regs, ∀ i, r.Covers i →
    Supplies (patches s.state.toStateReallocation.blocks s.state.toStateReallocation.tmpCopy) i
      (mem i)
  enabled : s.state.tmpEnabled = true → s.tmp.isSome = true

variable {regs : List Registration} {s s' : DeviceRun}

theorem Inv.createTmp (h : s.Inv regs) :
    Inv regs ⟨(s.state.fdlFastCreateTmp s.dev).1, (s.state.fdlFastCreateTmp s.dev).2,
      some s.dev.mem⟩ := by
  refine ⟨h.fptrs, h.saves, ?_, fun _ => rfl⟩
  intro mem hmem r hr i hi
  cases hmem
  -- the routines before the copy leave the byte alone
  have hcall : (s.state.callAll true s.dev).mem i = s.dev.mem i :=
    callAll_eq (·.mem i) (fun f hf => h.fptrs f hf r hr i hi) true s.dev
  rw [FastState.fdlFastCreateTmp_eq, ← hcall]
  exact supplies_bytesAt _ ((h.saves i (r.mem i)).2 ⟨r, hr, hi, rfl⟩)

theorem Inv.step (h : s.Inv regs) {op : DeviceOp} (hmeets : s.Meets op)
    (hstep : s.step op = some s') : s'.Inv regs := by
  cases op with
  | change dev =>
    cases hstep
    exact ⟨h.fptrs, h.saves, h.tmp, h.enabled⟩
  | createTmp =>
    cases hstep
    exact h.createTmp
  | enableTmp =>
    cases hstep
    exact ⟨h.fptrs, h.saves, h.tmp, fun _ => hmeets⟩
  | disableTmp =>
    cases hstep
    refine ⟨h.fptrs, h.saves, h.tmp, fun hen => ?_⟩
    cases hen
  | reload =>
    cases hstep
    exact ⟨h.fptrs, h.saves, h.tmp, h.enabled⟩

theorem Inv.eq_of_saves (h : s.Inv regs) (hdisjoint : regs.Pairwise Registration.Disjoint)
    {r : Registration} (hr : r ∈ regs) {i : ℕ} (hi : r.Covers i) {w : UInt8}
    (hw : Saves s.state.toStateReallocation.blocks i w) : w = r.mem i := by
  rcases (h.saves i w).1 hw with ⟨r', hr', hi', rfl⟩
  by_cases hsame : r' = r
  · rw [hsame]
  · exact absurd hi (hdisjoint.forall hr' hr hsame i hi')

theorem Inv.restores (h : s.Inv regs) (hdisjoint : regs.Pairwise Registration.Disjoint)
    (op : DeviceOp) : s.Restores regs op := by
  cases op with
  | reload =>
    intro r hr i hi
    have hfptrs := fun f hf => h.fptrs f hf r hr i hi
    rw [FastState.fdlFastReload_eq]
    constructor
    · intro hdisabled
      refine mem_fdlFastReload hfptrs ?_ s.dev
      rw [copies,
        if_neg (Bool.eq_false_iff.1 (show s.state.toStateReallocation.tmpEnabled = false from
          hdisabled))]
      exact supplies_copy ((h.saves i _).2 ⟨r, hr, hi, rfl⟩)
        fun w hw => h.eq_of_saves hdisjoint hr hi hw
    · intro henabled
      rcases Option.isSome_iff_exists.1 (h.enabled henabled) with ⟨mem, hmem⟩
      refine ⟨mem, hmem, mem_fdlFastReload hfptrs ?_ s.dev⟩
      rw [copies,
        if_pos (show s.state.toStateReallocation.tmpEnabled = true from henabled)]
      exact h.tmp mem hmem r hr i hi
  | change dev => trivial
  | createTmp => trivial
  | enableTmp => trivial
  | disableTmp => trivial

end DeviceRun

/-- **Device memory is restored**: every reload brings back the registered bytes. -/
theorem fdlFastReload_restores {regs : List Registration} {fptrs : List RecordedCallback}
    (hdisjoint : regs.Pairwise Registration.Disjoint)
    (hfits : (regs.map Registration.size).sum ≤ preAllocBlockSize)
    (hfptrs : ∀ f ∈ fptrs, ∀ r ∈ regs, ∀ i, r.Covers i → ∀ dev, (f.run dev).1.mem i = dev.mem i)
    (ptr copy size : ℕ → ℕ) (preAllocBlock : Mem) :
    ∃ table, (MblockTable.new ptr copy size preAllocBlock).registerAll regs = some table ∧
      ∀ (tmpCopy : ℕ → Mem) (dev : Devices) (ops : List DeviceOp),
        EachStep DeviceRun.step DeviceRun.Meets ⟨⟨table, fptrs, tmpCopy, false⟩, dev, none⟩ ops →
          EachStep DeviceRun.step (DeviceRun.Restores regs)
            ⟨⟨table, fptrs, tmpCopy, false⟩, dev, none⟩ ops := by
  rcases MblockTable.registerAll_spec (MblockTable.inv_new ptr copy size preAllocBlock)
    ((zero_add _).trans_le hfits) with ⟨table, htable, hsaves⟩
  refine ⟨table, htable, fun tmpCopy dev ops hmeets => ?_⟩
  have hstart : DeviceRun.Inv regs ⟨⟨table, fptrs, tmpCopy, false⟩, dev, none⟩ := by
    refine ⟨hfptrs, fun i v => (hsaves i v).trans (or_iff_right ?_), ?_, ?_⟩
    · rintro ⟨b, hb, -⟩
      cases hb
    · intro mem hmem
      cases hmem
    · intro hen
      cases hen
  exact hmeets.of_invariant (fun _ _ _ hinv hop hs => hinv.step hop hs)
    (fun _ op hinv _ => hinv.restores hdisjoint op) hstart

def threeRanges : List Registration :=
  [⟨fun _ => 1, 0x10, 4⟩, ⟨fun _ => 2, 0x14, 2⟩, ⟨fun _ => 3, 0xc, 4⟩]

def clearAndReload : List DeviceOp :=
  [.change ⟨fun _ => 0, fun _ => []⟩, .createTmp, .enableTmp, .change ⟨fun _ => 9, fun _ => []⟩,
    .reload, .disableTmp, .reload]

theorem fdlFastReload_restores_threeRanges :
    ∃ table, (MblockTable.new id id id fun _ => 0).registerAll threeRanges = some table ∧
      table.fastStatePos = 2 ∧
      EachStep DeviceRun.step (DeviceRun.Restores threeRanges)
        ⟨⟨table, [], fun _ _ => 0, false⟩, ⟨fun _ => 0, fun _ => []⟩, none⟩ clearAndReload := by
  have hdisjoint : threeRanges.Pairwise Registration.Disjoint := by decide
  have hfptrs : ∀ f ∈ ([] : List RecordedCallback), ∀ r ∈ threeRanges, ∀ i, r.Covers i → ∀ dev,
      (f.run dev).1.mem i = dev.mem i := by
    intro f hf
    cases hf
  rcases fdlFastReload_restores hdisjoint (by decide) hfptrs id id id fun _ => 0 with
    ⟨table, htable, hruns⟩
  refine ⟨table, htable, ?_, hruns _ _ _ ?_⟩
  · have hpos : ((MblockTable.new id id id fun _ => 0).registerAll threeRanges).map
        MblockTable.fastStatePos = some 2 := by decide
    rw [htable] at hpos
    exact Option.some.inj hpos
  · simp [EachStep, DeviceRun.Meets, DeviceRun.step, clearAndReload]

end FuzzSocketCan.Qemu
