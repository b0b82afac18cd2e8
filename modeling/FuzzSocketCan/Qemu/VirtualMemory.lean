import FuzzSocketCan.Lib.LittleEndian
import FuzzSocketCan.Lib.Pages
import FuzzSocketCan.Qemu.PageWalk

/-! # Reading the virtual memory of the guest

`read_virtual_memory` walks the page tables for each page of a range, and is to fill a page
without a mapping with spaces. But the result of the walk is masked before it is compared to
`INVALID_ADDRESS`: such a page is read at `0xFFFFFFFFFFFFF000`, where QEMU reads zeros.

* **`readVirtualMemory_right_iff`** — the buffer is right just if every address is mapped, and the
  leaf entry has no bits set below the frame of a large page, or the byte at the address with these
  bits added is the same.
* **`readVirtualMemory_unmapped`** — a page without a mapping gives a zero. -/

namespace FuzzSocketCan.Qemu

open Lib List Option

/-! ## The code -/

/-- `none` where there is none. Physical addresses have 52 bits. -/
structure PhysMemory where
  byte : BitVec 64 → Option UInt8
  byte_eq_none : ∀ a, 2 ^ 52 ≤ a.toNat → byte a = none

namespace PhysMemory

def read (mem : PhysMemory) (a : BitVec 64) : UInt8 := (mem.byte a).getD 0

def readRange (mem : PhysMemory) (a : BitVec 64) (n : ℕ) : List UInt8 := (places a n).map mem.read

def words (mem : PhysMemory) : PhysMem := fun a => some (BitVec.ofNat 64 (ofLe (mem.readRange a 8)))

end PhysMemory

/-- `next_page - address` -/
def toNextPage (address : BitVec 64) : BitVec 64 := pageBase address + 4096 - address

theorem toNat_toNextPage (address : BitVec 64) :
    (toNextPage address).toNat = 4096 - (pageOffset address).toNat := by
  have hbase := toNat_pageBase address
  rw [toNextPage, BitVec.toNat_sub, BitVec.toNat_add, hbase, toNat_pageOffset]
  have h4096 : (4096 : BitVec 64).toNat = 4096 := rfl
  omega

def readLoop (mem : PhysMemory) (walk : BitVec 64 → BitVec 64) (address : BitVec 64) (left : ℕ) :
    List UInt8 :=
  if h : left = 0 then []
  else
    let lenToCopy := min left 4096
    let physAddr := walk address &&& 0xFFFFFFFFFFFFF000
    if physAddr = invalidAddress then
      let lenSkipped := min left (toNextPage address).toNat
      have : left - lenSkipped < left := by
        have := toNat_toNextPage address
        have := pageOffset_lt address
        omega
      List.replicate lenSkipped 0x20 ++
        readLoop mem walk (address + BitVec.ofNat 64 lenSkipped) (left - lenSkipped)
    else
      let remainingOnPage := 4096 - (pageOffset address).toNat
      let lenToCopy := min lenToCopy remainingOnPage
      have : left - lenToCopy < left := by
        have := pageOffset_lt address
        omega
      mem.readRange (physAddr + pageOffset address) lenToCopy ++
        readLoop mem walk (address + BitVec.ofNat 64 lenToCopy) (left - lenToCopy)
termination_by left

def readVirtualMemory (mem : PhysMemory) (cr3 address : BitVec 64) (size : ℕ) : List UInt8 :=
  readLoop mem (fun addr => get48PagingPhysAddr mem.words cr3 addr false) address size

/-! ## The loop -/

section Loop

variable {mem : PhysMemory} {walk : BitVec 64 → BitVec 64}

theorem masked_ne_invalidAddress (a : BitVec 64) : a &&& 0xFFFFFFFFFFFFF000 ≠ invalidAddress := by
  intro h
  have hnat := congrArg BitVec.toNat h
  have hbase := toNat_pageBase a
  have hinvalid : invalidAddress.toNat = 2 ^ 64 - 1 := rfl
  rw [pageBase] at hbase
  omega

def readAddress (walk : BitVec 64 → BitVec 64) (a : BitVec 64) : BitVec 64 :=
  pageBase (walk a) + pageOffset a

theorem readLoop_eq_pagewise (a : BitVec 64) (n : ℕ) :
    readLoop mem walk a n = pagewise (fun a n => mem.readRange (readAddress walk a) n) a n := by
  induction n using Nat.strong_induction_on generalizing a with
  | _ n ih =>
    rw [readLoop, pagewise]
    split
    · rfl
    · next hpos =>
        have hlt := onPage_pos a hpos
        have hlen : min (min n 4096) (4096 - (pageOffset a).toNat) = onPage a n := by
          unfold onPage
          omega
        simp only [masked_ne_invalidAddress, if_false, hlen]
        rw [ih (n - onPage a n) (by omega)]
        rfl

theorem readLoop_eq_map
    (hwalk : ∀ a b, pageBase a = pageBase b → pageBase (walk a) = pageBase (walk b)) (a : BitVec 64)
    (n : ℕ) : readLoop mem walk a n = (places a n).map fun b => mem.read (readAddress walk b) := by
  rw [readLoop_eq_pagewise]
  refine pagewise_eq_map (fun a n hn => ?_) a n
  rw [PhysMemory.readRange, places, places, List.map_map, List.map_map]
  refine List.map_congr_left fun i hi => ?_
  have hinside := inside_of_lt_onPage (Nat.lt_of_lt_of_le (List.mem_range.1 hi) hn)
  simp only [Function.comp_apply, readAddress]
  rw [hwalk _ _ (pageBase_add hinside), pageOffset_add hinside, BitVec.add_assoc]

end Loop

/-! ## The walk and the pages -/

section Walk

variable {mem : PhysMem} {cr3 a b : BitVec 64}

theorem field_eq_of_pageBase_eq (h : pageBase a = pageBase b) {lsb : ℕ} (hlsb : 12 ≤ lsb)
    (stop : ℕ) : field a lsb stop = field b lsb stop := by
  have hpage : a.toNat / 4096 = b.toNat / 4096 := by
    have hnat := congrArg BitVec.toNat h
    rw [toNat_pageBase, toNat_pageBase] at hnat
    omega
  have hpow : 2 ^ lsb = 4096 * 2 ^ (lsb - 12) := by
    rw [show 4096 = 2 ^ 12 from rfl, ← pow_add, Nat.add_sub_of_le hlsb]
  rw [field, field, hpow, ← Nat.div_div_eq_div_mul, ← Nat.div_div_eq_div_mul, hpage]

theorem leaf_eq_of_pageBase_eq (mem : PhysMem) (cr3 : BitVec 64) (h : pageBase a = pageBase b) :
    leaf mem cr3 a = leaf mem cr3 b := by
  unfold leaf
  rw [field_eq_of_pageBase_eq h (by decide : 12 ≤ 39),
    field_eq_of_pageBase_eq h (by decide : 12 ≤ 30)]
  simp only [field_eq_of_pageBase_eq h (by decide : 12 ≤ 21),
    field_eq_of_pageBase_eq h (by decide : 12 ≤ 12)]

theorem field_zero_split (a : BitVec 64) {n : ℕ} (hn : 12 ≤ n) :
    field a 0 n = field a 12 n * 4096 + a.toNat % 4096 := by
  have hpow : 2 ^ n = 2 ^ 12 * 2 ^ (n - 12) := by rw [← pow_add, Nat.add_sub_of_le hn]
  rw [field, field, pow_zero, Nat.div_one, Nat.sub_zero, hpow, Nat.mod_mul]
  omega

theorem Leaf.Sized.toNat_unmasked {l : Leaf} (h : l.Sized) (a : BitVec 64) :
    (BitVec.ofNat 64 (l.unmasked a)).toNat =
      (field l.entry 12 52 + field a 12 l.pageBits) * 4096 + a.toNat % 4096 := by
  have hframe := field_lt l.entry 12 52
  have hpage := field_lt a 12 l.pageBits
  rw [BitVec.toNat_ofNat, Leaf.unmasked, field_zero_split a h.le.1]
  rcases h with h | h | h
  all_goals
    rw [h] at hpage ⊢
    omega

theorem Leaf.Sized.pageBase_unmasked {l : Leaf} (h : l.Sized) (hpage : pageBase a = pageBase b) :
    pageBase (BitVec.ofNat 64 (l.unmasked a)) = pageBase (BitVec.ofNat 64 (l.unmasked b)) := by
  apply BitVec.eq_of_toNat_eq
  rw [toNat_pageBase, toNat_pageBase, h.toNat_unmasked, h.toNat_unmasked,
    field_eq_of_pageBase_eq hpage (le_refl 12)]
  omega

theorem Leaf.Sized.readAddress_eq {l : Leaf} (h : l.Sized) {walk : BitVec 64 → BitVec 64}
    (hwalk : walk a = BitVec.ofNat 64 (l.unmasked a)) :
    readAddress walk a = BitVec.ofNat 64 (l.unmasked a) := by
  have hoffset : pageOffset a = pageOffset (BitVec.ofNat 64 (l.unmasked a)) := by
    apply BitVec.eq_of_toNat_eq
    rw [toNat_pageOffset, toNat_pageOffset, h.toNat_unmasked]
    omega
  rw [readAddress, hwalk, hoffset, pageBase_add_pageOffset]

theorem pageBase_get48PagingPhysAddr (readFromSnapshot : Bool) (h : pageBase a = pageBase b) :
    pageBase (get48PagingPhysAddr mem cr3 a readFromSnapshot) =
      pageBase (get48PagingPhysAddr mem cr3 b readFromSnapshot) := by
  rw [get48PagingPhysAddr_eq, get48PagingPhysAddr_eq, leaf_eq_of_pageBase_eq mem cr3 h]
  cases hl : leaf mem cr3 b with
  | none => rfl
  | some l => exact (sized_of_leaf hl).pageBase_unmasked h

theorem le_readAddress_of_no_leaf (hl : leaf mem cr3 a = none) :
    2 ^ 52 ≤ (readAddress (fun addr => get48PagingPhysAddr mem cr3 addr false) a).toNat := by
  have hlt := pageOffset_lt a
  have hinvalid : invalidAddress.toNat = 2 ^ 64 - 1 := rfl
  rw [readAddress, get48PagingPhysAddr_eq, hl, elim_none, BitVec.toNat_add,
    toNat_pageBase, hinvalid]
  omega

end Walk

/-! ## What is read -/

section Read

variable (mem : PhysMemory) (cr3 : BitVec 64)

/-- **What is to be read**: the byte at the translation, or a space. -/
def virtualByte (a : BitVec 64) : UInt8 :=
  match translate mem.words cr3 a with
  | some p => mem.read (BitVec.ofNat 64 p)
  | none => 0x20

theorem readVirtualMemory_eq (address : BitVec 64) (size : ℕ) :
    readVirtualMemory mem cr3 address size = (places address size).map fun b =>
      mem.read (readAddress (fun addr => get48PagingPhysAddr mem.words cr3 addr false) b) :=
  readLoop_eq_map (fun _ _ => pageBase_get48PagingPhysAddr false) address size

theorem read_eq_virtualByte_iff (a : BitVec 64) :
    mem.read (readAddress (fun addr => get48PagingPhysAddr mem.words cr3 addr false) a) =
        virtualByte mem cr3 a ↔
      ∃ l, leaf mem.words cr3 a = some l ∧ (l.Aligned ∨
        mem.read (BitVec.ofNat 64 (l.unmasked a)) = mem.read (BitVec.ofNat 64 (l.phys a))) := by
  rw [virtualByte, translate]
  cases hl : leaf mem.words cr3 a with
  | none =>
    -- zero is read where a space should be
    have hzero := mem.byte_eq_none _ (le_readAddress_of_no_leaf hl)
    refine iff_of_false (fun h => ?_) ?_
    · rw [PhysMemory.read, hzero] at h
      have hspace : (0 : UInt8) = 0x20 := h
      exact absurd hspace (by decide)
    · rintro ⟨l, h, -⟩
      cases h
  | some l =>
    have hsized := sized_of_leaf hl
    have hwalk : get48PagingPhysAddr mem.words cr3 a false = BitVec.ofNat 64 (l.unmasked a) := by
      rw [get48PagingPhysAddr_eq, hl, elim_some]
    rw [hsized.readAddress_eq hwalk]
    simp only [map_some, Option.some.injEq, exists_eq_left']
    refine ⟨.inr, fun h => h.elim (fun haligned => ?_) id⟩
    rw [(hsized.ofNat_unmasked_eq_iff a).2 haligned]

/-- **When reading is right**: all is mapped, by aligned leaves or where the byte is the same. -/
theorem readVirtualMemory_right_iff (address : BitVec 64) (size : ℕ) :
    readVirtualMemory mem cr3 address size =
        (places address size).map (virtualByte mem cr3) ↔
      ∀ a ∈ places address size, ∃ l, leaf mem.words cr3 a = some l ∧ (l.Aligned ∨
        mem.read (BitVec.ofNat 64 (l.unmasked a)) = mem.read (BitVec.ofNat 64 (l.phys a))) := by
  rw [readVirtualMemory_eq, map_inj_left]
  exact forall₂_congr fun a _ => read_eq_virtualByte_iff mem cr3 a

end Read

def noMemory : PhysMemory := ⟨fun _ => none, fun _ _ => rfl⟩

theorem readVirtualMemory_unmapped :
    translate noMemory.words 0 0x1000 = none ∧ readVirtualMemory noMemory 0 0x1000 1 = [0] ∧
      readVirtualMemory noMemory 0 0x1000 1 ≠ (places 0x1000 1).map (virtualByte noMemory 0) := by
  have hread : readVirtualMemory noMemory 0 0x1000 1 = [0] := by
    rw [readVirtualMemory_eq]
    rfl
  refine ⟨by decide, hread, ?_⟩
  rw [hread]
  decide

end FuzzSocketCan.Qemu
