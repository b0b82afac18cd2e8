import Mathlib.Algebra.GroupWithZero.Nat
import Mathlib.Tactic.Common

/-! # The page walk

`get_48_paging_phys_addr` translates a virtual address of the guest. The code reads the frame of
every page from bit 12 on; in the leaf entry of a large page the attributes begin there.

* **`leaf`**, **`translate`** — what the processor does, in numbers.
* **`get48PagingPhysAddr_eq_iff`** — the code is right exactly if those bits are clear. -/

namespace FuzzSocketCan.Qemu

open Option

/-- Aligned words, `none` where there is none. -/
abbrev PhysMem := BitVec 64 → Option (BitVec 64)

def invalidAddress : BitVec 64 := 0xFFFFFFFFFFFFFFFF

def readMemory (mem : PhysMem) (readFromSnapshot : Bool) (address : BitVec 64) :
    Option (BitVec 64) :=
  if address = invalidAddress then none
  else if readFromSnapshot then mem address
  else some ((mem address).getD 0)

def bit (value : BitVec 64) (lsb : ℕ) : Bool := value >>> lsb &&& 1 == 1

def bits (value : BitVec 64) (lsb msb : ℕ) : BitVec 64 :=
  (value &&& ((0xffffffffffffffff : BitVec 64) >>> (64 - (msb - lsb + 1))) <<< lsb) >>> lsb

/-- 0 for an entry that is not present. -/
def loadEntry (mem : PhysMem) (readFromSnapshot : Bool) (address index : BitVec 64) : BitVec 64 :=
  match readMemory mem readFromSnapshot (address + index * 8) with
  | none => 0
  | some entry => if bit entry 0 then entry else 0

def get48PagingPhysAddr (mem : PhysMem) (cr3 addr : BitVec 64) (readFromSnapshot : Bool) :
    BitVec 64 :=
  let pml4Address := bits cr3 12 51 <<< 12
  let pml4Offset := bits addr 39 47
  let pml4Entry := loadEntry mem readFromSnapshot pml4Address pml4Offset
  if pml4Entry = 0 then invalidAddress
  else
    let pdpteAddress := bits pml4Entry 12 51 <<< 12
    let pdpteOffset := bits addr 30 38
    let pdpteEntry := loadEntry mem readFromSnapshot pdpteAddress pdpteOffset
    if pdpteEntry = 0 then invalidAddress
    else if bit pdpteEntry 7 then
      -- a page of 1 GiB
      bits pdpteEntry 12 51 <<< 12 + bits addr 0 29
    else
      let pdeAddress := bits pdpteEntry 12 51 <<< 12
      let pdeOffset := bits addr 21 29
      let pdeEntry := loadEntry mem readFromSnapshot pdeAddress pdeOffset
      if pdeEntry = 0 then invalidAddress
      else if bit pdeEntry 7 then
        -- a page of 2 MiB
        bits pdeEntry 12 51 <<< 12 + bits addr 0 20
      else
        let pteAddress := bits pdeEntry 12 51 <<< 12
        let pteOffset := bits addr 12 20
        let pteEntry := loadEntry mem readFromSnapshot pteAddress pteOffset
        if pteEntry = 0 then invalidAddress
        else bits pteEntry 12 51 <<< 12 + bits addr 0 11

/-! ## What the processor does -/

def field (value : BitVec 64) (lsb stop : ℕ) : ℕ := value.toNat / 2 ^ lsb % 2 ^ (stop - lsb)

def entryAt (mem : PhysMem) (frame index : ℕ) : Option (BitVec 64) :=
  (mem (BitVec.ofNat 64 (frame * 2 ^ 12 + index * 8))).filter fun entry => field entry 0 1 = 1

structure Leaf where
  /-- The page has `2 ^ pageBits` bytes. -/
  pageBits : ℕ
  entry : BitVec 64

/-- **The walk of the processor** with four levels. -/
def leaf (mem : PhysMem) (cr3 addr : BitVec 64) : Option Leaf := do
  let pml4e ← entryAt mem (field cr3 12 52) (field addr 39 48)
  let pdpte ← entryAt mem (field pml4e 12 52) (field addr 30 39)
  if field pdpte 7 8 = 1 then return ⟨30, pdpte⟩
  let pde ← entryAt mem (field pdpte 12 52) (field addr 21 30)
  if field pde 7 8 = 1 then return ⟨21, pde⟩
  let pte ← entryAt mem (field pde 12 52) (field addr 12 21)
  return ⟨12, pte⟩

def Leaf.phys (l : Leaf) (addr : BitVec 64) : ℕ :=
  field l.entry l.pageBits 52 * 2 ^ l.pageBits + field addr 0 l.pageBits

/-- **The translation of the processor**, `none` where an entry is not present. -/
def translate (mem : PhysMem) (cr3 addr : BitVec 64) : Option ℕ :=
  (leaf mem cr3 addr).map (·.phys addr)

def Leaf.Aligned (l : Leaf) : Prop := field l.entry 12 l.pageBits = 0

/-- The page has one of the three sizes. -/
def Leaf.Sized (l : Leaf) : Prop := l.pageBits = 12 ∨ l.pageBits = 21 ∨ l.pageBits = 30

def Leaf.unmasked (l : Leaf) (addr : BitVec 64) : ℕ :=
  field l.entry 12 52 * 2 ^ 12 + field addr 0 l.pageBits

/-! ## Fields of a word -/

theorem field_lt (v : BitVec 64) (lsb stop : ℕ) : field v lsb stop < 2 ^ (stop - lsb) :=
  Nat.mod_lt _ (Nat.two_pow_pos _)

theorem toNat_bits (v : BitVec 64) {lsb msb : ℕ} (h : lsb ≤ msb) (hmsb : msb < 64) :
    (bits v lsb msb).toNat = field v lsb (msb + 1) := by
  have hones : (0xffffffffffffffff : BitVec 64) = BitVec.allOnes 64 := by decide
  apply Nat.eq_of_testBit_eq
  intro i
  rw [bits, hones, field, Nat.testBit_mod_two_pow, Nat.testBit_div_two_pow, BitVec.testBit_toNat,
    BitVec.testBit_toNat]
  simp only [BitVec.getLsbD_ushiftRight, BitVec.getLsbD_and, BitVec.getLsbD_shiftLeft,
    BitVec.getLsbD_allOnes]
  by_cases hi : lsb + i < 64
  · simp [hi]
    grind
  · -- both sides are beyond the word
    rw [BitVec.getLsbD_of_ge _ _ (by omega), BitVec.getLsbD_of_ge _ _ (by omega)]
    simp

variable {n : ℕ}

theorem bit_iff {v : BitVec 64} : bit v n = true ↔ field v n (n + 1) = 1 := by
  have hnat : (v >>> n &&& 1).toNat = field v n (n + 1) := by
    rw [BitVec.toNat_and, BitVec.toNat_ushiftRight, Nat.shiftRight_eq_div_pow, field,
      Nat.add_sub_cancel_left]
    exact Nat.and_one_is_mod _
  rw [bit, beq_iff_eq, ← BitVec.toNat_inj, hnat]
  rfl

theorem frame_add_offset (e addr : BitVec 64) (h : 0 < n) (hn : n ≤ 30) :
    bits e 12 51 <<< 12 + bits addr 0 (n - 1) =
      BitVec.ofNat 64 (field e 12 52 * 2 ^ 12 + field addr 0 n) := by
  apply BitVec.eq_of_toNat_eq
  rw [BitVec.toNat_add, BitVec.toNat_shiftLeft, toNat_bits e (by decide) (by decide),
    toNat_bits addr (Nat.zero_le _) (by omega), Nat.sub_add_cancel h, BitVec.toNat_ofNat,
    Nat.shiftLeft_eq, Nat.mod_add_mod]

theorem loadEntry_eq (mem : PhysMem) (readFromSnapshot : Bool) (table addr : BitVec 64)
    {lsb msb : ℕ} (h : lsb ≤ msb) (hmsb : msb < 64) :
    loadEntry mem readFromSnapshot (bits table 12 51 <<< 12) (bits addr lsb msb) =
      (entryAt mem (field table 12 52) (field addr lsb (msb + 1))).getD 0 := by
  have haddress : bits table 12 51 <<< 12 + bits addr lsb msb * 8 =
      BitVec.ofNat 64 (field table 12 52 * 2 ^ 12 + field addr lsb (msb + 1) * 8) := by
    apply BitVec.eq_of_toNat_eq
    rw [BitVec.toNat_add, BitVec.toNat_shiftLeft, BitVec.toNat_mul,
      toNat_bits table (by decide) (by decide), toNat_bits addr (by omega) hmsb,
      BitVec.toNat_ofNat, Nat.shiftLeft_eq, ← Nat.add_mod]
    rfl
  -- an entry is aligned, so its address is not the invalid one
  have hvalid : BitVec.ofNat 64 (field table 12 52 * 2 ^ 12 + field addr lsb (msb + 1) * 8) ≠
      invalidAddress := by
    intro heq
    have hnat := congrArg (fun v => BitVec.toNat v % 8) heq
    rw [BitVec.toNat_ofNat] at hnat
    have hodd : invalidAddress.toNat % 8 = 7 := by decide
    omega
  rw [loadEntry, readMemory, haddress, if_neg hvalid, entryAt]
  cases mem (BitVec.ofNat 64 (field table 12 52 * 2 ^ 12 + field addr lsb (msb + 1) * 8)) with
  | none => cases readFromSnapshot <;> rfl
  | some entry =>
    have hread : (if readFromSnapshot then some entry else some ((some entry).getD 0)) =
        some entry := by
      cases readFromSnapshot <;> rfl
    rw [hread, filter_some]
    by_cases hpresent : field entry 0 1 = 1
    · rw [if_pos (decide_eq_true hpresent)]
      exact if_pos (bit_iff.2 hpresent)
    · rw [if_neg (by simpa using hpresent)]
      exact if_neg (mt bit_iff.1 hpresent)

theorem ne_zero_of_entryAt {mem : PhysMem} {frame index : ℕ} {entry : BitVec 64}
    (h : entryAt mem frame index = some entry) : entry ≠ 0 := by
  rintro rfl
  have hpresent := (filter_eq_some_iff.1 h).2
  exact absurd hpresent (by decide)

/-! ## The walk -/

theorem get48PagingPhysAddr_eq (mem : PhysMem) (cr3 addr : BitVec 64) (readFromSnapshot : Bool) :
    get48PagingPhysAddr mem cr3 addr readFromSnapshot =
      (leaf mem cr3 addr).elim invalidAddress fun l => BitVec.ofNat 64 (l.unmasked addr) := by
  simp only [get48PagingPhysAddr, leaf, bind_eq_bind, pure_def]
  rw [loadEntry_eq mem readFromSnapshot cr3 addr (by decide) (by decide)]
  cases hpml4 : entryAt mem (field cr3 12 52) (field addr 39 48) with
  | none => rfl
  | some pml4e =>
  rw [getD_some, if_neg (ne_zero_of_entryAt hpml4), bind_some,
    loadEntry_eq mem readFromSnapshot pml4e addr (by decide) (by decide)]
  cases hpdpt : entryAt mem (field pml4e 12 52) (field addr 30 39) with
  | none => rfl
  | some pdpte =>
  rw [getD_some, if_neg (ne_zero_of_entryAt hpdpt), bind_some]
  by_cases hlarge : field pdpte 7 8 = 1
  · rw [if_pos (bit_iff.2 hlarge), if_pos hlarge]
    exact frame_add_offset pdpte addr (n := 30) (by decide) (by decide)
  rw [if_neg (mt bit_iff.1 hlarge), if_neg hlarge,
    loadEntry_eq mem readFromSnapshot pdpte addr (by decide) (by decide)]
  cases hpd : entryAt mem (field pdpte 12 52) (field addr 21 30) with
  | none => rfl
  | some pde =>
  rw [getD_some, if_neg (ne_zero_of_entryAt hpd), bind_some]
  by_cases hlarge' : field pde 7 8 = 1
  · rw [if_pos (bit_iff.2 hlarge'), if_pos hlarge']
    exact frame_add_offset pde addr (n := 21) (by decide) (by decide)
  rw [if_neg (mt bit_iff.1 hlarge'), if_neg hlarge',
    loadEntry_eq mem readFromSnapshot pde addr (by decide) (by decide)]
  cases hpt : entryAt mem (field pde 12 52) (field addr 12 21) with
  | none => rfl
  | some pte =>
  rw [getD_some, if_neg (ne_zero_of_entryAt hpt), bind_some]
  exact frame_add_offset pte addr (n := 12) (by decide) (by decide)

theorem frame_eq_iff (e : BitVec 64) (h : 12 ≤ n) (hn : n ≤ 52) :
    field e 12 52 * 2 ^ 12 = field e n 52 * 2 ^ n ↔ field e 12 n = 0 := by
  -- the bits from 12 on are the frame and the bits below it
  have hsplit : field e 12 52 = field e n 52 * 2 ^ (n - 12) + field e 12 n := by
    have hpow : 2 ^ (52 - 12) = 2 ^ (n - 12) * 2 ^ (52 - n) := by
      rw [← pow_add]
      congr 1
      omega
    have hdiv : e.toNat / 2 ^ n = e.toNat / 2 ^ 12 / 2 ^ (n - 12) := by
      rw [Nat.div_div_eq_div_mul, ← pow_add]
      congr 2
      omega
    rw [field, field, field, hpow, hdiv, Nat.mod_mul, mul_comm, add_comm]
  have hpow : 2 ^ n = 2 ^ (n - 12) * 2 ^ 12 := by
    rw [← pow_add]
    congr 1
    omega
  rw [hsplit, hpow, ← mul_assoc]
  constructor
  · intro heq
    omega
  · intro hzero
    rw [hzero, add_zero]

theorem sized_of_leaf {mem : PhysMem} {cr3 addr : BitVec 64} {l : Leaf}
    (h : leaf mem cr3 addr = some l) : l.Sized := by
  simp only [leaf, bind_eq_bind, pure_def, bind_eq_some_iff] at h
  obtain ⟨pml4e, -, pdpte, -, h⟩ := h
  split at h
  · obtain rfl := some.inj h
    exact .inr (.inr rfl)
  obtain ⟨pde, -, h⟩ := bind_eq_some_iff.1 h
  split at h
  · obtain rfl := some.inj h
    exact .inr (.inl rfl)
  obtain ⟨pte, -, h⟩ := bind_eq_some_iff.1 h
  obtain rfl := some.inj h
  exact .inl rfl

theorem Leaf.Sized.le {l : Leaf} (h : l.Sized) : 12 ≤ l.pageBits ∧ l.pageBits ≤ 30 := by
  rcases h with h | h | h <;> omega

theorem Leaf.Sized.ofNat_unmasked_eq_iff {l : Leaf} (h : l.Sized) (addr : BitVec 64) :
    BitVec.ofNat 64 (l.unmasked addr) = BitVec.ofNat 64 (l.phys addr) ↔ l.Aligned := by
  have hframe := field_lt l.entry 12 52
  have hlarge := field_lt l.entry l.pageBits 52
  have hoffset := field_lt addr 0 l.pageBits
  have hiff := frame_eq_iff l.entry h.le.1 (by have := h.le; omega)
  have hfit : l.unmasked addr < 2 ^ 64 ∧ l.phys addr < 2 ^ 64 := by
    rw [Leaf.unmasked, Leaf.phys]
    rcases h with h | h | h
    all_goals
      rw [h] at hlarge hoffset ⊢
      omega
  rw [Leaf.Aligned, ← hiff, ← BitVec.toNat_inj, BitVec.toNat_ofNat, BitVec.toNat_ofNat,
    Nat.mod_eq_of_lt hfit.1, Nat.mod_eq_of_lt hfit.2, Leaf.unmasked, Leaf.phys,
    add_right_cancel_iff]

/-- **The walk is right exactly if the leaf is aligned.** -/
theorem get48PagingPhysAddr_eq_iff (mem : PhysMem) (cr3 addr : BitVec 64)
    (readFromSnapshot : Bool) :
    get48PagingPhysAddr mem cr3 addr readFromSnapshot =
        (translate mem cr3 addr).elim invalidAddress (BitVec.ofNat 64) ↔
      ∀ l ∈ leaf mem cr3 addr, l.Aligned := by
  rw [get48PagingPhysAddr_eq, translate]
  cases hl : leaf mem cr3 addr with
  | none => simp
  | some l =>
    simp only [map_some, elim_some, mem_some_iff, forall_eq']
    exact (sized_of_leaf hl).ofNat_unmasked_eq_iff addr

def patTables : PhysMem := fun address =>
  if address = 0x1000 then some 0x2003
  else if address = 0x2000 then some 0x3003
  else if address = 0x3000 then some 0x201083
  else none

/-- **The attribute of a large page ends up in its address.** -/
theorem get48PagingPhysAddr_pat :
    translate patTables 0x1000 0 = some 0x200000 ∧
      get48PagingPhysAddr patTables 0x1000 0 false = 0x201000 := by decide

end FuzzSocketCan.Qemu
