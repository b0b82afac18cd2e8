import FuzzSocketCan.Lib.ChunkBuffer
import FuzzSocketCan.Lib.Pages
import FuzzSocketCan.Qemu.ShadowMemory

/-! # Reading the root snapshot

`shadow_memory_read_physical_memory` cuts a range at the page boundaries and looks up the region
of each piece.

* **`readPhysicalLoop_eq`** — it copies what a pass through the single addresses finds.
* **`isSome_rootByte`** — an address is found if its page lies in a region whose end has not
  become 0.
* **`readPhysicalMemory_right`** — what a read returns. -/

namespace FuzzSocketCan.Qemu

open Lib List Option

/-! ## The code -/

abbrev PageBytes := Fin 0x1000 → UInt8

def regionByte (mem : GuestMemory PageBytes) (region offset : ℕ) : UInt8 :=
  mem (pageAt region offset) ⟨offset % 0x1000, Nat.mod_lt offset (Nat.succ_pos 0xfff)⟩

/-- The test of `shadow_memory_read_page_frame`. -/
def RamRegion.contains (r : RamRegion) (address : BitVec 64) : Bool :=
  decide (r.base ≤ address.toNat) && decide (address.toNat < (r.base + r.size) % 2 ^ 64)

/-- `copy_bytes` in a round of the loop. -/
def copyBytes (currentAddress : BitVec 64) (bytesLeft : ℕ) : ℕ :=
  let copyBytes := if currentAddress &&& 0xFFF = 0 then 0x1000
    else 0x1000 - (currentAddress &&& 0xFFF).toNat
  if bytesLeft < copyBytes then bytesLeft else copyBytes

theorem and_low_eq (a : BitVec 64) : a &&& 0xFFF = pageOffset a := rfl

theorem copyBytes_eq (a : BitVec 64) (n : ℕ) : copyBytes a n = onPage a n := by
  unfold copyBytes onPage
  rw [and_low_eq]
  by_cases hzero : pageOffset a = 0
  · have hnat : (pageOffset a).toNat = 0 := by rw [hzero]; rfl
    rw [if_pos hzero, hnat]
    dsimp only
    split <;> omega
  · rw [if_neg hzero]
    dsimp only
    split <;> omega

section

variable (ram : RamLayout) (sh : ShadowMemory PageBytes)

def readPageFrame (address : BitVec 64) (offset size : ℕ) : Option (Option (List UInt8)) :=
  if offset + size ≤ 0x1000 then
    some ((ram.regions.findIdx? (·.contains address)).map fun i =>
      (List.range size).map fun k =>
        regionByte sh.snapshot i (address.toNat - ram.base i + offset + k))
  else none

def readPhysicalLoop (mem : Mem) (ptr : ℕ) (currentAddress : BitVec 64) (offset bytesLeft : ℕ) :
    Option (Bool × Mem) :=
  if h : bytesLeft = 0 then some (true, mem)
  else
    have : bytesLeft - copyBytes currentAddress bytesLeft < bytesLeft := by
      rw [copyBytes_eq]
      exact Nat.sub_lt (pos_of_ne_zero h) (onPage_pos currentAddress h)
    let n := copyBytes currentAddress bytesLeft
    match readPageFrame ram sh (currentAddress &&& ~~~0xFFF) (currentAddress &&& 0xFFF).toNat n with
    | none => none
    | some none => some (false, mem)
    | some (some bytes) =>
      readPhysicalLoop (storeAt mem (ptr + offset) bytes) ptr (currentAddress + BitVec.ofNat 64 n)
        (offset + n) (bytesLeft - n)
termination_by bytesLeft

/-- `shadow_memory_read_physical_memory` -/
def readPhysicalMemory (address : BitVec 64) (mem : Mem) (ptr size : ℕ) : Option (Bool × Mem) :=
  readPhysicalLoop ram sh mem ptr address 0 size

/-! ## Address by address -/

def rootByte (a : BitVec 64) : Option UInt8 :=
  (ram.regions.findIdx? (·.contains (pageBase a))).map fun i =>
    regionByte sh.snapshot i (a.toNat - ram.base i)

end

variable {ram : RamLayout} {sh : ShadowMemory PageBytes}

theorem base_le_of_findIdx? {a : BitVec 64} {i : ℕ}
    (h : ram.regions.findIdx? (·.contains a) = some i) : ram.base i ≤ a.toNat := by
  obtain ⟨hlt, hcontains, -⟩ := findIdx?_eq_some_iff_getElem.1 h
  rw [RamRegion.contains, Bool.and_eq_true, decide_eq_true_eq] at hcontains
  rw [RamLayout.base, getElem?_eq_getElem hlt]
  exact hcontains.1

theorem readPageFrame_eq (a : BitVec 64) {n : ℕ} (h : n ≤ onPage a n) :
    readPageFrame ram sh (a &&& ~~~0xFFF) (a &&& 0xFFF).toNat n =
      some ((ram.regions.findIdx? (·.contains (pageBase a))).map fun _ =>
        (places a n).map fun b => (rootByte ram sh b).getD 0) := by
  have hbase : a &&& ~~~0xFFF = pageBase a := rfl
  have hinside : ∀ k < n, (pageOffset a).toNat + k < 0x1000 := fun k hk =>
    inside_of_lt_onPage (lt_of_lt_of_le hk h)
  have hassert : (pageOffset a).toNat + n ≤ 0x1000 := by
    have hlt := pageOffset_lt a
    unfold onPage at h
    omega
  rw [readPageFrame, and_low_eq, hbase, if_pos hassert]
  cases hfind : ram.regions.findIdx? (·.contains (pageBase a)) with
  | none => rfl
  | some i =>
    have hle := base_le_of_findIdx? hfind
    rw [Option.map_some, Option.map_some, places, List.map_map]
    refine congrArg (fun bs => some (some bs)) (map_congr_left fun k hk => ?_)
    have hk' := hinside k (mem_range.1 hk)
    rw [Function.comp_apply, rootByte, pageBase_add hk', hfind, map_some, getD_some,
      toNat_add_of_inside hk']
    congr 1
    rw [toNat_pageBase] at hle ⊢
    rw [toNat_pageOffset]
    omega

theorem isSome_rootByte_inside {a : BitVec 64} {n : ℕ} (h : n ≤ onPage a n) {b : BitVec 64}
    (hb : b ∈ places a n) :
    (rootByte ram sh b).isSome = (ram.regions.findIdx? (·.contains (pageBase a))).isSome := by
  obtain ⟨k, hk, rfl⟩ := mem_places.1 hb
  rw [rootByte, isSome_map, pageBase_add (inside_of_lt_onPage (lt_of_lt_of_le hk h))]

theorem readPhysicalLoop_eq (mem : Mem) (ptr : ℕ) (a : BitVec 64) (offset n : ℕ) :
    ∃ mem', readPhysicalLoop ram sh mem ptr a offset n =
        some ((places a n).all fun b => (rootByte ram sh b).isSome, mem') ∧
      ((∀ b ∈ places a n, (rootByte ram sh b).isSome) → mem' =
        storeAt mem (ptr + offset) ((places a n).map fun b => (rootByte ram sh b).getD 0)) := by
  induction n using Nat.strong_induction_on generalizing mem a offset with
  | _ n ih =>
    rw [readPhysicalLoop]
    split
    case isTrue hzero =>
      rw [hzero, places_zero, map_nil, storeAt_nil]
      exact ⟨mem, rfl, fun _ => rfl⟩
    case isFalse hpos =>
      have hle := onPage_le a n
      have hlt := onPage_pos a hpos
      have hpiece : onPage a n ≤ onPage a (onPage a n) := by
        unfold onPage
        omega
      have hsplit : places a n =
          places a (onPage a n) ++ places (a + BitVec.ofNat 64 (onPage a n)) (n - onPage a n) := by
        rw [← places_add, Nat.add_sub_of_le hle]
      have hsome := fun b => @isSome_rootByte_inside ram sh a _ hpiece b
      simp only [copyBytes_eq, readPageFrame_eq a hpiece]
      cases hfind : ram.regions.findIdx? (·.contains (pageBase a)) with
      | none =>
        -- already the first address is not found
        have hfirst : a ∈ places a n := mem_places.2 ⟨0, pos_of_ne_zero hpos, BitVec.add_zero a⟩
        have hnone : (rootByte ram sh a).isSome = false := by
          rw [rootByte, isSome_map, hfind]
          rfl
        have hall : ((places a n).all fun b => (rootByte ram sh b).isSome) = false :=
          all_eq_false.2 ⟨a, hfirst, Bool.eq_false_iff.1 hnone⟩
        refine ⟨mem, ?_, fun hsome => absurd (hsome a hfirst) (Bool.eq_false_iff.1 hnone)⟩
        rw [hall]
        rfl
      | some i =>
        rw [hfind] at hsome
        obtain ⟨mem', hloop, hmem'⟩ := ih (n - onPage a n) (by omega)
          (storeAt mem (ptr + offset)
            ((places a (onPage a n)).map fun b => (rootByte ram sh b).getD 0))
          (a + BitVec.ofNat 64 (onPage a n)) (offset + onPage a n)
        refine ⟨mem', ?_, fun hall => ?_⟩
        · rw [map_some]
          dsimp only
          rw [hloop, hsplit, all_append, all_eq_true.2 hsome, Bool.true_and]
        · rw [hsplit, forall_mem_append] at hall
          rw [hmem' hall.2, hsplit, map_append, storeAt_append, length_map,
            length_places, add_assoc]

/-! ## Pages and regions -/

namespace RamRegion

def Has (r : RamRegion) (a : ℕ) : Prop := r.base ≤ a ∧ a < r.base + r.size

def HasPage (r : RamRegion) (page : ℕ) : Prop :=
  r.base ≤ page * 0x1000 ∧ (page + 1) * 0x1000 ≤ r.base + r.size

def Disjoint (r r' : RamRegion) : Prop := ∀ a, r.Has a → ¬r'.Has a

variable {r : RamRegion}

theorem contains_iff (h : r.base + r.size ≤ 2 ^ 64) (a : BitVec 64) :
    r.contains (pageBase a) = true ↔ r.HasPage (a.toNat / 0x1000) ∧ r.base + r.size < 2 ^ 64 := by
  have hbase := r.base_aligned
  have hsize := r.size_aligned
  rw [contains, Bool.and_eq_true, decide_eq_true_eq, decide_eq_true_eq, toNat_pageBase, HasPage]
  omega

theorem has_of_contains (h : r.base + r.size ≤ 2 ^ 64) {a : BitVec 64}
    (hc : r.contains (pageBase a) = true) : r.Has a.toNat := by
  obtain ⟨⟨hle, hend⟩, -⟩ := (contains_iff h a).1 hc
  exact ⟨by omega, by omega⟩

end RamRegion

variable (hspace : ∀ r ∈ ram.regions, r.base + r.size ≤ 2 ^ 64)

include hspace

theorem isSome_rootByte (a : BitVec 64) :
    (rootByte ram sh a).isSome ↔ ∃ r ∈ ram.regions, r.HasPage (a.toNat / 0x1000) ∧
      r.base + r.size < 2 ^ 64 := by
  rw [rootByte, Option.isSome_map, List.findIdx?_isSome, List.any_eq_true]
  refine exists_congr fun r => and_congr_right fun hr => ?_
  exact RamRegion.contains_iff (hspace r hr) a

theorem rootByte_eq (hdisjoint : ram.regions.Pairwise RamRegion.Disjoint) {a : BitVec 64}
    (hsome : (rootByte ram sh a).isSome) {i : ℕ} {r : RamRegion} (hr : ram.regions[i]? = some r)
    (hhas : r.Has a.toNat) :
    (rootByte ram sh a).getD 0 = regionByte sh.snapshot i (a.toNat - r.base) := by
  rw [rootByte, isSome_map] at hsome
  obtain ⟨j, hj⟩ := isSome_iff_exists.1 hsome
  obtain ⟨hjlt, hcontains, -⟩ := findIdx?_eq_some_iff_getElem.1 hj
  obtain ⟨hilt, hri⟩ := List.getElem?_eq_some_iff.1 hr
  have hhas' := RamRegion.has_of_contains (hspace _ (getElem_mem hjlt)) hcontains
  have hpairs := pairwise_iff_getElem.1 hdisjoint
  obtain rfl : i = j := by
    rcases lt_trichotomy i j with hlt | heq | hlt
    · exact absurd hhas' (hpairs i j hilt hjlt hlt _ (hri ▸ hhas))
    · exact heq
    · exact absurd (hri ▸ hhas) (hpairs j i hjlt hilt hlt _ hhas')
  rw [rootByte, hj, map_some, getD_some, RamLayout.base, hr]
  rfl

/-- **Reading the root snapshot**: when it succeeds, and what is read. -/
theorem readPhysicalMemory_right (hdisjoint : ram.regions.Pairwise RamRegion.Disjoint)
    (sh : ShadowMemory PageBytes) {address : BitVec 64} {size : ℕ}
    (hsize : address.toNat + size ≤ 2 ^ 64) (mem : Mem) (ptr : ℕ) :
    ∃ ok mem', readPhysicalMemory ram sh address mem ptr size = some (ok, mem') ∧
      (ok = true ↔ ∀ k < size, ∃ r ∈ ram.regions,
        r.HasPage ((address.toNat + k) / 0x1000) ∧ r.base + r.size < 2 ^ 64) ∧
      (ok = true → ∃ bytes, mem' = storeAt mem ptr bytes ∧ bytes.length = size ∧
        ∀ k < size, ∀ i r, ram.regions[i]? = some r → r.Has (address.toNat + k) →
          bytes[k]? = some (regionByte sh.snapshot i (address.toNat + k - r.base))) := by
  have htoNat : ∀ k < size, (address + BitVec.ofNat 64 k).toNat = address.toNat + k := by
    intro k hk
    rw [BitVec.toNat_add, BitVec.toNat_ofNat]
    omega
  obtain ⟨mem', hread, hmem'⟩ := @readPhysicalLoop_eq ram sh mem ptr address 0 size
  refine ⟨_, mem', hread, ?_, fun hok => ?_⟩
  · rw [List.all_eq_true]
    constructor
    · intro hall k hk
      rw [← htoNat k hk]
      exact (isSome_rootByte hspace _).1 (hall _ (mem_places.2 ⟨k, hk, rfl⟩))
    · intro hall b hb
      obtain ⟨k, hk, rfl⟩ := mem_places.1 hb
      rw [isSome_rootByte hspace, htoNat k hk]
      exact hall k hk
  · rw [List.all_eq_true] at hok
    refine ⟨_, hmem' hok, by rw [length_map, length_places], fun k hk i r hr hhas => ?_⟩
    have hfound := hok _ (mem_places.2 ⟨k, hk, rfl⟩)
    rw [← htoNat k hk] at hhas ⊢
    rw [getElem?_map, getElem?_places address hk, map_some,
      rootByte_eq hspace hdisjoint hfound hr hhas]

omit hspace

theorem readPhysicalMemory_right_twoPages :
    ∃ mem', readPhysicalMemory (.single 2) (.init fun _ _ => 7) 0x800 (memOf []) 0 0x1000 =
      some (true, mem') := by
  have hspace : ∀ r ∈ (RamLayout.single 2).regions, r.base + r.size ≤ 2 ^ 64 := by decide
  have hdisjoint : (RamLayout.single 2).regions.Pairwise RamRegion.Disjoint :=
    pairwise_singleton _ _
  obtain ⟨ok, mem', hread, hok, -⟩ := readPhysicalMemory_right hspace hdisjoint
    (.init fun _ _ => 7) (show (0x800 : BitVec 64).toNat + 0x1000 ≤ 2 ^ 64 by decide) (memOf []) 0
  have htrue : ok = true := by
    refine hok.2 fun k hk => ⟨.ofPages 0 2, mem_singleton_self _, ⟨Nat.zero_le _, ?_⟩, ?_⟩
    · have haddress : (0x800 : BitVec 64).toNat = 0x800 := rfl
      dsimp only [RamRegion.ofPages]
      omega
    · decide
  exact ⟨mem', htrue ▸ hread⟩

def topPage : RamLayout where
  regions := [.ofPages 0xfffffffffffff 1]
  length_lt := Nat.le_add_left 2 0xfe
  memMappingLow := 0
  memMappingHigh := 0
  low_aligned := zero_aligned
  high_aligned := zero_aligned

/-- **The last page of the address space is not found.** -/
theorem readPhysicalMemory_topPage :
    (∃ mem', readPhysicalMemory topPage (.init fun _ _ => 7) 0xfffffffffffff000 (memOf []) 0 1 =
      some (false, mem')) ∧
    (RamRegion.ofPages 0xfffffffffffff 1).HasPage 0xfffffffffffff := by
  have hspace : ∀ r ∈ topPage.regions, r.base + r.size ≤ 2 ^ 64 := by decide
  obtain ⟨mem', hread, -⟩ := @readPhysicalLoop_eq topPage (.init fun _ _ => 7) (memOf []) 0
    0xfffffffffffff000 0 1
  refine ⟨⟨mem', hread.trans ?_⟩, by decide, by decide⟩
  have hnone : (rootByte topPage (.init fun _ _ => 7) 0xfffffffffffff000).isSome = false := by
    rw [← Bool.not_eq_true, isSome_rootByte hspace]
    rintro ⟨r, hr, -, hend⟩
    cases mem_singleton.1 hr
    exact absurd hend (by decide)
  have hplaces : places 0xfffffffffffff000 1 = [0xfffffffffffff000] := rfl
  rfl

end FuzzSocketCan.Qemu
