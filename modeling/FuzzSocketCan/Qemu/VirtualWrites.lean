import FuzzSocketCan.Lib.Lists
import FuzzSocketCan.Lib.WriteLog
import FuzzSocketCan.Qemu.VirtualMemory

/-! # Writing the virtual memory of the guest

`write_virtual_memory` writes a range in pieces of 4096 bytes, each to physical addresses from the
translation of its first address on. If the range does not begin with a page, each piece runs over
the end of one, wherever the next virtual page is mapped to. The translation is that of QEMU, while
`read_virtual_memory` walks the tables with `get_48_paging_phys_addr`.

* **`writeVirtualMemory_right_iff`** — the write is right for all data, and read back, exactly if
  the range begins with a page, or its pages follow each other in physical memory as well, and no
  leaf entry has bits set below the frame of a large page.
* **`readVirtualMemory_writeVirtualMemory`** — the round trip for tables that are in memory. -/

namespace FuzzSocketCan.Qemu

open Lib List Option

/-! ## Page tables -/

structure PageTable where
  leaf : ℕ → Option Leaf
  sized : ∀ {v l}, leaf v = some l → l.Sized

variable {i : ℕ}

theorem Leaf.Sized.phys_eq {l : Leaf} (h : l.Sized) (a : BitVec 64) : l.phys a =
    l.phys (BitVec.ofNat 64 (a.toNat / 4096 * 4096)) / 4096 * 4096 + a.toNat % 4096 := by
  have hbase : BitVec.ofNat 64 (a.toNat / 4096 * 4096) = pageBase a := by
    rw [← toNat_pageBase, BitVec.ofNat_toNat, BitVec.setWidth_eq]
  have hpage : field (pageBase a) 12 l.pageBits = field a 12 l.pageBits := by
    refine field_eq_of_pageBase_eq (BitVec.eq_of_toNat_eq ?_) (le_refl 12) _
    rw [toNat_pageBase, toNat_pageBase]
    omega
  rw [hbase, Leaf.phys, Leaf.phys, field_zero_split (pageBase a) h.le.1,
    field_zero_split a h.le.1, hpage, toNat_pageBase]
  rcases h with h | h | h
  all_goals
    rw [h]
    omega

theorem Leaf.Sized.phys_div_lt {l : Leaf} (h : l.Sized) (a : BitVec 64) :
    l.phys a / 4096 < 2 ^ 40 := by
  have hframe := field_lt l.entry l.pageBits 52
  have hoffset := field_lt a 0 l.pageBits
  rw [Leaf.phys]
  rcases h with h | h | h
  all_goals
    rw [h] at hframe hoffset ⊢
    omega

theorem Leaf.aligned_of_small (l : Leaf) (h : l.pageBits = 12) : l.Aligned := by
  rw [Leaf.Aligned, h, field, Nat.sub_self, pow_zero, Nat.mod_one]

def canonicalPage (v : ℕ) : Bool := decide (v < 2 ^ 35) || decide (2 ^ 52 - 2 ^ 35 ≤ v)

namespace PageTable

variable (t : PageTable)

def frame (v : ℕ) : Option ℕ :=
  if canonicalPage v then (t.leaf v).map fun l => l.phys (BitVec.ofNat 64 (v * 4096)) / 4096
  else none

/-- The translation of the processor. -/
def phys (a : BitVec 64) : Option (BitVec 64) :=
  (t.frame (a.toNat / 4096)).map fun f => BitVec.ofNat 64 (f * 4096 + a.toNat % 4096)

def physPage (a : BitVec 64) : BitVec 64 :=
  (t.frame (a.toNat / 4096)).elim invalidAddress fun f => BitVec.ofNat 64 (f * 4096)

/-- `get_48_paging_phys_addr`, given the leaf entry. It reads the frame of every page from bit 12
on, and does not ask whether the address is canonical. -/
def walk (a : BitVec 64) : BitVec 64 :=
  (t.leaf (a.toNat / 4096)).elim invalidAddress fun l => BitVec.ofNat 64 (l.unmasked a)

variable {t} {a b q : BitVec 64}

theorem frame_lt {v f : ℕ} (h : t.frame v = some f) : f < 2 ^ 40 := by
  obtain ⟨l, hl, rfl⟩ := map_eq_some_iff.1 (ite_none_right_eq_some.1 h).2
  exact (t.sized hl).phys_div_lt _

theorem phys_eq_some : t.phys a = some q ↔ ∃ f, t.frame (a.toNat / 4096) = some f ∧ f < 2 ^ 40 ∧
    q.toNat = f * 4096 + a.toNat % 4096 := by
  constructor
  · intro h
    obtain ⟨f, hf, rfl⟩ := map_eq_some_iff.1 h
    have hlt := t.frame_lt hf
    refine ⟨f, hf, hlt, ?_⟩
    rw [BitVec.toNat_ofNat]
    omega
  · rintro ⟨f, hf, -, hq⟩
    refine map_eq_some_iff.2 ⟨f, hf, ?_⟩
    rw [← hq, BitVec.ofNat_toNat, BitVec.setWidth_eq]

theorem physPage_of_phys (h : t.phys a = some q) :
    t.physPage (pageBase a) ≠ invalidAddress ∧ t.physPage (pageBase a) + pageOffset a = q := by
  obtain ⟨f, hf, hlt, hq⟩ := phys_eq_some.1 h
  have hpage : (pageBase a).toNat / 4096 = a.toNat / 4096 := by
    rw [toNat_pageBase]
    omega
  have hnat : (t.physPage (pageBase a)).toNat = f * 4096 := by
    rw [physPage, hpage, hf, elim_some, BitVec.toNat_ofNat]
    omega
  constructor
  · intro hinvalid
    have hones : invalidAddress.toNat = 2 ^ 64 - 1 := rfl
    rw [hinvalid, hones] at hnat
    omega
  · apply BitVec.eq_of_toNat_eq
    rw [BitVec.toNat_add, hnat, toNat_pageOffset, hq]
    omega

theorem phys_add (h : t.phys a = some q) (hi : (pageOffset a).toNat + i < 4096) :
    t.phys (a + BitVec.ofNat 64 i) = some (q + BitVec.ofNat 64 i) := by
  obtain ⟨f, hf, hlt, hq⟩ := phys_eq_some.1 h
  have hnat := toNat_add_of_inside hi
  rw [toNat_pageOffset] at hi
  refine phys_eq_some.2 ⟨f, ?_, hlt, ?_⟩
  · rw [hnat]
    convert hf using 2
    omega
  · rw [hnat, BitVec.toNat_add, BitVec.toNat_ofNat, hq]
    omega

theorem leaf_of_phys (h : t.phys a = some q) :
    ∃ l, t.leaf (a.toNat / 4096) = some l ∧ q = BitVec.ofNat 64 (l.phys a) := by
  obtain ⟨f, hf, -, hq⟩ := phys_eq_some.1 h
  obtain ⟨l, hl, rfl⟩ := map_eq_some_iff.1 (ite_none_right_eq_some.1 hf).2
  refine ⟨l, hl, ?_⟩
  rw [(t.sized hl).phys_eq, ← hq, BitVec.ofNat_toNat, BitVec.setWidth_eq]

theorem readAddress_eq_iff (h : t.phys a = some q) :
    readAddress t.walk a = q ↔ ∀ l ∈ t.leaf (a.toNat / 4096), l.Aligned := by
  obtain ⟨l, hl, rfl⟩ := leaf_of_phys h
  have hsized := t.sized hl
  have hwalk : t.walk a = BitVec.ofNat 64 (l.unmasked a) := by rw [walk, hl, elim_some]
  rw [hsized.readAddress_eq hwalk, hsized.ofNat_unmasked_eq_iff, hl]
  simp

theorem pageBase_walk (h : pageBase a = pageBase b) :
    pageBase (t.walk a) = pageBase (t.walk b) := by
  have hpage : a.toNat / 4096 = b.toNat / 4096 := by
    have hnat := congrArg BitVec.toNat h
    rw [toNat_pageBase, toNat_pageBase] at hnat
    omega
  unfold walk
  rw [hpage]
  cases hl : t.leaf (b.toNat / 4096) with
  | none => rfl
  | some l => exact (t.sized hl).pageBase_unmasked h

end PageTable

/-! ## The code -/

namespace PhysMemory

def writeAll (mem : PhysMemory) (log : List (BitVec 64 × UInt8)) : PhysMemory where
  byte := writeLog mem.byte log
  byte_eq_none a ha := by
    have hnone := isSome_writeLog mem.byte log a
    rw [mem.byte_eq_none a ha] at hnone
    exact not_isSome_iff_eq_none.1 (by rw [hnone]; decide)

@[simp] theorem byte_writeAll (mem : PhysMemory) (log : List (BitVec 64 × UInt8)) :
    (mem.writeAll log).byte = writeLog mem.byte log := rfl

theorem writeAll_append (mem : PhysMemory) (log log' : List (BitVec 64 × UInt8)) :
    mem.writeAll (log ++ log') = (mem.writeAll log).writeAll log' := by
  simp [writeAll, writeLog_append]

def writeRange (mem : PhysMemory) (a : BitVec 64) (bs : List UInt8) : PhysMemory × Bool :=
  (mem.writeAll ((places a bs.length).zip bs),
    (places a bs.length).all fun q => (mem.byte q).isSome)

end PhysMemory

/-- The memory, and what is returned. -/
def writeVirtualMemory (mem : PhysMemory) (t : PageTable) (address : BitVec 64)
    (data : List UInt8) : PhysMemory × Bool :=
  if h : data = [] then (mem, true)
  else
    let l := min 4096 data.length
    let physAddr := t.physPage (pageBase address)
    if physAddr = invalidAddress then (mem, false)
    else
      let (mem, ok) := mem.writeRange (physAddr + pageOffset address) (data.take l)
      have : data.length - l < data.length := by
        have := length_pos_iff.2 h
        omega
      if ok then writeVirtualMemory mem t (address + BitVec.ofNat 64 l) (data.drop l)
      else (mem, false)
termination_by data.length

/-! ## Where the bytes are written -/

variable {mem : PhysMemory} {data : List UInt8}

section Places

variable {t : PageTable} {address : BitVec 64}

def writeAddress (t : PageTable) (address : BitVec 64) (i : ℕ) : BitVec 64 :=
  (t.phys (address + BitVec.ofNat 64 (4096 * (i / 4096)))).getD invalidAddress +
    BitVec.ofNat 64 (i % 4096)

def writeAddresses (t : PageTable) (address : BitVec 64) (n : ℕ) : List (BitVec 64) :=
  (List.range n).map (writeAddress t address)

@[simp] theorem length_writeAddresses (t : PageTable) (address : BitVec 64) (n : ℕ) :
    (writeAddresses t address n).length = n := by
  rw [writeAddresses, length_map, length_range]

theorem writeAddress_add (t : PageTable) (address : BitVec 64) (i : ℕ) :
    writeAddress t address (4096 + i) = writeAddress t (address + BitVec.ofNat 64 4096) i := by
  have hdiv : (4096 + i) / 4096 = i / 4096 + 1 := by omega
  have hmod : (4096 + i) % 4096 = i % 4096 := by omega
  have hpiece : 4096 * (i / 4096 + 1) = 4096 + 4096 * (i / 4096) := by omega
  rw [writeAddress, writeAddress, hdiv, hmod, hpiece, add_ofNat_add]

theorem writeAddresses_split {q : BitVec 64} (h : t.phys address = some q) (n : ℕ) :
    writeAddresses t address n = places q (min 4096 n) ++
      writeAddresses t (address + BitVec.ofNat 64 (min 4096 n)) (n - min 4096 n) := by
  have hfirst : (List.range (min 4096 n)).map (writeAddress t address) = places q (min 4096 n) := by
    refine List.map_congr_left fun i hi => ?_
    have hlt := mem_range.1 hi
    rw [writeAddress, Nat.div_eq_of_lt (by omega), Nat.mod_eq_of_lt (by omega), Nat.mul_zero,
      BitVec.add_zero, h, getD_some]
  unfold writeAddresses
  conv_lhs => rw [← Nat.add_sub_of_le (Nat.min_le_right 4096 n), range_add, map_append,
    List.map_map]
  congr 1
  refine List.map_congr_left fun i hi => ?_
  -- something is left only behind a whole piece
  have hlt := mem_range.1 hi
  have hwhole : min 4096 n = 4096 := by omega
  rw [Function.comp_apply, hwhole, writeAddress_add]

theorem writeVirtualMemory_step {q : BitVec 64} {l : ℕ} (hpos : data ≠ [])
    (hl : min 4096 data.length = l) (hq : t.phys address = some q) :
    writeVirtualMemory mem t address data =
      if (places q l).all fun p => (mem.byte p).isSome then
        writeVirtualMemory (mem.writeAll ((places q l).zip (data.take l))) t
          (address + BitVec.ofNat 64 l) (data.drop l)
      else (mem.writeAll ((places q l).zip (data.take l)), false) := by
  obtain ⟨hvalid, hphys⟩ := PageTable.physPage_of_phys hq
  have htake : (data.take l).length = l := by
    rw [length_take]
    omega
  rw [writeVirtualMemory, dif_neg hpos]
  simp [hl, hvalid, hphys, PhysMemory.writeRange, htake]

theorem writeVirtualMemory_eq (mem : PhysMemory)
    (hmap : ∀ i < data.length, (t.phys (address + BitVec.ofNat 64 i)).isSome) :
    ((writeVirtualMemory mem t address data).2 = true ↔
      ∀ q ∈ writeAddresses t address data.length, (mem.byte q).isSome) ∧
    ((writeVirtualMemory mem t address data).2 = true →
      (writeVirtualMemory mem t address data).1 =
        mem.writeAll ((writeAddresses t address data.length).zip data)) := by
  induction hn : data.length using Nat.strong_induction_on generalizing mem address data with
  | _ n ih =>
    subst hn
    rcases eq_or_ne data [] with rfl | hpos
    · rw [writeVirtualMemory, dif_pos rfl]
      exact ⟨iff_of_true rfl fun q hq => absurd hq not_mem_nil, fun _ => rfl⟩
    have hlen := length_pos_iff.2 hpos
    obtain ⟨q, hq⟩ := isSome_iff_exists.1 (hmap 0 hlen)
    rw [BitVec.add_zero] at hq
    obtain ⟨l, hl⟩ : ∃ l, min 4096 data.length = l := ⟨_, rfl⟩
    have hdrop : (data.drop l).length = data.length - l := length_drop
    rw [writeVirtualMemory_step hpos hl hq, writeAddresses_split hq, hl,
      zip_append_eq (by rw [length_places]; omega), length_places, PhysMemory.writeAll_append]
    simp only [mem_append, or_imp, forall_and]
    split
    · next hok =>
        have hrest : ∀ i < (data.drop l).length,
            (t.phys (address + BitVec.ofNat 64 l + BitVec.ofNat 64 i)).isSome := by
          intro i hi
          rw [add_ofNat_add]
          exact hmap _ (by omega)
        obtain ⟨hiff, heq⟩ := ih _ (by omega) _ hrest hdrop
        refine ⟨hiff.trans ?_, heq⟩
        simp only [PhysMemory.byte_writeAll, isSome_writeLog]
        exact ⟨fun h => ⟨all_eq_true.1 hok, h⟩, And.right⟩
    · next hok =>
        refine ⟨iff_of_false Bool.false_ne_true fun h => ?_, fun h => ?_⟩
        · exact hok (all_eq_true.2 h.1)
        · exact absurd h Bool.false_ne_true

theorem writeAddress_succ (h : (i + 1) % 4096 ≠ 0) :
    writeAddress t address (i + 1) = writeAddress t address i + 1 := by
  have hdiv : (i + 1) / 4096 = i / 4096 := by omega
  have hmod : (i + 1) % 4096 = i % 4096 + 1 := by omega
  rw [writeAddress, writeAddress, hdiv, hmod, BitVec.ofNat_add, ← BitVec.add_assoc]
  rfl

theorem phys_eq_writeAddress_of_mod (h : i % 4096 = 0)
    (hmap : (t.phys (address + BitVec.ofNat 64 i)).isSome) :
    t.phys (address + BitVec.ofNat 64 i) = some (writeAddress t address i) := by
  obtain ⟨q, hq⟩ := isSome_iff_exists.1 hmap
  have hi : 4096 * (i / 4096) = i := by omega
  rw [writeAddress, hi, h, BitVec.add_zero, hq, getD_some]

end Places

/-! ## When the write is right -/

structure PageTable.Maps (t : PageTable) (address : BitVec 64) (size : ℕ) : Prop where
  mapped : ∀ i < size, (t.frame ((address + BitVec.ofNat 64 i).toNat / 4096)).isSome
  distinct : ∀ i < size, ∀ j < size,
    t.frame ((address + BitVec.ofNat 64 i).toNat / 4096) =
        t.frame ((address + BitVec.ofNat 64 j).toNat / 4096) →
      (address + BitVec.ofNat 64 i).toNat / 4096 = (address + BitVec.ofNat 64 j).toNat / 4096

def PhysMemory.Backs (mem : PhysMemory) (t : PageTable) (address : BitVec 64) (size : ℕ) : Prop :=
  ∀ i < size, ∀ q, t.phys (address + BitVec.ofNat 64 i) = some q → (mem.byte q).isSome

/-- **A write as it should be**: each byte is stored at the translation of its address, nothing else
changes, and `read_virtual_memory` of the range gives the data back. -/
structure Stores (mem : PhysMemory) (t : PageTable) (address : BitVec 64) (data : List UInt8) :
    Prop where
  ok : (writeVirtualMemory mem t address data).2 = true
  stored : ∀ i < data.length, ∃ q, t.phys (address + BitVec.ofNat 64 i) = some q ∧
    (writeVirtualMemory mem t address data).1.byte q = data[i]?
  unchanged : ∀ q, (∀ i < data.length, t.phys (address + BitVec.ofNat 64 i) ≠ some q) →
    (writeVirtualMemory mem t address data).1.byte q = mem.byte q
  readBack : readLoop (writeVirtualMemory mem t address data).1 t.walk address data.length = data

def PageTable.InOrder (t : PageTable) (address : BitVec 64) (size : ℕ) : Prop :=
  pageOffset address = 0 ∨
    ∀ i, i + 1 < size → pageOffset (address + BitVec.ofNat 64 (i + 1)) = 0 →
      t.phys (address + BitVec.ofNat 64 (i + 1)) =
        (t.phys (address + BitVec.ofNat 64 i)).map (· + 1)

def PageTable.LeavesAligned (t : PageTable) (address : BitVec 64) (size : ℕ) : Prop :=
  ∀ i < size, ∀ l ∈ t.leaf ((address + BitVec.ofNat 64 i).toNat / 4096), l.Aligned

section Right

variable {t : PageTable} {address : BitVec 64} {size : ℕ}

theorem PageTable.Maps.isSome_phys (h : t.Maps address size) (hi : i < size) :
    (t.phys (address + BitVec.ofNat 64 i)).isSome := by
  rw [PageTable.phys, isSome_map]
  exact h.mapped i hi

theorem PageTable.Maps.phys_inj (h : t.Maps address size) (hsize : size < 2 ^ 32) {j : ℕ}
    (hi : i < size) (hj : j < size) {q : BitVec 64}
    (hqi : t.phys (address + BitVec.ofNat 64 i) = some q)
    (hqj : t.phys (address + BitVec.ofNat 64 j) = some q) : i = j := by
  obtain ⟨f, hf, -, hnat⟩ := PageTable.phys_eq_some.1 hqi
  obtain ⟨f', hf', -, hnat'⟩ := PageTable.phys_eq_some.1 hqj
  obtain rfl : f = f' := by omega
  have hpage := h.distinct i hi j hj (hf.trans hf'.symm)
  refine add_ofNat_inj (a := address) (by omega) (by omega) (BitVec.eq_of_toNat_eq ?_)
  omega

theorem phys_succ_of_pageOffset_ne {q : BitVec 64}
    (hq : t.phys (address + BitVec.ofNat 64 i) = some q)
    (hne : pageOffset (address + BitVec.ofNat 64 (i + 1)) ≠ 0) :
    t.phys (address + BitVec.ofNat 64 (i + 1)) = some (q + 1) := by
  have hinside : (pageOffset (address + BitVec.ofNat 64 i)).toNat + 1 < 4096 := by
    have hlt := pageOffset_lt (address + BitVec.ofNat 64 i)
    by_contra hge
    refine hne (BitVec.eq_of_toNat_eq ?_)
    rw [toNat_pageOffset] at hlt hge ⊢
    rw [BitVec.ofNat_add, ← BitVec.add_assoc, BitVec.toNat_add]
    show _ = 0
    have hone : (BitVec.ofNat 64 1).toNat = 1 := rfl
    omega
  have hnext := PageTable.phys_add hq hinside
  rwa [add_ofNat_add] at hnext

theorem phys_eq_writeAddress (hmap : t.Maps address size) (horder : t.InOrder address size)
    (hi : i < size) : t.phys (address + BitVec.ofNat 64 i) = some (writeAddress t address i) := by
  induction i with
  | zero => exact phys_eq_writeAddress_of_mod rfl (hmap.isSome_phys hi)
  | succ i ih =>
    have hq := ih (by omega)
    by_cases hmod : (i + 1) % 4096 = 0
    · exact phys_eq_writeAddress_of_mod hmod (hmap.isSome_phys hi)
    rw [writeAddress_succ hmod]
    by_cases hpage : pageOffset (address + BitVec.ofNat 64 (i + 1)) = 0
    · -- a page begins inside of the piece
      rcases horder with hzero | hnext
      · have hnat := congrArg BitVec.toNat hpage
        have hnat' := congrArg BitVec.toNat hzero
        rw [toNat_pageOffset, BitVec.toNat_add, BitVec.toNat_ofNat] at hnat
        rw [toNat_pageOffset] at hnat'
        have hzero64 : (0 : BitVec 64).toNat = 0 := rfl
        omega
      · rw [hnext i hi hpage, hq, map_some]
    · exact phys_succ_of_pageOffset_ne hq hpage

theorem stores_of_inOrder (hsize : size < 2 ^ 32) (hmap : t.Maps address size)
    (horder : t.InOrder address size) (haligned : t.LeavesAligned address size)
    (hlen : data.length = size) (hback : mem.Backs t address size) : Stores mem t address data := by
  subst hlen
  have hplace := fun {i : ℕ} (hi : i < data.length) => phys_eq_writeAddress hmap horder hi
  have hcells : ∀ q ∈ writeAddresses t address data.length, (mem.byte q).isSome := by
    intro q hq
    obtain ⟨i, hi, rfl⟩ := mem_map.1 hq
    exact hback i (mem_range.1 hi) _ (hplace (mem_range.1 hi))
  have hkeys : ((writeAddresses t address data.length).zip data).map Prod.fst =
      writeAddresses t address data.length :=
    map_fst_zip (by rw [length_writeAddresses])
  have hnodup : (writeAddresses t address data.length).Nodup := by
    refine nodup_range.map_on fun i hi j hj hij => ?_
    have hi := mem_range.1 hi
    have hj := mem_range.1 hj
    exact hmap.phys_inj hsize hi hj (hplace hi) (hij ▸ hplace hj)
  obtain ⟨hok, hmem⟩ := writeVirtualMemory_eq mem fun i hi => hmap.isSome_phys hi
  have hok := hok.2 hcells
  have hmem := hmem hok
  have hstored : ∀ i < data.length,
      (writeVirtualMemory mem t address data).1.byte (writeAddress t address i) = data[i]? := by
    intro i hi
    have hpair : (writeAddress t address i, data[i]) ∈
        (writeAddresses t address data.length).zip data := by
      refine mem_iff_getElem?.2 ⟨i, ?_⟩
      rw [getElem?_zip_eq_some]
      refine ⟨?_, getElem?_eq_getElem hi⟩
      rw [writeAddresses, getElem?_map, getElem?_range hi]
      rfl
    rw [hmem, PhysMemory.byte_writeAll, getElem?_eq_getElem hi]
    exact writeLog_of_nodup (by rwa [hkeys]) hpair
      (hcells _ (mem_map.2 ⟨i, mem_range.2 hi, rfl⟩))
  refine ⟨hok, fun i hi => ⟨_, hplace hi, hstored i hi⟩, fun q hq => ?_, ?_⟩
  · rw [hmem, PhysMemory.byte_writeAll]
    refine writeLog_of_notMem ?_
    rw [hkeys]
    intro hmemq
    obtain ⟨i, hi, rfl⟩ := mem_map.1 hmemq
    exact hq i (mem_range.1 hi) (hplace (mem_range.1 hi))
  · rw [readLoop_eq_map fun _ _ => PageTable.pageBase_walk]
    refine ext_getElem? fun i => ?_
    rw [getElem?_map]
    by_cases hi : i < data.length
    · rw [getElem?_places address hi, map_some,
        (PageTable.readAddress_eq_iff (hplace hi)).2 (haligned i hi), PhysMemory.read,
        hstored i hi, getElem?_eq_getElem hi, getD_some]
    · rw [getElem?_eq_none (by rw [length_places]; omega), getElem?_eq_none (by omega)]
      rfl

theorem writeAddress_ne_phys (hmap : t.Maps address size) (hstart : pageOffset address ≠ 0)
    (hi : i + 1 < size) (hpage : pageOffset (address + BitVec.ofNat 64 (i + 1)) = 0)
    (hne : t.phys (address + BitVec.ofNat 64 (i + 1)) ≠
      (t.phys (address + BitVec.ofNat 64 i)).map (· + 1)) :
    t.phys (address + BitVec.ofNat 64 (i + 1)) ≠ some (writeAddress t address (i + 1)) := by
  have hzero : (0 : BitVec 64).toNat = 0 := rfl
  have hnat := congrArg BitVec.toNat hpage
  have hnat' : address.toNat % 4096 ≠ 0 := by
    rw [← toNat_pageOffset]
    exact fun h => hstart (BitVec.eq_of_toNat_eq h)
  rw [toNat_pageOffset, BitVec.toNat_add, BitVec.toNat_ofNat, hzero] at hnat
  have hmod : (i + 1) % 4096 ≠ 0 := by omega
  -- from the beginning of the piece up to the address before the page it is one page
  have hbegin := phys_eq_writeAddress_of_mod (i := 4096 * (i / 4096)) (Nat.mul_mod_right _ _)
    (hmap.isSome_phys (by omega))
  have hinside : (pageOffset (address + BitVec.ofNat 64 (4096 * (i / 4096)))).toNat + i % 4096 <
      4096 := by
    rw [toNat_pageOffset, BitVec.toNat_add, BitVec.toNat_ofNat]
    omega
  have hbefore := PageTable.phys_add hbegin hinside
  rw [add_ofNat_add, Nat.div_add_mod, writeAddress, Nat.mul_div_cancel_left _ (by decide),
    Nat.mul_mod_right, BitVec.add_zero, ← writeAddress] at hbefore
  rw [hbefore, map_some, ← writeAddress_succ hmod] at hne
  exact hne

def zeroMemory : PhysMemory where
  byte a := if a.toNat < 2 ^ 52 then some 0 else none
  byte_eq_none _ ha := if_neg (not_lt.2 ha)

theorem backs_zeroMemory (t : PageTable) (address : BitVec 64) (size : ℕ) :
    zeroMemory.Backs t address size := by
  intro i _ q hq
  obtain ⟨f, -, hlt, hnat⟩ := PageTable.phys_eq_some.1 hq
  have hbyte : zeroMemory.byte q = some 0 := if_pos (by omega)
  rw [hbyte]
  rfl

theorem not_stores_of_ne (hmap : t.Maps address size) (hi : i < size)
    (hne : t.phys (address + BitVec.ofNat 64 i) ≠ some (writeAddress t address i)) :
    ¬Stores zeroMemory t address ((List.replicate size 0).set i 1) := by
  intro h
  have hlen : ((replicate size (0 : UInt8)).set i 1).length = size := by
    rw [length_set, length_replicate]
  obtain ⟨q, hq, hbyte⟩ := h.stored i (by rwa [hlen])
  have hone : ((replicate size (0 : UInt8)).set i 1)[i]? = some 1 :=
    getElem?_set_self (by rwa [length_replicate])
  have hmem := (writeVirtualMemory_eq zeroMemory fun j hj =>
    hmap.isSome_phys (by rwa [hlen] at hj)).2 h.ok
  rw [hmem, hone, PhysMemory.byte_writeAll, hlen] at hbyte
  rcases writeLog_cases zeroMemory.byte ((writeAddresses t address size).zip
    ((replicate size 0).set i 1)) q with hsame | ⟨b, hb, hget⟩
  · -- nothing was written there
    rw [hsame, zeroMemory] at hbyte
    dsimp only at hbyte
    split at hbyte
    · exact absurd (some.inj hbyte) (by decide)
    · cases hbyte
  · -- what was written there is a one, and there is only one
    obtain rfl := some.inj (hget.symm.trans hbyte)
    obtain ⟨j, hj⟩ := mem_iff_getElem?.1 hb
    obtain ⟨haddress, hdata⟩ := getElem?_zip_eq_some.1 hj
    rw [getElem?_set] at hdata
    split at hdata
    · next heq =>
        subst heq
        rw [writeAddresses, getElem?_map, getElem?_range hi] at haddress
        exact hne (hq.trans (haddress ▸ rfl))
    · obtain ⟨-, hzero⟩ := mem_replicate.1 (mem_of_getElem? hdata)
      have hfalse : (1 : UInt8) = 0 := hzero
      exact absurd hfalse (by decide)

theorem aligned_of_stores (hmap : t.Maps address size) (hi : i < size)
    (h : Stores zeroMemory t address ((List.replicate size 0).set i 1)) :
    ∀ l ∈ t.leaf ((address + BitVec.ofNat 64 i).toNat / 4096), l.Aligned := by
  have hlen : ((replicate size (0 : UInt8)).set i 1).length = size := by
    rw [length_set, length_replicate]
  obtain ⟨q, hq⟩ := isSome_iff_exists.1 (hmap.isSome_phys hi)
  rw [← PageTable.readAddress_eq_iff hq]
  have hread := congrArg (·[i]?) h.readBack
  simp only [readLoop_eq_map (fun _ _ => PageTable.pageBase_walk), getElem?_map, hlen,
    getElem?_places address hi, map_some] at hread
  rw [getElem?_set_self (by rwa [length_replicate]), some_inj] at hread
  by_contra hne
  -- elsewhere there are only zeros
  refine absurd hread ?_
  by_cases hother : ∃ j < size, t.phys (address + BitVec.ofNat 64 j) =
      some (readAddress t.walk (address + BitVec.ofNat 64 i))
  · obtain ⟨j, hj, hphys⟩ := hother
    obtain ⟨q', hq', hbyte⟩ := h.stored j (by rwa [hlen])
    obtain rfl := some.inj (hq'.symm.trans hphys)
    have hij : i ≠ j := by
      rintro rfl
      exact hne (some.inj (hphys.symm.trans hq))
    rw [PhysMemory.read, hbyte, getElem?_set_ne hij, getElem?_replicate, if_pos hj]
    decide
  · have hsame := h.unchanged (readAddress t.walk (address + BitVec.ofNat 64 i)) fun j hj hphys =>
      hother ⟨j, by rwa [hlen] at hj, hphys⟩
    rw [PhysMemory.read, hsame, zeroMemory]
    dsimp only
    split <;> decide

/-- **When writing is right**: the pages are in order and the leaves are aligned. -/
theorem writeVirtualMemory_right_iff (t : PageTable) (address : BitVec 64) (size : ℕ)
    (hsize : size < 2 ^ 32) (hmap : t.Maps address size) :
    (∀ mem data, data.length = size → PhysMemory.Backs mem t address size →
        Stores mem t address data) ↔
      t.InOrder address size ∧ t.LeavesAligned address size := by
  constructor
  · intro h
    have hstores : ∀ i, Stores zeroMemory t address ((List.replicate size 0).set i 1) := fun i =>
      h _ _ (by rw [length_set, length_replicate]) (backs_zeroMemory t address size)
    refine ⟨?_, fun i hi => aligned_of_stores hmap hi (hstores i)⟩
    by_contra hnot
    rw [PageTable.InOrder, not_or] at hnot
    obtain ⟨hstart, hnext⟩ := hnot
    obtain ⟨i, hnext⟩ := not_forall.1 hnext
    rw [Classical.not_imp, Classical.not_imp] at hnext
    obtain ⟨hi, hpage, hne⟩ := hnext
    exact not_stores_of_ne hmap hi (writeAddress_ne_phys hmap hstart hi hpage hne) (hstores _)
  · rintro ⟨horder, haligned⟩ mem data hlen hback
    exact stores_of_inOrder hsize hmap horder haligned hlen hback

end Right

def pairLeaf (first second : BitVec 64) (v : ℕ) : Option Leaf :=
  if v = 0 then some ⟨12, first⟩ else if v = 1 then some ⟨12, second⟩ else none

theorem small_pairTable {first second : BitVec 64} {v : ℕ} {l : Leaf}
    (h : pairLeaf first second v = some l) : l.pageBits = 12 := by
  unfold pairLeaf at h
  split at h
  · exact some.inj h ▸ rfl
  · exact some.inj (ite_none_right_eq_some.1 h).2 ▸ rfl

def pairTable (first second : BitVec 64) : PageTable :=
  ⟨pairLeaf first second, fun h => .inl (small_pairTable h)⟩

/-- The frames 1 and 2. -/
def nextTable : PageTable := pairTable 0x1001 0x2001

/-- The frames 1 and 3. -/
def gapTable : PageTable := pairTable 0x1001 0x3001

theorem writeVirtualMemory_right_nextTable :
    2 < 2 ^ 32 ∧ nextTable.Maps 0xfff 2 ∧ ∀ mem data, data.length = 2 →
      PhysMemory.Backs mem nextTable 0xfff 2 → Stores mem nextTable 0xfff data := by
  have hmap : nextTable.Maps 0xfff 2 := ⟨by decide, by decide⟩
  refine ⟨by decide, hmap, (writeVirtualMemory_right_iff nextTable 0xfff 2 (by decide) hmap).2
    ⟨.inr fun i hi _ => ?_, fun _ _ l hl => l.aligned_of_small (small_pairTable hl)⟩⟩
  obtain rfl : i = 0 := by omega
  decide

/-- A page of 2 MiB with an attribute in bit 12. -/
def patTable : PageTable where
  leaf v := if v = 0 then some ⟨21, 0x201083⟩ else none
  sized h := some.inj (ite_none_right_eq_some.1 h).2 ▸ .inr (.inl rfl)

/-- **Writes that go wrong.** -/
theorem writeVirtualMemory_overPageEnd :
    (gapTable.Maps 0xfff 2 ∧ gapTable.phys 0x1000 = some 0x3000 ∧
      writeAddress gapTable 0xfff 1 = 0x2000 ∧ ¬Stores zeroMemory gapTable 0xfff [0, 1]) ∧
    patTable.Maps 0 1 ∧ patTable.phys 0 = some 0x200000 ∧
      readAddress patTable.walk 0 = 0x201000 ∧ ¬Stores zeroMemory patTable 0 [1] := by
  have hmap : gapTable.Maps 0xfff 2 := ⟨by decide, by decide⟩
  have hmap' : patTable.Maps 0 1 := ⟨by decide, by decide⟩
  refine ⟨⟨hmap, by decide, by decide, not_stores_of_ne hmap (by decide : 1 < 2) (by decide)⟩,
    hmap', by decide, by decide, fun h => ?_⟩
  have haligned : field 0x201083 12 21 = 0 := aligned_of_stores hmap' (by decide : 0 < 1) h _ rfl
  exact absurd haligned (by decide)

/-! ## Page tables in memory -/

/-- The page table that tables in memory are. -/
def PageTable.ofTables (mem : PhysMem) (cr3 : BitVec 64) : PageTable :=
  ⟨fun v => Qemu.leaf mem cr3 (BitVec.ofNat 64 (v * 4096)), sized_of_leaf⟩

theorem leaf_ofTables (mem : PhysMem) (cr3 a : BitVec 64) :
    (PageTable.ofTables mem cr3).leaf (a.toNat / 4096) = leaf mem cr3 a := by
  refine leaf_eq_of_pageBase_eq mem cr3 (BitVec.eq_of_toNat_eq ?_)
  rw [toNat_pageBase, toNat_pageBase, BitVec.toNat_ofNat]
  omega

theorem walk_ofTables (mem : PhysMem) (cr3 a : BitVec 64) :
    (PageTable.ofTables mem cr3).walk a = get48PagingPhysAddr mem cr3 a false := by
  rw [PageTable.walk, leaf_ofTables, get48PagingPhysAddr_eq]

/-- **What is written is read back** through the tables in memory. -/
theorem readVirtualMemory_writeVirtualMemory {cr3 address : BitVec 64}
    (hsize : data.length < 2 ^ 32)
    (hmap : (PageTable.ofTables mem.words cr3).Maps address data.length)
    (horder : (PageTable.ofTables mem.words cr3).InOrder address data.length)
    (hback : mem.Backs (.ofTables mem.words cr3) address data.length)
    (haligned : ∀ a ∈ places address data.length, ∀ l ∈ leaf mem.words cr3 a, l.Aligned)
    {mem' : PhysMemory} {ok : Bool}
    (hwrite : writeVirtualMemory mem (.ofTables mem.words cr3) address data = (mem', ok))
    (htables : ∀ a ∈ places address data.length, leaf mem'.words cr3 a = leaf mem.words cr3 a) :
    ok = true ∧ readVirtualMemory mem' cr3 address data.length = data := by
  have hleaves : (PageTable.ofTables mem.words cr3).LeavesAligned address data.length := by
    intro i hi l hl
    rw [leaf_ofTables] at hl
    exact haligned _ (mem_map.2 ⟨i, mem_range.2 hi, rfl⟩) l hl
  have hstores := stores_of_inOrder hsize hmap horder hleaves rfl hback
  have hread := hstores.readBack
  rw [hwrite, readLoop_eq_map fun _ _ => PageTable.pageBase_walk] at hread
  refine ⟨by simpa only [hwrite] using hstores.ok, ?_⟩
  rw [readVirtualMemory_eq]
  refine Eq.trans (map_congr_left fun a ha => ?_) hread
  rw [readAddress, readAddress, walk_ofTables, get48PagingPhysAddr_eq, get48PagingPhysAddr_eq,
    htables a ha]

def selfMapped : PhysMemory := zeroMemory.writeAll [(0, 1), (8, 1), (9, 0x10)]

theorem readVirtualMemory_writeVirtualMemory_selfMapped :
    writeVirtualMemory selfMapped (.ofTables selfMapped.words 0) 0xfff [5, 6] =
        (selfMapped.writeAll [(0xfff, 5), (0x1000, 6)], true) ∧
      readVirtualMemory (selfMapped.writeAll [(0xfff, 5), (0x1000, 6)]) 0 0xfff 2 = [5, 6] := by
  have hwrite : writeVirtualMemory selfMapped (.ofTables selfMapped.words 0) 0xfff [5, 6] =
      (selfMapped.writeAll [(0xfff, 5), (0x1000, 6)], true) := by
    have hphys : (PageTable.ofTables selfMapped.words 0).phys 0xfff = some 0xfff := rfl
    rw [writeVirtualMemory_step (l := 2) (cons_ne_nil 5 [6]) rfl hphys]
    exact writeVirtualMemory.eq_def _ _ _ []
  have hleaf : ∀ a ∈ places 0xfff 2, leaf selfMapped.words 0 a =
      some ⟨12, if a = 0xfff then 1 else 0x1001⟩ ∧
      leaf (selfMapped.writeAll [(0xfff, 5), (0x1000, 6)]).words 0 a =
        some ⟨12, if a = 0xfff then 1 else 0x1001⟩ :=
    forall_mem_cons.2 ⟨⟨rfl, rfl⟩, forall_mem_singleton.2 ⟨rfl, rfl⟩⟩
  refine ⟨hwrite, (readVirtualMemory_writeVirtualMemory (by decide)
    ⟨by decide +kernel, by decide +kernel⟩ (.inr fun i hi _ => ?_)
    (fun i hi q hq => ?_) (fun a ha l hl => ?_) hwrite fun a ha => ?_).2⟩
  · obtain rfl : i = 0 := Nat.lt_one_iff.1 (Nat.lt_of_succ_lt_succ hi)
    rfl
  · rw [selfMapped, PhysMemory.byte_writeAll, isSome_writeLog]
    exact backs_zeroMemory _ _ _ i hi q hq
  · rw [(hleaf a ha).1] at hl
    exact l.aligned_of_small (some.inj hl ▸ rfl)
  · rw [(hleaf a ha).1, (hleaf a ha).2]

end FuzzSocketCan.Qemu
