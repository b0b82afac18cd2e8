import FuzzSocketCan.Lib.ChunkBuffer
import FuzzSocketCan.Lib.Pages

/-! # The window of the disassembler

`page_cache_disassemble_iter` hands the disassembler 16 bytes of code. If the address is among the
last 16 of its page, 16 bytes of each page are copied to a buffer. If there is no next page, the
size of the window is computed as `0xfff - offset`, one less than the number of bytes up to the
end: the last byte is never handed on.

* **`window_twoPages`**, **`window_lastPage`** — the windows at the end of a page.
* **`window_right_iff`** — when the window is right. -/

namespace FuzzSocketCan.Qemu

open Lib List

structure GuestCode where
  byte : BitVec 64 → UInt8
  available : BitVec 64 → Bool

namespace GuestCode

def bytes (g : GuestCode) (a : BitVec 64) (n : ℕ) : List UInt8 := (places a n).map g.byte

def fetch (g : GuestCode) (page : BitVec 64) : Option (List UInt8) :=
  if g.available (pageBase page) then some (g.bytes (pageBase page) 4096) else none

/-- **What the disassembler is to get**: 16 bytes, or those up to the end of the page. -/
def window (g : GuestCode) (address : BitVec 64) : List UInt8 :=
  if ∀ a ∈ places address 16, g.available (pageBase a) then g.bytes address 16
  else g.bytes address (4096 - (pageOffset address).toNat)

end GuestCode

structure Disassembled where
  cache : Mem
  window : Option (List UInt8)
  failedPage : BitVec 64
  ok : Bool

def pageCacheDisassembleIter (g : GuestCode) (disasm : List UInt8 → BitVec 64 → Bool) (cache : Mem)
    (address : BitVec 64) : Disassembled :=
  match g.fetch address with
  | none => ⟨cache, none, address, false⟩
  | some code =>
    if (pageOffset address).toNat ≥ 0x1000 - 16 then
      let cache := storeAt cache 0 ((code.drop (0x1000 - 16)).take 16)
      let codePtr := 0xf - (0xfff - (pageOffset address).toNat)
      match g.fetch (address + 0x1000) with
      | some code =>
        let cache := storeAt cache 16 (code.take 16)
        let window := bytesAt cache codePtr 16
        ⟨cache, some window, 0xFFFFFFFFFFFFFFFF, disasm window address⟩
      | none =>
        let codeSize := 0xfff - (pageOffset address).toNat
        let window := bytesAt cache codePtr codeSize
        if disasm window address then ⟨cache, some window, 0xFFFFFFFFFFFFFFFF, true⟩
        else ⟨cache, some window, pageBase (address + 0x1000), false⟩
    else
      let window := (code.drop (pageOffset address).toNat).take 16
      ⟨cache, some window, 0xFFFFFFFFFFFFFFFF, disasm window address⟩

/-! ## Ranges of bytes -/

section Bytes

variable {g : GuestCode} {a : BitVec 64}

@[simp] theorem GuestCode.length_bytes (g : GuestCode) (a : BitVec 64) (n : ℕ) :
    (g.bytes a n).length = n := by
  rw [GuestCode.bytes, length_map, length_places]

theorem GuestCode.bytes_add (g : GuestCode) (a : BitVec 64) (n m : ℕ) :
    g.bytes a (n + m) = g.bytes a n ++ g.bytes (a + BitVec.ofNat 64 n) m := by
  rw [GuestCode.bytes, places_add, map_append]
  rfl

theorem GuestCode.bytes_drop_take (g : GuestCode) (a : BitVec 64) {n p m : ℕ} (h : p + m ≤ n) :
    ((g.bytes a n).drop p).take m = g.bytes (a + BitVec.ofNat 64 p) m := by
  obtain ⟨k, rfl⟩ := Nat.exists_eq_add_of_le h
  rw [GuestCode.bytes_add, GuestCode.bytes_add, append_assoc,
    drop_left' (g.length_bytes a p), take_left' (GuestCode.length_bytes _ _ _)]

theorem bytesAt_storeAt_zero (mem : Mem) {bs : List UInt8} {p n : ℕ} (h : p + n ≤ bs.length) :
    bytesAt (storeAt mem 0 bs) p n = (bs.drop p).take n := by
  have hsplit : bs = bs.take p ++ ((bs.drop p).take n ++ (bs.drop p).drop n) := by
    rw [take_append_drop, take_append_drop]
  have hstored := stored_storeAt mem 0 bs
  rw [hsplit, stored_append, stored_append, ← hsplit, Nat.zero_add] at hstored
  have htake : (bs.take p).length = p := length_take_of_le (by omega)
  have hmid : ((bs.drop p).take n).length = n := length_take_of_le (by
    rw [length_drop]
    omega)
  have hread := hstored.2.1
  rwa [Stored, htake, hmid] at hread

theorem pageBase_next (a : BitVec 64) : pageBase (a + 0x1000) = pageBase a + 0x1000 := by
  have hsize : (0x1000 : BitVec 64).toNat = 4096 := rfl
  apply BitVec.eq_of_toNat_eq
  rw [toNat_pageBase, BitVec.toNat_add, BitVec.toNat_add, toNat_pageBase, hsize]
  omega

theorem pageBase_of_mem_places {b : BitVec 64} (h : b ∈ places a 16) :
    pageBase b = pageBase a ∨
      pageBase b = pageBase (a + 0x1000) ∧ 0x1000 - 16 < (pageOffset a).toNat := by
  obtain ⟨i, hi, rfl⟩ := mem_places.1 h
  by_cases hinside : (pageOffset a).toNat + i < 4096
  · exact .inl (pageBase_add hinside)
  · refine .inr ⟨?_, by omega⟩
    have hsize : (0x1000 : BitVec 64).toNat = 4096 := rfl
    rw [toNat_pageOffset] at hinside
    apply BitVec.eq_of_toNat_eq
    rw [toNat_pageBase, toNat_pageBase, BitVec.toNat_add, BitVec.toNat_add, BitVec.toNat_ofNat,
      hsize]
    omega

end Bytes

/-! ## The window -/

section Window

variable {g : GuestCode} {address : BitVec 64} (disasm : List UInt8 → BitVec 64 → Bool)
  (cache : Mem)

theorem window_inside (h : g.available (pageBase address) = true)
    (hoffset : (pageOffset address).toNat < 0x1000 - 16) :
    (pageCacheDisassembleIter g disasm cache address).window = some (g.bytes address 16) := by
  have hbase : pageBase address + BitVec.ofNat 64 (pageOffset address).toNat = address := by
    rw [BitVec.ofNat_toNat, BitVec.setWidth_eq, pageBase_add_pageOffset]
  rw [pageCacheDisassembleIter, GuestCode.fetch, if_pos h]
  dsimp only
  rw [if_neg (by omega), g.bytes_drop_take _ (by omega), hbase]

theorem pageBase_add_codePtr (hoffset : (pageOffset address).toNat ≥ 0x1000 - 16) :
    pageBase address + BitVec.ofNat 64 (0x1000 - 16) +
      BitVec.ofNat 64 (0xf - (0xfff - (pageOffset address).toNat)) = address := by
  have hlt := pageOffset_lt address
  have hsum : 0x1000 - 16 + (0xf - (0xfff - (pageOffset address).toNat)) =
      (pageOffset address).toNat := by omega
  rw [add_ofNat_add, hsum, BitVec.ofNat_toNat, BitVec.setWidth_eq, pageBase_add_pageOffset]

theorem window_twoPages (h : g.available (pageBase address) = true)
    (hoffset : (pageOffset address).toNat ≥ 0x1000 - 16)
    (hnext : g.available (pageBase (address + 0x1000)) = true) :
    (pageCacheDisassembleIter g disasm cache address).window = some (g.bytes address 16) := by
  -- the buffer holds 32 bytes from 16 bytes before the end of the page on
  have hbuffer : storeAt (storeAt cache 0
        (g.bytes (pageBase address + BitVec.ofNat 64 (0x1000 - 16)) 16)) 16
        (g.bytes (pageBase address + 0x1000) 16) =
      storeAt cache 0 (g.bytes (pageBase address + BitVec.ofNat 64 (0x1000 - 16)) 32) := by
    rw [g.bytes_add _ 16 16, storeAt_append, g.length_bytes, add_ofNat_add]
    rfl
  rw [pageCacheDisassembleIter, GuestCode.fetch, if_pos h, GuestCode.fetch, if_pos hnext]
  dsimp only
  rw [if_pos hoffset, g.bytes_drop_take _ (by decide), pageBase_next]
  have hfirst : (g.bytes (pageBase address + 0x1000) 4096).take 16 =
      g.bytes (pageBase address + 0x1000) 16 := by
    have htake := g.bytes_drop_take (pageBase address + 0x1000) (by decide : 0 + 16 ≤ 4096)
    rwa [drop_zero, BitVec.add_zero] at htake
  rw [hfirst, hbuffer, bytesAt_storeAt_zero _ (by rw [g.length_bytes]; omega),
    g.bytes_drop_take _ (by omega), pageBase_add_codePtr hoffset]

theorem window_lastPage (h : g.available (pageBase address) = true)
    (hoffset : (pageOffset address).toNat ≥ 0x1000 - 16)
    (hnext : g.available (pageBase (address + 0x1000)) = false) :
    (pageCacheDisassembleIter g disasm cache address).window =
      some (g.bytes address (0xfff - (pageOffset address).toNat)) := by
  rw [pageCacheDisassembleIter, GuestCode.fetch, if_pos h, GuestCode.fetch, hnext]
  dsimp only
  rw [if_pos hoffset, if_neg Bool.false_ne_true, g.bytes_drop_take _ (by decide)]
  dsimp only
  rw [bytesAt_storeAt_zero _ (by rw [g.length_bytes]; omega), g.bytes_drop_take _ (by omega),
    pageBase_add_codePtr hoffset]
  split <;> rfl

/-- **The window is right** just if the address is not near the end of its page, or the next page
can be had. -/
theorem window_right_iff (g : GuestCode) (disasm : List UInt8 → BitVec 64 → Bool) (cache : Mem)
    (address : BitVec 64) (h : g.available (pageBase address) = true) :
    (pageCacheDisassembleIter g disasm cache address).window = some (g.window address) ↔
      (pageOffset address).toNat < 0x1000 - 16 ∨
        g.available (pageBase (address + 0x1000)) = true := by
  rcases Nat.lt_or_ge (pageOffset address).toNat (0x1000 - 16) with hoffset | hoffset
  · refine iff_of_true ?_ (.inl hoffset)
    rw [window_inside disasm cache h hoffset, GuestCode.window, if_pos]
    intro a ha
    rcases pageBase_of_mem_places ha with hbase | ⟨-, hlt⟩
    · exact (congrArg g.available hbase).trans h
    · omega
  · cases hnext : g.available (pageBase (address + 0x1000)) with
    | true =>
      refine iff_of_true ?_ (.inr rfl)
      rw [window_twoPages disasm cache h hoffset hnext, GuestCode.window, if_pos]
      intro a ha
      rcases pageBase_of_mem_places ha with hbase | ⟨hbase, -⟩
      · exact (congrArg g.available hbase).trans h
      · exact (congrArg g.available hbase).trans hnext
    | false =>
      have hlt := pageOffset_lt address
      refine iff_of_false (fun hwindow => ?_) (by simp; omega)
      rw [window_lastPage disasm cache h hoffset hnext] at hwindow
      have hlen := congrArg length (Option.some.inj hwindow)
      rw [g.length_bytes, GuestCode.window] at hlen
      split at hlen
      · rw [g.length_bytes] at hlen
        omega
      · rw [g.length_bytes] at hlen
        omega

end Window

/-- Two pages, and other code on the second one. -/
def twoCodePages : GuestCode :=
  ⟨fun a => if a < 0x1000 then 0x90 else 0xc3, fun page => page == 0 || page == 0x1000⟩

theorem window_right_twoCodePages :
    twoCodePages.available (pageBase 0xff8) = true ∧
      (pageCacheDisassembleIter twoCodePages (fun _ _ => true) (fun _ => 0) 0xff8).window =
        some (twoCodePages.window 0xff8) ∧
      twoCodePages.window 0xff8 = replicate 8 0x90 ++ replicate 8 0xc3 := by
  have hall : ∀ a ∈ places 0xff8 16, twoCodePages.available (pageBase a) := by
    intro a ha
    rcases pageBase_of_mem_places ha with hbase | ⟨hbase, -⟩
    all_goals
      rw [hbase]
      decide
  refine ⟨by decide, (window_right_iff twoCodePages _ _ 0xff8 (by decide)).2 (.inr (by decide)), ?_⟩
  rw [GuestCode.window, if_pos hall]
  decide

def oneCodePage : GuestCode := ⟨fun _ => 0x90, fun page => page == 0⟩

theorem window_oneCodePage_short :
    oneCodePage.available (pageBase 0xff0) = true ∧
      (pageCacheDisassembleIter oneCodePage (fun _ _ => true) (fun _ => 0) 0xff0).window =
        some (List.replicate 15 0x90) ∧
      oneCodePage.window 0xff0 = List.replicate 16 0x90 := by
  have hbytes : ∀ n, oneCodePage.bytes 0xff0 n = replicate n 0x90 := by
    intro n
    rw [GuestCode.bytes, oneCodePage, map_const', length_places]
  have hpage : oneCodePage.available (pageBase 0xff0) = true := by decide
  have hall : ∀ a ∈ places 0xff0 16, oneCodePage.available (pageBase a) := by
    intro a ha
    rcases pageBase_of_mem_places ha with hbase | ⟨-, hlt⟩
    · exact (congrArg oneCodePage.available hbase).trans hpage
    · exact absurd hlt (by decide)
  refine ⟨hpage, ?_, ?_⟩
  · rw [window_lastPage _ _ hpage (by decide) (by decide), hbytes]
    rfl
  · rw [GuestCode.window, if_pos hall, hbytes]

end FuzzSocketCan.Qemu
