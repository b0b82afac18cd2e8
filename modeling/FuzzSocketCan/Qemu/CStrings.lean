import Mathlib.Data.List.TakeWhile
import Mathlib.Tactic.Common

/-! # Strings of C

In an array a string ends in front of the first zero (`cstr`); `strncpy` writes one of `n` bytes
or more without a zero, so that what stands behind is read as a part of it (`cstr_strncpy`).
-/

namespace FuzzSocketCan.Qemu

open List

@[ext]
structure CString where
  bytes : List UInt8
  zero_notMem : 0 ∉ bytes
deriving DecidableEq

def ascii (s : String) : List UInt8 := s.toList.map fun c => UInt8.ofNat c.toNat

/-- Fills up with zeros. -/
def strncpy (src : CString) (n : ℕ) : List UInt8 :=
  src.bytes.take n ++ List.replicate (n - src.bytes.length) 0

def cstr (array : List UInt8) : CString where
  bytes := array.takeWhile (· != 0)
  zero_notMem := fun h => by simpa using List.mem_takeWhile_imp h

theorem takeWhile_append_zero {bytes : List UInt8} (h : 0 ∉ bytes) (rest : List UInt8) :
    (bytes ++ rest).takeWhile (· != 0) = bytes ++ rest.takeWhile (· != 0) := by
  refine takeWhile_append_of_pos ?_
  intro b hb
  rw [bne_iff_ne]
  rintro rfl
  exact h hb

theorem cstr_append_zero (s : CString) (rest : List UInt8) : cstr (s.bytes ++ 0 :: rest) = s := by
  obtain ⟨bytes, hzero⟩ := s
  rw [cstr, CString.mk.injEq, takeWhile_append_zero hzero]
  simp

theorem cstr_strncpy (s : CString) (n : ℕ) (rest : List UInt8) :
    (cstr (strncpy s n ++ rest)).bytes =
      if s.bytes.length < n then s.bytes else s.bytes.take n ++ (cstr rest).bytes := by
  rw [strncpy]
  split
  case isTrue hlt =>
    obtain ⟨k, hk⟩ : ∃ k, n - s.bytes.length = k + 1 := ⟨n - s.bytes.length - 1, by omega⟩
    rw [take_of_length_le (Nat.le_of_lt hlt), hk, replicate_succ, append_assoc,
      cons_append, cstr_append_zero]
  case isFalse hge =>
    have htake : 0 ∉ s.bytes.take n := fun h => s.zero_notMem (mem_of_mem_take h)
    rw [Nat.sub_eq_zero_of_le (Nat.le_of_not_lt hge), replicate_zero, append_nil]
    exact takeWhile_append_zero htake rest

end FuzzSocketCan.Qemu
