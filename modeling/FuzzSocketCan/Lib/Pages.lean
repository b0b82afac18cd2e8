import Mathlib.Data.List.Basic
import Mathlib.Data.Nat.Bitwise

/-! # Pages of 4096 bytes

A 64-bit address is the base of its page and an offset in it.

* **`pagewise`** — goes through a range page by page.
* **`pagewise_eq_map`** — it collects what a pass through the single addresses collects. -/

namespace FuzzSocketCan.Lib

open List

/-! ## Base and offset -/

/-- The beginning of the page. -/
def pageBase (a : BitVec 64) : BitVec 64 := a &&& 0xFFFFFFFFFFFFF000

/-- The offset in the page. -/
def pageOffset (a : BitVec 64) : BitVec 64 := a &&& ~~~0xFFFFFFFFFFFFF000

theorem and_highMask {x : ℕ} (h : x < 2 ^ 64) : x &&& 0xFFFFFFFFFFFFF000 = x / 4096 * 4096 := by
  have hmask : 0xFFFFFFFFFFFFF000 = (2 ^ 52 - 1) * 2 ^ 12 := by decide
  have hsize : 4096 = 2 ^ 12 := by decide
  apply Nat.eq_of_testBit_eq
  intro i
  rw [Nat.testBit_and, hmask, hsize, Nat.testBit_mul_two_pow, Nat.testBit_mul_two_pow,
    Nat.testBit_two_pow_sub_one, Nat.testBit_div_two_pow]
  by_cases hi : 12 ≤ i
  · by_cases hi' : i < 64
    · simp [hi]
      omega
    · -- both sides are beyond the word
      have hbeyond : x.testBit i = false :=
        Nat.testBit_lt_two_pow (lt_of_lt_of_le h (Nat.pow_le_pow_right (by decide) (by omega)))
      simp [hi, hbeyond]
  · simp [hi]

theorem toNat_pageBase (a : BitVec 64) : (pageBase a).toNat = a.toNat / 4096 * 4096 := by
  exact and_highMask a.isLt

theorem toNat_pageOffset (a : BitVec 64) : (pageOffset a).toNat = a.toNat % 4096 := by
  have hmask : ~~~(0xFFFFFFFFFFFFF000 : BitVec 64) = BitVec.ofNat 64 (2 ^ 12 - 1) := by decide
  rw [pageOffset, hmask, BitVec.toNat_and, BitVec.toNat_ofNat, Nat.mod_eq_of_lt (by decide),
    Nat.and_two_pow_sub_one_eq_mod]

theorem pageOffset_lt (a : BitVec 64) : (pageOffset a).toNat < 4096 := by
  rw [toNat_pageOffset]
  exact Nat.mod_lt _ (by decide)

theorem pageBase_add_pageOffset (a : BitVec 64) : pageBase a + pageOffset a = a := by
  apply BitVec.eq_of_toNat_eq
  rw [BitVec.toNat_add, toNat_pageBase, toNat_pageOffset]
  omega

section Inside

variable {a : BitVec 64} {i : ℕ}

theorem toNat_add_of_inside (h : (pageOffset a).toNat + i < 4096) :
    (a + BitVec.ofNat 64 i).toNat = a.toNat + i := by
  rw [toNat_pageOffset] at h
  rw [BitVec.toNat_add, BitVec.toNat_ofNat]
  omega

theorem pageBase_add (h : (pageOffset a).toNat + i < 4096) :
    pageBase (a + BitVec.ofNat 64 i) = pageBase a := by
  apply BitVec.eq_of_toNat_eq
  rw [toNat_pageBase, toNat_pageBase, toNat_add_of_inside h]
  rw [toNat_pageOffset] at h
  omega

theorem pageOffset_add (h : (pageOffset a).toNat + i < 4096) :
    pageOffset (a + BitVec.ofNat 64 i) = pageOffset a + BitVec.ofNat 64 i := by
  apply BitVec.eq_of_toNat_eq
  rw [toNat_pageOffset, toNat_add_of_inside h, BitVec.toNat_add, BitVec.toNat_ofNat]
  rw [toNat_pageOffset] at h ⊢
  omega

end Inside

/-! ## Ranges of addresses -/

/-- `n` addresses from `a` on. -/
def places (a : BitVec 64) (n : ℕ) : List (BitVec 64) :=
  (List.range n).map fun i => a + BitVec.ofNat 64 i

@[simp] theorem places_zero (a : BitVec 64) : places a 0 = [] := rfl

@[simp] theorem length_places (a : BitVec 64) (n : ℕ) : (places a n).length = n := by
  rw [places, length_map, length_range]

variable {n : ℕ}

theorem getElem?_places (a : BitVec 64) {i : ℕ} (h : i < n) :
    (places a n)[i]? = some (a + BitVec.ofNat 64 i) := by
  rw [places, getElem?_map, getElem?_range h]
  rfl

theorem mem_places {a b : BitVec 64} : b ∈ places a n ↔ ∃ i < n, a + BitVec.ofNat 64 i = b := by
  simp [places]

theorem add_ofNat_add (a : BitVec 64) (n m : ℕ) :
    a + BitVec.ofNat 64 n + BitVec.ofNat 64 m = a + BitVec.ofNat 64 (n + m) := by
  rw [BitVec.add_assoc, BitVec.ofNat_add]

theorem places_add (a : BitVec 64) (n m : ℕ) :
    places a (n + m) = places a n ++ places (a + BitVec.ofNat 64 n) m := by
  simp only [places, range_add, map_append, map_map, Function.comp_def,
    add_ofNat_add]

theorem add_ofNat_inj {a : BitVec 64} {i j : ℕ} (hi : i < 2 ^ 64) (hj : j < 2 ^ 64)
    (h : a + BitVec.ofNat 64 i = a + BitVec.ofNat 64 j) : i = j := by
  have hnat := congrArg BitVec.toNat ((BitVec.add_right_inj a).1 h)
  rwa [BitVec.toNat_ofNat, BitVec.toNat_ofNat, Nat.mod_eq_of_lt hi, Nat.mod_eq_of_lt hj] at hnat

/-! ## Page by page -/

section Pagewise

variable {β : Type}

/-- How many of `n` bytes from `a` on lie on its page. -/
def onPage (a : BitVec 64) (n : ℕ) : ℕ := min n (4096 - (pageOffset a).toNat)

theorem onPage_le (a : BitVec 64) (n : ℕ) : onPage a n ≤ n := min_le_left _ _

theorem onPage_pos (a : BitVec 64) (h : n ≠ 0) : 0 < onPage a n := by
  have := pageOffset_lt a
  unfold onPage
  omega

theorem inside_of_lt_onPage {a : BitVec 64} {i : ℕ} (h : i < onPage a n) :
    (pageOffset a).toNat + i < 4096 := by
  unfold onPage at h
  omega

/-- A range in pieces that end with the page. -/
def pagewise (piece : BitVec 64 → ℕ → List β) (a : BitVec 64) (n : ℕ) : List β :=
  if h : n = 0 then []
  else
    have : n - onPage a n < n := Nat.sub_lt (Nat.pos_of_ne_zero h) (onPage_pos a h)
    piece a (onPage a n) ++ pagewise piece (a + BitVec.ofNat 64 (onPage a n)) (n - onPage a n)
termination_by n

/-- **A range is right if its pieces are.** -/
theorem pagewise_eq_map {piece : BitVec 64 → ℕ → List β} {f : BitVec 64 → β}
    (h : ∀ a n, n ≤ onPage a n → piece a n = (places a n).map f) (a : BitVec 64) (n : ℕ) :
    pagewise piece a n = (places a n).map f := by
  induction n using Nat.strong_induction_on generalizing a with
  | _ n ih =>
    rw [pagewise]
    split
    · next hzero => rw [hzero, places_zero, map_nil]
    · next hpos =>
        have hle := onPage_le a n
        have hlt := onPage_pos a hpos
        have hpiece : onPage a n ≤ onPage a (onPage a n) := by
          unfold onPage
          omega
        conv_rhs => rw [← Nat.add_sub_of_le hle, places_add, map_append]
        rw [h a _ hpiece, ih (n - onPage a n) (by omega)]

end Pagewise

end FuzzSocketCan.Lib
