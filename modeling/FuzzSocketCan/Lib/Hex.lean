import Mathlib.Algebra.GroupWithZero.Nat
import Mathlib.Data.List.Basic

/-! # Hexadecimal numbers

Numbers are written with a given number of digits, or without leading zeros, and read again.
-/

namespace FuzzSocketCan.Lib.Hex

open List Option

/-! ## Digits -/

def lower (n : ℕ) : Char :=
  (['0', '1', '2', '3', '4', '5', '6', '7', '8', '9', 'a', 'b', 'c', 'd', 'e', 'f']).getD n '0'

def upper (n : ℕ) : Char :=
  (['0', '1', '2', '3', '4', '5', '6', '7', '8', '9', 'A', 'B', 'C', 'D', 'E', 'F']).getD n '0'

def value (c : Char) : Option ℕ :=
  if '0' ≤ c ∧ c ≤ '9' then some (c.toNat - 48)
  else if 'a' ≤ c ∧ c ≤ 'f' then some (c.toNat - 87)
  else if 'A' ≤ c ∧ c ≤ 'F' then some (c.toNat - 55)
  else none

def isDigit (c : Char) : Bool := (value c).isSome

/-- `d` writes the digits that `value` reads. -/
def Writes (d : ℕ → Char) : Prop := ∀ n, n < 16 → value (d n) = some n

theorem writes_lower : Writes lower := by
  unfold Writes
  decide

theorem writes_upper : Writes upper := by
  unfold Writes
  decide

/-! ## Writing -/

/-- The last `w` digits of a number. -/
def padded (d : ℕ → Char) : ℕ → ℕ → List Char
  | 0, _ => []
  | w + 1, n => padded d w (n / 16) ++ [d (n % 16)]

def stripped (d : ℕ → Char) (w n : ℕ) : List Char :=
  match (padded d w n).dropWhile (· = d 0) with
  | [] => [d 0]
  | c :: cs => c :: cs

/-! ## Reading -/

/-- The number; `none` if some character is no digit. -/
def read (s : List Char) : Option ℕ :=
  s.foldlM (fun n c => (value c).map (16 * n + ·)) 0

/-- Bytes of two digits each. -/
def decode : List Char → Option (List UInt8)
  | [] => some []
  | [_] => none
  | a :: b :: s => do
      let hi ← value a
      let lo ← value b
      let bs ← decode s
      some (UInt8.ofNat (16 * hi + lo) :: bs)

section

variable {d : ℕ → Char}

variable {c : Char}

theorem isDigit_of_mem_padded (hd : Writes d) {w n : ℕ} (hc : c ∈ padded d w n) : isDigit c := by
  induction w generalizing n with
  | zero => cases hc
  | succ w ih =>
    rw [padded, mem_append, mem_singleton] at hc
    rcases hc with hc | rfl
    · exact ih hc
    · rw [isDigit, hd _ (Nat.mod_lt n (by decide))]
      rfl

/-- **What is written is read back**, modulo the width. -/
theorem read_padded (hd : Writes d) (w n : ℕ) : read (padded d w n) = some (n % 16 ^ w) := by
  induction w generalizing n with
  | zero => rw [Nat.pow_zero, Nat.mod_one]; rfl
  | succ w ih =>
    have hfront : read (padded d w (n / 16)) = _ := ih (n / 16)
    rw [read] at hfront
    rw [padded, read, List.foldlM_append, hfront]
    simp only [Option.bind_eq_bind, Option.bind_some, List.foldlM_cons, List.foldlM_nil,
      hd _ (Nat.mod_lt n (by decide : 0 < 16)), Option.map_some, Option.pure_def, Option.some.injEq]
    rw [Nat.pow_succ, Nat.mul_comm (16 ^ w) 16, Nat.mod_mul, Nat.add_comm]

theorem read_dropWhile (hd : Writes d) (s : List Char) : read (s.dropWhile (· = d 0)) = read s := by
  induction s with
  | nil => rfl
  | cons c s ih =>
    by_cases hc : c = d 0
    · rw [dropWhile_cons_of_pos (by simp [hc]), ih, hc, read, read, foldlM_cons,
        hd 0 (by decide)]
      rfl
    · rw [dropWhile_cons_of_neg (by simp [hc])]

theorem stripped_spec (d : ℕ → Char) (w n : ℕ) :
    stripped d w n = [d 0] ∧ (padded d w n).dropWhile (· = d 0) = [] ∨
      stripped d w n = (padded d w n).dropWhile (· = d 0) ∧ stripped d w n ≠ [] := by
  unfold stripped
  split
  · exact Or.inl ⟨rfl, ‹_›⟩
  · rename_i h
    exact Or.inr ⟨h.symm, cons_ne_nil _ _⟩

theorem read_stripped (hd : Writes d) (w n : ℕ) : read (stripped d w n) = some (n % 16 ^ w) := by
  rw [← read_padded hd, ← read_dropWhile hd (padded d w n)]
  rcases stripped_spec d w n with ⟨h, hnil⟩ | ⟨h, -⟩
  · rw [h, hnil, read, foldlM_cons, hd 0 (by decide)]
    rfl
  · rw [h]

theorem stripped_ne_nil (d : ℕ → Char) (w n : ℕ) : stripped d w n ≠ [] := by
  rcases stripped_spec d w n with ⟨h, -⟩ | ⟨-, h⟩
  · simp [h]
  · exact h

theorem isDigit_of_mem_stripped (hd : Writes d) {w n : ℕ} (hc : c ∈ stripped d w n) :
    isDigit c := by
  rcases stripped_spec d w n with ⟨h, -⟩ | ⟨h, -⟩
  · rw [h, mem_singleton] at hc
    rw [hc, isDigit, hd 0 (by decide)]
    rfl
  · rw [h] at hc
    exact isDigit_of_mem_padded hd ((dropWhile_sublist _).mem hc)

/-! ## Bytes -/

def bytesBE : ℕ → ℕ → List UInt8
  | 0, _ => []
  | k + 1, n => bytesBE k (n / 256) ++ [UInt8.ofNat n]

@[simp] theorem length_bytesBE (k n : ℕ) : (bytesBE k n).length = k := by
  induction k generalizing n with
  | zero => rfl
  | succ k ih => rw [bytesBE, length_append, ih, length_singleton]

def encode (d : ℕ → Char) (bs : List UInt8) : List Char := bs.flatMap fun b => padded d 2 b.toNat

theorem encode_append (d : ℕ → Char) (bs cs : List UInt8) :
    encode d (bs ++ cs) = encode d bs ++ encode d cs := flatMap_append

theorem encode_ofNat (d : ℕ → Char) (n : ℕ) :
    encode d [UInt8.ofNat n] = [d (n / 16 % 16), d (n % 16)] := by
  have hbyte : (UInt8.ofNat n).toNat = n % 256 := UInt8.toNat_ofNat'
  have hhigh : n % 256 / 16 % 16 = n / 16 % 16 := by omega
  have hlow : n % 256 % 16 = n % 16 := Nat.mod_mod_of_dvd n (by decide)
  simp only [encode, flatMap_cons, flatMap_nil, append_nil, padded, nil_append,
    singleton_append, hbyte, hhigh, hlow]

theorem padded_eq_encode (d : ℕ → Char) (k n : ℕ) :
    padded d (2 * k) n = encode d (bytesBE k n) := by
  induction k generalizing n with
  | zero => rfl
  | succ k ih =>
    rw [show 2 * (k + 1) = 2 * k + 1 + 1 by omega, padded, padded, Nat.div_div_eq_div_mul, ih,
      bytesBE, encode_append, encode_ofNat, append_assoc]
    rfl

/-- **Bytes round trip.** -/
theorem decode_encode (hd : Writes d) (bs : List UInt8) : decode (encode d bs) = some bs := by
  induction bs with
  | nil => rfl
  | cons b bs ih =>
    have hlt := b.toNat_lt
    have hhi := hd (b.toNat / 16 % 16) (Nat.mod_lt _ (by decide))
    have hlo := hd (b.toNat % 16) (Nat.mod_lt _ (by decide))
    have hbyte : UInt8.ofNat (16 * (b.toNat / 16 % 16) + b.toNat % 16) = b := by
      rw [show 16 * (b.toNat / 16 % 16) + b.toNat % 16 = b.toNat by omega, UInt8.ofNat_toNat]
    show decode (d (b.toNat / 16 % 16) :: d (b.toNat % 16) :: encode d bs) = some (b :: bs)
    rw [decode, hhi, hlo, ih]
    simp only [bind_eq_bind, bind_some, hbyte]

theorem isDigit_of_mem_encode (hd : Writes d) {bs : List UInt8} (hc : c ∈ encode d bs) :
    isDigit c := by
  obtain ⟨b, -, hc⟩ := mem_flatMap.1 hc
  exact isDigit_of_mem_padded hd hc

theorem encode_ne_nil (d : ℕ → Char) {bs : List UInt8} (h : bs ≠ []) : encode d bs ≠ [] := by
  obtain ⟨b, bs, rfl⟩ := exists_cons_of_ne_nil h
  simp [encode, padded]

end

end FuzzSocketCan.Lib.Hex
