import FuzzSocketCan.Lib.LittleEndian

/-! # Byte-addressed memory

A memory gives a byte for every address.

* **`bytesAt`**, **`wordAt`** — a block, and a little-endian number.
* **`Stored mem a bs`** — the block at `a` holds `bs`. -/

namespace FuzzSocketCan.Lib

open List

abbrev Mem := ℕ → UInt8

/-- The `n` bytes from address `a` on. -/
def bytesAt (mem : Mem) : ℕ → ℕ → List UInt8
  | _, 0 => []
  | a, n + 1 => mem a :: bytesAt mem (a + 1) n

def wordAt (mem : Mem) (n a : ℕ) : ℕ := ofLe (bytesAt mem a n)

def Stored (mem : Mem) (a : ℕ) (bs : List UInt8) : Prop := bytesAt mem a bs.length = bs

instance (mem : Mem) (a : ℕ) (bs : List UInt8) : Decidable (Stored mem a bs) :=
  inferInstanceAs (Decidable (_ = _))

/-- A memory that begins with `bs`. -/
def memOf (bs : List UInt8) : Mem := fun i => bs.getD i 0

variable {mem : Mem} {a : ℕ} {bs xs ys : List UInt8}

@[simp] theorem length_bytesAt (mem : Mem) (a n : ℕ) : (bytesAt mem a n).length = n := by
  induction n generalizing a with
  | zero => rfl
  | succ n ih => rw [bytesAt, length_cons, ih]

theorem bytesAt_add (mem : Mem) (a n m : ℕ) :
    bytesAt mem a (n + m) = bytesAt mem a n ++ bytesAt mem (a + n) m := by
  induction n generalizing a with
  | zero => rw [zero_add, bytesAt, nil_append, add_zero]
  | succ n ih =>
    rw [Nat.succ_add_eq_add_succ, Nat.add_succ, bytesAt, ih, bytesAt, cons_append]
    congr 3
    omega

theorem stored_bytesAt (mem : Mem) (a n : ℕ) : Stored mem a (bytesAt mem a n) := by
  rw [Stored, length_bytesAt]

theorem stored_append :
    Stored mem a (xs ++ ys) ↔ Stored mem a xs ∧ Stored mem (a + xs.length) ys := by
  unfold Stored
  rw [length_append, bytesAt_add]
  constructor
  · intro h
    exact append_inj h (length_bytesAt _ _ _)
  · rintro ⟨hxs, hys⟩
    rw [hxs, hys]

theorem stored_cons {b : UInt8} : Stored mem a (b :: bs) ↔ mem a = b ∧ Stored mem (a + 1) bs := by
  unfold Stored
  rw [length_cons, bytesAt, cons.injEq]

theorem stored_memOf (bs : List UInt8) : Stored (memOf bs) 0 bs := by
  suffices h : ∀ (xs ys : List UInt8), Stored (memOf (xs ++ ys)) xs.length ys from h [] bs
  intro xs ys
  induction ys generalizing xs with
  | nil => rfl
  | cons y ys ih =>
    refine stored_cons.2 ⟨?_, ?_⟩
    · rw [memOf, getD_eq_getElem?_getD, getElem?_append_right (le_refl _), Nat.sub_self]
      rfl
    · have := ih (xs ++ [y])
      rwa [append_assoc, singleton_append, length_append] at this

/-- **A word that is stored is read back.** -/
theorem Stored.wordAt {n v : ℕ} (h : Stored mem a (toLe n v)) (hv : v < 256 ^ n) :
    wordAt mem n a = v := by
  rw [Lib.wordAt]
  rw [Stored, length_toLe] at h
  rw [h, ofLe_toLe_of_lt hv]

theorem ofLe_lt (bs : List UInt8) : ofLe bs < 256 ^ bs.length := by
  induction bs with
  | nil => exact one_pos
  | cons b bs ih =>
    have hb : b.toNat < 256 := b.toNat_lt
    rw [ofLe_cons, length_cons, pow_succ']
    omega

theorem wordAt_lt (mem : Mem) (n a : ℕ) : wordAt mem n a < 256 ^ n := by
  have := ofLe_lt (bytesAt mem a n)
  rwa [length_bytesAt] at this

theorem toLe_ofLe (bs : List UInt8) : toLe bs.length (ofLe bs) = bs := by
  induction bs with
  | nil => rfl
  | cons b bs ih =>
    have hb : b.toNat < 256 := b.toNat_lt
    have hlow : UInt8.ofNat (b.toNat + 256 * ofLe bs) = b := by
      apply UInt8.toNat_inj.1
      rw [UInt8.toNat_ofNat']
      omega
    have hhigh : (b.toNat + 256 * ofLe bs) / 256 = ofLe bs := by omega
    rw [length_cons, ofLe_cons, toLe, hlow, hhigh, ih]

theorem toLe_wordAt (mem : Mem) (n a : ℕ) : toLe n (wordAt mem n a) = bytesAt mem a n := by
  have := toLe_ofLe (bytesAt mem a n)
  rwa [length_bytesAt] at this

/-! ## Arrays of numbers -/

/-- The array of `w`-byte numbers `vs`. -/
def arrayOf (w : ℕ) (vs : List ℕ) : List UInt8 := vs.flatMap (toLe w)

def wordsAt (mem : Mem) (w : ℕ) : ℕ → ℕ → List ℕ
  | _, 0 => []
  | a, n + 1 => wordAt mem w a :: wordsAt mem w (a + w) n

@[simp] theorem arrayOf_nil (w : ℕ) : arrayOf w [] = [] := rfl

@[simp] theorem arrayOf_cons (w v : ℕ) (vs : List ℕ) : arrayOf w (v :: vs) = toLe w v ++ arrayOf w vs :=
  rfl

@[simp] theorem arrayOf_append (w : ℕ) (vs us : List ℕ) :
    arrayOf w (vs ++ us) = arrayOf w vs ++ arrayOf w us := flatMap_append

@[simp] theorem length_arrayOf (w : ℕ) (vs : List ℕ) : (arrayOf w vs).length = w * vs.length := by
  induction vs with
  | nil => rfl
  | cons v vs ih => rw [arrayOf_cons, length_append, length_toLe, ih, length_cons]; ring

@[simp] theorem length_wordsAt (mem : Mem) (w a n : ℕ) : (wordsAt mem w a n).length = n := by
  induction n generalizing a with
  | zero => rfl
  | succ n ih => rw [wordsAt, length_cons, ih]

theorem arrayOf_wordsAt (mem : Mem) (w a n : ℕ) :
    arrayOf w (wordsAt mem w a n) = bytesAt mem a (w * n) := by
  induction n generalizing a with
  | zero => rfl
  | succ n ih =>
    rw [wordsAt, arrayOf_cons, ih, toLe_wordAt, Nat.mul_succ, add_comm (w * n), bytesAt_add]

theorem Stored.wordsAt {w : ℕ} {vs : List ℕ} (h : Stored mem a (arrayOf w vs))
    (hv : ∀ v ∈ vs, v < 256 ^ w) : wordsAt mem w a vs.length = vs := by
  induction vs generalizing a with
  | nil => rfl
  | cons v vs ih =>
    obtain ⟨hhead, htail⟩ := stored_append.1 h
    rw [length_toLe] at htail
    rw [length_cons, Lib.wordsAt, hhead.wordAt (hv v mem_cons_self),
      ih htail fun u hu => hv u (mem_cons_of_mem _ hu)]

end FuzzSocketCan.Lib
