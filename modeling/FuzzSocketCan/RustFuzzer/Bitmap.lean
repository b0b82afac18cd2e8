import Mathlib.Data.List.GetD
import FuzzSocketCan.StructuredFuzzer.Random

/-! # Coverage maps

A `BitmapHandler` keeps one `Bitmap` for each exit class.

* **`BitmapHandler.checkNewBytes`** — what a run saw that no run of its class had seen before.
* **`Bitmap.height`** — the level of a slot, which only rises. -/

namespace FuzzSocketCan

open List

/-! ## Why an input is stored -/

inductive ExitReason
  | normal (code : Int32)
  | timeout
  | signaled (signal : Int32)
  | crash (description : List UInt8)
  | asan
  | stopped (signal : Int32)
  | fuzzerError
  | invalidWriteToPayload (description : List UInt8)
  deriving DecidableEq, Repr

structure BitmapStorageReason where
  index : ℕ
  old : UInt8
  new : UInt8
  deriving DecidableEq, Repr

structure IjonMaxStorageReason where
  index : ℕ
  old : UInt64
  new : UInt64
  deriving DecidableEq, Repr

inductive StorageReason
  | bitmap (reason : BitmapStorageReason)
  | ijonMax (reason : IjonMaxStorageReason)
  | imported
  deriving DecidableEq, Repr

def StorageReason.hasNewByte : StorageReason → Bool
  | bitmap r => r.old == 0
  | ijonMax _ => true
  | imported => false

/-! ## One map -/

structure Bitmap where
  bits : List UInt8
  ijonMax : List UInt64
  deriving DecidableEq, Repr

def ijonMaxSize : ℕ := 256

def Bitmap.new (size : ℕ) : Bitmap :=
  ⟨List.replicate size 0, List.replicate ijonMaxSize 0⟩

def Bitmap.newFromBuffer (buff : List UInt8) (ijonBuff : List UInt64) : Bitmap := ⟨buff, ijonBuff⟩

/-- Where the run's value is new (`isNew old new`) it is reported and replaces the old one. -/
def raiseSlots {α : Type} (isNew : α → α → Bool) (reason : ℕ → α → α → StorageReason) :
    ℕ → List α → List α → Option (List StorageReason) → List α × Option (List StorageReason)
  | i, old :: olds, new :: news, res =>
    if isNew old new then
      let (olds', res') :=
        raiseSlots isNew reason (i + 1) olds news (some (res.getD [] ++ [reason i old new]))
      (new :: olds', res')
    else
      let (olds', res') := raiseSlots isNew reason (i + 1) olds news res
      (old :: olds', res')
  | _, olds, _, res => (olds, res)

def isNewByte (old new : UInt8) : Bool := new > old && old == 0

def isNewMax (old new : UInt64) : Bool := new > old

def Bitmap.checkNewBytes (m : Bitmap) (runBitmap : List UInt8) (runIjon : List UInt64) :
    Except Panic (Bitmap × Option (List StorageReason)) :=
  if m.bits.length = runBitmap.length then
    let (bits, res) := raiseSlots isNewByte
      (fun i old new => .bitmap ⟨i, old, new⟩) 0 m.bits runBitmap none
    let (ijonMax, res) := raiseSlots isNewMax
      (fun i old new => .ijonMax ⟨i, old, new⟩) 0 m.ijonMax runIjon res
    .ok (⟨bits, ijonMax⟩, res)
  else .error .assertionFailed

/-! ## One map for each exit class -/

inductive ExitClass
  | normal
  | crash
  | timeout
  | invalidWriteToPayload
  deriving DecidableEq, Repr

def ExitReason.class? : ExitReason → Option ExitClass
  | normal _ => some .normal
  | crash _ => some .crash
  | timeout => some .timeout
  | invalidWriteToPayload _ => some .invalidWriteToPayload
  | _ => none

structure BitmapHandler where
  normal : Bitmap
  crash : Bitmap
  timeout : Bitmap
  invalidWriteToPayload : Bitmap
  size : ℕ
  deriving DecidableEq, Repr

namespace BitmapHandler

def new (size : ℕ) : BitmapHandler :=
  ⟨.new size, .new size, .new size, .new size, size⟩

def map (h : BitmapHandler) : ExitClass → Bitmap
  | .normal => h.normal
  | .crash => h.crash
  | .timeout => h.timeout
  | .invalidWriteToPayload => h.invalidWriteToPayload

def setMap (h : BitmapHandler) (c : ExitClass) (m : Bitmap) : BitmapHandler :=
  match c with
  | .normal => { h with normal := m }
  | .crash => { h with crash := m }
  | .timeout => { h with timeout := m }
  | .invalidWriteToPayload => { h with invalidWriteToPayload := m }

def checkNewBytes (h : BitmapHandler) (runBitmap : List UInt8) (ijonMaxMap : List UInt64)
    (etype : ExitReason) : Except Panic (BitmapHandler × Option (List StorageReason)) :=
  match etype.class? with
  | none => .ok (h, none)
  | some c => do
      let (m, res) ← (h.map c).checkNewBytes runBitmap ijonMaxMap
      pure (h.setMap c m, res)

@[simp] theorem map_setMap_self (h : BitmapHandler) (c : ExitClass) (m : Bitmap) :
    (h.setMap c m).map c = m := by
  cases c <;> rfl

theorem map_setMap_of_ne (h : BitmapHandler) {c d : ExitClass} (m : Bitmap) (hne : d ≠ c) :
    (h.setMap c m).map d = h.map d := by
  cases c <;> cases d <;> first | rfl | exact absurd rfl hne

@[simp] theorem map_new (size : ℕ) (c : ExitClass) :
    (BitmapHandler.new size).map c = Bitmap.new size := by
  cases c <;> rfl

end BitmapHandler

/-! ## Heights

A slot of a map is a bitmap byte or an ijon maximum. All that a check asks of a slot is whether the
run is higher there: a byte has height one as soon as it is not zero, a maximum its value. -/

/-- A byte of the bitmap, or an ijon slot. -/
inductive Slot
  | bit (index : ℕ)
  | ijon (index : ℕ)
  deriving DecidableEq, Repr

def byteLevel (b : UInt8) : ℕ := if b = 0 then 0 else 1

theorem isNewByte_iff (old new : UInt8) : isNewByte old new ↔ byteLevel old < byteLevel new := by
  simp only [isNewByte, byteLevel, gt_iff_lt, Bool.and_eq_true, decide_eq_true_eq, beq_iff_eq]
  constructor
  · rintro ⟨hlt, rfl⟩
    rw [if_pos rfl, if_neg (UInt8.pos_iff_ne_zero.mp hlt)]
    exact one_pos
  · intro hlt
    split at hlt <;> split at hlt <;> try omega
    rename_i hold hnew
    exact ⟨hold ▸ UInt8.pos_iff_ne_zero.mpr hnew, hold⟩

theorem isNewMax_iff (old new : UInt64) : isNewMax old new ↔ old.toNat < new.toNat := by
  simp [isNewMax, UInt64.lt_iff_toNat_lt]

/-- How far a slot has got. -/
def Bitmap.height (m : Bitmap) : Slot → ℕ
  | .bit i => byteLevel (m.bits.getD i 0)
  | .ijon i => (m.ijonMax.getD i 0).toNat

def runHeight (runBitmap : List UInt8) (runIjon : List UInt64) : Slot → ℕ :=
  (Bitmap.newFromBuffer runBitmap (runIjon.take ijonMaxSize)).height

section RaiseSlots

variable {α : Type} {isNew : α → α → Bool} {reason : ℕ → α → α → StorageReason}

theorem length_raiseSlots (i : ℕ) (olds news : List α) (res : Option (List StorageReason)) :
    (raiseSlots isNew reason i olds news res).1.length = olds.length := by
  induction olds generalizing i news res with
  | nil => cases news <;> rfl
  | cons old olds ih =>
    cases news with
    | nil => rfl
    | cons new news =>
      simp only [raiseSlots]
      split <;> simp [ih]

variable {level : α → ℕ} {d : α}

theorem level_raiseSlots (hnew : ∀ old new, isNew old new ↔ level old < level new)
    (hd : level d = 0) (i : ℕ) (olds news : List α) (res : Option (List StorageReason)) (j : ℕ) :
    level ((raiseSlots isNew reason i olds news res).1.getD j d) =
      max (level (olds.getD j d)) (level ((news.take olds.length).getD j d)) := by
  induction olds generalizing i news res j with
  | nil => cases news <;> simp [raiseSlots, hd]
  | cons old olds ih =>
    cases news with
    | nil => simp [raiseSlots, hd]
    | cons new news =>
      simp only [raiseSlots, length_cons, take_succ_cons]
      -- The slot at hand changes only if the value is new; the others are the induction's.
      by_cases h : isNew old new
      · rw [if_pos h]
        cases j with
        | zero => simpa using le_of_lt ((hnew old new).mp h)
        | succ j => simpa using ih (i + 1) news _ j
      · rw [if_neg h]
        cases j with
        | zero => simpa using not_lt.mp (mt (hnew old new).mpr h)
        | succ j => simpa using ih (i + 1) news _ j

theorem mem_raiseSlots (hnew : ∀ old new, isNew old new ↔ level old < level new) (hd : level d = 0)
    (i : ℕ) (olds news : List α) (res : Option (List StorageReason)) (r : StorageReason) :
    r ∈ (raiseSlots isNew reason i olds news res).2.getD [] ↔
      r ∈ res.getD [] ∨ ∃ j, level (olds.getD j d) < level ((news.take olds.length).getD j d) ∧
        r = reason (i + j) (olds.getD j d) (news.getD j d) := by
  induction olds generalizing i news res with
  | nil => cases news <;> simp [raiseSlots, hd]
  | cons old olds ih =>
    cases news with
    | nil => simp [raiseSlots, hd]
    | cons new news =>
      have hidx : ∀ j, reason (i + (j + 1)) = reason (i + 1 + j) := by
        intro j
        rw [add_assoc, add_comm 1 j]
      rw [← Nat.or_exists_add_one]
      simp only [raiseSlots, getD_cons_zero, getD_cons_succ, length_cons,
        take_succ_cons, ← hnew old new, add_zero, hidx]
      by_cases h : isNew old new
      · rw [if_pos h, ih]
        simp [h, or_assoc]
      · rw [if_neg h, ih]
        simp [h]

theorem isSome_raiseSlots (hnew : ∀ old new, isNew old new ↔ level old < level new)
    (hd : level d = 0) (i : ℕ) (olds news : List α) (res : Option (List StorageReason)) :
    (raiseSlots isNew reason i olds news res).2.isSome ↔
      res.isSome ∨ ∃ j, level (olds.getD j d) < level ((news.take olds.length).getD j d) := by
  induction olds generalizing i news res with
  | nil => cases news <;> simp [raiseSlots, hd]
  | cons old olds ih =>
    cases news with
    | nil => simp [raiseSlots, hd]
    | cons new news =>
      rw [← Nat.or_exists_add_one]
      simp only [raiseSlots, getD_cons_zero, getD_cons_succ, length_cons,
        take_succ_cons, ← hnew old new]
      by_cases h : isNew old new
      · rw [if_pos h, ih]
        simp [h]
      · rw [if_neg h, ih]
        simp [h]

end RaiseSlots

/-! ## What a check does to the heights -/

def Bitmap.Sized (m : Bitmap) (size : ℕ) : Prop :=
  m.bits.length = size ∧ m.ijonMax.length = ijonMaxSize

theorem Bitmap.sized_new (size : ℕ) : (Bitmap.new size).Sized size := by
  simp [Bitmap.Sized, Bitmap.new]

theorem Bitmap.height_new (size : ℕ) (x : Slot) : (Bitmap.new size).height x = 0 := by
  cases x <;> simp [Bitmap.height, Bitmap.new, byteLevel]

def Bitmap.reasonAt (m : Bitmap) (runBitmap : List UInt8) (runIjon : List UInt64) :
    Slot → StorageReason
  | .bit i => .bitmap ⟨i, m.bits.getD i 0, runBitmap.getD i 0⟩
  | .ijon i => .ijonMax ⟨i, m.ijonMax.getD i 0, runIjon.getD i 0⟩

/-- **What `check_new_bytes` does**: it raises slots and reports them. -/
structure Raised (m : Bitmap) (runBitmap : List UInt8) (runIjon : List UInt64) (size : ℕ)
    (m' : Bitmap) (res : Option (List StorageReason)) : Prop where
  sized : m'.Sized size
  height : ∀ x, m'.height x = max (m.height x) (runHeight runBitmap runIjon x)
  mem : ∀ r, r ∈ res.getD [] ↔
    ∃ x, m.height x < runHeight runBitmap runIjon x ∧ r = m.reasonAt runBitmap runIjon x
  isSome : res.isSome ↔ ∃ x, m.height x < runHeight runBitmap runIjon x

theorem Slot.exists_iff {p : Slot → Prop} : (∃ x, p x) ↔ (∃ i, p (.bit i)) ∨ ∃ i, p (.ijon i) := by
  constructor
  · rintro ⟨i | i, h⟩
    · exact .inl ⟨i, h⟩
    · exact .inr ⟨i, h⟩
  · rintro (⟨i, h⟩ | ⟨i, h⟩)
    · exact ⟨_, h⟩
    · exact ⟨_, h⟩

theorem Bitmap.checkNewBytes_of_sized {m : Bitmap} {size : ℕ} (hm : m.Sized size)
    {runBitmap : List UInt8} (runIjon : List UInt64) (hrun : runBitmap.length = size) :
    ∃ m' res, m.checkNewBytes runBitmap runIjon = .ok (m', res) ∧
      Raised m runBitmap runIjon size m' res := by
  have htake : runBitmap.take m.bits.length = runBitmap := by
    rw [hm.1, ← hrun, take_length]
  have hbit : byteLevel 0 = 0 := rfl
  have hijon : (0 : UInt64).toNat = 0 := rfl
  refine ⟨_, _, if_pos (hm.1.trans hrun.symm), ⟨?_, ?_⟩, ?_, ?_, ?_⟩
  · rw [length_raiseSlots, hm.1]
  · rw [length_raiseSlots, hm.2]
  · rintro (i | i)
    · refine (level_raiseSlots isNewByte_iff hbit 0 m.bits runBitmap none i).trans ?_
      rw [htake]
      rfl
    · refine (level_raiseSlots isNewMax_iff hijon 0 m.ijonMax runIjon _ i).trans ?_
      rw [hm.2]
      rfl
  · intro r
    rw [mem_raiseSlots isNewMax_iff hijon, mem_raiseSlots isNewByte_iff hbit, Slot.exists_iff,
      htake, hm.2]
    simp only [Option.getD_none, not_mem_nil, false_or, zero_add]
    exact Iff.rfl
  · rw [isSome_raiseSlots isNewMax_iff hijon,
      isSome_raiseSlots isNewByte_iff hbit, Slot.exists_iff, htake, hm.2]
    simp only [Option.isSome_none, Bool.false_eq_true, false_or]
    exact Iff.rfl

end FuzzSocketCan
