import FuzzSocketCan.Lib.LittleEndian
import FuzzSocketCan.StructuredFuzzer.Random

/-! # Byte buffers and in-place mutations

`DataBuff` is a byte buffer of which a prefix is in use; its operations panic outside their
bounds. `InplaceMutation.apply` inside the used part never panics and keeps the sizes.
-/

namespace FuzzSocketCan

open Lib List

def overwrite {α : Type} (l : List α) (i : ℕ) (xs : List α) : List α :=
  l.take i ++ xs ++ l.drop (i + xs.length)

theorem length_overwrite {α : Type} {l : List α} {i : ℕ} {xs : List α}
    (h : i + xs.length ≤ l.length) : (overwrite l i xs).length = l.length := by
  simp only [overwrite, length_append, length_take, length_drop]
  omega

theorem getElem?_overwrite_of_outside {α : Type} {l xs : List α} {i j : ℕ}
    (h : i + xs.length ≤ l.length) (hj : j < i ∨ i + xs.length ≤ j) :
    (overwrite l i xs)[j]? = l[j]? := by
  have hi : (l.take i).length = i := length_take_of_le (by omega)
  simp only [overwrite, append_assoc]
  obtain hj | hj := hj
  · rw [getElem?_append_left (by omega), getElem?_take_of_lt hj]
  · rw [getElem?_append_right (by omega), getElem?_append_right (by omega),
      getElem?_drop]
    congr 1
    omega

structure DataBuff where
  data : List UInt8
  used : ℕ
  used_le : used ≤ data.length

variable {b : DataBuff} {width offset : ℕ} {f : Bool}

namespace DataBuff

def SameSize (b b' : DataBuff) : Prop :=
  b'.data.length = b.data.length ∧ b'.used = b.used

theorem SameSize.refl (b : DataBuff) : SameSize b b := ⟨rfl, rfl⟩

theorem SameSize.trans {a c : DataBuff} (h : SameSize a b) (h' : SameSize b c) : SameSize a c :=
  ⟨h'.1.trans h.1, h'.2.trans h.2⟩

def full (data : List UInt8) : DataBuff := ⟨data, data.length, le_refl _⟩

def asSlice (b : DataBuff) : List UInt8 := b.data.take b.used

@[simp] theorem length_asSlice (b : DataBuff) : b.asSlice.length = b.used := by
  rw [asSlice, length_take, Nat.min_eq_left b.used_le]

def write (b : DataBuff) (start : ℕ) (xs : List UInt8) : Except Panic DataBuff :=
  if h : start + xs.length ≤ b.data.length then
    .ok ⟨overwrite b.data start xs, b.used, by rw [length_overwrite h]; exact b.used_le⟩
  else .error .indexOutOfBounds

variable {start : ℕ}

theorem write_ok {xs : List UInt8} (h : start + xs.length ≤ b.data.length) :
    ∃ b', b.write start xs = .ok b' ∧ SameSize b b' := by
  rw [write, dif_pos h]
  exact ⟨_, rfl, length_overwrite h, rfl⟩

def memset (b : DataBuff) (start stop : ℕ) (val : UInt8) : Except Panic DataBuff :=
  if start < stop then b.write start (List.replicate (stop - start) val) else .ok b

theorem memset_ok {stop : ℕ} {val : UInt8} (h : stop ≤ b.data.length) :
    ∃ b', b.memset start stop val = .ok b' ∧ SameSize b b' := by
  unfold memset
  split
  · exact write_ok (by simp; omega)
  · exact ⟨b, rfl, SameSize.refl b⟩

def expandTo (b : DataBuff) (size : ℕ) : Except Panic DataBuff :=
  if size ≤ b.data.length then
    if b.used < size then
      match b.memset b.used size 0 with
      | .ok b' =>
        if h : size ≤ b'.data.length then .ok ⟨b'.data, size, h⟩
        else .error .indexOutOfBounds
      | .error e => .error e
    else .ok b
  else .error .assertionFailed

theorem expandTo_of_le {size : ℕ} (h : size ≤ b.used) : b.expandTo size = .ok b := by
  have hle : size ≤ b.data.length := le_trans h b.used_le
  rw [expandTo, if_pos hle, if_neg (by omega)]

def copyWithin (b : DataBuff) (start stop dst : ℕ) : Except Panic DataBuff := do
  let b ← b.expandTo (dst + (stop - start))
  if start ≤ stop ∧ stop ≤ b.data.length then
    b.write dst ((b.data.drop start).take (stop - start))
  else .error .indexOutOfBounds

theorem copyWithin_ok {stop dst : ℕ} (hle : start ≤ stop) (hsrc : stop ≤ b.used)
    (hdst : dst + (stop - start) ≤ b.used) :
    ∃ b', b.copyWithin start stop dst = .ok b' ∧ SameSize b b' := by
  have hused := b.used_le
  have hsrc' : start ≤ stop ∧ stop ≤ b.data.length := ⟨hle, by omega⟩
  simp only [copyWithin, expandTo_of_le hdst, bind, Except.bind, if_pos hsrc']
  exact write_ok (by simp; omega)

/-- Copy `xs` to place `dst`. -/
def copyFrom (b : DataBuff) (xs : List UInt8) (dst : ℕ) : Except Panic DataBuff := do
  let b ← b.expandTo (dst + xs.length)
  b.write dst xs

theorem copyFrom_ok {xs : List UInt8} {dst : ℕ} (h : dst + xs.length ≤ b.used) :
    ∃ b', b.copyFrom xs dst = .ok b' ∧ SameSize b b' := by
  simp only [copyFrom, expandTo_of_le h, bind, Except.bind]
  exact write_ok (le_trans h b.used_le)

/-! ## Numbers in a buffer -/

/-- `swap_bytes` when the flag is set. -/
def flip (bytes : List UInt8) (flipEndianess : Bool) : List UInt8 :=
  if flipEndianess then bytes.reverse else bytes

@[simp] theorem length_flip (bytes : List UInt8) (f : Bool) : (flip bytes f).length = bytes.length := by
  unfold flip; split <;> simp

/-- Read a number of `width` bytes. -/
def readUInt (b : DataBuff) (width offset : ℕ) (flipEndianess : Bool) : Except Panic ℕ :=
  if offset + width ≤ b.used then
    .ok (ofLe (flip ((b.data.drop offset).take width) flipEndianess))
  else .error .assertionFailed

/-- Write a number of `width` bytes. -/
def writeUInt (b : DataBuff) (width offset : ℕ) (flipEndianess : Bool) (val : ℕ) :
    Except Panic DataBuff :=
  if offset + width ≤ b.used then b.write offset (flip (toLe width val) flipEndianess)
  else .error .assertionFailed

theorem readUInt_ok (h : offset + width ≤ b.used) : ∃ v, b.readUInt width offset f = .ok v := by
  rw [readUInt, if_pos h]; exact ⟨_, rfl⟩

theorem writeUInt_ok {val : ℕ} (h : offset + width ≤ b.used) :
    ∃ b', b.writeUInt width offset f val = .ok b' ∧ SameSize b b' := by
  rw [writeUInt, if_pos h]
  refine write_ok ?_
  rw [length_flip, length_toLe]
  exact le_trans h b.used_le

def readU8 (b : DataBuff) (offset : ℕ) : Except Panic ℕ := b.readUInt 1 offset false
def readU16 (b : DataBuff) := b.readUInt 2
def readU32 (b : DataBuff) := b.readUInt 4
def readU64 (b : DataBuff) := b.readUInt 8
def writeU8 (b : DataBuff) (offset val : ℕ) : Except Panic DataBuff := b.writeUInt 1 offset false val
def writeU16 (b : DataBuff) := b.writeUInt 2
def writeU32 (b : DataBuff) := b.writeUInt 4
def writeU64 (b : DataBuff) := b.writeUInt 8

end DataBuff

/-! ## In-place mutations -/

inductive InplaceMutationType
  | flipBitT | addU8T | addU16T | addU32T | addU64T
  | interestingU8T | interestingU16T | interestingU32T | interestingU64T
  | overwriteRandomByteT | overwriteChunkT | overwriteRandomT | overwriteFixedT
  deriving DecidableEq, Repr

def InplaceMutationType.minSize : InplaceMutationType → ℕ
  | addU8T | interestingU8T | flipBitT | overwriteRandomByteT | overwriteRandomT
  | overwriteFixedT => 1
  | addU16T | interestingU16T | overwriteChunkT => 2
  | addU32T | interestingU32T => 4
  | addU64T | interestingU64T => 8

inductive InplaceMutation
  | flipBit (offset bit : ℕ)
  | addU8 (offset val : ℕ)
  | addU16 (offset val : ℕ) (flipEndian : Bool)
  | addU32 (offset val : ℕ) (flipEndian : Bool)
  | addU64 (offset val : ℕ) (flipEndian : Bool)
  | interestingU8 (offset val : ℕ)
  | interestingU16 (offset val : ℕ) (flipEndian : Bool)
  | interestingU32 (offset val : ℕ) (flipEndian : Bool)
  | interestingU64 (offset val : ℕ) (flipEndian : Bool)
  | overwriteRandomByte (offset val : ℕ)
  | overwriteChunk (start stop dst : ℕ)
  | overwriteRandom (data : List UInt8) (dst : ℕ)
  | overwriteFixed (start stop : ℕ) (val : UInt8)
  deriving DecidableEq, Repr

namespace InplaceMutation

def update (b : DataBuff) (width offset : ℕ) (f : Bool) (g : ℕ → ℕ) : Except Panic DataBuff := do
  let v ← b.readUInt width offset f
  b.writeUInt width offset f (g v)

theorem update_ok {g : ℕ → ℕ} (h : offset + width ≤ b.used) :
    ∃ b', update b width offset f g = .ok b' ∧ DataBuff.SameSize b b' := by
  obtain ⟨v, hv⟩ := DataBuff.readUInt_ok (f := f) h
  simp only [update, hv, bind, Except.bind]
  exact DataBuff.writeUInt_ok h

def apply (b : DataBuff) : InplaceMutation → Except Panic DataBuff
  | flipBit offset bit => update b 1 offset false fun v => v ^^^ 1 <<< bit
  | addU8 offset val => update b 1 offset false (· + val)
  | addU16 offset val f => update b 2 offset f (· + val)
  | addU32 offset val f => update b 4 offset f (· + val)
  | addU64 offset val f => update b 8 offset f (· + val)
  | interestingU8 offset val => b.writeU8 offset val
  | interestingU16 offset val f => b.writeU16 offset f val
  | interestingU32 offset val f => b.writeU32 offset f val
  | interestingU64 offset val f => b.writeU64 offset f val
  | overwriteRandomByte offset val => b.writeU8 offset val
  | overwriteRandom data dst => b.copyFrom data dst
  | overwriteFixed start stop val => b.memset start stop val
  | overwriteChunk start stop dst => b.copyWithin start stop dst

def Fits (used : ℕ) : InplaceMutation → Prop
  | flipBit offset _ | addU8 offset _ | interestingU8 offset _
  | overwriteRandomByte offset _ => offset + 1 ≤ used
  | addU16 offset _ _ | interestingU16 offset _ _ => offset + 2 ≤ used
  | addU32 offset _ _ | interestingU32 offset _ _ => offset + 4 ≤ used
  | addU64 offset _ _ | interestingU64 offset _ _ => offset + 8 ≤ used
  | overwriteRandom data dst => dst + data.length ≤ used
  | overwriteFixed _ stop _ => stop ≤ used
  | overwriteChunk start stop dst => start ≤ stop ∧ stop ≤ used ∧ dst + (stop - start) ≤ used

theorem apply_of_fits {m : InplaceMutation} (h : m.Fits b.used) :
    ∃ b', m.apply b = .ok b' ∧ DataBuff.SameSize b b' := by
  cases m with
  | flipBit | addU8 | addU16 | addU32 | addU64 => exact update_ok h
  | interestingU8 | interestingU16 | interestingU32 | interestingU64 | overwriteRandomByte =>
    exact DataBuff.writeUInt_ok h
  | overwriteChunk => exact DataBuff.copyWithin_ok h.1 h.2.1 h.2.2
  | overwriteRandom => exact DataBuff.copyFrom_ok h
  | overwriteFixed => exact DataBuff.memset_ok (le_trans h b.used_le)

end InplaceMutation

end FuzzSocketCan
