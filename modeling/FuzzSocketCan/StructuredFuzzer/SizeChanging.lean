import FuzzSocketCan.StructuredFuzzer.DataBuff

/-! # Mutations that change the size

`InsertChunk` copies the chunk after the shift, from the place where it stood before: what of it
lay `n` or more bytes behind `dst`, for a chunk of length `n`, has moved by then, and the byte `n`
places earlier is inserted for it.

* **`shiftEveryAfter_asSlice`**, **`overwrite_gap`** — insertions first shift the bytes behind the
  place of insertion, and then fill the gap.
* **`apply_edits_iff`** — the insertion of a chunk is right just if these bytes are the same. -/

namespace FuzzSocketCan

open Lib List DataBuff

/-! ## The buffer as a list -/

section Overwrite

variable {α : Type} {l xs ys : List α} {i n : ℕ}

theorem take_overwrite (h : i + xs.length ≤ n) (hn : n ≤ l.length) :
    (overwrite l i xs).take n = overwrite (l.take n) i xs := by
  have htake : (l.take i ++ xs).length = i + xs.length := by
    rw [length_append, length_take, min_eq_left (by omega)]
  unfold overwrite
  rw [take_append, take_of_length_le (by omega), htake, take_take,
    min_eq_left (by omega), drop_take]

theorem overwrite_gap (gap : List α) (hgap : gap.length = ys.length) (l l' : List α) :
    overwrite (l ++ gap ++ l') l.length ys = l ++ ys ++ l' := by
  have hdrop : (l ++ gap ++ l').drop (l.length + ys.length) = l' :=
    drop_left' (by rw [length_append, hgap])
  rw [overwrite, hdrop, append_assoc l gap l', take_left]

end Overwrite

variable {start stop dst : ℕ}

namespace DataBuff

variable {b : DataBuff}

def withRoom (xs : List UInt8) (n : ℕ) : DataBuff where
  data := xs ++ List.replicate n 0
  used := xs.length
  used_le := by
    rw [length_append]
    exact Nat.le_add_right _ _

variable {ys : List UInt8}

theorem write_asSlice (h : start + ys.length ≤ b.used) :
    ∃ b', b.write start ys = .ok b' ∧ b'.asSlice = overwrite b.asSlice start ys := by
  have hfits : start + ys.length ≤ b.data.length := h.trans b.used_le
  rw [write, dif_pos hfits]
  exact ⟨_, rfl, take_overwrite h b.used_le⟩

theorem memset_asSlice {n : ℕ} (val : UInt8) (h : start + n ≤ b.used) :
    ∃ b', b.memset start (start + n) val = .ok b' ∧
      b'.asSlice = overwrite b.asSlice start (List.replicate n val) := by
  unfold memset
  split
  · rw [Nat.add_sub_cancel_left]
    exact write_asSlice (by rwa [length_replicate])
  · obtain rfl : n = 0 := by omega
    refine ⟨b, rfl, ?_⟩
    rw [replicate_zero, overwrite, append_nil, length_nil, add_zero,
      take_append_drop]

theorem expandTo_asSlice {size : ℕ} (h : size ≤ b.data.length) :
    ∃ b', b.expandTo size = .ok b' ∧
      b'.asSlice = b.asSlice ++ List.replicate (size - b.used) 0 := by
  unfold expandTo
  rw [if_pos h]
  split
  · next hlt =>
      have hfits : b.used + (replicate (size - b.used) (0 : UInt8)).length ≤ b.data.length := by
        rw [length_replicate]
        omega
      have hlen := length_overwrite hfits
      rw [memset, if_pos hlt, write, dif_pos hfits]
      simp only [hlen, h, dite_true, Except.ok.injEq, exists_eq_left', asSlice]
      -- the bytes in use, the new ones and nothing of what lies behind
      have htake : (b.data.take b.used ++ replicate (size - b.used) (0 : UInt8)).length =
          size := by
        rw [length_append, length_take, length_replicate,
          min_eq_left b.used_le]
        omega
      exact take_left' htake
  · next hge =>
      refine ⟨b, rfl, ?_⟩
      rw [Nat.sub_eq_zero_of_le (by omega), replicate_zero, append_nil]

theorem copyWithin_asSlice (hle : start ≤ stop) (hsrc : stop ≤ b.used)
    (hdst : dst + (stop - start) ≤ b.data.length) :
    ∃ b', b.copyWithin start stop dst = .ok b' ∧
      b'.asSlice = overwrite
        (b.asSlice ++ List.replicate (dst + (stop - start) - b.used) 0) dst
        ((b.asSlice.drop start).take (stop - start)) := by
  obtain ⟨b1, hexpand, hslice⟩ := expandTo_asSlice hdst
  have hused : b1.used = max b.used (dst + (stop - start)) := by
    rw [← length_asSlice, hslice, length_append, length_asSlice, length_replicate]
    omega
  have hlen := b1.used_le
  have hchunk : (b1.data.drop start).take (stop - start) =
      (b.asSlice.drop start).take (stop - start) := by
    -- the chunk lies in what was in use before
    have hfront : b.asSlice = b1.data.take b.used := by
      have htake := congrArg (take b.used) hslice
      rw [take_left' (length_asSlice b), asSlice, take_take,
        min_eq_left (by omega)] at htake
      exact htake.symm
    rw [hfront, drop_take, take_take, min_eq_left (by omega)]
  have hroom : dst + ((b.asSlice.drop start).take (stop - start)).length ≤ b1.used := by
    rw [length_take, length_drop, length_asSlice]
    omega
  obtain ⟨b2, hwrite, hslice2⟩ := write_asSlice hroom
  refine ⟨b2, ?_, by rw [hslice2, hslice]⟩
  simp only [copyWithin, hexpand, bind, Except.bind]
  rw [if_pos ⟨hle, by omega⟩, hchunk, hwrite]

theorem copyFrom_asSlice (h : dst + ys.length ≤ b.used) :
    ∃ b', b.copyFrom ys dst = .ok b' ∧ b'.asSlice = overwrite b.asSlice dst ys := by
  simp only [copyFrom, expandTo_of_le h, bind, Except.bind]
  exact write_asSlice h

/-! ## Shifting and dropping -/

def shiftEveryAfter (b : DataBuff) (offset amount : ℕ) : Except Panic DataBuff :=
  b.copyWithin offset b.used (offset + amount)

def shrink (b : DataBuff) (newSize : ℕ) : Except Panic DataBuff :=
  if h : newSize ≤ b.used then .ok ⟨b.data, newSize, h.trans b.used_le⟩
  else .error .assertionFailed

def drop (b : DataBuff) (start stop : ℕ) : Except Panic DataBuff :=
  if stop ≤ b.used then do
    let rest := b.used - stop
    let b ← b.copyWithin stop b.used start
    b.shrink (start + rest)
  else .error .subtractWithOverflow

def gap (xs : List UInt8) (offset amount : ℕ) : List UInt8 :=
  ((xs ++ List.replicate amount 0).drop offset).take amount

variable {offset : ℕ}

theorem length_gap {xs : List UInt8} (h : offset ≤ xs.length) (amount : ℕ) :
    (gap xs offset amount).length = amount := by
  rw [gap, length_take, length_drop, length_append, length_replicate]
  omega

theorem shiftEveryAfter_asSlice {amount : ℕ} (hoffset : offset ≤ b.used)
    (hroom : b.used + amount ≤ b.data.length) :
    ∃ b', b.shiftEveryAfter offset amount = .ok b' ∧ b'.used = b.used + amount ∧
      b'.asSlice = b.asSlice.take offset ++ gap b.asSlice offset amount ++ b.asSlice.drop offset := by
  have hend : offset + amount + (b.used - offset) = b.used + amount := by omega
  obtain ⟨b', hcopy, hslice⟩ :=
    copyWithin_asSlice hoffset (le_refl b.used) (hend.trans_le hroom)
  have hlen : (b.asSlice.drop offset).length = b.used - offset := by
    rw [length_drop, length_asSlice]
  have hall : (b.asSlice ++ replicate amount (0 : UInt8)).length = b.used + amount := by
    rw [length_append, length_asSlice, length_replicate]
  have hopen : b'.asSlice =
      b.asSlice.take offset ++ gap b.asSlice offset amount ++ b.asSlice.drop offset := by
    rw [hslice, hend, Nat.add_sub_cancel_left, take_of_length_le hlen.le, overwrite, hlen, hend,
      drop_of_length_le hall.le, append_nil, take_add,
      take_append_of_le_length (by rwa [length_asSlice]), gap]
  refine ⟨b', hcopy, ?_, hopen⟩
  have hgap : (gap b.asSlice offset amount).length = amount :=
    length_gap (by rwa [length_asSlice]) amount
  rw [← length_asSlice, hopen, length_append, length_append, hlen, hgap, length_take,
    length_asSlice]
  omega

theorem overwrite_shifted {xs : List UInt8} {amount : ℕ} (hoffset : offset ≤ xs.length)
    (hys : ys.length = amount) :
    overwrite (xs.take offset ++ gap xs offset amount ++ xs.drop offset) offset ys =
      xs.take offset ++ ys ++ xs.drop offset := by
  have hlen : (xs.take offset).length = offset := length_take_of_le hoffset
  have hgap := overwrite_gap (gap xs offset amount) ((length_gap hoffset _).trans hys.symm)
    (xs.take offset) (xs.drop offset)
  rwa [hlen] at hgap

theorem drop_asSlice (hle : start ≤ stop) (hstop : stop ≤ b.used) :
    ∃ b', b.drop start stop = .ok b' ∧ b'.asSlice = b.asSlice.take start ++ b.asSlice.drop stop := by
  have hused := b.used_le
  have hroom : start + (b.used - stop) ≤ b.data.length := by omega
  obtain ⟨b', hcopy, hslice⟩ := copyWithin_asSlice hstop (le_refl b.used) hroom
  have hlen : (b.asSlice.drop stop).length = b.used - stop := by
    rw [length_drop, length_asSlice]
  have hused' : b'.used = b.used := by
    rw [← length_asSlice, hslice, length_overwrite]
    · rw [length_append, length_asSlice, length_replicate]
      omega
    · rw [length_take, hlen, length_append, length_asSlice]
      omega
  have hshrink : start + (b.used - stop) ≤ b'.used := by omega
  simp only [drop, if_pos hstop, hcopy, bind, Except.bind, shrink, dif_pos hshrink]
  refine ⟨_, rfl, ?_⟩
  -- the bytes that are in use afterwards are the beginning of those after the copy
  have hsame : (b'.data.take (start + (b.used - stop))) =
      b'.asSlice.take (start + (b.used - stop)) := by
    rw [asSlice, take_take, min_eq_left hshrink]
  rw [asSlice, hsame, hslice, take_of_length_le hlen.le, overwrite]
  refine take_left' ?_ |>.trans ?_
  · rw [length_append, hlen, length_take, length_append, length_asSlice]
    omega
  · rw [take_append_of_le_length (by rw [length_asSlice]; omega)]

end DataBuff

/-! ## The mutations -/

inductive SizeChangingMutation
  | delete (start stop : ℕ)
  | insertChunk (start stop dst : ℕ)
  | insertFixed (amount : ℕ) (val : UInt8) (dst : ℕ)
  | insertRandom (data : List UInt8) (dst : ℕ)
  deriving DecidableEq, Repr

namespace SizeChangingMutation

def apply (b : DataBuff) : SizeChangingMutation → Except Panic DataBuff
  | delete start stop => b.drop start stop
  | insertChunk start stop dst =>
    if start ≤ stop then do
      let b ← b.shiftEveryAfter dst (stop - start)
      b.copyWithin start stop dst
    else .error .subtractWithOverflow
  | insertFixed amount val dst => do
      let b ← b.shiftEveryAfter dst amount
      b.memset dst (dst + amount) val
  | insertRandom data dst => do
      let b ← b.shiftEveryAfter dst data.length
      b.copyFrom data dst

def Fits (b : DataBuff) : SizeChangingMutation → Prop
  | delete start stop => start ≤ stop ∧ stop ≤ b.used
  | insertChunk start stop dst =>
    start ≤ stop ∧ stop ≤ b.used ∧ dst ≤ b.used ∧ b.used + (stop - start) ≤ b.data.length
  | insertFixed amount _ dst => dst ≤ b.used ∧ b.used + amount ≤ b.data.length
  | insertRandom data dst => dst ≤ b.used ∧ b.used + data.length ≤ b.data.length

def edit (xs : List UInt8) : SizeChangingMutation → List UInt8
  | delete start stop => xs.take start ++ xs.drop stop
  | insertChunk start stop dst =>
    xs.take dst ++ (xs.drop start).take (stop - start) ++ xs.drop dst
  | insertFixed amount val dst => xs.take dst ++ List.replicate amount val ++ xs.drop dst
  | insertRandom data dst => xs.take dst ++ data ++ xs.drop dst

def Edits (b : DataBuff) (m : SizeChangingMutation) : Prop :=
  ∃ b', m.apply b = .ok b' ∧ b'.asSlice = m.edit b.asSlice ∧
    b'.used = (m.edit b.asSlice).length

def ReadsUnmoved (xs : List UInt8) : SizeChangingMutation → Prop
  | insertChunk start stop dst =>
    ∀ j, start ≤ j → j < stop → dst + (stop - start) ≤ j → xs[j - (stop - start)]? = xs[j]?
  | _ => True

variable {b : DataBuff}

theorem edits_iff {m : SizeChangingMutation} {b' : DataBuff} (h : m.apply b = .ok b') :
    m.Edits b ↔ b'.asSlice = m.edit b.asSlice := by
  constructor
  · rintro ⟨b'', hb'', hslice, -⟩
    obtain rfl := Except.ok.inj (h.symm.trans hb'')
    exact hslice
  · intro hslice
    exact ⟨b', h, hslice, by rw [← hslice, length_asSlice]⟩

theorem getElem?_shifted {xs : List UInt8} {n j : ℕ} (hdst : dst ≤ xs.length) (hj : j < xs.length) :
    (xs.take dst ++ DataBuff.gap xs dst n ++ xs.drop dst)[j]? =
      if dst + n ≤ j then xs[j - n]? else xs[j]? := by
  have htake : xs.take dst ++ gap xs dst n =
      (xs ++ replicate n (0 : UInt8)).take (dst + n) := by
    rw [take_add, take_append_of_le_length hdst, gap]
  have hlen : ((xs ++ replicate n (0 : UInt8)).take (dst + n)).length = dst + n := by
    rw [length_take, length_append, length_replicate]
    omega
  rw [htake]
  split
  · next hle =>
      rw [getElem?_append_right (by omega), getElem?_drop, hlen]
      congr 1
      omega
  · next hlt =>
      rw [getElem?_append_left (by omega), getElem?_take_of_lt (by omega),
        getElem?_append_left hj]

theorem chunk_shifted_iff {xs : List UInt8} (hdst : dst ≤ xs.length) (hstop : stop ≤ xs.length) :
    ((xs.take dst ++ DataBuff.gap xs dst (stop - start) ++ xs.drop dst).drop start).take
        (stop - start) = (xs.drop start).take (stop - start) ↔
      ReadsUnmoved xs (insertChunk start stop dst) := by
  constructor
  · intro h j hstart hlt hmoved
    have hj := congrArg (fun l => l[j - start]?) h
    simp only [getElem?_take_of_lt (show j - start < stop - start by omega),
      getElem?_drop, Nat.add_sub_cancel' hstart] at hj
    rwa [getElem?_shifted hdst (by omega), if_pos hmoved] at hj
  · intro h
    refine ext_getElem? fun k => ?_
    rw [getElem?_take, getElem?_take]
    split
    · next hk =>
        rw [getElem?_drop, getElem?_drop, getElem?_shifted hdst (by omega)]
        split
        · next hmoved => exact h (start + k) (by omega) (by omega) hmoved
        · rfl
    · rfl

theorem insertChunk_asSlice (h : (insertChunk start stop dst).Fits b) :
    ∃ b', (insertChunk start stop dst).apply b = .ok b' ∧
      b'.asSlice = b.asSlice.take dst ++
        ((b.asSlice.take dst ++ DataBuff.gap b.asSlice dst (stop - start) ++
          b.asSlice.drop dst).drop start).take (stop - start) ++ b.asSlice.drop dst := by
  obtain ⟨hle, hstop, hdst, hroom⟩ := h
  obtain ⟨b1, hshift, hused1, hslice1⟩ := shiftEveryAfter_asSlice hdst hroom
  have hin : dst + (stop - start) ≤ b1.used := by omega
  obtain ⟨b2, hcopy, hslice2⟩ :=
    copyWithin_asSlice hle (by omega : stop ≤ b1.used) (hin.trans b1.used_le)
  refine ⟨b2, ?_, ?_⟩
  · simp [apply, if_pos hle, hshift, bind, Except.bind, hcopy]
  · have hchunk : ((b1.asSlice.drop start).take (stop - start)).length = stop - start := by
      rw [length_take, length_drop, length_asSlice]
      omega
    rw [hslice2, Nat.sub_eq_zero_of_le hin, replicate_zero, append_nil, ← hslice1]
    have hdst' : dst ≤ b.asSlice.length := by rwa [length_asSlice]
    have hfill := overwrite_shifted hdst' hchunk
    rwa [← hslice1] at hfill

/-- **A mutation is its edit** just if no byte is read where the shift has put another one. -/
theorem apply_edits_iff (b : DataBuff) (m : SizeChangingMutation) (h : m.Fits b) :
    m.Edits b ↔ m.ReadsUnmoved b.asSlice := by
  have hin : ∀ {dst}, dst ≤ b.used → dst ≤ b.asSlice.length := by
    intro dst hdst
    rwa [length_asSlice]
  cases m with
  | delete start stop =>
    obtain ⟨b', hdrop, hslice⟩ := drop_asSlice h.1 h.2
    have happly : (delete start stop).apply b = .ok b' := hdrop
    exact iff_of_true ((edits_iff happly).2 hslice) trivial
  | insertFixed amount val dst =>
    obtain ⟨b₁, hshift, hused₁, hslice₁⟩ := shiftEveryAfter_asSlice h.1 h.2
    obtain ⟨b₂, hset, hslice₂⟩ :=
      memset_asSlice val (by have := h.1; omega : dst + amount ≤ b₁.used)
    have happly : (insertFixed amount val dst).apply b = .ok b₂ := by
      simp [apply, hshift, bind, Except.bind, hset]
    refine iff_of_true ((edits_iff happly).2 ?_) trivial
    rw [hslice₂, hslice₁, overwrite_shifted (hin h.1) length_replicate]
    rfl
  | insertRandom data dst =>
    obtain ⟨b₁, hshift, hused₁, hslice₁⟩ := shiftEveryAfter_asSlice h.1 h.2
    obtain ⟨b₂, hcopy, hslice₂⟩ :=
      copyFrom_asSlice (by have := h.1; omega : dst + data.length ≤ b₁.used)
    have happly : (insertRandom data dst).apply b = .ok b₂ := by
      simp [apply, hshift, bind, Except.bind, hcopy]
    refine iff_of_true ((edits_iff happly).2 ?_) trivial
    rw [hslice₂, hslice₁, overwrite_shifted (hin h.1) rfl]
    rfl
  | insertChunk start stop dst =>
    obtain ⟨b', happly, hslice⟩ := insertChunk_asSlice h
    rw [edits_iff happly, hslice, ← chunk_shifted_iff (hin h.2.2.1) (hin h.2.1), edit,
      append_left_inj, append_right_inj]

theorem apply_edits_chunkInFront :
    (insertChunk 0 2 3).Fits (.withRoom [65, 66, 67, 68] 2) ∧
      (insertChunk 0 2 3).Edits (.withRoom [65, 66, 67, 68] 2) := by
  have hfits : (insertChunk 0 2 3).Fits (.withRoom [65, 66, 67, 68] 2) :=
    ⟨by decide, by decide, by decide, by decide⟩
  refine ⟨hfits, (apply_edits_iff _ _ hfits).2 fun j hj hlt hmoved => ?_⟩
  omega

theorem insertChunk_moved :
    (insertChunk 2 4 1).Fits (.withRoom [65, 66, 67, 68, 69] 2) ∧
      ¬(insertChunk 2 4 1).Edits (.withRoom [65, 66, 67, 68, 69] 2) := by
  refine ⟨⟨by decide, by decide, by decide, by decide⟩, ?_⟩
  rintro ⟨b', happly, hslice, -⟩
  obtain rfl := Except.ok.inj happly
  exact absurd hslice (by decide)

end SizeChangingMutation

end FuzzSocketCan
