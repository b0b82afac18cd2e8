import FuzzSocketCan.Lib.ChunkBuffer

/-! # The copy-on-write layers of a disk

`block_cow.c` keeps what the guest writes to a disk in three buffers: one up to the root snapshot,
one from then on, and one while a tmp snapshot is active.

* **`writeChunks_eq`**, **`keeps_writeChunks`** — a write puts all chunks of the request in the
  newest buffer, or aborts.
* **`read_eq_bytesAt`** — a read takes each chunk from the newest buffer that has it. -/

namespace FuzzSocketCan.Qemu

open Lib List Option

/-! ## The cache -/

abbrev CowLayer := ChunkBuffer 0x1000

/-- `cow_cache_t` -/
structure CowCache where
  primary : CowLayer
  secondary : CowLayer
  secondaryTmp : CowLayer
  cowPrimarySize : ℕ
  enabledFuzz : Bool
  enabledFuzzTmp : Bool

def cowCacheSecondarySize : ℕ := 0xC0000000

def qemuIovecFromBuf (qiov : List UInt8) (offset : ℕ) (buf : List UInt8) : List UInt8 :=
  qiov.take offset ++ buf ++ qiov.drop (offset + buf.length)

/-- The bytes `qemu_iovec_to_buf` copies. -/
def qemuIovecToBuf (qiov : List UInt8) (offset bytes : ℕ) : List UInt8 :=
  (qiov.drop offset).take bytes

namespace CowCache

def new : CowCache := ⟨.new fun _ => 0, .new fun _ => 0, .new fun _ => 0, 0xC0000000, false, false⟩

/-! ## Reading -/

def readFromPrimaryBuffer (self : CowCache) (qiov : List UInt8) (offsetAddr iovOffset : ℕ) :
    List UInt8 :=
  match self.primary.get offsetAddr with
  | some buf => qemuIovecFromBuf qiov iovOffset buf
  | none => qiov

def readFromSecondaryBuffer (self : CowCache) (qiov : List UInt8) (offsetAddr iovOffset : ℕ) :
    List UInt8 :=
  match if self.enabledFuzzTmp then self.secondaryTmp.get offsetAddr else none with
  | some buf => qemuIovecFromBuf qiov iovOffset buf
  | none =>
    match self.secondary.get offsetAddr with
    | some buf => qemuIovecFromBuf qiov iovOffset buf
    | none =>
      match self.primary.get offsetAddr with
      | some buf => qemuIovecFromBuf qiov iovOffset buf
      | none => qiov

/-- One round of the loop of `cow_cache_read`. -/
def readChunk (self : CowCache) (qiov : List UInt8) (offsetAddr iovOffset : ℕ) : List UInt8 :=
  if self.enabledFuzz then self.readFromSecondaryBuffer qiov offsetAddr iovOffset
  else self.readFromPrimaryBuffer qiov offsetAddr iovOffset

def readChunks (self : CowCache) : ℕ → List UInt8 → ℕ → ℕ → List UInt8
  | 0, qiov, _, _ => qiov
  | n + 1, qiov, offsetAddr, iovOffset =>
    readChunks self n (self.readChunk qiov offsetAddr iovOffset) (offsetAddr + 0x1000)
      (iovOffset + 0x1000)

def read (self : CowCache) (disk : Mem) (offset bytes : ℕ) : List UInt8 :=
  let qiov := bytesAt disk offset bytes
  if bytes % 0x1000 ≠ 0 then qiov else self.readChunks (bytes / 0x1000) qiov offset 0

/-! ## Writing -/

/-- `none` where its assertion fails. -/
def writeToPrimaryBuffer (self : CowCache) (offsetAddr : ℕ) (buf : List UInt8) : Option CowCache :=
  if self.primary.lookup offsetAddr = none ∧ self.cowPrimarySize ≤ self.primary.next + 0x1000
  then none
  else some { self with primary := self.primary.put offsetAddr buf }

/-- `none` where it aborts. -/
def writeToSecondaryBuffer (self : CowCache) (offsetAddr : ℕ) (buf : List UInt8) : Option CowCache :=
  if self.enabledFuzzTmp then
    if cowCacheSecondarySize ≤ self.secondaryTmp.next then none
    else some { self with secondaryTmp := self.secondaryTmp.put offsetAddr buf }
  else if cowCacheSecondarySize ≤ self.secondary.next then none
  else some { self with secondary := self.secondary.put offsetAddr buf }

/-- One round of the loop of `cow_cache_write`. -/
def writeChunk (self : CowCache) (offsetAddr : ℕ) (buf : List UInt8) : Option CowCache :=
  if self.enabledFuzz then self.writeToSecondaryBuffer offsetAddr buf
  else self.writeToPrimaryBuffer offsetAddr buf

def writeChunks (qiov : List UInt8) : ℕ → CowCache → ℕ → ℕ → Option CowCache
  | 0, self, _, _ => some self
  | n + 1, self, offsetAddr, iovOffset =>
    (self.writeChunk offsetAddr (qemuIovecToBuf qiov iovOffset 0x1000)).bind fun self =>
      writeChunks qiov n self (offsetAddr + 0x1000) (iovOffset + 0x1000)

def write (self : CowCache) (offset : ℕ) (qiov : List UInt8) : Option CowCache :=
  if qiov.length % 0x1000 ≠ 0 then some self
  else writeChunks qiov (qiov.length / 0x1000) self offset 0

/-! ## Modes -/

def switchToFuzzMode (self : CowCache) : CowCache := { self with enabledFuzz := true }

/-- `cow_cache_reset` -/
def reset (self : CowCache) : CowCache :=
  if self.enabledFuzz then
    if self.enabledFuzzTmp then { self with secondaryTmp := self.secondaryTmp.clear }
    else { self with secondary := self.secondary.clear }
  else self

def enableTmpMode (self : CowCache) : Option CowCache :=
  if self.enabledFuzz then some { self with enabledFuzzTmp := true } else none

def disableTmpMode (self : CowCache) : Option CowCache :=
  if self.enabledFuzz ∧ self.enabledFuzzTmp then some { self.reset with enabledFuzzTmp := false }
  else none

end CowCache

/-! ## Layers -/

namespace CowLayer

variable (layer : CowLayer) {f : Mem → Mem} {offsetAddr : ℕ} {buf : List UInt8}

def writeChunks (qiov : List UInt8) : ℕ → CowLayer → ℕ → ℕ → CowLayer
  | 0, layer, _, _ => layer
  | n + 1, layer, offsetAddr, iovOffset =>
    writeChunks qiov n (layer.put offsetAddr (qemuIovecToBuf qiov iovOffset 0x1000))
      (offsetAddr + 0x1000) (iovOffset + 0x1000)

theorem length_qemuIovecToBuf (qiov : List UInt8) (iovOffset : ℕ)
    (h : iovOffset + 0x1000 ≤ qiov.length) :
    (qemuIovecToBuf qiov iovOffset 0x1000).length = 0x1000 := by
  rw [qemuIovecToBuf, length_take, length_drop]
  omega

theorem keeps_writeChunks (qiov : List UInt8) (n : ℕ) {iovOffset : ℕ} (h : layer.Keeps f)
    (hlen : iovOffset + n * 0x1000 = qiov.length) :
    (writeChunks qiov n layer offsetAddr iovOffset).Keeps fun below =>
      storeAt (f below) offsetAddr (qiov.drop iovOffset) := by
  induction n generalizing layer f offsetAddr iovOffset with
  | zero =>
    rw [drop_eq_nil_of_le (by omega)]
    simp only [storeAt_nil]
    exact h
  | succ n ih =>
    have hbuf := length_qemuIovecToBuf qiov iovOffset (by omega)
    have hsplit : qiov.drop iovOffset =
        qemuIovecToBuf qiov iovOffset 0x1000 ++ qiov.drop (iovOffset + 0x1000) := by
      rw [qemuIovecToBuf, ← drop_drop, take_append_drop]
    have hfirst : (layer.put offsetAddr (qemuIovecToBuf qiov iovOffset 0x1000)).Keeps
        fun below => storeAt (f below) offsetAddr (qemuIovecToBuf qiov iovOffset 0x1000) := by
      exact ChunkBuffer.Keeps.put h hbuf
    have hnext : iovOffset + 0x1000 + n * 0x1000 = qiov.length := by omega
    have hpieces : (fun below => storeAt (f below) offsetAddr (qiov.drop iovOffset)) =
        fun below => storeAt (storeAt (f below) offsetAddr (qemuIovecToBuf qiov iovOffset 0x1000))
          (offsetAddr + 0x1000) (qiov.drop (iovOffset + 0x1000)) := by
      funext below
      rw [hsplit, storeAt_append, hbuf]
    rw [hpieces]
    exact ih _ hfirst hnext

theorem isSome_get_writeChunks (qiov : List UInt8) (n : ℕ) {iovOffset k : ℕ}
    (h : ((writeChunks qiov n layer offsetAddr iovOffset).get k).isSome) :
    (layer.get k).isSome ∨ k % 0x1000 = offsetAddr % 0x1000 := by
  induction n generalizing layer offsetAddr iovOffset with
  | zero => exact .inl h
  | succ n ih =>
    by_cases hk : k = offsetAddr
    · exact .inr (hk ▸ rfl)
    · rcases ih _ h with hsome | hmod
      · left
        rw [ChunkBuffer.get, ChunkBuffer.lookup_put_of_ne hk] at hsome
        rw [ChunkBuffer.get]
        rwa [isSome_map] at hsome ⊢
      · right
        omega

end CowLayer

/-! ## The loops -/

namespace CowCache

variable (self : CowCache) {disk : Mem} {offsetAddr iovOffset : ℕ} {buf pre old post : List UInt8}

def top : CowLayer :=
  if self.enabledFuzz then if self.enabledFuzzTmp then self.secondaryTmp else self.secondary
  else self.primary

def setTop (layer : CowLayer) : CowCache :=
  if self.enabledFuzz then
    if self.enabledFuzzTmp then { self with secondaryTmp := layer }
    else { self with secondary := layer }
  else { self with primary := layer }

def RoomFor (offsetAddr used : ℕ) : Prop :=
  if self.enabledFuzz then used < cowCacheSecondarySize
  else self.top.lookup offsetAddr = none → used + 0x1000 < self.cowPrimarySize

instance (offsetAddr used : ℕ) : Decidable (self.RoomFor offsetAddr used) := by
  unfold RoomFor
  infer_instance

def HasRoom : ℕ → ℕ → ℕ → Prop
  | 0, _, _ => True
  | n + 1, offsetAddr, used => self.RoomFor offsetAddr used ∧
      HasRoom n (offsetAddr + 0x1000)
        (if self.top.lookup offsetAddr = none then used + 0x1000 else used)

instance HasRoom.decidable : ∀ n offsetAddr used, Decidable (self.HasRoom n offsetAddr used)
  | 0, _, _ => isTrue trivial
  | n + 1, offsetAddr, used =>
    have := HasRoom.decidable n (offsetAddr + 0x1000)
      (if self.top.lookup offsetAddr = none then used + 0x1000 else used)
    inferInstanceAs (Decidable (_ ∧ _))

@[simp] theorem top_setTop (layer : CowLayer) : (self.setTop layer).top = layer := by
  cases hf : self.enabledFuzz <;> cases ht : self.enabledFuzzTmp <;> simp [setTop, top, hf, ht]

@[simp] theorem setTop_setTop (layer layer' : CowLayer) :
    (self.setTop layer).setTop layer' = self.setTop layer' := by
  cases hf : self.enabledFuzz <;> cases ht : self.enabledFuzzTmp <;> simp [setTop, hf, ht]

@[simp] theorem setTop_top : self.setTop self.top = self := by
  unfold setTop top
  split_ifs <;> rfl

theorem writeChunk_eq : self.writeChunk offsetAddr buf =
    if self.RoomFor offsetAddr self.top.next
    then some (self.setTop (self.top.put offsetAddr buf)) else none := by
  cases hf : self.enabledFuzz with
  | true =>
    simp only [writeChunk, writeToSecondaryBuffer, RoomFor, top, setTop, hf, if_true, ← not_lt,
      ite_not]
    split_ifs <;> rfl
  | false =>
    have hiff : (self.primary.lookup offsetAddr = none →
        self.primary.next + 0x1000 < self.cowPrimarySize) ↔
        ¬(self.primary.lookup offsetAddr = none ∧
          self.cowPrimarySize ≤ self.primary.next + 0x1000) := by
      rw [not_and, not_le]
    simp only [writeChunk, writeToPrimaryBuffer, RoomFor, top, setTop, hf, Bool.false_eq_true,
      if_false, hiff, ite_not]

theorem hasRoom_setTop_iff {layer : CowLayer} (n used : ℕ)
    (h : ∀ k, offsetAddr ≤ k → layer.lookup k = self.top.lookup k) :
    (self.setTop layer).HasRoom n offsetAddr used ↔ self.HasRoom n offsetAddr used := by
  have hfuzz : (self.setTop layer).enabledFuzz = self.enabledFuzz := by
    unfold setTop
    split_ifs <;> rfl
  have hsize : (self.setTop layer).cowPrimarySize = self.cowPrimarySize := by
    unfold setTop
    split_ifs <;> rfl
  induction n generalizing offsetAddr used with
  | zero => exact Iff.rfl
  | succ n ih =>
    simp only [HasRoom, RoomFor, hfuzz, hsize, top_setTop, h offsetAddr le_rfl]
    exact and_congr_right fun _ => ih _ fun k hk => h k (by omega)

theorem writeChunks_eq (qiov : List UInt8) (n : ℕ) :
    writeChunks qiov n self offsetAddr iovOffset =
      if self.HasRoom n offsetAddr self.top.next
      then some (self.setTop (CowLayer.writeChunks qiov n self.top offsetAddr iovOffset))
      else none := by
  induction n generalizing self offsetAddr iovOffset with
  | zero => simp [writeChunks, HasRoom, CowLayer.writeChunks]
  | succ n ih =>
    rw [writeChunks, writeChunk_eq]
    by_cases hroom : self.RoomFor offsetAddr self.top.next
    · have hlook : ∀ k, offsetAddr + 0x1000 ≤ k →
          (self.top.put offsetAddr (qemuIovecToBuf qiov iovOffset 0x1000)).lookup k =
            self.top.lookup k :=
        fun k hk => ChunkBuffer.lookup_put_of_ne (by omega)
      rw [if_pos hroom, bind_some, ih, top_setTop, setTop_setTop,
        ChunkBuffer.next_put]
      simp [self.hasRoom_setTop_iff _ _ hlook, HasRoom, hroom, CowLayer.writeChunks]
    · rw [if_neg hroom, if_neg fun h => hroom h.1, bind_none]

theorem qemuIovecFromBuf_append (h : buf.length = old.length) :
    qemuIovecFromBuf (pre ++ (old ++ post)) pre.length buf = pre ++ (buf ++ post) := by
  rw [qemuIovecFromBuf, take_left, h, ← append_assoc pre old post,
    ← length_append, drop_left, append_assoc]

def seenChunk (offsetAddr : ℕ) (old : List UInt8) : List UInt8 :=
  if self.enabledFuzz then
    (if self.enabledFuzzTmp then self.secondaryTmp.get offsetAddr else none).getD
      ((self.secondary.get offsetAddr).getD ((self.primary.get offsetAddr).getD old))
  else (self.primary.get offsetAddr).getD old

theorem readFromPrimaryBuffer_eq (hold : old.length = 0x1000) :
    self.readFromPrimaryBuffer (pre ++ (old ++ post)) offsetAddr pre.length =
      pre ++ ((self.primary.get offsetAddr).getD old ++ post) := by
  unfold readFromPrimaryBuffer
  cases hprim : self.primary.get offsetAddr with
  | none => rfl
  | some buf => exact qemuIovecFromBuf_append ((ChunkBuffer.length_of_get hprim).trans hold.symm)

theorem readFromSecondaryBuffer_eq (hold : old.length = 0x1000) :
    self.readFromSecondaryBuffer (pre ++ (old ++ post)) offsetAddr pre.length =
      pre ++ ((if self.enabledFuzzTmp then self.secondaryTmp.get offsetAddr else none).getD
        ((self.secondary.get offsetAddr).getD
          ((self.primary.get offsetAddr).getD old)) ++ post) := by
  have hcopy : ∀ (layer : CowLayer) (buf : List UInt8), layer.get offsetAddr = some buf →
      qemuIovecFromBuf (pre ++ (old ++ post)) pre.length buf = pre ++ (buf ++ post) := by
    intro layer buf hbuf
    exact qemuIovecFromBuf_append ((ChunkBuffer.length_of_get hbuf).trans hold.symm)
  unfold readFromSecondaryBuffer
  cases htmp : if self.enabledFuzzTmp then self.secondaryTmp.get offsetAddr else none with
  | some buf => exact hcopy _ _ (ite_none_right_eq_some.1 htmp).2
  | none =>
    cases hsec : self.secondary.get offsetAddr with
    | some buf => exact hcopy _ _ hsec
    | none => exact self.readFromPrimaryBuffer_eq hold

theorem readChunk_eq (hold : old.length = 0x1000) :
    self.readChunk (pre ++ (old ++ post)) offsetAddr pre.length =
      pre ++ (self.seenChunk offsetAddr old ++ post) := by
  unfold readChunk seenChunk
  cases hf : self.enabledFuzz with
  | false =>
    exact self.readFromPrimaryBuffer_eq hold
  | true =>
    exact self.readFromSecondaryBuffer_eq hold

theorem readChunks_eq {mem : Mem} (n : ℕ)
    (h : ∀ i < n, self.seenChunk (offsetAddr + i * 0x1000)
      (bytesAt disk (offsetAddr + i * 0x1000) 0x1000) =
        bytesAt mem (offsetAddr + i * 0x1000) 0x1000) :
    self.readChunks n (pre ++ bytesAt disk offsetAddr (n * 0x1000)) offsetAddr pre.length =
      pre ++ bytesAt mem offsetAddr (n * 0x1000) := by
  induction n generalizing offsetAddr pre with
  | zero => rfl
  | succ n ih =>
    -- the chunk that is done belongs to what stands before the rest
    have hpre : pre.length + 0x1000 = (pre ++ bytesAt mem offsetAddr 0x1000).length := by
      rw [length_append, length_bytesAt]
    have hsucc : (n + 1) * 0x1000 = 0x1000 + n * 0x1000 := by omega
    have hfirst : self.seenChunk offsetAddr (bytesAt disk offsetAddr 0x1000) =
        bytesAt mem offsetAddr 0x1000 := h 0 (Nat.succ_pos n)
    have hnext : ∀ i < n, self.seenChunk (offsetAddr + 0x1000 + i * 0x1000)
        (bytesAt disk (offsetAddr + 0x1000 + i * 0x1000) 0x1000) =
          bytesAt mem (offsetAddr + 0x1000 + i * 0x1000) 0x1000 := by
      intro i hi
      have haddr : offsetAddr + 0x1000 + i * 0x1000 = offsetAddr + (i + 1) * 0x1000 := by omega
      rw [haddr]
      exact h (i + 1) (Nat.succ_lt_succ hi)
    rw [hsucc, bytesAt_add, bytesAt_add, readChunks, self.readChunk_eq (length_bytesAt _ _ _),
      hfirst, ← append_assoc, hpre, ih hnext, append_assoc]

variable {offset : ℕ}

theorem read_eq_bytesAt {mem : Mem} {bytes : ℕ} (hbytes : bytes % 0x1000 = 0)
    (h : ∀ i < bytes / 0x1000, self.seenChunk (offset + i * 0x1000)
      (bytesAt disk (offset + i * 0x1000) 0x1000) = bytesAt mem (offset + i * 0x1000) 0x1000) :
    self.read disk offset bytes = bytesAt mem offset bytes := by
  have hmul : bytes / 0x1000 * 0x1000 = bytes := Nat.div_mul_cancel (Nat.dvd_of_mod_eq_zero hbytes)
  have hloop := @readChunks_eq self disk offset [] mem (bytes / 0x1000) h
  rw [hmul] at hloop
  unfold read
  rw [if_neg (not_not.2 hbytes)]
  exact hloop

theorem write_eq_some {qiov : List UInt8} (hlen : qiov.length % 0x1000 = 0)
    (hroom : self.HasRoom (qiov.length / 0x1000) offset self.top.next) :
    self.write offset qiov = some (self.setTop
      (CowLayer.writeChunks qiov (qiov.length / 0x1000) self.top offset 0)) := by
  rw [write, if_neg (not_not.2 hlen), writeChunks_eq, if_pos hroom]

theorem write_eq_none {qiov : List UInt8} (hlen : qiov.length % 0x1000 = 0)
    (hroom : ¬self.HasRoom (qiov.length / 0x1000) offset self.top.next) :
    self.write offset qiov = none := by
  rw [write, if_neg (not_not.2 hlen), writeChunks_eq, if_neg hroom]

end CowCache

end FuzzSocketCan.Qemu
