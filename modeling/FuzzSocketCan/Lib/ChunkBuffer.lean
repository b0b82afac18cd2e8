import FuzzSocketCan.Lib.Memory

/-! # Chunks kept over a memory

A `ChunkBuffer` keeps chunks of `n` bytes in a buffer of its own, with an index from the address
of a chunk to its place; places are given out one after the other.

* **`get_put_self`**, **`get_put_of_ne`** — it is a map from addresses to chunks.
* **`Keeps`** — which writes to a memory the chunks stand for. -/

namespace FuzzSocketCan.Lib

open List Option Function

/-! ## Writing bytes -/

/-- The memory with `bs` at `a`. -/
def storeAt (mem : Mem) (a : ℕ) (bs : List UInt8) : Mem :=
  fun i => if a ≤ i then bs[i - a]?.getD (mem i) else mem i

section Store

variable {mem : Mem} {a i : ℕ} {bs : List UInt8}

theorem storeAt_of_lt (h : i < a) : storeAt mem a bs i = mem i := if_neg (not_le.2 h)

theorem storeAt_of_ge (h : a + bs.length ≤ i) : storeAt mem a bs i = mem i := by
  rw [storeAt, if_pos (by omega), getElem?_eq_none (by omega), getD_none]

theorem storeAt_add (h : i < bs.length) : storeAt mem a bs (a + i) = bs[i] := by
  rw [storeAt, if_pos (Nat.le_add_right a i), Nat.add_sub_cancel_left, getElem?_eq_getElem h,
    getD_some]

@[simp] theorem storeAt_nil (mem : Mem) (a : ℕ) : storeAt mem a [] = mem := by
  funext i
  simp [storeAt]

theorem stored_of_getElem? (h : ∀ i < bs.length, bs[i]? = some (mem (a + i))) : Stored mem a bs := by
  induction bs generalizing a with
  | nil => rfl
  | cons b bs ih =>
    have hhead : b = mem a := some.inj (h 0 (Nat.succ_pos _))
    refine stored_cons.2 ⟨hhead.symm, ih ?_⟩
    intro i hi
    rw [add_assoc, add_comm 1 i]
    exact h (i + 1) (Nat.succ_lt_succ hi)

theorem stored_storeAt (mem : Mem) (a : ℕ) (bs : List UInt8) : Stored (storeAt mem a bs) a bs := by
  apply stored_of_getElem?
  intro i hi
  rw [storeAt_add hi, getElem?_eq_getElem hi]

theorem bytesAt_storeAt (mem : Mem) (a : ℕ) {n : ℕ} (h : bs.length = n) :
    bytesAt (storeAt mem a bs) a n = bs :=
  h ▸ stored_storeAt mem a bs

theorem storeAt_append (mem : Mem) (a : ℕ) (xs ys : List UInt8) :
    storeAt mem a (xs ++ ys) = storeAt (storeAt mem a xs) (a + xs.length) ys := by
  funext i
  rcases lt_or_ge i (a + xs.length) with hi | hi
  · rw [storeAt_of_lt hi]
    unfold storeAt
    split
    · rw [getElem?_append_left (by omega)]
    · rfl
  · have hpos : a ≤ i := by omega
    rw [storeAt, if_pos hpos, getElem?_append_right (by omega), storeAt, if_pos hi,
      storeAt_of_ge hi, Nat.sub_add_eq]

theorem bytesAt_congr {mem' : Mem} {a' n : ℕ} (h : ∀ i < n, mem (a + i) = mem' (a' + i)) :
    bytesAt mem a n = bytesAt mem' a' n := by
  induction n generalizing a a' with
  | zero => rfl
  | succ n ih =>
    have hhead : mem a = mem' a' := h 0 (Nat.succ_pos n)
    rw [bytesAt, bytesAt, hhead, ih]
    intro i hi
    have := h (i + 1) (by omega)
    rwa [add_assoc, add_assoc, add_comm 1 i]

end Store

/-! ## Chunks -/

theorem chunk_disjoint {n k k' r : ℕ} (hk : k % n = 0) (hk' : k' % n = 0) (hne : k' ≠ k) (hr : r < n) :
    k' + r < k ∨ k + n ≤ k' + r := by
  obtain ⟨i, rfl⟩ := Nat.dvd_of_mod_eq_zero hk
  obtain ⟨j, rfl⟩ := Nat.dvd_of_mod_eq_zero hk'
  rcases lt_trichotomy j i with hji | rfl | hij
  · have := Nat.mul_le_mul_left n hji
    rw [Nat.mul_succ] at this
    omega
  · exact absurd rfl hne
  · have := Nat.mul_le_mul_left n hij
    rw [Nat.mul_succ] at this
    omega

/-- A buffer of chunks with its index. Places are multiples of the chunk size below `next`, no two
the same. -/
structure ChunkBuffer (n : ℕ) where
  lookup : ℕ → Option ℕ
  data : Mem
  next : ℕ
  next_mod : next % n = 0
  lookup_mod : ∀ {k v}, lookup k = some v → v % n = 0
  lookup_lt : ∀ {k v}, lookup k = some v → v < next
  lookup_inj : ∀ {k k' v}, lookup k = some v → lookup k' = some v → k = k'

namespace ChunkBuffer

variable {n : ℕ}

def new (data : Mem) : ChunkBuffer n :=
  ⟨fun _ => none, data, 0, Nat.zero_mod n, (fun h => nomatch h), (fun h => nomatch h),
    fun h => nomatch h⟩

def clear (b : ChunkBuffer n) : ChunkBuffer n := new b.data

/-- A place for the chunk at `k`, behind the others. -/
def alloc [NeZero n] (b : ChunkBuffer n) (k : ℕ) : ChunkBuffer n where
  lookup := update b.lookup k (some b.next)
  data := b.data
  next := b.next + n
  next_mod := by rw [Nat.add_mod_right, b.next_mod]
  lookup_mod := by
    intro k' v h
    by_cases hkk : k' = k
    · rw [hkk, update_self, some_inj] at h
      exact h ▸ b.next_mod
    · rw [update_of_ne hkk] at h
      exact b.lookup_mod h
  lookup_lt := by
    intro k' v h
    have hn := NeZero.pos n
    by_cases hkk : k' = k
    · rw [hkk, update_self, some_inj] at h
      omega
    · rw [update_of_ne hkk] at h
      have := b.lookup_lt h
      omega
  lookup_inj := by
    intro k1 k2 v h1 h2
    -- a new place is not below `next`, an old one is
    by_cases hk1 : k1 = k
    · by_cases hk2 : k2 = k
      · rw [hk1, hk2]
      · rw [hk1, update_self, some_inj] at h1
        rw [update_of_ne hk2] at h2
        exact absurd (b.lookup_lt h2) (by omega)
    · rw [update_of_ne hk1] at h1
      by_cases hk2 : k2 = k
      · rw [hk2, update_self, some_inj] at h2
        exact absurd (b.lookup_lt h1) (by omega)
      · rw [update_of_ne hk2] at h2
        exact b.lookup_inj h1 h2

def write (b : ChunkBuffer n) (v : ℕ) (bs : List UInt8) : ChunkBuffer n :=
  { b with data := storeAt b.data v bs }

/-- The chunk at `k`, if it has a place. -/
def get (b : ChunkBuffer n) (k : ℕ) : Option (List UInt8) :=
  (b.lookup k).map fun v => bytesAt b.data v n

/-- Write the chunk at `k`, in a new place if it has none. -/
def put [NeZero n] (b : ChunkBuffer n) (k : ℕ) (bs : List UInt8) : ChunkBuffer n :=
  match b.lookup k with
  | some v => b.write v bs
  | none => (b.alloc k).write b.next bs

variable {b : ChunkBuffer n} {k k' v : ℕ} {bs : List UInt8}

theorem length_of_get (h : b.get k = some bs) : bs.length = n := by
  obtain ⟨v, -, rfl⟩ := map_eq_some_iff.1 h
  exact length_bytesAt _ _ _

theorem get_write_self (hv : b.lookup k = some v) (hbs : bs.length = n) :
    (b.write v bs).get k = some bs := by
  exact map_eq_some_iff.2 ⟨v, hv, bytesAt_storeAt b.data v hbs⟩

theorem get_write_of_ne (hv : b.lookup k = some v) (hk : k' ≠ k) (hbs : bs.length = n) :
    (b.write v bs).get k' = b.get k' := by
  unfold get write
  cases hv' : b.lookup k' with
  | none => rfl
  | some v' =>
    have hvv : v' ≠ v := fun hvv => hk (b.lookup_inj hv' (hvv ▸ hv))
    refine congrArg some (bytesAt_congr ?_)
    intro i hi
    rcases chunk_disjoint (b.lookup_mod hv) (b.lookup_mod hv') hvv hi with hlt | hge
    · exact storeAt_of_lt hlt
    · exact storeAt_of_ge (by omega)

variable [NeZero n]

theorem get_alloc_of_ne (hk : k' ≠ k) : (b.alloc k).get k' = b.get k' := by
  have hlook : (b.alloc k).lookup k' = b.lookup k' := update_of_ne hk _ _
  rw [get, hlook]
  rfl

theorem get_put_self (hbs : bs.length = n) : (b.put k bs).get k = some bs := by
  unfold put
  cases hv : b.lookup k with
  | none => exact get_write_self (update_self k _ b.lookup) hbs
  | some v => exact get_write_self hv hbs

theorem get_put_of_ne (hk : k' ≠ k) (hbs : bs.length = n) : (b.put k bs).get k' = b.get k' := by
  unfold put
  cases hv : b.lookup k with
  | none => rw [get_write_of_ne (update_self k _ b.lookup) hk hbs, get_alloc_of_ne hk]
  | some v => exact get_write_of_ne hv hk hbs

theorem next_put : (b.put k bs).next = if b.lookup k = none then b.next + n else b.next := by
  unfold put
  cases hv : b.lookup k with
  | none => rfl
  | some v => rfl

theorem lookup_put_of_ne (hk : k' ≠ k) : (b.put k bs).lookup k' = b.lookup k' := by
  unfold put
  cases hv : b.lookup k with
  | none => exact update_of_ne hk _ _
  | some v => rfl

theorem isSome_get_put (h : (b.get k').isSome) (hbs : bs.length = n) :
    ((b.put k bs).get k').isSome := by
  by_cases hk : k' = k
  · rw [hk, get_put_self hbs]
    rfl
  · rwa [get_put_of_ne hk hbs]

/-! ## What the chunks stand for -/

def InChunk (n k a : ℕ) : Prop := k ≤ a ∧ a < k + n

/-- A chunk holds what `f` makes of the memory below; elsewhere `f` changes nothing. -/
structure Keeps (b : ChunkBuffer n) (f : Mem → Mem) : Prop where
  chunk : ∀ {k bs a}, b.get k = some bs → InChunk n k a →
    (∀ k', (b.get k').isSome → InChunk n k' a → k' = k) → ∀ below, bs[a - k]? = some (f below a)
  rest : ∀ {a}, (∀ k, (b.get k).isSome → ¬InChunk n k a) → ∀ below, f below a = below a

omit [NeZero n] in
theorem keeps_new (data : Mem) : (new data : ChunkBuffer n).Keeps fun below => below := by
  constructor
  · rintro k bs a ⟨⟩
  · intro a _ below
    rfl

variable {f : Mem → Mem}

/-- **Putting a chunk is storing its bytes.** -/
theorem Keeps.put (h : b.Keeps f) (hbs : bs.length = n) :
    (b.put k bs).Keeps fun below => storeAt (f below) k bs := by
  have hself : ((b.put k bs).get k).isSome := by rw [get_put_self hbs]; rfl
  -- outside the chunk that is put nothing is written
  have hout : ∀ {a}, ¬InChunk n k a → ∀ below, storeAt (f below) k bs a = f below a := by
    intro a ha below
    unfold InChunk at ha
    rcases lt_or_ge a k with hlt | hge
    · exact storeAt_of_lt hlt
    · exact storeAt_of_ge (by omega)
  constructor
  · intro k' cs a hget hin honly below
    by_cases hk : k' = k
    · subst hk
      obtain rfl : bs = cs := by rwa [get_put_self hbs, some_inj] at hget
      obtain ⟨i, rfl⟩ := Nat.exists_eq_add_of_le hin.1
      have hi : i < bs.length := by have := hin.2; omega
      rw [storeAt_add hi, Nat.add_sub_cancel_left, getElem?_eq_getElem hi]
    · rw [hout fun hka => hk (honly k hself hka).symm]
      rw [get_put_of_ne hk hbs] at hget
      exact h.chunk hget hin (fun k1 hk1 => honly k1 (isSome_get_put hk1 hbs)) below
  · intro a hnone below
    rw [hout (hnone k hself)]
    exact h.rest (fun k' hk' => hnone k' (isSome_get_put hk' hbs)) below

omit [NeZero n] in
theorem Keeps.getD_get (h : b.Keeps f) (below : Mem)
    (honly : ∀ k' a, (b.get k').isSome → InChunk n k' a → InChunk n k a → k' = k) :
    (b.get k).getD (bytesAt below k n) = bytesAt (f below) k n := by
  cases hget : b.get k with
  | some bs =>
    have hlen := length_of_get hget
    have hstored : Stored (f below) k bs := by
      apply stored_of_getElem?
      intro i hi
      have hin : InChunk n k (k + i) := ⟨Nat.le_add_right k i, by omega⟩
      have := h.chunk hget hin (fun k' hk' hin' => honly k' _ hk' hin' hin) below
      rwa [Nat.add_sub_cancel_left] at this
    rw [getD_some, ← hlen]
    exact hstored.symm
  | none =>
    refine bytesAt_congr ?_
    intro i hi
    refine (h.rest ?_ below).symm
    intro k' hk' hin'
    obtain rfl := honly k' _ hk' hin' ⟨Nat.le_add_right k i, by omega⟩
    rw [hget] at hk'
    cases hk'

end ChunkBuffer

end FuzzSocketCan.Lib
