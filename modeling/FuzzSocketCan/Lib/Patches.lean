import FuzzSocketCan.Lib.ChunkBuffer

/-! # Writing several blocks

* **`storeAll_eq`** — an address gets the value that the blocks written to a memory have for it, if
  they agree on it.
* **`scatter`** — writes bytes to a list of places. -/

namespace FuzzSocketCan.Lib

open List Function

variable {mem : Mem} {a n i : ℕ} {v : UInt8} {bs xs ys : List UInt8}

/-- The block `bs` at `a` has `v` for the address `i`. -/
def Gives (a : ℕ) (bs : List UInt8) (i : ℕ) (v : UInt8) : Prop := a ≤ i ∧ bs[i - a]? = some v

theorem gives_append : Gives a (xs ++ ys) i v ↔ Gives a xs i v ∨ Gives (a + xs.length) ys i v := by
  unfold Gives
  rcases lt_or_ge i (a + xs.length) with hlt | hge
  · constructor
    · rintro ⟨hle, hv⟩
      rw [getElem?_append_left (by omega)] at hv
      exact Or.inl ⟨hle, hv⟩
    · rintro (⟨hle, hv⟩ | ⟨hle, -⟩)
      · rw [getElem?_append_left (by omega)]
        exact ⟨hle, hv⟩
      · omega
  · have hindex : i - a - xs.length = i - (a + xs.length) := by omega
    constructor
    · rintro ⟨hle, hv⟩
      rw [getElem?_append_right (by omega), hindex] at hv
      exact Or.inr ⟨hge, hv⟩
    · rintro (⟨-, hv⟩ | ⟨-, hv⟩)
      · rw [getElem?_eq_none (by omega)] at hv
        cases hv
      · rw [getElem?_append_right (by omega), hindex]
        exact ⟨by omega, hv⟩

theorem getElem?_bytesAt (h : i < n) : (bytesAt mem a n)[i]? = some (mem (a + i)) := by
  induction n generalizing a i with
  | zero => omega
  | succ n ih =>
    cases i with
    | zero => rfl
    | succ i =>
      rw [bytesAt, getElem?_cons_succ, ih (Nat.lt_of_succ_lt_succ h), add_assoc,
        add_comm 1]

theorem gives_bytesAt {b : ℕ} :
    Gives a (bytesAt mem b n) i v ↔ a ≤ i ∧ i < a + n ∧ v = mem (b + (i - a)) := by
  refine and_congr_right fun hle => ?_
  rcases lt_or_ge i (a + n) with hlt | hge
  · rw [getElem?_bytesAt (by omega), Option.some_inj, eq_comm, and_iff_right hlt]
  · rw [getElem?_eq_none (by rw [length_bytesAt]; omega)]
    exact iff_of_false (by simp) fun h => absurd h.1 (not_lt.2 hge)

theorem storeAt_of_gives (h : Gives a bs i v) : storeAt mem a bs i = v := by
  rw [storeAt, if_pos h.1, h.2, Option.getD_some]

theorem storeAt_of_forall_not_gives (h : ∀ v, ¬Gives a bs i v) : storeAt mem a bs i = mem i := by
  unfold storeAt
  split
  case isTrue hle =>
    cases hv : bs[i - a]? with
    | none => rfl
    | some v => exact absurd ⟨hle, hv⟩ (h v)
  case isFalse => rfl

/-- Store blocks one after the other. -/
def storeAll (mem : Mem) (ps : List (ℕ × List UInt8)) : Mem :=
  ps.foldl (fun mem p => storeAt mem p.1 p.2) mem

variable {ps : List (ℕ × List UInt8)}

/-- **An address gets the value on which the blocks agree.** -/
theorem storeAll_eq (hagree : ∀ p ∈ ps, ∀ w, Gives p.1 p.2 i w → w = v)
    (h : mem i = v ∨ ∃ p ∈ ps, Gives p.1 p.2 i v) : storeAll mem ps i = v := by
  induction ps generalizing mem with
  | nil =>
    rcases h with h | ⟨p, hp, -⟩
    · exact h
    · cases hp
  | cons p ps ih =>
    rw [forall_mem_cons] at hagree
    rw [storeAll, foldl_cons]
    apply ih hagree.2
    by_cases hp : ∃ w, Gives p.1 p.2 i w
    · rcases hp with ⟨w, hw⟩
      rw [storeAt_of_gives hw]
      exact Or.inl (hagree.1 w hw)
    · rw [storeAt_of_forall_not_gives (not_exists.1 hp)]
      refine h.imp_right ?_
      rintro ⟨p', hp', hgives⟩
      rcases mem_cons.1 hp' with rfl | hp'
      · exact absurd ⟨v, hgives⟩ hp
      · exact ⟨p', hp', hgives⟩

def Supplies (ps : List (ℕ × List UInt8)) (i : ℕ) (v : UInt8) : Prop :=
  (∀ p ∈ ps, ∀ w, Gives p.1 p.2 i w → w = v) ∧ ∃ p ∈ ps, Gives p.1 p.2 i v

theorem Supplies.storeAll_eq (h : Supplies ps i v) (mem : Mem) :
    storeAll mem ps i = v := Lib.storeAll_eq h.1 (Or.inr h.2)

/-! ## Bytes at given places -/

/-- Store bytes at a list of places. -/
def scatter (mem : Mem) (places : List ℕ) (bs : List UInt8) : Mem :=
  (places.zip bs).foldl (fun mem w => update mem w.1 w.2) mem

section Scatter

variable {ps : List ℕ} {bs : List UInt8}

@[simp] theorem scatter_nil (mem : Mem) (ps : List ℕ) : scatter mem ps [] = mem := by
  rw [scatter, zip_nil_right, foldl_nil]

theorem scatter_cons (mem : Mem) (p : ℕ) (ps : List ℕ) (b : UInt8) (bs : List UInt8) :
    scatter mem (p :: ps) (b :: bs) = scatter (update mem p b) ps bs := rfl

theorem storeAt_singleton (mem : Mem) (a : ℕ) (b : UInt8) :
    storeAt mem a [b] = update mem a b := by
  funext i
  rcases lt_trichotomy i a with hlt | rfl | hlt
  · rw [storeAt_of_lt hlt, update_of_ne (ne_of_lt hlt)]
  · rw [update_self]
    exact @storeAt_add mem i 0 [b] one_pos
  · rw [storeAt_of_ge hlt, update_of_ne (ne_of_gt hlt)]

/-- **A block of places** is filled before the others. -/
theorem scatter_block (mem : Mem) (a n : ℕ) (ps : List ℕ) (bs : List UInt8) :
    scatter mem (List.range' a n ++ ps) bs =
      scatter (storeAt mem a (bs.take n)) ps (bs.drop n) := by
  induction n generalizing mem a bs with
  | zero => rw [range'_zero, nil_append, take_zero, storeAt_nil, drop_zero]
  | succ n ih =>
    cases bs with
    | nil => simp
    | cons b bs =>
      rw [range'_succ, cons_append, scatter_cons, ih, ← storeAt_singleton,
        take_succ_cons, drop_succ_cons, ← singleton_append (l := bs.take n),
        storeAt_append]
      rfl

theorem scatter_of_notMem {mem : Mem} {a : ℕ} (h : a ∉ ps.take bs.length) :
    scatter mem ps bs a = mem a := by
  induction ps generalizing mem bs with
  | nil => rfl
  | cons p ps ih =>
    cases bs with
    | nil => rfl
    | cons b bs =>
      rw [length_cons, take_succ_cons, mem_cons, not_or] at h
      rw [scatter_cons, ih h.2, update_of_ne h.1]

theorem map_scatter {mem : Mem} (hnodup : ps.Nodup) (hlen : bs.length ≤ ps.length) :
    (ps.take bs.length).map (scatter mem ps bs) = bs := by
  induction ps generalizing mem bs with
  | nil =>
    obtain rfl := length_eq_zero_iff.1 (Nat.le_zero.1 hlen)
    rfl
  | cons p ps ih =>
    cases bs with
    | nil => rfl
    | cons b bs =>
      obtain ⟨hp, hnodup⟩ := nodup_cons.1 hnodup
      have hfirst : p ∉ ps.take bs.length := fun hmem => hp (mem_of_mem_take hmem)
      rw [length_cons, take_succ_cons, map_cons, scatter_cons,
        scatter_of_notMem hfirst, update_self, ih hnodup (Nat.le_of_succ_le_succ hlen)]

end Scatter

end FuzzSocketCan.Lib
