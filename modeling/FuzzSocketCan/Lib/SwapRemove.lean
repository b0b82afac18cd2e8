import Mathlib.Data.List.Nodup

/-! # A vector with an index map

`swapRemove l i` puts the last element in the place of the `i`-th one, and a partial map says
where each element is. Pushing and removing keep the map exact.
-/

namespace FuzzSocketCan.Lib

open List Function

variable {α : Type}

/-- The last element takes the place `i`. -/
def swapRemove (l : List α) (i : ℕ) : List α :=
  match l.getLast? with
  | none => []
  | some x => (l.set i x).dropLast

@[simp] theorem length_swapRemove (l : List α) (i : ℕ) :
    (swapRemove l i).length = l.length - 1 := by
  unfold swapRemove
  split
  · next h => simp_all
  · simp

theorem getElem?_swapRemove (l : List α) (i j : ℕ) :
    (swapRemove l i)[j]? =
      if j + 1 < l.length then if j = i then l[l.length - 1]? else l[j]? else none := by
  unfold swapRemove
  split
  · next h => simp_all
  · next x h =>
      rw [getLast?_eq_getElem?] at h
      by_cases hj : j + 1 < l.length
      · rw [if_pos hj, getElem?_dropLast, if_pos (by simp; omega), getElem?_set]
        by_cases hji : j = i
        · rw [if_pos hji, if_pos hji.symm, if_pos (by omega), h]
        · rw [if_neg hji, if_neg (Ne.symm hji)]
      · rw [if_neg hj, getElem?_eq_none]
        simp
        omega

/-- `idx` gives the place of each element. -/
def Indexes (l : List α) (idx : α → Option ℕ) : Prop :=
  ∀ a i, idx a = some i ↔ l[i]? = some a

variable {l : List α} {idx : α → Option ℕ} {a b : α} {i j : ℕ}

theorem Indexes.mem_iff (h : Indexes l idx) : a ∈ l ↔ ∃ i, idx a = some i := by
  rw [mem_iff_getElem?]
  exact exists_congr fun i => (h a i).symm

theorem Indexes.place_unique (h : Indexes l idx) (hi : l[i]? = some a) (hj : l[j]? = some a) :
    i = j := by
  have := ((h a i).2 hi).symm.trans ((h a j).2 hj)
  exact Option.some.inj this

theorem indexes_nil : Indexes ([] : List α) fun _ => none := by
  intro a i; simp

theorem Indexes.mem_swapRemove (h : Indexes l idx) (ha : idx a = some i) :
    b ∈ swapRemove l i ↔ b ∈ l ∧ b ≠ a := by
  have hi : l[i]? = some a := (h a i).1 ha
  have hlt : i < l.length := (List.getElem?_eq_some_iff.1 hi).1
  rw [mem_iff_getElem?, mem_iff_getElem?]
  constructor
  · rintro ⟨k, hk⟩
    rw [getElem?_swapRemove] at hk
    split at hk
    · next hk1 =>
        split at hk
        · next hki =>
            refine ⟨⟨_, hk⟩, fun hba => ?_⟩
            have := h.place_unique (hba ▸ hk) hi
            omega
        · next hki => exact ⟨⟨k, hk⟩, fun hba => hki (h.place_unique (hba ▸ hk) hi)⟩
    · cases hk
  · rintro ⟨⟨k, hk⟩, hba⟩
    have hkl : k < l.length := (List.getElem?_eq_some_iff.1 hk).1
    have hki : k ≠ i := fun hki => hba (by subst hki; rw [hk] at hi; exact Option.some.inj hi)
    by_cases hlast : k + 1 < l.length
    · exact ⟨k, by rw [getElem?_swapRemove, if_pos hlast, if_neg hki]; exact hk⟩
    · -- the last element is found in the hole
      refine ⟨i, ?_⟩
      have hk' : k = l.length - 1 := by omega
      rw [getElem?_swapRemove, if_pos (by omega), if_pos rfl, ← hk']
      exact hk

variable [DecidableEq α]

theorem Indexes.push (h : Indexes l idx) (ha : a ∉ l) :
    Indexes (l ++ [a]) (update idx a (some l.length)) := by
  intro c k
  by_cases hc : c = a
  · subst hc
    rw [update_self]
    constructor
    · intro hk
      obtain rfl := Option.some.inj hk
      simp
    · intro hk
      rw [getElem?_append] at hk
      split at hk
      · exact absurd (mem_of_getElem? hk) ha
      · have : k - l.length = 0 := by
          by_contra hne
          rw [getElem?_eq_none (by simp; omega)] at hk
          cases hk
        congr 1; omega
  · rw [update_of_ne hc, h c k]
    rw [getElem?_append]
    split
    · rfl
    · next hk =>
        rw [getElem?_eq_none (by omega)]
        constructor
        · intro hn; cases hn
        · intro hn
          have := mem_of_getElem? hn
          rw [mem_singleton] at this
          exact absurd this hc

/-- The index map after the removal of `a` from place `i`, where the last element moves to. -/
def reindex (l : List α) (idx : α → Option ℕ) (a : α) (i : ℕ) : α → Option ℕ :=
  match (swapRemove l i)[i]? with
  | some b => update (update idx a none) b (some i)
  | none => update idx a none

theorem reindex_of_some (hb : (swapRemove l i)[i]? = some b) :
    reindex l idx a i = update (update idx a none) b (some i) := by
  rw [reindex, hb]

theorem reindex_of_none (hb : (swapRemove l i)[i]? = none) :
    reindex l idx a i = update idx a none := by
  rw [reindex, hb]

/-- **Removing keeps the index right.** -/
theorem Indexes.remove (h : Indexes l idx) (ha : idx a = some i) :
    Indexes (swapRemove l i) (reindex l idx a i) := by
  have hi : l[i]? = some a := (h a i).1 ha
  have hlt : i < l.length := (List.getElem?_eq_some_iff.1 hi).1
  obtain ⟨b, hb⟩ : ∃ b, l[l.length - 1]? = some b :=
    ⟨_, List.getElem?_eq_getElem (by omega)⟩
  intro c k
  by_cases hlast : i + 1 < l.length
  · -- the last element `b` moves into the hole
    rw [reindex_of_some (b := b) (by rw [getElem?_swapRemove, if_pos hlast, if_pos rfl, hb]),
      getElem?_swapRemove]
    by_cases hcb : c = b
    · subst hcb
      have hk : l[k]? = some c → k = l.length - 1 := fun hk => h.place_unique hk hb
      grind
    · rw [update_of_ne hcb]
      by_cases hca : c = a
      · subst hca
        have hk : l[k]? = some c → k = i := fun hk => h.place_unique hk hi
        grind
      · rw [update_of_ne hca, h c k]
        grind
  · -- `a` was the last element
    rw [reindex_of_none (by rw [getElem?_swapRemove, if_neg hlast]), getElem?_swapRemove]
    by_cases hca : c = a
    · subst hca
      have hk : l[k]? = some c → k = i := fun hk => h.place_unique hk hi
      grind
    · rw [update_of_ne hca, h c k]
      grind

end FuzzSocketCan.Lib
