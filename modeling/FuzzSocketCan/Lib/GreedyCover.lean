import Mathlib.Data.Set.Basic
import FuzzSocketCan.Lib.Lists

/-! # Greedy covers

Scans of a list, each with a lemma on one step.

* **`IsGreedy`** — it keeps an element exactly if it covers something the kept ones do not.
* **`IsBest`** — it keeps an element in which a value is largest.
* **`appendNew`** — a merge of what is kept. -/

namespace FuzzSocketCan.Lib

open List

/-! ## Covers -/

section Cover

variable {α ι : Type*}

/-- What the elements of a list cover. -/
def covered (cover : α → Set ι) (l : List α) : Set ι := { i | ∃ a ∈ l, i ∈ cover a }

variable {cover : α → Set ι} {l chosen : List α} {a : α}

@[simp] theorem covered_append (l l' : List α) :
    covered cover (l ++ l') = covered cover l ∪ covered cover l' := by
  ext i
  simp [covered, or_and_right, exists_or]

@[simp] theorem covered_singleton (a : α) : covered cover [a] = cover a := by
  ext i
  simp [covered]

theorem covered_mono {l' : List α} (h : l ⊆ l') : covered cover l ⊆ covered cover l' := by
  rintro i ⟨a, ha, hi⟩
  exact ⟨a, h ha, hi⟩

/-- `chosen` covers what `l` does, each element something new. -/
structure IsGreedy (cover : α → Set ι) (l chosen : List α) : Prop where
  sublist : chosen.Sublist l
  covers : covered cover chosen = covered cover l
  fresh : ∀ pre a post, chosen = pre ++ a :: post → ∃ i ∈ cover a, i ∉ covered cover pre

theorem isGreedy_nil : IsGreedy cover [] [] := by
  refine ⟨List.Sublist.slnil, rfl, ?_⟩
  intro pre a post h
  simp at h

/-- An element with nothing new is passed over. -/
theorem IsGreedy.pass (h : IsGreedy cover l chosen) (ha : cover a ⊆ covered cover chosen) :
    IsGreedy cover (l ++ [a]) chosen := by
  refine ⟨h.sublist.trans (sublist_append_left _ _), ?_, h.fresh⟩
  rw [covered_append, covered_singleton, ← h.covers, Set.union_eq_self_of_subset_right ha]

/-- An element with something new is chosen. -/
theorem IsGreedy.choose (h : IsGreedy cover l chosen) {i : ι} (hi : i ∈ cover a)
    (hnew : i ∉ covered cover chosen) : IsGreedy cover (l ++ [a]) (chosen ++ [a]) := by
  refine ⟨h.sublist.append_right _, ?_, ?_⟩
  · rw [covered_append, covered_append, h.covers]
  · intro pre b post heq
    -- the element is the last one, or it was chosen before
    rcases snoc_eq_append_cons heq with ⟨rfl, rfl, -⟩ | ⟨post', -, heq'⟩
    · exact ⟨i, hi, hnew⟩
    · exact h.fresh pre b post' heq'

end Cover

/-! ## Best elements -/

section Best

variable {α V : Type*} [LinearOrder V] [OrderBot V] {val : α → V} {l : List α} {o : Option α}

/-- An element of the largest value, or none if all are `⊥`. -/
def IsBest (val : α → V) (l : List α) : Option α → Prop
  | none => ∀ b ∈ l, val b = ⊥
  | some a => a ∈ l ∧ val a ≠ ⊥ ∧ ∀ b ∈ l, val b ≤ val a

theorem isBest_nil : IsBest val [] none := by
  intro b hb
  cases hb

theorem IsBest.take (h : IsBest val l o) {a : α} (ha : val a ≠ ⊥) (hlt : ∀ b ∈ o, val b < val a) :
    IsBest val (l ++ [a]) (some a) := by
  refine ⟨by simp, ha, ?_⟩
  intro b hb
  rcases mem_append.1 hb with hb | hb
  · cases o with
    | none => exact (h b hb).le.trans bot_le
    | some c => exact (h.2.2 b hb).trans (hlt c rfl).le
  · rw [mem_singleton.1 hb]

theorem IsBest.keep (h : IsBest val l o) {a : α} (ha : val a = ⊥ ∨ ∃ b ∈ o, val a ≤ val b) :
    IsBest val (l ++ [a]) o := by
  cases o with
  | none =>
    intro b hb
    rcases mem_append.1 hb with hb | hb
    · exact h b hb
    · rw [mem_singleton.1 hb]
      rcases ha with ha | ⟨c, hc, -⟩
      · exact ha
      · cases hc
  | some c =>
    refine ⟨mem_append_left _ h.1, h.2.1, ?_⟩
    intro b hb
    rcases mem_append.1 hb with hb | hb
    · exact h.2.2 b hb
    · rw [mem_singleton.1 hb]
      rcases ha with ha | ⟨b, hb, hle⟩
      · rw [ha]
        exact bot_le
      · exact Option.some.inj hb ▸ hle

end Best

/-! ## Merging -/

section Merge

variable {α β : Type*} [DecidableEq β] {f : α → β}

/-- Append the values that are not there yet. -/
def appendNew (f : α → β) (acc : List β) (l : List α) : List β :=
  l.foldl (fun acc e => if f e ∈ acc then acc else acc ++ [f e]) acc

theorem appendNew_cons (acc : List β) (e : α) (l : List α) :
    appendNew f acc (e :: l) =
      appendNew f (if f e ∈ acc then acc else acc ++ [f e]) l := rfl

theorem appendNew_spec (acc : List β) (l : List α) :
    ∃ extra, appendNew f acc l = acc ++ extra ∧ (∀ b ∈ extra, ∃ e ∈ l, f e = b) ∧
      (∀ e ∈ l, f e ∈ acc ++ extra) := by
  induction l generalizing acc with
  | nil => exact ⟨[], (append_nil acc).symm, by simp, by simp⟩
  | cons e l ih =>
    rw [appendNew_cons]
    split
    · next hmem =>
        obtain ⟨extra, heq, hfrom, hall⟩ := ih acc
        refine ⟨extra, heq, ?_, ?_⟩
        · intro b hb
          obtain ⟨e', he', rfl⟩ := hfrom b hb
          exact ⟨e', mem_cons_of_mem _ he', rfl⟩
        · intro e' he'
          rcases mem_cons.1 he' with rfl | he'
          · exact mem_append_left _ hmem
          · exact hall e' he'
    · obtain ⟨extra, heq, hfrom, hall⟩ := ih (acc ++ [f e])
      refine ⟨f e :: extra, by rw [heq, append_assoc]; rfl, ?_, ?_⟩
      · intro b hb
        rcases mem_cons.1 hb with rfl | hb
        · exact ⟨e, mem_cons_self, rfl⟩
        · obtain ⟨e', he', rfl⟩ := hfrom b hb
          exact ⟨e', mem_cons_of_mem _ he', rfl⟩
      · intro e' he'
        rcases mem_cons.1 he' with rfl | he'
        · simp
        · simpa using hall e' he'

theorem nodup_appendNew {acc : List β} (h : acc.Nodup) (l : List α) :
    (appendNew f acc l).Nodup := by
  induction l generalizing acc with
  | nil => exact h
  | cons e l ih =>
    rw [appendNew_cons]
    split
    · exact ih h
    · next hmem =>
        apply ih
        refine nodup_append.2 ⟨h, by simp, ?_⟩
        rintro b hb c hc rfl
        exact hmem (mem_singleton.1 hc ▸ hb)

end Merge

end FuzzSocketCan.Lib
