import Mathlib.Data.List.Nodup

/-! # Writing a list of cells

A memory with holes: a write to a missing cell does nothing.

* **`writeLog_of_notMem`** — cells that are not written stay.
* **`writeLog_of_nodup`** — a cell that is written once holds what was written. -/

namespace FuzzSocketCan.Lib

open List Function

variable {A B : Type} [DecidableEq A]

/-- Replace the content of `a`, if there is one. -/
def writeCell (mem : A → Option B) (a : A) (b : B) : A → Option B :=
  Function.update mem a ((mem a).map fun _ => b)

/-- Write to the cells of `log`, in order. -/
def writeLog (mem : A → Option B) (log : List (A × B)) : A → Option B :=
  log.foldl (fun mem w => writeCell mem w.1 w.2) mem

variable {mem : A → Option B} {log : List (A × B)} {a : A} {b : B}

theorem writeLog_cons (mem : A → Option B) (a : A) (b : B) (log : List (A × B)) :
    writeLog mem ((a, b) :: log) = writeLog (writeCell mem a b) log := rfl

theorem writeLog_append (mem : A → Option B) (log log' : List (A × B)) :
    writeLog mem (log ++ log') = writeLog (writeLog mem log) log' := List.foldl_append

@[simp] theorem isSome_writeCell (mem : A → Option B) (a : A) (b : B) (c : A) :
    (writeCell mem a b c).isSome = (mem c).isSome := by
  unfold writeCell
  rcases eq_or_ne c a with rfl | hne
  · rw [update_self, Option.isSome_map]
  · rw [update_of_ne hne]

/-- Writing adds no cell. -/
@[simp] theorem isSome_writeLog (mem : A → Option B) (log : List (A × B)) (c : A) :
    (writeLog mem log c).isSome = (mem c).isSome := by
  induction log generalizing mem with
  | nil => rfl
  | cons w log ih => rw [writeLog_cons, ih, isSome_writeCell]

/-- **Cells that are not written stay.** -/
theorem writeLog_of_notMem (h : a ∉ log.map Prod.fst) : writeLog mem log a = mem a := by
  induction log generalizing mem with
  | nil => rfl
  | cons w log ih =>
    rw [map_cons, mem_cons, not_or] at h
    rw [writeLog_cons, ih h.2, writeCell, update_of_ne h.1]

/-- **A cell that is written once holds what was written.** -/
theorem writeLog_of_nodup (hnodup : (log.map Prod.fst).Nodup) (hmem : (a, b) ∈ log)
    (hcell : (mem a).isSome) : writeLog mem log a = some b := by
  induction log generalizing mem with
  | nil => cases hmem
  | cons w log ih =>
    obtain ⟨hnot, hnodup⟩ := nodup_cons.1 hnodup
    rw [writeLog_cons]
    rcases mem_cons.1 hmem with rfl | hmem
    · obtain ⟨old, hold⟩ := Option.isSome_iff_exists.1 hcell
      rw [writeLog_of_notMem hnot, writeCell, update_self, hold, Option.map_some]
    · exact ih hnodup hmem (by rwa [isSome_writeCell])

/-- A cell stays, or holds something that was written to it. -/
theorem writeLog_cases (mem : A → Option B) (log : List (A × B)) (a : A) :
    writeLog mem log a = mem a ∨ ∃ b, (a, b) ∈ log ∧ writeLog mem log a = some b := by
  induction log generalizing mem with
  | nil => exact .inl rfl
  | cons w log ih =>
    rw [writeLog_cons]
    rcases ih (writeCell mem w.1 w.2) with hsame | ⟨b, hb, hget⟩
    · rw [hsame, writeCell]
      rcases eq_or_ne a w.1 with rfl | hne
      · rw [update_self]
        cases hcell : mem w.1 with
        | none => exact .inl rfl
        | some old => exact .inr ⟨w.2, mem_cons_self, rfl⟩
      · rw [update_of_ne hne]
        exact .inl rfl
    · exact .inr ⟨b, mem_cons_of_mem w hb, hget⟩

end FuzzSocketCan.Lib
