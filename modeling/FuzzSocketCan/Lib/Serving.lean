import Mathlib.Data.List.Basic

/-! # A list that is handed out in pieces

Behind the last piece of `n` elements comes an empty one, and then the list starts again.

* **`serve_leftAfter`** — what is left after some pieces.
* **`serveBatch_eq`** — whether a batch has met the empty piece decides where the next one begins.
-/

namespace FuzzSocketCan.Lib

open List

variable {α : Type} {n : ℕ} {list left : List α}

/-- The next piece; after an empty one the list begins again. -/
def serve (n : ℕ) (list : List α) : List α → List α × List α
  | [] => ([], list)
  | a :: left => ((a :: left).take n, (a :: left).drop n)

@[simp] theorem serve_nil (n : ℕ) (list : List α) : serve n list [] = ([], list) := rfl

theorem serve_of_ne (h : left ≠ []) : serve n list left = (left.take n, left.drop n) := by
  cases left with
  | nil => exact absurd rfl h
  | cons a left => rfl

theorem serve_fst (n : ℕ) (list left : List α) : (serve n list left).1 = left.take n := by
  cases left with
  | nil => exact take_nil.symm
  | cons a left => rfl

/-! ## The pieces in order -/

def pieceCount (n : ℕ) (list : List α) : ℕ := (list.length + (n - 1)) / n

def leftAfter (n : ℕ) (list : List α) (i : ℕ) : List α :=
  list.drop (n * (i % (pieceCount n list + 1)))

/-- The `i`-th piece, counted from zero. -/
def served (n : ℕ) (list : List α) (i : ℕ) : List α := (leftAfter n list i).take n

@[simp] theorem leftAfter_zero (n : ℕ) (list : List α) : leftAfter n list 0 = list := by
  rw [leftAfter, Nat.zero_mod, Nat.mul_zero, drop_zero]

theorem mul_lt_length_iff (hn : 0 < n) (list : List α) (j : ℕ) :
    n * j < list.length ↔ j < pieceCount n list := by
  have hiff : j + 1 ≤ pieceCount n list ↔ (j + 1) * n ≤ list.length + (n - 1) :=
    Nat.le_div_iff_mul_le hn
  rw [← Nat.add_one_le_iff (n := j), hiff, Nat.add_mul, Nat.one_mul, Nat.mul_comm n j]
  omega

/-- **The `i`-th piece**, and what is left behind it. -/
theorem serve_leftAfter (hn : 0 < n) (list : List α) (i : ℕ) :
    serve n list (leftAfter n list i) = (served n list i, leftAfter n list (i + 1)) := by
  have hlt : i % (pieceCount n list + 1) < pieceCount n list + 1 := Nat.mod_lt _ (Nat.succ_pos _)
  have hiff := mul_lt_length_iff hn list (i % (pieceCount n list + 1))
  refine Prod.ext (serve_fst _ _ _) ?_
  by_cases hlast : i % (pieceCount n list + 1) = pieceCount n list
  · -- nothing is left
    have hnil : leftAfter n list i = [] := drop_eq_nil_of_le (by omega)
    have hnext : (i + 1) % (pieceCount n list + 1) = 0 := by
      rw [Nat.add_mod, hlast, Nat.add_mod_mod, Nat.mod_self]
    rw [hnil, serve_nil, leftAfter, hnext, Nat.mul_zero, drop_zero]
  · have hne : leftAfter n list i ≠ [] := by
      rw [leftAfter, Ne, drop_eq_nil_iff]
      omega
    have hnext : (i + 1) % (pieceCount n list + 1) = i % (pieceCount n list + 1) + 1 := by
      rw [Nat.add_mod, Nat.mod_eq_of_lt (a := 1) (by omega), Nat.mod_eq_of_lt (by omega)]
    rw [serve_of_ne hne, leftAfter, leftAfter, hnext, drop_drop, Nat.mul_succ]

/-! ## Batches -/

/-- Up to `k` pieces, until an empty one. -/
def serveBatch (n : ℕ) (list : List α) : ℕ → List α → List α × List α
  | 0, left => ([], left)
  | k + 1, left =>
    match serve n list left with
    | ([], left) => ([], left)
    | (a :: piece, left) =>
      let (rest, left) := serveBatch n list k left
      (a :: piece ++ rest, left)

theorem serveBatch_eq (hn : 0 < n) (list : List α) (k : ℕ) (left : List α) :
    serveBatch n list k left =
      (left.take (n * k), if left.length + n ≤ n * k then list else left.drop (n * k)) := by
  induction k generalizing left with
  | zero =>
    rw [serveBatch, Nat.mul_zero, take_zero, drop_zero, if_neg (by omega)]
  | succ k ih =>
    rw [serveBatch, Nat.mul_succ]
    cases left with
    | nil => rw [serve_nil, take_nil, if_pos (by simp)]
    | cons a left =>
      -- the piece is not empty, so the batch goes on with what is left behind it
      obtain ⟨m, rfl⟩ : ∃ m, n = m + 1 := ⟨n - 1, by omega⟩
      have hlen : (a :: left).length = left.length + 1 := rfl
      rw [serve_of_ne (cons_ne_nil a left), take_succ_cons]
      dsimp only
      rw [ih, ← take_succ_cons, Nat.add_comm ((m + 1) * k) (m + 1), drop_drop,
        length_drop]
      refine Prod.ext take_add.symm (if_congr ?_ rfl rfl)
      cases k with
      | zero => omega
      | succ k =>
        rw [Nat.mul_succ]
        omega

end FuzzSocketCan.Lib
