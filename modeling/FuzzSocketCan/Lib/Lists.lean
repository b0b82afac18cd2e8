import Mathlib.Data.List.Forall2
import Mathlib.Data.List.Induction

/-! # Places in lists -/

namespace FuzzSocketCan.Lib

open List

variable {α : Type*}

variable {l : List α}

/-- The element after `a` is the last one, or in front of it. -/
theorem snoc_eq_append_cons {a b : List α} {x y : α} (h : l ++ [x] = a ++ y :: b) :
    (l = a ∧ x = y ∧ b = []) ∨ ∃ b', b = b' ++ [x] ∧ l = a ++ y :: b' := by
  obtain rfl | ⟨b', z, rfl⟩ := b.eq_nil_or_concat'
  · obtain ⟨hl, hx⟩ := append_inj' h rfl
    exact .inl ⟨hl, singleton_inj.1 hx, rfl⟩
  · rw [← cons_append, ← append_assoc] at h
    obtain ⟨hl, hx⟩ := append_inj' h rfl
    obtain rfl := singleton_inj.1 hx
    exact .inr ⟨b', rfl, hl⟩

/-- A member of a prefix, by its place. -/
theorem mem_take_iff {k : ℕ} {a : α} : a ∈ l.take k ↔ ∃ j, j < k ∧ l[j]? = some a := by
  rw [mem_iff_getElem?]
  simp [getElem?_take]

/-- An ordered list has one place for an element. -/
theorem split_unique {R : α → α → Prop} {a a' r r' : List α} {d d' : α} (h : l.Pairwise R)
    (heq : l = a ++ d :: r) (heq' : l = a' ++ d' :: r') (hd : ¬R d d') (hd' : ¬R d' d) :
    a = a' ∧ d = d' ∧ r = r' := by
  subst heq
  rcases append_eq_append_iff.1 heq' with ⟨c, rfl, hc⟩ | ⟨c, rfl, hc⟩
  · cases c with
    | nil =>
      rw [nil_append, cons.injEq] at hc
      exact ⟨(append_nil a).symm, hc⟩
    | cons x c =>
      -- the second place comes after the first
      obtain ⟨rfl, rfl⟩ := cons.inj hc
      exact absurd ((pairwise_cons.1 (pairwise_append.1 h).2.1).1 d' (by simp)) hd
  · cases c with
    | nil =>
      rw [nil_append, cons.injEq] at hc
      exact ⟨append_nil a', hc.1.symm, hc.2.symm⟩
    | cons x c =>
      obtain ⟨rfl, rfl⟩ := cons.inj hc
      rw [append_assoc] at h
      exact absurd ((pairwise_cons.1 (pairwise_append.1 h).2.1).1 d (by simp)) hd'

/-- `zip` of a list in two parts. -/
theorem zip_append_eq {α β : Type} {xs ys : List α} {l : List β} (h : xs.length ≤ l.length) :
    (xs ++ ys).zip l = xs.zip (l.take xs.length) ++ ys.zip (l.drop xs.length) := by
  conv_lhs => rw [← take_append_drop xs.length l]
  exact zip_append (length_take_of_le h).symm

/-- `intercalate` of two parts that are not empty. -/
theorem intercalate_append {sep : List α} {a b : List (List α)} (ha : a ≠ []) (hb : b ≠ []) :
    sep.intercalate (a ++ b) = sep.intercalate a ++ (sep ++ sep.intercalate b) := by
  obtain ⟨y, b, rfl⟩ := exists_cons_of_ne_nil hb
  induction a with
  | nil => exact absurd rfl ha
  | cons x a ih =>
    cases a with
    | nil =>
      rw [singleton_append, intercalate_cons_cons, intercalate_singleton,
        append_assoc]
    | cons x' a =>
      rw [cons_append, cons_append, intercalate_cons_cons,
        intercalate_cons_cons, ← cons_append, ih (cons_ne_nil x' a)]
      simp

/-- `mapM` succeeds with right results exactly if it does on every element. -/
theorem exists_mapM_iff {β γ δ : Type*} {f : β → Option γ} {g : α → β} {w : α → δ}
    {R : δ → γ → Prop} :
    (∃ out, (l.map g).mapM f = some out ∧ Forall₂ R (l.map w) out) ↔
      ∀ a ∈ l, ∃ c, f (g a) = some c ∧ R (w a) c := by
  induction l with
  | nil => simp
  | cons a l ih =>
    rw [forall_mem_cons, ← ih]
    simp only [map_cons, mapM_cons, Option.bind_eq_bind, Option.bind_eq_some_iff,
      Option.pure_def, Option.some.injEq]
    constructor
    · rintro ⟨out, ⟨c, hc, cs, hcs, rfl⟩, hrel⟩
      rcases forall₂_cons.1 hrel with ⟨hhead, htail⟩
      exact ⟨⟨c, hc, hhead⟩, cs, hcs, htail⟩
    · rintro ⟨⟨c, hc, hhead⟩, cs, hcs, htail⟩
      exact ⟨_, ⟨c, hc, cs, hcs, rfl⟩, .cons hhead htail⟩

end FuzzSocketCan.Lib
