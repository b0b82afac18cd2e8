import Mathlib.Data.List.Basic

/-! # A log of dirty entries

A bitmap with a stack beside it: an entry is pushed when its key is not marked yet, and draining
visits the entries and clears their marks, but not those of skipped ones.

* **`DirtyLog.Lost`** — a key that is marked without an entry.
* **`lost_record`** — pushing loses no key.
* **`lost_or_skipped_of_drained`** — draining loses only keys that it skipped. -/

namespace FuzzSocketCan.Lib

open List Function

section Copy

variable {ι β : Type} [DecidableEq ι] {src : ι → β} {ps : List ι} {q : ι}

theorem foldl_update_of_notMem (m : ι → β) (h : q ∉ ps) :
    ps.foldl (fun m p => update m p (src p)) m q = m q := by
  induction ps generalizing m with
  | nil => rfl
  | cons p ps ih =>
    obtain ⟨hqp, hps⟩ := not_or.1 (mem_cons.not.1 h)
    rw [foldl_cons, ih _ hps, update_of_ne hqp]

theorem foldl_update_of_mem (m : ι → β) (h : q ∈ ps) :
    ps.foldl (fun m p => update m p (src p)) m q = src q := by
  induction ps generalizing m with
  | nil => cases h
  | cons p ps ih =>
    rw [foldl_cons]
    by_cases hps : q ∈ ps
    · exact ih _ hps
    · obtain rfl : q = p := (mem_cons.1 h).resolve_right hps
      rw [foldl_update_of_notMem _ hps, update_self]

theorem foldl_update_eq (src m : ι → β) (ps : List ι) [∀ q, Decidable (q ∈ ps)] :
    ps.foldl (fun m p => update m p (src p)) m = fun q => if q ∈ ps then src q else m q := by
  funext q
  split
  · exact foldl_update_of_mem m ‹_›
  · exact foldl_update_of_notMem m ‹_›

end Copy

/-- A bitmap, and a stack of what was recorded. -/
structure DirtyLog (κ ε : Type) where
  marked : κ → Bool
  stack : List ε

namespace DirtyLog

variable {κ ε σ : Type} [DecidableEq κ]

/-- Push `e` unless its key `k` is marked. -/
def record (log : DirtyLog κ ε) (k : κ) (e : ε) : DirtyLog κ ε :=
  if log.marked k then log else ⟨update log.marked k true, log.stack ++ [e]⟩

def recordAll (key : ε → κ) (log : DirtyLog κ ε) (es : List ε) : DirtyLog κ ε :=
  es.foldl (fun log e => log.record (key e) e) log

def visit (skip : ε → Bool) (key : ε → κ) (act : σ → ε → σ) :
    List ε → (κ → Bool) × σ × ℕ → (κ → Bool) × σ × ℕ
  | [], st => st
  | e :: es, (marked, s, n) =>
    if skip e then visit skip key act es (marked, s, n)
    else visit skip key act es (update marked (key e) false, act s e, n + 1)

/-- Act on what is on the stack and not skipped, clear its bits, and empty the stack. -/
def drain (log : DirtyLog κ ε) (skip : ε → Bool) (key : ε → κ) (act : σ → ε → σ) (s : σ) :
    DirtyLog κ ε × σ × ℕ :=
  let (marked, s, n) := visit skip key act log.stack (log.marked, s, 0)
  (⟨marked, []⟩, s, n)

def kept (log : DirtyLog κ ε) (skip : ε → Bool) : List ε := log.stack.filter fun e => !skip e

def drained (log : DirtyLog κ ε) (skip : ε → Bool) (key : ε → κ) : DirtyLog κ ε :=
  ⟨fun k => if k ∈ (log.kept skip).map key then false else log.marked k, []⟩

def Has (log : DirtyLog κ ε) (key : ε → κ) (k : κ) : Prop := ∃ e ∈ log.stack, key e = k

/-- Marked but not on the stack, so never recorded again. -/
def Lost (log : DirtyLog κ ε) (key : ε → κ) (k : κ) : Prop :=
  log.marked k = true ∧ ¬ log.Has key k

/-- What is on the stack is marked, and there once. -/
structure Once (log : DirtyLog κ ε) (key : ε → κ) : Prop where
  nodup : (log.stack.map key).Nodup
  marked : ∀ e ∈ log.stack, log.marked (key e) = true

variable {log : DirtyLog κ ε} {key : ε → κ} {skip : ε → Bool} {k : κ} {e : ε}

omit [DecidableEq κ] in
@[simp] theorem mem_kept : e ∈ log.kept skip ↔ e ∈ log.stack ∧ skip e = false := by
  simp [kept]

/-! ## Recording -/

theorem has_record : (log.record (key e) e).Has key k ↔
    log.Has key k ∨ k = key e ∧ log.marked k = false := by
  unfold record
  by_cases hm : log.marked (key e) = true
  · rw [if_pos hm]
    refine ⟨.inl, ?_⟩
    rintro (h | ⟨rfl, hfalse⟩)
    · exact h
    · rw [hm] at hfalse
      cases hfalse
  · rw [if_neg hm]
    simp only [Has, mem_append, mem_singleton]
    constructor
    · rintro ⟨e', he' | rfl, rfl⟩
      · exact .inl ⟨e', he', rfl⟩
      · exact .inr ⟨rfl, by simpa using hm⟩
    · rintro (⟨e', he', rfl⟩ | ⟨rfl, -⟩)
      · exact ⟨e', .inl he', rfl⟩
      · exact ⟨e, .inr rfl, rfl⟩

theorem lost_record : (log.record (key e) e).Lost key k ↔ log.Lost key k := by
  by_cases hm : log.marked (key e) = true
  · rw [record, if_pos hm]
  · have hrec : (log.record (key e) e).marked = update log.marked (key e) true := by
      rw [record, if_neg hm]
    unfold Lost
    rw [hrec, has_record]
    by_cases hk : k = key e
    · -- the key is marked now, together with its entry, and was not marked before
      subst hk
      simp [hm]
    · simp [hk]

theorem marked_record {k' : κ} : (log.record k' e).marked k = false ↔ log.marked k = false ∧ k ≠ k' := by
  unfold record
  by_cases hk : k = k'
  · subst hk
    by_cases hm : log.marked k = true
    · simp [hm]
    · simp [hm]
  · split
    · simp [hk]
    · simp [hk]

theorem mem_stack_record {e' : ε} (h : e ∈ (log.record k e').stack) : e ∈ log.stack ∨ e = e' := by
  unfold record at h
  split at h
  · exact .inl h
  · simpa using h

variable {es : List ε}

/-- **Recorded is what was not marked before.** -/
theorem has_recordAll : (log.recordAll key es).Has key k ↔
    log.Has key k ∨ k ∈ es.map key ∧ log.marked k = false := by
  induction es generalizing log with
  | nil => simp [recordAll]
  | cons e es ih =>
    refine ih.trans ?_
    rw [has_record, marked_record, map_cons, mem_cons]
    by_cases hk : k = key e
    · simp [hk]
    · simp [hk]

theorem lost_recordAll : (log.recordAll key es).Lost key k ↔ log.Lost key k := by
  induction es generalizing log with
  | nil => rfl
  | cons e es ih => exact ih.trans lost_record

theorem has_recordAll_of_mem (hk : k ∈ es.map key) (hlost : ¬ log.Lost key k) :
    (log.recordAll key es).Has key k := by
  rw [has_recordAll]
  by_cases hm : log.marked k = true
  · exact .inl (not_not.1 fun hno => hlost ⟨hm, hno⟩)
  · exact .inr ⟨hk, by simpa using hm⟩

theorem mem_stack_recordAll (h : e ∈ (log.recordAll key es).stack) : e ∈ log.stack ∨ e ∈ es := by
  induction es generalizing log with
  | nil => exact .inl h
  | cons e' es ih =>
    rcases ih h with h | h
    · exact (mem_stack_record h).imp id fun he => mem_cons.2 (.inl he)
    · exact .inr (mem_cons_of_mem _ h)

omit [DecidableEq κ] in
theorem once_of_stack_eq_nil (h : log.stack = []) : log.Once key := by
  constructor
  · rw [h]
    exact nodup_nil
  · rw [h]
    intro e he
    cases he

theorem Once.record (h : log.Once key) (e : ε) : (log.record (key e) e).Once key := by
  unfold DirtyLog.record
  by_cases hm : log.marked (key e) = true
  · rw [if_pos hm]
    exact h
  · rw [if_neg hm]
    -- a key with an entry is marked, so this one has none
    have hnew : ∀ e' ∈ log.stack, key e' ≠ key e := by
      intro e' he' heq
      apply hm
      rw [← heq]
      exact h.marked e' he'
    constructor
    · rw [map_append, map_singleton, nodup_append]
      refine ⟨h.nodup, by simp, ?_⟩
      intro k' hk' k'' hk''
      rcases mem_map.1 hk' with ⟨e', he', rfl⟩
      rw [mem_singleton.1 hk'']
      exact hnew e' he'
    · intro e' he'
      rcases mem_append.1 he' with he' | he'
      · exact (update_of_ne (hnew e' he') _ _).trans (h.marked e' he')
      · rw [mem_singleton.1 he']
        exact update_self _ _ _

theorem Once.recordAll (h : log.Once key) (es : List ε) : (log.recordAll key es).Once key := by
  induction es generalizing log with
  | nil => exact h
  | cons e es ih => exact ih (h.record e)

/-! ## Draining -/

theorem visit_eq (skip : ε → Bool) (key : ε → κ) (act : σ → ε → σ) (es : List ε)
    (marked : κ → Bool) (s : σ) (n : ℕ) :
    visit skip key act es (marked, s, n) =
      ((fun k => if k ∈ (es.filter fun e => !skip e).map key then false else marked k),
        (es.filter fun e => !skip e).foldl act s, n + (es.filter fun e => !skip e).length) := by
  induction es generalizing marked s n with
  | nil => simp [visit]
  | cons e es ih =>
    rw [visit]
    by_cases hskip : skip e = true
    · rw [if_pos hskip, ih, filter_cons_of_neg (by simp [hskip])]
    · rw [if_neg hskip, ih, filter_cons_of_pos (by simpa using hskip)]
      refine Prod.ext (funext fun k => ?_) (Prod.ext rfl ?_)
      · by_cases hk : k = key e
        · subst hk
          simp
        · have hmem : k ∈ (e :: es.filter fun e => !skip e).map key ↔
              k ∈ (es.filter fun e => !skip e).map key := by
            rw [map_cons, mem_cons, or_iff_right hk]
          exact if_congr hmem.symm rfl (update_of_ne hk _ _)
      · simp only [length_cons]
        omega

/-- **What draining does.** -/
theorem drain_eq (log : DirtyLog κ ε) (skip : ε → Bool) (key : ε → κ) (act : σ → ε → σ) (s : σ) :
    log.drain skip key act s =
      (log.drained skip key, (log.kept skip).foldl act s, (log.kept skip).length) := by
  rw [drain, visit_eq, Nat.zero_add]
  rfl

@[simp] theorem stack_drained : (log.drained skip key).stack = [] := rfl

theorem once_drained : (log.drained skip key).Once key := once_of_stack_eq_nil stack_drained

theorem drained_of_stack_eq_nil (h : log.stack = []) : log.drained skip key = log := by
  cases log with
  | mk marked stack =>
    subst h
    rfl

theorem lost_drained : (log.drained skip key).Lost key k ↔
    log.marked k = true ∧ ∀ e ∈ log.stack, key e = k → skip e = true := by
  have hkept : (∀ e ∈ log.stack, key e = k → skip e = true) ↔ k ∉ (log.kept skip).map key := by
    simp only [mem_map, mem_kept, not_exists, not_and, and_imp]
    refine forall₂_congr fun e _ => ?_
    cases skip e <;> simp
  rw [hkept]
  simp [drained, Lost, Has, and_comm]

theorem lost_or_skipped_of_drained (h : (log.drained skip key).Lost key k) :
    log.Lost key k ∨ ∃ e ∈ log.stack, key e = k ∧ skip e = true := by
  obtain ⟨hm, hall⟩ := lost_drained.1 h
  by_cases hhas : log.Has key k
  · obtain ⟨e, he, hk⟩ := hhas
    exact .inr ⟨e, he, hk, hall e he hk⟩
  · exact .inl ⟨hm, hhas⟩

theorem Lost.drained (h : log.Lost key k) : (log.drained skip key).Lost key k :=
  lost_drained.2 ⟨h.1, fun e he hk => absurd ⟨e, he, hk⟩ h.2⟩

end DirtyLog

end FuzzSocketCan.Lib
