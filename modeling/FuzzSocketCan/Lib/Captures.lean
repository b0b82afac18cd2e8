import Mathlib.Computability.Language
import Mathlib.Data.List.TakeWhile

/-! # Searching for a pattern with capture groups

A pattern is matched by backtracking: longer runs, earlier alternatives and the presence of an
optional part come first.

* **`Pattern.search`** — the groups of the first match at the leftmost place.
* **`Pattern.search_sound`** — they come from a match.
* **`Pattern.Takes`** — a pattern takes a given text, with a rule for each way to build patterns. -/

namespace FuzzSocketCan.Lib

open List Option

/-- Patterns with numbered groups. -/
inductive Pattern (α : Type)
  /-- One letter of a class. -/
  | one (p : α → Bool)
  /-- One or more letters of a class. -/
  | many (p : α → Bool)
  | word (w : List α)
  | seq (a b : Pattern α)
  | alt (a b : Pattern α)
  | opt (a : Pattern α)
  /-- A numbered group. -/
  | group (i : ℕ) (a : Pattern α)

/-- What the groups have matched. -/
abbrev Caps (α : Type) := ℕ → Option (List α)

namespace Pattern

variable {α β : Type}

def tryLengths (input : List α) (k : List α → Option β) : ℕ → Option β
  | 0 => none
  | n + 1 => (k (input.drop (n + 1))).or (tryLengths input k n)

/-- Match at the beginning and go on with `k`, with backtracking. -/
@[simp]
def matchThen [DecidableEq α] : Pattern α → List α → Caps α → (List α → Caps α → Option β) → Option β
  | one p, input, caps, k =>
    match input with
    | c :: rest => if p c then k rest caps else none
    | [] => none
  | many p, input, caps, k => tryLengths input (fun rest => k rest caps) (input.takeWhile p).length
  | word w, input, caps, k =>
    if input.take w.length = w then k (input.drop w.length) caps else none
  | seq a b, input, caps, k => a.matchThen input caps fun rest caps => b.matchThen rest caps k
  | alt a b, input, caps, k => (a.matchThen input caps k).or (b.matchThen input caps k)
  | opt a, input, caps, k => (a.matchThen input caps k).or (k input caps)
  | group i a, input, caps, k => a.matchThen input caps fun rest caps =>
    k rest (Function.update caps i (some (input.take (input.length - rest.length))))

def matchAt [DecidableEq α] (pat : Pattern α) (input : List α) : Option (Caps α) :=
  pat.matchThen input (fun _ => none) fun _ caps => some caps

/-- The leftmost match. -/
def search [DecidableEq α] (pat : Pattern α) : List α → Option (Caps α)
  | [] => pat.matchAt []
  | c :: input => (pat.matchAt (c :: input)).or (search pat input)

/-! ## What is matched -/

/-- The strings of a pattern. -/
def lang : Pattern α → Language α
  | one p => {w | ∃ c, p c ∧ w = [c]}
  | many p => {w | w ≠ [] ∧ ∀ c ∈ w, p c}
  | word w => {w}
  | seq a b => lang a * lang b
  | alt a b => lang a + lang b
  | opt a => lang a + 1
  | group _ a => lang a

variable {input : List α}

theorem tryLengths_eq_some {k : List α → Option β} {n : ℕ} {r : β}
    (h : tryLengths input k n = some r) : ∃ m, 0 < m ∧ m ≤ n ∧ k (input.drop m) = some r := by
  induction n with
  | zero => cases h
  | succ n ih =>
    rw [tryLengths, or_eq_some_iff] at h
    rcases h with h | ⟨-, h⟩
    · exact ⟨n + 1, Nat.succ_pos n, le_refl _, h⟩
    · obtain ⟨m, hm, hle, hk⟩ := ih h
      exact ⟨m, hm, Nat.le_succ_of_le hle, hk⟩

/-- **What is matched is a string of the pattern.** -/
theorem matchThen_sound [DecidableEq α] {pat : Pattern α} {caps : Caps α}
    {k : List α → Caps α → Option β} {r : β} (h : pat.matchThen input caps k = some r) :
    ∃ w rest caps', input = w ++ rest ∧ w ∈ pat.lang ∧ k rest caps' = some r := by
  induction pat generalizing input caps k with
  | one p =>
    cases input with
    | nil => cases h
    | cons c rest =>
      rw [matchThen] at h
      split at h
      · exact ⟨[c], rest, caps, rfl, ⟨c, ‹_›, rfl⟩, h⟩
      · cases h
  | many p =>
    obtain ⟨m, hm, hle, hk⟩ := tryLengths_eq_some h
    refine ⟨input.take m, input.drop m, caps, (take_append_drop m input).symm, ⟨?_, ?_⟩, hk⟩
    · rw [Ne, take_eq_nil_iff]
      rintro (rfl | rfl)
      · exact absurd hm (lt_irrefl 0)
      · exact absurd (lt_of_lt_of_le hm hle) (lt_irrefl 0)
    · intro c hc
      rw [← takeWhile_append_dropWhile (p := p) (l := input),
        take_append_of_le_length hle] at hc
      exact mem_takeWhile_imp (mem_of_mem_take hc)
  | word w =>
    rw [matchThen] at h
    split at h
    · rename_i htake
      refine ⟨w, input.drop w.length, caps, ?_, rfl, h⟩
      conv_lhs => rw [← take_append_drop w.length input, htake]
    · cases h
  | seq a b iha ihb =>
    obtain ⟨w, rest, caps', rfl, hw, h'⟩ := iha h
    obtain ⟨w', rest', caps'', rfl, hw', hk⟩ := ihb h'
    exact ⟨w ++ w', rest', caps'', (append_assoc w w' rest').symm,
      Language.append_mem_mul hw hw', hk⟩
  | alt a b iha ihb =>
    rw [matchThen, or_eq_some_iff] at h
    rcases h with h | ⟨-, h⟩
    · obtain ⟨w, rest, caps', heq, hw, hk⟩ := iha h
      exact ⟨w, rest, caps', heq, Or.inl hw, hk⟩
    · obtain ⟨w, rest, caps', heq, hw, hk⟩ := ihb h
      exact ⟨w, rest, caps', heq, Or.inr hw, hk⟩
  | opt a iha =>
    rw [matchThen, or_eq_some_iff] at h
    rcases h with h | ⟨-, h⟩
    · obtain ⟨w, rest, caps', heq, hw, hk⟩ := iha h
      exact ⟨w, rest, caps', heq, Or.inl hw, hk⟩
    · exact ⟨[], input, caps, rfl, Or.inr rfl, h⟩
  | group i a iha =>
    obtain ⟨w, rest, caps', heq, hw, hk⟩ := iha h
    exact ⟨w, rest, _, heq, hw, hk⟩

theorem search_sound [DecidableEq α] {pat : Pattern α} {caps : Caps α}
    (h : pat.search input = some caps) : ∃ a w b, input = a ++ (w ++ b) ∧ w ∈ pat.lang := by
  induction input with
  | nil =>
    obtain ⟨w, rest, -, heq, hw, -⟩ := matchThen_sound h
    exact ⟨[], w, rest, heq, hw⟩
  | cons c input ih =>
    rw [search, or_eq_some_iff] at h
    rcases h with h | ⟨-, h⟩
    · obtain ⟨w, rest, -, heq, hw, -⟩ := matchThen_sound h
      exact ⟨[], w, rest, heq, hw⟩
    · obtain ⟨a, w, b, rfl, hw⟩ := ih h
      exact ⟨c :: a, w, b, rfl, hw⟩

/-! ## Running a pattern over a given text -/

theorem takeWhile_run {p : α → Bool} {w rest : List α} (hw : ∀ c ∈ w, p c)
    (hrest : ∀ c ∈ rest.head?, p c = false) : (w ++ rest).takeWhile p = w := by
  have hnil : rest.takeWhile p = [] := by
    cases rest with
    | nil => rfl
    | cons c rest => rw [takeWhile_cons, if_neg (by simp [hrest c rfl])]
  rw [takeWhile_append_of_pos hw, hnil, append_nil]

section Run

variable [DecidableEq α] {a b : Pattern α} {p : α → Bool} {c : α} {w w' rest : List α}
  {caps caps1 caps2 : Caps α}

/-- In front of `rest`, the pattern matches `w`, if what follows succeeds. -/
def Takes (a : Pattern α) (w rest : List α) (caps caps1 : Caps α) : Prop :=
  ∀ {β : Type} (k : List α → Caps α → Option β) (r : β), k rest caps1 = some r →
    a.matchThen (w ++ rest) caps k = some r

/-- Nothing at the beginning of `input` matches. -/
def Fails (a : Pattern α) (input : List α) : Prop :=
  ∀ {β : Type} (caps : Caps α) (k : List α → Caps α → Option β), a.matchThen input caps k = none

theorem takes_many (hne : w ≠ []) (hw : ∀ c ∈ w, p c) (hrest : ∀ c ∈ rest.head?, p c = false) :
    (many p).Takes w rest caps caps := by
  intro β k r hk
  rw [matchThen, takeWhile_run hw hrest]
  obtain ⟨n, hn⟩ := Nat.exists_eq_add_one_of_ne_zero (length_pos_iff.2 hne).ne'
  rw [hn, tryLengths, ← hn, drop_left, hk]
  rfl

theorem takes_one (hc : p c) : (one p).Takes [c] rest caps caps := by
  intro β k r hk
  rw [singleton_append, matchThen, if_pos hc, hk]

theorem takes_word : (word w).Takes w rest caps caps := by
  intro β k r hk
  rw [matchThen, take_left, if_pos rfl, drop_left, hk]

theorem takes_seq (ha : a.Takes w (w' ++ rest) caps caps1) (hb : b.Takes w' rest caps1 caps2) :
    (seq a b).Takes (w ++ w') rest caps caps2 := by
  intro β k r hk
  rw [matchThen, append_assoc]
  apply ha
  exact hb k r hk

theorem takes_alt_left (ha : a.Takes w rest caps caps1) : (alt a b).Takes w rest caps caps1 := by
  intro β k r hk
  rw [matchThen, ha k r hk, some_or]

theorem takes_alt_right (ha : a.Fails (w ++ rest)) (hb : b.Takes w rest caps caps1) :
    (alt a b).Takes w rest caps caps1 := by
  intro β k r hk
  rw [matchThen, ha caps k, none_or, hb k r hk]

theorem takes_opt (ha : a.Takes w rest caps caps1) : (opt a).Takes w rest caps caps1 := by
  intro β k r hk
  rw [matchThen, ha k r hk, some_or]

theorem takes_opt_nil (ha : a.Fails rest) : (opt a).Takes [] rest caps caps := by
  intro β k r hk
  rw [matchThen, nil_append, ha caps k, none_or, hk]

theorem takes_group (i : ℕ) (ha : a.Takes w rest caps caps1) :
    (group i a).Takes w rest caps (Function.update caps1 i (some w)) := by
  intro β k r hk
  apply ha
  rw [length_append, Nat.add_sub_cancel, take_left, hk]

theorem fails_one_nil : (one p).Fails [] := fun _ _ => rfl

theorem fails_word (h : rest.take w.length ≠ w) : (word w).Fails rest := by
  intro β caps k
  rw [matchThen, if_neg h]

theorem fails_seq (h : a.Fails rest) : (seq a b).Fails rest := fun caps _ => h caps _

theorem fails_group (i : ℕ) (h : a.Fails rest) : (group i a).Fails rest := fun caps _ => h caps _

theorem search_of_takes (h : a.Takes w rest (fun _ => none) caps) :
    a.search (w ++ rest) = some caps := by
  have hat : a.matchAt (w ++ rest) = some caps := h _ _ rfl
  cases hinput : w ++ rest with
  | nil => rw [search, ← hinput, hat]
  | cons c input => rw [search, ← hinput, hat, some_or]

end Run

end Pattern

end FuzzSocketCan.Lib
