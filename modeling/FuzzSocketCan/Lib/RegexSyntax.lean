import Mathlib.Algebra.Order.Monoid.Unbundled.Pow
import Mathlib.Computability.Language
import Mathlib.Order.CompletePartialOrder

/-! # The syntax of regular expressions

The high-level intermediate representation of a regular expression over bytes.

* **`Hir.langWith`**, **`Hir.lang`** — its language, built from a meaning of the classes and of the
  repetition counts, in which the zero-width tests count as the empty string.
* **`Hir.Matches`** — a string matches the expression: the tests look at what stands in front and
  behind. Where there are none, the strings of the language match
  (`Hir.matchesAt_of_langWith`).
* **`Hir.visited`** — the subterms that are not below a repetition of exactly zero. -/

namespace FuzzSocketCan.Lib

open List

/-! ## Syntax -/

/-- A single character, or a byte that is not part of one. -/
inductive Literal
  | unicode (chr : Char)
  | byte (b : UInt8)
  deriving DecidableEq, Repr

def Literal.bytes : Literal → List UInt8
  | unicode chr => String.utf8EncodeChar chr
  | byte b => [b]

structure ClassBytesRange where
  start : UInt8
  stop : UInt8
  le : start.toNat ≤ stop.toNat
  deriving DecidableEq, Repr

structure ClassUnicodeRange where
  start : Char
  stop : Char
  le : start.toNat ≤ stop.toNat
  deriving DecidableEq, Repr

inductive Class
  | unicode (ranges : List ClassUnicodeRange)
  | bytes (ranges : List ClassBytesRange)
  deriving DecidableEq, Repr

inductive RepetitionRange
  | exactly (a : ℕ)
  | atLeast (a : ℕ)
  | bounded (a b : ℕ)
  deriving DecidableEq, Repr

inductive RepetitionKind
  | zeroOrOne
  | zeroOrMore
  | oneOrMore
  | range (rng : RepetitionRange)
  deriving DecidableEq, Repr

inductive Anchor
  | startLine
  | endLine
  | startText
  | endText
  deriving DecidableEq, Repr

/-- The test for the begin or the end of a word. -/
inductive WordBoundary
  | unicode
  | unicodeNegate
  | ascii
  | asciiNegate
  deriving DecidableEq, Repr

inductive Hir
  | empty
  | literal (lit : Literal)
  | cls (cls : Class)
  | anchor (kind : Anchor)
  | wordBoundary (kind : WordBoundary)
  | repetition (kind : RepetitionKind) (hir : Hir)
  | group (hir : Hir)
  | concat (hirs : List Hir)
  | alternation (hirs : List Hir)

namespace Hir

@[elab_as_elim]
theorem induction {P : Hir → Prop} (empty : P .empty) (literal : ∀ lit, P (.literal lit))
    (cls : ∀ c, P (.cls c)) (anchor : ∀ a, P (.anchor a)) (wordBoundary : ∀ b, P (.wordBoundary b))
    (repetition : ∀ kind h, P h → P (.repetition kind h)) (group : ∀ h, P h → P (.group h))
    (concat : ∀ hs, (∀ h ∈ hs, P h) → P (.concat hs))
    (alternation : ∀ hs, (∀ h ∈ hs, P h) → P (.alternation hs)) (h : Hir) : P h := by
  refine @Hir.rec P (fun hs => ∀ h ∈ hs, P h) empty literal cls anchor wordBoundary repetition
    group concat alternation ?_ ?_ h
  · simp
  · intro h hs hh hhs k hk
    rcases mem_cons.1 hk with rfl | hk
    · exact hh
    · exact hhs k hk

/-! ## Languages -/

section Language

variable (C : Class → Language UInt8) (K : RepetitionKind → Set ℕ)

mutual

/-- The language of an expression whose classes mean `C` and whose repetitions allow the counts `K`.
Anchors and word boundaries count as the empty string. -/
def langWith : Hir → Language UInt8
  | .empty => 1
  | .literal lit => {lit.bytes}
  | .cls c => C c
  | .anchor _ => 1
  | .wordBoundary _ => 1
  | .repetition kind h => {w | ∃ n ∈ K kind, w ∈ langWith h ^ n}
  | .group h => langWith h
  | .concat hs => concatWith hs
  | .alternation hs => alternationWith hs

def concatWith : List Hir → Language UInt8
  | [] => 1
  | h :: hs => langWith h * concatWith hs

def alternationWith : List Hir → Language UInt8
  | [] => 0
  | h :: hs => langWith h + alternationWith hs

end

variable {C K}

theorem mem_alternationWith {hs : List Hir} {w : List UInt8} :
    w ∈ alternationWith C K hs ↔ ∃ h ∈ hs, w ∈ langWith C K h := by
  induction hs with
  | nil => simp [alternationWith]
  | cons h hs ih => simp [alternationWith, Language.mem_add, ih]

end Language

/-! ## Parts of an expression -/

mutual

@[simp]
def subterms : Hir → List Hir
  | .repetition kind h => .repetition kind h :: subterms h
  | .group h => .group h :: subterms h
  | .concat hs => .concat hs :: subtermsAll hs
  | .alternation hs => .alternation hs :: subtermsAll hs
  | .empty => [.empty]
  | .literal lit => [.literal lit]
  | .cls c => [.cls c]
  | .anchor a => [.anchor a]
  | .wordBoundary b => [.wordBoundary b]

@[simp]
def subtermsAll : List Hir → List Hir
  | [] => []
  | h :: hs => subterms h ++ subtermsAll hs

end

mutual

@[simp]
def visited : Hir → List Hir
  | .repetition kind h => .repetition kind h ::
      if kind = .range (.exactly 0) then [] else visited h
  | .group h => .group h :: visited h
  | .concat hs => .concat hs :: visitedAll hs
  | .alternation hs => .alternation hs :: visitedAll hs
  | .empty => [.empty]
  | .literal lit => [.literal lit]
  | .cls c => [.cls c]
  | .anchor a => [.anchor a]
  | .wordBoundary b => [.wordBoundary b]

@[simp]
def visitedAll : List Hir → List Hir
  | [] => []
  | h :: hs => visited h ++ visitedAll hs

end

theorem mem_subtermsAll {hs : List Hir} {k : Hir} :
    k ∈ subtermsAll hs ↔ ∃ h ∈ hs, k ∈ h.subterms := by
  induction hs with
  | nil => simp
  | cons h hs ih => simp [ih]

theorem mem_visitedAll {hs : List Hir} {k : Hir} : k ∈ visitedAll hs ↔ ∃ h ∈ hs, k ∈ h.visited := by
  induction hs with
  | nil => simp
  | cons h hs ih => simp [ih]

theorem self_mem_subterms (h : Hir) : h ∈ h.subterms := by
  cases h <;> simp

theorem self_mem_visited (h : Hir) : h ∈ h.visited := by
  cases h <;> simp

section Parts

variable {hs : List Hir} {h : Hir}

theorem subterms_repetition (kind : RepetitionKind) (h : Hir) :
    h.subterms ⊆ (repetition kind h).subterms := by
  intro k hk
  simp [hk]

theorem subterms_group (h : Hir) : h.subterms ⊆ (group h).subterms := by
  intro k hk
  simp [hk]

theorem subterms_concat (hh : h ∈ hs) : h.subterms ⊆ (concat hs).subterms := by
  intro k hk
  simp only [subterms, mem_cons, mem_subtermsAll]
  exact Or.inr ⟨h, hh, hk⟩

theorem subterms_alternation (hh : h ∈ hs) : h.subterms ⊆ (alternation hs).subterms := by
  intro k hk
  simp only [subterms, mem_cons, mem_subtermsAll]
  exact Or.inr ⟨h, hh, hk⟩

theorem visited_repetition {kind : RepetitionKind} (hkind : kind ≠ .range (.exactly 0)) (h : Hir) :
    h.visited ⊆ (repetition kind h).visited := by
  intro k hk
  simp [hkind, hk]

theorem visited_group (h : Hir) : h.visited ⊆ (group h).visited := by
  intro k hk
  simp [hk]

theorem visited_concat (hh : h ∈ hs) : h.visited ⊆ (concat hs).visited := by
  intro k hk
  simp only [visited, mem_cons, mem_visitedAll]
  exact Or.inr ⟨h, hh, hk⟩

theorem visited_alternation (hh : h ∈ hs) : h.visited ⊆ (alternation hs).visited := by
  intro k hk
  simp only [visited, mem_cons, mem_visitedAll]
  exact Or.inr ⟨h, hh, hk⟩

end Parts

end Hir

/-! ## The usual meaning -/

def Class.lang : Class → Language UInt8
  | unicode ranges =>
    {w | ∃ r ∈ ranges, ∃ c : Char, r.start ≤ c ∧ c ≤ r.stop ∧ w = String.utf8EncodeChar c}
  | bytes ranges => {w | ∃ r ∈ ranges, ∃ b : UInt8, r.start ≤ b ∧ b ≤ r.stop ∧ w = [b]}

def RepetitionKind.counts : RepetitionKind → Set ℕ
  | zeroOrOne => {n | n ≤ 1}
  | zeroOrMore => Set.univ
  | oneOrMore => {n | 1 ≤ n}
  | range (.exactly a) => {a}
  | range (.atLeast a) => {n | a ≤ n}
  | range (.bounded a b) => {n | a ≤ n ∧ n ≤ b}

def Hir.lang (h : Hir) : Language UInt8 := h.langWith Class.lang RepetitionKind.counts

theorem Hir.langWith_mono {C C' : Class → Language UInt8} {K K' : RepetitionKind → Set ℕ} {h : Hir}
    (hC : ∀ c, .cls c ∈ h.subterms → C c ≤ C' c) (hK : ∀ kind, K kind ⊆ K' kind) :
    h.langWith C K ≤ h.langWith C' K' := by
  induction h using Hir.induction with
  | empty | literal _ | anchor _ | wordBoundary _ => simp only [langWith]; exact le_refl _
  | cls c => simpa only [langWith] using hC c (by simp [subterms])
  | repetition kind h ih =>
    have ih := ih fun c hc => hC c (subterms_repetition kind h hc)
    rintro w ⟨n, hn, hw⟩
    exact ⟨n, hK kind hn, pow_le_pow_left' ih n hw⟩
  | group h ih =>
    simpa only [langWith] using ih fun c hc => hC c (subterms_group h hc)
  | concat hs ih =>
    simp only [langWith]
    simp only [subterms, mem_cons, reduceCtorEq, false_or, mem_subtermsAll] at hC
    induction hs with
    | nil => exact le_refl _
    | cons h hs ihs =>
      refine mul_le_mul' (ih h (by simp) fun c hc => hC c ⟨h, by simp, hc⟩) (ihs ?_ ?_)
      · exact fun k hk => ih k (mem_cons_of_mem _ hk)
      · rintro c ⟨k, hk, hc⟩
        exact hC c ⟨k, mem_cons_of_mem _ hk, hc⟩
  | alternation hs ih =>
    intro w hw
    obtain ⟨h, hh, hw⟩ := mem_alternationWith.1 hw
    exact mem_alternationWith.2
      ⟨h, hh, ih h hh (fun c hc => hC c (subterms_alternation hh hc)) hw⟩

/-! ## Matching -/

/-- A letter, a digit or an underscore. -/
def isWordByte (b : UInt8) : Bool :=
  48 ≤ b && b ≤ 57 || 65 ≤ b && b ≤ 90 || b == 95 || 97 ≤ b && b ≤ 122

def Anchor.Holds : Anchor → List UInt8 → List UInt8 → Prop
  | startLine, front, _ => ∀ b ∈ front.getLast?, b = 10
  | endLine, _, back => ∀ b ∈ back.head?, b = 10
  | startText, front, _ => front = []
  | endText, _, back => back = []

section Matches

-- the word characters of Unicode
variable (word : Char → Prop)

def WordBoundary.Holds : WordBoundary → List UInt8 → List UInt8 → Prop
  | unicode, front, back => ¬((∃ text c, word c ∧ front = text ++ String.utf8EncodeChar c) ↔
      ∃ text c, word c ∧ back = String.utf8EncodeChar c ++ text)
  | unicodeNegate, front, back => (∃ text c, word c ∧ front = text ++ String.utf8EncodeChar c) ↔
      ∃ text c, word c ∧ back = String.utf8EncodeChar c ++ text
  | ascii, front, back => ¬((∃ b ∈ front.getLast?, isWordByte b) ↔ ∃ b ∈ back.head?, isWordByte b)
  | asciiNegate, front, back =>
    (∃ b ∈ front.getLast?, isWordByte b) ↔ ∃ b ∈ back.head?, isWordByte b

/-- `front`, the match and `back` in a text. -/
abbrev Matcher := List UInt8 → List UInt8 → List UInt8 → Prop

def Matcher.andThen (p q : Matcher) : Matcher := fun front w back =>
  ∃ u v, w = u ++ v ∧ p front u (v ++ back) ∧ q (front ++ u) v back

def Matcher.times (p : Matcher) : ℕ → Matcher
  | 0 => fun _ w _ => w = []
  | n + 1 => p.andThen (p.times n)

namespace Hir

mutual

/-- **The expression matches at a place of a text.** -/
def MatchesAt : Hir → Matcher
  | .empty => fun _ w _ => w = []
  | .literal lit => fun _ w _ => w = lit.bytes
  | .cls c => fun _ w _ => w ∈ c.lang
  | .anchor a => fun front w back => w = [] ∧ a.Holds front back
  | .wordBoundary b => fun front w back => w = [] ∧ b.Holds word front back
  | .repetition kind h => fun front w back =>
      ∃ n ∈ kind.counts, Matcher.times (MatchesAt h) n front w back
  | .group h => MatchesAt h
  | .concat hs => MatchesAllAt hs
  | .alternation hs => MatchesAnyAt hs

def MatchesAllAt : List Hir → Matcher
  | [] => fun _ w _ => w = []
  | h :: hs => Matcher.andThen (MatchesAt h) (MatchesAllAt hs)

def MatchesAnyAt : List Hir → Matcher
  | [] => fun _ _ _ => False
  | h :: hs => fun front w back => MatchesAt h front w back ∨ MatchesAnyAt hs front w back

end

/-- The whole string matches the expression. -/
def Matches (h : Hir) (w : List UInt8) : Prop := h.MatchesAt word [] w []

variable {word}

theorem matchesAnyAt_of_mem {hs : List Hir} {h : Hir} (hh : h ∈ hs) {front w back : List UInt8}
    (hw : h.MatchesAt word front w back) : MatchesAnyAt word hs front w back := by
  induction hs with
  | nil => cases hh
  | cons k hs ih =>
    rcases mem_cons.1 hh with rfl | hh
    · exact Or.inl hw
    · exact Or.inr (ih hh)

/-- With the classes read as `C`, the expression itself has no string too many: it is no zero-width
test, and no class that `C` makes wider. -/
def Faithful (C : Class → Language UInt8) : Hir → Prop
  | .anchor _ | .wordBoundary _ => False
  | .cls c => C c ≤ c.lang
  | _ => True

theorem matchesAt_of_langWith {C : Class → Language UInt8} {K : RepetitionKind → Set ℕ} {h : Hir}
    (hfaithful : ∀ k ∈ h.visited, k.Faithful C) (hK : ∀ kind, K kind ⊆ kind.counts) {w : List UInt8}
    (hw : w ∈ h.langWith C K) (front back : List UInt8) : h.MatchesAt word front w back := by
  induction h using Hir.induction generalizing w front back with
  | empty | literal lit => exact hw
  | cls c => exact hfaithful _ (self_mem_visited _) hw
  | anchor a => exact (hfaithful _ (self_mem_visited _)).elim
  | wordBoundary b => exact (hfaithful _ (self_mem_visited _)).elim
  | repetition kind h ih =>
    obtain ⟨n, hn, hw⟩ := hw
    refine ⟨n, hK kind hn, ?_⟩
    by_cases hzero : kind = .range (.exactly 0)
    · subst hzero
      obtain rfl : n = 0 := hK _ hn
      exact hw
    · replace ih := @ih fun k hk => hfaithful k (visited_repetition hzero h hk)
      clear hn
      induction n generalizing w front with
      | zero => exact hw
      | succ n ihn =>
        rw [pow_succ', Language.mem_mul] at hw
        obtain ⟨u, hu, v, hv, rfl⟩ := hw
        exact ⟨u, v, rfl, ih hu front (v ++ back), ihn (front ++ u) hv⟩
  | group h ih => exact ih (fun k hk => hfaithful k (visited_group h hk)) hw front back
  | concat hs ih =>
    replace ih := fun h hh => @ih h hh fun k hk => hfaithful k (visited_concat hh hk)
    clear hfaithful
    replace hw : w ∈ concatWith C K hs := hw
    show MatchesAllAt word hs front w back
    induction hs generalizing w front with
    | nil => exact hw
    | cons h hs ihs =>
      obtain ⟨u, hu, v, hv, rfl⟩ := hw
      exact ⟨u, v, rfl, ih h mem_cons_self hu front (v ++ back),
        ihs (front ++ u) (fun k hk => ih k (mem_cons_of_mem _ hk)) hv⟩
  | alternation hs ih =>
    obtain ⟨h, hh, hw⟩ := mem_alternationWith.1 hw
    refine matchesAnyAt_of_mem hh (ih h hh (fun k hk => hfaithful k ?_) hw front back)
    exact visited_alternation hh hk

end Hir

end Matches

end FuzzSocketCan.Lib
