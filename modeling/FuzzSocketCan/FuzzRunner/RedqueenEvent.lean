import FuzzSocketCan.Lib.Captures
import FuzzSocketCan.Lib.Hex

/-! # Redqueen events

A comparison that the redqueen hooks saw in a traced run, and how it is read from a log line.

* **`RedqueenEvent.new`** — reads a line with the regular expression of the fuzzer.
* **`new_logLine`** — a line with the parts in their places is read back. -/

namespace FuzzSocketCan

open Lib List Function Pattern

inductive RedqueenBPType
  | str
  | cmp
  | sub
  deriving DecidableEq, Repr

structure RedqueenEvent where
  addr : UInt64
  bpType : RedqueenBPType
  lhs : List UInt8
  rhs : List UInt8
  imm : Bool
  deriving DecidableEq, Repr

/-! ## Reading a line -/

inductive RedqueenPanic
  | unwrap
  | unknownBpType (data : List Char)
  | couldntParse (line : List Char)
  deriving DecidableEq, Repr

/-- if the RAM block is not split. -/
def RedqueenPanic.ofOption {α : Type} : Option α → Except RedqueenPanic α
  | some a => .ok a
  | none => .error .unwrap

def RedqueenBPType.new (data : List Char) : Except RedqueenPanic RedqueenBPType :=
  if data = ['S', 'T', 'R'] then .ok .str
  else if data = ['C', 'M', 'P'] then .ok .cmp
  else if data = ['S', 'U', 'B'] then .ok .sub
  else .error (.unknownBpType data)

/-- `\s`: the property `White_Space`. -/
def isSpace (c : Char) : Bool :=
  c ∈ ['\t', '\n', '\x0b', '\x0c', '\r', ' ', '\u0085', '\u00a0', '\u1680', '\u2000', '\u2001',
    '\u2002', '\u2003', '\u2004', '\u2005', '\u2006', '\u2007', '\u2008', '\u2009', '\u200a',
    '\u2028', '\u2029', '\u202f', '\u205f', '\u3000']

/-- `\d`; only the ASCII digits occur in logs. -/
def isDecimal (c : Char) : Bool := '0' ≤ c ∧ c ≤ '9'

/-- The regular expression `RE`. -/
def redqueenRe : Pattern Char :=
  .seq (.group 1 (.many Hex.isDigit)) <| .seq (.many isSpace) <|
  .seq (.group 2 (.alt (.word ['C', 'M', 'P'])
    (.alt (.word ['S', 'U', 'B']) (.word ['S', 'T', 'R'])))) <| .seq (.many isSpace) <|
  .seq (.group 3 (.many isDecimal)) <| .seq (.many isSpace) <|
  .seq (.group 4 (.many Hex.isDigit)) <| .seq (.word ['-']) <|
  .seq (.group 5 (.many Hex.isDigit)) <|
  .opt (.group 6 (.seq (.one isSpace) (.word ['I', 'M', 'M'])))

def u64FromHex (s : List Char) : Option UInt64 :=
  if s = [] then none
  else (Hex.read s).bind fun n => if n < 2 ^ 64 then some (UInt64.ofNat n) else none

def RedqueenEvent.new (line : List Char) : Except RedqueenPanic RedqueenEvent :=
  match redqueenRe.search line with
  | some mat => do
      let addrS ← RedqueenPanic.ofOption (mat 1)
      let typeS ← RedqueenPanic.ofOption (mat 2)
      let lhs ← RedqueenPanic.ofOption (mat 4)
      let rhs ← RedqueenPanic.ofOption (mat 5)
      let imm := (mat 6).isSome
      let addr ← RedqueenPanic.ofOption (u64FromHex addrS)
      let bpType ← RedqueenBPType.new typeS
      let lhs ← RedqueenPanic.ofOption (Hex.decode lhs)
      let rhs ← RedqueenPanic.ofOption (Hex.decode rhs)
      return ⟨addr, bpType, lhs, rhs, imm⟩
  | none => .error (.couldntParse line)

def lines : List Char → List (List Char)
  | [] => []
  | '\r' :: '\n' :: rest => [] :: lines rest
  | '\n' :: rest => [] :: lines rest
  | c :: rest =>
    match lines rest with
    | [] => [[c]]
    | line :: rest => (c :: line) :: rest

def parseRedqueenData (data : List Char) : Except RedqueenPanic (List RedqueenEvent) :=
  (lines data).mapM RedqueenEvent.new

/-! ## What is read -/

def RedqueenBPType.name : RedqueenBPType → List Char
  | str => ['S', 'T', 'R']
  | cmp => ['C', 'M', 'P']
  | sub => ['S', 'U', 'B']

def logLine (addr gap : List Char) (type : RedqueenBPType) (bits lhs rhs : List Char) (imm : Bool) :
    List Char :=
  addr ++ (gap ++ (type.name ++ ([' '] ++ (bits ++ (['\t'] ++ (lhs ++ (['-'] ++ (rhs ++
    if imm then [' ', 'I', 'M', 'M'] else []))))))))

structure LogLineParts (addr gap bits lhs rhs : List Char) : Prop where
  addr_ne_nil : addr ≠ []
  isDigit_addr : ∀ c ∈ addr, Hex.isDigit c
  gap_ne_nil : gap ≠ []
  isSpace_gap : ∀ c ∈ gap, isSpace c
  bits_ne_nil : bits ≠ []
  isDecimal_bits : ∀ c ∈ bits, isDecimal c
  lhs_ne_nil : lhs ≠ []
  isDigit_lhs : ∀ c ∈ lhs, Hex.isDigit c
  rhs_ne_nil : rhs ≠ []
  isDigit_rhs : ∀ c ∈ rhs, Hex.isDigit c

section LogLine

variable {addr gap bits lhs rhs : List Char} {type : RedqueenBPType} {imm : Bool}

variable {c : Char}

theorem isDigit_of_isSpace (h : isSpace c) : Hex.isDigit c = false := by
  have hmem := of_decide_eq_true h
  rw [← Bool.not_eq_true']
  refine (all_eq_true (p := fun d => !Hex.isDigit d)).1 ?_ c hmem
  decide

theorem isSpace_of_isDigit (h : Hex.isDigit c) : isSpace c = false := by
  by_contra hs
  rw [isDigit_of_isSpace (Bool.eq_true_of_not_eq_false hs)] at h
  cases h

theorem isDigit_of_isDecimal (h : isDecimal c) : Hex.isDigit c := by
  rw [isDecimal, decide_eq_true_eq] at h
  rw [Hex.isDigit, Hex.value, if_pos h]
  rfl

theorem head_append {p : Char → Bool} {w rest : List Char} (hne : w ≠ [])
    (hw : ∀ c ∈ w, p c = false) : ∀ c ∈ (w ++ rest).head?, p c = false := by
  intro c hc
  rw [head?_append_of_ne_nil _ hne] at hc
  exact hw c (mem_of_mem_head? hc)

theorem head_cons {p : Char → Bool} {c : Char} {rest : List Char} (hc : p c = false) :
    ∀ d ∈ (c :: rest).head?, p d = false := by
  rintro d ⟨⟩
  exact hc

theorem takes_type (rest : List Char) (caps : Caps Char) :
    (Pattern.alt (.word ['C', 'M', 'P']) (.alt (.word ['S', 'U', 'B'])
      (.word ['S', 'T', 'R']))).Takes type.name rest caps caps := by
  cases type with
  | cmp => exact takes_alt_left takes_word
  | sub =>
    apply takes_alt_right
    · exact fails_word (by simp [RedqueenBPType.name])
    · exact takes_alt_left takes_word
  | str =>
    apply takes_alt_right
    · exact fails_word (by simp [RedqueenBPType.name])
    · apply takes_alt_right
      · exact fails_word (by simp [RedqueenBPType.name])
      · exact takes_word

theorem takes_imm (imm : Bool) (caps : Caps Char) :
    ∃ caps1, (Pattern.opt (.group 6 (.seq (.one isSpace) (.word ['I', 'M', 'M'])))).Takes
        (if imm then [' ', 'I', 'M', 'M'] else []) [] caps caps1 ∧
      (∀ i, i ≠ 6 → caps1 i = caps i) ∧ (caps 6 = none → (caps1 6).isSome = imm) := by
  cases imm with
  | true =>
    refine ⟨update caps 6 (some [' ', 'I', 'M', 'M']), ?_, ?_, ?_⟩
    · apply takes_opt
      apply takes_group
      exact takes_seq (w := [' ']) (takes_one (by decide)) takes_word
    · intro i hi
      exact update_of_ne hi _ _
    · intro _
      rfl
  | false =>
    refine ⟨caps, ?_, fun _ _ => rfl, ?_⟩
    · apply takes_opt_nil
      apply fails_group
      exact fails_seq fails_one_nil
    · intro h
      rw [h]
      rfl

theorem search_logLine (h : LogLineParts addr gap bits lhs rhs) (type : RedqueenBPType)
    (imm : Bool) :
    ∃ caps, redqueenRe.search (logLine addr gap type bits lhs rhs imm) = some caps ∧
      caps 1 = some addr ∧ caps 2 = some type.name ∧ caps 4 = some lhs ∧ caps 5 = some rhs ∧
      (caps 6).isSome = imm := by
  have hspace : ∀ w rest : List Char, w ≠ [] → (∀ c ∈ w, isSpace c) →
      ∀ c ∈ (w ++ rest).head?, Hex.isDigit c = false :=
    fun w rest hne hw => head_append hne fun c hc => isDigit_of_isSpace (hw c hc)
  have hdigit : ∀ w rest : List Char, w ≠ [] → (∀ c ∈ w, Hex.isDigit c) →
      ∀ c ∈ (w ++ rest).head?, isSpace c = false :=
    fun w rest hne hw => head_append hne fun c hc => isSpace_of_isDigit (hw c hc)
  obtain ⟨caps, htake, hother, himm⟩ := takes_imm imm
    (update (update (update (update (update
      (fun _ => none) 1 (some addr)) 2 (some type.name)) 3 (some bits)) 4 (some lhs)) 5 (some rhs))
  refine ⟨caps, ?_, ?_, ?_, ?_, ?_, ?_⟩
  · rw [← append_nil (logLine _ _ _ _ _ _ _)]
    apply search_of_takes
    apply takes_seq
    · apply takes_group
      apply takes_many h.addr_ne_nil h.isDigit_addr
      rw [append_assoc]
      exact hspace _ _ h.gap_ne_nil h.isSpace_gap
    apply takes_seq
    · apply takes_many h.gap_ne_nil h.isSpace_gap
      cases type <;> exact head_cons rfl
    apply takes_seq
    · exact takes_group 2 (takes_type _ _)
    apply takes_seq
    · apply takes_many (cons_ne_nil _ _) (all_eq_true.1 rfl)
      rw [append_assoc]
      exact hdigit _ _ h.bits_ne_nil fun c hc => isDigit_of_isDecimal (h.isDecimal_bits c hc)
    apply takes_seq
    · apply takes_group
      exact takes_many h.bits_ne_nil h.isDecimal_bits (head_cons rfl)
    apply takes_seq
    · apply takes_many (cons_ne_nil _ _) (all_eq_true.1 rfl)
      rw [append_assoc]
      exact hdigit _ _ h.lhs_ne_nil h.isDigit_lhs
    apply takes_seq
    · apply takes_group
      exact takes_many h.lhs_ne_nil h.isDigit_lhs (head_cons rfl)
    apply takes_seq
    · exact takes_word
    apply takes_seq
    · apply takes_group
      apply takes_many h.rhs_ne_nil h.isDigit_rhs
      cases imm with
      | false => simp
      | true => exact head_cons rfl
    · exact htake
  · rw [hother 1 (by decide)]
    rfl
  · rw [hother 2 (by decide)]
    rfl
  · rw [hother 4 (by decide)]
    rfl
  · rw [hother 5 (by decide)]
    rfl
  · exact himm rfl

theorem RedqueenBPType.new_name (type : RedqueenBPType) :
    RedqueenBPType.new type.name = .ok type := by
  cases type <;> rfl

theorem u64FromHex_eq {a : UInt64} (hne : addr ≠ []) (hread : Hex.read addr = some a.toNat) :
    u64FromHex addr = some a := by
  rw [u64FromHex, if_neg hne, hread, Option.bind_some, if_pos a.toNat_lt, UInt64.ofNat_toNat]

theorem RedqueenEvent.new_logLine {a : UInt64} {l r : List UInt8}
    (h : LogLineParts addr gap bits lhs rhs) (haddr : Hex.read addr = some a.toNat)
    (hlhs : Hex.decode lhs = some l) (hrhs : Hex.decode rhs = some r) :
    RedqueenEvent.new (logLine addr gap type bits lhs rhs imm) = .ok ⟨a, type, l, r, imm⟩ := by
  obtain ⟨caps, hsearch, h1, h2, h4, h5, h6⟩ := search_logLine h type imm
  rw [RedqueenEvent.new, hsearch]
  simp only [h1, h2, h4, h5, h6, RedqueenPanic.ofOption, bind, Except.bind,
    u64FromHex_eq h.addr_ne_nil haddr, RedqueenBPType.new_name, hlhs, hrhs]
  rfl

end LogLine

theorem exists_mem_of_mem_redqueenRe {w : List Char} (hw : w ∈ redqueenRe.lang) :
    ∃ c ∈ w, c = 'M' ∨ c = 'U' ∨ c = 'T' := by
  obtain ⟨a, -, v, ⟨b, -, u, ⟨t, ht, x, -, rfl⟩, rfl⟩, rfl⟩ := hw
  have htype : ∃ c ∈ t, c = 'M' ∨ c = 'U' ∨ c = 'T' := by
    rcases ht with rfl | rfl | rfl
    · exact ⟨'M', by simp, by simp⟩
    · exact ⟨'U', by simp, by simp⟩
    · exact ⟨'T', by simp, by simp⟩
  obtain ⟨c, hc, hletter⟩ := htype
  exact ⟨c, by simp [hc], hletter⟩

theorem RedqueenEvent.new_eq_error {line : List Char} (h : ∀ c ∈ line, c ≠ 'M' ∧ c ≠ 'U' ∧ c ≠ 'T') :
    RedqueenEvent.new line = .error (.couldntParse line) := by
  cases hsearch : redqueenRe.search line with
  | none => rw [RedqueenEvent.new, hsearch]
  | some caps =>
    obtain ⟨a, w, b, rfl, hw⟩ := search_sound hsearch
    obtain ⟨c, hc, hletter⟩ := exists_mem_of_mem_redqueenRe hw
    obtain ⟨hM, hU, hT⟩ := h c (by simp [hc])
    rcases hletter with rfl | rfl | rfl <;> contradiction

theorem lines_append {line : List Char} (h : ∀ c ∈ line, c ≠ '\n' ∧ c ≠ '\r') (rest : List Char) :
    lines (line ++ '\n' :: rest) = line :: lines rest := by
  induction line with
  | nil => simp [lines]
  | cons c line ih =>
    have hc := h c mem_cons_self
    rw [cons_append, lines, ih fun c hc => h c (mem_cons_of_mem _ hc)]
    · intro rest hr
      exact absurd hr hc.2
    · intro hn
      exact absurd hn hc.1

end FuzzSocketCan
