import FuzzSocketCan.Lib.RegexSyntax
import FuzzSocketCan.StructuredFuzzer.Random

/-! # Generating strings of a regular expression

`regex_generator::generate` works with a stack of expressions: it pops one, and appends the bytes
of a literal or a class, or pushes the parts of a larger expression.

* **`emit`** — the same generator as a recursion.
* **`simulates_emit`** — the stack machine simulates it, in finitely many steps for all draws.
* **`generate_sound`** — what comes out is a string of the expression as the choices can come to
  (`Hir.output`). -/

namespace FuzzSocketCan.RegexGenerator

open Lib List

/-! ## Choices -/

structure RegexScript where
  remaining : ℕ
  deriving DecidableEq, Repr

namespace RegexScript

def new (maxLen : ℕ) : Dist RegexScript := do
  let n ← genU64
  if n % 256 = 0 then
    let n ← genU64
    check (maxLen ≠ 0) Panic.divideByZero
    pure ⟨n % 0xffff % maxLen⟩
  else
    let n ← genU64
    let len := 1 <<< (n % 8)
    let n ← genU64
    check (maxLen ≠ 0) Panic.divideByZero
    pure ⟨n % len % maxLen⟩

def getMod (scr : RegexScript) (val : ℕ) : Dist ℕ :=
  if scr.remaining = 0 then pure 0
  else do
    let n ← genU64
    check (val ≠ 0) Panic.divideByZero
    pure (n % val)

def getRange (scr : RegexScript) (min max : ℕ) : Dist ℕ := do
  check (min ≤ max) Panic.subtractWithOverflow
  let n ← scr.getMod (max - min)
  pure (n + min)

def pick {α : Type} (scr : RegexScript) (l : List α) : Dist α := do
  let i ← scr.getMod l.length
  unwrap l[i]? Panic.indexOutOfBounds

end RegexScript

def utf8Le (c : Char) : ℕ := (String.utf8EncodeChar c).foldr (fun b n => b.toNat + 256 * n) 0

def fromU32 (n : ℕ) : Option Char := if h : n.isValidChar then some (Char.ofNatAux n h) else none

def appendUnicodeRange (scr : RegexScript) (cls : ClassUnicodeRange) : Dist (List UInt8) := do
  let c ← scr.getRange (utf8Le cls.start) (utf8Le cls.stop + 1)
  let chr ← unwrap (fromU32 c) Panic.unwrapNone
  pure (String.utf8EncodeChar chr)

def appendByteRange (scr : RegexScript) (cls : ClassBytesRange) : Dist (List UInt8) := do
  let n ← scr.getRange cls.start.toNat (cls.stop.toNat + 1)
  pure [UInt8.ofNat n]

def appendClass (scr : RegexScript) : Lib.Class → Dist (List UInt8)
  | .unicode ranges => do
      let rng ← scr.pick ranges
      appendUnicodeRange scr rng
  | .bytes ranges => do
      let rng ← scr.pick ranges
      appendByteRange scr rng

def getLength (scr : RegexScript) : Dist ℕ := do
  let bits ← scr.getMod 8
  scr.getMod (2 <<< bits)

def getRepetitionRange (rep : RepetitionRange) (scr : RegexScript) : Dist ℕ :=
  match rep with
  | .exactly a => pure a
  | .atLeast a => do
      let n ← getLength scr
      pure (n + a)
  | .bounded a b => scr.getRange a b

def getRepetitions (rep : RepetitionKind) (scr : RegexScript) : Dist ℕ :=
  match rep with
  | .zeroOrOne => scr.getMod 2
  | .zeroOrMore => getLength scr
  | .oneOrMore => do
      let n ← getLength scr
      pure (1 + n)
  | .range rng => getRepetitionRange rng scr

/-! ## The stack machine -/

/-- One round of `generate` for the expression popped from the stack: what it pushes, the topmost
one first, and the bytes it appends. -/
def generateStep (scr : RegexScript) : Hir → Dist (List Hir × List UInt8)
  | .empty => pure ([], [])
  | .literal lit => pure ([], lit.bytes)
  | .cls c => do
      let w ← appendClass scr c
      pure ([], w)
  | .anchor _ => pure ([], [])
  | .wordBoundary _ => pure ([], [])
  | .repetition kind h => do
      let num ← getRepetitions kind scr
      pure (List.replicate num h, [])
  | .group h => pure ([h], [])
  | .concat hs => pure (hs, [])
  | .alternation hs => do
      let h ← scr.pick hs
      pure ([h], [])

/-- At most `fuel` rounds of `generate`; `none` when the stack is not empty then. -/
def generateLoop (scr : RegexScript) : ℕ → List Hir → List UInt8 → Dist (Option (List UInt8))
  | _, [], res => pure (some res)
  | 0, _ :: _, _ => pure none
  | fuel + 1, hir :: stack, res => do
      let (pushed, w) ← generateStep scr hir
      generateLoop scr fuel (pushed ++ stack) (res ++ w)

/-- `generate`, for at most `fuel` rounds. -/
def generate (fuel : ℕ) (hir : Hir) (maxLen : ℕ) : Dist (Option (List UInt8)) := do
  let scr ← RegexScript.new maxLen
  generateLoop scr fuel [hir] []

/-! ## The generator as a recursion -/

/-- The bytes of `n` runs. -/
def emitTimes (m : Dist (List UInt8)) : ℕ → Dist (List UInt8)
  | 0 => pure []
  | n + 1 => do
      let a ← m
      let b ← emitTimes m n
      pure (a ++ b)

mutual

def emit (scr : RegexScript) : Hir → Dist (List UInt8)
  | .empty => pure []
  | .literal lit => pure lit.bytes
  | .cls c => appendClass scr c
  | .anchor _ => pure []
  | .wordBoundary _ => pure []
  | .repetition kind h => do
      let num ← getRepetitions kind scr
      emitTimes (emit scr h) num
  | .group h => emit scr h
  | .concat hs => emitAll scr hs
  | .alternation hs => do
      let i ← scr.getMod hs.length
      emitNth scr hs i

def emitAll (scr : RegexScript) : List Hir → Dist (List UInt8)
  | [] => pure []
  | h :: hs => do
      let a ← emit scr h
      let b ← emitAll scr hs
      pure (a ++ b)

def emitNth (scr : RegexScript) : List Hir → ℕ → Dist (List UInt8)
  | [], _ => throw Panic.indexOutOfBounds
  | h :: _, 0 => emit scr h
  | _ :: hs, i + 1 => emitNth scr hs i

end

def generateRec (hir : Hir) (maxLen : ℕ) : Dist (Option (List UInt8)) := do
  let scr ← RegexScript.new maxLen
  let w ← emit scr hir
  pure (some w)

theorem emitNth_eq (scr : RegexScript) (hs : List Hir) (i : ℕ) :
    emitNth scr hs i = unwrap hs[i]? Panic.indexOutOfBounds >>= emit scr := by
  induction hs generalizing i with
  | nil => rfl
  | cons h hs ih =>
    cases i with
    | zero => rfl
    | succ i => rw [emitNth, ih, getElem?_cons_succ]

theorem emit_alternation (scr : RegexScript) (hs : List Hir) :
    emit scr (.alternation hs) = scr.pick hs >>= emit scr := by
  rw [emit, RegexScript.pick, bind_assoc]
  simp [emitNth_eq]

/-! ## The machine simulates the recursion -/

def Simulates (scr : RegexScript) (hs : List Hir) (m : Dist (List UInt8)) : Prop :=
  ∀ d, ∃ n, ∀ fuel stack res, generateLoop scr (n + fuel) (hs ++ stack) res d =
    (m >>= fun w => generateLoop scr fuel stack (res ++ w)) d

namespace Simulates

variable {scr : RegexScript} {hs hs' : List Hir} {m m' : Dist (List UInt8)} {h : Hir} {α : Type}

theorem nil (scr : RegexScript) : Simulates scr [] (pure []) := by
  intro d
  refine ⟨0, fun fuel stack res => ?_⟩
  rw [zero_add, nil_append, pure_bind, append_nil]

theorem append (hm : Simulates scr hs m) (hm' : Simulates scr hs' m') :
    Simulates scr (hs ++ hs') (do
      let a ← m
      let b ← m'
      pure (a ++ b)) := by
  intro d
  obtain ⟨n, hn⟩ := hm d
  cases hrun : m d with
  | error e d' =>
    refine ⟨n, fun fuel stack res => ?_⟩
    rw [append_assoc, hn, bind_assoc, bind_run, bind_run, hrun]
  | ok a d' =>
    obtain ⟨n', hn'⟩ := hm' d'
    refine ⟨n + n', fun fuel stack res => ?_⟩
    rw [append_assoc, add_assoc, hn, bind_assoc, bind_run_ok hrun, bind_run_ok hrun, hn']
    simp

theorem push {g : Dist α} {parts : α → List Hir} {M : α → Dist (List UInt8)}
    (hstep : generateStep scr h = g >>= fun a => pure (parts a, []))
    (hM : ∀ d a d', g d = .ok a d' → Simulates scr (parts a) (M a)) :
    Simulates scr [h] (g >>= M) := by
  intro d
  cases hrun : g d with
  | error e d' =>
    refine ⟨1, fun fuel stack res => ?_⟩
    rw [add_comm, singleton_append, generateLoop, hstep, bind_assoc, bind_assoc, bind_run,
      bind_run, hrun]
  | ok a d' =>
    obtain ⟨n, hn⟩ := hM d a d' hrun d'
    refine ⟨n + 1, fun fuel stack res => ?_⟩
    rw [show n + 1 + fuel = n + fuel + 1 by omega, singleton_append, generateLoop, hstep,
      bind_assoc, bind_assoc, bind_run_ok hrun, bind_run_ok hrun]
    simp [hn]

theorem parts (hstep : generateStep scr h = pure (hs, [])) (hm : Simulates scr hs m) :
    Simulates scr [h] m := by
  intro d
  obtain ⟨n, hn⟩ := hm d
  refine ⟨n + 1, fun fuel stack res => ?_⟩
  rw [show n + 1 + fuel = n + fuel + 1 by omega, singleton_append, generateLoop, hstep,
    pure_bind]
  simp [hn]

theorem out (hstep : generateStep scr h = m >>= fun w => pure ([], w)) : Simulates scr [h] m := by
  intro d
  refine ⟨1, fun fuel stack res => ?_⟩
  rw [add_comm, singleton_append, generateLoop, hstep, bind_assoc]
  simp

theorem times (hm : Simulates scr [h] m) (n : ℕ) :
    Simulates scr (List.replicate n h) (emitTimes m n) := by
  induction n with
  | zero => exact nil scr
  | succ n ih => exact hm.append ih

theorem all (hall : ∀ h ∈ hs, Simulates scr [h] (emit scr h)) :
    Simulates scr hs (emitAll scr hs) := by
  induction hs with
  | nil => exact nil scr
  | cons h hs ih =>
    exact (hall h (by simp)).append (ih fun k hk => hall k (mem_cons_of_mem _ hk))

end Simulates

theorem RegexScript.ends_pick {α : Type} (scr : RegexScript) (l : List α) (d : Distributions) :
    Ends (scr.pick l) d (fun a _ => a ∈ l) mayPanic := by
  rw [pick, ends_bind]
  refine ends_mayPanic fun i d' _ => ?_
  exact ends_unwrap_mayPanic fun a ha => mem_of_getElem? ha

theorem simulates_emit (scr : RegexScript) (h : Hir) : Simulates scr [h] (emit scr h) := by
  induction h using Hir.induction with
  | empty => exact .out rfl
  | literal lit => exact .out rfl
  | cls c => exact .out rfl
  | anchor a => exact .out rfl
  | wordBoundary b => exact .out rfl
  | repetition kind h ih => exact .push rfl fun _ n _ _ => ih.times n
  | group h ih => exact .parts rfl ih
  | concat hs ih => exact .parts rfl (.all ih)
  | alternation hs ih =>
    rw [emit_alternation]
    exact .push rfl fun d k d' hk => ih k ((scr.ends_pick hs d).of_ok hk)

theorem generate_eq_generateRec (hir : Hir) (maxLen : ℕ) (d : Distributions) :
    ∃ n, ∀ fuel, n ≤ fuel → generate fuel hir maxLen d = generateRec hir maxLen d := by
  simp only [generate, generateRec]
  cases hnew : RegexScript.new maxLen d with
  | error e d' => exact ⟨0, fun fuel _ => by rw [bind_run, bind_run, hnew]⟩
  | ok scr d' =>
    obtain ⟨n, hn⟩ := simulates_emit scr hir d'
    refine ⟨n, fun fuel hfuel => ?_⟩
    obtain ⟨k, rfl⟩ := Nat.exists_eq_add_of_le hfuel
    rw [bind_run_ok hnew, bind_run_ok hnew, ← append_nil [hir], hn]
    simp [generateLoop]

theorem generateLoop_mono {scr : RegexScript} {fuel : ℕ} {stack : List Hir} {res w : List UInt8}
    {d d' : Distributions} (h : generateLoop scr fuel stack res d = .ok (some w) d') (k : ℕ) :
    generateLoop scr (fuel + k) stack res d = .ok (some w) d' := by
  induction fuel generalizing stack res d with
  | zero =>
    cases stack with
    | nil => rwa [generateLoop] at h ⊢
    | cons hir stack =>
      cases h
  | succ fuel ih =>
    cases stack with
    | nil => rwa [generateLoop] at h ⊢
    | cons hir stack =>
      rw [add_right_comm]
      rw [generateLoop] at h ⊢
      rw [bind_run] at h ⊢
      cases hstep : generateStep scr hir d with
      | error e d1 =>
        rw [hstep] at h
        cases h
      | ok p d1 =>
        rw [hstep] at h
        exact ih h

theorem generate_mono {fuel : ℕ} {hir : Hir} {maxLen : ℕ} {w : List UInt8} {d d' : Distributions}
    (h : generate fuel hir maxLen d = .ok (some w) d') (k : ℕ) :
    generate (fuel + k) hir maxLen d = .ok (some w) d' := by
  rw [generate, bind_run] at h ⊢
  cases hnew : RegexScript.new maxLen d with
  | error e d1 =>
    rw [hnew] at h
    cases h
  | ok scr d1 =>
    rw [hnew] at h
    exact generateLoop_mono h k

/-! ## What comes out -/

/-- The characters between the numbers that `append_unicode_range` reads off the UTF-8 bytes of the
ends of a range. -/
def drawnChars (r : ClassUnicodeRange) : Set Char :=
  {c | utf8Le r.start ≤ c.toNat ∧ c.toNat ≤ max (utf8Le r.start) (utf8Le r.stop)}

def drawnClass : Lib.Class → Language UInt8
  | .unicode ranges => {w | ∃ r ∈ ranges, ∃ c ∈ drawnChars r, w = String.utf8EncodeChar c}
  | .bytes ranges => Lib.Class.lang (.bytes ranges)

def drawnCounts : RepetitionKind → Set ℕ
  | .zeroOrOne => {n | n ≤ 1}
  | .zeroOrMore => {n | n ≤ 255}
  | .oneOrMore => {n | 1 ≤ n ∧ n ≤ 256}
  | .range (.exactly a) => {a}
  | .range (.atLeast a) => {n | a ≤ n ∧ n ≤ a + 255}
  | .range (.bounded a b) => {n | a ≤ b ∧ a ≤ n ∧ n ≤ max a (b - 1)}

def output (h : Hir) : Language UInt8 := h.langWith drawnClass drawnCounts

def RangeDecodes (r : ClassUnicodeRange) : Prop :=
  utf8Le r.start ≤ utf8Le r.stop ∧
    ∀ n, utf8Le r.start ≤ n → n ≤ utf8Le r.stop → n.isValidChar

def Harmless : Hir → Prop
  | .cls (.unicode ranges) => ranges ≠ [] ∧ ∀ r ∈ ranges, RangeDecodes r
  | .cls (.bytes ranges) => ranges ≠ []
  | .repetition (.range (.bounded _ _)) _ => False
  | .alternation hs => hs ≠ []
  | _ => True

section Output

variable {E : Panic → Distributions → Prop} {scr : RegexScript} {d : Distributions} {α : Type}

theorem RegexScript.ends_getMod {val : ℕ} (h : 0 < val ∨ ∀ e d, E e d) :
    Ends (scr.getMod val) d (fun n _ => n ≤ val - 1) E := by
  refine ends_ite (fun _ => Nat.zero_le _) fun _ => ?_
  rw [ends_bind]
  refine ends_genU64 fun n d' => ?_
  rw [ends_bind]
  refine ends_check (fun hval => ?_) fun hval => ?_
  · have := Nat.mod_lt n (Nat.pos_of_ne_zero hval)
    exact Nat.le_sub_one_of_lt this
  · exact (h.resolve_left (by omega)) _ _

theorem RegexScript.ends_getRange {lo hi : ℕ} (h : lo < hi ∨ ∀ e d, E e d) :
    Ends (scr.getRange lo hi) d (fun n _ => lo ≤ hi ∧ lo ≤ n ∧ n ≤ max lo (hi - 1)) E := by
  rw [getRange, ends_bind]
  refine ends_check (fun hle => ?_) fun hle => (h.resolve_left (by omega)) _ _
  refine (ends_getMod (h.imp_left fun hlt => by omega)).bind fun n d' hn => ?_
  refine ⟨hle, Nat.le_add_left _ _, ?_⟩
  omega

theorem RegexScript.ends_pick_of {l : List α} (h : l ≠ [] ∨ ∀ e d, E e d) :
    Ends (scr.pick l) d (fun a _ => a ∈ l) E := by
  rw [pick]
  refine (ends_getMod (h.imp_left length_pos_iff.2)).bind fun i d' hi => ?_
  cases hget : l[i]? with
  | some a =>
    exact mem_of_getElem? hget
  | none =>
    have hlen := getElem?_eq_none_iff.1 hget
    refine (h.resolve_left fun hne => ?_) _ _
    have := length_pos_iff.2 hne
    omega

theorem toNat_of_fromU32 {n : ℕ} {c : Char} (h : fromU32 n = some c) : c.toNat = n := by
  by_cases hn : n.isValidChar
  · rw [fromU32, dif_pos hn] at h
    rw [← Option.some.inj h]
    rfl
  · rw [fromU32, dif_neg hn] at h
    cases h

theorem ends_appendUnicodeRange {r : ClassUnicodeRange} (h : RangeDecodes r ∨ ∀ e d, E e d) :
    Ends (appendUnicodeRange scr r) d
      (fun w _ => ∃ c ∈ drawnChars r, w = String.utf8EncodeChar c) E := by
  rw [appendUnicodeRange]
  refine (RegexScript.ends_getRange (h.imp_left fun hr => Nat.lt_succ_of_le hr.1)).bind ?_
  rintro n d' ⟨-, hmin, hmax⟩
  rw [ends_bind]
  cases hchr : fromU32 n with
  | some c =>
    refine ⟨c, ?_, rfl⟩
    rw [← toNat_of_fromU32 hchr] at hmin hmax
    exact ⟨hmin, hmax⟩
  | none =>
    refine (h.resolve_left fun hr => ?_) _ _
    have hvalid : n.isValidChar := hr.2 n hmin (hmax.trans (Nat.max_le.2 ⟨hr.1, le_refl _⟩))
    rw [fromU32, dif_pos hvalid] at hchr
    cases hchr

theorem ends_appendByteRange {r : ClassBytesRange} :
    Ends (appendByteRange scr r) d
      (fun w _ => ∃ b : UInt8, r.start ≤ b ∧ b ≤ r.stop ∧ w = [b]) E := by
  rw [appendByteRange]
  refine (RegexScript.ends_getRange (Or.inl (Nat.lt_succ_of_le r.le))).bind ?_
  rintro n d' ⟨-, hmin, hmax⟩
  have hstop : n ≤ r.stop.toNat := hmax.trans (Nat.max_le.2 ⟨r.le, le_refl _⟩)
  have hn : (UInt8.ofNat n).toNat = n := by
    have := r.stop.toNat_lt
    rw [UInt8.toNat_ofNat', Nat.mod_eq_of_lt (by omega)]
  refine ⟨UInt8.ofNat n, ?_, ?_, rfl⟩
  · rwa [UInt8.le_iff_toNat_le, hn]
  · rwa [UInt8.le_iff_toNat_le, hn]

theorem ends_appendClass {c : Lib.Class} (h : Harmless (.cls c) ∨ ∀ e d, E e d) :
    Ends (appendClass scr c) d (fun w _ => w ∈ drawnClass c) E := by
  cases c with
  | unicode ranges =>
    rw [appendClass]
    refine (RegexScript.ends_pick_of (h.imp_left fun hr => hr.1)).bind fun r d' hr => ?_
    refine (ends_appendUnicodeRange (h.imp_left fun hc => hc.2 r hr)).weaken ?_
    rintro w d'' ⟨c, hc, rfl⟩
    exact ⟨r, hr, c, hc, rfl⟩
  | bytes ranges =>
    rw [appendClass]
    refine (RegexScript.ends_pick_of h).bind fun r d' hr => ?_
    refine ends_appendByteRange.weaken ?_
    rintro w d'' ⟨b, hstart, hstop, rfl⟩
    exact ⟨r, hr, b, hstart, hstop, rfl⟩

theorem ends_getLength : Ends (getLength scr) d (fun n _ => n ≤ 255) E := by
  rw [getLength]
  refine (RegexScript.ends_getMod (Or.inl (by decide))).bind fun bits d' hbits => ?_
  have hpow : 2 <<< bits ≤ 256 := by
    rw [Nat.shiftLeft_eq]
    calc 2 * 2 ^ bits ≤ 2 * 2 ^ 7 := Nat.mul_le_mul_left _ (Nat.pow_le_pow_right (by decide) hbits)
      _ = 256 := rfl
  have hpos : 0 < 2 <<< bits := by
    rw [Nat.shiftLeft_eq]
    exact Nat.mul_pos (by decide) (Nat.two_pow_pos bits)
  refine (RegexScript.ends_getMod (Or.inl hpos)).weaken fun n d'' hn => ?_
  omega

theorem ends_getRepetitions {kind : RepetitionKind} {h : Hir}
    (hk : Harmless (.repetition kind h) ∨ ∀ e d, E e d) :
    Ends (getRepetitions kind scr) d (fun n _ => n ∈ drawnCounts kind) E := by
  cases kind with
  | zeroOrOne => exact RegexScript.ends_getMod (Or.inl (by decide))
  | zeroOrMore => exact ends_getLength
  | oneOrMore =>
    rw [getRepetitions]
    refine ends_getLength.bind fun n d' hn => ?_
    show 1 ≤ 1 + n ∧ 1 + n ≤ 256
    omega
  | range rng =>
    cases rng with
    | exactly a => exact rfl
    | atLeast a =>
      rw [getRepetitions, getRepetitionRange]
      refine ends_getLength.bind fun n d' hn => ?_
      show a ≤ n + a ∧ n + a ≤ a + 255
      omega
    | bounded a b => exact RegexScript.ends_getRange (Or.inr (hk.resolve_left id))

theorem ends_emitTimes {m : Dist (List UInt8)} {L : Language UInt8}
    (hm : ∀ d, Ends m d (fun w _ => w ∈ L) E) (n : ℕ) :
    Ends (emitTimes m n) d (fun w _ => w ∈ L ^ n) E := by
  induction n generalizing d with
  | zero => exact Language.nil_mem_one
  | succ n ih =>
    rw [emitTimes]
    refine (hm d).bind fun a d' ha => ?_
    refine ih.bind fun b d'' hb => ?_
    rw [ends_pure, pow_succ']
    exact Language.append_mem_mul ha hb

theorem ends_emitAll {hs : List Hir}
    (hall : ∀ h ∈ hs, ∀ d, Ends (emit scr h) d (fun w _ => w ∈ output h) E) :
    Ends (emitAll scr hs) d (fun w _ => w ∈ Hir.concatWith drawnClass drawnCounts hs) E := by
  induction hs generalizing d with
  | nil => exact Language.nil_mem_one
  | cons h hs ih =>
    rw [emitAll, ends_bind, Hir.concatWith]
    refine (hall h (by simp) d).weaken fun a d' ha => ?_
    refine (ih fun k hk => hall k (mem_cons_of_mem _ hk)).bind fun b d'' hb => ?_
    exact Language.append_mem_mul ha hb

theorem ends_emit {h : Hir} (hE : (∀ k ∈ h.visited, Harmless k) ∨ ∀ e d, E e d) :
    Ends (emit scr h) d (fun w _ => w ∈ output h) E := by
  induction h using Hir.induction generalizing d with
  | empty => exact Language.nil_mem_one
  | literal lit => exact Set.mem_singleton _
  | cls c =>
    exact ends_appendClass (hE.imp_left fun hv => hv _ (Hir.self_mem_visited _))
  | anchor a => exact Language.nil_mem_one
  | wordBoundary b => exact Language.nil_mem_one
  | repetition kind h ih =>
    rw [emit, ends_bind, output, Hir.langWith]
    have hkind := hE.imp_left fun hv => hv _ (Hir.self_mem_visited _)
    refine (ends_getRepetitions hkind).weaken fun n d' hn => ?_
    have hn' : Ends (emitTimes (emit scr h) n) d' (fun w _ => w ∈ output h ^ n) E := by
      by_cases hzero : kind = .range (.exactly 0)
      · -- nothing is pushed, whatever the expression below is
        subst hzero
        obtain rfl : n = 0 := hn
        exact Language.nil_mem_one
      · refine ends_emitTimes (fun d => ih (hE.imp_left fun hv k hk => hv k ?_)) n
        exact Hir.visited_repetition hzero h hk
    exact hn'.weaken fun w _ hw => ⟨n, hn, hw⟩
  | group h ih =>
    exact ih (hE.imp_left fun hv k hk => hv k (Hir.visited_group h hk))
  | concat hs ih =>
    have hall : ∀ h ∈ hs, ∀ d, Ends (emit scr h) d (fun w _ => w ∈ output h) E := by
      intro h hh d
      exact ih h hh (hE.imp_left fun hv k hk => hv k (Hir.visited_concat hh hk))
    exact ends_emitAll hall
  | alternation hs ih =>
    rw [emit_alternation, ends_bind, output, Hir.langWith]
    have hne := hE.imp_left fun hv => hv _ (Hir.self_mem_visited _)
    refine (RegexScript.ends_pick_of hne).weaken fun h d' hh => ?_
    have hpart : (∀ k ∈ h.visited, Harmless k) ∨ ∀ e d, E e d :=
      hE.imp_left fun hv k hk => hv k (Hir.visited_alternation hh hk)
    exact (ih h hh hpart).weaken fun w _ hw => Hir.mem_alternationWith.2 ⟨h, hh, hw⟩

end Output

/-! ## Soundness and termination -/

def ByteClasses (h : Hir) : Prop := ∀ ranges, .cls (.unicode ranges) ∉ h.subterms

theorem drawnCounts_subset (kind : RepetitionKind) : drawnCounts kind ⊆ kind.counts := by
  intro n hn
  cases kind with
  | zeroOrOne => exact hn
  | zeroOrMore => trivial
  | oneOrMore => exact hn.1
  | range rng =>
    cases rng with
    | exactly a => exact hn
    | atLeast a => exact hn.1
    | bounded a b =>
      obtain ⟨hab, han, hnb⟩ := hn
      exact ⟨han, by omega⟩

theorem output_le_lang {h : Hir} (hbytes : ByteClasses h) : output h ≤ h.lang := by
  refine Hir.langWith_mono (fun c hc => ?_) drawnCounts_subset
  cases c with
  | unicode ranges => exact absurd hc (hbytes ranges)
  | bytes ranges => exact le_refl _

/-- **The regular expression generator is sound and ends**, for all draws. -/
theorem generate_sound (hir : Hir) (maxLen : ℕ) (d : Distributions) :
    (∃ n, ∀ fuel, n ≤ fuel → generate fuel hir maxLen d = generate n hir maxLen d ∧
      resultOf (generate fuel hir maxLen d) ≠ some none) ∧
    (ByteClasses hir → ∀ fuel w d', generate fuel hir maxLen d = .ok (some w) d' →
      w ∈ hir.lang) := by
  obtain ⟨n, hn⟩ := generate_eq_generateRec hir maxLen d
  have hends : Ends (generateRec hir maxLen) d (fun r _ => ∃ w ∈ output hir, r = some w)
      mayPanic := by
    rw [generateRec, ends_bind]
    refine ends_mayPanic fun scr d₁ _ => ?_
    exact (ends_emit (Or.inr fun _ _ => trivial)).bind fun w _ hw => ⟨w, hw, rfl⟩
  refine ⟨⟨n, fun fuel hfuel => ⟨(hn fuel hfuel).trans (hn n (le_refl n)).symm, ?_⟩⟩, ?_⟩
  · intro hnone
    rw [hn fuel hfuel] at hnone
    obtain ⟨w, -, hw⟩ := hends.of_ok (eq_ok_of_resultOf hnone)
    cases hw
  · intro hbytes fuel w d' hw
    have hlong := generate_mono hw n
    rw [hn (fuel + n) (Nat.le_add_left n fuel)] at hlong
    obtain ⟨w', hw', heq⟩ := hends.of_ok hlong
    obtain rfl := Option.some.inj heq
    exact output_le_lang hbytes hw'

/-- The expression `a[b-d]*`. -/
def letters : Hir :=
  .concat [.literal (.byte 97), .repetition .zeroOrMore (.cls (.bytes [⟨98, 100, by decide⟩]))]

theorem generate_sound_letters :
    resultOf (generate 5 letters 10 (.ofList [1, 7, 3, 0, 1, 0, 2])) = some (some [97, 100]) ∧
      [97, 100] ∈ letters.lang := by
  have hrun : resultOf (generate 5 letters 10 (.ofList [1, 7, 3, 0, 1, 0, 2])) =
      some (some [97, 100]) := by decide +kernel
  have hbytes : ByteClasses letters := by
    intro ranges
    simp [letters, Hir.subterms, Hir.subtermsAll]
  exact ⟨hrun, (generate_sound letters 10 _).2 hbytes 5 _ _ (eq_ok_of_resultOf hrun)⟩

end FuzzSocketCan.RegexGenerator
