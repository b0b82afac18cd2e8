import FuzzSocketCan.StructuredFuzzer.RegexGenerator
import FuzzSocketCan.StructuredFuzzer.Spec

/-! # When the regular expression generator is total

The draws that lead to a given string of `output` can be written down (`exists_reads_emit`), and
so can draws that lead to a round which panics (`exists_fails_emit`).

* **`generatesAll_iff`** — `generate` returns matching strings for all draws and draws every count
  exactly when no round that is reached can panic and what comes out matches.
* **`returns_regex`** — an expression none of whose rounds panics is a generator of vectors that
  returns. -/

namespace FuzzSocketCan.RegexGenerator

open Lib List RegexScript Hir

def FitsMemory (h : Hir) : Prop :=
  (∀ ranges, .cls (.unicode ranges) ∈ h.subterms → ranges.length < 2 ^ 64) ∧
    (∀ ranges, .cls (.bytes ranges) ∈ h.subterms → ranges.length < 2 ^ 64) ∧
      ∀ hs, .alternation hs ∈ h.subterms → hs.length < 2 ^ 64

variable {h : Hir}

theorem FitsMemory.of_subset {k : Hir} (hfits : FitsMemory h) (hsub : k.subterms ⊆ h.subterms) :
    FitsMemory k :=
  ⟨fun r hr => hfits.1 r (hsub hr), fun r hr => hfits.2.1 r (hsub hr),
    fun r hr => hfits.2.2 r (hsub hr)⟩

variable {n : ℕ} {w : List UInt8}

section Draws

variable {scr : RegexScript} {α : Type}

/-! ## Every choice can be drawn -/

theorem reads_getMod (hlive : scr.remaining ≠ 0) {val k : ℕ} (hk : k < val) (hk64 : k < 2 ^ 64) :
    Reads (scr.getMod val) [k] k := by
  rw [getMod, if_neg hlive]
  refine (reads_genU64 hk64).bind_nil ((reads_check (by omega)).bind_nil ?_)
  rw [Nat.mod_eq_of_lt hk]
  exact Reads.pure k

theorem fails_getMod_zero (hlive : scr.remaining ≠ 0) : Fails (scr.getMod 0) [0] := by
  rw [getMod, if_neg hlive]
  exact (reads_genU64 (by decide)).bind_fails (fails_check (by decide)).bind

theorem reads_getRange (hlive : scr.remaining ≠ 0) {lo hi : ℕ} (hlo : lo ≤ n) (hhi : n < hi)
    (h64 : n < 2 ^ 64) : Reads (scr.getRange lo hi) [n - lo] n := by
  have hmod : Reads (scr.getMod (hi - lo)) [n - lo] (n - lo) :=
    reads_getMod hlive (by omega) (by omega)
  refine (reads_check (by omega)).bind (hmod.bind_nil ?_)
  rw [Nat.sub_add_cancel hlo]
  exact Reads.pure n

theorem fails_getRange (hlive : scr.remaining ≠ 0) {lo hi : ℕ} (h : hi ≤ lo) :
    ∃ ds, Fails (scr.getRange lo hi) ds := by
  rcases lt_or_eq_of_le h with hlt | rfl
  · exact ⟨[], (fails_check (by omega)).bind⟩
  · refine ⟨[] ++ [0], (reads_check (le_refl _)).bind_fails ?_⟩
    rw [Nat.sub_self]
    exact (fails_getMod_zero hlive).bind

theorem reads_pick (hlive : scr.remaining ≠ 0) {l : List α} (hl : l.length < 2 ^ 64) {a : α}
    (ha : a ∈ l) : ∃ i, Reads (scr.pick l) [i] a := by
  obtain ⟨i, hi, rfl⟩ := mem_iff_getElem.1 ha
  refine ⟨i, (reads_getMod hlive hi (by omega)).bind_nil ?_⟩
  rw [getElem?_eq_getElem hi]
  exact Reads.pure _

theorem fails_pick_nil (hlive : scr.remaining ≠ 0) : Fails (scr.pick ([] : List α)) [0] :=
  (fails_getMod_zero hlive).bind

theorem reads_getLength (hlive : scr.remaining ≠ 0) (hn : n ≤ 255) :
    Reads (getLength scr) [7, n] n := by
  refine (reads_getMod hlive (k := 7) (by decide) (by decide)).bind ?_
  exact reads_getMod hlive (by omega) (by omega)

variable {kind : RepetitionKind}

theorem reads_getRepetitions (hlive : scr.remaining ≠ 0) (hk : Harmless (.repetition kind h))
    (hn : n ∈ drawnCounts kind) : ∃ ds, Reads (getRepetitions kind scr) ds n := by
  cases kind with
  | zeroOrOne =>
    have hle : n ≤ 1 := hn
    exact ⟨[n], reads_getMod hlive (by omega) (by omega)⟩
  | zeroOrMore => exact ⟨[7, n], reads_getLength hlive hn⟩
  | oneOrMore =>
    obtain ⟨hlo, hhi⟩ := hn
    refine ⟨[7, n - 1], (reads_getLength hlive (by omega)).bind_nil ?_⟩
    rw [Nat.add_sub_cancel' hlo]
    exact Reads.pure n
  | range rng =>
    cases rng with
    | exactly a =>
      obtain rfl : n = a := hn
      exact ⟨[], Reads.pure n⟩
    | atLeast a =>
      obtain ⟨hlo, hhi⟩ := hn
      refine ⟨[7, n - a], (reads_getLength hlive (by omega)).bind_nil ?_⟩
      rw [Nat.sub_add_cancel hlo]
      exact Reads.pure n
    | bounded a b => exact hk.elim

theorem fromU32_toNat (c : Char) : fromU32 c.toNat = some c := by
  have hvalid : c.toNat.isValidChar := c.valid
  rw [fromU32, dif_pos hvalid]
  rfl

variable {r : ClassUnicodeRange}

theorem reads_appendUnicodeRange (hlive : scr.remaining ≠ 0) (hr : RangeDecodes r) {c : Char}
    (hc : c ∈ drawnChars r) :
    ∃ ds, Reads (appendUnicodeRange scr r) ds (String.utf8EncodeChar c) := by
  obtain ⟨hlo, hhi⟩ := hc
  rw [max_eq_right hr.1] at hhi
  have h64 : c.toNat < 2 ^ 64 := by
    have := c.val.toNat_lt
    exact lt_trans this (by decide)
  refine ⟨[c.toNat - utf8Le r.start], (reads_getRange hlive hlo (Nat.lt_succ_of_le hhi) h64).bind_nil ?_⟩
  rw [fromU32_toNat]
  exact Reads.pure _

theorem reads_appendByteRange (hlive : scr.remaining ≠ 0) {r : ClassBytesRange} {b : UInt8}
    (hstart : r.start ≤ b) (hstop : b ≤ r.stop) : ∃ ds, Reads (appendByteRange scr r) ds [b] := by
  have h64 : b.toNat < 2 ^ 64 := lt_trans b.toNat_lt (by decide)
  refine ⟨[b.toNat - r.start.toNat],
    (reads_getRange hlive (UInt8.le_iff_toNat_le.1 hstart)
      (Nat.lt_succ_of_le (UInt8.le_iff_toNat_le.1 hstop)) h64).bind_nil ?_⟩
  rw [UInt8.ofNat_toNat]
  exact Reads.pure _

theorem reads_appendClass (hlive : scr.remaining ≠ 0) {c : Lib.Class} (hfits : FitsMemory (.cls c))
    (hc : Harmless (.cls c)) (hw : w ∈ drawnClass c) : ∃ ds, Reads (appendClass scr c) ds w := by
  cases c with
  | unicode ranges =>
    obtain ⟨r, hr, chr, hchr, rfl⟩ := hw
    obtain ⟨i, hi⟩ := reads_pick hlive (hfits.1 ranges (self_mem_subterms _)) hr
    obtain ⟨ds, hds⟩ := reads_appendUnicodeRange hlive (hc.2 r hr) hchr
    exact ⟨_, hi.bind hds⟩
  | bytes ranges =>
    obtain ⟨r, hr, b, hstart, hstop, rfl⟩ := hw
    obtain ⟨i, hi⟩ := reads_pick hlive (hfits.2.1 ranges (self_mem_subterms _)) hr
    obtain ⟨ds, hds⟩ := reads_appendByteRange hlive hstart hstop
    exact ⟨_, hi.bind hds⟩

theorem reads_emitTimes {m : Dist (List UInt8)} {L : Language UInt8}
    (hm : ∀ w ∈ L, ∃ ds, Reads m ds w) (hw : w ∈ L ^ n) : ∃ ds, Reads (emitTimes m n) ds w := by
  induction n generalizing w with
  | zero =>
    obtain rfl : w = [] := hw
    exact ⟨[], Reads.pure _⟩
  | succ n ih =>
    rw [pow_succ', Language.mem_mul] at hw
    obtain ⟨a, ha, b, hb, rfl⟩ := hw
    obtain ⟨ds, hds⟩ := hm a ha
    obtain ⟨ds', hds'⟩ := ih hb
    exact ⟨_, hds.bind (hds'.bind_nil (Reads.pure _))⟩

theorem reads_emitAll {hs : List Hir}
    (hall : ∀ h ∈ hs, ∀ w ∈ output h, ∃ ds, Reads (emit scr h) ds w)
    (hw : w ∈ Hir.concatWith drawnClass drawnCounts hs) : ∃ ds, Reads (emitAll scr hs) ds w := by
  induction hs generalizing w with
  | nil =>
    obtain rfl : w = [] := hw
    exact ⟨[], Reads.pure _⟩
  | cons h hs ih =>
    obtain ⟨a, ha, b, hb, rfl⟩ := hw
    obtain ⟨ds, hds⟩ := hall h (by simp) a ha
    obtain ⟨ds', hds'⟩ := ih (fun k hk => hall k (mem_cons_of_mem _ hk)) hb
    exact ⟨_, hds.bind (hds'.bind_nil (Reads.pure _))⟩

theorem exists_reads_emit (hlive : scr.remaining ≠ 0) (hfits : FitsMemory h)
    (hsafe : ∀ k ∈ h.visited, Harmless k) (hw : w ∈ output h) : ∃ ds, Reads (emit scr h) ds w := by
  induction h using induction generalizing w with
  | empty | anchor _ | wordBoundary _ =>
    obtain rfl : w = [] := hw
    exact ⟨[], Reads.pure _⟩
  | literal lit =>
    obtain rfl : w = lit.bytes := hw
    exact ⟨[], Reads.pure _⟩
  | cls c =>
    exact reads_appendClass hlive hfits (hsafe _ (self_mem_visited _)) hw
  | repetition kind h ih =>
    obtain ⟨n, hn, hw⟩ := hw
    obtain ⟨ds, hds⟩ := reads_getRepetitions hlive (hsafe _ (self_mem_visited _)) hn
    have htimes : ∃ ds', Reads (emitTimes (emit scr h) n) ds' w := by
      by_cases hzero : kind = .range (.exactly 0)
      · subst hzero
        obtain rfl : n = 0 := hn
        obtain rfl : w = [] := hw
        exact ⟨[], Reads.pure _⟩
      · refine reads_emitTimes (fun v hv => ih ?_ ?_ hv) hw
        · exact hfits.of_subset (subterms_repetition kind h)
        · exact fun k hk => hsafe k (visited_repetition hzero h hk)
    obtain ⟨ds', hds'⟩ := htimes
    exact ⟨_, hds.bind hds'⟩
  | group h ih =>
    refine ih ?_ ?_ hw
    · exact hfits.of_subset (subterms_group h)
    · exact fun k hk => hsafe k (visited_group h hk)
  | concat hs ih =>
    refine reads_emitAll (fun h hh v hv => ih h hh ?_ ?_ hv) hw
    · exact hfits.of_subset (subterms_concat hh)
    · exact fun k hk => hsafe k (visited_concat hh hk)
  | alternation hs ih =>
    obtain ⟨h, hh, hw⟩ := mem_alternationWith.1 hw
    obtain ⟨i, hi⟩ := reads_pick hlive (hfits.2.2 hs (self_mem_subterms _)) hh
    have hpart : ∃ ds, Reads (emit scr h) ds w := by
      refine ih h hh ?_ ?_ hw
      · exact hfits.of_subset (subterms_alternation hh)
      · exact fun k hk => hsafe k (visited_alternation hh hk)
    obtain ⟨ds, hds⟩ := hpart
    rw [emit_alternation]
    exact ⟨_, hi.bind hds⟩

/-! ## Draws that lead to a panic -/

theorem foldr_bytes_lt (l : List UInt8) :
    l.foldr (fun b n => b.toNat + 256 * n) 0 < 256 ^ l.length := by
  induction l with
  | nil => exact one_pos
  | cons b l ih =>
    have := b.toNat_lt
    rw [foldr_cons, length_cons, pow_succ]
    omega

theorem utf8Le_lt (c : Char) : utf8Le c < 2 ^ 64 := by
  have hlen : (String.utf8EncodeChar c).length ≤ 4 := by
    rw [String.length_utf8EncodeChar]
    exact c.utf8Size_le_four
  calc utf8Le c < 256 ^ (String.utf8EncodeChar c).length := foldr_bytes_lt _
    _ ≤ 256 ^ 4 := Nat.pow_le_pow_right (by decide) hlen
    _ < 2 ^ 64 := by decide

theorem fails_appendUnicodeRange (hlive : scr.remaining ≠ 0) (hr : ¬RangeDecodes r) :
    ∃ ds, Fails (appendUnicodeRange scr r) ds := by
  by_cases hle : utf8Le r.start ≤ utf8Le r.stop
  · -- some number between the ends is not a character, and it is drawn
    have hbad : ∃ n, utf8Le r.start ≤ n ∧ n ≤ utf8Le r.stop ∧ ¬n.isValidChar := by
      by_contra hall
      push Not at hall
      exact hr ⟨hle, hall⟩
    obtain ⟨n, hlo, hhi, hn⟩ := hbad
    have hread := reads_getRange hlive hlo (Nat.lt_succ_of_le hhi)
      (lt_of_le_of_lt hhi (utf8Le_lt r.stop))
    refine ⟨_ ++ [], hread.bind_fails (Fails.bind ?_)⟩
    rw [fromU32, dif_neg hn]
    exact Fails.throw _
  · obtain ⟨ds, hds⟩ := fails_getRange hlive (show utf8Le r.stop + 1 ≤ utf8Le r.start by omega)
    exact ⟨ds, hds.bind⟩

theorem fails_appendClass (hlive : scr.remaining ≠ 0) {c : Lib.Class} (hfits : FitsMemory (.cls c))
    (hc : ¬Harmless (.cls c)) : ∃ ds, Fails (appendClass scr c) ds := by
  cases c with
  | bytes ranges =>
    obtain rfl : ranges = [] := not_not.1 hc
    exact ⟨_, (fails_pick_nil hlive).bind⟩
  | unicode ranges =>
    by_cases hne : ranges = []
    · subst hne
      exact ⟨_, (fails_pick_nil hlive).bind⟩
    · have hbad : ∃ r ∈ ranges, ¬RangeDecodes r := by
        by_contra hall
        push Not at hall
        exact hc ⟨hne, hall⟩
      obtain ⟨r, hr, hbad⟩ := hbad
      obtain ⟨i, hi⟩ := reads_pick hlive (hfits.1 ranges (self_mem_subterms _)) hr
      obtain ⟨ds, hds⟩ := fails_appendUnicodeRange hlive hbad
      exact ⟨_, hi.bind_fails hds⟩

theorem exists_reads_count (hlive : scr.remaining ≠ 0) (hk : Harmless (.repetition kind h))
    (hkind : kind ≠ .range (.exactly 0)) : ∃ n ds, Reads (getRepetitions kind scr) ds (n + 1) := by
  have hcount : ∃ n, n + 1 ∈ drawnCounts kind := by
    cases kind with
    | zeroOrOne => exact ⟨0, show 0 + 1 ≤ 1 by omega⟩
    | zeroOrMore => exact ⟨0, show 0 + 1 ≤ 255 by omega⟩
    | oneOrMore => exact ⟨0, show 1 ≤ 0 + 1 ∧ 0 + 1 ≤ 256 by omega⟩
    | range rng =>
      cases rng with
      | exactly a =>
        obtain ⟨n, rfl⟩ := Nat.exists_eq_succ_of_ne_zero fun ha : a = 0 => hkind (by rw [ha])
        exact ⟨n, rfl⟩
      | atLeast a => exact ⟨a, show a ≤ a + 1 ∧ a + 1 ≤ a + 255 by omega⟩
      | bounded a b => exact hk.elim
  obtain ⟨n, hn⟩ := hcount
  obtain ⟨ds, hds⟩ := reads_getRepetitions hlive hk hn
  exact ⟨n, ds, hds⟩

theorem fails_emitAll {hs : List Hir}
    (hall : ∀ h ∈ hs, (∃ ds w, Reads (emit scr h) ds w) ∨ ∃ ds, Fails (emit scr h) ds) (hh : h ∈ hs)
    (hfails : ∃ ds, Fails (emit scr h) ds) : ∃ ds, Fails (emitAll scr hs) ds := by
  induction hs with
  | nil => cases hh
  | cons k hs ih =>
    by_cases hk : ∃ ds, Fails (emit scr k) ds
    · obtain ⟨ds, hds⟩ := hk
      exact ⟨ds, hds.bind⟩
    · obtain ⟨ds, w, hds⟩ := (hall k (by simp)).resolve_right hk
      have hmem : h ∈ hs := by
        rcases mem_cons.1 hh with rfl | hmem
        · exact absurd hfails hk
        · exact hmem
      obtain ⟨ds', hds'⟩ := ih (fun j hj => hall j (mem_cons_of_mem _ hj)) hmem
      exact ⟨_, hds.bind_fails hds'.bind⟩

theorem exists_reads_of_safe (hlive : scr.remaining ≠ 0) (hfits : FitsMemory h)
    (hsafe : ∀ k ∈ h.visited, Harmless k) : ∃ ds w, Reads (emit scr h) ds w := by
  have hends : Ends (emit scr h) (.ofList []) (fun w _ => w ∈ output h) never :=
    ends_emit (Or.inl hsafe)
  obtain ⟨w, -, -, hw⟩ := hends.result
  obtain ⟨ds, hds⟩ := exists_reads_emit hlive hfits hsafe hw
  exact ⟨ds, w, hds⟩

theorem exists_fails_emit (hlive : scr.remaining ≠ 0) (hfits : FitsMemory h)
    (hbounded : ∀ a b k, .repetition (.range (.bounded a b)) k ∈ h.subterms → b ≤ a)
    (hbad : ∃ k ∈ h.visited, ¬Harmless k) : ∃ ds, Fails (emit scr h) ds := by
  obtain ⟨k, hk, hbad⟩ := hbad
  induction h using induction generalizing k with
  | empty | literal _ | anchor _ | wordBoundary _ =>
    obtain rfl := mem_singleton.1 hk
    exact absurd trivial hbad
  | cls c =>
    obtain rfl := mem_singleton.1 hk
    exact fails_appendClass hlive hfits hbad
  | repetition kind h ih =>
    by_cases hself : Harmless (.repetition kind h)
    · rcases mem_cons.1 hk with rfl | hk
      · exact absurd hself hbad
      · by_cases hzero : kind = .range (.exactly 0)
        · rw [if_pos hzero] at hk
          cases hk
        · rw [if_neg hzero] at hk
          obtain ⟨n, ds, hds⟩ := exists_reads_count hlive hself hzero
          obtain ⟨ds', hds'⟩ := ih (hfits.of_subset (subterms_repetition kind h))
            (fun a b j hj => hbounded a b j (subterms_repetition kind h hj)) k hk hbad
          exact ⟨_, hds.bind_fails hds'.bind⟩
    · -- only a bounded repetition panics itself
      have hrange : ∃ a b, kind = .range (.bounded a b) := by
        cases kind with
        | zeroOrOne | zeroOrMore | oneOrMore => exact absurd trivial hself
        | range rng =>
          cases rng with
          | exactly a | atLeast a => exact absurd trivial hself
          | bounded a b => exact ⟨a, b, rfl⟩
      obtain ⟨a, b, rfl⟩ := hrange
      obtain ⟨ds, hds⟩ := fails_getRange hlive (hbounded a b h (self_mem_subterms _))
      exact ⟨ds, Fails.bind hds⟩
  | group h ih =>
    rcases mem_cons.1 hk with rfl | hk
    · exact absurd trivial hbad
    · exact ih (hfits.of_subset (subterms_group h))
        (fun a b j hj => hbounded a b j (subterms_group h hj)) k hk hbad
  | concat hs ih =>
    rcases mem_cons.1 hk with rfl | hk
    · exact absurd trivial hbad
    · obtain ⟨h, hh, hk⟩ := mem_visitedAll.1 hk
      have hpart : ∀ j ∈ hs, ∀ k ∈ j.visited, ¬Harmless k → ∃ ds, Fails (emit scr j) ds :=
        fun j hj => ih j hj (hfits.of_subset (subterms_concat hj))
          fun a b i hi => hbounded a b i (subterms_concat hj hi)
      refine fails_emitAll (fun j hj => ?_) hh (hpart h hh k hk hbad)
      by_cases hsafe : ∀ k ∈ j.visited, Harmless k
      · exact Or.inl (exists_reads_of_safe hlive (hfits.of_subset (subterms_concat hj)) hsafe)
      · push Not at hsafe
        obtain ⟨k', hk', hbad'⟩ := hsafe
        exact Or.inr (hpart j hj k' hk' hbad')
  | alternation hs ih =>
    rw [emit_alternation]
    rcases mem_cons.1 hk with rfl | hk
    · obtain rfl : hs = [] := not_not.1 hbad
      exact ⟨_, (fails_pick_nil hlive).bind⟩
    · obtain ⟨h, hh, hk⟩ := mem_visitedAll.1 hk
      obtain ⟨i, hi⟩ := reads_pick hlive (hfits.2.2 hs (self_mem_subterms _)) hh
      obtain ⟨ds, hds⟩ := ih h hh (hfits.of_subset (subterms_alternation hh))
        (fun a b j hj => hbounded a b j (subterms_alternation hh hj)) k hk hbad
      exact ⟨_, hi.bind_fails hds⟩

end Draws

/-! ## Totality -/

theorem reads_new_two : Reads (RegexScript.new 2) [0, 1] ⟨1⟩ := by
  refine (reads_genU64 (n := 0) (by decide)).bind ?_
  refine (reads_genU64 (n := 1) (by decide)).bind_nil ((reads_check (by decide)).bind_nil ?_)
  exact Reads.pure _

/-- **The generator is total and in range**: for all draws it returns a string that matches the
expression, and every count of a bounded repetition can be drawn. -/
structure GeneratesAll (word : Char → Prop) (hir : Hir) : Prop where
  returns : ∀ maxLen, 1 ≤ maxLen → ∀ d, ∃ fuel w d',
    generate fuel hir maxLen d = .ok (some w) d' ∧ hir.Matches word w
  counts : ∀ a b h, .repetition (.range (.bounded a b)) h ∈ hir.subterms →
    ∀ n, a ≤ n → n ≤ b → ∃ maxLen d d', 1 ≤ maxLen ∧
      (RegexScript.new maxLen >>= getRepetitionRange (.bounded a b)) d = .ok n d'

variable {maxLen : ℕ}

theorem getRepetitionRange_bounded_lt {a b : ℕ} (hab : a < b) {d d' : Distributions}
    (h : (RegexScript.new maxLen >>= getRepetitionRange (.bounded a b)) d = .ok n d') : n < b := by
  have hends : Ends (new maxLen >>= getRepetitionRange (.bounded a b)) d
      (fun n _ => n ≤ max a (b - 1)) mayPanic := by
    rw [ends_bind]
    refine ends_mayPanic fun scr d1 _ => ?_
    exact (ends_getRange (Or.inl hab)).weaken fun n _ hn => hn.2.2
  have := hends.of_ok h
  omega

theorem RegexScript.ends_new (h : 1 ≤ maxLen) (d : Distributions) :
    Ends (RegexScript.new maxLen) d (fun scr _ => scr.remaining < maxLen) never := by
  rw [new, ends_bind]
  refine ends_genU64 fun n d1 => ends_ite (fun _ => ?_) fun _ => ?_
  · rw [ends_bind]
    refine ends_genU64 fun n d2 => ?_
    rw [ends_bind, ends_check_of (by omega), ends_pure]
    exact Nat.mod_lt _ h
  · rw [ends_bind]
    refine ends_genU64 fun n d2 => ?_
    rw [ends_bind]
    refine ends_genU64 fun n d3 => ?_
    rw [ends_bind, ends_check_of (by omega), ends_pure]
    exact Nat.mod_lt _ h

theorem ends_getRepetitionRange_self (a : ℕ) (d : Distributions) :
    Ends (RegexScript.new 1 >>= getRepetitionRange (.bounded a a)) d (fun n _ => n = a) never := by
  refine (ends_new (le_refl 1) d).bind fun scr d' hscr => ?_
  rw [getRepetitionRange, getRange, ends_bind, ends_check_of (le_refl a),
    getMod, if_pos (Nat.lt_one_iff.1 hscr), ends_bind, ends_pure, ends_pure]
  exact zero_add a

theorem generateRec_of_generate {fuel : ℕ} {hir : Hir} {d d' : Distributions}
    (h : generate fuel hir maxLen d = .ok (some w) d') :
    generateRec hir maxLen d = .ok (some w) d' := by
  obtain ⟨n, hn⟩ := generate_eq_generateRec hir maxLen d
  rw [← hn (fuel + n) (Nat.le_add_left n fuel)]
  exact generate_mono h n

/-- **When the generator is total.** -/
theorem generatesAll_iff (word : Char → Prop) (hir : Hir) (hfits : FitsMemory hir) :
    GeneratesAll word hir ↔
      (∀ a b h, .repetition (.range (.bounded a b)) h ∈ hir.subterms → b ≤ a) ∧
        (∀ k ∈ hir.visited, Harmless k) ∧
          ((∀ k ∈ hir.visited, k.Faithful drawnClass) ∨ ∀ w ∈ output hir, hir.Matches word w) := by
  have hlive : (⟨1⟩ : RegexScript).remaining ≠ 0 := one_ne_zero
  constructor
  · rintro ⟨hreturns, hcounts⟩
    have hbounded : ∀ a b h, .repetition (.range (.bounded a b)) h ∈ hir.subterms → b ≤ a := by
      intro a b h hmem
      by_contra hlt
      obtain ⟨maxLen, d, d', -, hrun⟩ := hcounts a b h hmem b (by omega) (le_refl b)
      exact absurd (getRepetitionRange_bounded_lt (by omega) hrun) (lt_irrefl b)
    have hsafe : ∀ k ∈ hir.visited, Harmless k := by
      by_contra hbad
      push Not at hbad
      obtain ⟨ds, hds⟩ := exists_fails_emit hlive hfits hbounded hbad
      obtain ⟨fuel, w, d', hrun, -⟩ := hreturns 2 (by decide) (.ofList ([0, 1] ++ ds))
      have hfails : Fails (generateRec hir 2) ([0, 1] ++ ds) :=
        reads_new_two.bind_fails (Fails.bind hds)
      obtain ⟨e, d'', herror⟩ := hfails _ (Distributions.next_ofList _)
      cases (generateRec_of_generate hrun).symm.trans herror
    refine ⟨hbounded, hsafe, Or.inr fun w hw => ?_⟩
    obtain ⟨ds, hds⟩ := exists_reads_emit hlive hfits hsafe hw
    obtain ⟨fuel, w', d', hrun, hmatches⟩ := hreturns 2 (by decide) (.ofList ([0, 1] ++ ds))
    have hread : Reads (generateRec hir 2) ([0, 1] ++ ds) (some w) :=
      reads_new_two.bind (hds.bind_nil (Reads.pure (some w)))
    cases (generateRec_of_generate hrun).symm.trans (hread _ (Distributions.next_ofList _))
    exact hmatches
  · rintro ⟨hbounded, hsafe, hkind⟩
    have hmatches : ∀ w ∈ output hir, hir.Matches word w := by
      rcases hkind with hfaithful | hmatches
      · exact fun w hw => matchesAt_of_langWith hfaithful drawnCounts_subset hw [] []
      · exact hmatches
    refine ⟨fun maxLen hmax d => ?_, fun a b h hmem n han hnb => ?_⟩
    · obtain ⟨n, hn⟩ := generate_eq_generateRec hir maxLen d
      have hends : Ends (generateRec hir maxLen) d (fun r _ => ∃ w ∈ output hir, r = some w)
          never := by
        rw [generateRec]
        refine (ends_new hmax d).bind fun scr d₁ _ => ?_
        exact (ends_emit (Or.inl hsafe)).bind fun w _ hw => ⟨w, hw, rfl⟩
      obtain ⟨r, d', hrun, w, hw, rfl⟩ := hends.result
      exact ⟨n, w, d', (hn n (le_refl n)).trans hrun, hmatches w hw⟩
    · have hba := hbounded a b h hmem
      obtain rfl : a = b := by omega
      obtain ⟨m, d', hrun, rfl⟩ := (ends_getRepetitionRange_self a (.ofList [])).result
      obtain rfl : n = m := by omega
      exact ⟨1, .ofList [], d', le_refl 1, hrun⟩

theorem utf8Le_ascii {c : Char} (h : c.toNat < 128) : utf8Le c = c.toNat := by
  have hsize : c.utf8Size = 1 := by
    rw [Char.utf8Size_eq_one_iff, UInt32.le_iff_toNat_le]
    exact Nat.le_of_lt_succ h
  rw [utf8Le, String.utf8EncodeChar_eq_singleton hsize, foldr_cons, foldr_nil,
    Nat.mul_zero, add_zero, UInt32.toNat_toUInt8]
  exact Nat.mod_eq_of_lt (show c.toNat < 256 by omega)

theorem faithful_of_ascii {ranges : List ClassUnicodeRange} (hne : ranges ≠ [])
    (hascii : ∀ r ∈ ranges, r.stop.toNat < 128) :
    Harmless (.cls (.unicode ranges)) ∧ (cls (.unicode ranges)).Faithful drawnClass := by
  have hle : ∀ r ∈ ranges, utf8Le r.start = r.start.toNat ∧ utf8Le r.stop = r.stop.toNat :=
    fun r hr => ⟨utf8Le_ascii (lt_of_le_of_lt r.le (hascii r hr)), utf8Le_ascii (hascii r hr)⟩
  refine ⟨⟨hne, fun r hr => ?_⟩, ?_⟩
  · have hstop := hascii r hr
    rw [RangeDecodes, (hle r hr).1, (hle r hr).2]
    exact ⟨r.le, fun n _ hn => Or.inl (by omega)⟩
  · rintro w ⟨r, hr, c, ⟨hlo, hhi⟩, rfl⟩
    rw [(hle r hr).1] at hlo hhi
    rw [(hle r hr).2, max_eq_right r.le] at hhi
    exact ⟨r, hr, c, UInt32.le_iff_toNat_le.2 hlo, UInt32.le_iff_toNat_le.2 hhi, rfl⟩

/-- The expression `(?u:[a-c])+`. -/
def someLetters : Hir :=
  .repetition .oneOrMore (.cls (.unicode [⟨Char.ofNat 97, Char.ofNat 99, by decide⟩]))

theorem someLetters_visited {k : Hir} (hk : k ∈ someLetters.visited) :
    Harmless k ∧ k.Faithful drawnClass := by
  simp only [someLetters, visited, mem_cons, reduceCtorEq, if_false, not_mem_nil, or_false] at hk
  rcases hk with rfl | rfl
  · exact ⟨trivial, trivial⟩
  · refine faithful_of_ascii (by simp) fun r hr => ?_
    rw [mem_singleton.1 hr]
    decide

theorem generatesAll_iff_someLetters :
    FitsMemory someLetters ∧ GeneratesAll (fun c => c.isAlphanum) someLetters := by
  have hfits : FitsMemory someLetters := by
    refine ⟨fun ranges hmem => ?_, fun ranges hmem => ?_, fun hs hmem => ?_⟩ <;>
      simp [someLetters, subterms] at hmem
    rw [hmem]
    decide
  refine ⟨hfits, (generatesAll_iff _ someLetters hfits).2 ⟨fun a b h hmem => ?_,
    fun k hk => (someLetters_visited hk).1, Or.inl fun k hk => (someLetters_visited hk).2⟩⟩
  simp [someLetters, subterms] at hmem

/-- The expression `a\bb`. -/
def innerBoundary : Hir :=
  .concat [.literal (.byte 97), .wordBoundary .ascii, .literal (.byte 98)]

theorem not_matches_innerBoundary (word : Char → Prop) : ¬innerBoundary.Matches word [97, 98] := by
  rintro ⟨u, v, huv, rfl, u', v', rfl, ⟨rfl, hholds⟩, u'', v'', rfl, rfl, rfl⟩
  exact hholds (iff_of_true ⟨97, rfl, rfl⟩ ⟨98, rfl, rfl⟩)

/-- **Four ways in which the generator fails.** -/
theorem generate_fails :
    panicOf (generate 9 (.repetition (.range (.bounded 2 2)) (.literal (.byte 97))) 2
        (.ofList [0, 1])) = some .divideByZero ∧
      (∀ maxLen d d',
        (RegexScript.new maxLen >>= getRepetitionRange (.bounded 0 1)) d ≠ .ok 1 d') ∧
        resultOf (generate 9 (.cls (.unicode [⟨Char.ofNat 0xE9, Char.ofNat 0xE9, le_refl _⟩])) 1
          (.ofList [])) = some (some (String.utf8EncodeChar (Char.ofNat 0xA9C3))) ∧
          resultOf (generate 9 innerBoundary 1 (.ofList [])) = some (some [97, 98]) ∧
            ∀ word, ¬innerBoundary.Matches word [97, 98] := by
  refine ⟨by decide +kernel, fun maxLen d d' h => ?_, by decide +kernel, by decide +kernel,
    not_matches_innerBoundary⟩
  exact absurd (getRepetitionRange_bounded_lt (by decide) h) (by decide)

/-! ## As a generator of vectors -/

def regex (hir : Hir) : VecGenerator where
  run maxLen := do
    let scr ← RegexScript.new maxLen
    emit scr hir

theorem returns_regex {hir : Hir} (hsafe : ∀ k ∈ hir.visited, Harmless k) :
    (regex hir).Returns := by
  intro maxLen hmax d
  simp only [regex, ends_bind]
  refine (RegexScript.ends_new hmax d).weaken fun scr d' _ => ?_
  exact (ends_emit (Or.inl hsafe)).weaken fun _ _ _ => trivial

/-- The expression `abc`. -/
def abc : Hir := .concat [.literal (.byte 97), .literal (.byte 98), .literal (.byte 99)]

theorem abc_returns : (regex abc).Returns := by
  refine returns_regex fun k hk => ?_
  simp only [abc, visited, visitedAll, cons_append, nil_append, mem_cons, not_mem_nil,
    or_false] at hk
  rcases hk with rfl | rfl | rfl | rfl <;> trivial

theorem ends_generate_abc {maxLen : ℕ} (hmax : 1 ≤ maxLen) (d : Distributions) :
    Ends ((regex abc).generate maxLen) d (fun vec _ => vec.length ≤ 3) never := by
  simp only [VecGenerator.generate, regex, ends_bind]
  refine (RegexScript.ends_new hmax d).weaken fun scr d' _ => ?_
  exact length_take_le' maxLen [97, 98, 99]

end FuzzSocketCan.RegexGenerator

namespace FuzzSocketCan

open RegexGenerator

def greetingLoader : SpecLoader where
  checksum := 0
  nodes := [⟨"open", none, [], [], [0], false⟩, ⟨"greet", some 1, [], [0], [], false⟩]
  edges := ["connection"]
  atomics := [.int "byte" 1 [], .vec "greeting" (0, 4) 0 [⟨"abc"⟩]]

def greetingSpec : GraphSpec := greetingLoader.specOrNew fun _ => some (regex abc)

end FuzzSocketCan
