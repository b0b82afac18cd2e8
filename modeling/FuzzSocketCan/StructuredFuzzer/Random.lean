import Mathlib.Data.Nat.Find
import Mathlib.Data.Nat.ModEq
import FuzzSocketCan.Lib.Ends

/-! # Panics and random choices

`Distributions` holds the random choices of the mutation engine as an endless stream of draws with
the position of the next one. Weighted choices are modelled by the options that can come out. A
loop that redraws until a value changes ends because the stream is `fair`.
-/

namespace FuzzSocketCan

open Lib List

inductive Panic
  /-- `gen_range` with an empty range. -/
  | emptyRange
  /-- A slice or vector index, or a slice range, out of bounds. -/
  | indexOutOfBounds
  /-- A failed `assert!` or `assert_eq!`. -/
  | assertionFailed
  /-- A division or remainder by zero. -/
  | divideByZero
  /-- An unsigned subtraction below zero. -/
  | subtractWithOverflow
  /-- `next` of the last `u16` identifier. -/
  | addWithOverflow
  /-- `windows(0)`. -/
  | zeroWindow
  /-- `unwrap` or `expect` on `None` or `Err`. -/
  | unwrapNone
  /-- Indexing a hash map with a key it does not have. -/
  | noEntryFound
  /-- "unknown new id". -/
  | unknownNewId
  /-- "couldn get random input". -/
  | noRandomInput
  /-- "invalid integer size". -/
  | invalidIntegerSize
  /-- "can't call as_usize on dynamic sized atomic data". -/
  | dynamicSize
  /-- "Node has invalid data type". -/
  | invalidDataType
  /-- Unbounded recursion. -/
  | stackOverflow
  /-- "internal error: entered unreachable code". -/
  | unreachable
  deriving DecidableEq, Repr

structure Distributions where
  /-- The draws. -/
  draws : ℕ → ℕ
  /-- No residue comes out forever. -/
  fair : ∀ i n v, 2 ≤ n → ∃ k, draws (i + k) % n ≠ v
  /-- The position of the next draw. -/
  pos : ℕ
  /-- Byte strings used by `gen_random_overwrite_data`. -/
  dict : List (List UInt8)

def Distributions.ofList (l : List ℕ) : Distributions where
  draws i := l.getD i i
  fair := by
    intro i n v hn
    have hlate : ∀ j, l.length ≤ j → l.getD j j = j := fun j hj => by
      rw [getD_eq_getElem?_getD, List.getElem?_eq_none hj, Option.getD_none]
    -- two draws in a row behind the list differ
    by_cases h : l.getD (i + l.length) (i + l.length) % n = v
    · refine ⟨l.length + 1, fun h' => ?_⟩
      rw [hlate _ (by omega)] at h h'
      have : (1 : ℕ) ≡ 0 [MOD n] := Nat.ModEq.add_left_cancel' (i + l.length) (h'.trans h.symm)
      rw [Nat.ModEq, Nat.mod_eq_of_lt hn, Nat.zero_mod] at this
      cases this
    · exact ⟨l.length, h⟩
  pos := 0
  dict := []

abbrev Dist := EStateM Panic Distributions

def draw : Dist ℕ :=
  modifyGet fun d => (d.draws d.pos, { d with pos := d.pos + 1 })

variable {d : Distributions} {α : Type}

variable {Q : ℕ → Distributions → Prop} {E : Panic → Distributions → Prop}

theorem ends_draw (h : ∀ n d', Q n d') : Ends draw d Q E := h _ _

/-- A draw from `low..high`. -/
def genRange (low high : ℕ) : Dist ℕ := do
  check (low < high) Panic.emptyRange
  let n ← draw
  pure (low + n % (high - low))

theorem ends_genRange {low high : ℕ} (h : low < high) (hQ : ∀ n d', low ≤ n → n < high → Q n d') :
    Ends (genRange low high) d Q E := by
  simp only [genRange, ends_bind, ends_check_of h, ends_pure]
  refine ends_draw fun n d' => hQ _ _ (Nat.le_add_right _ _) ?_
  have := Nat.mod_lt n (Nat.sub_pos_of_lt h)
  omega

theorem ends_genRange_or {low high : ℕ} (h : (∀ e d, E e d) ∨ low < high)
    (hQ : ∀ n d', low ≤ n → n < high → Q n d') : Ends (genRange low high) d Q E := by
  by_cases hlt : low < high
  · exact ends_genRange hlt hQ
  · rw [genRange, ends_bind]
    exact ends_check (fun hlt' => absurd hlt' hlt) fun _ => h.resolve_right hlt _ _

theorem ends_genRange_mem (low high : ℕ) (d : Distributions) :
    Ends (genRange low high) d (fun n _ => low ≤ n ∧ n < high) mayPanic :=
  ends_genRange_or (.inl fun _ _ => trivial) fun _ _ => And.intro

def genBool : Dist Bool := do
  let n ← draw
  pure (n % 2 == 1)

def genU8 : Dist UInt8 := do
  let n ← draw
  pure (UInt8.ofNat n)

/-- A random 64-bit number; `usize` is one too. -/
def genU64 : Dist ℕ := do
  let n ← draw
  pure (n % 2 ^ 64)

theorem ends_genBool {Q : Bool → Distributions → Prop} (h : ∀ b d', Q b d') :
    Ends genBool d Q E := h _ _

theorem ends_genU8 {Q : UInt8 → Distributions → Prop} (h : ∀ b d', Q b d') :
    Ends genU8 d Q E := h _ _

theorem ends_genU64 (h : ∀ n d', Q n d') : Ends genU64 d Q E := h _ _

def genPick (l : List α) : Dist α := do
  let i ← genRange 0 l.length
  unwrap l[i]? Panic.indexOutOfBounds

theorem ends_genPick {Q : α → Distributions → Prop} {l : List α} (hl : l ≠ [])
    (hQ : ∀ a d', a ∈ l → Q a d') : Ends (genPick l) d Q E := by
  simp only [genPick, ends_bind]
  refine ends_genRange (length_pos_iff.2 hl) fun i d' _ hi => ?_
  rw [getElem?_eq_getElem hi]
  exact hQ _ _ (getElem_mem hi)

def chooseFromIter (l : List α) : Dist (Option α) :=
  if l.isEmpty then pure none else some <$> genPick l

theorem ends_chooseFromIter {Q : Option α → Distributions → Prop} {l : List α}
    (h0 : l = [] → ∀ d', Q none d') (hQ : ∀ a d', a ∈ l → Q (some a) d') :
    Ends (chooseFromIter l) d Q E := by
  refine ends_ite (fun hl => h0 (isEmpty_iff.1 hl) _) fun hl => ?_
  rw [ends_map]
  exact ends_genPick (fun h => hl (isEmpty_iff.2 h)) fun a d' ha => hQ a d' ha

/-- `n` random bytes. -/
def genBytes : ℕ → Dist (List UInt8)
  | 0 => pure []
  | n + 1 => do
      let b ← genU8
      let bs ← genBytes n
      pure (b :: bs)

variable {n : ℕ}

theorem ends_genBytes {Q : List UInt8 → Distributions → Prop}
    (hQ : ∀ bs d', bs.length = n → Q bs d') : Ends (genBytes n) d Q E := by
  induction n generalizing d Q with
  | zero => exact hQ [] _ rfl
  | succ n ih =>
    simp only [genBytes, ends_bind]
    refine ends_genU8 fun b d' => ih fun bs d'' hbs => ?_
    exact hQ _ _ (by rw [length_cons, hbs])

def redraw (n v : ℕ) (hn : 2 ≤ n) : Dist ℕ := fun d =>
  let k := Nat.find (d.fair d.pos n v hn)
  .ok (d.draws (d.pos + k) % n) { d with pos := d.pos + k + 1 }

theorem redraw_eq (n v : ℕ) (hn : 2 ≤ n) :
    redraw n v hn = (do let x ← genRange 0 n; if x = v then redraw n v hn else pure x) := by
  funext d
  have hlt : 0 < n := by omega
  have hstep : (do let x ← genRange 0 n; if x = v then redraw n v hn else pure x : Dist ℕ) d
      = (if d.draws d.pos % n = v then redraw n v hn else pure (d.draws d.pos % n) : Dist ℕ)
          { d with pos := d.pos + 1 } := by
    have hrange : genRange 0 n d = .ok (d.draws d.pos % n) { d with pos := d.pos + 1 } := by
      rw [genRange, check_bind_run hlt]
      show EStateM.Result.ok (0 + d.draws d.pos % (n - 0)) _ = _
      rw [Nat.zero_add, Nat.sub_zero]
    exact bind_run_ok hrange
  rw [hstep]
  by_cases hv : d.draws d.pos % n = v
  · -- the first draw repeats the value, so the first good draw is one further on
    have hk : Nat.find (d.fair d.pos n v hn)
        = Nat.find (d.fair (d.pos + 1) n v hn) + 1 := by
      have h := Nat.find_comp_succ (d.fair d.pos n v hn)
        (by obtain ⟨k, hk⟩ := d.fair (d.pos + 1) n v hn
            exact ⟨k, by rwa [add_assoc, add_comm 1 k] at hk⟩) (by simpa using hv)
      rw [h]
      congr 1
      refine Nat.find_congr' fun {k} => ?_
      rw [add_assoc, add_comm 1 k]
    rw [if_pos hv]
    show EStateM.Result.ok _ _ = EStateM.Result.ok _ _
    simp only [hk, add_assoc, add_comm 1]
  · have hk : Nat.find (d.fair d.pos n v hn) = 0 := by
      rw [Nat.find_eq_zero]; simpa using hv
    rw [if_neg hv]
    show EStateM.Result.ok _ _ = EStateM.Result.ok _ _
    simp [hk]

theorem ends_redraw {v : ℕ} {hn : 2 ≤ n} (hQ : ∀ x d', x < n → x ≠ v → Q x d') :
    Ends (redraw n v hn) d Q E :=
  hQ _ _ (Nat.mod_lt _ (by omega)) (Nat.find_spec (d.fair d.pos n v hn))

/-! ## The distributions of the graph mutations -/

structure GenerateTail where
  dropLast : ℕ
  generate : ℕ
  deriving DecidableEq, Repr

inductive NodeMutationType
  | copyNode
  | mutateNodeData
  | dropNode
  | skipAndGenerate
  deriving DecidableEq, Repr

def genBlockSize : Dist (ℕ × ℕ) := genPick [(1, 32), (32, 128), (128, 1500)]

def genNumberOfRandomNodes : Dist ℕ := genRange 1 64

def genChangePercentage : Dist ℕ := do
  let n ← genRange 0 6
  pure (1 <<< n)

def genTailGenerationStrategy (oldSize : ℕ) : Dist GenerateTail := do
  let percentage ← genChangePercentage
  let dropLast := percentage * oldSize / 100
  let genSizeRange ← genBlockSize
  let generate ← genRange genSizeRange.1 genSizeRange.2
  let dropLast := if dropLast ≥ oldSize then 0 else dropLast
  -- the second condition is only drawn when the first holds
  if generate + oldSize - dropLast < 16 then do
    let n ← genRange 0 100
    pure ⟨dropLast, if n < 98 then generate + 16 else generate⟩
  else pure ⟨dropLast, generate⟩

def genGraphMutationType : Dist NodeMutationType :=
  genPick [.copyNode, .mutateNodeData, .dropNode, .skipAndGenerate]

def shouldMutateSpliceGenerator : Dist Bool := do
  let n ← genRange 0 2
  pure (n < 1)

def shouldMutateData (numNodes : ℕ) : Dist Bool := do
  let n ← genRange 0 (numNodes + 1)
  pure (n ≤ 2)

def shouldMutateDict : Dist Bool := do
  let n ← genRange 0 3
  pure (n == 0)

def genRandomOverwriteData (len : ℕ) : Dist (List UInt8) := do
  let dict := (← get).dict
  if dict.isEmpty then genBytes len
  else do
    let b ← genU8
    if b &&& 1 = 0 then do
      let entry ← genPick dict
      if entry.length ≤ len then pure entry else genBytes len
    else genBytes len

theorem ends_genBlockSize {Q : ℕ × ℕ → Distributions → Prop}
    (hQ : ∀ r d', 1 ≤ r.1 → r.1 < r.2 → Q r d') : Ends genBlockSize d Q E := by
  refine ends_genPick (by simp) fun r d' hr => hQ r d' ?_ ?_ <;>
  · simp only [mem_cons, not_mem_nil, or_false] at hr
    obtain rfl | rfl | rfl := hr <;> decide

theorem ends_genTailGenerationStrategy {Q : GenerateTail → Distributions → Prop} {oldSize : ℕ}
    (hQ : ∀ args d', args.dropLast ≤ oldSize → Q args d') :
    Ends (genTailGenerationStrategy oldSize) d Q E := by
  simp only [genTailGenerationStrategy, genChangePercentage, ends_bind, ends_pure]
  refine ends_genRange (by decide) fun n d1 _ _ => ?_
  refine ends_genBlockSize fun r d2 _ hr => ends_genRange hr fun g d3 _ _ => ?_
  have hdrop : (if 1 <<< n * oldSize / 100 ≥ oldSize then 0 else 1 <<< n * oldSize / 100)
      ≤ oldSize := by
    split <;> omega
  refine ends_ite (fun _ => ?_) fun _ => ?_
  · rw [ends_bind]
    exact ends_genRange (by decide) fun m d4 _ _ => hQ _ _ hdrop
  · exact hQ _ _ hdrop

theorem ends_shouldMutateSpliceGenerator {Q : Bool → Distributions → Prop} (hQ : ∀ b d', Q b d') :
    Ends shouldMutateSpliceGenerator d Q E := by
  simp only [shouldMutateSpliceGenerator, ends_bind, ends_pure]
  exact ends_genRange (by decide) fun n d' _ _ => hQ _ d'

theorem ends_shouldMutateData {Q : Bool → Distributions → Prop} (hQ : ∀ b d', Q b d') :
    Ends (shouldMutateData n) d Q E := by
  simp only [shouldMutateData, ends_bind, ends_pure]
  exact ends_genRange (by omega) fun m d' _ _ => hQ _ d'

theorem ends_shouldMutateDict {Q : Bool → Distributions → Prop} (hQ : ∀ b d', Q b d') :
    Ends shouldMutateDict d Q E := by
  simp only [shouldMutateDict, ends_bind, ends_pure]
  exact ends_genRange (by decide) fun n d' _ _ => hQ _ d'

theorem ends_genRandomOverwriteData {Q : List UInt8 → Distributions → Prop} {len : ℕ}
    (hQ : ∀ bs d', bs.length ≤ len → Q bs d') : Ends (genRandomOverwriteData len) d Q E := by
  have hbytes : ∀ d', Ends (genBytes len) d' Q E :=
    fun d' => ends_genBytes fun bs d'' hbs => hQ bs d'' (le_of_eq hbs)
  refine ends_ite (fun _ => hbytes _) fun hdict => ?_
  rw [ends_bind]
  refine ends_genU8 fun b d' => ends_ite (fun _ => ?_) fun _ => hbytes _
  rw [ends_bind]
  refine ends_genPick (fun h => hdict (isEmpty_iff.2 h)) fun entry d'' _ => ?_
  exact ends_ite (fun hlen => hQ entry _ hlen) fun _ => hbytes _

/-! ## Runs that read given draws -/

def Distributions.Next (d : Distributions) (ds : List ℕ) : Prop :=
  ∀ i n, ds[i]? = some n → d.draws (d.pos + i) = n

def Distributions.skip (d : Distributions) (n : ℕ) : Distributions := { d with pos := d.pos + n }

theorem Distributions.next_ofList (l : List ℕ) : (Distributions.ofList l).Next l := by
  intro i n hn
  show l.getD (0 + i) (0 + i) = n
  rw [zero_add, getD_eq_getElem?_getD, hn, Option.getD_some]

theorem Distributions.Next.left {ds ds' : List ℕ} (h : d.Next (ds ++ ds')) : d.Next ds := by
  intro i n hn
  apply h
  rw [List.getElem?_append_left (List.getElem?_eq_some_iff.1 hn).1, hn]

theorem Distributions.Next.right {ds ds' : List ℕ} (h : d.Next (ds ++ ds')) :
    (d.skip ds.length).Next ds' := by
  intro i n hn
  show d.draws (d.pos + ds.length + i) = n
  rw [Nat.add_assoc]
  apply h
  rw [getElem?_append_right (Nat.le_add_right _ _), Nat.add_sub_cancel_left, hn]

def Reads (m : Dist α) (ds : List ℕ) (a : α) : Prop :=
  ∀ d : Distributions, d.Next ds → m d = .ok a (d.skip ds.length)

def Fails (m : Dist α) (ds : List ℕ) : Prop :=
  ∀ d : Distributions, d.Next ds → ∃ e d', m d = .error e d'

section Reads

variable {β : Type} {m : Dist α} {f : α → Dist β} {ds ds' : List ℕ} {a : α} {b : β}

theorem Reads.pure (a : α) : Reads (pure a) [] a := fun _ _ => rfl

theorem Reads.bind (h : Reads m ds a) (h' : Reads (f a) ds' b) : Reads (m >>= f) (ds ++ ds') b := by
  intro d hd
  rw [bind_run_ok (h d hd.left), h' _ hd.right, length_append, Distributions.skip,
    Distributions.skip, Distributions.skip, add_assoc]

theorem Reads.bind_nil (h : Reads m ds a) (h' : Reads (f a) [] b) : Reads (m >>= f) ds b := by
  have := h.bind h'
  rwa [append_nil] at this

theorem Reads.bind_fails (h : Reads m ds a) (h' : Fails (f a) ds') : Fails (m >>= f) (ds ++ ds') := by
  intro d hd
  rw [bind_run_ok (h d hd.left)]
  exact h' _ hd.right

theorem Fails.bind (h : Fails m ds) : Fails (m >>= f) ds := by
  intro d hd
  obtain ⟨e, d', he⟩ := h d hd
  exact ⟨e, d', by rw [bind_run, he]⟩

theorem Fails.throw (e : Panic) : Fails (throw e : Dist α) ds := fun d _ => ⟨e, d, rfl⟩

theorem reads_check {c : Prop} [Decidable c] {e : Panic} (hc : c) :
    Reads (check c e : Dist PUnit) [] ⟨⟩ := by
  rw [check_of hc]
  exact Reads.pure _

theorem fails_check {c : Prop} [Decidable c] {e : Panic} (hc : ¬c) :
    Fails (check c e : Dist PUnit) ds := by
  rw [check, if_neg hc]
  exact Fails.throw e

theorem reads_genU64 (hn : n < 2 ^ 64) : Reads genU64 [n] n := by
  intro d hd
  have hdraw : d.draws d.pos = n := hd 0 n rfl
  show EStateM.Result.ok (d.draws d.pos % 2 ^ 64) (d.skip 1) = _
  rw [hdraw, Nat.mod_eq_of_lt hn]
  rfl

end Reads

end FuzzSocketCan
