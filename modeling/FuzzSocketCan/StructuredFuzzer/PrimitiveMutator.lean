import FuzzSocketCan.StructuredFuzzer.DataBuff

/-! # The primitive mutator

`PrimitiveMutator.mutate` changes the bytes of a buffer in place, with an entry of a custom
dictionary or a random in-place mutation.

* **`ends_mutate`** — it never panics and never changes a size, for every dictionary whose groups
  and entries are non-empty and replace a string by one of the same length. -/

namespace FuzzSocketCan

open Lib List DataBuff

/-! ## Custom dictionaries -/

/-- `DictEntry::Replace(lhs, rhs)`. -/
structure DictEntry where
  lhs : List UInt8
  rhs : List UInt8
  deriving DecidableEq, Repr

/-- Replacements in groups; the second field of the source is a function of them (`lhsToGroups`). -/
structure CustomDict where
  groups : List (List DictEntry)
  deriving DecidableEq, Repr

namespace CustomDict

/-- One insertion of `new_from_groups`. -/
def addEntry (m : List UInt8 → Option (List (List UInt8))) (e : DictEntry) :
    List UInt8 → Option (List (List UInt8)) :=
  Function.update m e.lhs (some ((m e.lhs).getD [] ++ [e.rhs]))

def lhsToGroups (dict : CustomDict) : List UInt8 → Option (List (List UInt8)) :=
  dict.groups.flatten.foldl addEntry fun _ => none

def Valid (dict : CustomDict) : Prop :=
  ∀ group ∈ dict.groups, group ≠ [] ∧ ∀ e ∈ group, e.lhs ≠ [] ∧ e.rhs.length ≤ e.lhs.length

instance (dict : CustomDict) : Decidable dict.Valid :=
  inferInstanceAs (Decidable (∀ _ ∈ _, _))

def LengthsAgree (m : List UInt8 → Option (List (List UInt8))) : Prop :=
  ∀ key opts, m key = some opts → opts ≠ [] ∧ ∀ rhs ∈ opts, rhs.length ≤ key.length

variable {m : List UInt8 → Option (List (List UInt8))}

theorem LengthsAgree.addEntry {e : DictEntry} (h : LengthsAgree m)
    (he : e.rhs.length ≤ e.lhs.length) : LengthsAgree (addEntry m e) := by
  intro key opts hopts
  by_cases hk : key = e.lhs
  · subst hk
    rw [CustomDict.addEntry, Function.update_self] at hopts
    obtain rfl := Option.some.inj hopts
    refine ⟨by simp, fun rhs hrhs => ?_⟩
    rw [mem_append, mem_singleton] at hrhs
    obtain hrhs | rfl := hrhs
    · cases hm : m e.lhs with
      | none => rw [hm] at hrhs; exact absurd hrhs not_mem_nil
      | some old => rw [hm] at hrhs; exact (h _ _ hm).2 rhs hrhs
    · exact he
  · rw [CustomDict.addEntry, Function.update_of_ne hk] at hopts
    exact h key opts hopts

theorem LengthsAgree.foldl {es : List DictEntry} (h : LengthsAgree m)
    (hes : ∀ e ∈ es, e.rhs.length ≤ e.lhs.length) :
    LengthsAgree (es.foldl CustomDict.addEntry m) := by
  induction es generalizing m with
  | nil => exact h
  | cons e es ih =>
    exact ih (h.addEntry (hes e mem_cons_self)) fun e' he' => hes e' (mem_cons_of_mem _ he')

theorem Valid.lengthsAgree {dict : CustomDict} (h : dict.Valid) : LengthsAgree dict.lhsToGroups := by
  refine LengthsAgree.foldl (fun _ _ hn => by cases hn) fun e he => ?_
  obtain ⟨group, hgroup, he⟩ := mem_flatten.1 he
  exact ((h group hgroup).2 e he).2

def sampleRhs (dict : CustomDict) (buff : DataBuff) : Dist (Option (List UInt8)) :=
  match dict.lhsToGroups buff.asSlice with
  | some opts => some <$> genPick opts
  | none => pure none

def sampleEntry (dict : CustomDict) : Dist (Option DictEntry) :=
  if dict.groups.isEmpty then pure none
  else do
    let group ← genPick dict.groups
    some <$> genPick group

def offsets (buff : DataBuff) (lhs : List UInt8) : List ℕ :=
  (List.range (buff.asSlice.length + 1 - lhs.length)).filter fun i =>
    (buff.asSlice.drop i).take lhs.length = lhs

def findPos (buff : DataBuff) (lhs : List UInt8) : Dist (Option ℕ) := do
  check (lhs.length ≠ 0) Panic.zeroWindow
  if (offsets buff lhs).isEmpty then
    if buff.used ≥ lhs.length then some <$> genRange 0 (buff.used - lhs.length + 1)
    else pure none
  else some <$> genPick (offsets buff lhs)

def mutateByEntry (dict : CustomDict) (buff : DataBuff) : Dist (DataBuff × Bool) := do
  match ← dict.sampleEntry with
  | none => pure (buff, true)
  | some entry =>
    let buff ← match ← findPos buff entry.lhs with
      | some pos => orPanic (buff.copyFrom entry.rhs pos)
      | none => pure buff
    let continueMutation ← genBool
    pure (buff, continueMutation)

def mutate (dict : CustomDict) (buff : DataBuff) : Dist (DataBuff × Bool) := do
  match ← dict.sampleRhs buff with
  | none => dict.mutateByEntry buff
  | some rhs =>
    if ← genBool then do
      let buff ← orPanic (buff.copyFrom rhs 0)
      let continueMutation ← genBool
      pure (buff, continueMutation)
    else dict.mutateByEntry buff

variable {dict : CustomDict} {buff : DataBuff} {d : Distributions}

variable {E : Panic → Distributions → Prop}

theorem ends_findPos {Q : Option ℕ → Distributions → Prop} {lhs : List UInt8} (hlhs : lhs ≠ [])
    (h0 : ∀ d', Q none d') (hQ : ∀ pos d', pos + lhs.length ≤ buff.used → Q (some pos) d') :
    Ends (findPos buff lhs) d Q E := by
  simp only [findPos, ends_bind]
  rw [ends_check_of (by rwa [ne_eq, length_eq_zero_iff])]
  refine ends_ite (fun _ => ends_ite (fun hlen => ?_) fun _ => h0 d) fun hne => ?_
  · rw [ends_map]
    exact ends_genRange (by omega) fun pos d' _ hpos => hQ pos d' (by omega)
  · rw [ends_map]
    refine ends_genPick (fun h => hne (isEmpty_iff.2 h)) fun pos d' hpos => hQ pos d' ?_
    have := mem_range.1 (mem_filter.1 hpos).1
    rw [length_asSlice] at this
    omega

theorem ends_copyFrom {Q : DataBuff → Distributions → Prop} {xs : List UInt8} {dst : ℕ}
    (h : dst + xs.length ≤ buff.used) (hQ : ∀ b, DataBuff.SameSize buff b → Q b d) :
    Ends (orPanic (buff.copyFrom xs dst)) d Q E := by
  obtain ⟨b, hb, hsame⟩ := copyFrom_ok h
  rw [hb]
  exact hQ b hsame

variable {Q : DataBuff × Bool → Distributions → Prop}

theorem ends_mutateByEntry (hdict : dict.Valid)
    (hQ : ∀ b c d', DataBuff.SameSize buff b → Q (b, c) d') :
    Ends (dict.mutateByEntry buff) d Q E := by
  simp only [mutateByEntry, ends_bind, sampleEntry]
  refine ends_ite (fun _ => hQ _ _ _ (DataBuff.SameSize.refl _)) fun hne => ?_
  rw [ends_bind]
  refine ends_genPick (fun h => hne (isEmpty_iff.2 h)) fun group d1 hgroup => ?_
  rw [ends_map]
  refine ends_genPick (hdict group hgroup).1 fun entry d2 hentry => ?_
  obtain ⟨hlhs, hlen⟩ := (hdict group hgroup).2 entry hentry
  simp only [ends_bind]
  refine ends_findPos hlhs (fun d3 => ?_) fun pos d3 hpos => ?_
  · simp only [ends_bind, ends_pure]
    exact ends_genBool fun c d4 => hQ _ _ _ (DataBuff.SameSize.refl _)
  · simp only [ends_bind, ends_pure]
    exact ends_copyFrom (by omega) fun b hb => ends_genBool fun c d4 => hQ _ _ _ hb

theorem ends_mutate (hdict : dict.Valid) (hQ : ∀ b c d', DataBuff.SameSize buff b → Q (b, c) d') :
    Ends (dict.mutate buff) d Q E := by
  simp only [mutate, ends_bind, sampleRhs]
  split
  · next opts hopts =>
      obtain ⟨hne, hlen⟩ := hdict.lengthsAgree _ _ hopts
      rw [ends_map]
      refine ends_genPick hne fun rhs d1 hrhs => ?_
      have hused := hlen rhs hrhs
      rw [length_asSlice] at hused
      rw [ends_bind]
      refine ends_genBool fun c d2 => ends_ite (fun _ => ?_) fun _ => ends_mutateByEntry hdict hQ
      rw [ends_bind]
      refine ends_copyFrom (by omega) fun b hb => ?_
      rw [ends_bind]
      exact ends_genBool fun c d3 => hQ _ _ _ hb
  · exact ends_mutateByEntry hdict hQ

end CustomDict

/-! ## Random in-place mutations -/

namespace PrimitiveMutator

/-- `v as uN` for a signed value. -/
def asUnsigned (bits : ℕ) (v : ℤ) : ℕ := (v % 2 ^ bits).toNat

def interestingU8 : List ℤ := [-128, -1, 0, 1, 16, 32, 64, 100, 127]

def interestingU16 : List ℤ :=
  interestingU8 ++ [-32768, -129, 128, 255, 256, 512, 1000, 1024, 4096, 32767]

def interestingU32 : List ℤ :=
  interestingU16 ++ [-2147483648, -100663046, -32769, 32768, 65535, 65536, 100663045, 2147483647]

def interestingU64 : List ℤ :=
  interestingU32 ++ [-2 ^ 63, 0x7fffffffffffffff, 0x8080808080808080]

/-- The kinds `Distributions` chooses from. -/
def inplaceMutations : List InplaceMutationType :=
  [.overwriteRandomT, .flipBitT, .addU8T, .addU16T, .addU32T, .addU64T, .interestingU8T,
    .interestingU16T, .interestingU32T, .interestingU64T, .overwriteRandomByteT, .overwriteChunkT,
    .overwriteFixedT]

def tryInplaceMutationType (buff : DataBuff) : ℕ → Dist InplaceMutationType
  | 0 => pure .flipBitT
  | tries + 1 => do
      let t ← genPick inplaceMutations
      if t.minSize ≤ buff.used then pure t else tryInplaceMutationType buff tries

def genInplaceMutationType (buff : DataBuff) : Dist InplaceMutationType := do
  check (buff.used ≠ 0) Panic.assertionFailed
  tryInplaceMutationType buff 4

/-- A place for `size` bytes in the used part. -/
def genOffset (size : ℕ) (buff : DataBuff) : Dist ℕ := do
  check (buff.used ≥ size) Panic.assertionFailed
  genRange 0 (buff.used - size + 1)

def genArithVal : Dist ℤ := do
  if ← genBool then do
    let n ← genRange 1 35
    pure n
  else do
    let n ← genRange 0 34
    pure (n - 35)

def genBlockMax (start stop maxLen : ℕ) : Dist (ℕ × ℕ) :=
  if start = stop then pure (start, stop)
  else do
    let (min, max) ← genBlockSize
    let max := if max > maxLen then maxLen else max
    let len := stop - start
    let max := if max > len then len else max
    let min := if min ≥ max then 1 else min
    let size ← genRange min (max + 1)
    let blockStart ← genRange 0 (stop - size + 1)
    pure (blockStart, blockStart + size)

def genBlockRange (buff : DataBuff) : Dist (ℕ × ℕ) := genBlockMax 0 buff.used buff.used

/-- A target for the block `start..stop` other than its own place, if there is another. As
`gen_offset` has checked `len <= buff.len()`, the test `len != buff.len()` of the source reads
`<`. -/
def genChunkTarget (start len : ℕ) (buff : DataBuff) : Dist ℕ := do
  let dst ← genOffset len buff
  if h : len < buff.used then
    if start = dst then redraw (buff.used - len + 1) start (by omega) else pure dst
  else pure dst

def genAdd (width : ℕ) (buff : DataBuff) (mk : ℕ → ℕ → Bool → InplaceMutation) :
    Dist InplaceMutation := do
  let offset ← genOffset width buff
  let val ← genArithVal
  let flipEndian ← genBool
  pure (mk offset (asUnsigned (8 * width) val) flipEndian)

def genInteresting (width : ℕ) (buff : DataBuff) (values : List ℤ)
    (mk : ℕ → ℕ → Bool → InplaceMutation) : Dist InplaceMutation := do
  let offset ← genOffset width buff
  let val ← genPick values
  let flipEndian ← genBool
  pure (mk offset (asUnsigned (8 * width) val) flipEndian)

def genInplaceMutationOf (buff : DataBuff) : InplaceMutationType → Dist InplaceMutation
  | .flipBitT => do
      let offset ← genOffset 1 buff
      let bit ← genRange 0 8
      pure (.flipBit offset bit)
  | .addU8T => do
      let offset ← genOffset 1 buff
      let val ← genArithVal
      pure (.addU8 offset (asUnsigned 8 val))
  | .addU16T => genAdd 2 buff .addU16
  | .addU32T => genAdd 4 buff .addU32
  | .addU64T => genAdd 8 buff .addU64
  | .interestingU8T => do
      let offset ← genOffset 1 buff
      let val ← genPick interestingU8
      pure (.interestingU8 offset (asUnsigned 8 val))
  | .interestingU16T => genInteresting 2 buff interestingU16 .interestingU16
  | .interestingU32T => genInteresting 4 buff interestingU32 .interestingU32
  | .interestingU64T => genInteresting 8 buff interestingU64 .interestingU64
  | .overwriteRandomByteT => do
      let offset ← genOffset 1 buff
      let x ← genRange 1 0xff
      let old ← orPanic (buff.readU8 offset)
      pure (.overwriteRandomByte offset (x ^^^ old))
  | .overwriteChunkT => do
      let (start, stop) ← genBlockRange buff
      let dst ← genChunkTarget start (stop - start) buff
      pure (.overwriteChunk start stop dst)
  | .overwriteRandomT => do
      let (start, stop) ← genBlockRange buff
      let data ← genRandomOverwriteData (stop - start)
      pure (.overwriteRandom data start)
  | .overwriteFixedT => do
      let (start, stop) ← genBlockRange buff
      let val ← genU8
      pure (.overwriteFixed start stop val)

def genInplaceMutation (buff : DataBuff) : Dist InplaceMutation := do
  let mType ← genInplaceMutationType buff
  genInplaceMutationOf buff mType

def mutateInplace (buff : DataBuff) : Dist DataBuff := do
  let mutation ← genInplaceMutation buff
  orPanic (mutation.apply buff)

def mutate (buff : DataBuff) (dict : Option CustomDict) : Dist DataBuff :=
  if buff.used = 0 then pure buff
  else
    match dict with
    | none => mutateInplace buff
    | some dict => do
        if ← shouldMutateDict then do
          let (buff, continueMutation) ← dict.mutate buff
          if continueMutation then mutateInplace buff else pure buff
        else mutateInplace buff

def genNumArrayElems (elemSize minElems maxElems maxData : ℕ) : Dist ℕ := do
  check (elemSize ≠ 0) Panic.divideByZero
  if maxData / elemSize > minElems then genRange minElems (Nat.min maxElems (maxData / elemSize))
  else pure (maxData / elemSize)

variable {buff : DataBuff} {d : Distributions} {E : Panic → Distributions → Prop}

theorem ends_tryInplaceMutationType {Q : InplaceMutationType → Distributions → Prop} {tries : ℕ}
    (hbuff : buff.used ≠ 0) (hQ : ∀ t d', t.minSize ≤ buff.used → Q t d') :
    Ends (tryInplaceMutationType buff tries) d Q E := by
  induction tries generalizing d with
  | zero => exact hQ _ _ (Nat.one_le_iff_ne_zero.2 hbuff)
  | succ tries ih =>
    rw [tryInplaceMutationType, ends_bind]
    refine ends_genPick (by simp [inplaceMutations]) fun t d' _ => ?_
    exact ends_ite (fun ht => hQ t d' ht) fun _ => ih

theorem ends_genOffset {Q : ℕ → Distributions → Prop} {size : ℕ} (h : size ≤ buff.used)
    (hQ : ∀ offset d', offset + size ≤ buff.used → Q offset d') :
    Ends (genOffset size buff) d Q E := by
  simp only [genOffset, ends_bind]
  rw [ends_check_of h]
  exact ends_genRange (by omega) fun offset d' _ hlt => hQ offset d' (by omega)

theorem ends_genArithVal {Q : ℤ → Distributions → Prop} (hQ : ∀ v d', Q v d') :
    Ends genArithVal d Q E := by
  simp only [genArithVal, ends_bind]
  refine ends_genBool fun b d' => ends_ite (fun _ => ?_) fun _ => ?_ <;>
  · rw [ends_bind]
    exact ends_genRange (by decide) fun n d'' _ _ => hQ _ _

theorem ends_genBlockRange {Q : ℕ × ℕ → Distributions → Prop} (hbuff : buff.used ≠ 0)
    (hQ : ∀ start stop d', start < stop → stop ≤ buff.used → Q (start, stop) d') :
    Ends (genBlockRange buff) d Q E := by
  unfold genBlockRange genBlockMax
  rw [if_neg (by omega), ends_bind]
  refine ends_genBlockSize fun r d1 hr1 hr2 => ?_
  obtain ⟨min, max⟩ := r
  simp only [ends_bind, ends_pure]
  -- the bounds the size is drawn between, after the cuts of the source
  set top := if (if max > buff.used then buff.used else max) > buff.used - 0 then buff.used - 0
    else if max > buff.used then buff.used else max with htop
  have htop1 : 1 ≤ top ∧ top ≤ buff.used := by
    simp only [htop]; split <;> split <;> simp only at hr1 hr2 <;> omega
  have hlow : 1 ≤ (if min ≥ top then 1 else min) ∧ (if min ≥ top then 1 else min) < top + 1 := by
    split <;> simp only at hr1 <;> omega
  refine ends_genRange hlow.2 fun size d2 h1 h2 => ?_
  exact ends_genRange (by omega) fun start d3 _ h3 => hQ _ _ _ (by omega) (by omega)

theorem ends_genChunkTarget {Q : ℕ → Distributions → Prop} {start len : ℕ} (h : len ≤ buff.used)
    (hQ : ∀ dst d', dst + len ≤ buff.used → Q dst d') :
    Ends (genChunkTarget start len buff) d Q E := by
  rw [genChunkTarget, ends_bind]
  refine ends_genOffset h fun dst d' hdst => ?_
  split
  · exact ends_ite (fun _ => ends_redraw fun x d'' hx _ => hQ x d'' (by omega))
      fun _ => hQ dst d' hdst
  · exact hQ dst d' hdst

variable {mk : ℕ → ℕ → Bool → InplaceMutation}

theorem ends_genAdd {Q : InplaceMutation → Distributions → Prop} {width : ℕ} (h : width ≤ buff.used)
    (hQ : ∀ offset v f d', offset + width ≤ buff.used → Q (mk offset v f) d') :
    Ends (genAdd width buff mk) d Q E := by
  simp only [genAdd, ends_bind, ends_pure]
  exact ends_genOffset h fun offset d1 ho => ends_genArithVal fun v d2 =>
    ends_genBool fun f d3 => hQ _ _ _ _ ho

theorem ends_genInteresting {Q : InplaceMutation → Distributions → Prop} {width : ℕ}
    {values : List ℤ} (h : width ≤ buff.used) (hv : values ≠ [])
    (hQ : ∀ offset v f d', offset + width ≤ buff.used → Q (mk offset v f) d') :
    Ends (genInteresting width buff values mk) d Q E := by
  simp only [genInteresting, ends_bind, ends_pure]
  exact ends_genOffset h fun offset d1 ho => ends_genPick hv fun v d2 _ =>
    ends_genBool fun f d3 => hQ _ _ _ _ ho

theorem ends_genInplaceMutationOf {Q : InplaceMutation → Distributions → Prop}
    {t : InplaceMutationType} (ht : t.minSize ≤ buff.used) (hbuff : buff.used ≠ 0)
    (hQ : ∀ m d', m.Fits buff.used → Q m d') : Ends (genInplaceMutationOf buff t) d Q E := by
  cases t with
  | flipBitT =>
    simp only [genInplaceMutationOf, ends_bind, ends_pure]
    exact ends_genOffset ht fun offset d1 ho => ends_genRange (by decide) fun bit d2 _ _ => hQ _ _ ho
  | addU8T =>
    simp only [genInplaceMutationOf, ends_bind, ends_pure]
    exact ends_genOffset ht fun offset d1 ho => ends_genArithVal fun v d2 => hQ _ _ ho
  | addU16T | addU32T | addU64T => exact ends_genAdd ht fun offset v f d' ho => hQ _ _ ho
  | interestingU8T =>
    simp only [genInplaceMutationOf, ends_bind, ends_pure]
    exact ends_genOffset ht fun offset d1 ho =>
      ends_genPick (by simp [interestingU8]) fun v d2 _ => hQ _ _ ho
  | interestingU16T | interestingU32T | interestingU64T =>
    exact ends_genInteresting ht (by simp [interestingU16, interestingU32, interestingU64,
      interestingU8]) fun offset v f d' ho => hQ _ _ ho
  | overwriteRandomByteT =>
    simp only [genInplaceMutationOf, ends_bind, ends_pure]
    refine ends_genOffset ht fun offset d1 ho => ends_genRange (by decide) fun x d2 _ _ => ?_
    obtain ⟨v, hv⟩ := readUInt_ok (f := false) ho
    rw [readU8, hv]
    exact hQ _ _ ho
  | overwriteChunkT =>
    simp only [genInplaceMutationOf, ends_bind, ends_pure]
    exact ends_genBlockRange hbuff fun start stop d1 h1 h2 =>
      ends_genChunkTarget (by omega) fun dst d2 hdst => hQ _ _ ⟨h1.le, h2, hdst⟩
  | overwriteRandomT =>
    simp only [genInplaceMutationOf, ends_bind, ends_pure]
    refine ends_genBlockRange hbuff fun start stop d1 h1 h2 => ?_
    refine ends_genRandomOverwriteData fun bs d2 hbs => hQ _ _ ?_
    show start + bs.length ≤ buff.used
    omega
  | overwriteFixedT =>
    simp only [genInplaceMutationOf, ends_bind, ends_pure]
    exact ends_genBlockRange hbuff fun start stop d1 h1 h2 => ends_genU8 fun v d2 => hQ _ _ h2

theorem ends_mutateInplace {Q : DataBuff → Distributions → Prop} (hbuff : buff.used ≠ 0)
    (hQ : ∀ b d', DataBuff.SameSize buff b → Q b d') : Ends (mutateInplace buff) d Q E := by
  simp only [mutateInplace, genInplaceMutation, genInplaceMutationType, ends_bind]
  rw [ends_check_of hbuff]
  refine ends_tryInplaceMutationType hbuff fun t d1 ht => ?_
  refine ends_genInplaceMutationOf ht hbuff fun m d2 hm => ?_
  obtain ⟨b, hb, hsame⟩ := InplaceMutation.apply_of_fits hm
  rw [hb]
  exact hQ b _ hsame

theorem ends_mutate {Q : DataBuff → Distributions → Prop} {dict : Option CustomDict}
    (hdict : ∀ c ∈ dict, c.Valid) (hQ : ∀ b d', DataBuff.SameSize buff b → Q b d') :
    Ends (mutate buff dict) d Q E := by
  refine ends_ite (fun _ => hQ _ _ (DataBuff.SameSize.refl _)) fun hbuff => ?_
  cases dict with
  | none => exact ends_mutateInplace hbuff hQ
  | some dict =>
    simp only [ends_bind]
    refine ends_shouldMutateDict fun b d1 => ends_ite (fun _ => ?_) fun _ => ?_
    · rw [ends_bind]
      refine CustomDict.ends_mutate (hdict dict rfl) fun buff' c d2 hsame => ?_
      refine ends_ite (fun _ => ?_) fun _ => hQ _ _ hsame
      have hbuff' : buff'.used ≠ 0 := by rw [hsame.2]; exact hbuff
      exact ends_mutateInplace hbuff' fun b d3 hb => hQ _ _ (hsame.trans hb)
    · exact ends_mutateInplace hbuff hQ

theorem ends_genNumArrayElems {Q : ℕ → Distributions → Prop}
    {elemSize minElems maxElems maxData : ℕ} (helem : elemSize ≠ 0) (hrange : minElems < maxElems)
    (hQ : ∀ n d', n * elemSize ≤ maxData → n < maxElems → Q n d') :
    Ends (genNumArrayElems elemSize minElems maxElems maxData) d Q E := by
  simp only [genNumArrayElems, ends_bind]
  rw [ends_check_of helem]
  have hdiv : ∀ n ≤ maxData / elemSize, n * elemSize ≤ maxData := fun n hn =>
    le_trans (Nat.mul_le_mul_right _ hn) (Nat.div_mul_le_self _ _)
  refine ends_ite (fun hroom => ?_) fun hroom => hQ _ _ (hdiv _ (le_refl _)) (by omega)
  refine ends_genRange (lt_min hrange hroom) fun n d' _ hn => hQ n d' (hdiv n ?_) ?_
  · exact le_trans (le_of_lt hn) (min_le_right _ _)
  · exact lt_of_lt_of_le hn (min_le_left _ _)

section NumArrayElems

variable {Q : ℕ → Distributions → Prop} {elemSize minElems maxElems maxData : ℕ}

theorem genNumArrayElems_eq_genRange (helem : elemSize ≠ 0) (hfit : maxElems * elemSize ≤ maxData)
    (hmore : (minElems + 1) * elemSize ≤ maxData) :
    genNumArrayElems elemSize minElems maxElems maxData = genRange minElems maxElems := by
  have hpos := pos_of_ne_zero helem
  have hmin : maxData / elemSize > minElems := (Nat.le_div_iff_mul_le hpos).2 hmore
  have hmax : Nat.min maxElems (maxData / elemSize) = maxElems :=
    Nat.min_eq_left ((Nat.le_div_iff_mul_le hpos).2 hfit)
  simp only [genNumArrayElems, check, if_pos helem, if_pos hmin, hmax]
  rfl

theorem genNumArrayElems_eq_pure (helem : elemSize ≠ 0)
    (hless : maxData < (minElems + 1) * elemSize) :
    genNumArrayElems elemSize minElems maxElems maxData = pure (maxData / elemSize) := by
  have hmin : ¬maxData / elemSize > minElems :=
    Nat.not_lt.2 (Nat.lt_succ_iff.1 ((Nat.div_lt_iff_lt_mul (Nat.pos_of_ne_zero helem)).2 hless))
  simp only [genNumArrayElems, check, if_pos helem, if_neg hmin]
  rfl

theorem ends_genRange_ofList {low high n : ℕ} (hlow : low ≤ n) (hhigh : n < high)
    (hQ : ∀ d', Q n d') : Ends (genRange low high) (.ofList [n - low]) Q E := by
  have hnum : low + (n - low) % (high - low) = n := by
    rw [Nat.mod_eq_of_lt (by omega)]
    omega
  simp only [genRange, ends_bind]
  rw [ends_check_of (by omega)]
  show Q (low + (n - low) % (high - low)) _
  rw [hnum]
  exact hQ _

end NumArrayElems

end PrimitiveMutator

end FuzzSocketCan
