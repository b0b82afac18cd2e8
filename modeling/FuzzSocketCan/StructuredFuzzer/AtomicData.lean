import FuzzSocketCan.StructuredFuzzer.GraphStorage
import FuzzSocketCan.StructuredFuzzer.PrimitiveMutator

/-! # Writing data values

`appendGenerate` writes a random value of a data type, `appendMutated` a mutated copy of a given
one. `Target.vecLens` records the lengths of generated vectors, which must fit their two-byte
header.

* **`GraphSpec.Usable`** — the specifications with which neither panics.
* **`ends_appendGenerate`**, **`ends_appendMutated`** — when the storage has room, both append the
  encoding of a value of the type (`AtomicDataType.Encodes`). -/

namespace FuzzSocketCan

open Lib List LawfulGraphStorage PrimitiveMutator

/-- A storage and the random choices. `vecLens`, the lengths of the vectors generated so far, is not
part of the program. -/
structure Target (S : Type) where
  storage : S
  dist : Distributions
  vecLens : List ℕ

abbrev Gen (S : Type) := EStateM Panic (Target S)

variable {S : Type}

def random {α : Type} (m : Dist α) : Gen S α :=
  focus Target.dist (fun d t => { t with dist := d }) m

theorem ends_random {α : Type} {m : Dist α} {t : Target S} {Q : α → Target S → Prop}
    {E : Panic → Target S → Prop} :
    Ends (random m) t Q E ↔
      Ends m t.dist (fun a d => Q a { t with dist := d }) (fun e d => E e { t with dist := d }) :=
  ends_focus _ _ _

def recordVec (n : ℕ) : Gen S PUnit := modify fun t => { t with vecLens := n :: t.vecLens }

section Definitions

variable [GraphStorage S]

/-- `append_data(d).unwrap()`. -/
def storeData (d : List UInt8) : Gen S PUnit := do
  let t ← get
  match GraphStorage.appendData t.storage d with
  | some g => set { t with storage := g }
  | none => throw .unwrapNone

/-- `append_data(d)` with the result dropped. -/
def tryStoreData (d : List UInt8) : Gen S PUnit :=
  modify fun t =>
    match GraphStorage.appendData t.storage d with
    | some g => { t with storage := g }
    | none => t

def reserveData (size : ℕ) : Gen S (List UInt8) := do
  let t ← get
  match GraphStorage.getData t.storage size with
  | some (d, g) => do
      set { t with storage := g }
      pure d
  | none => throw .unwrapNone

def writeSlice (d : List UInt8) : Gen S PUnit :=
  modify fun t => { t with storage := GraphStorage.writeBack t.storage d }

/-- Mutate a buffer `n` times. -/
def mutateTimes : ℕ → DataBuff → Dist DataBuff
  | 0, buf => pure buf
  | n + 1, buf => do
      let buf ← PrimitiveMutator.mutate buf none
      mutateTimes n buf

def generateU64 (generators : List IntGenerator) : Dist (ℕ × Bool) :=
  if generators.isEmpty then do
    let v ← genU64
    pure (v, true)
  else do
    let gen ← genPick generators
    gen.generate

/-- `DataInt::append_generate`. -/
def appendGenerateInt (size : ℕ) (generators : List IntGenerator) : Gen S PUnit := do
  let (int, mutateFurther) ← random (generateU64 generators)
  let bytes := (toLe 8 int).take size
  storeData bytes
  if mutateFurther then do
    let n ← random genU64
    let buf ← random (mutateTimes (n % 4) (.full bytes))
    writeSlice buf.data

def headerBytes (n : ℕ) : List UInt8 :=
  [UInt8.ofNat (n &&& 0xff), UInt8.ofNat (n >>> 8 &&& 0xff)]

/-- The header is the length in bytes. -/
def generateRawVec (sizeRange : ℕ × ℕ) (primitiveSize : ℕ) : Gen S PUnit := do
  let available := GraphStorage.dataAvailable (← get).storage
  check (2 ≤ available) Panic.subtractWithOverflow
  let numElems ← random
    (PrimitiveMutator.genNumArrayElems primitiveSize sizeRange.1 sizeRange.2 (available - 2))
  let size := numElems * primitiveSize
  check (size + 2 ≤ available) Panic.assertionFailed
  let data ← reserveData (size + 2)
  recordVec size
  let buf ← if size > 0 then random (PrimitiveMutator.mutate (.full (data.drop 2)) none)
    else pure (.full (data.drop 2))
  writeSlice (headerBytes size ++ buf.data)

def generateVec (sizeRange : ℕ × ℕ) (primitiveSize : ℕ) (generators : List VecGenerator) :
    Gen S PUnit :=
  if generators.isEmpty then generateRawVec sizeRange primitiveSize
  else do
    let gen ← random (genPick generators)
    let available := GraphStorage.dataAvailable (← get).storage
    check (2 ≤ available) Panic.subtractWithOverflow
    let vec ← random (gen.generate (available - 2))
    let size := vec.length
    check (size + 2 ≤ available) Panic.assertionFailed
    check (primitiveSize ≠ 0) Panic.divideByZero
    check (size % primitiveSize = 0) Panic.assertionFailed
    let count := size / primitiveSize
    let _ ← reserveData 2
    recordVec size
    writeSlice (headerBytes count)
    tryStoreData vec

/-- The fuel bounds the nesting of structs. -/
def appendGenerate (spec : GraphSpec) : ℕ → AtomicDataType → Gen S PUnit
  | _, .int size generators => appendGenerateInt size generators
  | _, .vec sizeRange primitiveSize _ generators => generateVec sizeRange primitiveSize generators
  | 0, .struct .. => throw .stackOverflow
  | fuel + 1, .struct _ fields =>
    forEach fields fun field =>
      match spec.getData field.2 with
      | none => throw .unwrapNone
      | some s => appendGenerate spec fuel s.atomicType

def spliceGenerated (generators : List VecGenerator) (body : List UInt8) : Dist (List UInt8) := do
  let gen ← genPick generators
  let len := body.length
  if len > 1 then do
    let vec ← gen.generate (len - 1)
    if vec.length > 1 then do
      let c ← genU64
      let chunkLen := c % (vec.length - 1)
      let offset ← genRange 0 (len - chunkLen)
      let s ← genU64
      let chunkStart := s % (vec.length - chunkLen)
      let chunk := (vec.drop chunkStart).take chunkLen
      pure (overwrite body offset chunk)
    else pure body
  else pure body

/-- `append_mutated` of integers and structs. -/
def appendMutatedFixed (data : List UInt8) (dict : CustomDict) : Gen S PUnit := do
  storeData data
  let buf ← random (PrimitiveMutator.mutate (.full data) (some dict))
  writeSlice buf.data

/-- `DataVec::append_mutated`. -/
def appendMutatedVec (generators : List VecGenerator) (data : List UInt8) (dict : CustomDict) :
    Gen S PUnit :=
  match data with
  | lo :: hi :: body => do
      check (lo.toNat + hi.toNat <<< 8 + 2 = data.length) Panic.assertionFailed
      storeData data
      let spliced ← if generators.isEmpty then pure false else random shouldMutateSpliceGenerator
      if spliced then do
        let body ← random (spliceGenerated generators body)
        writeSlice (lo :: hi :: body)
      else do
        let buf ← random (PrimitiveMutator.mutate (.full body) (some dict))
        writeSlice (lo :: hi :: buf.data)
  | _ => throw .indexOutOfBounds

def appendMutated (t : AtomicDataType) (data : List UInt8) (dict : CustomDict) : Gen S PUnit :=
  match t with
  | .int .. | .struct .. => appendMutatedFixed data dict
  | .vec _ _ _ generators => appendMutatedVec generators data dict

end Definitions

/-! ## Usable specifications -/

def AtomicDataType.Usable : AtomicDataType → Prop
  | int _ generators => ∀ g ∈ generators, g.Returns
  | vec sizeRange _ _ generators => sizeRange.1 < sizeRange.2 ∧ ∀ g ∈ generators, g.Returns
  | struct .. => True

/-- The elements of a vector take a byte or more. -/
def AtomicDataType.SizedElems : AtomicDataType → Prop
  | vec _ primitiveSize _ _ => primitiveSize ≠ 0
  | int .. | struct .. => True

def AtomicDataType.vecGenerators : AtomicDataType → List VecGenerator
  | vec _ _ _ generators => generators
  | int .. | struct .. => []

variable {ty : AtomicDataType}

theorem AtomicDataType.Usable.vecGenerators (h : ty.Usable) :
    ∀ g ∈ ty.vecGenerators, g.Returns := by
  cases ty with
  | int => simp [AtomicDataType.vecGenerators]
  | vec => exact h.2
  | struct => simp [AtomicDataType.vecGenerators]

/-- Data types are usable, and a node type that can be generated carries a data type which exists
and has no elements of size zero. -/
structure GraphSpec.Usable (spec : GraphSpec) : Prop where
  data : ∀ s ∈ spec.dataSpecs, s.atomicType.Usable
  nodes : ∀ n ∈ spec.nodeSpecs, n.generatable = true → ∀ id ∈ n.data,
    ∃ s, spec.getData id = some s ∧ s.atomicType.SizedElems

/-! ## What is written -/

section Results

variable [GraphStorage S] [LawfulGraphStorage S] {t t' : Target S} {d d' : List UInt8} {m : ℕ}
  {new : List ℕ} {E : Panic → Target S → Prop}

open LawfulGraphStorage (Room)

structure Wrote (t t' : Target S) (d : List UInt8) (m : ℕ) (new : List ℕ) : Prop where
  ops : opsAsSlice t'.storage = opsAsSlice t.storage
  data : dataAsSlice t'.storage = dataAsSlice t.storage ++ d
  lens : t'.vecLens = new ++ t.vecLens
  room : Room t'.storage 0 m
  opsRoom : ∀ n, Room t.storage n 0 → Room t'.storage n 0

theorem Wrote.nil (h : Room t.storage 0 m) : Wrote t t [] m [] :=
  ⟨rfl, (append_nil _).symm, rfl, h, fun _ hn => hn⟩

theorem Wrote.setDist (h : Wrote t t' d m new) (x : Distributions) :
    Wrote t { t' with dist := x } d m new := ⟨h.ops, h.data, h.lens, h.room, h.opsRoom⟩

theorem Wrote.writeSlice (h : Wrote t t' d m new) (hlen : d'.length = d.length) :
    Wrote t { t' with storage := GraphStorage.writeBack t'.storage d' } d' m new := by
  obtain ⟨hops, hdata, hroom⟩ := writeBack_spec d' h.room h.data hlen
  exact ⟨hops.trans h.ops, hdata, h.lens, hroom, fun n hn =>
    (writeBack_spec d' (h.opsRoom n hn) h.data hlen).2.2⟩

theorem Wrote.trans {t'' : Target S} {m' : ℕ} {new' : List ℕ} (h : Wrote t t' d m new)
    (h' : Wrote t' t'' d' m' new') : Wrote t t'' (d ++ d') m' (new' ++ new) :=
  ⟨h'.ops.trans h.ops, by rw [h'.data, h.data, append_assoc],
    by rw [h'.lens, h.lens, append_assoc], h'.room, fun n hn => h'.opsRoom n (h.opsRoom n hn)⟩

variable {Q : PUnit → Target S → Prop}

theorem ends_storeData (hroom : Room t.storage 0 (m + d.length))
    (hQ : ∀ t', Wrote t t' d m [] → Q ⟨⟩ t') : Ends (storeData d) t Q E := by
  obtain ⟨g, hg, hops, hdata, hroom'⟩ := appendData_spec d hroom
  simp only [storeData, ends_bind, ends_get, hg, ends_set]
  exact hQ _ ⟨hops, hdata, rfl, hroom', fun _ => room_of_appendData hroom hg⟩

theorem ends_tryStoreData (hroom : Room t.storage 0 (m + d.length))
    (hQ : ∀ t', Wrote t t' d m [] → Q ⟨⟩ t') : Ends (tryStoreData d) t Q E := by
  obtain ⟨g, hg, hops, hdata, hroom'⟩ := appendData_spec d hroom
  simp only [tryStoreData, ends_modify, hg]
  exact hQ _ ⟨hops, hdata, rfl, hroom', fun _ => room_of_appendData hroom hg⟩

theorem ends_reserveData {Q : List UInt8 → Target S → Prop} {k : ℕ}
    (hroom : Room t.storage 0 (m + k)) (hQ : ∀ d t', d.length = k → Wrote t t' d m [] → Q d t') :
    Ends (reserveData k) t Q E := by
  obtain ⟨d, g, hg, hlen, hops, hdata, hroom'⟩ := getData_spec k hroom
  simp only [reserveData, ends_bind, ends_get, hg, ends_set, ends_pure]
  exact hQ _ _ hlen ⟨hops, hdata, rfl, hroom', fun _ => room_of_getData hroom hg⟩

variable {n : ℕ} {x : Distributions}

omit [GraphStorage S] [LawfulGraphStorage S] in
theorem ends_mutateTimes {Q : DataBuff → Distributions → Prop} {E : Panic → Distributions → Prop}
    {buf : DataBuff} (hQ : ∀ b x', DataBuff.SameSize buf b → Q b x') :
    Ends (mutateTimes n buf) x Q E := by
  induction n generalizing buf x with
  | zero => exact hQ _ _ (DataBuff.SameSize.refl _)
  | succ n ih =>
    rw [mutateTimes, ends_bind]
    refine ends_mutate (fun _ h => nomatch h) fun b x' hb => ?_
    exact ih fun b' x'' hb' => hQ _ _ (hb.trans hb')

variable {generators : List IntGenerator}

omit [GraphStorage S] [LawfulGraphStorage S] in
theorem ends_generateU64 {Q : ℕ × Bool → Distributions → Prop} {E : Panic → Distributions → Prop}
    (hgen : ∀ g ∈ generators, g.Returns) (hQ : ∀ r x', Q r x') :
    Ends (generateU64 generators) x Q E := by
  refine ends_ite (fun _ => hQ _ _) fun hne => ?_
  rw [ends_bind]
  refine ends_genPick (fun h => hne (isEmpty_iff.2 h)) fun g x' hg => ?_
  exact (hgen g hg x').mono (fun r x'' _ => hQ r x'') fun _ _ h => never_elim h

omit [GraphStorage S] [LawfulGraphStorage S] in
theorem ends_generate {Q : List UInt8 → Distributions → Prop} {E : Panic → Distributions → Prop}
    {g : VecGenerator} {maxLen : ℕ} (hgen : g.Returns) (hmax : 1 ≤ maxLen)
    (hQ : ∀ v x', v.length ≤ maxLen → Q v x') : Ends (g.generate maxLen) x Q E := by
  rw [VecGenerator.generate, ends_bind]
  exact (hgen maxLen hmax x).mono (fun v x' _ => hQ _ x' (length_take_le _ _))
    fun _ _ h => never_elim h

theorem ends_appendGenerateInt {size : ℕ} (hgen : ∀ g ∈ generators, g.Returns) (hsize : size ≤ 8)
    (hroom : Room t.storage 0 (m + size))
    (hQ : ∀ t' d, d.length = size → Wrote t t' d m [] → Q ⟨⟩ t') :
    Ends (appendGenerateInt size generators) t Q E := by
  simp only [appendGenerateInt, ends_bind, ends_random]
  refine ends_generateU64 hgen fun r x => ?_
  obtain ⟨int, mutateFurther⟩ := r
  have hlen : ((toLe 8 int).take size).length = size := by
    rw [length_take, length_toLe, min_eq_left hsize]
  refine ends_storeData (by rw [hlen]; exact hroom) fun t1 h1 => ?_
  replace h1 : Wrote t t1 _ m [] := ⟨h1.ops, h1.data, h1.lens, h1.room, h1.opsRoom⟩
  refine ends_ite (fun _ => ?_) fun _ => hQ _ _ hlen h1
  simp only [ends_bind, ends_random]
  refine ends_genU64 fun n x1 => ends_mutateTimes fun b x2 hb => ?_
  have hb' : b.data.length = ((toLe 8 int).take size).length := hb.1
  exact hQ _ _ (hb'.trans hlen) ((h1.setDist x2).writeSlice hb')

theorem vecHeader_headerBytes (n : ℕ) :
    vecHeader (UInt8.ofNat (n &&& 0xff)) (UInt8.ofNat (n >>> 8 &&& 0xff)) = n % 65536 := by
  have hlo : n &&& 0xff = n % 256 := Nat.and_two_pow_sub_one_eq_mod n 8
  have hhi : n >>> 8 &&& 0xff = n / 256 % 256 := by
    rw [Nat.shiftRight_eq_div_pow]; exact Nat.and_two_pow_sub_one_eq_mod (n / 2 ^ 8) 8
  rw [vecHeader_eq, hlo, hhi, UInt8.toNat_ofNat', UInt8.toNat_ofNat']
  omega

theorem encodes_vec {body : List UInt8} (hty : ty.size = .dynamic) (hbody : body.length = n)
    (hn : n < 65536) : ty.Encodes (headerBytes n ++ body) := by
  unfold AtomicDataType.Encodes
  rw [hty]
  exact ⟨_, _, body, rfl, by rw [hbody, vecHeader_headerBytes, Nat.mod_eq_of_lt hn]⟩

variable {sizeRange : ℕ × ℕ}

theorem ends_generateRawVec {primitiveSize : ℕ} {P : ℕ → Prop} (hroom : Room t.storage 0 0)
    (hmin : 2 ≤ GraphStorage.dataAvailable t.storage)
    (hnum : ∀ E, Ends (PrimitiveMutator.genNumArrayElems primitiveSize sizeRange.1 sizeRange.2
      (GraphStorage.dataAvailable t.storage - 2)) t.dist
        (fun num _ => num * primitiveSize ≤ GraphStorage.dataAvailable t.storage - 2 ∧ P num) E)
    (hQ : ∀ num t' body, P num → body.length = num * primitiveSize →
      Wrote t t' (headerBytes (num * primitiveSize) ++ body) 0 [num * primitiveSize] → Q ⟨⟩ t') :
    Ends (generateRawVec sizeRange primitiveSize) t Q E := by
  simp only [generateRawVec, ends_bind, ends_get, ends_random]
  rw [ends_check_of hmin]
  refine (hnum _).weaken fun num x hnum => ?_
  obtain ⟨hfits, hP⟩ := hnum
  set size := num * primitiveSize with hsize
  rw [ends_check_of (by omega)]
  refine ends_reserveData (m := 0) ?_ fun data t1 hlen h1 => ?_
  · refine room_of_available hroom (Nat.zero_le _) ?_
    show _ ≤ GraphStorage.dataAvailable t.storage
    omega
  -- the bytes behind the header, mutated or not, are as many as before
  have hfinish : ∀ (t2 : Target S) (buf : DataBuff), buf.data.length = size →
      Wrote t t2 data 0 [size] → Ends (writeSlice (headerBytes size ++ buf.data)) t2 Q E := by
    intro t2 buf hbuf h2
    refine hQ num _ _ hP hbuf (h2.writeSlice ?_)
    rw [length_append, hbuf, hlen, add_comm]; rfl
  have h2 : Wrote t { t1 with vecLens := size :: t1.vecLens } data 0 [size] :=
    ⟨h1.ops, h1.data, congrArg (size :: ·) h1.lens, h1.room, h1.opsRoom⟩
  have hbody : (data.drop 2).length = size := by rw [length_drop, hlen, Nat.add_sub_cancel]
  refine ends_ite (fun _ => ?_) fun _ => hfinish _ _ hbody h2
  rw [ends_bind, ends_random]
  refine ends_mutate ?_ fun b x' hb => ?_
  · rintro _ ⟨⟩
  · exact hfinish _ b (hb.1.trans hbody) (h2.setDist x')

theorem ends_generateVec_bytes {generators : List VecGenerator} {P : List UInt8 → Prop}
    (hne : generators.isEmpty = false) (hroom : Room t.storage 0 0)
    (hmin : 2 ≤ GraphStorage.dataAvailable t.storage)
    (hgen : Ends (genPick generators) t.dist (fun g x => Ends
      (g.generate (GraphStorage.dataAvailable t.storage - 2)) x (fun vec _ =>
        vec.length ≤ GraphStorage.dataAvailable t.storage - 2 ∧ P vec) never) never)
    (hQ : ∀ t' vec, P vec → Wrote t t' (headerBytes vec.length ++ vec) 0 [vec.length] → Q ⟨⟩ t') :
    Ends (generateVec sizeRange 1 generators) t Q E := by
  unfold generateVec
  rw [if_neg (Bool.eq_false_iff.1 hne)]
  simp only [ends_bind, ends_get, ends_random]
  refine hgen.mono (fun g x hg => ?_) fun _ _ h => never_elim h
  rw [ends_check_of hmin]
  refine hg.mono (fun vec x1 hvec => ?_) fun _ _ h => never_elim h
  obtain ⟨hfits, hP⟩ := hvec
  rw [ends_check_of (by omega), ends_check_of one_ne_zero, ends_check_of (Nat.mod_one _),
    Nat.div_one]
  refine ends_reserveData (m := vec.length) ?_ fun data t1 hlen h1 => ?_
  · refine room_of_available hroom (Nat.zero_le _) ?_
    show _ ≤ GraphStorage.dataAvailable t.storage
    omega
  have h2 : Wrote t { t1 with vecLens := vec.length :: t1.vecLens } data vec.length [vec.length] :=
    ⟨h1.ops, h1.data, congrArg (vec.length :: ·) h1.lens, h1.room, h1.opsRoom⟩
  have hheader : (headerBytes vec.length).length = data.length := by rw [hlen]; rfl
  have h3 := h2.writeSlice hheader
  simp only [recordVec, writeSlice, ends_modify]
  refine ends_tryStoreData (m := 0) (by rw [zero_add]; exact h3.room) fun t4 h4 => ?_
  exact hQ _ vec hP (h3.trans h4)

def VecWritten (t t' : Target S) (ty : AtomicDataType) : Prop :=
  ∃ d size, Wrote t t' d 0 [size] ∧ (size < 65536 → ty.Encodes d)

theorem ends_generateVec {primitiveSize : ℕ} {generators : List VecGenerator}
    (hty : ty.size = .dynamic) (hrange : sizeRange.1 < sizeRange.2) (hprim : primitiveSize ≠ 0)
    (hgen : ∀ g ∈ generators, g.Returns) (hbytes : generators.isEmpty = false → primitiveSize = 1)
    (hroom : Room t.storage 0 0) (hlt : 2 < GraphStorage.dataAvailable t.storage)
    (hQ : ∀ t', VecWritten t t' ty → Q ⟨⟩ t') :
    Ends (generateVec sizeRange primitiveSize generators) t Q E := by
  have hmin := le_of_lt hlt
  cases hempty : generators.isEmpty with
  | true =>
    unfold generateVec
    rw [if_pos hempty]
    refine ends_generateRawVec (P := fun _ => True) hroom hmin ?_ ?_
    · intro E
      exact ends_genNumArrayElems hprim hrange fun _ _ hle _ => ⟨hle, trivial⟩
    · intro num t' body _ hbody hw
      exact hQ t' ⟨_, _, hw, encodes_vec hty hbody⟩
  | false =>
    obtain rfl := hbytes hempty
    refine ends_generateVec_bytes (P := fun _ => True) hempty hroom hmin ?_ ?_
    · refine ends_genPick (fun h => by rw [h] at hempty; cases hempty) fun g x hg => ?_
      exact ends_generate (hgen g hg) (Nat.le_sub_of_add_le' hlt) fun _ _ hle => ⟨hle, trivial⟩
    · intro t' vec _ hw
      exact hQ t' ⟨_, _, hw, encodes_vec hty rfl⟩

variable {spec : GraphSpec}

theorem GraphSpec.field_ok {i id : ℕ} (h : fieldSize (spec.dataSpecs.take i) id = .ok n) :
    id < i ∧ ∃ s, spec.getData id = some s ∧ s.atomicType.size = .fixed n ∧
      s.atomicType.Ok (spec.dataSpecs.take id) := by
  obtain ⟨s, hs, hsize⟩ := fieldSize_eq_ok.1 h
  have hid : id < i := by
    by_contra hge
    rw [getElem?_eq_none (by rw [length_take]; omega)] at hs
    cases hs
  rw [getElem?_take_of_lt hid] at hs
  exact ⟨hid, s, hs, hsize, GraphSpec.getData_ok hs⟩

theorem ends_appendGenerate_fixed (hspec : spec.Usable) {fuel i size : ℕ} (hfuel : i < fuel)
    (hok : ty.Ok (spec.dataSpecs.take i)) (husable : ty.Usable) (hsize : ty.size = .fixed size)
    (hroom : Room t.storage 0 (m + size))
    (hQ : ∀ t' d, d.length = size → Wrote t t' d m [] → Q ⟨⟩ t') :
    Ends (appendGenerate spec fuel ty) t Q E := by
  induction fuel generalizing i size ty t m Q with
  | zero => omega
  | succ fuel ih =>
    cases ty with
    | int sz generators =>
      obtain rfl := AtomicSize.fixed.inj hsize
      have hle : sz ≤ 8 := by
        obtain rfl | rfl | rfl | rfl : sz = 1 ∨ sz = 2 ∨ sz = 4 ∨ sz = 8 := hok <;> decide
      exact ends_appendGenerateInt husable hle hroom hQ
    | vec => cases hsize
    | struct sz fields =>
      obtain rfl := AtomicSize.fixed.inj hsize
      -- the fields still to be written take what is left of the size
      let I : List (String × AtomicTypeID) → Target S → Prop := fun rest t' =>
        ∃ d k, structSize (spec.dataSpecs.take i) rest = .ok k ∧ d.length + k = sz ∧
          Wrote t t' d (m + k) []
      have hstart : I fields t := ⟨[], sz, hok, by simp, Wrote.nil hroom⟩
      refine (ends_forEach (I := I) hstart ?_).weaken fun _ t' hend => ?_
      · rintro f rest t1 ⟨d, k, hk, hlen, hw⟩
        obtain ⟨n, k', hn, hk', rfl⟩ := structSize_cons_eq_ok.1 hk
        obtain ⟨hid, s, hs, hsz, hsok⟩ := GraphSpec.field_ok hn
        have hroom1 : Room t1.storage 0 (m + k' + n) := by
          have := hw.room
          rwa [add_comm n k', ← add_assoc] at this
        simp only [hs]
        refine ih (by omega) hsok (hspec.data s (mem_of_getElem? hs)) hsz hroom1 ?_
        intro t2 d2 hd2 hw2
        exact ⟨d ++ d2, k', hk', by rw [length_append]; omega, hw.trans hw2⟩
      · obtain ⟨d, k, hk, hlen, hw⟩ := hend
        obtain rfl : k = 0 := (Except.ok.inj hk).symm
        exact hQ t' d hlen hw

theorem ends_appendGenerate (hspec : spec.Usable) {id : AtomicTypeID} {s : AtomicSpec}
    (hs : spec.getData id = some s) (hsized : s.atomicType.SizedElems) (hroom : Room t.storage 0 0)
    (hmin : s.atomicType.minDataSize < GraphStorage.dataAvailable t.storage)
    (hQ : ∀ t' d new, Wrote t t' d 0 new →
      ((∀ n ∈ new, n < 65536) → s.atomicType.Encodes d) → Q ⟨⟩ t') :
    Ends (appendGenerate spec (spec.dataSpecs.length + 1) s.atomicType) t Q E := by
  have hid : id < spec.dataSpecs.length := (List.getElem?_eq_some_iff.1 hs).1
  have hok := GraphSpec.getData_ok hs
  have husable := hspec.data s (mem_of_getElem? hs)
  cases hsize : s.atomicType.size with
  | fixed size =>
    rw [AtomicDataType.minDataSize, hsize] at hmin
    have hroom' : Room t.storage 0 (0 + size) := by
      rw [zero_add]
      exact room_of_available hroom (Nat.zero_le _) (Nat.le_of_lt hmin)
    refine ends_appendGenerate_fixed hspec (Nat.lt_succ_of_lt hid) hok husable hsize hroom' ?_
    intro t' d hd hw
    refine hQ t' d [] hw fun _ => ?_
    unfold AtomicDataType.Encodes
    rw [hsize]
    exact hd
  | dynamic =>
    rw [AtomicDataType.minDataSize, hsize] at hmin
    cases hty : s.atomicType with
    | int => rw [hty] at hsize; cases hsize
    | struct => rw [hty] at hsize; cases hsize
    | vec sizeRange prim dtype generators =>
      rw [hty] at hok husable hsized
      obtain ⟨hrange, hgen⟩ := husable
      -- generators are attached to byte vectors only
      have hbytes : generators.isEmpty = false → prim = 1 := by
        intro hne
        obtain ⟨e, he, hsz⟩ := fieldSize_eq_ok.1 hok.1
        have hu8 := hok.2 hne e he
        cases hel : e.atomicType with
        | int n g =>
          rw [hel] at hu8 hsz
          rw [← AtomicSize.fixed.inj hsz]
          exact beq_iff_eq.1 hu8
        | vec => rw [hel] at hu8; cases hu8
        | struct => rw [hel] at hu8; cases hu8
      refine ends_generateVec (show s.atomicType.size = .dynamic from hsize) hrange hsized hgen
        hbytes hroom hmin ?_
      rintro t' ⟨d, size, hw, henc⟩
      exact hQ t' d [size] hw fun h => henc (h size (mem_singleton_self _))

/-! ## Mutated copies -/

theorem ends_appendMutatedFixed {dict : CustomDict} (hdict : dict.Valid)
    (hroom : Room t.storage 0 (m + d.length))
    (hQ : ∀ t' d', d'.length = d.length → Wrote t t' d' m [] → Q ⟨⟩ t') :
    Ends (appendMutatedFixed d dict) t Q E := by
  simp only [appendMutatedFixed, ends_bind]
  refine ends_storeData hroom fun t1 h1 => ?_
  rw [ends_random]
  refine ends_mutate (fun c hc => Option.some.inj hc ▸ hdict) fun b x hb => ?_
  exact hQ _ b.data hb.1 ((h1.setDist x).writeSlice hb.1)

omit [GraphStorage S] [LawfulGraphStorage S] in
theorem ends_spliceGenerated {Q : List UInt8 → Distributions → Prop}
    {E : Panic → Distributions → Prop} {generators : List VecGenerator} {body : List UInt8}
    (hne : generators ≠ []) (hgen : ∀ g ∈ generators, g.Returns)
    (hQ : ∀ b x', b.length = body.length → Q b x') :
    Ends (spliceGenerated generators body) x Q E := by
  simp only [spliceGenerated, ends_bind]
  refine ends_genPick hne fun g x1 hg => ends_ite (fun hlen => ?_) fun _ => hQ _ _ rfl
  rw [ends_bind]
  refine ends_generate (hgen g hg) (by omega) fun vec x2 hvec =>
    ends_ite (fun hv => ?_) fun _ => hQ _ _ rfl
  simp only [ends_bind, ends_pure]
  refine ends_genU64 fun c x3 => ?_
  have hchunk : c % (vec.length - 1) < vec.length - 1 := Nat.mod_lt _ (by omega)
  refine ends_genRange (by omega) fun offset x4 _ hoff => ends_genU64 fun s x₅ => hQ _ _ ?_
  refine length_overwrite ?_
  rw [length_take]
  omega

structure AtomicDataType.SameLayout (ty : AtomicDataType) (d d' : List UInt8) : Prop where
  length : d'.length = d.length
  header : ty.size = .dynamic → d'.take 2 = d.take 2

theorem AtomicDataType.SameLayout.encodes (h : ty.SameLayout d d') (henc : ty.Encodes d) :
    ty.Encodes d' := by
  unfold AtomicDataType.Encodes at henc ⊢
  cases hsize : ty.size with
  | fixed n =>
    rw [hsize] at henc
    exact h.length.trans henc
  | dynamic =>
    rw [hsize] at henc
    obtain ⟨lo, hi, body, rfl, hbody⟩ := henc
    have hlen := h.length
    have hheader := h.header hsize
    rcases d' with _ | ⟨a, _ | ⟨b, body'⟩⟩
    · cases hlen
    · cases hlen
    · simp only [take_succ_cons, take_zero, cons.injEq, and_true] at hheader
      obtain ⟨rfl, rfl⟩ := hheader
      simp only [length_cons, add_right_cancel_iff] at hlen
      exact ⟨a, b, body', rfl, hlen.trans hbody⟩

theorem ends_appendMutated {dict : CustomDict} (hgen : ∀ g ∈ ty.vecGenerators, g.Returns)
    (hdict : dict.Valid) (henc : ty.Encodes d) (hroom : Room t.storage 0 (m + d.length))
    (hQ : ∀ t' d', ty.SameLayout d d' → Wrote t t' d' m [] → Q ⟨⟩ t') :
    Ends (appendMutated ty d dict) t Q E := by
  cases ty with
  | int =>
    refine ends_appendMutatedFixed hdict hroom fun t' d' hlen hw => hQ t' d' ⟨hlen, ?_⟩ hw
    rintro ⟨⟩
  | struct =>
    refine ends_appendMutatedFixed hdict hroom fun t' d' hlen hw => hQ t' d' ⟨hlen, ?_⟩ hw
    rintro ⟨⟩
  | vec sizeRange prim dtype generators =>
    obtain ⟨lo, hi, body, rfl, hbody⟩ := henc
    have hheader : lo.toNat + hi.toNat <<< 8 + 2 = (lo :: hi :: body).length := by
      rw [length_cons, length_cons, hbody, vecHeader_eq, Nat.shiftLeft_eq]
      omega
    simp only [appendMutated, appendMutatedVec, ends_bind]
    rw [ends_check_of hheader]
    refine ends_storeData hroom fun t1 h1 => ?_
    -- whichever way the content was changed, its length and the header stay
    have hfinish : ∀ (t2 : Target S) (b : List UInt8), b.length = body.length →
        Wrote t t2 (lo :: hi :: body) m [] → Ends (writeSlice (lo :: hi :: b)) t2 Q E := by
      intro t2 b hb h2
      have hlen : (lo :: hi :: b).length = (lo :: hi :: body).length := by
        rw [length_cons, length_cons, hb]; rfl
      exact hQ _ _ ⟨hlen, fun _ => rfl⟩ (h2.writeSlice hlen)
    have hplain : ∀ t2 : Target S, Wrote t t2 (lo :: hi :: body) m [] →
        Ends (do let buf ← random (mutate (.full body) (some dict))
                 writeSlice (lo :: hi :: buf.data)) t2 Q E := by
      intro t2 h2
      rw [ends_bind, ends_random]
      refine ends_mutate (fun c hc => Option.some.inj hc ▸ hdict) fun b x hb => ?_
      exact hfinish _ b.data hb.1 (h2.setDist x)
    refine ends_ite (fun _ => hplain t1 h1) fun hne => ?_
    rw [ends_bind, ends_random]
    refine ends_shouldMutateSpliceGenerator fun spliced x => ?_
    refine ends_ite (fun _ => ?_) fun _ => hplain _ (h1.setDist x)
    rw [ends_bind, ends_random]
    refine ends_spliceGenerated (fun h => hne (isEmpty_iff.2 h)) hgen fun b x' hb => ?_
    exact hfinish _ b hb ((h1.setDist x).setDist x')

end Results

end FuzzSocketCan
