import FuzzSocketCan.StructuredFuzzer.AtomicData
import FuzzSocketCan.StructuredFuzzer.RegexTotality

/-! # The meaning of a vector header

`append_generate` writes two bytes in front of a vector, `NodeIter` and `append_mutated` read them
as a number of bytes, `data_inspect` as a number of elements.

* **`vecAgrees_iff`** — the readings agree on a type exactly if its elements take one byte and its
  vectors stay below 65536 bytes, or if its vectors are all empty. -/

namespace FuzzSocketCan

open Lib List GraphSpec PrimitiveMutator

/-! ## Printing data -/

def hexPad (width n : ℕ) : String :=
  let digits := Nat.toDigits 16 n
  String.ofList (List.replicate (width - digits.length) '0' ++ digits)

def escapeDefault (b : UInt8) : String :=
  if b = 9 then "\\t"
  else if b = 13 then "\\r"
  else if b = 10 then "\\n"
  else if b = 39 then "\\'"
  else if b = 34 then "\\\""
  else if b = 92 then "\\\\"
  else if 0x20 ≤ b ∧ b ≤ 0x7e then String.singleton (Char.ofNat b.toNat)
  else "\\x" ++ hexPad 2 b.toNat

def dataInspectInt (size : ℕ) (data : List UInt8) : Except Panic String :=
  if size = 1 ∨ size = 2 ∨ size = 4 ∨ size = 8 then
    if data.length = size then .ok ("0x" ++ hexPad (2 * size) (ofLe data)) else .error .unwrapNone
  else .error .invalidIntegerSize

def dataInspectVec (inspect : AtomicDataType → List UInt8 → Except Panic String)
    (primitiveSize : ℕ) (element : AtomicDataType) (data : List UInt8) : Except Panic String :=
  match data with
  | lo :: hi :: body =>
    let vecsize := vecHeader lo hi
    if element.isU8 then
      if vecsize = body.length then .ok ("\"" ++ String.join (body.map escapeDefault) ++ "\"")
      else .error .assertionFailed
    else if body.length ≠ vecsize * primitiveSize then .error .assertionFailed
    else if primitiveSize = 0 then .error .divideByZero
    else if body.length % primitiveSize ≠ 0 then .error .assertionFailed
    else do
      let parts ← (List.range (body.length / primitiveSize)).mapM fun i =>
        inspect element ((body.drop (i * primitiveSize)).take primitiveSize)
      .ok ("[" ++ String.join (parts.map (· ++ ", ")) ++ "]")
  | _ => .error .indexOutOfBounds

def dataInspectFields (spec : GraphSpec)
    (inspect : AtomicDataType → List UInt8 → Except Panic String) (data : List UInt8) :
    ℕ → List (String × AtomicTypeID) → Except Panic String
  | _, [] => .ok ""
  | i, (name, id) :: fields =>
    match spec.getData id with
    | none => .error .unwrapNone
    | some atom =>
      match atom.atomicType.size with
      | .dynamic => .error .dynamicSize
      | .fixed size =>
        if i + size ≤ data.length then do
          let value ← inspect atom.atomicType ((data.drop i).take size)
          let rest ← dataInspectFields spec inspect data (i + size) fields
          .ok (name ++ ": " ++ value ++ ",\\l " ++ rest)
        else .error .indexOutOfBounds

/-- The fuel bounds the nesting of types. -/
def dataInspect (spec : GraphSpec) : ℕ → AtomicDataType → List UInt8 → Except Panic String
  | _, .int size _, data => dataInspectInt size data
  | 0, .vec .., _ => .error .stackOverflow
  | 0, .struct .., _ => .error .stackOverflow
  | fuel + 1, .vec _ primitiveSize dtype _, data =>
    match spec.getData dtype with
    | none => .error .unwrapNone
    | some atom => dataInspectVec (dataInspect spec fuel) primitiveSize atom.atomicType data
  | fuel + 1, .struct _ fields, data => do
      let body ← dataInspectFields spec (dataInspect spec fuel) data 0 fields
      .ok ("\x7b\\l" ++ body ++ "\x7d")

variable {spec : GraphSpec}

theorem dataInspectFields_ok {inspect : AtomicDataType → List UInt8 → Except Panic String}
    {specs : List AtomicSpec} {data : List UInt8} {fields : List (String × AtomicTypeID)} {i k : ℕ}
    (hinspect : ∀ id n, fieldSize specs id = .ok n → ∃ atom, spec.getData id = some atom ∧
      atom.atomicType.size = .fixed n ∧
        ∀ d : List UInt8, d.length = n → ∃ s, inspect atom.atomicType d = .ok s)
    (hsize : structSize specs fields = .ok k) (hlen : i + k ≤ data.length) :
    ∃ s, dataInspectFields spec inspect data i fields = .ok s := by
  induction fields generalizing i k with
  | nil => exact ⟨_, rfl⟩
  | cons f fields ih =>
    obtain ⟨n, m, hn, hm, rfl⟩ := structSize_cons_eq_ok.1 hsize
    obtain ⟨atom, hatom, hfixed, hprint⟩ := hinspect f.2 n hn
    obtain ⟨value, hvalue⟩ := hprint ((data.drop i).take n) (by
      rw [length_take, length_drop]
      omega)
    obtain ⟨rest, hrest⟩ := ih (i := i + n) hm (by omega)
    simp only [dataInspectFields, hatom, hfixed, if_pos (show i + n ≤ data.length by omega),
      hvalue, hrest]
    exact ⟨_, rfl⟩

theorem dataInspect_fixed {fuel i size : ℕ} {ty : AtomicDataType} {data : List UInt8}
    (hfuel : i < fuel) (hok : ty.Ok (spec.dataSpecs.take i)) (hsize : ty.size = .fixed size)
    (hdata : data.length = size) : ∃ s, dataInspect spec fuel ty data = .ok s := by
  induction fuel generalizing i size ty data with
  | zero => omega
  | succ fuel ih =>
    cases ty with
    | int sz generators =>
      obtain rfl := AtomicSize.fixed.inj hsize
      have hint : sz = 1 ∨ sz = 2 ∨ sz = 4 ∨ sz = 8 := hok
      rw [dataInspect, dataInspectInt, if_pos hint, if_pos hdata]
      exact ⟨_, rfl⟩
    | vec => cases hsize
    | struct sz fields =>
      obtain rfl := AtomicSize.fixed.inj hsize
      have hinspect : ∀ id n, fieldSize (spec.dataSpecs.take i) id = .ok n →
          ∃ atom, spec.getData id = some atom ∧ atom.atomicType.size = .fixed n ∧
            ∀ d : List UInt8, d.length = n →
              ∃ s, dataInspect spec fuel atom.atomicType d = .ok s := by
        intro id n hn
        obtain ⟨hid, atom, hatom, hfixed, hatomok⟩ := field_ok hn
        exact ⟨atom, hatom, hfixed, fun d hd => ih (by omega) hatomok hfixed hd⟩
      obtain ⟨body, hbody⟩ := dataInspectFields_ok (i := 0) hinspect hok
        (show 0 + sz ≤ data.length by omega)
      rw [dataInspect, hbody]
      exact ⟨_, rfl⟩

/-! ## Where the readings agree -/

/-- `NodeIter` takes exactly these bytes as the data of a node of the type, the assertion of
`append_mutated` holds and `data_inspect` returns. -/
structure SelfDelimiting (spec : GraphSpec) (id : AtomicTypeID) (ty : AtomicDataType)
    (d : List UInt8) : Prop where
  taken : ∀ nodeId nType, spec.getNode nodeId = some nType → nType.data = some id →
    ∀ opI operands ops rest, operands.length = nType.size →
      NodeIter.next spec ⟨opI, nodeId :: operands ++ ops, d ++ rest⟩ =
        .ok (some (⟨nodeId, opI, nodeId :: operands, d⟩, ⟨opI + (1 + nType.size), ops, rest⟩))
  mutates : ∃ lo hi body, d = lo :: hi :: body ∧ lo.toNat + hi.toNat <<< 8 + 2 = d.length
  prints : ∃ s, dataInspect spec (spec.dataSpecs.length + 1) ty d = .ok s

/-- With room for the header and a byte, `append_generate` returns, and appends bytes on which the
readers agree. The builder generates nothing into less room: the storage counts as full then. -/
def VecAgrees (spec : GraphSpec) (id : AtomicTypeID) (ty : AtomicDataType) : Prop :=
  ∀ (S : Type) [GraphStorage S] [LawfulGraphStorage S] (t : Target S),
    LawfulGraphStorage.Room t.storage 0 0 → 2 < GraphStorage.dataAvailable t.storage →
      Ends (appendGenerate spec (spec.dataSpecs.length + 1) ty) t (fun _ t' =>
        ∃ d, dataAsSlice t'.storage = dataAsSlice t.storage ++ d ∧ SelfDelimiting spec id ty d)
        never

/-- The elements take one byte and the vectors are shorter than 65536, or the vectors are all empty.
Generators must return and stay below 65536 bytes. -/
def HeaderFits (sizeRange : ℕ × ℕ) (primitiveSize : ℕ) (generators : List VecGenerator) : Prop :=
  if generators.isEmpty then
    primitiveSize ≠ 0 ∧ (sizeRange.2 ≤ 1 ∨ primitiveSize = 1 ∧ sizeRange.2 ≤ 65536)
  else
    ∀ maxLen, 1 ≤ maxLen → ∀ x, Ends (genPick generators) x
      (fun g x => Ends (g.generate maxLen) x (fun vec _ => vec.length < 65536) never) never

theorem mapM_ok {α β : Type} {f : α → Except Panic β} {l : List α} (h : ∀ a ∈ l, ∃ b, f a = .ok b) :
    ∃ bs, l.mapM f = .ok bs := by
  induction l with
  | nil => exact ⟨[], rfl⟩
  | cons a l ih =>
    obtain ⟨b, hb⟩ := h a mem_cons_self
    obtain ⟨bs, hbs⟩ := ih fun a' ha' => h a' (mem_cons_of_mem _ ha')
    refine ⟨b :: bs, ?_⟩
    rw [mapM_cons, hb, hbs]
    rfl

section Readers

variable {id : AtomicTypeID} {s : AtomicSpec} {sizeRange : ℕ × ℕ} {prim : ℕ} {dtype : AtomicTypeID}
  {generators : List VecGenerator}

theorem GraphSpec.element_ok (hs : spec.getData id = some s)
    (hty : s.atomicType = .vec sizeRange prim dtype generators) :
    dtype < id ∧ ∃ atom, spec.getData dtype = some atom ∧ atom.atomicType.size = .fixed prim ∧
      atom.atomicType.Ok (spec.dataSpecs.take dtype) := by
  have hok := getData_ok hs
  rw [hty] at hok
  exact field_ok hok.1

theorem AtomicDataType.eq_one_of_isU8 {ty : AtomicDataType} {n : ℕ} (hu8 : ty.isU8 = true)
    (hsize : ty.size = .fixed n) : n = 1 := by
  cases ty with
  | int sz g =>
    rw [← AtomicSize.fixed.inj hsize]
    exact beq_iff_eq.1 hu8
  | vec => cases hu8
  | struct => cases hu8

theorem headerBytes_value (n : ℕ) :
    (UInt8.ofNat (n &&& 0xff)).toNat + (UInt8.ofNat (n >>> 8 &&& 0xff)).toNat <<< 8 = n % 65536 := by
  rw [← vecHeader_headerBytes n, vecHeader_eq, Nat.shiftLeft_eq]
  omega

theorem dataInspect_vec (hs : spec.getData id = some s)
    (hty : s.atomicType = .vec sizeRange prim dtype generators) (hprim : prim ≠ 0)
    {body : List UInt8} (hlen : body.length < 65536) :
    (∃ str, dataInspect spec (spec.dataSpecs.length + 1) s.atomicType
      (headerBytes body.length ++ body) = .ok str) ↔ body.length = 0 ∨ prim = 1 := by
  obtain ⟨hlt, atom, hatom, hfixed, hok⟩ := GraphSpec.element_ok hs hty
  have hid : id < spec.dataSpecs.length := (List.getElem?_eq_some_iff.1 hs).1
  rw [hty, dataInspect]
  simp only [hatom, headerBytes, dataInspectVec, cons_append, nil_append,
    vecHeader_headerBytes, Nat.mod_eq_of_lt hlen]
  by_cases hu8 : atom.atomicType.isU8 = true
  · -- Bytes are printed as a string; the header is the number of bytes either way.
    simp [hu8, AtomicDataType.eq_one_of_isU8 hu8 hfixed]
  · rw [if_neg hu8]
    by_cases hcount : body.length = body.length * prim
    · rw [if_neg (not_not.mpr hcount), if_neg hprim]
      have hone : body.length = 0 ∨ prim = 1 := by
        rcases eq_zero_or_pos body.length with h | h
        · exact .inl h
        · exact .inr (Nat.eq_of_mul_eq_mul_left h (by omega))
      have hmod : body.length % prim = 0 := by
        rw [hcount]
        exact Nat.mul_mod_left _ _
      rw [if_neg (not_not.mpr hmod)]
      refine iff_of_true ?_ hone
      obtain ⟨parts, hparts⟩ := mapM_ok (l := range (body.length / prim))
        (f := fun i => dataInspect spec spec.dataSpecs.length atom.atomicType
          ((body.drop (i * prim)).take prim)) (by
        intro i hi
        rw [mem_range] at hi
        have hfit : i * prim + prim ≤ body.length := by
          calc i * prim + prim = (i + 1) * prim := by rw [Nat.succ_mul]
            _ ≤ body.length / prim * prim := Nat.mul_le_mul_right _ hi
            _ ≤ body.length := Nat.div_mul_le_self _ _
        refine dataInspect_fixed (lt_trans hlt hid) hok hfixed ?_
        rw [length_take, length_drop]
        omega)
      rw [hparts]
      exact ⟨_, rfl⟩
    · rw [if_pos hcount]
      refine iff_of_false ?_ ?_
      · rintro ⟨str, hstr⟩
        cases hstr
      · rintro (h | h)
        · exact hcount (by rw [h, Nat.zero_mul])
        · exact hcount (by rw [h, mul_one])

theorem selfDelimiting_iff (hs : spec.getData id = some s)
    (hty : s.atomicType = .vec sizeRange prim dtype generators) (hprim : prim ≠ 0)
    (body : List UInt8) :
    SelfDelimiting spec id s.atomicType (headerBytes body.length ++ body) ↔
      body.length < 65536 ∧ (body.length = 0 ∨ prim = 1) := by
  constructor
  · rintro ⟨-, ⟨lo, hi, body', hd, hlen⟩, hprints⟩
    have hfits : body.length < 65536 := by
      obtain ⟨rfl, rfl, rfl⟩ := hd
      rw [headerBytes_value] at hlen
      simp only [headerBytes, length_append, length_cons, length_nil] at hlen
      omega
    exact ⟨hfits, (dataInspect_vec hs hty hprim hfits).mp hprints⟩
  · rintro ⟨hfits, hone⟩
    refine ⟨?_, ⟨_, _, body, rfl, ?_⟩, (dataInspect_vec hs hty hprim hfits).mpr hone⟩
    · intro nodeId nType hnode hdata opI operands ops rest hoperands
      have hdynamic : s.atomicType.size = .dynamic := by rw [hty]; rfl
      have hisnode : (⟨nodeId, opI, nodeId :: operands, headerBytes body.length ++ body⟩ :
          GraphNode).IsNode spec := by
        refine ⟨nType, operands, hnode, rfl, hoperands, ?_⟩
        rw [NodeSpec.Encodes, hdata]
        exact ⟨s, hs, encodes_vec hdynamic rfl hfits⟩
      have hnext := NodeIter.next_append hisnode opI ops rest
      rwa [length_cons, hoperands, add_comm nType.size 1] at hnext
    · rw [headerBytes_value, Nat.mod_eq_of_lt hfits]
      simp [headerBytes]

def freeBytes (n : ℕ) (x : Distributions) : Target RefGraph := ⟨⟨[], 0, List.replicate n 0, 0⟩, x, []⟩

theorem room_freeBytes (n : ℕ) (x : Distributions) :
    LawfulGraphStorage.Room (freeBytes n x).storage 0 0 := ⟨Nat.le_refl _, Nat.zero_le _⟩

theorem dataAvailable_freeBytes (n : ℕ) (x : Distributions) :
    GraphStorage.dataAvailable (freeBytes n x).storage = n := by
  show (replicate n (0 : UInt8)).length - 0 = n
  rw [length_replicate, Nat.sub_zero]

theorem GraphSpec.prim_eq_one (hs : spec.getData id = some s)
    (hty : s.atomicType = .vec sizeRange prim dtype generators)
    (hne : generators.isEmpty = false) : prim = 1 := by
  have hok := getData_ok hs
  rw [hty] at hok
  obtain ⟨e, he, hsize⟩ := fieldSize_eq_ok.1 hok.1
  exact AtomicDataType.eq_one_of_isU8 (hok.2 hne e he) hsize

theorem vecAgrees_of_headerFits (hs : spec.getData id = some s)
    (hty : s.atomicType = .vec sizeRange prim dtype generators) (hrange : sizeRange.1 < sizeRange.2)
    (hfits : HeaderFits sizeRange prim generators) : VecAgrees spec id s.atomicType := by
  intro S _ _ t hroom hlt
  have hmin := le_of_lt hlt
  have happend : appendGenerate (S := S) spec (spec.dataSpecs.length + 1) s.atomicType =
      generateVec sizeRange prim generators := by
    rw [hty]
    rfl
  rw [happend]
  rw [HeaderFits] at hfits
  cases hempty : generators.isEmpty with
  | true =>
    rw [if_pos hempty] at hfits
    obtain ⟨hprim, hsmall⟩ := hfits
    rw [generateVec, if_pos hempty]
    refine ends_generateRawVec (P := fun num => num < sizeRange.2) hroom hmin ?_ ?_
    · intro E
      exact ends_genNumArrayElems hprim hrange fun _ _ hle hlt => ⟨hle, hlt⟩
    · intro num t' body hnum hbody hw
      refine ⟨_, hw.data, ?_⟩
      rw [← hbody, selfDelimiting_iff hs hty hprim, hbody]
      rcases hsmall with hone | ⟨rfl, hmax⟩
      · obtain rfl : num = 0 := by omega
        rw [Nat.zero_mul]
        exact ⟨by decide, .inl rfl⟩
      · exact ⟨by omega, .inr rfl⟩
  | false =>
    rw [if_neg (by rw [hempty]; exact Bool.false_ne_true)] at hfits
    obtain rfl := prim_eq_one hs hty hempty
    refine ends_generateVec_bytes (P := fun vec => vec.length < 65536) hempty hroom hmin ?_ ?_
    · refine (hfits (GraphStorage.dataAvailable t.storage - 2) (Nat.le_sub_of_add_le' hlt)
        t.dist).weaken fun g x hg => ?_
      rw [VecGenerator.generate, ends_bind] at hg ⊢
      exact hg.weaken fun vec x' hlen => ⟨length_take_le _ _, hlen⟩
    · intro t' vec hlen hw
      refine ⟨_, hw.data, ?_⟩
      rw [selfDelimiting_iff hs hty one_ne_zero]
      exact ⟨hlen, .inr rfl⟩

theorem VecAgrees.written (h : VecAgrees spec id s.atomicType) {t : Target RefGraph}
    (hroom : LawfulGraphStorage.Room t.storage 0 0)
    (hlt : 2 < GraphStorage.dataAvailable t.storage) {P : List UInt8 → Prop}
    (hwrites : Ends (appendGenerate spec (spec.dataSpecs.length + 1) s.atomicType) t
      (fun _ t' => ∃ d, dataAsSlice t'.storage = dataAsSlice t.storage ++ d ∧ P d) never) :
    ∃ d, P d ∧ SelfDelimiting spec id s.atomicType d := by
  obtain ⟨_, t', -, ⟨d, hd, hP⟩, d', hd', hself⟩ :=
    ((hwrites.and (h RefGraph t hroom hlt)).mono (fun _ _ h => h) fun _ _ h => h.1).result
  obtain rfl : d = d' := append_cancel_left (hd.symm.trans hd')
  exact ⟨d, hP, hself⟩

theorem VecAgrees.raw (h : VecAgrees spec id s.atomicType) (hs : spec.getData id = some s)
    (hty : s.atomicType = .vec sizeRange prim dtype generators)
    (hrange : sizeRange.1 < sizeRange.2) (hempty : generators.isEmpty = true) :
    prim ≠ 0 ∧ (sizeRange.2 ≤ 1 ∨ prim = 1 ∧ sizeRange.2 ≤ 65536) := by
  have happend : appendGenerate (S := RefGraph) spec (spec.dataSpecs.length + 1) s.atomicType =
      generateRawVec sizeRange prim := by
    rw [hty, appendGenerate, generateVec, if_pos hempty]
  have hprim : prim ≠ 0 := by
    rintro rfl
    have hends := h RefGraph (freeBytes 3 (.ofList [])) (room_freeBytes _ _) (le_refl 3)
    rw [happend] at hends
    exact hends
  refine ⟨hprim, ?_⟩
  have havail := dataAvailable_freeBytes (sizeRange.2 * prim + 2)
    (.ofList [sizeRange.2 - 1 - sizeRange.1])
  have hpos : 0 < sizeRange.2 * prim :=
    mul_pos (Nat.zero_lt_of_lt hrange) (pos_of_ne_zero hprim)
  obtain ⟨d, ⟨body, hbody, rfl⟩, hself⟩ := h.written (P := fun d => ∃ body : List UInt8,
    body.length = (sizeRange.2 - 1) * prim ∧ d = headerBytes body.length ++ body)
    (room_freeBytes (sizeRange.2 * prim + 2) (.ofList [sizeRange.2 - 1 - sizeRange.1]))
    (by rw [havail]; omega) (by
      rw [happend]
      refine ends_generateRawVec (P := fun num => num = sizeRange.2 - 1) (room_freeBytes _ _)
        (by rw [havail]; omega) ?_ ?_
      · intro E
        rw [havail, Nat.add_sub_cancel]
        rw [genNumArrayElems_eq_genRange hprim (le_refl _)
          (Nat.mul_le_mul_right _ hrange)]
        refine ends_genRange_ofList (by omega) (Nat.sub_one_lt_of_lt hrange)
          fun _ => ⟨?_, rfl⟩
        exact Nat.mul_le_mul_right _ (Nat.sub_le _ _)
      · rintro num t' body rfl hbody hw
        exact ⟨_, hw.data, body, hbody, by rw [hbody]⟩)
  obtain ⟨hlen, hone⟩ := (selfDelimiting_iff hs hty hprim body).mp hself
  rw [hbody] at hlen hone
  rcases hone with hzero | rfl
  · rcases mul_eq_zero.mp hzero with h0 | h0
    · exact .inl (by omega)
    · exact absurd h0 hprim
  · exact .inr ⟨rfl, by omega⟩

theorem VecAgrees.generated (h : VecAgrees spec id s.atomicType) (hs : spec.getData id = some s)
    (hty : s.atomicType = .vec sizeRange prim dtype generators)
    (hempty : generators.isEmpty = false) {maxLen : ℕ} (hmax : 1 ≤ maxLen) (x : Distributions) :
    Ends (genPick generators) x
      (fun g x => Ends (g.generate maxLen) x (fun vec _ => vec.length < 65536) never) never := by
  obtain rfl := prim_eq_one hs hty hempty
  have happend : appendGenerate (S := RefGraph) spec (spec.dataSpecs.length + 1) s.atomicType =
      generateVec sizeRange 1 generators := by
    rw [hty]
    rfl
  have havail := dataAvailable_freeBytes (maxLen + 2) x
  have hlt : 2 < GraphStorage.dataAvailable (freeBytes (maxLen + 2) x).storage := by
    omega
  have hmin := le_of_lt hlt
  -- The choices decide what is picked and generated; only a short result agrees with the header.
  cases hpick : genPick generators x with
  | error e x' =>
    have hreturns : Ends (genPick generators) x (fun _ _ => True) never :=
      ends_genPick (fun hnil => by rw [hnil] at hempty; cases hempty) fun _ _ _ => trivial
    exact never_elim (hreturns.of_error hpick)
  | ok g x1 =>
    refine ends_of_ok hpick ?_
    cases hgen : g.generate maxLen x1 with
    | error e x2 =>
      have hends := h RefGraph (freeBytes (maxLen + 2) x) (room_freeBytes _ _) hlt
      rw [happend, generateVec, if_neg (by rw [hempty]; exact Bool.false_ne_true)] at hends
      simp only [ends_bind, ends_get, ends_random] at hends
      have hrest := hends.of_ok hpick
      rw [ends_check_of hmin, havail, Nat.add_sub_cancel] at hrest
      exact never_elim (hrest.of_error hgen)
    | ok vec x2 =>
      have hle : Ends (g.generate maxLen) x1 (fun v _ => v.length ≤ maxLen) mayPanic := by
        rw [VecGenerator.generate, ends_bind]
        exact ends_mayPanic fun v _ _ => length_take_le _ _
      refine ends_of_ok hgen ?_
      obtain ⟨d, rfl, hself⟩ := h.written (P := fun d => d = headerBytes vec.length ++ vec)
        (room_freeBytes (maxLen + 2) x) hlt (by
          rw [happend]
          refine ends_generateVec_bytes (P := fun v => v = vec) hempty (room_freeBytes _ _)
            hmin ?_ ?_
          · rw [havail, Nat.add_sub_cancel]
            exact ends_of_ok hpick (ends_of_ok hgen ⟨hle.of_ok hgen, rfl⟩)
          · rintro t' v rfl hw
            exact ⟨_, hw.data, rfl⟩)
      exact ((selfDelimiting_iff hs hty one_ne_zero vec).mp hself).1

/-- **One meaning for the vector header**, exactly if the type fits its header. -/
theorem vecAgrees_iff (hs : spec.getData id = some s)
    (hty : s.atomicType = .vec sizeRange prim dtype generators)
    (hrange : sizeRange.1 < sizeRange.2) :
    VecAgrees spec id s.atomicType ↔ HeaderFits sizeRange prim generators := by
  refine ⟨fun h => ?_, vecAgrees_of_headerFits hs hty hrange⟩
  rw [HeaderFits]
  cases hempty : generators.isEmpty with
  | true =>
    exact h.raw hs hty hrange hempty
  | false =>
    exact fun maxLen hmax x => h.generated hs hty hempty hmax x

end Readers

theorem vecAgrees_bytes : VecAgrees connectionSpec 1 (.vec (0, 4) 1 0 []) ∧
    VecAgrees greetingSpec 1 (.vec (0, 4) 1 0 [RegexGenerator.regex RegexGenerator.abc]) := by
  refine ⟨(vecAgrees_iff (show connectionSpec.getData 1 = some ⟨"bytes", 1, _⟩ from rfl)
    rfl (by decide)).mpr ⟨by decide, .inr ⟨rfl, by decide⟩⟩,
    (vecAgrees_iff (show greetingSpec.getData 1 = some ⟨"greeting", 1, _⟩ from rfl)
      rfl (by decide)).mpr fun maxLen hmax x => ?_⟩
  refine ends_genPick (by simp) fun g x' hg => ?_
  rw [mem_singleton.1 hg]
  exact (RegexGenerator.ends_generate_abc hmax x').weaken fun vec _ hlen => by omega

theorem not_vecAgrees_words :
    (lastState (appendGenerate wordsSpec 3 (.vec (0, 4) 2 0 [])
      (⟨VecGraph.empty, .ofList [1], []⟩ : Target VecGraph))).storage.data = [2, 0, 8, 0] ∧
    dataInspect wordsSpec 3 (.vec (0, 4) 2 0 []) [2, 0, 8, 0] = .error .assertionFailed ∧
    ¬VecAgrees wordsSpec 1 (.vec (0, 4) 2 0 []) := by
  refine ⟨by decide +kernel, rfl, ?_⟩
  intro h
  -- The run above is one of those the types must agree on.
  have hrun : Ends (appendGenerate wordsSpec 3 (.vec (0, 4) 2 0 []))
      (⟨VecGraph.empty, .ofList [1], []⟩ : Target VecGraph) (fun _ t' => ∃ d,
        dataAsSlice t'.storage = [] ++ d ∧ SelfDelimiting wordsSpec 1 (.vec (0, 4) 2 0 []) d) never :=
    h VecGraph _ trivial (by decide)
  have hdata : (lastState (appendGenerate wordsSpec 3 (.vec (0, 4) 2 0 [])
      (⟨VecGraph.empty, .ofList [1], []⟩ : Target VecGraph))).storage.data = [2, 0, 8, 0] := by
    decide +kernel
  obtain ⟨_, t', heq, d, hd, hself⟩ := hrun.result
  rw [heq] at hdata
  obtain rfl : d = [2, 0, 8, 0] := hd.symm.trans hdata
  obtain ⟨str, hstr⟩ := hself.prints
  have herr : dataInspect wordsSpec 3 (.vec (0, 4) 2 0 []) [2, 0, 8, 0] = .error .assertionFailed :=
    rfl
  exact nomatch hstr.symm.trans herr

end FuzzSocketCan
