import FuzzSocketCan.StructuredFuzzer.VecHeader

/-! # The layout of written data

`gen_num_array_elems` draws from the half-open range `lo..hi`: a type whose sizes are fixed (`lo =
hi`) panics as soon as there is room for one more element.

* **`appendMutated_sameLayout`** — a mutation writes as many bytes as it is given.
* **`generatesInRange_iff`** — when generated vectors keep to their size range. -/

namespace FuzzSocketCan

open Lib List GraphStorage PrimitiveMutator
open LawfulGraphStorage (Room)

section Layout

variable {S : Type} [GraphStorage S] [LawfulGraphStorage S] {t : Target S}

/-! ## Mutated values -/

/-- **Mutation in place keeps the layout** of a value. -/
theorem appendMutated_sameLayout {ty : AtomicDataType} {d : List UInt8} {dict : CustomDict}
    (hgen : ∀ g ∈ ty.vecGenerators, g.Returns) (hdict : dict.Valid) (henc : ty.Encodes d)
    (hroom : Room t.storage 0 d.length) :
    Ends (appendMutated ty d dict) t (fun _ t' => ∃ d', ty.SameLayout d d' ∧
      dataAsSlice t'.storage = dataAsSlice t.storage ++ d' ∧
      opsAsSlice t'.storage = opsAsSlice t.storage) never := by
  rw [← zero_add d.length] at hroom
  apply ends_appendMutated hgen hdict henc hroom
  intro t' d' hlayout hw
  exact ⟨d', hlayout, hw.data, hw.ops⟩

/-! ## Generated vectors -/

def VecInRange (lo hi e : ℕ) (d : List UInt8) : Prop :=
  ∃ num a b body, d = a :: b :: body ∧ vecHeader a b = num * e ∧ body.length = num * e ∧
    lo ≤ num ∧ num ≤ hi

def GeneratesInRange (spec : GraphSpec) (fuel lo hi e : ℕ) (dtype : AtomicTypeID) (t : Target S) :
    Prop :=
  ∀ x, Ends (appendGenerate spec fuel (.vec (lo, hi) e dtype [])) { t with dist := x }
    (fun _ t' => ∃ d, dataAsSlice t'.storage = dataAsSlice t.storage ++ d ∧ VecInRange lo hi e d)
    never

variable {spec : GraphSpec} {fuel lo hi e : ℕ} {dtype : AtomicTypeID}

theorem vecInRange_headerBytes {num : ℕ} {body : List UInt8} (he : 0 < e)
    (hbody : body.length = num * e) :
    VecInRange lo hi e (headerBytes (num * e) ++ body) ↔ num * e < 65536 ∧ lo ≤ num ∧ num ≤ hi := by
  constructor
  · rintro ⟨num', a, b, body', heq, hheader, hbody', hlo, hhi⟩
    simp only [headerBytes, cons_append, nil_append, cons.injEq] at heq
    obtain ⟨rfl, rfl, rfl⟩ := heq
    rw [hbody] at hbody'
    obtain rfl : num = num' := Nat.eq_of_mul_eq_mul_right he hbody'
    rw [vecHeader_headerBytes] at hheader
    exact ⟨by omega, hlo, hhi⟩
  · rintro ⟨hfits, hlo, hhi⟩
    refine ⟨num, _, _, body, rfl, ?_, hbody, hlo, hhi⟩
    rw [vecHeader_headerBytes, Nat.mod_eq_of_lt hfits]

theorem ends_appendGenerate_num (spec : GraphSpec) (fuel : ℕ) (dtype : AtomicTypeID)
    {P : ℕ → Prop} (hroom : Room t.storage 0 0)
    (hmin : 2 ≤ GraphStorage.dataAvailable t.storage)
    (hnum : ∀ E, Ends (PrimitiveMutator.genNumArrayElems e lo hi
      (GraphStorage.dataAvailable t.storage - 2)) t.dist
        (fun num _ => num * e ≤ GraphStorage.dataAvailable t.storage - 2 ∧ P num) E) :
    Ends (appendGenerate spec fuel (.vec (lo, hi) e dtype [])) t (fun _ t' => ∃ num body,
      P num ∧ body.length = num * e ∧
      dataAsSlice t'.storage = dataAsSlice t.storage ++ (headerBytes (num * e) ++ body)) never := by
  rw [appendGenerate, generateVec, if_pos isEmpty_nil]
  apply ends_generateRawVec (P := P) hroom hmin hnum
  intro num t' body hP hbody hw
  exact ⟨num, body, hP, hbody, hw.data⟩

theorem generatesInRange_of_num {P : ℕ → Prop} (he : 0 < e) (hroom : Room t.storage 0 0)
    (hmin : 2 ≤ GraphStorage.dataAvailable t.storage)
    (hnum : ∀ x E, Ends (PrimitiveMutator.genNumArrayElems e lo hi
      (GraphStorage.dataAvailable t.storage - 2)) x
        (fun num _ => num * e ≤ GraphStorage.dataAvailable t.storage - 2 ∧ P num) E)
    (hP : ∀ num, P num → num * e < 65536 ∧ lo ≤ num ∧ num ≤ hi) :
    GeneratesInRange spec fuel lo hi e dtype t := by
  intro x
  have hwrites := ends_appendGenerate_num spec fuel dtype (t := { t with dist := x }) hroom hmin (hnum x)
  refine hwrites.weaken ?_
  rintro _ t' ⟨num, body, hdrawn, hbody, hdata⟩
  exact ⟨_, hdata, (vecInRange_headerBytes he hbody).2 (hP num hdrawn)⟩

theorem GeneratesInRange.num_lt (h : GeneratesInRange spec fuel lo hi e dtype t) (he : 0 < e)
    (hroom : Room t.storage 0 0) (hmin : 2 ≤ GraphStorage.dataAvailable t.storage) {num : ℕ}
    (x : Distributions)
    (hnum : ∀ E, Ends (PrimitiveMutator.genNumArrayElems e lo hi
      (GraphStorage.dataAvailable t.storage - 2)) x
        (fun n _ => n * e ≤ GraphStorage.dataAvailable t.storage - 2 ∧ n = num) E) :
    num * e < 65536 := by
  have hwrites := ends_appendGenerate_num spec fuel dtype (t := { t with dist := x }) hroom hmin hnum
  obtain ⟨_, t', -, ⟨num', body, rfl, hbody, hdata⟩, d, hd, hrange⟩ :=
    ((hwrites.and (h x)).mono (fun _ _ h => h) fun _ _ h => h.1).result
  obtain rfl := append_cancel_left (hd.symm.trans hdata)
  exact ((vecInRange_headerBytes he hbody).mp hrange).1

omit [LawfulGraphStorage S] in
theorem GeneratesInRange.lt (h : GeneratesInRange spec fuel lo hi e dtype t)
    (hmin : 2 ≤ GraphStorage.dataAvailable t.storage)
    (hdraw : PrimitiveMutator.genNumArrayElems e lo hi
      (GraphStorage.dataAvailable t.storage - 2) = genRange lo hi) : lo < hi := by
  have hends := h (.ofList [])
  rw [appendGenerate, generateVec, if_pos isEmpty_nil] at hends
  simp only [generateRawVec, ends_bind, ends_get, ends_random] at hends
  rw [ends_check_of hmin, hdraw] at hends
  simp only [genRange, ends_bind, ends_check_iff] at hends
  by_contra hempty
  exact never_elim (hends.2 hempty)

/-- **When generated vectors keep to their size range.** -/
theorem generatesInRange_iff (hle : lo ≤ hi) (he : 0 < e) (hroom : Room t.storage 0 0)
    (hfree : 2 + hi * e ≤ GraphStorage.dataAvailable t.storage) :
    GeneratesInRange spec fuel lo hi e dtype t ↔
      lo < hi ∧ (hi - 1) * e < 65536 ∨
        GraphStorage.dataAvailable t.storage < 2 + (lo + 1) * e ∧ lo * e < 65536 := by
  have hmin : 2 ≤ dataAvailable t.storage := by omega
  have hfit : hi * e ≤ dataAvailable t.storage - 2 := by omega
  have hne : e ≠ 0 := pos_iff_ne_zero.1 he
  rcases lt_or_ge (dataAvailable t.storage) (2 + (lo + 1) * e) with hless | hmore
  · -- there is room for `lo` elements only, so the range has one number, which is taken
    obtain rfl : lo = hi := by
      by_contra hlt
      have := Nat.mul_le_mul_right e (show lo + 1 ≤ hi by omega)
      omega
    have hnum : (dataAvailable t.storage - 2) / e = lo :=
      Nat.div_eq_of_lt_le hfit (by omega)
    have hdraw : ∀ x E, Ends (genNumArrayElems e lo lo
        (dataAvailable t.storage - 2)) x
          (fun n _ => n * e ≤ dataAvailable t.storage - 2 ∧ n = lo) E := by
      intro x E
      rw [genNumArrayElems_eq_pure hne (by omega), hnum]
      exact ⟨hfit, rfl⟩
    constructor
    · intro h
      exact .inr ⟨hless, h.num_lt he hroom hmin (.ofList []) (hdraw _)⟩
    · rintro (⟨hlt, -⟩ | ⟨-, hsmall⟩)
      · exact absurd hlt (lt_irrefl _)
      · refine generatesInRange_of_num he hroom hmin hdraw ?_
        rintro num rfl
        exact ⟨hsmall, le_refl _, le_refl _⟩
  · have hdraw := genNumArrayElems_eq_genRange hne hfit
      (show (lo + 1) * e ≤ dataAvailable t.storage - 2 by omega)
    constructor
    · intro h
      have hlt := h.lt hmin hdraw
      refine .inl ⟨hlt, h.num_lt he hroom hmin (.ofList [hi - 1 - lo]) fun E => ?_⟩
      rw [hdraw]
      apply ends_genRange_ofList (by omega) (by omega)
      intro _
      exact ⟨le_trans (Nat.mul_le_mul_right e (Nat.sub_le _ _)) hfit, rfl⟩
    · rintro (⟨hlt, hsmall⟩ | ⟨hless, -⟩)
      · refine generatesInRange_of_num (P := fun num => lo ≤ num ∧ num < hi) he hroom hmin ?_ ?_
        · intro x E
          rw [hdraw]
          apply ends_genRange hlt
          intro num _ hlo hhi
          exact ⟨le_trans (Nat.mul_le_mul_right e (Nat.le_of_lt hhi)) hfit, hlo, hhi⟩
        · rintro num ⟨hlo, hhi⟩
          have hle' := Nat.mul_le_mul_right e (show num ≤ hi - 1 by omega)
          exact ⟨by omega, hlo, le_of_lt hhi⟩
      · omega

end Layout

/-- A vector of letters with a generator. -/
def lettersVec : AtomicDataType :=
  .vec (0, 4) 1 0 [RegexGenerator.regex RegexGenerator.someLetters]

theorem appendMutated_sameLayout_letters :
    CustomDict.Valid ⟨[[⟨[65], [66]⟩]]⟩ ∧
    Ends (appendMutated lettersVec [2, 0, 65, 66] ⟨[[⟨[65], [66]⟩]]⟩)
      (freeBytes 8 (.ofList [])) (fun _ t' => ∃ d', lettersVec.SameLayout [2, 0, 65, 66] d' ∧
        dataAsSlice t'.storage = dataAsSlice (freeBytes 8 (.ofList [])).storage ++ d' ∧
        opsAsSlice t'.storage = opsAsSlice (freeBytes 8 (.ofList [])).storage) never := by
  have hdict : CustomDict.Valid ⟨[[⟨[65], [66]⟩]]⟩ := by decide
  refine ⟨hdict, appendMutated_sameLayout ?_ hdict ⟨2, 0, [65, 66], rfl, rfl⟩ ?_⟩
  · intro g hg
    rw [mem_singleton.1 hg]
    exact RegexGenerator.returns_regex fun k hk => (RegexGenerator.someLetters_visited hk).1
  · exact ⟨le_refl _, by decide⟩

theorem generatesInRange_bytes : GeneratesInRange connectionSpec 1 0 4 1 0 (freeBytes 6 (.ofList [])) :=
  (generatesInRange_iff (by decide) (by decide) (room_freeBytes _ _) (by decide)).2
    (.inl ⟨by decide, by decide⟩)

theorem generateVec_fixed_panics :
    panicOf (appendGenerate connectionSpec 1 (.vec (2, 2) 1 0 []) (freeBytes 5 (.ofList []))) =
      some .emptyRange ∧
    ¬GeneratesInRange connectionSpec 1 2 2 1 0 (freeBytes 5 (.ofList [])) := by
  have hpanics : panicOf (appendGenerate connectionSpec 1 (.vec (2, 2) 1 0 [])
      (freeBytes 5 (.ofList []))) = some .emptyRange := by decide +kernel
  refine ⟨hpanics, fun h => ?_⟩
  obtain ⟨_, _, hrun, -⟩ := (h (.ofList [])).result
  have hpanics' := hpanics
  rw [show freeBytes 5 (.ofList []) = { freeBytes 5 (.ofList []) with dist := .ofList [] } from rfl,
    hrun] at hpanics'
  cases hpanics'

end FuzzSocketCan
