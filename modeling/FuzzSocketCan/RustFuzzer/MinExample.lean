import FuzzSocketCan.RustFuzzer.Queue

/-! # The index of shortest examples

* **`Registered`** — what `register_best_input_for_bitmap` keeps, for any relation between indices
  and inputs. Registering an input for a bitmap index extends the relation, registering it for an
  ijon slot does not, and writes to the same table.
* **`addAll_minExample`** — when the index is right. -/

namespace FuzzSocketCan

open Lib Function

/-! ## Examples of an index -/

def StorageReason.bitmapIndex? : StorageReason → Option ℕ
  | bitmap r => some r.index
  | _ => none

def StorageReason.ijonIndex? : StorageReason → Option ℕ
  | ijonMax r => some r.index
  | _ => none

def Input.HasBitmap (inp : Input) (i : ℕ) : Prop := ∃ r ∈ inp.storageReasons, r.bitmapIndex? = some i

def Input.HasIjon (inp : Input) (i : ℕ) : Prop := ∃ r ∈ inp.storageReasons, r.ijonIndex? = some i

structure QueueData.IndexedAt (spec : GraphSpec) (d : QueueData) (i : ℕ) : Prop where
  once : d.bitmapBits.count i = 1
  least : ∃ id inp n, d.minExample i = some id ∧ d.inputs[id]? = some inp ∧ inp.HasBitmap i ∧
    inp.data.nodeLen spec = .ok n ∧
    ∀ inp' ∈ d.inputs, inp'.HasBitmap i → ∃ m, inp'.data.nodeLen spec = .ok m ∧ n ≤ m

def QueueData.Indexed (spec : GraphSpec) (d : QueueData) : Prop :=
  ∀ i, (∃ inp ∈ d.inputs, inp.HasBitmap i) → d.IndexedAt spec i

/-! ## What registering keeps -/

/-- The keys are what has been registered, with shortest examples. -/
structure Registered (len : InputID → ℕ) (has : ℕ → InputID → Prop) (slot : ℕ → Prop)
    (d : QueueData) : Prop where
  mem_bits : ∀ i, i ∈ d.bitmapBits ↔ ∃ id, has i id
  nodup : d.bitmapBits.Nodup
  least : ∀ i, (∃ id, has i id) →
    ∃ id, d.minExample i = some id ∧ has i id ∧ ∀ id', has i id' → len id ≤ len id'
  keys : ∀ i, (d.minExample i).isSome → (∃ id, has i id) ∨ slot i

def withExample (has : ℕ → InputID → Prop) (i : ℕ) (id : InputID) : ℕ → InputID → Prop :=
  fun j x => has j x ∨ (j = i ∧ x = id)

namespace Registered

variable {len : InputID → ℕ} {has : ℕ → InputID → Prop} {slot : ℕ → Prop} {d : QueueData} {i : ℕ}
  {id : InputID}

theorem withExample_of_ne {j : ℕ} (hne : j ≠ i) (x : InputID) :
    withExample has i id j x ↔ has j x := by
  simp [withExample, hne]

theorem exists_withExample {j : ℕ} : (∃ x, withExample has i id j x) ↔ (∃ x, has j x) ∨ j = i := by
  simp [withExample, exists_or]

theorem first (h : Registered len has slot d) (hkey : d.minExample i = none) :
    Registered len (withExample has i id) slot (d.ensureExample i id) := by
  have hnone : ∀ x, ¬has i x := by
    intro x hx
    obtain ⟨id', hid', -⟩ := h.least i ⟨x, hx⟩
    rw [hkey] at hid'
    cases hid'
  rw [QueueData.ensureExample, if_pos (by rw [hkey]; rfl)]
  refine ⟨?_, ?_, ?_, ?_⟩
  · intro j
    rw [List.mem_append, List.mem_singleton, h.mem_bits, exists_withExample]
  · refine h.nodup.append (List.nodup_singleton i) ?_
    rw [List.disjoint_singleton, h.mem_bits]
    rintro ⟨x, hx⟩
    exact hnone x hx
  · intro j hj
    by_cases hji : j = i
    · subst hji
      refine ⟨id, update_self .., .inr ⟨rfl, rfl⟩, ?_⟩
      rintro id' (hid' | ⟨-, rfl⟩)
      · exact absurd hid' (hnone id')
      · exact le_rfl
    · simp only [withExample_of_ne hji, update_of_ne hji] at hj ⊢
      exact h.least j hj
  · intro j hj
    rw [exists_withExample]
    by_cases hji : j = i
    · exact .inl (.inr hji)
    · simp only [update_of_ne hji] at hj
      exact (h.keys j hj).imp_left .inl

theorem again (h : Registered len has slot d) {old : InputID} (hkey : d.minExample i = some old)
    (hslot : ¬slot i) :
    has i old ∧ Registered len (withExample has i id) slot
      (if len old > len id then d.setExample i id else d) := by
  have hex : ∃ x, has i x := (h.keys i (by rw [hkey]; rfl)).resolve_right hslot
  obtain ⟨old', hold', hasold, hmin⟩ := h.least i hex
  obtain rfl : old' = old := by simpa [hkey] using hold'.symm
  -- Only the example of this index can change.
  have hother : ∀ d', d'.bitmapBits = d.bitmapBits → (∀ j, j ≠ i → d'.minExample j = d.minExample j) →
      (∃ x, d'.minExample i = some x ∧ withExample has i id i x ∧
        ∀ x', withExample has i id i x' → len x ≤ len x') →
      Registered len (withExample has i id) slot d' := by
    intro d' hbits hsame hi
    refine ⟨?_, hbits ▸ h.nodup, ?_, ?_⟩
    · intro j
      rw [hbits, h.mem_bits, exists_withExample]
      constructor
      · exact .inl
      · rintro (hj | rfl)
        · exact hj
        · exact hex
    · intro j hj
      by_cases hji : j = i
      · subst hji
        exact hi
      · simp only [withExample_of_ne hji, hsame j hji] at hj ⊢
        exact h.least j hj
    · intro j hj
      rw [exists_withExample]
      by_cases hji : j = i
      · exact .inl (.inr hji)
      · rw [hsame j hji] at hj
        exact (h.keys j hj).imp_left .inl
  refine ⟨hasold, ?_⟩
  split
  · rename_i hlt
    refine hother _ rfl (fun j hj => update_of_ne hj ..) ⟨id, ?_, .inr ⟨rfl, rfl⟩, ?_⟩
    · exact update_self ..
    · rintro x (hx | ⟨-, rfl⟩)
      · exact le_trans (le_of_lt hlt) (hmin x hx)
      · exact le_rfl
  · rename_i hle
    refine hother _ rfl (fun j _ => rfl) ⟨old', hkey, .inl hasold, ?_⟩
    rintro x (hx | ⟨-, rfl⟩)
    · exact hmin x hx
    · exact not_lt.mp hle

theorem ijon (h : Registered len has slot d) (hnone : ∀ x, ¬has i x) :
    Registered len has (fun j => slot j ∨ j = i) (d.setExample i id) := by
  refine ⟨h.mem_bits, h.nodup, ?_, ?_⟩
  · intro j hj
    have hji : j ≠ i := by
      rintro rfl
      obtain ⟨x, hx⟩ := hj
      exact hnone x hx
    simp only [QueueData.setExample, update_of_ne hji]
    exact h.least j hj
  · intro j hj
    by_cases hji : j = i
    · exact .inr (.inr hji)
    · simp only [QueueData.setExample, update_of_ne hji] at hj
      exact (h.keys j hj).imp_right .inl

theorem congr {len' : InputID → ℕ} {has' : ℕ → InputID → Prop} {slot' : ℕ → Prop} {d' : QueueData}
    (h : Registered len has slot d) (hhas : ∀ j x, has' j x ↔ has j x)
    (hslot : ∀ j, slot' j ↔ slot j) (hlen : ∀ j x, has j x → len' x = len x)
    (hbits : d'.bitmapBits = d.bitmapBits) (hmin : d'.minExample = d.minExample) :
    Registered len' has' slot' d' := by
  obtain rfl : has' = has := by
    funext j x
    exact propext (hhas j x)
  obtain rfl : slot' = slot := by
    funext j
    exact propext (hslot j)
  refine ⟨?_, hbits ▸ h.nodup, ?_, ?_⟩
  · intro j
    rw [hbits]
    exact h.mem_bits j
  · intro j hj
    obtain ⟨x, hx, hhasx, hleast⟩ := h.least j hj
    refine ⟨x, by rw [hmin, hx], hhasx, ?_⟩
    intro y hy
    rw [hlen j x hhasx, hlen j y hy]
    exact hleast y hy
  · intro j hj
    rw [hmin] at hj
    exact h.keys j hj

variable {spec : GraphSpec}

theorem register (h : Registered (d.lenAt spec) has slot d) (id : ℕ) (r : StorageReason)
    (hbit : ∀ j, r.bitmapIndex? = some j → ¬slot j)
    (hijon : ∀ j, r.ijonIndex? = some j → ∀ x, ¬has j x) :
    Registered (d.lenAt spec) (fun j x => has j x ∨ (r.bitmapIndex? = some j ∧ x = id))
      (fun j => slot j ∨ r.ijonIndex? = some j) (d.register spec id r) := by
  cases r with
  | bitmap reason =>
    have hreg : Registered (d.lenAt spec) (withExample has reason.index id) slot
        (d.register spec id (.bitmap reason)) := by
      cases hkey : d.minExample reason.index with
      | none =>
        have hfirst : (d.ensureExample reason.index id).minExample reason.index = some id := by
          rw [QueueData.ensureExample, if_pos (by rw [hkey]; rfl)]
          exact update_self ..
        simp only [QueueData.register, hfirst, Option.mem_some_iff, exists_eq_left', gt_iff_lt,
          lt_irrefl, if_false]
        exact h.first hkey
      | some old =>
        have hsame : d.ensureExample reason.index id = d := by
          rw [QueueData.ensureExample, if_neg (by rw [hkey]; exact Bool.false_ne_true)]
        simp only [QueueData.register, hsame, hkey, Option.mem_some_iff, exists_eq_left']
        exact (h.again hkey (hbit _ rfl)).2
    refine hreg.congr ?_ ?_ (fun _ _ _ => rfl) rfl rfl
    · intro j x
      simp [withExample, StorageReason.bitmapIndex?, eq_comm]
    · intro j
      simp [StorageReason.ijonIndex?]
  | ijonMax reason =>
    refine (h.ijon (hijon _ rfl)).congr ?_ ?_ (fun _ _ _ => rfl) rfl rfl
    · intro j x
      simp [StorageReason.bitmapIndex?]
    · intro j
      simp [StorageReason.ijonIndex?, eq_comm]
  | imported =>
    refine h.congr ?_ ?_ (fun _ _ _ => rfl) rfl rfl
    · intro j x
      simp [StorageReason.bitmapIndex?]
    · intro j
      simp [StorageReason.ijonIndex?]

theorem foldl_register (h : Registered (d.lenAt spec) has slot d) (id : ℕ)
    (rs : List StorageReason)
    (hclash : ∀ j, ((∃ x, has j x) ∨ ∃ r ∈ rs, r.bitmapIndex? = some j) →
      ¬(slot j ∨ ∃ r ∈ rs, r.ijonIndex? = some j)) :
    Registered (d.lenAt spec) (fun j x => has j x ∨ ((∃ r ∈ rs, r.bitmapIndex? = some j) ∧ x = id))
      (fun j => slot j ∨ ∃ r ∈ rs, r.ijonIndex? = some j)
      (rs.foldl (QueueData.register spec id) d) := by
  induction rs generalizing d has slot with
  | nil => simpa using h
  | cons r rs ih =>
    have hr := h.register id r
      (fun j hj hs => hclash j (.inr ⟨r, List.mem_cons_self, hj⟩) (.inl hs))
      (fun j hj x hx => hclash j (.inl ⟨x, hx⟩) (.inr ⟨r, List.mem_cons_self, hj⟩))
    have hlen : (d.register spec id r).lenAt spec = d.lenAt spec := by
      funext x
      exact QueueData.lenAt_eq_of_sameInputs (QueueData.sameInputs_register spec id d r) x
    rw [← hlen] at hr
    have hrest := ih hr ?_
    · rw [hlen] at hrest
      refine hrest.congr ?_ ?_ (fun _ _ _ => rfl) rfl rfl
      · intro j x
        simp only [List.mem_cons, exists_eq_or_imp]
        rw [or_and_right, or_assoc]
      · intro j
        simp only [List.mem_cons, exists_eq_or_imp, or_assoc]
    · intro j hj
      refine fun hs => hclash j ?_ ?_
      · simp only [List.mem_cons, exists_eq_or_imp]
        rcases hj with ⟨x, hx | ⟨hx, -⟩⟩ | hj
        · exact .inl ⟨x, hx⟩
        · exact .inr (.inl hx)
        · exact .inr (.inr hj)
      · simp only [List.mem_cons, exists_eq_or_imp]
        rw [or_assoc] at hs
        exact hs

end Registered

/-! ## Sequences of `add` -/

def QueueData.HasExample (d : QueueData) (i : ℕ) (id : InputID) : Prop :=
  ∃ inp, d.inputs[id]? = some inp ∧ inp.HasBitmap i

def QueueData.HasSlot (d : QueueData) (i : ℕ) : Prop := ∃ inp ∈ d.inputs, inp.HasIjon i

/-- **The invariant of the index.** -/
structure QueueData.IndexInv (spec : GraphSpec) (d : QueueData) : Prop where
  sane : d.Sane spec
  registered : Registered (d.lenAt spec) d.HasExample d.HasSlot d

/-- If the input is stored, no number is both a bitmap index and an ijon slot of the stored
inputs. -/
def QueueData.NoClash (spec : GraphSpec) (d : QueueData) (input : Input) : Prop :=
  input.Accepted spec → ∀ i, (∃ inp ∈ d.inputs ++ [input], inp.HasBitmap i) →
    ¬∃ inp ∈ d.inputs ++ [input], inp.HasIjon i

namespace QueueData

variable {spec : GraphSpec} {d : QueueData}

theorem exists_hasExample {i : ℕ} : (∃ id, d.HasExample i id) ↔ ∃ inp ∈ d.inputs, inp.HasBitmap i := by
  simp only [HasExample, List.mem_iff_getElem?]
  constructor
  · rintro ⟨id, inp, hid, hinp⟩
    exact ⟨inp, ⟨id, hid⟩, hinp⟩
  · rintro ⟨inp, ⟨id, hid⟩, hinp⟩
    exact ⟨id, inp, hid, hinp⟩

theorem lenAt_of_mem {id : InputID} {inp : Input} (h : d.inputs[id]? = some inp) :
    d.lenAt spec id = (nodesOf spec inp.data).items.length := by
  rw [lenAt, h]

theorem IndexInv.indexed (h : d.IndexInv spec) : d.Indexed spec := by
  intro i hi
  have hex := exists_hasExample.mpr hi
  refine ⟨?_, ?_⟩
  · exact List.count_eq_one_of_mem h.registered.nodup ((h.registered.mem_bits i).mpr hex)
  · obtain ⟨id, hid, ⟨inp, hinp, hbit⟩, hleast⟩ := h.registered.least i hex
    refine ⟨id, inp, _, hid, hinp, hbit,
      VecGraph.nodeLen_eq_ok (h.sane.counted inp (List.mem_of_getElem? hinp)), ?_⟩
    intro inp' hinp' hbit'
    obtain ⟨id', hid'⟩ := List.mem_iff_getElem?.mp hinp'
    refine ⟨_, VecGraph.nodeLen_eq_ok (h.sane.counted inp' hinp'), ?_⟩
    rw [← lenAt_of_mem hinp, ← lenAt_of_mem hid']
    exact hleast id' ⟨inp', hid', hbit'⟩

theorem hasExample_store (d : QueueData) (input : Input) (i : ℕ) (id : InputID) :
    (d.store spec input).HasExample i id ↔
      d.HasExample i id ∨ (input.HasBitmap i ∧ id = d.inputs.length) := by
  rw [HasExample, HasExample, (inputs_store spec d input).1]
  rcases Nat.lt_trichotomy id d.inputs.length with hid | rfl | hid
  · simp [List.getElem?_append_left hid, hid.ne]
  · simp [Input.HasBitmap]
  · rw [List.getElem?_eq_none (by simp; omega), List.getElem?_eq_none hid.le]
    simp [hid.ne']

theorem hasSlot_store (d : QueueData) (input : Input) (i : ℕ) :
    (d.store spec input).HasSlot i ↔ d.HasSlot i ∨ input.HasIjon i := by
  rw [HasSlot, HasSlot, (inputs_store spec d input).1]
  simp [or_and_right, exists_or, Input.HasIjon]

theorem IndexInv.store (h : d.IndexInv spec) {input : Input} (hacc : input.Accepted spec)
    (hclash : d.NoClash spec input) : (d.store spec input).IndexInv spec := by
  refine ⟨(h.sane.storeInput_eq hacc.counted).2, ?_⟩
  set n := d.inputs.length with hn
  set d1 := d.push { input with id := n } with hd1
  have hold : ∀ id, id < n → d1.inputs[id]? = d.inputs[id]? := by
    intro id hid
    exact List.getElem?_append_left hid
  have hlt : ∀ {i id}, d.HasExample i id → id < n := by
    rintro i id ⟨inp, hinp, -⟩
    exact (List.getElem?_eq_some_iff.mp hinp).1
  have hpush : Registered (d1.lenAt spec) d.HasExample d.HasSlot d1 := by
    refine h.registered.congr (fun _ _ => Iff.rfl) (fun _ => Iff.rfl) ?_ rfl rfl
    intro i id hid
    rw [lenAt, lenAt, hold id (hlt hid)]
  have hfold := hpush.foldl_register n input.storageReasons ?_
  · refine hfold.congr (hasExample_store d input) (hasSlot_store d input) ?_ rfl rfl
    intro _ id _
    exact lenAt_eq_of_sameInputs (sameInputs_foldl_register spec n d1 input.storageReasons) id
  · intro i hi
    have hmem : ∀ p : Input → Prop, (∃ inp ∈ d.inputs ++ [input], p inp) ↔
        (∃ inp ∈ d.inputs, p inp) ∨ p input := by
      intro p
      simp [or_and_right, exists_or]
    have := hclash hacc i
    rw [hmem, hmem, ← exists_hasExample] at this
    exact this hi

theorem indexInv_new (spec : GraphSpec) (bitmapSize : ℕ) :
    (QueueData.new bitmapSize).IndexInv spec := by
  refine ⟨sane_new spec bitmapSize, ?_, List.nodup_nil, ?_, ?_⟩
  · intro i
    simp [QueueData.new, HasExample]
  · rintro i ⟨id, inp, hinp, -⟩
    simp [QueueData.new] at hinp
  · intro i hi
    simp [QueueData.new] at hi

theorem IndexInv.withFavqueue (h : d.IndexInv spec) (favs : List InputID) :
    ({ d with favqueue := favs } : QueueData).IndexInv spec :=
  ⟨⟨h.sane.counted, h.sane.stored⟩,
    ⟨h.registered.mem_bits, h.registered.nodup, h.registered.least, h.registered.keys⟩⟩

end QueueData

def addStep (spec : GraphSpec) (d : QueueData) (call : IterOrder × Input) : Option QueueData :=
  some (lastState (add spec call.1 call.2 d))

/-- **The index of shortest examples** is right after every sequence of `add` calls. -/
theorem addAll_minExample {spec : GraphSpec} {bitmapSize : ℕ} {calls : List (IterOrder × Input)}
    {d : QueueData}
    (hclash : EachStep (addStep spec) (fun d call => d.NoClash spec call.2) (.new bitmapSize) calls)
    (hd : exec (addStep spec) (.new bitmapSize) calls = some d) : d.Indexed spec := by
  refine QueueData.IndexInv.indexed (exec_invariant_of_eachStep (I := QueueData.IndexInv spec) ?_
    hclash (QueueData.indexInv_new spec bitmapSize) hd)
  intro d call d' h hno hstep
  obtain rfl := Option.some_inj.mp hstep
  obtain ⟨hstore, hkeep⟩ := lastState_add h.sane call.1 call.2
  by_cases hacc : call.2.Accepted spec
  · obtain ⟨favs, heq⟩ := hstore hacc
    rw [heq]
    exact (h.store hacc hno).withFavqueue favs
  · rw [hkeep hacc]
    exact h

theorem QueueData.noClash_of_noIjon {spec : GraphSpec} {d : QueueData} {input : Input}
    (h : ∀ rs ∈ (d.inputs ++ [input]).map Input.storageReasons, ∀ r ∈ rs, r.ijonIndex? = none) :
    d.NoClash spec input := by
  rintro - i - ⟨inp, hinp, r, hr, hij⟩
  rw [h _ (List.mem_map_of_mem hinp) r hr] at hij
  cases hij

def longThenShort : List (IterOrder × Input) :=
  [(listOrder, openInput 2 [.bitmap ⟨0, 0, 1⟩]), (listOrder, openInput 1 [.bitmap ⟨0, 0, 1⟩])]

theorem addAll_minExample_shorter :
    ∃ d, exec (addStep connectionSpec) (.new 1) longThenShort = some d ∧
      d.Indexed connectionSpec ∧ d.minExample 0 = some 1 := by
  have hclash : EachStep (addStep connectionSpec) (fun d call => d.NoClash connectionSpec call.2)
      (.new 1) longThenShort := by
    refine ⟨QueueData.noClash_of_noIjon (by decide +kernel), ?_⟩
    intro d hd
    obtain rfl := Option.some_inj.mp hd
    exact ⟨QueueData.noClash_of_noIjon (by decide +kernel), fun _ _ => trivial⟩
  exact ⟨_, rfl, addAll_minExample hclash rfl, by decide +kernel⟩

def slotThenBitmap : List (IterOrder × Input) :=
  [(listOrder, openInput 1 [.ijonMax ⟨0, 0, 5⟩]), (listOrder, openInput 1 [.bitmap ⟨0, 0, 1⟩])]

theorem addAll_minExample_clash :
    ∃ d, exec (addStep connectionSpec) (.new 1) slotThenBitmap = some d ∧
      d.minExample 0 = some 0 ∧ d.bitmapBits = [] ∧ ¬d.Indexed connectionSpec := by
  have hinputs : (exec (addStep connectionSpec) (.new 1) slotThenBitmap).map
      (fun d => d.inputs.map Input.storageReasons) =
        some [[.ijonMax ⟨0, 0, 5⟩], [.bitmap ⟨0, 0, 1⟩]] := by
    decide +kernel
  have hbits : (exec (addStep connectionSpec) (.new 1) slotThenBitmap).map QueueData.bitmapBits =
      some [] := by
    decide +kernel
  obtain ⟨d, hd, hinputs⟩ := Option.map_eq_some_iff.mp hinputs
  rw [hd, Option.map_some, Option.some_inj] at hbits
  refine ⟨d, hd, ?_, hbits, ?_⟩
  · obtain rfl := Option.some_inj.mp hd
    decide +kernel
  · intro h
    obtain ⟨inp, hinp, hreasons⟩ : ∃ inp ∈ d.inputs, inp.storageReasons = [.bitmap ⟨0, 0, 1⟩] := by
      rw [← List.mem_map, hinputs]
      exact List.mem_cons_of_mem _ List.mem_cons_self
    have hindexed := h 0 ⟨inp, hinp, _, by rw [hreasons]; exact List.mem_cons_self, rfl⟩
    have honce := hindexed.once
    rw [hbits] at honce
    cases honce

end FuzzSocketCan
