import FuzzSocketCan.Lib.SwapRemove
import FuzzSocketCan.StructuredFuzzer.Spec

/-! # The values available to a graph under construction

For each value type the builder keeps the available connectors in a vector with an index map, and
two maps between the connector ids of the source graph and the new ones.

* **`ValueState.Ok`** — the index map is exact, no id is above the last one, and a renamed id is
  available. -/

namespace FuzzSocketCan

open Lib List Option Function

/-- The next connector id. The addition is checked: the release build would wrap around to zero, and
no result is about such runs. -/
def nextConnector (c : ConnectorID) : Except Panic ConnectorID :=
  if c.toNat < 65535 then .ok (c + 1) else .error .addWithOverflow

theorem nextConnector_ok {c : ConnectorID} (h : c.toNat < 65535) :
    ∃ c', nextConnector c = .ok c' ∧ c'.toNat = c.toNat + 1 := by
  refine ⟨c + 1, if_pos h, ?_⟩
  exact Nat.mod_eq_of_lt (by show c.toNat + 1 < 65536; omega)

structure ValueState where
  curId : ConnectorID
  newIdsForSampling : List ConnectorID
  newIdToIdsIndex : ConnectorID → Option ℕ
  newIdToOldId : ConnectorID → Option ConnectorID
  oldIdToNewId : ConnectorID → Option ConnectorID

namespace ValueState

def new : ValueState where
  curId := 0
  newIdsForSampling := []
  newIdToIdsIndex := fun _ => none
  newIdToOldId := fun _ => none
  oldIdToNewId := fun _ => none

def numAvailable (s : ValueState) : ℕ := s.newIdsForSampling.length

/-- Forget the values; `newIdToOldId` stays. -/
def clear (s : ValueState) : ValueState :=
  { s with
    curId := 0
    newIdsForSampling := []
    newIdToIdsIndex := fun _ => none
    oldIdToNewId := fun _ => none }

def resetTo (s other : ValueState) : ValueState :=
  { s with
    curId := other.curId
    newIdToIdsIndex := other.newIdToIdsIndex
    newIdsForSampling := other.newIdsForSampling
    oldIdToNewId := other.oldIdToNewId }

def insertNewId (s : ValueState) : Except Panic (ConnectorID × ValueState) := do
  let newId ← nextConnector s.curId
  let ids := s.newIdsForSampling ++ [newId]
  .ok (newId, { s with
    curId := newId
    newIdsForSampling := ids
    newIdToIdsIndex := update s.newIdToIdsIndex newId (some (ids.length - 1)) })

def insertOldId (oldId : ConnectorID) (s : ValueState) : Except Panic (ConnectorID × ValueState) := do
  let (newId, s) ← s.insertNewId
  .ok (newId, { s with
    newIdToOldId := update s.newIdToOldId newId (some oldId)
    oldIdToNewId := update s.oldIdToNewId oldId (some newId) })

def takeNewInput (newId : ConnectorID) (s : ValueState) : Except Panic (ConnectorID × ValueState) :=
  match s.newIdToIdsIndex newId with
  | none => .error .unknownNewId
  | some i =>
    if i < s.newIdsForSampling.length then
      .ok (newId, { s with
        newIdsForSampling := swapRemove s.newIdsForSampling i
        newIdToIdsIndex := reindex s.newIdsForSampling s.newIdToIdsIndex newId i
        newIdToOldId := update s.newIdToOldId newId none
        oldIdToNewId :=
          match s.newIdToOldId newId with
          | some old => update s.oldIdToNewId old none
          | none => s.oldIdToNewId })
    else .error .indexOutOfBounds

def getRenamedOldInput (s : ValueState) (oldId : ConnectorID) : Option ConnectorID :=
  s.oldIdToNewId oldId

def getRandomInput (s : ValueState) : Dist ConnectorID := do
  check (s.newIdsForSampling ≠ []) Panic.noRandomInput
  genPick s.newIdsForSampling

def takeRandomInput (s : ValueState) : Dist (ConnectorID × ValueState) := do
  let id ← s.getRandomInput
  orPanic (s.takeNewInput id)

def getOldAvailableInput (oldId : ConnectorID) (s : ValueState) : Dist ConnectorID :=
  match s.getRenamedOldInput oldId with
  | some id => pure id
  | none => s.getRandomInput

def takeOldAvailableInput (oldId : ConnectorID) (s : ValueState) :
    Dist (ConnectorID × ValueState) := do
  let id ← s.getOldAvailableInput oldId
  orPanic (s.takeNewInput id)

/-! ## The invariant -/

structure Ok (s : ValueState) : Prop where
  index : Indexes s.newIdsForSampling s.newIdToIdsIndex
  le_curId : ∀ c ∈ s.newIdsForSampling, c.toNat ≤ s.curId.toNat
  renamed : ∀ old c, s.oldIdToNewId old = some c →
    c ∈ s.newIdsForSampling ∧ s.newIdToOldId c = some old

theorem new_ok : new.Ok :=
  ⟨indexes_nil, fun _ h => absurd h not_mem_nil, fun _ _ h => nomatch h⟩

theorem clear_ok (s : ValueState) : s.clear.Ok :=
  ⟨indexes_nil, fun _ h => absurd h not_mem_nil, fun _ _ h => nomatch h⟩

variable {s s' : ValueState} {c old : ConnectorID}

structure Took (s : ValueState) (c : ConnectorID) (s' : ValueState) : Prop where
  mem : c ∈ s.newIdsForSampling
  mem_iff : ∀ x, x ∈ s'.newIdsForSampling ↔ x ∈ s.newIdsForSampling ∧ x ≠ c
  numAvailable : s'.numAvailable + 1 = s.numAvailable
  curId : s'.curId = s.curId
  ok : s'.Ok

structure Created (s : ValueState) (c : ConnectorID) (s' : ValueState) : Prop where
  next : c.toNat = s.curId.toNat + 1
  mem_iff : ∀ x, x ∈ s'.newIdsForSampling ↔ x ∈ s.newIdsForSampling ∨ x = c
  numAvailable : s'.numAvailable = s.numAvailable + 1
  curId : s'.curId = c
  ok : s'.Ok

theorem insertNewId_spec (h : s.Ok) (hcur : s.curId.toNat < 65535) :
    ∃ c s', s.insertNewId = .ok (c, s') ∧ Created s c s' ∧ s'.oldIdToNewId = s.oldIdToNewId ∧
      s'.newIdToOldId = s.newIdToOldId := by
  obtain ⟨c, hc, hnext⟩ := nextConnector_ok hcur
  have hfresh : c ∉ s.newIdsForSampling := fun hmem => by
    have := h.le_curId c hmem; omega
  have hlen : (s.newIdsForSampling ++ [c]).length - 1 = s.newIdsForSampling.length := by simp
  simp only [insertNewId, hc, bind, Except.bind, hlen]
  refine ⟨c, _, rfl, ⟨hnext, fun x => ?_, ?_, rfl, ?_, fun x hx => ?_, fun o n hn => ?_⟩, rfl, rfl⟩
  · rw [mem_append, mem_singleton]
  · simp [ValueState.numAvailable]
  · exact h.index.push hfresh
  · rw [mem_append, mem_singleton] at hx
    obtain hx | rfl := hx
    · have := h.le_curId x hx
      show x.toNat ≤ c.toNat
      omega
    · exact le_refl _
  · obtain ⟨hmem, hold⟩ := h.renamed o n hn
    exact ⟨mem_append_left _ hmem, hold⟩

theorem insertNewId_overflow (hcur : ¬s.curId.toNat < 65535) :
    s.insertNewId = .error .addWithOverflow := by
  simp [insertNewId, nextConnector, hcur, bind, Except.bind]

variable {r : ConnectorID × ValueState}

theorem curId_insertOldId (h : s.insertOldId old = .ok r) :
    r.2.curId.toNat ≤ s.curId.toNat + 1 := by
  by_cases hcur : s.curId.toNat < 65535
  · obtain ⟨c, hc, hnext⟩ := nextConnector_ok hcur
    simp only [insertOldId, insertNewId, hc, bind, Except.bind, Except.ok.injEq] at h
    rw [← h]
    exact le_of_eq hnext
  · simp [insertOldId, insertNewId_overflow hcur, bind, Except.bind] at h

theorem curId_takeNewInput (h : s.takeNewInput c = .ok r) : r.2.curId = s.curId := by
  rw [takeNewInput] at h
  split at h
  · cases h
  · split at h
    · rw [← Except.ok.inj h]
    · cases h

theorem numAvailable_insertOldId (h : s.insertOldId old = .ok r) :
    r.2.numAvailable = s.numAvailable + 1 := by
  by_cases hcur : s.curId.toNat < 65535
  · obtain ⟨c, hc, -⟩ := nextConnector_ok hcur
    simp only [insertOldId, insertNewId, hc, bind, Except.bind, Except.ok.injEq] at h
    rw [← h]
    simp [numAvailable]
  · simp [insertOldId, insertNewId_overflow hcur, bind, Except.bind] at h

theorem numAvailable_takeNewInput (h : s.takeNewInput c = .ok r) :
    r.2.numAvailable + 1 = s.numAvailable := by
  rw [takeNewInput] at h
  split at h
  · cases h
  · split at h
    · rw [← Except.ok.inj h]
      simp only [numAvailable, length_swapRemove]
      omega
    · cases h

theorem insertOldId_spec (h : s.Ok) (hcur : s.curId.toNat < 65535) (old : ConnectorID) :
    ∃ c s', s.insertOldId old = .ok (c, s') ∧ Created s c s' ∧
      s'.oldIdToNewId = update s.oldIdToNewId old (some c) ∧
        s'.newIdToOldId = update s.newIdToOldId c (some old) := by
  obtain ⟨c, s1, hs1, hcreated, hold, hnew⟩ := insertNewId_spec h hcur
  simp only [insertOldId, hs1, bind, Except.bind]
  refine ⟨c, _, rfl, ⟨hcreated.next, hcreated.mem_iff, hcreated.numAvailable, hcreated.curId,
    hcreated.ok.index, hcreated.ok.le_curId, fun o n hn => ?_⟩, by rw [hold], by rw [hnew]⟩
  simp only at hn ⊢
  by_cases ho : o = old
  · subst ho
    rw [update_self] at hn
    obtain rfl := some.inj hn
    exact ⟨(hcreated.mem_iff c).2 (.inr rfl), by rw [update_self]⟩
  · -- another source id keeps its value, which is not the new one
    rw [update_of_ne ho] at hn
    have hn' : s.oldIdToNewId o = some n := by rw [← hold]; exact hn
    have hne : n ≠ c := fun hnc => by
      have := h.le_curId n (h.renamed o n hn').1
      have := hcreated.next
      rw [hnc] at *
      omega
    obtain ⟨hmem, hback⟩ := hcreated.ok.renamed o n hn
    exact ⟨hmem, by rw [update_of_ne hne]; exact hback⟩

theorem insertOldId_overflow (hcur : ¬s.curId.toNat < 65535) (old : ConnectorID) :
    s.insertOldId old = .error .addWithOverflow := by
  simp [insertOldId, insertNewId_overflow hcur, bind, Except.bind]

theorem takeNewInput_spec (h : s.Ok) (hc : c ∈ s.newIdsForSampling) :
    ∃ s', s.takeNewInput c = .ok (c, s') ∧ Took s c s' ∧ ∀ old, s.newIdToOldId c = some old →
      s'.oldIdToNewId = update s.oldIdToNewId old none := by
  obtain ⟨i, hi⟩ := h.index.mem_iff.1 hc
  have hlt : i < s.newIdsForSampling.length :=
    (List.getElem?_eq_some_iff.1 ((h.index c i).1 hi)).1
  have hmem : ∀ x, x ∈ swapRemove s.newIdsForSampling i ↔ x ∈ s.newIdsForSampling ∧ x ≠ c :=
    fun x => h.index.mem_swapRemove hi
  simp only [takeNewInput, hi, if_pos hlt]
  refine ⟨_, rfl, ⟨hc, hmem, ?_, rfl, h.index.remove hi, fun x hx => ?_, fun o n hn => ?_⟩,
    fun old hold => by rw [hold]⟩
  · simp only [ValueState.numAvailable, length_swapRemove]; omega
  · exact h.le_curId x ((hmem x).1 hx).1
  · -- an entry that is left was there before, and its value is not the consumed one
    simp only at hn ⊢
    have hn' : s.oldIdToNewId o = some n ∧ s.newIdToOldId c ≠ some o := by
      cases hold : s.newIdToOldId c with
      | none =>
        rw [hold] at hn
        exact ⟨hn, fun heq => nomatch heq⟩
      | some old =>
        simp only [hold] at hn
        by_cases ho : o = old
        · rw [ho, update_self] at hn; cases hn
        · rw [update_of_ne ho] at hn
          exact ⟨hn, fun heq => ho (some.inj heq).symm⟩
    obtain ⟨hnmem, hback⟩ := h.renamed o n hn'.1
    have hne : n ≠ c := fun heq => hn'.2 (heq ▸ hback)
    exact ⟨(hmem n).2 ⟨hnmem, hne⟩, by rw [update_of_ne hne]; exact hback⟩

variable {x : Distributions} {E : Panic → Distributions → Prop}

variable {Q : ConnectorID → Distributions → Prop}

theorem ends_getRandomInput (h0 : 0 < s.numAvailable)
    (hQ : ∀ c x', c ∈ s.newIdsForSampling → Q c x') : Ends s.getRandomInput x Q E := by
  have hne : s.newIdsForSampling ≠ [] := length_pos_iff.1 h0
  simp only [getRandomInput, ends_bind]
  rw [ends_check_of hne]
  exact ends_genPick hne hQ

theorem ends_getOldAvailableInput (h : s.Ok) (h0 : 0 < s.numAvailable)
    (hQ : ∀ c x', c ∈ s.newIdsForSampling → Q c x') : Ends (s.getOldAvailableInput old) x Q E := by
  unfold getOldAvailableInput getRenamedOldInput
  split
  · next c hc => exact hQ c x (h.renamed old c hc).1
  · exact ends_getRandomInput h0 hQ

theorem ends_takeNewInput {Q : ConnectorID × ValueState → Distributions → Prop} (h : s.Ok)
    (hc : c ∈ s.newIdsForSampling) (hQ : ∀ s', Took s c s' → Q (c, s') x) :
    Ends (orPanic (s.takeNewInput c)) x Q E := by
  obtain ⟨s', hs', htook, -⟩ := takeNewInput_spec h hc
  rw [hs']
  exact hQ s' htook

theorem ends_takeRandomInput {Q : ConnectorID × ValueState → Distributions → Prop} (h : s.Ok)
    (h0 : 0 < s.numAvailable) (hQ : ∀ c s' x', Took s c s' → Q (c, s') x') :
    Ends s.takeRandomInput x Q E := by
  rw [takeRandomInput, ends_bind]
  exact ends_getRandomInput h0 fun c x' hc => ends_takeNewInput h hc fun s' => hQ c s' x'

theorem ends_takeOldAvailableInput {Q : ConnectorID × ValueState → Distributions → Prop} (h : s.Ok)
    (h0 : 0 < s.numAvailable) (hQ : ∀ c s' x', Took s c s' → Q (c, s') x') :
    Ends (s.takeOldAvailableInput old) x Q E := by
  rw [takeOldAvailableInput, ends_bind]
  exact ends_getOldAvailableInput h h0 fun c x' hc => ends_takeNewInput h hc fun s' => hQ c s' x'

end ValueState

/-! ## All value types -/

abbrev GraphState := ValueTypeID → Option ValueState

namespace GraphState

def new : GraphState := fun _ => none

def stateOf (s : GraphState) (v : ValueTypeID) : ValueState := (s v).getD ValueState.new

def insert (s : GraphState) (v : ValueTypeID) (vs : ValueState) : GraphState :=
  update s v (some vs)

@[simp] theorem stateOf_insert_self (s : GraphState) (v : ValueTypeID) (vs : ValueState) :
    (s.insert v vs).stateOf v = vs := by
  rw [stateOf, insert, update_self]; rfl

variable {s : GraphState}

theorem stateOf_insert_of_ne {v w : ValueTypeID} (vs : ValueState) (h : w ≠ v) :
    (s.insert v vs).stateOf w = s.stateOf w := by
  rw [stateOf, insert, update_of_ne h, ← stateOf]

theorem stateOf_insert_stateOf (s : GraphState) (v w : ValueTypeID) :
    (s.insert v (s.stateOf v)).stateOf w = s.stateOf w := by
  by_cases h : w = v
  · rw [h, stateOf_insert_self]
  · rw [stateOf_insert_of_ne _ h]

def clear (s : GraphState) : GraphState := fun v => (s v).map ValueState.clear

def missingKey (s other : GraphState) : Bool :=
  (List.range 65536).any fun i =>
    (s (UInt16.ofNat i)).isSome && (other (UInt16.ofNat i)).isNone

theorem missingKey_iff {other : GraphState} :
    s.missingKey other = true ↔ ∃ v, (s v).isSome ∧ other v = none := by
  simp only [missingKey, List.any_eq_true, List.mem_range, Bool.and_eq_true, Option.isNone_iff_eq_none]
  constructor
  · rintro ⟨i, -, h⟩; exact ⟨_, h⟩
  · rintro ⟨v, h⟩; exact ⟨v.toNat, v.toNat_lt, by rwa [UInt16.ofNat_toNat]⟩

def resetTo (s other : GraphState) : Except Panic GraphState :=
  if s.missingKey other then .error .noEntryFound
  else .ok fun v => (s v).map fun vs => vs.resetTo (other.stateOf v)

def isAvailable (s : GraphState) (spec : GraphSpec) (n : NodeTypeID) : Bool :=
  match spec.getNode n with
  | none => false
  | some nodeSpec =>
    nodeSpec.requiredValues.entries.all fun p =>
      match s p.1 with
      | some state => decide (state.numAvailable ≥ p.2)
      | none => false

def Ok (s : GraphState) : Prop := ∀ v, (s.stateOf v).Ok

theorem clear_ok (s : GraphState) : s.clear.Ok := by
  intro v
  unfold stateOf clear
  cases s v with
  | none => exact ValueState.new_ok
  | some vs => exact ValueState.clear_ok vs

theorem Ok.insert {v : ValueTypeID} {vs : ValueState} (h : s.Ok) (hvs : vs.Ok) :
    (s.insert v vs).Ok := by
  intro w
  by_cases hw : w = v
  · rw [hw, stateOf_insert_self]; exact hvs
  · rw [stateOf_insert_of_ne vs hw]; exact h w

theorem isAvailable_iff {spec : GraphSpec} {n : NodeTypeID} :
    s.isAvailable spec n = true ↔ ∃ nType, spec.getNode n = some nType ∧
      ∀ v, need nType.passthroughs nType.inputs v ≤ (s.stateOf v).numAvailable := by
  unfold isAvailable
  cases hn : spec.getNode n with
  | none => simp
  | some nType =>
    have hreq := (GraphSpec.getNode_ok hn).required_eq
    simp only [Option.some.injEq, exists_eq_left', hreq, List.all_eq_true]
    rw [← forall_requiredValues_le]
    refine forall₂_congr fun p hp => ?_
    cases hs : s p.1 with
    | some state => simp [stateOf, hs]
    | none =>
      have hpos : 0 < p.2 := requiredValues_pos hp
      have h0 : (s.stateOf p.1).numAvailable = 0 := by rw [stateOf, hs]; rfl
      simp only [Bool.false_eq_true, h0, false_iff]
      omega

end GraphState

end FuzzSocketCan
