import FuzzSocketCan.FuzzRunner.RedqueenEvent
import FuzzSocketCan.RustFuzzer.Fuzzer
import FuzzSocketCan.StructuredFuzzer.BoundedStorage

/-! # The dictionaries of minimized inputs

`perform_min` stores the results of a minimization and traces each of them with redqueen. The loop
writes the dictionary to `&input`, the input that was minimized, and not to the result it was
traced for.

* **`performMin_dictsArrive_iff`** — the dictionaries are right exactly if the traces have no
  comparison to take an entry from. -/

namespace FuzzSocketCan

open Lib List Option Function

/-! ## The dictionary of a trace -/

def RedqueenEvent.entries (ev : RedqueenEvent) : List DictEntry :=
  match ev.bpType with
  | .cmp | .sub =>
    if ev.imm then [⟨ev.lhs, ev.rhs⟩] else [⟨ev.lhs, ev.rhs⟩, ⟨ev.rhs, ev.lhs⟩]
  | .str => []

abbrev DictGroups := AList fun _ : UInt64 => List DictEntry

def addEvent (groups : DictGroups) (ev : RedqueenEvent) : DictGroups :=
  groups.insert ev.addr ((groups.lookup ev.addr).getD [] ++ ev.entries)

abbrev GroupOrder :=
  { f : List (Σ _ : UInt64, List DictEntry) → List (Σ _ : UInt64, List DictEntry) //
    ∀ l, (f l).Perm l }

def customDictFromRqData (order : GroupOrder) (data : List RedqueenEvent) : CustomDict :=
  ⟨((order.1 (data.foldl addEvent ∅).entries).map fun e => e.2).filter fun v => v.length > 0⟩

def CustomDict.new : CustomDict := ⟨[]⟩

theorem RedqueenEvent.entries_eq_nil {ev : RedqueenEvent} : ev.entries = [] ↔ ev.bpType = .str := by
  unfold RedqueenEvent.entries
  cases ev.bpType <;> simp
  all_goals split <;> simp

def DictGroups.Empty (groups : DictGroups) : Prop := ∀ a v, groups.lookup a = some v → v = []

theorem DictGroups.empty_addEvent {groups : DictGroups} {ev : RedqueenEvent} :
    DictGroups.Empty (addEvent groups ev) ↔ DictGroups.Empty groups ∧ ev.entries = [] := by
  constructor
  · intro h
    have hev := h ev.addr _ (AList.lookup_insert groups)
    rw [append_eq_nil_iff] at hev
    refine ⟨fun a v ha => ?_, hev.2⟩
    rcases eq_or_ne a ev.addr with rfl | hne
    · rw [ha] at hev
      exact hev.1
    · exact h a v (by rw [addEvent, AList.lookup_insert_ne hne, ha])
  · rintro ⟨h, hev⟩ a v ha
    rcases eq_or_ne a ev.addr with rfl | hne
    · rw [addEvent, AList.lookup_insert, hev, append_nil] at ha
      cases hold : groups.lookup ev.addr with
      | none => rw [hold] at ha; exact (some.inj ha).symm
      | some old => rw [hold] at ha; exact some.inj ha ▸ h _ _ hold
    · rw [addEvent, AList.lookup_insert_ne hne] at ha
      exact h a v ha

variable {data : List RedqueenEvent}

theorem DictGroups.empty_foldl_addEvent {groups : DictGroups} :
    DictGroups.Empty (data.foldl addEvent groups) ↔
      DictGroups.Empty groups ∧ ∀ ev ∈ data, ev.entries = [] := by
  induction data generalizing groups with
  | nil => simp
  | cons ev data ih => rw [foldl_cons, ih, DictGroups.empty_addEvent]; simp [and_assoc]

theorem customDictFromRqData_eq_new {order : GroupOrder} :
    customDictFromRqData order data = .new ↔ ∀ ev ∈ data, ev.bpType = .str := by
  have hempty : customDictFromRqData order data = .new ↔
      DictGroups.Empty (data.foldl addEvent ∅) := by
    simp only [customDictFromRqData, CustomDict.new, CustomDict.mk.injEq, List.filter_eq_nil_iff,
      List.forall_mem_map, (order.2 _).mem_iff, DictGroups.Empty, ← Option.mem_def,
      AList.mem_lookup_iff, Sigma.forall, decide_eq_true_eq, gt_iff_lt, Nat.not_lt, Nat.le_zero,
      List.length_eq_zero_iff]
  rw [hempty, DictGroups.empty_foldl_addEvent]
  simp only [RedqueenEvent.entries_eq_nil, and_iff_right_iff_imp]
  intro _ a v ha
  cases ha

/-! ## Storing the results of a minimization -/

structure DictQueue where
  data : QueueData
  state : InputID → InputState
  customDict : InputID → CustomDict

abbrev DictM := EStateM Panic DictQueue

structure RqRuns where
  trace : InputID → VecGraph → List RedqueenEvent
  order : InputID → GroupOrder

def RqRuns.dict (runs : RqRuns) (id : InputID) (g : VecGraph) : CustomDict :=
  customDictFromRqData (runs.order id) (runs.trace id g)

inductive MinResult
  | kept
  | replaced (input : Input)

namespace DictQueue

def new (bitmapSize : ℕ) : DictQueue := ⟨.new bitmapSize, fun _ => .havoc, fun _ => .new⟩

def addInput (spec : GraphSpec) (order : IterOrder) (input : Input) (state : InputState)
    (dict : CustomDict) : DictM (Option InputID) := do
  let stored ← focus DictQueue.data (fun d s => { s with data := d }) (add spec order input)
  match stored with
  | some id => do
      modify fun s => { s with
        state := update s.state id state
        customDict := update s.customDict id dict }
      pure (some id)
  | none => pure none

def setState (id : InputID) (state : InputState) : DictM PUnit := do
  check (id < (← get).data.inputs.length) .assertionFailed
  modify fun s => { s with state := update s.state id state }

def setCustomDict (id : InputID) (dict : CustomDict) : DictM PUnit := do
  check (id < (← get).data.inputs.length) .assertionFailed
  modify fun s => { s with customDict := update s.customDict id dict }

def storeFind (spec : GraphSpec) (order : IterOrder) (input : Input) : DictM PUnit := do
  let _ ← addInput spec order input .minimize .new

def addResult (spec : GraphSpec) (order : IterOrder) (input : Input) (dict : CustomDict) :
    MinResult → DictM (Option InputID)
  | .kept => addInput spec order { input with id := .invalid } .havoc dict
  | .replaced inp => addInput spec order inp .havoc .new

/-- One round of the loop of `perform_min`. -/
def storeResult (spec : GraphSpec) (order : IterOrder) (runs : RqRuns) (input : Input)
    (dict : CustomDict) (result : MinResult) : DictM (Option InputID) := do
  match ← addResult spec order input dict result with
  | some id => do
      let inp ← unwrap (← get).data.inputs[id]? .indexOutOfBounds
      -- the source passes `&input`, the input that is being minimized
      setCustomDict input.id (runs.dict id inp.data)
      pure (some id)
  | none => pure none

def storeResults (spec : GraphSpec) (order : IterOrder) (runs : RqRuns) (input : Input)
    (dict : CustomDict) : List MinResult → DictM (List InputID)
  | [] => pure []
  | r :: rs => do
      let stored ← storeResult spec order runs input dict r
      let ids ← storeResults spec order runs input dict rs
      pure (stored.toList ++ ids)

/-- `perform_min` on a clone of a stored input: the runs store `finds` and end with `results`. -/
def performMin (spec : GraphSpec) (order : IterOrder) (runs : RqRuns) (input : Input)
    (dict : CustomDict) (finds : List Input) (results : List MinResult) : DictM (List InputID) := do
  setState input.id .havoc
  if input.storageReasons.any StorageReason.hasNewByte then do
    forEach finds (storeFind spec order)
    storeResults spec order runs input dict results
  else pure []

end DictQueue

inductive DictAction
  | find (input : Input)
  | minimize (i : InputID) (finds : List Input) (results : List MinResult)

namespace DictQueue

def step (spec : GraphSpec) (order : IterOrder) (runs : RqRuns) (s : DictQueue) :
    DictAction → Option DictQueue
  | .find input =>
    match storeFind spec order input s with
    | .ok _ s' => some s'
    | .error .. => none
  | .minimize i finds results =>
    match s.data.inputs[i]? with
    | none => none
    | some input =>
      if s.state input.id = .minimize then
        match performMin spec order runs input (s.customDict input.id) finds results s with
        | .ok _ s' => some s'
        | .error .. => none
      else none

end DictQueue

/-! ## What storing changes -/

theorem ends_registerReason_inputs {spec : GraphSpec} {id : InputID} {len : ℕ} {r : StorageReason}
    {d : QueueData} :
    Ends (registerReason spec id len r) d (fun _ d' => d'.inputs = d.inputs) mayPanic := by
  cases r with
  | bitmap reason =>
    have hsame := (QueueData.sameInputs_ensureExample d reason.index id).inputs
    simp only [registerReason, registerBestInputForBitmap, ends_bind, ends_modify, ends_get]
    apply ends_unwrap_mayPanic
    intro old _
    apply ends_unwrap_mayPanic
    intro inp _
    apply ends_orPanic_mayPanic
    intro oldLen _
    exact ends_ite (fun _ => hsame) fun _ => hsame
  | ijonMax reason => exact rfl
  | imported => exact rfl

theorem ends_add_inputs {spec : GraphSpec} {order : IterOrder} {input : Input} {d : QueueData} :
    Ends (add spec order input) d (fun stored d' =>
      (stored = none ∧ d' = d) ∨
      (stored = some d.inputs.length ∧
        d'.inputs = d.inputs ++ [{ input with id := d.inputs.length }])) mayPanic := by
  simp only [add, beginAdd, ends_bind]
  apply ends_check_mayPanic
  intro _
  apply ends_orPanic_mayPanic
  intro nodeLen _
  refine ends_ite (fun _ => .inl ⟨rfl, rfl⟩) fun _ => ?_
  refine ends_ite (fun _ => ?_) fun _ => .inl ⟨rfl, rfl⟩
  simp only [ends_map, storeInput, ends_bind, ends_get, ends_modify, ends_pure]
  apply ends_orPanic_mayPanic
  intro newLen _
  set pushed := d.push { input with id := d.inputs.length }
  have hloop : Ends (forEach input.storageReasons (registerReason spec d.inputs.length newLen)) pushed
      (fun _ d' => d'.inputs = pushed.inputs) mayPanic := by
    refine ends_forEach (I := fun _ (d' : QueueData) => d'.inputs = pushed.inputs) rfl ?_
    intro r _ d' hd'
    exact ends_registerReason_inputs.weaken fun _ d'' hd'' => hd''.trans hd'
  refine hloop.weaken fun _ d' hd' => ?_
  -- the favourites are computed from the inputs and do not change them
  simp only [endAdd, calcFavBits, ends_bind, ends_get, ends_modify, ends_pure]
  apply ends_orPanic_mayPanic
  intro favids _
  exact .inr ⟨trivial, hd'⟩

namespace DictQueue

variable {spec : GraphSpec} {order : IterOrder} {runs : RqRuns} {s s' : DictQueue} {input : Input}
  {dict : CustomDict}

structure Extends (orig : InputID) (s s' : DictQueue) : Prop where
  inputs : s.data.inputs <+: s'.data.inputs
  state : ∀ id < s.data.inputs.length, s'.state id = s.state id
  dicts : ∀ id < s.data.inputs.length, id ≠ orig → s'.customDict id = s.customDict id

theorem Extends.refl (orig : InputID) (s : DictQueue) : Extends orig s s :=
  ⟨prefix_rfl, fun _ _ => rfl, fun _ _ _ => rfl⟩

variable {orig : InputID}

theorem Extends.trans {s'' : DictQueue} (h : Extends orig s s') (h' : Extends orig s' s'') :
    Extends orig s s'' := by
  have hlen := h.inputs.length_le
  refine ⟨h.inputs.trans h'.inputs, ?_, ?_⟩
  · intro id hid
    rw [h'.state id (by omega), h.state id hid]
  · intro id hid hne
    rw [h'.dicts id (by omega) hne, h.dicts id hid hne]

theorem Extends.getElem? (h : Extends orig s s') {id : InputID} {inp : Input}
    (hid : s.data.inputs[id]? = some inp) : s'.data.inputs[id]? = some inp := by
  obtain ⟨rest, heq⟩ := h.inputs
  rw [← heq, List.getElem?_append_left (List.getElem?_eq_some_iff.1 hid).1]
  exact hid

structure Added (input : Input) (state : InputState) (dict : CustomDict) (s s' : DictQueue) :
    Prop where
  inputs : s'.data.inputs = s.data.inputs ++ [{ input with id := s.data.inputs.length }]
  state : s'.state = update s.state s.data.inputs.length state
  customDict : s'.customDict = update s.customDict s.data.inputs.length dict

variable {state : InputState}

theorem Added.extends (h : Added input state dict s s') (orig : InputID) : Extends orig s s' := by
  refine ⟨⟨_, h.inputs.symm⟩, ?_, ?_⟩
  · intro id hid
    rw [h.state, update_of_ne (ne_of_lt hid)]
  · intro id hid _
    rw [h.customDict, update_of_ne (ne_of_lt hid)]

theorem ends_addInput {Q : Option InputID → DictQueue → Prop} (hnone : Q none s)
    (hsome : ∀ s', Added input state dict s s' → Q (some s.data.inputs.length) s') :
    Ends (addInput spec order input state dict) s Q mayPanic := by
  simp only [addInput, ends_bind, ends_focus]
  refine ends_add_inputs.mono ?_ fun _ _ _ => trivial
  rintro stored d (⟨rfl, rfl⟩ | ⟨rfl, hd⟩)
  · exact hnone
  · exact hsome _ ⟨hd, rfl, rfl⟩

/-! ## Inputs to be minimized have no dictionary yet -/

/-- An input to be minimized has no dictionary yet. -/
def Fresh (s : DictQueue) : Prop := ∀ id, s.state id = .minimize → s.customDict id = .new

theorem Added.fresh (h : Added input state dict s s') (hs : s.Fresh)
    (hdict : state = .minimize → dict = .new) : s'.Fresh := by
  intro id hid
  rw [h.state] at hid
  rw [h.customDict]
  rcases eq_or_ne id s.data.inputs.length with rfl | hne
  · rw [update_self] at hid ⊢
    exact hdict hid
  · rw [update_of_ne hne] at hid ⊢
    exact hs id hid

theorem ends_storeFinds (hs : s.Fresh) (orig : InputID) (finds : List Input) :
    Ends (forEach finds (storeFind spec order)) s (fun _ s' =>
      s'.Fresh ∧ Extends orig s s' ∧ ∀ id < s.data.inputs.length, s'.customDict id = s.customDict id)
      mayPanic := by
  refine ends_forEach (I := fun _ s' => s'.Fresh ∧ Extends orig s s' ∧
    ∀ id < s.data.inputs.length, s'.customDict id = s.customDict id)
    ⟨hs, Extends.refl orig s, fun _ _ => rfl⟩ ?_
  rintro find _ s1 ⟨hfresh, hext, hdicts⟩
  simp only [storeFind, ends_bind]
  refine ends_addInput ⟨hfresh, hext, hdicts⟩ fun s2 hadd => ⟨?_, ?_, ?_⟩
  · exact hadd.fresh hfresh fun _ => rfl
  · exact hext.trans (hadd.extends orig)
  · intro id hid
    have hne : id ≠ s1.data.inputs.length := by
      have := hext.inputs.length_le
      omega
    rw [hadd.customDict, update_of_ne hne, hdicts id hid]

/-! ## The loop over the results -/

structure Looped (runs : RqRuns) (orig : InputID) (s s' : DictQueue) (ids : List InputID) : Prop where
  fresh : s'.Fresh
  extend : Extends orig s s'
  stored : ∀ id ∈ ids, s.data.inputs.length ≤ id ∧ s'.customDict id = .new
  exists_input : ∀ id ∈ ids, ∃ inp, s'.data.inputs[id]? = some inp
  orig_dict : s'.customDict orig = s.customDict orig ∨
    ∃ id ∈ ids, ∃ inp, s'.data.inputs[id]? = some inp ∧ s'.customDict orig = runs.dict id inp.data

theorem Added.looped {inp : Input} (h : Added inp .havoc .new s s') (hs : s.Fresh)
    (horig : orig < s.data.inputs.length) (hstate : s.state orig = .havoc) {stored : Input}
    (hstored : s'.data.inputs[s.data.inputs.length]? = some stored) :
    Looped runs orig s
      { s' with
        customDict := update s'.customDict orig
          (runs.dict s.data.inputs.length stored.data) }
      [s.data.inputs.length] := by
  have hne : s.data.inputs.length ≠ orig := ne_of_gt horig
  have hext := h.extends orig
  refine ⟨?_, ⟨hext.inputs, hext.state, ?_⟩, ?_, ?_, .inr ⟨_, mem_singleton_self _, stored,
    hstored, update_self ..⟩⟩
  · intro id hid
    rcases eq_or_ne id orig with rfl | hid'
    · have := (hext.state id horig).trans hstate
      exact absurd (hid.symm.trans this) (by decide)
    · exact (update_of_ne hid' _ _).trans (h.fresh hs (fun _ => rfl) id hid)
  · intro id hid hid'
    exact (update_of_ne hid' _ _).trans (hext.dicts id hid hid')
  · intro id hid
    obtain rfl := mem_singleton.1 hid
    refine ⟨le_refl _, (update_of_ne hne _ _).trans ?_⟩
    rw [h.customDict, update_self]
  · intro id hid
    obtain rfl := mem_singleton.1 hid
    exact ⟨stored, hstored⟩

theorem ends_storeResult (hs : s.Fresh) (hstate : s.state input.id = .havoc)
    (hid : input.id < s.data.inputs.length) (result : MinResult) :
    Ends (storeResult spec order runs input .new result) s
      (fun stored s' => Looped runs input.id s s' stored.toList) mayPanic := by
  -- both kinds of results are stored with the empty dictionary
  have hround : ∀ inp, Ends (do
      match ← addInput spec order inp .havoc .new with
      | some id => do
          let inp ← unwrap (← get).data.inputs[id]? .indexOutOfBounds
          setCustomDict input.id (runs.dict id inp.data)
          pure (some id)
      | none => pure none) s
        (fun stored s' => Looped runs input.id s s' stored.toList) mayPanic := by
    intro inp
    rw [ends_bind]
    refine ends_addInput ⟨hs, Extends.refl _ s, by simp, by simp, .inl rfl⟩ fun s1 hadd => ?_
    simp only [ends_bind, ends_get, setCustomDict, ends_modify, ends_pure]
    apply ends_unwrap_mayPanic
    intro stored hstored
    apply ends_check_mayPanic
    intro _
    exact hadd.looped hs hid hstate hstored
  cases result with
  | kept => exact hround _
  | replaced inp => exact hround _

theorem Looped.append {s'' : DictQueue} {ids ids' : List InputID}
    (horig : orig < s.data.inputs.length) (h : Looped runs orig s s' ids)
    (h' : Looped runs orig s' s'' ids') : Looped runs orig s s'' (ids ++ ids') := by
  have hlen := h.extend.inputs.length_le
  have hlater : ∀ id ∈ ids, ∀ inp, s'.data.inputs[id]? = some inp →
      s''.data.inputs[id]? = some inp ∧ s''.customDict id = s'.customDict id := by
    intro id hid inp hinp
    have hne : id ≠ orig := ne_of_gt (lt_of_lt_of_le horig (h.stored id hid).1)
    exact ⟨h'.extend.getElem? hinp,
      h'.extend.dicts id (List.getElem?_eq_some_iff.1 hinp).1 hne⟩
  refine ⟨h'.fresh, h.extend.trans h'.extend, ?_, ?_, ?_⟩
  · intro id hid
    rcases mem_append.1 hid with hid | hid
    · obtain ⟨inp, hinp⟩ := h.exists_input id hid
      rw [(hlater id hid inp hinp).2]
      exact h.stored id hid
    · obtain ⟨hle, hnew⟩ := h'.stored id hid
      exact ⟨hlen.trans hle, hnew⟩
  · intro id hid
    rcases mem_append.1 hid with hid | hid
    · obtain ⟨inp, hinp⟩ := h.exists_input id hid
      exact ⟨inp, (hlater id hid inp hinp).1⟩
    · exact h'.exists_input id hid
  · rcases h'.orig_dict with hkept | ⟨id, hid, inp, hinp, hdict⟩
    · rw [hkept]
      rcases h.orig_dict with hkept' | ⟨id, hid, inp, hinp, hdict⟩
      · exact .inl hkept'
      · exact .inr ⟨id, mem_append_left _ hid, inp, (hlater id hid inp hinp).1, hdict⟩
    · exact .inr ⟨id, mem_append_right _ hid, inp, hinp, hdict⟩

theorem ends_storeResults (hs : s.Fresh) (hstate : s.state input.id = .havoc)
    (hid : input.id < s.data.inputs.length) (results : List MinResult) :
    Ends (storeResults spec order runs input .new results) s
      (fun ids s' => Looped runs input.id s s' ids) mayPanic := by
  induction results generalizing s with
  | nil => exact ⟨hs, Extends.refl _ s, by simp, by simp, .inl rfl⟩
  | cons r rs ih =>
    simp only [storeResults, ends_bind, ends_pure]
    refine (ends_storeResult hs hstate hid r).weaken fun stored s1 h1 => ?_
    have hid1 := lt_of_lt_of_le hid h1.extend.inputs.length_le
    have hstate1 := (h1.extend.state _ hid).trans hstate
    exact (ih h1.fresh hstate1 hid1).weaken fun ids s2 h2 => h1.append hid h2

/-! ## `perform_min` -/

structure Minimized (runs : RqRuns) (orig : InputID) (s s' : DictQueue) (ids : List InputID) : Prop
    where
  fresh : s'.Fresh
  stored : ∀ id ∈ ids, ∃ inp, s'.data.inputs[id]? = some inp ∧ s'.customDict id = .new
  others : ∀ id < s.data.inputs.length, id ≠ orig → s'.customDict id = s.customDict id
  orig_dict : s'.customDict orig = s.customDict orig ∨
    ∃ id ∈ ids, ∃ inp, s'.data.inputs[id]? = some inp ∧ s'.customDict orig = runs.dict id inp.data

theorem ends_performMin (hs : s.Fresh) (hstate : s.state input.id = .minimize) (finds : List Input)
    (results : List MinResult) :
    Ends (performMin spec order runs input (s.customDict input.id) finds results) s
      (fun ids s' => Minimized runs input.id s s' ids) mayPanic := by
  rw [hs _ hstate]
  simp only [performMin, setState, ends_bind, ends_get, ends_modify]
  apply ends_check_mayPanic
  intro hid
  have hfresh0 : Fresh { s with state := update s.state input.id .havoc } := by
    intro id hmin
    rcases eq_or_ne id input.id with rfl | hne
    · simp at hmin
    · exact hs id (by simpa [hne] using hmin)
  refine ends_ite (fun _ => ?_) fun _ => ⟨hfresh0, by simp, fun _ _ _ => rfl, .inl rfl⟩
  refine (ends_storeFinds hfresh0 input.id finds).bind ?_
  rintro _ s1 ⟨hfresh1, hext1, hdicts1⟩
  have hlen : s.data.inputs.length ≤ s1.data.inputs.length := hext1.inputs.length_le
  have hstate1 : s1.state input.id = .havoc :=
    (hext1.state _ hid).trans (update_self ..)
  refine (ends_storeResults hfresh1 hstate1 (lt_of_lt_of_le hid hlen) results).weaken
    fun ids s2 h2 => ?_
  refine ⟨h2.fresh, ?_, ?_, ?_⟩
  · intro id hmem
    obtain ⟨inp, hinp⟩ := h2.exists_input id hmem
    exact ⟨inp, hinp, (h2.stored id hmem).2⟩
  · intro id hlt hne
    rw [h2.extend.dicts id (lt_of_lt_of_le hlt hlen) hne]
    exact hdicts1 id hlt
  · rcases h2.orig_dict with hkept | hset
    · exact .inl (hkept.trans (hdicts1 _ hid))
    · exact .inr hset

theorem fresh_of_exec {bitmapSize : ℕ} {as : List DictAction}
    (h : exec (step spec order runs) (.new bitmapSize) as = some s) : s.Fresh := by
  refine exec_invariant (I := Fresh) ?_ (fun _ _ => rfl) h
  intro s a s' hs hstep
  cases a with
  | find input =>
    have hends : Ends (storeFind spec order input) s (fun _ s' => s'.Fresh) mayPanic := by
      simp only [storeFind, ends_bind]
      exact ends_addInput hs fun s1 hadd => hadd.fresh hs fun _ => rfl
    simp only [step] at hstep
    split at hstep
    · next hok =>
        obtain rfl := some.inj hstep
        exact hends.of_ok hok
    · cases hstep
  | minimize i finds results =>
    simp only [step] at hstep
    split at hstep
    · cases hstep
    · split at hstep
      · next hmin =>
          split at hstep
          · next hok =>
              obtain rfl := some.inj hstep
              exact ((ends_performMin hs hmin finds results).of_ok hok).fresh
          · cases hstep
      · cases hstep

/-- Each stored result has its dictionary, and the other inputs keep theirs. -/
def DictsArrive (runs : RqRuns) (s s' : DictQueue) (ids : List InputID) : Prop :=
  (∀ id ∈ ids, ∃ inp, s'.data.inputs[id]? = some inp ∧ s'.customDict id = runs.dict id inp.data) ∧
    ∀ id < s.data.inputs.length, s'.customDict id = s.customDict id

/-- **When the dictionaries reach the stored results.** -/
theorem performMin_dictsArrive_iff {bitmapSize : ℕ} {as : List DictAction}
    {finds : List Input} {results : List MinResult} {ids : List InputID}
    (hreach : exec (step spec order runs) (.new bitmapSize) as = some s)
    (hstate : s.state input.id = .minimize)
    (hrun : performMin spec order runs input (s.customDict input.id) finds results s = .ok ids s') :
    DictsArrive runs s s' ids ↔
      ∀ id ∈ ids, ∀ inp, s'.data.inputs[id]? = some inp →
        ∀ ev ∈ runs.trace id inp.data, ev.bpType = .str := by
  have hfresh := fresh_of_exec hreach
  have hmin := (ends_performMin hfresh hstate finds results).of_ok hrun
  have hempty : ∀ id g, runs.dict id g = .new ↔ ∀ ev ∈ runs.trace id g, ev.bpType = .str :=
    fun id g => customDictFromRqData_eq_new
  constructor
  · rintro ⟨hstored, -⟩ id hid inp hinp
    obtain ⟨inp', hinp', hdict⟩ := hstored id hid
    obtain rfl : inp' = inp := some.inj (hinp'.symm.trans hinp)
    obtain ⟨-, -, hnew⟩ := hmin.stored id hid
    exact (hempty id _).1 (hdict.symm.trans hnew)
  · intro htraces
    have hdict : ∀ id ∈ ids, ∀ inp, s'.data.inputs[id]? = some inp →
        runs.dict id inp.data = .new := fun id hid inp hinp =>
      (hempty id _).2 (htraces id hid inp hinp)
    refine ⟨?_, ?_⟩
    · intro id hid
      obtain ⟨inp, hinp, hnew⟩ := hmin.stored id hid
      exact ⟨inp, hinp, hnew.trans (hdict id hid inp hinp).symm⟩
    · intro id hlt
      rcases eq_or_ne id input.id with rfl | hne
      · rcases hmin.orig_dict with hkept | ⟨id, hid, inp, hinp, hset⟩
        · exact hkept
        · rw [hset, hdict id hid inp hinp, hfresh _ hstate]
      · exact hmin.others id hlt hne

def newFind : Input := openInput 1 [.bitmap ⟨0, 0, 1⟩]

def constantRuns (events : List RedqueenEvent) : RqRuns :=
  ⟨fun _ _ => events, fun _ => ⟨fun l => l, fun l => List.Perm.refl l⟩⟩

theorem performMin_dictsArrive_string :
    ∃ s s', exec (step connectionSpec listOrder (constantRuns [⟨0x1000, .str, [1], [2], false⟩]))
        (.new 1) [.find newFind] = some s ∧
      performMin connectionSpec listOrder (constantRuns [⟨0x1000, .str, [1], [2], false⟩])
        { newFind with id := 0 } (s.customDict 0) [] [.kept] s = .ok [1] s' ∧
      DictsArrive (constantRuns [⟨0x1000, .str, [1], [2], false⟩]) s s' [1] := by
  refine ⟨_, _, rfl, rfl, ?_⟩
  refine (performMin_dictsArrive_iff
    (show exec (step connectionSpec listOrder _) (.new 1) [.find newFind] = some _ from rfl) rfl
    (show performMin connectionSpec listOrder _ { newFind with id := 0 } _ [] [.kept] _ = .ok [1] _
      from rfl)).2 ?_
  intro id _ inp _ ev hev
  rw [mem_singleton.1 hev]

theorem performMin_dict_misses :
    ∃ s s', exec (step connectionSpec listOrder (constantRuns [⟨0x1000, .cmp, [1], [2], true⟩]))
        (.new 1) [.find newFind] = some s ∧
      performMin connectionSpec listOrder (constantRuns [⟨0x1000, .cmp, [1], [2], true⟩])
        { newFind with id := 0 } (s.customDict 0) [] [.kept] s = .ok [1] s' ∧
      s'.customDict 1 = .new ∧ s.customDict 0 = .new ∧ s'.customDict 0 = ⟨[[⟨[1], [2]⟩]]⟩ ∧
      ¬DictsArrive (constantRuns [⟨0x1000, .cmp, [1], [2], true⟩]) s s' [1] := by
  refine ⟨_, _, rfl, rfl, rfl, rfl, rfl, ?_⟩
  rintro ⟨-, hframe⟩
  exact absurd (hframe 0 (by decide)) (by decide)

end DictQueue

end FuzzSocketCan
