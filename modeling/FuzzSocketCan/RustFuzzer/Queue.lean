import FuzzSocketCan.StructuredFuzzer.GraphStorage
import FuzzSocketCan.RustFuzzer.Coverage

/-! # The input queue

`Queue::add` stores an input under the write lock and registers it as an example for each bitmap
index among its storage reasons; the queue keeps the shortest one. An ijon slot is registered in
the same table under its own number. Then `add` computes the favourites.

* **`add`**, with **`storeInput`** and **`calcFavBits`** — the calls.
* **`QueueData.store`** — what storing an input comes to. -/

namespace FuzzSocketCan

open Lib List VecGraph

/-! ## Inputs -/

abbrev InputID := ℕ

def InputID.invalid : InputID := 2 ^ 64 - 1

structure Input where
  id : InputID
  data : VecGraph
  bitmap : Bitmap
  exitReason : ExitReason
  storageReasons : List StorageReason
  foundBy : MutationStrategy

def VecGraph.nodeLen (spec : GraphSpec) (g : VecGraph) : Except Panic ℕ :=
  match (nodesOf spec g).stop with
  | none => .ok (nodesOf spec g).items.length
  | some e => .error e

/-- The part of the queue's data that `add` uses. -/
structure QueueData where
  minExample : ℕ → Option InputID
  favqueue : List InputID
  inputs : List Input
  bitmapBits : List ℕ
  bitmaps : BitmapHandler

def QueueData.new (bitmapSize : ℕ) : QueueData := ⟨fun _ => none, [], [], [], .new bitmapSize⟩

abbrev QueueM := EStateM Panic QueueData

/-! ## Storing an input -/

def QueueData.ensureExample (d : QueueData) (bitmapIndex : ℕ) (inputId : InputID) : QueueData :=
  if (d.minExample bitmapIndex).isNone then
    { d with
      bitmapBits := d.bitmapBits ++ [bitmapIndex]
      minExample := Function.update d.minExample bitmapIndex (some inputId) }
  else d

def QueueData.setExample (d : QueueData) (index : ℕ) (inputId : InputID) : QueueData :=
  { d with minExample := Function.update d.minExample index (some inputId) }

def registerBestInputForBitmap (spec : GraphSpec) (bitmapIndex : ℕ) (inputId : InputID)
    (newLen : ℕ) : QueueM PUnit := do
  modify (·.ensureExample bitmapIndex inputId)
  let d ← get
  let oldEntry ← unwrap (d.minExample bitmapIndex) .unwrapNone
  let old ← unwrap d.inputs[oldEntry]? .indexOutOfBounds
  let oldLen ← orPanic (old.data.nodeLen spec)
  if oldLen > newLen then
    modify (·.setExample bitmapIndex inputId)

def registerBestInputForIjonMax (ijonIndex : ℕ) (inputId : InputID) : QueueM PUnit :=
  modify (·.setExample ijonIndex inputId)

def QueueData.push (d : QueueData) (input : Input) : QueueData :=
  { d with inputs := d.inputs ++ [input] }

def registerReason (spec : GraphSpec) (id : InputID) (newLen : ℕ) : StorageReason → QueueM PUnit
  | .bitmap reason => registerBestInputForBitmap spec reason.index id newLen
  | .ijonMax reason => registerBestInputForIjonMax reason.index id
  | .imported => pure ⟨⟩

/-- What `add` does under the write lock. -/
def storeInput (spec : GraphSpec) (input : Input) : QueueM InputID := do
  let id := (← get).inputs.length
  let newLen ← orPanic (input.data.nodeLen spec)
  modify (·.push { input with id := id })
  forEach input.storageReasons (registerReason spec id newLen)
  pure id

/-! ## The favourites -/

def hasNewBits (bits : List UInt8) : ℕ → List UInt8 → Except Panic Bool
  | _, [] => .ok false
  | i, v :: vs =>
    match bits[i]? with
    | none => .error .indexOutOfBounds
    | some b => if b = 0 ∧ 0 < v then .ok true else hasNewBits bits (i + 1) vs

def coverBits (bits : List UInt8) : ℕ → List UInt8 → Except Panic (List UInt8)
  | _, [] => .ok bits
  | i, v :: vs =>
    if v = 0 then coverBits bits (i + 1) vs
    else if i < bits.length then coverBits (bits.set i 1) (i + 1) vs
    else .error .indexOutOfBounds

abbrev IjonSlots := AList fun _ : ℕ => UInt64 × InputID

def takeSlots (id : InputID) : ℕ → List UInt64 → IjonSlots → IjonSlots
  | _, [], slots => slots
  | i, v :: vs, slots =>
    if v ≠ 0 ∧ ((slots.lookup i).isNone ∨ ∃ p ∈ slots.lookup i, p.1 < v) then
      takeSlots id (i + 1) vs (slots.insert i (v, id))
    else takeSlots id (i + 1) vs slots

structure FavScan where
  favids : List InputID
  bits : List UInt8
  slots : IjonSlots

def FavScan.visit (s : FavScan) (inp : Input) : Except Panic FavScan :=
  if inp.storageReasons.any StorageReason.hasNewByte then do
    let slots := takeSlots inp.id 0 inp.bitmap.ijonMax s.slots
    if ← hasNewBits s.bits 0 inp.bitmap.bits then
      let bits ← coverBits s.bits 0 inp.bitmap.bits
      pure ⟨s.favids ++ [inp.id], bits, slots⟩
    else pure ⟨s.favids, s.bits, slots⟩
  else if inp.foundBy = .seedImport then .ok { s with favids := s.favids ++ [inp.id] }
  else .ok s

abbrev IterOrder :=
  { f : List (Σ _ : ℕ, UInt64 × InputID) → List (Σ _ : ℕ, UInt64 × InputID) // ∀ l, (f l).Perm l }

def favScan (size : ℕ) (inputs : List Input) : Except Panic FavScan :=
  inputs.reverse.foldlM FavScan.visit ⟨[], List.replicate size 0, ∅⟩

def FavScan.favourites (order : IterOrder) (s : FavScan) : List InputID :=
  (order.1 s.slots.entries).foldl
    (fun favids e => if e.2.2 ∈ favids then favids else favids ++ [e.2.2]) s.favids

def favBits (order : IterOrder) (size : ℕ) (inputs : List Input) : Except Panic (List InputID) := do
  let s ← favScan size inputs
  pure (s.favourites order)

/-- The reading part of `calc_fav_bits`. -/
def QueueData.readFavBits (d : QueueData) (order : IterOrder) : Except Panic (List InputID) :=
  favBits order d.bitmaps.size d.inputs

def calcFavBits (order : IterOrder) : QueueM PUnit := do
  let favids ← orPanic ((← get).readFavBits order)
  modify fun d => { d with favqueue := favids }

def ExitReason.isStored : ExitReason → Bool
  | normal _ => true
  | crash _ => true
  | _ => false

def beginAdd (spec : GraphSpec) (input : Input) : QueueM (Option InputID) := do
  check (input.id = InputID.invalid) .assertionFailed
  let nodeLen ← orPanic (input.data.nodeLen spec)
  if nodeLen = 0 then pure none
  else if input.exitReason.isStored then some <$> storeInput spec input
  else pure none

def endAdd (order : IterOrder) : Option InputID → QueueM (Option InputID)
  | some id => do
      calcFavBits order
      pure (some id)
  | none => pure none

def add (spec : GraphSpec) (order : IterOrder) (input : Input) : QueueM (Option InputID) := do
  let stored ← beginAdd spec input
  endAdd order stored

/-! ## Storing does not panic

An input is counted before it is stored, and the table of examples names only stored inputs, so
that what happens under the write lock is a function of the data (`storeInput_eq`). -/

def QueueData.lenAt (spec : GraphSpec) (d : QueueData) (id : InputID) : ℕ :=
  match d.inputs[id]? with
  | some inp => (nodesOf spec inp.data).items.length
  | none => 0

structure QueueData.Sane (spec : GraphSpec) (d : QueueData) : Prop where
  counted : ∀ inp ∈ d.inputs, (nodesOf spec inp.data).stop = none
  stored : ∀ i, ∀ id ∈ d.minExample i, id < d.inputs.length

def QueueData.register (spec : GraphSpec) (id : InputID) (d : QueueData) : StorageReason → QueueData
  | .bitmap reason =>
    let d := d.ensureExample reason.index id
    if ∃ old ∈ d.minExample reason.index, d.lenAt spec old > d.lenAt spec id then
      d.setExample reason.index id
    else d
  | .ijonMax reason => d.setExample reason.index id
  | .imported => d

def QueueData.store (spec : GraphSpec) (d : QueueData) (input : Input) : QueueData :=
  input.storageReasons.foldl (QueueData.register spec d.inputs.length)
    (d.push { input with id := d.inputs.length })

theorem VecGraph.nodeLen_eq_ok {spec : GraphSpec} {g : VecGraph} (h : (nodesOf spec g).stop = none) :
    g.nodeLen spec = .ok (nodesOf spec g).items.length := by
  rw [nodeLen, h]

theorem VecGraph.stop_of_nodeLen {spec : GraphSpec} {g : VecGraph} {n : ℕ}
    (h : g.nodeLen spec = .ok n) : (nodesOf spec g).stop = none := by
  rw [nodeLen] at h
  split at h
  · assumption
  · cases h

namespace QueueData

variable {spec : GraphSpec} {d : QueueData} {i : ℕ} {id : InputID}

structure SameInputs (d d' : QueueData) : Prop where
  inputs : d'.inputs = d.inputs
  favqueue : d'.favqueue = d.favqueue
  bitmaps : d'.bitmaps = d.bitmaps

theorem sameInputs_ensureExample (d : QueueData) (i : ℕ) (id : InputID) :
    SameInputs d (d.ensureExample i id) := by
  rw [ensureExample]
  split <;> exact ⟨rfl, rfl, rfl⟩

theorem sameInputs_setExample (d : QueueData) (i : ℕ) (id : InputID) :
    SameInputs d (d.setExample i id) := ⟨rfl, rfl, rfl⟩

theorem SameInputs.trans {d' d'' : QueueData} (h : SameInputs d d') (h' : SameInputs d' d'') :
    SameInputs d d'' :=
  ⟨h'.inputs.trans h.inputs, h'.favqueue.trans h.favqueue, h'.bitmaps.trans h.bitmaps⟩

theorem sameInputs_register (spec : GraphSpec) (id : InputID) (d : QueueData) (r : StorageReason) :
    SameInputs d (d.register spec id r) := by
  cases r with
  | bitmap reason =>
    simp only [register]
    split
    · exact (sameInputs_ensureExample d _ id).trans (sameInputs_setExample _ _ id)
    · exact sameInputs_ensureExample d _ id
  | ijonMax reason => exact sameInputs_setExample d _ id
  | imported => exact ⟨rfl, rfl, rfl⟩

theorem sameInputs_foldl_register (spec : GraphSpec) (id : InputID) (d : QueueData)
    (rs : List StorageReason) : SameInputs d (rs.foldl (register spec id) d) := by
  induction rs generalizing d with
  | nil => exact ⟨rfl, rfl, rfl⟩
  | cons r rs ih => exact (sameInputs_register spec id d r).trans (ih _)

theorem Sane.setExample (h : d.Sane spec) (hid : id < d.inputs.length) :
    (d.setExample i id).Sane spec := by
  refine ⟨h.counted, ?_⟩
  intro j x hx
  by_cases hj : j = i
  · subst hj
    obtain rfl : id = x := by simpa [QueueData.setExample] using hx
    exact hid
  · simp only [QueueData.setExample, Function.update_of_ne hj] at hx
    exact h.stored j x hx

theorem Sane.ensureExample (h : d.Sane spec) (hid : id < d.inputs.length) :
    (d.ensureExample i id).Sane spec := by
  rw [QueueData.ensureExample]
  split
  · have := h.setExample (i := i) hid
    exact ⟨this.counted, this.stored⟩
  · exact h

theorem Sane.register (h : d.Sane spec) (hid : id < d.inputs.length) (r : StorageReason) :
    (d.register spec id r).Sane spec := by
  cases r with
  | bitmap reason =>
    have hensure := h.ensureExample (i := reason.index) hid
    simp only [QueueData.register]
    split
    · refine hensure.setExample ?_
      rw [(sameInputs_ensureExample d _ id).inputs]
      exact hid
    · exact hensure
  | ijonMax reason => exact h.setExample hid
  | imported => exact h

theorem exists_minExample_ensureExample (d : QueueData) (i : ℕ) (id : InputID) :
    ∃ old, (d.ensureExample i id).minExample i = some old := by
  rw [QueueData.ensureExample]
  split
  · exact ⟨id, Function.update_self ..⟩
  · rename_i h
    exact Option.isSome_iff_exists.mp (by simpa [Option.isSome_iff_ne_none] using h)

theorem Sane.registerReason_eq (h : d.Sane spec) (hid : id < d.inputs.length) (r : StorageReason) :
    registerReason spec id (d.lenAt spec id) r d = .ok ⟨⟩ (d.register spec id r) := by
  cases r with
  | bitmap reason =>
    have hensure := h.ensureExample (i := reason.index) hid
    have hinputs := (sameInputs_ensureExample d reason.index id).inputs
    obtain ⟨old, hold⟩ := exists_minExample_ensureExample d reason.index id
    have hlt := hensure.stored _ old hold
    set d1 := d.ensureExample reason.index id with hd1
    have hlen : d.lenAt spec id = d1.lenAt spec id := by
      rw [lenAt, lenAt, hinputs]
    have hold' : d1.inputs[old]? = some d1.inputs[old] := getElem?_eq_getElem hlt
    have hcounted := hensure.counted _ (getElem_mem hlt)
    have hlenold : d1.lenAt spec old = (nodesOf spec d1.inputs[old].data).items.length := by
      rw [lenAt, hold']
    have hregister : d.register spec id (.bitmap reason) =
        if d1.lenAt spec old > d1.lenAt spec id then d1.setExample reason.index id else d1 := by
      simp [QueueData.register, ← hd1, hold]
    simp only [registerReason, registerBestInputForBitmap]
    rw [modify_bind_run, get_bind_run, ← hd1, hold, unwrap_bind_run, hold', unwrap_bind_run,
      nodeLen_eq_ok hcounted, orPanic_bind_run, ← hlenold, hlen, hregister]
    split <;> rfl
  | ijonMax reason => rfl
  | imported => rfl

theorem lenAt_eq_of_sameInputs {d' : QueueData} (h : SameInputs d d') (id : InputID) :
    d'.lenAt spec id = d.lenAt spec id := by
  rw [lenAt, lenAt, h.inputs]

theorem Sane.forEach_registerReason (h : d.Sane spec) (hid : id < d.inputs.length)
    (rs : List StorageReason) :
    forEach rs (registerReason spec id (d.lenAt spec id)) d =
        .ok ⟨⟩ (rs.foldl (QueueData.register spec id) d) ∧
      (rs.foldl (QueueData.register spec id) d).Sane spec := by
  induction rs generalizing d with
  | nil => exact ⟨rfl, h⟩
  | cons r rs ih =>
    have hsame := sameInputs_register spec id d r
    rw [forEach, bind_run_ok (h.registerReason_eq hid r), ← lenAt_eq_of_sameInputs hsame id]
    exact ih (h.register hid r) (by rw [hsame.inputs]; exact hid)

theorem Sane.push (h : d.Sane spec) {input : Input}
    (hcount : (nodesOf spec input.data).stop = none) : (d.push input).Sane spec := by
  refine ⟨?_, ?_⟩
  · intro inp hinp
    rcases mem_append.mp hinp with hinp | hinp
    · exact h.counted inp hinp
    · obtain rfl := mem_singleton.mp hinp
      exact hcount
  · intro i x hx
    have := h.stored i x hx
    simp only [QueueData.push, length_append, length_singleton]
    exact Nat.lt_succ_of_lt this

theorem Sane.storeInput_eq (h : d.Sane spec) {input : Input}
    (hcount : (nodesOf spec input.data).stop = none) :
    storeInput spec input d = .ok d.inputs.length (d.store spec input) ∧
      (d.store spec input).Sane spec := by
  set d1 := d.push { input with id := d.inputs.length } with hd1
  have hid : d.inputs.length < d1.inputs.length := by simp [hd1, QueueData.push]
  have hlen : d1.lenAt spec d.inputs.length = (nodesOf spec input.data).items.length := by
    simp [hd1, QueueData.push, lenAt]
  have hpush : d1.Sane spec := h.push hcount
  obtain ⟨hloop, hsane⟩ := hpush.forEach_registerReason hid input.storageReasons
  refine ⟨?_, hsane⟩
  simp only [storeInput]
  rw [get_bind_run, nodeLen_eq_ok hcount, orPanic_bind_run, modify_bind_run, ← hlen]
  exact bind_run_ok hloop

theorem inputs_store (spec : GraphSpec) (d : QueueData) (input : Input) :
    (d.store spec input).inputs = d.inputs ++ [{ input with id := d.inputs.length }] ∧
      (d.store spec input).favqueue = d.favqueue ∧ (d.store spec input).bitmaps = d.bitmaps := by
  have h := sameInputs_foldl_register spec d.inputs.length
    (d.push { input with id := d.inputs.length }) input.storageReasons
  exact ⟨h.inputs, h.favqueue, h.bitmaps⟩

theorem sane_new (spec : GraphSpec) (bitmapSize : ℕ) : (QueueData.new bitmapSize).Sane spec := by
  refine ⟨?_, ?_⟩
  · intro inp hinp
    exact absurd hinp not_mem_nil
  · intro i id hid
    cases hid

end QueueData

structure Input.Accepted (spec : GraphSpec) (input : Input) : Prop where
  fresh : input.id = InputID.invalid
  counted : (nodesOf spec input.data).stop = none
  nonempty : (nodesOf spec input.data).items ≠ []
  exit : input.exitReason.isStored

theorem beginAdd_cases {spec : GraphSpec} {d : QueueData} (h : d.Sane spec) (input : Input) :
    (input.Accepted spec ∧
      beginAdd spec input d = .ok (some d.inputs.length) (d.store spec input)) ∨
    (¬input.Accepted spec ∧
      (beginAdd spec input d = .ok none d ∨ ∃ e, beginAdd spec input d = .error e d)) := by
  rw [beginAdd]
  by_cases hfresh : input.id = InputID.invalid
  · rw [check_bind_run hfresh]
    cases hlen : input.data.nodeLen spec with
    | error e =>
      refine .inr ⟨?_, .inr ⟨e, rfl⟩⟩
      intro hacc
      rw [nodeLen_eq_ok hacc.counted] at hlen
      cases hlen
    | ok n =>
      have hcount := stop_of_nodeLen hlen
      obtain rfl : (nodesOf spec input.data).items.length = n := by
        simpa [nodeLen_eq_ok hcount] using hlen
      rw [orPanic_bind_run]
      by_cases hzero : (nodesOf spec input.data).items.length = 0
      · rw [if_pos hzero]
        exact .inr ⟨fun hacc => hacc.nonempty (eq_nil_of_length_eq_zero hzero), .inl rfl⟩
      · rw [if_neg hzero]
        by_cases hexit : input.exitReason.isStored
        · rw [if_pos hexit]
          refine .inl ⟨⟨hfresh, hcount, ?_, hexit⟩, ?_⟩
          · intro hnil
            exact hzero (by rw [hnil]; rfl)
          · show EStateM.map some (storeInput spec input) d = _
            rw [EStateM.map, (h.storeInput_eq hcount).1]
        · rw [if_neg hexit]
          exact .inr ⟨fun hacc => hexit hacc.exit, .inl rfl⟩
  · refine .inr ⟨fun hacc => hfresh hacc.fresh, .inr ⟨.assertionFailed, ?_⟩⟩
    rw [check, if_neg hfresh]
    rfl

theorem lastState_endAdd (order : IterOrder) (stored : Option InputID) (d : QueueData) :
    ∃ favs, lastState (endAdd order stored d) = { d with favqueue := favs } := by
  cases stored with
  | none => exact ⟨d.favqueue, rfl⟩
  | some id =>
    simp only [endAdd, calcFavBits, bind_assoc]
    rw [get_bind_run]
    cases d.readFavBits order with
    | error e => exact ⟨d.favqueue, rfl⟩
    | ok favs => exact ⟨favs, rfl⟩

theorem lastState_add {spec : GraphSpec} {d : QueueData} (h : d.Sane spec) (order : IterOrder)
    (input : Input) :
    (input.Accepted spec → ∃ favs, lastState (add spec order input d) =
      { d.store spec input with favqueue := favs }) ∧
    (¬input.Accepted spec → lastState (add spec order input d) = d) := by
  rw [add]
  rcases beginAdd_cases h input with ⟨hacc, hok⟩ | ⟨hacc, hok | ⟨e, herr⟩⟩
  · rw [bind_run_ok hok]
    exact ⟨fun _ => lastState_endAdd order _ _, fun hno => absurd hacc hno⟩
  · rw [bind_run_ok hok]
    exact ⟨fun h => absurd h hacc, fun _ => rfl⟩
  · refine ⟨fun h => absurd h hacc, fun _ => ?_⟩
    show lastState (EStateM.bind (beginAdd spec input) (endAdd order) d) = d
    rw [EStateM.bind, herr]
    rfl

def openInput (n : ℕ) (reasons : List StorageReason) : Input where
  id := InputID.invalid
  data := ⟨(List.range n).flatMap fun i => [0, UInt16.ofNat i], []⟩
  bitmap := ⟨[1], []⟩
  exitReason := .normal 0
  storageReasons := reasons
  foundBy := .generate

def listOrder : IterOrder := ⟨fun l => l, fun l => List.Perm.refl l⟩

end FuzzSocketCan
