import FuzzSocketCan.Guest.Payload

/-! # The guest's interpreter

C code generated from the specification the host loads. It walks over the ops with the cursors
`ops_i` and `data_i`, calls a handler for each node, returns early at interactive nodes, and is
called again until it returns 0. A call of a handler is recorded; only that of
`create_tmp_snapshot` touches the interpreter: the guest is saved in it, and moves `ops_i` back
when it is resumed.
-/

namespace FuzzSocketCan

open Lib

/-! ## The generated tables -/

inductive GuestType
  | fixed (size : ℕ)
  | vec (elemSize : ℕ)
  deriving DecidableEq, Repr

def GuestType.sizeAt (types : List GuestType) (id : ℕ) : ℕ :=
  match types[id]? with
  | some (fixed size) => size
  | _ => 0

/-- The reader generated for a data type. -/
def AtomLoader.guestType (types : List GuestType) : AtomLoader → GuestType
  | struct _ fields => .fixed (fields.map fun f => GuestType.sizeAt types f.2).sum
  | int _ size _ => .fixed size
  | vec _ _ dtype _ => .vec (GuestType.sizeAt types dtype)

structure GuestNode where
  name : String
  size : ℕ
  data : Option GuestType
  args : List ValueTypeID
  interactive : Bool
  deriving DecidableEq, Repr

namespace SpecLoader

def guestTypes (l : SpecLoader) : List GuestType :=
  l.atomics.foldl (fun types a => types ++ [a.guestType types]) []

def guestNode (l : SpecLoader) (n : NodeLoader) : GuestNode where
  name := n.name
  size := n.inputs.length + n.borrows.length + n.outputs.length + 1
  data := n.atomId.bind fun id => l.guestTypes[id]?
  args := n.inputs ++ n.borrows ++ n.outputs
  interactive := n.isInteractive

def guestNodes (l : SpecLoader) : List GuestNode := l.nodes.map l.guestNode

end SpecLoader

/-! ## The state of the guest -/

/-- `interpreter_t`; pointers are offsets into the payload, `none` is `NULL`. -/
structure Interpreter where
  ops : Option ℕ
  opsLen : ℕ
  opsI : ℕ
  data : Option ℕ
  dataLen : ℕ
  dataI : ℕ
  deriving DecidableEq, Repr

inductive GuestData
  | none
  | fixed (bytes : List UInt8)
  | vec (count : ℕ) (vals : List UInt8)
  deriving DecidableEq, Repr

structure HandlerCall where
  op : NodeTypeID
  opsI : ℕ
  dataI : ℕ
  data : GuestData
  args : List (ValueTypeID × ConnectorID)
  deriving DecidableEq, Repr

structure GuestState where
  mem : Mem
  vm : Interpreter
  calls : List HandlerCall

inductive GuestExit
  | assertFailed
  | divideByZero
  /-- The hypercall in the handler of `create_tmp_snapshot`, where the guest is saved. -/
  | tmpSnapshot (node : GuestNode)
  | outOfFuel
  deriving DecidableEq, Repr

abbrev Guest := EStateM GuestExit GuestState

/-- `*vm->ops_len`. -/
def GuestState.opsLen (s : GuestState) : ℕ := wordAt s.mem 8 s.vm.opsLen

/-- `*vm->data_len`. -/
def GuestState.dataLen (s : GuestState) : ℕ := wordAt s.mem 8 s.vm.dataLen

def tableLen : ℕ := 0xffff

def GuestState.new (mem : Mem) : GuestState := ⟨mem, ⟨none, 0, 0, none, 0, 0⟩, []⟩

/-! ## The code -/

/-- `setup_interpreter`, with `init_interpreter`. -/
def setupInterpreter (checksum : ℕ) : Guest PUnit := do
  let s ← get
  let offsets := fun i => wordAt s.mem 8 (8 * i)
  check (offsets 0 = checksum) .assertFailed
  check (offsets 1 < 0xffffff) .assertFailed
  check (offsets 2 < 0xffffff) .assertFailed
  check (offsets 3 < 0xffffff) .assertFailed
  check (offsets 4 < 0xffffff) .assertFailed
  check (offsets 3 + offsets 1 * 2 ≤ payloadSize) .assertFailed
  check (offsets 4 + offsets 2 ≤ payloadSize) .assertFailed
  set { s with vm := ⟨some (offsets 3), 8, 0, some (offsets 4), 16, 0⟩ }

/-- The readers, `read_…`. -/
def readData (data : ℕ) : GuestType → Guest GuestData
  | .fixed size => do
      let s ← get
      check (s.vm.dataI + size ≤ s.dataLen) .assertFailed
      set { s with vm := { s.vm with dataI := s.vm.dataI + size } }
      pure (.fixed (bytesAt s.mem (data + s.vm.dataI) size))
  | .vec elemSize => do
      let s ← get
      check (s.vm.dataI + 2 ≤ s.dataLen) .assertFailed
      let byteSize := wordAt s.mem 2 (data + s.vm.dataI)
      let dataI := s.vm.dataI + 2
      check (dataI + byteSize ≤ s.dataLen) .assertFailed
      -- the size of a struct without fields is 0
      check (elemSize ≠ 0) .divideByZero
      set { s with vm := { s.vm with dataI := dataI + byteSize } }
      pure (.vec (byteSize / elemSize) (bytesAt s.mem (data + dataI) byteSize))

def readNodeData (data : ℕ) (n : GuestNode) : Guest GuestData :=
  match n.data with
  | none => pure .none
  | some t => readData data t

def fetch (nodes : List GuestNode) (ops data : ℕ) : Guest (GuestNode × HandlerCall) := do
  let s ← get
  let op := wordAt s.mem 2 (ops + 2 * s.vm.opsI)
  match nodes[op]? with
  | none => throw .assertFailed
  | some n => do
      check (s.opsLen ≥ s.vm.opsI + n.size) .assertFailed
      let d ← readNodeData data n
      let ids := (wordsAt s.mem 2 (ops + 2 * (s.vm.opsI + 1)) n.args.length).map UInt16.ofNat
      let dataI := (← get).vm.dataI
      pure (n, ⟨UInt16.ofNat op, s.vm.opsI, dataI, d, n.args.zip ids⟩)

def handler (n : GuestNode) (call : HandlerCall) : Guest PUnit :=
  if n.name = "create_tmp_snapshot" then throw (.tmpSnapshot n)
  else modify fun s => { s with calls := s.calls ++ [call] }

def advance (n : GuestNode) : Guest Bool := do
  modify fun s => { s with vm := { s.vm with opsI := (s.vm.opsI + n.size) % 2 ^ 64 } }
  pure n.interactive

/-- One round of the loop of `interpreter_run`. -/
def interpretNode (nodes : List GuestNode) (ops data : ℕ) : Guest Bool := do
  let (n, call) ← fetch nodes ops data
  handler n call
  advance n

def interpreterLoop (nodes : List GuestNode) (ops data : ℕ) : ℕ → Guest Bool
  | 0 => throw .outOfFuel
  | fuel + 1 => do
      let s ← get
      if s.vm.opsI < s.opsLen then
        if ← interpretNode nodes ops data then pure true
        else interpreterLoop nodes ops data fuel
      else pure false

def interpreterRun (nodes : List GuestNode) (fuel : ℕ) : Guest Bool := do
  let s ← get
  match s.vm.ops, s.vm.data with
  | some ops, some data => interpreterLoop nodes ops data fuel
  | _, _ => throw .assertFailed

/-- `while (interpreter_run(vm));`. -/
def runToEnd (nodes : List GuestNode) : ℕ → Guest PUnit
  | 0 => throw .outOfFuel
  | fuel + 1 => do
      if ← interpreterRun nodes (fuel + 1) then runToEnd nodes fuel
      else pure ⟨⟩

def runFromStart (l : SpecLoader) (fuel : ℕ) (mem : Mem) : EStateM.Result GuestExit GuestState PUnit :=
  (do setupInterpreter l.checksum; runToEnd l.guestNodes fuel : Guest PUnit) (GuestState.new mem)

def snapshotResumed (n : GuestNode) : Guest PUnit :=
  modify fun s => { s with vm := { s.vm with opsI := (s.vm.opsI + (2 ^ 64 - n.size)) % 2 ^ 64 } }

/-- The guest from where it was saved, in the handler of `n`, on the given payload. The loop goes on
with the saved pointers, asserted before it began. -/
def runFromSnapshot (l : SpecLoader) (fuel : ℕ) (n : GuestNode) (saved : GuestState) (mem : Mem) :
    EStateM.Result GuestExit GuestState PUnit :=
  (do
    snapshotResumed n
    if ← advance n then runToEnd l.guestNodes fuel
    else if ← interpreterRun l.guestNodes fuel then runToEnd l.guestNodes fuel
    else pure ⟨⟩ : Guest PUnit) { saved with mem := mem }

/-! ## One loop

The early returns do not matter for the nodes that are interpreted: running to the end is one loop
over the nodes. -/

def interpretNodes (nodes : List GuestNode) (ops data : ℕ) : ℕ → Guest PUnit
  | 0 => throw .outOfFuel
  | fuel + 1 => do
      let s ← get
      if s.vm.opsI < s.opsLen then do
        let _ ← interpretNode nodes ops data
        interpretNodes nodes ops data fuel
      else pure ⟨⟩

variable {fuel : ℕ}

theorem interpretNodes_succ {nodes : List GuestNode} {ops data : ℕ} {s : GuestState}
    (h : s.vm.opsI < s.opsLen) :
    interpretNodes nodes ops data (fuel + 1) s =
      match interpretNode nodes ops data s with
      | .ok _ s' => interpretNodes nodes ops data fuel s'
      | .error e s' => .error e s' := by
  simp only [interpretNodes, bind_run, get_run, if_pos h]
  cases interpretNode nodes ops data s <;> rfl

theorem interpretNodes_done {nodes : List GuestNode} {ops data : ℕ} {s : GuestState}
    (h : ¬s.vm.opsI < s.opsLen) : interpretNodes nodes ops data (fuel + 1) s = .ok ⟨⟩ s := by
  simp only [interpretNodes, bind_run, get_run, if_neg h]
  rfl

def GuestState.remaining (s : GuestState) : ℕ := s.opsLen - s.vm.opsI

structure SamePayload (s s' : GuestState) : Prop where
  mem : s'.mem = s.mem
  ops : s'.vm.ops = s.vm.ops
  opsLen : s'.vm.opsLen = s.vm.opsLen
  data : s'.vm.data = s.vm.data
  dataLen : s'.vm.dataLen = s.vm.dataLen

theorem SamePayload.opsLen_eq {s s' : GuestState} (h : SamePayload s s') : s'.opsLen = s.opsLen := by
  rw [GuestState.opsLen, GuestState.opsLen, h.mem, h.opsLen]

variable {nodes : List GuestNode} {ops data : ℕ} {s s' : GuestState}

def GuestState.skipData (s : GuestState) (n : ℕ) : GuestState :=
  { s with vm := { s.vm with dataI := s.vm.dataI + n } }

def GuestExit.Early (e : GuestExit) : Prop := e = .assertFailed ∨ e = .divideByZero

theorem ends_readNodeData (n : GuestNode) :
    Ends (readNodeData data n) s
      (fun _ s' => ∃ k, s' = s.skipData k ∧ (k = 0 ∨ s.vm.dataI + k ≤ s.dataLen))
      (fun e s' => e.Early ∧ s' = s) := by
  rw [readNodeData]
  split
  · exact ⟨0, rfl, .inl rfl⟩
  · next t _ =>
      cases t with
      | fixed size =>
        simp only [readData, ends_bind, ends_get, ends_check_iff, ends_set, ends_pure]
        exact ⟨fun hle => ⟨size, rfl, .inr hle⟩, fun _ => ⟨.inl rfl, trivial⟩⟩
      | vec elemSize =>
        simp only [readData, ends_bind, ends_get, ends_check_iff, ends_set, ends_pure]
        refine ⟨fun _ => ⟨fun hle => ⟨fun _ => ⟨2 + wordAt s.mem 2 (data + s.vm.dataI), ?_, .inr ?_⟩,
          fun _ => ⟨.inr rfl, trivial⟩⟩, fun _ => ⟨.inl rfl, trivial⟩⟩,
          fun _ => ⟨.inl rfl, trivial⟩⟩
        · rw [GuestState.skipData, add_assoc]
        · rw [← add_assoc]; exact hle

theorem ends_fetch :
    Ends (fetch nodes ops data) s
      (fun r s' => nodes[wordAt s.mem 2 (ops + 2 * s.vm.opsI)]? = some r.1 ∧
        s.vm.opsI + r.1.size ≤ s.opsLen ∧
          ∃ k, s' = s.skipData k ∧ (k = 0 ∨ s.vm.dataI + k ≤ s.dataLen))
      (fun e s' => e.Early ∧ s' = s) := by
  rw [fetch]
  simp only [ends_bind, ends_get]
  split
  · exact ⟨.inl rfl, rfl⟩
  · next n hn =>
      simp only [ends_bind, ends_check_iff]
      refine ⟨fun hle => ?_, fun _ => ⟨.inl rfl, trivial⟩⟩
      refine (ends_readNodeData n).weaken fun d s' hs' => ?_
      exact ⟨hn, hle, hs'⟩

theorem ends_interpretNode (hpos : ∀ n ∈ nodes, 0 < n.size) :
    Ends (interpretNode nodes ops data) s (fun _ s' => SamePayload s s' ∧
      s.vm.opsI < s'.vm.opsI ∧ s'.vm.opsI ≤ s.opsLen) mayPanic := by
  rw [interpretNode, ends_bind]
  refine ends_fetch.mono ?_ fun _ _ _ => trivial
  rintro ⟨n, call⟩ _ ⟨hn, hle, k, rfl, -⟩
  simp only at hn hle
  have hsize := hpos n (List.mem_of_getElem? hn)
  have hlt : s.opsLen < 2 ^ 64 := wordAt_lt s.mem 8 s.vm.opsLen
  have hmod : ((s.skipData k).vm.opsI + n.size) % 2 ^ 64 = s.vm.opsI + n.size :=
    Nat.mod_eq_of_lt (by show s.vm.opsI + n.size < 2 ^ 64; omega)
  simp only [handler, advance, ends_bind]
  split
  · trivial
  · simp only [ends_modify, ends_pure, hmod]
    exact ⟨⟨rfl, rfl, rfl, rfl, rfl⟩, by omega, by omega⟩

theorem interpretNode_remaining (hpos : ∀ n ∈ nodes, 0 < n.size) {b : Bool}
    (h : interpretNode nodes ops data s = .ok b s') :
    SamePayload s s' ∧ s'.remaining < s.remaining := by
  obtain ⟨hsame, hlt, hle⟩ := (ends_interpretNode hpos).of_ok h
  refine ⟨hsame, ?_⟩
  rw [GuestState.remaining, GuestState.remaining, hsame.opsLen_eq]
  omega

theorem interpretNodes_enough (hpos : ∀ n ∈ nodes, 0 < n.size) {fuel' : ℕ} (h : s.remaining < fuel)
    (h' : s.remaining < fuel') :
    interpretNodes nodes ops data fuel s = interpretNodes nodes ops data fuel' s := by
  induction fuel generalizing fuel' s with
  | zero => omega
  | succ fuel ih =>
    obtain ⟨fuel', rfl⟩ : ∃ f, fuel' = f + 1 := ⟨fuel' - 1, by omega⟩
    by_cases hlt : s.vm.opsI < s.opsLen
    · rw [interpretNodes_succ hlt, interpretNodes_succ hlt]
      cases hnode : interpretNode nodes ops data s with
      | error e s1 => rfl
      | ok b s1 =>
        have hrem := (interpretNode_remaining hpos hnode).2
        exact ih (by omega) (by omega)
    · rw [interpretNodes_done hlt, interpretNodes_done hlt]

theorem interpreterLoop_then_runToEnd (hpos : ∀ n ∈ nodes, 0 < n.size) {n fuel' fuel'' : ℕ}
    (hops : s.vm.ops = some ops) (hdata : s.vm.data = some data) (hn : s.remaining ≤ n)
    (h : n < fuel) (h' : n ≤ fuel') (h'' : n < fuel'') :
    (do if ← interpreterLoop nodes ops data fuel then runToEnd nodes fuel' else pure ⟨⟩ :
      Guest PUnit) s = interpretNodes nodes ops data fuel'' s := by
  induction n using Nat.strong_induction_on generalizing s fuel fuel' fuel'' with
  | _ n ih =>
  obtain ⟨fuel, rfl⟩ : ∃ f, fuel = f + 1 := ⟨fuel - 1, by omega⟩
  obtain ⟨fuel'', rfl⟩ : ∃ f, fuel'' = f + 1 := ⟨fuel'' - 1, by omega⟩
  simp only [interpreterLoop, interpretNodes, bind_run, get_run]
  by_cases hlt : s.vm.opsI < s.opsLen
  · rw [if_pos hlt, if_pos hlt]
    simp only [bind_run]
    cases hnode : interpretNode nodes ops data s with
    | error e s1 => rfl
    | ok b s1 =>
      obtain ⟨hsame, hrem⟩ := interpretNode_remaining hpos hnode
      have hops1 := hsame.ops.trans hops
      have hdata1 := hsame.data.trans hdata
      have hlt1 : s1.remaining < n := lt_of_lt_of_le hrem hn
      cases b with
      | false =>
        exact ih _ hlt1 hops1 hdata1 (le_refl _) (lt_of_lt_of_le hlt1 (Nat.lt_succ_iff.1 h))
          (le_of_lt (lt_of_lt_of_le hlt1 h'))
          (lt_of_lt_of_le hlt1 (Nat.lt_succ_iff.1 h''))
      | true =>
        -- the interpreter returned 1 and is called again
        obtain ⟨fuel', rfl⟩ : ∃ f, fuel' = f + 1 := ⟨fuel' - 1, by omega⟩
        show runToEnd nodes (fuel' + 1) s1 = interpretNodes nodes ops data fuel'' s1
        rw [← ih _ hlt1 hops1 hdata1 (le_refl _) (lt_of_lt_of_le hlt1 h')
          (Nat.lt_succ_iff.1 (lt_of_lt_of_le hlt1 h'))
          (lt_of_lt_of_le hlt1 (Nat.lt_succ_iff.1 h''))]
        simp [runToEnd, interpreterRun, bind_run, get_run, hops1, hdata1]
  · rw [if_neg hlt, if_neg hlt]
    rfl

theorem runToEnd_eq (hpos : ∀ n ∈ nodes, 0 < n.size) (hops : s.vm.ops = some ops)
    (hdata : s.vm.data = some data) (h : s.remaining < fuel) :
    runToEnd nodes fuel s = interpretNodes nodes ops data fuel s := by
  obtain ⟨fuel, rfl⟩ : ∃ f, fuel = f + 1 := ⟨fuel - 1, by omega⟩
  rw [← interpreterLoop_then_runToEnd hpos hops hdata (le_refl _) h (Nat.lt_succ_iff.1 h) h]
  simp [runToEnd, interpreterRun, bind_run, get_run, hops, hdata]

end FuzzSocketCan
