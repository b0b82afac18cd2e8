import Mathlib.Data.List.AList
import FuzzSocketCan.StructuredFuzzer.Random

/-! # Graph specifications

A `GraphSpec` lists the data types, value types and node types of the graphs a fuzzer builds,
which refer to each other by number. The structure carries what its construction checks
(`AtomicDataType.Ok`, `NodeSpec.Ok`). `SpecLoader` is the serialised form, which
**`SpecLoader.toGraphSpec`** loads.
-/

namespace FuzzSocketCan

open Lib List Option

abbrev ValueTypeID := UInt16
abbrev NodeTypeID := UInt16
abbrev ConnectorID := UInt16
abbrev AtomicTypeID := ℕ

/-! ## Data types -/

inductive AtomicSize
  | fixed (size : ℕ)
  | dynamic
  deriving DecidableEq, Repr

namespace AtomicSize

def isFixed : AtomicSize → Bool
  | fixed _ => true
  | dynamic => false

def asUsize : AtomicSize → Except Panic ℕ
  | fixed size => .ok size
  | dynamic => .error .dynamicSize

def minDataSize : AtomicSize → ℕ
  | fixed size => size
  | dynamic => 2

end AtomicSize

inductive IntGenerator
  | options (opts : List ℕ)
  | flags (opts : List ℕ)
  | limits (low high align : ℕ)
  deriving DecidableEq, Repr

def IntGenerator.generate : IntGenerator → Dist (ℕ × Bool)
  | options opts => do
      let v ← genPick opts
      pure (v, false)
  | flags opts => do
      let v ← genPick opts
      pure (v, false)
  | limits low high align => do
      let val ← genRange low high
      check (align ≠ 0) Panic.divideByZero
      let val := val - val % align
      let val := if val < low then (val + align) % 2 ^ 64 else val
      let val := if val > high then val - align else val
      pure (val, false)

/-- The bytes a generator produces for a bound on their number. The source has one kind, driven by a
regular expression. -/
structure VecGenerator where
  run : ℕ → Dist (List UInt8)

def VecGenerator.generate (g : VecGenerator) (maxLen : ℕ) : Dist (List UInt8) := do
  let vec ← g.run maxLen
  pure (vec.take maxLen)

def IntGenerator.Returns (g : IntGenerator) : Prop :=
  ∀ d, Ends g.generate d (fun _ _ => True) never

/-- The generator returns whenever it may produce a byte. It is never asked for less: a regular
expression would divide by the number. -/
def VecGenerator.Returns (g : VecGenerator) : Prop :=
  ∀ maxLen, 1 ≤ maxLen → ∀ d, Ends (g.run maxLen) d (fun _ _ => True) never

inductive AtomicDataType
  | int (size : ℕ) (generators : List IntGenerator)
  | vec (sizeRange : ℕ × ℕ) (primitiveSize : ℕ) (dtype : AtomicTypeID)
      (generators : List VecGenerator)
  | struct (size : ℕ) (fields : List (String × AtomicTypeID))

namespace AtomicDataType

def size : AtomicDataType → AtomicSize
  | int size _ => .fixed size
  | vec .. => .dynamic
  | struct size _ => .fixed size

def minDataSize (t : AtomicDataType) : ℕ := t.size.minDataSize

def isU8 : AtomicDataType → Bool
  | int size _ => size == 1
  | vec .. | struct .. => false

end AtomicDataType

structure AtomicSpec where
  name : String
  id : AtomicTypeID
  atomicType : AtomicDataType

def fieldSize (specs : List AtomicSpec) (id : AtomicTypeID) : Except Panic ℕ :=
  match specs[id]? with
  | some spec => spec.atomicType.size.asUsize
  | none => .error .unwrapNone

variable {specs : List AtomicSpec}

theorem fieldSize_eq_ok {id : AtomicTypeID} {n : ℕ} :
    fieldSize specs id = .ok n ↔ ∃ s, specs[id]? = some s ∧ s.atomicType.size = .fixed n := by
  unfold fieldSize
  split
  · next s hs =>
      cases hsize : s.atomicType.size <;> simp [AtomicSize.asUsize, hs, hsize]
  · next hs => simp [hs]

def structSize (specs : List AtomicSpec) : List (String × AtomicTypeID) → Except Panic ℕ
  | [] => .ok 0
  | (_, id) :: fields => do
      let n ← fieldSize specs id
      let m ← structSize specs fields
      .ok (n + m)

theorem structSize_cons_eq_ok {f : String × AtomicTypeID} {fields : List (String × AtomicTypeID)}
    {k : ℕ} :
    structSize specs (f :: fields) = .ok k ↔
      ∃ n m, fieldSize specs f.2 = .ok n ∧ structSize specs fields = .ok m ∧ k = n + m := by
  obtain ⟨name, id⟩ := f
  rw [structSize]
  cases hn : fieldSize specs id with
  | error e => simp [bind, Except.bind]
  | ok n =>
    cases hm : structSize specs fields with
    | error e => simp [bind, Except.bind]
    | ok m => simp [bind, Except.bind, eq_comm]

def AtomicDataType.Ok (specs : List AtomicSpec) : AtomicDataType → Prop
  | int size _ => size = 1 ∨ size = 2 ∨ size = 4 ∨ size = 8
  | vec _ primitiveSize dtype generators =>
    fieldSize specs dtype = .ok primitiveSize ∧
      (generators.isEmpty = false → ∀ s ∈ specs[dtype]?, s.atomicType.isU8 = true)
  | struct size fields => structSize specs fields = .ok size

/-- `DataInt::new`. -/
def dataInt (specs : List AtomicSpec) (size : ℕ) (generators : List IntGenerator) :
    Except Panic { t : AtomicDataType // t.Ok specs } :=
  if h : size = 1 ∨ size = 2 ∨ size = 4 ∨ size = 8 then .ok ⟨.int size generators, h⟩
  else .error .invalidIntegerSize

/-- `DataStruct::new`. -/
def dataStruct (specs : List AtomicSpec) (fields : List (String × AtomicTypeID)) :
    Except Panic { t : AtomicDataType // t.Ok specs } :=
  match h : structSize specs fields with
  | .ok size => .ok ⟨.struct size fields, h⟩
  | .error e => .error e

def dataVec (specs : List AtomicSpec) (sizeRange : ℕ × ℕ) (dtype : AtomicTypeID)
    (generators : List VecGenerator) : Except Panic { t : AtomicDataType // t.Ok specs } :=
  match h : fieldSize specs dtype with
  | .error e => .error e
  | .ok size =>
    if hg : generators.isEmpty = false → ∀ s ∈ specs[dtype]?, s.atomicType.isU8 = true then
      .ok ⟨.vec sizeRange size dtype generators, h, hg⟩
    else .error .assertionFailed

/-! ## Node types -/

abbrev Counts := AList fun _ : ValueTypeID => ℕ

def Counts.count (m : Counts) (v : ValueTypeID) : ℕ := (m.lookup v).getD 0

def Counts.modify (m : Counts) (v : ValueTypeID) (f : ℕ → ℕ) : Counts :=
  m.insert v (f (m.count v))

theorem Counts.count_modify (m : Counts) (v w : ValueTypeID) (f : ℕ → ℕ) :
    (m.modify v f).count w = if w = v then f (m.count v) else m.count w := by
  by_cases h : w = v
  · rw [if_pos h, h, Counts.modify, Counts.count, AList.lookup_insert, getD_some]
  · rw [if_neg h, Counts.modify, Counts.count, AList.lookup_insert_ne h, ← Counts.count]

def requiredValues (passthroughs inputs : List ValueTypeID) : Counts :=
  let m := passthroughs.foldl (fun m v => m.modify v fun c => if c = 0 then 1 else c) ∅
  inputs.foldl (fun m v => m.modify v (· + 1)) m

def need (passthroughs inputs : List ValueTypeID) (v : ValueTypeID) : ℕ :=
  (if v ∈ passthroughs then 1 else 0) + inputs.count v

theorem count_foldl_passthroughs (passthroughs : List ValueTypeID) (m : Counts) (v : ValueTypeID) :
    (passthroughs.foldl (fun m v => m.modify v fun c => if c = 0 then 1 else c) m).count v =
      if v ∈ passthroughs ∧ m.count v = 0 then 1 else m.count v := by
  induction passthroughs generalizing m with
  | nil => simp
  | cons w ws ih =>
    rw [foldl_cons, ih, Counts.count_modify]
    by_cases hvw : v = w
    · subst hvw
      by_cases h0 : m.count v = 0 <;> simp [h0]
    · simp [hvw]

theorem count_foldl_inputs (inputs : List ValueTypeID) (m : Counts) (v : ValueTypeID) :
    (inputs.foldl (fun m v => m.modify v (· + 1)) m).count v = m.count v + inputs.count v := by
  induction inputs generalizing m with
  | nil => simp
  | cons w ws ih =>
    rw [foldl_cons, ih, Counts.count_modify, count_cons]
    by_cases hvw : v = w
    · subst hvw
      simp only [if_pos, beq_self_eq_true]
      omega
    · rw [if_neg hvw]
      have : ¬(w == v) = true := by simpa using Ne.symm hvw
      rw [if_neg this]
      omega

theorem count_requiredValues (passthroughs inputs : List ValueTypeID) (v : ValueTypeID) :
    (requiredValues passthroughs inputs).count v = need passthroughs inputs v := by
  rw [requiredValues, count_foldl_inputs, count_foldl_passthroughs, need]
  simp [Counts.count, AList.lookup_empty]

theorem mem_foldl_modify {f : ℕ → ℕ} {l : List ValueTypeID} {m : Counts} {v : ValueTypeID}
    (h : v ∈ l.foldl (fun m v => m.modify v f) m) : v ∈ m ∨ v ∈ l := by
  induction l generalizing m with
  | nil => exact .inl h
  | cons w ws ih =>
    obtain h | h := ih h
    · obtain rfl | h := (AList.mem_insert m).1 h
      · exact .inr mem_cons_self
      · exact .inl h
    · exact .inr (mem_cons_of_mem _ h)

variable {passthroughs inputs : List ValueTypeID}

theorem requiredValues_pos {p : Sigma fun _ => ℕ}
    (hp : p ∈ (requiredValues passthroughs inputs).entries) : 0 < p.2 := by
  have hlookup : (requiredValues passthroughs inputs).lookup p.1 = some p.2 :=
    AList.mem_lookup_iff.2 hp
  have hmem : p.1 ∈ requiredValues passthroughs inputs :=
    AList.lookup_isSome.1 (by rw [hlookup]; rfl)
  have hcount : p.2 = need passthroughs inputs p.1 := by
    rw [← count_requiredValues, Counts.count, hlookup, getD_some]
  rw [hcount, need]
  obtain h | h := mem_foldl_modify hmem
  · obtain h | h := mem_foldl_modify h
    · exact absurd h (AList.notMem_empty _)
    · rw [if_pos h]; omega
  · have := count_pos_iff.2 h
    omega

theorem forall_requiredValues_le {f : ValueTypeID → ℕ} :
    (∀ p ∈ (requiredValues passthroughs inputs).entries, p.2 ≤ f p.1) ↔
      ∀ v, need passthroughs inputs v ≤ f v := by
  constructor
  · intro h v
    rw [← count_requiredValues, Counts.count]
    cases hv : (requiredValues passthroughs inputs).lookup v with
    | none => exact Nat.zero_le _
    | some c => exact h ⟨v, c⟩ (AList.mem_lookup_iff.1 hv)
  · rintro h ⟨v, c⟩ hp
    have hv : (requiredValues passthroughs inputs).lookup v = some c := AList.mem_lookup_iff.2 hp
    have := h v
    rw [← count_requiredValues, Counts.count, hv] at this
    exact this

structure NodeSpec where
  name : String
  id : NodeTypeID
  inputs : List ValueTypeID
  outputs : List ValueTypeID
  passthroughs : List ValueTypeID
  requiredValues : Counts
  data : Option AtomicTypeID
  generatable : Bool

namespace NodeSpec

def new (name : String) (id : NodeTypeID) (data : Option AtomicTypeID)
    (inputs passthroughs outputs : List ValueTypeID) : NodeSpec where
  name := name
  id := id
  inputs := inputs
  outputs := outputs
  passthroughs := passthroughs
  requiredValues := FuzzSocketCan.requiredValues passthroughs inputs
  data := data
  generatable := name != "create_tmp_snapshot"

def size (n : NodeSpec) : ℕ := n.inputs.length + n.passthroughs.length + n.outputs.length

structure Ok (i maxOps : ℕ) (n : NodeSpec) : Prop where
  id_eq : n.id.toNat = i
  required_eq : n.requiredValues = FuzzSocketCan.requiredValues n.passthroughs n.inputs
  generatable_eq : n.generatable = (n.name != "create_tmp_snapshot")
  size_lt : n.size < maxOps

end NodeSpec

structure ValueSpec where
  id : ValueTypeID
  name : String

/-! ## Specifications -/

structure GraphSpec where
  checksum : ℕ
  nodeSpecs : List NodeSpec
  valueSpecs : List ValueSpec
  dataSpecs : List AtomicSpec
  snapshotNodeId : Option NodeTypeID
  maxData : ℕ
  maxOps : ℕ
  /-- Each data type is built over the ones before it. -/
  data_ok : ∀ i (h : i < dataSpecs.length), dataSpecs[i].atomicType.Ok (dataSpecs.take i)
  /-- `max_data` bounds the least size of every data type. -/
  le_maxData : ∀ s ∈ dataSpecs, s.atomicType.minDataSize ≤ maxData
  /-- Each node type is what `node_type` builds at its place. -/
  node_ok : ∀ i (h : i < nodeSpecs.length), nodeSpecs[i].Ok i maxOps
  /-- Node types have 16-bit numbers. -/
  nodes_le : nodeSpecs.length ≤ 65535
  /-- The snapshot node is the node type of that name, and has no operands. -/
  snapshot_ok : ∀ id ∈ snapshotNodeId, ∃ n ∈ nodeSpecs,
    n.id = id ∧ n.name = "create_tmp_snapshot" ∧ n.size = 0

namespace GraphSpec

def new : GraphSpec where
  checksum := 0
  nodeSpecs := []
  valueSpecs := []
  dataSpecs := []
  snapshotNodeId := none
  maxData := 0
  maxOps := 0
  data_ok := fun i h => absurd h (Nat.not_lt_zero i)
  le_maxData := fun _ h => absurd h not_mem_nil
  node_ok := fun i h => absurd h (Nat.not_lt_zero i)
  nodes_le := Nat.zero_le _
  snapshot_ok := fun _ h => nomatch h

def biggestData (g : GraphSpec) : ℕ := g.maxData

def biggestOps (g : GraphSpec) : ℕ := g.maxOps

def getNode (g : GraphSpec) (n : NodeTypeID) : Option NodeSpec := g.nodeSpecs[n.toNat]?

def getData (g : GraphSpec) (v : AtomicTypeID) : Option AtomicSpec := g.dataSpecs[v]?

def minDataSize (g : GraphSpec) (n : NodeSpec) : Except Panic ℕ :=
  match n.data with
  | none => .ok 0
  | some id =>
    match g.getData id with
    | some spec => .ok spec.atomicType.minDataSize
    | none => .error .unwrapNone

variable {g : GraphSpec}

variable {id : NodeTypeID} {n : NodeSpec}

theorem getNode_ok (h : g.getNode id = some n) : n.Ok id.toNat g.maxOps := by
  obtain ⟨hlt, rfl⟩ := List.getElem?_eq_some_iff.1 h
  exact g.node_ok _ hlt

theorem getNode_id (h : g.getNode id = some n) : n.id = id :=
  UInt16.toNat_inj.1 (getNode_ok h).id_eq

theorem mem_of_getNode (h : g.getNode id = some n) : n ∈ g.nodeSpecs := mem_of_getElem? h

theorem getNode_of_mem (h : n ∈ g.nodeSpecs) : g.getNode n.id = some n := by
  obtain ⟨i, hi, rfl⟩ := mem_iff_getElem.1 h
  rw [getNode, (g.node_ok i hi).id_eq, getElem?_eq_getElem hi]

theorem getData_ok {id : AtomicTypeID} {s : AtomicSpec} (h : g.getData id = some s) :
    s.atomicType.Ok (g.dataSpecs.take id) := by
  obtain ⟨hlt, rfl⟩ := List.getElem?_eq_some_iff.1 h
  exact g.data_ok id hlt

def valueType (g : GraphSpec) (name : String) : Except Panic GraphSpec :=
  if g.valueSpecs.length < 65535 then
    .ok { g with valueSpecs := g.valueSpecs ++ [⟨UInt16.ofNat g.valueSpecs.length, name⟩] }
  else .error .assertionFailed

def dataType (g : GraphSpec) (name : String) (atom : { t : AtomicDataType // t.Ok g.dataSpecs }) :
    GraphSpec :=
  { g with
    dataSpecs := g.dataSpecs ++ [⟨name, g.dataSpecs.length, atom.1⟩]
    maxData := if g.maxData < atom.1.minDataSize then atom.1.minDataSize else g.maxData
    data_ok := by
      intro i hi
      rw [length_append, length_singleton] at hi
      by_cases hlt : i < g.dataSpecs.length
      · rw [getElem_append_left hlt, take_append_of_le_length (le_of_lt hlt)]
        exact g.data_ok i hlt
      · obtain rfl : i = g.dataSpecs.length := by omega
        rw [getElem_append_right (le_refl _), take_append_of_le_length (le_refl _),
          take_length]
        simpa using atom.2
    le_maxData := by
      intro s hs
      rw [mem_append, mem_singleton] at hs
      obtain hs | rfl := hs
      · have := g.le_maxData s hs
        split <;> omega
      · show atom.1.minDataSize ≤ _
        split <;> omega }

def nodeType (g : GraphSpec) (name : String) (data : Option AtomicTypeID)
    (inputs passthrough outputs : List ValueTypeID) : Except Panic GraphSpec :=
  if hlen : g.nodeSpecs.length < 65535 then
    let newId := UInt16.ofNat g.nodeSpecs.length
    let opsLen := inputs.length + passthrough.length + outputs.length + 1
    if hsnap : name = "create_tmp_snapshot" → opsLen = 1 then
      .ok { g with
        nodeSpecs := g.nodeSpecs ++ [NodeSpec.new name newId data inputs passthrough outputs]
        maxOps := if g.maxOps < opsLen then opsLen else g.maxOps
        snapshotNodeId := if name = "create_tmp_snapshot" then some newId else g.snapshotNodeId
        node_ok := by
          intro i hi
          rw [length_append, length_singleton] at hi
          by_cases hlt : i < g.nodeSpecs.length
          · rw [getElem_append_left hlt]
            have hok := g.node_ok i hlt
            exact { hok with size_lt := by have := hok.size_lt; split <;> omega }
          · obtain rfl : i = g.nodeSpecs.length := by omega
            rw [getElem_append_right (le_refl _)]
            simp only [Nat.sub_self, getElem_cons_zero]
            refine ⟨?_, rfl, rfl, ?_⟩
            · show (UInt16.ofNat g.nodeSpecs.length).toNat = _
              rw [UInt16.toNat_ofNat', Nat.mod_eq_of_lt (by omega)]
            · show inputs.length + passthrough.length + outputs.length < _
              split <;> omega
        nodes_le := by rw [length_append, length_singleton]; omega
        snapshot_ok := by
          intro id hid
          by_cases hname : name = "create_tmp_snapshot"
          · rw [if_pos hname] at hid
            obtain rfl := Option.some.inj hid
            refine ⟨_, mem_append_right _ (mem_singleton_self _), rfl, hname, ?_⟩
            have := hsnap hname
            show inputs.length + passthrough.length + outputs.length = 0
            omega
          · rw [if_neg hname] at hid
            obtain ⟨n, hn, h⟩ := g.snapshot_ok id hid
            exact ⟨n, mem_append_left _ hn, h⟩ }
    else .error .assertionFailed
  else .error .assertionFailed

end GraphSpec

/-! ## Loading -/

/-- `VecGeneratorLoader::Regex`. -/
structure VecGeneratorLoader where
  r : String
  deriving DecidableEq, Repr

inductive AtomLoader
  | struct (name : String) (fields : List (String × ℕ))
  | int (name : String) (size : ℕ) (generators : List IntGenerator)
  | vec (name : String) (sizeRange : ℕ × ℕ) (dtype : ℕ) (generators : List VecGeneratorLoader)
  deriving DecidableEq, Repr

structure NodeLoader where
  name : String
  atomId : Option ℕ
  inputs : List UInt16
  borrows : List UInt16
  outputs : List UInt16
  isInteractive : Bool
  deriving DecidableEq, Repr

structure SpecLoader where
  checksum : ℕ
  nodes : List NodeLoader
  edges : List String
  atomics : List AtomLoader
  deriving DecidableEq, Repr

namespace SpecLoader

variable (parse : String → Option VecGenerator)

def loadGenerators (element : AtomicDataType) :
    List VecGeneratorLoader → Except Panic (List VecGenerator)
  | [] => .ok []
  | g :: gs =>
    if element.isU8 then
      match parse g.r with
      | some gen => do
          let rest ← loadGenerators element gs
          .ok (gen :: rest)
      | none => .error .unwrapNone
    else .error .assertionFailed

def atomToGraphSpec (g : GraphSpec) : AtomLoader → Except Panic GraphSpec
  | .struct name fields => do
      let t ← dataStruct g.dataSpecs fields
      .ok (g.dataType name t)
  | .int name size generators => do
      let t ← dataInt g.dataSpecs size generators
      .ok (g.dataType name t)
  | .vec name sizeRange dtype generators =>
    match g.getData dtype with
    | none => .error .unwrapNone
    | some dspec =>
      if dspec.atomicType.size.isFixed then do
        let generators ← loadGenerators parse dspec.atomicType generators
        let t ← dataVec g.dataSpecs sizeRange dtype generators
        .ok (g.dataType name t)
      else .error .assertionFailed

def nodeToGraphSpec (g : GraphSpec) (n : NodeLoader) : Except Panic GraphSpec :=
  g.nodeType n.name n.atomId n.inputs n.borrows n.outputs

def toGraphSpec (l : SpecLoader) : Except Panic GraphSpec := do
  let g := { GraphSpec.new with checksum := l.checksum }
  let g ← l.atomics.foldlM (atomToGraphSpec parse) g
  let g ← l.edges.foldlM GraphSpec.valueType g
  l.nodes.foldlM nodeToGraphSpec g

def specOrNew (l : SpecLoader) : GraphSpec :=
  match l.toGraphSpec parse with
  | .ok g => g
  | .error _ => GraphSpec.new

end SpecLoader

def connectionLoader : SpecLoader where
  checksum := 0
  nodes := [⟨"open", none, [], [], [0], false⟩, ⟨"send", some 1, [], [0], [], false⟩,
    ⟨"close", none, [0], [], [], false⟩, ⟨"create_tmp_snapshot", none, [], [], [], false⟩]
  edges := ["connection"]
  atomics := [.int "byte" 1 [], .vec "bytes" (0, 4) 0 []]

def connectionSpec : GraphSpec := connectionLoader.specOrNew fun _ => none

def emptiesLoader : SpecLoader where
  checksum := 0
  nodes := [⟨"vector", some 1, [], [], [], false⟩]
  edges := []
  atomics := [.struct "empty" [], .vec "empties" (0, 1) 0 []]

/-- A vector of elements without fields. -/
def emptiesSpec : GraphSpec := emptiesLoader.specOrNew fun _ => none

def danglingLoader : SpecLoader where
  checksum := 0
  nodes := [⟨"dangling", some 0, [], [], [], false⟩]
  edges := []
  atomics := []

def danglingSpec : GraphSpec := danglingLoader.specOrNew fun _ => none

def opensLoader : SpecLoader where
  checksum := 0
  nodes := [⟨"open", none, [], [], [0], false⟩]
  edges := ["connection"]
  atomics := []

/-- Connections are opened, and nothing else. -/
def opensSpec : GraphSpec := opensLoader.specOrNew fun _ => none

def wordsLoader : SpecLoader where
  checksum := 0
  nodes := [⟨"words", some 1, [], [], [], false⟩, ⟨"create_tmp_snapshot", none, [], [], [], false⟩]
  edges := []
  atomics := [.int "word" 2 [], .vec "words" (0, 4) 0 []]

/-- A vector of integers of two bytes. -/
def wordsSpec : GraphSpec := wordsLoader.specOrNew fun _ => none

end FuzzSocketCan
