import FuzzSocketCan.Packer.DataSpec

/-! # The builder of seeds

A script calls the builder once for each node. `build_node` checks the operands, appends the ops
and packs the data; `write_to_file` writes a header, the ops and the data. An exception ends a
run.
-/

namespace FuzzSocketCan

open Lib List

structure BuilderValue where
  valueType : ValueTypeID
  id : ℕ
  unused : Bool
  deriving DecidableEq, Repr

structure Builder where
  ops : List ℕ
  data : List UInt8
  valueToId : Counts
  values : List BuilderValue

structure BuilderCall where
  name : String
  args : List PyVal

def SpecLoader.nameToNode (l : SpecLoader) (name : String) : Except PyError (ℕ × NodeLoader) :=
  match (l.nodes.zipIdx.filter fun n => n.1.name = name).getLast? with
  | some (n, id) => .ok (id, n)
  | none => .error .keyError

namespace Builder

def new : Builder := ⟨[], [], ∅, []⟩

def assert (c : Prop) [Decidable c] : Except PyError PUnit :=
  if c then .ok ⟨⟩ else .error .assertionError

def takeValue (b : Builder) (input : Bool) (val : ValueTypeID) : PyVal → Except PyError Builder
  | .value ref =>
    match b.values[ref]? with
    | none => .error .attributeError
    | some v => do
        assert (v.valueType = val)
        assert (v.unused = true)
        .ok { b with
          ops := b.ops ++ [v.id]
          values := if input then b.values.set ref { v with unused := false } else b.values }
  | .int _ | .str _ | .bytes _ | .list _ | .dict _ => .error .attributeError

def takeValues (input : Bool) : List ValueTypeID → List PyVal → Builder →
    Except PyError (Builder × List PyVal)
  | [], args, b => .ok (b, args)
  | val :: vals, arg :: args, b => do
      let b ← b.takeValue input val arg
      takeValues input vals args b
  | _ :: _, [], _ => .error .assertionError

/-- `build_value`, and the op for the new value. -/
def buildValue (b : Builder) (val : ValueTypeID) : Builder :=
  let vid := b.valueToId.count val
  { b with
    ops := b.ops ++ [vid]
    valueToId := b.valueToId.modify val (· + 1)
    values := b.values ++ [⟨val, vid, true⟩] }

def packData (l : SpecLoader) (n : NodeLoader) (args : List PyVal) : Except PyError (List UInt8) :=
  match n.atomId with
  | none => .ok []
  | some id =>
    match l.dataTypes[id]?, args.getLast? with
    | some t, some val => t.buildFromVal val
    | _, _ => .error .attributeError

def buildNode (l : SpecLoader) (b : Builder) (call : BuilderCall) : Except PyError Builder := do
  let (id, n) ← l.nameToNode call.name
  assert (call.args.length =
    n.inputs.length + n.borrows.length + (if n.atomId.isSome then 1 else 0))
  let b := { b with ops := b.ops ++ [id] }
  let (b, args) ← takeValues true n.inputs call.args b
  let (b, args) ← takeValues false n.borrows args b
  let bytes ← packData l n args
  let b := { b with data := b.data ++ bytes }
  .ok (n.outputs.foldl buildValue b)

def buildNodes (l : SpecLoader) : Builder → List BuilderCall → Except PyError Builder
  | b, [] => .ok b
  | b, call :: calls => do
      let b ← b.buildNode l call
      buildNodes l b calls

def structPackAll (size : ℕ) : List ℕ → Except PyError (List UInt8)
  | [] => .ok []
  | v :: vs => do
      let bs ← structPack size v
      let rest ← structPackAll size vs
      .ok (bs ++ rest)

/-- The contents of the file. -/
def writeToFile (b : Builder) (checksum : ℕ) : Except PyError (List UInt8) := do
  let graphSize := b.ops.length
  let dataSize := b.data.length
  let base := 5 * 8
  let graphOffset := base
  let dataOffset := graphOffset + 2 * graphSize
  let header ← structPackAll 8 [checksum, graphSize, dataSize, graphOffset, dataOffset]
  let graphData ← structPackAll 2 b.ops
  .ok (header ++ graphData ++ b.data)

theorem assert_eq_ok {c : Prop} [Decidable c] {u : PUnit} : assert c = .ok u ↔ c := by
  unfold assert
  split
  · next h => exact ⟨fun _ => h, fun _ => rfl⟩
  · next h => exact ⟨(fun hok => nomatch hok), fun hc => absurd hc h⟩

/-! ## What a call appends -/

variable {l : SpecLoader} {b b' : Builder}

theorem takeValue_eq_ok {input : Bool} {val : ValueTypeID} {arg : PyVal}
    (h : b.takeValue input val arg = .ok b') :
    (∃ id, b'.ops = b.ops ++ [id]) ∧ b'.data = b.data := by
  cases arg with
  | value ref =>
    simp only [takeValue] at h
    split at h
    · cases h
    · next v hv =>
        obtain ⟨-, -, h⟩ := except_bind_eq_ok.1 h
        obtain ⟨-, -, h⟩ := except_bind_eq_ok.1 h
        obtain rfl := Except.ok.inj h
        exact ⟨⟨v.id, rfl⟩, rfl⟩
  | int v => cases h
  | str s => cases h
  | bytes bs => cases h
  | list vs => cases h
  | dict entries => cases h

theorem takeValues_eq_ok {input : Bool} {vals : List ValueTypeID} {args args' : List PyVal}
    (h : takeValues input vals args b = .ok (b', args')) :
    (∃ ids, b'.ops = b.ops ++ ids ∧ ids.length = vals.length) ∧ b'.data = b.data ∧
      args' = args.drop vals.length := by
  induction vals generalizing args b with
  | nil =>
    obtain ⟨rfl, rfl⟩ := Prod.mk.inj (Except.ok.inj h)
    exact ⟨⟨[], (append_nil _).symm, rfl⟩, rfl, rfl⟩
  | cons val vals ih =>
    cases args with
    | nil => cases h
    | cons arg args =>
      obtain ⟨b1, hb1, h⟩ := except_bind_eq_ok.1 h
      obtain ⟨⟨id, hops1⟩, hdata1⟩ := takeValue_eq_ok hb1
      obtain ⟨⟨ids, hops, hlen⟩, hdata, hargs⟩ := ih h
      refine ⟨⟨id :: ids, ?_, ?_⟩, hdata.trans hdata1, hargs⟩
      · rw [hops, hops1, append_assoc, singleton_append]
      · rw [length_cons, length_cons, hlen]

theorem foldl_buildValue (vals : List ValueTypeID) (b : Builder) :
    (∃ ids, (vals.foldl buildValue b).ops = b.ops ++ ids ∧ ids.length = vals.length) ∧
      (vals.foldl buildValue b).data = b.data := by
  induction vals generalizing b with
  | nil => exact ⟨⟨[], (append_nil _).symm, rfl⟩, rfl⟩
  | cons val vals ih =>
    obtain ⟨⟨ids, hops, hlen⟩, hdata⟩ := ih (b.buildValue val)
    refine ⟨⟨b.valueToId.count val :: ids, ?_, ?_⟩, hdata⟩
    · rw [foldl_cons, hops, buildValue, append_assoc, singleton_append]
    · rw [length_cons, length_cons, hlen]

theorem nameToNode_eq_ok {name : String} {id : ℕ} {n : NodeLoader}
    (h : l.nameToNode name = .ok (id, n)) : l.nodes[id]? = some n := by
  unfold SpecLoader.nameToNode at h
  split at h
  · next n' id' hlast =>
      obtain ⟨rfl, rfl⟩ := Prod.mk.inj (Except.ok.inj h)
      have hmem := mem_of_getLast? hlast
      rw [mem_filter] at hmem
      exact mem_zipIdx_iff_getElem?.1 hmem.1
  · cases h

end Builder

structure BuilderCall.Gives (l : SpecLoader) (call : BuilderCall) (id : ℕ) (n : NodeLoader)
    (bytes : List UInt8) : Prop where
  node : l.nameToNode call.name = .ok (id, n)
  packed : Builder.packData l n call.args = .ok bytes

namespace Builder

variable {l : SpecLoader} {b b' : Builder}

theorem packData_drop {n : NodeLoader} {args : List PyVal} {k : ℕ}
    (hlen : args.length = k + (if n.atomId.isSome then 1 else 0)) :
    packData l n (args.drop k) = packData l n args := by
  unfold packData
  cases hid : n.atomId with
  | none => rfl
  | some id =>
    rw [hid, Option.isSome_some, if_pos rfl] at hlen
    have hlast : (args.drop k).getLast? = args.getLast? := by
      rw [getLast?_drop, if_neg (by omega)]
    simp [hlast]

theorem buildNode_eq_ok {call : BuilderCall} (h : b.buildNode l call = .ok b') :
    ∃ id n bytes operands, call.Gives l id n bytes ∧ b'.ops = b.ops ++ id :: operands ∧
      operands.length = n.inputs.length + n.borrows.length + n.outputs.length ∧
        b'.data = b.data ++ bytes := by
  obtain ⟨⟨id, n⟩, hnode, h⟩ := except_bind_eq_ok.1 h
  obtain ⟨_, hassert, h⟩ := except_bind_eq_ok.1 h
  obtain ⟨⟨b1, args1⟩, hinputs, h⟩ := except_bind_eq_ok.1 h
  obtain ⟨⟨b2, args2⟩, hborrows, h⟩ := except_bind_eq_ok.1 h
  obtain ⟨bytes, hbytes, h⟩ := except_bind_eq_ok.1 h
  obtain rfl := Except.ok.inj h
  have hlen := assert_eq_ok.1 hassert
  obtain ⟨⟨xs, hxs, hxsLen⟩, hdata1, rfl⟩ := takeValues_eq_ok hinputs
  obtain ⟨⟨ys, hys, hysLen⟩, hdata2, rfl⟩ := takeValues_eq_ok hborrows
  obtain ⟨⟨zs, hzs, hzsLen⟩, hdata3⟩ :=
    foldl_buildValue n.outputs { b2 with data := b2.data ++ bytes }
  rw [drop_drop, packData_drop hlen] at hbytes
  refine ⟨id, n, bytes, xs ++ ys ++ zs, ⟨hnode, hbytes⟩, ?_, ?_, ?_⟩
  · rw [hzs, hys, hxs]
    simp
  · rw [length_append, length_append, hxsLen, hysLen, hzsLen]
  · rw [hdata3, hdata2, hdata1]

/-! ## What is written -/

theorem structPackAll_eq_ok {size : ℕ} {vs : List ℕ} {bs : List UInt8}
    (h : structPackAll size vs = .ok bs) : bs = arrayOf size vs ∧ ∀ v ∈ vs, v < 256 ^ size := by
  induction vs generalizing bs with
  | nil =>
    obtain rfl := Except.ok.inj h
    exact ⟨rfl, fun v hv => nomatch hv⟩
  | cons v vs ih =>
    obtain ⟨xs, hxs, h⟩ := except_bind_eq_ok.1 h
    obtain ⟨ys, hys, h⟩ := except_bind_eq_ok.1 h
    obtain rfl := Except.ok.inj h
    obtain ⟨rfl, hlt⟩ := structPack_eq_ok hxs
    obtain ⟨rfl, hall⟩ := ih hys
    exact ⟨rfl, forall_mem_cons.2 ⟨hlt, hall⟩⟩

theorem structPackAll_of_lt {size : ℕ} {vs : List ℕ} (h : ∀ v ∈ vs, v < 256 ^ size) :
    structPackAll size vs = .ok (arrayOf size vs) := by
  induction vs with
  | nil => rfl
  | cons v vs ih =>
    obtain ⟨hv, hvs⟩ := forall_mem_cons.1 h
    have hpow : ((256 ^ size : ℕ) : ℤ) = 256 ^ size := by push_cast; rfl
    have hpack : structPack size v = .ok (toLe size v) := if_pos (by omega)
    rw [structPackAll, hpack, ih hvs]
    rfl

def headerWords (checksum opsLen dataLen : ℕ) : List ℕ :=
  [checksum, opsLen, dataLen, 5 * 8, 5 * 8 + 2 * opsLen]

theorem writeToFile_eq_ok {checksum : ℕ} {file : List UInt8} :
    b.writeToFile checksum = .ok file ↔
      (∀ w ∈ headerWords checksum b.ops.length b.data.length, w < 256 ^ 8) ∧
        (∀ x ∈ b.ops, x < 256 ^ 2) ∧
          file = arrayOf 8 (headerWords checksum b.ops.length b.data.length) ++
            arrayOf 2 b.ops ++ b.data := by
  constructor
  · intro h
    obtain ⟨header, hheader, h⟩ := except_bind_eq_ok.1 h
    obtain ⟨graph, hgraph, h⟩ := except_bind_eq_ok.1 h
    obtain ⟨rfl, hwords⟩ := structPackAll_eq_ok hheader
    obtain ⟨rfl, hops⟩ := structPackAll_eq_ok hgraph
    exact ⟨hwords, hops, (Except.ok.inj h).symm⟩
  · rintro ⟨hwords, hops, rfl⟩
    have hheader := structPackAll_of_lt hwords
    have hgraph := structPackAll_of_lt hops
    unfold headerWords at hheader
    rw [writeToFile, hheader, hgraph]
    rfl

end Builder

end FuzzSocketCan
