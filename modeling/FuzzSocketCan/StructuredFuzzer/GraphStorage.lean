import FuzzSocketCan.StructuredFuzzer.DataBuff
import FuzzSocketCan.StructuredFuzzer.GraphIter

/-! # Graph storage

* **`VecGraph`** — grows without bound.
* **`RefGraph`** — a pair of buffers of fixed size with two cursors, which refuses what does not
  fit.
* **`GraphStorage`** — the operations of the trait.
* **`LawfulGraphStorage`** — what the storage can still take (`Room`), and what the operations do
  then. -/

namespace FuzzSocketCan

open Lib List

/-- The trait `GraphStorage`. A refused operation is `none`. The mutable slice that `append_data`
and `get_data` return is written through `writeBack`. -/
class GraphStorage (S : Type) where
  clear : S → S
  truncateTo : S → ℕ → ℕ → Except Panic S
  appendOp : S → UInt16 → Option S
  appendData : S → List UInt8 → Option S
  getData : S → ℕ → Option (List UInt8 × S)
  writeBack : S → List UInt8 → S
  dataAvailable : S → ℕ
  opsAvailable : S → ℕ
  canAppend : S → GraphNode → Bool
  opLen : S → ℕ
  dataLen : S → ℕ
  opsAsSlice : S → List UInt16
  dataAsSlice : S → List UInt8

export GraphStorage (opsAsSlice dataAsSlice)

/-- What all storages have: with room, nothing is refused. -/
class LawfulGraphStorage (S : Type) [GraphStorage S] where
  Room : S → ℕ → ℕ → Prop
  room_mono {g : S} {n n' m m' : ℕ} : Room g n m → n' ≤ n → m' ≤ m → Room g n' m'
  room_and {g : S} {n m : ℕ} : Room g n 0 → Room g 0 m → Room g n m
  room_of_available {g : S} {n m : ℕ} : Room g 0 0 → n ≤ GraphStorage.opsAvailable g →
    m ≤ GraphStorage.dataAvailable g → Room g n m
  room_of_canAppend {g : S} {node : GraphNode} : Room g 0 0 →
    GraphStorage.canAppend g node = true → Room g 0 node.data.length
  canAppend_of_room {g : S} {node : GraphNode} : Room g 0 (node.data.length + 1) →
    GraphStorage.canAppend g node = true
  appendOp_spec {g : S} {n m : ℕ} (x : UInt16) : Room g (n + 1) m →
    ∃ g', GraphStorage.appendOp g x = some g' ∧ opsAsSlice g' = opsAsSlice g ++ [x] ∧
      dataAsSlice g' = dataAsSlice g ∧
        GraphStorage.dataAvailable g' = GraphStorage.dataAvailable g ∧ Room g' n m
  appendData_spec {g : S} {n m : ℕ} (d : List UInt8) : Room g n (m + d.length) →
    ∃ g', GraphStorage.appendData g d = some g' ∧ opsAsSlice g' = opsAsSlice g ∧
      dataAsSlice g' = dataAsSlice g ++ d ∧ Room g' n m
  getData_spec {g : S} {n m : ℕ} (k : ℕ) : Room g n (m + k) →
    ∃ d g', GraphStorage.getData g k = some (d, g') ∧ d.length = k ∧
      opsAsSlice g' = opsAsSlice g ∧ dataAsSlice g' = dataAsSlice g ++ d ∧ Room g' n m
  writeBack_spec {g : S} {n m : ℕ} {xs d : List UInt8} (d' : List UInt8) : Room g n m →
    dataAsSlice g = xs ++ d → d'.length = d.length →
      opsAsSlice (GraphStorage.writeBack g d') = opsAsSlice g ∧
        dataAsSlice (GraphStorage.writeBack g d') = xs ++ d' ∧
          Room (GraphStorage.writeBack g d') n m
  truncateTo_zero_spec (g : S) : ∃ g', GraphStorage.truncateTo g 0 0 = .ok g' ∧
    opsAsSlice g' = [] ∧ dataAsSlice g' = [] ∧ Room g' 0 0
  truncateTo_spec {g : S} {xs xs' : List UInt16} {ys ys' : List UInt8} : Room g 0 0 →
    opsAsSlice g = xs ++ xs' → dataAsSlice g = ys ++ ys' →
      ∃ g', GraphStorage.truncateTo g xs.length ys.length = .ok g' ∧ opsAsSlice g' = xs ∧
        dataAsSlice g' = ys ∧ Room g' 0 0
  opLen_eq {g : S} : Room g 0 0 → GraphStorage.opLen g = (opsAsSlice g).length
  dataLen_eq {g : S} : Room g 0 0 → GraphStorage.dataLen g = (dataAsSlice g).length

variable {d : List UInt8}

namespace LawfulGraphStorage

variable {S : Type} [GraphStorage S] [LawfulGraphStorage S] {g g' : S} {n m : ℕ}

theorem room_of_appendData (h : Room g 0 (m + d.length))
    (hg : GraphStorage.appendData g d = some g') (hn : Room g n 0) : Room g' n 0 := by
  obtain ⟨g'', hg'', -, -, hroom⟩ := appendData_spec d (room_and hn h)
  obtain rfl := Option.some.inj (hg''.symm.trans hg)
  exact room_mono hroom (le_refl _) (Nat.zero_le _)

theorem room_of_getData {k : ℕ} (h : Room g 0 (m + k))
    (hg : GraphStorage.getData g k = some (d, g')) (hn : Room g n 0) : Room g' n 0 := by
  obtain ⟨d', g'', hg'', -, -, -, hroom⟩ := getData_spec k (room_and hn h)
  obtain ⟨-, rfl⟩ := Prod.mk.inj (Option.some.inj (hg''.symm.trans hg))
  exact room_mono hroom (le_refl _) (Nat.zero_le _)

end LawfulGraphStorage

/-! ## Growing storage -/

/-- Storage without a limit. -/
structure VecGraph where
  ops : List UInt16
  data : List UInt8
  deriving DecidableEq, Repr

namespace VecGraph

def empty : VecGraph := ⟨[], []⟩

instance : GraphStorage VecGraph where
  clear _ := ⟨[], []⟩
  truncateTo g opsI dataI :=
    if g.ops.length ≥ opsI ∧ g.data.length ≥ dataI then .ok ⟨g.ops.take opsI, g.data.take dataI⟩
    else .error .assertionFailed
  appendOp g op := some { g with ops := g.ops ++ [op] }
  appendData g d := some { g with data := g.data ++ d }
  getData g size :=
    some (List.replicate size 0, { g with data := g.data ++ List.replicate size 0 })
  writeBack g d := { g with data := g.data.take (g.data.length - d.length) ++ d }
  dataAvailable _ := 0xffffffff
  opsAvailable _ := 0xffffffff
  canAppend _ _ := true
  opLen g := g.ops.length
  dataLen g := g.data.length
  opsAsSlice g := g.ops
  dataAsSlice g := g.data

@[simp] theorem opsAsSlice_eq (g : VecGraph) : opsAsSlice g = g.ops := rfl

@[simp] theorem dataAsSlice_eq (g : VecGraph) : dataAsSlice g = g.data := rfl

instance : LawfulGraphStorage VecGraph where
  Room _ _ _ := True
  room_mono _ _ _ := trivial
  room_and _ _ := trivial
  room_of_available _ _ _ := trivial
  room_of_canAppend _ _ := trivial
  canAppend_of_room _ := rfl
  appendOp_spec _ _ := ⟨_, rfl, rfl, rfl, rfl, trivial⟩
  appendData_spec _ _ := ⟨_, rfl, rfl, rfl, trivial⟩
  getData_spec k _ := ⟨_, _, rfl, length_replicate, rfl, rfl, trivial⟩
  writeBack_spec := by
    intro g n m xs d d' _ hg hlen
    refine ⟨rfl, ?_, trivial⟩
    show g.data.take (g.data.length - d'.length) ++ d' = xs ++ d'
    have hg' : g.data = xs ++ d := hg
    rw [hg', List.length_append, hlen, Nat.add_sub_cancel, List.take_left]
  truncateTo_zero_spec g := ⟨⟨[], []⟩, by simp [GraphStorage.truncateTo], rfl, rfl, trivial⟩
  truncateTo_spec := by
    intro g xs xs' ys ys' _ hops hdata
    have hops' : g.ops = xs ++ xs' := hops
    have hdata' : g.data = ys ++ ys' := hdata
    exact ⟨⟨xs, ys⟩, by simp [GraphStorage.truncateTo, hops', hdata'], rfl, rfl, trivial⟩
  opLen_eq _ := rfl
  dataLen_eq _ := rfl

end VecGraph

/-! ## Bounded storage -/

/-- Two buffers of fixed sizes. -/
structure RefGraph where
  ops : List UInt16
  opsI : ℕ
  data : List UInt8
  dataI : ℕ
  deriving DecidableEq, Repr

namespace RefGraph

instance : GraphStorage RefGraph where
  clear g := { g with opsI := 0, dataI := 0 }
  truncateTo g opsI dataI :=
    if g.opsI ≥ opsI ∧ g.dataI ≥ dataI then .ok { g with opsI := opsI, dataI := dataI }
    else .error .assertionFailed
  appendOp g op :=
    if g.opsI < g.ops.length then some { g with ops := g.ops.set g.opsI op, opsI := g.opsI + 1 }
    else none
  appendData g d :=
    if g.dataI + d.length ≤ g.data.length then
      some { g with data := overwrite g.data g.dataI d, dataI := g.dataI + d.length }
    else none
  getData g size :=
    -- the slice holds whatever an earlier graph left there
    if g.dataI + size ≤ g.data.length then
      some ((g.data.drop g.dataI).take size, { g with dataI := g.dataI + size })
    else none
  writeBack g d := { g with data := overwrite g.data (g.dataI - d.length) d }
  dataAvailable g := g.data.length - g.dataI
  opsAvailable g := g.ops.length - g.opsI
  canAppend g n := g.dataI + n.data.length < g.data.length
  opLen g := g.opsI
  dataLen g := g.dataI
  opsAsSlice g := g.ops.take g.opsI
  dataAsSlice g := g.data.take g.dataI

theorem opsAsSlice_eq (g : RefGraph) : opsAsSlice g = g.ops.take g.opsI := rfl

theorem dataAsSlice_eq (g : RefGraph) : dataAsSlice g = g.data.take g.dataI := rfl

theorem take_overwrite {α : Type} {l : List α} {i : ℕ} (xs : List α) (h : i ≤ l.length) :
    (overwrite l i xs).take (i + xs.length) = l.take i ++ xs := by
  have hlen : (l.take i ++ xs).length = i + xs.length := by
    rw [length_append, length_take, min_eq_left h]
  rw [overwrite, ← hlen, take_left]

theorem take_set_succ {α : Type} {l : List α} {i : ℕ} (x : α) (h : i < l.length) :
    (l.set i x).take (i + 1) = l.take i ++ [x] := by
  rw [take_add_one, take_set_of_le (le_refl i), getElem?_set_self h]
  rfl

def HasRoom (g : RefGraph) (n m : ℕ) : Prop :=
  g.opsI + n ≤ g.ops.length ∧ g.dataI + m ≤ g.data.length

variable {g : RefGraph} {n m : ℕ}

theorem appendOp_of_room (x : UInt16) (h : g.HasRoom (n + 1) m) :
    ∃ g', GraphStorage.appendOp g x = some g' ∧ opsAsSlice g' = opsAsSlice g ++ [x] ∧
      dataAsSlice g' = dataAsSlice g ∧
        GraphStorage.dataAvailable g' = GraphStorage.dataAvailable g ∧ g'.HasRoom n m := by
  have hlt : g.opsI < g.ops.length := by have := h.1; omega
  refine ⟨_, if_pos hlt, take_set_succ x hlt, rfl, rfl, ?_, h.2⟩
  show g.opsI + 1 + n ≤ (g.ops.set g.opsI x).length
  rw [length_set]
  have := h.1
  omega

theorem appendData_of_room (d : List UInt8) (h : g.HasRoom n (m + d.length)) :
    ∃ g', GraphStorage.appendData g d = some g' ∧ opsAsSlice g' = opsAsSlice g ∧
      dataAsSlice g' = dataAsSlice g ++ d ∧ g'.HasRoom n m := by
  have hle : g.dataI + d.length ≤ g.data.length := by have := h.2; omega
  refine ⟨_, if_pos hle, rfl, take_overwrite d (by omega), h.1, ?_⟩
  show g.dataI + d.length + m ≤ (overwrite g.data g.dataI d).length
  rw [length_overwrite hle]
  have := h.2
  omega

theorem appendData_eq_some {g' : RefGraph} :
    GraphStorage.appendData g d = some g' ↔ g.dataI + d.length ≤ g.data.length ∧
      g' = { g with data := overwrite g.data g.dataI d, dataI := g.dataI + d.length } := by
  simp only [GraphStorage.appendData]
  split
  · next h => simp [h, eq_comm]
  · next h => simp [h]

theorem getData_of_room (k : ℕ) (h : g.HasRoom n (m + k)) :
    ∃ d g', GraphStorage.getData g k = some (d, g') ∧ d.length = k ∧
      opsAsSlice g' = opsAsSlice g ∧ dataAsSlice g' = dataAsSlice g ++ d ∧ g'.HasRoom n m := by
  have hle : g.dataI + k ≤ g.data.length := by have := h.2; omega
  refine ⟨_, _, if_pos hle, ?_, rfl, ?_, h.1, ?_⟩
  · rw [length_take, length_drop]; omega
  · show g.data.take (g.dataI + k) = g.data.take g.dataI ++ (g.data.drop g.dataI).take k
    rw [take_add]
  · show g.dataI + k + m ≤ g.data.length
    have := h.2
    omega

theorem length_opsAsSlice (h : g.HasRoom n m) : (opsAsSlice g).length = g.opsI := by
  have := h.1
  rw [opsAsSlice_eq, length_take, min_eq_left (by omega)]

theorem length_dataAsSlice (h : g.HasRoom n m) : (dataAsSlice g).length = g.dataI := by
  have := h.2
  rw [dataAsSlice_eq, length_take, min_eq_left (by omega)]

theorem writeBack_of_room {xs : List UInt8} (d' : List UInt8) (h : g.HasRoom n m)
    (hg : dataAsSlice g = xs ++ d) (hlen : d'.length = d.length) :
    opsAsSlice (GraphStorage.writeBack g d') = opsAsSlice g ∧
      dataAsSlice (GraphStorage.writeBack g d') = xs ++ d' ∧
        (GraphStorage.writeBack g d').HasRoom n m := by
  have hle : g.dataI ≤ g.data.length := by have := h.2; omega
  have htotal : g.dataI = xs.length + d.length := by
    have := congrArg length hg
    rwa [length_dataAsSlice h, length_append] at this
  have hstart : g.dataI - d'.length = xs.length := by omega
  have hxs : g.data.take xs.length = xs := by
    have := congrArg (take xs.length) hg
    rwa [dataAsSlice_eq, take_take, min_eq_left (by omega), take_left] at this
  refine ⟨rfl, ?_, h.1, ?_⟩
  · show (overwrite g.data (g.dataI - d'.length) d').take g.dataI = xs ++ d'
    rw [hstart, htotal, ← hlen, take_overwrite d' (by omega), hxs]
  · show g.dataI + m ≤ (overwrite g.data (g.dataI - d'.length) d').length
    rw [length_overwrite (by omega)]
    exact h.2

theorem truncateTo_of_append {xs xs' : List UInt16} {ys ys' : List UInt8} (h : g.HasRoom 0 0)
    (hops : opsAsSlice g = xs ++ xs') (hdata : dataAsSlice g = ys ++ ys') :
    ∃ g', GraphStorage.truncateTo g xs.length ys.length = .ok g' ∧ opsAsSlice g' = xs ∧
      dataAsSlice g' = ys ∧ g'.HasRoom 0 0 := by
  have hopsLen := congrArg length hops
  have hdataLen := congrArg length hdata
  rw [length_opsAsSlice h, length_append] at hopsLen
  rw [length_dataAsSlice h, length_append] at hdataLen
  refine ⟨_, if_pos ⟨by omega, by omega⟩, ?_, ?_, ?_, ?_⟩
  · show g.ops.take xs.length = xs
    have := congrArg (take xs.length) hops
    rwa [opsAsSlice_eq, take_take, min_eq_left (by omega), take_left] at this
  · show g.data.take ys.length = ys
    have := congrArg (take ys.length) hdata
    rwa [dataAsSlice_eq, take_take, min_eq_left (by omega), take_left] at this
  · have := h.1
    show xs.length + 0 ≤ g.ops.length
    omega
  · have := h.2
    show ys.length + 0 ≤ g.data.length
    omega

instance : LawfulGraphStorage RefGraph where
  Room := HasRoom
  room_mono h hn hm := ⟨by have := h.1; omega, by have := h.2; omega⟩
  room_and h h' := ⟨h.1, h'.2⟩
  room_of_available := by
    intro g n m h hn hm
    simp only [GraphStorage.opsAvailable, GraphStorage.dataAvailable] at hn hm
    have h1 := h.1
    have h2 := h.2
    exact ⟨by omega, by omega⟩
  room_of_canAppend h hcan := ⟨h.1, le_of_lt (of_decide_eq_true hcan)⟩
  canAppend_of_room h := decide_eq_true h.2
  appendOp_spec := appendOp_of_room
  appendData_spec := appendData_of_room
  getData_spec := getData_of_room
  writeBack_spec := writeBack_of_room
  truncateTo_zero_spec g :=
    ⟨{ g with opsI := 0, dataI := 0 }, by simp [GraphStorage.truncateTo], rfl, rfl,
      Nat.zero_le _, Nat.zero_le _⟩
  truncateTo_spec := truncateTo_of_append
  opLen_eq h := (length_opsAsSlice h).symm
  dataLen_eq h := (length_dataAsSlice h).symm

end RefGraph

/-! ## Operations of the trait that are the same for every storage -/

section

variable {S : Type} [GraphStorage S]

def asVecGraph (g : S) : VecGraph := ⟨opsAsSlice g, dataAsSlice g⟩

def copyFrom (g : S) (graph : VecGraph) : S :=
  let g := graph.ops.foldl (fun g op => (GraphStorage.appendOp g op).getD g) (GraphStorage.clear g)
  (GraphStorage.appendData g graph.data).getD g

/-- `node_iter` -/
def nodesOf (spec : GraphSpec) (g : S) : Iter Panic GraphNode :=
  nodeIter spec (opsAsSlice g) (dataAsSlice g)

def operationsOf (spec : GraphSpec) (g : S) : Iter Panic GraphOp := opIter spec (opsAsSlice g)

end

end FuzzSocketCan
