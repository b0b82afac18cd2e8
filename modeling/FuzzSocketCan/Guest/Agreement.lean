import FuzzSocketCan.Guest.Interpreter

/-! # Guest and host read the same graph

The guest's tables are generated from the specification that the host loads (`Compiled`), so a run
calls the handlers of the nodes that the host's node iterator yields.

* **`interpretNodes_append`**, **`serves_of_callFor`** — the guest reads node after node.
* **`runFromStart_serves_nodes`** — a whole run, on a graph that the host has written. -/

namespace FuzzSocketCan

open Lib List Option GuestState SpecLoader

/-! ## The tables agree -/

def GuestType.Reads : GuestType → AtomicDataType → Prop
  | fixed size, t => t.size = .fixed size
  | vec elemSize, t => ∃ range dtype generators, t = .vec range elemSize dtype generators

abbrev Readers (types : List GuestType) (specs : List AtomicSpec) : Prop :=
  List.Forall₂ (fun t s => t.Reads s.atomicType) types specs

structure NodeLoader.Loads (n : NodeLoader) (nType : NodeSpec) : Prop where
  name : nType.name = n.name
  data : nType.data = n.atomId
  inputs : nType.inputs = n.inputs
  borrows : nType.passthroughs = n.borrows
  outputs : nType.outputs = n.outputs

structure Compiled (l : SpecLoader) (spec : GraphSpec) : Prop where
  checksum : spec.checksum = l.checksum
  types : Readers l.guestTypes spec.dataSpecs
  nodes : List.Forall₂ NodeLoader.Loads l.nodes spec.nodeSpecs

section

variable {types : List GuestType} {specs : List AtomicSpec}

theorem sizeAt_eq (h : Readers types specs) {id n : ℕ} (hid : fieldSize specs id = .ok n) :
    GuestType.sizeAt types id = n := by
  obtain ⟨s, hs, hsize⟩ := fieldSize_eq_ok.1 hid
  obtain ⟨hlt, hget⟩ := List.getElem?_eq_some_iff.1 hs
  have hlt' : id < types.length := h.length_eq ▸ hlt
  have hreads := h.get hlt' hlt
  rw [GuestType.sizeAt, getElem?_eq_getElem hlt']
  simp only [get_eq_getElem, hget] at hreads
  cases ht : types[id] with
  | fixed size =>
    rw [ht, GuestType.Reads, hsize] at hreads
    exact (AtomicSize.fixed.inj hreads).symm
  | vec elemSize =>
    rw [ht] at hreads
    obtain ⟨range, dtype, generators, heq⟩ := hreads
    rw [heq] at hsize
    cases hsize

theorem sum_sizeAt_eq (h : Readers types specs) {fields : List (String × AtomicTypeID)} {n : ℕ}
    (hn : structSize specs fields = .ok n) :
    (fields.map fun f => GuestType.sizeAt types f.2).sum = n := by
  induction fields generalizing n with
  | nil => exact Except.ok.inj hn
  | cons f fields ih =>
    obtain ⟨k, m, hk, hm, rfl⟩ := structSize_cons_eq_ok.1 hn
    rw [map_cons, sum_cons, sizeAt_eq h hk, ih hm]

variable {parse : String → Option VecGenerator} {g g' : GraphSpec}

theorem atomToGraphSpec_eq_ok {a : AtomLoader} (h : Readers types g.dataSpecs)
    (hg : SpecLoader.atomToGraphSpec parse g a = .ok g') :
    ∃ name t, g' = g.dataType name t ∧ (a.guestType types).Reads t.1 := by
  cases a with
  | struct name fields =>
    obtain ⟨t, ht, hg⟩ := except_bind_eq_ok.1 hg
    refine ⟨name, t, (Except.ok.inj hg).symm, ?_⟩
    unfold dataStruct at ht
    split at ht
    · next size hsize =>
        obtain rfl := Except.ok.inj ht
        exact congrArg AtomicSize.fixed (sum_sizeAt_eq h hsize).symm
    · cases ht
  | int name size generators =>
    obtain ⟨t, ht, hg⟩ := except_bind_eq_ok.1 hg
    refine ⟨name, t, (Except.ok.inj hg).symm, ?_⟩
    unfold dataInt at ht
    split at ht
    · obtain rfl := Except.ok.inj ht; rfl
    · cases ht
  | vec name sizeRange dtype generators =>
    simp only [atomToGraphSpec] at hg
    split at hg
    · cases hg
    · split at hg
      · obtain ⟨gens, -, hg⟩ := except_bind_eq_ok.1 hg
        obtain ⟨t, ht, hg⟩ := except_bind_eq_ok.1 hg
        refine ⟨name, t, (Except.ok.inj hg).symm, ?_⟩
        unfold dataVec at ht
        split at ht
        · cases ht
        · next size hsize =>
            split at ht
            · obtain rfl := Except.ok.inj ht
              exact ⟨sizeRange, dtype, gens, by rw [sizeAt_eq h hsize]⟩
            · cases ht
      · cases hg

theorem foldlM_cons_eq_ok {α β : Type} {f : β → α → Except Panic β} {a : α} {as : List α}
    {b b' : β} :
    (a :: as).foldlM f b = .ok b' ↔ ∃ b₁, f b a = .ok b₁ ∧ as.foldlM f b₁ = .ok b' := by
  rw [foldlM_cons, except_bind_eq_ok]

theorem atoms_eq_ok {atomics : List AtomLoader} (h : Readers types g.dataSpecs)
    (hg : atomics.foldlM (SpecLoader.atomToGraphSpec parse) g = .ok g') :
    Readers (atomics.foldl (fun types a => types ++ [a.guestType types]) types) g'.dataSpecs ∧
      g'.nodeSpecs = g.nodeSpecs ∧ g'.checksum = g.checksum := by
  induction atomics generalizing types g with
  | nil => obtain rfl := Except.ok.inj hg; exact ⟨h, rfl, rfl⟩
  | cons a atomics ih =>
    obtain ⟨g₁, hg₁, hrest⟩ := foldlM_cons_eq_ok.1 hg
    obtain ⟨name, t, rfl, hreads⟩ := atomToGraphSpec_eq_ok h hg₁
    exact ih (g := g.dataType name t) (rel_append h (.cons hreads .nil)) hrest

theorem edges_eq_ok {edges : List String} (hg : edges.foldlM GraphSpec.valueType g = .ok g') :
    g'.dataSpecs = g.dataSpecs ∧ g'.nodeSpecs = g.nodeSpecs ∧ g'.checksum = g.checksum := by
  induction edges generalizing g with
  | nil => obtain rfl := Except.ok.inj hg; exact ⟨rfl, rfl, rfl⟩
  | cons e edges ih =>
    obtain ⟨g₁, hg₁, hrest⟩ := foldlM_cons_eq_ok.1 hg
    unfold GraphSpec.valueType at hg₁
    split at hg₁
    · obtain ⟨hdata, hnodes, hsum⟩ := ih hrest
      obtain rfl := Except.ok.inj hg₁
      exact ⟨hdata, hnodes, hsum⟩
    · cases hg₁

theorem nodeToGraphSpec_eq_ok {n : NodeLoader} (hg : SpecLoader.nodeToGraphSpec g n = .ok g') :
    g'.dataSpecs = g.dataSpecs ∧ g'.checksum = g.checksum ∧
      ∃ nType, g'.nodeSpecs = g.nodeSpecs ++ [nType] ∧ n.Loads nType := by
  unfold nodeToGraphSpec GraphSpec.nodeType at hg
  split at hg
  · dsimp only at hg
    split at hg
    · obtain rfl := Except.ok.inj hg
      exact ⟨rfl, rfl, _, rfl, rfl, rfl, rfl, rfl, rfl⟩
    · cases hg
  · cases hg

theorem nodes_eq_ok {done nodes : List NodeLoader}
    (h : List.Forall₂ NodeLoader.Loads done g.nodeSpecs)
    (hg : nodes.foldlM SpecLoader.nodeToGraphSpec g = .ok g') :
    List.Forall₂ NodeLoader.Loads (done ++ nodes) g'.nodeSpecs ∧ g'.dataSpecs = g.dataSpecs ∧
      g'.checksum = g.checksum := by
  induction nodes generalizing done g with
  | nil => obtain rfl := Except.ok.inj hg; rw [append_nil]; exact ⟨h, rfl, rfl⟩
  | cons n nodes ih =>
    obtain ⟨g₁, hg₁, hrest⟩ := foldlM_cons_eq_ok.1 hg
    obtain ⟨hdata, hsum, nType, hnodes, hloads⟩ := nodeToGraphSpec_eq_ok hg₁
    have h₁ : List.Forall₂ NodeLoader.Loads (done ++ [n]) g₁.nodeSpecs := by
      rw [hnodes]; exact rel_append h (.cons hloads .nil)
    obtain ⟨h', hdata', hsum'⟩ := ih h₁ hrest
    rw [append_assoc] at h'
    exact ⟨h', hdata'.trans hdata, hsum'.trans hsum⟩

theorem compiled_of_toGraphSpec {l : SpecLoader} (h : l.toGraphSpec parse = .ok g) :
    Compiled l g := by
  obtain ⟨g₁, hatoms, h⟩ := except_bind_eq_ok.1 h
  obtain ⟨g₂, hedges, h⟩ := except_bind_eq_ok.1 h
  obtain ⟨htypes, hnodes₁, hsum₁⟩ := atoms_eq_ok (show Readers [] [] from .nil) hatoms
  obtain ⟨hdata₂, hnodes₂, hsum₂⟩ := edges_eq_ok hedges
  have hempty : List.Forall₂ NodeLoader.Loads [] g₂.nodeSpecs := by
    rw [hnodes₂, hnodes₁]; exact .nil
  obtain ⟨hnodes, hdata, hsum⟩ := nodes_eq_ok hempty h
  exact ⟨hsum.trans (hsum₂.trans hsum₁), by rw [hdata, hdata₂]; exact htypes, hnodes⟩

end

/-! ## One node -/

def GuestType.dataOf : GuestType → List UInt8 → Option GuestData
  | fixed _, bytes => some (.fixed bytes)
  | vec elemSize, bytes =>
    if elemSize = 0 then none else some (.vec ((bytes.length - 2) / elemSize) (bytes.drop 2))

def GuestNode.dataOf (n : GuestNode) (bytes : List UInt8) : Option GuestData :=
  match n.data with
  | none => some .none
  | some t => t.dataOf bytes

structure Ahead (ops data : ℕ) (s : GuestState) (xs : List UInt16) (ys : List UInt8) : Prop where
  stored_ops : Stored s.mem (ops + 2 * s.vm.opsI) (arrayOf 2 (xs.map UInt16.toNat))
  stored_data : Stored s.mem (data + s.vm.dataI) ys
  ops_le : s.vm.opsI + xs.length ≤ s.opsLen
  data_le : s.vm.dataI + ys.length ≤ s.dataLen

section

variable {l : SpecLoader} {spec : GraphSpec} {ops data : ℕ} {s : GuestState} {node : GraphNode}

theorem Compiled.getNode (h : Compiled l spec) {id : NodeTypeID} {nType : NodeSpec}
    (hn : spec.getNode id = some nType) :
    ∃ n : NodeLoader, l.guestNodes[id.toNat]? = some (l.guestNode n) ∧ n.Loads nType := by
  obtain ⟨hlt, rfl⟩ := List.getElem?_eq_some_iff.1 hn
  have hlt' : id.toNat < l.nodes.length := h.nodes.length_eq ▸ hlt
  refine ⟨l.nodes.get ⟨_, hlt'⟩, ?_, h.nodes.get hlt' hlt⟩
  rw [SpecLoader.guestNodes, getElem?_map, getElem?_eq_getElem hlt']
  rfl

variable {n : NodeLoader} {nType : NodeSpec}

theorem Compiled.getData (h : Compiled l spec) (hn : n.Loads nType) {id : AtomicTypeID}
    {a : AtomicSpec} (hid : nType.data = some id) (ha : spec.getData id = some a) :
    ∃ t, (l.guestNode n).data = some t ∧ t.Reads a.atomicType := by
  obtain ⟨hlt, rfl⟩ := List.getElem?_eq_some_iff.1 ha
  have hlt' : id < l.guestTypes.length := h.types.length_eq ▸ hlt
  refine ⟨l.guestTypes.get ⟨_, hlt'⟩, ?_, h.types.get hlt' hlt⟩
  show (n.atomId.bind fun id => l.guestTypes[id]?) = _
  rw [← hn.data, hid]
  exact getElem?_eq_getElem hlt'

theorem Compiled.encodes_cases (h : Compiled l spec) (hn : n.Loads nType) {bytes : List UInt8}
    (henc : nType.Encodes spec bytes) :
    (l.guestNode n).data = none ∧ bytes = [] ∨
      ∃ id a t, nType.data = some id ∧ spec.getData id = some a ∧ (l.guestNode n).data = some t ∧
        t.Reads a.atomicType ∧ a.atomicType.Encodes bytes := by
  unfold NodeSpec.Encodes at henc
  cases hid : nType.data with
  | none =>
    rw [hid] at henc
    refine .inl ⟨?_, henc⟩
    show (n.atomId.bind fun id => l.guestTypes[id]?) = none
    rw [← hn.data, hid]
    rfl
  | some id =>
    rw [hid] at henc
    obtain ⟨a, ha, henc⟩ := henc
    obtain ⟨t, ht, hreads⟩ := h.getData hn hid ha
    exact .inr ⟨id, a, t, rfl, ha, ht, hreads, henc⟩

theorem readData_eq {t : GuestType} {a : AtomicDataType} {bytes : List UInt8} (ht : t.Reads a)
    (henc : a.Encodes bytes) (hstored : Stored s.mem (data + s.vm.dataI) bytes)
    (hle : s.vm.dataI + bytes.length ≤ s.dataLen) :
    readData data t s =
      match t.dataOf bytes with
      | some d => .ok d (s.skipData bytes.length)
      | none => .error .divideByZero s := by
  unfold AtomicDataType.Encodes at henc
  cases t with
  | fixed size =>
    rw [ht] at henc
    subst henc
    simp only [readData, bind_run, get_run]
    rw [check_of hle]
    rw [hstored]
    rfl
  | vec elemSize =>
    obtain ⟨range, dtype, generators, rfl⟩ := ht
    obtain ⟨lo, hi, body, rfl, hbody⟩ := henc
    obtain ⟨hlo, hi', hstored⟩ := by simpa only [stored_cons] using hstored
    have hword : wordAt s.mem 2 (data + s.vm.dataI) = body.length := by
      rw [hbody, vecHeader_eq, wordAt, bytesAt, bytesAt, bytesAt, hlo, hi']
      rfl
    simp only [length_cons] at hle
    simp only [readData, bind_run, get_run, hword]
    rw [check_of (by omega), check_of (by omega), GuestType.dataOf]
    by_cases hzero : elemSize = 0
    · rw [if_pos hzero, check, if_neg (not_not.2 hzero)]
      rfl
    · rw [if_neg hzero, check_of hzero]
      have hvals : bytesAt s.mem (data + (s.vm.dataI + 2)) body.length = body := hstored
      rw [hvals, add_assoc, add_comm 2]
      rfl

theorem readNodeData_eq (h : Compiled l spec) (hn : n.Loads nType)
    (henc : nType.Encodes spec node.data) (hat : Ahead ops data s node.ops node.data) :
    readNodeData data (l.guestNode n) s =
      match (l.guestNode n).dataOf node.data with
      | some d => .ok d (s.skipData node.data.length)
      | none => .error .divideByZero s := by
  obtain ⟨hdata, hnil⟩ | ⟨id, a, t, -, -, hdata, hreads, henc⟩ := h.encodes_cases hn henc
  · rw [readNodeData, GuestNode.dataOf, hdata, hnil]
    rfl
  · rw [readNodeData, GuestNode.dataOf, hdata]
    exact readData_eq hreads henc hat.stored_data hat.data_le

def SpecLoader.callFor (l : SpecLoader) (node : GraphNode) (opsI dataI : ℕ) :
    Option (GuestNode × HandlerCall) :=
  l.guestNodes[node.id.toNat]?.bind fun n => (n.dataOf node.data).map fun d =>
    (n, ⟨node.id, opsI, dataI + node.data.length, d, n.args.zip node.ops.tail⟩)

theorem Compiled.size_eq (h : Compiled l spec) (hnode : node.IsNode spec) {n : GuestNode}
    (hn : l.guestNodes[node.id.toNat]? = some n) :
    n.size = node.ops.length ∧ n.args.length = node.ops.tail.length := by
  obtain ⟨nType, operands, hn', hops, hlen, -⟩ := hnode
  obtain ⟨nl, hnl, hloads⟩ := h.getNode hn'
  obtain rfl := some.inj (hnl.symm.trans hn)
  have hargs : (l.guestNode nl).args.length = operands.length := by
    rw [hlen, NodeSpec.size, hloads.inputs, hloads.borrows, hloads.outputs]
    simp [guestNode, add_assoc]
  refine ⟨?_, by rw [hops, tail_cons, hargs]⟩
  rw [hops, length_cons, ← hargs]
  simp [guestNode, add_assoc]

theorem fetch_node (h : Compiled l spec) (hnode : node.IsNode spec)
    (hat : Ahead ops data s node.ops node.data) :
    fetch l.guestNodes ops data s =
      match l.callFor node s.vm.opsI s.vm.dataI with
      | some r => .ok r (s.skipData node.data.length)
      | none => .error .divideByZero s := by
  obtain ⟨nType, operands, hn, hops, hlen, henc⟩ := id hnode
  obtain ⟨n, hn', hloads⟩ := h.getNode hn
  obtain ⟨hsize, hargs⟩ := h.size_eq hnode hn'
  rw [hops, tail_cons] at hargs
  have hstored := hat.stored_ops
  rw [hops, map_cons, arrayOf_cons, stored_append, length_toLe] at hstored
  have hword : ∀ x : UInt16, x.toNat < 256 ^ 2 := fun x => x.toNat_lt
  have hop := hstored.1.wordAt (hword _)
  have hids : wordsAt s.mem 2 (ops + 2 * (s.vm.opsI + 1)) (l.guestNode n).args.length =
      operands.map UInt16.toNat := by
    have := hstored.2.wordsAt fun v hv => by
      obtain ⟨x, -, rfl⟩ := mem_map.1 hv
      exact hword x
    rwa [length_map, ← hargs, add_assoc, ← Nat.mul_succ] at this
  have hback : (operands.map UInt16.toNat).map UInt16.ofNat = operands := by
    rw [List.map_map]
    conv_rhs => rw [← map_id operands]
    exact map_congr_left fun x _ => UInt16.ofNat_toNat
  simp only [fetch, bind_run, get_run, hop, hn', hids,
    hback, callFor, bind_some]
  rw [check_of (by rw [hsize]; exact hat.ops_le)]
  simp only [pure_run, readNodeData_eq h hloads henc hat]
  cases hd : (l.guestNode n).dataOf node.data with
  | none => rfl
  | some d =>
    simp [hops, skipData]

end

/-! ## What a handler is given -/

def GuestData.bytes : GuestData → List UInt8
  | none => []
  | fixed bytes => bytes
  | vec _ vals => toLe 2 vals.length ++ vals

def NodeSpec.elementSize (spec : GraphSpec) (nType : NodeSpec) : Option ℕ :=
  match nType.data.bind spec.getData with
  | some ⟨_, _, .vec _ primitiveSize _ _⟩ => some primitiveSize
  | _ => none

structure Serves (spec : GraphSpec) (node : GraphNode) (call : HandlerCall) : Prop where
  op : call.op = node.id
  opsI : call.opsI = node.opI
  ids : call.args.map Prod.snd = node.ops.tail
  data : call.data.bytes = node.data
  typed : ∃ nType, spec.getNode node.id = some nType ∧
    call.args.map Prod.fst = nType.inputs ++ nType.passthroughs ++ nType.outputs ∧
      ∀ count vals, call.data = .vec count vals →
        ∃ size, nType.elementSize spec = some size ∧ count = vals.length / size

def HandlerCall.InTables (call : HandlerCall) : Prop := ∀ arg ∈ call.args, arg.2.toNat < tableLen

section

variable {l : SpecLoader} {spec : GraphSpec} {ops data : ℕ} {s : GuestState} {node : GraphNode}

theorem toLe_vecHeader (lo hi : UInt8) : toLe 2 (vecHeader lo hi) = [lo, hi] := by
  have h := toLe_ofLe [lo, hi]
  rw [vecHeader_eq]
  simpa using h

theorem dataOf_eq_none (h : Compiled l spec) (hn : n.Loads nType) {bytes : List UInt8}
    (hzero : nType.elementSize spec = some 0) : (l.guestNode n).dataOf bytes = none := by
  unfold NodeSpec.elementSize at hzero
  split at hzero
  · next name id range size dtype generators ha =>
      obtain rfl := some.inj hzero
      obtain ⟨did, hdid, ha⟩ := bind_eq_some_iff.1 ha
      obtain ⟨t, hdata, hreads⟩ := h.getData hn hdid ha
      rw [GuestNode.dataOf, hdata]
      cases t with
      | fixed size => cases hreads
      | vec elemSize =>
        obtain ⟨range', dtype', generators', heq⟩ := hreads
        obtain ⟨-, rfl, -⟩ := AtomicDataType.vec.inj heq
        rfl
  · cases hzero

theorem dataOf_eq_some (h : Compiled l spec) (hn : n.Loads nType) {bytes : List UInt8}
    (henc : nType.Encodes spec bytes) (hsize : nType.elementSize spec ≠ some 0) :
    ∃ d, (l.guestNode n).dataOf bytes = some d ∧ d.bytes = bytes ∧
      ∀ count vals, d = .vec count vals →
        ∃ size, nType.elementSize spec = some size ∧ count = vals.length / size := by
  obtain ⟨hdata, hnil⟩ | ⟨id, a, t, hid, ha, hdata, hreads, henc⟩ := h.encodes_cases hn henc
  · refine ⟨.none, by rw [GuestNode.dataOf, hdata], hnil.symm, ?_⟩
    intro count vals heq
    cases heq
  · rw [GuestNode.dataOf, hdata]
    cases t with
    | fixed size =>
      refine ⟨.fixed bytes, rfl, rfl, ?_⟩
      intro count vals heq
      cases heq
    | vec elemSize =>
      obtain ⟨range, dtype, generators, hvec⟩ := hreads
      have helem : nType.elementSize spec = some elemSize := by
        obtain ⟨name, aid, atomicType⟩ := a
        simp only at hvec
        rw [NodeSpec.elementSize, hid, bind_some, ha, hvec]
      have hne : elemSize ≠ 0 := fun h0 => hsize (by rw [helem, h0])
      rw [hvec] at henc
      obtain ⟨lo, hi, body, rfl, hbody⟩ := henc
      refine ⟨.vec (body.length / elemSize) body, ?_, ?_, ?_⟩
      · exact if_neg hne
      · rw [GuestData.bytes, hbody, toLe_vecHeader]; rfl
      · intro count vals heq
        obtain ⟨rfl, rfl⟩ := GuestData.vec.inj heq
        exact ⟨elemSize, helem, rfl⟩

/-! ## Runs -/

def GuestState.move (s : GuestState) (m n : ℕ) : GuestState :=
  { s with vm := { s.vm with opsI := s.vm.opsI + m, dataI := s.vm.dataI + n } }

def GuestState.called (s : GuestState) (calls : List HandlerCall) : GuestState :=
  { s with calls := s.calls ++ calls }

theorem Ahead.of_append {xs xs' : List UInt16} {ys ys' : List UInt8}
    (h : Ahead ops data s (xs ++ xs') (ys ++ ys')) :
    Ahead ops data s xs ys ∧
      ∀ calls, Ahead ops data ((s.move xs.length ys.length).called calls) xs' ys' := by
  have hops := h.stored_ops
  have hdata := h.stored_data
  have hopsLe := h.ops_le
  have hdataLe := h.data_le
  rw [map_append, arrayOf_append, stored_append, length_arrayOf, length_map] at hops
  rw [stored_append] at hdata
  rw [length_append] at hopsLe hdataLe
  refine ⟨⟨hops.1, hdata.1, by omega, by omega⟩, fun calls => ⟨?_, ?_, ?_, ?_⟩⟩
  · show Stored s.mem (ops + 2 * (s.vm.opsI + xs.length)) _
    rw [mul_add, ← add_assoc]
    exact hops.2
  · show Stored s.mem (data + (s.vm.dataI + ys.length)) _
    rw [← add_assoc]
    exact hdata.2
  · show s.vm.opsI + xs.length + xs'.length ≤ s.opsLen
    omega
  · show s.vm.dataI + ys.length + ys'.length ≤ s.dataLen
    omega

theorem interpretNode_node (h : Compiled l spec) (hnode : node.IsNode spec)
    (hat : Ahead ops data s node.ops node.data) :
    interpretNode l.guestNodes ops data s =
      match l.callFor node s.vm.opsI s.vm.dataI with
      | none => .error .divideByZero s
      | some (n, call) =>
        if n.name = "create_tmp_snapshot" then
          .error (.tmpSnapshot n) (s.skipData node.data.length)
        else .ok n.interactive ((s.move node.ops.length node.data.length).called [call]) := by
  have hfetch := fetch_node h hnode hat
  have hlt : s.opsLen < 2 ^ 64 := wordAt_lt s.mem 8 s.vm.opsLen
  have hle := hat.ops_le
  simp only [interpretNode, bind_run, hfetch]
  cases hcall : l.callFor node s.vm.opsI s.vm.dataI with
  | none => rfl
  | some r =>
    obtain ⟨n, call⟩ := r
    obtain ⟨n', hn', hd⟩ := bind_eq_some_iff.1 hcall
    obtain ⟨d, -, hr⟩ := map_eq_some_iff.1 hd
    obtain ⟨rfl, -⟩ := Prod.mk.inj hr
    have hsize := (h.size_eq hnode hn').1
    have hmod : (s.vm.opsI + n'.size) % 2 ^ 64 = s.vm.opsI + node.ops.length := by
      rw [hsize, Nat.mod_eq_of_lt (by omega)]
    by_cases hname : n'.name = "create_tmp_snapshot"
    · simp only [handler, if_pos hname]
      rfl
    · simp only [handler, if_neg hname, advance, bind_run, modify_run, pure_run,
        skipData, hmod]
      rfl

def SpecLoader.callsFor (l : SpecLoader) : List GraphNode → ℕ → ℕ → Option (List HandlerCall)
  | [], _, _ => some []
  | node :: nodes, opsI, dataI =>
    match l.callFor node opsI dataI with
    | none => none
    | some (n, call) =>
      if n.name = "create_tmp_snapshot" then none
      else (l.callsFor nodes (opsI + node.ops.length) (dataI + node.data.length)).map (call :: ·)

theorem SpecLoader.callsFor_cons_eq_some {nodes : List GraphNode} {i j : ℕ}
    {calls : List HandlerCall} (h : l.callsFor (node :: nodes) i j = some calls) :
    ∃ n call rest, l.callFor node i j = some (n, call) ∧ n.name ≠ "create_tmp_snapshot" ∧
      l.callsFor nodes (i + node.ops.length) (j + node.data.length) = some rest ∧
        calls = call :: rest := by
  rw [callsFor] at h
  split at h
  · cases h
  · next n call hcall =>
      split at h
      · cases h
      · next hname =>
          obtain ⟨rest, hrest, rfl⟩ := map_eq_some_iff.1 h
          exact ⟨n, call, rest, hcall, hname, hrest, rfl⟩

theorem Ahead.opsI_lt (h : Ahead ops data s node.ops node.data) (hnode : node.IsNode spec) :
    s.vm.opsI < s.opsLen := by
  have := h.ops_le
  have := hnode.ops_pos
  omega

theorem interpretNodes_append (h : Compiled l spec) {nodes : List GraphNode}
    (hnodes : ∀ node ∈ nodes, node.IsNode spec) {xs : List UInt16} {ys : List UInt8}
    (hat : Ahead ops data s (opsOf nodes ++ xs) (dataOf nodes ++ ys)) (fuel : ℕ)
    {calls : List HandlerCall} (hcalls : l.callsFor nodes s.vm.opsI s.vm.dataI = some calls) :
    interpretNodes l.guestNodes ops data (fuel + nodes.length) s =
      interpretNodes l.guestNodes ops data fuel
        ((s.move (opsOf nodes).length (dataOf nodes).length).called calls) := by
  induction nodes generalizing s calls with
  | nil =>
    obtain rfl := some.inj hcalls
    simp [move, called]
  | cons node nodes ih =>
    have hnode := hnodes node mem_cons_self
    rw [opsOf_cons, dataOf_cons, append_assoc, append_assoc] at hat
    obtain ⟨hat₁, hat₂⟩ := hat.of_append
    have hround := interpretNode_node h hnode hat₁
    obtain ⟨n, call, rest, hcall, hname, hrest, rfl⟩ := callsFor_cons_eq_some hcalls
    rw [hcall] at hround
    simp only [if_neg hname] at hround
    have hrec := ih (s := (s.move node.ops.length node.data.length).called [call])
      (fun m hm => hnodes m (mem_cons_of_mem _ hm)) (hat₂ [call]) hrest
    rw [length_cons, ← add_assoc, interpretNodes_succ (hat₁.opsI_lt hnode), hround]
    simp only [hrec]
    simp [move, called, add_assoc]

theorem interpretNodes_stops (h : Compiled l spec) {nodes : List GraphNode}
    (hnodes : ∀ node ∈ nodes, node.IsNode spec) {xs : List UInt16} {ys : List UInt8}
    (hat : Ahead ops data s (opsOf nodes ++ xs) (dataOf nodes ++ ys)) (fuel : ℕ)
    (hcalls : l.callsFor nodes s.vm.opsI s.vm.dataI = none) :
    ∃ e s', interpretNodes l.guestNodes ops data (fuel + nodes.length) s = .error e s' ∧
      s'.vm.opsI < s.vm.opsI + (opsOf nodes).length := by
  induction nodes generalizing s with
  | nil => cases hcalls
  | cons node nodes ih =>
    have hnode := hnodes node mem_cons_self
    have hpos := hnode.ops_pos
    rw [opsOf_cons, dataOf_cons, append_assoc, append_assoc] at hat
    obtain ⟨hat₁, hat₂⟩ := hat.of_append
    have hround := interpretNode_node h hnode hat₁
    rw [opsOf_cons, length_append, length_cons, ← add_assoc,
      interpretNodes_succ (hat₁.opsI_lt hnode), hround]
    rw [callsFor] at hcalls
    cases hcall : l.callFor node s.vm.opsI s.vm.dataI with
    | none => exact ⟨_, _, rfl, by omega⟩
    | some r =>
      obtain ⟨n, call⟩ := r
      rw [hcall] at hcalls
      simp only at hcalls ⊢
      by_cases hname : n.name = "create_tmp_snapshot"
      · refine ⟨_, _, by rw [if_pos hname], ?_⟩
        show s.vm.opsI < _
        omega
      · rw [if_neg hname, map_eq_none_iff] at hcalls
        obtain ⟨e, s', hrec, hlt'⟩ := ih
          (s := (s.move node.ops.length node.data.length).called [call])
          (fun m hm => hnodes m (mem_cons_of_mem _ hm)) (hat₂ [call]) hcalls
        refine ⟨e, s', by rw [if_neg hname]; exact hrec, ?_⟩
        have hopsI : ((s.move node.ops.length node.data.length).called [call]).vm.opsI =
          s.vm.opsI + node.ops.length := rfl
        omega

theorem serves_of_callFor (h : Compiled l spec) (hnode : node.IsNode spec) {i j : ℕ} {n : GuestNode}
    {call : HandlerCall} (hcall : l.callFor node i j = some (n, call)) :
    Serves spec { node with opI := i } call := by
  obtain ⟨nType, operands, hn, hops, hlen, henc⟩ := id hnode
  obtain ⟨nl, hn', hloads⟩ := h.getNode hn
  obtain ⟨-, hargs⟩ := h.size_eq hnode hn'
  rw [callFor, hn', bind_some] at hcall
  obtain ⟨d, hd, heq⟩ := map_eq_some_iff.1 hcall
  obtain ⟨-, rfl⟩ := Prod.mk.inj heq
  have hsize : nType.elementSize spec ≠ some 0 := fun hzero => by
    rw [dataOf_eq_none h hloads hzero] at hd
    cases hd
  obtain ⟨d', hd', hbytes, hcount⟩ := dataOf_eq_some h hloads henc hsize
  obtain rfl := some.inj (hd.symm.trans hd')
  refine ⟨rfl, rfl, map_snd_zip (le_of_eq hargs.symm), hbytes, nType, hn, ?_, hcount⟩
  rw [map_fst_zip (le_of_eq hargs), hloads.inputs, hloads.borrows, hloads.outputs]
  rfl

theorem serves_of_callsFor (h : Compiled l spec) {nodes : List GraphNode}
    (hnodes : ∀ node ∈ nodes, node.IsNode spec) {i j : ℕ} {calls : List HandlerCall}
    (hcalls : l.callsFor nodes i j = some calls) :
    List.Forall₂ (Serves spec) (place i nodes) calls := by
  induction nodes generalizing i j calls with
  | nil => obtain rfl := some.inj hcalls; exact .nil
  | cons node nodes ih =>
    obtain ⟨n, call, rest, hcall, -, hrest, rfl⟩ := callsFor_cons_eq_some hcalls
    exact .cons (serves_of_callFor h (hnodes node mem_cons_self) hcall)
      (ih (fun m hm => hnodes m (mem_cons_of_mem _ hm)) hrest)

theorem exists_callsFor (h : Compiled l spec) {nodes : List GraphNode}
    (hnodes : ∀ node ∈ nodes, node.IsNode spec)
    (hsnapshot : ∀ node ∈ nodes, ∀ nType, spec.getNode node.id = some nType →
      nType.name ≠ "create_tmp_snapshot")
    (helements : ∀ node ∈ nodes, ∀ nType, spec.getNode node.id = some nType →
      nType.elementSize spec ≠ some 0) (i j : ℕ) : ∃ calls, l.callsFor nodes i j = some calls := by
  induction nodes generalizing i j with
  | nil => exact ⟨[], rfl⟩
  | cons node nodes ih =>
    obtain ⟨calls, hcalls⟩ := ih (fun m hm => hnodes m (mem_cons_of_mem _ hm))
      (fun m hm => hsnapshot m (mem_cons_of_mem _ hm))
      (fun m hm => helements m (mem_cons_of_mem _ hm)) (i + node.ops.length)
      (j + node.data.length)
    obtain ⟨nType, operands, hn, hops, hlen, henc⟩ := hnodes node mem_cons_self
    obtain ⟨n, hn', hloads⟩ := h.getNode hn
    obtain ⟨d, hd, -, -⟩ := dataOf_eq_some h hloads henc
      (helements node mem_cons_self nType hn)
    have hname : ¬(l.guestNode n).name = "create_tmp_snapshot" := by
      have := hsnapshot node mem_cons_self nType hn
      rwa [hloads.name] at this
    have hcall : l.callFor node i j = some (l.guestNode n, ⟨node.id, i, j + node.data.length, d,
        (l.guestNode n).args.zip node.ops.tail⟩) := by
      rw [callFor, hn', bind_some, hd, map_some]
    exact ⟨_, by rw [callsFor, hcall]; simp only [if_neg hname, hcalls]; rfl⟩

theorem exists_of_forall₂ {α β : Type} {R : α → β → Prop} {as : List α} {bs : List β}
    (h : List.Forall₂ R as bs) {b : β} (hb : b ∈ bs) : ∃ a ∈ as, R a b := by
  induction h with
  | nil => cases hb
  | cons hhead _ ih =>
    obtain rfl | hb := mem_cons.1 hb
    · exact ⟨_, mem_cons_self, hhead⟩
    · obtain ⟨a, ha, hR⟩ := ih hb
      exact ⟨a, mem_cons_of_mem _ ha, hR⟩

/-- The guest after `setup_interpreter`. -/
def GuestState.ready (mem : Mem) (dataOffset : ℕ) : GuestState :=
  ⟨mem, ⟨some headerLen, 8, 0, some dataOffset, 16, 0⟩, []⟩

variable {mem : Mem} {dataOffset : ℕ} {xs : List UInt16} {ys : List UInt8}

theorem setupInterpreter_ready (h : GuestView mem l.checksum dataOffset xs ys) :
    setupInterpreter l.checksum (GuestState.new mem) =
      .ok ⟨⟩ (GuestState.ready mem dataOffset) := by
  have hsize : payloadSize = 131072 := rfl
  have hheader : headerLen = 40 := rfl
  have hops := h.ops_le
  have hdata := h.data_le
  have h0 : wordAt (new mem).mem 8 (8 * 0) = l.checksum := h.checksum_eq
  have h1 : wordAt (new mem).mem 8 (8 * 1) = xs.length := h.opsLen_eq
  have h2 : wordAt (new mem).mem 8 (8 * 2) = ys.length := h.dataLen_eq
  have h3 : wordAt (new mem).mem 8 (8 * 3) = headerLen := h.graphOffset_eq
  have h4 : wordAt (new mem).mem 8 (8 * 4) = dataOffset := h.dataOffset_eq
  have hget : (get : Guest GuestState) (new mem) =
    .ok (new mem) (new mem) := rfl
  rw [setupInterpreter, bind_run_ok hget]
  dsimp only
  rw [check_bind_run h0, check_bind_run (by omega), check_bind_run (by omega),
    check_bind_run (by omega), check_bind_run (by omega), check_bind_run (by omega),
    check_bind_run (by omega), h3, h4]
  rfl

theorem ahead_ready (h : GuestView mem l.checksum dataOffset xs ys) :
    Ahead headerLen dataOffset (GuestState.ready mem dataOffset) xs ys := by
  refine ⟨h.stored_ops, h.stored_data, ?_, ?_⟩
  · show 0 + xs.length ≤ wordAt mem 8 8
    rw [h.opsLen_eq, zero_add]
  · show 0 + ys.length ≤ wordAt mem 8 16
    rw [h.dataLen_eq, zero_add]

theorem guestNodes_size_pos : ∀ n ∈ l.guestNodes, 0 < n.size := by
  intro n hn
  obtain ⟨nl, -, rfl⟩ := mem_map.1 hn
  exact Nat.succ_pos _

theorem runFromStart_eq (h : GuestView mem l.checksum dataOffset xs ys) {fuel : ℕ}
    (hfuel : xs.length < fuel) :
    runFromStart l fuel mem =
      interpretNodes l.guestNodes headerLen dataOffset fuel (GuestState.ready mem dataOffset) := by
  rw [runFromStart, bind_run_ok (setupInterpreter_ready h)]
  refine runToEnd_eq guestNodes_size_pos rfl rfl ?_
  show wordAt mem 8 8 - 0 < fuel
  rw [h.opsLen_eq]
  omega

theorem runFromStart_nodes (h : Compiled l spec) {nodes : List GraphNode}
    (hnodes : ∀ node ∈ nodes, node.IsNode spec)
    (hview : GuestView mem l.checksum dataOffset (opsOf nodes) (dataOf nodes ++ ys))
    {calls : List HandlerCall} (hcalls : l.callsFor nodes 0 0 = some calls) {fuel : ℕ}
    (hfuel : (opsOf nodes).length < fuel) :
    runFromStart l fuel mem = .ok ⟨⟩ (((GuestState.ready mem dataOffset).move
      (opsOf nodes).length (dataOf nodes).length).called calls) := by
  have hat : Ahead headerLen dataOffset (ready mem dataOffset) (opsOf nodes ++ [])
      (dataOf nodes ++ ys) := by
    rw [append_nil]
    exact ahead_ready hview
  have hnumber := length_le_length_opsOf hnodes
  obtain ⟨extra, rfl⟩ : ∃ k, fuel = k + 1 + nodes.length :=
    ⟨fuel - nodes.length - 1, by omega⟩
  rw [runFromStart_eq hview hfuel, interpretNodes_append h hnodes hat _ hcalls]
  refine interpretNodes_done ?_
  show ¬0 + (opsOf nodes).length < wordAt mem 8 8
  rw [hview.opsLen_eq]
  omega

/-- **Guest and host read the same graph**: the handlers are called for exactly the nodes of the
host's iterator. -/
theorem runFromStart_serves_nodes {parse : String → Option VecGenerator}
    (hspec : l.toGraphSpec parse = .ok spec) (hsum : l.checksum < 2 ^ 64)
    {payload payload' : List UInt8} {g₀ g₁ g : RefGraph}
    (hnew : RefGraph.newFromSlice payload spec.checksum = .ok (g₀, payload'))
    (hlen : payload.length ≤ payloadSize) (hstart : GraphStorage.truncateTo g₀ 0 0 = .ok g₁)
    (hwrite : Relation.ReflTransGen RefGraph.Appends g₁ g)
    (hparse : (nodesOf spec g).stop = none)
    (hids : ∀ node ∈ (nodesOf spec g).items, ∀ id ∈ node.ops.tail, id.toNat < tableLen)
    (hsnapshot : ∀ node ∈ (nodesOf spec g).items, ∀ nType, spec.getNode node.id = some nType →
      nType.name ≠ "create_tmp_snapshot")
    (helements : ∀ node ∈ (nodesOf spec g).items, ∀ nType, spec.getNode node.id = some nType →
      nType.elementSize spec ≠ some 0)
    (hmem : Stored mem 0 (g.payload spec.checksum)) {fuel : ℕ} (hfuel : g.opsI < fuel) :
    ∃ s, runFromStart l fuel mem = .ok ⟨⟩ s ∧
      List.Forall₂ (Serves spec) (nodesOf spec g).items s.calls ∧
        ∀ call ∈ s.calls, call.InTables := by
  have hcompiled := compiled_of_toGraphSpec hspec
  have hfills := (RefGraph.newFromSlice_eq_ok hnew).1
  have hin₁ := (RefGraph.inPayload_of_truncateTo hfills ⟨Nat.zero_le _, Nat.zero_le _⟩ hstart).1
  have hin := (RefGraph.continues_of_appends hwrite hin₁).inPayload
  rw [hcompiled.checksum] at hmem
  have hview := hin.guestView hlen hsum hmem
  have hopsLen := RefGraph.length_opsAsSlice hin.room
  obtain ⟨hops, rest, hdata⟩ := nodeIter_whole hparse
  change opsAsSlice g = opsOf (nodesOf spec g).items at hops
  rw [hops] at hopsLen
  rw [hops, hdata] at hview
  have hnodes : ∀ node ∈ (nodesOf spec g).items, node.IsNode spec := fun node hnode =>
    isNode_of_mem_nodeIter hnode
  obtain ⟨calls, hcalls⟩ := exists_callsFor hcompiled hnodes hsnapshot helements 0 0
  have hserves := serves_of_callsFor hcompiled hnodes hcalls
  have hplace : place 0 (nodesOf spec g).items = (nodesOf spec g).items := nodeIter_place hparse
  rw [hplace] at hserves
  refine ⟨_, runFromStart_nodes hcompiled hnodes hview hcalls (by omega), hserves, ?_⟩
  intro call hcall arg harg
  obtain ⟨node, hnode, hcallServes⟩ := exists_of_forall₂ hserves hcall
  have := mem_map_of_mem (f := Prod.snd) harg
  rw [hcallServes.ids] at this
  exact hids node hnode _ this

end

def openSendPayload : RefGraph := ⟨[0, 1, 1, 1], 4, [2, 0, 7, 8, 0, 0, 0, 0], 4⟩

theorem toGraphSpec_connectionLoader :
    connectionLoader.toGraphSpec (fun _ => none) = .ok connectionSpec := rfl

theorem newFromSlice_zeros : RefGraph.newFromSlice (List.replicate 56 0) 0 =
    .ok (⟨[0, 0, 0, 0], 0, [0, 0, 0, 0, 0, 0, 0, 0], 0⟩,
      (⟨[0, 0, 0, 0], 0, [0, 0, 0, 0, 0, 0, 0, 0], 0⟩ : RefGraph).payload 0) := by
  rfl

theorem appends_openSendPayload :
    Relation.ReflTransGen RefGraph.Appends ⟨[0, 0, 0, 0], 0, [0, 0, 0, 0, 0, 0, 0, 0], 0⟩
      openSendPayload :=
  .tail (.tail (.tail (.tail (.single (.op 0 rfl)) (.op 1 rfl)) (.op 1 rfl)) (.op 1 rfl))
    (.data [2, 0, 7, 8] rfl)

theorem runFromStart_serves_openSend :
    ∃ s, runFromStart connectionLoader 5 (memOf (openSendPayload.payload 0)) = .ok ⟨⟩ s ∧
      List.Forall₂ (Serves connectionSpec) (nodesOf connectionSpec openSendPayload).items s.calls ∧
        ∀ call ∈ s.calls, call.InTables := by
  -- as a Boolean test, which does not range over all identifiers
  have htables : (nodesOf connectionSpec openSendPayload).items.all (fun node =>
      node.ops.tail.all fun id => decide (id.toNat < tableLen)) = true := by decide +kernel
  have hids : ∀ node ∈ (nodesOf connectionSpec openSendPayload).items, ∀ id ∈ node.ops.tail,
      id.toNat < tableLen := by
    intro node hnode id hid
    exact of_decide_eq_true (all_eq_true.1 (all_eq_true.1 htables node hnode) id hid)
  exact runFromStart_serves_nodes (g := openSendPayload) toGraphSpec_connectionLoader (by decide)
    newFromSlice_zeros (by decide) rfl appends_openSendPayload (by decide +kernel) hids
    (by decide +kernel) (by decide +kernel) (stored_memOf _) (by decide)

def emptiesPayload : RefGraph := ⟨[0, 0, 0, 0], 1, [0, 0, 0, 0, 0, 0, 0, 0], 2⟩

/-- **The guest divides by zero at a vector of empty structs.** -/
theorem runFromStart_divides_by_zero :
    emptiesLoader.toGraphSpec (fun _ => none) = .ok emptiesSpec ∧
      (∃ g payload, RefGraph.newFromSlice (List.replicate 56 0) 0 = .ok (g, payload) ∧
        Relation.ReflTransGen RefGraph.Appends g emptiesPayload) ∧
      (nodesOf emptiesSpec emptiesPayload).stop = none ∧
      (nodesOf emptiesSpec emptiesPayload).items = [⟨0, 0, [0], [0, 0]⟩] ∧
      panicOf (runFromStart emptiesLoader 5 (memOf (emptiesPayload.payload 0))) =
        some .divideByZero := by
  refine ⟨rfl, ⟨_, _, newFromSlice_zeros, ?_⟩, by decide +kernel, by decide +kernel,
    by decide +kernel⟩
  exact .tail (.single (.op 0 rfl)) (.data [0, 0] rfl)

end FuzzSocketCan
