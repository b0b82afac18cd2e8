import FuzzSocketCan.Guest.Agreement
import FuzzSocketCan.StructuredFuzzer.CorpusFile

/-! # Seeds are read as they were scripted

The fuzzer's node iterator and the guest's readers take the header of a vector as a number of
bytes, while the builder writes the number of elements.

* **`seedDecodes_iff`** — for which scripts this makes no difference. -/

namespace FuzzSocketCan

open Lib List Option SpecLoader Builder

/-! ## What a script gives and what the guest finds -/

def BuilderCall.dataGiven (l : SpecLoader) (call : BuilderCall) : Option (DataType × PyVal) :=
  match l.nameToNode call.name with
  | .error _ => none
  | .ok (_, n) => do
      let id ← n.atomId
      let t ← l.dataTypes[id]?
      let val ← call.args.getLast?
      some (t, val)

def GuestData.Holds : GuestData → Option (DataType × PyVal) → Prop
  | .none, Option.none => True
  | .fixed bytes, some (.fixed t, val) => t.scripted val = some (t.cValue bytes)
  | .vec count vals, some (.vec t, val) => ∃ vs, val.items = .ok vs ∧ count = vs.length ∧
      vs.mapM t.scripted = some (t.cValues count vals)
  | _, _ => False

def readAll (nodes : List GuestNode) (ops data : ℕ) : ℕ → Guest (List GuestData)
  | 0 => throw .outOfFuel
  | fuel + 1 => do
      let s ← get
      if s.vm.opsI < s.opsLen then do
        let (n, call) ← fetch nodes ops data
        let _ ← advance n
        let rest ← readAll nodes ops data fuel
        pure (call.data :: rest)
      else pure []

structure Loaded (ops data : ℕ) (s : GuestState) (g : VecGraph) : Prop where
  ahead : Ahead ops data s g.ops g.data
  opsI_eq : s.vm.opsI = 0
  opsLen_eq : s.opsLen = g.ops.length
  dataLen_eq : s.dataLen = g.data.length

def BuilderCall.ReadAs (l : SpecLoader) (call : BuilderCall) (node : GraphNode) : Prop :=
  ∃ id n bytes, call.Gives l id n bytes ∧ node.id.toNat = id ∧ node.data = bytes

/-- **The file is read as it was scripted**, by the node iterator and the guest. -/
def SeedDecodes (l : SpecLoader) (spec : GraphSpec) (calls : List BuilderCall)
    (file : List UInt8) : Prop :=
  ∃ g, VecGraph.newFromBinFile file spec = .ok g ∧ (nodesOf spec g).stop = none ∧
    List.Forall₂ (BuilderCall.ReadAs l) calls (nodesOf spec g).items ∧
      ∀ ops data s, Loaded ops data s g →
        ∃ ds s', readAll l.guestNodes ops data (g.ops.length + 1) s = .ok ds s' ∧
          List.Forall₂ (fun call d => GuestData.Holds d (call.dataGiven l)) calls ds

def BuilderCall.VecOk (l : SpecLoader) (call : BuilderCall) : Prop :=
  ∀ t val vs, call.dataGiven l = some (.vec t, val) → val.items = .ok vs →
    t.size ≠ 0 ∧ (t.size = 1 ∨ vs = [])

/-! ## One call -/

section

variable {l : SpecLoader} {spec : GraphSpec} {call : BuilderCall} {node : GraphNode} {id : ℕ}
  {n : NodeLoader} {bytes : List UInt8}

theorem BuilderCall.Gives.cases (h : call.Gives l id n bytes) :
    (n.atomId = none ∧ call.dataGiven l = none ∧ bytes = []) ∨
      ∃ did t val, n.atomId = some did ∧ l.dataTypes[did]? = some t ∧
        call.dataGiven l = some (t, val) ∧ t.buildFromVal val = .ok bytes := by
  have hpacked := h.packed
  unfold packData at hpacked
  unfold BuilderCall.dataGiven
  simp only [h.node]
  split at hpacked
  · next hid => exact .inl ⟨hid, by rw [hid]; rfl, (Except.ok.inj hpacked).symm⟩
  · next did hid =>
      split at hpacked
      · next t val ht hval =>
          refine .inr ⟨did, t, val, hid, ht, ?_, hpacked⟩
          simp [hid, ht, hval]
      · cases hpacked

variable {t : FixedType} {val : PyVal}

theorem buildFromVal_vec_eq_ok (h : (DataType.vec t).buildFromVal val = .ok bytes) :
    ∃ vs body, val.items = .ok vs ∧ vs.length < 256 ^ 2 ∧ bytes = toLe 2 vs.length ++ body ∧
      buildElems t vs = .ok body := by
  obtain ⟨vs, hvs, h⟩ := except_bind_eq_ok.1 h
  obtain ⟨header, hheader, h⟩ := except_bind_eq_ok.1 h
  obtain ⟨body, hbody, h⟩ := except_bind_eq_ok.1 h
  obtain ⟨rfl, hlt⟩ := structPack_eq_ok hheader
  exact ⟨vs, body, hvs, hlt, (Except.ok.inj h).symm, hbody⟩

theorem toLe_two (v : ℕ) (h : v < 256 ^ 2) :
    ∃ lo hi, toLe 2 v = [lo, hi] ∧ vecHeader lo hi = v := by
  refine ⟨UInt8.ofNat v, UInt8.ofNat (v / 256), rfl, ?_⟩
  rw [vecHeader_eq, UInt8.toNat_ofNat', UInt8.toNat_ofNat']
  omega

theorem Compiled.dataType (h : Compiled l spec) {did : ℕ} {t : DataType}
    (ht : l.dataTypes[did]? = some t) :
    ∃ a, spec.getData did = some a ∧ t.guestType.Reads a.atomicType := by
  have hguest : l.guestTypes[did]? = some t.guestType := by
    rw [l.guestTypes_eq, List.getElem?_map, ht, map_some]
  obtain ⟨hlt, heq⟩ := List.getElem?_eq_some_iff.1 hguest
  have hlt' : did < spec.dataSpecs.length := h.types.length_eq ▸ hlt
  have hreads := h.types.get hlt hlt'
  simp only [get_eq_getElem, heq] at hreads
  exact ⟨spec.dataSpecs[did], getElem?_eq_getElem hlt', hreads⟩

theorem encodes_vec_iff {a : AtomicDataType} {vs : List PyVal}
    (ha : (DataType.vec t).guestType.Reads a) (hb : (DataType.vec t).buildFromVal val = .ok bytes)
    (hvs : val.items = .ok vs) : a.Encodes bytes ↔ t.size = 1 ∨ vs = [] := by
  obtain ⟨vs', body, hvs', hlt, rfl, hbody⟩ := buildFromVal_vec_eq_ok hb
  obtain rfl := Except.ok.inj (hvs.symm.trans hvs')
  obtain ⟨lo, hi, hheader, hword⟩ := toLe_two vs.length hlt
  obtain ⟨hlen, -⟩ := buildElems_eq_ok hbody
  obtain ⟨range, dtype, generators, rfl⟩ := ha
  have hiff : body.length = vs.length ↔ t.size = 1 ∨ vs = [] := by
    rw [hlen, ← length_eq_zero_iff]
    constructor
    · intro heq
      by_cases h0 : vs.length = 0
      · exact .inr h0
      · exact .inl (Nat.eq_of_mul_eq_mul_left (pos_of_ne_zero h0) (by omega))
    · rintro (h1 | h0)
      · rw [h1, mul_one]
      · rw [h0, Nat.zero_mul]
  rw [← hiff, hheader]
  constructor
  · rintro ⟨lo', hi', body', heq, hbody'⟩
    simp only [cons_append, nil_append, cons.injEq] at heq
    obtain ⟨rfl, rfl, rfl⟩ := heq
    rw [hbody', hword]
  · intro heq
    exact ⟨lo, hi, body, rfl, by rw [heq, hword]⟩

theorem BuilderCall.Gives.encodes (hc : Compiled l spec) (h : call.Gives l id n bytes)
    {nType : NodeSpec} (hn : n.Loads nType) (hok : call.VecOk l) : nType.Encodes spec bytes := by
  unfold NodeSpec.Encodes
  rw [hn.data]
  obtain ⟨hid, -, rfl⟩ | ⟨did, t, val, hid, ht, hgiven, hb⟩ := h.cases
  · rw [hid]
  · rw [hid]
    obtain ⟨a, ha, hreads⟩ := hc.dataType ht
    refine ⟨a, ha, ?_⟩
    cases t with
    | fixed t =>
      rw [AtomicDataType.Encodes, show a.atomicType.size = .fixed t.size from hreads]
      exact (t.buildFromVal_eq_ok hb).1
    | vec t =>
      obtain ⟨vs, body, hvs, -⟩ := buildFromVal_vec_eq_ok hb
      exact (encodes_vec_iff hreads hb hvs).2 (hok t val vs hgiven hvs).2

theorem SpecLoader.guestNode_data (hid : n.atomId = some id) {t : DataType}
    (ht : l.dataTypes[id]? = some t) : (l.guestNode n).data = some t.guestType := by
  show (n.atomId.bind fun id => l.guestTypes[id]?) = _
  rw [hid, bind_some, l.guestTypes_eq, getElem?_map, ht, map_some]

theorem BuilderCall.Gives.holds (h : call.Gives l id n bytes) (hok : call.VecOk l) :
    ∃ d, (l.guestNode n).dataOf bytes = some d ∧ d.Holds (call.dataGiven l) := by
  obtain ⟨hid, hgiven, rfl⟩ | ⟨did, t, val, hid, ht, hgiven, hb⟩ := h.cases
  · refine ⟨.none, ?_, by rw [hgiven]; trivial⟩
    rw [GuestNode.dataOf, show (l.guestNode n).data = none by
      show (n.atomId.bind fun id => l.guestTypes[id]?) = _
      rw [hid, bind_none]]
  · rw [GuestNode.dataOf, guestNode_data hid ht, hgiven]
    cases t with
    | fixed t =>
      refine ⟨.fixed bytes, rfl, ?_⟩
      have hval := (t.buildFromVal_eq_ok hb).2 []
      rwa [append_nil] at hval
    | vec t =>
      obtain ⟨vs, body, hvs, -, rfl, hbody⟩ := buildFromVal_vec_eq_ok hb
      obtain ⟨hne, hsize⟩ := hok t val vs hgiven hvs
      obtain ⟨hlen, hval⟩ := buildElems_eq_ok hbody
      have hvals := hval []
      rw [append_nil] at hvals
      have hcount : (toLe 2 vs.length ++ body).length - 2 = vs.length * t.size := by
        rw [length_append, length_toLe, hlen, Nat.add_sub_cancel_left]
      refine ⟨.vec vs.length body, ?_, vs, hvs, rfl, hvals⟩
      simp only [DataType.guestType, GuestType.dataOf, if_neg hne, hcount,
        Nat.mul_div_cancel _ (Nat.pos_of_ne_zero hne)]
      rw [drop_left' (length_toLe _ _)]

theorem BuilderCall.Gives.size_ne_zero (h : call.Gives l id n bytes)
    (hgiven : call.dataGiven l = some (.vec t, val)) {d : GuestData}
    (hd : (l.guestNode n).dataOf bytes = some d) : t.size ≠ 0 := by
  intro hzero
  obtain ⟨-, hnone, -⟩ | ⟨did, t', val', hid, ht, hgiven', -⟩ := h.cases
  · rw [hnone] at hgiven
    cases hgiven
  · obtain ⟨rfl, -⟩ := Prod.mk.inj (some.inj (hgiven'.symm.trans hgiven))
    rw [GuestNode.dataOf, guestNode_data hid ht] at hd
    simp only [DataType.guestType, GuestType.dataOf, if_pos hzero] at hd
    cases hd

end

/-! ## All calls -/

section

variable {l : SpecLoader} {spec : GraphSpec} {calls : List BuilderCall} {nodes : List GraphNode}

def BuilderCall.Makes (l : SpecLoader) (call : BuilderCall) (node : GraphNode) : Prop :=
  ∃ n bytes operands, call.Gives l node.id.toNat n bytes ∧ node.ops = node.id :: operands ∧
    operands.length = n.inputs.length + n.borrows.length + n.outputs.length ∧ node.data = bytes

variable {call : BuilderCall} {node : GraphNode}

theorem BuilderCall.Makes.readAs (h : call.Makes l node) : call.ReadAs l node := by
  obtain ⟨n, bytes, operands, hgives, -, -, hdata⟩ := h
  exact ⟨_, n, bytes, hgives, rfl, hdata⟩

theorem buildNodes_eq_ok {b b' : Builder} (h : b.buildNodes l calls = .ok b')
    (hops : ∀ x ∈ b'.ops, x < 256 ^ 2) :
    ∃ nodes, List.Forall₂ (BuilderCall.Makes l) calls nodes ∧
      b'.ops = b.ops ++ (opsOf nodes).map UInt16.toNat ∧ b'.data = b.data ++ dataOf nodes := by
  induction calls generalizing b with
  | nil =>
    obtain rfl := Except.ok.inj h
    exact ⟨[], .nil, (append_nil _).symm, (append_nil _).symm⟩
  | cons call calls ih =>
    obtain ⟨b1, hb1, h⟩ := except_bind_eq_ok.1 h
    obtain ⟨nodes, hmakes, hops', hdata'⟩ := ih h
    obtain ⟨id, n, bytes, operands, hgives, hops1, hlen, hdata1⟩ := buildNode_eq_ok hb1
    have hmap : ((id :: operands).map UInt16.ofNat).map UInt16.toNat = id :: operands := by
      apply RefGraph.map_toNat_ofNat
      intro x hx
      apply hops
      rw [hops', hops1]
      exact mem_append_left _ (mem_append_right _ hx)
    refine ⟨⟨UInt16.ofNat id, 0, (id :: operands).map UInt16.ofNat, bytes⟩ :: nodes,
      .cons ⟨n, bytes, operands.map UInt16.ofNat, ?_, rfl, ?_, rfl⟩ hmakes, ?_, ?_⟩
    · rw [(cons.inj hmap).1]
      exact hgives
    · rw [length_map, hlen]
    · rw [hops', hops1, opsOf_cons, map_append, hmap, append_assoc]
    · rw [hdata', hdata1, dataOf_cons, append_assoc]

theorem Compiled.loads (h : Compiled l spec) {id : ℕ} {n : NodeLoader}
    (hn : l.nodes[id]? = some n) : ∃ nType, spec.nodeSpecs[id]? = some nType ∧ n.Loads nType := by
  obtain ⟨hlt, rfl⟩ := List.getElem?_eq_some_iff.1 hn
  have hlt' : id < spec.nodeSpecs.length := h.nodes.length_eq ▸ hlt
  exact ⟨spec.nodeSpecs[id], List.getElem?_eq_getElem hlt', h.nodes.get hlt hlt'⟩

theorem BuilderCall.Makes.isNode (hc : Compiled l spec) (h : call.Makes l node) (hok : call.VecOk l) :
    node.IsNode spec := by
  obtain ⟨n, bytes, operands, hgives, hops, hlen, hdata⟩ := h
  obtain ⟨nType, hn, hloads⟩ := hc.loads (nameToNode_eq_ok hgives.node)
  refine ⟨nType, operands, hn, hops, ?_, ?_⟩
  · rw [hlen, NodeSpec.size, hloads.inputs, hloads.borrows, hloads.outputs]
  · rw [hdata]
    exact hgives.encodes hc hloads hok

def SpecLoader.dataFor (l : SpecLoader) (node : GraphNode) : Option GuestData :=
  l.guestNodes[node.id.toNat]?.bind fun n => n.dataOf node.data

theorem BuilderCall.Gives.dataFor {n : NodeLoader} {bytes : List UInt8}
    (h : call.Gives l node.id.toNat n bytes) (hdata : node.data = bytes) :
    l.dataFor node = (l.guestNode n).dataOf bytes := by
  have hn := Builder.nameToNode_eq_ok h.node
  rw [SpecLoader.dataFor, SpecLoader.guestNodes, List.getElem?_map, hn, hdata]
  rfl

theorem callFor_eq (node : GraphNode) (i j : ℕ) :
    (l.callFor node i j).map (fun r => r.2.data) = l.dataFor node := by
  rw [callFor, dataFor]
  cases l.guestNodes[node.id.toNat]? with
  | none => rfl
  | some n => cases hd : n.dataOf node.data <;> simp [hd]

variable {ops data : ℕ} {s : GuestState}

theorem readAll_node (hc : Compiled l spec) (hnode : node.IsNode spec)
    (hat : Ahead ops data s node.ops node.data) (fuel : ℕ) :
    readAll l.guestNodes ops data (fuel + 1) s =
      match l.dataFor node with
      | none => .error .divideByZero s
      | some d =>
        match readAll l.guestNodes ops data fuel (s.move node.ops.length node.data.length) with
        | .ok ds s' => .ok (d :: ds) s'
        | .error e s' => .error e s' := by
  have hlt : s.vm.opsI < s.opsLen := by
    have := hat.ops_le
    have := hnode.ops_pos
    omega
  have hword : s.opsLen < 2 ^ 64 := wordAt_lt s.mem 8 s.vm.opsLen
  have hle := hat.ops_le
  rw [readAll, get_bind_run, if_pos hlt, ← callFor_eq node s.vm.opsI s.vm.dataI]
  have hfetch := fetch_node hc hnode hat
  cases hcall : l.callFor node s.vm.opsI s.vm.dataI with
  | none =>
    rw [hcall] at hfetch
    simp [bind_run, hfetch]
  | some r =>
    obtain ⟨n, call⟩ := r
    rw [hcall] at hfetch
    obtain ⟨n', hn', hd⟩ := bind_eq_some_iff.1 hcall
    obtain ⟨d, -, hr⟩ := map_eq_some_iff.1 hd
    obtain ⟨rfl, -⟩ := Prod.mk.inj hr
    have hmod : (s.vm.opsI + n'.size) % 2 ^ 64 = s.vm.opsI + node.ops.length := by
      rw [(hc.size_eq hnode hn').1, Nat.mod_eq_of_lt (by omega)]
    have hadvance : advance n' (s.skipData node.data.length) =
        .ok n'.interactive (s.move node.ops.length node.data.length) := by
      simp only [advance, modify_bind_run, GuestState.skipData, hmod]
      rfl
    rw [bind_run_ok hfetch]
    simp only [map_some]
    rw [bind_run_ok hadvance]
    simp only [bind_run]
    cases readAll l.guestNodes ops data fuel (s.move node.ops.length node.data.length) <;> rfl

theorem readAll_nodes (hc : Compiled l spec) (hnodes : ∀ node ∈ nodes, node.IsNode spec)
    {ys : List UInt8} (hat : Ahead ops data s (opsOf nodes) (dataOf nodes ++ ys))
    (hend : s.opsLen = s.vm.opsI + (opsOf nodes).length) {fuel : ℕ} (hfuel : nodes.length < fuel) :
    (∀ ds, nodes.mapM l.dataFor = some ds →
        ∃ s', readAll l.guestNodes ops data fuel s = .ok ds s') ∧
      (nodes.mapM l.dataFor = none →
        ∃ s', readAll l.guestNodes ops data fuel s = .error .divideByZero s') := by
  induction nodes generalizing s fuel with
  | nil =>
    obtain ⟨fuel, rfl⟩ : ∃ f, fuel = f + 1 := ⟨fuel - 1, by omega⟩
    have hdone : ¬s.vm.opsI < s.opsLen := by
      rw [hend]
      simp
    refine ⟨?_, ?_⟩
    · rintro ds ⟨⟩
      refine ⟨s, ?_⟩
      rw [readAll, get_bind_run, if_neg hdone]
      rfl
    · rintro ⟨⟩
  | cons node nodes ih =>
    obtain ⟨fuel, rfl⟩ : ∃ f, fuel = f + 1 := ⟨fuel - 1, by omega⟩
    have hnode := hnodes node mem_cons_self
    rw [opsOf_cons, dataOf_cons, append_assoc] at hat
    rw [opsOf_cons, length_append] at hend
    obtain ⟨hat1, hat2⟩ := hat.of_append
    have hat' : Ahead ops data (s.move node.ops.length node.data.length) (opsOf nodes)
        (dataOf nodes ++ ys) := by
      have := hat2 []
      rwa [GuestState.called, append_nil] at this
    have hend' : (s.move node.ops.length node.data.length).opsLen =
        (s.move node.ops.length node.data.length).vm.opsI + (opsOf nodes).length := by
      show s.opsLen = s.vm.opsI + node.ops.length + _
      omega
    obtain ⟨hsome, hnone⟩ := ih (fun m hm => hnodes m (mem_cons_of_mem _ hm)) hat' hend'
      (Nat.lt_of_succ_lt_succ hfuel)
    rw [readAll_node hc hnode hat1, mapM_cons]
    cases hd : l.dataFor node with
    | none =>
      refine ⟨?_, fun _ => ⟨s, rfl⟩⟩
      rintro ds ⟨⟩
    | some d =>
      cases hm : nodes.mapM l.dataFor with
      | none =>
        obtain ⟨s', hs'⟩ := hnone hm
        refine ⟨?_, fun _ => ⟨s', by simp only [hs']⟩⟩
        rintro ds ⟨⟩
      | some rest =>
        obtain ⟨s', hs'⟩ := hsome rest hm
        refine ⟨?_, ?_⟩
        · rintro ds ⟨⟩
          exact ⟨s', by simp [hs']⟩
        · rintro ⟨⟩

theorem holds_of_makes (hmakes : List.Forall₂ (BuilderCall.Makes l) calls nodes)
    (hok : ∀ call ∈ calls, call.VecOk l) :
    ∃ ds, nodes.mapM l.dataFor = some ds ∧
      List.Forall₂ (fun call d => GuestData.Holds d (call.dataGiven l)) calls ds := by
  induction hmakes with
  | nil => exact ⟨[], rfl, .nil⟩
  | cons hmake _ ih =>
    obtain ⟨n, bytes, operands, hgives, -, -, hdata⟩ := hmake
    obtain ⟨d, hd, hholds⟩ := hgives.holds (hok _ mem_cons_self)
    obtain ⟨ds, hds, hall⟩ := ih fun c hc => hok c (mem_cons_of_mem _ hc)
    refine ⟨d :: ds, ?_, .cons hholds hall⟩
    rw [mapM_cons, hgives.dataFor hdata, hd, hds]
    rfl

theorem forall₂_place {R : BuilderCall → GraphNode → Prop} (i : ℕ)
    (hR : ∀ call node i, R call node → R call { node with opI := i })
    (h : List.Forall₂ R calls nodes) : List.Forall₂ R calls (place i nodes) := by
  induction h generalizing i with
  | nil => exact .nil
  | cons hhead _ ih => exact .cons (hR _ _ i hhead) (ih _)

theorem loaded_fileOf {checksum : ℕ} {g : VecGraph}
    (hwords : ∀ w ∈ Builder.headerWords checksum g.ops.length g.data.length, w < 256 ^ 8) :
    Loaded headerLen (headerLen + 2 * g.ops.length) (GuestState.ready
      (memOf (fileOf checksum g.ops g.data)) (headerLen + 2 * g.ops.length)) g := by
  have hstored := stored_memOf (fileOf checksum g.ops g.data)
  simp only [fileOf, headerWords, arrayOf_cons, arrayOf_nil, append_nil,
    append_assoc, stored_append, length_toLe, length_arrayOf, length_map] at hstored
  obtain ⟨-, hopsLen, hdataLen, -, -, hops, hdata⟩ := hstored
  simp only [headerWords, forall_mem_cons] at hwords
  obtain ⟨-, hw2, hw3, -⟩ := hwords
  have hopsLen' := hopsLen.wordAt hw2
  have hdataLen' := hdataLen.wordAt hw3
  refine ⟨⟨hops, hdata, ?_, ?_⟩, rfl, hopsLen', hdataLen'⟩
  · show 0 + g.ops.length ≤ wordAt _ 8 8
    exact le_of_eq ((zero_add _).trans hopsLen'.symm)
  · show 0 + g.data.length ≤ wordAt _ 8 16
    exact le_of_eq ((zero_add _).trans hdataLen'.symm)

theorem vecOk_of_readAs (hc : Compiled l spec) (hnodes : ∀ node ∈ nodes, node.IsNode spec)
    (hreads : List.Forall₂ (BuilderCall.ReadAs l) calls nodes) {ds : List GuestData}
    (hds : nodes.mapM l.dataFor = some ds) : ∀ call ∈ calls, call.VecOk l := by
  induction hreads generalizing ds with
  | nil => intro call hcall; cases hcall
  | @cons call node calls nodes hread _ ih =>
    rw [mapM_cons] at hds
    obtain ⟨d, hd, hds⟩ := bind_eq_some_iff.1 hds
    obtain ⟨rest, hrest, -⟩ := bind_eq_some_iff.1 hds
    refine forall_mem_cons.2
      ⟨?_, ih (fun m hm => hnodes m (mem_cons_of_mem _ hm)) hrest⟩
    obtain ⟨_, n, bytes, hgives, rfl, hdata⟩ := hread
    obtain ⟨nType, operands, hn, -, -, henc⟩ := hnodes node mem_cons_self
    obtain ⟨nType', hn', hloads⟩ := hc.loads (nameToNode_eq_ok hgives.node)
    obtain rfl := some.inj (hn.symm.trans hn')
    rw [hgives.dataFor hdata] at hd
    intro t val vs hgiven hvs
    refine ⟨hgives.size_ne_zero hgiven hd, ?_⟩
    obtain ⟨-, hnone, -⟩ | ⟨did, t', val', hid, ht, hgiven', hb⟩ := hgives.cases
    · rw [hnone] at hgiven
      cases hgiven
    · obtain ⟨rfl, rfl⟩ := Prod.mk.inj (some.inj (hgiven'.symm.trans hgiven))
      rw [NodeSpec.Encodes, hloads.data, hid, hdata] at henc
      obtain ⟨a, ha, henc⟩ := henc
      obtain ⟨a', ha', hreads⟩ := hc.dataType ht
      obtain rfl := some.inj (ha.symm.trans ha')
      exact (encodes_vec_iff hreads hb hvs).1 henc

/-- **When seeds are read as they were scripted**: vectors are of bytes, or empty. -/
theorem seedDecodes_iff {parse : String → Option VecGenerator}
    (hspec : l.toGraphSpec parse = .ok spec) {b : Builder} {file : List UInt8}
    (hbuild : Builder.new.buildNodes l calls = .ok b)
    (hfile : b.writeToFile l.checksum = .ok file) :
    SeedDecodes l spec calls file ↔ ∀ call ∈ calls, call.VecOk l := by
  have hc := compiled_of_toGraphSpec hspec
  obtain ⟨hwords, hops, rfl⟩ := writeToFile_eq_ok.1 hfile
  obtain ⟨nodes, hmakes, hopsEq, hdataEq⟩ := buildNodes_eq_ok hbuild hops
  have hopsEq : b.ops = (opsOf nodes).map UInt16.toNat := hopsEq
  rw [hopsEq, hdataEq, length_map] at hwords
  rw [hopsEq, hdataEq, length_map]
  have hread := @newFromBinFile_fileOf _ _ (dataOf nodes) _ hc.checksum hwords
  constructor
  · rintro ⟨g, hg, hstop, hreads, hguest⟩
    obtain rfl := Except.ok.inj (hread.symm.trans hg)
    obtain ⟨ds, s', hall, -⟩ := hguest _ _ _ (loaded_fileOf hwords)
    -- the nodes of the iterator lie ahead of the guest, so its readers go over them
    obtain ⟨hopsIter, rest, hdataIter⟩ := nodeIter_whole hstop
    have hnodes : ∀ node ∈ (nodesOf spec (⟨opsOf nodes, dataOf nodes⟩ : VecGraph)).items,
        node.IsNode spec := fun node hnode => isNode_of_mem_nodeIter hnode
    have hloaded := loaded_fileOf (g := ⟨opsOf nodes, dataOf nodes⟩) hwords
    have hat := hloaded.ahead
    have hend := hloaded.opsLen_eq
    have hnumber := length_le_length_opsOf hnodes
    generalize hitems : (nodesOf spec (⟨opsOf nodes, dataOf nodes⟩ : VecGraph)).items = items
      at *
    have hopsIter' : opsOf nodes = opsOf items := by rw [← hitems]; exact hopsIter
    have hdataIter' : dataOf nodes = dataOf items ++ rest := by rw [← hitems]; exact hdataIter
    simp only [hopsIter', hdataIter'] at hat hend hall
    obtain ⟨-, hnone⟩ := readAll_nodes hc hnodes hat (by rw [hend]; exact (zero_add _).symm)
      (Nat.lt_succ_of_le hnumber)
    cases hds : items.mapM l.dataFor with
    | some ds => exact vecOk_of_readAs hc hnodes hreads hds
    | none =>
      obtain ⟨s'', herr⟩ := hnone hds
      rw [herr] at hall
      cases hall
  · intro hok
    have hnodes : ∀ node ∈ nodes, node.IsNode spec := by
      intro node hnode
      obtain ⟨call, hcall, hmake⟩ := exists_of_forall₂ hmakes hnode
      exact hmake.isNode hc (hok call hcall)
    have hiter : nodesOf spec (⟨opsOf nodes, dataOf nodes⟩ : VecGraph) = .ofList (place 0 nodes) :=
      nodeIter_chunks hnodes
    obtain ⟨ds, hds, hholds⟩ := holds_of_makes hmakes hok
    refine ⟨⟨opsOf nodes, dataOf nodes⟩, hread, by rw [hiter]; rfl, ?_, ?_⟩
    · rw [hiter]
      exact forall₂_place 0 (fun _ _ _ h => h) (hmakes.imp fun _ _ h => h.readAs)
    · intro ops data s hs
      have hat : Ahead ops data s (opsOf nodes) (dataOf nodes ++ []) := by
        rw [append_nil]
        exact hs.ahead
      obtain ⟨s', hs'⟩ := (readAll_nodes hc hnodes hat (by rw [hs.opsLen_eq, hs.opsI_eq,
        zero_add]) (Nat.lt_succ_of_le (length_le_length_opsOf hnodes))).1 ds hds
      exact ⟨ds, s', hs', hholds⟩

end

def openSendCalls : List BuilderCall :=
  [⟨"open", []⟩, ⟨"send", [.value 0, .bytes [7, 8]]⟩]

theorem seedDecodes_openSend :
    ∃ b file, Builder.new.buildNodes connectionLoader openSendCalls = .ok b ∧
      b.writeToFile connectionLoader.checksum = .ok file ∧
        SeedDecodes connectionLoader connectionSpec openSendCalls file := by
  have hfile : ∀ b, new.buildNodes connectionLoader openSendCalls = .ok b →
      b.writeToFile connectionLoader.checksum =
        .ok (fileOf 0 [0, 0, 1, 0] [2, 0, 7, 8]) := by
    intro b hb
    obtain rfl := Except.ok.inj hb
    exact writeToFile_eq_ok.2 ⟨by decide, by decide, rfl⟩
  refine ⟨_, _, rfl, hfile _ rfl,
    (seedDecodes_iff toGraphSpec_connectionLoader rfl (hfile _ rfl)).2 ?_⟩
  intro call hcall t val vs hgiven hvs
  rcases mem_cons.1 hcall with rfl | hcall
  · cases hgiven
  · obtain rfl := mem_singleton.1 hcall
    have ht : FixedType.int 1 = t := DataType.vec.inj (Prod.mk.inj (some.inj hgiven)).1
    subst ht
    exact ⟨by decide, .inl (by decide)⟩

def wordsCalls : List BuilderCall := [⟨"words", [.list [.int 8]]⟩]

/-- **One two-byte integer is written with a header of one.** -/
theorem not_seedDecodes_words :
    wordsLoader.toGraphSpec (fun _ => none) = .ok wordsSpec ∧
      ∃ b file, Builder.new.buildNodes wordsLoader wordsCalls = .ok b ∧
        b.writeToFile wordsLoader.checksum = .ok file ∧ b.data = [1, 0, 8, 0] ∧
          (nodeIter wordsSpec [0] b.data).items = [⟨0, 0, [0], [1, 0, 8]⟩] ∧
            ¬SeedDecodes wordsLoader wordsSpec wordsCalls file := by
  refine ⟨rfl, _, fileOf 0 [0] [1, 0, 8, 0], rfl,
    writeToFile_eq_ok.2 ⟨by decide, by decide, rfl⟩, rfl, by decide +kernel, ?_⟩
  rintro ⟨g, hg, -, hreads, -⟩
  have hgraph : g = ⟨[0], [1, 0, 8, 0]⟩ := (Except.ok.inj hg).symm
  have hitems : (nodesOf wordsSpec g).items = [⟨0, 0, [0], [1, 0, 8]⟩] := by
    rw [hgraph]
    decide +kernel
  rw [hitems] at hreads
  cases hreads with
  | cons hread _ =>
    obtain ⟨id, n, bytes, hgives, -, rfl⟩ := hread
    have hnode := Prod.mk.inj (Except.ok.inj hgives.node)
    have hpacked := hgives.packed
    rw [← hnode.2] at hpacked
    cases Except.ok.inj hpacked

end FuzzSocketCan
