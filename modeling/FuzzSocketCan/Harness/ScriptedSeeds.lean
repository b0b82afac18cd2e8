import FuzzSocketCan.Harness.CallVmCan
import FuzzSocketCan.Packer.SeedFile
import FuzzSocketCan.StructuredFuzzer.CopyEdges

/-! # From the script to the target

A script of packets passes through every part: the builder packs it into a file, the fuzzer loads
the file and copies the graph into the payload, the interpreter in the guest reads the payload, and
the emulated socket hands out the data.

* **`scriptedPackets_delivered`** — it is the data of the script. -/

namespace FuzzSocketCan

open Lib List RefGraph

/-- A line of a script for `nyx_net_spec.py`. -/
def packetRaw (p : List UInt8) : BuilderCall := ⟨"packet_raw", [.bytes p]⟩

def packetNode (i : ℕ) (p : List UInt8) : GraphNode := ⟨0, i, [0], toLe 2 p.length ++ p⟩

def packetGraph (packets : List (List UInt8)) : VecGraph :=
  ⟨opsOf (packets.map (packetNode 0)), dataOf (packets.map (packetNode 0))⟩

variable {checksum : ℕ} {p : List UInt8} {packets : List (List UInt8)}

/-! ## The builder -/

theorem buildElems_bytes (p : List UInt8) :
    buildElems (.int 1) (p.map fun b => .int b.toNat) = .ok p := by
  induction p with
  | nil => rfl
  | cons b p ih =>
    have hlt : 0 ≤ (b.toNat : ℤ) ∧ (b.toNat : ℤ) < 256 ^ 1 := by
      have := b.toNat_lt
      omega
    have hb : (FixedType.int 1).buildFromVal (.int b.toNat) = .ok [b] := by
      refine except_bind_eq_ok.2 ⟨b.toNat, rfl, ?_⟩
      rw [if_pos (.inl rfl), structPack, if_pos hlt]
      simp [toLe]
    exact except_bind_eq_ok.2 ⟨[b], hb, except_bind_eq_ok.2 ⟨p, ih, rfl⟩⟩

theorem buildFromVal_bytes (hp : p.length < 256 ^ 2) :
    (DataType.vec (.int 1)).buildFromVal (.bytes p) = .ok (packetNode 0 p).data := by
  have hheader : structPack 2 (p.map fun b => PyVal.int b.toNat).length =
      .ok (toLe 2 p.length) := by
    rw [length_map, structPack, if_pos (by omega), Int.toNat_natCast]
  exact except_bind_eq_ok.2 ⟨_, rfl, except_bind_eq_ok.2 ⟨_, hheader,
    except_bind_eq_ok.2 ⟨_, buildElems_bytes p, rfl⟩⟩⟩

theorem buildNode_packetRaw (hp : p.length < 256 ^ 2) (b : Builder) :
    b.buildNode (canvehicleLoader checksum) (packetRaw p) =
      .ok { b with ops := b.ops ++ [0], data := b.data ++ (packetNode 0 p).data } := by
  have hnode : (canvehicleLoader checksum).nameToNode "packet_raw" =
      .ok (0, ⟨"packet_raw", some 1, [], [], [], true⟩) := rfl
  exact except_bind_eq_ok.2 ⟨_, hnode, except_bind_eq_ok.2 ⟨_, rfl, except_bind_eq_ok.2 ⟨_, rfl,
    except_bind_eq_ok.2 ⟨_, rfl, except_bind_eq_ok.2 ⟨_, buildFromVal_bytes hp, rfl⟩⟩⟩⟩⟩

theorem buildNodes_packetRaw (hp : ∀ p ∈ packets, p.length < 256 ^ 2) (b : Builder) :
    b.buildNodes (canvehicleLoader checksum) (packets.map packetRaw) =
      .ok { b with
        ops := b.ops ++ packets.map fun _ => 0
        data := b.data ++ (packetGraph packets).data } := by
  induction packets generalizing b with
  | nil => simp [Builder.buildNodes, packetGraph]
  | cons p packets ih =>
    obtain ⟨hhead, htail⟩ := forall_mem_cons.1 hp
    refine except_bind_eq_ok.2 ⟨_, buildNode_packetRaw hhead b, (ih htail _).trans ?_⟩
    simp [packetGraph]

theorem ops_packetGraph (packets : List (List UInt8)) :
    (packetGraph packets).ops = packets.map (fun _ => 0) ∧
      (packetGraph packets).data.length = (packets.map fun p => 2 + p.length).sum := by
  unfold packetGraph
  induction packets with
  | nil => exact ⟨rfl, rfl⟩
  | cons p packets ih => simp_all [packetNode, length_toLe, add_assoc]

theorem newFromBinFile_packetRaw (hp : ∀ p ∈ packets, p.length < 256 ^ 2)
    (hmem : GraphStorage.InMemory (packetGraph packets)) (hsum : checksum < 2 ^ 64) :
    ∃ b file, Builder.new.buildNodes (canvehicleLoader checksum) (packets.map packetRaw) = .ok b ∧
      b.writeToFile checksum = .ok file ∧
      VecGraph.newFromBinFile file (canvehicleSpec checksum) = .ok (packetGraph packets) := by
  have hops := (ops_packetGraph packets).1
  have hwords := hmem.headerWords_lt hsum
  refine ⟨_, fileOf checksum (packetGraph packets).ops (packetGraph packets).data,
    buildNodes_packetRaw hp _, Builder.writeToFile_eq_ok.2 ⟨?_, ?_, ?_⟩,
    newFromBinFile_fileOf (compiled_canvehicle checksum).checksum hwords⟩
  · simpa [hops, Builder.new] using hwords
  · simp [Builder.new]
  · simp [fileOf, hops, Builder.new]

/-! ## The payload -/

theorem isPacket_packetNode (hp : p.length < 256 ^ 2) (i : ℕ) :
    (packetNode i p).IsPacket checksum := by
  obtain ⟨lo, hi, hbytes, hword⟩ := toLe_two p.length hp
  have hdata : (packetNode i p).data = lo :: hi :: p := by
    rw [packetNode, hbytes]
    rfl
  exact ⟨⟨_, [], rfl, rfl, rfl, _, rfl, lo, hi, p, hdata, hword.symm⟩, rfl⟩

theorem packet_packetNode (p : List UInt8) (i : ℕ) :
    (packetNode i p).packet = p.take packetBufferSize :=
  congrArg (take packetBufferSize) (drop_left' (length_toLe 2 p.length))

theorem place_packetNode (hp : ∀ p ∈ packets, p.length < 256 ^ 2) (i : ℕ) :
    (∀ node ∈ place i (packets.map (packetNode 0)), node.IsPacket checksum ∧ node.ops = [0]) ∧
      (place i (packets.map (packetNode 0))).map GraphNode.packet =
        packets.map (take packetBufferSize) := by
  induction packets generalizing i with
  | nil => exact ⟨fun _ h => absurd h not_mem_nil, rfl⟩
  | cons p packets ih =>
    obtain ⟨hhead, htail⟩ := forall_mem_cons.1 hp
    obtain ⟨hall, hmap⟩ := ih htail (i + 1)
    exact ⟨forall_mem_cons.2 ⟨⟨isPacket_packetNode hhead i, rfl⟩, hall⟩,
      congrArg₂ cons (packet_packetNode p i) hmap⟩

structure HoldsPackets (len : ℕ) (nodes : List GraphNode) (g : RefGraph) : Prop where
  inPayload : g.InPayload len
  ops : opsAsSlice g = opsOf nodes
  data : dataAsSlice g = dataOf nodes

variable {w : World RefGraph} {len n m : ℕ} {nodes : List GraphNode} {node : GraphNode}

theorem HoldsPackets.appendNode (h : HoldsPackets len nodes w.target.storage) (hid : node.id = 0)
    (hops : node.ops = [0]) (hroom : w.target.storage.HasRoom (n + 1) (m + 1 + node.data.length)) :
    Ends (appendNode (canvehicleSpec checksum) node) w (fun _ w' =>
      HoldsPackets len (nodes ++ [node]) w'.target.storage ∧ w'.target.storage.HasRoom n (m + 1))
      never := by
  obtain ⟨g1, hg1, hops1, hdata1, -, hroom1⟩ := appendOp_of_room 0 hroom
  obtain ⟨g2, hg2, hops2, hdata2, hroom2⟩ := appendData_of_room node.data hroom1
  have hin1 := ((Appends.op 0 hg1).continues h.inPayload).inPayload
  have hin2 := ((Appends.data node.data hg2).continues hin1).inPayload
  have hcan : canAppendNode (canvehicleSpec checksum) node w = true := by
    have havail : w.state.isAvailable (canvehicleSpec checksum) node.id = true := by
      rw [hid]
      rfl
    have := hroom.2
    rw [canAppendNode, havail]
    exact decide_eq_true (by omega)
  have hslice : appendSlice (canvehicleSpec checksum) node.ops w =
      .ok ⟨⟩ { w with target := { w.target with storage := g1 } } := by
    have hrun : appendSlice (canvehicleSpec checksum) [0] w = appendOp 0 w := rfl
    rw [hops, hrun, appendOp_run, emit, hg1]
    rfl
  rw [FuzzSocketCan.appendNode, ends_bind, ends_get, if_pos hcan, ends_bind]
  refine ends_of_ok hslice ?_
  simp only [ends_inTarget, storeData, ends_bind, ends_get, hg2, ends_set]
  exact ⟨⟨hin2, by simp [hops2, hops1, h.ops, hops], by simp [hdata2, hdata1, h.data]⟩, hroom2⟩

theorem holdsPackets_copyAll {orig : VecGraph}
    (horig : nodesOf (canvehicleSpec checksum) orig = .ofList nodes)
    (hnodes : ∀ node ∈ nodes, node.IsPacket checksum ∧ node.ops = [0])
    (hfills : w.target.storage.Fills len)
    (hlarge : LargeEnough w.target.storage nodes.length ((dataOf nodes).length + 1)) :
    Ends (copyAll (canvehicleSpec checksum) orig) w
      (fun _ w' => HoldsPackets len nodes w'.target.storage) never := by
  obtain ⟨g, hg, hroom⟩ := hlarge
  obtain ⟨hin, hops, hdata⟩ := inPayload_of_truncateTo hfills ⟨Nat.zero_le _, Nat.zero_le _⟩ hg
  rw [copyAll, ends_bind]
  refine ends_of_ok (start_none_run hg) ?_
  rw [forIter, horig, ends_bind]
  -- what is in the payload and the nodes still to come are the nodes of the graph
  refine (ends_forEach (I := fun rest w => ∃ done, done ++ rest = nodes ∧
    HoldsPackets len done w.target.storage ∧
      w.target.storage.HasRoom rest.length ((dataOf rest).length + 1))
    ⟨[], rfl, ⟨hin, hops, hdata⟩, hroom⟩ ?_).weaken ?_
  · rintro node rest w ⟨done, rfl, hdone, hroom⟩
    obtain ⟨hnode, hone⟩ := hnodes node (by simp)
    rw [dataOf_cons, length_append, add_assoc, add_comm] at hroom
    exact (hdone.appendNode hnode.2 hone hroom).weaken fun _ w' hw' => ⟨_, by simp, hw'⟩
  · rintro _ w' ⟨done, hdone, hw', -⟩
    rw [append_nil] at hdone
    exact hdone ▸ hw'

/-- The target reads the packets, cut to the size of the buffer, in order and piece by piece, from a
stream and in the frames of a CAN socket. -/
def TargetReads (checksum : ℕ) (packets : List (List UInt8)) (st : StreamState) : Prop :=
  (∀ sizes, ∃ outs st', callVms (canvehicleLoader checksum) sizes st =
      .ok (outs.map (Option.map Prod.snd)) st' ∧
    PacketStream.Delivered (packets.map (take packetBufferSize)) sizes outs) ∧
  ∀ reads, (∀ r ∈ reads, r.1.Readable) → ∃ outs frames st',
    callVmCans (canvehicleLoader checksum) reads st = .ok frames st' ∧
      PacketStream.Delivered (packets.map (take packetBufferSize))
        (reads.map fun r => r.1.mode.maxSize) outs ∧
      frames.map (Option.map frameData) = outs.map (Option.map Prod.snd)

/-- **What is scripted reaches the target**, however it reads. -/
theorem scriptedPackets_delivered (hp : ∀ p ∈ packets, p.length < 256 ^ 2)
    (hsum : checksum < 2 ^ 64) {payload payload' : List UInt8}
    (hnew : newFromSlice payload checksum = .ok (w.target.storage, payload'))
    (hlen : payload.length ≤ payloadSize)
    (hlarge : LargeEnough w.target.storage packets.length
      ((packets.map fun p => 2 + p.length).sum + 1)) :
    ∃ b file g w',
      Builder.new.buildNodes (canvehicleLoader checksum) (packets.map packetRaw) = .ok b ∧
      b.writeToFile checksum = .ok file ∧
      VecGraph.newFromBinFile file (canvehicleSpec checksum) = .ok g ∧
      copyAll (canvehicleSpec checksum) g w = .ok ⟨⟩ w' ∧
      ∀ mem st, Lib.Stored mem 0 (w'.target.storage.payload checksum) →
        st.Fresh mem (headerLen + w'.target.storage.data.length) →
          TargetReads checksum packets st := by
  have hfills := (newFromSlice_eq_ok hnew).1
  obtain ⟨hnodes, hmap⟩ := @place_packetNode checksum _ hp 0
  obtain ⟨hops, hdata⟩ := ops_packetGraph packets
  rw [← hdata] at hlarge
  -- the file
  have hmem : GraphStorage.InMemory (packetGraph packets) := by
    have hsize : payloadSize = 131072 := rfl
    have hwhole := hfills.whole
    have hhalves := hfills.halves
    obtain ⟨hn, hm⟩ := largeEnough_refGraph.1 hlarge
    constructor
    · show 2 * (packetGraph packets).ops.length < 2 ^ 63
      rw [hops, length_map]
      omega
    · show (packetGraph packets).data.length < 2 ^ 63
      omega
  obtain ⟨b, file, hbuild, hwrite, hread⟩ := newFromBinFile_packetRaw hp hmem hsum
  -- the payload
  have horig : nodesOf (canvehicleSpec checksum) (packetGraph packets) = .ofList _ :=
    nodeIter_chunks fun node hnode => by
      obtain ⟨p, hmem, rfl⟩ := mem_map.1 hnode
      exact (isPacket_packetNode (hp p hmem) 0).1
  obtain ⟨_, w', hcopy, hholding⟩ := (holdsPackets_copyAll horig hnodes hfills (by
    rwa [dataOf_place, ← length_map GraphNode.packet, hmap, length_map])).result
  refine ⟨b, file, _, w', hbuild, hwrite, hread, hcopy, fun mem st hmem hst => ?_⟩
  have hview := hholding.inPayload.guestView hlen hsum hmem
  rw [hholding.ops, hholding.data] at hview
  have hstreams := streams_fresh hview (fun node hnode => (hnodes node hnode).1) hst
  rw [hmap] at hstreams
  refine ⟨fun sizes => ?_, fun reads hreads => ?_⟩
  · obtain ⟨st', hcalls, -⟩ := callVms_eq hstreams sizes
    exact ⟨_, st', hcalls, PacketStream.reads_delivered _ sizes⟩
  · obtain ⟨st', hcalls, -⟩ := callVmCans_eq hstreams hreads
    have hdelivered := PacketStream.reads_delivered (packets.map (take packetBufferSize))
      (reads.map fun r => r.1.mode.maxSize)
    exact ⟨_, _, st', hcalls, hdelivered, (framesOf_hold hdelivered.sizes_le).1⟩

theorem scriptedPackets_delivered_twoPackets :
    ∃ b file g w', Builder.new.buildNodes (canvehicleLoader 0) [packetRaw [7, 8, 9], packetRaw []] =
        .ok b ∧ b.writeToFile 0 = .ok file ∧
      VecGraph.newFromBinFile file (canvehicleSpec 0) = .ok g ∧
      copyAll (canvehicleSpec 0) g (World.buffers 4 8 []) = .ok ⟨⟩ w' ∧
      ∀ mem st, Lib.Stored mem 0 (w'.target.storage.payload 0) →
        st.Fresh mem (headerLen + w'.target.storage.data.length) →
          TargetReads 0 [[7, 8, 9], []] st :=
  @scriptedPackets_delivered 0 [[7, 8, 9], []] (World.buffers 4 8 []) (by decide) (by decide) _ _
    newFromSlice_zeros (by decide) (largeEnough_refGraph.2 (by decide +kernel))

end FuzzSocketCan
