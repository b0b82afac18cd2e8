import FuzzSocketCan.Guest.Agreement
import FuzzSocketCan.Lib.PacketStream

/-! # Emulated streams

When its buffer is empty, `call_vm` runs the interpreter up to the next packet, whose handler
copies it into the buffer; then it hands out what the reader asks for.

* **`Streams`** — the harness refines a `PacketStream`: the rest of the buffer is the rest of the
  packet, the nodes ahead are packets to come.
* **`callVm_eq`** — a call is a read of the stream.
* **`callVms_delivers`** — the calls deliver the packets. -/

namespace FuzzSocketCan

open Lib List

/-! ## The specification of the target -/

def canvehicleLoader (checksum : ℕ) : SpecLoader where
  checksum := checksum
  nodes := [⟨"packet_raw", some 1, [], [], [], true⟩,
    ⟨"create_tmp_snapshot", none, [], [], [], false⟩]
  edges := []
  atomics := [.int "u8" 1 [.limits 0x0 0xff 1], .vec "pkt_content" (0, 1 <<< 12) 0 []]

def canvehicleSpec (checksum : ℕ) : GraphSpec :=
  (canvehicleLoader checksum).specOrNew fun _ => none

/-! ## The code -/

def packetBufferSize : ℕ := 1 <<< 14

structure StreamState where
  guest : GuestState
  userLen : ℕ
  dataBuffer : List UInt8
  availableData : ℕ
  nextData : ℕ

abbrev Harness := EStateM GuestExit StreamState

def handlerPacketRaw (st : StreamState) (call : HandlerCall) : StreamState :=
  match call.data with
  | .vec count vals =>
    let count := (if count < st.userLen then count else st.userLen) % 2 ^ 32
    if count ≤ 0 then { st with userLen := 0 }
    else { st with
      dataBuffer := overwrite st.dataBuffer 0 (vals.take count)
      userLen := count }
  | .none | .fixed _ => st

def runInterpreter (l : SpecLoader) : Harness Bool := fun st =>
  match interpreterRun l.guestNodes (st.guest.opsLen + 1) st.guest with
  | .ok b guest =>
    .ok b { (guest.calls.drop st.guest.calls.length).foldl handlerPacketRaw st with guest := guest }
  | .error e guest => .error e { st with guest := guest }

def refill (l : SpecLoader) : Harness Bool := do
  let st ← get
  if st.availableData = 0 then do
    set { st with userLen := packetBufferSize }
    if ← runInterpreter l then do
      modify fun st => { st with availableData := st.userLen, nextData := 0 }
      pure true
    else pure false
  else pure true

def takeData (maxSize : ℕ) : Harness (List UInt8) := do
  let st ← get
  let numCopied := min st.availableData maxSize
  set { st with
    availableData := st.availableData - numCopied
    nextData := st.nextData + numCopied }
  pure ((st.dataBuffer.drop st.nextData).take numCopied)

def callVm (l : SpecLoader) (maxSize : ℕ) : Harness (Option (List UInt8)) := do
  if ← refill l then do
    let data ← takeData maxSize
    pure (some data)
  else pure none

def callVms (l : SpecLoader) : List ℕ → Harness (List (Option (List UInt8)))
  | [] => pure []
  | maxSize :: sizes => do
      let out ← callVm l maxSize
      let outs ← callVms l sizes
      pure (out :: outs)

/-! ## The packets ahead -/

def GraphNode.packet (node : GraphNode) : List UInt8 := (node.data.drop 2).take packetBufferSize

def GraphNode.IsPacket (checksum : ℕ) (node : GraphNode) : Prop :=
  node.IsNode (canvehicleSpec checksum) ∧ node.id = 0

structure PacketsAhead (checksum dataOffset : ℕ) (guest : GuestState) (nodes : List GraphNode) :
    Prop where
  packets : ∀ node ∈ nodes, node.IsPacket checksum
  ops : guest.vm.ops = some headerLen
  data : guest.vm.data = some dataOffset
  ahead : Ahead headerLen dataOffset guest (opsOf nodes) (dataOf nodes)
  opsLen : guest.opsLen = guest.vm.opsI + (opsOf nodes).length

section

variable {checksum dataOffset : ℕ} {guest : GuestState} {node : GraphNode} {nodes : List GraphNode}

theorem compiled_canvehicle (checksum : ℕ) :
    Compiled (canvehicleLoader checksum) (canvehicleSpec checksum) := by
  have hspec : (canvehicleLoader checksum).toGraphSpec (fun _ => none) =
    .ok (canvehicleSpec checksum) := rfl
  exact compiled_of_toGraphSpec hspec

def packetCall (node : GraphNode) (opsI dataI : ℕ) : HandlerCall :=
  ⟨0, opsI, dataI + node.data.length, .vec (node.data.length - 2) (node.data.drop 2), []⟩

theorem callFor_packet (h : node.IsPacket checksum) (i j : ℕ) :
    ∃ n, (canvehicleLoader checksum).callFor node i j = some (n, packetCall node i j) ∧
      n.name = "packet_raw" ∧ n.interactive = true := by
  have hnode : (canvehicleLoader checksum).guestNodes[node.id.toNat]? =
      some ⟨"packet_raw", 1, some (.vec 1), [], true⟩ := by
    rw [h.2]
    rfl
  refine ⟨⟨"packet_raw", 1, some (.vec 1), [], true⟩, ?_, rfl, rfl⟩
  rw [SpecLoader.callFor, hnode, h.2]
  show some _ = _
  rw [Nat.div_one]
  rfl

theorem interpreterRun_packet (h : PacketsAhead checksum dataOffset guest (node :: nodes)) :
    ∃ guest', interpreterRun (canvehicleLoader checksum).guestNodes (guest.opsLen + 1) guest =
        .ok true guest' ∧
      guest'.calls = guest.calls ++ [packetCall node guest.vm.opsI guest.vm.dataI] ∧
        PacketsAhead checksum dataOffset guest' nodes := by
  have hpacket := h.packets node mem_cons_self
  have hat := h.ahead
  have hend := h.opsLen
  rw [opsOf_cons, length_append] at hend
  obtain ⟨hat1, hat2⟩ := hat.of_append
  obtain ⟨n, hcall, hname, hinter⟩ := callFor_packet hpacket guest.vm.opsI guest.vm.dataI
  have hround := interpretNode_node (compiled_canvehicle checksum) hpacket.1 hat1
  have hlt : guest.vm.opsI < guest.opsLen := by
    have := hpacket.1.ops_pos
    omega
  have hsnapshot : ¬n.name = "create_tmp_snapshot" := by
    rw [hname]
    decide
  rw [hcall] at hround
  simp only [if_neg hsnapshot, hinter] at hround
  refine ⟨(guest.move node.ops.length node.data.length).called
    [packetCall node guest.vm.opsI guest.vm.dataI], ?_, rfl,
    ⟨fun m hm => h.packets m (mem_cons_of_mem _ hm), h.ops, h.data, hat2 _, ?_⟩⟩
  · simp only [interpreterRun, get_bind_run, h.ops, h.data, interpreterLoop, if_pos hlt]
    rw [bind_run_ok hround]
    rfl
  · show guest.opsLen = guest.vm.opsI + node.ops.length + _
    omega

theorem interpreterRun_end (h : PacketsAhead checksum dataOffset guest []) :
    interpreterRun (canvehicleLoader checksum).guestNodes (guest.opsLen + 1) guest =
      .ok false guest := by
  have hdone : ¬guest.vm.opsI < guest.opsLen := by
    rw [h.opsLen]
    simp
  simp only [interpreterRun, get_bind_run, h.ops, h.data, interpreterLoop, if_neg hdone]
  rfl

end

/-! ## The harness refines a stream of packets -/

structure Streams (checksum dataOffset : ℕ) (st : StreamState) (s : PacketStream UInt8) :
    Prop where
  rest : ∃ nodes, PacketsAhead checksum dataOffset st.guest nodes ∧
    s.rest = nodes.map GraphNode.packet
  buffer : st.dataBuffer.length = packetBufferSize
  bound : st.nextData + st.availableData ≤ packetBufferSize
  cur : s.cur = (st.dataBuffer.drop st.nextData).take st.availableData

section

variable {checksum dataOffset : ℕ} {st : StreamState} {s : PacketStream UInt8}

theorem Streams.length_cur (h : Streams checksum dataOffset st s) :
    s.cur.length = st.availableData := by
  have hbuffer := h.buffer
  have hbound := h.bound
  rw [h.cur, length_take, length_drop]
  omega

theorem handlerPacketRaw_packet (node : GraphNode) (i j : ℕ)
    (hlen : st.userLen = packetBufferSize) (hbuffer : st.dataBuffer.length = packetBufferSize) :
    (handlerPacketRaw st (packetCall node i j)).userLen = node.packet.length ∧
      (handlerPacketRaw st (packetCall node i j)).dataBuffer.length = packetBufferSize ∧
        (handlerPacketRaw st (packetCall node i j)).dataBuffer.take node.packet.length =
          node.packet := by
  have hsize : packetBufferSize = 16384 := rfl
  have hpacket : node.packet.length =
      if node.data.length - 2 < packetBufferSize then node.data.length - 2
      else packetBufferSize := by
    rw [GraphNode.packet, length_take, length_drop]
    split <;> omega
  have hcount : (if node.data.length - 2 < st.userLen then node.data.length - 2 else st.userLen) %
      2 ^ 32 = node.packet.length := by
    rw [hlen, ← hpacket, Nat.mod_eq_of_lt]
    rw [hpacket]
    split <;> omega
  have htake : (node.data.drop 2).take node.packet.length = node.packet := by
    conv_rhs => rw [GraphNode.packet]
    rw [GraphNode.packet, length_take, take_eq_take_iff]
    omega
  simp only [handlerPacketRaw, packetCall, hcount, htake]
  by_cases hzero : node.packet.length ≤ 0
  · rw [if_pos hzero]
    have hnil : node.packet = [] := length_eq_zero_iff.1 (Nat.le_zero.1 hzero)
    rw [hnil]
    exact ⟨rfl, hbuffer, rfl⟩
  · rw [if_neg hzero]
    have hle : 0 + node.packet.length ≤ st.dataBuffer.length := by
      rw [hbuffer, hpacket]
      split <;> omega
    refine ⟨rfl, (length_overwrite hle).trans hbuffer, ?_⟩
    exact take_left

theorem refill_cases (h : Streams checksum dataOffset st s) :
    (s.cur = [] ∧ s.rest = [] ∧ ∃ st', refill (canvehicleLoader checksum) st = .ok false st' ∧
      Streams checksum dataOffset st' s) ∨
    (s.cur = [] ∧ ∃ p ps st', s.rest = p :: ps ∧
      refill (canvehicleLoader checksum) st = .ok true st' ∧
        Streams checksum dataOffset st' ⟨s.begun + 1, p, ps⟩) ∨
    (s.cur ≠ [] ∧ refill (canvehicleLoader checksum) st = .ok true st) := by
  by_cases havail : st.availableData = 0
  · have hcur : s.cur = [] := by
      apply length_eq_zero_iff.1
      rw [h.length_cur, havail]
    obtain ⟨nodes, hahead, hrest⟩ := h.rest
    have hrefill : ∀ {b : Bool} {st' : StreamState},
        runInterpreter (canvehicleLoader checksum) { st with userLen := packetBufferSize } =
          .ok b st' →
        refill (canvehicleLoader checksum) st =
          if b then .ok true { st' with availableData := st'.userLen, nextData := 0 }
          else .ok false st' := by
      intro b st' hrun
      have hset : (set { st with userLen := packetBufferSize } : Harness PUnit) st =
        .ok ⟨⟩ { st with userLen := packetBufferSize } := rfl
      rw [refill, get_bind_run, if_pos havail, bind_run_ok hset, bind_run_ok hrun]
      cases b <;> rfl
    cases nodes with
    | nil =>
      have hrun : runInterpreter (canvehicleLoader checksum)
          { st with userLen := packetBufferSize } =
            .ok false { st with userLen := packetBufferSize } := by
        simp [runInterpreter, interpreterRun_end hahead]
      exact .inl ⟨hcur, hrest, _, hrefill hrun, ⟨[], hahead, hrest⟩, h.buffer, h.bound, h.cur⟩
    | cons node nodes =>
      obtain ⟨guest', hrun, hcalls, hahead'⟩ := interpreterRun_packet hahead
      -- the handler is called once, for this packet
      generalize hst1 : handlerPacketRaw { st with userLen := packetBufferSize }
        (packetCall node st.guest.vm.opsI st.guest.vm.dataI) = st1
      have huser : ({ st with userLen := packetBufferSize } : StreamState).userLen =
        packetBufferSize := rfl
      obtain ⟨hlen, hbuffer, htake⟩ := hst1 ▸ handlerPacketRaw_packet node st.guest.vm.opsI
        st.guest.vm.dataI huser h.buffer
      have hrun' : runInterpreter (canvehicleLoader checksum)
          { st with userLen := packetBufferSize } = .ok true { st1 with guest := guest' } := by
        simp [runInterpreter, hrun, hcalls, hst1]
      refine .inr (.inl ⟨hcur, node.packet, nodes.map GraphNode.packet, _, hrest, hrefill hrun',
        ⟨nodes, hahead', rfl⟩, hbuffer, ?_, ?_⟩)
      · show 0 + st1.userLen ≤ packetBufferSize
        rw [hlen, zero_add]
        exact length_take_le _ _
      · show node.packet = (st1.dataBuffer.drop 0).take st1.userLen
        rw [hlen, drop_zero, htake]
  · refine .inr (.inr ⟨fun hcur => havail ?_, ?_⟩)
    · rw [← h.length_cur, hcur, length_nil]
    · rw [refill, get_bind_run, if_neg havail]
      rfl

theorem takeData_eq (h : Streams checksum dataOffset st s) (maxSize : ℕ) :
    ∃ st', takeData maxSize st = .ok (s.cur.take maxSize) st' ∧
      Streams checksum dataOffset st' { s with cur := s.cur.drop maxSize } := by
  have hbound := h.bound
  have hbytes : (st.dataBuffer.drop st.nextData).take (min st.availableData maxSize) =
      s.cur.take maxSize := by
    rw [h.cur, take_take, min_comm]
  refine ⟨{ st with
    availableData := st.availableData - min st.availableData maxSize
    nextData := st.nextData + min st.availableData maxSize }, ?_, h.rest, h.buffer, ?_, ?_⟩
  · rw [← hbytes]
    rfl
  · show st.nextData + min st.availableData maxSize +
      (st.availableData - min st.availableData maxSize) ≤ packetBufferSize
    omega
  · show s.cur.drop maxSize = (st.dataBuffer.drop (st.nextData + min st.availableData maxSize)).take
      (st.availableData - min st.availableData maxSize)
    rw [h.cur, drop_take, drop_drop]
    by_cases hle : maxSize ≤ st.availableData
    · rw [min_eq_right hle]
    · have hzero : st.availableData - maxSize = 0 := by omega
      rw [Nat.min_eq_left (by omega), hzero, Nat.sub_self, take_zero, take_zero]

theorem refill_takeData (h : Streams checksum dataOffset st s) (maxSize : ℕ) :
    (s.cur = [] ∧ s.rest = [] ∧ s.read maxSize = (none, s) ∧
      ∃ st', refill (canvehicleLoader checksum) st = .ok false st' ∧
        Streams checksum dataOffset st' s) ∨
    ∃ n data st1 st2, (s.read maxSize).1 = some (n, data) ∧
      refill (canvehicleLoader checksum) st = .ok true st1 ∧
        takeData maxSize st1 = .ok data st2 ∧
          Streams checksum dataOffset st2 (s.read maxSize).2 := by
  obtain ⟨begun, cur, rest⟩ := s
  obtain ⟨hcur, hrest, hrefill⟩ | ⟨hcur, p, ps, st1, hrest, hrefill, hst1⟩ | ⟨hcur, hrefill⟩ :=
    refill_cases h
  · simp only at hcur hrest
    subst hcur hrest
    exact .inl ⟨rfl, rfl, rfl, hrefill⟩
  · simp only at hcur hrest
    subst hcur hrest
    obtain ⟨st2, htake, hst2⟩ := takeData_eq hst1 maxSize
    exact .inr ⟨_, _, st1, st2, rfl, hrefill, htake, hst2⟩
  · simp only at hcur
    obtain ⟨c, cs, rfl⟩ := exists_cons_of_ne_nil hcur
    obtain ⟨st2, htake, hst2⟩ := takeData_eq h maxSize
    exact .inr ⟨_, _, st, st2, rfl, hrefill, htake, hst2⟩

theorem callVm_eq (h : Streams checksum dataOffset st s) (maxSize : ℕ) :
    ∃ st', callVm (canvehicleLoader checksum) maxSize st =
        .ok ((s.read maxSize).1.map Prod.snd) st' ∧
      Streams checksum dataOffset st' (s.read maxSize).2 := by
  obtain ⟨-, -, hread, st1, hrefill, hst1⟩ | ⟨n, data, st1, st2, hread, hrefill, htake, hst2⟩ :=
    refill_takeData h maxSize
  · rw [hread]
    exact ⟨st1, by rw [callVm, bind_run_ok hrefill]; rfl, hst1⟩
  · refine ⟨st2, ?_, hst2⟩
    rw [callVm, bind_run_ok hrefill, hread]
    simp only [if_true]
    rw [bind_run_ok htake]
    rfl

theorem callVms_eq (h : Streams checksum dataOffset st s) (sizes : List ℕ) :
    ∃ st', callVms (canvehicleLoader checksum) sizes st =
        .ok ((PacketStream.reads sizes s).1.map (Option.map Prod.snd)) st' ∧
      Streams checksum dataOffset st' (PacketStream.reads sizes s).2 := by
  induction sizes generalizing st s with
  | nil => exact ⟨st, rfl, h⟩
  | cons maxSize sizes ih =>
    obtain ⟨st1, hcall, hst1⟩ := callVm_eq h maxSize
    obtain ⟨st2, hcalls, hst2⟩ := ih hst1
    refine ⟨st2, ?_, hst2⟩
    rw [callVms, bind_run_ok hcall, bind_run_ok hcalls]
    rfl

structure StreamState.Fresh (mem : Mem) (dataOffset : ℕ) (st : StreamState) : Prop where
  guest : st.guest = GuestState.ready mem dataOffset
  buffer : st.dataBuffer.length = packetBufferSize
  availableData : st.availableData = 0
  nextData : st.nextData = 0

theorem streams_fresh {mem : Mem} {nodes : List GraphNode}
    (hview : GuestView mem checksum dataOffset (opsOf nodes) (dataOf nodes))
    (hnodes : ∀ node ∈ nodes, node.IsPacket checksum) (hst : st.Fresh mem dataOffset) :
    Streams checksum dataOffset st (.start (nodes.map GraphNode.packet)) := by
  refine ⟨⟨nodes, ⟨hnodes, ?_, ?_, ?_, ?_⟩, rfl⟩, hst.buffer, ?_, ?_⟩
  · rw [hst.guest]
    rfl
  · rw [hst.guest]
    rfl
  · rw [hst.guest]
    exact ahead_ready (l := canvehicleLoader checksum) hview
  · rw [hst.guest]
    exact hview.opsLen_eq.trans (zero_add _).symm
  · rw [hst.availableData, hst.nextData]
    exact Nat.zero_le _
  · rw [hst.availableData, take_zero]
    rfl

/-- **Stream emulation delivers the packets**, in order and piece by piece. -/
theorem callVms_delivers {mem : Mem} {nodes : List GraphNode}
    (hview : GuestView mem checksum dataOffset (opsOf nodes) (dataOf nodes))
    (hnodes : ∀ node ∈ nodes, node.IsPacket checksum) (hst : st.Fresh mem dataOffset)
    (sizes : List ℕ) :
    ∃ outs st', callVms (canvehicleLoader checksum) sizes st =
        .ok (outs.map (Option.map Prod.snd)) st' ∧
      PacketStream.Delivered (nodes.map GraphNode.packet) sizes outs ∧
        st'.nextData + st'.availableData ≤ packetBufferSize := by
  obtain ⟨st', hcalls, hst'⟩ := callVms_eq (streams_fresh hview hnodes hst) sizes
  exact ⟨_, st', hcalls, PacketStream.reads_delivered _ sizes, hst'.bound⟩

end

def twoPackets : List GraphNode := [⟨0, 0, [0], [3, 0, 7, 8, 9]⟩, ⟨0, 1, [0], [0, 0]⟩]

theorem twoPackets_isPacket (checksum : ℕ) : ∀ node ∈ twoPackets, node.IsPacket checksum := by
  intro node hnode
  rcases mem_cons.1 hnode with rfl | hnode
  · exact ⟨⟨_, [], rfl, rfl, rfl, _, rfl, 3, 0, [7, 8, 9], rfl, rfl⟩, rfl⟩
  · obtain rfl := mem_singleton.1 hnode
    exact ⟨⟨_, [], rfl, rfl, rfl, _, rfl, 0, 0, [], rfl, rfl⟩, rfl⟩

def twoPacketsMem : Mem :=
  memOf (arrayOf 8 [0, 2, 7, 40, 44] ++ arrayOf 2 [0, 0] ++ [3, 0, 7, 8, 9, 0, 0])

theorem guestView_twoPackets :
    GuestView twoPacketsMem 0 44 (opsOf twoPackets) (dataOf twoPackets) := by
  constructor <;> decide +kernel

def twoPacketsState : StreamState :=
  ⟨GuestState.ready twoPacketsMem 44, 0, List.replicate packetBufferSize 0, 0, 0⟩

theorem fresh_twoPacketsState : twoPacketsState.Fresh twoPacketsMem 44 :=
  ⟨rfl, length_replicate, rfl, rfl⟩

theorem callVms_delivers_twoPackets :
    ∃ outs st', callVms (canvehicleLoader 0) [2, 0, 5, 1, 1] twoPacketsState =
        .ok (outs.map (Option.map Prod.snd)) st' ∧
      PacketStream.Delivered (twoPackets.map GraphNode.packet) [2, 0, 5, 1, 1] outs ∧
        st'.nextData + st'.availableData ≤ packetBufferSize :=
  callVms_delivers guestView_twoPackets (twoPackets_isPacket 0) fresh_twoPacketsState _

end FuzzSocketCan
