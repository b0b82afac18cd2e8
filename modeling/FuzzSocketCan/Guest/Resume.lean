import FuzzSocketCan.Guest.Agreement
import FuzzSocketCan.StructuredFuzzer.BoundedStorage
import FuzzSocketCan.StructuredFuzzer.Snapshot

/-! # Resuming the guest from a snapshot

The guest interprets a prefix of a graph and is saved in the handler of the snapshot op behind it.
Later the host cuts the payload back to the prefix and writes another tail. The handler moves
`ops_i` back by the snapshot op and the loop adds it again, so the guest goes on where the tail
begins.

* **`runFromStart_saved`** — the state that is saved.
* **`runFromSnapshot_eq_runFromStart`** — the resumed guest ends as one that runs from the start. -/

namespace FuzzSocketCan

open Lib

/-! ## The log of the calls -/

section

variable {nodes : List GuestNode} {ops data : ℕ} {s : GuestState}

theorem interpretNode_calls (nodes : List GuestNode) (ops data : ℕ) (s : GuestState) :
    ∃ calls, (lastState (interpretNode nodes ops data s)).calls = s.calls ++ calls := by
  have hends : Ends (interpretNode nodes ops data) s
      (fun _ s' => ∃ calls, s'.calls = s.calls ++ calls)
      (fun _ s' => ∃ calls, s'.calls = s.calls ++ calls) := by
    rw [interpretNode, ends_bind]
    refine ends_fetch.mono ?_ ?_
    · rintro ⟨n, call⟩ _ ⟨-, -, k, rfl, -⟩
      simp only [handler, advance, ends_bind]
      split
      · exact ⟨[], (List.append_nil _).symm⟩
      · exact ⟨[call], rfl⟩
    · rintro e _ ⟨-, rfl⟩
      exact ⟨[], (List.append_nil _).symm⟩
  unfold Ends at hends
  cases hround : interpretNode nodes ops data s with
  | ok b s' => rw [hround] at hends; exact hends
  | error e s' => rw [hround] at hends; exact hends

theorem interpretNodes_calls (fuel : ℕ) :
    ∃ calls, (lastState (interpretNodes nodes ops data fuel s)).calls = s.calls ++ calls := by
  induction fuel generalizing s with
  | zero => exact ⟨[], (List.append_nil _).symm⟩
  | succ fuel ih =>
    by_cases hlt : s.vm.opsI < s.opsLen
    · obtain ⟨calls, hcalls⟩ := interpretNode_calls nodes ops data s
      rw [interpretNodes_succ hlt]
      cases hround : interpretNode nodes ops data s with
      | error e s' => rw [hround] at hcalls; exact ⟨calls, hcalls⟩
      | ok b s' =>
        rw [hround] at hcalls
        obtain ⟨more, hmore⟩ := ih (s := s')
        refine ⟨calls ++ more, ?_⟩
        rw [← List.append_assoc, ← hcalls]
        exact hmore
    · rw [interpretNodes_done hlt]
      exact ⟨[], (List.append_nil _).symm⟩

end

/-! ## The host writes another tail -/

def Rewrite (snapshot : MutatorSnapshotState) (g g' : RefGraph) : Prop :=
  ∃ g1, GraphStorage.truncateTo g snapshot.skipOps snapshot.skipData = .ok g1 ∧
    Relation.ReflTransGen RefGraph.Appends g1 g'

structure StartsWith (len : ℕ) (pre : List GraphNode) (g : RefGraph) : Prop where
  inPayload : g.InPayload len
  ops : ∃ xs, opsAsSlice g = opsOf pre ++ xs
  data : ∃ ys, dataAsSlice g = dataOf pre ++ ys

section

variable {len : ℕ} {pre : List GraphNode} {g g' : RefGraph} {snapshot : MutatorSnapshotState}

theorem StartsWith.rewrite (h : StartsWith len pre g) (hops : snapshot.skipOps = (opsOf pre).length)
    (hdata : snapshot.skipData = (dataOf pre).length) (hg : Rewrite snapshot g g') :
    StartsWith len pre g' := by
  obtain ⟨g1, hcut, happends⟩ := hg
  obtain ⟨xs, hxs⟩ := h.ops
  obtain ⟨ys, hys⟩ := h.data
  have hroom := h.inPayload.room
  rw [hops, hdata] at hcut
  obtain ⟨g2, hcut2, hops2, hdata2, hroom2⟩ := RefGraph.truncateTo_of_append hroom hxs hys
  obtain rfl := Except.ok.inj (hcut2.symm.trans hcut)
  have hle : (opsOf pre).length ≤ g.ops.length ∧ (dataOf pre).length ≤ g.data.length := by
    have hopsLen := congrArg List.length hxs
    have hdataLen := congrArg List.length hys
    rw [RefGraph.length_opsAsSlice hroom, List.length_append] at hopsLen
    rw [RefGraph.length_dataAsSlice hroom, List.length_append] at hdataLen
    have h1 := hroom.1
    have h2 := hroom.2
    exact ⟨by omega, by omega⟩
  have hin := (RefGraph.inPayload_of_truncateTo h.inPayload.toFills hle hcut).1
  have hcont := RefGraph.continues_of_appends happends hin
  obtain ⟨xs', hxs'⟩ := hcont.ops
  obtain ⟨ys', hys'⟩ := hcont.data
  exact ⟨hcont.inPayload, ⟨xs', by rw [hxs', hops2]⟩, ⟨ys', by rw [hys', hdata2]⟩⟩

theorem StartsWith.rewrites (h : StartsWith len pre g)
    (hops : snapshot.skipOps = (opsOf pre).length) (hdata : snapshot.skipData = (dataOf pre).length)
    (hg : Relation.ReflTransGen (Rewrite snapshot) g g') : StartsWith len pre g' := by
  induction hg with
  | refl => exact h
  | tail _ hstep ih => exact ih.rewrite hops hdata hstep

end

/-! ## Saving the guest -/

section

variable {l : SpecLoader} {spec : GraphSpec} {pre : List GraphNode} {id : NodeTypeID}
  {mem : Mem} {dataOffset : ℕ} {calls : List HandlerCall}

def GuestState.after (mem : Mem) (dataOffset : ℕ) (pre : List GraphNode)
    (calls : List HandlerCall) : GuestState :=
  ((GuestState.ready mem dataOffset).move (opsOf pre).length (dataOf pre).length).called calls

theorem Compiled.snapshotNode (h : Compiled l spec) (hid : spec.snapshotNodeId = some id) :
    ∃ nType nl, spec.getNode id = some nType ∧ nl.Loads nType ∧
      l.guestNodes[id.toNat]? = some (l.guestNode nl) ∧
        (l.guestNode nl).name = "create_tmp_snapshot" ∧ (l.guestNode nl).size = 1 := by
  obtain ⟨nType, hmem, hnid, hname, hsize⟩ := spec.snapshot_ok id hid
  have hn : spec.getNode id = some nType := by rw [← hnid]; exact GraphSpec.getNode_of_mem hmem
  obtain ⟨nl, hnl, hloads⟩ := h.getNode hn
  refine ⟨nType, nl, hn, hloads, hnl, hloads.name.symm.trans hname, ?_⟩
  rw [NodeSpec.size, hloads.inputs, hloads.borrows, hloads.outputs] at hsize
  show nl.inputs.length + nl.borrows.length + nl.outputs.length + 1 = 1
  omega

variable {xs : List UInt16} {ys : List UInt8}

variable {fuel : ℕ}

theorem runFromStart_after (h : Compiled l spec) (hpre : ∀ node ∈ pre, node.IsNode spec)
    (hview : GuestView mem l.checksum dataOffset (opsOf pre ++ xs) (dataOf pre ++ ys))
    (hcalls : l.callsFor pre 0 0 = some calls) (hfuel : (opsOf pre ++ xs).length < fuel) :
    runFromStart l fuel mem =
      interpretNodes l.guestNodes headerLen dataOffset fuel (.after mem dataOffset pre calls) := by
  have hlen := length_le_length_opsOf hpre
  rw [List.length_append] at hfuel
  obtain ⟨k, rfl⟩ : ∃ k, fuel = k + pre.length := ⟨fuel - pre.length, by omega⟩
  rw [runFromStart_eq hview (by rw [List.length_append]; exact hfuel),
    interpretNodes_append h hpre (ahead_ready hview) _ hcalls]
  have hrem : (GuestState.after mem dataOffset pre calls).remaining = xs.length := by
    show wordAt mem 8 8 - (0 + (opsOf pre).length) = xs.length
    rw [hview.opsLen_eq, List.length_append]
    omega
  exact interpretNodes_enough guestNodes_size_pos (by rw [← GuestState.after, hrem]; omega)
    (by rw [← GuestState.after, hrem]; omega)

theorem wordAt_after (calls : List HandlerCall)
    (hview : GuestView mem l.checksum dataOffset (opsOf pre ++ id :: xs) (dataOf pre ++ ys)) :
    wordAt mem 2 (headerLen + 2 * (GuestState.after mem dataOffset pre calls).vm.opsI) =
      id.toNat := by
  have hops := hview.stored_ops
  rw [List.map_append, List.map_cons, arrayOf_append, arrayOf_cons, stored_append, stored_append,
    length_arrayOf, List.length_map] at hops
  have hopsI : (GuestState.after mem dataOffset pre calls).vm.opsI = (opsOf pre).length :=
    zero_add _
  rw [hopsI]
  exact hops.2.1.wordAt id.toNat_lt

theorem interpretNode_snapshot (h : Compiled l spec) (hid : spec.snapshotNodeId = some id)
    (hview : GuestView mem l.checksum dataOffset (opsOf pre ++ [id]) (dataOf pre))
    (calls : List HandlerCall) :
    ∃ e n, interpretNode l.guestNodes headerLen dataOffset (.after mem dataOffset pre calls) =
        .error e (.after mem dataOffset pre calls) ∧ n.size = 1 ∧
          (e.Early ∨ e = .tmpSnapshot n) := by
  obtain ⟨nType, nl, hn, hloads, hnl, hname, hsize⟩ := h.snapshotNode hid
  have hview' : GuestView mem l.checksum dataOffset (opsOf pre ++ id :: []) (dataOf pre ++ []) := by
    rw [List.append_nil]; exact hview
  have hword := wordAt_after calls hview'
  have hdataI : (GuestState.after mem dataOffset pre calls).vm.dataI =
      (GuestState.after mem dataOffset pre calls).dataLen := by
    show 0 + (dataOf pre).length = wordAt mem 8 16
    rw [hview.dataLen_eq, zero_add]
  have hends : Ends (interpretNode l.guestNodes headerLen dataOffset)
      (.after mem dataOffset pre calls) (fun _ _ => False)
      (fun e s' => s' = .after mem dataOffset pre calls ∧
        (e.Early ∨ e = .tmpSnapshot (l.guestNode nl))) := by
    rw [interpretNode, ends_bind]
    refine ends_fetch.mono ?_ ?_
    · rintro ⟨n, call⟩ s' ⟨hfound, -, k, rfl, hk⟩
      have hmem : (GuestState.after mem dataOffset pre calls).mem = mem := rfl
      rw [hmem, hword, hnl] at hfound
      obtain rfl := Option.some.inj hfound
      have hk0 : k = 0 := by omega
      subst hk0
      simp only [handler, if_pos hname, ends_bind, ends_throw]
      exact ⟨rfl, .inr trivial⟩
    · rintro e s' ⟨hearly, rfl⟩
      exact ⟨rfl, .inl hearly⟩
  unfold Ends at hends
  cases hround : interpretNode l.guestNodes headerLen dataOffset
      (.after mem dataOffset pre calls) with
  | ok b s' => rw [hround] at hends; exact hends.elim
  | error e s' =>
    rw [hround] at hends
    obtain ⟨rfl, he⟩ := hends
    exact ⟨e, l.guestNode nl, rfl, hsize, he⟩

theorem saved_eq (h : Compiled l spec) (hid : spec.snapshotNodeId = some id)
    (hpre : ∀ node ∈ pre, node.IsNode spec)
    (hview : GuestView mem l.checksum dataOffset (opsOf pre ++ [id]) (dataOf pre))
    (hfuel : (opsOf pre ++ [id]).length < fuel) {n : GuestNode} {saved : GuestState}
    (hsaved : runFromStart l fuel mem = .error (.tmpSnapshot n) saved)
    (hopsI : saved.vm.opsI = (opsOf pre).length) :
    n.size = 1 ∧ ∃ calls, l.callsFor pre 0 0 = some calls ∧
      saved = .after mem dataOffset pre calls := by
  have hview' : GuestView mem l.checksum dataOffset (opsOf pre ++ [id]) (dataOf pre ++ []) := by
    rw [List.append_nil]; exact hview
  cases hcalls : l.callsFor pre 0 0 with
  | none =>
    -- the guest would have stopped inside of the prefix
    have hlen := length_le_length_opsOf hpre
    rw [List.length_append, List.length_singleton] at hfuel
    obtain ⟨k, rfl⟩ : ∃ k, fuel = k + pre.length := ⟨fuel - pre.length, by omega⟩
    obtain ⟨e, s', hrun, hlt⟩ := interpretNodes_stops h hpre (ahead_ready hview') k hcalls
    rw [runFromStart_eq hview (by rw [List.length_append, List.length_singleton]; omega),
      hrun] at hsaved
    obtain ⟨-, rfl⟩ := EStateM.Result.error.inj hsaved
    have hzero : (GuestState.ready mem dataOffset).vm.opsI = 0 := rfl
    omega
  | some calls =>
    rw [runFromStart_after h hpre hview' hcalls hfuel] at hsaved
    obtain ⟨k, rfl⟩ : ∃ k, fuel = k + 1 := ⟨fuel - 1, by omega⟩
    have hlt : (GuestState.after mem dataOffset pre calls).vm.opsI <
        (GuestState.after mem dataOffset pre calls).opsLen := by
      show 0 + (opsOf pre).length < wordAt mem 8 8
      rw [hview.opsLen_eq, List.length_append, List.length_singleton]
      omega
    obtain ⟨e, n', hround, hsize, he⟩ := interpretNode_snapshot h hid hview calls
    rw [interpretNodes_succ hlt, hround] at hsaved
    obtain ⟨rfl, rfl⟩ := EStateM.Result.error.inj hsaved
    rcases he with (he | he) | he
    · cases he
    · cases he
    · obtain rfl := GuestExit.tmpSnapshot.inj he
      exact ⟨hsize, calls, rfl, rfl⟩

theorem runFromStart_saved (h : Compiled l spec) (hid : spec.snapshotNodeId = some id)
    (hbare : ∀ nType, spec.getNode id = some nType → nType.data = none)
    (hpre : ∀ node ∈ pre, node.IsNode spec)
    (hview : GuestView mem l.checksum dataOffset (opsOf pre ++ [id]) (dataOf pre))
    (hfuel : (opsOf pre ++ [id]).length < fuel) (hcalls : l.callsFor pre 0 0 = some calls) :
    ∃ n, runFromStart l fuel mem = .error (.tmpSnapshot n) (.after mem dataOffset pre calls) := by
  obtain ⟨nType, nl, hn, hloads, hnl, hname, hsize⟩ := h.snapshotNode hid
  have hview' : GuestView mem l.checksum dataOffset (opsOf pre ++ [id]) (dataOf pre ++ []) := by
    rw [List.append_nil]; exact hview
  have hdata := hbare nType hn
  have hnode : GraphNode.IsNode spec ⟨id, 0, [id], []⟩ := by
    refine ⟨nType, [], hn, rfl, ?_, ?_⟩
    · obtain ⟨nType', hmem, hnid, -, hzero⟩ := spec.snapshot_ok id hid
      have hn' : spec.getNode id = some nType' := by
        rw [← hnid]; exact GraphSpec.getNode_of_mem hmem
      obtain rfl := Option.some.inj (hn'.symm.trans hn)
      exact hzero.symm
    · rw [NodeSpec.Encodes, hdata]
  have hat := (ahead_ready hview').of_append.2 calls
  have hround := interpretNode_node h hnode hat
  have hcall : l.callFor ⟨id, 0, [id], []⟩ (GuestState.after mem dataOffset pre calls).vm.opsI
      (GuestState.after mem dataOffset pre calls).vm.dataI = some (l.guestNode nl, ⟨id,
        (GuestState.after mem dataOffset pre calls).vm.opsI,
        (GuestState.after mem dataOffset pre calls).vm.dataI, .none, (l.guestNode nl).args.zip []⟩) := by
    have hnone : (l.guestNode nl).data = none := by
      show nl.atomId.bind _ = none
      rw [← hloads.data, hdata, Option.bind_none]
    simp only [SpecLoader.callFor, hnl, Option.bind_some, GuestNode.dataOf, hnone, Option.map_some]
    rfl
  have hlt : (GuestState.after mem dataOffset pre calls).vm.opsI <
      (GuestState.after mem dataOffset pre calls).opsLen := by
    show 0 + (opsOf pre).length < wordAt mem 8 8
    rw [hview.opsLen_eq, List.length_append, List.length_singleton]
    omega
  obtain ⟨k, rfl⟩ : ∃ k, fuel = k + 1 := ⟨fuel - 1, by omega⟩
  refine ⟨l.guestNode nl, ?_⟩
  rw [runFromStart_after h hpre hview' hcalls hfuel, interpretNodes_succ hlt]
  rw [← GuestState.after, hcall] at hround
  simp only [if_pos hname] at hround
  rw [hround]
  rfl

theorem runFromSnapshot_after (h : Compiled l spec) (hpre : ∀ node ∈ pre, node.IsNode spec)
    (hview : GuestView mem l.checksum dataOffset (opsOf pre ++ xs) (dataOf pre ++ ys))
    (hcalls : l.callsFor pre 0 0 = some calls) (hfuel : (opsOf pre ++ xs).length < fuel)
    {n : GuestNode} (hsize : n.size = 1) (mem0 : Mem) :
    runFromSnapshot l fuel n (.after mem0 dataOffset pre calls) mem = runFromStart l fuel mem := by
  rw [runFromStart_after h hpre hview hcalls hfuel]
  have hsizes := hview.ops_le
  have hpayload : payloadSize = 131072 := rfl
  rw [List.length_append] at hsizes hfuel
  have hback : ((0 + (opsOf pre).length + (2 ^ 64 - n.size)) % 2 ^ 64 + n.size) % 2 ^ 64 =
      0 + (opsOf pre).length := by
    rw [hsize]; omega
  have hrem : (GuestState.after mem dataOffset pre calls).remaining < fuel := by
    show wordAt mem 8 8 - (0 + (opsOf pre).length) < fuel
    rw [hview.opsLen_eq, List.length_append]
    omega
  have hresumed : (do snapshotResumed n; advance n : Guest Bool)
      { (GuestState.after mem0 dataOffset pre calls) with mem := mem } =
        .ok n.interactive (.after mem dataOffset pre calls) := by
    show EStateM.Result.ok n.interactive _ = _
    simp only [GuestState.after, GuestState.move, GuestState.called, GuestState.ready, hback]
  have hops : (GuestState.after mem dataOffset pre calls).vm.ops = some headerLen := rfl
  have hdata : (GuestState.after mem dataOffset pre calls).vm.data = some dataOffset := rfl
  rw [runFromSnapshot, ← bind_assoc, bind_run_ok hresumed]
  cases n.interactive with
  | true => exact runToEnd_eq guestNodes_size_pos hops hdata hrem
  | false =>
    rw [← interpreterLoop_then_runToEnd guestNodes_size_pos hops hdata (le_refl _) hrem
      (le_of_lt hrem) hrem]
    rfl

end

/-- **Resuming from a snapshot is a run from the start**, whatever tails the host writes. -/
theorem runFromSnapshot_eq_runFromStart {l : SpecLoader} {spec : GraphSpec}
    {parse : String → Option VecGenerator} (hspec : l.toGraphSpec parse = .ok spec)
    (hsum : l.checksum < 2 ^ 64) {data : VecGraph} {cutoff : ℕ} {x : Distributions}
    {w w₀ : World RefGraph} {snapshot : MutatorSnapshotState}
    (hroom : StartsWithRoom (w.reseed x)
      ((opsOf ((nodesOf spec data).items.take cutoff)).length + 1))
    (hprepare : prepareSnapshot spec cutoff data (w.reseed x) = .ok snapshot w₀) {len : ℕ}
    (hin : w₀.target.storage.InPayload len) (hlen : len ≤ payloadSize) {mem₀ : Mem}
    (hmem₀ : Stored mem₀ 0 (w₀.target.storage.payload spec.checksum)) {fuel₀ : ℕ}
    (hfuel₀ : w₀.target.storage.opsI < fuel₀) :
    ∃ pre, opsOf pre = w₀.ops.take snapshot.skipOps ∧ dataOf pre = w₀.data.take snapshot.skipData ∧
      (∀ node ∈ pre, node.IsNode spec) ∧
      ((∀ node ∈ pre, ∀ nType, spec.getNode node.id = some nType →
          nType.name ≠ "create_tmp_snapshot" ∧ nType.elementSize spec ≠ some 0) →
        (∀ id ∈ spec.snapshotNodeId, ∀ nType, spec.getNode id = some nType → nType.data = none) →
          ∃ n saved, runFromStart l fuel₀ mem₀ = .error (.tmpSnapshot n) saved ∧
            saved.vm.opsI = snapshot.skipOps) ∧
      ∀ n saved, runFromStart l fuel₀ mem₀ = .error (.tmpSnapshot n) saved →
        saved.vm.opsI = snapshot.skipOps →
          List.Forall₂ (Serves spec) (place 0 pre) saved.calls ∧
          ∀ g, Relation.ReflTransGen (Rewrite snapshot) w₀.target.storage g →
            ∀ mem, Stored mem 0 (g.payload spec.checksum) → ∀ fuel, g.opsI < fuel →
              runFromSnapshot l fuel n saved mem = runFromStart l fuel mem ∧
                ∃ calls, (lastState (runFromStart l fuel mem)).calls = saved.calls ++ calls := by
  have hcompiled := compiled_of_toGraphSpec hspec
  have hstop := stop_of_prepareSnapshot.of_ok hprepare
  obtain ⟨-, pre, id, hpre, hid, hops, hdata⟩ := (ends_prepareSnapshot hstop hroom).of_ok hprepare
  rw [hcompiled.checksum] at hmem₀
  have hview₀ := hin.guestView hlen hsum hmem₀
  have hopsI : w₀.target.storage.opsI = (opsOf pre ++ [id]).length := by
    rw [← hops]; exact (RefGraph.length_opsAsSlice hin.room).symm
  have hops' : opsAsSlice w₀.target.storage = opsOf pre ++ [id] := hops
  have hdata' : dataAsSlice w₀.target.storage = dataOf pre := hdata
  rw [hops', hdata'] at hview₀
  rw [hopsI] at hfuel₀
  have hwhole := hpre.whole
  refine ⟨pre, ?_, ?_, hwhole, fun hgood hbare => ?_, fun n saved hsaved hat => ?_⟩
  · rw [hops, hpre.skipOps, List.take_left]
  · rw [hdata, hpre.skipData, List.take_length]
  · obtain ⟨calls, hcalls⟩ := exists_callsFor hcompiled hwhole
      (fun node hnode nType hn => (hgood node hnode nType hn).1)
      (fun node hnode nType hn => (hgood node hnode nType hn).2) 0 0
    obtain ⟨n, hrun⟩ := runFromStart_saved hcompiled hid (hbare id hid) hwhole hview₀ hfuel₀ hcalls
    exact ⟨n, _, hrun, by rw [hpre.skipOps]; exact zero_add _⟩
  · rw [hpre.skipOps] at hat
    obtain ⟨hsize, calls, hcalls, rfl⟩ := saved_eq hcompiled hid hwhole hview₀ hfuel₀ hsaved hat
    refine ⟨serves_of_callsFor hcompiled hwhole hcalls, fun g hg mem hmem fuel hfuel => ?_⟩
    have hstarts : StartsWith len pre w₀.target.storage :=
      ⟨hin, ⟨[id], hops⟩, ⟨[], by rw [List.append_nil]; exact hdata⟩⟩
    have hstarts' := hstarts.rewrites hpre.skipOps hpre.skipData hg
    obtain ⟨xs, hxs⟩ := hstarts'.ops
    obtain ⟨ys, hys⟩ := hstarts'.data
    -- the halves of the payload are where they were
    have hoffset : headerLen + g.data.length = headerLen + w₀.target.storage.data.length := by
      have h₁ := hin.whole
      have h₂ := hstarts'.inPayload.whole
      omega
    rw [hcompiled.checksum] at hmem
    have hview := hstarts'.inPayload.guestView hlen hsum hmem
    rw [hxs, hys, hoffset] at hview
    have hfuel' : (opsOf pre ++ xs).length < fuel := by
      rw [← hxs, RefGraph.length_opsAsSlice hstarts'.inPayload.room]
      exact hfuel
    refine ⟨runFromSnapshot_after hcompiled hwhole hview hcalls hfuel' hsize _, ?_⟩
    rw [runFromStart_after hcompiled hwhole hview hcalls hfuel']
    exact interpretNodes_calls fuel

def openWorld : World RefGraph := (World.buffers 4 8 []).reseed (.ofList [])

def openPrefix : RefGraph := ⟨[0, 1, 3, 0], 3, [0, 0, 0, 0, 0, 0, 0, 0], 0⟩

def skipsOf {S : Type} : EStateM.Result Panic (World S) MutatorSnapshotState → Option (ℕ × ℕ)
  | .ok snapshot _ => some (snapshot.skipOps, snapshot.skipData)
  | .error _ _ => none

theorem runFromSnapshot_openSend : ∃ snapshot w₀ n saved,
    prepareSnapshot connectionSpec 1 ⟨[0, 7], []⟩ openWorld = .ok snapshot w₀ ∧
      runFromStart connectionLoader 5 (memOf (w₀.target.storage.payload 0)) =
        .error (.tmpSnapshot n) saved ∧ saved.vm.opsI = snapshot.skipOps ∧
      Relation.ReflTransGen (Rewrite snapshot) w₀.target.storage openSendPayload ∧
      runFromSnapshot connectionLoader 5 n saved (memOf (openSendPayload.payload 0)) =
        runFromStart connectionLoader 5 (memOf (openSendPayload.payload 0)) := by
  have hstorage : (lastState (prepareSnapshot connectionSpec 1 ⟨[0, 7], []⟩
      openWorld)).target.storage = openPrefix := by decide +kernel
  have hskips : skipsOf (prepareSnapshot connectionSpec 1 ⟨[0, 7], []⟩ openWorld) = some (2, 0) := by
    decide +kernel
  have hroom : StartsWithRoom openWorld
      ((opsOf ((nodesOf connectionSpec (⟨[0, 7], []⟩ : VecGraph)).items.take 1)).length + 1) := by
    intro w₁ hw₁
    have : (lastState (start .none openWorld)).target.storage = ⟨[0, 0, 0, 0], 0,
      [0, 0, 0, 0, 0, 0, 0, 0], 0⟩ := by decide +kernel
    rw [hw₁] at this
    rw [show w₁.target.storage = _ from this]
    exact ⟨by decide, by decide⟩
  cases hprepare : prepareSnapshot connectionSpec 1 ⟨[0, 7], []⟩ openWorld with
  | error e w₀ => rw [hprepare] at hskips; cases hskips
  | ok snapshot w₀ =>
    rw [hprepare] at hskips hstorage
    have hstorage' : w₀.target.storage = openPrefix := hstorage
    obtain ⟨hops, hdata⟩ := Prod.mk.inj (Option.some.inj hskips)
    have hin : w₀.target.storage.InPayload 56 := by
      rw [hstorage']
      exact ⟨⟨rfl, rfl⟩, by decide, by decide⟩
    obtain ⟨pre, -, -, -, -, hresume⟩ := runFromSnapshot_eq_runFromStart
      toGraphSpec_connectionLoader (by decide) hroom hprepare hin (by decide)
      (stored_memOf _) (show w₀.target.storage.opsI < 5 by rw [hstorage']; decide)
    have hexit : panicOf (runFromStart connectionLoader 5 (memOf (openPrefix.payload 0))) =
        some (.tmpSnapshot ⟨"create_tmp_snapshot", 1, none, [], false⟩) := by decide +kernel
    have hopsI : (lastState (runFromStart connectionLoader 5
        (memOf (openPrefix.payload 0)))).vm.opsI = 2 := by decide +kernel
    rw [← hstorage'] at hexit hopsI
    cases hrun : runFromStart connectionLoader 5 (memOf (w₀.target.storage.payload 0)) with
    | ok _ saved => rw [hrun] at hexit; cases hexit
    | error e saved =>
      rw [hrun] at hexit hopsI
      obtain rfl := Option.some.inj hexit
      have hat : saved.vm.opsI = snapshot.skipOps := Eq.trans hopsI hops.symm
      have hrewrite : Rewrite snapshot w₀.target.storage openSendPayload := by
        refine ⟨⟨[0, 1, 3, 0], 2, [0, 0, 0, 0, 0, 0, 0, 0], 0⟩, ?_, ?_⟩
        · rw [hops, hdata, hstorage']; rfl
        · exact .tail (.tail (.single (.op 1 rfl)) (.op 1 rfl)) (.data [2, 0, 7, 8] rfl)
      have hsame := ((hresume _ saved hrun hat).2 openSendPayload (.single hrewrite) _
        (stored_memOf _) 5 (by decide)).1
      exact ⟨snapshot, w₀, _, saved, rfl, hrun, hat, .single hrewrite, hsame⟩

end FuzzSocketCan
