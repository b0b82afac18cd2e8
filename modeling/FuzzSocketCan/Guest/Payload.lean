import FuzzSocketCan.Lib.Memory
import FuzzSocketCan.StructuredFuzzer.GraphStorage

/-! # The shared payload

A header of five 64-bit words, the ops and the data.

* **`RefGraph.payload`** — the host's graph is a view of it.
* **`GuestView`** — what the guest finds there. -/

namespace FuzzSocketCan

open Lib List Option

def headerLen : ℕ := 40

def payloadSize : ℕ := 128 <<< 10

variable {mem : Mem}

namespace RefGraph

def payload (checksum : ℕ) (g : RefGraph) : List UInt8 :=
  toLe 8 checksum ++ (toLe 8 g.opsI ++ (toLe 8 g.dataI ++ (toLe 8 headerLen ++
    (toLe 8 (headerLen + g.data.length) ++ (arrayOf 2 (g.ops.map UInt16.toNat) ++ g.data)))))

def newFromSlice (payload : List UInt8) (checksum : ℕ) : Except Panic (RefGraph × List UInt8) :=
  if payload.length < headerLen then .error .subtractWithOverflow
  else
    let dataLen := payload.length - headerLen
    if dataLen % 8 = 0 then
      let buffSize := dataLen / 2
      let payload := overwrite payload 0 (toLe 8 checksum)
      let payload := overwrite payload 24 (toLe 8 headerLen)
      let payload := overwrite payload 32 (toLe 8 (headerLen + buffSize))
      let mem := memOf payload
      if headerLen + buffSize + buffSize = payload.length then
        .ok (⟨(wordsAt mem 2 headerLen (buffSize / 2)).map UInt16.ofNat, wordAt mem 8 8,
          bytesAt mem (headerLen + buffSize) buffSize, wordAt mem 8 16⟩, payload)
      else .error .assertionFailed
    else .error .assertionFailed

structure Fills (len : ℕ) (g : RefGraph) : Prop where
  halves : 2 * g.ops.length = g.data.length
  whole : headerLen + 2 * g.data.length = len

/-- The graph lives in a payload of `len` bytes. -/
structure InPayload (len : ℕ) (g : RefGraph) : Prop extends Fills len g where
  room : g.HasRoom 0 0

theorem Fills.length_payload {len : ℕ} {g : RefGraph} (h : g.Fills len) (checksum : ℕ) :
    (g.payload checksum).length = len := by
  have hhalves := h.halves
  have hwhole := h.whole
  simp only [payload, length_append, length_toLe, length_arrayOf, length_map, headerLen]
    at hwhole ⊢
  omega

/-! ## Making a view -/

variable {l xs : List UInt8} {i : ℕ}

theorem memOf_overwrite_of_outside {j : ℕ} (h : i + xs.length ≤ l.length)
    (hj : j < i ∨ i + xs.length ≤ j) : memOf (overwrite l i xs) j = memOf l j := by
  rw [memOf, memOf, getD_eq_getElem?_getD, getElem?_overwrite_of_outside h hj,
    getD_eq_getElem?_getD]

theorem stored_overwrite (h : i + xs.length ≤ l.length) :
    Stored (memOf (overwrite l i xs)) i xs := by
  have hi : (l.take i).length = i := length_take_of_le (by omega)
  have hmem := stored_memOf (overwrite l i xs)
  rw [overwrite, append_assoc, stored_append, stored_append, ← append_assoc, hi,
    zero_add] at hmem
  exact hmem.2.1

variable {a : ℕ} {bs : List UInt8}

theorem stored_congr {mem' : Mem} (h : ∀ j, a ≤ j → j < a + bs.length → mem j = mem' j) :
    Stored mem a bs ↔ Stored mem' a bs := by
  induction bs generalizing a with
  | nil => exact Iff.rfl
  | cons b bs ih =>
    rw [length_cons] at h
    rw [stored_cons, stored_cons, h a (le_refl a) (by omega), ih fun j hj hj' => h j (by omega)
      (by omega)]

theorem stored_overwrite_of_outside (h : i + xs.length ≤ l.length)
    (ha : a + bs.length ≤ i ∨ i + xs.length ≤ a) :
    Stored (memOf (overwrite l i xs)) a bs ↔ Stored (memOf l) a bs :=
  stored_congr fun j hj hj' => memOf_overwrite_of_outside h (by omega)

theorem eq_of_stored_memOf {cs : List UInt8} (h : Stored (memOf bs) 0 cs)
    (hlen : cs.length = bs.length) : cs = bs := by
  rw [Stored, hlen] at h
  exact h.symm.trans (stored_memOf bs)

theorem map_toNat_ofNat {vs : List ℕ} (h : ∀ v ∈ vs, v < 2 ^ 16) :
    (vs.map UInt16.ofNat).map UInt16.toNat = vs := by
  rw [List.map_map]
  conv_rhs => rw [← List.map_id vs]
  exact List.map_congr_left fun v hv => by
    rw [Function.comp_apply, UInt16.toNat_ofNat', Nat.mod_eq_of_lt (h v hv), id]

theorem forall_mem_wordsAt {w n : ℕ} : ∀ v ∈ wordsAt mem w a n, v < 256 ^ w := by
  induction n generalizing a with
  | zero => intro v hv; cases hv
  | succ n ih =>
    intro v hv
    obtain rfl | hv := mem_cons.1 hv
    · exact wordAt_lt _ _ _
    · exact ih v hv

structure HeaderSet (checksum len : ℕ) (payload : List UInt8) : Prop where
  length_eq : payload.length = len
  checksum : Stored (memOf payload) 0 (toLe 8 checksum)
  graphOffset : Stored (memOf payload) 24 (toLe 8 headerLen)
  dataOffset : Stored (memOf payload) 32 (toLe 8 (headerLen + (len - headerLen) / 2))

theorem headerSet_overwrite {payload : List UInt8} (checksum : ℕ)
    (h : ¬payload.length < headerLen) :
    HeaderSet checksum payload.length (overwrite (overwrite (overwrite payload 0 (toLe 8 checksum))
      24 (toLe 8 headerLen)) 32 (toLe 8 (headerLen + (payload.length - headerLen) / 2))) := by
  have h40 : 40 ≤ payload.length := not_lt.1 h
  have h1 : (overwrite payload 0 (toLe 8 checksum)).length = payload.length :=
    length_overwrite (by rw [length_toLe]; omega)
  have h2 : (overwrite (overwrite payload 0 (toLe 8 checksum)) 24 (toLe 8 headerLen)).length =
      payload.length := by
    rw [length_overwrite (by rw [length_toLe]; omega), h1]
  have hin2 : 24 + (toLe 8 headerLen).length ≤ (overwrite payload 0 (toLe 8 checksum)).length := by
    rw [length_toLe]; omega
  have hin3 : ∀ v, 32 + (toLe 8 v).length ≤
      (overwrite (overwrite payload 0 (toLe 8 checksum)) 24 (toLe 8 headerLen)).length := fun v => by
    rw [length_toLe]; omega
  refine ⟨?_, ?_, ?_, stored_overwrite (hin3 _)⟩
  · rw [length_overwrite (hin3 _), h2]
  · rw [stored_overwrite_of_outside (hin3 _) (by simp), stored_overwrite_of_outside hin2 (by simp)]
    exact stored_overwrite (by rw [length_toLe]; omega)
  · rw [stored_overwrite_of_outside (hin3 _) (by simp)]
    exact stored_overwrite hin2

theorem newFromSlice_eq_ok {payload payload' : List UInt8} {checksum : ℕ} {g : RefGraph}
    (h : newFromSlice payload checksum = .ok (g, payload')) :
    g.Fills payload.length ∧ payload' = g.payload checksum := by
  unfold newFromSlice at h
  split at h
  · cases h
  · next hheader =>
    dsimp only at h
    split at h
    · next hmod =>
      split at h
      · next hwhole =>
        have hset := headerSet_overwrite checksum hheader
        generalize overwrite (overwrite (overwrite payload 0 _) 24 _) 32 _ = bytes at h hwhole hset
        simp only [Except.ok.injEq, Prod.mk.injEq] at h
        obtain ⟨rfl, rfl⟩ := h
        have hfills : Fills payload.length ⟨(wordsAt (memOf bytes) 2 headerLen
            ((payload.length - headerLen) / 2 / 2)).map UInt16.ofNat, wordAt (memOf bytes) 8 8,
            bytesAt (memOf bytes) (headerLen + (payload.length - headerLen) / 2)
              ((payload.length - headerLen) / 2), wordAt (memOf bytes) 8 16⟩ := by
          constructor
          · simp only [length_map, length_wordsAt, length_bytesAt]
            omega
          · simp only [length_bytesAt]
            omega
        refine ⟨hfills, (eq_of_stored_memOf ?_ ?_).symm⟩
        · simp only [RefGraph.payload, length_bytesAt]
          rw [map_toNat_ofNat forall_mem_wordsAt, arrayOf_wordsAt, toLe_wordAt, toLe_wordAt]
          simp only [stored_append, length_toLe, length_bytesAt]
          refine ⟨hset.checksum, stored_bytesAt _ _ _, stored_bytesAt _ _ _, hset.graphOffset,
            hset.dataOffset, stored_bytesAt _ _ _, ?_⟩
          have hhalf : 2 * ((payload.length - headerLen) / 2 / 2) =
            (payload.length - headerLen) / 2 := by omega
          rw [hhalf]
          exact stored_bytesAt _ _ _
        · rw [hfills.length_payload, hset.length_eq]
      · cases h
    · cases h

/-! ## Writing through a view -/

inductive Appends : RefGraph → RefGraph → Prop
  | op {g g' : RefGraph} (x : UInt16) : GraphStorage.appendOp g x = some g' → Appends g g'
  | data {g g' : RefGraph} (d : List UInt8) : GraphStorage.appendData g d = some g' → Appends g g'
  | slice {g g' : RefGraph} {old : List UInt8} (d : List UInt8) :
      GraphStorage.getData g d.length = some (old, g') → Appends g (GraphStorage.writeBack g' d)

structure Continues (len : ℕ) (g g' : RefGraph) : Prop where
  inPayload : g'.InPayload len
  ops : ∃ xs, opsAsSlice g' = opsAsSlice g ++ xs
  data : ∃ ys, dataAsSlice g' = dataAsSlice g ++ ys

variable {len : ℕ} {g g' : RefGraph}

theorem Continues.trans {g'' : RefGraph} (h : Continues len g g') (h' : Continues len g' g'') :
    Continues len g g'' := by
  obtain ⟨xs, hxs⟩ := h.ops
  obtain ⟨ys, hys⟩ := h.data
  obtain ⟨xs', hxs'⟩ := h'.ops
  obtain ⟨ys', hys'⟩ := h'.data
  exact ⟨h'.inPayload, ⟨xs ++ xs', by rw [hxs', hxs, append_assoc]⟩,
    ⟨ys ++ ys', by rw [hys', hys, append_assoc]⟩⟩

theorem Appends.continues (h : Appends g g') (hg : g.InPayload len) : Continues len g g' := by
  have hroom := hg.room
  cases h with
  | op x hx =>
    have hlt : g.opsI < g.ops.length := by
      by_contra hge
      rw [show GraphStorage.appendOp g x = none from if_neg hge] at hx
      cases hx
    obtain ⟨g1, hx1, hops, hdata, -, hroom1⟩ := appendOp_of_room (n := 0) (m := 0) x
      ⟨hlt, hroom.2⟩
    obtain rfl := some.inj (hx1.symm.trans hx)
    obtain rfl := some.inj ((if_pos hlt).symm.trans hx)
    exact ⟨⟨⟨by rw [← hg.halves, length_set], hg.whole⟩, hroom1⟩, ⟨[x], hops⟩,
      ⟨[], by rw [hdata, append_nil]⟩⟩
  | data d hd =>
    obtain ⟨hle, rfl⟩ := appendData_eq_some.1 hd
    obtain ⟨g1, hd1, hops, hdata, hroom1⟩ := appendData_of_room (n := 0) (m := 0) d
      ⟨hroom.1, by omega⟩
    obtain rfl := some.inj (hd1.symm.trans hd)
    refine ⟨⟨⟨?_, ?_⟩, hroom1⟩, ⟨[], by rw [hops, append_nil]⟩, ⟨d, hdata⟩⟩
    · rw [length_overwrite hle]; exact hg.halves
    · rw [length_overwrite hle]; exact hg.whole
  | slice d hd =>
    have hle : g.dataI + d.length ≤ g.data.length := by
      by_contra hgt
      rw [show GraphStorage.getData g d.length = none from if_neg hgt] at hd
      cases hd
    obtain ⟨old', g2, hd2, hold, hops, hdata, hroom2⟩ := getData_of_room (n := 0) (m := 0) d.length
      ⟨hroom.1, by omega⟩
    obtain ⟨-, rfl⟩ := Prod.mk.inj (some.inj (hd2.symm.trans hd))
    obtain ⟨hops', hdata', hroom'⟩ := writeBack_of_room d hroom2 hdata hold.symm
    obtain ⟨-, rfl⟩ := Prod.mk.inj (some.inj ((if_pos hle).symm.trans hd))
    have hlen : (overwrite g.data (g.dataI + d.length - d.length) d).length = g.data.length :=
      length_overwrite (by omega)
    refine ⟨⟨⟨?_, ?_⟩, hroom'⟩, ⟨[], by rw [hops', hops, append_nil]⟩, ⟨d, hdata'⟩⟩
    · exact hg.halves.trans hlen.symm
    · show headerLen + 2 * (overwrite g.data (g.dataI + d.length - d.length) d).length = len
      rw [hlen]; exact hg.whole

theorem continues_of_appends (h : Relation.ReflTransGen Appends g g') (hg : g.InPayload len) :
    Continues len g g' := by
  induction h with
  | refl => exact ⟨hg, ⟨[], (append_nil _).symm⟩, ⟨[], (append_nil _).symm⟩⟩
  | tail _ hstep ih => exact ih.trans (hstep.continues ih.inPayload)

theorem inPayload_of_truncateTo {opsI dataI : ℕ} (hg : g.Fills len)
    (hin : opsI ≤ g.ops.length ∧ dataI ≤ g.data.length)
    (h : GraphStorage.truncateTo g opsI dataI = .ok g') :
    g'.InPayload len ∧ opsAsSlice g' = g.ops.take opsI ∧ dataAsSlice g' = g.data.take dataI := by
  simp only [GraphStorage.truncateTo] at h
  split at h
  · obtain rfl := Except.ok.inj h
    exact ⟨⟨⟨hg.halves, hg.whole⟩, hin⟩, rfl, rfl⟩
  · cases h

end RefGraph

/-! ## The guest's view -/

structure GuestView (mem : Mem) (checksum dataOffset : ℕ) (ops : List UInt16) (data : List UInt8) :
    Prop where
  checksum_eq : wordAt mem 8 0 = checksum
  opsLen_eq : wordAt mem 8 8 = ops.length
  dataLen_eq : wordAt mem 8 16 = data.length
  graphOffset_eq : wordAt mem 8 24 = headerLen
  dataOffset_eq : wordAt mem 8 32 = dataOffset
  stored_ops : Stored mem headerLen (arrayOf 2 (ops.map UInt16.toNat))
  stored_data : Stored mem dataOffset data
  ops_le : headerLen + 2 * ops.length ≤ payloadSize
  data_le : dataOffset + data.length ≤ payloadSize

theorem RefGraph.InPayload.guestView {len checksum : ℕ} {g : RefGraph} (h : g.InPayload len)
    (hlen : len ≤ payloadSize) (hsum : checksum < 2 ^ 64) (hmem : Stored mem 0 (g.payload checksum)) :
    GuestView mem checksum (headerLen + g.data.length) (opsAsSlice g) (dataAsSlice g) := by
  have hhalves := h.halves
  have hwhole := h.whole
  have hroom := h.room
  have hsize : payloadSize = 131072 := rfl
  simp only [RefGraph.payload, stored_append, length_toLe, length_arrayOf, length_map,
    hhalves] at hmem
  obtain ⟨hsum', hopsI, hdataI, hgraph, hoffset, hops, hdata⟩ := hmem
  have hopsLen := RefGraph.length_opsAsSlice hroom
  have hdataLen := RefGraph.length_dataAsSlice hroom
  obtain ⟨hroomOps, hroomData⟩ := hroom
  refine ⟨hsum'.wordAt (by omega), ?_, ?_, hgraph.wordAt (by omega), hoffset.wordAt (by omega), ?_,
    ?_, by omega, by omega⟩
  · rw [hopsLen]; exact hopsI.wordAt (by omega)
  · rw [hdataLen]; exact hdataI.wordAt (by omega)
  · rw [← take_append_drop g.opsI g.ops, map_append, arrayOf_append, stored_append] at hops
    exact hops.1
  · rw [← take_append_drop g.dataI g.data, stored_append] at hdata
    rw [take_append_drop] at hdata
    exact hdata.1

end FuzzSocketCan
