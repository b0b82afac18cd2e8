import FuzzSocketCan.Harness.CallVm

/-! # Reading lines from an emulated stream

`fgets` asks `call_vm` for one byte after the other (`handle_next_packet_s`). When `call_vm` has
begun an empty packet it returns without a byte, and the byte in the caller's buffer is taken for
one of the stream.

* **`nextPacketLoop_eq`** — what the loop stores.
* **`fgets_storesLines_iff`** — when the lines are stored. -/

namespace FuzzSocketCan

open Lib List Option GraphNode

/-! ## The code -/

/-- The loop of `handle_next_packet_s`. -/
def nextPacketLoop (l : SpecLoader) : ℕ → ℕ → List UInt8 → Harness (Option (List UInt8))
  | 0, i, s => pure (some (s.set i 0))
  | n + 1, i, s => do
      match ← callVm l 1 with
      | none => pure none
      | some data =>
        let s := overwrite s i data
        if s[i]? = some 0x0a then pure (some (s.set (i + 1) 0))
        else nextPacketLoop l n (i + 1) s

/-- The buffer of the caller afterwards. -/
def handleNextPacketS (l : SpecLoader) (s : List UInt8) (size : ℕ) :
    Harness (Option (List UInt8)) :=
  nextPacketLoop l (size - 1) 0 s

def fgetss (l : SpecLoader) : List (ℕ × List UInt8) → Harness (Option (List (List UInt8)))
  | [] => pure (some [])
  | (size, s) :: calls => do
      match ← handleNextPacketS l s size with
      | none => pure none
      | some out =>
        let outs ← fgetss l calls
        pure (outs.map (out :: ·))

/-! ## Lines -/

def nextLine : ℕ → List UInt8 → Option (List UInt8 × List UInt8)
  | 0, bs => some ([], bs)
  | _ + 1, [] => none
  | n + 1, b :: bs =>
    if b = 0x0a then some ([b], bs) else (nextLine n bs).map fun (line, bs) => (b :: line, bs)

def nextLines : List ℕ → List UInt8 → Option (List (List UInt8))
  | [], _ => some []
  | size :: sizes, bs =>
    (nextLine (size - 1) bs).bind fun (line, bs) => (nextLines sizes bs).map (line :: ·)

abbrev Fit (sizes : List ℕ) (bufs : List (List UInt8)) : Prop :=
  List.Forall₂ (fun size buf => size ≤ buf.length) sizes bufs

abbrev Hold (lines outs : List (List UInt8)) : Prop :=
  List.Forall₂ (fun line out => ∃ rest, out = line ++ 0 :: rest) lines outs

/-- **The calls store the lines**, each followed by a zero, whatever the buffers hold. -/
def StoresLines (l : SpecLoader) (st : StreamState) (sizes : List ℕ) (lines : List (List UInt8)) :
    Prop :=
  ∀ bufs, Fit sizes bufs →
    ∃ outs st', fgetss l (sizes.zip bufs) st = .ok (some outs) st' ∧ Hold lines outs

variable {line rest : List UInt8}

theorem nextLine_append {n : ℕ} {bs : List UInt8} (h : nextLine n bs = some (line, rest)) :
    line ++ rest = bs := by
  induction n generalizing bs line with
  | zero =>
    cases h
    rfl
  | succ n ih =>
    cases bs with
    | nil => cases h
    | cons b bs =>
      rw [nextLine] at h
      split at h
      · cases h
        rfl
      · rcases map_eq_some_iff.1 h with ⟨⟨line', rest'⟩, hline, heq⟩
        cases heq
        rw [cons_append, ih hline]

theorem nextLine_length_le {n : ℕ} {bs : List UInt8} (h : nextLine n bs = some (line, rest)) :
    line.length ≤ n := by
  induction n generalizing bs line with
  | zero =>
    cases h
    exact le_refl _
  | succ n ih =>
    cases bs with
    | nil => cases h
    | cons b bs =>
      rw [nextLine] at h
      split at h
      · cases h
        exact Nat.succ_le_succ (Nat.zero_le n)
      · rcases map_eq_some_iff.1 h with ⟨⟨line', rest'⟩, hline, heq⟩
        cases heq
        exact Nat.succ_le_succ (ih hline)

theorem nextLines_flatten {sizes : List ℕ} {bs : List UInt8} {lines : List (List UInt8)}
    (h : nextLines sizes bs = some lines) : lines.flatten <+: bs := by
  induction sizes generalizing bs lines with
  | nil =>
    cases h
    exact nil_prefix
  | cons size sizes ih =>
    rcases bind_eq_some_iff.1 h with ⟨⟨line, rest⟩, hline, h⟩
    rcases map_eq_some_iff.1 h with ⟨lines', hlines, rfl⟩
    rw [flatten_cons, ← nextLine_append hline]
    exact (prefix_append_right_inj line).2 (ih hlines)

/-! ## One call -/

def storedBytes : ℕ → List UInt8 → List (Option UInt8) → Option (List UInt8 × List (Option UInt8))
  | 0, _, us => some ([], us)
  | n + 1, x :: buf, u :: us =>
    if u.getD x = 0x0a then some ([u.getD x], us)
    else (storedBytes n buf us).map fun (bs, us) => (u.getD x :: bs, us)
  | _ + 1, _, _ => none

section

variable {checksum dataOffset : ℕ} {st : StreamState} {s : PacketStream UInt8}
  {n : ℕ} {done buf : List UInt8}

theorem overwrite_one (done buf : List UInt8) (x : UInt8) (u : Option UInt8) :
    overwrite (done ++ x :: buf) done.length u.toList = done ++ u.getD x :: buf := by
  cases u with
  | none => simp [overwrite]
  | some b => simp [overwrite]

theorem set_append_cons (done buf : List UInt8) (x b : UInt8) :
    (done ++ x :: buf).set done.length b = done ++ b :: buf := by
  simp

theorem callVm_one (h : Streams checksum dataOffset st s) :
    ∃ st' s', callVm (canvehicleLoader checksum) 1 st =
        .ok (s.singles.head?.map toList) st' ∧
      Streams checksum dataOffset st' s' ∧ s'.singles = s.singles.tail := by
  rcases callVm_eq h 1 with ⟨st', hcall, hst'⟩
  rcases s.read_one with ⟨hread, hsingles⟩
  rw [hread] at hcall
  exact ⟨st', _, hcall, hst', hsingles⟩

variable {st' : StreamState}

theorem nextPacketLoop_succ {x : UInt8} {u : Option UInt8}
    (h : callVm (canvehicleLoader checksum) 1 st = .ok (some u.toList) st') :
    nextPacketLoop (canvehicleLoader checksum) (n + 1) done.length (done ++ x :: buf) st =
      (if u.getD x = 0x0a then
        pure (some ((done ++ u.getD x :: buf).set (done.length + 1) 0)) else
        nextPacketLoop (canvehicleLoader checksum) n (done.length + 1)
          (done ++ u.getD x :: buf) : Harness _) st' := by
  have hget : (done ++ u.getD x :: buf)[done.length]? = some (u.getD x) := by simp
  rw [nextPacketLoop, bind_run_ok h]
  dsimp only
  rw [overwrite_one, hget]
  simp only [some.injEq]

theorem nextPacketLoop_eq (h : Streams checksum dataOffset st s) (hbuf : n < buf.length) :
    ∃ st' s', nextPacketLoop (canvehicleLoader checksum) n done.length (done ++ buf) st =
        .ok ((storedBytes n buf s.singles).map fun (bs, _) =>
          done ++ (bs ++ 0 :: buf.drop (bs.length + 1))) st' ∧
      Streams checksum dataOffset st' s' ∧
      ∀ bs us, storedBytes n buf s.singles = some (bs, us) → s'.singles = us := by
  induction n generalizing done buf st s with
  | zero =>
    cases buf with
    | nil => cases hbuf
    | cons x buf =>
      refine ⟨st, s, ?_, h, ?_⟩
      · rw [nextPacketLoop, set_append_cons]
        rfl
      · rintro bs us ⟨⟩
        rfl
  | succ n ih =>
    cases buf with
    | nil => cases hbuf
    | cons x buf =>
      rcases callVm_one h with ⟨st1, s1, hcall, hst1, hsingles⟩
      cases hs : s.singles with
      | nil =>
        rw [hs] at hcall
        refine ⟨st1, s1, ?_, hst1, ?_⟩
        · rw [nextPacketLoop, bind_run_ok hcall]
          rfl
        · rintro bs us ⟨⟩
      | cons u us =>
        rw [hs] at hcall hsingles
        rw [nextPacketLoop_succ hcall, storedBytes]
        by_cases hnewline : u.getD x = 0x0a
        · rw [if_pos hnewline, if_pos hnewline]
          refine ⟨st1, s1, ?_, hst1, ?_⟩
          · cases buf with
            | nil => exact absurd hbuf (Nat.not_lt.2 (Nat.le_add_left _ _))
            | cons y buf =>
              have hset := set_append_cons (done ++ [u.getD x]) buf y 0
              rw [length_append, length_singleton, append_assoc,
                append_assoc] at hset
              exact congrArg (fun out => EStateM.Result.ok (some out) st1) hset
          · rintro bs us' ⟨⟩
            exact hsingles
        · rw [if_neg hnewline, if_neg hnewline]
          have hdone : done ++ u.getD x :: buf = (done ++ [u.getD x]) ++ buf := by
            rw [append_assoc, singleton_append]
          have hlength : done.length + 1 = (done ++ [u.getD x]).length := by
            rw [length_append, length_singleton]
          rcases @ih st1 s1 (done ++ [u.getD x]) buf hst1 (Nat.lt_of_succ_lt_succ hbuf) with
            ⟨st', s', hloop, hst', hrest⟩
          rw [hsingles, tail_cons] at hloop hrest
          refine ⟨st', s', ?_, hst', ?_⟩
          · rw [hdone, hlength, hloop, Option.map_map]
            simp only [Function.comp_def, append_assoc, nil_append,
              cons_append, length_cons, drop_succ_cons]
          · intro bs us' h
            rcases map_eq_some_iff.1 h with ⟨⟨bs', us''⟩, hstored, heq⟩
            cases heq
            exact hrest _ _ hstored

theorem storedBytes_of_nextLine {bs : List UInt8} {us : List (Option UInt8)}
    (h : nextLine n bs = some (line, rest)) (hbuf : n ≤ buf.length) :
    storedBytes n buf (line.map some ++ us) = some (line, us) := by
  induction n generalizing bs line buf with
  | zero =>
    cases h
    rfl
  | succ n ih =>
    cases bs with
    | nil => cases h
    | cons b bs =>
      cases buf with
      | nil => cases hbuf
      | cons x buf =>
        rw [nextLine] at h
        split at h
        case isTrue hnewline =>
          cases h
          exact if_pos hnewline
        case isFalse hnewline =>
          rcases map_eq_some_iff.1 h with ⟨⟨line', rest'⟩, hline, heq⟩
          cases heq
          have hstored := ih hline (Nat.le_of_succ_le_succ hbuf)
          rw [map_cons, cons_append, storedBytes, hstored]
          exact if_neg hnewline

theorem storedBytes_of_gap {bs pre out : List UInt8} {us us' : List (Option UInt8)}
    (h : nextLine n bs = some (line, rest)) (hpre : pre <+: line) (hlt : pre.length < line.length)
    (hstored : storedBytes n buf (pre.map some ++ none :: us) = some (out, us')) :
    out[pre.length]? = buf[pre.length]? := by
  induction n generalizing bs line buf pre out with
  | zero =>
    cases h
    cases hlt
  | succ n ih =>
    cases bs with
    | nil => cases h
    | cons b bs =>
      cases buf with
      | nil => cases hstored
      | cons x buf =>
        cases pre with
        | nil =>
          rw [map_nil, nil_append, storedBytes] at hstored
          split at hstored
          · cases hstored
            rfl
          · rcases map_eq_some_iff.1 hstored with ⟨⟨out', us''⟩, -, heq⟩
            cases heq
            rfl
        | cons c pre =>
          rw [nextLine] at h
          split at h
          case isTrue =>
            -- the line ends with its first byte
            cases h
            exact absurd hlt (by simp)
          case isFalse hnewline =>
            rcases map_eq_some_iff.1 h with ⟨⟨line', rest'⟩, hline, heq⟩
            cases heq
            rcases cons_prefix_cons.1 hpre with ⟨rfl, hpre'⟩
            rw [map_cons, cons_append, storedBytes, getD_some,
              if_neg hnewline] at hstored
            rcases map_eq_some_iff.1 hstored with ⟨⟨out', us''⟩, hstored, heq⟩
            cases heq
            rw [length_cons, getElem?_cons_succ, getElem?_cons_succ]
            exact ih hline hpre' (Nat.lt_of_succ_lt_succ hlt) hstored

/-! ## A run of calls -/

theorem handleNextPacketS_eq (h : Streams checksum dataOffset st s) {size : ℕ} (hsize : 1 ≤ size)
    (hbuf : size ≤ buf.length) :
    ∃ st' s', handleNextPacketS (canvehicleLoader checksum) buf size st =
        .ok ((storedBytes (size - 1) buf s.singles).map fun (bs, _) =>
          bs ++ 0 :: buf.drop (bs.length + 1)) st' ∧
      Streams checksum dataOffset st' s' ∧
      ∀ bs us, storedBytes (size - 1) buf s.singles = some (bs, us) → s'.singles = us :=
  @nextPacketLoop_eq _ _ _ _ _ [] _ h (by omega)

variable {sizes : List ℕ} {bs : List UInt8} {lines bufs : List (List UInt8)}
  {us : List (Option UInt8)}

theorem fgetss_of_singles (h : Streams checksum dataOffset st s) (hsizes : ∀ size ∈ sizes, 1 ≤ size)
    (hlines : nextLines sizes bs = some lines) (hs : s.singles = lines.flatten.map some ++ us)
    (hfit : Fit sizes bufs) :
    ∃ outs st', fgetss (canvehicleLoader checksum) (sizes.zip bufs) st = .ok (some outs) st' ∧
      Hold lines outs := by
  induction hfit generalizing st s bs lines with
  | nil =>
    cases hlines
    exact ⟨[], st, rfl, .nil⟩
  | @cons size buf sizes bufs hbuf hfit ih =>
    rw [forall_mem_cons] at hsizes
    rcases bind_eq_some_iff.1 hlines with ⟨⟨line, rest⟩, hline, hlines⟩
    rcases map_eq_some_iff.1 hlines with ⟨lines', hlines', rfl⟩
    rw [flatten_cons, map_append, append_assoc] at hs
    rcases handleNextPacketS_eq h hsizes.1 hbuf with ⟨st1, s1, hcall, hst1, hrest⟩
    have hstored : storedBytes (size - 1) buf s.singles =
        some (line, lines'.flatten.map some ++ us) := by
      rw [hs]
      exact storedBytes_of_nextLine hline (by omega)
    rw [hstored] at hcall
    rcases ih hst1 hsizes.2 hlines' (hrest _ _ hstored) with ⟨outs, st2, hcalls, hhold⟩
    refine ⟨(line ++ 0 :: buf.drop (line.length + 1)) :: outs, st2, ?_, .cons ⟨_, rfl⟩ hhold⟩
    rw [zip_cons_cons, fgetss, bind_run_ok hcall]
    dsimp only [map_some]
    rw [bind_run_ok hcalls]
    rfl

variable {outs : List (List UInt8)}

theorem fgetss_cons_eq_ok {l : SpecLoader} {size : ℕ} {calls : List (ℕ × List UInt8)}
    {result : Option (List UInt8)} {st1 : StreamState}
    (hcall : handleNextPacketS l buf size st = .ok result st1)
    (h : fgetss l ((size, buf) :: calls) st = .ok (some outs) st') :
    ∃ out outs', result = some out ∧ outs = out :: outs' ∧
      fgetss l calls st1 = .ok (some outs') st' := by
  rw [fgetss, bind_run_ok hcall] at h
  cases result with
  | none => cases h
  | some out =>
    dsimp only at h
    rw [bind_run] at h
    cases hcalls : fgetss l calls st1 with
    | error e st2 =>
      rw [hcalls] at h
      cases h
    | ok r st2 =>
      rw [hcalls] at h
      cases r with
      | none => cases h
      | some outs' =>
        cases h
        exact ⟨out, outs', rfl, rfl, rfl⟩

theorem not_hold_of_gap (h : Streams checksum dataOffset st s) (hsizes : ∀ size ∈ sizes, 1 ≤ size)
    (hlines : nextLines sizes bs = some lines) {pre : List UInt8}
    (hs : s.singles = pre.map some ++ none :: us) (hpre : pre <+: lines.flatten)
    (hlt : pre.length < lines.flatten.length) (b : UInt8) (hb : lines.flatten[pre.length]? ≠ some b)
    (hcalls : fgetss (canvehicleLoader checksum)
      (sizes.zip (sizes.map fun size => List.replicate size b)) st = .ok (some outs) st') :
    ¬Hold lines outs := by
  induction sizes generalizing st s bs lines pre outs with
  | nil =>
    cases hlines
    cases hlt
  | cons size sizes ih =>
    rw [forall_mem_cons] at hsizes
    rcases bind_eq_some_iff.1 hlines with ⟨⟨line, rest⟩, hline, hlines⟩
    rcases map_eq_some_iff.1 hlines with ⟨lines', hlines', rfl⟩
    have hbuf : size ≤ (replicate size b).length := by rw [length_replicate]
    rcases handleNextPacketS_eq h hsizes.1 hbuf with ⟨st1, s1, hcall, hst1, hrest⟩
    rw [flatten_cons] at hpre hlt hb
    rcases fgetss_cons_eq_ok hcall hcalls with ⟨out, outs', hout, rfl, hcalls'⟩
    rcases map_eq_some_iff.1 hout with ⟨⟨stored, us'⟩, hstored, rfl⟩
    intro hhold
    rcases forall₂_cons.1 hhold with ⟨⟨tail, htail⟩, hhold'⟩
    rcases lt_or_ge pre.length line.length with hin | hbeyond
    · -- the gap is in this line, where the byte of the buffer stands
      have hline' := prefix_of_prefix_length_le hpre (prefix_append line _)
        (le_of_lt hin)
      rw [hs] at hstored
      have hgap := storedBytes_of_gap hline hline' hin hstored
      have hsize : pre.length < size := by
        have := nextLine_length_le hline
        omega
      rw [getElem?_replicate_of_lt hsize] at hgap
      have hout := congrArg (·[pre.length]?) htail
      rw [List.getElem?_append_left (List.getElem?_eq_some_iff.1 hgap).1, hgap,
        List.getElem?_append_left hin] at hout
      rw [List.getElem?_append_left hin] at hb
      exact hb hout.symm
    · -- this line is stored, the gap is in one of the others
      rcases prefix_of_prefix_length_le (prefix_append line _) hpre hbeyond with
        ⟨pre', rfl⟩
      rw [map_append, append_assoc] at hs
      have hrest' := hrest _ _ hstored
      rw [hs, storedBytes_of_nextLine hline (by rw [length_replicate]; omega)] at hstored
      cases hstored
      rw [prefix_append_right_inj] at hpre
      rw [length_append, length_append, add_lt_add_iff_left] at hlt
      rw [length_append, getElem?_append_right (Nat.le_add_right _ _),
        Nat.add_sub_cancel_left] at hb
      exact ih hst1 hsizes.2 hlines' hrest' hpre hlt hb hcalls' hhold'

theorem not_storesLines_of_gap (h : Streams checksum dataOffset st s)
    (hsizes : ∀ size ∈ sizes, 1 ≤ size) (hlines : nextLines sizes bs = some lines)
    (pre : List UInt8) (hs : s.singles = pre.map some ++ none :: us) (hpre : pre <+: lines.flatten)
    (hlt : pre.length < lines.flatten.length) :
    ¬StoresLines (canvehicleLoader checksum) st sizes lines := by
  intro hstores
  have hb : ∃ b : UInt8, lines.flatten[pre.length]? ≠ some b := by
    by_cases hzero : lines.flatten[pre.length]? = some 0
    · refine ⟨1, ?_⟩
      rw [hzero]
      decide
    · exact ⟨0, hzero⟩
  rcases hb with ⟨b, hb⟩
  have hfit : Fit sizes (sizes.map fun size => replicate size b) := by
    rw [Fit, forall₂_map_right_iff, forall₂_same]
    intro size _
    rw [length_replicate]
  rcases hstores _ hfit with ⟨outs, st', hcalls, hhold⟩
  exact not_hold_of_gap h hsizes hlines hs hpre hlt b hb hcalls hhold

theorem length_flatten_first_empty_le {pre post pre' post' : List (List UInt8)} (h : [] ∉ pre)
    (heq : pre ++ [] :: post = pre' ++ [] :: post') : pre.flatten.length ≤ pre'.flatten.length := by
  rcases append_eq_append_iff.1 heq with ⟨mid, rfl, -⟩ | ⟨mid, rfl, hmid⟩
  · rw [flatten_append, length_append]
    exact Nat.le_add_right _ _
  · cases mid with
    | nil => rw [append_nil]
    | cons p mid =>
      obtain ⟨rfl, -⟩ := cons.inj hmid
      exact absurd (mem_append_right _ mem_cons_self) h

/-- **When the lines are stored**: exactly if no empty packet lies in front of their end. -/
theorem fgets_storesLines_iff {mem : Mem} {nodes : List GraphNode}
    (hview : GuestView mem checksum dataOffset (opsOf nodes) (dataOf nodes))
    (hnodes : ∀ node ∈ nodes, node.IsPacket checksum) (hst : st.Fresh mem dataOffset)
    (hsizes : ∀ size ∈ sizes, 1 ≤ size)
    (hlines : nextLines sizes (nodes.map GraphNode.packet).flatten = some lines) :
    lines.flatten <+: (nodes.map GraphNode.packet).flatten ∧
      (StoresLines (canvehicleLoader checksum) st sizes lines ↔
        ∀ pre post, nodes.map GraphNode.packet = pre ++ [] :: post →
          lines.flatten.length ≤ pre.flatten.length) := by
  have hstreams := streams_fresh hview hnodes hst
  have hlines' := nextLines_flatten hlines
  have hsingles : (PacketStream.start (nodes.map packet)).singles =
      (nodes.map packet).flatMap PacketStream.singlesOf := rfl
  generalize nodes.map packet = packets at *
  refine ⟨hlines', ?_⟩
  by_cases hmem : [] ∈ packets
  · rcases PacketStream.exists_first_empty hmem with ⟨pre, post, rfl, hpre, hgap⟩
    rw [hgap] at hsingles
    have hfront : pre.flatten <+: (pre ++ [] :: post).flatten := by
      rw [flatten_append]
      exact prefix_append _ _
    rcases lt_or_ge pre.flatten.length lines.flatten.length with hlt | hge
    · refine iff_of_false (fun hstores => ?_) fun hempty => ?_
      · exact not_storesLines_of_gap hstreams hsizes hlines pre.flatten hsingles
          (prefix_of_prefix_length_le hfront hlines' (le_of_lt hlt)) hlt hstores
      · exact not_le.2 hlt (hempty pre post rfl)
    · refine iff_of_true (fun bufs hfit => ?_) fun pre' post' hsplit => ?_
      · rcases prefix_of_prefix_length_le hlines' hfront hge with ⟨rest, hrest⟩
        rw [← hrest, map_append, append_assoc] at hsingles
        exact fgetss_of_singles hstreams hsizes hlines hsingles hfit
      · exact le_trans hge (length_flatten_first_empty_le hpre hsplit)
  · refine iff_of_true (fun bufs hfit => ?_) fun pre post hsplit => ?_
    · rcases hlines' with ⟨rest, hrest⟩
      rw [PacketStream.flatMap_singlesOf hmem, ← hrest, map_append] at hsingles
      exact fgetss_of_singles hstreams hsizes hlines hsingles hfit
    · rw [hsplit] at hmem
      exact absurd (mem_append_right _ mem_cons_self) hmem

end

theorem fgets_storesLines_twoPackets :
    StoresLines (canvehicleLoader 0) twoPacketsState [3] [[7, 8]] := by
  have hsizes : ∀ size ∈ [3], 1 ≤ size := by decide
  have hpackets : twoPackets.map packet = [[7, 8, 9], []] := by decide
  have hlines : nextLines [3] (twoPackets.map packet).flatten = some [[7, 8]] := by
    decide
  refine (fgets_storesLines_iff guestView_twoPackets (twoPackets_isPacket 0)
    fresh_twoPacketsState hsizes hlines).2.2 ?_
  intro pre post hsplit
  cases pre with
  | nil => cases hsplit
  | cons p pre =>
    obtain ⟨rfl, -⟩ := cons.inj hsplit
    show 2 ≤ ([7, 8, 9] ++ pre.flatten).length
    rw [length_append]
    exact Nat.le_add_right_of_le (by decide)

def emptyThenLine : List GraphNode := [⟨0, 0, [0], [0, 0]⟩, ⟨0, 1, [0], [2, 0, 0x61, 0x0a]⟩]

theorem emptyThenLine_isPacket (checksum : ℕ) : ∀ node ∈ emptyThenLine, node.IsPacket checksum := by
  intro node hnode
  rcases mem_cons.1 hnode with rfl | hnode
  · exact ⟨⟨_, [], rfl, rfl, rfl, _, rfl, 0, 0, [], rfl, rfl⟩, rfl⟩
  · obtain rfl := mem_singleton.1 hnode
    exact ⟨⟨_, [], rfl, rfl, rfl, _, rfl, 2, 0, [0x61, 0x0a], rfl, rfl⟩, rfl⟩

def emptyThenLineMem : Mem :=
  memOf (arrayOf 8 [0, 2, 6, 40, 44] ++ arrayOf 2 [0, 0] ++ [0, 0, 2, 0, 0x61, 0x0a])

theorem guestView_emptyThenLine :
    GuestView emptyThenLineMem 0 44 (opsOf emptyThenLine) (dataOf emptyThenLine) := by
  constructor <;> decide +kernel

def emptyThenLineState : StreamState :=
  ⟨GuestState.ready emptyThenLineMem 44, 0, List.replicate packetBufferSize 0, 0, 0⟩

theorem fresh_emptyThenLineState : emptyThenLineState.Fresh emptyThenLineMem 44 :=
  ⟨rfl, length_replicate, rfl, rfl⟩

/-- **A line behind an empty packet is not stored.** -/
theorem fgets_emptyThenLine :
    nextLines [3] (emptyThenLine.map GraphNode.packet).flatten = some [[0x61, 0x0a]] ∧
      ¬StoresLines (canvehicleLoader 0) emptyThenLineState [3] [[0x61, 0x0a]] := by
  have hpackets : emptyThenLine.map packet = [[], [0x61, 0x0a]] := by decide
  have hlines : nextLines [3] (emptyThenLine.map packet).flatten =
      some [[0x61, 0x0a]] := by
    decide
  have hstreams := streams_fresh guestView_emptyThenLine (emptyThenLine_isPacket 0)
    fresh_emptyThenLineState
  refine ⟨hlines, ?_⟩
  exact not_storesLines_of_gap hstreams (by decide) hlines [] rfl nil_prefix (by decide)

end FuzzSocketCan
