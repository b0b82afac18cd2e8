import FuzzSocketCan.Harness.SocketRegistry

/-! # Ready descriptors

`select` adds the emulated descriptors among those asked for to what the kernel has returned: one
that the kernel has reported too is counted twice. `poll` returns at the first emulated
descriptor; the entries behind it hold what the caller has left there.

* **`readiness_counts_iff`** — both count right if and only if none of this happens. -/

namespace FuzzSocketCan

/-! ## `select` -/

/-- The three sets of `select`, `none` for a null pointer. -/
structure FdSets where
  readfds : Option (Finset ℤ)
  writefds : Option (Finset ℤ)
  exceptfds : Option (Finset ℤ)

def fdCount (set : Option (Finset ℤ)) : ℕ := (set.map Finset.card).getD 0

def FdSets.bits (sets : FdSets) : ℕ :=
  fdCount sets.readfds + fdCount sets.writefds + fdCount sets.exceptfds

/-- A successful real `select`. -/
def realSelect (sets ready : FdSets) : ℕ × FdSets :=
  let keep (set ready : Option (Finset ℤ)) := set.map (· ∩ ready.getD ∅)
  let sets : FdSets := ⟨keep sets.readfds ready.readfds, keep sets.writefds ready.writefds,
    keep sets.exceptfds ready.exceptfds⟩
  (sets.bits, sets)

namespace SocketCache

variable (self : SocketCache)

def setSelectFds (set oldSet : Finset ℤ) : Finset ℤ × ℕ :=
  (List.range self.activeConnections.toNat).foldl
    (fun acc i =>
      if (self.connections i).disabled then acc
      else
        (List.range (self.connections i).serverSocketsNum.toNat).foldl
          (fun (set, ret) j =>
            if (self.connections i).serverSockets j ∈ oldSet then
              (insert ((self.connections i).serverSockets j) set, ret + 1)
            else (set, ret))
          acc)
    (set, 0)

/-- The timeout is not used. -/
def select (sets ready : FdSets) : ℕ × FdSets :=
  let oldReadfds := sets.readfds
  let (ret, sets) := realSelect sets ready
  match oldReadfds, sets.readfds with
  | some oldReadfds, some readfds =>
    if self.activeConNum ≠ 0 then
      let (readfds, n) := self.setSelectFds readfds oldReadfds
      (ret + n, { sets with readfds := some readfds })
    else (ret, sets)
  | _, _ => (ret, sets)

end SocketCache

/-! ## `poll` -/

/-- `struct pollfd` -/
structure PollFd where
  fd : ℤ
  events : BitVec 16
  revents : BitVec 16

def pollIn : BitVec 16 := 0x1

def pollOut : BitVec 16 := 0x4

/-- A successful real `poll`. -/
def realPoll (fds : List PollFd) (answer : ℕ → BitVec 16) : ℕ × List PollFd :=
  let fds := fds.mapIdx fun i entry => { entry with revents := answer i }
  (fds.countP (·.revents ≠ 0), fds)

namespace SocketCache

variable (self : SocketCache)

def pollReady (entry : PollFd) : Bool :=
  (entry.events &&& pollIn ≠ 0 || entry.events &&& pollOut ≠ 0) && self.serverSocketExists entry.fd

def pollLoop : List PollFd → List PollFd × Bool
  | [] => ([], false)
  | entry :: fds =>
    if self.pollReady entry then
      ({ entry with revents := (entry.events &&& pollIn) ||| (entry.events &&& pollOut) } :: fds,
        true)
    else
      let (fds, found) := pollLoop fds
      ({ entry with revents := 0 } :: fds, found)

def poll (fds : List PollFd) (answer : ℕ → BitVec 16) : ℕ × List PollFd :=
  let (fds, found) := self.pollLoop fds
  if found then (1, fds) else realPoll fds answer

end SocketCache

/-! ## What `select` returns -/

theorem card_union_toFinset_eq_iff {set : Finset ℤ} {fds : List ℤ} :
    (set ∪ fds.toFinset).card = set.card + fds.length ↔ fds.Nodup ∧ ∀ fd ∈ fds, fd ∉ set := by
  have hle : fds.toFinset.card ≤ fds.length := List.toFinset_card_le fds
  have hunion := Finset.card_union_le set fds.toFinset
  have hnodup : fds.toFinset.card = fds.length ↔ fds.Nodup :=
    Multiset.toFinset_card_eq_card_iff_nodup
  have hdisjoint : Disjoint set fds.toFinset ↔ ∀ fd ∈ fds, fd ∉ set := by
    rw [disjoint_comm, Finset.disjoint_left]
    simp
  rw [← hnodup, ← hdisjoint, ← Finset.card_union_eq_card_add_card]
  omega

namespace SocketCache

variable {s : SocketCache}

def emulated (s : SocketCache) : List ℤ :=
  ((List.range s.activeConnections.toNat).filter fun i => !(s.connections i).disabled).flatMap
    fun i => (s.connections i).sockets

def asked (s : SocketCache) (oldSet : Finset ℤ) : List ℤ := s.emulated.filter (· ∈ oldSet)

def selectFd (oldSet : Finset ℤ) (acc : Finset ℤ × ℕ) (fd : ℤ) : Finset ℤ × ℕ :=
  if fd ∈ oldSet then (insert fd acc.1, acc.2 + 1) else acc

theorem foldl_selectFd (oldSet : Finset ℤ) (fds : List ℤ) (set : Finset ℤ) (ret : ℕ) :
    fds.foldl (selectFd oldSet) (set, ret) =
      (set ∪ (fds.filter (· ∈ oldSet)).toFinset, ret + (fds.filter (· ∈ oldSet)).length) := by
  induction fds generalizing set ret with
  | nil => simp
  | cons fd fds ih =>
    rw [List.foldl_cons, selectFd]
    by_cases hfd : fd ∈ oldSet
    · rw [if_pos hfd, ih, List.filter_cons_of_pos (by simpa using hfd), List.toFinset_cons,
        List.length_cons, Finset.insert_union, Finset.union_insert, Nat.add_assoc,
        Nat.add_comm 1]
    · rw [if_neg hfd, ih, List.filter_cons_of_neg (by simpa using hfd)]

theorem setSelectFds_eq (set oldSet : Finset ℤ) :
    s.setSelectFds set oldSet = (set ∪ (s.asked oldSet).toFinset, (s.asked oldSet).length) := by
  have houter : ∀ (is : List ℕ) (acc : Finset ℤ × ℕ),
      is.foldl
        (fun acc i =>
          if (s.connections i).disabled then acc
          else (s.connections i).sockets.foldl (selectFd oldSet) acc) acc =
        ((is.filter fun i => !(s.connections i).disabled).flatMap
          fun i => (s.connections i).sockets).foldl (selectFd oldSet) acc := by
    intro is
    induction is with
    | nil => exact fun _ => rfl
    | cons i is ih =>
      intro acc
      rw [List.foldl_cons, ih]
      cases hdisabled : (s.connections i).disabled with
      | true => rw [if_pos rfl, List.filter_cons_of_neg (by simp [hdisabled])]
      | false =>
        rw [if_neg Bool.false_ne_true, List.filter_cons_of_pos (by simp [hdisabled]),
          List.flatMap_cons, List.foldl_append]
  have hinner : ∀ i (acc : Finset ℤ × ℕ),
      (List.range (s.connections i).serverSocketsNum.toNat).foldl
          (fun (set, ret) j =>
            if (s.connections i).serverSockets j ∈ oldSet then
              (insert ((s.connections i).serverSockets j) set, ret + 1)
            else (set, ret)) acc =
        (s.connections i).sockets.foldl (selectFd oldSet) acc := by
    intro i acc
    rw [Interfaces.sockets, List.foldl_map]
    rfl
  unfold setSelectFds
  simp only [hinner]
  rw [houter, asked, ← Nat.zero_add (List.length _), ← foldl_selectFd]
  rfl

/-- **`select` counts**: it returns the number of bits in the sets. -/
def SelectCounts (s : SocketCache) (sets ready : FdSets) : Prop :=
  (s.select sets ready).1 = (s.select sets ready).2.bits

/-- Emulated descriptors to be read from are registered once, and not reported by the kernel. -/
def AskedOnce (s : SocketCache) (sets ready : FdSets) : Prop :=
  ∀ oldSet, sets.readfds = some oldSet →
    (s.asked oldSet).Nodup ∧ ∀ fd ∈ s.asked oldSet, fd ∉ ready.readfds.getD ∅

theorem selectCounts_iff (s : SocketCache) (sets ready : FdSets) :
    s.SelectCounts sets ready ↔ s.activeConNum = 0 ∨ s.AskedOnce sets ready := by
  rcases sets with ⟨readfds, writefds, exceptfds⟩
  cases readfds with
  | none =>
    -- the answer of the kernel is returned
    refine iff_of_true rfl (Or.inr ?_)
    intro oldSet hold
    cases hold
  | some oldSet =>
    have hasked : s.AskedOnce ⟨some oldSet, writefds, exceptfds⟩ ready ↔
        (s.asked oldSet).Nodup ∧
          ∀ fd ∈ s.asked oldSet, fd ∉ oldSet ∩ ready.readfds.getD ∅ := by
      have hmem : ∀ fd ∈ s.asked oldSet, fd ∈ oldSet :=
        fun fd hfd => of_decide_eq_true (List.mem_filter.1 hfd).2
      constructor
      · intro h
        refine ⟨(h oldSet rfl).1, fun fd hfd hinter => ?_⟩
        exact (h oldSet rfl).2 fd hfd (Finset.mem_inter.1 hinter).2
      · rintro ⟨hnodup, hreal⟩ set hset
        cases hset
        refine ⟨hnodup, fun fd hfd hready => hreal fd hfd ?_⟩
        exact Finset.mem_inter.2 ⟨hmem fd hfd, hready⟩
    rw [SelectCounts, select]
    by_cases hactive : s.activeConNum = 0
    · refine iff_of_true ?_ (Or.inl hactive)
      simp [realSelect, hactive]
    · rw [or_iff_right hactive, hasked, ← card_union_toFinset_eq_iff]
      simp only [realSelect, Option.map_some, if_pos hactive, setSelectFds_eq, FdSets.bits,
        fdCount, Option.getD_some, ne_eq]
      omega

end SocketCache

/-! ## What `poll` returns -/

namespace PollFd

def clear (entry : PollFd) : PollFd := { entry with revents := 0 }

def report (entry : PollFd) : PollFd :=
  { entry with revents := (entry.events &&& pollIn) ||| (entry.events &&& pollOut) }

theorem report_clear (entry : PollFd) : entry.clear.report = entry.report := rfl

end PollFd

namespace SocketCache

variable {s : SocketCache} {pre post fds : List PollFd} {entry : PollFd}

theorem pollReady_clear (entry : PollFd) : s.pollReady entry.clear = s.pollReady entry := rfl

theorem report_revents_ne_zero (h : s.pollReady entry = true) : entry.report.revents ≠ 0 := by
  rw [pollReady, Bool.and_eq_true, Bool.or_eq_true, decide_eq_true_iff, decide_eq_true_iff] at h
  intro hzero
  have hboth := BitVec.or_eq_zero_iff.1 hzero
  rcases h.1 with hin | hout
  · exact hin hboth.1
  · exact hout hboth.2

theorem pollLoop_append (h : ∀ entry ∈ pre, s.pollReady entry = false) :
    s.pollLoop (pre ++ fds) = (pre.map PollFd.clear ++ (s.pollLoop fds).1, (s.pollLoop fds).2) := by
  induction pre with
  | nil => rfl
  | cons entry pre ih =>
    rw [List.forall_mem_cons] at h
    rw [List.cons_append, pollLoop, if_neg (Bool.eq_false_iff.1 h.1), ih h.2]
    rfl

theorem poll_of_forall (h : ∀ entry ∈ fds, s.pollReady entry = false) (answer : ℕ → BitVec 16) :
    s.poll fds answer = realPoll (fds.map PollFd.clear) answer := by
  have hloop : s.pollLoop (fds ++ []) = _ := pollLoop_append h
  rw [List.append_nil, pollLoop, List.append_nil] at hloop
  rw [poll, hloop]
  rfl

theorem poll_append_cons (hpre : ∀ entry ∈ pre, s.pollReady entry = false)
    (h : s.pollReady entry = true) (answer : ℕ → BitVec 16) :
    s.poll (pre ++ entry :: post) answer = (1, pre.map PollFd.clear ++ entry.report :: post) := by
  rw [poll, pollLoop_append hpre, pollLoop, if_pos h]
  rfl

/-- **`poll` counts** the entries that report something, whatever was left there. -/
def PollCounts (s : SocketCache) (fds : List PollFd) (answer : ℕ → BitVec 16) : Prop :=
  ∃ out, ∀ fds', fds'.map PollFd.clear = fds.map PollFd.clear →
    s.poll fds' answer = (out.countP (·.revents ≠ 0), out)

theorem forall_pollReady_of_map_clear {fds' : List PollFd}
    (heq : fds'.map PollFd.clear = fds.map PollFd.clear)
    (h : ∀ entry ∈ fds, s.pollReady entry = false) : ∀ entry ∈ fds', s.pollReady entry = false := by
  intro entry hentry
  have hmem := List.mem_map_of_mem (f := PollFd.clear) hentry
  rw [heq] at hmem
  rcases List.mem_map.1 hmem with ⟨entry', hentry', hclear⟩
  rw [← pollReady_clear, ← hclear, pollReady_clear]
  exact h entry' hentry'

theorem exists_first_ready (s : SocketCache) (fds : List PollFd) :
    (∀ entry ∈ fds, s.pollReady entry = false) ∨
      ∃ pre entry post, fds = pre ++ entry :: post ∧ s.pollReady entry = true ∧
        ∀ entry ∈ pre, s.pollReady entry = false := by
  cases hfind : fds.find? s.pollReady with
  | none =>
    rw [List.find?_eq_none] at hfind
    exact Or.inl fun entry hentry => Bool.eq_false_iff.2 (hfind entry hentry)
  | some entry =>
    rcases List.find?_eq_some_iff_append.1 hfind with ⟨hready, pre, post, heq, hpre⟩
    refine Or.inr ⟨pre, entry, post, heq, hready, fun entry hentry => ?_⟩
    exact (Bool.not_eq_true' _).mp (hpre entry hentry)

theorem pollCounts_append_singleton (hpre : ∀ entry ∈ pre, s.pollReady entry = false)
    (h : s.pollReady entry = true) (answer : ℕ → BitVec 16) :
    s.PollCounts (pre ++ [entry]) answer := by
  refine ⟨pre.map PollFd.clear ++ [entry.report], fun fds' heq => ?_⟩
  rw [List.map_append, List.map_singleton] at heq
  rcases List.map_eq_append_iff.1 heq with ⟨pre', last, rfl, hclear, hlast⟩
  rcases List.map_eq_singleton_iff.1 hlast with ⟨entry', rfl, hentry⟩
  have hready : s.pollReady entry' = true := by
    rw [← pollReady_clear, hentry, pollReady_clear]
    exact h
  have hreport : entry'.report = entry.report := by
    rw [← PollFd.report_clear, hentry, PollFd.report_clear]
  have hcount : (pre.map PollFd.clear).countP (fun entry => entry.revents ≠ 0) = 0 := by
    rw [List.countP_eq_zero]
    intro entry hmem
    rcases List.mem_map.1 hmem with ⟨entry', -, rfl⟩
    simp [PollFd.clear]
  rw [poll_append_cons (forall_pollReady_of_map_clear hclear hpre) hready, hclear, hreport,
    List.countP_append, hcount, List.countP_singleton,
    if_pos (decide_eq_true (report_revents_ne_zero h))]

theorem not_pollCounts_append_cons {next : PollFd}
    (hpre : ∀ entry ∈ pre, s.pollReady entry = false) (h : s.pollReady entry = true)
    (answer : ℕ → BitVec 16) : ¬s.PollCounts (pre ++ entry :: next :: post) answer := by
  rintro ⟨out, hout⟩
  have hstale : ∀ revents : BitVec 16,
      out = pre.map PollFd.clear ++ entry.report :: { next with revents := revents } :: post := by
    intro revents
    have hpoll := hout (pre ++ entry :: { next with revents := revents } :: post) (by
      simp only [List.map_append, List.map_cons]
      rfl)
    rw [poll_append_cons hpre h] at hpoll
    exact (Prod.ext_iff.1 hpoll).2.symm
  have heq := (hstale 0).symm.trans (hstale 1)
  simp at heq

theorem pollCounts_iff (s : SocketCache) (fds : List PollFd) (answer : ℕ → BitVec 16) :
    s.PollCounts fds answer ↔ ∀ entry ∈ fds.dropLast, s.pollReady entry = false := by
  rcases exists_first_ready s fds with hnone | ⟨pre, entry, post, rfl, hready, hpre⟩
  · refine iff_of_true ?_ fun entry hentry => hnone entry (List.mem_of_mem_dropLast hentry)
    refine ⟨(realPoll (fds.map PollFd.clear) answer).2, fun fds' heq => ?_⟩
    rw [poll_of_forall (forall_pollReady_of_map_clear heq hnone), heq]
    rfl
  · cases post with
    | nil =>
      refine iff_of_true (pollCounts_append_singleton hpre hready answer) ?_
      rw [List.dropLast_concat]
      exact hpre
    | cons next post =>
      refine iff_of_false (not_pollCounts_append_cons hpre hready answer) fun h => ?_
      have hmem : entry ∈ (pre ++ entry :: next :: post).dropLast := by
        simp
      rw [h entry hmem] at hready
      cases hready

end SocketCache

/-! ## Both -/

/-- **When `select` and `poll` return the number of ready descriptors.** -/
theorem readiness_counts_iff (s : SocketCache) (sets ready : FdSets) (fds : List PollFd)
    (answer : ℕ → BitVec 16) :
    (s.SelectCounts sets ready ↔ s.activeConNum = 0 ∨ s.AskedOnce sets ready) ∧
      (s.PollCounts fds answer ↔ ∀ entry ∈ fds.dropLast, s.pollReady entry = false) :=
  ⟨s.selectCounts_iff sets ready, s.pollCounts_iff fds answer⟩

/-- **One CAN socket is counted twice, and the entry behind it is not counted.** -/
theorem readiness_boundCan :
    ∃ s, SocketCache.start.bind 5 0 true = some s ∧
      (s.select ⟨some {5}, none, none⟩ ⟨some {5}, none, none⟩).1 = 2 ∧
      (s.select ⟨some {5}, none, none⟩ ⟨some {5}, none, none⟩).2.bits = 1 ∧
      ¬s.SelectCounts ⟨some {5}, none, none⟩ ⟨some {5}, none, none⟩ ∧
      s.poll [⟨5, pollIn, 0⟩, ⟨3, pollIn, pollIn⟩] (fun _ => 0) =
        (1, [⟨5, pollIn, pollIn⟩, ⟨3, pollIn, pollIn⟩]) ∧
      ¬s.PollCounts [⟨5, pollIn, 0⟩, ⟨3, pollIn, pollIn⟩] (fun _ => 0) := by
  have hpre : ∀ (s : SocketCache), ∀ entry ∈ ([] : List PollFd), s.pollReady entry = false := by
    intro s entry hentry
    cases hentry
  refine ⟨_, rfl, by decide, by decide, by unfold SocketCache.SelectCounts; decide, rfl, ?_⟩
  exact SocketCache.not_pollCounts_append_cons (hpre _) rfl _

end FuzzSocketCan
