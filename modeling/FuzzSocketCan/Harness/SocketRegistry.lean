import FuzzSocketCan.Harness.SocketCounters
import Mathlib.Data.Finset.Card

/-! # The bookkeeping of the socket cache

The table of connections stands for a map from descriptors to connections in use, if none is
registered twice, which follows if the kernel only gives out descriptors that are closed.

* **`SocketCache.Unique`**, **`SocketCache.Counts`** — no descriptor stands twice; the counter is
  the number of connections in use, and decides about the `RELEASE` hypercall.
* **`Consistent.registryStep`** — every call keeps both.
* **`registry_consistent`** — closing takes a descriptor from its connection and from nowhere else.
-/

namespace FuzzSocketCan

open Lib List Option Function SocketCache Interfaces

/-! ## The sockets of a connection -/

namespace Interfaces

variable {c c' : Interfaces} {socket : ℤ}

/-- The server sockets of a connection. -/
def sockets (c : Interfaces) : List ℤ :=
  (List.range c.serverSocketsNum.toNat).map c.serverSockets

theorem length_sockets (c : Interfaces) : c.sockets.length = c.serverSocketsNum.toNat := by
  rw [sockets, length_map, length_range]

theorem checkServerSocket_iff : c.checkServerSocket socket = true ↔ socket ∈ c.sockets := by
  simp [checkServerSocket, sockets]

theorem serverSocketsNum_eq_zero_iff : c.serverSocketsNum = 0 ↔ c.sockets = [] := by
  rw [← length_eq_zero_iff, length_sockets, ← UInt8.toNat_inj]
  rfl

/-- A new socket is appended, if it is one of the first eight. -/
theorem addServerSocket_of_notMem (h : socket ∉ c.sockets) :
    (c.sockets.length < 8 ∧ ∃ c', c.addServerSocket socket = some c' ∧
      c'.sockets = c.sockets ++ [socket] ∧ c'.port = c.port ∧ c'.isCan = c.isCan ∧
      c'.disabled = c.disabled) ∨
    (8 ≤ c.sockets.length ∧ c.addServerSocket socket = none) := by
  have hcheck : c.checkServerSocket socket = false :=
    Bool.eq_false_iff.2 fun hmem => h (checkServerSocket_iff.1 hmem)
  rw [length_sockets, addServerSocket, hcheck]
  rcases lt_or_ge c.serverSocketsNum.toNat 8 with hlt | hge
  · have hroom : c.serverSocketsNum < 8 := UInt8.lt_iff_toNat_lt.2 hlt
    refine Or.inl ⟨hlt, _, if_pos hroom, ?_, rfl, rfl, rfl⟩
    have hnum : (c.serverSocketsNum + 1).toNat = c.serverSocketsNum.toNat + 1 := by
      rw [UInt8.toNat_add, UInt8.toNat_one]
      omega
    show (range (c.serverSocketsNum + 1).toNat).map
      (update c.serverSockets c.serverSocketsNum.toNat socket) = _
    rw [hnum, range_succ, map_append, map_singleton, update_self]
    refine congrArg (· ++ [socket]) (map_congr_left fun i hi => ?_)
    exact update_of_ne (ne_of_lt (mem_range.1 hi)) _ _
  · exact Or.inr ⟨hge, if_neg fun hlt => not_lt.2 hge (UInt8.lt_iff_toNat_lt.1 hlt)⟩

/-! ### Closing -/

variable {sockets : ℕ → ℤ}

/-- One more round of the loop. -/
theorem closeLoop_succ {t : ℕ → ℤ} {n : ℕ} {closed : Bool}
    (h : closeLoop socket sockets n = (t, closed)) :
    closeLoop socket sockets (n + 1) =
      if closed then (update t (n - 1) (t n), true) else (t, t n == socket) := by
  rw [closeLoop] at h ⊢
  rw [range_succ, foldl_append, h]
  cases closed with
  | false => rfl
  | true => rfl

/-- The loop removes the socket and moves up those behind it. -/
theorem exists_closeLoop {n : ℕ} (h : ((List.range n).map sockets).Nodup) (socket : ℤ) :
    ∃ t closed, closeLoop socket sockets n = (t, closed) ∧
      (closed = true ↔ socket ∈ (List.range n).map sockets) ∧ (∀ i, n ≤ i → t i = sockets i) ∧
      (List.range (if closed then n - 1 else n)).map t =
        ((List.range n).map sockets).erase socket := by
  induction n with
  | zero => exact ⟨sockets, false, rfl, by simp, fun _ _ => rfl, rfl⟩
  | succ n ih =>
    rw [range_succ, map_append, map_singleton, nodup_append] at h
    rcases ih h.1 with ⟨t, closed, hloop, hclosed, hrest, herase⟩
    have hn := hrest n (le_refl n)
    rw [closeLoop_succ hloop, range_succ, map_append, map_singleton]
    cases closed with
    | true =>
      -- the socket moves up; it is not the one that was closed
      have hmem := hclosed.1 rfl
      have hpos : n - 1 + 1 = n := by
        cases n with
        | zero => cases hmem
        | succ n => rfl
      refine ⟨_, true, rfl, iff_of_true rfl (mem_append_left _ hmem), ?_, ?_⟩
      · intro i hi
        rw [update_of_ne (by omega)]
        exact hrest i (by omega)
      · rw [erase_append_left _ hmem, ← herase, if_pos rfl, if_pos rfl, Nat.add_sub_cancel]
        have hrange : range n = range (n - 1) ++ [n - 1] := by
          rw [← range_succ, Nat.succ_eq_add_one, hpos]
        rw [hrange, map_append, map_singleton, update_self, hn]
        refine congrArg (· ++ _) (map_congr_left fun i hi => ?_)
        exact update_of_ne (ne_of_lt (mem_range.1 hi)) _ _
    | false =>
      have hmem : socket ∉ (range n).map sockets :=
        fun hmem => Bool.false_ne_true (hclosed.2 hmem)
      rw [erase_of_not_mem hmem, if_neg Bool.false_ne_true] at herase
      refine ⟨t, t n == socket, rfl, ?_, fun i hi => hrest i (by omega), ?_⟩
      · rw [hn, beq_iff_eq, mem_append, mem_singleton, eq_comm]
        exact (or_iff_right hmem).symm
      · rw [erase_append_right _ hmem, hn]
        by_cases heq : sockets n = socket
        · rw [beq_iff_eq.2 heq, if_pos rfl, Nat.add_sub_cancel, herase, heq,
            erase_cons_head, append_nil]
        · rw [beq_eq_false_iff_ne.2 heq, if_neg Bool.false_ne_true, range_succ,
            map_append, map_singleton, herase, hn,
            erase_cons_tail (by simpa using heq), erase_nil]

/-- A registered socket is removed. -/
theorem closeServerSocket_of_mem (hnodup : c.sockets.Nodup) (h : socket ∈ c.sockets) :
    ∃ c', c.closeServerSocket socket = (c', true) ∧ c'.sockets = c.sockets.erase socket ∧
      c'.port = c.port ∧ c'.isCan = c.isCan ∧ c'.disabled = c.disabled := by
  rcases exists_closeLoop hnodup socket with ⟨t, closed, hloop, hclosed, -, herase⟩
  obtain rfl := hclosed.2 h
  rw [closeServerSocket, if_pos (checkServerSocket_iff.2 h), hloop]
  refine ⟨_, rfl, ?_, rfl, rfl, rfl⟩
  have hpos : 0 < c.serverSocketsNum.toNat := by
    rw [← length_sockets]
    exact length_pos_of_mem h
  have hnum : (c.serverSocketsNum - 1).toNat = c.serverSocketsNum.toNat - 1 := by
    have hle : (1 : UInt8) ≤ c.serverSocketsNum := UInt8.le_iff_toNat_le.2 hpos
    rw [UInt8.toNat_sub_of_le _ _ hle]
    rfl
  rw [sockets, hnum]
  exact herase

/-- Another socket is not removed. -/
theorem closeServerSocket_of_notMem (h : socket ∉ c.sockets) :
    c.closeServerSocket socket = (c, false) :=
  if_neg fun hcheck => h (checkServerSocket_iff.1 hcheck)

end Interfaces

/-! ## The table as a map -/

variable {p : Interfaces → Bool} {r : SocketCache × Bool} {init : Interfaces → Interfaces}

namespace SocketCache

variable {s s' : SocketCache} {fd : ℤ} {i j : ℕ}

/-- Connection `i` is in use. -/
def Enabled (s : SocketCache) (i : ℕ) : Prop :=
  i < s.activeConnections.toNat ∧ (s.connections i).disabled = false

/-- `fd` is a server socket of connection `i`. -/
def Registered (s : SocketCache) (fd : ℤ) (i : ℕ) : Prop :=
  s.Enabled i ∧ fd ∈ (s.connections i).sockets

/-- A descriptor is registered with one connection at most, and once. -/
structure Unique (s : SocketCache) : Prop where
  nodup : ∀ {i}, s.Enabled i → (s.connections i).sockets.Nodup
  eq : ∀ {fd i j}, s.Registered fd i → s.Registered fd j → i = j

theorem find?_isSome_iff :
    (s.find? p).isSome = true ↔ ∃ i, s.Enabled i ∧ p (s.connections i) = true := by
  constructor
  · intro h
    rcases isSome_iff_exists.1 h with ⟨i, hi⟩
    rcases of_find?_eq_some hi with ⟨hlt, henabled, hp⟩
    exact ⟨i, ⟨hlt, henabled⟩, hp⟩
  · rintro ⟨i, ⟨hlt, henabled⟩, hp⟩
    exact find?_isSome_of hlt henabled hp

/-- What `server_socket_exists` tells. -/
theorem serverSocketExists_iff : s.serverSocketExists fd = true ↔ ∃ i, s.Registered fd i := by
  rw [serverSocketExists, find?_isSome_iff]
  simp [checkServerSocket_iff, Registered]

theorem unique_start : start.Unique := by
  refine ⟨fun h => absurd h.1 (Nat.not_lt_zero _), fun h => absurd h.1.1 (Nat.not_lt_zero _)⟩

variable {c : Interfaces}

/-- A connection is changed: no other one may have its sockets. -/
theorem Unique.update (h : s.Unique) (hnodup : c.disabled = false → c.sockets.Nodup)
    (hsockets : c.disabled = false → ∀ fd ∈ c.sockets, ∀ j, s.Registered fd j → j = i)
    (hactive : ∀ j, j < s'.activeConnections.toNat → j ≠ i → j < s.activeConnections.toNat)
    (hconnections : s'.connections = update s.connections i c) : s'.Unique := by
  have henabled : ∀ {j}, s'.Enabled j → j ≠ i → s.Enabled j := by
    rintro j ⟨hlt, hj⟩ hne
    rw [hconnections, update_of_ne hne] at hj
    exact ⟨hactive j hlt hne, hj⟩
  have hregistered : ∀ {fd j}, s'.Registered fd j → j ≠ i → s.Registered fd j := by
    rintro fd j ⟨hj, hmem⟩ hne
    rw [hconnections, update_of_ne hne] at hmem
    exact ⟨henabled hj hne, hmem⟩
  have hself : ∀ {fd}, s'.Registered fd i → c.disabled = false ∧ fd ∈ c.sockets := by
    rintro fd ⟨⟨-, hj⟩, hmem⟩
    rw [hconnections, update_self] at hj hmem
    exact ⟨hj, hmem⟩
  constructor
  · intro j hj
    rcases eq_or_ne j i with rfl | hne
    · have hdisabled := hj.2
      rw [hconnections, update_self] at hdisabled ⊢
      exact hnodup hdisabled
    · rw [hconnections, update_of_ne hne]
      exact h.nodup (henabled hj hne)
  · intro fd j k hj hk
    rcases eq_or_ne j i with rfl | hji
    · rcases eq_or_ne k j with rfl | hkj
      · rfl
      · have hself := hself hj
        exact (hsockets hself.1 fd hself.2 k (hregistered hk hkj)).symm
    · rcases eq_or_ne k i with rfl | hki
      · have hself := hself hk
        exact hsockets hself.1 fd hself.2 j (hregistered hj hji)
      · exact h.eq (hregistered hj hji) (hregistered hk hki)

/-! ### Registering -/

variable {socket : ℤ}

theorem Unique.setServerSocket (h : s.Unique) (hnew : s.serverSocketExists socket = false)
    (hset : s.setConnection p (·.addServerSocket socket) = some r) : r.1.Unique := by
  have hnone : ∀ j, ¬s.Registered socket j := by
    intro j hj
    rw [serverSocketExists_iff.2 ⟨j, hj⟩] at hnew
    cases hnew
  rcases setConnection_eq_some hset with heq | ⟨i, c, hfind, hc, heq⟩
  · rwa [heq]
  · rcases of_find?_eq_some hfind with ⟨hlt, henabled, -⟩
    have hi : s.Enabled i := ⟨hlt, henabled⟩
    have hmem : socket ∉ (s.connections i).sockets := fun hmem => hnone i ⟨hi, hmem⟩
    rcases addServerSocket_of_notMem hmem with ⟨-, c', hc', hsockets, -⟩ | ⟨-, hfull⟩
    · obtain rfl := some.inj (hc.symm.trans hc')
      rw [heq]
      refine h.update (fun _ => ?_) (fun _ fd hfd j hj => ?_) (fun _ hj _ => hj) rfl
      · rw [hsockets]
        exact (h.nodup hi).append (nodup_singleton _) (by simpa using hmem)
      · rw [hsockets, mem_append, mem_singleton] at hfd
        rcases hfd with hfd | rfl
        · exact h.eq hj ⟨hi, hfd⟩
        · exact absurd hj (hnone j)
    · rw [hc] at hfull
      cases hfull

theorem Unique.setClientSocket (h : s.Unique)
    (hset : s.setConnection p (·.addClientSocket socket) = some r) : r.1.Unique := by
  rcases setConnection_eq_some hset with heq | ⟨i, c, hfind, hc, heq⟩
  · rwa [heq]
  · rcases of_find?_eq_some hfind with ⟨hlt, henabled, -⟩
    have hi : s.Enabled i := ⟨hlt, henabled⟩
    have hsockets : c.sockets = (s.connections i).sockets := by
      unfold addClientSocket at hc
      split at hc
      · rw [some.inj hc]
      · rcases ite_none_right_eq_some.1 hc with ⟨-, hc⟩
        rw [← some.inj hc]
        rfl
    rw [heq]
    refine h.update (fun _ => ?_) (fun _ fd hfd j hj => ?_) (fun _ hj _ => hj) rfl
    · rw [hsockets]
      exact h.nodup hi
    · rw [hsockets] at hfd
      exact h.eq hj ⟨hi, hfd⟩

theorem lt_of_lt_add_one {n : UInt8} (hj : j < (n + 1).toNat) (hne : j ≠ n.toNat) :
    j < n.toNat := by
  have hle : (n + 1).toNat ≤ n.toNat + 1 := by
    exact Nat.mod_le _ _
  omega

theorem Unique.openConnection (h : s.Unique) (init : Interfaces → Interfaces) :
    (s.openConnection init).Unique := by
  unfold SocketCache.openConnection
  split
  · exact ⟨h.nodup, h.eq⟩
  · refine h.update (i := s.activeConnections.toNat) (fun _ => ?_) (fun _ fd hfd => ?_) ?_ rfl
    · exact nodup_nil
    · cases hfd
    · -- all other connections in use were in use before
      exact fun j hj hne => lt_of_lt_add_one hj hne

/-! ### Closing -/

/-- Close `fd` in connection `i` only. -/
def closeAt (s : SocketCache) (fd : ℤ) (i : ℕ) : SocketCache :=
  let c := ((s.connections i).closeServerSocket fd).1
  if c.serverSocketsNum = 0 then
    { s with
      activeConNum := s.activeConNum - 1
      connections := update s.connections i { c with disabled := true } }
  else { s with connections := update s.connections i c }

variable {is : List ℕ}

theorem disableLoop_cons_of_notMem
    (h : (s.connections j).disabled = false → fd ∉ (s.connections j).sockets) :
    disableLoop fd (j :: is) s = disableLoop fd is s := by
  rw [disableLoop]
  split
  · rfl
  case isFalse henabled =>
    rw [closeServerSocket_of_notMem (h (Bool.eq_false_iff.2 henabled))]
    dsimp only
    rw [update_eq_self]
    rfl

theorem disableLoop_of_notMem
    (h : ∀ j ∈ is, (s.connections j).disabled = false → fd ∉ (s.connections j).sockets) :
    disableLoop fd is s = s := by
  induction is with
  | nil => rfl
  | cons j is ih =>
    rw [forall_mem_cons] at h
    rw [disableLoop_cons_of_notMem h.1, ih h.2]

/-- The loop closes `fd` in the only connection that has it. -/
theorem disableLoop_eq_closeAt (hnodup : is.Nodup) (hi : i ∈ is)
    (henabled : (s.connections i).disabled = false) (hsockets : (s.connections i).sockets.Nodup)
    (hmem : fd ∈ (s.connections i).sockets)
    (hother : ∀ j ∈ is, j ≠ i → (s.connections j).disabled = false →
      fd ∉ (s.connections j).sockets) : disableLoop fd is s = s.closeAt fd i := by
  induction is with
  | nil => cases hi
  | cons j is ih =>
    rw [nodup_cons] at hnodup
    rw [forall_mem_cons] at hother
    by_cases hji : j = i
    · subst hji
      rcases closeServerSocket_of_mem hsockets hmem with ⟨c, hclose, -⟩
      rw [disableLoop, if_neg (Bool.eq_false_iff.1 henabled), closeAt, hclose]
      dsimp only
      rw [Bool.true_and]
      by_cases hzero : c.serverSocketsNum = 0
      · rw [if_pos (beq_iff_eq.2 hzero), if_pos hzero]
      · rw [if_neg (fun h => hzero (beq_iff_eq.1 h)), if_neg hzero]
        apply disableLoop_of_notMem
        intro k hk
        have hne : k ≠ j := ne_of_mem_of_not_mem hk hnodup.1
        dsimp only
        rw [update_of_ne hne]
        exact hother.2 k hk hne
    · rw [disableLoop_cons_of_notMem (hother.1 hji)]
      exact ih hnodup.2 (mem_of_ne_of_mem (Ne.symm hji) hi) hother.2

/-- **Closing a descriptor changes the connection with which it is registered**, and no other. -/
theorem Unique.disableConnectionByServerSocket_eq (h : s.Unique) (hi : s.Registered fd i) :
    s.disableConnectionByServerSocket fd = s.closeAt fd i := by
  refine disableLoop_eq_closeAt nodup_range (mem_range.2 hi.1.1) hi.1.2 (h.nodup hi.1)
    hi.2 fun j hj hne henabled hmem => hne ?_
  exact h.eq ⟨⟨mem_range.1 hj, henabled⟩, hmem⟩ hi

theorem disableConnectionByServerSocket_of_not_exists (h : ∀ i, ¬s.Registered fd i) :
    s.disableConnectionByServerSocket fd = s :=
  disableLoop_of_notMem fun j hj henabled hmem => h j ⟨⟨mem_range.1 hj, henabled⟩, hmem⟩

theorem closeAt_self (hnodup : (s.connections i).sockets.Nodup)
    (hmem : fd ∈ (s.connections i).sockets) (henabled : (s.connections i).disabled = false) :
    ((s.closeAt fd i).connections i).sockets = (s.connections i).sockets.erase fd ∧
      ((s.closeAt fd i).connections i).port = (s.connections i).port ∧
      (((s.closeAt fd i).connections i).disabled = true ↔
        (s.connections i).sockets.erase fd = []) := by
  rcases closeServerSocket_of_mem hnodup hmem with ⟨c, hclose, hsockets, hport, -, hdis⟩
  rw [closeAt, hclose]
  by_cases hzero : c.serverSocketsNum = 0
  · rw [if_pos hzero]
    dsimp only
    rw [update_self, ← hsockets]
    exact ⟨rfl, hport, iff_of_true rfl (serverSocketsNum_eq_zero_iff.1 hzero)⟩
  · rw [if_neg hzero]
    dsimp only
    rw [update_self, ← hsockets, ← serverSocketsNum_eq_zero_iff, hdis, henabled]
    exact ⟨rfl, hport, iff_of_false Bool.false_ne_true hzero⟩

theorem closeAt_of_ne (hne : j ≠ i) : (s.closeAt fd i).connections j = s.connections j := by
  rw [closeAt]
  split
  · exact update_of_ne hne _ _
  · exact update_of_ne hne _ _

theorem activeConnections_closeAt (s : SocketCache) (fd : ℤ) (i : ℕ) :
    (s.closeAt fd i).activeConnections = s.activeConnections := by
  rw [closeAt]
  split
  · rfl
  · rfl

theorem Unique.closeAt (h : s.Unique) (hi : s.Registered fd i) : (s.closeAt fd i).Unique := by
  have hself := closeAt_self (h.nodup hi.1) hi.2 hi.1.2
  have hconnections : (s.closeAt fd i).connections =
      Function.update s.connections i ((s.closeAt fd i).connections i) := by
    funext j
    rcases eq_or_ne j i with rfl | hne
    · rw [update_self]
    · rw [update_of_ne hne, closeAt_of_ne hne]
  refine h.update (fun _ => ?_) (fun _ fd' hfd' j hj => ?_) (fun j hj _ => ?_) hconnections
  · rw [hself.1]
    exact (h.nodup hi.1).erase fd
  · rw [hself.1] at hfd'
    exact h.eq hj ⟨hi.1, mem_of_mem_erase hfd'⟩
  · rwa [activeConnections_closeAt] at hj

theorem Unique.disableConnectionByServerSocket (h : s.Unique) (fd : ℤ) :
    (s.disableConnectionByServerSocket fd).Unique := by
  by_cases hi : ∃ i, s.Registered fd i
  · rcases hi with ⟨i, hi⟩
    rw [h.disableConnectionByServerSocket_eq hi]
    exact h.closeAt hi
  · rw [disableConnectionByServerSocket_of_not_exists (not_exists.1 hi)]
    exact h

/-! ## The number of connections in use -/

/-- The connections in use. -/
def inUse (s : SocketCache) : Finset ℕ :=
  (Finset.range s.activeConnections.toNat).filter fun i => (s.connections i).disabled = false

theorem mem_inUse : i ∈ s.inUse ↔ s.Enabled i := by
  rw [inUse, Finset.mem_filter, Finset.mem_range]
  rfl

/-- The counter counts the connections in use. -/
structure Counts (s : SocketCache) : Prop where
  activeConNum : s.activeConNum.toNat = s.inUse.card
  unused : ∀ i, s.activeConnections.toNat ≤ i → (s.connections i).disabled = false

theorem counts_start : start.Counts := ⟨rfl, fun _ _ => rfl⟩

theorem Counts.of_disabled_eq (h : s.Counts) (hactive : s'.activeConnections = s.activeConnections)
    (hnum : s'.activeConNum = s.activeConNum)
    (hdisabled : ∀ i, (s'.connections i).disabled = (s.connections i).disabled) : s'.Counts := by
  have hinUse : s'.inUse = s.inUse := by
    simp [inUse, hactive, hdisabled]
  refine ⟨?_, fun i hi => ?_⟩
  · rw [hnum, hinUse]
    exact h.activeConNum
  · rw [hdisabled]
    exact h.unused i (hactive ▸ hi)

theorem Counts.setServerSocket (h : s.Counts)
    (hset : s.setConnection p (·.addServerSocket socket) = some r) : r.1.Counts := by
  rcases setConnection_eq_some hset with heq | ⟨i, c, -, hc, heq⟩
  · rwa [heq]
  · rw [heq]
    refine h.of_disabled_eq rfl rfl fun j => ?_
    have hsame : c.disabled = (s.connections i).disabled := by
      unfold addServerSocket at hc
      split at hc
      · rw [some.inj hc]
      · rcases ite_none_right_eq_some.1 hc with ⟨-, hc⟩
        rw [← some.inj hc]
    dsimp only
    rcases eq_or_ne j i with rfl | hne
    · rw [update_self, hsame]
    · rw [update_of_ne hne]

/-- A connection more. -/
theorem Counts.insert (h : s.Counts) (hc : c.disabled = false)
    (hactive : s'.activeConnections.toNat = s.activeConnections.toNat + 1)
    (hnum : s'.activeConNum.toNat = s.activeConNum.toNat + 1)
    (hconnections : s'.connections = update s.connections s.activeConnections.toNat c) :
    s'.Counts := by
  have hinUse : s'.inUse = Insert.insert s.activeConnections.toNat s.inUse := by
    ext i
    rw [mem_inUse, Finset.mem_insert, mem_inUse, Enabled, Enabled, hactive, hconnections]
    rcases eq_or_ne i s.activeConnections.toNat with rfl | hne
    · rw [update_self]
      exact iff_of_true ⟨Nat.lt_succ_self _, hc⟩ (Or.inl rfl)
    · rw [update_of_ne hne]
      constructor
      · rintro ⟨hlt, henabled⟩
        exact Or.inr ⟨by omega, henabled⟩
      · rintro (rfl | ⟨hlt, henabled⟩)
        · exact absurd rfl hne
        · exact ⟨by omega, henabled⟩
  refine ⟨?_, fun i hi => ?_⟩
  · have hnot : s.activeConnections.toNat ∉ s.inUse := by
      rw [mem_inUse]
      exact fun henabled => lt_irrefl _ henabled.1
    rw [hinUse, Finset.card_insert_of_notMem hnot, ← h.activeConNum, hnum]
  · rw [hconnections, update_of_ne (by omega)]
    exact h.unused i (by omega)

/-- A connection less. -/
theorem Counts.erase (h : s.Counts) (hi : s.Enabled i) (hc : c.disabled = true)
    (hactive : s'.activeConnections = s.activeConnections)
    (hnum : s'.activeConNum = s.activeConNum - 1)
    (hconnections : s'.connections = update s.connections i c) : s'.Counts := by
  have hinUse : s'.inUse = s.inUse.erase i := by
    ext j
    rw [mem_inUse, Finset.mem_erase, mem_inUse, Enabled, Enabled, hactive, hconnections]
    rcases eq_or_ne j i with rfl | hne
    · rw [update_self, hc]
      exact iff_of_false (fun h => Bool.false_ne_true h.2.symm) fun h => h.1 rfl
    · rw [update_of_ne hne]
      exact (and_iff_right hne).symm
  refine ⟨?_, fun j hj => ?_⟩
  · have hle : (1 : UInt8) ≤ s.activeConNum := by
      rw [UInt8.le_iff_toNat_le, h.activeConNum]
      exact Finset.card_pos.2 ⟨i, mem_inUse.2 hi⟩
    rw [hinUse, Finset.card_erase_of_mem (mem_inUse.2 hi), ← h.activeConNum, hnum]
    exact UInt8.toNat_sub_of_le _ _ hle
  · rw [hactive] at hj
    rw [hconnections, update_of_ne (ne_of_gt (lt_of_lt_of_le hi.1 hj))]
    exact h.unused j hj

theorem Counts.openConnection (h : s.Counts) (hroom : s.activeConnections.toNat < 16)
    (hinit : ∀ c, (init c).disabled = c.disabled) :
    (s.openConnection init).Counts ∧ (s.openConnection init).released = s.released := by
  have hle : s.inUse.card ≤ s.activeConnections.toNat := by
    have hcard := Finset.card_filter_le (Finset.range s.activeConnections.toNat)
      fun i => (s.connections i).disabled = false
    rwa [Finset.card_range] at hcard
  have hguard : ¬maxConnections ≤ s.activeConNum := by
    rw [UInt8.le_iff_toNat_le, h.activeConNum]
    exact not_le.2 (lt_of_le_of_lt hle hroom)
  have hnew : (init (s.connections s.activeConnections.toNat)).disabled = false := by
    rw [hinit]
    exact h.unused _ (le_refl _)
  rw [SocketCache.openConnection, if_neg hguard]
  refine ⟨h.insert ?_ ?_ ?_ rfl, rfl⟩
  · exact hnew
  · rw [UInt8.toNat_add, UInt8.toNat_one]
    omega
  · rw [UInt8.toNat_add, UInt8.toNat_one, h.activeConNum]
    omega

theorem Counts.closeAt (h : s.Counts) (hunique : s.Unique) (hi : s.Registered fd i) :
    (s.closeAt fd i).Counts := by
  rcases Interfaces.closeServerSocket_of_mem (hunique.nodup hi.1) hi.2 with
    ⟨c, hclose, -, -, -, hdisabled⟩
  rw [SocketCache.closeAt, hclose]
  split
  · exact h.erase hi.1 rfl rfl rfl rfl
  · refine h.of_disabled_eq rfl rfl fun j => ?_
    dsimp only
    rcases eq_or_ne j i with rfl | hne
    · rw [update_self, hdisabled]
    · rw [update_of_ne hne]

end SocketCache

/-! ## Calls of the registry -/

/-- The calls that change the registry. -/
inductive RegistryCall
  | addConnection (port : UInt16)
  | addConnectionCan
  | setServerSocketToConnection (port : UInt16) (socket : ℤ)
  | setServerSocketToConnectionCan (socket : ℤ)
  | dup (oldfd ret : ℤ)
  | close (fd : ℤ)

namespace RegistryCall

/-- The call may open a connection. -/
def isAdd : RegistryCall → Bool
  | .addConnection _ | .addConnectionCan => true
  | _ => false

/-- The descriptor that is registered is not registered yet. -/
def IsNew (s : SocketCache) : RegistryCall → Prop
  | .setServerSocketToConnection _ socket | .setServerSocketToConnectionCan socket =>
    s.serverSocketExists socket = false
  | .dup oldfd ret =>
    s.serverSocketExists oldfd = true ∧ ret ≠ -1 → s.serverSocketExists ret = false
  | _ => True

instance (s : SocketCache) : ∀ call, Decidable (IsNew s call)
  | .setServerSocketToConnection _ socket | .setServerSocketToConnectionCan socket =>
    inferInstanceAs (Decidable (s.serverSocketExists socket = false))
  | .dup oldfd ret => inferInstanceAs (Decidable
      (s.serverSocketExists oldfd = true ∧ ret ≠ -1 → s.serverSocketExists ret = false))
  | .addConnection _ | .addConnectionCan | .close _ => isTrue trivial

end RegistryCall

namespace SocketCache

variable {s s' : SocketCache} {fd : ℤ} {i : ℕ} {call : RegistryCall} {calls : List RegistryCall}

/-- One call; `none` when the run has ended or an assertion fails. -/
def registryStep (self : SocketCache) (call : RegistryCall) : Option SocketCache :=
  if self.released then none
  else
    match call with
    | .addConnection port => self.addConnection port
    | .addConnectionCan => self.addConnectionCan
    | .setServerSocketToConnection port socket =>
      (self.setServerSocketToConnection port socket).map Prod.fst
    | .setServerSocketToConnectionCan socket =>
      (self.setServerSocketToConnectionCan socket).map Prod.fst
    | .dup oldfd ret => self.dup oldfd ret
    | .close fd => some (self.close fd)

/-- **The bookkeeping**: the counter is the number of the connections in use, and a descriptor is
registered with one of them at most, once. -/
structure Consistent (s : SocketCache) : Prop where
  counts : s.Counts
  unique : s.Unique

theorem Consistent.openConnection (h : s.Consistent) (hroom : s.activeConnections.toNat < 16)
    (hinit : ∀ c, (init c).disabled = c.disabled) : (s.openConnection init).Consistent :=
  ⟨(h.counts.openConnection hroom hinit).1, h.unique.openConnection init⟩

theorem Consistent.setServerSocket (h : s.Consistent) {socket : ℤ}
    (hnew : s.serverSocketExists socket = false)
    (hset : s.setConnection p (·.addServerSocket socket) = some r) : r.1.Consistent :=
  ⟨h.counts.setServerSocket hset, h.unique.setServerSocket hnew hset⟩

theorem Consistent.disableConnectionByServerSocket (h : s.Consistent) (fd : ℤ) :
    (s.disableConnectionByServerSocket fd).Consistent := by
  by_cases hi : ∃ i, s.Registered fd i
  · rcases hi with ⟨i, hi⟩
    rw [h.unique.disableConnectionByServerSocket_eq hi]
    exact ⟨h.counts.closeAt h.unique hi, h.unique.closeAt hi⟩
  · rw [disableConnectionByServerSocket_of_not_exists (not_exists.1 hi)]
    exact h

theorem Consistent.dup (h : s.Consistent) {oldfd ret : ℤ}
    (hnew : (RegistryCall.dup oldfd ret).IsNew s) (hdup : s.dup oldfd ret = some s') :
    s'.Consistent := by
  unfold SocketCache.dup at hdup
  split at hdup
  case isTrue hold =>
    rcases bind_eq_some_iff.1 hdup with ⟨port, -, hbind⟩
    rcases map_eq_some_iff.1 hbind with ⟨r, hset, rfl⟩
    exact h.setServerSocket (hnew hold) hset
  case isFalse =>
    obtain rfl := some.inj hdup
    exact h

theorem Consistent.close (h : s.Consistent) (fd : ℤ) : (s.close fd).Consistent := by
  have hdisable := h.disableConnectionByServerSocket fd
  unfold SocketCache.close
  split
  · dsimp only
    split
    · exact ⟨⟨hdisable.counts.activeConNum, hdisable.counts.unused⟩,
        ⟨hdisable.unique.nodup, hdisable.unique.eq⟩⟩
    · exact hdisable
  · exact h

/-- **Every call keeps the bookkeeping.** -/
theorem Consistent.registryStep (h : s.Consistent) (hnew : call.IsNew s)
    (hroom : call.isAdd = true → s.activeConnections.toNat < 16)
    (hstep : s.registryStep call = some s') : s'.Consistent := by
  rcases ite_none_left_eq_some.1 hstep with ⟨-, hstep⟩
  cases call with
  | addConnection port =>
    rw [(addConnection_eq_some hstep).2]
    exact h.openConnection (hroom rfl) fun _ => rfl
  | addConnectionCan =>
    rw [(addConnectionCan_eq_some hstep).2]
    exact h.openConnection (hroom rfl) fun _ => rfl
  | setServerSocketToConnection port socket =>
    rcases map_eq_some_iff.1 hstep with ⟨r, hset, rfl⟩
    exact h.setServerSocket hnew hset
  | setServerSocketToConnectionCan socket =>
    rcases map_eq_some_iff.1 hstep with ⟨r, hset, rfl⟩
    exact h.setServerSocket hnew hset
  | dup oldfd ret => exact h.dup hnew hstep
  | close fd =>
    rw [← some.inj hstep]
    exact h.close fd

theorem activeConnections_registryStep (hstep : s.registryStep call = some s') :
    s'.activeConnections.toNat ≤ s.activeConnections.toNat + if call.isAdd then 1 else 0 := by
  have hopen : ∀ init, (s.openConnection init).activeConnections.toNat ≤
      s.activeConnections.toNat + 1 := by
    intro init
    rw [activeConnections_openConnection]
    split
    · rw [UInt8.toNat_add, UInt8.toNat_one]
      exact Nat.mod_le _ _
    · exact Nat.le_succ _
  rcases ite_none_left_eq_some.1 hstep with ⟨-, hstep⟩
  cases call with
  | addConnection port =>
    rw [(addConnection_eq_some hstep).2]
    exact hopen _
  | addConnectionCan =>
    rw [(addConnectionCan_eq_some hstep).2]
    exact hopen _
  | setServerSocketToConnection port socket =>
    rcases map_eq_some_iff.1 hstep with ⟨r, hset, rfl⟩
    rw [activeConnections_setConnection hset]
    exact le_refl _
  | setServerSocketToConnectionCan socket =>
    rcases map_eq_some_iff.1 hstep with ⟨r, hset, rfl⟩
    rw [activeConnections_setConnection hset]
    exact le_refl _
  | dup oldfd ret =>
    rw [activeConnections_dup hstep]
    exact le_refl _
  | close fd =>
    rw [← some.inj hstep, activeConnections_close]
    exact le_refl _

/-- Sixteen connections at most: every call finds room. -/
theorem eachStep_room (h : s.activeConnections.toNat + calls.countP (·.isAdd) ≤ 16) :
    EachStep registryStep (fun s call => call.isAdd = true → s.activeConnections.toNat < 16) s
      calls := by
  induction calls generalizing s with
  | nil => trivial
  | cons call calls ih =>
    rw [countP_cons] at h
    refine ⟨fun hadd => ?_, fun s' hstep => ih ?_⟩
    · rw [if_pos hadd] at h
      omega
    · have hle := activeConnections_registryStep hstep
      omega

/-- Closing takes a descriptor from its connection, leaves the others, and ends the run if and only
if no connection is left. -/
structure Closes (s s' : SocketCache) (fd : ℤ) (i : ℕ) : Prop where
  sockets : (s'.connections i).sockets = (s.connections i).sockets.erase fd
  others : ∀ j, j ≠ i → s'.connections j = s.connections j
  active : s'.activeConnections = s.activeConnections
  released : s'.released = true ↔ ∀ j, ¬s'.Enabled j

theorem Consistent.closes (h : s.Consistent) (hreleased : s.released = false)
    (hi : s.Registered fd i) : s.Closes (s.close fd) fd i := by
  have hdisable := h.disableConnectionByServerSocket fd
  have heq := h.unique.disableConnectionByServerSocket_eq hi
  have hzero : (s.closeAt fd i).activeConNum = 0 ↔ ∀ j, ¬(s.closeAt fd i).Enabled j := by
    rw [heq] at hdisable
    rw [← UInt8.toNat_inj, hdisable.counts.activeConNum, UInt8.toNat_zero, Finset.card_eq_zero,
      Finset.eq_empty_iff_forall_notMem]
    simp [mem_inUse]
  have hkeep : (s.closeAt fd i).released = false := by
    rw [closeAt]
    split
    · exact hreleased
    · exact hreleased
  have hself := (closeAt_self (h.unique.nodup hi.1) hi.2 hi.1.2).1
  rw [SocketCache.close, if_pos (serverSocketExists_iff.2 ⟨i, hi⟩), heq]
  by_cases hlast : (s.closeAt fd i).activeConNum = 0
  · rw [if_pos hlast]
    exact ⟨hself, fun j hne => closeAt_of_ne hne, activeConnections_closeAt s fd i,
      iff_of_true rfl (hzero.1 hlast)⟩
  · rw [if_neg hlast]
    refine ⟨hself, fun j hne => closeAt_of_ne hne, activeConnections_closeAt s fd i, ?_⟩
    rw [hkeep, ← hzero]
    exact iff_of_false Bool.false_ne_true hlast

end SocketCache

open SocketCache

/-- **The registry of the sockets is consistent** after every sequence of calls. -/
theorem registry_consistent {calls : List RegistryCall} {s : SocketCache}
    (hadds : calls.countP (·.isAdd) ≤ maxConnections.toNat)
    (hnew : EachStep registryStep RegistryCall.IsNew start calls)
    (hrun : exec registryStep start calls = some s) :
    s.activeConNum.toNat = s.inUse.card ∧ s.Unique ∧
      (s.released = false → ∀ fd i, s.Registered fd i → s.Closes (s.close fd) fd i) := by
  have hroom : EachStep registryStep
      (fun s call => call.isAdd = true → s.activeConnections.toNat < 16) start calls :=
    eachStep_room ((Nat.zero_add _).trans_le hadds)
  have hconsistent : s.Consistent :=
    exec_invariant_of_eachStep (fun _ _ _ h hp hs => h.registryStep hp.1 hp.2 hs)
      (hnew.and hroom) ⟨counts_start, unique_start⟩ hrun
  exact ⟨hconsistent.counts.activeConNum, hconsistent.unique,
    fun hreleased _ _ hi => hconsistent.closes hreleased hi⟩

def bindDupClose : List RegistryCall :=
  [.addConnectionCan, .setServerSocketToConnectionCan 3, .dup 3 4, .dup 4 5, .close 4]

theorem registry_consistent_bindDupClose :
    ∃ s, exec registryStep start bindDupClose = some s ∧ (s.connections 0).sockets = [3, 5] ∧
      s.activeConNum.toNat = s.inUse.card ∧ s.Unique ∧
        (s.released = false → ∀ fd i, s.Registered fd i → s.Closes (s.close fd) fd i) := by
  have hadds : bindDupClose.countP (·.isAdd) ≤ maxConnections.toNat := by decide
  have hnew : EachStep registryStep RegistryCall.IsNew start bindDupClose := by decide
  exact ⟨_, rfl, by decide, registry_consistent hadds hnew rfl⟩

end FuzzSocketCan
