import FuzzSocketCan.Harness.SocketCache

/-! # The counters of the socket cache

A connection has room for 8 server and 8 client sockets, and there are 16 connections.

* **`socketCache_inBounds`** — `close_server_socket` decrements the number of client sockets too,
  and there may be none: the counter wraps around to 255 (`client_counter_wraps`). It stays in
  bounds as long as every server socket that is closed belongs to a connection with a client.
* **`activeConnections_le_iff`** — the guard of `add_connection` tests the connections in use, but
  the index is the number of those ever opened: the table is left with the 17th one
  (`connections_table_left`). -/

namespace FuzzSocketCan

open Lib List Option Function SocketCache

namespace Interfaces

variable {c c' : Interfaces} {socket : ℤ}

def Counts (c : Interfaces) : Prop := c.serverSocketsNum ≤ 8 ∧ c.clientSocketsNum ≤ 1

theorem counts_unused : unused.Counts := by
  constructor <;> decide

theorem Counts.addServerSocket (h : c.Counts) (hadd : c.addServerSocket socket = some c') :
    c'.Counts := by
  unfold Interfaces.addServerSocket at hadd
  split at hadd
  · cases hadd
    exact h
  split at hadd
  case isTrue hlt =>
    cases hadd
    refine ⟨?_, h.2⟩
    grind
  case isFalse => cases hadd

theorem Counts.addClientSocket (h : c.Counts) (hzero : c.clientSocketsNum = 0)
    (hadd : c.addClientSocket socket = some c') : c'.Counts := by
  unfold Interfaces.addClientSocket at hadd
  split at hadd
  · cases hadd
    exact h
  split at hadd
  · cases hadd
    refine ⟨h.1, ?_⟩
    dsimp only
    rw [hzero]
    decide
  · cases hadd

theorem serverSocketsNum_ne_zero (h : c.checkServerSocket socket = true) :
    c.serverSocketsNum ≠ 0 := by
  intro hzero
  rw [checkServerSocket, hzero] at h
  cases h

theorem Counts.closeServerSocket (h : c.Counts)
    (hclient : c.checkServerSocket socket = true → c.clientSocketsNum ≠ 0) :
    (c.closeServerSocket socket).1.Counts := by
  unfold Interfaces.closeServerSocket
  split
  case isTrue hcheck =>
    have hserver := serverSocketsNum_ne_zero hcheck
    dsimp only
    split
    · obtain ⟨h8, h1⟩ := h
      constructor
      · dsimp only
        grind
      · dsimp only
        grind
    · exact h
  case isFalse => exact h

end Interfaces

variable {p : Interfaces → Bool} {f : Interfaces → Option Interfaces} {r : SocketCache × Bool}
  {client : Option ℤ} {sockfd ret oldfd : ℤ} {isCan : Bool}

namespace SocketCache

variable {s s' : SocketCache} {nyxNetPort : UInt16} {call : SocketCall}

/-! ## The table -/

variable {i : ℕ}

theorem of_find?_eq_some (h : s.find? p = some i) :
    i < s.activeConnections.toNat ∧ (s.connections i).disabled = false ∧
      p (s.connections i) = true := by
  have hmem := mem_range.1 (mem_of_find?_eq_some h)
  have hp := find?_some h
  rw [Bool.and_eq_true, Bool.not_eq_true'] at hp
  exact ⟨hmem, hp⟩

theorem find?_isSome_of (hi : i < s.activeConnections.toNat)
    (henabled : (s.connections i).disabled = false) (hp : p (s.connections i) = true) :
    (s.find? p).isSome = true :=
  List.find?_isSome.2 ⟨i, mem_range.2 hi, by rw [henabled, hp]; rfl⟩

theorem setConnection_eq_some (h : s.setConnection p f = some r) :
    r.1 = s ∨ ∃ i c, s.find? p = some i ∧ f (s.connections i) = some c ∧
      r.1 = { s with connections := update s.connections i c } := by
  unfold setConnection at h
  split at h
  case h_1 i hfind =>
    obtain ⟨c, hc, rfl⟩ := map_eq_some_iff.1 h
    exact .inr ⟨i, c, hfind, hc, rfl⟩
  case h_2 =>
    cases h
    exact .inl rfl

theorem asserted_eq_some {r : Option (SocketCache × Bool)} (h : asserted r = some s) :
    ∃ r', r = some r' ∧ r'.1 = s := by
  obtain ⟨⟨s', ok⟩, hr, h⟩ := bind_eq_some_iff.1 h
  obtain ⟨-, h⟩ := ite_none_right_eq_some.1 h
  exact ⟨_, hr, some.inj h⟩

variable {port : UInt16}

theorem addConnection_eq_some (h : s.addConnection port = some s') :
    s.connectionExists port = false ∧ s' = s.openConnection ({ · with port := port }) := by
  obtain ⟨hnew, h⟩ := ite_none_left_eq_some.1 h
  exact ⟨Bool.not_eq_true _ ▸ hnew, (some.inj h).symm⟩

theorem addConnectionCan_eq_some (h : s.addConnectionCan = some s') :
    s.connectionExistsCan = false ∧ s' = s.openConnection ({ · with isCan := true }) := by
  obtain ⟨hnew, h⟩ := ite_none_left_eq_some.1 h
  exact ⟨Bool.not_eq_true _ ▸ hnew, (some.inj h).symm⟩

theorem listen_cases {port : Option UInt16} (h : s.listen nyxNetPort port client = some s') :
    (s' = s ∧ ∀ p, port = some p → s.connectionExists p = true ∨ p ≠ nyxNetPort) ∨
      ∃ p s1, port = some p ∧ p = nyxNetPort ∧ s.addConnection p = some s1 ∧
        (s' = s1 ∨ s1.released = false ∧
          ∃ socket r, s1.setClientSocketToConnection p socket = some r ∧ r.1 = s') := by
  cases port with
  | none =>
    cases h
    exact .inl ⟨rfl, by rintro p ⟨⟩⟩
  | some p =>
    unfold listen at h
    dsimp only at h
    split at h
    case isTrue hskip =>
      cases h
      refine .inl ⟨rfl, ?_⟩
      rintro q ⟨⟩
      simpa using hskip
    case isFalse hnew =>
      have hport : p = nyxNetPort := by
        by_contra hne
        exact hnew (by simp [hne])
      obtain ⟨s1, hopen, h⟩ := bind_eq_some_iff.1 h
      refine .inr ⟨p, s1, rfl, hport, hopen, ?_⟩
      split at h
      · cases h
        exact .inl rfl
      case isFalse hreleased =>
        rw [connectToServer, if_neg (not_not.2 hport)] at h
        obtain ⟨socket, -, hassert⟩ := bind_eq_some_iff.1 h
        obtain ⟨r, hset, hr⟩ := asserted_eq_some hassert
        exact .inr ⟨Bool.not_eq_true _ ▸ hreleased, socket, r, hset, hr⟩

theorem bind_cases (h : s.bind sockfd ret isCan = some s') :
    (s' = s ∧ isCan = false) ∨
      ∃ s1, isCan = true ∧ (s.connectionExistsCan = true ∧ s1 = s ∨ s.addConnectionCan = some s1) ∧
        (s' = s1 ∨ ∃ r, s1.setServerSocketToConnectionCan sockfd = some r ∧ r.1 = s') := by
  cases isCan with
  | false =>
    cases h
    exact .inl ⟨rfl, rfl⟩
  | true =>
    obtain ⟨s1, hopen, h⟩ := bind_eq_some_iff.1 h
    refine .inr ⟨s1, rfl, ?_, ?_⟩
    · split at hopen
      case isTrue hexists =>
        cases hopen
        exact .inl ⟨hexists, rfl⟩
      case isFalse => exact .inr hopen
    · split at h
      · exact .inr (map_eq_some_iff.1 h)
      · cases h
        exact .inl rfl

/-! ## The sockets of a connection -/

def Counted (s : SocketCache) : Prop := ∀ i, (s.connections i).Counts

theorem counted_start : start.Counted := fun _ => Interfaces.counts_unused

theorem Counted.update (h : s.Counted) {c : Interfaces} (hc : c.Counts) (j : ℕ) :
    (update s.connections i c j).Counts := by
  rcases eq_or_ne j i with rfl | hne
  · rwa [update_self]
  · rw [update_of_ne hne]
    exact h j

variable {socket : ℤ}

theorem Counted.setServerSocket (h : s.Counted)
    (hset : s.setConnection p (·.addServerSocket socket) = some r) : r.1.Counted := by
  rcases setConnection_eq_some hset with heq | ⟨i, c, -, hc, heq⟩
  · rwa [heq]
  · rw [heq]
    exact h.update ((h i).addServerSocket hc)

theorem Counted.openConnection (h : s.Counted) (init : Interfaces → Interfaces) :
    (s.openConnection init).Counted := by
  unfold SocketCache.openConnection
  split
  · exact h
  · exact h.update ⟨by simp, by simp⟩

theorem clientSocketsNum_of_find? (hopen : s.addConnection port = some s')
    (hreleased : s'.released = false) (hfind : s'.find? (·.port == port) = some i) :
    (s'.connections i).clientSocketsNum = 0 := by
  obtain ⟨hi, henabled, hport⟩ := of_find?_eq_some hfind
  obtain ⟨hnew, rfl⟩ := addConnection_eq_some hopen
  by_cases hfull : maxConnections ≤ s.activeConNum
  · rw [openConnection, if_pos hfull] at hreleased
    cases hreleased
  rw [openConnection, if_neg hfull] at hi henabled hport ⊢
  dsimp only at hi henabled hport ⊢
  rcases eq_or_ne i s.activeConnections.toNat with rfl | hne
  · rw [update_self]
  · -- any other one was there before
    rw [update_of_ne hne] at henabled hport
    have hlt : i < s.activeConnections.toNat := by
      rw [UInt8.toNat_add, UInt8.toNat_one] at hi
      omega
    have hexists := find?_isSome_of (p := (·.port == port)) hlt henabled hport
    rw [← connectionExists, hnew] at hexists
    cases hexists

theorem Counted.addConnection (h : s.Counted) (hopen : s.addConnection port = some s') :
    s'.Counted := by
  obtain ⟨-, rfl⟩ := addConnection_eq_some hopen
  exact h.openConnection _

theorem Counted.addConnectionCan (h : s.Counted) (hopen : s.addConnectionCan = some s') :
    s'.Counted := by
  obtain ⟨-, rfl⟩ := addConnectionCan_eq_some hopen
  exact h.openConnection _

theorem Counted.listen (h : s.Counted) {port : Option UInt16}
    (hlisten : s.listen nyxNetPort port client = some s') : s'.Counted := by
  rcases listen_cases hlisten with ⟨rfl, -⟩ | ⟨p, s1, -, -, hopen, hs'⟩
  · exact h
  have h1 := h.addConnection hopen
  rcases hs' with rfl | ⟨hreleased, socket, r, hset, rfl⟩
  · exact h1
  rcases setConnection_eq_some hset with heq | ⟨i, c, hfind, hc, heq⟩
  · rwa [heq]
  · rw [heq]
    exact h1.update ((h1 i).addClientSocket (clientSocketsNum_of_find? hopen hreleased hfind) hc)

theorem Counted.bind (h : s.Counted) (hbind : s.bind sockfd ret isCan = some s') : s'.Counted := by
  rcases bind_cases hbind with ⟨rfl, -⟩ | ⟨s1, -, hs1, hs'⟩
  · exact h
  have h1 : s1.Counted := by
    rcases hs1 with ⟨-, rfl⟩ | hopen
    · exact h
    · exact h.addConnectionCan hopen
  rcases hs' with rfl | ⟨r, hset, rfl⟩
  · exact h1
  · exact h1.setServerSocket hset

theorem Counted.accept (h : s.Counted) {port : Option UInt16}
    (haccept : s.accept nyxNetPort ret port = some s') : s'.Counted := by
  cases port with
  | none =>
    cases haccept
    exact h
  | some port =>
    unfold SocketCache.accept at haccept
    dsimp only at haccept
    split at haccept
    · obtain ⟨r, hset, rfl⟩ := asserted_eq_some haccept
      exact h.setServerSocket hset
    · cases haccept
      exact h

theorem Counted.bindNewfd (h : s.Counted) (hbind : s.bindNewfd oldfd ret = some s') :
    s'.Counted := by
  obtain ⟨port, -, hbind⟩ := bind_eq_some_iff.1 hbind
  obtain ⟨r, hset, rfl⟩ := map_eq_some_iff.1 hbind
  exact h.setServerSocket hset

/-! ## Closing -/

def Paired (s : SocketCache) (socket : ℤ) : Prop :=
  ∀ i ∈ List.range s.activeConnections.toNat, (s.connections i).disabled = false →
    (s.connections i).checkServerSocket socket = true → (s.connections i).clientSocketsNum ≠ 0

instance (s : SocketCache) (socket : ℤ) : Decidable (s.Paired socket) :=
  inferInstanceAs (Decidable (∀ i ∈ _, _))

theorem Counted.disableLoop {is : List ℕ} (hnodup : is.Nodup) (h : s.Counted)
    (hpaired : ∀ i ∈ is, (s.connections i).disabled = false →
      (s.connections i).checkServerSocket socket = true → (s.connections i).clientSocketsNum ≠ 0) :
    (SocketCache.disableLoop socket is s).Counted := by
  induction is generalizing s with
  | nil => exact h
  | cons i is ih =>
    obtain ⟨hi, hnodup⟩ := nodup_cons.1 hnodup
    unfold disableLoop
    split
    · exact ih hnodup h fun j hj => hpaired j (mem_cons_of_mem i hj)
    case isFalse henabled =>
      have hc := (h i).closeServerSocket (hpaired i mem_cons_self (by simpa using henabled))
      dsimp only
      split
      · exact h.update ⟨hc.1, hc.2⟩
      · refine ih hnodup (h.update hc) fun j hj => ?_
        have hne : j ≠ i := ne_of_mem_of_not_mem hj hi
        dsimp only
        rw [update_of_ne hne]
        exact hpaired j (mem_cons_of_mem i hj)

theorem Counted.disableConnectionByServerSocket (h : s.Counted) (hpaired : s.Paired socket) :
    (s.disableConnectionByServerSocket socket).Counted :=
  h.disableLoop nodup_range hpaired

def opens (s : SocketCache) (nyxNetPort : UInt16) : SocketCall → Bool
  | .listen (some port) _ =>
    !s.connectionExists port && port == nyxNetPort && s.activeConNum < maxConnections
  | .bind _ _ true => !s.connectionExistsCan && s.activeConNum < maxConnections
  | _ => false

def ClosesPaired (s : SocketCache) : SocketCall → Prop
  | .dup2 oldfd ret => s.serverSocketExists oldfd = true → s.Paired ret
  | .close fd => s.Paired fd
  | _ => True

instance (s : SocketCache) : ∀ call, Decidable (s.ClosesPaired call)
  | .listen _ _ | .accept _ _ | .bind _ _ _ | .dup _ _ => isTrue trivial
  | .dup2 oldfd ret => inferInstanceAs (Decidable (s.serverSocketExists oldfd = true → s.Paired ret))
  | .close fd => inferInstanceAs (Decidable (s.Paired fd))

theorem Counted.step (h : s.Counted) (hpaired : s.ClosesPaired call)
    (hstep : s.step nyxNetPort call = some s') : s'.Counted := by
  obtain ⟨-, hstep⟩ := ite_none_left_eq_some.1 hstep
  cases call with
  | listen port client => exact h.listen hstep
  | accept ret port => exact h.accept hstep
  | bind sockfd ret isCan => exact h.bind hstep
  | dup oldfd ret =>
    dsimp only [dup] at hstep
    split at hstep
    · exact h.bindNewfd hstep
    · cases hstep
      exact h
  | dup2 oldfd ret =>
    dsimp only [dup2] at hstep
    split at hstep
    case isTrue hold =>
      exact (h.disableConnectionByServerSocket (hpaired hold.1)).bindNewfd hstep
    case isFalse =>
      cases hstep
      exact h
  | close fd =>
    obtain rfl := some.inj hstep
    unfold close
    have hclosed := h.disableConnectionByServerSocket hpaired
    split
    · dsimp only
      split
      · exact hclosed
      · exact hclosed
    · exact h

def StaysInside (nyxNetPort : UInt16) (s : SocketCache) (call : SocketCall) : Prop :=
  s.ClosesPaired call ∧ (s.opens nyxNetPort call = true → s.activeConnections.toNat < 16)

instance (nyxNetPort : UInt16) (s : SocketCache) (call : SocketCall) :
    Decidable (StaysInside nyxNetPort s call) :=
  inferInstanceAs (Decidable (_ ∧ _))

/-! ## Opening -/

theorem activeConnections_setConnection (h : s.setConnection p f = some r) :
    r.1.activeConnections = s.activeConnections := by
  rcases setConnection_eq_some h with heq | ⟨i, c, -, -, heq⟩
  · rw [heq]
  · rw [heq]

theorem activeConnections_disableLoop (socket : ℤ) (is : List ℕ) (s : SocketCache) :
    (disableLoop socket is s).activeConnections = s.activeConnections := by
  induction is generalizing s with
  | nil => rfl
  | cons i is ih =>
    unfold disableLoop
    split
    · exact ih s
    · dsimp only
      split
      · rfl
      · exact ih _

theorem activeConnections_bindNewfd (h : s.bindNewfd oldfd ret = some s') :
    s'.activeConnections = s.activeConnections := by
  obtain ⟨port, -, h⟩ := bind_eq_some_iff.1 h
  obtain ⟨r, hset, rfl⟩ := map_eq_some_iff.1 h
  exact activeConnections_setConnection hset

theorem activeConnections_dup (h : s.dup oldfd ret = some s') :
    s'.activeConnections = s.activeConnections := by
  unfold dup at h
  split at h
  · exact activeConnections_bindNewfd h
  · cases h
    rfl

theorem activeConnections_close (s : SocketCache) (fd : ℤ) :
    (s.close fd).activeConnections = s.activeConnections := by
  unfold close
  split
  · dsimp only
    split
    · exact activeConnections_disableLoop _ _ _
    · exact activeConnections_disableLoop _ _ _
  · rfl

theorem activeConnections_openConnection (init : Interfaces → Interfaces) :
    (s.openConnection init).activeConnections =
      if s.activeConNum < maxConnections then s.activeConnections + 1 else s.activeConnections := by
  unfold openConnection
  split
  case isTrue hfull => rw [if_neg (UInt8.not_lt.2 hfull)]
  case isFalse hroom => rw [if_pos (UInt8.not_le.1 hroom)]

theorem activeConnections_listen {port : Option UInt16}
    (h : s.listen nyxNetPort port client = some s') :
    s'.activeConnections =
      if s.opens nyxNetPort (.listen port client) then s.activeConnections + 1
      else s.activeConnections := by
  rcases listen_cases h with ⟨rfl, hskip⟩ | ⟨p, s1, rfl, rfl, hopen, hs'⟩
  · cases port with
    | none => rfl
    | some p =>
      have hopens : s'.opens nyxNetPort (.listen (some p) client) = false := by
        rcases hskip p rfl with hexists | hne
        · simp [opens, hexists]
        · simp [opens, hne]
      rw [hopens]
      rfl
  · obtain ⟨hnew, rfl⟩ := addConnection_eq_some hopen
    have hs1 : s'.activeConnections =
        (s.openConnection ({ · with port := p })).activeConnections := by
      rcases hs' with rfl | ⟨-, socket, r, hset, rfl⟩
      · rfl
      · exact activeConnections_setConnection hset
    rw [hs1, activeConnections_openConnection]
    simp [opens, hnew]

theorem activeConnections_bind (h : s.bind sockfd ret isCan = some s') :
    s'.activeConnections =
      if s.opens nyxNetPort (.bind sockfd ret isCan) then s.activeConnections + 1
      else s.activeConnections := by
  rcases bind_cases h with ⟨rfl, rfl⟩ | ⟨s1, rfl, hs1, hs'⟩
  · rfl
  have heq : s'.activeConnections = s1.activeConnections := by
    rcases hs' with rfl | ⟨r, hset, rfl⟩
    · rfl
    · exact activeConnections_setConnection hset
  rw [heq]
  rcases hs1 with ⟨hexists, rfl⟩ | hopen
  · simp [opens, hexists]
  · obtain ⟨hnew, rfl⟩ := addConnectionCan_eq_some hopen
    rw [activeConnections_openConnection]
    simp [opens, hnew]

theorem activeConnections_step (h : s.step nyxNetPort call = some s') :
    s'.activeConnections =
      if s.opens nyxNetPort call then s.activeConnections + 1 else s.activeConnections := by
  obtain ⟨-, h⟩ := ite_none_left_eq_some.1 h
  cases call with
  | listen port client => exact activeConnections_listen h
  | bind sockfd ret isCan => exact activeConnections_bind h
  | accept ret port =>
    cases port with
    | none =>
      cases h
      rfl
    | some port =>
      dsimp only [accept] at h
      split at h
      · obtain ⟨r, hset, rfl⟩ := asserted_eq_some h
        exact activeConnections_setConnection hset
      · cases h
        rfl
  | dup oldfd ret => exact activeConnections_dup h
  | dup2 oldfd ret =>
    dsimp only [dup2] at h
    split at h
    · exact (activeConnections_bindNewfd h).trans (activeConnections_disableLoop _ _ _)
    · cases h
      rfl
  | close fd =>
    obtain rfl := some.inj h
    exact activeConnections_close s fd

theorem toNat_activeConnections_step (hs : s.activeConnections.toNat ≤ 16)
    (h : s.step nyxNetPort call = some s') :
    s'.activeConnections.toNat =
      if s.opens nyxNetPort call then s.activeConnections.toNat + 1
      else s.activeConnections.toNat := by
  rw [activeConnections_step h]
  split
  · rw [UInt8.toNat_add, UInt8.toNat_one]
    omega
  · rfl

end SocketCache

open SocketCache

/-- **The socket cache stays within its arrays**, under two conditions on what is opened and
closed. -/
theorem socketCache_inBounds {nyxNetPort : UInt16} {calls : List SocketCall} {s : SocketCache}
    (hinside : EachStep (SocketCache.step nyxNetPort) (StaysInside nyxNetPort) start calls)
    (hrun : exec (SocketCache.step nyxNetPort) start calls = some s) :
    s.activeConnections.toNat ≤ 16 ∧ ∀ i < 16,
      (s.connections i).serverSocketsNum ≤ 8 ∧ (s.connections i).clientSocketsNum ≤ 8 := by
  have hstep : ∀ s call s', s.Counted ∧ s.activeConnections.toNat ≤ 16 →
      StaysInside nyxNetPort s call → s.step nyxNetPort call = some s' →
      s'.Counted ∧ s'.activeConnections.toNat ≤ 16 := by
    intro s call s' hs hin hstep
    refine ⟨hs.1.step hin.1 hstep, ?_⟩
    rw [toNat_activeConnections_step hs.2 hstep]
    split
    case isTrue hopens => exact hin.2 hopens
    case isFalse => exact hs.2
  have h := exec_invariant_of_eachStep hstep hinside ⟨counted_start, Nat.zero_le 16⟩ hrun
  refine ⟨h.2, fun i _ => ?_⟩
  obtain ⟨h8, h1⟩ := h.1 i
  exact ⟨h8, by grind⟩

def listenAcceptClose : List SocketCall :=
  [.listen (some 80) (some 4), .accept 5 (some 80), .close 5]

theorem socketCache_inBounds_listenAcceptClose :
    EachStep (SocketCache.step 80) (StaysInside 80) start listenAcceptClose ∧
      ∃ s, exec (SocketCache.step 80) start listenAcceptClose = some s ∧
        s.activeConnections.toNat ≤ 16 ∧ ∀ i < 16,
          (s.connections i).serverSocketsNum ≤ 8 ∧ (s.connections i).clientSocketsNum ≤ 8 := by
  have hinside : EachStep (step 80) (StaysInside 80) start listenAcceptClose := by decide
  exact ⟨hinside, _, rfl, socketCache_inBounds hinside rfl⟩

/-- **The counter of the clients wraps around.** -/
theorem client_counter_wraps : ∃ s,
    exec (SocketCache.step 80) start [.bind 3 0 true, .dup 3 4, .close 3] = some s ∧
      (s.connections 0).disabled = false ∧ (s.connections 0).clientSocketsNum = 255 :=
  ⟨_, rfl, rfl, rfl⟩

/-! ## The table of connections -/

namespace SocketCache

variable {s s' : SocketCache} {nyxNetPort : UInt16} {call : SocketCall}

def additions (nyxNetPort : UInt16) : SocketCache → List SocketCall → ℕ
  | _, [] => 0
  | s, call :: calls =>
    match s.step nyxNetPort call with
    | some s' => (if s.opens nyxNetPort call then 1 else 0) + additions nyxNetPort s' calls
    | none => 0

theorem throughout_activeConnections_le_iff {calls : List SocketCall}
    (hs : s.activeConnections.toNat ≤ 16) :
    Throughout (SocketCache.step nyxNetPort) (·.activeConnections.toNat ≤ 16) s calls ↔
      s.activeConnections.toNat + additions nyxNetPort s calls ≤ 16 := by
  induction calls generalizing s with
  | nil => exact iff_of_true hs hs
  | cons call calls ih =>
    unfold Throughout additions
    cases hstep : s.step nyxNetPort call with
    | none => exact iff_of_true ⟨hs, by rintro s' ⟨⟩⟩ hs
    | some s' =>
      have hactive : s'.activeConnections.toNat =
          s.activeConnections.toNat + if s.opens nyxNetPort call then 1 else 0 := by
        rw [toNat_activeConnections_step hs hstep]
        split <;> rfl
      rw [← Nat.add_assoc, ← hactive]
      -- either the index leaves the table here, or the rest of the run decides
      by_cases hs' : s'.activeConnections.toNat ≤ 16
      · rw [← ih hs']
        exact ⟨fun h => h.2 s' rfl, fun h => ⟨hs, by rintro _ ⟨⟩; exact h⟩⟩
      · refine iff_of_false (fun h => hs' (h.2 s' rfl).head) ?_
        omega

end SocketCache

/-- **When the table of connections is left**: exactly if more than 16 are opened. -/
theorem activeConnections_le_iff (nyxNetPort : UInt16) (calls : List SocketCall) :
    Throughout (SocketCache.step nyxNetPort) (·.activeConnections.toNat ≤ 16) start calls ↔
      additions nyxNetPort start calls ≤ 16 := by
  rw [throughout_activeConnections_le_iff (Nat.zero_le _)]
  exact Iff.of_eq (congrArg (· ≤ 16) (Nat.zero_add _))

def listenAgain : List SocketCall :=
  .bind 3 0 true :: (List.replicate 15 listenAcceptClose).flatten ++ [.listen (some 80) (some 4)]

/-- **The table is left.** -/
theorem connections_table_left :
    ∃ s, exec (SocketCache.step 80) start listenAgain = some s ∧ s.activeConNum = 2 ∧
      s.activeConnections = 17 :=
  ⟨_, rfl, rfl, rfl⟩

end FuzzSocketCan
