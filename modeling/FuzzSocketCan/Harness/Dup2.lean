import FuzzSocketCan.Harness.SocketRegistry

/-! # `dup2` on emulated sockets

`dup2` unregisters the new descriptor and then looks for the connection of the old one by its
port. If both are the same, it is not found any more; if an earlier connection has the same port,
the new descriptor ends up there; and the connection may have no room.

* **`dup2Registers_iff`** — when the new descriptor gets to the connection of the old one. -/

namespace FuzzSocketCan

open Lib List Option Function SocketCache

namespace SocketCache

variable {s s' : SocketCache} {fd socket : ℤ} {i j : ℕ}

/-! ## Runs of the intercepted calls -/

def GetsNew (s : SocketCache) : SocketCall → Prop
  | .accept ret _ => ret ≠ -1 → s.serverSocketExists ret = false
  | .bind sockfd _ _ => s.serverSocketExists sockfd = false ∨
      s.find? (·.checkServerSocket sockfd) = s.find? (·.isCan)
  | .dup oldfd ret =>
    s.serverSocketExists oldfd = true ∧ ret ≠ -1 → s.serverSocketExists ret = false
  | _ => True

instance (s : SocketCache) : ∀ call, Decidable (s.GetsNew call)
  | .accept ret _ => inferInstanceAs (Decidable (ret ≠ -1 → s.serverSocketExists ret = false))
  | .bind sockfd _ _ => inferInstanceAs (Decidable (s.serverSocketExists sockfd = false ∨
      s.find? (·.checkServerSocket sockfd) = s.find? (·.isCan)))
  | .dup oldfd ret => inferInstanceAs (Decidable
      (s.serverSocketExists oldfd = true ∧ ret ≠ -1 → s.serverSocketExists ret = false))
  | .listen _ _ | .dup2 _ _ | .close _ => isTrue trivial

def Reachable (nyxNetPort : UInt16) (s : SocketCache) : Prop :=
  ∃ calls, EachStep (SocketCache.step nyxNetPort) GetsNew start calls ∧
    exec (SocketCache.step nyxNetPort) start calls = some s

theorem serverSocketExists_eq_false_iff :
    s.serverSocketExists fd = false ↔ ∀ i, ¬s.Registered fd i := by
  rw [← Bool.not_eq_true, serverSocketExists_iff, not_exists]

theorem Unique.find?_checkServerSocket (h : s.Unique) (hi : s.Registered fd i) :
    s.find? (·.checkServerSocket fd) = some i := by
  have hsome := serverSocketExists_iff.2 ⟨i, hi⟩
  rcases isSome_iff_exists.1 hsome with ⟨j, hj⟩
  rcases of_find?_eq_some hj with ⟨hlt, henabled, hcheck⟩
  rw [hj, h.eq ⟨⟨hlt, henabled⟩, Interfaces.checkServerSocket_iff.1 hcheck⟩ hi]

theorem erase_eq_nil_iff {l : List ℤ} (h : fd ∈ l) : l.erase fd = [] ↔ l = [fd] := by
  constructor
  · intro hnil
    have hperm := perm_cons_erase h
    rw [hnil] at hperm
    exact perm_singleton.1 hperm
  · rintro rfl
    exact erase_cons_head _ _

structure Unregisters (s s' : SocketCache) (fd : ℤ) : Prop where
  active : s'.activeConnections = s.activeConnections
  port : ∀ i, (s'.connections i).port = (s.connections i).port
  enabled : ∀ i, s'.Enabled i ↔ s.Enabled i ∧ (s.connections i).sockets ≠ [fd]
  sockets : ∀ i, s.Enabled i → (s'.connections i).sockets = (s.connections i).sockets.erase fd

theorem Unique.unregisters (h : s.Unique) (fd : ℤ) :
    s.Unregisters (s.disableConnectionByServerSocket fd) fd := by
  by_cases hi : ∃ i, s.Registered fd i
  · rcases hi with ⟨i, hi⟩
    rcases closeAt_self (h.nodup hi.1) hi.2 hi.1.2 with ⟨hsockets, hport, hdisabled⟩
    rw [h.disableConnectionByServerSocket_eq hi]
    have hactive := activeConnections_closeAt s fd i
    refine ⟨hactive, fun j => ?_, fun j => ?_, fun j hj => ?_⟩
    · rcases eq_or_ne j i with rfl | hne
      · exact hport
      · rw [closeAt_of_ne hne]
    · rw [Enabled, hactive]
      rcases eq_or_ne j i with rfl | hne
      · rw [← Bool.not_eq_true, hdisabled, erase_eq_nil_iff hi.2]
        exact ⟨fun hj => ⟨hi.1, hj.2⟩, fun hj => ⟨hi.1.1, hj.2⟩⟩
      · rw [closeAt_of_ne hne]
        refine ⟨fun hj => ⟨hj, fun honly => hne ?_⟩, fun hj => hj.1⟩
        exact h.eq ⟨hj, honly ▸ mem_singleton_self fd⟩ hi
    · rcases eq_or_ne j i with rfl | hne
      · exact hsockets
      · rw [closeAt_of_ne hne, erase_of_not_mem]
        exact fun hmem => hne (h.eq ⟨hj, hmem⟩ hi)
  · rw [disableConnectionByServerSocket_of_not_exists (not_exists.1 hi)]
    refine ⟨rfl, fun _ => rfl, fun j => ?_, fun j hj => ?_⟩
    · refine ⟨fun hj => ⟨hj, fun honly => hi ⟨j, hj, ?_⟩⟩, fun hj => hj.1⟩
      rw [honly]
      exact mem_singleton_self fd
    · rw [erase_of_not_mem]
      exact fun hmem => hi ⟨j, hj, hmem⟩

theorem Unregisters.registered_iff (h : s.Unregisters s' fd) (hunique : s.Unique) :
    s'.Registered socket i ↔ s.Registered socket i ∧ socket ≠ fd := by
  constructor
  · rintro ⟨hi, hmem⟩
    have hs := ((h.enabled i).1 hi).1
    rw [h.sockets i hs, (hunique.nodup hs).mem_erase_iff] at hmem
    exact ⟨⟨hs, hmem.2⟩, hmem.1⟩
  · rintro ⟨⟨hi, hmem⟩, hne⟩
    refine ⟨(h.enabled i).2 ⟨hi, fun honly => hne ?_⟩, ?_⟩
    · rw [honly] at hmem
      exact mem_singleton.1 hmem
    · rw [h.sockets i hi, (hunique.nodup hi).mem_erase_iff]
      exact ⟨hne, hmem⟩

/-! ### Reachable states -/

variable {ret : ℤ}

theorem Unique.bindNewfd (h : s.Unique) {oldfd : ℤ} (hnew : s.serverSocketExists ret = false)
    (hbind : s.bindNewfd oldfd ret = some s') : s'.Unique := by
  rcases bind_eq_some_iff.1 hbind with ⟨port, -, hbind⟩
  rcases map_eq_some_iff.1 hbind with ⟨r, hset, rfl⟩
  exact h.setServerSocket hnew hset

variable {nyxNetPort : UInt16}

theorem Unique.listen (h : s.Unique) {port : Option UInt16} {client : Option ℤ}
    (hlisten : s.listen nyxNetPort port client = some s') : s'.Unique := by
  rcases listen_cases hlisten with ⟨rfl, -⟩ | ⟨p, s1, -, -, hopen, hs'⟩
  · exact h
  · have h1 : s1.Unique := by
      rw [(addConnection_eq_some hopen).2]
      exact h.openConnection _
    rcases hs' with rfl | ⟨-, client, r, hset, rfl⟩
    · exact h1
    · exact h1.setClientSocket hset

theorem Unique.accept (h : s.Unique) {port : Option UInt16} (hnew : s.GetsNew (.accept ret port))
    (haccept : s.accept nyxNetPort ret port = some s') : s'.Unique := by
  cases port with
  | none =>
    cases haccept
    exact h
  | some port =>
    unfold SocketCache.accept at haccept
    dsimp only at haccept
    split at haccept
    case isTrue hret =>
      rcases asserted_eq_some haccept with ⟨r, hset, rfl⟩
      exact h.setServerSocket (hnew hret.1) hset
    case isFalse =>
      cases haccept
      exact h

theorem Registered.of_openConnection {init : Interfaces → Interfaces}
    (h : (s.openConnection init).Registered fd i) : s.Registered fd i := by
  unfold openConnection at h
  split at h
  · exact h
  · rcases h with ⟨⟨hlt, henabled⟩, hmem⟩
    dsimp only at hlt henabled hmem
    rcases eq_or_ne i s.activeConnections.toNat with rfl | hne
    · rw [update_self] at hmem
      cases hmem
    · rw [update_of_ne hne] at henabled hmem
      exact ⟨⟨lt_of_lt_add_one hlt hne, henabled⟩, hmem⟩

theorem setServerSocketToConnectionCan_of_find? {r : SocketCache × Bool}
    (h : s.find? (·.checkServerSocket fd) = s.find? (·.isCan))
    (hexists : s.connectionExistsCan = true)
    (hset : s.setServerSocketToConnectionCan fd = some r) : r.1 = s := by
  rcases isSome_iff_exists.1 hexists with ⟨i, hi⟩
  have hcheck := (of_find?_eq_some (h.trans hi)).2.2
  rcases setConnection_eq_some hset with heq | ⟨j, c, hj, hc, heq⟩
  · exact heq
  · obtain rfl := some.inj (hi.symm.trans hj)
    rw [Interfaces.addServerSocket, if_pos hcheck] at hc
    rw [heq, ← some.inj hc, update_eq_self]

theorem Unique.bind (h : s.Unique) {sockfd : ℤ} {isCan : Bool}
    (hnew : s.GetsNew (.bind sockfd ret isCan)) (hbind : s.bind sockfd ret isCan = some s') :
    s'.Unique := by
  rcases bind_cases hbind with ⟨rfl, -⟩ | ⟨s1, -, ⟨hexists, rfl⟩ | hopen, hs'⟩
  · exact h
  · -- the CAN connection exists
    rcases hs' with rfl | ⟨r, hset, rfl⟩
    · exact h
    · rcases hnew with hnew | hsame
      · exact h.setServerSocket hnew hset
      · rwa [setServerSocketToConnectionCan_of_find? hsame hexists hset]
  · -- it is opened now, so that the socket is not registered
    rcases addConnectionCan_eq_some hopen with ⟨hnone, rfl⟩
    have hopened := h.openConnection ({ · with isCan := true })
    rcases hs' with rfl | ⟨r, hset, rfl⟩
    · exact hopened
    · refine hopened.setServerSocket (serverSocketExists_eq_false_iff.2 fun i hi => ?_) hset
      have hfree : s.serverSocketExists sockfd = false := by
        rcases hnew with hnew | hsame
        · exact hnew
        · rw [serverSocketExists, hsame]
          exact hnone
      exact serverSocketExists_eq_false_iff.1 hfree i hi.of_openConnection

theorem Unique.step (h : s.Unique) {call : SocketCall} (hnew : s.GetsNew call)
    (hstep : s.step nyxNetPort call = some s') : s'.Unique := by
  rcases ite_none_left_eq_some.1 hstep with ⟨-, hstep⟩
  cases call with
  | listen port client => exact h.listen hstep
  | accept ret port => exact h.accept hnew hstep
  | bind sockfd ret isCan => exact h.bind hnew hstep
  | dup oldfd ret =>
    dsimp only [dup] at hstep
    split at hstep
    case isTrue hold => exact h.bindNewfd (hnew hold) hstep
    case isFalse =>
      cases hstep
      exact h
  | dup2 oldfd ret =>
    dsimp only [dup2] at hstep
    split at hstep
    case isTrue hold =>
      have hdisable := h.disableConnectionByServerSocket ret
      refine hdisable.bindNewfd (serverSocketExists_eq_false_iff.2 fun i hi => ?_) hstep
      exact (((h.unregisters ret).registered_iff h).1 hi).2 rfl
    case isFalse =>
      cases hstep
      exact h
  | close fd =>
    have hdisable := h.disableConnectionByServerSocket fd
    rw [← some.inj hstep]
    unfold close
    split
    · dsimp only
      split
      · exact ⟨hdisable.nodup, hdisable.eq⟩
      · exact hdisable
    · exact h

theorem Reachable.unique (h : Reachable nyxNetPort s) : s.Unique := by
  rcases h with ⟨calls, hnew, hrun⟩
  exact exec_invariant_of_eachStep (fun _ _ _ h hp hs => h.step hp hs) hnew unique_start hrun

/-! ## What `dup2` has to do -/

/-- **`dup2` registers** both descriptors with one connection, and leaves all others. -/
def Dup2Registers (s : SocketCache) (oldfd newfd : ℤ) : Prop :=
  ∃ s', s.dup2 oldfd newfd = some s' ∧
    (∃ k, s'.Registered oldfd k ∧ s'.Registered newfd k ∧ ∀ k', s'.Registered newfd k' → k' = k) ∧
    ∀ fd, fd ≠ newfd → ∀ k, s'.Registered fd k ↔ s.Registered fd k

theorem find?_eq_some_iff {p : Interfaces → Bool} :
    s.find? p = some i ↔ s.Enabled i ∧ p (s.connections i) = true ∧
      ∀ k < i, s.Enabled k → p (s.connections k) = false := by
  rw [find?, find?_range_eq_some, mem_range]
  simp only [Bool.and_eq_true, Bool.not_eq_true', Bool.not_and, Bool.not_not, Bool.or_eq_true]
  constructor
  · rintro ⟨⟨henabled, hp⟩, hlt, hfirst⟩
    refine ⟨⟨hlt, henabled⟩, hp, fun k hk hkenabled => ?_⟩
    rcases hfirst k hk with hdisabled | hnot
    · rw [hkenabled.2] at hdisabled
      cases hdisabled
    · exact hnot
  · rintro ⟨⟨hlt, henabled⟩, hp, hfirst⟩
    refine ⟨⟨henabled, hp⟩, hlt, fun k hk => ?_⟩
    cases hdisabled : (s.connections k).disabled with
    | true => exact Or.inl rfl
    | false => exact Or.inr (hfirst k hk ⟨lt_trans hk hlt, hdisabled⟩)

theorem registered_update_iff {c : Interfaces} (hi : s.Enabled i) (hdisabled : c.disabled = false)
    (hsockets : c.sockets = (s.connections i).sockets ++ [socket]) :
    SocketCache.Registered { s with connections := update s.connections i c } fd j ↔
      s.Registered fd j ∨ fd = socket ∧ j = i := by
  rw [Registered, Registered, Enabled, Enabled]
  dsimp only
  rcases eq_or_ne j i with rfl | hne
  · rw [update_self, hdisabled, hi.2, hsockets, mem_append, mem_singleton]
    simp [hi.1]
  · rw [update_of_ne hne]
    simp [hne]

theorem Unique.bindNewfd_eq_some_iff (h : s.Unique) {oldfd newfd : ℤ} (hi : s.Registered oldfd i)
    (hnew : ∀ j, ¬s.Registered newfd j) :
    ∃ k, s.find? (·.port == (s.connections i).port) = some k ∧
      ((s.connections k).sockets.length < 8 ∧ (∃ s', s.bindNewfd oldfd newfd = some s' ∧
          ∀ fd j, s'.Registered fd j ↔ s.Registered fd j ∨ fd = newfd ∧ j = k) ∨
        8 ≤ (s.connections k).sockets.length ∧ s.bindNewfd oldfd newfd = none) := by
  have hport : s.serverSocketToPort oldfd = some (s.connections i).port := by
    rw [serverSocketToPort, h.find?_checkServerSocket hi]
    rfl
  have hsome : (s.find? (·.port == (s.connections i).port)).isSome = true :=
    find?_isSome_iff.2 ⟨i, hi.1, beq_self_eq_true _⟩
  rcases isSome_iff_exists.1 hsome with ⟨k, hk⟩
  have hkenabled := (find?_eq_some_iff.1 hk).1
  refine ⟨k, hk, ?_⟩
  rw [SocketCache.bindNewfd, hport, bind_some, setServerSocketToConnection, setConnection,
    hk]
  dsimp only
  rcases Interfaces.addServerSocket_of_notMem (fun hmem => hnew k ⟨hkenabled, hmem⟩) with
    ⟨hroom, c, hc, hsockets, -, -, hdisabled⟩ | ⟨hfull, hnone⟩
  · rw [hc]
    refine Or.inl ⟨hroom, _, rfl, fun fd j => ?_⟩
    exact registered_update_iff hkenabled (hdisabled.trans hkenabled.2) hsockets
  · rw [hnone]
    exact Or.inr ⟨hfull, rfl⟩

theorem Unregisters.find?_port_iff (h : s.Unregisters s' fd) (hi : s'.Enabled i) :
    s'.find? (·.port == (s'.connections i).port) = some i ↔
      ∀ k < i, s.Enabled k → (s.connections k).port = (s.connections i).port →
        (s.connections k).sockets = [fd] := by
  rw [find?_eq_some_iff]
  simp only [h.port, h.enabled, beq_self_eq_true, true_and, beq_eq_false_iff_ne]
  constructor
  · rintro ⟨-, hfirst⟩ k hk henabled hport
    by_contra hne
    exact hfirst k hk ⟨henabled, hne⟩ hport
  · intro hfirst
    refine ⟨(h.enabled i).1 hi, fun k hk hkenabled hport => ?_⟩
    exact hkenabled.2 (hfirst k hk hkenabled.1 hport)

end SocketCache

open SocketCache

/-- **When `dup2` registers the new descriptor with the connection of the old one.** -/
theorem dup2Registers_iff {nyxNetPort : UInt16} {s : SocketCache} (h : Reachable nyxNetPort s)
    {oldfd : ℤ} {i : ℕ} (hi : s.Registered oldfd i) (newfd : ℕ) :
    Dup2Registers s oldfd newfd ↔
      oldfd ≠ newfd ∧ ((s.connections i).sockets.erase newfd).length < 8 ∧
        ∀ k < i, s.Enabled k → (s.connections k).port = (s.connections i).port →
          (s.connections k).sockets = [(newfd : ℤ)] := by
  have hunique := h.unique
  have hun := hunique.unregisters newfd
  have hunique₁ := hunique.disableConnectionByServerSocket newfd
  have hdup2 : s.dup2 oldfd newfd =
      (s.disableConnectionByServerSocket newfd).bindNewfd oldfd newfd := by
    refine if_pos ⟨serverSocketExists_iff.2 ⟨i, hi⟩, ?_⟩
    omega
  rw [Dup2Registers, hdup2]
  generalize s.disableConnectionByServerSocket newfd = s₁ at hun hunique₁
  have hnew : ∀ j, ¬s₁.Registered newfd j := fun j hj => ((hun.registered_iff hunique).1 hj).2 rfl
  by_cases hsame : oldfd = newfd
  · -- the old descriptor is not found any more
    have hport : s₁.serverSocketToPort oldfd = none := by
      have hnone := serverSocketExists_eq_false_iff.2 hnew
      rw [serverSocketToPort, hsame, map_eq_none_iff]
      exact not_isSome_iff_eq_none.1 (Bool.eq_false_iff.1 hnone)
    refine iff_of_false ?_ fun h => h.1 hsame
    rintro ⟨s', hbind, -⟩
    rw [bindNewfd, hport] at hbind
    cases hbind
  · have hi₁ : s₁.Registered oldfd i := (hun.registered_iff hunique).2 ⟨hi, hsame⟩
    have hfirst := hun.find?_port_iff hi₁.1
    rcases hunique₁.bindNewfd_eq_some_iff hi₁ hnew with ⟨k, hk, hcases⟩
    rw [← hun.sockets i hi.1, ← hfirst, hk, some.injEq]
    constructor
    · rintro ⟨s', hbind, ⟨k', hold, hnewfd, -⟩, -⟩
      rcases hcases with ⟨hroom, s'', hbind', hregistered⟩ | ⟨-, hnone⟩
      · obtain rfl := some.inj (hbind.symm.trans hbind')
        -- the old descriptor is with `i`, the new one with `k`
        have hki : k' = i := by
          rcases (hregistered _ _).1 hold with hold | ⟨heq, -⟩
          · exact hunique₁.eq hold hi₁
          · exact absurd heq hsame
        have hkk : k' = k := by
          rcases (hregistered _ _).1 hnewfd with hmem | ⟨-, hk'⟩
          · exact absurd hmem (hnew k')
          · exact hk'
        have hki : k = i := hkk.symm.trans hki
        rw [← hki]
        exact ⟨hsame, hroom, rfl⟩
      · rw [hbind] at hnone
        cases hnone
    · rintro ⟨-, hroom, rfl⟩
      rcases hcases with ⟨-, s', hbind, hregistered⟩ | ⟨hfull, -⟩
      · refine ⟨s', hbind, ⟨k, ?_, ?_, fun k' hk' => ?_⟩, fun fd hne j => ?_⟩
        · exact (hregistered _ _).2 (Or.inl hi₁)
        · exact (hregistered _ _).2 (Or.inr ⟨rfl, rfl⟩)
        · rcases (hregistered _ _).1 hk' with hmem | ⟨-, hk'⟩
          · exact absurd hmem (hnew k')
          · exact hk'
        · rw [hregistered, hun.registered_iff hunique]
          simp [hne]
      · omega

def listenAccept : List SocketCall := [.listen (some 80) (some 4), .accept 5 (some 80)]

theorem dup2Registers_listenAccept :
    ∃ s, exec (SocketCache.step 80) start listenAccept = some s ∧ Dup2Registers s 5 7 := by
  have hnew : EachStep (step 80) GetsNew start listenAccept := by decide
  refine ⟨_, rfl, (dup2Registers_iff ⟨listenAccept, hnew, rfl⟩ (i := 0) ?_ 7).2 ⟨?_, ?_, ?_⟩⟩
  · exact ⟨⟨by decide, by decide⟩, by decide⟩
  · decide
  · decide
  · intro k hk
    cases hk

/-- **A descriptor is duplicated onto itself.** -/
theorem dup2_same_asserts :
    ∃ s, Reachable 80 s ∧ s.Registered 5 0 ∧ s.dup2 5 5 = none ∧ ¬Dup2Registers s 5 5 := by
  have hnew : EachStep (step 80) GetsNew start listenAccept := by decide
  refine ⟨_, ⟨listenAccept, hnew, rfl⟩, ⟨⟨by decide, by decide⟩, by decide⟩, rfl, ?_⟩
  rintro ⟨s', hdup2, -⟩
  cases hdup2

end FuzzSocketCan
