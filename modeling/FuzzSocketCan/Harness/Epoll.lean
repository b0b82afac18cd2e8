import FuzzSocketCan.Harness.SocketRegistry

/-! # `epoll`

`epoll_ctl` keeps one registration of an emulated descriptor for the whole process, in four global
variables: the last one overwrites the others, removing any of them clears it, and user data of
zero stand for none. `epoll_wait` writes the event behind those of the kernel, without a look at
`maxevents` or a failure.

* **`register`** — the registrations as they are meant.
* **`epollWait_right`** — with one at a time, and room left by the kernel, every call is right. -/

namespace FuzzSocketCan

open Lib List Option Function

/-! ## The code -/

/-- `struct epoll_event` -/
structure EpollEvent where
  events : UInt32
  data : UInt64
  deriving DecidableEq

/-- The operation of `epoll_ctl`. -/
inductive EpollOp where
  | add
  | mod
  | del
  /-- Any other number. -/
  | other
  deriving DecidableEq

structure EpollTmp where
  u64Tmp : UInt64
  fdTmp : ℤ
  epfdTmp : ℤ
  eventsTmps : UInt32

structure EpollResult where
  ret : ℤ
  events : ℤ → Option EpollEvent

def kernelEvents (maxevents : ℤ) (answer : Option (List EpollEvent)) : Option (List EpollEvent) :=
  if 0 < maxevents then answer.map (·.take maxevents.toNat) else none

def realEpollWait (maxevents : ℤ) (answer : Option (List EpollEvent)) : EpollResult :=
  match kernelEvents maxevents answer with
  | some ready => ⟨ready.length, fun i => if 0 ≤ i then ready[i.toNat]? else none⟩
  | none => ⟨-1, fun _ => none⟩

namespace EpollTmp

def zero : EpollTmp := ⟨0, 0, 0, 0⟩

/-- `none` where the assertion fails. -/
def epollCtl (self : EpollTmp) (cache : SocketCache) (epfd : ℤ) (op : EpollOp) (fd : ℤ)
    (event : EpollEvent) : Option EpollTmp :=
  if cache.serverSocketExists fd then
    match op with
    | .del => some zero
    | .add | .mod => some ⟨event.data, fd, epfd, event.events⟩
    | .other => none
  else some self

def Reports (self : EpollTmp) (epfd : ℤ) : Prop := self.u64Tmp ≠ 0 ∧ epfd = self.epfdTmp

instance (self : EpollTmp) (epfd : ℤ) : Decidable (self.Reports epfd) :=
  inferInstanceAs (Decidable (_ ∧ _))

/-- The timeout is not used. -/
def epollWait (self : EpollTmp) (epfd maxevents : ℤ) (answer : Option (List EpollEvent)) :
    EpollResult :=
  let r := realEpollWait maxevents answer
  if self.Reports epfd then
    { ret := r.ret + 1
      events := Function.update r.events r.ret (some ⟨self.eventsTmps, self.u64Tmp⟩) }
  else r

end EpollTmp

/-! ## The array of events -/

/-- **The result fits the array**, and all events counted are written. -/
structure EpollResult.Fits (r : EpollResult) (maxevents : ℤ) : Prop where
  inside : ∀ i, (r.events i).isSome = true → 0 ≤ i ∧ i < maxevents
  count : r.ret.toNat ≤ maxevents.toNat
  written : ∀ i, 0 ≤ i → i < r.ret → (r.events i).isSome = true

section Wait

variable {self : EpollTmp} {epfd maxevents : ℤ} {answer : Option (List EpollEvent)}

theorem realEpollWait_spec (maxevents : ℤ) (answer : Option (List EpollEvent)) :
    (∀ i, ((realEpollWait maxevents answer).events i).isSome = true ↔
      0 ≤ i ∧ i < (realEpollWait maxevents answer).ret) ∧
    (0 ≤ (realEpollWait maxevents answer).ret →
      (realEpollWait maxevents answer).ret ≤ maxevents) := by
  unfold realEpollWait
  cases hkernel : kernelEvents maxevents answer with
  | none =>
    dsimp only
    exact ⟨fun i => iff_of_false Bool.false_ne_true (by omega), by omega⟩
  | some ready =>
    have hlength : (ready.length : ℤ) ≤ maxevents := by
      rcases ite_none_right_eq_some.1 hkernel with ⟨hpos, hmap⟩
      rcases map_eq_some_iff.1 hmap with ⟨all, -, rfl⟩
      rw [length_take]
      omega
    refine ⟨fun i => ?_, fun _ => hlength⟩
    dsimp only
    split
    case isTrue hi =>
      have hlt : i.toNat < ready.length ↔ i < ready.length := by omega
      rw [and_iff_right hi, ← hlt, isSome_iff_ne_none, ne_eq, getElem?_eq_none_iff,
        Nat.not_le]
    case isFalse hi => exact iff_of_false Bool.false_ne_true fun h => hi h.1

theorem realEpollWait_fits (maxevents : ℤ) (answer : Option (List EpollEvent)) :
    (realEpollWait maxevents answer).Fits maxevents := by
  rcases realEpollWait_spec maxevents answer with ⟨hwritten, hle⟩
  generalize realEpollWait maxevents answer = r at hwritten hle
  refine ⟨fun i hi => ?_, by omega, fun i hi hlt => (hwritten i).2 ⟨hi, hlt⟩⟩
  have hi := (hwritten i).1 hi
  omega

theorem epollWait_fits_iff :
    (self.epollWait epfd maxevents answer).Fits maxevents ↔
      (self.Reports epfd → 0 ≤ (realEpollWait maxevents answer).ret ∧
        (realEpollWait maxevents answer).ret < maxevents) := by
  unfold EpollTmp.epollWait
  by_cases hreports : self.Reports epfd
  · rw [if_pos hreports]
    rcases realEpollWait_spec maxevents answer with ⟨hwritten, -⟩
    generalize realEpollWait maxevents answer = r at hwritten
    have hadded : ∀ i, (update r.events r.ret
        (some ⟨self.eventsTmps, self.u64Tmp⟩) i).isSome = true ↔
          i = r.ret ∨ 0 ≤ i ∧ i < r.ret := by
      intro i
      rcases eq_or_ne i r.ret with rfl | hne
      · rw [update_self]
        exact iff_of_true rfl (Or.inl rfl)
      · rw [update_of_ne hne, hwritten, or_iff_right hne]
    constructor
    · intro h _
      exact h.inside r.ret ((hadded r.ret).2 (Or.inl rfl))
    · intro h
      have hplace := h hreports
      refine ⟨fun i hi => ?_, ?_, fun i hi hlt => ?_⟩
      · have hi := (hadded i).1 hi
        omega
      · dsimp only
        omega
      · dsimp only at hlt
        exact (hadded i).2 (by omega)
  · rw [if_neg hreports]
    exact iff_of_true (realEpollWait_fits maxevents answer) fun h => absurd h hreports

end Wait

/-! ## The registrations -/

structure Interest where
  epfd : ℤ
  fd : ℤ
  event : EpollEvent
  deriving DecidableEq

def Interest.IsFor (interest : Interest) (epfd fd : ℤ) : Prop :=
  interest.epfd = epfd ∧ interest.fd = fd

instance (interest : Interest) (epfd fd : ℤ) : Decidable (interest.IsFor epfd fd) :=
  inferInstanceAs (Decidable (_ ∧ _))

/-- What an operation of `epoll_ctl` is for. -/
def register (interests : List Interest) (epfd : ℤ) (op : EpollOp) (fd : ℤ) (event : EpollEvent) :
    List Interest :=
  match op with
  | .add => ⟨epfd, fd, event⟩ :: interests.filter fun i => ¬i.IsFor epfd fd
  | .mod => interests.map fun i => if i.IsFor epfd fd then { i with event := event } else i
  | .del => interests.filter fun i => ¬i.IsFor epfd fd
  | .other => interests

structure EpollState where
  tmp : EpollTmp
  interests : List Interest

def EpollState.start : EpollState := ⟨.zero, []⟩

inductive EpollCall where
  | ctl (epfd : ℤ) (op : EpollOp) (fd : ℤ) (event : EpollEvent)
  | wait (epfd maxevents : ℤ) (answer : Option (List EpollEvent))

namespace EpollState

variable {cache : SocketCache} {st st' : EpollState} {call : EpollCall}

/-- One call, `none` if the assertion fails. -/
def step (cache : SocketCache) (st : EpollState) : EpollCall → Option EpollState
  | .ctl epfd op fd event =>
    (st.tmp.epollCtl cache epfd op fd event).map fun tmp =>
      { tmp := tmp
        interests :=
          if cache.serverSocketExists fd then register st.interests epfd op fd event
          else st.interests }
  | .wait _ _ _ => some st

def added (st : EpollState) (epfd : ℤ) : List Interest :=
  st.interests.filter fun i => i.epfd = epfd

/-- **Every emulated descriptor of the instance is reported**, in its own element. -/
def ReportsAll (st : EpollState) (epfd : ℤ) (r : EpollResult) : Prop :=
  ∃ slot : ℤ → ℤ,
    (∀ i ∈ st.added epfd,
      0 ≤ slot i.fd ∧ slot i.fd < r.ret ∧ r.events (slot i.fd) = some i.event) ∧
    ∀ i ∈ st.added epfd, ∀ j ∈ st.added epfd, slot i.fd = slot j.fd → i.fd = j.fd

def Room (st : EpollState) (epfd maxevents : ℤ) (answer : Option (List EpollEvent)) : Prop :=
  0 ≤ (realEpollWait maxevents answer).ret ∧
    (realEpollWait maxevents answer).ret + (st.added epfd).length ≤ maxevents

/-- **A call of `epoll_wait` is right.** -/
def WaitsRight (st : EpollState) : EpollCall → Prop
  | .ctl _ _ _ _ => True
  | .wait epfd maxevents answer =>
    (st.tmp.epollWait epfd maxevents answer).Fits maxevents ∧
      (st.Room epfd maxevents answer →
        st.ReportsAll epfd (st.tmp.epollWait epfd maxevents answer))

/-- An emulated descriptor is added, modified or removed only if no other one is registered, with
user data that are not zero; the kernel gives no error and leaves a place for the event. -/
def Meets (cache : SocketCache) (st : EpollState) : EpollCall → Prop
  | .ctl epfd op fd event =>
    cache.serverSocketExists fd = true →
      (∀ i ∈ st.interests, i.IsFor epfd fd) ∧ (op = .del ∨ event.data ≠ 0)
  | .wait epfd maxevents answer =>
    st.tmp.Reports epfd →
      0 ≤ (realEpollWait maxevents answer).ret ∧
        (realEpollWait maxevents answer).ret < maxevents

instance (cache : SocketCache) (st : EpollState) : ∀ call, Decidable (st.Meets cache call)
  | .ctl epfd op fd event => inferInstanceAs (Decidable (cache.serverSocketExists fd = true →
      (∀ i ∈ st.interests, i.IsFor epfd fd) ∧ (op = .del ∨ event.data ≠ 0)))
  | .wait epfd maxevents answer => inferInstanceAs (Decidable (st.tmp.Reports epfd →
      0 ≤ (realEpollWait maxevents answer).ret ∧ (realEpollWait maxevents answer).ret < maxevents))

def held (tmp : EpollTmp) : Interest := ⟨tmp.epfdTmp, tmp.fdTmp, ⟨tmp.eventsTmps, tmp.u64Tmp⟩⟩

def Tracks (st : EpollState) : Prop := ∀ i ∈ st.interests, i = held st.tmp ∧ st.tmp.u64Tmp ≠ 0

theorem tracks_start : start.Tracks := by
  intro i hi
  cases hi

variable {interests : List Interest} {epfd : ℤ}

theorem filter_not_isFor {fd : ℤ} (h : ∀ i ∈ interests, i.IsFor epfd fd) :
    (interests.filter fun i => ¬i.IsFor epfd fd) = [] := by
  rw [filter_eq_nil_iff]
  intro i hi
  simpa using h i hi

theorem mem_register {fd : ℤ} {op : EpollOp} {event : EpollEvent}
    (h : ∀ i ∈ interests, i.IsFor epfd fd) (hop : op ≠ .other) {i : Interest}
    (hi : i ∈ register interests epfd op fd event) : op ≠ .del ∧ i = ⟨epfd, fd, event⟩ := by
  cases op with
  | add =>
    rw [register, filter_not_isFor h, mem_singleton] at hi
    exact ⟨by decide, hi⟩
  | mod =>
    rcases mem_map.1 hi with ⟨j, hj, rfl⟩
    have hfor := h j hj
    refine ⟨by decide, ?_⟩
    rw [if_pos hfor, hfor.1, hfor.2]
  | del =>
    rw [register, filter_not_isFor h] at hi
    cases hi
  | other => exact absurd rfl hop

theorem Tracks.step (h : st.Tracks) (hmeets : st.Meets cache call)
    (hstep : EpollState.step cache st call = some st') : st'.Tracks := by
  cases call with
  | wait epfd maxevents answer =>
    cases hstep
    exact h
  | ctl epfd op fd event =>
    rcases map_eq_some_iff.1 hstep with ⟨tmp, hctl, rfl⟩
    unfold EpollTmp.epollCtl at hctl
    unfold Tracks
    cases hexists : cache.serverSocketExists fd with
    | false =>
      -- a real descriptor: the variables stay
      rw [hexists] at hctl
      cases hctl
      exact h
    | true =>
      rcases hmeets hexists with ⟨honly, hdata⟩
      rw [hexists, if_pos rfl] at hctl
      intro i hi
      have hop : op ≠ .other := by
        rintro rfl
        cases hctl
      rcases mem_register honly hop hi with ⟨hdel, rfl⟩
      have htmp : tmp = ⟨event.data, fd, epfd, event.events⟩ := by
        cases op with
        | add => exact (some.inj hctl).symm
        | mod => exact (some.inj hctl).symm
        | del => exact absurd rfl hdel
        | other => exact absurd rfl hop
      rw [htmp]
      exact ⟨rfl, hdata.resolve_left hdel⟩

theorem Tracks.reportsAll (h : st.Tracks) {maxevents : ℤ} {answer : Option (List EpollEvent)}
    (hmeets : st.Meets cache (.wait epfd maxevents answer)) :
    st.ReportsAll epfd (st.tmp.epollWait epfd maxevents answer) := by
  have hheld : ∀ i ∈ st.added epfd, i = held st.tmp ∧ st.tmp.Reports epfd := by
    intro i hi
    rcases mem_filter.1 hi with ⟨hmem, hepfd⟩
    rcases h i hmem with ⟨rfl, hdata⟩
    exact ⟨rfl, hdata, (of_decide_eq_true hepfd).symm⟩
  refine ⟨fun _ => (realEpollWait maxevents answer).ret, fun i hi => ?_, fun i hi j hj _ => ?_⟩
  · rcases hheld i hi with ⟨rfl, hreports⟩
    rw [EpollTmp.epollWait, if_pos hreports]
    exact ⟨(hmeets hreports).1, Int.lt_succ _, update_self _ _ _⟩
  · rw [(hheld i hi).1, (hheld j hj).1]

/-- **Every call of `epoll_wait` in a run is right** if all calls meet the condition. -/
theorem epollWait_right (cache : SocketCache) {calls : List EpollCall}
    (h : EachStep (EpollState.step cache) (Meets cache) start calls) :
    EachStep (EpollState.step cache) WaitsRight start calls := by
  refine h.of_invariant (fun _ _ _ htracks hmeets hstep => htracks.step hmeets hstep)
    (fun st call htracks hmeets => ?_) tracks_start
  cases call with
  | ctl epfd op fd event => trivial
  | wait epfd maxevents answer =>
    exact ⟨epollWait_fits_iff.2 hmeets, fun _ => htracks.reportsAll hmeets⟩

def addModWaitDel : List EpollCall :=
  [.ctl 3 .add 5 ⟨1, 7⟩, .ctl 3 .add 9 ⟨1, 0⟩, .ctl 3 .mod 5 ⟨5, 8⟩, .wait 3 2 (some [⟨1, 0⟩]),
    .ctl 3 .del 5 ⟨0, 0⟩, .wait 3 1 none]

theorem epollWait_right_addModWaitDel :
    ∃ cache, SocketCache.start.bind 5 0 true = some cache ∧
      EachStep (EpollState.step cache) WaitsRight start addModWaitDel :=
  ⟨_, rfl, epollWait_right _ (by decide)⟩

/-- **An event too many, and one too few.** -/
theorem epollWait_beyond :
    ∃ cache, SocketCache.start.bind 5 0 true = some cache ∧
      (∃ st, EpollState.step cache start (.ctl 3 .add 5 ⟨1, 7⟩) = some st ∧
        (st.tmp.epollWait 3 1 (some [⟨1, 9⟩])).ret = 2 ∧
        (st.tmp.epollWait 3 1 (some [⟨1, 9⟩])).events 1 = some ⟨1, 7⟩) ∧
      ¬EachStep (EpollState.step cache) WaitsRight start
        [.ctl 3 .add 5 ⟨1, 7⟩, .wait 3 1 (some [⟨1, 9⟩])] ∧
      ¬EachStep (EpollState.step cache) WaitsRight start
        [.ctl 3 .add 5 ⟨1, 0⟩, .wait 3 8 (some [])] := by
  refine ⟨_, rfl, ⟨_, rfl, rfl, rfl⟩, fun h => ?_, fun h => ?_⟩
  · have hcount := (h.2 _ rfl).1.1.count
    revert hcount
    decide
  · rcases (h.2 _ rfl).1.2 ⟨by decide, by decide⟩ with ⟨slot, hslot, -⟩
    have hreported := hslot ⟨3, 5, ⟨1, 0⟩⟩ (by decide)
    exact absurd (lt_of_le_of_lt hreported.1 hreported.2.1) (by decide)

end EpollState

end FuzzSocketCan
