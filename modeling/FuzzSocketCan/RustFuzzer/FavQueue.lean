import FuzzSocketCan.RustFuzzer.Queue

/-! # Concurrent adds and the favourites

`Queue::add` takes the lock three times: to store the input, to read the inputs for the
favourites, and to write the favourites back; any number of threads take these steps in any order.

* **`favqueue_loses_favourite`** — a thread that writes favourites computed from fewer inputs
  throws the newer ones away.
* **`favqueue_complete`** — if no write does so, they are those of all inputs in the end. -/

namespace FuzzSocketCan

open Lib Option

/-- Where a thread is in `Queue::add`. -/
inductive AddPhase
  | idle
  | stored
  /-- The favourites are computed; `seen` is the number of inputs they were computed from. -/
  | computed (favids : List InputID) (seen : ℕ)
  | panicked
  deriving DecidableEq, Repr

/-- The queue's data and the threads. `favSeen`, the number of inputs behind the current favourites,
is not part of the program. -/
structure FavState (T : Type) where
  data : QueueData
  phase : T → AddPhase
  favSeen : ℕ

inductive FavAction (T : Type)
  /-- The thread calls `add` and takes the write lock to store the input. -/
  | store (t : T) (input : Input)
  /-- It takes the read lock to compute the favourites. -/
  | read (t : T) (order : IterOrder)
  /-- It takes the write lock again to write them, and returns. -/
  | write (t : T)

namespace FavState

variable {T : Type} [DecidableEq T]

def new (bitmapSize : ℕ) : FavState T := ⟨.new bitmapSize, fun _ => .idle, 0⟩

def setPhase (s : FavState T) (t : T) (p : AddPhase) : FavState T :=
  { s with phase := Function.update s.phase t p }

def store (spec : GraphSpec) (s : FavState T) (t : T) (input : Input) : FavState T :=
  match beginAdd spec input s.data with
  | .ok (some _) data => setPhase { s with data := data } t .stored
  | .ok none data => { s with data := data }
  | .error _ data => setPhase { s with data := data } t .panicked

def read (s : FavState T) (t : T) (order : IterOrder) : FavState T :=
  match s.data.readFavBits order with
  | .ok favids => s.setPhase t (.computed favids s.data.inputs.length)
  | .error _ => s.setPhase t .panicked

def write (s : FavState T) (t : T) (favids : List InputID) (seen : ℕ) : FavState T :=
  setPhase { s with data := { s.data with favqueue := favids }, favSeen := seen } t .idle

def step (spec : GraphSpec) (s : FavState T) : FavAction T → Option (FavState T)
  | .store t input => if s.phase t = .idle then some (s.store spec t input) else none
  | .read t order => if s.phase t = .stored then some (s.read t order) else none
  | .write t =>
    match s.phase t with
    | .computed favids seen => some (s.write t favids seen)
    | _ => none

def NotStale (s : FavState T) : FavAction T → Prop
  | .write t => ∀ favids seen, s.phase t = .computed favids seen → s.favSeen ≤ seen
  | _ => True

instance (s : FavState T) : ∀ a, Decidable (s.NotStale a)
  | .write t =>
    match h : s.phase t with
    | .computed favids seen =>
      decidable_of_iff (s.favSeen ≤ seen)
        ⟨fun hle favids' seen' hp => by rw [h] at hp; cases hp; exact hle,
          fun hno => hno favids seen h⟩
    | .idle | .stored | .panicked =>
      isTrue fun favids seen hp => by rw [h] at hp; cases hp
  | .store _ _ => isTrue trivial
  | .read _ _ => isTrue trivial

end FavState

/-! ## The invariant -/

def QueueData.FavouritesOf (d : QueueData) (seen : ℕ) (favids : List InputID) : Prop :=
  seen ≤ d.inputs.length ∧ ∃ order, favBits order d.bitmaps.size (d.inputs.take seen) = .ok favids

def AddPhase.Brings (total : ℕ) : AddPhase → Prop
  | idle => False
  | stored => True
  | computed _ seen => seen = total
  | panicked => True

/-- **The invariant**: the favourites are those of the inputs seen. -/
structure FavInv {T : Type} (spec : GraphSpec) (s : FavState T) : Prop where
  sane : s.data.Sane spec
  current : s.data.FavouritesOf s.favSeen s.data.favqueue
  pending : ∀ t favids seen, s.phase t = .computed favids seen → s.data.FavouritesOf seen favids
  upToDate : s.favSeen = s.data.inputs.length ∨
    ∃ t, (s.phase t).Brings s.data.inputs.length

variable {favids : List InputID}

theorem QueueData.FavouritesOf.store {spec : GraphSpec} {d : QueueData} {seen : ℕ}
    (h : d.FavouritesOf seen favids) (input : Input) :
    (d.store spec input).FavouritesOf seen favids := by
  obtain ⟨hle, order, hfav⟩ := h
  obtain ⟨hinputs, -, hbitmaps⟩ := QueueData.inputs_store spec d input
  refine ⟨?_, order, ?_⟩
  · rw [hinputs, List.length_append]
    exact Nat.le_add_right_of_le hle
  · rw [hinputs, hbitmaps, List.take_append_of_le_length hle]
    exact hfav

namespace FavInv

variable {T : Type} {spec : GraphSpec} {s : FavState T}

theorem new (spec : GraphSpec) (bitmapSize : ℕ) : FavInv spec (.new bitmapSize : FavState T) := by
  refine ⟨QueueData.sane_new spec bitmapSize, ⟨Nat.le_refl _, listOrder, rfl⟩, ?_, .inl rfl⟩
  intro t favids seen h
  cases h

variable [DecidableEq T]

theorem setPhase {d : QueueData} {n : ℕ} {t : T} {p : AddPhase} (hsane : d.Sane spec)
    (hcurrent : d.FavouritesOf n d.favqueue)
    (hpending : ∀ u favids seen, s.phase u = .computed favids seen → d.FavouritesOf seen favids)
    (hp : ∀ favids seen, p = .computed favids seen → d.FavouritesOf seen favids)
    (hbrings : n = d.inputs.length ∨ p.Brings d.inputs.length ∨
      ∃ u, u ≠ t ∧ (s.phase u).Brings d.inputs.length) :
    FavInv spec (FavState.setPhase ⟨d, s.phase, n⟩ t p) := by
  refine ⟨hsane, hcurrent, ?_, ?_⟩
  · intro u favids seen hu
    by_cases hut : u = t
    · subst hut
      exact hp favids seen (by simpa [FavState.setPhase] using hu)
    · simp only [FavState.setPhase, Function.update_of_ne hut] at hu
      exact hpending u favids seen hu
  · rcases hbrings with hn | hp | ⟨u, hut, hu⟩
    · exact .inl hn
    · refine .inr ⟨t, ?_⟩
      simpa [FavState.setPhase] using hp
    · refine .inr ⟨u, ?_⟩
      simpa [FavState.setPhase, Function.update_of_ne hut] using hu

theorem store (h : FavInv spec s) (t : T) (input : Input) : FavInv spec (s.store spec t input) := by
  rw [FavState.store]
  rcases beginAdd_cases h.sane input with ⟨hacc, hok⟩ | ⟨-, hok | ⟨e, herr⟩⟩
  · simp only [hok]
    refine setPhase (h.sane.storeInput_eq hacc.counted).2 ?_ ?_ (by simp) (.inr (.inl trivial))
    · rw [(QueueData.inputs_store spec s.data input).2.1]
      exact h.current.store input
    · intro u favids seen hu
      exact (h.pending u favids seen hu).store input
  · simp only [hok]
    exact h
  · simp only [herr]
    exact setPhase h.sane h.current h.pending (by simp) (.inr (.inl trivial))

theorem read (h : FavInv spec s) (t : T) (order : IterOrder) : FavInv spec (s.read t order) := by
  rw [FavState.read]
  cases hread : s.data.readFavBits order with
  | ok favids =>
    refine setPhase h.sane h.current h.pending ?_ (.inr (.inl rfl))
    intro favids' seen heq
    obtain ⟨rfl, rfl⟩ : favids = favids' ∧ s.data.inputs.length = seen := by simpa using heq
    refine ⟨Nat.le_refl _, order, ?_⟩
    rw [List.take_length]
    exact hread
  | error e => exact setPhase h.sane h.current h.pending (by simp) (.inr (.inl trivial))

theorem write (h : FavInv spec s) {t : T} {seen : ℕ} (hphase : s.phase t = .computed favids seen)
    (hstale : s.favSeen ≤ seen) : FavInv spec (s.write t favids seen) := by
  have hfav := h.pending t favids seen hphase
  refine setPhase ⟨h.sane.counted, h.sane.stored⟩ hfav h.pending (by simp) ?_
  rcases h.upToDate with hseen | ⟨u, hu⟩
  · exact .inl (le_antisymm hfav.1 (hseen ▸ hstale))
  · by_cases hut : u = t
    · subst hut
      rw [hphase] at hu
      exact .inl hu
    · exact .inr (.inr ⟨u, hut, hu⟩)

theorem step (h : FavInv spec s) {a : FavAction T} {s' : FavState T} (hstale : s.NotStale a)
    (hs : s.step spec a = some s') : FavInv spec s' := by
  cases a with
  | store t input =>
    simp only [FavState.step, ite_none_right_eq_some, some_inj] at hs
    obtain ⟨-, rfl⟩ := hs
    exact h.store t input
  | read t order =>
    simp only [FavState.step, ite_none_right_eq_some, some_inj] at hs
    obtain ⟨-, rfl⟩ := hs
    exact h.read t order
  | write t =>
    simp only [FavState.step] at hs
    split at hs
    · rename_i favids seen hphase
      obtain rfl := some_inj.mp hs
      exact h.write hphase (hstale favids seen hphase)
    · cases hs

end FavInv

/-- **No favourite is lost** if no write replaces favourites computed from more inputs. -/
theorem favqueue_complete {T : Type} [DecidableEq T] {spec : GraphSpec} {bitmapSize : ℕ}
    {as : List (FavAction T)} {s : FavState T}
    (hstale : EachStep (FavState.step spec) FavState.NotStale (.new bitmapSize) as)
    (hs : exec (FavState.step spec) (.new bitmapSize) as = some s) (hidle : ∀ t, s.phase t = .idle) :
    ∃ order, s.data.readFavBits order = .ok s.data.favqueue := by
  have h : FavInv spec s := exec_invariant_of_eachStep (I := FavInv spec)
    (fun _ _ _ hI hP hstep => hI.step hP hstep) hstale (FavInv.new spec bitmapSize) hs
  have hseen : s.favSeen = s.data.inputs.length := by
    rcases h.upToDate with hseen | ⟨t, ht⟩
    · exact hseen
    · rw [hidle t] at ht
      exact ht.elim
  obtain ⟨-, order, hfav⟩ := h.current
  refine ⟨order, ?_⟩
  rwa [hseen, List.take_length] at hfav

/-! ## Two threads -/

def foundByte (bitmap : List UInt8) (index : ℕ) : Input :=
  { openInput 1 [.bitmap ⟨index, 0, 1⟩] with bitmap := ⟨bitmap, []⟩ }

def oneAfterTheOther : List (FavAction Bool) :=
  [.store false (foundByte [1, 0] 0), .read false listOrder, .write false,
    .store true (foundByte [0, 1] 1), .read true listOrder, .write true]

def staleWrite : List (FavAction Bool) :=
  [.store false (foundByte [1, 0] 0), .read false listOrder, .store true (foundByte [0, 1] 1),
    .read true listOrder, .write true, .write false]

theorem favqueue_oneAfterTheOther :
    ∃ s, exec (FavState.step connectionSpec) (.new 2) oneAfterTheOther = some s ∧
      s.data.favqueue = [1, 0] ∧ ∃ order, s.data.readFavBits order = .ok s.data.favqueue := by
  have hrun : (exec (FavState.step connectionSpec) (.new 2) oneAfterTheOther).map
      (fun s => (s.data.favqueue, s.phase false, s.phase true)) = some ([1, 0], .idle, .idle) := by
    decide +kernel
  obtain ⟨s, hs, heq⟩ := map_eq_some_iff.mp hrun
  obtain ⟨hfav, hfalse, htrue⟩ : s.data.favqueue = [1, 0] ∧ s.phase false = .idle ∧
      s.phase true = .idle := by
    simpa using heq
  refine ⟨s, hs, hfav, favqueue_complete (by decide +kernel) hs ?_⟩
  rintro (_ | _)
  · exact hfalse
  · exact htrue

theorem favBits_of_noSlots {size : ℕ} {inputs : List Input} {f : FavScan}
    (hscan : favScan size inputs = .ok f) (hslots : f.slots.entries = []) (order : IterOrder) :
    favBits order size inputs = .ok f.favids := by
  have hnil : order.1 [] = [] := (order.2 []).eq_nil
  rw [favBits, hscan]
  show Except.ok (f.favourites order) = _
  rw [FavScan.favourites, hslots, hnil]
  rfl

/-- **A favourite is lost.** -/
theorem favqueue_loses_favourite :
    ∃ s, exec (FavState.step connectionSpec) (.new 2) staleWrite = some s ∧
      (∀ t, s.phase t = .idle) ∧ s.data.favqueue = [0] ∧
      ∀ order, s.data.readFavBits order = .ok [1, 0] := by
  have hrun : (exec (FavState.step connectionSpec) (.new 2) staleWrite).map
      (fun s => (s.data.favqueue, s.phase false, s.phase true,
        (favScan s.data.bitmaps.size s.data.inputs).toOption.map
          fun f => (f.favids, f.slots.entries.length))) =
        some ([0], .idle, .idle, some ([1, 0], 0)) := by
    decide +kernel
  obtain ⟨s, hs, heq⟩ := map_eq_some_iff.mp hrun
  obtain ⟨hfav, hfalse, htrue, f, hscan, hfavids, hslots⟩ : s.data.favqueue = [0] ∧
      s.phase false = .idle ∧ s.phase true = .idle ∧ ∃ f,
        (favScan s.data.bitmaps.size s.data.inputs).toOption = some f ∧ f.favids = [1, 0] ∧
          f.slots.entries = [] := by
    simpa using heq
  have hscan : favScan s.data.bitmaps.size s.data.inputs = .ok f := by
    cases h : favScan s.data.bitmaps.size s.data.inputs with
    | error e => rw [h] at hscan; cases hscan
    | ok g =>
      rw [h] at hscan
      obtain rfl : g = f := some_inj.mp hscan
      rfl
  refine ⟨s, hs, ?_, hfav, ?_⟩
  · rintro (_ | _)
    · exact hfalse
    · exact htrue
  · intro order
    rw [QueueData.readFavBits, favBits_of_noSlots hscan hslots, hfavids]

end FuzzSocketCan
