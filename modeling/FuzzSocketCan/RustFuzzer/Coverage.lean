import FuzzSocketCan.Lib.Execution
import FuzzSocketCan.Lib.LinearUse
import FuzzSocketCan.RustFuzzer.Bitmap
import FuzzSocketCan.StructuredFuzzer.Mutator

/-! # Coverage filtering by the threads

Every thread keeps coverage maps of its own and asks the shared queue only when a run is new to
them (`perform_run`). The two checks are two steps, and other threads run between them.

* **`CoverageInv`** — a thread's maps never get ahead of the shared ones, except by the run it is
  about to check.
* **`coverage_filter_loses_nothing`** — so the filter loses nothing. -/

namespace FuzzSocketCan

open Lib List Option Function

structure RunResult where
  bitmap : List UInt8
  ijonMax : List UInt64
  exitReason : ExitReason
  strategy : MutationStrategy
  deriving DecidableEq, Repr

def BitmapHandler.checkRun (h : BitmapHandler) (run : RunResult) :
    Except Panic (BitmapHandler × Option (List StorageReason)) :=
  h.checkNewBytes run.bitmap run.ijonMax run.exitReason

def queueCheckNewBytes (bitmaps : BitmapHandler) (run : RunResult) :
    Except Panic (BitmapHandler × Option (List StorageReason)) := do
  let (bitmaps, res) ← bitmaps.checkRun run
  if run.strategy = .seedImport ∧ run.exitReason ≠ .timeout then
    pure (bitmaps, some (res.getD [] ++ [.imported]))
  else pure (bitmaps, res)

/-! ## The threads -/

/-- Where a thread is in `perform_run`. -/
inductive RunPhase
  | idle
  | askQueue (run : RunResult)
  | panicked
  deriving DecidableEq, Repr

structure SharedCheck where
  run : RunResult
  reasons : Option (List StorageReason)
  deriving DecidableEq, Repr

structure CoverageState (T : Type) where
  bitmaps : T → BitmapHandler
  phase : T → RunPhase
  queue : BitmapHandler
  poisoned : Bool
  checks : List SharedCheck

inductive CoverageAction (T : Type)
  /-- A run of the thread ends and is checked against the thread's maps. -/
  | finishRun (t : T) (run : RunResult)
  /-- The thread takes the queue's lock and checks its run there. -/
  | askQueue (t : T)

namespace CoverageState

variable {T : Type} [DecidableEq T]

def new (bufferLen : T → ℕ) (bitmapSize : ℕ) : CoverageState T where
  bitmaps t := .new (bufferLen t)
  phase _ := .idle
  queue := .new bitmapSize
  poisoned := false
  checks := []

def setPhase (s : CoverageState T) (t : T) (p : RunPhase) : CoverageState T :=
  { s with phase := update s.phase t p }

def finishRun (s : CoverageState T) (t : T) (run : RunResult) : CoverageState T :=
  match (s.bitmaps t).checkRun run with
  | .error _ => s.setPhase t .panicked
  | .ok (bitmaps, res) =>
    let s := { s with bitmaps := update s.bitmaps t bitmaps }
    if res.isSome ∨ run.strategy = .seedImport then s.setPhase t (.askQueue run) else s

/-- A panic under the write lock poisons it. -/
def askQueue (s : CoverageState T) (t : T) (run : RunResult) : CoverageState T :=
  if s.poisoned then s.setPhase t .panicked
  else
    match queueCheckNewBytes s.queue run with
    | .error _ => setPhase { s with poisoned := true } t .panicked
    | .ok (queue, res) =>
      setPhase { s with queue := queue, checks := s.checks ++ [⟨run, res⟩] } t .idle

def step (bufferLen : T → ℕ) (s : CoverageState T) : CoverageAction T → Option (CoverageState T)
  | .finishRun t run =>
    if s.phase t = .idle ∧ run.bitmap.length = bufferLen t then some (s.finishRun t run) else none
  | .askQueue t =>
    match s.phase t with
    | .askQueue run => some (s.askQueue t run)
    | _ => none

end CoverageState

/-! ## What a check of a handler does -/

def BitmapHandler.Sized (h : BitmapHandler) (size : ℕ) : Prop := ∀ c, (h.map c).Sized size

def RunResult.height (run : RunResult) : Slot → ℕ := runHeight run.bitmap run.ijonMax

def RunResult.class? (run : RunResult) : Option ExitClass := run.exitReason.class?

def RunResult.heightIn (run : RunResult) (c : ExitClass) (x : Slot) : ℕ :=
  if run.class? = some c then run.height x else 0

def StorageReason.slot? : StorageReason → Option Slot
  | bitmap r => some (.bit r.index)
  | ijonMax r => some (.ijon r.index)
  | imported => none

/-- The reasons name the slot. -/
def Reports (res : Option (List StorageReason)) (x : Slot) : Prop :=
  ∃ r ∈ res.getD [], r.slot? = some x

def BitmapHandler.NewTo (h : BitmapHandler) (run : RunResult) (x : Slot) : Prop :=
  ∃ c, run.class? = some c ∧ (h.map c).height x < run.height x

structure Checked (h : BitmapHandler) (run : RunResult) (size : ℕ) (h' : BitmapHandler)
    (res : Option (List StorageReason)) : Prop where
  sized : h'.Sized size
  height : ∀ c x, (h'.map c).height x = max ((h.map c).height x) (run.heightIn c x)
  reports : ∀ x, Reports res x ↔ h.NewTo run x
  ijonNew : ∀ i old new, .ijonMax ⟨i, old, new⟩ ∈ res.getD [] → new.toNat = run.height (.ijon i)

@[simp] theorem Bitmap.slot?_reasonAt (m : Bitmap) (runBitmap : List UInt8) (runIjon : List UInt64)
    (x : Slot) : (m.reasonAt runBitmap runIjon x).slot? = some x := by
  cases x <;> rfl

variable {size : ℕ} {res : Option (List StorageReason)}

theorem Raised.reports {m m' : Bitmap} {rb : List UInt8} {ri : List UInt64}
    (h : Raised m rb ri size m' res) (x : Slot) :
    Reports res x ↔ m.height x < runHeight rb ri x := by
  constructor
  · rintro ⟨r, hr, hx⟩
    obtain ⟨y, hlt, rfl⟩ := (h.mem r).mp hr
    rw [Bitmap.slot?_reasonAt, some_inj] at hx
    rwa [← hx]
  · intro hlt
    exact ⟨_, (h.mem _).mpr ⟨x, hlt, rfl⟩, Bitmap.slot?_reasonAt ..⟩

theorem runHeight_ijon_of_pos {rb : List UInt8} {ri : List UInt64} {i : ℕ}
    (h : 0 < runHeight rb ri (.ijon i)) : runHeight rb ri (.ijon i) = (ri.getD i 0).toNat := by
  simp only [runHeight, Bitmap.newFromBuffer, Bitmap.height, getD_eq_getElem?_getD,
    getElem?_take] at h ⊢
  split
  · rfl
  · rename_i hi
    rw [if_neg hi] at h
    exact absurd h (lt_irrefl 0)

variable {h : BitmapHandler} {run : RunResult}

theorem BitmapHandler.checkRun_of_sized (hh : h.Sized size)
    (hrun : run.class?.isSome → run.bitmap.length = size) :
    ∃ h' res, h.checkRun run = .ok (h', res) ∧ Checked h run size h' res ∧
      (res.isSome ↔ ∃ x, h.NewTo run x) := by
  cases hc : run.class? with
  | none =>
    refine ⟨h, none, ?_, ⟨hh, ?_, ?_, ?_⟩, ?_⟩
    · rw [RunResult.class?] at hc
      simp [checkRun, checkNewBytes, hc]
    · intro c x
      simp [RunResult.heightIn, hc]
    · intro x
      simp [Reports, NewTo, hc]
    · intro i old new hmem
      exact absurd hmem (not_mem_nil)
    · simp [NewTo, hc]
  | some c =>
    obtain ⟨m', res, hcheck, hr⟩ := (h.map c).checkNewBytes_of_sized (hh c) run.ijonMax
      (hrun (by rw [hc]; rfl))
    have hnew : ∀ x, h.NewTo run x ↔ (h.map c).height x < run.height x := by
      intro x
      simp [NewTo, hc]
    refine ⟨h.setMap c m', res, ?_, ⟨?_, ?_, ?_, ?_⟩, ?_⟩
    · rw [RunResult.class?] at hc
      simp only [checkRun, checkNewBytes, hc, hcheck]
      rfl
    · intro d
      by_cases hd : d = c
      · subst hd
        rw [map_setMap_self]
        exact hr.sized
      · rw [map_setMap_of_ne h m' hd]
        exact hh d
    · intro d x
      by_cases hd : d = c
      · subst hd
        rw [map_setMap_self, hr.height, RunResult.heightIn, if_pos hc]
        rfl
      · rw [map_setMap_of_ne h m' hd, RunResult.heightIn, hc, if_neg, max_eq_left (Nat.zero_le _)]
        rintro ⟨rfl⟩
        exact hd rfl
    · intro x
      rw [hr.reports, hnew]
      rfl
    · intro i old new hmem
      obtain ⟨x, hlt, hx⟩ := (hr.mem _).mp hmem
      cases x with
      | bit j => simp [Bitmap.reasonAt] at hx
      | ijon j =>
        obtain ⟨rfl, rfl, rfl⟩ : i = j ∧ old = _ ∧ new = _ := by
          simpa [Bitmap.reasonAt] using hx
        exact (runHeight_ijon_of_pos (Nat.zero_lt_of_lt hlt)).symm
    · rw [hr.isSome]
      simp only [hnew]
      rfl

theorem BitmapHandler.checkRun_error (hh : h.Sized size) {c : ExitClass} (hc : run.class? = some c)
    (hlen : run.bitmap.length ≠ size) : h.checkRun run = .error .assertionFailed := by
  rw [RunResult.class?] at hc
  simp only [checkRun, checkNewBytes, hc, Bitmap.checkNewBytes]
  rw [if_neg]
  · rfl
  · rw [(hh c).1]
    exact hlen.symm

theorem BitmapHandler.checked_of_checkRun {h' : BitmapHandler} (hh : h.Sized size)
    (hok : h.checkRun run = .ok (h', res)) :
    Checked h run size h' res ∧ (res.isSome ↔ ∃ x, h.NewTo run x) := by
  by_cases hrun : run.class?.isSome → run.bitmap.length = size
  · obtain ⟨h1, res1, hok1, hchecked⟩ := h.checkRun_of_sized hh hrun
    obtain ⟨rfl, rfl⟩ : h1 = h' ∧ res1 = res := by simpa using hok1.symm.trans hok
    exact hchecked
  · obtain ⟨hc, hlen⟩ := Classical.not_imp.mp hrun
    obtain ⟨c, hc⟩ := isSome_iff_exists.mp hc
    rw [h.checkRun_error hh hc hlen] at hok
    cases hok

theorem queueCheckNewBytes_cases (hh : h.Sized size) (run : RunResult) :
    (∃ e, queueCheckNewBytes h run = .error e) ∨
      ∃ h' res, queueCheckNewBytes h run = .ok (h', res) ∧ Checked h run size h' res := by
  by_cases hrun : run.class?.isSome → run.bitmap.length = size
  · obtain ⟨h', res, hok, hchecked, -⟩ := h.checkRun_of_sized hh hrun
    refine .inr ?_
    by_cases hseed : run.strategy = .seedImport ∧ run.exitReason ≠ .timeout
    · refine ⟨h', some (res.getD [] ++ [.imported]), ?_, hchecked.sized, hchecked.height, ?_, ?_⟩
      · simp only [queueCheckNewBytes, hok]
        exact if_pos hseed
      · intro x
        rw [← hchecked.reports]
        simp [Reports, or_and_right, exists_or, StorageReason.slot?]
      · intro i old new hmem
        exact hchecked.ijonNew i old new (by simpa using hmem)
    · refine ⟨h', res, ?_, hchecked⟩
      simp only [queueCheckNewBytes, hok]
      exact if_neg hseed
  · obtain ⟨hc, hlen⟩ := Classical.not_imp.mp hrun
    obtain ⟨c, hc⟩ := isSome_iff_exists.mp hc
    refine .inl ⟨.assertionFailed, ?_⟩
    simp only [queueCheckNewBytes, h.checkRun_error hh hc hlen]
    rfl

/-! ## The checks of the shared maps, in their order -/

/-- How far the runs checked so far have got. -/
def bestIn (checks : List SharedCheck) (c : ExitClass) (x : Slot) : ℕ :=
  checks.foldl (fun best e => max best (e.run.heightIn c x)) 0

@[simp] theorem bestIn_nil (c : ExitClass) (x : Slot) : bestIn [] c x = 0 := rfl

@[simp] theorem bestIn_snoc (checks : List SharedCheck) (e : SharedCheck) (c : ExitClass)
    (x : Slot) : bestIn (checks ++ [e]) c x = max (bestIn checks c x) (e.run.heightIn c x) := by
  simp [bestIn]

theorem bestIn_le_append (pre post : List SharedCheck) (c : ExitClass) (x : Slot) :
    bestIn pre c x ≤ bestIn (pre ++ post) c x := by
  induction post using reverseRecOn with
  | nil => rw [append_nil]
  | append_singleton post e ih =>
    rw [← append_assoc, bestIn_snoc]
    exact le_max_of_le_left ih

variable {checks : List SharedCheck}

theorem heightIn_le_bestIn {e : SharedCheck} (he : e ∈ checks) (c : ExitClass) (x : Slot) :
    e.run.heightIn c x ≤ bestIn checks c x := by
  obtain ⟨pre, post, rfl⟩ := append_of_mem he
  calc e.run.heightIn c x ≤ bestIn (pre ++ [e]) c x := by
        rw [bestIn_snoc]
        exact le_max_right _ _
    _ ≤ bestIn ((pre ++ [e]) ++ post) c x := bestIn_le_append _ _ c x
    _ = bestIn (pre ++ e :: post) c x := by rw [append_assoc, singleton_append]

theorem bestIn_eq_zero_iff {c : ExitClass} {x : Slot} :
    bestIn checks c x = 0 ↔ ∀ e ∈ checks, e.run.heightIn c x = 0 := by
  constructor
  · intro h e he
    exact Nat.le_zero.mp (h ▸ heightIn_le_bestIn he c x)
  · intro h
    induction checks using reverseRecOn with
    | nil => rfl
    | append_singleton checks e ih =>
      rw [bestIn_snoc, ih fun e' he' => h e' (mem_append_left _ he'), h e (by simp)]
      rfl

structure SharedCheck.After (pre : List SharedCheck) (e : SharedCheck) : Prop where
  reports : ∀ x, Reports e.reasons x ↔
    ∃ c, e.run.class? = some c ∧ bestIn pre c x < e.run.height x
  ijonNew : ∀ i old new, .ijonMax ⟨i, old, new⟩ ∈ e.reasons.getD [] →
    new.toNat = e.run.height (.ijon i)

/-! ## The invariant -/

def RunPhase.ahead (p : RunPhase) (c : ExitClass) (x : Slot) : ℕ :=
  match p with
  | askQueue run => run.heightIn c x
  | _ => 0

/-- The maps of the queue hold the best of its runs, and a thread is ahead by its own run only. -/
structure CoverageInv {T : Type} (bufferLen : T → ℕ) (bitmapSize : ℕ) (s : CoverageState T) :
    Prop where
  threadSized : ∀ t, (s.bitmaps t).Sized (bufferLen t)
  queueSized : s.queue.Sized bitmapSize
  covered : ∀ t, s.phase t ≠ .panicked → ∀ c x,
    ((s.bitmaps t).map c).height x ≤ max ((s.queue.map c).height x) ((s.phase t).ahead c x)
  best : ∀ c x, (s.queue.map c).height x = bestIn s.checks c x
  after : ∀ pre e post, s.checks = pre ++ e :: post → SharedCheck.After pre e

namespace CoverageInv

variable {T : Type} {bufferLen : T → ℕ} {bitmapSize : ℕ} {s : CoverageState T}

theorem new (bufferLen : T → ℕ) (bitmapSize : ℕ) :
    CoverageInv bufferLen bitmapSize (.new bufferLen bitmapSize) := by
  refine ⟨?_, ?_, ?_, ?_, ?_⟩
  · intro t c
    simpa [CoverageState.new] using Bitmap.sized_new (bufferLen t)
  · intro c
    simpa [CoverageState.new] using Bitmap.sized_new bitmapSize
  · intro t _ c x
    simp [CoverageState.new, Bitmap.height_new]
  · intro c x
    simp [CoverageState.new, Bitmap.height_new]
  · intro pre e post h
    simp [CoverageState.new] at h

variable {t : T}

theorem newTo_thread (h : CoverageInv bufferLen bitmapSize s) (hidle : s.phase t = .idle) {x : Slot}
    (hx : s.queue.NewTo run x) : (s.bitmaps t).NewTo run x := by
  obtain ⟨c, hc, hlt⟩ := hx
  refine ⟨c, hc, lt_of_le_of_lt ?_ hlt⟩
  simpa [hidle, RunPhase.ahead] using h.covered t (by simp [hidle]) c x

variable [DecidableEq T]

theorem setPanicked (h : CoverageInv bufferLen bitmapSize s) (t : T) :
    CoverageInv bufferLen bitmapSize (s.setPhase t .panicked) := by
  refine ⟨h.threadSized, h.queueSized, ?_, h.best, h.after⟩
  intro u hu c x
  by_cases hut : u = t
  · subst hut
    simp [CoverageState.setPhase] at hu
  · simp only [CoverageState.setPhase, update_of_ne hut] at hu ⊢
    exact h.covered u hu c x

theorem finishRun (h : CoverageInv bufferLen bitmapSize s) (hidle : s.phase t = .idle)
    (hrun : run.bitmap.length = bufferLen t) :
    CoverageInv bufferLen bitmapSize (s.finishRun t run) := by
  obtain ⟨bitmaps, res, hok, hchecked, hsome⟩ :=
    (s.bitmaps t).checkRun_of_sized (h.threadSized t) fun _ => hrun
  have hold : ∀ c x, ((s.bitmaps t).map c).height x ≤ (s.queue.map c).height x := by
    intro c x
    simpa [hidle, RunPhase.ahead] using h.covered t (by simp [hidle]) c x
  -- Whatever the phase becomes, only the maps of this thread change.
  have hcovered : ∀ p : RunPhase, (∀ c x, (bitmaps.map c).height x ≤
      max ((s.queue.map c).height x) (p.ahead c x)) → CoverageInv bufferLen bitmapSize
        (CoverageState.setPhase { s with bitmaps := update s.bitmaps t bitmaps } t p) := by
    intro p hp
    refine ⟨?_, h.queueSized, ?_, h.best, h.after⟩
    · intro u
      by_cases hut : u = t
      · subst hut
        simpa [CoverageState.setPhase] using hchecked.sized
      · simpa [CoverageState.setPhase, update_of_ne hut] using h.threadSized u
    · intro u hu c x
      by_cases hut : u = t
      · subst hut
        simpa [CoverageState.setPhase] using hp c x
      · simp only [CoverageState.setPhase, update_of_ne hut] at hu ⊢
        exact h.covered u hu c x
  simp only [CoverageState.finishRun, hok]
  by_cases hhit : res.isSome ∨ run.strategy = .seedImport
  · rw [if_pos hhit]
    apply hcovered
    intro c x
    rw [hchecked.height]
    exact max_le_max_right _ (hold c x)
  · rw [if_neg hhit]
    -- Not a hit: the run is nowhere higher, so the thread's heights stay what they were.
    have hsame : ∀ c x, (bitmaps.map c).height x ≤ (s.queue.map c).height x := by
      intro c x
      rw [hchecked.height]
      refine max_le (hold c x) (le_trans ?_ (hold c x))
      rw [RunResult.heightIn]
      split
      · rename_i hc
        exact not_lt.mp fun hlt => hhit (.inl (hsome.mpr ⟨x, c, hc, hlt⟩))
      · exact Nat.zero_le _
    have hphase : update s.phase t .idle = s.phase := by
      rw [← hidle]
      exact update_eq_self t s.phase
    have := hcovered .idle fun c x => le_max_of_le_left (hsame c x)
    rwa [CoverageState.setPhase, hphase] at this

theorem askQueue (h : CoverageInv bufferLen bitmapSize s) (hasks : s.phase t = .askQueue run) :
    CoverageInv bufferLen bitmapSize (s.askQueue t run) ∧
      ∀ c x, (s.queue.map c).height x ≤ ((s.askQueue t run).queue.map c).height x := by
  rw [CoverageState.askQueue]
  split
  · exact ⟨h.setPanicked t, fun _ _ => le_rfl⟩
  · rcases queueCheckNewBytes_cases h.queueSized run with ⟨e, herr⟩ | ⟨queue, res, hok, hchecked⟩
    · simp only [herr]
      have hpoisoned : CoverageInv bufferLen bitmapSize { s with poisoned := true } :=
        ⟨h.threadSized, h.queueSized, h.covered, h.best, h.after⟩
      exact ⟨hpoisoned.setPanicked t, fun _ _ => le_rfl⟩
    · simp only [hok]
      have hgrow : ∀ c x, (s.queue.map c).height x ≤ (queue.map c).height x := by
        intro c x
        rw [hchecked.height]
        exact le_max_left _ _
      refine ⟨⟨h.threadSized, hchecked.sized, ?_, ?_, ?_⟩, hgrow⟩
      · intro u hu c x
        by_cases hut : u = t
        · subst hut
          have := h.covered u (by simp [hasks]) c x
          rw [hasks, RunPhase.ahead, ← hchecked.height] at this
          exact le_max_of_le_left this
        · simp only [CoverageState.setPhase, update_of_ne hut] at hu ⊢
          exact (h.covered u hu c x).trans (max_le_max_right _ (hgrow c x))
      · intro c x
        simp only [CoverageState.setPhase, bestIn_snoc]
        rw [hchecked.height, h.best]
      · intro pre e post hlog
        rcases snoc_eq_append_cons hlog with ⟨rfl, rfl, rfl⟩ | ⟨post', rfl, hlog'⟩
        · refine ⟨?_, hchecked.ijonNew⟩
          intro x
          rw [hchecked.reports]
          simp [BitmapHandler.NewTo, h.best]
        · exact h.after pre e post' hlog'

theorem step (h : CoverageInv bufferLen bitmapSize s) {a : CoverageAction T}
    {s' : CoverageState T} (hs : s.step bufferLen a = some s') :
    CoverageInv bufferLen bitmapSize s' ∧
      ∀ c x, (s.queue.map c).height x ≤ (s'.queue.map c).height x := by
  cases a with
  | finishRun t run =>
    simp only [CoverageState.step, ite_none_right_eq_some, some_inj] at hs
    obtain ⟨⟨hidle, hrun⟩, rfl⟩ := hs
    refine ⟨h.finishRun hidle hrun, ?_⟩
    intro c x
    rw [CoverageState.finishRun]
    split
    · rfl
    · split <;> rfl
  | askQueue t =>
    simp only [CoverageState.step] at hs
    split at hs
    · rename_i run hasks
      obtain rfl := some_inj.mp hs
      exact h.askQueue hasks
    · cases hs

theorem exec (h : CoverageInv bufferLen bitmapSize s) {as : List (CoverageAction T)}
    {s' : CoverageState T} (hs : Lib.exec (CoverageState.step bufferLen) s as = some s') :
    CoverageInv bufferLen bitmapSize s' ∧
      ∀ c x, (s.queue.map c).height x ≤ (s'.queue.map c).height x := by
  refine exec_invariant (I := fun s' => CoverageInv bufferLen bitmapSize s' ∧
    ∀ c x, (s.queue.map c).height x ≤ (s'.queue.map c).height x) ?_ ⟨h, fun _ _ => le_rfl⟩ hs
  rintro s1 a s2 ⟨h1, hle⟩ hstep
  obtain ⟨h2, hle'⟩ := h1.step hstep
  exact ⟨h2, fun c x => (hle c x).trans (hle' c x)⟩

end CoverageInv

/-! ## No find is lost -/

def SharedCheck.Sees (e : SharedCheck) (c : ExitClass) (i : ℕ) : Prop :=
  e.run.class? = some c ∧ e.run.bitmap.getD i 0 ≠ 0

def SharedCheck.ReportsBit (e : SharedCheck) (c : ExitClass) (i : ℕ) : Prop :=
  e.run.class? = some c ∧ ∃ old new, .bitmap ⟨i, old, new⟩ ∈ e.reasons.getD []

def SharedCheck.ReportsMax (e : SharedCheck) (c : ExitClass) (i : ℕ) (new : UInt64) : Prop :=
  e.run.class? = some c ∧ ∃ old, .ijonMax ⟨i, old, new⟩ ∈ e.reasons.getD []

theorem reports_bit_iff {i : ℕ} :
    Reports res (.bit i) ↔ ∃ old new, .bitmap ⟨i, old, new⟩ ∈ res.getD [] := by
  constructor
  · rintro ⟨r, hr, hslot⟩
    rcases r with ⟨j, old, new⟩ | r | _
    · obtain rfl : j = i := by simpa [StorageReason.slot?] using hslot
      exact ⟨old, new, hr⟩
    · simp [StorageReason.slot?] at hslot
    · simp [StorageReason.slot?] at hslot
  · rintro ⟨old, new, hr⟩
    exact ⟨_, hr, rfl⟩

theorem lt_byteLevel_iff {n : ℕ} {b : UInt8} : n < byteLevel b ↔ n = 0 ∧ b ≠ 0 := by
  rw [byteLevel]
  split <;> simp [*]

theorem heightIn_bit_eq_zero_iff {c : ExitClass} {i : ℕ} :
    run.heightIn c (.bit i) = 0 ↔ (run.class? = some c → run.bitmap.getD i 0 = 0) := by
  rw [RunResult.heightIn]
  simp only [RunResult.height, runHeight, Bitmap.newFromBuffer, Bitmap.height, byteLevel]
  split <;> simp [*]

namespace SharedCheck.After

variable {pre : List SharedCheck} {e : SharedCheck} {c : ExitClass} {i : ℕ}

theorem reportsBit_iff (h : SharedCheck.After pre e) :
    e.ReportsBit c i ↔ e.Sees c i ∧ ∀ e' ∈ pre, ¬e'.Sees c i := by
  have hpre : bestIn pre c (.bit i) = 0 ↔ ∀ e' ∈ pre, ¬e'.Sees c i := by
    rw [bestIn_eq_zero_iff]
    simp [heightIn_bit_eq_zero_iff, SharedCheck.Sees]
  rw [SharedCheck.ReportsBit, ← reports_bit_iff, h.reports, ← hpre, SharedCheck.Sees]
  constructor
  · rintro ⟨hc, d, hd, hlt⟩
    obtain rfl : c = d := by simpa [hc] using hd
    obtain ⟨hbest, hne⟩ := lt_byteLevel_iff.mp hlt
    exact ⟨⟨hc, hne⟩, hbest⟩
  · rintro ⟨⟨hc, hne⟩, hbest⟩
    exact ⟨hc, c, hc, lt_byteLevel_iff.mpr ⟨hbest, hne⟩⟩

theorem lt_of_reportsMax (h : SharedCheck.After pre e) {new : UInt64}
    (hmax : e.ReportsMax c i new) : bestIn pre c (.ijon i) < new.toNat := by
  obtain ⟨hc, old, hr⟩ := hmax
  obtain ⟨d, hd, hlt⟩ := (h.reports _).mp ⟨_, hr, rfl⟩
  obtain rfl : d = c := by simpa [hc] using hd.symm
  rwa [h.ijonNew i old new hr]

theorem heightIn_of_reportsMax (h : SharedCheck.After pre e) {new : UInt64}
    (hmax : e.ReportsMax c i new) : e.run.heightIn c (.ijon i) = new.toNat := by
  obtain ⟨hc, old, hr⟩ := hmax
  rw [RunResult.heightIn, if_pos hc, h.ijonNew i old new hr]

end SharedCheck.After

theorem CoverageInv.after_take {T : Type} {bufferLen : T → ℕ} {bitmapSize : ℕ}
    {s : CoverageState T} (h : CoverageInv bufferLen bitmapSize s) {k : ℕ} {e : SharedCheck}
    (hk : s.checks[k]? = some e) : SharedCheck.After (s.checks.take k) e := by
  obtain ⟨hlt, rfl⟩ := List.getElem?_eq_some_iff.mp hk
  refine h.after _ _ (s.checks.drop (k + 1)) ?_
  rw [← drop_eq_getElem_cons hlt, take_append_drop]

section Filter

variable {T : Type} [DecidableEq T] {bufferLen : T → ℕ} {bitmapSize : ℕ}
  {as : List (CoverageAction T)} {s : CoverageState T}

omit [DecidableEq T] in
theorem CoverageInv.existsUnique_reportsBit (h : CoverageInv bufferLen bitmapSize s) {c : ExitClass}
    {i : ℕ} (hsees : ∃ e ∈ s.checks, e.Sees c i) :
    ∃! k : ℕ, ∃ e : SharedCheck, s.checks[k]? = some e ∧ e.ReportsBit c i := by
  classical
  have hex : ∃ k : ℕ, ∃ e : SharedCheck, s.checks[k]? = some e ∧ e.Sees c i := by
    obtain ⟨e, he, hsee⟩ := hsees
    obtain ⟨k, hk⟩ := mem_iff_getElem?.mp he
    exact ⟨k, e, hk, hsee⟩
  obtain ⟨e, hk, hsee⟩ := Nat.find_spec hex
  refine ⟨Nat.find hex, ⟨e, hk, ?_⟩, ?_⟩
  · rw [(h.after_take hk).reportsBit_iff]
    refine ⟨hsee, ?_⟩
    rintro e' he' hsee'
    obtain ⟨j, hj, hj'⟩ := mem_take_iff.mp he'
    exact Nat.find_min hex hj ⟨e', hj', hsee'⟩
  · rintro k ⟨e', hk', hrep⟩
    obtain ⟨hsee', hfirst⟩ := (h.after_take hk').reportsBit_iff.mp hrep
    -- A later check would find the byte seen before, an earlier one contradicts the minimum.
    refine le_antisymm (not_lt.mp fun hlt => ?_) (Nat.find_min' hex ⟨e', hk', hsee'⟩)
    exact hfirst e (mem_take_iff.mpr ⟨_, hlt, hk⟩) hsee

/-- **Coverage filtering by the threads loses nothing**, in any order of their steps. -/
theorem coverage_filter_loses_nothing
    (hs : exec (CoverageState.step bufferLen) (.new bufferLen bitmapSize) as = some s) :
    (∀ t run, s.phase t = .idle → run.bitmap.length = bufferLen t →
      ∀ bs s', exec (CoverageState.step bufferLen) s bs = some s' →
      ∀ queue reasons, s'.queue.checkRun run = .ok (queue, some reasons) →
      ∃ bitmaps reasons', (s.bitmaps t).checkRun run = .ok (bitmaps, some reasons') ∧
        ∀ x, Reports (some reasons) x → Reports (some reasons') x) ∧
    (∀ c i, (∃ e ∈ s.checks, e.Sees c i) →
      ∃! k : ℕ, ∃ e : SharedCheck, s.checks[k]? = some e ∧ e.ReportsBit c i) ∧
    (∀ c i, ∀ k : ℕ, ∀ e : SharedCheck, s.checks[k]? = some e → (e.ReportsBit c i ↔
      e.Sees c i ∧ ∀ j < k, ∀ e' : SharedCheck, s.checks[j]? = some e' → ¬e'.Sees c i)) ∧
    (∀ c i new new', ∀ e ∈ s.checks,
      e.ReportsMax c i new → e.ReportsMax c i new' → new = new') ∧
    (∀ c i new new', ∀ j k : ℕ, ∀ e e' : SharedCheck, j < k → s.checks[j]? = some e →
      s.checks[k]? = some e' → e.ReportsMax c i new → e'.ReportsMax c i new' → new < new') := by
  have h := ((CoverageInv.new bufferLen bitmapSize).exec hs).1
  refine ⟨?_, ?_, ?_, ?_, ?_⟩
  · intro t run hidle hrun bs s' hs' queue reasons hnew
    obtain ⟨h', hgrow⟩ := h.exec hs'
    obtain ⟨hqueue, hnewSome⟩ := BitmapHandler.checked_of_checkRun h'.queueSized hnew
    obtain ⟨bitmaps, res, hok, hthread, hsome⟩ :=
      (s.bitmaps t).checkRun_of_sized (h.threadSized t) fun _ => hrun
    have hboth : ∀ x, s'.queue.NewTo run x → (s.bitmaps t).NewTo run x := by
      rintro x ⟨c, hc, hlt⟩
      exact h.newTo_thread hidle ⟨c, hc, lt_of_le_of_lt (hgrow c x) hlt⟩
    obtain ⟨x, hx⟩ := hnewSome.mp rfl
    obtain ⟨reasons', rfl⟩ := isSome_iff_exists.mp (hsome.mpr ⟨x, hboth x hx⟩)
    refine ⟨bitmaps, reasons', hok, ?_⟩
    intro y hy
    exact (hthread.reports y).mpr (hboth y ((hqueue.reports y).mp hy))
  · intro c i hsees
    exact h.existsUnique_reportsBit hsees
  · intro c i k e hk
    rw [(h.after_take hk).reportsBit_iff]
    refine and_congr_right fun _ => ⟨?_, ?_⟩
    · intro hfirst j hj e' he'
      exact hfirst e' (mem_take_iff.mpr ⟨j, hj, he'⟩)
    · intro hfirst e' he'
      obtain ⟨j, hj, hj'⟩ := mem_take_iff.mp he'
      exact hfirst j hj e' hj'
  · intro c i new new' e he hmax hmax'
    obtain ⟨k, hk⟩ := mem_iff_getElem?.mp he
    have ha := h.after_take hk
    exact UInt64.toNat_inj.mp
      ((ha.heightIn_of_reportsMax hmax).symm.trans (ha.heightIn_of_reportsMax hmax'))
  · intro c i new new' j k e e' hjk hj hk hmax hmax'
    rw [UInt64.lt_iff_toNat_lt, ← (h.after_take hj).heightIn_of_reportsMax hmax]
    have hmem : e ∈ s.checks.take k := mem_take_iff.mpr ⟨j, hjk, hj⟩
    exact lt_of_le_of_lt (heightIn_le_bestIn hmem c _) ((h.after_take hk).lt_of_reportsMax hmax')

end Filter

def normalRun (bitmap : List UInt8) : RunResult := ⟨bitmap, [], .normal 0, .generate⟩

def twoThreadRuns : List (CoverageAction Bool) :=
  [.finishRun false (normalRun [1, 0]), .finishRun true (normalRun [2, 3]), .askQueue true,
    .askQueue false]

theorem coverage_filter_two_threads :
    ∃ s, exec (CoverageState.step fun _ => 2) (.new (fun _ => 2) 2) twoThreadRuns = some s ∧
      s.checks = [⟨normalRun [2, 3], some [.bitmap ⟨0, 0, 2⟩, .bitmap ⟨1, 0, 3⟩]⟩,
        ⟨normalRun [1, 0], none⟩] ∧
      ∃! k : ℕ, ∃ e : SharedCheck, s.checks[k]? = some e ∧ e.ReportsBit .normal 0 := by
  have hchecks : (exec (CoverageState.step fun _ => 2) (.new (fun _ => 2) 2) twoThreadRuns).map
      CoverageState.checks = some [⟨normalRun [2, 3], some [.bitmap ⟨0, 0, 2⟩, .bitmap ⟨1, 0, 3⟩]⟩,
        ⟨normalRun [1, 0], none⟩] := by
    decide +kernel
  obtain ⟨s, hs, hlog⟩ := map_eq_some_iff.mp hchecks
  refine ⟨s, hs, hlog, (coverage_filter_loses_nothing hs).2.1 .normal 0 ?_⟩
  rw [hlog]
  exact ⟨_, mem_cons_self, rfl, by decide⟩

end FuzzSocketCan
