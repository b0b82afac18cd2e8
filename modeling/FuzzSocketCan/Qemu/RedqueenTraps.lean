import Mathlib.Data.List.Basic

/-! # Breakpoints on instructions

`set_rq_instruction` marks the instructions that redqueen wants to see, and the hooks set a
breakpoint on each. One that was hit is taken away and is meant to be set again with the next
event, as long as it was hit fewer than `REDQUEEN_TRAP_LIMIT` times. The hits are counted in the
low 24 bits of a word with the flags in the high bits, but `redqueen_update_addr_count` returns
the high bits, which exceed the limit.

* **`rearmed_iff`** — a breakpoint is never set again. -/

namespace FuzzSocketCan.Qemu

open List Function

def redqueenTrapLimit : BitVec 32 := 16

def cmpBitmapRqInstruction : BitVec 32 := 0x1000000

def cmpBitmapBlacklisted : BitVec 32 := 0x4000000

inductive RedqueenMode
  | no
  | light
  | whitelist (addrs : List (BitVec 64))

structure RedqueenState where
  lookup : BitVec 64 → Option (BitVec 32)
  hooksApplied : Bool
  lastRip : BitVec 64
  nextRip : BitVec 64
  breakpoints : BitVec 64 → ℕ

structure HookEvent where
  eip : BitVec 64
  insSize : BitVec 8
  insSize_ne : insSize ≠ 0

namespace RedqueenState

variable (self : RedqueenState) (addr : BitVec 64)

/-- `new_rq_state` -/
def new : RedqueenState := ⟨fun _ => none, false, 0, 0, fun _ => 0⟩

/-- `redqueen_set_addr_flags` -/
def setAddrFlags (flags : BitVec 32) : RedqueenState :=
  { self with
    lookup := update self.lookup addr (some ((self.lookup addr).getD 0 ||| flags)) }

/-- `redqueen_check_addr_flags` -/
def checkAddrFlags (flags : BitVec 32) : Bool :=
  match self.lookup addr with
  | some value => value &&& flags != 0
  | none => false

/-- `redqueen_check_addr` -/
def checkAddr : Bool := (self.lookup addr).isSome

/-- `redqueen_update_addr_count` -/
def updateAddrCount : BitVec 32 × RedqueenState :=
  let value := (self.lookup addr).getD 0 + 1
  (value &&& 0xFF000000, { self with lookup := update self.lookup addr (some value) })

def setRqInstruction : RedqueenState :=
  if self.checkAddrFlags addr cmpBitmapBlacklisted then self
  else self.setAddrFlags addr cmpBitmapRqInstruction

def setRqBlacklist : RedqueenState := self.setAddrFlags addr cmpBitmapBlacklisted

def insertBreakpoint : RedqueenState :=
  { self with breakpoints := update self.breakpoints addr (self.breakpoints addr + 1) }

/-- Does nothing if there is none. -/
def removeBreakpoint : RedqueenState :=
  { self with breakpoints := update self.breakpoints addr (self.breakpoints addr - 1) }

def armed : Bool := self.breakpoints addr > 0

def insertHooksBitmap : RedqueenState :=
  { self with breakpoints := fun addr =>
      if self.checkAddrFlags addr cmpBitmapBlacklisted then self.breakpoints addr
      else if self.checkAddrFlags addr cmpBitmapRqInstruction then self.breakpoints addr + 1
      else self.breakpoints addr }

def insertHooks (mode : RedqueenMode) : Option RedqueenState :=
  if self.hooksApplied then none
  else
    let self :=
      match mode with
      | .light => self.insertHooksBitmap
      | .whitelist addrs => addrs.foldl insertBreakpoint self
      | .no => self
    some { self with hooksApplied := true }

def removeHooks : Option RedqueenState :=
  if self.hooksApplied then
    some { self with
      breakpoints := fun _ => 0
      lookup := fun addr => (self.lookup addr).map (· &&& 0xFF000000)
      hooksApplied := false }
  else none

def rearm : RedqueenState :=
  if self.nextRip ≠ 0 then
    let self := self.removeBreakpoint self.nextRip
    let self :=
      if self.lastRip ≠ 0 then
        let (count, self) := self.updateAddrCount self.lastRip
        if count < redqueenTrapLimit then self.insertBreakpoint self.lastRip else self
      else self
    { self with lastRip := 0, nextRip := 0 }
  else self

def handleHook (event : HookEvent) : RedqueenState :=
  let self := self.rearm
  if self.checkAddr event.eip then
    { self.removeBreakpoint event.eip with
      lastRip := event.eip
      nextRip := event.insSize.setWidth 64 }
  else self

def handleHooks (events : List HookEvent) : RedqueenState := events.foldl handleHook self

def marked (addrs : List (BitVec 64)) : RedqueenState := addrs.foldl setRqInstruction new

end RedqueenState

open RedqueenState

/-- **The law of the breakpoints.** After a hit and with the next event, a breakpoint is set again
if and only if it was hit fewer times than the limit; when the hooks are removed, the table is as it
was before, without counts. -/
def Rearmed (addrs : List (BitVec 64)) (events : List HookEvent) : Prop :=
  ∃ s, (marked addrs).insertHooks .light = some s ∧
    (∀ pre e e' post, events = pre ++ e :: e' :: post → e.eip ∈ addrs →
      ((s.handleHooks (pre ++ [e])).rearm.armed e.eip ↔
        (pre ++ [e]).countP (·.eip == e.eip) < redqueenTrapLimit.toNat)) ∧
    ∃ s', (s.handleHooks events).removeHooks = some s' ∧ s'.lookup = (marked addrs).lookup

/-! ## The marked instructions -/

variable {e : HookEvent}

section Marked

variable {addrs : List (BitVec 64)} {a : BitVec 64} {s : RedqueenState} {events : List HookEvent}

def marks (addrs : List (BitVec 64)) (a : BitVec 64) : Option (BitVec 32) :=
  if addrs.contains a then some cmpBitmapRqInstruction else none

theorem marks_of_mem (h : a ∈ addrs) : marks addrs a = some cmpBitmapRqInstruction :=
  if_pos (contains_iff_mem.2 h)

theorem marks_of_notMem (h : a ∉ addrs) : marks addrs a = none :=
  if_neg (mt contains_iff_mem.1 h)

theorem setRqInstruction_eq (h : s.lookup = marks addrs) :
    s.setRqInstruction a = { s with lookup := marks (a :: addrs) } := by
  have hflags : s.checkAddrFlags a cmpBitmapBlacklisted = false := by
    rw [checkAddrFlags, h, marks]
    split_ifs <;> rfl
  have hvalue : (s.lookup a).getD 0 ||| cmpBitmapRqInstruction = cmpBitmapRqInstruction := by
    rw [h, marks]
    split_ifs <;> rfl
  have hlookup : update s.lookup a (some cmpBitmapRqInstruction) = marks (a :: addrs) := by
    funext b
    rw [update_apply, h]
    by_cases hb : b = a
    · simp [marks, hb]
    · simp [marks, hb]
  rw [setRqInstruction, hflags, setAddrFlags, hvalue, hlookup]
  rfl

theorem marked_eq (addrs : List (BitVec 64)) :
    marked addrs = ⟨marks addrs, false, 0, 0, fun _ => 0⟩ := by
  have hfold : ∀ done todo : List (BitVec 64),
      todo.foldl setRqInstruction ⟨marks done, false, 0, 0, fun _ => 0⟩ =
        ⟨marks (todo.reverse ++ done), false, 0, 0, fun _ => 0⟩ := by
    intro done todo
    induction todo generalizing done with
    | nil => rfl
    | cons a todo ih =>
      rw [foldl_cons, setRqInstruction_eq rfl, ih, reverse_cons, append_assoc,
        singleton_append]
  have horder : marks (addrs.reverse ++ []) = marks addrs := by
    funext a
    simp [marks]
  rw [← horder]
  exact hfold [] addrs

structure Inserted (addrs : List (BitVec 64)) (s : RedqueenState) : Prop where
  lookup : s.lookup = marks addrs
  applied : s.hooksApplied = true
  nextRip : s.nextRip = 0
  breakpoints : ∀ a, s.breakpoints a ≤ 1

theorem insertHooks_marked (addrs : List (BitVec 64)) :
    ∃ s, (marked addrs).insertHooks .light = some s ∧ Inserted addrs s := by
  rw [marked_eq]
  refine ⟨_, rfl, rfl, rfl, rfl, fun a => ?_⟩
  show (if _ then 0 else if _ then 0 + 1 else 0) ≤ 1
  split_ifs <;> decide

theorem Inserted.rearm_eq (h : Inserted addrs s) : s.rearm = s := by
  rw [rearm, h.nextRip]
  rfl

theorem Inserted.handleHook_eq (h : Inserted addrs s) (he : e.eip ∉ addrs) :
    s.handleHook e = s := by
  have hcheck : s.checkAddr e.eip = false := by
    rw [checkAddr, h.lookup, marks_of_notMem he]
    rfl
  rw [handleHook, h.rearm_eq, hcheck]
  rfl

theorem Inserted.handleHooks_eq (h : Inserted addrs s) (hevents : ∀ e ∈ events, e.eip ∉ addrs) :
    s.handleHooks events = s := by
  induction events with
  | nil => rfl
  | cons e events ih =>
    rw [handleHooks, foldl_cons, h.handleHook_eq (hevents e mem_cons_self)]
    exact ih fun e' he' => hevents e' (mem_cons_of_mem _ he')

theorem Inserted.handleHooks_concat (h : Inserted addrs s) (hevents : ∀ e ∈ events, e.eip ∉ addrs)
    (e : HookEvent) : s.handleHooks (events ++ [e]) = s.handleHook e := by
  have hbefore := h.handleHooks_eq hevents
  rw [handleHooks] at hbefore ⊢
  rw [foldl_append, hbefore, foldl_cons, foldl_nil]

theorem breakpoints_removeBreakpoint_le (s : RedqueenState) (a b : BitVec 64) :
    (s.removeBreakpoint a).breakpoints b ≤ s.breakpoints b := by
  show update s.breakpoints a (s.breakpoints a - 1) b ≤ s.breakpoints b
  rw [update_apply]
  split_ifs with hb
  · rw [hb]
    exact Nat.sub_le _ _
  · exact Nat.le_refl _

theorem breakpoints_rearm_le (h : ¬(s.updateAddrCount s.lastRip).1 < redqueenTrapLimit)
    (a : BitVec 64) : s.rearm.breakpoints a ≤ s.breakpoints a := by
  have hle := breakpoints_removeBreakpoint_le s s.nextRip a
  have hcount : ¬((s.removeBreakpoint s.nextRip).updateAddrCount
      (s.removeBreakpoint s.nextRip).lastRip).1 < redqueenTrapLimit := h
  unfold rearm
  split
  · dsimp only
    split
    · exact hle
    · exact hle
  · exact Nat.le_refl _

theorem Inserted.not_armed (h : Inserted addrs s) (he : e.eip ∈ addrs) :
    (s.handleHook e).rearm.armed e.eip = false := by
  have hlookup : s.lookup e.eip = some cmpBitmapRqInstruction := by
    rw [h.lookup, marks_of_mem he]
  have hhit : s.handleHook e = { s.removeBreakpoint e.eip with
      lastRip := e.eip
      nextRip := e.insSize.setWidth 64 } := by
    rw [handleHook, h.rearm_eq, checkAddr, hlookup]
    rfl
  have hcount : ¬((s.handleHook e).updateAddrCount (s.handleHook e).lastRip).1 <
      redqueenTrapLimit := by
    rw [hhit]
    show ¬((s.lookup e.eip).getD 0 + 1) &&& 0xFF000000 < redqueenTrapLimit
    rw [hlookup]
    decide
  have hzero : (s.handleHook e).breakpoints e.eip = 0 := by
    rw [hhit]
    show update s.breakpoints e.eip (s.breakpoints e.eip - 1) e.eip = 0
    rw [update_self]
    exact Nat.sub_eq_zero_of_le (h.breakpoints e.eip)
  have hle := breakpoints_rearm_le hcount e.eip
  rw [hzero] at hle
  exact decide_eq_false (Nat.not_lt.2 hle)

theorem Inserted.lookup_handleHook (h : Inserted addrs s) (e : HookEvent) :
    (s.handleHook e).lookup = marks addrs ∧ (s.handleHook e).hooksApplied = true := by
  rw [handleHook, h.rearm_eq]
  split
  · exact ⟨h.lookup, h.applied⟩
  · exact ⟨h.lookup, h.applied⟩

theorem exists_removeHooks (h : s.lookup = marks addrs) (happlied : s.hooksApplied = true) :
    ∃ s', s.removeHooks = some s' ∧ s'.lookup = marks addrs := by
  refine ⟨_, if_pos happlied, ?_⟩
  funext a
  show (s.lookup a).map (· &&& 0xFF000000) = marks addrs a
  rw [h, marks]
  split_ifs
  · rfl
  · rfl

end Marked

theorem exists_cons_of_append (events : List HookEvent) (e : HookEvent) (post : List HookEvent) :
    ∃ next rest, events ++ e :: post = next :: rest := by
  cases events with
  | nil => exact ⟨e, post, rfl⟩
  | cons next rest => exact ⟨next, rest ++ e :: post, rfl⟩

theorem exists_first_hit {addrs : List (BitVec 64)} (pre : List HookEvent) (he : e.eip ∈ addrs) :
    ∃ before hit after, pre ++ [e] = before ++ hit :: after ∧ hit.eip ∈ addrs ∧
      ∀ e' ∈ before, e'.eip ∉ addrs := by
  have hsome : ((pre ++ [e]).find? fun e => decide (e.eip ∈ addrs)).isSome := by
    rw [find?_isSome]
    exact ⟨e, mem_append_right _ mem_cons_self, decide_eq_true he⟩
  rcases Option.isSome_iff_exists.1 hsome with ⟨hit, hfind⟩
  rcases find?_eq_some_iff_append.1 hfind with ⟨hhit, before, after, happend, hbefore⟩
  refine ⟨before, hit, after, happend, of_decide_eq_true hhit, fun e' he' hmem => ?_⟩
  have hnot := hbefore e' he'
  rw [decide_eq_true hmem] at hnot
  cases hnot

theorem countP_first_hit {addrs : List (BitVec 64)} {before : List HookEvent} {hit : HookEvent}
    (hhit : hit.eip ∈ addrs) (hbefore : ∀ e ∈ before, e.eip ∉ addrs) :
    (before ++ [hit]).countP (·.eip == hit.eip) = 1 := by
  have hzero : before.countP (·.eip == hit.eip) = 0 := by
    refine countP_eq_zero.2 fun e he heq => hbefore e he ?_
    rw [eq_of_beq heq]
    exact hhit
  rw [countP_append, hzero]
  simp

/-- **When breakpoints are set again**: no hit of a marked instruction may be followed by another
event. -/
theorem rearmed_iff (addrs : List (BitVec 64)) (events : List HookEvent) :
    Rearmed addrs events ↔ ∀ pre e e' post, events = pre ++ e :: e' :: post → e.eip ∉ addrs := by
  rcases insertHooks_marked addrs with ⟨s, hs, hinserted⟩
  constructor
  · rintro ⟨s₁, hs₁, hrearms, -⟩ pre e e' post hevents he
    obtain rfl := Option.some.inj (hs.symm.trans hs₁)
    -- the first hit of a marked instruction is followed by another event too
    rcases exists_first_hit pre he with ⟨before, hit, after, happend, hhit, hbefore⟩
    rcases exists_cons_of_append after e' post with ⟨next, rest, hrest⟩
    have hwhole : events = before ++ hit :: next :: rest := by
      rw [hevents, ← hrest, append_cons, happend, append_assoc, cons_append]
    have hlaw := hrearms before hit next rest hwhole hhit
    rw [hinserted.handleHooks_concat hbefore, hinserted.not_armed hhit,
      countP_first_hit hhit hbefore] at hlaw
    exact absurd (hlaw.2 (by decide)) Bool.false_ne_true
  · intro hnone
    refine ⟨s, hs, fun pre e e' post hevents he => absurd he (hnone pre e e' post hevents), ?_⟩
    rw [marked_eq]
    rcases eq_nil_or_concat events with rfl | ⟨before, e, rfl⟩
    · exact exists_removeHooks hinserted.lookup hinserted.applied
    · have hbefore : ∀ e₁ ∈ before, e₁.eip ∉ addrs := by
        intro e₁ he₁
        rcases append_of_mem he₁ with ⟨pre, post, rfl⟩
        rcases exists_cons_of_append post e [] with ⟨next, rest, hrest⟩
        refine hnone pre e₁ next rest ?_
        rw [concat_eq_append, append_assoc, cons_append, hrest]
      have hstate : s.handleHooks (before.concat e) = s.handleHook e := by
        rw [concat_eq_append, hinserted.handleHooks_concat hbefore]
      have hlast := hinserted.lookup_handleHook e
      rw [hstate]
      exact exists_removeHooks hlast.1 hlast.2

theorem not_rearmed_twoHits :
    ¬Rearmed [0x1000, 0x2000] [⟨0x1000, 2, by decide⟩, ⟨0x2000, 2, by decide⟩] := by
  rintro ⟨s, hs, hrearms, -⟩
  have hlaw := hrearms [] _ _ [] rfl (by decide)
  obtain rfl := Option.some.inj hs
  exact absurd (hlaw.2 (by decide)) (by decide)

end FuzzSocketCan.Qemu
