import Mathlib.Tactic.Common

/-! # How a computation that may panic ends

Programs are `EStateM ε σ` computations; a panic leaves the state as it was.

* **`Ends m s Q E`** — the run of `m` from `s` ends in a result with `Q`, or in a panic with `E`.
* **`ends_bind`**, **`Ends.bind`** — the rule for a sequence, which takes a program apart.
* **`focus`** — runs a program on a component of the state.
* **`ends_forEach`** — the induction rule for a loop. -/

namespace FuzzSocketCan.Lib

variable {ε σ τ α β : Type}

/-- The run of `m` from `s` ends in a result with `Q` or in a panic with `E`. -/
def Ends (m : EStateM ε σ α) (s : σ) (Q : α → σ → Prop) (E : ε → σ → Prop) : Prop :=
  match m s with
  | .ok a s' => Q a s'
  | .error e s' => E e s'

variable {m : EStateM ε σ α} {s : σ} {Q Q' : α → σ → Prop} {E E' : ε → σ → Prop}

variable {a : α} {s' : σ}

theorem ends_of_ok (h : m s = .ok a s') (hQ : Q a s') : Ends m s Q E := by
  rw [Ends, h]; exact hQ

/-- Weaker conditions. -/
theorem Ends.mono (h : Ends m s Q E) (hQ : ∀ a s', Q a s' → Q' a s')
    (hE : ∀ e s', E e s' → E' e s') : Ends m s Q' E' := by
  unfold Ends at h ⊢
  split at h
  · exact hQ _ _ h
  · exact hE _ _ h

theorem Ends.weaken (h : Ends m s Q E) (hQ : ∀ a s', Q a s' → Q' a s') : Ends m s Q' E :=
  h.mono hQ fun _ _ he => he

theorem Ends.and (h : Ends m s Q E) (h' : Ends m s Q' E') :
    Ends m s (fun a s' => Q a s' ∧ Q' a s') (fun e s' => E e s' ∧ E' e s') := by
  unfold Ends at h h' ⊢
  split at h
  · rename_i heq; rw [heq] at h'; exact ⟨h, h'⟩
  · rename_i heq; rw [heq] at h'; exact ⟨h, h'⟩

theorem Ends.of_ok (h : Ends m s Q E) (hm : m s = .ok a s') : Q a s' := by
  rw [Ends, hm] at h; exact h

variable {e : ε}

theorem Ends.of_error (h : Ends m s Q E) (hm : m s = .error e s') : E e s' := by
  rw [Ends, hm] at h; exact h

/-- There is no panic. -/
def never : ε → σ → Prop := fun _ _ => False

theorem never_elim {p : Prop} (h : never e s) : p := h.elim

/-- Without panics there is a result. -/
theorem Ends.result (h : Ends m s Q never) : ∃ a s', m s = .ok a s' ∧ Q a s' := by
  unfold Ends at h
  split at h
  · exact ⟨_, _, ‹_›, h⟩
  · exact h.elim

/-- Any panic is accepted. -/
def mayPanic : ε → σ → Prop := fun _ _ => True

theorem ends_mayPanic (h : ∀ a s', m s = .ok a s' → Q a s') : Ends m s Q mayPanic := by
  unfold Ends
  cases hm : m s with
  | ok a s' => exact h a s' hm
  | error e s' => trivial

/-- The state at the end, after a panic too. -/
def lastState : EStateM.Result ε σ α → σ
  | .ok _ s => s
  | .error _ s => s

/-- The panic, if there is one. -/
def panicOf : EStateM.Result ε σ α → Option ε
  | .ok _ _ => none
  | .error e _ => some e

theorem eq_ok_of_panicOf {r : EStateM.Result ε σ PUnit} (h : panicOf r = none) :
    r = .ok ⟨⟩ (lastState r) := by
  cases r with
  | ok a s => rfl
  | error e s => cases h

/-- The result, if there is one. -/
def resultOf : EStateM.Result ε σ α → Option α
  | .ok a _ => some a
  | .error _ _ => none

theorem eq_ok_of_resultOf {r : EStateM.Result ε σ α} (h : resultOf r = some a) :
    r = .ok a (lastState r) := by
  cases r with
  | ok b s =>
    cases h
    rfl
  | error e s => cases h

theorem Ends.of_panicOf (h : Ends m s Q E) (hpanic : panicOf (m s) = none) :
    ∃ a, m s = .ok a (lastState (m s)) ∧ Q a (lastState (m s)) := by
  unfold Ends at h
  cases hm : m s with
  | ok a s' => rw [hm] at h; exact ⟨a, rfl, h⟩
  | error e s' => rw [hm] at hpanic; cases hpanic

theorem Ends.result_of (h : Ends m s Q E) (hE : ∀ e, ¬E e (lastState (m s))) :
    ∃ a s', m s = .ok a s' ∧ s' = lastState (m s) ∧ Q a s' := by
  unfold Ends at h
  split at h
  · rename_i a s' heq; exact ⟨a, s', heq, by rw [heq]; rfl, h⟩
  · rename_i e s' heq; rw [heq] at hE; exact absurd h (hE e)

/-! ## Rules for the primitive steps -/

@[simp] theorem ends_pure (a : α) : Ends (pure a : EStateM ε σ α) s Q E ↔ Q a s := Iff.rfl

@[simp] theorem ends_throw (e : ε) : Ends (throw e : EStateM ε σ α) s Q E ↔ E e s := Iff.rfl

@[simp] theorem ends_get {Q : σ → σ → Prop} : Ends (get : EStateM ε σ σ) s Q E ↔ Q s s := Iff.rfl

@[simp] theorem ends_set {Q : PUnit → σ → Prop} (s' : σ) :
    Ends (set s' : EStateM ε σ PUnit) s Q E ↔ Q ⟨⟩ s' := Iff.rfl

@[simp] theorem ends_modify {Q : PUnit → σ → Prop} (f : σ → σ) :
    Ends (modify f : EStateM ε σ PUnit) s Q E ↔ Q ⟨⟩ (f s) := Iff.rfl

/-- A sequence, step by step. -/
@[simp] theorem ends_bind {Q : β → σ → Prop} (m : EStateM ε σ α) (f : α → EStateM ε σ β) :
    Ends (m >>= f) s Q E ↔ Ends m s (fun a s' => Ends (f a) s' Q E) E := by
  unfold Ends
  show (match EStateM.bind m f s with | .ok a s' => Q a s' | .error e s' => E e s') ↔ _
  unfold EStateM.bind
  cases m s <;> rfl

variable {f : α → EStateM ε σ β}

/-- **Rule for a sequence**: what holds behind the first part is what the second one needs. -/
theorem Ends.bind {f : α → EStateM ε σ β} {R : β → σ → Prop} (h : Ends m s Q E)
    (hf : ∀ a s', Q a s' → Ends (f a) s' R E) : Ends (m >>= f) s R E := by
  rw [ends_bind]
  exact h.weaken hf

theorem bind_run_ok (h : m s = .ok a s') : (m >>= f) s = f a s' := by
  show EStateM.bind m f s = f a s'
  unfold EStateM.bind
  rw [h]

theorem map_run_ok {f : α → β} (h : m s = .ok a s') : (f <$> m) s = .ok (f a) s' := by
  show EStateM.map f m s = _
  unfold EStateM.map
  rw [h]

theorem pure_run (a : α) (s : σ) : (pure a : EStateM ε σ α) s = .ok a s := rfl

theorem get_run (s : σ) : (get : EStateM ε σ σ) s = .ok s s := rfl

theorem set_run (s s' : σ) : (set s' : EStateM ε σ PUnit) s = .ok ⟨⟩ s' := rfl

theorem modify_run (f : σ → σ) (s : σ) : (modify f : EStateM ε σ PUnit) s = .ok ⟨⟩ (f s) := rfl

theorem bind_run (m : EStateM ε σ α) (f : α → EStateM ε σ β) (s : σ) : (m >>= f) s =
    match m s with
    | .ok a s' => f a s'
    | .error e s' => .error e s' := by
  show EStateM.bind m f s = _
  unfold EStateM.bind
  cases m s <;> rfl

theorem modify_bind_run (f : σ → σ) (g : PUnit → EStateM ε σ β) :
    (modify f >>= g) s = g ⟨⟩ (f s) := rfl

theorem get_bind_run (g : σ → EStateM ε σ β) : (get >>= g) s = g s s := rfl

@[simp] theorem ends_map {Q : β → σ → Prop} (f : α → β) (m : EStateM ε σ α) :
    Ends (f <$> m) s Q E ↔ Ends m s (fun a s' => Q (f a) s') E := by
  unfold Ends
  show (match EStateM.map f m s with | .ok a s' => Q a s' | .error e s' => E e s') ↔ _
  unfold EStateM.map
  cases m s <;> rfl

variable {c : Prop}

/-- **Rule for a branch.** -/
theorem ends_ite [Decidable c] {m' : EStateM ε σ α} (h : c → Ends m s Q E) (h' : ¬c → Ends m' s Q E) :
    Ends (if c then m else m') s Q E := by
  by_cases hc : c
  · rw [if_pos hc]; exact h hc
  · rw [if_neg hc]; exact h' hc

/-- Raise `e` unless `c` holds. -/
def check (c : Prop) [Decidable c] (e : ε) : EStateM ε σ PUnit := if c then pure ⟨⟩ else throw e

theorem ends_check_of {Q : PUnit → σ → Prop} [Decidable c] (hc : c) :
    Ends (check c e) s Q E ↔ Q ⟨⟩ s := by
  rw [check, if_pos hc]; exact ends_pure _

theorem check_of [Decidable c] (hc : c) : (check c e : EStateM ε σ PUnit) = pure ⟨⟩ := if_pos hc

theorem check_bind_run [Decidable c] {f : PUnit → EStateM ε σ β} (hc : c) :
    (check c e >>= f) s = f ⟨⟩ s := by
  rw [check_of hc]; rfl

theorem ends_check {Q : PUnit → σ → Prop} [Decidable c] (h : c → Q ⟨⟩ s) (h' : ¬c → E e s) :
    Ends (check c e) s Q E :=
  ends_ite h h'

theorem ends_check_iff {Q : PUnit → σ → Prop} [Decidable c] :
    Ends (check c e) s Q E ↔ (c → Q ⟨⟩ s) ∧ (¬c → E e s) := by
  unfold check
  split
  · next hc => simp [hc]
  · next hc => simp [hc]

theorem except_bind_eq_ok {x : Except ε α} {f : α → Except ε β} {b : β} :
    (x >>= f) = .ok b ↔ ∃ a, x = .ok a ∧ f a = .ok b := by
  cases x with
  | error e => simp [bind, Except.bind]
  | ok a => simp [bind, Except.bind]

/-- An error becomes a panic. -/
def orPanic : Except ε α → EStateM ε σ α
  | .ok a => pure a
  | .error e => throw e

@[simp] theorem ends_orPanic_ok (a : α) :
    Ends (orPanic (.ok a) : EStateM ε σ α) s Q E ↔ Q a s := Iff.rfl

@[simp] theorem ends_orPanic_error (e : ε) :
    Ends (orPanic (.error e) : EStateM ε σ α) s Q E ↔ E e s := Iff.rfl

/-- Unwrap an option, panicking with `e` on `none`. -/
def unwrap (o : Option α) (e : ε) : EStateM ε σ α :=
  match o with
  | some a => pure a
  | none => throw e

@[simp] theorem ends_unwrap_some (a : α) (e : ε) :
    Ends (unwrap (some a) e : EStateM ε σ α) s Q E ↔ Q a s := Iff.rfl

theorem orPanic_bind_run (a : α) (g : α → EStateM ε σ β) :
    (orPanic (.ok a) >>= g) s = g a s := rfl

theorem unwrap_bind_run (a : α) (e : ε) (g : α → EStateM ε σ β) :
    (unwrap (some a) e >>= g) s = g a s := rfl

/-! ## Steps that may panic -/

theorem ends_check_mayPanic {Q : PUnit → σ → Prop} [Decidable c] (h : c → Q ⟨⟩ s) :
    Ends (check c e) s Q mayPanic :=
  ends_check h fun _ => trivial

theorem ends_unwrap_mayPanic {o : Option α} (h : ∀ a, o = some a → Q a s) :
    Ends (unwrap o e) s Q mayPanic := by
  cases o with
  | none => trivial
  | some a => exact h a rfl

theorem ends_orPanic_mayPanic {x : Except ε α} (h : ∀ a, x = .ok a → Q a s) :
    Ends (orPanic x) s Q mayPanic := by
  cases x with
  | error e => trivial
  | ok a => exact h a rfl

/-! ## Running on a component of the state -/

/-- Run `m` on the component `get s` of the state. -/
def focus (get : σ → τ) (put : τ → σ → σ) (m : EStateM ε τ α) : EStateM ε σ α := fun s =>
  match m (get s) with
  | .ok a t => .ok a (put t s)
  | .error e t => .error e (put t s)

/-- What runs on a component changes only that. -/
@[simp] theorem ends_focus (get : σ → τ) (put : τ → σ → σ) (m : EStateM ε τ α) :
    Ends (focus get put m) s Q E ↔
      Ends m (get s) (fun a t => Q a (put t s)) (fun e t => E e (put t s)) := by
  unfold Ends focus
  cases m (get s) <;> rfl

/-! ## Loops -/

/-- Run `f` on the elements, in order. -/
def forEach : List β → (β → EStateM ε σ PUnit) → EStateM ε σ PUnit
  | [], _ => pure ⟨⟩
  | b :: bs, f => do f b; forEach bs f

theorem forEach_map {γ : Type} (g : γ → β) (l : List γ) (f : β → EStateM ε σ PUnit) :
    forEach (l.map g) f = forEach l fun c => f (g c) := by
  induction l with
  | nil => rfl
  | cons c l ih => rw [List.map_cons, forEach, forEach, ih]

/-- **Loop rule**, for an invariant of the elements still to come. -/
theorem ends_forEach {I : List β → σ → Prop} {f : β → EStateM ε σ PUnit} {bs : List β}
    (hI : I bs s) (hf : ∀ b rest s, I (b :: rest) s → Ends (f b) s (fun _ s' => I rest s') E) :
    Ends (forEach bs f) s (fun _ s' => I [] s') E := by
  induction bs generalizing s with
  | nil => exact hI
  | cons b rest ih =>
    rw [forEach]
    exact (hf b rest s hI).bind fun _ s' hs' => ih hs'

end FuzzSocketCan.Lib
