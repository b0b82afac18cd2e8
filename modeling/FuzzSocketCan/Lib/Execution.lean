import Mathlib.Data.Option.Basic

/-! # Runs of a transition system

A system is given by what an action does to a state, `none` where it cannot be taken. A run is a
list of actions.

* **`EachStep`**, **`Throughout`** — a property of all steps, and of all states, of a run.
* **`exec_invariant_of_eachStep`** — an invariant of the steps is one of the runs. -/

namespace FuzzSocketCan.Lib

variable {σ α : Type} {step : σ → α → Option σ} {I : σ → Prop} {P : σ → α → Prop} {s s' : σ}
  {as bs : List α}

/-- A run of `step`; `none` if a step fails. -/
def exec (step : σ → α → Option σ) : σ → List α → Option σ
  | s, [] => some s
  | s, a :: as => (step s a).bind fun s' => exec step s' as

@[simp] theorem exec_nil (s : σ) : exec step s [] = some s := rfl

theorem exec_cons_eq_some {a : α} :
    exec step s (a :: as) = some s' ↔ ∃ s1, step s a = some s1 ∧ exec step s1 as = some s' :=
  Option.bind_eq_some_iff

theorem exec_append (s : σ) (as bs : List α) :
    exec step s (as ++ bs) = (exec step s as).bind fun s' => exec step s' bs := by
  induction as generalizing s with
  | nil => rfl
  | cons a as ih => simp only [List.cons_append, exec, Option.bind_assoc, ih]

theorem exec_some (f : σ → α → σ) (s : σ) (as : List α) :
    exec (fun s a => some (f s a)) s as = some (as.foldl f s) := by
  induction as generalizing s with
  | nil => rfl
  | cons a as ih => exact ih (f s a)

/-- Every step of the run meets `P`. -/
def EachStep (step : σ → α → Option σ) (P : σ → α → Prop) : σ → List α → Prop
  | _, [] => True
  | s, a :: as => P s a ∧ ∀ s', step s a = some s' → EachStep step P s' as

instance EachStep.decidable [∀ s a, Decidable (P s a)] : ∀ s as, Decidable (EachStep step P s as)
  | _, [] => isTrue trivial
  | s, a :: as =>
    match h : step s a with
    | none => decidable_of_iff (P s a) ⟨fun hp => ⟨hp, fun _ hs => by rw [h] at hs; cases hs⟩,
        And.left⟩
    | some s' =>
      have := EachStep.decidable s' as
      decidable_of_iff (P s a ∧ EachStep step P s' as)
        (and_congr_right fun _ => ⟨fun hE _ hs => by rw [h] at hs; cases hs; exact hE,
          fun hE => hE s' h⟩)

theorem EachStep.of_append (h : EachStep step P s (as ++ bs)) : EachStep step P s as := by
  induction as generalizing s with
  | nil => trivial
  | cons a as ih => exact ⟨h.1, fun s' hs => ih (h.2 s' hs)⟩

/-- `Q` holds in every state of the run. -/
def Throughout (step : σ → α → Option σ) (Q : σ → Prop) : σ → List α → Prop
  | s, [] => Q s
  | s, a :: as => Q s ∧ ∀ s', step s a = some s' → Throughout step Q s' as

theorem Throughout.head {Q : σ → Prop} (h : Throughout step Q s as) : Q s := by
  cases as with
  | nil => exact h
  | cons a as => exact h.1

theorem eachStep_of_forall_mem (hP : ∀ a ∈ as, ∀ s, P s a) (s : σ) : EachStep step P s as := by
  induction as generalizing s with
  | nil => trivial
  | cons a as ih =>
    exact ⟨hP a List.mem_cons_self s, fun s' _ => ih (fun b hb => hP b (.tail a hb)) s'⟩

theorem eachStep_true (s : σ) (as : List α) : EachStep step (fun _ _ => True) s as :=
  eachStep_of_forall_mem (fun _ _ _ => trivial) s

variable {Q : σ → α → Prop}

theorem EachStep.and (h : EachStep step P s as) (h' : EachStep step Q s as) :
    EachStep step (fun s a => P s a ∧ Q s a) s as := by
  induction as generalizing s with
  | nil => trivial
  | cons a as ih => exact ⟨⟨h.1, h'.1⟩, fun s' hs => ih (h.2 s' hs) (h'.2 s' hs)⟩

/-- What an invariant gives at each step. -/
theorem EachStep.of_invariant (hstep : ∀ s a s', I s → P s a → step s a = some s' → I s')
    (hQ : ∀ s a, I s → P s a → Q s a) (hP : EachStep step P s as) (hI : I s) :
    EachStep step Q s as := by
  induction as generalizing s with
  | nil => trivial
  | cons a as ih =>
    exact ⟨hQ s a hI hP.1, fun s' hs => ih (hP.2 s' hs) (hstep s a s' hI hP.1 hs)⟩

theorem throughout_of_eachStep {Q : σ → Prop}
    (hstep : ∀ s a s', I s → P s a → step s a = some s' → I s') (hQ : ∀ s, I s → Q s)
    (hP : EachStep step P s as) (hI : I s) : Throughout step Q s as := by
  induction as generalizing s with
  | nil => exact hQ s hI
  | cons a as ih =>
    exact ⟨hQ s hI, fun s' hs => ih (hP.2 s' hs) (hstep s a s' hI hP.1 hs)⟩

/-- **Invariant rule**, with a condition on each step. -/
theorem exec_invariant_of_eachStep (hstep : ∀ s a s', I s → P s a → step s a = some s' → I s')
    (hP : EachStep step P s as) (hI : I s) (h : exec step s as = some s') : I s' := by
  induction as generalizing s with
  | nil =>
    obtain rfl : s = s' := by simpa using h
    exact hI
  | cons a as ih =>
    obtain ⟨s1, hs, h⟩ := exec_cons_eq_some.mp h
    exact ih (hP.2 s1 hs) (hstep s a s1 hI hP.1 hs) h

section Invariant

variable (hstep : ∀ s a s', I s → step s a = some s' → I s')

include hstep

theorem eachStep_of_invariant (hP : ∀ s a, I s → P s a) (hI : I s) (as : List α) :
    EachStep step P s as :=
  .of_invariant (fun s a s' hI _ => hstep s a s' hI) (fun s a hI _ => hP s a hI)
    (eachStep_true s as) hI

theorem throughout_of_step (hI : I s) (as : List α) : Throughout step I s as :=
  throughout_of_eachStep (fun s a s' hI _ => hstep s a s' hI) (fun _ hI => hI)
    (eachStep_true s as) hI

/-- **Invariant rule for runs.** -/
theorem exec_invariant (hI : I s) (h : exec step s as = some s') : I s' :=
  exec_invariant_of_eachStep (fun s a s' hI _ => hstep s a s' hI) (eachStep_true s as) hI h

end Invariant

variable {τ : Type}

theorem exec_rel_of_eachStep {step' : τ → α → Option τ} {R : σ → τ → Prop} {t : τ}
    (hstep : ∀ s t a, R s t → P s a → Option.Rel R (step s a) (step' t a))
    (hP : EachStep step P s as) (hR : R s t) : Option.Rel R (exec step s as) (exec step' t as) := by
  induction as generalizing s t with
  | nil => exact .some hR
  | cons a as ih =>
    have hrel := hstep s t a hR hP.1
    have hrest := hP.2
    unfold exec
    generalize step s a = o, step' t a = o' at hrel hrest ⊢
    cases hrel with
    | none => exact .none
    | some hR1 => exact ih (hrest _ rfl) hR1

theorem rel_and_of_forall {R : σ → τ → Prop} {o : Option σ} {o' : Option τ} (h : Option.Rel R o o')
    (hI : ∀ s, o = some s → I s) : Option.Rel (fun s t => R s t ∧ I s) o o' := by
  cases h with
  | none => exact .none
  | some h => exact .some ⟨h, hI _ rfl⟩

/-- **Simulation rule.** -/
theorem exec_simulates_of_eachStep {step' : τ → α → Option τ} {R : σ → τ → Prop} {t : τ}
    (hstep : ∀ s t a s', R s t → P s a → step s a = some s' → ∃ t', step' t a = some t' ∧ R s' t')
    (hP : EachStep step P s as) (hR : R s t) (h : exec step s as = some s') :
    ∃ t', exec step' t as = some t' ∧ R s' t' := by
  induction as generalizing s t with
  | nil =>
    obtain rfl : s = s' := by simpa using h
    exact ⟨t, rfl, hR⟩
  | cons a as ih =>
    obtain ⟨s1, hs, h⟩ := exec_cons_eq_some.mp h
    obtain ⟨t1, ht, hR1⟩ := hstep s t a s1 hR hP.1 hs
    obtain ⟨t', ht', hR'⟩ := ih (hP.2 s1 hs) hR1 h
    exact ⟨t', exec_cons_eq_some.mpr ⟨t1, ht, ht'⟩, hR'⟩

end FuzzSocketCan.Lib
