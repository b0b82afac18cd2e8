import FuzzSocketCan.Lib.LinearUse

/-! # Renaming the resources of a trace

* **`Renames`** — two traces correspond: the resources of the first are renamed to those of the
  second. The renaming takes up one that is created and drops one that is consumed.
* **`Agree`** — a label attached to a resource when it is created is found on both sides. -/

namespace FuzzSocketCan.Lib

open Function

variable {R R' L : Type} [DecidableEq R]

/-- `fs` is `es` renamed; what is created gets a name that is not in use. -/
inductive Renames : (R → Option R') → List (Event R) → List (Event R') → (R → Option R') → Prop
  | done (ρ : R → Option R') : Renames ρ [] [] ρ
  | tick {ρ ρ' : R → Option R'} {es : List (Event R)} {fs : List (Event R')} :
      Renames ρ es fs ρ' → Renames ρ (.tick :: es) (.tick :: fs) ρ'
  | borrow {ρ ρ' : R → Option R'} {es : List (Event R)} {fs : List (Event R')} {r : R} {r' : R'} :
      ρ r = some r' → Renames ρ es fs ρ' → Renames ρ (.borrow r :: es) (.borrow r' :: fs) ρ'
  | consume {ρ ρ' : R → Option R'} {es : List (Event R)} {fs : List (Event R')} {r : R} {r' : R'} :
      ρ r = some r' → Renames (update ρ r none) es fs ρ' →
        Renames ρ (.consume r :: es) (.consume r' :: fs) ρ'
  | create {ρ ρ' : R → Option R'} {es : List (Event R)} {fs : List (Event R')} {r : R} {r' : R'} :
      (∀ q, ρ q ≠ some r') → Renames (update ρ r (some r')) es fs ρ' →
        Renames ρ (.create r :: es) (.create r' :: fs) ρ'

variable {ρ ρ1 ρ' : R → Option R'} {es es' : List (Event R)} {fs fs' : List (Event R')}
  {r : R} {r' : R'}

/-- **Renamings of consecutive parts compose.** -/
theorem Renames.append (h : Renames ρ es fs ρ1) (h' : Renames ρ1 es' fs' ρ') :
    Renames ρ (es ++ es') (fs ++ fs') ρ' := by
  induction h with
  | done ρ => exact h'
  | tick _ ih => exact .tick (ih h')
  | borrow hr _ ih => exact .borrow hr (ih h')
  | consume hr _ ih => exact .consume hr (ih h')
  | create hr _ ih => exact .create hr (ih h')

/-! ### What the first event of a trace says about the other trace -/

theorem Renames.of_tick (h : Renames ρ (.tick :: es) fs ρ') :
    ∃ fs', fs = .tick :: fs' ∧ Renames ρ es fs' ρ' := by
  cases h with
  | tick h => exact ⟨_, rfl, h⟩

theorem Renames.of_borrow (h : Renames ρ (.borrow r :: es) fs ρ') :
    ∃ r' fs', fs = .borrow r' :: fs' ∧ ρ r = some r' ∧ Renames ρ es fs' ρ' := by
  cases h with
  | borrow hr h => exact ⟨_, _, rfl, hr, h⟩

theorem Renames.of_consume (h : Renames ρ (.consume r :: es) fs ρ') :
    ∃ r' fs', fs = .consume r' :: fs' ∧ ρ r = some r' ∧
      Renames (update ρ r none) es fs' ρ' := by
  cases h with
  | consume hr h => exact ⟨_, _, rfl, hr, h⟩

theorem Renames.of_create (h : Renames ρ (.create r :: es) fs ρ') :
    ∃ r' fs', fs = .create r' :: fs' ∧ (∀ q, ρ q ≠ some r') ∧
      Renames (update ρ r (some r')) es fs' ρ' := by
  cases h with
  | create hr h => exact ⟨_, _, rfl, hr, h⟩

/-! ### Names -/

/-- No two resources share a name. -/
def OneToOne (ρ : R → Option R') : Prop := ∀ r q r', ρ r = some r' → ρ q = some r' → r = q

theorem OneToOne.remove (h : OneToOne ρ) (r : R) : OneToOne (update ρ r none) := by
  intro a b c ha hb
  by_cases har : a = r
  · rw [har, update_self] at ha; cases ha
  by_cases hbr : b = r
  · rw [hbr, update_self] at hb; cases hb
  rw [update_of_ne har] at ha
  rw [update_of_ne hbr] at hb
  exact h a b c ha hb

theorem OneToOne.insert (h : OneToOne ρ) (hfresh : ∀ q, ρ q ≠ some r') (r : R) :
    OneToOne (update ρ r (some r')) := by
  intro a b c ha hb
  by_cases har : a = r
  · by_cases hbr : b = r
    · rw [har, hbr]
    · rw [har, update_self] at ha
      rw [update_of_ne hbr, ← Option.some.inj ha] at hb
      exact absurd hb (hfresh b)
  · rw [update_of_ne har] at ha
    by_cases hbr : b = r
    · rw [hbr, update_self] at hb
      rw [← Option.some.inj hb] at ha
      exact absurd ha (hfresh a)
    · rw [update_of_ne hbr] at hb
      exact h a b c ha hb

/-! ## Labels -/

/-- A resource has the same label under both names. -/
def Agree (ρ : R → Option R') (env : R → Option L) (env' : R' → Option L) : Prop :=
  ∀ r r', ρ r = some r' → ∃ l, env r = some l ∧ env' r' = some l

variable {env : R → Option L} {env' : R' → Option L}

theorem Agree.remove [DecidableEq R'] (h : Agree ρ env env') (hρ : OneToOne ρ) (hr : ρ r = some r') :
    Agree (update ρ r none) (update env r none)
      (update env' r' none) := by
  intro q q' hq
  by_cases hqr : q = r
  · rw [hqr, update_self] at hq; cases hq
  rw [update_of_ne hqr] at hq
  have hne : q' ≠ r' := fun heq => hqr (hρ q r r' (heq ▸ hq) hr)
  rw [update_of_ne hqr, update_of_ne hne]
  exact h q q' hq

theorem Agree.insert [DecidableEq R'] (h : Agree ρ env env') (hfresh : ∀ q, ρ q ≠ some r')
    (r : R) (l : L) :
    Agree (update ρ r (some r')) (update env r (some l))
      (update env' r' (some l)) := by
  intro q q' hq
  by_cases hqr : q = r
  · rw [hqr, update_self] at hq
    rw [hqr, ← Option.some.inj hq, update_self, update_self]
    exact ⟨l, rfl, rfl⟩
  · rw [update_of_ne hqr] at hq
    have hne : q' ≠ r' := fun heq => hfresh q (heq ▸ hq)
    rw [update_of_ne hqr, update_of_ne hne]
    exact h q q' hq

end FuzzSocketCan.Lib
