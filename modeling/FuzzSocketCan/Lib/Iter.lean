import Mathlib.Data.List.Basic
import FuzzSocketCan.Lib.Ends

/-! # Iterators that may panic

The items an iterator yields, with the panic that the call of `next` after the last one raises.

* **`Iter`** — an iterator, with `take`, `skip` and `enumerate`.
* **`forIter`**, **`forIterWhile`** — loops over one.
* **`Preserves`** — a program keeps an invariant, with a rule for each way to build programs. -/

namespace FuzzSocketCan.Lib

structure Iter (ε α : Type) where
  items : List α
  stop : Option ε

variable {ε σ α β : Type}

namespace Iter

def ofList (l : List α) : Iter ε α := ⟨l, none⟩

@[simp] theorem ofList_items (l : List α) : (ofList l : Iter ε α).items = l := rfl

@[simp] theorem ofList_stop (l : List α) : (ofList l : Iter ε α).stop = none := rfl

/-- An iterator that panics at once. -/
def panicking (e : ε) : Iter ε α := ⟨[], some e⟩

def cons (a : α) (it : Iter ε α) : Iter ε α := ⟨a :: it.items, it.stop⟩

def prepend (l : List α) (it : Iter ε α) : Iter ε α := ⟨l ++ it.items, it.stop⟩

@[simp] theorem prepend_nil (it : Iter ε α) : prepend [] it = it := rfl

@[simp] theorem prepend_ofList (l l' : List α) :
    prepend l (ofList l' : Iter ε α) = ofList (l ++ l') := rfl

/-- The first `n` items, with a panic only if there are fewer. -/
def take (n : ℕ) (it : Iter ε α) : Iter ε α :=
  ⟨it.items.take n, if it.items.length < n then it.stop else none⟩

/-- All but the first `n` items. -/
def skip (n : ℕ) (it : Iter ε α) : Iter ε α := ⟨it.items.drop n, it.stop⟩

def enumerate (it : Iter ε α) : Iter ε (α × ℕ) := ⟨it.items.zipIdx, it.stop⟩

variable {n : ℕ} {it : Iter ε α}

theorem take_stop (h : it.stop = none) : (it.take n).stop = none := by
  rw [take]; split
  · exact h
  · rfl

theorem skip_stop (h : it.stop = none) : (it.skip n).stop = none := h

theorem take_items_subset {a : α} (h : a ∈ (it.take n).items) :
    a ∈ it.items := List.mem_of_mem_take h

theorem skip_items_subset {a : α} (h : a ∈ (it.skip n).items) :
    a ∈ it.items := List.mem_of_mem_drop h

end Iter

def raise (stop : Option ε) : EStateM ε σ PUnit :=
  match stop with
  | none => pure ⟨⟩
  | some e => throw e

theorem ends_raise_mayPanic {stop : Option ε} {s : σ} {Q : PUnit → σ → Prop}
    (h : stop = none → Q ⟨⟩ s) : Ends (raise stop) s Q mayPanic := by
  cases stop with
  | none => exact h rfl
  | some e => trivial

def forIter (it : Iter ε β) (f : β → EStateM ε σ PUnit) : EStateM ε σ PUnit := do
  forEach it.items f
  raise it.stop

def forEachWhile : List β → (β → EStateM ε σ Bool) → EStateM ε σ Bool
  | [], _ => pure true
  | b :: bs, f => do
      if ← f b then forEachWhile bs f else pure false

def forIterWhile (it : Iter ε β) (f : β → EStateM ε σ Bool) : EStateM ε σ Bool := do
  if ← forEachWhile it.items f then do
    raise it.stop
    pure true
  else pure false

variable {s : σ} {E : ε → σ → Prop}

theorem ends_forIter {it : Iter ε β} {I : List β → σ → Prop} {f : β → EStateM ε σ PUnit}
    (hstop : it.stop = none) (hI : I it.items s)
    (hf : ∀ b rest s, I (b :: rest) s → Ends (f b) s (fun _ s' => I rest s') E) :
    Ends (forIter it f) s (fun _ s' => I [] s') E := by
  rw [forIter, hstop]
  exact (ends_forEach hI hf).bind fun _ s' hs' => hs'

theorem ends_forIter_stop (it : Iter ε β) (f : β → EStateM ε σ PUnit) :
    Ends (forIter it f) s (fun _ _ => it.stop = none) mayPanic := by
  rw [forIter, ends_bind]
  refine ends_mayPanic fun _ s' _ => ?_
  cases hstop : it.stop with
  | none => rfl
  | some e => trivial

/-! ## Invariants -/

variable {I : σ → Prop}

def Preserves (I : σ → Prop) (E : ε → σ → Prop) (m : EStateM ε σ α) : Prop :=
  ∀ s, I s → Ends m s (fun _ s' => I s') E

abbrev AnyPanic (E : ε → σ → Prop) : Prop := ∀ e s, E e s

theorem anyPanic {c : Prop} : AnyPanic (mayPanic : ε → σ → Prop) ∨ c := .inl fun _ _ => trivial

theorem ends_check_or {c : Prop} [Decidable c] {e : ε} {Q : PUnit → σ → Prop}
    (h : AnyPanic E ∨ c) (hQ : Q ⟨⟩ s) : Ends (check c e) s Q E :=
  ends_check (fun _ => hQ) fun hc => h.resolve_right hc e s

namespace Preserves

theorem bind {m : EStateM ε σ α} {f : α → EStateM ε σ β} (h : Preserves I E m)
    (h' : ∀ a, Preserves I E (f a)) : Preserves I E (m >>= f) :=
  fun s hs => (h s hs).bind h'

theorem pure (a : α) : Preserves I E (Pure.pure a) := fun _ hs => hs

theorem ite {c : Prop} [Decidable c] {m m' : EStateM ε σ α} (h : Preserves I E m)
    (h' : Preserves I E m') : Preserves I E (if c then m else m') :=
  fun s hs => ends_ite (fun _ => h s hs) fun _ => h' s hs

theorem check {c : Prop} [Decidable c] {e : ε} (h : AnyPanic E ∨ c) :
    Preserves I E (Lib.check c e) := fun _ hs => ends_check_or h hs

theorem raise {stop : Option ε} (h : AnyPanic E ∨ stop = none) :
    Preserves I E (Lib.raise stop) := by
  cases stop with
  | none => exact pure _
  | some e => exact fun s _ => h.resolve_right (Option.some_ne_none e) e s

theorem forEach {bs : List β} {f : β → EStateM ε σ PUnit} (hf : ∀ b ∈ bs, Preserves I E (f b)) :
    Preserves I E (Lib.forEach bs f) := by
  induction bs with
  | nil => exact pure _
  | cons b bs ih =>
    apply bind (hf b List.mem_cons_self)
    exact fun _ => ih fun b' hb' => hf b' (List.mem_cons_of_mem _ hb')

theorem forIter {it : Iter ε β} {f : β → EStateM ε σ PUnit} (hstop : AnyPanic E ∨ it.stop = none)
    (hf : ∀ b ∈ it.items, Preserves I E (f b)) : Preserves I E (Lib.forIter it f) :=
  bind (forEach hf) fun _ => raise hstop

variable {f : β → EStateM ε σ Bool}

theorem forEachWhile {bs : List β} (hf : ∀ b ∈ bs, Preserves I E (f b)) :
    Preserves I E (Lib.forEachWhile bs f) := by
  induction bs with
  | nil => exact pure _
  | cons b bs ih =>
    exact bind (hf b List.mem_cons_self) fun _ =>
      ite (ih fun b' hb' => hf b' (List.mem_cons_of_mem _ hb')) (pure _)

theorem forIterWhile {it : Iter ε β} (hstop : AnyPanic E ∨ it.stop = none)
    (hf : ∀ b ∈ it.items, Preserves I E (f b)) : Preserves I E (Lib.forIterWhile it f) :=
  bind (forEachWhile hf) fun _ => ite (bind (raise hstop) fun _ => pure _) (pure _)

end Preserves

end FuzzSocketCan.Lib
