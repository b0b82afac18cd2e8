import Mathlib.Data.Set.Insert
import FuzzSocketCan.Lib.Lists

/-! # Linear use of resources

A trace creates, borrows and consumes resources; `tick` separates its steps.

* **`mem_liveAfter`** — live after a trace are those created and not consumed since.
* **`Linear`** — only live resources are used, and every one is created once.
* **`Reusing`** — one that is not live may be created again. -/

namespace FuzzSocketCan.Lib

open List

/-- What happens to resources; a `tick` begins a step. -/
inductive Event (R : Type)
  | consume (r : R)
  | borrow (r : R)
  | create (r : R)
  | tick
  deriving DecidableEq, Repr

variable {R : Type}

namespace Event

def after (s : Set R) : Event R → Set R
  | consume r => s \ {r}
  | borrow _ => s
  | create r => insert r s
  | tick => s

def Uses (e : Event R) (r : R) : Prop := e = consume r ∨ e = borrow r

end Event

/-- The resources that are live after a trace. -/
def liveAfter (es : List (Event R)) : Set R := es.foldl Event.after ∅

@[simp] theorem liveAfter_nil : liveAfter ([] : List (Event R)) = ∅ := rfl

@[simp] theorem liveAfter_snoc (es : List (Event R)) (e : Event R) :
    liveAfter (es ++ [e]) = e.after (liveAfter es) := by
  rw [liveAfter, foldl_append]; rfl

variable {es : List (Event R)} {r : R}

/-- **Live is what was created and not consumed since.** -/
theorem mem_liveAfter : r ∈ liveAfter es ↔ ∃ a b, es = a ++ .create r :: b ∧ .consume r ∉ b := by
  induction es using reverseRecOn with
  | nil => simp
  | append_singleton es e ih =>
    rw [liveAfter_snoc]
    constructor
    · intro h
      by_cases he : e = .create r
      · exact ⟨es, [], by rw [he], not_mem_nil⟩
      · -- the resource was live before, and `e` does not consume it
        have hlive : r ∈ liveAfter es ∧ e ≠ .consume r := by
          cases e with
          | consume r' => exact ⟨h.1, fun heq => h.2 (Event.consume.inj heq ▸ rfl)⟩
          | borrow r' => exact ⟨h, by simp⟩
          | create r' =>
            obtain rfl | h := h
            · exact absurd rfl he
            · exact ⟨h, by simp⟩
          | tick => exact ⟨h, by simp⟩
        obtain ⟨a, b, rfl, hb⟩ := ih.1 hlive.1
        refine ⟨a, b ++ [e], by simp, fun hmem => ?_⟩
        rw [mem_append, mem_singleton] at hmem
        obtain hmem | hmem := hmem
        · exact hb hmem
        · exact hlive.2 hmem.symm
    · rintro ⟨a, b, heq, hb⟩
      obtain ⟨rfl, rfl, rfl⟩ | ⟨b', rfl, rfl⟩ := snoc_eq_append_cons heq
      · exact Set.mem_insert _ _
      · rw [mem_append, mem_singleton, not_or] at hb
        have hlive : r ∈ liveAfter (a ++ .create r :: b') := ih.2 ⟨a, b', rfl, hb.1⟩
        cases e with
        | consume r' => exact ⟨hlive, fun hr => hb.2 (by rw [Set.mem_singleton_iff.1 hr])⟩
        | borrow r' => exact hlive
        | create r' => exact Set.mem_insert_of_mem _ hlive
        | tick => exact hlive

/-! ## Disciplines -/

/-- Every event is allowed after those before it. -/
def Disciplined (ok : List (Event R) → Event R → Prop) (es : List (Event R)) : Prop :=
  ∀ pre e post, es = pre ++ e :: post → ok pre e

theorem disciplined_nil (ok : List (Event R) → Event R → Prop) : Disciplined ok [] := by
  intro pre e post h
  exact absurd h.symm (by simp)

variable {ok : List (Event R) → Event R → Prop} {e : Event R}

theorem disciplined_snoc : Disciplined ok (es ++ [e]) ↔ Disciplined ok es ∧ ok es e := by
  constructor
  · intro h
    refine ⟨fun pre e' post heq => ?_, h es e [] rfl⟩
    exact h pre e' (post ++ [e]) (by rw [heq, append_assoc, cons_append])
  · rintro ⟨h, he⟩ pre e' post heq
    obtain ⟨rfl, rfl, rfl⟩ | ⟨post', rfl, rfl⟩ := snoc_eq_append_cons heq
    · exact he
    · exact h pre e' post' rfl

variable {fs : List (Event R)}

theorem Disciplined.of_append (h : Disciplined ok (es ++ fs)) : Disciplined ok es := by
  rintro pre e post rfl
  exact h pre e (post ++ fs) (by simp)

/-- What is used is live, and nothing is created twice. -/
def linearOk (pre : List (Event R)) : Event R → Prop
  | .consume r | .borrow r => r ∈ liveAfter pre
  | .create r => .create r ∉ pre
  | .tick => True

/-- What is not live can be created again. -/
def reusingOk (pre : List (Event R)) : Event R → Prop
  | .consume r | .borrow r => r ∈ liveAfter pre
  | .create r => r ∉ liveAfter pre
  | .tick => True

def Linear (es : List (Event R)) : Prop := Disciplined linearOk es

def Reusing (es : List (Event R)) : Prop := Disciplined reusingOk es

theorem create_mem_of_live (h : r ∈ liveAfter es) : .create r ∈ es := by
  obtain ⟨a, b, rfl, -⟩ := mem_liveAfter.1 h
  exact mem_append_right _ mem_cons_self

theorem Linear.reusing (h : Linear es) : Reusing es := by
  intro pre e post heq
  have hok := h pre e post heq
  cases e with
  | create r => exact fun hlive => hok (create_mem_of_live hlive)
  | consume r => exact hok
  | borrow r => exact hok
  | tick => trivial

@[simp] theorem liveAfter_append_borrows (es : List (Event R)) (r : R) (n : ℕ) :
    liveAfter (es ++ List.replicate n (.borrow r)) = liveAfter es := by
  induction n with
  | zero => simp
  | succ n ih => rw [replicate_succ', ← append_assoc, liveAfter_snoc, ih]; rfl

theorem Reusing.borrows (h : Reusing es) (hr : r ∈ liveAfter es) (n : ℕ) :
    Reusing (es ++ List.replicate n (.borrow r)) := by
  induction n with
  | zero => simpa using h
  | succ n ih =>
    rw [replicate_succ', ← append_assoc]
    refine disciplined_snoc.2 ⟨ih, ?_⟩
    show r ∈ liveAfter _
    rwa [liveAfter_append_borrows]

theorem Linear.not_live_of_create (h : Linear (es ++ fs)) (hr : .create r ∈ fs) :
    r ∉ liveAfter es := by
  obtain ⟨a, b, rfl⟩ := append_of_mem hr
  have hfresh : .create r ∉ es ++ a := h (es ++ a) (.create r) b (by simp)
  exact fun hlive => hfresh (mem_append_left _ (create_mem_of_live hlive))

theorem Linear.not_live_of_consume (h : Linear es) (hr : .consume r ∈ es) : r ∉ liveAfter es := by
  intro hlive
  obtain ⟨a, b, rfl, hb⟩ := mem_liveAfter.1 hlive
  -- the consumption lies before the creation, but only what is live can be consumed
  have hmem : .consume r ∈ a := by simpa [hb] using hr
  obtain ⟨a1, a2, rfl⟩ := append_of_mem hmem
  have hlive1 : r ∈ liveAfter a1 := h a1 (.consume r) (a2 ++ .create r :: b) (by simp)
  have hfresh : .create r ∉ a1 ++ .consume r :: a2 := h _ (.create r) b rfl
  exact hfresh (mem_append_left _ (create_mem_of_live hlive1))

variable {pre post : List (Event R)}

theorem Linear.consume_once (h : Linear es) (heq : es = pre ++ .consume r :: post) :
    .consume r ∉ pre := by
  intro hmem
  have hlive : r ∈ liveAfter pre := h pre (.consume r) post heq
  rw [heq] at h
  exact Linear.not_live_of_consume (Disciplined.of_append h) hmem hlive

/-! ## Steps

A step of the system is a block of events: a tick, then uses, then creations. -/

/-- A tick, then uses, then creations. -/
def IsBlock (block : List (Event R)) : Prop :=
  ∃ uses creates, block = .tick :: uses ++ creates ∧ (∀ e ∈ uses, ∃ r, e.Uses r) ∧
    ∀ e ∈ creates, ∃ r, e = .create r

theorem liveAfter_append_of_borrows (hconsume : ∀ r, .consume r ∉ fs)
    (hcreate : ∀ r, .create r ∉ fs) : liveAfter (es ++ fs) = liveAfter es := by
  induction fs using reverseRecOn with
  | nil => rw [append_nil]
  | append_singleton fs e ih =>
    have ih := ih (fun r hr => hconsume r (mem_append_left _ hr))
      fun r hr => hcreate r (mem_append_left _ hr)
    rw [← append_assoc, liveAfter_snoc]
    cases e with
    | consume r => exact absurd (by simp) (hconsume r)
    | create r => exact absurd (by simp) (hcreate r)
    | borrow r => exact ih
    | tick => exact ih

theorem liveAfter_append_block_iff {block : List (Event R)} (hblock : IsBlock block)
    (h : Linear (es ++ block)) : liveAfter (es ++ block) = liveAfter es ↔
      (∀ r, .consume r ∉ block) ∧ ∀ r, .create r ∉ block := by
  refine ⟨fun heq => ?_, fun hnone => liveAfter_append_of_borrows hnone.1 hnone.2⟩
  obtain ⟨uses, creates, rfl, huses, hcreates⟩ := hblock
  have hcreate : ∀ r, .create r ∉ .tick :: uses ++ creates := by
    intro r hr
    -- nothing behind a creation of the step consumes
    have hmem : .create r ∈ creates := by
      rw [cons_append, mem_cons, mem_append] at hr
      obtain hr | hr | hr := hr
      · cases hr
      · obtain ⟨r', hr' | hr'⟩ := huses _ hr <;> cases hr'
      · exact hr
    obtain ⟨a, b, rfl⟩ := append_of_mem hmem
    have hlive : r ∈ liveAfter (es ++ (.tick :: uses ++ (a ++ .create r :: b))) := by
      refine mem_liveAfter.2 ⟨es ++ (.tick :: uses ++ a), b, by simp, fun hb => ?_⟩
      obtain ⟨r', hr'⟩ := hcreates (.consume r) (by simp [hb])
      cases hr'
    exact h.not_live_of_create hr (heq ▸ hlive)
  refine ⟨fun r hr => ?_, hcreate⟩
  have hdead := h.not_live_of_consume (mem_append_right es hr)
  rw [heq] at hdead
  obtain ⟨a, b, hab⟩ := append_of_mem hr
  rw [hab] at h
  have hlive : r ∈ liveAfter (es ++ a) := h (es ++ a) (.consume r) b (by simp)
  -- what was live when the step consumed it was live before the step
  obtain ⟨c, d, hcd, hd⟩ := mem_liveAfter.1 hlive
  obtain ⟨e, rfl, he⟩ | ⟨e, rfl, he⟩ := append_eq_append_iff.1 hcd
  · exact hcreate r (by rw [hab, he]; simp)
  · cases e with
    | nil => exact hcreate r (by rw [hab, ← nil_append a, ← he]; simp)
    | cons x e =>
      obtain ⟨rfl, rfl⟩ := cons.inj he
      exact hdead (mem_liveAfter.2 ⟨c, e, rfl, fun hmem => hd (mem_append_left _ hmem)⟩)

variable {blocks : List (List (Event R))}

theorem uses_in_block (hblocks : ∀ b ∈ blocks, IsBlock b) (he : e.Uses r)
    (heq : blocks.flatten = pre ++ e :: post) :
    ∃ before between, pre = before ++ .tick :: between ∧ ∀ e ∈ between, ∃ r, e.Uses r := by
  induction blocks generalizing pre with
  | nil => exact absurd heq.symm (by simp)
  | cons block blocks ih =>
    rw [flatten_cons] at heq
    rw [append_eq_append_iff] at heq
    obtain ⟨mid, rfl, hrest⟩ | ⟨mid, hblock, hmid⟩ := heq
    · obtain ⟨before, between, rfl, hbetween⟩ :=
        ih (fun b hb => hblocks b (mem_cons_of_mem _ hb)) hrest
      exact ⟨block ++ before, between, by simp, hbetween⟩
    · cases mid with
      | nil =>
        -- the use would be the first event of a later block
        have hfirst : blocks.flatten = [] ++ e :: post := hmid.symm
        obtain ⟨before, between, hnil, -⟩ :=
          ih (fun b hb => hblocks b (mem_cons_of_mem _ hb)) hfirst
        exact absurd hnil (by simp)
      | cons e' mid =>
        obtain ⟨rfl, -⟩ := cons.inj hmid
        obtain ⟨uses, creates, rfl, huses, hcreates⟩ := hblocks block mem_cons_self
        cases pre with
        | nil =>
          obtain ⟨rfl, -⟩ := cons.inj hblock
          obtain he | he := he <;> cases he
        | cons t pre =>
          rw [cons_append, cons_append, cons.injEq] at hblock
          obtain ⟨rfl, hblock⟩ := hblock
          refine ⟨[], pre, rfl, fun x hx => huses x ?_⟩
          obtain ⟨c, rfl, hc⟩ | ⟨c, rfl, -⟩ := append_eq_append_iff.1 hblock
          · obtain ⟨r', rfl⟩ := hcreates e (by rw [hc]; simp)
            obtain he | he := he <;> cases he
          · exact mem_append_left _ hx

/-- **What a block uses was created in an earlier one.** -/
theorem created_in_earlier_block (hblocks : ∀ b ∈ blocks, IsBlock b) (he : e.Uses r)
    (heq : blocks.flatten = pre ++ e :: post) (hlive : r ∈ liveAfter pre) :
    ∃ a b, pre = a ++ .create r :: b ∧ .tick ∈ b ∧ .consume r ∉ b := by
  obtain ⟨a, b, hpre, hb⟩ := mem_liveAfter.1 hlive
  refine ⟨a, b, hpre, ?_, hb⟩
  obtain ⟨before, between, rfl, hbetween⟩ := uses_in_block hblocks he heq
  -- the creation is not among the uses behind the tick, so the tick lies behind the creation
  obtain ⟨c, rfl, hc⟩ | ⟨c, rfl, hc⟩ := append_eq_append_iff.1 hpre
  · cases c with
    | nil => exact absurd (cons.inj hc).1 (by simp)
    | cons t c =>
      obtain ⟨-, rfl⟩ := cons.inj hc
      obtain ⟨r', hr'⟩ := hbetween (.create r) (by simp)
      obtain h | h := hr' <;> cases h
  · cases c with
    | nil => exact absurd (cons.inj hc).1 (by simp)
    | cons t c =>
      obtain ⟨-, rfl⟩ := cons.inj hc
      exact mem_append_right _ mem_cons_self

end FuzzSocketCan.Lib
