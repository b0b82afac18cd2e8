import Mathlib.Data.List.Forall2
import Mathlib.Data.List.ReduceOption

/-! # Packets that are read in pieces

Each read asks for at most so many elements and gets a piece of one packet; the next packet is
begun only when nothing is left of the one before.

* **`reads_delivered`** — a run of reads delivers the packets in order, each whole before the next.
-/

namespace FuzzSocketCan.Lib

open List Option

variable {α : Type}

/-- How many packets have begun, what is left of the last one, and the rest. -/
structure PacketStream (α : Type) where
  begun : ℕ
  cur : List α
  rest : List (List α)

namespace PacketStream

def start (packets : List (List α)) : PacketStream α := ⟨0, [], packets⟩

/-- At most `max` elements of one packet, with its number. -/
def read (max : ℕ) (s : PacketStream α) : Option (ℕ × List α) × PacketStream α :=
  match s.cur, s.rest with
  | [], [] => (none, s)
  | [], p :: ps => (some (s.begun + 1, p.take max), ⟨s.begun + 1, p.drop max, ps⟩)
  | c :: cs, _ => (some (s.begun, (c :: cs).take max), { s with cur := (c :: cs).drop max })

def next (s : PacketStream α) : PacketStream α :=
  match s.cur, s.rest with
  | [], p :: ps => ⟨s.begun + 1, p, ps⟩
  | _, _ => s

def reads : List ℕ → PacketStream α → List (Option (ℕ × List α)) × PacketStream α
  | [], s => ([], s)
  | max :: sizes, s =>
    let (out, s') := s.read max
    let (outs, s'') := reads sizes s'
    (out :: outs, s'')

def left (n : ℕ) (s : PacketStream α) : List α :=
  if n = s.begun then s.cur else if s.begun < n then s.rest.getD (n - s.begun - 1) [] else []

/-- What the pieces of packet number `n` hold. -/
def pieces (n : ℕ) (outs : List (Option (ℕ × List α))) : List α :=
  (outs.reduceOption.filter fun x => x.1 = n).flatMap Prod.snd

@[simp] theorem pieces_none (n : ℕ) (outs : List (Option (ℕ × List α))) :
    pieces n (none :: outs) = pieces n outs := rfl

theorem pieces_some (n m : ℕ) (bs : List α) (outs : List (Option (ℕ × List α))) :
    pieces n (some (m, bs) :: outs) = (if m = n then bs else []) ++ pieces n outs := by
  by_cases h : m = n <;> simp [h, pieces]

/-! ## One read -/

variable {max : ℕ} {s : PacketStream α}

structure Piece (max : ℕ) (s s' : PacketStream α) (n : ℕ) (bs : List α) : Prop where
  number : n = s'.begun
  begun : s.begun ≤ s'.begun
  begun_le : s'.begun ≤ s.begun + 1
  fresh : s.cur = [] → s'.begun = s.begun + 1
  count : s'.begun + s'.rest.length = s.begun + s.rest.length
  concat : bs ++ (s'.cur ++ s'.rest.flatten) = s.cur ++ s.rest.flatten
  length_le : bs.length ≤ max
  left_eq : bs ++ s'.left n = s.left n
  left_of_ne : ∀ m, m ≠ n → s'.left m = s.left m
  ends : bs.length < max → s'.left n = []

theorem read_cases (max : ℕ) (s : PacketStream α) :
    (s.read max = (none, s) ∧ s.cur = [] ∧ s.rest = []) ∨
      ∃ n bs s', s.read max = (some (n, bs), s') ∧ Piece max s s' n bs := by
  obtain ⟨begun, cur, rest⟩ := s
  cases cur with
  | nil =>
    cases rest with
    | nil => exact .inl ⟨rfl, rfl, rfl⟩
    | cons p ps =>
      refine .inr ⟨_, _, _, rfl, rfl, Nat.le_succ _, Nat.le_refl _, fun _ => rfl, ?_, ?_,
        length_take_le _ _, ?_, ?_, ?_⟩
      · simp only [length_cons]
        omega
      · simp [← append_assoc]
      · simp [left]
      · intro m hm
        simp only at hm
        by_cases hlt : begun + 1 < m
        · obtain ⟨k, rfl⟩ : ∃ k, m = begun + 2 + k := ⟨m - begun - 2, by omega⟩
          have h1 : begun + 2 + k - (begun + 1) - 1 = k := by omega
          have h2 : begun + 2 + k - begun - 1 = k + 1 := by omega
          simp only [left, if_neg hm, if_pos hlt, if_neg (show ¬begun + 2 + k = begun by omega),
            if_pos (show begun < begun + 2 + k by omega), h1, h2, getD_cons_succ]
        · -- packets that were begun before have nothing left
          by_cases heq : m = begun
          · simp [left, if_neg hm, if_neg hlt, if_pos heq]
          · simp [left, if_neg hm, if_neg hlt, if_neg (show ¬begun < m by omega)]
      · intro hlen
        rw [length_take] at hlen
        simp only [left, if_true]
        exact drop_eq_nil_of_le (by omega)
  | cons c cs =>
    refine .inr ⟨_, _, _, rfl, rfl, Nat.le_refl _, Nat.le_succ _, (fun h => nomatch h), rfl, ?_,
      length_take_le _ _, ?_, ?_, ?_⟩
    · simp [← append_assoc]
    · simp only [left, if_true]
      exact take_append_drop _ _
    · intro m hm
      simp [left, if_neg hm]
    · intro hlen
      rw [length_take] at hlen
      simp only [left, if_true]
      exact drop_eq_nil_of_le (by omega)

/-! ## Runs of reads -/

variable {sizes : List ℕ}

theorem reads_cons (max : ℕ) (sizes : List ℕ) (s : PacketStream α) :
    reads (max :: sizes) s =
      ((s.read max).1 :: (reads sizes (s.read max).2).1, (reads sizes (s.read max).2).2) := rfl

/-- **The pieces of a packet make it up.** -/
theorem reads_pieces (n : ℕ) (sizes : List ℕ) (s : PacketStream α) :
    pieces n (reads sizes s).1 ++ (reads sizes s).2.left n = s.left n := by
  induction sizes generalizing s with
  | nil => rfl
  | cons max sizes ih =>
    rw [reads_cons]
    obtain ⟨hread, -⟩ | ⟨m, bs, s', hread, hpiece⟩ := s.read_cases max
    · rw [hread, pieces_none, ih]
    · rw [hread, pieces_some, append_assoc, ih]
      by_cases h : m = n
      · rw [if_pos h, ← h]
        exact hpiece.left_eq
      · rw [if_neg h, nil_append]
        exact hpiece.left_of_ne n (Ne.symm h)

theorem reads_sorted (sizes : List ℕ) (s : PacketStream α) :
    ((reads sizes s).1.reduceOption.map Prod.fst).Pairwise (· ≤ ·) ∧
      s.begun ≤ (reads sizes s).2.begun ∧
        ∀ x ∈ (reads sizes s).1.reduceOption, s.begun ≤ x.1 ∧ x.1 ≤ (reads sizes s).2.begun := by
  induction sizes generalizing s with
  | nil => exact ⟨.nil, Nat.le_refl _, fun x hx => nomatch hx⟩
  | cons max sizes ih =>
    rw [reads_cons]
    obtain ⟨hread, -⟩ | ⟨m, bs, s', hread, hpiece⟩ := s.read_cases max
    · rw [hread]
      exact ih s
    · obtain ⟨hsorted, hle, hmem⟩ := ih s'
      have hbegun := hpiece.begun
      have hnumber := hpiece.number
      rw [hread, reduceOption_cons_of_some]
      refine ⟨?_, Nat.le_trans hbegun hle, ?_⟩
      · rw [map_cons, pairwise_cons]
        refine ⟨?_, hsorted⟩
        intro k hk
        obtain ⟨x, hx, rfl⟩ := mem_map.1 hk
        exact Nat.le_trans (Nat.le_of_eq hnumber) (hmem x hx).1
      · intro x hx
        obtain rfl | hx := mem_cons.1 hx
        · exact ⟨by simp only; omega, by simp only; omega⟩
        · obtain ⟨hge, hle'⟩ := hmem x hx
          exact ⟨Nat.le_trans hbegun hge, hle'⟩

theorem reads_none (h : none ∈ (reads sizes s).1) :
    (reads sizes s).2.cur = [] ∧ (reads sizes s).2.rest = [] := by
  induction sizes generalizing s with
  | nil => cases h
  | cons max sizes ih =>
    rw [reads_cons] at h ⊢
    obtain ⟨hread, hcur, hrest⟩ | ⟨m, bs, s', hread, -⟩ := s.read_cases max
    · -- at the end every later read leaves the stream as it is
      rw [hread]
      clear h ih
      induction sizes with
      | nil => exact ⟨hcur, hrest⟩
      | cons max' sizes ih =>
        have hread' : s.read max' = (none, s) := by
          obtain ⟨begun, cur, rest⟩ := s
          subst hcur hrest
          rfl
        rw [reads_cons, hread']
        exact ih
    · rw [hread] at h ⊢
      obtain h | h := mem_cons.1 h
      · cases h
      · exact ih h

variable {n : ℕ}

theorem left_of_lt (h : n < s.begun) : s.left n = [] := by
  rw [left, if_neg (by omega), if_neg (by omega)]

theorem left_of_end (hcur : s.cur = []) (hrest : s.rest = []) : s.left n = [] := by
  rw [left, hcur, hrest]
  split
  · rfl
  · split <;> rfl

theorem left_start {packets : List (List α)} {i : ℕ} {p : List α} (h : packets[i]? = some p) :
    (start packets).left (i + 1) = p := by
  show (if i + 1 = 0 then [] else if 0 < i + 1 then packets.getD (i + 1 - 0 - 1) [] else []) = p
  rw [if_neg (Nat.succ_ne_zero i), if_pos (Nat.succ_pos i), Nat.sub_zero, Nat.add_sub_cancel,
    getD_eq_getElem?_getD, h, getD_some]

theorem reads_concat (sizes : List ℕ) (s : PacketStream α) :
    (reads sizes s).2.begun + (reads sizes s).2.rest.length = s.begun + s.rest.length ∧
      (reads sizes s).1.reduceOption.flatMap Prod.snd ++
        ((reads sizes s).2.cur ++ (reads sizes s).2.rest.flatten) = s.cur ++ s.rest.flatten := by
  induction sizes generalizing s with
  | nil => exact ⟨rfl, rfl⟩
  | cons max sizes ih =>
    rw [reads_cons]
    obtain ⟨hread, -⟩ | ⟨m, bs, s', hread, hpiece⟩ := s.read_cases max
    · rw [hread]
      exact ih s
    · obtain ⟨hcount, hconcat⟩ := ih s'
      rw [hread, reduceOption_cons_of_some, flatMap_cons]
      refine ⟨hcount.trans hpiece.count, ?_⟩
      rw [append_assoc, hconcat]
      exact hpiece.concat

theorem filter_reads_of_begun (hn : n ≤ s.begun) (hleft : s.left n = []) :
    (reads sizes s).1.reduceOption.filter (fun x => x.1 = n) = [] := by
  induction sizes generalizing s with
  | nil => rfl
  | cons max sizes ih =>
    rw [reads_cons]
    obtain ⟨hread, -⟩ | ⟨m, bs, s', hread, hpiece⟩ := s.read_cases max
    · rw [hread]
      exact ih hn hleft
    · have hne : m ≠ n := by
        rintro rfl
        -- the piece would be of the packet begun last, of which nothing is left
        have heq : m = s.begun := Nat.le_antisymm hn (hpiece.number ▸ hpiece.begun)
        rw [left, if_pos heq] at hleft
        have := hpiece.fresh hleft
        have := hpiece.number
        omega
      have hleft' : s'.left n = [] := (hpiece.left_of_ne n hne.symm).trans hleft
      rw [hread, reduceOption_cons_of_some, filter_cons_of_neg (by simpa using hne)]
      exact ih (Nat.le_trans hn hpiece.begun) hleft'

theorem filter_reads_of_empty (hn : s.begun < n) (hleft : s.left n = [])
    (hend : n ≤ (reads sizes s).2.begun) :
    (reads sizes s).1.reduceOption.filter (fun x => x.1 = n) = [(n, [])] := by
  induction sizes generalizing s with
  | nil => exact absurd hend (Nat.not_le.2 hn)
  | cons max sizes ih =>
    rw [reads_cons] at hend ⊢
    obtain ⟨hread, -⟩ | ⟨m, bs, s', hread, hpiece⟩ := s.read_cases max
    · rw [hread] at hend ⊢
      exact ih hn hleft hend
    · rw [hread] at hend ⊢
      rw [reduceOption_cons_of_some]
      by_cases h : m = n
      · subst h
        obtain ⟨rfl, hleft'⟩ := append_eq_nil_iff.1 (hpiece.left_eq.trans hleft)
        rw [filter_cons_of_pos (by simp),
          filter_reads_of_begun (Nat.le_of_eq hpiece.number) hleft']
      · have hlt : s'.begun < n := by
          have := hpiece.begun_le
          have := hpiece.number
          omega
        rw [filter_cons_of_neg (by simpa using h)]
        exact ih hlt ((hpiece.left_of_ne n (Ne.symm h)).trans hleft) hend

theorem reads_take (k : ℕ) (sizes : List ℕ) (s : PacketStream α) :
    (reads (sizes.take k) s).1 = (reads sizes s).1.take k := by
  induction k generalizing sizes s with
  | zero => rfl
  | succ k ih =>
    cases sizes with
    | nil => rfl
    | cons max sizes => rw [take_succ_cons, reads_cons, ih, reads_cons, take_succ_cons]

theorem reads_succ {k : ℕ} (h : sizes[k]? = some max) (s : PacketStream α) :
    (reads sizes s).1[k]? = some ((reads (sizes.take k) s).2.read max).1 ∧
      (reads (sizes.take (k + 1)) s).2 = ((reads (sizes.take k) s).2.read max).2 := by
  induction k generalizing sizes s with
  | zero =>
    cases sizes with
    | nil => cases h
    | cons max' sizes =>
      obtain rfl := some.inj h
      exact ⟨rfl, rfl⟩
  | succ k ih =>
    cases sizes with
    | nil => cases h
    | cons max' sizes => exact ih h _

/-! ## What a run delivers -/

/-- The reads got the packets in order: every piece is of one packet and not too long, a packet is
read to its end before the next one, and a read gets nothing only when all is read. -/
structure Delivered (packets : List (List α)) (sizes : List ℕ)
    (outs : List (Option (ℕ × List α))) : Prop where
  sizes_le : List.Forall₂ (fun max out => ∀ x ∈ out, x.2.length ≤ max) sizes outs
  sorted : (outs.reduceOption.map Prod.fst).Pairwise (· ≤ ·)
  number : ∀ x ∈ outs.reduceOption, 1 ≤ x.1 ∧ x.1 ≤ packets.length
  initial : ∀ i p, packets[i]? = some p → pieces (i + 1) outs <+: p
  whole : ∀ i p, packets[i]? = some p → (none ∈ outs ∨ ∃ x ∈ outs.reduceOption, i + 1 < x.1) →
    pieces (i + 1) outs = p
  concat : (outs.reduceOption.flatMap Prod.snd) <+: packets.flatten
  concat_eq : none ∈ outs → outs.reduceOption.flatMap Prod.snd = packets.flatten
  /-- A piece that is shorter than it may be ends its packet. -/
  short : ∀ k max n bs, sizes[k]? = some max → outs[k]? = some (some (n, bs)) →
    bs.length < max → ∃ p, packets[n - 1]? = some p ∧ pieces n (outs.take (k + 1)) = p
  /-- A packet without elements gives one piece. -/
  empties : ∀ i, packets[i]? = some [] → (none ∈ outs ∨ ∃ x ∈ outs.reduceOption, i + 1 ≤ x.1) →
    outs.reduceOption.filter (fun x => x.1 = i + 1) = [(i + 1, [])]

theorem reads_sizes_le (sizes : List ℕ) (s : PacketStream α) :
    List.Forall₂ (fun max out => ∀ x ∈ out, x.2.length ≤ max) sizes (reads sizes s).1 := by
  induction sizes generalizing s with
  | nil => exact .nil
  | cons max sizes ih =>
    rw [reads_cons]
    refine .cons ?_ (ih _)
    obtain ⟨hread, -⟩ | ⟨m, bs, s', hread, hpiece⟩ := s.read_cases max
    · rw [hread]
      intro x hx
      cases hx
    · rw [hread]
      intro x hx
      obtain rfl := some.inj hx
      exact hpiece.length_le

section Start

variable {packets : List (List α)} {x : ℕ × List α}

theorem one_le_number (hx : x ∈ (reads sizes (start packets)).1.reduceOption) : 1 ≤ x.1 := by
  cases sizes with
  | nil => cases hx
  | cons max sizes =>
    rw [reads_cons] at hx
    obtain ⟨hread, hcur, hrest⟩ | ⟨m, bs, s', hread, hpiece⟩ := (start packets).read_cases max
    · -- there are no packets at all
      by_contra hlt
      have hzero : x.1 = 0 := by omega
      rw [hread] at hx
      have hnone : (reads sizes (start packets)).1.reduceOption.filter (fun x => x.1 = 0) = [] :=
        filter_reads_of_begun (Nat.le_refl _) (left_of_end hcur hrest)
      have : x ∈ ([] : List (ℕ × List α)) := by
        rw [← hnone]
        exact mem_filter.2 ⟨hx, by simpa using hzero⟩
      cases this
    · have hfresh : s'.begun = 1 := hpiece.fresh rfl
      have hm := hpiece.number
      rw [hread, reduceOption_cons_of_some] at hx
      obtain rfl | hx := mem_cons.1 hx
      · exact Nat.le_of_eq (hm.trans hfresh).symm
      · exact hfresh ▸ ((reads_sorted sizes s').2.2 x hx).1

theorem reads_start_count (packets : List (List α)) (sizes : List ℕ) :
    (reads sizes (start packets)).2.begun + (reads sizes (start packets)).2.rest.length =
      packets.length :=
  (reads_concat sizes (start packets)).1.trans (Nat.zero_add _)

theorem reads_start_concat (packets : List (List α)) (sizes : List ℕ) :
    (reads sizes (start packets)).1.reduceOption.flatMap Prod.snd ++
      ((reads sizes (start packets)).2.cur ++ (reads sizes (start packets)).2.rest.flatten) =
        packets.flatten :=
  (reads_concat sizes (start packets)).2

theorem number_le_length (hx : x ∈ (reads sizes (start packets)).1.reduceOption) :
    x.1 ≤ packets.length := by
  have hbegun := ((reads_sorted sizes (start packets)).2.2 x hx).2
  have hcount := reads_start_count packets sizes
  omega

theorem pieces_of_short {k : ℕ} {bs : List α} (hmax : sizes[k]? = some max)
    (hout : (reads sizes (start packets)).1[k]? = some (some (n, bs))) (hlt : bs.length < max) :
    ∃ p, packets[n - 1]? = some p ∧ pieces n ((reads sizes (start packets)).1.take (k + 1)) = p := by
  obtain ⟨hk, hsucc⟩ := reads_succ hmax (start packets)
  obtain ⟨hread, -⟩ | ⟨m, bs', s', hread, hpiece⟩ :=
    (reads (sizes.take k) (start packets)).2.read_cases max
  · rw [hread, hout] at hk
    cases hk
  · rw [hread, hout] at hk
    obtain ⟨rfl, rfl⟩ := Prod.mk.inj (some.inj (some.inj hk))
    have hmem : (n, bs) ∈ (reads sizes (start packets)).1.reduceOption :=
      reduceOption_mem_iff.2 (mem_of_getElem? hout)
    obtain ⟨i, rfl⟩ : ∃ i, n = i + 1 := Nat.exists_eq_add_one.2 (one_le_number hmem)
    have hle : i + 1 ≤ packets.length := number_le_length hmem
    have hi : packets[i]? = some packets[i] := getElem?_eq_getElem hle
    have hpieces := reads_pieces (i + 1) (sizes.take (k + 1)) (start packets)
    rw [hsucc, hread, hpiece.ends hlt, append_nil, reads_take, left_start hi] at hpieces
    exact ⟨packets[i], hi, hpieces⟩

end Start

/-- **Every run of reads delivers the packets.** -/
theorem reads_delivered (packets : List (List α)) (sizes : List ℕ) :
    Delivered packets sizes (reads sizes (start packets)).1 := by
  obtain ⟨hsorted, -, hmem⟩ := reads_sorted sizes (start packets)
  refine ⟨reads_sizes_le _ _, hsorted, fun x hx => ⟨one_le_number hx, number_le_length hx⟩, ?_, ?_,
    ⟨_, reads_start_concat packets sizes⟩, ?_, fun k max n bs => pieces_of_short, ?_⟩
  · intro i p hp
    exact ⟨_, (reads_pieces (i + 1) sizes _).trans (left_start hp)⟩
  · intro i p hp hlater
    have hleft : (reads sizes (start packets)).2.left (i + 1) = [] := by
      obtain hnone | ⟨x, hx, hlt⟩ := hlater
      · obtain ⟨hcur, hrest⟩ := reads_none hnone
        exact left_of_end hcur hrest
      · exact left_of_lt (Nat.lt_of_lt_of_le hlt (hmem x hx).2)
    have hpieces := reads_pieces (i + 1) sizes (start packets)
    rwa [hleft, append_nil, left_start hp] at hpieces
  · intro hnone
    obtain ⟨hcur, hrest⟩ := reads_none hnone
    have hconcat := reads_start_concat packets sizes
    rwa [hcur, hrest, flatten_nil, append_nil, append_nil] at hconcat
  · intro i hi hlater
    refine filter_reads_of_empty (Nat.succ_pos i) (left_start hi) ?_
    obtain hnone | ⟨x, hx, hle⟩ := hlater
    · obtain ⟨-, hrest⟩ := reads_none hnone
      have hcount := reads_start_count packets sizes
      rw [hrest, length_nil] at hcount
      obtain ⟨hlt, -⟩ := List.getElem?_eq_some_iff.1 hi
      omega
    · exact Nat.le_trans hle (hmem x hx).2

/-! ## Reading one at a time -/

def singlesOf : List α → List (Option α)
  | [] => [none]
  | p@(_ :: _) => p.map some

def singles (s : PacketStream α) : List (Option α) := s.cur.map some ++ s.rest.flatMap singlesOf

theorem read_one (s : PacketStream α) :
    (s.read 1).1.map Prod.snd = s.singles.head?.map Option.toList ∧
      (s.read 1).2.singles = s.singles.tail := by
  rcases s with ⟨begun, cur, rest⟩
  cases cur with
  | nil =>
    cases rest with
    | nil => exact ⟨rfl, rfl⟩
    | cons p ps =>
      cases p with
      | nil => exact ⟨rfl, rfl⟩
      | cons a p => exact ⟨rfl, rfl⟩
  | cons a cur => exact ⟨rfl, rfl⟩

theorem flatMap_singlesOf {packets : List (List α)} (h : [] ∉ packets) :
    packets.flatMap singlesOf = packets.flatten.map some := by
  induction packets with
  | nil => rfl
  | cons p packets ih =>
    rw [mem_cons, not_or] at h
    rw [flatMap_cons, ih h.2, flatten_cons, map_append]
    cases p with
    | nil => exact absurd rfl h.1
    | cons a p => rfl

theorem exists_first_empty {packets : List (List α)} (h : [] ∈ packets) :
    ∃ pre post, packets = pre ++ [] :: post ∧ [] ∉ pre ∧
      packets.flatMap singlesOf = pre.flatten.map some ++ none :: post.flatMap singlesOf := by
  induction packets with
  | nil => cases h
  | cons p packets ih =>
    cases p with
    | nil => exact ⟨[], packets, rfl, not_mem_nil, rfl⟩
    | cons a p =>
      have hmem : [] ∈ packets := (mem_cons.1 h).resolve_left (cons_ne_nil _ _).symm
      rcases ih hmem with ⟨pre, post, rfl, hpre, hsingles⟩
      refine ⟨(a :: p) :: pre, post, rfl, ?_, ?_⟩
      · rw [mem_cons, not_or]
        exact ⟨(cons_ne_nil _ _).symm, hpre⟩
      · rw [flatMap_cons, hsingles, flatten_cons, map_append, append_assoc]
        rfl

end PacketStream

end FuzzSocketCan.Lib
