import FuzzSocketCan.Lib.GreedyCover
import FuzzSocketCan.RustFuzzer.Queue

/-! # What the favourites cover

`calc_fav_bits` goes from the newest input to the oldest. Of those with a new byte it keeps a
greedy cover of the bitmap indices; it keeps for each ijon slot an input with the largest value,
and every imported seed without a new byte.

* **`FavScan.Describes`** — what the scan has kept so far.
* **`calcFavBits_coversCorpus`** — the favourites cover the corpus. -/

namespace FuzzSocketCan

open Lib List Input

namespace Input

def hasNewByte (inp : Input) : Bool := inp.storageReasons.any StorageReason.hasNewByte

def isPlainSeed (inp : Input) : Bool := !inp.hasNewByte && decide (inp.foundBy = .seedImport)

def indices (inp : Input) : Set ℕ := { i | inp.bitmap.bits.getD i 0 ≠ 0 }

def slotValue (slot : ℕ) (inp : Input) : ℕ := (inp.bitmap.ijonMax.getD slot 0).toNat

def Attains (inputs : List Input) (slot : ℕ) (inp : Input) : Prop :=
  inp.hasNewByte ∧ inp.slotValue slot ≠ 0 ∧
    ∀ other ∈ inputs, other.hasNewByte → other.slotValue slot ≤ inp.slotValue slot

end Input

/-! ## The covered bits -/

theorem getD_cons_sub {α : Type} {v d : α} {vs : List α} {i k : ℕ} (h : i ≤ k) :
    (v :: vs).getD (k - i) d = if k = i then v else vs.getD (k - (i + 1)) d := by
  split
  · next heq => simp [heq]
  · next hne =>
      rw [show k - i = k - (i + 1) + 1 by omega]
      rfl

section Bits

variable {bits vs : List UInt8} {i : ℕ}

theorem hasNewBits_spec (h : i + vs.length ≤ bits.length) :
    ∃ new, hasNewBits bits i vs = .ok new ∧
      (new ↔ ∃ j, bits.getD (i + j) 0 = 0 ∧ vs.getD j 0 ≠ 0) := by
  induction vs generalizing i with
  | nil => exact ⟨false, rfl, by simp⟩
  | cons v vs ih =>
    rw [length_cons] at h
    have hbit : bits[i]? = some (bits.getD i 0) := by
      rw [getD_eq_getElem?_getD, getElem?_eq_getElem (by omega), Option.getD_some]
    rw [hasNewBits, hbit]
    dsimp only
    split
    · next hnew =>
        refine ⟨true, rfl, ?_⟩
        simp only [true_iff]
        exact ⟨0, hnew.1, UInt8.pos_iff_ne_zero.1 hnew.2⟩
    · next hnew =>
        obtain ⟨new, heq, hiff⟩ := ih (i := i + 1) (by omega)
        refine ⟨new, heq, hiff.trans ?_⟩
        constructor
        · rintro ⟨j, hb, hv⟩
          exact ⟨j + 1, by rwa [← add_assoc, add_right_comm], hv⟩
        · rintro ⟨j, hb, hv⟩
          cases j with
          | zero => exact absurd ⟨hb, UInt8.pos_iff_ne_zero.2 hv⟩ hnew
          | succ j => exact ⟨j, by rwa [add_right_comm, add_assoc], hv⟩

theorem coverBits_spec (h : i + vs.length ≤ bits.length) :
    ∃ bits', coverBits bits i vs = .ok bits' ∧ bits'.length = bits.length ∧
      ∀ k, bits'.getD k 0 ≠ 0 ↔ bits.getD k 0 ≠ 0 ∨ i ≤ k ∧ vs.getD (k - i) 0 ≠ 0 := by
  induction vs generalizing i bits with
  | nil => exact ⟨bits, rfl, rfl, by simp⟩
  | cons v vs ih =>
    rw [length_cons] at h
    have hsplit : ∀ k, (i ≤ k ∧ (v :: vs).getD (k - i) 0 ≠ 0) ↔
        (k = i ∧ v ≠ 0) ∨ (i + 1 ≤ k ∧ vs.getD (k - (i + 1)) 0 ≠ 0) := by
      intro k
      rcases lt_or_ge k i with hlt | hge
      · simp [not_le.2 hlt, ne_of_lt hlt, not_le.2 (Nat.lt_succ_of_lt hlt)]
      · rw [getD_cons_sub hge]
        split
        · next heq => simp [heq]
        · next hne => simp [hne, hge, show i + 1 ≤ k by omega]
    rw [coverBits]
    split
    · next hzero =>
        obtain ⟨bits', heq, hlen, hiff⟩ := ih (show i + 1 + vs.length ≤ bits.length by omega)
        refine ⟨bits', heq, hlen, fun k => ?_⟩
        rw [hiff, hsplit]
        simp [hzero]
    · next hnonzero =>
        rw [if_pos (by omega)]
        obtain ⟨bits', heq, hlen, hiff⟩ := ih
          (show i + 1 + vs.length ≤ (bits.set i 1).length by rw [length_set]; omega)
        refine ⟨bits', heq, by rw [hlen, length_set], fun k => ?_⟩
        rw [hiff, hsplit]
        have hset : (bits.set i 1).getD k 0 ≠ 0 ↔ k = i ∨ bits.getD k 0 ≠ 0 := by
          rcases eq_or_ne i k with rfl | hne
          · simp [show i < bits.length by omega]
          · simp [hne, hne.symm]
        tauto

end Bits

/-! ## The ijon slots -/

def TakesSlot (old : Option (UInt64 × InputID)) (v : UInt64) : Prop :=
  v ≠ 0 ∧ (old.isNone ∨ ∃ p ∈ old, p.1 < v)

instance (old : Option (UInt64 × InputID)) (v : UInt64) : Decidable (TakesSlot old v) :=
  inferInstanceAs (Decidable (_ ∧ _))

theorem lookup_takeSlots (id : InputID) (i : ℕ) (vs : List UInt64) (slots : IjonSlots) (k : ℕ) :
    (takeSlots id i vs slots).lookup k =
      if i ≤ k ∧ TakesSlot (slots.lookup k) (vs.getD (k - i) 0) then some (vs.getD (k - i) 0, id)
      else slots.lookup k := by
  induction vs generalizing i slots with
  | nil => simp [takeSlots, TakesSlot]
  | cons v vs ih =>
    -- a later value cannot take slot `k` where `k` is `i` or before
    rcases lt_or_ge k i with hlt | hge
    · have hsucc : ¬i + 1 ≤ k := by omega
      rw [takeSlots]
      split
      · rw [ih, AList.lookup_insert_ne (ne_of_lt hlt)]
        simp [hsucc, not_le.2 hlt]
      · rw [ih]
        simp [hsucc, not_le.2 hlt]
    · rw [getD_cons_sub hge, takeSlots]
      rcases eq_or_ne k i with rfl | hne
      · have hsucc : ¬k + 1 ≤ k := by omega
        split
        · next htake =>
            rw [ih, AList.lookup_insert]
            simp [hsucc, show TakesSlot (slots.lookup k) v from htake]
        · next htake =>
            rw [ih]
            simp [hsucc, show ¬TakesSlot (slots.lookup k) v from htake]
      · have hsucc : i + 1 ≤ k := by omega
        split
        · rw [ih, AList.lookup_insert_ne hne]
          simp [hsucc, hge]
        · rw [ih]
          simp [hsucc, hge]

/-! ## The scan -/

/-- The state of the scan, by what was seen and chosen. -/
structure FavScan.Describes (s : FavScan) (size : ℕ) (seen chosen : List Input) : Prop where
  favids : s.favids = chosen.map Input.id
  sublist : chosen.Sublist seen
  greedy : IsGreedy Input.indices (seen.filter Input.hasNewByte) (chosen.filter Input.hasNewByte)
  plain : ∀ inp ∈ seen, inp.isPlainSeed → inp ∈ chosen
  reason : ∀ inp ∈ chosen, inp.hasNewByte ∨ inp.isPlainSeed
  length : s.bits.length = size
  bits : ∀ i, s.bits.getD i 0 ≠ 0 ↔
    i ∈ covered Input.indices (chosen.filter Input.hasNewByte)
  slots : ∀ k, ∃ o, IsBest (Input.slotValue k) (seen.filter Input.hasNewByte) o ∧
    s.slots.lookup k = o.map fun a => (a.bitmap.ijonMax.getD k 0, a.id)

namespace FavScan.Describes

variable {s : FavScan} {size : ℕ} {seen chosen : List Input} {inp : Input}

theorem start (size : ℕ) : Describes ⟨[], List.replicate size 0, ∅⟩ size [] [] where
  favids := rfl
  sublist := List.Sublist.slnil
  greedy := isGreedy_nil
  plain := by simp
  reason := by simp
  length := length_replicate
  bits := by
    intro i
    rw [getD_eq_getElem?_getD, getElem?_replicate]
    split <;> simp [covered]
  slots := fun k => ⟨none, isBest_nil, rfl⟩

theorem takeSlots (h : s.Describes size seen chosen) (hnew : inp.hasNewByte) (k : ℕ) :
    ∃ o, IsBest (Input.slotValue k) ((seen ++ [inp]).filter Input.hasNewByte) o ∧
      (FuzzSocketCan.takeSlots inp.id 0 inp.bitmap.ijonMax s.slots).lookup k =
        o.map fun a => (a.bitmap.ijonMax.getD k 0, a.id) := by
  obtain ⟨o, hbest, hlookup⟩ := h.slots k
  rw [lookup_takeSlots, hlookup, filter_append, filter_singleton, hnew, Nat.sub_zero]
  simp only [zero_le, true_and]
  split
  · next htake =>
      refine ⟨some inp, hbest.take ?_ ?_, rfl⟩
      · exact fun hzero => htake.1 (UInt64.toNat_inj.1 hzero)
      · rintro b rfl
        rcases htake.2 with hnone | ⟨p, hp, hlt⟩
        · cases hnone
        · rw [← Option.some.inj hp] at hlt
          exact UInt64.lt_iff_toNat_lt.1 hlt
  · next htake =>
      refine ⟨o, hbest.keep ?_, rfl⟩
      by_cases hzero : inp.bitmap.ijonMax.getD k 0 = 0
      · exact .inl (congrArg UInt64.toNat hzero)
      · cases o with
        | none => exact absurd ⟨hzero, .inl rfl⟩ htake
        | some b =>
          refine .inr ⟨b, rfl, not_lt.1 fun hlt => htake ⟨hzero, .inr ⟨_, rfl, ?_⟩⟩⟩
          exact UInt64.lt_iff_toNat_lt.2 hlt

theorem filter_seen (hnew : inp.hasNewByte = false) :
    (seen ++ [inp]).filter Input.hasNewByte = seen.filter Input.hasNewByte := by
  simp [filter_append, hnew]

theorem choose (h : s.Describes size seen chosen) (hnew : inp.hasNewByte) {i : ℕ}
    (hi : i ∈ inp.indices) (hbit : s.bits.getD i 0 = 0) {bits : List UInt8}
    (hlen : bits.length = s.bits.length)
    (hbits : ∀ k, bits.getD k 0 ≠ 0 ↔ s.bits.getD k 0 ≠ 0 ∨ k ∈ inp.indices) :
    Describes ⟨s.favids ++ [inp.id], bits, FuzzSocketCan.takeSlots inp.id 0 inp.bitmap.ijonMax
      s.slots⟩ size (seen ++ [inp]) (chosen ++ [inp]) where
  favids := by simp [h.favids]
  sublist := h.sublist.append_right _
  greedy := by
    have hnot : i ∉ covered Input.indices (chosen.filter Input.hasNewByte) := by
      rw [← h.bits, hbit]
      simp
    simpa [filter_append, hnew] using h.greedy.choose hi hnot
  plain := by
    intro other hmem hplain
    rcases mem_append.1 hmem with hmem | hmem
    · exact mem_append_left _ (h.plain other hmem hplain)
    · exact mem_append_right _ hmem
  reason := by
    intro other hmem
    rcases mem_append.1 hmem with hmem | hmem
    · exact h.reason other hmem
    · rw [mem_singleton.1 hmem]
      exact .inl hnew
  length := hlen.trans h.length
  bits := by
    intro k
    rw [hbits, h.bits, filter_append, filter_singleton, hnew]
    simp
  slots := h.takeSlots hnew

theorem pass (h : s.Describes size seen chosen) (hnew : inp.hasNewByte)
    (hold : ∀ i ∈ inp.indices, s.bits.getD i 0 ≠ 0) :
    Describes ⟨s.favids, s.bits, FuzzSocketCan.takeSlots inp.id 0 inp.bitmap.ijonMax s.slots⟩
      size (seen ++ [inp]) chosen where
  favids := h.favids
  sublist := h.sublist.trans (sublist_append_left _ _)
  greedy := by
    have hcovered : inp.indices ⊆ covered Input.indices (chosen.filter Input.hasNewByte) :=
      fun i hi => (h.bits i).1 (hold i hi)
    simpa [filter_append, hnew] using h.greedy.pass hcovered
  plain := by
    intro other hmem hplain
    rcases mem_append.1 hmem with hmem | hmem
    · exact h.plain other hmem hplain
    · rw [mem_singleton.1 hmem, Input.isPlainSeed, hnew] at hplain
      cases hplain
  reason := h.reason
  length := h.length
  bits := h.bits
  slots := h.takeSlots hnew

theorem seed (h : s.Describes size seen chosen) (hseed : inp.isPlainSeed) :
    Describes { s with favids := s.favids ++ [inp.id] } size (seen ++ [inp]) (chosen ++ [inp]) := by
  have hnew : inp.hasNewByte = false := by
    simp only [isPlainSeed, Bool.and_eq_true, Bool.not_eq_true'] at hseed
    exact hseed.1
  refine ⟨by simp [h.favids], h.sublist.append_right _, ?_, ?_, ?_, h.length, ?_, ?_⟩
  · rw [filter_seen hnew, filter_seen hnew]
    exact h.greedy
  · intro other hmem hplain
    rcases mem_append.1 hmem with hmem | hmem
    · exact mem_append_left _ (h.plain other hmem hplain)
    · exact mem_append_right _ hmem
  · intro other hmem
    rcases mem_append.1 hmem with hmem | hmem
    · exact h.reason other hmem
    · rw [mem_singleton.1 hmem]
      exact .inr hseed
  · rw [filter_seen hnew]
    exact h.bits
  · rw [filter_seen hnew]
    exact h.slots

theorem ignore (h : s.Describes size seen chosen) (hnew : inp.hasNewByte = false)
    (hseed : inp.isPlainSeed = false) : s.Describes size (seen ++ [inp]) chosen := by
  refine ⟨h.favids, h.sublist.trans (sublist_append_left _ _), ?_, ?_, h.reason, h.length,
    h.bits, ?_⟩
  · rw [filter_seen hnew]
    exact h.greedy
  · intro other hmem hplain
    rcases mem_append.1 hmem with hmem | hmem
    · exact h.plain other hmem hplain
    · rw [mem_singleton.1 hmem, hseed] at hplain
      cases hplain
  · rw [filter_seen hnew]
    exact h.slots

theorem visit (h : s.Describes size seen chosen) (hsize : inp.bitmap.bits.length = size) :
    ∃ s' chosen', s.visit inp = .ok s' ∧ s'.Describes size (seen ++ [inp]) chosen' := by
  have hlen : 0 + inp.bitmap.bits.length ≤ s.bits.length := by rw [hsize, h.length, zero_add]
  rw [FavScan.visit, ← hasNewByte]
  cases hnew : inp.hasNewByte with
  | true =>
    obtain ⟨new, hcheck, hiff⟩ := hasNewBits_spec hlen
    simp only [zero_add] at hiff
    obtain ⟨bits, hcover, hbitsLen, hbits⟩ := coverBits_spec hlen
    rw [hcheck]
    cases new with
    | true =>
      obtain ⟨i, hbit, hi⟩ := hiff.1 rfl
      refine ⟨_, _, by rw [hcover]; rfl, h.choose hnew hi hbit hbitsLen ?_⟩
      intro k
      rw [hbits]
      simp [indices]
    | false =>
      refine ⟨_, _, rfl, h.pass hnew fun i hi hbit => ?_⟩
      exact Bool.false_ne_true (hiff.2 ⟨i, hbit, hi⟩)
  | false =>
    by_cases hfound : inp.foundBy = .seedImport
    · rw [if_pos hfound]
      exact ⟨_, _, rfl, h.seed (by simp [isPlainSeed, hnew, hfound])⟩
    · rw [if_neg hfound]
      exact ⟨_, _, rfl, h.ignore hnew (by simp [isPlainSeed, hfound])⟩

theorem visitAll (h : s.Describes size seen chosen) {inputs : List Input}
    (hsize : ∀ inp ∈ inputs, inp.bitmap.bits.length = size) :
    ∃ s' chosen', inputs.foldlM FavScan.visit s = .ok s' ∧
      s'.Describes size (seen ++ inputs) chosen' := by
  induction inputs generalizing s seen chosen with
  | nil => exact ⟨s, chosen, rfl, by rwa [append_nil]⟩
  | cons inp inputs ih =>
    obtain ⟨s1, chosen1, hvisit, h1⟩ := h.visit (hsize inp mem_cons_self)
    obtain ⟨s', chosen', hrest, h'⟩ := ih h1 fun other hmem =>
      hsize other (mem_cons_of_mem _ hmem)
    refine ⟨s', chosen', ?_, by rwa [append_assoc] at h'⟩
    rw [foldlM_cons, hvisit]
    exact hrest

end FavScan.Describes

/-! ## The favourites -/

/-- **The favourites cover the corpus**: those with a new byte have the indices of all inputs with a
new byte, each ijon slot has a favourite with the largest value, the plain seeds are favourites, and
any other favourite has an index that none before it has, or the largest value of a slot. -/
structure CoversCorpus (inputs : List Input) (favids : List InputID) : Prop where
  nodup : favids.Nodup
  covers : covered Input.indices (inputs.filter fun inp => inp.hasNewByte && inp.id ∈ favids) =
    covered Input.indices (inputs.filter Input.hasNewByte)
  slots : ∀ slot, (∃ inp ∈ inputs, inp.hasNewByte ∧ inp.slotValue slot ≠ 0) →
    ∃ fav ∈ inputs, fav.id ∈ favids ∧ fav.Attains inputs slot
  plain : ∀ inp ∈ inputs, inp.isPlainSeed → inp.id ∈ favids
  reason : ∀ pre id post, favids = pre ++ id :: post → ∃ inp ∈ inputs, inp.id = id ∧
    (inp.isPlainSeed ∨ inp.hasNewByte ∧
      ((∃ i ∈ inp.indices, ∀ other ∈ inputs, other.hasNewByte → other.id ∈ pre → i ∉ other.indices) ∨
        ∃ slot, inp.Attains inputs slot))

section Favourites

variable {s : FavScan} {size : ℕ} {inputs chosen : List Input} {order : IterOrder}

theorem FavScan.favourites_eq (order : IterOrder) (s : FavScan) :
    s.favourites order = appendNew (fun e => e.2.2) s.favids (order.1 s.slots.entries) := rfl

theorem FavScan.Describes.attains (h : s.Describes size inputs.reverse chosen) {k : ℕ} {v : UInt64}
    {id : InputID} (hk : ⟨k, v, id⟩ ∈ s.slots.entries) :
    ∃ inp ∈ inputs, inp.id = id ∧ inp.Attains inputs k := by
  obtain ⟨o, hbest, hlookup⟩ := h.slots k
  have hmem : (v, id) ∈ s.slots.lookup k := AList.mem_lookup_iff.2 hk
  rw [hlookup] at hmem
  cases o with
  | none => cases hmem
  | some inp =>
    obtain ⟨hin, hne, hmax⟩ := hbest
    simp only [mem_filter, mem_reverse] at hin hmax
    obtain ⟨-, rfl⟩ := Prod.mk.inj (Option.some.inj hmem)
    exact ⟨inp, hin.1, rfl, hin.2, hne, fun other ho hb => hmax other ⟨ho, hb⟩⟩

theorem FavScan.Describes.favourites (h : s.Describes size inputs.reverse chosen)
    (order : IterOrder) :
    ∃ extra, s.favourites order = chosen.map Input.id ++ extra ∧
      (∀ id ∈ extra, ∃ inp ∈ inputs, inp.id = id ∧ ∃ slot, inp.Attains inputs slot) ∧
      ∀ e ∈ s.slots.entries, e.2.2 ∈ s.favourites order := by
  have hentries : ∀ e, e ∈ order.1 s.slots.entries ↔ e ∈ s.slots.entries := fun e =>
    (order.2 s.slots.entries).mem_iff
  obtain ⟨extra, heq, hfrom, hall⟩ :=
    appendNew_spec (f := fun e : (Σ _ : ℕ, UInt64 × InputID) => e.2.2) s.favids
      (order.1 s.slots.entries)
  rw [← FavScan.favourites_eq] at heq
  refine ⟨extra, by rw [heq, h.favids], ?_, ?_⟩
  · intro id hid
    obtain ⟨⟨k, v, _⟩, he, rfl⟩ := hfrom id hid
    obtain ⟨inp, hinp, hids, hattains⟩ := h.attains ((hentries _).1 he)
    exact ⟨inp, hinp, hids, k, hattains⟩
  · intro e he
    rw [heq]
    exact hall e ((hentries e).2 he)

theorem FavScan.Describes.mem_favourites (h : s.Describes size inputs.reverse chosen) {inp : Input}
    (hinp : inp ∈ chosen) : inp.id ∈ s.favourites order := by
  obtain ⟨extra, heq, -⟩ := h.favourites order
  rw [heq]
  exact mem_append_left _ (mem_map_of_mem hinp)

theorem FavScan.Describes.nodup_favourites (h : s.Describes size inputs.reverse chosen)
    (hids : (inputs.map Input.id).Nodup) : (s.favourites order).Nodup := by
  rw [FavScan.favourites_eq, h.favids]
  apply nodup_appendNew
  apply List.Nodup.sublist (h.sublist.map Input.id)
  rwa [map_reverse, nodup_reverse]

theorem FavScan.Describes.covered_favourites (h : s.Describes size inputs.reverse chosen) :
    covered Input.indices
        (inputs.filter fun inp => inp.hasNewByte && inp.id ∈ s.favourites order) =
      covered Input.indices (inputs.filter Input.hasNewByte) := by
  apply Set.Subset.antisymm
  · refine covered_mono fun a ha => ?_
    simp only [mem_filter, Bool.and_eq_true] at ha ⊢
    exact ⟨ha.1, ha.2.1⟩
  · intro i hi
    have hall : i ∈ covered indices (inputs.reverse.filter hasNewByte) := by
      rw [filter_reverse]
      exact covered_mono (fun a ha => mem_reverse.2 ha) hi
    rw [← h.greedy.covers] at hall
    obtain ⟨a, ha, hia⟩ := hall
    obtain ⟨hchosen, hnew⟩ := mem_filter.1 ha
    have hinputs : a ∈ inputs := mem_reverse.1 (h.sublist.subset hchosen)
    refine ⟨a, mem_filter.2 ⟨hinputs, ?_⟩, hia⟩
    simp [hnew, h.mem_favourites hchosen]

theorem FavScan.Describes.slot_favourite (h : s.Describes size inputs.reverse chosen) {slot : ℕ}
    {inp : Input} (hinp : inp ∈ inputs) (hnew : inp.hasNewByte) (hne : inp.slotValue slot ≠ 0) :
    ∃ fav ∈ inputs, fav.id ∈ s.favourites order ∧ fav.Attains inputs slot := by
  obtain ⟨extra, -, -, hall⟩ := h.favourites order
  obtain ⟨o, hbest, hlookup⟩ := h.slots slot
  have hmem : inp ∈ inputs.reverse.filter hasNewByte :=
    mem_filter.2 ⟨mem_reverse.2 hinp, hnew⟩
  cases o with
  | none => exact absurd (hbest inp hmem) hne
  | some fav =>
    have hentry : ⟨slot, fav.bitmap.ijonMax.getD slot 0, fav.id⟩ ∈ s.slots.entries :=
      AList.mem_lookup_iff.1 hlookup
    obtain ⟨hfav, hne', hmax⟩ := hbest
    simp only [mem_filter, mem_reverse] at hfav hmax
    exact ⟨fav, hfav.1, hall _ hentry, hfav.2, hne', fun other ho hb => hmax other ⟨ho, hb⟩⟩

theorem FavScan.Describes.reason_favourite (h : s.Describes size inputs.reverse chosen)
    (hids : (inputs.map Input.id).Nodup) {pre post : List InputID} {id : InputID}
    (hfav : s.favourites order = pre ++ id :: post) : ∃ inp ∈ inputs, inp.id = id ∧
      (inp.isPlainSeed ∨ inp.hasNewByte ∧
        ((∃ i ∈ inp.indices, ∀ other ∈ inputs, other.hasNewByte → other.id ∈ pre →
          i ∉ other.indices) ∨ ∃ slot, inp.Attains inputs slot)) := by
  have hinputs : ∀ a ∈ chosen, a ∈ inputs := fun a ha => mem_reverse.1 (h.sublist.subset ha)
  obtain ⟨extra, heq, hfrom, -⟩ := h.favourites order
  have hslot : id ∈ extra → ∃ inp ∈ inputs, inp.id = id ∧ (inp.isPlainSeed ∨ inp.hasNewByte ∧
      ((∃ i ∈ inp.indices, ∀ other ∈ inputs, other.hasNewByte → other.id ∈ pre →
        i ∉ other.indices) ∨ ∃ slot, inp.Attains inputs slot)) := by
    intro hid
    obtain ⟨inp, hinp, hid, slot, hattains⟩ := hfrom id hid
    exact ⟨inp, hinp, hid, .inr ⟨hattains.1, .inr ⟨slot, hattains⟩⟩⟩
  rw [heq] at hfav
  rcases append_eq_append_iff.1 hfav with ⟨mid, -, hextra⟩ | ⟨mid, hchosen, hmid⟩
  · exact hslot (by simp [hextra])
  · rcases mid with _ | ⟨id', mid⟩
    · rw [nil_append] at hmid
      exact hslot (by simp [← hmid])
    · -- the favourite is a chosen input `a`, and those before it are `before`
      obtain ⟨rfl, -⟩ := cons.inj hmid
      obtain ⟨before, rest, rfl, rfl, hrest⟩ := map_eq_append_iff.1 hchosen
      obtain ⟨a, after, rfl, rfl, -⟩ := map_eq_cons_iff.1 hrest
      refine ⟨a, hinputs a (by simp), rfl, ?_⟩
      rcases h.reason a (by simp) with hnew | hplain
      · refine .inr ⟨hnew, .inl ?_⟩
        obtain ⟨i, hi, hfresh⟩ := h.greedy.fresh (before.filter hasNewByte) a
          (after.filter hasNewByte) (by simp [filter_append, hnew])
        refine ⟨i, hi, ?_⟩
        intro other hother hb hid hio
        obtain ⟨b, hbefore, hbid⟩ := mem_map.1 hid
        have hsame : b = other :=
          inj_on_of_nodup_map hids (hinputs b (by simp [hbefore])) hother hbid
        subst hsame
        exact hfresh ⟨b, mem_filter.2 ⟨hbefore, hb⟩, hio⟩
      · exact .inl hplain

theorem FavScan.Describes.coversCorpus (h : s.Describes size inputs.reverse chosen)
    (hids : (inputs.map Input.id).Nodup) : CoversCorpus inputs (s.favourites order) where
  nodup := h.nodup_favourites hids
  covers := h.covered_favourites
  slots := by
    rintro slot ⟨inp, hinp, hnew, hne⟩
    exact h.slot_favourite hinp hnew hne
  plain := fun inp hinp hplain => h.mem_favourites (h.plain inp (mem_reverse.2 hinp) hplain)
  reason := fun pre id post hfav => h.reason_favourite hids hfav

end Favourites

/-- **`calc_fav_bits` returns favourites that cover the corpus.** -/
theorem calcFavBits_coversCorpus (order : IterOrder) {d : QueueData}
    (hids : (d.inputs.map Input.id).Nodup)
    (hsize : ∀ inp ∈ d.inputs, inp.bitmap.bits.length = d.bitmaps.size) :
    ∃ favids, calcFavBits order d = .ok ⟨⟩ { d with favqueue := favids } ∧
      CoversCorpus d.inputs favids := by
  have hsize' : ∀ inp ∈ d.inputs.reverse, inp.bitmap.bits.length = d.bitmaps.size :=
    fun inp hinp => hsize inp (mem_reverse.1 hinp)
  obtain ⟨s, chosen, hscan, h⟩ := (FavScan.Describes.start d.bitmaps.size).visitAll hsize'
  refine ⟨s.favourites order, ?_, h.coversCorpus hids⟩
  have hread : d.readFavBits order = .ok (s.favourites order) := by
    rw [QueueData.readFavBits, favBits, favScan, hscan]
    rfl
  rw [calcFavBits, get_bind_run, hread, orPanic_bind_run]
  rfl

def oneByteQueue (inputs : List Input) : QueueData := { QueueData.new 1 with inputs := inputs }

def oneByteInput (id : InputID) (slot : UInt64) (reasons : List StorageReason)
    (foundBy : MutationStrategy) : Input where
  id := id
  data := ⟨[0, 0], []⟩
  bitmap := ⟨[1], [slot]⟩
  exitReason := .normal 0
  storageReasons := reasons
  foundBy := foundBy

def twoFinds : List Input :=
  [oneByteInput 0 5 [.bitmap ⟨0, 0, 1⟩] .generate, oneByteInput 1 3 [.bitmap ⟨0, 0, 1⟩] .generate]

def plainSeed : List Input := [oneByteInput 0 0 [.imported] .seedImport]

theorem calcFavBits_coversCorpus_twoFinds :
    (twoFinds.map Input.id).Nodup ∧ ∃ favids,
      calcFavBits listOrder (oneByteQueue twoFinds) =
        .ok ⟨⟩ { oneByteQueue twoFinds with favqueue := favids } ∧ CoversCorpus twoFinds favids := by
  have hids : (twoFinds.map Input.id).Nodup := by decide
  refine ⟨hids, calcFavBits_coversCorpus listOrder (d := oneByteQueue twoFinds) hids ?_⟩
  intro inp hinp
  simp only [oneByteQueue, twoFinds, mem_cons, not_mem_nil, or_false] at hinp
  rcases hinp with rfl | rfl <;> rfl

/-- **What the favourites do not do.** -/
theorem favBits_beyond_newBytes :
    (favBits listOrder 1 plainSeed = .ok [0] ∧
      covered Input.indices plainSeed ≠
        covered Input.indices (plainSeed.filter Input.hasNewByte)) ∧
    (favBits listOrder 1 twoFinds = .ok [1, 0] ∧ twoFinds.all (·.bitmap.bits = [1])) := by
  refine ⟨⟨rfl, ?_⟩, rfl, rfl⟩
  intro heq
  have hseed : 0 ∈ covered indices plainSeed :=
    ⟨oneByteInput 0 0 [.imported] .seedImport, mem_singleton_self _,
      show (1 : UInt8) ≠ 0 by decide⟩
  rw [heq] at hseed
  obtain ⟨a, ha, -⟩ := hseed
  cases ha

end FuzzSocketCan
