import FuzzSocketCan.Lib.Execution
import Mathlib.Algebra.GroupWithZero.Nat
import Mathlib.Data.List.Nodup

/-! # The page cache

`page_cache.c` keeps the code pages dumped from the guest in two files that all QEMU processes
share: the pages and their addresses. Each process has a table from addresses to places. An update
takes the file lock, catches up with what others have appended, and appends a page if its address
is still missing.

* **`cacheSystem_refines`** — however the updates interleave, the files are the log of the
  successful dumps.
* **`pageCache_shared`** — so the processes agree on the cache.
* **`pages_lost_at_overflow`** — until the 32-bit counter overflows and the page file is cut. -/

namespace FuzzSocketCan.Qemu

open Lib List Option Function

variable {P Page : Type}

/-! ## Dumping a page -/

/-- What `dump_page_cr3_ht` or `dump_page_cr3_snapshot` does: there is no mapping, the page is read,
or reading fails with the destination in some state. -/
inductive PageDump (Page : Type)
  | unmapped
  | read (contents : Page)
  | error (contents : Page)

namespace PageDump

/-- `none` where it writes behind the mapping. -/
def run (pages : List Page) (k : ℕ) : PageDump Page → Option (List Page × Bool)
  | unmapped => some (pages, false)
  | read contents => if k < pages.length then some (pages.set k contents, true) else none
  | error contents => if k < pages.length then some (pages.set k contents, false) else none

def contents? : PageDump Page → Option Page
  | read contents => some contents
  | unmapped | error _ => none

end PageDump

/-- The dumps with `pt_c3_filter`, with `parent_cr3` and from the snapshot, and where the kernel
maps the page file. -/
structure FetchContext (Page : Type) where
  filter : PageDump Page
  parent : PageDump Page
  snapshot : PageDump Page
  reloadedAt : UInt64
  extendedAt : UInt64
  shrunkAt : UInt64

def FetchContext.dumps (ctx : FetchContext Page) : List (PageDump Page) :=
  [ctx.filter, ctx.parent, ctx.snapshot]

def FetchContext.dumped (ctx : FetchContext Page) : Option Page :=
  ctx.dumps.findSome? PageDump.contents?

def dumpFirst (k : ℕ) : List (PageDump Page) → List Page → Option (List Page × Bool)
  | [], pages => some (pages, false)
  | d :: ds, pages =>
    (d.run pages k).bind fun (pages, ok) => if ok then some (pages, true) else dumpFirst k ds pages

/-! ## The cache of a process -/

/-- `PAGE_SIZE` -/
def pageBytes : UInt64 := 4096

def pageMask : UInt64 := 0xFFFFFFFFFFFFF000

def unmappedPage : UInt64 := 0xFFFFFFFFFFFFFFFF

structure CacheFiles (Page : Type) where
  addresses : List UInt64
  pages : List Page

/-- `page_cache_t` -/
structure PageCache where
  lookup : UInt64 → Option UInt64
  pageData : UInt64
  numPages : UInt32
  lastPage : UInt64
  lastAddr : UInt64

/-- `ftruncate`, in pages: what is added is zero. -/
def ftruncate [Zero Page] (pages : List Page) (n : ℕ) : List Page :=
  pages.take n ++ List.replicate (n - pages.length) 0

namespace PageCache

/-- `page_cache_new` -/
def new : PageCache := ⟨fun _ => none, 0, 0, 0xFFFFFFFFFFFFFFFF, 0xFFFFFFFFFFFFFFFF⟩

def loadLines : List UInt64 → UInt64 → (UInt64 → Option UInt64) → UInt64 → Option UInt64
  | [], _, lookup => lookup
  | value :: lines, offset, lookup =>
    let addr := value &&& pageMask
    let offset := offset + 1
    loadLines lines offset <|
      match lookup addr with
      | some _ => lookup
      | none =>
        if value &&& 0xFFF ≠ 0 then lookup
        else update lookup addr (some ((offset - 1) * pageBytes))

def reloadAddresses (self : PageCache) (addresses : List UInt64) (base : UInt64) :
    PageCache × Bool :=
  if addresses.length ≠ self.numPages.toNat then
    ({ self with
        lookup := loadLines (addresses.drop self.numPages.toNat) self.numPages.toUInt64 self.lookup
        numPages := UInt32.ofNat addresses.length
        pageData := base }, true)
  else (self, false)

def appendPage [Zero Page] (self : PageCache) (pages : List Page) (ctx : FetchContext Page) :
    Option (PageCache × List Page × Bool) :=
  -- `num_pages + 1` is computed with 32 bits
  (dumpFirst self.numPages.toNat ctx.dumps (ftruncate pages (self.numPages + 1).toNat)).map
    fun (pages, ok) =>
      if ok then
        ({ self with pageData := ctx.extendedAt, numPages := self.numPages + 1 }, pages, true)
      else
        ({ self with pageData := ctx.shrunkAt }, ftruncate pages self.numPages.toNat, false)

/-- The cache, the files, `*k` and the result. -/
def updatePageCache [Zero Page] (self : PageCache) (files : CacheFiles Page) (page : UInt64)
    (k : Option UInt64) (ctx : FetchContext Page) :
    Option (PageCache × CacheFiles Page × Option UInt64 × Bool) :=
  let (self, reloaded) := self.reloadAddresses files.addresses ctx.reloadedAt
  let k := if reloaded then self.lookup page else k
  if k.isSome then some (self, files, k, true)
  else
    let k := self.lookup page
    let (self', reloaded) := self.reloadAddresses files.addresses ctx.reloadedAt
    if k.isNone && reloaded then some (self', files, self'.lookup page, true)
    else
      -- the second reload has not changed anything if the first `kh_get` has failed
      let self := if k.isNone then self' else self
      (self.appendPage files.pages ctx).map fun (self, pages, ok) =>
        if ok then
          let offset := (self.numPages - 1).toUInt64 * pageBytes
          let self := { self with lookup := update self.lookup page (some offset) }
          (self, ⟨files.addresses ++ [page], pages⟩, self.lookup page, true)
        else (self, ⟨files.addresses, pages⟩, none, false)

/-- The end of `page_cache_fetch`. -/
def found (self : PageCache) (page : UInt64) (k : Option UInt64) : Option (PageCache × UInt64) :=
  k.map fun offset =>
    let addr := if offset = unmappedPage then unmappedPage else self.pageData + offset
    ({ self with lastPage := page, lastAddr := addr }, addr)

def pageCacheFetch [Zero Page] (self : PageCache) (files : CacheFiles Page) (page : UInt64)
    (testMode : Bool) (ctx : FetchContext Page) :
    Option (PageCache × CacheFiles Page × UInt64 × Bool) :=
  let page := page &&& pageMask
  if self.lastPage = page then some (self, files, self.lastAddr, true)
  else
    let k := self.lookup page
    if k.isSome then (self.found page k).map fun (self, addr) => (self, files, addr, true)
    else if testMode then some (self, files, 0, false)
    else
      (self.updatePageCache files page k ctx).bind fun (self, files, k, ok) =>
        if ok then (self.found page k).map fun (self, addr) => (self, files, addr, true)
        else some (self, files, 0, false)

end PageCache

/-! ## Processes that share the files -/

inductive CacheOp (P Page : Type)
  | openCache (p : P)
  | fetch (p : P) (page : UInt64) (testMode : Bool) (ctx : FetchContext Page)

structure CacheSystem (P Page : Type) where
  files : CacheFiles Page
  caches : P → PageCache

namespace CacheSystem

def start : CacheSystem P Page := ⟨⟨[], []⟩, fun _ => .new⟩

def step [DecidableEq P] [Zero Page] (sys : CacheSystem P Page) :
    CacheOp P Page → Option (CacheSystem P Page)
  | .openCache p => some { sys with caches := update sys.caches p .new }
  | .fetch p page testMode ctx =>
    ((sys.caches p).pageCacheFetch sys.files page testMode ctx).map fun (self, files, _, _) =>
      ⟨files, update sys.caches p self⟩

end CacheSystem

/-! ## The log of the dumps -/

abbrev PageLog (Page : Type) := List (UInt64 × Page)

namespace PageLog

def update (log : PageLog Page) (page : UInt64) (dumped : Option Page) : PageLog Page :=
  if page ∈ log.map Prod.fst then log
  else log ++ dumped.toList.map fun contents => (page, contents)

def step (log : PageLog Page) : CacheOp P Page → PageLog Page
  | .openCache _ => log
  | .fetch _ page testMode ctx => if testMode then log else log.update (page &&& pageMask) ctx.dumped

def files (log : PageLog Page) : CacheFiles Page := ⟨log.map Prod.fst, log.map Prod.snd⟩

structure Valid (log : PageLog Page) : Prop where
  nodup : (log.map Prod.fst).Nodup
  aligned : ∀ a ∈ log.map Prod.fst, a &&& pageMask = a

variable {log : PageLog Page}

theorem update_of_mem {page : UInt64} (h : page ∈ log.map Prod.fst) (dumped : Option Page) :
    log.update page dumped = log :=
  if_pos h

@[simp] theorem update_none (log : PageLog Page) (page : UInt64) : log.update page none = log := by
  unfold update
  split
  · rfl
  · exact append_nil log

theorem update_some {page : UInt64} (h : page ∉ log.map Prod.fst) (contents : Page) :
    log.update page (some contents) = log ++ [(page, contents)] :=
  if_neg h

theorem Valid.update (h : log.Valid) (page : UInt64) (dumped : Option Page) :
    (log.update (page &&& pageMask) dumped).Valid := by
  by_cases hmem : page &&& pageMask ∈ log.map Prod.fst
  · rwa [update_of_mem hmem]
  · cases dumped with
    | none => rwa [update_none]
    | some contents =>
      rw [update_some hmem]
      constructor
      · rw [map_append]
        exact h.nodup.append (nodup_singleton _) (disjoint_singleton.2 hmem)
      · intro a ha
        rw [map_append, mem_append] at ha
        rcases ha with ha | ha
        · exact h.aligned a ha
        · rw [mem_singleton.1 ha, UInt64.and_assoc, UInt64.and_self]

end PageLog

/-! ## The table of a process -/

def positions (addresses : List UInt64) (a : UInt64) : Option UInt64 :=
  (addresses.findIdx? (· == a)).map fun k => UInt64.ofNat k * pageBytes

variable {addresses : List UInt64} {a : UInt64}

theorem findIdx?_beq_eq_none : addresses.findIdx? (· == a) = none ↔ a ∉ addresses := by
  rw [findIdx?_eq_none_iff]
  constructor
  · intro h hmem
    exact absurd (h a hmem) (by simp)
  · rintro h b hb
    exact beq_false_of_ne (ne_of_mem_of_not_mem hb h)

theorem positions_eq_none : positions addresses a = none ↔ a ∉ addresses :=
  map_eq_none_iff.trans findIdx?_beq_eq_none

theorem positions_append_singleton (h : a ∉ addresses) :
    positions (addresses ++ [a]) =
      update (positions addresses) a
        (some (UInt64.ofNat addresses.length * pageBytes)) := by
  funext b
  unfold positions
  rw [findIdx?_append]
  rcases eq_or_ne b a with rfl | hne
  · rw [update_self, findIdx?_beq_eq_none.2 h]
    simp [findIdx?_cons]
  · rw [update_of_ne hne]
    simp [findIdx?_cons, hne.symm]

variable {v : UInt64}

theorem getElem?_of_positions (hlen : addresses.length < 2 ^ 32)
    (h : positions addresses a = some v) :
    ∃ k : ℕ, addresses[k]? = some a ∧ v.toNat = 4096 * k := by
  obtain ⟨k, hk, rfl⟩ := map_eq_some_iff.1 h
  obtain ⟨hlt, heq, -⟩ := findIdx?_eq_some_iff_getElem.1 hk
  refine ⟨k, ?_, ?_⟩
  · rw [getElem?_eq_getElem hlt, eq_of_beq heq]
  · have hk : (UInt64.ofNat k).toNat = k := UInt64.toNat_ofNat_of_lt' (by rw [UInt64.size]; omega)
    have hpage : pageBytes.toNat = 4096 := rfl
    rw [UInt64.toNat_mul, hk, hpage]
    omega

theorem and_pageMask_ne_new (page : UInt64) : page &&& pageMask ≠ 0xFFFFFFFFFFFFFFFF := by
  intro h
  -- the lowest bit is cleared by the mask
  have hbit := congrArg (· &&& 1) h
  simp only [UInt64.and_assoc] at hbit
  rw [show pageMask &&& 1 = 0 from rfl, UInt64.and_zero] at hbit
  exact absurd hbit (by decide)

theorem and_low_of_aligned (h : a &&& pageMask = a) : a &&& 0xFFF = 0 := by
  rw [← h, UInt64.and_assoc, show pageMask &&& 0xFFF = 0 from rfl, UInt64.and_zero]

namespace PageCache

theorem loadLines_positions {known lines : List UInt64} (hnodup : (known ++ lines).Nodup)
    (haligned : ∀ a ∈ lines, a &&& pageMask = a) :
    loadLines lines (UInt64.ofNat known.length) (positions known) = positions (known ++ lines) := by
  induction lines generalizing known with
  | nil => rw [append_nil]; rfl
  | cons a lines ih =>
    have ha := haligned a mem_cons_self
    have hnew : a ∉ known := fun hmem =>
      disjoint_of_nodup_append hnodup hmem mem_cons_self
    have hmid : known ++ a :: lines = known ++ [a] ++ lines := by simp
    have hnext : UInt64.ofNat known.length + 1 = UInt64.ofNat (known ++ [a]).length := by
      rw [length_append, UInt64.ofNat_add]
      rfl
    unfold loadLines
    simp only [ha, positions_eq_none.2 hnew, and_low_of_aligned ha, ne_eq, not_true, if_false,
      UInt64.add_sub_cancel]
    rw [← positions_append_singleton hnew, hnext, hmid]
    apply ih
    · rwa [← hmid]
    · exact fun b hb => haligned b (mem_cons_of_mem a hb)

structure Follows (cache : PageCache) (addresses : List UInt64) : Prop where
  numPages_le : cache.numPages.toNat ≤ addresses.length
  lookup_eq : cache.lookup = positions (addresses.take cache.numPages.toNat)
  lastPage : cache.lastPage = 0xFFFFFFFFFFFFFFFF ∨ cache.lastPage ∈ addresses

theorem follows_new (addresses : List UInt64) : new.Follows addresses :=
  ⟨Nat.zero_le _, rfl, .inl rfl⟩

theorem Follows.append {self : PageCache} (h : self.Follows addresses) (added : List UInt64) :
    self.Follows (addresses ++ added) := by
  refine ⟨?_, ?_, ?_⟩
  · rw [length_append]
    exact Nat.le_add_right_of_le h.numPages_le
  · rw [take_append_of_le_length h.numPages_le, h.lookup_eq]
  · exact h.lastPage.imp_right (mem_append_left added)

theorem Follows.reloadAddresses {self : PageCache} (h : self.Follows addresses)
    (hnodup : addresses.Nodup) (haligned : ∀ a ∈ addresses, a &&& pageMask = a)
    (hlen : addresses.length < 2 ^ 32) (base : UInt64) :
    (self.reloadAddresses addresses base).1.Follows addresses ∧
      (self.reloadAddresses addresses base).1.numPages.toNat = addresses.length := by
  unfold PageCache.reloadAddresses
  split
  case isFalse heq => exact ⟨h, (not_not.1 heq).symm⟩
  case isTrue hne =>
    have hnum : (UInt32.ofNat addresses.length).toNat = addresses.length :=
      (UInt32.toNat_ofNat').trans (Nat.mod_eq_of_lt hlen)
    have hknown : (addresses.take self.numPages.toNat).length = self.numPages.toNat :=
      length_take_of_le h.numPages_le
    have hsplit := take_append_drop self.numPages.toNat addresses
    have hoffset : self.numPages.toUInt64 =
        UInt64.ofNat (addresses.take self.numPages.toNat).length := by
      rw [hknown, UInt64.ofNat_uInt32ToNat]
    refine ⟨⟨Nat.le_of_eq hnum, ?_, h.lastPage⟩, hnum⟩
    rw [hnum, take_length, h.lookup_eq, hoffset, loadLines_positions, hsplit]
    · rwa [hsplit]
    · exact fun a ha => haligned a (mem_of_mem_drop ha)

theorem reloadAddresses_of_eq {self : PageCache} (h : self.numPages.toNat = addresses.length)
    (base : UInt64) : self.reloadAddresses addresses base = (self, false) :=
  if_neg (not_not.2 h.symm)

/-! ## Appending a page -/

section Append

variable [Zero Page] {pages : List Page} {ctx : FetchContext Page}

variable {ds : List (PageDump Page)}

omit [Zero Page] in
theorem dumpFirst_of_some {contents : Page} (h : ds.findSome? PageDump.contents? = some contents)
    (old : Page) :
    dumpFirst pages.length ds (pages ++ [old]) = some (pages ++ [contents], true) := by
  induction ds generalizing old with
  | nil => cases h
  | cons d ds ih =>
    cases d with
    | unmapped => exact ih h old
    | read c =>
      obtain rfl : c = contents := some.inj h
      simp [dumpFirst, PageDump.run]
    | error c => simpa [dumpFirst, PageDump.run] using ih h c

omit [Zero Page] in
theorem dumpFirst_of_none (h : ds.findSome? PageDump.contents? = none) (old : Page) :
    ∃ left, dumpFirst pages.length ds (pages ++ [old]) = some (pages ++ [left], false) := by
  induction ds generalizing old with
  | nil => exact ⟨old, rfl⟩
  | cons d ds ih =>
    cases d with
    | unmapped => exact ih h old
    | read c => cases h
    | error c => simpa [dumpFirst, PageDump.run] using ih h c

theorem ftruncate_succ (pages : List Page) : ftruncate pages (pages.length + 1) = pages ++ [0] := by
  rw [ftruncate, take_of_length_le (Nat.le_succ _), Nat.add_sub_cancel_left]
  rfl

theorem ftruncate_append_singleton (pages : List Page) (p : Page) :
    ftruncate (pages ++ [p]) pages.length = pages := by
  simp [ftruncate]

theorem toNat_succ_of_lt {n : UInt32} {k : ℕ} (hn : n.toNat = k) (hk : k + 1 < 2 ^ 32) :
    (n + 1).toNat = k + 1 := by
  rw [UInt32.toNat_add, hn]
  exact Nat.mod_eq_of_lt hk

theorem appendPage_of_some {self : PageCache} (hn : self.numPages.toNat = pages.length)
    (hlen : pages.length + 1 < 2 ^ 32) {contents : Page} (h : ctx.dumped = some contents) :
    self.appendPage pages ctx =
      some ({ self with pageData := ctx.extendedAt, numPages := self.numPages + 1 },
        pages ++ [contents], true) := by
  unfold appendPage
  rw [toNat_succ_of_lt hn hlen, ftruncate_succ, hn, dumpFirst_of_some h]
  rfl

theorem appendPage_of_none {self : PageCache} (hn : self.numPages.toNat = pages.length)
    (hlen : pages.length + 1 < 2 ^ 32) (h : ctx.dumped = none) :
    self.appendPage pages ctx = some ({ self with pageData := ctx.shrunkAt }, pages, false) := by
  obtain ⟨left, hleft⟩ := @dumpFirst_of_none _ pages _ h 0
  unfold appendPage
  rw [toNat_succ_of_lt hn hlen, ftruncate_succ, hn, hleft, map_some]
  dsimp only
  rw [if_neg Bool.false_ne_true, ftruncate_append_singleton]

end Append

/-! ## An update -/

section Update

variable [Zero Page] {self : PageCache} {log : PageLog Page} {page : UInt64}

theorem Follows.lookup_eq_none (h : self.Follows addresses)
    (hnum : self.numPages.toNat = addresses.length) :
    self.lookup page = none ↔ page ∉ addresses := by
  rw [h.lookup_eq, hnum, take_length, positions_eq_none]

theorem Follows.enter (h : self.Follows addresses) (hnum : self.numPages.toNat = addresses.length)
    (hlen : addresses.length + 1 < 2 ^ 32) (hnew : page ∉ addresses) (base : UInt64) :
    PageCache.Follows
      { self with
        pageData := base
        numPages := self.numPages + 1
        lookup := update self.lookup page
          (some ((self.numPages + 1 - 1).toUInt64 * pageBytes)) }
      (addresses ++ [page]) := by
  have hsucc : (self.numPages + 1).toNat = (addresses ++ [page]).length := by
    rw [toNat_succ_of_lt hnum hlen, length_append, length_singleton]
  refine ⟨Nat.le_of_eq hsucc, ?_, (h.append [page]).lastPage⟩
  rw [hsucc, take_length, positions_append_singleton hnew, UInt32.add_sub_cancel, h.lookup_eq,
    hnum, take_length, ← hnum, UInt64.ofNat_uInt32ToNat]

theorem lookup_reloadAddresses (hmiss : self.lookup page = none) (addresses : List UInt64)
    (base : UInt64) :
    (if (self.reloadAddresses addresses base).2 then
        (self.reloadAddresses addresses base).1.lookup page else none) =
      (self.reloadAddresses addresses base).1.lookup page := by
  unfold reloadAddresses
  split
  · rfl
  · exact hmiss.symm

variable {files : CacheFiles Page} {ctx : FetchContext Page}

theorem updatePageCache_of_some (hmiss : self.lookup page = none)
    (hfound : (self.reloadAddresses files.addresses ctx.reloadedAt).1.lookup page = some v) :
    self.updatePageCache files page none ctx =
      some ((self.reloadAddresses files.addresses ctx.reloadedAt).1, files, some v, true) := by
  have hk := lookup_reloadAddresses hmiss files.addresses ctx.reloadedAt
  rw [hfound] at hk
  unfold updatePageCache
  simp [hfound, hk]

theorem updatePageCache_of_none {cache : PageCache}
    (hcache : (self.reloadAddresses files.addresses ctx.reloadedAt).1 = cache)
    (hnum : cache.numPages.toNat = files.addresses.length) (hfound : cache.lookup page = none) :
    self.updatePageCache files page none ctx =
      (cache.appendPage files.pages ctx).map fun (self, pages, ok) =>
        if ok then
          let offset := (self.numPages - 1).toUInt64 * pageBytes
          let self := { self with lookup := update self.lookup page (some offset) }
          (self, ⟨files.addresses ++ [page], pages⟩, self.lookup page, true)
        else (self, ⟨files.addresses, pages⟩, none, false) := by
  unfold updatePageCache
  simp [hcache, hfound, reloadAddresses_of_eq hnum]

theorem updatePageCache_eq (hlog : log.Valid) (hfollows : self.Follows log.files.addresses)
    (hlen : log.length + 1 < 2 ^ 32) (hmiss : self.lookup page = none) (ctx : FetchContext Page) :
    ∃ self' k ok, self.updatePageCache log.files page none ctx =
        some (self', (log.update page ctx.dumped).files, k, ok) ∧
      self'.Follows (log.update page ctx.dumped).files.addresses ∧
      (ok = true → k.isSome ∧ page ∈ (log.update page ctx.dumped).files.addresses) := by
  have haddresses : log.files.addresses.length = log.length := length_map _
  have hpages : log.files.pages.length = log.length := length_map _
  obtain ⟨hcache, hnum⟩ := hfollows.reloadAddresses hlog.nodup hlog.aligned (by omega) ctx.reloadedAt
  generalize hr : (self.reloadAddresses log.files.addresses ctx.reloadedAt).1 = cache at hcache hnum
  cases hfound : cache.lookup page with
  | some v =>
    have hmem : page ∈ log.files.addresses := by
      by_contra hnot
      rw [(hcache.lookup_eq_none hnum).2 hnot] at hfound
      cases hfound
    rw [PageLog.update_of_mem hmem, updatePageCache_of_some hmiss (hr ▸ hfound), hr]
    exact ⟨cache, some v, true, rfl, hcache, fun _ => ⟨rfl, hmem⟩⟩
  | none =>
    have hnot := (hcache.lookup_eq_none hnum).1 hfound
    rw [updatePageCache_of_none hr hnum hfound]
    cases hd : ctx.dumped with
    | none =>
      rw [appendPage_of_none (by omega) (by omega) hd, PageLog.update_none]
      exact ⟨_, none, false, rfl, ⟨hcache.1, hcache.2, hcache.3⟩, Bool.noConfusion⟩
    | some contents =>
      have hfiles : (log ++ [(page, contents)]).files =
          ⟨log.files.addresses ++ [page], log.files.pages ++ [contents]⟩ := by
        simp [PageLog.files]
      rw [appendPage_of_some (by omega) (by omega) hd, PageLog.update_some hnot, hfiles]
      refine ⟨_, _, true, rfl, hcache.enter hnum (by omega) hnot _, fun _ => ⟨?_, ?_⟩⟩
      · dsimp only
        rw [update_self]
        rfl
      · exact mem_append_right _ (mem_singleton_self page)

theorem Follows.found (h : self.Follows addresses) (hmem : page ∈ addresses) {k : Option UInt64}
    (hk : k.isSome) :
    ∃ self' addr, self.found page k = some (self', addr) ∧ self'.Follows addresses := by
  obtain ⟨offset, rfl⟩ := isSome_iff_exists.1 hk
  exact ⟨_, _, rfl, h.numPages_le, h.lookup_eq, .inr hmem⟩

theorem Follows.mem_of_lookup (h : self.Follows addresses) (hk : (self.lookup page).isSome) :
    page ∈ addresses := by
  rw [h.lookup_eq] at hk
  by_contra hnot
  have hnone : positions (addresses.take self.numPages.toNat) page = none :=
    positions_eq_none.2 fun hmem => hnot (mem_of_mem_take hmem)
  rw [hnone] at hk
  cases hk

theorem Follows.getElem?_of_lookup (h : self.Follows addresses) (hv : self.lookup page = some v) :
    ∃ k : ℕ, addresses[k]? = some page ∧ v.toNat = 4096 * k := by
  rw [h.lookup_eq] at hv
  have hlen : (addresses.take self.numPages.toNat).length < 2 ^ 32 := by
    rw [length_take_of_le h.numPages_le]
    exact self.numPages.toNat_lt
  obtain ⟨k, hk, hvalue⟩ := getElem?_of_positions hlen hv
  rw [getElem?_take] at hk
  split at hk
  · exact ⟨k, hk, hvalue⟩
  · cases hk

theorem Follows.mem_of_lastPage (h : self.Follows addresses)
    (hlast : self.lastPage = page &&& pageMask) : page &&& pageMask ∈ addresses := by
  rw [← hlast]
  apply h.lastPage.resolve_left
  rw [hlast]
  exact and_pageMask_ne_new page

theorem pageCacheFetch_eq (hlog : log.Valid) (hfollows : self.Follows log.files.addresses)
    (hlen : log.length + 1 < 2 ^ 32) (p : P) (page : UInt64) (testMode : Bool)
    (ctx : FetchContext Page) :
    ∃ self' addr ok, self.pageCacheFetch log.files page testMode ctx =
        some (self', (log.step (.fetch p page testMode ctx)).files, addr, ok) ∧
      self'.Follows (log.step (.fetch p page testMode ctx)).files.addresses := by
  -- a page in the file leaves the log as it is
  have hkeep : page &&& pageMask ∈ log.files.addresses →
      log.step (.fetch p page testMode ctx) = log := by
    intro hmem
    rw [PageLog.step, PageLog.update_of_mem hmem, ite_self]
  unfold pageCacheFetch
  dsimp only
  split
  case isTrue hlast =>
    rw [hkeep (hfollows.mem_of_lastPage hlast)]
    exact ⟨self, self.lastAddr, true, rfl, hfollows⟩
  split
  case isTrue hk =>
    have hmem := hfollows.mem_of_lookup hk
    obtain ⟨self', addr, hfound, hfollows'⟩ := hfollows.found hmem hk
    rw [hkeep hmem, hfound]
    exact ⟨self', addr, true, rfl, hfollows'⟩
  case isFalse hk =>
    have hmiss := not_isSome_iff_eq_none.1 hk
    split
    case isTrue htest =>
      rw [PageLog.step, if_pos htest]
      exact ⟨self, 0, false, rfl, hfollows⟩
    case isFalse htest =>
      obtain ⟨self', k, ok, hupdate, hfollows', hok⟩ :=
        updatePageCache_eq hlog hfollows hlen hmiss ctx
      rw [PageLog.step, if_neg htest, hmiss, hupdate, bind_some]
      split
      case isTrue hok' =>
        obtain ⟨hk, hmem⟩ := hok hok'
        obtain ⟨self'', addr, hfound, hfollows''⟩ := hfollows'.found hmem hk
        rw [hfound]
        exact ⟨self'', addr, true, rfl, hfollows''⟩
      case isFalse => exact ⟨self', 0, false, rfl, hfollows'⟩

end Update

end PageCache

/-! ## All processes -/

section System

variable [DecidableEq P] [Zero Page] {sys : CacheSystem P Page} {log : PageLog Page}

structure CacheSystem.Refines (sys : CacheSystem P Page) (log : PageLog Page) : Prop where
  valid : log.Valid
  files_eq : sys.files = log.files
  follows : ∀ p, (sys.caches p).Follows log.files.addresses

omit [DecidableEq P] [Zero Page] in
theorem PageLog.Valid.step (h : log.Valid) (op : CacheOp P Page) : (log.step op).Valid := by
  cases op with
  | openCache p => exact h
  | fetch p page testMode ctx =>
    rw [PageLog.step]
    split
    · exact h
    · exact h.update page ctx.dumped

omit [DecidableEq P] [Zero Page] in
theorem PageLog.addresses_step (log : PageLog Page) (op : CacheOp P Page) :
    ∃ added, (log.step op).files.addresses = log.files.addresses ++ added := by
  have hsame : ∃ added, log.files.addresses = log.files.addresses ++ added :=
    ⟨[], (append_nil _).symm⟩
  cases op with
  | openCache p => exact hsame
  | fetch p page testMode ctx =>
    rw [PageLog.step, PageLog.update]
    split
    · exact hsame
    split
    · exact hsame
    · exact ⟨_, map_append⟩

namespace CacheSystem

def Below (sys : CacheSystem P Page) (_ : CacheOp P Page) : Prop :=
  sys.files.addresses.length + 1 < 2 ^ 32

instance (sys : CacheSystem P Page) (op : CacheOp P Page) : Decidable (sys.Below op) :=
  inferInstanceAs (Decidable (_ < _))

theorem Refines.step (h : sys.Refines log) {op : CacheOp P Page} (hlen : sys.Below op) :
    ∃ sys', sys.step op = some sys' ∧ sys'.Refines (log.step op) := by
  cases op with
  | openCache p =>
    refine ⟨_, rfl, h.valid, h.files_eq, fun q => ?_⟩
    rcases eq_or_ne q p with rfl | hne
    · dsimp only
      rw [update_self]
      exact PageCache.follows_new _
    · dsimp only
      rw [update_of_ne hne]
      exact h.follows q
  | fetch p page testMode ctx =>
    have hlen' : log.length + 1 < 2 ^ 32 := by
      unfold Below at hlen
      rwa [h.files_eq, PageLog.files, length_map] at hlen
    obtain ⟨self, addr, ok, hfetch, hfollows⟩ :=
      PageCache.pageCacheFetch_eq h.valid (h.follows p) hlen' p page testMode ctx
    refine ⟨⟨(log.step (.fetch p page testMode ctx)).files, update sys.caches p self⟩,
      ?_, h.valid.step _, rfl, fun q => ?_⟩
    · rw [CacheSystem.step, h.files_eq, hfetch]
      rfl
    · rcases eq_or_ne q p with rfl | hne
      · dsimp only
        rwa [update_self]
      · obtain ⟨added, hadded⟩ := log.addresses_step (.fetch p page testMode ctx)
        dsimp only
        rw [update_of_ne hne, hadded]
        exact (h.follows q).append added

theorem cacheSystem_refines {ops : List (CacheOp P Page)}
    (h : EachStep CacheSystem.step Below (start : CacheSystem P Page) ops) :
    ∃ sys, exec CacheSystem.step (start : CacheSystem P Page) ops = some sys ∧
      sys.Refines (ops.foldl PageLog.step []) := by
  have hstart : (start : CacheSystem P Page).Refines [] :=
    ⟨⟨nodup_nil, fun a ha => absurd ha not_mem_nil⟩, rfl,
      fun _ => PageCache.follows_new _⟩
  have hstep : ∀ (sys : CacheSystem P Page) (log : PageLog Page) (op : CacheOp P Page),
      sys.Refines log → sys.Below op →
        Option.Rel Refines (sys.step op) (some (log.step op)) := by
    intro sys log op hR hP
    obtain ⟨sys', hstep, hR'⟩ := hR.step hP
    rw [hstep]
    exact .some hR'
  have hrel := exec_rel_of_eachStep hstep h hstart
  rw [exec_some] at hrel
  generalize exec CacheSystem.step start ops = o at hrel
  cases hrel with
  | some hR => exact ⟨_, rfl, hR⟩

end CacheSystem

open CacheSystem

/-- **The processes agree on the page cache**, in every run of any number of them. -/
theorem pageCache_shared {ops : List (CacheOp P Page)}
    (h : EachStep CacheSystem.step Below (start : CacheSystem P Page) ops) :
    ∃ sys, exec CacheSystem.step (start : CacheSystem P Page) ops = some sys ∧
      sys.files.addresses.Nodup ∧
      sys.files = (ops.foldl PageLog.step []).files ∧
      (∀ p a v, (sys.caches p).lookup a = some v →
        ∃ k : ℕ, sys.files.addresses[k]? = some a ∧ v.toNat = 4096 * k) ∧
      (∀ p page testMode ctx, ctx.dumped = none → sys.Below (.fetch p page testMode ctx) →
        ∃ sys', sys.step (.fetch p page testMode ctx) = some sys' ∧ sys'.files = sys.files) := by
  obtain ⟨sys, hrun, hsys⟩ := cacheSystem_refines h
  refine ⟨sys, hrun, ?_, hsys.files_eq, fun p a v hv => ?_, fun p page testMode ctx hd hlen => ?_⟩
  · rw [hsys.files_eq]
    exact hsys.valid.nodup
  · rw [hsys.files_eq]
    exact (hsys.follows p).getElem?_of_lookup hv
  · obtain ⟨sys', hstep, hsys'⟩ := hsys.step hlen
    refine ⟨sys', hstep, ?_⟩
    rw [hsys'.files_eq, hsys.files_eq, PageLog.step, hd, PageLog.update_none, ite_self]

end System

open CacheSystem

def FetchContext.reading (contents : Page) : FetchContext Page :=
  ⟨.read contents, .unmapped, .unmapped, 0x7f0000000000, 0x7f0000000000, 0x7f0000000000⟩

def FetchContext.nowhere : FetchContext Page :=
  ⟨.unmapped, .unmapped, .unmapped, 0x7f0000000000, 0x7f0000000000, 0x7f0000000000⟩

def twoProcesses : List (CacheOp Bool ℕ) :=
  [.fetch false 0x400123 false (.reading 5), .fetch true 0x400fff false (.reading 6),
    .fetch true 0x7000 false (.reading 7), .fetch false 0x9000 false .nowhere]

theorem pageCache_shared_twoProcesses :
    EachStep CacheSystem.step Below (start : CacheSystem Bool ℕ) twoProcesses ∧
      ∃ sys, exec CacheSystem.step (start : CacheSystem Bool ℕ) twoProcesses = some sys ∧
        sys.files = ⟨[0x400000, 0x7000], [5, 7]⟩ := by
  have h : EachStep CacheSystem.step Below (start : CacheSystem Bool ℕ) twoProcesses := by
    decide
  obtain ⟨sys, hrun, -, hfiles, -⟩ := pageCache_shared h
  exact ⟨h, sys, hrun, hfiles⟩

/-! ## The overflow of the counter -/

theorem PageCache.appendPage_overflow [Zero Page] {self : PageCache}
    (hn : self.numPages.toNat + 1 = 2 ^ 32) (pages : List Page) :
    self.appendPage pages .nowhere =
      some ({ self with pageData := 0x7f0000000000 },
        List.replicate self.numPages.toNat 0, false) := by
  have hzero : (self.numPages + 1).toNat = 0 := by
    rw [UInt32.toNat_add, UInt32.toNat_one, hn, Nat.mod_self]
  unfold appendPage
  rw [hzero]
  simp [ftruncate, FetchContext.dumps, FetchContext.nowhere, dumpFirst, PageDump.run]

def nthAddress (i : ℕ) : UInt64 := UInt64.ofNat i <<< 12

theorem nthAddress_and_pageMask (i : ℕ) : nthAddress i &&& pageMask = nthAddress i := by
  rw [nthAddress, show pageMask = (-1 : UInt64) <<< 12 from rfl, ← UInt64.shiftLeft_and,
    UInt64.and_neg_one]

theorem nthAddress_inj {i j : ℕ} (hi : i < 2 ^ 32) (hj : j < 2 ^ 32)
    (h : nthAddress i = nthAddress j) : i = j := by
  have hi' : (UInt64.ofNat i).toNat = i := UInt64.toNat_ofNat_of_lt' (by rw [UInt64.size]; omega)
  have hj' : (UInt64.ofNat j).toNat = j := UInt64.toNat_ofNat_of_lt' (by rw [UInt64.size]; omega)
  have h12 : (12 : UInt64).toNat % 64 = 12 := rfl
  have hnat := congrArg UInt64.toNat h
  rw [nthAddress, nthAddress, UInt64.toNat_shiftLeft, UInt64.toNat_shiftLeft, hi', hj', h12,
    Nat.shiftLeft_eq, Nat.shiftLeft_eq] at hnat
  omega

def fetchFirst (n : ℕ) : List (CacheOp Unit ℕ) :=
  (List.range n).map fun i => .fetch () (nthAddress i) false (.reading 1)

def firstPages (n : ℕ) : PageLog ℕ := (List.range n).map fun i => (nthAddress i, 1)

variable {n : ℕ}

theorem nthAddress_notMem (hn : n < 2 ^ 32) : nthAddress n ∉ (firstPages n).files.addresses := by
  intro hmem
  obtain ⟨e, he, hfst⟩ := mem_map.1 hmem
  obtain ⟨i, hi, rfl⟩ := mem_map.1 he
  have hlt := mem_range.1 hi
  have := nthAddress_inj (by omega) hn hfst
  omega

theorem exec_fetchFirst (hn : n < 2 ^ 32) :
    ∃ sys, exec CacheSystem.step start (fetchFirst n) = some sys ∧ sys.Refines (firstPages n) := by
  induction n with
  | zero =>
    exact ⟨start, rfl, ⟨nodup_nil, fun a ha => absurd ha not_mem_nil⟩, rfl,
      fun _ => PageCache.follows_new _⟩
  | succ n ih =>
    obtain ⟨sys, hrun, hsys⟩ := ih (by omega)
    have hlen : sys.Below (.fetch () (nthAddress n) false (.reading 1)) := by
      unfold Below
      rw [hsys.files_eq]
      simpa [firstPages, PageLog.files] using hn
    obtain ⟨sys', hstep, hsys'⟩ := hsys.step hlen
    refine ⟨sys', ?_, ?_⟩
    · rw [fetchFirst, range_succ, map_append, exec_append, ← fetchFirst, hrun]
      exact (exec_cons_eq_some.2 ⟨sys', hstep, rfl⟩)
    · have hlog : (firstPages n).step (.fetch () (nthAddress n) false (.reading 1)) =
          firstPages (n + 1) := by
        rw [PageLog.step, nthAddress_and_pageMask]
        refine (PageLog.update_some (nthAddress_notMem (by omega)) 1).trans ?_
        rw [firstPages, firstPages, range_succ, map_append]
        rfl
      rwa [hlog] at hsys'

theorem step_overflow (hn : n + 1 = 2 ^ 32) {sys : CacheSystem Unit ℕ}
    (hsys : sys.Refines (firstPages n)) :
    ∃ sys', sys.step (.fetch () (nthAddress n) false .nowhere) = some sys' ∧
      sys'.files.pages = List.replicate n 0 := by
  have hfollows := hsys.follows ()
  have hnot : nthAddress n ∉ (firstPages n).files.addresses := nthAddress_notMem (by omega)
  have hlength : (firstPages n).files.addresses.length = n := by simp [firstPages, PageLog.files]
  -- neither the shortcut nor the table has the page
  have hlast : (sys.caches ()).lastPage ≠ nthAddress n := by
    intro hlast
    rw [← nthAddress_and_pageMask] at hlast hnot
    exact hnot (hfollows.mem_of_lastPage hlast)
  have hmiss : (sys.caches ()).lookup (nthAddress n) = none :=
    not_isSome_iff_eq_none.1 fun hk => hnot (hfollows.mem_of_lookup hk)
  obtain ⟨hcache, hnum⟩ := hfollows.reloadAddresses hsys.valid.nodup hsys.valid.aligned
    (by omega) (FetchContext.nowhere : FetchContext ℕ).reloadedAt
  generalize hr : ((sys.caches ()).reloadAddresses (firstPages n).files.addresses
    (FetchContext.nowhere : FetchContext ℕ).reloadedAt).1 = cache at hcache hnum
  have hupdate := PageCache.updatePageCache_of_none hr hnum ((hcache.lookup_eq_none hnum).2 hnot)
  rw [PageCache.appendPage_overflow (by omega), hnum, hlength] at hupdate
  rw [CacheSystem.step, PageCache.pageCacheFetch, nthAddress_and_pageMask, if_neg hlast, hmiss,
    hsys.files_eq]
  dsimp only
  rw [hupdate]
  exact ⟨_, rfl, rfl⟩

/-- **The pages are lost when the counter overflows.** -/
theorem pages_lost_at_overflow : ∃ (ops : List (CacheOp Unit ℕ)) (page : UInt64)
    (sys sys' : CacheSystem Unit ℕ), exec CacheSystem.step start ops = some sys ∧
      sys.step (.fetch () page false .nowhere) = some sys' ∧ sys'.files.pages ≠ sys.files.pages := by
  obtain ⟨n, hn⟩ : ∃ n, n + 1 = 2 ^ 32 := ⟨2 ^ 32 - 1, rfl⟩
  obtain ⟨sys, hrun, hsys⟩ := exec_fetchFirst (n := n) (by omega)
  obtain ⟨sys', hstep, hpages⟩ := step_overflow hn hsys
  refine ⟨fetchFirst n, nthAddress n, sys, sys', hrun, hstep, ?_⟩
  rw [hpages, hsys.files_eq]
  intro heq
  -- the first page was 1
  have hfirst := congrArg head? heq
  obtain ⟨m, rfl⟩ : ∃ m, n = m + 1 := ⟨n - 1, by omega⟩
  simp [firstPages, PageLog.files, range_succ_eq_map, replicate_succ] at hfirst

end FuzzSocketCan.Qemu
