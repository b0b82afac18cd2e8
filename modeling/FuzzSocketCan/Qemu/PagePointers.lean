import FuzzSocketCan.Qemu.PageCache

/-! # The addresses that the page cache returns

`page_cache_fetch` remembers the address of the last page for the next call. Each update maps the
file again, possibly elsewhere. When nothing can be dumped, `page_cache_fetch` returns without
touching `last_page` and `last_addr`.

* **`stale_lastAddr`** — the next fetch of the last page returns an address in a mapping that is
  gone.
* **`pointers_current`** — all addresses are current as long as the file stays where it is then. -/

namespace FuzzSocketCan.Qemu

open Lib List Option Function

variable {P Page : Type}

namespace PageCache

def PointsTo (self : PageCache) (addresses : List UInt64) (page addr : UInt64) : Prop :=
  ∃ k : ℕ, k < self.numPages.toNat ∧ addresses[k]? = some page ∧
    addr = self.pageData + UInt64.ofNat k * pageBytes

def Remembers (self : PageCache) (addresses : List UInt64) : Prop :=
  self.lastPage = 0xFFFFFFFFFFFFFFFF ∨ self.PointsTo addresses self.lastPage self.lastAddr

section Pointers

variable {self self' : PageCache} {addresses : List UInt64} {page : UInt64}

theorem Remembers.append (h : self.Remembers addresses) (added : List UInt64) :
    self.Remembers (addresses ++ added) := by
  refine h.imp_right ?_
  rintro ⟨k, hk, hget, haddr⟩
  obtain ⟨hlt, -⟩ := List.getElem?_eq_some_iff.1 hget
  exact ⟨k, hk, (List.getElem?_append_left hlt).trans hget, haddr⟩

theorem Remembers.remap (h : self.Remembers addresses) (hpage : self'.lastPage = self.lastPage)
    (haddr : self'.lastAddr = self.lastAddr) (hdata : self'.pageData = self.pageData)
    (hnum : self.numPages.toNat ≤ self'.numPages.toNat) : self'.Remembers addresses := by
  unfold Remembers PointsTo
  rw [hpage, haddr, hdata]
  refine h.imp_right ?_
  rintro ⟨k, hk, hget, hk'⟩
  exact ⟨k, Nat.lt_of_lt_of_le hk hnum, hget, hk'⟩

theorem ofNat_mul_pageBytes_ne (k : ℕ) : UInt64.ofNat k * pageBytes ≠ unmappedPage := by
  intro h
  have hnat := congrArg UInt64.toNat h
  have hpage : pageBytes.toNat = 4096 := rfl
  have hunmapped : unmappedPage.toNat = 2 ^ 64 - 1 := rfl
  rw [UInt64.toNat_mul, hpage, hunmapped] at hnat
  omega

theorem Follows.found_eq (h : self.Follows addresses) {v : UInt64}
    (hv : self.lookup page = some v) :
    self.found page (some v) =
        some ({ self with lastPage := page, lastAddr := self.pageData + v }, self.pageData + v) ∧
      self.PointsTo addresses page (self.pageData + v) := by
  rw [h.lookup_eq] at hv
  obtain ⟨k, hk, rfl⟩ := map_eq_some_iff.1 hv
  obtain ⟨hlt, heq, -⟩ := findIdx?_eq_some_iff_getElem.1 hk
  have hget : (addresses.take self.numPages.toNat)[k]? = some page := by
    rw [getElem?_eq_getElem hlt, eq_of_beq heq]
  rw [length_take_of_le h.numPages_le] at hlt
  rw [getElem?_take_of_lt hlt] at hget
  refine ⟨?_, k, hlt, hget, rfl⟩
  rw [PageCache.found, map_some, if_neg (ofNat_mul_pageBytes_ne k)]

theorem PointsTo.remembers {addr : UInt64} (h : self.PointsTo addresses page addr) :
    Remembers { self with lastPage := page, lastAddr := addr } addresses := .inr h

theorem reloadAddresses_last (self : PageCache) (addresses : List UInt64) (base : UInt64) :
    (self.reloadAddresses addresses base).1.lastPage = self.lastPage ∧
      (self.reloadAddresses addresses base).1.lastAddr = self.lastAddr := by
  unfold reloadAddresses
  split
  · exact ⟨rfl, rfl⟩
  · exact ⟨rfl, rfl⟩

end Pointers

/-! ## A fetch -/

section Fetch

variable [Zero Page] {self : PageCache} {log : PageLog Page} {page : UInt64}

theorem updatePageCache_cases (hlog : log.Valid) (hfollows : self.Follows log.files.addresses)
    (hlen : log.length + 1 < 2 ^ 32) (hmiss : self.lookup page = none) (ctx : FetchContext Page) :
    (∃ self' files k, self.updatePageCache log.files page none ctx = some (self', files, k, true) ∧
      self'.lookup page = k ∧ k.isSome) ∨
    (ctx.dumped = none ∧ page ∉ log.files.addresses ∧
      ∃ self' files, self.updatePageCache log.files page none ctx =
          some (self', files, none, false) ∧
        self'.lastPage = self.lastPage ∧ self'.lastAddr = self.lastAddr ∧
        self'.pageData = ctx.shrunkAt ∧ self.numPages.toNat ≤ self'.numPages.toNat) := by
  have haddresses : log.files.addresses.length = log.length := length_map _
  have hpages : log.files.pages.length = log.length := length_map _
  obtain ⟨hcache, hnum⟩ := hfollows.reloadAddresses hlog.nodup hlog.aligned (by omega) ctx.reloadedAt
  obtain ⟨hlastPage, hlastAddr⟩ :=
    self.reloadAddresses_last log.files.addresses ctx.reloadedAt
  generalize hr : (self.reloadAddresses log.files.addresses ctx.reloadedAt).1 = cache
    at hcache hnum hlastPage hlastAddr
  cases hfound : cache.lookup page with
  | some v =>
    left
    rw [updatePageCache_of_some hmiss (hr ▸ hfound), hr]
    exact ⟨cache, _, some v, rfl, hfound, rfl⟩
  | none =>
    rw [updatePageCache_of_none hr hnum hfound]
    cases hd : ctx.dumped with
    | some contents =>
      left
      rw [appendPage_of_some (by omega) (by omega) hd]
      refine ⟨_, _, _, rfl, rfl, ?_⟩
      dsimp only
      rw [update_self]
      rfl
    | none =>
      right
      have hle := hfollows.numPages_le
      rw [appendPage_of_none (by omega) (by omega) hd]
      exact ⟨rfl, (hcache.lookup_eq_none hnum).1 hfound, _, _, rfl, hlastPage, hlastAddr, rfl,
        by dsimp only; omega⟩

theorem pageCacheFetch_current (hlog : log.Valid) (hfollows : self.Follows log.files.addresses)
    (hlen : log.length + 1 < 2 ^ 32) (hlast : self.Remembers log.files.addresses) (page : UInt64)
    (testMode : Bool) (ctx : FetchContext Page)
    (hstays : testMode = false → ctx.dumped = none → page &&& pageMask ∉ log.files.addresses →
      self.lastPage ≠ 0xFFFFFFFFFFFFFFFF → ctx.shrunkAt = self.pageData) :
    ∃ self' files addr ok, self.pageCacheFetch log.files page testMode ctx =
        some (self', files, addr, ok) ∧ self'.Remembers files.addresses ∧
      (ok = true → self'.PointsTo files.addresses (page &&& pageMask) addr) := by
  unfold pageCacheFetch
  dsimp only
  split
  case isTrue hshortcut =>
    refine ⟨self, log.files, self.lastAddr, true, rfl, hlast, fun _ => ?_⟩
    rw [← hshortcut]
    refine hlast.resolve_left ?_
    rw [hshortcut]
    exact and_pageMask_ne_new page
  split
  case isTrue hk =>
    obtain ⟨v, hv⟩ := isSome_iff_exists.1 hk
    obtain ⟨hfound, hpoints⟩ := hfollows.found_eq hv
    rw [hv, hfound]
    exact ⟨_, _, _, true, rfl, hpoints.remembers, fun _ => hpoints⟩
  case isFalse hk =>
    have hmiss := not_isSome_iff_eq_none.1 hk
    split
    case isTrue htest => exact ⟨self, log.files, 0, false, rfl, hlast, Bool.noConfusion⟩
    case isFalse htest =>
      obtain ⟨self1, k1, ok1, hupdate, hfollows', -⟩ :=
        updatePageCache_eq hlog hfollows hlen hmiss ctx
      rcases updatePageCache_cases hlog hfollows hlen hmiss ctx with
        ⟨self', files, k, hsuccess, hlookup, hk⟩ |
        ⟨hdumped, hnot, self', files, hfail, hpage, haddr, hdata, hnum⟩
      · have hsame := hupdate.symm.trans hsuccess
        obtain ⟨rfl, rfl, rfl, rfl⟩ := hsame
        obtain ⟨v, rfl⟩ := isSome_iff_exists.1 hk
        obtain ⟨hfound, hpoints⟩ := hfollows'.found_eq hlookup
        rw [hmiss, hupdate, bind_some]
        simp only [if_true, hfound, map_some]
        exact ⟨_, _, _, true, rfl, hpoints.remembers, fun _ => hpoints⟩
      · have hsame := hupdate.symm.trans hfail
        obtain ⟨rfl, rfl, rfl, rfl⟩ := hsame
        rw [hmiss, hupdate, bind_some]
        refine ⟨self1, _, 0, false, rfl, ?_, Bool.noConfusion⟩
        rw [hdumped, PageLog.update_none]
        by_cases hnew : self.lastPage = 0xFFFFFFFFFFFFFFFF
        · exact .inl (hpage.trans hnew)
        · have hsame := hstays (by simpa using htest) hdumped hnot hnew
          exact hlast.remap hpage haddr (hdata.trans hsame) hnum

end Fetch

end PageCache

/-! ## Whole runs -/

namespace CacheSystem

variable [Zero Page]

def Stays (p : P) (sys : CacheSystem P Page) : CacheOp P Page → Prop
  | .openCache _ => True
  | .fetch q page testMode ctx =>
    q = p → testMode = false → ctx.dumped = none → page &&& pageMask ∉ sys.files.addresses →
      (sys.caches p).lastPage ≠ 0xFFFFFFFFFFFFFFFF → ctx.shrunkAt = (sys.caches p).pageData

def Current (p : P) (sys : CacheSystem P Page) : CacheOp P Page → Prop
  | .openCache _ => True
  | .fetch q page testMode ctx =>
    q = p → ∃ self files addr ok,
      (sys.caches p).pageCacheFetch sys.files page testMode ctx = some (self, files, addr, ok) ∧
        (ok = true → self.PointsTo files.addresses (page &&& pageMask) addr)

def Sound (p : P) (sys : CacheSystem P Page) : Prop :=
  ∃ log, sys.Refines log ∧ (sys.caches p).Remembers log.files.addresses

section Run

variable [DecidableEq P] {sys sys' : CacheSystem P Page} {op : CacheOp P Page} {p : P}

omit [DecidableEq P] in
theorem Sound.fetch (h : sys.Sound p) {page : UInt64} {testMode : Bool} {ctx : FetchContext Page}
    (hbelow : sys.Below (.fetch p page testMode ctx))
    (hstays : sys.Stays p (.fetch p page testMode ctx)) :
    ∃ self' files addr ok,
      (sys.caches p).pageCacheFetch sys.files page testMode ctx = some (self', files, addr, ok) ∧
        self'.Remembers files.addresses ∧
        (ok = true → self'.PointsTo files.addresses (page &&& pageMask) addr) := by
  obtain ⟨log, hlog, hlast⟩ := h
  unfold Below at hbelow
  unfold Stays at hstays
  rw [hlog.files_eq] at hbelow hstays ⊢
  rw [PageLog.files, length_map] at hbelow
  exact PageCache.pageCacheFetch_current hlog.valid (hlog.follows p) hbelow hlast page testMode ctx
    (hstays rfl)

theorem Sound.step (h : sys.Sound p) (hop : sys.Below op ∧ sys.Stays p op)
    (hstep : sys.step op = some sys') : sys'.Sound p := by
  obtain ⟨log, hlog, hlast⟩ := id h
  obtain ⟨sys'', hstep', hlog'⟩ := hlog.step hop.1
  obtain rfl := some.inj (hstep.symm.trans hstep')
  refine ⟨log.step op, hlog', ?_⟩
  cases op with
  | openCache q =>
    obtain rfl := some.inj hstep
    rcases eq_or_ne p q with rfl | hne
    · dsimp only
      rw [update_self]
      exact .inl rfl
    · dsimp only
      rw [update_of_ne hne]
      exact hlast
  | fetch q page testMode ctx =>
    rcases eq_or_ne p q with rfl | hne
    · obtain ⟨self, files, addr, ok, hfetch, hremembers, -⟩ := h.fetch hop.1 hop.2
      rw [CacheSystem.step, hfetch] at hstep
      obtain rfl := some.inj hstep
      rw [← hlog'.files_eq]
      dsimp only
      rwa [update_self]
    · obtain ⟨added, hadded⟩ := log.addresses_step (.fetch q page testMode ctx)
      obtain ⟨⟨self, files, addr, ok⟩, -, rfl⟩ := map_eq_some_iff.1 hstep
      dsimp only
      rw [update_of_ne hne, hadded]
      exact hlast.append added

/-- **The addresses are current**, if the file stays where it is whenever nothing can be dumped. -/
theorem pointers_current (p : P) {ops : List (CacheOp P Page)}
    (h : EachStep CacheSystem.step (fun sys op => sys.Below op ∧ sys.Stays p op)
      (start : CacheSystem P Page) ops) :
    EachStep CacheSystem.step (fun sys op => sys.Current p op) (start : CacheSystem P Page) ops := by
  have hstart : (start : CacheSystem P Page).Sound p :=
    ⟨[], ⟨⟨nodup_nil, fun a ha => absurd ha not_mem_nil⟩, rfl,
      fun _ => PageCache.follows_new _⟩, .inl rfl⟩
  refine EachStep.of_invariant (fun sys op sys' hsound hop => hsound.step hop) ?_ h hstart
  intro sys op hsound hop
  cases op with
  | openCache q => trivial
  | fetch q page testMode ctx =>
    rintro rfl
    obtain ⟨self, files, addr, ok, hfetch, -, hpoints⟩ := hsound.fetch hop.1 hop.2
    exact ⟨self, files, addr, ok, hfetch, hpoints⟩

end Run

end CacheSystem

open CacheSystem

def FetchContext.mappedAt (ctx : FetchContext Page) (base : UInt64) : FetchContext Page :=
  { ctx with reloadedAt := base, extendedAt := base, shrunkAt := base }

instance [DecidableEq P] [DecidableEq Page] (p : P) (sys : CacheSystem P Page)
    (op : CacheOp P Page) : Decidable (sys.Stays p op) :=
  match op with
  | .openCache _ => isTrue trivial
  | .fetch _ _ _ _ => inferInstanceAs (Decidable (_ → _ → _ → _ → _ → _ = _))

def movingFile : List (CacheOp Bool ℕ) :=
  [.fetch false 0x1000 false ((FetchContext.reading 5).mappedAt 0x10000),
    .fetch true 0x2000 false ((FetchContext.reading 6).mappedAt 0x20000),
    .fetch false 0x3000 false ((FetchContext.reading 7).mappedAt 0x30000),
    .fetch false 0x4000 false (FetchContext.nowhere.mappedAt 0x30000),
    .fetch false 0x3000 false .nowhere, .fetch false 0x2000 false .nowhere]

theorem pointers_current_movingFile :
    EachStep CacheSystem.step (fun sys op => sys.Below op ∧ sys.Stays false op)
        (start : CacheSystem Bool ℕ) movingFile ∧
      EachStep CacheSystem.step (fun sys op => sys.Current false op)
        (start : CacheSystem Bool ℕ) movingFile := by
  have h : EachStep CacheSystem.step (fun sys op => sys.Below op ∧ sys.Stays false op)
      (start : CacheSystem Bool ℕ) movingFile := by
    decide
  exact ⟨h, pointers_current false h⟩

def failedDump : List (CacheOp Unit ℕ) :=
  [.fetch () 0x1000 false ((FetchContext.reading 5).mappedAt 0x10000),
    .fetch () 0x4000 false (FetchContext.nowhere.mappedAt 0x30000)]

/-- **A stale address.** -/
theorem stale_lastAddr :
    ∃ sys, exec CacheSystem.step (start : CacheSystem Unit ℕ) failedDump = some sys ∧
      (sys.caches ()).pageData = 0x30000 ∧
      (sys.caches ()).pageCacheFetch sys.files 0x1000 false .nowhere =
        some (sys.caches (), sys.files, 0x10000, true) ∧
      ¬sys.Current () (.fetch () 0x1000 false .nowhere) := by
  obtain ⟨sys, hrun, hdata, hnum, hfetch⟩ :
      ∃ sys, exec CacheSystem.step (start : CacheSystem Unit ℕ) failedDump = some sys ∧
        (sys.caches ()).pageData = 0x30000 ∧ (sys.caches ()).numPages = 1 ∧
        (sys.caches ()).pageCacheFetch sys.files 0x1000 false .nowhere =
          some (sys.caches (), sys.files, 0x10000, true) :=
    ⟨_, rfl, rfl, rfl, rfl⟩
  refine ⟨sys, hrun, hdata, hfetch, fun h => ?_⟩
  obtain ⟨self, files, addr, ok, hfetch', hpoints⟩ := h rfl
  have hsame := hfetch.symm.trans hfetch'
  obtain ⟨rfl, rfl, rfl, rfl⟩ := hsame
  obtain ⟨k, hk, -, haddr⟩ := hpoints rfl
  rw [hnum] at hk
  obtain rfl : k = 0 := Nat.lt_one_iff.1 hk
  rw [hdata] at haddr
  exact absurd haddr (by decide)

end FuzzSocketCan.Qemu
