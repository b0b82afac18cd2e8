import FuzzSocketCan.Guest.DownloadFile

/-! # Bulk transfers into the guest

`hget_bulk` asks for a file with `REQ_STREAM_DATA_BULK`, which fills up to 479 pages at once. If
the last page is used but not full, the guest stops although the host has not got the empty piece,
which is then the first piece of the next transfer. `strncpy` ends a name of 256 bytes or more
without a zero, so that the host reads the number of the pages as a part of it (`requestedName`).

* **`bulkLoop_eq`** — what a transfer receives.
* **`transfers_right_iff`** — when all transfers of a file are right. -/

namespace FuzzSocketCan

open Lib Qemu List Option

variable {D P : Type}

/-! ## The hypercall -/

structure ReqDataBulk where
  fileName : List UInt8
  pages : List (ℕ × List UInt8)

def ReqDataBulk.bytes (req : ReqDataBulk) : List UInt8 :=
  req.fileName ++ (toLe 8 req.pages.length ++ req.pages.flatMap fun page => toLe 8 page.1)

def bulkLoop (disk : ShareDisk D CString P) (name : CString) :
    ℕ → Sharedir D CString P → List (ℕ × List UInt8) →
      Option (ℕ × List (ℕ × List UInt8) × Sharedir D CString P)
  | bytes, share, [] => some (bytes, [], share)
  | bytes, share, page :: pages =>
    match share.requestFile disk name with
    | none => none
    | some (.rejected, share) => some (rejectedValue, page :: pages, share)
    | some (.data [], share) => some (bytes, page :: pages, share)
    | some (.data (b :: piece), share) =>
      match bulkLoop disk name (bytes + (b :: piece).length) share pages with
      | none => none
      | some (bytes, pages, share) =>
        some (bytes, (page.1, overwrite page.2 0 (b :: piece)) :: pages, share)

/-- `handle_hypercall_kafl_req_stream_data_bulk` -/
def handleReqStreamDataBulk (disk : ShareDisk D CString P) (share : Sharedir D CString P)
    (req : ReqDataBulk) : Option (ℕ × ReqDataBulk × Sharedir D CString P) :=
  if req.pages.length ≤ 479 then
    match bulkLoop disk (cstr req.bytes) 0 share req.pages with
    | none => none
    | some (bytes, pages, share) => some (bytes, { req with pages := pages }, share)
  else none

/-! ## The guest -/

def writePages : List (ℕ × List UInt8) → ℕ → List UInt8
  | [], _ => []
  | page :: pages, bytes =>
    if 0x1000 ≤ bytes then page.2.take 0x1000 ++ writePages pages (bytes - 0x1000)
    else page.2.take bytes

inductive BulkTransfer (D P : Type) where
  | running
  | crashed
  | ended (out : Option (List UInt8)) (total : ℕ) (share : Sharedir D CString P)

def hgetBulkLoop (disk : ShareDisk D CString P) :
    ℕ → ReqDataBulk → Option (List UInt8) → ℕ → Sharedir D CString P → BulkTransfer D P
  | 0, _, _, _, _ => .running
  | fuel + 1, req, out, total, share =>
    match handleReqStreamDataBulk disk share req with
    | none => .crashed
    | some (bytes, req, share) =>
      if bytes = rejectedValue then .ended out total share
      else
        let total := total + bytes
        let out := some (out.getD [] ++ writePages req.pages bytes)
        if bytes ≠ 479 * 0x1000 then .ended out total share
        else hgetBulkLoop disk fuel req out total share

def reqDataBulk (name : CString) (addresses : ℕ → ℕ) : ReqDataBulk :=
  ⟨strncpy name 256, (List.range 479).map fun i => (addresses i, List.replicate 0x1000 0)⟩

def hgetBulk (disk : ShareDisk D CString P) (name : CString) (addresses : ℕ → ℕ) (fuel : ℕ)
    (share : Sharedir D CString P) : BulkTransfer D P :=
  hgetBulkLoop disk fuel (reqDataBulk name addresses) none 0 share

def transfers (disk : ShareDisk D CString P) (name : CString) (addresses : ℕ → ℕ) (fuel : ℕ) :
    ℕ → Sharedir D CString P → Option (List (Option (List UInt8) × ℕ))
  | 0, _ => some []
  | n + 1, share =>
    match hgetBulk disk name addresses fuel share with
    | .ended out total share =>
      (transfers disk name addresses fuel n share).map ((out, total) :: ·)
    | _ => none

/-! ## The name -/

def requestedName (name : CString) : CString := cstr (strncpy name 256 ++ toLe 8 479)

theorem cstr_append_toLe (s : CString) (rest : List UInt8) :
    cstr (strncpy s 256 ++ (toLe 8 479 ++ rest)) = requestedName s := by
  have hnumber : (cstr (toLe 8 479 ++ rest)).bytes = (cstr (toLe 8 479)).bytes := rfl
  apply CString.ext
  rw [requestedName, cstr_strncpy, cstr_strncpy, hnumber]

/-! ## One transfer -/

section

variable {disk : ShareDisk D CString P} {dir : D} {share : Sharedir D CString P}
  {name : CString} {contents : List UInt8}

theorem writePages_zero (pages : List (ℕ × List UInt8)) : writePages pages 0 = [] := by
  cases pages with
  | nil => rfl
  | cons page pages => exact take_zero (l := page.2)

variable {pages : List (ℕ × List UInt8)}

theorem writePages_cons (address : ℕ) (page : List UInt8) {piece rest : List UInt8}
    (hle : piece.length ≤ 0x1000) (hshort : piece.length < 0x1000 → rest = [])
    (hrest : writePages pages rest.length = rest) :
    writePages ((address, overwrite page 0 piece) :: pages) (piece ++ rest).length =
      piece ++ rest := by
  rw [writePages, length_append, overwrite_zero]
  by_cases hfull : piece.length < 0x1000
  · rw [hshort hfull, length_nil, if_neg (by omega), add_zero, append_nil,
      take_left]
  · obtain hlength : piece.length = 0x1000 := by omega
    rw [if_pos (by omega), hlength, Nat.add_sub_cancel_left, hrest, ← hlength, take_left]

theorem bulkLoop_eq (h : share.Sound disk dir) (hfile : disk.file dir name = some contents)
    (bytes : ℕ) (pages : List (ℕ × List UInt8)) :
    let batch := serveBatch 0x1000 contents pages.length (share.left disk dir name)
    ∃ pages' share', bulkLoop disk name bytes share pages =
        some (bytes + batch.1.length, pages', share') ∧
      pages'.length = pages.length ∧ writePages pages' batch.1.length = batch.1 ∧
      share'.Sound disk dir ∧ share'.left disk dir name = batch.2 := by
  induction pages generalizing bytes share with
  | nil => exact ⟨[], share, rfl, rfl, rfl, h, rfl⟩
  | cons page pages ih =>
    obtain ⟨share', hrequest, h', -, hleft⟩ := Sharedir.requestFile_eq h hfile
    replace hleft := congrFun hleft name
    rw [Function.update_self] at hleft
    rw [bulkLoop, hrequest, length_cons, serveBatch]
    cases hserve : serve 0x1000 contents (share.left disk dir name) with
    | mk piece left =>
      rw [hserve] at hleft
      cases piece with
      | nil => exact ⟨page :: pages, share', rfl, rfl, writePages_zero _, h', hleft⟩
      | cons b piece =>
        obtain ⟨pages', share'', hloop, hlength, hwrite, h'', hleft''⟩ :=
          ih h' (bytes + (b :: piece).length)
        rw [hleft] at hloop hwrite hleft''
        -- a piece that is not full is the last one
        have hne : share.left disk dir name ≠ [] := by
          intro hnil
          rw [hnil, serve_nil] at hserve
          cases hserve
        rw [serve_of_ne hne, Prod.mk.injEq] at hserve
        have hpiece : (b :: piece).length ≤ 0x1000 := by
          rw [← hserve.1]
          exact length_take_le _ _
        have hshort : (b :: piece).length < 0x1000 →
            (serveBatch 0x1000 contents pages.length left).1 = [] := by
          intro hlt
          rw [← hserve.1, length_take] at hlt
          rw [serveBatch_eq (by decide), ← hserve.2, drop_eq_nil_of_le (by omega)]
          exact take_nil
        refine ⟨(page.1, overwrite page.2 0 (b :: piece)) :: pages', share'', ?_, ?_, ?_, h'',
          hleft''⟩
        · dsimp only
          rw [hloop, length_append, add_assoc]
        · rw [length_cons, hlength]
        · exact writePages_cons page.1 page.2 hpiece hshort hwrite

theorem handleReqStreamDataBulk_eq (h : share.Sound disk dir)
    (hfile : disk.file dir (requestedName name) = some contents) (hpages : pages.length = 479) :
    let left := share.left disk dir (requestedName name)
    ∃ pages' share', handleReqStreamDataBulk disk share ⟨strncpy name 256, pages⟩ =
        some ((left.take (479 * 0x1000)).length, ⟨strncpy name 256, pages'⟩, share') ∧
      pages'.length = 479 ∧
      writePages pages' (left.take (479 * 0x1000)).length = left.take (479 * 0x1000) ∧
      share'.Sound disk dir ∧
      share'.left disk dir (requestedName name) =
        if left.length ≤ 478 * 0x1000 then contents else left.drop (479 * 0x1000) := by
  obtain ⟨pages', share', hloop, hlength, hwrite, h', hleft⟩ := bulkLoop_eq h hfile 0 pages
  rw [hpages, serveBatch_eq (by decide), mul_comm 0x1000 479] at hloop hwrite hleft
  dsimp only at hloop hwrite hleft
  rw [zero_add] at hloop
  refine ⟨pages', share', ?_, hlength.trans hpages, hwrite, h', ?_⟩
  · rw [handleReqStreamDataBulk, if_pos (le_of_eq hpages), ReqDataBulk.bytes, hpages,
      cstr_append_toLe, hloop]
  · rw [hleft]
    refine if_congr ?_ rfl rfl
    omega

theorem hgetBulkLoop_eq (h : share.Sound disk dir)
    (hfile : disk.file dir (requestedName name) = some contents) (hpages : pages.length = 479)
    (out : Option (List UInt8)) (total fuel : ℕ) {left : List UInt8}
    (hleft : share.left disk dir (requestedName name) = left)
    (hfuel : left.length < 479 * 0x1000 * fuel) :
    ∃ share', hgetBulkLoop disk fuel ⟨strncpy name 256, pages⟩ out total share =
        .ended (some (out.getD [] ++ left)) (total + left.length) share' ∧
      share'.Sound disk dir ∧
      share'.left disk dir (requestedName name) =
        if left.length % (479 * 0x1000) ≤ 478 * 0x1000 then contents else [] := by
  induction fuel generalizing share pages out total left with
  | zero => omega
  | succ fuel ih =>
    obtain ⟨pages', share', hcall, hpages', hwrite, h', hleft'⟩ :=
      handleReqStreamDataBulk_eq h hfile hpages
    rw [hleft] at hcall hwrite hleft'
    have hbytes : (left.take (479 * 0x1000)).length ≤ 479 * 0x1000 := length_take_le _ _
    rw [hgetBulkLoop, hcall]
    dsimp only
    rw [if_neg (by rw [rejectedValue]; omega), hwrite]
    by_cases hfull : 479 * 0x1000 ≤ left.length
    · -- all pages are full: the guest goes on
      rw [if_neg (by omega)] at hleft'
      obtain ⟨share'', hrest, h'', hleft''⟩ :=
        ih h' hpages' (some (out.getD [] ++ left.take (479 * 0x1000)))
          (total + (left.take (479 * 0x1000)).length) hleft' (by rw [length_drop]; omega)
      refine ⟨share'', ?_, h'', ?_⟩
      · rw [if_neg (by rw [length_take]; omega), hrest, getD_some, append_assoc,
          take_append_drop, add_assoc, ← length_append, take_append_drop]
      · rw [hleft'', length_drop, ← Nat.mod_eq_sub_mod hfull]
    · rw [take_of_length_le (by omega), if_pos (by omega)]
      refine ⟨share', rfl, h', ?_⟩
      rw [hleft', Nat.mod_eq_of_lt (by omega), drop_eq_nil_of_le (by omega)]

theorem length_pages_reqDataBulk (name : CString) (addresses : ℕ → ℕ) :
    (reqDataBulk name addresses).pages.length = 479 := by
  rw [reqDataBulk, length_map, length_range]

variable {fuel : ℕ}

theorem transfers_succ (h : share.Sound disk dir)
    (hfile : disk.file dir (requestedName name) = some contents) (addresses : ℕ → ℕ) (n : ℕ)
    {left : List UInt8} (hleft : share.left disk dir (requestedName name) = left)
    (hfuel : left.length < 479 * 0x1000 * fuel) :
    ∃ share', transfers disk name addresses fuel (n + 1) share =
        (transfers disk name addresses fuel n share').map ((some left, left.length) :: ·) ∧
      share'.Sound disk dir ∧
      share'.left disk dir (requestedName name) =
        if left.length % (479 * 0x1000) ≤ 478 * 0x1000 then contents else [] := by
  have hpages := length_pages_reqDataBulk name addresses
  obtain ⟨share', htransfer, h', hleft'⟩ :=
    hgetBulkLoop_eq h hfile hpages none 0 fuel hleft hfuel
  refine ⟨share', ?_, h', hleft'⟩
  rw [zero_add] at htransfer
  have hended : hgetBulk disk name addresses fuel share = .ended (some left) left.length share' :=
    htransfer
  rw [transfers, hended]

theorem transfers_succ_of_none (h : share.Sound disk dir)
    (hfile : disk.file dir (requestedName name) = none) (addresses : ℕ → ℕ) (fuel n : ℕ) :
    transfers disk name addresses (fuel + 1) (n + 1) share =
      (transfers disk name addresses (fuel + 1) n share).map ((none, 0) :: ·) := by
  have hpages := length_pages_reqDataBulk name addresses
  have hname : cstr (reqDataBulk name addresses).bytes = requestedName name := by
    rw [ReqDataBulk.bytes, hpages]
    exact cstr_append_toLe name _
  have hloop : bulkLoop disk (requestedName name) 0 share (reqDataBulk name addresses).pages =
      some (rejectedValue, (reqDataBulk name addresses).pages, share) := by
    cases hcons : (reqDataBulk name addresses).pages with
    | nil =>
      rw [hcons] at hpages
      cases hpages
    | cons page pages => rw [bulkLoop, Sharedir.requestFile_of_none h hfile]
  have hended : hgetBulk disk name addresses (fuel + 1) share = .ended none 0 share := by
    rw [hgetBulk, hgetBulkLoop, handleReqStreamDataBulk, if_pos (le_of_eq hpages), hname, hloop]
    exact if_pos rfl
  rw [transfers, hended]

/-! ## All transfers -/

theorem transfers_eq_replicate (h : share.Sound disk dir)
    (hfile : disk.file dir (requestedName name) = some contents) (addresses : ℕ → ℕ)
    (hleft : share.left disk dir (requestedName name) = contents) {n : ℕ}
    (hfuel : contents.length < 479 * 0x1000 * fuel)
    (hlength : n ≤ 1 ∨ contents.length % (479 * 0x1000) ≤ 478 * 0x1000) :
    transfers disk name addresses fuel n share =
      some (List.replicate n (some contents, contents.length)) := by
  induction n generalizing share with
  | zero => rfl
  | succ n ih =>
    obtain ⟨share', hfirst, h', hleft'⟩ := transfers_succ h hfile addresses n hleft hfuel
    rw [hfirst, replicate_succ]
    obtain rfl | hpos := eq_zero_or_pos n
    · rfl
    · have hmod : contents.length % (479 * 0x1000) ≤ 478 * 0x1000 := by omega
      rw [if_pos hmod] at hleft'
      rw [ih h' hleft' (Or.inr hmod)]
      rfl

theorem transfers_two (h : share.Sound disk dir)
    (hfile : disk.file dir (requestedName name) = some contents) (addresses : ℕ → ℕ)
    (hleft : share.left disk dir (requestedName name) = contents) (n : ℕ)
    (hfuel : contents.length < 479 * 0x1000 * fuel)
    (hlength : 478 * 0x1000 < contents.length % (479 * 0x1000)) :
    ∃ share', transfers disk name addresses fuel (n + 2) share =
      (transfers disk name addresses fuel n share').map
        fun rest => (some contents, contents.length) :: (some [], 0) :: rest := by
  obtain ⟨share1, hfirst, h1, hleft1⟩ := transfers_succ h hfile addresses (n + 1) hleft hfuel
  rw [if_neg (Nat.not_le.2 hlength)] at hleft1
  obtain ⟨share2, hsecond, -⟩ :=
    transfers_succ h1 hfile addresses n hleft1 (Nat.lt_of_le_of_lt (Nat.zero_le _) hfuel)
  refine ⟨share2, ?_⟩
  rw [hfirst, hsecond, Option.map_map]
  rfl

/-- **When all transfers of a file are right.** -/
theorem transfers_right_iff (disk : ShareDisk D CString P) (dir : D) (name : CString)
    (contents : List UInt8) (hfile : disk.file dir name = some contents) (addresses : ℕ → ℕ)
    (earlier : List CString) (hearlier : requestedName name ∉ earlier) (n : ℕ) :
    ∃ replies share, (Sharedir.new.setDir dir).bind (·.requests disk earlier) =
        some (replies, share) ∧
      ((∃ least, ∀ fuel, least ≤ fuel → transfers disk name addresses fuel n share =
          some (List.replicate n (some contents, contents.length))) ↔
        n = 0 ∨ disk.file dir (requestedName name) = some contents ∧
          (n ≤ 1 ∨ contents.length % (479 * 0x1000) ≤ 478 * 0x1000)) := by
  obtain ⟨replies, share, hrequests, hafter, -⟩ :=
    (Sharedir.after_configured disk dir).requests earlier
  rw [nil_append] at hafter
  refine ⟨replies, share, hrequests, ?_⟩
  -- nobody has requested the name, so all of the file is left
  have hstart : ∀ contents, disk.file dir (requestedName name) = some contents →
      share.left disk dir (requestedName name) = contents := by
    intro contents hcontents
    rw [hafter.left_eq _ _ hcontents, count_eq_zero.2 hearlier, leftAfter_zero]
  constructor
  · rintro ⟨least, hright⟩
    obtain _ | n := n
    · exact Or.inl rfl
    refine Or.inr ?_
    cases hread : disk.file dir (requestedName name) with
    | none =>
      have htransfers := hright (least + 1) (Nat.le_succ _)
      rw [transfers_succ_of_none hafter.sound hread addresses, map_eq_some_iff] at htransfers
      obtain ⟨rest, -, hrest⟩ := htransfers
      cases hrest
    | some read =>
      have htransfers := hright (least + read.length + 1) (by omega)
      have hfuel : read.length < 479 * 0x1000 * (least + read.length + 1) := by omega
      obtain ⟨share', hfirst, -⟩ :=
        transfers_succ hafter.sound hread addresses n (hstart read hread) hfuel
      rw [hfirst, map_eq_some_iff] at htransfers
      obtain ⟨rest, -, hrest⟩ := htransfers
      rw [replicate_succ, cons.injEq, Prod.mk.injEq, some.injEq] at hrest
      obtain rfl : read = contents := hrest.1.1
      refine ⟨rfl, ?_⟩
      by_contra hlength
      obtain ⟨m, rfl⟩ : ∃ m, n = m + 1 := ⟨n - 1, by omega⟩
      obtain ⟨share₂, htwo⟩ :=
        transfers_two hafter.sound hread addresses (hstart read hread) m hfuel (by omega)
      have hboth := hright (least + read.length + 1) (by omega)
      rw [htwo, map_eq_some_iff] at hboth
      obtain ⟨rest₂, -, hrest₂⟩ := hboth
      rw [replicate_succ, replicate_succ, cons.injEq, cons.injEq,
        Prod.mk.injEq (some [])] at hrest₂
      have hzero : 0 = read.length := hrest₂.2.1.2
      omega
  · rintro (rfl | ⟨hread, hlength⟩)
    · exact ⟨0, fun fuel _ => rfl⟩
    · exact ⟨contents.length + 1, fun fuel hfuel =>
        transfers_eq_replicate hafter.sound hread addresses (hstart contents hread) (by omega)
          hlength⟩

end

theorem requestedName_nameA : requestedName nameA = nameA := by
  decide

theorem transfers_right_onlyFile :
    ∃ replies share, (Sharedir.new.setDir ()).bind (·.requests (onlyFile [1, 2, 3]) [nameB]) =
        some (replies, share) ∧
      ∃ least, ∀ fuel, least ≤ fuel → transfers (onlyFile [1, 2, 3]) nameA id fuel 3 share =
        some (List.replicate 3 (some [1, 2, 3], 3)) := by
  obtain ⟨replies, share, hrequests, hiff⟩ := transfers_right_iff (onlyFile [1, 2, 3]) () nameA
    [1, 2, 3] (file_onlyFile _) id [nameB] (by decide) 3
  exact ⟨replies, share, hrequests, hiff.2 (Or.inr ⟨file_onlyFile _, Or.inr (by decide)⟩)⟩

/-- **A second transfer that writes nothing.** -/
theorem transfers_lastPage :
    transfers (onlyFile (List.replicate (478 * 0x1000 + 1) 0)) nameA id 1 2
        (Sharedir.configured ()) =
      some [(some (List.replicate (478 * 0x1000 + 1) 0), 478 * 0x1000 + 1), (some [], 0)] := by
  have hafter := Sharedir.after_configured (onlyFile (replicate (478 * 0x1000 + 1) 0)) ()
  have hfile := file_onlyFile (replicate (478 * 0x1000 + 1) 0)
  have hleft := hafter.left_eq _ _ hfile
  rw [count_nil, leftAfter_zero] at hleft
  rw [← requestedName_nameA] at hfile hleft
  have hfuel : (replicate (478 * 0x1000 + 1) (0 : UInt8)).length < 479 * 0x1000 * 1 := by
    rw [length_replicate]
    decide
  obtain ⟨share, htwo⟩ := transfers_two hafter.sound hfile id hleft 0 hfuel
    (by rw [length_replicate]; decide)
  rw [htwo, length_replicate]
  rfl

end FuzzSocketCan
