import FuzzSocketCan.Qemu.CStrings
import FuzzSocketCan.Qemu.Sharedir
import FuzzSocketCan.StructuredFuzzer.DataBuff

/-! # Downloading a file into the guest

`download_file` writes a name to a page and makes the hypercall `REQ_STREAM_DATA`, which replaces
it by the next piece, until there is an empty piece. The host copies `0x100` bytes of the page to
a static buffer, behind which an earlier request is left, and takes the name from there. The page
is mapped and aligned; the hypercalls that the handler ignores in fuzzing mode are left out.

* **`downloadLoop_eq`** — the loop of a download.
* **`requests_pieces_download`** — the replies to all requests, and what a download writes. -/

namespace FuzzSocketCan

open Lib Qemu List

theorem overwrite_zero {α : Type} (l xs : List α) : overwrite l 0 xs = xs ++ l.drop xs.length := by
  rw [overwrite, take_zero, nil_append, zero_add]

def rejectedValue : ℕ := 0xFFFFFFFFFFFFFFFF

structure StreamHost (D P : Type) where
  share : Sharedir D CString P
  reqStreamBuffer : List UInt8

variable {D P : Type}

def handleReqStreamData (disk : ShareDisk D CString P) (host : StreamHost D P)
    (page : List UInt8) : Option (ℕ × List UInt8 × StreamHost D P) :=
  let buffer := overwrite host.reqStreamBuffer 0 (page.take 0x100)
  match host.share.requestFile disk (cstr buffer) with
  | none => none
  | some (.rejected, share) => some (rejectedValue, page, ⟨share, buffer⟩)
  | some (.data bytes, share) =>
    let buffer := overwrite buffer 0 bytes
    some (bytes.length, overwrite page 0 (buffer.take bytes.length), ⟨share, buffer⟩)

inductive Download (D P : Type) where
  | running
  | crashed
  | failed
  | done (written : List UInt8) (total : ℕ) (host : StreamHost D P)

/-- The loop of `download_file`. Before its `i`-th hypercall the host serves the names
`(between i).1`, which leaves `(between i).2` in the static buffer. -/
def downloadLoop (disk : ShareDisk D CString P) (filename : CString)
    (between : ℕ → List CString × List UInt8) :
    ℕ → ℕ → List UInt8 → List UInt8 → ℕ → Sharedir D CString P → Download D P
  | 0, _, _, _, _, _ => .running
  | fuel + 1, i, page, written, total, share =>
    match share.requests disk (between i).1 with
    | none => .crashed
    | some (_, share) =>
      -- `strcpy`
      let page := overwrite page 0 (filename.bytes ++ [0])
      match handleReqStreamData disk ⟨share, (between i).2⟩ page with
      | none => .crashed
      | some (bytes, page, host) =>
        if bytes = rejectedValue then .failed
        else
          let written := written ++ page.take bytes
          let total := total + bytes
          if bytes = 0 then .done written total host
          else downloadLoop disk filename between fuel (i + 1) page written total host.share

def downloadFile (disk : ShareDisk D CString P) (filename : CString)
    (between : ℕ → List CString × List UInt8) (fuel : ℕ) (share : Sharedir D CString P) :
    Download D P :=
  downloadLoop disk filename between fuel 0 (List.replicate 0x1000 0) [] 0 share

/-! ## One hypercall -/

section

variable {disk : ShareDisk D CString P} {dir : D} {share : Sharedir D CString P}
  {filename : CString} {contents : List UInt8} {earlier : List CString}
  {between : ℕ → List CString × List UInt8}

theorem cstr_requested (hlength : filename.bytes.length < 0x100) (page buffer : List UInt8) :
    cstr (overwrite buffer 0 ((overwrite page 0 (filename.bytes ++ [0])).take 0x100)) = filename := by
  have hname : (filename.bytes ++ [0]).length ≤ 0x100 := by
    rw [length_append, length_singleton]
    omega
  rw [overwrite_zero, overwrite_zero, take_append, take_of_length_le hname,
    append_assoc, append_assoc]
  exact cstr_append_zero filename _

theorem handleReqStreamData_eq (h : share.After disk dir earlier)
    (hfile : disk.file dir filename = some contents) (hlength : filename.bytes.length < 0x100)
    (page buffer : List UInt8) :
    ∃ page' host, handleReqStreamData disk ⟨share, buffer⟩
        (overwrite page 0 (filename.bytes ++ [0])) =
          some ((served 0x1000 contents (earlier.count filename)).length, page', host) ∧
      page'.take (served 0x1000 contents (earlier.count filename)).length =
        served 0x1000 contents (earlier.count filename) ∧
      host.share.After disk dir (earlier ++ [filename]) := by
  obtain ⟨share', hrequest, h'⟩ := h.requestFile filename
  rw [Sharedir.replyTo, hfile] at hrequest
  rw [handleReqStreamData]
  rw [cstr_requested hlength, hrequest]
  refine ⟨_, _, rfl, ?_, h'⟩
  rw [overwrite_zero _ (served _ _ _), take_left, overwrite_zero, take_left]

/-! ## The loop -/

theorem length_served_ne (contents : List UInt8) (i : ℕ) :
    (served 0x1000 contents i).length ≠ rejectedValue := by
  have hle : (served 0x1000 contents i).length ≤ 0x1000 := length_take_le _ _
  rw [rejectedValue]
  omega

theorem downloadLoop_succ (hfile : disk.file dir filename = some contents)
    (hlength : filename.bytes.length < 0x100) (hbetween : ∀ i, filename ∉ (between i).1)
    (h : share.After disk dir earlier) (fuel i : ℕ) (page written : List UInt8) (total : ℕ) :
    ∃ page' host, host.share.After disk dir (earlier ++ (between i).1 ++ [filename]) ∧
      downloadLoop disk filename between (fuel + 1) i page written total share =
        let piece := served 0x1000 contents (earlier.count filename)
        if piece.length = 0 then .done (written ++ piece) (total + piece.length) host
        else downloadLoop disk filename between fuel (i + 1) page' (written ++ piece)
          (total + piece.length) host.share := by
  obtain ⟨replies, share1, hothers, h1, -⟩ := h.requests (between i).1
  have hcount : (earlier ++ (between i).1).count filename = earlier.count filename := by
    rw [count_append, count_eq_zero.2 (hbetween i), add_zero]
  obtain ⟨page', host, hcall, hpage, h2⟩ :=
    handleReqStreamData_eq h1 hfile hlength page (between i).2
  rw [hcount] at hcall hpage
  refine ⟨page', host, h2, ?_⟩
  rw [downloadLoop, hothers]
  dsimp only
  rw [hcall]
  dsimp only
  rw [if_neg (length_served_ne _ _), hpage]

theorem downloadLoop_eq (hfile : disk.file dir filename = some contents)
    (hlength : filename.bytes.length < 0x100) (hbetween : ∀ i, filename ∉ (between i).1)
    (h : share.After disk dir earlier) (fuel i : ℕ) (page written : List UInt8) (total : ℕ)
    (hfuel : (leftAfter 0x1000 contents (earlier.count filename)).length ≤ 0x1000 * fuel) :
    ∃ host, downloadLoop disk filename between (fuel + 1) i page written total share =
      .done (written ++ leftAfter 0x1000 contents (earlier.count filename))
        (total + (leftAfter 0x1000 contents (earlier.count filename)).length) host := by
  -- each round takes a piece off what is left; the empty one ends the loop
  induction fuel generalizing i page written total share earlier with
  | zero =>
    obtain ⟨page', host, -, hround⟩ :=
      downloadLoop_succ hfile hlength hbetween h 0 i page written total
    have hnil : leftAfter 0x1000 contents (earlier.count filename) = [] :=
      eq_nil_of_length_eq_zero (Nat.le_zero.1 hfuel)
    rw [served, hnil, take_nil] at hround
    exact ⟨host, by rw [hround, hnil]; rfl⟩
  | succ fuel ih =>
    obtain ⟨page', host, h', hround⟩ :=
      downloadLoop_succ hfile hlength hbetween h (fuel + 1) i page written total
    by_cases hnil : leftAfter 0x1000 contents (earlier.count filename) = []
    · rw [served, hnil, take_nil] at hround
      exact ⟨host, by rw [hround, hnil]; rfl⟩
    have hcount : (earlier ++ (between i).1 ++ [filename]).count filename =
        earlier.count filename + 1 := by
      rw [count_append, count_append, count_eq_zero.2 (hbetween i),
        count_singleton_self, add_zero]
    have hserve := serve_leftAfter (n := 0x1000) (by decide) contents (earlier.count filename)
    rw [serve_of_ne hnil, Prod.mk.injEq] at hserve
    obtain ⟨hpiece, hleft⟩ := hserve
    have hpos := length_pos_iff.2 hnil
    rw [← hpiece, if_neg (by rw [length_take]; omega)] at hround
    rw [← hcount] at hleft
    obtain ⟨host', hrest⟩ := ih h' (i + 1) page' (written ++ _) (total + _)
      (by rw [← hleft, length_drop]; omega)
    refine ⟨host', hround.trans (hrest.trans ?_)⟩
    rw [← hleft, append_assoc, take_append_drop, add_assoc, ← length_append,
      take_append_drop]

/-- **The pieces of a file**, and what a download writes. -/
theorem requests_pieces_download (disk : ShareDisk D CString P) (dir : D) (earlier : List CString) :
    ∃ replies share, (Sharedir.new.setDir dir).bind (·.requests disk earlier) =
        some (replies, share) ∧
      (∀ t name, earlier[t]? = some name →
        replies[t]? = some (Sharedir.replyTo disk dir name ((earlier.take t).count name))) ∧
      ∀ filename contents, disk.file dir filename = some contents →
        filename.bytes.length < 0x100 →
        earlier.count filename % (pieceCount 0x1000 contents + 1) = 0 →
        ∀ between : ℕ → List CString × List UInt8, (∀ i, filename ∉ (between i).1) →
        ∀ fuel, pieceCount 0x1000 contents < fuel →
          ∃ host, downloadFile disk filename between fuel share =
            .done contents contents.length host := by
  obtain ⟨replies, share, hrequests, h, hreplies⟩ :=
    (Sharedir.after_configured disk dir).requests earlier
  rw [nil_append] at h
  refine ⟨replies, share, hrequests, hreplies, ?_⟩
  intro filename contents hfile hlength hstart between hbetween fuel hfuel
  have hleft : leftAfter 0x1000 contents (earlier.count filename) = contents := by
    rw [leftAfter, hstart, Nat.mul_zero, drop_zero]
  obtain ⟨fuel, rfl⟩ : ∃ n, fuel = n + 1 := ⟨fuel - 1, by omega⟩
  have hlong : contents.length ≤ 0x1000 * fuel := by
    rw [← not_lt, mul_lt_length_iff (by decide)]
    omega
  obtain ⟨host, hdone⟩ := downloadLoop_eq hfile hlength hbetween h fuel 0
    (replicate 0x1000 0) [] 0 (by rwa [hleft])
  rw [hleft, nil_append, zero_add] at hdone
  exact ⟨host, hdone⟩

end

/-- The name `a`. -/
def nameA : CString := cstr (ascii "a")

/-- The name `b`. -/
def nameB : CString := cstr (ascii "b")

def onlyFile (contents : List UInt8) : ShareDisk Unit CString Unit where
  scan := fun _ name => if name = nameA then some () else none
  stat := fun _ => some ⟨false, 0, contents⟩
  isSome_stat := fun _ _ _ _ => rfl

theorem file_onlyFile (contents : List UInt8) : (onlyFile contents).file () nameA = some contents :=
  rfl

theorem requests_pieces_download_onlyFile :
    ∃ replies share,
      (Sharedir.new.setDir ()).bind (·.requests (onlyFile [1, 2, 3]) [nameA, nameA]) =
        some (replies, share) ∧
      ∃ host, downloadFile (onlyFile [1, 2, 3]) nameA (fun _ => ([nameB], [])) 2 share =
        .done [1, 2, 3] 3 host := by
  obtain ⟨replies, share, hrequests, -, hdownload⟩ :=
    requests_pieces_download (onlyFile [1, 2, 3]) () [nameA, nameA]
  exact ⟨replies, share, hrequests, hdownload nameA [1, 2, 3] (file_onlyFile _) (by decide)
    (by decide) _ (fun _ => by decide) 2 (by decide)⟩

end FuzzSocketCan
