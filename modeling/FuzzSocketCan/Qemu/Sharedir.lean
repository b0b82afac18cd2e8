import FuzzSocketCan.Lib.Serving

/-! # The files of the share directory

`sharedir_request_file` hands out a file in pieces of `0x1000` bytes. How much is left is kept for
each name; there is a single open file. The share directory is given by an absolute path, as the
launcher of the fuzzer passes it.

* **`Sharedir.left`** — what the guest can see: what is left of each file.
* **`requestFile_eq`** — a request changes it for the requested name only, by one step of `serve`.
* **`requests_replies`** — so the replies to any requests are known. -/

namespace FuzzSocketCan.Qemu

open Lib List Option Function

/-! ## The directory -/

/-- What `stat` and reading tell about a path. -/
structure Stat where
  isDir : Bool
  modTime : ℕ
  contents : List UInt8

/-- The files while nothing is changed. -/
structure ShareDisk (D N P : Type) where
  scan : D → N → Option P
  stat : P → Option Stat
  isSome_stat : ∀ dir name path, scan dir name = some path → (stat path).isSome

/-- `sharedir_file_t`. -/
structure SharedirFile (P : Type) where
  path : P
  size : ℕ
  bytesLeft : ℕ
  modTime : ℕ

structure Sharedir (D N P : Type) where
  dir : Option D
  lookup : N → Option (SharedirFile P)
  lastFile : Option (N × P)

inductive Reply where
  | rejected
  | data (bytes : List UInt8)
deriving DecidableEq

variable {D N P : Type}

namespace Sharedir

/-- `sharedir_new`. -/
def new : Sharedir D N P := ⟨none, fun _ => none, none⟩

def setDir (self : Sharedir D N P) (dir : D) : Option (Sharedir D N P) :=
  match self.dir with
  | none => some { self with dir := some dir }
  | some _ => none

variable [DecidableEq N]

def put (self : Sharedir D N P) (name : N) (obj : SharedirFile P) : Sharedir D N P :=
  { self with lookup := update self.lookup name (some obj) }

def getObject (disk : ShareDisk D N P) (self : Sharedir D N P) (dir : D) (name : N) :
    Option (Option (SharedirFile P) × Sharedir D N P) :=
  match self.lookup name with
  | some obj =>
    match disk.stat obj.path with
    | none => none
    | some sb =>
      if sb.modTime = obj.modTime ∧ sb.contents.length = obj.size then some (some obj, self)
      else none
  | none =>
    match disk.scan dir name with
    | none => some (none, self)
    | some path =>
      match disk.stat path with
      | none => none
      | some sb =>
        if sb.isDir then some (none, self)
        else
          let obj := ⟨path, sb.contents.length, sb.contents.length, sb.modTime⟩
          some (some obj, self.put name obj)

/-- The path of the open file. -/
def getFilePtr (self : Sharedir D N P) (name : N) (obj : SharedirFile P) : P × Sharedir D N P :=
  match self.lastFile with
  | some (last, path) =>
    if last = name then (path, self)
    else (obj.path, { self with lastFile := some (name, obj.path) })
  | none => (obj.path, { self with lastFile := some (name, obj.path) })

def readAt (disk : ShareDisk D N P) (path : P) (offset n : ℕ) : Option (List UInt8) :=
  match disk.stat path with
  | none => none
  | some sb =>
    let bytes := (sb.contents.drop offset).take n
    if bytes.length = n then some bytes else none

/-- The next `n` bytes of a file. -/
def readPiece (disk : ShareDisk D N P) (self : Sharedir D N P) (name : N) (obj : SharedirFile P)
    (n : ℕ) : Option (Reply × Sharedir D N P) :=
  let (f, self) := self.getFilePtr name obj
  match readAt disk f (obj.size - obj.bytesLeft) n with
  | none => none
  | some bytes =>
    some (.data bytes, self.put name { obj with bytesLeft := obj.bytesLeft - n })

/-- `sharedir_request_file`. -/
def requestFile (disk : ShareDisk D N P) (self : Sharedir D N P) (name : N) :
    Option (Reply × Sharedir D N P) :=
  match self.dir with
  | none => some (.rejected, self)
  | some dir =>
    match getObject disk self dir name with
    | none => none
    | some (none, self) => some (.rejected, self)
    | some (some obj, self) =>
      if 0x1000 ≤ obj.bytesLeft then readPiece disk self name obj 0x1000
      else if obj.bytesLeft ≠ 0 then readPiece disk self name obj obj.bytesLeft
      else some (.data [], self.put name { obj with bytesLeft := obj.size })

def requests (disk : ShareDisk D N P) (self : Sharedir D N P) :
    List N → Option (List Reply × Sharedir D N P)
  | [] => some ([], self)
  | name :: names =>
    match requestFile disk self name with
    | none => none
    | some (reply, self) =>
      match requests disk self names with
      | none => none
      | some (replies, self) => some (reply :: replies, self)

end Sharedir

/-! ## What is left of each file -/

def ShareDisk.file (disk : ShareDisk D N P) (dir : D) (name : N) : Option (List UInt8) :=
  match disk.scan dir name with
  | none => none
  | some path =>
    match disk.stat path with
    | none => none
    | some sb => if sb.isDir then none else some sb.contents

namespace Sharedir

variable {disk : ShareDisk D N P} {dir : D} {share : Sharedir D N P} {name : N}
  {contents : List UInt8} {obj : SharedirFile P}

/-- The state after `sharedir_set_dir`. -/
def configured (dir : D) : Sharedir D N P := ⟨some dir, fun _ => none, none⟩

def left (disk : ShareDisk D N P) (dir : D) (share : Sharedir D N P) (name : N) : List UInt8 :=
  match disk.file dir name with
  | none => []
  | some contents =>
    match share.lookup name with
    | none => contents
    | some obj => contents.drop (obj.size - obj.bytesLeft)

structure Describes (disk : ShareDisk D N P) (dir : D) (name : N) (obj : SharedirFile P) : Prop where
  scan : disk.scan dir name = some obj.path
  stat : ∃ contents, disk.stat obj.path = some ⟨false, obj.modTime, contents⟩ ∧
    obj.size = contents.length
  bytesLeft_le : obj.bytesLeft ≤ obj.size

structure Sound (disk : ShareDisk D N P) (dir : D) (share : Sharedir D N P) : Prop where
  dir_eq : share.dir = some dir
  objects : ∀ name obj, share.lookup name = some obj → Describes disk dir name obj
  lastFile : ∀ name path, share.lastFile = some (name, path) → disk.scan dir name = some path

theorem sound_configured (disk : ShareDisk D N P) (dir : D) : Sound disk dir (configured dir) where
  dir_eq := rfl
  objects := by
    rintro name obj ⟨⟩
  lastFile := by
    rintro name path ⟨⟩

theorem Describes.exists_file (h : Describes disk dir name obj) :
    ∃ contents, disk.file dir name = some contents ∧ obj.size = contents.length ∧
      disk.stat obj.path = some ⟨false, obj.modTime, contents⟩ := by
  obtain ⟨contents, hstat, hsize⟩ := h.stat
  refine ⟨contents, ?_, hsize, hstat⟩
  rw [ShareDisk.file, h.scan]
  dsimp only
  rw [hstat]
  rfl

theorem left_of_lookup (hfile : disk.file dir name = some contents)
    (hobj : share.lookup name = some obj) :
    share.left disk dir name = contents.drop (obj.size - obj.bytesLeft) := by
  rw [left, hfile]
  rw [hobj]

theorem left_congr {share' : Sharedir D N P} (h : share'.lookup = share.lookup) :
    share'.left disk dir = share.left disk dir := by
  funext name
  rw [left, left, h]

variable [DecidableEq N]

theorem Sound.put (h : Sound disk dir share) (hobj : Describes disk dir name obj) :
    Sound disk dir (share.put name obj) where
  dir_eq := h.dir_eq
  objects := by
    intro name' obj' hlookup
    by_cases hname : name' = name
    · subst hname
      cases (update_self ..).symm.trans hlookup
      exact hobj
    · exact h.objects name' obj' ((update_of_ne hname ..).symm.trans hlookup)
  lastFile := h.lastFile

theorem isSome_lookup_put (share : Sharedir D N P) (name : N) (obj : SharedirFile P) :
    ((share.put name obj).lookup name).isSome :=
  isSome_iff_exists.2 ⟨obj, update_self ..⟩

theorem left_put (share : Sharedir D N P) (obj : SharedirFile P)
    (hfile : disk.file dir name = some contents) :
    (share.put name obj).left disk dir =
      update (share.left disk dir) name (contents.drop (obj.size - obj.bytesLeft)) := by
  funext name'
  by_cases hname : name' = name
  · subst hname
    rw [update_self]
    exact left_of_lookup hfile (update_self ..)
  · have hlookup : (share.put name obj).lookup name' = share.lookup name' :=
      update_of_ne hname ..
    rw [update_of_ne hname, left, left, hlookup]

theorem requestFile_of_none (h : Sound disk dir share) (hfile : disk.file dir name = none) :
    requestFile disk share name = some (.rejected, share) := by
  have hlookup : share.lookup name = none := by
    rw [eq_none_iff_forall_ne_some]
    intro obj hobj
    obtain ⟨contents, hcontents, -⟩ := (h.objects name obj hobj).exists_file
    cases hfile.symm.trans hcontents
  have hobject : getObject disk share dir name = some (none, share) := by
    rw [getObject, hlookup]
    cases hscan : disk.scan dir name with
    | none => rfl
    | some path =>
      -- there is something at the path, so it is a directory
      obtain ⟨sb, hsb⟩ := isSome_iff_exists.1 (disk.isSome_stat dir name path hscan)
      rw [ShareDisk.file, hscan] at hfile
      dsimp only at hfile ⊢
      rw [hsb] at hfile ⊢
      dsimp only at hfile ⊢
      by_cases hdir : sb.isDir = true
      · rw [if_pos hdir]
      · rw [if_neg hdir] at hfile
        cases hfile
  rw [requestFile, h.dir_eq]
  dsimp only
  rw [hobject]

theorem getObject_of_file (h : Sound disk dir share) (hfile : disk.file dir name = some contents) :
    ∃ obj share', getObject disk share dir name = some (some obj, share') ∧
      Sound disk dir share' ∧ share'.lookup name = some obj ∧
      share'.left disk dir = share.left disk dir := by
  cases hlookup : share.lookup name with
  | some obj =>
    -- the assertions hold as long as the file is unchanged
    obtain ⟨contents', -, hsize, hstat⟩ := (h.objects name obj hlookup).exists_file
    refine ⟨obj, share, ?_, h, hlookup, rfl⟩
    rw [getObject, hlookup]
    dsimp only
    rw [hstat]
    exact if_pos ⟨rfl, hsize.symm⟩
  | none =>
    have hleft : share.left disk dir name = contents := by
      rw [left, hfile]
      rw [hlookup]
    have hfile' := hfile
    rw [ShareDisk.file] at hfile
    split at hfile
    · cases hfile
    rename_i path hscan
    split at hfile
    · cases hfile
    rename_i sb hstat
    split at hfile
    · cases hfile
    rename_i hdir
    cases hfile
    let obj : SharedirFile P := ⟨path, sb.contents.length, sb.contents.length, sb.modTime⟩
    have hobj : Describes disk dir name obj := by
      refine ⟨hscan, ⟨sb.contents, ?_, rfl⟩, Nat.le_refl _⟩
      obtain ⟨isDir, modTime, contents⟩ := sb
      obtain rfl : isDir = false := Bool.eq_false_iff.2 hdir
      exact hstat
    refine ⟨obj, share.put name obj, ?_, h.put hobj, update_self .., ?_⟩
    · rw [getObject, hlookup]
      rw [hscan]
      dsimp only
      rw [hstat]
      exact if_neg hdir
    · rw [left_put share obj hfile', Nat.sub_self, drop_zero, ← hleft,
        update_eq_self]

theorem getFilePtr_eq (h : Sound disk dir share) (hobj : Describes disk dir name obj) :
    ∃ share', getFilePtr share name obj = (obj.path, share') ∧ Sound disk dir share' ∧
      share'.lookup = share.lookup := by
  have hopen : Sound disk dir { share with lastFile := some (name, obj.path) } := by
    refine ⟨h.dir_eq, h.objects, ?_⟩
    rintro name' path' ⟨⟩
    exact hobj.scan
  cases hlast : share.lastFile with
  | none =>
    refine ⟨_, ?_, hopen, rfl⟩
    rw [getFilePtr, hlast]
  | some last =>
    obtain ⟨last, path⟩ := last
    by_cases hname : last = name
    · -- the same name has the same path
      subst hname
      have hpath : path = obj.path :=
        some.inj ((h.lastFile last path hlast).symm.trans hobj.scan)
      refine ⟨share, ?_, h, rfl⟩
      rw [getFilePtr, hlast, hpath]
      exact if_pos rfl
    · refine ⟨_, ?_, hopen, rfl⟩
      rw [getFilePtr, hlast]
      exact if_neg hname

theorem readPiece_eq {n : ℕ} (h : Sound disk dir share) (hobj : share.lookup name = some obj)
    (hn : n ≤ obj.bytesLeft) :
    ∃ share', readPiece disk share name obj n =
        some (.data ((share.left disk dir name).take n), share') ∧
      Sound disk dir share' ∧ (share'.lookup name).isSome ∧
      share'.left disk dir =
        update (share.left disk dir) name ((share.left disk dir name).drop n) := by
  have hdesc := h.objects name obj hobj
  have hle := hdesc.bytesLeft_le
  obtain ⟨contents, hfile, hsize, hstat⟩ := hdesc.exists_file
  obtain ⟨share', hopen, hsound, hlookup⟩ := getFilePtr_eq h hdesc
  have hread : readAt disk obj.path (obj.size - obj.bytesLeft) n =
      some ((share.left disk dir name).take n) := by
    rw [readAt, hstat, left_of_lookup hfile hobj]
    dsimp only
    refine if_pos ?_
    rw [length_take, length_drop]
    omega
  have hdesc' : Describes disk dir name { obj with bytesLeft := obj.bytesLeft - n } :=
    ⟨hdesc.scan, hdesc.stat, Nat.le_trans (Nat.sub_le _ _) hle⟩
  refine ⟨share'.put name _, ?_, hsound.put hdesc', isSome_lookup_put .., ?_⟩
  · rw [readPiece, hopen]
    dsimp only
    rw [hread]
  · rw [left_put _ _ hfile, left_congr hlookup, left_of_lookup hfile hobj, drop_drop]
    congr 2
    dsimp only
    omega

theorem requestFile_eq (h : Sound disk dir share) (hfile : disk.file dir name = some contents) :
    ∃ share', requestFile disk share name =
        some (.data (serve 0x1000 contents (share.left disk dir name)).1, share') ∧
      Sound disk dir share' ∧ (share'.lookup name).isSome ∧
      share'.left disk dir =
        Function.update (share.left disk dir) name
          (serve 0x1000 contents (share.left disk dir name)).2 := by
  obtain ⟨obj, share1, hobject, hsound, hlookup, hleft⟩ := getObject_of_file h hfile
  have hdesc := hsound.objects name obj hlookup
  have hle := hdesc.bytesLeft_le
  obtain ⟨contents', hfile', hsize, -⟩ := hdesc.exists_file
  obtain rfl : contents' = contents := some.inj (hfile'.symm.trans hfile)
  have hrest : (share1.left disk dir name).length = obj.bytesLeft := by
    rw [left_of_lookup hfile hlookup, length_drop]
    omega
  rw [requestFile, h.dir_eq, ← hleft]
  dsimp only
  rw [hobject]
  dsimp only
  by_cases hfull : 0x1000 ≤ obj.bytesLeft
  · rw [if_pos hfull, serve_of_ne (ne_nil_of_length_pos (by omega))]
    exact readPiece_eq hsound hlookup hfull
  rw [if_neg hfull]
  by_cases hlast : obj.bytesLeft ≠ 0
  · -- the last piece is all that is left
    rw [if_pos hlast, serve_of_ne (ne_nil_of_length_pos (by omega)),
      take_of_length_le (by omega), drop_eq_nil_of_le (by omega)]
    obtain ⟨share', hread, hsound', hobj, hleft'⟩ := readPiece_eq hsound hlookup (Nat.le_refl _)
    rw [take_of_length_le (by omega)] at hread
    rw [drop_eq_nil_of_le (by omega)] at hleft'
    exact ⟨share', hread, hsound', hobj, hleft'⟩
  · -- nothing is left: the file starts again
    have hnil : share1.left disk dir name = [] := eq_nil_of_length_eq_zero (by omega)
    rw [if_neg hlast, hnil, serve_nil]
    refine ⟨share1.put name { obj with bytesLeft := obj.size }, rfl,
      hsound.put ⟨hdesc.scan, hdesc.stat, Nat.le_refl _⟩, isSome_lookup_put .., ?_⟩
    rw [left_put _ _ hfile, Nat.sub_self, drop_zero]

/-! ## All requests -/

def replyTo (disk : ShareDisk D N P) (dir : D) (name : N) (i : ℕ) : Reply :=
  match disk.file dir name with
  | none => .rejected
  | some contents => .data (served 0x1000 contents i)

structure After (disk : ShareDisk D N P) (dir : D) (earlier : List N) (share : Sharedir D N P) :
    Prop where
  sound : Sound disk dir share
  left_eq : ∀ name contents, disk.file dir name = some contents →
    share.left disk dir name = leftAfter 0x1000 contents (earlier.count name)

theorem after_configured (disk : ShareDisk D N P) (dir : D) :
    After disk dir [] (configured dir) where
  sound := sound_configured disk dir
  left_eq := by
    intro name contents hfile
    rw [count_nil, leftAfter_zero, left, hfile]
    rfl

theorem After.requestFile {earlier : List N} (h : After disk dir earlier share) (name : N) :
    ∃ share', requestFile disk share name =
        some (replyTo disk dir name (earlier.count name), share') ∧
      After disk dir (earlier ++ [name]) share' := by
  cases hfile : disk.file dir name with
  | none =>
    refine ⟨share, ?_, h.sound, ?_⟩
    · rw [requestFile_of_none h.sound hfile, replyTo, hfile]
    · intro name' contents' hfile'
      have hne : name ≠ name' := by
        rintro rfl
        cases hfile.symm.trans hfile'
      rw [h.left_eq name' contents' hfile', count_append, count_singleton,
        beq_false_of_ne hne, if_neg Bool.false_ne_true, Nat.add_zero]
  | some contents =>
    obtain ⟨share', hrequest, hsound, -, hleft⟩ := requestFile_eq h.sound hfile
    rw [h.left_eq name contents hfile, serve_leftAfter (by decide)] at hrequest hleft
    refine ⟨share', ?_, hsound, ?_⟩
    · rw [hrequest, replyTo, hfile]
    · intro name' contents' hfile'
      rw [hleft, count_append, count_singleton]
      by_cases hname : name' = name
      · subst hname
        obtain rfl : contents = contents' := some.inj (hfile.symm.trans hfile')
        rw [update_self, beq_self_eq_true, if_pos rfl]
      · rw [update_of_ne hname, beq_false_of_ne (Ne.symm hname),
          if_neg Bool.false_ne_true, Nat.add_zero, h.left_eq name' contents' hfile']

theorem After.requests {earlier : List N} (h : After disk dir earlier share) (names : List N) :
    ∃ replies share', requests disk share names = some (replies, share') ∧
      After disk dir (earlier ++ names) share' ∧
      ∀ t name, names[t]? = some name →
        replies[t]? = some (replyTo disk dir name ((earlier ++ names.take t).count name)) := by
  induction names generalizing earlier share with
  | nil =>
    refine ⟨[], share, rfl, ?_, ?_⟩
    · rwa [append_nil]
    · rintro t name ⟨⟩
  | cons first names ih =>
    obtain ⟨share1, hfirst, h1⟩ := h.requestFile first
    obtain ⟨replies, share2, hrest, h2, hreplies⟩ := ih h1
    rw [append_assoc, singleton_append] at h2
    refine ⟨replyTo disk dir first (earlier.count first) :: replies, share2, ?_, h2, ?_⟩
    · rw [Sharedir.requests, hfirst]
      dsimp only
      rw [hrest]
    · intro t name hname
      cases t with
      | zero =>
        cases hname
        rw [take_zero, append_nil]
        rfl
      | succ t =>
        rw [take_succ_cons, append_cons]
        exact hreplies t name hname

end Sharedir

end FuzzSocketCan.Qemu
