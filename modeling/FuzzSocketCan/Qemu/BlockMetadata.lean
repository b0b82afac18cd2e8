import FuzzSocketCan.Lib.Lists
import FuzzSocketCan.Qemu.BlockCow
import FuzzSocketCan.Qemu.CStrings

/-! # The metadata of the disk caches

`nyx_block_snapshot_serialize` writes an entry with a number and a file name for each cache, and
dumps the primary buffers to files named after them. `nyx_block_snapshot_init_from_file` compares
the entries with the caches of a new process.

* **`RoundTrips`** — each cache gets back what was dumped from it.
* **`roundTrips_iff`** — when it does. The writer numbers the caches, the reader the backends: all
  backends without a cache have to come last. There are also limits on the names, whose files have
  to be opened, and on the sizes of the buffers. -/

namespace FuzzSocketCan.Qemu

open Lib List Option Function

/-! ## Strings -/

def strEqual (array : List UInt8) (s : CString) : Bool :=
  array.contains 0 && array.takeWhile (· != 0) == s.bytes

def fread (size : ℕ) (f : List UInt8) : Option (List UInt8 × List UInt8) :=
  if size ≤ f.length then some (f.take size, f.drop size) else none

/-! ## The caches and their files -/

structure DiskCache where
  filename : CString
  lookupPrimary : ℕ → Option ℕ
  dataPrimary : Mem
  offsetPrimary : ℕ
  cowPrimarySize : ℕ
  enabledFuzz : Bool

def DiskCache.of (filename : CString) (cache : CowCache) : DiskCache :=
  ⟨filename, cache.primary.lookup, cache.primary.data, cache.primary.next, cache.cowPrimarySize,
    cache.enabledFuzz⟩

structure SnapshotFolder where
  cacheMeta : List UInt8
  khash : List UInt8 → Option (ℕ → Option ℕ)
  pcow : List UInt8 → Option (List UInt8)

namespace DiskCache

variable (self : DiskCache)

def genFileName (filenamePrefix filenamePostfix : List UInt8) : List UInt8 :=
  filenamePrefix ++ ascii "_" ++ self.filename.bytes.map (fun b => if b = 0x2f then 0x5f else b) ++
    ascii "." ++ filenamePostfix

def khashName (drv : List UInt8) : List UInt8 := self.genFileName drv (ascii "khash")

def pcowName (drv : List UInt8) : List UInt8 := self.genFileName drv (ascii "pcow")

/-- `opens` says which files can be opened for writing. `none` where an assertion fails, or where
`fclose` is called with the file that was not opened. -/
def dumpPrimaryBuffer (opens : List UInt8 → Bool) (folder : SnapshotFolder) (drv : List UInt8) :
    Option SnapshotFolder :=
  if self.enabledFuzz ∧ opens (self.khashName drv) ∧ opens (self.pcowName drv) then
    some { folder with
      khash := update folder.khash (self.khashName drv)
        (if self.offsetPrimary ≠ 0 then some self.lookupPrimary else none)
      pcow := update folder.pcow (self.pcowName drv)
        (some (bytesAt self.dataPrimary 0 (0x1000 * (self.offsetPrimary / 0x1000)))) }
  else none

def cowCachePrimaryMinimumSize : ℕ := 0xC0000000

/-- `none` where an assertion or `memcpy` fails. -/
def readPrimaryBuffer (folder : SnapshotFolder) (drv : List UInt8) (globalCowPrimarySize : ℕ)
    (switchMode : Bool) : Option DiskCache :=
  if self.enabledFuzz then none
  else
    (folder.pcow (self.pcowName drv)).bind fun buffer =>
      if buffer.length > globalCowPrimarySize then none
      else
        (if buffer.length ≠ 0 then folder.khash (self.khashName drv)
          else some fun _ => none).bind fun lookup =>
            if switchMode then
              some ⟨self.filename, lookup, memOf buffer, buffer.length, globalCowPrimarySize, true⟩
            else if buffer.length > cowCachePrimaryMinimumSize then none
            else
              let data :=
                if globalCowPrimarySize ≠ self.cowPrimarySize then fun _ => 0
                else self.dataPrimary
              some ⟨self.filename, lookup, storeAt data 0 buffer, buffer.length,
                globalCowPrimarySize, self.enabledFuzz⟩

end DiskCache

/-! ## Writing and reading a snapshot -/

/-- The block backends in order, each with its cache if it has one. A cache maps nine gigabytes, so
their number is far from the end of its range. -/
structure BlockBackends where
  blks : List (Option (CString × CowCache))
  length_lt : blks.length < 2 ^ 32

def BlockBackends.cowCaches (backends : BlockBackends) : List (CString × CowCache) :=
  backends.blks.filterMap id

def nyxBlockSnapshotInit (backends : BlockBackends) : List DiskCache :=
  backends.cowCaches.map fun (filename, cache) => .of filename cache.switchToFuzzMode

def cowEntry (stray : UInt8) (id : ℕ) (filename : CString) : List UInt8 :=
  toLe 4 id ++ (strncpy filename 255 ++ [stray])

/-- The loop of `nyx_block_snapshot_serialize`. -/
def serializeCaches (opens : List UInt8 → Bool) (drv : List UInt8) (stray : UInt8) :
    ℕ → List DiskCache → SnapshotFolder → Option SnapshotFolder
  | _, [], folder => some folder
  | i, cache :: caches, folder =>
    let cacheMeta := folder.cacheMeta ++ cowEntry stray i cache.filename
    (cache.dumpPrimaryBuffer opens { folder with cacheMeta := cacheMeta } drv).bind
      (serializeCaches opens drv stray (i + 1) caches)

def nyxBlockSnapshotSerialize (opens : List UInt8 → Bool) (self : List DiskCache)
    (path : List UInt8) (stray : UInt8) (folder : SnapshotFolder) : Option SnapshotFolder :=
  if opens (path ++ ascii "/fs_cache.meta") then
    serializeCaches opens (path ++ ascii "/fs_drv") stray 0 self
      { folder with cacheMeta := toLe 4 self.length }
  else none

def readEntries : List (Option DiskCache) → ℕ → List UInt8 → Option (List DiskCache)
  | [], _, _ => some []
  | none :: blks, id, f => readEntries blks (id + 1) f
  | some cache :: blks, id, f =>
    (fread 260 f).bind fun (entry, f) =>
      if strEqual (entry.drop 4) cache.filename ∧ ofLe (entry.take 4) = id % 2 ^ 32 then
        (readEntries blks (id + 1) f).map (cache :: ·)
      else none

/-- `none` where an assertion fails. -/
def nyxBlockSnapshotInitFromFile (blks : List (Option DiskCache)) (path : List UInt8)
    (preSnapshot : Bool) (globalCowPrimarySize : ℕ) (folder : SnapshotFolder) :
    Option (List DiskCache) :=
  (fread 4 folder.cacheMeta).bind fun (size, f) =>
    if (blks.filterMap id).length % 2 ^ 32 = ofLe size then
      (readEntries blks 0 f).bind fun caches =>
        caches.mapM fun cache =>
          cache.readPrimaryBuffer folder (path ++ ascii "/fs_drv") globalCowPrimarySize
            (!preSnapshot)
    else none

def freshCache (blk : Option (CString × CowCache)) : Option DiskCache :=
  blk.map fun (filename, _) => .of filename .new

def BlockBackends.fresh (backends : BlockBackends) : List (Option DiskCache) :=
  backends.blks.map freshCache

structure DiskCache.Holds (cache loaded : DiskCache) : Prop where
  lookup : loaded.lookupPrimary = cache.lookupPrimary
  offset : loaded.offsetPrimary = cache.offsetPrimary
  bytes : bytesAt loaded.dataPrimary 0 loaded.offsetPrimary =
    bytesAt cache.dataPrimary 0 cache.offsetPrimary

/-- The folder before and the files that can be opened in it, the byte on the writer's stack, and
the settings of the reading process. -/
structure SnapshotSettings where
  path : List UInt8
  opens : List UInt8 → Bool
  stray : UInt8
  folder : SnapshotFolder
  preSnapshot : Bool
  globalCowPrimarySize : ℕ

/-- **The round trip**: each cache gets back what was dumped from it. -/
def RoundTrips (backends : BlockBackends) (s : SnapshotSettings) : Prop :=
  ∃ folder loaded,
    nyxBlockSnapshotSerialize s.opens (nyxBlockSnapshotInit backends) s.path s.stray s.folder =
      some folder ∧
    nyxBlockSnapshotInitFromFile backends.fresh s.path s.preSnapshot s.globalCowPrimarySize folder =
      some loaded ∧
    List.Forall₂ DiskCache.Holds (nyxBlockSnapshotInit backends) loaded

/-! ## Names -/

section Names

variable {array rest : List UInt8} {s : CString}

theorem strEqual_iff :
    strEqual array s = true ↔ 0 ∈ array ∧ array.takeWhile (· != 0) = s.bytes := by
  simp [strEqual]

theorem strEqual_strncpy_iff (s : CString) (stray : UInt8) :
    strEqual (strncpy s 255 ++ [stray]) s = true ↔
      s.bytes.length < 255 ∨ s.bytes.length = 255 ∧ stray = 0 := by
  rw [strEqual_iff, strncpy]
  rcases lt_trichotomy s.bytes.length 255 with hlt | heq | hgt
  · -- there is a zero right after the name
    have hpad : replicate (255 - s.bytes.length) (0 : UInt8) =
        0 :: replicate (254 - s.bytes.length) 0 := by
      rw [← replicate_succ]
      congr 1
      omega
    rw [take_of_length_le (le_of_lt hlt), hpad, append_assoc,
      takeWhile_append_zero s.zero_notMem]
    simp [hlt]
  · rw [take_of_length_le (le_of_eq heq), heq]
    have hzero : 0 ∈ s.bytes ++ replicate (255 - 255) 0 ++ [stray] ↔ stray = 0 := by
      simp [s.zero_notMem, eq_comm]
    rw [hzero, append_assoc, takeWhile_append_zero s.zero_notMem]
    constructor
    · rintro ⟨rfl, -⟩
      exact Or.inr ⟨rfl, rfl⟩
    · rintro (hlt | ⟨-, rfl⟩)
      · exact absurd hlt (lt_irrefl _)
      · simp
  · -- the array is too short for the name and a zero
    have hpad : 255 - s.bytes.length = 0 := by omega
    have htake : 0 ∉ s.bytes.take 255 := fun h => s.zero_notMem (mem_of_mem_take h)
    rw [hpad, replicate_zero, append_nil, takeWhile_append_zero htake]
    constructor
    · rintro ⟨hmem, hname⟩
      have hstray : stray = 0 := by
        rcases mem_append.1 hmem with h | h
        · exact absurd h htake
        · exact (mem_singleton.1 h).symm
      rw [hstray] at hname
      have hlength := congrArg length hname
      simp only [takeWhile_cons, bne_self_eq_false, Bool.false_eq_true, if_false,
        append_nil, length_take] at hlength
      omega
    · rintro (hlt | ⟨heq, -⟩)
      · omega
      · omega

theorem DiskCache.genFileName_eq_iff {a b : DiskCache} {drv ending : List UInt8} :
    a.genFileName drv ending = b.genFileName drv ending ↔
      a.genFileName [] [] = b.genFileName [] [] := by
  simp [genFileName]

end Names

/-! ## The entries -/

section Entries

variable {blks : List (Option DiskCache)} {caches loaded : List DiskCache} {stray : UInt8}
  {i k : ℕ}

def cowEntries (stray : UInt8) : ℕ → List CString → List UInt8
  | _, [] => []
  | i, filename :: filenames => cowEntry stray i filename ++ cowEntries stray (i + 1) filenames

theorem fread_append {size : ℕ} {item : List UInt8} (h : item.length = size) (f : List UInt8) :
    fread size (item ++ f) = some (item, f) := by
  have hle : size ≤ (item ++ f).length := by
    rw [length_append, h]
    exact Nat.le_add_right _ _
  rw [fread, if_pos hle, take_left' h, drop_left' h]

theorem fread_cowEntry (stray : UInt8) (i : ℕ) (filename : CString) (f : List UInt8) :
    fread 260 (cowEntry stray i filename ++ f) = some (cowEntry stray i filename, f) := by
  apply fread_append
  simp only [cowEntry, strncpy, length_append, length_toLe, length_take, length_replicate,
    length_singleton]
  omega

def NameFits (stray : UInt8) (s : CString) : Prop :=
  s.bytes.length < 255 ∨ s.bytes.length = 255 ∧ stray = 0

def Numbered (blks : List (Option DiskCache)) (i k : ℕ) : Prop :=
  ∀ pre cache post, blks = pre ++ some cache :: post → i = k + pre.countP Option.isNone

theorem numbered_nil : Numbered [] i k := by
  intro pre cache post h
  cases pre <;> cases h

theorem numbered_none_cons : Numbered (none :: blks) i k ↔ Numbered blks i (k + 1) := by
  constructor
  · rintro h pre cache post rfl
    have hnumber := h (none :: pre) cache post rfl
    rw [countP_cons_of_pos rfl] at hnumber
    omega
  · rintro h pre cache post hblks
    cases pre with
    | nil => cases hblks
    | cons blk pre =>
      obtain ⟨rfl, rfl⟩ := cons.inj hblks
      have hnumber := h pre cache post rfl
      rw [countP_cons_of_pos rfl]
      omega

theorem numbered_some_cons {cache : DiskCache} :
    Numbered (some cache :: blks) i k ↔ i = k ∧ Numbered blks (i + 1) (k + 1) := by
  constructor
  · intro h
    refine ⟨h [] cache blks rfl, ?_⟩
    rintro pre cache' post rfl
    have hnumber := h (some cache :: pre) cache' post rfl
    rw [countP_cons_of_neg Bool.false_ne_true] at hnumber
    omega
  · rintro ⟨rfl, h⟩ pre cache' post hblks
    cases pre with
    | nil => rfl
    | cons blk pre =>
      obtain ⟨rfl, rfl⟩ := cons.inj hblks
      have hnumber := h pre cache' post rfl
      rw [countP_cons_of_neg Bool.false_ne_true]
      omega

theorem entry_accepted_iff (hi : i < 2 ^ 32) (hk : k < 2 ^ 32) {s : CString} :
    strEqual ((cowEntry stray i s).drop 4) s = true ∧
        ofLe ((cowEntry stray i s).take 4) = k % 2 ^ 32 ↔
      NameFits stray s ∧ i = k := by
  rw [cowEntry, take_left' (length_toLe 4 i), drop_left' (length_toLe 4 i),
    strEqual_strncpy_iff, ofLe_toLe_of_lt (n := 4) (by omega), Nat.mod_eq_of_lt hk]
  rfl

theorem readEntries_cowEntries_iff (hk : k + blks.length < 2 ^ 32) (hi : i ≤ k) :
    readEntries blks k (cowEntries stray i ((blks.filterMap id).map (·.filename))) = some loaded ↔
      loaded = blks.filterMap id ∧
        (∀ cache ∈ blks.filterMap id, NameFits stray cache.filename) ∧ Numbered blks i k := by
  induction blks generalizing i k loaded with
  | nil => simp [readEntries, numbered_nil, eq_comm]
  | cons blk blks ih =>
    rw [length_cons] at hk
    cases blk with
    | none =>
      rw [readEntries, numbered_none_cons]
      exact ih (by omega) (by omega)
    | some cache =>
      have hcaches : (some cache :: blks).filterMap id = cache :: blks.filterMap id := rfl
      rw [hcaches, readEntries, map_cons, cowEntries, fread_cowEntry, numbered_some_cons,
        forall_mem_cons, bind_some]
      dsimp only
      by_cases haccepted : NameFits stray cache.filename ∧ i = k
      · rw [if_pos ((entry_accepted_iff (by omega) (by omega)).2 haccepted),
          map_eq_some_iff]
        constructor
        · rintro ⟨rest, hrest, rfl⟩
          rcases (ih (by omega) (by omega)).1 hrest with ⟨rfl, hnames, hnumbers⟩
          exact ⟨rfl, ⟨haccepted.1, hnames⟩, haccepted.2, hnumbers⟩
        · rintro ⟨rfl, ⟨-, hnames⟩, -, hnumbers⟩
          exact ⟨_, (ih (by omega) (by omega)).2 ⟨rfl, hnames, hnumbers⟩, rfl⟩
      · rw [if_neg (fun h => haccepted ((entry_accepted_iff (by omega) (by omega)).1 h))]
        constructor
        · intro h
          cases h
        · rintro ⟨-, ⟨hname, -⟩, hnumber, -⟩
          exact absurd ⟨hname, hnumber⟩ haccepted

theorem numbered_iff : Numbered blks k k ↔
    ∀ pre cache post, blks = pre ++ some cache :: post → none ∉ pre := by
  have hcount : ∀ pre : List (Option DiskCache), k = k + pre.countP isNone ↔ none ∉ pre := by
    intro pre
    constructor
    · intro h hmem
      have hpos : 0 < pre.countP isNone := countP_pos_iff.2 ⟨none, hmem, rfl⟩
      omega
    · intro h
      have hzero : pre.countP isNone = 0 := by
        refine countP_eq_zero.2 fun blk hblk hnone => h ?_
        rwa [isNone_iff_eq_none.1 hnone] at hblk
      omega
  constructor
  · intro h pre cache post hblks
    exact (hcount pre).1 (h pre cache post hblks)
  · intro h pre cache post hblks
    exact (hcount pre).2 (h pre cache post hblks)

end Entries

/-! ## The files of the buffers -/

section Buffers

variable {opens : List UInt8 → Bool} {drv : List UInt8} {stray : UInt8} {i : ℕ}
  {caches : List DiskCache} {folder folder' : SnapshotFolder}

def DiskCache.Opened (opens : List UInt8 → Bool) (drv : List UInt8) (cache : DiskCache) : Prop :=
  opens (cache.khashName drv) = true ∧ opens (cache.pcowName drv) = true

structure DiskCache.DumpedAt (cache : DiskCache) (folder : SnapshotFolder)
    (khash pcow : List UInt8) : Prop where
  table : folder.khash khash =
    if cache.offsetPrimary ≠ 0 then some cache.lookupPrimary else none
  buffer : folder.pcow pcow =
    some (bytesAt cache.dataPrimary 0 (0x1000 * (cache.offsetPrimary / 0x1000)))

def FilesOf (drv : List UInt8) (caches : List DiskCache) (folder folder' : SnapshotFolder)
    (cache : DiskCache) : Prop :=
  (∃ last ∈ caches, last.genFileName [] [] = cache.genFileName [] [] ∧
    last.DumpedAt folder' (cache.khashName drv) (cache.pcowName drv)) ∨
  (∀ other ∈ caches, other.genFileName [] [] ≠ cache.genFileName [] []) ∧
    folder'.khash (cache.khashName drv) = folder.khash (cache.khashName drv) ∧
    folder'.pcow (cache.pcowName drv) = folder.pcow (cache.pcowName drv)

theorem filesOf_dumpPrimaryBuffer {first : DiskCache}
    (h : first.dumpPrimaryBuffer opens folder drv = some folder') (cache : DiskCache) :
    FilesOf drv [first] folder folder' cache := by
  rw [DiskCache.dumpPrimaryBuffer, ite_none_right_eq_some] at h
  obtain rfl := some.inj h.2
  have hkhash : cache.khashName drv = first.khashName drv ↔
      first.genFileName [] [] = cache.genFileName [] [] := by
    rw [eq_comm]
    exact DiskCache.genFileName_eq_iff
  have hpcow : cache.pcowName drv = first.pcowName drv ↔
      first.genFileName [] [] = cache.genFileName [] [] := by
    rw [eq_comm]
    exact DiskCache.genFileName_eq_iff
  by_cases hname : first.genFileName [] [] = cache.genFileName [] []
  · refine Or.inl ⟨first, mem_cons_self, hname, ?_, ?_⟩
    · rw [hkhash.2 hname]
      exact update_self ..
    · rw [hpcow.2 hname]
      exact update_self ..
  · refine Or.inr ⟨?_, ?_, ?_⟩
    · intro other hother
      rwa [mem_singleton.1 hother]
    · exact update_of_ne (fun h => hname (hkhash.1 h)) _ _
    · exact update_of_ne (fun h => hname (hpcow.1 h)) _ _

theorem FilesOf.cons {first cache : DiskCache} {folder1 : SnapshotFolder}
    (hfirst : FilesOf drv [first] folder folder1 cache)
    (hrest : FilesOf drv caches folder1 folder' cache) :
    FilesOf drv (first :: caches) folder folder' cache := by
  rcases hrest with ⟨last, hlast, hdumped⟩ | ⟨hnone, hkhash, hpcow⟩
  · exact Or.inl ⟨last, mem_cons_of_mem _ hlast, hdumped⟩
  · rcases hfirst with ⟨last, hlast, hname, htable, hbuffer⟩ | ⟨hother, hkhash', hpcow'⟩
    · obtain rfl := mem_singleton.1 hlast
      exact Or.inl ⟨last, mem_cons_self, hname, hkhash.trans htable, hpcow.trans hbuffer⟩
    · refine Or.inr ⟨?_, hkhash.trans hkhash', hpcow.trans hpcow'⟩
      exact forall_mem_cons.2 ⟨hother first mem_cons_self, hnone⟩

theorem opened_of_serializeCaches
    (h : serializeCaches opens drv stray i caches folder = some folder') :
    ∀ cache ∈ caches, cache.Opened opens drv := by
  induction caches generalizing i folder with
  | nil => exact fun cache hcache => nomatch hcache
  | cons first caches ih =>
    obtain ⟨folder1, hdump, hrest⟩ := bind_eq_some_iff.1 h
    rw [DiskCache.dumpPrimaryBuffer, ite_none_right_eq_some] at hdump
    exact forall_mem_cons.2 ⟨hdump.1.2, ih hrest⟩

theorem exists_serializeCaches (hfuzz : ∀ cache ∈ caches, cache.enabledFuzz = true)
    (hopened : ∀ cache ∈ caches, cache.Opened opens drv) :
    ∃ folder', serializeCaches opens drv stray i caches folder = some folder' ∧
      folder'.cacheMeta = folder.cacheMeta ++ cowEntries stray i (caches.map (·.filename)) ∧
      ∀ cache, FilesOf drv caches folder folder' cache := by
  induction caches generalizing i folder with
  | nil =>
    refine ⟨folder, rfl, (append_nil _).symm, fun cache => Or.inr ⟨?_, rfl, rfl⟩⟩
    intro other hother
    cases hother
  | cons first caches ih =>
    rw [forall_mem_cons] at hfuzz hopened
    have hdump : ∀ folder, first.dumpPrimaryBuffer opens folder drv = some _ :=
      fun _ => if_pos ⟨hfuzz.1, hopened.1⟩
    rcases ih hfuzz.2 hopened.2 with ⟨folder', hrest, hmeta, hfiles⟩
    refine ⟨folder', ?_, ?_, fun cache => ?_⟩
    · rw [serializeCaches, hdump, bind_some, hrest]
    · rw [hmeta, map_cons, cowEntries, ← append_assoc]
    · exact (filesOf_dumpPrimaryBuffer (hdump _) cache).cons (hfiles cache)

/-! ### Reading them -/

def SizeFits (s : SnapshotSettings) (cache : CowCache) : Prop :=
  cache.primary.next ≤ s.globalCowPrimarySize ∧
    (s.preSnapshot = true → cache.primary.next ≤ DiskCache.cowCachePrimaryMinimumSize)

structure SameBuffer (a b : CowCache) : Prop where
  lookup : a.primary.lookup = b.primary.lookup
  next : a.primary.next = b.primary.next
  bytes : bytesAt a.primary.data 0 a.primary.next = bytesAt b.primary.data 0 b.primary.next

variable {a b : CowCache}

theorem lookup_eq_none_of_next_eq_zero {layer : CowLayer} (h : layer.next = 0) :
    layer.lookup = fun _ => none := by
  funext k
  cases hk : layer.lookup k with
  | none => rfl
  | some v => exact absurd (layer.lookup_lt hk) (by omega)

section Read

variable {name name' : CString} {last cache : CowCache} {s : SnapshotSettings}

theorem readPrimaryBuffer_dumped
    (h : (DiskCache.of name' last.switchToFuzzMode).DumpedAt folder
      ((DiskCache.of name .new).khashName drv) ((DiskCache.of name .new).pcowName drv))
    (size : ℕ) (switchMode : Bool) :
    (DiskCache.of name .new).readPrimaryBuffer folder drv size switchMode =
      if last.primary.next > size then none
      else if switchMode then
        some ⟨name, last.primary.lookup, memOf (bytesAt last.primary.data 0 last.primary.next),
          last.primary.next, size, true⟩
      else if last.primary.next > DiskCache.cowCachePrimaryMinimumSize then none
      else
        some ⟨name, last.primary.lookup, storeAt (fun _ => 0) 0
          (bytesAt last.primary.data 0 last.primary.next), last.primary.next, size, false⟩ := by
  have hpcow : folder.pcow ((DiskCache.of name .new).pcowName drv) =
      some (bytesAt last.primary.data 0 (0x1000 * (last.primary.next / 0x1000))) := h.buffer
  have hkhash : folder.khash ((DiskCache.of name .new).khashName drv) =
      if last.primary.next ≠ 0 then some last.primary.lookup else none := h.table
  have hlookup : (if last.primary.next ≠ 0 then
      folder.khash ((DiskCache.of name .new).khashName drv) else some fun _ => none) =
        some last.primary.lookup := by
    by_cases hzero : last.primary.next = 0
    · rw [if_neg (not_not.2 hzero), lookup_eq_none_of_next_eq_zero hzero]
    · rw [if_pos hzero, hkhash, if_pos hzero]
  have hfuzz : (DiskCache.of name .new).enabledFuzz = false := rfl
  rw [Nat.mul_div_cancel' (Nat.dvd_of_mod_eq_zero last.primary.next_mod)] at hpcow
  have hdata : (if size ≠ (DiskCache.of name .new).cowPrimarySize then fun _ => 0
      else (DiskCache.of name .new).dataPrimary) = fun _ => 0 := ite_self _
  rw [DiskCache.readPrimaryBuffer, hfuzz, hpcow]
  simp only [Bool.false_eq_true, if_false, bind_some, length_bytesAt, hlookup, hdata]
  rfl

def Reloads (folder : SnapshotFolder) (s : SnapshotSettings) (p : CString × CowCache) : Prop :=
  ∃ loaded, (DiskCache.of p.1 .new).readPrimaryBuffer folder (s.path ++ ascii "/fs_drv")
      s.globalCowPrimarySize (!s.preSnapshot) = some loaded ∧
    (DiskCache.of p.1 p.2.switchToFuzzMode).Holds loaded

theorem reloads_iff
    (h : (DiskCache.of name' last.switchToFuzzMode).DumpedAt folder
      ((DiskCache.of name .new).khashName (s.path ++ ascii "/fs_drv"))
      ((DiskCache.of name .new).pcowName (s.path ++ ascii "/fs_drv"))) :
    Reloads folder s (name, cache) ↔ SizeFits s last ∧ SameBuffer last cache := by
  have hholds : ∀ {data size fuzz},
      Stored data 0 (bytesAt last.primary.data 0 last.primary.next) →
        ((DiskCache.of name cache.switchToFuzzMode).Holds
          ⟨name, last.primary.lookup, data, last.primary.next, size, fuzz⟩ ↔
            SameBuffer last cache) := by
    intro data size fuzz hstored
    rw [Stored, length_bytesAt] at hstored
    constructor
    · rintro ⟨hlookup, hoffset, hbytes⟩
      exact ⟨hlookup, hoffset, hstored.symm.trans hbytes⟩
    · rintro ⟨hlookup, hnext, hbytes⟩
      exact ⟨hlookup, hnext, hstored.trans hbytes⟩
  rw [Reloads, readPrimaryBuffer_dumped h, SizeFits]
  by_cases hsize : last.primary.next > s.globalCowPrimarySize
  · simp [if_pos hsize, not_le.2 hsize]
  · rw [if_neg hsize]
    cases s.preSnapshot with
    | false => simp [hholds (stored_memOf _), not_lt.1 hsize]
    | true =>
      by_cases hmin : last.primary.next > DiskCache.cowCachePrimaryMinimumSize
      · simp [if_pos hmin, not_le.2 hmin]
      · simp [if_neg hmin, hholds (stored_storeAt _ _ _), not_lt.1 hsize, not_lt.1 hmin]

end Read

end Buffers

/-! ## The round trip -/

namespace BlockBackends

variable {backends : BlockBackends} {s : SnapshotSettings}

theorem filterMap_fresh (backends : BlockBackends) :
    backends.fresh.filterMap id = backends.cowCaches.map fun p => .of p.1 .new := by
  rw [fresh, cowCaches, filterMap_map, map_filterMap]
  rfl

theorem length_fresh_lt (backends : BlockBackends) : 0 + backends.fresh.length < 2 ^ 32 := by
  rw [fresh, length_map, zero_add]
  exact backends.length_lt

def CachesFirst (backends : BlockBackends) : Prop :=
  ∀ pre cache post, backends.blks = pre ++ some cache :: post → none ∉ pre

theorem numbered_fresh_iff : Numbered backends.fresh 0 0 ↔ backends.CachesFirst := by
  rw [numbered_iff]
  constructor
  · intro h pre cache post hblks hnone
    have hmem := mem_map_of_mem (f := freshCache) hnone
    refine h (pre.map freshCache) (.of cache.1 .new) (post.map freshCache) ?_ hmem
    rw [fresh, hblks, map_append, map_cons]
    rfl
  · intro h pre cache post hblks hnone
    rcases map_eq_append_iff.1 hblks with ⟨pre', rest, hsplit, rfl, hrest⟩
    rcases map_eq_cons_iff.1 hrest with ⟨blk, post', rfl, hblk, rfl⟩
    rcases map_eq_some_iff.1 hblk with ⟨p, rfl, -⟩
    rcases mem_map.1 hnone with ⟨blk, hmem, hblk⟩
    rw [map_eq_none_iff.1 hblk] at hmem
    exact h pre' p post' hsplit hmem

def SameFile (a b : CString × CowCache) : Prop :=
  (DiskCache.of a.1 a.2).genFileName [] [] = (DiskCache.of b.1 b.2).genFileName [] []

variable {p : CString × CowCache}

theorem sameFile_names {q : CString × CowCache} (h : SameFile p q) (drv : List UInt8) :
    (DiskCache.of p.1 .new).khashName drv = (DiskCache.of q.1 .new).khashName drv ∧
      (DiskCache.of p.1 .new).pcowName drv = (DiskCache.of q.1 .new).pcowName drv :=
  ⟨DiskCache.genFileName_eq_iff.2 h, DiskCache.genFileName_eq_iff.2 h⟩

variable {folder : SnapshotFolder}

theorem exists_dumpedAt {drv : List UInt8} {folder' : SnapshotFolder}
    (h : ∀ cache, FilesOf drv (nyxBlockSnapshotInit backends) folder folder' cache)
    (hp : p ∈ backends.cowCaches) :
    ∃ last ∈ backends.cowCaches, SameFile last p ∧
      (DiskCache.of last.1 last.2.switchToFuzzMode).DumpedAt folder'
        ((DiskCache.of p.1 .new).khashName drv) ((DiskCache.of p.1 .new).pcowName drv) := by
  rcases h (.of p.1 .new) with ⟨last, hlast, hname, hdumped⟩ | ⟨hnone, -⟩
  · rcases mem_map.1 hlast with ⟨q, hq, rfl⟩
    exact ⟨q, hq, hname, hdumped⟩
  · have hself : DiskCache.of p.1 p.2.switchToFuzzMode ∈ nyxBlockSnapshotInit backends :=
      mem_map.2 ⟨p, hp, rfl⟩
    exact (hnone _ hself rfl).elim

theorem initFromFile_eq_some_iff {path : List UInt8} {stray : UInt8} {preSnapshot : Bool} {size : ℕ}
    {loaded : List DiskCache} (h : folder.cacheMeta = toLe 4 backends.cowCaches.length ++
      cowEntries stray 0 (backends.cowCaches.map (·.1))) :
    nyxBlockSnapshotInitFromFile backends.fresh path preSnapshot size folder = some loaded ↔
      (∀ p ∈ backends.cowCaches, NameFits stray p.1) ∧ backends.CachesFirst ∧
        (backends.cowCaches.map fun p => DiskCache.of p.1 .new).mapM (fun cache =>
          cache.readPrimaryBuffer folder (path ++ ascii "/fs_drv") size (!preSnapshot)) =
            some loaded := by
  have hnames : backends.cowCaches.map (·.1) =
      (backends.fresh.filterMap id).map (·.filename) := by
    rw [filterMap_fresh, List.map_map]
    rfl
  have hlength : (backends.fresh.filterMap id).length % 2 ^ 32 =
      ofLe (toLe 4 backends.cowCaches.length) := by
    rw [filterMap_fresh, length_map, ofLe_toLe]
    rfl
  rw [nyxBlockSnapshotInitFromFile, h, fread_append (length_toLe 4 _), bind_some]
  dsimp only
  rw [if_pos hlength, hnames, bind_eq_some_iff]
  constructor
  · rintro ⟨caches, haccepted, hread⟩
    rcases (readEntries_cowEntries_iff backends.length_fresh_lt (le_refl 0)).1 haccepted with
      ⟨rfl, hfits, hfirst⟩
    rw [filterMap_fresh] at hfits hread
    exact ⟨fun p hp => hfits _ (mem_map_of_mem hp), numbered_fresh_iff.1 hfirst, hread⟩
  · rintro ⟨hfits, hfirst, hread⟩
    rw [← filterMap_fresh] at hread
    refine ⟨_, (readEntries_cowEntries_iff backends.length_fresh_lt (le_refl 0)).2 ⟨rfl, ?_,
      numbered_fresh_iff.2 hfirst⟩, hread⟩
    rw [filterMap_fresh]
    exact forall_mem_map.2 hfits

theorem exists_reload :
    (∃ loaded, (backends.cowCaches.map fun p => DiskCache.of p.1 .new).mapM (fun cache =>
        cache.readPrimaryBuffer folder (s.path ++ ascii "/fs_drv") s.globalCowPrimarySize
          (!s.preSnapshot)) = some loaded ∧
        List.Forall₂ DiskCache.Holds (nyxBlockSnapshotInit backends) loaded) ↔
      ∀ p ∈ backends.cowCaches, Reloads folder s p :=
  exists_mapM_iff

def FilesOpen (backends : BlockBackends) (opens : List UInt8 → Bool) (path : List UInt8) : Prop :=
  opens (path ++ ascii "/fs_cache.meta") = true ∧
    ∀ p ∈ backends.cowCaches, (DiskCache.of p.1 p.2).Opened opens (path ++ ascii "/fs_drv")

theorem filesOpen_of_serialize {opens : List UInt8 → Bool} {path : List UInt8} {stray : UInt8}
    {folder' : SnapshotFolder}
    (h : nyxBlockSnapshotSerialize opens (nyxBlockSnapshotInit backends) path stray folder =
      some folder') : backends.FilesOpen opens path := by
  obtain ⟨hmeta, hcaches⟩ := ite_none_right_eq_some.1 h
  exact ⟨hmeta, fun p hp => opened_of_serializeCaches hcaches
    (.of p.1 p.2.switchToFuzzMode) (mem_map.2 ⟨p, hp, rfl⟩)⟩

theorem exists_serialize {opens : List UInt8 → Bool} {path : List UInt8}
    (hopen : backends.FilesOpen opens path) (stray : UInt8) (folder : SnapshotFolder) :
    ∃ folder', nyxBlockSnapshotSerialize opens (nyxBlockSnapshotInit backends) path stray folder =
        some folder' ∧
      folder'.cacheMeta = toLe 4 backends.cowCaches.length ++
        cowEntries stray 0 (backends.cowCaches.map (·.1)) ∧
      ∀ p ∈ backends.cowCaches, ∃ last ∈ backends.cowCaches, SameFile last p ∧
        (DiskCache.of last.1 last.2.switchToFuzzMode).DumpedAt folder'
          ((DiskCache.of p.1 .new).khashName (path ++ ascii "/fs_drv"))
          ((DiskCache.of p.1 .new).pcowName (path ++ ascii "/fs_drv")) := by
  have hfuzz : ∀ cache ∈ nyxBlockSnapshotInit backends, cache.enabledFuzz = true := by
    intro cache hcache
    rcases List.mem_map.1 hcache with ⟨p, -, rfl⟩
    rfl
  have hopened : ∀ cache ∈ nyxBlockSnapshotInit backends,
      cache.Opened opens (path ++ ascii "/fs_drv") := by
    intro cache hcache
    rcases List.mem_map.1 hcache with ⟨p, hp, rfl⟩
    exact hopen.2 p hp
  rcases exists_serializeCaches hfuzz hopened with ⟨folder', hserialize, hmeta, hfiles⟩
  refine ⟨folder', (if_pos hopen.1).trans hserialize, ?_, fun p hp => exists_dumpedAt hfiles hp⟩
  rw [hmeta, nyxBlockSnapshotInit, List.length_map, List.map_map]
  rfl

end BlockBackends

open BlockBackends

/-- **What the round trip of the caches needs.** -/
theorem roundTrips_iff (backends : BlockBackends) (s : SnapshotSettings) :
    RoundTrips backends s ↔
      backends.FilesOpen s.opens s.path ∧ backends.CachesFirst ∧
      (∀ p ∈ backends.cowCaches, NameFits s.stray p.1 ∧ SizeFits s p.2) ∧
      ∀ p ∈ backends.cowCaches, ∀ q ∈ backends.cowCaches, SameFile p q → SameBuffer p.2 q.2 := by
  constructor
  · rintro ⟨folder₁, loaded, hserialize₁, hinit, hholds⟩
    have hopen := filesOpen_of_serialize hserialize₁
    rcases exists_serialize hopen s.stray s.folder with ⟨folder, hserialize, hmeta, hdumped⟩
    obtain rfl := some.inj (hserialize.symm.trans hserialize₁)
    rcases (initFromFile_eq_some_iff hmeta).1 hinit with ⟨hnames, hfirst, hloaded⟩
    have hall := exists_reload.1 ⟨loaded, hloaded, hholds⟩
    refine ⟨hopen, hfirst, fun p hp => ⟨hnames p hp, ?_⟩, fun p hp q hq hfile => ?_⟩
    · rcases hdumped p hp with ⟨last, -, -, h⟩
      have hlast := (reloads_iff h).1 (hall p hp)
      rw [SizeFits, ← hlast.2.next]
      exact hlast.1
    · -- both caches get the buffer of the last one with the file
      rcases hdumped p hp with ⟨last, -, -, h⟩
      obtain ⟨-, hlookup, hnext, hbytes⟩ := (reloads_iff h).1 (hall p hp)
      rw [(sameFile_names hfile _).1, (sameFile_names hfile _).2] at h
      obtain ⟨-, hlookup', hnext', hbytes'⟩ := (reloads_iff h).1 (hall q hq)
      exact ⟨hlookup.symm.trans hlookup', hnext.symm.trans hnext', hbytes.symm.trans hbytes'⟩
  · rintro ⟨hopen, hfirst, hfits, hsame⟩
    rcases exists_serialize hopen s.stray s.folder with ⟨folder, hserialize, hmeta, hdumped⟩
    have hall : ∀ p ∈ backends.cowCaches, Reloads folder s p := by
      intro p hp
      rcases hdumped p hp with ⟨last, hlast, hfile, h⟩
      exact (reloads_iff h).2 ⟨(hfits last hlast).2, hsame last hlast p hp hfile⟩
    rcases exists_reload.2 hall with ⟨loaded, hloaded, hholds⟩
    exact ⟨folder, loaded, hserialize,
      (initFromFile_eq_some_iff hmeta).2 ⟨fun p hp => (hfits p hp).1, hfirst, hloaded⟩, hholds⟩

theorem zero_notMem_diskName : 0 ∉ ([0x64] : List UInt8) := by decide

/-- A drive without a medium and a disk `d`. -/
def driveAndDisk : List (Option (CString × CowCache)) :=
  [none, some (⟨[0x64], zero_notMem_diskName⟩, .new)]

theorem length_driveAndDisk_lt : driveAndDisk.length < 2 ^ 32 := by decide

theorem not_roundTrips_driveAndDisk :
    ¬RoundTrips ⟨driveAndDisk, length_driveAndDisk_lt⟩
      ⟨[], fun _ => true, 0, ⟨[], fun _ => none, fun _ => none⟩, false, 0xC0000000⟩ := by
  rintro ⟨folder, loaded, hserialize, hinit, -⟩
  rcases exists_serialize (filesOpen_of_serialize hserialize) 0
    ⟨[], fun _ => none, fun _ => none⟩ with ⟨folder₁, hserialize₁, hmeta, -⟩
  obtain rfl := some.inj (hserialize.symm.trans hserialize₁)
  rcases (initFromFile_eq_some_iff hmeta).1 hinit with ⟨-, hfirst, -⟩
  exact hfirst [none] _ [] rfl mem_cons_self

end FuzzSocketCan.Qemu
