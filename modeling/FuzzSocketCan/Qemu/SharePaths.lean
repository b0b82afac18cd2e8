import FuzzSocketCan.Lib.Lists
import FuzzSocketCan.Qemu.CStrings
import FuzzSocketCan.Qemu.Sharedir
import Mathlib.Data.List.Infix

/-! # Which files the guest can read

`sharedir_scan` resolves the requested name with `realpath` and rejects names that start with a
slash or contain `/../`. The share directory is an absolute path. Without symbolic links a name can
then only leave it with a `..` as its first part.

* **`served_outside`** — a file next to the directory is handed out for `../secret`.
* **`served_inside_iff`** — the names whose files are inside. -/

namespace FuzzSocketCan.Qemu

open Lib List Option

/-! ## Paths -/

abbrev Path := List (List UInt8)

/-- A tree of directories without symbolic links. -/
structure DirTree where
  stat : Path → Option Stat
  isDir_root : ∃ sb, stat [] = some sb ∧ sb.isDir = true
  isDir_parent : ∀ path name, (stat (path ++ [name])).isSome →
    ∃ sb, stat path = some sb ∧ sb.isDir = true

def dot : List UInt8 := ascii "."

def dotdot : List UInt8 := ascii ".."

def slash : UInt8 := 47

namespace DirTree

def IsDir (tree : DirTree) (path : Path) : Prop := ∃ sb, tree.stat path = some sb ∧ sb.isDir = true

/-- The loop of `realpath`: empty parts and `.` are skipped, `..` goes up and stays at the root, and
a name followed by a slash has to be a directory. -/
def walk (tree : DirTree) : Path → List (List UInt8) → Option Path
  | path, [] => some path
  | path, part :: parts =>
    if part = [] ∨ part = dot then walk tree path parts
    else if part = dotdot then walk tree path.dropLast parts
    else
      match tree.stat (path ++ [part]) with
      | none => none
      | some sb =>
        if sb.isDir = true ∨ parts = [] then walk tree (path ++ [part]) parts else none

/-- `realpath` in the working directory `cwd`. -/
def realpath (tree : DirTree) (cwd : Path) (file : List UInt8) : Option Path :=
  match file with
  | [] => none
  | b :: rest => walk tree (if b = slash then [] else cwd) ((b :: rest).splitOn slash)

def sharedirScan (tree : DirTree) (dir : Path) (file : CString) : Option Path :=
  match tree.stat dir with
  | none => none
  | some sb =>
    -- `chdir`
    if sb.isDir = true then
      match tree.realpath dir file.bytes with
      | none => none
      | some path =>
        if file.bytes.head? ≠ some slash ∧
            ¬ slash :: (dotdot ++ [slash]) <:+: file.bytes ∧ (tree.stat path).isSome then
          some path
        else none
    else none

theorem sharedirScan_eq_some_iff {tree : DirTree} {dir path : Path} {file : CString} :
    tree.sharedirScan dir file = some path ↔
      tree.IsDir dir ∧ tree.realpath dir file.bytes = some path ∧
        file.bytes.head? ≠ some slash ∧ ¬ slash :: (dotdot ++ [slash]) <:+: file.bytes ∧
        (tree.stat path).isSome := by
  unfold sharedirScan IsDir
  grind

def disk (tree : DirTree) : ShareDisk Path CString Path where
  scan := tree.sharedirScan
  stat := tree.stat
  isSome_stat := fun _ _ _ h => (sharedirScan_eq_some_iff.1 h).2.2.2.2

end DirTree

/-! ## Where a name leads to -/

def realParts (parts : List (List UInt8)) : List (List UInt8) :=
  parts.filter fun part => part ≠ [] ∧ part ≠ dot

/-- A name does not go up first, or the directory is the root, or the name comes back to it. -/
def StaysInside (dir : Path) (file : CString) : Prop :=
  let parts := realParts (file.bytes.splitOn slash)
  parts[0]? = some dotdot → dir = [] ∨ parts[1]? = dir.getLast?

instance (dir : Path) (file : CString) : Decidable (StaysInside dir file) :=
  inferInstanceAs (Decidable (_ → _))

section

variable {tree : DirTree} {path path' dir : Path} {parts : List (List UInt8)} {file : CString}

theorem realParts_cons (part : List UInt8) (parts : List (List UInt8)) :
    realParts (part :: parts) =
      if part = [] ∨ part = dot then realParts parts else part :: realParts parts := by
  rw [realParts, filter_cons, ← ite_not]
  refine if_congr ?_ rfl rfl
  rw [decide_eq_true_iff, not_and_or, not_not, not_not]

namespace DirTree

theorem IsDir.dropLast (h : tree.IsDir path) : tree.IsDir path.dropLast := by
  obtain rfl | ⟨path, name, rfl⟩ := path.eq_nil_or_concat'
  · exact h
  · obtain ⟨sb, hsb, -⟩ := h
    rw [dropLast_concat]
    exact tree.isDir_parent path name (by rw [hsb]; rfl)

theorem walk_eq_append (h : tree.walk path parts = some path') (hparts : dotdot ∉ parts) :
    path' = path ++ realParts parts := by
  induction parts generalizing path with
  | nil =>
    cases h
    exact (append_nil _).symm
  | cons part parts ih =>
    rw [mem_cons, not_or] at hparts
    rw [walk] at h
    rw [realParts_cons]
    split at h
    · rename_i hskip
      rw [if_pos hskip]
      exact ih h hparts.2
    · rename_i hreal
      rw [if_neg (Ne.symm hparts.1)] at h
      rw [if_neg hreal]
      split at h
      · cases h
      · split at h
        · rw [ih h hparts.2, append_assoc, singleton_append]
        · cases h

theorem walk_isDir (h : tree.walk path parts = some path') (hpath : tree.IsDir path)
    (hlast : parts.getLast? = some dotdot) : tree.IsDir path' := by
  induction parts generalizing path with
  | nil => cases hlast
  | cons part parts ih =>
    obtain rfl | hparts := Decidable.em (parts = [])
    · obtain rfl : part = dotdot := some.inj hlast
      have hup : tree.walk path [dotdot] = some path.dropLast := rfl
      cases hup.symm.trans h
      exact hpath.dropLast
    · rw [getLast?_cons_of_ne_nil hparts] at hlast
      rw [walk] at h
      split at h
      · exact ih h hpath hlast
      · split at h
        · exact ih h hpath.dropLast hlast
        · split at h
          · cases h
          · rename_i sb hsb
            split at h
            · -- a part that is followed by others is a directory
              rename_i hdir
              exact ih h ⟨sb, hsb, hdir.resolve_right hparts⟩ hlast
            · cases h

end DirTree

theorem dotdot_between {a b : List (List UInt8)} (ha : a ≠ []) (hb : b ≠ [])
    (h : file.bytes.splitOn slash = a ++ dotdot :: b) :
    slash :: (dotdot ++ [slash]) <:+: file.bytes := by
  have hjoin : [slash].intercalate (file.bytes.splitOn slash) = file.bytes :=
    intercalate_splitOn slash
  have hcons : dotdot :: b = [dotdot] ++ b := rfl
  rw [h, intercalate_append ha (cons_ne_nil _ _), hcons,
    intercalate_append (cons_ne_nil _ _) hb, intercalate_singleton] at hjoin
  rw [← hjoin]
  exact ⟨[slash].intercalate a, [slash].intercalate b, by simp⟩

theorem dotdot_notMem_tail {part : List UInt8} (hstr : ¬ slash :: (dotdot ++ [slash]) <:+: file.bytes)
    (hparts : file.bytes.splitOn slash = part :: parts)
    (hlast : (part :: parts).getLast? ≠ some dotdot) : dotdot ∉ parts := by
  intro hmem
  obtain ⟨a, b, rfl⟩ := append_of_mem hmem
  obtain rfl | hb := Decidable.em (b = [])
  · rw [← cons_append, getLast?_concat] at hlast
    exact hlast rfl
  · exact hstr (dotdot_between (cons_ne_nil part a) hb hparts)

theorem prefix_dropLast_append_iff (dir : Path) (parts : List (List UInt8)) :
    dir <+: dir.dropLast ++ parts ↔ dir = [] ∨ parts.head? = dir.getLast? := by
  obtain rfl | ⟨dir, name, rfl⟩ := dir.eq_nil_or_concat'
  · exact iff_of_true nil_prefix (Or.inl rfl)
  · rw [dropLast_concat, prefix_append_right_inj, getLast?_concat]
    have hne : dir ++ [name] ≠ [] := append_ne_nil_of_right_ne_nil _ (cons_ne_nil _ _)
    rw [or_iff_right hne]
    cases parts with
    | nil => simp
    | cons part parts =>
      rw [cons_prefix_cons, head?_cons, some.injEq, eq_comm]
      exact and_iff_left nil_prefix

theorem inside_iff_staysInside (hscan : tree.sharedirScan dir file = some path)
    (hfile : ¬ tree.IsDir path) : dir <+: path ↔ StaysInside dir file := by
  obtain ⟨hdir, hreal, hslash, hstr, -⟩ := DirTree.sharedirScan_eq_some_iff.1 hscan
  have hwalk : tree.walk dir (file.bytes.splitOn slash) = some path := by
    unfold DirTree.realpath at hreal
    split at hreal
    · cases hreal
    · rename_i b rest hbytes
      rw [hbytes, head?_cons, Ne, some.injEq] at hslash
      rw [if_neg hslash] at hreal
      rw [hbytes]
      exact hreal
  have hlast : (file.bytes.splitOn slash).getLast? ≠ some dotdot := fun hlast =>
    hfile (DirTree.walk_isDir hwalk hdir hlast)
  unfold StaysInside
  cases hparts : file.bytes.splitOn slash with
  | nil =>
    rw [hparts] at hwalk
    cases hwalk
    exact iff_of_true (prefix_refl _) (fun h => by cases h)
  | cons part parts =>
    rw [hparts] at hwalk hlast
    have htail := dotdot_notMem_tail hstr hparts hlast
    by_cases hpart : part = dotdot
    · subst hpart
      have hup : tree.walk dir (dotdot :: parts) = tree.walk dir.dropLast parts := rfl
      have hgo : realParts (dotdot :: parts) = dotdot :: realParts parts := rfl
      rw [hup] at hwalk
      rw [DirTree.walk_eq_append hwalk htail, prefix_dropLast_append_iff, hgo, head?_eq_getElem?]
      exact ⟨fun h _ => h, fun h => h rfl⟩
    · have hnone : dotdot ∉ part :: parts := by
        rw [mem_cons, not_or]
        exact ⟨Ne.symm hpart, htail⟩
      rw [DirTree.walk_eq_append hwalk hnone]
      refine iff_of_true (prefix_append _ _) fun h => ?_
      exact absurd (mem_of_mem_filter (mem_of_getElem? h)) hnone

/-- **Which served files lie inside the share directory**: those whose names stay inside. -/
theorem served_inside_iff (tree : DirTree) (dir : Path) (earlier : List CString) (file : CString) :
    ∃ replies share reply share',
      (Sharedir.new.setDir dir).bind (·.requests tree.disk earlier) = some (replies, share) ∧
      share.requestFile tree.disk file = some (reply, share') ∧
      ∀ bytes, reply = .data bytes →
        ∃ obj sb, share'.lookup file = some obj ∧ tree.stat obj.path = some sb ∧
          bytes <:+: sb.contents ∧ (dir <+: obj.path ↔ StaysInside dir file) := by
  obtain ⟨replies, share, hrequests, hafter, -⟩ :=
    (Sharedir.after_configured tree.disk dir).requests earlier
  cases hfile : tree.disk.file dir file with
  | none =>
    refine ⟨replies, share, .rejected, share, hrequests,
      Sharedir.requestFile_of_none hafter.sound hfile, ?_⟩
    rintro bytes ⟨⟩
  | some contents =>
    obtain ⟨share', hrequest, hsound, hobject, -⟩ := Sharedir.requestFile_eq hafter.sound hfile
    refine ⟨replies, share, _, share', hrequests, hrequest, ?_⟩
    rintro bytes ⟨⟩
    obtain ⟨obj, hobj⟩ := isSome_iff_exists.1 hobject
    have hdesc := hsound.objects file obj hobj
    obtain ⟨contents', hfile', -, hstat⟩ := hdesc.exists_file
    obtain rfl : contents' = contents := some.inj (hfile'.symm.trans hfile)
    have hnotDir : ¬ tree.IsDir obj.path := by
      rintro ⟨sb, hsb, hisDir⟩
      cases hsb.symm.trans hstat
      cases hisDir
    refine ⟨obj, _, hobj, hstat, ?_, inside_iff_staysInside hdesc.scan hnotDir⟩
    rw [serve_fst, hafter.left_eq file contents' hfile, leftAfter]
    exact (List.take_prefix _ _).isInfix.trans (drop_suffix _ _).isInfix

end

/-! ## A secret next to the share directory -/

def secretStat : Path → Option Stat
  | [] => some ⟨true, 0, []⟩
  | [name] =>
    if name = ascii "share" then some ⟨true, 0, []⟩
    else if name = ascii "secret" then some ⟨false, 0, [42]⟩
    else none
  | [name, file] =>
    if name = ascii "share" ∧ file = ascii "a" then some ⟨false, 0, [1]⟩ else none
  | _ => none

theorem secretStat_parent (path : Path) (name : List UInt8)
    (h : (secretStat (path ++ [name])).isSome) :
    ∃ sb, secretStat path = some sb ∧ sb.isDir = true := by
  match path with
  | [] => exact ⟨_, rfl, rfl⟩
  | [dir] =>
    have hshare : dir = ascii "share" := by
      by_contra hne
      rw [singleton_append, secretStat, if_neg (fun h => hne h.1)] at h
      cases h
    exact ⟨_, if_pos hshare, rfl⟩
  | [_, _] => cases h
  | _ :: _ :: _ :: _ => cases h

def secretTree : DirTree where
  stat := secretStat
  isDir_root := ⟨_, rfl, rfl⟩
  isDir_parent := secretStat_parent

theorem served_inside_secretTree :
    ∃ share' obj, (Sharedir.configured [ascii "share"]).requestFile secretTree.disk
        (cstr (ascii "a")) = some (.data [1], share') ∧
      share'.lookup (cstr (ascii "a")) = some obj ∧ [ascii "share"] <+: obj.path := by
  obtain ⟨replies, share, reply, share', hrun, hrequest, hserved⟩ :=
    served_inside_iff secretTree [ascii "share"] [] (cstr (ascii "a"))
  cases hrun
  have hreply : reply = .data [1] :=
    (congrArg Prod.fst (some.inj hrequest)).symm.trans rfl
  obtain ⟨obj, sb, hobj, -, -, hinside⟩ := hserved [1] hreply
  rw [hreply] at hrequest
  exact ⟨share', obj, hrequest, hobj, hinside.2 (by decide)⟩

/-- **The guest reads the secret.** -/
theorem served_outside :
    ∃ share' obj, (Sharedir.configured [ascii "share"]).requestFile secretTree.disk
        (cstr (ascii "../secret")) = some (.data [42], share') ∧
      share'.lookup (cstr (ascii "../secret")) = some obj ∧ obj.path = [ascii "secret"] ∧
      ¬ [ascii "share"] <+: obj.path := by
  exact ⟨_, _, rfl, rfl, rfl, by decide⟩

end FuzzSocketCan.Qemu
