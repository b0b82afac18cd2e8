import FuzzSocketCan.Packer.Builder

/-! # Corpus files

A graph is kept in a file: five 64-bit words, the ops and the data. The builder of seeds writes
files of the same layout. A file open for reading is its contents and a position.

* **`writeToFile`**, **`newFromBinFile`** — writing and reading.
* **`newFromBinFile_writeToFile`** — the round trip. -/

namespace FuzzSocketCan

open Lib List

/-! ## Writing -/

/-- The contents of the file. -/
def GraphStorage.writeToFile {S : Type} [GraphStorage S] (g : S) (spec : GraphSpec) : List UInt8 :=
  toLe 8 spec.checksum ++ toLe 8 (opsAsSlice g).length ++ toLe 8 (dataAsSlice g).length ++
    toLe 8 (5 * 8) ++ toLe 8 (5 * 8 + (opsAsSlice g).length * 2) ++
      (opsAsSlice g).flatMap (fun b => toLe 2 b.toNat) ++ dataAsSlice g

/-! ## Reading -/

structure BinFile where
  bytes : List UInt8
  pos : ℕ

namespace BinFile

/-- `f.read` into a buffer of `n` bytes. -/
def read (n : ℕ) : EStateM Panic BinFile (List UInt8) := do
  let f ← get
  let bs := (f.bytes.drop f.pos).take n
  set { f with pos := f.pos + bs.length }
  pure bs

def readFull (n : ℕ) : EStateM Panic BinFile (List UInt8) := do
  let bs ← read n
  check (bs.length = n) .assertionFailed
  pure bs

/-- `f.read_exact(..).unwrap()`. -/
def readExact (n : ℕ) : EStateM Panic BinFile (List UInt8) := do
  let bs ← read n
  check (bs.length = n) .unwrapNone
  pure bs

/-- `f.seek(SeekFrom::Start(pos))`. -/
def seek (pos : ℕ) : EStateM Panic BinFile PUnit := modify fun f => { f with pos := pos }

def readU64 : EStateM Panic BinFile ℕ := do
  let buffer ← readFull 8
  pure (ofLe buffer)

def readU16 : EStateM Panic BinFile UInt16 := do
  let buffer ← readFull 2
  pure (UInt16.ofNat (ofLe buffer))

def readOps : ℕ → EStateM Panic BinFile (List UInt16)
  | 0 => pure []
  | n + 1 => do
      let op ← readU16
      let ops ← readOps n
      pure (op :: ops)

def readGraph (spec : GraphSpec) : EStateM Panic BinFile VecGraph := do
  let checksum ← readU64
  check (checksum = spec.checksum) .assertionFailed
  let numOps ← readU64
  let numData ← readU64
  let opOffset ← readU64
  let dataOffset ← readU64
  seek opOffset
  let ops ← readOps numOps
  seek dataOffset
  let data ← readExact numData
  pure ⟨ops, data⟩

end BinFile

def VecGraph.newFromBinFile (file : List UInt8) (spec : GraphSpec) : Except Panic VecGraph :=
  match BinFile.readGraph spec ⟨file, 0⟩ with
  | .ok g _ => .ok g
  | .error e _ => .error e

/-! ## Reading back -/

namespace BinFile

variable {f : BinFile} {xs rest : List UInt8}

def Rest (f : BinFile) (bs : List UInt8) : Prop := f.bytes.drop f.pos = bs

def skip (f : BinFile) (n : ℕ) : BinFile := { f with pos := f.pos + n }

theorem Rest.skip (h : f.Rest (xs ++ rest)) : (f.skip xs.length).Rest rest := by
  rw [Rest, BinFile.skip, ← drop_drop, h, drop_left]

variable {n : ℕ}

theorem read_rest (h : f.Rest (xs ++ rest)) (hlen : xs.length = n) :
    read n f = .ok xs (f.skip n) := by
  have htake : (f.bytes.drop f.pos).take n = xs := by rw [h, take_left' hlen]
  show EStateM.Result.ok ((f.bytes.drop f.pos).take n) _ = _
  rw [htake, hlen]
  rfl

theorem readFull_rest (h : f.Rest (xs ++ rest)) (hlen : xs.length = n) :
    readFull n f = .ok xs (f.skip n) := by
  rw [readFull, bind_run_ok (read_rest h hlen), check_bind_run hlen]
  rfl

theorem readExact_rest (h : f.Rest (xs ++ rest)) (hlen : xs.length = n) :
    readExact n f = .ok xs (f.skip n) := by
  rw [readExact, bind_run_ok (read_rest h hlen), check_bind_run hlen]
  rfl

theorem readU64_rest {v : ℕ} (h : f.Rest (toLe 8 v ++ rest)) (hv : v < 256 ^ 8) :
    readU64 f = .ok v (f.skip 8) ∧ (f.skip 8).Rest rest := by
  have hskip := h.skip
  refine ⟨?_, hskip⟩
  rw [readU64, bind_run_ok (readFull_rest h (length_toLe _ _)), ofLe_toLe_of_lt hv]
  rfl

theorem readU16_rest {x : UInt16} (h : f.Rest (toLe 2 x.toNat ++ rest)) :
    readU16 f = .ok x (f.skip 2) ∧ (f.skip 2).Rest rest := by
  have hskip := h.skip
  refine ⟨?_, hskip⟩
  have hx : x.toNat < 256 ^ 2 := x.toNat_lt
  rw [readU16, bind_run_ok (readFull_rest h (length_toLe _ _)), ofLe_toLe_of_lt hx,
    UInt16.ofNat_toNat]
  rfl

theorem readOps_rest {ops : List UInt16} (h : f.Rest (arrayOf 2 (ops.map UInt16.toNat) ++ rest)) :
    readOps ops.length f = .ok ops (f.skip (2 * ops.length)) := by
  induction ops generalizing f with
  | nil => rfl
  | cons x ops ih =>
    obtain ⟨hread, hrest⟩ := readU16_rest h
    rw [length_cons, readOps, bind_run_ok hread, bind_run_ok (ih hrest)]
    have hskip : (f.skip 2).skip (2 * ops.length) = f.skip (2 * (ops.length + 1)) := by
      simp only [BinFile.skip]
      congr 1
      omega
    rw [hskip]
    rfl

end BinFile

def fileOf (checksum : ℕ) (ops : List UInt16) (data : List UInt8) : List UInt8 :=
  arrayOf 8 (Builder.headerWords checksum ops.length data.length) ++
    arrayOf 2 (ops.map UInt16.toNat) ++ data

variable {checksum : ℕ} {ops : List UInt16} {data : List UInt8} {spec : GraphSpec}

theorem newFromBinFile_fileOf (hsum : spec.checksum = checksum)
    (hwords : ∀ w ∈ Builder.headerWords checksum ops.length data.length, w < 256 ^ 8) :
    VecGraph.newFromBinFile (fileOf checksum ops data) spec = .ok ⟨ops, data⟩ := by
  have hfile : fileOf checksum ops data = toLe 8 checksum ++ (toLe 8 ops.length ++
      (toLe 8 data.length ++ (toLe 8 (5 * 8) ++ (toLe 8 (5 * 8 + 2 * ops.length) ++
        (arrayOf 2 (ops.map UInt16.toNat) ++ data))))) := by
    simp [fileOf, Builder.headerWords, arrayOf_cons, arrayOf_nil, append_assoc]
  simp only [Builder.headerWords, forall_mem_cons] at hwords
  obtain ⟨hw1, hw2, hw3, hw4, hw₅, -⟩ := hwords
  -- the five words of the header, one read each
  have hrest : (⟨fileOf checksum ops data, 0⟩ : BinFile).Rest _ := hfile
  obtain ⟨hr1, hrest⟩ := BinFile.readU64_rest hrest hw1
  obtain ⟨hr2, hrest⟩ := BinFile.readU64_rest hrest hw2
  obtain ⟨hr3, hrest⟩ := BinFile.readU64_rest hrest hw3
  obtain ⟨hr4, hrest⟩ := BinFile.readU64_rest hrest hw4
  obtain ⟨hr₅, hrest⟩ := BinFile.readU64_rest hrest hw₅
  -- the offsets in the header are where the reads of the header ended, and where the ops end
  have hops : BinFile.Rest ⟨fileOf checksum ops data, 5 * 8⟩
    (arrayOf 2 (ops.map UInt16.toNat) ++ data) := hrest
  have hdata : BinFile.Rest ⟨fileOf checksum ops data, 5 * 8 + 2 * ops.length⟩ (data ++ []) := by
    have hskip := hops.skip
    rw [length_arrayOf, length_map] at hskip
    rw [append_nil]
    exact hskip
  have hseek : ∀ f : BinFile, f.bytes = fileOf checksum ops data → ∀ pos,
      BinFile.seek pos f = .ok ⟨⟩ ⟨fileOf checksum ops data, pos⟩ := by
    rintro ⟨_, _⟩ rfl pos
    rfl
  have hgraph : BinFile.readGraph spec ⟨fileOf checksum ops data, 0⟩ = .ok ⟨ops, data⟩
      (BinFile.skip ⟨fileOf checksum ops data, 5 * 8 + 2 * ops.length⟩ data.length) := by
    rw [BinFile.readGraph, bind_run_ok hr1, check_bind_run hsum.symm, bind_run_ok hr2,
      bind_run_ok hr3, bind_run_ok hr4, bind_run_ok hr₅, bind_run_ok (hseek _ rfl _),
      bind_run_ok (BinFile.readOps_rest hops), bind_run_ok (hseek _ rfl _),
      bind_run_ok (BinFile.readExact_rest hdata rfl)]
    rfl
  rw [VecGraph.newFromBinFile, hgraph]

theorem writeToFile_eq_fileOf {S : Type} [GraphStorage S] (g : S) (spec : GraphSpec) :
    GraphStorage.writeToFile g spec = fileOf spec.checksum (opsAsSlice g) (dataAsSlice g) := by
  have hops : (opsAsSlice g).flatMap (fun b => toLe 2 b.toNat) =
      arrayOf 2 ((opsAsSlice g).map UInt16.toNat) := by
    rw [arrayOf, flatMap_map]
  rw [GraphStorage.writeToFile, fileOf, hops, Nat.mul_comm _ 2]
  simp [Builder.headerWords, arrayOf_cons, arrayOf_nil, append_assoc]

/-- A slice has at most `isize::MAX` bytes. -/
structure GraphStorage.InMemory {S : Type} [GraphStorage S] (g : S) : Prop where
  ops_lt : 2 * (opsAsSlice g).length < 2 ^ 63
  data_lt : (dataAsSlice g).length < 2 ^ 63

theorem GraphStorage.InMemory.headerWords_lt {S : Type} [GraphStorage S] {g : S}
    (h : GraphStorage.InMemory g) (hsum : checksum < 2 ^ 64) :
    ∀ w ∈ Builder.headerWords checksum (opsAsSlice g).length (dataAsSlice g).length,
      w < 256 ^ 8 := by
  have hops := h.ops_lt
  have hdata := h.data_lt
  simp only [Builder.headerWords, forall_mem_cons]
  refine ⟨?_, ?_, ?_, ?_, ?_, fun w hw => nomatch hw⟩ <;> omega

/-- **Corpus files round trip**, and a builder of seeds writes the same file. -/
theorem newFromBinFile_writeToFile {S : Type} [GraphStorage S] {g : S} {spec spec' : GraphSpec}
    (hg : GraphStorage.InMemory g) (hsum : spec.checksum < 2 ^ 64)
    (hspec : spec'.checksum = spec.checksum) :
    VecGraph.newFromBinFile (GraphStorage.writeToFile g spec) spec' =
        .ok ⟨opsAsSlice g, dataAsSlice g⟩ ∧
      ∀ b : Builder, b.ops = (opsAsSlice g).map UInt16.toNat → b.data = dataAsSlice g →
        b.writeToFile spec.checksum = .ok (GraphStorage.writeToFile g spec) := by
  have hwords := hg.headerWords_lt hsum
  rw [writeToFile_eq_fileOf]
  refine ⟨newFromBinFile_fileOf hspec hwords, ?_⟩
  intro b hops hdata
  have hlen : b.ops.length = (opsAsSlice g).length := by rw [hops, length_map]
  refine Builder.writeToFile_eq_ok.2 ⟨?_, ?_, ?_⟩
  · rw [hlen, hdata]
    exact hwords
  · rw [hops]
    intro x hx
    obtain ⟨y, -, rfl⟩ := mem_map.1 hx
    exact y.toNat_lt
  · rw [fileOf, hlen, hops, hdata]

theorem newFromBinFile_refGraph :
    VecGraph.newFromBinFile
        (GraphStorage.writeToFile (⟨[1, 0, 7, 7], 2, [1, 0, 9, 5], 3⟩ : RefGraph) connectionSpec)
        connectionSpec = .ok ⟨[1, 0], [1, 0, 9]⟩ ∧
      ∀ b : Builder, b.ops = [1, 0] → b.data = [1, 0, 9] →
        b.writeToFile connectionSpec.checksum = .ok (GraphStorage.writeToFile
          (⟨[1, 0, 7, 7], 2, [1, 0, 9, 5], 3⟩ : RefGraph) connectionSpec) :=
  newFromBinFile_writeToFile (g := (⟨[1, 0, 7, 7], 2, [1, 0, 9, 5], 3⟩ : RefGraph))
    ⟨by decide, by decide⟩ (by decide) rfl

end FuzzSocketCan
