import FuzzSocketCan.Lib.Hex
import FuzzSocketCan.Lib.LittleEndian

/-! # The redqueen hooks

`redqueen.c` puts breakpoints on comparisons, on arithmetic with large constants and on calls, and
logs the operands, or the strings that the arguments point to, when the guest stops there. `none`
is a failed assertion.

* **`opcodeAnalyzer`** — the instructions that get a breakpoint.
* **`handleHookRedqueenLight`**, **`Report.write`** — what is reported, and written. -/

namespace FuzzSocketCan.Qemu

open Lib

/-! ## Instructions -/

inductive Gpr
  | rax | rcx | rdx | rbx | rsp | rbp | rsi | rdi | r8 | r9 | r10 | r11 | r12 | r13 | r14 | r15
  deriving DecidableEq

inductive SegReg
  | gs | fs | cs | ds | ss
  deriving DecidableEq

inductive RegPart
  | whole | low32 | low16 | low8
  deriving DecidableEq

inductive X86Reg
  | invalid
  | gpr (r : Gpr) (part : RegPart)
  | ah | ch | dh | bh
  | rip | eip | ip
  | seg (s : SegReg)
  | other (id : ℕ)
  deriving DecidableEq

structure X86OpMem where
  segment : X86Reg
  base : X86Reg
  index : X86Reg
  scale : UInt64
  disp : Int64
  deriving DecidableEq

/-- `cs_x86_op`, with the size where it is read. -/
inductive X86Op
  | invalid
  | reg (r : X86Reg)
  | imm (value : Int64)
  | mem (m : X86OpMem) (size : UInt8)
  deriving DecidableEq

/-- `op->type == X86_OP_IMM` -/
def X86Op.isImm : X86Op → Bool
  | imm _ => true
  | invalid | reg _ | mem _ _ => false

inductive X86Insn
  | cmp | xor | sub | lea | add | call | lcall | other
  deriving DecidableEq

structure CsInsn where
  id : X86Insn
  address : UInt64
  operands : List X86Op
  deriving DecidableEq

/-! ## Breakpoints -/

def X86Op.usesRegister (op : X86Op) (r : X86Reg) : Bool :=
  match op with
  | reg r' => r' = r
  | mem m _ => m.base = r
  | invalid | imm _ => false

def X86Op.usesStackAccess (op : X86Op) : Bool :=
  op.usesRegister (.gpr .rbp .whole) || op.usesRegister (.gpr .rbp .low32) ||
    op.usesRegister (.gpr .rsp .whole) || op.usesRegister (.gpr .rsp .low32)

namespace CsInsn

def isInteresstingLeaAt (ins : CsInsn) : Option Bool :=
  match ins.operands with
  | [_, .mem m _] =>
    let boring := [.eip, .rip, .gpr .rbp .low32, .gpr .rbp .whole]
    some (decide (m.disp < 0) && decide (-m.disp > 0xff) && decide (m.scale = 1) &&
      decide (m.base = .invalid) && decide (m.index ≠ .invalid) && !boring.contains m.index)
  | _ => none

def isInteresstingAddAt (ins : CsInsn) : Option Bool :=
  match ins.operands with
  | [.reg r, .imm v] => some (large v && !(X86Op.reg r).usesStackAccess)
  | [.mem m size, .imm v] => some (large v && !(X86Op.mem m size).usesStackAccess)
  | [_, _] => some false
  | _ => none
where
  large (v : Int64) : Bool := decide (v > 0x7fff) && decide ((v >>> 8) &&& 0xff ≠ 0xff)

def isInteresstingSubAt (ins : CsInsn) : Option Bool :=
  match ins.operands with
  | [.reg r, .imm v] => some (decide (v > 0xff) && !(X86Op.reg r).usesStackAccess)
  | [.mem m size, .imm v] => some (decide (v > 0xff) && !(X86Op.mem m size).usesStackAccess)
  | [_, _] => some false
  | _ => none

def isInteresstingXorAt (ins : CsInsn) : Option Bool :=
  match ins.operands with
  | [.reg r, .reg r'] => some (decide (r ≠ r'))
  | [_, _] => some false
  | _ => none

/-- Whether the instruction gets a breakpoint. -/
def opcodeAnalyzer (ins : CsInsn) : Option Bool :=
  match ins.id with
  | .cmp | .call | .lcall => some true
  | .lea => ins.isInteresstingLeaAt
  | .sub => ins.isInteresstingSubAt
  | .add => ins.isInteresstingAddAt
  | .xor => ins.isInteresstingXorAt
  | .other => some false

end CsInsn

/-! ## Evaluation of operands -/

/-- `disassembler_word_width` -/
inductive WordWidth
  | w64 | w32
  deriving DecidableEq

inductive InstrumentationMode
  | light | se | whitelist
  deriving DecidableEq

/-- The stopped guest, with what `read_virtual_memory` finds (zero where nothing is mapped). -/
structure HookCpu where
  regs : Gpr → UInt64
  eip : UInt64
  segs : SegReg → UInt64
  memory : UInt64 → UInt8
  isAddrMapped : UInt64 → Bool
  wordWidth : WordWidth
  mode : InstrumentationMode

namespace HookCpu

variable (cpu : HookCpu)

def readVirtualMemory (address : UInt64) (size : ℕ) : List UInt8 :=
  (List.range size).map fun i => cpu.memory (address + UInt64.ofNat i)

def getSegmentRegister : X86Reg → Option UInt64
  | .seg s => some (cpu.segs s)
  | _ => none

/-- The value and the size. -/
def evalReg : X86Reg → Option (UInt64 × UInt8)
  | .gpr r .whole => some (cpu.regs r, 64)
  | .gpr r .low32 => some (cpu.regs r &&& 0xffffffff, 32)
  | .gpr r .low16 => some (cpu.regs r &&& 0xffff, 16)
  | .gpr r .low8 => some (cpu.regs r &&& 0xff, 8)
  | .ah => some ((cpu.regs .rax >>> 8) &&& 0xff, 8)
  | .ch => some ((cpu.regs .rcx >>> 8) &&& 0xff, 8)
  | .dh => some ((cpu.regs .rdx >>> 8) &&& 0xff, 8)
  | .bh => some ((cpu.regs .rbx >>> 8) &&& 0xff, 8)
  | .rip => some (cpu.eip, 64)
  | .eip => some (cpu.eip &&& 0xffffffff, 32)
  -- the mask has five digits in the source
  | .ip => some (cpu.eip &&& 0xfffff, 16)
  | .invalid | .seg _ | .other _ => none

def evalAddrReg (r : X86Reg) : Option UInt64 :=
  if r = .invalid then some 0 else (cpu.evalReg r).map Prod.fst

def evalAddr (m : X86OpMem) : Option UInt64 := do
  let base ← cpu.evalAddrReg m.base
  let index ← cpu.evalAddrReg m.index
  let segment ← if m.segment = .invalid then some 0 else cpu.getSegmentRegister m.segment
  some (segment + base + index * m.scale + m.disp.toUInt64)

def evalMem (m : X86OpMem) (size : UInt8) : Option UInt64 :=
  if size = 1 ∨ size = 2 ∨ size = 4 ∨ size = 8 then
    (cpu.evalAddr m).map fun addr => UInt64.ofNat (ofLe (cpu.readVirtualMemory addr size.toNat))
  else none

/-- The value and the size. -/
def eval : X86Op → Option (UInt64 × UInt8)
  | .reg r => cpu.evalReg r
  | .imm v => some (v.toUInt64, 0)
  | .mem m size =>
    if size = 1 then (cpu.evalMem m size).map fun v => (v &&& 0xff, 8)
    else if size = 2 then (cpu.evalMem m size).map fun v => (v &&& 0xffff, 16)
    else if size = 4 then (cpu.evalMem m size).map fun v => (v &&& 0xffffffff, 32)
    else if size = 8 then (cpu.evalMem m size).map fun v => (v, 64)
    else none
  | .invalid => none

end HookCpu

def signExtendFromSize (value : UInt64) (size : UInt8) : Option UInt64 :=
  if size = 64 then some value
  else if size = 32 then
    some (if value.toUInt32.toInt32 < 0 then 0xffffffff00000000 ||| value else value)
  else if size = 16 then
    some (if value.toUInt16.toInt16 < 0 then 0xffffffffffff0000 ||| value else value)
  else if size = 8 then
    some (if value.toUInt8.toInt8 < 0 then 0xffffffffffffff00 ||| value else value)
  else none

/-! ## Reports -/

inductive CompType
  | cmp | sub | lea
  deriving DecidableEq

inductive Report
  | comp (addr : UInt64) (type : CompType) (val1 val2 : UInt64) (size : UInt8) (imm : Bool)
  | strcmp (rip : UInt64) (buf1 buf2 : List UInt8)
  deriving DecidableEq

def redqueenMaxStrcmpLen : ℕ := 64

namespace HookCpu

variable (cpu : HookCpu)

def reportsPair (v1 v2 : UInt64) : Bool := cpu.mode = .whitelist || v1 != v2

def getCmpValue (ins : CsInsn) (type : CompType) : Option (List Report) :=
  match ins.operands with
  | [op1, op2] => do
      let (v1, size1) ← cpu.eval op1
      let (v2, size2) ← cpu.eval op2
      some (if cpu.reportsPair v1 v2 then
        [.comp ins.address type v1 v2 (if size1 ≠ 0 then size1 else size2) op2.isImm] else [])
  | _ => none

def getCmpValueAdd (ins : CsInsn) : Option (List Report) :=
  match ins.operands with
  | [op1, op2] => do
      let (v1, size1) ← cpu.eval op1
      let (v2, _) ← cpu.eval op2
      let extended ← signExtendFromSize v2 size1
      some (if op2.isImm && cpu.reportsPair v1 (-extended) then
        [.comp ins.address .sub v1 (-extended) size1 true] else [])
  | _ => none

def getCmpValueLea (ins : CsInsn) : Option (List Report) :=
  match ins.operands with
  | [_, .mem m size] =>
    if (m.base ≠ .invalid ∧ m.index ≠ .invalid) ∨ (m.base = .invalid ∧ m.index = .invalid) then
      some []
    else do
      let (indexVal, _) ← cpu.evalReg (if m.base ≠ .invalid then m.base else m.index)
      some (if cpu.reportsPair indexVal (-m.disp).toUInt64 then
        [.comp ins.address .lea indexVal (-m.disp).toUInt64 (size * 8) false] else [])
  | _ => none

def limitToWordWidth (val : UInt64) : UInt64 :=
  match cpu.wordWidth with
  | .w64 => val
  | .w32 => val &&& 0xffffffff

def wordWidthToBytes : UInt64 :=
  match cpu.wordWidth with
  | .w64 => 8
  | .w32 => 4

def readStack (wordIndex : UInt64) : UInt64 :=
  let stackPtr := cpu.limitToWordWidth (cpu.regs .rsp) + wordIndex * cpu.wordWidthToBytes
  cpu.limitToWordWidth (UInt64.ofNat (ofLe (cpu.readVirtualMemory stackPtr 8)))

def testStrchr (arg1 arg2 : UInt64) : List Report :=
  if !cpu.isAddrMapped arg1 || arg2 &&& 0xffffffffffffff00 != 0 then []
  else
    let buf1 := cpu.readVirtualMemory arg1 redqueenMaxStrcmpLen
    if buf1.contains 0 then
      [.strcmp cpu.eip buf1 (arg2.toUInt8 :: List.replicate (redqueenMaxStrcmpLen - 1) 0)]
    else []

def testStrcmp (arg1 arg2 : UInt64) : List Report :=
  if !cpu.isAddrMapped arg1 || !cpu.isAddrMapped arg2 then []
  else [.strcmp cpu.eip (cpu.readVirtualMemory arg1 redqueenMaxStrcmpLen)
    (cpu.readVirtualMemory arg2 redqueenMaxStrcmpLen)]

def testArgs (arg1 arg2 : UInt64) : List Report :=
  cpu.testStrchr arg1 arg2 ++ cpu.testStrcmp arg1 arg2

def testStrcmpCdecl : List Report := cpu.testArgs (cpu.readStack 0) (cpu.readStack 1)

def testStrcmpFastcall : List Report := cpu.testArgs (cpu.regs .rcx) (cpu.regs .rdx)

def testStrcmpSysV : List Report :=
  if cpu.wordWidth ≠ .w64 then [] else cpu.testArgs (cpu.regs .rdi) (cpu.regs .rsi)

def extractCallParams : List Report :=
  cpu.testStrcmpCdecl ++ cpu.testStrcmpFastcall ++ cpu.testStrcmpSysV

def handleHookRedqueenLight (ins : CsInsn) : Option (List Report) :=
  match ins.id with
  | .cmp | .xor => cpu.getCmpValue ins .cmp
  | .sub => cpu.getCmpValue ins .sub
  | .lea => cpu.getCmpValueLea ins
  | .add => cpu.getCmpValueAdd ins
  | .call | .lcall => some cpu.extractCallParams
  | .other => some []

end HookCpu

/-! ## The log -/

def CompType.name : CompType → List Char
  | cmp => ['C', 'M', 'P']
  | sub => ['S', 'U', 'B']
  | lea => ['L', 'E', 'A']

def compFormat (size : UInt8) : Option (List Char × ℕ × UInt64) :=
  if size = 64 then some ([' ', '6', '4', '\t'], 16, 0xffffffffffffffff)
  else if size = 32 then some ([' ', '3', '2', '\t'], 8, 0xffffffff)
  else if size = 16 then some ([' ', '1', '6', '\t'], 4, 0xffff)
  else if size = 8 then some ([' ', '8', '\t'], 2, 0xff)
  else none

/-- An address is written with `%lx`. -/
def addrText (addr : UInt64) : List Char := Hex.stripped Hex.lower 16 addr.toNat

def printCompResult (addr : UInt64) (type : CompType) (val1 val2 : UInt64) (size : UInt8)
    (imm : Bool) : Option (List Char) :=
  (compFormat size).map fun (sizeText, digits, mask) =>
    addrText addr ++ ['\t', '\t', ' '] ++ type.name ++ sizeText ++
      Hex.padded Hex.upper digits (val1 &&& mask).toNat ++ ['-'] ++
      Hex.padded Hex.upper digits (val2 &&& mask).toNat ++
      (if imm then [' ', 'I', 'M', 'M'] else []) ++ ['\n']

def formatStrcmp (rip : UInt64) (buf1 buf2 : List UInt8) : List Char :=
  addrText rip ++ ['\t', '\t', 'S', 'T', 'R', ' '] ++ Nat.toDigits 10 (redqueenMaxStrcmpLen * 8) ++
    ['\t'] ++ Hex.encode Hex.upper buf1 ++ ['-'] ++ Hex.encode Hex.upper buf2 ++ ['\n']

def Report.write : Report → Option (List Char)
  | comp addr type val1 val2 size imm => printCompResult addr type val1 val2 size imm
  | strcmp rip buf1 buf2 => some (formatStrcmp rip buf1 buf2)

end FuzzSocketCan.Qemu
