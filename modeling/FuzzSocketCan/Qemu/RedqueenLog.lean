import FuzzSocketCan.FuzzRunner.RedqueenEvent
import FuzzSocketCan.Lib.Lists
import FuzzSocketCan.Qemu.RedqueenHooks

/-! # The redqueen log

The fuzzer reads the log line by line.

* **`Report.new_line`** — a report of a `cmp`, `xor`, `sub`, `add` or call is read back.
* **`write_recovered_iff`** — what a stop writes, read back.
* **`redqueenResults_recovered_iff`** — one `lea` report makes the whole log unreadable. -/

namespace FuzzSocketCan.Qemu

open Lib List Option Hex

namespace Report

/-! ## What a report says -/

def addr : Report → UInt64
  | comp addr _ _ _ _ _ => addr
  | strcmp rip _ _ => rip

def lhs : Report → List UInt8
  | comp _ _ val1 _ size _ => Hex.bytesBE (size.toNat / 8) (val1.toNat % 2 ^ size.toNat)
  | strcmp _ buf1 _ => buf1

def rhs : Report → List UInt8
  | comp _ _ _ val2 size _ => Hex.bytesBE (size.toNat / 8) (val2.toNat % 2 ^ size.toNat)
  | strcmp _ _ buf2 => buf2

def imm : Report → Bool
  | comp _ _ _ _ _ imm => imm
  | strcmp _ _ _ => false

def bpType? : Report → Option RedqueenBPType
  | comp _ .cmp _ _ _ _ => some .cmp
  | comp _ .sub _ _ _ _ => some .sub
  | comp _ .lea _ _ _ _ => none
  | strcmp _ _ _ => some .str

def event? (r : Report) : Option RedqueenEvent :=
  r.bpType?.map fun type => ⟨r.addr, type, r.lhs, r.rhs, r.imm⟩

def RecoveredBy (r : Report) (e : RedqueenEvent) : Prop :=
  e.addr = r.addr ∧ e.lhs = r.lhs ∧ e.rhs = r.rhs ∧ e.lhs.length = e.rhs.length ∧ e.imm = r.imm

def WellFormed : Report → Prop
  | comp _ type _ _ _ imm => type = .lea → imm = false
  | strcmp _ buf1 buf2 =>
    buf1.length = redqueenMaxStrcmpLen ∧ buf2.length = redqueenMaxStrcmpLen

end Report

/-! ## What the hooks report -/

namespace HookCpu

variable {cpu : HookCpu} {ins : CsInsn} {rs : List Report} {r : Report}

theorem length_readVirtualMemory (cpu : HookCpu) (address : UInt64) (size : ℕ) :
    (cpu.readVirtualMemory address size).length = size := by
  rw [readVirtualMemory, length_map, length_range]

theorem mem_getCmpValue {type : CompType} (h : cpu.getCmpValue ins type = some rs) (hr : r ∈ rs) :
    ∃ val1 val2 size imm, r = .comp ins.address type val1 val2 size imm := by
  unfold getCmpValue at h
  split at h
  · rename_i op1 op2 _
    simp only [bind_eq_bind, bind_eq_some_iff, some.injEq, Prod.exists] at h
    obtain ⟨v1, size1, -, v2, size2, -, rfl⟩ := h
    split at hr
    · exact ⟨v1, v2, _, _, mem_singleton.1 hr⟩
    · cases hr
  · cases h

theorem mem_getCmpValueAdd (h : cpu.getCmpValueAdd ins = some rs) (hr : r ∈ rs) :
    ∃ val1 val2 size, r = .comp ins.address .sub val1 val2 size true := by
  unfold getCmpValueAdd at h
  split at h
  · simp only [bind_eq_bind, bind_eq_some_iff, some.injEq, Prod.exists] at h
    obtain ⟨v1, size1, -, v2, size2, -, extended, -, rfl⟩ := h
    split at hr
    · exact ⟨v1, _, size1, mem_singleton.1 hr⟩
    · cases hr
  · cases h

theorem mem_getCmpValueLea (h : cpu.getCmpValueLea ins = some rs) (hr : r ∈ rs) :
    ∃ val1 val2 size, r = .comp ins.address .lea val1 val2 size false := by
  unfold getCmpValueLea at h
  split at h
  · split at h
    · cases h
      cases hr
    · simp only [bind_eq_bind, bind_eq_some_iff, some.injEq, Prod.exists] at h
      obtain ⟨v, size, -, rfl⟩ := h
      split at hr
      · exact ⟨v, _, _, mem_singleton.1 hr⟩
      · cases hr
  · cases h

theorem mem_testArgs {arg1 arg2 : UInt64} (hr : r ∈ cpu.testArgs arg1 arg2) :
    ∃ buf1 buf2, r = .strcmp cpu.eip buf1 buf2 ∧ buf1.length = redqueenMaxStrcmpLen ∧
      buf2.length = redqueenMaxStrcmpLen := by
  rcases mem_append.1 hr with hr | hr
  · unfold testStrchr at hr
    split at hr
    · cases hr
    · dsimp only at hr
      split at hr
      · refine ⟨_, _, mem_singleton.1 hr, length_readVirtualMemory _ _ _, ?_⟩
        rfl
      · cases hr
  · unfold testStrcmp at hr
    split at hr
    · cases hr
    · exact ⟨_, _, mem_singleton.1 hr, length_readVirtualMemory _ _ _,
        length_readVirtualMemory _ _ _⟩

theorem mem_extractCallParams (hr : r ∈ cpu.extractCallParams) :
    ∃ arg1 arg2, r ∈ cpu.testArgs arg1 arg2 := by
  rcases mem_append.1 hr with hr | hr
  · rcases mem_append.1 hr with hr | hr
    · exact ⟨_, _, hr⟩
    · exact ⟨_, _, hr⟩
  · unfold testStrcmpSysV at hr
    split at hr
    · cases hr
    · exact ⟨_, _, hr⟩

theorem mem_handleHookRedqueenLight (h : cpu.handleHookRedqueenLight ins = some rs) (hr : r ∈ rs) :
    r.WellFormed ∧ (r.bpType? = none ↔ ins.id = .lea) := by
  have hcmp : ∀ type ≠ CompType.lea, cpu.getCmpValue ins type = some rs →
      r.WellFormed ∧ r.bpType? ≠ none := by
    intro type htype h
    obtain ⟨v1, v2, size, imm, rfl⟩ := mem_getCmpValue h hr
    refine ⟨fun hlea => absurd hlea htype, ?_⟩
    cases type with
    | cmp | sub => exact some_ne_none _
    | lea => contradiction
  have hcall : r ∈ cpu.extractCallParams → r.WellFormed ∧ r.bpType? ≠ none := by
    intro hr
    obtain ⟨arg1, arg2, hr⟩ := mem_extractCallParams hr
    obtain ⟨b1, b2, rfl, hb1, hb2⟩ := mem_testArgs hr
    exact ⟨⟨hb1, hb2⟩, some_ne_none _⟩
  unfold handleHookRedqueenLight at h
  cases hid : ins.id with
  | cmp =>
    simp only [hid] at h
    simpa using hcmp .cmp (by decide) h
  | xor =>
    simp only [hid] at h
    simpa using hcmp .cmp (by decide) h
  | sub =>
    simp only [hid] at h
    simpa using hcmp .sub (by decide) h
  | lea =>
    simp only [hid] at h
    obtain ⟨v1, v2, size, rfl⟩ := mem_getCmpValueLea h hr
    exact ⟨fun _ => rfl, iff_of_true rfl rfl⟩
  | add =>
    simp only [hid] at h
    obtain ⟨v1, v2, size, rfl⟩ := mem_getCmpValueAdd h hr
    exact ⟨fun hlea => absurd hlea (by decide), by simp [Report.bpType?]⟩
  | call =>
    simp only [hid, some.injEq] at h
    simpa using hcall (h ▸ hr)
  | lcall =>
    simp only [hid, some.injEq] at h
    simpa using hcall (h ▸ hr)
  | other =>
    simp only [hid, some.injEq] at h
    rw [← h] at hr
    cases hr

end HookCpu

/-! ## Reading a line back -/

theorem compFormat_spec {size : UInt8} {sizeText : List Char} {digits : ℕ} {mask : UInt64}
    (h : compFormat size = some (sizeText, digits, mask)) :
    ∃ bits, sizeText = [' '] ++ (bits ++ ['\t']) ∧ bits ≠ [] ∧ (∀ c ∈ bits, isDecimal c) ∧
      0 < size.toNat / 8 ∧ digits = 2 * (size.toNat / 8) ∧ mask.toNat = 2 ^ size.toNat - 1 := by
  unfold compFormat at h
  split at h
  · rename_i hsize
    cases h
    subst hsize
    exact ⟨['6', '4'], rfl, by decide, all_eq_true.1 rfl, by decide⟩
  split at h
  · rename_i hsize
    cases h
    subst hsize
    exact ⟨['3', '2'], rfl, by decide, all_eq_true.1 rfl, by decide⟩
  split at h
  · rename_i hsize
    cases h
    subst hsize
    exact ⟨['1', '6'], rfl, by decide, all_eq_true.1 rfl, by decide⟩
  split at h
  · rename_i hsize
    cases h
    subst hsize
    exact ⟨['8'], rfl, by decide, all_eq_true.1 rfl, by decide⟩
  · cases h

theorem toNat_and_mask {size : UInt8} {mask : UInt64} (h : mask.toNat = 2 ^ size.toNat - 1)
    (val : UInt64) : (val &&& mask).toNat = val.toNat % 2 ^ size.toNat := by
  rw [UInt64.toNat_and, h, Nat.and_two_pow_sub_one_eq_mod]

theorem read_addrText (addr : UInt64) : Hex.read (addrText addr) = some addr.toNat := by
  rw [addrText, read_stripped writes_lower, Nat.mod_eq_of_lt]
  exact addr.toNat_lt

theorem isDigit_of_mem_addrText {addr : UInt64} {c : Char} (hc : c ∈ addrText addr) :
    Hex.isDigit c := Hex.isDigit_of_mem_stripped Hex.writes_lower hc

theorem logLineParts (addr : UInt64) {gap bits : List Char} {lhs rhs : List UInt8} (hgap : gap ≠ [])
    (hspace : ∀ c ∈ gap, isSpace c) (hbits : bits ≠ []) (hdecimal : ∀ c ∈ bits, isDecimal c)
    (hlhs : lhs ≠ []) (hrhs : rhs ≠ []) :
    LogLineParts (addrText addr) gap bits (Hex.encode Hex.upper lhs) (Hex.encode Hex.upper rhs) where
  addr_ne_nil := Hex.stripped_ne_nil _ _ _
  isDigit_addr := fun _ hc => isDigit_of_mem_addrText hc
  gap_ne_nil := hgap
  isSpace_gap := hspace
  bits_ne_nil := hbits
  isDecimal_bits := hdecimal
  lhs_ne_nil := Hex.encode_ne_nil _ hlhs
  isDigit_lhs := fun _ hc => Hex.isDigit_of_mem_encode Hex.writes_upper hc
  rhs_ne_nil := Hex.encode_ne_nil _ hrhs
  isDigit_rhs := fun _ hc => Hex.isDigit_of_mem_encode Hex.writes_upper hc

namespace Report

variable {r : Report} {text : List Char}

theorem length_lhs (hr : r.WellFormed) : r.lhs.length = r.rhs.length := by
  cases r with
  | comp => simp [lhs, rhs]
  | strcmp => exact hr.1.trans hr.2.symm

theorem write_eq_logLine {type : RedqueenBPType} (hr : r.WellFormed) (htype : r.bpType? = some type)
    (h : r.write = some text) :
    ∃ gap bits, text = logLine (addrText r.addr) gap type bits (Hex.encode Hex.upper r.lhs)
        (Hex.encode Hex.upper r.rhs) r.imm ++ ['\n'] ∧
      LogLineParts (addrText r.addr) gap bits (Hex.encode Hex.upper r.lhs)
        (Hex.encode Hex.upper r.rhs) := by
  cases r with
  | comp addr ctype val1 val2 size imm =>
    obtain ⟨⟨sizeText, digits, mask⟩, hformat, rfl⟩ := map_eq_some_iff.1 h
    obtain ⟨bits, rfl, hbits, hdecimal, hpos, rfl, hmask⟩ := compFormat_spec hformat
    have hname : ctype.name = type.name := by
      cases ctype <;> cases htype <;> rfl
    have hne : ∀ n, bytesBE (size.toNat / 8) n ≠ [] := by
      intro n
      rw [← length_pos_iff, length_bytesBE]
      exact hpos
    refine ⟨['\t', '\t', ' '], bits, ?_,
      logLineParts addr (by decide) (all_eq_true.1 rfl) hbits hdecimal (hne _) (hne _)⟩
    simp only [logLine, lhs, rhs, Report.addr, Report.imm, hname, toNat_and_mask hmask,
      padded_eq_encode, append_assoc]
    rfl
  | strcmp rip buf1 buf2 =>
    have htext : text = formatStrcmp rip buf1 buf2 := (some.inj h).symm
    cases htype
    have hne : ∀ buf : List UInt8, buf.length = redqueenMaxStrcmpLen → buf ≠ [] := by
      rintro _ hlen rfl
      cases hlen
    refine ⟨['\t', '\t'], ['5', '1', '2'], ?_,
      logLineParts rip (by decide) (all_eq_true.1 rfl) (by decide) (all_eq_true.1 rfl)
        (hne _ hr.1) (hne _ hr.2)⟩
    have hbits : Nat.toDigits 10 (redqueenMaxStrcmpLen * 8) = ['5', '1', '2'] := by decide
    simp [htext, formatStrcmp, logLine, hbits, lhs, rhs, Report.addr, Report.imm, RedqueenBPType.name]

def letters : Report → List Char
  | comp _ type _ _ _ imm => ['\t', ' ', '-'] ++ type.name ++ if imm then ['I', 'M'] else []
  | strcmp _ _ _ => ['\t', ' ', '-', 'S', 'T', 'R']

theorem write_eq_line (h : r.write = some text) :
    ∃ line, text = line ++ ['\n'] ∧ ∀ c ∈ line, Hex.isDigit c ∨ c ∈ r.letters := by
  have haddr : ∀ addr : UInt64, ∀ c ∈ addrText addr, isDigit c :=
    fun _ _ hc => isDigit_of_mem_addrText hc
  cases r with
  | comp addr type val1 val2 size imm =>
    obtain ⟨⟨sizeText, digits, mask⟩, hformat, htext⟩ := map_eq_some_iff.1 h
    obtain ⟨bits, rfl, -, hdecimal, -⟩ := compFormat_spec hformat
    have hpadded : ∀ n, ∀ c ∈ padded upper digits n, isDigit c :=
      fun _ _ hc => isDigit_of_mem_padded writes_upper hc
    have hbits : ∀ c ∈ bits, isDigit c := fun c hc => isDigit_of_isDecimal (hdecimal c hc)
    refine ⟨_, htext.symm, ?_⟩
    simp only [forall_mem_append, and_assoc]
    refine ⟨fun c hc => Or.inl (haddr addr c hc), ?_, ?_, ?_, fun c hc => Or.inl (hbits c hc), ?_,
      fun c hc => Or.inl (hpadded _ c hc), ?_, fun c hc => Or.inl (hpadded _ c hc), ?_⟩
    · simp [letters]
    · intro c hc
      simp [letters, hc]
    · simp [letters]
    · simp [letters]
    · simp [letters]
    · cases imm <;> simp [letters]
  | strcmp rip buf1 buf2 =>
    have hbuf : ∀ buf, ∀ c ∈ encode upper buf, isDigit c :=
      fun _ _ hc => isDigit_of_mem_encode writes_upper hc
    have hbits : ∀ c ∈ Nat.toDigits 10 (redqueenMaxStrcmpLen * 8), isDigit c :=
      all_eq_true.1 (by decide)
    refine ⟨_, (some.inj h).symm, ?_⟩
    simp only [forall_mem_append, and_assoc]
    refine ⟨fun c hc => Or.inl (haddr rip c hc), ?_, fun c hc => Or.inl (hbits c hc), ?_,
      fun c hc => Or.inl (hbuf _ c hc), ?_, fun c hc => Or.inl (hbuf _ c hc)⟩
    · simp [letters]
    · simp [letters]
    · simp [letters]

theorem lines_write (h : r.write = some text) :
    ∃ line, text = line ++ ['\n'] ∧ (∀ c ∈ line, c ≠ '\n' ∧ c ≠ '\r') ∧
      ∀ c ∈ line, Hex.isDigit c ∨ c ∈ r.letters := by
  obtain ⟨line, htext, hline⟩ := write_eq_line h
  refine ⟨line, htext, ?_, hline⟩
  have hletters : '\n' ∉ r.letters ∧ '\r' ∉ r.letters := by
    cases r with
    | comp _ type _ _ _ imm => cases type <;> cases imm <;> simp [letters, CompType.name]
    | strcmp => simp [letters]
  intro c hc
  constructor
  · rintro rfl
    rcases hline _ hc with hdigit | hletter
    · revert hdigit
      decide
    · exact hletters.1 hletter
  · rintro rfl
    rcases hline _ hc with hdigit | hletter
    · revert hdigit
      decide
    · exact hletters.2 hletter

theorem new_line (hr : r.WellFormed) (h : r.write = some text) :
    ∃ line, text = line ++ ['\n'] ∧ (∀ c ∈ line, c ≠ '\n' ∧ c ≠ '\r') ∧
      RedqueenEvent.new line = r.event?.elim (.error (.couldntParse line)) .ok := by
  obtain ⟨line, htext, hend, hline⟩ := lines_write h
  refine ⟨line, htext, hend, ?_⟩
  cases htype : r.bpType? with
  | some type =>
    obtain ⟨gap, bits, heq, hparts⟩ := write_eq_logLine hr htype h
    have hform := append_cancel_right (htext.symm.trans heq)
    rw [event?, htype, hform, RedqueenEvent.new_logLine hparts (read_addrText r.addr)
      (decode_encode writes_upper _) (decode_encode writes_upper _)]
    rfl
  | none =>
    rw [event?, htype]
    apply RedqueenEvent.new_eq_error
    -- the letters of a `lea` are those of its name, as it has no flag
    have hletters : ∀ c ∈ r.letters, c ≠ 'M' ∧ c ≠ 'U' ∧ c ≠ 'T' := by
      cases r with
      | comp _ type _ _ _ imm =>
        cases type with
        | cmp | sub => cases htype
        | lea =>
          have himm : imm = false := hr rfl
          simp [letters, CompType.name, himm]
      | strcmp => cases htype
    intro c hc
    rcases hline c hc with hdigit | hletter
    · refine ⟨?_, ?_, ?_⟩ <;> (rintro rfl; revert hdigit; decide)
    · exact hletters c hletter

theorem recoveredBy_of_event? {e : RedqueenEvent} (hr : r.WellFormed) (h : r.event? = some e) :
    r.RecoveredBy e := by
  obtain ⟨type, -, rfl⟩ := map_eq_some_iff.1 h
  exact ⟨rfl, rfl, rfl, length_lhs hr, rfl⟩

end Report

/-! ## The log of a run -/

structure HookStop where
  cpu : HookCpu
  ins : CsInsn

def HookStop.reports (stop : HookStop) : Option (List Report) :=
  stop.cpu.handleHookRedqueenLight stop.ins

def hookReports (stops : List HookStop) : Option (List Report) :=
  (stops.mapM HookStop.reports).map List.flatten

/-- `redqueen_results.txt` after a run. -/
def redqueenResults (stops : List HookStop) : Option (List Char) := do
  let reports ← hookReports stops
  let texts ← reports.mapM Report.write
  some texts.flatten

variable {stops : List HookStop}

theorem hookReports_cons {stop : HookStop} {rs : List Report}
    (h : hookReports (stop :: stops) = some rs) :
    ∃ first rest, stop.reports = some first ∧ hookReports stops = some rest ∧
      rs = first ++ rest := by
  simp only [hookReports, mapM_cons, bind_eq_bind, map_eq_some_iff,
    Option.bind_eq_some_iff, Option.pure_def, Option.some.injEq] at h
  obtain ⟨_, ⟨first, hfirst, rest, hrest, rfl⟩, rfl⟩ := h
  exact ⟨first, rest.flatten, hfirst, by rw [hookReports, hrest, Option.map_some], rfl⟩

theorem mem_hookReports {rs : List Report} (h : hookReports stops = some rs) {r : Report} :
    r ∈ rs ↔ ∃ stop ∈ stops, ∃ first ∈ stop.reports, r ∈ first := by
  induction stops generalizing rs with
  | nil =>
    cases h
    simp
  | cons stop stops ih =>
    obtain ⟨first, rest, hfirst, hrest, rfl⟩ := hookReports_cons h
    simp [hfirst, ih hrest]

theorem parseRedqueenData_flatten {rs : List Report} {texts : List (List Char)}
    (hwf : ∀ r ∈ rs, r.WellFormed) (h : rs.mapM Report.write = some texts) :
    (parseRedqueenData texts.flatten).toOption = rs.mapM Report.event? := by
  induction rs generalizing texts with
  | nil =>
    cases h
    rfl
  | cons r rs ih =>
    simp only [List.mapM_cons, Option.bind_eq_bind, Option.bind_eq_some_iff, Option.pure_def,
      Option.some.injEq] at h
    obtain ⟨text, htext, rest, hrest, rfl⟩ := h
    obtain ⟨line, rfl, hend, hnew⟩ := Report.new_line (hwf r List.mem_cons_self) htext
    have ih := ih (fun r hr => hwf r (List.mem_cons_of_mem _ hr)) hrest
    rw [mapM_cons, ← ih, flatten_cons, append_assoc, singleton_append,
      parseRedqueenData, lines_append hend, mapM_cons, hnew]
    cases r.event? with
    | none => rfl
    | some e =>
      simp only [parseRedqueenData, elim_some]
      cases (lines rest.flatten).mapM RedqueenEvent.new <;> rfl

/-- **The log of a run is read back** exactly if none of its reports is of a `lea`. -/
theorem redqueenResults_recovered_iff {rs : List Report} {log : List Char}
    (hrs : hookReports stops = some rs) (hlog : redqueenResults stops = some log) :
    (∃ es, parseRedqueenData log = .ok es ∧ Forall₂ Report.RecoveredBy rs es) ↔
      ∀ stop ∈ stops, stop.ins.id = .lea → ∀ first ∈ stop.reports, first = [] := by
  have hwf : ∀ r ∈ rs, r.WellFormed := by
    intro r hr
    obtain ⟨stop, -, first, hfirst, hr⟩ := (mem_hookReports hrs).1 hr
    exact (HookCpu.mem_handleHookRedqueenLight hfirst hr).1
  have hparse : ∀ es, parseRedqueenData log = .ok es ↔ rs.mapM Report.event? = some es := by
    simp only [redqueenResults, hrs, bind_eq_bind, bind_some,
      bind_eq_some_iff, some.injEq] at hlog
    obtain ⟨texts, htexts, rfl⟩ := hlog
    rw [← parseRedqueenData_flatten hwf htexts]
    cases parseRedqueenData texts.flatten <;> simp [Except.toOption]
  have hall := exists_mapM_iff (f := Report.event?) (g := id) (w := id) (R := Report.RecoveredBy)
    (l := rs)
  rw [List.map_id] at hall
  simp only [hparse, hall, id]
  constructor
  · intro h stop hstop hlea first hfirst
    refine eq_nil_iff_forall_not_mem.2 fun r hr => ?_
    obtain ⟨e, he, -⟩ := h r ((mem_hookReports hrs).2 ⟨stop, hstop, first, hfirst, hr⟩)
    rw [Report.event?, (HookCpu.mem_handleHookRedqueenLight hfirst hr).2.2 hlea] at he
    cases he
  · intro h r hr
    obtain ⟨stop, hstop, first, hfirst, hmem⟩ := (mem_hookReports hrs).1 hr
    cases htype : r.bpType? with
    | none =>
      have hlea := (HookCpu.mem_handleHookRedqueenLight hfirst hmem).2.1 htype
      exact absurd (h stop hstop hlea first hfirst) (ne_nil_of_mem hmem)
    | some type =>
      have hevent : r.event? = some ⟨r.addr, type, r.lhs, r.rhs, r.imm⟩ := by
        rw [Report.event?, htype, map_some]
      exact ⟨_, hevent, Report.recoveredBy_of_event? (hwf r hr) hevent⟩

/-- **What a stop writes is read back** exactly if the instruction is no `lea`. -/
theorem write_recovered_iff {cpu : HookCpu} {ins : CsInsn} {rs : List Report} {r : Report}
    {text : List Char} (h : cpu.handleHookRedqueenLight ins = some rs) (hr : r ∈ rs)
    (ht : r.write = some text) :
    (∃ line e, lines text = [line] ∧ RedqueenEvent.new line = .ok e ∧ r.RecoveredBy e) ↔
      ins.id ≠ .lea := by
  obtain ⟨hwf, hlea⟩ := HookCpu.mem_handleHookRedqueenLight h hr
  obtain ⟨line, rfl, hend, hnew⟩ := Report.new_line hwf ht
  have hlines : lines (line ++ ['\n']) = [line] := lines_append hend []
  rw [Ne, ← hlea, hlines]
  constructor
  · rintro ⟨line', e, hline, hok, -⟩ hnone
    cases hline
    rw [hnew, Report.event?, hnone] at hok
    cases hok
  · intro hsome
    obtain ⟨type, htype⟩ := ne_none_iff_exists'.1 hsome
    have hevent : r.event? = some ⟨r.addr, type, r.lhs, r.rhs, r.imm⟩ := by
      rw [Report.event?, htype, map_some]
    refine ⟨line, _, rfl, ?_, Report.recoveredBy_of_event? hwf hevent⟩
    rw [hnew, hevent]
    rfl

def stoppedCpu : HookCpu where
  regs := fun _ => 42
  eip := 0x401000
  segs := fun _ => 0
  memory := fun _ => 0
  isAddrMapped := fun _ => true
  wordWidth := .w64
  mode := .light

/-- `cmp eax, 0x1234` -/
def cmpEax : CsInsn := ⟨.cmp, 0x401000, [.reg (.gpr .rax .low32), .imm 0x1234]⟩

def leaRcx : CsInsn :=
  ⟨.lea, 0x401000,
    [.reg (.gpr .rax .whole), .mem ⟨.invalid, .invalid, .gpr .rcx .whole, 1, -0x1234⟩ 8]⟩

theorem write_recovered_cmpEax :
    stoppedCpu.handleHookRedqueenLight cmpEax = some [.comp 0x401000 .cmp 42 0x1234 32 true] ∧
      ∃ text, (Report.comp 0x401000 .cmp 42 0x1234 32 true).write = some text ∧
        ∃ line e, lines text = [line] ∧ RedqueenEvent.new line = .ok e ∧
          (Report.comp 0x401000 .cmp 42 0x1234 32 true).RecoveredBy e := by
  have h : stoppedCpu.handleHookRedqueenLight cmpEax =
      some [.comp 0x401000 .cmp 42 0x1234 32 true] := by decide
  exact ⟨h, _, rfl, (write_recovered_iff h mem_cons_self rfl).2 (by decide)⟩

theorem lea_line_refused :
    leaRcx.opcodeAnalyzer = some true ∧
      stoppedCpu.handleHookRedqueenLight leaRcx =
        some [.comp 0x401000 .lea 42 0x1234 64 false] ∧
      ∃ text line, (Report.comp 0x401000 .lea 42 0x1234 64 false).write = some text ∧
        lines text = [line] ∧ RedqueenEvent.new line = .error (.couldntParse line) := by
  refine ⟨by decide, by decide, ?_⟩
  obtain ⟨line, htext, hend, hnew⟩ :=
    Report.new_line (r := .comp 0x401000 .lea 42 0x1234 64 false) (fun _ => rfl) rfl
  exact ⟨line ++ ['\n'], line, congrArg some htext, lines_append hend [], hnew⟩

/-- Two stops at `cmpEax`, with other values. -/
def cmpTwice : List HookStop :=
  [⟨stoppedCpu, cmpEax⟩, ⟨{ stoppedCpu with regs := fun _ => 7 }, cmpEax⟩]

theorem redqueenResults_recovered_cmpEax :
    ∃ log es, redqueenResults cmpTwice = some log ∧ parseRedqueenData log = .ok es ∧
      Forall₂ Report.RecoveredBy
        [.comp 0x401000 .cmp 42 0x1234 32 true, .comp 0x401000 .cmp 7 0x1234 32 true] es := by
  have h : hookReports cmpTwice = some
      [.comp 0x401000 .cmp 42 0x1234 32 true, .comp 0x401000 .cmp 7 0x1234 32 true] := by decide
  obtain ⟨es, hes⟩ := (redqueenResults_recovered_iff h rfl).2 (by simp [cmpTwice, cmpEax])
  exact ⟨_, es, rfl, hes⟩

end FuzzSocketCan.Qemu
