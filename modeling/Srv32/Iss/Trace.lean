import Srv32.Iss.Dest
import Srv32.Trace

/-! What `srv32_step` writes to `trace.log` (`TIME_LOG`, `TRACE_LOG`). -/

namespace Srv32.Iss

open Trace (Effect LogEntry)

attribute [local irreducible] String.toList

namespace Rv

variable (cfg : Config) (rv : Rv) (inst : Word)

/-- `TIME_LOG`, the pc and the word; the counter's low half is an `int`. -/
def logHead : List Char := Trace.head rv.csr.cycle.lo.toInt rv.pc inst

/-- The register field, with the value read back. -/
def logRd : List Char := (Effect.reg (rd inst) (rv.readRegs cfg (rd inst))).text

/-- The arms that log after they wrote `rd`. -/
def logWritten (flow : Flow) : List Char :=
  match flow with
  | .brk rv => rv.logHead inst ++ rv.logRd cfg inst
  | .ret _ _ => []

/-- The end of JAL and JALR. -/
def logJump (compressed : Bool) (target : Word) : List Char :=
  let target := target &&& ~~~1#32
  if !cfg.rv32c ∧ target &&& 3#32 ≠ 0#32 then Effect.quiet.text
  else (rv.writeRegs cfg (rd inst) (rv.linkPc compressed)).logRd cfg inst

def logJal (compressed : Bool) : List Char :=
  let pcOff := immJ inst
  rv.logHead inst ++ if pcOff = 0#32 then [] else rv.logJump cfg inst compressed (rv.pc + pcOff)

def logJalr (compressed : Bool) : List Char :=
  let pcNew := rv.readRegs cfg (rs1 inst) + immI inst
  rv.logHead inst ++
    if pcNew = rv.pc then Effect.quiet.text else rv.logJump cfg inst compressed pcNew

def logLoad (host : Host) : List Char :=
  let address := rv.readRegs cfg (rs1 inst) + immI inst
  let (result, data) := rv.memrwLoad host (func3 inst) address
  rv.logHead inst ++
    if result = trapLdFail then Effect.quiet.text
    else if result = trapLdAlign then Effect.quiet.text
    else if result = trapInstIll then (Effect.read address (rd inst) 0#32).text
    else (Effect.read address (rd inst)
      ((rv.writeRegs cfg (rd inst) data).readRegs cfg (rd inst))).text

/-- What `memrw` logs itself: the stores that end the run. -/
def logMemrw (op : BitVec 3) (address data : Word) : List Char :=
  match storeLen op address with
  | .error _ => []
  | .ok len =>
    if rv.memOk address len then []
    else if address = mmioExit then (Effect.write address (data &&& storeMask op)).text
    else if address = mmioTohost then
      let htifMem := match rv.readMem data 4#32 with
        | some b => wordOfBytes b
        | none => 0#32
      if htifMem = sysExit then (Effect.write address (data &&& storeMask op)).text else []
    else []

def logStore (host : Host) : List Char :=
  let address := rv.readRegs cfg (rs1 inst) + immS inst
  let data := rv.readRegs cfg (rs2 inst)
  rv.logHead inst ++ rv.logMemrw (func3 inst) address data ++
    match (rv.memrwStore host (func3 inst) address data).1 with
    | .code result =>
      if result = trapStFail then Effect.quiet.text
      else if result = trapStAlign then Effect.quiet.text
      else if result = trapInstIll then Effect.quiet.text
      else (Effect.write address (data &&& storeMask (func3 inst))).text
    | _ => []

def logCsr : List Char :=
  match rv.csrOperand cfg inst with
  | none => rv.logHead inst ++ Effect.quiet.text
  | some (mode, val, update) =>
    match rv.csr.rw (imm12 inst) mode val update with
    | (result, true, csr) =>
      logWritten cfg inst (.brk ({ rv with csr := csr }.writeRegs cfg (rd inst) result))
    | (_, false, csr) => { rv with csr := csr }.logHead inst ++ Effect.quiet.text

def logSystem : List Char :=
  if func3 inst = opEcall then rv.logHead inst ++ Effect.quiet.text else rv.logCsr cfg inst

/-- What the arm of `inst.r.op` logs. -/
def log (host : Host) (compressed : Bool) : List Char :=
  if opcode inst = opAuipc then logWritten cfg inst (rv.execAuipc cfg inst)
  else if opcode inst = opLui then logWritten cfg inst (rv.execLui cfg inst)
  else if opcode inst = opJal then rv.logJal cfg inst compressed
  else if opcode inst = opJalr then rv.logJalr cfg inst compressed
  else if opcode inst = opBranch then rv.logHead inst ++ Effect.quiet.text
  else if opcode inst = opLoad then rv.logLoad cfg inst host
  else if opcode inst = opStore then rv.logStore cfg inst host
  else if opcode inst = opArithI then
    logWritten cfg inst (rv.writeRd cfg inst (rv.arithI cfg inst))
  else if opcode inst = opArithR then
    logWritten cfg inst (rv.writeRd cfg inst (rv.arithR cfg inst))
  else if opcode inst = opFence then rv.logHead inst ++ Effect.quiet.text
  else if opcode inst = opSystem then rv.logSystem cfg inst
  else rv.logHead inst ++ Effect.quiet.text

end Rv

/-- What `srv32_step` appends to the log. -/
def stepLog (cfg : Config) (host : Host) (rv : Rv) : List Char :=
  let (rv', inst) := rv.prologue cfg host
  if cfg.rv32c then
    match rv'.expand ((rv.settle cfg).fetchC host) inst with
    | .error _ => []
    | .ok (rv', inst, compressed) => rv'.log cfg inst host compressed
  else rv'.log cfg inst host false

def runLog (cfg : Config) (host : ℕ → Host) (rv : Rv) (n : ℕ) : List Char :=
  (List.range n).flatMap fun j => stepLog cfg (host j) (run cfg host rv j)

namespace Rv

/-! The default build: the log line by line. -/

section

variable (rv : Rv) (inst : Word) (host : Host)

/-- What a jump to `target` shows. -/
def jumpEffect (target : Word) : Effect :=
  if target &&& ~~~1#32 &&& 3#32 ≠ 0#32 then .quiet else .reg (rd inst) (rv.pc + 4#32)

def loadEffect : Effect :=
  let (result, data) := rv.memrwLoad host (func3 inst) (rv.regs (rs1 inst) + immI inst)
  if result = trapLdFail ∨ result = trapLdAlign then .quiet
  else .read (rv.regs (rs1 inst) + immI inst) (rd inst) (if result = trapInstIll then 0#32 else data)

def storeEffect : Option Effect :=
  match (rv.memrwStore host (func3 inst) (rv.regs (rs1 inst) + immS inst)
      (rv.regs (rs2 inst))).1 with
  | .code result =>
    if result = trapStFail ∨ result = trapStAlign ∨ result = trapInstIll then some .quiet
    else some (.write (rv.regs (rs1 inst) + immS inst)
      (rv.regs (rs2 inst) &&& storeMask (func3 inst)))
  | _ => none

def csrEffect : Effect :=
  match rv.csrOperand .rv32im inst with
  | none => .quiet
  | some (mode, val, update) =>
    if (rv.csr.rw (imm12 inst) mode val update).2.1 then
      .reg (rd inst) (rv.csr.rw (imm12 inst) mode val update).1
    else .quiet

/-- What the line of an instruction shows; an instruction of the arithmetic arms that traps has no
line. -/
def effect : Option Effect :=
  if opcode inst = opAuipc then some (.reg (rd inst) (rv.pc + immU inst))
  else if opcode inst = opLui then some (.reg (rd inst) (immU inst))
  else if opcode inst = opJal then some (rv.jumpEffect inst (rv.pc + immJ inst))
  else if opcode inst = opJalr then
    some (if rv.regs (rs1 inst) + immI inst = rv.pc then .quiet
      else rv.jumpEffect inst (rv.regs (rs1 inst) + immI inst))
  else if opcode inst = opLoad then some (rv.loadEffect inst host)
  else if opcode inst = opStore then rv.storeEffect inst host
  else if opcode inst = opArithI then (rv.arithI .rv32im inst).map (.reg (rd inst))
  else if opcode inst = opArithR then (rv.arithR .rv32im inst).map (.reg (rd inst))
  else if opcode inst = opSystem ∧ func3 inst ≠ opEcall then some (rv.csrEffect inst)
  else some .quiet

def entry : Option LogEntry :=
  (rv.effect inst host).map fun e => ⟨rv.csr.cycle.lo.toInt, rv.pc, inst, e⟩

/-- The instruction writes its line and no more. JAL to itself leaves its line open, and a store
that ends the run has a line from `memrw` too. -/
structure LogsLine : Prop where
  jal : opcode inst = opJal → immJ inst ≠ 0#32
  store : opcode inst = opStore →
    rv.logMemrw (func3 inst) (rv.regs (rs1 inst) + immS inst) (rv.regs (rs2 inst)) = [] ∧
    ∃ v, (rv.memrwStore host (func3 inst) (rv.regs (rs1 inst) + immS inst)
      (rv.regs (rs2 inst))).1 = .code v

end

variable {rv : Rv} {inst : Word} {host : Host}

theorem logWritten_writeRd (v : Option Word) :
    logWritten .rv32im inst (rv.writeRd .rv32im inst v) =
      ((v.map (Effect.reg (rd inst))).map fun e =>
        LogEntry.line ⟨rv.csr.cycle.lo.toInt, rv.pc, inst, e⟩).getD [] := by
  cases v with
  | none => rfl
  | some v =>
    simp only [writeRd, logWritten, logRd, readRegs_rv32im, writeRegs_rv32im, Function.update_self,
      Option.map_some, Option.getD_some]
    rfl

theorem logJump_eq (target : Word) :
    rv.logJump .rv32im inst false target = (rv.jumpEffect inst target).text := by
  simp only [logJump, jumpEffect, Config.rv32im_rv32c, Bool.not_false, true_and]
  split
  · rfl
  · simp only [logRd, readRegs_rv32im, writeRegs_rv32im, Function.update_self]
    rfl

theorem logLoad_eq : rv.logLoad .rv32im inst host =
    rv.logHead inst ++ (rv.loadEffect inst host).text := by
  simp only [logLoad, loadEffect, readRegs_rv32im, writeRegs_rv32im, Function.update_self]
  congr 1
  by_cases h1 : (rv.memrwLoad host (func3 inst) (rv.regs (rs1 inst) + immI inst)).1 = trapLdFail
  · rw [if_pos h1, if_pos (Or.inl h1)]
  by_cases h2 : (rv.memrwLoad host (func3 inst) (rv.regs (rs1 inst) + immI inst)).1 = trapLdAlign
  · rw [if_neg h1, if_pos h2, if_pos (Or.inr h2)]
  rw [if_neg h1, if_neg h2, if_neg (not_or.mpr ⟨h1, h2⟩)]
  split <;> rfl

theorem logStore_eq (h : LogsLine rv inst host) (ho : opcode inst = opStore) :
    rv.logStore .rv32im inst host =
      ((rv.storeEffect inst host).map fun e => rv.logHead inst ++ e.text).getD [] := by
  obtain ⟨hm, v, hv⟩ := h.store ho
  simp only [logStore, storeEffect, readRegs_rv32im, hm, hv, List.append_nil]
  by_cases h1 : v = trapStFail
  · simp [h1]
  by_cases h2 : v = trapStAlign
  · simp [h2]
  by_cases h3 : v = trapInstIll
  · simp [h3]
  rw [if_neg h1, if_neg h2, if_neg h3, if_neg (by simp [h1, h2, h3])]
  rfl

theorem logCsr_eq : rv.logCsr .rv32im inst = rv.logHead inst ++ (rv.csrEffect inst).text := by
  unfold logCsr csrEffect
  cases rv.csrOperand .rv32im inst with
  | none => rfl
  | some op =>
    obtain ⟨mode, val, update⟩ := op
    simp only
    have hacc := Csr.rw_accessed rv.csr (imm12 inst) mode val update
    rcases hr : rv.csr.rw (imm12 inst) mode val update with ⟨result, legal, csr⟩
    rw [hr] at hacc
    -- `csr_rw` keeps the counter
    have hcycle : csr.cycle = rv.csr.cycle := by
      rcases hacc with ⟨-, _, _, _, _, _, _, _, _, _, _, hc⟩ | ⟨-, hc⟩
      · have := congrArg Csr.cycle hc
        exact this
      · have := congrArg Csr.cycle hc
        exact this
    have hhead : ({ rv with csr := csr } : Rv).logHead inst = rv.logHead inst := by
      rw [logHead, logHead, hcycle]
    cases legal with
    | false =>
      simp only [Bool.false_eq_true, if_false]
      rw [hhead]
    | true =>
      simp only [if_true]
      rw [← hhead]
      simp only [logWritten, logRd, readRegs_rv32im, writeRegs_rv32im, Function.update_self]
      rfl

theorem log_eq (h : LogsLine rv inst host) :
    rv.log .rv32im inst host false = ((rv.entry inst host).map LogEntry.line).getD [] := by
  unfold log entry effect
  by_cases h1 : opcode inst = opAuipc
  · rw [if_pos h1, if_pos h1]
    exact logWritten_writeRd (some _)
  by_cases h2 : opcode inst = opLui
  · rw [if_neg h1, if_pos h2, if_neg h1, if_pos h2]
    exact logWritten_writeRd (some _)
  by_cases h3 : opcode inst = opJal
  · rw [if_neg h1, if_neg h2, if_pos h3, if_neg h1, if_neg h2, if_pos h3, logJal,
      if_neg (h.jal h3), logJump_eq]
    rfl
  by_cases h4 : opcode inst = opJalr
  · rw [if_neg h1, if_neg h2, if_neg h3, if_pos h4, if_neg h1, if_neg h2, if_neg h3, if_pos h4,
      logJalr, readRegs_rv32im, logJump_eq]
    by_cases he : rv.regs (rs1 inst) + immI inst = rv.pc
    · rw [if_pos he, if_pos he]
      rfl
    · rw [if_neg he, if_neg he]
      rfl
  by_cases h5 : opcode inst = opBranch
  · simp only [h5]
    rfl
  by_cases h6 : opcode inst = opLoad
  · simp only [h6, logLoad_eq]
    rfl
  by_cases h7 : opcode inst = opStore
  · simp only [h7, logStore_eq h h7]
    cases rv.storeEffect inst host with
    | none => rfl
    | some e => rfl
  by_cases h8 : opcode inst = opArithI
  · simp only [h8, logWritten_writeRd]
    cases rv.arithI .rv32im inst with
    | none => rfl
    | some v => rfl
  by_cases h9 : opcode inst = opArithR
  · simp only [h9, logWritten_writeRd]
    cases rv.arithR .rv32im inst with
    | none => rfl
    | some v => rfl
  rw [if_neg h1, if_neg h2, if_neg h3, if_neg h4, if_neg h5, if_neg h6, if_neg h7, if_neg h8,
    if_neg h9, if_neg h1, if_neg h2, if_neg h3, if_neg h4, if_neg h6, if_neg h7, if_neg h8,
    if_neg h9]
  by_cases h10 : opcode inst = opSystem
  · rw [if_neg (by rw [h10]; decide), if_pos h10, logSystem]
    by_cases h0 : func3 inst = opEcall
    · rw [if_pos h0, if_neg fun hc => hc.2 h0]
      rfl
    · rw [if_neg h0, if_pos ⟨h10, h0⟩, logCsr_eq]
      rfl
  · rw [if_neg h10, ite_self, if_neg fun hc => h10 hc.1]
    rfl

/-! The registers a log leaves. -/

/-- A system call leaves `a0` as it is. -/
def QuietCall (rv : Rv) (inst : Word) (host : Host) : Prop :=
  reachesEcall inst → ∀ res,
    (rv.syscall host (rv.regs regA7) (rv.regs regA0) (rv.regs regA1) (rv.regs regA2)).1 = .ok res →
      res = -1#32 ∨ res = rv.regs regA0

variable {r : BitVec 5}

theorem rv32im_regnum (r : BitVec 5) : r.toNat < Config.regnum .rv32im := r.isLt

theorem execEcall_quiet (hi : reachesEcall inst) (hq : rv.QuietCall inst host) :
    (rv.execNext .rv32im inst host false).2.regs r = rv.regs r := by
  obtain ⟨ho, hf, hk⟩ := hi
  have hs : (rv.syscall host (rv.regs regA7) (rv.regs regA0) (rv.regs regA1)
    (rv.regs regA2)).2.regs = rv.regs := syscall_regs _ _ _ _
  have hq' := hq ⟨ho, hf, hk⟩
  have he : rv.exec .rv32im inst host false = rv.execEcall .rv32im host := by
    simp [exec, ho, execSystem, hf, execEnv, hk]
  have hsys : Config.sys .rv32im = regA7 := rfl
  rw [execNext, he, execEcall, readRegs_rv32im, readRegs_rv32im, readRegs_rv32im,
    readRegs_rv32im, hsys]
  generalize rv.syscall host (rv.regs regA7) (rv.regs regA0) (rv.regs regA1) (rv.regs regA2) = m
    at hs hq'
  obtain ⟨res | res, s⟩ := m
  · exact congrFun hs r
  · simp only at hs hq' ⊢
    change (if res ≠ -1#32 then s.writeRegs .rv32im regA0 res else s).regs r = rv.regs r
    rcases hq' res rfl with rfl | rfl
    · rw [if_neg (by simp), hs]
    · split_ifs
      · rw [writeRegs_rv32im]
        change Function.update s.regs regA0 (rv.regs regA0) r = _
        rw [hs, Function.update_eq_self]
      · rw [hs]

/-- The widths that do not exist can be told from the word. -/
theorem memrwLoad_ill (a : Word) :
    (rv.memrwLoad host (func3 inst) a).1 = trapInstIll ↔ Trace.loads inst = false := by
  have hill : Trace.loads inst = false ↔ loadBytes (func3 inst) = none := by
    simp only [Trace.loads, loadBytes]
    rcases Bits.cases3 (func3 inst) with h | h | h | h | h | h | h | h <;> rw [h] <;> decide
  have h0 : (0#32 : Word) ≠ trapInstIll := by decide
  have hf : trapLdFail ≠ trapInstIll := by decide
  have ha : trapLdAlign ≠ trapInstIll := by decide
  rw [hill, memrwLoad, loadLen_eq]
  cases loadBytes (func3 inst) with
  | none => exact iff_of_true rfl rfl
  | some n =>
    simp only [reduceCtorEq, iff_false]
    split_ifs
    · simp only
      cases rv.readMem a (BitVec.ofNat 32 n) with
      | some b => exact h0
      | none =>
        cases rv.loadDevice host a with
        | some v => exact h0
        | none => exact hf
    · exact ha

theorem dest_jump (t : ℤ) (p : Word) :
    LogEntry.dest ⟨t, rv.pc, inst, rv.jumpEffect inst p⟩ =
      (rv.linkRdValue .rv32im false p).map fun v => (rd inst, v) := by
  simp only [jumpEffect, linkRdValue, Config.rv32im_rv32c, Bool.not_false, true_and]
  by_cases h : (p &&& ~~~1#32) &&& 3#32 ≠ 0#32
  · rw [if_pos h, if_pos h]
    rfl
  · rw [if_neg h, if_neg h]
    rfl

theorem dest_load (t : ℤ) :
    LogEntry.dest ⟨t, rv.pc, inst, rv.loadEffect inst host⟩ =
      (rv.loadRdValue .rv32im inst host).map fun v => (rd inst, v) := by
  have hill : (rv.memrwLoad host (func3 inst) (rv.regs (rs1 inst) + immI inst)).1 = trapInstIll ↔
      Trace.loads inst = false := memrwLoad_ill _
  simp only [loadEffect, loadRdValue, readRegs_rv32im]
  generalize rv.memrwLoad host (func3 inst) (rv.regs (rs1 inst) + immI inst) = m at hill
  by_cases h1 : m.1 = trapLdFail ∨ m.1 = trapLdAlign
  · have h2 : m.1 = trapLdFail ∨ m.1 = trapLdAlign ∨ m.1 = trapInstIll := by tauto
    rw [if_pos h1, if_pos h2]
    rfl
  rw [if_neg h1, LogEntry.dest]
  by_cases h3 : m.1 = trapInstIll
  · have h2 : m.1 = trapLdFail ∨ m.1 = trapLdAlign ∨ m.1 = trapInstIll := Or.inr (Or.inr h3)
    simp only [hill.mp h3, Bool.false_eq_true, if_false]
    rw [if_pos h2]
    rfl
  · have h2 : ¬ (m.1 = trapLdFail ∨ m.1 = trapLdAlign ∨ m.1 = trapInstIll) := by tauto
    have hl : Trace.loads inst = true := by simpa using fun hc => h3 (hill.mpr hc)
    simp only [hl, if_true]
    rw [if_neg h2, if_neg h3]
    rfl

theorem dest_store (t : ℤ) :
    ((rv.storeEffect inst host).bind fun e => LogEntry.dest ⟨t, rv.pc, inst, e⟩) = none := by
  unfold storeEffect
  cases (rv.memrwStore host (func3 inst) (rv.regs (rs1 inst) + immS inst)
      (rv.regs (rs2 inst))).1 with
  | code v =>
    simp only
    split_ifs <;> rfl
  | exit v => rfl
  | segv => rfl

theorem dest_csr (t : ℤ) :
    LogEntry.dest ⟨t, rv.pc, inst, rv.csrEffect inst⟩ =
      (rv.csrRdValue .rv32im inst).map fun v => (rd inst, v) := by
  unfold csrEffect csrRdValue
  cases rv.csrOperand .rv32im inst with
  | none => rfl
  | some op =>
    obtain ⟨mode, val, update⟩ := op
    simp only
    split_ifs <;> rfl

/-- The line of an instruction shows what `rd` takes. -/
theorem dest_entry (h : rv.LogsLine inst host) :
    (rv.entry inst host).bind LogEntry.dest =
      (rv.rdValue .rv32im inst host false).map fun v => (rd inst, v) := by
  rw [entry, Option.bind_map]
  unfold effect rdValue
  simp only [Function.comp_def]
  by_cases h1 : opcode inst = opAuipc
  · rw [if_pos h1, if_pos h1]
    rfl
  by_cases h2 : opcode inst = opLui
  · rw [if_neg h1, if_pos h2, if_neg h1, if_pos h2]
    rfl
  by_cases h3 : opcode inst = opJal
  · rw [if_neg h1, if_neg h2, if_pos h3, if_neg h1, if_neg h2, if_pos h3, if_neg (h.jal h3)]
    exact dest_jump _ _
  by_cases h4 : opcode inst = opJalr
  · rw [if_neg h1, if_neg h2, if_neg h3, if_pos h4, if_neg h1, if_neg h2, if_neg h3, if_pos h4,
      readRegs_rv32im]
    by_cases he : rv.regs (rs1 inst) + immI inst = rv.pc
    · rw [if_pos he, if_pos he]
      rfl
    · rw [if_neg he, if_neg he]
      exact dest_jump _ _
  rw [if_neg h1, if_neg h2, if_neg h3, if_neg h4, if_neg h1, if_neg h2, if_neg h3, if_neg h4]
  by_cases h6 : opcode inst = opLoad
  · rw [if_pos h6, if_pos h6]
    exact dest_load _
  by_cases h7 : opcode inst = opStore
  · have h89 : opcode inst ≠ opArithI ∧ opcode inst ≠ opArithR ∧ ¬ isCsrWord inst := by
      refine ⟨by rw [h7]; decide, by rw [h7]; decide, fun hc => ?_⟩
      exact absurd (h7.symm.trans hc.1) (by decide)
    rw [if_neg h6, if_pos h7, if_neg h6, if_neg h89.1, if_neg h89.2.1, if_neg h89.2.2]
    exact dest_store _
  rw [if_neg h6, if_neg h7, if_neg h6]
  by_cases h8 : opcode inst = opArithI
  · rw [if_pos h8, if_pos h8, Option.bind_map]
    cases rv.arithI .rv32im inst <;> rfl
  by_cases h9 : opcode inst = opArithR
  · rw [if_neg h8, if_pos h9, if_neg h8, if_pos h9, Option.bind_map]
    cases rv.arithR .rv32im inst <;> rfl
  rw [if_neg h8, if_neg h9, if_neg h8, if_neg h9]
  by_cases hc : isCsrWord inst
  · rw [if_pos (show opcode inst = opSystem ∧ func3 inst ≠ opEcall from hc), if_pos hc]
    exact dest_csr _
  · rw [if_neg (show ¬ (opcode inst = opSystem ∧ func3 inst ≠ opEcall) from hc), if_neg hc]
    rfl

theorem entry_regs (h : rv.LogsLine inst host) (hq : rv.QuietCall inst host) (hr : r ≠ 0#5) :
    (rv.execNext .rv32im inst host false).2.regs r =
      Trace.registers (rv.entry inst host).toList rv.regs r := by
  have hdest := dest_entry h
  have hreg : (rv.execNext .rv32im inst host false).2.regs r =
      if rd inst = r then (rv.rdValue .rv32im inst host false).getD (rv.regs r) else rv.regs r := by
    by_cases hi : reachesEcall inst ∧ r = regA0
    · have hno : rv.rdValue .rv32im inst host false = none := by
        have hcsr : ¬ isCsrWord inst := fun hc => hc.2 hi.1.2.1
        rw [rdValue, if_neg hcsr, hi.1.1]
        rfl
      rw [execEcall_quiet hi.1 hq, hno]
      exact (ite_self _).symm
    · exact execNext_reg host false (rv32im_regnum r) fun hc he => hi ⟨hc, he⟩
  rw [hreg]
  cases he : rv.entry inst host with
  | none =>
    rw [he] at hdest
    have hno : rv.rdValue .rv32im inst host false = none := by
      cases hv : rv.rdValue .rv32im inst host false with
      | none => rfl
      | some v =>
        rw [hv] at hdest
        cases hdest
    rw [hno]
    exact ite_self _
  | some e =>
    rw [he] at hdest
    change _ = e.regs rv.regs r
    change e.dest = _ at hdest
    cases hv : rv.rdValue .rv32im inst host false with
    | none =>
      rw [hv] at hdest
      rw [LogEntry.regs_none hdest]
      exact ite_self _
    | some v =>
      rw [hv] at hdest
      rw [LogEntry.regs_some hdest hr]
      rfl

end Rv

/-! Whole runs. -/

def entries (host : ℕ → Host) (rv : Rv) (n : ℕ) : List LogEntry :=
  (List.range n).flatMap fun j =>
    ((atSwitch .rv32im host rv j).1.entry (atSwitch .rv32im host rv j).2 (host j)).toList

variable {host : ℕ → Host} {rv : Rv} {n : ℕ}

theorem runLog_eq (h : ∀ j < n,
    (atSwitch .rv32im host rv j).1.LogsLine (atSwitch .rv32im host rv j).2 (host j)) :
    runLog .rv32im host rv n = (entries host rv n).flatMap LogEntry.line := by
  rw [runLog, entries, List.flatMap_assoc]
  refine List.flatMap_congr fun j hj => ?_
  change (atSwitch .rv32im host rv j).1.log .rv32im (atSwitch .rv32im host rv j).2 (host j) false = _
  rw [Rv.log_eq (h j (List.mem_range.mp hj))]
  cases (atSwitch .rv32im host rv j).1.entry (atSwitch .rv32im host rv j).2 (host j) with
  | none => rfl
  | some e => simp

theorem run_regs (h : ∀ j < n,
      (atSwitch .rv32im host rv j).1.LogsLine (atSwitch .rv32im host rv j).2 (host j))
    (hq : ∀ j < n,
      (atSwitch .rv32im host rv j).1.QuietCall (atSwitch .rv32im host rv j).2 (host j))
    {r : BitVec 5} (hr : r ≠ 0#5) :
    (run .rv32im host rv n).regs r = Trace.registers (entries host rv n) rv.regs r := by
  induction n generalizing r with
  | zero => rfl
  | succ n ih =>
    have hstep : (run .rv32im host rv (n + 1)).regs r = _ :=
      Rv.entry_regs (h n (by omega)) (hq n (by omega)) hr
    have hprev : ∀ r, r ≠ 0#5 → (atSwitch .rv32im host rv n).1.regs r =
        Trace.registers (entries host rv n) rv.regs r := by
      intro r hr
      rw [← ih (fun j hj => h j (by omega)) (fun j hj => hq j (by omega)) hr]
      change ((run .rv32im host rv n).settle .rv32im).regs r = _
      rw [Rv.settle_regs, Function.update_of_ne hr]
    rw [entries, List.range_succ, List.flatMap_append, List.flatMap_singleton,
      Trace.registers_append, hstep]
    exact Trace.registers_congr _ hprev r hr

end Srv32.Iss
