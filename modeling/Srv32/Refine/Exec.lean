import Srv32.Iss.Settle
import Srv32.Rtl.ControlFlow

/-! One instruction in both models: a slot of stage 2 against the simulator at its opcode switch. -/

namespace Srv32.Refine

open Iss (Rv Host Config Flow Ret rvOkay)
open Rtl (Slot)

/-- Which registers that start out, or drift, apart are known to be equal: the counters,
`mscratch`, `mepc` and `mtval`. -/
structure Known where
  counters : Bool
  mscratch : Bool
  mepc : Bool
  mtval : Bool

/-- All of them. -/
def Known.all : Known := ⟨true, true, true, true⟩

/-- The CSRs of the core and of the simulator agree. -/
structure SameCsr (k : Known) (c : Rtl.Csr) (d : Iss.Csr) : Prop where
  mvendorid : d.mvendorid = mvendorid
  marchid : d.marchid = marchid
  mimpid : d.mimpid = mimpid
  mhartid : d.mhartid = mhartid
  mstatus : c.mstatus = d.mstatus
  mstatush : c.mstatush = d.mstatush
  misa : c.misa = d.misa
  mie : c.mie = d.mie
  mip : c.mip = d.mip
  mtvec : c.mtvec = d.mtvec
  mcause : c.mcause = d.mcause
  mscratch : k.mscratch = true → c.mscratch = d.mscratch
  mepc : k.mepc = true → c.mepc = d.mepc
  mtval : k.mtval = true → c.mtval = d.mtval

/-- A slot reads what the simulator has when it comes to the opcode switch with `inst`. The
simulator has counted the instruction by then, the core has not. -/
structure Matched (k : Known) (x : Slot) (rv : Rv) (inst : Word) : Prop where
  loaded : x.Loaded .rv32im
  insn : x.insn = inst
  pc : x.pc = rv.pc
  prevPc : rv.prevPc = rv.pc
  aligned : rv.pc.toNat % 4 = 0
  src1 : x.regRdata1 = rv.regs (rs1 inst)
  src2 : x.regRdata2 = rv.regs (rs2 inst)
  csr : SameCsr k x.csr rv.csr
  cycle : k.counters = true → x.cycle = rv.csr.cycle - 1#64
  instret : k.counters = true → x.instret = rv.csr.instret - 1#64

/-- The core's view of the simulator's CSRs. -/
def csrView (c : Iss.Csr) : Rtl.Csr :=
  ⟨c.mscratch, c.mstatus, c.mstatush, c.misa, c.mie, c.mip, c.mtvec, c.mepc, c.mcause, c.mtval⟩

/-- The slot that reads what the simulator has at its opcode switch, with no interrupt. -/
def slotOf (rv : Rv) (inst : Word) : Slot where
  ex := Rtl.decode .rv32im inst
  pc := rv.pc
  insn := inst
  mem2reg := opcode inst == opLoad
  fetchPc := rv.pc + 8#32
  regRdata1 := rv.regs (rs1 inst)
  regRdata2 := rv.regs (rs2 inst)
  flush := false
  csr := csrView rv.csr
  cycle := rv.csr.cycle - 1#64
  instret := rv.csr.instret - 1#64
  timerIrq := false
  swIrq := false
  irq := false

theorem matched_slotOf (k : Known) (rv : Rv) (inst : Word) (hp : rv.prevPc = rv.pc)
    (ha : rv.pc.toNat % 4 = 0) (hv : rv.csr.mvendorid = mvendorid)
    (hm : rv.csr.marchid = marchid) (hi : rv.csr.mimpid = mimpid)
    (hh : rv.csr.mhartid = mhartid) : Matched k (slotOf rv inst) rv inst :=
  ⟨⟨rfl, rfl, rfl, rfl⟩, rfl, rfl, hp, ha, rfl, rfl,
    ⟨hv, hm, hi, hh, rfl, rfl, rfl, rfl, rfl, rfl, rfl, fun _ => rfl, fun _ => rfl, fun _ => rfl⟩,
    fun _ => rfl, fun _ => rfl⟩

end Srv32.Refine

/-! The arithmetic of stage 2 in the simulator's terms. -/

namespace Srv32.Rtl.Slot

open Iss Iss.Rv

variable (x : Slot)

theorem branchCond_eq : x.branchCond =
    if x.ex.aluOp = opBeq then some (x.aluOp1 == x.aluOp2)
    else if x.ex.aluOp = opBne then some (x.aluOp1 != x.aluOp2)
    else if x.ex.aluOp = opBlt then some (x.aluOp1.slt x.aluOp2)
    else if x.ex.aluOp = opBge then some (x.aluOp2.sle x.aluOp1)
    else if x.ex.aluOp = opBltu then some (x.aluOp1.ult x.aluOp2)
    else if x.ex.aluOp = opBgeu then some (x.aluOp2.ule x.aluOp1)
    else none := by
  have he : (x.resultSubs == 0#33) = (x.aluOp1 == x.aluOp2) := by
    rw [Bool.eq_iff_iff, beq_iff_eq, beq_iff_eq]
    exact Bits.sub_signExtend_eq_zero _ _
  have hs : x.resultSubs.getLsbD 32 = x.aluOp1.slt x.aluOp2 := Bits.sub_signExtend_msb _ _
  have hu : x.resultSubu.getLsbD 32 = x.aluOp1.ult x.aluOp2 := Bits.sub_setWidth_msb _ _
  rw [branchCond, bne, bne, he, hs, hu, BitVec.sle_eq_not_slt, BitVec.ule_eq_not_ult]

theorem mulResult_eq : x.mulResult .rv32im = arithM x.ex.aluOp x.aluOp1 x.aluOp2 := by
  have hl : x.resultMul.extractLsb' 0 32 = x.aluOp1 * x.aluOp2 := Bits.mul_low _ _
  have hd : x.resultDiv = if x.aluOp2 ≠ 0#32 then quot x.aluOp1 x.aluOp2 else 0xffffffff#32 := by
    rw [resultDiv, quot, Bits.sdiv_wide]
    by_cases h0 : x.aluOp2 = 0#32
    · simp [h0]
    · rw [if_neg h0, if_pos h0]
      split
      · rename_i h
        rw [h.1, h.2]
        decide
      · rfl
  have hr : x.resultRem = if x.aluOp2 ≠ 0#32 then rem x.aluOp1 x.aluOp2 else x.aluOp1 := by
    rw [resultRem, rem, Bits.srem_wide]
    by_cases h0 : x.aluOp2 = 0#32
    · simp [h0]
    · rw [if_neg h0, if_pos h0]
      split
      · rename_i h
        rw [h.1, h.2]
        decide
      · rfl
  have hdu : x.resultDivu = if x.aluOp2 ≠ 0#32 then x.aluOp1 / x.aluOp2 else 0xffffffff#32 := by
    rw [resultDivu]
    split <;> simp [*]
  have hru : x.resultRemu = if x.aluOp2 ≠ 0#32 then x.aluOp1 % x.aluOp2 else x.aluOp1 := by
    rw [resultRemu]
    split <;> simp [*]
  rw [mulResult, hl, hd, hr, hdu, hru]
  rfl

theorem aluResult_eq : x.aluResult =
    if x.ex.subtype = true ∧ x.ex.aluOp = opAdd then x.aluOp1 - x.aluOp2
    else if x.ex.subtype = true ∧ x.ex.aluOp = opSr then sar x.aluOp1 x.aluOp2
    else arithBase x.ex.aluOp x.aluOp1 x.aluOp2 := by
  have hs : x.resultSubs.getLsbD 32 = x.aluOp1.slt x.aluOp2 := Bits.sub_signExtend_msb _ _
  have hu : x.resultSubu.getLsbD 32 = x.aluOp1.ult x.aluOp2 := Bits.sub_setWidth_msb _ _
  have hn : (x.aluOp2.extractLsb' 0 5).toNat = x.aluOp2.toNat % 32 := by
    simp [BitVec.extractLsb'_toNat]
  simp only [aluResult, hs, hu, hn]
  cases x.ex.subtype with
  | false =>
    simp only [Bool.false_eq_true, false_and, if_false]
    rfl
  | true =>
    by_cases h0 : x.ex.aluOp = opAdd
    · simp [h0]
    · by_cases h5 : x.ex.aluOp = opSr
      · simp [h5, sar]
      · simp only [h0, h5, and_false, if_false]
        simp only [arithBase, h0, h5, if_false]
        rfl

end Srv32.Rtl.Slot

namespace Srv32.Refine

open Iss (Rv Host Config Flow Ret rvOkay rvTrap rvExit ofBool immI immS immB immJ immU)
open Rtl (Slot)

/-- The simulator's state after an instruction that neither traps nor touches memory or CSRs. -/
def retire (x : Slot) (rv : Rv) : Rv :=
  { rv with
    pc := if x.branchTaken then x.target else x.pc + 4#32
    regs := if Slot.writesRd x.insn then
        Function.update rv.regs (rd x.insn) (x.result .rv32im)
      else rv.regs }

/-- Words stage 2 executes although they are reserved: they trap in the simulator. -/
def reserved (inst : Word) : Bool :=
  (opcode inst == opArithI &&
    ((func3 inst == opSll && func7 inst != fnRv32i) ||
     (func3 inst == opSr && func7 inst != fnSrl && func7 inst != fnSra))) ||
  (opcode inst == opArithR && func7 inst == fnAndn && func3 inst != opAdd && func3 inst != opSr)

namespace Matched

variable {k : Known} {x : Slot} {rv : Rv} {inst : Word} (host : Host)

theorem ex (h : Matched k x rv inst) : x.ex = Rtl.decode .rv32im inst := by
  rw [h.loaded.decoded, h.insn]

theorem mem2reg (h : Matched k x rv inst) : x.mem2reg = (opcode inst == opLoad) := by
  rw [h.loaded.mem2reg, h.insn]

theorem execNext_auipc (h : Matched k x rv inst) (ho : opcode inst = opAuipc) :
    rv.execNext .rv32im inst host false = (.code rvOkay, retire x rv) := by
  have hr : x.result .rv32im = rv.pc + immU inst := by
    simp [Slot.result, h.ex, Rtl.decode, Rtl.immOf, ho, h.pc, Iss.immU_eq]
  simp [Rv.execNext, Rv.exec, ho, Rv.execAuipc, Rv.linkPc, retire, h.insn, hr, Slot.writesRd,
    Slot.branchTaken, h.ex, Rtl.decode, h.pc]

theorem execNext_lui (h : Matched k x rv inst) (ho : opcode inst = opLui) :
    rv.execNext .rv32im inst host false = (.code rvOkay, retire x rv) := by
  have hr : x.result .rv32im = immU inst := by
    simp [Slot.result, h.ex, Rtl.decode, Rtl.immOf, ho, Iss.immU_eq]
  simp [Rv.execNext, Rv.exec, ho, Rv.execLui, Rv.linkPc, retire, h.insn, hr, Slot.writesRd,
    Slot.branchTaken, h.ex, Rtl.decode, h.pc]

theorem execNext_fence (h : Matched k x rv inst) (ho : opcode inst = opFence) :
    rv.execNext .rv32im inst host false = (.code rvOkay, retire x rv) := by
  simp [Rv.execNext, Rv.exec, ho, Rv.linkPc, retire, h.insn, Slot.writesRd,
    Slot.branchTaken, h.ex, Rtl.decode, h.pc]

theorem aluOp_arithI (h : Matched k x rv inst) (ho : opcode inst = opArithI) :
    x.aluOp1 = rv.regs (rs1 inst) ∧ x.aluOp2 =
      if func3 inst = opSll ∨ func3 inst = opSr then (rs2 inst).setWidth 32 else immI inst := by
  refine ⟨h.src1, ?_⟩
  simp only [Slot.aluOp2, h.ex, Rtl.decode, Rtl.immOf, ho, Iss.immI_eq]
  simp

theorem getLsbD_30 (inst : Word) : inst.getLsbD 30 = (func7 inst).getLsbD 5 := by
  simp [func7]

theorem result_arithI (h : Matched k x rv inst) (ho : opcode inst = opArithI)
    (hr : reserved inst = false) : rv.arithI .rv32im inst = some (x.result .rv32im) := by
  obtain ⟨h1, h2⟩ := h.aluOp_arithI ho
  have hres : x.result .rv32im = x.aluResult := by
    simp [Slot.result, h.ex, Rtl.decode, ho]
  have hop : x.ex.aluOp = func3 inst := by simp [h.ex, Rtl.decode]
  have hsub : x.ex.subtype = ((func7 inst).getLsbD 5 && func3 inst != opAdd) := by
    rw [← getLsbD_30]
    simp [h.ex, Rtl.decode, ho, bne]
  have hr' : (func3 inst = opSll → func7 inst = 0#7) ∧
      (func3 inst = opSr → func7 inst = 0#7 ∨ func7 inst = 0x20#7) := by
    simp only [reserved, ho] at hr
    constructor
    · intro h1
      simpa [h1] using hr
    · intro h5
      simpa [h5, or_iff_not_imp_left] using hr
  rw [hres, Slot.aluResult_eq, hop, hsub, h1, h2]
  rcases Bits.cases3 (func3 inst) with h3 | h3 | h3 | h3 | h3 | h3 | h3 | h3
  · simp [Rv.arithI, h3, Rv.arithBase]
  · simp [Rv.arithI, h3, Rv.arithBase, hr'.1 h3]
  · simp [Rv.arithI, h3, Rv.arithBase]
  · simp [Rv.arithI, h3, Rv.arithBase]
  · simp [Rv.arithI, h3, Rv.arithBase]
  · rcases hr'.2 h3 with h7 | h7 <;> simp [Rv.arithI, h3, Rv.arithBase, h7]
  · simp [Rv.arithI, h3, Rv.arithBase]
  · simp [Rv.arithI, h3, Rv.arithBase]

theorem execNext_arithI (h : Matched k x rv inst) (ho : opcode inst = opArithI)
    (hr : reserved inst = false) :
    rv.execNext .rv32im inst host false = (.code rvOkay, retire x rv) := by
  simp [Rv.execNext, Rv.exec, ho, h.result_arithI ho hr, Rv.writeRd, Rv.linkPc, retire, h.insn,
    Slot.writesRd, Slot.branchTaken, h.ex, Rtl.decode, h.pc]

theorem result_arithR (h : Matched k x rv inst) (ho : opcode inst = opArithR)
    (hl : Rtl.isLegal .rv32im inst = true) (hr : reserved inst = false) :
    rv.arithR .rv32im inst = some (x.result .rv32im) := by
  have h1 : x.aluOp1 = rv.regs (rs1 inst) := h.src1
  have h2 : x.aluOp2 = rv.regs (rs2 inst) := by
    simp [Slot.aluOp2, h.ex, Rtl.decode, ho, h.src2]
  have hop : x.ex.aluOp = func3 inst := by simp [h.ex, Rtl.decode]
  have hsub : x.ex.subtype = (func7 inst).getLsbD 5 := by
    rw [← getLsbD_30]
    simp [h.ex, Rtl.decode, ho]
  have hf : func7 inst = 0#7 ∨ func7 inst = 0x20#7 ∨ func7 inst = 1#7 := by
    simpa [Rtl.isLegal, ho, Rtl.isAluFn, or_assoc] using hl
  rcases hf with h7 | h7 | h7
  · have hres : x.result .rv32im = x.aluResult := by
      simp [Slot.result, h.ex, Rtl.decode, ho, h7, Rtl.isAluFn]
    rw [hres, Slot.aluResult_eq, hop, hsub, h1, h2, h7]
    simp [Rv.arithR, h7]
  · have hres : x.result .rv32im = x.aluResult := by
      simp [Slot.result, h.ex, Rtl.decode, ho, h7, Rtl.isAluFn]
    have h05 : func3 inst = opAdd ∨ func3 inst = opSr := by
      simpa [reserved, ho, h7, or_iff_not_imp_left] using hr
    rw [hres, Slot.aluResult_eq, hop, hsub, h1, h2, h7]
    rcases h05 with h3 | h3 <;> simp [Rv.arithR, Rv.arithAndn, h7, h3]
  · have hres : x.result .rv32im = x.mulResult .rv32im := by
      simp [Slot.result, h.ex, Rtl.decode, ho, h7]
    rw [hres, Slot.mulResult_eq, hop, h1, h2]
    simp [Rv.arithR, h7]

theorem execNext_arithR (h : Matched k x rv inst) (ho : opcode inst = opArithR)
    (hl : Rtl.isLegal .rv32im inst = true) (hr : reserved inst = false) :
    rv.execNext .rv32im inst host false = (.code rvOkay, retire x rv) := by
  simp [Rv.execNext, Rv.exec, ho, h.result_arithR ho hl hr, Rv.writeRd, Rv.linkPc, retire,
    h.insn, Slot.writesRd, Slot.branchTaken, h.ex, Rtl.decode, h.pc]

/-! Jumps and branches. -/

theorem target_jal (h : Matched k x rv inst) (ho : opcode inst = opJal) :
    x.target = (rv.pc + immJ inst) &&& ~~~1#32 := by
  simp [Slot.target, h.ex, Rtl.decode, Rtl.immOf, ho, h.pc, Iss.immJ_eq]

theorem target_jalr (h : Matched k x rv inst) (ho : opcode inst = opJalr) :
    x.target = (rv.regs (rs1 inst) + immI inst) &&& ~~~1#32 := by
  simp [Slot.target, h.ex, Rtl.decode, Rtl.immOf, ho, h.src1, Iss.immI_eq]

theorem target_branch (h : Matched k x rv inst) (ho : opcode inst = opBranch) :
    x.target = rv.pc + immB inst := by
  simp [Slot.target, h.ex, Rtl.decode, Rtl.immOf, ho, h.pc, Iss.immB_eq]

theorem result_jump (h : Matched k x rv inst) (ho : opcode inst = opJal ∨ opcode inst = opJalr) :
    x.result .rv32im = rv.pc + 4#32 := by
  rcases ho with ho | ho <;> simp [Slot.result, h.ex, Rtl.decode, ho, h.pc]

theorem jump_aligned (h : Matched k x rv inst) (ho : opcode inst = opJal ∨ opcode inst = opJalr)
    {t : Word} (ht : x.target = t &&& ~~~1#32) (ha : x.target.toNat % 4 = 0) :
    rv.jump .rv32im inst false t =
      .ret (.code rvOkay) ((retire x rv).cycleAdd rv.branchPenalty) := by
  have hm : ¬ (t &&& ~~~1#32) &&& 3#32 ≠ 0#32 := by
    rw [← ht, not_not, Bits.and_three_eq_zero]
    exact ha
  have hw : Slot.writesRd inst = true := by rcases ho with ho | ho <;> simp [Slot.writesRd, ho]
  have hb : x.branchTaken = true := by
    rcases ho with ho | ho <;>
      simp [Slot.branchTaken, h.ex, Rtl.decode, ho, h.loaded.unflushed]
  simp only [Rv.jump, hm, and_false, if_false, retire, h.insn, hw, hb, h.result_jump ho, ht]
  simp [Rv.linkPc]

/-- A jump to a misaligned target only moves the pc. -/
theorem jump_misaligned {t : Word} (ht : (t &&& ~~~1#32).toNat % 4 ≠ 0) :
    rv.jump .rv32im inst false t = .ret (.code rvOkay) { rv with pc := t &&& ~~~1#32 } := by
  have hm : (t &&& ~~~1#32) &&& 3#32 ≠ 0#32 := by
    rw [ne_eq, Bits.and_three_eq_zero]
    exact ht
  simp only [Rv.jump]
  rw [if_pos ⟨by simp, hm⟩]

/-- JAL and JALR: the simulator ends the process on those that jump to themselves. -/
theorem exec_jump (h : Matched k x rv inst) (ho : opcode inst = opJal ∨ opcode inst = opJalr) :
    ∃ t, x.target = t &&& ~~~1#32 ∧
      (rv.exec .rv32im inst host false = rv.jump .rv32im inst false t ∨
        (x.target = rv.pc ∧ ∃ rv', rv.exec .rv32im inst host false = .ret (.code rvExit) rv')) := by
  have hpc : rv.pc &&& ~~~1#32 = rv.pc :=
    Bits.clearBit0_of_even (by have := h.aligned; omega)
  rcases ho with ho | ho
  · refine ⟨_, h.target_jal ho, ?_⟩
    by_cases hz : immJ inst = 0#32
    · refine Or.inr ⟨?_, ⟨_, by simp only [Rv.exec, ho, Rv.execJal, hz]; rfl⟩⟩
      rw [h.target_jal ho, hz, BitVec.add_zero, hpc]
    · exact Or.inl (by simp [Rv.exec, ho, Rv.execJal, hz])
  · refine ⟨_, h.target_jalr ho, ?_⟩
    by_cases hz : rv.regs (rs1 inst) + immI inst = rv.pc
    · refine Or.inr ⟨?_, ⟨_, by simp only [Rv.exec, ho, Rv.execJalr, Rv.readRegs_rv32im, hz]; rfl⟩⟩
      rw [h.target_jalr ho, hz, hpc]
    · exact Or.inl (by simp [Rv.exec, ho, Rv.execJalr, hz])

theorem execNext_jump (h : Matched k x rv inst) (ho : opcode inst = opJal ∨ opcode inst = opJalr)
    (hself : x.target ≠ rv.pc) (ha : x.target.toNat % 4 = 0) :
    rv.execNext .rv32im inst host false =
      (.code rvOkay, (retire x rv).cycleAdd rv.branchPenalty) := by
  obtain ⟨t, ht, he⟩ := h.exec_jump host ho
  rw [Rv.execNext, he.resolve_right fun hr => hself hr.1, h.jump_aligned ho ht ha]

theorem execNext_jump_misaligned (h : Matched k x rv inst)
    (ho : opcode inst = opJal ∨ opcode inst = opJalr) (ha : x.target.toNat % 4 ≠ 0) :
    rv.execNext .rv32im inst host false = (.code rvOkay, { rv with pc := x.target }) := by
  have hself : x.target ≠ rv.pc := by
    intro hs
    rw [hs] at ha
    exact ha h.aligned
  obtain ⟨t, ht, he⟩ := h.exec_jump host ho
  rw [Rv.execNext, he.resolve_right fun hr => hself hr.1,
    jump_misaligned (by rw [← ht]; exact ha), ht]

theorem exec_branch (h : Matched k x rv inst) (ho : opcode inst = opBranch) :
    rv.exec .rv32im inst host false =
      match x.branchCond with
      | some taken => rv.branchArm taken (immB inst)
      | none => rv.trapRet trapInstIll inst := by
  have h1 : x.aluOp1 = rv.regs (rs1 inst) := h.src1
  have h2 : x.aluOp2 = rv.regs (rs2 inst) := by
    simp [Slot.aluOp2, h.ex, Rtl.decode, ho, h.src2]
  have hop : x.ex.aluOp = func3 inst := by simp [h.ex, Rtl.decode]
  rw [Slot.branchCond_eq, hop, h1, h2]
  simp only [Rv.exec, ho, Rv.execBranch, Rv.readRegs_rv32im]
  rcases Bits.cases3 (func3 inst) with h3 | h3 | h3 | h3 | h3 | h3 | h3 | h3 <;> simp [h3]

/-- The penalty a taken branch is charged. -/
def branchCharge (rv : Rv) (offset : Word) : Word :=
  if !rv.branchPredict ∨ (0#32).slt offset then rv.branchPenalty else 0#32

theorem branchTaken_branch (h : Matched k x rv inst) (ho : opcode inst = opBranch) :
    x.branchTaken = x.branchCond.getD true := by
  simp [Slot.branchTaken, h.ex, Rtl.decode, ho, h.loaded.unflushed]

theorem execNext_branch (h : Matched k x rv inst) (ho : opcode inst = opBranch)
    (hc : x.branchCond ≠ none) (ha : x.branchTaken = true → x.target.toNat % 4 = 0) :
    rv.execNext .rv32im inst host false = (.code rvOkay, (retire x rv).cycleAdd
      (if x.branchTaken then branchCharge rv (immB inst) else 0#32)) := by
  obtain ⟨taken, hb⟩ := Option.ne_none_iff_exists'.mp hc
  have ht : x.branchTaken = taken := by rw [h.branchTaken_branch ho, hb]; rfl
  have hw : Slot.writesRd inst = false := by simp [Slot.writesRd, ho]
  rw [Rv.execNext, h.exec_branch host ho, hb, ht]
  cases taken with
  | false => simp [Rv.branchArm, retire, ht, h.insn, hw, Rv.linkPc, h.pc]
  | true =>
    have hm : (rv.pc + immB inst) &&& 3#32 = 0#32 := by
      rw [Bits.and_three_eq_zero, ← h.target_branch ho]
      exact ha ht
    simp only [Rv.branchArm, if_true, hm, and_true, retire, ht, h.insn, hw, h.target_branch ho,
      branchCharge, Bool.false_eq_true, if_false]
    by_cases hp : (!rv.branchPredict) = true ∨ (0#32).slt (immB inst) = true
    · rw [if_pos hp, if_pos hp]
    · rw [if_neg hp, if_neg hp, Rv.cycleAdd_zero]

theorem execNext_branch_misaligned (h : Matched k x rv inst) (ho : opcode inst = opBranch)
    (hc : x.branchCond ≠ none) (ht : x.branchTaken = true) (ha : x.target.toNat % 4 ≠ 0) :
    rv.execNext .rv32im inst host false = (.code rvOkay, { rv with pc := x.target }) := by
  obtain ⟨taken, hb⟩ := Option.ne_none_iff_exists'.mp hc
  have htk : taken = true := by rw [h.branchTaken_branch ho, hb] at ht; exact ht
  have hm : (rv.pc + immB inst) &&& 3#32 ≠ 0#32 := by
    rw [ne_eq, Bits.and_three_eq_zero, ← h.target_branch ho]
    exact ha
  rw [Rv.execNext, h.exec_branch host ho, hb, htk, h.target_branch ho]
  simp [Rv.branchArm, hm]

end Matched

end Srv32.Refine
