import Srv32.Rtl.Pipeline

/-! Control flow of the pipeline: after each instruction, which instruction comes next, what an
interrupt saves as its return address, and which register is written. -/

namespace Srv32.Rtl

namespace Slot

def isMret (x : Slot) : Bool := x.systemcall && x.envKind == 2#2

/-- ECALL, EBREAK and the fourth form. -/
def isEnvCall (x : Slot) : Bool := x.systemcall && x.envKind != 2#2

def interrupted (x : Slot) : Bool := !x.excp && (x.timerInt || x.swInt || x.extInt)

/-- The handler `mtvec` gives for the slot's cause. -/
def vector (x : Slot) : Word :=
  if x.csr.mtvec.getLsbD 0 then x.mtvecBase + 4#32 * (x.mcause &&& 0xf#32) else x.mtvecBase

def target (x : Slot) : Word :=
  if x.ex.jal then (x.pc + x.ex.imm) &&& ~~~1#32
  else if x.ex.jalr then (x.regRdata1 + x.ex.imm) &&& ~~~1#32
  else x.pc + x.ex.imm

/-- The address of the instruction that executes after the slot's. -/
def successor (x : Slot) : Word :=
  if x.isMret then x.csr.mepc
  else if x.excp || x.isEnvCall || x.interrupted then x.vector
  else if x.branchTaken then x.target
  else x.pc + 4#32

/-- The slot as it would be with the interrupt inputs low. -/
def quiet (x : Slot) : Slot := { x with timerIrq := false, swIrq := false, irq := false }

/-- What an unflushed slot of a filled pipeline satisfies. -/
structure Loaded (p : Param) (x : Slot) : Prop where
  unflushed : x.flush = false
  decoded : x.ex = decode p x.insn
  mem2reg : x.mem2reg = (opcode x.insn == opLoad)
  fetchPc : x.fetchPc = x.pc + 8#32

variable {p : Param} {x : Slot}

theorem trapPc_eq (x : Slot) : x.trapPc = if x.isMret then x.csr.mepc else x.vector := by
  have h : 0#26 ++ x.mcause.extractLsb' 0 4 ++ 0#2 = 4#32 * (x.mcause &&& 0xf#32) := by
    have hm : (x.mcause &&& 0xf#32).toNat = x.mcause.toNat % 16 :=
      Bits.toNat_and_lowMask x.mcause 4 (by decide)
    apply BitVec.eq_of_toNat_eq
    rw [BitVec.toNat_append, BitVec.toNat_append, BitVec.toNat_mul, hm]
    simp only [BitVec.extractLsb'_toNat, BitVec.toNat_ofNat, Nat.shiftLeft_eq, Nat.shiftRight_zero,
      Nat.zero_mul, Nat.zero_or, Nat.or_zero, Nat.zero_mod]
    omega
  unfold trapPc isMret vector
  rw [h]

/-- The exceptions, environment calls and accepted interrupts are what the trap logic takes. -/
theorem trap_eq (hf : x.flush = false) :
    x.trap = (x.excp || x.systemcall || x.interrupted) := by
  simp only [trap, interrupted, hf, Bool.not_false, Bool.and_true]
  cases x.excp <;> cases x.systemcall <;> cases x.timerInt <;> cases x.swInt <;> cases x.extInt <;>
    rfl

theorem systemcall_eq (x : Slot) : x.systemcall = (x.isMret || x.isEnvCall) := by
  simp only [isMret, isEnvCall]
  cases x.systemcall <;> by_cases h : x.envKind = 2#2 <;> simp [h]

theorem aligned_of_not_excp (hf : x.flush = false) (h : x.excp = false) :
    x.nextPc.toNat % 4 = 0 := by
  simp only [excp, instAlignExcp, hf, Bool.not_false, Bool.true_and, Bool.or_eq_false_iff] at h
  have h0 : (x.nextPc.getLsbD 0 || x.nextPc.getLsbD 1) = false := by
    rw [Bool.or_eq_false_iff]
    exact h.1.1.2
  rw [Bits.lowBits_or] at h0
  simpa using h0

theorem nextPc_eq_target (hi : x.illBranch = false) (hf : x.flush = false)
    (ht : x.branchTaken = true) : x.nextPc = x.target := by
  simp only [illBranch] at hi
  simp only [nextPc, target, branchTaken, aluOp1, even, Bits.clearBit0_eq_and] at *
  cases hj : x.ex.jal <;> cases hr : x.ex.jalr <;> cases hb : x.ex.branch <;>
    simp_all
  cases hc : x.branchCond with
  | none => simp [hc] at hi
  | some c => cases c <;> simp_all

theorem illBranch_of_not_excp (hf : x.flush = false) (hx : x.excp = false) :
    x.illBranch = false := by
  simp only [excp, instIllExcp, hf, Bool.not_false, Bool.true_and, Bool.or_eq_false_iff] at hx
  exact hx.1.1.1.1.1

theorem nextPc_of_taken (hx : x.excp = false) (ht : x.branchTaken = true) :
    x.nextPc = x.target := by
  have hf : x.flush = false := by
    cases h : x.flush
    · rfl
    · simp [h] at ht
  exact nextPc_eq_target (illBranch_of_not_excp hf hx) hf ht

theorem taken_of_instAlignExcp (hl : Loaded p x) (hpc : x.pc.toNat % 4 = 0)
    (hi : x.illBranch = false) (ha : x.instAlignExcp = true) :
    x.branchTaken = true ∧ x.nextPc = x.target ∧ x.target.toNat % 4 ≠ 0 := by
  have hlow : x.nextPc.toNat % 4 ≠ 0 := by
    simp only [instAlignExcp, Bool.and_eq_true] at ha
    have := ha.2
    rw [Bits.lowBits_or, decide_eq_true_eq] at this
    exact this
  have ht : x.branchTaken = true := by
    by_contra hn
    have h12 : (x.pc + 8#32 + 4#32).toNat % 4 = 0 := by
      simp only [BitVec.toNat_add, BitVec.toNat_ofNat]
      omega
    apply hlow
    have hnext : x.nextPc = x.fetchPc + 4#32 := by
      simp only [illBranch] at hi
      simp only [branchTaken, hl.unflushed] at hn
      simp only [nextPc]
      cases hj : x.ex.jal <;> cases hr : x.ex.jalr <;> cases hb : x.ex.branch <;> simp_all
      cases hc : x.branchCond with
      | none => simp [hc] at hi
      | some c => cases c <;> simp_all
    rw [hnext, hl.fetchPc]
    exact h12
  have hn := nextPc_eq_target hi hl.unflushed ht
  exact ⟨ht, hn, hn ▸ hlow⟩

theorem fetchNext_of_redirects (hf : x.flush = false) (hr : x.redirects = true) :
    x.fetchNext = x.successor := by
  unfold fetchNext successor
  rw [if_neg (by simp [hf]), trapPc_eq, trap_eq hf, systemcall_eq]
  cases hm : x.isMret with
  | true => simp
  | false =>
    cases hx : x.excp with
    | true => simp
    | false =>
      cases he : x.isEnvCall with
      | true => simp
      | false =>
        cases hi : x.interrupted with
        | true => simp
        | false =>
          have ht : x.branchTaken = true := by
            simpa [redirects, trap_eq hf, systemcall_eq, hm, hx, he, hi] using hr
          have ha := aligned_of_not_excp hf hx
          simp only [Bool.or_false, Bool.false_eq_true, if_false, ht, if_true, even,
            Bits.clearBit0_eq_and]
          rw [Bits.clearBit0_of_even (by omega), nextPc_of_taken hx ht]

theorem successor_of_not_redirects (hf : x.flush = false) (hr : x.redirects = false) :
    x.successor = x.pc + 4#32 := by
  simp only [redirects, trap_eq hf, systemcall_eq, Bool.or_eq_false_iff] at hr
  obtain ⟨ht, ⟨hx, hm, he⟩, hi⟩ := hr
  simp [successor, ht, hx, hm, he, hi]

/-- Interrupts are held off in SYSTEM instructions and after an exception. -/
theorem of_interrupted (hi : x.interrupted = true) :
    x.excp = false ∧ x.ex.systemOp = false ∧
      (x.timerInt = true ∨ x.swInt = true ∨ x.extInt = true) := by
  simp only [interrupted, Bool.and_eq_true, Bool.not_eq_true', Bool.or_eq_true, or_assoc] at hi
  refine ⟨hi.1, ?_, hi.2⟩
  by_contra hs
  simp [timerInt, swInt, extInt, irqGate, hs] at hi

theorem csrNext_mepc (hl : Loaded p x) (hi : x.interrupted = true) : x.csrNext.mepc = x.retPc := by
  obtain ⟨hx, hs, hint⟩ := of_interrupted hi
  have hw : x.ex.csrWr = false := by
    have hop : (opcode x.insn == opSystem) = false := by simpa [hl.decoded, decode] using hs
    rw [hl.decoded]
    simp [decode, hop]
  simp only [excp, Bool.or_eq_false_iff] at hx
  obtain ⟨⟨⟨hill, halign⟩, hld⟩, hst⟩ := hx
  rw [csrNext, if_neg (by simp [hl.unflushed])]
  simp only [csrFile, trapCsr, hill, hw, halign, hld, hst, Bool.false_eq_true, if_false]
  cases ht : x.timerInt with
  | true => rfl
  | false =>
    cases hsw : x.swInt with
    | true => rfl
    | false =>
      have he : x.extInt = true := by simpa [ht, hsw] using hint
      simp only [he, Bool.false_eq_true, if_false, if_true]
      rfl

/-- Without the interrupt the slot goes on as its instruction says. -/
theorem quiet_successor (hl : Loaded p x) (hi : x.interrupted = true) :
    x.quiet.successor = if x.branchTaken then x.target else x.pc + 4#32 := by
  obtain ⟨hx, hop, -⟩ := of_interrupted hi
  have hsys : x.systemcall = false := by
    have hop' : (opcode x.insn == opSystem) = false := by simpa [hl.decoded, decode] using hop
    simp [systemcall, hl.decoded, decode, hop']
  have hq : x.quiet.interrupted = false := by
    simp [interrupted, quiet, timerInt, swInt, extInt, irqGate]
  unfold successor
  rw [hq]
  change (if x.isMret then _ else if x.excp || x.isEnvCall || false then _ else
    if x.branchTaken then x.target else x.pc + 4#32) = _
  simp [isMret, isEnvCall, hsys, hx]

/-- The return address an accepted interrupt saves is where execution would have gone on. -/
theorem retPc_eq (hl : Loaded p x) (hpc : x.pc.toNat % 4 = 0) (hi : x.interrupted = true) :
    x.retPc = x.quiet.successor := by
  have hx : x.excp = false := (of_interrupted hi).1
  rw [quiet_successor hl hi, retPc]
  cases ht : x.branchTaken with
  | true =>
    have ha := aligned_of_not_excp hl.unflushed hx
    have hk : (x.ex.jal || x.ex.jalr || (x.ex.branch && true)) = true := by
      simp only [branchTaken] at ht
      cases hj : x.ex.jal <;> cases hr : x.ex.jalr <;> cases hb : x.ex.branch <;> simp_all
    rw [hk, if_pos rfl, if_pos rfl, even, Bits.clearBit0_eq_and, Bits.clearBit0_of_even (by omega),
      nextPc_of_taken hx ht]
  | false =>
    have hk : (x.ex.jal || x.ex.jalr || (x.ex.branch && false)) = false := by
      simp only [branchTaken, hl.unflushed] at ht
      cases hj : x.ex.jal <;> cases hr : x.ex.jalr <;> simp_all
    rw [hk]
    simp only [Bool.false_eq_true, if_false]
    apply BitVec.eq_of_toNat_eq
    rw [BitVec.toNat_append]
    simp only [BitVec.toNat_add, BitVec.extractLsb'_toNat, BitVec.toNat_ofNat, Nat.shiftLeft_eq,
      Nat.shiftRight_eq_div_pow, Nat.or_zero, Nat.zero_mod]
    omega

/-- The instructions that write a register. -/
def writesRd (insn : Word) : Bool :=
  opcode insn == opAuipc || opcode insn == opLui || opcode insn == opJal ||
  opcode insn == opJalr || opcode insn == opLoad || opcode insn == opArithI ||
  opcode insn == opArithR || (opcode insn == opSystem && func3 insn != opEcall)

/-- Without an exception, `wb_alu2reg` says whether the instruction writes a register. -/
theorem alu2reg_eq (hl : Loaded p x) (hx : x.excp = false) : x.alu2reg = writesRd x.insn := by
  simp only [excp, instIllExcp, hl.unflushed, Bool.not_false, Bool.true_and,
    Bool.or_eq_false_iff] at hx
  have hleg : isLegal p x.insn = true := by
    have := hx.1.1.1.2
    rw [hl.decoded] at this
    simpa [decode] using this
  rw [alu2reg, hx.1.2, hl.decoded, hl.mem2reg]
  simp only [decode, writesRd, Bool.not_false, Bool.and_true]
  by_cases hr : opcode x.insn = opArithR
  · have hfn : (isAluFn (func7 x.insn) || (func7 x.insn == 0x01#7 && p.rv32m)) = true := by
      simpa [isLegal, hr] using hleg
    simp only [hr]
    simpa [or_comm] using hfn
  · have hr' : (opcode x.insn == opArithR) = false := by simpa using hr
    rw [hr']
    simp only [Bool.false_and, Bool.or_false]
    cases opcode x.insn == opArithI <;> cases opcode x.insn == opLui <;>
      cases opcode x.insn == opAuipc <;> cases opcode x.insn == opJal <;>
      cases opcode x.insn == opJalr <;> cases opcode x.insn == opLoad <;> simp

theorem vector_aligned (x : Slot) : x.vector.toNat % 4 = 0 := by
  have hb : x.mtvecBase.toNat % 4 = 0 := by
    rw [mtvecBase, BitVec.toNat_append]
    simp only [Nat.shiftLeft_eq, BitVec.toNat_ofNat, Nat.zero_mod, Nat.or_zero]
    omega
  unfold vector
  split
  · rw [BitVec.toNat_add, BitVec.toNat_mul]
    simp only [BitVec.toNat_ofNat]
    omega
  · exact hb

/-- What follows a slot is word aligned when the slot is, and when MRET is given an aligned
`mepc`. -/
theorem fetchNext_aligned (hf : x.fetchPc.toNat % 4 = 0)
    (hm : x.isMret = true → x.csr.mepc.toNat % 4 = 0) : x.fetchNext.toNat % 4 = 0 := by
  unfold fetchNext
  split
  · rw [BitVec.toNat_add]
    simp only [BitVec.toNat_ofNat]
    omega
  · rename_i hflush
    split
    · rw [trapPc_eq]
      split
      · exact hm ‹_›
      · exact vector_aligned x
    · rename_i ht
      have hx : x.excp = false := by
        have h : x.trap = false := by simpa using ht
        rw [trap_eq (by simpa using hflush)] at h
        simp only [Bool.or_eq_false_iff] at h
        exact h.1.1
      have ha := aligned_of_not_excp (by simpa using hflush) hx
      rw [even, Bits.clearBit0_eq_and, Bits.clearBit0_of_even (by omega)]
      exact ha

end Slot

namespace State

variable {p : Param} {i : ℕ → Input} {m : Word} {k : ℕ}

/-- An unflushed slot of a filled pipeline is loaded with its instruction. -/
theorem Flowing.loaded {s : State} (h : s.Flowing p) (hf : s.exFlush = false) (j : Input) :
    (s.slot j).Loaded p := by
  have hb : s.wbBranch = false ∧ s.wbBranchNxt = false := by simpa [exFlush] using hf
  refine ⟨hf, h.decoded, h.mem2reg, ?_⟩
  rw [slot_fetchPc, slot_pc, h.fetch hb.1, h.fetched hb.1 hb.2, BitVec.add_assoc]
  rfl

variable (p i m) in
/-- The cycle of the next unflushed slot after cycle `t`. -/
def nextCycle (t : ℕ) : ℕ := if (slotAt p i m t).redirects then t + 3 else t + 1

variable (p i m) in
/-- The register stage 3 writes in cycle `t`. -/
def written (t : ℕ) : Option (BitVec 5) :=
  if (run p i m t).regWrite (i t) then some (run p i m t).wbDstSel else none

theorem run_between (h : ReadyFrom k i) {t : ℕ} (ht : startup k ≤ t)
    (hf : (run p i m t).exFlush = false) :
    (∀ u, t < u → u < nextCycle p i m t → (run p i m u).exFlush = true) ∧
      (run p i m (nextCycle p i m t)).exFlush = false := by
  have hk : k ≤ t := by unfold startup at ht; omega
  have h0 := run_flowing (p := p) (m := m) h ht
  have hb : (run p i m t).wbBranch = false := by
    have := hf
    simp only [exFlush, Bool.or_eq_false_iff] at this
    exact this.1
  have h1 : (run p i m (t + 1)).exFlush = (slotAt p i m t).redirects := by
    rw [run, h0.step_exFlush (h.ready hk), hb, Bool.or_false]
    rfl
  have hb1 : (run p i m (t + 1)).wbBranch = (slotAt p i m t).redirects := by
    rw [run, step_ready (h.ready hk) h0.stallR]
    rfl
  cases hr : (slotAt p i m t).redirects with
  | false =>
    rw [hr] at h1
    rw [nextCycle, hr]
    exact ⟨fun u h2 h3 => absurd h3 (by simp only [Bool.false_eq_true, if_false]; omega), h1⟩
  | true =>
    rw [hr] at h1 hb1
    have hf1 := run_flowing (p := p) (m := m) h (t := t + 1) (by omega)
    have hf2 := run_flowing (p := p) (m := m) h (t := t + 2) (by omega)
    have hn1 : (slotAt p i m (t + 1)).redirects = false := by
      simp [slotAt, Slot.redirects, h1]
    have h2 : (run p i m (t + 2)).exFlush = true := by
      rw [run, hf1.step_exFlush (h.ready (by omega)), hb1, Bool.or_true]
    have hb2 : (run p i m (t + 2)).wbBranch = false := by
      rw [run, step_ready (h.ready (by omega)) hf1.stallR]
      exact hn1
    have h3 : (run p i m (t + 3)).exFlush = false := by
      rw [run, hf2.step_exFlush (h.ready (by omega)), hb2, Bool.or_false]
      simp [Slot.redirects, h2]
    rw [nextCycle, hr]
    refine ⟨fun u hu1 hu2 => ?_, h3⟩
    rcases (by simp only [if_true] at hu2; omega : u = t + 1 ∨ u = t + 2) with rfl | rfl
    · exact h1
    · exact h2

/-- The next unflushed slot holds what the slot fetches. -/
theorem run_next_pc (h : ReadyFrom k i) {t : ℕ} (ht : startup k ≤ t)
    (hf : (run p i m t).exFlush = false) :
    (run p i m (nextCycle p i m t)).exPc =
      if (slotAt p i m t).redirects then (slotAt p i m t).fetchNext
      else (run p i m t).exPc + 4#32 := by
  have hk : k ≤ t := by unfold startup at ht; omega
  have h0 := run_flowing (p := p) (m := m) h ht
  have hb : (run p i m t).wbBranch = false ∧ (run p i m t).wbBranchNxt = false := by
    simpa [exFlush] using hf
  cases hr : (slotAt p i m t).redirects with
  | false =>
    rw [nextCycle, hr]
    simp only [Bool.false_eq_true, if_false]
    rw [run, step_ready (h.ready hk) h0.stallR]
    exact h0.fetched hb.1 hb.2
  | true =>
    have hf1 := run_flowing (p := p) (m := m) h (t := t + 1) (by omega)
    have hf2 := run_flowing (p := p) (m := m) h (t := t + 2) (by omega)
    rw [nextCycle, hr]
    simp only [if_true]
    rw [run, step_ready (h.ready (by omega)) hf2.stallR]
    change (run p i m (t + 2)).ifPc = _
    rw [run, step_ready (h.ready (by omega)) hf1.stallR]
    change (run p i m (t + 1)).fetchPc = _
    rw [run, step_ready (h.ready hk) h0.stallR]
    rfl

/-- The program counters of the pipeline are word aligned. -/
def Aligned (s : State) : Prop :=
  s.fetchPc.toNat % 4 = 0 ∧ s.ifPc.toNat % 4 = 0 ∧ s.exPc.toNat % 4 = 0

/-- They stay so as long as MRET finds an aligned `mepc`. -/
theorem run_aligned (h : ReadyFrom k i)
    (hm : ∀ t, startup k ≤ t → (slotAt p i m t).isMret = true →
      (run p i m t).csr.mepc.toNat % 4 = 0) {t : ℕ} (ht : startup k ≤ t) :
    (run p i m t).Aligned := by
  induction t, ht using Nat.le_induction with
  | base =>
    have hs := run_startup (p := p) (m := m) h
    have hu : (run p i m (startup k)).wbBranch = false ∧
        (run p i m (startup k)).wbBranchNxt = false := by
      simpa [exFlush] using hs.unflushed
    have h1 := hs.fetched hu.1 hu.2
    have h2 := hs.fetch hu.1
    rw [hs.exPc] at h1
    rw [h1] at h2
    exact ⟨by rw [h2]; rfl, by rw [h1]; rfl, by rw [hs.exPc]; rfl⟩
  | succ t ht ih =>
    have hk : k ≤ t := by unfold startup at ht; omega
    rw [run, step_ready (h.ready hk) (run_flowing h ht).stallR]
    exact ⟨Slot.fetchNext_aligned ih.1 (hm t ht), ih.1, ih.2.1⟩

/-- Stage 3 writes, in cycle `t + 1`, the register of the slot of cycle `t`. -/
theorem run_written (h : ReadyFrom k i) {t : ℕ} (ht : startup k ≤ t) :
    written p i m (t + 1) =
      if (run p i m t).exFlush || (slotAt p i m t).excp ||
          !Slot.writesRd (run p i m t).exInsn then none
      else some (rd (run p i m t).exInsn) := by
  have hk : k ≤ t := by unfold startup at ht; omega
  have h0 := run_flowing (p := p) (m := m) h ht
  have h1 := run_flowing (p := p) (m := m) h (t := t + 1) (by omega)
  have hr := h.ready (t := t + 1) (by omega)
  have hstall : (run p i m (t + 1)).wbStall (i (t + 1)) = false := by
    simp [wbStall, h1.stallR, hr.dmemWvalid, hr.dmemRresp]
  have hstep : (run p i m (t + 1)).wbAlu2reg = (slotAt p i m t).alu2reg ∧
      (run p i m (t + 1)).wbFlush = (run p i m t).exFlush ∧
      (run p i m (t + 1)).wbTrapNop = (slotAt p i m t).trapNop ∧
      (run p i m (t + 1)).wbDstSel = (run p i m t).ex.dstSel := by
    rw [run, step_ready (h.ready hk) h0.stallR]
    refine ⟨rfl, ?_, rfl, rfl⟩
    simp [wbFlush, exFlush, h0.nop]
  obtain ⟨ha, hfl, hn, hd⟩ := hstep
  rw [written, regWrite, h1.stallR, hstall, ha, hfl, hn, hd, h0.decoded]
  cases hf : (run p i m t).exFlush with
  | true => simp
  | false =>
    have hl : (slotAt p i m t).Loaded p := h0.loaded hf (i t)
    cases hx : (slotAt p i m t).excp with
    | true => simp [Slot.trapNop, hx, hl.unflushed]
    | false =>
      have hw : (slotAt p i m t).alu2reg = Slot.writesRd (run p i m t).exInsn :=
        Slot.alu2reg_eq hl hx
      rw [hw]
      cases Slot.writesRd (run p i m t).exInsn <;> simp [Slot.trapNop, hx, decode]

/-- Control flow of the core, for every program and every pattern of the interrupt inputs:
after the unflushed slot of cycle `t`, the next unflushed one holds its successor, and an
interrupt accepted on it saves where execution would have gone on; and stage 3 writes the
register of each slot one cycle later, unless the slot was flushed or raised an exception. -/
theorem control_flow (p : Param) (m : Word) (k : ℕ) (i : ℕ → Input) (h : ReadyFrom k i)
    (hm : ∀ t, startup k ≤ t → (slotAt p i m t).isMret = true →
      (run p i m t).csr.mepc.toNat % 4 = 0) (t : ℕ) (ht : startup k ≤ t) :
    ((run p i m t).exFlush = false →
      (∃ t', t < t' ∧ (∀ u, t < u → u < t' → (run p i m u).exFlush = true) ∧
        (run p i m t').exFlush = false ∧ (run p i m t').exPc = (slotAt p i m t).successor) ∧
      ((slotAt p i m t).interrupted = true →
        (run p i m (t + 1)).csr.mepc = (slotAt p i m t).quiet.successor)) ∧
    written p i m (t + 1) =
      if (run p i m t).exFlush || (slotAt p i m t).excp ||
          !Slot.writesRd (run p i m t).exInsn then none
      else some (rd (run p i m t).exInsn) := by
  refine ⟨fun hf => ⟨?_, ?_⟩, run_written h ht⟩
  · obtain ⟨hb, hn⟩ := run_between h ht hf
    refine ⟨nextCycle p i m t, ?_, hb, hn, ?_⟩
    · unfold nextCycle
      split <;> omega
    · rw [run_next_pc h ht hf]
      split
      · rename_i hr
        exact Slot.fetchNext_of_redirects hf hr
      · rename_i hr
        exact (Slot.successor_of_not_redirects hf (by simpa using hr)).symm
  · intro hi
    have hk : k ≤ t := by unfold startup at ht; omega
    have h0 := run_flowing (p := p) (m := m) h ht
    have hret := Slot.retPc_eq (h0.loaded hf (i t)) (run_aligned h hm ht).2.2 hi
    rw [run, step_ready (h.ready hk) h0.stallR]
    exact (Slot.csrNext_mepc (h0.loaded hf (i t)) hi).trans hret

/-- Memories that are always ready and return one word for every fetch. -/
def constantly (word : Word) (_ : ℕ) : Input :=
  ⟨false, true, true, true, true, word, true, true, true, 0#32⟩

theorem readyFrom_constantly (word : Word) : ReadyFrom 0 (constantly word) :=
  ⟨fun _ => rfl, fun _ => rfl, fun _ => rfl, fun _ => rfl, fun _ => rfl⟩

theorem run_constantly {word : Word} {t : ℕ} (ht : startup 0 ≤ t) :
    (run p (constantly word) m t).exInsn = word ∧
      (run p (constantly word) m t).ex = decode p word := by
  obtain ⟨u, rfl⟩ : ∃ u, t = u + 1 := ⟨t - 1, by unfold startup at ht; omega⟩
  have hi := run_exInsn (p := p) (m := m) (readyFrom_constantly word) ht
  exact ⟨hi, by rw [(run_flowing (readyFrom_constantly word) ht).decoded, hi]; rfl⟩

/-- `jal x1, 8` everywhere, with the interrupt inputs high. -/
theorem control_flow_jal :
    (∃ t', 3 < t' ∧
      (∀ u, 3 < u → u < t' → (run .rv32im (constantly 0x008000ef#32) 0#32 u).exFlush = true) ∧
      (run .rv32im (constantly 0x008000ef#32) 0#32 t').exFlush = false ∧
      (run .rv32im (constantly 0x008000ef#32) 0#32 t').exPc = 8#32) ∧
    written .rv32im (constantly 0x008000ef#32) 0#32 4 = some 1#5 := by
  have hr := readyFrom_constantly 0x008000ef#32
  have hm : ∀ t, startup 0 ≤ t → (slotAt .rv32im (constantly 0x008000ef#32) 0#32 t).isMret = true →
      (run .rv32im (constantly 0x008000ef#32) 0#32 t).csr.mepc.toNat % 4 = 0 := by
    intro t ht hmret
    have hs : (run .rv32im (constantly 0x008000ef#32) 0#32 t).ex.system = false := by
      rw [(run_constantly ht).2]
      decide
    simp [Slot.isMret, Slot.systemcall, slotAt, hs] at hmret
  obtain ⟨hnext, hwrite⟩ := control_flow .rv32im 0#32 0 _ hr hm 3 (le_refl 3)
  refine ⟨?_, ?_⟩
  · have := (hnext (by decide)).1
    rwa [show (slotAt .rv32im (constantly 0x008000ef#32) 0#32 3).successor = 8#32 by decide] at this
  · rw [hwrite]
    decide

end State

end Srv32.Rtl
