import Srv32.Rtl.ControlFlow

/-! Trap entry: what the trap CSR block records when `ex_trap` is raised. -/

namespace Srv32.Rtl

/-- The CSR numbers both models implement. -/
def Slot.csrNumbers : List (BitVec 12) :=
  [csrMvendorid, csrMarchid, csrMimpid, csrMhartid, csrMscratch, csrMstatus, csrMstatush, csrMisa,
    csrMie, csrMip, csrMtvec, csrMepc, csrMcause, csrMtval, csrRdcycle, csrRdcycleh, csrRdinstret,
    csrRdinstreth]

theorem Csr.read_isNone (c : Csr) (cycle instret : BitVec 64) (n : BitVec 12) :
    (c.read cycle instret n).isNone = decide (n ∉ Slot.csrNumbers) := by
  by_cases h : n ∈ Slot.csrNumbers
  · rw [decide_eq_false (not_not.mpr h), Csr.read]
    simp only [Slot.csrNumbers, List.mem_cons, List.not_mem_nil, or_false] at h
    rcases h with rfl | rfl | rfl | rfl | rfl | rfl | rfl | rfl | rfl | rfl | rfl | rfl | rfl |
      rfl | rfl | rfl | rfl | rfl <;> rfl
  · rw [decide_eq_true h, Csr.read]
    simp only [Slot.csrNumbers, List.mem_cons, List.not_mem_nil, or_false, not_or] at h
    simp only [h, if_false, Option.isNone_none]

namespace Slot

variable {p : Param} {x : Slot}

theorem csrValue_isNone (x : Slot) :
    x.csrValue.isNone = decide (x.ex.imm.extractLsb' 0 12 ∉ csrNumbers) :=
  Csr.read_isNone _ _ _ _

theorem immOf_system {inst : Word} (ho : opcode inst = opSystem) :
    (immOf inst).extractLsb' 0 12 = imm12 inst := by
  have hi : immOf inst = (imm12 inst).setWidth 32 := by simp [immOf, ho]
  rw [hi, ← BitVec.setWidth_eq_extractLsb' (by decide)]
  simp

theorem csrFile_of_illCsr (h : x.illCsr = true) (c : Csr) : x.csrFile c = c := by
  simp only [illCsr, Bool.and_eq_true, csrValue_isNone, decide_eq_true_eq, csrNumbers,
    List.mem_cons, List.not_mem_nil, or_false, not_or] at h
  simp only [csrFile, h, if_false, ite_self]

/-- The instructions other than jumps and branches go on to `fetch_pc + 4`. -/
theorem instAlignExcp_of_no_jump (hl : Loaded p x) (hpc : x.pc.toNat % 4 = 0)
    (hj : x.ex.jal = false) (hr : x.ex.jalr = false) (hb : x.ex.branch = false) :
    x.instAlignExcp = false := by
  have h12 : (x.pc + 8#32 + 4#32).toNat % 4 = 0 := by
    simp only [BitVec.toNat_add, BitVec.toNat_ofNat]
    omega
  have hn : x.nextPc = x.pc + 8#32 + 4#32 := by simp [nextPc, hj, hr, hb, hl.fetchPc]
  rw [instAlignExcp, hn, Bits.lowBits_or, h12]
  simp

/-- A CSR instruction that writes does not trap unless it is illegal. -/
theorem csrWr_of_trap (hl : Loaded p x) (hpc : x.pc.toNat % 4 = 0) (ht : x.trap = true)
    (hill : x.instIllExcp = false) : x.ex.csrWr = false := by
  by_contra hw
  rw [Bool.not_eq_false, hl.decoded] at hw
  simp only [decode, Bool.and_eq_true, beq_iff_eq, bne_iff_ne, ne_eq] at hw
  have ho := hw.1.1
  have ha : x.instAlignExcp = false :=
    instAlignExcp_of_no_jump hl hpc (by simp [hl.decoded, decode, ho])
      (by simp [hl.decoded, decode, ho]) (by simp [hl.decoded, decode, ho])
  have hs : x.ex.systemOp = true := by simp [hl.decoded, decode, ho]
  have hsys : x.ex.system = false := by simp [hl.decoded, decode, hw.1.2]
  have hld : x.ldAlignExcp = false := by simp [ldAlignExcp, hl.mem2reg, ho]
  have hst : x.stAlignExcp = false := by simp [stAlignExcp, hl.decoded, decode, ho]
  simp [trap, excp, hill, ha, hld, hst, timerInt, swInt, extInt, irqGate, hs, systemcall,
    hsys] at ht

/-- What raised `ex_trap`, in the order the trap CSR block looks at it. -/
inductive Cause (x : Slot) : Prop
  | illegal (hill : x.instIllExcp = true)
  | instAlign (hill : x.instIllExcp = false) (halign : x.instAlignExcp = true)
  | ldAlign (hill : x.instIllExcp = false) (halign : x.instAlignExcp = false)
      (hld : x.ldAlignExcp = true)
  | stAlign (hill : x.instIllExcp = false) (halign : x.instAlignExcp = false)
      (hld : x.ldAlignExcp = false) (hst : x.stAlignExcp = true)
  | timer (hx : x.excp = false) (ht : x.timerInt = true)
  | software (hx : x.excp = false) (ht : x.timerInt = false) (hs : x.swInt = true)
  | external (hx : x.excp = false) (ht : x.timerInt = false) (hs : x.swInt = false)
      (he : x.extInt = true)
  | env (hx : x.excp = false) (ht : x.timerInt = false) (hs : x.swInt = false)
      (he : x.extInt = false) (hsys : x.systemcall = true)

theorem cause_of_trap (ht : x.trap = true) : x.Cause := by
  simp only [trap, excp, Bool.and_eq_true, Bool.or_eq_true] at ht
  have hx : x.excp = true ∨ x.excp = false := by cases x.excp <;> simp
  rcases hx with hx | hx
  · cases hill : x.instIllExcp with
    | true => exact .illegal hill
    | false =>
      cases ha : x.instAlignExcp with
      | true => exact .instAlign hill ha
      | false =>
        cases hld : x.ldAlignExcp with
        | true => exact .ldAlign hill ha hld
        | false => exact .stAlign hill ha hld (by simpa [excp, hill, ha, hld] using hx)
  · have hx' := hx
    simp only [excp, Bool.or_eq_false_iff] at hx'
    cases h1 : x.timerInt with
    | true => exact .timer hx h1
    | false =>
      cases h2 : x.swInt with
      | true => exact .software hx h1 h2
      | false =>
        cases h3 : x.extInt with
        | true => exact .external hx h1 h2 h3
        | false => exact .env hx h1 h2 h3 (by simpa [hx', h1, h2, h3] using ht.1)

/-- The arms of the trap CSR block that a trap reaches. -/
def trapEntry (x : Slot) : Csr :=
  if x.instIllExcp then enter x.csr trapInstIll (even x.pc) x.insn
  else if x.instAlignExcp then enter x.csr trapInstAlign (even x.pc) x.nextPc
  else if x.ldAlignExcp then enter x.csr trapLdAlign (even x.pc) x.memaddr
  else if x.stAlignExcp then enter x.csr trapStAlign (even x.pc) x.memaddr
  else if x.timerInt then
    { enter x.csr intMtime x.retPc 0#32 with mip := setBit x.csr.mip bitMtip true }
  else if x.swInt then
    { enter x.csr intMsi x.retPc 0#32 with mip := setBit x.csr.mip bitMsip true }
  else if x.extInt then
    { enter x.csr intMei x.retPc 0#32 with mip := setBit x.csr.mip bitMeip true }
  else x.envCsr x.csr

theorem csrNext_of_trap (hl : Loaded p x) (hpc : x.pc.toNat % 4 = 0) (ht : x.trap = true) :
    x.csrNext = x.trapEntry := by
  rw [csrNext, if_neg (by simp [hl.unflushed])]
  cases hill : x.instIllExcp with
  | false =>
    have hw := csrWr_of_trap hl hpc ht hill
    have henv : x.instAlignExcp = false → x.ldAlignExcp = false → x.stAlignExcp = false →
        x.timerInt = false → x.swInt = false → x.extInt = false → x.systemcall = true := by
      intro h2 h3 h4 h5 h6 h7
      simpa [trap, excp, hill, h2, h3, h4, h5, h6, h7, hl.unflushed] using ht
    simp only [csrFile, trapCsr, trapEntry, hill, hw, Bool.false_eq_true, if_false]
    split_ifs <;> first | rfl | (exfalso; simp_all)
  | true =>
    have hf : ∀ c, x.csrFile c = c := by
      intro c
      cases hw : x.ex.csrWr with
      | false => simp [csrFile, hw]
      | true =>
        have hc : x.illCsr = true := by
          rw [hl.decoded] at hw
          simp only [decode, Bool.and_eq_true, beq_iff_eq, bne_iff_ne, ne_eq] at hw
          simp only [instIllExcp, illBranch, hl.decoded, decode, isLegal, hw.1.1] at hill
          simpa [hl.unflushed] using hill
        exact csrFile_of_illCsr hc c
    simp only [hf, trapCsr, trapEntry, hill, if_true]

/-- `csr_mcause` records `ex_mcause`; MRET keeps the one of the trap it returns from. -/
theorem csrNext_mcause (hl : Loaded p x) (hpc : x.pc.toNat % 4 = 0) (ht : x.trap = true) :
    x.csrNext.mcause = x.mcause := by
  have hexcp : x.excp = false → x.instIllExcp = false ∧ x.instAlignExcp = false ∧
      x.ldAlignExcp = false ∧ x.stAlignExcp = false := by
    intro hx
    simpa only [excp, Bool.or_eq_false_iff, and_assoc] using hx
  rw [csrNext_of_trap hl hpc ht]
  cases cause_of_trap ht with
  | illegal hill => simp [trapEntry, mcause, enter, hill]
  | instAlign hill ha => simp [trapEntry, mcause, enter, hill, ha]
  | ldAlign hill ha hld => simp [trapEntry, mcause, enter, hill, ha, hld]
  | stAlign hill ha hld hst => simp [trapEntry, mcause, enter, hill, ha, hld, hst]
  | timer hx h1 => simp [trapEntry, mcause, enter, hexcp hx, h1]
  | software hx h1 h2 => simp [trapEntry, mcause, enter, hexcp hx, h1, h2]
  | external hx h1 h2 h3 => simp [trapEntry, mcause, enter, hexcp hx, h1, h2, h3]
  | env hx h1 h2 h3 hs =>
    simp only [trapEntry, mcause, hexcp hx, h1, h2, h3, hs, Bool.false_eq_true, if_false,
      if_true, envCsr]
    split_ifs <;> rfl

end Slot

end Srv32.Rtl
