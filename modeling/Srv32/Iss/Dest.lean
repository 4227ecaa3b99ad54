import Srv32.Iss.Moves

/-! The destination register: the value each instruction has for it, and that no other register
changes. -/

namespace Srv32.Iss.Rv

variable {cfg : Config} {rv d : Rv} {inst : Word} {host : Host} {c : Bool} {r : BitVec 5}

/-- The link of a jump to `p`; none when the target is left to the next step. -/
def linkRdValue (cfg : Config) (d : Rv) (c : Bool) (p : Word) : Option Word :=
  if !cfg.rv32c ∧ (p &&& ~~~1#32) &&& 3#32 ≠ 0#32 then none else some (d.linkPc c)

def loadRdValue (cfg : Config) (d : Rv) (inst : Word) (host : Host) : Option Word :=
  let m := d.memrwLoad host (func3 inst) (d.readRegs cfg (rs1 inst) + immI inst)
  if m.1 = trapLdFail ∨ m.1 = trapLdAlign ∨ m.1 = trapInstIll then none else some m.2

def csrRdValue (cfg : Config) (d : Rv) (inst : Word) : Option Word :=
  match d.csrOperand cfg inst with
  | none => none
  | some (mode, val, update) =>
    let m := d.csr.rw (imm12 inst) mode val update
    if m.2.1 then some m.1 else none

/-- The value of an instruction for `rd`; none where it has no `rd`, traps or ends the run. -/
def rdValue (cfg : Config) (d : Rv) (inst : Word) (host : Host) (c : Bool) : Option Word :=
  if opcode inst = opAuipc then some (d.pc + immU inst)
  else if opcode inst = opLui then some (immU inst)
  else if opcode inst = opJal then
    if immJ inst = 0#32 then none else d.linkRdValue cfg c (d.pc + immJ inst)
  else if opcode inst = opJalr then
    let p := d.readRegs cfg (rs1 inst) + immI inst
    if p = d.pc then none else d.linkRdValue cfg c p
  else if opcode inst = opLoad then d.loadRdValue cfg inst host
  else if opcode inst = opArithI then d.arithI cfg inst
  else if opcode inst = opArithR then d.arithR cfg inst
  else if isCsrWord inst then d.csrRdValue cfg inst
  else none

/-- Register `r` after the arm, when its value for `rd` is `v`. -/
def Writes (inst : Word) (d : Rv) (r : BitVec 5) (v : Option Word) (f : Flow) : Prop :=
  f.state.regs r = if rd inst = r then v.getD (d.regs r) else d.regs r

theorem writeRegs_reg (hr : r.toNat < cfg.regnum) (n : BitVec 5) (v : Word) :
    (rv.writeRegs cfg n v).regs r = if n = r then v else rv.regs r := by
  rw [writeRegs]
  by_cases h : n = r
  · subst h
    rw [if_neg (Nat.not_le.mpr hr), if_pos rfl]
    exact Function.update_self _ _ _
  · rw [if_neg h]
    split_ifs
    · rfl
    · exact Function.update_of_ne (Ne.symm h) _ _

theorem writes_none {f : Flow} (h : f.state.regs r = d.regs r) : Writes inst d r none f := by
  rw [Writes, h]
  split_ifs <;> rfl

theorem writes_some (hr : r.toNat < cfg.regnum) {s : Rv} (hs : s.regs = d.regs) (v : Word)
    {f : Flow} (hf : f.state.regs = (s.writeRegs cfg (rd inst) v).regs) :
    Writes inst d r (some v) f := by
  rw [Writes, hf, writeRegs_reg hr, hs]
  rfl

theorem writes_writeRd (hr : r.toNat < cfg.regnum) (v : Option Word) :
    Writes inst d r v (d.writeRd cfg inst v) := by
  cases v with
  | none => exact writes_none rfl
  | some v => exact writes_some hr rfl v rfl

theorem writes_jump (hr : r.toNat < cfg.regnum) (p : Word) :
    Writes inst d r (d.linkRdValue cfg c p) (d.jump cfg inst c p) := by
  rw [jump, linkRdValue]
  by_cases hz : !cfg.rv32c ∧ (p &&& ~~~1#32) &&& 3#32 ≠ 0#32
  · rw [if_pos hz, if_pos hz]
    exact writes_none rfl
  · rw [if_neg hz, if_neg hz]
    exact writes_some (s := { d with pc := p &&& ~~~1#32 }) hr rfl _ rfl

theorem writes_load (hr : r.toNat < cfg.regnum) :
    Writes inst d r (d.loadRdValue cfg inst host) (d.execLoad cfg inst host) := by
  have hram : d.ramCycle.regs = d.regs := by
    rw [ramCycle]
    split_ifs <;> rfl
  have htrap : ∀ k a, Writes inst d r none (d.ramCycle.trapRet k a) := by
    intro k a
    apply writes_none
    change d.ramCycle.regs r = d.regs r
    rw [hram]
  rw [execLoad, loadRdValue]
  generalize d.memrwLoad host (func3 inst) (d.readRegs cfg (rs1 inst) + immI inst) = m
  simp only
  by_cases h1 : m.1 = trapLdFail
  · rw [if_pos h1, if_pos (Or.inl h1)]
    exact htrap _ _
  by_cases h2 : m.1 = trapLdAlign
  · rw [if_neg h1, if_pos h2, if_pos (Or.inr (Or.inl h2))]
    exact htrap _ _
  by_cases h3 : m.1 = trapInstIll
  · rw [if_neg h1, if_neg h2, if_pos h3, if_pos (Or.inr (Or.inr h3))]
    exact htrap _ _
  · rw [if_neg h1, if_neg h2, if_neg h3, if_neg (by tauto)]
    exact writes_some hr hram _ rfl

/-! The arms without an `rd`. -/

theorem Stored.regs {s : Rv} (h : Stored d s) : s.regs = d.regs := by
  obtain ⟨_, _, _, _, _, _, _, rfl⟩ := h
  rfl

theorem execBranch_regs : (d.execBranch cfg inst).state.regs = d.regs := by
  have harm : ∀ b off, (d.branchArm b off).state.regs = d.regs := by
    intro b off
    rw [branchArm]
    simp only
    split_ifs <;> rfl
  rw [execBranch]
  split_ifs
  all_goals first | exact harm _ _ | rfl

theorem execStore_regs : (d.execStore cfg inst host).state.regs = d.regs := by
  have hst : Stored d (d.memrwStore host (func3 inst) (d.readRegs cfg (rs1 inst) + immS inst)
      (d.readRegs cfg (rs2 inst))).2 := stored_memrwStore _ _ _
  rw [execStore]
  generalize d.memrwStore host (func3 inst) (d.readRegs cfg (rs1 inst) + immS inst)
      (d.readRegs cfg (rs2 inst)) = m at hst
  have hram : m.2.ramCycle.regs = d.regs := by
    rw [← hst.regs, ramCycle]
    split_ifs <;> rfl
  obtain ⟨res, s⟩ := m
  cases res with
  | code k =>
    simp only
    split_ifs <;> exact hram
  | exit k => exact hst.regs
  | segv => exact hst.regs

theorem syscall_regs (func a0 a1 a2 : Word) :
    (d.syscall host func a0 a1 a2).2.regs = d.regs := by
  have hread : ∀ fd p count, (d.hostRead host fd p count).regs = d.regs := by
    intro fd p count
    cases p <;> rfl
  simp only [syscall]
  split_ifs
  iterate 4 rfl
  · exact hread _ _ _
  · rfl
  · cases d.dump host (dumpAligned a0 a1) a0 a1 <;> rfl
  · cases d.dump host true a0 a1 <;> rfl
  · rfl

theorem execEcall_regs (hr : r.toNat < cfg.regnum) (ha : r ≠ regA0) :
    (d.execEcall cfg host).state.regs r = d.regs r := by
  have hs : (d.syscall host (d.readRegs cfg cfg.sys) (d.readRegs cfg regA0)
      (d.readRegs cfg regA1) (d.readRegs cfg regA2)).2.regs = d.regs := syscall_regs _ _ _ _
  rw [execEcall]
  generalize d.syscall host (d.readRegs cfg cfg.sys) (d.readRegs cfg regA0)
      (d.readRegs cfg regA1) (d.readRegs cfg regA2) = m at hs
  obtain ⟨res | res, s⟩ := m
  · exact congrFun hs r
  · simp only
    change (if res ≠ -1#32 then s.writeRegs cfg regA0 res else s).regs r = d.regs r
    split_ifs
    · rw [writeRegs_reg hr, if_neg (Ne.symm ha)]
      exact congrFun hs r
    · exact congrFun hs r

theorem execEnv_regs (hr : r.toNat < cfg.regnum) (ho : opcode inst = opSystem)
    (hf : func3 inst = opEcall) (ha : reachesEcall inst → r ≠ regA0) :
    (d.execEnv cfg inst host).state.regs r = d.regs r := by
  rw [execEnv]
  split_ifs with h0 h1 h2
  · exact execEcall_regs hr (ha ⟨ho, hf, h0⟩)
  · rfl
  · rw [execMret]
    simp only
    split_ifs <;> rfl
  · rfl

theorem writes_csr (hr : r.toNat < cfg.regnum) :
    Writes inst d r (d.csrRdValue cfg inst) (d.execCsr cfg inst) := by
  rw [execCsr, csrRdValue]
  cases d.csrOperand cfg inst with
  | none => exact writes_none rfl
  | some t =>
    obtain ⟨mode, val, update⟩ := t
    simp only
    rcases d.csr.rw (imm12 inst) mode val update with ⟨res, legal, csr⟩
    cases legal with
    | false => exact writes_none rfl
    | true => exact writes_some (s := { d with csr := csr }) hr rfl _ rfl

/-- Every arm: `rd` takes the instruction's value, and no other register changes but for the result
of ECALL. -/
theorem exec_writes (hr : r.toNat < cfg.regnum) (ha : reachesEcall inst → r ≠ regA0) :
    Writes inst d r (d.rdValue cfg inst host c) (d.exec cfg inst host c) := by
  rw [exec, rdValue]
  by_cases h1 : opcode inst = opAuipc
  · simp only [if_pos h1]
    exact writes_some hr rfl _ rfl
  by_cases h2 : opcode inst = opLui
  · simp only [if_neg h1, if_pos h2]
    exact writes_some hr rfl _ rfl
  by_cases h3 : opcode inst = opJal
  · simp only [if_neg h1, if_neg h2, if_pos h3, execJal]
    split_ifs
    · exact writes_none rfl
    · exact writes_jump hr _
  by_cases h4 : opcode inst = opJalr
  · simp only [if_neg h1, if_neg h2, if_neg h3, if_pos h4, execJalr]
    split_ifs
    · exact writes_none rfl
    · exact writes_jump hr _
  simp only [if_neg h1, if_neg h2, if_neg h3, if_neg h4]
  by_cases h5 : opcode inst = opBranch
  · simp only [h5, isCsrWord]
    exact writes_none (congrFun execBranch_regs r)
  by_cases h6 : opcode inst = opLoad
  · simp only [if_neg h5, if_pos h6]
    exact writes_load hr
  by_cases h7 : opcode inst = opStore
  · simp only [h7, isCsrWord]
    exact writes_none (congrFun execStore_regs r)
  by_cases h8 : opcode inst = opArithI
  · simp only [if_neg h5, if_neg h6, if_neg h7, if_pos h8]
    exact writes_writeRd hr _
  by_cases h9 : opcode inst = opArithR
  · simp only [if_neg h5, if_neg h6, if_neg h7, if_neg h8, if_pos h9]
    exact writes_writeRd hr _
  simp only [if_neg h5, if_neg h6, if_neg h7, if_neg h8, if_neg h9]
  by_cases h10 : opcode inst = opSystem
  · have hfence : ¬ opcode inst = opFence := by
      rw [h10]
      decide
    rw [if_neg hfence, if_pos h10, execSystem]
    by_cases hf : func3 inst = opEcall
    · have hcsr : ¬ isCsrWord inst := fun h => h.2 hf
      rw [if_pos hf, if_neg hcsr]
      exact writes_none (execEnv_regs hr h10 hf ha)
    · have hcsr : isCsrWord inst := ⟨h10, hf⟩
      rw [if_neg hf, if_pos hcsr]
      exact writes_csr hr
  · have hcsr : ¬ isCsrWord inst := fun h => h10 h.1
    rw [if_neg h10, if_neg hcsr]
    apply writes_none
    split_ifs <;> rfl

theorem execNext_reg (host : Host) (c : Bool) (hr : r.toNat < cfg.regnum)
    (ha : reachesEcall inst → r ≠ regA0) :
    (d.execNext cfg inst host c).2.regs r =
      if rd inst = r then (d.rdValue cfg inst host c).getD (d.regs r) else d.regs r := by
  have h : Writes inst d r (d.rdValue cfg inst host c) (d.exec cfg inst host c) :=
    exec_writes hr ha
  rw [Writes] at h
  rw [← h, execNext]
  cases d.exec cfg inst host c <;> rfl

end Srv32.Iss.Rv
