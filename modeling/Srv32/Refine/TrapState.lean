import Srv32.Iss.Cause
import Srv32.Refine.Completion

/-! The state after each event, in the two models: where they agree. -/

namespace Srv32.Refine

open Iss (Rv Host Ret srv32Step rvOkay rvExit rvTrap)
open Iss.Rv (vectorOf)
open Rtl (Slot)

variable {k : Known} {x : Slot} {d : Rv} {inst : Word} {host : Host}

/-- The simulator goes on after the step, and stands where the core does. -/
structure EventAgree (x : Slot) (r : Ret × Rv) : Prop where
  goes : r.1.goes = true
  state : TrapAgree x (r.2.settle .rv32im)

theorem eventAgree_iff {r : Ret × Rv} (h : r.1.goes = true) :
    EventAgree x r ↔ TrapAgree x (r.2.settle .rv32im) :=
  ⟨fun ha => ha.state, fun ha => ⟨h, ha⟩⟩

theorem eventAgree_of_trapRet {d' : Rv} {c val : Word}
    (he : d.exec .rv32im inst host false = d'.trapRet c val) :
    EventAgree x (d.execNext .rv32im inst host false) ↔
      TrapAgree x ((d.execNext .rv32im inst host false).2.settle .rv32im) := by
  apply eventAgree_iff
  rw [Iss.Rv.execNext_trapRet he]
  rfl

theorem mret_mstatus (m : Word) :
    (if m &&& 1#32 <<< bitMpie ≠ 0#32 then m ||| 1#32 <<< bitMie else m &&& ~~~(1#32 <<< bitMie)) =
      Rtl.setBit m bitMie (m.getLsbD bitMpie) := by
  have h := Bits.and_bit_ne_zero m (n := bitMpie) (by decide)
  rw [Rtl.setBit]
  by_cases hm : m &&& 1#32 <<< bitMpie ≠ 0#32
  · rw [if_pos hm, if_pos (h.mp hm)]
  · rw [if_neg hm, if_neg fun hb => hm (h.mpr hb)]

theorem execNext_mret (ho : opcode inst = opSystem) (h3 : func3 inst = opEcall)
    (hk : (imm12 inst).extractLsb' 0 2 = 2#2) : d.execNext .rv32im inst host false =
      (.code rvOkay, ({ d with
        pc := d.csr.mepc
        csr.mstatus := Rtl.setBit d.csr.mstatus bitMie (d.csr.mstatus.getLsbD bitMpie) } :
          Rv).cycleAdd (if d.csr.mepc.toNat % 4 = 0 then d.branchPenalty else 0#32)) := by
  have h4 := Bits.and_three_eq_zero d.csr.mepc
  rw [Rv.execNext, Rv.exec_mret ho h3 hk]
  simp only [Rv.execMret, mret_mstatus, Iss.Config.rv32im_rv32c]
  by_cases ha : d.csr.mepc &&& 3#32 = 0#32
  · rw [if_neg fun hc => hc.2 ha, if_pos (h4.mp ha)]
  · rw [if_pos ⟨rfl, ha⟩, if_neg fun h => ha (h4.mpr h), Rv.cycleAdd_zero]

theorem csrNext_of_systemcall (hl : x.Loaded .rv32im) (hpc : x.pc.toNat % 4 = 0)
    (hs : x.systemcall = true) : x.excp = false ∧ x.trap = true ∧ x.interrupted = false ∧
      x.csrNext = x.envCsr x.csr := by
  have ho := hs
  rw [Slot.systemcall_eq_env hl, Bool.and_eq_true, beq_iff_eq, beq_iff_eq] at ho
  have hill : x.instIllExcp = false := by
    rw [Slot.instIllExcp_eq hl]
    simp [Slot.illegalWord, ho.1, ho.2]
  have ha : x.instAlignExcp = false :=
    Slot.instAlignExcp_of_no_jump hl hpc (by simp [hl.decoded, Rtl.decode, ho.1])
      (by simp [hl.decoded, Rtl.decode, ho.1]) (by simp [hl.decoded, Rtl.decode, ho.1])
  have hld : x.ldAlignExcp = false := by simp [Slot.ldAlignExcp, hl.mem2reg, ho.1]
  have hst : x.stAlignExcp = false := by simp [Slot.stAlignExcp, hl.decoded, Rtl.decode, ho.1]
  have hop : x.ex.systemOp = true := by simp [hl.decoded, Rtl.decode, ho.1]
  have hint : x.timerInt = false ∧ x.swInt = false ∧ x.extInt = false := by
    simp [Slot.timerInt, Slot.swInt, Slot.extInt, Slot.irqGate, hop]
  have ht : x.trap = true := by simp [Slot.trap, hs, hl.unflushed]
  refine ⟨by simp [Slot.excp, hill, ha, hld, hst], ht, by simp [Slot.interrupted, hint], ?_⟩
  rw [Slot.csrNext_of_trap hl hpc ht]
  simp only [Slot.trapEntry, hill, ha, hld, hst, hint, Bool.false_eq_true, if_false]

/-- MRET agrees only where the value it overwrites `mepc` with is the one it held. -/
theorem trapAgree_mret_iff (h : Matched .all x d inst) (hm : x.isMret = true)
    (hlatch : d.latch.timerIrq = false ∧ d.latch.swIrqNext = false ∧ d.latch.extIrqNext = false)
    (hbase : d.memBase = 0#32) (hr : d.InRange d.pc) :
    EventAgree x (d.execNext .rv32im inst host false) ↔
      d.csr.mepc = d.pc ∧ d.csr.mtval = 0#32 := by
  have hm' := hm
  simp only [Slot.isMret, Bool.and_eq_true, beq_iff_eq] at hm'
  obtain ⟨hsys, hkind⟩ := hm'
  have hs := hsys
  rw [Slot.systemcall_eq_env h.loaded, Bool.and_eq_true, beq_iff_eq, beq_iff_eq, h.insn] at hs
  obtain ⟨ho, h3⟩ := hs
  have hk : (imm12 inst).extractLsb' 0 2 = 2#2 := by
    rw [← hkind, Slot.envKind_eq h.loaded (by rw [h.insn]; exact ho), h.insn]
  obtain ⟨-, ht, -, hcsr⟩ := csrNext_of_systemcall h.loaded h.aligned_pc hsys
  have hcsr' : x.csrNext = { x.csr with
      mepc := Rtl.even x.pc
      mtval := 0#32
      mstatus := Rtl.setBit x.csr.mstatus bitMie (x.csr.mstatus.getLsbD bitMpie) } := by
    rw [hcsr]
    simp only [Slot.envCsr, hkind]
    rfl
  rw [execNext_mret ho h3 hk, eventAgree_iff (by rfl)]
  -- the charge and the restored `mstatus` play no part in where the step goes
  generalize hc : (if d.csr.mepc.toNat % 4 = 0 then d.branchPenalty else 0#32) = charge
  generalize he : ({ d with
    pc := d.csr.mepc
    csr.mstatus := Rtl.setBit d.csr.mstatus bitMie (d.csr.mstatus.getLsbD bitMpie) } :
      Rv).cycleAdd charge = e
  have hu : e.Undisturbed := by
    subst he
    exact Or.inr hlatch
  have hpc : e.pc = d.csr.mepc := by subst he; rfl
  have hrange : ∀ pc, e.InRange pc ↔ d.InRange pc := by subst he; exact fun _ => Iff.rfl
  by_cases hok : e.InRange e.pc ∧ e.pc.toNat % 4 = 0
  · rw [hu.settle hok.1 hok.2]
    subst he
    constructor
    · intro ha
      have h1 := ha.mepc
      have h2 := ha.mtval
      rw [hcsr'] at h1 h2
      change Rtl.even x.pc = d.csr.mepc at h1
      change 0#32 = d.csr.mtval at h2
      rw [Slot.even_pc h.aligned_pc, h.pc] at h1
      exact ⟨h1.symm, h2.symm⟩
    · rintro ⟨h1, h2⟩
      refine ⟨?_, ?_, ?_, ?_, ?_, ?_⟩
      · rw [fetchNext_of_trap h.loaded.unflushed ht, hm, if_pos rfl, h.csr.mepc rfl]
        rfl
      · rw [hcsr']
        change Rtl.even x.pc = d.csr.mepc
        rw [Slot.even_pc h.aligned_pc, h.pc, h1]
      · rw [hcsr']
        exact h.csr.mcause
      · rw [hcsr']
        change 0#32 = d.csr.mtval
        rw [h2]
      · rw [hcsr']
        change Rtl.setBit x.csr.mstatus bitMie (x.csr.mstatus.getLsbD bitMpie) =
          Rtl.setBit d.csr.mstatus bitMie (d.csr.mstatus.getLsbD bitMpie)
        rw [h.csr.mstatus]
      · rw [hcsr']
        exact h.csr.mip
  · refine iff_of_false (fun ha => ?_) (fun hc => hok ?_)
    · -- the simulator leaves the pc that failed in `mtval`, and that pc is not 0
      have hva := ha.mtval
      rw [hcsr'] at hva
      have h0 : e.InRange 0#32 := by
        rw [hrange]
        simp only [Rv.InRange, hbase, BitVec.sle, BitVec.slt, decide_eq_true_eq,
          BitVec.toInt_zero, BitVec.zero_add] at hr ⊢
        omega
      rw [Iss.Rv.settle_eq, hu.enterInts] at hva
      by_cases hre : e.InRange e.pc
      · rw [Iss.Rv.checkPc_misaligned (show e.fresh.InRange e.fresh.pc from hre)
          fun ha => hok ⟨hre, ha⟩] at hva
        change 0#32 = e.pc at hva
        exact hok ⟨hre, by rw [← hva]; rfl⟩
      · rw [Iss.Rv.checkPc_unmapped (show ¬ e.fresh.InRange e.fresh.pc from hre)] at hva
        split at hva
        · change 0#32 = e.pc at hva
          exact hre (hva ▸ h0)
        · rename_i hv
          change 0#32 = vectorOf e.csr.mtvec trapInstFail at hva
          exact hv (by change (vectorOf e.csr.mtvec trapInstFail).toNat % 4 = 0; rw [← hva]; rfl)
    · rw [hrange, hpc, hc.1]
      exact ⟨hr, h.aligned⟩

/-! The simulator's arms for the exceptions of stage 2. -/

theorem kept_ramCycle (d : Rv) : Kept d d.ramCycle := by
  unfold Rv.ramCycle
  split <;> exact ⟨rfl, rfl, rfl, rfl, rfl⟩

/-- The traps whose `mtval` is 0 in the simulator and the instruction in the core. -/
def zeroTval (inst : Word) : Bool :=
  Slot.isEnv3 inst || (opcode inst == opSystem && func3 inst != opEcall && func3 inst != 4#3)

theorem exec_illegal (hi : Slot.illegalWord inst = true) :
    ∃ d', d.exec .rv32im inst host false =
      d'.trapRet trapInstIll (if zeroTval inst then 0#32 else inst) ∧ Kept d d' := by
  have hself : Kept d d := ⟨rfl, rfl, rfl, rfl, rfl⟩
  have hz : opcode inst ≠ opSystem → zeroTval inst = false := by
    intro h
    simp [zeroTval, Slot.isEnv3, h]
  by_cases h5 : opcode inst = opBranch
  · refine ⟨d, ?_, hself⟩
    rw [hz (by simp [h5])]
    have hf : func3 inst = 2#3 ∨ func3 inst = 3#3 := by simpa [Slot.illegalWord, h5] using hi
    rcases hf with h | h <;> simp [Rv.exec, h5, Rv.execBranch, h]
  by_cases h6 : opcode inst = opLoad
  · rw [hz (by simp [h6])]
    exact ⟨_, Rv.exec_load_illegal h6 (by simpa [Slot.illegalWord, h6] using hi), kept_ramCycle d⟩
  by_cases h7 : opcode inst = opStore
  · rw [hz (by simp [h7])]
    exact ⟨_, Rv.exec_store_illegal h7 (by simpa [Slot.illegalWord, h7] using hi), kept_ramCycle d⟩
  by_cases h9 : opcode inst = opArithR
  · refine ⟨d, ?_, hself⟩
    have hb : Iss.Rv.badArithR inst = true := by
      have : func7 inst ≠ 0#7 ∧ func7 inst ≠ 0x20#7 ∧ func7 inst ≠ 1#7 := by
        simpa [Slot.illegalWord, h9, and_assoc] using hi
      simp [Iss.Rv.badArithR, this]
    rw [hz (by simp [h9])]
    simp [Rv.exec, h9, Iss.Rv.arithR_eq_none.mpr hb, Rv.writeRd]
  by_cases h11 : opcode inst = opSystem
  · have hf : func3 inst ≠ opEcall ∧ imm12 inst ∉ Slot.csrNumbers := by
      simpa [Slot.illegalWord, h11] using hi
    have he : d.exec .rv32im inst host false = _ := Rv.exec_csr h11 hf.1
    rcases hop : d.csrOperand .rv32im inst with _ | ⟨mode, val, update⟩
    · have h4 : func3 inst = 4#3 := (Iss.Rv.csrOperand_eq_none.mp hop).resolve_left hf.1
      refine ⟨d, ?_, hself⟩
      rw [he, Rv.execCsr, hop]
      simp [zeroTval, Slot.isEnv3, h4]
    · have h4 : func3 inst ≠ 4#3 := by
        intro h4
        rw [Iss.Rv.csrOperand_eq_none.mpr (Or.inr h4)] at hop
        cases hop
      refine ⟨d, ?_, hself⟩
      rw [he, Rv.execCsr, hop]
      simp only [Iss.Rv.rw_illegal _ mode val update hf.2]
      simp [zeroTval, h11, hf.1, h4]
  · refine ⟨d, ?_, hself⟩
    have h8 : opcode inst ≠ opArithI := by
      intro h8
      simp [Slot.illegalWord, h8] at hi
    have hk : Iss.Rv.knownOp inst = false := by
      simpa [Slot.illegalWord, h5, h6, h7, h8, h9, h11] using hi
    simp only [Iss.Rv.knownOp, Bool.or_eq_false_iff, beq_eq_false_iff_ne, ne_eq] at hk
    rw [hz h11]
    simp [Rv.exec, hk]

theorem loadLen_of_ldAlign (h : Matched k x d inst) (hx : x.ldAlignExcp = true) :
    opcode inst = opLoad ∧ Iss.Rv.loadLen (func3 inst) x.memaddr = .error trapLdAlign := by
  simp only [Slot.ldAlignExcp, h.mem2reg, Bool.and_eq_true, beq_iff_eq, Bool.or_eq_true] at hx
  obtain ⟨⟨ho, -⟩, hal⟩ := hx
  have hop : x.ex.aluOp = func3 inst := by simp [h.ex, Rtl.decode]
  refine ⟨ho, ?_⟩
  rw [hop, Bits.testBit_zero, Bits.testBit_one] at hal
  have h1 := Bits.and_one_eq_zero x.memaddr
  have h3 := Bits.and_three_eq_zero x.memaddr
  simp only [decide_eq_true_eq] at hal
  rcases hal with (⟨hf, hb⟩ | ⟨hf, hb⟩) | ⟨hf, hb⟩
  · have : ¬ x.memaddr &&& 1#32 = 0#32 := by rw [h1]; omega
    simp [Iss.Rv.loadLen, hf, this]
  · have : ¬ x.memaddr &&& 3#32 = 0#32 := by rw [h3]; omega
    simp [Iss.Rv.loadLen, hf, this]
  · have : ¬ x.memaddr &&& 1#32 = 0#32 := by rw [h1]; omega
    simp [Iss.Rv.loadLen, hf, this]

theorem exec_ldAlign (h : Matched k x d inst) (hx : x.ldAlignExcp = true) :
    d.exec .rv32im inst host false = d.ramCycle.trapRet trapLdAlign x.memaddr := by
  obtain ⟨ho, hlen⟩ := loadLen_of_ldAlign h hx
  have haddr : x.memaddr = d.regs (rs1 inst) + Iss.immI inst := h.memaddr_load ho
  simp only [Rv.exec, ho, Rv.execLoad, Rv.readRegs_rv32im, ← haddr, Rv.memrwLoad, hlen]
  simp

theorem storeLen_of_stAlign (h : Matched k x d inst) (hx : x.stAlignExcp = true) :
    opcode inst = opStore ∧ Iss.Rv.storeLen (func3 inst) x.memaddr = .error trapStAlign := by
  simp only [Slot.stAlignExcp, h.ex, Rtl.decode, Bool.and_eq_true, beq_iff_eq,
    Bool.or_eq_true] at hx
  obtain ⟨⟨ho, -⟩, hal⟩ := hx
  refine ⟨ho, ?_⟩
  rw [Bits.testBit_zero, Bits.testBit_one] at hal
  have h1 := Bits.and_one_eq_zero x.memaddr
  have h3 := Bits.and_three_eq_zero x.memaddr
  simp only [decide_eq_true_eq] at hal
  rcases hal with ⟨hf, hb⟩ | ⟨hf, hb⟩
  · have : ¬ x.memaddr &&& 1#32 = 0#32 := by rw [h1]; omega
    simp [Iss.Rv.storeLen, hf, this]
  · have : ¬ x.memaddr &&& 3#32 = 0#32 := by rw [h3]; omega
    simp [Iss.Rv.storeLen, hf, this]

theorem exec_stAlign (h : Matched k x d inst) (hx : x.stAlignExcp = true) :
    d.exec .rv32im inst host false = d.ramCycle.trapRet trapStAlign x.memaddr := by
  obtain ⟨ho, hlen⟩ := storeLen_of_stAlign h hx
  have haddr : x.memaddr = d.regs (rs1 inst) + Iss.immS inst := h.memaddr_store ho
  simp only [Rv.exec, ho, Rv.execStore, Rv.readRegs_rv32im, ← haddr, Rv.memrwStore, hlen]
  simp

/-! One event at a time. -/

/-- The slot takes the interrupts the simulator has latched for the instruction. -/
structure SameIrq (x : Slot) (d : Rv) : Prop where
  timer : x.timerInt = d.latch.timerIrq
  software : x.swInt = d.latch.swIrqNext
  external : x.extInt = d.latch.extIrqNext

/-- The host call of an ECALL does nothing. -/
def CallIdle (host : Host) (d : Rv) : Prop :=
  ∃ res, d.syscall host (d.readRegs .rv32im (Iss.Config.sys .rv32im))
    (d.readRegs .rv32im regA0) (d.readRegs .rv32im regA1)
    (d.readRegs .rv32im regA2) = (.ok res, d)

/-- The exception code of the slot's event, without the interrupt bit. -/
def eventCode (x : Slot) : Word :=
  if x.interrupted then if x.timerInt then 7#32 else if x.swInt then 3#32 else 11#32
  else if x.instIllExcp then 2#32
  else if x.ldAlignExcp then 4#32
  else if x.stAlignExcp then 6#32
  else if x.envKind = 0#2 then 11#32
  else if x.envKind = 1#2 then 3#32
  else 2#32

/-- Where the two models agree on an event. -/
def EventOk (host : Host) (x : Slot) (d : Rv) : Prop :=
  if x.isMret then d.csr.mepc = d.pc ∧ d.csr.mtval = 0#32
  else if x.interrupted then
    (d.csr.mtvec.getLsbD 1 = false ∧ d.InRange (vectorOf d.csr.mtvec (eventCode x)) ∧
      d.csr.mtval = 0#32) ∧ Completes host d x.insn
  else if !x.instIllExcp && x.instAlignExcp then
    d.csr.mtvec.getLsbD 1 = false ∧ d.InRange x.target ∧ d.Undisturbed
  else
    d.csr.mtvec.getLsbD 1 = false ∧ d.InRange (vectorOf d.csr.mtvec (eventCode x)) ∧
      zeroTval x.insn = false

theorem kept_refl (d : Rv) : Kept d d := ⟨rfl, rfl, rfl, rfl, rfl⟩

theorem Matched.isMret_false_of_excp (h : Matched k x d inst) (hx : x.excp = true) :
    x.isMret = false := by
  by_contra hm
  simp only [Slot.isMret, Bool.not_eq_false, Bool.and_eq_true] at hm
  rw [(csrNext_of_systemcall h.loaded h.aligned_pc hm.1).1] at hx
  cases hx

theorem interrupted_of_excp (hx : x.excp = true) : x.interrupted = false := by
  simp [Slot.interrupted, hx]

theorem ne_zero_of_system (ho : opcode inst = opSystem) : inst ≠ 0#32 := by
  rintro rfl
  exact absurd ho (by decide)

theorem eventOk_illegal (h : Matched k x d inst) (hill : x.instIllExcp = true) :
    EventAgree x (d.execNext .rv32im inst host false) ↔ EventOk host x d := by
  have hx : x.excp = true := by simp [Slot.excp, hill]
  have hm := h.isMret_false_of_excp hx
  have ht : x.trap = true := by simp [Slot.trap, hx, h.loaded.unflushed]
  have hi : Slot.illegalWord inst = true := by rw [← h.insn, ← Slot.instIllExcp_eq h.loaded, hill]
  obtain ⟨d', he, hk⟩ : ∃ d', d.exec .rv32im inst host false =
    d'.trapRet trapInstIll (if zeroTval inst then 0#32 else inst) ∧ Kept d d' := exec_illegal hi
  have hcause : x.mcause = trapInstIll := by simp [Slot.mcause, hill]
  have hcsr : x.csrNext = Slot.enter x.csr trapInstIll (Rtl.even x.pc) inst := by
    rw [Slot.csrNext_of_trap h.loaded h.aligned_pc ht, Slot.trapEntry, hill, h.insn]
    rfl
  have hz : (inst = if zeroTval inst then 0#32 else inst) ↔ zeroTval inst = false := by
    cases hz : zeroTval inst with
    | false => simp
    | true =>
      have ho : opcode inst = opSystem := by
        simp only [zeroTval, Slot.isEnv3, Bool.or_eq_true, Bool.and_eq_true, beq_iff_eq] at hz
        rcases hz with ⟨⟨ho, -⟩, -⟩ | ⟨⟨ho, -⟩, -⟩ <;> exact ho
      simpa using ne_zero_of_system ho
  have hcode : eventCode x = x.mcause &&& 0xf#32 := by
    simp [eventCode, interrupted_of_excp hx, hill, hcause]
  rw [eventAgree_of_trapRet he, trapAgree_iff h he hk (by decide) ht hm hcause (by decide) hcsr, hz,
    EventOk, hm, interrupted_of_excp hx, hill, h.insn, hcode]
  simp

theorem eventOk_dataAlign (h : Matched k x d inst) (hill : x.instIllExcp = false)
    (ha : x.instAlignExcp = false) (hx : x.excp = true) :
    EventAgree x (d.execNext .rv32im inst host false) ↔ EventOk host x d := by
  have hm := h.isMret_false_of_excp hx
  have ht : x.trap = true := by simp [Slot.trap, hx, h.loaded.unflushed]
  have hor : x.ldAlignExcp = true ∨ x.stAlignExcp = true := by
    simpa [Slot.excp, hill, ha] using hx
  have hop : x.ldAlignExcp = true → opcode inst = opLoad := by
    intro hld
    simp only [Slot.ldAlignExcp, h.mem2reg, Bool.and_eq_true, beq_iff_eq] at hld
    exact hld.1.1
  have hos : x.stAlignExcp = true → opcode inst = opStore := by
    intro hst
    simp only [Slot.stAlignExcp, h.ex, Rtl.decode, Bool.and_eq_true, beq_iff_eq] at hst
    exact hst.1.1
  have hz : zeroTval x.insn = false := by
    rw [h.insn]
    rcases hor with hld | hst
    · simp [zeroTval, Slot.isEnv3, hop hld]
    · simp [zeroTval, Slot.isEnv3, hos hst]
  have hns : x.ldAlignExcp = true → x.stAlignExcp = false := by
    intro hld
    cases hst : x.stAlignExcp with
    | false => rfl
    | true =>
      have := hop hld
      rw [hos hst] at this
      exact absurd this (by decide)
  -- loads and stores differ in the cause only
  have hres : ∀ {c : Word}, d.exec .rv32im inst host false = d.ramCycle.trapRet c x.memaddr →
      c ≠ trapInstAlign ∧ c ≠ trapInstFail → x.mcause = c → c &&& 0xf#32 = c → eventCode x = c →
      x.csrNext = Slot.enter x.csr c (Rtl.even x.pc) x.memaddr →
      (EventAgree x (d.execNext .rv32im inst host false) ↔ EventOk host x d) := by
    intro c he hc hcause hcode hev hcsr
    rw [eventAgree_of_trapRet he, trapAgree_iff h he (kept_ramCycle d) hc ht hm hcause hcode hcsr,
      EventOk, hm, interrupted_of_excp hx, hill, ha, hcause, hcode, hev, hz]
    simp
  have hcsr := Slot.csrNext_of_trap h.loaded h.aligned_pc ht
  cases hld : x.ldAlignExcp with
  | true =>
    refine hres (exec_ldAlign h hld) (by decide) ?_ (by decide) ?_ ?_
    · simp [Slot.mcause, hill, ha, hld]
    · simp [eventCode, interrupted_of_excp hx, hill, hld]
    · rw [hcsr, Slot.trapEntry, hill, ha, hld]
      rfl
  | false =>
    have hst : x.stAlignExcp = true := by simpa [hld] using hor
    refine hres (exec_stAlign h hst) (by decide) ?_ (by decide) ?_ ?_
    · simp [Slot.mcause, hill, ha, hld, hst]
    · simp [eventCode, interrupted_of_excp hx, hill, hld, hst]
    · rw [hcsr, Slot.trapEntry, hill, ha, hld, hst]
      rfl

/-- The simulator leaves a misaligned target to the next step. -/
theorem execNext_instAlign (h : Matched k x d inst) (hill : x.instIllExcp = false)
    (ha : x.instAlignExcp = true) :
    d.execNext .rv32im inst host false = (.code rvOkay, { d with pc := x.target }) ∧
      x.nextPc = x.target ∧ x.target.toNat % 4 ≠ 0 ∧ opcode inst ≠ opStore := by
  have hib : x.illBranch = false := by
    simp only [Slot.instIllExcp, h.loaded.unflushed, Bool.not_false, Bool.true_and,
      Bool.or_eq_false_iff] at hill
    exact hill.1.1
  obtain ⟨htk, hnext, hmis⟩ := Slot.taken_of_instAlignExcp h.loaded h.aligned_pc hib ha
  -- a jump returns early with the target in `pc`, a taken branch breaks with it there
  by_cases hj : opcode inst = opJal ∨ opcode inst = opJalr
  · refine ⟨h.execNext_jump_misaligned host hj hmis, hnext, hmis, ?_⟩
    rcases hj with ho | ho <;> rw [ho] <;> decide
  · have ho : opcode inst = opBranch := by
      by_contra ho
      rw [not_or] at hj
      simp [Slot.branchTaken, h.ex, Rtl.decode, hj.1, hj.2, ho] at htk
    have hc : x.branchCond ≠ none := by
      intro hn
      have hb := Slot.branchCond_isNone h.loaded
      rw [Slot.instIllExcp_eq h.loaded, h.insn, Slot.illegalWord, if_pos ho, ← h.insn, ← hb,
        hn] at hill
      cases hill
    exact ⟨h.execNext_branch_misaligned host ho hc htk hmis, hnext, hmis, by rw [ho]; decide⟩

theorem eventOk_instAlign (h : Matched k x d inst) (hill : x.instIllExcp = false)
    (ha : x.instAlignExcp = true) :
    EventAgree x (d.execNext .rv32im inst host false) ↔ EventOk host x d := by
  have hx : x.excp = true := by simp [Slot.excp, ha]
  have hm := h.isMret_false_of_excp hx
  have hexec : d.execNext .rv32im inst host false = _ := (execNext_instAlign h hill ha).1
  have hgoes : (d.execNext .rv32im inst host false).1.goes = true := by
    rw [hexec]
    rfl
  rw [eventAgree_iff hgoes, trapAgree_misaligned_iff h (congrArg Prod.snd hexec) hill ha, EventOk,
    hm, interrupted_of_excp hx, hill, ha]
  simp

/-- On the fourth form the core leaves `mstatus` and stores the instruction in `mtval`, the
simulator stores 0. -/
theorem not_trapAgree_env3 (h : Matched k x d inst) (ho : opcode inst = opSystem)
    (h3 : func3 inst = opEcall) (hq : (imm12 inst).extractLsb' 0 2 = 3#2) (hkind : x.envKind = 3#2)
    (hcsr : x.csrNext = x.envCsr x.csr) :
    ¬ TrapAgree x ((d.execNext .rv32im inst host false).2.settle .rv32im) := by
  intro hag
  have hres : (d.execNext .rv32im inst host false).2 = d.trap trapInstIll 0#32 := by
    rw [Rv.execNext, Rv.exec_env3 ho h3 hq]
    rfl
  have hund : (d.trap trapInstIll 0#32).Undisturbed := Or.inl (by simp)
  have hmc := hag.mcause
  have hmv := hag.mtval
  rw [hcsr, Slot.envCsr, hkind, hres] at hmc hmv
  by_cases hr : (d.trap trapInstIll 0#32).InRange (d.trap trapInstIll 0#32).pc ∧
      (d.trap trapInstIll 0#32).pc.toNat % 4 = 0
  · rw [hund.settle hr.1 hr.2] at hmv
    change x.insn = 0#32 at hmv
    rw [h.insn] at hmv
    exact ne_zero_of_system ho hmv
  · -- the vector cannot be fetched from, and the next step leaves its own cause
    change trapInstIll = _ at hmc
    rcases hund.settle_mcause hr with hb | hb
    · exact absurd (hmc.trans hb) (by decide)
    · exact absurd (hmc.trans hb) (by decide)

theorem eventOk_env (h : Matched k x d inst) (hs : x.isEnvCall = true)
    (hcall : x.systemcall = true → x.envKind = 0#2 → CallIdle host d) :
    EventAgree x (d.execNext .rv32im inst host false) ↔ EventOk host x d := by
  simp only [Slot.isEnvCall, Bool.and_eq_true, bne_iff_ne, ne_eq] at hs
  obtain ⟨hsys, hk2⟩ := hs
  have hm : x.isMret = false := by simp [Slot.isMret, hk2]
  obtain ⟨hx, ht, hint, hcsr⟩ := csrNext_of_systemcall h.loaded h.aligned_pc hsys
  have hs := hsys
  rw [Slot.systemcall_eq_env h.loaded, Bool.and_eq_true, beq_iff_eq, beq_iff_eq, h.insn] at hs
  obtain ⟨ho, h3⟩ := hs
  have hkind : x.envKind = (imm12 inst).extractLsb' 0 2 := by
    rw [Slot.envKind_eq h.loaded (by rw [h.insn]; exact ho), h.insn]
  have hx' := hx
  simp only [Slot.excp, Bool.or_eq_false_iff, and_assoc] at hx'
  have hirq : x.timerInt = false ∧ x.swInt = false ∧ x.extInt = false := by
    simpa [Slot.interrupted, hx, and_assoc] using hint
  have hcode : ∀ {c : Word}, x.envKind ≠ 2#2 → (if x.envKind = 0#2 then trapEcall else
      if x.envKind = 1#2 then trapBreak else trapInstIll) = c → x.mcause = c ∧ eventCode x = c := by
    intro c h2 hc
    simp only [Slot.mcause, eventCode, hx', hirq, hint, hsys, h2, Bool.false_eq_true, if_false,
      if_true]
    exact ⟨hc, hc⟩
  have hok : EventOk host x d ↔ d.csr.mtvec.getLsbD 1 = false ∧
      d.InRange (vectorOf d.csr.mtvec (eventCode x)) ∧ zeroTval inst = false := by
    simp only [EventOk, hm, hint, hx', Bool.not_false, Bool.and_false, Bool.false_eq_true,
      if_false, h.insn]
  -- `imm[1:0]`: ECALL, EBREAK, MRET, and the form that is none of them
  have hcases : ∀ q : BitVec 2, q = 0#2 ∨ q = 1#2 ∨ q = 2#2 ∨ q = 3#2 := by decide
  rcases hcases x.envKind with hq | hq | hq | hq
  · obtain ⟨hcause, hev⟩ := hcode (c := trapEcall) (by simp [hq]) (by simp [hq])
    obtain ⟨res, hres⟩ := hcall hsys hq
    have he : ∃ d', d.exec .rv32im inst host false = d'.trapRet trapEcall 0#32 ∧ Kept d d' := by
      rw [Rv.exec_ecall ho h3 (by rw [← hkind, hq]), Rv.execEcall, hres]
      by_cases hr : res ≠ -1#32
      · simp only [hr, if_true, ne_eq, not_false_eq_true, Rv.writeRegs_rv32im]
        exact ⟨_, rfl, rfl, rfl, rfl, rfl, rfl⟩
      · simp only [hr, if_false]
        exact ⟨_, rfl, kept_refl d⟩
    obtain ⟨d', he, hkept⟩ := he
    have hz : zeroTval inst = false := by
      simp [zeroTval, Slot.isEnv3, ho, h3, ← hkind, hq]
    rw [eventAgree_of_trapRet he, trapAgree_iff h he hkept (by decide) ht hm hcause (by decide)
      (by rw [hcsr, Slot.envCsr, hq]; rfl), hok, hcause, hev, hz]
    simp
  · obtain ⟨hcause, hev⟩ := hcode (c := trapBreak) (by simp [hq]) (by simp [hq])
    have hz : zeroTval inst = false := by
      simp [zeroTval, Slot.isEnv3, ho, h3, ← hkind, hq]
    have hent : x.csrNext = Slot.enter x.csr trapBreak (Rtl.even x.pc) (Rtl.even x.pc) := by
      rw [hcsr, Slot.envCsr, hq]
      rfl
    have he : d.exec .rv32im inst host false = _ := Rv.exec_ebreak ho h3 (by rw [← hkind, hq])
    rw [eventAgree_of_trapRet he, trapAgree_iff h he (kept_refl d) (by decide) ht hm hcause
      (by decide) hent, hok, hcause, hev, hz, Slot.even_pc h.aligned_pc, h.pc]
    simp
  · exact absurd hq hk2
  · have hz : zeroTval inst = true := by
      simp [zeroTval, Slot.isEnv3, ho, h3, ← hkind, hq]
    rw [hok, hz]
    exact iff_of_false (fun ha => not_trapAgree_env3 h ho h3 (by rw [← hkind, hq]) hq hcsr ha.state)
      (by simp)

/-- What an accepted interrupt makes of the CSRs of the core. -/
structure Entered (x : Slot) (c : Word) (src : ℕ) : Prop where
  cause : c = intMtime ∨ c = intMsi ∨ c = intMei
  mcause : x.mcause = c
  code : eventCode x = c &&& 0xf#32
  csr : x.csrNext = { Slot.enter x.csr c x.retPc 0#32 with mip := Rtl.setBit x.csr.mip src true }

/-- Both take the sources in the order timer, software, external. -/
theorem entered (h : Matched k x d inst) (hirq : SameIrq x d) (hi : x.interrupted = true) :
    ∃ c src, Entered x c src ∧
      ∀ e : Rv, e.latch = d.latch → e.mieSet = true → e.enterInts = e.int c src false := by
  obtain ⟨hx, -, hsome⟩ := Slot.of_interrupted hi
  have ht : x.trap = true := by simp [Slot.trap_eq h.loaded.unflushed, hi]
  have hcsr := Slot.csrNext_of_trap h.loaded h.aligned_pc ht
  have hx' := hx
  simp only [Slot.excp, Bool.or_eq_false_iff, and_assoc] at hx'
  cases h1 : x.timerInt with
  | true =>
    refine ⟨intMtime, bitMtip, ⟨Or.inl rfl, by simp [Slot.mcause, hx', h1],
      by simp [eventCode, hi, h1], ?_⟩, fun e hl hm => ?_⟩
    · rw [hcsr]
      simp only [Slot.trapEntry, hx', h1, Bool.false_eq_true, if_false, if_true]
    · exact Iss.Rv.enterInts_timer hm (by rw [hl, ← hirq.timer, h1])
  | false =>
    cases h2 : x.swInt with
    | true =>
      refine ⟨intMsi, bitMsip, ⟨Or.inr (Or.inl rfl), by simp [Slot.mcause, hx', h1, h2],
        by simp [eventCode, hi, h1, h2], ?_⟩, fun e hl hm => ?_⟩
      · rw [hcsr]
        simp only [Slot.trapEntry, hx', h1, h2, Bool.false_eq_true, if_false, if_true]
      · exact Iss.Rv.enterInts_sw hm (by rw [hl, ← hirq.timer, h1])
          (by rw [hl, ← hirq.software, h2])
    | false =>
      have h3 : x.extInt = true := by simpa [h1, h2] using hsome
      refine ⟨intMei, bitMeip, ⟨Or.inr (Or.inr rfl), by simp [Slot.mcause, hx', h1, h2, h3],
        by simp [eventCode, hi, h1, h2], ?_⟩, fun e hl hm => ?_⟩
      · rw [hcsr]
        simp only [Slot.trapEntry, hx', h1, h2, h3, Bool.false_eq_true, if_false, if_true]
      · exact Iss.Rv.enterInts_ext hm (by rw [hl, ← hirq.timer, h1])
          (by rw [hl, ← hirq.software, h2]) (by rw [hl, ← hirq.external, h3])

/-- A trap of the simulator leaves a cause of its own, also when its vector cannot be fetched. -/
theorem settle_trap_mcause (ht : (d.execNext .rv32im inst host false).1 = .code rvTrap) :
    ((d.execNext .rv32im inst host false).2.settle .rv32im).csr.mcause ∈ Iss.causes := by
  have ho := Iss.Rv.exec_outcome .rv32im d inst host false
  have hc : (d.exec .rv32im inst host false).Caused := Iss.Rv.exec_caused
  have hkey : ∀ {s : Rv} {cause val : Word}, cause ∈ Iss.causes →
      ((s.trap cause val).settle .rv32im).csr.mcause ∈ Iss.causes := by
    intro s cause val hm
    have hund : (s.trap cause val).Undisturbed := Or.inl (by simp)
    by_cases hok : (s.trap cause val).InRange (s.trap cause val).pc ∧
        (s.trap cause val).pc.toNat % 4 = 0
    · rw [hund.settle hok.1 hok.2]
      exact hm
    · rcases hund.settle_mcause hok with hb | hb <;> rw [hb] <;> decide
  rw [Rv.execNext] at ht ⊢
  generalize d.exec .rv32im inst host false = f at ho hc ht ⊢
  cases ho with
  | next hw hp => exact absurd ht (by simp)
  | leave hw hne => exact absurd ht hne
  | trap hcharged _ => exact hkey (hc rfl)
  | ecall hw hi => exact hkey (hc rfl)
  | mret hw hi => exact absurd ht (by simp)
  | csr hw hi => exact absurd ht (by simp)

theorem eventOk_interrupt (h : Matched k x d inst) (hirq : SameIrq x d)
    (hi : x.interrupted = true) :
    EventAgree x (d.execNext .rv32im inst host false) ↔ EventOk host x d := by
  obtain ⟨hx, hop, hsome⟩ := Slot.of_interrupted hi
  have hns : opcode inst ≠ opSystem := by
    intro ho
    simp [h.ex, Rtl.decode, ho] at hop
  have hsys : x.systemcall = false := by
    simp [Slot.systemcall_eq_env h.loaded, h.insn, hns]
  have hm : x.isMret = false := by simp [Slot.isMret, hsys]
  obtain ⟨c, src, hent, henter⟩ := entered h hirq hi
  have hok : EventOk host x d ↔ (d.csr.mtvec.getLsbD 1 = false ∧
      d.InRange (vectorOf d.csr.mtvec (eventCode x)) ∧ d.csr.mtval = 0#32) ∧
        Completes host d inst := by
    simp only [EventOk, hm, hi, Bool.false_eq_true, if_false, if_true, h.insn]
  rw [hok]
  by_cases hdone : Completes host d inst
  · have hret := (h.ending hx hns).completed hdone
    obtain ⟨hpc, hk⟩ := h.completes hx hns hret
    have hgoes : (d.execNext .rv32im inst host false).1.goes = true := by
      rw [hret]
      rfl
    rw [eventAgree_iff hgoes, and_iff_left hdone]
    -- from here on only what the instruction keeps is used
    generalize (d.execNext .rv32im inst host false).2 = e at hpc hk ⊢
    have hmie : e.fresh.mieSet = true := by
      have hst : e.csr.mstatus = d.csr.mstatus := congrArg Rtl.Csr.mstatus hk.csr
      have : x.csr.mstatus.getLsbD bitMie = true := by
        rcases hsome with hh | hh | hh <;>
          simp only [Slot.timerInt, Slot.swInt, Slot.extInt, Slot.irqGate, Bool.and_eq_true] at hh <;>
          exact hh.1.1.1.2
      change e.mieSet = true
      rw [Iss.Rv.mieSet_eq, hst, ← h.csr.mstatus, this]
    have hne : c ≠ trapInstAlign ∧ c ≠ trapInstFail := by
      rcases hent.cause with rfl | rfl | rfl <;> decide
    have hcode : c &&& ~~~(1#32 <<< 31) = c &&& 0xf#32 := by
      rcases hent.cause with rfl | rfl | rfl <;> decide
    rw [trapAgree_int_iff h hk hpc hi (henter e.fresh hk.latch hmie) hne hent.mcause hcode hent.csr,
      hent.mcause, hent.code]
  · refine iff_of_false (fun ha => ?_) fun hc => hdone hc.2
    rcases (h.ending hx hns).stopped hdone with hstop | hstop
    -- an exception of the instruction has another cause than the interrupt
    · have hmc := ha.state.mcause
      have hin := settle_trap_mcause hstop
      rw [← hmc, hent.csr] at hin
      change c ∈ Iss.causes at hin
      revert hin
      rcases hent.cause with rfl | rfl | rfl <;> decide
    · exact absurd (hstop.symm.trans ha.goes) (by decide)

/-- From equal states, for every event, the simulator goes on and agrees with the core on the next
pc and the trap CSRs just when `EventOk` holds. -/
theorem trap_agree_iff (host : Host) (rv : Rv) (x : Slot)
    (h : Matched .all x (rv.prologue .rv32im host).1 (rv.prologue .rv32im host).2)
    (hirq : SameIrq x (rv.prologue .rv32im host).1)
    (hbase : (rv.prologue .rv32im host).1.memBase = 0#32)
    (hr : (rv.prologue .rv32im host).1.InRange (rv.prologue .rv32im host).1.pc)
    (hcall : x.systemcall = true → x.envKind = 0#2 →
      CallIdle host (rv.prologue .rv32im host).1) (ht : x.trap = true) :
    EventAgree x (srv32Step .rv32im host rv) ↔ EventOk host x (rv.prologue .rv32im host).1 := by
  have hstep : srv32Step .rv32im host rv =
      (rv.prologue .rv32im host).1.execNext .rv32im (rv.prologue .rv32im host).2 host false := rfl
  rw [hstep]
  generalize (rv.prologue .rv32im host).1 = d at *
  generalize (rv.prologue .rv32im host).2 = inst at *
  rw [Slot.trap_eq h.loaded.unflushed, Slot.systemcall_eq] at ht
  cases hm : x.isMret with
  | true =>
    obtain ⟨hx, -, hint, -⟩ := csrNext_of_systemcall h.loaded h.aligned_pc
      (show x.systemcall = true by rw [Slot.systemcall_eq, hm]; rfl)
    have hi : x.timerInt = false ∧ x.swInt = false ∧ x.extInt = false := by
      simpa [Slot.interrupted, hx, and_assoc] using hint
    rw [trapAgree_mret_iff h hm ⟨by rw [← hirq.timer, hi.1], by rw [← hirq.software, hi.2.1],
      by rw [← hirq.external, hi.2.2]⟩ hbase hr, EventOk, hm]
    rfl
  | false =>
    cases hint : x.interrupted with
    | true => exact eventOk_interrupt h hirq hint
    | false =>
      cases hill : x.instIllExcp with
      | true => exact eventOk_illegal h hill
      | false =>
        cases ha : x.instAlignExcp with
        | true => exact eventOk_instAlign h hill ha
        | false =>
          cases hx : x.excp with
          | true => exact eventOk_dataAlign h hill ha hx
          | false => exact eventOk_env h (by simpa [hm, hint, hx] using ht) hcall

/-- `csrrw x0, 0x7c0, x0`: the core stores the instruction in `mtval`, the simulator 0. -/
theorem trap_disagree_csr :
    let rv := Rv.boot .rv32im 1 (Iss.image [0x7c001073#32])
    let d := rv.prologue .rv32im .none
    let x := slotOf d.1 d.2
    Matched .all x d.1 d.2 ∧ SameIrq x d.1 ∧ d.1.memBase = 0#32 ∧ d.1.InRange d.1.pc ∧
      x.trap = true ∧ x.interrupted = false ∧ x.systemcall = false ∧
      ¬ EventAgree x (srv32Step .rv32im .none rv) := by
  intro rv d x
  exact ⟨matched_slotOf _ _ _ (by decide) (by decide) (by decide) (by decide) (by decide)
    (by decide), ⟨by decide, by decide, by decide⟩, by decide, by decide, by decide, by decide,
    by decide, fun h => absurd h.state.mtval (by decide)⟩

/-- They agree on `ebreak`, with SYS_EXIT in `a7` too. -/
theorem trap_agree_ebreak :
    let rv := Rv.boot .rv32im 1 (Iss.image [0x00100073#32])
    let rv := { rv with regs := Function.update rv.regs regA7 sysExit }
    let d := rv.prologue .rv32im .none
    EventAgree (slotOf d.1 d.2) (srv32Step .rv32im .none rv) := by
  intro rv₀ rv d
  refine (trap_agree_iff .none rv (slotOf d.1 d.2) (matched_slotOf _ _ _ (by decide) (by decide)
    (by decide) (by decide) (by decide) (by decide)) ⟨by decide, by decide, by decide⟩
    (by decide) (by decide) (fun _ hk => absurd hk (by decide)) (by decide)).mpr ?_
  rw [EventOk, if_neg (by decide), if_neg (by decide), if_neg (by decide)]
  decide

end Srv32.Refine
