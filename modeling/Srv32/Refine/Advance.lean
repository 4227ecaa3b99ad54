import Srv32.Refine.DataMem
import Srv32.Refine.TrapState

/-! One instruction in both models, up to the fetch of the next one: registers, memory, CSRs and
counters. -/

namespace Srv32.Refine

open Iss (Rv Host srv32Step rvOkay rvExit rvTrap)
open Iss.Rv (vectorOf width)
open Rtl (Slot ramSize)

/-! Words. -/

def isMretWord (inst : Word) : Bool :=
  opcode inst == opSystem && func3 inst == opEcall && (imm12 inst).extractLsb' 0 2 == 2#2

def isEcallWord (inst : Word) : Bool :=
  opcode inst == opSystem && func3 inst == opEcall && (imm12 inst).extractLsb' 0 2 == 0#2

/-- A CSR instruction on `n`. -/
def onCsr (inst : Word) (n : BitVec 12) : Bool :=
  opcode inst == opSystem && func3 inst != opEcall && imm12 inst == n

/-- All forms read, other than CSRRW and CSRRWI to `x0`. -/
def readsCsr (inst : Word) (n : BitVec 12) : Bool :=
  onCsr inst n && !((func3 inst == opCsrrw || func3 inst == opCsrrwi) && rd inst == 0#5)

def writesCsr (inst : Word) (n : BitVec 12) : Bool := onCsr inst n && csrWrites inst

/-- JAL or JALR to its own address. -/
def JumpsToSelf (d : Rv) (inst : Word) : Prop :=
  (opcode inst = opJal ∧ (d.pc + Iss.immJ inst) &&& ~~~1#32 = d.pc) ∨
    (opcode inst = opJalr ∧ (d.regs (rs1 inst) + Iss.immI inst) &&& ~~~1#32 = d.pc)

/-- An access of `w` bytes at `a` stays in the data RAM. -/
def InDram (memsize : ℕ) (a w : Word) : Prop :=
  ramSize memsize ≤ a.toNat ∧ a.toNat + w.toNat ≤ 2 * ramSize memsize

/-- The step trapped, or left a pc the next one traps on. -/
def traps (r : Iss.Ret × Rv) : Bool := r.1 == .code rvTrap || r.2.pc.toNat % 4 != 0

/-- What is known after an instruction: MRET changes `mepc` and `mtval` in the core only, a trap
sets them in both, and a write makes `mscratch` known. -/
def Known.after (k : Known) (inst : Word) (trapped : Bool) : Known where
  counters := k.counters
  mscratch := k.mscratch || writesCsr inst csrMscratch
  mepc := !isMretWord inst && (k.mepc || trapped)
  mtval := !isMretWord inst && (k.mtval || trapped)

/-- The instructions and surroundings the two models agree on: `d` and `inst` are the simulator's
at its opcode switch. -/
structure Supported (memsize : ℕ) (host : Host) (d : Rv) (inst : Word) : Prop where
  legal : Rv.rejects inst = false
  pc : d.pc.toNat < ramSize memsize
  notSelf : ¬ JumpsToSelf d inst
  load : opcode inst = opLoad → (d.loadAddr inst).toNat % (width (func3 inst)).toNat = 0 →
    InDram memsize (d.loadAddr inst) (width (func3 inst))
  store : opcode inst = opStore → (d.storeAddr inst).toNat % (width (func3 inst)).toNat = 0 →
    InDram memsize (d.storeAddr inst) (width (func3 inst))
  mret : isMretWord inst = true → d.csr.mepc.toNat % 4 = 0
  mtvec : d.csr.mtvec.getLsbD 1 = false
  call : isEcallWord inst = true → ∃ res, (res = -1#32 ∨ res = d.regs regA0) ∧
    d.syscall host (d.regs regA7) (d.regs regA0) (d.regs regA1) (d.regs regA2) = (.ok res, d)
  target : (d.execNext .rv32im inst host false).2.pc.toNat < ramSize memsize
  calm : (d.execNext .rv32im inst host false).2.Undisturbed

/-- The registers that may differ are not read; without the counters there are no CSR
instructions. -/
structure Readable (k : Known) (inst : Word) : Prop where
  counters : opcode inst = opSystem → k.counters = true
  mscratch : readsCsr inst csrMscratch = true → k.mscratch = true
  mepc : readsCsr inst csrMepc = true ∨ isMretWord inst = true → k.mepc = true
  mtval : readsCsr inst csrMtval = true → k.mtval = true

/-- The simulator charges what the pipeline takes. -/
structure Exact (d : Rv) : Prop where
  branchPenalty : d.branchPenalty = 2#32
  branchPredict : d.branchPredict = false
  singleram : d.singleram = false

/-- The registers the slot leaves, in terms of the simulator's before it. -/
def slotRegs (x : Slot) (d : Rv) : BitVec 5 → Word :=
  if !x.excp && Slot.writesRd x.insn then
    Function.update d.regs (rd x.insn)
      (if opcode x.insn = opLoad then d.loadValue x.insn else x.result .rv32im)
  else d.regs

/-- The memory the slot leaves. -/
def slotMem (x : Slot) (d : Rv) : ℤ → Byte :=
  if x.memwr then d.copyIn (d.offset x.memaddr) (width x.ex.aluOp).toInt (Iss.byteOfWord x.aluOp2)
  else d.mem

/-- The simulator's state `e` after the instruction is what the slot `x` makes of `d`. -/
structure Advance (k : Known) (x : Slot) (d e : Rv) : Prop where
  pc : e.pc = x.successor
  regs : ∀ n, n ≠ 0#5 → e.regs n = slotRegs x d n
  mem : e.mem = slotMem x d
  csr : SameCsr k x.csrNext e.csr
  memBase : e.memBase = d.memBase
  memSize : e.memSize = d.memSize
  branchPenalty : e.branchPenalty = d.branchPenalty
  branchPredict : e.branchPredict = d.branchPredict
  singleram : e.singleram = d.singleram
  latch : e.latch = d.latch
  cycle : Exact d → e.csr.cycle = d.csr.cycle + (if x.redirects then 2#64 else 0#64)
  instret : e.csr.instret = d.csr.instret

variable {k : Known} {x : Slot} {d : Rv} {inst : Word} {host : Host} {memsize : ℕ}

theorem Advance.settle {e : Rv} (h : Advance k x d e) (hu : e.Undisturbed) (hr : e.InRange e.pc)
    (ha : e.pc.toNat % 4 = 0) : Advance k x d (e.settle .rv32im) := by
  rw [hu.settle hr ha]
  refine ⟨h.pc, fun n hn => ?_, h.mem, h.csr, h.memBase, h.memSize, h.branchPenalty,
    h.branchPredict, h.singleram, h.latch, h.cycle, h.instret⟩
  change Function.update e.regs 0#5 0#32 n = _
  rw [Function.update_of_ne hn]
  exact h.regs n hn

theorem SameCsr.weaken {k' : Known} {c : Rtl.Csr} {e : Iss.Csr} (h : SameCsr k c e)
    (hs : k'.mscratch = true → k.mscratch = true) (he : k'.mepc = true → k.mepc = true)
    (hv : k'.mtval = true → k.mtval = true) : SameCsr k' c e :=
  ⟨h.mvendorid, h.marchid, h.mimpid, h.mhartid, h.mstatus, h.mstatush, h.misa, h.mie, h.mip,
    h.mtvec, h.mcause, fun hk => h.mscratch (hs hk), fun hk => h.mepc (he hk),
    fun hk => h.mtval (hv hk)⟩

/-- The comparison looks at the identification registers and the trap CSRs only. -/
theorem SameCsr.congr {c : Rtl.Csr} {e e' : Iss.Csr} (h : SameCsr k c e)
    (hi : e'.mvendorid = e.mvendorid ∧ e'.marchid = e.marchid ∧ e'.mimpid = e.mimpid ∧
      e'.mhartid = e.mhartid) (hv : csrView e' = csrView e) : SameCsr k c e' := by
  have hf : ∀ f : Rtl.Csr → Word, f (csrView e') = f (csrView e) := fun f => by rw [hv]
  exact ⟨hi.1.trans h.mvendorid, hi.2.1.trans h.marchid, hi.2.2.1.trans h.mimpid,
    hi.2.2.2.trans h.mhartid, h.mstatus.trans (hf Rtl.Csr.mstatus).symm,
    h.mstatush.trans (hf Rtl.Csr.mstatush).symm, h.misa.trans (hf Rtl.Csr.misa).symm,
    h.mie.trans (hf Rtl.Csr.mie).symm, h.mip.trans (hf Rtl.Csr.mip).symm,
    h.mtvec.trans (hf Rtl.Csr.mtvec).symm, h.mcause.trans (hf Rtl.Csr.mcause).symm,
    fun hk => (h.mscratch hk).trans (hf Rtl.Csr.mscratch).symm,
    fun hk => (h.mepc hk).trans (hf Rtl.Csr.mepc).symm,
    fun hk => (h.mtval hk).trans (hf Rtl.Csr.mtval).symm⟩

/-- The interrupt inputs of the slot are low. -/
structure NoIrq (x : Slot) : Prop where
  timerIrq : x.timerIrq = false
  swIrq : x.swIrq = false
  irq : x.irq = false

theorem NoIrq.ints (h : NoIrq x) : x.timerInt = false ∧ x.swInt = false ∧ x.extInt = false := by
  simp [Slot.timerInt, Slot.swInt, Slot.extInt, Slot.irqGate, h.timerIrq, h.swIrq, h.irq]

theorem NoIrq.interrupted (h : NoIrq x) : x.interrupted = false := by
  simp [Slot.interrupted, h.ints]

theorem NoIrq.trap (h : NoIrq x) (hf : x.flush = false) : x.trap = (x.excp || x.systemcall) := by
  simp [Slot.trap_eq hf, h.interrupted]

/-- An instruction that neither traps nor writes a CSR leaves the CSRs as they are. -/
theorem csrNext_of_quiet (h : Matched k x d inst) (hq : NoIrq x) (hx : x.excp = false)
    (hs : opcode inst ≠ opSystem) : x.csrNext = x.csr := by
  have hw : x.ex.csrWr = false := by simp [h.ex, Rtl.decode, hs]
  have hsys : x.systemcall = false := by simp [Slot.systemcall_eq_env h.loaded, h.insn, hs]
  simp only [Slot.excp, Bool.or_eq_false_iff, and_assoc] at hx
  simp only [Slot.csrNext, Slot.csrFile, Slot.trapCsr, hx, hw, hq.ints, hsys, Bool.false_eq_true,
    if_false, ite_self]

theorem advance_retire (h : Matched k x d inst) (hq : NoIrq x) (hx : x.excp = false)
    (hs : opcode inst ≠ opSystem) (hl : opcode inst ≠ opLoad) (hst : opcode inst ≠ opStore)
    (c : Word) (hc : Exact d → c.signExtend 64 = if x.branchTaken then 2#64 else 0#64) :
    Advance k x d ((retire x d).cycleAdd c) := by
  have hsys : x.systemcall = false := by simp [Slot.systemcall_eq_env h.loaded, h.insn, hs]
  have ht : x.trap = false := by simp [hq.trap h.loaded.unflushed, hx, hsys]
  have hm : x.memwr = false := by simp [Slot.memwr, h.ex, Rtl.decode, hst]
  have hr : x.redirects = x.branchTaken := by simp [Slot.redirects, ht]
  refine ⟨?_, fun n _ => ?_, ?_, ?_, rfl, rfl, rfl, rfl, rfl, rfl, fun he => ?_, rfl⟩
  · simp [Slot.successor, Slot.isMret, Slot.isEnvCall, hsys, hx, hq.interrupted, retire,
      Rv.cycleAdd]
  · simp [slotRegs, hx, h.insn, hl, retire, Rv.cycleAdd]
  · simp [slotMem, hm, retire, Rv.cycleAdd]
  · rw [csrNext_of_quiet h hq hx hs]
    exact h.csr.congr ⟨rfl, rfl, rfl, rfl⟩ rfl
  · change d.csr.cycle + c.signExtend 64 = _
    rw [hc he, hr]

/-! What a legal word is not. -/

theorem legal_iff : Rv.rejects inst = false ↔
    Slot.illegalWord inst = false ∧ Slot.isEnv3 inst = false ∧ onlyRtl inst = false := by
  rw [rejects_eq]
  simp only [Bool.or_eq_false_iff, and_assoc]

theorem Supported.instIllExcp (hs : Supported memsize host d inst) (h : Matched k x d inst) :
    x.instIllExcp = false := by
  rw [Slot.instIllExcp_eq h.loaded, h.insn]
  exact (legal_iff.mp hs.legal).1

theorem Supported.reserved (hs : Supported memsize host d inst) : reserved inst = false := by
  have := (legal_iff.mp hs.legal).2.2
  simp only [onlyRtl, Bool.or_eq_false_iff] at this
  exact this.1

theorem ldAlignExcp_of_ne (h : Matched k x d inst) (ho : opcode inst ≠ opLoad) :
    x.ldAlignExcp = false := by
  simp [Slot.ldAlignExcp, h.mem2reg, ho]

theorem stAlignExcp_of_ne (h : Matched k x d inst) (ho : opcode inst ≠ opStore) :
    x.stAlignExcp = false := by
  simp [Slot.stAlignExcp, h.ex, Rtl.decode, ho]

theorem instAlignExcp_of_ne (h : Matched k x d inst) (h3 : opcode inst ≠ opJal)
    (h4 : opcode inst ≠ opJalr) (h5 : opcode inst ≠ opBranch) : x.instAlignExcp = false :=
  Slot.instAlignExcp_of_no_jump h.loaded h.aligned_pc (by simp [h.ex, Rtl.decode, h3])
    (by simp [h.ex, Rtl.decode, h4]) (by simp [h.ex, Rtl.decode, h5])

theorem excp_of (hill : x.instIllExcp = false) (ha : x.instAlignExcp = false)
    (hl : x.ldAlignExcp = false) (hst : x.stAlignExcp = false) : x.excp = false := by
  simp [Slot.excp, hill, ha, hl, hst]

theorem advance_simple (h : Matched k x d inst) (hq : NoIrq x)
    (hs : Supported memsize host d inst)
    (ho : opcode inst = opAuipc ∨ opcode inst = opLui ∨ opcode inst = opFence ∨
      opcode inst = opArithI ∨ opcode inst = opArithR) :
    (d.execNext .rv32im inst host false).1 = .code rvOkay ∧
      Advance k x d (d.execNext .rv32im inst host false).2 := by
  have hne : opcode inst ≠ opJal ∧ opcode inst ≠ opJalr ∧ opcode inst ≠ opBranch ∧
      opcode inst ≠ opLoad ∧ opcode inst ≠ opStore ∧ opcode inst ≠ opSystem := by
    rcases ho with ho | ho | ho | ho | ho <;> rw [ho] <;> decide
  obtain ⟨h3, h4, h5, h6, h7, h11⟩ := hne
  have hex : d.execNext .rv32im inst host false = (.code rvOkay, retire x d) := by
    rcases ho with ho | ho | ho | ho | ho
    · exact h.execNext_auipc host ho
    · exact h.execNext_lui host ho
    · exact h.execNext_fence host ho
    · exact h.execNext_arithI host ho hs.reserved
    · refine h.execNext_arithR host ho ?_ hs.reserved
      have := (legal_iff.mp hs.legal).1
      simp only [Slot.illegalWord, ho] at this
      simp only [Rtl.isLegal, ho, Rtl.isAluFn]
      by_cases h0 : func7 inst = 0#7 <;> by_cases h2 : func7 inst = 0x20#7 <;> simp_all
  have hb : x.branchTaken = false := by simp [Slot.branchTaken, h.ex, Rtl.decode, h3, h4, h5]
  have hx := excp_of (hs.instIllExcp h) (instAlignExcp_of_ne h h3 h4 h5) (ldAlignExcp_of_ne h h6)
    (stAlignExcp_of_ne h h7)
  rw [hex]
  refine ⟨rfl, ?_⟩
  have := advance_retire h hq hx h11 h6 h7 0#32 (fun _ => by rw [hb]; rfl)
  rwa [Rv.cycleAdd_zero] at this

theorem target_aligned (h : Matched k x d inst) (hx : x.excp = false)
    (ht : x.branchTaken = true) : x.target.toNat % 4 = 0 := by
  rw [← Slot.nextPc_of_taken hx ht]
  exact Slot.aligned_of_not_excp h.loaded.unflushed hx

theorem Supported.target_ne (hs : Supported memsize host d inst) (h : Matched k x d inst)
    (ho : opcode inst = opJal ∨ opcode inst = opJalr) : x.target ≠ d.pc := by
  intro he
  apply hs.notSelf
  rcases ho with ho | ho
  · exact Or.inl ⟨ho, by rw [← h.target_jal ho, he]⟩
  · exact Or.inr ⟨ho, by rw [← h.target_jalr ho, he]⟩

theorem advance_jump (h : Matched k x d inst) (hq : NoIrq x) (hs : Supported memsize host d inst)
    (ho : opcode inst = opJal ∨ opcode inst = opJalr) (ha : x.instAlignExcp = false) :
    (d.execNext .rv32im inst host false).1 = .code rvOkay ∧
      Advance k x d (d.execNext .rv32im inst host false).2 := by
  have hne : opcode inst ≠ opLoad ∧ opcode inst ≠ opStore ∧ opcode inst ≠ opSystem := by
    rcases ho with ho | ho <;> rw [ho] <;> decide
  obtain ⟨h6, h7, h11⟩ := hne
  have hb : x.branchTaken = true := by
    rcases ho with ho | ho <;> simp [Slot.branchTaken, h.ex, Rtl.decode, ho, h.loaded.unflushed]
  have hx := excp_of (hs.instIllExcp h) ha (ldAlignExcp_of_ne h h6) (stAlignExcp_of_ne h h7)
  rw [h.execNext_jump host ho (hs.target_ne h ho) (target_aligned h hx hb)]
  refine ⟨rfl, advance_retire h hq hx h11 h6 h7 _ fun he => ?_⟩
  rw [he.branchPenalty, hb]
  rfl

theorem advance_branch (h : Matched k x d inst) (hq : NoIrq x)
    (hs : Supported memsize host d inst) (ho : opcode inst = opBranch)
    (ha : x.instAlignExcp = false) :
    (d.execNext .rv32im inst host false).1 = .code rvOkay ∧
      Advance k x d (d.execNext .rv32im inst host false).2 := by
  have hne : opcode inst ≠ opLoad ∧ opcode inst ≠ opStore ∧ opcode inst ≠ opSystem := by
    rw [ho]
    decide
  obtain ⟨h6, h7, h11⟩ := hne
  have hx := excp_of (hs.instIllExcp h) ha (ldAlignExcp_of_ne h h6) (stAlignExcp_of_ne h h7)
  rw [h.execNext_branch host ho (h.branchCond_ne_none hx ho) (target_aligned h hx)]
  refine ⟨rfl, advance_retire h hq hx h11 h6 h7 _ fun he => ?_⟩
  cases x.branchTaken with
  | false => rfl
  | true =>
    rw [if_pos rfl, if_pos rfl, Matched.branchCharge, he.branchPredict, he.branchPenalty]
    simp

/-! Loads and stores. -/

theorem ramCycle_eq (d : Rv) : d.ramCycle = d.cycleAdd (if d.singleram then 1#32 else 0#32) := by
  unfold Rv.ramCycle
  split
  · rfl
  · rw [Rv.cycleAdd_zero]

theorem memOk_of_inDram (hm : Mapped memsize d) {a w : Word} (ha : InDram memsize a w)
    (hw : w.toNat ≤ 4) : d.memOk a w = true := by
  have := hm.based.small
  have h4 := Rtl.ramSize_mod memsize
  have ha2 := ha.2
  by_cases hlt : a.toNat < 2 ^ 31 - 4
  · exact (Iss.Rv.memOk_iff hm.based hw hlt).mpr ha.2
  · exfalso
    have hs := hm.small
    unfold ramSize at *
    omega

theorem Supported.isLoadOp (hs : Supported memsize host d inst) (ho : opcode inst = opLoad) :
    Rtl.isLoadOp (func3 inst) = true := by
  have := (legal_iff.mp hs.legal).1
  simpa [Slot.illegalWord, ho] using this

theorem Supported.isStoreOp (hs : Supported memsize host d inst) (ho : opcode inst = opStore) :
    Rtl.isStoreOp (func3 inst) = true := by
  have := (legal_iff.mp hs.legal).1
  simpa [Slot.illegalWord, ho] using this

/-- Going on to the next word from a state that differs from `d` in registers, memory and the
cycles a shared RAM costs. -/
theorem advance_data (h : Matched k x d inst) (hq : NoIrq x) (hx : x.excp = false)
    (hs : opcode inst ≠ opSystem) (hb : x.branchTaken = false) {r : BitVec 5 → Word}
    {m : ℤ → Byte} (hr : ∀ n, n ≠ 0#5 → r n = slotRegs x d n) (hm : m = slotMem x d) :
    Advance k x d
      { d.ramCycle with regs := r, mem := m, pc := d.ramCycle.pc + 4#32 } := by
  have hsys : x.systemcall = false := by simp [Slot.systemcall_eq_env h.loaded, h.insn, hs]
  have ht : x.trap = false := by simp [hq.trap h.loaded.unflushed, hx, hsys]
  rw [ramCycle_eq]
  refine ⟨?_, hr, hm, ?_, rfl, rfl, rfl, rfl, rfl, rfl, fun he => ?_, rfl⟩
  · simp [Slot.successor, Slot.isMret, Slot.isEnvCall, hsys, hx, hq.interrupted, hb, h.pc,
      Rv.cycleAdd]
  · rw [csrNext_of_quiet h hq hx hs]
    exact h.csr.congr ⟨rfl, rfl, rfl, rfl⟩ rfl
  · simp [Slot.redirects, ht, hb, he.singleram]

theorem advance_load (h : Matched k x d inst) (hq : NoIrq x) (hs : Supported memsize host d inst)
    (hm : Mapped memsize d) (ho : opcode inst = opLoad) (hal : x.ldAlignExcp = false) :
    (d.execNext .rv32im inst host false).1 = .code rvOkay ∧
      Advance k x d (d.execNext .rv32im inst host false).2 := by
  have hl := hs.isLoadOp ho
  have h7 : opcode inst ≠ opStore := by rw [ho]; decide
  have h11 : opcode inst ≠ opSystem := by rw [ho]; decide
  have ha := load_aligned h ho hl hal
  have hd : d.DataOk inst := by
    refine ⟨fun _ hop => ⟨ha, ?_⟩, fun hc => absurd hc h7⟩
    exact memOk_of_inDram hm (hs.load ho ha) (width_le _ (Or.inl hop))
  have hx := excp_of (hs.instIllExcp h)
    (instAlignExcp_of_ne h (by rw [ho]; decide) (by rw [ho]; decide) (by rw [ho]; decide)) hal
    (stAlignExcp_of_ne h h7)
  have hb : x.branchTaken = false := by simp [Slot.branchTaken, h.ex, Rtl.decode, ho]
  have hw : Slot.writesRd inst = true := by simp [Slot.writesRd, ho]
  have hmw : x.memwr = false := by simp [Slot.memwr, h.ex, Rtl.decode, ho]
  have hmem : d.ramCycle.mem = d.mem := by rw [ramCycle_eq]; rfl
  rw [Rv.execNext, Rv.exec_load hd ho hl]
  refine ⟨rfl, ?_⟩
  have := advance_data h hq hx h11 hb (r := Function.update d.regs (rd inst) (d.loadValue inst))
    (m := d.ramCycle.mem)
    (fun n _ => by simp [slotRegs, hx, h.insn, hw, ho]) (by simp [slotMem, hmw, hmem])
  exact this

theorem advance_store (h : Matched k x d inst) (hq : NoIrq x)
    (hs : Supported memsize host d inst) (hm : Mapped memsize d) (ho : opcode inst = opStore)
    (hal : x.stAlignExcp = false) :
    (d.execNext .rv32im inst host false).1 = .code rvOkay ∧
      Advance k x d (d.execNext .rv32im inst host false).2 := by
  have hl := hs.isStoreOp ho
  have h6 : opcode inst ≠ opLoad := by rw [ho]; decide
  have h11 : opcode inst ≠ opSystem := by rw [ho]; decide
  have hop : x.ex.aluOp = func3 inst := by simp [h.ex, Rtl.decode]
  have ha := store_aligned h ho hl hal
  have hd : d.DataOk inst := by
    refine ⟨fun hc => absurd hc h6, fun _ hop => ⟨ha, ?_⟩⟩
    exact memOk_of_inDram hm (hs.store ho ha) (width_le _ (Or.inr hop))
  have hx := excp_of (hs.instIllExcp h)
    (instAlignExcp_of_ne h (by rw [ho]; decide) (by rw [ho]; decide) (by rw [ho]; decide))
    (ldAlignExcp_of_ne h h6) hal
  have hb : x.branchTaken = false := by simp [Slot.branchTaken, h.ex, Rtl.decode, ho]
  have hw : Slot.writesRd inst = false := by simp [Slot.writesRd, ho]
  have hmw : x.memwr = true := by simp [Slot.memwr, h.ex, Rtl.decode, ho, h.loaded.unflushed, hal]
  have hv : x.aluOp2 = d.regs (rs2 inst) := by
    simp [Slot.aluOp2, h.ex, Rtl.decode, ho, h.src2]
  rw [Rv.execNext, Rv.exec_store hd ho hl]
  refine ⟨rfl, ?_⟩
  have := advance_data h hq hx h11 hb (r := d.regs) (m := slotMem x d)
    (fun n _ => by simp [slotRegs, h.insn, hw]) rfl
  rw [slotMem, if_pos hmw, h.memaddr_store ho, hop, hv, ramCycle_eq] at this
  rw [ramCycle_eq]
  exact this

/-! Traps. -/

/-- What is known after a trap. -/
def Known.trapped (k : Known) : Known := { k with mepc := true, mtval := true }

theorem advance_trap (h : Matched k x d inst) (hv : d.csr.mtvec.getLsbD 1 = false) (w : Word)
    (hw : d.singleram = false → w = 0#32) {c val : Word} (ht : x.trap = true)
    (hm : x.isMret = false) (hcause : x.mcause = c) (hcode : c &&& 0xf#32 = c)
    (hcsr : x.csrNext = Slot.enter x.csr c (Rtl.even x.pc) val) (hregs : slotRegs x d = d.regs)
    (hmem : x.memwr = false) : Advance k.trapped x d ((d.cycleAdd w).trap c val) := by
  have hr : x.redirects = true := by simp [Slot.redirects, ht]
  refine ⟨?_, fun n _ => by rw [hregs]; rfl, ?_, ?_, rfl, rfl, rfl, rfl, rfl, rfl, fun he => ?_,
    rfl⟩
  · rw [← Slot.fetchNext_of_redirects h.loaded.unflushed hr, h.fetchNext_vector ht hm hv, hcause,
      hcode]
    rfl
  · rw [slotMem, hmem, if_neg (by simp)]
    rfl
  · rw [hcsr]
    refine ⟨h.csr.mvendorid, h.csr.marchid, h.csr.mimpid, h.csr.mhartid, ?_, h.csr.mstatush,
      h.csr.misa, h.csr.mie, h.csr.mip, h.csr.mtvec, rfl, h.csr.mscratch, fun _ => ?_, fun _ => rfl⟩
    · exact h.enter_mstatus c (Rtl.even x.pc) val
    · exact h.even_pc
  · change d.csr.cycle + w.signExtend 64 + d.branchPenalty.signExtend 64 = _
    rw [hw he.singleram, he.branchPenalty, hr]
    simp

theorem slotRegs_of_excp (hx : x.excp = true) : slotRegs x d = d.regs := by
  simp [slotRegs, hx]

theorem advance_dataAlign (h : Matched k x d inst) (hs : Supported memsize host d inst)
    (ho : opcode inst = opLoad ∨ opcode inst = opStore) (hx : x.excp = true) :
    (d.execNext .rv32im inst host false).1 = .code rvTrap ∧
      Advance k.trapped x d (d.execNext .rv32im inst host false).2 := by
  have hill := hs.instIllExcp h
  have ha : x.instAlignExcp = false := by
    rcases ho with ho | ho <;>
      exact instAlignExcp_of_ne h (by rw [ho]; decide) (by rw [ho]; decide) (by rw [ho]; decide)
  have hm := h.isMret_false_of_excp hx
  have ht : x.trap = true := by simp [Slot.trap, hx, h.loaded.unflushed]
  have hcsr := Slot.csrNext_of_trap h.loaded h.aligned_pc ht
  have hram : d.singleram = false → (if d.singleram then 1#32 else 0#32) = 0#32 := by
    intro hr
    simp [hr]
  cases hld : x.ldAlignExcp with
  | true =>
    have hol : opcode inst ≠ opStore := by
      intro hc
      rw [ldAlignExcp_of_ne h (by rw [hc]; decide)] at hld
      cases hld
    rw [Rv.execNext, exec_ldAlign h hld, ramCycle_eq]
    refine ⟨rfl, advance_trap h hs.mtvec _ hram ht hm ?_ (by decide) ?_ (slotRegs_of_excp hx) ?_⟩
    · simp [Slot.mcause, hill, ha, hld]
    · rw [hcsr, Slot.trapEntry, hill, ha, hld]
      rfl
    · simp [Slot.memwr, h.ex, Rtl.decode, hol]
  | false =>
    have hst : x.stAlignExcp = true := by simpa [Slot.excp, hill, ha, hld] using hx
    rw [Rv.execNext, exec_stAlign h hst, ramCycle_eq]
    refine ⟨rfl, advance_trap h hs.mtvec _ hram ht hm ?_ (by decide) ?_ (slotRegs_of_excp hx) ?_⟩
    · simp [Slot.mcause, hill, ha, hld, hst]
    · rw [hcsr, Slot.trapEntry, hill, ha, hld, hst]
      rfl
    · simp [Slot.memwr, hst]

/-- A jump or branch to a misaligned target traps when the next step starts. -/
theorem advance_instAlign (h : Matched k x d inst) (hs : Supported memsize host d inst)
    (hm : Mapped memsize d) (ha : x.instAlignExcp = true) :
    traps (d.execNext .rv32im inst host false) = true ∧
      Advance k.trapped x d ((d.execNext .rv32im inst host false).2.settle .rv32im) := by
  have hill := hs.instIllExcp h
  have hx : x.excp = true := by simp [Slot.excp, ha]
  have hmr := h.isMret_false_of_excp hx
  have ht : x.trap = true := by simp [Slot.trap, hx, h.loaded.unflushed]
  obtain ⟨hexec, hnext, hmis, hop⟩ : d.execNext .rv32im inst host false = _ ∧ _ :=
    execNext_instAlign h hill ha
  have hmw : x.memwr = false := by
    simp [Slot.memwr, h.ex, Rtl.decode, hop]
  have hcsr : x.csrNext = Slot.enter x.csr trapInstAlign (Rtl.even x.pc) x.target := by
    rw [Slot.csrNext_of_trap h.loaded h.aligned_pc ht, Slot.trapEntry, hill, ha, ← hnext]
    rfl
  have hadv := advance_trap h hs.mtvec 0#32 (fun _ => rfl) ht hmr
    (by simp [Slot.mcause, hill, ha]) (by decide) hcsr (slotRegs_of_excp hx) hmw
  rw [Rv.cycleAdd_zero] at hadv
  have htgt := hs.target
  have hcalm := hs.calm
  rw [hexec] at htgt hcalm ⊢
  have hr : d.InRange x.target :=
    (Iss.Rv.inRange_iff hm.based (by have := hm.based.small; simp only at htgt; omega)).mpr
      (by simp only at htgt; omega)
  refine ⟨by simp [traps, hmis], ?_⟩
  have hu : ({ d with pc := x.target } : Rv).Undisturbed := hcalm
  rw [hu.settle_misaligned hr hmis]
  refine ⟨hadv.pc, fun n hn => ?_, hadv.mem, hadv.csr.congr ⟨rfl, rfl, rfl, rfl⟩ rfl, rfl, rfl, rfl,
    rfl, rfl, rfl, hadv.cycle, rfl⟩
  rw [← hadv.regs n hn]
  change Function.update d.regs 0#5 0#32 n = d.regs n
  rw [Function.update_of_ne hn]

theorem advance_env (h : Matched k x d inst) (hs : Supported memsize host d inst)
    (ho : opcode inst = opSystem) (h3 : func3 inst = opEcall) (hm : isMretWord inst = false) :
    (d.execNext .rv32im inst host false).1 = .code rvTrap ∧
      Advance k.trapped x d (d.execNext .rv32im inst host false).2 := by
  have hsys : x.systemcall = true := by simp [Slot.systemcall_eq_env h.loaded, h.insn, ho, h3]
  obtain ⟨hx, ht, hint, hcsr⟩ := csrNext_of_systemcall h.loaded h.aligned_pc hsys
  have hkind : x.envKind = (imm12 inst).extractLsb' 0 2 := by
    rw [Slot.envKind_eq h.loaded (by rw [h.insn]; exact ho), h.insn]
  have hk2 : x.envKind ≠ 2#2 := by
    rw [hkind]
    intro hk
    simp [isMretWord, ho, h3, hk] at hm
  have hk3 : x.envKind ≠ 3#2 := by
    rw [hkind]
    intro hk
    have := (legal_iff.mp hs.legal).2.1
    simp [Slot.isEnv3, ho, h3, hk] at this
  have hmr : x.isMret = false := by simp [Slot.isMret, hk2]
  have hx' := hx
  simp only [Slot.excp, Bool.or_eq_false_iff, and_assoc] at hx'
  have hirq : x.timerInt = false ∧ x.swInt = false ∧ x.extInt = false := by
    simpa [Slot.interrupted, hx, and_assoc] using hint
  have hregs : slotRegs x d = d.regs := by
    simp [slotRegs, h.insn, Slot.writesRd, ho, h3]
  have hmw : x.memwr = false := by simp [Slot.memwr, h.ex, Rtl.decode, ho]
  have hcases : ∀ q : BitVec 2, q = 0#2 ∨ q = 1#2 ∨ q = 2#2 ∨ q = 3#2 := by decide
  rcases hcases x.envKind with hq | hq | hq | hq
  · have hecall : isEcallWord inst = true := by simp [isEcallWord, ho, h3, ← hkind, hq]
    obtain ⟨res, hres, hcall⟩ := hs.call hecall
    have he : d.exec .rv32im inst host false = d.trapRet trapEcall 0#32 := by
      have hcall' : d.syscall host (d.readRegs .rv32im (Iss.Config.sys .rv32im))
          (d.readRegs .rv32im regA0) (d.readRegs .rv32im regA1)
          (d.readRegs .rv32im regA2) = (.ok res, d) := by
        rw [Rv.readRegs_rv32im, Rv.readRegs_rv32im, Rv.readRegs_rv32im, Rv.readRegs_rv32im]
        exact hcall
      rw [Rv.exec_ecall ho h3 (by rw [← hkind, hq]), Rv.execEcall, hcall']
      by_cases hr : res ≠ -1#32
      · have hr0 : res = d.regs regA0 := hres.resolve_left hr
        simp only [hr, if_true, ne_eq, not_false_eq_true, Rv.writeRegs_rv32im]
        rw [hr0, Function.update_eq_self]
      · simp only [hr, if_false]
    have hadv := advance_trap h hs.mtvec 0#32 (fun _ => rfl) ht hmr
      (c := trapEcall) (by simp [Slot.mcause, hx', hirq, hsys, hq]) (by decide)
      (by rw [hcsr, Slot.envCsr, hq]; rfl) hregs hmw
    rw [Rv.cycleAdd_zero] at hadv
    rw [Rv.execNext, he]
    exact ⟨rfl, hadv⟩
  · have hadv := advance_trap h hs.mtvec 0#32 (fun _ => rfl) ht hmr
      (c := trapBreak) (by simp [Slot.mcause, hx', hirq, hsys, hq]) (by decide)
      (by rw [hcsr, Slot.envCsr, hq]; rfl) hregs hmw
    rw [Rv.cycleAdd_zero, Slot.even_pc h.aligned_pc, h.pc] at hadv
    rw [Rv.execNext, Rv.exec_ebreak ho h3 (by rw [← hkind, hq])]
    exact ⟨rfl, hadv⟩
  · exact absurd hq hk2
  · exact absurd hq hk3

theorem advance_mret (h : Matched k x d inst) (hs : Supported memsize host d inst)
    (hm : isMretWord inst = true) (hk : k.mepc = true) :
    (d.execNext .rv32im inst host false).1 = .code rvOkay ∧
      Advance { k with mepc := false, mtval := false } x d
        (d.execNext .rv32im inst host false).2 := by
  have hal := hs.mret hm
  simp only [isMretWord, Bool.and_eq_true, beq_iff_eq] at hm
  obtain ⟨⟨ho, h3⟩, hk2⟩ := hm
  have hsys : x.systemcall = true := by simp [Slot.systemcall_eq_env h.loaded, h.insn, ho, h3]
  obtain ⟨hx, ht, hint, hcsr⟩ := csrNext_of_systemcall h.loaded h.aligned_pc hsys
  have hkind : x.envKind = 2#2 := by
    rw [Slot.envKind_eq h.loaded (by rw [h.insn]; exact ho), h.insn, hk2]
  have hmr : x.isMret = true := by simp [Slot.isMret, hsys, hkind]
  have hr : x.redirects = true := by simp [Slot.redirects, ht]
  have hregs : slotRegs x d = d.regs := by
    simp [slotRegs, h.insn, Slot.writesRd, ho, h3]
  have hmw : x.memwr = false := by simp [Slot.memwr, h.ex, Rtl.decode, ho]
  rw [execNext_mret ho h3 hk2, if_pos hal]
  refine ⟨rfl, ?_, fun n _ => by rw [hregs]; rfl, ?_, ?_, rfl, rfl, rfl, rfl, rfl, rfl,
    fun he => ?_, rfl⟩
  · rw [Slot.successor, hmr, if_pos rfl, h.csr.mepc hk]
    rfl
  · rw [slotMem, hmw, if_neg (by simp)]
    rfl
  · rw [hcsr]
    simp only [Slot.envCsr, hkind]
    refine ⟨h.csr.mvendorid, h.csr.marchid, h.csr.mimpid, h.csr.mhartid, ?_, h.csr.mstatush,
      h.csr.misa, h.csr.mie, h.csr.mip, h.csr.mtvec, h.csr.mcause, h.csr.mscratch,
      fun hc => by simp at hc, fun hc => by simp at hc⟩
    change Rtl.setBit x.csr.mstatus bitMie (x.csr.mstatus.getLsbD bitMpie) =
      Rtl.setBit d.csr.mstatus bitMie (d.csr.mstatus.getLsbD bitMpie)
    rw [h.csr.mstatus]
  · change d.csr.cycle + d.branchPenalty.signExtend 64 = _
    rw [he.branchPenalty, hr]
    rfl

/-- The operation of CSRRW and CSRRWI does not look at the old value. -/
theorem csrNew_of_write (hf : func3 inst = opCsrrw ∨ func3 inst = opCsrrwi) (a b v : Word) :
    csrNew (func3 inst) a v = csrNew (func3 inst) b v := by
  rcases hf with hf | hf <;> rw [hf] <;> rfl

/-- A CSR that may differ is only written. -/
theorem Readable.knows (hr : Readable k inst) (ho : opcode inst = opSystem)
    (h0 : func3 inst ≠ opEcall) :
    k.Knows (imm12 inst) ∨
      ((func3 inst = opCsrrw ∨ func3 inst = opCsrrwi) ∧ rd inst = 0#5) := by
  by_cases hw : (func3 inst = opCsrrw ∨ func3 inst = opCsrrwi) ∧ rd inst = 0#5
  · exact Or.inr hw
  · refine Or.inl ?_
    have hread : ∀ n, imm12 inst = n → readsCsr inst n = true := by
      intro n hn
      simp only [not_and_or, not_or] at hw
      simpa [readsCsr, onCsr, ho, h0, hn] using hw
    exact ⟨fun hn => hr.mscratch (hread _ hn), fun hn => hr.mepc (Or.inl (hread _ hn)),
      fun hn => hr.mtval (hread _ hn)⟩

theorem advance_csr (h : Matched k x d inst) (hs : Supported memsize host d inst)
    (hr : Readable k inst) (ho : opcode inst = opSystem) (h0 : func3 inst ≠ opEcall) :
    (d.execNext .rv32im inst host false).1 = .code rvOkay ∧
      Advance (k.after inst false) x d (d.execNext .rv32im inst host false).2 := by
  have hkc := hr.counters ho
  obtain ⟨hl1, hl2, hl3⟩ := legal_iff.mp hs.legal
  have hn : imm12 inst ∈ Slot.csrNumbers := by simpa [Slot.illegalWord, ho, h0] using hl1
  have h4 : func3 inst ≠ 4#3 := by
    intro h4
    simp [onlyRtl, ho, h4, hn] at hl3
  obtain ⟨hx, ht, hb, -, hres, hread, hnext⟩ :=
    csrStep h.loaded h.aligned_pc (by rw [h.insn]; exact ho) (by rw [h.insn]; exact h0)
      (by rw [h.insn]; exact hn)
  rw [h.insn] at hread hnext
  rw [h.csrOp_eq h0 h4] at hnext
  have hsys : x.systemcall = false := by simp [Slot.systemcall_eq_env h.loaded, h.insn, h0]
  have hw : Slot.writesRd inst = true := by simp [Slot.writesRd, ho, h0]
  have hmw : x.memwr = false := by simp [Slot.memwr, h.ex, Rtl.decode, ho]
  have hmr : isMretWord inst = false := by simp [isMretWord, h0]
  have hol : opcode inst ≠ opLoad := by rw [ho]; decide
  have hint : x.interrupted = false := by
    have hop : x.ex.systemOp = true := by simp [h.ex, Rtl.decode, ho]
    simp [Slot.interrupted, Slot.timerInt, Slot.swInt, Slot.extInt, Slot.irqGate, hop]
  have hafter : (k.after inst false).mepc = k.mepc ∧ (k.after inst false).mtval = k.mtval := by
    simp [Known.after, hmr]
  rw [execNext_csr ho h0 h4 hn]
  refine ⟨rfl, ?_, fun n hn0 => ?_, ?_, ?_, rfl, rfl, rfl, rfl, rfl, rfl, fun _ => ?_, ?_⟩
  · simp [Slot.successor, Slot.isMret, Slot.isEnvCall, hsys, hx, hint, hb, h.pc]
  · -- the old value, unless it is dropped in `x0`
    have hv : rd inst ≠ 0#5 → x.result .rv32im = d.csr.read (imm12 inst) := by
      intro hrd
      have hk := (hr.knows ho h0).resolve_right fun hc => hrd hc.2
      rw [hres, hread, h.cycle hkc, h.instret hkc, Matched.read_eq h.csr hn hk]
      rfl
    change Function.update d.regs (rd inst) (d.csr.read (imm12 inst)) n = _
    rw [slotRegs, hx, h.insn, hw, if_neg hol]
    simp only [Bool.not_false, Bool.and_true, if_true]
    by_cases hrd : n = rd inst
    · subst hrd
      rw [Function.update_self, Function.update_self, hv hn0]
    · rw [Function.update_of_ne hrd, Function.update_of_ne hrd]
  · change d.mem = _
    rw [slotMem, hmw, if_neg (by simp)]
  · rw [hnext]
    have hmod : csrWrites inst = true → SameCsr (k.after inst false)
        (x.csr.modify (imm12 inst) fun old => csrNew (func3 inst) old (csrArg d inst))
        (d.csr.modify (imm12 inst) fun old => csrNew (func3 inst) old (csrArg d inst)) := by
      intro hwr
      have hm := h.csr.modify (imm12 inst) fun old => csrNew (func3 inst) old (csrArg d inst)
      refine ⟨hm.mvendorid, hm.marchid, hm.mimpid, hm.mhartid, hm.mstatus, hm.mstatush, hm.misa,
        hm.mie, hm.mip, hm.mtvec, hm.mcause, fun hk => ?_, fun hk => hm.mepc (hafter.1 ▸ hk),
        fun hk => hm.mtval (hafter.2 ▸ hk)⟩
      cases hks : k.mscratch with
      | true => exact hm.mscratch hks
      | false =>
        -- CSRRW makes `csr_mscratch` the same, whatever it was
        have hwm : writesCsr inst csrMscratch = true := by simpa [Known.after, hks] using hk
        have him : imm12 inst = csrMscratch := by
          simp only [writesCsr, onCsr, Bool.and_eq_true, beq_iff_eq] at hwm
          exact hwm.1.2
        have hop := (hr.knows ho h0).resolve_left fun hc => by
          rw [hc.1 him] at hks
          cases hks
        rw [him]
        exact csrNew_of_write hop.1 _ _ _
    cases hwr : csrWrites inst with
    | true => exact hmod hwr
    | false =>
      refine h.csr.weaken (fun hk => ?_) (fun hk => hafter.1 ▸ hk) fun hk => hafter.2 ▸ hk
      simpa [Known.after, writesCsr, hwr] using hk
  · have hred : x.redirects = false := by simp [Slot.redirects, ht, hb]
    rw [hred]
    cases csrWrites inst <;> simp [Iss.Csr.modify_cycle]
  · cases csrWrites inst <;> simp [Iss.Csr.modify_instret]

/-! All instructions. -/

theorem isMret_eq (h : Matched k x d inst) : x.isMret = isMretWord inst := by
  rw [Slot.isMret, isMretWord, Slot.systemcall_eq_env h.loaded, h.insn]
  by_cases ho : opcode inst = opSystem
  · rw [Slot.envKind_eq h.loaded (by rw [h.insn]; exact ho), h.insn]
  · rw [beq_eq_false_iff_ne.mpr ho]
    rfl

theorem successor_aligned (h : Matched k x d inst) (hs : Supported memsize host d inst)
    (hr : Readable k inst) : x.successor.toNat % 4 = 0 := by
  have hpc := h.aligned_pc
  cases hrd : x.redirects with
  | false =>
    rw [Slot.successor_of_not_redirects h.loaded.unflushed hrd, BitVec.toNat_add]
    simp only [BitVec.toNat_ofNat]
    omega
  | true =>
    rw [← Slot.fetchNext_of_redirects h.loaded.unflushed hrd]
    refine Slot.fetchNext_aligned ?_ fun hm => ?_
    · rw [h.loaded.fetchPc, BitVec.toNat_add]
      simp only [BitVec.toNat_ofNat]
      omega
    · rw [isMret_eq h] at hm
      rw [h.csr.mepc (hr.mepc (Or.inr hm))]
      exact hs.mret hm

theorem after_eq (hm : isMretWord inst = false) (hw : writesCsr inst csrMscratch = false)
    (b : Bool) : k.after inst b = if b then k.trapped else k := by
  rcases k with ⟨c, s, e, v⟩
  cases b <;> simp [Known.after, Known.trapped, hm, hw]

theorem Supported.settled {k' : Known} (hs : Supported memsize host d inst)
    (h : Matched k x d inst) (hr : Readable k inst) (hm : Mapped memsize d)
    (ha : Advance k' x d (d.execNext .rv32im inst host false).2) :
    (d.execNext .rv32im inst host false).2.pc.toNat % 4 = 0 ∧
      Advance k' x d ((d.execNext .rv32im inst host false).2.settle .rv32im) := by
  have hal : (d.execNext .rv32im inst host false).2.pc.toNat % 4 = 0 := by
    rw [ha.pc]
    exact successor_aligned h hs hr
  have hb := hm.based
  have ht := hs.target
  have hsmall := hb.small
  refine ⟨hal, ha.settle hs.calm ?_ hal⟩
  have hbe : (d.execNext .rv32im inst host false).2.Based (2 * ramSize memsize) :=
    ⟨ha.memBase.trans hb.memBase, ha.memSize.trans hb.memSize, hsmall⟩
  exact (Iss.Rv.inRange_iff hbe (by omega)).mpr (by omega)

theorem Supported.advance (hs : Supported memsize host d inst) (h : Matched k x d inst)
    (hq : NoIrq x) (hr : Readable k inst) (hm : Mapped memsize d) :
    Advance (k.after inst (traps (d.execNext .rv32im inst host false))) x d
      ((d.execNext .rv32im inst host false).2.settle .rv32im) := by
  -- an instruction that returns, and below one that traps; the arms need only say which they are
  have hok : ∀ {k'}, (d.execNext .rv32im inst host false).1 = .code rvOkay →
      Advance k' x d (d.execNext .rv32im inst host false).2 → k.after inst false = k' →
      Advance (k.after inst (traps (d.execNext .rv32im inst host false))) x d
        ((d.execNext .rv32im inst host false).2.settle .rv32im) := by
    intro k' hret ha hk
    obtain ⟨hal, hset⟩ := hs.settled h hr hm ha
    have ht : traps (d.execNext .rv32im inst host false) = false := by simp [traps, hret, hal]
    rw [ht, hk]
    exact hset
  have htrap : (d.execNext .rv32im inst host false).1 = .code rvTrap →
      Advance k.trapped x d (d.execNext .rv32im inst host false).2 →
      k.after inst true = k.trapped →
      Advance (k.after inst (traps (d.execNext .rv32im inst host false))) x d
        ((d.execNext .rv32im inst host false).2.settle .rv32im) := by
    intro hret ha hk
    have ht : traps (d.execNext .rv32im inst host false) = true := by simp [traps, hret]
    rw [ht, hk]
    exact (hs.settled h hr hm ha).2
  by_cases ho : opcode inst = opSystem
  · by_cases h0 : func3 inst = opEcall
    · have hw : writesCsr inst csrMscratch = false := by simp [writesCsr, onCsr, h0]
      cases hmr : isMretWord inst with
      | true =>
        obtain ⟨hret, ha⟩ := advance_mret h hs hmr (hr.mepc (Or.inr hmr))
        exact hok hret ha (by simp [Known.after, hmr, hw])
      | false =>
        obtain ⟨hret, ha⟩ := advance_env h hs ho h0 hmr
        exact htrap hret ha (after_eq hmr hw true)
    · obtain ⟨hret, ha⟩ := advance_csr h hs hr ho h0
      exact hok hret ha rfl
  have hmr : isMretWord inst = false := by simp [isMretWord, ho]
  have hw : writesCsr inst csrMscratch = false := by simp [writesCsr, onCsr, ho]
  have hkeep : k.after inst false = k := after_eq hmr hw false
  cases ha : x.instAlignExcp with
  | true =>
    obtain ⟨ht, hadv⟩ := advance_instAlign h hs hm ha
    rw [ht, after_eq hmr hw true]
    exact hadv
  | false =>
    by_cases hj : opcode inst = opJal ∨ opcode inst = opJalr
    · obtain ⟨hret, hadv⟩ := advance_jump h hq hs hj ha
      exact hok hret hadv hkeep
    by_cases h5 : opcode inst = opBranch
    · obtain ⟨hret, hadv⟩ := advance_branch h hq hs h5 ha
      exact hok hret hadv hkeep
    by_cases h6 : opcode inst = opLoad
    · cases hld : x.ldAlignExcp with
      | true =>
        obtain ⟨hret, hadv⟩ := advance_dataAlign h hs (Or.inl h6) (by simp [Slot.excp, hld])
        exact htrap hret hadv (after_eq hmr hw true)
      | false =>
        obtain ⟨hret, hadv⟩ := advance_load h hq hs hm h6 hld
        exact hok hret hadv hkeep
    by_cases h7 : opcode inst = opStore
    · cases hst : x.stAlignExcp with
      | true =>
        obtain ⟨hret, hadv⟩ := advance_dataAlign h hs (Or.inr h7) (by simp [Slot.excp, hst])
        exact htrap hret hadv (after_eq hmr hw true)
      | false =>
        obtain ⟨hret, hadv⟩ := advance_store h hq hs hm h7 hst
        exact hok hret hadv hkeep
    -- what is left writes `rd` and goes on
    · have hknown : Rv.knownOp inst = true := by
        have hill := (legal_iff.mp hs.legal).1
        by_cases h8 : opcode inst = opArithI
        · simp [Rv.knownOp, h8]
        by_cases h9 : opcode inst = opArithR
        · simp [Rv.knownOp, h9]
        · simpa [Slot.illegalWord, h5, h6, h7, h8, h9, ho] using hill
      obtain ⟨h3, h4⟩ := not_or.mp hj
      simp only [Rv.knownOp, Bool.or_eq_true, beq_iff_eq, h3, h4, h5, h6, h7, ho, or_false,
        or_assoc] at hknown
      rw [← or_assoc (a := opcode inst = opArithI), or_comm (b := opcode inst = opFence)] at hknown
      obtain ⟨hret, hadv⟩ := advance_simple h hq hs hknown
      exact hok hret hadv hkeep

end Srv32.Refine
