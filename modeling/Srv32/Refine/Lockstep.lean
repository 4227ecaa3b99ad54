import Srv32.Refine.Hart
import Srv32.Refine.Simulation

/-! The sequential system and the simulator in lockstep, one instruction at a time, as long as
interrupts are not enabled. -/

namespace Srv32.Refine

open Iss (Rv Host)
open Iss.Rv (width)
open Rtl (Slot Hart Answer ramSize Mem2ports isClint isMmio)

variable {k : Known} {x : Slot} {d e : Rv} {inst : Word} {host : Host} {memsize : ℕ}
  {prog : ℕ → Word} {a : Hart} {ans : Answer}

/-! With MIE clear the interrupt inputs do not matter. -/

section

variable (hm : x.csr.mstatus.getLsbD bitMie = false)
include hm

theorem ints_of_masked : x.timerInt = false ∧ x.swInt = false ∧ x.extInt = false := by
  simp only [Slot.timerInt, Slot.swInt, Slot.extInt, Slot.irqGate, hm, Bool.and_false,
    Bool.false_and, and_self]

theorem interrupted_of_masked : x.interrupted = false := by
  obtain ⟨h1, h2, h3⟩ := ints_of_masked hm
  simp [Slot.interrupted, h1, h2, h3]

theorem successor_quiet : x.quiet.successor = x.successor := by
  have hq : x.quiet.interrupted = false := interrupted_of_masked (x := x.quiet) hm
  obtain ⟨h1, h2, h3⟩ := ints_of_masked hm
  obtain ⟨h4, h5, h6⟩ := ints_of_masked (x := x.quiet) hm
  have hc : x.quiet.mcause = x.mcause := by
    simp only [Slot.mcause, h1, h2, h3, h4, h5, h6]
    rfl
  have hv : x.quiet.vector = x.vector := by
    rw [Slot.vector, hc]
    rfl
  rw [Slot.successor, Slot.successor, hq, interrupted_of_masked hm, hv]
  rfl

theorem csrNext_quiet : x.quiet.csrNext = x.csrNext := by
  obtain ⟨h1, h2, h3⟩ := ints_of_masked hm
  obtain ⟨h4, h5, h6⟩ := ints_of_masked (x := x.quiet) hm
  simp only [Slot.csrNext, Slot.csrFile, Slot.trapCsr, h1, h2, h3, h4, h5, h6]
  rfl

theorem redirects_quiet : x.quiet.redirects = x.redirects := by
  obtain ⟨h1, h2, h3⟩ := ints_of_masked hm
  obtain ⟨h4, h5, h6⟩ := ints_of_masked (x := x.quiet) hm
  simp only [Slot.redirects, Slot.trap, h1, h2, h3, h4, h5, h6]
  rfl

theorem Advance.of_quiet (h : Advance k x.quiet d e) : Advance k x d e := by
  refine ⟨h.pc.trans (successor_quiet hm), h.regs, h.mem, csrNext_quiet hm ▸ h.csr, h.memBase,
    h.memSize, h.branchPenalty, h.branchPredict, h.singleram, h.latch, fun he => ?_, h.instret⟩
  rw [← redirects_quiet hm]
  exact h.cycle he

end

theorem Matched.quiet (h : Matched k x d inst) : Matched k x.quiet d inst :=
  ⟨⟨h.loaded.unflushed, h.loaded.decoded, h.loaded.mem2reg, h.loaded.fetchPc⟩, h.insn, h.pc,
    h.prevPc, h.aligned, h.src1, h.src2, h.csr, h.cycle, h.instret⟩

theorem width_pos (op : BitVec 3) : 0 < (width op).toNat := by
  rcases Bits.cases3 op with rfl | rfl | rfl | rfl | rfl | rfl | rfl | rfl <;> decide

/-- The two models agree before an instruction: `e` is the simulator's state when it fetches. -/
structure Lockstep (k : Known) (memsize : ℕ) (prog : ℕ → Word) (a : Hart) (e : Rv) : Prop where
  pc : a.pc = e.pc
  pc_lt : e.pc.toNat < ramSize memsize
  aligned : e.pc.toNat % 4 = 0
  regs : ∀ n, n ≠ 0#5 → a.regs n = e.regs n
  zero : e.regs 0#5 = 0#32
  mem : SameMem memsize prog a.ram e.mem
  mapped : Mapped memsize e
  csr : SameCsr k a.csr e.csr
  cycle : k.counters = true → a.cycle = e.csr.cycle
  instret : k.counters = true → a.instret = e.csr.instret
  exact : k.counters = true → Exact e

/-- The simulator's state at the opcode switch, when nothing disturbs its prologue. -/
def atOpcode (host : Host) (e : Rv) : Rv := (e.sampleIrq (e.fetch host)).count

namespace Lockstep

theorem word_eq (h : Lockstep k memsize prog a e) (host : Host) :
    a.word memsize prog = e.fetch host := by
  rw [Hart.word, h.pc, h.mem.fetch h.mapped h.pc_lt h.aligned]

theorem matched (h : Lockstep k memsize prog a e) (host : Host) :
    Matched k (a.slot .rv32im memsize prog) (atOpcode host e) (e.fetch host) := by
  have hw := h.word_eq host
  have hread : ∀ n, (if n = 0#5 then 0#32 else a.regs n) = e.regs n := by
    intro n
    split
    · rename_i hn
      rw [hn, h.zero]
    · rename_i hn
      exact h.regs n hn
  refine ⟨⟨rfl, rfl, rfl, rfl⟩, hw, h.pc, rfl, h.aligned, ?_, ?_, ?_, fun hk => ?_, fun hk => ?_⟩
  · change (if rs1 (a.word memsize prog) = 0#5 then 0#32 else a.regs _) = e.regs _
    rw [hread, hw]
  · change (if rs2 (a.word memsize prog) = 0#5 then 0#32 else a.regs _) = e.regs _
    rw [hread, hw]
  · exact h.csr.congr ⟨rfl, rfl, rfl, rfl⟩ rfl
  · change a.cycle = e.csr.cycle + 1#64 - 1#64
    rw [h.cycle hk]
    bv_omega
  · change a.instret = e.csr.instret + 1#64 - 1#64
    rw [h.instret hk]
    bv_omega

theorem opcode_mapped (h : Lockstep k memsize prog a e) (host : Host) :
    Mapped memsize (atOpcode host e) := ⟨h.mapped.memBase, h.mapped.memSize, h.mapped.small⟩

/-- A load of the data memory gets what the simulator's gets. -/
theorem load (h : Lockstep k memsize prog a e)
    (hs : Supported memsize host (atOpcode host e) (e.fetch host))
    (ho : opcode (e.fetch host) = opLoad)
    (hal : (a.slot .rv32im memsize prog).ldAlignExcp = false) :
    Rtl.loadData (func3 (e.fetch host))
        (((atOpcode host e).loadAddr (e.fetch host)).extractLsb' 0 2)
        (a.readData memsize ans ((atOpcode host e).loadAddr (e.fetch host))) =
      (atOpcode host e).loadValue (e.fetch host) := by
  have hl := hs.isLoadOp ho
  have ha := load_aligned (h.matched host) ho hl hal
  obtain ⟨hlo, hhi⟩ := hs.load ho ha
  have hw := width_le _ (Or.inl hl)
  have hmap := h.opcode_mapped host
  have hsmall := hmap.based.small
  have hpos := width_pos (func3 (e.fetch host))
  have h4 := Rtl.ramSize_mod memsize
  rw [Hart.Dram.readData h.mapped.small hpos ⟨ha, hlo, hhi⟩,
    Rtl.index_dram h.mapped.small hlo (by omega)]
  refine (loadData_eq hl ha _ _ fun i hi => ?_).symm
  have hd := h.mem.data
    (((atOpcode host e).loadAddr (e.fetch host)).toNat - ramSize memsize + i) (by omega)
  rw [Iss.Rv.offset_eq hmap.based (by omega)]
  rw [show ramSize memsize + (((atOpcode host e).loadAddr (e.fetch host)).toNat -
    ramSize memsize + i) = ((atOpcode host e).loadAddr (e.fetch host)).toNat + i by omega] at hd
  push_cast at hd
  change e.mem _ = _
  rw [hd]
  congr 2 <;> omega

theorem step_regs (ans : Rtl.Answer) (h : Lockstep k memsize prog a e)
    (hs : Supported memsize host (atOpcode host e) (e.fetch host)) (n : BitVec 5) (hn : n ≠ 0#5) :
    (a.step .rv32im memsize prog ans).regs n =
      slotRegs (a.slot .rv32im memsize prog) (atOpcode host e) n := by
  have hmt := h.matched host
  have hin : (a.slot .rv32im memsize prog).insn = e.fetch host := hmt.insn
  have hop : (a.slot .rv32im memsize prog).ex.aluOp = func3 (e.fetch host) := by
    rw [hmt.ex]
    rfl
  have hold : a.regs n = (atOpcode host e).regs n := h.regs n hn
  simp only [Hart.step, slotRegs, hin]
  cases hx : (a.slot .rv32im memsize prog).excp with
  | true => exact hold
  | false =>
    cases hw : Slot.writesRd (e.fetch host) with
    | false => exact hold
    | true =>
      simp only [Bool.not_true, Bool.or_false, true_and, Bool.not_false, Bool.and_true, if_true]
      by_cases hr : n = rd (e.fetch host)
      · subst hr
        rw [if_pos hn, Function.update_self, Function.update_self, hmt.mem2reg]
        by_cases ho : opcode (e.fetch host) = opLoad
        · have hal : (a.slot .rv32im memsize prog).ldAlignExcp = false := by
            simp only [Slot.excp, Bool.or_eq_false_iff] at hx
            exact hx.1.2
          rw [if_pos (by simp [ho]), if_pos ho, hop, hmt.memaddr_load ho]
          exact h.load hs ho hal
        · rw [if_neg (by simp [ho]), if_neg ho]
      · rw [Function.update_of_ne hr]
        split
        · rw [Function.update_of_ne hr]
          exact hold
        · exact hold

theorem step_mem (ans : Rtl.Answer) (h : Lockstep k memsize prog a e)
    (hs : Supported memsize host (atOpcode host e) (e.fetch host)) :
    SameMem memsize prog (a.step .rv32im memsize prog ans).ram
      (slotMem (a.slot .rv32im memsize prog) (atOpcode host e)) := by
  have hmt := h.matched host
  simp only [Hart.step, slotMem]
  cases hw : (a.slot .rv32im memsize prog).memwr with
  | false => exact h.mem
  | true =>
    have hx := (Rtl.Slot.memwr_eq hmt.loaded).symm.trans hw
    rw [hmt.insn] at hx
    simp only [Bool.and_eq_true, beq_iff_eq, Bool.not_eq_true'] at hx
    obtain ⟨ho, hal⟩ := hx
    have hl := hs.isStoreOp ho
    have ha := store_aligned hmt ho hl hal
    obtain ⟨hlo, hhi⟩ := hs.store ho ha
    have hop : (a.slot .rv32im memsize prog).ex.aluOp = func3 (e.fetch host) := by
      rw [hmt.ex]
      rfl
    have hmap := h.opcode_mapped host
    have hsmall := hmap.based.small
    have hpos := width_pos (func3 (e.fetch host))
    have haddr := hmt.memaddr_store ho
    obtain ⟨hc, hm⟩ := Hart.Dram.not_device h.mapped.small hpos ⟨ha, hlo, hhi⟩
    rw [haddr, hc, hm]
    simp only [Bool.not_false, Bool.and_true, if_true]
    have hmem : SameMem memsize prog a.ram (atOpcode host e).mem := h.mem
    have hst := hmem.store (x := a.slot .rv32im memsize prog)
      h.mapped.small (by rw [hop]; exact hl) (by rw [hop, haddr]; exact ha)
      (by rw [haddr]; exact hlo) (by rw [haddr]; omega)
    have hoff : (atOpcode host e).offset ((atOpcode host e).storeAddr (e.fetch host)) =
        (((atOpcode host e).storeAddr (e.fetch host)).toNat : ℤ) :=
      Iss.Rv.offset_eq hmap.based (by omega)
    rw [hoff, width_toInt _ (by rw [hop]; exact Or.inr hl)]
    rw [haddr] at hst
    exact hst

theorem step (h : Lockstep k memsize prog a e)
    (hs : Supported memsize host (atOpcode host e) (e.fetch host)) (hr : Readable k (e.fetch host))
    (hm : e.csr.mstatus.getLsbD bitMie = false)
    (hpc : (((atOpcode host e).execNext .rv32im (e.fetch host) host false).2.settle
      .rv32im).pc.toNat < ramSize memsize) :
    Lockstep
      (k.after (e.fetch host)
        (traps ((atOpcode host e).execNext .rv32im (e.fetch host) host false)))
      memsize prog (a.step .rv32im memsize prog ans)
      (((atOpcode host e).execNext .rv32im (e.fetch host) host false).2.settle .rv32im) := by
  have hmt := h.matched host
  have hmask : (a.slot .rv32im memsize prog).csr.mstatus.getLsbD bitMie = false := by
    change a.csr.mstatus.getLsbD bitMie = false
    rw [h.csr.mstatus, hm]
  have hadv := Advance.of_quiet hmask
    (hs.advance hmt.quiet ⟨rfl, rfl, rfl⟩ hr (h.opcode_mapped host))
  have hregs := h.step_regs ans hs
  have hmem := h.step_mem ans hs
  have hal := successor_aligned hmt hs hr
  rw [← hadv.pc] at hal
  have hz := Iss.Rv.settle_regs
    ((atOpcode host e).execNext .rv32im (e.fetch host) host false).2
  have hexact : k.counters = true → Exact (atOpcode host e) := by
    intro hk
    have he := h.exact hk
    exact ⟨he.branchPenalty, he.branchPredict, he.singleram⟩
  generalize hk' : k.after (e.fetch host) _ = k' at hadv ⊢
  have hkc : k'.counters = k.counters := by rw [← hk']; rfl
  generalize (((atOpcode host e).execNext .rv32im (e.fetch host) host false).2.settle .rv32im) = u
    at *
  refine ⟨?_, hpc, hal, fun n hn => ?_, ?_, ?_, ?_, hadv.csr, fun hk => ?_, fun hk => ?_,
    fun hk => ?_⟩
  · rw [Hart.step_pc, hadv.pc]
  · rw [hregs n hn, hadv.regs n hn]
  · rw [hz, Function.update_self]
  · rw [hadv.mem]
    exact hmem
  · exact ⟨hadv.memBase.trans h.mapped.memBase, hadv.memSize.trans h.mapped.memSize,
      h.mapped.small⟩
  · rw [hkc] at hk
    have h0 := hmt.cycle hk
    change a.cycle = _ at h0
    change a.cycle + Rtl.State.cycles _ = _
    rw [hadv.cycle (hexact hk), h0, Rtl.State.cycles]
    split <;> bv_omega
  · rw [hkc] at hk
    have h0 := hmt.instret hk
    change a.instret = _ at h0
    change a.instret + 1#64 = _
    rw [hadv.instret, h0]
    bv_omega
  · rw [hkc] at hk
    have he := hexact hk
    exact ⟨hadv.branchPenalty.trans he.branchPenalty, hadv.branchPredict.trans he.branchPredict,
      hadv.singleram.trans he.singleram⟩

end Lockstep

end Srv32.Refine
