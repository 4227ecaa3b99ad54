import Srv32.Iss.Run
import Srv32.Refine.Advance
import Srv32.Rtl.Retire

/-! The board runs the simulator's instructions: each unflushed slot of stage 2 executes one step
of the simulator, from the state the simulator has there. -/

namespace Srv32.Iss

variable {host : ℕ → Host} {rv : Rv}

theorem result_eq (n : ℕ) : result .rv32im host rv n =
    (atSwitch .rv32im host rv n).1.execNext .rv32im (atSwitch .rv32im host rv n).2 (host n) false := by
  rw [result, Rv.srv32Step_eq, Rv.dispatch_rv32im, atSwitch]

theorem run_succ (n : ℕ) : run .rv32im host rv (n + 1) = (result .rv32im host rv n).2 := rfl

theorem atSwitch_succ (n : ℕ) : atSwitch .rv32im host rv (n + 1) =
    (result .rv32im host rv n).2.prologue .rv32im (host (n + 1)) := rfl

theorem atSwitch_pc (n : ℕ) : (atSwitch .rv32im host rv n).1.pc =
    ((run .rv32im host rv n).settle .rv32im).pc := rfl

end Srv32.Iss

namespace Srv32.Refine

open Iss (Rv Host srv32Step rvOkay rvExit rvTrap atSwitch)
open Iss.Rv (width)
open Rtl (Slot Board Pins State Calm ReadyFrom startup ramSize Mem2ports)
open Rtl.State (slotAt nextCycle exCycle)

section

variable (memsize : ℕ) (pins : ℕ → Pins) (b : Board) (m : Word)

/-- In cycle `t` the board is about to execute `inst` from the simulator's state `d`. Registers and
memory are those one cycle later, when the write-back of the slot before is done. -/
structure Sim (k : Known) (t : ℕ) (d : Rv) (inst : Word) : Prop where
  matched : Matched k (slotAt .rv32im (b.inputs .rv32im memsize pins) m t) d inst
  regs : ∀ n, n ≠ 0#5 →
    (State.run .rv32im (b.inputs .rv32im memsize pins) m (t + 1)).regs n = d.regs n
  mem : SameMem memsize b.imem.ram (b.run .rv32im memsize pins (t + 1)).dmem.ram d.mem
  mapped : Mapped memsize d
  exact : k.counters = true → Exact d

end

variable {memsize : ℕ} {pins : ℕ → Pins} {b : Board} {m : Word} {k : Known} {s t : ℕ} {d : Rv}
  {inst : Word} {host : Host}

theorem noIrq (hc : Calm s pins) :
    NoIrq (slotAt .rv32im (b.inputs .rv32im memsize pins) m t) :=
  ⟨hc.timerIrq t, hc.swIrq t, hc.interrupt t⟩

theorem Sim.load (h : Sim memsize pins b m k t d inst) (hs : Supported memsize host d inst)
    (ho : opcode inst = opLoad)
    (hal : (slotAt .rv32im (b.inputs .rv32im memsize pins) m t).ldAlignExcp = false) :
    d.loadValue inst = Rtl.loadData (func3 inst) ((d.loadAddr inst).extractLsb' 0 2)
      ((b.run .rv32im memsize pins (t + 1)).dmem.ram
        (Mem2ports.index (ramSize memsize) (Rtl.dramIndex memsize (d.loadAddr inst)))) := by
  have hl := hs.isLoadOp ho
  have ha := load_aligned h.matched ho hl hal
  obtain ⟨hlo, hhi⟩ := hs.load ho ha
  have hw := width_le _ (Or.inl hl)
  have h4 := Rtl.ramSize_mod memsize
  have hpos : 0 < (width (func3 inst)).toNat := by
    have hl' := hl
    revert hl'
    rcases Bits.cases3 (func3 inst) with hf | hf | hf | hf | hf | hf | hf | hf <;> rw [hf] <;>
      decide
  rw [Rtl.index_dram h.mapped.small hlo (by omega)]
  refine loadData_eq hl ha _ _ fun i hi => ?_
  have hsmall := h.mapped.based.small
  have hd := h.mem.data ((d.loadAddr inst).toNat - ramSize memsize + i) (by omega)
  rw [Iss.Rv.offset_eq h.mapped.based (by omega)]
  rw [show ramSize memsize + ((d.loadAddr inst).toNat - ramSize memsize + i) =
      (d.loadAddr inst).toNat + i by omega] at hd
  push_cast at hd
  rw [hd]
  congr 2 <;> omega

theorem Sim.regs_after (h : Sim memsize pins b m k t d inst) (hb : b.core = .reset .rv32im m)
    (hc : Calm s pins) (ht : startup s ≤ t) (hs : Supported memsize host d inst) (n : BitVec 5)
    (hn : n ≠ 0#5) : (State.run .rv32im (b.inputs .rv32im memsize pins) m (t + 2)).regs n =
      slotRegs (slotAt .rv32im (b.inputs .rv32im memsize pins) m t) d n := by
  have hrf : ReadyFrom s (b.inputs .rv32im memsize pins) := Board.readyFrom hc
  have hin : (State.run .rv32im (b.inputs .rv32im memsize pins) m t).exInsn = inst := h.matched.insn
  have hfl : (State.run .rv32im (b.inputs .rv32im memsize pins) m t).exFlush = false :=
    h.matched.loaded.unflushed
  have hmr : (State.run .rv32im (b.inputs .rv32im memsize pins) m t).exMem2reg =
      (opcode inst == opLoad) := h.matched.mem2reg
  have hop : (State.run .rv32im (b.inputs .rv32im memsize pins) m t).ex.aluOp = func3 inst := by
    have := h.matched.ex
    change (State.run .rv32im (b.inputs .rv32im memsize pins) m t).ex = _ at this
    rw [this]
    rfl
  have hrun := State.run_regs (p := .rv32im) (m := m) hrf ht
  have hval := State.run_wbValue (p := .rv32im) (m := m) hrf ht
  rw [hin, hfl, Bool.false_or] at hrun
  rw [hmr, hop] at hval
  rw [hrun, slotRegs, h.matched.insn]
  cases hx : (slotAt .rv32im (b.inputs .rv32im memsize pins) m t).excp with
  | true =>
    rw [if_neg (by simp), if_neg (by simp)]
    exact h.regs n hn
  | false =>
    cases hw : Slot.writesRd inst with
    | false =>
      rw [if_neg (by simp), if_neg (by simp)]
      exact h.regs n hn
    | true =>
      rw [if_pos (show (!false && true) = true from rfl)]
      -- the register of the slot gets the value of stage 3, the rest is as before
      by_cases hr : n = rd inst
      · subst hr
        rw [if_pos ⟨rfl, hn⟩, Function.update_self, Function.update_self, hval]
        by_cases ho : opcode inst = opLoad
        · have hal : (slotAt .rv32im (b.inputs .rv32im memsize pins) m t).ldAlignExcp = false := by
            simp only [Slot.excp, Bool.or_eq_false_iff] at hx
            exact hx.1.2
          have hl : (b.run .rv32im memsize pins t).core.exMem2reg = true := by
            rw [Board.core_run hb, hmr]
            simp [ho]
          rw [if_pos (by simp [ho]), if_pos ho, Board.dmem_rdata hb t hl,
            h.matched.memaddr_load ho]
          exact (h.load hs ho hal).symm
        · rw [if_neg (by simp [ho]), if_neg ho]
      · have hne := h.regs n hn
        split
        · rw [Function.update_of_ne hr, Function.update_of_ne hr]
          exact hne
        · rw [Function.update_of_ne hr]
          exact hne

theorem Sim.mem_after (h : Sim memsize pins b m k t d inst) (hb : b.core = .reset .rv32im m)
    (hc : Calm s pins) (ht : startup s ≤ t) (hs : Supported memsize host d inst) :
    SameMem memsize b.imem.ram (b.run .rv32im memsize pins (t + 2)).dmem.ram
      (slotMem (slotAt .rv32im (b.inputs .rv32im memsize pins) m t) d) := by
  rw [Board.dmem_ram hb hc ht, slotMem]
  dsimp only
  cases hw : (slotAt .rv32im (b.inputs .rv32im memsize pins) m t).memwr with
  | false =>
    rw [if_neg (by simp), if_neg (by simp)]
    exact h.mem
  | true =>
    rw [if_pos rfl, if_pos rfl]
    have hx := (Rtl.Slot.memwr_eq h.matched.loaded).symm.trans hw
    rw [h.matched.insn] at hx
    simp only [Bool.and_eq_true, beq_iff_eq, Bool.not_eq_true'] at hx
    obtain ⟨ho, hal⟩ := hx
    have hl := hs.isStoreOp ho
    have ha := store_aligned h.matched ho hl hal
    obtain ⟨hlo, hhi⟩ := hs.store ho ha
    have hop : (slotAt .rv32im (b.inputs .rv32im memsize pins) m t).ex.aluOp = func3 inst := by
      rw [h.matched.ex]
      rfl
    have hsmall := h.mapped.based.small
    have hpos : 0 < (width (func3 inst)).toNat := by
      have hl' := hl
      revert hl'
      rcases Bits.cases3 (func3 inst) with hf | hf | hf | hf | hf | hf | hf | hf <;> rw [hf] <;>
        decide
    have hst := h.mem.store h.mapped.small (by rw [hop]; exact hl)
      (by rw [hop, h.matched.memaddr_store ho]; exact ha)
      (by rw [h.matched.memaddr_store ho]; exact hlo)
      (by rw [h.matched.memaddr_store ho]; omega)
    have hoff : d.offset (slotAt .rv32im (b.inputs .rv32im memsize pins) m t).memaddr =
        ((slotAt .rv32im (b.inputs .rv32im memsize pins) m t).memaddr.toNat : ℤ) :=
      Iss.Rv.offset_eq h.mapped.based (by rw [h.matched.memaddr_store ho]; omega)
    rw [hoff, width_toInt _ (by rw [hop]; exact Or.inr hl)]
    exact hst

section

variable (memsize : ℕ) (pins : ℕ → Pins) (b : Board) (m : Word)

/-- In cycle `u` the board is about to execute what the simulator, in the state `e`, is about to
fetch. -/
structure Fetches (k : Known) (u : ℕ) (e : Rv) : Prop where
  unflushed : (State.run .rv32im (b.inputs .rv32im memsize pins) m u).exFlush = false
  pc : (State.run .rv32im (b.inputs .rv32im memsize pins) m u).exPc = e.pc
  pc_lt : e.pc.toNat < ramSize memsize
  aligned : e.pc.toNat % 4 = 0
  regs : ∀ n, n ≠ 0#5 →
    (State.run .rv32im (b.inputs .rv32im memsize pins) m (u + 1)).regs n = e.regs n
  zero : e.regs 0#5 = 0#32
  mem : SameMem memsize b.imem.ram (b.run .rv32im memsize pins (u + 1)).dmem.ram e.mem
  mapped : Mapped memsize e
  csr : SameCsr k (State.run .rv32im (b.inputs .rv32im memsize pins) m u).csr e.csr
  cycle : k.counters = true →
    (State.run .rv32im (b.inputs .rv32im memsize pins) m u).cycle = e.csr.cycle
  instret : k.counters = true →
    (State.run .rv32im (b.inputs .rv32im memsize pins) m u).instret = e.csr.instret
  exact : k.counters = true → Exact e

end

/-- The word of the slot is the one the simulator fetches, and the operands it reads are the
simulator's. -/
theorem Fetches.sim {u : ℕ} {e : Rv} (h : Fetches memsize pins b m k u e)
    (hb : b.core = .reset .rv32im m) (hc : Calm s pins) (hu : startup s ≤ u) (host : Host) :
    Sim memsize pins b m k u (e.sampleIrq (e.fetch host)).count (e.fetch host) := by
  have hrf : ReadyFrom s (b.inputs .rv32im memsize pins) := Board.readyFrom hc
  have hread : ∀ n, (State.run .rv32im (b.inputs .rv32im memsize pins) m u).regRdata
      (b.inputs .rv32im memsize pins u) n = e.regs n := by
    intro n
    rw [State.run_regRdata hrf hu h.unflushed]
    split
    · rename_i hn
      rw [hn, h.zero]
    · rename_i hn
      exact h.regs n hn
  have hinsn : (State.run .rv32im (b.inputs .rv32im memsize pins) m u).exInsn = e.fetch host := by
    have hi : (b.run .rv32im memsize pins u).core.exInsn = _ := Board.run_insn hb hc hu
    rw [Board.core_run hb, h.pc] at hi
    rw [hi, h.mem.fetch h.mapped h.pc_lt h.aligned]
  have hdec := (State.run_flowing (p := .rv32im) (m := m) hrf hu).decoded
  have hl := (State.run_flowing (p := .rv32im) (m := m) hrf hu).loaded h.unflushed
    (b.inputs .rv32im memsize pins u)
  rw [hinsn] at hdec
  refine ⟨⟨hl, hinsn, h.pc, rfl, h.aligned, ?_, ?_, ?_, fun hk => ?_, fun hk => ?_⟩, h.regs, h.mem,
    ⟨h.mapped.memBase, h.mapped.memSize, h.mapped.small⟩, fun hk => ?_⟩
  · have hsel : (State.run .rv32im (b.inputs .rv32im memsize pins) m u).ex.src1Sel =
        rs1 (e.fetch host) := by
      rw [hdec]
      rfl
    change (State.run .rv32im (b.inputs .rv32im memsize pins) m u).regRdata _ _ = _
    rw [hsel]
    exact hread _
  · have hsel : (State.run .rv32im (b.inputs .rv32im memsize pins) m u).ex.src2Sel =
        rs2 (e.fetch host) := by
      rw [hdec]
      rfl
    change (State.run .rv32im (b.inputs .rv32im memsize pins) m u).regRdata _ _ = _
    rw [hsel]
    exact hread _
  · exact h.csr.congr ⟨rfl, rfl, rfl, rfl⟩ rfl
  -- the simulator counts the instruction before the switch, the core as it leaves the slot
  · change (State.run .rv32im (b.inputs .rv32im memsize pins) m u).cycle = e.csr.cycle + 1#64 - 1#64
    rw [h.cycle hk]
    bv_omega
  · change (State.run .rv32im (b.inputs .rv32im memsize pins) m u).instret =
      e.csr.instret + 1#64 - 1#64
    rw [h.instret hk]
    bv_omega
  · have he := h.exact hk
    exact ⟨he.branchPenalty, he.branchPredict, he.singleram⟩

theorem Sim.step (h : Sim memsize pins b m k t d inst) (hb : b.core = .reset .rv32im m)
    (hc : Calm s pins) (ht : startup s ≤ t) (hs : Supported memsize host d inst)
    (hr : Readable k inst) (host' : Host)
    (hpc : ((d.execNext .rv32im inst host false).2.settle .rv32im).pc.toNat < ramSize memsize) :
    Sim memsize pins b m (k.after inst (traps (d.execNext .rv32im inst host false)))
      (nextCycle .rv32im (b.inputs .rv32im memsize pins) m t)
      (((d.execNext .rv32im inst host false).2.prologue .rv32im host').1)
      (((d.execNext .rv32im inst host false).2.prologue .rv32im host').2) := by
  have hrf : ReadyFrom s (b.inputs .rv32im memsize pins) := Board.readyFrom hc
  have hfl : (State.run .rv32im (b.inputs .rv32im memsize pins) m t).exFlush = false :=
    h.matched.loaded.unflushed
  have hadv := hs.advance h.matched (noIrq hc) hr h.mapped
  have hregs := h.regs_after hb hc ht hs
  have hmem := h.mem_after hb hc ht hs
  obtain ⟨hnr, hncsr, hncy, hnin⟩ := State.run_next (p := .rv32im) (m := m) hrf ht hfl
  have hnm := Board.dmem_next hb hc ht hfl
  have hnf := (State.run_between (p := .rv32im) (m := m) hrf ht hfl).2
  have hnpc := State.run_next_pc (p := .rv32im) (m := m) hrf ht hfl
  have hz := Iss.Rv.settle_regs (d.execNext .rv32im inst host false).2
  have hlt := State.lt_nextCycle (p := .rv32im) (i := b.inputs .rv32im memsize pins) (m := m) t
  have hal := successor_aligned h.matched hs hr
  rw [← hadv.pc] at hal
  -- after a redirect the next unflushed slot holds the target, otherwise the word after
  have hpc' : (State.run .rv32im (b.inputs .rv32im memsize pins) m
      (nextCycle .rv32im (b.inputs .rv32im memsize pins) m t)).exPc =
      ((d.execNext .rv32im inst host false).2.settle .rv32im).pc := by
    rw [hnpc, hadv.pc]
    split
    · rename_i hrd
      exact Slot.fetchNext_of_redirects hfl hrd
    · rename_i hrd
      exact (Slot.successor_of_not_redirects hfl (by simpa using hrd)).symm
  generalize hk' : k.after inst (traps (d.execNext .rv32im inst host false)) = k' at hadv ⊢
  have hkc : k'.counters = k.counters := by rw [← hk']; rfl
  change Sim memsize pins b m k' _
    (((d.execNext .rv32im inst host false).2.settle .rv32im).sampleIrq
      (((d.execNext .rv32im inst host false).2.settle .rv32im).fetch host')).count
    (((d.execNext .rv32im inst host false).2.settle .rv32im).fetch host')
  generalize (d.execNext .rv32im inst host false).2.settle .rv32im = e at hadv hpc hal hpc' hz ⊢
  generalize (d.execNext .rv32im inst host false).2 = r at hz
  generalize hu : nextCycle .rv32im (b.inputs .rv32im memsize pins) m t = u at *
  refine Fetches.sim ⟨hnf, hpc', hpc, hal, fun n hn => ?_, ?_, ?_, ?_, ?_, fun hk => ?_,
    fun hk => ?_, fun hk => ?_⟩ hb hc (by omega) host'
  · rw [hnr, hregs n hn, hadv.regs n hn]
  · rw [hz, Function.update_self]
  · rw [hnm, hadv.mem]
    exact hmem
  · exact ⟨hadv.memBase.trans h.mapped.memBase, hadv.memSize.trans h.mapped.memSize,
      h.mapped.small⟩
  · rw [hncsr]
    exact hadv.csr
  · rw [hkc] at hk
    have hcy := hadv.cycle (h.exact hk)
    have h0 := h.matched.cycle hk
    change (State.run .rv32im (b.inputs .rv32im memsize pins) m t).cycle = _ at h0
    rw [hncy, h0, hcy, State.cycles]
    split <;> bv_omega
  · rw [hkc] at hk
    have h0 := h.matched.instret hk
    change (State.run .rv32im (b.inputs .rv32im memsize pins) m t).instret = _ at h0
    rw [hnin, h0, hadv.instret]
    bv_omega
  · rw [hkc] at hk
    have he := h.exact hk
    exact ⟨hadv.branchPenalty.trans he.branchPenalty, hadv.branchPredict.trans he.branchPredict,
      hadv.singleram.trans he.singleram⟩

/-! From reset. -/

/-- The simulator as `main` starts it, with any options. -/
structure AtReset (memsize : ℕ) (rv : Rv) : Prop where
  pc : rv.pc = 0#32
  regs : rv.regs = fun _ => 0#32
  csr : rv.csr = (Rv.boot .rv32im memsize rv.mem).csr
  mapped : Mapped memsize rv

theorem atReset_boot (hm : memsize < 2 ^ 20) (mem : ℤ → Byte) :
    AtReset memsize (Rv.boot .rv32im memsize mem) :=
  ⟨rfl, rfl, rfl, rfl, rfl, hm⟩

/-- What is equal at reset: all but `csr_mscratch`, and the counters if the options are those of
the core. -/
def Known.atReset (exact : Bool) : Known := ⟨exact, false, true, true⟩

theorem AtReset.settle {rv : Rv} (h : AtReset memsize rv) (hpos : 0 < memsize) :
    rv.settle .rv32im = rv.fresh := by
  have hu : rv.Undisturbed := Or.inl (by simp [Rv.mieSet, h.csr, Rv.boot])
  refine hu.settle ?_ (by rw [h.pc]; rfl)
  rw [Iss.Rv.inRange_iff h.mapped.based (by simp [h.pc]), h.pc]
  unfold ramSize
  simp only [BitVec.toNat_ofNat]
  omega

/-- `csr_mscratch` may be taken as known if it powers up as 0. -/
theorem Sim.start_known {rv : Rv} (hb : b.core = .reset .rv32im m) (hc : Calm s pins)
    (h : AtReset memsize rv) (hmem : SameMem memsize b.imem.ram b.dmem.ram rv.mem)
    (hpos : 0 < memsize) (hx : k.counters = true → Exact rv)
    (hm : k.mscratch = true → m = 0#32) :
    Sim memsize pins b m k (startup s) (rv.prologue .rv32im host).1
      (rv.prologue .rv32im host).2 := by
  have hrf : ReadyFrom s (b.inputs .rv32im memsize pins) := Board.readyFrom hc
  have h0 := State.run_startup (p := .rv32im) (m := m) hrf
  have hram0 : 0 < ramSize memsize := by
    unfold ramSize
    omega
  have hset := h.settle hpos
  have hreg : rv.fresh.regs = fun _ => 0#32 := by
    change Function.update rv.regs 0#5 0#32 = _
    rw [h.regs]
    exact Function.update_eq_self (f := fun _ : BitVec 5 => 0#32) 0#5
  have hregs : (State.run .rv32im (b.inputs .rv32im memsize pins) m (startup s + 1)).regs =
      fun _ => 0#32 := State.run_startup_regs hrf
  have hram : (b.run .rv32im memsize pins (startup s + 1)).dmem.ram = b.dmem.ram := by
    refine Board.dmem_startup hb hc le_rfl ?_
    rw [Board.core_run hb]
    exact h0.wbMemwr
  rw [Rv.prologue, hset]
  have hfe : rv.fresh.pc = 0#32 := h.pc
  refine Fetches.sim (e := rv.fresh) ⟨h0.unflushed, h0.exPc.trans hfe.symm, ?_, ?_, fun n _ => ?_,
    ?_, ?_, ⟨h.mapped.memBase, h.mapped.memSize, h.mapped.small⟩, ?_, fun _ => ?_, fun _ => ?_,
    fun hk => ?_⟩ hb hc le_rfl host
  · rw [hfe]
    exact hram0
  · rw [hfe]
    rfl
  · rw [hregs]
    exact (congrFun hreg n).symm
  · rw [hreg]
  · rw [hram]
    exact hmem
  · have hsame : SameCsr k (State.reset .rv32im m).csr rv.csr := by
      rw [h.csr]
      exact ⟨rfl, rfl, rfl, rfl, rfl, rfl, rfl, rfl, rfl, rfl, rfl, hm, fun _ => rfl, fun _ => rfl⟩
    rw [h0.csr]
    exact hsame.congr ⟨rfl, rfl, rfl, rfl⟩ rfl
  · change (State.run .rv32im (b.inputs .rv32im memsize pins) m (startup s)).cycle = rv.csr.cycle
    rw [h0.cycle, h.csr]
    simp [Rv.boot]
  · change (State.run .rv32im (b.inputs .rv32im memsize pins) m (startup s)).instret =
      rv.csr.instret
    rw [h0.instret, h.csr]
    simp [Rv.boot]
  · have he := hx hk
    exact ⟨he.branchPenalty, he.branchPredict, he.singleram⟩

/-- What is known at the opcode switch of step `n`. -/
def known (hosts : ℕ → Host) (rv : Rv) (k : Known) : ℕ → Known
  | 0 => k
  | n + 1 => (known hosts rv k n).after (atSwitch .rv32im hosts rv n).2
      (traps (Iss.result .rv32im hosts rv n))

/-- In the cycle of its `n`-th unflushed slot the board executes the simulator's `n`-th
instruction. -/
theorem Sim.run_known {rv : Rv} {hosts : ℕ → Host} (hb : b.core = .reset .rv32im m)
    (hc : Calm s pins) (h : AtReset memsize rv)
    (hmem : SameMem memsize b.imem.ram b.dmem.ram rv.mem) (hx : k.counters = true → Exact rv)
    (hm : k.mscratch = true → m = 0#32) {n : ℕ}
    (hpc : ∀ j ≤ n, (atSwitch .rv32im hosts rv j).1.pc.toNat < ramSize memsize)
    (hs : ∀ j < n, Supported memsize (hosts j) (atSwitch .rv32im hosts rv j).1
      (atSwitch .rv32im hosts rv j).2)
    (hr : ∀ j < n, Readable (known hosts rv k j) (atSwitch .rv32im hosts rv j).2) :
    Sim memsize pins b m (known hosts rv k n)
      (exCycle .rv32im (b.inputs .rv32im memsize pins) m s n) (atSwitch .rv32im hosts rv n).1
      (atSwitch .rv32im hosts rv n).2 := by
  induction n with
  | zero =>
    refine Sim.start_known hb hc h hmem ?_ hx hm
    have := hpc 0 le_rfl
    unfold ramSize at this
    omega
  | succ n ih =>
    have ihn := ih (fun j hj => hpc j (by omega)) (fun j hj => hs j (by omega))
      (fun j hj => hr j (by omega))
    have hp := hpc (n + 1) le_rfl
    rw [Iss.atSwitch_pc, Iss.run_succ, Iss.result_eq] at hp
    rw [known, Iss.atSwitch_succ, Iss.result_eq]
    exact ihn.step hb hc (State.exCycle_spec (Board.readyFrom (p := .rv32im) (b := b) hc) n).1
      (hs n (by omega)) (hr n (by omega)) (hosts (n + 1)) hp

theorem Sim.run {rv : Rv} {exact : Bool} {hosts : ℕ → Host} (hb : b.core = .reset .rv32im m)
    (hc : Calm s pins) (h : AtReset memsize rv)
    (hmem : SameMem memsize b.imem.ram b.dmem.ram rv.mem) (hx : exact = true → Exact rv) {n : ℕ}
    (hpc : ∀ j ≤ n, (atSwitch .rv32im hosts rv j).1.pc.toNat < ramSize memsize)
    (hs : ∀ j < n, Supported memsize (hosts j) (atSwitch .rv32im hosts rv j).1
      (atSwitch .rv32im hosts rv j).2)
    (hr : ∀ j < n, Readable (known hosts rv (.atReset exact) j) (atSwitch .rv32im hosts rv j).2) :
    Sim memsize pins b m (known hosts rv (.atReset exact) n)
      (exCycle .rv32im (b.inputs .rv32im memsize pins) m s n) (atSwitch .rv32im hosts rv n).1
      (atSwitch .rv32im hosts rv n).2 :=
  Sim.run_known hb hc h hmem hx (fun hk => by cases hk) hpc hs hr

end Srv32.Refine
