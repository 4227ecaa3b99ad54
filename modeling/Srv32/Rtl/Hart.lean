import Srv32.Rtl.Soc

/-! The system without a pipeline: one instruction after the other, each with all of its effects.
The one trace the pipeline leaves is that a store reaches the CLINT a cycle late. -/

namespace Srv32.Rtl

namespace Clint

variable (c : Clint)

/-- The CLINT without its read port. -/
def silent : Clint := { c with rdata := 0#32 }

/-- One cycle with the store `w` on the write port. -/
def advance (w : Option (Word × Word)) : Clint :=
  c.silent.step ⟨true, w.isSome, (w.getD default).1, (w.getD default).2, false, 0#32⟩

/-- What a load of `addr` captures; `stale` is the read data of the last one. -/
def load (stale addr : Word) : Word :=
  ({ c with rdata := stale }.step ⟨true, false, 0#32, 0#32, true, addr⟩).rdata

end Clint

/-- What a load may get from outside. -/
structure Answer where
  result : Word
  stale : Word

/-- The system between two instructions. `port` is the store of the last one if it is still on its
way to the CLINT. -/
structure Hart where
  pc : Word
  regs : BitVec 5 → Word
  ram : ℕ → Word
  csr : Csr
  cycle : BitVec 64
  instret : BitVec 64
  clint : Clint
  port : Option (Word × Word)

/-- The store of a slot at the CLINT. -/
def Slot.clintStore (x : Slot) : Option (Word × Word) :=
  if x.memwr && isClint x.memaddr then some (x.memaddr, x.wdata) else none

namespace Hart

variable (p : Param) (memsize : ℕ) (prog : ℕ → Word) (a : Hart)

def word : Word := prog (Mem2ports.index (ramSize memsize) (a.pc.extractLsb' 2 30))

/-- What the instruction reads, with no other one in the pipeline. -/
def slot : Slot where
  ex := decode p (a.word memsize prog)
  pc := a.pc
  insn := a.word memsize prog
  mem2reg := opcode (a.word memsize prog) == opLoad
  fetchPc := a.pc + 8#32
  regRdata1 := if rs1 (a.word memsize prog) = 0#5 then 0#32 else a.regs (rs1 (a.word memsize prog))
  regRdata2 := if rs2 (a.word memsize prog) = 0#5 then 0#32 else a.regs (rs2 (a.word memsize prog))
  flush := false
  csr := a.csr
  cycle := a.cycle
  instret := a.instret
  timerIrq := a.clint.timerIrq
  swIrq := a.clint.swIrq
  irq := a.clint.exIrq

/-- The word a load of `addr` reads. -/
def readData (ans : Answer) (addr : Word) : Word :=
  if isClint addr then a.clint.load ans.stale addr
  else if addr = mmioFromhost then ans.result
  else a.ram (Mem2ports.index (ramSize memsize) (dramIndex memsize addr))

def step (ans : Answer) : Hart :=
  let x := a.slot p memsize prog
  let index := Mem2ports.index (ramSize memsize) (dramIndex memsize x.memaddr)
  { pc := if x.redirects then x.fetchNext else a.pc + 4#32
    regs :=
      if (x.excp || !Slot.writesRd x.insn) = false ∧ rd x.insn ≠ 0#5 then
        Function.update a.regs (rd x.insn)
          (if x.mem2reg then
            loadData x.ex.aluOp (x.memaddr.extractLsb' 0 2) (a.readData memsize ans x.memaddr)
          else x.result p)
      else a.regs
    ram :=
      if x.memwr && !isClint x.memaddr && !isMmio x.memaddr then
        Function.update a.ram index (mergeBytes x.wstrb (a.ram index) x.wdata)
      else a.ram
    csr := x.csrNext
    cycle := a.cycle + State.cycles x
    instret := a.instret + 1#64
    -- two more cycles pass while the pipeline refills
    clint :=
      if x.redirects then ((a.clint.advance a.port).advance x.clintStore).advance none
      else a.clint.advance a.port
    port := if x.redirects then none else x.clintStore }

theorem step_pc (ans : Answer) :
    (a.step p memsize prog ans).pc = (a.slot p memsize prog).successor := by
  have hf : (a.slot p memsize prog).flush = false := rfl
  simp only [step]
  cases hr : (a.slot p memsize prog).redirects with
  | true => exact Slot.fetchNext_of_redirects hf hr
  | false => exact (Slot.successor_of_not_redirects hf hr).symm

def run (ans : ℕ → Answer) : ℕ → Hart
  | 0 => a
  | n + 1 => (run ans n).step p memsize prog (ans n)

/-- The system at the first instruction. -/
def boot (p : Param) (mscratch : Word) (data : ℕ → Word) : Hart where
  pc := resetVec
  regs := fun _ => 0#32
  ram := data
  csr := (State.reset p mscratch).csr
  cycle := 0
  instret := 0
  -- `mtime` starts from 0, as does `mtimecmp`
  clint := { Clint.reset 0#32 with timerIrq := true }
  port := none

end Hart

namespace Clint

variable {c : Clint}

/-- A cycle writes what the write port holds. -/
theorem step_silent (b : ClintPort) (he : b.timerEn = true) : (c.step b).silent =
    c.silent.advance (if b.wready then some (b.waddr, b.wdata) else none) := by
  cases hw : b.wready with
  | false => simp [silent, advance, step, mtimeNxt, hw, he]
  | true => simp [silent, advance, step, mtimeNxt, hw, he]

/-- Until the timer runs, a cycle without a write just compares. -/
theorem step_waiting (b : ClintPort) (he : b.timerEn = false) (hw : b.wready = false) :
    (c.step b).silent =
      { c.silent with timerIrq := c.silent.mtimecmp.ule (c.silent.mtime + 1#64) } := by
  simp [silent, step, mtimeNxt, hw, he]

theorem step_load (b : ClintPort) (hr : b.rready = true) :
    (c.step b).rdata = c.silent.load c.rdata b.raddr := by
  simp [silent, load, step, hr, msip]

end Clint

namespace Soc

variable (p : Param) (memsize : ℕ) (host : ℕ → HostPins) (s : Soc)

/-- The store that reaches the CLINT in cycle `t`. -/
def port (t : ℕ) : Option (Word × Word) :=
  let core := (s.run p memsize host t).top.core
  if core.dmemWready && isClint core.wbWaddr then some (core.wbWaddr, core.wbWdata) else none

/-- What a load in the slot of cycle `t` may get from outside. -/
def answer (t : ℕ) : Answer :=
  ⟨(host (t + 1)).result, (s.run p memsize host t).top.clint.rdata⟩

/-- The system before the instruction in stage 2. Its predecessor is in stage 3, so the registers
and the data memory are those of the next cycle. -/
def view (t : ℕ) : Hart where
  pc := (s.run p memsize host t).top.core.exPc
  regs := (s.run p memsize host (t + 1)).top.core.regs
  ram := (s.run p memsize host (t + 1)).dmem.ram
  csr := (s.run p memsize host t).top.core.csr
  cycle := (s.run p memsize host t).top.core.cycle
  instret := (s.run p memsize host t).top.core.instret
  clint := (s.run p memsize host t).top.clint.silent
  port := s.port p memsize host t

variable {p host s} {m d : Word} {k : ℕ} {data : ℕ → Word}

section

variable (hb : s.top.core = .reset p m)
include hb

theorem view_eq (t : ℕ) : s.view p memsize host t =
    { pc := (State.run p (s.coreInputs p memsize host) m t).exPc
      regs := (State.run p (s.coreInputs p memsize host) m (t + 1)).regs
      ram := (s.run p memsize host (t + 1)).dmem.ram
      csr := (State.run p (s.coreInputs p memsize host) m t).csr
      cycle := (State.run p (s.coreInputs p memsize host) m t).cycle
      instret := (State.run p (s.coreInputs p memsize host) m t).instret
      clint := (s.run p memsize host t).top.clint.silent
      port := s.port p memsize host t } := by
  rw [view, core_run hb, core_run hb]

variable (host) in
/-- A load gets what the system holds before it, the CLINT's port apart. -/
theorem readData_view {t : ℕ}
    (hl : (State.run p (s.coreInputs p memsize host) m t).exMem2reg = true) :
    (s.coreInputs p memsize host (t + 1)).dmemRdata =
      (s.view p memsize host t).readData memsize (s.answer p memsize host t)
        (State.slotAt p (s.coreInputs p memsize host) m t).memaddr := by
  have hslot : State.slotAt p (s.coreInputs p memsize host) m t =
      (s.run p memsize host t).top.core.slot (s.coreInputs p memsize host t) := by
    rw [core_run hb]
    rfl
  rw [← core_run hb] at hl
  have haddr : (s.run p memsize host t).top.raddr ((s.run p memsize host t).input (host t)) =
      (State.slotAt p (s.coreInputs p memsize host) m t).memaddr := by
    rw [hslot, coreInputs_eq]
    rfl
  rw [← haddr, coreInputs_eq, Hart.readData]
  change (if (isClint _) = true then (Clint.step _ _).rdata else
    if (State.dmemRready _ && _) = true then (host (t + 1)).result
    else (Mem2ports.step _ _ _).rdata) = _
  cases hc : isClint
    ((s.run p memsize host t).top.raddr ((s.run p memsize host t).input (host t))) with
  | true =>
    rw [if_pos rfl, if_pos rfl, Clint.step_load]
    · rfl
    · simp only [Top.clintPort, State.dmemRready, hl, hc, Bool.and_self]
  | false =>
    have hr : (s.run p memsize host t).top.core.dmemRready = true := hl
    simp only [hr, Bool.true_and, Bool.false_eq_true, if_false, beq_iff_eq]
    split
    · rfl
    · rw [Mem2ports.step_rdata]
      · rfl
      · simp only [dmemPort, Top.dmemRready, hr, hc]
        rfl

variable (host) (hs : ∀ t, (host t).stall = decide (t < k))
include hs

theorem port_succ {t : ℕ} (ht : startup k ≤ t) : s.port p memsize host (t + 1) =
    (State.slotAt p (s.coreInputs p memsize host) m t).clintStore := by
  have h : ReadyFrom k (s.coreInputs p memsize host) := readyFrom hs
  have hw := State.run_wready (p := p) (m := m) h ht
  rw [port, Slot.clintStore]
  simp only [core_run hb]
  rw [hw]
  cases hm : (State.slotAt p (s.coreInputs p memsize host) m t).memwr with
  | false => rfl
  | true =>
    have hp := State.run_wport (p := p) h ht hm
    simp only [State.wport, Prod.mk.injEq] at hp
    rw [hp.1, hp.2.2]

theorem clint_succ {t : ℕ} (ht : startup k ≤ t) :
    (s.run p memsize host (t + 1)).top.clint.silent =
      (s.run p memsize host t).top.clint.silent.advance (s.port p memsize host t) := by
  have hen : (s.run p memsize host t).top.core.timerEn = true := by
    rw [core_run hb, State.timerEn, (State.run_flowing (readyFrom hs) ht).filled]
    rfl
  exact Clint.step_silent ((s.run p memsize host t).top.clintPort
    ((s.run p memsize host t).input (host t))) hen

/-- Stage 2 reads what the instruction would read by itself. -/
theorem slotAt_view {t : ℕ} (ht : startup k ≤ t)
    (hf : (State.run p (s.coreInputs p memsize host) m t).exFlush = false) :
    State.slotAt p (s.coreInputs p memsize host) m t =
      (s.view p memsize host t).slot p memsize s.imem.ram := by
  have h : ReadyFrom k (s.coreInputs p memsize host) := readyFrom hs
  have h0 := State.run_flowing (p := p) (m := m) h ht
  have hin : (State.run p (s.coreInputs p memsize host) m t).exInsn =
      (s.view p memsize host t).word memsize s.imem.ram := by
    rw [run_insn hb hs ht, Hart.word, view_eq memsize hb]
  have hex := h0.decoded
  rw [hin] at hex
  obtain ⟨hbr, hbn⟩ : (State.run p (s.coreInputs p memsize host) m t).wbBranch = false ∧
      (State.run p (s.coreInputs p memsize host) m t).wbBranchNxt = false := by
    simpa [State.exFlush] using hf
  have hfetch : (State.run p (s.coreInputs p memsize host) m t).fetchPc =
      (s.view p memsize host t).pc + 8#32 := by
    rw [h0.fetch hbr, h0.fetched hbr hbn, view_eq memsize hb, BitVec.add_assoc]
    rfl
  have hreg : ∀ n, (State.run p (s.coreInputs p memsize host) m t).regRdata
      (s.coreInputs p memsize host t) n =
        if n = 0#5 then 0#32 else (s.view p memsize host t).regs n := by
    intro n
    rw [State.run_regRdata h ht hf n, view_eq memsize hb]
  have hclint : (s.coreInputs p memsize host t).timerIrq =
        (s.run p memsize host t).top.clint.timerIrq ∧
      (s.coreInputs p memsize host t).swIrq = (s.run p memsize host t).top.clint.swIrq ∧
      (s.coreInputs p memsize host t).interrupt = (s.run p memsize host t).top.clint.exIrq := by
    rw [coreInputs_eq]
    exact ⟨rfl, rfl, rfl⟩
  have hm2 := h0.mem2reg
  rw [hin] at hm2
  simp only [State.slotAt, State.slot, Hart.slot, hex, hin, hm2, hfetch, hreg, hclint, hf]
  simp only [view_eq memsize hb]
  rfl

/-- The CLINT at the next unflushed slot, and what is on the way to it. -/
theorem clint_next {t : ℕ} (ht : startup k ≤ t)
    (hf : (State.run p (s.coreInputs p memsize host) m t).exFlush = false) :
    let x := State.slotAt p (s.coreInputs p memsize host) m t
    let u := State.nextCycle p (s.coreInputs p memsize host) m t
    let c := (s.run p memsize host t).top.clint.silent.advance (s.port p memsize host t)
    (s.run p memsize host u).top.clint.silent =
        (if x.redirects then (c.advance x.clintStore).advance none else c) ∧
      s.port p memsize host u = if x.redirects then none else x.clintStore := by
  intro x u c
  have h : ReadyFrom k (s.coreInputs p memsize host) := readyFrom hs
  have hbt := (State.run_between (p := p) (m := m) h ht hf).1
  have hc := clint_succ memsize host hb hs ht
  have hp : s.port p memsize host (t + 1) = x.clintStore := port_succ memsize host hb hs ht
  cases hr : x.redirects with
  | false =>
    have hu : u = t + 1 := if_neg (by simpa using hr)
    rw [hu]
    exact ⟨hc, hp⟩
  | true =>
    have hu : u = t + 3 := if_pos hr
    have hidle : ∀ v, t < v → v < u → s.port p memsize host (v + 1) = none := by
      intro v hv hvu
      have hm : (State.slotAt p (s.coreInputs p memsize host) m v).memwr = false :=
        Slot.memwr_flush (hbt v hv hvu)
      rw [port_succ memsize host hb hs (by omega), Slot.clintStore, hm]
      rfl
    rw [hu] at hidle ⊢
    refine ⟨?_, hidle (t + 2) (by omega) (by omega)⟩
    rw [clint_succ memsize host hb hs (by omega), clint_succ memsize host hb hs (by omega), hc, hp,
      hidle (t + 1) (by omega) (by omega)]
    rfl

/-- The next unflushed slot sees the system one instruction on. -/
theorem view_next {t : ℕ} (ht : startup k ≤ t)
    (hf : (State.run p (s.coreInputs p memsize host) m t).exFlush = false) :
    s.view p memsize host (State.nextCycle p (s.coreInputs p memsize host) m t) =
      (s.view p memsize host t).step p memsize s.imem.ram (s.answer p memsize host t) := by
  have h : ReadyFrom k (s.coreInputs p memsize host) := readyFrom hs
  obtain ⟨hregs, hcsr, hcycle, hinstret⟩ := State.run_next (p := p) (m := m) h ht hf
  obtain ⟨hclint, hport⟩ := clint_next memsize host hb hs ht hf
  rw [Hart.step, ← slotAt_view memsize host hb hs ht hf,
    view_eq memsize hb (State.nextCycle _ _ _ _), Hart.mk.injEq]
  refine ⟨?_, ?_, ?_, hcsr, ?_, ?_, hclint, hport⟩
  · rw [State.run_next_pc h ht hf, view_eq memsize hb]
  · rw [hregs, State.run_regs h ht, hf, State.run_wbValue h ht, view_eq memsize hb t,
      Bool.false_or]
    refine if_congr Iff.rfl (congrArg _ ?_) rfl
    cases hl : (State.run p (s.coreInputs p memsize host) m t).exMem2reg with
    | true =>
      rw [readData_view memsize host hb hl, view_eq memsize hb t]
      exact (if_pos hl).symm
    | false =>
      have hx : (State.slotAt p (s.coreInputs p memsize host) m t).mem2reg = false := hl
      rw [hx]
      rfl
  · rw [dmem_next memsize hb hs ht hf, dmem_ram memsize hb hs ht]
    rfl
  · rw [hcycle, view_eq memsize hb t]
  · rw [hinstret, view_eq memsize hb t]

theorem write_startup {t : ℕ} (ht : t ≤ startup k) :
    (s.run p memsize host t).top.core.dmemWready = false := by
  have h : ReadyFrom k (s.coreInputs p memsize host) := readyFrom hs
  rw [core_run hb]
  cases t with
  | zero => rfl
  | succ t => exact (State.run_before h ht).2

theorem clint_waiting {t : ℕ} (ht : t < startup k) :
    let c := (s.run p memsize host t).top.clint.silent
    (s.run p memsize host (t + 1)).top.clint.silent =
      { c with timerIrq := c.mtimecmp.ule (c.mtime + 1#64) } := by
  have hen : (s.run p memsize host t).top.core.timerEn = false := by
    rw [top_run, Top.timerEn_run hb (topReady hs)]
    exact decide_eq_false (by omega)
  refine Clint.step_waiting ((s.run p memsize host t).top.clintPort
    ((s.run p memsize host t).input (host t))) hen ?_
  change ((s.run p memsize host t).top.core.dmemWready && _) = false
  rw [write_startup memsize host hb hs ht.le, Bool.false_and]

/-- The CLINT keeps its reset values, but its comparator does not wait. -/
theorem clint_startup (hc : s.top.clint = .reset d) {t : ℕ} (ht : t < startup k) :
    (s.run p memsize host (t + 1)).top.clint.silent =
      { Clint.reset 0#32 with timerIrq := true } := by
  induction t with
  | zero =>
    rw [clint_waiting memsize host hb hs ht, run, hc]
    rfl
  | succ t ih =>
    rw [clint_waiting memsize host hb hs ht, ih (by omega)]
    rfl

theorem view_start (hc : s.top.clint = .reset d) (hr : s.dmem.ram = data) :
    s.view p memsize host (startup k) = Hart.boot p m data := by
  have h : ReadyFrom k (s.coreInputs p memsize host) := readyFrom hs
  have h0 := State.run_startup (p := p) (m := m) h
  have hclint : (s.run p memsize host (startup k)).top.clint.silent = _ :=
    clint_startup memsize host hb hs hc (t := k + 2) (Nat.lt_succ_self _)
  rw [view_eq memsize hb, h0.exPc, State.run_startup_regs h, dmem_startup hb hs le_rfl, hr, h0.csr,
    h0.cycle, h0.instret, hclint, port, write_startup memsize host hb hs le_rfl]
  rfl

theorem view_exCycle (hc : s.top.clint = .reset d) (hr : s.dmem.ram = data) (n : ℕ) :
    let c := State.exCycle p (s.coreInputs p memsize host) m k
    s.view p memsize host (c n) = (Hart.boot p m data).run p memsize s.imem.ram
      (fun j => s.answer p memsize host (c j)) n := by
  intro c
  induction n with
  | zero => exact view_start memsize host hb hs hc hr
  | succ n ih =>
    have h : ReadyFrom k (s.coreInputs p memsize host) := readyFrom hs
    obtain ⟨hsn, hfn⟩ := State.exCycle_spec (p := p) (m := m) h n
    refine (view_next memsize host hb hs hsn hfn).trans ?_
    rw [show s.view p memsize host (State.exCycle p (s.coreInputs p memsize host) m k n) = _ from ih]
    rfl

end

/-- The pipelined system runs one instruction after the other: its unflushed cycles, in order, are
the instructions of the sequential system. -/
theorem sequential (p : Param) (memsize : ℕ) (m : Word) (prog data : ℕ → Word) (d : Word) (k : ℕ)
    (host : ℕ → HostPins) (hs : ∀ t, (host t).stall = decide (t < k)) :
    let s := boot p m prog data d
    ∃ (c : ℕ → ℕ) (stale : ℕ → Word), c 0 = startup k ∧ StrictMono c ∧
      (∀ t, startup k ≤ t →
        ((s.run p memsize host t).top.core.exFlush = false ↔ ∃ n, t = c n)) ∧
      ∀ n, s.view p memsize host (c n) = (Hart.boot p m data).run p memsize prog
        (fun j => ⟨(host (c j + 1)).result, stale j⟩) n := by
  intro s
  have hb : s.top.core = .reset p m := rfl
  refine ⟨State.exCycle p (s.coreInputs p memsize host) m k,
    fun j => (s.run p memsize host
      (State.exCycle p (s.coreInputs p memsize host) m k j)).top.clint.rdata,
    rfl, State.exCycle_strictMono, fun t ht => ?_, fun n => view_exCycle memsize host hb hs rfl rfl n⟩
  rw [core_run hb]
  exact State.exFlush_iff (readyFrom hs) ht

theorem sequential_addi :
    let s := boot .rv32im 0#32 (fun _ => 0x00500093#32) (fun _ => 0#32) 0#32
    ∃ c : ℕ → ℕ, c 0 = 3 ∧ StrictMono c ∧
      (s.view .rv32im 1 (fun _ => ⟨false, 0#32⟩) (c 1)).regs 1#5 = 5#32 := by
  intro s
  obtain ⟨c, stale, h0, hmono, -, hrun⟩ := sequential .rv32im 1 0#32 (fun _ => 0x00500093#32)
    (fun _ => 0#32) 0#32 0 (fun _ => ⟨false, 0#32⟩) fun _ => rfl
  have hstep : ∀ ans : Answer, ((Hart.boot .rv32im 0#32 fun _ => 0#32).step .rv32im 1
      (fun _ => 0x00500093#32) ans).regs 1#5 = 5#32 := fun _ => rfl
  refine ⟨c, h0, hmono, ?_⟩
  rw [hrun 1]
  exact hstep _

end Soc

end Srv32.Rtl
