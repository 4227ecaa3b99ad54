import Srv32.Rtl.Core
import Srv32.Bits

/-! The pipeline between ready memories: what every cycle after start-up satisfies, and where
the next instruction that is not flushed reaches stage 2. -/

namespace Srv32.Rtl

/-- Every handshake input is high and `stall` is low. -/
structure Ready (i : Input) : Prop where
  stall : i.stall = false
  imemValid : i.imemValid = true
  dmemWvalid : i.dmemWvalid = true
  dmemRvalid : i.dmemRvalid = true
  dmemRresp : i.dmemRresp = true

namespace Slot

variable {x : Slot}

@[simp] theorem branchTaken_flush (h : x.flush = true) : x.branchTaken = false := by
  simp [branchTaken, h]

@[simp] theorem trap_flush (h : x.flush = true) : x.trap = false := by simp [trap, h]

@[simp] theorem trapNop_flush (h : x.flush = true) : x.trapNop = false := by simp [trapNop, h]

@[simp] theorem memwr_flush (h : x.flush = true) : x.memwr = false := by simp [memwr, h]

theorem trap_of_trapNop (h : x.trapNop = true) : x.trap = true := by
  simp only [trapNop, Bool.and_eq_true] at h
  simp [trap, h.1, h.2]

/-- The slot redirects fetch: two flushed slots follow. -/
def redirects (x : Slot) : Bool := x.branchTaken || x.trap

theorem fetchNext_of_not_redirects (hf : x.flush = false) (h : x.redirects = false) :
    x.fetchNext = x.fetchPc + 4#32 := by
  simp only [redirects, Bool.or_eq_false_iff] at h
  have hx : x.excp = false := by
    have := h.2
    simp only [trap, hf, Bool.not_false, Bool.and_true, Bool.or_eq_false_iff] at this
    exact this.1.1.1.1
  simp only [excp, instIllExcp, instAlignExcp, hf, Bool.not_false, Bool.true_and,
    Bool.or_eq_false_iff] at hx
  have hpc : x.nextPc = x.fetchPc + 4#32 := by
    have ht := h.1
    have hi := hx.1.1.1.1.1
    cases hj : x.ex.jal with
    | true => simp [branchTaken, hj, hf] at ht
    | false =>
      cases hr : x.ex.jalr with
      | true => simp [branchTaken, hj, hr, hf] at ht
      | false =>
        cases hb : x.ex.branch with
        | false => simp [nextPc, hj, hr, hb]
        | true =>
          cases hc : x.branchCond with
          | none => simp [illBranch, hj, hr, hb, hc] at hi
          | some c => cases c <;> simp_all [branchTaken, nextPc]
  have hlow : x.nextPc.toNat % 4 = 0 := by
    have h0 : (x.nextPc.getLsbD 0 || x.nextPc.getLsbD 1) = false := by
      rw [Bool.or_eq_false_iff]
      exact hx.1.1.2
    rw [Bits.lowBits_or] at h0
    simpa using h0
  rw [fetchNext, if_neg (by simp [hf]), if_neg (by simp [h.2]), even, Bits.clearBit0_eq_and,
    Bits.clearBit0_of_even (by omega), hpc]

end Slot

namespace State

variable {p : Param} {i : Input} {s : State}

@[simp] theorem slot_flush (i : Input) (s : State) : (s.slot i).flush = s.exFlush := rfl
@[simp] theorem slot_pc (i : Input) (s : State) : (s.slot i).pc = s.exPc := rfl
@[simp] theorem slot_insn (i : Input) (s : State) : (s.slot i).insn = s.exInsn := rfl
@[simp] theorem slot_fetchPc (i : Input) (s : State) : (s.slot i).fetchPc = s.fetchPc := rfl
@[simp] theorem slot_ex (i : Input) (s : State) : (s.slot i).ex = s.ex := rfl
@[simp] theorem slot_mem2reg (i : Input) (s : State) : (s.slot i).mem2reg = s.exMem2reg := rfl
@[simp] theorem slot_csr (i : Input) (s : State) : (s.slot i).csr = s.csr := rfl

/-- What holds of every cycle once the pipeline has filled. -/
structure Flowing (p : Param) (s : State) : Prop where
  stallR : s.stallR = false
  flush : s.flush = false
  filled : s.pipefill = 2#2
  decoded : s.ex = decode p s.exInsn
  mem2reg : s.exMem2reg = (opcode s.exInsn == opLoad)
  nop : s.wbNop = s.wbBranchNxt
  once : s.wbBranch = true → s.wbBranchNxt = false
  trapNop : s.wbTrapNop = true → s.wbBranch = true
  fetch : s.wbBranch = false → s.fetchPc = s.ifPc + 4#32
  fetched : s.wbBranch = false → s.wbBranchNxt = false → s.ifPc = s.exPc + 4#32

/-- A memory that answers at once leaves `ex_mem2reg` to the word that comes in. -/
theorem mem2regNext_of_valid (hr : i.dmemRvalid = true) :
    s.mem2regNext i = (opcode (s.inst i) == opLoad) := by
  simp only [mem2regNext, hr, Bool.and_true]
  by_cases h : opcode (s.inst i) = opLoad
  · simp [h]
  · cases hl : s.exMem2reg <;> simp [h]

theorem memwrNext_of_valid (hw : i.dmemWvalid = true) : s.memwrNext i = (s.slot i).memwr := by
  simp only [memwrNext, hw, Bool.and_true]
  cases (s.slot i).memwr <;> cases s.wbMemwr <;> rfl

/-- One edge when nothing holds the pipeline. -/
theorem step_ready (hi : Ready i) (hs : s.stallR = false) : s.step p i =
    { stallR := false
      flush := false
      pipefill := if s.pipefill = 2#2 then s.pipefill else s.pipefill + 1#2
      fetchPc := (s.slot i).fetchNext
      ifPc := s.fetchPc
      ex := decode p (s.inst i)
      exPc := s.ifPc
      exInsn := s.inst i
      exMem2reg := opcode (s.inst i) == opLoad
      wbResult := (s.slot i).result p
      wbAlu2reg := (s.slot i).alu2reg
      wbDstSel := s.ex.dstSel
      wbBranch := (s.slot i).redirects
      wbBranchNxt := s.wbBranch
      wbMem2reg := s.exMem2reg
      wbRaddr := (s.slot i).memaddr.extractLsb' 0 2
      wbAluOp := s.ex.aluOp
      wbMemwr := (s.slot i).memwr
      wbWaddr := if s.ex.memwr then (s.slot i).memaddr else s.wbWaddr
      wbWstrb := if s.ex.memwr then (s.slot i).wstrb else s.wbWstrb
      wbWdata := if s.ex.memwr then (s.slot i).wdata else s.wbWdata
      wbNop := s.wbBranch
      wbNopMore := s.wbNop
      wbTrapNop := (s.slot i).trapNop
      wbPc := s.exPc
      wbInsn := s.exInsn
      csr := (s.slot i).csrNext
      cycle := if s.pipefill = 2#2 then s.cycle + 1#64 else s.cycle
      instret := if s.pipefill = 2#2 ∧ s.exFlush = false then s.instret + 1#64 else s.instret
      regs := s.regsNext i
      exception := s.exception || (s.slot i).excp } := by
  have hif : s.ifStall i = false := by simp [ifStall, hs, hi.imemValid]
  have hex : s.exStall i = false := by simp [exStall, hs, hif, hi.dmemRvalid]
  have hwb : s.wbStall i = false := by simp [wbStall, hs, hi.dmemWvalid, hi.dmemRresp]
  simp only [step, hif, hex, hwb, mem2regNext_of_valid hi.dmemRvalid,
    memwrNext_of_valid hi.dmemWvalid, hs, hi.stall, hi.dmemWvalid, Slot.redirects, counting]
  by_cases hp : s.pipefill = 2#2 <;> by_cases hf : s.exFlush = true <;> simp [hp, hf]

theorem Flowing.step (h : s.Flowing p) (hi : Ready i) : (s.step p i).Flowing p := by
  rw [step_ready hi h.stallR]
  refine ⟨rfl, rfl, ?_, rfl, rfl, rfl, ?_, ?_, ?_, ?_⟩
  · simp [h.filled]
  · intro hb
    by_contra hn
    have hf : s.exFlush = true := by simpa [exFlush] using Or.inl hn
    simp [Slot.redirects, hf] at hb
  · intro ht
    simp [Slot.redirects, Slot.trap_of_trapNop ht]
  · intro hb
    cases hf : s.exFlush with
    | true => simp [Slot.fetchNext, hf]
    | false => simpa using Slot.fetchNext_of_not_redirects (by simpa using hf) hb
  · intro _ hb
    exact h.fetch hb

/-- An edge in a slot that does not redirect brings the next instruction to stage 2. -/
theorem Flowing.step_exFlush (h : s.Flowing p) (hi : Ready i) :
    (s.step p i).exFlush = ((s.slot i).redirects || s.wbBranch) := by
  rw [step_ready hi h.stallR]
  rfl

def run (p : Param) (i : ℕ → Input) (mscratch : Word) : ℕ → State
  | 0 => .reset p mscratch
  | n + 1 => (run p i mscratch n).step p (i n)

end State

/-- The inputs of a run whose `stall` is high for `k` cycles from reset and low from then on,
between memories that are always ready. -/
structure ReadyFrom (k : ℕ) (i : ℕ → Input) : Prop where
  stall : ∀ t, (i t).stall = decide (t < k)
  imemValid : ∀ t, (i t).imemValid = true
  dmemWvalid : ∀ t, (i t).dmemWvalid = true
  dmemRvalid : ∀ t, (i t).dmemRvalid = true
  dmemRresp : ∀ t, (i t).dmemRresp = true

theorem ReadyFrom.ready {k : ℕ} {i : ℕ → Input} (h : ReadyFrom k i) {t : ℕ} (ht : k ≤ t) :
    Ready (i t) :=
  ⟨by rw [h.stall, decide_eq_false (by omega)], h.imemValid t, h.dmemWvalid t, h.dmemRvalid t,
    h.dmemRresp t⟩

/-- The first cycle whose stage 2 holds the first instruction of the program. -/
def startup (k : ℕ) : ℕ := k + 3

namespace State

variable {p : Param} {i : ℕ → Input} {m : Word} {k : ℕ}

/-- The decoded instruction neither jumps, stores, traps nor touches a CSR. -/
def idle (e : Ex) : Bool :=
  !(e.memwr || e.csr || e.csrWr || e.jal || e.jalr || e.branch || e.system || e.illegal)

/-- Before software sets `mstatus`, a slot with an idle instruction has no effect. -/
theorem idle_slot (j : Input) (s : State) (hex : idle s.ex = true) (hf : s.exFlush = false)
    (hm : s.exMem2reg = false) (hpc : s.fetchPc.toNat % 4 = 0) (hc : s.csr.mstatus = 0#32) :
    (s.slot j).redirects = false ∧ (s.slot j).excp = false ∧ (s.slot j).memwr = false ∧
      (s.slot j).csrNext = s.csr := by
  have hlow : ((s.fetchPc + 4#32).getLsbD 0 || (s.fetchPc + 4#32).getLsbD 1) = false := by
    rw [Bits.lowBits_or, decide_eq_false_iff_not, not_not, BitVec.toNat_add]
    simp only [BitVec.toNat_ofNat]
    omega
  obtain ⟨h0, h1⟩ : (s.fetchPc + 4#32)[0] = false ∧ (s.fetchPc + 4#32)[1] = false := by
    simpa using hlow
  simp only [idle, Bool.not_eq_true', Bool.or_eq_false_iff] at hex
  obtain ⟨⟨⟨⟨⟨⟨⟨h_memwr, h_csr⟩, h_csrWr⟩, h_jal⟩, h_jalr⟩, h_branch⟩, h_system⟩, h_illegal⟩ := hex
  simp [Slot.redirects, Slot.excp, Slot.memwr, Slot.csrNext, Slot.csrFile, Slot.trapCsr,
    Slot.branchTaken, Slot.trap, Slot.instIllExcp, Slot.instAlignExcp, Slot.ldAlignExcp,
    Slot.stAlignExcp, Slot.illBranch, Slot.illCsr, Slot.nextPc, Slot.timerInt, Slot.swInt,
    Slot.extInt, Slot.irqGate, Slot.systemcall, hf, hm, hc, h0, h1, h_memwr, h_csr, h_csrWr,
    h_jal, h_jalr, h_branch, h_system, h_illegal]

/-- Under `stall_r` the reset state changes in `stall_r` only. -/
theorem step_reset (j : Input) : (reset p m).step p j = { reset p m with stallR := j.stall } := by
  obtain ⟨-, hx, hw, -⟩ := idle_slot j (reset p m) rfl rfl rfl rfl rfl
  have hl : (reset p m).mem2regNext j = false := by
    have hn : opcode nop ≠ opLoad := by decide
    simp [mem2regNext, inst, reset, hn]
  have hr : (reset p m).regsNext j = fun _ => 0 := by
    simp [regsNext, regWrite, reset]
  have hm : (reset p m).memwrNext j = false := by
    rw [memwrNext, hw]
    simp [reset]
  simp only [step, hl, hr, hm, hx, ifStall, exStall, wbStall, counting]
  simp [reset]

/-- While `stall` is high the core stays as reset leaves it. -/
theorem run_reset (h : ReadyFrom k i) {t : ℕ} (ht : t ≤ k) : run p i m t = reset p m := by
  induction t with
  | zero => rfl
  | succ t ih =>
    have hst : (i t).stall = true := by rw [h.stall, decide_eq_true (by omega)]
    rw [run, ih (by omega), step_reset, hst]
    rfl

/-- The registers that matter when the first instruction reaches stage 2. -/
structure Started (p : Param) (m word : Word) (s : State) : Prop extends s.Flowing p where
  exPc : s.exPc = 0#32
  exInsn : s.exInsn = word
  unflushed : s.exFlush = false
  wbDstSel : s.wbDstSel = 0#5
  wbMemwr : s.wbMemwr = false
  regs : s.regs = fun _ => 0#32
  csr : s.csr = (reset p m).csr
  cycle : s.cycle = 0#64
  instret : s.instret = 0#64

/-- The first cycle with `stall` low only releases `stall_r`. -/
theorem run_released (h : ReadyFrom k i) :
    run p i m (k + 1) = { reset p m with stallR := false } := by
  rw [run, run_reset h le_rfl, step_reset, (h.ready le_rfl).stall]

theorem fetchNext_idle (j : Input) (s : State) (hf : s.exFlush = false)
    (hr : (s.slot j).redirects = false) : (s.slot j).fetchNext = s.fetchPc + 4#32 :=
  Slot.fetchNext_of_not_redirects hf hr

theorem idle_nop (p : Param) : idle (decode p nop) = true := by
  rcases p with ⟨m, b⟩
  revert m b
  decide

/-- The registers one cycle before the first instruction reaches stage 2. -/
structure Filling (p : Param) (m : Word) (s : State) : Prop where
  stallR : s.stallR = false
  flush : s.flush = false
  pipefill : s.pipefill = 1#2
  fetchPc : s.fetchPc = 4#32
  ifPc : s.ifPc = 0#32
  ex : s.ex = decode p nop
  exMem2reg : s.exMem2reg = false
  wbAlu2reg : s.wbAlu2reg = false
  wbBranch : s.wbBranch = false
  wbBranchNxt : s.wbBranchNxt = false
  wbNop : s.wbNop = false
  regs : s.regs = fun _ => 0#32
  csr : s.csr = (reset p m).csr
  cycle : s.cycle = 0#64
  instret : s.instret = 0#64

theorem run_filling (h : ReadyFrom k i) : (run p i m (k + 2)).Filling p m := by
  obtain ⟨hr, -, -, hc⟩ :=
    idle_slot (i (k + 1)) { reset p m with stallR := false } rfl rfl rfl rfl rfl
  have hf := fetchNext_idle (i (k + 1)) { reset p m with stallR := false } rfl hr
  rw [run, run_released h, step_ready (h.ready (by omega)) rfl, hr, hf, hc]
  refine ⟨rfl, rfl, rfl, rfl, rfl, rfl, ?_, ?_, rfl, rfl, rfl, ?_, rfl, rfl, rfl⟩
  · have hn : opcode nop ≠ opLoad := by decide
    simp [inst, reset, hn]
  · simp [Slot.alu2reg, slot, reset, Ex.reset]
  · simp [regsNext, regWrite, reset]

theorem run_startup (h : ReadyFrom k i) :
    (run p i m (startup k)).Started p m (i (k + 2)).imemRdata := by
  have hb := run_filling (p := p) (m := m) h
  change ((run p i m (k + 2)).step p (i (k + 2))).Started p m _
  generalize run p i m (k + 2) = b at hb
  obtain ⟨hr, hx, hw, hc⟩ := idle_slot (i (k + 2)) b (by rw [hb.ex, idle_nop])
    (by simp [exFlush, hb.wbBranch, hb.wbBranchNxt]) hb.exMem2reg (by rw [hb.fetchPc]; rfl)
    (by rw [hb.csr]; rfl)
  have hf := fetchNext_idle (i (k + 2)) b (by simp [exFlush, hb.wbBranch, hb.wbBranchNxt]) hr
  have hi : b.inst (i (k + 2)) = (i (k + 2)).imemRdata := by simp [inst, hb.flush]
  rw [step_ready (h.ready (by omega)) hb.stallR, hr, hf, hc, hw, hi]
  refine ⟨⟨rfl, rfl, ?_, rfl, rfl, ?_, ?_, ?_, ?_, ?_⟩, hb.ifPc, rfl, ?_, ?_, rfl, ?_, hb.csr,
    ?_, ?_⟩
  · simp [hb.pipefill]
  · simp [hb.wbBranch]
  · intro hn
    exact absurd hn (by simp)
  · intro ht
    simp [Slot.trapNop, hx] at ht
  · intro _
    simp [hb.fetchPc]
  · intro _ _
    simp [hb.fetchPc, hb.ifPc]
  · simp [exFlush, hb.wbBranch]
  · rw [hb.ex]
    rfl
  · simp [regsNext, regWrite, hb.wbAlu2reg, hb.regs]
  · simp [hb.pipefill, hb.cycle]
  · simp [hb.pipefill, hb.instret]

theorem run_flowing (h : ReadyFrom k i) {t : ℕ} (ht : startup k ≤ t) :
    (run p i m t).Flowing p := by
  induction t, ht using Nat.le_induction with
  | base => exact (run_startup h).toFlowing
  | succ t ht ih => exact ih.step (h.ready (by unfold startup at ht; omega))

variable (p m i) in
def slotAt (t : ℕ) : Slot := (run p i m t).slot (i t)

/-- Stage 2 then holds what the instruction memory returned one cycle before. -/
theorem run_exInsn (h : ReadyFrom k i) {t : ℕ} (ht : startup k ≤ t + 1) :
    (run p i m (t + 1)).exInsn = (i t).imemRdata := by
  rcases Nat.eq_or_lt_of_le ht with he | hlt
  · obtain rfl : t = k + 2 := by unfold startup at he; omega
    exact (run_startup h).exInsn
  · have hf := run_flowing (p := p) (m := m) h (Nat.le_of_lt_succ hlt)
    rw [run, step_ready (h.ready (by unfold startup at ht; omega)) hf.stallR]
    simp [inst, hf.flush]

end State

end Srv32.Rtl
