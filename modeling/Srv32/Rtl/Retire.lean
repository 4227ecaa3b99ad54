import Srv32.Rtl.Precise
import Srv32.Rtl.Memory

/-! What one slot of stage 2 leaves behind when the next unflushed one is reached: registers, data
memory, CSRs and counters. -/

namespace Srv32.Rtl

namespace State

variable {p : Param} {i : ℕ → Input} {m : Word} {k : ℕ}

theorem run_stallR (h : ReadyFrom k i) {t : ℕ} (ht : k + 1 ≤ t) :
    (run p i m t).stallR = false := by
  induction t, ht using Nat.le_induction with
  | base => rw [run_released h]
  | succ t ht ih => rw [run, step_ready (h.ready (by omega)) ih]

/-- Stage 2 holds the word fetched two cycles before, with its address. -/
theorem run_fetched (h : ReadyFrom k i) {t : ℕ} (ht : k + 1 ≤ t) :
    (run p i m (t + 2)).exPc = (run p i m t).fetchPc ∧
      (run p i m (t + 2)).exInsn = (i (t + 1)).imemRdata := by
  rw [run, step_ready (h.ready (by omega)) (run_stallR h (by omega))]
  refine ⟨?_, ?_⟩
  · change (run p i m (t + 1)).ifPc = _
    rw [run, step_ready (h.ready (by omega)) (run_stallR h ht)]
  · have hf : (run p i m (t + 1)).flush = false := by
      rw [run, step_ready (h.ready (by omega)) (run_stallR h ht)]
    change (run p i m (t + 1)).inst (i (t + 1)) = _
    rw [inst, hf, if_neg (by simp)]

/-- The value stage 3 writes back for the slot of cycle `t`. -/
theorem run_wbValue (h : ReadyFrom k i) {t : ℕ} (ht : startup k ≤ t) :
    (run p i m (t + 1)).wbValue (i (t + 1)) =
      if (run p i m t).exMem2reg then
        loadData (run p i m t).ex.aluOp ((slotAt p i m t).memaddr.extractLsb' 0 2)
          (i (t + 1)).dmemRdata
      else (slotAt p i m t).result p := by
  rw [run, step_ready (h.ready (by unfold startup at ht; omega)) (run_flowing h ht).stallR]
  rfl

theorem run_regs (h : ReadyFrom k i) {t : ℕ} (ht : startup k ≤ t) :
    (run p i m (t + 2)).regs =
      if ((run p i m t).exFlush || (slotAt p i m t).excp ||
          !Slot.writesRd (run p i m t).exInsn) = false ∧ rd (run p i m t).exInsn ≠ 0#5 then
        Function.update (run p i m (t + 1)).regs (rd (run p i m t).exInsn)
          ((run p i m (t + 1)).wbValue (i (t + 1)))
      else (run p i m (t + 1)).regs := by
  have hw := run_written (p := p) (m := m) h ht
  rw [written] at hw
  have hs : (run p i m (t + 2)).regs = (run p i m (t + 1)).regsNext (i (t + 1)) := by
    rw [run, step_ready (h.ready (by unfold startup at ht; omega))
      (run_flowing h (t := t + 1) (by omega)).stallR]
  rw [hs, regsNext]
  cases hb : (run p i m t).exFlush || (slotAt p i m t).excp ||
      !Slot.writesRd (run p i m t).exInsn with
  | true =>
    have hn : (run p i m (t + 1)).regWrite (i (t + 1)) = false := by
      rw [hb] at hw
      by_contra hc
      simp [hc] at hw
    simp [hn]
  | false =>
    rw [hb] at hw
    have hn : (run p i m (t + 1)).regWrite (i (t + 1)) = true := by
      by_contra hc
      simp [hc] at hw
    have hd : (run p i m (t + 1)).wbDstSel = rd (run p i m t).exInsn := by
      simpa [hn] using hw
    rw [hn, hd]
    simp

theorem run_startup_regs (h : ReadyFrom k i) :
    (run p i m (startup k + 1)).regs = fun _ => 0#32 := by
  have h0 := run_startup (p := p) (m := m) h
  rw [run, step_ready (h.ready (by unfold startup; omega)) h0.stallR]
  simp [regsNext, h0.wbDstSel, h0.regs]

/-- The operands of an unflushed slot, forwarded from stage 3, are what the register file holds
one cycle later. -/
theorem run_regRdata (h : ReadyFrom k i) {t : ℕ} (ht : startup k ≤ t)
    (hf : (run p i m t).exFlush = false) (n : BitVec 5) :
    (run p i m t).regRdata (i t) n = if n = 0#5 then 0#32 else (run p i m (t + 1)).regs n := by
  have h0 := run_flowing (p := p) (m := m) h ht
  have hr := h.ready (t := t) (by unfold startup at ht; omega)
  have hb : (run p i m t).wbBranch = false := by
    simp only [exFlush, Bool.or_eq_false_iff] at hf
    exact hf.1
  have htn : (run p i m t).wbTrapNop = false := by
    cases hc : (run p i m t).wbTrapNop
    · rfl
    · rw [h0.trapNop hc] at hb
      cases hb
  have hst : (run p i m t).wbStall (i t) = false := by
    simp [wbStall, h0.stallR, hr.dmemWvalid, hr.dmemRresp]
  have hs : (run p i m (t + 1)).regs = (run p i m t).regsNext (i t) := by
    rw [run, step_ready hr h0.stallR]
  rw [hs, regRdata, regsNext, regWrite, htn, hst, h0.stallR]
  by_cases hn : n = 0#5
  · rw [if_pos hn, if_pos hn]
  · rw [if_neg hn, if_neg hn]
    by_cases hd : (run p i m t).wbDstSel = n
    · subst hd
      cases (run p i m t).wbFlush <;> cases (run p i m t).wbAlu2reg <;> simp [hn]
    · have hd' : ¬ n = (run p i m t).wbDstSel := fun he => hd he.symm
      rw [if_neg (by simp [hd])]
      split
      · rw [Function.update_of_ne hd']
      · rfl

theorem run_flushed (h : ReadyFrom k i) {t : ℕ} (ht : startup k ≤ t)
    (hf : (run p i m t).exFlush = true) :
    (run p i m (t + 2)).regs = (run p i m (t + 1)).regs ∧
      (run p i m (t + 1)).csr = (run p i m t).csr ∧
      (run p i m (t + 1)).instret = (run p i m t).instret := by
  refine ⟨by rw [run_regs h ht, hf]; simp, ?_, ?_⟩
  · rw [run, step_ready (h.ready (by unfold startup at ht; omega)) (run_flowing h ht).stallR]
    change ((run p i m t).slot (i t)).csrNext = _
    rw [Slot.csrNext, if_pos (by simp [hf])]
    rfl
  · rw [run, step_ready (h.ready (by unfold startup at ht; omega)) (run_flowing h ht).stallR]
    simp [hf]

theorem run_cycle (h : ReadyFrom k i) {t : ℕ} (ht : startup k ≤ t) :
    (run p i m (t + 1)).cycle = (run p i m t).cycle + 1#64 := by
  have h0 := run_flowing (p := p) (m := m) h ht
  rw [run, step_ready (h.ready (by unfold startup at ht; omega)) h0.stallR]
  simp [h0.filled]

/-- Cycles from a slot to the next unflushed one. -/
def cycles (x : Slot) : BitVec 64 := if x.redirects then 3#64 else 1#64

/-- What a slot hands on to the next unflushed one. -/
theorem run_next (h : ReadyFrom k i) {t : ℕ} (ht : startup k ≤ t)
    (hf : (run p i m t).exFlush = false) :
    (run p i m (nextCycle p i m t + 1)).regs = (run p i m (t + 2)).regs ∧
      (run p i m (nextCycle p i m t)).csr = (slotAt p i m t).csrNext ∧
      (run p i m (nextCycle p i m t)).cycle = (run p i m t).cycle + cycles (slotAt p i m t) ∧
      (run p i m (nextCycle p i m t)).instret = (run p i m t).instret + 1#64 := by
  have h0 := run_flowing (p := p) (m := m) h ht
  have hk : k ≤ t := by unfold startup at ht; omega
  have hc : (run p i m (t + 1)).csr = (slotAt p i m t).csrNext := by
    rw [run, step_ready (h.ready hk) h0.stallR]
    rfl
  have hi : (run p i m (t + 1)).instret = (run p i m t).instret + 1#64 := by
    rw [run, step_ready (h.ready hk) h0.stallR]
    simp [h0.filled, hf]
  have hbt := (run_between (p := p) (m := m) h ht hf).1
  rw [nextCycle] at hbt ⊢
  cases hr : (slotAt p i m t).redirects with
  | false =>
    simp only [cycles, hr, Bool.false_eq_true, if_false]
    exact ⟨trivial, hc, run_cycle h ht, hi⟩
  | true =>
    simp only [hr, if_true] at hbt
    obtain ⟨hr1, hc1, hi1⟩ :=
      run_flushed (p := p) (m := m) h (t := t + 1) (by omega) (hbt _ (by omega) (by omega))
    obtain ⟨hr2, hc2, hi2⟩ :=
      run_flushed (p := p) (m := m) h (t := t + 2) (by omega) (hbt _ (by omega) (by omega))
    simp only [cycles, hr, if_true]
    refine ⟨hr2.trans hr1, hc2.trans (hc1.trans hc), ?_, hi2.trans (hi1.trans hi)⟩
    rw [run_cycle h (t := t + 2) (by omega), run_cycle h (t := t + 1) (by omega),
      run_cycle h ht, BitVec.add_assoc, BitVec.add_assoc]
    rfl

variable (p i m) in
/-- The cycles whose slots are not flushed, from start-up on. -/
def exCycle (k : ℕ) : ℕ → ℕ
  | 0 => startup k
  | n + 1 => nextCycle p i m (exCycle k n)

theorem lt_nextCycle (t : ℕ) : t < nextCycle p i m t := by
  unfold nextCycle
  split <;> omega

theorem exCycle_spec (h : ReadyFrom k i) (n : ℕ) :
    startup k ≤ exCycle p i m k n ∧ (run p i m (exCycle p i m k n)).exFlush = false := by
  induction n with
  | zero => exact ⟨le_rfl, (run_startup h).unflushed⟩
  | succ n ih =>
    have := lt_nextCycle (p := p) (i := i) (m := m) (exCycle p i m k n)
    exact ⟨by rw [exCycle]; omega, (run_between h ih.1 ih.2).2⟩

theorem exCycle_strictMono : StrictMono (exCycle p i m k) :=
  strictMono_nat_of_lt_succ fun n => lt_nextCycle (exCycle p i m k n)

/-- They are all of them. -/
theorem exFlush_iff (h : ReadyFrom k i) {t : ℕ} (ht : startup k ≤ t) :
    (run p i m t).exFlush = false ↔ ∃ n, t = exCycle p i m k n := by
  constructor
  · intro hf
    -- the last of them up to `t`
    have hex : ∃ n, exCycle p i m k n ≤ t ∧ t < exCycle p i m k (n + 1) := by
      by_contra hc
      simp only [not_exists, not_and, not_lt] at hc
      have hle : ∀ n, exCycle p i m k n ≤ t := by
        intro n
        induction n with
        | zero => exact ht
        | succ n ih => exact hc n ih
      have := hle (t + 1)
      have := (exCycle_strictMono (p := p) (i := i) (m := m) (k := k)).le_apply (x := t + 1)
      omega
    obtain ⟨n, hle, hlt⟩ := hex
    obtain ⟨hs, hfn⟩ := exCycle_spec (p := p) (m := m) h n
    rcases Nat.eq_or_lt_of_le hle with he | hl
    · exact ⟨n, he.symm⟩
    · rw [(run_between h hs hfn).1 t hl hlt] at hf
      cases hf
  · rintro ⟨n, rfl⟩
    exact (exCycle_spec h n).2

theorem run_wb (h : ReadyFrom k i) {t : ℕ} (ht : startup k ≤ t) :
    (run p i m (t + 1)).wbFlush = (run p i m t).exFlush ∧
      (run p i m (t + 1)).wbPc = (run p i m t).exPc ∧
      (run p i m (t + 1)).wbInsn = (run p i m t).exInsn := by
  have h0 := run_flowing (p := p) (m := m) h ht
  rw [run, step_ready (h.ready (by unfold startup at ht; omega)) h0.stallR]
  refine ⟨?_, rfl, rfl⟩
  simp [wbFlush, exFlush, h0.nop]

end State

namespace Mem2ports

variable {size : ℕ} {b : MemPort} {m : Mem2ports}

theorem step_rdata (hr : b.rready = true) :
    (m.step size b).rdata = (m.step size b).ram (index size b.raddr) := by
  simp only [step, hr, if_true]
  cases b.wready with
  | false => simp
  | true =>
    by_cases hi : index size b.raddr = index size b.waddr
    · simp [hi]
    · simp [hi]

theorem step_ram (hw : b.wready = false) : (m.step size b).ram = m.ram := by
  simp [step, hw]

theorem step_ram_write (hw : b.wready = true) : (m.step size b).ram =
    Function.update m.ram (index size b.waddr)
      (mergeBytes b.wstrb (m.ram (index size b.waddr)) b.wdata) := by
  simp [step, hw]

end Mem2ports

/-- `stall` is high for `k` cycles from reset, and no interrupt input is ever high. -/
structure Calm (k : ℕ) (pins : ℕ → Pins) : Prop where
  stall : ∀ t, (pins t).stall = decide (t < k)
  timerIrq : ∀ t, (pins t).timerIrq = false
  swIrq : ∀ t, (pins t).swIrq = false
  interrupt : ∀ t, (pins t).interrupt = false

theorem calm_low : Calm 0 fun _ => ⟨false, false, false, false⟩ :=
  ⟨fun _ => rfl, fun _ => rfl, fun _ => rfl, fun _ => rfl⟩

namespace Board

/-- The core under reset, a program and the initial data. -/
def boot (p : Param) (mscratch : Word) (prog data : ℕ → Word) (rdata : Word) : Board :=
  ⟨.reset p mscratch, ⟨prog, rdata⟩, ⟨data, rdata⟩⟩

variable (p : Param) (memsize : ℕ) (pins : ℕ → Pins) (b : Board)

/-- The inputs the surroundings give the core. -/
def inputs (t : ℕ) : Input := (b.run p memsize pins t).input (pins t)

variable {p memsize pins b} {m : Word} {prog data : ℕ → Word} {rd0 : Word} {k : ℕ}

theorem core_run (hb : b.core = .reset p m) (t : ℕ) :
    (b.run p memsize pins t).core = State.run p (b.inputs p memsize pins) m t := by
  induction t with
  | zero => exact hb
  | succ t ih =>
    rw [State.run, ← ih]
    rfl

theorem readyFrom (hc : Calm k pins) : ReadyFrom k (b.inputs p memsize pins) :=
  ⟨hc.stall, fun _ => rfl, fun _ => rfl, fun _ => rfl, fun _ => rfl⟩

theorem imem_ram (t : ℕ) : (b.run p memsize pins t).imem.ram = b.imem.ram := by
  induction t with
  | zero => rfl
  | succ t ih => exact ih

theorem run_insn (hb : b.core = .reset p m) (hc : Calm k pins) {t : ℕ} (ht : startup k ≤ t) :
    (b.run p memsize pins t).core.exInsn = b.imem.ram
      (Mem2ports.index (ramSize memsize)
        ((b.run p memsize pins t).core.exPc.extractLsb' 2 30)) := by
  obtain ⟨u, rfl⟩ : ∃ u, t = u + 2 := ⟨t - 2, by unfold startup at ht; omega⟩
  have hu : k + 1 ≤ u := by unfold startup at ht; omega
  have h : ReadyFrom k (b.inputs p memsize pins) := readyFrom hc
  have hs : (b.run p memsize pins u).core.stallR = false := by
    rw [core_run hb]
    exact State.run_stallR h hu
  have hrd : ((b.run p memsize pins u).imemPort (pins u)).rready = true := by
    change (!(b.run p memsize pins u).core.stallR &&
      !(b.run p memsize pins u).core.wbStall (b.inputs p memsize pins u)) = true
    simp [State.wbStall, hs, (h.ready (t := u) (by omega)).dmemWvalid,
      (h.ready (t := u) (by omega)).dmemRresp]
  have hd : (b.run p memsize pins (u + 1)).imem.rdata = b.imem.ram
      (Mem2ports.index (ramSize memsize)
        ((b.run p memsize pins u).core.fetchPc.extractLsb' 2 30)) := by
    have hr : (b.run p memsize pins (u + 1)).imem.ram = b.imem.ram := imem_ram (u + 1)
    rw [← hr]
    exact Mem2ports.step_rdata hrd
  obtain ⟨hpc, hin⟩ := State.run_fetched (p := p) (m := m) h hu
  rw [core_run hb (u + 2), hin, hpc, ← core_run hb u]
  exact hd

/-- The write port stays quiet until the program stores. -/
theorem dmem_startup (hb : b.core = .reset p m) (hc : Calm k pins) {t : ℕ}
    (ht : t ≤ startup k + 1) (hw : (b.run p memsize pins (startup k)).core.wbMemwr = false) :
    (b.run p memsize pins t).dmem.ram = b.dmem.ram := by
  induction t with
  | zero => rfl
  | succ t ih =>
    have hq : (b.run p memsize pins t).core.wbMemwr = false := by
      rcases Nat.eq_zero_or_pos t with rfl | h0
      · change b.core.wbMemwr = false
        rw [hb]
        rfl
      · rcases Nat.eq_or_lt_of_le (Nat.le_of_succ_le_succ ht) with he | hl
        · rw [he]
          exact hw
        · obtain ⟨u, rfl⟩ : ∃ u, t = u + 1 := ⟨t - 1, by omega⟩
          rw [core_run hb]
          exact (State.run_before (readyFrom hc) (by omega)).2
    rw [← ih (by omega)]
    exact Mem2ports.step_ram hq

/-- The data memory two cycles after a slot. -/
theorem dmem_ram (hb : b.core = .reset p m) (hc : Calm k pins) {t : ℕ} (ht : startup k ≤ t) :
    (b.run p memsize pins (t + 2)).dmem.ram =
      let x := State.slotAt p (b.inputs p memsize pins) m t
      let ram := (b.run p memsize pins (t + 1)).dmem.ram
      let a := Mem2ports.index (ramSize memsize) (dramIndex memsize x.memaddr)
      if x.memwr then Function.update ram a (mergeBytes x.wstrb (ram a) x.wdata) else ram := by
  have h : ReadyFrom k (b.inputs p memsize pins) := readyFrom hc
  have hw : (b.run p memsize pins (t + 1)).core.wbMemwr =
      (State.slotAt p (b.inputs p memsize pins) m t).memwr := by
    rw [core_run hb]
    exact State.run_wready h ht
  cases hm : (State.slotAt p (b.inputs p memsize pins) m t).memwr with
  | false =>
    rw [hm] at hw
    simp only [hm, Bool.false_eq_true, if_false]
    exact Mem2ports.step_ram hw
  | true =>
    rw [hm] at hw
    have hp := State.run_wport h ht hm
    rw [← core_run hb (t + 1)] at hp
    simp only [State.wport, Prod.mk.injEq] at hp
    obtain ⟨ha, hst, hd⟩ := hp
    change (Mem2ports.step _ ((b.run p memsize pins (t + 1)).dmemPort memsize (pins (t + 1)))
      (b.run p memsize pins (t + 1)).dmem).ram = _
    simp only [Mem2ports.step, dmemPort, State.dmemWready, hw, if_true, ha, hst, hd, hm]

/-- A load's read data come from the memory after the store of the slot before. -/
theorem dmem_rdata (hb : b.core = .reset p m) (t : ℕ)
    (hl : (b.run p memsize pins t).core.exMem2reg = true) :
    (b.inputs p memsize pins (t + 1)).dmemRdata =
      (b.run p memsize pins (t + 1)).dmem.ram (Mem2ports.index (ramSize memsize)
        (dramIndex memsize (State.slotAt p (b.inputs p memsize pins) m t).memaddr)) := by
  have hs : State.slotAt p (b.inputs p memsize pins) m t =
      (b.run p memsize pins t).core.slot (b.inputs p memsize pins t) := by
    rw [core_run hb]
    rfl
  rw [hs]
  exact Mem2ports.step_rdata (b := (b.run p memsize pins t).dmemPort memsize (pins t)) hl

/-- What a slot leaves in data memory is there when the next unflushed one is reached. -/
theorem dmem_next (hb : b.core = .reset p m) (hc : Calm k pins) {t : ℕ} (ht : startup k ≤ t)
    (hf : (State.run p (b.inputs p memsize pins) m t).exFlush = false) :
    (b.run p memsize pins (State.nextCycle p (b.inputs p memsize pins) m t + 1)).dmem.ram =
      (b.run p memsize pins (t + 2)).dmem.ram := by
  have h : ReadyFrom k (b.inputs p memsize pins) := readyFrom hc
  have hbt := (State.run_between (p := p) (m := m) h ht hf).1
  have hq : ∀ u, startup k ≤ u →
      (State.run p (b.inputs p memsize pins) m u).exFlush = true →
      (b.run p memsize pins (u + 2)).dmem.ram = (b.run p memsize pins (u + 1)).dmem.ram := by
    intro u hu hfl
    rw [dmem_ram hb hc hu]
    have hw : (State.slotAt p (b.inputs p memsize pins) m u).memwr = false :=
      Slot.memwr_flush hfl
    simp only [hw, Bool.false_eq_true, if_false]
  rw [State.nextCycle] at hbt ⊢
  split
  · rename_i hr
    rw [if_pos hr] at hbt
    exact (hq (t + 2) (by omega) (hbt _ (by omega) (by omega))).trans
      (hq (t + 1) (by omega) (hbt _ (by omega) (by omega)))
  · rfl

end Board

end Srv32.Rtl
