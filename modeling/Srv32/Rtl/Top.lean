import Srv32.Rtl.Retire
import Srv32.Rtl.Clint

/-! The core beside the CLINT as `rtl/top.v` connects them, and what an instruction does to the
CLINT in a run from reset. -/

namespace Srv32.Rtl

open Device (Reg Access Regs)
open Clint (msipBits)

def clintBase : BitVec 4 := 9#4

def isClint (addr : Word) : Bool := addr.extractLsb' 28 4 == clintBase

/-- The registers of `top.v`: the core, the CLINT and `data_sel`. -/
structure Top where
  core : State
  clint : Clint
  dataSel : Bool

/-- The input ports of `top.v`; the two `rresp` inputs are not used. -/
structure TopInput where
  stall : Bool
  interrupt : Bool
  imemValid : Bool
  imemRdata : Word
  dmemWvalid : Bool
  dmemRvalid : Bool
  dmemRdata : Word

namespace Top

variable (p : Param) (i : TopInput) (x : Top)

/-- The inputs of the core with the data memory's own `rvalid`. -/
def ramInput : Input where
  stall := i.stall
  timerIrq := x.clint.timerIrq
  swIrq := x.clint.swIrq
  interrupt := i.interrupt
  imemValid := i.imemValid
  imemRdata := i.imemRdata
  dmemWvalid := isClint x.core.wbWaddr || i.dmemWvalid
  dmemRvalid := i.dmemRvalid
  dmemRresp := true
  dmemRdata := if x.dataSel then x.clint.rdata else i.dmemRdata

/-- `draddr`, which does not depend on `rvalid`. -/
def raddr : Word := x.core.dmemRaddr (x.ramInput i)

def input : Input :=
  { x.ramInput i with dmemRvalid := isClint (x.raddr i) || i.dmemRvalid }

def clintPort : ClintPort where
  timerEn := x.core.timerEn
  wready := x.core.dmemWready && isClint x.core.wbWaddr
  waddr := x.core.wbWaddr
  wdata := x.core.wbWdata
  rready := x.core.dmemRready && isClint (x.raddr i)
  raddr := x.raddr i

/-! Output ports -/

def dmemWready : Bool := x.core.dmemWready && !isClint x.core.wbWaddr
def dmemRready : Bool := x.core.dmemRready && !isClint (x.raddr i)

def step : Top where
  core := x.core.step p (x.input i)
  clint := x.clint.step (x.clintPort i)
  dataSel := isClint (x.raddr i)

def run (i : ℕ → TopInput) : ℕ → Top
  | 0 => x
  | n + 1 => (run i n).step p (i n)

end Top

/-- `stall` is high for `k` cycles from reset and low from then on, and the memories are always
ready. -/
structure TopReady (k : ℕ) (i : ℕ → TopInput) : Prop where
  stall : ∀ t, (i t).stall = decide (t < k)
  imemValid : ∀ t, (i t).imemValid = true
  dmemWvalid : ∀ t, (i t).dmemWvalid = true
  dmemRvalid : ∀ t, (i t).dmemRvalid = true

def Slot.Accesses (x : Slot) : Access → Prop
  | .other => ∀ r : Reg, x.memaddr = r.addr → x.ex.memwr = false ∧ x.mem2reg = false
  | .load r => x.mem2reg = true ∧ x.ex.aluOp = opLw ∧ x.memaddr = r.addr
  | .store r v => x.ex.memwr = true ∧ x.ex.aluOp = opSw ∧ x.memaddr = r.addr ∧ x.aluOp2 = v

instance (x : Slot) (e : Access) : Decidable (x.Accesses e) :=
  match e with
  | .other => inferInstanceAs (Decidable (∀ r : Reg, x.memaddr = r.addr → _ ∧ _))
  | .load _ => inferInstanceAs (Decidable (_ ∧ _ ∧ _))
  | .store _ _ => inferInstanceAs (Decidable (_ ∧ _ ∧ _ ∧ _))

namespace Top

variable {p : Param} {i : ℕ → TopInput} {x : Top} {m : Word} {k : ℕ}

variable (p i x) in
def inputs (t : ℕ) : Input := (x.run p i t).input (i t)

theorem core_run (hx : x.core = .reset p m) (t : ℕ) :
    (x.run p i t).core = State.run p (x.inputs p i) m t := by
  induction t with
  | zero => exact hx
  | succ t ih =>
    rw [State.run, ← ih]
    rfl

theorem readyFrom (h : TopReady k i) : ReadyFrom k (x.inputs p i) := by
  refine ⟨h.stall, h.imemValid, fun t => ?_, fun t => ?_, fun _ => rfl⟩
  · change (isClint _ || (i t).dmemWvalid) = true
    rw [h.dmemWvalid t, Bool.or_true]
  · change (isClint _ || (i t).dmemRvalid) = true
    rw [h.dmemRvalid t, Bool.or_true]

theorem isClint_addr (r : Reg) : isClint r.addr = true := by
  cases r <;> rfl

theorem timerEn_run (hx : x.core = .reset p m) (h : TopReady k i) (t : ℕ) :
    (x.run p i t).core.timerEn = decide (startup k ≤ t) := by
  have hr : ReadyFrom k (x.inputs p i) := readyFrom h
  rw [core_run hx, State.timerEn]
  by_cases ht : startup k ≤ t
  · rw [(State.run_flowing hr ht).filled, decide_eq_true ht]
    rfl
  · rw [decide_eq_false ht]
    unfold startup at ht
    rcases (by omega : t ≤ k ∨ t = k + 1 ∨ t = k + 2) with h0 | rfl | rfl
    · rw [State.run_reset hr h0]
      rfl
    · rw [State.run_released hr]
      rfl
    · rw [(State.run_filling hr).pipefill]
      rfl

theorem writes_iff (hx : x.core = .reset p m) (h : TopReady k i) {t : ℕ} (ht : startup k ≤ t)
    (r : Reg) : ((x.run p i (t + 1)).clintPort (i (t + 1))).Writes r ↔
      (State.slotAt p (x.inputs p i) m t).memwr = true ∧
        (State.slotAt p (x.inputs p i) m t).memaddr = r.addr := by
  have hr : ReadyFrom k (x.inputs p i) := readyFrom h
  have hw := State.run_wready (p := p) (m := m) hr ht
  have hwp := State.run_wport (p := p) (m := m) hr ht
  rw [← core_run hx] at hw hwp
  simp only [State.wport, Prod.mk.injEq] at hwp
  simp only [ClintPort.Writes, clintPort, Bool.and_eq_true]
  rw [hw]
  constructor
  · rintro ⟨⟨hm, -⟩, ha⟩
    exact ⟨hm, (hwp hm).1.symm.trans ha⟩
  · rintro ⟨hm, ha⟩
    have hwa := (hwp hm).1.trans ha
    rw [hwa]
    exact ⟨⟨hm, isClint_addr r⟩, rfl⟩

/-- The registers one cycle on when the slot before stored nothing at the CLINT. -/
theorem regs_idle (hx : x.core = .reset p m) (h : TopReady k i) {t : ℕ} (ht : startup k ≤ t)
    (hn : ∀ r : Reg, (State.slotAt p (x.inputs p i) m t).memwr = true →
      (State.slotAt p (x.inputs p i) m t).memaddr ≠ r.addr) :
    (x.run p i (t + 2)).clint.regs = (x.run p i (t + 1)).clint.regs.tick 1#64 := by
  have hidle : ∀ r, ¬ ((x.run p i (t + 1)).clintPort (i (t + 1))).Writes r := by
    intro r hw
    obtain ⟨hm, ha⟩ := (writes_iff hx h ht r).mp hw
    exact hn r hm ha
  have hen : ((x.run p i (t + 1)).clintPort (i (t + 1))).timerEn = true := by
    change (x.run p i (t + 1)).core.timerEn = true
    rw [timerEn_run hx h, decide_eq_true (by omega)]
  change ((x.run p i (t + 1)).clint.step _).regs = _
  rw [Clint.step_idle hidle, if_pos hen]

theorem addr_aligned (r : Reg) : r.addr.getLsbD 0 = false ∧ r.addr.getLsbD 1 = false := by
  cases r <;> exact ⟨rfl, rfl⟩

theorem regs_after (hx : x.core = .reset p m) (h : TopReady k i) {t : ℕ} (ht : startup k ≤ t)
    {e : Access} (hf : (State.slotAt p (x.inputs p i) m t).flush = false)
    (he : (State.slotAt p (x.inputs p i) m t).Accesses e)
    (hex : (State.slotAt p (x.inputs p i) m t).mem2reg = true →
      (State.slotAt p (x.inputs p i) m t).ex.memwr = false) :
    (x.run p i (t + 2)).clint.regs =
      (x.run p i (t + 1)).clint.regs.after msipBits e 1#64 := by
  have hr : ReadyFrom k (x.inputs p i) := readyFrom h
  cases e with
  | other =>
    refine regs_idle hx h ht fun r hm ha => ?_
    rw [Slot.memwr, (he r ha).1] at hm
    simp at hm
  | load r =>
    refine regs_idle hx h ht fun r' hm _ => ?_
    rw [Slot.memwr, hex he.1] at hm
    simp at hm
  | store r v =>
    obtain ⟨hst, hop, ha, hv⟩ := he
    have hal : (State.slotAt p (x.inputs p i) m t).stAlignExcp = false := by
      obtain ⟨h0, h1⟩ := addr_aligned r
      rw [Slot.stAlignExcp, hop, ha, h0, h1]
      simp
    have hm : (State.slotAt p (x.inputs p i) m t).memwr = true := by
      rw [Slot.memwr, hst, hf, hal]
      rfl
    have hd : (State.slotAt p (x.inputs p i) m t).wdata = v := by
      rw [Slot.wdata, hop, ← hv]
      rfl
    have hwp := State.run_wport (p := p) (m := m) hr ht hm
    rw [← core_run hx, hd] at hwp
    simp only [State.wport, Prod.mk.injEq] at hwp
    have hen : ((x.run p i (t + 1)).clintPort (i (t + 1))).timerEn = true := by
      change (x.run p i (t + 1)).core.timerEn = true
      rw [timerEn_run hx h, decide_eq_true (by omega)]
    change ((x.run p i (t + 1)).clint.step _).regs = _
    rw [Clint.step_write hen ((writes_iff hx h ht r).mpr ⟨hm, ha⟩)]
    change (Regs.write _ _ _ (x.run p i (t + 1)).core.wbWdata).tick _ = _
    rw [hwp.2.2, Regs.after]
    rfl

theorem regs_startup (hx : x.core = .reset p m) (h : TopReady k i) {t : ℕ} (ht : t ≤ startup k) :
    (∀ r, ¬ ((x.run p i t).clintPort (i t)).Writes r) ∧
      (x.run p i t).clint.regs = x.clint.regs := by
  have hr : ReadyFrom k (x.inputs p i) := readyFrom h
  induction t with
  | zero =>
    refine ⟨fun r hw => ?_, rfl⟩
    have hm := hw.1
    change (x.core.wbMemwr && _) = true at hm
    rw [hx] at hm
    simp [State.reset] at hm
  | succ t ih =>
    obtain ⟨hidle, hregs⟩ := ih (by omega)
    refine ⟨fun r hw => ?_, ?_⟩
    · have hm := hw.1
      change ((x.run p i (t + 1)).core.dmemWready && _) = true at hm
      rw [core_run hx, (State.run_before hr (by omega)).2] at hm
      simp at hm
    · have hen : ((x.run p i t).clintPort (i t)).timerEn = false := by
        change (x.run p i t).core.timerEn = false
        rw [timerEn_run hx h, decide_eq_false (by omega)]
      change ((x.run p i t).clint.step _).regs = _
      rw [Clint.step_idle hidle, if_neg (by simp [hen]), hregs]

section

variable (hx : x.core = .reset p m) (h : TopReady k i)
include hx h

theorem regs_start :
    (x.run p i (startup k + 1)).clint.regs = x.clint.regs.tick 1#64 := by
  obtain ⟨hidle, hregs⟩ := regs_startup hx h (le_refl (startup k))
  have hen : ((x.run p i (startup k)).clintPort (i (startup k))).timerEn = true := by
    change (x.run p i (startup k)).core.timerEn = true
    rw [timerEn_run hx h, decide_eq_true le_rfl]
  change ((x.run p i (startup k)).clint.step _).regs = _
  rw [Clint.step_idle hidle, if_pos hen, hregs]

theorem regs_next {t : ℕ} (ht : startup k ≤ t) {e : Access}
    (hf : (State.run p (x.inputs p i) m t).exFlush = false)
    (he : (State.slotAt p (x.inputs p i) m t).Accesses e) :
    (x.run p i (State.nextCycle p (x.inputs p i) m t + 1)).clint.regs =
      (x.run p i (t + 1)).clint.regs.after msipBits e
        (State.cycles (State.slotAt p (x.inputs p i) m t)) := by
  have hr : ReadyFrom k (x.inputs p i) := readyFrom h
  have hl := (State.run_flowing (p := p) (m := m) hr ht).loaded hf (x.inputs p i t)
  have hex : (State.slotAt p (x.inputs p i) m t).mem2reg = true →
      (State.slotAt p (x.inputs p i) m t).ex.memwr = false := by
    intro hld
    have hld' : (opcode (State.slotAt p (x.inputs p i) m t).insn == opLoad) = true := by
      rw [← hld]
      exact hl.mem2reg.symm
    change (State.run p (x.inputs p i) m t).ex.memwr = false
    rw [(State.run_flowing hr ht).decoded]
    change (opcode (State.run p (x.inputs p i) m t).exInsn == opStore) = false
    rw [show opcode (State.run p (x.inputs p i) m t).exInsn = opLoad from beq_iff_eq.mp hld']
    rfl
  have hafter := regs_after hx h ht hf he hex
  have hbt := (State.run_between (p := p) (m := m) hr ht hf).1
  have hflushed : ∀ u, startup k ≤ u →
      (State.run p (x.inputs p i) m u).exFlush = true →
      (x.run p i (u + 2)).clint.regs = (x.run p i (u + 1)).clint.regs.tick 1#64 := by
    intro u hu hfl
    refine regs_idle hx h hu fun r hm _ => ?_
    rw [Slot.memwr_flush hfl] at hm
    cases hm
  rw [State.nextCycle] at hbt ⊢
  cases hrd : (State.slotAt p (x.inputs p i) m t).redirects with
  | false =>
    simp only [Bool.false_eq_true, if_false, State.cycles, hrd]
    exact hafter
  | true =>
    simp only [hrd, if_true] at hbt
    simp only [if_true, State.cycles, hrd]
    have h1 := hflushed (t + 1) (by omega) (hbt _ (by omega) (by omega))
    have h2 := hflushed (t + 2) (by omega) (hbt _ (by omega) (by omega))
    rw [h2, h1, hafter, Regs.after_tick, Regs.after_tick]
    rfl

theorem regs_exCycle {es : ℕ → Access} {n : ℕ}
    (he : ∀ j < n, (State.slotAt p (x.inputs p i) m
      (State.exCycle p (x.inputs p i) m k j)).Accesses (es j)) :
    (x.run p i (State.exCycle p (x.inputs p i) m k n + 1)).clint.regs =
      (x.clint.regs.tick 1#64).run msipBits es (fun j => State.cycles
        (State.slotAt p (x.inputs p i) m (State.exCycle p (x.inputs p i) m k j))) n := by
  induction n with
  | zero => exact regs_start hx h
  | succ n ih =>
    obtain ⟨hs, hf⟩ := State.exCycle_spec (p := p) (m := m) (readyFrom h) n
    rw [Regs.run, ← ih fun j hj => he j (by omega)]
    exact regs_next hx h hs hf (he n (by omega))

/-- A word of the compare register or MSIP changes two cycles after the slot that stores it. -/
theorem word_after {t : ℕ} (ht : startup k ≤ t) {r : Reg} (hr : Regs.stands r = false) :
    (x.run p i (t + 2)).clint.regs.word r =
      if (State.slotAt p (x.inputs p i) m t).memwr = true ∧
          (State.slotAt p (x.inputs p i) m t).memaddr = r.addr then
        (State.slotAt p (x.inputs p i) m t).wdata &&& Clint.bits r
      else (x.run p i (t + 1)).clint.regs.word r := by
  have hw := writes_iff hx h ht r
  simp only [ClintPort.Writes] at hw
  change ((x.run p i (t + 1)).clint.step _).regs.word r = _
  rw [Clint.step_word hr]
  by_cases hst : (State.slotAt p (x.inputs p i) m t).memwr = true ∧
      (State.slotAt p (x.inputs p i) m t).memaddr = r.addr
  · have hwp := State.run_wport (p := p) (m := m) (readyFrom h) ht hst.1
    rw [← core_run hx] at hwp
    simp only [State.wport, Prod.mk.injEq] at hwp
    rw [if_pos hst, if_pos (hw.mpr hst), ← hwp.2.2]
    rfl
  · rw [if_neg hst, if_neg fun hc => hst (hw.mp hc)]

theorem load_rdata {t : ℕ} {r : Reg} (ht : startup k ≤ t)
    (he : (State.slotAt p (x.inputs p i) m t).Accesses (.load r)) :
    (State.run p (x.inputs p i) m (t + 1)).wbValue (x.inputs p i (t + 1)) =
      ((x.run p i t).clint.regs.tick 1#64).read r := by
  obtain ⟨hld, hop, ha⟩ := he
  have hraddr : (x.run p i t).raddr (i t) = r.addr := by
    rw [← ha, raddr, core_run hx]
    rfl
  have hrr : ((x.run p i t).clintPort (i t)).rready = true := by
    change ((x.run p i t).core.exMem2reg && isClint ((x.run p i t).raddr (i t))) = true
    rw [hraddr, isClint_addr, core_run hx, Bool.and_true]
    exact hld
  have hdata : (x.inputs p i (t + 1)).dmemRdata = ((x.run p i t).clint.regs.tick 1#64).read r := by
    have hsel : (x.run p i (t + 1)).dataSel = true := by
      change isClint ((x.run p i t).raddr (i t)) = true
      rw [hraddr, isClint_addr]
    change (if (x.run p i (t + 1)).dataSel = true then (x.run p i (t + 1)).clint.rdata else _) = _
    rw [if_pos hsel]
    exact Clint.step_rdata hrr hraddr
  have hmr : (State.run p (x.inputs p i) m t).exMem2reg = true := hld
  have hop' : (State.run p (x.inputs p i) m t).ex.aluOp = opLw := hop
  rw [State.run_wbValue (readyFrom h) ht, if_pos hmr, hop', hdata]
  rfl

/-- A load right after an instruction that stores nothing at the CLINT. -/
theorem load_value {t : ℕ} {r : Reg} (ht : startup k ≤ t)
    (he : (State.slotAt p (x.inputs p i) m t).Accesses (.load r))
    (hidle : ∀ r', ¬ ((x.run p i t).clintPort (i t)).Writes r') :
    (State.run p (x.inputs p i) m (t + 1)).wbValue (x.inputs p i (t + 1)) =
      (x.run p i (t + 1)).clint.regs.read r := by
  have hen : ((x.run p i t).clintPort (i t)).timerEn = true := by
    change (x.run p i t).core.timerEn = true
    rw [timerEn_run hx h, decide_eq_true ht]
  have hregs : (x.run p i (t + 1)).clint.regs = (x.run p i t).clint.regs.tick 1#64 := by
    change ((x.run p i t).clint.step _).regs = _
    rw [Clint.step_idle hidle, if_pos hen]
  rw [load_rdata hx h ht he, hregs]

/-- The write port is idle in the cycle of an instruction whose predecessor stores nothing at the
CLINT. -/
theorem idle_exCycle {n : ℕ}
    (hn : ∀ j, n = j + 1 → ∀ r : Reg,
      (State.slotAt p (x.inputs p i) m (State.exCycle p (x.inputs p i) m k j)).memwr = true →
      (State.slotAt p (x.inputs p i) m (State.exCycle p (x.inputs p i) m k j)).memaddr ≠ r.addr)
    (r : Reg) :
    ¬ ((x.run p i (State.exCycle p (x.inputs p i) m k n)).clintPort
      (i (State.exCycle p (x.inputs p i) m k n))).Writes r := by
  have hr : ReadyFrom k (x.inputs p i) := readyFrom h
  cases n with
  | zero => exact (regs_startup hx h (le_refl (startup k))).1 r
  | succ n =>
    have hno := hn n rfl r
    obtain ⟨hs, hf⟩ := State.exCycle_spec (p := p) (m := m) hr n
    have hbt := (State.run_between (p := p) (m := m) hr hs hf).1
    rw [State.exCycle]
    generalize State.exCycle p (x.inputs p i) m k n = t at *
    rw [State.nextCycle] at hbt ⊢
    split
    · rename_i hrd
      rw [if_pos hrd] at hbt
      intro hw
      obtain ⟨hm, -⟩ := (writes_iff (t := t + 2) hx h (by omega) r).mp hw
      rw [Slot.memwr_flush (hbt _ (by omega) (by omega))] at hm
      cases hm
    · intro hw
      obtain ⟨hm, ha⟩ := (writes_iff hx h hs r).mp hw
      exact hno hm ha

end

end Top

end Srv32.Rtl
