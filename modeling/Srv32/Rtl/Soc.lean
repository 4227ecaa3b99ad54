import Srv32.Rtl.Top

/-! The system of `testbench/testbench.v`: `top.v` between an instruction and a data memory, with
the word that the host side answers with. -/

namespace Srv32.Rtl

def mmioBase : BitVec 4 := 0xa#4

def isMmio (addr : Word) : Bool := addr.extractLsb' 28 4 == mmioBase

/-- What the testbench drives in one cycle: `stall`, and `result`, the host's last answer. -/
structure HostPins where
  stall : Bool
  result : Word

/-- `top.v`, `imem`, `dmem` and `rready`. -/
structure Soc where
  top : Top
  imem : Mem2ports
  dmem : Mem2ports
  rready : Bool

namespace Soc

variable (p : Param) (memsize : ℕ) (h : HostPins) (s : Soc)

/-- The inputs of `top.v`; `ex_irq` is wired back to `interrupt`. -/
def input : TopInput where
  stall := h.stall
  interrupt := s.top.clint.exIrq
  imemValid := true
  imemRdata := s.imem.rdata
  dmemWvalid := true
  dmemRvalid := true
  dmemRdata := if s.rready then h.result else s.dmem.rdata

def imemPort : MemPort where
  rready := s.top.core.imemReady (s.top.input (s.input h))
  wready := false
  raddr := s.top.core.imemAddr.extractLsb' 2 30
  waddr := 0
  wdata := 0
  wstrb := 0

def dmemPort : MemPort where
  rready := s.top.dmemRready (s.input h)
  wready := s.top.dmemWready && !isMmio s.top.core.wbWaddr
  raddr := dramIndex memsize (s.top.raddr (s.input h))
  waddr := dramIndex memsize s.top.core.wbWaddr
  wdata := s.top.core.wbWdata
  wstrb := s.top.core.wbWstrb

def step : Soc where
  top := s.top.step p (s.input h)
  imem := s.imem.step (ramSize memsize) (s.imemPort h)
  dmem := s.dmem.step (ramSize memsize) (s.dmemPort memsize h)
  rready := s.top.core.dmemRready && s.top.raddr (s.input h) == mmioFromhost

def run (host : ℕ → HostPins) : ℕ → Soc
  | 0 => s
  | n + 1 => (run host n).step p memsize (host n)

/-- The system under reset, with a program and the initial data. -/
def boot (p : Param) (mscratch : Word) (prog data : ℕ → Word) (rdata : Word) : Soc :=
  ⟨⟨.reset p mscratch, .reset rdata, false⟩, ⟨prog, rdata⟩, ⟨data, rdata⟩, false⟩

end Soc

namespace Soc

variable (p : Param) (memsize : ℕ) (host : ℕ → HostPins) (s : Soc)

def inputs (t : ℕ) : TopInput := (s.run p memsize host t).input (host t)

def coreInputs : ℕ → Input := s.top.inputs p (s.inputs p memsize host)

variable {p memsize host s} {m : Word} {k : ℕ}

theorem top_run (t : ℕ) :
    (s.run p memsize host t).top = s.top.run p (s.inputs p memsize host) t := by
  induction t with
  | zero => rfl
  | succ t ih =>
    rw [Top.run, ← ih]
    rfl

theorem topReady (hs : ∀ t, (host t).stall = decide (t < k)) :
    TopReady k (s.inputs p memsize host) :=
  ⟨hs, fun _ => rfl, fun _ => rfl, fun _ => rfl⟩

theorem coreInputs_eq (t : ℕ) : s.coreInputs p memsize host t =
    (s.run p memsize host t).top.input ((s.run p memsize host t).input (host t)) := by
  rw [top_run]
  rfl

theorem core_run (hb : s.top.core = .reset p m) (t : ℕ) :
    (s.run p memsize host t).top.core = State.run p (s.coreInputs p memsize host) m t := by
  rw [top_run]
  exact Top.core_run hb t

theorem imem_ram (t : ℕ) : (s.run p memsize host t).imem.ram = s.imem.ram := by
  induction t with
  | zero => rfl
  | succ t ih => exact ih

theorem readyFrom (hs : ∀ t, (host t).stall = decide (t < k)) :
    ReadyFrom k (s.coreInputs p memsize host) := Top.readyFrom (topReady hs)

section

variable (hb : s.top.core = .reset p m) (hs : ∀ t, (host t).stall = decide (t < k))
include hb hs

theorem run_insn {t : ℕ} (ht : startup k ≤ t) :
    (State.run p (s.coreInputs p memsize host) m t).exInsn = s.imem.ram
      (Mem2ports.index (ramSize memsize)
        ((State.run p (s.coreInputs p memsize host) m t).exPc.extractLsb' 2 30)) := by
  obtain ⟨u, rfl⟩ : ∃ u, t = u + 2 := ⟨t - 2, by unfold startup at ht; omega⟩
  have hu : k + 1 ≤ u := by unfold startup at ht; omega
  have h : ReadyFrom k (s.coreInputs p memsize host) := readyFrom hs
  have hst := State.run_stallR (p := p) (m := m) h hu
  have hrd : ((s.run p memsize host u).imemPort (host u)).rready = true := by
    have hin : s.coreInputs p memsize host u = _ := coreInputs_eq u
    change (s.run p memsize host u).top.core.imemReady _ = true
    rw [← hin, core_run hb, State.imemReady, State.wbStall, hst,
      (h.ready (t := u) (by omega)).dmemWvalid, (h.ready (t := u) (by omega)).dmemRresp]
    simp
  obtain ⟨hpc, hin⟩ := State.run_fetched (p := p) (m := m) h hu
  have hram : (s.run p memsize host (u + 1)).imem.ram = s.imem.ram := imem_ram (u + 1)
  have hd : (s.run p memsize host (u + 1)).imem.rdata = _ := Mem2ports.step_rdata hrd
  rw [hin, hpc, coreInputs_eq]
  change (s.run p memsize host (u + 1)).imem.rdata = _
  rw [hd, ← hram, ← core_run hb]
  rfl

variable (memsize) in
theorem dmem_ram {t : ℕ} (ht : startup k ≤ t) :
    (s.run p memsize host (t + 2)).dmem.ram =
      let x := State.slotAt p (s.coreInputs p memsize host) m t
      let ram := (s.run p memsize host (t + 1)).dmem.ram
      let a := Mem2ports.index (ramSize memsize) (dramIndex memsize x.memaddr)
      if x.memwr && !isClint x.memaddr && !isMmio x.memaddr then
        Function.update ram a (mergeBytes x.wstrb (ram a) x.wdata)
      else ram := by
  have h : ReadyFrom k (s.coreInputs p memsize host) := readyFrom hs
  have hw : (s.run p memsize host (t + 1)).top.core.wbMemwr =
      (State.slotAt p (s.coreInputs p memsize host) m t).memwr := by
    rw [core_run hb]
    exact State.run_wready h ht
  change (Mem2ports.step _ ((s.run p memsize host (t + 1)).dmemPort memsize (host (t + 1)))
      (s.run p memsize host (t + 1)).dmem).ram = _
  simp only [Mem2ports.step, dmemPort, Top.dmemWready, State.dmemWready, hw]
  cases hm : (State.slotAt p (s.coreInputs p memsize host) m t).memwr with
  | false => rfl
  | true =>
    have hp := State.run_wport h ht hm
    rw [← core_run hb (t + 1)] at hp
    simp only [State.wport, Prod.mk.injEq] at hp
    obtain ⟨ha, hst, hd⟩ := hp
    rw [ha, hst, hd]

theorem dmem_startup {t : ℕ} (ht : t ≤ startup k + 1) :
    (s.run p memsize host t).dmem.ram = s.dmem.ram := by
  have h : ReadyFrom k (s.coreInputs p memsize host) := readyFrom hs
  induction t with
  | zero => rfl
  | succ t ih =>
    have hq : (s.run p memsize host t).top.core.wbMemwr = false := by
      rw [core_run hb]
      rcases Nat.eq_zero_or_pos t with rfl | h0
      · rfl
      · obtain ⟨u, rfl⟩ : ∃ u, t = u + 1 := ⟨t - 1, by omega⟩
        exact (State.run_before h (by omega)).2
    rw [← ih (by omega)]
    refine Mem2ports.step_ram ?_
    change ((s.run p memsize host t).top.core.wbMemwr && _ && _) = false
    rw [hq]
    rfl

variable (memsize) in
/-- What a slot leaves in data memory is there when the next unflushed one is reached. -/
theorem dmem_next {t : ℕ} (ht : startup k ≤ t)
    (hf : (State.run p (s.coreInputs p memsize host) m t).exFlush = false) :
    (s.run p memsize host
      (State.nextCycle p (s.coreInputs p memsize host) m t + 1)).dmem.ram =
      (s.run p memsize host (t + 2)).dmem.ram := by
  have h : ReadyFrom k (s.coreInputs p memsize host) := readyFrom hs
  have hbt := (State.run_between (p := p) (m := m) h ht hf).1
  have hq : ∀ u, startup k ≤ u →
      (State.run p (s.coreInputs p memsize host) m u).exFlush = true →
      (s.run p memsize host (u + 2)).dmem.ram = (s.run p memsize host (u + 1)).dmem.ram := by
    intro u hu hfl
    have hw : (State.slotAt p (s.coreInputs p memsize host) m u).memwr = false :=
      Slot.memwr_flush hfl
    rw [dmem_ram memsize hb hs hu]
    simp only [hw, Bool.false_and, Bool.false_eq_true, if_false]
  rw [State.nextCycle] at hbt ⊢
  split
  · rename_i hr
    rw [if_pos hr] at hbt
    exact (hq (t + 2) (by omega) (hbt _ (by omega) (by omega))).trans
      (hq (t + 1) (by omega) (hbt _ (by omega) (by omega)))
  · rfl

end

end Soc

end Srv32.Rtl
