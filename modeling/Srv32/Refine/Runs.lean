import Srv32.Refine.Simulation

/-! Whole runs from reset: the pipeline executes the simulator's instructions with the
simulator's results, and in the cycles the simulator counts. -/

namespace Srv32.Refine

open Iss (Rv Host rvOkay atSwitch)
open Iss.Rv (width)
open Rtl (Slot Board Pins State Calm ReadyFrom startup ramSize calm_low)
open Rtl.State (slotAt exCycle)

/-- A legal instruction outside SYSTEM that raises no exception, inside the RAMs. -/
structure Plain (memsize : ℕ) (host : Host) (d : Rv) (inst : Word) : Prop where
  legal : Rv.rejects inst = false
  notSystem : opcode inst ≠ opSystem
  pc : d.pc.toNat < ramSize memsize
  notSelf : ¬ JumpsToSelf d inst
  okay : (d.execNext .rv32im inst host false).1 = .code rvOkay
  aligned : (d.execNext .rv32im inst host false).2.pc.toNat % 4 = 0
  target : (d.execNext .rv32im inst host false).2.pc.toNat < ramSize memsize
  load : opcode inst = opLoad → InDram memsize (d.loadAddr inst) (width (func3 inst))
  store : opcode inst = opStore → InDram memsize (d.storeAddr inst) (width (func3 inst))

variable {memsize : ℕ} {pins : ℕ → Pins} {b : Board} {m : Word} {k : Known} {x : Slot} {s : ℕ}
  {d rv : Rv} {inst : Word} {host : Host} {hosts : ℕ → Host}

/-- The CSRs a run without SYSTEM instructions never changes. -/
def Quiet (d : Rv) : Prop := d.csr.mstatus = 0#32 ∧ d.csr.mtvec = 0#32

theorem Plain.excp (hp : Plain memsize host d inst) (h : Matched k x d inst) :
    x.excp = false := by
  have hill : x.instIllExcp = false := by
    rw [Slot.instIllExcp_eq h.loaded, h.insn]
    exact (legal_iff.mp hp.legal).1
  refine excp_of hill ?_ ?_ ?_
  · by_contra ha
    rw [Bool.not_eq_false] at ha
    obtain ⟨hexec, -, hmis, -⟩ : d.execNext .rv32im inst host false = _ ∧ _ :=
      execNext_instAlign h hill ha
    have := hp.aligned
    rw [hexec] at this
    exact hmis this
  · by_contra hld
    rw [Bool.not_eq_false] at hld
    have := hp.okay
    rw [Rv.execNext, exec_ldAlign h hld] at this
    simp [Rv.trapRet] at this
  · by_contra hst
    rw [Bool.not_eq_false] at hst
    have := hp.okay
    rw [Rv.execNext, exec_stAlign h hst] at this
    simp [Rv.trapRet] at this

theorem Plain.supported (hp : Plain memsize host d inst) (h : Matched k x d inst)
    (hq : Quiet d) : Supported memsize host d inst := by
  obtain ⟨-, hk⟩ := h.completes (hp.excp h) hp.notSystem hp.okay
  refine ⟨hp.legal, hp.pc, hp.notSelf, fun ho _ => hp.load ho, fun ho _ => hp.store ho,
    fun hm => ?_, by rw [hq.2]; rfl, fun hm => ?_, hp.target, Or.inl ?_⟩
  · simp [isMretWord, hp.notSystem] at hm
  · simp [isEcallWord, hp.notSystem] at hm
  · have hst : (d.execNext .rv32im inst host false).2.csr.mstatus = d.csr.mstatus :=
      congrArg Rtl.Csr.mstatus hk.csr
    simp [Rv.mieSet, hst, hq.1]

theorem Plain.readable (hp : Plain memsize host d inst) (k : Known) : Readable k inst := by
  have hr : ∀ n, readsCsr inst n = false := fun n => by simp [readsCsr, onCsr, hp.notSystem]
  have hm : isMretWord inst = false := by simp [isMretWord, hp.notSystem]
  refine ⟨fun ho => absurd ho hp.notSystem, ?_, ?_, ?_⟩ <;> simp [hr, hm]

theorem Plain.quiet (hp : Plain memsize host d inst) (h : Matched k x d inst) (hn : NoIrq x)
    (hm : Mapped memsize d) (hq : Quiet d) (host' : Host) :
    Quiet ((d.execNext .rv32im inst host false).2.prologue .rv32im host').1 := by
  have hadv := (hp.supported h hq).advance h hn (hp.readable k) hm
  have hcsr := csrNext_of_quiet h hn (hp.excp h) hp.notSystem
  constructor
  · change ((d.execNext .rv32im inst host false).2.settle .rv32im).csr.mstatus = 0#32
    rw [← hadv.csr.mstatus, hcsr, h.csr.mstatus, hq.1]
  · change ((d.execNext .rv32im inst host false).2.settle .rv32im).csr.mtvec = 0#32
    rw [← hadv.csr.mtvec, hcsr, h.csr.mtvec, hq.2]

/-- A run of plain instructions stays quiet, and so supported. -/
theorem Plain.run {K : ℕ} (hb : b.core = .reset .rv32im m) (hc : Calm s pins)
    (h : AtReset memsize rv) (hmem : SameMem memsize b.imem.ram b.dmem.ram rv.mem)
    (hp : ∀ n < K, Plain memsize (hosts n) (atSwitch .rv32im hosts rv n).1
      (atSwitch .rv32im hosts rv n).2) :
    ∀ n < K, Quiet (atSwitch .rv32im hosts rv n).1 ∧
      Sim memsize pins b m (known hosts rv (.atReset false) n)
        (exCycle .rv32im (b.inputs .rv32im memsize pins) m s n) (atSwitch .rv32im hosts rv n).1
        (atSwitch .rv32im hosts rv n).2 := by
  intro n
  induction n using Nat.strong_induction_on with
  | _ n ih =>
    intro hn
    have hs : ∀ j < n, Supported memsize (hosts j) (atSwitch .rv32im hosts rv j).1
        (atSwitch .rv32im hosts rv j).2 := fun j hj =>
      have hj' := ih j hj (by omega)
      (hp j (by omega)).supported hj'.2.matched hj'.1
    refine ⟨?_, Sim.run hb hc h hmem (fun hx => by cases hx) (fun j hj => (hp j (by omega)).pc) hs
      fun j hj => (hp j (by omega)).readable _⟩
    cases n with
    | zero =>
      have hpos : 0 < memsize := by
        have := (hp 0 hn).pc
        unfold ramSize at this
        omega
      change Quiet ((rv.settle .rv32im).sampleIrq ((rv.settle .rv32im).fetch (hosts 0))).count
      rw [h.settle hpos]
      change rv.csr.mstatus = 0#32 ∧ rv.csr.mtvec = 0#32
      rw [h.csr]
      exact ⟨rfl, rfl⟩
    | succ n =>
      have hj := ih n (by omega) (by omega)
      rw [Iss.atSwitch_succ, Iss.result_eq]
      exact (hp n (by omega)).quiet hj.2.matched (noIrq hc) hj.2.mapped hj.1 (hosts (n + 1))

/-- The pipeline refines the simulator. From reset, for as long as the simulator executes plain
instructions: write-back is unflushed in the cycles after `c 0 < c 1 < …` and in no others, the
`n`-th time with the simulator's `n`-th instruction; one cycle later, when its register write and
store are done, registers and data memory are those of the simulator after its step. -/
theorem pipeline_refines (memsize : ℕ) (prog data : ℕ → Word) (m rdata : Word) (s : ℕ)
    (pins : ℕ → Pins) (hosts : ℕ → Host) (rv : Rv) (K : ℕ) (hc : Calm s pins)
    (h : AtReset memsize rv) (hmem : SameMem memsize prog data rv.mem)
    (hp : ∀ n < K, Plain memsize (hosts n) (atSwitch .rv32im hosts rv n).1
      (atSwitch .rv32im hosts rv n).2) :
    ∃ c : ℕ → ℕ, StrictMono c ∧
      (∀ t, startup s ≤ t →
        (((Board.boot .rv32im m prog data rdata).run .rv32im memsize pins (t + 1)).core.wbFlush =
            false ↔ ∃ n, t = c n)) ∧
      ∀ n < K,
        let wb := (Board.boot .rv32im m prog data rdata).run .rv32im memsize pins (c n + 1)
        let after := (Board.boot .rv32im m prog data rdata).run .rv32im memsize pins (c n + 2)
        wb.core.wbPc = (atSwitch .rv32im hosts rv n).1.pc ∧
        wb.core.wbInsn = (atSwitch .rv32im hosts rv n).2 ∧
        (∀ r, r ≠ 0#5 → after.core.regs r = (Iss.run .rv32im hosts rv (n + 1)).regs r) ∧
        SameMem memsize prog after.dmem.ram (Iss.run .rv32im hosts rv (n + 1)).mem := by
  have hb : (Board.boot .rv32im m prog data rdata).core = .reset .rv32im m := rfl
  have hrf : ReadyFrom s ((Board.boot .rv32im m prog data rdata).inputs .rv32im memsize pins) :=
    Board.readyFrom hc
  have hrun := Plain.run hb hc h hmem hp
  generalize hbd : Board.boot .rv32im m prog data rdata = b at *
  refine ⟨exCycle .rv32im (b.inputs .rv32im memsize pins) m s, State.exCycle_strictMono,
    fun t ht => ?_, fun n hn => ?_⟩
  · rw [Board.core_run hb, (State.run_wb hrf ht).1]
    exact State.exFlush_iff hrf ht
  · obtain ⟨hq, hsim⟩ := hrun n hn
    have hs := (hp n hn).supported hsim.matched hq
    have ht := (State.exCycle_spec (p := .rv32im) (m := m) hrf n).1
    obtain ⟨-, hpc, hin⟩ := State.run_wb (p := .rv32im) (m := m) hrf ht
    have hadv := hs.advance hsim.matched (noIrq hc) ((hp n hn).readable _) hsim.mapped
    have hregs := hsim.regs_after hb hc ht hs
    have hmemA := hsim.mem_after hb hc ht hs
    dsimp only
    rw [Board.core_run hb, Board.core_run hb, hpc, hin, Iss.run_succ, Iss.result_eq]
    refine ⟨hsim.matched.pc, hsim.matched.insn, fun r hr => ?_, ?_⟩
    · rw [hregs r hr, ← hadv.regs r hr, Iss.Rv.settle_regs, Function.update_of_ne hr]
    · rw [← Iss.Rv.settle_mem, hadv.mem]
      rw [← hbd] at hmemA ⊢
      exact hmemA

/-- `addi x1, x0, 5` and `sw x1, 1024(x0)` leave both with the same data memory. -/
theorem pipeline_refines_sw :
    let ws := [0x00500093#32, 0x40102023#32]
    let b := Board.boot .rv32im 0#32 (fun i => ws.getD i 0#32) (fun i => ws.getD (256 + i) 0#32) 0#32
    let rv := Rv.boot .rv32im 1 (Iss.image ws)
    ∃ t, (b.run .rv32im 1 (fun _ => ⟨false, false, false, false⟩) t).core.wbInsn = 0x40102023#32 ∧
      SameMem 1 (fun i => ws.getD i 0#32)
        (b.run .rv32im 1 (fun _ => ⟨false, false, false, false⟩) (t + 1)).dmem.ram
        (Iss.run .rv32im (fun _ => .none) rv 2).mem := by
  intro ws b rv
  have hp : ∀ n < 2, Plain 1 .none (atSwitch .rv32im (fun _ => .none) rv n).1
      (atSwitch .rv32im (fun _ => .none) rv n).2 := by
    intro n hn
    rcases (by omega : n = 0 ∨ n = 1) with rfl | rfl
    · exact ⟨by decide, by decide, by decide, by unfold JumpsToSelf; decide, by decide, by decide,
        by decide, fun h => absurd h (by decide), fun h => absurd h (by decide)⟩
    · exact ⟨by decide, by decide, by decide, by unfold JumpsToSelf; decide, by decide, by decide,
        by decide, fun h => absurd h (by decide), fun _ => by unfold InDram; decide⟩
  obtain ⟨c, -, -, hc⟩ := pipeline_refines 1 (fun i => ws.getD i 0#32)
    (fun i => ws.getD (256 + i) 0#32) 0#32 0#32 0 (fun _ => ⟨false, false, false, false⟩)
    (fun _ => .none) rv 2 calm_low (atReset_boot (by decide) _) (sameMem_image ws) hp
  obtain ⟨-, hin, -, hmem⟩ := hc 1 (by omega)
  exact ⟨c 1 + 1, hin.trans (by decide), hmem⟩

end Srv32.Refine
