import Srv32.Iss.Run

/-! Exceptions are precise: an instruction that traps has changed nothing but the trap CSRs and
the counters, in every configuration. -/

namespace Srv32.Iss.Rv

variable {cfg : Config} {rv rv' s d : Rv} {inst : Word} {host : Host} {c : Bool}

/-- What an exception taken by the instruction fetched in `s` leaves behind. -/
structure TrapsPrecisely (s t : Rv) : Prop where
  regs : t.regs = s.regs
  mem : t.mem = s.mem
  csr : t.csr = { s.csr with
    mepc := t.csr.mepc
    mcause := t.csr.mcause
    mtval := t.csr.mtval
    mstatus := t.csr.mstatus
    time := t.csr.time
    cycle := t.csr.cycle
    instret := t.csr.instret
    mtime := t.csr.mtime }
  mepc : t.csr.mepc = s.pc
  mpie : t.csr.mstatus.getLsbD bitMpie = s.csr.mstatus.getLsbD bitMie
  mie : t.csr.mstatus.getLsbD bitMie = false
  mstatus : ∀ i, i ≠ bitMie → i ≠ bitMpie →
    t.csr.mstatus.getLsbD i = s.csr.mstatus.getLsbD i
  pc : t.pc = vectorOf s.csr.mtvec t.csr.mcause

theorem trapsPrecisely_trap (hr : Ready host s d inst) (hc : Charged d rv') (cause val : Word) :
    TrapsPrecisely s (rv'.trap cause val) := by
  have hm : (rv'.trap cause val).csr.mstatus = pushMie s.csr.mstatus := by
    obtain ⟨_, _, _, _, _, rfl⟩ := hr.state
    obtain ⟨_, _, _, rfl⟩ := hc
    rfl
  refine ⟨?_, ?_, ?_, ?_, ?_, ?_, ?_, ?_⟩
  rotate_left 4
  · rw [hm, pushMie_mpie]
  · rw [hm, pushMie_getLsbD_mie]
  · intro i hi hp
    rw [hm, pushMie_bit _ hi hp]
  all_goals
    obtain ⟨_, _, _, _, _, rfl⟩ := hr.state
    obtain ⟨_, _, _, rfl⟩ := hc
    rfl

/-- Whatever the configuration, the state and the word at the pc, a step that returns `RV_TRAP`,
ECALL apart, leaves a precise exception of the instruction it fetched. -/
theorem exceptions_precise (cfg : Config) (host : Host) (rv : Rv)
    (h : (srv32Step cfg host rv).1 = .code rvTrap)
    (he : (srv32Step cfg host rv).2.csr.mcause ≠ trapEcall) :
    TrapsPrecisely (rv.settle cfg) (srv32Step cfg host rv).2 := by
  have hstep := srv32Step_eq cfg host rv
  rcases dispatch_cases cfg host rv with ⟨d, inst, c, hd, hr⟩ | ⟨d, val, hd, hr⟩
  · rw [hd] at hstep
    simp only [execNext] at hstep
    have ho := exec_outcome cfg d inst host c
    generalize d.exec cfg inst host c = f at hstep ho
    rw [hstep] at h he ⊢
    -- only the trap arms return `RV_TRAP`
    cases ho with
    | next hw hp => exact absurd h (by simp)
    | leave hw hne => exact absurd h hne
    | trap hc hcause => exact trapsPrecisely_trap hr hc _ _
    | ecall hw hi => exact absurd rfl he
    | mret hw hi => exact absurd h (by simp)
    | csr hc hi => exact absurd h (by simp)
  · rw [hd] at hstep
    rw [hstep]
    exact trapsPrecisely_trap hr (charged_refl d) _ _

/-- `lw x1, 1(x0)` from reset: the misaligned load traps. -/
theorem exceptions_precise_lw :
    let rv := Rv.boot .rv32im 1 (image [0x00102083#32])
    TrapsPrecisely (rv.settle .rv32im) (srv32Step .rv32im .none rv).2 :=
  exceptions_precise .rv32im .none (Rv.boot .rv32im 1 (image [0x00102083#32])) (by decide)
    (by decide)

end Srv32.Iss.Rv
