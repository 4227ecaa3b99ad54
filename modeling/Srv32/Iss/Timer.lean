import Srv32.Iss.Interrupt

/-! The timer comparison: the simulator compares `mtime` and `mtimecmp` as signed numbers. -/

namespace Srv32.Iss.Rv

variable {cfg : Config} {rv : Rv}

/-- The step from `rv` enters the timer interrupt. -/
def EntersTimer (cfg : Config) (rv : Rv) : Prop := ∃ e ∈ rv.entries cfg, e.source.cause = intMtime

instance (cfg : Config) (rv : Rv) : Decidable (EntersTimer cfg rv) :=
  inferInstanceAs (Decidable (∃ e ∈ rv.entries cfg, e.source.cause = intMtime))

/-- The comparison of `clint.v`. -/
def TimerDue (c : Csr) : Prop := c.mtimecmp.toNat ≤ c.mtime.toNat

instance (c : Csr) : Decidable (TimerDue c) := inferInstanceAs (Decidable (_ ≤ _))

/-- The top bits differ in the way that makes a later time look earlier. -/
def Misordered (c : Csr) : Prop := c.mtime.toNat < 2 ^ 63 ∧ 2 ^ 63 ≤ c.mtimecmp.toNat

/-- The step from `rv` samples the timer, with its interrupt enabled, while the values are
misordered. -/
def SamplesMisordered (cfg : Config) (host : Host) (rv : Rv) : Prop :=
  let s := rv.settle cfg
  s.mieSet = true ∧ s.csr.mie.getLsbD bitMtie = true ∧ opcode (s.fetch host) ≠ opSystem ∧
    Misordered s.csr

theorem sle_iff (c : Csr) :
    c.mtimecmp.sle c.mtime = true ∧ ¬ TimerDue c ↔ Misordered c := by
  have h1 := c.mtime.isLt
  have h2 := c.mtimecmp.isLt
  rw [BitVec.sle, decide_eq_true_eq, BitVec.toInt_eq_toNat_cond, BitVec.toInt_eq_toNat_cond,
    TimerDue, Misordered]
  split_ifs <;> omega

/-- The timer is the first source, so its latch is all that its entry takes beside MIE. -/
theorem entersTimer_iff : EntersTimer cfg rv ↔ rv.latch.timerIrq = true ∧ rv.mieSet = true := by
  have hm : ({ rv with mtimeUpdate := false }.writeRegs cfg 0#5 0#32).mieSet = rv.mieSet := by
    rw [mieSet, writeRegs_csr]
    rfl
  constructor
  · rintro ⟨e, he, hc⟩
    obtain ⟨-, hs, hl, hon⟩ := mem_entriesOf he
    rw [writeRegs_latch] at hl
    rw [hm] at hon
    refine ⟨?_, hon⟩
    obtain ⟨i, s⟩ := e
    simp only [sources, List.mem_cons, List.not_mem_nil, or_false] at hs
    rcases hs with rfl | rfl | rfl
    · exact hl
    · simp at hc
    · simp at hc
  · rintro ⟨ht, hon⟩
    refine ⟨⟨⟨intMtime, bitMtip, bitMtie, Latch.timerIrq⟩,
      { rv with mtimeUpdate := false }.writeRegs cfg 0#5 0#32⟩, ?_, rfl⟩
    rw [entries, sources, entriesOf, if_pos]
    · exact List.mem_cons_self
    · rw [writeRegs_latch, hm]
      exact ⟨ht, hon⟩

theorem timerIrq_step (cfg : Config) (host : Host) (rv : Rv) :
    let s := rv.settle cfg
    (srv32Step cfg host rv).2.latch.timerIrq = true ↔
      s.csr.mtimecmp.sle s.csr.mtime = true ∧ s.mieSet = true ∧
        s.csr.mie.getLsbD bitMtie = true ∧ opcode (s.fetch host) ≠ opSystem := by
  intro s
  obtain ⟨⟨p, hlatch⟩, -⟩ := step_latch cfg host rv
  rw [hlatch]
  simp only [sampleIrq, decide_eq_true_eq, ne_eq]
  rw [← ne_eq (s.csr.mie &&& _), Bits.and_bit_ne_zero _ (by decide)]

/-- The timer interrupts of a run are due: one is entered only if, when the step before sampled
the timer, `mtime` had reached `mtimecmp` as an unsigned number. -/
def TimerUnsigned (cfg : Config) (host : ℕ → Host) (rv : Rv) : Prop :=
  ∀ n, EntersTimer cfg (run cfg host rv n) →
    ∃ m, n = m + 1 ∧ TimerDue ((run cfg host rv m).settle cfg).csr

/-- A program that stores -1 to both halves of `mtimecmp`, then sets MTIE and MIE. -/
def disarmed : List Word :=
  [0x900000b7#32, 0xfff00113#32, 0x0020a423#32, 0x0020a623#32, 0x08000093#32, 0x30409073#32,
    0x30046073#32, 0x00000013#32, 0x00000013#32]

end Srv32.Iss.Rv
