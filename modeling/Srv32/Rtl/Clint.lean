import Srv32.Rtl.Core
import Srv32.Device

/-! `rtl/clint.v`: the timer, the compare register and MSIP. -/

namespace Srv32.Rtl

open Device (Reg Regs lo hi setLo setHi lo_setLo lo_setHi hi_setLo hi_setHi)

/-- The registers of `clint.v`. -/
structure Clint where
  mtime : BitVec 64
  mtimecmp : BitVec 64
  timerIrq : Bool
  swIrq : Bool
  exIrq : Bool
  rdata : Word
  deriving DecidableEq, Repr

/-- Its input ports; `wstrb` is ignored. -/
structure ClintPort where
  timerEn : Bool
  wready : Bool
  waddr : Word
  wdata : Word
  rready : Bool
  raddr : Word

namespace Clint

/-- The registers under reset; `rdata` has no reset value. -/
def reset (rdata : Word) : Clint := ⟨0, 0, false, false, false, rdata⟩

variable (b : ClintPort) (c : Clint)

def mtimeNxt : BitVec 64 := c.mtime + 1#64

/-- `{15'h0, ex_irq, 15'h0, sw_irq}` -/
def msip : Word := 0#15 ++ BitVec.ofBool c.exIrq ++ 0#15 ++ BitVec.ofBool c.swIrq

/-- The bits of MSIP the module has. -/
def msipBits : Word := 0x00010001#32

/-- The bits of each register the module has. -/
def bits : Reg → Word
  | .msip => msipBits
  | _ => BitVec.allOnes 32

def step : Clint where
  timerIrq := c.mtimecmp.ule c.mtimeNxt
  mtime :=
    if b.wready ∧ b.waddr = mmioMtime then setLo c.mtime b.wdata
    else if b.wready ∧ b.waddr = mmioMtime + 4#32 then setHi c.mtime b.wdata
    else if b.timerEn then c.mtimeNxt
    else c.mtime
  mtimecmp :=
    if b.wready ∧ b.waddr = mmioMtimecmp then setLo c.mtimecmp b.wdata
    else if b.wready ∧ b.waddr = mmioMtimecmp + 4#32 then setHi c.mtimecmp b.wdata
    else c.mtimecmp
  swIrq := if b.wready ∧ b.waddr = mmioMsip then b.wdata.getLsbD 0 else c.swIrq
  exIrq := if b.wready ∧ b.waddr = mmioMsip then b.wdata.getLsbD 16 else c.exIrq
  rdata :=
    if b.rready then
      if b.raddr = mmioMtime then lo c.mtime
      else if b.raddr = mmioMtime + 4#32 then hi c.mtime
      else if b.raddr = mmioMtimecmp then lo c.mtimecmp
      else if b.raddr = mmioMtimecmp + 4#32 then hi c.mtimecmp
      else if b.raddr = mmioMsip then c.msip
      else c.rdata
    else c.rdata

end Clint

/-- The write port addresses the word `r`. -/
def ClintPort.Writes (b : ClintPort) (r : Reg) : Prop := b.wready = true ∧ b.waddr = r.addr

namespace Clint

variable {b : ClintPort} {c : Clint} {r : Reg}

/-- The registers as software sees them. -/
def regs (c : Clint) : Regs := ⟨c.mtime, c.mtimecmp, c.msip⟩

theorem bits_eq_and (v : Word) :
    0#15 ++ BitVec.ofBool (v.getLsbD 16) ++ 0#15 ++ BitVec.ofBool (v.getLsbD 0) =
      v &&& msipBits := by
  apply BitVec.eq_of_getLsbD_eq
  intro k hk
  rw [BitVec.getLsbD_and]
  -- the mask has the bits 0 and 16
  have hbit : msipBits.getLsbD k = (decide (k = 0) || decide (k = 16)) := by
    revert k
    decide
  rw [hbit]
  simp only [BitVec.getLsbD_append, BitVec.getLsbD_ofBool, BitVec.getLsbD_zero]
  rcases (by omega : k = 0 ∨ (0 < k ∧ k < 16) ∨ k = 16 ∨ 16 < k) with rfl | ⟨h0, h1⟩ | rfl | h1
  · simp
  · simp [show ¬ k < 1 by omega, show k - 1 < 15 by omega, show k ≠ 0 by omega,
      show k ≠ 16 by omega]
  · simp
  · simp [show ¬ k < 1 by omega, show ¬ k - 1 < 15 by omega, show ¬ k - 1 - 15 < 1 by omega,
      show k ≠ 0 by omega, show k ≠ 16 by omega]

theorem regs_masked (c : Clint) : c.regs.masked msipBits = c.regs := by
  have hm : c.msip &&& msipBits = c.msip := by
    rw [msip]
    cases c.exIrq <;> cases c.swIrq <;> rfl
  simp only [regs, Regs.masked, hm]

theorem step_idle (h : ∀ r, ¬ b.Writes r) :
    (c.step b).regs = if b.timerEn then c.regs.tick 1#64 else c.regs := by
  have hno : ∀ r : Reg, ¬ (b.wready = true ∧ b.waddr = r.addr) := h
  have h0 := hno .mtime
  have h1 := hno .mtimeh
  have h2 := hno .mtimecmp
  have h3 := hno .mtimecmph
  have h4 := hno .msip
  simp only [Reg.addr] at h0 h1 h2 h3 h4
  simp only [regs, msip, step, Regs.tick, if_neg h0, if_neg h1, if_neg h2, if_neg h3, if_neg h4]
  split <;> rfl

/-- A cycle that writes the word `r`: the counter stands if it is one of its halves. -/
theorem step_write (he : b.timerEn = true) (h : b.Writes r) :
    (c.step b).regs =
      (c.regs.write msipBits r b.wdata).tick (if Regs.stands r then 0#64 else 1#64) := by
  obtain ⟨hw, ha⟩ := h
  cases r with
  | mtime => simp [regs, step, Regs.write, Regs.tick, Regs.stands, hw, ha, Reg.addr, msip]
  | mtimeh => simp [regs, step, Regs.write, Regs.tick, Regs.stands, hw, ha, Reg.addr, msip]
  | mtimecmp =>
    simp [regs, step, Regs.write, Regs.tick, Regs.stands, hw, ha, Reg.addr, msip, he, mtimeNxt]
  | mtimecmph =>
    simp [regs, step, Regs.write, Regs.tick, Regs.stands, hw, ha, Reg.addr, msip, he, mtimeNxt]
  | msip =>
    have hb := bits_eq_and b.wdata
    simp only [regs, step, Regs.write, Regs.tick, Regs.stands, hw, ha, Reg.addr, msip, he,
      mtimeNxt, ← hb]
    simp

/-- A word of the compare register or MSIP changes just in a cycle that writes it. -/
theorem step_word (hr : Regs.stands r = false) : (c.step b).regs.word r =
    if b.wready = true ∧ b.waddr = r.addr then b.wdata &&& bits r else c.regs.word r := by
  cases r with
  | mtime => cases hr
  | mtimeh => cases hr
  | mtimecmp =>
    change lo (c.step b).mtimecmp = if b.wready = true ∧ b.waddr = mmioMtimecmp then _ else _
    by_cases h : b.wready = true ∧ b.waddr = mmioMtimecmp
    · rw [if_pos h, step, if_pos h, lo_setLo]
      exact BitVec.and_allOnes.symm
    · rw [if_neg h, step, if_neg h]
      by_cases h' : b.wready = true ∧ b.waddr = mmioMtimecmp + 4#32
      · rw [if_pos h', lo_setHi]
        rfl
      · rw [if_neg h']
        rfl
  | mtimecmph =>
    change hi (c.step b).mtimecmp =
      if b.wready = true ∧ b.waddr = mmioMtimecmp + 4#32 then _ else _
    by_cases h : b.wready = true ∧ b.waddr = mmioMtimecmp
    · have h' : ¬ (b.wready = true ∧ b.waddr = mmioMtimecmp + 4#32) := by
        rw [h.2]
        exact fun hne => absurd hne.2 (by decide)
      rw [if_neg h', step, if_pos h, hi_setLo]
      rfl
    · by_cases h' : b.wready = true ∧ b.waddr = mmioMtimecmp + 4#32
      · rw [if_pos h', step, if_neg h, if_pos h', hi_setHi]
        exact BitVec.and_allOnes.symm
      · rw [if_neg h', step, if_neg h, if_neg h']
        rfl
  | msip =>
    change (c.step b).msip = if b.wready = true ∧ b.waddr = mmioMsip then _ else _
    by_cases h : b.wready = true ∧ b.waddr = mmioMsip
    · rw [if_pos h, msip, step, if_pos h, if_pos h]
      exact bits_eq_and b.wdata
    · rw [if_neg h, msip, step, if_neg h, if_neg h]
      rfl

/-- What a read port captures: the counter is that of the cycle of the read. -/
theorem step_rdata (h : b.rready = true) (ha : b.raddr = r.addr) :
    (c.step b).rdata = (c.regs.tick 1#64).read r := by
  have hback : c.mtime + 1#64 - 1#64 = c.mtime := BitVec.add_sub_cancel _ _
  cases r <;> simp [step, regs, Regs.read, Regs.tick, h, ha, Reg.addr, hback]

end Clint

end Srv32.Rtl
