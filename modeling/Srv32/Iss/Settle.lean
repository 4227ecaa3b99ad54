import Srv32.Iss.Step
import Srv32.Bits

/-! The head of a step: interrupt entry and the checks of the pc, and what a trap leaves behind. -/

namespace Srv32.Iss.Rv

variable {rv : Rv} {cfg : Config}

@[simp] theorem readRegs_rv32im (n : BitVec 5) : rv.readRegs .rv32im n = rv.regs n := by
  have : ¬ (32 ≤ n.toNat) := by have := n.isLt; omega
  simp [readRegs, Config.regnum, Config.rv32im, this]

@[simp] theorem writeRegs_rv32im (n : BitVec 5) (v : Word) :
    rv.writeRegs .rv32im n v = { rv with regs := Function.update rv.regs n v } := by
  have : ¬ (32 ≤ n.toNat) := by have := n.isLt; omega
  simp [writeRegs, Config.regnum, Config.rv32im, this]

/-- The pc `mtvec` gives, `offset` being the cause without the interrupt bit. -/
def vectorOf (mtvec offset : Word) : Word :=
  if mtvec &&& 1#32 ≠ 0#32 then (mtvec &&& 0xfffffffe#32) + offset * 4#32 else mtvec

def InRange (rv : Rv) (pc : Word) : Prop :=
  ¬ ((rv.memBase + rv.memSize).sle pc = true ∨ pc.slt rv.memBase = true)

instance (rv : Rv) (pc : Word) : Decidable (rv.InRange pc) := inferInstanceAs (Decidable (¬ _))

@[simp] theorem cycleAdd_zero (rv : Rv) : rv.cycleAdd 0#32 = rv := by
  simp [cycleAdd]

/-! `srv32_trap` -/

@[simp] theorem trap_pc (cause val : Word) :
    (rv.trap cause val).pc = vectorOf rv.csr.mtvec cause := rfl
@[simp] theorem trap_regs (cause val : Word) : (rv.trap cause val).regs = rv.regs := rfl
@[simp] theorem trap_mem (cause val : Word) : (rv.trap cause val).mem = rv.mem := rfl
@[simp] theorem trap_mcause (cause val : Word) : (rv.trap cause val).csr.mcause = cause := rfl
@[simp] theorem trap_mepc (cause val : Word) : (rv.trap cause val).csr.mepc = rv.prevPc := rfl
@[simp] theorem trap_mtval (cause val : Word) : (rv.trap cause val).csr.mtval = val := rfl
@[simp] theorem trap_mstatus (cause val : Word) :
    (rv.trap cause val).csr.mstatus = pushMie rv.csr.mstatus := rfl
@[simp] theorem trap_mip (cause val : Word) : (rv.trap cause val).csr.mip = rv.csr.mip := rfl
@[simp] theorem trap_latch (cause val : Word) : (rv.trap cause val).latch = rv.latch := rfl

theorem pushMie_mie (m : Word) : pushMie m &&& 1#32 <<< bitMie = 0#32 := by
  rw [pushMie, BitVec.and_assoc]
  simp

theorem pushMie_mpie (m : Word) : (pushMie m).getLsbD bitMpie = m.getLsbD bitMie := by
  have h := Bits.and_bit_ne_zero m (n := bitMie) (by decide)
  have h7 : (1#32 <<< bitMpie).getLsbD bitMpie = true ∧
      (~~~(1#32 <<< bitMie)).getLsbD bitMpie = true := by decide
  rw [pushMie, BitVec.getLsbD_and, h7.2, Bool.and_true]
  by_cases hm : m &&& 1#32 <<< bitMie ≠ 0#32
  · rw [if_pos hm, BitVec.getLsbD_or, h7.1, Bool.or_true, h.mp hm]
  · rw [if_neg hm, BitVec.getLsbD_and, BitVec.getLsbD_not, h7.1]
    cases hb : m.getLsbD bitMie
    · simp
    · exact absurd (h.mpr hb) hm

theorem pushMie_getLsbD_mie (m : Word) : (pushMie m).getLsbD bitMie = false := by
  rw [← Bool.not_eq_true, ← Bits.and_bit_ne_zero _ (by decide), pushMie_mie]
  simp

theorem pushMie_bit (m : Word) {i : ℕ} (hi : i ≠ bitMie) (hp : i ≠ bitMpie) :
    (pushMie m).getLsbD i = m.getLsbD i := by
  have hb : ∀ n, i ≠ n → (1#32 <<< n).getLsbD i = false := fun _ => Bits.getLsbD_one_shiftLeft
  by_cases h : i < 32
  · rw [pushMie, BitVec.getLsbD_and, BitVec.getLsbD_not, hb bitMie hi]
    split_ifs
    · rw [BitVec.getLsbD_or, hb bitMpie hp]
      simp [h]
    · rw [BitVec.getLsbD_and, BitVec.getLsbD_not, hb bitMpie hp]
      simp [h]
  · rw [BitVec.getLsbD_of_ge _ _ (by omega), BitVec.getLsbD_of_ge _ _ (by omega)]

theorem mieSet_eq (rv : Rv) : rv.mieSet = rv.csr.mstatus.getLsbD bitMie := by
  rw [mieSet, Bool.eq_iff_iff, bne_iff_ne, ne_eq]
  exact Bits.and_bit_ne_zero _ (by decide)

@[simp] theorem mieSet_trap (cause val : Word) : (rv.trap cause val).mieSet = false := by
  rw [mieSet, trap_mstatus, pushMie_mie]
  rfl

/-! `srv32_int` -/

/-- The penalty is charged when the instruction before did not jump. -/
def intCharge (rv : Rv) : Word := if rv.pc = rv.prevPc + 4#32 then rv.branchPenalty else 0#32

theorem int_eq (cause : Word) (src : Nat) : rv.int cause src false =
    { rv.cycleAdd rv.intCharge with
      csr := { (rv.cycleAdd rv.intCharge).csr with
        mcause := cause
        mstatus := pushMie rv.csr.mstatus
        mip := rv.csr.mip ||| 1#32 <<< src
        mepc := rv.pc }
      pc := vectorOf rv.csr.mtvec (cause &&& ~~~(1#32 <<< 31)) } := by
  have hc : (if rv.pc = rv.prevPc + 4#32 then rv.cycleAdd rv.branchPenalty else rv) =
      rv.cycleAdd rv.intCharge := by
    unfold intCharge
    split
    · rfl
    · rw [cycleAdd_zero]
  simp only [int, Bool.false_eq_true, if_false, hc]
  rfl

@[simp] theorem int_mstatus (cause : Word) (src : Nat) :
    (rv.int cause src false).csr.mstatus = pushMie rv.csr.mstatus := by
  rw [int_eq]

@[simp] theorem mieSet_int (cause : Word) (src : Nat) :
    (rv.int cause src false).mieSet = false := by
  rw [mieSet, int_mstatus, pushMie_mie]
  rfl

/-! Interrupt entry: at most one of the three is taken, as the first clears MIE. -/

theorem enterInts_off (h : rv.mieSet = false) : rv.enterInts = rv := by
  simp [enterInts, h]

theorem enterInts_none (ht : rv.latch.timerIrq = false) (hs : rv.latch.swIrqNext = false)
    (he : rv.latch.extIrqNext = false) : rv.enterInts = rv := by
  simp [enterInts, ht, hs, he]

theorem enterInts_timer (h : rv.mieSet = true) (ht : rv.latch.timerIrq = true) :
    rv.enterInts = rv.int intMtime bitMtip false := by
  simp [enterInts, h, ht]

theorem enterInts_sw (h : rv.mieSet = true) (ht : rv.latch.timerIrq = false)
    (hs : rv.latch.swIrqNext = true) : rv.enterInts = rv.int intMsi bitMsip false := by
  simp [enterInts, h, ht, hs]

theorem enterInts_ext (h : rv.mieSet = true) (ht : rv.latch.timerIrq = false)
    (hs : rv.latch.swIrqNext = false) (he : rv.latch.extIrqNext = true) :
    rv.enterInts = rv.int intMei bitMeip false := by
  simp [enterInts, h, ht, hs, he]

/-! The checks of the pc. -/

theorem checkPc_ok (hr : rv.InRange rv.pc) (ha : rv.pc.toNat % 4 = 0) :
    rv.checkPc .rv32im = rv := by
  have h3 : rv.pc &&& 3#32 = 0#32 := (Bits.and_three_eq_zero _).mpr ha
  simp only [checkPc]
  rw [if_neg hr]
  simp [h3]

theorem checkPc_misaligned (hr : rv.InRange rv.pc) (ha : rv.pc.toNat % 4 ≠ 0) :
    rv.checkPc .rv32im = rv.trap trapInstAlign rv.pc := by
  have h3 : rv.pc &&& 3#32 ≠ 0#32 := by rwa [ne_eq, Bits.and_three_eq_zero]
  simp only [checkPc]
  rw [if_neg hr]
  simp [h3]

/-- A pc outside memory traps, and once more when the handler is misaligned. -/
theorem checkPc_unmapped (hr : ¬ rv.InRange rv.pc) : rv.checkPc .rv32im =
    if (vectorOf rv.csr.mtvec trapInstFail).toNat % 4 = 0 then rv.trap trapInstFail rv.pc
    else (rv.trap trapInstFail rv.pc).trap trapInstAlign (vectorOf rv.csr.mtvec trapInstFail) := by
  have hp : (rv.trap trapInstFail rv.pc).pc = vectorOf rv.csr.mtvec trapInstFail := rfl
  simp only [checkPc]
  rw [if_pos (not_not.mp hr), ← hp]
  generalize rv.trap trapInstFail rv.pc = s
  have h3 := Bits.and_three_eq_zero s.pc
  by_cases ha : s.pc &&& 3#32 = 0#32
  · rw [if_pos (h3.mp ha)]
    simp [ha]
  · rw [if_neg fun h => ha (h3.mpr h)]
    simp [ha]

/-- A pc that fails a check leaves one of two causes. -/
theorem checkPc_mcause (h : ¬ (rv.InRange rv.pc ∧ rv.pc.toNat % 4 = 0)) :
    (rv.checkPc .rv32im).csr.mcause = trapInstFail ∨
      (rv.checkPc .rv32im).csr.mcause = trapInstAlign := by
  by_cases hr : rv.InRange rv.pc
  · right
    rw [checkPc_misaligned hr fun ha => h ⟨hr, ha⟩]
    rfl
  · rw [checkPc_unmapped hr]
    split
    · exact Or.inl rfl
    · exact Or.inr rfl

/-- A trap at the checks of the pc, with interrupts off, leaves MPIE clear. -/
theorem checkPc_mpie (hm : rv.mieSet = false)
    (h : ¬ (rv.InRange rv.pc ∧ rv.pc.toNat % 4 = 0)) :
    (rv.checkPc .rv32im).csr.mstatus.getLsbD bitMpie = false := by
  have h1 : ∀ s : Rv, s.mieSet = false → ∀ c v,
      (s.trap c v).csr.mstatus.getLsbD bitMpie = false := by
    intro s hs c v
    rw [trap_mstatus, pushMie_mpie, ← mieSet_eq]
    exact hs
  by_cases hr : rv.InRange rv.pc
  · rw [checkPc_misaligned hr fun ha => h ⟨hr, ha⟩]
    exact h1 rv hm _ _
  · rw [checkPc_unmapped hr]
    split
    · exact h1 rv hm _ _
    · exact h1 _ (mieSet_trap _ _) _ _

/-- The vectors are word aligned just when bit 1 of `mtvec` is clear. -/
theorem vectorOf_aligned (m off : Word) :
    (vectorOf m off).toNat % 4 = 0 ↔ m.getLsbD 1 = false := by
  have h1 : m.getLsbD 1 = decide (m.toNat / 2 % 2 = 1) := Bits.testBit_one m
  rw [h1, decide_eq_false_iff_not, vectorOf]
  split
  · have he : (m &&& 0xfffffffe#32).toNat = m.toNat / 2 * 2 := Bits.toNat_clearBit0 m
    rw [BitVec.toNat_add, BitVec.toNat_mul, he]
    simp only [BitVec.toNat_ofNat]
    omega
  · rename_i h
    have h0 : m.toNat % 2 = 0 := (Bits.and_one_eq_zero m).mp (not_not.mp h)
    omega

/-- The state the checks of the pc start from when no interrupt is entered. -/
def fresh (rv : Rv) : Rv :=
  { rv with mtimeUpdate := false, regs := Function.update rv.regs 0#5 0#32 }

theorem settle_eq (rv : Rv) : rv.settle .rv32im = rv.fresh.enterInts.checkPc .rv32im := by
  rw [settle, writeRegs_rv32im]
  rfl

def Undisturbed (rv : Rv) : Prop :=
  rv.mieSet = false ∨ (rv.latch.timerIrq = false ∧ rv.latch.swIrqNext = false ∧
    rv.latch.extIrqNext = false)

instance (rv : Rv) : Decidable rv.Undisturbed := inferInstanceAs (Decidable (_ ∨ _))

theorem Undisturbed.enterInts (h : rv.Undisturbed) : rv.fresh.enterInts = rv.fresh := by
  rcases h with h | ⟨h1, h2, h3⟩
  · exact enterInts_off h
  · exact enterInts_none h1 h2 h3

theorem Undisturbed.settle (h : rv.Undisturbed) (hr : rv.InRange rv.pc)
    (ha : rv.pc.toNat % 4 = 0) : rv.settle .rv32im = rv.fresh := by
  rw [settle_eq, h.enterInts]
  exact checkPc_ok hr ha

theorem Undisturbed.settle_misaligned (h : rv.Undisturbed) (hr : rv.InRange rv.pc)
    (ha : rv.pc.toNat % 4 ≠ 0) : rv.settle .rv32im = rv.fresh.trap trapInstAlign rv.pc := by
  rw [settle_eq, h.enterInts]
  exact checkPc_misaligned hr ha

theorem Undisturbed.settle_mcause (h : rv.Undisturbed)
    (hb : ¬ (rv.InRange rv.pc ∧ rv.pc.toNat % 4 = 0)) :
    (rv.settle .rv32im).csr.mcause = trapInstFail ∨
      (rv.settle .rv32im).csr.mcause = trapInstAlign := by
  rw [settle_eq, h.enterInts]
  exact checkPc_mcause hb

/-! Registers and memory: only `x0` is written. -/

@[simp] theorem int_regs (cause : Word) (src : Nat) (compressed : Bool) :
    (rv.int cause src compressed).regs = rv.regs := by
  simp only [int]
  split_ifs <;> rfl

@[simp] theorem int_mem (cause : Word) (src : Nat) (compressed : Bool) :
    (rv.int cause src compressed).mem = rv.mem := by
  simp only [int]
  split_ifs <;> rfl

theorem enterInts_frame (rv : Rv) :
    rv.enterInts.regs = rv.regs ∧ rv.enterInts.mem = rv.mem := by
  simp only [enterInts]
  split_ifs <;> simp

theorem checkPc_frame (rv : Rv) :
    (rv.checkPc cfg).regs = rv.regs ∧ (rv.checkPc cfg).mem = rv.mem := by
  simp only [checkPc]
  split_ifs <;> exact ⟨rfl, rfl⟩

theorem settle_regs (rv : Rv) :
    (rv.settle .rv32im).regs = Function.update rv.regs 0#5 0#32 := by
  rw [settle_eq, (checkPc_frame _).1, (enterInts_frame _).1]
  rfl

theorem settle_mem (rv : Rv) : (rv.settle .rv32im).mem = rv.mem := by
  rw [settle_eq, (checkPc_frame _).2, (enterInts_frame _).2]
  rfl

end Srv32.Iss.Rv
