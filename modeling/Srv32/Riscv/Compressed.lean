import Srv32.Riscv.Instr
import Mathlib.Tactic.SplitIfs

/-! RV32C without floating point: what the manual says each halfword means. -/

namespace Riscv

/-- A halfword stands for an instruction, for EBREAK, or is undefined: reserved, custom, or of the
floating-point forms. -/
inductive Meaning where
  | instr (i : Instr)
  | ebreak
  | undefined
  deriving DecidableEq, Repr

namespace Compressed

/-- One of the eight registers `x8` to `x15`. -/
def prime (r : BitVec 3) : BitVec 5 := 0b01#2 ++ r

variable (k : BitVec 16)

def quadrant : BitVec 2 := k.extractLsb' 0 2
def funct3 : BitVec 3 := k.extractLsb' 13 3
/-- The full register fields. -/
def rd : BitVec 5 := k.extractLsb' 7 5
def rs2 : BitVec 5 := k.extractLsb' 2 5
/-- The three-bit register fields: bits 4 to 2, and 9 to 7. -/
def lowReg : BitVec 5 := prime (k.extractLsb' 2 3)
def highReg : BitVec 5 := prime (k.extractLsb' 7 3)
def bit12 : BitVec 1 := k.extractLsb' 12 1

/-! Immediates, from the highest bit down. -/

/-- `imm[5]`, `imm[4:0]` -/
def imm6 : BitVec 6 := bit12 k ++ k.extractLsb' 2 5

/-- `nzuimm[9:6]`, `nzuimm[5:4]`, `nzuimm[3]`, `nzuimm[2]` of C.ADDI4SPN -/
def uimm4spn : BitVec 12 :=
  0#2 ++ k.extractLsb' 7 4 ++ k.extractLsb' 11 2 ++ k.extractLsb' 5 1 ++ k.extractLsb' 6 1 ++ 0#2

/-- `uimm[6]`, `uimm[5:3]`, `uimm[2]` of C.LW and C.SW -/
def uimmW : BitVec 12 :=
  0#5 ++ k.extractLsb' 5 1 ++ k.extractLsb' 10 3 ++ k.extractLsb' 6 1 ++ 0#2

/-- `uimm[7:6]`, `uimm[5]`, `uimm[4:2]` of C.LWSP -/
def uimmLwsp : BitVec 12 := 0#4 ++ k.extractLsb' 2 2 ++ bit12 k ++ k.extractLsb' 4 3 ++ 0#2

/-- `uimm[7:6]`, `uimm[5:2]` of C.SWSP -/
def uimmSwsp : BitVec 12 := 0#4 ++ k.extractLsb' 7 2 ++ k.extractLsb' 9 4 ++ 0#2

/-- `nzimm[9]`, `nzimm[8:7]`, `nzimm[6]`, `nzimm[5]`, `nzimm[4]` of C.ADDI16SP -/
def imm16sp : BitVec 12 :=
  (bit12 k ++ k.extractLsb' 3 2 ++ k.extractLsb' 5 1 ++ k.extractLsb' 2 1 ++ k.extractLsb' 6 1 ++
    0#4).signExtend 12

/-- `offset[8]`, `offset[7:6]`, `offset[5]`, `offset[4:3]`, `offset[2:1]` of C.BEQZ and C.BNEZ -/
def offB : BitVec 12 :=
  (bit12 k ++ k.extractLsb' 5 2 ++ k.extractLsb' 2 1 ++ k.extractLsb' 10 2 ++
    k.extractLsb' 3 2).signExtend 12

/-- `offset[11]`, `[10]`, `[9:8]`, `[7]`, `[6]`, `[5]`, `[4]`, `[3:1]` of C.J and C.JAL -/
def offJ : BitVec 20 :=
  (bit12 k ++ k.extractLsb' 8 1 ++ k.extractLsb' 9 2 ++ k.extractLsb' 6 1 ++ k.extractLsb' 7 1 ++
    k.extractLsb' 2 1 ++ k.extractLsb' 11 1 ++ k.extractLsb' 3 3).signExtend 20

/-! The quadrants. -/

def meaning0 : Meaning :=
  if funct3 k = 0b000#3 then
    if k.extractLsb' 5 8 = 0#8 then .undefined
    else .instr (.opImm .addi (lowReg k) 2#5 (uimm4spn k))
  else if funct3 k = 0b010#3 then .instr (.load .lw (lowReg k) (highReg k) (uimmW k))
  else if funct3 k = 0b110#3 then .instr (.store .sw (highReg k) (lowReg k) (uimmW k))
  else .undefined

/-- C.SRLI, C.SRAI, C.ANDI, and the register forms. -/
def meaningAlu : Meaning :=
  let r := highReg k
  let op := k.extractLsb' 10 2
  if op = 0b00#2 then
    if bit12 k = 1#1 then .undefined else .instr (.shiftImm .srl r r (k.extractLsb' 2 5))
  else if op = 0b01#2 then
    if bit12 k = 1#1 then .undefined else .instr (.shiftImm .sra r r (k.extractLsb' 2 5))
  else if op = 0b10#2 then .instr (.opImm .andi r r ((imm6 k).signExtend 12))
  else if bit12 k = 1#1 then .undefined
  else if k.extractLsb' 5 2 = 0b00#2 then .instr (.reg .sub r r (lowReg k))
  else if k.extractLsb' 5 2 = 0b01#2 then .instr (.reg .xor r r (lowReg k))
  else if k.extractLsb' 5 2 = 0b10#2 then .instr (.reg .or r r (lowReg k))
  else .instr (.reg .and r r (lowReg k))

def meaning1 : Meaning :=
  if funct3 k = 0b000#3 then .instr (.opImm .addi (rd k) (rd k) ((imm6 k).signExtend 12))
  else if funct3 k = 0b001#3 then .instr (.jal 1#5 (offJ k))
  else if funct3 k = 0b010#3 then .instr (.opImm .addi (rd k) 0#5 ((imm6 k).signExtend 12))
  else if funct3 k = 0b011#3 then
    if imm6 k = 0#6 then .undefined
    else if rd k = 2#5 then .instr (.opImm .addi 2#5 2#5 (imm16sp k))
    else .instr (.lui (rd k) ((imm6 k).signExtend 20))
  else if funct3 k = 0b100#3 then meaningAlu k
  else if funct3 k = 0b101#3 then .instr (.jal 0#5 (offJ k))
  else if funct3 k = 0b110#3 then .instr (.branch .eq (highReg k) 0#5 (offB k))
  else .instr (.branch .ne (highReg k) 0#5 (offB k))

def meaning2 : Meaning :=
  if funct3 k = 0b000#3 then
    if bit12 k = 1#1 then .undefined
    else .instr (.shiftImm .sll (rd k) (rd k) (k.extractLsb' 2 5))
  else if funct3 k = 0b010#3 then
    if rd k = 0#5 then .undefined else .instr (.load .lw (rd k) 2#5 (uimmLwsp k))
  else if funct3 k = 0b100#3 then
    if bit12 k = 0#1 then
      if rs2 k = 0#5 then
        if rd k = 0#5 then .undefined else .instr (.jalr 0#5 (rd k) 0#12)
      else .instr (.reg .add (rd k) 0#5 (rs2 k))
    else if rs2 k = 0#5 then
      if rd k = 0#5 then .ebreak else .instr (.jalr 1#5 (rd k) 0#12)
    else .instr (.reg .add (rd k) (rd k) (rs2 k))
  else if funct3 k = 0b110#3 then .instr (.store .sw 2#5 (rs2 k) (uimmSwsp k))
  else .undefined

/-- A halfword with low bits 11 is the start of a longer instruction. -/
def meaning : Meaning :=
  if quadrant k = 0b00#2 then meaning0 k
  else if quadrant k = 0b01#2 then meaning1 k
  else if quadrant k = 0b10#2 then meaning2 k
  else .undefined

/-- The HINT code points: those that write `x0`, and additions and shifts of zero. -/
def isHint : Bool :=
  if quadrant k = 0b01#2 then
    if funct3 k = 0b000#3 then rd k == 0#5 && imm6 k != 0#6 || rd k != 0#5 && imm6 k == 0#6
    else if funct3 k = 0b010#3 then rd k == 0#5
    else if funct3 k = 0b011#3 then rd k == 0#5 && imm6 k != 0#6
    else if funct3 k = 0b100#3 then
      (k.extractLsb' 10 2 == 0b00#2 || k.extractLsb' 10 2 == 0b01#2) && imm6 k == 0#6
    else false
  else if quadrant k = 0b10#2 then
    if funct3 k = 0b000#3 then bit12 k == 0#1 && (rd k == 0#5 || rs2 k == 0#5)
    else if funct3 k = 0b100#3 then rd k == 0#5 && rs2 k != 0#5
    else false
  else false

/-! HINTs change no register. -/

theorem set_zero (s : Machine) (v : BitVec 32) : (s.set 0#5 v).x = s.x := by
  simp only [Machine.set, if_true]

theorem set_self (s : Machine) (r : BitVec 5) : (s.set r (s.x r)).x = s.x := by
  simp only [Machine.set]
  split
  · rfl
  · exact Function.update_eq_self r s.x

theorem eval_zero (op : ShiftOp) (a : BitVec 32) : op.eval a 0 = a := by
  cases op <;> simp [ShiftOp.eval]

theorem imm6_eq_zero {k : BitVec 16} (h : imm6 k = 0#6) :
    bit12 k = 0#1 ∧ k.extractLsb' 2 5 = 0#5 := by
  have hh : (imm6 k).extractLsb' 5 1 = bit12 k := by
    ext i hi
    obtain rfl : i = 0 := by omega
    simp only [imm6, BitVec.getElem_extractLsb', BitVec.getLsbD_append]
    simp
  have hl : (imm6 k).extractLsb' 0 5 = k.extractLsb' 2 5 := by
    ext i hi
    simp only [imm6, BitVec.getElem_extractLsb', BitVec.getLsbD_append]
    simp [hi]
  rw [← hh, ← hl, h]
  exact ⟨rfl, rfl⟩

/-- What a HINT leaves alone. -/
def Idle (i : Instr) : Prop := ∀ len s, (i.step len s).x = s.x ∧ (i.step len s).mem = s.mem

theorem idle_opImm_zero (op : ImmOp) (r : BitVec 5) (imm : BitVec 12) :
    Idle (.opImm op 0#5 r imm) := by
  intro len s
  exact ⟨set_zero s (op.eval (s.x r) (imm.signExtend 32)), rfl⟩

theorem idle_lui_zero (imm : BitVec 20) : Idle (.lui 0#5 imm) := by
  intro len s
  exact ⟨set_zero s (imm ++ 0#12), rfl⟩

theorem idle_reg_zero (op : RegOp) (r1 r2 : BitVec 5) : Idle (.reg op 0#5 r1 r2) := by
  intro len s
  exact ⟨set_zero s (op.eval (s.x r1) (s.x r2)), rfl⟩

theorem idle_shift_zero (op : ShiftOp) (r n : BitVec 5) : Idle (.shiftImm op 0#5 r n) := by
  intro len s
  exact ⟨set_zero s (op.eval (s.x r) n.toNat), rfl⟩

theorem idle_addi_self (r : BitVec 5) : Idle (.opImm .addi r r 0#12) := by
  intro len s
  have h : (ImmOp.addi).eval (s.x r) ((0#12).signExtend 32) = s.x r := by simp [ImmOp.eval]
  refine ⟨?_, rfl⟩
  simp only [Instr.step, h]
  exact set_self s r

theorem idle_shift_self (op : ShiftOp) (r : BitVec 5) : Idle (.shiftImm op r r 0#5) := by
  intro len s
  have h : op.eval (s.x r) (0#5).toNat = s.x r := eval_zero op _
  refine ⟨?_, rfl⟩
  simp only [Instr.step, h]
  exact set_self s r

theorem hint1_idle {k : BitVec 16} (hq : quadrant k = 0b01#2) (h : isHint k = true) :
    ∃ i, meaning1 k = .instr i ∧ Idle i := by
  rw [isHint, if_pos hq] at h
  by_cases f0 : funct3 k = 0b000#3
  · rw [if_pos f0] at h
    refine ⟨_, if_pos f0, ?_⟩
    by_cases hr : rd k = 0#5
    · rw [hr]
      exact idle_opImm_zero _ _ _
    · have hi : imm6 k = 0#6 := by simpa [hr] using h
      rw [hi]
      exact idle_addi_self _
  rw [if_neg f0] at h
  by_cases f2 : funct3 k = 0b010#3
  · rw [if_pos f2, beq_iff_eq] at h
    refine ⟨.opImm .addi (rd k) 0#5 ((imm6 k).signExtend 12), by simp [meaning1, f2], ?_⟩
    rw [h]
    exact idle_opImm_zero _ _ _
  rw [if_neg f2] at h
  by_cases f3 : funct3 k = 0b011#3
  · rw [if_pos f3, Bool.and_eq_true, beq_iff_eq, bne_iff_ne] at h
    refine ⟨.lui (rd k) ((imm6 k).signExtend 20), by simp [meaning1, f3, h.1, h.2], ?_⟩
    rw [h.1]
    exact idle_lui_zero _
  rw [if_neg f3] at h
  by_cases f4 : funct3 k = 0b100#3
  · rw [if_pos f4, Bool.and_eq_true, Bool.or_eq_true, beq_iff_eq, beq_iff_eq, beq_iff_eq] at h
    obtain ⟨hb, hn⟩ := imm6_eq_zero h.2
    rcases h.1 with h0 | h1
    · refine ⟨.shiftImm .srl (highReg k) (highReg k) (k.extractLsb' 2 5), ?_, ?_⟩
      · simp [meaning1, f4, meaningAlu, h0, hb]
      · rw [hn]
        exact idle_shift_self _ _
    · refine ⟨.shiftImm .sra (highReg k) (highReg k) (k.extractLsb' 2 5), ?_, ?_⟩
      · simp [meaning1, f4, meaningAlu, h1, hb]
      · rw [hn]
        exact idle_shift_self _ _
  · rw [if_neg f4] at h
    cases h

theorem hint2_idle {k : BitVec 16} (hq : quadrant k = 0b10#2) (h : isHint k = true) :
    ∃ i, meaning2 k = .instr i ∧ Idle i := by
  have hq1 : ¬ quadrant k = 0b01#2 := by
    rw [hq]
    decide
  rw [isHint, if_neg hq1, if_pos hq] at h
  by_cases f0 : funct3 k = 0b000#3
  · rw [if_pos f0, Bool.and_eq_true, Bool.or_eq_true, beq_iff_eq, beq_iff_eq, beq_iff_eq] at h
    refine ⟨.shiftImm .sll (rd k) (rd k) (rs2 k), by simp [meaning2, f0, h.1, rs2], ?_⟩
    rcases h.2 with hr | hs
    · rw [hr]
      exact idle_shift_zero _ _ _
    · rw [hs]
      exact idle_shift_self _ _
  rw [if_neg f0] at h
  by_cases f4 : funct3 k = 0b100#3
  · rw [if_pos f4, Bool.and_eq_true, beq_iff_eq, bne_iff_ne] at h
    by_cases hb : bit12 k = 0#1
    · refine ⟨.reg .add (rd k) 0#5 (rs2 k), by simp [meaning2, f4, hb, h.2], ?_⟩
      rw [h.1]
      exact idle_reg_zero _ _ _
    · refine ⟨.reg .add (rd k) (rd k) (rs2 k), by simp [meaning2, f4, hb, h.2], ?_⟩
      rw [h.1]
      exact idle_reg_zero _ _ _
  · rw [if_neg f4] at h
    cases h

theorem hint_idle {k : BitVec 16} (h : isHint k = true) :
    ∃ i, meaning k = .instr i ∧ Idle i := by
  by_cases h1 : quadrant k = 0b01#2
  · have h0 : ¬ quadrant k = 0b00#2 := by
      rw [h1]
      decide
    rw [meaning, if_neg h0, if_pos h1]
    exact hint1_idle h1 h
  · by_cases h2 : quadrant k = 0b10#2
    · have h0 : ¬ quadrant k = 0b00#2 := by
        rw [h2]
        decide
      rw [meaning, if_neg h0, if_neg h1, if_pos h2]
      exact hint2_idle h2 h
    · rw [isHint, if_neg h1, if_neg h2] at h
      cases h

end Compressed

end Riscv
