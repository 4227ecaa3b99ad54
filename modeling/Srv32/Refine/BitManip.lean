import Srv32.Iss.Width
import Srv32.Refine.Legality
import Srv32.Refine.Manual
import Srv32.Riscv.BitManip

/-! Which words of OP and OP-IMM the simulator rejects when it has the B extension: all that the
manual leaves unassigned, but for three groups of OP whose arms take any `func3`. -/

namespace Srv32.Iss

open Riscv (Instr BitInstr BitOp BitUnOp BitImmOp Assigned)

/-! Words from their fields. -/

theorem rType_fields (w : Word) :
    Riscv.rType (func7 w) (rs2 w) (rs1 w) (func3 w) (rd w) (opcode w) = w := by
  apply BitVec.eq_of_getLsbD_eq
  intro i hi
  simp only [opcode, rd, func3, rs1, rs2, func7, Riscv.rType, BitVec.getLsbD_extractLsb',
    BitVec.getLsbD_append]
  grind

theorem iType_fields (w : Word) :
    Riscv.iType (imm12 w) (rs1 w) (func3 w) (rd w) (opcode w) = w := by
  apply BitVec.eq_of_getLsbD_eq
  intro i hi
  simp only [opcode, rd, func3, rs1, imm12, Riscv.iType, BitVec.getLsbD_extractLsb',
    BitVec.getLsbD_append]
  grind

/-- What an instruction of OP-IMM or OP fixes of the fields of its word. -/
inductive Form (w : Word) : Prop where
  | opImm (op : Riscv.ImmOp) (ho : opcode w = opArithI) (h3 : func3 w = op.funct3)
  | shiftImm (op : Riscv.ShiftOp) (ho : opcode w = opArithI) (h7 : func7 w = op.funct7)
      (h3 : func3 w = op.funct3)
  | bitUn (op : BitUnOp) (ho : opcode w = op.opcode) (h7 : func7 w = op.funct7)
      (h2 : rs2 w = op.rs2) (h3 : func3 w = op.funct3)
  | bitImm (op : BitImmOp) (ho : opcode w = opArithI) (h7 : func7 w = op.funct7)
      (h3 : func3 w = op.funct3)
  | reg (op : Riscv.RegOp) (ho : opcode w = opArithR) (h7 : func7 w = op.funct7)
      (h3 : func3 w = op.funct3)
  | regShift (op : Riscv.ShiftOp) (ho : opcode w = opArithR) (h7 : func7 w = op.funct7)
      (h3 : func3 w = op.funct3)
  | bitReg (op : BitOp) (ho : opcode w = opArithR) (h7 : func7 w = op.funct7)
      (h3 : func3 w = op.funct3)

section

variable {w : Word}

theorem Form.assigned (h : Form w) : Assigned w := by
  have hi := iType_fields w
  have hr := rType_fields w
  cases h with
  | opImm op ho h3 =>
    rw [ho, h3] at hi
    exact Or.inl ⟨.opImm op (rd w) (rs1 w) (imm12 w), hi⟩
  | shiftImm op ho h7 h3 =>
    rw [ho, h7, h3] at hr
    exact Or.inl ⟨.shiftImm op (rd w) (rs1 w) (rs2 w), hr⟩
  | bitUn op ho h7 h2 h3 =>
    rw [ho, h7, h2, h3] at hr
    exact Or.inr ⟨.un op (rd w) (rs1 w), hr⟩
  | bitImm op ho h7 h3 =>
    rw [ho, h7, h3] at hr
    exact Or.inr ⟨.imm op (rd w) (rs1 w) (rs2 w), hr⟩
  | reg op ho h7 h3 =>
    rw [ho, h7, h3] at hr
    exact Or.inl ⟨.reg op (rd w) (rs1 w) (rs2 w), hr⟩
  | regShift op ho h7 h3 =>
    rw [ho, h7, h3] at hr
    exact Or.inl ⟨.regShift op (rd w) (rs1 w) (rs2 w), hr⟩
  | bitReg op ho h7 h3 =>
    rw [ho, h7, h3] at hr
    exact Or.inr ⟨.reg op (rd w) (rs1 w) (rs2 w), hr⟩

theorem form_of_assigned (h : Assigned w) (ho : opcode w = opArithI ∨ opcode w = opArithR) :
    Form w := by
  have hno : ∀ {x : BitVec 7}, opcode w = x → x ≠ opArithI → x ≠ opArithR → Form w := by
    intro x hx hi hr
    rcases ho with ho | ho
    · exact absurd (hx.symm.trans ho) hi
    · exact absurd (hx.symm.trans ho) hr
  rcases h with ⟨i, rfl⟩ | ⟨i, rfl⟩
  · cases i with
    | lui r imm => exact hno (fields_uType r _ imm).1 (by decide) (by decide)
    | auipc r imm => exact hno (fields_uType r _ imm).1 (by decide) (by decide)
    | jal r off => exact hno (fields_jType r _ off).1 (by decide) (by decide)
    | jalr r s1 off => exact hno (fields_iType s1 r _ _ off).1 (by decide) (by decide)
    | branch k s1 s2 off => exact hno (fields_bType s2 s1 _ _ off).1 (by decide) (by decide)
    | load op r s1 off => exact hno (fields_iType s1 r _ _ off).1 (by decide) (by decide)
    | store op s1 s2 off => exact hno (fields_sType s2 s1 _ _ off).1 (by decide) (by decide)
    | opImm op r s1 imm =>
      obtain ⟨h1, -, h3, -, -⟩ := fields_iType s1 r op.funct3 0b0010011#7 imm
      exact .opImm op h1 h3
    | shiftImm op r s1 s =>
      obtain ⟨h1, -, h3, -, -, h7⟩ := fields_rType op.funct7 s s1 r op.funct3 0b0010011#7
      exact .shiftImm op h1 h7 h3
    | reg op r s1 s2 =>
      obtain ⟨h1, -, h3, -, -, h7⟩ := fields_rType op.funct7 s2 s1 r op.funct3 0b0110011#7
      exact .reg op h1 h7 h3
    | regShift op r s1 s2 =>
      obtain ⟨h1, -, h3, -, -, h7⟩ := fields_rType op.funct7 s2 s1 r op.funct3 0b0110011#7
      exact .regShift op h1 h7 h3
  · cases i with
    | reg op r s1 s2 =>
      obtain ⟨h1, -, h3, -, -, h7⟩ := fields_rType op.funct7 s2 s1 r op.funct3 0b0110011#7
      exact .bitReg op h1 h7 h3
    | un op r s1 =>
      obtain ⟨h1, -, h3, -, h2, h7⟩ := fields_rType op.funct7 op.rs2 s1 r op.funct3 op.opcode
      exact .bitUn op h1 h7 h2 h3
    | imm op r s1 s =>
      obtain ⟨h1, -, h3, -, -, h7⟩ := fields_rType op.funct7 s s1 r op.funct3 0b0010011#7
      exact .bitImm op h1 h7 h3

end

namespace Rv

variable {cfg : Config} {rv d : Rv} {inst : Word} {host : Host} {c : Bool}

/-- OP-IMM: an arm that has a value is that of an assigned word. -/
theorem form_of_arithI (hb : cfg.rv32b = true) (ho : opcode inst = opArithI)
    (h : (d.arithI cfg inst).isSome = true) : Form inst := by
  -- a switch on `func3`; the two columns of shifts look at `func7`
  rcases Bits.cases3 (func3 inst) with h3 | h3 | h3 | h3 | h3 | h3 | h3 | h3
  · exact .opImm .addi ho h3
  · by_cases h0 : func7 inst = fnRv32i
    · exact .shiftImm .sll ho h0 h3
    by_cases hs : func7 inst = fnBset
    · exact .bitImm .bseti ho hs h3
    by_cases hc : func7 inst = fnBclr
    · exact .bitImm .bclri ho hc h3
    by_cases hi : func7 inst = fnBinv
    · exact .bitImm .binvi ho hi h3
    by_cases hz : func7 inst = fnClz
    · -- one source register: `rs2` names the operation
      by_cases h20 : rs2 inst = 0#5
      · exact .bitUn .clz ho hz h20 h3
      by_cases h21 : rs2 inst = 1#5
      · exact .bitUn .ctz ho hz h21 h3
      by_cases h22 : rs2 inst = 2#5
      · exact .bitUn .cpop ho hz h22 h3
      by_cases h24 : rs2 inst = 4#5
      · exact .bitUn .sextB ho hz h24 h3
      by_cases h25 : rs2 inst = 5#5
      · exact .bitUn .sextH ho hz h25 h3
      · simp [arithI, h3, hz, hb, h20, h21, h22, h24, h25] at h
    · simp [arithI, h3, h0, hs, hc, hi, hz] at h
  · exact .opImm .slti ho h3
  · exact .opImm .sltiu ho h3
  · exact .opImm .xori ho h3
  · by_cases h0 : func7 inst = fnSrl
    · exact .shiftImm .srl ho h0 h3
    by_cases ha : func7 inst = fnSra
    · exact .shiftImm .sra ho ha h3
    by_cases hc : func7 inst = fnBclr
    · exact .bitImm .bexti ho hc h3
    by_cases hz : func7 inst = fnClz
    · exact .bitImm .rori ho hz h3
    by_cases hs : func7 inst = fnBset
    · by_cases h27 : rs2 inst = 7#5
      · exact .bitUn .orcB ho hs h27 h3
      · simp [arithI, h3, hs, hb, h27] at h
    by_cases hr : func7 inst = fnRev
    · by_cases h2 : rs2 inst = 0x18#5
      · exact .bitUn .rev8 ho hr h2 h3
      -- the source compares the field as an `int`
      · have hw : (rs2 inst).setWidth 32 ≠ 0x18#32 := by
          intro he
          apply h2
          apply BitVec.eq_of_toNat_eq
          have hn := congrArg BitVec.toNat he
          rw [BitVec.toNat_setWidth_of_le (by decide)] at hn
          exact hn
        simp [arithI, h3, hr, hb, hw] at h
    · simp [arithI, h3, h0, ha, hc, hz, hs, hr] at h
  · exact .opImm .ori ho h3
  · exact .opImm .andi ho h3

theorem arithI_isSome (hb : cfg.rv32b = true) (ho : opcode inst = opArithI) (h : Form inst) :
    (d.arithI cfg inst).isSome = true := by
  cases h with
  | opImm op ho h3 => cases op <;> simp [arithI, h3, Riscv.ImmOp.funct3]
  | shiftImm op ho h7 h3 =>
    cases op <;> simp [arithI, h3, h7, Riscv.ShiftOp.funct3, Riscv.ShiftOp.funct7]
  | bitUn op ho' h7 h2 h3 =>
    cases op <;> simp [arithI, h3, h7, h2, hb, BitUnOp.funct3, BitUnOp.funct7, BitUnOp.rs2]
  | bitImm op ho h7 h3 =>
    cases op <;> simp [arithI, h3, h7, hb, BitImmOp.funct3, BitImmOp.funct7]
  | reg op ho' h7 h3 => exact absurd (ho.symm.trans ho') (by decide)
  | regShift op ho' h7 h3 => exact absurd (ho.symm.trans ho') (by decide)
  | bitReg op ho' h7 h3 => exact absurd (ho.symm.trans ho') (by decide)

/-- A word of OP whose arm does not look at `func3`, or at the register field that ZEXT.H
fixes. -/
def Loose (inst : Word) : Prop :=
  opcode inst = opArithR ∧
    (func7 inst = fnZext ∧ ¬ (func3 inst = 4#3 ∧ rs2 inst = 0#5) ∨
      func7 inst = fnBset ∧ func3 inst ≠ 1#3 ∨ func7 inst = fnBinv ∧ func3 inst ≠ 1#3)

instance (inst : Word) : Decidable (Loose inst) := inferInstanceAs (Decidable (_ ∧ _))

/-- Words the manual leaves unassigned. -/
theorem not_form_of_loose (h : Loose inst) : ¬ Form inst := by
  obtain ⟨ho, h⟩ := h
  intro hf
  cases hf with
  | opImm op ho' => exact absurd (ho.symm.trans ho') (by decide)
  | shiftImm op ho' => exact absurd (ho.symm.trans ho') (by decide)
  | bitImm op ho' => exact absurd (ho.symm.trans ho') (by decide)
  | bitUn op ho' h7 h2 h3 =>
    rw [ho] at ho'
    rw [h7, h2, h3] at h
    cases op with
    | zextH => exact absurd h (by decide)
    | clz | ctz | cpop | sextB | sextH | orcB | rev8 => exact absurd ho' (by decide)
  | reg op ho' h7 h3 =>
    rw [h7, h3] at h
    cases op <;> simp [Riscv.RegOp.funct7] at h
  | regShift op ho' h7 h3 =>
    rw [h7, h3] at h
    cases op <;> simp [Riscv.ShiftOp.funct7] at h
  | bitReg op ho' h7 h3 =>
    rw [h7, h3] at h
    cases op <;> simp [BitOp.funct7, BitOp.funct3] at h

/-- OP: an arm that has a value is that of an assigned word or of a loose one. -/
theorem form_or_loose_of_arithR (hb : cfg.rv32b = true) (ho : opcode inst = opArithR)
    (h : (d.arithR cfg inst).isSome = true) : Form inst ∨ Loose inst := by
  by_cases h1 : func7 inst = fnRv32m
  · left
    rcases Bits.cases3 (func3 inst) with h3 | h3 | h3 | h3 | h3 | h3 | h3 | h3
    · exact .reg .mul ho h1 h3
    · exact .reg .mulh ho h1 h3
    · exact .reg .mulhsu ho h1 h3
    · exact .reg .mulhu ho h1 h3
    · exact .reg .div ho h1 h3
    · exact .reg .divu ho h1 h3
    · exact .reg .rem ho h1 h3
    · exact .reg .remu ho h1 h3
  by_cases h0 : func7 inst = fnRv32i
  · left
    rcases Bits.cases3 (func3 inst) with h3 | h3 | h3 | h3 | h3 | h3 | h3 | h3
    · exact .reg .add ho h0 h3
    · exact .regShift .sll ho h0 h3
    · exact .reg .slt ho h0 h3
    · exact .reg .sltu ho h0 h3
    · exact .reg .xor ho h0 h3
    · exact .regShift .srl ho h0 h3
    · exact .reg .or ho h0 h3
    · exact .reg .and ho h0 h3
  by_cases ha : func7 inst = fnAndn
  · left
    rcases Bits.cases3 (func3 inst) with h3 | h3 | h3 | h3 | h3 | h3 | h3 | h3
    · exact .reg .sub ho ha h3
    · simp [arithR, arithAndn, ha, h3] at h
    · simp [arithR, arithAndn, ha, h3] at h
    · simp [arithR, arithAndn, ha, h3] at h
    · exact .bitReg .xnor ho ha h3
    · exact .regShift .sra ho ha h3
    · exact .bitReg .orn ho ha h3
    · exact .bitReg .andn ho ha h3
  by_cases hx : func7 inst = fnMinmax
  · left
    rcases Bits.cases3 (func3 inst) with h3 | h3 | h3 | h3 | h3 | h3 | h3 | h3
    · simp [arithR, arithB, arithMinmax, hx, h3, hb] at h
    · exact .bitReg .clmul ho hx h3
    · exact .bitReg .clmulr ho hx h3
    · exact .bitReg .clmulh ho hx h3
    · exact .bitReg .min ho hx h3
    · exact .bitReg .minu ho hx h3
    · exact .bitReg .max ho hx h3
    · exact .bitReg .maxu ho hx h3
  -- the three groups that never look at `func3`: what is not the one assigned word is loose
  by_cases hz : func7 inst = fnZext
  · by_cases h3 : func3 inst = 4#3 ∧ rs2 inst = 0#5
    · exact Or.inl (.bitUn .zextH ho hz h3.2 h3.1)
    · exact Or.inr ⟨ho, Or.inl ⟨hz, h3⟩⟩
  by_cases hs : func7 inst = fnBset
  · by_cases h3 : func3 inst = 1#3
    · exact Or.inl (.bitReg .bset ho hs h3)
    · exact Or.inr ⟨ho, Or.inr (Or.inl ⟨hs, h3⟩)⟩
  by_cases hi : func7 inst = fnBinv
  · by_cases h3 : func3 inst = 1#3
    · exact Or.inl (.bitReg .binv ho hi h3)
    · exact Or.inr ⟨ho, Or.inr (Or.inr ⟨hi, h3⟩)⟩
  left
  -- the other groups test it
  by_cases hd : func7 inst = fnShadd
  · by_cases h32 : func3 inst = opSh1add
    · exact .bitReg .sh1add ho hd h32
    by_cases h34 : func3 inst = opSh2add
    · exact .bitReg .sh2add ho hd h34
    by_cases h36 : func3 inst = opSh3add
    · exact .bitReg .sh3add ho hd h36
    · simp [arithR, arithB, hd, h32, h34, h36] at h
  by_cases hc : func7 inst = fnBclr
  · by_cases h31 : func3 inst = opBclr
    · exact .bitReg .bclr ho hc h31
    by_cases h35 : func3 inst = opBext
    · exact .bitReg .bext ho hc h35
    · simp [arithR, arithB, hc, h31, h35] at h
  by_cases hr : func7 inst = fnClz
  · by_cases h31 : func3 inst = opRol
    · exact .bitReg .rol ho hr h31
    by_cases h35 : func3 inst = opRor
    · exact .bitReg .ror ho hr h35
    · simp [arithR, arithB, hr, h31, h35] at h
  · simp [arithR, arithB, h0, h1, ha, hx, hz, hs, hi, hd, hc, hr] at h

theorem arithR_isSome (hm : cfg.rv32m = true) (hb : cfg.rv32b = true)
    (ho : opcode inst = opArithR) (h : Form inst) : (d.arithR cfg inst).isSome = true := by
  cases h with
  | opImm op ho' => exact absurd (ho.symm.trans ho') (by decide)
  | shiftImm op ho' => exact absurd (ho.symm.trans ho') (by decide)
  | bitImm op ho' => exact absurd (ho.symm.trans ho') (by decide)
  | bitUn op ho' h7 h2 h3 =>
    rw [ho] at ho'
    cases op <;> first | exact absurd ho' (by decide) |
      simp [arithR, arithB, h7, BitUnOp.funct7, hb]
  | reg op ho' h7 h3 =>
    cases op <;> simp [arithR, arithAndn, h7, h3, Riscv.RegOp.funct7, Riscv.RegOp.funct3, hm]
  | regShift op ho' h7 h3 =>
    cases op <;>
      simp [arithR, arithAndn, h7, h3, Riscv.ShiftOp.funct7, Riscv.ShiftOp.funct3]
  | bitReg op ho' h7 h3 =>
    cases op <;> simp [arithR, arithAndn, arithB, arithMinmax, h7, h3, BitOp.funct7,
      BitOp.funct3, hb]

theorem Loose.arithR_isSome (hb : cfg.rv32b = true) (h : Loose inst) :
    (d.arithR cfg inst).isSome = true := by
  obtain ⟨-, ⟨h7, -⟩ | ⟨h7, -⟩ | ⟨h7, -⟩⟩ := h <;> simp [arithR, arithB, h7, hb]

/-- What the manual asks of a word of OP or OP-IMM: a trap exactly if it assigns no instruction,
and then no register is written. -/
structure DecodeLaw (d : Rv) (inst : Word) (r : Ret × Rv) : Prop where
  exact : TrapsIllegal r ↔ ¬ Assigned inst
  silent : ¬ Assigned inst → r.2.regs = d.regs

/-- With the M and B extensions the simulator rejects just the unassigned words of OP and OP-IMM,
but for the loose ones, which it executes. -/
theorem bitmanip_decode_iff (cfg : Config) (host : Host) (rv d : Rv) (inst : Word) (c : Bool)
    (hm : cfg.rv32m = true) (hb : cfg.rv32b = true)
    (hd : rv.dispatch cfg host = .ok (d, inst, c))
    (ho : opcode inst = opArithI ∨ opcode inst = opArithR) :
    DecodeLaw d inst (srv32Step cfg host rv) ↔ ¬ Loose inst := by
  have hstep : srv32Step cfg host rv = d.execNext cfg inst host c := by
    rw [srv32Step_eq, hd]
  have hform : Assigned inst ↔ Form inst := ⟨fun h => form_of_assigned h ho, Form.assigned⟩
  obtain ⟨v, he, hv⟩ : ∃ v : Option Word, d.exec cfg inst host c = d.writeRd cfg inst v ∧
      (v.isSome = true ↔ Form inst ∨ Loose inst) := by
    rcases ho with ho | ho
    · refine ⟨d.arithI cfg inst, by simp [exec, ho], ?_⟩
      have hl : ¬ Loose inst := fun h => absurd (ho.symm.trans h.1) (by decide)
      simp only [hl, or_false]
      exact ⟨form_of_arithI hb ho, arithI_isSome hb ho⟩
    · refine ⟨d.arithR cfg inst, by simp [exec, ho], form_or_loose_of_arithR hb ho, ?_⟩
      exact fun h => h.elim (arithR_isSome hm hb ho) (Loose.arithR_isSome hb)
  have htrap := trapsIllegal_writeRd he
  have hnone : v = none ↔ ¬ (Form inst ∨ Loose inst) := by
    rw [← hv, Option.not_isSome_iff_eq_none]
  rw [hstep]
  constructor
  · intro h hl
    have ht := h.exact.mpr (fun ha => not_form_of_loose hl (hform.mp ha))
    exact hnone.mp (htrap.mp ht) (Or.inr hl)
  · intro hl
    have hiff : v = none ↔ ¬ Assigned inst := by
      rw [hnone, hform]
      simp only [hl, or_false]
    refine ⟨htrap.trans hiff, fun ha => ?_⟩
    rw [hiff.mpr ha] at he
    rw [execNext_writeRd_none he]
    rfl

def rv32imb : Config := ⟨true, false, true, false⟩

def atWord (w : Word) : Rv := Rv.boot rv32imb 1 (image [w])

theorem dispatch_atWord (w : Word) (h : ((atWord w).prologue rv32imb .none).2 = w) :
    (atWord w).dispatch rv32imb .none = .ok (((atWord w).prologue rv32imb .none).1, w, false) := by
  change Except.ok (((atWord w).prologue rv32imb .none).1, ((atWord w).prologue rv32imb .none).2,
    false) = _
  rw [h]

/-- `func7` 0x14 with `func3` 0, of which the manual knows nothing, executes as BSET. -/
theorem bitmanip_bset_func3 :
    (atWord 0x282081b3#32).dispatch rv32imb .none =
        .ok (((atWord 0x282081b3#32).prologue rv32imb .none).1, 0x282081b3#32, false) ∧
      ¬ Assigned 0x282081b3#32 ∧
      (srv32Step rv32imb .none (atWord 0x282081b3#32)).2.regs 3#5 = 1#32 ∧
      ¬ DecodeLaw ((atWord 0x282081b3#32).prologue rv32imb .none).1 0x282081b3#32
        (srv32Step rv32imb .none (atWord 0x282081b3#32)) := by
  have hl : Loose 0x282081b3#32 := by decide
  have ha : ¬ Assigned 0x282081b3#32 := fun h =>
    not_form_of_loose hl (form_of_assigned h (Or.inr (by decide)))
  have hok : (srv32Step rv32imb .none (atWord 0x282081b3#32)).1 = .code rvOkay := by
    decide +kernel
  refine ⟨dispatch_atWord _ (by decide +kernel), ha, by decide +kernel, ?_⟩
  intro h
  exact absurd (hok.symm.trans (h.exact.mpr ha).1) (by decide)

/-- With `func3` 1 it is BSET. -/
theorem bitmanip_bset :
    DecodeLaw ((atWord 0x282091b3#32).prologue rv32imb .none).1 0x282091b3#32
      (srv32Step rv32imb .none (atWord 0x282091b3#32)) :=
  (bitmanip_decode_iff rv32imb .none (atWord 0x282091b3#32)
    ((atWord 0x282091b3#32).prologue rv32imb .none).1 0x282091b3#32 false rfl rfl
    (dispatch_atWord _ (by decide +kernel)) (Or.inr (by decide))).mpr (by decide)

end Rv

end Srv32.Iss
