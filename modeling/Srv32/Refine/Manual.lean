import Srv32.Iss.Access
import Srv32.Iss.Data
import Srv32.Riscv.Instr

/-! The simulator implements RV32IM: one step of it is one instruction of the manual. -/

namespace Srv32.Iss

open Riscv (Instr Machine)

/-! Fields of the encoded words. -/

section

variable (f7 : BitVec 7) (s2 s1 d : BitVec 5) (f3 : BitVec 3) (op : BitVec 7)

theorem fields_rType :
    let w := Riscv.rType f7 s2 s1 f3 d op
    opcode w = op ∧ rd w = d ∧ func3 w = f3 ∧ rs1 w = s1 ∧ rs2 w = s2 ∧ func7 w = f7 := by
  refine ⟨?_, ?_, ?_, ?_, ?_, ?_⟩ <;> apply BitVec.eq_of_getLsbD_eq <;>
    intro i hi <;>
    simp only [opcode, rd, func3, rs1, rs2, func7, Riscv.rType, BitVec.getLsbD_extractLsb',
      BitVec.getLsbD_append] <;> grind

theorem fields_iType (imm : BitVec 12) :
    let w := Riscv.iType imm s1 f3 d op
    opcode w = op ∧ rd w = d ∧ func3 w = f3 ∧ rs1 w = s1 ∧ immI w = imm.signExtend 32 := by
  have himm : imm12 (Riscv.iType imm s1 f3 d op) = imm := by
    apply BitVec.eq_of_getLsbD_eq
    intro i hi
    simp only [imm12, Riscv.iType, BitVec.getLsbD_extractLsb', BitVec.getLsbD_append]
    grind
  refine ⟨?_, ?_, ?_, ?_, by rw [immI_eq, himm]⟩ <;> apply BitVec.eq_of_getLsbD_eq <;>
    intro i hi <;>
    simp only [opcode, rd, func3, rs1, Riscv.iType, BitVec.getLsbD_extractLsb',
      BitVec.getLsbD_append] <;> grind

theorem fields_sType (imm : BitVec 12) :
    let w := Riscv.sType imm s2 s1 f3 op
    opcode w = op ∧ func3 w = f3 ∧ rs1 w = s1 ∧ rs2 w = s2 ∧ immS w = imm.signExtend 32 := by
  have himm : func7 (Riscv.sType imm s2 s1 f3 op) ++ rd (Riscv.sType imm s2 s1 f3 op) = imm := by
    apply BitVec.eq_of_getLsbD_eq
    intro i hi
    simp only [func7, rd, Riscv.sType, BitVec.getLsbD_extractLsb',
      BitVec.getLsbD_append]
    grind
  refine ⟨?_, ?_, ?_, ?_, by rw [immS_eq, himm]⟩ <;> apply BitVec.eq_of_getLsbD_eq <;>
    intro i hi <;>
    simp only [opcode, func3, rs1, rs2, Riscv.sType, BitVec.getLsbD_extractLsb',
      BitVec.getLsbD_append] <;> grind

theorem fields_bType (off : BitVec 12) :
    let w := Riscv.bType off s2 s1 f3 op
    opcode w = op ∧ func3 w = f3 ∧ rs1 w = s1 ∧ rs2 w = s2 ∧ immB w = Instr.offset off := by
  have himm : (Riscv.bType off s2 s1 f3 op).extractLsb' 31 1 ++
      (Riscv.bType off s2 s1 f3 op).extractLsb' 7 1 ++
      (Riscv.bType off s2 s1 f3 op).extractLsb' 25 6 ++
      (Riscv.bType off s2 s1 f3 op).extractLsb' 8 4 = off := by
    apply BitVec.eq_of_getLsbD_eq
    intro i hi
    simp only [Riscv.bType, BitVec.getLsbD_extractLsb',
      BitVec.getLsbD_append]
    grind
  refine ⟨?_, ?_, ?_, ?_, by rw [immB_eq, himm]; rfl⟩ <;> apply BitVec.eq_of_getLsbD_eq <;>
    intro i hi <;>
    simp only [opcode, func3, rs1, rs2, Riscv.bType, BitVec.getLsbD_extractLsb',
      BitVec.getLsbD_append] <;> grind

theorem fields_uType (imm : BitVec 20) :
    let w := Riscv.uType imm d op
    opcode w = op ∧ rd w = d ∧ immU w = imm ++ 0#12 := by
  have himm : (Riscv.uType imm d op).extractLsb' 12 20 = imm := by
    apply BitVec.eq_of_getLsbD_eq
    intro i hi
    simp only [Riscv.uType, BitVec.getLsbD_extractLsb', BitVec.getLsbD_append]
    grind
  refine ⟨?_, ?_, by rw [immU_eq, himm]⟩ <;> apply BitVec.eq_of_getLsbD_eq <;>
    intro i hi <;>
    simp only [opcode, rd, Riscv.uType, BitVec.getLsbD_extractLsb', BitVec.getLsbD_append] <;>
    grind

theorem fields_jType (off : BitVec 20) :
    let w := Riscv.jType off d op
    opcode w = op ∧ rd w = d ∧ immJ w = Instr.offset off := by
  have himm : (Riscv.jType off d op).extractLsb' 31 1 ++
      (Riscv.jType off d op).extractLsb' 12 8 ++
      (Riscv.jType off d op).extractLsb' 20 1 ++
      (Riscv.jType off d op).extractLsb' 21 10 = off := by
    apply BitVec.eq_of_getLsbD_eq
    intro i hi
    simp only [Riscv.jType, BitVec.getLsbD_extractLsb',
      BitVec.getLsbD_append]
    grind
  refine ⟨?_, ?_, by rw [immJ_eq, himm]; rfl⟩ <;> apply BitVec.eq_of_getLsbD_eq <;>
    intro i hi <;>
    simp only [opcode, rd, Riscv.jType, BitVec.getLsbD_extractLsb', BitVec.getLsbD_append] <;>
    grind

end

/-! Values. -/

theorem immSlt (a b : Word) : ofBool (a.slt b) = Riscv.flag (a.toInt < b.toInt) := by
  simp only [ofBool, BitVec.slt, Riscv.flag, decide_eq_true_eq]

theorem immSltu (a b : Word) : ofBool (a.ult b) = Riscv.flag (a.toNat < b.toNat) := by
  simp only [ofBool, BitVec.ult, Riscv.flag, decide_eq_true_eq]

theorem shl_eq (a n : Word) : shl a n = Riscv.ShiftOp.eval a (n.toNat % 32) .sll := by
  apply BitVec.eq_of_toNat_eq
  simp only [shl, Riscv.ShiftOp.eval, BitVec.toNat_shiftLeft, BitVec.toNat_ofNat,
    Nat.shiftLeft_eq]

theorem shr_eq (a n : Word) : shr a n = Riscv.ShiftOp.eval a (n.toNat % 32) .srl := by
  rw [shr]
  generalize n.toNat % 32 = k
  apply BitVec.eq_of_toNat_eq
  have hle := Nat.div_le_self a.toNat (2 ^ k)
  have := a.isLt
  rw [Riscv.ShiftOp.eval, BitVec.toNat_ushiftRight, BitVec.toNat_ofNat,
    Nat.shiftRight_eq_div_pow, Nat.mod_eq_of_lt (by omega)]

theorem sar_eq (a n : Word) : sar a n = Riscv.ShiftOp.eval a (n.toNat % 32) .sra := by
  rw [sar, Riscv.ShiftOp.eval, ← BitVec.ofInt_toInt (x := a.sshiftRight (n.toNat % 32)),
    BitVec.toInt_sshiftRight, Int.shiftRight_eq_div_pow]
  norm_cast

theorem high_mul (x y : Int) :
    high (BitVec.ofInt 64 x * BitVec.ofInt 64 y) = BitVec.ofInt 32 (x * y / 2 ^ 32) := by
  rw [high, ← BitVec.ofInt_mul, Bits.high_ofInt]

theorem quot_eq (a b : Word) : quot a b = BitVec.ofInt 32 (a.toInt.tdiv b.toInt) := by
  rw [quot, Bits.sdiv_wide, Bits.sdiv_eq_ofInt]

theorem rem_eq (a b : Word) : rem a b = BitVec.ofInt 32 (a.toInt.tmod b.toInt) := by
  rw [rem, Bits.srem_wide, Bits.srem_eq_ofInt]

/-- `FN_RV32M` computes the manual's products, quotients and remainders. -/
theorem arithM_eq (op : Riscv.RegOp) (hm : op.funct7 = 1#7) (a b : Word) :
    Rv.arithM op.funct3 a b = op.eval a b := by
  cases op <;> simp only [Riscv.RegOp.funct7, BitVec.reduceEq] at hm
  case mul =>
    change a * b = BitVec.ofInt 32 (a.toInt * b.toInt)
    rw [BitVec.ofInt_mul, BitVec.ofInt_toInt, BitVec.ofInt_toInt]
  case mulh =>
    change high (BitVec.ofInt 64 a.toInt * BitVec.ofInt 64 b.toInt) = _
    rw [high_mul, Riscv.RegOp.eval]
  case mulhsu =>
    change high (BitVec.ofInt 64 a.toInt * b.setWidth 64) = _
    rw [Bits.setWidth_eq_ofInt, high_mul, Riscv.RegOp.eval]
  case mulhu =>
    change high (a.setWidth 64 * b.setWidth 64) = _
    rw [Bits.setWidth_eq_ofInt, Bits.setWidth_eq_ofInt, high_mul, Riscv.RegOp.eval]
    norm_cast
  case div =>
    change (if b ≠ 0#32 then quot a b else 0xffffffff#32) = _
    rw [Riscv.RegOp.eval, quot_eq]
    by_cases hb : b = 0#32
    · rw [if_neg (not_not.mpr hb), if_pos hb]
      rfl
    -- -2^31 / -1 is the one quotient that overflows
    · rw [if_pos hb, if_neg hb]
      split
      · rename_i h
        rw [h.1, h.2]
        decide
      · rfl
  case divu =>
    change (if b ≠ 0#32 then a / b else 0xffffffff#32) = _
    rw [Riscv.RegOp.eval]
    by_cases hb : b = 0#32
    · rw [if_neg (not_not.mpr hb), if_pos hb]
      rfl
    · rw [if_pos hb, if_neg hb]
      apply BitVec.eq_of_toNat_eq
      have hle := Nat.div_le_self a.toNat b.toNat
      have := a.isLt
      rw [BitVec.toNat_udiv, BitVec.toNat_ofNat, Nat.mod_eq_of_lt (by omega)]
  case rem =>
    change (if b ≠ 0#32 then rem a b else a) = _
    rw [Riscv.RegOp.eval, rem_eq]
    by_cases hb : b = 0#32
    · rw [if_neg (not_not.mpr hb), if_pos hb]
    · rw [if_pos hb, if_neg hb]
      split
      · rename_i h
        rw [h.1, h.2]
        decide
      · rfl
  case remu =>
    change (if b ≠ 0#32 then a % b else a) = _
    rw [Riscv.RegOp.eval]
    by_cases hb : b = 0#32
    · rw [if_neg (not_not.mpr hb), if_pos hb]
    · rw [if_pos hb, if_neg hb]
      apply BitVec.eq_of_toNat_eq
      have hle := Nat.mod_le a.toNat b.toNat
      have := a.isLt
      rw [BitVec.toNat_umod, BitVec.toNat_ofNat, Nat.mod_eq_of_lt (hle.trans_lt this)]

namespace Rv

variable {cfg : Config} {rv : Rv} {host : Host}

theorem readRegs_eq (he : cfg.rv32e = false) (n : BitVec 5) : rv.readRegs cfg n = rv.regs n := by
  have := n.isLt
  have hr : cfg.regnum = 32 := by simp [Config.regnum, he]
  rw [readRegs, hr, if_neg (by omega)]

theorem writeRegs_eq (he : cfg.rv32e = false) (n : BitVec 5) (v : Word) :
    rv.writeRegs cfg n v = { rv with regs := Function.update rv.regs n v } := by
  have := n.isLt
  have hr : cfg.regnum = 32 := by simp [Config.regnum, he]
  rw [writeRegs, hr, if_neg (by omega)]

theorem arithI_opImm (he : cfg.rv32e = false) (op : Riscv.ImmOp) (d s1 : BitVec 5)
    (imm : BitVec 12) : rv.arithI cfg (Riscv.iType imm s1 op.funct3 d opArithI) =
      some (op.eval (rv.regs s1) (imm.signExtend 32)) := by
  obtain ⟨-, -, h3, hs, hi⟩ := fields_iType s1 d op.funct3 opArithI imm
  simp only [arithI, readRegs_eq he, h3, hs, hi]
  cases op
  · rfl
  · exact congrArg some (immSlt _ _)
  · exact congrArg some (immSltu _ _)
  · rfl
  · rfl
  · rfl

theorem shamt_lt (s : BitVec 5) : (s.setWidth 32).toNat % 32 = s.toNat := by
  have := s.isLt
  rw [BitVec.toNat_setWidth]
  omega

theorem arithI_shiftImm (he : cfg.rv32e = false) (op : Riscv.ShiftOp) (d s1 s : BitVec 5) :
    rv.arithI cfg (Riscv.rType op.funct7 s s1 op.funct3 d opArithI) =
      some (op.eval (rv.regs s1) s.toNat) := by
  obtain ⟨-, -, h3, hs1, hs2, h7⟩ := fields_rType op.funct7 s s1 d op.funct3 opArithI
  simp only [arithI, readRegs_eq he, h3, hs1, hs2, h7]
  rw [← shamt_lt s]
  cases op
  · exact congrArg some (shl_eq _ _)
  · exact congrArg some (shr_eq _ _)
  · exact congrArg some (sar_eq _ _)

theorem arithR_reg (he : cfg.rv32e = false) (op : Riscv.RegOp)
    (hm : op.funct7 = 1#7 → cfg.rv32m = true) (d s1 s2 : BitVec 5) :
    rv.arithR cfg (Riscv.rType op.funct7 s2 s1 op.funct3 d opArithR) =
      some (op.eval (rv.regs s1) (rv.regs s2)) := by
  obtain ⟨-, -, h3, hs1, hs2, h7⟩ := fields_rType op.funct7 s2 s1 d op.funct3 opArithR
  simp only [arithR, readRegs_eq he, h3, hs1, hs2, h7]
  by_cases h1 : op.funct7 = 1#7
  · rw [if_pos ⟨hm h1, h1⟩, arithM_eq op h1]
  · rw [if_neg fun h => h1 h.2]
    cases op <;> first | exact absurd rfl h1 | skip
    · change some (_ + _) = some (BitVec.ofInt 32 (_ + _))
      rw [BitVec.ofInt_add, BitVec.ofInt_toInt, BitVec.ofInt_toInt]
    · change some (_ - _) = some (BitVec.ofInt 32 (_ - _))
      congr 1
      apply BitVec.eq_of_toInt_eq
      rw [BitVec.toInt_sub, BitVec.toInt_ofInt]
    · exact congrArg some (immSlt _ _)
    · exact congrArg some (immSltu _ _)
    · rfl
    · rfl
    · rfl

theorem arithR_regShift (he : cfg.rv32e = false) (op : Riscv.ShiftOp) (d s1 s2 : BitVec 5) :
    rv.arithR cfg (Riscv.rType op.funct7 s2 s1 op.funct3 d opArithR) =
      some (op.eval (rv.regs s1) ((rv.regs s2).toNat % 32)) := by
  obtain ⟨-, -, h3, hs1, hs2, h7⟩ := fields_rType op.funct7 s2 s1 d op.funct3 opArithR
  have h1 : ¬ op.funct7 = fnRv32m := by cases op <;> decide
  simp only [arithR, readRegs_eq he, h3, hs1, hs2, h7]
  rw [if_neg fun h => h1 h.2]
  cases op
  · exact congrArg some (shl_eq _ _)
  · exact congrArg some (shr_eq _ _)
  · exact congrArg some (sar_eq _ _)

end Rv

/-! The state the manual sees. -/

namespace Rv

/-- The manual's machine: `x0` reads as zero, and an address is that of a byte. -/
def machine (rv : Rv) : Machine where
  pc := rv.pc
  x := fun n => if n = 0#5 then 0#32 else rv.regs n
  mem := fun a => rv.mem (rv.offset a)
  zero := if_pos rfl

/-- All CSRs but the counters and `mtime` are the same. -/
def CsrKept (c c' : Csr) : Prop :=
  c' = { c with time := c'.time, cycle := c'.cycle, instret := c'.instret, mtime := c'.mtime }

theorem CsrKept.refl (c : Csr) : CsrKept c c := rfl

theorem CsrKept.trans {c c' c'' : Csr} (h : CsrKept c c') (h' : CsrKept c' c'') :
    CsrKept c c'' := by
  rw [CsrKept] at *
  rw [h', h]

variable {rv : Rv} {host : Host}

@[simp] theorem machine_cycleAdd (n : Word) : (rv.cycleAdd n).machine = rv.machine := rfl

theorem machine_fresh : rv.fresh.machine = rv.machine := by
  apply Machine.ext
  · rfl
  · funext n
    change (if n = 0#5 then 0#32 else Function.update rv.regs 0#5 0#32 n) = _
    by_cases hn : n = 0#5
    · simp [hn, machine]
    · simp [hn, machine]
  · rfl

theorem machine_write (d : BitVec 5) (v pc : Word) :
    Rv.machine { rv with regs := Function.update rv.regs d v, pc := pc } =
      (rv.machine.set d v).goto pc := by
  apply Machine.ext
  · rfl
  · funext n
    change (if n = 0#5 then 0#32 else Function.update rv.regs d v n) =
      (if d = 0#5 then rv.machine.x else Function.update rv.machine.x d v) n
    by_cases hd : d = 0#5
    · subst hd
      rw [if_pos rfl]
      by_cases hn : n = 0#5
      · rw [if_pos hn, hn, rv.machine.zero]
      · rw [if_neg hn, Function.update_of_ne hn]
        exact (if_neg hn).symm
    · rw [if_neg hd]
      by_cases hn : n = d
      · subst hn
        rw [if_neg hd, Function.update_self, Function.update_self]
      · rw [Function.update_of_ne hn, Function.update_of_ne hn]
        rfl
  · rfl

theorem Inside.offset_add (h : rv.Laid) {a : Word} {n i : ℕ} (hi : rv.Inside a n) (hlt : i < n) :
    rv.offset (a + BitVec.ofNat 32 i) = rv.offset a + i := by
  have htop := h.top
  have hpos := BitVec.toInt_lt (x := rv.memSize)
  have hlo := BitVec.le_toInt (x := rv.memBase)
  obtain ⟨h1, h2⟩ := hi
  have hn : (BitVec.ofNat 32 i).toInt = i := by
    rw [BitVec.toInt_ofNat', Int.bmod_eq_of_le (by omega) (by omega)]
  have hadd : (a + BitVec.ofNat 32 i).toInt = a.toInt + i := by
    rw [Bits.toInt_add_of_nonneg _ _ (by omega), hn, if_pos (by omega)]
  have hin : rv.Inside (a + BitVec.ofNat 32 i) (n - i) := by
    rw [Inside, hadd]
    omega
  have hin' : rv.Inside a n := ⟨h1, h2⟩
  rw [hin.offset_eq h, hin'.offset_eq h, hadd]
  omega

theorem machine_mem (h : rv.Laid) {a : Word} {n i : ℕ} (hi : rv.Inside a n) (hlt : i < n) :
    rv.machine.mem (a + BitVec.ofNat 32 i) = rv.mem (rv.offset a + i) := by
  rw [← hi.offset_add h hlt]
  rfl

theorem machine_mem_zero (h : rv.Laid) {a : Word} {n : ℕ} (hi : rv.Inside a n) (hlt : 0 < n) :
    rv.machine.mem a = rv.mem (rv.offset a + (0 : ℕ)) := by
  rw [← machine_mem h hi hlt]
  simp

theorem machine_word (h : rv.Laid) {a : Word} (hi : rv.Inside a 4) :
    rv.machine.word a = wordOfBytes fun i => rv.mem (rv.offset a + i) := by
  have h1 := machine_mem h hi (i := 1) (by omega)
  have h2 := machine_mem h hi (i := 2) (by omega)
  have h3 := machine_mem h hi (i := 3) (by omega)
  rw [Machine.word, wordOfBytes, ← machine_mem_zero h hi (by omega), ← h1, ← h2, ← h3]

theorem machine_half (h : rv.Laid) {a : Word} (hi : rv.Inside a 2) :
    rv.machine.half a = rv.mem (rv.offset a + (1 : ℕ)) ++ rv.mem (rv.offset a + (0 : ℕ)) := by
  have h1 := machine_mem h hi (i := 1) (by omega)
  rw [Machine.half, ← machine_mem_zero h hi (by omega), ← h1]

theorem fetch_machine (h : rv.Laid) (hi : rv.Inside rv.pc 4) :
    rv.fetch host = rv.machine.word rv.pc := by
  have hok : rv.memOk rv.pc 4#32 = true := (memOk_eq h (by decide)).mpr (Or.inl hi)
  rw [fetch, readMem, if_pos hok, machine_word h hi]

theorem loadExtend_machine (h : rv.Laid) (op : Riscv.LoadOp) {a : Word}
    (hi : rv.Inside a op.size) :
    loadExtend op.funct3 (lowBytes (BitVec.ofNat 32 op.size) fun i =>
      rv.mem (rv.offset a + i)) = op.value rv.machine a := by
  obtain ⟨hlb, hlh, hlw, hlbu, hlhu⟩ :=
    loadExtend_lowBytes op.funct3 fun i => rv.mem (rv.offset a + i)
  cases op
  · exact (hlb rfl).trans (by rw [Riscv.LoadOp.value, machine_mem_zero h hi (by decide)])
  · exact (hlh rfl).trans (by rw [Riscv.LoadOp.value, machine_half h hi])
  · exact (hlw rfl).trans (by rw [Riscv.LoadOp.value, machine_word h hi])
  · exact (hlbu rfl).trans (by rw [Riscv.LoadOp.value, machine_mem_zero h hi (by decide)])
  · exact (hlhu rfl).trans (by rw [Riscv.LoadOp.value, machine_half h hi])

theorem copyIn_machine (h : rv.Laid) {a : Word} {n : ℕ} (hi : rv.Inside a n) (v w : Word) :
    rv.copyIn (rv.offset a) n (byteOfWord v) (rv.offset w) = (rv.machine.put a n v).mem w := by
  have htop := h.top
  have hlo := BitVec.le_toInt (x := rv.memBase)
  have hw1 := BitVec.toInt_lt (x := w - rv.memBase)
  have hw2 := BitVec.le_toInt (x := w - rv.memBase)
  have hsz := BitVec.toInt_lt (x := rv.memSize)
  have hoff := hi.offset_eq h
  obtain ⟨h1, h2⟩ := hi
  -- the distance of the two addresses is that of their indices, modulo 2 ^ 32
  have hd : ((w - a).toNat : ℤ) = (rv.offset w - rv.offset a) % 2 ^ 32 := by
    have hsub : w - a = (w - rv.memBase) - (a - rv.memBase) := by bv_omega
    rw [hsub, offset, offset, ← BitVec.ofInt_toInt (x := w - rv.memBase - (a - rv.memBase)),
      BitVec.toInt_sub, BitVec.toNat_ofInt, Int.bmod_emod]
    omega
  have hiff : (w - a).toNat < n ↔ rv.offset a ≤ rv.offset w ∧ rv.offset w < rv.offset a + n := by
    unfold offset at *
    omega
  change (if rv.offset a ≤ rv.offset w ∧ rv.offset w < rv.offset a + n
    then byteOfWord v (rv.offset w - rv.offset a).toNat else rv.mem (rv.offset w)) =
    if (w - a).toNat < n then v.extractLsb' (8 * (w - a).toNat) 8 else rv.mem (rv.offset w)
  by_cases hlt : (w - a).toNat < n
  · rw [if_pos hlt, if_pos (hiff.mp hlt), byteOfWord]
    have := hiff.mp hlt
    congr 2
    omega
  · rw [if_neg hlt, if_neg fun hc => hlt (hiff.mpr hc)]

/-! One instruction. -/

/-- The step succeeds, leaves the machine `s`, and keeps the CSRs. -/
structure Executes (d : Rv) (r : Ret × Rv) (s : Machine) : Prop where
  okay : r.1 = .code rvOkay
  machine : r.2.machine = s
  csr : CsrKept d.csr r.2.csr

/-- The length of the instruction. -/
def instLen (c : Bool) : Word := if c then 2#32 else 4#32

variable {cfg : Config} {d : Rv} {inst : Word} {c : Bool}

theorem linkPc_eq : d.linkPc c = d.pc + instLen c := by
  cases c <;> rfl

theorem regs_machine (hz : d.regs 0#5 = 0#32) (n : BitVec 5) : d.machine.x n = d.regs n := by
  change (if n = 0#5 then 0#32 else d.regs n) = d.regs n
  by_cases hn : n = 0#5
  · rw [if_pos hn, hn, hz]
  · rw [if_neg hn]

theorem ramCycle_eq_add : ∃ n, d.ramCycle = d.cycleAdd n := by
  unfold ramCycle
  split
  · exact ⟨_, rfl⟩
  · exact ⟨0#32, by simp⟩

theorem executes_write (he : cfg.rv32e = false) {r : BitVec 5} {v n : Word}
    (hx : d.exec cfg inst host c = .brk ((d.cycleAdd n).writeRegs cfg r v)) :
    Executes d (d.execNext cfg inst host c) ((d.machine.set r v).next (instLen c)) := by
  rw [execNext_brk hx, writeRegs_eq he, linkPc_eq]
  exact ⟨rfl, machine_write r v _, rfl⟩

theorem executes_writeRd (he : cfg.rv32e = false) {v : Word}
    (hx : d.exec cfg inst host c = d.writeRd cfg inst (some v)) :
    Executes d (d.execNext cfg inst host c)
      ((d.machine.set (rd inst) v).next (instLen c)) := by
  apply executes_write (n := 0#32) he
  rw [hx, cycleAdd_zero]
  rfl

theorem executes_jump (he : cfg.rv32e = false) {t : Word}
    (ha : cfg.rv32c = true ∨ (t &&& ~~~1#32).toNat % 4 = 0)
    (hx : d.exec cfg inst host c = d.jump cfg inst c t) :
    Executes d (d.execNext cfg inst host c)
      ((d.machine.set (rd inst) (d.pc + instLen c)).goto (t &&& ~~~1#32)) := by
  have hj : d.jump cfg inst c t = .ret (.code rvOkay) (cycleAdd { d with
      regs := Function.update d.regs (rd inst) (d.pc + instLen c)
      pc := t &&& ~~~1#32 } d.branchPenalty) := by
    have hm : ¬ ((!cfg.rv32c) = true ∧ (t &&& ~~~1#32) &&& 3#32 ≠ 0#32) := by
      rintro ⟨hc, h3⟩
      rcases ha with hc' | ha
      · rw [hc'] at hc
        cases hc
      · exact h3 ((Bits.and_three_eq_zero _).mpr ha)
    simp only [jump]
    rw [if_neg hm, writeRegs_eq he, linkPc_eq]
  rw [execNext, hx, hj]
  exact ⟨rfl, machine_write (rd inst) _ _, rfl⟩

theorem executes_branch {taken : Bool} {off : Word}
    (hx : d.exec cfg inst host c = d.branchArm taken off) :
    Executes d (d.execNext cfg inst host c)
      (if taken = true then d.machine.goto (d.pc + off) else d.machine.next (instLen c)) := by
  cases taken with
  | true =>
    rw [branchArm, if_pos rfl] at hx
    dsimp only at hx
    split at hx
    · rw [execNext, hx]
      exact ⟨rfl, rfl, rfl⟩
    · rw [execNext, hx]
      exact ⟨rfl, rfl, rfl⟩
  | false =>
    rw [execNext_brk (hx.trans (by rfl)), linkPc_eq]
    exact ⟨rfl, rfl, rfl⟩

theorem exec_branch_eq (he : cfg.rv32e = false) (hz : d.regs 0#5 = 0#32) (k : Riscv.Cond)
    (s1 s2 : BitVec 5) (off : BitVec 12) :
    d.exec cfg (Instr.branch k s1 s2 off).encode host c =
      d.branchArm (k.holds (d.machine.x s1) (d.machine.x s2)) (Instr.offset off) := by
  obtain ⟨ho, h3, h1, h2, hi⟩ := fields_bType s2 s1 k.funct3 opBranch off
  have hx : d.exec cfg (Instr.branch k s1 s2 off).encode host c =
      d.execBranch cfg (Instr.branch k s1 s2 off).encode := by
    simp only [exec, Instr.encode, ho]
    rfl
  rw [hx]
  simp only [execBranch, Instr.encode, readRegs_eq he, h3, h1, h2, hi, regs_machine hz]
  -- the six conditions, each in its own arm
  cases k <;> rfl

theorem executes_load (he : cfg.rv32e = false) (hz : d.regs 0#5 = 0#32) (hl : d.Laid)
    (op : Riscv.LoadOp) (r s1 : BitVec 5) (off : BitVec 12)
    (ha : (d.machine.x s1 + off.signExtend 32).toNat % op.size = 0)
    (hi : d.Inside (d.machine.x s1 + off.signExtend 32) op.size) :
    Executes d (d.execNext cfg (Instr.load op r s1 off).encode host c)
      ((Instr.load op r s1 off).step (instLen c) d.machine) := by
  obtain ⟨ho, hrd, h3, h1, himm⟩ := fields_iType s1 r op.funct3 opLoad off
  have haddr : d.loadAddress cfg (Instr.load op r s1 off).encode =
      d.machine.x s1 + off.signExtend 32 := by
    simp only [loadAddress, Instr.encode, readRegs_eq he, h1, himm, regs_machine hz]
  have hb : loadBytes (func3 (Instr.load op r s1 off).encode) = some op.size := by
    rw [Instr.encode, h3]
    cases op <;> rfl
  have hok : d.memOk (d.machine.x s1 + off.signExtend 32) (BitVec.ofNat 32 op.size) = true := by
    have htop := hl.top
    have := hi.2
    rwa [memOk_bytes hl (loadBytes_mem hb) (by omega)]
  obtain ⟨n, hn⟩ := d.ramCycle_eq_add
  have hx : d.exec cfg _ host c = _ := exec_load_ram
    (show opcode (Instr.load op r s1 off).encode = opLoad from ho) hb
    (by rw [haddr]; exact ha) (by rw [haddr]; exact hok)
  rw [hn, haddr] at hx
  simp only [Instr.encode, h3, hrd, loadExtend_machine hl op hi] at hx
  exact executes_write he hx

theorem executes_store (he : cfg.rv32e = false) (hz : d.regs 0#5 = 0#32) (hl : d.Laid)
    (op : Riscv.StoreOp) (s1 s2 : BitVec 5) (off : BitVec 12)
    (ha : (d.machine.x s1 + off.signExtend 32).toNat % op.size = 0)
    (hi : d.Inside (d.machine.x s1 + off.signExtend 32) op.size) :
    Executes d (d.execNext cfg (Instr.store op s1 s2 off).encode host c)
      ((Instr.store op s1 s2 off).step (instLen c) d.machine) := by
  obtain ⟨ho, h3, h1, h2, himm⟩ := fields_sType s2 s1 op.funct3 opStore off
  have haddr : d.storeAddress cfg (Instr.store op s1 s2 off).encode =
      d.machine.x s1 + off.signExtend 32 := by
    simp only [storeAddress, Instr.encode, readRegs_eq he, h1, himm, regs_machine hz]
  have hb : storeBytes (func3 (Instr.store op s1 s2 off).encode) = some op.size := by
    rw [Instr.encode, h3]
    cases op <;> rfl
  have hok : d.memOk (d.machine.x s1 + off.signExtend 32) (BitVec.ofNat 32 op.size) = true := by
    have htop := hl.top
    have := hi.2
    rwa [memOk_bytes hl (storeBytes_mem hb) (by omega)]
  have hx : d.exec cfg _ host c = _ := exec_store_ram
    (show opcode (Instr.store op s1 s2 off).encode = opStore from ho) hb
    (by rw [haddr]; exact ha) (by rw [haddr]; exact hok)
  have hv : d.readRegs cfg (rs2 (Instr.store op s1 s2 off).encode) = d.machine.x s2 := by
    rw [readRegs_eq he, Instr.encode, h2, regs_machine hz]
  rw [haddr, hv] at hx
  have hmem := copyIn_machine hl hi (d.machine.x s2)
  generalize d.copyIn (d.offset (d.machine.x s1 + off.signExtend 32)) op.size
    (byteOfWord (d.machine.x s2)) = mem at hx hmem
  obtain ⟨n, hn⟩ := ramCycle_eq_add (d := { d with mem := mem })
  rw [hn] at hx
  rw [execNext_brk hx, linkPc_eq]
  refine ⟨rfl, ?_, rfl⟩
  apply Machine.ext
  · rfl
  · rfl
  · exact funext hmem

/-- The conditions under which an instruction completes. -/
structure Completes (cfg : Config) (d : Rv) (len : Word) (i : Instr) : Prop where
  isM : i.isM = true → cfg.rv32m = true
  access : ∀ a n, i.access d.machine = some (a, n) → a.toNat % n = 0 ∧ d.Inside a n
  target : cfg.rv32c = true ∨ (i.step len d.machine).pc.toNat % 4 = 0
  notSelf : i.isJump = true → (i.step len d.machine).pc ≠ d.pc

theorem offset_even {w : ℕ} (off : BitVec w) : (Instr.offset off).getLsbD 0 = false := by
  rw [Instr.offset, BitVec.getLsbD_signExtend, BitVec.getLsbD_append]
  simp

theorem pc_offset_even (hp : d.pc.toNat % 2 = 0) {w : ℕ} (off : BitVec w) :
    (d.pc + Instr.offset off) &&& ~~~1#32 = d.pc + Instr.offset off := by
  apply Bits.clearBit0_of_even
  have h0 := offset_even off
  rw [Bits.testBit_zero, decide_eq_false_iff_not] at h0
  rw [BitVec.toNat_add]
  omega

/-- Every instruction of the manual, executed by the arms of the opcode switch. -/
theorem executes (he : cfg.rv32e = false) (hz : d.regs 0#5 = 0#32) (hl : d.Laid)
    (hp : d.pc.toNat % 2 = 0) (i : Instr) (hi : Completes cfg d (instLen c) i) :
    Executes d (d.execNext cfg i.encode host c) (i.step (instLen c) d.machine) := by
  cases i with
  | lui r imm =>
    obtain ⟨ho, hrd, himm⟩ := fields_uType r opLui imm
    apply executes_write (n := 0#32) he
    simp only [exec, Instr.encode, ho, execLui, hrd, himm, cycleAdd_zero]
    rfl
  | auipc r imm =>
    obtain ⟨ho, hrd, himm⟩ := fields_uType r opAuipc imm
    apply executes_write (n := 0#32) he
    simp only [exec, Instr.encode, ho, execAuipc, hrd, himm, cycleAdd_zero]
    rfl
  | jal r off =>
    obtain ⟨ho, hrd, himm⟩ := fields_jType r opJal off
    have hne : Instr.offset off ≠ 0#32 := by
      intro h0
      apply hi.notSelf rfl
      change d.pc + Instr.offset off = d.pc
      rw [h0, BitVec.add_zero]
    -- the jump clears bit 0 of a target that is even
    have heven := pc_offset_even hp off
    have : Executes d (d.execNext cfg (Instr.jal r off).encode host c) _ :=
      executes_jump (t := d.pc + Instr.offset off) he (by rw [heven]; exact hi.target) <| by
        simp only [exec, Instr.encode, ho, execJal, himm, if_neg hne]
        rfl
    rw [heven, Instr.encode, hrd] at this
    exact this
  | jalr r s1 off =>
    obtain ⟨ho, hrd, -, h1, himm⟩ := fields_iType s1 r 0#3 opJalr off
    -- the simulator compares the target before it clears bit 0, and leaves on a jump to itself
    have hne : d.machine.x s1 + off.signExtend 32 ≠ d.pc := by
      intro h0
      apply hi.notSelf rfl
      change (d.machine.x s1 + off.signExtend 32) &&& ~~~1#32 = d.pc
      rw [h0, Bits.clearBit0_of_even hp]
    have : Executes d (d.execNext cfg (Instr.jalr r s1 off).encode host c) _ :=
      executes_jump (t := d.machine.x s1 + off.signExtend 32) he hi.target <| by
        simp only [exec, Instr.encode, ho, execJalr, readRegs_eq he, h1, himm,
          ← regs_machine hz, if_neg hne]
        rfl
    rw [Instr.encode, hrd] at this
    exact this
  | branch k s1 s2 off => exact executes_branch (exec_branch_eq he hz k s1 s2 off)
  | load op r s1 off =>
    obtain ⟨ha, hin⟩ := hi.access _ _ rfl
    exact executes_load he hz hl op r s1 off ha hin
  | store op s1 s2 off =>
    obtain ⟨ha, hin⟩ := hi.access _ _ rfl
    exact executes_store he hz hl op s1 s2 off ha hin
  | opImm op r s1 imm =>
    obtain ⟨ho, hrd, -, -, -⟩ := fields_iType s1 r op.funct3 opArithI imm
    have : Executes d (d.execNext cfg (Instr.opImm op r s1 imm).encode host c) _ :=
      executes_writeRd (v := op.eval (d.regs s1) (imm.signExtend 32)) he <| by
        rw [← arithI_opImm he op r s1 imm]
        simp only [exec, Instr.encode, ho]
        rfl
    rw [Instr.encode, hrd, ← regs_machine hz] at this
    exact this
  | shiftImm op r s1 s =>
    obtain ⟨ho, hrd, -, -, -, -⟩ := fields_rType op.funct7 s s1 r op.funct3 opArithI
    have : Executes d (d.execNext cfg (Instr.shiftImm op r s1 s).encode host c) _ :=
      executes_writeRd (v := op.eval (d.regs s1) s.toNat) he <| by
        rw [← arithI_shiftImm he op r s1 s]
        simp only [exec, Instr.encode, ho]
        rfl
    rw [Instr.encode, hrd, ← regs_machine hz] at this
    exact this
  | reg op r s1 s2 =>
    obtain ⟨ho, hrd, -, -, -, -⟩ := fields_rType op.funct7 s2 s1 r op.funct3 opArithR
    -- without the M extension `FN_RV32M` is not looked at
    have hm : op.funct7 = 1#7 → cfg.rv32m = true := fun h1 => hi.isM (beq_iff_eq.mpr h1)
    have : Executes d (d.execNext cfg (Instr.reg op r s1 s2).encode host c) _ :=
      executes_writeRd (v := op.eval (d.regs s1) (d.regs s2)) he <| by
        rw [← arithR_reg he op hm r s1 s2]
        simp only [exec, Instr.encode, ho]
        rfl
    rw [Instr.encode, hrd, ← regs_machine hz, ← regs_machine hz] at this
    exact this
  | regShift op r s1 s2 =>
    obtain ⟨ho, hrd, -, -, -, -⟩ := fields_rType op.funct7 s2 s1 r op.funct3 opArithR
    have : Executes d (d.execNext cfg (Instr.regShift op r s1 s2).encode host c) _ :=
      executes_writeRd (v := op.eval (d.regs s1) ((d.regs s2).toNat % 32)) he <| by
        rw [← arithR_regShift he op r s1 s2]
        simp only [exec, Instr.encode, ho]
        rfl
    rw [Instr.encode, hrd, ← regs_machine hz, ← regs_machine hz] at this
    exact this

/-! One step. -/

theorem writeRegs_zero (v : Word) :
    rv.writeRegs cfg 0#5 v = { rv with regs := Function.update rv.regs 0#5 v } := by
  have hr : ¬ cfg.regnum ≤ (0#5).toNat := by
    unfold Config.regnum
    split <;> decide
  rw [writeRegs, if_neg hr]

/-- Without an interrupt, and from a pc that is aligned and in memory, the step starts as it is. -/
theorem Undisturbed.settle_cfg (h : rv.Undisturbed) (hr : rv.InRange rv.pc)
    (ha : rv.pc.toNat % (if cfg.rv32c = true then 2 else 4) = 0) : rv.settle cfg = rv.fresh := by
  have hs : rv.settle cfg = rv.fresh.enterInts.checkPc cfg := by
    rw [Rv.settle, writeRegs_zero]
    rfl
  have hr' : ¬ ((rv.fresh.memBase + rv.fresh.memSize).sle rv.fresh.pc = true ∨
    rv.fresh.pc.slt rv.fresh.memBase = true) := hr
  have hm : rv.pc &&& (if cfg.rv32c = true then 1#32 else 3#32) = 0#32 := by
    cases hc : cfg.rv32c with
    | true =>
      rw [hc] at ha
      exact (Bits.and_one_eq_zero _).mpr ha
    | false =>
      rw [hc] at ha
      exact (Bits.and_three_eq_zero _).mpr ha
  rw [hs, h.enterInts]
  simp only [checkPc]
  rw [if_neg hr']
  exact if_neg (not_not.mpr hm)

theorem Inside.inRange (h : rv.Laid) {a : Word} {n : ℕ} (hi : rv.Inside a n) (hn : 0 < n) :
    rv.InRange a := by
  obtain ⟨h1, h2⟩ := hi
  rw [InRange]
  simp only [BitVec.sle, BitVec.slt, decide_eq_true_eq]
  rw [h.top_toInt]
  omega

theorem machine_count (w : Word) : ((rv.fresh.sampleIrq w).count).machine = rv.machine :=
  (machine_fresh : rv.fresh.machine = rv.machine)

/-- The simulator implements RV32IM: one step from a state without a latched interrupt, at an
aligned pc in memory that holds an instruction, is that instruction. -/
theorem implements_manual (host : Host) (rv : Rv) (i : Instr) (hl : rv.Laid)
    (hp : rv.pc.toNat % 4 = 0) (hin : rv.Inside rv.pc 4) (hu : rv.Undisturbed)
    (hw : rv.machine.word rv.pc = i.encode)
    (ha : ∀ a n, i.access rv.machine = some (a, n) → a.toNat % n = 0 ∧ rv.Inside a n)
    (ht : (i.step 4#32 rv.machine).pc.toNat % 4 = 0)
    (hself : i.isJump = true → (i.step 4#32 rv.machine).pc ≠ rv.pc) :
    Executes rv (srv32Step .rv32im host rv) (i.step 4#32 rv.machine) := by
  have hset : rv.settle .rv32im = rv.fresh := hu.settle (hin.inRange hl (by omega)) hp
  have hf : rv.fresh.fetch host = i.encode := by
    have hl' : rv.fresh.Laid := ⟨hl.pos, hl.top⟩
    rw [← hw, fetch_machine hl' hin, machine_fresh]
    rfl
  have hm : ((rv.fresh.sampleIrq i.encode).count).machine = rv.machine := machine_count i.encode
  have hstep : srv32Step .rv32im host rv =
      (rv.fresh.sampleIrq i.encode).count.execNext .rv32im i.encode host false := by
    rw [srv32Step, prologue, hset, hf]
    rfl
  have hx : Executes (rv.fresh.sampleIrq i.encode).count
      ((rv.fresh.sampleIrq i.encode).count.execNext .rv32im i.encode host false)
      (i.step (instLen false) (rv.fresh.sampleIrq i.encode).count.machine) := by
    have hl' : (rv.fresh.sampleIrq i.encode).count.Laid := ⟨hl.pos, hl.top⟩
    refine executes (show Config.rv32im.rv32e = false from rfl) ?_ hl' ?_ i
      ⟨fun _ => rfl, ?_, Or.inr ?_, ?_⟩
    · change Function.update rv.regs 0#5 0#32 0#5 = 0#32
      rw [Function.update_self]
    · change rv.pc.toNat % 2 = 0
      omega
    · rw [hm]
      exact ha
    · rw [hm]
      exact ht
    · rw [hm]
      exact hself
  rw [hm] at hx
  rw [hstep]
  have hk : CsrKept rv.csr (rv.fresh.sampleIrq i.encode).count.csr := rfl
  exact ⟨hx.okay, hx.machine, hk.trans hx.csr⟩

/-- `add x1, x2, x3` from the state after reset. -/
theorem implements_manual_add :
    let rv := Rv.boot .rv32im 1 (image [0x003100b3#32])
    Executes rv (srv32Step .rv32im .none rv) ((Instr.reg .add 1#5 2#5 3#5).step 4#32 rv.machine) := by
  intro rv
  exact implements_manual .none rv (.reg .add 1#5 2#5 3#5) ⟨by decide, by decide⟩ (by decide)
    (by decide) (Or.inl (by decide)) (by decide) (fun a n h => by cases h) (by decide)
    fun h => by cases h

end Rv

end Srv32.Iss
