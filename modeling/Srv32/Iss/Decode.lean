import Srv32.Iss.State
import Srv32.Bits

/-! Immediates of the 32-bit instruction formats (`to_imm_*`). -/

namespace Srv32.Iss

def toImmI (n : Word) : Word :=
  if n &&& 1#32 <<< 11 ≠ 0#32 then n ||| 0xfffff000#32 else n

def toImmS (n1 n2 : Word) : Word :=
  let n := n1 <<< 5 + n2
  if n &&& 1#32 <<< 11 ≠ 0#32 then n ||| 0xfffff000#32 else n

def toImmB (n1 n2 : Word) : Word :=
  let n := n1 <<< 5 + n2
  let a0 := (n.extractLsb' 0 1).setWidth 32
  let a1 := (n.extractLsb' 1 4).setWidth 32
  let a2 := (n.extractLsb' 5 6).setWidth 32
  let a3 := (n.extractLsb' 11 1).setWidth 32
  let m := a3 <<< 12 ||| a2 <<< 5 ||| a1 <<< 1 ||| a0 <<< 11
  if m &&& 1#32 <<< 12 ≠ 0#32 then m ||| 0xffffe000#32 else m

def toImmJ (n : Word) : Word :=
  let a0 := (n.extractLsb' 0 8).setWidth 32
  let a1 := (n.extractLsb' 8 1).setWidth 32
  let a2 := (n.extractLsb' 9 10).setWidth 32
  let a3 := (n.extractLsb' 19 1).setWidth 32
  let m := a3 <<< 20 ||| a2 <<< 1 ||| a1 <<< 11 ||| a0 <<< 12
  if m &&& 1#32 <<< 20 ≠ 0#32 then m ||| 0xffe00000#32 else m

def toImmU (n : Word) : Word := n <<< 12

/-! The arguments `srv32_step` passes them: the bit-fields of `INST`. -/

/-- `to_imm_i(inst.i.imm)` -/
def immI (inst : Word) : Word := toImmI ((imm12 inst).setWidth 32)

/-- `to_imm_s(inst.s.imm2, inst.s.imm1)` -/
def immS (inst : Word) : Word := toImmS ((func7 inst).setWidth 32) ((rd inst).setWidth 32)

/-- `to_imm_b(inst.b.imm2, inst.b.imm1)` -/
def immB (inst : Word) : Word := toImmB ((func7 inst).setWidth 32) ((rd inst).setWidth 32)

/-- `to_imm_j(inst.j.imm)` -/
def immJ (inst : Word) : Word := toImmJ ((imm20 inst).setWidth 32)

/-- `to_imm_u(inst.u.imm)` -/
def immU (inst : Word) : Word := toImmU ((imm20 inst).setWidth 32)

/-! Each is the sign extension of the instruction bits the format scatters it over. -/

open Bits

theorem immI_eq (inst : Word) : immI inst = (imm12 inst).signExtend 32 := by
  rw [immI, toImmI, ← signFill _ (by decide) (by decide)]
  rfl

theorem immU_eq (inst : Word) : immU inst = inst.extractLsb' 12 20 ++ 0#12 := by
  apply BitVec.eq_of_getLsbD_eq
  intro i hi
  simp only [immU, toImmU, imm20, BitVec.getLsbD_shiftLeft, BitVec.getLsbD_setWidth,
    BitVec.getLsbD_append, BitVec.getLsbD_zero, BitVec.getLsbD_extractLsb', hi, decide_true,
    Bool.true_and]
  by_cases h : i < 12
  · simp [h]
  · simp [h]
    omega

/-- `to_imm_s` and `to_imm_b` rejoin the two halves of their immediate. -/
theorem join (a : BitVec 7) (b : BitVec 5) :
    a.setWidth 32 <<< 5 + b.setWidth 32 = (a ++ b).setWidth 32 := by
  apply BitVec.eq_of_toNat_eq
  have ha := a.isLt
  have hb := b.isLt
  rw [BitVec.toNat_add, BitVec.toNat_shiftLeft, BitVec.toNat_setWidth, BitVec.toNat_setWidth,
    BitVec.toNat_setWidth, BitVec.toNat_append, Nat.shiftLeft_eq, Nat.shiftLeft_eq,
    Nat.mul_comm a.toNat, ← Nat.two_pow_add_eq_or_of_lt hb]
  omega

theorem immS_eq (inst : Word) : immS inst = (func7 inst ++ rd inst).signExtend 32 := by
  rw [immS, toImmS, join, ← signFill _ (by decide) (by decide)]
  rfl

theorem immB_eq (inst : Word) : immB inst =
    (inst.extractLsb' 31 1 ++ inst.extractLsb' 7 1 ++ inst.extractLsb' 25 6 ++
      inst.extractLsb' 8 4 ++ 0#1).signExtend 32 := by
  rw [immB, toImmB, join, ← signFill _ (by decide) (by decide)]
  have h : ∀ n : Word, n = (func7 inst ++ rd inst).setWidth 32 →
      (n.extractLsb' 11 1).setWidth 32 <<< 12 ||| (n.extractLsb' 5 6).setWidth 32 <<< 5 |||
        (n.extractLsb' 1 4).setWidth 32 <<< 1 ||| (n.extractLsb' 0 1).setWidth 32 <<< 11 =
      (inst.extractLsb' 31 1 ++ inst.extractLsb' 7 1 ++ inst.extractLsb' 25 6 ++
        inst.extractLsb' 8 4 ++ 0#1).setWidth 32 := by
    rintro _ rfl
    apply BitVec.eq_of_getLsbD_eq
    intro i hi
    simp only [func7, rd]
    interval_cases i <;>
      simp only [BitVec.getLsbD_or, BitVec.getLsbD_shiftLeft, BitVec.getLsbD_setWidth,
        BitVec.getLsbD_extractLsb', BitVec.getLsbD_append, BitVec.getLsbD_zero] <;> simp
  simp only [h _ rfl]
  rfl

theorem immJ_eq (inst : Word) : immJ inst =
    (inst.extractLsb' 31 1 ++ inst.extractLsb' 12 8 ++ inst.extractLsb' 20 1 ++
      inst.extractLsb' 21 10 ++ 0#1).signExtend 32 := by
  rw [immJ, toImmJ, ← signFill _ (by decide) (by decide)]
  have h : ∀ n : Word, n = (imm20 inst).setWidth 32 →
      (n.extractLsb' 19 1).setWidth 32 <<< 20 ||| (n.extractLsb' 9 10).setWidth 32 <<< 1 |||
        (n.extractLsb' 8 1).setWidth 32 <<< 11 ||| (n.extractLsb' 0 8).setWidth 32 <<< 12 =
      (inst.extractLsb' 31 1 ++ inst.extractLsb' 12 8 ++ inst.extractLsb' 20 1 ++
        inst.extractLsb' 21 10 ++ 0#1).setWidth 32 := by
    rintro _ rfl
    apply BitVec.eq_of_getLsbD_eq
    intro i hi
    simp only [imm20]
    interval_cases i <;>
      simp only [BitVec.getLsbD_or, BitVec.getLsbD_shiftLeft, BitVec.getLsbD_setWidth,
        BitVec.getLsbD_extractLsb', BitVec.getLsbD_append, BitVec.getLsbD_zero] <;> simp
  simp only [h _ rfl]
  rfl

end Srv32.Iss
