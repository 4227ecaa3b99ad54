import Srv32.Iss.Run
import Srv32.Riscv.Compressed
import Srv32.Refine.Manual

/-! The decompressor against the manual: the word it makes of a halfword is the encoding of the
instruction the halfword stands for. -/

namespace Srv32.Iss

open Riscv (Instr Meaning)
open Riscv.Compressed (prime lowReg highReg bit12 imm6 uimm4spn uimmW uimmLwsp uimmSwsp imm16sp offB
  offJ meaning0 meaning1 meaning2 meaningAlu meaning)

/-! Register fields. -/

theorem add_eight (r : BitVec 3) : 8#5 + r.setWidth 5 = prime r := by
  revert r
  decide

theorem cRd'_eq (k : BitVec 16) : cRd' k = lowReg k := add_eight _

theorem cRs1'_eq (k : BitVec 16) : cRs1' k = highReg k := add_eight _

/-! Immediates. Each sum of `GET_IMM` is computed for every value of the halfword's fields. -/

/-- A part of a field, as a part of the halfword. -/
theorem extractLsb'_field {w : ℕ} (k : BitVec w) {s m i n : ℕ} (h : i + n ≤ m) :
    (k.extractLsb' s m).extractLsb' i n = k.extractLsb' (s + i) n := by
  ext j hj
  rw [BitVec.getElem_extractLsb', BitVec.getLsbD_extractLsb', BitVec.getElem_extractLsb',
    Nat.add_assoc]
  simp [show i + j < m by omega]

theorem imm_addi4spn : ∀ x : BitVec 8,
    (getImm (x.setWidth 32) 0 3 0x1#32 + getImm (x.setWidth 32) 1 2 0x1#32 +
      getImm (x.setWidth 32) 2 6 0xf#32 + getImm (x.setWidth 32) 6 4 0x3#32).setWidth 12 =
    0#2 ++ x.extractLsb' 2 4 ++ x.extractLsb' 6 2 ++ x.extractLsb' 0 1 ++ x.extractLsb' 1 1 ++
      0#2 := by
  decide +kernel

theorem imm_lw : ∀ (h : BitVec 3) (l : BitVec 2),
    (getImm (h.setWidth 32) 0 3 0x7#32 + getImm (l.setWidth 32) 0 6 0x1#32 +
      getImm (l.setWidth 32) 1 2 0x1#32).setWidth 12 =
    0#5 ++ l.extractLsb' 0 1 ++ h ++ l.extractLsb' 1 1 ++ 0#2 := by
  decide

theorem imm_sw : ∀ (h : BitVec 3) (l : BitVec 2),
    let imm : BitVec 12 := 0#5 ++ l.extractLsb' 0 1 ++ h ++ l.extractLsb' 1 1 ++ 0#2
    (getImm (h.setWidth 32) 0 3 0x3#32 + getImm (l.setWidth 32) 1 2 0x1#32).setWidth 5 =
      imm.extractLsb' 0 5 ∧
    (getImm (l.setWidth 32) 0 1 0x1#32 + getImm (h.setWidth 32) 2 0 0x1#32).setWidth 7 =
      imm.extractLsb' 5 7 := by
  decide

theorem imm_ci : ∀ (h : BitVec 1) (l : BitVec 5),
    ((if h ≠ 0#1 then 0xfe0#32 else 0#32) + l.setWidth 32 : Word).setWidth 12 =
      (h ++ l).signExtend 12 := by
  decide

theorem imm_lui : ∀ (h : BitVec 1) (l : BitVec 5),
    ((if h ≠ 0#1 then 0xfffe0#32 else 0#32) + l.setWidth 32 : Word).setWidth 20 =
      (h ++ l).signExtend 20 := by
  decide

theorem imm_andi : ∀ (h : BitVec 3) (l : BitVec 5),
    ((if h.setWidth 32 &&& 4#32 ≠ 0#32 then 0xfe0#32 else 0#32) + l.setWidth 32 :
      Word).setWidth 12 = (h.extractLsb' 2 1 ++ l).signExtend 12 := by
  decide +kernel

theorem imm_addi16sp : ∀ (h : BitVec 1) (l : BitVec 5),
    ((if h ≠ 0#1 then 0xe00#32 else 0#32) + getImm (l.setWidth 32) 0 5 0x1#32 +
      getImm (l.setWidth 32) 1 7 0x3#32 + getImm (l.setWidth 32) 3 6 0x1#32 +
      getImm (l.setWidth 32) 4 4 0x1#32).setWidth 12 =
    (h ++ l.extractLsb' 1 2 ++ l.extractLsb' 3 1 ++ l.extractLsb' 0 1 ++ l.extractLsb' 4 1 ++
      0#4).signExtend 12 := by
  decide

theorem imm_lwsp : ∀ (h : BitVec 1) (l : BitVec 5),
    (getImm (h.setWidth 32) 0 5 0x1#32 + getImm (l.setWidth 32) 0 6 0x3#32 +
      getImm (l.setWidth 32) 2 2 0x7#32).setWidth 12 =
    0#4 ++ l.extractLsb' 0 2 ++ h ++ l.extractLsb' 2 3 ++ 0#2 := by
  decide

theorem imm_swsp : ∀ x : BitVec 6,
    let imm : BitVec 12 := 0#4 ++ x.extractLsb' 0 2 ++ x.extractLsb' 2 4 ++ 0#2
    (getImm (x.setWidth 32) 2 2 0x7#32).setWidth 5 = imm.extractLsb' 0 5 ∧
    (getImm (x.setWidth 32) 1 2 0x1#32 + getImm (x.setWidth 32) 0 1 0x1#32 +
      getImm (x.setWidth 32) 5 0 0x1#32).setWidth 7 = imm.extractLsb' 5 7 := by
  decide

theorem imm_b : ∀ (h : BitVec 3) (l : BitVec 5),
    let off : BitVec 12 := (h.extractLsb' 2 1 ++ l.extractLsb' 3 2 ++ l.extractLsb' 0 1 ++
      h.extractLsb' 0 2 ++ l.extractLsb' 1 2).signExtend 12
    (getImm (h.setWidth 32) 0 3 0x3#32 + getImm (l.setWidth 32) 1 1 0x3#32 +
      (if h.setWidth 32 &&& 4#32 ≠ 0#32 then 1#32 else 0#32)).setWidth 5 =
        off.extractLsb' 0 4 ++ off.extractLsb' 10 1 ∧
    ((if h.setWidth 32 &&& 4#32 ≠ 0#32 then 0x78#32 else 0#32) +
      getImm (l.setWidth 32) 3 1 0x3#32 + getImm (l.setWidth 32) 0 0 0x1#32).setWidth 7 =
        off.extractLsb' 11 1 ++ off.extractLsb' 4 6 := by
  decide +kernel

theorem imm_j : ∀ o : BitVec 11,
    let off : BitVec 20 := (o.extractLsb' 10 1 ++ o.extractLsb' 6 1 ++ o.extractLsb' 7 2 ++
      o.extractLsb' 4 1 ++ o.extractLsb' 5 1 ++ o.extractLsb' 0 1 ++ o.extractLsb' 9 1 ++
      o.extractLsb' 1 3).signExtend 20
    ((if o.setWidth 32 &&& 0x400#32 ≠ 0#32 then 0x801ff#32 else 0#32) +
      getImm (o.setWidth 32) 0 13 0x1#32 + getImm (o.setWidth 32) 1 9 0x7#32 +
      getImm (o.setWidth 32) 4 15 0x1#32 + getImm (o.setWidth 32) 5 14 0x1#32 +
      getImm (o.setWidth 32) 6 18 0x1#32 + getImm (o.setWidth 32) 7 16 0x3#32 +
      getImm (o.setWidth 32) 9 12 0x1#32).setWidth 20 =
    off.extractLsb' 19 1 ++ off.extractLsb' 0 10 ++ off.extractLsb' 10 1 ++
      off.extractLsb' 11 8 := by
  decide +kernel

/-! Words. -/

variable (k : BitVec 16)

theorem word_addi4spn : mkI opArithI (cRd' k) opAdd 2#5
    (getImm (ciwImm k) 0 3 0x1#32 + getImm (ciwImm k) 1 2 0x1#32 +
      getImm (ciwImm k) 2 6 0xf#32 + getImm (ciwImm k) 6 4 0x3#32) =
    (Instr.opImm .addi (lowReg k) 2#5 (uimm4spn k)).encode := by
  have h := imm_addi4spn (k.extractLsb' 5 8)
  rw [extractLsb'_field k (by decide), extractLsb'_field k (by decide),
    extractLsb'_field k (by decide), extractLsb'_field k (by decide)] at h
  rw [← cRd'_eq, uimm4spn, ← h]
  rfl

theorem imm_w : (getImm (clImmH k) 0 3 0x7#32 + getImm (clImmL k) 0 6 0x1#32 +
    getImm (clImmL k) 1 2 0x1#32).setWidth 12 = uimmW k := by
  have h := imm_lw (k.extractLsb' 10 3) (k.extractLsb' 5 2)
  rw [extractLsb'_field k (by decide), extractLsb'_field k (by decide)] at h
  exact h

theorem word_lw : mkI opLoad (cRd' k) opLw (cRs1' k)
    (getImm (clImmH k) 0 3 0x7#32 + getImm (clImmL k) 0 6 0x1#32 +
      getImm (clImmL k) 1 2 0x1#32) =
    (Instr.load .lw (lowReg k) (highReg k) (uimmW k)).encode := by
  rw [← cRd'_eq, ← cRs1'_eq, ← imm_w]
  rfl

theorem word_sw : mkS opStore
    (getImm (clImmH k) 0 3 0x3#32 + getImm (clImmL k) 1 2 0x1#32) opSw (cRs1' k) (cRd' k)
    (getImm (clImmL k) 0 1 0x1#32 + getImm (clImmH k) 2 0 0x1#32) =
    (Instr.store .sw (highReg k) (lowReg k) (uimmW k)).encode := by
  obtain ⟨hlo, hhi⟩ := imm_sw (k.extractLsb' 10 3) (k.extractLsb' 5 2)
  rw [extractLsb'_field k (by decide), extractLsb'_field k (by decide)] at hlo hhi
  rw [← cRd'_eq, ← cRs1'_eq, Instr.encode, Riscv.sType, mkS, uimmW]
  unfold clImmH clImmL
  rw [hlo, hhi]
  rfl

theorem word_addi (d s : BitVec 5) : mkI opArithI d opAdd s (ciImm k) =
    (Instr.opImm .addi d s ((imm6 k).signExtend 12)).encode := by
  have h := imm_ci (ciImmH k) (cImmL k)
  rw [show imm6 k = ciImmH k ++ cImmL k from rfl, ← h]
  rfl

theorem word_andi : mkI opArithI (cRs1' k) opAnd (cRs1' k)
    ((if clImmH k &&& 4#32 ≠ 0#32 then 0xfe0#32 else 0#32) + (cImmL k).setWidth 32) =
    (Instr.opImm .andi (highReg k) (highReg k) ((imm6 k).signExtend 12)).encode := by
  have h := imm_andi (k.extractLsb' 10 3) (cImmL k)
  rw [extractLsb'_field k (by decide)] at h
  rw [← cRs1'_eq, show imm6 k = k.extractLsb' (10 + 2) 1 ++ cImmL k from rfl, ← h]
  rfl

theorem word_lui (d : BitVec 5) : mkU opLui d
    ((if ciImmH k ≠ 0#1 then 0xfffe0#32 else 0#32) + (cImmL k).setWidth 32) =
    (Instr.lui d ((imm6 k).signExtend 20)).encode := by
  have h := imm_lui (ciImmH k) (cImmL k)
  rw [show imm6 k = ciImmH k ++ cImmL k from rfl, ← h]
  rfl

theorem word_addi16sp : mkI opArithI 2#5 opAdd 2#5
    ((if ciImmH k ≠ 0#1 then 0xe00#32 else 0#32) + getImm ((cImmL k).setWidth 32) 0 5 0x1#32 +
      getImm ((cImmL k).setWidth 32) 1 7 0x3#32 + getImm ((cImmL k).setWidth 32) 3 6 0x1#32 +
      getImm ((cImmL k).setWidth 32) 4 4 0x1#32) =
    (Instr.opImm .addi 2#5 2#5 (imm16sp k)).encode := by
  have h := imm_addi16sp (ciImmH k) (k.extractLsb' 2 5)
  rw [extractLsb'_field k (by decide), extractLsb'_field k (by decide),
    extractLsb'_field k (by decide), extractLsb'_field k (by decide)] at h
  rw [show imm16sp k = _ from h.symm]
  rfl

theorem word_lwsp (d : BitVec 5) : mkI opLoad d opLw 2#5
    (getImm ((ciImmH k).setWidth 32) 0 5 0x1#32 + getImm ((cImmL k).setWidth 32) 0 6 0x3#32 +
      getImm ((cImmL k).setWidth 32) 2 2 0x7#32) =
    (Instr.load .lw d 2#5 (uimmLwsp k)).encode := by
  have h := imm_lwsp (ciImmH k) (k.extractLsb' 2 5)
  rw [extractLsb'_field k (by decide), extractLsb'_field k (by decide)] at h
  rw [show uimmLwsp k = _ from h.symm]
  rfl

theorem word_swsp : mkS opStore (getImm (cssImm k) 2 2 0x7#32) opSw 2#5 (cImmL k)
    (getImm (cssImm k) 1 2 0x1#32 + getImm (cssImm k) 0 1 0x1#32 +
      getImm (cssImm k) 5 0 0x1#32) =
    (Instr.store .sw 2#5 (Riscv.Compressed.rs2 k) (uimmSwsp k)).encode := by
  obtain ⟨hlo, hhi⟩ := imm_swsp (k.extractLsb' 7 6)
  rw [extractLsb'_field k (by decide), extractLsb'_field k (by decide)] at hlo hhi
  rw [Instr.encode, Riscv.sType, mkS, uimmSwsp]
  unfold cssImm
  rw [hlo, hhi]
  rfl

/-- The branch word, from the two pieces of its scattered offset. -/
theorem bType_eq (off : BitVec 12) (s2 s1 : BitVec 5) (f3 : BitVec 3) (op : BitVec 7) :
    Riscv.bType off s2 s1 f3 op = (off.extractLsb' 11 1 ++ off.extractLsb' 4 6) ++ s2 ++ s1 ++ f3 ++
      (off.extractLsb' 0 4 ++ off.extractLsb' 10 1) ++ op := by
  apply BitVec.eq_of_getLsbD_eq
  intro i hi
  simp only [Riscv.bType, BitVec.getLsbD_append, BitVec.getLsbD_extractLsb']
  grind

theorem word_branch (c : Riscv.Cond) :
    mkS opBranch (cbImm1 k) c.funct3 (cRs1' k) 0#5 (cbImm2 k) =
      (Instr.branch c (highReg k) 0#5 (offB k)).encode := by
  obtain ⟨hlo, hhi⟩ := imm_b (k.extractLsb' 10 3) (k.extractLsb' 2 5)
  rw [extractLsb'_field k (by decide), extractLsb'_field k (by decide),
    extractLsb'_field k (by decide), extractLsb'_field k (by decide),
    extractLsb'_field k (by decide)] at hlo hhi
  rw [← cRs1'_eq, Instr.encode, bType_eq, mkS, offB, cbImm1, cbImm2]
  unfold clImmH cImmL
  rw [hlo, hhi]
  rfl

theorem word_jal (d : BitVec 5) : mkU opJal d (cjImm k) = (Instr.jal d (offJ k)).encode := by
  have h := imm_j (k.extractLsb' 2 11)
  rw [extractLsb'_field k (by decide), extractLsb'_field k (by decide),
    extractLsb'_field k (by decide), extractLsb'_field k (by decide),
    extractLsb'_field k (by decide), extractLsb'_field k (by decide),
    extractLsb'_field k (by decide), extractLsb'_field k (by decide)] at h
  rw [mkU, cjImm, Instr.encode, Riscv.jType, offJ]
  unfold cjOffset
  rw [h]
  rfl

/-! The decoder. -/

/-- The word for a meaning. -/
def wordOf : Meaning → Option Word
  | .instr i => some i.encode
  | .ebreak => some 0x00100073#32
  | .undefined => none

theorem ciwImm_eq_zero : ciwImm k = 0#32 ↔ k.extractLsb' 5 8 = 0#8 := by
  have h : ∀ x : BitVec 8, x.setWidth 32 = 0#32 ↔ x = 0#8 := by decide +kernel
  exact h _

theorem decodeC0_eq : decodeC0 k = wordOf (meaning0 k) := by
  unfold decodeC0 meaning0
  rw [show Riscv.Compressed.funct3 k = cFunc3 k from rfl]
  by_cases h0 : cFunc3 k = 0#3
  · rw [if_pos h0, if_pos h0]
    by_cases hz : k.extractLsb' 5 8 = 0#8
    · rw [if_neg (not_not.mpr ((ciwImm_eq_zero k).mpr hz)), if_pos hz]
      split <;> rfl
    · have hk : ¬ k = 0#16 := by
        rintro rfl
        exact hz rfl
      rw [if_neg hk, if_pos fun hc => hz ((ciwImm_eq_zero k).mp hc), if_neg hz, word_addi4spn]
      rfl
  rw [if_neg h0, if_neg h0, word_lw, word_sw]
  split_ifs <;> rfl

/-- The encodings of quadrant 1 where the decoder goes its own way: writes to `x0`, and the shifts
by 32 and more. -/
def toX0 : Prop := (cFunc3 k = 0#3 ∨ cFunc3 k = 2#3 ∨ cFunc3 k = 3#3) ∧ cRd k = 0#5
def longShift : Prop :=
  cFunc3 k = 4#3 ∧ (caFunc6 k &&& 3#6 = 0#6 ∨ caFunc6 k &&& 3#6 = 1#6) ∧ ciImmH k = 1#1

theorem caFunc6_low : (caFunc6 k &&& 3#6 = 0#6 ↔ k.extractLsb' 10 2 = 0#2) ∧
    (caFunc6 k &&& 3#6 = 1#6 ↔ k.extractLsb' 10 2 = 1#2) ∧
    (caFunc6 k &&& 3#6 = 2#6 ↔ k.extractLsb' 10 2 = 2#2) := by
  have h : ∀ x : BitVec 6, (x &&& 3#6 = 0#6 ↔ x.extractLsb' 0 2 = 0#2) ∧
      (x &&& 3#6 = 1#6 ↔ x.extractLsb' 0 2 = 1#2) ∧
      (x &&& 3#6 = 2#6 ↔ x.extractLsb' 0 2 = 2#2) := by decide
  have hk := h (caFunc6 k)
  rw [caFunc6, extractLsb'_field k (by decide)] at hk
  exact hk

theorem caFunc6_reserved (h4 : cFunc3 k = 4#3) (h3 : k.extractLsb' 10 2 = 3#2) :
    caFunc6 k = 0x27#6 ↔ bit12 k = 1#1 := by
  have h : ∀ x : BitVec 6, x.extractLsb' 3 3 = 4#3 → x.extractLsb' 0 2 = 3#2 →
      (x = 0x27#6 ↔ x.extractLsb' 2 1 = 1#1) := by decide
  have hk := h (caFunc6 k)
  rw [caFunc6, extractLsb'_field k (by decide), extractLsb'_field k (by decide),
    extractLsb'_field k (by decide)] at hk
  exact hk h4 h3

theorem decodeCa_eq (h4 : cFunc3 k = 4#3) (hl : ¬ longShift k) :
    decodeCa k = wordOf (meaningAlu k) := by
  obtain ⟨e0, e1, e2⟩ := caFunc6_low k
  have hb : k.extractLsb' 10 2 = 0#2 ∨ k.extractLsb' 10 2 = 1#2 → ¬ bit12 k = 1#1 :=
    fun ho hb => hl ⟨h4, ho.imp e0.mpr e1.mpr, hb⟩
  unfold decodeCa meaningAlu
  simp only [cRs1'_eq, cRd'_eq]
  by_cases o0 : k.extractLsb' 10 2 = 0#2
  · rw [if_pos (e0.mpr o0), if_pos o0, if_neg (hb (Or.inl o0))]
    rfl
  rw [if_neg fun h => o0 (e0.mp h), if_neg o0]
  by_cases o1 : k.extractLsb' 10 2 = 1#2
  · rw [if_pos (e1.mpr o1), if_pos o1, if_neg (hb (Or.inr o1))]
    rfl
  rw [if_neg fun h => o1 (e1.mp h), if_neg o1]
  by_cases o2 : k.extractLsb' 10 2 = 2#2
  · rw [if_pos (e2.mpr o2), if_pos o2, ← cRs1'_eq, word_andi, cRs1'_eq]
    rfl
  have o3 : k.extractLsb' 10 2 = 3#2 := by
    have hall : ∀ x : BitVec 2, ¬ x = 0#2 → ¬ x = 1#2 → ¬ x = 2#2 → x = 3#2 := by decide
    exact hall _ o0 o1 o2
  have hr := caFunc6_reserved k h4 o3
  rw [if_neg fun h => o2 (e2.mp h), if_neg o2]
  by_cases hc : bit12 k = 1#1
  · rw [if_pos (hr.mpr hc), if_pos hc]
    rfl
  rw [if_neg fun h => hc (hr.mp h), if_neg hc]
  change (if k.extractLsb' 5 2 = 0#2 then _ else if k.extractLsb' 5 2 = 1#2 then _ else
    if k.extractLsb' 5 2 = 2#2 then _ else _) = _
  split_ifs <;> rfl

theorem imm6_eq_zero_iff :
    (ciImmH k ≠ 0#1 ∨ cImmL k ≠ 0#5) ↔ ¬ imm6 k = 0#6 := by
  have h : ∀ (b : BitVec 1) (l : BitVec 5), (b ≠ 0#1 ∨ l ≠ 0#5) ↔ ¬ b ++ l = 0#6 := by decide
  exact h _ _

theorem decodeC1_eq (hx : ¬ toX0 k) (hl : ¬ longShift k) : decodeC1 k = wordOf (meaning1 k) := by
  have hrd : cFunc3 k = 0#3 ∨ cFunc3 k = 2#3 ∨ cFunc3 k = 3#3 → ¬ cRd k = 0#5 :=
    fun hf h0 => hx ⟨hf, h0⟩
  have hz := imm6_eq_zero_iff k
  unfold decodeC1 meaning1
  rw [show Riscv.Compressed.funct3 k = cFunc3 k from rfl,
    show Riscv.Compressed.rd k = cRd k from rfl]
  rcases Bits.cases3 (cFunc3 k) with h | h | h | h | h | h | h | h
  · rw [if_pos h, if_pos h, if_neg (hrd (Or.inl h)), word_addi]
    rfl
  · simp only [h, word_jal]
    rfl
  · simp only [h, if_neg (hrd (Or.inr (Or.inl h))), word_addi]
    rfl
  · have hne : ¬ cRd k = 0#5 := hrd (Or.inr (Or.inr h))
    simp only [h, word_addi16sp, word_lui, if_pos hne]
    by_cases hi : imm6 k = 0#6
    · rw [if_neg fun hc => hz.mp hc hi, if_neg fun hc => hz.mp hc hi]
      simp [hi, wordOf]
    · rw [if_pos (hz.mpr hi), if_pos (hz.mpr hi)]
      by_cases h2 : cRd k = 2#5
      · simp [hi, h2, wordOf]
      · simp [hi, h2, wordOf]
  · simp only [h, decodeCa_eq k h hl]
    rfl
  · simp only [h, word_jal]
    rfl
  · have hw := word_branch k .eq
    rw [show Riscv.Cond.eq.funct3 = opBeq from rfl] at hw
    simp only [h, hw]
    rfl
  · have hw := word_branch k .ne
    rw [show Riscv.Cond.ne.funct3 = opBne from rfl] at hw
    simp only [h, hw]
    rfl

/-- Where the destination is `x0` the decoder makes a NOP of the instruction. -/
theorem decodeC1_x0 (hx : toX0 k) : decodeC1 k = some cNop := by
  obtain ⟨h | h | h, h0⟩ := hx
  · simp [decodeC1, h, h0]
  · simp [decodeC1, h, h0]
  · have h2 : ¬ cRd k = 2#5 := by
      rw [h0]
      decide
    simp [decodeC1, h, h0]

/-- The decoder drops `shamt[5]`. -/
theorem decodeC1_longShift (hl : longShift k) : ∃ op : Riscv.ShiftOp,
    decodeC1 k = some (Instr.shiftImm op (highReg k) (highReg k) (cImmL k)).encode := by
  obtain ⟨h4, h | h, -⟩ := hl
  · refine ⟨.srl, ?_⟩
    rw [← cRs1'_eq]
    simp [decodeC1, h4, decodeCa, h]
    rfl
  · refine ⟨.sra, ?_⟩
    rw [← cRs1'_eq]
    simp [decodeC1, h4, decodeCa, h]
    rfl

theorem decodeC2_eq : decodeC2 k = wordOf (meaning2 k) := by
  have hb : ciImmH k = 0#1 ∨ ciImmH k = 1#1 := by
    have : ∀ b : BitVec 1, b = 0#1 ∨ b = 1#1 := by decide
    exact this _
  unfold decodeC2 meaning2
  rw [show Riscv.Compressed.funct3 k = cFunc3 k from rfl,
    show Riscv.Compressed.rd k = cRd k from rfl, show Riscv.Compressed.rs2 k = cImmL k from rfl,
    show bit12 k = ciImmH k from rfl]
  rcases Bits.cases3 (cFunc3 k) with h | h | h | h | h | h | h | h
  · rcases hb with hb | hb
    · simp only [h, hb]
      rfl
    · simp only [h, hb]
      rfl
  · simp only [h]
    rfl
  · simp only [h, word_lwsp]
    by_cases h0 : cRd k = 0#5
    · simp [h0, wordOf]
    · simp [h0, wordOf]
  · simp only [h]
    rfl
  · rcases hb with hb | hb <;> by_cases h0 : cRd k = 0#5 <;> by_cases hs : cImmL k = 0#5 <;>
      simp [h, hb, h0, hs, wordOf] <;> rfl
  · simp only [h]
    rfl
  · simp only [h, word_swsp]
    rfl
  · simp only [h]
    rfl

/-! Halfwords. -/

/-- The halfwords the decoder treats in its own way. -/
def special : Prop := cOp k = 1#2 ∧ (toX0 k ∨ longShift k)

theorem compressedDecoder_eq (hq : cOp k ≠ 3#2) (hs : ¬ special k) (inst : Word) :
    compressedDecoder k inst =
      ⟨true, (wordOf (meaning k)).getD 0#32, (wordOf (meaning k)).isNone⟩ := by
  have hcases : ∀ x : BitVec 2, x ≠ 3#2 → x = 0#2 ∨ x = 1#2 ∨ x = 2#2 := by decide
  unfold compressedDecoder meaning
  rw [if_neg hq, show Riscv.Compressed.quadrant k = cOp k from rfl]
  rcases hcases _ hq with h | h | h
  · simp only [h, decodeC0_eq]
    rfl
  · rw [special, not_and, not_or] at hs
    obtain ⟨hx, hl⟩ := hs h
    simp only [h, decodeC1_eq k hx hl]
    rfl
  · simp only [h, decodeC2_eq]
    rfl

theorem compressedDecoder_x0 (hq : cOp k = 1#2) (hx : toX0 k) (inst : Word) :
    compressedDecoder k inst = ⟨true, (Instr.opImm .addi 0#5 0#5 0#12).encode, false⟩ := by
  simp only [compressedDecoder, hq, decodeC1_x0 k hx]
  rfl

theorem compressedDecoder_longShift (hq : cOp k = 1#2) (hl : longShift k) :
    ∃ op : Riscv.ShiftOp, ∀ inst, compressedDecoder k inst =
      ⟨true, (Instr.shiftImm op (highReg k) (highReg k) (cImmL k)).encode, false⟩ := by
  obtain ⟨op, h⟩ := decodeC1_longShift k hl
  refine ⟨op, fun inst => ?_⟩
  simp only [compressedDecoder, hq, h]
  rfl

theorem meaning_one (hq : cOp k = 1#2) : meaning k = meaning1 k := by
  simp only [meaning, show Riscv.Compressed.quadrant k = 1#2 from hq]
  rfl

theorem meaning_longShift (hq : cOp k = 1#2) (hl : longShift k) : meaning k = .undefined := by
  obtain ⟨h4, h, hb⟩ := hl
  obtain ⟨e0, e1, -⟩ := caFunc6_low k
  rw [e0, e1] at h
  rw [meaning_one k hq]
  simp only [meaning1, show Riscv.Compressed.funct3 k = 4#3 from h4, meaningAlu,
    show bit12 k = 1#1 from hb]
  rcases h with h | h
  · rw [h]
    rfl
  · rw [h]
    rfl

/-- What stands for a write to `x0`: C.LUI with a zero immediate is reserved, the rest only moves
the pc. -/
theorem meaning_x0 (hq : cOp k = 1#2) (hx : toX0 k) :
    (cFunc3 k = 3#3 ∧ imm6 k = 0#6 ∧ meaning k = .undefined) ∨
      ∃ i, meaning k = .instr i ∧ ¬ (cFunc3 k = 3#3 ∧ imm6 k = 0#6) ∧
        (∀ len s, i.step len s = (Instr.opImm .addi 0#5 0#5 0#12).step len s) ∧
        (∀ s, i.access s = none) ∧ i.isJump = false ∧ i.isM = false := by
  have hset : ∀ (s : Riscv.Machine) v, s.set 0#5 v = s := by
    intro s v
    apply Riscv.Machine.ext
    · rfl
    · exact Riscv.Compressed.set_zero s v
    · rfl
  obtain ⟨h, h0⟩ := hx
  have h0' : Riscv.Compressed.rd k = 0#5 := h0
  rw [meaning_one k hq]
  rcases h with h | h | h
  · right
    refine ⟨.opImm .addi 0#5 0#5 ((imm6 k).signExtend 12), ?_, by simp [h], fun len s => ?_,
      fun _ => rfl, rfl, rfl⟩
    · simp [meaning1, show Riscv.Compressed.funct3 k = 0#3 from h, h0']
    · simp only [Instr.step, hset]
  · right
    refine ⟨.opImm .addi 0#5 0#5 ((imm6 k).signExtend 12), ?_, by simp [h], fun len s => ?_,
      fun _ => rfl, rfl, rfl⟩
    · simp [meaning1, show Riscv.Compressed.funct3 k = 2#3 from h, h0']
    · simp only [Instr.step, hset]
  · by_cases hi : imm6 k = 0#6
    · exact Or.inl ⟨h, hi, by simp [meaning1, show Riscv.Compressed.funct3 k = 3#3 from h, hi]⟩
    · right
      refine ⟨.lui 0#5 ((imm6 k).signExtend 20), ?_, by simp [hi], fun len s => ?_,
        fun _ => rfl, rfl, rfl⟩
      · simp [meaning1, show Riscv.Compressed.funct3 k = 3#3 from h, hi, h0']
      · simp only [Instr.step, hset]

/-- No compressed instruction is of the M extension. -/
def NotM (m : Meaning) : Prop := ∀ i, m = .instr i → i.isM = false

theorem notM_instr {i : Instr} (h : i.isM = false) : NotM (.instr i) := by
  rintro _ ⟨⟩
  exact h

theorem notM_ite {p : Prop} [Decidable p] {a b : Meaning} (ha : NotM a) (hb : NotM b) :
    NotM (if p then a else b) := by
  split_ifs
  · exact ha
  · exact hb

theorem meaning_notM : NotM (meaning k) := by
  have hu : NotM .undefined := fun i h => by cases h
  have he : NotM .ebreak := fun i h => by cases h
  unfold meaning meaning0 meaning1 meaningAlu meaning2
  repeat' first
    | exact hu
    | exact he
    | exact notM_instr rfl
    | apply notM_ite

end Srv32.Iss
