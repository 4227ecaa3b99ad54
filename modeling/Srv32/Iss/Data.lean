import Srv32.Iss.Settle

/-! Guest memory inside its bounds: the index of an address, and the values of loads. -/

namespace Srv32.Iss

open Rv

theorem wordOfBytes_byteOfWord (w : Word) : wordOfBytes (byteOfWord w) = w := by
  apply BitVec.eq_of_getLsbD_eq
  intro i hi
  simp only [wordOfBytes, byteOfWord, BitVec.getLsbD_append, BitVec.getLsbD_extractLsb']
  rcases (by omega : i < 8 ∨ (8 ≤ i ∧ i < 16) ∨ (16 ≤ i ∧ i < 24) ∨ 24 ≤ i) with
    h | ⟨h, h'⟩ | ⟨h, h'⟩ | h
  · simp [h]
  · rw [if_neg (by omega), if_pos (by omega)]
    simp only [show i - 8 < 8 by omega, decide_true, Bool.true_and]
    congr 1
    omega
  · rw [if_neg (by omega), if_neg (by omega), if_pos (by omega)]
    simp only [show i - 8 - 8 < 8 by omega, decide_true, Bool.true_and]
    congr 1
    omega
  · rw [if_neg (by omega), if_neg (by omega), if_neg (by omega)]
    simp only [show i - 8 - 8 - 8 < 8 by omega, decide_true, Bool.true_and]
    congr 1
    omega

theorem lowBytes_one (b : ℕ → Byte) : lowBytes 1#32 b = (b 0).setWidth 32 := by
  have h : lowBytes 1#32 b = 0#8 ++ 0#8 ++ 0#8 ++ b 0 := rfl
  rw [h]
  apply BitVec.eq_of_toNat_eq
  have := (b 0).isLt
  simp only [BitVec.toNat_append, BitVec.toNat_setWidth, BitVec.toNat_ofNat, Nat.shiftLeft_eq]
  simp only [Nat.zero_mod, Nat.zero_mul, Nat.zero_or, Nat.or_self]
  omega

theorem lowBytes_two (b : ℕ → Byte) : lowBytes 2#32 b = (b 1 ++ b 0).setWidth 32 := by
  have h : lowBytes 2#32 b = 0#8 ++ 0#8 ++ b 1 ++ b 0 := rfl
  rw [h]
  apply BitVec.eq_of_getLsbD_eq
  intro i hi
  simp only [BitVec.getLsbD_append, BitVec.getLsbD_setWidth]
  rcases (by omega : i < 8 ∨ (8 ≤ i ∧ i < 16) ∨ 16 ≤ i) with h | ⟨h, h'⟩ | h
  · simp [h, hi]
  · rw [if_neg (by omega), if_pos (by omega), if_neg (by omega)]
    simp [hi]
  · have h1 : (b 1).getLsbD (i - 8) = false := BitVec.getLsbD_of_ge _ _ (by omega)
    rw [if_neg (by omega), if_neg (by omega)]
    simp [h1, show ¬ i < 8 by omega]

/-- The value each load makes of the bytes at its address. -/
theorem loadExtend_lowBytes (op : BitVec 3) (b : ℕ → Byte) :
    (op = opLb → loadExtend op (lowBytes 1#32 b) = (b 0).signExtend 32) ∧
    (op = opLh → loadExtend op (lowBytes 2#32 b) = (b 1 ++ b 0).signExtend 32) ∧
    (op = opLw → loadExtend op (lowBytes 4#32 b) = wordOfBytes b) ∧
    (op = opLbu → loadExtend op (lowBytes 1#32 b) = (b 0).setWidth 32) ∧
    (op = opLhu → loadExtend op (lowBytes 2#32 b) = (b 1 ++ b 0).setWidth 32) := by
  refine ⟨?_, ?_, ?_, ?_, ?_⟩ <;> rintro rfl
  · rw [lowBytes_one]
    exact Bits.signFill (b 0) (by decide) (by decide)
  · rw [lowBytes_two]
    exact Bits.signFill (b 1 ++ b 0) (by decide) (by decide)
  · rfl
  · exact lowBytes_one b
  · exact lowBytes_two b

namespace Rv

variable {rv : Rv} {host : Host}

/-- Memory starts at 0 and has `size` bytes. -/
structure Based (rv : Rv) (size : ℕ) : Prop where
  memBase : rv.memBase = 0#32
  memSize : rv.memSize = BitVec.ofNat 32 size
  small : size < 2 ^ 31

theorem offset_eq {size : ℕ} (h : rv.Based size) {a : Word} (ha : a.toNat < 2 ^ 31) :
    rv.offset a = (a.toNat : ℤ) := by
  rw [offset, h.memBase, BitVec.sub_zero, BitVec.toInt_eq_toNat_of_lt (by omega)]

theorem memOk_iff {size : ℕ} (h : rv.Based size) {a len : Word} (hl : len.toNat ≤ 4)
    (ha : a.toNat < 2 ^ 31 - 4) : rv.memOk a len = true ↔ a.toNat + len.toNat ≤ size := by
  have hs := h.small
  have hal : (a + len).toNat = a.toNat + len.toNat := by
    rw [BitVec.toNat_add]
    omega
  have hsz : (0#32 + BitVec.ofNat 32 size).toNat = size := by
    simp only [BitVec.toNat_add, BitVec.toNat_ofNat]
    omega
  rw [memOk, h.memBase, h.memSize]
  simp only [BitVec.slt, Bool.not_eq_true', Bool.or_eq_false_iff, decide_eq_false_iff_not]
  rw [BitVec.toInt_eq_toNat_of_lt (x := a) (by omega),
    BitVec.toInt_eq_toNat_of_lt (x := a + len) (by omega),
    BitVec.toInt_eq_toNat_of_lt (x := 0#32 + BitVec.ofNat 32 size) (by omega), hal, hsz]
  simp only [BitVec.toInt_zero]
  omega

theorem inRange_iff {size : ℕ} (h : rv.Based size) {pc : Word} (hp : pc.toNat < 2 ^ 31) :
    rv.InRange pc ↔ pc.toNat < size := by
  have hs := h.small
  have hsz : (0#32 + BitVec.ofNat 32 size).toNat = size := by
    simp only [BitVec.toNat_add, BitVec.toNat_ofNat]
    omega
  rw [InRange, h.memBase, h.memSize]
  simp only [BitVec.sle, BitVec.slt, decide_eq_true_eq]
  rw [BitVec.toInt_eq_toNat_of_lt (x := pc) (by omega),
    BitVec.toInt_eq_toNat_of_lt (x := 0#32 + BitVec.ofNat 32 size) (by omega), hsz]
  simp only [BitVec.toInt_zero]
  omega

theorem fetch_eq {size : ℕ} (h : rv.Based size) (hp : rv.pc.toNat + 4 ≤ size)
    (hp' : rv.pc.toNat < 2 ^ 31 - 4) :
    rv.fetch host = wordOfBytes fun i => rv.mem (rv.pc.toNat + i) := by
  have hm : rv.memOk rv.pc 4#32 = true :=
    (memOk_iff h (by decide) hp').mpr hp
  rw [fetch, readMem, if_pos hm, offset_eq h (by omega)]

end Rv

end Srv32.Iss
