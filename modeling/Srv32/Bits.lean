import Mathlib.Tactic.IntervalCases
import Mathlib.Tactic.Push

/-! Facts about fixed-width words: low bits as remainders, masks, and concatenations. -/

namespace Srv32.Bits

variable {w : ℕ}

theorem cases3 (x : BitVec 3) : x = 0#3 ∨ x = 1#3 ∨ x = 2#3 ∨ x = 3#3 ∨ x = 4#3 ∨ x = 5#3 ∨
    x = 6#3 ∨ x = 7#3 := by
  revert x
  decide

theorem testBit_zero (x : BitVec w) : x.getLsbD 0 = decide (x.toNat % 2 = 1) := by
  simp only [BitVec.getLsbD, Nat.testBit_zero]

theorem testBit_one (x : BitVec w) : x.getLsbD 1 = decide (x.toNat / 2 % 2 = 1) := by
  simp only [BitVec.getLsbD, Nat.testBit_succ, Nat.testBit_zero]

/-- A mask of the low bits leaves the remainder. -/
theorem toNat_and_lowMask (x : BitVec w) (k : ℕ) (hk : k ≤ w) :
    (x &&& BitVec.ofNat w (2 ^ k - 1)).toNat = x.toNat % 2 ^ k := by
  rcases Nat.eq_zero_or_pos k with rfl | hpos
  · simp [Nat.mod_one]
  · have hlt : 2 ^ k - 1 < 2 ^ w :=
      Nat.lt_of_lt_of_le (Nat.sub_lt (by positivity) (by omega))
        (Nat.pow_le_pow_right (by omega) hk)
    rw [BitVec.toNat_and, BitVec.toNat_ofNat, Nat.mod_eq_of_lt hlt,
      Nat.and_two_pow_sub_one_eq_mod]

theorem and_lowMask_eq_zero (x : BitVec w) (k : ℕ) (hk : k ≤ w) :
    x &&& BitVec.ofNat w (2 ^ k - 1) = 0#w ↔ x.toNat % 2 ^ k = 0 := by
  rw [← toNat_and_lowMask x k hk]
  constructor
  · intro h
    simp [h]
  · intro h
    exact BitVec.eq_of_toNat_eq (by simpa using h)

theorem and_one_eq_zero (x : BitVec 32) : x &&& 1#32 = 0#32 ↔ x.toNat % 2 = 0 :=
  and_lowMask_eq_zero x 1 (by decide)

theorem and_three_eq_zero (x : BitVec 32) : x &&& 3#32 = 0#32 ↔ x.toNat % 4 = 0 :=
  and_lowMask_eq_zero x 2 (by decide)

/-- The two low bits are clear exactly when the word is a multiple of four. -/
theorem lowBits_or (x : BitVec 32) :
    (x.getLsbD 0 || x.getLsbD 1) = decide (x.toNat % 4 ≠ 0) := by
  rw [testBit_zero, testBit_one]
  by_cases h : x.toNat % 4 ≠ 0
  · rw [decide_eq_true h, Bool.or_eq_true, decide_eq_true_eq, decide_eq_true_eq]
    omega
  · rw [decide_eq_false h, Bool.or_eq_false_iff, decide_eq_false_iff_not, decide_eq_false_iff_not]
    omega

theorem clearBit0_eq_and (x : BitVec 32) : x.extractLsb' 1 31 ++ 0#1 = x &&& ~~~1#32 := by
  apply BitVec.eq_of_getLsbD_eq
  intro i hi
  simp only [BitVec.getLsbD_append, BitVec.getLsbD_extractLsb', BitVec.getLsbD_and,
    BitVec.getLsbD_not, BitVec.getLsbD_one]
  rcases i with _ | i
  · simp
  · have h1 : ¬ i + 1 < 1 := by omega
    have h2 : i < 31 := by omega
    simp [h1, h2, hi, Nat.add_comm 1 i]

theorem toNat_clearBit0 (x : BitVec 32) : (x &&& ~~~1#32).toNat = x.toNat / 2 * 2 := by
  rw [← clearBit0_eq_and, BitVec.toNat_append]
  simp only [BitVec.extractLsb'_toNat, BitVec.toNat_ofNat, Nat.zero_mod, Nat.or_zero,
    Nat.shiftLeft_eq, Nat.shiftRight_eq_div_pow, pow_one]
  have := x.isLt
  omega

theorem clearBit0_of_even {x : BitVec 32} (h : x.toNat % 2 = 0) : x &&& ~~~1#32 = x := by
  apply BitVec.eq_of_toNat_eq
  rw [toNat_clearBit0]
  omega

theorem getLsbD_one_shiftLeft {n i : ℕ} (h : i ≠ n) : (1#32 <<< n).getLsbD i = false := by
  simp only [BitVec.getLsbD_shiftLeft, BitVec.getLsbD_one]
  by_cases hlt : i < n
  · simp [hlt]
  · simp [show i - n ≠ 0 by omega]

theorem and_bit_ne_zero (x : BitVec 32) {n : ℕ} (hn : n < 32) :
    x &&& 1#32 <<< n ≠ 0#32 ↔ x.getLsbD n = true := by
  constructor
  · intro h
    by_contra hb
    apply h
    apply BitVec.eq_of_getLsbD_eq
    intro i hi
    simp only [BitVec.getLsbD_and, BitVec.getLsbD_shiftLeft, BitVec.getLsbD_one, hi, decide_true,
      Bool.true_and, BitVec.getLsbD_zero]
    by_cases hin : i = n
    · subst hin
      simp [hb]
    · have : ¬ (¬ i < n ∧ i - n = 0) := by omega
      simp only [not_and_or, not_not] at this
      rcases this with h1 | h1 <;> simp [h1]
  · intro h h0
    have hb : (x &&& 1#32 <<< n).getLsbD n = true := by
      simp [h, hn]
    rw [h0] at hb
    simp at hb

/-- Merging a whole word under a mask differs from merging its part, unless the rest of it is set
in the old word. -/
theorem merge_eq_iff (old v m : BitVec 32) :
    old &&& ~~~m ||| v = old &&& ~~~m ||| v &&& m ↔ v &&& ~~~m &&& ~~~old = 0#32 := by
  have key : ∀ i, i < 32 →
      ((old &&& ~~~m ||| v).getLsbD i = (old &&& ~~~m ||| v &&& m).getLsbD i ↔
        (v &&& ~~~m &&& ~~~old).getLsbD i = false) := by
    intro i hi
    simp only [BitVec.getLsbD_or, BitVec.getLsbD_and, BitVec.getLsbD_not, hi, decide_true,
      Bool.true_and]
    cases v.getLsbD i <;> cases m.getLsbD i <;> cases old.getLsbD i <;> decide
  constructor
  · intro h
    apply BitVec.eq_of_getLsbD_eq
    intro i hi
    rw [BitVec.getLsbD_zero]
    apply (key i hi).mp
    rw [h]
  · intro h
    apply BitVec.eq_of_getLsbD_eq
    intro i hi
    apply (key i hi).mpr
    rw [h, BitVec.getLsbD_zero]

/-- Sign extension as C writes it: fill the high bits when the sign bit is set. -/
theorem signFill {k : ℕ} (v : BitVec k) (hk : 0 < k) (hk32 : k ≤ 32) :
    (if v.setWidth 32 &&& 1#32 <<< (k - 1) ≠ 0#32 then v.setWidth 32 ||| ~~~0#32 <<< k
      else v.setWidth 32) = v.signExtend 32 := by
  have hm : v.msb = v.getLsbD (k - 1) := BitVec.msb_eq_getLsbD_last v
  apply BitVec.eq_of_getLsbD_eq
  intro i hi
  rw [BitVec.getLsbD_signExtend, hm]
  by_cases hs : v.setWidth 32 &&& 1#32 <<< (k - 1) ≠ 0#32
  · have hb := (and_bit_ne_zero _ (by omega)).mp hs
    rw [if_pos hs]
    simp only [BitVec.getLsbD_setWidth, Bool.and_eq_true, decide_eq_true_eq] at hb
    by_cases hik : i < k
    · simp [hi, hik]
    · have hf : (~~~0#32 <<< k).getLsbD i = true := by
        rw [BitVec.getLsbD_shiftLeft, BitVec.getLsbD_not, BitVec.getLsbD_zero]
        simp [hi, hik]
        omega
      rw [BitVec.getLsbD_or, hf, Bool.or_true]
      simp [hi, hik, hb.2]
  · have hb : ¬ v.getLsbD (k - 1) = true := by
      intro hb
      exact hs ((and_bit_ne_zero _ (by omega)).mpr (by simp [hb]; omega))
    rw [if_neg hs]
    by_cases hik : i < k
    · simp [hi, hik]
    · rw [Bool.not_eq_true] at hb
      simp [hi, hik, hb]
      exact BitVec.getLsbD_of_ge v i (by omega)

/-- A word is its own low part when it has no higher bits. -/
theorem eq_low_iff (v : BitVec 32) {k : ℕ} (hk : k ≤ 32) :
    v = (v.extractLsb' 0 k).setWidth 32 ↔ v.toNat < 2 ^ k := by
  have hlow : ((v.extractLsb' 0 k).setWidth 32).toNat = v.toNat % 2 ^ k := by
    have hle : 2 ^ k ≤ 2 ^ 32 := Nat.pow_le_pow_right (by omega) hk
    have hlt : v.toNat % 2 ^ k < 2 ^ k := Nat.mod_lt _ (by positivity)
    rw [BitVec.toNat_setWidth, BitVec.extractLsb'_toNat, Nat.shiftRight_zero]
    exact Nat.mod_eq_of_lt (by omega)
  constructor
  · intro h
    rw [h, hlow]
    exact Nat.mod_lt _ (by positivity)
  · intro h
    apply BitVec.eq_of_toNat_eq
    rw [hlow, Nat.mod_eq_of_lt h]

/-- Filling the high bits sign-extends the low part when the sign is set, or nothing is above. -/
theorem fill_eq_iff (v : BitVec 32) {k : ℕ} (hk : 0 < k) (hk32 : k ≤ 32) :
    (if v &&& 1#32 <<< (k - 1) ≠ 0#32 then v ||| ~~~0#32 <<< k else v) =
        (v.extractLsb' 0 k).signExtend 32 ↔ (v.getLsbD (k - 1) = false → v.toNat < 2 ^ k) := by
  have hbit : v &&& 1#32 <<< (k - 1) ≠ 0#32 ↔ v.getLsbD (k - 1) = true :=
    and_bit_ne_zero v (by omega)
  have hmsb : (v.extractLsb' 0 k).msb = v.getLsbD (k - 1) := by
    rw [BitVec.msb_eq_getLsbD_last, BitVec.getLsbD_extractLsb', Nat.zero_add]
    simp [hk]
  cases hs : v.getLsbD (k - 1) with
  | true =>
    rw [if_pos (hbit.mpr hs)]
    refine iff_of_true ?_ (by simp)
    apply BitVec.eq_of_getLsbD_eq
    intro i hi
    rw [BitVec.getLsbD_signExtend, hmsb, hs, BitVec.getLsbD_or, BitVec.getLsbD_shiftLeft,
      BitVec.getLsbD_not, BitVec.getLsbD_zero, BitVec.getLsbD_extractLsb', Nat.zero_add]
    by_cases hik : i < k
    · simp [hi, hik]
    · have h32 : i - k < 32 := by omega
      simp [hi, hik, h32]
  | false =>
    rw [if_neg (by rw [hbit, hs]; simp), BitVec.signExtend_eq_setWidth_of_msb_false (hmsb.trans hs),
      eq_low_iff v hk32]
    simp

/-- The sign of the difference of two words widened by a bit compares them. -/
theorem sub_signExtend_msb (a b : BitVec 32) :
    (a.signExtend 33 - b.signExtend 33).getLsbD 32 = a.slt b := by
  have hm : (a.signExtend 33 - b.signExtend 33).getLsbD 32 =
      (a.signExtend 33 - b.signExtend 33).msb := (BitVec.msb_eq_getLsbD_last _).symm
  have ha := BitVec.toInt_lt (x := a)
  have hb := BitVec.toInt_lt (x := b)
  have ha' := BitVec.le_toInt (x := a)
  have hb' := BitVec.le_toInt (x := b)
  rw [hm, BitVec.msb_eq_toInt, BitVec.toInt_sub, BitVec.toInt_signExtend_of_le (by decide),
    BitVec.toInt_signExtend_of_le (by decide), BitVec.slt]
  congr 1
  rw [Int.bmod_eq_of_le (by omega) (by omega)]
  exact propext (by omega)

theorem sub_setWidth_msb (a b : BitVec 32) :
    (a.setWidth 33 - b.setWidth 33).getLsbD 32 = a.ult b := by
  have hm : (a.setWidth 33 - b.setWidth 33).getLsbD 32 =
      (a.setWidth 33 - b.setWidth 33).msb := (BitVec.msb_eq_getLsbD_last _).symm
  have ha := a.isLt
  have hb := b.isLt
  rw [hm, BitVec.msb_eq_decide, BitVec.toNat_sub, BitVec.toNat_setWidth, BitVec.toNat_setWidth,
    BitVec.ult]
  congr 1
  exact propext (by omega)

theorem sub_signExtend_eq_zero (a b : BitVec 32) :
    (a.signExtend 33 - b.signExtend 33 = 0#33) ↔ a = b := by
  constructor
  · intro h
    have h' : a.signExtend 33 = b.signExtend 33 := by
      have := congrArg (· + b.signExtend 33) h
      simpa only [BitVec.sub_add_cancel, BitVec.zero_add] using this
    have := congrArg BitVec.toInt h'
    rw [BitVec.toInt_signExtend_of_le (by decide),
      BitVec.toInt_signExtend_of_le (by decide)] at this
    exact BitVec.eq_of_toInt_eq this
  · rintro rfl
    simp


theorem setWidth_signExtend {v : ℕ} (x : BitVec w) (h : w ≤ v) :
    (x.signExtend v).setWidth w = x := by
  apply BitVec.eq_of_getLsbD_eq
  intro i hi
  simp only [BitVec.getLsbD_setWidth, BitVec.getLsbD_signExtend, hi, decide_true, Bool.true_and,
    if_true, Nat.lt_of_lt_of_le hi h]

theorem mul_low (a b : BitVec 32) :
    (a.signExtend 64 * b.signExtend 64).extractLsb' 0 32 = a * b := by
  rw [← BitVec.setWidth_eq_extractLsb' (by decide), BitVec.setWidth_mul _ _ (by decide),
    setWidth_signExtend a (by decide), setWidth_signExtend b (by decide)]

theorem low_ofInt (z : Int) : (BitVec.ofInt 64 z).extractLsb' 0 32 = BitVec.ofInt 32 z := by
  rw [← BitVec.setWidth_eq_extractLsb' (by decide)]
  apply BitVec.eq_of_toNat_eq
  simp only [BitVec.toNat_setWidth, BitVec.toNat_ofInt]
  omega

theorem sdiv_eq_ofInt (a b : BitVec w) : a.sdiv b = BitVec.ofInt w (a.toInt.tdiv b.toInt) := by
  apply BitVec.eq_of_toInt_eq
  rw [BitVec.toInt_sdiv, BitVec.toInt_ofInt]

theorem srem_eq_ofInt (a b : BitVec w) : a.srem b = BitVec.ofInt w (a.toInt.tmod b.toInt) := by
  rw [← BitVec.toInt_srem, BitVec.ofInt_toInt]

theorem sdiv_wide (a b : BitVec 32) :
    ((a.signExtend 64).sdiv (b.signExtend 64)).extractLsb' 0 32 = a.sdiv b := by
  rw [sdiv_eq_ofInt, sdiv_eq_ofInt, low_ofInt, BitVec.toInt_signExtend_of_le (by decide),
    BitVec.toInt_signExtend_of_le (by decide)]

theorem srem_wide (a b : BitVec 32) :
    ((a.signExtend 64).srem (b.signExtend 64)).extractLsb' 0 32 = a.srem b := by
  rw [srem_eq_ofInt, srem_eq_ofInt, low_ofInt, BitVec.toInt_signExtend_of_le (by decide),
    BitVec.toInt_signExtend_of_le (by decide)]

theorem high_ofInt (z : Int) :
    (BitVec.ofInt 64 z).extractLsb' 32 32 = BitVec.ofInt 32 (z / 2 ^ 32) := by
  apply BitVec.eq_of_toNat_eq
  simp only [BitVec.extractLsb'_toNat, BitVec.toNat_ofInt, Nat.shiftRight_eq_div_pow]
  omega

theorem setWidth_eq_ofInt (a : BitVec 32) : a.setWidth 64 = BitVec.ofInt 64 a.toNat := by
  apply BitVec.eq_of_toNat_eq
  have := a.isLt
  simp only [BitVec.toNat_setWidth, BitVec.toNat_ofInt]
  omega

end Srv32.Bits
