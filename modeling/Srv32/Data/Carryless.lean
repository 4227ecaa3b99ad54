import Srv32.Bits
import Mathlib.Algebra.Polynomial.Coeff
import Mathlib.Algebra.Field.ZMod

/-! Words as polynomials over GF(2). Exclusive or is their sum, and a loop that adds a shifted copy
of one word for every set bit of another computes a slice of their product. -/

namespace Srv32.Carryless
open Polynomial

variable {w v n : ℕ}

def bit (b : Bool) : ZMod 2 := if b then 1 else 0

/-- The polynomial whose coefficients are the bits of `x`. -/
noncomputable def poly (x : BitVec w) : (ZMod 2)[X] :=
  ∑ i ∈ Finset.range w, C (bit (x.getLsbD i)) * X ^ i

/-- Bit `k` of `a` shifted up by `i`, at no fixed width. -/
def shifted (a : BitVec w) (i k : ℕ) : Bool := decide (i ≤ k) && a.getLsbD (k - i)

/-- The loop: `term i` is added when bit `i` of `b` is set. -/
def xorLoop (is : List ℕ) (b : BitVec w) (term : ℕ → BitVec v) : BitVec v :=
  is.foldl (fun n i => if b.getLsbD i then n ^^^ term i else n) 0#v

theorem bit_xor (a b : Bool) : bit (a ^^ b) = bit a + bit b := by
  cases a <;> cases b <;> decide

theorem bit_and (a b : Bool) : bit (a && b) = bit a * bit b := by
  cases a <;> cases b <;> decide

theorem bit_injective : Function.Injective bit := by
  intro a b h
  revert a b
  decide

theorem coeff_poly (x : BitVec w) (k : ℕ) : (poly x).coeff k = bit (x.getLsbD k) := by
  simp only [poly, finsetSum_coeff, coeff_C_mul_X_pow]
  rw [Finset.sum_ite_eq]
  by_cases hk : k < w
  · rw [if_pos (Finset.mem_range.mpr hk)]
  · rw [if_neg (by simpa using hk), BitVec.getLsbD_of_ge x k (by omega)]
    rfl

theorem poly_injective : Function.Injective (poly : BitVec w → (ZMod 2)[X]) := by
  intro x y h
  apply BitVec.eq_of_getLsbD_eq
  intro i _
  apply bit_injective
  rw [← coeff_poly, ← coeff_poly, h]

/-- Coefficient `k` of a product collects the copies of `a` that reach position `k`. -/
theorem coeff_mul (a : BitVec v) (b : BitVec w) (k : ℕ) :
    (poly a * poly b).coeff k =
      ∑ i ∈ Finset.range w, bit (b.getLsbD i && shifted a i k) := by
  conv_lhs => rw [poly.eq_def b]
  rw [Finset.mul_sum, finsetSum_coeff]
  apply Finset.sum_congr rfl
  intro i _
  rw [mul_left_comm, coeff_C_mul, coeff_mul_X_pow', coeff_poly, shifted, bit_and, bit_and]
  by_cases hi : i ≤ k <;> simp [hi, bit]

/-- What the loop leaves in bit `j` is the sum of what its rounds add there. -/
theorem bit_xorLoop (is : List ℕ) (b : BitVec w) (term : ℕ → BitVec v) (j : ℕ) :
    bit ((xorLoop is b term).getLsbD j) =
      (is.map fun i => bit (b.getLsbD i && (term i).getLsbD j)).sum := by
  have h : ∀ acc : BitVec v,
      bit ((is.foldl (fun n i => if b.getLsbD i then n ^^^ term i else n) acc).getLsbD j) =
        bit (acc.getLsbD j) + (is.map fun i => bit (b.getLsbD i && (term i).getLsbD j)).sum := by
    induction is with
    | nil => simp
    | cons i is ih =>
      intro acc
      rw [List.foldl_cons, ih, List.map_cons, List.sum_cons, ← add_assoc]
      congr 1
      cases b.getLsbD i with
      | false => simp [bit]
      | true => rw [if_pos rfl, BitVec.getLsbD_xor, bit_xor, Bool.true_and]
  rw [xorLoop, h, BitVec.getLsbD_zero]
  exact zero_add _

/-- The loop computes the coefficients from `off` on when each round adds the copy of `a` that
belongs to it, and the rounds left out have nothing to add. -/
theorem xorLoop_slice {is : List ℕ} {a : BitVec n} {b : BitVec w} (term : ℕ → BitVec v) (off j : ℕ)
    (hnd : is.Nodup) (hsub : ∀ i ∈ is, i < w)
    (hterm : ∀ i ∈ is, (term i).getLsbD j = shifted a i (off + j))
    (hrest : ∀ i < w, i ∉ is → shifted a i (off + j) = false) :
    bit ((xorLoop is b term).getLsbD j) = (poly a * poly b).coeff (off + j) := by
  rw [bit_xorLoop, coeff_mul, ← List.sum_toFinset _ hnd]
  have hle : is.toFinset ⊆ Finset.range w := by
    intro i hi
    exact Finset.mem_range.mpr (hsub i (List.mem_toFinset.mp hi))
  rw [← Finset.sum_subset hle]
  · apply Finset.sum_congr rfl
    intro i hi
    rw [hterm i (List.mem_toFinset.mp hi)]
  · intro i hi hni
    rw [hrest i (Finset.mem_range.mp hi) (by simpa using hni), Bool.and_false]
    rfl

/-- The product of two words, one bit shorter than both together. -/
def product (a b : BitVec w) : BitVec (2 * w - 1) :=
  xorLoop (List.range w) b fun i => a.setWidth (2 * w - 1) <<< i

theorem poly_product (a b : BitVec w) : poly (product a b) = poly a * poly b := by
  ext k
  rw [coeff_poly]
  by_cases hk : k < 2 * w - 1
  · have hk0 : (poly a * poly b).coeff k = (poly a * poly b).coeff (0 + k) := by
      rw [Nat.zero_add]
    rw [hk0]
    apply xorLoop_slice _ 0 k List.nodup_range
    · exact fun i hi => List.mem_range.mp hi
    · intro i _
      have hki : k - i < 2 * w - 1 := by omega
      rw [Nat.zero_add, shifted, BitVec.getLsbD_shiftLeft, BitVec.getLsbD_setWidth]
      by_cases h : i ≤ k
      · simp [h, hk, hki, Nat.not_lt.mpr h]
      · simp [h, Nat.lt_of_not_le h]
    · exact fun i hi hni => absurd (List.mem_range.mpr hi) hni
  · rw [BitVec.getLsbD_of_ge _ k (by omega), coeff_mul]
    symm
    apply Finset.sum_eq_zero
    intro i hi
    have hi' := Finset.mem_range.mp hi
    rw [shifted, BitVec.getLsbD_of_ge a (k - i) (by omega)]
    simp [bit]

theorem product_comm (a b : BitVec w) : product a b = product b a := by
  apply poly_injective
  rw [poly_product, poly_product, mul_comm]

theorem bit_product (a b : BitVec w) (k : ℕ) :
    bit ((product a b).getLsbD k) = (poly a * poly b).coeff k := by
  rw [← coeff_poly, poly_product]

end Srv32.Carryless
