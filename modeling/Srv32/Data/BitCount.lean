import Srv32.Bits
import Mathlib.Data.Finset.Card
import Mathlib.Data.Finset.Range
import Mathlib.Logic.Function.Iterate

/-! Counting the bits of a word: the leading zeros, the trailing zeros and the ones, and what
clearing or isolating the lowest set bit does to them. -/

namespace Srv32.BitCount

variable {w : ℕ}

/-- The number of zero bits before the first one, from the top. -/
def leadingZeros (x : BitVec w) : ℕ := ((List.range w).takeWhile fun i => !x.getMsbD i).length

/-- The number of zero bits before the first one, from the bottom. -/
def trailingZeros (x : BitVec w) : ℕ := ((List.range w).takeWhile fun i => !x.getLsbD i).length

def support (x : BitVec w) : Finset ℕ := (Finset.range w).filter fun i => x.getLsbD i = true

def ones (x : BitVec w) : ℕ := (support x).card

/-- `x` without its lowest set bit. -/
def clearLow (x : BitVec w) : BitVec w := x &&& (x - 1#w)

/-! The length of a run of zeros, in either direction. -/

/-- A run is as long as it can be: what it holds satisfies `p`, and the next element does not. -/
theorem length_takeWhile_range (p : ℕ → Bool) (n : ℕ) :
    ∃ t, ((List.range n).takeWhile p).length = t ∧ t ≤ n ∧ (∀ i < t, p i = true) ∧
      (t < n → p t = false) := by
  induction n with
  | zero => exact ⟨0, rfl, le_rfl, fun i hi => by omega, fun h => by omega⟩
  | succ n ih =>
    obtain ⟨t, hlen, hle, hrun, hstop⟩ := ih
    rw [List.range_succ, List.takeWhile_append, List.length_range, hlen]
    by_cases ht : t = n
    · rw [if_pos ht]
      by_cases hp : p n = true
      · refine ⟨n + 1, by simp [hp], le_rfl, fun i hi => ?_, fun h => by omega⟩
        rcases Nat.lt_succ_iff_lt_or_eq.mp hi with hi | rfl
        · exact hrun i (by omega)
        · exact hp
      · refine ⟨n, by simp [hp], by omega, fun i hi => hrun i (by omega), fun _ => ?_⟩
        simpa using hp
    · rw [if_neg ht]
      exact ⟨t, hlen, by omega, hrun, fun _ => hstop (by omega)⟩

/-- The run is the only length with these properties. -/
theorem length_takeWhile_range_eq_iff (p : ℕ → Bool) {n t : ℕ} :
    ((List.range n).takeWhile p).length = t ↔
      t ≤ n ∧ (∀ i < t, p i = true) ∧ (t < n → p t = false) := by
  obtain ⟨s, hs, hle, hrun, hstop⟩ := length_takeWhile_range p n
  rw [hs]
  constructor
  · rintro rfl
    exact ⟨hle, hrun, hstop⟩
  · intro ⟨htn, ht, htop⟩
    apply le_antisymm
    · by_contra h
      rw [hrun t (by omega)] at htop
      exact absurd (htop (by omega)) (by simp)
    · by_contra h
      have := hstop (by omega)
      rw [ht s (by omega)] at this
      simp at this

theorem leadingZeros_eq_iff {x : BitVec w} {t : ℕ} :
    leadingZeros x = t ↔
      t ≤ w ∧ (∀ i < t, x.getMsbD i = false) ∧ (t < w → x.getMsbD t = true) := by
  simpa [leadingZeros] using
    length_takeWhile_range_eq_iff (fun i => !x.getMsbD i) (n := w) (t := t)

theorem trailingZeros_eq_iff {x : BitVec w} {t : ℕ} :
    trailingZeros x = t ↔
      t ≤ w ∧ (∀ i < t, x.getLsbD i = false) ∧ (t < w → x.getLsbD t = true) := by
  simpa [trailingZeros] using
    length_takeWhile_range_eq_iff (fun i => !x.getLsbD i) (n := w) (t := t)

theorem leadingZeros_le (x : BitVec w) : leadingZeros x ≤ w := (leadingZeros_eq_iff.mp rfl).1

theorem trailingZeros_le (x : BitVec w) : trailingZeros x ≤ w := (trailingZeros_eq_iff.mp rfl).1

theorem getMsbD_of_lt_leadingZeros {x : BitVec w} {i : ℕ} (h : i < leadingZeros x) :
    x.getMsbD i = false :=
  (leadingZeros_eq_iff.mp rfl).2.1 i h

theorem getLsbD_of_lt_trailingZeros {x : BitVec w} {i : ℕ} (h : i < trailingZeros x) :
    x.getLsbD i = false :=
  (trailingZeros_eq_iff.mp rfl).2.1 i h

theorem getLsbD_trailingZeros {x : BitVec w} (h : trailingZeros x < w) :
    x.getLsbD (trailingZeros x) = true :=
  (trailingZeros_eq_iff.mp rfl).2.2 h

/-- Only the zero word has no one bit to stop the run. -/
theorem leadingZeros_lt {x : BitVec w} (h : x ≠ 0#w) : leadingZeros x < w := by
  apply lt_of_le_of_ne (leadingZeros_le x)
  intro heq
  apply h
  apply BitVec.eq_of_getMsbD_eq
  intro i hi
  rw [getMsbD_of_lt_leadingZeros (by omega), BitVec.getMsbD_zero]

theorem trailingZeros_lt {x : BitVec w} (h : x ≠ 0#w) : trailingZeros x < w := by
  apply lt_of_le_of_ne (trailingZeros_le x)
  intro heq
  apply h
  apply BitVec.eq_of_getLsbD_eq
  intro i hi
  rw [getLsbD_of_lt_trailingZeros (by omega), BitVec.getLsbD_zero]

@[simp] theorem leadingZeros_zero : leadingZeros (0#w) = w := by
  rw [leadingZeros_eq_iff]
  simp

@[simp] theorem trailingZeros_zero : trailingZeros (0#w) = w := by
  rw [trailingZeros_eq_iff]
  simp

/-- A shift by no more than the leading zeros takes them off the front. -/
theorem leadingZeros_shiftLeft {x : BitVec w} {k : ℕ} (hx : x ≠ 0#w) (hk : k ≤ leadingZeros x) :
    leadingZeros (x <<< k) = leadingZeros x - k := by
  have hlt := leadingZeros_lt hx
  rw [leadingZeros_eq_iff]
  refine ⟨by omega, fun i hi => ?_, fun _ => ?_⟩
  · rw [BitVec.getMsbD_shiftLeft]
    exact getMsbD_of_lt_leadingZeros (by omega)
  · rw [BitVec.getMsbD_shiftLeft, Nat.sub_add_cancel hk]
    exact (leadingZeros_eq_iff.mp rfl).2.2 hlt

/-- Nothing but leading zeros is lost by such a shift. -/
theorem shiftLeft_ne_zero {x : BitVec w} {k : ℕ} (hx : x ≠ 0#w) (hk : k ≤ leadingZeros x) :
    x <<< k ≠ 0#w := by
  intro h
  have hlen := leadingZeros_shiftLeft hx hk
  rw [h, leadingZeros_zero] at hlen
  have := leadingZeros_lt hx
  omega

/-- A mask of the top `k` bits tests for `k` leading zeros. -/
theorem and_topMask_eq_zero {x : BitVec w} {k : ℕ} (hk : k ≤ w) :
    x &&& (BitVec.allOnes w <<< (w - k)) = 0#w ↔ k ≤ leadingZeros x := by
  constructor
  · intro h
    by_contra hlt
    have hw : leadingZeros x < w := by omega
    have hbit := (leadingZeros_eq_iff.mp (rfl : leadingZeros x = _)).2.2 hw
    have hm : (x &&& (BitVec.allOnes w <<< (w - k))).getMsbD (leadingZeros x) = true := by
      rw [BitVec.getMsbD_and, hbit, BitVec.getMsbD_shiftLeft, BitVec.getMsbD_allOnes]
      simp
      omega
    rw [h, BitVec.getMsbD_zero] at hm
    simp at hm
  · intro h
    apply BitVec.eq_of_getMsbD_eq
    intro i hi
    rw [BitVec.getMsbD_and, BitVec.getMsbD_zero, BitVec.getMsbD_shiftLeft, BitVec.getMsbD_allOnes]
    by_cases hik : i < k
    · rw [getMsbD_of_lt_leadingZeros (by omega), Bool.false_and]
    · have : ¬ i + (w - k) < w := by omega
      simp [this]

/-! The lowest set bit. -/

/-- Negation keeps the lowest set bit and complements everything above it. -/
theorem and_neg {x : BitVec w} (hx : x ≠ 0#w) : x &&& -x = BitVec.twoPow w (trailingZeros x) := by
  have ht := trailingZeros_lt hx
  apply BitVec.eq_of_getLsbD_eq
  intro i hi
  rw [BitVec.getLsbD_and, BitVec.getLsbD_neg, BitVec.getLsbD_twoPow]
  rcases lt_trichotomy i (trailingZeros x) with h | h | h
  · rw [getLsbD_of_lt_trailingZeros h]
    simp
    omega
  · have hnone : ¬ ∃ j < i, x.getLsbD j = true := by
      rintro ⟨j, hj, hb⟩
      rw [getLsbD_of_lt_trailingZeros (by omega)] at hb
      simp at hb
    have hb : x.getLsbD i = true := h ▸ getLsbD_trailingZeros ht
    rw [hb, decide_eq_false hnone]
    simp [h, ht]
  · have hsome : ∃ j < i, x.getLsbD j = true := ⟨_, h, getLsbD_trailingZeros ht⟩
    have hne : trailingZeros x ≠ i := by omega
    simp [hsome, hi, hne]

/-- Bit `i` stays when a lower bit is set. -/
theorem getLsbD_clearLow (x : BitVec w) (i : ℕ) :
    (clearLow x).getLsbD i = (x.getLsbD i && decide (∃ j < i, x.getLsbD j = true)) := by
  rw [clearLow, ← BitVec.not_neg, BitVec.getLsbD_and, BitVec.getLsbD_not, BitVec.getLsbD_neg]
  by_cases hi : i < w
  · cases x.getLsbD i <;> simp [hi]
  · rw [BitVec.getLsbD_of_ge x i (by omega), Bool.false_and, Bool.false_and]

@[simp] theorem mem_support {x : BitVec w} {i : ℕ} : i ∈ support x ↔ x.getLsbD i = true := by
  rw [support, Finset.mem_filter, Finset.mem_range]
  constructor
  · exact fun h => h.2
  · exact fun h => ⟨BitVec.lt_of_getLsbD h, h⟩

/-- Clearing the lowest set bit takes one position out of the support. -/
theorem support_clearLow {x : BitVec w} (hx : x ≠ 0#w) :
    support (clearLow x) = (support x).erase (trailingZeros x) := by
  have ht := trailingZeros_lt hx
  ext i
  rw [Finset.mem_erase, mem_support, mem_support, getLsbD_clearLow, Bool.and_eq_true,
    decide_eq_true_eq]
  constructor
  · rintro ⟨hb, j, hj, hjb⟩
    refine ⟨?_, hb⟩
    rintro rfl
    rw [getLsbD_of_lt_trailingZeros hj] at hjb
    simp at hjb
  · rintro ⟨hne, hb⟩
    refine ⟨hb, trailingZeros x, ?_, getLsbD_trailingZeros ht⟩
    by_contra hle
    rw [getLsbD_of_lt_trailingZeros (by omega)] at hb
    simp at hb

theorem ones_clearLow {x : BitVec w} (hx : x ≠ 0#w) : ones (clearLow x) + 1 = ones x := by
  have hmem : trailingZeros x ∈ support x :=
    mem_support.mpr (getLsbD_trailingZeros (trailingZeros_lt hx))
  rw [ones, support_clearLow hx]
  exact Finset.card_erase_add_one hmem

@[simp] theorem ones_zero : ones (0#w) = 0 := by
  rw [ones, Finset.card_eq_zero]
  ext i
  simp

theorem ones_eq_zero_iff {x : BitVec w} : ones x = 0 ↔ x = 0#w := by
  constructor
  · intro h
    by_contra hx
    have := ones_clearLow hx
    omega
  · rintro rfl
    exact ones_zero

theorem ones_le (x : BitVec w) : ones x ≤ w := by
  calc ones x ≤ (Finset.range w).card := Finset.card_filter_le _ _
    _ = w := Finset.card_range w

/-- Each round of clearing costs one bit, so the word is zero after as many rounds as it has. -/
theorem ones_iterate (x : BitVec w) {k : ℕ} (hk : k ≤ ones x) :
    ones (clearLow^[k] x) = ones x - k := by
  induction k with
  | zero => rfl
  | succ k ih =>
    have hx : clearLow^[k] x ≠ 0#w := by
      intro h
      have hz := ih (by omega)
      rw [h, ones_zero] at hz
      omega
    have hstep := ones_clearLow hx
    rw [ih (by omega)] at hstep
    rw [Function.iterate_succ_apply']
    omega

theorem iterate_eq_zero_iff (x : BitVec w) {k : ℕ} (hk : k ≤ ones x) :
    clearLow^[k] x = 0#w ↔ k = ones x := by
  rw [← ones_eq_zero_iff, ones_iterate x hk]
  omega

end Srv32.BitCount
