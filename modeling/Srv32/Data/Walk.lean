import Mathlib.Data.List.Range
import Mathlib.Data.Int.Basic
import Mathlib.Tactic.Ring

namespace Srv32.Walk

/-! The loop `while (p != stop) emit(*p++)` over an array. A pointer is an index, or null; `width`
is the size of what it points to. -/

variable {α : Type*}

/-- How the loop ends: with what it has emitted, or in a read through a null pointer or outside the
array. -/
inductive Ended (α : Type*)
  | done (out : List α)
  | null
  | outside

def Ended.push (x : α) : Ended α → Ended α
  | .done out => .done (x :: out)
  | .null => .null
  | .outside => .outside

/-- At most as many rounds as the first number; `none` when the loop still runs. -/
def walk (size width : ℤ) (elem : ℤ → α) : ℕ → Option ℤ → Option ℤ → Option (Ended α)
  | 0, _, _ => none
  | k + 1, p, stop =>
    if p = stop then some (.done [])
    else
      match p with
      | none => some .null
      | some i =>
        if 0 ≤ i ∧ i + width ≤ size then
          (walk size width elem k (some (i + width)) stop).map (.push (elem i))
        else some .outside

/-- The elements from index `i` on. -/
def elems (width : ℤ) (elem : ℤ → α) (i : ℤ) (n : ℕ) : List α :=
  (List.range n).map fun j : ℕ => elem (i + j * width)

variable {size width i : ℤ} {elem : ℤ → α} {n k : ℕ} {p stop : Option ℤ} {out : List α}

theorem index_succ (j : ℕ) : i + ((j + 1 : ℕ) : ℤ) * width = i + width + j * width := by
  push_cast
  ring

theorem elems_succ : elems width elem i (n + 1) = elem i :: elems width elem (i + width) n := by
  rw [elems, elems, List.range_succ_eq_map, List.map_cons, List.map_map]
  congr 1
  · rw [Nat.cast_zero, zero_mul, add_zero]
  · apply List.map_congr_left
    intro j _
    exact congrArg elem (index_succ j)

theorem length_elems : (elems width elem i n).length = n := by
  rw [elems, List.length_map, List.length_range]

/-! The number of elements in a distance, which is a multiple of the width. -/

theorem count_mul {d : ℤ} (hw : 0 < width) (hdvd : width ∣ d) (hd : 0 ≤ d) :
    (((d / width).toNat : ℕ) : ℤ) * width = d := by
  rw [Int.toNat_of_nonneg (Int.ediv_nonneg hd hw.le), Int.ediv_mul_cancel hdvd]

theorem count_eq_zero_iff {d : ℤ} (hw : 0 < width) (hdvd : width ∣ d) :
    (d / width).toNat = 0 ↔ d ≤ 0 := by
  obtain ⟨q, rfl⟩ := hdvd
  rw [Int.mul_ediv_cancel_left _ hw.ne', Int.toNat_eq_zero]
  constructor
  · intro hq
    exact Int.mul_nonpos_of_nonneg_of_nonpos hw.le hq
  · intro hd
    by_contra hq
    have hpos : 0 < width * q := Int.mul_pos hw (by omega)
    omega

/-- Every element lies in the array. -/
def Within (size width i : ℤ) (n : ℕ) : Prop :=
  ∀ j < n, 0 ≤ i + (j : ℕ) * width ∧ i + (j : ℕ) * width + width ≤ size

theorem Within.tail (h : Within size width i (n + 1)) : Within size width (i + width) n := by
  intro j hj
  have hnext := h (j + 1) (Nat.succ_lt_succ hj)
  rw [index_succ] at hnext
  exact hnext

theorem Within.cons (h0 : 0 ≤ i ∧ i + width ≤ size) (h : Within size width (i + width) n) :
    Within size width i (n + 1) := by
  intro j hj
  cases j with
  | zero =>
    rw [Nat.cast_zero, zero_mul, add_zero]
    exact h0
  | succ j =>
    rw [index_succ]
    exact h j (Nat.lt_of_succ_lt_succ hj)

theorem Within.head (h : Within size width i (n + 1)) : 0 ≤ i ∧ i + width ≤ size := by
  have h0 := h 0 (Nat.succ_pos n)
  rw [Nat.cast_zero, zero_mul, add_zero] at h0
  exact h0

/-- It is enough that the first begins and the last ends there. -/
theorem within_of_ends (hw : 0 < width) (h0 : 0 ≤ i) (hend : i + n * width ≤ size) :
    Within size width i n := by
  intro j hj
  have hnext : ((j : ℤ) + 1) * width ≤ n * width :=
    Int.mul_le_mul_of_nonneg_right (by omega) hw.le
  have hfirst : 0 ≤ (j : ℤ) * width := Int.mul_nonneg (Int.natCast_nonneg j) hw.le
  rw [add_mul, one_mul] at hnext
  omega

theorem walk_ahead (hw : 0 < width) (hin : Within size width i n) (hk : n < k) :
    walk size width elem k (some i) (some (i + n * width)) =
      some (.done (elems width elem i n)) := by
  induction n generalizing i k with
  | zero =>
    obtain ⟨k, rfl⟩ := Nat.exists_eq_add_one_of_ne_zero (Nat.ne_of_gt hk)
    rw [walk, Nat.cast_zero, zero_mul, add_zero, if_pos rfl]
    rfl
  | succ n ih =>
    obtain ⟨k, rfl⟩ := Nat.exists_eq_add_one_of_ne_zero (Nat.ne_of_gt (Nat.zero_lt_of_lt hk))
    have hne : some i ≠ some (i + width + n * width) := by
      rw [Ne, Option.some.injEq]
      have hahead : 0 ≤ (n : ℤ) * width := Int.mul_nonneg (Int.natCast_nonneg n) hw.le
      omega
    have hrest := ih hin.tail (Nat.lt_of_succ_lt_succ hk)
    rw [walk, index_succ, if_neg hne]
    simp only [if_pos hin.head, hrest, elems_succ]
    rfl

theorem walk_done (h : walk size width elem k p stop = some (.done out)) :
    (p = none ∧ stop = none ∧ out = []) ∨
      ∃ i n, p = some i ∧ stop = some (i + (n : ℕ) * width) ∧ Within size width i n ∧
        out = elems width elem i n := by
  induction k generalizing p out with
  | zero => cases h
  | succ k ih =>
    cases p with
    | none =>
      rw [walk] at h
      split_ifs at h with hp
      · cases h
        exact Or.inl ⟨rfl, hp.symm, rfl⟩
      · cases h
    | some i =>
      rw [walk] at h
      split_ifs at h with hp hin
      · cases h
        refine Or.inr ⟨i, 0, rfl, ?_, fun j hj => absurd hj (Nat.not_lt_zero j), rfl⟩
        rw [← hp, Nat.cast_zero, zero_mul, add_zero]
      · rw [Option.map_eq_some_iff] at h
        obtain ⟨e, he, hpush⟩ := h
        cases e with
        | null => cases hpush
        | outside => cases hpush
        | done rest =>
          cases hpush
          rcases ih he with ⟨hnone, -, -⟩ | ⟨i', n, hi, hstop, hwithin, hrest⟩
          · cases hnone
          · cases hi
            refine Or.inr ⟨i, n + 1, rfl, ?_, hwithin.cons hin, ?_⟩
            · rw [hstop, index_succ]
            · rw [elems_succ, hrest]
      · cases h

end Srv32.Walk
