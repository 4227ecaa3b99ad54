import Mathlib.Order.Basic
import Mathlib.Tactic.Common

/-! A stepper: it asks for a command, counts steps down, or runs on to an address. -/

namespace Srv32.Stepper

variable {α : Type*}

inductive Mode (α : Type*)
  | ask
  | counting (left : ℕ)
  | seeking (goal : α)

/-- The mode in which `n` steps are allowed before it asks again. -/
def Mode.steps (n : ℕ) : Mode α := if n ≤ 1 then ask else counting n

variable [DecidableEq α]

/-- The mode on arrival at `pc`. -/
def Mode.next (pc : α) : Mode α → Mode α
  | ask => ask
  | counting n => if n ≤ 1 then ask else counting (n - 1)
  | seeking a => if a = pc then ask else seeking a

/-- The mode after the arrivals at `pcs 1`, ..., `pcs j`. -/
def Mode.after (pcs : ℕ → α) (md : Mode α) : ℕ → Mode α
  | 0 => md
  | j + 1 => (md.after pcs j).next (pcs (j + 1))

variable {pcs : ℕ → α} {n j : ℕ} {a : α}

theorem after_counting (hj : j < n) :
    (Mode.counting n).after pcs j = .counting (n - j) := by
  induction j with
  | zero => rfl
  | succ j ih =>
    rw [Mode.after, ih (by omega), Mode.next, if_neg (by omega), Nat.sub_sub]

theorem after_steps (hj : 1 ≤ j) (hn : j ≤ n) : (Mode.steps n).after pcs j = .ask ↔ j = n := by
  obtain ⟨j, rfl⟩ := Nat.exists_eq_add_of_le' hj
  rw [Mode.steps]
  split_ifs with h1
  · obtain rfl : j = 0 := by omega
    exact iff_of_true rfl (by omega)
  · rw [Mode.after, after_counting (by omega), Mode.next]
    split_ifs with h2
    · exact iff_of_true rfl (by omega)
    · apply iff_of_false
      · intro h
        cases h
      · omega

theorem after_steps_ne_seeking (hn : j < n) : (Mode.steps n).after pcs j ≠ .seeking a := by
  rw [Mode.steps]
  split_ifs with h1
  · obtain rfl : j = 0 := by omega
    intro h
    cases h
  · rw [after_counting hn]
    intro h
    cases h

theorem after_seeking (h : ∀ i, 1 ≤ i → i ≤ j → pcs i ≠ a) :
    (Mode.seeking a).after pcs j = .seeking a := by
  induction j with
  | zero => rfl
  | succ j ih =>
    rw [Mode.after, ih fun i h1 h2 => h i h1 (by omega), Mode.next]
    exact if_neg (h (j + 1) (by omega) (by omega)).symm

end Srv32.Stepper
