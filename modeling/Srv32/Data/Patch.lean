import Mathlib.Data.Int.Order.Basic
import Mathlib.Data.List.Pairwise

/-! Ranges of a store written one after the other: outside all of them it is as it was, and when no
two overlap each range holds what was written there, in any order of the writes. -/

namespace Srv32

variable {β : Type*}

/-- The values `src 0 .. src (len - 1)` for the positions from `start` on. -/
structure Patch (β : Type*) where
  start : ℤ
  len : ℕ
  src : ℕ → β

namespace Patch

/-- `j` is one of the positions. -/
def Covers (p : Patch β) (j : ℤ) : Prop := p.start ≤ j ∧ j < p.start + p.len

instance (p : Patch β) (j : ℤ) : Decidable (p.Covers j) := inferInstanceAs (Decidable (_ ∧ _))

def Disjoint (p q : Patch β) : Prop := ∀ j, ¬ (p.Covers j ∧ q.Covers j)

def apply (p : Patch β) (m : ℤ → β) : ℤ → β := fun j =>
  if p.Covers j then p.src (j - p.start).toNat else m j

def applyAll (ps : List (Patch β)) (m : ℤ → β) : ℤ → β := ps.foldl (fun m p => p.apply m) m

variable {p : Patch β} {ps : List (Patch β)} {m : ℤ → β} {j : ℤ}

theorem apply_of_not_covers (h : ¬ p.Covers j) : p.apply m j = m j := if_neg h

theorem apply_add {k : ℕ} (hk : k < p.len) : p.apply m (p.start + k) = p.src k := by
  have hc : p.Covers (p.start + k) := ⟨by omega, by omega⟩
  rw [apply, if_pos hc]
  congr 1
  omega

@[simp] theorem applyAll_nil (m : ℤ → β) : applyAll [] m = m := rfl

@[simp] theorem applyAll_cons (p : Patch β) (ps : List (Patch β)) (m : ℤ → β) :
    applyAll (p :: ps) m = applyAll ps (p.apply m) := rfl

theorem applyAll_of_not_covers (h : ∀ p ∈ ps, ¬ p.Covers j) : applyAll ps m j = m j := by
  induction ps generalizing m with
  | nil => rfl
  | cons p ps ih =>
    rw [applyAll_cons, ih fun q hq => h q (List.mem_cons_of_mem p hq)]
    exact apply_of_not_covers (h p List.mem_cons_self)

/-- What is covered does not depend on what was there. -/
theorem applyAll_congr {m' : ℤ → β} (h : (∃ p ∈ ps, p.Covers j) ∨ m j = m' j) :
    applyAll ps m j = applyAll ps m' j := by
  induction ps generalizing m m' with
  | nil =>
    rcases h with ⟨p, hp, -⟩ | h
    · cases hp
    · exact h
  | cons p ps ih =>
    rw [applyAll_cons, applyAll_cons]
    by_cases hc : p.Covers j
    · exact ih (Or.inr (by rw [apply, apply, if_pos hc, if_pos hc]))
    · rw [← apply_of_not_covers (m := m) hc, ← apply_of_not_covers (m := m') hc] at h
      rcases h with ⟨q, hq, hqc⟩ | h
      · rcases List.mem_cons.mp hq with rfl | hq
        · exact absurd hqc hc
        · exact ih (Or.inl ⟨q, hq, hqc⟩)
      · exact ih (Or.inr h)

/-- Among disjoint patches each keeps its range. -/
theorem applyAll_add (hd : ps.Pairwise Disjoint) (hp : p ∈ ps) {k : ℕ} (hk : k < p.len) :
    applyAll ps m (p.start + k) = p.src k := by
  have hc : p.Covers (p.start + k) := ⟨by omega, by omega⟩
  induction ps generalizing m with
  | nil => cases hp
  | cons q ps ih =>
    rw [List.pairwise_cons] at hd
    rw [applyAll_cons]
    rcases List.mem_cons.mp hp with rfl | hmem
    · rw [applyAll_of_not_covers fun r hr hrc => hd.1 r hr _ ⟨hc, hrc⟩]
      exact apply_add hk
    · exact ih hd.2 hmem

end Patch

end Srv32
