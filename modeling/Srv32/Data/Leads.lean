import Mathlib.Data.Nat.Notation

/-! Machines that take an input in each step, and what one leads to from a state whatever the inputs
are. -/

namespace Srv32

variable {σ ι : Type*}

/-- `n` steps; `none` after a step without successor. -/
def after (step : ι → σ → Option σ) (inputs : ℕ → ι) : ℕ → σ → Option σ
  | 0, s => some s
  | n + 1, s => (step (inputs 0) s).bind (after step (fun k => inputs (k + 1)) n)

/-- Every run from `s` comes to a state in `Q`. -/
def Leads (step : ι → σ → Option σ) (s : σ) (Q : σ → Prop) : Prop :=
  ∀ inputs, ∃ n s', after step inputs n s = some s' ∧ Q s'

variable {step : ι → σ → Option σ} {s : σ} {P Q : σ → Prop}

theorem after_add (inputs : ℕ → ι) (m n : ℕ) (s : σ) : after step inputs (m + n) s =
    (after step inputs m s).bind (after step (fun k => inputs (m + k)) n) := by
  induction m generalizing inputs s with
  | zero => simp [after]
  | succ m ih =>
    rw [Nat.succ_add, after, after, Option.bind_assoc]
    apply congrArg
    funext t
    rw [ih]
    simp only [Nat.add_right_comm m 1]

theorem after_succ (inputs : ℕ → ι) (n : ℕ) (s : σ) :
    after step inputs (n + 1) s = (after step inputs n s).bind (step (inputs n)) := by
  rw [after_add]
  apply congrArg
  funext t
  simp [after]

namespace Leads

theorem here (h : Q s) : Leads step s Q := fun _ => ⟨0, s, rfl, h⟩

theorem mono (h : Leads step s P) (hq : ∀ t, P t → Q t) : Leads step s Q := by
  intro inputs
  obtain ⟨n, t, hn, hp⟩ := h inputs
  exact ⟨n, t, hn, hq t hp⟩

theorem trans (h : Leads step s P) (hq : ∀ t, P t → Leads step t Q) : Leads step s Q := by
  intro inputs
  obtain ⟨m, t, hm, hp⟩ := h inputs
  obtain ⟨n, u, hn, hu⟩ := hq t hp fun k => inputs (m + k)
  refine ⟨m + n, u, ?_, hu⟩
  rw [after_add, hm]
  exact hn

theorem next (h : ∀ i, ∃ t, step i s = some t ∧ Q t) : Leads step s Q := by
  intro inputs
  obtain ⟨t, ht, hq⟩ := h (inputs 0)
  refine ⟨1, t, ?_, hq⟩
  simp [after, ht]

/-- A loop with a count of the rounds that remain. -/
theorem loop {I : ℕ → σ → Prop} (hround : ∀ n t, I (n + 1) t → Leads step t (I n)) {n : ℕ}
    (h : I n s) : Leads step s (I 0) := by
  induction n generalizing s with
  | zero => exact here h
  | succ n ih => exact (hround n s h).trans fun t ht => ih ht

end Leads

end Srv32
