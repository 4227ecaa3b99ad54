import Mathlib.Algebra.Group.Basic
import Mathlib.Data.Int.Order.Basic
import Mathlib.Data.List.DropRight
import Mathlib.Logic.Function.Basic

/-! NUL-terminated strings in a memory, and the cells a program touches. -/

namespace Srv32

variable {β : Type*}

/-- A memory, and the indices read or written so far. -/
structure Cells (β : Type*) where
  mem : ℤ → β
  touched : List ℤ

namespace Cells

def read (c : Cells β) (i : ℤ) : β × Cells β := (c.mem i, { c with touched := i :: c.touched })

def write (c : Cells β) (i : ℤ) (x : β) : Cells β :=
  ⟨Function.update c.mem i x, i :: c.touched⟩

/-- Between `c` and `c'` exactly the indices with `p` are touched. -/
def Touches (c c' : Cells β) (p : ℤ → Prop) : Prop := ∀ i, i ∈ c'.touched ↔ i ∈ c.touched ∨ p i

theorem touches_read (c : Cells β) (i : ℤ) : Touches c (c.read i).2 (· = i) := by
  intro j
  simp [read, or_comm]

theorem touches_write (c : Cells β) (i : ℤ) (x : β) : Touches c (c.write i x) (· = i) := by
  intro j
  simp [write, or_comm]

theorem Touches.refl (c : Cells β) : Touches c c (fun _ => False) := by
  intro i
  simp

theorem Touches.trans {a b c : Cells β} {p q : ℤ → Prop} (h : Touches a b p) (h' : Touches b c q) :
    Touches a c (fun i => p i ∨ q i) := by
  intro i
  rw [h' i, h i, or_assoc]

theorem Touches.congr {a b : Cells β} {p q : ℤ → Prop} (h : Touches a b p) (hpq : ∀ i, p i ↔ q i) :
    Touches a b q := by
  intro i
  rw [h i, hpq i]

section Strings
variable [DecidableEq β] (nul : β)

/-- `strnlen` of the `n` characters from index `i` on. -/
def strnlen : ℕ → ℤ → Cells β → ℕ × Cells β
  | 0, _, c => (0, c)
  | n + 1, i, c =>
    let (x, c) := c.read i
    if x = nul then (0, c)
    else
      let (l, c) := strnlen n (i + 1) c
      (l + 1, c)

/-- The string `s` starts at index `i`. -/
structure Str (m : ℤ → β) (i : ℤ) (s : List β) : Prop where
  chars : ∀ j ≤ s.length, m (i + j) = s.getD j nul
  nonzero : nul ∉ s

variable {nul}

omit [DecidableEq β] in
theorem Str.tail {m : ℤ → β} {i : ℤ} {x : β} {s : List β} (h : Str nul m i (x :: s)) :
    Str nul m (i + 1) s := by
  refine ⟨fun j hj => ?_, fun h0 => h.nonzero (List.mem_cons_of_mem x h0)⟩
  have hc := h.chars (j + 1) (by simpa using hj)
  rw [List.getD_cons_succ] at hc
  rw [← hc]
  congr 1
  omega

/-- A string shorter than the bound is measured whole, its terminator included. -/
theorem strnlen_str {n : ℕ} {i : ℤ} {s : List β} {c : Cells β} (h : Str nul c.mem i s)
    (hn : s.length < n) :
    ∃ c', strnlen nul n i c = (s.length, c') ∧ c'.mem = c.mem ∧
      Touches c c' (fun j => i ≤ j ∧ j ≤ i + s.length) := by
  induction s generalizing n i c with
  | nil =>
    obtain ⟨n, rfl⟩ := Nat.exists_eq_add_of_lt hn
    have hx : c.mem i = nul := by simpa using h.chars 0 (by simp)
    refine ⟨(c.read i).2, ?_, rfl, (touches_read c i).congr fun j => ?_⟩
    · simp only [List.length_nil, strnlen, read, hx, if_true]
    · simp
      omega
  | cons x s ih =>
    obtain ⟨n, rfl⟩ := Nat.exists_eq_add_of_lt hn
    have hx : c.mem i = x := by simpa using h.chars 0 (by simp)
    have hne : (c.read i).1 ≠ nul := by
      intro he
      exact h.nonzero (List.mem_cons.mpr (Or.inl (he.symm.trans hx)))
    obtain ⟨c', e, hm, ht⟩ := ih (c := (c.read i).2) h.tail (n := s.length + 1 + n) (by omega)
    refine ⟨c', ?_, hm, ((touches_read c i).trans ht).congr fun j => ?_⟩
    · have e' : strnlen nul (s.length + 1 + n) (i + 1) (c.read i).2 = (s.length, c') := e
      rw [List.length_cons, strnlen]
      simp only [e', if_neg hne]
    · simp
      omega

end Strings

/-- `for (i = 0; i < n; i++) d[i] = s[i];` -/
def copy : ℕ → ℤ → ℤ → Cells β → Cells β
  | 0, _, _, c => c
  | n + 1, d, s, c =>
    let (x, c) := c.read s
    copy n (d + 1) (s + 1) (c.write d x)

/-- Copying towards lower indices, every cell is read before it is overwritten. -/
theorem copy_mem (n : ℕ) {d s : ℤ} (hds : d ≤ s) (c : Cells β) (j : ℤ) :
    (copy n d s c).mem j = if d ≤ j ∧ j < d + n then c.mem (s + (j - d)) else c.mem j := by
  induction n generalizing d s c with
  | zero =>
    rw [copy, if_neg (by omega)]
  | succ n ih =>
    rw [copy, ih (by omega)]
    simp only [read, write, Function.update_apply]
    push_cast
    split_ifs <;> first | omega | (congr 1; omega) | rfl

theorem touches_copy (n : ℕ) (d s : ℤ) (c : Cells β) :
    Touches c (copy n d s c) (fun i => s ≤ i ∧ i < s + n ∨ d ≤ i ∧ i < d + n) := by
  induction n generalizing d s c with
  | zero =>
    apply (Touches.refl c).congr
    simp
  | succ n ih =>
    have h := ((touches_read c s).trans (touches_write _ d (c.read s).1)).trans
      (ih (d + 1) (s + 1) ((c.read s).2.write d (c.read s).1))
    apply h.congr
    intro i
    simp
    omega

end Cells

end Srv32
