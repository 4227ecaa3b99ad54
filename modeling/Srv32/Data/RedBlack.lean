import Srv32.Data.SearchTree

namespace Srv32.SearchTree
open BinaryTree

/-! Red-black trees over any nodes with a colour, and such trees with a hole. -/

variable {α : Type*} (black : α → Bool)

/-- The root is a red node. -/
def redTop : BinaryTree α → Bool
  | nil => false
  | node x _ _ => !black x

/-- No red node has a red child. -/
def NoRedRed : BinaryTree α → Prop
  | nil => True
  | node x l r => (black x = false → redTop black l = false ∧ redTop black r = false) ∧
      NoRedRed l ∧ NoRedRed r

/-- The numbers of black nodes on the paths from the root to a null, from left to right. -/
def blacks : BinaryTree α → List ℕ
  | nil => [0]
  | node x l r => (blacks l ++ blacks r).map (· + (black x).toNat)

/-- No red node has a red child, and every path has `n` black nodes. The root may be red. -/
def RedBlack : ℕ → BinaryTree α → Prop
  | n, nil => n = 0
  | n, node x l r => (black x = false → redTop black l = false ∧ redTop black r = false) ∧
      ∃ m, n = m + (black x).toNat ∧ RedBlack m l ∧ RedBlack m r

/-- The innermost frame is not a red node. -/
def BlackAbove : List (Frame α) → Prop
  | [] => True
  | f :: _ => black f.value = true

/-- A red-black tree with a hole for a tree of height `n`; nothing is said of the colour of what
goes into the hole. -/
def Hole : ℕ → List (Frame α) → Prop
  | _, [] => True
  | n, f :: c => (black f.value = false → redTop black f.sibling = false ∧ BlackAbove black c) ∧
      RedBlack black n f.sibling ∧ Hole (n + (black f.value).toNat) c

variable {black} {n : ℕ} {x y : α} {l r a b t : BinaryTree α} {s : Side} {f : Frame α}
  {c : List (Frame α)}

theorem redBlack_branch : RedBlack black n (branch s x a b) ↔
    (black x = false → redTop black a = false ∧ redTop black b = false) ∧
      ∃ m, n = m + (black x).toNat ∧ RedBlack black m a ∧ RedBlack black m b := by
  cases s with
  | left => exact Iff.rfl
  | right =>
    have hswap : ∀ m, RedBlack black m b ∧ RedBlack black m a ↔
        RedBlack black m a ∧ RedBlack black m b := fun m => and_comm
    rw [branch_right, RedBlack, and_comm (a := redTop black b = false)]
    simp only [hswap]

@[simp] theorem redTop_branch : redTop black (branch s x a b) = !black x := by
  cases s <;> rfl

theorem redBlack_black (hx : black x = true) (ha : RedBlack black n a) (hb : RedBlack black n b) :
    RedBlack black (n + 1) (branch s x a b) := by
  apply redBlack_branch.mpr
  refine ⟨fun h => absurd (hx.symm.trans h) (by decide), n, ?_, ha, hb⟩
  rw [hx]
  rfl

theorem redBlack_red (hx : black x = false) (ha : RedBlack black n a) (hb : RedBlack black n b)
    (ra : redTop black a = false) (rb : redTop black b = false) :
    RedBlack black n (branch s x a b) := by
  apply redBlack_branch.mpr
  refine ⟨fun _ => ⟨ra, rb⟩, n, ?_, ha, hb⟩
  rw [hx]
  rfl

theorem RedBlack.below (h : RedBlack black n (branch s x a b)) (hx : black x = false) :
    RedBlack black n a ∧ RedBlack black n b ∧ redTop black a = false ∧ redTop black b = false := by
  obtain ⟨hred, m, hm, ha, hb⟩ := redBlack_branch.mp h
  rw [hx] at hm
  obtain rfl : n = m := hm
  exact ⟨ha, hb, hred hx⟩

theorem RedBlack.noRedRed (h : RedBlack black n t) : NoRedRed black t := by
  induction t generalizing n with
  | nil => trivial
  | node x l r hl hr =>
    obtain ⟨hred, m, -, sl, sr⟩ := h
    exact ⟨hred, hl sl, hr sr⟩

theorem RedBlack.eq_of_mem_blacks {k : ℕ} (h : RedBlack black n t) (hk : k ∈ blacks black t) :
    k = n := by
  induction t generalizing n k with
  | nil =>
    rw [blacks, List.mem_singleton] at hk
    exact hk.trans h.symm
  | node x l r hl hr =>
    obtain ⟨-, m, hm, sl, sr⟩ := h
    rw [blacks, List.mem_map] at hk
    obtain ⟨j, hj, rfl⟩ := hk
    rw [hm]
    congr 1
    rcases List.mem_append.mp hj with hj | hj
    · exact hl sl hj
    · exact hr sr hj

theorem Hole.plug (hc : Hole black n c) (ht : RedBlack black n t)
    (hr : redTop black t = true → BlackAbove black c) : ∃ m, RedBlack black m (plug c t) := by
  induction c generalizing n t with
  | nil => exact ⟨n, ht⟩
  | cons f c ih =>
    obtain ⟨hred, hs, hc⟩ := hc
    apply ih hc
    · refine redBlack_branch.mpr ⟨fun hf => ⟨?_, (hred hf).1⟩, n, rfl, ht, hs⟩
      by_contra hrt
      have hblack : black f.value = true := hr (by simpa using hrt)
      rw [hf] at hblack
      cases hblack
    · intro hf
      rw [Frame.fill, redTop_branch, Bool.not_eq_true'] at hf
      exact (hred hf).2

theorem Hole.down (hc : Hole black n c) (ht : RedBlack black n (branch s x a b))
    (hr : redTop black (branch s x a b) = true → BlackAbove black c) :
    ∃ m, Hole black m (⟨s, x, b⟩ :: c) ∧ RedBlack black m a ∧
      (redTop black a = true → BlackAbove black (⟨s, x, b⟩ :: c)) := by
  obtain ⟨hred, m, hm, ha, hb⟩ := redBlack_branch.mp ht
  rw [redTop_branch, Bool.not_eq_true'] at hr
  subst hm
  refine ⟨m, ⟨fun hx => ⟨(hred hx).2, hr hx⟩, hb, hc⟩, ha, fun hra => ?_⟩
  cases hx : black x with
  | true => exact hx
  | false =>
    have hno := (hred hx).1
    rw [hra] at hno
    cases hno

end Srv32.SearchTree
