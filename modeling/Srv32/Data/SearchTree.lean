import Mathlib.Data.Tree.Basic
import Mathlib.Data.List.Sort
import Mathlib.Order.Basic
import Mathlib.Tactic.Tauto

namespace Srv32.SearchTree
open BinaryTree

variable {α β : Type*}

/-! Positions in a tree: sides, frames and the tree around a hole. -/

inductive Side
  | left
  | right
deriving DecidableEq, Repr

def Side.other : Side → Side
  | left => right
  | right => left

@[simp] theorem Side.other_left : Side.left.other = Side.right := rfl
@[simp] theorem Side.other_right : Side.right.other = Side.left := rfl
@[simp] theorem Side.other_other (s : Side) : s.other.other = s := by cases s <;> rfl
@[simp] theorem Side.other_ne (s : Side) : s.other ≠ s := by cases s <;> decide

/-- A node whose child on side `s` is `near` and whose other child is `far`. -/
def branch (s : Side) (x : α) (near far : BinaryTree α) : BinaryTree α :=
  match s with
  | .left => node x near far
  | .right => node x far near

@[simp] theorem branch_left (x : α) (a b : BinaryTree α) : branch .left x a b = node x a b := rfl
@[simp] theorem branch_right (x : α) (a b : BinaryTree α) : branch .right x a b = node x b a := rfl

theorem branch_other (s : Side) (x : α) (a b : BinaryTree α) :
    branch s.other x a b = branch s x b a := by
  cases s <;> rfl

@[simp] theorem branch_ne_nil (s : Side) (x : α) (a b : BinaryTree α) : branch s x a b ≠ nil := by
  cases s <;> simp

/-- One step of the way from a subtree to the root. -/
structure Frame (α : Type*) where
  side : Side
  value : α
  sibling : BinaryTree α

def Frame.fill (f : Frame α) (t : BinaryTree α) : BinaryTree α :=
  branch f.side f.value t f.sibling

/-- The whole tree, from a subtree and the frames above it, innermost first. -/
def plug : List (Frame α) → BinaryTree α → BinaryTree α
  | [], t => t
  | f :: c, t => plug c (f.fill t)

@[simp] theorem plug_nil (t : BinaryTree α) : plug [] t = t := rfl
theorem plug_cons (f : Frame α) (c : List (Frame α)) (t : BinaryTree α) :
    plug (f :: c) t = plug c (f.fill t) := rfl

theorem plug_ne_nil {t : BinaryTree α} (c : List (Frame α)) (ht : t ≠ nil) : plug c t ≠ nil := by
  induction c generalizing t with
  | nil => exact ht
  | cons f c ih => exact ih (branch_ne_nil _ _ _ _)

theorem fill_turn (f : Frame α) (t : BinaryTree α) :
    Frame.fill ⟨f.side.other, f.value, t⟩ f.sibling = f.fill t := by
  simp only [Frame.fill, branch_other]

/-! The values from left to right. -/

def inorder : BinaryTree α → List α
  | nil => []
  | node x l r => inorder l ++ x :: inorder r

@[simp] theorem inorder_nil : inorder (nil : BinaryTree α) = [] := rfl
@[simp] theorem inorder_node (x : α) (l r : BinaryTree α) :
    inorder (node x l r) = inorder l ++ x :: inorder r := rfl

theorem inorder_map (f : α → β) (t : BinaryTree α) :
    inorder (t.map f) = (inorder t).map f := by
  induction t with
  | nil => rfl
  | node x l r hl hr => simp [BinaryTree.map, hl, hr]

theorem length_inorder (t : BinaryTree α) : (inorder t).length = t.numNodes := by
  induction t with
  | nil => rfl
  | node x l r hl hr =>
    rw [inorder_node, List.length_append, List.length_cons, hl, hr, BinaryTree.numNodes]
    omega

def before : List (Frame α) → List α
  | [] => []
  | f :: c => before c ++ match f.side with
    | .left => []
    | .right => inorder f.sibling ++ [f.value]

def after : List (Frame α) → List α
  | [] => []
  | f :: c => (match f.side with
    | .left => f.value :: inorder f.sibling
    | .right => []) ++ after c

theorem inorder_plug (c : List (Frame α)) (t : BinaryTree α) :
    inorder (plug c t) = before c ++ inorder t ++ after c := by
  induction c generalizing t with
  | nil => simp [before, after]
  | cons f c ih =>
    obtain ⟨s, x, u⟩ := f
    rw [plug_cons, ih]
    cases s <;> simp [before, after, Frame.fill]

/-! Search trees. -/

section Ordered
variable {κ : Type*} [LinearOrder κ]

def Ordered (t : BinaryTree κ) : Prop := (inorder t).Pairwise (· < ·)

theorem ordered_nil : Ordered (nil : BinaryTree κ) := List.Pairwise.nil

theorem ordered_node {x : κ} {l r : BinaryTree κ} :
    Ordered (node x l r) ↔
      Ordered l ∧ Ordered r ∧ (∀ a ∈ inorder l, a < x) ∧ ∀ b ∈ inorder r, x < b := by
  rw [Ordered, inorder_node, List.pairwise_append, List.pairwise_cons]
  constructor
  · rintro ⟨hl, ⟨hx, hr⟩, hlr⟩
    exact ⟨hl, hr, fun a ha => hlr a ha x (by simp), hx⟩
  · rintro ⟨hl, hr, hlx, hxr⟩
    refine ⟨hl, ⟨hxr, hr⟩, fun a ha b hb => ?_⟩
    rcases List.mem_cons.mp hb with rfl | hb
    · exact hlx a ha
    · exact (hlx a ha).trans (hxr b hb)

/-- The subtree whose root is `k`, empty when there is none. -/
def lookup (k : κ) : BinaryTree κ → BinaryTree κ
  | nil => nil
  | node x l r => if x = k then node x l r else if x < k then lookup k r else lookup k l

theorem lookup_ne_nil {k : κ} {t : BinaryTree κ} (ht : Ordered t) :
    lookup k t ≠ nil ↔ k ∈ inorder t := by
  induction t with
  | nil => simp [lookup]
  | node x l r hl hr =>
    obtain ⟨ol, or, hlx, hxr⟩ := ordered_node.mp ht
    simp only [lookup, inorder_node, List.mem_append, List.mem_cons]
    split
    · next h => simp [h]
    · next hne =>
      split
      · next hlt =>
        have hkl : k ∉ inorder l := fun hk => absurd (hlx k hk) (not_lt_of_gt hlt)
        rw [hr or]
        simp [hkl, Ne.symm hne]
      · next hge =>
        have hkr : k ∉ inorder r := fun hk => hge (hxr k hk)
        rw [hl ol]
        simp [hkr, Ne.symm hne]

/-- Insertion at the end of the search path; a key already there is left alone. -/
def insert (k : κ) : BinaryTree κ → BinaryTree κ
  | nil => node k nil nil
  | node x l r =>
    if k < x then node x (insert k l) r else if x < k then node x l (insert k r) else node x l r

theorem mem_insert (k a : κ) (t : BinaryTree κ) :
    a ∈ inorder (insert k t) ↔ a = k ∨ a ∈ inorder t := by
  induction t with
  | nil => simp [insert]
  | node x l r hl hr =>
    have hnode : ∀ l' r', a ∈ inorder (node x l' r') ↔
        a ∈ inorder l' ∨ a = x ∨ a ∈ inorder r' := by
      intro l' r'
      rw [inorder_node, List.mem_append, List.mem_cons]
    simp only [insert]
    split
    · rw [hnode, hnode, hl, or_assoc]
    · split
      · rw [hnode, hnode, hr, or_left_comm (b := a = k), or_left_comm (b := a = k)]
      · next h1 h2 =>
        have hk : k = x := le_antisymm (not_lt.mp h2) (not_lt.mp h1)
        rw [hnode, hk, or_left_comm, or_self_left]

theorem ordered_insert {k : κ} {t : BinaryTree κ} (ht : Ordered t) : Ordered (insert k t) := by
  induction t with
  | nil => simp [insert, Ordered]
  | node x l r hl hr =>
    obtain ⟨ol, or, hlx, hxr⟩ := ordered_node.mp ht
    simp only [insert]
    split
    · next h =>
      refine ordered_node.mpr ⟨hl ol, or, fun a ha => ?_, hxr⟩
      rcases (mem_insert k a l).mp ha with rfl | ha
      · exact h
      · exact hlx a ha
    · split
      · next h =>
        refine ordered_node.mpr ⟨ol, hr or, hlx, fun b hb => ?_⟩
        rcases (mem_insert k b r).mp hb with rfl | hb
        · exact h
        · exact hxr b hb
      · exact ht

theorem insert_of_mem {k : κ} {t : BinaryTree κ} (ht : Ordered t) (hk : k ∈ inorder t) :
    insert k t = t := by
  induction t with
  | nil => cases hk
  | node x l r hl hr =>
    obtain ⟨ol, or, hlx, hxr⟩ := ordered_node.mp ht
    rw [inorder_node, List.mem_append, List.mem_cons] at hk
    rw [insert]
    split_ifs with h1 h2
    · rcases hk with hk | rfl | hk
      · rw [hl ol hk]
      · exact absurd h1 (lt_irrefl _)
      · exact absurd (hxr k hk) (not_lt_of_gt h1)
    · rcases hk with hk | rfl | hk
      · exact absurd (hlx k hk) (not_lt_of_gt h2)
      · exact absurd h2 (lt_irrefl _)
      · rw [hr or hk]
    · rfl

/-- The least key, when the tree is not empty. -/
def least : κ → BinaryTree κ → κ
  | d, nil => d
  | _, node x l _ => least x l

omit [LinearOrder κ] in
theorem inorder_head {x : κ} {l r : BinaryTree κ} :
    (inorder (node x l r)).head? = some (least x l) := by
  induction l generalizing x r with
  | nil => rfl
  | node y a b ha _ =>
    have h : (inorder (node y a b)).head? = some (least y a) := ha
    rw [inorder_node, List.head?_append, h]
    rfl

/-- What stands in for the root `x`; `r'` is the right child without its least key. -/
def join (x : κ) (l r r' : BinaryTree κ) : BinaryTree κ :=
  match l, r with
  | nil, r => r
  | l, nil => l
  | l, r => node (least x r) l r'

/-- Deletion: a node with two children takes the least key on its right, which is then deleted
there. -/
def erase : κ → BinaryTree κ → BinaryTree κ
  | _, nil => nil
  | k, node x l r =>
    if k < x then node x (erase k l) r else if x < k then node x l (erase k r) else
      join x l r (erase (least x r) r)

theorem filter_ne_self {k : κ} {xs : List κ} (h : k ∉ xs) : xs.filter (· ≠ k) = xs := by
  rw [List.filter_eq_self]
  intro a ha
  have : a ≠ k := by
    rintro rfl
    exact h ha
  simpa using this

/-- In an ordered tree the least key heads the listing, and removing it leaves the tail. -/
theorem cons_filter_least {y : κ} {a b : BinaryTree κ} (h : Ordered (node y a b)) :
    least y a :: (inorder (node y a b)).filter (· ≠ least y a) = inorder (node y a b) := by
  obtain ⟨ys, hys⟩ := List.head?_eq_some_iff.mp (inorder_head (x := y) (l := a) (r := b))
  have hlt : ∀ z ∈ ys, least y a < z := by
    rw [Ordered, hys] at h
    exact (List.pairwise_cons.mp h).1
  have hnot : least y a ∉ ys := fun hm => lt_irrefl _ (hlt _ hm)
  rw [hys, List.filter_cons_of_neg (by simp), filter_ne_self hnot]

theorem inorder_erase {k : κ} {t : BinaryTree κ} (ht : Ordered t) :
    inorder (erase k t) = (inorder t).filter (· ≠ k) := by
  induction t generalizing k with
  | nil => rfl
  | node x l r hl hr =>
    obtain ⟨ol, or, hlx, hxr⟩ := ordered_node.mp ht
    have hxl : x ∉ inorder l := fun h => lt_irrefl x (hlx x h)
    have hxr' : x ∉ inorder r := fun h => lt_irrefl x (hxr x h)
    rw [inorder_node, List.filter_append]
    rcases lt_trichotomy k x with h | rfl | h
    · have hkr : k ∉ inorder r := fun hk => absurd (hxr k hk) (not_lt_of_gt h)
      rw [List.filter_cons_of_pos (by simpa using h.ne'), filter_ne_self hkr]
      simp [erase, h, hl ol]
    · rw [List.filter_cons_of_neg (by simp), filter_ne_self hxl, filter_ne_self hxr']
      cases l with
      | nil => simp [erase, join]
      | node z c d =>
        cases r with
        | nil => simp [erase, join]
        | node y a b =>
          have hm : inorder (erase (least y a) (node y a b)) =
              (inorder (node y a b)).filter (· ≠ least y a) := hr or
          rw [erase, if_neg (lt_irrefl k), if_neg (lt_irrefl k)]
          change inorder (node (least y a) _ (erase (least y a) (node y a b))) = _
          rw [inorder_node, hm, cons_filter_least or]
    · have hkl : k ∉ inorder l := fun hk => absurd (hlx k hk) (not_lt_of_gt h)
      rw [List.filter_cons_of_pos (by simpa using h.ne), filter_ne_self hkl]
      simp [erase, h, not_lt_of_gt h, hr or]

theorem ordered_erase {k : κ} {t : BinaryTree κ} (ht : Ordered t) : Ordered (erase k t) := by
  rw [Ordered, inorder_erase ht]
  exact List.Pairwise.filter _ ht

theorem mem_erase {k a : κ} {t : BinaryTree κ} (ht : Ordered t) :
    a ∈ inorder (erase k t) ↔ a ∈ inorder t ∧ a ≠ k := by
  rw [inorder_erase ht]
  simp

/-! Search trees in which a key may occur more than once. -/

def Sorted (t : BinaryTree κ) : Prop := (inorder t).Pairwise (· ≤ ·)

theorem sorted_node {x : κ} {l r : BinaryTree κ} (h : Sorted (node x l r)) :
    Sorted l ∧ Sorted r ∧ (∀ a ∈ inorder l, a ≤ x) ∧ ∀ b ∈ inorder r, x ≤ b := by
  rw [Sorted, inorder_node, List.pairwise_append, List.pairwise_cons] at h
  obtain ⟨hl, ⟨hx, hr⟩, hlr⟩ := h
  exact ⟨hl, hr, fun a ha => hlr a ha x (by simp), hx⟩

/-- Of equal keys in a sorted list it does not matter which one goes. -/
theorem erase_middle {x : κ} {as bs : List κ} (h : (as ++ x :: bs).Pairwise (· ≤ ·)) :
    (as ++ x :: bs).erase x = as ++ bs := by
  have hp : ((as ++ x :: bs).erase x).Perm (as ++ bs) := by
    have hm : (as ++ x :: bs).Perm (x :: (as ++ bs)) := List.perm_middle
    simpa using hm.erase x
  have hb : (as ++ bs).Pairwise (· ≤ ·) :=
    h.sublist ((List.sublist_cons_self x bs).append_left as)
  apply hp.eq_of_pairwise _ (h.sublist List.erase_sublist) hb
  intro a b _ _ hab hba
  exact le_antisymm hab hba

theorem inorder_erase_sorted {k : κ} {t : BinaryTree κ} (ht : Sorted t) :
    inorder (erase k t) = (inorder t).erase k := by
  induction t generalizing k with
  | nil => rfl
  | node x l r hl hr =>
    obtain ⟨sl, sr, hlx, hxr⟩ := sorted_node ht
    rw [erase, inorder_node]
    split_ifs with h1 h2
    · have hkr : k ∉ x :: inorder r := by
        intro hk
        rcases List.mem_cons.mp hk with rfl | hk
        · exact lt_irrefl k h1
        · exact absurd (hxr k hk) (not_le_of_gt h1)
      rw [inorder_node, hl sl, List.erase_append]
      split_ifs with hk
      · rfl
      · rw [List.erase_of_not_mem hk, List.erase_of_not_mem hkr]
    · have hkl : k ∉ inorder l := fun hk => absurd (hlx k hk) (not_le_of_gt h2)
      have hne : ¬ (x == k) = true := by simpa using h2.ne
      rw [inorder_node, hr sr, List.erase_append_right _ hkl, List.erase_cons_tail hne]
    · obtain rfl : k = x := le_antisymm (not_lt.mp h2) (not_lt.mp h1)
      rw [erase_middle ht]
      cases l with
      | nil => rfl
      | node z c d =>
        cases r with
        | nil => simp [join]
        | node y a b =>
          -- the least key on the right goes there, and stands in for the root
          obtain ⟨ys, hys⟩ := List.head?_eq_some_iff.mp (inorder_head (x := y) (l := a) (r := b))
          have hm : inorder (erase (least y a) (node y a b)) = ys := by
            rw [hr sr, hys, List.erase_cons_head]
          change inorder (node (least y a) _ (erase (least y a) (node y a b))) = _
          rw [inorder_node, hm, hys]

end Ordered

end Srv32.SearchTree
