import Srv32.Gdb.Map
import Mathlib.Data.List.Perm.Basic

namespace Srv32.Gdb
open BinaryTree SearchTree

/-! The tree that a heap holds. -/

/-- A node without its children. -/
structure Cell where
  addr : Addr
  data : BitVec 32
  color : Color
  parent : Ptr
deriving DecidableEq, Repr

def Cell.toNode (c : Cell) (s : Side) (near far : Ptr) : Node :=
  match s with
  | .left => ⟨c.data, c.color, near, far, c.parent⟩
  | .right => ⟨c.data, c.color, far, near, c.parent⟩

section Cell
variable (c : Cell) (s : Side) (p q u : Ptr)

@[simp] theorem Cell.toNode_parent : (c.toNode s p q).parent = c.parent := by cases s <;> rfl
@[simp] theorem Cell.toNode_color : (c.toNode s p q).color = c.color := by cases s <;> rfl
@[simp] theorem Cell.toNode_data : (c.toNode s p q).data = c.data := by cases s <;> rfl
@[simp] theorem Cell.toNode_near : (c.toNode s p q).child s = p := by cases s <;> rfl
@[simp] theorem Cell.toNode_far : (c.toNode s p q).child s.other = q := by cases s <;> rfl

@[simp] theorem Cell.toNode_setNear : (c.toNode s p q).setChild s u = c.toNode s u q := by
  cases s <;> rfl

@[simp] theorem Cell.toNode_setFar : (c.toNode s p q).setChild s.other u = c.toNode s p u := by
  cases s <;> rfl

@[simp] theorem Cell.toNode_setParent :
    (c.toNode s p q).setParent u = { c with parent := u }.toNode s p q := by
  cases s <;> rfl

end Cell

def ptr : BinaryTree Cell → Ptr
  | nil => none
  | node c _ _ => some c.addr

@[simp] theorem ptr_nil : ptr nil = none := rfl
@[simp] theorem ptr_node (c : Cell) (l r : BinaryTree Cell) : ptr (node c l r) = some c.addr := rfl
@[simp] theorem ptr_branch (s : Side) (c : Cell) (a b : BinaryTree Cell) :
    ptr (branch s c a b) = some c.addr := by
  cases s <;> rfl

theorem ptr_eq_none {t : BinaryTree Cell} : ptr t = none ↔ t = nil := by
  cases t <;> simp

def addrs (t : BinaryTree Cell) : List Addr := (inorder t).map Cell.addr

@[simp] theorem addrs_nil : addrs nil = [] := rfl
theorem addrs_node (c : Cell) (l r : BinaryTree Cell) :
    addrs (node c l r) = addrs l ++ c.addr :: addrs r := by
  simp [addrs]

theorem addrs_branch (s : Side) (c : Cell) (a b : BinaryTree Cell) :
    List.Perm (addrs (branch s c a b)) (c.addr :: (addrs a ++ addrs b)) := by
  cases s with
  | left =>
    rw [branch_left, addrs_node]
    exact List.perm_middle
  | right =>
    rw [branch_right, addrs_node]
    exact List.perm_middle.trans (List.perm_append_comm.cons _)

theorem ptr_mem {t : BinaryTree Cell} {a : Addr} (h : ptr t = some a) : a ∈ addrs t := by
  cases t with
  | nil => cases h
  | node c l r =>
    rw [ptr_node, Option.some.injEq] at h
    simp [addrs_node, h]

/-- The nodes of `t` lie on the heap and point to each other. -/
def Stands (h : Heap) : BinaryTree Cell → Prop
  | nil => True
  | node c l r => h c.addr = some (c.toNode .left (ptr l) (ptr r)) ∧ Stands h l ∧ Stands h r

@[simp] theorem stands_nil (h : Heap) : Stands h nil := trivial

theorem stands_branch {h : Heap} {s : Side} {c : Cell} {a b : BinaryTree Cell} :
    Stands h (branch s c a b) ↔
      h c.addr = some (c.toNode s (ptr a) (ptr b)) ∧ Stands h a ∧ Stands h b := by
  cases s with
  | left => rfl
  | right =>
    rw [branch_right, Stands]
    exact and_congr Iff.rfl and_comm

theorem Stands.congr {h h' : Heap} {t : BinaryTree Cell} (ht : Stands h t)
    (hh : ∀ a ∈ addrs t, h' a = h a) : Stands h' t := by
  induction t with
  | nil => trivial
  | node c l r hl hr =>
    obtain ⟨hc, sl, sr⟩ := ht
    simp only [addrs_node, List.mem_append, List.mem_cons] at hh
    refine ⟨(hh _ (by simp)).trans hc, hl sl fun a ha => hh a (.inl ha),
      hr sr fun a ha => hh a (.inr (.inr ha))⟩

theorem Stands.allocated {h : Heap} {t : BinaryTree Cell} (ht : Stands h t) {a : Addr}
    (ha : a ∈ addrs t) : h a ≠ none := by
  induction t with
  | nil => cases ha
  | node c l r hl hr =>
    obtain ⟨hc, sl, sr⟩ := ht
    rw [addrs_node, List.mem_append, List.mem_cons] at ha
    rcases ha with ha | rfl | ha
    · exact hl sl ha
    · simp [hc]
    · exact hr sr ha

def around : List (Frame Cell) → List Addr
  | [] => []
  | f :: c => f.value.addr :: (addrs f.sibling ++ around c)

theorem addrs_plug (c : List (Frame Cell)) (t : BinaryTree Cell) :
    List.Perm (addrs (plug c t)) (addrs t ++ around c) := by
  induction c generalizing t with
  | nil => simp [around]
  | cons f c ih =>
    rw [plug_cons]
    refine (ih _).trans (((addrs_branch _ _ _ _).append_right _).trans ?_)
    rw [around, List.cons_append, List.append_assoc]
    exact List.perm_middle.symm

/-- The frames lie on the heap around a subtree that `p` points to. -/
def Above (h : Heap) : List (Frame Cell) → Ptr → Prop
  | [], _ => True
  | f :: c, p =>
    h f.value.addr = some (f.value.toNode f.side p (ptr f.sibling)) ∧ Stands h f.sibling ∧
      Above h c (some f.value.addr)

theorem stands_plug {h : Heap} {c : List (Frame Cell)} {t : BinaryTree Cell} :
    Stands h (plug c t) ↔ Stands h t ∧ Above h c (ptr t) := by
  induction c generalizing t with
  | nil => simp [Above]
  | cons f c ih =>
    rw [plug_cons, ih, Frame.fill, stands_branch, Above, ptr_branch]
    tauto

theorem Above.congr {h h' : Heap} {c : List (Frame Cell)} {p : Ptr} (hc : Above h c p)
    (hh : ∀ a ∈ around c, h' a = h a) : Above h' c p := by
  induction c generalizing p with
  | nil => trivial
  | cons f c ih =>
    obtain ⟨hf, hs, ha⟩ := hc
    simp only [around, List.mem_cons, List.mem_append] at hh
    exact ⟨(hh _ (by simp)).trans hf, hs.congr fun a h => hh a (.inr (.inl h)),
      ih ha fun a h => hh a (.inr (.inr h))⟩

/-- The map points to the tree `t`, whose nodes are all different. -/
structure Holds (m : Map) (t : BinaryTree Cell) : Prop where
  root : m.root = ptr t
  stands : Stands m.heap t
  nodup : (addrs t).Nodup

/-- The root of the whole tree, from the pointer to a subtree. -/
def top : List (Frame Cell) → Ptr → Ptr
  | [], p => p
  | f :: c, _ => top c (some f.value.addr)

theorem ptr_plug (c : List (Frame Cell)) (t : BinaryTree Cell) :
    ptr (plug c t) = top c (ptr t) := by
  induction c generalizing t with
  | nil => rfl
  | cons f c ih => rw [plug_cons, ih, top, Frame.fill, ptr_branch]

/-- The frame tells on which side of its node the subtree hangs. -/
theorem left_iff_side {f : Frame Cell} {t : BinaryTree Cell} {β : Type} (F : Side → β)
    (h : ptr t ≠ ptr f.sibling) :
    (if ptr t = (f.value.toNode f.side (ptr t) (ptr f.sibling)).left then F .left else F .right) =
      F f.side := by
  rcases hs : f.side with _ | _
  · exact if_pos rfl
  · exact if_neg h

/-- The parent that the root of a subtree should have. -/
def parentAt : List (Frame Cell) → Ptr
  | [] => none
  | f :: _ => some f.value.addr

/-- Every frame has its parent right. -/
def Linked : List (Frame Cell) → Prop
  | [] => True
  | f :: c => f.value.parent = parentAt c ∧ Linked c

def TopBlack : List (Frame Cell) → Prop
  | [] => True
  | [f] => f.value.color = .black
  | _ :: f :: c => TopBlack (f :: c)

theorem TopBlack.tail {f : Frame Cell} {c : List (Frame Cell)} (h : TopBlack (f :: c)) :
    TopBlack c := by
  cases c with
  | nil => trivial
  | cons g c => exact h

theorem top_cons_mem (f : Frame Cell) (c : List (Frame Cell)) (p : Ptr) :
    ∃ a ∈ around (f :: c), top (f :: c) p = some a := by
  induction c generalizing f p with
  | nil => exact ⟨f.value.addr, by simp [around], rfl⟩
  | cons g c ih =>
    obtain ⟨a, ha, he⟩ := ih g (some f.value.addr)
    exact ⟨a, by rw [around]; simp [ha], he⟩

theorem Holds.split {m : Map} {c : List (Frame Cell)} {t : BinaryTree Cell}
    (hm : Holds m (plug c t)) :
    m.root = top c (ptr t) ∧ Stands m.heap t ∧ Above m.heap c (ptr t) ∧
      (addrs t ++ around c).Nodup :=
  ⟨hm.root.trans (ptr_plug c t), (stands_plug.mp hm.stands).1, (stands_plug.mp hm.stands).2,
    (addrs_plug c t).nodup_iff.mp hm.nodup⟩

theorem Holds.ofSplit {m : Map} {c : List (Frame Cell)} {t : BinaryTree Cell}
    (hr : m.root = top c (ptr t)) (ht : Stands m.heap t) (hc : Above m.heap c (ptr t))
    (hn : (addrs t ++ around c).Nodup) : Holds m (plug c t) :=
  ⟨hr.trans (ptr_plug c t).symm, stands_plug.mpr ⟨ht, hc⟩, (addrs_plug c t).nodup_iff.mpr hn⟩

theorem load_some {h : Heap} {a : Addr} {n : Node} (hn : h a = some n) :
    load h (some a) = .ok n := by
  simp [load, hn]

theorem modify_some {h : Heap} {a : Addr} {n : Node} (f : Node → Node) (hn : h a = some n) :
    modify h (some a) f = .ok (Function.update h a (some (f n))) := by
  simp [modify, hn]

theorem Holds.load_at {m : Map} {c : List (Frame Cell)} {s : Side} {x : Cell}
    {a b : BinaryTree Cell} (hm : Holds m (plug c (branch s x a b))) :
    load m.heap (some x.addr) = .ok (x.toNode s (ptr a) (ptr b)) :=
  load_some (stands_branch.mp hm.split.2.1).1

/-- An assignment to a node that leaves its pointers to the children. -/
theorem Holds.modify_at {m : Map} {c : List (Frame Cell)} {s : Side} {x y : Cell}
    {a b : BinaryTree Cell} (f : Node → Node) (hm : Holds m (plug c (branch s x a b)))
    (hx : y.addr = x.addr) (hf : ∀ p q, f (x.toNode s p q) = y.toNode s p q) :
    ∃ h, modify m.heap (some x.addr) f = .ok h ∧ Holds ⟨h, m.root⟩ (plug c (branch s y a b)) := by
  obtain ⟨hr, ht, hc, hn⟩ := hm.split
  obtain ⟨hx0, ha, hb⟩ := stands_branch.mp ht
  have hp : (x.addr :: (addrs a ++ addrs b ++ around c)).Nodup :=
    ((addrs_branch s x a b).append_right _).nodup_iff.mp hn
  obtain ⟨hnot, -⟩ := List.nodup_cons.mp hp
  simp only [List.mem_append, not_or] at hnot
  have hsame : ∀ q, q ≠ x.addr →
      Function.update m.heap x.addr (some (y.toNode s (ptr a) (ptr b))) q = m.heap q :=
    fun q hq => Function.update_of_ne hq _ _
  refine ⟨_, modify_some f hx0, ?_⟩
  rw [hf]
  refine Holds.ofSplit ?_ (stands_branch.mpr ⟨?_, ?_, ?_⟩) ?_ ?_
  · simpa [hx] using hr
  · simp [hx]
  · exact ha.congr fun q hq => hsame q (by rintro rfl; exact hnot.1.1 hq)
  · exact hb.congr fun q hq => hsame q (by rintro rfl; exact hnot.1.2 hq)
  · rw [ptr_branch, hx]
    rw [ptr_branch] at hc
    exact hc.congr fun q hq => hsame q (by rintro rfl; exact hnot.2 hq)
  · refine ((addrs_branch s y a b).append_right _).nodup_iff.mpr ?_
    rw [hx]
    exact hp

def rootParent : BinaryTree Cell → Ptr
  | nil => none
  | node c _ _ => c.parent

@[simp] theorem rootParent_branch (s : Side) (c : Cell) (a b : BinaryTree Cell) :
    rootParent (branch s c a b) = c.parent := by
  cases s <;> rfl

/-- The tree whose root has the parent `q`. -/
def adopt (q : Ptr) : BinaryTree Cell → BinaryTree Cell
  | nil => nil
  | node c l r => node { c with parent := q } l r

@[simp] theorem ptr_adopt (q : Ptr) (t : BinaryTree Cell) : ptr (adopt q t) = ptr t := by
  cases t <;> rfl

@[simp] theorem addrs_adopt (q : Ptr) (t : BinaryTree Cell) : addrs (adopt q t) = addrs t := by
  cases t <;> simp [adopt, addrs_node]

end Srv32.Gdb
