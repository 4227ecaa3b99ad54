import Srv32.Gdb.Fix
import Mathlib.Algebra.Order.Group.Int

namespace Srv32.Gdb
open BinaryTree SearchTree

/-! What rebalancing keeps: the keys in their order, and a parent for every node below the root. -/

def Cell.key (c : Cell) : ℤ := c.data.toInt

def keys (t : BinaryTree Cell) : List ℤ := (inorder t).map Cell.key

@[simp] theorem keys_nil : keys nil = [] := rfl
@[simp] theorem keys_node (c : Cell) (l r : BinaryTree Cell) :
    keys (node c l r) = keys l ++ c.key :: keys r := by
  simp [keys]

@[simp] theorem keys_adopt (q : Ptr) (t : BinaryTree Cell) : keys (adopt q t) = keys t := by
  cases t <;> simp [adopt, Cell.key]

@[simp] theorem keys_paint (k : Color) (t : BinaryTree Cell) : keys (paint k t) = keys t := by
  cases t <;> simp [paint, Cell.key]

theorem keys_map (t : BinaryTree Cell) : inorder (t.map Cell.key) = keys t :=
  inorder_map _ _

theorem keys_plug_congr {t u : BinaryTree Cell} (c : List (Frame Cell)) (h : keys t = keys u) :
    keys (plug c t) = keys (plug c u) := by
  simp only [keys] at h
  simp only [keys, inorder_plug, List.map_append, h]

theorem keys_fixed (p g : Frame Cell) (t : BinaryTree Cell) (ht : t ≠ nil) :
    keys (fixed p g t) = keys (g.fill (p.fill t)) := by
  obtain ⟨ps, pc, pt⟩ := p
  obtain ⟨gs, gc, gt⟩ := g
  cases t with
  | nil => exact absurd rfl ht
  | node c l r =>
    simp only [fixed, turned, pivot, Frame.fill]
    cases gs <;> cases ps <;> split_ifs <;> simp_all [Cell.key, kid]

theorem keys_rebalance (ctx : List (Frame Cell)) (t : BinaryTree Cell) (ht : t ≠ nil) :
    keys (rebalance ctx t) = keys (plug ctx t) := by
  induction ctx, t using rebalance.induct with
  | case1 p g ctx t hv ih =>
    rw [rebalance, if_pos hv, ih (fixed_ne_nil p g ht), plug_cons, plug_cons]
    exact keys_plug_congr ctx (keys_fixed p g t ht)
  | case2 p g ctx t hv => rw [rebalance, if_neg hv, keys_paint]
  | case3 f t => rw [rebalance, keys_paint]
  | case4 t => rw [rebalance, keys_paint, plug_nil]

/-- No node of the tree is without a parent pointer. -/
def NoOrphan (t : BinaryTree Cell) : Prop := ∀ c ∈ inorder t, c.parent ≠ none

@[simp] theorem noOrphan_nil : NoOrphan nil := fun _ h => absurd h (List.not_mem_nil)

@[simp] theorem noOrphan_node {c : Cell} {l r : BinaryTree Cell} :
    NoOrphan (node c l r) ↔ c.parent ≠ none ∧ NoOrphan l ∧ NoOrphan r := by
  simp only [NoOrphan, inorder_node, List.mem_append, List.mem_cons]
  constructor
  · intro h
    exact ⟨h c (.inr (.inl rfl)), fun d hd => h d (.inl hd), fun d hd => h d (.inr (.inr hd))⟩
  · rintro ⟨hc, hl, hr⟩ d (hd | rfl | hd)
    · exact hl d hd
    · exact hc
    · exact hr d hd

/-- Only the root may lack one. -/
def Tended : BinaryTree Cell → Prop
  | nil => True
  | node _ l r => NoOrphan l ∧ NoOrphan r

@[simp] theorem tended_nil : Tended nil := trivial

@[simp] theorem tended_branch {s : Side} {c : Cell} {a b : BinaryTree Cell} :
    Tended (branch s c a b) ↔ NoOrphan a ∧ NoOrphan b := by
  cases s with
  | left => rfl
  | right => exact and_comm

theorem noOrphan_branch {s : Side} {c : Cell} {a b : BinaryTree Cell} :
    NoOrphan (branch s c a b) ↔ c.parent ≠ none ∧ NoOrphan a ∧ NoOrphan b := by
  cases s with
  | left => exact noOrphan_node
  | right => exact noOrphan_node.trans (and_congr Iff.rfl and_comm)

theorem Tended.noOrphan {t : BinaryTree Cell} {a : Addr} (ht : Tended t)
    (hp : rootParent t = some a) : NoOrphan t := by
  cases t with
  | nil => exact noOrphan_nil
  | node c l r =>
    have hc : c.parent = some a := hp
    exact noOrphan_node.mpr ⟨by simp [hc], ht⟩

theorem noOrphan_adopt {t : BinaryTree Cell} (a : Addr) (ht : Tended t) :
    NoOrphan (adopt (some a) t) := by
  cases t with
  | nil => exact noOrphan_nil
  | node c l r => exact noOrphan_node.mpr ⟨by simp, ht⟩

theorem NoOrphan.tended {t : BinaryTree Cell} (ht : NoOrphan t) : Tended t := by
  cases t with
  | nil => trivial
  | node c l r => exact (noOrphan_node.mp ht).2

theorem tended_paint {k : Color} {t : BinaryTree Cell} : Tended (paint k t) ↔ Tended t := by
  cases t <;> rfl

theorem noOrphan_paint {k : Color} {t : BinaryTree Cell} : NoOrphan (paint k t) ↔ NoOrphan t := by
  cases t <;> simp [paint]

theorem noOrphan_kid {s : Side} {t : BinaryTree Cell} (ht : Tended t) : NoOrphan (kid s t) := by
  cases t with
  | nil => cases s <;> exact noOrphan_nil
  | node c l r =>
    cases s with
    | left => exact ht.1
    | right => exact ht.2

/-- The subtrees beside the path have no orphan. -/
def Flanked (ctx : List (Frame Cell)) : Prop := ∀ f ∈ ctx, NoOrphan f.sibling

theorem tended_plug {ctx : List (Frame Cell)} {t : BinaryTree Cell} (hl : Linked ctx)
    (hf : Flanked ctx) (ht : Tended t) (hp : rootParent t = parentAt ctx) :
    Tended (plug ctx t) := by
  induction ctx generalizing t with
  | nil => exact ht
  | cons f c ih =>
    have hs := hf f (by simp)
    refine ih hl.2 (fun g hg => hf g (by simp [hg])) (tended_branch.mpr ⟨ht.noOrphan hp, hs⟩) ?_
    rw [Frame.fill, rootParent_branch]
    exact hl.1

theorem tended_pivot {s : Side} {x y : Cell} {a b c : BinaryTree Cell} (ha : NoOrphan a)
    (hb : Tended b) (hc : NoOrphan c) : Tended (pivot s x y a b c) := by
  refine tended_branch.mpr ⟨noOrphan_branch.mpr ⟨by simp, ha, noOrphan_adopt _ hb⟩, hc⟩

theorem tended_fixed {p g : Frame Cell} {t : BinaryTree Cell} (hp : NoOrphan p.sibling)
    (hg : NoOrphan g.sibling) (ht : NoOrphan t) (hpp : p.value.parent ≠ none) :
    Tended (fixed p g t) := by
  rw [fixed]
  split
  · exact tended_branch.mpr ⟨noOrphan_paint.mpr (noOrphan_branch.mpr ⟨hpp, ht, hp⟩),
      noOrphan_paint.mpr hg⟩
  · cases t with
    | nil => trivial
    | node c l r =>
      rw [turned]
      split
      · exact tended_pivot hg hp.tended ht
      · refine tended_pivot hg (noOrphan_kid ht.tended).tended ?_
        exact noOrphan_branch.mpr ⟨by simp, hp, noOrphan_adopt _ (noOrphan_kid ht.tended).tended⟩

theorem tended_rebalance {ctx : List (Frame Cell)} {t : BinaryTree Cell} (hl : Linked ctx)
    (hf : Flanked ctx) (hn : t ≠ nil) (ht : Tended t) (hp : rootParent t = parentAt ctx) :
    Tended (rebalance ctx t) := by
  induction ctx, t using rebalance.induct with
  | case1 p g ctx t hv ih =>
    rw [rebalance, if_pos hv]
    refine ih hl.2.2 (fun f h => hf f (by simp [h])) (fixed_ne_nil p g hn) ?_
      ((rootParent_fixed p g hn).trans hl.2.1)
    refine tended_fixed (hf p (by simp)) (hf g (by simp)) (ht.noOrphan hp) ?_
    rw [hl.1]
    exact Option.some_ne_none _
  | case2 p g ctx t hv =>
    rw [rebalance, if_neg hv, tended_paint]
    exact tended_plug hl hf ht hp
  | case3 f t =>
    rw [rebalance, tended_paint]
    exact tended_plug hl hf ht hp
  | case4 t =>
    rw [rebalance, tended_paint]
    exact ht

theorem red_rebalance (ctx : List (Frame Cell)) (t : BinaryTree Cell) :
    red (rebalance ctx t) = false := by
  have hp : ∀ u : BinaryTree Cell, red (paint .black u) = false := fun u => by cases u <;> rfl
  induction ctx, t using rebalance.induct with
  | case1 p g ctx t hv ih => rw [rebalance, if_pos hv, ih]
  | case2 p g ctx t hv => rw [rebalance, if_neg hv, hp]
  | case3 f t => rw [rebalance, hp]
  | case4 t => rw [rebalance, hp]

end Srv32.Gdb
