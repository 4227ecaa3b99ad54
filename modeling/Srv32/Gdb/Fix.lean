import Srv32.Gdb.Rotate

namespace Srv32.Gdb
open BinaryTree SearchTree

/-! What `fixViolation` makes of the tree, and that it runs to its end. -/

def red : BinaryTree Cell → Bool
  | nil => false
  | node c _ _ => c.color = .red

def paint (k : Color) : BinaryTree Cell → BinaryTree Cell
  | nil => nil
  | node c l r => node { c with color := k } l r

@[simp] theorem paint_branch (k : Color) (s : Side) (c : Cell) (a b : BinaryTree Cell) :
    paint k (branch s c a b) = branch s { c with color := k } a b := by
  cases s <;> rfl

@[simp] theorem ptr_paint (k : Color) (t : BinaryTree Cell) : ptr (paint k t) = ptr t := by
  cases t <;> rfl

/-- The child on side `s`. -/
def kid (s : Side) (t : BinaryTree Cell) : BinaryTree Cell :=
  match s with
  | .left => t.left
  | .right => t.right

theorem branch_kid (s : Side) (c : Cell) (l r : BinaryTree Cell) :
    branch s c (kid s (node c l r)) (kid s.other (node c l r)) = node c l r := by
  cases s <;> rfl

/-- The rotation that moves `x` down to the side `s`, with the colours of the two swapped. -/
def pivot (s : Side) (x y : Cell) (a b c : BinaryTree Cell) : BinaryTree Cell :=
  branch s { y with parent := x.parent, color := x.color }
    (branch s { x with parent := some y.addr, color := y.color } a (adopt (some x.addr) b)) c

/-- The subtree at the grandparent after the cases 2 and 3 of the source. -/
def turned (p g : Frame Cell) : BinaryTree Cell → BinaryTree Cell
  | nil => nil
  | node c l r =>
    if p.side = g.side then
      pivot g.side.other g.value p.value g.sibling p.sibling (node c l r)
    else
      pivot g.side.other g.value { c with parent := p.value.parent } g.sibling
        (kid g.side.other (node c l r))
        (branch g.side { p.value with parent := some c.addr } p.sibling
          (adopt (some p.value.addr) (kid g.side (node c l r))))

/-- The subtree at the grandparent after one turn of the loop. -/
def fixed (p g : Frame Cell) (t : BinaryTree Cell) : BinaryTree Cell :=
  if red g.sibling then
    branch g.side { g.value with color := .red } (paint .black (p.fill t)) (paint .black g.sibling)
  else turned p g t

def rebalance : List (Frame Cell) → BinaryTree Cell → BinaryTree Cell
  | p :: g :: ctx, t =>
    if red t ∧ p.value.color = .red then rebalance ctx (fixed p g t)
    else paint .black (plug (p :: g :: ctx) t)
  | [f], t => paint .black (plug [f] t)
  | [], t => paint .black t

section Steps
variable {m : Map} {ctx : List (Frame Cell)}

theorem isRed_holds {t : BinaryTree Cell} (hm : Holds m (plug ctx t)) :
    isRed m.heap (ptr t) = .ok (red t) := by
  cases t with
  | nil => rfl
  | node c l r =>
    have hl : load m.heap (some c.addr) = _ := Holds.load_at (s := .left) hm
    rw [isRed, ptr_node, if_neg (by simp), hl, ok_bind, Cell.toNode_color]
    rfl

theorem paint_holds {t : BinaryTree Cell} (k : Color) (hm : Holds m (plug ctx t)) (ht : t ≠ nil) :
    ∃ h, modify m.heap (ptr t) (·.setColor k) = .ok h ∧
      Holds ⟨h, m.root⟩ (plug ctx (paint k t)) := by
  cases t with
  | nil => exact absurd rfl ht
  | node c l r =>
    exact Holds.modify_at (s := .left) (y := { c with color := k }) (·.setColor k) hm rfl
      fun _ _ => rfl

theorem Holds.turn {f : Frame Cell} {t : BinaryTree Cell} (hm : Holds m (plug (f :: ctx) t)) :
    Holds m (plug (⟨f.side.other, f.value, t⟩ :: ctx) f.sibling) := by
  rw [plug_cons, fill_turn]
  exact hm

theorem recolor_holds {p g : Frame Cell} {t : BinaryTree Cell}
    (hm : Holds m (plug (p :: g :: ctx) t)) (hu : red g.sibling = true) :
    ∃ h1 h2 h3, modify m.heap (some g.value.addr) (·.setColor .red) = .ok h1 ∧
      modify h1 (some p.value.addr) (·.setColor .black) = .ok h2 ∧
      modify h2 (ptr g.sibling) (·.setColor .black) = .ok h3 ∧
      Holds ⟨h3, m.root⟩ (plug ctx (branch g.side { g.value with color := .red }
        (paint .black (p.fill t)) (paint .black g.sibling))) := by
  have hne : g.sibling ≠ nil := by
    intro h
    simp [h, red] at hu
  obtain ⟨h1, e1, hm1⟩ := paint_holds .red (show Holds m (plug ctx (g.fill (p.fill t))) from hm)
    (branch_ne_nil _ _ _ _)
  rw [Frame.fill, ptr_branch] at e1
  rw [Frame.fill, paint_branch] at hm1
  obtain ⟨h2, e2, hm2⟩ := paint_holds .black (show Holds ⟨h1, m.root⟩
    (plug (⟨g.side, { g.value with color := .red }, g.sibling⟩ :: ctx) (p.fill t)) from hm1)
    (branch_ne_nil _ _ _ _)
  rw [Frame.fill, ptr_branch] at e2
  obtain ⟨h3, e3, hm3⟩ := paint_holds .black hm2.turn hne
  refine ⟨h1, h2, h3, e1, e2, e3, ?_⟩
  rw [plug_cons, Frame.fill, branch_other] at hm3
  exact hm3

theorem pivot_holds {s : Side} {x y : Cell} {a b c : BinaryTree Cell}
    (hm : Holds m (plug ctx (branch s x a (branch s y b c)))) (hx : x.parent = parentAt ctx) :
    ∃ m' h1 h2, rotate s m (some x.addr) = .ok m' ∧
      (∃ n, load m'.heap (some y.addr) = .ok n ∧ n.color = y.color) ∧
      (∃ n, load m'.heap (some x.addr) = .ok n ∧ n.color = x.color) ∧
      modify m'.heap (some y.addr) (·.setColor x.color) = .ok h1 ∧
      modify h1 (some x.addr) (·.setColor y.color) = .ok h2 ∧
      Holds ⟨h2, m'.root⟩ (plug ctx (pivot s x y a b c)) := by
  obtain ⟨m', e, hm'⟩ := rotate_holds hm hx
  have hm2 : Holds m' (plug (⟨s, { y with parent := x.parent }, c⟩ :: ctx)
    (branch s { x with parent := some y.addr } a (adopt (some x.addr) b))) := hm'
  have ly : load m'.heap (some y.addr) = _ := hm'.load_at
  have lx : load m'.heap (some x.addr) = _ := hm2.load_at
  obtain ⟨h1, e1, hk1⟩ := Holds.modify_at (y := { y with parent := x.parent, color := x.color })
    (·.setColor x.color) hm' rfl fun _ _ => by cases s <;> rfl
  have hk1' : Holds ⟨h1, m'.root⟩
    (plug (⟨s, { y with parent := x.parent, color := x.color }, c⟩ :: ctx)
      (branch s { x with parent := some y.addr } a (adopt (some x.addr) b))) := hk1
  obtain ⟨h2, e2, hk2⟩ := Holds.modify_at (y := { x with parent := some y.addr, color := y.color })
    (·.setColor y.color) hk1' rfl fun _ _ => by cases s <;> rfl
  exact ⟨m', h1, h2, e, ⟨_, ly, Cell.toNode_color ..⟩, ⟨_, lx, Cell.toNode_color ..⟩, e1, e2, hk2⟩

theorem Side.eq_other {s u : Side} (h : s ≠ u) : s = u.other := by
  cases s <;> cases u <;> first | rfl | exact absurd rfl h

theorem Holds.ptr_ne_sibling {f : Frame Cell} {t : BinaryTree Cell}
    (hm : Holds m (plug (f :: ctx) t)) (ht : t ≠ nil) : ptr t ≠ ptr f.sibling := by
  intro he
  obtain ⟨a, ha⟩ : ∃ a, ptr t = some a := by
    cases t with
    | nil => exact absurd rfl ht
    | node c l r => exact ⟨_, rfl⟩
  have hn := hm.split.2.2.2
  rw [around, List.nodup_append] at hn
  exact hn.2.2 a (ptr_mem ha) a (by simp [ptr_mem (he.symm.trans ha)]) rfl

theorem fixSide_holds {p g : Frame Cell} {t : BinaryTree Cell}
    (hm : Holds m (plug (p :: g :: ctx) t)) (ht : t ≠ nil) (hl : Linked (p :: g :: ctx)) :
    ∃ m', fixSide g.side m (ptr t) (some p.value.addr) (some g.value.addr) =
        .ok (m', ptr (fixed p g t)) ∧ Holds m' (plug ctx (fixed p g t)) := by
  obtain ⟨hp, hg, -⟩ := hl
  have hmg : Holds m (plug ctx (branch g.side g.value (p.fill t) g.sibling)) := hm
  have hmp : Holds m (plug (g :: ctx) (branch p.side p.value t p.sibling)) := hm
  have hmu := Holds.turn (show Holds m (plug (g :: ctx) (p.fill t)) from hm)
  rw [fixed]
  cases hu : red g.sibling with
  | true =>
    obtain ⟨h1, h2, h3, e1, e2, e3, hk⟩ := recolor_holds hm hu
    refine ⟨⟨h3, m.root⟩, ?_, hk⟩
    simp only [fixSide, hmg.load_at, ok_bind, Cell.toNode_far, isRed_holds hmu, hu, e1, e2, e3,
      if_true, ptr_branch]
    rfl
  | false =>
    obtain ⟨c, l, r, rfl⟩ : ∃ c l r, t = node c l r := by
      cases t with
      | nil => exact absurd rfl ht
      | node c l r => exact ⟨c, l, r, rfl⟩
    rw [turned]
    by_cases hs : p.side = g.side
    · -- case 3 alone
      have hf : p.fill (node c l r) = branch g.side p.value (node c l r) p.sibling := by
        rw [Frame.fill, hs]
      have hmp : Holds m (plug (g :: ctx) (branch g.side p.value (node c l r) p.sibling)) := hf ▸ hm
      have hk : Holds m (plug ctx (branch g.side.other g.value g.sibling
          (branch g.side.other p.value p.sibling (node c l r)))) := by
        rw [branch_other, branch_other]
        exact hmp
      obtain ⟨m', h1, h2, e, ⟨np, lp, cp⟩, ⟨ng, lg, cg⟩, e1, e2, hk'⟩ := pivot_holds hk hg
      refine ⟨⟨h2, m'.root⟩, ?_, ?_⟩
      · have hne := hm.ptr_ne_sibling ht
        simp only [fixSide, hmg.load_at, ok_bind, Cell.toNode_far, isRed_holds hmu, hu,
          hmp.load_at, hs, if_neg hne, pure_ok, e, lp, lg, cp, cg, e1, e2, if_true, pivot,
          ptr_branch, Bool.false_eq_true, if_false]
      · simp only [hs, if_true, Bool.false_eq_true, if_false]
        exact hk'
    · -- case 2 brings the subtree to the outer side
      have hf : p.fill (node c l r) = branch g.side.other p.value (node c l r) p.sibling := by
        rw [Frame.fill, Side.eq_other hs]
      have hmp : Holds m (plug (g :: ctx) (branch g.side.other p.value (node c l r) p.sibling)) :=
        hf ▸ hm
      have hin : Holds m (plug (g :: ctx) (branch g.side p.value p.sibling (branch g.side c
          (kid g.side (node c l r)) (kid g.side.other (node c l r))))) := by
        rw [branch_kid, ← branch_other]
        exact hmp
      obtain ⟨m1, e0, hm1⟩ := rotate_holds hin hp
      have hp1 : Holds m1 (plug (⟨g.side, { c with parent := p.value.parent },
          kid g.side.other (node c l r)⟩ :: g :: ctx)
        (branch g.side { p.value with parent := some c.addr } p.sibling
          (adopt (some p.value.addr) (kid g.side (node c l r))))) := hm1
      have hk : Holds m1 (plug ctx (branch g.side.other g.value g.sibling
          (branch g.side.other { c with parent := p.value.parent } (kid g.side.other (node c l r))
            (branch g.side { p.value with parent := some c.addr } p.sibling
              (adopt (some p.value.addr) (kid g.side (node c l r))))))) := by
        rw [branch_other, branch_other]
        exact hm1
      obtain ⟨m', h1, h2, e, ⟨np, lp, cp⟩, ⟨ng, lg, cg⟩, e1, e2, hk'⟩ := pivot_holds hk hg
      have lp1 : load m1.heap (some p.value.addr) = _ := hp1.load_at
      refine ⟨⟨h2, m'.root⟩, ?_, ?_⟩
      · simp only [fixSide, hmg.load_at, ok_bind, Cell.toNode_far, isRed_holds hmu, hu, hmp.load_at,
          Cell.toNode_near, e0, lp1, Cell.toNode_parent, pure_ok, if_true, if_neg hs, e, lp, lg, cp,
          cg, e1, e2, pivot, ptr_branch, Bool.false_eq_true, if_false]
      · simp only [hs, Bool.false_eq_true, if_false]
        exact hk'

theorem ptr_some {t : BinaryTree Cell} (ht : t ≠ nil) : ∃ a ∈ addrs t, ptr t = some a := by
  cases t with
  | nil => exact absurd rfl ht
  | node c l r => exact ⟨c.addr, by simp [addrs_node], rfl⟩

theorem Holds.ptr_ne_root {f : Frame Cell} {t : BinaryTree Cell}
    (hm : Holds m (plug (f :: ctx) t)) (ht : t ≠ nil) : ptr t ≠ m.root := by
  obtain ⟨hroot, -, -, hn⟩ := hm.split
  obtain ⟨a, ha, hp⟩ := ptr_some ht
  obtain ⟨b, hb, htop⟩ := top_cons_mem f ctx (ptr t)
  rw [hroot, htop, hp, Ne, Option.some.injEq]
  exact (List.nodup_append.mp hn).2.2 a ha b hb

theorem Holds.loadRoot {t : BinaryTree Cell} (hm : Holds m (plug ctx t)) (ht : t ≠ nil) :
    ∃ n, load m.heap (ptr t) = .ok n ∧ n.parent = rootParent t ∧ (n.color = .red ↔ red t) := by
  cases t with
  | nil => exact absurd rfl ht
  | node c l r =>
    exact ⟨_, Holds.load_at (s := .left) hm, rfl, by simp [red]⟩

theorem violates_below {f : Frame Cell} {t : BinaryTree Cell} (hm : Holds m (plug (f :: ctx) t))
    (ht : t ≠ nil) (hp : rootParent t = some f.value.addr) :
    violates m (ptr t) = .ok (decide (red t ∧ f.value.color = .red)) := by
  have hmf : Holds m (plug ctx (branch f.side f.value t f.sibling)) := hm
  obtain ⟨n, hn, hpar, hcol⟩ := hm.loadRoot ht
  rw [violates, if_neg (hm.ptr_ne_root ht), hn, ok_bind, hpar, hp]
  cases hc : n.color with
  | black =>
    have hr : ¬ red t = true := by
      rw [← hcol, hc]
      decide
    simp [hr]
  | red =>
    have hr : red t = true := hcol.mp hc
    simp [hmf.load_at, hr]

theorem violates_root {t : BinaryTree Cell} (hm : Holds m t) : violates m (ptr t) = .ok false := by
  rw [violates, if_pos hm.root.symm]
  rfl

theorem fixed_ne_nil (p g : Frame Cell) {t : BinaryTree Cell} (ht : t ≠ nil) :
    fixed p g t ≠ nil := by
  cases t with
  | nil => exact absurd rfl ht
  | node c l r =>
    simp only [fixed, turned, pivot]
    split_ifs <;> exact branch_ne_nil _ _ _ _

theorem rootParent_fixed (p g : Frame Cell) {t : BinaryTree Cell} (ht : t ≠ nil) :
    rootParent (fixed p g t) = g.value.parent := by
  cases t with
  | nil => exact absurd rfl ht
  | node c l r =>
    simp only [fixed, turned, pivot]
    split_ifs <;> exact rootParent_branch ..

theorem fixViolation_done {k : ℕ} {pt : Ptr} {u : BinaryTree Cell} (hm : Holds m u) (hu : u ≠ nil)
    (hv : violates m pt = .ok false) :
    ∃ m', fixViolation (k + 1) m pt = .ok m' ∧ Holds m' (paint .black u) := by
  obtain ⟨h, e, hk⟩ := paint_holds .black (show Holds m (plug [] u) from hm) hu
  refine ⟨⟨h, m.root⟩, ?_, hk⟩
  rw [← hm.root] at e
  simp [fixViolation, hv, e]

theorem fixViolation_turn {k : ℕ} {p g : Frame Cell} {t : BinaryTree Cell}
    (hm : Holds m (plug (p :: g :: ctx) t)) (ht : t ≠ nil)
    (hp : rootParent t = some p.value.addr) (hl : Linked (p :: g :: ctx))
    (hv : red t ∧ p.value.color = .red) :
    ∃ m', fixViolation (k + 1) m (ptr t) = fixViolation k m' (ptr (fixed p g t)) ∧
      Holds m' (plug ctx (fixed p g t)) := by
  have hmp : Holds m (plug (g :: ctx) (branch p.side p.value t p.sibling)) := hm
  have hmg : Holds m (plug ctx (branch g.side g.value (p.fill t) g.sibling)) := hm
  have hg : p.value.parent = some g.value.addr := hl.1
  obtain ⟨n, hn, hpar, -⟩ := hm.loadRoot ht
  obtain ⟨m', e, hk⟩ := fixSide_holds hm ht hl
  refine ⟨m', ?_, hk⟩
  have hs := left_iff_side (f := g) (t := p.fill t)
    (fun s => fixSide s m (ptr t) (some p.value.addr) (some g.value.addr))
    (Holds.ptr_ne_sibling (show Holds m (plug (g :: ctx) (p.fill t)) from hm)
      (branch_ne_nil _ _ _ _))
  have hpf : ptr (p.fill t) = some p.value.addr := ptr_branch ..
  rw [hpf, e] at hs
  have hv' : violates m (ptr t) = .ok true := by
    rw [violates_below hm ht hp, decide_eq_true hv]
  simp only [fixViolation, hv', ok_bind, if_true, hn, hpar, hp, hmp.load_at, Cell.toNode_parent, hg,
    hmg.load_at, hpf, hs]

theorem fixViolation_holds {k : ℕ} {t : BinaryTree Cell} (hm : Holds m (plug ctx t)) (ht : t ≠ nil)
    (hp : rootParent t = parentAt ctx) (hl : Linked ctx) (hb : TopBlack ctx)
    (hk : ctx.length < k) :
    ∃ m', fixViolation k m (ptr t) = .ok m' ∧ Holds m' (rebalance ctx t) := by
  induction ctx, t using rebalance.induct generalizing m k with
  | case1 p g ctx t hv ih =>
    obtain ⟨k, rfl⟩ := Nat.exists_eq_succ_of_ne_zero (Nat.ne_of_gt (Nat.zero_lt_of_lt hk))
    obtain ⟨m1, e, hm1⟩ := fixViolation_turn (k := k) hm ht hp hl hv
    have hk' : ctx.length < k := by
      simp only [List.length_cons] at hk
      omega
    obtain ⟨m', e', hm'⟩ := ih hm1 (fixed_ne_nil p g ht) ((rootParent_fixed p g ht).trans hl.2.1)
      hl.2.2 hb.tail.tail hk'
    rw [rebalance, if_pos hv]
    exact ⟨m', e.trans e', hm'⟩
  | case2 p g ctx t hv =>
    obtain ⟨k, rfl⟩ := Nat.exists_eq_succ_of_ne_zero (Nat.ne_of_gt (Nat.zero_lt_of_lt hk))
    rw [rebalance, if_neg hv]
    refine fixViolation_done hm (plug_ne_nil _ ht) ?_
    rw [violates_below hm ht hp, decide_eq_false hv]
  | case3 f t =>
    obtain ⟨k, rfl⟩ := Nat.exists_eq_succ_of_ne_zero (Nat.ne_of_gt (Nat.zero_lt_of_lt hk))
    rw [rebalance]
    refine fixViolation_done hm (branch_ne_nil _ _ _ _) ?_
    have hv : ¬ (red t ∧ f.value.color = .red) := by
      rintro ⟨-, hr⟩
      rw [show f.value.color = .black from hb] at hr
      cases hr
    rw [violates_below hm ht hp, decide_eq_false hv]
  | case4 t =>
    obtain ⟨k, rfl⟩ := Nat.exists_eq_succ_of_ne_zero (Nat.ne_of_gt (Nat.zero_lt_of_lt hk))
    rw [rebalance]
    exact fixViolation_done hm ht (violates_root hm)

end Steps

end Srv32.Gdb
