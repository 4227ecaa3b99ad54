import Srv32.Data.RedBlack
import Srv32.Gdb.Breakpoints

/-! Insertion keeps the red-black rules. One red node below another is all that `fixViolation` finds
broken, and each turn of its loop moves that up or ends it. -/

namespace Srv32.Gdb
open BinaryTree SearchTree

def Cell.black (c : Cell) : Bool := c.color = .black

variable {n : ℕ} {q : Ptr} {t : BinaryTree Cell} {ctx : List (Frame Cell)} {p g : Frame Cell}

theorem red_eq_redTop (t : BinaryTree Cell) : red t = redTop Cell.black t := by
  cases t with
  | nil => rfl
  | node c l r =>
    rw [red, redTop, Cell.black]
    cases c.color <;> rfl

theorem black_of_red {c : Cell} (hc : c.color = .red) : c.black = false := by
  rw [Cell.black, hc]
  rfl

theorem black_of_red_node {c : Cell} {l r : BinaryTree Cell} (h : red (node c l r) = true) :
    c.black = false := by
  apply black_of_red
  simpa [red] using h

/-! Heights and colours. -/

theorem redBlack_adopt (h : RedBlack Cell.black n t) : RedBlack Cell.black n (adopt q t) := by
  cases t with
  | nil => exact h
  | node c l r => exact h

theorem redTop_adopt : redTop Cell.black (adopt q t) = redTop Cell.black t := by
  cases t <;> rfl

theorem redBlack_kid {s : Side} (h : RedBlack Cell.black n t) (ht : red t = true) :
    RedBlack Cell.black n (kid s t) ∧ redTop Cell.black (kid s t) = false := by
  cases t with
  | nil => cases ht
  | node c l r =>
    obtain ⟨hl, hr, rl, rr⟩ := h.below (s := .left) (black_of_red_node ht)
    cases s with
    | left => exact ⟨hl, rl⟩
    | right => exact ⟨hr, rr⟩

/-- Painting a red root black adds one to every path. -/
theorem redBlack_paint (h : RedBlack Cell.black n t) (ht : red t = true) :
    RedBlack Cell.black (n + 1) (paint .black t) := by
  cases t with
  | nil => cases ht
  | node c l r =>
    obtain ⟨hl, hr, -, -⟩ := h.below (s := .left) (black_of_red_node ht)
    exact redBlack_black (s := .left) rfl hl hr

theorem exists_redBlack_paint (h : RedBlack Cell.black n t) :
    ∃ m, RedBlack Cell.black m (paint .black t) := by
  cases t with
  | nil => exact ⟨n, h⟩
  | node c l r =>
    obtain ⟨-, m, -, hl, hr⟩ := h
    exact ⟨m + 1, redBlack_black (s := .left) rfl hl hr⟩

/-- A red node turned over a black one, with the colours of the two swapped. -/
theorem redBlack_pivot {s : Side} {x y : Cell} {a b c : BinaryTree Cell} (hx : x.black = true)
    (hy : y.black = false) (ha : RedBlack Cell.black n a) (hb : RedBlack Cell.black n b)
    (hc : RedBlack Cell.black n c) (ra : redTop Cell.black a = false)
    (rb : redTop Cell.black b = false) : RedBlack Cell.black (n + 1) (pivot s x y a b c) := by
  apply redBlack_black
  · exact hx
  · apply redBlack_red _ ha (redBlack_adopt hb) ra (redTop_adopt.trans rb)
    exact hy
  · exact hc

/-- One turn of the loop: the subtree at the grandparent is in order, and as high as before. -/
theorem redBlack_fixed (hole : Hole Cell.black n (p :: g :: ctx)) (h : RedBlack Cell.black n t)
    (ht : red t = true) (hp : p.value.color = .red) :
    RedBlack Cell.black (n + 1) (fixed p g t) ∧ Hole Cell.black (n + 1) ctx := by
  have hpb : p.value.black = false := black_of_red hp
  obtain ⟨hpred, hps, hole⟩ := hole
  obtain ⟨rps, hgb⟩ := hpred hpb
  have hgb : g.value.black = true := hgb
  rw [hpb] at hole
  obtain ⟨-, hgs, hole⟩ := hole
  rw [hgb] at hole
  refine ⟨?_, hole⟩
  have hn : t ≠ nil := by
    rintro rfl
    cases ht
  rw [fixed]
  split_ifs with hu
  · -- the black of the grandparent moves down to both of its children
    have hfill : RedBlack Cell.black (n + 1) (paint .black (p.fill t)) := by
      rw [Frame.fill, paint_branch]
      exact redBlack_black rfl h hps
    have hpaint : ∀ u : BinaryTree Cell, redTop Cell.black (paint .black u) = false := by
      intro u
      cases u <;> rfl
    exact redBlack_red rfl hfill (redBlack_paint hgs hu) (hpaint _) (hpaint _)
  · have rgs : redTop Cell.black g.sibling = false := by
      rw [← red_eq_redTop]
      simpa using hu
    cases t with
    | nil => exact absurd rfl hn
    | node c l r =>
      have hcb := black_of_red_node ht
      rw [turned]
      split_ifs
      · exact redBlack_pivot hgb hpb hgs hps h rgs rps
      · obtain ⟨hk, rk⟩ := redBlack_kid (s := g.side.other) h ht
        obtain ⟨hk', rk'⟩ := redBlack_kid (s := g.side) h ht
        apply redBlack_pivot hgb hcb hgs hk _ rgs rk
        exact redBlack_red hpb hps (redBlack_adopt hk') rps (redTop_adopt.trans rk')

theorem redBlack_rebalance (hole : Hole Cell.black n ctx) (h : RedBlack Cell.black n t) :
    ∃ m, RedBlack Cell.black m (rebalance ctx t) := by
  induction ctx, t using rebalance.induct generalizing n with
  | case1 p g ctx t hv ih =>
    obtain ⟨hfixed, hole⟩ := redBlack_fixed hole h hv.1 hv.2
    rw [rebalance, if_pos hv]
    exact ih hole hfixed
  | case2 p g ctx t hv =>
    rw [rebalance, if_neg hv]
    obtain ⟨m, hm⟩ := hole.plug h fun hr => by
      rw [← red_eq_redTop] at hr
      have hp : p.value.color ≠ .red := fun hp => hv ⟨hr, hp⟩
      change p.value.black = true
      rw [Cell.black]
      cases hc : p.value.color with
      | red => exact absurd hc hp
      | black => rfl
    exact exists_redBlack_paint hm
  | case3 f t =>
    obtain ⟨-, hs, -⟩ := hole
    refine ⟨n + 1, ?_⟩
    rw [rebalance, plug_cons, plug_nil, Frame.fill, paint_branch]
    exact redBlack_black rfl h hs
  | case4 t =>
    rw [rebalance]
    exact exists_redBlack_paint h

/-- The hole at the end of the search path of a key that is not there. -/
theorem hole_descend {d : BitVec 32} (hole : Hole Cell.black n ctx) (h : RedBlack Cell.black n t)
    (hr : redTop Cell.black t = true → BlackAbove Cell.black ctx) (hd : d.toInt ∉ keys t) :
    Hole Cell.black 0 (descend d ctx t) := by
  induction t generalizing n ctx with
  | nil =>
    obtain rfl : n = 0 := h
    exact hole
  | node x l r ihl ihr =>
    simp only [keys_node, List.mem_append, List.mem_cons, not_or] at hd
    obtain ⟨dl, dx, dr⟩ := hd
    rw [descend]
    split_ifs with h1 h2
    · obtain ⟨m, hole, hl, hrl⟩ := Hole.down (s := .left) hole h hr
      exact ihl hole hl hrl dl
    · obtain ⟨m, hole, hl, hrl⟩ := Hole.down (s := .right) hole h hr
      exact ihr hole hl hrl dr
    · rw [BitVec.slt_iff_toInt_lt] at h1 h2
      exact absurd (le_antisymm (not_lt.mp h2) (not_lt.mp h1)) dx

theorem redBlack_planted {c : Cell} (h : RedBlack Cell.black n t) (ht : red t = false)
    (hc : c.color = .red) (hk : c.key ∉ keys t) :
    ∃ m, RedBlack Cell.black m (planted c t) := by
  have hole : Hole Cell.black 0 (descend c.data [] t) := by
    refine hole_descend (show Hole Cell.black n [] from trivial) h (fun hr => ?_) hk
    rw [← red_eq_redTop, ht] at hr
    cases hr
  apply redBlack_rebalance hole
  exact redBlack_red (s := .left) (black_of_red hc) rfl rfl rfl rfl

/-! Parent pointers. -/

/-- Every node's parent pointer is its parent, and that of the root is `q`. -/
def Parented : Ptr → BinaryTree Cell → Prop
  | _, nil => True
  | q, node c l r => c.parent = q ∧ Parented (some c.addr) l ∧ Parented (some c.addr) r

/-- Of the frames, and of the subtrees beside the path. -/
def ParentedAbove : List (Frame Cell) → Prop
  | [] => True
  | f :: c => f.value.parent = parentAt c ∧ Parented (some f.value.addr) f.sibling ∧ ParentedAbove c

theorem parented_branch {s : Side} {c : Cell} {a b : BinaryTree Cell} :
    Parented q (branch s c a b) ↔
      c.parent = q ∧ Parented (some c.addr) a ∧ Parented (some c.addr) b := by
  cases s with
  | left => exact Iff.rfl
  | right => exact and_congr Iff.rfl and_comm

theorem parented_adopt {u : Ptr} (h : Parented q t) : Parented u (adopt u t) := by
  cases t with
  | nil => trivial
  | node c l r => exact ⟨rfl, h.2⟩

theorem parented_paint {k : Color} : Parented q (paint k t) ↔ Parented q t := by
  cases t <;> rfl

theorem parented_kid {s : Side} {c : Cell} {l r : BinaryTree Cell} (h : Parented q (node c l r)) :
    Parented (some c.addr) (kid s (node c l r)) := by
  cases s with
  | left => exact h.2.1
  | right => exact h.2.2

theorem parented_plug (hc : ParentedAbove ctx) (h : Parented (parentAt ctx) t) :
    Parented none (plug ctx t) := by
  induction ctx generalizing t with
  | nil => exact h
  | cons f c ih =>
    obtain ⟨hf, hs, hc⟩ := hc
    exact ih hc (parented_branch.mpr ⟨hf, h, hs⟩)

theorem parented_pivot {s : Side} {x y : Cell} {a b c : BinaryTree Cell} {u : Ptr}
    (ha : Parented (some x.addr) a) (hb : Parented u b) (hc : Parented (some y.addr) c) :
    Parented x.parent (pivot s x y a b c) := by
  apply parented_branch.mpr
  refine ⟨rfl, ?_, hc⟩
  exact parented_branch.mpr ⟨rfl, ha, parented_adopt hb⟩

theorem parented_fixed (hc : ParentedAbove (p :: g :: ctx))
    (h : Parented (some p.value.addr) t) : Parented (parentAt ctx) (fixed p g t) := by
  obtain ⟨hp, hps, hg, hgs, -⟩ := hc
  rw [fixed]
  split_ifs
  · apply parented_branch.mpr
    refine ⟨hg, ?_, parented_paint.mpr hgs⟩
    exact parented_paint.mpr (parented_branch.mpr ⟨hp, h, hps⟩)
  · cases t with
    | nil => trivial
    | node c l r =>
      rw [turned, ← hg]
      split_ifs
      · exact parented_pivot hgs hps h
      · apply parented_pivot hgs (parented_kid h)
        apply parented_branch.mpr
        exact ⟨rfl, hps, parented_adopt (parented_kid h)⟩

theorem parented_rebalance (hc : ParentedAbove ctx) (h : Parented (parentAt ctx) t) :
    Parented none (rebalance ctx t) := by
  induction ctx, t using rebalance.induct with
  | case1 p g ctx t hv ih =>
    rw [rebalance, if_pos hv]
    exact ih hc.2.2.2.2 (parented_fixed hc h)
  | case2 p g ctx t hv =>
    rw [rebalance, if_neg hv, parented_paint]
    exact parented_plug hc h
  | case3 f t =>
    rw [rebalance, parented_paint]
    exact parented_plug hc h
  | case4 t =>
    rw [rebalance, parented_paint]
    exact h

theorem parentedAbove_descend {d : BitVec 32} (hc : ParentedAbove ctx)
    (h : Parented (parentAt ctx) t) : ParentedAbove (descend d ctx t) := by
  induction t generalizing ctx with
  | nil => exact hc
  | node x l r ihl ihr =>
    obtain ⟨-, hl, hr⟩ := h
    rw [descend]
    split_ifs
    · exact ihl ⟨rfl, hr, hc⟩ hl
    · exact ihr ⟨rfl, hl, hc⟩ hr
    · exact hc

theorem parented_planted {c : Cell} (h : Parented none t) : Parented none (planted c t) := by
  apply parented_rebalance
  · exact parentedAbove_descend trivial h
  · exact ⟨rfl, trivial, trivial⟩

/-! A sequence of insertions. -/

/-- `insertNode` on each key, at the address that `malloc` returns for it. -/
def insertNodes (k : ℕ) : Map → List (BitVec 32 × Addr) → Except Stop Map
  | m, [] => .ok m
  | m, c :: cs => do
    let m ← insertNode k m c.1 c.2
    insertNodes k m cs

/-- Each call of `malloc` returns an address that is not allocated. -/
def Mallocs (k : ℕ) : Map → List (BitVec 32 × Addr) → Prop
  | _, [] => True
  | m, c :: cs => m.heap c.2 = none ∧ ∀ m', insertNode k m c.1 c.2 = .ok m' → Mallocs k m' cs

/-- The map holds the tree `t`, and `t` is a red-black tree with the keys `ds`. -/
structure RedBlackMap (m : Map) (t : BinaryTree Cell) (ds : List (BitVec 32)) : Prop where
  holds : Holds m t
  ordered : Ordered (t.map Cell.key)
  keys : ∀ a : ℤ, a ∈ keys t ↔ ∃ d ∈ ds, d.toInt = a
  root : red t = false
  noRedRed : NoRedRed Cell.black t
  blacks : ∀ i ∈ blacks Cell.black t, ∀ j ∈ blacks Cell.black t, i = j
  parents : Parented none t

/-- What the calls keep. -/
structure Grown (m : Map) (t : BinaryTree Cell) (ds : List (BitVec 32)) : Prop where
  holds : Holds m t
  ordered : Ordered (t.map Cell.key)
  keys : ∀ a : ℤ, a ∈ keys t ↔ ∃ d ∈ ds, d.toInt = a
  root : red t = false
  redBlack : ∃ n, RedBlack Cell.black n t
  parents : Parented none t
  size : t.numNodes ≤ ds.length

section Insertions
variable {m : Map} {ds : List (BitVec 32)} {cs : List (BitVec 32 × Addr)} {k : ℕ}

theorem Grown.map (hg : Grown m t ds) : RedBlackMap m t ds := by
  obtain ⟨n, hn⟩ := hg.redBlack
  refine ⟨hg.holds, hg.ordered, hg.keys, hg.root, hn.noRedRed, ?_, hg.parents⟩
  intro i hi j hj
  exact (hn.eq_of_mem_blacks hi).trans (hn.eq_of_mem_blacks hj).symm

theorem grown_empty (hroot : m.root = none) : Grown m nil [] where
  holds := ⟨hroot, trivial, List.nodup_nil⟩
  ordered := ordered_nil
  keys a := by simp
  root := rfl
  redBlack := ⟨0, rfl⟩
  parents := trivial
  size := le_rfl

theorem rootParent_of_parented (h : Parented none t) : rootParent t = none := by
  cases t with
  | nil => rfl
  | node c l r => exact h.1

theorem Grown.insert (hg : Grown m t ds) {d : BitVec 32} {p : Addr} (hp : m.heap p = none)
    (hd : d ∉ ds) (hk : ds.length < k) :
    ∃ m' t', insertNode k m d p = .ok m' ∧ Grown m' t' (ds ++ [d]) := by
  have hroot := rootParent_of_parented hg.parents
  have hnew : Cell.key ⟨p, d, .red, none⟩ ∉ Gdb.keys t := by
    intro h
    obtain ⟨e, he, hde⟩ := (hg.keys _).mp h
    obtain rfl : e = d := BitVec.toInt_inj.mp hde
    exact hd he
  have hheight : t.height < k := (t.height_le_numNodes.trans hg.size).trans_lt hk
  obtain ⟨m', e, hm'⟩ := insertNode_holds hg.holds hp hroot hg.root hnew hheight
  obtain ⟨n, hn⟩ := hg.redBlack
  refine ⟨m', _, e, hm', ordered_planted hnew hroot rfl hg.ordered, ?_, red_rebalance _ _, ?_,
    parented_planted hg.parents, ?_⟩
  · intro a
    rw [mem_keys_planted hnew hroot rfl, hg.keys]
    constructor
    · rintro (rfl | ⟨e, he, rfl⟩)
      · exact ⟨d, by simp, rfl⟩
      · exact ⟨e, by simp [he], rfl⟩
    · rintro ⟨e, he, rfl⟩
      rcases List.mem_append.mp he with he | he
      · exact Or.inr ⟨e, he, rfl⟩
      · rw [List.mem_singleton] at he
        exact Or.inl (congrArg BitVec.toInt he)
  · exact redBlack_planted hn hg.root rfl hnew
  · rw [List.length_append, List.length_singleton]
    exact (numNodes_planted hnew hroot rfl).trans (Nat.succ_le_succ hg.size)

theorem Grown.inserts (hg : Grown m t ds) (hp : Mallocs k m cs)
    (hd : (ds ++ cs.map Prod.fst).Nodup) (hk : ds.length + cs.length < k) :
    ∃ m' t', insertNodes k m cs = .ok m' ∧ Grown m' t' (ds ++ cs.map Prod.fst) := by
  induction cs generalizing m t ds with
  | nil =>
    rw [List.map_nil, List.append_nil]
    exact ⟨m, t, rfl, hg⟩
  | cons c cs ih =>
    rw [List.map_cons, List.append_cons] at hd ⊢
    rw [List.length_cons] at hk
    have hc : c.1 ∉ ds := by
      intro h
      have hnodup := (List.nodup_append.mp hd).1
      rw [List.nodup_append] at hnodup
      exact hnodup.2.2 _ h _ (List.mem_singleton_self _) rfl
    have hlt : ds.length < k := by omega
    obtain ⟨m1, t1, e1, hg1⟩ := hg.insert hp.1 hc hlt
    have hk1 : (ds ++ [c.1]).length + cs.length < k := by
      rw [List.length_append, List.length_singleton]
      omega
    obtain ⟨m', t', e, hg'⟩ := ih hg1 (hp.2 m1 e1) hd hk1
    refine ⟨m', t', ?_, hg'⟩
    rw [insertNodes, e1]
    exact e

theorem Mallocs.take (hp : Mallocs k m cs) (n : ℕ) : Mallocs k m (cs.take n) := by
  induction cs generalizing m n with
  | nil =>
    rw [List.take_nil]
    exact hp
  | cons c cs ih =>
    cases n with
    | zero => trivial
    | succ n => exact ⟨hp.1, fun m' h => ih (hp.2 m' h) n⟩

/-- After each of the calls there is a red-black tree with the keys so far. -/
theorem insertNodes_redBlack (hroot : m.root = none) (hp : Mallocs k m cs)
    (hd : (cs.map Prod.fst).Nodup) (hk : cs.length < k) (n : ℕ) :
    ∃ m' t, insertNodes k m (cs.take n) = .ok m' ∧
      RedBlackMap m' t ((cs.take n).map Prod.fst) := by
  have hnodup : ([] ++ (cs.take n).map Prod.fst).Nodup := by
    rw [List.nil_append, List.map_take]
    exact hd.sublist (List.take_sublist _ _)
  have hlen : ([] : List (BitVec 32)).length + (cs.take n).length < k := by
    rw [List.length_nil, List.length_take]
    omega
  obtain ⟨m', t, e, hg⟩ := (grown_empty hroot).inserts (hp.take n) hnodup hlen
  exact ⟨m', t, e, hg.map⟩

end Insertions

/-- Three keys in ascending order, the least number that makes the tree turn. -/
theorem insertNodes_three :
    ∃ m' t, insertNodes 4 Map.empty [(3#32, 1), (7#32, 2), (18#32, 3)] = .ok m' ∧
      RedBlackMap m' t [3#32, 7#32, 18#32] := by
  have hp : Mallocs 4 Map.empty [(3#32, 1), (7#32, 2), (18#32, 3)] := by
    refine ⟨rfl, fun m1 h1 => ?_⟩
    have e1 : _ = m1 := Except.ok.inj h1
    rw [← e1]
    refine ⟨rfl, fun m2 h2 => ?_⟩
    have e2 : _ = m2 := Except.ok.inj h2
    rw [← e2]
    exact ⟨rfl, fun _ _ => trivial⟩
  exact insertNodes_redBlack rfl hp (by decide) (by decide) 3

end Srv32.Gdb
