import Srv32.Gdb.Cells

namespace Srv32.Gdb
open BinaryTree SearchTree

/-! Rotations of the tree that a heap holds. -/

@[simp] theorem ok_bind {α β : Type} (a : α) (f : α → Except Stop β) :
    (Except.ok a >>= f) = f a := rfl

@[simp] theorem pure_ok {α : Type} (a : α) : (pure a : Except Stop α) = .ok a := rfl

/-- The moved subtree gets its new parent, when there is one to move. -/
theorem adopt_moved {h : Heap} {b : BinaryTree Cell} (q : Ptr) (hb : Stands h b)
    (hn : (addrs b).Nodup) :
    ∃ h', (if ptr b ≠ none then modify h (ptr b) (·.setParent q) else pure h) = .ok h' ∧
      Stands h' (adopt q b) ∧ ∀ a, a ∉ addrs b → h' a = h a := by
  cases b with
  | nil => exact ⟨h, by simp, trivial, fun _ _ => rfl⟩
  | node c l r =>
    obtain ⟨hc, hl, hr⟩ := hb
    rw [addrs_node, List.nodup_middle, List.nodup_cons, List.mem_append, not_or] at hn
    obtain ⟨h', hh⟩ : ∃ h', h' = Function.update h c.addr
      (some ((c.toNode .left (ptr l) (ptr r)).setParent q)) := ⟨_, rfl⟩
    have hoff : ∀ a, a ≠ c.addr → h' a = h a := fun a ha => by rw [hh, Function.update_of_ne ha]
    refine ⟨h', ?_, ⟨?_, ?_, ?_⟩, ?_⟩
    · rw [if_pos (by simp), ptr_node, modify_some _ hc, hh]
    · rw [hh, Function.update_self, Cell.toNode_setParent]
    · exact hl.congr fun a ha => hoff a (by rintro rfl; exact hn.1.1 ha)
    · exact hr.congr fun a ha => hoff a (by rintro rfl; exact hn.1.2 ha)
    · intro a ha
      refine hoff a ?_
      rintro rfl
      exact ha (by simp [addrs_node])

/-- The node above, or the root variable, points to `y` in the place of `x`. -/
theorem rehang {h : Heap} {ctx : List (Frame Cell)} {root : Ptr} {x : Addr} (y : Addr)
    (hroot : root = top ctx (some x)) (hc : Above h ctx (some x))
    (hx : x ∉ around ctx) (hn : (around ctx).Nodup) :
    ∃ h' root', (if parentAt ctx = none then pure (h, some y) else do
        let p ← load h (parentAt ctx)
        let h ← modify h (parentAt ctx)
          (·.setChild (if some x = p.left then .left else .right) (some y))
        pure (h, root)) = Except.ok (h', root') ∧
      Above h' ctx (some y) ∧ root' = top ctx (some y) ∧ ∀ a, a ∉ around ctx → h' a = h a := by
  cases ctx with
  | nil => exact ⟨h, some y, by simp [parentAt], trivial, rfl, fun _ _ => rfl⟩
  | cons f c =>
    obtain ⟨hf, hs, ha⟩ := hc
    rw [around, List.mem_cons, List.mem_append, not_or, not_or] at hx
    rw [around, List.nodup_cons, List.mem_append, not_or] at hn
    -- `x` hangs on the side of the frame, since the sibling has other nodes
    have hside : (if some x = (f.value.toNode f.side (some x) (ptr f.sibling)).left
        then Side.left else Side.right) = f.side := by
      rcases hs' : f.side with _ | _
      · exact if_pos rfl
      · refine if_neg fun he => hx.2.1 (ptr_mem he.symm)
    obtain ⟨h', hh⟩ : ∃ h', h' = Function.update h f.value.addr
      (some (f.value.toNode f.side (some y) (ptr f.sibling))) := ⟨_, rfl⟩
    have hoff : ∀ a, a ≠ f.value.addr → h' a = h a :=
      fun a ha => by rw [hh, Function.update_of_ne ha]
    refine ⟨h', root, ?_, ⟨?_, ?_, ?_⟩, hroot, ?_⟩
    · rw [if_neg (by simp [parentAt]), parentAt, load_some hf, ok_bind, hside,
        modify_some _ hf, ok_bind, Cell.toNode_setNear, pure_ok, hh]
    · rw [hh, Function.update_self]
    · exact hs.congr fun a h => hoff a (by rintro rfl; exact hn.1.1 h)
    · exact ha.congr fun a h => hoff a (by rintro rfl; exact hn.1.2 h)
    · intro a h
      refine hoff a ?_
      rintro rfl
      exact h (by simp [around])

/-- The subtree at `x` after the rotation that moves `x` down to the side `s`. -/
def rotated (s : Side) (x y : Cell) (a b c : BinaryTree Cell) : BinaryTree Cell :=
  branch s { y with parent := x.parent }
    (branch s { x with parent := some y.addr } a (adopt (some x.addr) b)) c

theorem addrs_rotated (s : Side) (x y : Cell) (a b c : BinaryTree Cell) :
    List.Perm (addrs (rotated s x y a b c)) (addrs (branch s x a (branch s y b c))) := by
  cases s with
  | left => simp [rotated, addrs_node]
  | right => simp [rotated, addrs_node]

theorem rotate_holds {m : Map} {ctx : List (Frame Cell)} {s : Side} {x y : Cell}
    {a b c : BinaryTree Cell} (hm : Holds m (plug ctx (branch s x a (branch s y b c))))
    (hx : x.parent = parentAt ctx) :
    ∃ m', rotate s m (some x.addr) = .ok m' ∧ Holds m' (plug ctx (rotated s x y a b c)) := by
  obtain ⟨hroot, ht, hc, hn⟩ := hm.split
  obtain ⟨x0, sa, st⟩ := stands_branch.mp ht
  obtain ⟨y0, sb, sc⟩ := stands_branch.mp st
  rw [ptr_branch] at x0 hc hroot
  have hp : (x.addr :: (addrs a ++ (y.addr :: (addrs b ++ addrs c))) ++ around ctx).Nodup := by
    refine List.Perm.nodup_iff ?_ |>.mp hn
    exact (((addrs_branch s x _ _).trans
      (((addrs_branch s y b c).append_left _).cons _)).append_right _)
  have hrn : (around ctx).Nodup := (List.nodup_append.mp hp).2.1
  have hbn : (addrs b).Nodup := by
    simp only [List.cons_append, List.nodup_cons, List.nodup_append] at hp
    exact hp.2.1.2.1.2.1
  simp only [List.cons_append, List.append_assoc, List.nodup_cons, List.nodup_append,
    List.mem_append, List.mem_cons, not_or] at hp
  obtain ⟨⟨xa, hxy, xb, xc, xr⟩, -, ⟨⟨yb, yc, yr⟩, -, ⟨-, -, cr⟩, bcr⟩, aall⟩ := hp
  have ay : ∀ q ∈ addrs a, q ≠ y.addr := fun q hq => aall q hq _ (.inl rfl)
  have ab : ∀ q ∈ addrs a, q ∉ addrs b := fun q hq h => aall q hq q (.inr (.inl h)) rfl
  have ar : ∀ q ∈ addrs a, q ∉ around ctx := fun q hq h => aall q hq q (.inr (.inr (.inr h))) rfl
  have bc : ∀ q ∈ addrs c, q ∉ addrs b := fun q hq h => bcr q h q (.inl hq) rfl
  have br : ∀ q ∈ around ctx, q ∉ addrs b := fun q hq h => bcr q h q (.inr hq) rfl
  have cr' : ∀ q ∈ addrs c, q ∉ around ctx := fun q hq h => cr q hq q h rfl
  -- `x->right = y->left`
  obtain ⟨h1, e1⟩ : ∃ h1, h1 = Function.update m.heap x.addr
    (some (x.toNode s (ptr a) (ptr b))) := ⟨_, rfl⟩
  have off1 : ∀ q, q ≠ x.addr → h1 q = m.heap q := fun q hq => by rw [e1, Function.update_of_ne hq]
  have x1 : h1 x.addr = some (x.toNode s (ptr a) (ptr b)) := by rw [e1, Function.update_self]
  -- `x->right->parent = x`
  obtain ⟨h2, e2, sb2, off2⟩ := adopt_moved (some x.addr)
    (sb.congr fun q hq => off1 q (by rintro rfl; exact xb hq)) hbn
  have x2 : h2 x.addr = some (x.toNode s (ptr a) (ptr b)) := (off2 _ xb).trans x1
  have y2 : h2 y.addr = some (y.toNode s (ptr b) (ptr c)) :=
    (off2 _ yb).trans ((off1 _ (Ne.symm hxy)).trans y0)
  -- `y->parent = x->parent`
  obtain ⟨h3, e3⟩ : ∃ h3, h3 = Function.update h2 y.addr
    (some ({ y with parent := x.parent }.toNode s (ptr b) (ptr c))) := ⟨_, rfl⟩
  have off3 : ∀ q, q ≠ y.addr → h3 q = h2 q := fun q hq => by rw [e3, Function.update_of_ne hq]
  have x3 : h3 x.addr = some (x.toNode s (ptr a) (ptr b)) := (off3 _ hxy).trans x2
  have y3 : h3 y.addr = some ({ y with parent := x.parent }.toNode s (ptr b) (ptr c)) := by
    rw [e3, Function.update_self]
  -- the link from above
  have hc3 : Above h3 ctx (some x.addr) := hc.congr fun q hq =>
    (off3 q (by rintro rfl; exact yr hq)).trans
      ((off2 q (br q hq)).trans (off1 q (by rintro rfl; exact xr hq)))
  obtain ⟨h4, root, e4, hc4, hroot4, off4⟩ := rehang y.addr hroot hc3 xr hrn
  have x4 : h4 x.addr = some (x.toNode s (ptr a) (ptr b)) := (off4 _ xr).trans x3
  have y4 : h4 y.addr = some ({ y with parent := x.parent }.toNode s (ptr b) (ptr c)) :=
    (off4 _ yr).trans y3
  -- `y->left = x`
  obtain ⟨h5, e5⟩ : ∃ h5, h5 = Function.update h4 y.addr
    (some ({ y with parent := x.parent }.toNode s (some x.addr) (ptr c))) := ⟨_, rfl⟩
  have off5 : ∀ q, q ≠ y.addr → h5 q = h4 q := fun q hq => by rw [e5, Function.update_of_ne hq]
  have x5 : h5 x.addr = some (x.toNode s (ptr a) (ptr b)) := (off5 _ hxy).trans x4
  -- `x->parent = y`
  obtain ⟨h6, e6⟩ : ∃ h6, h6 = Function.update h5 x.addr
    (some ({ x with parent := some y.addr }.toNode s (ptr a) (ptr b))) := ⟨_, rfl⟩
  have off6 : ∀ q, q ≠ x.addr → h6 q = h5 q := fun q hq => by rw [e6, Function.update_of_ne hq]
  have x6 : h6 x.addr = some ({ x with parent := some y.addr }.toNode s (ptr a) (ptr b)) := by
    rw [e6, Function.update_self]
  have y6 : h6 y.addr = some ({ y with parent := x.parent }.toNode s (some x.addr) (ptr c)) :=
    (off6 _ (Ne.symm hxy)).trans (by rw [e5, Function.update_self])
  have hrun : rotate s m (some x.addr) = .ok ⟨h6, root⟩ := by
    simp only [rotate, load_some x0, ok_bind, Cell.toNode_far, load_some y0, modify_some _ x0,
      Cell.toNode_near, Cell.toNode_setFar, ← e1, load_some x1, e2]
    simp only [load_some x2, ok_bind, Cell.toNode_parent, modify_some _ y2, Cell.toNode_setParent,
      ← e3, load_some x3]
    rw [← hx] at e4
    simp only [e4, ok_bind, modify_some _ y4, Cell.toNode_setNear, ← e5, modify_some _ x5,
      Cell.toNode_setParent, ← e6]
    rfl
  have off : ∀ q, q ≠ x.addr → q ≠ y.addr → q ∉ addrs b → q ∉ around ctx → h6 q = m.heap q :=
    fun q qx qy qb qr => (off6 q qx).trans ((off5 q qy).trans ((off4 q qr).trans
      ((off3 q qy).trans ((off2 q qb).trans (off1 q qx)))))
  have sa6 : Stands h6 a := sa.congr fun q hq =>
    off q (by rintro rfl; exact xa hq) (ay q hq) (ab q hq) (ar q hq)
  have sc6 : Stands h6 c := sc.congr fun q hq =>
    off q (by rintro rfl; exact xc hq) (by rintro rfl; exact yc hq) (bc q hq) (cr' q hq)
  have sb6 : Stands h6 (adopt (some x.addr) b) := by
    refine sb2.congr fun q hq => ?_
    rw [addrs_adopt] at hq
    have qy : q ≠ y.addr := by
      rintro rfl
      exact yb hq
    refine (off6 q ?_).trans ((off5 q qy).trans ((off4 q fun h => br q h hq).trans (off3 q qy)))
    rintro rfl
    exact xb hq
  have hc6 : Above h6 ctx (some y.addr) := hc4.congr fun q hq =>
    (off6 q (by rintro rfl; exact xr hq)).trans (off5 q (by rintro rfl; exact yr hq))
  refine ⟨_, hrun,
    Holds.ofSplit (by simpa [rotated] using hroot4) ?_ (by simpa [rotated] using hc6) ?_⟩
  · refine stands_branch.mpr ⟨?_, stands_branch.mpr ⟨?_, sa6, sb6⟩, sc6⟩
    · simpa using y6
    · simpa using x6
  · exact ((addrs_rotated s x y a b c).append_right _).nodup_iff.mpr hn

end Srv32.Gdb
