import Srv32.Gdb.Insert

namespace Srv32.Gdb
open BinaryTree SearchTree

/-! Deletion and search. -/

def leastData : BitVec 32 → BinaryTree Cell → BitVec 32
  | d, nil => d
  | _, node x l _ => leastData x.data l

/-- What stands at the address of the root `x` when its key goes; `r'` is the right child without
its least key. An only child is copied over the root, parent pointer and all. -/
def joined (x : Cell) (l r r' : BinaryTree Cell) : BinaryTree Cell :=
  match l, r with
  | nil, nil => nil
  | nil, node y a b => node { y with addr := x.addr } a b
  | node y a b, nil => node { y with addr := x.addr } a b
  | node y a b, r => node { x with data := leastData x.data r } (node y a b) r'

def prune : BitVec 32 → BinaryTree Cell → BinaryTree Cell
  | _, nil => nil
  | d, node x l r =>
    if d.slt x.data then node x (prune d l) r
    else if x.data.slt d then node x l (prune d r)
    else joined x l r (prune (leastData x.data r) r)

theorem least_map (d : BitVec 32) (t : BinaryTree Cell) :
    least d.toInt (t.map Cell.key) = (leastData d t).toInt := by
  induction t generalizing d with
  | nil => rfl
  | node x l r hl _ => exact hl x.data

theorem map_joined {x : Cell} {l r r' : BinaryTree Cell} :
    (joined x l r r').map Cell.key =
      join x.key (l.map Cell.key) (r.map Cell.key) (r'.map Cell.key) := by
  cases l with
  | nil => cases r <;> rfl
  | node y a b =>
    cases r with
    | nil => rfl
    | node z c d =>
      have h := least_map z.data c
      simp only [joined, join, BinaryTree.map, least, Cell.key, leastData] at h ⊢
      rw [← h]

theorem map_prune (d : BitVec 32) (t : BinaryTree Cell) :
    (prune d t).map Cell.key = erase d.toInt (t.map Cell.key) := by
  induction t generalizing d with
  | nil => rfl
  | node x l r hl hr =>
    simp only [prune, BitVec.slt_iff_toInt_lt, BinaryTree.map, erase, Cell.key]
    split_ifs
    · rw [BinaryTree.map, hl]
      rfl
    · rw [BinaryTree.map, hr]
      rfl
    · rw [map_joined, hr, ← least_map]
      rfl

theorem addrs_joined {x : Cell} {l r r' : BinaryTree Cell} (h : (addrs r').Subperm (addrs r)) :
    (addrs (joined x l r r')).Subperm (addrs (node x l r)) := by
  cases l with
  | nil =>
    cases r with
    | nil => exact List.nil_subperm
    | node y a b =>
      have hp : List.Perm (addrs (joined x nil (node y a b) r'))
          (x.addr :: (addrs a ++ addrs b)) := by
        simp only [joined, addrs_node]
        exact List.perm_middle
      refine hp.subperm.trans ?_
      simp only [addrs_node, addrs_nil, List.nil_append]
      exact (List.subperm_cons _).mpr
        (((List.sublist_cons_self y.addr (addrs b)).append_left _).subperm)
  | node y a b =>
    cases r with
    | nil =>
      have hp : List.Perm (addrs (joined x (node y a b) nil r'))
          (addrs a ++ (addrs b ++ [x.addr])) := by
        simp only [joined, addrs_node]
        have hc : ([x.addr] ++ addrs b).Perm (addrs b ++ [x.addr]) := List.perm_append_comm
        exact hc.append_left _
      refine hp.subperm.trans ?_
      simp only [addrs_node, addrs_nil, List.append_assoc, List.cons_append]
      exact ((List.sublist_cons_self y.addr (addrs b ++ [x.addr])).append_left _).subperm
    | node z c d =>
      rw [joined, addrs_node _ (node y a b) r', addrs_node x]
      · exact (List.subperm_append_left _).mpr ((List.subperm_cons _).mpr h)
      · intro hz
        cases hz

theorem addrs_prune (d : BitVec 32) (t : BinaryTree Cell) :
    (addrs (prune d t)).Subperm (addrs t) := by
  induction t generalizing d with
  | nil => exact List.nil_subperm
  | node x l r hl hr =>
    rw [prune]
    split_ifs
    · rw [addrs_node, addrs_node]
      exact (List.subperm_append_right _).mpr (hl d)
    · rw [addrs_node, addrs_node]
      exact (List.subperm_append_left _).mpr ((List.subperm_cons _).mpr (hr d))
    · exact addrs_joined (hr _)

theorem nodup_prune {d : BitVec 32} {t : BinaryTree Cell} (hn : (addrs t).Nodup) :
    (addrs (prune d t)).Nodup := by
  obtain ⟨l, hl, hs⟩ := addrs_prune d t
  exact hl.nodup (hs.nodup hn)

theorem minValueNode_stands {k : ℕ} {h : Heap} {x : Cell} {l r : BinaryTree Cell}
    (ht : Stands h (node x l r)) (hk : (node x l r).height < k) :
    ∃ a n, minValueNode k h (some x.addr) = .ok (some a) ∧ a ∈ addrs (node x l r) ∧
      h a = some n ∧ n.data = leastData x.data l := by
  induction l generalizing x r k with
  | nil =>
    obtain ⟨k, rfl⟩ := Nat.exists_eq_succ_of_ne_zero (Nat.ne_of_gt (Nat.zero_lt_of_lt hk))
    refine ⟨x.addr, _, ?_, by simp [addrs_node], ht.1, rfl⟩
    rw [minValueNode, load_some ht.1]
    rfl
  | node y a b ha _ =>
    obtain ⟨k, rfl⟩ := Nat.exists_eq_succ_of_ne_zero (Nat.ne_of_gt (Nat.zero_lt_of_lt hk))
    have hk' : (node y a b).height < k := by
      simp only [BinaryTree.height] at hk ⊢
      omega
    obtain ⟨p, n, e, hp, hn, hd⟩ := ha ht.2.1 hk'
    refine ⟨p, n, ?_, by rw [addrs_node]; simp [hp], hn, hd⟩
    rw [minValueNode, load_some ht.1]
    exact e

/-- The assignment after the call on the child of side `s` has returned. -/
theorem reattach {h : Heap} {s : Side} {x : Cell} {b u : BinaryTree Cell} {p : Ptr}
    (hx : h x.addr = some (x.toNode s p (ptr b))) (su : Stands h u) (sb : Stands h b)
    (xu : x.addr ∉ addrs u) (xb : x.addr ∉ addrs b) :
    ∃ h', modify h (some x.addr) (·.setChild s (ptr u)) = .ok h' ∧ Stands h' (branch s x u b) ∧
      ∀ a, a ≠ x.addr → h' a = h a := by
  obtain ⟨h', e1⟩ : ∃ h', h' = Function.update h x.addr (some (x.toNode s (ptr u) (ptr b))) :=
    ⟨_, rfl⟩
  have off1 : ∀ q, q ≠ x.addr → h' q = h q := fun q hq => by rw [e1, Function.update_of_ne hq]
  refine ⟨h', ?_, stands_branch.mpr ⟨by rw [e1, Function.update_self], ?_, ?_⟩, off1⟩
  · rw [modify_some _ hx, Cell.toNode_setNear, e1]
  · exact su.congr fun q hq => off1 q (by rintro rfl; exact xu hq)
  · exact sb.congr fun q hq => off1 q (by rintro rfl; exact xb hq)

/-- An only child copied over its parent. -/
theorem overwrite {h : Heap} {s : Side} {x y : Cell} {a b : BinaryTree Cell}
    (hx : h x.addr = some (x.toNode s (some y.addr) none)) (sy : Stands h (branch s y a b))
    (xa : x.addr ∉ addrs a) (xb : x.addr ∉ addrs b) (ya : y.addr ∉ addrs a) (yb : y.addr ∉ addrs b)
    (hxy : x.addr ≠ y.addr) :
    ∃ n h' h'', load h (some y.addr) = .ok n ∧ modify h (some x.addr) (fun _ => n) = .ok h' ∧
      free h' (some y.addr) = .ok h'' ∧ Stands h'' (branch s { y with addr := x.addr } a b) ∧
      ∀ q, q ≠ x.addr → q ≠ y.addr → h'' q = h q := by
  obtain ⟨y0, sa, sb⟩ := stands_branch.mp sy
  obtain ⟨h', e1⟩ : ∃ h', h' = Function.update h x.addr (some (y.toNode s (ptr a) (ptr b))) :=
    ⟨_, rfl⟩
  have off1 : ∀ q, q ≠ x.addr → h' q = h q := fun q hq => by rw [e1, Function.update_of_ne hq]
  obtain ⟨h'', e2⟩ : ∃ h'', h'' = Function.update h' y.addr none := ⟨_, rfl⟩
  have off2 : ∀ q, q ≠ y.addr → h'' q = h' q := fun q hq => by rw [e2, Function.update_of_ne hq]
  have y1 : h' y.addr ≠ none := by
    rw [off1 _ (Ne.symm hxy), y0]
    exact Option.some_ne_none _
  refine ⟨_, h', h'', load_some y0, ?_, ?_, stands_branch.mpr ⟨?_, ?_, ?_⟩, ?_⟩
  · rw [modify_some _ hx, e1]
  · rw [free, if_neg y1, e2]
  · rw [off2 _ hxy, e1, Function.update_self]
    cases s <;> rfl
  · exact sa.congr fun q hq => (off2 q (by rintro rfl; exact ya hq)).trans
      (off1 q (by rintro rfl; exact xa hq))
  · exact sb.congr fun q hq => (off2 q (by rintro rfl; exact yb hq)).trans
      (off1 q (by rintro rfl; exact xb hq))
  · intro q qx qy
    exact (off2 q qy).trans (off1 q qx)

theorem deleteNodeBST_node {k : ℕ} {h : Heap} {x : Cell} {l r : BinaryTree Cell} (d : BitVec 32)
    (hx : h x.addr = some (x.toNode .left (ptr l) (ptr r))) :
    deleteNodeBST (k + 1) h (ptr (node x l r)) d =
      if d.slt x.data then do
        let (h, left) ← deleteNodeBST k h (ptr l) d
        let h ← modify h (some x.addr) (·.setChild .left left)
        pure (h, some x.addr)
      else if x.data.slt d then do
        let (h, right) ← deleteNodeBST k h (ptr r) d
        let h ← modify h (some x.addr) (·.setChild .right right)
        pure (h, some x.addr)
      else if ptr l = none ∨ ptr r = none then
        let temp := if ptr l ≠ none then ptr l else ptr r
        if temp = none then do
          let h ← free h (some x.addr)
          pure (h, none)
        else do
          let t ← load h temp
          let h ← modify h (some x.addr) (fun _ => t)
          let h ← free h temp
          pure (h, some x.addr)
      else (do
        let temp ← minValueNode k h (ptr r)
        let t ← load h temp
        let h ← modify h (some x.addr) (·.setData t.data)
        let r ← load h (some x.addr)
        let t ← load h temp
        let (h, right) ← deleteNodeBST k h r.right t.data
        let h ← modify h (some x.addr) (·.setChild .right right)
        pure (h, some x.addr)) := by
  rw [ptr_node, deleteNodeBST, if_neg (Option.some_ne_none _), load_some hx]
  rfl

/-- The deletion at the root of a subtree, given the one in its right child. -/
theorem deleteNodeBST_root {k : ℕ} {h : Heap} {d : BitVec 32} {x : Cell} {l r : BinaryTree Cell}
    (ht : Stands h (node x l r)) (hn : (addrs (node x l r)).Nodup) (h1 : ¬ d.slt x.data)
    (h2 : ¬ x.data.slt d) (hk : r.height < k)
    (hr : ∀ {h : Heap} {d : BitVec 32}, Stands h r → ∃ h',
      deleteNodeBST k h (ptr r) d = .ok (h', ptr (prune d r)) ∧ Stands h' (prune d r) ∧
        ∀ a, a ∉ addrs r → h' a = h a) :
    ∃ h', deleteNodeBST (k + 1) h (ptr (node x l r)) d = .ok (h', ptr (prune d (node x l r))) ∧
      Stands h' (prune d (node x l r)) ∧ ∀ a, a ∉ addrs (node x l r) → h' a = h a := by
  obtain ⟨hx, sl, sr⟩ := ht
  rw [deleteNodeBST_node d hx, prune, if_neg h1, if_neg h2, if_neg h1, if_neg h2]
  simp only [addrs_node, List.nodup_append, List.nodup_cons, List.mem_cons, List.mem_append,
    not_or] at hn ⊢
  obtain ⟨nl, ⟨xr, nr⟩, lxr⟩ := hn
  have xl : x.addr ∉ addrs l := fun h => lxr _ h _ (.inl rfl) rfl
  have lr : ∀ a ∈ addrs l, a ∉ addrs r := fun a ha h => lxr a ha a (.inr h) rfl
  cases l with
  | nil =>
    cases r with
    | nil =>
      obtain ⟨h', e1⟩ : ∃ h', h' = Function.update h x.addr none := ⟨_, rfl⟩
      have hf : free h (some x.addr) = .ok h' := by rw [free, if_neg (by simp [hx]), e1]
      refine ⟨h', ?_, trivial, fun a ha => by rw [e1, Function.update_of_ne ha.2.1]⟩
      simp [hf, joined]
    | node y a b =>
      simp only [addrs_node, List.nodup_append, List.nodup_cons, List.mem_cons, List.mem_append,
        not_or] at nr xr ⊢
      obtain ⟨n, h', h'', e1, e2, e3, s2, off⟩ := overwrite (s := .right) (a := b) (b := a) hx sr
        xr.2.2 xr.1 nr.2.1.1 (fun h => nr.2.2 _ h _ (.inl rfl) rfl) xr.2.1
      refine ⟨h'', ?_, s2, fun q hq => off q hq.2.1 hq.2.2.2.1⟩
      simp [e1, e2, e3, joined]
  | node y a b =>
    cases r with
    | nil =>
      simp only [addrs_node, List.nodup_append, List.nodup_cons, List.mem_cons, List.mem_append,
        not_or] at nl xl ⊢
      obtain ⟨n, h', h'', e1, e2, e3, s2, off⟩ := overwrite (s := .left) hx sl
        xl.1 xl.2.2 (fun h => nl.2.2 _ h _ (.inl rfl) rfl) nl.2.1.1 xl.2.1
      refine ⟨h'', ?_, s2, fun q hq => off q hq.2.1 hq.1.2.1⟩
      simp [e1, e2, e3, joined]
    | node z c e =>
      -- the successor's key comes up and is then deleted below
      obtain ⟨p, n, em, hp, hnp, hdp⟩ := minValueNode_stands sr hk
      obtain ⟨h', e1⟩ : ∃ h', h' = Function.update h x.addr
        (some ({ x with data := n.data }.toNode .left (some y.addr) (some z.addr))) := ⟨_, rfl⟩
      have off1 : ∀ q, q ≠ x.addr → h' q = h q := fun q hq => by rw [e1, Function.update_of_ne hq]
      have x1 : h' x.addr =
          some ({ x with data := n.data }.toNode .left (some y.addr) (some z.addr)) := by
        rw [e1, Function.update_self]
      have ep : h' p = some n := (off1 p (by rintro rfl; exact xr hp)).trans hnp
      obtain ⟨h2, e2, s2, off2⟩ := hr (d := n.data)
        (sr.congr fun q hq => off1 q (by rintro rfl; exact xr hq))
      have x2 : h2 x.addr =
          some ({ x with data := n.data }.toNode .right (some z.addr) (some y.addr)) :=
        (off2 _ xr).trans x1
      obtain ⟨h3, e3, s3, off3⟩ := reattach (s := .right) (x := { x with data := n.data })
        (b := node y a b) x2 s2
        (sl.congr fun q hq => (off2 q (lr q hq)).trans (off1 q (by rintro rfl; exact xl hq)))
        (fun h => xr ((addrs_prune n.data _).subset h)) xl
      have hm : modify h (some x.addr) (·.setData n.data) = .ok h' := by
        rw [modify_some _ hx, e1]
        rfl
      have hj : leastData x.data (node z c e) = n.data := hdp.symm
      have e2' : deleteNodeBST k h' (some z.addr) n.data = _ := e2
      refine ⟨h3, ?_, ?_, fun q hq => ?_⟩
      · simp [em, load_some hnp, hm, load_some x1, load_some ep, Cell.toNode, e2', e3, joined, hj]
      · rw [hj]
        simpa only [joined, hj, branch_right] using s3
      · exact (off3 q hq.2.1).trans ((off2 q hq.2.2).trans (off1 q hq.2.1))

theorem deleteNodeBST_stands {k : ℕ} {h : Heap} {d : BitVec 32} {t : BinaryTree Cell}
    (ht : Stands h t) (hn : (addrs t).Nodup) (hk : t.height < k) :
    ∃ h', deleteNodeBST k h (ptr t) d = .ok (h', ptr (prune d t)) ∧ Stands h' (prune d t) ∧
      ∀ a, a ∉ addrs t → h' a = h a := by
  induction t generalizing h k d with
  | nil =>
    obtain ⟨k, rfl⟩ := Nat.exists_eq_succ_of_ne_zero (Nat.ne_of_gt hk)
    exact ⟨h, rfl, trivial, fun _ _ => rfl⟩
  | node x l r hl hr =>
    obtain ⟨k, rfl⟩ := Nat.exists_eq_succ_of_ne_zero (Nat.ne_of_gt (Nat.zero_lt_of_lt hk))
    simp only [BinaryTree.height] at hk
    have ht0 := ht
    have hn0 := hn
    obtain ⟨hx, sl, sr⟩ := ht
    simp only [addrs_node, List.nodup_append, List.nodup_cons, List.mem_cons] at hn
    obtain ⟨nl, ⟨xr, nr⟩, lxr⟩ := hn
    have xl : x.addr ∉ addrs l := fun h => lxr _ h _ (.inl rfl) rfl
    have lr : ∀ a ∈ addrs r, a ∉ addrs l := fun a ha h => lxr a h a (.inr ha) rfl
    by_cases h1 : d.slt x.data
    · obtain ⟨h', e1, s1, off1⟩ := hl (k := k) (d := d) sl nl (by omega)
      have x1 : h' x.addr = some (x.toNode .left (ptr l) (ptr r)) := (off1 _ xl).trans hx
      obtain ⟨h'', e2, s2, off2⟩ := reattach (s := .left) x1 s1
        (sr.congr fun a ha => off1 a (lr a ha)) (fun h => xl ((addrs_prune d l).subset h)) xr
      rw [deleteNodeBST_node d hx, prune, if_pos h1, if_pos h1]
      simp only [addrs_node, List.mem_append, List.mem_cons, not_or]
      refine ⟨h'', ?_, s2, fun a ha => (off2 a ha.2.1).trans (off1 a ha.1)⟩
      simp only [e1, ok_bind, e2, pure_ok, ptr_node]
    · by_cases h2 : x.data.slt d
      · obtain ⟨h', e1, s1, off1⟩ := hr (k := k) (d := d) sr nr (by omega)
        have x1 : h' x.addr = some (x.toNode .right (ptr r) (ptr l)) := (off1 _ xr).trans hx
        obtain ⟨h'', e2, s2, off2⟩ := reattach (s := .right) x1 s1
          (sl.congr fun a ha => off1 a fun h => lr a h ha)
          (fun h => xr ((addrs_prune d r).subset h)) xl
        rw [deleteNodeBST_node d hx, prune, if_neg h1, if_pos h2, if_neg h1, if_pos h2]
        simp only [addrs_node, List.mem_append, List.mem_cons, not_or]
        refine ⟨h'', ?_, s2, fun a ha => (off2 a ha.2.1).trans (off1 a ha.2.2)⟩
        simp only [e1, ok_bind, e2, pure_ok, ptr_node]
      · exact deleteNodeBST_root ht0 hn0 h1 h2 (by omega) fun s => hr s nr (by omega)

/-! What a deletion keeps. -/

theorem noOrphan_joined {x : Cell} {l r r' : BinaryTree Cell} (hx : x.parent ≠ none)
    (hl : NoOrphan l) (hr : NoOrphan r) (hr' : NoOrphan r') : NoOrphan (joined x l r r') := by
  cases l with
  | nil =>
    cases r with
    | nil => exact noOrphan_nil
    | node y a b =>
      have hy := noOrphan_node.mp hr
      exact noOrphan_node.mpr hy
  | node y a b =>
    cases r with
    | nil =>
      have hy := noOrphan_node.mp hl
      exact noOrphan_node.mpr hy
    | node z c e => exact noOrphan_node.mpr ⟨hx, hl, hr'⟩

theorem noOrphan_prune {d : BitVec 32} {t : BinaryTree Cell} (ht : NoOrphan t) :
    NoOrphan (prune d t) := by
  induction t generalizing d with
  | nil => exact ht
  | node x l r hl hr =>
    obtain ⟨hx, nl, nr⟩ := noOrphan_node.mp ht
    rw [prune]
    split_ifs
    · exact noOrphan_node.mpr ⟨hx, hl nl, nr⟩
    · exact noOrphan_node.mpr ⟨hx, nl, hr nr⟩
    · exact noOrphan_joined hx nl nr (hr nr)

theorem tended_prune {d : BitVec 32} {t : BinaryTree Cell} (ht : Tended t) :
    Tended (prune d t) := by
  cases t with
  | nil => trivial
  | node x l r =>
    rw [prune]
    split_ifs
    · exact ⟨noOrphan_prune ht.1, ht.2⟩
    · exact ⟨ht.1, noOrphan_prune ht.2⟩
    · cases l with
      | nil =>
        cases r with
        | nil => trivial
        | node y a b => exact (noOrphan_node.mp ht.2).2
      | node y a b =>
        cases r with
        | nil => exact (noOrphan_node.mp ht.1).2
        | node z c e => exact ⟨ht.1, noOrphan_prune ht.2⟩

/-- A root without a parent pointer is the old one, in its colour. -/
theorem black_prune {d : BitVec 32} {t : BinaryTree Cell} (ht : Tended t)
    (hb : rootParent t = none → red t = false) :
    rootParent (prune d t) = none → red (prune d t) = false := by
  cases t with
  | nil => exact hb
  | node x l r =>
    rw [prune]
    split_ifs
    · exact hb
    · exact hb
    · cases l with
      | nil =>
        cases r with
        | nil => exact fun _ => rfl
        | node y a b => exact fun h => absurd h (noOrphan_node.mp ht.2).1
      | node y a b =>
        cases r with
        | nil => exact fun h => absurd h (noOrphan_node.mp ht.1).1
        | node z c e => exact hb

theorem deleteNode_holds {k : ℕ} {m : Map} {t : BinaryTree Cell} (d : BitVec 32) (hm : Holds m t)
    (hk : t.height < k) : ∃ m', deleteNode k m d = .ok m' ∧ Holds m' (prune d t) := by
  obtain ⟨h', e, s, -⟩ := deleteNodeBST_stands (d := d) hm.stands hm.nodup hk
  refine ⟨⟨h', ptr (prune d t)⟩, ?_, rfl, s, nodup_prune hm.nodup⟩
  rw [deleteNode, hm.root, e]
  rfl

/-! Search. -/

def seek (d : BitVec 32) : BinaryTree Cell → BinaryTree Cell
  | nil => nil
  | node x l r =>
    if x.data = d then node x l r else if x.data.slt d then seek d r else seek d l

theorem map_seek (d : BitVec 32) (t : BinaryTree Cell) :
    (seek d t).map Cell.key = lookup d.toInt (t.map Cell.key) := by
  induction t with
  | nil => rfl
  | node x l r hl hr =>
    simp only [seek, BitVec.slt_iff_toInt_lt, BinaryTree.map, lookup, Cell.key, BitVec.toInt_inj]
    split_ifs
    · rfl
    · exact hr
    · exact hl

theorem findNode_stands {k : ℕ} {h : Heap} {d : BitVec 32} {t : BinaryTree Cell}
    (ht : Stands h t) (hk : t.height < k) : findNode k h (ptr t) d = .ok (ptr (seek d t)) := by
  induction t generalizing k with
  | nil =>
    obtain ⟨k, rfl⟩ := Nat.exists_eq_succ_of_ne_zero (Nat.ne_of_gt hk)
    rfl
  | node x l r hl hr =>
    obtain ⟨k, rfl⟩ := Nat.exists_eq_succ_of_ne_zero (Nat.ne_of_gt (Nat.zero_lt_of_lt hk))
    simp only [BinaryTree.height] at hk
    obtain ⟨hx, sl, sr⟩ := ht
    rw [ptr_node, findNode, if_neg (Option.some_ne_none _), load_some hx, ok_bind, seek]
    simp only [Cell.toNode_data]
    by_cases h1 : x.data = d
    · rw [if_pos h1, if_pos h1]
      rfl
    · rw [if_neg h1, if_neg h1]
      by_cases h2 : x.data.slt d
      · rw [if_pos h2, if_pos h2]
        exact hr (k := k) sr (by omega)
      · rw [if_neg h2, if_neg h2]
        exact hl (k := k) sl (by omega)

theorem seek_ne_nil {d : BitVec 32} {t : BinaryTree Cell} (ht : Ordered (t.map Cell.key)) :
    ptr (seek d t) ≠ none ↔ d.toInt ∈ keys t := by
  rw [← keys_map, ← lookup_ne_nil ht, ← map_seek, Ne, ptr_eq_none]
  cases seek d t <;> simp [BinaryTree.map]

end Srv32.Gdb
