import Srv32.Gdb.Balance

namespace Srv32.Gdb
open BinaryTree SearchTree

/-! The insertion of a new node. -/

theorem slt_iff_key {x y : Cell} : x.data.slt y.data = true ↔ x.key < y.key :=
  BitVec.slt_iff_toInt_lt

/-- The tree with the node `c` at the end of its search path, whose parent pointers are set. -/
def graft (c : Cell) : BinaryTree Cell → BinaryTree Cell
  | nil => node c nil nil
  | node x l r =>
    if c.data.slt x.data then node x (adopt (some x.addr) (graft c l)) r
    else if x.data.slt c.data then node x l (adopt (some x.addr) (graft c r))
    else node x l r

theorem graft_ne_nil (c : Cell) (t : BinaryTree Cell) : graft c t ≠ nil := by
  cases t with
  | nil => simp [graft]
  | node x l r =>
    rw [graft]
    split_ifs <;> simp

@[simp] theorem map_adopt (q : Ptr) (t : BinaryTree Cell) :
    (adopt q t).map Cell.key = t.map Cell.key := by
  cases t <;> rfl

theorem map_graft (c : Cell) (t : BinaryTree Cell) :
    (graft c t).map Cell.key = SearchTree.insert c.key (t.map Cell.key) := by
  induction t with
  | nil => rfl
  | node x l r hl hr =>
    simp only [graft, slt_iff_key, BinaryTree.map, SearchTree.insert]
    split_ifs
    · rw [BinaryTree.map, map_adopt, hl]
    · rw [BinaryTree.map, map_adopt, hr]
    · rfl

theorem addrs_graft (c : Cell) (t : BinaryTree Cell) :
    List.Perm (addrs (graft c t)) (c.addr :: addrs t) ∨ addrs (graft c t) = addrs t := by
  induction t with
  | nil => exact .inl (by simp [graft, addrs_node])
  | node x l r hl hr =>
    rw [graft]
    split_ifs
    · rw [addrs_node, addrs_node, addrs_adopt]
      rcases hl with h | h
      · exact .inl (h.append_right _)
      · exact .inr (by rw [h])
    · rw [addrs_node, addrs_node, addrs_adopt]
      rcases hr with h | h
      · refine .inl (((h.cons _).append_left _).trans ?_)
        refine ((List.Perm.swap ..).append_left _).trans ?_
        exact List.perm_middle
      · exact .inr (by rw [h])
    · exact .inr rfl

theorem nodup_graft {c : Cell} {t : BinaryTree Cell} (hn : (addrs t).Nodup)
    (hc : c.addr ∉ addrs t) : (addrs (graft c t)).Nodup := by
  rcases addrs_graft c t with h | h
  · exact h.nodup_iff.mpr (List.nodup_cons.mpr ⟨hc, hn⟩)
  · rw [h]
    exact hn

theorem mem_addrs_graft {c : Cell} {t : BinaryTree Cell} {a : Addr} (ha : a ∈ addrs (graft c t)) :
    a = c.addr ∨ a ∈ addrs t := by
  rcases addrs_graft c t with h | h
  · exact List.mem_cons.mp (h.mem_iff.mp ha)
  · exact .inr (h ▸ ha)

theorem attach {h : Heap} {s : Side} {x : Cell} {b t u : BinaryTree Cell} (hu : u ≠ nil)
    (hx : h x.addr = some (x.toNode s (ptr t) (ptr b))) (su : Stands h u) (sb : Stands h b)
    (hn : (addrs u).Nodup) (xu : x.addr ∉ addrs u) (xb : x.addr ∉ addrs b)
    (ub : ∀ a ∈ addrs b, a ∉ addrs u) :
    ∃ h' h'' n, modify h (some x.addr) (·.setChild s (ptr u)) = .ok h' ∧
      load h' (some x.addr) = .ok n ∧ n.child s = ptr u ∧
      modify h' (ptr u) (·.setParent (some x.addr)) = .ok h'' ∧
      Stands h'' (branch s x (adopt (some x.addr) u) b) ∧
      ∀ a, a ≠ x.addr → a ∉ addrs u → h'' a = h a := by
  obtain ⟨h', e1⟩ : ∃ h', h' = Function.update h x.addr (some (x.toNode s (ptr u) (ptr b))) :=
    ⟨_, rfl⟩
  have off1 : ∀ q, q ≠ x.addr → h' q = h q := fun q hq => by rw [e1, Function.update_of_ne hq]
  have x1 : h' x.addr = some (x.toNode s (ptr u) (ptr b)) := by rw [e1, Function.update_self]
  have su1 : Stands h' u := su.congr fun q hq => off1 q (by rintro rfl; exact xu hq)
  obtain ⟨h'', e2, su2, off2⟩ := adopt_moved (some x.addr) su1 hn
  rw [if_pos (fun h => hu (ptr_eq_none.mp h))] at e2
  refine ⟨h', h'', _, ?_, load_some x1, Cell.toNode_near .., e2, ?_, ?_⟩
  · rw [modify_some _ hx, Cell.toNode_setNear, e1]
  · refine stands_branch.mpr ⟨?_, su2, ?_⟩
    · rw [ptr_adopt]
      exact (off2 _ xu).trans x1
    · exact sb.congr fun q hq =>
        (off2 q (ub q hq)).trans (off1 q (by rintro rfl; exact xb hq))
  · intro a ha hau
    exact (off2 a hau).trans (off1 a ha)

theorem insertBST_node {k : ℕ} {h : Heap} {c x : Cell} {l r : BinaryTree Cell}
    (hc : h c.addr = some (c.toNode .left none none))
    (hx : h x.addr = some (x.toNode .left (ptr l) (ptr r))) :
    insertBST (k + 1) h (ptr (node x l r)) (some c.addr) =
      if c.data.slt x.data then do
        let (h, left) ← insertBST k h (ptr l) (some c.addr)
        let h ← modify h (some x.addr) (·.setChild .left left)
        let r ← load h (some x.addr)
        let h ← modify h r.left (·.setParent (some x.addr))
        pure (h, some x.addr)
      else if x.data.slt c.data then do
        let (h, right) ← insertBST k h (ptr r) (some c.addr)
        let h ← modify h (some x.addr) (·.setChild .right right)
        let r ← load h (some x.addr)
        let h ← modify h r.right (·.setParent (some x.addr))
        pure (h, some x.addr)
      else pure (h, some x.addr) := by
  rw [ptr_node, insertBST, if_neg (Option.some_ne_none _), load_some hc, ok_bind, load_some hx]
  rfl

theorem insertBST_stands {k : ℕ} {h : Heap} {c : Cell} {t : BinaryTree Cell} (ht : Stands h t)
    (hn : (addrs t).Nodup) (hc : h c.addr = some (c.toNode .left none none))
    (hnew : c.addr ∉ addrs t) (hk : t.height < k) :
    ∃ h', insertBST k h (ptr t) (some c.addr) = .ok (h', ptr (graft c t)) ∧
      Stands h' (graft c t) ∧ ∀ a, a ∉ addrs (graft c t) → h' a = h a := by
  induction t generalizing h k with
  | nil =>
    obtain ⟨k, rfl⟩ := Nat.exists_eq_succ_of_ne_zero (Nat.ne_of_gt hk)
    exact ⟨h, rfl, ⟨hc, trivial, trivial⟩, fun _ _ => rfl⟩
  | node x l r hl hr =>
    obtain ⟨k, rfl⟩ := Nat.exists_eq_succ_of_ne_zero (Nat.ne_of_gt (Nat.zero_lt_of_lt hk))
    simp only [BinaryTree.height] at hk
    obtain ⟨hx, sl, sr⟩ := ht
    simp only [addrs_node, List.nodup_append, List.nodup_cons, List.mem_cons, List.mem_append,
      not_or] at hn hnew
    obtain ⟨nl, ⟨xr, nr⟩, lxr⟩ := hn
    obtain ⟨cl, cx, cr⟩ := hnew
    have xl : x.addr ∉ addrs l := fun h => lxr _ h _ (.inl rfl) rfl
    have lr : ∀ a ∈ addrs r, a ∉ addrs l := fun a ha h => lxr a h a (.inr ha) rfl
    rw [insertBST_node hc hx, graft]
    split_ifs
    · -- the new node goes to the left
      obtain ⟨h1, e1, s1, off1⟩ := hl (k := k) sl nl hc cl (by omega)
      have xg : x.addr ∉ addrs (graft c l) := fun h =>
        (mem_addrs_graft h).elim (fun h => cx h.symm) xl
      have rg : ∀ a ∈ addrs r, a ∉ addrs (graft c l) := fun a ha h =>
        (mem_addrs_graft h).elim (fun h => cr (h ▸ ha)) (lr a ha)
      have x1 : h1 x.addr = some (x.toNode .left (ptr l) (ptr r)) :=
        (off1 _ xg).trans hx
      have sr1 : Stands h1 r := sr.congr fun a ha => off1 a (rg a ha)
      obtain ⟨h2, h3, n, e2, e3, e4, e5, s3, off3⟩ :=
        attach (s := .left) (graft_ne_nil c l) x1 s1 sr1 (nodup_graft nl cl) xg xr rg
      have e4' : n.left = ptr (graft c l) := e4
      refine ⟨h3, ?_, s3, ?_⟩
      · simp only [e1, ok_bind, e2, e3, e4', e5, pure_ok, ptr_node]
      · intro a ha
        simp only [addrs_node, addrs_adopt, List.mem_append, List.mem_cons, not_or] at ha
        exact (off3 a ha.2.1 ha.1).trans (off1 a ha.1)
    · -- the new node goes to the right
      obtain ⟨h1, e1, s1, off1⟩ := hr (k := k) sr nr hc cr (by omega)
      have xg : x.addr ∉ addrs (graft c r) := fun h =>
        (mem_addrs_graft h).elim (fun h => cx h.symm) xr
      have lg : ∀ a ∈ addrs l, a ∉ addrs (graft c r) := fun a ha h =>
        (mem_addrs_graft h).elim (fun h => cl (h ▸ ha)) (fun h => lr a h ha)
      have x1 : h1 x.addr = some (x.toNode .right (ptr r) (ptr l)) :=
        (off1 _ xg).trans hx
      have sl1 : Stands h1 l := sl.congr fun a ha => off1 a (lg a ha)
      obtain ⟨h2, h3, n, e2, e3, e4, e5, s3, off3⟩ :=
        attach (s := .right) (graft_ne_nil c r) x1 s1 sl1 (nodup_graft nr cr) xg xl lg
      have e4' : n.right = ptr (graft c r) := e4
      refine ⟨h3, ?_, s3, ?_⟩
      · simp only [e1, ok_bind, e2, e3, e4', e5, pure_ok, ptr_node]
      · intro a ha
        simp only [addrs_node, addrs_adopt, List.mem_append, List.mem_cons, not_or] at ha
        exact (off3 a ha.2.1 ha.2.2).trans (off1 a ha.2.2)
    · exact ⟨h, rfl, ⟨hx, sl, sr⟩, fun _ _ => rfl⟩

/-! The path to the new node, as the frames above it. -/

def descend (d : BitVec 32) : List (Frame Cell) → BinaryTree Cell → List (Frame Cell)
  | ctx, nil => ctx
  | ctx, node x l r =>
    if d.slt x.data then descend d (⟨.left, { x with parent := parentAt ctx }, r⟩ :: ctx) l
    else if x.data.slt d then descend d (⟨.right, { x with parent := parentAt ctx }, l⟩ :: ctx) r
    else ctx

def hung (c : Cell) (ctx : List (Frame Cell)) : BinaryTree Cell :=
  node { c with parent := parentAt ctx } nil nil

theorem adopt_graft_plug {c : Cell} {t : BinaryTree Cell} (ctx : List (Frame Cell))
    (hc : c.key ∉ keys t) :
    plug ctx (adopt (parentAt ctx) (graft c t)) =
      plug (descend c.data ctx t) (hung c (descend c.data ctx t)) := by
  induction t generalizing ctx with
  | nil => rfl
  | node x l r hl hr =>
    simp only [keys_node, List.mem_append, List.mem_cons, not_or] at hc
    rw [graft, descend]
    split_ifs with h1 h2
    · exact hl (⟨.left, { x with parent := parentAt ctx }, r⟩ :: ctx) hc.1
    · exact hr (⟨.right, { x with parent := parentAt ctx }, l⟩ :: ctx) hc.2.2
    · rw [slt_iff_key] at h1 h2
      exact absurd (le_antisymm (not_lt.mp h2) (not_lt.mp h1)) hc.2.1

theorem linked_descend {d : BitVec 32} {ctx : List (Frame Cell)} (t : BinaryTree Cell)
    (hl : Linked ctx) : Linked (descend d ctx t) := by
  induction t generalizing ctx with
  | nil => exact hl
  | node x l r ihl ihr =>
    rw [descend]
    split_ifs
    · exact ihl ⟨rfl, hl⟩
    · exact ihr ⟨rfl, hl⟩
    · exact hl

theorem flanked_descend {d : BitVec 32} {ctx : List (Frame Cell)} {t : BinaryTree Cell}
    (hf : Flanked ctx) (ht : Tended t) : Flanked (descend d ctx t) := by
  induction t generalizing ctx with
  | nil => exact hf
  | node x l r ihl ihr =>
    rw [descend]
    split_ifs
    · refine ihl ?_ ht.1.tended
      rintro f (_ | ⟨_, h⟩)
      · exact ht.2
      · exact hf f h
    · refine ihr ?_ ht.2.tended
      rintro f (_ | ⟨_, h⟩)
      · exact ht.1
      · exact hf f h
    · exact hf

theorem topBlack_descend_cons {d : BitVec 32} {f : Frame Cell} {ctx : List (Frame Cell)}
    (t : BinaryTree Cell) (hb : TopBlack (f :: ctx)) : TopBlack (descend d (f :: ctx) t) := by
  induction t generalizing f ctx with
  | nil => exact hb
  | node x l r ihl ihr =>
    rw [descend]
    split_ifs
    · exact ihl hb
    · exact ihr hb
    · exact hb

theorem topBlack_descend {d : BitVec 32} {t : BinaryTree Cell} (ht : red t = false) :
    TopBlack (descend d [] t) := by
  cases t with
  | nil => trivial
  | node x l r =>
    have hx : x.color = .black := by
      cases hc : x.color with
      | black => rfl
      | red => simp [red, hc] at ht
    rw [descend]
    split_ifs
    · exact topBlack_descend_cons l hx
    · exact topBlack_descend_cons r hx
    · trivial

theorem length_descend (d : BitVec 32) (ctx : List (Frame Cell)) (t : BinaryTree Cell) :
    (descend d ctx t).length ≤ ctx.length + t.height := by
  induction t generalizing ctx with
  | nil => exact le_rfl
  | node x l r ihl ihr =>
    rw [descend, BinaryTree.height]
    split_ifs
    · refine (ihl _).trans ?_
      simp only [List.length_cons]
      omega
    · refine (ihr _).trans ?_
      simp only [List.length_cons]
      omega
    · omega

/-- The tree after the insertion of a key that is not there. -/
def planted (c : Cell) (t : BinaryTree Cell) : BinaryTree Cell :=
  rebalance (descend c.data [] t) (hung c (descend c.data [] t))

theorem adopt_none {t : BinaryTree Cell} (ht : rootParent t = none) : adopt none t = t := by
  cases t with
  | nil => rfl
  | node c l r =>
    have hc : c.parent = none := ht
    rw [adopt, ← hc]

theorem rootParent_graft {c : Cell} {t : BinaryTree Cell} (hc : c.parent = none)
    (ht : rootParent t = none) : rootParent (graft c t) = none := by
  cases t with
  | nil => exact hc
  | node x l r =>
    rw [graft]
    split_ifs <;> exact ht

theorem plug_hung {c : Cell} {t : BinaryTree Cell} (hc : c.parent = none)
    (ht : rootParent t = none) (hk : c.key ∉ keys t) :
    plug (descend c.data [] t) (hung c (descend c.data [] t)) = graft c t := by
  rw [← adopt_graft_plug [] hk]
  exact adopt_none (rootParent_graft hc ht)

theorem keys_planted {c : Cell} {t : BinaryTree Cell} (hc : c.parent = none)
    (ht : rootParent t = none) (hk : c.key ∉ keys t) : keys (planted c t) = keys (graft c t) := by
  rw [planted, keys_rebalance _ _ (by simp [hung]), plug_hung hc ht hk]

theorem tended_planted {c : Cell} {t : BinaryTree Cell} (ht : Tended t) :
    Tended (planted c t) := by
  refine tended_rebalance (linked_descend t trivial) (flanked_descend (fun _ h => ?_) ht) ?_ ?_ rfl
  · cases h
  · simp [hung]
  · exact ⟨noOrphan_nil, noOrphan_nil⟩

theorem insertNode_holds {k : ℕ} {m : Map} {t : BinaryTree Cell} {data : BitVec 32} {p : Addr}
    (hm : Holds m t) (hp : m.heap p = none) (hroot : rootParent t = none) (hb : red t = false)
    (hd : data.toInt ∉ keys t) (hk : t.height < k) :
    ∃ m', insertNode k m data p = .ok m' ∧ Holds m' (planted ⟨p, data, .red, none⟩ t) := by
  have hnew : p ∉ addrs t := fun h => hm.stands.allocated h hp
  have st : Stands (createNode m.heap p data) t := hm.stands.congr fun a ha =>
    Function.update_of_ne (by rintro rfl; exact hnew ha) _ _
  have hc : createNode m.heap p data p =
      some ((⟨p, data, .red, none⟩ : Cell).toNode .left none none) :=
    Function.update_self ..
  obtain ⟨h1, e1, s1, -⟩ := insertBST_stands (c := ⟨p, data, .red, none⟩) st hm.nodup hc hnew hk
  have hm1 : Holds ⟨h1, ptr (graft ⟨p, data, .red, none⟩ t)⟩
      (plug (descend data [] t) (hung ⟨p, data, .red, none⟩ (descend data [] t))) := by
    have hg := plug_hung (c := ⟨p, data, .red, none⟩) rfl hroot hd
    rw [hg]
    exact ⟨rfl, s1, nodup_graft hm.nodup hnew⟩
  have hlen : (descend data [] t).length < k :=
    Nat.lt_of_le_of_lt (length_descend data [] t) (by simpa using hk)
  obtain ⟨m', e2, hm'⟩ := fixViolation_holds hm1 (by simp [hung]) rfl (linked_descend t trivial)
    (topBlack_descend hb) hlen
  refine ⟨m', ?_, hm'⟩
  rw [insertNode, hm.root, e1]
  exact e2

/-! A key that is there already. -/

theorem addrs_graft_of_mem {c : Cell} {t : BinaryTree Cell} (ht : Ordered (t.map Cell.key))
    (hc : c.key ∈ keys t) : addrs (graft c t) = addrs t := by
  have hmap : keys (graft c t) = keys t := by
    rw [← keys_map, map_graft, insert_of_mem ht (by rwa [keys_map]), keys_map]
  rcases addrs_graft c t with h | h
  · have hl := congrArg List.length hmap
    have hp := h.length_eq
    simp only [keys, addrs, List.length_map, List.length_cons] at hl hp
    omega
  · exact h

/-- The new node stays outside of the tree, without a parent, and the loop looks at its parent. -/
theorem insertNode_faults {k : ℕ} {m : Map} {t : BinaryTree Cell} {data : BitVec 32} {p : Addr}
    (hm : Holds m t) (hp : m.heap p = none) (ho : Ordered (t.map Cell.key))
    (hd : data.toInt ∈ keys t) (hk : t.height < k) : insertNode k m data p = .error .fault := by
  obtain ⟨k, rfl⟩ := Nat.exists_eq_add_one_of_ne_zero (Nat.ne_of_gt (Nat.zero_lt_of_lt hk))
  have hnew : p ∉ addrs t := fun h => hm.stands.allocated h hp
  have st : Stands (createNode m.heap p data) t := hm.stands.congr fun a ha =>
    Function.update_of_ne (by rintro rfl; exact hnew ha) _ _
  have hc : createNode m.heap p data p =
      some ((⟨p, data, .red, none⟩ : Cell).toNode .left none none) :=
    Function.update_self ..
  obtain ⟨h1, e1, -, off⟩ :=
    insertBST_stands (c := ⟨p, data, .red, none⟩) st hm.nodup hc hnew hk
  have hout : p ∉ addrs (graft ⟨p, data, .red, none⟩ t) := by
    rw [addrs_graft_of_mem (c := ⟨p, data, .red, none⟩) ho hd]
    exact hnew
  have hp1 := (off p hout).trans hc
  have hne : some p ≠ ptr (graft ⟨p, data, .red, none⟩ t) := fun h => hout (ptr_mem h.symm)
  have hv : violates ⟨h1, ptr (graft ⟨p, data, .red, none⟩ t)⟩ (some p) = .error .fault := by
    rw [violates, if_neg hne, load_some hp1]
    rfl
  rw [insertNode, hm.root, e1]
  change fixViolation (k + 1) ⟨h1, ptr (graft ⟨p, data, .red, none⟩ t)⟩ (some p) = _
  rw [fixViolation, hv]
  rfl

end Srv32.Gdb
