import Srv32.Gdb.Delete
import Mathlib.Logic.Relation

namespace Srv32.Gdb
open BinaryTree SearchTree

/-! Breakpoints set and deleted in any order. -/

/-- A software breakpoint set, with the address `malloc` returns in it, or deleted. -/
inductive Call
  | set (addr : BitVec 64) (p : Addr)
  | del (addr : BitVec 64)

def Call.exec (k : ℕ) (m : Map) : Call → Except Stop Map
  | .set addr p => do
    let (m, _) ← srvSetBp k m addr true p
    pure m
  | .del addr => do
    let (m, _) ← srvDelBp k m addr true
    pure m

def run (k : ℕ) (calls : List Call) : Except Stop Map :=
  calls.foldlM (Call.exec k) Map.empty

/-- `a` was set and not deleted after its last set. -/
def Armed (calls : List Call) (a : BitVec 32) : Prop :=
  ∃ before addr p after, calls = before ++ Call.set addr p :: after ∧ addr.setWidth 32 = a ∧
    ∀ b, Call.del b ∈ after → b.setWidth 32 ≠ a

/-- What holds of every set, given the calls before it. -/
def EachSet (P : List Call → BitVec 64 → Addr → Prop) (calls : List Call) : Prop :=
  ∀ before addr p after, calls = before ++ Call.set addr p :: after → P before addr p

/-- `malloc` returns memory that is not in use. -/
def Fresh : List Call → Prop :=
  EachSet fun before _ p => ∀ k m, run k before = .ok m → m.heap p = none

/-- The root, when there is one, has no parent. -/
def Rooted (m : Map) : Prop := ∀ n, load m.heap m.root = .ok n → n.parent = none

/-- Every address set is not set already, and the root it is added under has no parent. -/
def Careful : List Call → Prop :=
  EachSet fun before addr _ =>
    ¬ Armed before (addr.setWidth 32) ∧ ∀ k m, run k before = .ok m → Rooted m

def Child (h : Heap) (a b : Addr) : Prop := ∃ n, h a = some n ∧ (n.left = some b ∨ n.right = some b)

def InTree (m : Map) (a : Addr) : Prop :=
  ∃ r, m.root = some r ∧ Relation.ReflTransGen (Child m.heap) r a

/-- No node is below itself, and none has been freed. -/
def Acyclic (m : Map) : Prop :=
  ∀ a, InTree m a → ¬ Relation.TransGen (Child m.heap) a a ∧ m.heap a ≠ none

/-- The calls return, and the tree they leave finds the addresses that are set. -/
def Kept (k : ℕ) (calls : List Call) : Prop :=
  ∃ m, run k calls = .ok m ∧ Acyclic m ∧
    ∀ a, ∃ p, findNode k m.heap m.root a = .ok p ∧ (p ≠ none ↔ Armed calls a)

theorem run_append (k : ℕ) (calls : List Call) (c : Call) :
    run k (calls ++ [c]) = run k calls >>= fun m => c.exec k m := by
  simp only [run, List.foldlM_append, List.foldlM_cons, List.foldlM_nil, bind_pure]

section Armed
variable {calls : List Call} {a : BitVec 32}

theorem armed_nil : ¬ Armed [] a := by
  rintro ⟨before, addr, p, after, h, -⟩
  simp at h

theorem armed_set {addr : BitVec 64} {p : Addr} :
    Armed (calls ++ [.set addr p]) a ↔ a = addr.setWidth 32 ∨ Armed calls a := by
  constructor
  · rintro ⟨before, addr', p', after, h, rfl, hd⟩
    rcases List.eq_nil_or_concat after with rfl | ⟨after', c, rfl⟩
    · left
      obtain ⟨-, hc⟩ := List.append_inj' h rfl
      cases hc
      rfl
    · right
      rw [List.concat_eq_append, ← List.cons_append, ← List.append_assoc] at h
      obtain ⟨hb, -⟩ := List.append_inj' h rfl
      exact ⟨before, addr', p', after', hb, rfl, fun b hb => hd b (by simp [hb])⟩
  · rintro (rfl | ⟨before, addr', p', after, rfl, rfl, hd⟩)
    · exact ⟨calls, addr, p, [], rfl, rfl, fun b hb => by cases hb⟩
    · exact ⟨before, addr', p', after ++ [.set addr p], by simp, rfl,
        fun b hb => hd b (by simpa using hb)⟩

theorem armed_del {addr : BitVec 64} :
    Armed (calls ++ [.del addr]) a ↔ a ≠ addr.setWidth 32 ∧ Armed calls a := by
  constructor
  · rintro ⟨before, addr', p', after, h, rfl, hd⟩
    rcases List.eq_nil_or_concat after with rfl | ⟨after', c, rfl⟩
    · obtain ⟨-, hc⟩ := List.append_inj' h rfl
      cases hc
    · rw [List.concat_eq_append, ← List.cons_append, ← List.append_assoc] at h
      obtain ⟨hb, hc⟩ := List.append_inj' h rfl
      cases hc
      exact ⟨(hd addr (by simp)).symm, before, addr', p', after', hb, rfl,
        fun b hb => hd b (by simp [hb])⟩
  · rintro ⟨hne, before, addr', p', after, rfl, rfl, hd⟩
    refine ⟨before, addr', p', after ++ [.del addr], by simp, rfl, fun b hb => ?_⟩
    rcases List.mem_append.mp hb with hb | hb
    · exact hd b hb
    · cases List.mem_singleton.mp hb
      exact hne.symm

end Armed

section EachSet
variable {P : List Call → BitVec 64 → Addr → Prop} {calls : List Call}

theorem eachSet_nil : EachSet P [] := fun before addr p after h => by simp at h

theorem EachSet.init {c : Call} (h : EachSet P (calls ++ [c])) : EachSet P calls :=
  fun before addr p after he => h before addr p (after ++ [c]) (by simp [he])

theorem EachSet.snoc (calls : List Call) {c : Call} (h : EachSet P calls)
    (hc : ∀ addr p, c = .set addr p → P calls addr p) : EachSet P (calls ++ [c]) := by
  intro before addr p after he
  rcases List.eq_nil_or_concat after with rfl | ⟨after', d, rfl⟩
  · obtain ⟨rfl, hl⟩ := List.append_inj' he rfl
    exact hc addr p (List.cons.inj hl).1
  · rw [List.concat_eq_append, ← List.cons_append, ← List.append_assoc] at he
    exact h before addr p after' (List.append_inj' he rfl).1

end EachSet

/-! The tree that a heap holds has no cycle. -/

theorem Stands.unique {h : Heap} {t u : BinaryTree Cell} (ht : Stands h t) (hu : Stands h u)
    (hp : ptr t = ptr u) : t.numNodes = u.numNodes := by
  induction t generalizing u with
  | nil =>
    rw [ptr_eq_none.mp hp.symm]
  | node c l r hl hr =>
    cases u with
    | nil => cases hp
    | node d a b =>
      rw [ptr_node, ptr_node, Option.some.injEq] at hp
      have he : c.toNode .left (ptr l) (ptr r) = d.toNode .left (ptr a) (ptr b) :=
        Option.some.inj (ht.1.symm.trans (hp ▸ hu.1))
      have hla : ptr l = ptr a := congrArg Node.left he
      have hrb : ptr r = ptr b := congrArg Node.right he
      rw [BinaryTree.numNodes, BinaryTree.numNodes, hl ht.2.1 hu.2.1 hla, hr ht.2.2 hu.2.2 hrb]

theorem Stands.child {h : Heap} {t : BinaryTree Cell} {a b : Addr} (ht : Stands h t)
    (ha : ptr t = some a) (hc : Child h a b) :
    ∃ u, Stands h u ∧ ptr u = some b ∧ u.numNodes < t.numNodes := by
  cases t with
  | nil => cases ha
  | node c l r =>
    obtain ⟨hx, sl, sr⟩ := ht
    rw [ptr_node, Option.some.injEq] at ha
    obtain ⟨n, hn, hb⟩ := hc
    have he : n = c.toNode .left (ptr l) (ptr r) := Option.some.inj (hn.symm.trans (ha ▸ hx))
    rw [he] at hb
    rcases hb with hb | hb
    · exact ⟨l, sl, hb, by rw [BinaryTree.numNodes]; omega⟩
    · exact ⟨r, sr, hb, by rw [BinaryTree.numNodes]; omega⟩

theorem Stands.below {h : Heap} {t : BinaryTree Cell} {a b : Addr} (ht : Stands h t)
    (ha : ptr t = some a) (hc : Relation.TransGen (Child h) a b) :
    ∃ u, Stands h u ∧ ptr u = some b ∧ u.numNodes < t.numNodes := by
  induction hc with
  | single h1 => exact ht.child ha h1
  | tail _ h1 ih =>
    obtain ⟨u, su, hu, hlt⟩ := ih
    obtain ⟨v, sv, hv, hlt'⟩ := su.child hu h1
    exact ⟨v, sv, hv, hlt'.trans hlt⟩

theorem Holds.acyclic {m : Map} {t : BinaryTree Cell} (hm : Holds m t) : Acyclic m := by
  rintro a ⟨r, hr, hra⟩
  obtain ⟨u, su, hu⟩ : ∃ u, Stands m.heap u ∧ ptr u = some a := by
    rcases Relation.reflTransGen_iff_eq_or_transGen.mp hra with rfl | h
    · exact ⟨t, hm.stands, hm.root.symm.trans hr⟩
    · obtain ⟨u, su, hu, -⟩ := hm.stands.below (hm.root.symm.trans hr) h
      exact ⟨u, su, hu⟩
  refine ⟨fun hc => ?_, su.allocated (ptr_mem hu)⟩
  obtain ⟨v, sv, hv, hlt⟩ := su.below hu hc
  exact absurd (su.unique sv (hu.trans hv.symm)) (Nat.ne_of_gt hlt)

/-! What holds after every call. -/

structure Good (m : Map) (t : BinaryTree Cell) (calls : List Call) : Prop where
  holds : Holds m t
  ordered : Ordered (t.map Cell.key)
  tended : Tended t
  black : rootParent t = none → red t = false
  keys : ∀ a : BitVec 32, a.toInt ∈ keys t ↔ Armed calls a
  size : t.numNodes ≤ calls.length

theorem Good.height {m : Map} {t : BinaryTree Cell} {calls : List Call} {k : ℕ}
    (hg : Good m t calls) (hk : calls.length < k) : t.height < k :=
  (t.height_le_numNodes.trans hg.size).trans_lt hk

theorem length_keys (t : BinaryTree Cell) : (keys t).length = t.numNodes := by
  rw [keys, List.length_map, length_inorder]

theorem ordered_keys {t : BinaryTree Cell} :
    Ordered (t.map Cell.key) ↔ (keys t).Pairwise (· < ·) := by
  rw [Ordered, keys_map]

theorem good_empty : Good Map.empty nil [] where
  holds := ⟨rfl, trivial, List.nodup_nil⟩
  ordered := ordered_nil
  tended := trivial
  black _ := rfl
  keys a := by simp [armed_nil]
  size := le_rfl

theorem numNodes_graft (c : Cell) (t : BinaryTree Cell) :
    (graft c t).numNodes ≤ t.numNodes + 1 := by
  have hl : ∀ u : BinaryTree Cell, (addrs u).length = u.numNodes := fun u => by
    rw [addrs, List.length_map, length_inorder]
  rcases addrs_graft c t with h | h
  · have := h.length_eq
    rw [List.length_cons, hl, hl] at this
    omega
  · have := congrArg List.length h
    rw [hl, hl] at this
    omega

section Planted
variable {c : Cell} {t : BinaryTree Cell} (hk : c.key ∉ keys t) (ht : rootParent t = none)
  (hc : c.parent = none)
include hk ht hc

theorem ordered_planted (ho : Ordered (t.map Cell.key)) :
    Ordered ((planted c t).map Cell.key) := by
  rw [ordered_keys, keys_planted hc ht hk, ← ordered_keys, map_graft]
  exact ordered_insert ho

theorem mem_keys_planted {a : ℤ} : a ∈ keys (planted c t) ↔ a = c.key ∨ a ∈ keys t := by
  rw [keys_planted hc ht hk, ← keys_map, map_graft, mem_insert, keys_map]

theorem numNodes_planted : (planted c t).numNodes ≤ t.numNodes + 1 := by
  rw [← length_keys, keys_planted hc ht hk, length_keys]
  exact numNodes_graft c t

end Planted

section Steps
variable {m : Map} {t : BinaryTree Cell} {calls : List Call} {k : ℕ}

theorem Good.rootParent (hg : Good m t calls) (hr : Rooted m) : rootParent t = none := by
  cases t with
  | nil => rfl
  | node c l r =>
    refine hr (c.toNode .left (ptr l) (ptr r)) ?_
    rw [hg.holds.root]
    exact load_some hg.holds.stands.1

theorem Good.set (hg : Good m t calls) (hk : calls.length < k) {addr : BitVec 64} {p : Addr}
    (hp : m.heap p = none) (ha : ¬ Armed calls (addr.setWidth 32)) (hr : Rooted m) :
    ∃ m' t', (Call.set addr p).exec k m = .ok m' ∧ Good m' t' (calls ++ [.set addr p]) := by
  have hroot := hg.rootParent hr
  have hnew : Cell.key ⟨p, addr.setWidth 32, .red, none⟩ ∉ Gdb.keys t :=
    fun h => ha ((hg.keys _).mp h)
  obtain ⟨m', e, hm'⟩ := insertNode_holds hg.holds hp hroot (hg.black hroot) hnew (hg.height hk)
  refine ⟨m', _, ?_, hm', ordered_planted hnew hroot rfl hg.ordered, tended_planted hg.tended,
    fun _ => red_rebalance _ _, fun a => ?_, ?_⟩
  · simp [Call.exec, srvSetBp, e]
  · rw [mem_keys_planted hnew hroot rfl, hg.keys, armed_set]
    exact or_congr BitVec.toInt_inj Iff.rfl
  · rw [List.length_append, List.length_singleton]
    exact (numNodes_planted hnew hroot rfl).trans (Nat.succ_le_succ hg.size)

theorem Good.del (hg : Good m t calls) (hk : calls.length < k) (addr : BitVec 64) :
    ∃ m' t', (Call.del addr).exec k m = .ok m' ∧ Good m' t' (calls ++ [.del addr]) := by
  have hf := findNode_stands (d := addr.setWidth 32) hg.holds.stands (hg.height hk)
  rw [← hg.holds.root] at hf
  have hs := seek_ne_nil (d := addr.setWidth 32) hg.ordered
  rw [hg.keys] at hs
  have hsize : t.numNodes ≤ (calls ++ [Call.del addr]).length := by
    rw [List.length_append]
    exact hg.size.trans (Nat.le_add_right _ _)
  by_cases hp : ptr (seek (addr.setWidth 32) t) = none
  · -- nothing to delete
    have ha : ¬ Armed calls (addr.setWidth 32) := fun h => hs.mpr h hp
    refine ⟨m, t, ?_, hg.holds, hg.ordered, hg.tended, hg.black, fun a => ?_, hsize⟩
    · simp [Call.exec, srvDelBp, hf, hp]
    · rw [hg.keys, armed_del]
      constructor
      · intro h
        exact ⟨fun he => ha (he ▸ h), h⟩
      · exact And.right
  · obtain ⟨m', e, hm'⟩ := deleteNode_holds (addr.setWidth 32) hg.holds (hg.height hk)
    have hmap := map_prune (addr.setWidth 32) t
    refine ⟨m', _, ?_, hm', ?_, tended_prune hg.tended, black_prune hg.tended hg.black,
      fun a => ?_, ?_⟩
    · simp [Call.exec, srvDelBp, hf, hp, e]
    · rw [hmap]
      exact ordered_erase hg.ordered
    · rw [← keys_map, hmap, mem_erase hg.ordered, keys_map, hg.keys, armed_del, and_comm]
      exact and_congr (not_congr BitVec.toInt_inj) Iff.rfl
    · refine le_trans ?_ hsize
      have := (addrs_prune (addr.setWidth 32) t).length_le
      rwa [addrs, addrs, List.length_map, List.length_map, length_inorder, length_inorder] at this

end Steps

/-- The invariant of a run, by induction on the calls. -/
theorem run_good {calls : List Call} {k : ℕ} (hf : Fresh calls) (hc : Careful calls)
    (hk : calls.length < k) : ∃ m t, run k calls = .ok m ∧ Good m t calls := by
  induction calls using List.reverseRecOn with
  | nil => exact ⟨Map.empty, nil, rfl, good_empty⟩
  | append_singleton calls c ih =>
    rw [List.length_append, List.length_singleton] at hk
    obtain ⟨m, t, e, hg⟩ := ih (EachSet.init hf) (EachSet.init hc) (by omega)
    rw [run_append, e, ok_bind]
    cases c with
    | set addr p =>
      obtain ⟨ha, hr⟩ := hc calls addr p [] rfl
      exact hg.set (by omega) (hf calls addr p [] rfl k m e) ha (hr k m e)
    | del addr => exact hg.del (by omega) addr

theorem Good.kept {m : Map} {t : BinaryTree Cell} {calls : List Call} {k : ℕ} (hg : Good m t calls)
    (hk : calls.length < k) (e : run k calls = .ok m) : Kept k calls := by
  refine ⟨m, e, hg.holds.acyclic, fun a => ⟨ptr (seek a t), ?_, ?_⟩⟩
  · rw [hg.holds.root]
    exact findNode_stands hg.holds.stands (hg.height hk)
  · rw [seek_ne_nil hg.ordered, hg.keys]

theorem run_faults {before after : List Call} {addr : BitVec 64} {p : Addr} {k : ℕ}
    (hf : Fresh (before ++ .set addr p :: after)) (hc : Careful before)
    (ha : Armed before (addr.setWidth 32)) (hk : before.length < k) :
    run k (before ++ .set addr p :: after) = .error .fault := by
  have hf' : Fresh before := fun b a q l h =>
    hf b a q (l ++ .set addr p :: after) (by simp [h])
  obtain ⟨m, t, e, hg⟩ := run_good hf' hc hk
  have hi := insertNode_faults hg.holds (hf before addr p after rfl k m e) hg.ordered
    ((hg.keys _).mpr ha) (hg.height hk)
  have hx : (Call.set addr p).exec k m = .error .fault := by
    simp only [Call.exec, srvSetBp, hi]
    rfl
  have e' : before.foldlM (Call.exec k) Map.empty = .ok m := e
  rw [run, List.foldlM_append, e', ok_bind, List.foldlM_cons, hx]
  rfl

/-- A run that sets no address twice and adds nothing under a root with a parent keeps the set;
an address set while it is there ends the run at a null node. -/
theorem breakpoint_set {calls : List Call} (hf : Fresh calls) :
    (Careful calls → ∀ k, calls.length < k → Kept k calls) ∧
      ∀ before addr p after, calls = before ++ .set addr p :: after → Careful before →
        Armed before (addr.setWidth 32) → ∀ k, before.length < k → run k calls = .error .fault := by
  constructor
  · intro hc k hk
    obtain ⟨m, t, e, hg⟩ := run_good hf hc hk
    exact hg.kept hk e
  · rintro before addr p after rfl hc ha k hk
    exact run_faults hf hc ha hk

/-! Histories with one address, and with two. -/

theorem run_one {k : ℕ} {m : Map} (h : run k [.set 1 1] = .ok m) : m.heap 2 = none ∧ Rooted m := by
  cases k with
  | zero => cases h
  | succ k =>
    obtain ⟨m', e, n, hl, hm⟩ : ∃ m', run (k + 1) [.set 1 1] = .ok m' ∧
      ∃ n, load m'.heap m'.root = .ok n ∧ m'.heap 2 = none ∧ n.parent = none :=
        ⟨_, rfl, _, rfl, rfl, rfl⟩
    cases Except.ok.inj (h.symm.trans e)
    refine ⟨hm.1, fun n' hn' => ?_⟩
    cases Except.ok.inj (hn'.symm.trans hl)
    exact hm.2

theorem fresh_one : Fresh [.set 1 1] := by
  refine EachSet.snoc [] eachSet_nil fun addr p hp k m h => ?_
  cases Except.ok.inj h
  rfl

theorem fresh_two (addr : BitVec 64) : Fresh [.set 1 1, .set addr 2] := by
  refine EachSet.snoc [.set 1 1] fresh_one fun addr p hp k m h => ?_
  cases hp
  exact (run_one h).1

theorem careful_one : Careful [.set 1 1] := by
  refine EachSet.snoc [] eachSet_nil fun addr p hp => ⟨armed_nil, fun k m h => ?_⟩
  cases Except.ok.inj h
  intro n hn
  cases hn

theorem armed_one (a : BitVec 32) : Armed [.set 1 1] a ↔ a = 1 := by
  refine (show Armed ([] ++ [.set 1 1]) a ↔ _ from armed_set).trans ⟨fun h => ?_, .inl⟩
  exact h.resolve_right armed_nil

theorem careful_two : Careful [.set 1 1, .set 5 2] := by
  refine EachSet.snoc [.set 1 1] careful_one fun addr p hp => ?_
  cases hp
  refine ⟨fun h => ?_, fun k m h => (run_one h).2⟩
  rw [armed_one] at h
  exact absurd h (by decide)

/-- Two breakpoints, the older deleted, are kept; the older one twice is not. -/
theorem breakpoint_set_two :
    Kept 4 [.set 1 1, .set 5 2, .del 1] ∧
      ∀ k, 1 < k → run k [.set 1 1, .set 1 2] = .error .fault := by
  have hf : Fresh [.set 1 1, .set 5 2, .del 1] :=
    EachSet.snoc [.set 1 1, .set 5 2] (fresh_two 5) fun addr p hp => by cases hp
  have hc : Careful [.set 1 1, .set 5 2, .del 1] :=
    EachSet.snoc [.set 1 1, .set 5 2] careful_two fun addr p hp => by cases hp
  refine ⟨(breakpoint_set hf).1 hc 4 (by decide), ?_⟩
  exact (breakpoint_set (fresh_two 1)).2 [.set 1 1] 1 2 [] rfl careful_one ((armed_one _).mpr rfl)

theorem run_three {k : ℕ} {m : Map} (h : run k [.set 1 1, .set 5 2, .del 1] = .ok m) :
    m.heap 3 = none := by
  rcases k with _ | _ | _ | k
  · cases h
  · cases h
  · cases h
    rfl
  · obtain ⟨m', e, hm⟩ : ∃ m', run (k + 3) [.set 1 1, .set 5 2, .del 1] = .ok m' ∧
      m'.heap 3 = none := ⟨_, rfl, rfl⟩
    cases Except.ok.inj (h.symm.trans e)
    exact hm

/-- The root deleted while it has one child keeps the child's parent pointer, to itself; the
rotation of a later set ties the root and its child into a cycle. -/
theorem cycle_four (k : ℕ) : ¬ Kept k [.set 1 1, .set 5 2, .del 1, .set 9 3] := by
  rintro ⟨m, h, hac, -⟩
  rcases k with _ | _ | k
  · cases h
  · cases h
  · obtain ⟨m', e, hr, hroot, hother⟩ : ∃ m',
        run (k + 2) [.set 1 1, .set 5 2, .del 1, .set 9 3] = .ok m' ∧ m'.root = some 1 ∧
          Child m'.heap 1 3 ∧ Child m'.heap 3 1 :=
      ⟨_, rfl, rfl, ⟨_, rfl, .inr rfl⟩, ⟨_, rfl, .inl rfl⟩⟩
    cases Except.ok.inj (h.symm.trans e)
    exact (hac 1 ⟨1, hr, .refl⟩).1 (.tail (.single hroot) hother)

/-- An address set twice, and a set after the root has gone from above an only child. -/
theorem breakpoint_set_fails :
    (Fresh [.set 1 1, .set 1 2] ∧ ∀ k, ¬ Kept k [.set 1 1, .set 1 2]) ∧
      Fresh [.set 1 1, .set 5 2, .del 1, .set 9 3] ∧
        ∀ k, ¬ Kept k [.set 1 1, .set 5 2, .del 1, .set 9 3] := by
  refine ⟨⟨fresh_two 1, ?_⟩, ?_, cycle_four⟩
  · rintro k ⟨m, h, -⟩
    cases k with
    | zero => cases h
    | succ k => cases h
  · refine EachSet.snoc [.set 1 1, .set 5 2, .del 1] ?_ fun addr p hp k m h => ?_
    · exact EachSet.snoc [.set 1 1, .set 5 2] (fresh_two 5) fun addr p hp => by cases hp
    · cases hp
      exact run_three h

end Srv32.Gdb
