import Srv32.Gdb.Breakpoints

/-! Deletion in any search tree: what is left of its keys, and of its nodes. -/

namespace Srv32.Gdb
open BinaryTree SearchTree

variable {k : ℕ} {m : Map} {t : BinaryTree Cell} {d : BitVec 32}

theorem sorted_keys : Sorted (t.map Cell.key) ↔ (keys t).Pairwise (· ≤ ·) := by
  rw [Sorted, keys_map]

theorem keys_prune (hs : Sorted (t.map Cell.key)) : keys (prune d t) = (keys t).erase d.toInt := by
  rw [← keys_map, map_prune, inorder_erase_sorted hs, keys_map]

theorem sorted_prune (hs : Sorted (t.map Cell.key)) : Sorted ((prune d t).map Cell.key) := by
  rw [sorted_keys, keys_prune hs]
  exact (sorted_keys.mp hs).sublist List.erase_sublist

/-- For every search tree on the heap, of any shape, with any colours and parent pointers and
whether or not keys repeat, and every key: with enough fuel for its height both functions return,
and they leave a search tree with one occurrence of the key less, none of whose nodes is freed. -/
theorem deletion_removes_key (hm : Holds m t) (hs : Sorted (t.map Cell.key)) (d : BitVec 32)
    (hk : t.height < k) :
    ∃ h' t', deleteNodeBST k m.heap m.root d = .ok (h', ptr t') ∧
      deleteNode k m d = .ok ⟨h', ptr t'⟩ ∧ Holds ⟨h', ptr t'⟩ t' ∧ Sorted (t'.map Cell.key) ∧
      keys t' = (keys t).erase d.toInt ∧ ∀ a, InTree ⟨h', ptr t'⟩ a → h' a ≠ none := by
  obtain ⟨h', e, s, -⟩ := deleteNodeBST_stands (d := d) hm.stands hm.nodup hk
  have hh : Holds ⟨h', ptr (prune d t)⟩ (prune d t) := ⟨rfl, s, nodup_prune hm.nodup⟩
  rw [← hm.root] at e
  refine ⟨h', prune d t, e, ?_, hh, sorted_prune hs, keys_prune hs, ?_⟩
  · rw [deleteNode, e]
    rfl
  · intro a ha
    exact (hh.acyclic a ha).2

/-- A root with two children goes: its successor's key comes up. -/
theorem deletion_removes_root :
    let c : Addr → BitVec 32 → Cell := fun a x => ⟨a, x, .black, none⟩
    let m : Map := ⟨fun a => if a = 1 then some ((c 1 4#32).toNode .left (some 2) (some 3)) else
      if a = 2 then some ((c 2 2#32).toNode .left none none) else
      if a = 3 then some ((c 3 6#32).toNode .left none none) else none, some 1⟩
    ∃ h' t', deleteNodeBST 4 m.heap m.root 4#32 = .ok (h', ptr t') ∧
      deleteNode 4 m 4#32 = .ok ⟨h', ptr t'⟩ ∧ Holds ⟨h', ptr t'⟩ t' ∧ Sorted (t'.map Cell.key) ∧
      keys t' = [2, 6] ∧ ∀ a, InTree ⟨h', ptr t'⟩ a → h' a ≠ none := by
  intro c m
  let t := node (c 1 4#32) (node (c 2 2#32) nil nil) (node (c 3 6#32) nil nil)
  have hm : Holds m t := ⟨rfl, ⟨rfl, ⟨rfl, trivial, trivial⟩, rfl, trivial, trivial⟩, by decide⟩
  have hs : Sorted (t.map Cell.key) := by
    rw [sorted_keys]
    decide
  exact deletion_removes_key hm hs 4#32 (by decide)

end Srv32.Gdb
