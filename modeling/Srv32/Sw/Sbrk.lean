import Srv32.Opcode
import Mathlib.Algebra.BigOperators.Group.Finset.Basic
import Mathlib.Algebra.BigOperators.Intervals

/-! Heap growth in the board library (`sw/common/syscall.c`). -/

namespace Srv32.Sw

/-- Of a sequence of bounds that does not go down between two places, the blocks at the places have
nothing in common. -/
theorem apart_blocks {p : ℕ → ℕ} {i j : ℕ} (hij : i < j)
    (hup : ∀ l, i < l → l < j → p l ≤ p (l + 1)) {a : ℕ} (ha : p i ≤ a ∧ a < p (i + 1)) :
    ¬ (p j ≤ a ∧ a < p (j + 1)) := by
  have hle : p (i + 1) ≤ p j := by
    induction j, hij using Nat.le_induction with
    | base => exact le_rfl
    | succ j hj ih =>
      apply (ih fun l h1 h2 => hup l h1 (by omega)).trans
      exact hup j hj (by omega)
  omega

/-- The symbols of the linker script: the program's data end at `_end`, below the top of memory. -/
structure Layout where
  _end : Word
  _stack : Word
  loaded : 0 < _end.toNat
  room : _end.toNat < _stack.toNat

def Layout.base (lay : Layout) (heap_ptr : Word) : Word :=
  if heap_ptr = 0#32 then lay._end else heap_ptr

/-- What `_sbrk` returns, and `heap_ptr` after it. -/
def sbrk (lay : Layout) (heap_ptr nbytes : Word) : Word × Word :=
  let heap_ptr := lay.base heap_ptr
  if lay._stack.toInt ≤ (heap_ptr + nbytes).toInt then (0#32, heap_ptr)
  else (heap_ptr, heap_ptr + nbytes)

/-- `heap_ptr` before call `i`. -/
def heapPtr (lay : Layout) (ns : ℕ → Word) : ℕ → Word
  | 0 => 0#32
  | i + 1 => (sbrk lay (heapPtr lay ns i) (ns i)).2

def Fits (lay : Layout) (heap_ptr nbytes : Word) : Prop :=
  lay._end.toNat ≤ (lay.base heap_ptr).toNat + nbytes.toInt ∧
    (lay.base heap_ptr).toNat + nbytes.toInt < lay._stack.toNat

/-- What the allocator relies on in one call. -/
structure CallLaw (lay : Layout) (heap_ptr nbytes : Word) : Prop where
  fails : ¬ Fits lay heap_ptr nbytes → sbrk lay heap_ptr nbytes = (-1#32, lay.base heap_ptr)
  moves : Fits lay heap_ptr nbytes → (sbrk lay heap_ptr nbytes).1 = lay.base heap_ptr ∧
    ((sbrk lay heap_ptr nbytes).2.toNat : ℤ) = (lay.base heap_ptr).toNat + nbytes.toInt

/-- Call `i` hands out address `a`. -/
def HandsOut (lay : Layout) (ns : ℕ → Word) (i a : ℕ) : Prop :=
  let p := (sbrk lay (heapPtr lay ns i) (ns i)).1.toNat
  p ≤ a ∧ a < p + (ns i).toNat

/-- The first `N` calls. -/
structure HeapLaw (lay : Layout) (ns : ℕ → Word) (N : ℕ) : Prop where
  within : ∀ i ≤ N, heapPtr lay ns i ≠ 0#32 →
    lay._end.toNat ≤ (heapPtr lay ns i).toNat ∧ (heapPtr lay ns i).toNat < lay._stack.toNat
  call : ∀ i < N, CallLaw lay (heapPtr lay ns i) (ns i)
  disjoint : ∀ i j, i < j → j < N →
    (∀ l, i ≤ l → l ≤ j → 0 ≤ (ns l).toInt ∧ Fits lay (heapPtr lay ns l) (ns l)) →
      ∀ a, HandsOut lay ns i a → ¬ HandsOut lay ns j a

/-- Where the break belongs before call `i`: the requests so far, beyond `_end`. -/
def requested (lay : Layout) (ns : ℕ → Word) (i : ℕ) : ℤ :=
  lay._end.toNat + ∑ j ∈ Finset.range i, (ns j).toInt

/-- The request of call `i` can be satisfied, and the comparison as signed numbers lets it pass. -/
def Served (lay : Layout) (ns : ℕ → Word) (i : ℕ) : Prop :=
  lay._end.toNat ≤ requested lay ns (i + 1) ∧ requested lay ns (i + 1) < lay._stack.toNat ∧
    (lay._stack.toNat < 2 ^ 31 ∨ 2 ^ 31 ≤ requested lay ns (i + 1))

variable {lay : Layout} {ns : ℕ → Word} {hp n : Word}

theorem base_of_ne_zero (h : hp ≠ 0#32) : lay.base hp = hp := if_neg h

theorem toNat_add_eq {a n : Word} (h0 : 0 ≤ a.toNat + n.toInt) (h1 : a.toNat + n.toInt < 2 ^ 32) :
    ((a + n).toNat : ℤ) = a.toNat + n.toInt := by
  have hn := n.isLt
  rw [BitVec.toInt_eq_toNat_cond] at *
  rw [BitVec.toNat_add]
  omega

/-- Of two addresses in order, the comparison as signed numbers goes wrong across `2 ^ 31`. -/
theorem toInt_lt_iff {a b : Word} (h : a.toNat < b.toNat) :
    a.toInt < b.toInt ↔ b.toNat < 2 ^ 31 ∨ 2 ^ 31 ≤ a.toNat := by
  have hb := b.isLt
  rw [BitVec.toInt_eq_toNat_cond, BitVec.toInt_eq_toNat_cond]
  omega

def InHeap (lay : Layout) (heap_ptr : Word) : Prop :=
  lay._end.toNat ≤ heap_ptr.toNat ∧ heap_ptr.toNat < lay._stack.toNat

theorem inHeap_base_zero : InHeap lay (lay.base 0#32) := ⟨le_rfl, lay.room⟩

theorem sbrk_of_fits (h : Fits lay hp n) :
    sbrk lay hp n =
      if lay._stack.toNat < 2 ^ 31 ∨ 2 ^ 31 ≤ (lay.base hp).toNat + n.toInt then
        (lay.base hp, lay.base hp + n)
      else (0#32, lay.base hp) := by
  have hs := lay._stack.isLt
  obtain ⟨hlow, hhigh⟩ := h
  have hx : ((lay.base hp + n).toNat : ℤ) = (lay.base hp).toNat + n.toInt :=
    toNat_add_eq (by omega) (by omega)
  have hcmp := toInt_lt_iff (a := lay.base hp + n) (b := lay._stack) (by omega)
  rw [← hx, sbrk]
  by_cases hc : lay._stack.toNat < 2 ^ 31 ∨ 2 ^ 31 ≤ (lay.base hp + n).toNat
  · rw [if_neg (not_le_of_gt (hcmp.mpr hc)), if_pos (by omega)]
  · rw [if_pos (not_lt.mp (mt hcmp.mp hc)), if_neg (by omega)]

theorem sbrk_ne_neg_one (h : InHeap lay (lay.base hp)) : (sbrk lay hp n).1 ≠ -1#32 := by
  have hs := lay._stack.isLt
  obtain ⟨-, hhigh⟩ := h
  rw [sbrk]
  split_ifs
  · intro he
    cases he
  · intro he
    rw [show (lay.base hp).toNat = 2 ^ 32 - 1 from congrArg BitVec.toNat he] at hhigh
    omega

theorem callLaw_iff (h : InHeap lay (lay.base hp)) :
    CallLaw lay hp n ↔ Fits lay hp n ∧
      (lay._stack.toNat < 2 ^ 31 ∨ 2 ^ 31 ≤ (lay.base hp).toNat + n.toInt) := by
  constructor
  · intro hl
    have hf : Fits lay hp n := by
      by_contra hf
      exact sbrk_ne_neg_one h (congrArg Prod.fst (hl.fails hf))
    refine ⟨hf, ?_⟩
    by_contra hc
    have hm := (hl.moves hf).1
    rw [sbrk_of_fits hf, if_neg hc] at hm
    have hpos := lay.loaded
    have hlow := h.1
    rw [← hm] at hlow
    exact absurd hlow (by simp; omega)
  · intro hc
    refine ⟨fun hf => absurd hc.1 hf, fun hf => ?_⟩
    rw [sbrk_of_fits hf, if_pos hc.2]
    have hs := lay._stack.isLt
    obtain ⟨hlow, hhigh⟩ := hf
    exact ⟨rfl, toNat_add_eq (by omega) (by omega)⟩

/-! Runs. -/

theorem requested_succ (i : ℕ) :
    requested lay ns (i + 1) = requested lay ns i + (ns i).toInt := by
  rw [requested, requested, Finset.sum_range_succ, add_assoc]

/-- The break before call `i`. -/
def brk (lay : Layout) (ns : ℕ → Word) (i : ℕ) : Word := lay.base (heapPtr lay ns i)

theorem InHeap.ne_zero (h : InHeap lay hp) : hp ≠ 0#32 := by
  have hpos := lay.loaded
  have hlow := h.1
  rintro rfl
  simp at hlow
  omega

/-- A call that obeys its law moves the break as requested. -/
theorem brk_succ {i : ℕ} (h : InHeap lay (brk lay ns i))
    (hl : CallLaw lay (heapPtr lay ns i) (ns i))
    (hb : ((brk lay ns i).toNat : ℤ) = requested lay ns i) :
    InHeap lay (heapPtr lay ns (i + 1)) ∧ brk lay ns (i + 1) = heapPtr lay ns (i + 1) ∧
      ((brk lay ns (i + 1)).toNat : ℤ) = requested lay ns (i + 1) ∧ Served lay ns i := by
  obtain ⟨hf, hc⟩ := (callLaw_iff h).mp hl
  have hm : ((heapPtr lay ns (i + 1)).toNat : ℤ) = requested lay ns (i + 1) := by
    rw [requested_succ, ← hb]
    exact (hl.moves hf).2
  have hr : (lay.base (heapPtr lay ns i)).toNat + (ns i).toInt = requested lay ns (i + 1) := by
    rw [requested_succ, ← hb]
    rfl
  rw [Fits, hr] at hf
  rw [hr] at hc
  have hin : InHeap lay (heapPtr lay ns (i + 1)) := by
    rw [InHeap]
    omega
  have he : brk lay ns (i + 1) = heapPtr lay ns (i + 1) := base_of_ne_zero hin.ne_zero
  exact ⟨hin, he, he ▸ hm, hf.1, hf.2, hc⟩

theorem brk_run {i : ℕ} (hl : ∀ j < i, CallLaw lay (heapPtr lay ns j) (ns j)) :
    InHeap lay (brk lay ns i) ∧ ((brk lay ns i).toNat : ℤ) = requested lay ns i := by
  induction i with
  | zero =>
    refine ⟨inHeap_base_zero, ?_⟩
    rw [requested, Finset.sum_range_zero, add_zero]
    rfl
  | succ i ih =>
    obtain ⟨hin, hb⟩ := ih fun j hj => hl j (by omega)
    obtain ⟨hin', he, hb', -⟩ := brk_succ hin (hl i (by omega)) hb
    exact ⟨he ▸ hin', hb'⟩

/-- Requests that are all served keep every call within its law. -/
theorem call_of_served {N : ℕ} (h : ∀ i < N, Served lay ns i) (i : ℕ) (hi : i < N) :
    CallLaw lay (heapPtr lay ns i) (ns i) := by
  induction i using Nat.strong_induction_on with
  | _ i ih =>
    obtain ⟨hin, hb⟩ := brk_run fun j hj => ih j hj (by omega)
    obtain ⟨hlow, hhigh, hc⟩ := h i hi
    rw [requested_succ, ← hb] at hlow hhigh hc
    exact (callLaw_iff hin).mpr ⟨⟨hlow, hhigh⟩, hc⟩

/-- A call that does not give memory back hands out what lies between the breaks before and after
it. -/
theorem handsOut_iff {l : ℕ} (hl : CallLaw lay (heapPtr lay ns l) (ns l)) (h0 : 0 ≤ (ns l).toInt)
    (hf : Fits lay (heapPtr lay ns l) (ns l)) (he : brk lay ns (l + 1) = heapPtr lay ns (l + 1)) :
    (brk lay ns l).toNat ≤ (brk lay ns (l + 1)).toNat ∧
      ∀ a, HandsOut lay ns l a ↔ (brk lay ns l).toNat ≤ a ∧ a < (brk lay ns (l + 1)).toNat := by
  obtain ⟨h1, h2⟩ := hl.moves hf
  have hn : ((ns l).toNat : ℤ) = (ns l).toInt := by
    have hlt := (ns l).isLt
    rw [BitVec.toInt_eq_toNat_cond] at *
    omega
  have hsum : (brk lay ns (l + 1)).toNat = (brk lay ns l).toNat + (ns l).toNat := by
    rw [he, heapPtr, brk]
    omega
  refine ⟨by omega, fun a => ?_⟩
  rw [HandsOut, h1, hsum]
  rfl

/-- For every layout and every sequence of calls: the first `N` obey the law exactly when every
request among them can be satisfied. A request that cannot gets 0 or a block, never -1. -/
theorem heapLaw_iff (lay : Layout) (ns : ℕ → Word) (N : ℕ) :
    HeapLaw lay ns N ↔ ∀ i < N, Served lay ns i := by
  constructor
  · intro h i hi
    obtain ⟨hin, hb⟩ := brk_run (i := i) fun j hj => h.call j (by omega)
    exact (brk_succ hin (h.call i hi) hb).2.2.2
  · intro h
    have hcall := call_of_served h
    have hnext : ∀ i < N, InHeap lay (heapPtr lay ns (i + 1)) ∧
        brk lay ns (i + 1) = heapPtr lay ns (i + 1) := by
      intro i hi
      obtain ⟨hin, hb⟩ := brk_run (i := i) fun j hj => hcall j (by omega)
      obtain ⟨hin', he, -⟩ := brk_succ hin (hcall i hi) hb
      exact ⟨hin', he⟩
    refine ⟨fun i hi h0 => ?_, hcall, fun i j hij hj hup => ?_⟩
    · cases i with
      | zero => exact absurd rfl h0
      | succ i => exact (hnext i (by omega)).1
    · have hb : ∀ l, i ≤ l → l ≤ j → _ := fun l h1 h2 =>
        handsOut_iff (hcall l (by omega)) (hup l h1 h2).1 (hup l h1 h2).2 (hnext l (by omega)).2
      intro a ha
      rw [(hb j hij.le le_rfl).2]
      apply apart_blocks (p := fun l => (brk lay ns l).toNat) hij
      · intro l h1 h2
        exact (hb l h1.le h2.le).1
      · exact ((hb i le_rfl hij.le).2 a).mp ha

/-- The board with 256 KB each of instruction and data memory, 32 KB of it data. -/
def board : Layout where
  _end := 0x48000#32
  _stack := 0x80000#32
  loaded := by decide
  room := by decide

/-- A request for more than there is gets address 0, and a negative one moves the break below
`_end`. -/
theorem heapLaw_fails :
    ¬ HeapLaw board (fun _ => 0x40000#32) 1 ∧ sbrk board 0#32 0x40000#32 = (0#32, 0x48000#32) ∧
      ¬ HeapLaw board (fun _ => -1#32) 1 ∧ sbrk board 0#32 (-1#32) = (0x48000#32, 0x47fff#32) := by
  refine ⟨fun h => ?_, by decide, fun h => ?_, by decide⟩
  · have hf : ¬ Fits board 0#32 0x40000#32 := by
      rw [Fits]
      decide
    exact absurd ((h.call 0 (by omega)).fails hf) (by decide)
  · exact absurd (h.within 1 le_rfl (by decide)).1 (by decide)

end Srv32.Sw
