import Srv32.Riscv.Instr

/-! Pieces of a program: the words it consists of in memory, instructions one after the other, and
registers kept in memory meanwhile. -/

namespace Riscv

/-- The `m` bytes from `a` on and the `n` bytes from `b` on have none in common. -/
def Apart (a : BitVec 32) (m : ℕ) (b : BitVec 32) (n : ℕ) : Prop :=
  m ≤ (b - a).toNat ∧ n ≤ (a - b).toNat

instance (a : BitVec 32) (m : ℕ) (b : BitVec 32) (n : ℕ) : Decidable (Apart a m b n) :=
  inferInstanceAs (Decidable (_ ∧ _))

namespace Apart

variable {a b : BitVec 32} {m n j k : ℕ}

theorem symm (h : Apart a m b n) : Apart b n a m := ⟨h.2, h.1⟩

theorem part (h : Apart a m b n) (hj : j + k ≤ n) (hk : 0 < k) :
    Apart a m (b + BitVec.ofNat 32 j) k := by
  obtain ⟨h1, h2⟩ := h
  have ha := a.isLt
  have hb := b.isLt
  simp only [Apart, BitVec.toNat_sub, BitVec.toNat_add, BitVec.toNat_ofNat] at *
  constructor <;> omega

theorem add_left (c : BitVec 32) (h : Apart a m b n) : Apart (c + a) m (c + b) n := by
  have h1 : c + b - (c + a) = b - a := by bv_omega
  have h2 : c + a - (c + b) = a - b := by bv_omega
  rw [Apart, h1, h2]
  exact h

end Apart

def Instr.isStraight : Instr → Bool
  | .jal .. => false
  | .jalr .. => false
  | .branch .. => false
  | _ => true

theorem Instr.step_pc {i : Instr} (h : i.isStraight = true) (len : BitVec 32) (s : Machine) :
    (i.step len s).pc = s.pc + len := by
  cases i with
  | jal r off => cases h
  | jalr r s1 off => cases h
  | branch c s1 s2 off => cases h
  | _ => rfl

namespace Machine

variable {s : Machine} {a b : BitVec 32} {n : ℕ} {v w : BitVec 32} {ws : List (BitVec 32)}

/-! Words of memory. -/

theorem put_mem_of_le (h : n ≤ (w - a).toNat) : (s.put a n v).mem w = s.mem w :=
  if_neg (Nat.not_lt.mpr h)

theorem word_put (s : Machine) (a v : BitVec 32) : (s.put a 4 v).word a = v := by
  have h : ∀ j < 4, (s.put a 4 v).mem (a + BitVec.ofNat 32 j) = v.extractLsb' (8 * j) 8 := by
    intro j hj
    have hd : (a + BitVec.ofNat 32 j - a).toNat = j := by
      have : a + BitVec.ofNat 32 j - a = BitVec.ofNat 32 j := by bv_omega
      rw [this, BitVec.toNat_ofNat]
      omega
    simp only [put, hd, if_pos hj]
  have h0 := h 0 (by omega)
  rw [BitVec.add_zero] at h0
  rw [word, h 3 (by omega), h 2 (by omega), h 1 (by omega), h0]
  apply BitVec.eq_of_getLsbD_eq
  intro i hi
  simp only [BitVec.getLsbD_append, BitVec.getLsbD_extractLsb']
  grind

theorem word_put_of_apart (h : Apart a n b 4) : (s.put a n v).word b = s.word b := by
  have hm : ∀ j < 4, (s.put a n v).mem (b + BitVec.ofNat 32 j) = s.mem (b + BitVec.ofNat 32 j) :=
    fun j hj => put_mem_of_le (h.part (k := 1) (by omega) (by omega)).1
  have h0 := hm 0 (by omega)
  rw [BitVec.add_zero] at h0
  rw [word, hm 3 (by omega), hm 2 (by omega), hm 1 (by omega), h0, word]

/-- The words lie one after the other from `a` on. -/
def Holds (s : Machine) (a : BitVec 32) (ws : List (BitVec 32)) : Prop :=
  ∀ i w, ws[i]? = some w → s.word (a + BitVec.ofNat 32 (4 * i)) = w

theorem Holds.put (h : s.Holds b ws) (ha : Apart a n b (4 * ws.length)) :
    (s.put a n v).Holds b ws := by
  intro i w hw
  obtain ⟨hi, -⟩ := List.getElem?_eq_some_iff.mp hw
  rw [word_put_of_apart (ha.part (by omega) (by omega))]
  exact h i w hw

/-! Instructions one after the other. -/

/-- Each instruction leads to the next one. -/
def steps (s : Machine) (is : List Instr) : Machine := is.foldl (fun s i => i.step 4#32 s) s

@[simp] theorem steps_nil (s : Machine) : s.steps [] = s := rfl

@[simp] theorem steps_cons (s : Machine) (i : Instr) (is : List Instr) :
    s.steps (i :: is) = (i.step 4#32 s).steps is := rfl

theorem steps_append (s : Machine) (is js : List Instr) :
    s.steps (is ++ js) = (s.steps is).steps js := List.foldl_append

theorem set_x_of_ne {r d : BitVec 5} (h : r ≠ d) (v : BitVec 32) : (s.set d v).x r = s.x r := by
  simp only [set]
  split
  · rfl
  · exact Function.update_of_ne h _ _

theorem set_x_self {d : BitVec 5} (h : d ≠ 0#5) (v : BitVec 32) : (s.set d v).x d = v := by
  simp only [set, if_neg h, Function.update_self]

theorem opImm_x {op : ImmOp} {r d : BitVec 5} {imm : BitVec 12} (h : d ≠ 0#5) :
    ((Instr.opImm op d r imm).step 4#32 s).x d = op.eval (s.x r) (imm.signExtend 32) :=
  set_x_self h _

theorem opImm_x_of_ne {op : ImmOp} {r d q : BitVec 5} {imm : BitVec 12} (h : q ≠ d) :
    ((Instr.opImm op d r imm).step 4#32 s).x q = s.x q := set_x_of_ne h _

/-! A frame: registers, with the offsets of their words from a base register. -/

variable {base : BitVec 5} {f : List (BitVec 5 × BitVec 12)}

/-- Where a register is kept. -/
def place (s : Machine) (base : BitVec 5) (p : BitVec 5 × BitVec 12) : BitVec 32 :=
  s.x base + p.2.signExtend 32

def save (base : BitVec 5) (f : List (BitVec 5 × BitVec 12)) : List Instr :=
  f.map fun p => .store .sw base p.1 p.2

def restore (base : BitVec 5) (f : List (BitVec 5 × BitVec 12)) : List Instr :=
  f.map fun p => .load .lw p.1 base p.2

@[simp] theorem save_cons (p : BitVec 5 × BitVec 12) : save base (p :: f) =
    .store .sw base p.1 p.2 :: save base f := rfl

@[simp] theorem restore_cons (p : BitVec 5 × BitVec 12) : restore base (p :: f) =
    .load .lw p.1 base p.2 :: restore base f := rfl

/-- No two places overlap, no register is kept twice, and neither `x0` nor the base is. -/
structure FrameOk (base : BitVec 5) (f : List (BitVec 5 × BitVec 12)) : Prop where
  apart : f.Pairwise fun p q => Apart (p.2.signExtend 32) 4 (q.2.signExtend 32) 4
  distinct : (f.map Prod.fst).Nodup
  base : ∀ p ∈ f, p.1 ≠ base
  zero : ∀ p ∈ f, p.1 ≠ 0#5

theorem save_x : (s.steps (save base f)).x = s.x := by
  induction f generalizing s with
  | nil => rfl
  | cons p f ih =>
    rw [save_cons, steps_cons]
    exact ih

theorem save_mem (h : ∀ p ∈ f, 4 ≤ (w - s.place base p).toNat) :
    (s.steps (save base f)).mem w = s.mem w := by
  induction f generalizing s with
  | nil => rfl
  | cons p f ih =>
    rw [save_cons, steps_cons]
    refine (ih (s := (Instr.store .sw base p.1 p.2).step 4#32 s)
      fun q hq => h q (List.mem_cons_of_mem p hq)).trans ?_
    exact put_mem_of_le (h p List.mem_cons_self)

theorem save_word_of_apart (h : ∀ p ∈ f, Apart (s.place base p) 4 b 4) :
    (s.steps (save base f)).word b = s.word b := by
  induction f generalizing s with
  | nil => rfl
  | cons p f ih =>
    rw [save_cons, steps_cons]
    refine (ih (s := (Instr.store .sw base p.1 p.2).step 4#32 s)
      fun q hq => h q (List.mem_cons_of_mem p hq)).trans ?_
    exact word_put_of_apart (h p List.mem_cons_self)

theorem save_word (hf : f.Pairwise fun p q => Apart (p.2.signExtend 32) 4 (q.2.signExtend 32) 4)
    {p : BitVec 5 × BitVec 12} (hp : p ∈ f) :
    (s.steps (save base f)).word (s.place base p) = s.x p.1 := by
  induction f generalizing s with
  | nil => cases hp
  | cons q f ih =>
    rw [List.pairwise_cons] at hf
    rw [save_cons, steps_cons]
    rcases List.mem_cons.mp hp with rfl | hp
    · refine (save_word_of_apart fun r hr => ?_).trans (word_put _ _ _)
      exact ((hf.1 r hr).add_left (s.x base)).symm
    · exact ih hf.2 hp

theorem restore_mem : (s.steps (restore base f)).mem = s.mem := by
  induction f generalizing s with
  | nil => rfl
  | cons p f ih =>
    rw [restore_cons, steps_cons]
    exact ih

theorem restore_x_of_ne {r : BitVec 5} (h : ∀ p ∈ f, p.1 ≠ r) :
    (s.steps (restore base f)).x r = s.x r := by
  induction f generalizing s with
  | nil => rfl
  | cons p f ih =>
    rw [restore_cons, steps_cons]
    refine (ih fun q hq => h q (List.mem_cons_of_mem p hq)).trans ?_
    exact set_x_of_ne (h p List.mem_cons_self).symm _

theorem restore_x (hd : (f.map Prod.fst).Nodup) (hb : ∀ p ∈ f, p.1 ≠ base)
    (hz : ∀ p ∈ f, p.1 ≠ 0#5) {p : BitVec 5 × BitVec 12} (hp : p ∈ f) :
    (s.steps (restore base f)).x p.1 = s.word (s.place base p) := by
  induction f generalizing s with
  | nil => cases hp
  | cons q f ih =>
    rw [List.map_cons, List.nodup_cons] at hd
    rw [restore_cons, steps_cons]
    rcases List.mem_cons.mp hp with rfl | hp
    · refine (restore_x_of_ne fun r hr he => hd.1 ?_).trans
        (set_x_self (hz p List.mem_cons_self) _)
      rw [← he]
      exact List.mem_map_of_mem hr
    · have hplace : (Instr.step 4#32 s (.load .lw q.1 base q.2)).place base p = s.place base p := by
        rw [place, place]
        exact congrArg (· + _) (set_x_of_ne (hb q List.mem_cons_self).symm _)
      refine (ih hd.2 (fun r hr => hb r (List.mem_cons_of_mem q hr))
        (fun r hr => hz r (List.mem_cons_of_mem q hr)) hp).trans ?_
      rw [hplace]
      rfl

end Machine

/-! Addresses in two instructions. -/

/-- `%hi` -/
def hi20 (v : BitVec 32) : BitVec 20 := (v + 0x800#32).extractLsb' 12 20

/-- `%lo` -/
def lo12 (v : BitVec 32) : BitVec 12 := v.extractLsb' 0 12

theorem hi20_lo12 (v : BitVec 32) : (hi20 v ++ 0#12) + (lo12 v).signExtend 32 = v := by
  apply BitVec.eq_of_toNat_eq
  have hv := v.isLt
  simp only [BitVec.toNat_add, BitVec.toNat_append, BitVec.toNat_signExtend, BitVec.toNat_setWidth,
    BitVec.msb_eq_decide, hi20, lo12, BitVec.extractLsb'_toNat, BitVec.toNat_ofNat,
    Nat.shiftRight_eq_div_pow, Nat.shiftLeft_eq]
  split <;> simp_all <;> omega

end Riscv
