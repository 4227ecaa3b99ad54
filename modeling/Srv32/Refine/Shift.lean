import Srv32.Iss.Width
import Srv32.Refine.Exec

/-! Shifts and rotates by a register. The simulator leaves the count to C, which defines a shift of
a word only for counts below 32; the core takes the low five bits. -/

namespace Srv32.Iss

/-- The C shift operators of a 32-bit operand. -/
structure Shifts (m : Type → Type) where
  shl : Word → Word → m Word
  shr : Word → Word → m Word
  sar : Word → Word → m Word

/-- The operators as C defines them: no value for counts from 32 on. -/
def Shifts.standard : Shifts Option where
  shl x n := if n.toNat < 32 then some (x <<< n.toNat) else none
  shr x n := if n.toNat < 32 then some (x >>> n.toNat) else none
  sar x n := if n.toNat < 32 then some (x.sshiftRight n.toNat) else none

/-- The operators on a host that takes the count modulo 32. -/
def Shifts.masked : Shifts Id where
  shl := Iss.shl
  shr := Iss.shr
  sar := Iss.sar

/-- The arms that shift by a register, and RORI. -/
inductive Shift where
  | sll | srl | sra | rol | ror | rori
  deriving DecidableEq

namespace Shift

/-- What the arm computes from `rs1` and its second operand. -/
def eval {m : Type → Type} [Monad m] (s : Shifts m) (a b : Word) : Shift → m Word
  | sll => s.shl a b
  | srl => s.shr a b
  | sra => s.sar a b
  | rol => do
    let n := b &&& 0x1f#32
    let hi ← s.shl a n
    let lo ← s.shr a (32#32 - n)
    return hi ||| lo
  | ror => do
    let n := b &&& 0x1f#32
    let lo ← s.shr a n
    let hi ← s.shl a (32#32 - n)
    return lo ||| hi
  | rori => do
    let lo ← s.shr a (b &&& 0x1f#32)
    let hi ← s.shl a (32#32 - (b &&& 0x1f#32))
    return lo ||| hi

/-- The shift or rotate of `a` by `n`. -/
def result (a : Word) (n : ℕ) : Shift → Word
  | sll => a <<< n
  | srl => a >>> n
  | sra => a.sshiftRight n
  | rol => a.rotateLeft n
  | ror => a.rotateRight n
  | rori => a.rotateRight n

/-- Counts for which C defines the arm: a rotate by 0 also shifts by 32. -/
def Safe (b : Word) : Shift → Prop
  | sll | srl | sra => b.toNat < 32
  | rol | ror | rori => b.toNat % 32 ≠ 0

instance (b : Word) (k : Shift) : Decidable (k.Safe b) :=
  match k with
  | sll | srl | sra => inferInstanceAs (Decidable (b.toNat < 32))
  | rol | ror | rori => inferInstanceAs (Decidable (b.toNat % 32 ≠ 0))

theorem toNat_count (b : Word) : (b &&& 0x1f#32).toNat = b.toNat % 32 :=
  Bits.toNat_and_lowMask b 5 (by decide)

theorem toNat_complement (b : Word) : (32#32 - (b &&& 0x1f#32)).toNat = 32 - b.toNat % 32 := by
  have h := toNat_count b
  have hlt := Nat.mod_lt b.toNat (by decide : 0 < 32)
  bv_omega

theorem isSome_rotate {f g : Word → Option Word} {x y : Word} :
    (do let u ← f x; let v ← g y; return u ||| v).isSome = ((f x).isSome && (g y).isSome) := by
  cases f x with
  | none => rfl
  | some u => cases g y <;> rfl

/-- Where C defines the arm. -/
theorem isSome_eval_iff (a b : Word) (k : Shift) :
    (k.eval .standard a b).isSome = true ↔ k.Safe b := by
  have hlt := Nat.mod_lt b.toNat (by decide : 0 < 32)
  have hshl : ∀ x : Word, (Shifts.standard.shl a x).isSome = decide (x.toNat < 32) := by
    intro x
    simp only [Shifts.standard]
    split <;> simp [*]
  have hshr : ∀ x : Word, (Shifts.standard.shr a x).isSome = decide (x.toNat < 32) := by
    intro x
    simp only [Shifts.standard]
    split <;> simp [*]
  have hsar : ∀ x : Word, (Shifts.standard.sar a x).isSome = decide (x.toNat < 32) := by
    intro x
    simp only [Shifts.standard]
    split <;> simp [*]
  cases k with
  | sll => rw [eval, hshl, decide_eq_true_eq, Safe]
  | srl => rw [eval, hshr, decide_eq_true_eq, Safe]
  | sra => rw [eval, hsar, decide_eq_true_eq, Safe]
  | rol | ror | rori =>
    simp only [eval, isSome_rotate, hshl, hshr, toNat_count, toNat_complement, Safe,
      Bool.and_eq_true, decide_eq_true_eq]
    omega

/-- A host that masks the counts still shifts by the low five bits: a complementary count of 32
gives the word itself. -/
theorem eval_masked (a b : Word) (k : Shift) :
    k.eval .masked a b = k.result a (b.toNat % 32) := by
  have hlt := Nat.mod_lt b.toNat (by decide : 0 < 32)
  have hn : (b &&& 0x1f#32).toNat % 32 = b.toNat % 32 := by rw [toNat_count, Nat.mod_mod]
  have hc : (32#32 - (b &&& 0x1f#32)).toNat % 32 = (32 - b.toNat % 32) % 32 := by
    rw [toNat_complement]
  have hmod : (32 - b.toNat % 32) % 32 = if b.toNat % 32 = 0 then 0 else 32 - b.toNat % 32 := by
    split <;> omega
  have hzero : a >>> 32 = 0#32 := BitVec.ushiftRight_eq_zero (Nat.le_refl 32)
  have hleft : shl a (b &&& 0x1f#32) ||| shr a (32#32 - (b &&& 0x1f#32)) =
      a.rotateLeft (b.toNat % 32) := by
    rw [shl, shr, hn, hc, hmod, BitVec.rotateLeft_def, Nat.mod_mod]
    by_cases h0 : b.toNat % 32 = 0
    · simp [h0, hzero]
    · rw [if_neg h0]
  have hright : shr a (b &&& 0x1f#32) ||| shl a (32#32 - (b &&& 0x1f#32)) =
      a.rotateRight (b.toNat % 32) := by
    rw [shl, shr, hn, hc, hmod, BitVec.rotateRight_def, Nat.mod_mod]
    by_cases h0 : b.toNat % 32 = 0
    · simp [h0]
    · rw [if_neg h0]
  cases k with
  | sll | srl | sra => rfl
  | rol => exact hleft
  | ror | rori => exact hright

end Shift

namespace Rv

variable {cfg : Config} {rv d : Rv} {inst : Word} {host : Host} {c : Bool} {k : Shift} {b : Word}

/-- The shift a word is, and its second operand. -/
def shiftOf (cfg : Config) (rv : Rv) (inst : Word) : Option (Shift × Word) :=
  let b := rv.readRegs cfg (rs2 inst)
  if opcode inst = opArithR ∧ func7 inst = fnRv32i ∧ func3 inst = opSll then some (.sll, b)
  else if opcode inst = opArithR ∧ func7 inst = fnRv32i ∧ func3 inst = opSr then some (.srl, b)
  else if opcode inst = opArithR ∧ func7 inst = fnAndn ∧ func3 inst = opSr then some (.sra, b)
  else if cfg.rv32b ∧ opcode inst = opArithR ∧ func7 inst = fnClz ∧ func3 inst = opRol then
    some (.rol, b)
  else if cfg.rv32b ∧ opcode inst = opArithR ∧ func7 inst = fnClz ∧ func3 inst = opRor then
    some (.ror, b)
  else if cfg.rv32b ∧ opcode inst = opArithI ∧ func7 inst = fnClz ∧ func3 inst = opSr then
    some (.rori, (rs2 inst).setWidth 32)
  else none

theorem shamt_masked (n : BitVec 5) : n.setWidth 32 &&& 0x1f#32 = n.setWidth 32 := by
  apply BitVec.eq_of_toNat_eq
  rw [Shift.toNat_count, BitVec.toNat_setWidth]
  omega

theorem exec_shift (hs : d.shiftOf cfg inst = some (k, b)) :
    d.exec cfg inst host c =
      .brk (d.writeRegs cfg (rd inst) (k.eval .masked (d.readRegs cfg (rs1 inst)) b)) := by
  unfold shiftOf at hs
  split at hs
  · rename_i h
    cases hs
    simp [exec, arithR, arithBase, h, writeRd, Shift.eval, Shifts.masked]
  split at hs
  · rename_i h
    cases hs
    simp [exec, arithR, arithBase, h, writeRd, Shift.eval, Shifts.masked]
  split at hs
  · rename_i h
    cases hs
    simp [exec, arithR, arithAndn, h, writeRd, Shift.eval, Shifts.masked]
  split at hs
  · rename_i h
    cases hs
    simp [exec, arithR, arithB, h, writeRd, Shift.eval, Shifts.masked]
    rfl
  split at hs
  · rename_i h
    cases hs
    simp [exec, arithR, arithB, h, writeRd, Shift.eval, Shifts.masked]
    rfl
  split at hs
  · rename_i h
    cases hs
    simp [exec, arithI, h, writeRd, Shift.eval, Shifts.masked, shamt_masked]
    rfl
  · cases hs

/-- What an arm that shifts should do: only shifts that C defines, `rs1` shifted or rotated by the
low five bits of the count, and the value of the core where it has the instruction. -/
structure ShiftLaw (d : Rv) (cfg : Config) (inst : Word) (k : Shift) (b v : Word) : Prop where
  defined : (k.eval .standard (d.readRegs cfg (rs1 inst)) b).isSome = true
  value : v = k.result (d.readRegs cfg (rs1 inst)) (b.toNat % 32)
  core : ∀ (p : Rtl.Param) (x : Rtl.Slot), x.ex = Rtl.decode p inst →
    x.aluOp1 = d.readRegs cfg (rs1 inst) → x.aluOp2 = b →
    k = .sll ∨ k = .srl ∨ k = .sra → v = x.aluResult

theorem aluResult_shift {p : Rtl.Param} {x : Rtl.Slot} (hx : x.ex = Rtl.decode p inst)
    (hs : d.shiftOf cfg inst = some (k, b)) (hk : k = .sll ∨ k = .srl ∨ k = .sra) :
    x.aluResult = k.result x.aluOp1 (x.aluOp2.toNat % 32) := by
  have hop : x.ex.aluOp = func3 inst := by rw [hx]; rfl
  have hsub : opcode inst = opArithR → x.ex.subtype = inst.getLsbD 30 := by
    intro ho
    rw [hx]
    simp [Rtl.decode, ho]
  have hbit : inst.getLsbD 30 = (func7 inst).getLsbD 5 := by
    simp [func7]
  have hn : (x.aluOp2.extractLsb' 0 5).toNat = x.aluOp2.toNat % 32 := by
    simp [BitVec.extractLsb'_toNat]
  unfold shiftOf at hs
  split at hs
  · rename_i h
    cases hs
    simp [Rtl.Slot.aluResult, hop, h, hn, Shift.result]
  split at hs
  · rename_i h
    cases hs
    have hlow : x.ex.subtype = false := by rw [hsub h.1, hbit, h.2.1]; rfl
    simp [Rtl.Slot.aluResult, hop, h, hn, hlow, Shift.result]
  split at hs
  · rename_i h
    cases hs
    have hhigh : x.ex.subtype = true := by rw [hsub h.1, hbit, h.2.1]; rfl
    simp [Rtl.Slot.aluResult, hop, h, hn, hhigh, Shift.result]
  split at hs
  · cases hs
    simp at hk
  split at hs
  · cases hs
    simp at hk
  split at hs
  · cases hs
    simp at hk
  · cases hs

/-- Shifts and rotates keep their law just where every count is below 32: not for a shift by a
larger register, and not for a rotate by a multiple of 32. -/
theorem shift_defined_iff (cfg : Config) (host : Host) (rv d : Rv) (inst : Word) (c : Bool)
    (k : Shift) (b : Word) (hd : rv.dispatch cfg host = .ok (d, inst, c))
    (hs : d.shiftOf cfg inst = some (k, b)) (hr : (rd inst).toNat < cfg.regnum) :
    d.ShiftLaw cfg inst k b ((srv32Step cfg host rv).2.regs (rd inst)) ↔ k.Safe b := by
  have hexec : d.exec cfg inst host c = .brk (d.writeRegs cfg (rd inst) (k.eval .masked
      (d.readRegs cfg (rs1 inst)) b)) := exec_shift hs
  have hstep : (srv32Step cfg host rv).2.regs (rd inst) =
      k.result (d.readRegs cfg (rs1 inst)) (b.toNat % 32) := by
    rw [srv32Step_eq, hd]
    refine (congrArg (fun s : Ret × Rv => s.2.regs (rd inst)) (execNext_brk hexec)).trans ?_
    rw [← Shift.eval_masked]
    exact writeRegs_self _ hr
  constructor
  · intro h
    exact (Shift.isSome_eval_iff _ b k).mp h.defined
  · intro h
    refine ⟨(Shift.isSome_eval_iff _ b k).mpr h, hstep, ?_⟩
    intro p x hx h1 h2 hk
    rw [hstep, aluResult_shift hx hs hk, h1, h2]

/-- Before `sll x3, x1, x2`, with 1 in `x1` and an immediate in `x2`. -/
def atSll (li : Word) : Rv :=
  run .rv32im (fun _ => .none) (Rv.boot .rv32im 1 (image [0x00100093#32, li, 0x002091b3#32])) 2

theorem dispatch_atSll (li : Word) (h : ((atSll li).prologue .rv32im .none).2 = 0x002091b3#32) :
    (atSll li).dispatch .rv32im .none =
      .ok (((atSll li).prologue .rv32im .none).1, 0x002091b3#32, false) := by
  rw [dispatch_rv32im, h]

/-- After `addi x2, x0, 32` the simulator evaluates a shift by 32. -/
theorem shift_undefined_by_32 :
    let d := ((atSll 0x02000113#32).prologue .rv32im .none).1
    (atSll 0x02000113#32).dispatch .rv32im .none = .ok (d, 0x002091b3#32, false) ∧
      d.shiftOf .rv32im 0x002091b3#32 = some (.sll, 32#32) ∧
      ¬ d.ShiftLaw .rv32im 0x002091b3#32 .sll 32#32
        ((srv32Step .rv32im .none (atSll 0x02000113#32)).2.regs 3#5) := by
  intro d
  refine ⟨dispatch_atSll _ (by decide +kernel), by decide +kernel, ?_⟩
  intro h
  exact absurd h.defined (by simp [Shift.eval, Shifts.standard])

/-- After `addi x2, x0, 3` it shifts by 3. -/
theorem shift_defined_by_3 :
    ((atSll 0x00300113#32).prologue .rv32im .none).1.ShiftLaw .rv32im 0x002091b3#32 .sll 3#32
      ((srv32Step .rv32im .none (atSll 0x00300113#32)).2.regs (rd 0x002091b3#32)) :=
  (shift_defined_iff .rv32im .none (atSll 0x00300113#32)
    ((atSll 0x00300113#32).prologue .rv32im .none).1 0x002091b3#32 false .sll 3#32
    (dispatch_atSll _ (by decide +kernel)) (by decide +kernel) (by decide)).mpr (by decide)

end Rv

end Srv32.Iss
